import Addition.RpcAccess

/-!
# What the public port runs

Whatever arrives at the public port, at most one command is run for it, never as a trusted one, and its
name, as the command itself reads it, is one of those that only read. A command in JSON gets exactly
the words of its parameters, which need not be the parameters.
-/

namespace Addition

namespace Rpc

open ByteStrings StreamWords TextLines

/-! ### Words of a command -/

theorem words_ne_nil (octet : UInt8) (rest : Bytes) (dark : isSpace octet = false) :
    words (octet :: rest) ≠ [] := by
  rw [words_eq, word, List.dropWhile_cons_of_neg (by simp [dark])]
  simp

/-- White space between two texts keeps their words apart. -/
theorem words_space (left right : Bytes) (octet : UInt8) (space : isSpace octet = true) :
    words (left ++ octet :: right) = words left ++ words right := by
  induction left with
  | nil => exact words_skip octet right space
  | cons first rest ih =>
    rw [List.cons_append, words, words, ih]
    split
    · rfl
    cases rest with
    | nil => simp [space, words]
    | cons second others =>
      rw [List.cons_append, List.head?_cons, List.head?_cons]
      split
      · rfl
      · rename_i inside
        have dark : isSpace second = false := by simpa using inside
        cases found : words (second :: others) with
        | nil => exact absurd found (words_ne_nil second others dark)
        | cons one more => rfl

/-- A word has octets, and none of them is white space. -/
theorem words_plain (text : Bytes) : ∀ found ∈ words text, found ≠ [] ∧ Spaceless found := by
  induction text with
  | nil => exact fun found here => absurd here (by simp [words])
  | cons octet rest ih =>
    intro found here
    rw [words] at here
    split at here
    · exact ih found here
    rename_i bright
    have dark : isSpace octet = false := by simpa using bright
    have alone : Spaceless [octet] := by simpa [Spaceless] using dark
    split at here
    · rcases List.mem_cons.mp here with rfl | later
      · exact ⟨List.cons_ne_nil _ _, alone⟩
      · exact ih found later
    split at here
    · obtain rfl := List.mem_singleton.mp here
      exact ⟨List.cons_ne_nil _ _, alone⟩
    · rename_i first others split
      rcases List.mem_cons.mp here with rfl | later
      · have before := (ih first (by rw [split]; exact List.mem_cons_self)).2
        exact ⟨List.cons_ne_nil _ _, alone.append before⟩
      · exact ih found (by rw [split]; exact List.mem_cons_of_mem _ later)

theorem words_joinTextCommand (method : Bytes) (params : List Bytes) :
    words (joinTextCommand method params) = words method ++ params.flatMap words := by
  induction params generalizing method with
  | nil => simp [joinTextCommand]
  | cons param rest ih =>
    have again : joinTextCommand method (param :: rest) =
        joinTextCommand (method ++ byte ' ' :: param) rest := by
      simp [joinTextCommand]
    rw [again, ih, words_space _ _ _ (by decide), List.flatMap_cons, List.append_assoc]

/-- A text is its own only word when it has octets and no white space. -/
theorem words_single {text : Bytes} (plain : Spaceless text) (some : text ≠ []) : words text = [text] := by
  rw [words_eq, word_last plain some]
  rfl

theorem flatMap_words_iff (params : List Bytes) :
    params.flatMap words = params ↔ ∀ param ∈ params, param ≠ [] ∧ Spaceless param := by
  constructor
  · intro same param here
    rw [← same] at here
    obtain ⟨source, -, found⟩ := List.mem_flatMap.mp here
    exact words_plain source param found
  · intro plain
    induction params with
    | nil => rfl
    | cons param rest ih =>
      have first := plain param List.mem_cons_self
      rw [List.flatMap_cons, words_single first.2 first.1,
        ih fun other here => plain other (List.mem_cons_of_mem _ here)]
      rfl

/-- The names of commands are words. -/
theorem publicReadCommands_plain : ∀ cmd ∈ publicReadCommands, cmd ≠ [] ∧ Spaceless cmd := by
  have checked : ∀ cmd ∈ publicReadCommands, cmd ≠ [] ∧ cmd.all (fun octet => !isSpace octet) = true := by
    decide
  exact fun cmd here => ⟨(checked cmd here).1, spaceless_of_all (checked cmd here).2⟩

/-! ### What is run -/

/-- At most one command is run, not as a trusted one, and it only reads. -/
def Served.ReadsOnly (served : Served) : Prop :=
  served.calls.length ≤ 1 ∧
    ∀ call ∈ served.calls, call.2 = false ∧ firstCommandToken call.1 ∈ publicReadCommands

theorem Served.readsOnly_plain (reply : Bytes) : (Served.plain reply).ReadsOnly :=
  ⟨Nat.zero_le _, fun _ here => absurd here (List.not_mem_nil)⟩

theorem Served.readsOnly_call (handle : Handle) {line : Bytes} (wrap : Bytes → Bytes)
    (known : firstCommandToken line ∈ publicReadCommands) : (Served.call handle line wrap).ReadsOnly := by
  constructor
  · exact le_refl 1
  · intro call here
    obtain rfl := List.mem_singleton.mp here
    exact ⟨rfl, known⟩

theorem Served.ReadsOnly.map {served : Served} (reads : served.ReadsOnly) (wrap : Bytes → Bytes) :
    (served.map wrap).ReadsOnly := reads

theorem mem_of_isPublicReadCommand {cmd : Bytes} (known : isPublicReadCommand cmd = true) :
    cmd ∈ publicReadCommands := of_decide_eq_true known

/-- The name is the first word of a joined command, whatever the parameters. -/
theorem firstCommandToken_joinTextCommand {method : Bytes} (params : List Bytes) (some : method ≠ [])
    (plain : Spaceless method) : firstCommandToken (joinTextCommand method params) = method := by
  unfold firstCommandToken wordOr
  cases params with
  | nil =>
    rw [show joinTextCommand method [] = method by simp [joinTextCommand], word_last plain some]
    rfl
  | cons param rest =>
    have front : joinTextCommand method (param :: rest) =
        method ++ byte ' ' :: (param ++ rest.flatMap (fun param => byte ' ' :: param)) := by
      simp [joinTextCommand]
    rw [front, word_space plain some _ (by decide)]
    rfl

theorem serveLine_readsOnly (handle : Handle) (line refused : Bytes) (wrap : Bytes → Bytes) :
    (serveLine handle line refused wrap).ReadsOnly := by
  unfold serveLine
  split
  · rename_i known
    exact Served.readsOnly_call handle wrap (mem_of_isPublicReadCommand known)
  · exact Served.readsOnly_plain refused

/-- What is needed of a command in JSON for it to be run, and what is run then. -/
theorem dispatchPublicJsonrpc_cases (handle : Handle) (method : Bytes) (params : List Bytes) (id : Bytes) :
    (∃ reply, dispatchPublicJsonrpc handle method params id = .plain reply) ∨
    (method ∈ publicReadCommands ∧ (∀ param ∈ params, ∀ octet ∈ param, breaksParam octet = false) ∧
      dispatchPublicJsonrpc handle method params id =
        .call handle (joinTextCommand method params) (jsonrpcReply id)) := by
  unfold dispatchPublicJsonrpc
  split
  · exact .inl ⟨_, rfl⟩
  split
  · exact .inl ⟨_, rfl⟩
  split
  · exact .inl ⟨_, rfl⟩
  · rename_i _ known whole
    exact .inr ⟨mem_of_isPublicReadCommand (by simpa using known), by simpa using whole, rfl⟩

theorem dispatchPublicJsonrpc_readsOnly (handle : Handle) (method : Bytes) (params : List Bytes)
    (id : Bytes) : (dispatchPublicJsonrpc handle method params id).ReadsOnly := by
  rcases dispatchPublicJsonrpc_cases handle method params id with ⟨reply, refused⟩ | ⟨known, -, ran⟩
  · rw [refused]
    exact Served.readsOnly_plain reply
  · have name := publicReadCommands_plain method known
    rw [ran]
    apply Served.readsOnly_call
    rw [firstCommandToken_joinTextCommand params name.1 name.2]
    exact known

theorem serveQuery_readsOnly (handle : Handle) (query : Bytes) : (serveQuery handle query).ReadsOnly := by
  unfold serveQuery
  apply Served.ReadsOnly.map
  split
  · exact Served.readsOnly_plain _
  · exact dispatchPublicJsonrpc_readsOnly ..

theorem serveBody_readsOnly (handle : Handle) (body : Bytes) : (serveBody handle body).ReadsOnly := by
  unfold serveBody
  apply Served.ReadsOnly.map
  split
  · exact Served.readsOnly_plain _
  · exact dispatchPublicJsonrpc_readsOnly ..

theorem serveCommand_readsOnly (handle : Handle) (raw method : Bytes) :
    (serveCommand handle raw method).ReadsOnly := by
  unfold serveCommand
  split
  · split
    · exact Served.readsOnly_plain _
    · exact Served.readsOnly_plain _
  · split
    · exact Served.readsOnly_plain _
    · exact serveLine_readsOnly ..

theorem serveRequest_readsOnly (handle : Handle) (networkMode raw : Bytes) (request : RequestLine) :
    (serveRequest handle networkMode raw request).ReadsOnly := by
  unfold serveRequest
  split
  · exact Served.readsOnly_plain _
  split
  · exact Served.readsOnly_plain _
  split
  · split
    · exact Served.readsOnly_plain _
    split
    · exact serveQuery_readsOnly ..
    split
    · exact serveBody_readsOnly ..
    · exact Served.readsOnly_plain _
  · exact serveCommand_readsOnly ..

/-- Whatever arrives, at most one command is run for it, untrusted, and its name is one of those that
only read, which are among those that may be run from afar. -/
theorem public_reads_only (handle : Handle) (networkMode raw : Bytes) :
    (dispatchPublicReadRpc handle networkMode raw).calls.length ≤ 1 ∧
      ∀ call ∈ (dispatchPublicReadRpc handle networkMode raw).calls,
        call.2 = false ∧ firstCommandToken call.1 ∈ publicReadCommands ∧
          isRemoteAllowedCommand (firstCommandToken call.1) = true := by
  have reads : (dispatchPublicReadRpc handle networkMode raw).ReadsOnly := by
    unfold dispatchPublicReadRpc
    split
    · split
      · exact Served.readsOnly_plain _
      · exact serveRequest_readsOnly ..
    · exact serveLine_readsOnly ..
  obtain ⟨single, each⟩ := reads
  refine ⟨single, fun call here => ?_⟩
  obtain ⟨untrusted, known⟩ := each call here
  exact ⟨untrusted, known, by simp [isRemoteAllowedCommand, isPublicReadCommand, known]⟩

/-! ### What a command in JSON is given -/

/-- The octets that are white space to a command and no break to the check of parameters. -/
theorem spaceless_iff {param : Bytes} (whole : ∀ octet ∈ param, breaksParam octet = false) :
    Spaceless param ↔ (9 : UInt8) ∉ param ∧ (11 : UInt8) ∉ param ∧ (12 : UInt8) ∉ param := by
  have octets : ∀ octet : UInt8, breaksParam octet = false →
      (isSpace octet = false ↔ octet ≠ 9 ∧ octet ≠ 11 ∧ octet ≠ 12) := by
    intro octet unbroken
    simp only [breaksParam, isSpace, Bool.or_eq_false_iff, beq_eq_false_iff_ne, decide_eq_false_iff_not,
      ne_eq, ← UInt8.toNat_inj, UInt8.reduceToNat] at unbroken ⊢
    omega
  constructor
  · intro plain
    refine ⟨fun tab => ?_, fun line => ?_, fun page => ?_⟩
    · exact absurd (plain 9 tab) (by decide)
    · exact absurd (plain 11 line) (by decide)
    · exact absurd (plain 12 page) (by decide)
  · rintro ⟨tab, line, page⟩ octet here
    refine (octets octet (whole octet here)).mpr ⟨?_, ?_, ?_⟩
    · rintro rfl
      exact tab here
    · rintro rfl
      exact line here
    · rintro rfl
      exact page here

/-- The words of a command that is run for a call in JSON are the method and the words of the
parameters. They are the parameters exactly when no parameter is empty or has a tab, a vertical tab or
a form feed, which the check lets through. -/
theorem called_words (handle : Handle) (method : Bytes) (params : List Bytes) (id : Bytes)
    (call : Bytes × Bool) (called : call ∈ (dispatchPublicJsonrpc handle method params id).calls) :
    words call.1 = method :: params.flatMap words ∧
      (words call.1 = method :: params ↔
        ∀ param ∈ params, param ≠ [] ∧ (9 : UInt8) ∉ param ∧ (11 : UInt8) ∉ param ∧ (12 : UInt8) ∉ param) := by
  rcases dispatchPublicJsonrpc_cases handle method params id with ⟨reply, refused⟩ | ⟨known, whole, ran⟩
  · rw [refused] at called
    exact absurd called List.not_mem_nil
  · rw [ran] at called
    obtain rfl := List.mem_singleton.mp called
    have name := publicReadCommands_plain method known
    have read : words (joinTextCommand method params) = method :: params.flatMap words := by
      rw [words_joinTextCommand, words_single name.2 name.1, List.singleton_append]
    refine ⟨read, ?_⟩
    rw [read, List.cons_inj_right, flatMap_words_iff]
    constructor
    · intro plain param here
      exact ⟨(plain param here).1, (spaceless_iff (whole param here)).mp (plain param here).2⟩
    · intro plain param here
      exact ⟨(plain param here).1, (spaceless_iff (whole param here)).mpr (plain param here).2⟩

/-- A block is asked for at a height with a tab in it. -/
theorem called_words_tab :
    let params : List Bytes := [[byte '1', 9, byte '2']]
    let line := joinTextCommand (ascii "getblock") params
    words line = ascii "getblock" :: params.flatMap words ∧
      (words line = ascii "getblock" :: params ↔
        ∀ param ∈ params, param ≠ [] ∧ (9 : UInt8) ∉ param ∧ (11 : UInt8) ∉ param ∧ (12 : UInt8) ∉ param) :=
  called_words (fun _ _ => []) (ascii "getblock") [[byte '1', 9, byte '2']] (ascii "1")
    (joinTextCommand (ascii "getblock") [[byte '1', 9, byte '2']], false) (by decide)

end Rpc

end Addition
