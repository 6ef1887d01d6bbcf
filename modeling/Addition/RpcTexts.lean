import Addition.RpcAccess

/-!
# Requests in JSON

A text in JSON comes back from what was written for it exactly when it has no control octets but three.
A request is read as its members one after the other: a later member stands for an earlier one, but the
parameters of a second list are put behind those of the first, and what follows the object is not
looked at.
-/

namespace Addition

namespace Rpc

open ByteStrings StreamWords TextLines

/-! ### Texts in JSON -/

/-- The octets that `json_escape` writes so that they can be read: no control octets but the tab, the
line feed and the carriage return. -/
def readable (octet : UInt8) : Bool := decide (32 ≤ octet) || octet == 9 || octet == 10 || octet == 13

/-- One octet is read from what was written for it, and a control octet is refused. -/
theorem readString_escapeOctet (octet : UInt8) (tail : Bytes) :
    readString (escapeOctet octet ++ tail) =
      if readable octet then (readString tail).map (fun (text, left) => (octet :: text, left)) else none := by
  by_cases quote : octet = 34
  · subst quote
    rfl
  by_cases slash : octet = 92
  · subst slash
    rfl
  by_cases line : octet = 10
  · subst line
    rfl
  by_cases back : octet = 13
  · subst back
    rfl
  by_cases tab : octet = 9
  · subst tab
    rfl
  simp only [escapeOctet, quote, slash, line, back, tab, if_false]
  by_cases control : octet < 32
  · have unreadable : readable octet = false := by
      simp [readable, line, back, tab, UInt8.not_le.mpr control]
    rw [if_pos control, unreadable]
    rfl
  · have fine : readable octet = true := by simp [readable, UInt8.not_lt.mp control]
    rw [if_neg control, fine, List.singleton_append, readString.eq_def]
    simp [quote, slash]

theorem readString_jsonEscape (text rest : Bytes) :
    readString (jsonEscape text ++ 34 :: rest) = if text.all readable then some (text, rest) else none := by
  induction text with
  | nil =>
    rw [readString.eq_def]
    simp [jsonEscape]
  | cons octet tail ih =>
    have front : jsonEscape (octet :: tail) ++ 34 :: rest =
        escapeOctet octet ++ (jsonEscape tail ++ 34 :: rest) := by
      simp [jsonEscape]
    rw [front, readString_escapeOctet, ih, List.all_cons]
    cases readable octet with
    | false => rfl
    | true =>
      rw [Bool.true_and, if_pos rfl]
      split
      · rfl
      · rfl

/-- Behind its mark a text is read octet by octet. -/
theorem parseJsonString_opened (text rest : Bytes) :
    parseJsonString (quoted text ++ rest) = readString (jsonEscape text ++ 34 :: rest) := by
  simp [parseJsonString, quoted, skipWs, isJsonSpace]

/-- A text between quotation marks is read back as it was, and what follows is left, when all its octets
are readable; otherwise the reader refuses what was written. -/
theorem parseJsonString_quoted (text rest : Bytes) :
    parseJsonString (quoted text ++ rest) = if text.all readable then some (text, rest) else none := by
  rw [parseJsonString_opened, readString_jsonEscape]

/-! ### Requests -/

/-- A text that comes back from JSON. -/
structure JsonText where
  octets : Bytes
  plain : ∀ octet ∈ octets, 32 ≤ octet ∨ octet = 9 ∨ octet = 10 ∨ octet = 13

/-- A number as it is written: a sign that may be missing, and digits. -/
structure JsonNumber where
  negative : Bool
  digits : Bytes
  some : digits ≠ []
  plain : ∀ octet ∈ digits, isDigit octet = true

/-- The octets of a number. -/
def JsonNumber.octets (number : JsonNumber) : Bytes :=
  if number.negative then byte '-' :: number.digits else number.digits

/-- An entry of the parameters. -/
inductive Entry where
  | text (value : JsonText)
  | number (value : JsonNumber)

/-- What an entry stands for. -/
def Entry.value : Entry → Bytes
  | .text value => value.octets
  | .number value => value.octets

/-- The octets of an entry. -/
def Entry.written : Entry → Bytes
  | .text value => quoted value.octets
  | .number value => value.octets

/-- A member of a request. -/
inductive Member where
  | jsonrpc (version : JsonText)
  | method (name : JsonText)
  | identifier (name : JsonText)
  | numbered (value : JsonNumber)
  | anonymous
  | params (entries : List Entry)

/-- The name of a member. -/
def Member.key : Member → Bytes
  | .jsonrpc _ => ascii "jsonrpc"
  | .method _ => ascii "method"
  | .identifier _ => ascii "id"
  | .numbered _ => ascii "id"
  | .anonymous => ascii "id"
  | .params _ => ascii "params"

/-- The entries of a list and the bracket behind them. -/
def entriesWritten : List Entry → Bytes
  | [] => [byte ']']
  | [last] => last.written ++ [byte ']']
  | first :: second :: rest => first.written ++ byte ',' :: entriesWritten (second :: rest)

/-- The octets of the value of a member. -/
def Member.value : Member → Bytes
  | .jsonrpc version => quoted version.octets
  | .method name => quoted name.octets
  | .identifier name => quoted name.octets
  | .numbered value => value.octets
  | .anonymous => ascii "null"
  | .params entries => byte '[' :: entriesWritten entries

/-- The octets of a member. -/
def Member.written (member : Member) : Bytes := quoted member.key ++ byte ':' :: member.value

/-- The members of an object and the brace behind them. -/
def membersWritten : List Member → Bytes
  | [] => [byte '\x7d']
  | [last] => last.written ++ [byte '\x7d']
  | first :: second :: rest => first.written ++ byte ',' :: membersWritten (second :: rest)

/-- A request that is written without white space. -/
def requestWritten (parts : List Member) : Bytes := byte '\x7b' :: membersWritten parts

/-- What a member stands for. -/
def Member.apply (request : JsonRequest) : Member → JsonRequest
  | .jsonrpc version => { request with jsonrpc := version.octets }
  | .method name => { request with method := name.octets, haveMethod := true }
  | .identifier name => { request with id := quoted name.octets }
  | .numbered value => { request with id := value.octets }
  | .anonymous => { request with id := ascii "null" }
  | .params entries => { request with params := request.params ++ entries.map Entry.value }

/-! #### Their parts -/

theorem skipWs_cons (octet : UInt8) (rest : Bytes) (dark : isJsonSpace octet = false) :
    skipWs (octet :: rest) = octet :: rest := List.dropWhile_cons_of_neg (by simp [dark])

theorem parseJsonString_written (text : JsonText) (rest : Bytes) :
    parseJsonString (quoted text.octets ++ rest) = some (text.octets, rest) := by
  have plain : text.octets.all readable = true := by simpa [readable, or_assoc] using text.plain
  rw [parseJsonString_opened, readString_jsonEscape, if_pos plain]

theorem isJsonSpace_of_isDigit (octet : UInt8) (digit : isDigit octet = true) :
    isJsonSpace octet = false := by
  simp only [isDigit, decide_eq_true_eq] at digit
  simp only [isJsonSpace, Bool.or_eq_false_iff, beq_eq_false_iff_ne, ne_eq, ← UInt8.toNat_inj,
    UInt8.reduceToNat]
  omega

/-- What a number begins with is no white space and opens nothing else. -/
theorem JsonNumber.front (number : JsonNumber) :
    ∃ first others, number.octets = first :: others ∧ isJsonSpace first = false ∧
      first ≠ 34 ∧ first ≠ byte ']' ∧ first ≠ byte 'n' := by
  obtain ⟨first, others, shape⟩ := List.exists_cons_of_ne_nil number.some
  have digit := number.plain first (by simp [shape])
  unfold JsonNumber.octets
  split
  · exact ⟨byte '-', number.digits, rfl, by decide, by decide, by decide, by decide⟩
  · refine ⟨first, others, shape, isJsonSpace_of_isDigit first digit, ?_, ?_, ?_⟩ <;>
    · rintro rfl
      exact absurd digit (by decide)

/-- A number is read up to an octet that is no digit. -/
theorem parseJsonNumberToken_written (number : JsonNumber) (mark : UInt8) (rest : Bytes)
    (ends : isDigit mark = false) :
    parseJsonNumberToken (number.octets ++ mark :: rest) = some (number.octets, mark :: rest) := by
  have taken : (number.digits ++ mark :: rest).takeWhile isDigit = number.digits := by
    rw [List.takeWhile_append_of_pos number.plain]
    simp [ends]
  have left : (number.digits ++ mark :: rest).dropWhile isDigit = mark :: rest := by
    rw [List.dropWhile_append_of_pos number.plain]
    simp [ends]
  have read (sign : Bytes) : signedDigits sign (number.digits ++ mark :: rest) =
      some (sign ++ number.digits, mark :: rest) := by
    simp [signedDigits, taken, left, number.some]
  cases signed : number.negative with
  | true =>
    rw [JsonNumber.octets, if_pos signed, List.cons_append, parseJsonNumberToken,
      skipWs_cons _ _ (by decide)]
    simp only [if_true, read, List.singleton_append]
  | false =>
    obtain ⟨first, others, shape⟩ := List.exists_cons_of_ne_nil number.some
    have digit := number.plain first (by simp [shape])
    have sign : first ≠ byte '-' := by
      rintro rfl
      exact absurd digit (by decide)
    have unsigned := read []
    rw [JsonNumber.octets, if_neg (by simp [signed]), parseJsonNumberToken]
    rw [shape, List.cons_append] at unsigned ⊢
    rw [skipWs_cons first _ (isJsonSpace_of_isDigit first digit)]
    simp only [sign, if_false, unsigned, List.nil_append]

/-- What an entry begins with. -/
theorem Entry.written_front (entry : Entry) :
    ∃ octet others, entry.written = octet :: others ∧ octet ≠ byte ']' ∧ isJsonSpace octet = false := by
  cases entry with
  | text value => exact ⟨34, jsonEscape value.octets ++ [34], rfl, by decide, rfl⟩
  | number value =>
    obtain ⟨first, others, shape, dark, _, closes, _⟩ := value.front
    exact ⟨first, others, shape, closes, dark⟩

theorem element_written (entry : Entry) (mark : UInt8) (rest : Bytes) (ends : isDigit mark = false) :
    element (entry.written ++ mark :: rest) = .ok (entry.value, mark :: rest) := by
  cases entry with
  | text value =>
    have read := parseJsonString_written value (mark :: rest)
    have opened : skipWs (quoted value.octets ++ mark :: rest) =
        34 :: (jsonEscape value.octets ++ [34] ++ mark :: rest) := skipWs_cons 34 _ rfl
    simp only [element, Entry.written, Entry.value, opened, if_true, read]
  | number value =>
    have read := parseJsonNumberToken_written value mark rest ends
    obtain ⟨first, others, shape, dark, other, _⟩ := value.front
    have opened : skipWs (value.octets ++ mark :: rest) = first :: (others ++ mark :: rest) := by
      rw [shape]
      exact skipWs_cons first _ dark
    simp only [element, Entry.written, Entry.value, opened, other, if_false, read]

variable {behind left : Bytes} {mark : UInt8} {text : Bytes}

/-- An entry is read together with the mark behind it. -/
theorem elements_entry (params : List Bytes) {value : Bytes}
    (opens : ∃ octet others, text = octet :: others ∧ octet ≠ byte ']')
    (read : element text = .ok (value, left)) (marked : skipWs left = mark :: behind) :
    elements params text =
      if mark = byte ',' then elements (params ++ [value]) behind
      else if mark = byte ']' then .ok (params ++ [value], behind)
      else .error "invalid params array" := by
  obtain ⟨octet, others, rfl, other⟩ := opens
  rw [elements, if_neg other]
  split
  · rename_i refusal refused
    rw [read] at refused
    exact absurd refused (by simp)
  · rename_i value' left' again
    obtain ⟨rfl, rfl⟩ := Prod.mk.inj (Except.ok.inj (read.symm.trans again))
    split
    · rename_i none'
      exact absurd (marked.symm.trans none') (by simp)
    · rename_i mark' behind' same
      obtain ⟨rfl, rfl⟩ := List.cons.inj (marked.symm.trans same)
      rfl

theorem elements_written (params : List Bytes) (entries : List Entry) (rest : Bytes) :
    elements params (entriesWritten entries ++ rest) = .ok (params ++ entries.map Entry.value, rest) := by
  fun_induction entriesWritten entries generalizing params with
  | case1 => simp [elements]
  | case2 last =>
    obtain ⟨octet, others, shape, other, -⟩ := last.written_front
    rw [List.append_assoc, List.singleton_append,
      elements_entry params ⟨octet, others ++ byte ']' :: rest, by rw [shape]; rfl, other⟩
        (element_written last (byte ']') rest (by decide)) (skipWs_cons _ _ (by decide)),
      if_neg (by decide), if_pos rfl]
    rfl
  | case3 first second more ih =>
    obtain ⟨octet, others, shape, other, -⟩ := first.written_front
    rw [List.append_assoc, List.cons_append,
      elements_entry params ⟨octet, others ++ byte ',' :: (entriesWritten (second :: more) ++ rest),
        by rw [shape]; rfl, other⟩
        (element_written first (byte ',') _ (by decide)) (skipWs_cons _ _ (by decide)),
      if_pos rfl, ih, List.append_assoc]
    rfl

theorem entriesWritten_front (entries : List Entry) :
    ∃ octet others, entriesWritten entries = octet :: others ∧ isJsonSpace octet = false := by
  match entries with
  | [] => exact ⟨byte ']', [], rfl, by decide⟩
  | [last] =>
    obtain ⟨octet, others, shape, -, dark⟩ := last.written_front
    exact ⟨octet, others ++ [byte ']'], by rw [entriesWritten, shape]; rfl, dark⟩
  | first :: second :: more =>
    obtain ⟨octet, others, shape, -, dark⟩ := first.written_front
    exact ⟨octet, others ++ byte ',' :: entriesWritten (second :: more), by rw [entriesWritten, shape]; rfl,
      dark⟩

/-- The value of a member is read up to the mark behind it. -/
theorem field_written (request : JsonRequest) (member : Member) (mark : UInt8) (rest : Bytes)
    (ends : isDigit mark = false) :
    field request member.key (member.value ++ mark :: rest) = .ok (member.apply request, mark :: rest) := by
  cases member with
  | jsonrpc version =>
    simp only [field, Member.key, Member.value, Member.apply, if_true, parseJsonString_written]
  | method name =>
    have other : ascii "method" ≠ ascii "jsonrpc" := by decide
    simp only [field, Member.key, Member.value, Member.apply, if_true, parseJsonString_written, other,
      if_false]
  | identifier name =>
    have other : ascii "id" ≠ ascii "jsonrpc" ∧ ascii "id" ≠ ascii "method" := by decide
    have opens : (quoted name.octets ++ mark :: rest).head? = some 34 := rfl
    simp only [field, Member.key, Member.value, Member.apply, if_true, parseJsonString_written, other.1,
      other.2, opens, if_false]
  | numbered value =>
    have other : ascii "id" ≠ ascii "jsonrpc" ∧ ascii "id" ≠ ascii "method" := by decide
    have read := parseJsonNumberToken_written value mark rest ends
    obtain ⟨first, others, shape, _, text, _, null⟩ := value.front
    have opens : (value.octets ++ mark :: rest).head? ≠ some 34 := by
      rw [shape]
      exact fun same => text (Option.some.inj same)
    have named : (ascii "null").isPrefixOf (value.octets ++ mark :: rest) = false := by
      rw [shape, Bool.eq_false_iff]
      intro named
      obtain ⟨tail, same⟩ := List.isPrefixOf_iff_prefix.mp named
      exact null (List.cons.inj same).1.symm
    simp only [field, Member.key, Member.value, Member.apply, if_true, other.1, other.2, opens, named, read,
      if_false, Bool.false_eq_true]
  | anonymous =>
    have other : ascii "id" ≠ ascii "jsonrpc" ∧ ascii "id" ≠ ascii "method" := by decide
    have opens : (ascii "null" ++ mark :: rest).head? ≠ some 34 :=
      fun same => absurd (Option.some.inj same) (by decide)
    have named : (ascii "null").isPrefixOf (ascii "null" ++ mark :: rest) = true := by
      rw [List.isPrefixOf_iff_prefix]
      exact List.prefix_append _ _
    have left : (ascii "null" ++ mark :: rest).drop 4 = mark :: rest := rfl
    simp only [field, Member.key, Member.value, Member.apply, if_true, other.1, other.2, opens, named, left,
      if_false]
  | params entries =>
    have other : ascii "params" ≠ ascii "jsonrpc" ∧ ascii "params" ≠ ascii "method" ∧
      ascii "params" ≠ ascii "id" := by decide
    have opens : skipWs (entriesWritten entries ++ mark :: rest) = entriesWritten entries ++ mark :: rest := by
      obtain ⟨octet, others, shape, dark⟩ := entriesWritten_front entries
      rw [shape]
      exact skipWs_cons octet _ dark
    simp only [field, Member.key, Member.value, Member.apply, if_true, other.1, other.2.1, other.2.2, if_false,
      List.cons_append, opens, elements_written]
    rfl

theorem Member.value_front (member : Member) :
    ∃ octet others, member.value = octet :: others ∧ isJsonSpace octet = false := by
  cases member with
  | jsonrpc version => exact ⟨34, jsonEscape version.octets ++ [34], rfl, rfl⟩
  | method name => exact ⟨34, jsonEscape name.octets ++ [34], rfl, rfl⟩
  | identifier name => exact ⟨34, jsonEscape name.octets ++ [34], rfl, rfl⟩
  | numbered value =>
    obtain ⟨first, others, shape, dark, _⟩ := value.front
    exact ⟨first, others, shape, dark⟩
  | anonymous => exact ⟨byte 'n', ascii "ull", rfl, by decide⟩
  | params entries => exact ⟨byte '[', entriesWritten entries, rfl, by decide⟩

theorem Member.key_plain (member : Member) :
    ∀ octet ∈ member.key, 32 ≤ octet ∨ octet = 9 ∨ octet = 10 ∨ octet = 13 := by
  have all : member.key.all (fun octet => decide (32 ≤ octet ∨ octet = 9 ∨ octet = 10 ∨ octet = 13)) = true := by
    cases member <;> rfl
  intro octet mem
  exact of_decide_eq_true (List.all_eq_true.mp all octet mem)

/-- The key of a member comes back. -/
def Member.keyText (member : Member) : JsonText :=
  ⟨member.key, member.key_plain⟩

/-- A member whose parts can be read is read together with the mark behind it. -/
theorem members_step {request next : JsonRequest} {key value unread : Bytes}
    (opened : (skipWs text).head? ≠ some (byte '\x7d')) (named : parseJsonString text = some (key, left))
    (colon : skipWs left = byte ':' :: value) (ahead : (skipWs value).isEmpty = false)
    (read : field request key (skipWs value) = .ok (next, unread)) (marked : skipWs unread = mark :: behind) :
    members request text =
      if mark = byte ',' then members next behind
      else if mark = byte '\x7d' then .ok next
      else .error ("invalid JSON-RPC object", next.id) := by
  rw [members.eq_def]
  split
  · exact absurd named (by simp [parseJsonString, skipWs])
  rw [if_neg opened]
  split
  · rename_i none'
    exact absurd (named.symm.trans none') (by simp)
  rename_i key' left' again
  obtain ⟨rfl, rfl⟩ := Prod.mk.inj (Option.some.inj (named.symm.trans again))
  split
  · rename_i none'
    exact absurd (colon.symm.trans none') (by simp)
  rename_i colon' value' again'
  obtain ⟨rfl, rfl⟩ := List.cons.inj (colon.symm.trans again')
  rw [if_pos rfl, if_neg (by simp [ahead])]
  split
  · rename_i refusal refused
    exact absurd (read.symm.trans refused) (by simp)
  rename_i next' unread' again''
  obtain ⟨rfl, rfl⟩ := Prod.mk.inj (Except.ok.inj (read.symm.trans again''))
  split
  · rename_i none'
    exact absurd (marked.symm.trans none') (by simp)
  · rename_i mark' behind' same
    obtain ⟨rfl, rfl⟩ := List.cons.inj (marked.symm.trans same)
    rfl

theorem members_part (request : JsonRequest) (member : Member) (mark : UInt8) (rest : Bytes)
    (ends : isDigit mark = false) (dark : isJsonSpace mark = false) :
    members request (member.written ++ mark :: rest) =
      if mark = byte ',' then members (member.apply request) rest
      else if mark = byte '\x7d' then .ok (member.apply request)
      else .error ("invalid JSON-RPC object", (member.apply request).id) := by
  have whole : member.written ++ mark :: rest =
      quoted member.key ++ byte ':' :: (member.value ++ mark :: rest) := by
    simp [Member.written]
  obtain ⟨octet, others, shape, solid⟩ := member.value_front
  have ahead : skipWs (member.value ++ mark :: rest) = member.value ++ mark :: rest := by
    rw [shape]
    exact skipWs_cons octet _ solid
  rw [whole]
  have colon : skipWs (byte ':' :: (member.value ++ mark :: rest)) =
      byte ':' :: (member.value ++ mark :: rest) := skipWs_cons _ _ (by decide)
  refine members_step ?_ (parseJsonString_written member.keyText _) colon ?_ ?_ (skipWs_cons mark rest dark)
  · exact fun same => absurd (Option.some.inj same) (by decide)
  · rw [ahead]
    simp
  · rw [ahead]
    exact field_written request member mark rest ends

theorem members_written (request : JsonRequest) (parts : List Member) (rest : Bytes) :
    members request (membersWritten parts ++ rest) = .ok (parts.foldl Member.apply request) := by
  fun_induction membersWritten parts generalizing request with
  | case1 =>
    have closed : skipWs (byte '\x7d' :: rest) = byte '\x7d' :: rest := skipWs_cons _ _ (by decide)
    simp [members, closed]
  | case2 last =>
    rw [List.append_assoc, List.singleton_append, members_part request last _ rest (by decide) (by decide),
      if_neg (by decide), if_pos rfl]
    rfl
  | case3 first second more ih =>
    rw [List.append_assoc, List.cons_append, members_part request first _ _ (by decide) (by decide),
      if_pos rfl, ih]
    rfl

theorem Member.apply_method (request : JsonRequest) (member : Member)
    (known : request.haveMethod = false → request.method = []) :
    (member.apply request).haveMethod = false → (member.apply request).method = [] := by
  cases member with
  | method name => exact fun missing => absurd missing (by simp [Member.apply])
  | _ => exact known

theorem foldl_apply_method (parts : List Member) (request : JsonRequest)
    (known : request.haveMethod = false → request.method = []) :
    (parts.foldl Member.apply request).haveMethod = false → (parts.foldl Member.apply request).method = [] := by
  induction parts generalizing request with
  | nil => exact known
  | cons first rest ih =>
    exact ih (first.apply request) (first.apply_method request known)

/-- A request is read as its members one after the other, whatever their order and whatever follows the
object. It stands when its version is 2.0 and it has a method. -/
theorem parseJsonrpcRequest_written (parts : List Member) (rest : Bytes) :
    parseJsonrpcRequest (requestWritten parts ++ rest) =
      let read := parts.foldl Member.apply .empty
      if read.jsonrpc = ascii "2.0" ∧ read.method ≠ [] then .ok read
      else if read.jsonrpc = ascii "2.0" then .error ("method must be a string", read.id)
      else .error ("jsonrpc must be 2.0", read.id) := by
  have opened : skipWs (requestWritten parts ++ rest) = byte '\x7b' :: (membersWritten parts ++ rest) :=
    skipWs_cons _ _ (by decide)
  have missing := foldl_apply_method parts .empty (fun _ => rfl)
  simp only [parseJsonrpcRequest, opened, if_true, members_written]
  split
  · rename_i other
    rw [if_neg (fun both => other both.1)]
  split
  · rename_i version none'
    have unnamed : (parts.foldl Member.apply .empty).method = [] := none'.elim missing id
    rw [if_neg (fun both => both.2 unnamed), if_pos (not_not.mp version)]
  · rename_i version named
    rw [if_pos ⟨not_not.mp version, fun unnamed => named (.inr unnamed)⟩]

end Rpc

end Addition
