import Addition.Channels

/-!
# Channel states as texts

A state that was read from a text is written and read back unchanged: its payment
hashes contain none of the separators, since they were cut at them.
-/

namespace Addition.Channels

open ByteStrings Checked FiniteTables TextLines

/-- A text without the separators of a state. -/
structure PlainHash (text : Bytes) : Prop where
  colon : byte ':' ∉ text
  semicolon : byte ';' ∉ text
  comma : byte ',' ∉ text

/-- A state whose text can be read back. -/
structure Readable (state : State) : Prop where
  small : state.n < 2 ^ 64
  hashes : ∀ htlc ∈ state.htlcs, PlainHash htlc.paymentHash

/-! ### What is read is readable -/

theorem decodeHtlc_plain (text : Bytes) (htlc : Htlc) (colon : byte ':' ∉ text)
    (semicolon : byte ';' ∉ text) (read : decodeHtlc text = some htlc) :
    PlainHash htlc.paymentHash := by
  have fieldPlain : ∀ (stream : Option Bytes) (value : Bytes) (left : Option Bytes),
      Avoids (byte ':') stream → Avoids (byte ';') stream →
      (if (getline (byte ',') stream []).2.2 = true then
        some ((getline (byte ',') stream []).1, (getline (byte ',') stream []).2.1) else none) =
          some (value, left) →
      PlainHash value ∧ Avoids (byte ':') left ∧ Avoids (byte ';') left := by
    intro stream value left colons semicolons found
    have first := getline_avoids (byte ',') (byte ':') stream [] colons (by simp)
    have second := getline_avoids (byte ',') (byte ';') stream [] semicolons (by simp)
    have third := getline_absent (byte ',') stream [] (by simp)
    split at found
    · obtain ⟨rfl, rfl⟩ := Prod.mk.inj (Option.some.inj found)
      exact ⟨⟨first.1, second.1, third⟩, first.2, second.2⟩
    · simp at found
  have avoids : ∀ separator, separator ∉ text → Avoids separator (some text) := by
    rintro separator absent left same
    exact Option.some.inj same ▸ absent
  unfold decodeHtlc at read
  obtain ⟨⟨id, stream⟩, first, read⟩ := Option.bind_eq_some_iff.mp read
  obtain ⟨_, colons, semicolons⟩ := fieldPlain _ _ _ (avoids _ colon) (avoids _ semicolon) first
  obtain ⟨⟨offered, stream⟩, second, read⟩ := Option.bind_eq_some_iff.mp read
  obtain ⟨_, colons, semicolons⟩ := fieldPlain _ _ _ colons semicolons second
  obtain ⟨⟨amount, stream⟩, third, read⟩ := Option.bind_eq_some_iff.mp read
  obtain ⟨_, colons, semicolons⟩ := fieldPlain _ _ _ colons semicolons third
  obtain ⟨⟨paymentHash, stream⟩, fourth, read⟩ := Option.bind_eq_some_iff.mp read
  obtain ⟨plain, _, _⟩ := fieldPlain _ _ _ colons semicolons fourth
  obtain ⟨⟨expiry, _⟩, _, read⟩ := Option.bind_eq_some_iff.mp read
  obtain ⟨_, _, read⟩ := Option.bind_eq_some_iff.mp read
  obtain ⟨_, _, read⟩ := Option.bind_eq_some_iff.mp read
  obtain ⟨_, _, read⟩ := Option.bind_eq_some_iff.mp read
  exact Option.some.inj read ▸ plain

theorem mapM_mem {α β : Type} (read : α → Option β) (items : List α) (results : List β)
    (all : items.mapM read = some results) : ∀ result ∈ results, ∃ item ∈ items, read item = some result := by
  induction items generalizing results with
  | nil =>
    rw [List.mapM_nil] at all
    obtain rfl := Option.some.inj all
    simp
  | cons item rest ih =>
    rw [List.mapM_cons] at all
    obtain ⟨first, found, all⟩ := Option.bind_eq_some_iff.mp all
    obtain ⟨others, later, all⟩ := Option.bind_eq_some_iff.mp all
    obtain rfl := Option.some.inj all
    intro result member
    rcases List.mem_cons.mp member with rfl | inside
    · exact ⟨item, by simp, found⟩
    · obtain ⟨source, listed, same⟩ := ih others later result inside
      exact ⟨source, by simp [listed], same⟩

/-- The parts of a state's text, when there are five of them. -/
theorem decodeState_parts (text : Bytes) (state : State) (read : decodeState text = some state) :
    ∃ n balA balB nextHtlcId htlcs : Bytes, ∃ number : UInt64,
      (splitAll (byte ':') text = [n, balA, balB, nextHtlcId, htlcs] ∨
        splitAll (byte ':') text = [n, balA, balB, nextHtlcId] ∧ htlcs = []) ∧
      stoull n = some number ∧ state.n = number.toNat ∧
      (splitAll (byte ';') htlcs).mapM decodeHtlc = some state.htlcs := by
  unfold decodeState at read
  dsimp only at read
  split at read
  · rename_i n balA balB nextHtlcId htlcs parts
    obtain ⟨number, first, read⟩ := Option.bind_eq_some_iff.mp read
    obtain ⟨_, _, read⟩ := Option.bind_eq_some_iff.mp read
    obtain ⟨_, _, read⟩ := Option.bind_eq_some_iff.mp read
    obtain ⟨_, _, read⟩ := Option.bind_eq_some_iff.mp read
    obtain ⟨listed, decoded, read⟩ := Option.bind_eq_some_iff.mp read
    obtain rfl := Option.some.inj read
    refine ⟨n, balA, balB, nextHtlcId, htlcs, number, ?_, first, rfl, decoded⟩
    split at parts
    · have front : splitAll (byte ':') text ++ [[]] = [n, balA, balB, nextHtlcId] ++ [htlcs] := parts
      obtain ⟨same, last⟩ := List.append_inj' front rfl
      exact .inr ⟨same, (List.cons.inj last).1.symm⟩
    · exact .inl parts
  · simp at read

theorem decodeState_readable (text : Bytes) (state : State) (read : decodeState text = some state) :
    Readable state := by
  obtain ⟨n, balA, balB, nextHtlcId, htlcs, number, parts, _, same, listed⟩ :=
    decodeState_parts text state read
  refine ⟨same ▸ number.toNat_lt, fun htlc member => ?_⟩
  obtain ⟨part, inside, decoded⟩ := mapM_mem decodeHtlc _ _ listed htlc member
  have colons : byte ':' ∉ htlcs := by
    rcases parts with five | ⟨_, rfl⟩
    · exact splitAll_absent (byte ':') text htlcs (by simp [five])
    · simp
  refine decodeHtlc_plain part htlc ?_ (splitAll_absent (byte ';') htlcs part inside) decoded
  exact fun bad => colons (splitAll_subset (byte ';') htlcs part inside _ bad)

/-- The payment hash of an HTLC is a part of its text. -/
theorem decodeHtlc_absent (octet : UInt8) (text : Bytes) (htlc : Htlc) (absent : octet ∉ text)
    (read : decodeHtlc text = some htlc) : octet ∉ htlc.paymentHash := by
  have fieldAbsent : ∀ (stream : Option Bytes) (value : Bytes) (left : Option Bytes),
      Avoids octet stream →
      (if (getline (byte ',') stream []).2.2 = true then
        some ((getline (byte ',') stream []).1, (getline (byte ',') stream []).2.1) else none) =
          some (value, left) → octet ∉ value ∧ Avoids octet left := by
    intro stream value left avoids found
    have parts := getline_avoids (byte ',') octet stream [] avoids (by simp)
    split at found
    · obtain ⟨rfl, rfl⟩ := Prod.mk.inj (Option.some.inj found)
      exact parts
    · simp at found
  have avoids : Avoids octet (some text) := fun left same => Option.some.inj same ▸ absent
  unfold decodeHtlc at read
  obtain ⟨⟨id, stream⟩, first, read⟩ := Option.bind_eq_some_iff.mp read
  obtain ⟨_, avoids⟩ := fieldAbsent _ _ _ avoids first
  obtain ⟨⟨offered, stream⟩, second, read⟩ := Option.bind_eq_some_iff.mp read
  obtain ⟨_, avoids⟩ := fieldAbsent _ _ _ avoids second
  obtain ⟨⟨amount, stream⟩, third, read⟩ := Option.bind_eq_some_iff.mp read
  obtain ⟨_, avoids⟩ := fieldAbsent _ _ _ avoids third
  obtain ⟨⟨paymentHash, stream⟩, fourth, read⟩ := Option.bind_eq_some_iff.mp read
  obtain ⟨missing, _⟩ := fieldAbsent _ _ _ avoids fourth
  obtain ⟨⟨expiry, _⟩, _, read⟩ := Option.bind_eq_some_iff.mp read
  obtain ⟨_, _, read⟩ := Option.bind_eq_some_iff.mp read
  obtain ⟨_, _, read⟩ := Option.bind_eq_some_iff.mp read
  obtain ⟨_, _, read⟩ := Option.bind_eq_some_iff.mp read
  exact Option.some.inj read ▸ missing

theorem decodeState_absent (octet : UInt8) (text : Bytes) (state : State) (absent : octet ∉ text)
    (read : decodeState text = some state) : ∀ htlc ∈ state.htlcs, octet ∉ htlc.paymentHash := by
  intro htlc member
  obtain ⟨n, balA, balB, nextHtlcId, htlcs, number, parts, _, _, listed⟩ :=
    decodeState_parts text state read
  obtain ⟨part, inside, decoded⟩ := mapM_mem decodeHtlc _ _ listed htlc member
  refine decodeHtlc_absent octet part htlc (fun found => ?_) decoded
  have placed := splitAll_subset (byte ';') htlcs part inside octet found
  rcases parts with five | ⟨_, rfl⟩
  · exact absent (splitAll_subset (byte ':') text htlcs (by simp [five]) octet placed)
  · simp at placed

/-! ### What is written is read back -/

theorem decodeHtlc_encodeHtlc (htlc : Htlc) (plain : byte ',' ∉ htlc.paymentHash) :
    decodeHtlc (encodeHtlc htlc) = some htlc := by
  have digits : ∀ value, byte ',' ∉ decimal value := fun value =>
    not_mem_decimal value _ (by decide)
  have flag : byte ',' ∉ (if htlc.offeredByA then ascii "1" else ascii "0") := by
    cases htlc.offeredByA <;> decide
  have flagRead : ((if htlc.offeredByA then ascii "1" else ascii "0") == ascii "1") =
      htlc.offeredByA := by
    cases htlc.offeredByA <;> decide
  have comma : ascii "," = [byte ','] := rfl
  have last : (!(decimal htlc.expiry.toNat).isEmpty) = true := by
    simp [decimal_ne_nil]
  simp only [decodeHtlc, encodeHtlc, comma, List.append_assoc,
    List.cons_append, List.nil_append, getline_append _ _ _ _ (digits _), getline_append _ _ _ _ flag, getline_append _ _ _ _ plain,
    getline_last _ _ _ (digits _), last, ↓reduceIte, Option.bind_eq_bind, Option.bind_some,
    stoull_decimal, flagRead, Option.pure_def]

theorem encodeHtlc_plain (htlc : Htlc) (plain : PlainHash htlc.paymentHash) :
    encodeHtlc htlc ≠ [] ∧ byte ';' ∉ encodeHtlc htlc ∧ byte ':' ∉ encodeHtlc htlc := by
  have digits : ∀ value separator, isDigit separator = false → separator ∉ decimal value :=
    fun value separator => not_mem_decimal value separator
  have flag : byte ';' ∉ (if htlc.offeredByA then ascii "1" else ascii "0") ∧
      byte ':' ∉ (if htlc.offeredByA then ascii "1" else ascii "0") := by
    cases htlc.offeredByA <;> decide
  have comma : byte ';' ∉ ascii "," ∧ byte ':' ∉ ascii "," := by decide
  refine ⟨?_, ?_, ?_⟩
  · intro none
    have width := congrArg List.length none
    simp [encodeHtlc, ascii] at width
  · simp only [encodeHtlc, List.mem_append, not_or]
    exact ⟨⟨⟨⟨⟨⟨⟨⟨digits _ _ (by decide), comma.1⟩, flag.1⟩, comma.1⟩, digits _ _ (by decide)⟩,
      comma.1⟩, plain.semicolon⟩, comma.1⟩, digits _ _ (by decide)⟩
  · simp only [encodeHtlc, List.mem_append, not_or]
    exact ⟨⟨⟨⟨⟨⟨⟨⟨digits _ _ (by decide), comma.2⟩, flag.2⟩, comma.2⟩, digits _ _ (by decide)⟩,
      comma.2⟩, plain.colon⟩, comma.2⟩, digits _ _ (by decide)⟩

/-- The text of the HTLCs. -/
def htlcsText (state : State) : Bytes := List.intercalate (ascii ";") (state.htlcs.map encodeHtlc)

theorem mem_intercalate {octet : UInt8} (separator : Bytes) (parts : List Bytes)
    (member : octet ∈ List.intercalate separator parts) :
    octet ∈ separator ∨ ∃ part ∈ parts, octet ∈ part := by
  induction parts with
  | nil => simp [List.intercalate] at member
  | cons first rest ih =>
    cases rest with
    | nil =>
      simp only [List.intercalate, List.intersperse, List.flatten_cons, List.flatten_nil,
        List.append_nil] at member
      exact .inr ⟨first, by simp, member⟩
    | cons second others =>
      have shape : List.intercalate separator (first :: second :: others) =
          first ++ (separator ++ List.intercalate separator (second :: others)) := by
        simp [List.intercalate]
      rw [shape, List.mem_append, List.mem_append] at member
      rcases member with inside | inside | inside
      · exact .inr ⟨first, by simp, inside⟩
      · exact .inl inside
      · rcases ih inside with here | ⟨part, listed, there⟩
        · exact .inl here
        · exact .inr ⟨part, by simp [listed], there⟩

theorem mapM_map {α β : Type} (read : β → Option α) (write : α → β) (items : List α)
    (back : ∀ item ∈ items, read (write item) = some item) :
    (items.map write).mapM read = some items := by
  induction items with
  | nil => rfl
  | cons item rest ih =>
    rw [List.map_cons, List.mapM_cons, back item (by simp),
      ih (fun other member => back other (by simp [member]))]
    rfl

/-- The parts of a rendered state. -/
theorem splitAll_encodeState (state : State) :
    splitAll (byte ':') (encodeState state) =
      [decimal state.n, decimal state.balA.toNat, decimal state.balB.toNat,
        decimal state.nextHtlcId.toNat] ++ splitAll (byte ':') (htlcsText state) := by
  have digits : ∀ value, byte ':' ∉ decimal value := fun value =>
    not_mem_decimal value _ (by decide)
  have colon : ascii ":" = [byte ':'] := rfl
  have shape : encodeState state = decimal state.n ++ byte ':' :: (decimal state.balA.toNat ++
      byte ':' :: (decimal state.balB.toNat ++ byte ':' :: (decimal state.nextHtlcId.toNat ++
        byte ':' :: htlcsText state))) := by
    simp only [encodeState, htlcsText, colon, List.append_assoc, List.cons_append, List.nil_append]
  rw [shape, splitAll_append _ _ _ (digits _), splitAll_append _ _ _ (digits _),
    splitAll_append _ _ _ (digits _), splitAll_append _ _ _ (digits _)]
  rfl

/-- A readable state comes back from its text. -/
theorem decodeState_encodeState (state : State) (readable : Readable state) :
    decodeState (encodeState state) = some state := by
  have each : ∀ part ∈ state.htlcs.map encodeHtlc, part ≠ [] ∧ byte ';' ∉ part ∧ byte ':' ∉ part := by
    intro part member
    obtain ⟨htlc, inside, rfl⟩ := List.mem_map.mp member
    exact encodeHtlc_plain htlc (readable.hashes htlc inside)
  have colons : byte ':' ∉ htlcsText state := by
    intro bad
    rcases mem_intercalate _ _ bad with here | ⟨part, listed, there⟩
    · exact absurd here (by decide)
    · exact (each part listed).2.2 there
  have listed : (splitAll (byte ';') (htlcsText state)).mapM decodeHtlc = some state.htlcs := by
    have parts := splitAll_intercalate (byte ';') (state.htlcs.map encodeHtlc)
      (fun part member => ⟨(each part member).1, (each part member).2.1⟩)
    unfold htlcsText
    rw [show ascii ";" = [byte ';'] from rfl, parts]
    exact mapM_map decodeHtlc encodeHtlc state.htlcs fun htlc inside =>
      decodeHtlc_encodeHtlc htlc (readable.hashes htlc inside).comma
  have number : stoull (decimal state.n) = some (UInt64.ofNat state.n) := by
    have small := readable.small
    rw [stoull_rendered, if_neg (by omega)]
  have back : (UInt64.ofNat state.n).toNat = state.n :=
    UInt64.toNat_ofNat_of_lt' (by rw [UInt64.size]; exact readable.small)
  have parts := splitAll_encodeState state
  unfold decodeState
  by_cases none : htlcsText state = []
  · rw [none] at parts listed
    simp only [parts, splitAll, List.append_nil, List.length_cons, List.length_nil, ↓reduceIte,
      List.cons_append, List.nil_append, stoull_decimal, number, Option.bind_eq_bind,
      Option.bind_some, Option.pure_def, back]
    rw [splitAll] at listed
    rw [listed]
    rfl
  · have other : ¬ 0 + 1 + 1 + 1 + 1 + 1 = 4 := by decide
    rw [splitAll_last _ _ none colons] at parts
    simp only [parts, List.length_cons, List.length_nil, List.cons_append, List.nil_append, other,
      ↓reduceIte, stoull_decimal, number, Option.bind_eq_bind, Option.bind_some, Option.pure_def, back,
      listed]

/-- What is read from a rendered state has its number. -/
theorem decodeState_encodeState_n (state found : State)
    (read : decodeState (encodeState state) = some found) : found.n = state.n := by
  obtain ⟨n, _, _, _, _, number, parts, first, same, _⟩ := decodeState_parts _ found read
  rw [splitAll_encodeState] at parts
  have head : n = decimal state.n := by
    rcases parts with five | ⟨four, _⟩
    · exact (List.cons.inj five).1.symm
    · exact (List.cons.inj four).1.symm
  rw [head] at first
  rw [same, stoull_decimal_some state.n number first]

end Addition.Channels
