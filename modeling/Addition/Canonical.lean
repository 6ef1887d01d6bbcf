import Addition.Codec
import Addition.TransactionTexts

/-!
# One spelling of a transaction or a block

A string has three stored forms, and the encoder takes the octets of a hexadecimal one.
The decoder refuses empty octets, so that an empty string has one form, but takes a
hexadecimal string also when it is stored as it is. Everything else that it accepts is
what the encoder would write: what was accepted is the encoding of its value exactly
when no string is stored as it is that has a shorter form.
-/

namespace Addition.Wire

open ByteStrings Checked

/-! ### The stored strings of a text -/

/-- The tag and the stored octets of a string. -/
abbrev Field := UInt8 × Bytes

/-- The encoder would store the string in the same form. A string with a tag of
hexadecimal octets has no other. -/
def WellStored (field : Field) : Prop :=
  field.1 = 0 → isLowerHexField field.2 = false ∧
    (pqPrefix.isPrefixOf field.2 && isLowerHexField (field.2.drop 3)) = false

instance (field : Field) : Decidable (WellStored field) :=
  inferInstanceAs (Decidable (_ → _ ∧ _))

/-- Octets without strings. -/
def skip (count : Nat) (input : Bytes) : Option (List Field × Bytes) :=
  (take count input).map (fun taken => ([], taken.2))

/-- One string. -/
def oneField (input : Bytes) : Option (List Field × Bytes) := do
  let (tag, input) ← getU8 input
  let (width, input) ← getU32 input
  let (stored, input) ← take width input
  pure ([(tag, stored)], input)

/-- The strings of one part and then of another. -/
def andFields (first second : Bytes → Option (List Field × Bytes)) (input : Bytes) :
    Option (List Field × Bytes) := do
  let (left, input) ← first input
  let (right, input) ← second input
  pure (left ++ right, input)

/-- The strings of a number of parts. -/
def manyFields (each : Bytes → Option (List Field × Bytes)) (count : Nat) (input : Bytes) :
    Option (List Field × Bytes) :=
  (readMany each count input).map (fun read => (read.1.flatten, read.2))

/-- The strings of a counted list. -/
def countedFields (each : Bytes → Option (List Field × Bytes)) (input : Bytes) :
    Option (List Field × Bytes) := do
  let (count, input) ← getU32 input
  manyFields each count input

/-- The fields of a transaction before its inputs. -/
def txHeaderFields : Bytes → Option (List Field × Bytes) :=
  andFields oneField (andFields oneField (andFields oneField (andFields (skip 8) (skip 8))))

/-- The strings of a binary transaction, in their order. -/
def txFields (binary : Bytes) : List Field :=
  ((andFields txHeaderFields (andFields (countedFields (andFields oneField (skip 4)))
    (andFields (countedFields (andFields oneField (skip 8))) oneField)) (binary.drop 4)).map
      Prod.fst).getD []

/-- The fields of a vote. -/
def voteFields : Bytes → Option (List Field × Bytes) :=
  andFields oneField (andFields (skip 8) (andFields oneField (andFields (skip 1) oneField)))

/-- The strings of one transaction within its width. -/
def txSliceFields (input : Bytes) : Option (List Field × Bytes) := do
  let (width, input) ← getU32 input
  let (encoded, input) ← take width input
  pure (txFields encoded, input)

/-- The strings of one extension section. -/
def extensionFields (input : Bytes) : Option (List Field × Bytes) := do
  let (kind, input) ← getU8 input
  let (width, input) ← getU32 input
  let (content, input) ← take width input
  let (fields, _) ← countedFields (if kind = 1 then voteFields else andFields voteFields voteFields)
    content
  pure (fields, input)

/-- The fields of a block header. -/
def blockHeaderFields : Bytes → Option (List Field × Bytes) :=
  andFields (skip 8) (andFields oneField (andFields (skip 8) (andFields (skip 8)
    (andFields (skip 8) oneField))))

/-- The strings of a binary block, in their order. -/
def blockFields (binary : Bytes) : List Field :=
  ((andFields blockHeaderFields (andFields (countedFields txSliceFields)
    (countedFields extensionFields)) (binary.drop 4)).map Prod.fst).getD []

/-! ### A text and its canonical form -/

/-- A text is no shorter than its canonical form, and is canonical exactly when its strings
are well stored. -/
structure Spells (fields : List Field) (text canonical : Bytes) : Prop where
  shorter : canonical.length ≤ text.length
  canonical_iff : (∀ field ∈ fields, WellStored field) ↔ canonical = text

theorem Spells.same (text : Bytes) : Spells [] text text := ⟨Nat.le_refl _, by simp⟩

variable {canonical canonical' input middle rest : Bytes} {count : Nat}
  {fields : Bytes → Option (List Field × Bytes)} {text : Bytes}

theorem Spells.append {left right : List Field} {first second : Bytes}
    (front : Spells left first canonical) (back : Spells right second canonical') :
    Spells (left ++ right) (first ++ second) (canonical ++ canonical') := by
  have frontShorter := front.shorter
  have backShorter := back.shorter
  refine ⟨by simp only [List.length_append]; omega, ?_⟩
  rw [List.forall_mem_append, front.canonical_iff, back.canonical_iff]
  constructor
  · rintro ⟨rfl, rfl⟩
    rfl
  · intro same
    -- neither part is longer than its text, so that both are as long
    have lengths := congrArg List.length same
    simp only [List.length_append] at lengths
    exact List.append_inj same (by omega)

/-- A reader of strings runs along a text with a canonical form. -/
def SpelledBy (fields : Bytes → Option (List Field × Bytes)) (input rest canonical : Bytes) : Prop :=
  ∃ text found, input = text ++ rest ∧ fields input = some (found, rest) ∧
    Spells found text canonical

theorem SpelledBy.andThen {first second : Bytes → Option (List Field × Bytes)}
    (front : SpelledBy first input middle canonical)
    (back : SpelledBy second middle rest canonical') :
    SpelledBy (andFields first second) input rest (canonical ++ canonical') := by
  obtain ⟨text, found, split, read, spells⟩ := front
  obtain ⟨text', found', split', read', spells'⟩ := back
  refine ⟨text ++ text', found ++ found', ?_, ?_, spells.append spells'⟩
  · rw [split, split', List.append_assoc]
  · simp only [andFields, read, read', Option.bind_eq_bind, Option.bind_some, Option.pure_def]

theorem spelled_take (count : Nat) (input octets rest : Bytes)
    (read : take count input = some (octets, rest)) : SpelledBy (skip count) input rest octets := by
  obtain ⟨split, _⟩ := take_accepts count input octets rest read
  exact ⟨octets, [], split, by rw [skip, read, Option.map_some], Spells.same octets⟩

theorem getU8_some (input rest : Bytes) (octet : UInt8) (read : getU8 input = some (octet, rest)) :
    input = octet :: rest := by
  cases input with
  | nil => simp [getU8] at read
  | cons first others =>
    obtain ⟨rfl, rfl⟩ := Prod.mk.inj (Option.some.inj read)
    rfl

theorem spelled_getU8 (input rest : Bytes) (octet : UInt8) (read : getU8 input = some (octet, rest)) :
    SpelledBy (skip 1) input rest [octet] := by
  rw [getU8_some input rest octet read]
  exact spelled_take 1 _ [octet] rest (by simp [take])

theorem spelled_getU32 (input rest : Bytes) (value : Nat) (read : getU32 input = some (value, rest)) :
    SpelledBy (skip 4) input rest (putU32 value) := by
  have split := getU32_reflects input value rest read
  exact spelled_take 4 input _ rest (by rw [split]; exact take_restores _ 4 (by simp [putU32]) rest)

theorem spelled_getU64 (input rest : Bytes) (value : UInt64) (read : getU64 input = some (value, rest)) :
    SpelledBy (skip 8) input rest (putU64 value) := by
  have split := getU64_reflects input value rest read
  exact spelled_take 8 input _ rest (by rw [split]; exact take_restores _ 8 (by simp [putU64]) rest)

/-! ### Strings -/

theorem toHex_field (stored : Bytes) (some : stored ≠ []) : isLowerHexField (toHex stored) = true := by
  rw [isLowerHexField_iff]
  refine ⟨?_, by simp, fun digit member => toHex_lower stored digit member⟩
  intro none
  have width := congrArg List.length none
  rw [toHex_length, List.length_nil] at width
  exact some (List.length_eq_zero_iff.mp (by omega))

/-- Digits do not start with the prefix of a signature. -/
theorem pqPrefix_toHex (stored : Bytes) : pqPrefix.isPrefixOf (toHex stored) = false := by
  rw [Bool.eq_false_iff]
  intro front
  have member := (List.isPrefixOf_iff_prefix.mp front).subset (by decide : byte 'p' ∈ pqPrefix)
  exact absurd (toHex_lower stored _ member) (by decide)

theorem tagged_toHex (stored : Bytes) (some : stored ≠ []) : tagged (toHex stored) = (1, stored) := by
  simp [tagged, pqPrefix_toHex, toHex_field stored some, fromHex_toHex]

theorem tagged_pq_toHex (stored : Bytes) (some : stored ≠ []) :
    tagged (pqPrefix ++ toHex stored) = (2, stored) := by
  have front : pqPrefix.isPrefixOf (pqPrefix ++ toHex stored) = true :=
    List.isPrefixOf_iff_prefix.mpr (List.prefix_append _ _)
  have back : (pqPrefix ++ toHex stored).drop 3 = toHex stored := List.drop_left' rfl
  simp [tagged, front, back, toHex_field stored some, fromHex_toHex]

/-- A string stored as it is has no shorter form exactly when the encoder stores it so. -/
theorem tagged_plain (stored : Bytes) : WellStored (0, stored) ↔ tagged stored = (0, stored) := by
  unfold WellStored tagged
  constructor
  · intro plain
    obtain ⟨unhex, unsigned⟩ := plain rfl
    simp [unhex, unsigned]
  · intro same _
    split at same
    · exact absurd (Prod.mk.inj same).1 (by decide)
    · rename_i unsigned
      split at same
      · exact absurd (Prod.mk.inj same).1 (by decide)
      · rename_i unhex
        exact ⟨Bool.eq_false_iff.mpr unhex, Bool.eq_false_iff.mpr unsigned⟩

/-- A string that is read has a stored form no longer than the one it was read from, and
the same exactly when that was well stored. -/
theorem tagged_untag (tag : UInt8) (stored text : Bytes) (read : untag tag stored = some text) :
    (tagged text).2.length ≤ stored.length ∧
      (WellStored (tag, stored) ↔ tagged text = (tag, stored)) := by
  have other : ∀ tag : UInt8, tag ≠ 0 → WellStored (tag, stored) := by
    intro tag hex zero
    exact absurd zero hex
  unfold untag at read
  split at read
  · rename_i plain
    obtain rfl := Option.some.inj read
    rw [plain]
    exact ⟨tagged_length_le stored, tagged_plain stored⟩
  · split at read
    · rename_i hex
      obtain rfl := Option.some.inj read
      rw [tagged_toHex stored hex.2, hex.1]
      exact ⟨Nat.le_refl _, by simp [other]⟩
    · split at read
      · rename_i signed
        obtain rfl := Option.some.inj read
        rw [tagged_pq_toHex stored signed.2, signed.1]
        exact ⟨Nat.le_refl _, by simp [other]⟩
      · simp at read

theorem spelled_readTagged (input rest text : Bytes) (read : readTagged input = some (text, rest)) :
    SpelledBy oneField input rest (writeTagged text) := by
  simp only [readTagged, Option.bind_eq_bind, Option.bind_eq_some_iff, Prod.exists,
    Option.pure_def] at read
  obtain ⟨tag, afterTag, first, width, afterWidth, second, read⟩ := read
  split at read
  · simp at read
  · simp only [Option.bind_eq_some_iff, Prod.exists, Option.some.injEq, Prod.mk.injEq] at read
    obtain ⟨stored, left, third, value, untagged, rfl, rfl⟩ := read
    obtain ⟨behind, sized⟩ := take_accepts width afterWidth stored left third
    obtain ⟨shorter, same⟩ := tagged_untag tag stored value untagged
    have before := getU32_reflects afterTag width afterWidth second
    have front := getU8_some input afterTag tag first
    refine ⟨tag :: (putU32 stored.length ++ stored), [(tag, stored)], ?_, ?_, ?_, ?_⟩
    · rw [front, before, behind, sized]
      simp
    · simp only [oneField, first, second, third, Option.bind_eq_bind, Option.bind_some, Option.pure_def]
    · simp only [writeTagged, putU32, List.length_cons, List.length_append, leBytes_length]
      omega
    · simp only [List.mem_singleton, forall_eq, same]
      constructor
      · intro equal
        rw [writeTagged, equal]
      · intro equal
        obtain ⟨tags, others⟩ := List.cons.inj equal
        obtain ⟨_, stores⟩ := List.append_inj others (by simp [putU32])
        exact Prod.ext tags stores

/-! ### Lists -/

/-- One part more. -/
theorem SpelledBy.succ (front : SpelledBy fields input middle canonical)
    (back : SpelledBy (manyFields fields count) middle rest canonical') :
    SpelledBy (manyFields fields (count + 1)) input rest (canonical ++ canonical') := by
  obtain ⟨text, found, split, read, spells⟩ := front
  obtain ⟨text', found', split', read', spells'⟩ := back
  refine ⟨text ++ text', found ++ found', ?_, ?_, spells.append spells'⟩
  · rw [split, split', List.append_assoc]
  · simp only [manyFields, Option.map_eq_some_iff, Prod.mk.injEq, Prod.exists] at read'
    obtain ⟨lists, _, others, rfl, rfl⟩ := read'
    simp [manyFields, readMany, read, others]

theorem spelled_many {α : Type} {read : Bytes → Option (α × Bytes)} {put : α → Bytes}
    (each : ∀ input rest item, read input = some (item, rest) →
      SpelledBy fields input rest (put item)) (count : Nat) (input rest : Bytes) (items : List α)
    (listed : readMany read count input = some (items, rest)) :
    SpelledBy (manyFields fields count) input rest (items.flatMap put) := by
  induction count generalizing input items with
  | zero =>
    obtain ⟨rfl, rfl⟩ := Prod.mk.inj (Option.some.inj listed)
    exact ⟨[], [], rfl, rfl, Spells.same []⟩
  | succ count ih =>
    simp only [readMany, Option.bind_eq_bind, Option.pure_def, Option.bind_eq_some_iff,
      Option.some.injEq] at listed
    obtain ⟨⟨first, middle⟩, head, ⟨later, _⟩, others, same⟩ := listed
    obtain ⟨rfl, rfl⟩ := Prod.mk.inj same
    exact (each _ _ _ head).succ (ih middle later others)

theorem getCount_some (cap count : Nat) (input rest : Bytes)
    (read : getCount cap input = some (count, rest)) : getU32 input = some (count, rest) := by
  unfold getCount at read
  split at read
  · rename_i value left found
    split at read
    · rw [found, read]
    · simp at read
  · simp at read

/-- A counted list. -/
theorem SpelledBy.counted {cap : Nat} (counts : getCount cap input = some (count, middle))
    (items : SpelledBy (manyFields fields count) middle rest canonical) :
    SpelledBy (countedFields fields) input rest (putU32 count ++ canonical) := by
  have first := getCount_some cap count input middle counts
  obtain ⟨text, found, split, read, spells⟩ := items
  refine ⟨putU32 count ++ text, found, ?_, ?_, (Spells.same (putU32 count)).append spells⟩
  · rw [getU32_reflects input count middle first, split, List.append_assoc]
  · simp only [countedFields, first, read, Option.bind_eq_bind, Option.bind_some]

/-! ### Transactions -/

theorem getU32_lt (input rest : Bytes) (value : Nat) (read : getU32 input = some (value, rest)) :
    value < UInt32.size := by
  simp only [getU32, Option.map_eq_some_iff, Prod.mk.injEq, Prod.exists] at read
  obtain ⟨octets, _, taken, rfl, rfl⟩ := read
  obtain ⟨_, width⟩ := take_accepts 4 input octets _ taken
  have small := leValue_lt octets
  rw [width] at small
  exact small

theorem spelled_readInput (input rest : Bytes) (item : TxInput)
    (read : readInput input = some (item, rest)) :
    SpelledBy (andFields oneField (skip 4)) input rest
      (writeTagged item.previousTxid ++ putU32 item.outputIndex.toNat) := by
  simp only [readInput, Option.bind_eq_bind, Option.bind_eq_some_iff, Prod.exists, Option.pure_def,
    Option.some.injEq, Prod.mk.injEq] at read
  obtain ⟨txid, middle, first, index, _, second, rfl, rfl⟩ := read
  have word := spelled_getU32 middle _ index second
  rw [← UInt32.toNat_ofNat_of_lt' (getU32_lt middle _ index second)] at word
  exact (spelled_readTagged _ _ _ first).andThen word

theorem spelled_readOutput (input rest : Bytes) (item : TxOutput)
    (read : readOutput input = some (item, rest)) :
    SpelledBy (andFields oneField (skip 8)) input rest
      (writeTagged item.recipient ++ putU64 item.amount) := by
  simp only [readOutput, Option.bind_eq_bind, Option.bind_eq_some_iff, Prod.exists, Option.pure_def,
    Option.some.injEq, Prod.mk.injEq] at read
  obtain ⟨recipient, middle, first, amount, _, second, rfl, rfl⟩ := read
  exact (spelled_readTagged _ _ _ first).andThen (spelled_getU64 _ _ _ second)

theorem spelled_readTxHeader (input rest signer signerPubkey signature : Bytes) (fee nonce : UInt64)
    (read : readTxHeader input = some ((signer, signerPubkey, signature, fee, nonce), rest)) :
    SpelledBy txHeaderFields input rest (writeTagged signer ++ (writeTagged signerPubkey ++
      (writeTagged signature ++ (putU64 fee ++ putU64 nonce)))) := by
  simp only [readTxHeader, Option.bind_eq_bind, Option.bind_eq_some_iff, Prod.exists, Option.pure_def,
    Option.some.injEq, Prod.mk.injEq] at read
  obtain ⟨_, _, first, _, _, second, _, _, third, _, _, fourth, _, _, fifth,
    ⟨rfl, rfl, rfl, rfl, rfl⟩, rfl⟩ := read
  exact (spelled_readTagged _ _ _ first).andThen ((spelled_readTagged _ _ _ second).andThen
    ((spelled_readTagged _ _ _ third).andThen ((spelled_getU64 _ _ _ fourth).andThen
      (spelled_getU64 _ _ _ fifth))))

/-- Attaching witnesses leaves the outpoints of the inputs. -/
theorem attachWitnesses_outpoints (inputs : List TxInput) (witnesses : List Bytes)
    (same : witnesses.length = inputs.length) :
    (attachWitnesses inputs witnesses).flatMap (fun input =>
      writeTagged input.previousTxid ++ putU32 input.outputIndex.toNat) =
    inputs.flatMap (fun input =>
      writeTagged input.previousTxid ++ putU32 input.outputIndex.toNat) ∧
    (attachWitnesses inputs witnesses).map TxInput.witness = witnesses := by
  induction inputs generalizing witnesses with
  | nil =>
    cases witnesses with
    | nil => exact ⟨rfl, rfl⟩
    | cons witness rest => simp at same
  | cons input others ih =>
    cases witnesses with
    | nil => simp at same
    | cons witness rest =>
      obtain ⟨outpoints, kept⟩ := ih rest (by simpa using same)
      unfold attachWitnesses at *
      rw [List.zipWith_cons_cons, List.flatMap_cons, List.flatMap_cons, outpoints, List.map_cons, kept]
      exact ⟨rfl, rfl⟩

theorem readWitness_reflects : Reflects readWitness (fun witness => putU32 witness.length ++ witness) := by
  intro input witness rest read
  simp only [readWitness, Option.bind_eq_bind, Option.bind_eq_some_iff, Prod.exists] at read
  obtain ⟨width, middle, first, read⟩ := read
  split at read
  · simp at read
  · obtain ⟨split, sized⟩ := take_accepts width middle witness rest read
    rw [getU32_reflects input width middle first, split, ← sized]
    exact (List.append_assoc _ _ _).symm

/-- The witness section that was read is the one that is written. -/
theorem readWitnessSection_reflects (inputs result : List TxInput) (input tail : Bytes)
    (bare : ∀ input ∈ inputs, input.witness = [])
    (read : readWitnessSection inputs input = .ok (result, tail)) :
    input = witnessSection result ++ tail ∧ result.length = inputs.length ∧
      result.flatMap (fun input =>
        writeTagged input.previousTxid ++ putU32 input.outputIndex.toNat) =
      inputs.flatMap (fun input =>
        writeTagged input.previousTxid ++ putU32 input.outputIndex.toNat) := by
  unfold readWitnessSection at read
  split at read
  · obtain ⟨rfl, rfl⟩ := Prod.mk.inj (Except.ok.inj read)
    have silent : witnessSection inputs = [] := by
      have none : inputs.any (fun input => !input.witness.isEmpty) = false := by
        rw [List.any_eq_false]
        intro input member
        simp [bare input member]
      simp [witnessSection, none]
    exact ⟨by rw [silent, List.nil_append], rfl, rfl⟩
  · simp only [bind_ok, exists_unit, ensure_ok, orError_ok, pure_ok, Prod.exists] at read
    obtain ⟨kind, middle, first, known, witnesses, left, listed, some, same⟩ := read
    obtain ⟨rfl, rfl⟩ := Prod.mk.inj same
    have count := readMany_length _ _ _ _ _ listed
    obtain ⟨outpoints, kept⟩ := attachWitnesses_outpoints inputs witnesses count
    refine ⟨?_, attachWitnesses_length inputs witnesses count, outpoints⟩
    have front := getU8_some input middle kind first
    rw [beq_iff_eq.mp known] at front
    have written : (attachWitnesses inputs witnesses).any (fun input => !input.witness.isEmpty) =
        true := by
      rw [← kept, List.any_map] at some
      exact some
    have texts : (attachWitnesses inputs witnesses).flatMap (fun input =>
        putU32 input.witness.length ++ input.witness) =
        witnesses.flatMap (fun witness => putU32 witness.length ++ witness) := by
      conv_rhs => rw [← kept, List.flatMap_map]
    rw [witnessSection, if_pos written, texts, front,
      readMany_reflects readWitness_reflects inputs.length middle witnesses _ listed]
    rfl

variable (P : Primitives)

/-- The checksum behind a text and the one behind its canonical form. -/
theorem Spells.sealed {fields : List Field} {tail : Bytes} {what : String}
    (spells : Spells fields text canonical)
    (checked : checkTail P (text ++ tail) tail what = .ok ()) :
    Spells fields (text ++ tail) (Wire.sealed P canonical) := by
  simp only [checkTail, bind_ok, exists_unit, ensure_ok, decide_eq_true_eq] at checked
  obtain ⟨width, value⟩ := checked
  have front : (text ++ tail).take ((text ++ tail).length - 4) = text := by
    rw [List.length_append, width, Nat.add_sub_cancel]
    exact List.take_left' rfl
  rw [front] at value
  have octets : tail = putU32 (checksum32 P text) := by
    rw [← value, putU32, ← width, leBytes_leValue]
  have sizes : ∀ text, (putU32 (checksum32 P text)).length = 4 := by simp [putU32]
  have shorter := spells.shorter
  refine ⟨by simp only [Wire.sealed, List.length_append, sizes, width]; omega, ?_⟩
  rw [spells.canonical_iff, Wire.sealed]
  constructor
  · rintro rfl
    rw [octets]
  · intro same
    have lengths := congrArg List.length same
    simp only [List.length_append, sizes, width] at lengths
    exact (List.append_inj same (by omega)).1

/-- A text behind its magic. -/
theorem isPrefix_split (magic binary : Bytes) (four : magic.length = 4)
    (front : magic.isPrefixOf binary = true) : binary = magic ++ binary.drop 4 := by
  obtain ⟨rest, rfl⟩ := List.isPrefixOf_iff_prefix.mp front
  rw [← four, List.drop_left]

theorem readInputs_bare (count : Nat) (input rest : Bytes) (inputs : List TxInput)
    (read : readMany readInput count input = some (inputs, rest)) :
    ∀ input ∈ inputs, input.witness = [] := by
  induction count generalizing input inputs with
  | zero =>
    obtain ⟨rfl, _⟩ := Prod.mk.inj (Option.some.inj read)
    simp
  | succ count ih =>
    simp only [readMany, Option.bind_eq_bind, Option.pure_def, Option.bind_eq_some_iff,
      Option.some.injEq] at read
    obtain ⟨⟨first, middle⟩, head, ⟨later, _⟩, others, same⟩ := read
    obtain ⟨rfl, rfl⟩ := Prod.mk.inj same
    intro other member
    rcases List.mem_cons.mp member with rfl | inside
    · simp only [readInput, Option.bind_eq_bind, Option.bind_eq_some_iff, Prod.exists, Option.pure_def,
        Option.some.injEq, Prod.mk.injEq] at head
      obtain ⟨_, _, _, _, _, _, rfl, _⟩ := head
      rfl
    · exact ih middle later others other inside

/-- A binary transaction that is accepted and its encoding. -/
theorem decodeTx_spells (binary : Bytes) (tx : Transaction) (decoded : decodeTxV3 P binary = .ok tx) :
    Spells (txFields binary) binary (encodeTxV3 P tx) := by
  unfold decodeTxV3 at decoded
  simp only [bind_ok, exists_unit, ensure_ok, orError_ok, pure_ok, Bool.and_eq_true, Prod.exists]
    at decoded
  obtain ⟨⟨_, magic⟩, signer, signerPubkey, signature, fee, nonce, afterHeader, header, inputCount,
    afterInputCount, inputsCount, inputs, afterInputs, inputsRead, outputCount, afterOutputCount,
    outputsCount, outputs, afterOutputs, outputsRead, shielded, afterShielded, shieldedRead, result,
    tail, witnesses, checked, _, rfl⟩ := decoded
  obtain ⟨witnessText, sameCount, outpoints⟩ := readWitnessSection_reflects inputs result afterShielded
    tail (readInputs_bare _ _ _ _ inputsRead) witnesses
  have listedInputs := SpelledBy.counted inputsCount
    (spelled_many spelled_readInput inputCount _ _ inputs inputsRead)
  have listedOutputs := SpelledBy.counted outputsCount
    (spelled_many spelled_readOutput outputCount _ _ outputs outputsRead)
  have body := (spelled_readTxHeader _ _ _ _ _ _ _ header).andThen
    (listedInputs.andThen (listedOutputs.andThen (spelled_readTagged _ _ _ shieldedRead)))
  obtain ⟨text, found, split, read, spells⟩ := body
  have fields : txFields binary = found := by
    rw [txFields, read]
    rfl
  have whole : binary = (ascii "TXV3" ++ text ++ witnessSection result) ++ tail := by
    rw [isPrefix_split _ binary rfl magic, split, witnessText]
    simp only [List.append_assoc]
  have listed := ((Spells.same (ascii "TXV3")).append spells).append (Spells.same (witnessSection result))
  rw [whole] at checked
  have sealedText := Spells.sealed P listed checked
  rw [← whole, List.nil_append, List.append_nil] at sealedText
  rw [fields]
  convert sealedText using 1
  rw [encodeTxV3, txBody]
  dsimp only
  rw [outpoints, sameCount, readMany_length _ _ _ _ _ inputsRead,
    readMany_length _ _ _ _ _ outputsRead]
  simp only [List.append_assoc]

/-! ### Votes and sections -/

theorem spelled_getVote (input rest : Bytes) (vote : StakeVote)
    (read : getVote input = some (vote, rest)) : SpelledBy voteFields input rest (putVote vote) := by
  simp only [getVote, Option.bind_eq_bind, Option.bind_eq_some_iff, Prod.exists, Option.pure_def] at read
  obtain ⟨ticketId, _, first, votedHeight, _, second, votedHash, _, third, approve, middle, fourth,
    read⟩ := read
  split at read
  · simp at read
  · rename_i flag
    simp only [Option.bind_eq_some_iff, Prod.exists, Option.some.injEq, Prod.mk.injEq] at read
    obtain ⟨signature, _, fifth, rfl, rfl⟩ := read
    have octet : (if (approve == 1) = true then 1 else 0 : UInt8) = approve := by
      have few : approve ≤ 1 := UInt8.not_lt.mp flag
      have cases : approve = 0 ∨ approve = 1 := by
        rw [UInt8.le_iff_toNat_le] at few
        rw [← UInt8.toNat_inj, ← UInt8.toNat_inj]
        simp at few ⊢
        omega
      rcases cases with rfl | rfl <;> rfl
    have spelled := (spelled_readTagged _ _ _ first).andThen ((spelled_getU64 _ _ _ second).andThen
      ((spelled_readTagged _ _ _ third).andThen ((spelled_getU8 _ _ _ fourth).andThen
        (spelled_readTagged _ _ _ fifth))))
    unfold putVote voteFields
    dsimp only
    rw [octet]
    simpa only [List.append_assoc, List.cons_append, List.nil_append] using spelled

theorem spelled_getSlash (input rest : Bytes) (slash : SlashEvidence)
    (read : getSlash input = some (slash, rest)) :
    SpelledBy (andFields voteFields voteFields) input rest (putVote slash.a ++ putVote slash.b) := by
  simp only [getSlash, Option.bind_eq_bind, Option.bind_eq_some_iff, Prod.exists, Option.pure_def,
    Option.some.injEq, Prod.mk.injEq] at read
  obtain ⟨a, _, first, b, _, second, rfl, rfl⟩ := read
  exact (spelled_getVote _ _ _ first).andThen (spelled_getVote _ _ _ second)

/-- The content of a section that was read to its end. -/
theorem spelled_readSection {α : Type} {read : Bytes → Option (α × Bytes)} {put : α → Bytes}
    (each : ∀ input rest item, read input = some (item, rest) →
      SpelledBy fields input rest (put item)) (message : String) (content : Bytes) (items : List α)
    (listed : readSection read message content = .ok items) :
    items ≠ [] ∧ SpelledBy (countedFields fields) content [] (sectionContent put items) := by
  simp only [readSection, bind_ok, exists_unit, ensure_ok, orError_ok, pure_ok, Prod.exists,
    decide_eq_true_eq, List.isEmpty_iff] at listed
  obtain ⟨count, middle, counts, some, found, rest, many, rfl, rfl⟩ := listed
  have width := readMany_length _ _ _ _ _ many
  refine ⟨?_, ?_⟩
  · rintro rfl
    exact some width.symm
  · rw [sectionContent, width]
    exact SpelledBy.counted counts (spelled_many each count middle [] found many)

/-- A text within its width. -/
theorem Spells.within {fields : List Field} (spells : Spells fields text canonical) :
    Spells fields (putU32 text.length ++ text) (putU32 canonical.length ++ canonical) := by
  have shorter := spells.shorter
  have sizes : ∀ value, (putU32 value).length = 4 := by simp [putU32]
  refine ⟨by simp only [List.length_append, sizes]; omega, ?_⟩
  rw [spells.canonical_iff]
  constructor
  · rintro rfl
    rfl
  · intro same
    exact (List.append_inj same (by rw [sizes, sizes])).2

/-- A section of a kind. -/
theorem spelled_extension {α : Type} {put : α → Bytes}
    (kind : UInt8) (which : (if kind = 1 then voteFields else andFields voteFields voteFields) = fields)
    (items : List α) (filled : items ≠ []) (input middle left content rest : Bytes) (width : Nat)
    (first : getU8 input = some (kind, middle)) (second : getU32 middle = some (width, left))
    (third : take width left = some (content, rest))
    (spelled : SpelledBy (countedFields fields) content [] (sectionContent put items)) :
    SpelledBy extensionFields input rest (extension kind put items) := by
  obtain ⟨text, found, split, read, spells⟩ := spelled
  rw [List.append_nil] at split
  subst split
  obtain ⟨behind, sized⟩ := take_accepts width left content rest third
  have before := getU32_reflects middle width left second
  have front := getU8_some input middle kind first
  refine ⟨[kind] ++ (putU32 content.length ++ content), found, ?_, ?_, ?_⟩
  · rw [front, before, behind, sized]
    simp
  · simp only [extensionFields, first, second, third, which, read, Option.bind_eq_bind,
      Option.bind_some, Option.pure_def]
  · have written : extension kind put items = [kind] ++
        (putU32 (sectionContent put items).length ++ sectionContent put items) := by
      simp [extension, filled, sectionContent]
    rw [written]
    exact (Spells.same [kind]).append spells.within

/-- The encoder's text of a slash. -/
def putSlash (slash : SlashEvidence) : Bytes := putVote slash.a ++ putVote slash.b

/-- How many sections the items take. -/
def sectionCount (votes : List StakeVote) (slashes : List SlashEvidence) : Nat :=
  (if votes.isEmpty then 0 else 1) + (if slashes.isEmpty then 0 else 1)

/-- The sections that were read are those of the items they added, votes before slashes. -/
theorem spelled_readExtensions (count : Nat) (before after : Extensions) (input rest : Bytes)
    (read : readExtensions count before input = .ok (after, rest)) :
    ∃ votes slashes, after.votes = before.votes ++ votes ∧ after.slashes = before.slashes ++ slashes ∧
      count = sectionCount votes slashes ∧ (votes ≠ [] → before.lastKind < 1) ∧
      (slashes ≠ [] → before.lastKind < 2) ∧
      SpelledBy (manyFields extensionFields count) input rest
        (extension 1 putVote votes ++ extension 2 putSlash slashes) := by
  induction count generalizing before input with
  | zero =>
    obtain ⟨rfl, rfl⟩ := Prod.mk.inj (Except.ok.inj read)
    exact ⟨[], [], by simp, by simp, rfl, by simp, by simp, [], [], rfl, rfl, Spells.same []⟩
  | succ count ih =>
    simp only [readExtensions, bind_ok, Prod.exists] at read
    obtain ⟨next, middle, first, later⟩ := read
    obtain ⟨votes, slashes, addedVotes, addedSlashes, counted, noVotes, noSlashes, spelled⟩ :=
      ih next middle later
    simp only [readExtension, bind_ok, exists_unit, ensure_ok, orError_ok, Bool.and_eq_true,
      decide_eq_true_eq, Bool.or_eq_true, beq_iff_eq, Prod.exists, Option.bind_eq_bind,
      Option.bind_eq_some_iff, Option.pure_def, Option.some.injEq, Prod.mk.injEq] at first
    obtain ⟨_, _, _, ⟨kind, afterKind, firstOctet, width, afterWidth, second, content, between, third,
      ⟨rfl, rfl⟩, rfl⟩, ⟨above, known⟩, first⟩ := first
    split at first
    · -- votes come first, and none after them
      rename_i isVotes
      simp only [bind_ok, pure_ok, Prod.mk.injEq] at first
      obtain ⟨items, listed, rfl, rfl⟩ := first
      obtain ⟨filled, content⟩ := spelled_readSection spelled_getVote _ _ _ listed
      have none : votes = [] := by
        by_contra some
        have less : kind < 1 := noVotes some
        rw [isVotes] at less
        exact absurd less (by decide)
      have here := spelled_extension 1 rfl items filled _ _ _ _ _ _ (isVotes ▸ firstOctet) second third
        content
      subst none
      refine ⟨items, slashes, by simpa using addedVotes, addedSlashes, ?_, fun _ => isVotes ▸ above,
        fun _ => UInt8.lt_trans above (isVotes ▸ (by decide)), ?_⟩
      · rw [counted]
        simp only [sectionCount, List.isEmpty_nil, ↓reduceIte, List.isEmpty_iff, filled]
        omega
      · simpa [extension] using here.succ spelled
    · rename_i other
      have isSlashes : kind = 2 := known.resolve_left other
      simp only [bind_ok, pure_ok, Prod.mk.injEq] at first
      obtain ⟨items, listed, rfl, rfl⟩ := first
      obtain ⟨filled, content⟩ := spelled_readSection spelled_getSlash _ _ _ listed
      have none : votes = [] := by
        by_contra some
        have less : kind < 1 := noVotes some
        rw [isSlashes] at less
        exact absurd less (by decide)
      have none' : slashes = [] := by
        by_contra some
        have less : kind < 2 := noSlashes some
        rw [isSlashes] at less
        exact absurd less (by decide)
      have here := spelled_extension 2 rfl items filled _ _ _ _ _ _ (isSlashes ▸ firstOctet) second
        third content
      subst none none'
      refine ⟨[], items, addedVotes, by simpa using addedSlashes, ?_, by simp,
        fun _ => isSlashes ▸ above, ?_⟩
      · rw [counted]
        simp only [sectionCount, List.isEmpty_nil, ↓reduceIte, List.isEmpty_iff, filled]
      · have whole := here.succ spelled
        simp only [extension, List.isEmpty_nil, ↓reduceIte, List.append_nil, List.nil_append] at whole ⊢
        exact whole

/-! ### Blocks -/

theorem spelled_readTransactions (count : Nat) (input rest : Bytes) (txs : List Transaction)
    (read : readTransactions P count input = .ok (txs, rest)) :
    txs.length = count ∧ SpelledBy (manyFields txSliceFields count) input rest
      (txs.flatMap (fun tx => putU32 (encodeTxV3 P tx).length ++ encodeTxV3 P tx)) := by
  induction count generalizing input txs with
  | zero =>
    obtain ⟨rfl, rfl⟩ := Prod.mk.inj (Except.ok.inj read)
    exact ⟨rfl, [], [], rfl, rfl, Spells.same []⟩
  | succ count ih =>
    simp only [readTransactions, bind_ok, orError_ok, pure_ok, Prod.exists, Option.bind_eq_bind,
      Option.bind_eq_some_iff] at read
    obtain ⟨encoded, middle, ⟨width, left, first, second⟩, tx, decoded, others, _, later, same⟩ := read
    obtain ⟨rfl, rfl⟩ := Prod.mk.inj same
    obtain ⟨listed, spelled⟩ := ih middle others later
    obtain ⟨behind, sized⟩ := take_accepts width left encoded middle second
    have before := getU32_reflects input width left first
    refine ⟨by rw [List.length_cons, listed], ?_⟩
    refine SpelledBy.succ ⟨putU32 encoded.length ++ encoded, txFields encoded, ?_, ?_, ?_⟩ spelled
    · rw [before, behind, sized, List.append_assoc]
    · simp only [txSliceFields, first, second, Option.bind_eq_bind, Option.bind_some, Option.pure_def]
    · exact (decodeTx_spells P encoded tx decoded).within

theorem spelled_readBlockHeader (input rest : Bytes) (header : BlockHeader)
    (read : readBlockHeader input = some (header, rest)) :
    SpelledBy blockHeaderFields input rest (putU64 header.height ++ (writeTagged header.previousHash ++
      (putU64 header.timestamp ++ (putU64 header.nonce ++ (putU64 header.difficultyTarget ++
        writeTagged header.merkleRoot))))) := by
  simp only [readBlockHeader, Option.bind_eq_bind, Option.bind_eq_some_iff, Prod.exists,
    Option.pure_def, Option.some.injEq, Prod.mk.injEq] at read
  obtain ⟨_, _, first, _, _, second, _, _, third, _, _, fourth, _, _, fifth, _, _, sixth, rfl, rfl⟩ :=
    read
  exact (spelled_getU64 _ _ _ first).andThen ((spelled_readTagged _ _ _ second).andThen
    ((spelled_getU64 _ _ _ third).andThen ((spelled_getU64 _ _ _ fourth).andThen
      ((spelled_getU64 _ _ _ fifth).andThen (spelled_readTagged _ _ _ sixth)))))

/-- A binary block that is accepted and its encoding. -/
theorem decodeBlock_spells (binary : Bytes) (block : Block)
    (decoded : decodeBlockV3 P binary = .ok block) :
    Spells (blockFields binary) binary (encodeBlockV3 P block) := by
  unfold decodeBlockV3 at decoded
  simp only [bind_ok, exists_unit, ensure_ok, orError_ok, pure_ok, Bool.and_eq_true, Prod.exists]
    at decoded
  obtain ⟨⟨_, magic⟩, header, afterHeader, headerRead, txCount, afterTxCount, txsCount, txs, afterTxs,
    txsRead, extCount, afterExtCount, extsCount, extensions, tail, extsRead, checked, _, rfl⟩ := decoded
  obtain ⟨txsLength, txsSpelled⟩ := spelled_readTransactions P _ _ _ _ txsRead
  obtain ⟨votes, slashes, addedVotes, addedSlashes, counted, _, _, extsSpelled⟩ :=
    spelled_readExtensions extCount ⟨0, [], []⟩ extensions _ _ extsRead
  rw [List.nil_append] at addedVotes addedSlashes
  have body := (spelled_readBlockHeader _ _ _ headerRead).andThen
    ((SpelledBy.counted txsCount txsSpelled).andThen (SpelledBy.counted extsCount extsSpelled))
  obtain ⟨text, found, split, read, spells⟩ := body
  have fields : blockFields binary = found := by
    rw [blockFields, read]
    rfl
  have whole : binary = (ascii "BLV3" ++ text) ++ tail := by
    rw [isPrefix_split _ binary rfl magic, split]
    simp only [List.append_assoc]
  have listed := (Spells.same (ascii "BLV3")).append spells
  rw [whole] at checked
  have sealedText := Spells.sealed P listed checked
  rw [← whole, List.nil_append] at sealedText
  rw [fields]
  convert sealedText using 1
  rw [encodeBlockV3, blockBody]
  dsimp only
  rw [addedVotes, addedSlashes, txsLength, counted]
  simp only [List.append_assoc]
  rfl

/-! ### The weight of a block -/

/-- The octets of a vote: its numbers, and three strings with their tags and widths. -/
def voteOctets (vote : StakeVote) : Nat :=
  24 + (tagged vote.ticketId).2.length + (tagged vote.votedHash).2.length +
    (tagged vote.signature).2.length

/-- The octets of the votes and of the evidence of a block, each in a section with a kind, a width and
a count when there are any. -/
def extensionOctets (block : Block) : Nat :=
  (if block.votes.isEmpty then 0 else 9 + (block.votes.map voteOctets).sum) +
    (if block.slashes.isEmpty then 0
      else 9 + (block.slashes.map (fun slash => voteOctets slash.a + voteOctets slash.b)).sum)

theorem putVote_length (vote : StakeVote) : (putVote vote).length = voteOctets vote := by
  simp only [putVote, voteOctets, putU64, List.length_append, List.length_cons, leBytes_length,
    writeTagged_length]
  omega

theorem extension_length {α : Type} (kind : UInt8) (put : α → Bytes) (items : List α) :
    (extension kind put items).length =
      if items.isEmpty then 0 else 9 + (items.map fun item => (put item).length).sum := by
  unfold extension
  split
  · rfl
  · simp only [putU32, List.length_cons, List.length_append, leBytes_length, List.length_flatMap]
    omega

theorem transactions_length (txs : List Transaction) :
    (txs.flatMap fun tx => putU32 (encodeTxV3 P tx).length ++ encodeTxV3 P tx).length =
      (txs.map (txWeight P)).sum := by
  rw [List.length_flatMap]
  refine congrArg (fun weigh => (txs.map weigh).sum) (funext fun tx => ?_)
  simp only [putU32, List.length_append, leBytes_length, txWeight]

/-- The encoding of a block has the octets that its weight counts, except for its votes and
evidence. -/
theorem encodeBlock_length (block : Block) :
    (encodeBlockV3 P block).length + stakeExtensionWeight block =
      blockWeight P block + extensionOctets block := by
  have votes := extension_length 1 putVote block.votes
  have slashes := extension_length 2
    (fun slash : SlashEvidence => putVote slash.a ++ putVote slash.b) block.slashes
  have transactions := transactions_length P block.transactions
  simp only [List.length_append, putVote_length] at votes slashes
  rw [extensionOctets, ← votes, ← slashes]
  simp only [encodeBlockV3, sealed, blockBody, blockWeight, putU64, putU32, List.length_append,
    leBytes_length] at transactions ⊢
  rw [transactions]
  have magic : (ascii "BLV3").length = 4 := rfl
  omega

/-- What is accepted is the encoding of its value exactly when no string is stored as it
is that has a shorter form. A transaction then has the weight of its octets, and a block exactly
when its votes and evidence do. -/
theorem accepted_canonical_iff (P : Primitives) (binary : Bytes) :
    (∀ tx, decodeTxV3 P binary = .ok tx →
      (encodeTxV3 P tx = binary ↔ ∀ field ∈ txFields binary, WellStored field) ∧
      ((∀ field ∈ txFields binary, WellStored field) → txWeight P tx = 4 + binary.length)) ∧
    ∀ block, decodeBlockV3 P binary = .ok block →
      (encodeBlockV3 P block = binary ↔ ∀ field ∈ blockFields binary, WellStored field) ∧
      ((∀ field ∈ blockFields binary, WellStored field) →
        (blockWeight P block = binary.length ↔
          stakeExtensionWeight block = extensionOctets block)) := by
  refine ⟨fun tx decoded => ?_, fun block decoded => ?_⟩
  · have spells := decodeTx_spells P binary tx decoded
    refine ⟨spells.canonical_iff.symm, fun stored => ?_⟩
    rw [txWeight, spells.canonical_iff.mp stored]
  · have spells := decodeBlock_spells P binary block decoded
    refine ⟨spells.canonical_iff.symm, fun stored => ?_⟩
    have counted := encodeBlock_length P block
    rw [spells.canonical_iff.mp stored] at counted
    omega

/-- The encoding of a payment with its recipient stored as it is. -/
def plainPayment (recipient : Bytes) : Bytes :=
  let tx := payment recipient 5 []
  sealed samplePrimitives (ascii "TXV3" ++ writeTagged tx.signer ++ writeTagged tx.signerPubkey ++
    writeTagged tx.signature ++ putU64 tx.fee ++ putU64 tx.nonce ++ putU32 1 ++
    writeTagged (ascii "t") ++ putU32 0 ++ putU32 1 ++
    (0 :: (putU32 recipient.length ++ recipient)) ++ putU64 5 ++ writeTagged [])

/-- A block with a payment and given votes. -/
def payingBlock (votes : List StakeVote) : Block where
  header := { (default : Block).header with height := 1 }
  transactions := [payment (ascii "xyz") 5 []]
  votes := votes
  slashes := []

/-- A vote of the usual form: the name of its ticket is no hexadecimal string. -/
def usualVote : StakeVote :=
  let digest := List.replicate 128 (byte 'a')
  ⟨digest ++ ascii ":0", 0, digest, true, pqPrefix ++ digest⟩

set_option maxRecDepth 100000 in
/-- A recipient that is no hexadecimal string is stored as it is, and a block that pays it and carries
no votes has the weight of its octets. -/
theorem plain_payment_canonical :
    encodeTxV3 samplePrimitives (payment (ascii "xyz") 5 []) = plainPayment (ascii "xyz") ∧
      blockWeight samplePrimitives (payingBlock []) =
        (encodeBlockV3 samplePrimitives (payingBlock [])).length := by
  have decoded : decodeTxV3 samplePrimitives (plainPayment (ascii "xyz")) =
      .ok (payment (ascii "xyz") 5 []) := by
    rfl
  have decodedBlock : decodeBlockV3 samplePrimitives
      (encodeBlockV3 samplePrimitives (payingBlock [])) = .ok (payingBlock []) := by
    decide +kernel
  constructor
  · exact ((accepted_canonical_iff samplePrimitives (plainPayment (ascii "xyz"))).1 _ decoded).1.mpr
      (by decide +kernel)
  · obtain ⟨canonical, weight⟩ := (accepted_canonical_iff samplePrimitives
      (encodeBlockV3 samplePrimitives (payingBlock []))).2 _ decodedBlock
    exact (weight (canonical.mp rfl)).mpr rfl

set_option maxRecDepth 100000 in
/-- A hexadecimal recipient is accepted in the same form, and written in another. A block with an
ordinary vote weighs 64 octets less than it has. -/
theorem hex_payment_two_spellings :
    (∃ tx, decodeTxV3 samplePrimitives (plainPayment (ascii "ab")) = .ok tx ∧
      encodeTxV3 samplePrimitives tx ≠ plainPayment (ascii "ab")) ∧
    ∃ binary block, decodeBlockV3 samplePrimitives binary = .ok block ∧
      encodeBlockV3 samplePrimitives block = binary ∧
      blockWeight samplePrimitives block + 64 = binary.length := by
  refine ⟨⟨payment (ascii "ab") 5 [], rfl, ?_⟩,
    encodeBlockV3 samplePrimitives (payingBlock [usualVote]), payingBlock [usualVote], ?_, rfl, ?_⟩
  · decide +kernel
  · decide +kernel
  · decide +kernel

end Addition.Wire
