import Mathlib.Algebra.Order.BigOperators.Group.List
import Addition.Canonical

/-!
# The text of a bundle

A shielded bundle travels inside its transaction as lowercase digits. The caps of the decoder
admit every bundle that the builder can make, so such a bundle comes back from its own text.
The other way round, a text that decodes is the text of the bundle that it decodes to: counts
and widths are fixed words, nothing may be left over, and only one case of digits is read.
-/

namespace Addition.Shielded

open ByteStrings Checked Wire

/-- The caps of the decoder: its counts and widths, and one encrypted note for each
commitment. -/
structure BundleFits (bundle : Bundle) : Prop where
  nullifiers : bundle.nullifiers.length ≤ kMaxIn
  commitments : bundle.commitments.length ≤ kMaxOut
  enc : bundle.enc.length = bundle.commitments.length
  kemCt : ∀ note ∈ bundle.enc, note.kemCt.length ≤ 4096
  aead : ∀ note ∈ bundle.enc, note.aead.length ≤ 4096
  proof : bundle.proof.length ≤ kMaxProofBytes

/-! ### Reading back what was written -/

theorem readVec_restores (max : Nat) (octets : Bytes) (within : octets.length ≤ max)
    (word : octets.length < 2 ^ 32) : Restores (readVec max) (putVec octets) octets := by
  intro rest
  have small : ¬ max < octets.length := Nat.not_lt_of_le within
  simp [readVec, putVec, List.append_assoc, getU32_restores octets.length word _,
    take_restores octets octets.length rfl rest, small]

/-- The text of one encrypted note. -/
def putNote (note : EncryptedNote) : Bytes := putVec note.kemCt ++ putVec note.aead

theorem readEnc_restores (note : EncryptedNote) (kemCt : note.kemCt.length ≤ 4096)
    (aead : note.aead.length ≤ 4096) : Restores readEnc (putNote note) note := by
  intro rest
  simp [readEnc, putNote, List.append_assoc, readVec_restores 4096 note.kemCt kemCt (by omega) _,
    readVec_restores 4096 note.aead aead (by omega) _]

theorem BundleFits.words {bundle : Bundle} (fits : BundleFits bundle) :
    bundle.nullifiers.length < 2 ^ 32 ∧ bundle.commitments.length < 2 ^ 32 ∧
      bundle.proof.length < 2 ^ 32 := by
  obtain ⟨nullifiers, commitments, _, _, _, proof⟩ := fits
  unfold kMaxIn at nullifiers
  unfold kMaxOut at commitments
  unfold kMaxProofBytes at proof
  omega

/-- Every field that fits is read back. -/
theorem readBundle_restores (bundle : Bundle) (fits : BundleFits bundle) :
    Restores readBundle (serialize bundle) bundle := by
  intro rest
  obtain ⟨inWord, outWord, proofWord⟩ := fits.words
  have notes := readMany_restores readEnc putNote bundle.enc fun note member =>
    readEnc_restores note (fits.kemCt note member) (fits.aead note member)
  rw [fits.enc] at notes
  have counted : putEnc bundle.enc = putU32 bundle.commitments.length ++
      bundle.enc.flatMap putNote := by
    rw [putEnc, fits.enc]
    rfl
  simp only [readBundle, serialize, counted, List.append_assoc, Option.bind_eq_bind,
    Option.pure_def, take_restores (ascii "Z1") 2 rfl _, getU64_restores _ _,
    readH32_restores _ _, getCount_restores kMaxIn _ fits.nullifiers inWord _,
    getCount_restores kMaxOut _ fits.commitments outWord _, readDigests_restores _ _,
    getU32_restores _ outWord _, notes _,
    readVec_restores kMaxProofBytes bundle.proof fits.proof proofWord _, Option.bind_some,
    ne_eq, not_true_eq_false, ↓reduceIte]

/-! ### What a reader accepted -/

theorem readVec_accepts (max : Nat) (input octets rest : Bytes)
    (read : readVec max input = some (octets, rest)) :
    input = putVec octets ++ rest ∧ octets.length ≤ max := by
  simp only [readVec, Option.bind_eq_bind, Option.bind_eq_some_iff, Prod.exists] at read
  obtain ⟨width, middle, first, read⟩ := read
  split at read
  · simp at read
  · rename_i within
    obtain ⟨split, sized⟩ := take_accepts width middle octets rest read
    constructor
    · rw [getU32_reflects input width middle first, split, ← sized]
      exact (List.append_assoc _ _ _).symm
    · omega

theorem readEnc_accepts (input rest : Bytes) (note : EncryptedNote)
    (read : readEnc input = some (note, rest)) :
    input = putNote note ++ rest ∧ note.kemCt.length ≤ 4096 ∧ note.aead.length ≤ 4096 := by
  simp only [readEnc, Option.bind_eq_bind, Option.pure_def, Option.bind_eq_some_iff, Prod.exists,
    Option.some.injEq, Prod.mk.injEq] at read
  obtain ⟨kemCt, middle, first, aead, left, second, rfl, rfl⟩ := read
  obtain ⟨split, small⟩ := readVec_accepts 4096 input kemCt middle first
  obtain ⟨split', small'⟩ := readVec_accepts 4096 middle aead left second
  refine ⟨?_, small, small'⟩
  rw [split, split', ← List.append_assoc]
  rfl

theorem readEnc_reflects : Reflects readEnc putNote :=
  fun input note rest read => (readEnc_accepts input rest note read).1

/-- A property of every item that a reader accepts holds of a list that was read. -/
theorem readMany_each {α : Type} {read : Bytes → Option (α × Bytes)} {good : α → Prop}
    (each : ∀ input item rest, read input = some (item, rest) → good item) (count : Nat)
    (input rest : Bytes) (items : List α) (result : readMany read count input = some (items, rest)) :
    ∀ item ∈ items, good item := by
  induction count generalizing input items with
  | zero =>
    obtain ⟨rfl, _⟩ := Prod.mk.inj (Option.some.inj result)
    exact fun item member => absurd member List.not_mem_nil
  | succ count ih =>
    simp only [readMany, Option.bind_eq_bind, Option.pure_def, Option.bind_eq_some_iff,
      Option.some.injEq] at result
    obtain ⟨⟨first, middle⟩, head, ⟨later, left⟩, others, same⟩ := result
    obtain ⟨rfl, rfl⟩ := Prod.mk.inj same
    intro item member
    rcases List.mem_cons.mp member with rfl | member
    · exact each input item middle head
    · exact ih middle later others item member

theorem readBundle_accepts (input rest : Bytes) (bundle : Bundle)
    (read : readBundle input = some (bundle, rest)) :
    input = serialize bundle ++ rest ∧ BundleFits bundle := by
  obtain ⟨⟨magic, _⟩, magicRead, read⟩ := Option.bind_eq_some_iff.mp read
  obtain ⟨isMagic, read⟩ := Option.ite_none_left_eq_some.mp read
  obtain ⟨⟨vpubIn, _⟩, inRead, read⟩ := Option.bind_eq_some_iff.mp read
  obtain ⟨⟨vpubOut, _⟩, outRead, read⟩ := Option.bind_eq_some_iff.mp read
  obtain ⟨⟨anchor, _⟩, anchorRead, read⟩ := Option.bind_eq_some_iff.mp read
  obtain ⟨⟨inCount, _⟩, inCounted, read⟩ := Option.bind_eq_some_iff.mp read
  obtain ⟨⟨nullifiers, _⟩, nullifiersRead, read⟩ := Option.bind_eq_some_iff.mp read
  obtain ⟨⟨outCount, _⟩, outCounted, read⟩ := Option.bind_eq_some_iff.mp read
  obtain ⟨⟨commitments, _⟩, commitmentsRead, read⟩ := Option.bind_eq_some_iff.mp read
  obtain ⟨⟨encCount, _⟩, encCounted, read⟩ := Option.bind_eq_some_iff.mp read
  obtain ⟨sameCount, read⟩ := Option.ite_none_left_eq_some.mp read
  obtain ⟨⟨enc, _⟩, encRead, read⟩ := Option.bind_eq_some_iff.mp read
  obtain ⟨⟨proof, _⟩, proofRead, read⟩ := Option.bind_eq_some_iff.mp read
  obtain ⟨rfl, rfl⟩ := Prod.mk.inj (Option.some.inj read)
  have magicSame : magic = ascii "Z1" := Decidable.not_not.mp isMagic
  have encSame : encCount = commitments.length := Decidable.not_not.mp sameCount
  have inWidth := readMany_length readH32 inCount _ _ _ nullifiersRead
  have outWidth := readMany_length readH32 outCount _ _ _ commitmentsRead
  have encWidth := readMany_length readEnc encCount _ _ _ encRead
  have notes := readMany_each (fun input note rest read => (readEnc_accepts input rest note read).2)
    encCount _ _ _ encRead
  obtain ⟨proofSplit, proofSmall⟩ := readVec_accepts kMaxProofBytes _ _ _ proofRead
  constructor
  · rw [(take_accepts 2 _ _ _ magicRead).1, getU64_reflects _ _ _ inRead,
      getU64_reflects _ _ _ outRead, readH32_reflects _ _ _ anchorRead,
      getU32_reflects _ _ _ (getCount_some _ _ _ _ inCounted),
      readMany_reflects readH32_reflects inCount _ _ _ nullifiersRead,
      getU32_reflects _ _ _ (getCount_some _ _ _ _ outCounted),
      readMany_reflects readH32_reflects outCount _ _ _ commitmentsRead,
      getU32_reflects _ _ _ encCounted, readMany_reflects readEnc_reflects encCount _ _ _ encRead,
      proofSplit, magicSame, ← inWidth, ← outWidth, ← encWidth]
    simp only [serialize, putEnc, putDigests, List.append_assoc]
    rfl
  · constructor
    · exact inWidth ▸ getCount_le kMaxIn _ _ _ inCounted
    · exact outWidth ▸ getCount_le kMaxOut _ _ _ outCounted
    · exact encWidth.trans encSame
    · exact fun note member => (notes note member).1
    · exact fun note member => (notes note member).2
    · exact proofSmall

/-- A bundle is read when its reader leaves nothing. -/
theorem deserialize_ok (input : Bytes) (bundle : Bundle) :
    deserialize input = .ok bundle ↔ readBundle input = some (bundle, []) := by
  constructor
  · intro decoded
    unfold deserialize at decoded
    split at decoded
    · rename_i found read
      obtain rfl : found = bundle := by simpa using decoded
      exact read
    · simp at decoded
  · intro read
    simp only [deserialize, read]

/-! ### The size of the text -/

theorem sum_le_each (sizes : List Nat) (cap : Nat) (each : ∀ size ∈ sizes, size ≤ cap) :
    sizes.sum ≤ sizes.length * cap := by
  simpa using List.sum_le_card_nsmul sizes cap each

/-- The octets of a bundle that fits are within the cap on its digits. -/
theorem serialize_length (bundle : Bundle) (fits : BundleFits bundle) :
    0 < (serialize bundle).length ∧ 2 * (serialize bundle).length ≤ kMaxHex := by
  have notes : (bundle.enc.flatMap putNote).length ≤ bundle.enc.length * 8200 := by
    rw [List.length_flatMap]
    have each : ∀ size ∈ bundle.enc.map (fun note => (putNote note).length), size ≤ 8200 := by
      intro size member
      obtain ⟨note, listed, rfl⟩ := List.mem_map.mp member
      have first := fits.kemCt note listed
      have second := fits.aead note listed
      simp only [putNote, putVec, putU32, List.length_append, leBytes_length]
      omega
    simpa using sum_le_each _ _ each
  have written : (putEnc bundle.enc).length = 4 + (bundle.enc.flatMap putNote).length := by
    simp [putEnc, putNote, putU32]
  have anchor := bundle.anchor.property
  obtain ⟨nullifiers, commitments, enc, _, _, proof⟩ := fits
  simp only [serialize, List.length_append, putVec, putU32, putU64, leBytes_length,
    putDigests_length, written, anchor]
  unfold kMaxIn at nullifiers
  unfold kMaxOut at commitments
  unfold kMaxProofBytes at proof
  unfold kMaxHex kMaxProofBytes
  constructor
  · omega
  · have magic : (ascii "Z1").length = 2 := rfl
    omega

/-! ### One text for each bundle -/

/-- The digits of a bundle are read when they are even, lower and not too many. -/
theorem fromTxField_ok (hex : Bytes) (bundle : Bundle) :
    fromTxField hex = .ok bundle ↔ hex ≠ [] ∧ hex.length ≤ kMaxHex ∧ hex.length % 2 = 0 ∧
      (∀ digit ∈ hex, isLowerHex digit = true) ∧ readBundle (fromHex hex) = some (bundle, []) := by
  simp only [fromTxField, bind_ok, exists_unit, ensure_ok, deserialize_ok, Bool.and_eq_true,
    Bool.not_eq_true', decide_eq_true_eq, List.isEmpty_eq_false_iff, List.all_eq_true, and_assoc]

/-- A bundle comes back from its text exactly when it is within the caps, and a text that
decodes to a bundle is that bundle's text. -/
theorem bundle_text_unique (bundle : Bundle) :
    (fromTxField (toTxField bundle) = .ok bundle ↔ BundleFits bundle) ∧
      ∀ hex, fromTxField hex = .ok bundle → toTxField bundle = hex := by
  constructor
  · rw [fromTxField_ok, toTxField, fromHex_toHex]
    constructor
    · rintro ⟨_, _, _, _, read⟩
      exact (readBundle_accepts _ _ bundle read).2
    · intro fits
      obtain ⟨some, within⟩ := serialize_length bundle fits
      have read := readBundle_restores bundle fits []
      rw [List.append_nil] at read
      refine ⟨?_, ?_, ?_, toHex_lower _, read⟩
      · intro none
        have empty := congrArg List.length none
        rw [toHex_length, List.length_nil] at empty
        omega
      · rw [toHex_length]
        exact within
      · rw [toHex_length]
        omega
  · intro hex decoded
    obtain ⟨_, _, even, lower, read⟩ := (fromTxField_ok hex bundle).mp decoded
    have written := (readBundle_accepts _ _ bundle read).1
    rw [List.append_nil] at written
    rw [toTxField, ← written, toHex_fromHex hex even lower]

/-- A bundle with one note comes back. -/
theorem one_note_returns :
    let bundle : Bundle := ⟨3, 0, zeroH32, [zeroH32], [zeroH32], [⟨[1], [2]⟩], [7]⟩
    fromTxField (toTxField bundle) = .ok bundle := by
  intro bundle
  refine (bundle_text_unique bundle).1.mpr ?_
  constructor <;> decide

end Addition.Shielded
