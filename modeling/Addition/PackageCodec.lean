import Addition.Handshakes

/-!
# Packages and their octets

Whatever the reader of a key package accepts is what would be written for the package, so the
digest of a package is the digest of the octets that were read. What a package signs names each
of its fields: the separator occurs in none of them.
-/

namespace Addition

namespace PqSession

open ByteStrings Checked

/-! ### What a reader accepted -/

theorem readSized_some (max : Nat) (input octets rest : Bytes)
    (read : readSized max input = some (octets, rest)) :
    input = put octets ++ rest ∧ octets.length ≤ max := by
  obtain ⟨long, read⟩ := Option.ite_none_left_eq_some.mp read
  obtain ⟨sized, read⟩ := Option.ite_none_left_eq_some.mp read
  obtain ⟨rfl, rfl⟩ := Prod.mk.inj (Option.some.inj read)
  have four : (input.take 4).reverse.length = 4 := by
    rw [List.length_reverse, List.length_take]
    omega
  rw [not_or] at sized
  generalize same : leValue (input.take 4).reverse = size at sized ⊢
  have width : ((input.drop 4).take size).length = size := by
    rw [List.length_take, List.length_drop]
    omega
  have word : (leBytes 4 size).reverse = input.take 4 := by
    have back := leBytes_leValue (input.take 4).reverse
    rw [four, same] at back
    rw [back, List.reverse_reverse]
  constructor
  · rw [put, width, word, List.append_assoc, ← List.drop_drop, List.take_append_drop,
      List.take_append_drop]
  · rw [width]
    omega

theorem readWord_some (input rest : Bytes) (value : UInt64)
    (read : readWord input = some (value, rest)) : input = put64 value ++ rest := by
  obtain ⟨long, read⟩ := Option.ite_none_left_eq_some.mp read
  obtain ⟨rfl, rfl⟩ := Prod.mk.inj (Option.some.inj read)
  have eight : (input.take 8).reverse.length = 8 := by
    rw [List.length_reverse, List.length_take]
    omega
  have bound : leValue (input.take 8).reverse < UInt64.size := by
    have small := leValue_lt (input.take 8).reverse
    rw [eight] at small
    simp only [UInt64.size]
    omega
  have back := leBytes_leValue (input.take 8).reverse
  rw [eight] at back
  rw [put64, UInt64.toNat_ofNat_of_lt' bound, back, List.reverse_reverse, List.take_append_drop]

/-- What decodes to a package is its encoding, and the package is within the limits. -/
theorem decode_some (input : Bytes) (package : KeyPackage)
    (decoded : KeyPackage.decode input = some package) :
    package.encode = input ∧ package.Bounded := by
  obtain ⟨magic, decoded⟩ := Option.ite_none_left_eq_some.mp decoded
  obtain ⟨⟨index, _⟩, indexRead, decoded⟩ := Option.bind_eq_some_iff.mp decoded
  obtain ⟨⟨identityPub, _⟩, identityRead, decoded⟩ := Option.bind_eq_some_iff.mp decoded
  obtain ⟨⟨initPub, _⟩, initRead, decoded⟩ := Option.bind_eq_some_iff.mp decoded
  obtain ⟨⟨relayPub, _⟩, relayRead, decoded⟩ := Option.bind_eq_some_iff.mp decoded
  obtain ⟨⟨created, _⟩, createdRead, decoded⟩ := Option.bind_eq_some_iff.mp decoded
  obtain ⟨⟨expires, _⟩, expiresRead, decoded⟩ := Option.bind_eq_some_iff.mp decoded
  obtain ⟨⟨sig, rest⟩, sigRead, decoded⟩ := Option.bind_eq_some_iff.mp decoded
  obtain ⟨ended, decoded⟩ := Option.ite_none_right_eq_some.mp decoded
  obtain rfl := Option.some.inj decoded
  obtain rfl : rest = [] := List.isEmpty_iff.mp ended
  obtain ⟨indexSplit, indexSmall⟩ := readSized_some 64 _ _ _ indexRead
  obtain ⟨identitySplit, identitySmall⟩ := readSized_some 4096 _ _ _ identityRead
  obtain ⟨initSplit, initSmall⟩ := readSized_some 4096 _ _ _ initRead
  obtain ⟨relaySplit, relaySmall⟩ := readSized_some 4096 _ _ _ relayRead
  obtain ⟨sigSplit, sigSmall⟩ := readSized_some 8192 _ _ _ sigRead
  refine ⟨?_, indexSmall, identitySmall, initSmall, relaySmall, sigSmall⟩
  have front : input = ascii "AKP1" ++ input.drop 4 := by
    conv_lhs => rw [← List.take_append_drop 4 input]
    rw [Decidable.not_not.mp magic]
  rw [front, indexSplit, identitySplit, initSplit, relaySplit, readWord_some _ _ _ createdRead,
    readWord_some _ _ _ expiresRead, sigSplit, List.append_nil]
  simp only [KeyPackage.encode, List.append_assoc]

/-! ### What is signed -/

/-- The checks that `verify` makes on the fields, before the signature. -/
def KeyPackage.fieldChecks (package : KeyPackage) (now : UInt64) : Except String Unit := do
  ensure (decide (package.identityPub.length = 2592) && decide (package.initPub.length = 1568) &&
    decide (package.relayPub.length = 1568)) "key package: bad key sizes"
  ensure (package.index == ascii "-" ||
    (decide (package.index.length = 32) && package.index.all isLowerHex)) "key package: bad index"
  ensure (decide (package.created < package.expires) &&
    decide (package.expires - package.created ≤ 30 * 24 * 3600) &&
    decide (package.created ≤ now + 600)) "key package: bad lifetime"
  ensure (decide (now < package.expires)) "key package expired"

theorem verify_fields {S : Suite} (package : KeyPackage) (now : UInt64) :
    package.verify S now = (do
      package.fieldChecks now
      ensure (S.sigVerify package.identityPub package.tbs package.sig)
        "key package: bad ML-DSA-87 signature") := by
  simp only [KeyPackage.verify, KeyPackage.fieldChecks, bind_assoc]

variable {package : KeyPackage}

/-- The separator is not in the index of a package. -/
theorem index_plain {now : UInt64}
    (checked : package.fieldChecks now = .ok ()) : byte '|' ∉ package.index := by
  simp only [KeyPackage.fieldChecks, bind_ok, exists_unit, ensure_ok, Bool.or_eq_true, beq_iff_eq,
    Bool.and_eq_true, List.all_eq_true] at checked
  obtain ⟨_, index, _, _⟩ := checked
  intro member
  rcases index with dash | ⟨_, lower⟩
  · rw [dash] at member
    exact absurd member (by decide)
  · exact absurd (lower _ member) (by decide)

theorem bar_not_mem_toHex (octets : Bytes) : byte '|' ∉ toHex octets := by
  intro member
  exact absurd (toHex_lower octets _ member) (by decide)

theorem bar_not_mem_decimal (value : Nat) : byte '|' ∉ decimal value :=
  not_mem_decimal value _ (by decide)

/-- Two packages that sign the same text have the same fields, the signature apart. -/
theorem tbs_fields {package' : KeyPackage} (index : byte '|' ∉ package.index)
    (index' : byte '|' ∉ package'.index) (same : package.tbs = package'.tbs) :
    { package with sig := package'.sig } = package' := by
  have keys : ∀ octets : Bytes, byte '|' ∉ toHex octets := bar_not_mem_toHex
  simp only [KeyPackage.tbs, List.append_assoc] at same
  have cut := List.append_cancel_left same
  obtain ⟨sameIndex, cut⟩ := cut_first (byte '|') _ _ _ _ index index' cut
  obtain ⟨sameIdentity, cut⟩ := cut_first (byte '|') _ _ _ _ (keys _) (keys _) cut
  obtain ⟨sameInit, cut⟩ := cut_first (byte '|') _ _ _ _ (keys _) (keys _) cut
  obtain ⟨sameRelay, cut⟩ := cut_first (byte '|') _ _ _ _ (keys _) (keys _) cut
  obtain ⟨sameCreated, sameExpires⟩ := cut_first (byte '|') _ _ _ _ (bar_not_mem_decimal _)
    (bar_not_mem_decimal _) cut
  have created := UInt64.toNat_inj.mp (decimal_injective _ _ sameCreated)
  have expires := UInt64.toNat_inj.mp (decimal_injective _ _ sameExpires)
  obtain ⟨index, identityPub, initPub, relayPub, created, expires, sig⟩ := package
  simp only at *
  rw [sameIndex, toHex_injective _ _ sameIdentity, toHex_injective _ _ sameInit,
    toHex_injective _ _ sameRelay]
  subst_vars
  rfl

end PqSession

end Addition
