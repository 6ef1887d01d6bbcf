import Addition.Handshakes

/-!
# Libraries of symbols

The assumptions on the libraries can be met: a derived key is the record of its derivation
and a sealed text is the record of what it was sealed with. Two packages have short digests
and every other string is its own digest, in hexadecimal.
-/

namespace Addition

namespace PqSession

open ByteStrings Checked FiniteTables

/-- A key by its derivation: the half of the output, what the code was keyed with, and the
message. -/
inductive SymbolicKey
  | frontDigest (transcript message : Bytes)
  | frontDerived (key : SymbolicKey) (message : Bytes)
  | frontEmpty (message : Bytes)
  | backDigest (transcript message : Bytes)
  | backDerived (key : SymbolicKey) (message : Bytes)
  | backEmpty (message : Bytes)
deriving DecidableEq

/-- A box of symbols: a text with all it was sealed with. -/
structure SymbolicBox where
  key : SymbolicKey
  iv : Bytes
  aad : Bytes
  text : Bytes
deriving DecidableEq

/-- A code of symbols, whose halves tell its key and its text. -/
def symbolicHmac (key : MacKey SymbolicKey) (message : Bytes) : SymbolicKey × SymbolicKey :=
  match key with
  | .digest transcript => (.frontDigest transcript message, .backDigest transcript message)
  | .derived key => (.frontDerived key message, .backDerived key message)
  | .empty => (.frontEmpty message, .backEmpty message)

theorem symbolicHmac_front (key key' : MacKey SymbolicKey) (message message' : Bytes)
    (same : (symbolicHmac key message).1 = (symbolicHmac key' message').1) :
    key = key' ∧ message = message' := by
  cases key <;> cases key' <;> simp_all [symbolicHmac]

theorem symbolicHmac_back (key key' : MacKey SymbolicKey) (message message' : Bytes)
    (same : (symbolicHmac key message).2 = (symbolicHmac key' message').2) :
    key = key' ∧ message = message' := by
  cases key <;> cases key' <;> simp_all [symbolicHmac]

theorem symbolicHmac_halves (key key' : MacKey SymbolicKey) (message message' : Bytes) :
    (symbolicHmac key message).1 ≠ (symbolicHmac key' message').2 := by
  cases key <;> cases key' <;> simp [symbolicHmac]

/-- A box opens under what it was sealed with only. -/
def symbolicOpen (key : SymbolicKey) (iv aad : Bytes) (box : SymbolicBox) : Option Bytes :=
  if box = ⟨key, iv, aad, box.text⟩ then some box.text else none

theorem symbolicOpen_some (key : SymbolicKey) (iv aad : Bytes) (box : SymbolicBox) (text : Bytes) :
    symbolicOpen key iv aad box = some text ↔ box = ⟨key, iv, aad, text⟩ := by
  unfold symbolicOpen
  constructor
  · intro opened
    split at opened
    · rename_i same
      rw [same, Option.some.inj opened]
    · exact absurd opened (by simp)
  · intro same
    rw [same, if_pos rfl]

/-! ### Two packages -/

/-- A package that is valid from the start of time for a while. -/
def symbolicPackage (index : Bytes) : KeyPackage :=
  ⟨index, List.replicate 2592 0, List.replicate 1568 0, List.replicate 1568 0, 0, 1000, [1]⟩

/-- The package of the party that starts. -/
def initiatorPackage : KeyPackage := symbolicPackage (ascii "-")

/-- The package of the party that answers. -/
def responderPackage : KeyPackage := symbolicPackage (List.replicate 32 (byte '0'))

theorem symbolicPackage_bounded (index : Bytes) (short : index.length ≤ 64) :
    (symbolicPackage index).Bounded := by
  refine ⟨short, ?_, ?_, ?_, Nat.le_add_left 1 8191⟩
  · exact (List.length_replicate).trans_le (by decide)
  · exact (List.length_replicate).trans_le (by decide)
  · exact (List.length_replicate).trans_le (by decide)

/-- The packages have digests of one digit, all other strings have digests of even length. -/
def symbolicDigest (octets : Bytes) : Bytes :=
  if octets = initiatorPackage.encode then ascii "a"
  else if octets = responderPackage.encode then ascii "b"
  else toHex octets

theorem symbolicDigest_injective : Function.Injective symbolicDigest := by
  have odd : ∀ octets (digit : UInt8), toHex octets ≠ [digit] := by
    intro octets digit same
    have long := congrArg List.length same
    rw [toHex_length, List.length_singleton] at long
    omega
  intro octets octets' same
  unfold symbolicDigest at same
  split at same
  · rename_i first
    split at same
    · rename_i second
      rw [first, second]
    · split at same
      · exact absurd same (by decide)
      · exact absurd same.symm (odd _ _)
  · split at same
    · rename_i first
      split at same
      · exact absurd same (by decide)
      · split at same
        · rename_i second
          rw [first, second]
        · exact absurd same.symm (odd _ _)
    · split at same
      · exact absurd same (odd _ _)
      · split at same
        · exact absurd same (odd _ _)
        · exact toHex_injective _ _ same

theorem symbolicDigest_hex (octets : Bytes) :
    ∀ digit ∈ symbolicDigest octets, isLowerHex digit = true := by
  have checked : ∀ digits : Bytes, digits.all isLowerHex = true → ∀ digit ∈ digits, isLowerHex digit = true :=
    fun _ => List.all_eq_true.mp
  unfold symbolicDigest
  split
  · exact checked _ (by decide)
  · split
    · exact checked _ (by decide)
    · exact toHex_lower octets

/-- The digest of a short string. -/
theorem symbolicDigest_short (octets : Bytes) (short : octets.length ≤ 32) :
    symbolicDigest octets = toHex octets := by
  have long : ∀ index : Bytes, octets ≠ (symbolicPackage index).encode := by
    rintro index rfl
    simp only [KeyPackage.encode, symbolicPackage, put, List.length_append, List.length_replicate,
      List.length_reverse, leBytes_length] at short
    omega
  unfold symbolicDigest initiatorPackage responderPackage
  rw [if_neg (long _), if_neg (long _)]

/-! ### The suite -/

/-- Key pairs have one octet, a capsule is the secret that it hides. -/
def symbolic : Suite where
  Key := SymbolicKey
  Box := SymbolicBox
  Seed := UInt8
  hmac := symbolicHmac
  h32 := symbolicDigest
  fingerprint := symbolicDigest
  keypair seed := some ([seed], [seed])
  encaps _ seed := some ([seed], [seed])
  decaps _ capsule := some capsule
  sign _ _ := some [1]
  sigVerify _ _ sig := sig == [1]
  aeadSeal key iv aad text := ⟨key, iv, aad, text⟩
  aeadOpen := symbolicOpen
  boxSize box := box.text.length + 16

/-- The assumptions on the libraries can be met. -/
theorem symbolic_ideal : symbolic.Ideal where
  front_injective := symbolicHmac_front _ _ _ _
  back_injective := symbolicHmac_back _ _ _ _
  front_ne_back _ _ _ _ := symbolicHmac_halves _ _ _ _
  h32_injective := symbolicDigest_injective
  h32_hex := symbolicDigest_hex
  agreement := by
    intro seed pub sk coins ct ss _ capsule
    simp only [symbolic, Option.some.injEq, Prod.mk.injEq] at capsule ⊢
    rw [← capsule.1, ← capsule.2]
  keypair_some := by
    intro seed pub sk pair
    simp only [symbolic, Option.some.injEq, Prod.mk.injEq] at pair
    rw [← pair.1]
    exact List.cons_ne_nil _ _
  encaps_some := by
    intro pub coins ct ss capsule
    simp only [symbolic, Option.some.injEq, Prod.mk.injEq] at capsule
    rw [← capsule.1]
    exact List.cons_ne_nil _ _
  aead_exact := symbolicOpen_some
  aead_injective same := by
    injection same with key iv aad text
    exact ⟨key, iv, aad, text⟩

theorem symbolic_sized : symbolic.Sized where
  pub := by
    intro seed pub sk pair
    simp only [symbolic, Option.some.injEq, Prod.mk.injEq] at pair
    rw [← pair.1]
    exact Nat.le_add_left 1 4095
  digest := by
    constructor
    · change (symbolicDigest []).length ≤ 64
      rw [symbolicDigest_short [] (by decide)]
      decide
    · intro seed pub sk pair
      simp only [symbolic, Option.some.injEq, Prod.mk.injEq] at pair
      rw [← pair.1]
      change (symbolicDigest [seed]).length ≤ 64
      rw [symbolicDigest_short [seed] (Nat.le_add_left 1 31)]
      exact Nat.le_add_left 2 62
  capsule := by
    intro pub coins ct ss capsule
    simp only [symbolic, Option.some.injEq, Prod.mk.injEq] at capsule
    rw [← capsule.1]
    exact Nat.le_add_left 1 4095
  box _ _ _ _ := rfl

theorem symbolicDigest_package : (symbolicDigest responderPackage.encode).length = 1 := by
  unfold symbolicDigest
  split
  · rfl
  · rw [if_pos rfl]
    rfl

theorem responderPackage_hash : (responderPackage.hash symbolic).length ≤ 64 := by
  have digest : symbolic.h32 = symbolicDigest := rfl
  rw [KeyPackage.hash, digest, symbolicDigest_package]
  decide

theorem symbolicPackage_length (index : Bytes) (short : index.length ≤ 64) :
    (symbolicPackage index).encode.length ≤ 16384 := by
  simp only [KeyPackage.encode, symbolicPackage, put, put64, List.length_append, List.length_replicate,
    List.length_reverse, leBytes_length]
  have tag : (ascii "AKP1").length = 4 := rfl
  have sig : ([1] : Bytes).length = 1 := rfl
  omega

theorem symbolicPackage_valid (index : Bytes)
    (isIndex : index = ascii "-" ∨ index.length = 32 ∧ index.all isLowerHex = true) (now : UInt64)
    (early : now < 1000) : (symbolicPackage index).verify symbolic now = .ok () := by
  simp only [KeyPackage.verify, bind_ok, exists_unit, ensure_ok]
  refine ⟨?_, ?_, ?_, ?_, rfl⟩
  · simp only [Bool.and_eq_true, decide_eq_true_eq]
    exact ⟨⟨List.length_replicate, List.length_replicate⟩, List.length_replicate⟩
  · obtain rfl | ⟨size, digits⟩ := isIndex
    · rfl
    · have sized : (symbolicPackage index).index.length = 32 := size
      have hex : (symbolicPackage index).index.all isLowerHex = true := digits
      rw [hex, sized]
      simp
  · have created : (0 : UInt64) ≤ now + 600 := UInt64.zero_le
    have lifetime : (0 : UInt64) < 1000 ∧ (1000 : UInt64) - 0 ≤ 30 * 24 * 3600 := by decide
    simp only [Bool.and_eq_true, decide_eq_true_eq]
    exact ⟨lifetime, created⟩
  · exact decide_eq_true early

end PqSession

end Addition
