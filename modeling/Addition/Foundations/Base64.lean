import Addition.Foundations.ByteStrings

/-!
# Octets in base 64

Three octets are written as four letters of six bits each, and one or two octets at the end as four with
marks of padding behind their letters. A reader takes groups of four, allows padding at the very end
only, and does not look at the bits that padding leaves over. What was written comes back.
-/

namespace Base64

open ByteStrings

/-- The letters, each at the place of its value. -/
def alphabet : Bytes := ascii "ABCDEFGHIJKLMNOPQRSTUVWXYZabcdefghijklmnopqrstuvwxyz0123456789+/"

/-- The mark of padding. -/
def pad : UInt8 := byte '='

/-- The letter of a value, of which six bits count. -/
def letter (value : Nat) : UInt8 := alphabet.getD (value % 64) 0

/-- The value of a letter. -/
def sextet (octet : UInt8) : Option Nat := alphabet.idxOf? octet

/-- What is written for octets. -/
def encode : Bytes → Bytes
  | [] => []
  | [a] =>
    let bits := 65536 * a.toNat
    [letter (bits / 262144), letter (bits / 4096), pad, pad]
  | [a, b] =>
    let bits := 65536 * a.toNat + 256 * b.toNat
    [letter (bits / 262144), letter (bits / 4096), letter (bits / 64), pad]
  | a :: b :: c :: rest =>
    let bits := 65536 * a.toNat + 256 * b.toNat + c.toNat
    letter (bits / 262144) :: letter (bits / 4096) :: letter (bits / 64) :: letter bits :: encode rest

/-- What is read from letters. -/
def decode : Bytes → Option Bytes
  | [] => some []
  | a :: b :: c :: d :: rest => do
    let first ← sextet a
    let second ← sextet b
    if c = pad then
      if d = pad ∧ rest = [] then
        some [UInt8.ofNat ((262144 * first + 4096 * second) / 65536)]
      else none
    else
      let third ← sextet c
      if d = pad then
        if rest = [] then
          let bits := 262144 * first + 4096 * second + 64 * third
          some [UInt8.ofNat (bits / 65536), UInt8.ofNat (bits / 256)]
        else none
      else
        let fourth ← sextet d
        let bits := 262144 * first + 4096 * second + 64 * third + fourth
        let others ← decode rest
        some (UInt8.ofNat (bits / 65536) :: UInt8.ofNat (bits / 256) :: UInt8.ofNat bits :: others)
  | _ => none

set_option maxRecDepth 10000 in
theorem sextet_letter (value : Nat) : sextet (letter value) = some (value % 64) := by
  have table : ∀ place < 64, sextet (alphabet.getD place 0) = some place := by decide
  exact table (value % 64) (Nat.mod_lt _ (by decide))

set_option maxRecDepth 10000 in
theorem letter_ne_pad (value : Nat) : letter value ≠ pad := by
  have table : ∀ place < 64, alphabet.getD place 0 ≠ pad := by decide
  exact table (value % 64) (Nat.mod_lt _ (by decide))

/-- An octet is what its value leaves modulo 256. -/
theorem ofNat_eq {value : Nat} {octet : UInt8} (same : value % 256 = octet.toNat) :
    UInt8.ofNat value = octet := by
  rw [← UInt8.toNat_inj, UInt8.toNat_ofNat', same]

/-- What was written is read back. -/
theorem decode_encode (octets : Bytes) : decode (encode octets) = some octets := by
  fun_induction encode octets with
  | case1 => rfl
  | case2 a bits =>
    have bound := a.toNat_lt
    have only : UInt8.ofNat ((262144 * (bits / 262144 % 64) + 4096 * (bits / 4096 % 64)) / 65536) = a :=
      ofNat_eq (by omega)
    simp only [decode, sextet_letter, Option.bind_eq_bind, Option.bind_some, if_true, and_self, only]
  | case3 a b bits =>
    have boundA := a.toNat_lt
    have boundB := b.toNat_lt
    have first : UInt8.ofNat ((262144 * (bits / 262144 % 64) + 4096 * (bits / 4096 % 64) +
        64 * (bits / 64 % 64)) / 65536) = a := ofNat_eq (by omega)
    have second : UInt8.ofNat ((262144 * (bits / 262144 % 64) + 4096 * (bits / 4096 % 64) +
        64 * (bits / 64 % 64)) / 256) = b := ofNat_eq (by omega)
    simp only [decode, sextet_letter, letter_ne_pad, Option.bind_eq_bind, Option.bind_some, if_true, if_false,
      first, second]
  | case4 a b c rest bits ih =>
    have boundA := a.toNat_lt
    have boundB := b.toNat_lt
    have boundC := c.toNat_lt
    have whole : 262144 * (bits / 262144 % 64) + 4096 * (bits / 4096 % 64) + 64 * (bits / 64 % 64) +
        bits % 64 = bits := by omega
    have first : UInt8.ofNat (bits / 65536) = a := ofNat_eq (by omega)
    have second : UInt8.ofNat (bits / 256) = b := ofNat_eq (by omega)
    have third : UInt8.ofNat bits = c := ofNat_eq (by omega)
    simp only [decode, sextet_letter, letter_ne_pad, Option.bind_eq_bind, Option.bind_some, if_false, whole,
      first, second, third, ih]

/-- Four letters are read as three octets at most. -/
theorem decode_length {text octets : Bytes} (read : decode text = some octets) :
    octets.length ≤ text.length := by
  fun_induction decode text generalizing octets with
  | case1 =>
    obtain rfl := Option.some.inj read
    exact Nat.le_refl _
  | case2 a b c d rest others =>
    simp only [Option.bind_eq_bind, Option.bind_eq_some_iff] at read
    obtain ⟨first, -, second, -, read⟩ := read
    split at read
    · split at read
      · obtain rfl := Option.some.inj read
        simp only [List.length_cons, List.length_nil]
        omega
      · exact absurd read (by simp)
    · simp only [Option.bind_eq_some_iff] at read
      obtain ⟨third, -, read⟩ := read
      split at read
      · split at read
        · obtain rfl := Option.some.inj read
          simp only [List.length_cons, List.length_nil]
          omega
        · exact absurd read (by simp)
      · simp only [Option.bind_eq_some_iff] at read
        obtain ⟨fourth, -, later, found, same⟩ := read
        obtain rfl := Option.some.inj same
        have shorter := others found
        simp only [List.length_cons]
        omega
  | case3 => exact absurd read (by simp)

end Base64
