import Mathlib.Data.List.Induction
import Addition.Foundations.TextLines

/-!
# Hexadecimal numbers as text

A number is written in lowercase digits without leading zeros, and read from the front of
a text in base sixteen with the white space, sign and radix mark that stream conversion
accepts. What was written is read back, and a text of hexadecimal digits has no other
reading than the value of its digits.
-/

namespace HexNumbers

open ByteStrings TextLines

/-- The rendering in base sixteen without leading zeros. -/
def hexNumber (value : Nat) : Bytes := (Nat.toDigits 16 value).map byte

/-- Read a string of hexadecimal digits, most significant digit first. -/
def hexValue (digits : Bytes) : Nat :=
  digits.foldl (fun total digit => 16 * total + nibble digit) 0

/-- The digits behind a radix mark; a mark without a digit behind it is no mark. -/
def dropRadix (text : Bytes) : Bytes :=
  match text with
  | zero :: mark :: digit :: rest =>
    if zero = byte '0' ∧ (mark = byte 'x' ∨ mark = byte 'X') ∧ isHex digit = true then
      digit :: rest
    else text
  | _ => text

/-- The number at the front of a text, as `strtoull` reads it in base sixteen. There is
none without digits or beyond 64 bits. -/
def stoullHex (text : Bytes) : Option UInt64 :=
  let trimmed := text.dropWhile isSpace
  let negative := trimmed.head? == some (byte '-')
  let unsigned := if negative || trimmed.head? == some (byte '+') then trimmed.tail else trimmed
  let digits := (dropRadix unsigned).takeWhile isHex
  if digits.isEmpty then none
  else if 2 ^ 64 ≤ hexValue digits then none
  else if negative then some (0 - UInt64.ofNat (hexValue digits))
  else some (UInt64.ofNat (hexValue digits))

theorem byte_digitChar (digit : Nat) (bound : digit < 16) :
    byte (Nat.digitChar digit) = hexDigit digit := by
  interval_cases digit <;> rfl

/-- The last digit and the rendering of the rest. -/
theorem hexNumber_eq (value : Nat) :
    hexNumber value =
      if value < 16 then [hexDigit value] else hexNumber (value / 16) ++ [hexDigit (value % 16)] := by
  unfold hexNumber
  rw [Nat.toDigits_eq_if (by decide)]
  split
  · rename_i small
    simp [byte_digitChar value small]
  · simp [byte_digitChar (value % 16) (by omega)]

theorem hexNumber_ne_nil (value : Nat) : hexNumber value ≠ [] := by
  simp [hexNumber]

theorem hexNumber_lower (value : Nat) (digit : UInt8) (member : digit ∈ hexNumber value) :
    isLowerHex digit = true := by
  induction value using Nat.strongRecOn with
  | ind value ih =>
    rw [hexNumber_eq] at member
    split at member
    · rename_i small
      rw [List.mem_singleton] at member
      exact member ▸ hexDigit_lower value small
    · rcases List.mem_append.mp member with front | last
      · exact ih (value / 16) (by omega) front
      · rw [List.mem_singleton] at last
        exact last ▸ hexDigit_lower _ (by omega)

/-- Reading a rendering gives the number back. -/
theorem hexValue_hexNumber (value : Nat) : hexValue (hexNumber value) = value := by
  induction value using Nat.strongRecOn with
  | ind value ih =>
    rw [hexNumber_eq]
    split
    · rename_i small
      simp [hexValue, nibble_hexDigit value small]
    · have front := ih (value / 16) (by omega)
      unfold hexValue at front
      rw [hexValue, List.foldl_append, front, List.foldl_cons, List.foldl_nil,
        nibble_hexDigit _ (by omega)]
      omega

/-- A number below a power of sixteen has no more digits than its exponent. -/
theorem hexNumber_length_le (value width : Nat) (wide : 0 < width) (bound : value < 16 ^ width) :
    (hexNumber value).length ≤ width := by
  simpa [hexNumber] using (Nat.length_toDigits_le_iff (by decide) wide).mpr bound

theorem nibble_lt (digit : UInt8) (hex : isHex digit = true) : nibble digit < 16 := by
  simp only [isHex, isLowerHex, isDigit, Bool.or_eq_true, decide_eq_true_eq] at hex
  simp only [nibble]
  split <;> (try split) <;> omega

theorem hexValue_lt (digits : Bytes) (hex : ∀ digit ∈ digits, isHex digit = true) :
    hexValue digits < 16 ^ digits.length := by
  induction digits using List.reverseRecOn with
  | nil => decide
  | append_singleton front digit ih =>
    have small := ih (fun other member => hex other (by simp [member]))
    have last := nibble_lt digit (hex digit (by simp))
    have read : hexValue (front ++ [digit]) = 16 * hexValue front + nibble digit := by
      simp [hexValue]
    rw [read, List.length_append, List.length_singleton, Nat.pow_succ]
    omega

theorem not_isSpace_of_isHex (octet : UInt8) (hex : isHex octet = true) : isSpace octet = false := by
  simp only [isHex, isLowerHex, isDigit, Bool.or_eq_true, decide_eq_true_eq] at hex
  have other : octet ≠ 32 := by
    rintro rfl
    exact absurd hex (by decide)
  simp only [isSpace, Bool.or_eq_false_iff, beq_eq_false_iff_ne, ne_eq, other, not_false_eq_true,
    decide_eq_false_iff_not, true_and]
  omega

/-- A text of hexadecimal digits has no radix mark. -/
theorem dropRadix_hex (text : Bytes) (hex : ∀ digit ∈ text, isHex digit = true) :
    dropRadix text = text := by
  unfold dropRadix
  split
  · rename_i zero mark digit rest
    rw [if_neg]
    rintro ⟨_, marked, _⟩
    have digitMark := hex mark (by simp)
    rcases marked with rfl | rfl
    · exact absurd digitMark (by decide)
    · exact absurd digitMark (by decide)
  · rfl

/-- A text of hexadecimal digits is read as the value of its digits. -/
theorem stoullHex_digits (text : Bytes) (nonempty : text ≠ [])
    (hex : ∀ digit ∈ text, isHex digit = true) :
    stoullHex text = if 2 ^ 64 ≤ hexValue text then none else some (UInt64.ofNat (hexValue text)) := by
  have unmarked := dropRadix_hex text hex
  have whole : text.takeWhile isHex = text := List.takeWhile_eq_self_iff.mpr hex
  obtain ⟨first, rest, rfl⟩ := List.exists_cons_of_ne_nil nonempty
  have front := hex first (by simp)
  have trimmed : (first :: rest).dropWhile isSpace = first :: rest := by
    simp [List.dropWhile, not_isSpace_of_isHex first front]
  have unsigned : ∀ sign, isHex sign = false → (some first == some sign) = false := by
    intro sign other
    rw [beq_eq_false_iff_ne]
    rintro same
    rw [Option.some.inj same, other] at front
    exact Bool.noConfusion front
  have plus := unsigned (byte '+') (by decide)
  have minus := unsigned (byte '-') (by decide)
  simp only [stoullHex, trimmed, List.head?_cons, plus, minus, Bool.or_self, Bool.false_eq_true,
    ↓reduceIte, unmarked, whole, List.isEmpty_cons]

/-- A text of at most sixteen hexadecimal digits is a 64-bit number. -/
theorem stoullHex_short (text : Bytes) (nonempty : text ≠ []) (short : text.length ≤ 16)
    (hex : ∀ digit ∈ text, isHex digit = true) :
    stoullHex text = some (UInt64.ofNat (hexValue text)) := by
  have bound := hexValue_lt text hex
  have wide : 16 ^ text.length ≤ 16 ^ 16 := Nat.pow_le_pow_right (by decide) short
  rw [stoullHex_digits text nonempty hex, if_neg (by omega)]

/-- A rendered number is read back. -/
theorem stoullHex_hexNumber (value : UInt64) : stoullHex (hexNumber value.toNat) = some value := by
  have bound := value.toNat_lt
  have short := hexNumber_length_le value.toNat 16 (by decide) (by omega)
  rw [stoullHex_short _ (hexNumber_ne_nil _) short (fun digit member =>
    isHex_of_isLowerHex digit (hexNumber_lower _ digit member)), hexValue_hexNumber,
    UInt64.ofNat_toNat]

end HexNumbers
