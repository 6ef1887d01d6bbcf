import Addition.Foundations.ByteStrings
import Mathlib.Data.List.Induction

/-!
# Plain decimal texts

A text of digits without a leading zero is the rendering of the number it reads as, so that
renderings and plain texts are the same. A text of so many digits is below the power of ten.
-/

namespace ByteStrings

/-- Digits without a leading zero, unless the text is one digit. -/
structure PlainNumber (text : Bytes) : Prop where
  some : text ≠ []
  digits : ∀ octet ∈ text, isDigit octet = true
  plain : text.length ≤ 1 ∨ text.head? ≠ Option.some (byte '0')

/-- The digit of a number below ten, as an octet. -/
theorem digit_octet (octet : UInt8) (digit : isDigit octet = true) :
    byte (Nat.digitChar (octet.toNat - 48)) = octet := by
  rw [isDigit, decide_eq_true_eq] at digit
  have small : octet.toNat - 48 < 10 := by omega
  apply UInt8.toNat_inj.mp
  rw [byte_toNat _ (by rw [Nat.isDigit_digitChar]; exact decide_eq_true small)]
  generalize isValue : octet.toNat - 48 = value at small
  have back : octet.toNat = value + 48 := by omega
  rw [back]
  interval_cases value <;> rfl

theorem decimal_small (value : Nat) (small : value < 10) : decimal value = [byte (Nat.digitChar value)] := by
  rw [decimal, Nat.toDigits_eq_if (by decide), if_pos small]
  rfl

theorem decimal_more (value : Nat) (large : 10 ≤ value) :
    decimal value = decimal (value / 10) ++ [byte (Nat.digitChar (value % 10))] := by
  rw [decimal, Nat.toDigits_eq_if (by decide), if_neg (by omega), List.map_append]
  rfl

theorem decimalValue_concat (digits : Bytes) (last : UInt8) :
    decimalValue (digits ++ [last]) = 10 * decimalValue digits + (last.toNat - 48) := by
  rw [decimalValue, List.foldl_append]
  rfl

/-- A plain text is the rendering of its number. -/
theorem decimal_decimalValue (digits : Bytes) (plain : PlainNumber digits) :
    decimal (decimalValue digits) = digits := by
  induction digits using List.reverseRecOn with
  | nil => exact absurd rfl plain.some
  | append_singleton front last ih =>
    have digit := plain.digits last (by simp)
    have octet := digit_octet last digit
    rw [isDigit, decide_eq_true_eq] at digit
    rw [decimalValue_concat]
    by_cases first : front = []
    · rw [first]
      have none : decimalValue [] = 0 := rfl
      rw [none, Nat.mul_zero, Nat.zero_add, decimal_small _ (by omega), octet]
      rfl
    · have long : 2 ≤ (front ++ [last]).length := by
        have positive := List.length_pos_of_ne_nil first
        rw [List.length_append, List.length_singleton]
        omega
      have start : front.head? ≠ some (byte '0') := by
        have whole := plain.plain.resolve_left (by omega)
        rwa [List.head?_append_of_ne_nil _ first] at whole
      have before := ih ⟨first, fun other member => plain.digits other (by simp [member]),
        .inr start⟩
      have positive : 0 < decimalValue front := by
        rw [Nat.pos_iff_ne_zero]
        intro zero
        rw [zero] at before
        exact start (before ▸ rfl)
      rw [decimal_more _ (by omega), show (10 * decimalValue front + (last.toNat - 48)) / 10 =
          decimalValue front by omega, show (10 * decimalValue front + (last.toNat - 48)) % 10 =
          last.toNat - 48 by omega, before, octet]

theorem decimalValue_lt (digits : Bytes) (plain : PlainNumber digits) (bound : Nat) (positive : 0 < bound)
    (short : digits.length ≤ bound) : decimalValue digits < 10 ^ bound := by
  have rendered := decimal_decimalValue digits plain
  have length := congrArg List.length rendered
  rw [decimal, List.length_map] at length
  exact (Nat.length_toDigits_le_iff (by decide) positive).mp (by omega)

end ByteStrings
