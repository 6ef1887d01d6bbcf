import Mathlib.Data.Nat.Sqrt
import Mathlib.Tactic.Linarith
import Mathlib.Tactic.Ring

/-!
# Newton's iteration for square roots, on natural numbers

From above the root every step descends and none falls below the root. The root itself is a
fixed point exactly when the successor of the number is no square; otherwise the step from
the root goes up again, and there is no fixed point at all.
-/

namespace NewtonRoots

/-- The mean of a number and its quotient. -/
def newton (x r : Nat) : Nat := (r + x / r) / 2

theorem sqrt_le_newton (x r : Nat) (positive : 0 < r) : Nat.sqrt x ≤ newton x r := by
  have below := Nat.sqrt_le x
  have next := Nat.lt_mul_div_succ x positive
  have mean := Nat.lt_mul_div_succ (r + x / r) (Nat.succ_pos 1)
  unfold newton
  by_contra less
  have small : r + (x / r + 1) ≤ 2 * Nat.sqrt x := by omega
  have squared := Nat.mul_self_le_mul_self small
  have means := four_mul_le_sq_add r (x / r + 1)
  nlinarith only [squared, means, next, below]

theorem newton_lt (x r : Nat) (above : Nat.sqrt x < r) : newton x r < r := by
  have large := Nat.sqrt_lt.mp above
  have less : x / r < r := (Nat.div_lt_iff_lt_mul (Nat.zero_lt_of_lt above)).mpr large
  unfold newton
  omega

/-- A fixed point is the root, and the number is not the last one with this root. -/
theorem newton_fixed (x r : Nat) (positive : 0 < r) (fixed : newton x r = r) :
    r = Nat.sqrt x ∧ x + 1 < (r + 1) * (r + 1) := by
  unfold newton at fixed
  have low := Nat.div_mul_le_self x r
  have high := Nat.lt_mul_div_succ x positive
  obtain same | same : x / r = r ∨ x / r = r + 1 := by omega
  · rw [same] at low high
    have bound : x + 1 < (r + 1) * (r + 1) := by nlinarith
    exact ⟨Nat.eq_sqrt.mpr ⟨low, by omega⟩, bound⟩
  · rw [same] at low high
    have bound : x + 1 < (r + 1) * (r + 1) := by nlinarith
    exact ⟨Nat.eq_sqrt.mpr ⟨by nlinarith, by omega⟩, bound⟩

/-- The root is a fixed point when the successor of the number is no square. -/
theorem newton_sqrt (x : Nat) (positive : 0 < x) (free : x + 1 ≠ (Nat.sqrt x + 1) * (Nat.sqrt x + 1)) :
    newton x (Nat.sqrt x) = Nat.sqrt x := by
  have low := Nat.sqrt_le x
  have high := Nat.lt_succ_sqrt x
  have root : 0 < Nat.sqrt x := Nat.sqrt_pos.mpr positive
  have first : Nat.sqrt x ≤ x / Nat.sqrt x := (Nat.le_div_iff_mul_le root).mpr low
  have second : x / Nat.sqrt x < Nat.sqrt x + 2 := by
    rw [Nat.div_lt_iff_lt_mul root]
    have square : (Nat.sqrt x + 1) * (Nat.sqrt x + 1) = (Nat.sqrt x + 2) * Nat.sqrt x + 1 := by ring
    rw [square] at free
    have below : x < (Nat.sqrt x + 2) * Nat.sqrt x + 1 := square ▸ high
    omega
  unfold newton
  omega

/-- A number is the last one with its root exactly when its successor is a square. -/
theorem succ_square_iff (x : Nat) :
    (∃ s, x + 1 = s * s) ↔ x + 1 = (Nat.sqrt x + 1) * (Nat.sqrt x + 1) := by
  constructor
  · rintro ⟨s, square⟩
    have positive : 0 < s := by
      by_contra zero
      have isZero : s = 0 := by omega
      rw [isZero] at square
      omega
    obtain ⟨r, rfl⟩ : ∃ r, s = r + 1 := ⟨s - 1, by omega⟩
    have root : r = Nat.sqrt x := Nat.eq_sqrt.mpr ⟨by nlinarith, by omega⟩
    rw [← root, square]
  · exact fun square => ⟨_, square⟩

/-- A mean of a divisor and its quotient stays below the number. -/
theorem add_div_le (x r : Nat) (positive : 0 < r) (within : r ≤ x) : r + x / r ≤ x + 1 := by
  have low := Nat.div_mul_le_self x r
  have quotient : 0 < x / r := Nat.div_pos within positive
  obtain ⟨p, isP⟩ : ∃ p, r = p + 1 := ⟨r - 1, by omega⟩
  obtain ⟨q, isQ⟩ : ∃ q, x / r = q + 1 := ⟨x / r - 1, by omega⟩
  rw [isQ] at low ⊢
  rw [isP] at low ⊢
  nlinarith [Nat.zero_le (p * q)]

end NewtonRoots
