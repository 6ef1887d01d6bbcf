import Mathlib.Algebra.BigOperators.Group.Finset.Basic
import Mathlib.Algebra.Order.BigOperators.Group.Finset
import Mathlib.Tactic.Ring

/-!
# Sums of rates up to a cap

Steps pay rates one after the other and the last ones are clipped so that the sum never exceeds
a cap. The capped sum is the smaller of the cap and the sum without one; while the rate is
constant the sum grows by a product, and the step that reaches the cap is a rounded quotient.
-/

namespace CappedSums

open Finset

variable (cap : Nat) (rate : Nat → Nat)

/-- The rates of the first steps, counted from one. -/
def paid (steps : Nat) : Nat := ∑ step ∈ range steps, rate (step + 1)

/-- What is paid when no step may exceed the cap. -/
def capped : Nat → Nat
  | 0 => 0
  | steps + 1 => capped steps + min (rate (steps + 1)) (cap - capped steps)

theorem paid_succ (steps : Nat) : paid rate (steps + 1) = paid rate steps + rate (steps + 1) :=
  sum_range_succ ..

theorem capped_eq (steps : Nat) : capped cap rate steps = min cap (paid rate steps) := by
  induction steps with
  | zero => exact (Nat.min_zero cap).symm
  | succ steps ih =>
    rw [capped, paid_succ, ih]
    omega

theorem paid_mono {steps more : Nat} (atMost : steps ≤ more) : paid rate steps ≤ paid rate more :=
  sum_le_sum_of_subset (range_mono atMost)

/-- A constant rate pays a product. -/
theorem paid_run (start count amount : Nat) (constant : ∀ i, i < count → rate (start + i + 1) = amount) :
    paid rate (start + count) = paid rate start + count * amount := by
  induction count with
  | zero => simp
  | succ count ih =>
    rw [← Nat.add_assoc, paid_succ, ih (fun i small => constant i (by omega)),
      constant count (by omega)]
    ring

/-- The steps of a constant rate that reach the cap: the rest of it, divided and rounded up. -/
theorem cap_reached (start count amount : Nat)
    (constant : ∀ i, i < count → rate (start + i + 1) = amount) (positive : 0 < amount)
    (before : ∀ step, step < start → paid rate step < cap) (within : paid rate start ≤ cap)
    (enough : cap ≤ paid rate start + count * amount) :
    (cap - paid rate start + amount - 1) / amount ≤ count ∧
      cap ≤ paid rate (start + (cap - paid rate start + amount - 1) / amount) ∧
      ∀ step, step < start + (cap - paid rate start + amount - 1) / amount → paid rate step < cap := by
  generalize isNeed : cap - paid rate start = need
  generalize isSteps : (need + amount - 1) / amount = steps
  have atMost : steps * amount ≤ need + amount - 1 := isSteps ▸ Nat.div_mul_le_self _ _
  have above : need + amount - 1 < (steps + 1) * amount := by
    rw [← isSteps, ← Nat.div_lt_iff_lt_mul positive]
    exact Nat.lt_succ_self _
  have short : steps ≤ count := by
    by_contra long
    have more := Nat.mul_le_mul_right amount (Nat.lt_of_not_le long)
    rw [Nat.succ_mul] at more
    omega
  rw [Nat.succ_mul] at above
  refine ⟨short, ?_, fun step early => ?_⟩
  · rw [paid_run rate start steps amount (fun i small => constant i (by omega))]
    omega
  · by_cases inside : step < start
    · exact before step inside
    · obtain ⟨i, rfl⟩ := Nat.exists_eq_add_of_le (Nat.le_of_not_lt inside)
      have less := Nat.mul_le_mul_right amount (show i + 1 ≤ steps by omega)
      rw [Nat.succ_mul] at less
      rw [paid_run rate start i amount (fun j small => constant j (by omega))]
      omega

end CappedSums
