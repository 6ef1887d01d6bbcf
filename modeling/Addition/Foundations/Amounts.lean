import Addition.Foundations.Checked
import Addition.Foundations.FiniteTables

/-!
# Amounts in unsigned words

A table from owners to 64-bit words, where an absent owner has nothing. The total is the
exact sum. A checked addition and a covered subtraction change the total by what they say,
and tables with the same amount for every owner have the same total.
-/

namespace Amounts

open Checked FiniteTables

variable {κ : Type} [DecidableEq κ]

/-- What `map[owner]` reads. -/
def amountAt (amounts : Table κ UInt64) (owner : κ) : UInt64 := (amounts.lookup owner).getD 0

/-- The exact sum of the amounts. -/
def total (amounts : Table κ UInt64) : Nat :=
  measure (fun _ (amount : UInt64) => amount.toNat) amounts

theorem weightAt_amount (amounts : Table κ UInt64) (owner : κ) :
    weightAt (fun _ (amount : UInt64) => amount.toNat) amounts owner =
      (amountAt amounts owner).toNat := by
  unfold weightAt amountAt
  cases amounts.lookup owner with
  | none => rfl
  | some amount => rfl

theorem amountAt_insert (amounts : Table κ UInt64) (owner tested : κ) (amount : UInt64) :
    amountAt (amounts.insert owner amount) tested =
      if tested = owner then amount else amountAt amounts tested := by
  unfold amountAt
  rw [lookup_insert]
  by_cases same : tested = owner
  · rw [if_pos same, if_pos same]
    rfl
  · rw [if_neg same, if_neg same]

/-- Setting an amount exchanges it in the total. -/
theorem total_insert (amounts : Table κ UInt64) (owner : κ) (amount : UInt64) :
    total (amounts.insert owner amount) + (amountAt amounts owner).toNat =
      total amounts + amount.toNat := by
  have exchanged := measure_insert (fun _ (amount : UInt64) => amount.toNat) amounts owner amount
  rwa [weightAt_amount] at exchanged

theorem amount_le_total (amounts : Table κ UInt64) (owner : κ) :
    (amountAt amounts owner).toNat ≤ total amounts := by
  have erased := measure_erase (fun _ (amount : UInt64) => amount.toNat) amounts owner
  rw [weightAt_amount] at erased
  unfold total
  omega

/-- The total depends on the amounts only. -/
theorem total_congr (amounts amounts' : Table κ UInt64)
    (same : ∀ owner, amountAt amounts owner = amountAt amounts' owner) :
    total amounts = total amounts' := by
  apply measure_congr
  intro owner
  rw [weightAt_amount, weightAt_amount, same]

/-- An amount looked up for writing leaves the total. -/
theorem total_touched (amounts : Table κ UInt64) (owner : κ) :
    total (amounts.insert owner (amountAt amounts owner)) = total amounts := by
  have exchanged := total_insert amounts owner (amountAt amounts owner)
  omega

theorem total_credited (amounts : Table κ UInt64) (owner : κ) (amount : UInt64)
    (room : ¬ overflows (amountAt amounts owner) amount = true) :
    total (amounts.insert owner (amountAt amounts owner + amount)) =
      total amounts + amount.toNat := by
  have exchanged := total_insert amounts owner (amountAt amounts owner + amount)
  rw [toNat_add_of_not_overflows _ _ room] at exchanged
  omega

theorem total_debited (amounts : Table κ UInt64) (owner : κ) (amount : UInt64)
    (enough : amount ≤ amountAt amounts owner) :
    total (amounts.insert owner (amountAt amounts owner - amount)) + amount.toNat =
      total amounts := by
  have exchanged := total_insert amounts owner (amountAt amounts owner - amount)
  have less := UInt64.le_iff_toNat_le.mp enough
  rw [UInt64.toNat_sub_of_le _ _ enough] at exchanged
  omega

end Amounts
