import Mathlib.Tactic.Linarith
import Mathlib.Tactic.Ring

/-!
# Constant-product pools, on natural numbers

A pool has two reserves and a supply of shares. An input buys what the product of the
reserves leaves, rounded down; of the input only a part may count, the rest is a fee. New
shares and payouts are in proportion to the reserves, rounded down as well. Every rounding is
in favour of the pool: the product of the reserves does not fall by a trade, an input in two
parts buys no more than in one, and no payment for shares or with shares makes the other
shares worth less.
-/

namespace ConstantProduct

/-! ### Trades -/

/-- What an input buys when `multiplier` of every `scale` of it count. -/
def bought (scale multiplier input reserveIn reserveOut : Nat) : Nat :=
  input * multiplier * reserveOut / (reserveIn * scale + input * multiplier)

theorem bought_le (scale multiplier input reserveIn reserveOut : Nat) :
    bought scale multiplier input reserveIn reserveOut ≤ reserveOut := by
  unfold bought
  apply Nat.div_le_of_le_mul
  exact Nat.mul_le_mul_right _ (Nat.le_add_left _ _)

/-- The product of the reserves does not fall. -/
theorem product_le (scale multiplier input reserveIn reserveOut : Nat) (positive : 0 < scale)
    (charged : multiplier ≤ scale) :
    reserveIn * reserveOut ≤
      (reserveIn + input) * (reserveOut - bought scale multiplier input reserveIn reserveOut) := by
  have below := bought_le scale multiplier input reserveIn reserveOut
  have rounded : bought scale multiplier input reserveIn reserveOut *
      (reserveIn * scale + input * multiplier) ≤ input * multiplier * reserveOut :=
    Nat.div_mul_le_self _ _
  obtain ⟨left, isLeft⟩ := Nat.exists_eq_add_of_le below
  set out := bought scale multiplier input reserveIn reserveOut
  have remains : reserveOut - out = left := by omega
  have wider : reserveIn * scale + input * multiplier ≤ (reserveIn + input) * scale := by
    rw [Nat.add_mul]
    exact Nat.add_le_add_left (Nat.mul_le_mul_left _ charged) _
  have kept : reserveIn * scale * reserveOut ≤ left * (reserveIn * scale + input * multiplier) := by
    rw [isLeft] at rounded ⊢
    nlinarith only [rounded]
  rw [remains]
  apply Nat.le_of_mul_le_mul_right _ positive
  calc reserveIn * reserveOut * scale = reserveIn * scale * reserveOut := by ring
    _ ≤ left * (reserveIn * scale + input * multiplier) := kept
    _ ≤ left * ((reserveIn + input) * scale) := Nat.mul_le_mul_left _ wider
    _ = (reserveIn + input) * left * scale := by ring

/-- Without a fee an amount is bought exactly when the product of the reserves allows it. -/
theorem le_bought_iff (scale input reserveIn reserveOut out : Nat) (positive : 0 < scale)
    (filled : 0 < reserveIn) :
    out ≤ bought scale scale input reserveIn reserveOut ↔
      out * (reserveIn + input) ≤ input * reserveOut := by
  have base := Nat.mul_pos filled positive
  have factored : out * (reserveIn * scale + input * scale) = out * (reserveIn + input) * scale := by
    ring
  unfold bought
  rw [Nat.le_div_iff_mul_le (by omega), factored, Nat.mul_right_comm input]
  exact Nat.mul_le_mul_right_iff positive

/-- Without a fee an input in two parts buys no more than the whole. -/
theorem split_le (scale first second reserveIn reserveOut : Nat) (positive : 0 < scale)
    (filled : 0 < reserveIn) :
    bought scale scale first reserveIn reserveOut +
        bought scale scale second (reserveIn + first)
          (reserveOut - bought scale scale first reserveIn reserveOut) ≤
      bought scale scale (first + second) reserveIn reserveOut := by
  have before := product_le scale scale first reserveIn reserveOut positive (Nat.le_refl _)
  have below := bought_le scale scale first reserveIn reserveOut
  set firstOut := bought scale scale first reserveIn reserveOut
  have after := product_le scale scale second (reserveIn + first) (reserveOut - firstOut) positive
    (Nat.le_refl _)
  have within := bought_le scale scale second (reserveIn + first) (reserveOut - firstOut)
  set secondOut := bought scale scale second (reserveIn + first) (reserveOut - firstOut)
  obtain ⟨left, isLeft⟩ := Nat.exists_eq_add_of_le (show firstOut + secondOut ≤ reserveOut by omega)
  have remains : reserveOut - firstOut - secondOut = left := by omega
  rw [remains] at after
  rw [le_bought_iff _ _ _ _ _ positive filled]
  have whole := before.trans after
  rw [isLeft] at whole ⊢
  nlinarith only [whole]

/-! ### Shares -/

/-- What a part of a whole is worth of an amount, rounded down. -/
def share (amount part whole : Nat) : Nat := amount * part / whole

theorem share_whole (amount whole : Nat) (positive : 0 < whole) : share amount whole whole = amount :=
  Nat.mul_div_cancel _ positive

/-- In the ratio of the reserves both amounts give the same shares. -/
theorem share_ratio (add0 add1 reserve0 reserve1 supply : Nat) (filled0 : 0 < reserve0)
    (filled1 : 0 < reserve1) (ratio : add0 * reserve1 = add1 * reserve0) :
    share add0 supply reserve0 = share add1 supply reserve1 := by
  unfold share
  rw [← Nat.mul_div_mul_right _ _ filled1, ← Nat.mul_div_mul_right (add1 * supply) _ filled0]
  congr 1
  · calc add0 * supply * reserve1 = add0 * reserve1 * supply := by ring
      _ = add1 * reserve0 * supply := by rw [ratio]
      _ = add1 * supply * reserve0 := by ring
  · exact Nat.mul_comm _ _

/-- Shares that an amount paid for are worth no more than the amount. -/
theorem share_returned (add reserve minted supply : Nat) (filled : 0 < reserve)
    (paid : minted ≤ share add supply reserve) :
    share (reserve + add) minted (supply + minted) ≤ add := by
  have rounded : minted * reserve ≤ add * supply := (Nat.le_div_iff_mul_le filled).mp paid
  apply Nat.div_le_of_le_mul
  nlinarith only [rounded]

/-- New shares that were paid for make no other shares worth less. -/
theorem share_added (add reserve minted supply part : Nat) (filled : 0 < reserve) (shared : 0 < supply)
    (paid : minted ≤ share add supply reserve) :
    share reserve part supply ≤ share (reserve + add) part (supply + minted) := by
  have rounded : minted * reserve ≤ add * supply := (Nat.le_div_iff_mul_le filled).mp paid
  have worth : share reserve part supply * supply ≤ reserve * part := Nat.div_mul_le_self _ _
  unfold share at worth ⊢
  set amount := reserve * part / supply
  rw [Nat.le_div_iff_mul_le (by omega)]
  apply Nat.le_of_mul_le_mul_right _ shared
  calc amount * (supply + minted) * supply = amount * supply * (supply + minted) := by ring
    _ ≤ reserve * part * (supply + minted) := Nat.mul_le_mul_right _ worth
    _ = part * (reserve * supply + minted * reserve) := by ring
    _ ≤ part * (reserve * supply + add * supply) :=
      Nat.mul_le_mul_left _ (Nat.add_le_add_left rounded _)
    _ = (reserve + add) * part * supply := by ring

/-- A payout in proportion makes no other shares worth less. -/
theorem share_removed (reserve taken burned supply part : Nat) (remain : burned < supply)
    (paid : taken ≤ share reserve burned supply) :
    share reserve part supply ≤ share (reserve - taken) part (supply - burned) := by
  have shared : 0 < supply := by omega
  have rounded : taken * supply ≤ reserve * burned := (Nat.le_div_iff_mul_le shared).mp paid
  have worth : share reserve part supply * supply ≤ reserve * part := Nat.div_mul_le_self _ _
  have most : taken ≤ reserve := by
    apply Nat.le_of_mul_le_mul_right _ shared
    exact rounded.trans (Nat.mul_le_mul_left _ (by omega))
  obtain ⟨left, isLeft⟩ := Nat.exists_eq_add_of_le most
  obtain ⟨rest, isRest⟩ := Nat.exists_eq_add_of_le (show burned ≤ supply by omega)
  have remains : reserve - taken = left := by omega
  have others : supply - burned = rest := by omega
  have kept : reserve * rest ≤ left * supply := by
    rw [isLeft, isRest] at rounded ⊢
    nlinarith only [rounded]
  unfold share at worth ⊢
  set amount := reserve * part / supply
  rw [remains, others, Nat.le_div_iff_mul_le (by omega)]
  apply Nat.le_of_mul_le_mul_right _ shared
  calc amount * rest * supply = amount * supply * rest := by ring
    _ ≤ reserve * part * rest := Nat.mul_le_mul_right _ worth
    _ = part * (reserve * rest) := by ring
    _ ≤ part * (left * supply) := Nat.mul_le_mul_left _ kept
    _ = left * part * supply := by ring

/-! ### Products that leave the word -/

/-- A quotient of a product taken modulo a bound above the divisor is the exact one exactly
when the product is below the bound. -/
theorem div_mod_eq_iff (product divisor bound : Nat) (positive : 0 < divisor) (narrow : divisor ≤ bound) :
    product % bound / divisor = product / divisor ↔ product < bound := by
  constructor
  · intro same
    by_contra wide
    have least : product % bound + bound ≤ product := by
      have parts := Nat.mod_add_div product bound
      have quotient : 1 ≤ product / bound := (Nat.one_le_div_iff (by omega)).mpr (Nat.not_lt.mp wide)
      nlinarith only [parts, quotient, Nat.mul_le_mul_left bound quotient]
    have more : product % bound / divisor + 1 ≤ product / divisor := by
      rw [Nat.le_div_iff_mul_le positive, Nat.add_mul, Nat.one_mul]
      have rounded := Nat.div_mul_le_self (product % bound) divisor
      omega
    omega
  · intro fits
    rw [Nat.mod_eq_of_lt fits]

theorem div_mod_le (product divisor bound : Nat) : product % bound / divisor ≤ product / divisor :=
  Nat.div_le_div_right (Nat.mod_le _ _)

end ConstantProduct
