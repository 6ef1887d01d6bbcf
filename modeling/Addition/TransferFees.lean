import Addition.Foundations.ConstantProduct
import Addition.TokenStates

/-!
# The fees of a transfer

The two fees are exact exactly when the products of the amount with the two rates fit into a
word, and then the recipient gets at least four fifths. The rates may wrap when they are added
up, but a transfer that goes through with products that fit has rates that do not. A transfer
that is refused leaves every amount, for the refusal that takes nothing back needs a fee above
the supply, and the supply covers every balance.
-/

namespace Addition

namespace Tokens

open ByteStrings Checked FiniteTables Amounts ConstantProduct

/-- What a transfer changes: two balances, the balance of the treasury, and the supply. -/
structure Charged (token left : Token) (sender recipient : Bytes) (amount transferFee burnFee : UInt64) :
    Prop where
  parts : (amount - transferFee - burnFee).toNat + transferFee.toNat + burnFee.toNat = amount.toNat
  balances : ∀ user, ((left.balance user).toNat : Int) = (token.balance user).toNat -
    (if user = sender then (amount.toNat : Int) else 0) +
    (if user = recipient then ((amount - transferFee - burnFee).toNat : Int) else 0) +
    if token.treasuryWallet ≠ [] ∧ user = token.treasuryWallet then (transferFee.toNat : Int) else 0
  supply : left.totalSupply.toNat + burnFee.toNat = token.totalSupply.toNat

theorem Transferred.charged {token : Token} {sender recipient : Bytes}
    {amount transferFee burnFee : UInt64}
    (transferred : Transferred token sender recipient amount transferFee burnFee) :
    Charged token (token.settled sender recipient amount transferFee burnFee) sender recipient amount
      transferFee burnFee := by
  refine ⟨transferFees_split token sender recipient amount transferFee burnFee transferred.fees,
    fun user => ?_, transferred.supply.1⟩
  have less := debited token sender user amount transferred.rich
  have more := credited (token.debit sender amount) recipient user _ transferred.room
  by_cases pays : 0 < transferFee ∧ token.treasuryWallet ≠ []
  · have paid := credited _ token.treasuryWallet user transferFee (transferred.roomTreasury pays)
    rw [settled_pays _ _ _ _ _ _ pays]
    change ((Token.balance (((token.debit sender amount).credit recipient
      (amount - transferFee - burnFee)).credit token.treasuryWallet transferFee) user).toNat : Int) = _
    rw [paid, more, less]
    simp only [ne_eq, pays.2, not_false_eq_true, true_and]
  · rw [settled_keeps _ _ _ _ _ _ pays]
    change ((Token.balance ((token.debit sender amount).credit recipient
      (amount - transferFee - burnFee)) user).toNat : Int) = _
    have nothing : (if token.treasuryWallet ≠ [] ∧ user = token.treasuryWallet then
        (transferFee.toNat : Int) else 0) = 0 := by
      split
      · rename_i named
        have free : ¬ 0 < transferFee := fun positive => pays ⟨positive, named.1⟩
        rw [UInt64.not_lt, UInt64.le_iff_toNat_le] at free
        have zero : (0 : UInt64).toNat = 0 := rfl
        omega
      · rfl
    rw [more, less, nothing]
    omega

/-- Fees as they are on paper, and at least four fifths for the recipient. -/
structure FeesExact (token : Token) (amount transferFee burnFee : UInt64) : Prop where
  transfers : transferFee.toNat = amount.toNat * token.transferFeeBps.toNat / 10000
  burns : burnFee.toNat = amount.toNat * token.burnFeeBps.toNat / 10000
  received : 80 * amount.toNat ≤ 100 * (amount - transferFee - burnFee).toNat

/-- The products with the rates fit. -/
def FeesFit (token : Token) (amount : UInt64) : Prop :=
  amount.toNat * token.transferFeeBps.toNat < 2 ^ 64 ∧ amount.toNat * token.burnFeeBps.toNat < 2 ^ 64

theorem feeOf_toNat (amount bps : UInt64) :
    (feeOf false amount bps).toNat = amount.toNat * bps.toNat % 2 ^ 64 / 10000 := by
  unfold feeOf
  rw [if_neg Bool.false_ne_true, UInt64.toNat_div, UInt64.toNat_mul]
  rfl

theorem feeOf_exact_iff (amount bps : UInt64) :
    (feeOf false amount bps).toNat = amount.toNat * bps.toNat / 10000 ↔
      amount.toNat * bps.toNat < 2 ^ 64 := by
  rw [feeOf_toNat]
  exact div_mod_eq_iff _ 10000 (2 ^ 64) (by decide) (by decide)

/-- Fees that an amount covers have rates of which the sum does not wrap. -/
theorem rates_narrow (amount transferRate burnRate transferFee burnFee : Nat) (some : 0 < amount)
    (isTransferFee : transferFee = amount * transferRate / 10000)
    (isBurnFee : burnFee = amount * burnRate / 10000) (covered : transferFee + burnFee ≤ amount) :
    transferRate + burnRate < 30000 := by
  have first := Nat.lt_mul_div_succ (amount * transferRate) (show 0 < 10000 by decide)
  have second := Nat.lt_mul_div_succ (amount * burnRate) (show 0 < 10000 by decide)
  rw [← isTransferFee] at first
  rw [← isBurnFee] at second
  apply Nat.lt_of_mul_lt_mul_left (a := amount)
  rw [Nat.mul_add]
  omega

theorem fees_exact_of_fit (token : Token) (sender recipient : Bytes)
    (amount transferFee burnFee : UInt64)
    (fees : transferFees token sender recipient amount = .ok (transferFee, burnFee))
    (taxed : token.exempts sender recipient = false)
    (governed : token.transferFeeBps + token.burnFeeBps ≤ 2000) :
    FeesExact token amount transferFee burnFee ↔ FeesFit token amount := by
  have parts := transferFees_split token sender recipient amount transferFee burnFee fees
  simp only [transferFees, bind_ok, exists_unit, ensure_ok, pure_ok, Prod.mk.injEq, taxed] at fees
  obtain ⟨valid, -, -, -, -, isTransferFee, isBurnFee⟩ := fees
  have some : amount ≠ 0 := by
    simp only [Bool.and_eq_true, decide_eq_true_eq] at valid
    exact valid.2
  have transferIff := feeOf_exact_iff amount token.transferFeeBps
  have burnIff := feeOf_exact_iff amount token.burnFeeBps
  rw [isTransferFee] at transferIff
  rw [isBurnFee] at burnIff
  constructor
  · intro exact
    exact ⟨transferIff.mp exact.transfers, burnIff.mp exact.burns⟩
  · intro fit
    have isTransfer := transferIff.mpr fit.1
    have isBurn := burnIff.mpr fit.2
    have narrow := rates_narrow amount.toNat _ _ _ _ (positive_of_ne_zero some) isTransfer isBurn
      (by omega)
    have rates : token.transferFeeBps.toNat + token.burnFeeBps.toNat ≤ 2000 := by
      rw [UInt64.le_iff_toNat_le, UInt64.toNat_add, Nat.mod_eq_of_lt (by omega)] at governed
      exact governed
    refine ⟨isTransfer, isBurn, ?_⟩
    have first := Nat.mul_div_le (amount.toNat * token.transferFeeBps.toNat) 10000
    have second := Nat.mul_div_le (amount.toNat * token.burnFeeBps.toNat) 10000
    have most := Nat.mul_le_mul_left amount.toNat rates
    rw [← isTransfer] at first
    rw [← isBurn] at second
    rw [Nat.mul_add] at most
    omega

/-- In every reachable engine a transfer that goes through charges two fees, which are exact,
and leave the recipient four fifths, exactly when their products fit; a transfer that is refused
leaves every amount. -/
theorem fees_exact_iff (engine : TokenEngine) (reachable : Reachable engine)
    (symbol sender recipient : Bytes) (amount : UInt64) :
    (∀ left, transfer engine symbol sender recipient amount = (.ok (), left) →
      ∃ token after transferFee burnFee, engine.tokens.lookup symbol = some token ∧
        left = engine.setToken symbol after ∧
        transferFees token sender recipient amount = .ok (transferFee, burnFee) ∧
        Charged token after sender recipient amount transferFee burnFee ∧
        (token.exempts sender recipient = false →
          (FeesExact token amount transferFee burnFee ↔ FeesFit token amount))) ∧
    ∀ message left, transfer engine symbol sender recipient amount = (.error message, left) →
      Alike engine left := by
  have lawful := reachable.lawful
  unfold transfer onToken
  cases found : engine.tokens.lookup symbol with
  | none =>
    refine ⟨fun left called => absurd called (by simp), fun message left called => ?_⟩
    exact (Prod.mk.inj called).2 ▸ .refl engine
  | some token =>
    have current : engine.token symbol = token := by
      unfold TokenEngine.token
      rw [found]
      rfl
    dsimp only
    obtain ⟨refusal, left, called, alike⟩ | ⟨transferFee, burnFee, called, transferred⟩ :=
      transfer_cases token sender recipient amount (current ▸ lawful.backed symbol)
    · rw [called]
      refine ⟨fun _ went => absurd went (by simp), fun message final refused => ?_⟩
      rw [← (Prod.mk.inj refused).2]
      refine ⟨fun tested => ?_, fun tested listed => listed_setToken engine symbol tested _ listed, rfl⟩
      rw [token_setToken]
      split
      · rename_i same
        rw [same, current]
        exact alike
      · exact .refl _
    · rw [called]
      refine ⟨fun final went => ?_, fun message final refused => absurd refused (by simp)⟩
      refine ⟨token, _, transferFee, burnFee, rfl, (Prod.mk.inj went).2.symm, transferred.fees,
        transferred.charged, fun taxed => ?_⟩
      exact fees_exact_of_fit token sender recipient amount transferFee burnFee transferred.fees taxed
        (current ▸ lawful.governed symbol)

/-- A tenth of a transfer goes to the treasury and a tenth is burned. -/
def taxed (supply amount : UInt64) : List Operation :=
  [.createToken (ascii "A") (ascii "owner") supply supply,
    .setPolicy (ascii "A") (ascii "owner") (ascii "treasury") 1000 1000 false,
    .transfer (ascii "A") (ascii "owner") (ascii "user") amount]

set_option maxRecDepth 100000 in
/-- A hundred coins: ten for the treasury, ten burned, eighty received. -/
theorem hundred_taxed : ∃ engine left token after,
    performAll .initial ((taxed 1000 100).take 2) = some engine ∧
      transfer engine (ascii "A") (ascii "owner") (ascii "user") 100 = (.ok (), left) ∧
      engine.tokens.lookup (ascii "A") = some token ∧ FeesExact token 100 10 10 ∧
      Charged token after (ascii "owner") (ascii "user") 100 10 10 := by
  have reading : (performAll .initial ((taxed 1000 100).take 2)).bind (fun engine =>
      (engine.tokens.lookup (ascii "A")).bind (fun token =>
        (transferFees token (ascii "owner") (ascii "user") 100).toOption.map (fun fees =>
          (fees, token.transferFeeBps, token.burnFeeBps,
            token.exempts (ascii "owner") (ascii "user"),
            (transfer engine (ascii "A") (ascii "owner") (ascii "user") 100).1.isOk)))) =
      some ((10, 10), 1000, 1000, false, true) := by
    decide +kernel
  obtain ⟨engine, ran, rest⟩ := Option.bind_eq_some_iff.mp reading
  obtain ⟨token, found, rest⟩ := Option.bind_eq_some_iff.mp rest
  obtain ⟨fees, computed, values⟩ := Option.map_eq_some_iff.mp rest
  simp only [Prod.mk.injEq] at values
  obtain ⟨isFees, transferRate, burnRate, taxes, goes⟩ := values
  obtain ⟨left, went⟩ : ∃ left,
      transfer engine (ascii "A") (ascii "owner") (ascii "user") 100 = (.ok (), left) :=
    ⟨_, accepted_of_isOk goes⟩
  obtain ⟨other, after, transferFee, burnFee, looked, -, charged, changes, exact⟩ :=
    (fees_exact_iff engine ⟨_, ran⟩ _ _ _ _).1 left went
  cases Option.some.inj (looked.symm.trans found)
  have same := Except.ok.inj (charged.symm.trans (toOption_ok computed))
  rw [isFees, Prod.mk.injEq] at same
  obtain ⟨rfl, rfl⟩ := same
  refine ⟨engine, left, token, after, ran, went, found, (exact taxes).mpr ⟨?_, ?_⟩, changes⟩
  · rw [transferRate]
    decide
  · rw [burnRate]
    decide

/-- An amount of which the product with a rate of one thousand wraps to zero. -/
def wideAmount : UInt64 := 2305843009213693952

set_option maxRecDepth 100000 in
/-- The product wraps to zero: nothing goes to the treasury and nothing is burned. -/
theorem wide_untaxed : ∃ engine left token,
    performAll .initial ((taxed wideAmount wideAmount).take 2) = some engine ∧
      transfer engine (ascii "A") (ascii "owner") (ascii "user") wideAmount = (.ok (), left) ∧
      engine.tokens.lookup (ascii "A") = some token ∧
      token.exempts (ascii "owner") (ascii "user") = false ∧
      transferFees token (ascii "owner") (ascii "user") wideAmount = .ok (0, 0) ∧
      balanceOf left (ascii "A") (ascii "user") = wideAmount ∧
      ¬ FeesExact token wideAmount 0 0 := by
  have reading : (performAll .initial ((taxed wideAmount wideAmount).take 2)).bind (fun engine =>
      (engine.tokens.lookup (ascii "A")).bind (fun token =>
        (transferFees token (ascii "owner") (ascii "user") wideAmount).toOption.map (fun fees =>
          (fees, token.transferFeeBps, token.exempts (ascii "owner") (ascii "user"),
            (transfer engine (ascii "A") (ascii "owner") (ascii "user") wideAmount).1.isOk,
            balanceOf (transfer engine (ascii "A") (ascii "owner") (ascii "user") wideAmount).2
              (ascii "A") (ascii "user"))))) =
      some ((0, 0), 1000, false, true, wideAmount) := by
    decide +kernel
  obtain ⟨engine, ran, rest⟩ := Option.bind_eq_some_iff.mp reading
  obtain ⟨token, found, rest⟩ := Option.bind_eq_some_iff.mp rest
  obtain ⟨fees, computed, values⟩ := Option.map_eq_some_iff.mp rest
  simp only [Prod.mk.injEq] at values
  obtain ⟨isFees, transferRate, taxes, goes, got⟩ := values
  refine ⟨engine, _, token, ran, accepted_of_isOk goes, found, taxes,
    isFees ▸ toOption_ok computed, got, fun exact => ?_⟩
  have fee := exact.transfers
  rw [transferRate] at fee
  exact absurd fee (by decide)

end Tokens

end Addition
