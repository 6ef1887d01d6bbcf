import Addition.Tokens

/-!
# What a call on one token does to its sums

The balances of a token change by what its supply changes. A refused call that had changed
balances puts every one of them back, also when the sender is the recipient or the
treasury. A transfer leaks when it takes a fee and there is no treasury to pay it to.
-/

namespace Addition

namespace Tokens

open ByteStrings Checked FiniteTables Amounts

/-! ### Balances -/

/-- The exact sum of the balances. -/
def Token.held (token : Token) : Nat := total token.balances

@[simp] theorem balance_setBalance (token : Token) (user tested : Bytes) (amount : UInt64) :
    (token.setBalance user amount).balance tested =
      if tested = user then amount else token.balance tested :=
  amountAt_insert token.balances user tested amount

@[simp] theorem balance_touch (token : Token) (user tested : Bytes) :
    (token.touch user).balance tested = token.balance tested := by
  unfold Token.touch
  rw [balance_setBalance]
  split
  · rename_i same
    rw [same]
  · rfl

@[simp] theorem balance_credit (token : Token) (user tested : Bytes) (amount : UInt64) :
    (token.credit user amount).balance tested =
      if tested = user then token.balance user + amount else token.balance tested :=
  balance_setBalance token user tested _

@[simp] theorem balance_debit (token : Token) (user tested : Bytes) (amount : UInt64) :
    (token.debit user amount).balance tested =
      if tested = user then token.balance user - amount else token.balance tested :=
  balance_setBalance token user tested _

theorem balance_le_held (token : Token) (user : Bytes) :
    (token.balance user).toNat ≤ token.held := amount_le_total token.balances user

theorem held_credit (token : Token) (user : Bytes) (amount : UInt64)
    (room : ¬ overflows (token.balance user) amount = true) :
    (token.credit user amount).held = token.held + amount.toNat :=
  total_credited token.balances user amount room

theorem held_debit (token : Token) (user : Bytes) (amount : UInt64)
    (enough : amount ≤ token.balance user) :
    (token.debit user amount).held + amount.toNat = token.held :=
  total_debited token.balances user amount enough

/-- A credit with room changes one balance, by its amount. -/
theorem credited (token : Token) (user owner : Bytes) (amount : UInt64)
    (room : ¬ overflows (token.balance user) amount = true) :
    (((token.credit user amount).balance owner).toNat : Int) =
      (token.balance owner).toNat + if owner = user then (amount.toNat : Int) else 0 := by
  have sum := toNat_add_of_not_overflows _ _ room
  rw [balance_credit]
  split
  · rename_i same
    rw [same, sum]
    omega
  · omega

/-- A covered debit changes one balance, by its amount. -/
theorem debited (token : Token) (user owner : Bytes) (amount : UInt64)
    (enough : amount ≤ token.balance user) :
    (((token.debit user amount).balance owner).toNat : Int) =
      (token.balance owner).toNat - if owner = user then (amount.toNat : Int) else 0 := by
  have difference := UInt64.toNat_sub_of_le _ _ enough
  have least := UInt64.le_iff_toNat_le.mp enough
  rw [balance_debit]
  split
  · rename_i same
    rw [same, difference]
    omega
  · omega

/-! ### Tokens before and after -/

/-- The balances changed by what the supply changed, and the supply is not above its bound
when it was not. -/
structure Token.Balances (token left : Token) : Prop where
  even : left.held + token.totalSupply.toNat = token.held + left.totalSupply.toNat
  capped : token.totalSupply ≤ token.maxSupply → left.totalSupply ≤ left.maxSupply

variable {left token final : Token} {amount burnFee : UInt64} {recipient sender : Bytes}
  {transferFee : UInt64}

/-- The same balances and the same supply. -/
theorem Token.Balances.same (balances : ∀ user, left.balance user = token.balance user)
    (supply : left.totalSupply = token.totalSupply) (bound : left.maxSupply = token.maxSupply) :
    token.Balances left := by
  constructor
  · have held : left.held = token.held := total_congr left.balances token.balances balances
    rw [held, supply]
  · rw [supply, bound]
    exact id

theorem Token.Balances.refl (token : Token) : token.Balances token := .same (fun _ => rfl) rfl rfl

theorem balances_touch (token : Token) (user : Bytes) : token.Balances (token.touch user) :=
  .same (balance_touch token user) rfl rfl

/-! ### Tokens with the same amounts -/

/-- The same token but for its balances. -/
def Token.Moved (token left : Token) : Prop := left = { token with balances := left.balances }

theorem Token.Moved.trans (first : token.Moved left)
    (second : left.Moved final) : token.Moved final := by
  unfold Token.Moved at *
  rw [second, first]

theorem Token.Moved.supplies (moved : token.Moved left) :
    left.totalSupply = token.totalSupply ∧ left.maxSupply = token.maxSupply := by
  unfold Token.Moved at moved
  rw [moved]
  exact ⟨rfl, rfl⟩

/-- The same token but for empty entries among its balances. -/
structure Token.Alike (token left : Token) : Prop where
  rest : token.Moved left
  balances : ∀ user, left.balance user = token.balance user

theorem Token.Alike.refl (token : Token) : token.Alike token := ⟨rfl, fun _ => rfl⟩

theorem Token.Alike.trans (first : token.Alike left)
    (second : left.Alike final) : token.Alike final :=
  ⟨first.rest.trans second.rest, fun user => (second.balances user).trans (first.balances user)⟩

theorem Token.Alike.sums (alike : token.Alike left) : token.Balances left :=
  .same alike.balances alike.rest.supplies.1 alike.rest.supplies.2

theorem alike_touch (token : Token) (user : Bytes) : token.Alike (token.touch user) :=
  ⟨rfl, balance_touch token user⟩

/-! ### Making and minting -/

theorem newToken_supply (owner : Bytes) (maxSupply initialMint : UInt64) (burnable : Bool)
    (devWallet : Bytes) (devAllocation : UInt64) :
    (newToken owner maxSupply initialMint burnable devWallet devAllocation).totalSupply =
        initialMint + devAllocation ∧
      (newToken owner maxSupply initialMint burnable devWallet devAllocation).maxSupply = maxSupply := by
  unfold newToken
  dsimp only
  constructor
  · split <;> split <;> rfl
  · split <;> split <;> rfl

theorem newToken_sums (owner : Bytes) (maxSupply initialMint : UInt64) (burnable : Bool)
    (devWallet : Bytes) (devAllocation : UInt64) (room : ¬ overflows initialMint devAllocation = true) :
    (newToken owner maxSupply initialMint burnable devWallet devAllocation).held =
      (newToken owner maxSupply initialMint burnable devWallet devAllocation).totalSupply.toNat := by
  set token := { Token.empty with
    owner := owner
    burnable := burnable
    maxSupply := maxSupply
    totalSupply := initialMint + devAllocation } with fresh
  have nothing : ∀ user, token.balance user = 0 := fun _ => rfl
  set minted := if 0 < initialMint then token.setBalance owner initialMint else token with first
  have mintedHeld : minted.held = initialMint.toNat := by
    rw [first]
    split
    · have exchanged := total_insert token.balances owner initialMint
      have before : (amountAt token.balances owner).toNat = 0 := rfl
      have start : total token.balances = 0 := rfl
      change total (token.balances.insert owner initialMint) = initialMint.toNat
      omega
    · rename_i zero
      have none : initialMint.toNat = 0 := by
        rw [UInt64.not_lt, UInt64.le_iff_toNat_le] at zero
        simpa using zero
      exact none.symm
  have made : newToken owner maxSupply initialMint burnable devWallet devAllocation =
      if 0 < devAllocation then minted.credit devWallet devAllocation else minted := rfl
  rw [(newToken_supply owner maxSupply initialMint burnable devWallet devAllocation).1,
    toNat_add_of_not_overflows _ _ room, made]
  split
  · have below : (minted.balance devWallet).toNat ≤ initialMint.toNat :=
      mintedHeld ▸ balance_le_held minted devWallet
    rw [held_credit, mintedHeld]
    rw [overflows_iff] at room ⊢
    omega
  · rename_i zero
    have none : devAllocation.toNat = 0 := by
      rw [UInt64.not_lt, UInt64.le_iff_toNat_le] at zero
      simpa using zero
    omega

theorem mint_balances (token : Token) (caller recipient : Bytes) (amount : UInt64) :
    token.Balances (token.mint caller recipient amount).2 := by
  unfold Token.mint
  cases checked : mintChecks token caller recipient amount with
  | error message => exact .refl token
  | ok passed =>
    simp only [mintChecks, bind_ok, exists_unit, ensure_ok] at checked
    obtain ⟨-, -, room, within⟩ := checked
    have roomSupply := toNat_add_of_not_overflows token.totalSupply amount (by simpa using room)
    dsimp only
    split
    · exact balances_touch token recipient
    · rename_i roomBalance
      have more := held_credit token recipient amount roomBalance
      constructor
      · change (token.credit recipient amount).held + token.totalSupply.toNat =
          token.held + (token.totalSupply + amount).toNat
        omega
      · intro _
        change token.totalSupply + amount ≤ token.maxSupply
        simpa using within

/-! ### Transfers -/

/-- A transfer that goes through and takes a fee that nobody gets. -/
def Token.Leaks (token : Token) (sender recipient : Bytes) (amount : UInt64) : Prop :=
  ∃ transferFee burnFee, transferFees token sender recipient amount = .ok (transferFee, burnFee) ∧
    0 < transferFee ∧ token.treasuryWallet = [] ∧ amount ≤ token.balance sender ∧
    ¬ (0 < token.maxWalletAmount ∧ token.maxWalletAmount <
      (token.debit sender amount).balance recipient + (amount - transferFee - burnFee))

theorem feeOf_le (exempt : Bool) (amount bps : UInt64) :
    (feeOf exempt amount bps).toNat ≤ 2 ^ 64 / 10000 := by
  unfold feeOf
  split
  · exact Nat.zero_le _
  · rw [UInt64.toNat_div]
    exact Nat.div_le_div_right (UInt64.toNat_lt _).le

/-- The fees of a transfer, and what they leave, add up to its amount. -/
theorem transferFees_split (token : Token) (sender recipient : Bytes)
    (amount transferFee burnFee : UInt64)
    (checked : transferFees token sender recipient amount = .ok (transferFee, burnFee)) :
    (amount - transferFee - burnFee).toNat + transferFee.toNat + burnFee.toNat = amount.toNat := by
  simp only [transferFees, bind_ok, exists_unit, ensure_ok, pure_ok, Prod.mk.injEq] at checked
  obtain ⟨-, -, -, -, covered, rfl, rfl⟩ := checked
  have first := feeOf_le (token.exempts sender recipient) amount token.transferFeeBps
  have second := feeOf_le (token.exempts sender recipient) amount token.burnFeeBps
  have amountBound := amount.toNat_lt
  rw [decide_eq_true_eq, UInt64.le_iff_toNat_le, UInt64.toNat_add] at covered
  rw [UInt64.toNat_sub, UInt64.toNat_sub]
  omega

/-- A debit and a credit taken back, in the order of the source. -/
theorem restored (token : Token) (sender recipient : Bytes) (amount received : UInt64) (user : Bytes) :
    ((((token.debit sender amount).credit recipient received).credit sender amount).debit
      recipient received).balance user = token.balance user := by
  simp only [balance_credit, balance_debit]
  by_cases same : recipient = sender
  · grind
  · grind

/-- The token that a transfer leaves. -/
def Token.settled (token : Token) (sender recipient : Bytes) (amount transferFee burnFee : UInt64) :
    Token :=
  let moved := (token.debit sender amount).credit recipient (amount - transferFee - burnFee)
  let paid :=
    if 0 < transferFee ∧ token.treasuryWallet ≠ [] then moved.credit token.treasuryWallet transferFee
    else moved
  { paid with totalSupply := token.totalSupply - burnFee }

theorem settled_pays (token : Token) (sender recipient : Bytes) (amount transferFee burnFee : UInt64)
    (pays : 0 < transferFee ∧ token.treasuryWallet ≠ []) :
    token.settled sender recipient amount transferFee burnFee =
      { ((token.debit sender amount).credit recipient (amount - transferFee - burnFee)).credit
          token.treasuryWallet transferFee with totalSupply := token.totalSupply - burnFee } := by
  unfold Token.settled
  dsimp only
  rw [if_pos pays]

theorem settled_keeps (token : Token) (sender recipient : Bytes) (amount transferFee burnFee : UInt64)
    (keeps : ¬ (0 < transferFee ∧ token.treasuryWallet ≠ [])) :
    token.settled sender recipient amount transferFee burnFee =
      { (token.debit sender amount).credit recipient (amount - transferFee - burnFee) with
        totalSupply := token.totalSupply - burnFee } := by
  unfold Token.settled
  dsimp only
  rw [if_neg keeps]

/-- A transfer that went through. -/
structure Transferred (token : Token) (sender recipient : Bytes) (amount transferFee burnFee : UInt64) :
    Prop where
  fees : transferFees token sender recipient amount = .ok (transferFee, burnFee)
  rich : amount ≤ token.balance sender
  room : ¬ overflows ((token.debit sender amount).balance recipient)
    (amount - transferFee - burnFee) = true
  light : ¬ (0 < token.maxWalletAmount ∧ token.maxWalletAmount <
    (token.debit sender amount).balance recipient + (amount - transferFee - burnFee))
  roomTreasury : 0 < transferFee ∧ token.treasuryWallet ≠ [] →
    ¬ overflows (((token.debit sender amount).credit recipient (amount - transferFee - burnFee)).balance
      token.treasuryWallet) transferFee = true
  covered : burnFee ≤ token.totalSupply

theorem burnFee_covered (token paid : Token) (burnFee : UInt64)
    (supply : paid.totalSupply = token.totalSupply) (covered : burnFee ≤ token.totalSupply) :
    paid.burnFee burnFee = (.ok (), { paid with totalSupply := token.totalSupply - burnFee }) := by
  unfold Token.burnFee
  rw [supply]
  split
  · rw [if_neg (UInt64.not_lt.mpr covered)]
  · rename_i zero
    have none : burnFee = 0 := by
      rw [UInt64.not_lt] at zero
      exact UInt64.le_antisymm zero (UInt64.zero_le)
    rw [none, UInt64.sub_zero, ← supply]

/-- What is burned is covered by the supply when the balances are. -/
theorem burn_covered (token : Token) (sender recipient : Bytes) (amount transferFee burnFee : UInt64)
    (backed : token.held ≤ token.totalSupply.toNat)
    (fees : transferFees token sender recipient amount = .ok (transferFee, burnFee))
    (rich : amount ≤ token.balance sender) : burnFee ≤ token.totalSupply := by
  have parts := transferFees_split token sender recipient amount transferFee burnFee fees
  have below := balance_le_held token sender
  have least := UInt64.le_iff_toNat_le.mp rich
  rw [UInt64.le_iff_toNat_le]
  omega

/-- A transfer of a token whose balances are backed is refused and leaves every amount, or it
goes through; the refusal that takes nothing back is never reached. -/
theorem transfer_cases (token : Token) (sender recipient : Bytes) (amount : UInt64)
    (backed : token.held ≤ token.totalSupply.toNat) :
    (∃ message left, token.transfer sender recipient amount = (.error message, left) ∧
      token.Alike left) ∨
    ∃ transferFee burnFee,
      token.transfer sender recipient amount =
        (.ok (), token.settled sender recipient amount transferFee burnFee) ∧
      Transferred token sender recipient amount transferFee burnFee := by
  unfold Token.transfer
  cases fees : transferFees token sender recipient amount with
  | error message => exact .inl ⟨message, token, rfl, .refl token⟩
  | ok both =>
    obtain ⟨transferFee, burnFee⟩ := both
    dsimp only
    split
    · exact .inl ⟨_, _, rfl, alike_touch token sender⟩
    rename_i poor
    have rich := UInt64.not_lt.mp poor
    have covered := burn_covered token sender recipient amount transferFee burnFee backed fees rich
    split
    · refine .inl ⟨_, _, rfl, rfl, fun user => ?_⟩
      simp only [balance_credit, balance_touch, balance_debit]
      grind
    rename_i room
    split
    · exact .inl ⟨_, _, rfl, rfl, restored token sender recipient amount _⟩
    rename_i heavy
    have light : ¬ (0 < token.maxWalletAmount ∧ token.maxWalletAmount <
        (token.debit sender amount).balance recipient + (amount - transferFee - burnFee)) := by
      rw [balance_credit, if_pos rfl] at heavy
      exact heavy
    set moved := (token.debit sender amount).credit recipient (amount - transferFee - burnFee)
      with movedIs
    have treasury : moved.treasuryWallet = token.treasuryWallet := rfl
    unfold Token.payTreasury
    rw [treasury]
    by_cases pays : 0 < transferFee ∧ token.treasuryWallet ≠ []
    · rw [if_pos pays]
      by_cases full : overflows (moved.balance token.treasuryWallet) transferFee = true
      · rw [if_pos full]
        refine .inl ⟨_, _, rfl, rfl, fun user => ?_⟩
        rw [← restored token sender recipient amount (amount - transferFee - burnFee) user, ← movedIs]
        simp only [balance_credit, balance_touch, balance_debit]
      · rw [if_neg full]
        refine .inr ⟨transferFee, burnFee, ?_, fees, rich, room, light, fun _ => full, covered⟩
        rw [settled_pays _ _ _ _ _ _ pays]
        exact burnFee_covered token _ burnFee rfl covered
    · rw [if_neg pays]
      refine .inr ⟨transferFee, burnFee, ?_, fees, rich, room, light, fun both => absurd both pays,
        covered⟩
      rw [settled_keeps _ _ _ _ _ _ pays]
      exact burnFee_covered token _ burnFee rfl covered

/-- What the balances lose: the fee that is burned, and the other one when nobody gets it. -/
theorem Transferred.held
    (transferred : Transferred token sender recipient amount transferFee burnFee) :
    (token.settled sender recipient amount transferFee burnFee).held + burnFee.toNat +
      (if token.treasuryWallet = [] then transferFee.toNat else 0) = token.held := by
  have parts := transferFees_split token sender recipient amount transferFee burnFee transferred.fees
  have less := held_debit token sender amount transferred.rich
  have more := held_credit (token.debit sender amount) recipient _ transferred.room
  set moved := (token.debit sender amount).credit recipient (amount - transferFee - burnFee) with movedIs
  by_cases pays : 0 < transferFee ∧ token.treasuryWallet ≠ []
  · have paid := held_credit moved token.treasuryWallet transferFee (transferred.roomTreasury pays)
    have settled : (token.settled sender recipient amount transferFee burnFee).held =
        (moved.credit token.treasuryWallet transferFee).held := by
      rw [settled_pays _ _ _ _ _ _ pays]
      rfl
    rw [settled, if_neg pays.2]
    omega
  · have settled : (token.settled sender recipient amount transferFee burnFee).held = moved.held := by
      rw [settled_keeps _ _ _ _ _ _ pays]
      rfl
    rw [settled]
    split
    · omega
    · rename_i named
      have free : transferFee.toNat = 0 := by
        by_contra some
        exact pays ⟨UInt64.lt_iff_toNat_lt.mpr (Nat.pos_of_ne_zero some), named⟩
      omega

theorem Transferred.supply
    (transferred : Transferred token sender recipient amount transferFee burnFee) :
    (token.settled sender recipient amount transferFee burnFee).totalSupply.toNat + burnFee.toNat =
        token.totalSupply.toNat ∧
      (token.settled sender recipient amount transferFee burnFee).maxSupply = token.maxSupply := by
  have least := UInt64.le_iff_toNat_le.mp transferred.covered
  constructor
  · change (token.totalSupply - burnFee).toNat + burnFee.toNat = token.totalSupply.toNat
    rw [UInt64.toNat_sub_of_le _ _ transferred.covered]
    omega
  · unfold Token.settled
    dsimp only
    split <;> rfl

theorem transfer_balances (token : Token) (sender recipient : Bytes) (amount : UInt64)
    (backed : token.held ≤ token.totalSupply.toNat) (keeps : ¬ token.Leaks sender recipient amount) :
    token.Balances (token.transfer sender recipient amount).2 := by
  obtain ⟨message, left, called, alike⟩ | ⟨transferFee, burnFee, called, transferred⟩ :=
    transfer_cases token sender recipient amount backed
  · exact called ▸ alike.sums
  · have held := transferred.held
    obtain ⟨supply, bound⟩ := transferred.supply
    have paid : (if token.treasuryWallet = [] then transferFee.toNat else 0) = 0 := by
      split
      · rename_i nobody
        by_contra some
        exact keeps ⟨transferFee, burnFee, transferred.fees,
          UInt64.lt_iff_toNat_lt.mpr (Nat.pos_of_ne_zero some), nobody, transferred.rich,
          transferred.light⟩
      · rfl
    rw [called]
    dsimp only
    constructor
    · omega
    · intro below
      rw [UInt64.le_iff_toNat_le] at below ⊢
      rw [bound]
      omega

theorem burn_balances (token : Token) (sender : Bytes) (amount : UInt64)
    (backed : token.held ≤ token.totalSupply.toNat) :
    token.Balances (token.burn sender amount).2 := by
  unfold Token.burn
  split
  · exact .refl token
  · split
    · exact .refl token
    · split
      · exact balances_touch token sender
      · rename_i rich
        have enough := UInt64.not_lt.mp rich
        have debited := held_debit token sender amount enough
        have below := balance_le_held token sender
        have least := UInt64.le_iff_toNat_le.mp enough
        have covered : amount ≤ token.totalSupply := by
          rw [UInt64.le_iff_toNat_le]
          omega
        have fewer := UInt64.toNat_sub_of_le token.totalSupply amount covered
        constructor
        · change (token.debit sender amount).held + token.totalSupply.toNat =
            token.held + (token.totalSupply - amount).toNat
          omega
        · intro bound
          change token.totalSupply - amount ≤ token.maxSupply
          rw [UInt64.le_iff_toNat_le] at bound ⊢
          omega

/-- A setting changes no balance and no supply. -/
theorem set_balances (token : Token) (caller : Bytes) (refusal : String) (check : Except String Unit)
    (change : Token → Token) (quiet : ∀ token : Token, token.Balances (change token)) :
    token.Balances (token.set caller refusal check change).2 := by
  unfold Token.set
  split
  · exact .refl token
  · exact quiet token

end Tokens

end Addition
