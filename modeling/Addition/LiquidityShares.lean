import Addition.Swaps

/-!
# Shares of a pool

The shares for a deposit and the payouts of a removal are quotients of products that wrap.
They are exact exactly when the products fit; when they do not they are smaller, so that no
call pays too much. Whatever wraps, a deposit does not come back larger and no other provider
loses; but a provider who takes out all shares empties the pool only when the products fit.
-/

namespace Addition

namespace Tokens

open ByteStrings Checked FiniteTables Amounts ConstantProduct

/-- A wrapped quotient is exact exactly when its product fits, and never too large. -/
theorem wrapped_quotient (a b divisor : UInt64) (some : divisor ≠ 0) :
    ((a * b / divisor).toNat = share a.toNat b.toNat divisor.toNat ↔ a.toNat * b.toNat < 2 ^ 64) ∧
      (a * b / divisor).toNat ≤ share a.toNat b.toNat divisor.toNat := by
  have value : (a * b / divisor).toNat = a.toNat * b.toNat % 2 ^ 64 / divisor.toNat := by
    rw [UInt64.toNat_div, UInt64.toNat_mul]
  rw [value]
  exact ⟨div_mod_eq_iff _ _ _ (positive_of_ne_zero some) (Nat.le_of_lt divisor.toNat_lt),
    div_mod_le _ _ _⟩

/-! ### Deposits -/

/-- What the checks of a deposit into a pool with shares say, over the natural numbers. -/
structure InRatio (pool : Pool) (add0 add1 minted : UInt64) : Prop where
  filled0 : pool.reserve0 ≠ 0
  filled1 : pool.reserve1 ≠ 0
  ratio : add0.toNat * pool.reserve1.toNat = add1.toNat * pool.reserve0.toNat
  value : minted = min (add0 * pool.lpTotalSupply / pool.reserve0)
    (add1 * pool.lpTotalSupply / pool.reserve1)

theorem shares_inRatio (pool : Pool) (add0 add1 minted : UInt64) (shared : pool.lpTotalSupply ≠ 0)
    (some1 : add1 ≠ 0) (computed : pool.shares add0 add1 = some (.ok minted)) :
    InRatio pool add0 add1 minted := by
  unfold Pool.shares at computed
  rw [if_neg shared] at computed
  have further := Option.some.inj computed
  simp only [furtherShares, bind_ok, exists_unit, ensure_ok, pure_ok, Bool.and_eq_true,
    decide_eq_true_eq] at further
  obtain ⟨⟨filled0, filled1⟩, ⟨fits, fits'⟩, equal, -, value⟩ := further
  obtain ⟨product0, -⟩ := toNat_mul_of_le add0 pool.reserve1 filled1 fits
  obtain ⟨product1, -⟩ := toNat_mul_of_le pool.reserve0 add1 some1 fits'
  refine ⟨filled0, filled1, ?_, value.symm⟩
  rw [← product0, equal, UInt64.mul_comm, product1, Nat.mul_comm]

/-- The shares for a deposit on paper. -/
def Pool.dueShares (pool : Pool) (add0 add1 : UInt64) : Nat :=
  min (share add0.toNat pool.lpTotalSupply.toNat pool.reserve0.toNat)
    (share add1.toNat pool.lpTotalSupply.toNat pool.reserve1.toNat)

/-- The products of a deposit with the supply of shares fit. -/
def Pool.DepositFits (pool : Pool) (add0 add1 : UInt64) : Prop :=
  add0.toNat * pool.lpTotalSupply.toNat < 2 ^ 64 ∧ add1.toNat * pool.lpTotalSupply.toNat < 2 ^ 64

variable {add0 add1 minted : UInt64} {pool : Pool} {engine : TokenEngine} {key : Bytes}
  {left : TokenEngine} {provider : Bytes} {lpAmount amountA amountB : UInt64}
  {tokenA tokenB : Bytes}

/-- The shares are the due ones exactly when the deposit fits. -/
theorem InRatio.exact_iff (inRatio : InRatio pool add0 add1 minted) :
    (minted.toNat = pool.dueShares add0 add1 ↔ pool.DepositFits add0 add1) ∧
      minted.toNat ≤ share add0.toNat pool.lpTotalSupply.toNat pool.reserve0.toNat ∧
      minted.toNat ≤ share add1.toNat pool.lpTotalSupply.toNat pool.reserve1.toNat := by
  obtain ⟨exact0, most0⟩ := wrapped_quotient add0 pool.lpTotalSupply pool.reserve0 inRatio.filled0
  obtain ⟨exact1, most1⟩ := wrapped_quotient add1 pool.lpTotalSupply pool.reserve1 inRatio.filled1
  have equal := share_ratio add0.toNat add1.toNat _ _ pool.lpTotalSupply.toNat
    (positive_of_ne_zero inRatio.filled0) (positive_of_ne_zero inRatio.filled1) inRatio.ratio
  have value : minted.toNat = min (add0 * pool.lpTotalSupply / pool.reserve0).toNat
      (add1 * pool.lpTotalSupply / pool.reserve1).toNat := by
    rw [inRatio.value, toNat_min]
  unfold Pool.dueShares Pool.DepositFits
  rw [← exact0, ← exact1, value]
  refine ⟨⟨fun same => ?_, fun same => by rw [same.1, same.2]⟩, by omega, by omega⟩
  constructor
  · omega
  · omega

/-! ### What shares are worth -/

/-- What the shares of a user are worth of the two reserves. -/
def Pool.worth (pool : Pool) (user : Bytes) : Nat × Nat :=
  (share pool.reserve0.toNat (amountAt pool.lpBalances user).toNat pool.lpTotalSupply.toNat,
    share pool.reserve1.toNat (amountAt pool.lpBalances user).toNat pool.lpTotalSupply.toNat)

/-- No other provider has shares that are worth less. -/
def OthersKeep (before after : Pool) (provider : Bytes) : Prop :=
  ∀ user, user ≠ provider → (before.worth user).1 ≤ (after.worth user).1 ∧
    (before.worth user).2 ≤ (after.worth user).2

theorem Deposit.othersKeep (deposit : Deposit engine key pool provider add0 add1 minted left)
    (shared : pool.lpTotalSupply ≠ 0) (inRatio : InRatio pool add0 add1 minted) :
    OthersKeep pool (pool.added provider add0 add1 minted) provider := by
  intro user other
  obtain ⟨-, most0, most1⟩ := inRatio.exact_iff
  have held : amountAt (pool.added provider add0 add1 minted).lpBalances user =
      amountAt pool.lpBalances user := (amountAt_insert _ _ _ _).trans (if_neg other)
  unfold Pool.worth
  rw [held]
  have sum0 : (pool.added provider add0 add1 minted).reserve0.toNat = _ :=
    toNat_add_of_not_overflows _ _ deposit.room0
  have sum1 : (pool.added provider add0 add1 minted).reserve1.toNat = _ :=
    toNat_add_of_not_overflows _ _ deposit.room1
  have sumShares : (pool.added provider add0 add1 minted).lpTotalSupply.toNat = _ :=
    toNat_add_of_not_overflows _ _ deposit.roomSupply
  have positive := positive_of_ne_zero shared
  rw [sum0, sum1, sumShares]
  exact ⟨share_added _ _ _ _ _ (positive_of_ne_zero inRatio.filled0) positive most0,
    share_added _ _ _ _ _ (positive_of_ne_zero inRatio.filled1) positive most1⟩

/-- The payout of a removal is at most its share, and exact exactly when the product fits. -/
theorem shareOf_exact_iff (reserve lpAmount lpTotalSupply : UInt64) (some : lpTotalSupply ≠ 0) :
    ((shareOf reserve lpAmount lpTotalSupply).toNat =
        share reserve.toNat lpAmount.toNat lpTotalSupply.toNat ↔
      reserve.toNat * lpAmount.toNat < 2 ^ 64) ∧
      (shareOf reserve lpAmount lpTotalSupply).toNat ≤
        share reserve.toNat lpAmount.toNat lpTotalSupply.toNat :=
  wrapped_quotient reserve lpAmount lpTotalSupply some

/-- The products of a removal with the reserves fit. -/
def Pool.RemovalFits (pool : Pool) (lpAmount : UInt64) : Prop :=
  pool.reserve0.toNat * lpAmount.toNat < 2 ^ 64 ∧ pool.reserve1.toNat * lpAmount.toNat < 2 ^ 64

theorem Removal.othersKeep (removal : Removal engine key pool provider lpAmount left)
    (paired : PoolPaired key pool) : OthersKeep pool (pool.removed provider lpAmount) provider := by
  intro user other
  have within := paired.within provider lpAmount removal.rich
  have held : amountAt (pool.removed provider lpAmount).lpBalances user =
      amountAt pool.lpBalances user := (amountAt_insert _ _ _ _).trans (if_neg other)
  have most0 := (shareOf_exact_iff pool.reserve0 lpAmount _ removal.shared).2
  have most1 := (shareOf_exact_iff pool.reserve1 lpAmount _ removal.shared).2
  unfold Pool.worth
  rw [held]
  have less0 : (pool.removed provider lpAmount).reserve0.toNat = _ :=
    UInt64.toNat_sub_of_le _ _ (shareOf_le pool.reserve0 lpAmount _ within)
  have less1 : (pool.removed provider lpAmount).reserve1.toNat = _ :=
    UInt64.toNat_sub_of_le _ _ (shareOf_le pool.reserve1 lpAmount _ within)
  have lessShares : (pool.removed provider lpAmount).lpTotalSupply.toNat = _ :=
    UInt64.toNat_sub_of_le _ _ within
  rw [less0, less1, lessShares]
  by_cases all : lpAmount = pool.lpTotalSupply
  · -- the provider takes all shares, so that no other user has any
    have fewer := total_debited pool.lpBalances provider lpAmount removal.rich
    have below := amount_le_total (pool.removed provider lpAmount).lpBalances user
    have shared := paired.shared
    rw [held] at below
    have nothing : (amountAt pool.lpBalances user).toNat = 0 := by
      change _ ≤ total (pool.lpBalances.insert provider (amountAt pool.lpBalances provider - lpAmount))
        at below
      rw [all] at fewer below
      omega
    rw [nothing]
    simp [share]
  · have remain : lpAmount.toNat < pool.lpTotalSupply.toNat :=
      Nat.lt_of_le_of_ne (UInt64.le_iff_toNat_le.mp within) (fun same => all (UInt64.toNat_inj.mp same))
    exact ⟨share_removed _ _ _ _ _ remain most0, share_removed _ _ _ _ _ remain most1⟩

/-- All shares take out both reserves exactly when the products fit. -/
theorem removed_empty_iff (pool : Pool) (provider : Bytes) (shared : pool.lpTotalSupply ≠ 0) :
    (pool.removed provider pool.lpTotalSupply).reserve0 = 0 ∧
        (pool.removed provider pool.lpTotalSupply).reserve1 = 0 ↔
      pool.RemovalFits pool.lpTotalSupply := by
  have whole : ∀ reserve : UInt64, reserve - shareOf reserve pool.lpTotalSupply pool.lpTotalSupply = 0 ↔
      reserve.toNat * pool.lpTotalSupply.toNat < 2 ^ 64 := by
    intro reserve
    have most := shareOf_le reserve _ _ (UInt64.le_refl pool.lpTotalSupply)
    have less := UInt64.toNat_sub_of_le _ _ most
    have least := UInt64.le_iff_toNat_le.mp most
    have zero : (0 : UInt64).toNat = 0 := rfl
    rw [← (shareOf_exact_iff reserve _ _ shared).1, share_whole _ _ (positive_of_ne_zero shared),
      ← UInt64.toNat_inj, less, zero]
    omega
  exact and_congr (whole pool.reserve0) (whole pool.reserve1)

/-! ### A deposit taken back -/

/-- A pool with shares, or with nothing at all. -/
def Pool.Backed (pool : Pool) : Prop :=
  pool.lpTotalSupply ≠ 0 ∨ pool.reserve0 = 0 ∧ pool.reserve1 = 0

/-- What the shares of a deposit are worth right after it. -/
theorem Deposit.returned (deposit : Deposit engine key pool provider add0 add1 minted left)
    (some1 : add1 ≠ 0) (backed : pool.Backed) :
    shareOf (pool.reserve0 + add0) minted (pool.lpTotalSupply + minted) ≤ add0 ∧
      shareOf (pool.reserve1 + add1) minted (pool.lpTotalSupply + minted) ≤ add1 := by
  have some := shares_ne_zero pool add0 add1 minted deposit.computed
  have sum0 := toNat_add_of_not_overflows _ _ deposit.room0
  have sum1 := toNat_add_of_not_overflows _ _ deposit.room1
  have sumShares := toNat_add_of_not_overflows _ _ deposit.roomSupply
  have positive := positive_of_ne_zero some
  have filled : pool.lpTotalSupply + minted ≠ 0 := ne_zero_of_positive (sumShares ▸ by omega)
  have most0 := (shareOf_exact_iff (pool.reserve0 + add0) minted _ filled).2
  have most1 := (shareOf_exact_iff (pool.reserve1 + add1) minted _ filled).2
  rw [sum0, sumShares] at most0
  rw [sum1, sumShares] at most1
  rw [UInt64.le_iff_toNat_le, UInt64.le_iff_toNat_le]
  by_cases shared : pool.lpTotalSupply = 0
  · -- the first shares are worth the whole, which is the deposit
    obtain ⟨empty0, empty1⟩ := backed.resolve_left (fun different => different shared)
    have zero : (0 : UInt64).toNat = 0 := rfl
    rw [shared, zero, Nat.zero_add, share_whole _ _ positive] at most0 most1
    rw [empty0, zero, Nat.zero_add] at most0
    rw [empty1, zero, Nat.zero_add] at most1
    rw [shared, empty0, empty1]
    simp only [UInt64.zero_add] at *
    exact ⟨most0, most1⟩
  · have inRatio := shares_inRatio pool add0 add1 minted shared some1 deposit.computed
    obtain ⟨-, paid0, paid1⟩ := inRatio.exact_iff
    exact ⟨most0.trans (share_returned _ _ _ _ (positive_of_ne_zero inRatio.filled0) paid0),
      most1.trans (share_returned _ _ _ _ (positive_of_ne_zero inRatio.filled1) paid1)⟩

/-! ### Runs of removals that fit -/

/-- A removal whose products fit. -/
abbrev Fits (pool : Pool) (_ : Bytes) (lpAmount : UInt64) : Prop := pool.RemovalFits lpAmount

/-- The engines that runs reach in which the products of every removal fit. -/
inductive Fitted : TokenEngine → Prop
  | initial : Fitted .initial
  | step {engine left : TokenEngine} (operation : Operation) (fitted : Fitted engine)
      (fits : Allowed Fits engine operation) (done : perform engine operation = some left) : Fitted left

theorem poolSound_fits : PoolRule Fits PoolSound where
  fresh := poolSound_rule.fresh
  touch := poolSound_rule.touch
  added := poolSound_rule.added
  removed := fun sound fits removal =>
    poolSound_rule.removed sound (fun strands => strands.2.2.2.2 fits) removal
  swapped := poolSound_rule.swapped

theorem Fitted.backed (fitted : Fitted engine) (key : Bytes) (pool : Pool)
    (found : engine.pools.lookup key = some pool) : pool.Backed := by
  have sound : ∀ key pool, engine.pools.lookup key = some pool → PoolSound key pool := by
    clear found
    induction fitted with
    | initial => exact fun key pool found => absurd found (by simp [TokenEngine.initial])
    | step operation fitted fits done ih =>
      exact poolSound_fits.perform fits done ih
  obtain ⟨-, empty⟩ | ⟨shared, -⟩ := (sound key pool found).filled
  · exact .inr empty
  · exact .inl shared

/-! ### Every call -/

theorem inOrder_le (pool : Pool) (tokenA : Bytes) {out0 out1 : UInt64}
    (most0 : out0 ≤ (pool.inOrder tokenA amountA amountB).1)
    (most1 : out1 ≤ (pool.inOrder tokenA amountA amountB).2) :
    (pool.inOrder tokenA out0 out1).1 ≤ amountA ∧ (pool.inOrder tokenA out0 out1).2 ≤ amountB := by
  unfold Pool.inOrder at *
  split at most0
  · rename_i first
    rw [if_pos first] at most1 ⊢
    exact ⟨most0, most1⟩
  · rename_i second
    rw [if_neg second] at most1 ⊢
    exact ⟨most1, most0⟩

/-- A deposit: its shares are exact exactly when their products fit, no other provider loses,
and what the shares are worth right after it is not more than was paid. -/
structure Shared (engine : TokenEngine) (tokenA tokenB provider : Bytes) (amountA amountB : UInt64)
    (left : TokenEngine) (pool : Pool) (add0 add1 minted : UInt64) : Prop where
  found : engine.pools.lookup (poolKey tokenA tokenB) = some pool
  inOrder : (add0, add1) = pool.inOrder tokenA amountA amountB
  after : left.pools.lookup (poolKey tokenA tokenB) = some (pool.added provider add0 add1 minted)
  exact_iff : pool.lpTotalSupply ≠ 0 →
    (minted.toNat = pool.dueShares add0 add1 ↔ pool.DepositFits add0 add1)
  others : pool.lpTotalSupply ≠ 0 → OthersKeep pool (pool.added provider add0 add1 minted) provider
  returned : pool.Backed → ∀ outs final,
    removeLiquidity left tokenA tokenB provider minted = (.ok outs, final) →
      outs.1 ≤ amountA ∧ outs.2 ≤ amountB

/-- A removal: its payouts are exact exactly when their products fit, no other provider loses,
and all shares empty the pool exactly when the products fit. -/
structure Redeemed (engine : TokenEngine) (tokenA tokenB provider : Bytes) (lpAmount : UInt64)
    (outs : UInt64 × UInt64) (left : TokenEngine) (pool : Pool) (out0 out1 : UInt64) : Prop where
  found : engine.pools.lookup (poolKey tokenA tokenB) = some pool
  inOrder : outs = pool.inOrder tokenA out0 out1
  after : left.pools.lookup (poolKey tokenA tokenB) = some (pool.removed provider lpAmount)
  exact_iff : out0.toNat = share pool.reserve0.toNat lpAmount.toNat pool.lpTotalSupply.toNat ∧
      out1.toNat = share pool.reserve1.toNat lpAmount.toNat pool.lpTotalSupply.toNat ↔
    pool.RemovalFits lpAmount
  others : OthersKeep pool (pool.removed provider lpAmount) provider
  emptied_iff : lpAmount = pool.lpTotalSupply →
    ((pool.removed provider lpAmount).reserve0 = 0 ∧ (pool.removed provider lpAmount).reserve1 = 0 ↔
      pool.RemovalFits lpAmount)

theorem addLiquidity_shared
    (called : addLiquidity engine tokenA tokenB provider amountA amountB = some (.ok (), left)) :
    ∃ pool add0 add1 minted,
      Shared engine tokenA tokenB provider amountA amountB left pool add0 add1 minted := by
  obtain ⟨message, other, failed, -⟩ | ⟨pool, minted, other, went, someA, someB, deposit⟩ :=
    addLiquidity_cases engine tokenA tokenB provider amountA amountB _ called
  · exact absurd failed (by simp)
  cases (Prod.mk.inj went).2
  have some1 := (inOrder_ne_zero pool tokenA amountA amountB someA someB).2
  have after : left.pools.lookup (poolKey tokenA tokenB) = some (pool.added provider
      (pool.inOrder tokenA amountA amountB).1 (pool.inOrder tokenA amountA amountB).2 minted) := by
    rw [deposit.pools, lookup_insert, if_pos rfl]
  refine ⟨pool, _, _, minted, deposit.found, rfl, after, fun shared => ?_, fun shared => ?_,
    fun backed outs final taken => ?_⟩
  · exact (shares_inRatio pool _ _ minted shared some1 deposit.computed).exact_iff.1
  · exact deposit.othersKeep shared (shares_inRatio pool _ _ minted shared some1 deposit.computed)
  · obtain ⟨message, other, failed, -⟩ | ⟨later, other, paid, -, removal⟩ :=
      removeLiquidity_cases left tokenA tokenB provider minted
    · exact absurd (failed.symm.trans taken) (by simp)
    · cases Option.some.inj (removal.found.symm.trans after)
      obtain ⟨most0, most1⟩ := deposit.returned some1 backed
      rw [← Except.ok.inj (Prod.mk.inj (paid.symm.trans taken)).1]
      exact inOrder_le pool tokenA most0 most1

theorem removeLiquidity_redeemed {outs : UInt64 × UInt64} (lawful : Lawful engine)
    (called : removeLiquidity engine tokenA tokenB provider lpAmount = (.ok outs, left)) :
    ∃ pool out0 out1, Redeemed engine tokenA tokenB provider lpAmount outs left pool out0 out1 := by
  obtain ⟨message, other, failed, -⟩ | ⟨pool, other, paid, -, removal⟩ :=
    removeLiquidity_cases engine tokenA tokenB provider lpAmount
  · exact absurd (failed.symm.trans called) (by simp)
  obtain ⟨isOuts, isLeft⟩ := Prod.mk.inj (paid.symm.trans called)
  cases isLeft
  have after : left.pools.lookup (poolKey tokenA tokenB) = some (pool.removed provider lpAmount) := by
    rw [removal.pools, lookup_insert, if_pos rfl]
  refine ⟨pool, _, _, removal.found, (Except.ok.inj isOuts).symm, after, and_congr
    (shareOf_exact_iff pool.reserve0 lpAmount _ removal.shared).1
    (shareOf_exact_iff pool.reserve1 lpAmount _ removal.shared).1,
    removal.othersKeep (lawful.pools _ pool removal.found).paired, fun all => ?_⟩
  rw [all]
  exact removed_empty_iff pool provider removal.shared

/-- In every reachable engine the shares of a deposit and the payouts of a removal are exact
exactly when their products fit, and no value is made; in runs in which every removal fits
every pool has shares or nothing at all. -/
theorem shares_exact_iff (engine : TokenEngine) :
    (Reachable engine → ∀ tokenA tokenB provider,
      (∀ amountA amountB left,
        addLiquidity engine tokenA tokenB provider amountA amountB = some (.ok (), left) →
        ∃ pool add0 add1 minted,
          Shared engine tokenA tokenB provider amountA amountB left pool add0 add1 minted) ∧
      ∀ lpAmount outs left,
        removeLiquidity engine tokenA tokenB provider lpAmount = (.ok outs, left) →
        ∃ pool out0 out1, Redeemed engine tokenA tokenB provider lpAmount outs left pool out0 out1) ∧
    (Fitted engine → ∀ key pool, engine.pools.lookup key = some pool → pool.Backed) :=
  ⟨fun reachable _ _ _ => ⟨fun _ _ _ called => addLiquidity_shared called,
    fun _ _ _ called => removeLiquidity_redeemed reachable.lawful called⟩,
    fun fitted key pool found => fitted.backed key pool found⟩

set_option maxRecDepth 100000 in
/-- A deposit into the market and its shares. -/
theorem market_shared : ∃ engine left pool add0 add1 minted,
    performAll .initial market = some engine ∧
      addLiquidity engine (ascii "A") (ascii "B") (ascii "owner") 100 100 = some (.ok (), left) ∧
      Shared engine (ascii "A") (ascii "B") (ascii "owner") 100 100 left pool add0 add1 minted := by
  have reading : (performAll .initial market).bind (fun engine =>
      (addLiquidity engine (ascii "A") (ascii "B") (ascii "owner") 100 100).map (fun outcome =>
        outcome.1.isOk)) = some true := by
    decide +kernel
  obtain ⟨engine, ran, rest⟩ := Option.bind_eq_some_iff.mp reading
  obtain ⟨⟨verdict, left⟩, called, goes⟩ := Option.map_eq_some_iff.mp rest
  cases (isOk_iff _).mp goes
  obtain ⟨pool, add0, add1, minted, shared⟩ := ((shares_exact_iff engine).1 ⟨market, ran⟩ (ascii "A")
    (ascii "B") (ascii "owner")).1 100 100 left called
  exact ⟨engine, left, pool, add0, add1, minted, ran, called, shared⟩

set_option maxRecDepth 100000 in
/-- The only provider takes out all shares and gets less than a third of the first reserve. -/
theorem payout_wrapped : ∃ engine left pool outs,
    performAll .initial (stranded.take 4) = some engine ∧
      engine.pools.lookup (poolKey (ascii "A") (ascii "B")) = some pool ∧
      removeLiquidity engine (ascii "A") (ascii "B") (ascii "owner") 3000000000 = (.ok outs, left) ∧
      pool.lpTotalSupply = 3000000000 ∧ outs.1 = 2851085308 ∧
      share pool.reserve0.toNat 3000000000 pool.lpTotalSupply.toNat = 9000000000 := by
  have reading : (performAll .initial (stranded.take 4)).bind (fun engine =>
      (engine.pools.lookup (poolKey (ascii "A") (ascii "B"))).bind (fun pool =>
        (removeLiquidity engine (ascii "A") (ascii "B") (ascii "owner") 3000000000).1.toOption.map
          (fun outs => (pool.reserve0, pool.lpTotalSupply, outs.1)))) =
      some (9000000000, 3000000000, 2851085308) := by
    decide +kernel
  obtain ⟨engine, ran, rest⟩ := Option.bind_eq_some_iff.mp reading
  obtain ⟨pool, found, rest⟩ := Option.bind_eq_some_iff.mp rest
  obtain ⟨outs, paid, values⟩ := Option.map_eq_some_iff.mp rest
  simp only [Prod.mk.injEq] at values
  obtain ⟨reserve, supply, out⟩ := values
  refine ⟨engine, _, pool, outs, ran, found, Prod.ext (toOption_ok paid) rfl, supply, out, ?_⟩
  rw [reserve, supply]
  decide

end Tokens

end Addition
