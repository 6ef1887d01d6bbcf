import Addition.TokenCalls

/-!
# Steps on pools

Every call on a pair is one step on the pools or, along a route, several. A step loses no coin,
changes nothing of a token but its balances, and keeps every property of pools that each kind
of step keeps. Whether a removal may be made is left open, for some properties need it.
-/

namespace Addition

namespace Tokens

open ByteStrings Checked FiniteTables Amounts

/-! ### Steps on pools -/

/-- A new pool. -/
def Pool.fresh (t0 t1 : Bytes) (feeBps : UInt64) : Pool := ⟨t0, t1, 0, 0, feeBps, 0, ∅⟩

/-- What one call on a pair does to an engine; a removal is asked whether it may. -/
inductive PoolStep (May : Pool → Bytes → UInt64 → Prop) : TokenEngine → TokenEngine → Prop
  | refused {engine left : TokenEngine} (refused : Refused engine left) : PoolStep May engine left
  | created {engine : TokenEngine} {tokenA tokenB t0 t1 : Bytes} {feeBps : UInt64}
      (isOrdered : orderedPair tokenA tokenB = some (t0, t1))
      (exists0 : (engine.tokens.lookup t0).isSome = true)
      (exists1 : (engine.tokens.lookup t1).isSome = true) (charged : feeBps < 10000)
      (absent : engine.pools.lookup (poolKey t0 t1) = none) :
    PoolStep May engine (engine.setPool (poolKey t0 t1) (.fresh t0 t1 feeBps))
  | added {engine left : TokenEngine} {tokenA tokenB provider : Bytes} {pool : Pool}
      {add0 add1 minted : UInt64} (some0 : add0 ≠ 0) (some1 : add1 ≠ 0)
      (deposit : Deposit engine (poolKey tokenA tokenB) pool provider add0 add1 minted left) :
    PoolStep May engine left
  | removed {engine left : TokenEngine} {tokenA tokenB provider : Bytes} {pool : Pool}
      {lpAmount : UInt64} (may : May pool provider lpAmount)
      (removal : Removal engine (poolKey tokenA tokenB) pool provider lpAmount left) :
    PoolStep May engine left
  | swapped {engine left : TokenEngine} {tokenIn tokenOut trader : Bytes}
      {amountIn amountOut : UInt64} {pool : Pool}
      (swap : Swap engine tokenIn tokenOut trader amountIn amountOut pool left) : PoolStep May engine left

variable {May : Pool → Bytes → UInt64 → Prop} {engine left : TokenEngine} {pool : Pool}
  {key : Bytes} {Holds : Bytes → Pool → Prop} {provider : Bytes} {operation : Operation}

theorem PoolStep.alike
    (alike : Alike engine left) : PoolStep May engine left := .refused (.inl alike)

/-- A new pool is one step on the pools. -/
theorem createPool_step (May : Pool → Bytes → UInt64 → Prop) (engine : TokenEngine)
    (tokenA tokenB : Bytes) (feeBps : UInt64) :
    PoolStep May engine (createPool engine tokenA tokenB feeBps).2 := by
  have idle : PoolStep May engine engine := .alike (.refl engine)
  unfold createPool
  cases isOrdered : orderedPair tokenA tokenB with
  | none => exact idle
  | some pair =>
    obtain ⟨t0, t1⟩ := pair
    dsimp only
    split
    · exact idle
    rename_i listed
    simp only [Bool.or_eq_true, Option.isNone_iff_eq_none, not_or] at listed
    split
    · exact idle
    rename_i charged
    split
    · exact idle
    split
    · exact idle
    rename_i absent
    exact .created isOrdered (Option.isSome_iff_ne_none.mpr listed.1)
      (Option.isSome_iff_ne_none.mpr listed.2) (UInt64.not_le.mp charged)
      (Option.not_isSome_iff_eq_none.mp absent)

theorem inOrder_ne_zero (pool : Pool) (tokenA : Bytes) (amountA amountB : UInt64) (someA : amountA ≠ 0)
    (someB : amountB ≠ 0) :
    (pool.inOrder tokenA amountA amountB).1 ≠ 0 ∧ (pool.inOrder tokenA amountA amountB).2 ≠ 0 := by
  unfold Pool.inOrder
  split
  · exact ⟨someA, someB⟩
  · exact ⟨someB, someA⟩

/-- Adding liquidity is one step on the pools. -/
theorem addLiquidity_step (May : Pool → Bytes → UInt64 → Prop) (engine : TokenEngine)
    (tokenA tokenB provider : Bytes) (amountA amountB : UInt64)
    (outcome : Except String Unit × TokenEngine)
    (done : addLiquidity engine tokenA tokenB provider amountA amountB = some outcome) :
    PoolStep May engine outcome.2 := by
  obtain ⟨message, left, rfl, refused⟩ | ⟨pool, minted, left, rfl, someA, someB, deposit⟩ :=
    addLiquidity_cases engine tokenA tokenB provider amountA amountB outcome done
  · exact .refused refused
  · obtain ⟨some0, some1⟩ := inOrder_ne_zero pool tokenA amountA amountB someA someB
    exact .added some0 some1 deposit

/-- Removing liquidity is one step on the pools. -/
theorem removeLiquidity_step (May : Pool → Bytes → UInt64 → Prop) (engine : TokenEngine)
    (tokenA tokenB provider : Bytes) (lpAmount : UInt64)
    (may : ∀ pool, engine.pools.lookup (poolKey tokenA tokenB) = some pool → May pool provider lpAmount) :
    PoolStep May engine (removeLiquidity engine tokenA tokenB provider lpAmount).2 := by
  obtain ⟨message, left, called, refused⟩ | ⟨pool, left, called, -, removal⟩ :=
    removeLiquidity_cases engine tokenA tokenB provider lpAmount
  · exact called ▸ .refused refused
  · exact called ▸ .removed (may pool removal.found) removal

/-- A swap is one step on the pools. -/
theorem swapExactIn_step (May : Pool → Bytes → UInt64 → Prop) (engine : TokenEngine)
    (tokenIn tokenOut trader : Bytes) (amountIn minOut : UInt64) :
    PoolStep May engine (swapExactIn engine tokenIn tokenOut trader amountIn minOut).2 := by
  obtain ⟨message, left, called, alike⟩ | ⟨amountOut, pool, left, called, -, swap⟩ :=
    swapExactIn_cases engine tokenIn tokenOut trader amountIn minOut
  · exact called ▸ .alike alike
  · exact called ▸ .swapped swap

theorem Hops.steps {trader : Bytes} {minOut running amountOut : UInt64} {route : List Bytes}
    (May : Pool → Bytes → UInt64 → Prop)
    (hops : Hops trader minOut engine route running amountOut left) :
    Relation.ReflTransGen (PoolStep May) engine left := by
  induction hops with
  | last => exact .refl
  | hop swap wanted others ih => exact .head (.swapped swap) ih

/-- A route is several of them. -/
theorem swapRouteExactIn_steps (May : Pool → Bytes → UInt64 → Prop) (engine : TokenEngine)
    (route : List Bytes) (trader : Bytes) (amountIn minOut : UInt64) :
    Relation.ReflTransGen (PoolStep May) engine
      (swapRouteExactIn engine route trader amountIn minOut).2 := by
  obtain ⟨message, left, called, alike⟩ | ⟨amountOut, seen, left, called, -, alike, hops⟩ :=
    swapRouteExactIn_cases engine route trader amountIn minOut
  · exact called ▸ .single (.alike alike)
  · exact called ▸ .head (.alike alike) (hops.steps May)

theorem gap_fresh (engine : TokenEngine) (t0 t1 symbol : Bytes) (feeBps : UInt64)
    (absent : engine.pools.lookup (poolKey t0 t1) = none) :
    (engine.setPool (poolKey t0 t1) (.fresh t0 t1 feeBps)).gap symbol = engine.gap symbol := by
  have exchanged := measure_insert (fun _ (pool : Pool) => pool.reserveOf symbol) engine.pools
    (poolKey t0 t1) (.fresh t0 t1 feeBps)
  rw [weightAt_none _ _ _ absent] at exchanged
  have empty : (Pool.fresh t0 t1 feeBps).reserveOf symbol = 0 := by
    simp [Pool.reserveOf, Pool.fresh]
  unfold TokenEngine.gap TokenEngine.pooled
  rw [token_setPool]
  change _ + ((measure (fun _ (pool : Pool) => pool.reserveOf symbol)
    (engine.pools.insert (poolKey t0 t1) (.fresh t0 t1 feeBps)) : Nat) : Int) - _ = _
  omega

/-- A pool lies under the name of its ordered pair, and its shares add up. -/
structure PoolPaired (key : Bytes) (pool : Pool) : Prop where
  ordered : orderedPair pool.token0 pool.token1 = some (pool.token0, pool.token1)
  named : key = poolKey pool.token0 pool.token1
  shared : total pool.lpBalances = pool.lpTotalSupply.toNat

theorem PoolPaired.pair {a b : Bytes} (paired : PoolPaired (poolKey a b) pool) :
    pool.token0 ≠ pool.token1 ∧
      (a = pool.token0 ∧ b = pool.token1 ∨ a = pool.token1 ∧ b = pool.token0) :=
  pool_pair paired.ordered paired.named

theorem PoolPaired.within (paired : PoolPaired key pool) (provider : Bytes)
    (lpAmount : UInt64) (rich : lpAmount ≤ amountAt pool.lpBalances provider) :
    lpAmount ≤ pool.lpTotalSupply := by
  have below := amount_le_total pool.lpBalances provider
  have least := UInt64.le_iff_toNat_le.mp rich
  rw [UInt64.le_iff_toNat_le, ← paired.shared]
  omega

theorem shareOf_le (reserve lpAmount lpTotalSupply : UInt64) (within : lpAmount ≤ lpTotalSupply) :
    shareOf reserve lpAmount lpTotalSupply ≤ reserve := by
  have least := UInt64.le_iff_toNat_le.mp within
  unfold shareOf
  rw [UInt64.le_iff_toNat_le, UInt64.toNat_div, UInt64.toNat_mul]
  apply Nat.div_le_of_le_mul
  calc reserve.toNat * lpAmount.toNat % 2 ^ 64 ≤ reserve.toNat * lpAmount.toNat := Nat.mod_le _ _
    _ ≤ reserve.toNat * lpTotalSupply.toNat := Nat.mul_le_mul_left _ least
    _ = lpTotalSupply.toNat * reserve.toNat := Nat.mul_comm _ _

/-- No step on pools loses or finds a coin. -/
theorem PoolStep.gap (step : PoolStep May engine left)
    (paired : ∀ key pool, engine.pools.lookup key = some pool → PoolPaired key pool) (symbol : Bytes) :
    left.gap symbol = engine.gap symbol := by
  cases step with
  | refused refused => exact refused.gap symbol
  | created isOrdered exists0 exists1 charged absent => exact gap_fresh engine _ _ symbol _ absent
  | added some0 some1 deposit => exact deposit.gap (paired _ _ deposit.found).pair.1 symbol
  | removed may removal =>
    have before := paired _ _ removal.found
    have within := before.within _ _ removal.rich
    exact removal.gap before.pair.1 (shareOf_le _ _ _ within) (shareOf_le _ _ _ within) symbol
  | swapped swap =>
    have before := paired _ _ swap.found
    exact swap.gap before.ordered before.named symbol

/-- No step on pools changes anything of a token but balances. -/
theorem PoolStep.kept (step : PoolStep May engine left) : Kept engine left := by
  cases step with
  | refused refused => exact refused.kept
  | created isOrdered exists0 exists1 charged absent =>
    exact (Alike.refl engine).kept.setPool _ _
  | added some0 some1 deposit => exact deposit.kept
  | removed may removal => exact removal.kept
  | swapped swap => exact swap.kept

/-- A pool put into the place of another keeps what holds of all pools. -/
theorem pools_replaced {pools left : Table Bytes Pool}
    (replaced : left = pools.insert key pool) (new : Holds key pool)
    (holds : ∀ key pool, pools.lookup key = some pool → Holds key pool) :
    ∀ key pool, left.lookup key = some pool → Holds key pool := by
  intro tested other listed
  rw [replaced, lookup_insert] at listed
  split at listed
  · rename_i same
    cases Option.some.inj listed
    exact same ▸ new
  · exact holds tested other listed

theorem Refused.pools (refused : Refused engine left) :
    left.pools = engine.pools ∨ ∃ key pool user, engine.pools.lookup key = some pool ∧
      left.pools = engine.pools.insert key (pool.touch user) := by
  obtain alike | ⟨seen, key, pool, user, alike, found, rfl⟩ := refused
  · exact .inl alike.pools
  · refine .inr ⟨key, pool, user, found, ?_⟩
    rw [← alike.pools]
    rfl

/-- A property of pools that every step keeps. -/
structure PoolRule (May : Pool → Bytes → UInt64 → Prop) (Holds : Bytes → Pool → Prop) : Prop where
  fresh : ∀ tokenA tokenB t0 t1 feeBps, orderedPair tokenA tokenB = some (t0, t1) → feeBps < 10000 →
    Holds (poolKey t0 t1) (.fresh t0 t1 feeBps)
  touch : ∀ key pool user, Holds key pool → Holds key (pool.touch user)
  added : ∀ {engine left tokenA tokenB provider pool add0 add1 minted},
    Holds (poolKey tokenA tokenB) pool → add0 ≠ 0 → add1 ≠ 0 →
    Deposit engine (poolKey tokenA tokenB) pool provider add0 add1 minted left →
      Holds (poolKey tokenA tokenB) (pool.added provider add0 add1 minted)
  removed : ∀ {engine left tokenA tokenB provider pool lpAmount},
    Holds (poolKey tokenA tokenB) pool → May pool provider lpAmount →
    Removal engine (poolKey tokenA tokenB) pool provider lpAmount left →
      Holds (poolKey tokenA tokenB) (pool.removed provider lpAmount)
  swapped : ∀ {engine left tokenIn tokenOut trader pool amountIn amountOut},
    Holds (poolKey tokenIn tokenOut) pool →
    Swap engine tokenIn tokenOut trader amountIn amountOut pool left →
      Holds (poolKey tokenIn tokenOut) (pool.swapped tokenIn amountIn amountOut)

/-- A rule that every step keeps holds of all pools after it. -/
theorem PoolRule.step (rule : PoolRule May Holds) (step : PoolStep May engine left)
    (holds : ∀ key pool, engine.pools.lookup key = some pool → Holds key pool) :
    ∀ key pool, left.pools.lookup key = some pool → Holds key pool := by
  cases step with
  | refused refused =>
    obtain same | ⟨key, pool, user, found, replaced⟩ := refused.pools
    · exact same ▸ holds
    · exact pools_replaced replaced (rule.touch key pool user (holds key pool found)) holds
  | created isOrdered exists0 exists1 charged absent =>
    exact pools_replaced rfl (rule.fresh _ _ _ _ _ isOrdered charged) holds
  | added some0 some1 deposit =>
    exact pools_replaced deposit.pools (rule.added (holds _ _ deposit.found) some0 some1 deposit) holds
  | removed may removal =>
    exact pools_replaced removal.pools (rule.removed (holds _ _ removal.found) may removal) holds
  | swapped swap =>
    exact pools_replaced swap.pools (rule.swapped (holds _ _ swap.found) swap) holds

theorem PoolPaired.fresh {tokenA tokenB t0 t1 : Bytes} (feeBps : UInt64)
    (isOrdered : orderedPair tokenA tokenB = some (t0, t1)) :
    PoolPaired (poolKey t0 t1) (.fresh t0 t1 feeBps) :=
  ⟨orderedPair_again tokenA tokenB t0 t1 isOrdered, rfl, rfl⟩

theorem PoolPaired.touch (paired : PoolPaired key pool) (user : Bytes) :
    PoolPaired key (pool.touch user) :=
  ⟨paired.ordered, paired.named, (total_touched pool.lpBalances user).trans paired.shared⟩

theorem PoolPaired.added (paired : PoolPaired key pool) {add0 add1 minted : UInt64}
    (deposit : Deposit engine key pool provider add0 add1 minted left) :
    PoolPaired key (pool.added provider add0 add1 minted) := by
  have more := total_credited pool.lpBalances provider minted deposit.roomShares
  refine ⟨paired.ordered, paired.named, more.trans ?_⟩
  rw [paired.shared]
  exact (toNat_add_of_not_overflows _ _ deposit.roomSupply).symm

theorem PoolPaired.removed (paired : PoolPaired key pool) {lpAmount : UInt64}
    (removal : Removal engine key pool provider lpAmount left) :
    PoolPaired key (pool.removed provider lpAmount) := by
  have fewer := total_debited pool.lpBalances provider lpAmount removal.rich
  have rest := UInt64.toNat_sub_of_le _ _ (paired.within provider lpAmount removal.rich)
  have before := paired.shared
  refine ⟨paired.ordered, paired.named, ?_⟩
  change total (pool.lpBalances.insert provider (amountAt pool.lpBalances provider - lpAmount)) =
    (pool.lpTotalSupply - lpAmount).toNat
  omega

theorem PoolPaired.swapped (paired : PoolPaired key pool) (tokenIn : Bytes)
    (amountIn amountOut : UInt64) : PoolPaired key (pool.swapped tokenIn amountIn amountOut) := by
  unfold Pool.swapped
  split
  · exact ⟨paired.ordered, paired.named, paired.shared⟩
  · exact ⟨paired.ordered, paired.named, paired.shared⟩

/-! ### Runs -/

/-- A removal in a call may be made. -/
def Allowed (May : Pool → Bytes → UInt64 → Prop) (engine : TokenEngine) : Operation → Prop
  | .removeLiquidity tokenA tokenB provider lpAmount =>
    ∀ pool, engine.pools.lookup (poolKey tokenA tokenB) = some pool → May pool provider lpAmount
  | _ => True

theorem onToken_pools (engine : TokenEngine) (symbol : Bytes)
    (call : Token → Except String Unit × Token) :
    (onToken engine symbol call).2.pools = engine.pools := by
  unfold onToken
  cases engine.tokens.lookup symbol with
  | none => rfl
  | some token => rfl

theorem createTokenEx_pools (engine : TokenEngine) (symbol name owner : Bytes)
    (maxSupply initialMint : UInt64) (decimals : UInt32) (burnable : Bool) (devWallet : Bytes)
    (devAllocation : UInt64) :
    (createTokenEx engine symbol name owner maxSupply initialMint decimals burnable devWallet
      devAllocation).2.pools = engine.pools := by
  unfold createTokenEx
  split
  · rfl
  · split <;> rfl

/-- A call leaves the pools, or it is some steps on them. -/
theorem perform_pools (May : Pool → Bytes → UInt64 → Prop) (engine left : TokenEngine)
    (operation : Operation) (allowed : Allowed May engine operation)
    (done : perform engine operation = some left) :
    left.pools = engine.pools ∨ Relation.ReflTransGen (PoolStep May) engine left := by
  cases operation with
  | createToken symbol owner maxSupply initialMint =>
    exact .inl (Option.some.inj done ▸
      createTokenEx_pools engine symbol symbol owner maxSupply initialMint 18 false [] 0)
  | createTokenEx symbol name owner maxSupply initialMint decimals burnable devWallet devAllocation =>
    exact .inl (Option.some.inj done ▸ createTokenEx_pools engine symbol name owner maxSupply
      initialMint decimals burnable devWallet devAllocation)
  | mint => exact .inl (Option.some.inj done ▸ onToken_pools engine _ _)
  | transfer => exact .inl (Option.some.inj done ▸ onToken_pools engine _ _)
  | burn => exact .inl (Option.some.inj done ▸ onToken_pools engine _ _)
  | setPolicy => exact .inl (Option.some.inj done ▸ onToken_pools engine _ _)
  | setBlacklist => exact .inl (Option.some.inj done ▸ onToken_pools engine _ _)
  | setFeeExempt => exact .inl (Option.some.inj done ▸ onToken_pools engine _ _)
  | setLimits => exact .inl (Option.some.inj done ▸ onToken_pools engine _ _)
  | createPool tokenA tokenB feeBps =>
    exact .inr (Option.some.inj done ▸ .single (createPool_step May engine tokenA tokenB feeBps))
  | addLiquidity tokenA tokenB provider amountA amountB =>
    obtain ⟨outcome, returned, rfl⟩ := Option.map_eq_some_iff.mp done
    exact .inr (.single
      (addLiquidity_step May engine tokenA tokenB provider amountA amountB outcome returned))
  | removeLiquidity tokenA tokenB provider lpAmount =>
    exact .inr (Option.some.inj done ▸ .single
      (removeLiquidity_step May engine tokenA tokenB provider lpAmount allowed))
  | swapExactIn tokenIn tokenOut trader amountIn minOut =>
    exact .inr (Option.some.inj done ▸ .single
      (swapExactIn_step May engine tokenIn tokenOut trader amountIn minOut))
  | swapRouteExactIn route trader amountIn minOut =>
    exact .inr (Option.some.inj done ▸ swapRouteExactIn_steps May engine route trader amountIn minOut)

/-- What every step on pools keeps, every call keeps. -/
theorem PoolRule.perform (rule : PoolRule May Holds)
    (allowed : Allowed May engine operation) (done : perform engine operation = some left)
    (holds : ∀ key pool, engine.pools.lookup key = some pool → Holds key pool) :
    ∀ key pool, left.pools.lookup key = some pool → Holds key pool := by
  obtain same | steps := perform_pools May engine left operation allowed done
  · exact same ▸ holds
  · clear done
    induction steps with
    | refl => exact holds
    | tail _ last ih => exact rule.step last ih

theorem performAll_cons (done : perform engine operation = some left) (rest : List Operation) :
    performAll engine (operation :: rest) = performAll left rest := by
  rw [performAll, done]
  rfl

end Tokens

end Addition
