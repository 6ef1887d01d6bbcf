import Addition.PoolSteps

/-!
# Conservation along runs of the token engine

For every symbol the balances and the reserves together are the supply; this includes the
symbols of tokens that do not exist, which have no reserves. Coins that a call moves are
counted as a gap that its later steps close. A pool is empty in its shares exactly when it
is empty in both reserves, as long as nobody takes out all of its shares while the product
with a reserve leaves the word.
-/

namespace Addition

namespace Tokens

open ByteStrings Checked FiniteTables Amounts

/-! ### Sound engines -/

/-- A pool lies under the name of its ordered pair, its shares add up, and it is empty in
everything or in nothing. -/
structure PoolSound (key : Bytes) (pool : Pool) : Prop where
  ordered : orderedPair pool.token0 pool.token1 = some (pool.token0, pool.token1)
  named : key = poolKey pool.token0 pool.token1
  shared : total pool.lpBalances = pool.lpTotalSupply.toNat
  filled : (pool.lpTotalSupply = 0 ∧ pool.reserve0 = 0 ∧ pool.reserve1 = 0) ∨
    (pool.lpTotalSupply ≠ 0 ∧ pool.reserve0 ≠ 0 ∧ pool.reserve1 ≠ 0)

/-- What holds of an engine that no transfer to itself has met. -/
structure Sound (engine : TokenEngine) : Prop where
  even : ∀ symbol, engine.gap symbol = 0
  capped : ∀ symbol, (engine.token symbol).totalSupply ≤ (engine.token symbol).maxSupply
  pools : ∀ key pool, engine.pools.lookup key = some pool → PoolSound key pool

/-- The engine without tokens is sound. -/
theorem Sound.initial : Sound .initial :=
  ⟨fun _ => rfl, fun _ => UInt64.le_refl _, fun _ _ found => absurd found (by simp [TokenEngine.initial])⟩

variable {engine : TokenEngine} {key : Bytes} {left : TokenEngine} {provider : Bytes}

theorem Sound.backed (sound : Sound engine) (symbol : Bytes) :
    (engine.token symbol).held ≤ (engine.token symbol).totalSupply.toNat := by
  have even := sound.even symbol
  unfold TokenEngine.gap at even
  omega

theorem Sound.setToken (sound : Sound engine) (symbol : Bytes) (token : Token)
    (balances : (engine.token symbol).Balances token) : Sound (engine.setToken symbol token) := by
  constructor
  · intro tested
    rw [gap_balances engine symbol tested token balances]
    exact sound.even tested
  · intro tested
    rw [token_setToken]
    split
    · exact balances.capped (sound.capped symbol)
    · exact sound.capped tested
  · exact sound.pools

/-- A call on one token. -/
theorem Sound.onToken (sound : Sound engine) (symbol : Bytes)
    (call : Token → Except String Unit × Token)
    (balances : ∀ token, engine.tokens.lookup symbol = some token →
      token.held ≤ token.totalSupply.toNat → token.Balances (call token).2) :
    Sound (onToken engine symbol call).2 := by
  unfold Tokens.onToken
  cases found : engine.tokens.lookup symbol with
  | none => exact sound
  | some token =>
    have current : engine.token symbol = token := by
      unfold TokenEngine.token
      rw [found]
      rfl
    apply sound.setToken
    rw [current]
    exact balances token found (current ▸ sound.backed symbol)

/-- A new token is sound. -/
theorem Sound.createTokenEx (sound : Sound engine) (symbol name owner : Bytes)
    (maxSupply initialMint : UInt64) (decimals : UInt32) (burnable : Bool) (devWallet : Bytes)
    (devAllocation : UInt64) :
    Sound (createTokenEx engine symbol name owner maxSupply initialMint decimals burnable devWallet
      devAllocation).2 := by
  unfold Tokens.createTokenEx
  cases checked : createChecks symbol name owner maxSupply initialMint decimals devWallet
      devAllocation with
  | error message => exact sound
  | ok passed =>
    simp only [createChecks, bind_ok, exists_unit, ensure_ok] at checked
    obtain ⟨-, -, -, -, -, -, room, within, -⟩ := checked
    dsimp only
    split
    · exact sound
    · rename_i fresh
      have missing : engine.token symbol = .empty := by
        unfold TokenEngine.token
        rw [Option.not_isSome_iff_eq_none.mp fresh]
        rfl
      apply sound.setToken
      rw [missing]
      constructor
      · have sums := newToken_sums owner maxSupply initialMint burnable devWallet devAllocation
          (by simpa using room)
        change _ + 0 = 0 + _
        omega
      · intro _
        obtain ⟨supply, bound⟩ := newToken_supply owner maxSupply initialMint burnable devWallet
          devAllocation
        rw [supply, bound]
        simpa using within

/-! ### Pools -/

variable {pool : Pool}

theorem PoolSound.paired (sound : PoolSound key pool) :
    PoolPaired key pool := ⟨sound.ordered, sound.named, sound.shared⟩

theorem PoolPaired.sound (paired : PoolPaired key pool)
    (filled : (pool.lpTotalSupply = 0 ∧ pool.reserve0 = 0 ∧ pool.reserve1 = 0) ∨
      (pool.lpTotalSupply ≠ 0 ∧ pool.reserve0 ≠ 0 ∧ pool.reserve1 ≠ 0)) : PoolSound key pool :=
  ⟨paired.ordered, paired.named, paired.shared, filled⟩

/-- Shares are never given for nothing. -/
theorem shares_ne_zero (pool : Pool) (add0 add1 minted : UInt64)
    (computed : pool.shares add0 add1 = some (.ok minted)) : minted ≠ 0 := by
  unfold Pool.shares at computed
  split at computed
  · unfold firstShares at computed
    split at computed
    · exact absurd computed (by simp)
    · obtain ⟨root, -, checked⟩ := Option.map_eq_some_iff.mp computed
      split at checked
      · exact absurd checked (by simp)
      · rename_i some
        exact Except.ok.inj checked ▸ some
  · have further := Option.some.inj computed
    simp only [furtherShares, bind_ok, exists_unit, ensure_ok, pure_ok] at further
    obtain ⟨-, -, -, some, rfl⟩ := further
    simpa using some

/-- A deposit keeps a pool sound. -/
theorem PoolSound.added (sound : PoolSound key pool)
    {add0 add1 minted : UInt64} (some0 : add0 ≠ 0) (some1 : add1 ≠ 0)
    (deposit : Deposit engine key pool provider add0 add1 minted left) :
    PoolSound key (pool.added provider add0 add1 minted) := by
  have some := shares_ne_zero pool add0 add1 minted deposit.computed
  have sum0 := toNat_add_of_not_overflows _ _ deposit.room0
  have sum1 := toNat_add_of_not_overflows _ _ deposit.room1
  have sumShares := toNat_add_of_not_overflows _ _ deposit.roomSupply
  have positive0 := positive_of_ne_zero some0
  have positive1 := positive_of_ne_zero some1
  have positive := positive_of_ne_zero some
  refine (sound.paired.added deposit).sound (.inr ⟨?_, ?_, ?_⟩)
  · exact ne_zero_of_positive (sumShares ▸ by omega)
  · exact ne_zero_of_positive (sum0 ▸ by omega)
  · exact ne_zero_of_positive (sum1 ▸ by omega)

/-- A removal that goes through, takes every share and leaves reserves behind. -/
def Pool.Strands (pool : Pool) (provider : Bytes) (lpAmount : UInt64) : Prop :=
  lpAmount = pool.lpTotalSupply ∧ lpAmount ≤ amountAt pool.lpBalances provider ∧
    shareOf pool.reserve0 lpAmount pool.lpTotalSupply ≠ 0 ∧
    shareOf pool.reserve1 lpAmount pool.lpTotalSupply ≠ 0 ∧
    ¬ (pool.reserve0.toNat * lpAmount.toNat < 2 ^ 64 ∧ pool.reserve1.toNat * lpAmount.toNat < 2 ^ 64)

/-- Shares are worth at most the reserve, less when shares remain, and all of it when the
product fits. -/
theorem shareOf_bounds (reserve lpAmount lpTotalSupply : UInt64) (within : lpAmount ≤ lpTotalSupply)
    (some : lpTotalSupply ≠ 0) :
    (shareOf reserve lpAmount lpTotalSupply).toNat ≤ reserve.toNat ∧
      (lpAmount ≠ lpTotalSupply → reserve ≠ 0 →
        (shareOf reserve lpAmount lpTotalSupply).toNat < reserve.toNat) ∧
      (lpAmount = lpTotalSupply → reserve.toNat * lpAmount.toNat < 2 ^ 64 →
        (shareOf reserve lpAmount lpTotalSupply).toNat = reserve.toNat) := by
  have positive := positive_of_ne_zero some
  have least := UInt64.le_iff_toNat_le.mp within
  have value : (shareOf reserve lpAmount lpTotalSupply).toNat =
      reserve.toNat * lpAmount.toNat % 2 ^ 64 / lpTotalSupply.toNat := by
    unfold shareOf
    rw [UInt64.toNat_div, UInt64.toNat_mul]
  have wrapped := Nat.mod_le (reserve.toNat * lpAmount.toNat) (2 ^ 64)
  refine ⟨UInt64.le_iff_toNat_le.mp (shareOf_le _ _ _ within), ?_⟩
  rw [value]
  constructor
  · intro different filled
    have less : lpAmount.toNat < lpTotalSupply.toNat :=
      Nat.lt_of_le_of_ne least (fun same => different (UInt64.toNat_inj.mp same))
    rw [Nat.div_lt_iff_lt_mul positive]
    exact lt_of_le_of_lt wrapped (Nat.mul_lt_mul_of_pos_left less (positive_of_ne_zero filled))
  · rintro rfl fits
    rw [Nat.mod_eq_of_lt fits]
    exact Nat.mul_div_cancel _ positive

/-- A removal that strands nothing keeps a pool sound. -/
theorem PoolSound.removed (sound : PoolSound key pool)
    {lpAmount : UInt64} (removal : Removal engine key pool provider lpAmount left)
    (keeps : ¬ pool.Strands provider lpAmount) : PoolSound key (pool.removed provider lpAmount) := by
  have rich := removal.rich
  have shared := removal.shared
  have within := sound.paired.within provider lpAmount rich
  obtain ⟨-, filled0, filled1⟩ := sound.filled.resolve_left (fun empty => shared empty.1)
  obtain ⟨most0, less0, whole0⟩ := shareOf_bounds pool.reserve0 lpAmount pool.lpTotalSupply within shared
  obtain ⟨most1, less1, whole1⟩ := shareOf_bounds pool.reserve1 lpAmount pool.lpTotalSupply within shared
  have left0 := UInt64.toNat_sub_of_le _ _ (UInt64.le_iff_toNat_le.mpr most0)
  have left1 := UInt64.toNat_sub_of_le _ _ (UInt64.le_iff_toNat_le.mpr most1)
  have leftShares := UInt64.toNat_sub_of_le _ _ within
  refine (sound.paired.removed removal).sound ?_
  by_cases all : lpAmount = pool.lpTotalSupply
  · have fits : pool.reserve0.toNat * lpAmount.toNat < 2 ^ 64 ∧
        pool.reserve1.toNat * lpAmount.toNat < 2 ^ 64 :=
      by_contra fun wide => keeps ⟨all, rich, removal.some0, removal.some1, wide⟩
    refine .inl ⟨?_, ?_, ?_⟩
    · change pool.lpTotalSupply - lpAmount = 0
      rw [all, UInt64.sub_self]
    · apply UInt64.toNat_inj.mp
      exact left0.trans (by rw [whole0 all fits.1]; simp)
    · apply UInt64.toNat_inj.mp
      exact left1.trans (by rw [whole1 all fits.2]; simp)
  · have remain : lpAmount.toNat ≠ pool.lpTotalSupply.toNat :=
      fun same => all (UInt64.toNat_inj.mp same)
    have more0 := less0 all filled0
    have more1 := less1 all filled1
    have most := UInt64.le_iff_toNat_le.mp within
    refine .inr ⟨?_, ?_, ?_⟩
    · exact ne_zero_of_positive (leftShares ▸ by omega)
    · exact ne_zero_of_positive (left0 ▸ by omega)
    · exact ne_zero_of_positive (left1 ▸ by omega)

/-- A swap empties neither reserve. -/
theorem PoolSound.swapped {tokenIn tokenOut : Bytes}
    (sound : PoolSound (poolKey tokenIn tokenOut) pool) (amountIn amountOut : UInt64)
    (room : ¬ overflows (pool.sides tokenIn).1 amountIn = true)
    (left : amountOut < (pool.sides tokenIn).2) :
    PoolSound (poolKey tokenIn tokenOut) (pool.swapped tokenIn amountIn amountOut) := by
  have more := toNat_add_of_not_overflows _ _ room
  have fewer := UInt64.toNat_sub_of_le _ _ (UInt64.le_of_lt left)
  have less := UInt64.lt_iff_toNat_lt.mp left
  have filled : pool.lpTotalSupply ≠ 0 ∧ pool.reserve0 ≠ 0 ∧ pool.reserve1 ≠ 0 := by
    apply sound.filled.resolve_left
    rintro ⟨-, empty0, empty1⟩
    unfold Pool.sides at less
    rw [empty0, empty1] at less
    split at less <;> exact absurd less (Nat.not_lt_zero _)
  have positive0 := positive_of_ne_zero filled.2.1
  have positive1 := positive_of_ne_zero filled.2.2
  refine (sound.paired.swapped tokenIn amountIn amountOut).sound (.inr ?_)
  unfold Pool.sides at more fewer less
  unfold Pool.swapped
  split
  · rename_i side
    rw [if_pos side] at more fewer less
    dsimp only at more fewer less
    exact ⟨filled.1, ne_zero_of_positive (more ▸ by omega), ne_zero_of_positive (fewer ▸ by omega)⟩
  · rename_i side
    rw [if_neg side] at more fewer less
    dsimp only at more fewer less
    exact ⟨filled.1, ne_zero_of_positive (fewer ▸ by omega), ne_zero_of_positive (more ▸ by omega)⟩

/-- A removal that does not strand its pool. -/
abbrev Keeps (pool : Pool) (provider : Bytes) (lpAmount : UInt64) : Prop :=
  ¬ pool.Strands provider lpAmount

theorem poolSound_rule : PoolRule Keeps PoolSound where
  fresh := fun _ _ _ _ feeBps isOrdered _ => (PoolPaired.fresh feeBps isOrdered).sound (.inl ⟨rfl, rfl, rfl⟩)
  touch := fun _ _ user sound => (sound.paired.touch user).sound sound.filled
  added := fun sound some0 some1 deposit => sound.added some0 some1 deposit
  removed := fun sound keeps removal => sound.removed removal keeps
  swapped := fun sound swap => sound.swapped _ _ swap.room swap.reserve

/-- A step on the pools keeps the engine sound. -/
theorem Sound.step (sound : Sound engine) (step : PoolStep Keeps engine left) : Sound left := by
  refine ⟨fun symbol => ?_, fun symbol => ?_, poolSound_rule.step step sound.pools⟩
  · rw [step.gap (fun key pool found => (sound.pools key pool found).paired)]
    exact sound.even symbol
  · obtain ⟨supply, bound⟩ := (step.kept.tokens symbol).supplies
    rw [supply, bound]
    exact sound.capped symbol

theorem Sound.steps (sound : Sound engine)
    (steps : Relation.ReflTransGen (PoolStep Keeps) engine left) : Sound left := by
  induction steps with
  | refl => exact sound
  | tail _ last ih => exact ih.step last

/-! ### Runs -/

/-- A call that neither takes a fee for nobody nor leaves reserves without shares. -/
def Careful (engine : TokenEngine) : Operation → Prop
  | .transfer symbol sender recipient amount =>
    ∀ token, engine.tokens.lookup symbol = some token → ¬ token.Leaks sender recipient amount
  | .removeLiquidity tokenA tokenB provider lpAmount =>
    ∀ pool, engine.pools.lookup (poolKey tokenA tokenB) = some pool →
      ¬ pool.Strands provider lpAmount
  | _ => True

/-- A careful operation keeps the engine sound. -/
theorem Sound.perform (sound : Sound engine) (operation : Operation)
    (careful : Careful engine operation) (left : TokenEngine)
    (done : perform engine operation = some left) : Sound left := by
  cases operation with
  | createToken symbol owner maxSupply initialMint =>
    exact Option.some.inj done ▸ sound.createTokenEx symbol symbol owner maxSupply initialMint 18 false [] 0
  | createTokenEx symbol name owner maxSupply initialMint decimals burnable devWallet devAllocation =>
    exact Option.some.inj done ▸ sound.createTokenEx symbol name owner maxSupply initialMint decimals
      burnable devWallet devAllocation
  | mint symbol caller recipient amount =>
    exact Option.some.inj done ▸ sound.onToken symbol _
      (fun token _ _ => mint_balances token caller recipient amount)
  | transfer symbol sender recipient amount =>
    exact Option.some.inj done ▸ sound.onToken symbol _
      (fun token found backed => transfer_balances token sender recipient amount backed
        (careful token found))
  | burn symbol sender amount =>
    exact Option.some.inj done ▸ sound.onToken symbol _
      (fun token _ backed => burn_balances token sender amount backed)
  | setPolicy symbol caller treasuryWallet transferFeeBps burnFeeBps paused =>
    exact Option.some.inj done ▸ sound.onToken symbol _
      (fun token _ _ => set_balances token caller _ _ _ (fun _ => .same (fun _ => rfl) rfl rfl))
  | setBlacklist symbol caller wallet blocked =>
    exact Option.some.inj done ▸ sound.onToken symbol _
      (fun token _ _ => set_balances token caller _ _ _ (fun _ => .same (fun _ => rfl) rfl rfl))
  | setFeeExempt symbol caller wallet exempt =>
    exact Option.some.inj done ▸ sound.onToken symbol _
      (fun token _ _ => set_balances token caller _ _ _ (fun _ => .same (fun _ => rfl) rfl rfl))
  | setLimits symbol caller maxTxAmount maxWalletAmount =>
    exact Option.some.inj done ▸ sound.onToken symbol _
      (fun token _ _ => set_balances token caller _ _ _ (fun _ => .same (fun _ => rfl) rfl rfl))
  | createPool tokenA tokenB feeBps =>
    exact Option.some.inj done ▸ sound.step (createPool_step Keeps engine tokenA tokenB feeBps)
  | addLiquidity tokenA tokenB provider amountA amountB =>
    obtain ⟨outcome, returned, rfl⟩ := Option.map_eq_some_iff.mp done
    exact sound.step
      (addLiquidity_step Keeps engine tokenA tokenB provider amountA amountB outcome returned)
  | removeLiquidity tokenA tokenB provider lpAmount =>
    exact Option.some.inj done ▸ sound.step
      (removeLiquidity_step Keeps engine tokenA tokenB provider lpAmount careful)
  | swapExactIn tokenIn tokenOut trader amountIn minOut =>
    exact Option.some.inj done ▸ sound.step
      (swapExactIn_step Keeps engine tokenIn tokenOut trader amountIn minOut)
  | swapRouteExactIn route trader amountIn minOut =>
    exact Option.some.inj done ▸ sound.steps
      (swapRouteExactIn_steps Keeps engine route trader amountIn minOut)

/-- The engines that runs of careful calls reach; a call that does not return leaves none. -/
inductive Reached : TokenEngine → Prop
  | initial : Reached .initial
  | step {engine left : TokenEngine} (operation : Operation) (reached : Reached engine)
      (careful : Careful engine operation) (done : perform engine operation = some left) : Reached left

/-- Every engine of careful operations is sound. -/
theorem Reached.sound (reached : Reached engine) : Sound engine := by
  induction reached with
  | initial => exact .initial
  | step operation reached careful done ih =>
    exact ih.perform operation careful _ done

/-- What the engine promises: the coins of a token are its supply, which is not above its
bound, and a pool has shares exactly when it has reserves. -/
def Conserved (engine : TokenEngine) : Prop :=
  (∀ symbol token, engine.tokens.lookup symbol = some token →
    token.held + engine.pooled symbol = token.totalSupply.toNat ∧
      token.totalSupply ≤ token.maxSupply) ∧
  ∀ key pool, engine.pools.lookup key = some pool →
    total pool.lpBalances = pool.lpTotalSupply.toNat ∧
      (pool.lpTotalSupply = 0 ↔ pool.reserve0 = 0 ∧ pool.reserve1 = 0)

/-- In every run of careful calls the coins of every token are its supply. -/
theorem coins_conserved (engine : TokenEngine) (reached : Reached engine) : Conserved engine := by
  have sound := reached.sound
  constructor
  · intro symbol token found
    have current : engine.token symbol = token := by
      unfold TokenEngine.token
      rw [found]
      rfl
    have even := sound.even symbol
    have capped := sound.capped symbol
    unfold TokenEngine.gap at even
    rw [current] at even capped
    exact ⟨by omega, capped⟩
  · intro key pool found
    have poolSound := sound.pools key pool found
    refine ⟨poolSound.shared, ?_⟩
    obtain ⟨shares, empty0, empty1⟩ | ⟨shares, filled0, -⟩ := poolSound.filled
    · exact ⟨fun _ => ⟨empty0, empty1⟩, fun _ => shares⟩
    · exact ⟨fun none => absurd none shares, fun none => absurd none.1 filled0⟩

/-- A transfer of one hundred coins that pays its fee of one to a treasury. -/
def fairEngine : TokenEngine :=
  (transfer (setPolicy (createToken .initial (ascii "A") (ascii "owner") 1000 1000).2 (ascii "A")
    (ascii "owner") (ascii "treasury") 100 0 false).2 (ascii "A") (ascii "owner") (ascii "user") 100).2

theorem fair_reached : Reached fairEngine := by
  have created := Reached.initial.step (.createToken (ascii "A") (ascii "owner") 1000 1000) trivial rfl
  have governed := created.step
    (.setPolicy (ascii "A") (ascii "owner") (ascii "treasury") 100 0 false) trivial rfl
  refine governed.step (.transfer (ascii "A") (ascii "owner") (ascii "user") 100) ?_ rfl
  rintro token found ⟨transferFee, burnFee, -, -, nobody, -⟩
  have treasury : ((setPolicy (createToken .initial (ascii "A") (ascii "owner") 1000 1000).2
      (ascii "A") (ascii "owner") (ascii "treasury") 100 0 false).2.tokens.lookup (ascii "A")).map
        Token.treasuryWallet = some (ascii "treasury") := by decide
  rw [found, Option.map_some, nobody] at treasury
  exact absurd treasury (by decide)

/-- A transfer with fees keeps every coin. -/
theorem fair_transfer_conserved :
    Conserved fairEngine ∧
      (fairEngine.tokens.lookup (ascii "A")).map (fun token =>
        (token.balance (ascii "owner"), token.balance (ascii "user"), token.balance (ascii "treasury"))) =
          some (900, 99, 1) :=
  ⟨coins_conserved fairEngine fair_reached, by decide⟩

/-- Without a treasury the fee is taken from the sender and given to nobody. -/
def untreasured : List Operation :=
  [.createToken (ascii "A") (ascii "owner") 1000 1000,
    .setPolicy (ascii "A") (ascii "owner") [] 100 0 false,
    .transfer (ascii "A") (ascii "owner") (ascii "user") 100]

/-- The only provider takes all shares, and the product of a reserve with them wraps. -/
def stranded : List Operation :=
  [.createToken (ascii "A") (ascii "owner") 9000000000 9000000000,
    .createToken (ascii "B") (ascii "owner") 1000000000 1000000000,
    .createPool (ascii "A") (ascii "B") 0,
    .addLiquidity (ascii "A") (ascii "B") (ascii "owner") 9000000000 1000000000,
    .removeLiquidity (ascii "A") (ascii "B") (ascii "owner") 3000000000]

set_option maxRecDepth 100000 in
/-- Two runs lose coins: a fee without a treasury, and reserves that are stranded. -/
theorem coins_lost :
    (∃ engine, performAll .initial untreasured = some engine ∧ ¬ Conserved engine) ∧
      ∃ engine, performAll .initial stranded = some engine ∧ ¬ Conserved engine := by
  constructor
  · have reading : (performAll .initial untreasured).bind (fun engine =>
        (engine.tokens.lookup (ascii "A")).map (fun token =>
          (token.held + engine.pooled (ascii "A"), token.totalSupply.toNat))) = some (999, 1000) := by
      decide +kernel
    obtain ⟨engine, ran, read⟩ := Option.bind_eq_some_iff.mp reading
    obtain ⟨token, found, values⟩ := Option.map_eq_some_iff.mp read
    refine ⟨engine, ran, fun conserved => ?_⟩
    have even := (conserved.1 _ token found).1
    rw [Prod.mk.injEq] at values
    omega
  · have reading : (performAll .initial stranded).bind (fun engine =>
        (engine.pools.lookup (poolKey (ascii "A") (ascii "B"))).map (fun pool =>
          (pool.lpTotalSupply, pool.reserve0))) = some (0, 6148914692) := by
      decide +kernel
    obtain ⟨engine, ran, read⟩ := Option.bind_eq_some_iff.mp reading
    obtain ⟨pool, found, values⟩ := Option.map_eq_some_iff.mp read
    refine ⟨engine, ran, fun conserved => ?_⟩
    rw [Prod.mk.injEq] at values
    have empty := ((conserved.2 _ pool found).2.mp values.1).1
    exact absurd (values.2.symm.trans empty) (by decide)

end Tokens

end Addition
