import Addition.TokenRuns

/-!
# What every run of the token engine keeps

Whatever is called, no coin is found: the balances and reserves of a token are at most its
supply, so that what a transfer burns is always covered. The two rates of a token are at most
a fifth, as the engine adds them. A pool lies under the name of its two tokens, which exist,
its shares add up, and its fee is less than the whole of an amount.
-/

namespace Addition

namespace Tokens

open ByteStrings Checked FiniteTables Amounts

/-- The engines that runs of calls reach; a call that does not return leaves none. -/
def Reachable (engine : TokenEngine) : Prop :=
  ∃ operations, performAll .initial operations = some engine

/-! ### Lawful engines -/

/-- A pool under its name, with a fee below the whole. -/
structure PoolLawful (key : Bytes) (pool : Pool) : Prop where
  paired : PoolPaired key pool
  charged : pool.feeBps < 10000

/-- What holds of every engine that is reached. -/
structure Lawful (engine : TokenEngine) : Prop where
  covered : ∀ symbol, engine.gap symbol ≤ 0
  governed : ∀ symbol,
    (engine.token symbol).transferFeeBps + (engine.token symbol).burnFeeBps ≤ 2000
  pools : ∀ key pool, engine.pools.lookup key = some pool → PoolLawful key pool
  listed : ∀ key pool, engine.pools.lookup key = some pool →
    (engine.tokens.lookup pool.token0).isSome = true ∧ (engine.tokens.lookup pool.token1).isSome = true

/-- The engine without tokens is lawful. -/
theorem Lawful.initial : Lawful .initial := by
  have nothing : ∀ key pool, TokenEngine.initial.pools.lookup key ≠ some pool := by
    intro key pool found
    exact absurd found (by simp [TokenEngine.initial])
  exact ⟨fun _ => le_refl _, fun _ => (by decide : (0 : UInt64) + 0 ≤ 2000), fun key pool found => absurd found (nothing key pool),
    fun key pool found => absurd found (nothing key pool)⟩

variable {engine : TokenEngine}

/-- Holdings are backed by the supply. -/
theorem Lawful.backed (lawful : Lawful engine) (symbol : Bytes) :
    (engine.token symbol).held ≤ (engine.token symbol).totalSupply.toNat := by
  have covered := lawful.covered symbol
  unfold TokenEngine.gap at covered
  omega

/-! ### Calls on a token -/

/-- What a call on one token keeps: no coin is found, and the rates stay or are checked. -/
structure Token.Keeps (token left : Token) : Prop where
  covers : left.held + token.totalSupply.toNat ≤ token.held + left.totalSupply.toNat
  governed : token.transferFeeBps + token.burnFeeBps ≤ 2000 →
    left.transferFeeBps + left.burnFeeBps ≤ 2000

theorem Token.Balances.keeps {token left : Token} (balances : token.Balances left)
    (transferRate : left.transferFeeBps = token.transferFeeBps)
    (burnRate : left.burnFeeBps = token.burnFeeBps) : token.Keeps left := by
  constructor
  · have even := balances.even
    omega
  · rw [transferRate, burnRate]
    exact id

theorem Lawful.setToken (lawful : Lawful engine) (symbol : Bytes) (token : Token)
    (keeps : (engine.token symbol).Keeps token) : Lawful (engine.setToken symbol token) := by
  refine ⟨fun tested => ?_, fun tested => ?_, lawful.pools, fun key pool found => ?_⟩
  · have covers := keeps.covers
    rw [gap_setToken engine symbol tested token ((token.held : Int) +
      (engine.token symbol).totalSupply.toNat - (engine.token symbol).held - token.totalSupply.toNat)
      (by omega)]
    have before := lawful.covered tested
    split <;> omega
  · rw [token_setToken]
    split
    · exact keeps.governed (lawful.governed symbol)
    · exact lawful.governed tested
  · obtain ⟨exists0, exists1⟩ := lawful.listed key pool found
    exact ⟨listed_setToken engine symbol _ token exists0, listed_setToken engine symbol _ token exists1⟩

theorem Lawful.onToken (lawful : Lawful engine) (symbol : Bytes)
    (call : Token → Except String Unit × Token)
    (keeps : ∀ token : Token, token.held ≤ token.totalSupply.toNat → token.Keeps (call token).2) :
    Lawful (onToken engine symbol call).2 := by
  unfold Tokens.onToken
  cases found : engine.tokens.lookup symbol with
  | none => exact lawful
  | some token =>
    have current : engine.token symbol = token := by
      unfold TokenEngine.token
      rw [found]
      rfl
    apply lawful.setToken
    rw [current]
    exact keeps token (current ▸ lawful.backed symbol)

theorem mint_keeps (token : Token) (caller recipient : Bytes) (amount : UInt64) :
    token.Keeps (token.mint caller recipient amount).2 := by
  refine (mint_balances token caller recipient amount).keeps ?_ ?_
  · unfold Token.mint
    split
    · rfl
    · split <;> rfl
  · unfold Token.mint
    split
    · rfl
    · split <;> rfl

theorem burn_keeps (token : Token) (sender : Bytes) (amount : UInt64)
    (backed : token.held ≤ token.totalSupply.toNat) : token.Keeps (token.burn sender amount).2 := by
  refine (burn_balances token sender amount backed).keeps ?_ ?_
  · unfold Token.burn
    split
    · rfl
    · split
      · rfl
      · split <;> rfl
  · unfold Token.burn
    split
    · rfl
    · split
      · rfl
      · split <;> rfl

/-- A fee that nobody gets is lost, not found. -/
theorem transfer_keeps (token : Token) (sender recipient : Bytes) (amount : UInt64)
    (backed : token.held ≤ token.totalSupply.toNat) :
    token.Keeps (token.transfer sender recipient amount).2 := by
  obtain ⟨message, left, called, alike⟩ | ⟨transferFee, burnFee, called, transferred⟩ :=
    transfer_cases token sender recipient amount backed
  · rw [called]
    refine alike.sums.keeps ?_ ?_
    · rw [alike.rest]
    · rw [alike.rest]
  · rw [called]
    have held := transferred.held
    have supply := transferred.supply.1
    dsimp only
    constructor
    · omega
    · unfold Token.settled
      dsimp only
      split
      · exact id
      · exact id

theorem set_keeps (token : Token) (caller : Bytes) (refusal : String) (check : Except String Unit)
    (change : Token → Token) (quiet : check = .ok () → token.Keeps (change token)) :
    token.Keeps (token.set caller refusal check change).2 := by
  unfold Token.set
  split
  · exact (Token.Balances.refl token).keeps rfl rfl
  · rename_i passed
    simp only [bind_ok, exists_unit] at passed
    exact quiet passed.2

/-- A new token is lawful. -/
theorem Lawful.createTokenEx (lawful : Lawful engine)
    (symbol name owner : Bytes) (maxSupply initialMint : UInt64) (decimals : UInt32) (burnable : Bool)
    (devWallet : Bytes) (devAllocation : UInt64) :
    Lawful (createTokenEx engine symbol name owner maxSupply initialMint decimals burnable devWallet
      devAllocation).2 := by
  unfold Tokens.createTokenEx
  cases checked : createChecks symbol name owner maxSupply initialMint decimals devWallet
      devAllocation with
  | error message => exact lawful
  | ok passed =>
    simp only [createChecks, bind_ok, exists_unit, ensure_ok] at checked
    obtain ⟨-, -, -, -, -, -, room, -⟩ := checked
    dsimp only
    split
    · exact lawful
    · rename_i fresh
      have missing : engine.token symbol = .empty := by
        unfold TokenEngine.token
        rw [Option.not_isSome_iff_eq_none.mp fresh]
        rfl
      apply lawful.setToken
      rw [missing]
      constructor
      · have sums := newToken_sums owner maxSupply initialMint burnable devWallet devAllocation
          (by simpa using room)
        change _ + 0 ≤ 0 + _
        omega
      · intro _
        unfold newToken
        dsimp only
        split <;> split <;> exact (by decide : (0 : UInt64) + 0 ≤ 2000)

/-! ### Calls on a pair -/

/-- Every removal may be made. -/
abbrev Always (_ : Pool) (_ : Bytes) (_ : UInt64) : Prop := True

theorem poolLawful_rule : PoolRule Always PoolLawful where
  fresh := fun _ _ _ _ feeBps isOrdered charged => ⟨.fresh feeBps isOrdered, charged⟩
  touch := fun _ _ user lawful => ⟨lawful.paired.touch user, lawful.charged⟩
  added := fun lawful _ _ deposit => ⟨lawful.paired.added deposit, lawful.charged⟩
  removed := fun lawful _ removal => ⟨lawful.paired.removed removal, lawful.charged⟩
  swapped := fun {_ _ tokenIn _ _ _ amountIn amountOut} lawful _ =>
    ⟨lawful.paired.swapped tokenIn amountIn amountOut, by
      unfold Pool.swapped
      split <;> exact lawful.charged⟩

/-- The tokens of a pool exist. -/
def TokenEngine.Exist (engine : TokenEngine) (_ : Bytes) (pool : Pool) : Prop :=
  (engine.tokens.lookup pool.token0).isSome = true ∧ (engine.tokens.lookup pool.token1).isSome = true

variable {left : TokenEngine}

theorem PoolStep.exist {May : Pool → Bytes → UInt64 → Prop} (step : PoolStep May engine left)
    (listed : ∀ key pool, engine.pools.lookup key = some pool → engine.Exist key pool) :
    ∀ key pool, left.pools.lookup key = some pool → left.Exist key pool := by
  have kept := step.kept
  have still : ∀ key pool, engine.pools.lookup key = some pool → left.Exist key pool := by
    intro key pool found
    exact ⟨kept.listed _ (listed key pool found).1, kept.listed _ (listed key pool found).2⟩
  cases step with
  | refused refused =>
    obtain same | ⟨key, pool, user, found, replaced⟩ := refused.pools
    · exact same ▸ still
    · exact pools_replaced replaced (still key pool found) still
  | created isOrdered exists0 exists1 charged absent =>
    exact pools_replaced rfl ⟨exists0, exists1⟩ still
  | added some0 some1 deposit =>
    have before := still _ _ deposit.found
    exact pools_replaced deposit.pools before still
  | removed may removal =>
    have before := still _ _ removal.found
    exact pools_replaced removal.pools before still
  | swapped swap =>
    refine pools_replaced swap.pools ?_ still
    have before := still _ _ swap.found
    unfold Pool.swapped
    split
    · exact before
    · exact before

/-- A step on the pools keeps the engine lawful. -/
theorem Lawful.step (lawful : Lawful engine)
    (step : PoolStep Always engine left) : Lawful left := by
  refine ⟨fun symbol => ?_, fun symbol => ?_, poolLawful_rule.step step lawful.pools,
    step.exist lawful.listed⟩
  · rw [step.gap (fun key pool found => (lawful.pools key pool found).paired)]
    exact lawful.covered symbol
  · rw [step.kept.tokens symbol]
    exact lawful.governed symbol

theorem Lawful.steps (lawful : Lawful engine)
    (steps : Relation.ReflTransGen (PoolStep Always) engine left) : Lawful left := by
  induction steps with
  | refl => exact lawful
  | tail _ last ih => exact ih.step last

/-! ### Runs -/

/-- Every operation keeps the engine lawful. -/
theorem Lawful.perform (lawful : Lawful engine) (operation : Operation)
    (left : TokenEngine) (done : perform engine operation = some left) : Lawful left := by
  cases operation with
  | createToken symbol owner maxSupply initialMint =>
    exact Option.some.inj done ▸
      lawful.createTokenEx symbol symbol owner maxSupply initialMint 18 false [] 0
  | createTokenEx symbol name owner maxSupply initialMint decimals burnable devWallet devAllocation =>
    exact Option.some.inj done ▸ lawful.createTokenEx symbol name owner maxSupply initialMint decimals
      burnable devWallet devAllocation
  | mint symbol caller recipient amount =>
    exact Option.some.inj done ▸ lawful.onToken symbol _
      (fun token _ => mint_keeps token caller recipient amount)
  | transfer symbol sender recipient amount =>
    exact Option.some.inj done ▸ lawful.onToken symbol _
      (fun token backed => transfer_keeps token sender recipient amount backed)
  | burn symbol sender amount =>
    exact Option.some.inj done ▸ lawful.onToken symbol _
      (fun token backed => burn_keeps token sender amount backed)
  | setPolicy symbol caller treasuryWallet transferFeeBps burnFeeBps paused =>
    refine Option.some.inj done ▸ lawful.onToken symbol _ (fun token _ => ?_)
    refine set_keeps token caller _ _ _ (fun checked => ⟨Nat.le_refl _, fun _ => ?_⟩)
    simpa using checked
  | setBlacklist symbol caller wallet blocked =>
    exact Option.some.inj done ▸ lawful.onToken symbol _
      (fun token _ => set_keeps token caller _ _ _ (fun _ => ⟨Nat.le_refl _, id⟩))
  | setFeeExempt symbol caller wallet exempt =>
    exact Option.some.inj done ▸ lawful.onToken symbol _
      (fun token _ => set_keeps token caller _ _ _ (fun _ => ⟨Nat.le_refl _, id⟩))
  | setLimits symbol caller maxTxAmount maxWalletAmount =>
    exact Option.some.inj done ▸ lawful.onToken symbol _
      (fun token _ => set_keeps token caller _ _ _ (fun _ => ⟨Nat.le_refl _, id⟩))
  | createPool tokenA tokenB feeBps =>
    exact Option.some.inj done ▸ lawful.step (createPool_step Always engine tokenA tokenB feeBps)
  | addLiquidity tokenA tokenB provider amountA amountB =>
    obtain ⟨outcome, returned, rfl⟩ := Option.map_eq_some_iff.mp done
    exact lawful.step
      (addLiquidity_step Always engine tokenA tokenB provider amountA amountB outcome returned)
  | removeLiquidity tokenA tokenB provider lpAmount =>
    exact Option.some.inj done ▸ lawful.step
      (removeLiquidity_step Always engine tokenA tokenB provider lpAmount (fun _ _ => trivial))
  | swapExactIn tokenIn tokenOut trader amountIn minOut =>
    exact Option.some.inj done ▸ lawful.step
      (swapExactIn_step Always engine tokenIn tokenOut trader amountIn minOut)
  | swapRouteExactIn route trader amountIn minOut =>
    exact Option.some.inj done ▸ lawful.steps
      (swapRouteExactIn_steps Always engine route trader amountIn minOut)

theorem Lawful.performAll (lawful : Lawful engine) (operations : List Operation)
    (left : TokenEngine) (done : performAll engine operations = some left) : Lawful left := by
  induction operations generalizing engine with
  | nil => exact Option.some.inj done ▸ lawful
  | cons operation rest ih =>
    obtain ⟨next, performed, later⟩ := Option.bind_eq_some_iff.mp done
    exact ih (lawful.perform operation next performed) later

/-- Every reachable engine is lawful. -/
theorem Reachable.lawful (reachable : Reachable engine) : Lawful engine := by
  obtain ⟨operations, ran⟩ := reachable
  exact Lawful.initial.performAll operations engine ran

end Tokens

end Addition
