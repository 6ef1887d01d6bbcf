import Addition.TokenSums

/-!
# What a call of the token engine leaves

A call on a pair that is refused leaves every amount and every pool but for empty entries;
one that goes through is described whole by the pool it found, the amounts it moved and the
engine it left. What a call does to the equation of a symbol, to the balances and to the
pools follows from these descriptions.
-/

namespace Addition

namespace Tokens

open ByteStrings Checked FiniteTables Amounts

/-! ### The equation of a symbol -/

/-- What a pool holds of a symbol. -/
def Pool.reserveOf (pool : Pool) (symbol : Bytes) : Nat :=
  (if symbol = pool.token0 then pool.reserve0.toNat else 0) +
    (if symbol = pool.token1 then pool.reserve1.toNat else 0)

/-- What all pools hold of a symbol. -/
def TokenEngine.pooled (engine : TokenEngine) (symbol : Bytes) : Nat :=
  measure (fun _ pool => pool.reserveOf symbol) engine.pools

/-- How far the balances and reserves are from the supply. -/
def TokenEngine.gap (engine : TokenEngine) (symbol : Bytes) : Int :=
  (engine.token symbol).held + engine.pooled symbol - (engine.token symbol).totalSupply.toNat

theorem balanceOf_eq (engine : TokenEngine) (symbol owner : Bytes) :
    balanceOf engine symbol owner = (engine.token symbol).balance owner := by
  unfold balanceOf TokenEngine.token
  cases engine.tokens.lookup symbol with
  | none => rfl
  | some token => rfl

theorem token_setToken (engine : TokenEngine) (symbol tested : Bytes) (token : Token) :
    (engine.setToken symbol token).token tested =
      if tested = symbol then token else engine.token tested := by
  unfold TokenEngine.token TokenEngine.setToken
  rw [lookup_insert]
  by_cases same : tested = symbol
  · rw [if_pos same, if_pos same]
    rfl
  · rw [if_neg same, if_neg same]

@[simp] theorem token_setToken_self (engine : TokenEngine) (symbol : Bytes) (token : Token) :
    (engine.setToken symbol token).token symbol = token := by
  rw [token_setToken, if_pos rfl]

theorem token_setToken_ne (engine : TokenEngine) (symbol tested : Bytes) (token : Token)
    (different : tested ≠ symbol) : (engine.setToken symbol token).token tested = engine.token tested := by
  rw [token_setToken, if_neg different]

@[simp] theorem pools_setToken (engine : TokenEngine) (symbol : Bytes) (token : Token) :
    (engine.setToken symbol token).pools = engine.pools := rfl

@[simp] theorem token_setPool (engine : TokenEngine) (key symbol : Bytes) (pool : Pool) :
    (engine.setPool key pool).token symbol = engine.token symbol := rfl

theorem lookup_setPool (engine : TokenEngine) (key tested : Bytes) (pool : Pool) :
    (engine.setPool key pool).pools.lookup tested =
      if tested = key then some pool else engine.pools.lookup tested :=
  lookup_insert engine.pools key tested pool

/-- The gap of a symbol follows the holdings and the supply of its token. -/
theorem gap_setToken (engine : TokenEngine) (symbol tested : Bytes) (token : Token) (moved : Int)
    (change : (token.held : Int) + (engine.token symbol).totalSupply.toNat =
      (engine.token symbol).held + token.totalSupply.toNat + moved) :
    (engine.setToken symbol token).gap tested =
      engine.gap tested + if tested = symbol then moved else 0 := by
  unfold TokenEngine.gap TokenEngine.pooled
  rw [token_setToken, pools_setToken]
  by_cases same : tested = symbol
  · subst same
    rw [if_pos rfl, if_pos rfl]
    omega
  · rw [if_neg same, if_neg same]
    omega

theorem gap_balances (engine : TokenEngine) (symbol tested : Bytes) (token : Token)
    (balances : (engine.token symbol).Balances token) :
    (engine.setToken symbol token).gap tested = engine.gap tested := by
  have even := balances.even
  rw [gap_setToken engine symbol tested token 0 (by omega)]
  simp

/-- `tokens_[symbol].balances[user] += amount`. -/
def TokenEngine.credit (engine : TokenEngine) (symbol user : Bytes) (amount : UInt64) : TokenEngine :=
  engine.setToken symbol ((engine.token symbol).credit user amount)

/-- `tokens_[symbol].balances[user] -= amount`. -/
def TokenEngine.debit (engine : TokenEngine) (symbol user : Bytes) (amount : UInt64) : TokenEngine :=
  engine.setToken symbol ((engine.token symbol).debit user amount)

/-- A credit opens the gap of its symbol by its amount. -/
theorem gap_credit (engine : TokenEngine) (symbol tested user : Bytes) (amount : UInt64)
    (room : ¬ overflows ((engine.token symbol).balance user) amount = true) :
    (engine.credit symbol user amount).gap tested =
      engine.gap tested + if tested = symbol then (amount.toNat : Int) else 0 := by
  apply gap_setToken
  rw [held_credit _ _ _ room]
  change ((_ + _ : Nat) : Int) + (engine.token symbol).totalSupply.toNat =
    (engine.token symbol).held + (engine.token symbol).totalSupply.toNat + amount.toNat
  omega

/-- A debit closes the gap of its symbol by its amount. -/
theorem gap_debit (engine : TokenEngine) (symbol tested user : Bytes) (amount : UInt64)
    (enough : amount ≤ (engine.token symbol).balance user) :
    (engine.debit symbol user amount).gap tested =
      engine.gap tested - if tested = symbol then (amount.toNat : Int) else 0 := by
  have less := held_debit (engine.token symbol) user amount enough
  unfold TokenEngine.debit
  rw [gap_setToken engine symbol tested _ (-amount.toNat)]
  · split <;> omega
  · change (((engine.token symbol).debit user amount).held : Int) +
      (engine.token symbol).totalSupply.toNat =
        (engine.token symbol).held + (engine.token symbol).totalSupply.toNat + -amount.toNat
    omega

/-- The gap follows the reserves of a pool. -/
theorem gap_setPool (engine : TokenEngine) (key tested : Bytes) (pool left : Pool)
    (found : engine.pools.lookup key = some pool) :
    (engine.setPool key left).gap tested =
      engine.gap tested + left.reserveOf tested - pool.reserveOf tested := by
  have exchanged := measure_insert_found (fun _ (pool : Pool) => pool.reserveOf tested)
    engine.pools key pool left found
  unfold TokenEngine.gap TokenEngine.pooled
  rw [token_setPool]
  change _ + ((measure (fun _ (pool : Pool) => pool.reserveOf tested)
    (engine.pools.insert key left) : Nat) : Int) - _ = _
  omega

/-! ### Engines with the same amounts -/

/-- The same engine but for empty entries among its balances. -/
structure Alike (engine left : TokenEngine) : Prop where
  tokens : ∀ symbol, (engine.token symbol).Alike (left.token symbol)
  listed : ∀ symbol, (engine.tokens.lookup symbol).isSome = true →
    (left.tokens.lookup symbol).isSome = true
  pools : left.pools = engine.pools

theorem Alike.refl (engine : TokenEngine) : Alike engine engine :=
  ⟨fun _ => .refl _, fun _ => id, rfl⟩

theorem listed_setToken (engine : TokenEngine) (symbol tested : Bytes) (token : Token)
    (listed : (engine.tokens.lookup tested).isSome = true) :
    ((engine.setToken symbol token).tokens.lookup tested).isSome = true := by
  unfold TokenEngine.setToken
  rw [lookup_insert]
  split
  · rfl
  · exact listed

variable {engine left : TokenEngine} {pool : Pool} {amountIn amountOut : UInt64}
  {tokenIn tokenOut trader : Bytes} {add0 add1 : UInt64} {key : Bytes} {minted : UInt64}
  {provider : Bytes} {lpAmount : UInt64}

theorem Alike.touch (alike : Alike engine left) (symbol user : Bytes) :
    Alike engine (left.setToken symbol ((left.token symbol).touch user)) := by
  refine ⟨fun tested => ?_, fun tested found => ?_, alike.pools⟩
  · rw [token_setToken]
    split
    · rename_i same
      rw [same]
      exact (alike.tokens symbol).trans (alike_touch _ user)
    · exact alike.tokens tested
  · exact listed_setToken left symbol tested _ (alike.listed tested found)

theorem alike_touchBoth (engine : TokenEngine) (pool : Pool) (user : Bytes) :
    Alike engine (engine.touchBoth pool user) :=
  ((Alike.refl engine).touch pool.token0 user).touch pool.token1 user

theorem Alike.balance (alike : Alike engine left) (symbol user : Bytes) :
    (left.token symbol).balance user = (engine.token symbol).balance user :=
  (alike.tokens symbol).balances user

/-- Engines that are alike have the same gaps. -/
theorem Alike.gap (alike : Alike engine left) (symbol : Bytes) :
    left.gap symbol = engine.gap symbol := by
  have even := (alike.tokens symbol).sums.even
  unfold TokenEngine.gap TokenEngine.pooled
  rw [alike.pools]
  omega

/-- The same tokens but for their balances. -/
structure Kept (engine left : TokenEngine) : Prop where
  tokens : ∀ symbol, (engine.token symbol).Moved (left.token symbol)
  listed : ∀ symbol, (engine.tokens.lookup symbol).isSome = true →
    (left.tokens.lookup symbol).isSome = true

theorem Alike.kept (alike : Alike engine left) : Kept engine left :=
  ⟨fun symbol => (alike.tokens symbol).rest, alike.listed⟩

/-- An engine with the same amounts but for one entry of shares that may be new. -/
def Refused (engine left : TokenEngine) : Prop :=
  Alike engine left ∨ ∃ seen key pool user, Alike engine seen ∧
    engine.pools.lookup key = some pool ∧ left = seen.setPool key (pool.touch user)

theorem gap_touchPool (engine : TokenEngine) (key symbol user : Bytes) (pool : Pool)
    (found : engine.pools.lookup key = some pool) :
    (engine.setPool key (pool.touch user)).gap symbol = engine.gap symbol := by
  rw [gap_setPool engine key symbol pool _ found]
  change engine.gap symbol + pool.reserveOf symbol - pool.reserveOf symbol = _
  omega

/-- A refused call moves no gap. -/
theorem Refused.gap (refused : Refused engine left) (symbol : Bytes) :
    left.gap symbol = engine.gap symbol := by
  obtain alike | ⟨seen, key, pool, user, alike, found, rfl⟩ := refused
  · exact alike.gap symbol
  · rw [gap_touchPool seen key symbol user pool (alike.pools ▸ found)]
    exact alike.gap symbol

theorem Refused.kept (refused : Refused engine left) :
    Kept engine left := by
  obtain alike | ⟨seen, key, pool, user, alike, -, rfl⟩ := refused
  · exact alike.kept
  · exact ⟨alike.kept.tokens, alike.kept.listed⟩

/-! ### Credits and debits -/

theorem Kept.setBalance (kept : Kept engine left) (symbol user : Bytes) (amount : UInt64) :
    Kept engine (left.setToken symbol ((left.token symbol).setBalance user amount)) := by
  refine ⟨fun tested => ?_, fun tested found => ?_⟩
  · rw [token_setToken]
    split
    · rename_i same
      rw [same]
      exact (kept.tokens symbol).trans rfl
    · exact kept.tokens tested
  · exact listed_setToken left symbol tested _ (kept.listed tested found)

theorem Kept.credit (kept : Kept engine left) (symbol user : Bytes)
    (amount : UInt64) : Kept engine (left.credit symbol user amount) := kept.setBalance symbol user _

theorem Kept.debit (kept : Kept engine left) (symbol user : Bytes)
    (amount : UInt64) : Kept engine (left.debit symbol user amount) := kept.setBalance symbol user _

theorem Kept.setPool (kept : Kept engine left) (key : Bytes) (pool : Pool) :
    Kept engine (left.setPool key pool) := ⟨kept.tokens, kept.listed⟩

theorem token_credit (engine : TokenEngine) (symbol user tested : Bytes) (amount : UInt64) :
    (engine.credit symbol user amount).token tested =
      if tested = symbol then (engine.token symbol).credit user amount else engine.token tested :=
  token_setToken engine symbol tested _

theorem token_debit (engine : TokenEngine) (symbol user tested : Bytes) (amount : UInt64) :
    (engine.debit symbol user amount).token tested =
      if tested = symbol then (engine.token symbol).debit user amount else engine.token tested :=
  token_setToken engine symbol tested _

theorem TokenEngine.credited (engine : TokenEngine) (symbol user tested owner : Bytes) (amount : UInt64)
    (room : ¬ overflows ((engine.token symbol).balance user) amount = true) :
    ((((engine.credit symbol user amount).token tested).balance owner).toNat : Int) =
      ((engine.token tested).balance owner).toNat +
        if tested = symbol ∧ owner = user then (amount.toNat : Int) else 0 := by
  rw [token_credit]
  by_cases same : tested = symbol
  · subst same
    simp only [if_pos, true_and]
    exact Tokens.credited (engine.token tested) user owner amount room
  · rw [if_neg same, if_neg (fun both => same both.1)]
    omega

theorem TokenEngine.debited (engine : TokenEngine) (symbol user tested owner : Bytes) (amount : UInt64)
    (enough : amount ≤ (engine.token symbol).balance user) :
    ((((engine.debit symbol user amount).token tested).balance owner).toNat : Int) =
      ((engine.token tested).balance owner).toNat -
        if tested = symbol ∧ owner = user then (amount.toNat : Int) else 0 := by
  rw [token_debit]
  by_cases same : tested = symbol
  · subst same
    simp only [if_pos, true_and]
    exact Tokens.debited (engine.token tested) user owner amount enough
  · rw [if_neg same, if_neg (fun both => same both.1)]
    omega

/-! ### Names of pools -/

theorem tokenNameOk_bar (name : Bytes) (ok : tokenNameOk name = true) : byte '|' ∉ name := by
  intro member
  simp only [tokenNameOk, Bool.and_eq_true, List.all_eq_true] at ok
  simpa using (ok.2 _ member).1.1.1.1

theorem orderedPair_some (a b t0 t1 : Bytes) (ordered : orderedPair a b = some (t0, t1)) :
    tokenNameOk t0 = true ∧ tokenNameOk t1 = true ∧ t0 ≠ t1 ∧
      (a = t0 ∧ b = t1 ∨ a = t1 ∧ b = t0) := by
  unfold orderedPair at ordered
  split at ordered
  · exact absurd ordered (by simp)
  · rename_i passed
    simp only [Bool.or_eq_true, Bool.not_eq_eq_eq_not, Bool.not_true, beq_iff_eq, not_or,
      Bool.not_eq_false] at passed
    obtain ⟨⟨okA, okB⟩, different⟩ := passed
    split at ordered
    · simp only [Option.some.injEq, Prod.mk.injEq] at ordered
      obtain ⟨rfl, rfl⟩ := ordered
      exact ⟨okA, okB, different, .inl ⟨rfl, rfl⟩⟩
    · simp only [Option.some.injEq, Prod.mk.injEq] at ordered
      obtain ⟨rfl, rfl⟩ := ordered
      exact ⟨okB, okA, fun same => different same.symm, .inr ⟨rfl, rfl⟩⟩

theorem orderedPair_again (a b t0 t1 : Bytes) (ordered : orderedPair a b = some (t0, t1)) :
    orderedPair t0 t1 = some (t0, t1) := by
  obtain ⟨ok0, ok1, different, pair⟩ := orderedPair_some a b t0 t1 ordered
  obtain ⟨isA, isB⟩ | ⟨isA, isB⟩ := pair
  · rwa [isA, isB] at ordered
  · rw [isA, isB] at ordered
    have below : t0 < t1 := by
      unfold orderedPair at ordered
      rw [if_neg (by simp [ok0, ok1, Ne.symm different])] at ordered
      split at ordered
      · simp only [Option.some.injEq, Prod.mk.injEq] at ordered
        exact absurd ordered.1.symm different
      · rename_i above
        by_contra below
        exact different (List.le_antisymm (List.not_lt.mp above) (List.not_lt.mp below))
    unfold orderedPair
    rw [if_neg (by simp [ok0, ok1, different]), if_pos below]

/-- The pool that is found for a pair is a pool of this pair. -/
theorem pool_pair {a b : Bytes}
    (isOrdered : orderedPair pool.token0 pool.token1 = some (pool.token0, pool.token1))
    (named : poolKey a b = poolKey pool.token0 pool.token1) :
    pool.token0 ≠ pool.token1 ∧
      (a = pool.token0 ∧ b = pool.token1 ∨ a = pool.token1 ∧ b = pool.token0) := by
  obtain ⟨ok0, ok1, different, -⟩ := orderedPair_some _ _ _ _ isOrdered
  refine ⟨different, ?_⟩
  unfold poolKey at named
  rw [isOrdered] at named
  cases ordered : orderedPair a b with
  | none =>
    rw [ordered] at named
    exact absurd named (by simp [ascii])
  | some pair =>
    obtain ⟨t0, t1⟩ := pair
    obtain ⟨okA, -, -, members⟩ := orderedPair_some a b t0 t1 ordered
    rw [ordered] at named
    simp only [List.append_assoc] at named
    obtain ⟨first, second⟩ := cut_first (byte '|') t0 pool.token0 t1 pool.token1
      (tokenNameOk_bar t0 okA) (tokenNameOk_bar pool.token0 ok0) named
    rw [← first, ← second]
    exact members

/-! ### Swaps -/

theorem quote_different
    (quoted : quoteExactIn engine tokenIn tokenOut amountIn = .ok amountOut) : tokenIn ≠ tokenOut := by
  simp only [quoteExactIn, bind_ok, exists_unit, ensure_ok, Bool.and_eq_true, decide_eq_true_eq]
    at quoted
  exact quoted.1.2

/-- A swap that went through. -/
structure Swap (engine : TokenEngine) (tokenIn tokenOut trader : Bytes) (amountIn amountOut : UInt64)
    (pool : Pool) (left : TokenEngine) : Prop where
  quoted : quoteExactIn engine tokenIn tokenOut amountIn = .ok amountOut
  found : engine.pools.lookup (poolKey tokenIn tokenOut) = some pool
  room : ¬ overflows (pool.sides tokenIn).1 amountIn = true
  reserve : amountOut < (pool.sides tokenIn).2
  moved : ∃ seen, Alike engine seen ∧ amountIn ≤ (seen.token tokenIn).balance trader ∧
    ¬ overflows ((seen.token tokenOut).balance trader) amountOut = true ∧
    left = ((seen.debit tokenIn trader amountIn).credit tokenOut trader amountOut).setPool
      (poolKey tokenIn tokenOut) (pool.swapped tokenIn amountIn amountOut)

/-- A swap is refused and moves nothing, or it goes through. -/
theorem swapExactIn_cases (engine : TokenEngine) (tokenIn tokenOut trader : Bytes)
    (amountIn minOut : UInt64) :
    (∃ message left, swapExactIn engine tokenIn tokenOut trader amountIn minOut = (.error message, left) ∧
      Alike engine left) ∨
    ∃ amountOut pool left,
      swapExactIn engine tokenIn tokenOut trader amountIn minOut = (.ok amountOut, left) ∧
        minOut ≤ amountOut ∧ Swap engine tokenIn tokenOut trader amountIn amountOut pool left := by
  unfold swapExactIn
  cases checked : swapQuote engine tokenIn tokenOut trader amountIn minOut with
  | error message => exact .inl ⟨message, engine, rfl, .refl engine⟩
  | ok amountOut =>
    simp only [swapQuote, bind_ok, exists_unit, ensure_ok, pure_ok, exists_eq_right_right] at checked
    obtain ⟨-, quoted, wanted⟩ := checked
    dsimp only
    cases found : engine.pools.lookup (poolKey tokenIn tokenOut) with
    | none => exact .inl ⟨_, engine, rfl, .refl engine⟩
    | some pool =>
      dsimp only
      have touched := (Alike.refl engine).touch tokenIn trader
      have seen := touched.touch tokenOut trader
      split
      · exact .inl ⟨_, _, rfl, touched⟩
      rename_i rich
      split
      · exact .inl ⟨_, _, rfl, touched⟩
      rename_i reserve
      split
      · exact .inl ⟨_, _, rfl, seen⟩
      rename_i room
      rw [not_or] at room
      refine .inr ⟨amountOut, pool, _, rfl, by simpa using wanted, quoted, found, room.2,
        UInt64.not_le.mp reserve, _, seen, ?_, room.1, rfl⟩
      rw [seen.balance, ← touched.balance]
      exact UInt64.not_lt.mp rich

theorem Swap.kept
    (swap : Swap engine tokenIn tokenOut trader amountIn amountOut pool left) : Kept engine left := by
  obtain ⟨seen, alike, -, -, rfl⟩ := swap.moved
  exact ((alike.kept.debit tokenIn trader amountIn).credit tokenOut trader amountOut).setPool _ _

theorem Swap.pools (swap : Swap engine tokenIn tokenOut trader amountIn amountOut pool left) :
    left.pools = engine.pools.insert (poolKey tokenIn tokenOut)
      (pool.swapped tokenIn amountIn amountOut) := by
  obtain ⟨seen, alike, -, -, rfl⟩ := swap.moved
  rw [← alike.pools]
  rfl

/-- A swap moves balances of the trader only. -/
theorem Swap.balances
    (swap : Swap engine tokenIn tokenOut trader amountIn amountOut pool left) (symbol user : Bytes) :
    (((left.token symbol).balance user).toNat : Int) = ((engine.token symbol).balance user).toNat -
      (if symbol = tokenIn ∧ user = trader then (amountIn.toNat : Int) else 0) +
      if symbol = tokenOut ∧ user = trader then (amountOut.toNat : Int) else 0 := by
  obtain ⟨seen, alike, rich, room, rfl⟩ := swap.moved
  have other : (seen.debit tokenIn trader amountIn).token tokenOut = seen.token tokenOut :=
    token_setToken_ne _ _ _ _ (quote_different swap.quoted).symm
  rw [token_setPool, TokenEngine.credited _ _ _ _ _ _ (other ▸ room),
    TokenEngine.debited _ _ _ _ _ _ rich, alike.balance]

/-- A swap moves its amounts between the reserves of its two tokens. -/
theorem swapped_reserves (different : pool.token0 ≠ pool.token1)
    (pair : tokenIn = pool.token0 ∧ tokenOut = pool.token1 ∨ tokenIn = pool.token1 ∧ tokenOut = pool.token0)
    (amountIn amountOut : UInt64) (room : ¬ overflows (pool.sides tokenIn).1 amountIn = true)
    (left : amountOut < (pool.sides tokenIn).2) (symbol : Bytes) :
    ((pool.swapped tokenIn amountIn amountOut).reserveOf symbol : Int) =
      pool.reserveOf symbol + (if symbol = tokenIn then (amountIn.toNat : Int) else 0) -
        (if symbol = tokenOut then (amountOut.toNat : Int) else 0) := by
  have more := toNat_add_of_not_overflows _ _ room
  have fewer := UInt64.toNat_sub_of_le _ _ (UInt64.le_of_lt left)
  have less := UInt64.lt_iff_toNat_lt.mp left
  by_cases side : tokenIn = pool.token0
  · have out : tokenOut = pool.token1 := by
      obtain ⟨-, isOut⟩ | ⟨isIn, -⟩ := pair
      · exact isOut
      · exact absurd (side.symm.trans isIn) different
    simp only [Pool.sides, side, ↓reduceIte] at more fewer less
    unfold Pool.swapped
    rw [if_pos side]
    simp only [Pool.reserveOf, more, fewer, side, out]
    split <;> split <;> omega
  · have isOther : tokenIn = pool.token1 ∧ tokenOut = pool.token0 :=
      pair.resolve_left (fun first => side first.1)
    simp only [Pool.sides, if_neg side] at more fewer less
    unfold Pool.swapped
    rw [if_neg side]
    simp only [Pool.reserveOf, more, fewer, isOther.1, isOther.2]
    split <;> split <;> omega

/-- A swap moves no gap. -/
theorem Swap.gap (swap : Swap engine tokenIn tokenOut trader amountIn amountOut pool left)
    (isOrdered : orderedPair pool.token0 pool.token1 = some (pool.token0, pool.token1))
    (named : poolKey tokenIn tokenOut = poolKey pool.token0 pool.token1) (symbol : Bytes) :
    left.gap symbol = engine.gap symbol := by
  obtain ⟨different, pair⟩ := pool_pair isOrdered named
  have reserves := swapped_reserves different pair amountIn amountOut swap.room swap.reserve symbol
  obtain ⟨seen, alike, rich, room, rfl⟩ := swap.moved
  have other : (seen.debit tokenIn trader amountIn).token tokenOut = seen.token tokenOut :=
    token_setToken_ne _ _ _ _ (quote_different swap.quoted).symm
  have kept : ((seen.debit tokenIn trader amountIn).credit tokenOut trader amountOut).pools.lookup
      (poolKey tokenIn tokenOut) = some pool := by
    rw [← swap.found, ← alike.pools]
    rfl
  rw [gap_setPool _ _ symbol pool _ kept, gap_credit _ _ _ _ _ (other ▸ room),
    gap_debit _ _ _ _ _ rich, alike.gap, reserves]
  omega

/-- Swaps along a route that went through; the last of them gives at least `minOut`. -/
inductive Hops (trader : Bytes) (minOut : UInt64) :
    TokenEngine → List Bytes → UInt64 → UInt64 → TokenEngine → Prop
  | last (engine : TokenEngine) (token : Bytes) (amount : UInt64) :
    Hops trader minOut engine [token] amount amount engine
  | hop {engine next left : TokenEngine} {tokenIn tokenOut : Bytes} {rest : List Bytes}
      {running hopOut amountOut : UInt64} {pool : Pool}
      (swap : Swap engine tokenIn tokenOut trader running hopOut pool next)
      (wanted : rest = [] → minOut ≤ hopOut)
      (others : Hops trader minOut next (tokenOut :: rest) hopOut amountOut left) :
    Hops trader minOut engine (tokenIn :: tokenOut :: rest) running amountOut left

/-- Induction on the route: each hop is a swap. -/
theorem swapHops_cases (trader : Bytes) (minOut : UInt64) (route : List Bytes) (some : route ≠ []) :
    ∀ (engine : TokenEngine) (hop : Nat) (running : UInt64),
      (∃ message left, swapHops trader minOut engine hop route running = (.error message, left)) ∨
      ∃ amountOut left, swapHops trader minOut engine hop route running = (.ok amountOut, left) ∧
        Hops trader minOut engine route running amountOut left := by
  induction route with
  | nil => exact absurd rfl some
  | cons tokenIn rest ih =>
    intro engine hop running
    cases rest with
    | nil => exact .inr ⟨running, engine, rfl, .last engine tokenIn running⟩
    | cons tokenOut others =>
      rw [swapHops]
      obtain ⟨message, next, called, -⟩ | ⟨hopOut, pool, next, called, wanted, swap⟩ :=
        swapExactIn_cases engine tokenIn tokenOut trader running
          (if others.isEmpty then minOut else 1)
      · rw [called]
        exact .inl ⟨_, _, rfl⟩
      · rw [called]
        have atLast : others = [] → minOut ≤ hopOut := by
          rintro rfl
          exact wanted
        obtain ⟨message, left, failed⟩ | ⟨amountOut, left, went, hops⟩ :=
          ih (by simp) next (hop + 1) hopOut
        · exact .inl ⟨message, left, failed⟩
        · exact .inr ⟨amountOut, left, went, .hop swap atLast hops⟩

/-- A route is refused and moves nothing, or all its hops go through. -/
theorem swapRouteExactIn_cases (engine : TokenEngine) (route : List Bytes) (trader : Bytes)
    (amountIn minOut : UInt64) :
    (∃ message left, swapRouteExactIn engine route trader amountIn minOut = (.error message, left) ∧
      Alike engine left) ∨
    ∃ amountOut seen left, swapRouteExactIn engine route trader amountIn minOut = (.ok amountOut, left) ∧
      2 ≤ route.length ∧ Alike engine seen ∧ Hops trader minOut seen route amountIn amountOut left := by
  unfold swapRouteExactIn
  cases checked : routeQuote engine route trader amountIn minOut with
  | error message => exact .inl ⟨message, engine, rfl, .refl engine⟩
  | ok passed =>
    simp only [routeQuote, quoteRouteExactIn, bind_ok, exists_unit, ensure_ok, decide_eq_true_eq]
      at checked
    obtain ⟨-, -, ⟨long, -⟩, -⟩ := checked
    have seen := (Alike.refl engine).touch (route.headD []) trader
    dsimp only
    split
    · exact .inl ⟨_, _, rfl, seen⟩
    have some : route ≠ [] := by
      rintro rfl
      exact absurd long (by decide)
    obtain ⟨message, left, failed⟩ | ⟨amountOut, left, went, hops⟩ :=
      swapHops_cases trader minOut route some
        (engine.setToken (route.headD []) ((engine.token (route.headD [])).touch trader)) 0 amountIn
    · rw [failed]
      exact .inl ⟨_, _, rfl, seen⟩
    · rw [went]
      exact .inr ⟨_, _, _, rfl, long, seen, hops⟩

/-! ### Liquidity -/

/-- What the two amounts of a call mean for the two tokens of a pool. -/
def Pool.inOrder {α : Type} (pool : Pool) (tokenA : Bytes) (amountA amountB : α) : α × α :=
  if tokenA = pool.token0 then (amountA, amountB) else (amountB, amountA)

/-- The pool that a deposit leaves. -/
def Pool.added (pool : Pool) (provider : Bytes) (add0 add1 minted : UInt64) : Pool :=
  { pool with
    reserve0 := pool.reserve0 + add0
    reserve1 := pool.reserve1 + add1
    lpTotalSupply := pool.lpTotalSupply + minted
    lpBalances := pool.lpBalances.insert provider (amountAt pool.lpBalances provider + minted) }

/-- The shares for a deposit. -/
def Pool.shares (pool : Pool) (add0 add1 : UInt64) : Option (Except String UInt64) :=
  if pool.lpTotalSupply = 0 then firstShares add0 add1 else some (furtherShares pool add0 add1)

/-- A deposit that went through. -/
structure Deposit (engine : TokenEngine) (key : Bytes) (pool : Pool) (provider : Bytes)
    (add0 add1 minted : UInt64) (left : TokenEngine) : Prop where
  found : engine.pools.lookup key = some pool
  computed : pool.shares add0 add1 = some (.ok minted)
  room0 : ¬ overflows pool.reserve0 add0 = true
  room1 : ¬ overflows pool.reserve1 add1 = true
  roomSupply : ¬ overflows pool.lpTotalSupply minted = true
  roomShares : ¬ overflows (amountAt pool.lpBalances provider) minted = true
  moved : ∃ seen, Alike engine seen ∧ add0 ≤ (seen.token pool.token0).balance provider ∧
    add1 ≤ (seen.token pool.token1).balance provider ∧
    left = ((seen.debit pool.token0 provider add0).debit pool.token1 provider add1).setPool key
      (pool.added provider add0 add1 minted)

/-- A deposit into a pool is refused, or it is a deposit. -/
theorem addToPool_cases (engine : TokenEngine) (key : Bytes) (pool : Pool) (provider : Bytes)
    (add0 add1 : UInt64) (outcome : Except String Unit × TokenEngine)
    (found : engine.pools.lookup key = some pool)
    (done : addToPool engine key pool provider add0 add1 = some outcome) :
    (∃ message left, outcome = (.error message, left) ∧ Refused engine left) ∨
    ∃ minted left, outcome = (.ok (), left) ∧
      Deposit engine key pool provider add0 add1 minted left := by
  have touched := alike_touchBoth engine pool provider
  unfold addToPool at done
  dsimp only at done
  split at done
  · exact .inl ⟨_, _, (Option.some.inj done).symm, .inl touched⟩
  rename_i rich
  rw [not_or, UInt64.not_lt, UInt64.not_lt] at rich
  obtain ⟨shares, computed, rfl⟩ := Option.map_eq_some_iff.mp done
  cases shares with
  | error message => exact .inl ⟨_, _, rfl, .inl touched⟩
  | ok minted =>
    dsimp only
    split
    · exact .inl ⟨_, _, rfl, .inl touched⟩
    rename_i room
    rw [not_or, not_or] at room
    split
    · exact .inl ⟨_, _, rfl, .inr ⟨_, key, pool, provider, touched, found, rfl⟩⟩
    rename_i roomShares
    exact .inr ⟨minted, _, rfl, found, computed, room.1, room.2.1, room.2.2, roomShares, _, touched,
      rich.1, rich.2, rfl⟩

/-- Adding liquidity is refused, or it is a deposit. -/
theorem addLiquidity_cases (engine : TokenEngine) (tokenA tokenB provider : Bytes)
    (amountA amountB : UInt64) (outcome : Except String Unit × TokenEngine)
    (done : addLiquidity engine tokenA tokenB provider amountA amountB = some outcome) :
    (∃ message left, outcome = (.error message, left) ∧ Refused engine left) ∨
    ∃ pool minted left, outcome = (.ok (), left) ∧ amountA ≠ 0 ∧ amountB ≠ 0 ∧
      Deposit engine (poolKey tokenA tokenB) pool provider (pool.inOrder tokenA amountA amountB).1
        (pool.inOrder tokenA amountA amountB).2 minted left := by
  unfold addLiquidity at done
  split at done
  · exact .inl ⟨_, _, (Option.some.inj done).symm, .inl (.refl engine)⟩
  rename_i valid
  rw [not_or, not_or] at valid
  cases found : engine.pools.lookup (poolKey tokenA tokenB) with
  | none =>
    rw [found] at done
    exact .inl ⟨_, _, (Option.some.inj done).symm, .inl (.refl engine)⟩
  | some pool =>
    rw [found] at done
    have called : addToPool engine (poolKey tokenA tokenB) pool provider
        (pool.inOrder tokenA amountA amountB).1 (pool.inOrder tokenA amountA amountB).2 =
          some outcome := by
      unfold Pool.inOrder
      dsimp only at done
      split
      · rename_i first
        rwa [if_pos first] at done
      · rename_i second
        rwa [if_neg second] at done
    obtain refused | ⟨minted, left, ok, deposit⟩ :=
      addToPool_cases engine _ pool provider _ _ outcome found called
    · exact .inl refused
    · exact .inr ⟨pool, minted, left, ok, valid.2.1, valid.2.2, deposit⟩

theorem Deposit.kept (deposit : Deposit engine key pool provider add0 add1 minted left) :
    Kept engine left := by
  obtain ⟨seen, alike, -, -, rfl⟩ := deposit.moved
  exact ((alike.kept.debit pool.token0 provider add0).debit pool.token1 provider add1).setPool _ _

theorem Deposit.pools (deposit : Deposit engine key pool provider add0 add1 minted left) :
    left.pools = engine.pools.insert key (pool.added provider add0 add1 minted) := by
  obtain ⟨seen, alike, -, -, rfl⟩ := deposit.moved
  rw [← alike.pools]
  rfl

/-- A deposit moves no gap. -/
theorem Deposit.gap (deposit : Deposit engine key pool provider add0 add1 minted left)
    (different : pool.token0 ≠ pool.token1) (symbol : Bytes) :
    left.gap symbol = engine.gap symbol := by
  have sum0 := toNat_add_of_not_overflows _ _ deposit.room0
  have sum1 := toNat_add_of_not_overflows _ _ deposit.room1
  obtain ⟨seen, alike, rich0, rich1, rfl⟩ := deposit.moved
  have other : (seen.debit pool.token0 provider add0).token pool.token1 = seen.token pool.token1 :=
    token_setToken_ne _ _ _ _ different.symm
  have kept : ((seen.debit pool.token0 provider add0).debit pool.token1 provider add1).pools.lookup
      key = some pool := by
    rw [← deposit.found, ← alike.pools]
    rfl
  rw [gap_setPool _ _ symbol pool _ kept, gap_debit _ _ _ _ _ (other ▸ rich1),
    gap_debit _ _ _ _ _ rich0, alike.gap]
  simp only [Pool.reserveOf, Pool.added, sum0, sum1]
  split <;> split <;> omega

/-- The pool that a removal leaves. -/
def Pool.removed (pool : Pool) (provider : Bytes) (lpAmount : UInt64) : Pool :=
  { pool with
    reserve0 := pool.reserve0 - shareOf pool.reserve0 lpAmount pool.lpTotalSupply
    reserve1 := pool.reserve1 - shareOf pool.reserve1 lpAmount pool.lpTotalSupply
    lpTotalSupply := pool.lpTotalSupply - lpAmount
    lpBalances := pool.lpBalances.insert provider (amountAt pool.lpBalances provider - lpAmount) }

/-- A removal that went through. -/
structure Removal (engine : TokenEngine) (key : Bytes) (pool : Pool) (provider : Bytes)
    (lpAmount : UInt64) (left : TokenEngine) : Prop where
  found : engine.pools.lookup key = some pool
  rich : lpAmount ≤ amountAt pool.lpBalances provider
  shared : pool.lpTotalSupply ≠ 0
  some0 : shareOf pool.reserve0 lpAmount pool.lpTotalSupply ≠ 0
  some1 : shareOf pool.reserve1 lpAmount pool.lpTotalSupply ≠ 0
  moved : ∃ seen, Alike engine seen ∧
    ¬ overflows ((seen.token pool.token0).balance provider)
      (shareOf pool.reserve0 lpAmount pool.lpTotalSupply) = true ∧
    ¬ overflows ((seen.token pool.token1).balance provider)
      (shareOf pool.reserve1 lpAmount pool.lpTotalSupply) = true ∧
    left = ((seen.credit pool.token0 provider (shareOf pool.reserve0 lpAmount pool.lpTotalSupply)).credit
      pool.token1 provider (shareOf pool.reserve1 lpAmount pool.lpTotalSupply)).setPool key
        (pool.removed provider lpAmount)

/-- Removing liquidity is refused, or it is a removal. -/
theorem removeLiquidity_cases (engine : TokenEngine) (tokenA tokenB provider : Bytes)
    (lpAmount : UInt64) :
    (∃ message left, removeLiquidity engine tokenA tokenB provider lpAmount = (.error message, left) ∧
      Refused engine left) ∨
    ∃ pool left,
      removeLiquidity engine tokenA tokenB provider lpAmount =
        (.ok (pool.inOrder tokenA (shareOf pool.reserve0 lpAmount pool.lpTotalSupply)
          (shareOf pool.reserve1 lpAmount pool.lpTotalSupply)), left) ∧
      lpAmount ≠ 0 ∧ Removal engine (poolKey tokenA tokenB) pool provider lpAmount left := by
  unfold removeLiquidity
  split
  · exact .inl ⟨_, _, rfl, .inl (.refl engine)⟩
  rename_i valid
  rw [not_or] at valid
  dsimp only
  cases found : engine.pools.lookup (poolKey tokenA tokenB) with
  | none => exact .inl ⟨_, _, rfl, .inl (.refl engine)⟩
  | some pool =>
    have first := (Alike.refl engine).touch pool.token0 provider
    have touched := alike_touchBoth engine pool provider
    dsimp only
    split
    · exact .inl ⟨_, _, rfl, .inr ⟨engine, _, pool, provider, .refl engine, found, rfl⟩⟩
    rename_i rich
    rw [not_or, UInt64.not_lt] at rich
    split
    · exact .inl ⟨_, _, rfl, .inr ⟨engine, _, pool, provider, .refl engine, found, rfl⟩⟩
    rename_i worth
    rw [not_or] at worth
    split
    · exact .inl ⟨_, _, rfl, .inr ⟨_, _, pool, provider, first, found, rfl⟩⟩
    rename_i room0
    split
    · exact .inl ⟨_, _, rfl, .inr ⟨_, _, pool, provider, touched, found, rfl⟩⟩
    rename_i room1
    refine .inr ⟨pool, _, rfl, valid.2, found, rich.1, rich.2, worth.1, worth.2, _, touched, ?_,
      room1, rfl⟩
    rw [first.balance] at room0
    rw [touched.balance]
    exact room0

theorem Removal.kept (removal : Removal engine key pool provider lpAmount left) :
    Kept engine left := by
  obtain ⟨seen, alike, -, -, rfl⟩ := removal.moved
  exact ((alike.kept.credit pool.token0 provider _).credit pool.token1 provider _).setPool _ _

theorem Removal.pools (removal : Removal engine key pool provider lpAmount left) :
    left.pools = engine.pools.insert key (pool.removed provider lpAmount) := by
  obtain ⟨seen, alike, -, -, rfl⟩ := removal.moved
  rw [← alike.pools]
  rfl

/-- A removal moves no gap when no share is larger than its reserve. -/
theorem Removal.gap (removal : Removal engine key pool provider lpAmount left)
    (different : pool.token0 ≠ pool.token1)
    (most0 : shareOf pool.reserve0 lpAmount pool.lpTotalSupply ≤ pool.reserve0)
    (most1 : shareOf pool.reserve1 lpAmount pool.lpTotalSupply ≤ pool.reserve1) (symbol : Bytes) :
    left.gap symbol = engine.gap symbol := by
  have less0 := UInt64.toNat_sub_of_le _ _ most0
  have less1 := UInt64.toNat_sub_of_le _ _ most1
  rw [UInt64.le_iff_toNat_le] at most0 most1
  obtain ⟨seen, alike, room0, room1, rfl⟩ := removal.moved
  have other : (seen.credit pool.token0 provider
      (shareOf pool.reserve0 lpAmount pool.lpTotalSupply)).token pool.token1 = seen.token pool.token1 :=
    token_setToken_ne _ _ _ _ different.symm
  have kept : ((seen.credit pool.token0 provider
      (shareOf pool.reserve0 lpAmount pool.lpTotalSupply)).credit pool.token1 provider
        (shareOf pool.reserve1 lpAmount pool.lpTotalSupply)).pools.lookup key = some pool := by
    rw [← removal.found, ← alike.pools]
    rfl
  rw [gap_setPool _ _ symbol pool _ kept, gap_credit _ _ _ _ _ (other ▸ room1),
    gap_credit _ _ _ _ _ room0, alike.gap]
  simp only [Pool.reserveOf, Pool.removed, less0, less1]
  split <;> split <;> omega

end Tokens

end Addition
