import Addition.Foundations.ConstantProduct
import Addition.TokenStates

/-!
# Quotes and swaps

The guards of a quote exclude every wrap, so that it is the exact quotient over the natural
numbers. A swap pays the quote and moves its two amounts between the trader and the pool, and
nothing else; rounding leaves the product of the reserves at least as large as it was. Without
a fee an input in two swaps buys no more than in one.
-/

namespace Addition

namespace Tokens

open ByteStrings Checked FiniteTables Amounts ConstantProduct

/-! ### Quotes -/

/-- What counts of every ten thousand of an input. -/
def Pool.multiplier (pool : Pool) : Nat := 10000 - pool.feeBps.toNat

/-- What a quote says about the pool it is made on, over the natural numbers. -/
structure Quoted (pool : Pool) (tokenIn : Bytes) (amountIn amountOut : UInt64) : Prop where
  fits : amountIn.toNat * pool.multiplier < 2 ^ 64 ∧
    amountIn.toNat * pool.multiplier * (pool.sides tokenIn).2.toNat < 2 ^ 64 ∧
    (pool.sides tokenIn).1.toNat * 10000 + amountIn.toNat * pool.multiplier < 2 ^ 64
  value : amountOut.toNat = bought 10000 pool.multiplier amountIn.toNat (pool.sides tokenIn).1.toNat
    (pool.sides tokenIn).2.toNat
  positive : 0 < amountOut.toNat
  below : amountOut < (pool.sides tokenIn).2
  filled : 0 < (pool.sides tokenIn).1.toNat

theorem wordMax_toNat : wordMax.toNat = 2 ^ 64 - 1 := rfl

/-- A product that passes the test by division does not wrap. -/
theorem toNat_mul_of_le (a b : UInt64) (some : b ≠ 0) (fits : a ≤ wordMax / b) :
    (a * b).toNat = a.toNat * b.toNat ∧ a.toNat * b.toNat < 2 ^ 64 := by
  have within : a.toNat * b.toNat ≤ 2 ^ 64 - 1 := by
    rw [UInt64.le_iff_toNat_le, UInt64.toNat_div, wordMax_toNat] at fits
    exact (Nat.le_div_iff_mul_le (positive_of_ne_zero some)).mp fits
  rw [UInt64.toNat_mul]
  exact ⟨Nat.mod_eq_of_lt (by omega), by omega⟩

variable {amountIn amountOut : UInt64} {engine : TokenEngine} {tokenIn tokenOut : Bytes}
  {left : TokenEngine} {pool : Pool} {trader : Bytes} {firstOut secondOut wholeOut : UInt64}

/-- A quote is the product rule behind the fee. -/
theorem quoteExactIn_ok (quoted : quoteExactIn engine tokenIn tokenOut amountIn = .ok amountOut)
    (charged : ∀ pool, engine.pools.lookup (poolKey tokenIn tokenOut) = some pool →
      pool.feeBps < 10000) :
    ∃ pool, engine.pools.lookup (poolKey tokenIn tokenOut) = some pool ∧
      Quoted pool tokenIn amountIn amountOut := by
  simp only [quoteExactIn, bind_ok, exists_unit, ensure_ok, pure_ok, Bool.and_eq_true,
    decide_eq_true_eq] at quoted
  obtain ⟨-, pool, found, filled, fits, -, fitsOut, fitsIn, fitsSum, -, positive, rfl⟩ := quoted
  have lookup : engine.pools.lookup (poolKey tokenIn tokenOut) = some pool := by
    unfold findPool at found
    cases looked : engine.pools.lookup (poolKey tokenIn tokenOut) with
    | none =>
      rw [looked] at found
      exact absurd found (by simp)
    | some other =>
      rw [looked] at found
      exact congrArg some (Except.ok.inj found)
  have fee := charged pool lookup
  have less := UInt64.lt_iff_toNat_lt.mp fee
  have tenThousand : (10000 : UInt64).toNat = 10000 := rfl
  have multiplier : (10000 - pool.feeBps).toNat = pool.multiplier :=
    UInt64.toNat_sub_of_le _ _ (UInt64.le_of_lt fee)
  have someFee : 10000 - pool.feeBps ≠ 0 := by
    apply ne_zero_of_positive
    rw [multiplier]
    unfold Pool.multiplier
    omega
  obtain ⟨withFee, boundFee⟩ := toNat_mul_of_le _ _ someFee fits
  obtain ⟨product, boundProduct⟩ := toNat_mul_of_le _ _ filled.2 fitsOut
  obtain ⟨base, boundBase⟩ := toNat_mul_of_le (pool.sides tokenIn).1 10000 (by decide) fitsIn
  have sum := toNat_add_of_not_overflows _ _ (by
    unfold overflows
    rw [decide_eq_true_eq]
    exact UInt64.not_lt.mpr fitsSum)
  have boundSum := ((pool.sides tokenIn).1 * 10000 + amountIn * (10000 - pool.feeBps)).toNat_lt
  rw [multiplier] at withFee boundFee
  rw [withFee] at product boundProduct
  rw [tenThousand] at base
  rw [sum, base, withFee] at boundSum
  refine ⟨pool, lookup, ⟨boundFee, boundProduct, boundSum⟩, ?_, positive_of_ne_zero positive.1,
    positive.2, positive_of_ne_zero filled.1⟩
  rw [UInt64.toNat_div, product, sum, base, withFee]
  rfl

/-! ### Swaps -/

theorem sides_swapped (pool : Pool) (tokenIn : Bytes) (amountIn amountOut : UInt64) :
    (pool.swapped tokenIn amountIn amountOut).sides tokenIn =
      ((pool.sides tokenIn).1 + amountIn, (pool.sides tokenIn).2 - amountOut) := by
  unfold Pool.swapped
  by_cases side : tokenIn = pool.token0
  · rw [if_pos side]
    simp only [Pool.sides, if_pos side]
  · rw [if_neg side]
    simp only [Pool.sides, if_neg side]

/-- What a swap leaves: the quote is paid, only the two balances of the trader and the two
reserves change, by the two amounts, and the product of the reserves does not fall. -/
structure Exchanged (engine : TokenEngine) (tokenIn tokenOut trader : Bytes)
    (amountIn amountOut : UInt64) (left : TokenEngine) : Prop where
  quoted : quoteExactIn engine tokenIn tokenOut amountIn = .ok amountOut
  kept : Kept engine left
  balances : ∀ symbol user, ((balanceOf left symbol user).toNat : Int) =
    (balanceOf engine symbol user).toNat -
      (if symbol = tokenIn ∧ user = trader then (amountIn.toNat : Int) else 0) +
      if symbol = tokenOut ∧ user = trader then (amountOut.toNat : Int) else 0
  pools : ∃ before after, engine.pools.lookup (poolKey tokenIn tokenOut) = some before ∧
    left.pools = engine.pools.insert (poolKey tokenIn tokenOut) after ∧
    after = { before with reserve0 := after.reserve0, reserve1 := after.reserve1 } ∧
    (after.sides tokenIn).1.toNat = (before.sides tokenIn).1.toNat + amountIn.toNat ∧
    (after.sides tokenIn).2.toNat + amountOut.toNat = (before.sides tokenIn).2.toNat ∧
    before.reserve0.toNat * before.reserve1.toNat ≤ after.reserve0.toNat * after.reserve1.toNat

theorem product_sides (pool : Pool) (tokenIn : Bytes) :
    (pool.sides tokenIn).1.toNat * (pool.sides tokenIn).2.toNat =
      pool.reserve0.toNat * pool.reserve1.toNat := by
  unfold Pool.sides
  split
  · rfl
  · exact Nat.mul_comm _ _

theorem multiplier_le (pool : Pool) : pool.multiplier ≤ 10000 := Nat.sub_le _ _

theorem Swap.quote (swap : Swap engine tokenIn tokenOut trader amountIn amountOut pool left)
    (charged : pool.feeBps < 10000) : Quoted pool tokenIn amountIn amountOut := by
  have same : ∀ other, engine.pools.lookup (poolKey tokenIn tokenOut) = some other → other = pool :=
    fun other found => Option.some.inj (found.symm.trans swap.found)
  obtain ⟨other, found, quoted⟩ :=
    quoteExactIn_ok swap.quoted (fun other found => same other found ▸ charged)
  exact same other found ▸ quoted

theorem Swap.exchanged (swap : Swap engine tokenIn tokenOut trader amountIn amountOut pool left)
    (charged : pool.feeBps < 10000) :
    Exchanged engine tokenIn tokenOut trader amountIn amountOut left := by
  have quoted := swap.quote charged
  have more := toNat_add_of_not_overflows _ _ swap.room
  have fewer := UInt64.toNat_sub_of_le _ _ (UInt64.le_of_lt swap.reserve)
  have less := UInt64.lt_iff_toNat_lt.mp swap.reserve
  have sides := sides_swapped pool tokenIn amountIn amountOut
  refine ⟨swap.quoted, swap.kept, fun symbol user => ?_, pool, _, swap.found, swap.pools, ?_, ?_, ?_, ?_⟩
  · rw [balanceOf_eq, balanceOf_eq]
    exact swap.balances symbol user
  · unfold Pool.swapped
    split <;> rfl
  · rw [sides]
    exact more
  · rw [sides]
    dsimp only
    omega
  · rw [← product_sides pool tokenIn, ← product_sides (pool.swapped tokenIn amountIn amountOut) tokenIn,
      sides]
    dsimp only
    rw [more, fewer, quoted.value]
    exact product_le 10000 pool.multiplier _ _ _ (by decide) (multiplier_le pool)

/-- A second quote after a swap, on the reserves that the swap left. -/
theorem split_bounded {first second whole : UInt64}
    (swap : Swap engine tokenIn tokenOut trader first firstOut pool left) (free : pool.feeBps = 0)
    (secondQuoted : quoteExactIn left tokenIn tokenOut second = .ok secondOut)
    (wholeQuoted : quoteExactIn engine tokenIn tokenOut whole = .ok wholeOut)
    (sum : whole.toNat = first.toNat + second.toNat) :
    firstOut.toNat + secondOut.toNat ≤ wholeOut.toNat := by
  have charged : pool.feeBps < 10000 := free ▸ (by decide)
  have firstIs := swap.quote charged
  have more := toNat_add_of_not_overflows _ _ swap.room
  have fewer := UInt64.toNat_sub_of_le _ _ (UInt64.le_of_lt swap.reserve)
  have after : left.pools.lookup (poolKey tokenIn tokenOut) =
      some (pool.swapped tokenIn first firstOut) := by
    rw [swap.pools, lookup_insert, if_pos rfl]
  have still : (pool.swapped tokenIn first firstOut).feeBps = pool.feeBps := by
    unfold Pool.swapped
    split <;> rfl
  obtain ⟨other, found, wholeIs⟩ := quoteExactIn_ok wholeQuoted (fun other found =>
    Option.some.inj (found.symm.trans swap.found) ▸ charged)
  cases Option.some.inj (found.symm.trans swap.found)
  obtain ⟨other, found, secondIs⟩ := quoteExactIn_ok secondQuoted (fun other found =>
    Option.some.inj (found.symm.trans after) ▸ still ▸ charged)
  cases Option.some.inj (found.symm.trans after)
  have multiplier : pool.multiplier = 10000 := by
    unfold Pool.multiplier
    rw [free]
    rfl
  have multiplierAfter : (pool.swapped tokenIn first firstOut).multiplier = 10000 := by
    unfold Pool.multiplier
    rw [still, free]
    rfl
  have secondValue := secondIs.value
  rw [multiplierAfter, sides_swapped] at secondValue
  dsimp only at secondValue
  rw [more, fewer] at secondValue
  have firstValue := firstIs.value
  have wholeValue := wholeIs.value
  rw [multiplier] at firstValue wholeValue
  rw [secondValue, wholeValue, sum, firstValue]
  exact split_le 10000 _ _ _ _ (by decide) firstIs.filled

/-- In every reachable engine a quote is the exact quotient, a swap pays it and moves nothing
but its two amounts, a refused swap changes no amount, and without a fee two swaps in a row
give no more than one of the whole input. -/
theorem swap_safe (engine : TokenEngine) (reachable : Reachable engine) (tokenIn tokenOut : Bytes) :
    (∀ amountIn amountOut, quoteExactIn engine tokenIn tokenOut amountIn = .ok amountOut →
      ∃ pool, engine.pools.lookup (poolKey tokenIn tokenOut) = some pool ∧
        Quoted pool tokenIn amountIn amountOut) ∧
    (∀ trader amountIn minOut,
      match swapExactIn engine tokenIn tokenOut trader amountIn minOut with
      | (.error _, left) => Alike engine left
      | (.ok amountOut, left) => Exchanged engine tokenIn tokenOut trader amountIn amountOut left) ∧
    ∀ trader first second whole minOut firstOut secondOut wholeOut left pool,
      engine.pools.lookup (poolKey tokenIn tokenOut) = some pool → pool.feeBps = 0 →
      swapExactIn engine tokenIn tokenOut trader first minOut = (.ok firstOut, left) →
      quoteExactIn left tokenIn tokenOut second = .ok secondOut →
      quoteExactIn engine tokenIn tokenOut whole = .ok wholeOut →
      whole.toNat = first.toNat + second.toNat →
        firstOut.toNat + secondOut.toNat ≤ wholeOut.toNat := by
  have lawful := reachable.lawful
  refine ⟨fun amountIn amountOut quoted => ?_, fun trader amountIn minOut => ?_, ?_⟩
  · exact quoteExactIn_ok quoted (fun pool found => (lawful.pools _ pool found).charged)
  · obtain ⟨message, left, called, alike⟩ | ⟨amountOut, pool, left, called, -, swap⟩ :=
      swapExactIn_cases engine tokenIn tokenOut trader amountIn minOut
    · rw [called]
      exact alike
    · rw [called]
      exact swap.exchanged (lawful.pools _ pool swap.found).charged
  · intro trader first second whole minOut firstOut secondOut wholeOut left pool found free called
      secondQuoted wholeQuoted sum
    obtain ⟨message, other, failed, -⟩ | ⟨amountOut, same, other, went, -, swap⟩ :=
      swapExactIn_cases engine tokenIn tokenOut trader first minOut
    · exact absurd (failed.symm.trans called) (by simp)
    · obtain ⟨paid, isLeft⟩ := Prod.mk.inj (went.symm.trans called)
      cases Except.ok.inj paid
      cases isLeft
      cases Option.some.inj (found.symm.trans swap.found)
      exact split_bounded swap free secondQuoted wholeQuoted sum

/-- A pool of one thousand coins of each of two tokens, without a fee. -/
def market : List Operation :=
  [.createToken (ascii "A") (ascii "owner") 1000000 1000000,
    .createToken (ascii "B") (ascii "owner") 1000000 1000000,
    .createPool (ascii "A") (ascii "B") 0,
    .addLiquidity (ascii "A") (ascii "B") (ascii "owner") 1000 1000]

/-- What a swap of a hundred coins pays, and the quotes for as many before and after it and for
two hundred. -/
def marketQuotes (engine : TokenEngine) : Option (UInt64 × UInt64 × UInt64 × UInt64) := do
  let swapped := swapExactIn engine (ascii "A") (ascii "B") (ascii "owner") 100 90
  let paid ← swapped.1.toOption
  let firstOut ← (quoteExactIn engine (ascii "A") (ascii "B") 100).toOption
  let secondOut ← (quoteExactIn swapped.2 (ascii "A") (ascii "B") 100).toOption
  let wholeOut ← (quoteExactIn engine (ascii "A") (ascii "B") 200).toOption
  some (paid, firstOut, secondOut, wholeOut)

theorem marketQuotes_some {paid : UInt64}
    (quoted : marketQuotes engine = some (paid, firstOut, secondOut, wholeOut)) :
    ∃ left, swapExactIn engine (ascii "A") (ascii "B") (ascii "owner") 100 90 = (.ok paid, left) ∧
      quoteExactIn engine (ascii "A") (ascii "B") 100 = .ok firstOut ∧
      quoteExactIn left (ascii "A") (ascii "B") 100 = .ok secondOut ∧
      quoteExactIn engine (ascii "A") (ascii "B") 200 = .ok wholeOut := by
  simp only [marketQuotes, Option.bind_eq_bind, Option.bind_eq_some_iff] at quoted
  obtain ⟨paid', swapped, firstOut', first, secondOut', second, wholeOut', whole, same⟩ := quoted
  obtain ⟨rfl, rfl, rfl, rfl⟩ : paid' = paid ∧ firstOut' = firstOut ∧ secondOut' = secondOut ∧
      wholeOut' = wholeOut := by simpa using same
  exact ⟨_, Prod.ext (toOption_ok swapped) rfl, toOption_ok first, toOption_ok second, toOption_ok whole⟩

set_option maxRecDepth 100000 in
theorem market_evaluated : ((performAll .initial market).bind fun engine =>
    (engine.pools.lookup (poolKey (ascii "A") (ascii "B"))).bind fun pool =>
      (marketQuotes engine).map fun quotes => (pool.feeBps, quotes)) = some (0, 90, 90, 75, 166) := by
  decide +kernel

/-- The quote of a hundred coins is exact, a swap of them pays it, and with a second one it
gives no more than one of two hundred. -/
theorem market_swap_safe : ∃ engine left pool, performAll .initial market = some engine ∧
    engine.pools.lookup (poolKey (ascii "A") (ascii "B")) = some pool ∧
    Quoted pool (ascii "A") 100 90 ∧
    swapExactIn engine (ascii "A") (ascii "B") (ascii "owner") 100 90 = (.ok 90, left) ∧
    Exchanged engine (ascii "A") (ascii "B") (ascii "owner") 100 90 left ∧
    (90 : UInt64).toNat + (75 : UInt64).toNat ≤ (166 : UInt64).toNat := by
  obtain ⟨engine, ran, read⟩ := Option.bind_eq_some_iff.mp market_evaluated
  obtain ⟨pool, found, read⟩ := Option.bind_eq_some_iff.mp read
  obtain ⟨quotes, quoted, same⟩ := Option.map_eq_some_iff.mp read
  obtain ⟨free, rfl⟩ := Prod.mk.inj same
  obtain ⟨left, swapped, first, second, whole⟩ := marketQuotes_some quoted
  obtain ⟨exactly, swaps, splits⟩ := swap_safe engine ⟨market, ran⟩ (ascii "A") (ascii "B")
  obtain ⟨pool', found', isQuote⟩ := exactly 100 90 first
  obtain rfl := Option.some.inj (found.symm.trans found')
  have pays := swaps (ascii "owner") 100 90
  rw [swapped] at pays
  exact ⟨engine, left, pool, ran, found, isQuote, swapped, pays,
    splits (ascii "owner") 100 100 200 90 90 75 166 left pool found free swapped second whole rfl⟩

end Tokens

end Addition
