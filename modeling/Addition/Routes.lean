import Addition.Swaps

/-!
# Swaps along a route

Along a route the input of every hop is the output of the one before, so that over the whole
route only the first and the last token of the trader change. A route that is refused, also in
the middle, leaves what was there before its first hop. The quote of a route reads the
reserves as they are before it; a swap along the route meets these reserves at every pool as
long as it comes to no pool twice.
-/

namespace Addition

namespace Tokens

open ByteStrings Checked FiniteTables Amounts

/-- The pools of a route. -/
def hopKeys : List Bytes → List Bytes
  | tokenIn :: tokenOut :: rest => poolKey tokenIn tokenOut :: hopKeys (tokenOut :: rest)
  | _ => []

variable {amountOut : UInt64} {engine left : TokenEngine} {minOut : UInt64} {route : List Bytes}
  {running : UInt64} {trader : Bytes}

/-- What the trader pays and gets over a route; what is between cancels. -/
theorem Hops.balances (hops : Hops trader minOut engine route running amountOut left)
    (symbol user : Bytes) :
    (((left.token symbol).balance user).toNat : Int) = ((engine.token symbol).balance user).toNat -
      (if symbol = route.headD [] ∧ user = trader then (running.toNat : Int) else 0) +
      if symbol = route.getLastD [] ∧ user = trader then (amountOut.toNat : Int) else 0 := by
  induction hops with
  | last engine token amount =>
    have isLast : [token].getLastD [] = token := rfl
    rw [isLast, List.headD_cons]
    omega
  | @hop _ _ _ tokenIn tokenOut rest _ _ _ _ swap wanted others ih =>
    have moved := swap.balances symbol user
    have later : (tokenIn :: tokenOut :: rest).getLastD [] = (tokenOut :: rest).getLastD [] := rfl
    rw [List.headD_cons] at ih
    rw [later, List.headD_cons]
    omega

/-- The last hop of a route gives at least what is asked for. -/
theorem Hops.enough (hops : Hops trader minOut engine route running amountOut left)
    (long : 2 ≤ route.length) : minOut ≤ amountOut := by
  induction hops with
  | last => exact absurd long (by simp)
  | @hop _ _ _ _ _ rest _ _ _ _ swap wanted others ih =>
    cases rest with
    | nil =>
      cases others
      exact wanted rfl
    | cons next rest => exact ih (by simp)

/-- A quote depends on the pool of its pair only. -/
theorem quote_congr (engine origin : TokenEngine) (tokenIn tokenOut : Bytes) (amountIn : UInt64)
    (same : origin.pools.lookup (poolKey tokenIn tokenOut) =
      engine.pools.lookup (poolKey tokenIn tokenOut)) :
    quoteExactIn origin tokenIn tokenOut amountIn = quoteExactIn engine tokenIn tokenOut amountIn := by
  unfold quoteExactIn findPool
  rw [same]

/-- Hops through different pools give what the quote promised on the reserves before them. -/
theorem Hops.quoted (hops : Hops trader minOut engine route running amountOut left)
    (once : (hopKeys route).Nodup) (origin : TokenEngine)
    (same : ∀ key ∈ hopKeys route, origin.pools.lookup key = engine.pools.lookup key) (hop : Nat) :
    quoteHops origin hop route running = .ok amountOut := by
  induction hops generalizing hop with
  | last => rfl
  | @hop seen _ _ tokenIn tokenOut _ running _ _ _ swap wanted others ih =>
    rw [hopKeys, List.nodup_cons] at once
    have first := quote_congr seen origin tokenIn tokenOut running (same _ (List.mem_cons_self ..))
    rw [quoteHops, first, swap.quoted]
    refine ih once.2 (fun key member => ?_) (hop + 1)
    have different : key ≠ poolKey tokenIn tokenOut := fun isFirst => once.1 (isFirst ▸ member)
    rw [same key (List.mem_cons_of_mem _ member), swap.pools, lookup_insert, if_neg different]

theorem Hops.some (hops : Hops trader minOut engine route running amountOut left)
    (long : 2 ≤ route.length) : running ≠ 0 := by
  cases hops with
  | last => exact absurd long (by simp)
  | hop swap wanted others =>
    have quoted := swap.quoted
    simp only [quoteExactIn, bind_ok, exists_unit, ensure_ok, Bool.and_eq_true, decide_eq_true_eq]
      at quoted
    exact quoted.1.1.1.1

/-- What a swap along a route leaves. -/
structure Routed (engine : TokenEngine) (route : List Bytes) (trader : Bytes)
    (amountIn minOut amountOut : UInt64) (left : TokenEngine) : Prop where
  enough : minOut ≤ amountOut
  balances : ∀ symbol user, ((balanceOf left symbol user).toNat : Int) =
    (balanceOf engine symbol user).toNat -
      (if symbol = route.headD [] ∧ user = trader then (amountIn.toNat : Int) else 0) +
      if symbol = route.getLastD [] ∧ user = trader then (amountOut.toNat : Int) else 0
  quoted : (hopKeys route).Nodup → quoteRouteExactIn engine route amountIn = .ok amountOut

/-- A swap along any route goes through and changes two balances of the trader, by its input
and by its output, or it changes no amount and no pool; through different pools its output is
the quote. -/
theorem route_atomic (engine : TokenEngine) (route : List Bytes) (trader : Bytes)
    (amountIn minOut : UInt64) :
    match swapRouteExactIn engine route trader amountIn minOut with
    | (.error _, left) => Alike engine left
    | (.ok amountOut, left) => Routed engine route trader amountIn minOut amountOut left := by
  obtain ⟨message, left, called, alike⟩ | ⟨amountOut, seen, left, called, long, alike, hops⟩ :=
    swapRouteExactIn_cases engine route trader amountIn minOut
  · rw [called]
    exact alike
  · rw [called]
    refine ⟨hops.enough long, fun symbol user => ?_, fun once => ?_⟩
    · rw [balanceOf_eq, balanceOf_eq, ← alike.balance]
      exact hops.balances symbol user
    · simp only [quoteRouteExactIn, bind_ok, exists_unit, ensure_ok, decide_eq_true_eq]
      exact ⟨long, hops.some long, hops.quoted once engine (fun key _ => by rw [alike.pools]) 0⟩

end Tokens

end Addition
