import Addition.Foundations.GrowingVectors
import Addition.Routes

/-!
# The search for a route

The search goes depth first through the tokens in the order of their map and shares the path,
the marks and the best route found so far between its levels. Each level keeps a reference to
the last token of the path while it pushes further tokens onto the path; when the vector of the
path has moved, what the level reads through the reference is undefined, and so is the call.
-/

namespace Addition

namespace Tokens

open ByteStrings Checked FiniteTables Amounts GrowingVectors

/-- The best route found so far. -/
structure Best where
  out : UInt64
  score : UInt64
  bottleneckLiquidity : UInt64
  route : List Bytes

/-- What the levels of the search share. -/
structure Search where
  current : Vec Bytes
  used : Finset Bytes
  best : Best

/-- `route_score`. -/
def routeScore (q hopCount : UInt64) : UInt64 := q * (10000 - min 9999 (7 * (hopCount - 1))) / 10000

/-- The smallest input reserve along a route. -/
def bottleneck (engine : TokenEngine) : List Bytes → UInt64 → UInt64
  | tokenIn :: tokenOut :: rest, liquidity =>
    match engine.pools.lookup (poolKey tokenIn tokenOut) with
    | none => 0
    | some pool => bottleneck engine (tokenOut :: rest) (min liquidity (pool.sides tokenIn).1)
  | _, liquidity => liquidity

/-- The comparison at the end of a route. -/
def Best.consider (best : Best) (engine : TokenEngine) (route : List Bytes) (q : UInt64) : Best :=
  let score := routeScore q (.ofNat (route.length - 1))
  let liquidity := bottleneck engine route wordMax
  if best.score < score ∨ score = best.score ∧ best.out < q ∨
      score = best.score ∧ q = best.out ∧ best.bottleneckLiquidity < liquidity then
    ⟨q, score, liquidity, route⟩
  else best

/-- One turn of the loop over the tokens, on a level that holds a reference to its token. -/
def visit (engine : TokenEngine) (deeper : UInt64 → Search → Option Search) (cur : Ref Bytes)
    (running : UInt64) (search : Search) (next : Bytes) : Option Search :=
  if next ∈ search.used then some search
  else
    (search.current.read cur).bind (fun token =>
      match quoteExactIn engine token next running with
      | .error _ => some search
      | .ok hopOut =>
        (deeper hopOut { search with
          used := insert next search.used
          current := search.current.push next }).map (fun left =>
            { left with current := left.current.pop, used := left.used.erase next }))

/-- The loop over the tokens. -/
def visitAll (engine : TokenEngine) (deeper : UInt64 → Search → Option Search) (cur : Ref Bytes)
    (running : UInt64) : List Bytes → Search → Option Search
  | [], search => some search
  | next :: rest, search =>
    (visit engine deeper cur running search next).bind (visitAll engine deeper cur running rest)

/-- `dfs`, by the number of hops that are left. -/
def dfs (engine : TokenEngine) (allTokens : List Bytes) (tokenOut : Bytes) :
    Nat → UInt64 → Search → Option Search
  | hops, running, search =>
    if (search.current.back []).item = tokenOut ∧ 2 ≤ search.current.items.length then
      some { search with best := search.best.consider engine search.current.items running }
    else
      match hops with
      | 0 => some search
      | hops + 1 => visitAll engine (dfs engine allTokens tokenOut hops) (search.current.back []) running
          allTokens search

/-- `max_hops` between one and four. -/
def clampHops (maxHops : Nat) : Nat := if maxHops < 1 then 1 else if 4 < maxHops then 4 else maxHops

/-- `best_route_exact_in` on a map of tokens with this order; nothing when the call is undefined. -/
def bestRouteExactIn (engine : TokenEngine) (allTokens : List Bytes) (tokenIn tokenOut : Bytes)
    (amountIn : UInt64) (maxHops : Nat) : Option (Except String (List Bytes × UInt64)) :=
  if tokenIn.isEmpty ∨ tokenOut.isEmpty ∨ tokenIn = tokenOut then some (.error "invalid token pair")
  else if amountIn = 0 then some (.error "amount_in must be > 0")
  else
    (dfs engine allTokens tokenOut (clampHops maxHops) amountIn
      ⟨.single tokenIn, {tokenIn}, ⟨0, 0, 0, []⟩⟩).map (fun search =>
        if search.best.route.isEmpty ∨ search.best.out = 0 then .error "no viable route"
        else .ok (search.best.route, search.best.out))

end Tokens

end Addition
