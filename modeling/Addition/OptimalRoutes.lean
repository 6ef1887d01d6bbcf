import Addition.BestRoutes

/-!
# The route that is found

In an engine that calls have reached every token of a pool is a token of the map, so that the
routes of the search are all simple routes that can be quoted. Their scores do not wrap: a
quote is so much smaller than a word that ten thousand times of it fit.
-/

namespace Addition

namespace Tokens

open ByteStrings Checked FiniteTables Amounts GrowingVectors ConstantProduct

/-- The tokens of an engine, in some order. -/
structure MapOrder (engine : TokenEngine) (allTokens : List Bytes) : Prop where
  nodup : allTokens.Nodup
  mem_iff : ∀ symbol, symbol ∈ allTokens ↔ (engine.tokens.lookup symbol).isSome = true

variable {engine : TokenEngine}

theorem MapOrder.of_perm {allTokens : List Bytes}
    (same : allTokens.Perm engine.tokens.keys) : MapOrder engine allTokens := by
  refine ⟨same.nodup_iff.mpr engine.tokens.keys_nodup, fun symbol => ?_⟩
  rw [same.mem_iff, AList.lookup_isSome]
  rfl

/-- A simple route of at most so many pools, and what it quotes. -/
structure Candidate (engine : TokenEngine) (tokenIn tokenOut : Bytes) (amountIn : UInt64) (hops : Nat)
    (route : List Bytes) (q : UInt64) : Prop where
  simple : route.Nodup
  starts : route.head? = some tokenIn
  ends : route.getLast? = some tokenOut
  short : route.length ≤ hops + 1
  quoted : quoteRouteExactIn engine route amountIn = .ok q

/-- The score of a route over the natural numbers. -/
def penalised (route : List Bytes) (q : UInt64) : Nat :=
  q.toNat * (10000 - 7 * (route.length - 1 - 1)) / 10000

/-- An outcome of the search: the best route, or the failure when there is none that scores. -/
def BestOutcome (engine : TokenEngine) (tokenIn tokenOut : Bytes) (amountIn : UInt64) (hops : Nat) :
    Except String (List Bytes × UInt64) → Prop
  | .ok (route, q) => Candidate engine tokenIn tokenOut amountIn hops route q ∧
      ∀ other amount, Candidate engine tokenIn tokenOut amountIn hops other amount →
        penalised other amount < penalised route q ∨
          penalised other amount = penalised route q ∧ amount ≤ q
  | .error _ => ∀ route q, Candidate engine tokenIn tokenOut amountIn hops route q →
      penalised route q = 0

/-! ### Quotes along a route -/

theorem quoteHops_cons (engine : TokenEngine) (hop : Nat) (tokenIn tokenOut : Bytes)
    (rest : List Bytes) (running q : UInt64) :
    quoteHops engine hop (tokenIn :: tokenOut :: rest) running = .ok q ↔
      ∃ hopOut, quoteExactIn engine tokenIn tokenOut running = .ok hopOut ∧
        quoteHops engine (hop + 1) (tokenOut :: rest) hopOut = .ok q := by
  rw [quoteHops]
  cases quoted : quoteExactIn engine tokenIn tokenOut running with
  | error message => simp
  | ok hopOut => simp

/-- The number of the hop is for the message only. -/
theorem quoteHops_shift (engine : TokenEngine) (hop other : Nat) (route : List Bytes)
    (running q : UInt64) (quoted : quoteHops engine hop route running = .ok q) :
    quoteHops engine other route running = .ok q := by
  induction route generalizing hop other running with
  | nil => exact quoted
  | cons tokenIn rest ih =>
    cases rest with
    | nil => exact quoted
    | cons tokenOut rest =>
      obtain ⟨hopOut, first, others⟩ := (quoteHops_cons ..).mp quoted
      exact (quoteHops_cons ..).mpr ⟨hopOut, first, ih _ _ hopOut others⟩

/-- The output of a route is the output of its last hop. -/
theorem quoteHops_last (engine : TokenEngine) (hop : Nat) (route : List Bytes) (running q : UInt64)
    (long : 2 ≤ route.length) (quoted : quoteHops engine hop route running = .ok q) :
    ∃ tokenIn tokenOut amount, route.getLast? = some tokenOut ∧
      quoteExactIn engine tokenIn tokenOut amount = .ok q := by
  induction route generalizing hop running with
  | nil => exact absurd long (by simp)
  | cons tokenIn rest ih =>
    cases rest with
    | nil => exact absurd long (by simp)
    | cons tokenOut rest =>
      obtain ⟨hopOut, first, others⟩ := (quoteHops_cons ..).mp quoted
      cases rest with
      | nil =>
        cases others
        exact ⟨tokenIn, tokenOut, running, rfl, first⟩
      | cons next rest =>
        rw [List.getLast?_cons_cons]
        exact ih _ hopOut (by simp) others

theorem quote_some {tokenIn tokenOut : Bytes} {amountIn q : UInt64}
    (quoted : quoteExactIn engine tokenIn tokenOut amountIn = .ok q) :
    tokenIn ≠ [] ∧ tokenOut ≠ [] := by
  simp only [quoteExactIn, bind_ok, exists_unit, ensure_ok, Bool.and_eq_true, Bool.not_eq_true',
    List.isEmpty_eq_false_iff] at quoted
  exact ⟨quoted.1.1.1.2, quoted.1.1.2⟩

section Lawful

variable {engine : TokenEngine} (lawful : Lawful engine)
include lawful

variable {amountIn q : UInt64} {tokenIn tokenOut : Bytes} {allTokens : List Bytes} {hops : Nat}
  {route : List Bytes}

/-- Ten thousand times of a quote are below the product of which it is the quotient. -/
theorem quote_small (quoted : quoteExactIn engine tokenIn tokenOut amountIn = .ok q) :
    0 < q.toNat ∧ q.toNat * 10000 < 2 ^ 64 := by
  obtain ⟨pool, -, quote⟩ := quoteExactIn_ok quoted (fun pool found => (lawful.pools _ pool found).charged)
  refine ⟨quote.positive, ?_⟩
  have den : 10000 ≤ (pool.sides tokenIn).1.toNat * 10000 + amountIn.toNat * pool.multiplier := by
    have filled := quote.filled
    omega
  have whole := Nat.div_mul_le_self (amountIn.toNat * pool.multiplier * (pool.sides tokenIn).2.toNat)
    ((pool.sides tokenIn).1.toNat * 10000 + amountIn.toNat * pool.multiplier)
  have least := Nat.mul_le_mul_left q.toNat den
  rw [quote.value] at least ⊢
  unfold bought at least ⊢
  have fits := quote.fits.2.1
  omega

/-- The token that a hop goes to is in the map. -/
theorem quote_listed (quoted : quoteExactIn engine tokenIn tokenOut amountIn = .ok q) :
    (engine.tokens.lookup tokenOut).isSome = true := by
  obtain ⟨pool, found, -⟩ := quoteExactIn_ok quoted (fun pool found => (lawful.pools _ pool found).charged)
  obtain ⟨exists0, exists1⟩ := lawful.listed _ pool found
  obtain ⟨-, ⟨-, rfl⟩ | ⟨-, rfl⟩⟩ := (lawful.pools _ pool found).paired.pair
  · exact exists1
  · exact exists0

/-! ### Routes -/

omit lawful in
/-- What the search comes to, is a path that quotes. -/
theorem Extends.quotes {path further : List Bytes} {running amount : UInt64}
    (reached : Extends engine allTokens tokenOut hops path running further amount) :
    ∃ rest, further = path ++ rest ∧ rest.length ≤ hops ∧ (path.Nodup → further.Nodup) ∧
      quoteHops engine 0 (path.getLastD [] :: rest) running = .ok amount := by
  induction reached with
  | here hops path running => exact ⟨[], by simp, Nat.zero_le _, id, rfl⟩
  | @hop hops path further running hopOut amount next _ _ new quoted _ ih =>
    obtain ⟨rest, isRest, short, simple, quotes⟩ := ih
    rw [List.getLastD_concat] at quotes
    refine ⟨next :: rest, by rw [isRest, List.append_assoc]; rfl, by simpa using short, ?_, ?_⟩
    · intro nodup
      refine simple (List.nodup_append.mpr ⟨nodup, List.nodup_singleton next, ?_⟩)
      rintro token member _ last rfl
      exact new (List.mem_singleton.mp last ▸ member)
    · exact (quoteHops_cons ..).mpr ⟨hopOut, quoted, quoteHops_shift engine 0 1 _ _ _ quotes⟩

/-- Induction on the rest of the path: the search comes to every simple path that quotes and
ends in the last token. -/
theorem extends_of_quotes (order : MapOrder engine allTokens)
    (rest : List Bytes) (hops : Nat) (path : List Bytes) (running amount : UInt64)
    (someToken : path ≠ []) (simple : (path ++ rest).Nodup)
    (ends : (path ++ rest).getLast? = some tokenOut) (short : rest.length ≤ hops)
    (quotes : quoteHops engine 0 (path.getLastD [] :: rest) running = .ok amount) :
    Extends engine allTokens tokenOut hops path running (path ++ rest) amount := by
  induction rest generalizing hops path running with
  | nil =>
    cases quotes
    rw [List.append_nil]
    exact .here hops path amount
  | cons next rest ih =>
    obtain ⟨hopOut, first, others⟩ := (quoteHops_cons ..).mp quotes
    have same : path ++ next :: rest = path ++ [next] ++ rest := by simp
    obtain ⟨-, -, apart⟩ := List.nodup_append.mp simple
    have last : tokenOut ∈ next :: rest :=
      List.mem_of_getLast? ((List.getLast?_append_of_ne_nil path (by simp)).symm.trans ends)
    cases hops with
    | zero => exact absurd short (by simp)
    | succ hops =>
      rw [same]
      refine .hop ?_ ((order.mem_iff next).mpr (quote_listed lawful first))
        (fun member => apart next member next (List.mem_cons_self ..) rfl) first
        (ih hops (path ++ [next]) hopOut (by simp) (same ▸ simple) (same ▸ ends)
          (by simpa using short) ?_)
      · rintro ⟨arrived, -⟩
        refine apart tokenOut ?_ tokenOut last rfl
        rw [← arrived, List.getLastD_eq_getLast?, List.getLast?_eq_some_getLast someToken]
        exact List.getLast_mem someToken
      · rw [List.getLastD_concat]
        exact quoteHops_shift engine 1 0 _ _ _ others

/-- The search completes a route exactly when it is a candidate. -/
theorem completes_iff (order : MapOrder engine allTokens)
    (tokenIn tokenOut : Bytes) (amountIn : UInt64) (given : amountIn ≠ 0) (hops : Nat)
    (route : List Bytes) (q : UInt64) :
    Completes engine allTokens tokenOut hops [tokenIn] amountIn route q ↔
      Candidate engine tokenIn tokenOut amountIn hops route q := by
  constructor
  · rintro ⟨reached, arrived⟩
    obtain ⟨rest, rfl, short, simple, quotes⟩ := reached.quotes
    refine ⟨simple (List.nodup_singleton _), rfl, ?_, by simpa using short, ?_⟩
    · have ends := arrived.1
      rw [List.getLastD_eq_getLast?, List.singleton_append, List.getLast?_cons] at ends
      rw [List.singleton_append, List.getLast?_cons]
      exact congrArg some ends
    · simp only [quoteRouteExactIn, bind_ok, exists_unit, ensure_ok, decide_eq_true_eq]
      exact ⟨arrived.2, given, quotes⟩
  · intro candidate
    have quoted := candidate.quoted
    simp only [quoteRouteExactIn, bind_ok, exists_unit, ensure_ok, decide_eq_true_eq] at quoted
    obtain ⟨long, -, quotes⟩ := quoted
    have starts := candidate.starts
    cases route with
    | nil => exact absurd starts (by simp)
    | cons first rest =>
      cases Option.some.inj starts
      have ends := candidate.ends
      refine ⟨extends_of_quotes lawful order rest hops [tokenIn] amountIn q (by simp) candidate.simple ends
        (by simpa using candidate.short) quotes, ?_, long⟩
      rw [List.getLastD_eq_getLast?, ends]
      rfl

/-! ### Scores -/

theorem Candidate.bounds (candidate : Candidate engine tokenIn tokenOut amountIn hops route q) :
    2 ≤ route.length ∧ 0 < q.toNat ∧ q.toNat * 10000 < 2 ^ 64 := by
  have quoted := candidate.quoted
  simp only [quoteRouteExactIn, bind_ok, exists_unit, ensure_ok, decide_eq_true_eq] at quoted
  obtain ⟨long, -, quotes⟩ := quoted
  obtain ⟨before, last, amount, -, first⟩ := quoteHops_last engine 0 route amountIn q long quotes
  exact ⟨long, quote_small lawful first⟩

/-- The score of the search is the score over the natural numbers. -/
theorem Candidate.score (candidate : Candidate engine tokenIn tokenOut amountIn hops route q)
    (atMost : hops ≤ 4) : (scoreOf route q).toNat = penalised route q := by
  obtain ⟨long, -, small⟩ := candidate.bounds lawful
  have short := candidate.short
  have pools : route.length - 1 = 1 ∨ route.length - 1 = 2 ∨ route.length - 1 = 3 ∨
      route.length - 1 = 4 := by omega
  have exact : ∀ factor : UInt64, factor.toNat ≤ 10000 →
      (q * factor / 10000).toNat = q.toNat * factor.toNat / 10000 := by
    intro factor below
    have bound := Nat.mul_le_mul_left q.toNat below
    rw [UInt64.toNat_div, UInt64.toNat_mul, Nat.mod_eq_of_lt (by omega)]
    rfl
  unfold scoreOf penalised routeScore
  obtain one | two | three | four := pools
  · rw [one]
    exact exact (10000 - min 9999 (7 * (UInt64.ofNat 1 - 1))) (by decide)
  · rw [two]
    exact exact (10000 - min 9999 (7 * (UInt64.ofNat 2 - 1))) (by decide)
  · rw [three]
    exact exact (10000 - min 9999 (7 * (UInt64.ofNat 3 - 1))) (by decide)
  · rw [four]
    exact exact (10000 - min 9999 (7 * (UInt64.ofNat 4 - 1))) (by decide)

end Lawful

/-! ### The call -/

theorem clampHops_le (maxHops : Nat) : clampHops maxHops ≤ 4 := by
  unfold clampHops
  split
  · decide
  · split <;> omega

theorem atWork_start (tokenIn : Bytes) :
    AtWork [tokenIn] ⟨.single tokenIn, {tokenIn}, ⟨0, 0, 0, []⟩⟩ :=
  ⟨rfl, fun token => by rw [Finset.mem_singleton, List.mem_singleton], rfl⟩

variable {amountIn : UInt64} {hops : Nat} {tokenIn tokenOut : Bytes}

/-- There is no route for a pair that is refused before the search. -/
theorem Candidate.pair {q : UInt64} {route : List Bytes}
    (candidate : Candidate engine tokenIn tokenOut amountIn hops route q) :
    tokenIn ≠ [] ∧ tokenOut ≠ [] ∧ tokenIn ≠ tokenOut := by
  have quoted := candidate.quoted
  simp only [quoteRouteExactIn, bind_ok, exists_unit, ensure_ok, decide_eq_true_eq] at quoted
  obtain ⟨long, -, quotes⟩ := quoted
  obtain ⟨before, last, amount, isLast, ends⟩ := quoteHops_last engine 0 route amountIn q long quotes
  cases Option.some.inj (candidate.ends.symm.trans isLast)
  have starts := candidate.starts
  have simple := candidate.simple
  cases route with
  | nil => exact absurd long (by simp)
  | cons first after =>
    cases after with
    | nil => exact absurd long (by simp)
    | cons second rest =>
      cases Option.some.inj starts
      obtain ⟨hopOut, first, -⟩ := (quoteHops_cons ..).mp quotes
      refine ⟨(quote_some first).1, (quote_some ends).2, ?_⟩
      rintro rfl
      rw [List.getLast?_cons_cons] at isLast
      exact (List.nodup_cons.mp simple).1 (List.mem_of_getLast? isLast)

/-- What the search keeps, is the outcome that is asked for. -/
theorem Improves.outcome (lawful : Lawful engine) (atMost : hops ≤ 4) {best : Best}
    (improves : Improves (Candidate engine tokenIn tokenOut amountIn hops) ⟨0, 0, 0, []⟩ best) :
    BestOutcome engine tokenIn tokenOut amountIn hops
      (if best.route.isEmpty ∨ best.out = 0 then .error "no viable route" else .ok (best.route, best.out)) := by
  obtain rfl | ⟨route, q, candidate, isRoute, isOut, isScore⟩ := improves.chosen
  · intro route q candidate
    have positive := (candidate.bounds lawful).2.1
    obtain less | ⟨-, zero⟩ := improves.covers route q candidate
    · exact absurd (UInt64.lt_iff_toNat_lt.mp less) (Nat.not_lt_zero _)
    · have none := UInt64.le_iff_toNat_le.mp zero
      exact absurd none (Nat.not_le.mpr positive)
  · have bounds := candidate.bounds lawful
    have found : ¬ (best.route.isEmpty ∨ best.out = 0) := by
      rintro (empty | zero)
      · rw [isRoute, List.isEmpty_iff] at empty
        rw [empty] at bounds
        exact absurd bounds.1 (by simp)
      · rw [isOut] at zero
        rw [zero] at bounds
        exact absurd bounds.2.1 (Nat.lt_irrefl 0)
    rw [if_neg found, isRoute, isOut]
    refine ⟨candidate, fun other amount candidate' => ?_⟩
    rw [← candidate.score lawful atMost, ← candidate'.score lawful atMost, ← isScore]
    obtain less | ⟨same, most⟩ := improves.covers other amount candidate'
    · exact .inl (UInt64.lt_iff_toNat_lt.mp less)
    · exact .inr ⟨congrArg UInt64.toNat same, isOut ▸ most⟩

/-- The route that is found is the best one, or there is none, exactly when the call is defined:
when no level of the search has a token left to look at after a longer path through an earlier
token of it has moved the vector of the path. -/
theorem best_route_iff (engine : TokenEngine) (reachable : Reachable engine) (allTokens : List Bytes)
    (order : MapOrder engine allTokens) (tokenIn tokenOut : Bytes) (amountIn : UInt64)
    (given : amountIn ≠ 0) (maxHops : Nat) :
    (∃ outcome, bestRouteExactIn engine allTokens tokenIn tokenOut amountIn maxHops = some outcome ∧
      BestOutcome engine tokenIn tokenOut amountIn (clampHops maxHops) outcome) ↔
    tokenIn = [] ∨ tokenOut = [] ∨ tokenIn = tokenOut ∨
      SteadyFrom engine allTokens tokenOut (clampHops maxHops) [tokenIn] amountIn := by
  have lawful := reachable.lawful
  unfold bestRouteExactIn
  by_cases refused : tokenIn.isEmpty ∨ tokenOut.isEmpty ∨ tokenIn = tokenOut
  · rw [if_pos refused]
    simp only [List.isEmpty_iff] at refused
    refine iff_of_true ⟨_, rfl, fun route q candidate => ?_⟩ (by tauto)
    obtain ⟨someIn, someOut, different⟩ := candidate.pair
    tauto
  · rw [if_neg refused, if_neg given]
    simp only [List.isEmpty_iff] at refused
    have settles := dfs_settles engine allTokens tokenOut (clampHops maxHops) [tokenIn] amountIn _
      (atWork_start tokenIn)
    cases searched : dfs engine allTokens tokenOut (clampHops maxHops) amountIn
        ⟨.single tokenIn, {tokenIn}, ⟨0, 0, 0, []⟩⟩ with
    | none =>
      rw [searched] at settles
      refine iff_of_false (by simp) ?_
      have unsteady : ¬ SteadyFrom _ _ _ _ _ _ := settles
      tauto
    | some final =>
      rw [searched] at settles
      obtain ⟨steady, explored⟩ := settles
      refine iff_of_true ⟨_, rfl, ?_⟩ (.inr (.inr (.inr steady)))
      refine Improves.outcome lawful (clampHops_le maxHops) ?_
      have same : Completes engine allTokens tokenOut (clampHops maxHops) [tokenIn] amountIn =
          Candidate engine tokenIn tokenOut amountIn (clampHops maxHops) := by
        funext route q
        exact propext (completes_iff lawful order tokenIn tokenOut amountIn given _ route q)
      exact same ▸ explored.improves

/-- A search that ends was steady. -/
theorem searched_steady {allTokens : List Bytes}
    (ended : (dfs engine allTokens tokenOut hops amountIn
      ⟨.single tokenIn, {tokenIn}, ⟨0, 0, 0, []⟩⟩).isSome = true) :
    SteadyFrom engine allTokens tokenOut hops [tokenIn] amountIn := by
  obtain ⟨final, searched⟩ := Option.isSome_iff_exists.mp ended
  have settles := dfs_settles engine allTokens tokenOut hops [tokenIn] amountIn _ (atWork_start tokenIn)
  rw [searched] at settles
  exact settles.1

/-- The token with the last pool can be reached by a small pool, or by one more hop through two
larger ones. -/
def detour : List Operation :=
  ["A", "B", "C", "D", "X"].map (fun name =>
      .createToken (ascii name) (ascii "owner") 1000000 1000000) ++
    [("A", "B"), ("B", "X"), ("X", "C"), ("X", "D"), ("D", "C")].map (fun pair =>
      .createPool (ascii pair.1) (ascii pair.2) 0) ++
    [("A", "B", 1000), ("B", "X", 1000), ("X", "C", 1000), ("X", "D", 2000), ("D", "C", 2000)].map
      (fun pool => .addLiquidity (ascii pool.1) (ascii pool.2.1) (ascii "owner") 1000 pool.2.2)

/-- The order in which the tokens are met. -/
def detourOrder : List Bytes := ["C", "D", "X", "B", "A"].map ascii

/-- The shorter of two routes. -/
def shortRoute : List Bytes := ["A", "B", "X", "C"].map ascii

/-- The longer of them. -/
def longRoute : List Bytes := ["A", "B", "X", "D", "C"].map ascii

set_option maxRecDepth 100000 in
/-- The longer of the two routes pays more, and it is the one that is found. -/
theorem market_best_route : ∃ engine, performAll .initial detour = some engine ∧
    bestRouteExactIn engine detourOrder (ascii "A") (ascii "C") 100 4 = some (.ok (longRoute, 262)) ∧
      BestOutcome engine (ascii "A") (ascii "C") 100 4 (.ok (longRoute, 262)) ∧
      Candidate engine (ascii "A") (ascii "C") 100 4 shortRoute 75 := by
  have reading : (performAll .initial detour).map (fun engine =>
      (decide (detourOrder.Perm engine.tokens.keys) &&
        (dfs engine detourOrder (ascii "C") 4 100 ⟨.single (ascii "A"), {ascii "A"}, ⟨0, 0, 0, []⟩⟩).isSome &&
        decide ((bestRouteExactIn engine detourOrder (ascii "A") (ascii "C") 100 4).bind Except.toOption =
          some (longRoute, 262)),
        (quoteRouteExactIn engine shortRoute 100).toOption)) = some (true, some 75) := by
    decide +kernel
  obtain ⟨engine, ran, values⟩ := Option.map_eq_some_iff.mp reading
  simp only [Prod.mk.injEq, Bool.and_eq_true, decide_eq_true_eq] at values
  obtain ⟨⟨⟨listed, ended⟩, found⟩, quoted⟩ := values
  obtain ⟨outcome, called, best⟩ := (best_route_iff engine ⟨detour, ran⟩ detourOrder (.of_perm listed)
    (ascii "A") (ascii "C") 100 (by decide) 4).mpr (.inr (.inr (.inr (searched_steady ended))))
  have isLong : outcome = .ok (longRoute, 262) := by
    rw [called, Option.bind_some] at found
    exact toOption_ok found
  rw [isLong] at called best
  exact ⟨engine, ran, called, best, ⟨by decide, rfl, rfl, by decide, toOption_ok quoted⟩⟩

/-- Three tokens and a direct pool for the pair; after another pool the level that quotes it reads
a reference into a vector that has moved. -/
def crossroads : List Operation :=
  [.createToken (ascii "A") (ascii "owner") 1000000 1000000,
    .createToken (ascii "B") (ascii "owner") 1000000 1000000,
    .createToken (ascii "C") (ascii "owner") 1000000 1000000,
    .createPool (ascii "A") (ascii "B") 0,
    .createPool (ascii "A") (ascii "C") 0,
    .addLiquidity (ascii "A") (ascii "B") (ascii "owner") 1000 1000,
    .addLiquidity (ascii "A") (ascii "C") (ascii "owner") 1000 1000]

set_option maxRecDepth 100000 in
/-- At the crossroads the search reads a vector that has moved. -/
theorem crossroads_undefined : ∃ engine, performAll .initial crossroads = some engine ∧
    MapOrder engine [ascii "B", ascii "C", ascii "A"] ∧
    Candidate engine (ascii "A") (ascii "C") 100 4 [ascii "A", ascii "C"] 90 ∧
    bestRouteExactIn engine [ascii "B", ascii "C", ascii "A"] (ascii "A") (ascii "C") 100 4 = none := by
  have reading : (performAll .initial crossroads).map (fun engine =>
      (decide ([ascii "B", ascii "C", ascii "A"].Perm engine.tokens.keys),
        (quoteRouteExactIn engine [ascii "A", ascii "C"] 100).toOption,
        (bestRouteExactIn engine [ascii "B", ascii "C", ascii "A"] (ascii "A") (ascii "C") 100
          4).isNone)) = some (true, some 90, true) := by
    decide +kernel
  obtain ⟨engine, ran, values⟩ := Option.map_eq_some_iff.mp reading
  simp only [Prod.mk.injEq, decide_eq_true_eq, Option.isNone_iff_eq_none] at values
  obtain ⟨order, quoted, undefined⟩ := values
  exact ⟨engine, ran, .of_perm order, ⟨by decide, rfl, rfl, by decide, toOption_ok quoted⟩, undefined⟩

end Tokens

end Addition
