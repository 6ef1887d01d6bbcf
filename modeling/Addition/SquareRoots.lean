import Addition.Foundations.NewtonRoots
import Addition.TokenRuns

/-!
# The integer square root of the token engine

The first loop of the root is Newton's iteration on words. It returns exactly when it has a
fixed point, and then the other two loops have nothing to do. For a number whose successor
is a square it goes up and down between two numbers for ever, or it wraps and divides by zero
at the top of the range.
-/

namespace Addition

namespace Tokens

open ByteStrings Checked FiniteTables Amounts NewtonRoots

/-! ### Loops -/

/-- A loop whose steps go on with a smaller rank returns. -/
theorem loop_returns {σ : Type} {continues : σ → Bool} {body : σ → Option σ} (Inv : σ → Prop)
    (rank : σ → Nat)
    (steps : ∀ state, Inv state → continues state = true →
      ∃ next, body state = some next ∧ Inv next ∧ rank next < rank state)
    (fuel : Nat) (state : σ) (holds : Inv state) (enough : rank state < fuel) :
    ∃ final, loop continues body fuel state = some final ∧ Inv final ∧ continues final = false := by
  induction fuel generalizing state with
  | zero => exact absurd enough (Nat.not_lt_zero _)
  | succ fuel ih =>
    rw [loop]
    cases going : continues state with
    | false => exact ⟨state, rfl, holds, going⟩
    | true =>
      obtain ⟨next, stepped, kept, less⟩ := steps state holds going
      rw [if_pos rfl, stepped]
      exact ih next kept (by omega)

/-- A loop that returns has kept its invariant and wants no further step. -/
theorem loop_some {σ : Type} {continues : σ → Bool} {body : σ → Option σ} (Inv : σ → Prop)
    (steps : ∀ state next, Inv state → body state = some next → Inv next) (fuel : Nat)
    (state final : σ) (holds : Inv state) (done : loop continues body fuel state = some final) :
    Inv final ∧ continues final = false := by
  induction fuel generalizing state with
  | zero => exact absurd done (by simp [loop])
  | succ fuel ih =>
    rw [loop] at done
    split at done
    · obtain ⟨next, stepped, rest⟩ := Option.bind_eq_some_iff.mp done
      exact ih next (steps state next holds stepped) rest
    · rename_i stopped
      exact Option.some.inj done ▸ ⟨holds, by simpa using stopped⟩

/-- A loop that wants no step returns at once. -/
theorem loop_idle {σ : Type} (continues : σ → Bool) (body : σ → Option σ) (state : σ)
    (stopped : continues state = false) (fuel : Nat) (positive : 0 < fuel) :
    loop continues body fuel state = some state := by
  obtain ⟨rest, rfl⟩ : ∃ rest, fuel = rest + 1 := ⟨fuel - 1, by omega⟩
  rw [loop, if_neg (by simp [stopped])]

/-! ### Newton's iteration on words -/

/-- The step of the first loop. -/
def newtonWord (x r : UInt64) : UInt64 := (r + x / r) / 2

theorem newtonWord_toNat (x r : UInt64) (positive : r ≠ 0) (within : r ≤ x)
    (narrow : x.toNat + 1 < 2 ^ 64) : (newtonWord x r).toNat = newton x.toNat r.toNat := by
  have bound := add_div_le x.toNat r.toNat (positive_of_ne_zero positive)
    (UInt64.le_iff_toNat_le.mp within)
  unfold newtonWord newton
  rw [UInt64.toNat_div, UInt64.toNat_add, UInt64.toNat_div, Nat.mod_eq_of_lt (by omega)]
  rfl

/-- A fixed point on words is one on numbers. -/
theorem newtonWord_fixed (x r : UInt64) (fixed : newtonWord x r = r) :
    newton x.toNat r.toNat = r.toNat := by
  have value := congrArg UInt64.toNat fixed
  unfold newtonWord at value
  rw [UInt64.toNat_div, UInt64.toNat_add, UInt64.toNat_div] at value
  have two : (2 : UInt64).toNat = 2 := rfl
  have bound := x.toNat_lt
  have quotient := Nat.div_le_self x.toNat r.toNat
  have root := r.toNat_lt
  rw [two] at value
  unfold newton
  by_cases narrow : r.toNat + x.toNat / r.toNat < 2 ^ 64
  · rwa [Nat.mod_eq_of_lt narrow] at value
  · omega

/-- The number has no successor that is a square, but for zero, which is answered at once. -/
def Rootable (x : Nat) : Prop := x = 0 ∨ ¬ ∃ s, x + 1 = s * s

/-- One step of the first loop comes nearer to the root. -/
theorem newton_goes (x : UInt64) (root : 0 < Nat.sqrt x.toNat) (narrow : x.toNat + 1 < 2 ^ 64)
    (square : ¬ x.toNat + 1 = (Nat.sqrt x.toNat + 1) * (Nat.sqrt x.toNat + 1)) (r prev : UInt64)
    (above : Nat.sqrt x.toNat ≤ r.toNat) (within : r ≤ x) (different : r ≠ prev) :
    ∃ next : UInt64 × UInt64,
      (if r = 0 then none else some ((r + x / r) / 2, r)) = some next ∧
      (Nat.sqrt x.toNat ≤ next.1.toNat ∧ next.1 ≤ x ∧
        (next.1 = next.2 → next.1.toNat = Nat.sqrt x.toNat)) ∧
      2 * (next.1.toNat - Nat.sqrt x.toNat) + (if next.1 = next.2 then 0 else 1) <
        2 * (r.toNat - Nat.sqrt x.toNat) + (if r = prev then 0 else 1) := by
  have some : r ≠ 0 := ne_zero_of_positive (by omega)
  have value := newtonWord_toNat x r some within narrow
  have positive : 0 < r.toNat := by omega
  refine ⟨(newtonWord x r, r), if_neg some, ⟨?_, ?_, fun fixed => ?_⟩, ?_⟩
  · rw [value]
    exact sqrt_le_newton x.toNat r.toNat positive
  · have bound := add_div_le x.toNat r.toNat positive (UInt64.le_iff_toNat_le.mp within)
    have number : 0 < x.toNat := Nat.sqrt_pos.mp root
    rw [UInt64.le_iff_toNat_le, value]
    unfold newton
    omega
  · rw [fixed]
    exact (newton_fixed x.toNat r.toNat positive (newtonWord_fixed x r fixed)).1
  · dsimp only
    rw [if_neg different, value]
    obtain larger | isRoot := Nat.lt_or_eq_of_le above
    · have less := newton_lt x.toNat r.toNat larger
      split <;> omega
    · -- the root is a fixed point, and the loop ends with the next test
      have fixed : newton x.toNat r.toNat = r.toNat := by
        rw [← isRoot]
        exact newton_sqrt x.toNat (Nat.sqrt_pos.mp root) square
      rw [if_pos (UInt64.toNat_inj.mp (value.trans fixed)), fixed]
      omega

/-- The first loop. -/
def newtonLoop (x : UInt64) : Option (UInt64 × UInt64) :=
  loop (fun (r, prev) => r != prev)
    (fun (r, _) => if r = 0 then none else some ((r + x / r) / 2, r)) (2 ^ 128) (x, 0)

theorem newtonLoop_returns (x : UInt64) (nonzero : x ≠ 0) (free : ¬ ∃ s, x.toNat + 1 = s * s) :
    ∃ r prev, newtonLoop x = some (r, prev) ∧ r.toNat = Nat.sqrt x.toNat := by
  have positive := positive_of_ne_zero nonzero
  have root : 0 < Nat.sqrt x.toNat := Nat.sqrt_pos.mpr positive
  have narrow : x.toNat + 1 < 2 ^ 64 := by
    have bound := x.toNat_lt
    by_contra wide
    exact free ⟨2 ^ 32, by omega⟩
  have square := mt (succ_square_iff x.toNat).mpr free
  have returns : ∃ final, newtonLoop x = some final ∧
      (Nat.sqrt x.toNat ≤ final.1.toNat ∧ final.1 ≤ x ∧
        (final.1 = final.2 → final.1.toNat = Nat.sqrt x.toNat)) ∧
      (final.1 != final.2) = false := by
    refine loop_returns _ (fun state => 2 * (state.1.toNat - Nat.sqrt x.toNat) +
      if state.1 = state.2 then 0 else 1) (fun state holds going => ?_) (2 ^ 128) (x, 0)
      ⟨Nat.sqrt_le_self _, UInt64.le_refl _, fun zero => absurd zero nonzero⟩ ?_
    · exact newton_goes x root narrow square state.1 state.2 holds.1 holds.2.1 (by simpa using going)
    · have bound := x.toNat_lt
      dsimp only
      split <;> omega
  obtain ⟨⟨r, prev⟩, done, ⟨-, -, isRoot⟩, stopped⟩ := returns
  exact ⟨r, prev, done, isRoot (by simpa using stopped)⟩

/-- Between two numbers the first loop goes up and down for ever. -/
theorem newtonLoop_none (x : UInt64) (nonzero : x ≠ 0) (square : ∃ s, x.toNat + 1 = s * s) :
    newtonLoop x = none := by
  cases done : newtonLoop x with
  | none => rfl
  | some final =>
    have ended : final.1 ≠ final.2 ∧ (final.1 != final.2) = false := by
      refine loop_some (fun state : UInt64 × UInt64 => state.1 ≠ state.2)
        (fun state next _ stepped => ?_) (2 ^ 128) (x, 0) final nonzero done
      dsimp only at stepped
      split at stepped
      · exact absurd stepped (by simp)
      · rename_i some
        cases Option.some.inj stepped
        intro fixed
        obtain ⟨isRoot, less⟩ := newton_fixed x.toNat state.1.toNat (positive_of_ne_zero some)
          (newtonWord_fixed x state.1 fixed)
        rw [isRoot] at less
        exact absurd ((succ_square_iff x.toNat).mp square) (Nat.ne_of_lt less)
    exact absurd ended.1 (by simpa using ended.2)

/-! ### The root -/

/-- The root of a number whose successor is no square. -/
theorem isqrtU64_some (x : UInt64) (free : Rootable x.toNat) :
    ∃ r, isqrtU64 x = some r ∧ r.toNat = Nat.sqrt x.toNat := by
  unfold isqrtU64
  by_cases zero : x = 0
  · rw [if_pos zero, zero]
    exact ⟨0, rfl, rfl⟩
  · have number : x.toNat ≠ 0 := fun same => zero (UInt64.toNat_inj.mp same)
    obtain ⟨r, prev, done, isRoot⟩ := newtonLoop_returns x zero (free.resolve_left number)
    have low := Nat.sqrt_le x.toNat
    have high := Nat.lt_succ_sqrt x.toNat
    have bound := x.toNat_lt
    rw [← isRoot] at low high
    simp only [Nat.succ_eq_add_one] at high
    have one : (1 : UInt64).toNat = 1 := rfl
    have small : r.toNat < 2 ^ 32 := by
      by_contra large
      have squared := Nat.mul_self_le_mul_self (Nat.not_lt.mp large)
      omega
    have next : (r + 1).toNat = r.toNat + 1 := by
      rw [UInt64.toNat_add, one]
      exact Nat.mod_eq_of_lt (by omega)
    have same : (r * r).toNat = r.toNat * r.toNat := by
      rw [UInt64.toNat_mul]
      exact Nat.mod_eq_of_lt (by omega)
    have upward : (decide (r + 1 ≤ wordMax / (r + 1)) && decide ((r + 1) * (r + 1) ≤ x)) = false := by
      rw [Bool.and_eq_false_iff, decide_eq_false_iff_not, decide_eq_false_iff_not, ← not_and_or]
      rintro ⟨fits, reaches⟩
      rw [UInt64.le_iff_toNat_le, UInt64.toNat_div, next] at fits
      rw [UInt64.le_iff_toNat_le, UInt64.toNat_mul, next] at reaches
      have product : (r.toNat + 1) * (r.toNat + 1) ≤ wordMax.toNat :=
        (Nat.le_div_iff_mul_le (Nat.succ_pos _)).mp fits
      have most : wordMax.toNat = 2 ^ 64 - 1 := rfl
      rw [Nat.mod_eq_of_lt (by omega)] at reaches
      omega
    have downward : decide (x < r * r) = false := by
      rw [decide_eq_false_iff_not, UInt64.lt_iff_toNat_lt, same]
      omega
    refine ⟨r, ?_, isRoot⟩
    rw [if_neg zero]
    change (newtonLoop x).bind _ = some r
    rw [done, Option.bind_some]
    dsimp only
    have second := loop_idle (fun r : UInt64 => decide (r + 1 ≤ wordMax / (r + 1)) &&
      decide ((r + 1) * (r + 1) ≤ x)) (fun r => some (r + 1)) r upward
      (2 ^ 64) (Nat.two_pow_pos 64)
    have third := loop_idle (fun r : UInt64 => decide (x < r * r)) (fun r => some (r - 1)) r
      downward (2 ^ 64) (Nat.two_pow_pos 64)
    rw [second]
    exact third

theorem isqrtU64_none (x : UInt64) (square : ¬ Rootable x.toNat) : isqrtU64 x = none := by
  unfold Rootable at square
  rw [not_or, not_not] at square
  have nonzero : x ≠ 0 := by
    rintro rfl
    exact square.1 rfl
  unfold isqrtU64
  rw [if_neg nonzero]
  change (newtonLoop x).bind _ = none
  rw [newtonLoop_none x nonzero square.2]
  rfl

/-! ### The first liquidity of a pool -/

/-- A first liquidity that passes every check before the root is taken. -/
structure FirstLiquidity (engine : TokenEngine) (tokenA tokenB provider : Bytes)
    (amountA amountB : UInt64) (pool : Pool) : Prop where
  found : engine.pools.lookup (poolKey tokenA tokenB) = some pool
  empty : pool.lpTotalSupply = 0
  named : provider ≠ []
  someA : amountA ≠ 0
  someB : amountB ≠ 0
  rich0 : (if tokenA = pool.token0 then amountA else amountB) ≤
    (engine.token pool.token0).balance provider
  rich1 : (if tokenA = pool.token0 then amountB else amountA) ≤
    (engine.token pool.token1).balance provider
  fits : amountA.toNat * amountB.toNat < 2 ^ 64

/-- The shares for the first liquidity are the root of the product. -/
theorem firstShares_eq (add0 add1 : UInt64) (some0 : add0 ≠ 0) (some1 : add1 ≠ 0)
    (fits : add0.toNat * add1.toNat < 2 ^ 64) :
    ((∃ s, add0.toNat * add1.toNat + 1 = s * s) → firstShares add0 add1 = none) ∧
      ((¬ ∃ s, add0.toNat * add1.toNat + 1 = s * s) → ∃ minted,
        firstShares add0 add1 = some (.ok minted) ∧
          minted.toNat = Nat.sqrt (add0.toNat * add1.toNat)) := by
  have positive0 := positive_of_ne_zero some0
  have positive1 := positive_of_ne_zero some1
  have product : (add0 * add1).toNat = add0.toNat * add1.toNat := by
    rw [UInt64.toNat_mul]
    exact Nat.mod_eq_of_lt fits
  have within : ¬ wordMax / add1 < add0 := by
    have most : wordMax.toNat = 2 ^ 64 - 1 := rfl
    rw [UInt64.not_lt, UInt64.le_iff_toNat_le, UInt64.toNat_div, most]
    exact (Nat.le_div_iff_mul_le positive1).mpr (by omega)
  unfold firstShares
  rw [if_neg within]
  constructor
  · intro square
    rw [isqrtU64_none]
    · rfl
    · rw [Rootable, product, not_or, not_not]
      exact ⟨(Nat.mul_pos positive0 positive1).ne', square⟩
  · intro free
    obtain ⟨minted, root, value⟩ := isqrtU64_some (add0 * add1) (.inr (product ▸ free))
    rw [product] at value
    have some : minted ≠ 0 := by
      apply ne_zero_of_positive
      rw [value]
      exact Nat.sqrt_pos.mpr (Nat.mul_pos positive0 positive1)
    refine ⟨minted, ?_, value⟩
    rw [root, Option.map_some, if_neg some]

variable {engine : TokenEngine} {pool : Pool} {provider : Bytes} {amountA amountB : UInt64}
  {tokenA tokenB : Bytes}

theorem first_covered {add0 add1 : UInt64}
    (rich0 : add0 ≤ (engine.token pool.token0).balance provider)
    (rich1 : add1 ≤ (engine.token pool.token1).balance provider) :
    ¬ (((engine.touchBoth pool provider).token pool.token0).balance provider < add0 ∨
      ((engine.touchBoth pool provider).token pool.token1).balance provider < add1) := by
  have touched := alike_touchBoth engine pool provider
  rw [touched.balance pool.token0, touched.balance pool.token1, not_or, UInt64.not_lt, UInt64.not_lt]
  exact ⟨rich0, rich1⟩

/-- A first liquidity with a root that is never found. -/
theorem addToPool_stuck (engine : TokenEngine) (key : Bytes) (pool : Pool) (provider : Bytes)
    (add0 add1 : UInt64) (empty : pool.lpTotalSupply = 0)
    (rich0 : add0 ≤ (engine.token pool.token0).balance provider)
    (rich1 : add1 ≤ (engine.token pool.token1).balance provider)
    (stuck : firstShares add0 add1 = none) : addToPool engine key pool provider add0 add1 = none := by
  unfold addToPool
  dsimp only
  rw [if_neg (first_covered rich0 rich1), if_pos empty, stuck]
  rfl

/-- A first liquidity once its root is found. -/
theorem addToPool_rooted (engine : TokenEngine) (key : Bytes) (pool : Pool) (provider : Bytes)
    (add0 add1 minted : UInt64) (empty : pool.lpTotalSupply = 0)
    (rich0 : add0 ≤ (engine.token pool.token0).balance provider)
    (rich1 : add1 ≤ (engine.token pool.token1).balance provider)
    (computed : firstShares add0 add1 = some (.ok minted)) :
    ∃ outcome, addToPool engine key pool provider add0 add1 = some outcome ∧
      (outcome.1 = .ok () → ∃ left, outcome.2.pools.lookup key = some left ∧
        left.lpTotalSupply = minted) := by
  unfold addToPool
  dsimp only
  rw [if_neg (first_covered rich0 rich1), if_pos empty, computed, Option.map_some]
  refine ⟨_, rfl, ?_⟩
  dsimp only
  split
  · exact fun ok => absurd ok (by simp)
  · split
    · exact fun ok => absurd ok (by simp)
    · intro _
      refine ⟨_, (lookup_setPool _ key key _).trans (if_pos rfl), ?_⟩
      dsimp only
      rw [empty, UInt64.zero_add]

theorem FirstLiquidity.call
    (first : FirstLiquidity engine tokenA tokenB provider amountA amountB pool) :
    addLiquidity engine tokenA tokenB provider amountA amountB =
      addToPool engine (poolKey tokenA tokenB) pool provider
        (if tokenA = pool.token0 then amountA else amountB)
        (if tokenA = pool.token0 then amountB else amountA) := by
  have checked : ¬ (provider.isEmpty = true ∨ amountA = 0 ∨ amountB = 0) := by
    rw [List.isEmpty_iff, not_or, not_or]
    exact ⟨first.named, first.someA, first.someB⟩
  unfold addLiquidity
  rw [if_neg checked, first.found]
  dsimp only
  split
  · rfl
  · rfl

/-- The shares of a first liquidity, in either order of its tokens. -/
theorem FirstLiquidity.shares
    (first : FirstLiquidity engine tokenA tokenB provider amountA amountB pool) :
    ((∃ s, amountA.toNat * amountB.toNat + 1 = s * s) →
      firstShares (if tokenA = pool.token0 then amountA else amountB)
        (if tokenA = pool.token0 then amountB else amountA) = none) ∧
      ((¬ ∃ s, amountA.toNat * amountB.toNat + 1 = s * s) → ∃ minted,
        firstShares (if tokenA = pool.token0 then amountA else amountB)
          (if tokenA = pool.token0 then amountB else amountA) = some (.ok minted) ∧
          minted.toNat = Nat.sqrt (amountA.toNat * amountB.toNat)) := by
  split
  · exact firstShares_eq amountA amountB first.someA first.someB first.fits
  · rw [Nat.mul_comm amountA.toNat]
    exact firstShares_eq amountB amountA first.someB first.someA
      (Nat.mul_comm amountA.toNat _ ▸ first.fits)

theorem FirstLiquidity.stuck
    (first : FirstLiquidity engine tokenA tokenB provider amountA amountB pool)
    (square : ∃ s, amountA.toNat * amountB.toNat + 1 = s * s) :
    addLiquidity engine tokenA tokenB provider amountA amountB = none := by
  rw [first.call]
  exact addToPool_stuck engine _ pool provider _ _ first.empty first.rich0 first.rich1
    (first.shares.1 square)

/-- The root is exact exactly when the successor of the number is no square, and then, and
only then, a first liquidity returns and mints the root of the product. -/
theorem root_exact_iff (x : UInt64) :
    ((∃ r, isqrtU64 x = some r ∧ r.toNat * r.toNat ≤ x.toNat ∧
      x.toNat < (r.toNat + 1) * (r.toNat + 1)) ↔ x = 0 ∨ ¬ ∃ s, x.toNat + 1 = s * s) ∧
    ∀ engine tokenA tokenB provider amountA amountB pool,
      FirstLiquidity engine tokenA tokenB provider amountA amountB pool →
        ((∃ outcome, addLiquidity engine tokenA tokenB provider amountA amountB = some outcome ∧
          (outcome.1 = .ok () → ∃ left, outcome.2.pools.lookup (poolKey tokenA tokenB) = some left ∧
            left.lpTotalSupply.toNat = Nat.sqrt (amountA.toNat * amountB.toNat))) ↔
          ¬ ∃ s, amountA.toNat * amountB.toNat + 1 = s * s) := by
  constructor
  · have zero : x = 0 ↔ x.toNat = 0 := UInt64.toNat_inj.symm
    constructor
    · rintro ⟨r, done, -⟩
      rw [zero]
      by_contra square
      exact absurd (done.symm.trans (isqrtU64_none x square)) (by simp)
    · intro free
      rw [zero] at free
      obtain ⟨r, done, isRoot⟩ := isqrtU64_some x free
      exact ⟨r, done, isRoot ▸ Nat.sqrt_le x.toNat, isRoot ▸ Nat.lt_succ_sqrt x.toNat⟩
  · intro engine tokenA tokenB provider amountA amountB pool first
    constructor
    · rintro ⟨outcome, done, -⟩ square
      exact absurd (done.symm.trans (first.stuck square)) (by simp)
    · intro free
      obtain ⟨minted, computed, value⟩ := first.shares.2 free
      obtain ⟨outcome, done, mints⟩ := addToPool_rooted engine (poolKey tokenA tokenB) pool provider _ _
        minted first.empty first.rich0 first.rich1 computed
      refine ⟨outcome, first.call.trans done, fun ok => ?_⟩
      obtain ⟨left, found, isMinted⟩ := mints ok
      exact ⟨left, found, isMinted ▸ value⟩

/-- Two tokens of three coins, and an empty pool of them. -/
def threeEngine : TokenEngine :=
  (createPool (createToken (createToken .initial (ascii "A") (ascii "owner") 3 3).2 (ascii "B")
    (ascii "owner") 3 3).2 (ascii "A") (ascii "B") 30).2

set_option maxRecDepth 100000 in
/-- The root of ten is three, and two coins of each token make two shares. -/
theorem root_of_ten : (∃ r, isqrtU64 10 = some r ∧ r.toNat = 3) ∧
    ∃ left pool, addLiquidity threeEngine (ascii "A") (ascii "B") (ascii "owner") 2 2 =
        some (.ok (), left) ∧
      left.pools.lookup (poolKey (ascii "A") (ascii "B")) = some pool ∧ pool.lpTotalSupply.toNat = 2 := by
  have between : ∀ low s : Nat, s * s < (low + 1) * (low + 1) → low * low < s * s → False := by
    intro low s below above
    have small := Nat.mul_self_lt_mul_self_iff.mp below
    have large := Nat.mul_self_lt_mul_self_iff.mp above
    omega
  constructor
  · obtain ⟨r, done, low, high⟩ := (root_exact_iff 10).1.mpr (.inr fun ⟨s, square⟩ => by
      have value : 11 = s * s := square
      exact between 3 s (by omega) (by omega))
    have ten : (10 : UInt64).toNat = 10 := rfl
    rw [ten] at low high
    refine ⟨r, done, ?_⟩
    rw [Nat.eq_sqrt.mpr ⟨low, high⟩]
    exact (Nat.eq_sqrt.mpr ⟨by decide, by decide⟩).symm
  · have first : FirstLiquidity threeEngine (ascii "A") (ascii "B") (ascii "owner") 2 2
        ⟨ascii "A", ascii "B", 0, 0, 30, 0, ∅⟩ :=
      ⟨rfl, rfl, by decide, by decide, by decide, by decide, by decide, by decide⟩
    obtain ⟨outcome, called, mints⟩ := ((root_exact_iff 10).2 threeEngine _ _ _ 2 2 _ first).mpr
      fun ⟨s, square⟩ => between 2 s (by have value : 5 = s * s := square; omega)
        (by have value : 5 = s * s := square; omega)
    have accepted : (addLiquidity threeEngine (ascii "A") (ascii "B") (ascii "owner") 2 2).any
        (fun outcome => outcome.1.isOk) = true := by
      decide +kernel
    rw [called, Option.any_some] at accepted
    obtain ⟨result, left⟩ := outcome
    cases result with
    | error message => simp [Except.isOk, Except.toBool] at accepted
    | ok value =>
      obtain ⟨pool, found, shares⟩ := mints rfl
      refine ⟨left, pool, called, found, shares.trans ?_⟩
      exact (Nat.eq_sqrt.mpr ⟨by decide, by decide⟩).symm

/-- The root of three is never found, and nobody can be the first to put one coin of one token
and three of another into a pool. -/
theorem root_of_three_lost : (¬ ∃ r, isqrtU64 3 = some r) ∧
    performAll .initial [.createToken (ascii "A") (ascii "owner") 3 3,
      .createToken (ascii "B") (ascii "owner") 3 3, .createPool (ascii "A") (ascii "B") 30,
      .addLiquidity (ascii "A") (ascii "B") (ascii "owner") 1 3] = none := by
  have stuck : isqrtU64 3 = none := isqrtU64_none 3 (by
    rw [Rootable, not_or, not_not]
    exact ⟨by decide, 2, rfl⟩)
  constructor
  · rintro ⟨r, done⟩
    exact absurd (stuck.symm.trans done) (by simp)
  · have first : FirstLiquidity threeEngine (ascii "A") (ascii "B") (ascii "owner") 1 3
        ⟨ascii "A", ascii "B", 0, 0, 30, 0, ∅⟩ :=
      ⟨rfl, rfl, by decide, by decide, by decide, by decide, by decide, by decide⟩
    have call := first.stuck ⟨2, rfl⟩
    rw [performAll_cons rfl, performAll_cons rfl, performAll_cons rfl]
    change (perform threeEngine _).bind _ = none
    rw [perform, call]
    rfl

end Tokens

end Addition
