import Mathlib.Data.List.Basic
import Mathlib.Data.UInt

/-!
# Checked computations

A guard returns nothing or refuses with a message; a sequence of guards and
computations succeeds exactly when each part does. Additions of unsigned words
come in the guarded form that compares one summand with the room left by the
other, and a left-to-right guarded sum is related to the natural-number sum.
-/

namespace Checked

/-- The largest unsigned 64-bit word. -/
def wordMax : UInt64 := 18446744073709551615

/-- Refuse with a message unless a condition holds. -/
def ensure (condition : Bool) (message : String) : Except String Unit :=
  if condition then .ok () else .error message

@[simp] theorem ensure_ok (condition : Bool) (message : String) (result : Unit) :
    ensure condition message = .ok result ↔ condition = true := by
  cases condition <;> simp [ensure]

/-- A bind succeeds exactly when its first part and then its continuation do. -/
@[simp] theorem bind_ok {α β ε : Type} (first : Except ε α) (next : α → Except ε β) (result : β) :
    (first >>= next) = .ok result ↔ ∃ value, first = .ok value ∧ next value = .ok result := by
  cases first with
  | error refusal => simp [bind, Except.bind]
  | ok value => simp [bind, Except.bind]

/-- A guard returns no value worth naming. -/
@[simp] theorem exists_unit (property : Unit → Prop) :
    (∃ value, property value) ↔ property () :=
  ⟨fun ⟨(), holds⟩ => holds, fun holds => ⟨(), holds⟩⟩

@[simp] theorem pure_ok {α ε : Type} (value result : α) :
    (pure value : Except ε α) = .ok result ↔ value = result := by
  simp [pure, Except.pure]

/-- A check that is made only under a condition. -/
def onlyIf (condition : Bool) (check : Except String Unit) : Except String Unit :=
  if condition then check else .ok ()

@[simp] theorem onlyIf_ok (condition : Bool) (check : Except String Unit) :
    onlyIf condition check = .ok () ↔ (condition = true → check = .ok ()) := by
  cases condition <;> simp [onlyIf]

/-- The test of a guard's outcome. -/
theorem isOk_iff (outcome : Except String Unit) : outcome.isOk = true ↔ outcome = .ok () := by
  cases outcome <;> simp [Except.isOk, Except.toBool]

/-- A call that was accepted, with the state that it leaves. -/
theorem accepted_of_isOk {σ : Type} {call : Except String Unit × σ} (accepted : call.1.isOk = true) :
    call = (.ok (), call.2) :=
  Prod.ext ((isOk_iff _).mp accepted) rfl

/-- A result that was read off a call. -/
theorem toOption_ok {ε α : Type} {outcome : Except ε α} {value : α}
    (read : outcome.toOption = some value) : outcome = .ok value := by
  cases outcome with
  | error refusal => exact absurd read (by simp [Except.toOption])
  | ok result => exact congrArg Except.ok (Option.some.inj read)

/-! ### Words -/

variable {word : UInt64}

theorem ne_zero_of_positive (positive : 0 < word.toNat) : word ≠ 0 := by
  rintro rfl
  exact absurd positive (by decide)

theorem positive_of_ne_zero (different : word ≠ 0) : 0 < word.toNat := by
  apply Nat.pos_of_ne_zero
  intro zero
  exact different (UInt64.toNat_inj.mp zero)

theorem toNat_min (a b : UInt64) : (min a b).toNat = min a.toNat b.toNat := by
  change (if a ≤ b then a else b).toNat = _
  split
  · rename_i below
    rw [UInt64.le_iff_toNat_le] at below
    omega
  · rename_i above
    rw [UInt64.le_iff_toNat_le] at above
    omega

theorem toNat_max (a b : UInt64) : (max a b).toNat = max a.toNat b.toNat := by
  change (if a ≤ b then b else a).toNat = _
  split
  · rename_i below
    rw [UInt64.le_iff_toNat_le] at below
    omega
  · rename_i above
    rw [UInt64.le_iff_toNat_le] at above
    omega

/-- The overflow test of a guarded addition: one summand against the room that the
other leaves. -/
def overflows (total amount : UInt64) : Bool := decide (total > wordMax - amount)

/-- A sum overflows when it leaves the word. -/
theorem overflows_iff (total amount : UInt64) :
    overflows total amount = true ↔ 2 ^ 64 ≤ total.toNat + amount.toNat := by
  have totalBound := total.toNat_lt
  have amountBound := amount.toNat_lt
  simp only [overflows, decide_eq_true_eq, gt_iff_lt, UInt64.lt_iff_toNat_lt, UInt64.toNat_sub,
    wordMax]
  simp only [UInt64.reduceToNat]
  omega

/-- An addition that passes the test is exact. -/
theorem toNat_add_of_not_overflows (total amount : UInt64)
    (narrow : ¬ overflows total amount = true) :
    (total + amount).toNat = total.toNat + amount.toNat := by
  rw [overflows_iff] at narrow
  rw [UInt64.toNat_add, Nat.mod_eq_of_lt (by omega)]

/-- Add two words, refusing when the sum leaves the word range. -/
def addOr (message : String) (total amount : UInt64) : Except String UInt64 :=
  if overflows total amount then .error message else .ok (total + amount)

/-- A guarded addition that succeeds is exact, and it succeeds whenever the
exact sum is a word. -/
theorem addOr_ok (message : String) (total amount result : UInt64) :
    addOr message total amount = .ok result ↔
      result.toNat = total.toNat + amount.toNat := by
  have resultBound := result.toNat_lt
  unfold addOr
  by_cases wraps : overflows total amount = true
  · have wide := (overflows_iff total amount).mp wraps
    simp only [wraps, ↓reduceIte, reduceCtorEq, false_iff]
    omega
  · have exactSum := toNat_add_of_not_overflows total amount wraps
    simp only [wraps, Bool.false_eq_true, ↓reduceIte, Except.ok.injEq]
    constructor
    · rintro rfl
      exact exactSum
    · intro exact
      exact UInt64.toNat_inj.mp (exactSum.trans exact.symm)

/-- Guarded left-to-right sum of a list of words. -/
def sumOr (message : String) : UInt64 → List UInt64 → Except String UInt64
  | total, [] => .ok total
  | total, amount :: rest => do
      let next ← addOr message total amount
      sumOr message next rest

/-- A guarded sum that succeeds is the natural-number sum. -/
theorem sumOr_ok (message : String) (total result : UInt64) (amounts : List UInt64) :
    sumOr message total amounts = .ok result ↔
      result.toNat = total.toNat + (amounts.map UInt64.toNat).sum := by
  induction amounts generalizing total with
  | nil =>
    simp only [sumOr, Except.ok.injEq, List.map_nil, List.sum_nil, Nat.add_zero]
    rw [eq_comm, UInt64.toNat_inj]
  | cons amount rest ih =>
    simp only [sumOr, bind_ok, addOr_ok, ih, List.map_cons, List.sum_cons]
    constructor
    · rintro ⟨next, first, exact⟩
      omega
    · intro exact
      have bound := result.toNat_lt
      have narrow : total.toNat + amount.toNat < UInt64.size := by
        simp only [UInt64.size]
        omega
      refine ⟨UInt64.ofNat (total.toNat + amount.toNat), UInt64.toNat_ofNat_of_lt' narrow, ?_⟩
      rw [UInt64.toNat_ofNat_of_lt' narrow]
      omega

/-- The word that a saturating decrement leaves. -/
def saturatingSub (balance amount : UInt64) : UInt64 :=
  if balance ≥ amount then balance - amount else 0

theorem saturatingSub_toNat (balance amount : UInt64) :
    (saturatingSub balance amount).toNat = balance.toNat - amount.toNat := by
  have balanceBound := balance.toNat_lt
  have amountBound := amount.toNat_lt
  unfold saturatingSub
  by_cases enough : balance ≥ amount
  · have ordered : amount.toNat ≤ balance.toNat := UInt64.le_iff_toNat_le.mp enough
    rw [if_pos enough, UInt64.toNat_sub]
    omega
  · have ordered : ¬ amount.toNat ≤ balance.toNat := fun le => enough (UInt64.le_iff_toNat_le.mpr le)
    rw [if_neg enough]
    simp only [UInt64.reduceToNat]
    omega

/-! ### Runs that keep the state they reached

A step on a mutable state returns a verdict and the state it left, also when it
refuses. -/

section Runs

variable {σ τ α : Type}

/-- Go on from the state an accepted step reached; after a refusal, keep what
`halt` makes of the state it reached. -/
def andThen (outcome : Except String Unit × σ) (halt : σ → τ)
    (next : σ → Except String Unit × τ) : Except String Unit × τ :=
  match outcome with
  | (.error refusal, reached) => (.error refusal, halt reached)
  | (.ok _, reached) => next reached

@[simp] theorem andThen_accepted (reached : σ) (halt : σ → τ)
    (next : σ → Except String Unit × τ) : andThen (.ok (), reached) halt next = next reached := rfl

/-- Two parts succeed when each does. -/
theorem andThen_ok (outcome : Except String Unit × σ) (halt : σ → τ)
    (next : σ → Except String Unit × τ) (final : τ) :
    andThen outcome halt next = (.ok (), final) ↔
      ∃ reached, outcome = (.ok (), reached) ∧ next reached = (.ok (), final) := by
  obtain ⟨verdict, reached⟩ := outcome
  cases verdict with
  | error refusal => simp [andThen]
  | ok _ => simp [andThen]

/-- What the first step leaves, halted or continued, has a property. -/
theorem andThen_leaves (outcome : Except String Unit × σ) (halt : σ → τ)
    (next : σ → Except String Unit × τ) (property : τ → Prop)
    (halted : property (halt outcome.2)) (continued : property (next outcome.2).2) :
    property (andThen outcome halt next).2 := by
  obtain ⟨verdict, reached⟩ := outcome
  cases verdict with
  | error refusal => exact halted
  | ok _ => exact continued

/-- Take steps over a list until one refuses. -/
def each (step : σ → α → Except String Unit × σ) : σ → List α → Except String Unit × σ
  | state, [] => (.ok (), state)
  | state, item :: rest =>
    match step state item with
    | (.error refusal, reached) => (.error refusal, reached)
    | (.ok _, reached) => each step reached rest

/-- What every step preserves, refused or not, the loop preserves. -/
theorem each_preserves (step : σ → α → Except String Unit × σ) (invariant : σ → Prop)
    (preserves : ∀ state item, invariant state → invariant (step state item).2)
    (items : List α) (state : σ) (holds : invariant state) :
    invariant (each step state items).2 := by
  induction items generalizing state with
  | nil => exact holds
  | cons item rest ih =>
    have next := preserves state item holds
    rw [each]
    cases outcome : step state item with
    | mk verdict reached =>
      rw [outcome] at next
      cases verdict with
      | error refusal => exact next
      | ok _ => exact ih reached next

/-- A loop that accepts has accepted its first item and then the rest. -/
theorem each_cons_ok (step : σ → α → Except String Unit × σ) (state final : σ) (item : α)
    (rest : List α) :
    each step state (item :: rest) = (.ok (), final) ↔
      ∃ reached, step state item = (.ok (), reached) ∧
        each step reached rest = (.ok (), final) := by
  rw [each]
  cases outcome : step state item with
  | mk verdict reached =>
    cases verdict with
    | error refusal => simp
    | ok _ => simp

@[simp] theorem each_nil_ok (step : σ → α → Except String Unit × σ) (state final : σ) :
    each step state [] = (.ok (), final) ↔ state = final := by
  simp [each]

/-- A loop over two lists is a loop over the first and then over the second. -/
theorem each_append_ok (step : σ → α → Except String Unit × σ) (state final : σ)
    (items items' : List α) :
    each step state (items ++ items') = (.ok (), final) ↔
      ∃ reached, each step state items = (.ok (), reached) ∧
        each step reached items' = (.ok (), final) := by
  induction items generalizing state with
  | nil => simp
  | cons item rest ih =>
    simp only [List.cons_append, each_cons_ok, ih]
    constructor
    · rintro ⟨next, first, reached, middle, last⟩
      exact ⟨reached, ⟨next, first, middle⟩, last⟩
    · rintro ⟨reached, ⟨next, first, middle⟩, last⟩
      exact ⟨next, first, reached, middle, last⟩

/-- What accepted steps preserve, with the items still to come, holds at the end
of an accepted loop. -/
theorem each_induct (step : σ → α → Except String Unit × σ) (invariant : σ → List α → Prop)
    (preserves : ∀ state item rest reached, invariant state (item :: rest) →
      step state item = (.ok (), reached) → invariant reached rest)
    (items : List α) (state final : σ) (holds : invariant state items)
    (accepted : each step state items = (.ok (), final)) : invariant final [] := by
  induction items generalizing state with
  | nil =>
    rw [each_nil_ok] at accepted
    exact accepted ▸ holds
  | cons item rest ih =>
    obtain ⟨reached, first, later⟩ := (each_cons_ok step state final item rest).mp accepted
    exact ih reached (preserves state item rest reached holds first) later

end Runs

end Checked
