import Mathlib.Data.List.Basic
import Addition.Foundations.Checked

/-!
# Computations that ask

A computation that asks yes-or-no questions one after the other is a tree: what it asks next may
depend on the answers so far. Evaluated on a table of answers it is an ordinary function. Run against
an answering machine, whose answers may change with everything it was asked before, it gives a value
and leaves the machine in another state.

While the machine keeps an invariant under which it answers as the table does, the two agree. A
machine that remembers answers is the case in point: its invariant is that what it remembers is true.
-/

/-- A computation that asks questions of one kind. -/
inductive Asking (κ α : Type) where
  | done (value : α)
  | ask (question : κ) (next : Bool → Asking κ α)

namespace Asking

open Checked

variable {κ α β σ : Type}

/-- One computation after the other. -/
def bind : Asking κ α → (α → Asking κ β) → Asking κ β
  | .done value, next => next value
  | .ask question rest, next => .ask question (fun answer => (rest answer).bind next)

instance : Monad (Asking κ) where
  pure := .done
  bind := bind

/-- The value when the answers are those of a table. -/
def eval (truth : κ → Bool) : Asking κ α → α
  | .done value => value
  | .ask question next => (next (truth question)).eval truth

/-- The value and the machine that is left when a machine answers. -/
def run (answer : σ → κ → Bool × σ) : σ → Asking κ α → α × σ
  | state, .done value => (value, state)
  | state, .ask question next =>
    ((next (answer state question).1).run answer (answer state question).2)

/-- The questions that are asked of the machine, in order. -/
def questions (answer : σ → κ → Bool × σ) : σ → Asking κ α → List κ
  | _, .done _ => []
  | state, .ask question next =>
    question :: (next (answer state question).1).questions answer (answer state question).2

@[simp] theorem eval_pure (truth : κ → Bool) (value : α) :
    (pure value : Asking κ α).eval truth = value := rfl

@[simp] theorem eval_ask (truth : κ → Bool) (question : κ) (next : Bool → Asking κ α) :
    (ask question next).eval truth = (next (truth question)).eval truth := rfl

/-- A sequence is evaluated part by part. -/
@[simp] theorem eval_bind (truth : κ → Bool) (first : Asking κ α) (next : α → Asking κ β) :
    (first >>= next).eval truth = (next (first.eval truth)).eval truth := by
  induction first with
  | done value => rfl
  | ask question rest ih => exact ih (truth question)

/-- A sequence is run part by part, the second on the machine that the first leaves. -/
theorem run_bind (answer : σ → κ → Bool × σ) (state : σ) (first : Asking κ α) (next : α → Asking κ β) :
    (first >>= next).run answer state =
      (next (first.run answer state).1).run answer (first.run answer state).2 := by
  induction first generalizing state with
  | done value => rfl
  | ask question rest ih => exact ih _ _

/-- A sequence asks what its first part asks and then what its second part asks. -/
theorem questions_bind (answer : σ → κ → Bool × σ) (state : σ) (first : Asking κ α)
    (next : α → Asking κ β) :
    (first >>= next).questions answer state = first.questions answer state ++
      (next (first.run answer state).1).questions answer (first.run answer state).2 := by
  induction first generalizing state with
  | done value => rfl
  | ask question rest ih =>
    exact congrArg (question :: ·) (ih _ _)

/-! ### What is asked -/

/-- Whatever the answers are, every question that is asked has a property. -/
def Every (property : κ → Prop) : Asking κ α → Prop
  | .done _ => True
  | .ask question next => property question ∧ ∀ answer, (next answer).Every property

variable {property : κ → Prop} {computation : Asking κ α}

/-- A sequence asks what its parts ask. -/
theorem Every.bind {first : Asking κ α} {next : α → Asking κ β}
    (before : first.Every property) (after : ∀ value, (next value).Every property) :
    (first >>= next).Every property := by
  induction first with
  | done value => exact after value
  | ask question rest ih =>
    exact ⟨before.1, fun answer => ih answer (before.2 answer)⟩

/-- The questions of a run are among those that can be asked. -/
theorem Every.questions
    (every : computation.Every property) (answer : σ → κ → Bool × σ) (state : σ) :
    ∀ question ∈ computation.questions answer state, property question := by
  induction computation generalizing state with
  | done value => exact fun _ none => absurd none List.not_mem_nil
  | ask question next ih =>
    intro other member
    rcases List.mem_cons.mp member with rfl | later
    · exact every.1
    · exact ih _ (every.2 _) _ other later

/-- What asks nothing gives one value and leaves the machine. -/
theorem Every.idle (silent : computation.Every fun _ => False)
    (answer : σ → κ → Bool × σ) (truth : κ → Bool) (state : σ) :
    computation.run answer state = (computation.eval truth, state) := by
  cases computation with
  | done value => rfl
  | ask question next => exact silent.1.elim

/-! ### Machines that keep an invariant -/

section Invariant

variable (answer : σ → κ → Bool × σ) (invariant : σ → Prop) (good : κ → Prop)

/-- From every state with an invariant, and when it asks good questions only, a computation gives a
value and keeps the invariant. -/
def Gives (computation : Asking κ α) (value : α) : Prop :=
  ∀ state, invariant state →
    (∀ question ∈ computation.questions answer state, good question) →
    (computation.run answer state).1 = value ∧ invariant (computation.run answer state).2

variable {answer invariant good}

theorem Gives.pure (value : α) : Gives answer invariant good (pure value) value :=
  fun _ holds _ => ⟨rfl, holds⟩

/-- A sequence gives what its second part gives after the value of the first. -/
theorem Gives.bind {first : Asking κ α} {next : α → Asking κ β} {value : α} {result : β}
    (before : Gives answer invariant good first value)
    (after : Gives answer invariant good (next value) result) :
    Gives answer invariant good (first >>= next) result := by
  intro state holds asked
  rw [questions_bind] at asked
  obtain ⟨same, kept⟩ := before state holds fun question member =>
    asked question (List.mem_append_left _ member)
  rw [same] at asked
  rw [run_bind, same]
  exact after _ kept fun question member => asked question (List.mem_append_right _ member)

/-- A machine that answers the good questions of some kind as a table does, and keeps its invariant
with them, gives the value of the table to a computation that asks questions of this kind. -/
theorem Gives.of_table {truth : κ → Bool} {kind : κ → Prop}
    (answers : ∀ state question, invariant state → good question → kind question →
      (answer state question).1 = truth question ∧ invariant (answer state question).2)
    (asks : computation.Every kind) :
    Gives answer invariant good computation (computation.eval truth) := by
  intro state holds asked
  induction computation generalizing state with
  | done value => exact ⟨rfl, holds⟩
  | ask question next ih =>
    obtain ⟨same, kept⟩ := answers state question holds (asked question (.head _)) asks.1
    have later := ih (answer state question).1 (asks.2 _)
      (answer state question).2 kept fun other member => asked other (.tail _ member)
    constructor
    · rw [eval_ask, ← same]
      exact later.1
    · exact later.2

end Invariant

/-! ### What can come out -/

/-- Some answers lead to a value, that are yes at least where a table says yes. -/
def Allows (truth : κ → Bool) : Asking κ α → α → Prop
  | .done value, result => value = result
  | .ask question next, result =>
    ∃ answer, (truth question = true → answer = true) ∧ (next answer).Allows truth result

@[simp] theorem allows_bind (truth : κ → Bool) (first : Asking κ α) (next : α → Asking κ β)
    (result : β) : (first >>= next).Allows truth result ↔
      ∃ value, first.Allows truth value ∧ (next value).Allows truth result := by
  induction first with
  | done value => exact ⟨fun allows => ⟨value, rfl, allows⟩, fun ⟨_, same, allows⟩ => same ▸ allows⟩
  | ask question rest ih =>
    constructor
    · rintro ⟨answer, meets, allows⟩
      obtain ⟨value, before, after⟩ := (ih answer).mp allows
      exact ⟨value, ⟨answer, meets, before⟩, after⟩
    · rintro ⟨value, ⟨answer, meets, before⟩, after⟩
      exact ⟨answer, meets, (ih answer).mpr ⟨value, before, after⟩⟩

variable {truth : κ → Bool}

/-- What a machine makes of a computation, when it says yes where the table does. -/
theorem allows_run {answer : σ → κ → Bool × σ}
    (generous : ∀ state question, truth question = true → (answer state question).1 = true)
    (state : σ) (computation : Asking κ α) :
    computation.Allows truth (computation.run answer state).1 := by
  induction computation generalizing state with
  | done value => exact rfl
  | ask question next ih =>
    exact ⟨_, generous state question, ih _ _⟩

/-- Some answers lead to a value. -/
def May (computation : Asking κ α) (result : α) : Prop := computation.Allows (fun _ => false) result

@[simp] theorem may_bind (first : Asking κ α) (next : α → Asking κ β) (result : β) :
    (first >>= next).May result ↔ ∃ value, first.May value ∧ (next value).May result :=
  allows_bind _ first next result

/-- What a machine makes of a computation can come out of it. -/
theorem may_run (answer : σ → κ → Bool × σ) (state : σ) (computation : Asking κ α) :
    computation.May (computation.run answer state).1 :=
  allows_run (fun _ _ none => absurd none Bool.false_ne_true) state computation

/-- Two tests, the second made only when the first succeeds. -/
def both (first second : Asking κ Bool) : Asking κ Bool := do
  if ← first then second else pure false

@[simp] theorem eval_both (truth : κ → Bool) (first second : Asking κ Bool) :
    (both first second).eval truth = (first.eval truth && second.eval truth) := by
  rw [both, eval_bind]
  cases first.eval truth <;> rfl

theorem Every.both {first second : Asking κ Bool}
    (before : first.Every property) (after : second.Every property) :
    (both first second).Every property := by
  refine before.bind fun answer => ?_
  split
  · exact after
  · trivial

/-! ### Refusals -/

/-- A computation that asks and may refuse. -/
abbrev Checking (κ α : Type) := ExceptT String (Asking κ) α

/-- Refuse with a message unless a test succeeds. -/
def require (test : Asking κ Bool) (message : String) : Checking κ Unit :=
  ExceptT.mk (test >>= fun answer => .done (ensure answer message))

/-- The outcome when the answers are those of a table. -/
def outcome (truth : κ → Bool) (checking : Checking κ α) : Except String α :=
  (ExceptT.run checking).eval truth

@[simp] theorem outcome_require (truth : κ → Bool) (test : Asking κ Bool) (message : String) :
    outcome truth (require test message) = ensure (test.eval truth) message :=
  eval_bind truth test _

/-- What asks nothing is its own outcome. -/
@[simp] theorem outcome_lift (truth : κ → Bool) (plain : Except String α) :
    outcome truth (liftM plain : Checking κ α) = plain := by
  cases plain with
  | error refusal => rfl
  | ok value => rfl

@[simp] theorem outcome_bind (truth : κ → Bool) (first : Checking κ α) (next : α → Checking κ β) :
    outcome truth (first >>= next) = (outcome truth first >>= fun value => outcome truth (next value)) := by
  change (Asking.bind (ExceptT.run first) _).eval truth = _
  change ((ExceptT.run first >>= _ : Asking κ (Except String β))).eval truth = _
  rw [eval_bind]
  change _ = ((ExceptT.run first).eval truth >>= _)
  cases (ExceptT.run first).eval truth with
  | error refusal => rfl
  | ok value => rfl

@[simp] theorem outcome_ite (truth : κ → Bool) (condition : Prop) [Decidable condition]
    (first second : Checking κ α) :
    outcome truth (if condition then first else second) =
      if condition then outcome truth first else outcome truth second := by
  split
  · rfl
  · rfl

/-- Whatever the answers are, every question of a computation that may refuse has a property. -/
def Asks (property : κ → Prop) (checking : Checking κ α) : Prop := (ExceptT.run checking).Every property

@[simp] theorem asks_pure (property : κ → Prop) (value : α) :
    Asks property (pure value : Checking κ α) := trivial

@[simp] theorem asks_lift (property : κ → Prop) (plain : Except String α) :
    Asks property (liftM plain : Checking κ α) := by
  cases plain with
  | error refusal => trivial
  | ok value => trivial

theorem Asks.require {test : Asking κ Bool} (asks : test.Every property)
    (message : String) : Asks property (require test message) :=
  Every.bind asks fun _ => trivial

theorem Asks.bind {first : Checking κ α} {next : α → Checking κ β}
    (before : Asks property first) (after : ∀ value, Asks property (next value)) :
    Asks property (first >>= next) := by
  refine Every.bind before fun outcome => ?_
  cases outcome with
  | error refusal => trivial
  | ok value => exact after value

/-- Some answers let a computation that may refuse pass with a value. -/
def Passes (checking : Checking κ α) (value : α) : Prop := (ExceptT.run checking).May (.ok value)

@[simp] theorem passes_throw (message : String) (result : α) :
    ¬ Passes (throw message : Checking κ α) result := by
  intro passes
  have clash : (Except.error message : Except String α) = .ok result := passes
  simp at clash

@[simp] theorem passes_lift (plain : Except String α) (result : α) :
    Passes (liftM plain : Checking κ α) result ↔ plain = .ok result := by
  cases plain with
  | error refusal => exact .rfl
  | ok value => exact .rfl

@[simp] theorem passes_bind (first : Checking κ α) (next : α → Checking κ β) (result : β) :
    Passes (first >>= next) result ↔ ∃ value, Passes first value ∧ Passes (next value) result := by
  unfold Passes
  change (ExceptT.run first >>= _).May _ ↔ _
  rw [may_bind]
  constructor
  · rintro ⟨outcome, before, after⟩
    cases outcome with
    | error refusal =>
      have clash : (Except.error refusal : Except String β) = .ok result := after
      simp at clash
    | ok value => exact ⟨value, before, after⟩
  · rintro ⟨value, before, after⟩
    exact ⟨.ok value, before, after⟩

end Asking
