import Mathlib.Data.List.Infix

/-!
# Runs of a deterministic machine

A machine is a step function; a run is a list of events that is folded over a state. A
condition on the state and the event can be required of every step of a run. What the
first state has and every such step keeps holds in every state that a run reaches.
-/

namespace Runs

variable {σ ε : Type}

/-- Every step of a run meets a condition on the state before it and on its event. -/
def EachStep (step : σ → ε → σ) (condition : σ → ε → Prop) : σ → List ε → Prop
  | _, [] => True
  | state, event :: rest => condition state event ∧ EachStep step condition (step state event) rest

instance decidableEachStep (step : σ → ε → σ) (condition : σ → ε → Prop)
    [∀ state event, Decidable (condition state event)] :
    ∀ state events, Decidable (EachStep step condition state events)
  | _, [] => .isTrue trivial
  | state, event :: rest =>
    have : Decidable (EachStep step condition (step state event) rest) :=
      decidableEachStep step condition _ rest
    inferInstanceAs (Decidable (condition state event ∧ _))

/-- A call is refused and changes nothing. -/
def Refused {α β : Type} (state : σ) (outcome : Except α β × σ) : Prop :=
  ∃ message, outcome = (.error message, state)

variable {step : σ → ε → σ} {condition condition' : σ → ε → Prop}

/-- The condition holds wherever a run is cut before an event. -/
theorem EachStep.before {state : σ} {front rest : List ε} {event : ε}
    (meets : EachStep step condition state (front ++ event :: rest)) :
    condition (front.foldl step state) event := by
  induction front generalizing state with
  | nil => exact meets.1
  | cons first front ih => exact ih meets.2

/-- The condition holds at every step exactly when it holds wherever the run is cut. -/
theorem eachStep_iff {state : σ} {events : List ε} : EachStep step condition state events ↔
    ∀ front event, front ++ [event] <+: events → condition (front.foldl step state) event := by
  constructor
  · rintro meets front event ⟨rest, rfl⟩
    rw [List.append_assoc] at meets
    exact meets.before
  · intro meets
    induction events generalizing state with
    | nil => trivial
    | cons event rest ih =>
      refine ⟨meets [] event (by simp), ih fun front later cut => ?_⟩
      exact meets (event :: front) later (List.cons_prefix_cons.mpr ⟨rfl, cut⟩)

/-- The front of a run is a run. -/
theorem EachStep.front {state : σ} {front rest : List ε}
    (meets : EachStep step condition state (front ++ rest)) : EachStep step condition state front := by
  induction front generalizing state with
  | nil => trivial
  | cons first front ih => exact ⟨meets.1, ih meets.2⟩

/-- A property of the first state that every step of the run keeps holds in every state
the run reaches. -/
theorem carried (property : σ → Prop) (state : σ) (events : List ε) (start : property state)
    (keeps : ∀ front event, front ++ [event] <+: events → property (front.foldl step state) →
      property (step (front.foldl step state) event)) (front : List ε) (cut : front <+: events) :
    property (front.foldl step state) := by
  induction front using List.reverseRecOn with
  | nil => exact start
  | append_singleton front event ih =>
    rw [List.foldl_append]
    exact keeps front event cut (ih ((List.prefix_append _ _).trans cut))

/-- What every step that meets the condition keeps. -/
theorem EachStep.carries (property : σ → Prop)
    (keeps : ∀ state event, property state → condition state event → property (step state event))
    {state : σ} {events : List ε} (start : property state)
    (meets : EachStep step condition state events) (front : List ε) (cut : front <+: events) :
    property (front.foldl step state) := by
  refine carried property state events start ?_ front cut
  intro front event cut holds
  obtain ⟨rest, rfl⟩ := cut
  rw [List.append_assoc] at meets
  exact keeps _ event holds meets.before

/-! ### What stands since it last happened -/

/-- Some event happened, and no event after it undid it. Both may depend on the events before. -/
def Stands (happens undoes : List ε → ε → Prop) (events : List ε) : Prop :=
  ∃ front event later, events = front ++ event :: later ∧ happens front event ∧
    ∀ middle next, middle ++ [next] <+: later → ¬ undoes (front ++ event :: middle) next

theorem not_stands_nil {happens undoes : List ε → ε → Prop} : ¬ Stands happens undoes [] := by
  rintro ⟨front, event, later, same, -⟩
  exact absurd same.symm (by simp)

/-- What stands after one more event just happened, or stood before and was not undone. -/
theorem stands_snoc {happens undoes : List ε → ε → Prop} {events : List ε} {next : ε} :
    Stands happens undoes (events ++ [next]) ↔
      happens events next ∨ Stands happens undoes events ∧ ¬ undoes events next := by
  constructor
  · rintro ⟨front, event, later, same, happened, kept⟩
    cases later using List.reverseRecOn with
    | nil =>
      obtain ⟨rfl, last⟩ := List.append_inj' same rfl
      exact .inl (List.singleton_injective last ▸ happened)
    | append_singleton later last _ =>
      have split : events = front ++ event :: later ∧ [next] = [last] :=
        List.append_inj' (by simpa using same) rfl
      obtain ⟨rfl, last⟩ := split
      obtain rfl := List.singleton_injective last
      refine .inr ⟨⟨front, event, later, rfl, happened, fun middle other cut => ?_⟩, ?_⟩
      · exact kept middle other (cut.trans (List.prefix_append _ _))
      · exact kept later next (List.prefix_refl _)
  · rintro (happened | ⟨⟨front, event, later, rfl, happened, kept⟩, stays⟩)
    · refine ⟨events, next, [], rfl, happened, fun middle other cut => ?_⟩
      exact absurd (List.prefix_nil.mp cut) (by simp)
    · refine ⟨front, event, later ++ [next], by simp, happened, fun middle other cut => ?_⟩
      rcases List.prefix_concat_iff.mp cut with whole | before
      · obtain ⟨rfl, last⟩ := List.append_inj' whole rfl
        exact List.singleton_injective last ▸ stays
      · exact kept middle other before

/-! ### What happens in a run -/

/-- Some step of a run meets a condition on the state before it and on its event. -/
def Happens (step : σ → ε → σ) (condition : σ → ε → Prop) (state : σ) (events : List ε) : Prop :=
  ∃ front event later, events = front ++ event :: later ∧ condition (front.foldl step state) event

@[simp] theorem not_happens_nil {state : σ} : ¬ Happens step condition state [] := by
  rintro ⟨front, event, later, same, -⟩
  exact absurd same.symm (by simp)

theorem happens_snoc {state : σ} {events : List ε} {event : ε} :
    Happens step condition state (events ++ [event]) ↔
      Happens step condition state events ∨ condition (events.foldl step state) event := by
  constructor
  · rintro ⟨front, found, later, same, meets⟩
    cases later using List.reverseRecOn with
    | nil =>
      obtain ⟨rfl, last⟩ := List.append_inj' same rfl
      exact .inr (List.singleton_injective last ▸ meets)
    | append_singleton between last _ =>
      have split : events = front ++ found :: between ∧ [event] = [last] :=
        List.append_inj' (by simpa using same) rfl
      exact .inl ⟨front, found, between, split.1, meets⟩
  · rintro (⟨front, found, later, rfl, meets⟩ | meets)
    · exact ⟨front, found, later ++ [event], by simp, meets⟩
    · exact ⟨events, event, [], rfl, meets⟩

end Runs
