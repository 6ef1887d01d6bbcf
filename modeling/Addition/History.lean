import Addition.Atomicity

/-!
# Runs of a chain

A run starts from the constructor and calls `add_block` and `replace_with_chain`
with any arguments, at any clock readings. Refused calls change nothing and a
reorganization starts over from the constructed state, so every state of a run is
the constructed state extended by accepted blocks only. What accepted blocks
preserve therefore holds in every state of every run.

A condition on steps restricts a run: it is required of each accepted block with
the clock reading and the state it was accepted on, the blocks that a
reorganization replays included.
-/

namespace Addition

open ByteStrings Checked

variable (P : Primitives)

/-- A condition on accepted steps: clock reading, state before, block. -/
abbrev StepCondition := Time → Chain → Block → Prop

/-- The steps a replay accepts, in order. -/
def replayed (clock : Nat → Time) : Nat → Chain → List Block → List (Time × Chain × Block)
  | _, _, [] => []
  | position, chain, block :: rest =>
    match addBlock P (clock position) chain block with
    | (.error _, _) => []
    | (.ok _, reached) => (clock position, chain, block) :: replayed clock (position + 1) reached rest

/-- The states of the runs whose accepted steps meet a condition. -/
inductive ReachableWith (condition : StepCondition) (cfg : ChainConfig) : Chain → Prop
  | new : ReachableWith condition cfg (Chain.new P cfg)
  | add (now : Time) (chain : Chain) (block : Block)
      (before : ReachableWith condition cfg chain)
      (meets : (addBlock P now chain block).1 = .ok () → condition now chain block) :
      ReachableWith condition cfg (addBlock P now chain block).2
  | replace (clock : Nat → Time) (chain : Chain) (candidate : List Block)
      (before : ReachableWith condition cfg chain)
      (meets : ∀ step ∈ replayed P clock 1 (chain.reset P) candidate.tail,
        condition step.1 step.2.1 step.2.2) :
      ReachableWith condition cfg (replaceWithChain P clock chain candidate).2

/-- The states of all runs. -/
def Reachable (cfg : ChainConfig) (chain : Chain) : Prop :=
  ReachableWith P (fun _ _ _ => True) cfg chain

/-- The constructed state extended by accepted blocks. -/
inductive Grown (condition : StepCondition) (cfg : ChainConfig) : Chain → Prop
  | new : Grown condition cfg (Chain.new P cfg)
  | add (now : Time) (chain : Chain) (block : Block) (reached : Chain)
      (before : Grown condition cfg chain) (meets : condition now chain block)
      (accepted : addBlock P now chain block = (.ok (), reached)) :
      Grown condition cfg reached

/-- One accepted block that meets a condition. -/
def Accepts (condition : StepCondition) (chain reached : Chain) : Prop :=
  ∃ now block, condition now chain block ∧ addBlock P now chain block = (.ok (), reached)

/-- A later state of the same chain: accepted blocks on top of an earlier one. -/
def Extends (condition : StepCondition) : Chain → Chain → Prop :=
  Relation.ReflTransGen (Accepts P condition)

variable {P}

variable {cfg : ChainConfig} {chain : Chain} {condition : StepCondition}

/-- One more block of a restricted run, when it is accepted. -/
theorem ReachableWith.step
    (before : ReachableWith P condition cfg chain) (now : Time) (block : Block) (reached : Chain)
    (meets : condition now chain block)
    (accepted : addBlock P now chain block = (.ok (), reached)) :
    ReachableWith P condition cfg reached := by
  have extended := ReachableWith.add now chain block before (fun _ => meets)
  rwa [accepted] at extended

theorem Reachable.start (P : Primitives) (cfg : ChainConfig) : Reachable P cfg (Chain.new P cfg) :=
  .new

/-- One more block of a run, when it is accepted. -/
theorem Reachable.step (before : Reachable P cfg chain)
    (now : Time) (block : Block) (reached : Chain)
    (accepted : addBlock P now chain block = (.ok (), reached)) : Reachable P cfg reached :=
  ReachableWith.step before now block reached trivial accepted

theorem Grown.idle
    (grown : Grown P condition cfg chain) : chain.applyingHeight = 0 ∧ chain.cfg = cfg := by
  induction grown with
  | new => exact ⟨rfl, rfl⟩
  | add now chain block reached _ _ accepted ih =>
    have step := addBlock_idle P now chain block ih.1
    rw [accepted] at step
    exact ⟨step.1, step.2.trans ih.2⟩

theorem Grown.mono {condition' : StepCondition}
    (weaker : ∀ now chain block, condition now chain block → condition' now chain block)
    (grown : Grown P condition cfg chain) : Grown P condition' cfg chain := by
  induction grown with
  | new => exact .new
  | add now chain block reached _ meets accepted ih =>
    exact .add now chain block reached ih (weaker _ _ _ meets) accepted

/-- A replay that runs through grows the state it started from. -/
theorem Grown.replay (clock : Nat → Time)
    (position : Nat) (chain final : Chain) (blocks : List Block)
    (grown : Grown P condition cfg chain)
    (meets : ∀ step ∈ replayed P clock position chain blocks, condition step.1 step.2.1 step.2.2)
    (through : Addition.replay P clock position chain blocks = (.ok (), final)) :
    Grown P condition cfg final := by
  induction blocks generalizing position chain with
  | nil =>
    simp only [Addition.replay, Prod.mk.injEq, true_and] at through
    exact through ▸ grown
  | cons block rest ih =>
    simp only [Addition.replay] at through
    simp only [replayed] at meets
    cases outcome : addBlock P (clock position) chain block with
    | mk verdict reached =>
      rw [outcome] at through meets
      cases verdict with
      | error refusal => simp at through
      | ok _ =>
        simp only [List.forall_mem_cons] at meets
        exact ih (position + 1) reached
          (.add (clock position) chain block reached grown meets.1 outcome) meets.2 through

/-- Every state of a run is the constructed state extended by accepted blocks. -/
theorem ReachableWith.grown
    (reachable : ReachableWith P condition cfg chain) : Grown P condition cfg chain := by
  induction reachable with
  | new => exact .new
  | add now chain block _ meets ih =>
    cases outcome : addBlock P now chain block with
    | mk verdict reached =>
      cases verdict with
      | ok _ =>
        have met := meets (by rw [outcome])
        exact .add now chain block reached ih met outcome
      | error refusal =>
        have same := addBlock_refused P now chain block refusal reached
          ih.idle.1 outcome
        exact same ▸ ih
  | replace clock chain candidate _ meets ih =>
    cases outcome : replaceWithChain P clock chain candidate with
    | mk verdict reached =>
      cases verdict with
      | error refusal =>
        have same := replaceWithChain_refused P clock chain candidate refusal reached
          ih.idle.1 outcome
        exact same ▸ ih
      | ok _ =>
        unfold replaceWithChain at outcome
        cases candidate with
        | nil => simp at outcome
        | cons first rest =>
          dsimp only at outcome
          split at outcome
          · simp at outcome
          · cases through : Addition.replay P clock 1 (chain.reset P) rest with
            | mk verdict' reached' =>
              simp only [through] at outcome
              cases verdict' with
              | error refusal => simp at outcome
              | ok _ =>
                dsimp only at outcome
                split at outcome
                · simp at outcome
                · have final : reached' = reached := (Prod.mk.inj outcome).2
                  have start : Grown P condition cfg (chain.reset P) := by
                    rw [reset_eq_new, ih.idle.2]
                    exact .new
                  exact start.replay clock 1 _ _ rest meets (final ▸ through)

/-- What the constructor establishes and every accepted block keeps is true of a
grown chain. -/
theorem Grown.carries (property : Chain → Prop) (atStart : property (Chain.new P cfg))
    (keeps : ∀ now chain block reached, Grown P condition cfg chain → property chain →
      condition now chain block → addBlock P now chain block = (.ok (), reached) → property reached)
    (grown : Grown P condition cfg chain) : property chain := by
  induction grown with
  | new => exact atStart
  | add now chain block reached before meets accepted ih =>
    exact keeps now chain block reached before ih meets accepted

/-! ### Refused calls -/

/-- In every state of every run, a call that is refused leaves the whole state,
member by member, as it was before the call. -/
theorem refused_calls_change_nothing (P : Primitives) (cfg : ChainConfig) (chain : Chain)
    (reachable : Reachable P cfg chain) :
    (∀ now block refusal reached,
      addBlock P now chain block = (.error refusal, reached) → reached = chain) ∧
    ∀ clock candidate refusal reached,
      replaceWithChain P clock chain candidate = (.error refusal, reached) → reached = chain := by
  have idle := reachable.grown.idle.1
  refine ⟨?_, ?_⟩
  · intro now block refusal reached refused
    exact addBlock_refused P now chain block refusal reached idle refused
  · intro clock candidate refusal reached refused
    exact replaceWithChain_refused P clock chain candidate refusal reached idle refused

end Addition
