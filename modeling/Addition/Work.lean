import Addition.Replay

/-!
# Fork choice by work

Work is accumulated in a 64-bit member without an overflow test. As long as the
exact total of the chain stays below 2^64 the member is that total, every accepted
block raises it, and a reorganization succeeds exactly when each candidate block
is accepted in turn and the candidate has more exact work. Then no sequence of
successful calls returns to a chain with as little work.
-/

namespace Addition

open ByteStrings Checked

variable {P : Primitives}

/-- The work of a target: the quotient of the largest word by it, and the largest
word for target zero. -/
def targetWork (target : UInt64) : Nat :=
  if target = 0 then 2 ^ 64 - 1 else (2 ^ 64 - 1) / target.toNat

/-- The exact work of a list of blocks. -/
def exactWork (blocks : List Block) : Nat :=
  (blocks.map (fun block => targetWork block.header.difficultyTarget)).sum

theorem exactWork_append (blocks : List Block) (block : Block) :
    exactWork (blocks ++ [block]) =
      exactWork blocks + targetWork block.header.difficultyTarget := by
  simp [exactWork]

theorem workForTarget_toNat (target : UInt64) : (workForTarget target).toNat = targetWork target := by
  unfold workForTarget targetWork
  split
  · rfl
  · exact UInt64.toNat_div _ _

/-- Every block has some work. -/
theorem targetWork_pos (target : UInt64) : 0 < targetWork target := by
  unfold targetWork
  split
  · decide
  · rename_i nonzero
    have bound := target.toNat_lt
    have positive : 0 < target.toNat :=
      Nat.pos_of_ne_zero fun same => nonzero (UInt64.toNat_inj.mp same)
    exact Nat.div_pos (by omega) positive

/-- The exact work of the chain with the new block is a word. -/
def WorkFits : StepCondition := fun _ chain block => exactWork (chain.blocks ++ [block]) < 2 ^ 64

/-- The member is the exact work. -/
def WorkExact (chain : Chain) : Prop := chain.cumulativeWork.toNat = exactWork chain.blocks

theorem addBlock_work (now : Time) (chain reached : Chain) (block : Block)
    (accepted : addBlock P now chain block = (.ok (), reached)) :
    reached.cumulativeWork =
      chain.cumulativeWork + workForTarget block.header.difficultyTarget := by
  obtain ⟨_, _, coinbaseTotal, fees, _, _, applied, went, rfl⟩ :=
    addBlock_ok P now chain block reached accepted
  have frame := (applyLoop_frame P block.transactions (chain.entering block)).cumulativeWork
  rw [went.applied] at frame
  have kept : ∀ (slashes : List SlashEvidence) (state : Chain),
      (slashes.foldl Chain.slashTicket state).cumulativeWork = state.cumulativeWork := by
    intro slashes
    induction slashes with
    | nil => exact fun _ => rfl
    | cons slash rest ih =>
      intro state
      rw [List.foldl_cons, ih]
      unfold Chain.slashTicket
      split <;> rfl
  show (block.slashes.foldl Chain.slashTicket
    { applied with totalFeesLastBlock := fees }).cumulativeWork + _ = _
  rw [kept]
  exact congrArg (· + workForTarget block.header.difficultyTarget) frame

variable {chain reached : Chain} {cfg : ChainConfig}

/-- One accepted block keeps the member exact and raises it, while the total fits. -/
theorem WorkExact.step {now : Time} {block : Block}
    (exactly : WorkExact chain) (fits : WorkFits now chain block)
    (accepted : addBlock P now chain block = (.ok (), reached)) :
    WorkExact reached ∧ exactWork chain.blocks < exactWork reached.blocks := by
  have total := exactWork_append chain.blocks block
  have positive := targetWork_pos block.header.difficultyTarget
  unfold WorkExact WorkFits at *
  rw [addBlock_work now chain reached block accepted,
    addBlock_blocks now chain reached block accepted, UInt64.toNat_add, exactly,
    workForTarget_toNat, ← total]
  exact ⟨Nat.mod_eq_of_lt fits, by omega⟩

theorem Grown.workExact (grown : Grown P WorkFits cfg chain) :
    WorkExact chain := by
  refine grown.carries WorkExact ?_ ?_
  · simp [WorkExact, exactWork, Chain.new, makeGenesis, workForTarget_toNat]
  · intro now chain block reached _ exactly fits accepted
    exact (exactly.step fits accepted).1

/-- The first block of a grown chain is its genesis. -/
theorem Grown.genesis {condition : StepCondition} (grown : Grown P condition cfg chain) :
    chain.blocks.headD default = makeGenesis P cfg cfg.initialDifficultyTarget := by
  have first : ∃ rest, chain.blocks = makeGenesis P cfg cfg.initialDifficultyTarget :: rest := by
    refine grown.carries (fun chain => ∃ rest,
      chain.blocks = makeGenesis P cfg cfg.initialDifficultyTarget :: rest) ⟨[], rfl⟩ ?_
    rintro now chain block reached _ ⟨rest, blocks⟩ _ accepted
    refine ⟨rest ++ [block], ?_⟩
    rw [addBlock_blocks now chain reached block accepted, blocks, List.cons_append]
  obtain ⟨rest, blocks⟩ := first
  rw [blocks]
  rfl

/-! ### Reorganizations -/

/-- When a reorganization succeeds, in terms of the replay and of the member. -/
theorem replaceWithChain_ok (clock : Nat → Time) (chain reached : Chain) (first : Block)
    (rest : List Block) :
    replaceWithChain P clock chain (first :: rest) = (.ok (), reached) ↔
      hashBlockHeader P first.header = hashBlockHeader P (chain.blocks.headD default).header ∧
        replay P clock 1 (chain.reset P) rest = (.ok (), reached) ∧
        chain.cumulativeWork < reached.cumulativeWork := by
  unfold replaceWithChain
  dsimp only
  by_cases genesis : hashBlockHeader P first.header =
      hashBlockHeader P (chain.blocks.headD default).header
  · rw [if_neg (not_not.mpr genesis)]
    cases through : replay P clock 1 (chain.reset P) rest with
    | mk verdict final =>
      cases verdict with
      | error refusal => simp
      | ok _ =>
        dsimp only
        split
        · rename_i lower
          simp only [Prod.mk.injEq, reduceCtorEq, false_and, false_iff, not_and, true_and]
          rintro _ rfl
          exact fun higher => absurd lower (UInt64.not_le.mpr higher)
        · rename_i higher
          simp only [Prod.mk.injEq, true_and, genesis]
          constructor
          · rintro rfl
            exact ⟨rfl, UInt64.not_le.mp higher⟩
          · exact fun both => both.1
  · rw [if_pos genesis]
    refine ⟨fun refused => ?_, fun both => absurd both.1 genesis⟩
    simp at refused

/-- The steps of a replay meet the condition on work. -/
def ReplayFits (P : Primitives) (clock : Nat → Time) (chain : Chain) (candidate : List Block) : Prop :=
  ∀ step ∈ replayed P clock 1 (chain.reset P) candidate.tail, WorkFits step.1 step.2.1 step.2.2

/-- One successful call whose accepted blocks meet the condition on work. -/
inductive Advances (P : Primitives) : Chain → Chain → Prop
  | add (now : Time) (chain : Chain) (block : Block) (reached : Chain)
      (fits : WorkFits now chain block)
      (accepted : addBlock P now chain block = (.ok (), reached)) : Advances P chain reached
  | replace (clock : Nat → Time) (chain : Chain) (candidate : List Block) (reached : Chain)
      (fits : ReplayFits P clock chain candidate)
      (replaced : replaceWithChain P clock chain candidate = (.ok (), reached)) :
      Advances P chain reached

/-- The state that a fitting replay reaches is grown. -/
theorem Grown.reorganized
    (grown : Grown P WorkFits cfg chain) (clock : Nat → Time) (first : Block) (rest : List Block)
    (fits : ReplayFits P clock chain (first :: rest))
    (through : Addition.replay P clock 1 (chain.reset P) rest = (.ok (), reached)) :
    Grown P WorkFits cfg reached := by
  have start : Grown P WorkFits cfg (chain.reset P) := by
    rw [reset_eq_new, grown.idle.2]
    exact .new
  exact start.replay clock 1 _ _ rest fits through

/-- A successful call leads to a grown chain with more work. -/
theorem Advances.higher (advances : Advances P chain reached) (grown : Grown P WorkFits cfg chain) :
    Grown P WorkFits cfg reached ∧ exactWork chain.blocks < exactWork reached.blocks := by
  cases advances with
  | add now _ block _ fits accepted =>
    exact ⟨.add now chain block reached grown fits accepted,
      (grown.workExact.step fits accepted).2⟩
  | replace clock _ candidate _ fits replaced =>
    cases candidate with
    | nil => simp [replaceWithChain] at replaced
    | cons first rest =>
      obtain ⟨_, through, higher⟩ := (replaceWithChain_ok clock chain reached first rest).mp replaced
      have after := grown.reorganized clock first rest fits through
      refine ⟨after, ?_⟩
      rw [← grown.workExact, ← after.workExact]
      exact UInt64.lt_iff_toNat_lt.mp higher

/-- In every run whose accepted blocks keep the exact total work below 2^64, the
work member is the exact total; a further such block raises it strictly; a
reorganization to a candidate of such blocks succeeds exactly when the candidate
starts with the same genesis, each later block is accepted in turn, and the exact
total work is strictly greater; and after one or more successful calls the chain
has strictly more exact work than before them. -/
theorem fork_choice_by_exact_work (P : Primitives) (cfg : ChainConfig) (chain : Chain)
    (reachable : ReachableWith P WorkFits cfg chain) :
    chain.cumulativeWork.toNat = exactWork chain.blocks ∧
    (∀ now block reached, WorkFits now chain block →
      addBlock P now chain block = (.ok (), reached) →
      chain.cumulativeWork < reached.cumulativeWork) ∧
    (∀ clock first rest reached, ReplayFits P clock chain (first :: rest) →
      (replaceWithChain P clock chain (first :: rest) = (.ok (), reached) ↔
        hashBlockHeader P first.header = hashBlockHeader P (makeGenesis P cfg
          cfg.initialDifficultyTarget).header ∧
        replay P clock 1 (Chain.new P cfg) rest = (.ok (), reached) ∧
        exactWork chain.blocks <
          exactWork (makeGenesis P cfg cfg.initialDifficultyTarget :: rest))) ∧
    ∀ later, Relation.TransGen (Advances P) chain later →
      exactWork chain.blocks < exactWork later.blocks := by
  have grown := reachable.grown
  refine ⟨grown.workExact, ?_, ?_, ?_⟩
  · intro now block reached fits accepted
    obtain ⟨after, higher⟩ := grown.workExact.step fits accepted
    rw [UInt64.lt_iff_toNat_lt, grown.workExact, after]
    exact higher
  · intro clock first rest reached fits
    have fresh : chain.reset P = Chain.new P cfg := by rw [reset_eq_new, grown.idle.2]
    rw [replaceWithChain_ok, grown.genesis, fresh]
    refine and_congr_right fun _ => and_congr_right fun through => ?_
    have after := grown.reorganized clock first rest fits (fresh ▸ through)
    have blocks := replay_blocks clock 1 (Chain.new P cfg) reached rest through
    rw [UInt64.lt_iff_toNat_lt, grown.workExact, after.workExact, blocks]
    exact Iff.rfl
  · intro later advanced
    have carried : Grown P WorkFits cfg later ∧ exactWork chain.blocks < exactWork later.blocks := by
      induction advanced with
      | single step => exact step.higher grown
      | tail _ step ih =>
        obtain ⟨after, more⟩ := step.higher ih.1
        exact ⟨after, ih.2.trans more⟩
    exact carried.2

/-- On the regression network a block has one unit of work. -/
theorem scriptTip_work : scriptTip.cumulativeWork.toNat = exactWork scriptTip.blocks := by
  have reachable : ReachableWith samplePrimitives WorkFits regtestChainConfig scriptTip :=
    ReachableWith.new.step epoch scriptFirst scriptTip (by unfold WorkFits; decide +kernel)
      scriptFirst_accepted
  exact (fork_choice_by_exact_work samplePrimitives regtestChainConfig scriptTip reachable).1

/-- Libraries whose SHA3-512 meets every target. -/
def luckyPrimitives : Primitives :=
  { samplePrimitives with sha3 := fun _ => ⟨List.replicate 64 0, by simp⟩ }

/-- A network whose target is one throughout. -/
def hardConfig : ChainConfig :=
  { regtestChainConfig with
    initialDifficultyTarget := 1
    minDifficultyTarget := 1
    maxDifficultyTarget := 1 }

/-- A block under the hard target. -/
def hardBlock : Block :=
  blockOn luckyPrimitives (Chain.new luckyPrimitives hardConfig) [minerCoinbase]

/-- The state after one block at target one. -/
def hardTip : Chain :=
  stateAfter luckyPrimitives (Chain.new luckyPrimitives hardConfig) hardBlock

theorem hardBlock_accepted :
    addBlock luckyPrimitives epoch (Chain.new luckyPrimitives hardConfig) hardBlock =
      (.ok (), hardTip) :=
  stateAfter_accepted (by decide +kernel)

/-- The first block at target one wraps the work member, which decreases. -/
theorem work_wraps :
    ¬ ∀ (P : Primitives) (cfg : ChainConfig) (chain : Chain), Reachable P cfg chain →
      chain.cumulativeWork.toNat = exactWork chain.blocks ∧
      ∀ now block reached, addBlock P now chain block = (.ok (), reached) →
        chain.cumulativeWork < reached.cumulativeWork := by
  intro always
  have higher := (always luckyPrimitives hardConfig _ (Reachable.start luckyPrimitives hardConfig)).2
    epoch hardBlock hardTip hardBlock_accepted
  rw [addBlock_work epoch _ _ _ hardBlock_accepted] at higher
  exact absurd higher (by decide +kernel)

end Addition
