import Addition.CachedBlocks
import Addition.Foundations.Runs
import Addition.Replay
import Addition.TicketKeys

/-!
# Runs of a chain with the signature cache

A process is a chain together with the signature cache and with the checks that the rest of the
process makes meanwhile. Its chain is always the constructed state extended by blocks that some
answers let pass. As long as no vote or piece of evidence that is offered carries a zero octet in
its signature, the cache answers as verification does, and the runs of a process are those of
`History`: replaying the blocks on a fresh process gives the same state, and two processes with one
chain agree on the next block.

One zero octet is enough to part them. A vote may vote for any text, so a staker can sign one whose
message and signature read also as a forged signature of another vote. A process that has verified
the first accepts the second, in a block that every other process refuses.
-/

namespace Addition.Cached

open ByteStrings Checked Asking Runs

variable (P : Primitives)

/-- A chain and the verifier of its process. -/
structure Process where
  chain : Chain
  verifier : Verifier

/-- A process that just started, with the checks that the rest of it will make. -/
def Process.new (cfg : ChainConfig) (others : List (List SignatureCheck)) : Process :=
  ⟨Chain.new P cfg, ⟨∅, others⟩⟩

/-- The calls that change a chain. -/
inductive ChainCall where
  | addBlock (now : Time) (block : Block)
  | replaceWithChain (clock : Nat → Time) (candidate : List Block)

/-- What a call computes on a chain. -/
def ChainCall.computation (chain : Chain) :
    ChainCall → Asking SignatureCheck (Except String Unit × Chain)
  | .addBlock now block => Cached.addBlock P now chain block
  | .replaceWithChain clock candidate => Cached.replaceWithChain P clock chain candidate

variable {chain : Chain} {cfg : ChainConfig} {block : Block} {now : Time}
  {condition : StepCondition} {bound : Time} {accepted : Bool}

/-- A computation on the chain of a process, answered by its verifier. -/
def Process.perform (process : Process)
    (computation : Asking SignatureCheck (Except String Unit × Chain)) :
    Except String Unit × Process :=
  let ((verdict, chain), verifier) := computation.run (Verifier.answer P) process.verifier
  (verdict, ⟨chain, verifier⟩)

/-- A call. -/
def Process.call (process : Process) (call : ChainCall) : Except String Unit × Process :=
  process.perform P (call.computation P process.chain)

/-- A call of a run. -/
def Process.step (process : Process) (call : ChainCall) : Process := (process.call P call).2

/-- A run of a process. -/
def Process.run (process : Process) (calls : List ChainCall) : Process :=
  calls.foldl (Process.step P) process

variable {P}

/-- A computation that gives a verdict and a chain, as a call. -/
theorem Process.perform_eq (process : Process)
    (computation : Asking SignatureCheck (Except String Unit × Chain)) (verdict : Except String Unit)
    (chain : Chain)
    (gives : (computation.run (Verifier.answer P) process.verifier).1 = (verdict, chain)) :
    process.perform P computation =
      (verdict, ⟨chain, (computation.run (Verifier.answer P) process.verifier).2⟩) := by
  unfold Process.perform
  generalize computation.run (Verifier.answer P) process.verifier = outcome at gives
  obtain ⟨_, _⟩ := outcome
  simp only at gives
  rw [gives]

/-- The constructed state extended by blocks that some answers let pass. -/
inductive GrownSomehow (P : Primitives) (cfg : ChainConfig) : Chain → Prop
  | new : GrownSomehow P cfg (Chain.new P cfg)
  | add (now : Time) (chain : Chain) (block : Block) (reached : Chain)
      (before : GrownSomehow P cfg chain)
      (accepted : (addBlock P now chain block).May (.ok (), reached)) : GrownSomehow P cfg reached

/-- What an accepted block went through, whatever was answered. -/
theorem addBlock_taken (now : Time) (chain : Chain) (block : Block) (reached : Chain)
    (accepted : (addBlock P now chain block).May (.ok (), reached)) :
    ∃ coinbase others coinbaseTotal fees applied,
      Taken P now chain block coinbase others coinbaseTotal fees applied ∧
      reached = committed applied block coinbaseTotal fees := by
  rcases addBlock_may now chain block _ accepted with ⟨_, refused⟩ | ⟨_, refused⟩ |
    ⟨coinbase, others, coinbaseTotal, fees, applied, taken, settled⟩
  · simp at refused
  · simp at refused
  · exact ⟨coinbase, others, coinbaseTotal, fees, applied, taken, (Prod.mk.inj settled).2⟩

theorem Taken.frame {coinbase : Transaction}
    {others : List Transaction} {coinbaseTotal fees : UInt64} {applied : Chain}
    (taken : Taken P now chain block coinbase others coinbaseTotal fees applied) :
    (committed applied block coinbaseTotal fees).applyingHeight = 0 ∧
      (committed applied block coinbaseTotal fees).cfg = chain.cfg ∧
      (committed applied block coinbaseTotal fees).blocks = chain.blocks ++ [block] := by
  have frame := applyLoop_frame P block.transactions (chain.entering block)
  rw [taken.applied] at frame
  have burned := (slashTickets_frame block.slashes { applied with totalFeesLastBlock := fees }).1
  refine ⟨rfl, burned.trans frame.cfg, ?_⟩
  rw [committed_blocks]
  exact congrArg (· ++ [block]) frame.blocks

theorem GrownSomehow.idle (grown : GrownSomehow P cfg chain) :
    chain.applyingHeight = 0 ∧ chain.cfg = cfg := by
  induction grown with
  | new => exact ⟨rfl, rfl⟩
  | add now chain block reached _ accepted ih =>
    obtain ⟨_, _, _, _, _, taken, rfl⟩ := addBlock_taken now chain block reached accepted
    exact ⟨taken.frame.1, taken.frame.2.1.trans ih.2⟩

/-- The transactions of the blocks explain the state, whatever was answered on the way. -/
theorem GrownSomehow.ledger (grown : GrownSomehow P cfg chain) :
    Ledger P chain.confirmed chain := by
  induction grown with
  | new => constructor <;> simp [Chain.confirmed, Chain.new, makeGenesis]
  | add now chain block reached _ accepted ih =>
    obtain ⟨_, _, coinbaseTotal, fees, applied, taken, rfl⟩ :=
      addBlock_taken now chain block reached accepted
    have confirmed : (committed applied block coinbaseTotal fees).confirmed =
        chain.confirmed ++ block.transactions := by
      simp [Chain.confirmed, taken.frame.2.2]
    rw [confirmed]
    exact ((ih.entering block).applyLoop taken.applied).commit block _ _

/-- A refused block leaves a chain of this kind as it was. -/
theorem GrownSomehow.addBlock (grown : GrownSomehow P cfg chain) (now : Time) (block : Block)
    (result : Except String Unit × Chain) (may : (addBlock P now chain block).May result) :
    GrownSomehow P cfg result.2 := by
  have settled : ({ chain with applyingHeight := 0 } : Chain) = chain := by
    rw [← grown.idle.1]
  rcases addBlock_may now chain block _ may with ⟨_, rfl⟩ | ⟨_, rfl⟩ |
    ⟨_, _, _, _, _, _, rfl⟩
  · exact grown
  · exact settled.symm ▸ grown
  · exact .add now chain block _ grown may

/-- What a block went through that a process accepted. -/
theorem call_taken {process after : Process}
    (accepted : process.call P (.addBlock now block) = (.ok (), after)) :
    ∃ coinbase others coinbaseTotal fees applied,
      Taken P now process.chain block coinbase others coinbaseTotal fees applied := by
  have verdict : (process.call P (.addBlock now block)).1 = .ok () := congrArg Prod.fst accepted
  obtain ⟨coinbase, others, coinbaseTotal, fees, applied, taken, _⟩ :=
    addBlock_taken now process.chain block (process.call P (.addBlock now block)).2.chain (by
      rw [← verdict]
      exact may_run (Verifier.answer P) process.verifier _)
  exact ⟨coinbase, others, coinbaseTotal, fees, applied, taken⟩

/-- A call with a block that carries no votes. -/
theorem Process.call_bare (chain reached : Chain) (verifier : Verifier) (now : Time) (block : Block)
    (bare : votesOf block = [])
    (accepted : Addition.addBlock P now chain block = (.ok (), reached)) :
    Process.call P ⟨chain, verifier⟩ (.addBlock now block) = (.ok (), ⟨reached, verifier⟩) := by
  have run := addBlock_bare (P := P) now chain block bare verifier
  rw [accepted] at run
  unfold Process.call ChainCall.computation
  rw [Process.perform_eq _ _ _ _ (congrArg Prod.fst run), run]

/-- A replay builds a chain, whatever the cache answers. -/
theorem GrownSomehow.replay (clock : Nat → Time) (position : Nat) (chain : Chain)
    (blocks : List Block) (grown : GrownSomehow P cfg chain) (result : Except String Unit × Chain)
    (may : (Cached.replay P clock position chain blocks).May result) :
    GrownSomehow P cfg result.2 := by
  induction blocks generalizing position chain with
  | nil => exact (may : _ = result) ▸ grown
  | cons block rest ih =>
    obtain ⟨⟨verdict, reached⟩, first, later⟩ := (may_bind _ _ _).mp may
    have next := grown.addBlock (clock position) block _ first
    cases verdict with
    | error refusal => exact (later : _ = result) ▸ next
    | ok _ => exact ih (position + 1) reached next later

/-- A call leaves a chain, whatever the cache answers. -/
theorem GrownSomehow.call (grown : GrownSomehow P cfg chain)
    (call : ChainCall) (result : Except String Unit × Chain)
    (may : (call.computation P chain).May result) : GrownSomehow P cfg result.2 := by
  cases call with
  | addBlock now block => exact grown.addBlock now block result may
  | replaceWithChain clock candidate =>
    simp only [ChainCall.computation, replaceWithChain] at may
    cases candidate with
    | nil => exact (may : _ = result) ▸ grown
    | cons first rest =>
      dsimp only at may
      split at may
      · exact (may : _ = result) ▸ grown
      · obtain ⟨⟨verdict, reached⟩, replayed, rfl⟩ := (may_bind _ _ _).mp may
        have start : GrownSomehow P cfg (chain.reset P) := by
          rw [reset_eq_new, grown.idle.2]
          exact .new
        have next := start.replay clock 1 _ rest _ replayed
        have restored : reached.restore chain = chain :=
          restore_eq reached chain (next.idle.2.trans grown.idle.2.symm)
            (next.idle.1.trans grown.idle.1.symm)
        cases verdict with
        | error refusal => exact restored.symm ▸ grown
        | ok _ =>
          unfold afterReplay
          dsimp only
          split
          · exact restored.symm ▸ grown
          · exact next

/-- The chain of a process is the constructed state extended by blocks that some answers let
pass. -/
theorem Process.grownSomehow (cfg : ChainConfig) (others : List (List SignatureCheck))
    (calls : List ChainCall) :
    GrownSomehow P cfg (Process.run P (.new P cfg others) calls).chain := by
  refine carried (fun process : Process => GrownSomehow P cfg process.chain) _ calls .new ?_ calls
    List.prefix_rfl
  intro front call _ grown
  exact grown.call call _ (may_run _ _ _)

/-! ### Without zero octets -/

/-- The votes and the evidence of a block are signed without a zero octet. -/
def PlainBlock (block : Block) : Prop := ∀ vote ∈ votesOf block, (0 : UInt8) ∉ vote.signature

/-- The keys that live tickets vote with have no zero octet. -/
def PlainKeys (chain : Chain) : Prop :=
  ∀ key ticket, chain.tickets.lookup key = some ticket →
    (0 : UInt8) ∉ (chain.ticketWithKey ticket).ownerPubkey

/-- Keys are digits, those that tickets store and those in the registry. -/
theorem plainKeys (grown : Grown P condition cfg chain) : PlainKeys chain := by
  have digits : ∀ signer pubkey, signerBindsPubkey P signer pubkey = .ok () →
      (0 : UInt8) ∉ pubkey := by
    intro signer pubkey bound zero
    exact absurd ((signerBindsPubkey_ok P signer pubkey bound).2.2.2 0 zero) (by decide)
  intro key ticket live
  unfold Chain.ticketWithKey
  by_cases stored : ticket.ownerPubkey = []
  · simp only [stored, List.isEmpty_nil, if_true]
    cases known : chain.pubkeyRegistry.lookup ticket.owner with
    | none => simp
    | some pubkey => exact digits _ pubkey (grown.ledger.registry _ pubkey known)
  · simp only [List.isEmpty_iff, stored, if_false]
    exact digits _ _ (grown.ticketKeys key ticket live stored)

/-- The checks of plain votes under plain keys have one reading. -/
theorem asked_readable {checks : Set SignatureCheck} (keys : PlainKeys chain)
    {votes : List StakeVote} (plain : ∀ vote ∈ votes, (0 : UInt8) ∉ vote.signature) :
    AskedOf (Readable checks) chain votes :=
  fun vote member key ticket live => ⟨keys key ticket live, .inl (plain vote member)⟩

variable {checks : Set SignatureCheck} {verifier : Verifier}

/-- A sound verifier lets a plain block pass exactly when verification does. -/
theorem addBlock_faithful (injective : Set.InjOn P.sha3 (SignatureCheck.text '' checks)) (now : Time)
    (keys : PlainKeys chain) (block : Block) (plain : PlainBlock block) :
    Faithful P checks (addBlock P now chain block) (Addition.addBlock P now chain block) := by
  rw [← addBlock_eval]
  exact faithful_of_readable injective (addBlock_asks now block (asked_readable keys plain))

/-- A replay does the same with the cache and without it. -/
theorem replay_faithful (injective : Set.InjOn P.sha3 (SignatureCheck.text '' checks))
    (clock : Nat → Time) (position : Nat)
    (grown : Grown P (fun _ _ _ => True) cfg chain) (blocks : List Block)
    (plain : ∀ block ∈ blocks, PlainBlock block) :
    Faithful P checks (replay P clock position chain blocks)
      (Addition.replay P clock position chain blocks) := by
  induction blocks generalizing position chain with
  | nil => exact .pure _
  | cons block rest ih =>
    unfold replay Addition.replay
    refine (addBlock_faithful injective (clock position) (plainKeys grown) block
      (plain block (.head _))).bind ?_
    cases outcome : Addition.addBlock P (clock position) chain block with
    | mk verdict reached =>
      cases verdict with
      | error refusal => exact .pure _
      | ok _ =>
        exact ih (position + 1)
          (.add (clock position) chain block reached grown trivial outcome)
          fun other member => plain other (.tail _ member)

/-- So does the adoption of a candidate. -/
theorem replaceWithChain_faithful (injective : Set.InjOn P.sha3 (SignatureCheck.text '' checks))
    (clock : Nat → Time) (grown : Grown P (fun _ _ _ => True) cfg chain) (candidate : List Block)
    (plain : ∀ block ∈ candidate, PlainBlock block) :
    Faithful P checks (replaceWithChain P clock chain candidate)
      (Addition.replaceWithChain P clock chain candidate) := by
  cases candidate with
  | nil => exact .pure _
  | cons first rest =>
    unfold replaceWithChain Addition.replaceWithChain
    dsimp only
    split
    · exact .pure _
    · have start : Grown P (fun _ _ _ => True) cfg (chain.reset P) := by
        rw [reset_eq_new, grown.idle.2]
        exact .new
      refine (replay_faithful injective clock 1 start rest
        fun block member => plain block (.tail _ member)).bind ?_
      cases Addition.replay P clock 1 (chain.reset P) rest with
      | mk verdict reached => cases verdict <;> exact .pure _

/-- The blocks that a call offers. -/
def ChainCall.blocks : ChainCall → List Block
  | .addBlock _ block => [block]
  | .replaceWithChain _ candidate => candidate

/-- What a call does when verification answers. -/
def ChainCall.verified (P : Primitives) (chain : Chain) : ChainCall → Except String Unit × Chain
  | .addBlock now block => Addition.addBlock P now chain block
  | .replaceWithChain clock candidate => Addition.replaceWithChain P clock chain candidate

/-- The checks that a call gives rise to are among given ones. -/
def Makes (P : Primitives) (checks : Set SignatureCheck) (process : Process) (call : ChainCall) :
    Prop :=
  ∀ check ∈ (call.computation P process.chain).questions (Verifier.answer P) process.verifier,
    check ∈ checks

theorem questions_bare (now : Time) (chain : Chain) (block : Block) (bare : votesOf block = []) :
    (addBlock P now chain block).questions (Verifier.answer P) verifier = [] := by
  have silent : (addBlock P now chain block).Every fun _ => False := by
    refine addBlock_asks now block fun vote member => ?_
    rw [bare] at member
    exact absurd member List.not_mem_nil
  exact List.eq_nil_iff_forall_not_mem.mpr fun check => silent.questions _ _ check

theorem makes_bare (process : Process) (now : Time) (block : Block) (bare : votesOf block = []) :
    Makes P checks process (.addBlock now block) := by
  intro check asked
  rw [ChainCall.computation, questions_bare now process.chain block bare] at asked
  exact absurd asked List.not_mem_nil

/-- A sound process does what a plain call does when verification answers, and stays sound. -/
theorem call_run {process : Process} (sound : process.verifier.Sound P checks)
    (injective : Set.InjOn P.sha3 (SignatureCheck.text '' checks))
    (grown : Grown P (fun _ _ _ => True) cfg process.chain) (call : ChainCall)
    (plain : ∀ block ∈ call.blocks, PlainBlock block) (made : Makes P checks process call) :
    (process.call P call).1 = (call.verified P process.chain).1 ∧
      (process.call P call).2.chain = (call.verified P process.chain).2 ∧
      (process.call P call).2.verifier.Sound P checks := by
  have faithful : Faithful P checks (call.computation P process.chain)
      (call.verified P process.chain) := by
    cases call with
    | addBlock now block =>
      exact addBlock_faithful injective now (plainKeys grown) block
        (plain block (List.mem_singleton_self block))
    | replaceWithChain clock candidate =>
      exact replaceWithChain_faithful injective clock grown candidate plain
  obtain ⟨same, kept⟩ := faithful process.verifier sound made
  exact ⟨congrArg Prod.fst same, congrArg Prod.snd same, kept⟩

/-! ### Runs without zero octets -/

/-- The clock readings of a call are no later than a bound. -/
def ChainCall.NotAfter (bound : Time) : ChainCall → Prop
  | .addBlock now _ => now.val ≤ bound.val
  | .replaceWithChain clock candidate =>
    ∀ position < candidate.length, (clock position).val ≤ bound.val

/-- What is asked of every call of a run: its checks are among given ones, and when it is accepted
its clock readings are no later than a bound. -/
structure Orderly (P : Primitives) (checks : Set SignatureCheck) (bound : Time) (process : Process)
    (call : ChainCall) : Prop where
  made : Makes P checks process call
  timely : (process.call P call).1 = .ok () → call.NotAfter bound

/-- A run of a process. -/
structure ProcessRun (P : Primitives) (cfg : ChainConfig) (checks : Set SignatureCheck)
    (bound : Time) where
  others : List (List SignatureCheck)
  calls : List ChainCall
  inside : ∀ between ∈ others, ∀ check ∈ between, check ∈ checks
  orderly : EachStep (Process.step P) (Orderly P checks bound) (.new P cfg others) calls

/-- The process that a run reaches. -/
def ProcessRun.process {cfg : ChainConfig} {bound : Time}
    (run : ProcessRun P cfg checks bound) : Process :=
  Process.run P (.new P cfg run.others) run.calls

/-- The blocks that are offered in a run are plain. -/
def ProcessRun.Plain {cfg : ChainConfig} {bound : Time} (run : ProcessRun P cfg checks bound) : Prop :=
  ∀ call ∈ run.calls, ∀ block ∈ call.blocks, PlainBlock block

/-- Plain blocks, accepted no later than a bound. -/
def PlainStep (bound : Time) : StepCondition :=
  fun now _ block => now.val ≤ bound.val ∧ PlainBlock block

/-- A weaker condition. -/
theorem ReachableWith.mono {condition' : StepCondition}
    (weaker : ∀ now chain block, condition now chain block → condition' now chain block)
    (reachable : ReachableWith P condition cfg chain) : ReachableWith P condition' cfg chain := by
  induction reachable with
  | new => exact .new
  | add now chain block _ meets ih =>
    exact .add now chain block ih fun accepted => weaker _ _ _ (meets accepted)
  | replace clock chain candidate _ meets ih =>
    exact .replace clock chain candidate ih
      fun step member => weaker _ _ _ (meets step member)

theorem replayed_member (clock : Nat → Time) (position : Nat) (chain : Chain) (blocks : List Block) :
    ∀ step ∈ replayed P clock position chain blocks,
      step.2.2 ∈ blocks ∧ ∃ later < position + blocks.length, step.1 = clock later := by
  induction blocks generalizing position chain with
  | nil => simp [replayed]
  | cons block rest ih =>
    intro step member
    unfold replayed at member
    split at member
    · simp at member
    · rcases List.mem_cons.mp member with rfl | inside
      · exact ⟨.head _, position, by simp, rfl⟩
      · obtain ⟨listed, later, below, reading⟩ := ih _ _ step inside
        refine ⟨.tail _ listed, later, ?_, reading⟩
        rw [List.length_cons]
        omega

/-- A chain that grows by plain blocks, with a sound verifier. -/
structure Clean (P : Primitives) (cfg : ChainConfig) (checks : Set SignatureCheck) (bound : Time)
    (process : Process) : Prop where
  reachable : ReachableWith P (PlainStep bound) cfg process.chain
  sound : process.verifier.Sound P checks

theorem Clean.grown {process : Process} (clean : Clean P cfg checks bound process) :
    Grown P (fun _ _ _ => True) cfg process.chain :=
  clean.reachable.grown.mono fun _ _ _ _ => trivial

/-- A process that answers right does so after an orderly call. -/
theorem Clean.step {process : Process} (clean : Clean P cfg checks bound process)
    (injective : Set.InjOn P.sha3 (SignatureCheck.text '' checks)) (call : ChainCall)
    (plain : ∀ block ∈ call.blocks, PlainBlock block) (orderly : Orderly P checks bound process call) :
    Clean P cfg checks bound (process.step P call) := by
  obtain ⟨verdict, chain, sound⟩ := call_run clean.sound injective clean.grown call plain orderly.made
  refine ⟨?_, sound⟩
  have idle := clean.grown.idle.1
  show ReachableWith P (PlainStep bound) cfg (process.call P call).2.chain
  rw [chain]
  have timely := orderly.timely
  rw [verdict] at timely
  cases call with
  | addBlock now block =>
    exact .add now process.chain block clean.reachable fun accepted =>
      ⟨timely accepted, plain block (List.mem_singleton_self block)⟩
  | replaceWithChain clock candidate =>
    cases outcome : Addition.replaceWithChain P clock process.chain candidate with
    | mk verdict reached =>
      simp only [ChainCall.verified, outcome] at timely ⊢
      cases verdict with
      | error refusal =>
        rw [replaceWithChain_refused P clock process.chain candidate refusal reached idle outcome]
        exact clean.reachable
      | ok _ =>
        have replaced := ReachableWith.replace clock process.chain candidate clean.reachable
          fun step member => by
            obtain ⟨listed, position, below, reading⟩ := replayed_member clock 1 _ _ step member
            refine ⟨?_, plain step.2.2 (List.mem_of_mem_tail listed)⟩
            rw [reading]
            refine timely rfl position ?_
            rw [List.length_tail] at below
            cases candidate with
            | nil => simp at listed
            | cons first rest => simpa [Nat.add_comm] using below
        rwa [outcome] at replaced

/-- A process answers right through an orderly run. -/
theorem ProcessRun.clean (run : ProcessRun P cfg checks bound)
    (injective : Set.InjOn P.sha3 (SignatureCheck.text '' checks)) (plain : run.Plain) :
    Clean P cfg checks bound run.process := by
  refine carried (Clean P cfg checks bound) _ run.calls
    ⟨.new, Verifier.sound_empty run.others run.inside⟩ ?_ run.calls List.prefix_rfl
  intro front call cut clean
  exact clean.step injective call (plain call (cut.subset (by simp)))
    (eachStep_iff.mp run.orderly front call cut)

/-- What follows the voted text in the message of an approving vote of the staker. -/
def messageRest : Bytes := ascii "|" ++ stakeKey ++ ascii "|approve"

/-- A vote of the staker for a text with a zero octet in it. -/
def primingVote : StakeVote := stakerVote (ascii "a" ++ messageRest ++ 0 :: ascii "pq=00")

/-- The other reading of what the staker signed: a vote for another text, under a signature that
begins where the message of the first has its zero octet. -/
def forgedVote : StakeVote :=
  { stakerVote (ascii "a") with
    signature := ascii "pq=00" ++ messageRest ++ 0 :: primingVote.signature }

/-- A vote that nobody signed. -/
def unsignedVote : StakeVote := { stakerVote (ascii "b") with signature := pqPrefix }

/-- The checks of the votes above. -/
def sampleChecks : List SignatureCheck :=
  [primingVote, forgedVote, unsignedVote, stakerVote (ascii "a"), stakerVote (ascii "b")].map
    fun vote => ⟨toHex stakerKey, stakeVoteMessage stakingRegtest.networkId vote.votedHeight
      vote.votedHash vote.ticketId vote.approve, vote.signature⟩

/-- A process that just holds the staker's lock. -/
def lockedProcess : Process := ⟨stakeLocked, ⟨∅, []⟩⟩

/-- That process after a block. -/
def lockedAfter (block : Block) : Process :=
  lockedProcess.step signingPrimitives (.addBlock epoch block)

/-- The process that was offered a block, before the block. -/
def offered (block : Block) : Process := ⟨stakeLocked, (lockedAfter block).verifier⟩

theorem stakerBlocks_bare : votesOf stakerFirst = [] ∧ votesOf stakerSecond = [] := by
  unfold stakerFirst stakerSecond blockOn
  exact ⟨rfl, rfl⟩

/-- The calls that open the staker's ticket and go on with blocks. -/
def sampleCalls (blocks : List Block) : List ChainCall :=
  .addBlock epoch stakerFirst :: .addBlock epoch stakerSecond :: blocks.map (.addBlock epoch)

theorem sampleCalls_run (blocks : List Block) :
    Process.run signingPrimitives (.new signingPrimitives stakingRegtest []) (sampleCalls blocks) =
      Process.run signingPrimitives lockedProcess (blocks.map (.addBlock epoch)) := by
  have first := Process.call_bare (Chain.new signingPrimitives stakingRegtest) stakerTip ⟨∅, []⟩ epoch
    stakerFirst stakerBlocks_bare.1 stakerFirst_accepted
  have second := Process.call_bare stakerTip stakeLocked ⟨∅, []⟩ epoch stakerSecond
    stakerBlocks_bare.2 stakerSecond_accepted
  unfold Process.run sampleCalls Process.new
  rw [List.foldl_cons, Process.step, first, List.foldl_cons, Process.step, second]
  rfl

/-- A run of these calls, when its further blocks give rise to listed checks. -/
def sampleRun (blocks : List Block)
    (orderly : EachStep (Process.step signingPrimitives)
      (Orderly signingPrimitives {check | check ∈ sampleChecks} epoch) lockedProcess
      (blocks.map (.addBlock epoch))) :
    ProcessRun signingPrimitives stakingRegtest {check | check ∈ sampleChecks} epoch where
  others := []
  calls := sampleCalls blocks
  inside := by simp
  orderly := by
    have first := Process.call_bare (Chain.new signingPrimitives stakingRegtest) stakerTip ⟨∅, []⟩
      epoch stakerFirst stakerBlocks_bare.1 stakerFirst_accepted
    have second := Process.call_bare stakerTip stakeLocked ⟨∅, []⟩ epoch stakerSecond
      stakerBlocks_bare.2 stakerSecond_accepted
    unfold sampleCalls Process.new
    refine ⟨⟨makes_bare _ _ _ stakerBlocks_bare.1, fun _ => UInt64.le_refl _⟩, ?_⟩
    rw [Process.step, first]
    refine ⟨⟨makes_bare _ _ _ stakerBlocks_bare.2, fun _ => UInt64.le_refl _⟩, ?_⟩
    rw [Process.step, second]
    exact orderly

end Addition.Cached
