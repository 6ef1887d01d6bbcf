import Addition.DecentralizedNode
import Addition.Foundations.Runs

/-!
# What the node's operations leave alone

Votes touch neither the chain nor the pending pool. The chain of a node changes in
three events only, each of which calls `add_block` or `replace_with_chain`, so in every
run of a node its chain is a state of a run of the chain.
-/

namespace Addition.DecentralizedNode

open ByteStrings Checked FiniteTables Runs

variable {P : Primitives} {sign : SignMessage} {sort : List Transaction → List Transaction}

/-! ### Votes -/

/-- Two states of a node with the same chain, pool, identifiers, rounds and keys. -/
structure VotesOnly (node reached : DecentralizedNode) : Prop where
  chain : reached.chain = node.chain
  mempool : reached.mempool = node.mempool
  seenTxids : reached.seenTxids = node.seenTxids
  rounds : reached.rounds = node.rounds
  autoVoteKeys : reached.autoVoteKeys = node.autoVoteKeys

theorem VotesOnly.refl (node : DecentralizedNode) : VotesOnly node node :=
  ⟨rfl, rfl, rfl, rfl, rfl⟩

theorem VotesOnly.trans {first second third : DecentralizedNode} (left : VotesOnly first second)
    (right : VotesOnly second third) : VotesOnly first third where
  chain := right.chain.trans left.chain
  mempool := right.mempool.trans left.mempool
  seenTxids := right.seenTxids.trans left.seenTxids
  rounds := right.rounds.trans left.rounds
  autoVoteKeys := right.autoVoteKeys.trans left.autoVoteKeys

theorem pruneVotePool_votesOnly (node : DecentralizedNode) : VotesOnly node node.pruneVotePool :=
  ⟨rfl, rfl, rfl, rfl, rfl⟩

theorem observe_votesOnly (node : DecentralizedNode) (vote : StakeVote) :
    VotesOnly node (node.observeVoteForEquivocation P vote).2 := by
  unfold observeVoteForEquivocation
  split
  · exact .refl node
  · dsimp only
    split
    · exact ⟨rfl, rfl, rfl, rfl, rfl⟩
    · split
      · exact ⟨rfl, rfl, rfl, rfl, rfl⟩
      · split
        · exact ⟨rfl, rfl, rfl, rfl, rfl⟩
        · split
          · exact ⟨rfl, rfl, rfl, rfl, rfl⟩
          · exact ⟨rfl, rfl, rfl, rfl, rfl⟩

theorem observeVotes_votesOnly (votes : List StakeVote) (node : DecentralizedNode) :
    VotesOnly node (node.observeVotes P votes) := by
  induction votes generalizing node with
  | nil => exact .refl node
  | cons vote rest ih =>
    exact (observe_votesOnly node vote).trans (ih _)

theorem submitStakeVote_votesOnly (node : DecentralizedNode) (vote : StakeVote) :
    VotesOnly node (node.submitStakeVote P vote).2 := by
  have observed := (pruneVotePool_votesOnly node).trans (observe_votesOnly (P := P) _ vote)
  unfold submitStakeVote
  split
  · rename_i same
    rw [same] at observed
    exact observed
  · rename_i reached same
    rw [same] at observed
    have posted : VotesOnly node { reached with
        seenStakeVotes := insert (seenVoteKey vote) reached.seenStakeVotes
        votePool := reached.votePool ++ [vote]
        outbound := reached.outbound ++ [.stakeVote vote] } :=
      ⟨observed.chain, observed.mempool, observed.seenTxids, observed.rounds, observed.autoVoteKeys⟩
    split
    · exact observed
    · split
      · exact observed
      · split
        · exact observed
        · split
          · exact observed
          · exact posted

theorem recordSigning_votesOnly (node : DecentralizedNode) (vote : StakeVote) :
    VotesOnly node (node.recordSigning vote) :=
  ⟨rfl, rfl, rfl, rfl, rfl⟩

/-- What one round of the loop of `refresh_local_votes` does: nothing, an announcement, or
the submission of a vote it signed. -/
theorem refreshVote_cases (tip : UInt64) (tipHash : Bytes) (state : Nat × DecentralizedNode)
    (id : Bytes) :
    (refreshVote P sign tip tipHash state id).2 = state.2 ∨
      (∃ known, (refreshVote P sign tip tipHash state id).2 =
        { state.2 with outbound := state.2.outbound ++ [.stakeVote known] }) ∨
      ∃ ticket key signature, state.2.chain.tickets.lookup id = some ticket ∧
        state.2.votingKey ticket = some key ∧ state.2.pooledVote id tip = none ∧
        sign key.privateKey (stakeVoteMessage state.2.chain.cfg.networkId tip tipHash id true) =
          some signature ∧
        (refreshVote P sign tip tipHash state id).2 =
          (submitStakeVote P (state.2.recordSigning ⟨id, tip, tipHash, true, signature⟩)
            ⟨id, tip, tipHash, true, signature⟩).2 := by
  unfold refreshVote
  dsimp only
  split
  · exact .inl rfl
  · rename_i key found
    obtain ⟨ticket, live, voting⟩ := Option.bind_eq_some_iff.mp found
    split
    · split
      · exact .inr (.inl ⟨_, rfl⟩)
      · exact .inl rfl
    · rename_i unpooled
      split
      · exact .inl rfl
      · rename_i signature signed
        refine .inr (.inr ⟨ticket, key, signature, live, voting, unpooled, signed, ?_⟩)
        split
        · rename_i outcome
          rw [outcome]
        · rename_i outcome
          rw [outcome]

theorem refreshVote_votesOnly (tip : UInt64) (tipHash : Bytes) (state : Nat × DecentralizedNode)
    (id : Bytes) : VotesOnly state.2 (refreshVote P sign tip tipHash state id).2 := by
  rcases @refreshVote_cases P sign tip tipHash state id with
    same | ⟨known, announced⟩ | ⟨_, _, _, _, _, _, _, submitted⟩
  · rw [same]
    exact .refl _
  · rw [announced]
    exact ⟨rfl, rfl, rfl, rfl, rfl⟩
  · rw [submitted]
    exact (recordSigning_votesOnly _ _).trans (submitStakeVote_votesOnly _ _)

/-- What one round of the loop keeps, the whole call keeps. -/
theorem refreshLocalVotes_carries (property : DecentralizedNode → Prop) (node : DecentralizedNode)
    (start : property node)
    (keeps : ∀ tip tipHash state id, property state.2 → VotesOnly node state.2 →
      tip = node.chain.height → property (refreshVote P sign tip tipHash state id).2) :
    property (node.refreshLocalVotes P sign).2 := by
  unfold refreshLocalVotes
  split
  · exact start
  · split
    · exact start
    · rename_i block _
      have folded : ∀ (ids : List Bytes) (state : Nat × DecentralizedNode), property state.2 →
          VotesOnly node state.2 → property (ids.foldl (refreshVote P sign node.chain.height
            (hashBlockHeader P block.header)) state).2 := by
        intro ids
        induction ids with
        | nil => exact fun _ holds _ => holds
        | cons id rest ih =>
          intro state holds same
          exact ih _ (keeps _ _ _ id holds same rfl)
            (same.trans (refreshVote_votesOnly _ _ _ id))
      exact folded _ _ start (.refl node)

theorem refreshLocalVotes_votesOnly (node : DecentralizedNode) :
    VotesOnly node (node.refreshLocalVotes P sign).2 :=
  refreshLocalVotes_carries (VotesOnly node) node (.refl node)
    (fun _ _ _ id same _ _ => same.trans (refreshVote_votesOnly _ _ _ id))

theorem voteSource_votesOnly (node : DecentralizedNode) :
    VotesOnly node (node.voteSource P sign) := by
  unfold voteSource
  split
  · exact refreshLocalVotes_votesOnly node
  · exact .refl node

/-! ### The chain -/

/-- The block that a round of mining would add. -/
def minedBlock (node : DecentralizedNode) (position : Nat) : SearchOutcome → Option Block
  | .found nonce => do
    let round ← node.rounds[position]?
    let block ← round.template.toOption
    some (block.withNonce nonce)
  | _ => none

/-- A condition on the blocks that an event adds to the chain. -/
def ChainMeets (P : Primitives) (condition : StepCondition) (node : DecentralizedNode) : Event → Prop
  | .ingestBlock now block =>
    (addBlock P now node.chain block).1 = .ok () → condition now node.chain block
  | .adoptChain clock candidate => ∀ step ∈ replayed P clock 1 (node.chain.reset P) candidate.tail,
    condition step.1 step.2.1 step.2.2
  | .endMining now position outcome => ∀ block ∈ node.minedBlock position outcome,
    (addBlock P now node.chain block).1 = .ok () → condition now node.chain block
  | _ => True

/-- Without a nonce the chain stays as it is. -/
theorem mineBlock_idle (now : Time) (chain : Chain) (block : Block) (outcome : SearchOutcome)
    (idle : ∀ nonce, outcome ≠ .found nonce) : (mineBlock P now chain block outcome).2 = chain := by
  cases outcome with
  | found nonce => exact absurd rfl (idle nonce)
  | stopped => rfl
  | deadlineHit =>
    by_cases thirty : mineDeadlineSeconds chain.cfg = 30
    · simp [mineBlock, thirty]
    · simp [mineBlock, thirty]
  | exhausted => rfl

/-- The chain after a round with a template is the one that mining leaves. -/
theorem endRound_of_template (now : Time) (chain : Chain) (pool : Mempool) (round : MiningRound)
    (outcome : SearchOutcome) (block : Block) (template : round.template = .ok block) :
    (endRound P now chain pool round outcome).2.1 = (mineBlock P now chain block outcome).2 := by
  unfold endRound
  rw [template]
  dsimp only
  split
  · rename_i outcome'
    rw [outcome']
  · rename_i outcome'
    rw [outcome']

/-- The chain after a round of mining. -/
theorem endRound_chain (now : Time) (chain : Chain) (pool : Mempool) (round : MiningRound)
    (outcome : SearchOutcome) :
    (endRound P now chain pool round outcome).2.1 = chain ∨
      ∃ block nonce, round.template = .ok block ∧ outcome = .found nonce ∧
        (endRound P now chain pool round outcome).2.1 =
          (addBlock P now chain (block.withNonce nonce)).2 := by
  cases template : round.template with
  | error refusal =>
    unfold endRound
    rw [template]
    exact .inl rfl
  | ok block =>
    have same := endRound_of_template (P := P) now chain pool round outcome block template
    cases outcome with
    | found nonce => exact .inr ⟨block, nonce, rfl, rfl, same⟩
    | stopped => exact .inl (same.trans (mineBlock_idle now chain block _ (by simp)))
    | deadlineHit => exact .inl (same.trans (mineBlock_idle now chain block _ (by simp)))
    | exhausted => exact .inl (same.trans (mineBlock_idle now chain block _ (by simp)))

theorem minedBlock_found (node : DecentralizedNode) (position : Nat) (round : MiningRound)
    (block : Block) (nonce : UInt64) (found : node.rounds[position]? = some round)
    (template : round.template = .ok block) :
    block.withNonce nonce ∈ node.minedBlock position (.found nonce) := by
  simp [minedBlock, found, template, Except.toOption]

/-- Ending a round. -/
theorem endMining_chain (now : Time) (node : DecentralizedNode) (position : Nat)
    (outcome : SearchOutcome) :
    (node.endMining P now position outcome).chain = node.chain ∨
      ∃ block ∈ node.minedBlock position outcome,
        (node.endMining P now position outcome).chain = (addBlock P now node.chain block).2 := by
  unfold endMining
  cases found : node.rounds[position]? with
  | none => exact .inl rfl
  | some round =>
    rcases endRound_chain (P := P) now node.chain node.mempool round outcome with
      same | ⟨block, nonce, template, rfl, reached⟩
    · exact .inl same
    · exact .inr ⟨block.withNonce nonce, minedBlock_found node position round block nonce found template,
        reached⟩

/-- Beginning a round leaves the chain. -/
theorem beginMining_chain (node : DecentralizedNode) (call : MiningCall) :
    (node.beginMining P sign sort call).chain = node.chain :=
  (voteSource_votesOnly node).chain

theorem fluffTransaction_chain (node : DecentralizedNode) (tx : Transaction) :
    (node.fluffTransaction P tx).2.chain = node.chain := by
  unfold fluffTransaction
  split
  · rfl
  · split
    · rfl
    · split <;> rfl

/-- The chain after a block was offered. -/
theorem ingestBlock_chain (now : Time) (node : DecentralizedNode) (block : Block) :
    (node.ingestBlock P sign now block).2.chain = node.chain ∨
      (node.ingestBlock P sign now block).2.chain = (addBlock P now node.chain block).2 := by
  have observed := (observeVotes_votesOnly (P := P) block.votes node).chain
  unfold ingestBlock
  dsimp only
  split
  · exact .inl rfl
  · right
    split
    · rename_i refused
      rw [observed] at refused
      rw [refused]
    · rename_i accepted
      rw [observed] at accepted
      rw [accepted]
      exact (refreshLocalVotes_votesOnly _).chain

theorem adoptChain_chain (clock : Nat → Time) (node : DecentralizedNode) (candidate : List Block) :
    (node.adoptChain P clock candidate).2.chain =
      (replaceWithChain P clock node.chain candidate).2 := by
  unfold adoptChain
  split
  · rename_i refused
    rw [refused]
  · rename_i accepted
    rw [accepted]

theorem announceTip_chain (node : DecentralizedNode) : (node.announceTip P).chain = node.chain := by
  unfold announceTip
  split <;> rfl

variable {cfg : ChainConfig} {condition : StepCondition}

/-- An event takes the chain of a run to the chain of a run. -/
theorem step_reachable (node : DecentralizedNode)
    (event : Event) (reachable : ReachableWith P condition cfg node.chain)
    (meets : ChainMeets P condition node event) :
    ReachableWith P condition cfg (step P sign sort node event).chain := by
  cases event with
  | restorePool txs => exact reachable
  | fluffTransaction tx => exact (fluffTransaction_chain node tx).symm ▸ reachable
  | ingestBlock now block =>
    rcases @ingestBlock_chain P sign now node block with same | reached
    · exact same.symm ▸ reachable
    · exact reached.symm ▸ .add now node.chain block reachable meets
  | adoptChain clock candidate =>
    exact (adoptChain_chain clock node candidate).symm ▸ .replace clock _ _ reachable meets
  | announceTip => exact (announceTip_chain node).symm ▸ reachable
  | submitStakeVote vote => exact (submitStakeVote_votesOnly node vote).chain.symm ▸ reachable
  | refreshLocalVotes => exact (refreshLocalVotes_votesOnly node).chain.symm ▸ reachable
  | setAutoVoteKey address key => exact reachable
  | clearAutoVoteKey address => exact reachable
  | beginMining call => exact (beginMining_chain node call).symm ▸ reachable
  | endMining now position outcome =>
    rcases endMining_chain (P := P) now node position outcome with same | ⟨block, mined, reached⟩
    · exact same.symm ▸ reachable
    · exact reached.symm ▸ .add now node.chain block reachable (meets block mined)
  | pullOutbound => exact reachable

/-- In every run of a node whose blocks meet a condition, its chain is a state of such a
run of the chain. -/
theorem run_reachable {node : DecentralizedNode}
    {events : List Event} (start : ReachableWith P condition cfg node.chain)
    (meets : EachStep (step P sign sort) (ChainMeets P condition) node events) (front : List Event)
    (cut : front <+: events) : ReachableWith P condition cfg (run P sign sort node front).chain :=
  meets.carries (fun node => ReachableWith P condition cfg node.chain)
    (fun node event reachable holds => step_reachable node event reachable holds) start front cut

end Addition.DecentralizedNode
