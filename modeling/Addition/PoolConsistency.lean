import Addition.PendingPool
import Addition.Replay

/-!
# The pool stays clear of the chain

In a run of a node the pending transactions are clear of the confirmed ones in every
state, as long as nothing that conflicts is adopted, mined, returned by a miner or
restored. A reorganization takes nothing out of the pool, so a transaction that the
adopted chain confirms stays pending.
-/

namespace Addition

open ByteStrings Checked FiniteTables KeyIndexes Runs

variable {P : Primitives}

/-! ### The invariant -/

/-- Every pending transaction is clear of every confirmed one. -/
def Consistent (node : DecentralizedNode) : Prop :=
  ∀ tx ∈ node.mempool.pending, ∀ done ∈ node.chain.confirmed, Clear tx done

namespace DecentralizedNode

variable {sign : SignMessage} {sort : List Transaction → List Transaction}

/-- What is restored, adopted, mined or returned by a miner does not conflict: a restored
transaction with the chain, a pending one with a chain that is adopted, a pending one with
what a miner holds when its search ends, and what the miner holds with the chain. -/
def NoConflict (P : Primitives) (node : DecentralizedNode) : Event → Prop
  | .restorePool txs => ∀ tx ∈ txs, ∀ done ∈ node.chain.confirmed, Clear tx done
  | .adoptChain clock candidate => (replaceWithChain P clock node.chain candidate).1 = .ok () →
    ∀ tx ∈ node.mempool.pending, ∀ block ∈ candidate, ∀ done ∈ block.transactions, Clear tx done
  | .endMining _ position _ => ∀ round ∈ node.rounds[position]?,
    (∀ tx ∈ node.mempool.pending, ∀ done ∈ round.kept, Clear tx done) ∧
      ∀ tx ∈ round.kept, ∀ done ∈ node.chain.confirmed, Clear tx done
  | _ => True

/-- What holds of the pool, the chain and the rounds of mining. -/
structure Settled (node : DecentralizedNode) : Prop where
  consistent : Consistent node
  spendable : ∀ tx ∈ node.mempool.pending, looksSpendable tx = true
  kept : ∀ round ∈ node.rounds, ∀ tx ∈ round.kept, looksSpendable tx = true
  templates : ∀ round ∈ node.rounds, ∀ block, round.template = .ok block →
    block.transactions.tail = round.kept

variable {node : DecentralizedNode} {cfg : ChainConfig} {condition : StepCondition}

theorem Settled.votesOnly {reached : DecentralizedNode} (settled : Settled node)
    (same : VotesOnly node reached) : Settled reached := by
  obtain ⟨consistent, spendable, kept, templates⟩ := settled
  unfold Consistent at consistent
  refine ⟨?_, ?_, ?_, ?_⟩
  · unfold Consistent
    rwa [same.mempool, same.chain]
  · rwa [same.mempool]
  · rwa [same.rounds]
  · rwa [same.rounds]

theorem settled_new (chain : Chain) : Settled (.new chain) := by
  constructor <;> simp [Consistent, DecentralizedNode.new, Mempool.empty]

/-- More coinbase outputs leave the other transactions. -/
theorem payAlso_tail (block : Block) (outputs : List TxOutput) :
    (block.payAlso outputs).transactions.tail = block.transactions.tail := by
  unfold Block.payAlso
  split
  · rfl
  · rename_i listed
    rw [listed]
    rfl

/-- The transactions of a template after its coinbase are those it was given. -/
theorem templateWithVotes_tail (now : Time) (chain : Chain) (rewardAddress : Bytes)
    (txs : List Transaction) (votes : List StakeVote) (slashes : List SlashEvidence) (block : Block)
    (built : templateWithVotes P now chain rewardAddress txs votes slashes = .ok block) :
    block.transactions.tail = txs := by
  simp only [templateWithVotes, bind_ok, exists_unit, pure_ok] at built
  obtain ⟨_, owners, _, rfl⟩ := built
  exact payAlso_tail _ _

/-- Restoring keeps transactions of the list only. -/
theorem restore_member (txs : List Transaction) (pool : Mempool) (tx : Transaction)
    (pending : tx ∈ (txs.foldl (Mempool.restoreNext P) pool).pending) :
    tx ∈ pool.pending ∨ tx ∈ txs ∧ looksSpendable tx = true := by
  induction txs generalizing pool with
  | nil => exact .inl pending
  | cons first rest ih =>
    rcases ih (pool.restoreNext P first) pending with before | ⟨later, spendable⟩
    · unfold Mempool.restoreNext at before
      split at before
      · rename_i keeps
        rcases List.mem_append.mp before with old | new
        · exact .inl old
        · obtain rfl := List.mem_singleton.mp new
          exact .inr ⟨by simp, ((keeps_iff pool tx).mp keeps).1⟩
      · exact .inl before
    · exact .inr ⟨by simp [later], spendable⟩

/-! ### One event -/

/-- A transaction that becomes pending was validated on the tip. -/
theorem Settled.fluffTransaction (settled : Settled node)
    (reachable : ReachableWith P (FreshCoinbase P) cfg node.chain)
    (injective : Set.InjOn P.sha3 (textsOf P node.chain.confirmed)) (tx : Transaction) :
    Settled (node.fluffTransaction P tx).2 := by
  unfold DecentralizedNode.fluffTransaction
  split
  · exact settled
  · rename_i valid
    split
    · exact settled
    · have submitted := submit_cases (P := P) node.mempool tx
      split
      · rename_i outcome
        rw [outcome] at submitted
        have same := (submitted.resolve_right (by simp)).2
        refine ⟨?_, ?_, settled.kept, settled.templates⟩
        · intro other pending
          exact settled.consistent other (same ▸ pending)
        · intro other pending
          exact settled.spendable other (same ▸ pending)
      · rename_i outcome
        rw [outcome] at submitted
        obtain ⟨_, pushed, spendable⟩ := submitted.resolve_left (by simp)
        refine ⟨?_, ?_, settled.kept, settled.templates⟩
        · intro other pending done confirmed
          rcases List.mem_append.mp (pushed ▸ pending) with old | new
          · exact settled.consistent other old done confirmed
          · obtain rfl := List.mem_singleton.mp new
            exact valid_clear reachable.grown.ledger (reachable.grown.unrepeated injective) other done
              spendable (validateTransaction_weaken _ _ valid) confirmed
        · intro other pending
          rcases List.mem_append.mp (pushed ▸ pending) with old | new
          · exact settled.spendable other old
          · exact List.mem_singleton.mp new ▸ spendable

/-- A block that extends the chain takes out what it conflicts with. -/
theorem Settled.ingestBlock (settled : Settled node)
    (reachable : ReachableWith P condition cfg node.chain) (now : Time) (block : Block)
    (meets : (addBlock P now node.chain block).1 = .ok () → condition now node.chain block) :
    Settled (node.ingestBlock P sign now block).2 := by
  unfold DecentralizedNode.ingestBlock
  dsimp only
  split
  · exact settled
  · have observed := observeVotes_votesOnly (P := P) block.votes node
    have before := settled.votesOnly observed
    split
    · rename_i refused
      rw [observed.chain] at refused
      have same := addBlock_refused P now node.chain block _ _ reachable.grown.idle.1 refused
      refine before.votesOnly ⟨?_, rfl, rfl, rfl, rfl⟩
      rw [same, observed.chain]
    · rename_i reached accepted
      rw [observed.chain] at accepted
      have later : Grown P condition cfg reached :=
        .add now _ block reached reachable.grown (meets (by rw [accepted])) accepted
      refine Settled.votesOnly ?_ (refreshLocalVotes_votesOnly _)
      have listed := addBlock_confirmed now node.chain reached block accepted
      have unsigned : ∀ done ∈ block.transactions, done.inputs = [] → done.signer = [] :=
        fun done member => later.ledger.unsigned done (by simp [listed, member])
      have stays : ∀ tx ∈ ((node.observeVotes P block.votes).mempool.removeConfirmed P
          block.transactions).2.pending, looksSpendable tx = true ∧ tx ∈ node.mempool.pending ∧
            ∀ done ∈ block.transactions, Clear tx done := by
        intro tx pending
        rw [observed.mempool] at pending
        have member := removeConfirmed_member node.mempool block.transactions tx pending
        have spendable := settled.spendable tx member
        exact ⟨spendable, member, removeConfirmed_clear node.mempool _ tx spendable unsigned pending⟩
      refine ⟨?_, fun tx pending => (stays tx pending).1, before.kept, before.templates⟩
      intro tx pending done confirmed
      obtain ⟨_, member, clear⟩ := stays tx pending
      rcases List.mem_append.mp (listed ▸ confirmed) with old | new
      · exact settled.consistent tx member done old
      · exact clear done new

/-- The transactions of an adopted chain are those of the candidate. -/
theorem replaceWithChain_confirmed (clock : Nat → Time) (chain reached : Chain)
    (candidate : List Block)
    (adopted : replaceWithChain P clock chain candidate = (.ok (), reached)) (done : Transaction)
    (confirmed : done ∈ reached.confirmed) : ∃ block ∈ candidate, done ∈ block.transactions := by
  unfold replaceWithChain at adopted
  cases candidate with
  | nil => simp at adopted
  | cons first rest =>
    dsimp only at adopted
    split at adopted
    · simp at adopted
    · cases through : replay P clock 1 (chain.reset P) rest with
      | mk verdict final =>
        simp only [through] at adopted
        cases verdict with
        | error refusal => simp at adopted
        | ok _ =>
          dsimp only at adopted
          split at adopted
          · simp at adopted
          · obtain rfl : final = reached := (Prod.mk.inj adopted).2
            have blocks := replay_blocks clock 1 _ final rest through
            simp only [Chain.confirmed, blocks, List.flatMap_append, List.mem_append] at confirmed
            rcases confirmed with genesis | replayed
            · simp [reset_eq_new, Chain.new, makeGenesis] at genesis
            · obtain ⟨block, listed, member⟩ := List.mem_flatMap.mp replayed
              exact ⟨block, by simp [listed], member⟩

theorem Settled.adoptChain (settled : Settled node)
    (idle : node.chain.applyingHeight = 0) (clock : Nat → Time) (candidate : List Block)
    (clear : NoConflict P node (.adoptChain clock candidate)) :
    Settled (node.adoptChain P clock candidate).2 := by
  unfold DecentralizedNode.adoptChain
  split
  · rename_i refused
    have same := replaceWithChain_refused P clock node.chain candidate _ _ idle refused
    exact settled.votesOnly ⟨same, rfl, rfl, rfl, rfl⟩
  · rename_i adopted
    refine ⟨?_, settled.spendable, settled.kept, settled.templates⟩
    intro tx pending done confirmed
    obtain ⟨block, listed, member⟩ :=
      replaceWithChain_confirmed clock node.chain _ candidate adopted done confirmed
    exact clear (by rw [adopted]) tx pending block listed done member

/-- A round of mining takes pending transactions and returns some. -/
theorem Settled.beginMining (settled : Settled node) (library : StdSort sort) (call : MiningCall) :
    Settled (node.beginMining P sign sort call) := by
  have divided := fetchForBlock_perm (P := P) sort library node.mempool call.maxTxs
  have fetched : ∀ tx ∈ validFetched P sort node.chain node.mempool call.maxTxs,
      tx ∈ node.mempool.pending := by
    intro tx member
    exact divided.subset (List.mem_append_left _ (List.mem_filter.mp member).1)
  have same := @voteSource_votesOnly P sign node
  have before := settled.votesOnly same
  unfold DecentralizedNode.beginMining assembleRound beginRound
  dsimp only
  set votes := (if node.chain.stakingActiveAt (node.chain.height + 1) = true then
    usableStakeVotes P (voteSource P sign node) else []) with _
  set slashes := (if node.chain.stakingActiveAt (node.chain.height + 1) = true then
    usableSlashEvidence P (voteSource P sign node) else []) with _
  set valid := validFetched P sort node.chain node.mempool call.maxTxs with _
  set keep := keepCount P node.chain call.relayBudgetBytes votes slashes valid with _
  have pending : ∀ tx ∈ (submitAll P (node.mempool.fetchForBlock P sort call.maxTxs).2
      (valid.drop keep)).pending, tx ∈ node.mempool.pending := by
    intro tx member
    rcases submitAll_pending _ _ tx member with left | ⟨returned, _⟩
    · exact divided.subset (List.mem_append_right _ left)
    · exact fetched tx (List.mem_of_mem_drop returned)
  refine ⟨?_, ?_, ?_, ?_⟩
  · intro tx member done confirmed
    exact settled.consistent tx (pending tx member) done (same.chain ▸ confirmed)
  · exact fun tx member => settled.spendable tx (pending tx member)
  · intro round member tx kept
    rcases List.mem_append.mp member with old | new
    · exact before.kept round old tx kept
    · rw [List.mem_singleton.mp new] at kept
      exact settled.spendable tx (fetched tx (List.mem_of_mem_take kept))
  · intro round member block built
    rcases List.mem_append.mp member with old | new
    · exact before.templates round old block built
    · rw [List.mem_singleton.mp new] at built ⊢
      exact templateWithVotes_tail _ _ _ _ _ _ block built

/-- A round of mining adds its block, or returns what it kept. -/
theorem Settled.endMining
    (settled : Settled node) (reachable : ReachableWith P condition cfg node.chain) (now : Time)
    (position : Nat) (outcome : SearchOutcome)
    (meets : ChainMeets P condition node (.endMining now position outcome))
    (clear : NoConflict P node (.endMining now position outcome)) :
    Settled (node.endMining P now position outcome) := by
  unfold DecentralizedNode.endMining
  cases found : node.rounds[position]? with
  | none => exact settled
  | some round =>
    have listed : round ∈ node.rounds := List.mem_of_getElem? found
    obtain ⟨pendingClear, keptClear⟩ := clear round found
    have rounds : ∀ other ∈ node.rounds.eraseIdx position, other ∈ node.rounds :=
      fun other member => List.mem_of_mem_eraseIdx member
    have returned : ∀ chain, chain = node.chain → Settled { node with
        chain := chain
        mempool := submitAll P node.mempool round.kept
        rounds := node.rounds.eraseIdx position } := by
      rintro chain rfl
      refine ⟨?_, ?_, fun other member => settled.kept other (rounds other member),
        fun other member => settled.templates other (rounds other member)⟩
      · intro tx member done confirmed
        rcases submitAll_pending _ _ tx member with old | ⟨kept, _⟩
        · exact settled.consistent tx old done confirmed
        · exact keptClear tx kept done confirmed
      · intro tx member
        rcases submitAll_pending _ _ tx member with old | ⟨_, spendable⟩
        · exact settled.spendable tx old
        · exact spendable
    dsimp only
    unfold endRound
    cases template : round.template with
    | error refusal => exact returned node.chain rfl
    | ok block =>
      dsimp only
      cases mined : mineBlock P now node.chain block outcome with
      | mk verdict reached =>
        cases verdict with
        | error refusal =>
          refine returned reached ?_
          cases outcome with
          | found nonce =>
            exact addBlock_refused P now node.chain _ _ _ reachable.grown.idle.1 mined
          | stopped => exact (Prod.mk.inj mined).2.symm
          | deadlineHit =>
            have idle := mineBlock_idle (P := P) now node.chain block .deadlineHit (by simp)
            rw [mined] at idle
            exact idle
          | exhausted => exact (Prod.mk.inj mined).2.symm
        | ok _ =>
          obtain ⟨nonce, rfl⟩ : ∃ nonce, outcome = .found nonce := by
            cases outcome with
            | found nonce => exact ⟨nonce, rfl⟩
            | stopped => simp [mineBlock] at mined
            | deadlineHit =>
              simp only [mineBlock] at mined
              split at mined
              · simp at mined
              · simp at mined
            | exhausted => simp [mineBlock] at mined
          have accepted : addBlock P now node.chain (block.withNonce nonce) = (.ok (), reached) := mined
          have blockMeets := meets _
            (minedBlock_found node position round block nonce found template) (by rw [accepted])
          have later : Grown P condition cfg reached :=
            .add now _ _ reached reachable.grown blockMeets accepted
          have confirmedBy := addBlock_confirmed now node.chain reached _ accepted
          refine ⟨?_, settled.spendable, fun other member => settled.kept other (rounds other member),
            fun other member => settled.templates other (rounds other member)⟩
          intro tx pending done confirmed
          rcases List.mem_append.mp (confirmedBy ▸ confirmed) with old | new
          · exact settled.consistent tx pending done old
          · -- the coinbase spends nothing, and the rest is what the round kept
            obtain ⟨coinbase, others, _, _, _, _, _, went, _⟩ := addBlock_ok P now _ _ _ accepted
            have transactions : block.transactions = coinbase :: others := went.valid.transactions
            have tail := settled.templates round listed block template
            rw [transactions, List.tail_cons] at tail
            have member : done ∈ coinbase :: others := transactions ▸ new
            rcases List.mem_cons.mp member with rfl | inside
            · have noInputs := went.valid.claim.noInputs
              exact clear_of_coinbase tx done (settled.spendable tx pending) noInputs
                went.valid.claim.transparent (later.ledger.unsigned done confirmed noInputs)
            · exact pendingClear tx pending done (tail ▸ inside)

/-- What an event keeps. -/
theorem Settled.step (settled : Settled node)
    (library : StdSort sort) (reachable : ReachableWith P (FreshCoinbase P) cfg node.chain)
    (injective : Set.InjOn P.sha3 (textsOf P node.chain.confirmed)) (event : Event)
    (fresh : ChainMeets P (FreshCoinbase P) node event) (clear : NoConflict P node event) :
    Settled (step P sign sort node event) := by
  cases event with
  | restorePool txs =>
    have restored : ∀ tx ∈ (txs.foldl (Mempool.restoreNext P) .empty).pending,
        tx ∈ txs ∧ looksSpendable tx = true :=
      fun tx pending => (restore_member txs .empty tx pending).resolve_left (by simp [Mempool.empty])
    exact ⟨fun tx pending => clear tx (restored tx pending).1,
      fun tx pending => (restored tx pending).2, settled.kept, settled.templates⟩
  | fluffTransaction tx => exact settled.fluffTransaction reachable injective tx
  | ingestBlock now block => exact settled.ingestBlock reachable now block fresh
  | adoptChain clock candidate =>
    exact settled.adoptChain reachable.grown.idle.1 clock candidate clear
  | announceTip =>
    show Settled (node.announceTip P)
    unfold DecentralizedNode.announceTip
    split
    · exact settled
    · exact ⟨settled.consistent, settled.spendable, settled.kept, settled.templates⟩
  | submitStakeVote vote => exact settled.votesOnly (submitStakeVote_votesOnly node vote)
  | refreshLocalVotes => exact settled.votesOnly (refreshLocalVotes_votesOnly node)
  | setAutoVoteKey address key =>
    exact ⟨settled.consistent, settled.spendable, settled.kept, settled.templates⟩
  | clearAutoVoteKey address =>
    exact ⟨settled.consistent, settled.spendable, settled.kept, settled.templates⟩
  | beginMining call => exact settled.beginMining library call
  | endMining now position outcome =>
    exact settled.endMining reachable now position outcome fresh clear
  | pullOutbound =>
    exact ⟨settled.consistent, settled.spendable, settled.kept, settled.templates⟩

/-! ### Runs -/

/-- While accepted coinbases are new and nothing that conflicts is adopted, mined,
returned or restored, the pending transactions are clear of the chain in every state of
a run. -/
theorem pool_clear_of_chain (P : Primitives) (sign : SignMessage)
    (sort : List Transaction → List Transaction) (library : StdSort sort) (cfg : ChainConfig)
    (chain : Chain) (events : List Event)
    (start : ReachableWith P (FreshCoinbase P) cfg chain)
    (fresh : EachStep (step P sign sort) (ChainMeets P (FreshCoinbase P)) (.new chain) events)
    (clear : EachStep (step P sign sort) (NoConflict P) (.new chain) events)
    (injective : ∀ front, front <+: events →
      Set.InjOn P.sha3 (textsOf P (run P sign sort (.new chain) front).chain.confirmed)) :
    ∀ front, front <+: events → Consistent (run P sign sort (.new chain) front) := by
  intro front cut
  refine (carried (fun node => Settled node) _ events (settled_new chain) ?_ front cut).consistent
  intro front event cut settled
  have before := (List.prefix_append front [event]).trans cut
  have reachable := @run_reachable P sign sort _ _ (.new chain) _ start fresh front
    before
  obtain ⟨rest, rfl⟩ := cut
  rw [List.append_assoc] at fresh clear
  exact settled.step library reachable (injective front before) event fresh.before clear.before

/-! ### A spend that is confirmed by a block and by a reorganization -/

/-- A node without signing keys. -/
def noSign : SignMessage := fun _ _ => none

/-- A fresh node of the regression network. -/
def freshNode : DecentralizedNode := .new (Chain.new samplePrimitives regtestChainConfig)

/-- A coinbase to a script, a spend of it, and a block with the spend. -/
def spendConfirmed : List Event :=
  [.ingestBlock epoch scriptFirst, .fluffTransaction scriptSpend, .ingestBlock epoch scriptSecond]

set_option maxRecDepth 100000 in
theorem spendConfirmed_chain :
    (run samplePrimitives noSign sampleSort freshNode [.ingestBlock epoch scriptFirst]).chain =
      scriptTip ∧
    (run samplePrimitives noSign sampleSort freshNode
      [.ingestBlock epoch scriptFirst, .fluffTransaction scriptSpend]).chain = scriptTip ∧
    (run samplePrimitives noSign sampleSort freshNode spendConfirmed).chain = scriptSpent :=
  ⟨rfl, rfl, rfl⟩

/-- The chains of that run are free of collisions. -/
theorem spendConfirmed_injective (front : List Event) (cut : front <+: spendConfirmed) :
    Set.InjOn samplePrimitives.sha3 (textsOf samplePrimitives
      (run samplePrimitives noSign sampleSort freshNode front).chain.confirmed) := by
  obtain ⟨first, second, third⟩ := spendConfirmed_chain
  refine scriptSpent_injective.mono (textsOf_mono fun tx member => ?_)
  rw [scriptSpent_confirmed]
  simp only [spendConfirmed, List.prefix_cons_iff, List.prefix_nil] at cut
  rcases cut with rfl | ⟨_, rfl, rfl | ⟨_, rfl, rfl | ⟨_, rfl, rfl⟩⟩⟩
  · have none : (run samplePrimitives noSign sampleSort freshNode []).chain.confirmed = [] := rfl
    simp [none] at member
  · rw [first, scriptTip_confirmed] at member
    exact List.mem_cons.mpr (.inl (List.mem_singleton.mp member))
  · rw [second, scriptTip_confirmed] at member
    exact List.mem_cons.mpr (.inl (List.mem_singleton.mp member))
  · have whole := third
    unfold spendConfirmed at whole
    rwa [whole, scriptSpent_confirmed] at member

/-- A spend that is confirmed by the next block is not pending any more. -/
theorem confirmed_spend_cleared :
    Consistent (run samplePrimitives noSign sampleSort freshNode spendConfirmed) := by
  obtain ⟨first, second, _⟩ := spendConfirmed_chain
  refine pool_clear_of_chain samplePrimitives noSign sampleSort sampleSort_std regtestChainConfig
    (Chain.new samplePrimitives regtestChainConfig) spendConfirmed .new ?_ ?_
    spendConfirmed_injective spendConfirmed List.prefix_rfl
  · refine ⟨fun _ _ _ seen => Finset.notMem_empty _ seen, trivial, ?_, trivial⟩
    simp only [run, freshNode, List.foldl_cons, List.foldl_nil] at second
    intro _
    rw [second]
    have ledger := (ReachableWith.new.step epoch scriptFirst scriptTip
      (fun _ _ seen => Finset.notMem_empty _ seen) scriptFirst_accepted :
        ReachableWith samplePrimitives (FreshCoinbase samplePrimitives) regtestChainConfig
          scriptTip).grown.ledger
    rw [scriptTip_confirmed] at ledger
    refine ledger.freshCoinbase epoch scriptSecond_listed ?_
    rintro tx member
    rw [List.mem_singleton.mp member]
    decide +kernel
  · exact ⟨trivial, trivial, trivial, trivial⟩

/-- The node after the spend became pending. -/
def spendPending : DecentralizedNode :=
  run samplePrimitives noSign sampleSort freshNode
    [.ingestBlock epoch scriptFirst, .fluffTransaction scriptSpend]

/-- A longer chain that confirms the spend. -/
def spentCandidate : List Block :=
  [makeGenesis samplePrimitives regtestChainConfig kRegtestMinDifficultyTarget, scriptFirst,
    scriptSecond]

set_option maxRecDepth 100000 in
theorem spendPending_adopted :
    (spendPending.adoptChain samplePrimitives (fun _ => epoch) spentCandidate).1 = .ok () ∧
    (spendPending.adoptChain samplePrimitives (fun _ => epoch) spentCandidate).2.mempool.pending =
      [scriptSpend] ∧
    (spendPending.adoptChain samplePrimitives (fun _ => epoch) spentCandidate).2.chain.confirmed =
      [scriptCoinbase, coinbaseOf [⟨ascii "miner", 50⟩] 1, scriptSpend] := by
  refine ⟨?_, ?_, ?_⟩
  · rfl
  · rfl
  · rfl

/-- A reorganization to a chain that confirms a pending spend leaves it pending. -/
theorem reorganization_keeps_confirmed_pending :
    ¬ ∀ (P : Primitives) (sign : SignMessage) (sort : List Transaction → List Transaction)
        (cfg : ChainConfig) (chain : Chain) (events : List Event) (clock : Nat → Time)
        (candidate : List Block),
      StdSort sort → Reachable P cfg chain →
      ((run P sign sort (.new chain) events).adoptChain P clock candidate).1 = .ok () →
      Consistent ((run P sign sort (.new chain) events).adoptChain P clock candidate).2 := by
  intro always
  have consistent : Consistent (spendPending.adoptChain samplePrimitives (fun _ => epoch)
      spentCandidate).2 := always samplePrimitives noSign sampleSort regtestChainConfig
    (Chain.new samplePrimitives regtestChainConfig)
    [.ingestBlock epoch scriptFirst, .fluffTransaction scriptSpend] (fun _ => epoch) spentCandidate
    sampleSort_std .new spendPending_adopted.1
  obtain ⟨_, pending, confirmed⟩ := spendPending_adopted
  unfold Consistent at consistent
  rw [pending, confirmed] at consistent
  exact (consistent scriptSpend (by simp) scriptSpend (by simp)).different rfl

end DecentralizedNode

end Addition
