import Addition.PoolConsistency

/-!
# What becomes of submitted transactions

An accepted transaction is pending unless its identifier was seen before, and then it is
where it was: identifiers stay seen when their transactions leave the pool or the chain.
A round of mining that fails returns what it fetched, as long as nothing that shares a key
with it became pending during the search.
-/

namespace Addition

open ByteStrings Checked FiniteTables KeyIndexes Runs

variable {P : Primitives}

/-! ### Transactions that share no key -/

/-- Two transactions with different identifiers, nonces, outpoints and nullifiers. -/
structure Apart (P : Primitives) (left right : Transaction) : Prop where
  txid : hashTransaction P left ≠ hashTransaction P right
  nonces : ∀ key ∈ nonceKeys left, key ∉ nonceKeys right
  reserved : ∀ key ∈ reservedKeys left, key ∉ reservedKeys right

theorem Apart.symm {left right : Transaction} (apart : Apart P left right) : Apart P right left where
  txid := apart.txid.symm
  nonces := fun key member known => apart.nonces key known member
  reserved := fun key member known => apart.reserved key known member

variable {pool : Mempool}

/-- The pending transactions of a valid pool share no keys. -/
theorem Represents.apart {txs : List Transaction}
    (represents : Represents P txs pool) : txs.Pairwise (Apart P) := by
  have txids := represents.txids.apart
  have nonces := represents.signerNonces.apart
  have reserved := represents.reservedOutpoints.apart
  refine (txids.and (nonces.and reserved)).imp ?_
  rintro left right ⟨txid, nonce, keys⟩
  exact ⟨fun same => txid _ (List.mem_singleton_self _) (List.mem_singleton.mpr same), nonce, keys⟩

/-- A transaction apart from all pending ones is fresh. -/
theorem fresh_of_apart (valid : pool.Valid P) (tx : Transaction)
    (apart : ∀ other ∈ pool.pending, Apart P other tx) : Fresh P pool tx where
  txid := by
    intro known
    obtain ⟨other, pending, same⟩ := (valid.txids.exact _).mp known
    exact (apart other pending).txid (List.mem_singleton.mp same).symm
  nonce := by
    intro key own known
    obtain ⟨other, pending, member⟩ := (valid.signerNonces.exact key).mp known
    exact (apart other pending).nonces key member own
  reserved := by
    intro key own known
    obtain ⟨other, pending, member⟩ := (valid.reservedOutpoints.exact key).mp known
    exact (apart other pending).reserved key member own

/-- A fresh transaction is pushed. -/
theorem submit_fresh (pool : Mempool) (tx : Transaction) (spendable : looksSpendable tx = true)
    (fresh : Fresh P pool tx) : pool.submit P tx = (true, pool.push P tx) := by
  have nonce : (nonceKeys tx).any (· ∈ pool.signerNonces) = false := by
    simpa using fresh.nonce
  have reserved : (reservedKeys tx).any (· ∈ pool.reservedOutpoints) = false := by
    simpa using fresh.reserved
  simp [Mempool.submit, spendable, fresh.txid, nonce, reserved]

/-- Transactions that share no key with the pending ones or each other all become
pending. -/
theorem submitAll_apart (txs : List Transaction) (pool : Mempool) (valid : pool.Valid P)
    (spendable : ∀ tx ∈ txs, looksSpendable tx = true)
    (apart : (pool.pending ++ txs).Pairwise (Apart P)) :
    (submitAll P pool txs).pending = pool.pending ++ txs ∧ (submitAll P pool txs).Valid P := by
  induction txs generalizing pool with
  | nil => exact ⟨(List.append_nil _).symm, valid⟩
  | cons tx rest ih =>
    have fresh : Fresh P pool tx := fresh_of_apart valid tx
      (fun other pending => (List.pairwise_append.mp apart).2.2 other pending tx (by simp))
    have pushed := submit_fresh pool tx (spendable tx (by simp)) fresh
    have step : submitAll P pool (tx :: rest) = submitAll P (pool.push P tx) rest := by
      simp [submitAll, pushed]
    have listed : (pool.push P tx).pending = pool.pending ++ [tx] := rfl
    rw [step]
    obtain ⟨pending, later⟩ := ih (pool.push P tx)
      ((push_valid_iff pool tx valid).mpr fresh)
      (fun other member => spendable other (by simp [member])) (by simpa [listed] using apart)
    exact ⟨by simp [pending, listed], later⟩

namespace DecentralizedNode

variable {sign : SignMessage} {sort : List Transaction → List Transaction}

/-! ### Acknowledgements -/

/-- A transaction with an identifier is pending or in the chain. -/
def Known (P : Primitives) (node : DecentralizedNode) (id : Bytes) : Prop :=
  (∃ tx ∈ node.mempool.pending, hashTransaction P tx = id) ∨
    ∃ tx ∈ node.chain.confirmed, hashTransaction P tx = id

/-- An acknowledgement is truthful exactly when an identifier that was seen is known. -/
theorem fluffTransaction_known_iff (node : DecentralizedNode) (tx : Transaction) :
    ((node.fluffTransaction P tx).1 = .ok () →
      Known P (node.fluffTransaction P tx).2 (hashTransaction P tx)) ↔
    (validateTransaction P node.chain tx true = .ok () →
      hashTransaction P tx ∈ node.seenTxids → Known P node (hashTransaction P tx)) := by
  unfold fluffTransaction
  cases valid : validateTransaction P node.chain tx true with
  | error refusal => simp
  | ok _ =>
    by_cases seen : hashTransaction P tx ∈ node.seenTxids
    · simp [seen]
    · have submitted := submit_cases (P := P) node.mempool tx
      cases outcome : node.mempool.submit P tx with
      | mk accepted pool =>
        rw [outcome] at submitted
        cases accepted with
        | false => simp [seen]
        | true =>
          obtain ⟨_, pushed, _⟩ := submitted.resolve_left (by simp)
          have listed : pool.pending = node.mempool.pending ++ [tx] := pushed
          simp only [seen, ↓reduceIte, forall_const, false_implies, iff_true]
          exact .inl ⟨tx, by simp [listed], rfl⟩

/-! ### Failed rounds -/

/-- What a pool needs so that fetched transactions can be returned. -/
structure Orderly (P : Primitives) (pool : Mempool) : Prop where
  valid : pool.Valid P
  spendable : ∀ tx ∈ pool.pending, looksSpendable tx = true

theorem Orderly.submit (orderly : Orderly P pool) (tx : Transaction) :
    Orderly P (pool.submit P tx).2 := by
  refine ⟨submit_valid pool tx orderly.valid, fun other pending => ?_⟩
  rcases submit_cases (P := P) pool tx with ⟨_, same⟩ | ⟨_, pushed, spendable⟩
  · exact orderly.spendable other (same ▸ pending)
  · rcases List.mem_append.mp (pushed ▸ pending) with old | new
    · exact orderly.spendable other old
    · exact List.mem_singleton.mp new ▸ spendable

theorem Orderly.submitAll (orderly : Orderly P pool) (txs : List Transaction) :
    Orderly P (submitAll P pool txs) := by
  induction txs generalizing pool with
  | nil => exact orderly
  | cons tx rest ih => exact ih (orderly.submit tx)

/-- What was fetched and is valid on the tip is held or pending again, and the pool and
what is held share no keys. -/
theorem assembleRound_divides (node : DecentralizedNode) (orderly : Orderly P node.mempool)
    (library : StdSort sort) (call : MiningCall) :
    Orderly P (node.assembleRound P sign sort call).2 ∧
      ((node.assembleRound P sign sort call).2.pending ++
        (node.assembleRound P sign sort call).1.kept).Pairwise (Apart P) ∧
      (∀ tx ∈ (node.assembleRound P sign sort call).1.kept, looksSpendable tx = true) ∧
      ∀ tx ∈ validFetched P sort node.chain node.mempool call.maxTxs,
        tx ∈ (node.assembleRound P sign sort call).1.kept ∨
          tx ∈ (node.assembleRound P sign sort call).2.pending := by
  have divided := fetchForBlock_perm (P := P) sort library node.mempool call.maxTxs
  have left := fetchForBlock_valid (P := P) sort library node.mempool call.maxTxs orderly.valid
  have apart := (Represents.perm orderly.valid divided).apart
  unfold assembleRound beginRound
  dsimp only
  set rest := (node.mempool.fetchForBlock P sort call.maxTxs).2 with _
  set valid := validFetched P sort node.chain node.mempool call.maxTxs with validEq
  generalize keepCount P node.chain call.relayBudgetBytes _ _ valid = keep
  have fetched : valid.Sublist (node.mempool.fetchForBlock P sort call.maxTxs).1 :=
    List.filter_sublist
  have spendable : ∀ tx ∈ valid, looksSpendable tx = true := fun tx member =>
    orderly.spendable tx (divided.subset (List.mem_append_left _ (fetched.subset member)))
  have arranged : (rest.pending ++ valid.drop keep ++ valid.take keep).Perm (valid ++ rest.pending) := by
    have parts : (valid.drop keep ++ valid.take keep).Perm (valid.take keep ++ valid.drop keep) :=
      List.perm_append_comm
    rw [List.take_append_drop] at parts
    rw [List.append_assoc]
    exact (parts.append_left rest.pending).trans List.perm_append_comm
  have separate : (rest.pending ++ valid.drop keep ++ valid.take keep).Pairwise (Apart P) :=
    (arranged.pairwise_iff fun both => both.symm).mpr
      (apart.sublist (fetched.append_right rest.pending))
  have restSpendable : ∀ tx ∈ rest.pending, looksSpendable tx = true := fun tx member =>
    orderly.spendable tx (divided.subset (List.mem_append_right _ member))
  obtain ⟨returned, valid'⟩ := submitAll_apart (valid.drop keep) rest left
    (fun tx member => spendable tx (List.mem_of_mem_drop member))
    (List.pairwise_append.mp separate).1
  refine ⟨Orderly.submitAll ⟨left, restSpendable⟩ _, returned.symm ▸ separate,
    fun tx member => spendable tx (List.mem_of_mem_take member), fun tx member => ?_⟩
  rw [← List.take_append_drop keep valid] at member
  rcases List.mem_append.mp member with kept | deferred
  · exact .inl kept
  · exact .inr (returned.symm ▸ List.mem_append_right _ deferred)

/-- A round that fails submits what it held. -/
theorem endRound_failed (now : Time) (chain : Chain) (pool : Mempool) (round : MiningRound)
    (outcome : SearchOutcome) (refusal : String)
    (failed : (endRound P now chain pool round outcome).1 = .error refusal) :
    (endRound P now chain pool round outcome).2.2 = submitAll P pool round.kept := by
  unfold endRound at failed ⊢
  cases template : round.template with
  | error _ => rfl
  | ok block =>
    rw [template] at failed
    dsimp only at failed ⊢
    cases mined : mineBlock P now chain block outcome with
    | mk verdict reached =>
      rw [mined] at failed
      cases verdict with
      | error _ => rfl
      | ok _ => simp at failed

/-- A round that succeeds leaves the pool. -/
theorem endRound_mined (now : Time) (chain : Chain) (pool : Mempool) (round : MiningRound)
    (outcome : SearchOutcome) (mined : (endRound P now chain pool round outcome).1 = .ok ()) :
    (endRound P now chain pool round outcome).2.2 = pool := by
  unfold endRound at mined ⊢
  cases template : round.template with
  | error _ =>
    rw [template] at mined
    simp at mined
  | ok block =>
    rw [template] at mined
    dsimp only at mined ⊢
    cases added : mineBlock P now chain block outcome with
    | mk verdict reached =>
      rw [added] at mined
      cases verdict with
      | error _ => simp at mined
      | ok _ => rfl

/-- A restored list is free of nullifier conflicts. -/
def RestoresFree (P : Primitives) (_ : DecentralizedNode) : Event → Prop
  | .restorePool txs => NullifiersFree P .empty txs
  | _ => True

variable {node begun : DecentralizedNode} {fetched held : List Transaction}
  {reached : DecentralizedNode}

/-- Every event leaves an orderly pool. -/
theorem Orderly.step (orderly : Orderly P node.mempool)
    (library : StdSort sort) (event : Event) (free : RestoresFree P node event) :
    Orderly P (DecentralizedNode.step P sign sort node event).mempool := by
  cases event with
  | restorePool txs =>
    refine ⟨(restore_valid_iff txs .empty valid_empty).mpr free, fun tx pending => ?_⟩
    exact ((restore_member txs .empty tx pending).resolve_left (by simp [Mempool.empty])).2
  | fluffTransaction tx =>
    have submitted := orderly.submit tx
    show Orderly P (node.fluffTransaction P tx).2.mempool
    unfold DecentralizedNode.fluffTransaction
    split
    · exact orderly
    · split
      · exact orderly
      · split
        · rename_i outcome
          rw [outcome] at submitted
          exact submitted
        · rename_i outcome
          rw [outcome] at submitted
          exact submitted
  | ingestBlock now block =>
    have observed := (observeVotes_votesOnly (P := P) block.votes node).mempool
    show Orderly P (node.ingestBlock P sign now block).2.mempool
    unfold DecentralizedNode.ingestBlock
    dsimp only
    split
    · exact orderly
    · split
      · exact observed.symm ▸ orderly
      · rw [(refreshLocalVotes_votesOnly _).mempool]
        show Orderly P (Mempool.removeConfirmed P
          (node.observeVotes P block.votes).mempool block.transactions).2
        rw [observed]
        refine ⟨removeConfirmed_valid _ _ orderly.valid, fun tx pending => ?_⟩
        exact orderly.spendable tx (removeConfirmed_member _ _ tx pending)
  | adoptChain clock candidate =>
    show Orderly P (node.adoptChain P clock candidate).2.mempool
    unfold DecentralizedNode.adoptChain
    split
    · exact orderly
    · exact orderly
  | announceTip =>
    show Orderly P (node.announceTip P).mempool
    unfold DecentralizedNode.announceTip
    split
    · exact orderly
    · exact orderly
  | submitStakeVote vote => exact (submitStakeVote_votesOnly node vote).mempool.symm ▸ orderly
  | refreshLocalVotes => exact (refreshLocalVotes_votesOnly node).mempool.symm ▸ orderly
  | setAutoVoteKey address key => exact orderly
  | clearAutoVoteKey address => exact orderly
  | beginMining call => exact (@assembleRound_divides P sign sort node orderly library call).1
  | endMining now position outcome =>
    show Orderly P (node.endMining P now position outcome).mempool
    unfold DecentralizedNode.endMining
    split
    · exact orderly
    · rename_i round _
      show Orderly P (endRound P now node.chain node.mempool round outcome).2.2
      cases failed : (endRound P now node.chain node.mempool round outcome).1 with
      | error refusal =>
        rw [endRound_failed now node.chain node.mempool round outcome refusal failed]
        exact orderly.submitAll round.kept
      | ok _ =>
        rw [endRound_mined now node.chain node.mempool round outcome failed]
        exact orderly
  | pullOutbound => exact orderly

/-! ### Quiet searches -/

/-- What can happen during a search without harm to what was fetched: transactions apart
from those the miner holds, blocks that drop none of the fetched ones, votes, keys and
reorganizations, but no other round of mining. -/
def Quiet (P : Primitives) (fetched held : List Transaction) : Event → Prop
  | .restorePool _ => False
  | .fluffTransaction tx => ∀ other ∈ held, Apart P other tx
  | .ingestBlock _ block => ∀ tx ∈ fetched, (Confirmed.gather P block.transactions).drops P tx = false
  | .beginMining _ => False
  | .endMining _ _ _ => False
  | _ => True

/-- What a quiet search leaves of the state it began in: what was fetched and returned is
still pending, and what became pending is apart from what the miner holds. -/
structure Searching (P : Primitives) (fetched held : List Transaction)
    (begun node : DecentralizedNode) : Prop where
  rounds : node.rounds = begun.rounds
  orderly : Orderly P node.mempool
  stays : ∀ tx ∈ fetched, tx ∈ begun.mempool.pending → tx ∈ node.mempool.pending
  new : ∀ tx ∈ node.mempool.pending, tx ∈ begun.mempool.pending ∨ ∀ other ∈ held, Apart P other tx

/-- A state with the same rounds whose pool keeps what was fetched. -/
theorem Searching.later
    (searching : Searching P fetched held begun node) (rounds : reached.rounds = node.rounds)
    (orderly : Orderly P reached.mempool)
    (stays : ∀ tx ∈ fetched, tx ∈ node.mempool.pending → tx ∈ reached.mempool.pending)
    (new : ∀ tx ∈ reached.mempool.pending, tx ∈ node.mempool.pending ∨
      ∀ other ∈ held, Apart P other tx) : Searching P fetched held begun reached where
  rounds := rounds.trans searching.rounds
  orderly := orderly
  stays := fun tx member before => stays tx member (searching.stays tx member before)
  new := fun tx pending => (new tx pending).elim (searching.new tx) .inr

theorem Searching.samePool (searching : Searching P fetched held begun node)
    (rounds : reached.rounds = node.rounds) (pool : reached.mempool = node.mempool) :
    Searching P fetched held begun reached :=
  searching.later rounds (pool ▸ searching.orderly) (fun _ _ pending => pool ▸ pending)
    (fun _ pending => .inl (pool ▸ pending))

/-- What a submission by gossip leaves pending. -/
theorem fluffTransaction_pending (node : DecentralizedNode) (tx : Transaction) :
    (node.fluffTransaction P tx).2.rounds = node.rounds ∧
      ((node.fluffTransaction P tx).2.mempool.pending = node.mempool.pending ∨
        (node.fluffTransaction P tx).2.mempool.pending = node.mempool.pending ++ [tx]) := by
  have submitted := submit_cases (P := P) node.mempool tx
  unfold fluffTransaction
  split
  · exact ⟨rfl, .inl rfl⟩
  · split
    · exact ⟨rfl, .inl rfl⟩
    · split
      · rename_i outcome
        rw [outcome] at submitted
        exact ⟨rfl, .inl (submitted.resolve_right (by simp)).2⟩
      · rename_i outcome
        rw [outcome] at submitted
        exact ⟨rfl, .inr (submitted.resolve_left (by simp)).2.1⟩

/-- What a block offered by a peer leaves pending. -/
theorem ingestBlock_pending (now : Time) (node : DecentralizedNode) (block : Block) :
    (node.ingestBlock P sign now block).2.rounds = node.rounds ∧
      ((node.ingestBlock P sign now block).2.mempool = node.mempool ∨
        (node.ingestBlock P sign now block).2.mempool =
          (node.mempool.removeConfirmed P block.transactions).2) := by
  have observed := observeVotes_votesOnly (P := P) block.votes node
  unfold ingestBlock
  dsimp only
  split
  · exact ⟨rfl, .inl rfl⟩
  · split
    · exact ⟨observed.rounds, .inl observed.mempool⟩
    · refine ⟨(refreshLocalVotes_votesOnly _).rounds.trans observed.rounds, .inr ?_⟩
      rw [(refreshLocalVotes_votesOnly _).mempool]
      show (Mempool.removeConfirmed P (node.observeVotes P block.votes).mempool
        block.transactions).2 = _
      rw [observed.mempool]

/-- A search is kept through every event that does not touch what it fetched. -/
theorem Searching.step
    (searching : Searching P fetched held begun node) (library : StdSort sort) (event : Event)
    (quiet : Quiet P fetched held event) :
    Searching P fetched held begun (step P sign sort node event) := by
  cases event with
  | restorePool txs => exact absurd quiet id
  | fluffTransaction tx =>
    have orderly := @Orderly.step P sign sort _ searching.orderly library (.fluffTransaction tx) trivial
    obtain ⟨rounds, same | pushed⟩ := fluffTransaction_pending (P := P) node tx
    · exact searching.later rounds orderly (fun _ _ pending => same.symm ▸ pending)
        (fun _ pending => .inl (same ▸ pending))
    · refine searching.later rounds orderly
        (fun other _ pending => pushed.symm ▸ List.mem_append_left _ pending) (fun other pending => ?_)
      rcases List.mem_append.mp (pushed ▸ pending) with old | new
      · exact .inl old
      · exact .inr (List.mem_singleton.mp new ▸ quiet)
  | ingestBlock now block =>
    have orderly := @Orderly.step P sign sort _ searching.orderly library (.ingestBlock now block) trivial
    obtain ⟨rounds, same | swept⟩ := @ingestBlock_pending P sign now node block
    · exact searching.samePool rounds same
    · refine searching.later rounds orderly (fun tx member pending => ?_) (fun tx pending => .inl ?_)
      · exact swept.symm ▸ removeConfirmed_stays node.mempool _ tx pending (quiet tx member)
      · exact removeConfirmed_member node.mempool _ tx (swept ▸ pending)
  | adoptChain clock candidate =>
    have same : (node.adoptChain P clock candidate).2.rounds = node.rounds ∧
        (node.adoptChain P clock candidate).2.mempool = node.mempool := by
      unfold DecentralizedNode.adoptChain
      split
      · exact ⟨rfl, rfl⟩
      · exact ⟨rfl, rfl⟩
    exact searching.samePool same.1 same.2
  | announceTip =>
    have same : (node.announceTip P).rounds = node.rounds ∧
        (node.announceTip P).mempool = node.mempool := by
      unfold DecentralizedNode.announceTip
      split
      · exact ⟨rfl, rfl⟩
      · exact ⟨rfl, rfl⟩
    exact searching.samePool same.1 same.2
  | submitStakeVote vote =>
    have same := submitStakeVote_votesOnly (P := P) node vote
    exact searching.samePool same.rounds same.mempool
  | refreshLocalVotes =>
    have same := @refreshLocalVotes_votesOnly P sign node
    exact searching.samePool same.rounds same.mempool
  | setAutoVoteKey address key => exact searching.samePool rfl rfl
  | clearAutoVoteKey address => exact searching.samePool rfl rfl
  | beginMining call => exact absurd quiet id
  | endMining now position outcome => exact absurd quiet id
  | pullOutbound => exact searching.samePool rfl rfl

/-- A quiet search, event by event. -/
theorem Searching.run
    (searching : Searching P fetched held begun node) (library : StdSort sort) (events : List Event)
    (quiet : ∀ event ∈ events, Quiet P fetched held event) :
    Searching P fetched held begun (run P sign sort node events) := by
  induction events generalizing node with
  | nil => exact searching
  | cons event rest ih =>
    exact ih (searching.step library event (quiet event (by simp)))
      (fun other member => quiet other (by simp [member]))

/-- After a failed round with a quiet search, what was fetched and is valid on the tip is
pending again. -/
theorem failed_round_returns (node : DecentralizedNode) (orderly : Orderly P node.mempool)
    (library : StdSort sort) (call : MiningCall) (events : List Event)
    (quiet : ∀ event ∈ events, Quiet P (validFetched P sort node.chain node.mempool call.maxTxs)
      (node.assembleRound P sign sort call).1.kept event)
    (now : Time) (outcome : SearchOutcome) (refusal : String) (ended : DecentralizedNode)
    (search : ended = run P sign sort (node.beginMining P sign sort call) events)
    (failed : (endRound P now ended.chain ended.mempool
      (node.assembleRound P sign sort call).1 outcome).1 = .error refusal) :
    ∀ tx ∈ validFetched P sort node.chain node.mempool call.maxTxs,
      tx ∈ (ended.endMining P now node.rounds.length outcome).mempool.pending := by
  obtain ⟨begunOrderly, separate, spendable, divided⟩ :=
    @assembleRound_divides P sign sort node orderly library call
  set round := (node.assembleRound P sign sort call).1 with roundEq
  have begun : Searching P (validFetched P sort node.chain node.mempool call.maxTxs) round.kept
      (node.beginMining P sign sort call) (node.beginMining P sign sort call) :=
    ⟨rfl, begunOrderly, fun _ _ pending => pending, fun _ pending => .inl pending⟩
  have searched := @Searching.run P sign sort _ _ _ _ begun library events quiet
  rw [← search] at searched
  have position : ended.rounds[node.rounds.length]? = some round := by
    have rounds : (node.beginMining P sign sort call).rounds = node.rounds ++ [round] := by
      rw [roundEq, ← (@voteSource_votesOnly P sign node).rounds]
      rfl
    rw [searched.rounds, rounds]
    simp
  obtain ⟨inner, keptApart, cross⟩ := List.pairwise_append.mp separate
  have apart : (ended.mempool.pending ++ round.kept).Pairwise (Apart P) := by
    refine List.pairwise_append.mpr ⟨searched.orderly.valid.apart, keptApart, ?_⟩
    intro tx pending held member
    rcases searched.new tx pending with before | new
    · exact cross tx before held member
    · exact (new held member).symm
  obtain ⟨returned, _⟩ := submitAll_apart round.kept ended.mempool searched.orderly.valid spendable apart
  have final : (ended.endMining P now node.rounds.length outcome).mempool =
      submitAll P ended.mempool round.kept := by
    unfold DecentralizedNode.endMining
    rw [position]
    exact endRound_failed now ended.chain ended.mempool round outcome refusal failed
  intro tx member
  rw [final, returned]
  rcases divided tx member with held | pending
  · exact List.mem_append_right _ held
  · exact List.mem_append_left _ (searched.stays tx member pending)

/-! ### Runs -/

/-- In every state of a run an acknowledgement is truthful exactly when an identifier that
was seen is known, and a failed round of mining returns what it fetched. -/
theorem acknowledged_kept_iff (P : Primitives) (sign : SignMessage)
    (sort : List Transaction → List Transaction) (library : StdSort sort) (chain : Chain)
    (events : List Event)
    (restored : EachStep (step P sign sort) (RestoresFree P) (.new chain) events)
    (node : DecentralizedNode) (reached : node = run P sign sort (.new chain) events) :
    (∀ tx, ((node.fluffTransaction P tx).1 = .ok () →
        Known P (node.fluffTransaction P tx).2 (hashTransaction P tx)) ↔
      (validateTransaction P node.chain tx true = .ok () →
        hashTransaction P tx ∈ node.seenTxids → Known P node (hashTransaction P tx))) ∧
    ∀ (call : MiningCall) (during : List Event),
      (∀ event ∈ during, Quiet P (validFetched P sort node.chain node.mempool call.maxTxs)
        (node.assembleRound P sign sort call).1.kept event) →
      ∀ (now : Time) (outcome : SearchOutcome) (refusal : String) (ended : DecentralizedNode),
        ended = run P sign sort (node.beginMining P sign sort call) during →
        (endRound P now ended.chain ended.mempool (node.assembleRound P sign sort call).1 outcome).1 =
          .error refusal →
        ∀ tx ∈ validFetched P sort node.chain node.mempool call.maxTxs,
          tx ∈ (ended.endMining P now node.rounds.length outcome).mempool.pending := by
  have orderly : Orderly P node.mempool := by
    rw [reached]
    exact restored.carries (fun node => Orderly P node.mempool)
      (fun node event orderly free => orderly.step library event free)
      ⟨valid_empty, by simp [DecentralizedNode.new, Mempool.empty]⟩ events List.prefix_rfl
  exact ⟨fluffTransaction_known_iff node, fun call during quiet now outcome refusal ended search failed =>
    failed_round_returns node orderly library call during quiet now outcome refusal ended search failed⟩

/-! ### A transaction that was seen in an abandoned chain -/

/-- A search in which the tip is announced and messages are taken is quiet. -/
theorem quiet_pulls :
    ∀ event ∈ [Event.announceTip, .pullOutbound], Quiet P fetched held event := by
  intro event member
  rcases List.mem_cons.mp member with rfl | member
  · trivial
  · obtain rfl := List.mem_singleton.mp member
    trivial

theorem refused_of_not_isOk {α : Type} {result : Except String α} (failed : result.isOk = false) :
    ∃ refusal, result = .error refusal := by
  cases result with
  | ok value => exact Bool.noConfusion failed
  | error refusal => exact ⟨refusal, rfl⟩

/-- A node that holds a spend, and the node after the search of a round that fetched it. -/
def waitingEvents : List Event := [.ingestBlock epoch scriptFirst, .fluffTransaction scriptSpend]

/-- A node with a pending transaction. -/
def waitingNode : DecentralizedNode := run samplePrimitives noSign sampleSort freshNode waitingEvents

/-- A call that searches for a proof of work. -/
def sampleCall : MiningCall := ⟨epoch, ascii "miner", 10, 1000000⟩

/-- The node after a search without success. -/
def searchedNode : DecentralizedNode :=
  run samplePrimitives noSign sampleSort
    (waitingNode.beginMining samplePrimitives noSign sampleSort sampleCall) [.announceTip, .pullOutbound]

set_option maxRecDepth 100000 in
theorem searchedNode_evaluated :
    (waitingNode.mempool.pending = [scriptSpend] ∧ searchedNode.mempool.pending = []) ∧
      scriptSpend ∈ validFetched samplePrimitives sampleSort waitingNode.chain waitingNode.mempool
        sampleCall.maxTxs ∧
      (endRound samplePrimitives epoch searchedNode.chain searchedNode.mempool
        (waitingNode.assembleRound samplePrimitives noSign sampleSort sampleCall).1 .deadlineHit).1.isOk =
          false := by
  decide +kernel

set_option maxRecDepth 100000 in
/-- The spend that a fresh node was offered after its coinbase is pending, and it is pending again after
a round of mining that fetched it and did not end in time. -/
theorem pending_spend_known :
    Known samplePrimitives (step samplePrimitives noSign sampleSort
      (run samplePrimitives noSign sampleSort freshNode [.ingestBlock epoch scriptFirst])
      (.fluffTransaction scriptSpend)) (hashTransaction samplePrimitives scriptSpend) ∧
    (waitingNode.mempool.pending = [scriptSpend] ∧ searchedNode.mempool.pending = []) ∧
    scriptSpend ∈ (searchedNode.endMining samplePrimitives epoch waitingNode.rounds.length
      .deadlineHit).mempool.pending := by
  obtain ⟨pending, fetched, failed⟩ := searchedNode_evaluated
  refine ⟨?_, pending, ?_⟩
  · refine ((acknowledged_kept_iff samplePrimitives noSign sampleSort sampleSort_std
      (Chain.new samplePrimitives regtestChainConfig) [.ingestBlock epoch scriptFirst]
      ⟨trivial, trivial⟩ _ rfl).1 scriptSpend).mpr ?_ ?_
    · intro _ seen
      have none : (run samplePrimitives noSign sampleSort freshNode
          [.ingestBlock epoch scriptFirst]).seenTxids = ∅ := rfl
      exact absurd (none ▸ seen) (Finset.notMem_empty _)
    · rfl
  · obtain ⟨refusal, outcome⟩ := refused_of_not_isOk failed
    have reached : waitingNode = run samplePrimitives noSign sampleSort
        (.new (Chain.new samplePrimitives regtestChainConfig)) waitingEvents := by
      rw [waitingNode, freshNode]
    have searched : searchedNode = run samplePrimitives noSign sampleSort
        (waitingNode.beginMining samplePrimitives noSign sampleSort sampleCall)
        [.announceTip, .pullOutbound] := by
      rw [searchedNode]
    have kept := acknowledged_kept_iff samplePrimitives noSign sampleSort sampleSort_std
      (Chain.new samplePrimitives regtestChainConfig) waitingEvents ⟨trivial, trivial, trivial⟩ waitingNode
      reached
    exact kept.2 sampleCall [.announceTip, .pullOutbound] quiet_pulls epoch .deadlineHit refusal
      searchedNode searched outcome scriptSpend fetched

/-- Two blocks on the coinbase to the script, without the spend. -/
def plainSecond : Block := blockOn samplePrimitives scriptTip [coinbaseOf [⟨ascii "miner", 50⟩] 1]

/-- The state after two blocks without the spend. -/
def plainTip : Chain := stateAfter samplePrimitives scriptTip plainSecond

/-- A third block on it. -/
def plainThird : Block := blockOn samplePrimitives plainTip [coinbaseOf [⟨ascii "miner", 50⟩] 2]

/-- A longer chain without the spend. -/
def plainCandidate : List Block :=
  [makeGenesis samplePrimitives regtestChainConfig kRegtestMinDifficultyTarget, scriptFirst,
    plainSecond, plainThird]

/-- A chain with the spend is adopted and abandoned. -/
def spendAbandoned : List Event :=
  [.ingestBlock epoch scriptFirst, .adoptChain (fun _ => epoch) spentCandidate,
    .adoptChain (fun _ => epoch) plainCandidate]

/-- The node after that. -/
def abandonedNode : DecentralizedNode :=
  run samplePrimitives noSign sampleSort freshNode spendAbandoned

set_option maxRecDepth 100000 in
theorem abandonedNode_acknowledges :
    (abandonedNode.fluffTransaction samplePrimitives scriptSpend).1 = .ok () ∧
    (abandonedNode.fluffTransaction samplePrimitives scriptSpend).2.mempool.pending = [] ∧
    (abandonedNode.fluffTransaction samplePrimitives scriptSpend).2.chain.confirmed =
      [scriptCoinbase, coinbaseOf [⟨ascii "miner", 50⟩] 1, coinbaseOf [⟨ascii "miner", 50⟩] 2] := by
  refine ⟨?_, ?_, ?_⟩
  · rfl
  · rfl
  · rfl

/-- An acknowledged transaction can be neither pending nor in the chain. -/
theorem abandoned_spend_dropped :
    ¬ ∀ (P : Primitives) (sign : SignMessage) (sort : List Transaction → List Transaction)
        (cfg : ChainConfig) (chain : Chain) (events : List Event) (tx : Transaction),
      StdSort sort → Reachable P cfg chain →
      ((run P sign sort (.new chain) events).fluffTransaction P tx).1 = .ok () →
      Known P ((run P sign sort (.new chain) events).fluffTransaction P tx).2
        (hashTransaction P tx) := by
  intro always
  obtain ⟨acknowledged, pending, confirmed⟩ := abandonedNode_acknowledges
  have known : Known samplePrimitives (abandonedNode.fluffTransaction samplePrimitives scriptSpend).2
      (hashTransaction samplePrimitives scriptSpend) :=
    always samplePrimitives noSign sampleSort regtestChainConfig
      (Chain.new samplePrimitives regtestChainConfig) spendAbandoned scriptSpend sampleSort_std .new
      acknowledged
  unfold Known at known
  rw [pending, confirmed] at known
  rcases known with ⟨tx, member, _⟩ | listed
  · simp at member
  · revert listed
    decide +kernel

end DecentralizedNode

end Addition
