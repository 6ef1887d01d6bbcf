import Addition.History
import Addition.Miner

/-!
# The node

The state of `decentralized_node.cpp` that stands between the chain and the pending
pool: what was seen, the votes on the tip, the votes watched for equivocation, and
the evidence that waits to be mined. The operations are those that gossip, the
synchronisation, the miner and the RPC server call, each under the state lock; the
lock is dropped while a miner searches, so a round begins and ends in two events.

Messages to peers are kept as what they carry. The record of what happened is not in
the source: no operation reads it.
-/

namespace Addition

open ByteStrings Checked FiniteTables

/-- A message that waits to be pushed to the peers. -/
inductive Gossip where
  | tx (tx : Transaction)
  | block (block : Block)
  | stakeVote (vote : StakeVote)
deriving DecidableEq

/-- `DecentralizedNode::AutoVoteKey`. -/
structure AutoVoteKey where
  publicKey : Bytes
  privateKey : Bytes
deriving DecidableEq

/-- What happened in a run: the votes that were observed and verified, the votes that
were signed, and the evidence that was dropped. -/
structure Record where
  observed : List StakeVote
  signings : List StakeVote
  dropped : List SlashEvidence

/-- The part of a node that blocks and transactions reach. -/
structure DecentralizedNode where
  chain : Chain
  mempool : Mempool
  seenTxids : Finset Bytes
  seenBlockHashes : Finset Bytes
  outbound : List Gossip
  votePool : List StakeVote
  voteWatch : Table Bytes StakeVote
  pendingSlashes : List SlashEvidence
  slashReported : Finset Bytes
  seenStakeVotes : Finset Bytes
  autoVoteKeys : Table Bytes AutoVoteKey
  rounds : List MiningRound
  record : Record

/-- A node that was just constructed, over a chain and an empty pool. -/
def DecentralizedNode.new (chain : Chain) : DecentralizedNode where
  chain := chain
  mempool := .empty
  seenTxids := ∅
  seenBlockHashes := ∅
  outbound := []
  votePool := []
  voteWatch := ∅
  pendingSlashes := []
  slashReported := ∅
  seenStakeVotes := ∅
  autoVoteKeys := ∅
  rounds := []
  record := ⟨[], [], []⟩

namespace DecentralizedNode

variable (P : Primitives)

/-! ### Votes -/

/-- The key of `vote_watch_`. -/
def watchKey (ticketId : Bytes) (votedHeight : UInt64) : Bytes :=
  ticketId ++ ascii "|" ++ decimal votedHeight.toNat

/-- The key of `seen_stake_votes_`. -/
def seenVoteKey (vote : StakeVote) : Bytes :=
  watchKey vote.ticketId vote.votedHeight ++ ascii "|" ++ vote.votedHash ++ ascii "|" ++
    ascii (if vote.approve then "1" else "0")

/-- Two votes of one ticket and height say the same. -/
def Agree (first second : StakeVote) : Prop :=
  first.votedHash = second.votedHash ∧ first.approve = second.approve

instance (first second : StakeVote) : Decidable (Agree first second) :=
  inferInstanceAs (Decidable (_ ∧ _))

/-- The evidence whose ticket is in the chain. -/
def liveSlash (chain : Chain) (slash : SlashEvidence) : Bool :=
  (chain.tickets.lookup slash.a.ticketId).isSome

/-- `DecentralizedNode::prune_vote_pool`. -/
def pruneVotePool (node : DecentralizedNode) : DecentralizedNode :=
  { node with
    votePool := node.votePool.filter (fun vote => decide (node.chain.height ≤ vote.votedHeight))
    seenStakeVotes := if 100000 < node.seenStakeVotes.card then ∅ else node.seenStakeVotes
    pendingSlashes := node.pendingSlashes.filter (liveSlash node.chain)
    record := { node.record with
      dropped := node.record.dropped ++
        node.pendingSlashes.filter (fun slash => !liveSlash node.chain slash) } }

/-- `DecentralizedNode::observe_vote_for_equivocation`. -/
def observeVoteForEquivocation (node : DecentralizedNode) (vote : StakeVote) :
    Bool × DecentralizedNode :=
  match verifyVoteSignatureOnly P node.chain vote with
  | .error _ => (false, node)
  | .ok _ =>
    let key := watchKey vote.ticketId vote.votedHeight
    let node := { node with
      record := { node.record with observed := node.record.observed ++ [vote] } }
    match node.voteWatch.lookup key with
    | none =>
      let watch := if 200000 < node.voteWatch.entries.length then ∅ else node.voteWatch
      (false, { node with voteWatch := watch.insert key vote })
    | some first =>
      if Agree first vote then (false, node)
      else if vote.ticketId ∈ node.slashReported then (true, node)
      else
        match validateSlash P node.chain ⟨first, vote⟩ with
        | .error _ => (false, node)
        | .ok _ =>
          (true, { node with
            slashReported := insert vote.ticketId node.slashReported
            pendingSlashes := node.pendingSlashes ++ [⟨first, vote⟩]
            outbound := node.outbound ++ [.stakeVote vote, .stakeVote first] })

/-- `DecentralizedNode::usable_slash_evidence`. -/
def usableSlashEvidence (node : DecentralizedNode) : List SlashEvidence :=
  node.pendingSlashes.filter (fun slash => (validateSlash P node.chain slash).isOk)

/-- `DecentralizedNode::submit_stake_vote`. -/
def submitStakeVote (node : DecentralizedNode) (vote : StakeVote) :
    Except String Unit × DecentralizedNode :=
  match observeVoteForEquivocation P node.pruneVotePool vote with
  | (true, node) => (.error "duplicate stake vote (equivocation recorded)", node)
  | (false, node) =>
    if vote.votedHeight ≠ node.chain.height then (.error "stale stake vote", node)
    else if seenVoteKey vote ∈ node.seenStakeVotes then (.error "duplicate stake vote", node)
    else
      match verifyStakeVote P node.chain vote with
      | .error refusal => (.error refusal, node)
      | .ok _ =>
        if vote.ticketId ∉ selectedTicketsForNextBlock P node.chain then
          (.error "ticket not selected for this block", node)
        else
          (.ok (), { node with
            seenStakeVotes := insert (seenVoteKey vote) node.seenStakeVotes
            votePool := node.votePool ++ [vote]
            outbound := node.outbound ++ [.stakeVote vote] })

/-- `DecentralizedNode::usable_stake_votes`. -/
def usableStakeVotes (node : DecentralizedNode) : List StakeVote :=
  usableVotesForNextBlock P node.chain node.votePool

/-- `sign_message_hybrid`: nothing when it throws. -/
abbrev SignMessage := Bytes → Bytes → Option Bytes

variable (sign : SignMessage)

/-- The key that votes for a ticket. -/
def votingKey (node : DecentralizedNode) (ticket : StakeTicket) : Option AutoVoteKey :=
  (node.autoVoteKeys.lookup ticket.owner).filter
    (fun key => decide (key.publicKey = ticket.ownerPubkey))

/-- The vote of a ticket at a height that is in the pool. -/
def pooledVote (node : DecentralizedNode) (id : Bytes) (height : UInt64) : Option StakeVote :=
  node.votePool.find? (fun vote => decide (vote.ticketId = id ∧ vote.votedHeight = height))

/-- A vote that was just signed. -/
def recordSigning (node : DecentralizedNode) (vote : StakeVote) : DecentralizedNode :=
  { node with
    record := { node.record with signings := node.record.signings ++ [vote] } }

/-- One round of the loop of `DecentralizedNode::refresh_local_votes`, with the number of
votes cast so far. A vote that is in the pool is announced again. -/
def refreshVote (tip : UInt64) (tipHash : Bytes) (state : Nat × DecentralizedNode) (id : Bytes) :
    Nat × DecentralizedNode :=
  let node := state.2
  match (node.chain.tickets.lookup id).bind node.votingKey with
  | none => state
  | some key =>
    match node.pooledVote id tip with
    | some known =>
      if known.votedHash = tipHash ∧ Gossip.stakeVote known ∉ node.outbound then
        (state.1, { node with outbound := node.outbound ++ [.stakeVote known] })
      else state
    | none =>
      match sign key.privateKey
          (stakeVoteMessage node.chain.cfg.networkId tip tipHash id true) with
      | none => state
      | some signature =>
        let vote : StakeVote := ⟨id, tip, tipHash, true, signature⟩
        match submitStakeVote P (node.recordSigning vote) vote with
        | (.error _, reached) => (state.1, reached)
        | (.ok _, reached) => (state.1 + 1, reached)

/-- `DecentralizedNode::refresh_local_votes`. -/
def refreshLocalVotes (node : DecentralizedNode) : Nat × DecentralizedNode :=
  if node.autoVoteKeys.entries.isEmpty || !node.chain.stakingActiveAt (node.chain.height + 1) then
    (0, node)
  else
    match node.chain.blockAt node.chain.height with
    | none => (0, node)
    | some block =>
      (selectedTicketsForNextBlock P node.chain).foldl
        (refreshVote P sign node.chain.height (hashBlockHeader P block.header)) (0, node)

/-! ### Transactions and blocks -/

/-- `DecentralizedNode::fluff_transaction`. The identifier of a refused transaction is
forgotten again. -/
def fluffTransaction (node : DecentralizedNode) (tx : Transaction) :
    Except String Unit × DecentralizedNode :=
  match validateTransaction P node.chain tx true with
  | .error refusal => (.error refusal, node)
  | .ok _ =>
    if hashTransaction P tx ∈ node.seenTxids then (.ok (), node)
    else
      match node.mempool.submit P tx with
      | (false, pool) => (.error "duplicate mempool tx", { node with mempool := pool })
      | (true, pool) =>
        (.ok (), { node with
          seenTxids := insert (hashTransaction P tx) node.seenTxids
          mempool := pool
          outbound := node.outbound ++ [.tx tx] })

/-- The votes of a block, observed in order. -/
def observeVotes (node : DecentralizedNode) (votes : List StakeVote) : DecentralizedNode :=
  votes.foldl (fun node vote => (observeVoteForEquivocation P node vote).2) node

/-- `DecentralizedNode::ingest_block`. The vote of the consensus engine is left out. -/
def ingestBlock (now : Time) (node : DecentralizedNode) (block : Block) :
    Except String Unit × DecentralizedNode :=
  let hash := hashBlockHeader P block.header
  if hash ∈ node.seenBlockHashes then (.ok (), node)
  else
    let node := node.observeVotes P block.votes
    match addBlock P now node.chain block with
    | (.error refusal, reached) => (.error refusal, { node with chain := reached })
    | (.ok _, reached) =>
      let extended := { node with
        chain := reached
        seenBlockHashes := insert hash node.seenBlockHashes
        mempool := (node.mempool.removeConfirmed P block.transactions).2
        outbound := node.outbound ++ [Gossip.block block] }
      (.ok (), (extended.refreshLocalVotes P sign).2)

/-- The identifiers of the transactions of blocks. -/
def blockTxids (blocks : List Block) : Finset Bytes :=
  ((blocks.flatMap Block.transactions).map (hashTransaction P)).toFinset

/-- The end of `DecentralizedNode::fetch_blocks_from_peer` when a fork was found and the
peer's whole chain was fetched. -/
def adoptChain (clock : Nat → Time) (node : DecentralizedNode) (candidate : List Block) :
    Except String Unit × DecentralizedNode :=
  match replaceWithChain P clock node.chain candidate with
  | (.error refusal, reached) => (.error refusal, { node with chain := reached })
  | (.ok _, reached) =>
    (.ok (), { node with
      chain := reached
      seenBlockHashes := node.seenBlockHashes ∪
        (candidate.map (fun block => hashBlockHeader P block.header)).toFinset
      seenTxids := node.seenTxids ∪ blockTxids P candidate })

/-- `DecentralizedNode::announce_tip`. -/
def announceTip (node : DecentralizedNode) : DecentralizedNode :=
  if node.chain.height = 0 then node
  else
    let tip := node.chain.tip
    { node with
      seenBlockHashes := insert (hashBlockHeader P tip.header) node.seenBlockHashes
      seenTxids := node.seenTxids ∪ blockTxids P [tip]
      outbound := node.outbound ++ [Gossip.block tip] }

/-! ### Mining -/

variable (sort : List Transaction → List Transaction)

/-- What a call of `Miner::mine_next_block` is given. -/
structure MiningCall where
  now : Time
  rewardAddress : Bytes
  maxTxs : Nat
  relayBudgetBytes : Nat

/-- The sources of the miner, set by the RPC server: the node votes and hands over its
votes and evidence. They are asked only when the next block can carry votes. -/
def voteSource (node : DecentralizedNode) : DecentralizedNode :=
  if node.chain.stakingActiveAt (node.chain.height + 1) then (node.refreshLocalVotes P sign).2
  else node

/-- What a call of the miner assembles, with the pool it leaves. -/
def assembleRound (node : DecentralizedNode) (call : MiningCall) : MiningRound × Mempool :=
  let asked := node.voteSource P sign
  let active := node.chain.stakingActiveAt (node.chain.height + 1)
  let votes := if active then asked.usableStakeVotes P else []
  let slashes := if active then asked.usableSlashEvidence P else []
  beginRound P sort call.now node.chain node.mempool call.rewardAddress call.maxTxs
    call.relayBudgetBytes votes slashes

/-- A round of mining begins. -/
def beginMining (node : DecentralizedNode) (call : MiningCall) : DecentralizedNode :=
  let asked := node.voteSource P sign
  let assembled := node.assembleRound P sign sort call
  { asked with mempool := assembled.2, rounds := asked.rounds ++ [assembled.1] }

/-- A round of mining ends. -/
def endMining (now : Time) (node : DecentralizedNode) (position : Nat) (outcome : SearchOutcome) :
    DecentralizedNode :=
  match node.rounds[position]? with
  | none => node
  | some round =>
    let (_, chain, pool) := endRound P now node.chain node.mempool round outcome
    { node with chain := chain, mempool := pool, rounds := node.rounds.eraseIdx position }

/-! ### Runs -/

/-- What can happen to a node. -/
inductive Event where
  | restorePool (txs : List Transaction)
  | fluffTransaction (tx : Transaction)
  | ingestBlock (now : Time) (block : Block)
  | adoptChain (clock : Nat → Time) (candidate : List Block)
  | announceTip
  | submitStakeVote (vote : StakeVote)
  | refreshLocalVotes
  | setAutoVoteKey (address : Bytes) (key : AutoVoteKey)
  | clearAutoVoteKey (address : Bytes)
  | beginMining (call : MiningCall)
  | endMining (now : Time) (position : Nat) (outcome : SearchOutcome)
  | pullOutbound

/-- One event. -/
def step (node : DecentralizedNode) : Event → DecentralizedNode
  | .restorePool txs => { node with mempool := txs.foldl (Mempool.restoreNext P) .empty }
  | .fluffTransaction tx => (node.fluffTransaction P tx).2
  | .ingestBlock now block => (node.ingestBlock P sign now block).2
  | .adoptChain clock candidate => (node.adoptChain P clock candidate).2
  | .announceTip => node.announceTip P
  | .submitStakeVote vote => (node.submitStakeVote P vote).2
  | .refreshLocalVotes => (node.refreshLocalVotes P sign).2
  | .setAutoVoteKey address key =>
    { node with autoVoteKeys := node.autoVoteKeys.insert address key }
  | .clearAutoVoteKey address => { node with autoVoteKeys := node.autoVoteKeys.erase address }
  | .beginMining call => node.beginMining P sign sort call
  | .endMining now position outcome => node.endMining P now position outcome
  | .pullOutbound => { node with outbound := [] }

/-- A run of a node. -/
def run (node : DecentralizedNode) (events : List Event) : DecentralizedNode :=
  events.foldl (step P sign sort) node

end DecentralizedNode

end Addition
