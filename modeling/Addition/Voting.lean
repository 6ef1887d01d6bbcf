import Addition.Blocks

/-!
# Votes on the tip

What `chain.cpp` offers the node and the miner about the next block: the tickets
drawn to vote on the tip, the test of a single vote, the votes a block can carry,
and whether the block needs a quorum.
-/

namespace Addition

open ByteStrings Checked FiniteTables

variable (P : Primitives)

/-- `Chain::block_at`. -/
def Chain.blockAt (chain : Chain) (height : UInt64) : Option Block := chain.blocks[height.toNat]?

/-- `Chain::eligible_tickets_for_next_block`. -/
def Chain.eligibleTicketsForNextBlock (chain : Chain) : List StakeTicket :=
  chain.eligibleTicketsAt chain.height

/-- `Chain::selected_tickets_for_next_block`. -/
def selectedTicketsForNextBlock (chain : Chain) : List Bytes :=
  if !chain.stakingActiveAt (chain.height + 1) then []
  else selectTickets P chain.eligibleTicketsForNextBlock (hashBlockHeader P chain.tip.header)
    chain.cfg.stakeVotesPerBlock

/-- `Chain::stake_votes_required_for_next_block`. -/
def Chain.stakeVotesRequiredForNextBlock (chain : Chain) : Bool :=
  chain.stakingActiveAt (chain.height + 1) &&
    decide (chain.cfg.stakeMinLiveTickets.toNat ≤ chain.eligibleTicketsForNextBlock.length)

/-- `Chain::verify_vote_signature_only`. -/
def verifyVoteSignatureOnly (chain : Chain) (vote : StakeVote) : Except String Unit :=
  match chain.tickets.lookup vote.ticketId with
  | none => .error "unknown ticket"
  | some ticket =>
    ensure (voteSignatureOk P (chain.ticketWithKey ticket) chain.cfg.networkId vote)
      "invalid vote signature"

/-- `Chain::verify_stake_vote`. -/
def verifyStakeVote (chain : Chain) (vote : StakeVote) : Except String Unit := do
  ensure (decide (vote.votedHeight = chain.height ∧
    vote.votedHash = hashBlockHeader P chain.tip.header)) "vote is not on the current tip"
  ensure (decide (vote.ticketId ∈ selectedTicketsForNextBlock P chain))
    "ticket not selected for this block"
  verifyVoteSignatureOnly P chain vote

/-- The loop of `Chain::usable_votes_for_next_block`. The bound is tested after a
vote is taken. -/
def usableVotes (chain : Chain) : Finset Bytes → List StakeVote → List StakeVote → List StakeVote
  | _, out, [] => out
  | used, out, vote :: rest =>
    if !vote.approve || decide (vote.ticketId ∈ used) || !(verifyStakeVote P chain vote).isOk then
      usableVotes chain used out rest
    else if chain.cfg.stakeVotesPerBlock.toNat ≤ (out ++ [vote]).length then out ++ [vote]
    else usableVotes chain (insert vote.ticketId used) (out ++ [vote]) rest

/-- `Chain::usable_votes_for_next_block`. -/
def usableVotesForNextBlock (chain : Chain) (pool : List StakeVote) : List StakeVote :=
  usableVotes P chain ∅ [] pool

/-- `Chain::mine_deadline_seconds`, zero for a search without a deadline. -/
def mineDeadlineSeconds (cfg : ChainConfig) : Nat :=
  if cfg.networkMode = ascii "mainnet" ∨ cfg.networkId = kMainnetNetworkId then 0 else 30

variable {P}

end Addition
