import Addition.CoinbaseBlocks
import Addition.Mempool
import Addition.Voting

/-!
# Assembling a block

`miner.cpp` with the templates of `chain.cpp`. A round takes transactions from the
pool, keeps the ones that are valid on the tip and fit, returns the rest to the
pool, and builds a template; the search then either finds a nonce, and the block is
added to the chain, or ends without one, and what was kept is returned.

The search itself is its outcome. Counters of the last round are left out.
-/

namespace Addition

open ByteStrings Checked FiniteTables

variable (P : Primitives)

/-- `kBlockWireOverheadBytes`. -/
def kBlockWireOverheadBytes : Nat := 8192

/-- `tx_wire_bytes`. -/
def txWireBytes (tx : Transaction) : Nat := (Wire.txWeight P tx * 4 + 2) / 3 + 1

/-! ### Templates -/

/-- `Chain::make_block_template`. -/
def makeBlockTemplate (now : Time) (chain : Chain) (rewardAddress : Bytes) (txs : List Transaction)
    (reward : UInt64) : Block :=
  let height := chain.height + 1
  let coinbase := coinbaseOf (if reward > 0 then [⟨rewardAddress, reward⟩] else []) height
  let header : BlockHeader :=
    { height := height
      previousHash := hashBlockHeader P chain.tip.header
      timestamp := now.val
      nonce := 0
      difficultyTarget := chain.difficultyTarget
      merkleRoot := [] }
  let block : Block := ⟨header, coinbase :: txs, [], []⟩
  { block with header := { header with merkleRoot := computeBlockCommitment P block } }

/-- More outputs for the coinbase of a block. -/
def Block.payAlso (block : Block) (outputs : List TxOutput) : Block :=
  match block.transactions with
  | [] => block
  | coinbase :: others =>
    { block with transactions := { coinbase with outputs := coinbase.outputs ++ outputs } :: others }

/-- The owners of the tickets that approve, in vote order. -/
def approvingOwners (chain : Chain) : List StakeVote → Except String (List Bytes)
  | [] => .ok []
  | vote :: rest =>
    match chain.tickets.lookup vote.ticketId with
    | none => .error "vote for unknown ticket"
    | some ticket => do
      let later ← approvingOwners chain rest
      pure (ticket.owner :: later)

/-- The owners that are paid, none when a vote earns nothing. -/
def paidOwners (chain : Chain) (perVote : UInt64) (approvals : List StakeVote) :
    Except String (List Bytes) :=
  if perVote > 0 then approvingOwners chain approvals else .ok []

/-- `Chain::mine_and_add_block_with_votes` before the search. -/
def templateWithVotes (now : Time) (chain : Chain) (rewardAddress : Bytes) (txs : List Transaction)
    (votes : List StakeVote) (slashes : List SlashEvidence) : Except String Block := do
  let height := chain.height + 1
  let active := chain.stakingActiveAt height
  let votes := if active then votes else []
  let slashes := if active then slashes else []
  let fees := txs.foldl (fun sum tx => sum + tx.fee) 0
  let pot := chain.maxMintableAt height + fees
  let approvals := votes.filter StakeVote.approve
  ensure (!(chain.stakeVotesRequiredForNextBlock &&
      decide (approvals.length < chain.cfg.stakeVoteQuorum.toNat)))
    ("insufficient stake votes (" ++ toString approvals.length ++ "/" ++
      toString chain.cfg.stakeVoteQuorum.toNat ++ ")")
  let perVote := stakeRewardPerVote pot chain.cfg.stakeRewardBps approvals.length
  let stakersTotal := perVote * approvals.length.toUInt64
  let block := makeBlockTemplate P now chain rewardAddress txs (pot - stakersTotal)
  let owners ← paidOwners chain perVote approvals
  let block := block.payAlso (owners.map (fun owner => ⟨owner, perVote⟩))
  let block := { block with votes := votes, slashes := slashes }
  pure { block with
    header := { block.header with merkleRoot := computeBlockCommitment P block } }

/-! ### The search -/

/-- How `search_block_pow` ends. -/
inductive SearchOutcome where
  | found (nonce : UInt64)
  | stopped
  | deadlineHit
  | exhausted
deriving DecidableEq

/-- A block with the nonce that the search found. -/
def Block.withNonce (block : Block) (nonce : UInt64) : Block :=
  { block with header := { block.header with nonce := nonce } }

/-- `Chain::mine_block` after the search. -/
def mineBlock (now : Time) (chain : Chain) (block : Block) : SearchOutcome → Except String Unit × Chain
  | .found nonce => addBlock P now chain (block.withNonce nonce)
  | .stopped => (.error "mining stopped", chain)
  | .deadlineHit =>
    if mineDeadlineSeconds chain.cfg = 30 then
      (.error "mining deadline exceeded (30s); testnet uses sha3_512 header PoW", chain)
    else (.error ("mining deadline exceeded (" ++ toString (mineDeadlineSeconds chain.cfg) ++ "s)"),
      chain)
  | .exhausted => (.error "mining search exhausted", chain)

/-! ### A round -/

/-- The loop that counts the transactions within the relay budget and the weight
cap. -/
def fitting (budget weightCap : Nat) : Nat → Nat → List Transaction → Nat
  | _, _, [] => 0
  | used, weight, tx :: rest =>
    if budget < used + txWireBytes P tx ∨ weightCap < weight + Wire.txWeight P tx then 0
    else fitting budget weightCap (used + txWireBytes P tx) (weight + Wire.txWeight P tx) rest + 1

/-- How many of the valid transactions `Miner::mine_next_block` keeps. -/
def keepCount (chain : Chain) (relayBudgetBytes : Nat) (votes : List StakeVote)
    (slashes : List SlashEvidence) (valid : List Transaction) : Nat :=
  let voteReserve := Wire.stakeExtensionWeight { (default : Block) with
    votes := votes, slashes := slashes }
  fitting P (relayBudgetBytes - kBlockWireOverheadBytes) chain.cfg.maxBlockWeight.toNat
    (2048 + (voteReserve * 4 + 2) / 3) (4096 + voteReserve) valid

/-- Transactions handed to the pool one after another, whatever it answers. -/
def submitAll (pool : Mempool) (txs : List Transaction) : Mempool :=
  txs.foldl (fun pool tx => (pool.submit P tx).2) pool

/-- What `Miner::mine_next_block` holds while it searches. -/
structure MiningRound where
  kept : List Transaction
  template : Except String Block

/-- The fetched transactions that are valid on the tip. -/
def validFetched (sort : List Transaction → List Transaction) (chain : Chain) (pool : Mempool)
    (maxTxs : Nat) : List Transaction :=
  (pool.fetchForBlock P sort maxTxs).1.filter
    (fun tx => (validateTransaction P chain tx true).isOk)

/-- `Miner::mine_next_block` up to the search, with the votes and the evidence that its
sources gave. -/
def beginRound (sort : List Transaction → List Transaction) (now : Time) (chain : Chain)
    (pool : Mempool) (rewardAddress : Bytes) (maxTxs relayBudgetBytes : Nat)
    (votes : List StakeVote) (slashes : List SlashEvidence) : MiningRound × Mempool :=
  let valid := validFetched P sort chain pool maxTxs
  let keep := keepCount P chain relayBudgetBytes votes slashes valid
  (⟨valid.take keep,
    templateWithVotes P now chain rewardAddress (valid.take keep) votes slashes⟩,
    submitAll P (pool.fetchForBlock P sort maxTxs).2 (valid.drop keep))

/-- `Miner::mine_next_block` from the search on. -/
def endRound (now : Time) (chain : Chain) (pool : Mempool) (round : MiningRound)
    (outcome : SearchOutcome) : Except String Unit × (Chain × Mempool) :=
  match round.template with
  | .error refusal => (.error refusal, (chain, submitAll P pool round.kept))
  | .ok block =>
    match mineBlock P now chain block outcome with
    | (.error refusal, reached) => (.error refusal, (reached, submitAll P pool round.kept))
    | (.ok _, reached) => (.ok (), (reached, pool))

end Addition
