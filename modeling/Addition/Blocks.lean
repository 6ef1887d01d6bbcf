import Addition.Chain

/-!
# Block validation and application

`add_block` and `replace_with_chain` of `chain.cpp`. A block is first validated
against the unchanged state: header, values on a copy of the outputs and of the
index, shielded bundles, signatures in one batch, votes and slashes. It is then
applied transaction by transaction, where each transaction is validated again
without signatures. A refusal during application restores the copied members;
the refusals after it return without restoring anything.

The parallel signature check is modelled by its verdict. When several signatures
fail, the position in the message is the first one, where the threads of the
source may report any.
-/

namespace Addition

open ByteStrings Checked FiniteTables

variable (P : Primitives)

/-- A reading of the system clock: a nonnegative `time_t`. -/
abbrev Time := {seconds : UInt64 // seconds.toNat < 2 ^ 63}

/-! ### Headers -/

/-- The future-time limit of `Chain::validate_block_header`. -/
def futureTimeLimit (cfg : ChainConfig) : UInt64 :=
  kFutureTimeLimitBlocks * max 1 cfg.targetBlockTimeSec.toUInt64

/-- `Chain::validate_block_header`. -/
def validateBlockHeader (now : Time) (chain : Chain) (candidate : Block) : Except String Unit := do
  let header := candidate.header
  let tip := chain.tip.header
  ensure (decide (header.height = tip.height + 1)) "invalid height"
  ensure (decide (header.previousHash = hashBlockHeader P tip)) "invalid previous hash"
  ensure (decide (header.merkleRoot = computeBlockCommitment P candidate)) "invalid merkle root"
  ensure (decide (tip.timestamp ≤ header.timestamp)) "timestamp regression"
  ensure (!(decide (chain.cfg.difficultyForkHeight ≤ header.height) &&
    decide (header.timestamp > now.val + futureTimeLimit chain.cfg))) "timestamp too far in future"
  ensure (decide (header.difficultyTarget ≤ chain.cfg.maxDifficultyTarget))
    "min-diff: toy difficulty rejected"
  ensure (decide (chain.cfg.minDifficultyTarget ≤ header.difficultyTarget))
    "invalid difficulty target (below min-diff floor)"
  ensure (decide (header.difficultyTarget = chain.difficultyTarget)) "invalid difficulty target"
  ensure (hashMeetsTarget P chain.cfg (hashBlockHeader P header) header.difficultyTarget)
    "invalid proof of work"

/-! ### Values on a copy -/

/-- `snapshot_utxo` and `snapshot_index`. -/
structure Snapshot where
  utxoSet : Table Bytes Utxo
  addressIndex : Table Bytes UInt64

/-- The inputs of one transaction on the copy, with their total. -/
def snapshotInputs (height : UInt64) : Snapshot → UInt64 → List TxInput →
    Except String (Snapshot × UInt64)
  | snapshot, total, [] => .ok (snapshot, total)
  | snapshot, total, input :: rest =>
    match unspentAt snapshot.utxoSet input.key with
    | none => .error "invalid or spent input in block"
    | some utxo => do
      ensure (decide (utxo.spendableHeight ≤ height)) "input still unbonding"
      let next ← addOr "inputs overflow" total utxo.amount
      snapshotInputs height
        ⟨snapshot.utxoSet.insert input.key { utxo with spent := true },
          debit snapshot.addressIndex utxo.owner utxo.amount⟩ next rest

/-- The outputs of one transaction on the copy. -/
def snapshotOutputs (height : UInt64) (txid : Bytes) : Snapshot → List (TxOutput × Nat) →
    Except String Snapshot
  | snapshot, [] => .ok snapshot
  | snapshot, (output, position) :: rest => do
    let balance ← addOr "balance index overflow"
      (balanceIn snapshot.addressIndex output.recipient) output.amount
    snapshotOutputs height txid
      ⟨snapshot.utxoSet.insert (outpointKey txid position)
          ⟨output.recipient, output.amount, false, 0, height⟩,
        snapshot.addressIndex.insert output.recipient balance⟩ rest

/-- One transaction of the value pass. `exempt` marks a coinbase that claims
nothing. -/
def snapshotTransaction (height : UInt64) (exempt : Bool) (bundle : Option Shielded.Bundle)
    (snapshot : Snapshot) (tx : Transaction) : Except String Snapshot := do
  ensure (!(tx.outputs.isEmpty && tx.shielded.isEmpty && !exempt)) "tx outputs empty"
  let outputsTotal ← sumOutputs "invalid tx output" "invalid tx output" "block tx outputs overflow"
    0 tx.outputs
  let (spent, inputsTotal) ← snapshotInputs height snapshot 0 tx.inputs
  ensure (!(!tx.inputs.isEmpty && overflows outputsTotal tx.fee))
    "block tx outputs+fee overflow"
  let vpubIn := (bundle.map Shielded.Bundle.vpubIn).getD 0
  let vpubOut := (bundle.map Shielded.Bundle.vpubOut).getD 0
  if !tx.shielded.isEmpty then
    ensure (decide (inputsTotal.toNat + vpubOut.toNat =
      outputsTotal.toNat + tx.fee.toNat + vpubIn.toNat)) "block shielded value mismatch"
  else
    ensure (!(!tx.inputs.isEmpty && decide (inputsTotal < outputsTotal + tx.fee)))
      "block tx value mismatch"
  snapshotOutputs height (hashTransaction P tx) spent tx.outputs.zipIdx

/-- The value pass over the transactions after the coinbase, each with the bundle
the shielded pass decoded for it. -/
def snapshotTransactions (height : UInt64) : Snapshot → List (Transaction × Option Shielded.Bundle) →
    Except String Snapshot
  | snapshot, [] => .ok snapshot
  | snapshot, (tx, bundle) :: rest => do
    let next ← snapshotTransaction P height false bundle snapshot tx
    snapshotTransactions height next rest

/-! ### Shielded bundles -/

/-- Add commitments to the block's set, refusing a repetition. -/
def insertCommitments : Finset Bytes → List H32 → Except String (Finset Bytes)
  | blockCms, [] => .ok blockCms
  | blockCms, commitment :: rest => do
    ensure (decide (Shielded.hex32 commitment ∉ blockCms)) "shielded: duplicate commitment in block"
    insertCommitments (insert (Shielded.hex32 commitment) blockCms) rest

/-- The nullifiers of a bundle added to the block's set. -/
def insertNullifiers (blockNfs : Finset Bytes) (bundle : Shielded.Bundle) : Finset Bytes :=
  bundle.nullifiers.foldl (fun nfs nullifier => insert (Shielded.hex32 nullifier) nfs) blockNfs

/-- The shielded pass: bundles are checked against the state before the block and
against the nullifiers and commitments of earlier bundles of the block. -/
def shieldedPass (chain : Chain) : Finset Bytes → Finset Bytes → List Transaction →
    Except String (List (Option Shielded.Bundle))
  | _, _, [] => .ok []
  | blockNfs, blockCms, tx :: rest =>
    if tx.shielded.isEmpty then do
      let later ← shieldedPass chain blockNfs blockCms rest
      pure (none :: later)
    else do
      let bundle ← validateShieldedPart P chain tx blockNfs false
      let cms ← insertCommitments blockCms bundle.commitments
      let later ← shieldedPass chain (insertNullifiers blockNfs bundle) cms rest
      pure (some bundle :: later)

/-- The proof of one transaction, if it carries a bundle. -/
def checkProof (job : Transaction × Option Shielded.Bundle) : Except String Unit :=
  match job.2 with
  | none => .ok ()
  | some bundle => Shielded.verifyBundleProof P job.1 bundle

/-! ### Signatures -/

/-- `PqVerifyItem`: a key in hexadecimal digits, a message and its signature. -/
structure PqVerifyItem where
  publicKeyHex : Bytes
  message : Bytes
  signature : Bytes
deriving DecidableEq

/-- The overlay after the key of a transaction. -/
def overlayAfter (registry overlay : Table Bytes Bytes) (tx : Transaction) : Table Bytes Bytes :=
  if !tx.signerPubkey.isEmpty && !tx.inputs.isEmpty && (registry.lookup tx.signer).isNone then
    emplace overlay tx.signer tx.signerPubkey
  else overlay

/-- The signature jobs of the transactions after the coinbase. Keys registered by
earlier transactions of the block are in the overlay. -/
def signatureJobs (registry : Table Bytes Bytes) : Table Bytes Bytes → List Transaction →
    Except String (List PqVerifyItem)
  | _, [] => .ok []
  | overlay, tx :: rest =>
    if tx.inputs.isEmpty && !tx.shielded.isEmpty then signatureJobs registry overlay rest
    else if tx.signer.isEmpty && tx.signature.isEmpty && tx.signerPubkey.isEmpty then
      signatureJobs registry overlay rest
    else do
      ensure (!tx.signer.isEmpty && pqPrefix.isPrefixOf tx.signature)
        "non-coinbase tx missing PQ signature"
      let pubkey ← resolveSignerPubkey P registry overlay tx
      let later ← signatureJobs registry (overlayAfter registry overlay tx) rest
      pure (⟨pubkey, signedMessage P tx, tx.signature⟩ :: later)

/-- `pq_verify_messages_parallel`. -/
def pqVerifyMessagesParallel (items : List PqVerifyItem) : Except String Unit :=
  match items.findIdx? (fun item =>
    !verifyMessageSignatureHybridUncached P item.publicKeyHex item.message item.signature) with
  | none => .ok ()
  | some index => .error ("batch pq verify failed at index " ++ toString index)

/-! ### Votes and slashes -/

/-- `Chain::ticket_with_key`. -/
def Chain.ticketWithKey (chain : Chain) (ticket : StakeTicket) : StakeTicket :=
  if ticket.ownerPubkey.isEmpty then
    { ticket with ownerPubkey := (chain.pubkeyRegistry.lookup ticket.owner).getD ticket.ownerPubkey }
  else ticket

/-- `vote_signature_ok`. -/
def voteSignatureOk (ticket : StakeTicket) (networkId : Bytes) (vote : StakeVote) : Bool :=
  pqPrefix.isPrefixOf vote.signature &&
    verifyMessageSignatureHybridUncached P ticket.ownerPubkey
      (stakeVoteMessage networkId vote.votedHeight vote.votedHash vote.ticketId vote.approve)
      vote.signature

/-- `Chain::validate_slash`. -/
def validateSlash (chain : Chain) (slash : SlashEvidence) : Except String Unit := do
  let a := slash.a
  let b := slash.b
  ensure (decide (a.ticketId = b.ticketId ∧ a.votedHeight = b.votedHeight))
    "slash: votes are not from the same ticket/height"
  ensure (!decide (a.votedHash = b.votedHash ∧ a.approve = b.approve)) "slash: votes do not conflict"
  match chain.tickets.lookup a.ticketId with
  | none => .error "slash: unknown or spent ticket"
  | some ticket =>
    ensure (voteSignatureOk P (chain.ticketWithKey ticket) chain.cfg.networkId a &&
      voteSignatureOk P (chain.ticketWithKey ticket) chain.cfg.networkId b)
      "slash: invalid vote signature"

/-- The slash loop of `Chain::validate_block_staking`. -/
def validateSlashes (chain : Chain) : Finset Bytes → List SlashEvidence → Except String Unit
  | _, [] => .ok ()
  | slashed, slash :: rest => do
    validateSlash P chain slash
    ensure (decide (slash.a.ticketId ∉ slashed)) "duplicate slash evidence"
    validateSlashes chain (insert slash.a.ticketId slashed) rest

/-- `Chain::eligible_tickets_at`. -/
def Chain.eligibleTicketsAt (chain : Chain) (votedHeight : UInt64) : List StakeTicket :=
  (chain.tickets.entries.map Sigma.snd).filter
    (fun ticket => decide (ticket.lockHeight + chain.cfg.stakeMaturity ≤ votedHeight))

/-- The vote loop, returning the owners of the approving tickets in vote order. -/
def validateVotes (chain : Chain) (votedHeight : UInt64) (votedHash : Bytes)
    (selected : List Bytes) : Finset Bytes → List StakeVote → Except String (List Bytes)
  | _, [] => .ok []
  | seen, vote :: rest => do
    ensure (decide (vote.votedHeight = votedHeight ∧ vote.votedHash = votedHash))
      "vote not on parent block"
    ensure (decide (vote.ticketId ∈ selected)) "vote from unselected ticket"
    ensure (decide (vote.ticketId ∉ seen)) "duplicate vote"
    match chain.tickets.lookup vote.ticketId with
    | none => .error "invalid stake vote signature"
    | some ticket =>
      ensure (voteSignatureOk P (chain.ticketWithKey ticket) chain.cfg.networkId vote)
        "invalid stake vote signature"
      let later ← validateVotes chain votedHeight votedHash selected
        (insert vote.ticketId seen) rest
      pure (if vote.approve then ticket.owner :: later else later)

/-- The unchecked sum of the fees after the coinbase, as the reward rule adds them. -/
def wrappingFees (transactions : List Transaction) : UInt64 :=
  (transactions.drop 1).foldl (fun sum tx => sum + tx.fee) 0

/-- The staker outputs at the end of the coinbase. -/
def validateStakerRewards (chain : Chain) (candidate : Block) (approvingOwners : List Bytes) :
    Except String Unit :=
  if approvingOwners.isEmpty then .ok ()
  else
    let pot := chain.maxMintableAt candidate.header.height + wrappingFees candidate.transactions
    let per := stakeRewardPerVote pot chain.cfg.stakeRewardBps approvingOwners.length
    if per = 0 then .ok ()
    else do
      let outputs := (candidate.transactions.headD ⟨[], [], [], [], [], 0, 0, []⟩).outputs
      ensure (decide (approvingOwners.length ≤ outputs.length)) "coinbase missing staker rewards"
      ensure (decide (outputs.drop (outputs.length - approvingOwners.length) =
        approvingOwners.map (fun owner => ⟨owner, per⟩))) "coinbase staker reward mismatch"

/-- `Chain::validate_block_staking`. -/
def validateBlockStaking (chain : Chain) (candidate : Block) : Except String Unit :=
  let height := candidate.header.height
  if !chain.stakingActiveAt height then
    ensure (candidate.votes.isEmpty && candidate.slashes.isEmpty)
      "votes/slashes before staking activation"
  else do
    validateSlashes P chain ∅ candidate.slashes
    let votedHeight := height - 1
    let votedHash := candidate.header.previousHash
    let eligible := chain.eligibleTicketsAt votedHeight
    let selected := selectTickets P eligible votedHash chain.cfg.stakeVotesPerBlock
    ensure (decide (candidate.votes.length ≤ selected.length)) "too many votes"
    let approvingOwners ← validateVotes P chain votedHeight votedHash selected ∅ candidate.votes
    ensure (!(decide (chain.cfg.stakeMinLiveTickets.toNat ≤ eligible.length) &&
      decide (approvingOwners.length < chain.cfg.stakeVoteQuorum.toNat))) "insufficient stake votes"
    validateStakerRewards chain candidate approvingOwners

/-! ### Transactions of a block -/

/-- The fee loop over the transactions after the coinbase. -/
def sumFees : UInt64 → List Transaction → Except String UInt64
  | fees, [] => .ok fees
  | fees, tx :: rest => do
    ensure (!(tx.inputs.isEmpty && tx.shielded.isEmpty)) "non-coinbase tx must have inputs"
    let next ← addOr "fees overflow" fees tx.fee
    sumFees next rest

/-- What the coinbase creates beyond the fees. -/
def mintedOf (coinbaseTotal fees : UInt64) : UInt64 :=
  if coinbaseTotal > fees then coinbaseTotal - fees else 0

/-- The rules on the coinbase and on what it claims; returns its total. -/
def validateCoinbaseClaim (chain : Chain) (height : UInt64) (coinbase : Transaction)
    (others : List Transaction) : Except String UInt64 := do
  ensure coinbase.shielded.isEmpty "coinbase must not carry a shielded bundle"
  ensure coinbase.inputs.isEmpty "coinbase must not have inputs"
  ensure (!(coinbase.outputs.isEmpty && !chain.cfg.allowZeroRewardBlocks &&
    chain.maxMintableAt height != 0)) "coinbase must have output"
  let coinbaseTotal ← sumOutputs "invalid coinbase output" "invalid coinbase output"
    "coinbase overflow" 0 coinbase.outputs
  let fees ← sumFees 0 others
  let allowedReward ← addOr "allowed reward overflow" (chain.computeBlockReward height) fees
  ensure (decide (coinbaseTotal ≤ allowedReward)) "coinbase exceeds allowed reward+fees"
  ensure (decide (mintedOf coinbaseTotal fees ≤ chain.maxMintableAt height)) "max supply exceeded"
  pure coinbaseTotal

/-- `Chain::validate_block_transactions`. -/
def validateBlockTransactions (chain : Chain) (candidate : Block) : Except String Unit :=
  match candidate.transactions with
  | [] => .error "block must include coinbase"
  | coinbase :: others => do
    ensure (decide (Wire.blockWeight P candidate ≤ chain.cfg.maxBlockWeight.toNat))
      "block weight exceeds max_block_weight"
    let height := candidate.header.height
    let coinbaseTotal ← validateCoinbaseClaim chain height coinbase others
    let bundles ← shieldedPass P chain ∅ ∅ others
    checkAll (checkProof P) (others.zip bundles)
    let first ← snapshotTransaction P height (coinbaseTotal == 0) none
      ⟨chain.utxoSet, chain.addressIndex⟩ coinbase
    let _ ← snapshotTransactions P height first (others.zip bundles)
    let jobs ← signatureJobs P chain.pubkeyRegistry ∅ others
    pqVerifyMessagesParallel P jobs
    validateBlockStaking P chain candidate

/-! ### Application -/

/-- One transaction of the application loop. -/
def applyNext (chain : Chain) (tx : Transaction) : Except String Unit × Chain :=
  applyTransaction P chain tx (hashTransaction P tx) false

/-- The members restored when a transaction is refused during application. -/
def Chain.rollBack (reached snapshot : Chain) : Chain :=
  { reached with
    tickets := snapshot.tickets
    totalSlashed := snapshot.totalSlashed
    utxoSet := snapshot.utxoSet
    addressIndex := snapshot.addressIndex
    seenTransactions := snapshot.seenTransactions
    signerLastNonce := snapshot.signerLastNonce
    pubkeyRegistry := snapshot.pubkeyRegistry
    totalEmitted := snapshot.totalEmitted
    totalFeesLastBlock := snapshot.totalFeesLastBlock
    blocks := if reached.blocks.length > snapshot.blocks.length then
        reached.blocks.take snapshot.blocks.length
      else reached.blocks
    cumulativeWork := snapshot.cumulativeWork
    difficultyTarget := snapshot.difficultyTarget
    shielded := snapshot.shielded }

/-- The amount that burning a slashed ticket destroys. -/
def Chain.slashedAmount (chain : Chain) (slash : SlashEvidence) : UInt64 :=
  match chain.tickets.lookup slash.a.ticketId, unspentAt chain.utxoSet slash.a.ticketId with
  | some _, some utxo => utxo.amount
  | _, _ => 0

/-- Burn the ticket of one piece of evidence. -/
def Chain.slashTicket (chain : Chain) (slash : SlashEvidence) : Chain :=
  match chain.tickets.lookup slash.a.ticketId, unspentAt chain.utxoSet slash.a.ticketId with
  | none, _ => chain
  | some _, none => { chain with tickets := chain.tickets.erase slash.a.ticketId }
  | some _, some utxo => { chain with
      utxoSet := chain.utxoSet.insert slash.a.ticketId { utxo with spent := true }
      addressIndex := debit chain.addressIndex utxo.owner utxo.amount
      totalSlashed := chain.totalSlashed + utxo.amount
      tickets := chain.tickets.erase slash.a.ticketId }

/-- The emission, the new tip and the next difficulty. -/
def Chain.extend (chain : Chain) (block : Block) (minted : UInt64) : Chain :=
  { chain with
    totalEmitted := chain.totalEmitted + minted
    blocks := chain.blocks ++ [block]
    cumulativeWork := chain.cumulativeWork + workForTarget block.header.difficultyTarget
    difficultyTarget :=
      computeNextDifficultyTarget chain.cfg (chain.blocks ++ [block]) chain.difficultyTarget }

/-- The end of `add_block`, with its own sum and its own emission test. -/
def commitBlock (chain : Chain) (block : Block) (fees : UInt64) : Except String Unit × Chain :=
  match sumOr "coinbase overflow" 0
      ((block.transactions.headD ⟨[], [], [], [], [], 0, 0, []⟩).outputs.map TxOutput.amount) with
  | .error refusal => (.error refusal, chain)
  | .ok coinbaseTotal =>
    if mintedOf coinbaseTotal fees > chain.maxMintableAt block.header.height then
      (.error "max supply exceeded", chain)
    else (.ok (), chain.extend block (mintedOf coinbaseTotal fees))

/-- `add_block` after the validation and before the guard resets the applying
height. -/
def applyBlock (chain : Chain) (block : Block) : Except String Unit × Chain :=
  match each (applyNext P) { chain with applyingHeight := block.header.height } block.transactions with
  | (.error refusal, reached) => (.error refusal, reached.rollBack chain)
  | (.ok _, applied) =>
    match sumOr "fees overflow" 0 ((block.transactions.drop 1).map Transaction.fee) with
    | .error refusal => (.error refusal, applied)
    | .ok fees =>
      commitBlock (block.slashes.foldl Chain.slashTicket { applied with totalFeesLastBlock := fees })
        block fees

/-- The checks of `add_block` on the unchanged state. -/
def validateBlock (now : Time) (chain : Chain) (block : Block) : Except String Unit := do
  ensure (decide (Wire.blockWeight P block ≤ chain.cfg.maxBlockWeight.toNat))
    "block weight exceeds max_block_weight"
  validateBlockHeader P now chain block
  validateBlockTransactions P chain block

/-- `Chain::add_block`. -/
def addBlock (now : Time) (chain : Chain) (block : Block) : Except String Unit × Chain :=
  match validateBlock P now chain block with
  | .error refusal => (.error refusal, chain)
  | .ok _ =>
    let (verdict, reached) := applyBlock P chain block
    (verdict, { reached with applyingHeight := 0 })

/-! ### Reorganization -/

/-- The members restored when a candidate chain is refused. -/
def Chain.restore (reached old : Chain) : Chain :=
  { reached with
    blocks := old.blocks
    utxoSet := old.utxoSet
    addressIndex := old.addressIndex
    seenTransactions := old.seenTransactions
    signerLastNonce := old.signerLastNonce
    pubkeyRegistry := old.pubkeyRegistry
    difficultyTarget := old.difficultyTarget
    totalEmitted := old.totalEmitted
    totalFeesLastBlock := old.totalFeesLastBlock
    cumulativeWork := old.cumulativeWork
    tickets := old.tickets
    totalSlashed := old.totalSlashed
    shielded := old.shielded }

/-- The replay loop of `replace_with_chain`, with the clock at each block. -/
def replay (clock : Nat → Time) : Nat → Chain → List Block → Except String Unit × Chain
  | _, chain, [] => (.ok (), chain)
  | position, chain, block :: rest =>
    match addBlock P (clock position) chain block with
    | (.error refusal, reached) =>
      (.error ("invalid candidate at height " ++ toString position ++ ": " ++ refusal), reached)
    | (.ok _, reached) => replay clock (position + 1) reached rest

/-- `Chain::replace_with_chain`. -/
def replaceWithChain (clock : Nat → Time) (chain : Chain) (candidate : List Block) :
    Except String Unit × Chain :=
  match candidate with
  | [] => (.error "candidate chain empty", chain)
  | first :: rest =>
    if hashBlockHeader P first.header ≠
        hashBlockHeader P (chain.blocks.headD default).header then
      (.error "genesis mismatch", chain)
    else
      match replay P clock 1 (chain.reset P) rest with
      | (.error refusal, reached) => (.error refusal, reached.restore chain)
      | (.ok _, reached) =>
        if reached.cumulativeWork ≤ chain.cumulativeWork then
          (.error "candidate work not higher", reached.restore chain)
        else (.ok (), reached)

end Addition
