import Addition.Foundations.FiniteTables
import Addition.Scripts
import Addition.Shielded
import Addition.Staking

/-!
# Chain state and transactions

The consensus state of `chain.cpp` with the validation and application of one
transaction. Validation reads the state and returns a refusal or nothing.
Application mutates: it returns its verdict together with the state it reached,
which after a refusal is the partly changed one, as a C++ member function leaves
it. Hash maps are finite tables; `operator[]` creates a zero entry, so writing a
balance inserts one.

Output positions are natural numbers: an output count of 2^32 would exceed every
memory. The commit hook, the pending-pool hooks and the batch-timing counters
are no part of the consensus state.
-/

namespace Addition

open ByteStrings Checked FiniteTables

/-- `Chain::UTXO`. -/
structure Utxo where
  owner : Bytes
  amount : UInt64
  spent : Bool
  spendableHeight : UInt64
  height : UInt64
deriving DecidableEq

/-- `Chain`: the blocks, the unspent outputs and what is derived from them. -/
structure Chain where
  cfg : ChainConfig
  blocks : List Block
  utxoSet : Table Bytes Utxo
  addressIndex : Table Bytes UInt64
  signerLastNonce : Table Bytes UInt64
  seenTransactions : Finset Bytes
  pubkeyRegistry : Table Bytes Bytes
  difficultyTarget : UInt64
  totalEmitted : UInt64
  totalFeesLastBlock : UInt64
  cumulativeWork : UInt64
  tickets : Table Bytes StakeTicket
  totalSlashed : UInt64
  applyingHeight : UInt64
  shielded : Shielded.State

variable (P : Primitives)

/-! ### Construction -/

/-- `work_for_target`. -/
def workForTarget (target : UInt64) : UInt64 :=
  if target = 0 then wordMax else wordMax / target

/-- `Chain::make_genesis`. -/
def makeGenesis (cfg : ChainConfig) (difficultyTarget : UInt64) : Block where
  header :=
    { height := 0
      previousHash :=
        if cfg.networkId = kMainnetNetworkId ∨ cfg.networkId = kRegtestNetworkId ∨
            cfg.networkId = kFastNetworkId then
          ascii "genesis:" ++ cfg.networkId
        else ascii "0"
      timestamp := cfg.genesisTimestamp
      nonce := 0
      difficultyTarget := difficultyTarget
      merkleRoot := computeMerkleRoot P [] }
  transactions := []
  votes := []
  slashes := []

/-- `Chain::Chain`. -/
def Chain.new (cfg : ChainConfig) : Chain where
  cfg := cfg
  blocks := [makeGenesis P cfg cfg.initialDifficultyTarget]
  utxoSet := ∅
  addressIndex := ∅
  signerLastNonce := ∅
  seenTransactions := ∅
  pubkeyRegistry := ∅
  difficultyTarget := cfg.initialDifficultyTarget
  totalEmitted := 0
  totalFeesLastBlock := 0
  cumulativeWork := workForTarget cfg.initialDifficultyTarget
  tickets := ∅
  totalSlashed := 0
  applyingHeight := 0
  shielded := Shielded.State.new P

/-- `Chain::reset`. -/
def Chain.reset (chain : Chain) : Chain :=
  let genesis := makeGenesis P chain.cfg chain.cfg.initialDifficultyTarget
  { chain with
    blocks := [genesis]
    utxoSet := ∅
    addressIndex := ∅
    signerLastNonce := ∅
    seenTransactions := ∅
    pubkeyRegistry := ∅
    difficultyTarget := chain.cfg.initialDifficultyTarget
    totalEmitted := 0
    totalFeesLastBlock := 0
    cumulativeWork := 0 + workForTarget genesis.header.difficultyTarget
    tickets := ∅
    totalSlashed := 0
    applyingHeight := 0
    shielded := Shielded.State.new P }

/-- Resetting gives the chain that construction gives. -/
theorem reset_eq_new (chain : Chain) : chain.reset P = Chain.new P chain.cfg := by
  simp [Chain.reset, Chain.new, makeGenesis]

/-! ### Readings -/

/-- `Chain::tip`. -/
def Chain.tip (chain : Chain) : Block := chain.blocks.getLastD default

/-- `Chain::height`. -/
def Chain.height (chain : Chain) : UInt64 := chain.tip.header.height

/-- `Chain::context_height`. -/
def Chain.contextHeight (chain : Chain) : UInt64 :=
  if chain.applyingHeight ≠ 0 then chain.applyingHeight else chain.height + 1

/-- `Chain::staking_active_at`. -/
def Chain.stakingActiveAt (chain : Chain) (height : UInt64) : Bool :=
  decide (chain.cfg.stakingActivationHeight ≤ height)

/-- `Chain::compute_block_reward`. -/
def Chain.computeBlockReward (chain : Chain) (height : UInt64) : UInt64 :=
  scheduledBlockSubsidy height chain.cfg.blockReward chain.cfg.halvingInterval.toUInt64
    chain.cfg.subsidyFloor

/-- `Chain::max_mintable_at`. -/
def Chain.maxMintableAt (chain : Chain) (height : UInt64) : UInt64 :=
  maxMintableSubsidy height chain.totalEmitted chain.cfg.maxSupply chain.cfg.blockReward
    chain.cfg.halvingInterval.toUInt64 chain.cfg.subsidyFloor

/-- The entry of an index, zero when absent. -/
def balanceIn (index : Table Bytes UInt64) (address : Bytes) : UInt64 :=
  (index.lookup address).getD 0

theorem balanceIn_insert (index : Table Bytes UInt64) (owner address : Bytes) (balance : UInt64) :
    balanceIn (index.insert owner balance) address =
      if address = owner then balance else balanceIn index address := by
  unfold balanceIn
  rw [lookup_insert]
  split <;> rfl

/-- `Chain::balance_of`. -/
def Chain.balanceOf (chain : Chain) (address : Bytes) : UInt64 :=
  balanceIn chain.addressIndex address

/-- `Chain::total_staked`. -/
def Chain.totalStaked (chain : Chain) : UInt64 :=
  chain.tickets.entries.foldl (fun sum entry => sum + entry.2.amount) 0

/-- An entry that is present and not spent. -/
def unspentAt (utxoSet : Table Bytes Utxo) (key : Bytes) : Option Utxo :=
  (utxoSet.lookup key).filter (fun utxo => !utxo.spent)

theorem unspentAt_some (utxoSet : Table Bytes Utxo) (key : Bytes) (utxo : Utxo) :
    unspentAt utxoSet key = some utxo ↔
      utxoSet.lookup key = some utxo ∧ utxo.spent = false := by
  simp [unspentAt, Option.filter_eq_some_iff]

/-- `Chain::registered_pubkey`. -/
def Chain.registeredPubkey (chain : Chain) (address : Bytes) : Option Bytes :=
  chain.pubkeyRegistry.lookup address

/-! ### Difficulty -/

/-- `Chain::clamp_difficulty_target`. -/
def clampDifficultyTarget (cfg : ChainConfig) (target : UInt64) : UInt64 :=
  if target < cfg.minDifficultyTarget then cfg.minDifficultyTarget
  else if target > cfg.maxDifficultyTarget then cfg.maxDifficultyTarget
  else target

/-- `Chain::compute_legacy_difficulty_target`, of the members it reads. -/
def computeLegacyDifficultyTarget (cfg : ChainConfig) (blocks : List Block)
    (difficultyTarget : UInt64) : UInt64 :=
  let legacyMin := if cfg.legacyMinDifficultyTarget ≠ 0 then
      max cfg.legacyMinDifficultyTarget cfg.minDifficultyTarget
    else cfg.minDifficultyTarget
  let clampLegacy := fun target => min (max target legacyMin) cfg.maxDifficultyTarget
  let window := cfg.retargetWindow.toNat
  let size := blocks.length
  let tip := (blocks.getLastD default).header
  if window = 0 ∨ size < window + 1 then clampLegacy difficultyTarget
  else if tip.height % cfg.retargetWindow.toUInt64 ≠ 0 then clampLegacy difficultyTarget
  else
    -- the frozen genesis timestamp is never the oldest bound
    let oldestIndex := if size - 1 - window = 0 then 1 else size - 1 - window
    if oldestIndex ≥ size - 1 then clampLegacy difficultyTarget
    else
      let oldest := (blocks.getD oldestIndex default).header.timestamp
      let observed := if tip.timestamp > oldest then tip.timestamp - oldest else 1
      let expected := cfg.retargetWindow.toUInt64 * cfg.targetBlockTimeSec.toUInt64
      if expected = 0 then clampLegacy difficultyTarget
      else
        let floorSpan := max 1 (expected / 4)
        let observedCapped := min (max observed floorSpan) (expected * 4)
        let next := if difficultyTarget > wordMax / observedCapped then cfg.maxDifficultyTarget
          else difficultyTarget * observedCapped / expected
        clampLegacy next

/-- `Chain::compute_next_difficulty_target`, of the members it reads. -/
def computeNextDifficultyTarget (cfg : ChainConfig) (blocks : List Block)
    (difficultyTarget : UInt64) : UInt64 :=
  let nextHeight := if blocks.isEmpty then 0 else (blocks.getLastD default).header.height + 1
  if nextHeight < cfg.difficultyForkHeight then
    computeLegacyDifficultyTarget cfg blocks difficultyTarget
  else
    let window := max 2 cfg.lwmaWindow.toNat
    let size := blocks.length
    if size < 3 then clampDifficultyTarget cfg cfg.initialDifficultyTarget
    else
      let first := max 1 (size - min size (window + 1))
      let recent := blocks.drop first
      lwmaNextTarget (recent.map (fun block => block.header.timestamp))
        (recent.map (fun block => block.header.difficultyTarget))
        cfg.targetBlockTimeSec.toUInt64 cfg.minDifficultyTarget cfg.maxDifficultyTarget
        difficultyTarget

/-- `Chain::hash_meets_target`. -/
def hashMeetsTarget (cfg : ChainConfig) (hexHash : Bytes) (target : UInt64) : Bool :=
  match cfg.powAlgorithm with
  | .sha3_512 => decide (hashHead64 hexHash ≤ target)
  | .memoryHard => decide (memoryHardHead64 P hexHash ≤ target)

/-! ### Transaction validation -/

/-- The output loop, in three places of the source with three sets of messages:
every recipient is named, every amount is positive, and the sum is a word. -/
def sumOutputs (unnamed zero overflow : String) : UInt64 → List TxOutput → Except String UInt64
  | total, [] => .ok total
  | total, output :: rest => do
    ensure (!output.recipient.isEmpty) unnamed
    ensure (output.amount != 0) zero
    let next ← addOr overflow total output.amount
    sumOutputs unnamed zero overflow next rest

/-- The exact sum of output amounts. -/
def outputsValue (outputs : List TxOutput) : Nat :=
  (outputs.map (fun output => output.amount.toNat)).sum

/-- The sum of outputs is exact when it is accepted. -/
theorem sumOutputs_ok (unnamed zero overflow : String) (total result : UInt64)
    (outputs : List TxOutput) :
    sumOutputs unnamed zero overflow total outputs = .ok result ↔
      (∀ output ∈ outputs, output.recipient ≠ [] ∧ output.amount ≠ 0) ∧
        result.toNat = total.toNat + outputsValue outputs := by
  induction outputs generalizing total with
  | nil =>
    simp only [sumOutputs, Except.ok.injEq, outputsValue, List.map_nil, List.sum_nil, Nat.add_zero,
      List.not_mem_nil, false_implies, implies_true, true_and]
    rw [eq_comm, UInt64.toNat_inj]
  | cons output rest ih =>
    simp only [sumOutputs, bind_ok, ensure_ok, addOr_ok, ih, outputsValue,
      List.map_cons, List.sum_cons, List.forall_mem_cons, Bool.not_eq_true', bne_iff_ne,
      List.isEmpty_eq_false_iff]
    constructor
    · rintro ⟨_, named, _, positive, next, added, later, exact⟩
      exact ⟨⟨⟨named, positive⟩, later⟩, by omega⟩
    · rintro ⟨⟨⟨named, positive⟩, later⟩, exact⟩
      have bound := result.toNat_lt
      have narrow : total.toNat + output.amount.toNat < UInt64.size := by
        simp only [UInt64.size]
        omega
      refine ⟨(), named, (), positive, UInt64.ofNat (total.toNat + output.amount.toNat),
        UInt64.toNat_ofNat_of_lt' narrow, later, ?_⟩
      rw [UInt64.toNat_ofNat_of_lt' narrow]
      omega

/-- What a shielded transaction without inputs must look like. -/
def checkLoneBundle (tx : Transaction) (bundle : Shielded.Bundle) : Except String Unit := do
  ensure (tx.signer.isEmpty && tx.signature.isEmpty && tx.signerPubkey.isEmpty)
    "fully shielded tx must not carry a transparent signer"
  ensure (bundle.vpubIn == 0) "vpub_in requires transparent inputs"
  ensure (!bundle.nullifiers.isEmpty) "fully shielded tx must spend at least one note"

/-- `Chain::validate_shielded_part`. -/
def validateShieldedPart (chain : Chain) (tx : Transaction) (pendingNfs : Finset Bytes)
    (checkProof : Bool) : Except String Shielded.Bundle := do
  ensure chain.cfg.shieldedEnabled "shielded transactions not enabled on this network"
  let bundle ← Shielded.fromTxField tx.shielded
  onlyIf tx.inputs.isEmpty (checkLoneBundle tx bundle)
  chain.shielded.check bundle pendingNfs
  onlyIf checkProof (Shielded.verifyBundleProof P tx bundle)
  pure bundle

/-- `Chain::resolve_signer_pubkey`. An absent overlay is an empty one. -/
def resolveSignerPubkey (registry overlay : Table Bytes Bytes) (tx : Transaction) :
    Except String Bytes :=
  if !tx.signerPubkey.isEmpty then do
    signerBindsPubkey P tx.signer tx.signerPubkey
    pure tx.signerPubkey
  else
    match overlay.lookup tx.signer, registry.lookup tx.signer with
    | some pubkey, _ => .ok pubkey
    | none, some pubkey => .ok pubkey
    | none, none => .error "missing signer public key (not in registry)"

/-- Whether the signer controls the output an input spends: a stake ticket by its
owner, any other output by its address. -/
def Chain.controls (chain : Chain) (signer : Bytes) (input : TxInput) : Bool :=
  match unspentAt chain.utxoSet input.key with
  | none => false
  | some utxo =>
    if utxo.owner = kStakeAddress then
      match chain.tickets.lookup input.key with
      | none => false
      | some ticket => decide (ticket.owner = signer)
    else decide (utxo.owner = signer)

/-- The message a transaction's signature is checked against. -/
def signedMessage (tx : Transaction) : Bytes := hashTransaction P { tx with signature := [] }

/-- `Chain::validate_transaction_signature`. -/
def validateTransactionSignature (chain : Chain) (tx : Transaction) (checkCrypto : Bool) :
    Except String Unit := do
  ensure (!chain.cfg.requirePqSignatures || pqPrefix.isPrefixOf tx.signature)
    "non-PQ signature rejected in strict mode"
  ensure (!tx.signer.isEmpty) "missing signer"
  ensure (!tx.signature.isEmpty) "missing signature"
  let pubkey ← resolveSignerPubkey P chain.pubkeyRegistry ∅ tx
  ensure (!tx.inputs.isEmpty && tx.inputs.all (chain.controls tx.signer))
    "signer does not control inputs"
  onlyIf checkCrypto (ensure
    (verifyMessageSignatureHybridUncached P pubkey (signedMessage P tx) tx.signature) "invalid signature")

/-- The loop of `Chain::validate_script_inputs`, with the position of the input. -/
def validateScriptInputs (chain : Chain) (sighash : Bytes) :
    Nat → List TxInput → Except String Unit
  | _, [] => .ok ()
  | position, input :: rest =>
    match unspentAt chain.utxoSet input.key with
    | none => .error "input utxo not found or spent"
    | some utxo =>
      match Script.verifyInput P utxo.owner input.witness ⟨sighash, chain.height + 1, utxo.height⟩ with
      | .error refusal => .error ("input " ++ toString position ++ ": " ++ refusal)
      | .ok _ => validateScriptInputs chain sighash (position + 1) rest

/-- The input loop of `Chain::validate_transaction`. -/
def sumInputs (chain : Chain) : Finset Bytes → UInt64 → List TxInput → Except String UInt64
  | _, total, [] => .ok total
  | seenInputs, total, input :: rest => do
    ensure (decide (input.key ∉ seenInputs)) "duplicate input in transaction"
    match unspentAt chain.utxoSet input.key with
    | none => .error "input utxo not found or spent"
    | some utxo =>
      ensure (decide (utxo.spendableHeight ≤ chain.contextHeight))
        ("input still unbonding (spendable at height " ++ toString utxo.spendableHeight.toNat ++ ")")
      let next ← addOr "inputs overflow" total utxo.amount
      sumInputs chain (insert input.key seenInputs) next rest

/-- The stake rules for one output of a transaction with inputs. -/
def checkStakeOutput (chain : Chain) (spendsTicket : Bool) (output : TxOutput) :
    Except String Unit :=
  if output.recipient ≠ kStakeAddress then .ok ()
  else do
    ensure (!spendsTicket) "stake unlock cannot create new stake"
    ensure (chain.stakingActiveAt chain.contextHeight) "staking not active"
    ensure (decide (chain.cfg.stakeMinAmount ≤ output.amount))
      ("stake below minimum (" ++ toString chain.cfg.stakeMinAmount.toNat ++ ")")

/-- A guard on each item of a list, in order. -/
def checkAll {α : Type} (check : α → Except String Unit) : List α → Except String Unit
  | [] => .ok ()
  | item :: rest => do
    check item
    checkAll check rest

@[simp] theorem checkAll_ok {α : Type} (check : α → Except String Unit) (items : List α) :
    checkAll check items = .ok () ↔ ∀ item ∈ items, check item = .ok () := by
  induction items with
  | nil => simp [checkAll]
  | cons item rest ih => simp [checkAll, ih]

/-- Whether some input spends a live ticket. -/
def Chain.spendsTicket (chain : Chain) (tx : Transaction) : Bool :=
  tx.inputs.any (fun input => (chain.tickets.lookup input.key).isSome)

/-- The branch of a shielded transaction without inputs. -/
def validateFullyShielded (chain : Chain) (tx : Transaction) (bundle : Shielded.Bundle)
    (outputsTotal : UInt64) : Except String Unit := do
  ensure (!(decide (chain.cfg.minFee > 0) && decide (tx.fee < chain.cfg.minFee)))
    "fee below network minimum"
  ensure (decide (bundle.vpubOut.toNat = outputsTotal.toNat + tx.fee.toNat))
    "shielded value balance mismatch"

/-- The branch of a transparent transaction without inputs. -/
def validateCoinbase (chain : Chain) (tx : Transaction) (outputsTotal : UInt64) :
    Except String Unit := do
  ensure (tx.signer.isEmpty && tx.signature.isEmpty) "coinbase must not be signed"
  ensure (tx.outputs.all (fun output => decide (output.recipient ≠ kStakeAddress)))
    "coinbase cannot lock stake"
  ensure (!(decide (chain.applyingHeight = 0) &&
    decide (outputsTotal > chain.cfg.blockReward + tx.fee))) "coinbase exceeds allowed emission"

/-- Who authorizes a transaction with inputs: its signer, or each input's script. -/
def validateAuthority (chain : Chain) (tx : Transaction) (checkSignature : Bool) :
    Except String Unit :=
  if tx.signer.isEmpty then do
    ensure (tx.signature.isEmpty && tx.signerPubkey.isEmpty)
      "script tx must not carry a signer signature"
    validateScriptInputs P chain (Script.sighash P tx) 0 tx.inputs
  else do
    ensure (tx.inputs.all (fun input => input.witness.isEmpty))
      "witness on signer-authorized input"
    validateTransactionSignature P chain tx checkSignature
    match chain.signerLastNonce.lookup tx.signer with
    | none => .ok ()
    | some last => ensure (decide (last < tx.nonce)) "nonce replay or out-of-order"

/-- The values of a transaction with inputs. -/
def validateBalance (tx : Transaction) (bundle : Option Shielded.Bundle)
    (inputsTotal outputsTotal : UInt64) : Except String Unit := do
  let spent ← addOr "outputs+fee overflow" outputsTotal tx.fee
  match bundle with
  | some bundle =>
    ensure (decide (inputsTotal.toNat + bundle.vpubOut.toNat =
      outputsTotal.toNat + tx.fee.toNat + bundle.vpubIn.toNat)) "shielded value balance mismatch"
  | none => ensure (!decide (inputsTotal < spent)) "inputs < outputs + fee"

/-- The branch of a transaction with inputs. -/
def validateSpend (chain : Chain) (tx : Transaction) (bundle : Option Shielded.Bundle)
    (outputsTotal : UInt64) (checkSignature : Bool) : Except String Unit := do
  ensure (!(decide (chain.cfg.minFee > 0) && decide (tx.fee < chain.cfg.minFee)))
    "fee below network minimum"
  validateAuthority P chain tx checkSignature
  let inputsTotal ← sumInputs chain ∅ 0 tx.inputs
  checkAll (checkStakeOutput chain (chain.spendsTicket tx)) tx.outputs
  validateBalance tx bundle inputsTotal outputsTotal

/-- The bundle of a transaction after its shielded checks, if it carries one. -/
def shieldedBundle (chain : Chain) (tx : Transaction) (checkProof : Bool) :
    Except String (Option Shielded.Bundle) :=
  if tx.shielded.isEmpty then .ok none
  else do
    let bundle ← validateShieldedPart P chain tx ∅ checkProof
    pure (some bundle)

/-- `Chain::validate_transaction`. -/
def validateTransaction (chain : Chain) (tx : Transaction) (checkSignature : Bool) :
    Except String Unit := do
  let bundle ← shieldedBundle P chain tx checkSignature
  ensure (!(tx.outputs.isEmpty && tx.shielded.isEmpty &&
    !(tx.inputs.isEmpty && chain.applyingHeight != 0))) "transaction has no outputs"
  let outputsTotal ← sumOutputs "output recipient empty" "output amount zero" "outputs overflow" 0
    tx.outputs
  if tx.inputs.isEmpty then
    match bundle with
    | some bundle => validateFullyShielded chain tx bundle outputsTotal
    | none => validateCoinbase chain tx outputsTotal
  else validateSpend P chain tx bundle outputsTotal checkSignature

/-! ### Transaction application -/

/-- Take an amount from an index entry, down to zero. -/
def debit (index : Table Bytes UInt64) (owner : Bytes) (amount : UInt64) : Table Bytes UInt64 :=
  index.insert owner (saturatingSub (balanceIn index owner) amount)

/-- The first loop of `Chain::apply_transaction`, one input. The flag tells whether
a ticket was unlocked so far. -/
def spendInput (state : Chain × Bool) (input : TxInput) : Except String Unit × (Chain × Bool) :=
  match unspentAt state.1.utxoSet input.key with
  | none => (.error "cannot spend missing utxo", state)
  | some utxo =>
    (.ok (),
      ({ state.1 with
          utxoSet := state.1.utxoSet.insert input.key { utxo with spent := true }
          addressIndex := debit state.1.addressIndex utxo.owner utxo.amount
          tickets := state.1.tickets.erase input.key },
        state.2 || (state.1.tickets.lookup input.key).isSome))

/-- The ticket that an output to the stake address opens. -/
def newTicket (chain : Chain) (tx : Transaction) (key : Bytes) (amount : UInt64) : StakeTicket where
  id := key
  owner := tx.signer
  ownerPubkey :=
    if tx.signerPubkey.isEmpty then (chain.registeredPubkey tx.signer).getD [] else tx.signerPubkey
  amount := amount
  lockHeight := chain.contextHeight

/-- The entry that an output creates. -/
def newUtxo (chain : Chain) (unlocking : Bool) (output : TxOutput) : Utxo where
  owner := output.recipient
  amount := output.amount
  spent := false
  spendableHeight := if unlocking then chain.contextHeight + chain.cfg.stakeUnbondDelay else 0
  height := chain.height + 1

/-- The second loop of `Chain::apply_transaction`, one output at its position. The
entry and the ticket are written before the index is tested. -/
def createOutput (tx : Transaction) (txid : Bytes) (unlocking : Bool) (chain : Chain)
    (placed : TxOutput × Nat) : Except String Unit × Chain :=
  let key := outpointKey txid placed.2
  let output := placed.1
  let tickets := if output.recipient = kStakeAddress then
      chain.tickets.insert key (newTicket chain tx key output.amount)
    else chain.tickets
  let utxoSet := chain.utxoSet.insert key (newUtxo chain unlocking output)
  let balance := chain.balanceOf output.recipient
  if overflows balance output.amount then
    (.error "balance index overflow", { chain with tickets := tickets, utxoSet := utxoSet })
  else
    (.ok (), { chain with
      tickets := tickets
      utxoSet := utxoSet
      addressIndex := chain.addressIndex.insert output.recipient (balance + output.amount) })

/-- `std::unordered_map::emplace`: an existing entry stays. -/
def emplace (table : Table Bytes Bytes) (key value : Bytes) : Table Bytes Bytes :=
  if (table.lookup key).isSome then table else table.insert key value

theorem lookup_emplace (table : Table Bytes Bytes) (key value tested : Bytes) :
    (emplace table key value).lookup tested =
      (table.lookup tested).or (if tested = key then some value else none) := by
  unfold emplace
  by_cases same : tested = key
  · subst same
    cases found : table.lookup tested <;> simp [found]
  · cases found : table.lookup key <;> simp [same, AList.lookup_insert_ne same]

/-- The nonce and key registration of a signed transaction. The first key of an
address stays. -/
def Chain.recordSigner (chain : Chain) (tx : Transaction) : Chain :=
  if tx.inputs.isEmpty || tx.signer.isEmpty then chain
  else { chain with
    signerLastNonce := chain.signerLastNonce.insert tx.signer tx.nonce
    pubkeyRegistry :=
      if tx.signerPubkey.isEmpty then chain.pubkeyRegistry
      else emplace chain.pubkeyRegistry tx.signer tx.signerPubkey }

/-- The end of `Chain::apply_transaction`: the pool, and the set of seen ids. -/
def finishTransaction (chain : Chain) (tx : Transaction) (txid : Bytes) :
    Except String Unit × Chain :=
  if tx.shielded.isEmpty then
    (.ok (), { chain with seenTransactions := insert txid chain.seenTransactions })
  else
    match Shielded.fromTxField tx.shielded with
    | .error refusal => (.error refusal, chain)
    | .ok bundle =>
      (.ok (), { chain with
        shielded := chain.shielded.apply P bundle
        seenTransactions := insert txid chain.seenTransactions })

/-- `Chain::apply_transaction`. -/
def applyTransaction (chain : Chain) (tx : Transaction) (txid : Bytes) (checkSignature : Bool) :
    Except String Unit × Chain :=
  andThen (validateTransaction P chain tx checkSignature, chain) id fun chain =>
  andThen (each spendInput (chain, false) tx.inputs) Prod.fst fun reached =>
  andThen (each (createOutput tx txid reached.2) reached.1 tx.outputs.zipIdx) id fun created =>
  finishTransaction P (created.recordSigner tx) tx txid

end Addition
