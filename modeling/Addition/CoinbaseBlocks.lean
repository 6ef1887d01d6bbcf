import Addition.Application
import Addition.History

/-!
# Blocks of a single coinbase

On a network whose target admits every hash, a block that carries nothing but an
unsigned coinbase within the subsidy is accepted on any tip, whatever the hash
functions are. The rules read the coinbase's recipients, amounts and inputs; its
nonce, its fee and its public key are free, and nothing compares it with the
coinbases before it.
-/

namespace Addition

open ByteStrings Checked FiniteTables

variable (P : Primitives)

/-- The block of a list of transactions on the tip, at the tip's own time. -/
def blockOn (chain : Chain) (transactions : List Transaction) : Block :=
  let header : BlockHeader :=
    { height := chain.height + 1
      previousHash := hashBlockHeader P chain.tip.header
      timestamp := chain.tip.header.timestamp
      nonce := 0
      difficultyTarget := chain.difficultyTarget
      merkleRoot := computeBlockCommitment P ⟨⟨0, [], 0, 0, 0, []⟩, transactions, [], []⟩ }
  ⟨header, transactions, [], []⟩

/-- A transaction without inputs, signer and bundle. -/
def coinbaseOf (outputs : List TxOutput) (nonce : UInt64) : Transaction :=
  ⟨[], outputs, [], [], [], 0, nonce, []⟩

/-- A state on which any hash meets the target and no vote is asked for. -/
structure EasyTip (chain : Chain) : Prop where
  idle : chain.applyingHeight = 0
  target : chain.difficultyTarget = wordMax
  minTarget : chain.cfg.minDifficultyTarget = wordMax
  maxTarget : chain.cfg.maxDifficultyTarget = wordMax
  early : chain.height + 1 < chain.cfg.difficultyForkHeight
  unstaked : chain.height + 1 < chain.cfg.stakingActivationHeight
  ahead : chain.height + 1 ≠ 0

theorem le_wordMax (value : UInt64) : value ≤ wordMax := by
  have bound := value.toNat_lt
  rw [UInt64.le_iff_toNat_le, wordMax]
  simp only [UInt64.reduceToNat]
  omega

/-- Every hash meets the largest target. -/
theorem hashMeetsTarget_wordMax (cfg : ChainConfig) (hexHash : Bytes) :
    hashMeetsTarget P cfg hexHash wordMax = true := by
  unfold hashMeetsTarget
  split
  · exact decide_eq_true (le_wordMax _)
  · exact decide_eq_true (le_wordMax _)

theorem blockOn_header (now : Time) (chain : Chain) (transactions : List Transaction)
    (easy : EasyTip chain) :
    validateBlockHeader P now chain (blockOn P chain transactions) = .ok () := by
  have late : ¬ chain.cfg.difficultyForkHeight ≤ chain.height + 1 := by
    have early := UInt64.lt_iff_toNat_lt.mp easy.early
    rw [UInt64.le_iff_toNat_le]
    omega
  have low : chain.cfg.minDifficultyTarget ≤ wordMax := le_wordMax _
  have commitment : computeBlockCommitment P (blockOn P chain transactions) =
      computeBlockCommitment P ⟨⟨0, [], 0, 0, 0, []⟩, transactions, [], []⟩ := rfl
  simp only [validateBlockHeader, bind_ok, exists_unit, ensure_ok, commitment]
  simp only [blockOn, easy.target, easy.maxTarget, hashMeetsTarget_wordMax, Chain.height, low,
    decide_true, true_and, and_true]
  have late' : ¬ chain.cfg.difficultyForkHeight ≤ chain.tip.header.height + 1 := late
  simp [late']

/-! ### Weight -/

/-- A tagged string takes at most five octets more than the string. -/
theorem writeTagged_length_le (text : Bytes) :
    (Wire.writeTagged text).length ≤ 5 + text.length := by
  have stored : (Wire.tagged text).2.length ≤ text.length := by
    unfold Wire.tagged
    split
    · simp only [fromHex_length, List.length_drop]
      omega
    · split
      · simp only [fromHex_length]
        omega
      · exact le_refl _
  simp only [Wire.writeTagged, Wire.putU32, List.length_cons, List.length_append, leBytes_length]
  omega

/-- The weight of a block without votes and slashes, from the weights of its
transactions. -/
theorem blockOn_weight_le (chain : Chain) (transactions : List Transaction) :
    Wire.blockWeight P (blockOn P chain transactions) ≤
      314 + (transactions.map (Wire.txWeight P)).sum := by
  have previous := writeTagged_length_le (hashBlockHeader P chain.tip.header)
  obtain ⟨text, digest⟩ :=
    computeBlockCommitment_digest P ⟨⟨0, [], 0, 0, 0, []⟩, transactions, [], []⟩
  have root := writeTagged_length_le (strongHash P text)
  simp only [hashBlockHeader_length, strongHash_length] at previous root
  simp only [Wire.blockWeight, blockOn, digest, List.length_append, Wire.stakeExtensionWeight,
    List.isEmpty_nil, Bool.and_self, ↓reduceIte]
  omega

theorem txWeight_eq (tx : Transaction) : Wire.txWeight P tx = 8 + (Wire.txBody tx).length := by
  simp only [Wire.txWeight, Wire.encodeTxV3, Wire.sealed, Wire.putU32, List.length_append,
    leBytes_length]
  omega

/-! ### Acceptance -/

/-- The value pass credits the index as the application does. -/
theorem snapshotOutputs_of_created (tx : Transaction) (txid : Bytes) (unlocking : Bool)
    (height : UInt64) (chain created : Chain) (utxoSet : Table Bytes Utxo)
    (placed : List (TxOutput × Nat))
    (loop : each (createOutput tx txid unlocking) chain placed = (.ok (), created)) :
    ∃ snapshot, snapshotOutputs height txid ⟨utxoSet, chain.addressIndex⟩ placed = .ok snapshot := by
  induction placed generalizing chain utxoSet with
  | nil => exact ⟨_, rfl⟩
  | cons output rest ih =>
    obtain ⟨next, step, later⟩ := (each_cons_ok _ _ _ _ _).mp loop
    obtain ⟨room, rfl⟩ := (createOutput_ok tx txid unlocking chain output next).mp step
    obtain ⟨snapshot, through⟩ := ih _ _ later
    refine ⟨snapshot, ?_⟩
    unfold snapshotOutputs
    simp only [bind_ok, addOr_ok]
    refine ⟨chain.balanceOf output.1.recipient + output.1.amount, ?_, through⟩
    rw [UInt64.toNat_add, Nat.mod_eq_of_lt room]
    rfl

/-- What a coinbase on a given state must satisfy to be mined alone. -/
structure SoloCoinbase (chain : Chain) (tx : Transaction) : Prop where
  form : CoinbaseForm tx
  outputs : ∀ output ∈ tx.outputs, output.recipient ≠ [] ∧ output.amount ≠ 0
  claim : outputsValue tx.outputs ≤ (chain.maxMintableAt (chain.height + 1)).toNat
  zeroReward : tx.outputs = [] → chain.cfg.allowZeroRewardBlocks = true
  weight : 322 + (Wire.txBody tx).length ≤ chain.cfg.maxBlockWeight.toNat

theorem maxMintable_le_reward (chain : Chain) (height : UInt64) :
    (chain.maxMintableAt height).toNat ≤ (chain.computeBlockReward height).toNat :=
  (maxMintableSubsidy_le _ _ _ _ _ _).1

/-- The exact total of a claim within the subsidy. -/
theorem sumOutputs_claim (unnamed zero overflow : String) (chain : Chain) (tx : Transaction)
    (solo : SoloCoinbase chain tx) :
    ∃ total, sumOutputs unnamed zero overflow 0 tx.outputs = .ok total ∧
      total.toNat = outputsValue tx.outputs := by
  have claim := solo.claim
  have bound := (chain.maxMintableAt (chain.height + 1)).toNat_lt
  have narrow : outputsValue tx.outputs < UInt64.size := by
    simp only [UInt64.size]
    omega
  refine ⟨UInt64.ofNat (outputsValue tx.outputs), ?_, UInt64.toNat_ofNat_of_lt' narrow⟩
  rw [sumOutputs_ok]
  exact ⟨solo.outputs, by simp [UInt64.toNat_ofNat_of_lt' narrow]⟩

theorem mintedOf_zero (total : UInt64) : mintedOf total 0 = total := by
  unfold mintedOf
  split
  · simp
  · rename_i small
    have zero : total.toNat = 0 := by
      rw [gt_iff_lt, UInt64.lt_iff_toNat_lt] at small
      simpa using small
    exact (UInt64.toNat_inj.mp (by simpa using zero)).symm

theorem solo_claim_valid (chain : Chain) (tx : Transaction) (solo : SoloCoinbase chain tx) :
    ∃ total, validateCoinbaseClaim chain (chain.height + 1) tx [] = .ok total ∧
      total.toNat = outputsValue tx.outputs := by
  obtain ⟨total, summed, exact⟩ := sumOutputs_claim "invalid coinbase output"
    "invalid coinbase output" "coinbase overflow" chain tx solo
  have claim := solo.claim
  have within := maxMintable_le_reward chain (chain.height + 1)
  refine ⟨total, ?_, exact⟩
  simp only [validateCoinbaseClaim, bind_ok, exists_unit, ensure_ok, addOr_ok, summed, sumFees,
    Except.ok.injEq, exists_eq_left', decide_eq_true_eq, pure_ok, mintedOf_zero,
    UInt64.le_iff_toNat_le]
  refine ⟨by simp [solo.form.transparent], by simp [solo.form.noInputs], ?_,
    chain.computeBlockReward (chain.height + 1), by simp, by omega, by omega, trivial⟩
  by_cases empty : tx.outputs = []
  · simp [solo.zeroReward empty]
  · simp [empty]

/-- A lone coinbase passes on its own, inside a block. -/
theorem solo_transaction_valid (chain : Chain) (tx : Transaction) (solo : SoloCoinbase chain tx)
    (inBlock : chain.applyingHeight ≠ 0) : validateTransaction P chain tx false = .ok () := by
  obtain ⟨total, summed, _⟩ := sumOutputs_claim "output recipient empty" "output amount zero"
    "outputs overflow" chain tx solo
  have stake := solo.form.noStake
  simp only [validateTransaction, bind_ok, exists_unit, shieldedBundle_ok, ensure_ok]
  refine ⟨none, .inl ⟨solo.form.transparent, rfl⟩, ?_, total, summed, ?_⟩
  · simp [solo.form.noInputs, inBlock]
  · simp only [solo.form.noInputs, List.isEmpty_nil, ↓reduceIte, validateCoinbase, bind_ok,
      exists_unit, ensure_ok, solo.form.noSigner, solo.form.noSignature, Bool.and_self, true_and,
      List.all_eq_true, decide_eq_true_eq]
    exact ⟨stake, by simp [inBlock]⟩

variable {chain : Chain}

theorem SoloCoinbase.entering {tx : Transaction} (solo : SoloCoinbase chain tx)
    (block : Block) : SoloCoinbase (chain.entering block) tx :=
  ⟨solo.form, solo.outputs, solo.claim, solo.zeroReward, solo.weight⟩

theorem solo_values_valid (chain created : Chain) (tx : Transaction) (total : UInt64)
    (solo : SoloCoinbase chain tx) (exact : total.toNat = outputsValue tx.outputs)
    (loop : each (createOutput tx (hashTransaction P tx) false) chain tx.outputs.zipIdx =
      (.ok (), created)) (height : UInt64) :
    ∃ snapshot, snapshotTransaction P height (total == 0) none
      ⟨chain.utxoSet, chain.addressIndex⟩ tx = .ok snapshot := by
  obtain ⟨snapshot, through⟩ := snapshotOutputs_of_created tx (hashTransaction P tx) false height
    chain created chain.utxoSet tx.outputs.zipIdx loop
  obtain ⟨sum, summed, _⟩ := sumOutputs_claim "invalid tx output" "invalid tx output"
    "block tx outputs overflow" chain tx solo
  refine ⟨snapshot, ?_⟩
  simp only [snapshotTransaction, bind_ok, exists_unit, ensure_ok, summed, Except.ok.injEq,
    exists_eq_left', solo.form.noInputs, solo.form.transparent, snapshotInputs, List.isEmpty_nil,
    Bool.not_true, Bool.false_and, Bool.not_false, Bool.false_eq_true, ↓reduceIte, true_and]
  refine ⟨?_, through⟩
  by_cases empty : tx.outputs = []
  · have zero : total = 0 := UInt64.toNat_inj.mp (by simp [exact, empty, outputsValue])
    simp [zero]
  · simp [empty]

/-- Before staking is active a block without votes and slashes passes its rules. -/
theorem staking_inactive (chain : Chain) (block : Block)
    (unstaked : block.header.height < chain.cfg.stakingActivationHeight)
    (noVotes : block.votes = []) (noSlashes : block.slashes = []) :
    validateBlockStaking P chain block = .ok () := by
  have inactive : chain.stakingActiveAt block.header.height = false := by
    have early := UInt64.lt_iff_toNat_lt.mp unstaked
    simp only [Chain.stakingActiveAt, decide_eq_false_iff_not, UInt64.le_iff_toNat_le]
    omega
  simp [validateBlockStaking, inactive, noVotes, noSlashes]

theorem solo_transactions_valid (chain created : Chain) (block : Block) (tx : Transaction)
    (solo : SoloCoinbase chain tx) (listed : block.transactions = [tx])
    (height : block.header.height = chain.height + 1)
    (weight : Wire.blockWeight P block ≤ chain.cfg.maxBlockWeight.toNat)
    (staking : validateBlockStaking P chain block = .ok ())
    (loop : each (createOutput tx (hashTransaction P tx) false) (chain.entering block)
      tx.outputs.zipIdx = (.ok (), created)) : validateBlockTransactions P chain block = .ok () := by
  obtain ⟨total, claim, exact⟩ := solo_claim_valid chain tx solo
  obtain ⟨snapshot, passed⟩ := solo_values_valid P (chain.entering block) created tx total
    (solo.entering block) exact loop block.header.height
  rw [entering_utxoSet, entering_addressIndex] at passed
  rw [← height] at claim
  unfold validateBlockTransactions
  simp only [listed, weight, decide_true, claim, shieldedPass, passed, staking, bind_ok,
    exists_unit, ensure_ok, Except.ok.injEq, exists_eq_left', List.zip_nil_left, checkAll,
    snapshotTransactions, signatureJobs, true_and, and_true, pqVerifyMessagesParallel,
    List.findIdx?_nil]
  exact ⟨snapshot, rfl⟩

/-- The outputs of a coinbase are created on the entered state as on the state
itself. -/
theorem solo_applied (chain created : Chain) (tx : Transaction) (solo : SoloCoinbase chain tx)
    (inBlock : chain.applyingHeight ≠ 0)
    (loop : each (createOutput tx (hashTransaction P tx) false) chain tx.outputs.zipIdx =
      (.ok (), created)) :
    each (applyNext P) chain [tx] = (.ok (), { created with
      seenTransactions := insert (hashTransaction P tx) created.seenTransactions }) := by
  have passes := solo_transaction_valid P chain tx solo inBlock
  have inputs : each spendInput (chain, false) tx.inputs = (.ok (), (chain, false)) := by
    rw [solo.form.noInputs]
    rfl
  have unsigned : created.recordSigner tx = created := by
    unfold Chain.recordSigner
    rw [solo.form.noInputs]
    rfl
  have step : applyNext P chain tx = (.ok (), { created with
      seenTransactions := insert (hashTransaction P tx) created.seenTransactions }) := by
    unfold applyNext
    rw [applyTransaction_of_parts P chain chain created false tx _ false passes inputs loop,
      unsigned]
    unfold finishTransaction
    rw [solo.form.transparent]
    rfl
  exact (each_cons_ok _ _ _ _ _).mpr ⟨_, step, rfl⟩

/-- The state after a lone coinbase, from the state its outputs left. -/
def soloState (created : Chain) (block : Block) (tx : Transaction) (total : UInt64) : Chain :=
  committed { created with
    seenTransactions := insert (hashTransaction P tx) created.seenTransactions } block total 0

/-- Any block that carries only a coinbase within the subsidy, with a good header
and no votes, is accepted when the outputs fit the index. -/
theorem solo_block_accepted (now : Time) (chain created : Chain) (block : Block) (tx : Transaction)
    (easy : EasyTip chain) (solo : SoloCoinbase chain tx) (listed : block.transactions = [tx])
    (noVotes : block.votes = []) (noSlashes : block.slashes = [])
    (height : block.header.height = chain.height + 1)
    (weight : Wire.blockWeight P block ≤ chain.cfg.maxBlockWeight.toNat)
    (header : validateBlockHeader P now chain block = .ok ())
    (loop : each (createOutput tx (hashTransaction P tx) false) (chain.entering block)
      tx.outputs.zipIdx = (.ok (), created)) :
    ∃ total, total.toNat = outputsValue tx.outputs ∧
      addBlock P now chain block = (.ok (), soloState P created block tx total) := by
  have staking : validateBlockStaking P chain block = .ok () :=
    staking_inactive P chain block (height ▸ easy.unstaked) noVotes noSlashes
  have transactions := solo_transactions_valid P chain created block tx solo listed height weight
    staking loop
  have valid : validateBlock P now chain block = .ok () := by
    simp only [validateBlock, bind_ok, exists_unit, ensure_ok, weight, decide_true, true_and]
    exact ⟨header, transactions⟩
  obtain ⟨total, claimed, exact⟩ := solo_claim_valid chain tx solo
  obtain ⟨fees, claim⟩ := validateCoinbaseClaim_ok chain _ tx [] total claimed
  have noFees : fees = 0 := UInt64.toNat_inj.mp (by simp [claim.feesTotal, feesValue])
  subst noFees
  refine ⟨total, exact, ?_⟩
  have inBlock : (chain.entering block).applyingHeight ≠ 0 := by
    rw [entering_applyingHeight, height]
    exact easy.ahead
  have applied := solo_applied P (chain.entering block) created tx (solo.entering block) inBlock loop
  exact addBlock_accepts P now chain _ block tx [] total 0 valid listed (height ▸ claim)
    (listed ▸ applied)

/-- Outputs that every balance has room for are created. -/
theorem createOutputs_succeed (tx : Transaction) (txid : Bytes) (unlocking : Bool) (chain : Chain)
    (placed : List (TxOutput × Nat))
    (room : ∀ address, (chain.balanceOf address).toNat +
      outputsValue (placed.map Prod.fst) < 2 ^ 64) :
    ∃ created, each (createOutput tx txid unlocking) chain placed = (.ok (), created) := by
  induction placed generalizing chain with
  | nil => exact ⟨chain, rfl⟩
  | cons output rest ih =>
    have fits : (chain.balanceOf output.1.recipient).toNat + output.1.amount.toNat < 2 ^ 64 := by
      have all := room output.1.recipient
      simp only [outputsValue, List.map_cons, List.sum_cons] at all
      omega
    obtain ⟨next, step⟩ : ∃ next, createOutput tx txid unlocking chain output = (.ok (), next) :=
      ⟨_, (createOutput_ok tx txid unlocking chain output _).mpr ⟨fits, rfl⟩⟩
    have credited : ∀ address, next.balanceOf address =
        if address = output.1.recipient then
          chain.balanceOf output.1.recipient + output.1.amount
        else chain.balanceOf address := by
      obtain ⟨_, rfl⟩ := (createOutput_ok tx txid unlocking chain output next).mp step
      exact fun address => balanceIn_insert _ _ _ _
    obtain ⟨created, later⟩ := ih next (by
      intro address
      have all := room address
      rw [credited address]
      simp only [outputsValue, List.map_cons, List.sum_cons] at all ⊢
      split
      · rename_i same
        subst same
        rw [UInt64.toNat_add, Nat.mod_eq_of_lt fits]
        omega
      · omega)
    exact ⟨created, (each_cons_ok _ _ _ _ _).mpr ⟨next, step, later⟩⟩

/-- A lone coinbase within the subsidy is accepted on an easy tip that has room for
it. -/
theorem coinbase_block_accepted (now : Time) (chain : Chain) (tx : Transaction)
    (easy : EasyTip chain) (solo : SoloCoinbase chain tx)
    (room : ∀ address, (chain.balanceOf address).toNat + outputsValue tx.outputs < 2 ^ 64) :
    ∃ created total, each (createOutput tx (hashTransaction P tx) false)
        (chain.entering (blockOn P chain [tx])) tx.outputs.zipIdx = (.ok (), created) ∧
      total.toNat = outputsValue tx.outputs ∧
      addBlock P now chain (blockOn P chain [tx]) =
        (.ok (), soloState P created (blockOn P chain [tx]) tx total) := by
  obtain ⟨created, loop⟩ := createOutputs_succeed tx (hashTransaction P tx) false
    (chain.entering (blockOn P chain [tx])) tx.outputs.zipIdx (by
      simpa [Chain.balanceOf] using room)
  have weight : Wire.blockWeight P (blockOn P chain [tx]) ≤ chain.cfg.maxBlockWeight.toNat := by
    have bound := blockOn_weight_le P chain [tx]
    have limit := solo.weight
    simp only [List.map_cons, List.map_nil, List.sum_cons, List.sum_nil, txWeight_eq] at bound
    omega
  obtain ⟨total, exact, accepted⟩ := solo_block_accepted P now chain created
    (blockOn P chain [tx]) tx easy solo rfl rfl rfl rfl weight
    (blockOn_header P now chain [tx] easy) loop
  exact ⟨created, total, loop, exact, accepted⟩

/-! ### The next tip -/

/-- With both bounds at the largest target, the legacy retarget stays there. -/
theorem easy_target (cfg : ChainConfig) (blocks : List Block) (target : UInt64)
    (minTarget : cfg.minDifficultyTarget = wordMax) (maxTarget : cfg.maxDifficultyTarget = wordMax)
    (early : (blocks.getLastD default).header.height + 1 < cfg.difficultyForkHeight)
    (nonempty : blocks ≠ []) : computeNextDifficultyTarget cfg blocks target = wordMax := by
  have capped : ∀ value : UInt64, min value wordMax = value := fun value =>
    if_pos (le_wordMax value)
  have raised : ∀ value : UInt64, max value wordMax = wordMax := fun value =>
    if_pos (le_wordMax value)
  unfold computeNextDifficultyTarget computeLegacyDifficultyTarget
  simp only [List.isEmpty_iff, nonempty, ↓reduceIte, early, minTarget, maxTarget, raised, capped,
    ite_self]

/-- The members of the state after a lone coinbase that the next block reads. -/
structure SoloResult (chain created : Chain) (block : Block) (total : UInt64) (reached : Chain) :
    Prop where
  cfg : reached.cfg = chain.cfg
  blocks : reached.blocks = chain.blocks ++ [block]
  utxoSet : reached.utxoSet = created.utxoSet
  addressIndex : reached.addressIndex = created.addressIndex
  emitted : reached.totalEmitted = chain.totalEmitted + total
  target : reached.difficultyTarget =
    computeNextDifficultyTarget chain.cfg (chain.blocks ++ [block]) chain.difficultyTarget
  idle : reached.applyingHeight = 0

theorem soloState_result (chain created : Chain) (block : Block) (tx : Transaction) (total : UInt64)
    (rest : SameRest (chain.entering block) created) (noSlashes : block.slashes = []) :
    SoloResult chain created block total (soloState P created block tx total) := by
  have cfg : created.cfg = chain.cfg := rest.frame.cfg
  have blocks : created.blocks = chain.blocks := rest.frame.blocks
  have emitted : created.totalEmitted = chain.totalEmitted := rest.frame.totalEmitted
  have target : created.difficultyTarget = chain.difficultyTarget := rest.frame.difficultyTarget
  unfold soloState committed slashed
  rw [noSlashes, mintedOf_zero]
  unfold Chain.extend
  constructor <;> simp only [List.foldl_nil, cfg, blocks, emitted, target]

theorem SoloResult.easy {created reached : Chain} {block : Block} {total : UInt64}
    (result : SoloResult chain created block total reached) (easy : EasyTip chain)
    (early : block.header.height + 1 < chain.cfg.difficultyForkHeight)
    (unstaked : block.header.height + 1 < chain.cfg.stakingActivationHeight)
    (ahead : block.header.height + 1 ≠ 0) : EasyTip reached := by
  have height : reached.height = block.header.height := by
    unfold Chain.height Chain.tip
    rw [result.blocks, List.getLastD_concat]
  refine ⟨result.idle, ?_, ?_, ?_, ?_, ?_, ?_⟩
  · rw [result.target]
    exact easy_target chain.cfg _ _ easy.minTarget easy.maxTarget (by
      rw [List.getLastD_concat]
      exact early) (by simp)
  · rw [result.cfg]
    exact easy.minTarget
  · rw [result.cfg]
    exact easy.maxTarget
  · rw [result.cfg, height]
    exact early
  · rw [result.cfg, height]
    exact unstaked
  · rw [height]
    exact ahead

/-! ### On the regression-test network -/

/-- The fresh chain of the regression-test network. -/
theorem regtest_easy : EasyTip (Chain.new P regtestChainConfig) where
  idle := rfl
  target := rfl
  minTarget := rfl
  maxTarget := rfl
  early := by
    show (0 : UInt64) + 1 < wordMax
    decide
  unstaked := by
    show (0 : UInt64) + 1 < wordMax
    decide
  ahead := by
    show (0 : UInt64) + 1 ≠ 0
    decide

/-- Any small coinbase of at most fifty coins is accepted first. -/
theorem regtest_accepts_first (now : Time) (tx : Transaction) (form : CoinbaseForm tx)
    (outputs : ∀ output ∈ tx.outputs, output.recipient ≠ [] ∧ output.amount ≠ 0)
    (claim : outputsValue tx.outputs ≤ 50) (small : (Wire.txBody tx).length ≤ 2000000) :
    ∃ created total, each (createOutput tx (hashTransaction P tx) false)
        ((Chain.new P regtestChainConfig).entering
          (blockOn P (Chain.new P regtestChainConfig) [tx])) tx.outputs.zipIdx = (.ok (), created) ∧
      total.toNat = outputsValue tx.outputs ∧
      addBlock P now (Chain.new P regtestChainConfig)
          (blockOn P (Chain.new P regtestChainConfig) [tx]) =
        (.ok (), soloState P created (blockOn P (Chain.new P regtestChainConfig) [tx]) tx total) := by
  have subsidy : ((Chain.new P regtestChainConfig).maxMintableAt
      ((Chain.new P regtestChainConfig).height + 1)).toNat = 50 := by
    show (maxMintableSubsidy (0 + 1) 0 50000000 50 210000 0).toNat = 50
    decide
  refine coinbase_block_accepted P now _ tx (regtest_easy P)
    ⟨form, outputs, by omega, fun _ => rfl, ?_⟩ ?_
  · show 322 + (Wire.txBody tx).length ≤ 2097152
    omega
  · intro address
    show 0 + outputsValue tx.outputs < 2 ^ 64
    omega

/-- A coinbase that pays fifty coins to one address. -/
def minerCoinbase : Transaction := coinbaseOf [⟨ascii "miner", 50⟩] 0

theorem minerCoinbase_form : CoinbaseForm minerCoinbase :=
  ⟨rfl, rfl, rfl, rfl, by decide⟩

/-- The entry and the balance that the coinbase of one output leaves. -/
theorem minerCoinbase_created (chain created : Chain)
    (loop : each (createOutput minerCoinbase (hashTransaction P minerCoinbase) false) chain
      minerCoinbase.outputs.zipIdx = (.ok (), created)) :
    created.utxoSet = chain.utxoSet.insert (outpointKey (hashTransaction P minerCoinbase) 0)
        ⟨ascii "miner", 50, false, 0, chain.height + 1⟩ ∧
      created.addressIndex = chain.addressIndex.insert (ascii "miner")
        (chain.balanceOf (ascii "miner") + 50) := by
  have listed : minerCoinbase.outputs.zipIdx = [(⟨ascii "miner", 50⟩, 0)] := rfl
  rw [listed] at loop
  obtain ⟨next, step, last⟩ := (each_cons_ok _ _ _ _ _).mp loop
  rw [each_nil_ok] at last
  subst last
  obtain ⟨_, reached⟩ := (createOutput_ok _ _ _ _ _ _).mp step
  rw [reached]
  exact ⟨rfl, rfl⟩

/-- The chain after the coinbase was mined once. -/
structure MinedOnce (first : Block) (chain : Chain) : Prop where
  reachable : Reachable P regtestChainConfig chain
  easy : EasyTip chain
  cfg : chain.cfg = regtestChainConfig
  height : chain.height = 1
  emitted : chain.totalEmitted = 50
  listed : first.transactions = [minerCoinbase]
  blocks : chain.blocks = [makeGenesis P regtestChainConfig wordMax, first]
  utxoSet : chain.utxoSet = AList.insert (outpointKey (hashTransaction P minerCoinbase) 0)
    ⟨ascii "miner", 50, false, 0, 1⟩ ∅
  addressIndex : chain.addressIndex = AList.insert (ascii "miner") 50 ∅

theorem coinbase_mined_once (now : Time) : ∃ first chain, MinedOnce P first chain := by
  obtain ⟨created, total, loop, exact, accepted⟩ := regtest_accepts_first P now minerCoinbase
    minerCoinbase_form (by decide) (by decide) (by decide)
  have rest := (createOutputs_ok _ _ _ _ _ _ (zipIdx_positions _) loop).rest
  have result := soloState_result P (Chain.new P regtestChainConfig) created _ minerCoinbase total
    rest rfl
  obtain ⟨utxoSet, index⟩ := minerCoinbase_created P _ created loop
  have easy := result.easy (regtest_easy P) (by show (0 : UInt64) + 1 + 1 < wordMax; decide)
    (by show (0 : UInt64) + 1 + 1 < wordMax; decide) (by show (0 : UInt64) + 1 + 1 ≠ 0; decide)
  have fifty : total = 50 := UInt64.toNat_inj.mp (by rw [exact]; decide)
  refine ⟨_, _, (Reachable.start P regtestChainConfig).step now _ _ accepted, easy, result.cfg, ?_,
    ?_, rfl, result.blocks, ?_, ?_⟩
  · unfold Chain.height Chain.tip
    rw [result.blocks, List.getLastD_concat]
    show (0 : UInt64) + 1 = 1
    decide
  · rw [result.emitted, fifty]
    show (0 : UInt64) + 50 = 50
    decide
  · rw [result.utxoSet, utxoSet]
    rfl
  · rw [result.addressIndex, index]
    rfl

/-- Whatever the hash functions are, the same coinbase can be mined twice in a row.
The second one writes its output over the first, and the index counts both. -/
theorem coinbase_mined_twice (now : Time) :
    ∃ first second chain height,
      Reachable P regtestChainConfig chain ∧
      first.transactions = [minerCoinbase] ∧ second.transactions = [minerCoinbase] ∧
      chain.blocks = [makeGenesis P regtestChainConfig wordMax, first, second] ∧
      chain.utxoSet =
        (AList.insert (outpointKey (hashTransaction P minerCoinbase) 0)
          ⟨ascii "miner", 50, false, 0, 1⟩ ∅).insert
          (outpointKey (hashTransaction P minerCoinbase) 0)
          ⟨ascii "miner", 50, false, 0, height⟩ ∧
      chain.balanceOf (ascii "miner") = 100 := by
  obtain ⟨first, middle, once⟩ := coinbase_mined_once P now
  have subsidy : (middle.maxMintableAt (middle.height + 1)).toNat = 50 := by
    unfold Chain.maxMintableAt
    rw [once.cfg, once.height, once.emitted]
    decide
  have solo : SoloCoinbase middle minerCoinbase :=
    ⟨minerCoinbase_form, by decide, by rw [subsidy]; decide, by simp [minerCoinbase, coinbaseOf],
      by rw [once.cfg]; decide⟩
  have balance : ∀ address, (middle.balanceOf address).toNat ≤ 50 := by
    intro address
    unfold Chain.balanceOf
    rw [once.addressIndex, balanceIn_insert]
    split
    · decide
    · simp [balanceIn]
  obtain ⟨created, total, loop, _, accepted⟩ := coinbase_block_accepted P now middle
    minerCoinbase once.easy solo (by
      intro address
      have small := balance address
      have fifty : outputsValue minerCoinbase.outputs = 50 := by decide
      omega)
  have rest := (createOutputs_ok _ _ _ _ _ _ (zipIdx_positions _) loop).rest
  have result := soloState_result P middle created _ minerCoinbase total rest rfl
  obtain ⟨utxoSet, index⟩ := minerCoinbase_created P _ created loop
  refine ⟨first, blockOn P middle [minerCoinbase], _,
    (middle.entering (blockOn P middle [minerCoinbase])).height + 1, once.reachable.step now _ _ accepted, once.listed,
    rfl, ?_, ?_, ?_⟩
  · rw [result.blocks, once.blocks]
    rfl
  · rw [result.utxoSet, utxoSet, entering_utxoSet, once.utxoSet]
  · unfold Chain.balanceOf
    rw [result.addressIndex, index, balanceIn_insert, if_pos rfl]
    unfold Chain.balanceOf
    rw [entering_addressIndex, once.addressIndex, balanceIn_insert, if_pos rfl]
    decide

end Addition
