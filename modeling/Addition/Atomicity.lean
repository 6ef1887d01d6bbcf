import Addition.Blocks

/-!
# Blocks apply whole or not at all

Applying a transaction, accepted or refused, leaves eight members of the chain
alone; a roll-back restores the others. The refusals of `add_block` that come
after the transactions were applied restore nothing, so atomicity rests on their
being unreachable: the fee and coinbase sums and the emission test repeat, on
unchanged operands, tests that validation has passed. A refused reorganization
restores thirteen members over a chain whose remaining two are as before.
-/

namespace Addition

open ByteStrings Checked FiniteTables

variable (P : Primitives)

/-- The members that no transaction changes. -/
structure SameFrame (chain chain' : Chain) : Prop where
  cfg : chain'.cfg = chain.cfg
  blocks : chain'.blocks = chain.blocks
  difficultyTarget : chain'.difficultyTarget = chain.difficultyTarget
  totalEmitted : chain'.totalEmitted = chain.totalEmitted
  totalFeesLastBlock : chain'.totalFeesLastBlock = chain.totalFeesLastBlock
  cumulativeWork : chain'.cumulativeWork = chain.cumulativeWork
  totalSlashed : chain'.totalSlashed = chain.totalSlashed
  applyingHeight : chain'.applyingHeight = chain.applyingHeight

theorem SameFrame.refl (chain : Chain) : SameFrame chain chain :=
  ⟨rfl, rfl, rfl, rfl, rfl, rfl, rfl, rfl⟩

theorem SameFrame.trans {first second third : Chain} (left : SameFrame first second)
    (right : SameFrame second third) : SameFrame first third where
  cfg := right.cfg.trans left.cfg
  blocks := right.blocks.trans left.blocks
  difficultyTarget := right.difficultyTarget.trans left.difficultyTarget
  totalEmitted := right.totalEmitted.trans left.totalEmitted
  totalFeesLastBlock := right.totalFeesLastBlock.trans left.totalFeesLastBlock
  cumulativeWork := right.cumulativeWork.trans left.cumulativeWork
  totalSlashed := right.totalSlashed.trans left.totalSlashed
  applyingHeight := right.applyingHeight.trans left.applyingHeight

/-- Writing the other seven members keeps the frame. -/
theorem SameFrame.update (chain : Chain) (utxoSet : Table Bytes Utxo)
    (addressIndex signerLastNonce : Table Bytes UInt64) (seenTransactions : Finset Bytes)
    (pubkeyRegistry : Table Bytes Bytes) (tickets : Table Bytes StakeTicket)
    (shielded : Shielded.State) :
    SameFrame chain { chain with
      utxoSet := utxoSet
      addressIndex := addressIndex
      signerLastNonce := signerLastNonce
      seenTransactions := seenTransactions
      pubkeyRegistry := pubkeyRegistry
      tickets := tickets
      shielded := shielded } :=
  ⟨rfl, rfl, rfl, rfl, rfl, rfl, rfl, rfl⟩

/-! ### What a transaction can change -/

theorem spendInput_frame (state : Chain × Bool) (input : TxInput) :
    SameFrame state.1 (spendInput state input).2.1 := by
  unfold spendInput
  cases unspentAt state.1.utxoSet input.key with
  | none => exact SameFrame.refl _
  | some utxo => exact SameFrame.update _ _ _ _ _ _ _ _

theorem createOutput_frame (tx : Transaction) (txid : Bytes) (unlocking : Bool) (chain : Chain)
    (placed : TxOutput × Nat) :
    SameFrame chain (createOutput tx txid unlocking chain placed).2 := by
  simp only [createOutput]
  split
  · exact SameFrame.update _ _ _ _ _ _ _ _
  · exact SameFrame.update _ _ _ _ _ _ _ _

theorem recordSigner_frame (chain : Chain) (tx : Transaction) :
    SameFrame chain (chain.recordSigner tx) := by
  unfold Chain.recordSigner
  split
  · exact SameFrame.refl _
  · exact SameFrame.update _ _ _ _ _ _ _ _

theorem finishTransaction_frame (chain : Chain) (tx : Transaction) (txid : Bytes) :
    SameFrame chain (finishTransaction P chain tx txid).2 := by
  unfold finishTransaction
  split
  · exact SameFrame.update _ _ _ _ _ _ _ _
  · cases Shielded.fromTxField tx.shielded with
    | error refusal => exact SameFrame.refl _
    | ok bundle => exact SameFrame.update _ _ _ _ _ _ _ _

/-- Applying a transaction keeps the frame, also when it is refused halfway. -/
theorem applyTransaction_frame (chain : Chain) (tx : Transaction) (txid : Bytes)
    (checkSignature : Bool) :
    SameFrame chain (applyTransaction P chain tx txid checkSignature).2 := by
  unfold applyTransaction
  refine andThen_leaves _ _ _ (SameFrame chain) (SameFrame.refl chain) ?_
  have spent : SameFrame chain (each spendInput (chain, false) tx.inputs).2.1 :=
    each_preserves spendInput (fun state => SameFrame chain state.1)
      (fun state input frame => frame.trans (spendInput_frame state input)) tx.inputs
      (chain, false) (SameFrame.refl chain)
  refine andThen_leaves _ _ _ (SameFrame chain) spent ?_
  generalize (each spendInput (chain, false) tx.inputs).2 = reached at spent
  have created : SameFrame chain
      (each (createOutput tx txid reached.2) reached.1 tx.outputs.zipIdx).2 :=
    each_preserves (createOutput tx txid reached.2) (SameFrame chain)
      (fun state placed frame => frame.trans (createOutput_frame tx txid reached.2 state placed))
      tx.outputs.zipIdx reached.1 spent
  refine andThen_leaves _ _ _ (SameFrame chain) created ?_
  generalize (each (createOutput tx txid reached.2) reached.1 tx.outputs.zipIdx).2 = made at created
  exact (created.trans (recordSigner_frame made tx)).trans
    (finishTransaction_frame P (made.recordSigner tx) tx txid)

theorem applyLoop_frame (transactions : List Transaction) (chain : Chain) :
    SameFrame chain (each (applyNext P) chain transactions).2 :=
  each_preserves (applyNext P) (SameFrame chain)
    (fun state tx frame => frame.trans (applyTransaction_frame P state tx _ false))
    transactions chain (SameFrame.refl chain)

/-- Burning tickets changes neither the configuration, the blocks nor the emission. -/
theorem slashTicket_frame (chain : Chain) (slash : SlashEvidence) :
    (chain.slashTicket slash).cfg = chain.cfg ∧
      (chain.slashTicket slash).blocks = chain.blocks ∧
      (chain.slashTicket slash).totalEmitted = chain.totalEmitted := by
  unfold Chain.slashTicket
  split
  · exact ⟨rfl, rfl, rfl⟩
  · exact ⟨rfl, rfl, rfl⟩
  · exact ⟨rfl, rfl, rfl⟩

theorem slashTickets_frame (slashes : List SlashEvidence) (chain : Chain) :
    (slashes.foldl Chain.slashTicket chain).cfg = chain.cfg ∧
      (slashes.foldl Chain.slashTicket chain).blocks = chain.blocks ∧
      (slashes.foldl Chain.slashTicket chain).totalEmitted = chain.totalEmitted := by
  induction slashes generalizing chain with
  | nil => exact ⟨rfl, rfl, rfl⟩
  | cons slash rest ih =>
    obtain ⟨cfg, blocks, emitted⟩ := ih (chain.slashTicket slash)
    obtain ⟨cfg', blocks', emitted'⟩ := slashTicket_frame chain slash
    exact ⟨cfg.trans cfg', blocks.trans blocks', emitted.trans emitted'⟩

/-! ### What validation has already established -/

/-- The exact sum of the fees of a list of transactions. -/
def feesValue (transactions : List Transaction) : Nat :=
  (transactions.map (fun tx => tx.fee.toNat)).sum

/-- The sum of the fees did not wrap. -/
theorem sumFees_ok (fees result : UInt64) (transactions : List Transaction)
    (summed : sumFees fees transactions = .ok result) :
    (∀ tx ∈ transactions, tx.inputs ≠ [] ∨ tx.shielded ≠ []) ∧
      result.toNat = fees.toNat + feesValue transactions := by
  induction transactions generalizing fees with
  | nil =>
    simp only [sumFees, Except.ok.injEq] at summed
    simp [feesValue, summed]
  | cons tx rest ih =>
    simp only [sumFees, bind_ok, exists_unit, ensure_ok, addOr_ok] at summed
    obtain ⟨funded, next, added, later⟩ := summed
    obtain ⟨others, exact⟩ := ih next later
    have first : tx.inputs ≠ [] ∨ tx.shielded ≠ [] := by
      simpa [Classical.not_and_iff_not_or_not] using funded
    refine ⟨?_, ?_⟩
    · simpa using ⟨first, others⟩
    · simp only [feesValue, List.map_cons, List.sum_cons] at exact ⊢
      omega

/-- What an accepted coinbase claim says, over exact integers. -/
structure CoinbaseClaim (chain : Chain) (height : UInt64) (coinbase : Transaction)
    (others : List Transaction) (coinbaseTotal fees : UInt64) : Prop where
  transparent : coinbase.shielded = []
  noInputs : coinbase.inputs = []
  outputs : ∀ output ∈ coinbase.outputs, output.recipient ≠ [] ∧ output.amount ≠ 0
  total : coinbaseTotal.toNat = outputsValue coinbase.outputs
  funded : ∀ tx ∈ others, tx.inputs ≠ [] ∨ tx.shielded ≠ []
  feesTotal : fees.toNat = feesValue others
  reward : (chain.computeBlockReward height).toNat + fees.toNat < 2 ^ 64
  minted : (mintedOf coinbaseTotal fees).toNat ≤ (chain.maxMintableAt height).toNat

/-- The coinbase of a valid block claims what it may. -/
theorem validateCoinbaseClaim_ok (chain : Chain) (height : UInt64) (coinbase : Transaction)
    (others : List Transaction) (coinbaseTotal : UInt64)
    (valid : validateCoinbaseClaim chain height coinbase others = .ok coinbaseTotal) :
    ∃ fees, CoinbaseClaim chain height coinbase others coinbaseTotal fees := by
  simp only [validateCoinbaseClaim, bind_ok, exists_unit, ensure_ok, addOr_ok, sumOutputs_ok,
    decide_eq_true_eq, List.isEmpty_iff, pure_ok] at valid
  obtain ⟨transparent, noInputs, _, total, ⟨outputs, exact⟩, fees, summed, allowed, reward, _,
    minted, rfl⟩ := valid
  obtain ⟨funded, feesExact⟩ := sumFees_ok 0 fees others summed
  have allowedBound := allowed.toNat_lt
  refine ⟨fees, transparent, noInputs, outputs, ?_, funded, ?_, ?_, UInt64.le_iff_toNat_le.mp minted⟩
  · simpa using exact
  · simpa using feesExact
  · omega

/-- What validation of a block's transactions has found, part by part. -/
structure ValidTransactions (chain : Chain) (block : Block) (coinbase : Transaction)
    (others : List Transaction) (coinbaseTotal fees : UInt64)
    (bundles : List (Option Shielded.Bundle)) (jobs : List PqVerifyItem) : Prop where
  transactions : block.transactions = coinbase :: others
  weight : Wire.blockWeight P block ≤ chain.cfg.maxBlockWeight.toNat
  claim : CoinbaseClaim chain block.header.height coinbase others coinbaseTotal fees
  shielded : shieldedPass P chain ∅ ∅ others = .ok bundles
  proofs : ∀ job ∈ others.zip bundles, checkProof P job = .ok ()
  listed : signatureJobs P chain.pubkeyRegistry ∅ others = .ok jobs
  signatures : pqVerifyMessagesParallel P jobs = .ok ()
  staking : validateBlockStaking P chain block = .ok ()

/-- What the transactions of a valid block meet. -/
theorem validateBlockTransactions_ok (chain : Chain) (block : Block)
    (valid : validateBlockTransactions P chain block = .ok ()) :
    ∃ coinbase others coinbaseTotal fees bundles jobs,
      ValidTransactions P chain block coinbase others coinbaseTotal fees bundles jobs := by
  unfold validateBlockTransactions at valid
  cases transactions : block.transactions with
  | nil => simp [transactions] at valid
  | cons coinbase others =>
    simp only [transactions, bind_ok, exists_unit, ensure_ok, decide_eq_true_eq, checkAll_ok] at valid
    obtain ⟨weight, coinbaseTotal, claim, bundles, shielded, proofs, first, _, last, _, jobs, listed,
      signatures, staking⟩ := valid
    obtain ⟨fees, claim⟩ := validateCoinbaseClaim_ok chain _ coinbase others coinbaseTotal claim
    exact ⟨coinbase, others, coinbaseTotal, fees, bundles, jobs, transactions, weight, claim,
      shielded, proofs, listed, signatures, staking⟩

/-! ### Accepted blocks -/

/-- The state after the slashes of a block whose transactions left a state. -/
def slashed (applied : Chain) (block : Block) (fees : UInt64) : Chain :=
  block.slashes.foldl Chain.slashTicket { applied with totalFeesLastBlock := fees }

/-- The state that an accepted block leaves, from the state its transactions left. -/
def committed (applied : Chain) (block : Block) (coinbaseTotal fees : UInt64) : Chain :=
  { (slashed applied block fees).extend block (mintedOf coinbaseTotal fees) with
    applyingHeight := 0 }

/-- The state on which a block's transactions are applied. -/
def Chain.entering (chain : Chain) (block : Block) : Chain :=
  { chain with applyingHeight := block.header.height }

@[simp] theorem entering_utxoSet (chain : Chain) (block : Block) :
    (chain.entering block).utxoSet = chain.utxoSet := rfl

@[simp] theorem entering_addressIndex (chain : Chain) (block : Block) :
    (chain.entering block).addressIndex = chain.addressIndex := rfl

@[simp] theorem entering_applyingHeight (chain : Chain) (block : Block) :
    (chain.entering block).applyingHeight = block.header.height := rfl

/-- Everything an accepted block went through. -/
structure AcceptedBlock (now : Time) (chain : Chain) (block : Block) (coinbase : Transaction)
    (others : List Transaction) (coinbaseTotal fees : UInt64)
    (bundles : List (Option Shielded.Bundle)) (jobs : List PqVerifyItem) (applied : Chain) :
    Prop where
  header : validateBlockHeader P now chain block = .ok ()
  valid : ValidTransactions P chain block coinbase others coinbaseTotal fees bundles jobs
  applied : each (applyNext P) (chain.entering block) block.transactions = (.ok (), applied)

/-- The sums and the emission test after the application succeed on a validated
block, with the values validation computed. -/
theorem commitBlock_valid (chain applied : Chain) (block : Block) (coinbase : Transaction)
    (others : List Transaction) (coinbaseTotal fees : UInt64)
    (transactions : block.transactions = coinbase :: others)
    (claim : CoinbaseClaim chain block.header.height coinbase others coinbaseTotal fees)
    (cfg : applied.cfg = chain.cfg) (emitted : applied.totalEmitted = chain.totalEmitted) :
    sumOr "fees overflow" 0 ((block.transactions.drop 1).map Transaction.fee) = .ok fees ∧
      ∃ reached,
        commitBlock (block.slashes.foldl Chain.slashTicket
          { applied with totalFeesLastBlock := fees }) block fees = (.ok (), reached) ∧
        { reached with applyingHeight := 0 } = committed applied block coinbaseTotal fees := by
  have feesSum : sumOr "fees overflow" 0 ((block.transactions.drop 1).map Transaction.fee) =
      .ok fees := by
    rw [sumOr_ok, transactions, claim.feesTotal]
    simp [feesValue, Function.comp_def]
  have coinbaseSum : sumOr "coinbase overflow" 0
      ((block.transactions.headD ⟨[], [], [], [], [], 0, 0, []⟩).outputs.map TxOutput.amount) =
        .ok coinbaseTotal := by
    rw [sumOr_ok, transactions, claim.total]
    simp [outputsValue, Function.comp_def]
  refine ⟨feesSum, ?_⟩
  obtain ⟨slashCfg, _, slashEmitted⟩ :=
    slashTickets_frame block.slashes { applied with totalFeesLastBlock := fees }
  -- the bound reads only the configuration and the emission, which are those of validation
  have mintable : (block.slashes.foldl Chain.slashTicket
      { applied with totalFeesLastBlock := fees }).maxMintableAt block.header.height =
        chain.maxMintableAt block.header.height := by
    unfold Chain.maxMintableAt
    rw [slashCfg, slashEmitted, cfg, emitted]
  have within : ¬ mintedOf coinbaseTotal fees > chain.maxMintableAt block.header.height := by
    have bound := claim.minted
    simp only [gt_iff_lt, UInt64.lt_iff_toNat_lt]
    omega
  simp only [commitBlock, coinbaseSum, mintable, within, ↓reduceIte, Prod.mk.injEq, true_and,
    exists_eq_left']
  rfl

/-- A validated block whose transactions apply is accepted. -/
theorem addBlock_accepts (now : Time) (chain applied : Chain) (block : Block)
    (coinbase : Transaction) (others : List Transaction) (coinbaseTotal fees : UInt64)
    (valid : validateBlock P now chain block = .ok ())
    (transactions : block.transactions = coinbase :: others)
    (claim : CoinbaseClaim chain block.header.height coinbase others coinbaseTotal fees)
    (loop : each (applyNext P) (chain.entering block) block.transactions = (.ok (), applied)) :
    addBlock P now chain block = (.ok (), committed applied block coinbaseTotal fees) := by
  have frame := applyLoop_frame P block.transactions (chain.entering block)
  rw [loop] at frame
  obtain ⟨feesSum, final, commit, settled⟩ := commitBlock_valid chain applied block coinbase
    others coinbaseTotal fees transactions claim frame.cfg frame.totalEmitted
  unfold addBlock applyBlock
  rw [show ({ chain with applyingHeight := block.header.height } : Chain) =
    chain.entering block from rfl]
  simp only [valid, loop, feesSum, commit, settled]

/-- A refused block leaves the chain as it was, except that the applying height
is zero; an accepted one passed every check and leaves the committed state. -/
theorem addBlock_cases (now : Time) (chain : Chain) (block : Block) :
    (∃ refusal, addBlock P now chain block = (.error refusal, chain)) ∨
    (∃ refusal, addBlock P now chain block =
      (.error refusal, { chain with applyingHeight := 0 })) ∨
    ∃ coinbase others coinbaseTotal fees bundles jobs applied,
      AcceptedBlock P now chain block coinbase others coinbaseTotal fees bundles jobs applied ∧
      addBlock P now chain block = (.ok (), committed applied block coinbaseTotal fees) := by
  cases validated : validateBlock P now chain block with
  | error refusal =>
    unfold addBlock
    exact .inl ⟨refusal, by rw [validated]⟩
  | ok _ =>
    right
    have parts := validated
    simp only [validateBlock, bind_ok, exists_unit, ensure_ok] at parts
    obtain ⟨_, header, transactionsValid⟩ := parts
    obtain ⟨coinbase, others, coinbaseTotal, fees, bundles, jobs, valid⟩ :=
      validateBlockTransactions_ok P chain block transactionsValid
    have frame := applyLoop_frame P block.transactions (chain.entering block)
    cases loop : each (applyNext P) (chain.entering block) block.transactions with
    | mk verdict reached =>
      rw [loop] at frame
      cases verdict with
      | error refusal =>
        refine .inl ⟨refusal, ?_⟩
        have sameBlocks : reached.blocks = chain.blocks := frame.blocks
        have sameCfg : reached.cfg = chain.cfg := frame.cfg
        unfold addBlock applyBlock
        rw [show ({ chain with applyingHeight := block.header.height } : Chain) =
          chain.entering block from rfl]
        simp [validated, loop, Chain.rollBack, sameBlocks, sameCfg]
      | ok _ =>
        right
        exact ⟨coinbase, others, coinbaseTotal, fees, bundles, jobs, reached,
          ⟨header, valid, loop⟩, addBlock_accepts P now chain reached block coinbase others
            coinbaseTotal fees validated valid.transactions valid.claim loop⟩

/-- What an accepted block went through. -/
theorem addBlock_ok (now : Time) (chain : Chain) (block : Block) (reached : Chain)
    (accepted : addBlock P now chain block = (.ok (), reached)) :
    ∃ coinbase others coinbaseTotal fees bundles jobs applied,
      AcceptedBlock P now chain block coinbase others coinbaseTotal fees bundles jobs applied ∧
      reached = committed applied block coinbaseTotal fees := by
  rcases addBlock_cases P now chain block with ⟨refusal, refused⟩ | ⟨refusal, refused⟩ | passed
  · simp [refused] at accepted
  · simp [refused] at accepted
  · obtain ⟨coinbase, others, coinbaseTotal, fees, bundles, jobs, applied, went, settled⟩ := passed
    rw [settled] at accepted
    exact ⟨coinbase, others, coinbaseTotal, fees, bundles, jobs, applied, went,
      (Prod.mk.inj accepted).2.symm⟩

/-- Between blocks the applying height is zero, and then a refused block leaves
the whole state as it was. -/
theorem addBlock_refused (now : Time) (chain : Chain) (block : Block) (refusal : String)
    (reached : Chain) (idle : chain.applyingHeight = 0)
    (refused : addBlock P now chain block = (.error refusal, reached)) : reached = chain := by
  have settled : ({ chain with applyingHeight := 0 } : Chain) = chain := by
    rw [← idle]
  rcases addBlock_cases P now chain block with ⟨_, same⟩ | ⟨_, same⟩ | passed
  · rw [same] at refused
    exact (Prod.mk.inj refused).2.symm
  · rw [same, settled] at refused
    exact (Prod.mk.inj refused).2.symm
  · obtain ⟨_, _, _, _, _, _, _, _, accepted⟩ := passed
    simp [accepted] at refused

/-- After any call the applying height is zero and the configuration is kept. -/
theorem addBlock_idle (now : Time) (chain : Chain) (block : Block)
    (idle : chain.applyingHeight = 0) :
    (addBlock P now chain block).2.applyingHeight = 0 ∧
      (addBlock P now chain block).2.cfg = chain.cfg := by
  rcases addBlock_cases P now chain block with ⟨_, same⟩ | ⟨_, same⟩ | passed
  · rw [same]
    exact ⟨idle, rfl⟩
  · rw [same]
    exact ⟨rfl, rfl⟩
  · obtain ⟨_, _, _, fees, _, _, applied, went, accepted⟩ := passed
    rw [accepted]
    have frame := applyLoop_frame P block.transactions (chain.entering block)
    rw [went.applied] at frame
    refine ⟨rfl, ?_⟩
    have slashed := (slashTickets_frame block.slashes { applied with totalFeesLastBlock := fees }).1
    exact slashed.trans frame.cfg

/-! ### Reorganizations -/

theorem replay_idle (clock : Nat → Time) (position : Nat) (chain : Chain) (blocks : List Block)
    (idle : chain.applyingHeight = 0) :
    (replay P clock position chain blocks).2.applyingHeight = 0 ∧
      (replay P clock position chain blocks).2.cfg = chain.cfg := by
  induction blocks generalizing position chain with
  | nil => exact ⟨idle, rfl⟩
  | cons block rest ih =>
    have step := addBlock_idle P (clock position) chain block idle
    unfold replay
    cases outcome : addBlock P (clock position) chain block with
    | mk verdict reached =>
      rw [outcome] at step
      cases verdict with
      | error refusal => exact step
      | ok _ =>
        obtain ⟨zero, cfg⟩ := ih (position + 1) reached step.1
        exact ⟨zero, cfg.trans step.2⟩

/-- Restoring over a chain with the same configuration gives the old chain back. -/
theorem restore_eq (reached old : Chain) (cfg : reached.cfg = old.cfg)
    (height : reached.applyingHeight = old.applyingHeight) : reached.restore old = old := by
  unfold Chain.restore
  rw [cfg, height]

theorem replaceWithChain_refused (clock : Nat → Time) (chain : Chain) (candidate : List Block)
    (refusal : String) (reached : Chain) (idle : chain.applyingHeight = 0)
    (refused : replaceWithChain P clock chain candidate = (.error refusal, reached)) :
    reached = chain := by
  unfold replaceWithChain at refused
  cases candidate with
  | nil => exact (Prod.mk.inj refused).2.symm
  | cons first rest =>
    dsimp only at refused
    split at refused
    · exact (Prod.mk.inj refused).2.symm
    · have replayed := replay_idle P clock 1 (chain.reset P) rest rfl
      cases outcome : replay P clock 1 (chain.reset P) rest with
      | mk verdict reached' =>
        rw [outcome] at replayed
        have restored : reached'.restore chain = chain :=
          restore_eq reached' chain replayed.2 (replayed.1.trans idle.symm)
        cases verdict with
        | error _ =>
          rw [outcome] at refused
          exact (Prod.mk.inj refused).2.symm.trans restored
        | ok _ =>
          simp only [outcome] at refused
          split at refused
          · exact (Prod.mk.inj refused).2.symm.trans restored
          · simp at refused

end Addition
