import Addition.Atomicity

/-!
# What an applied transaction does

Inversions of validation and application. A transaction passes in one of three
forms: as a coinbase, as a fully shielded transaction, or as a spend of outputs
by a signer or by scripts. Application spends every input, creates every output,
records the signer, and updates the pool; each part is described by its effect
on single table entries, so that an invariant is checked part by part.
-/

namespace Addition

open ByteStrings Checked FiniteTables

variable (P : Primitives)

/-! ### The three forms of a valid transaction -/

/-- The bundle a transaction carries, if its shielded field decodes. -/
def bundleOf (tx : Transaction) : Option Shielded.Bundle := (Shielded.fromTxField tx.shielded).toOption

/-- The public value a transaction moves into the pool. -/
def vpubInOf (tx : Transaction) : Nat :=
  ((bundleOf tx).map (fun bundle => bundle.vpubIn.toNat)).getD 0

/-- The public value a transaction takes out of the pool. -/
def vpubOutOf (tx : Transaction) : Nat :=
  ((bundleOf tx).map (fun bundle => bundle.vpubOut.toNat)).getD 0

theorem bundleOf_transparent (tx : Transaction) (transparent : tx.shielded = []) :
    bundleOf tx = none := by
  simp [bundleOf, transparent, Shielded.fromTxField, ensure, Except.toOption, bind, Except.bind]

theorem bundleOf_decoded (tx : Transaction) (bundle : Shielded.Bundle)
    (decoded : Shielded.fromTxField tx.shielded = .ok bundle) : bundleOf tx = some bundle := by
  simp [bundleOf, decoded, Except.toOption]

/-- A transparent transaction without inputs. -/
structure CoinbaseForm (tx : Transaction) : Prop where
  transparent : tx.shielded = []
  noInputs : tx.inputs = []
  noSigner : tx.signer = []
  noSignature : tx.signature = []
  noStake : ∀ output ∈ tx.outputs, output.recipient ≠ kStakeAddress

/-- The checks every shielded transaction has passed against a pool. -/
structure ShieldedForm (chain : Chain) (tx : Transaction) (bundle : Shielded.Bundle) : Prop where
  carries : tx.shielded ≠ []
  decoded : Shielded.fromTxField tx.shielded = .ok bundle
  checked : chain.shielded.check bundle ∅ = .ok ()

/-- A shielded transaction without inputs. -/
structure FullyShieldedForm (chain : Chain) (tx : Transaction) (bundle : Shielded.Bundle) :
    Prop where
  shielded : ShieldedForm chain tx bundle
  noInputs : tx.inputs = []
  noSigner : tx.signer = []
  noSignature : tx.signature = []
  noPubkey : tx.signerPubkey = []
  spendsNote : bundle.nullifiers ≠ []
  noVpubIn : bundle.vpubIn = 0
  balance : bundle.vpubOut.toNat = outputsValue tx.outputs + tx.fee.toNat

/-- A transaction with inputs. -/
structure SpendForm (chain : Chain) (tx : Transaction) (inputsTotal : UInt64) : Prop where
  hasInputs : tx.inputs ≠ []
  shielded : tx.shielded = [] ∨ ∃ bundle, ShieldedForm chain tx bundle
  authority : validateAuthority P chain tx false = .ok ()
  summed : sumInputs chain ∅ 0 tx.inputs = .ok inputsTotal
  stake : ∀ output ∈ tx.outputs, checkStakeOutput chain (chain.spendsTicket tx) output = .ok ()
  balance : outputsValue tx.outputs + tx.fee.toNat + vpubInOf tx ≤ inputsTotal.toNat + vpubOutOf tx

/-- What a shielded part has to meet. -/
theorem validateShieldedPart_ok (chain : Chain) (tx : Transaction) (pendingNfs : Finset Bytes)
    (checkProof : Bool) (bundle : Shielded.Bundle) :
    validateShieldedPart P chain tx pendingNfs checkProof = .ok bundle ↔
      chain.cfg.shieldedEnabled = true ∧ Shielded.fromTxField tx.shielded = .ok bundle ∧
      (tx.inputs = [] → tx.signer = [] ∧ tx.signature = [] ∧ tx.signerPubkey = [] ∧
        bundle.vpubIn = 0 ∧ bundle.nullifiers ≠ []) ∧
      chain.shielded.check bundle pendingNfs = .ok () ∧
      (checkProof = true → Shielded.verifyBundleProof P tx bundle = .ok ()) := by
  simp only [validateShieldedPart, checkLoneBundle, bind_ok, exists_unit, ensure_ok, onlyIf_ok,
    pure_ok, List.isEmpty_iff, Bool.and_eq_true, beq_iff_eq, Bool.not_eq_true',
    List.isEmpty_eq_false_iff, and_assoc, ne_eq]
  constructor
  · rintro ⟨enabled, decodedBundle, decoded, lone, checked, proof, rfl⟩
    exact ⟨enabled, decoded, lone, checked, proof⟩
  · rintro ⟨enabled, decoded, lone, checked, proof⟩
    exact ⟨enabled, bundle, decoded, lone, checked, proof, rfl⟩

/-- The bundle of a transaction that passed its shielded checks. -/
theorem shieldedBundle_ok (chain : Chain) (tx : Transaction) (checkProof : Bool)
    (bundle : Option Shielded.Bundle) :
    shieldedBundle P chain tx checkProof = .ok bundle ↔
      (tx.shielded = [] ∧ bundle = none) ∨
        (tx.shielded ≠ [] ∧ ∃ decoded, bundle = some decoded ∧
          validateShieldedPart P chain tx ∅ checkProof = .ok decoded) := by
  unfold shieldedBundle
  by_cases transparent : tx.shielded = []
  · simp [transparent, eq_comm]
  · simp only [List.isEmpty_iff, transparent, ↓reduceIte, bind_ok, pure_ok, false_and, false_or,
      not_false_eq_true, true_and, ne_eq]
    constructor
    · rintro ⟨decoded, passed, rfl⟩
      exact ⟨decoded, rfl, passed⟩
    · rintro ⟨decoded, rfl, passed⟩
      exact ⟨decoded, passed, rfl⟩

/-- The value rule of a transaction with inputs, over exact integers. -/
theorem validateBalance_ok (tx : Transaction) (bundle : Option Shielded.Bundle)
    (inputsTotal outputsTotal : UInt64) (same : bundle = bundleOf tx)
    (valid : validateBalance tx bundle inputsTotal outputsTotal = .ok ()) :
    outputsTotal.toNat + tx.fee.toNat + vpubInOf tx ≤ inputsTotal.toNat + vpubOutOf tx := by
  simp only [validateBalance, bind_ok, addOr_ok] at valid
  obtain ⟨spent, exact, rule⟩ := valid
  cases bundle with
  | none =>
    simp only [ensure_ok, Bool.not_eq_true', decide_eq_false_iff_not, UInt64.lt_iff_toNat_lt] at rule
    simp only [vpubInOf, vpubOutOf, ← same, Option.map_none, Option.getD_none]
    omega
  | some bundle =>
    simp only [ensure_ok, decide_eq_true_eq] at rule
    simp only [vpubInOf, vpubOutOf, ← same, Option.map_some, Option.getD_some]
    omega

/-- A transaction that passes has named, positive outputs, and one of three
forms. -/
theorem validateTransaction_forms (chain : Chain) (tx : Transaction)
    (valid : validateTransaction P chain tx false = .ok ()) :
    (∀ output ∈ tx.outputs, output.recipient ≠ [] ∧ output.amount ≠ 0) ∧
      (CoinbaseForm tx ∨ (∃ bundle, FullyShieldedForm chain tx bundle) ∨
        ∃ inputsTotal, SpendForm P chain tx inputsTotal) := by
  simp only [validateTransaction, bind_ok, exists_unit, sumOutputs_ok, shieldedBundle_ok] at valid
  obtain ⟨bundle, carried, _, outputsTotal, ⟨outputs, exact⟩, rule⟩ := valid
  refine ⟨outputs, ?_⟩
  have total : outputsTotal.toNat = outputsValue tx.outputs := by simpa using exact
  -- the bundle in hand is the one the field decodes to
  have same : bundle = bundleOf tx := by
    rcases carried with ⟨transparent, rfl⟩ | ⟨_, decoded, rfl, passed⟩
    · exact (bundleOf_transparent tx transparent).symm
    · obtain ⟨_, field, _⟩ := (validateShieldedPart_ok P chain tx ∅ false decoded).mp passed
      exact (bundleOf_decoded tx decoded field).symm
  by_cases noInputs : tx.inputs = []
  · simp only [noInputs, List.isEmpty_nil, ↓reduceIte] at rule
    rcases carried with ⟨transparent, rfl⟩ | ⟨carries, decoded, rfl, passed⟩
    · left
      simp only [validateCoinbase, bind_ok, exists_unit, ensure_ok, Bool.and_eq_true,
        List.isEmpty_iff, List.all_eq_true, decide_eq_true_eq] at rule
      exact ⟨transparent, noInputs, rule.1.1, rule.1.2, rule.2.1⟩
    · right
      left
      obtain ⟨_, field, lone, checked, _⟩ :=
        (validateShieldedPart_ok P chain tx ∅ false decoded).mp passed
      obtain ⟨noSigner, noSignature, noPubkey, noVpubIn, spendsNote⟩ := lone noInputs
      simp only [validateFullyShielded, bind_ok, exists_unit, ensure_ok, decide_eq_true_eq] at rule
      exact ⟨decoded, ⟨carries, field, checked⟩, noInputs, noSigner, noSignature, noPubkey,
        spendsNote, noVpubIn, by rw [rule.2, total]⟩
  · right
    right
    simp only [List.isEmpty_iff, noInputs, ↓reduceIte, validateSpend, bind_ok, exists_unit,
      checkAll_ok] at rule
    obtain ⟨_, authority, inputsTotal, summed, stake, balance⟩ := rule
    refine ⟨inputsTotal, noInputs, ?_, authority, summed, stake, ?_⟩
    · rcases carried with ⟨transparent, _⟩ | ⟨carries, decoded, _, passed⟩
      · exact .inl transparent
      · obtain ⟨_, field, _, checked, _⟩ :=
          (validateShieldedPart_ok P chain tx ∅ false decoded).mp passed
        exact .inr ⟨decoded, carries, field, checked⟩
    · rw [← total]
      exact validateBalance_ok tx bundle inputsTotal outputsTotal same balance

/-! ### The parts of an application -/

/-- An applied transaction passed validation, spent its inputs, created its
outputs and reached the end. -/
theorem applyTransaction_ok (chain : Chain) (tx : Transaction) (txid : Bytes)
    (checkSignature : Bool) (reached : Chain)
    (applied : applyTransaction P chain tx txid checkSignature = (.ok (), reached)) :
    ∃ spent unlocking created,
      validateTransaction P chain tx checkSignature = .ok () ∧
      each spendInput (chain, false) tx.inputs = (.ok (), (spent, unlocking)) ∧
      each (createOutput tx txid unlocking) spent tx.outputs.zipIdx = (.ok (), created) ∧
      finishTransaction P (created.recordSigner tx) tx txid = (.ok (), reached) := by
  unfold applyTransaction at applied
  obtain ⟨validated, valid, applied⟩ := (andThen_ok _ _ _ _).mp applied
  obtain ⟨rfl⟩ := (Prod.mk.inj valid).2
  obtain ⟨state, inputs, applied⟩ := (andThen_ok _ _ _ _).mp applied
  obtain ⟨created, outputs, finished⟩ := (andThen_ok _ _ _ _).mp applied
  exact ⟨state.1, state.2, created, (Prod.mk.inj valid).1, inputs, outputs, finished⟩

/-- The parts put together. -/
theorem applyTransaction_of_parts (chain spent created : Chain) (unlocking : Bool)
    (tx : Transaction) (txid : Bytes) (checkSignature : Bool)
    (valid : validateTransaction P chain tx checkSignature = .ok ())
    (inputs : each spendInput (chain, false) tx.inputs = (.ok (), (spent, unlocking)))
    (outputs : each (createOutput tx txid unlocking) spent tx.outputs.zipIdx = (.ok (), created)) :
    applyTransaction P chain tx txid checkSignature =
      finishTransaction P (created.recordSigner tx) tx txid := by
  unfold applyTransaction
  rw [valid, andThen_accepted, inputs, andThen_accepted, outputs, andThen_accepted]

/-- Spending an input takes an unspent output away and leaves the rest. -/
theorem spendInput_ok (chain : Chain) (flag : Bool) (input : TxInput)
    (reached : Chain × Bool) :
    spendInput (chain, flag) input = (.ok (), reached) ↔
      ∃ utxo, unspentAt chain.utxoSet input.key = some utxo ∧
        reached = ({ chain with
          utxoSet := chain.utxoSet.insert input.key { utxo with spent := true }
          addressIndex := debit chain.addressIndex utxo.owner utxo.amount
          tickets := chain.tickets.erase input.key },
          flag || (chain.tickets.lookup input.key).isSome) := by
  unfold spendInput
  cases unspentAt chain.utxoSet input.key with
  | none => simp
  | some utxo => simp [eq_comm]

/-- The table of tickets after an output. -/
def ticketsWith (tx : Transaction) (txid : Bytes) (chain : Chain) (placed : TxOutput × Nat) :
    Table Bytes StakeTicket :=
  if placed.1.recipient = kStakeAddress then
    chain.tickets.insert (outpointKey txid placed.2)
      (newTicket chain tx (outpointKey txid placed.2) placed.1.amount)
  else chain.tickets

/-- Creating an output adds it, unless a balance overflows. -/
theorem createOutput_ok (tx : Transaction) (txid : Bytes) (unlocking : Bool) (chain : Chain)
    (placed : TxOutput × Nat) (reached : Chain) :
    createOutput tx txid unlocking chain placed = (.ok (), reached) ↔
      (chain.balanceOf placed.1.recipient).toNat + placed.1.amount.toNat < 2 ^ 64 ∧
        reached = { chain with
          tickets := ticketsWith tx txid chain placed
          utxoSet := chain.utxoSet.insert (outpointKey txid placed.2)
            (newUtxo chain unlocking placed.1)
          addressIndex := chain.addressIndex.insert placed.1.recipient
            (chain.balanceOf placed.1.recipient + placed.1.amount) } := by
  have test := overflows_iff (chain.balanceOf placed.1.recipient) placed.1.amount
  unfold createOutput ticketsWith
  cases wraps : overflows (chain.balanceOf placed.1.recipient) placed.1.amount with
  | true =>
    have wide := test.mp wraps
    simp only [wraps, ↓reduceIte, Prod.mk.injEq, reduceCtorEq, false_and, false_iff, not_and]
    omega
  | false =>
    have narrow : ¬ 2 ^ 64 ≤ (chain.balanceOf placed.1.recipient).toNat + placed.1.amount.toNat :=
      fun wide => by simp [test.mpr wide] at wraps
    simp only [wraps, Bool.false_eq_true, ↓reduceIte, Prod.mk.injEq, true_and]
    constructor
    · rintro rfl
      exact ⟨by omega, rfl⟩
    · rintro ⟨_, rfl⟩
      rfl

/-- The pool after a transaction. -/
def poolAfter (chain : Chain) (tx : Transaction) : Shielded.State :=
  match bundleOf tx with
  | none => chain.shielded
  | some bundle => chain.shielded.apply P bundle

/-- What is left of a transaction once its inputs and outputs are done. -/
theorem finishTransaction_ok (chain : Chain) (tx : Transaction) (txid : Bytes) (reached : Chain)
    (finished : finishTransaction P chain tx txid = (.ok (), reached)) :
    reached = { chain with
      shielded := poolAfter P chain tx
      seenTransactions := insert txid chain.seenTransactions } := by
  unfold finishTransaction at finished
  split at finished
  · rename_i transparent
    rw [List.isEmpty_iff] at transparent
    rw [poolAfter, bundleOf_transparent tx transparent]
    exact (Prod.mk.inj finished).2.symm
  · cases decoded : Shielded.fromTxField tx.shielded with
    | error refusal => simp [decoded] at finished
    | ok bundle =>
      rw [decoded] at finished
      rw [poolAfter, bundleOf_decoded tx bundle decoded]
      exact (Prod.mk.inj finished).2.symm

/-! ### The two loops, entry by entry -/

/-- Only the outputs, the index and the tickets differ. -/
structure SameRest (chain chain' : Chain) : Prop where
  frame : SameFrame chain chain'
  signerLastNonce : chain'.signerLastNonce = chain.signerLastNonce
  seenTransactions : chain'.seenTransactions = chain.seenTransactions
  pubkeyRegistry : chain'.pubkeyRegistry = chain.pubkeyRegistry
  shielded : chain'.shielded = chain.shielded

theorem SameRest.refl (chain : Chain) : SameRest chain chain :=
  ⟨SameFrame.refl chain, rfl, rfl, rfl, rfl⟩

theorem SameRest.trans {first second third : Chain} (left : SameRest first second)
    (right : SameRest second third) : SameRest first third where
  frame := left.frame.trans right.frame
  signerLastNonce := right.signerLastNonce.trans left.signerLastNonce
  seenTransactions := right.seenTransactions.trans left.seenTransactions
  pubkeyRegistry := right.pubkeyRegistry.trans left.pubkeyRegistry
  shielded := right.shielded.trans left.shielded

theorem SameRest.update (chain : Chain) (utxoSet : Table Bytes Utxo)
    (addressIndex : Table Bytes UInt64) (tickets : Table Bytes StakeTicket) :
    SameRest chain { chain with
      utxoSet := utxoSet
      addressIndex := addressIndex
      tickets := tickets } :=
  ⟨SameFrame.update _ _ _ _ _ _ _ _, rfl, rfl, rfl, rfl⟩

variable {chain chain' : Chain} {tx : Transaction} {unlocking : Bool}

theorem SameRest.height (same : SameRest chain chain') :
    chain'.height = chain.height := by
  unfold Chain.height Chain.tip
  rw [same.frame.blocks]

theorem SameRest.contextHeight (same : SameRest chain chain') :
    chain'.contextHeight = chain.contextHeight := by
  unfold Chain.contextHeight
  rw [same.frame.applyingHeight, same.height]

theorem newUtxo_sameRest (same : SameRest chain chain') (unlocking : Bool)
    (output : TxOutput) : newUtxo chain' unlocking output = newUtxo chain unlocking output := by
  unfold newUtxo
  rw [same.contextHeight, same.height, same.frame.cfg]

theorem newTicket_sameRest (same : SameRest chain chain') (tx : Transaction)
    (key : Bytes) (amount : UInt64) : newTicket chain' tx key amount = newTicket chain tx key amount := by
  unfold newTicket Chain.registeredPubkey
  rw [same.contextHeight, same.pubkeyRegistry]

/-- What spending a list of inputs does to each entry and to each ticket. -/
structure SpentInputs (chain : Chain) (inputs : List TxInput) (spent : Chain) : Prop where
  rest : SameRest chain spent
  distinct : (inputs.map TxInput.key).Nodup
  present : ∀ input ∈ inputs, ∃ utxo, unspentAt chain.utxoSet input.key = some utxo ∧
    spent.utxoSet.lookup input.key = some { utxo with spent := true }
  others : ∀ key, key ∉ inputs.map TxInput.key →
    spent.utxoSet.lookup key = chain.utxoSet.lookup key
  tickets : ∀ key, spent.tickets.lookup key =
    if key ∈ inputs.map TxInput.key then none else chain.tickets.lookup key

/-- An entry that is spent stops being an unspent one. -/
theorem unspentAt_spent (utxoSet : Table Bytes Utxo) (key tested : Bytes) (utxo : Utxo) :
    unspentAt (utxoSet.insert key { utxo with spent := true }) tested =
      if tested = key then none else unspentAt utxoSet tested := by
  unfold unspentAt
  rw [lookup_insert]
  split
  · rfl
  · rfl

/-- All inputs are spent, one after the other. -/
theorem spendInputs_ok (chain : Chain) (flag : Bool) (inputs : List TxInput) (spent : Chain)
    (flag' : Bool) (loop : each spendInput (chain, flag) inputs = (.ok (), (spent, flag'))) :
    SpentInputs chain inputs spent := by
  induction inputs generalizing chain flag with
  | nil =>
    rw [each_nil_ok] at loop
    obtain rfl : chain = spent := (Prod.mk.inj loop).1
    exact ⟨SameRest.refl chain, by simp, by simp, by simp, by simp⟩
  | cons input rest ih =>
    obtain ⟨⟨next, flag''⟩, step, later⟩ := (each_cons_ok _ _ _ _ _).mp loop
    obtain ⟨utxo, found, reached⟩ := (spendInput_ok chain flag input (next, flag'')).mp step
    have facts := ih next flag'' later
    obtain rfl := (Prod.mk.inj reached).1
    -- a later input with the same key would have found the entry spent
    have fresh : input.key ∉ rest.map TxInput.key := by
      intro member
      obtain ⟨other, inside, same⟩ := List.mem_map.mp member
      obtain ⟨_, still, _⟩ := facts.present other inside
      rw [unspentAt_spent, if_pos same] at still
      simp at still
    refine ⟨(SameRest.update chain _ _ _).trans facts.rest, ?_, ?_, ?_, ?_⟩
    · simpa using ⟨by simpa using fresh, facts.distinct⟩
    · intro other member
      rcases List.mem_cons.mp member with rfl | inside
      · refine ⟨utxo, found, ?_⟩
        rw [facts.others other.key fresh, lookup_insert, if_pos rfl]
      · obtain ⟨utxo', found', spent'⟩ := facts.present other inside
        have different : other.key ≠ input.key := by
          rintro same
          exact fresh (same ▸ List.mem_map_of_mem inside)
        rw [unspentAt_spent, if_neg different] at found'
        exact ⟨utxo', found', spent'⟩
    · intro key outside
      simp only [List.map_cons, List.mem_cons, not_or] at outside
      rw [facts.others key outside.2, lookup_insert, if_neg outside.1]
    · intro key
      rw [facts.tickets key, lookup_erase]
      by_cases first : key = input.key
      · simp [first]
      · simp [first]

/-- A ticket is unlocked exactly when some input spends one. -/
theorem spendInputs_flag (chain : Chain) (flag : Bool) (inputs : List TxInput) (spent : Chain)
    (flag' : Bool) (loop : each spendInput (chain, flag) inputs = (.ok (), (spent, flag'))) :
    flag' = (flag || inputs.any (fun input => (chain.tickets.lookup input.key).isSome)) := by
  induction inputs generalizing chain flag with
  | nil =>
    rw [each_nil_ok] at loop
    simpa using (Prod.mk.inj loop).2.symm
  | cons input rest ih =>
    have facts := spendInputs_ok chain flag (input :: rest) spent flag' loop
    obtain ⟨⟨next, flag''⟩, step, later⟩ := (each_cons_ok _ _ _ _ _).mp loop
    obtain ⟨utxo, found, reached⟩ := (spendInput_ok chain flag input (next, flag'')).mp step
    rw [ih next flag'' later]
    obtain ⟨rfl, rfl⟩ := Prod.mk.inj reached
    have distinct := facts.distinct
    simp only [List.map_cons, List.nodup_cons, List.mem_map, not_exists, not_and] at distinct
    have unchanged : rest.any (fun other => ((chain.tickets.erase input.key).lookup other.key).isSome) =
        rest.any (fun other => (chain.tickets.lookup other.key).isSome) := by
      rw [Bool.eq_iff_iff]
      simp only [List.any_eq_true]
      refine exists_congr fun other => and_congr_right fun inside => ?_
      rw [lookup_erase, if_neg (distinct.1 other inside)]
    simp only [List.any_cons, unchanged, Bool.or_assoc]

theorem outpointKey_injective (txid txid' : Bytes) (index index' : Nat)
    (same : outpointKey txid index = outpointKey txid' index') : txid = txid' ∧ index = index' := by
  obtain ⟨sameId, sameDigits⟩ := cut_last (byte ':') txid txid' _ _
    (not_mem_decimal index _ (by decide)) (not_mem_decimal index' _ (by decide)) same
  exact ⟨sameId, decimal_injective _ _ sameDigits⟩

/-- What creating a list of placed outputs does to each entry and to each ticket. -/
structure CreatedOutputs (tx : Transaction) (txid : Bytes) (unlocking : Bool) (chain : Chain)
    (placed : List (TxOutput × Nat)) (created : Chain) : Prop where
  rest : SameRest chain created
  entries : ∀ output ∈ placed, created.utxoSet.lookup (outpointKey txid output.2) =
    some (newUtxo chain unlocking output.1)
  others : ∀ key, (∀ output ∈ placed, key ≠ outpointKey txid output.2) →
    created.utxoSet.lookup key = chain.utxoSet.lookup key
  stakes : ∀ output ∈ placed, output.1.recipient = kStakeAddress →
    created.tickets.lookup (outpointKey txid output.2) =
      some (newTicket chain tx (outpointKey txid output.2) output.1.amount)
  otherTickets : ∀ key,
    (∀ output ∈ placed, output.1.recipient = kStakeAddress → key ≠ outpointKey txid output.2) →
    created.tickets.lookup key = chain.tickets.lookup key

/-- All outputs are created, one after the other. -/
theorem createOutputs_ok (tx : Transaction) (txid : Bytes) (unlocking : Bool) (chain : Chain)
    (placed : List (TxOutput × Nat)) (created : Chain) (distinct : (placed.map Prod.snd).Nodup)
    (loop : each (createOutput tx txid unlocking) chain placed = (.ok (), created)) :
    CreatedOutputs tx txid unlocking chain placed created := by
  induction placed generalizing chain with
  | nil =>
    rw [each_nil_ok] at loop
    subst loop
    exact ⟨SameRest.refl chain, by simp, by simp, by simp, by simp⟩
  | cons output rest ih =>
    obtain ⟨next, step, later⟩ := (each_cons_ok _ _ _ _ _).mp loop
    obtain ⟨_, reached⟩ := (createOutput_ok tx txid unlocking chain output next).mp step
    simp only [List.map_cons, List.nodup_cons, List.mem_map, not_exists, not_and] at distinct
    have facts := ih next distinct.2 later
    have moved : SameRest chain next := by
      rw [reached]
      exact SameRest.update chain _ _ _
    have apart : ∀ other ∈ rest, outpointKey txid output.2 ≠ outpointKey txid other.2 := by
      intro other inside same
      exact distinct.1 other inside (outpointKey_injective _ _ _ _ same).2.symm
    have entry : next.utxoSet = chain.utxoSet.insert (outpointKey txid output.2)
        (newUtxo chain unlocking output.1) := by rw [reached]
    have ticket : next.tickets = ticketsWith tx txid chain output := by rw [reached]
    refine ⟨moved.trans facts.rest, ?_, ?_, ?_, ?_⟩
    · intro other member
      rcases List.mem_cons.mp member with rfl | inside
      · rw [facts.others _ apart, entry, lookup_insert, if_pos rfl]
      · rw [facts.entries other inside, newUtxo_sameRest moved]
    · intro key outside
      simp only [List.mem_cons, forall_eq_or_imp] at outside
      rw [facts.others key outside.2, entry, lookup_insert, if_neg outside.1]
    · intro other member stake
      rcases List.mem_cons.mp member with rfl | inside
      · rw [facts.otherTickets _ (fun later inside _ => apart later inside), ticket, ticketsWith,
          if_pos stake, lookup_insert, if_pos rfl]
      · rw [facts.stakes other inside stake, newTicket_sameRest moved]
    · intro key outside
      simp only [List.mem_cons, forall_eq_or_imp] at outside
      rw [facts.otherTickets key outside.2, ticket, ticketsWith]
      split
      · rename_i stake
        rw [lookup_insert, if_neg (outside.1 stake)]
      · rfl

theorem zipIdx_positions (outputs : List TxOutput) : (outputs.zipIdx.map Prod.snd).Nodup := by
  rw [List.zipIdx_map_snd]
  exact List.nodup_range'

/-- An applied transaction: validated, its inputs spent, its outputs created, its
signer recorded and its bundle applied. -/
structure AppliedTransaction (chain : Chain) (tx : Transaction) (spent : Chain) (unlocking : Bool)
    (created reached : Chain) : Prop where
  valid : validateTransaction P chain tx false = .ok ()
  inputs : SpentInputs chain tx.inputs spent
  unlocks : unlocking = chain.spendsTicket tx
  outputs : CreatedOutputs tx (hashTransaction P tx) unlocking spent tx.outputs.zipIdx created
  final : reached = { created.recordSigner tx with
    shielded := poolAfter P created tx
    seenTransactions := insert (hashTransaction P tx) created.seenTransactions }

/-- An applied transaction, step by step. -/
theorem applyNext_ok (chain : Chain) (tx : Transaction) (reached : Chain)
    (applied : applyNext P chain tx = (.ok (), reached)) :
    ∃ spent unlocking created, AppliedTransaction P chain tx spent unlocking created reached ∧
      each spendInput (chain, false) tx.inputs = (.ok (), (spent, unlocking)) ∧
      each (createOutput tx (hashTransaction P tx) unlocking) spent tx.outputs.zipIdx =
        (.ok (), created) := by
  obtain ⟨spent, unlocking, created, valid, inputs, outputs, finished⟩ :=
    applyTransaction_ok P chain tx _ false reached applied
  have flag := spendInputs_flag chain false tx.inputs spent unlocking inputs
  have settled := finishTransaction_ok P _ tx _ reached finished
  refine ⟨spent, unlocking, created, ⟨valid, spendInputs_ok chain false _ spent unlocking inputs,
    by simpa [Chain.spendsTicket] using flag,
    createOutputs_ok tx _ unlocking spent _ created (zipIdx_positions tx.outputs) outputs, ?_⟩,
    inputs, outputs⟩
  have pool : poolAfter P (created.recordSigner tx) tx = poolAfter P created tx := by
    unfold poolAfter Chain.recordSigner
    split <;> (split <;> rfl)
  have seen : (created.recordSigner tx).seenTransactions = created.seenTransactions := by
    unfold Chain.recordSigner
    split <;> rfl
  rw [settled, pool, seen]

/-! ### Unspent keys -/

/-- Whether a key holds an unspent entry. -/
def Chain.holds (chain : Chain) (key : Bytes) : Prop := (unspentAt chain.utxoSet key).isSome = true

/-- The keys of the outputs a transaction creates. -/
def createdKeys (tx : Transaction) : List Bytes :=
  tx.outputs.zipIdx.map (fun placed => outpointKey (hashTransaction P tx) placed.2)

/-- The unspent keys after a transaction, from those before it. -/
def keysAfter (tx : Transaction) (unspent : Bytes → Prop) (key : Bytes) : Prop :=
  key ∈ createdKeys P tx ∨ (unspent key ∧ key ∉ tx.inputs.map TxInput.key)

variable {P}

variable {spent : Chain}

/-- The keys that are unspent once a transaction's inputs are spent. -/
theorem SpentInputs.holds {inputs : List TxInput}
    (facts : SpentInputs chain inputs spent) (key : Bytes) :
    spent.holds key ↔ chain.holds key ∧ key ∉ inputs.map TxInput.key := by
  by_cases member : key ∈ inputs.map TxInput.key
  · obtain ⟨input, inside, rfl⟩ := List.mem_map.mp member
    obtain ⟨utxo, _, gone⟩ := facts.present input inside
    simp [Chain.holds, unspentAt, gone, member]
  · simp [Chain.holds, unspentAt, facts.others key member, member]

variable {created : Chain}

/-- The keys that are unspent once a transaction's outputs are created. -/
theorem CreatedOutputs.holds {txid : Bytes} {placed : List (TxOutput × Nat)}
    (facts : CreatedOutputs tx txid unlocking chain placed created) (key : Bytes) :
    created.holds key ↔
      key ∈ placed.map (fun output => outpointKey txid output.2) ∨ chain.holds key := by
  by_cases member : key ∈ placed.map (fun output => outpointKey txid output.2)
  · obtain ⟨output, inside, rfl⟩ := List.mem_map.mp member
    simp only [Chain.holds, unspentAt, facts.entries output inside, member, true_or, iff_true]
    simp [newUtxo]
  · have untouched := facts.others key
      (fun output inside same => member (List.mem_map.mpr ⟨output, inside, same.symm⟩))
    simp [Chain.holds, unspentAt, untouched, member]

variable {reached : Chain}

theorem AppliedTransaction.utxoSet
    (applied : AppliedTransaction P chain tx spent unlocking created reached) :
    reached.utxoSet = created.utxoSet ∧ reached.addressIndex = created.addressIndex := by
  rw [applied.final]
  unfold Chain.recordSigner
  split <;> exact ⟨rfl, rfl⟩

/-- The keys that recording a signer leaves. -/
theorem recordSigner_registry (chain : Chain) (tx : Transaction) :
    (chain.recordSigner tx).pubkeyRegistry =
      if tx.inputs = [] ∨ tx.signer = [] ∨ tx.signerPubkey = [] then chain.pubkeyRegistry
      else emplace chain.pubkeyRegistry tx.signer tx.signerPubkey := by
  unfold Chain.recordSigner
  by_cases noInputs : tx.inputs = []
  · simp [noInputs]
  · by_cases unsigned : tx.signer = []
    · simp [unsigned]
    · by_cases noPubkey : tx.signerPubkey = []
      · simp [noInputs, unsigned, noPubkey]
      · simp [noInputs, unsigned, noPubkey]

/-- What an applied transaction does to the members its loops leave alone. -/
structure RecordedMembers (chain : Chain) (tx : Transaction) (reached : Chain) : Prop where
  signerLastNonce : reached.signerLastNonce = (chain.recordSigner tx).signerLastNonce
  pubkeyRegistry : reached.pubkeyRegistry = (chain.recordSigner tx).pubkeyRegistry
  seenTransactions : reached.seenTransactions =
    insert (hashTransaction P tx) chain.seenTransactions
  shielded : reached.shielded = poolAfter P chain tx

theorem AppliedTransaction.members
    (applied : AppliedTransaction P chain tx spent unlocking created reached) :
    RecordedMembers (P := P) chain tx reached := by
  have rest := applied.inputs.rest.trans applied.outputs.rest
  have pool : poolAfter P created tx = poolAfter P chain tx := by
    unfold poolAfter
    rw [rest.shielded]
  rw [applied.final, pool, rest.seenTransactions]
  refine ⟨?_, ?_, rfl, rfl⟩
  · unfold Chain.recordSigner
    split
    · exact rest.signerLastNonce
    · simp only [rest.signerLastNonce]
  · unfold Chain.recordSigner
    split
    · exact rest.pubkeyRegistry
    · simp only [rest.pubkeyRegistry]

theorem AppliedTransaction.tickets
    (applied : AppliedTransaction P chain tx spent unlocking created reached) :
    reached.tickets = created.tickets := by
  rw [applied.final]
  unfold Chain.recordSigner
  split <;> rfl

/-- The unspent keys after an applied transaction. -/
theorem AppliedTransaction.holds
    (applied : AppliedTransaction P chain tx spent unlocking created reached)
    (key : Bytes) : reached.holds key ↔ keysAfter P tx chain.holds key := by
  have same : reached.holds key ↔ created.holds key := by
    unfold Chain.holds
    rw [applied.utxoSet.1]
  rw [same, applied.outputs.holds key, applied.inputs.holds key]
  rfl

end Addition
