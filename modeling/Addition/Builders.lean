import Addition.Balances
import Addition.Foundations.Listings
import Addition.Store

/-!
# The transactions a wallet builds

The three builders of `chain.cpp`. A payment gathers outputs of the sender in the
order of the hash table, which nothing fixes, until they cover the amount and the
fee; the rest goes back to the sender. A stake lock is a payment to the stake
address, and an unlock spends the output of a ticket.

The builders name an output by taking its key apart again, and they select by a
rule of their own. A built transaction is measured here against the rules that
validation has for a transaction with inputs.
-/

namespace Addition

open ByteStrings Checked FiniteTables TextLines
open Store (Failure need)

/-! ### The builders -/

/-- The position of the last occurrence of an octet, as `rfind` gives it. -/
def rfind (octet : UInt8) : Bytes → Option Nat
  | [] => none
  | first :: rest =>
    match rfind octet rest with
    | some position => some (position + 1)
    | none => if first = octet then some 0 else none

/-- The input that a key names, cut at a separator: `substr`, `stoul` and the cast. -/
def inputAt (key : Bytes) (sep : Nat) : Except Failure TxInput := do
  let index ← need "stoul" (key.drop (sep + 1))
  pure ⟨key.take sep, index.toUInt32, []⟩

/-- The entry loop of `Chain::build_transaction`, with what is gathered and selected
so far. An absent hook of the pending pool holds nothing. -/
def selectInputs (chain : Chain) (pending : Bytes → Bool) (sender : Bytes) (required : UInt64) :
    UInt64 → List TxInput → List (Bytes × Utxo) → Except Failure (UInt64 × List TxInput)
  | gathered, selected, [] => .ok (gathered, selected)
  | gathered, selected, (key, utxo) :: rest =>
    if utxo.spent || decide (utxo.owner ≠ sender) ||
        decide (utxo.spendableHeight > chain.height + 1) then
      selectInputs chain pending sender required gathered selected rest
    else if pending key then selectInputs chain pending sender required gathered selected rest
    else
      match rfind (byte ':') key with
      | none => selectInputs chain pending sender required gathered selected rest
      | some sep => do
        let input ← inputAt key sep
        if gathered + utxo.amount ≥ required then
          pure (gathered + utxo.amount, selected ++ [input])
        else
          selectInputs chain pending sender required (gathered + utxo.amount) (selected ++ [input])
            rest

/-- A transaction before its signer completes it. -/
def unsignedTransaction (inputs : List TxInput) (outputs : List TxOutput) (fee nonce : UInt64) :
    Transaction :=
  ⟨inputs, outputs, [], [], [], fee, nonce, []⟩

/-- The outputs of a payment. -/
def paymentOutputs (sender recipient : Bytes) (amount change : UInt64) : List TxOutput :=
  ⟨recipient, amount⟩ :: if change > 0 then [⟨sender, change⟩] else []

/-- `Chain::build_transaction`, over the entries in some order. -/
def buildTransaction (chain : Chain) (pending : Bytes → Bool) (order : List (Bytes × Utxo))
    (sender recipient : Bytes) (amount fee nonce : UInt64) : Except Failure Transaction :=
  if sender.isEmpty || recipient.isEmpty then .error (.refused "from/to empty")
  else if amount = 0 then .error (.refused "amount must be > 0")
  else if overflows fee amount then .error (.refused "amount+fee overflow")
  else do
    let chosen ← selectInputs chain pending sender (amount + fee) 0 [] order
    if chosen.1 < amount + fee then .error (.refused "insufficient balance")
    else
      pure (unsignedTransaction chosen.2
        (paymentOutputs sender recipient amount (chosen.1 - (amount + fee))) fee nonce)

/-- `Chain::build_stake_lock`. -/
def buildStakeLock (chain : Chain) (pending : Bytes → Bool) (order : List (Bytes × Utxo))
    (sender : Bytes) (amount fee nonce : UInt64) : Except Failure Transaction :=
  if !chain.stakingActiveAt (chain.height + 1) then .error (.refused "staking not active")
  else if amount < chain.cfg.stakeMinAmount then
    .error (.refused ("stake below minimum (" ++ toString chain.cfg.stakeMinAmount.toNat ++ ")"))
  else buildTransaction chain pending order sender kStakeAddress amount fee nonce

/-- `Chain::build_stake_unlock`. Without a separator the whole name is both parts. -/
def buildStakeUnlock (chain : Chain) (ticketId : Bytes) (fee nonce : UInt64) :
    Except Failure Transaction :=
  match chain.tickets.lookup ticketId with
  | none => .error (.refused "unknown ticket")
  | some ticket =>
    if ticket.amount ≤ fee then .error (.refused "fee exceeds ticket amount")
    else do
      let input ←
        match rfind (byte ':') ticketId with
        | some sep => inputAt ticketId sep
        | none => (fun index => ⟨ticketId, index.toUInt32, []⟩) <$> need "stoul" ticketId
      pure (unsignedTransaction [input] [⟨ticket.owner, ticket.amount - fee⟩] fee nonce)

/-! ### Keys taken apart -/

theorem rfind_absent (octet : UInt8) (text : Bytes) (absent : octet ∉ text) :
    rfind octet text = none := by
  induction text with
  | nil => rfl
  | cons first rest ih =>
    rw [List.mem_cons, not_or] at absent
    rw [rfind, ih absent.2]
    exact if_neg (Ne.symm absent.1)

theorem rfind_last (octet : UInt8) (front rest : Bytes) (absent : octet ∉ rest) :
    rfind octet (front ++ octet :: rest) = some front.length := by
  induction front with
  | nil => simp [rfind, rfind_absent octet rest absent]
  | cons first front ih => simp [rfind, ih]

/-- The key of an output whose position fits the field of an input. -/
def NarrowKey (key : Bytes) : Prop :=
  ∃ txid position, position < 2 ^ 32 ∧ key = outpointKey txid position

/-- The separator of a key is found, and the input cut there has this key. -/
theorem inputAt_narrow {key : Bytes} (narrow : NarrowKey key) :
    ∃ sep input, rfind (byte ':') key = some sep ∧ inputAt key sep = .ok input ∧
      input.key = key ∧ input.witness = [] := by
  obtain ⟨txid, position, small, rfl⟩ := narrow
  have found : rfind (byte ':') (outpointKey txid position) = some txid.length :=
    rfind_last _ _ _ (not_mem_decimal position _ (by decide))
  have front : (outpointKey txid position).take txid.length = txid := by
    rw [outpointKey, List.take_left]
  have digits : (outpointKey txid position).drop (txid.length + 1) = decimal position := by
    rw [outpointKey, ← List.drop_drop, List.drop_left]
    rfl
  have number : need "stoul" (decimal position) = .ok (UInt64.ofNat position) := by
    rw [need, stoull_rendered, if_neg (by omega)]
  have read : inputAt (outpointKey txid position) txid.length =
      .ok ⟨txid, (UInt64.ofNat position).toUInt32, []⟩ := by
    rw [inputAt, front, digits, number]
    rfl
  refine ⟨txid.length, _, found, read, ?_, rfl⟩
  have index : (UInt64.ofNat position).toUInt32.toNat = position := by
    rw [UInt64.toUInt32_ofNat', UInt32.toNat_ofNat_of_lt' small]
  rw [TxInput.key, index]

/-! ### What the loop selects -/

/-- An entry that the loop takes. -/
structure Usable (chain : Chain) (pending : Bytes → Bool) (sender : Bytes)
    (entry : Bytes × Utxo) : Prop where
  unspent : entry.2.spent = false
  own : entry.2.owner = sender
  mature : entry.2.spendableHeight ≤ chain.height + 1
  free : pending entry.1 = false

/-- What the loop adds to what was gathered and selected before: some entries of the
order, each of which it may take. -/
structure Selects (chain : Chain) (pending : Bytes → Bool) (sender : Bytes)
    (order : List (Bytes × Utxo)) (before : UInt64 × List TxInput) (after : UInt64 × List TxInput)
    (taken : List (Bytes × Utxo)) : Prop where
  sublist : taken.Sublist order
  usable : ∀ entry ∈ taken, Usable chain pending sender entry
  keys : after.2.map TxInput.key = before.2.map TxInput.key ++ taken.map Prod.fst
  bare : (∀ input ∈ before.2, input.witness = []) → ∀ input ∈ after.2, input.witness = []
  gathered : after.1.toNat =
    (before.1.toNat + (taken.map (fun entry => entry.2.amount.toNat)).sum) % 2 ^ 64

variable {after : UInt64 × List TxInput} {chain : Chain} {order : List (Bytes × Utxo)}
  {pending : Bytes → Bool} {sender : Bytes} {taken : List (Bytes × Utxo)} {gathered : UInt64}
  {inputs : List TxInput} {amount fee nonce : UInt64} {recipient : Bytes} {tx : Transaction}
  {P : Primitives} {pubkey : Bytes}

/-- One more entry that is left out. -/
theorem Selects.skip {before : UInt64 × List TxInput}
    (selects : Selects chain pending sender order before after taken) (entry : Bytes × Utxo) :
    Selects chain pending sender (entry :: order) before after taken :=
  { selects with sublist := selects.sublist.cons entry }

/-- One more entry that is taken. -/
theorem Selects.take {selected : List TxInput} {entry : Bytes × Utxo} {input : TxInput}
    (selects : Selects chain pending sender order (gathered + entry.2.amount, selected ++ [input])
      after taken) (usable : Usable chain pending sender entry) (key : input.key = entry.1)
    (bare : input.witness = []) :
    Selects chain pending sender (entry :: order) (gathered, selected) after (entry :: taken) where
  sublist := selects.sublist.cons_cons entry
  usable := List.forall_mem_cons.mpr ⟨usable, selects.usable⟩
  keys := by
    rw [selects.keys]
    simp [key]
  bare := by
    intro earlier
    apply selects.bare
    intro other member
    rcases List.mem_append.mp member with before | new
    · exact earlier other before
    · rw [List.mem_singleton.mp new, bare]
  gathered := by
    rw [selects.gathered, UInt64.toNat_add, List.map_cons, List.sum_cons, Nat.mod_add_mod,
      Nat.add_assoc]

theorem selects_nothing (chain : Chain) (pending : Bytes → Bool) (sender : Bytes)
    (order : List (Bytes × Utxo)) (state : UInt64 × List TxInput) :
    Selects chain pending sender order state state [] where
  sublist := List.nil_sublist order
  usable := by simp
  keys := by simp
  bare := id
  gathered := by
    have bound := state.1.toNat_lt
    rw [List.map_nil, List.sum_nil, Nat.add_zero, Nat.mod_eq_of_lt bound]

/-- The loop never throws on narrow keys, and it selects usable entries. -/
theorem selectInputs_selects (chain : Chain) (pending : Bytes → Bool) (sender : Bytes)
    (required gathered : UInt64) (selected : List TxInput) (order : List (Bytes × Utxo))
    (narrow : ∀ entry ∈ order, NarrowKey entry.1) :
    ∃ after taken,
      selectInputs chain pending sender required gathered selected order = .ok after ∧
        Selects chain pending sender order (gathered, selected) after taken := by
  induction order generalizing gathered selected with
  | nil => exact ⟨(gathered, selected), [], rfl, selects_nothing _ _ _ _ _⟩
  | cons entry rest ih =>
    obtain ⟨key, utxo⟩ := entry
    obtain ⟨first, later⟩ := List.forall_mem_cons.mp narrow
    have skipped : ∃ after taken,
        selectInputs chain pending sender required gathered selected rest = .ok after ∧
          Selects chain pending sender ((key, utxo) :: rest) (gathered, selected) after taken := by
      obtain ⟨after, taken, found, selects⟩ := ih gathered selected later
      exact ⟨after, taken, found, selects.skip (key, utxo)⟩
    rw [selectInputs]
    split
    · exact skipped
    · rename_i fit
      split
      · exact skipped
      · rename_i free
        simp only [Bool.or_eq_true, decide_eq_true_eq, not_or, Bool.not_eq_true, not_not,
          gt_iff_lt, UInt64.not_lt] at fit free
        have usable : Usable chain pending sender (key, utxo) := ⟨fit.1.1, fit.1.2, fit.2, free⟩
        obtain ⟨sep, input, cut, read, named, bare⟩ := inputAt_narrow first
        simp only [cut, read]
        split
        · exact ⟨_, [(key, utxo)], rfl, (selects_nothing _ _ _ _ _).take usable named bare⟩
        · obtain ⟨after, taken, found, selects⟩ :=
            ih (gathered + utxo.amount) (selected ++ [input]) later
          exact ⟨after, (key, utxo) :: taken, found, selects.take usable named bare⟩

/-! ### What validation asks of a spend -/

/-- The amount of an unspent entry, zero without one. -/
def unspentAmount (utxoSet : Table Bytes Utxo) (key : Bytes) : Nat :=
  ((unspentAt utxoSet key).map (fun utxo => utxo.amount.toNat)).getD 0

/-- The exact sum of the outputs that some inputs spend. -/
def inputsValue (utxoSet : Table Bytes Utxo) (inputs : List TxInput) : Nat :=
  (inputs.map (fun input => unspentAmount utxoSet input.key)).sum

/-- The inputs are distinct, unspent, mature, and exactly cover outputs and fee. -/
structure Funded (chain : Chain) (tx : Transaction) : Prop where
  distinct : (tx.inputs.map TxInput.key).Nodup
  present : ∀ input ∈ tx.inputs, ∃ utxo, unspentAt chain.utxoSet input.key = some utxo ∧
    utxo.spendableHeight ≤ chain.height + 1
  exact : inputsValue chain.utxoSet tx.inputs = outputsValue tx.outputs + tx.fee.toNat

/-- The input loop adds up distinct, unspent and mature entries. -/
theorem sumInputs_total (chain : Chain) (idle : chain.applyingHeight = 0) (seen : Finset Bytes)
    (total : UInt64) (inputs : List TxInput) (distinct : (inputs.map TxInput.key).Nodup)
    (fresh : ∀ input ∈ inputs, input.key ∉ seen)
    (present : ∀ input ∈ inputs, ∃ utxo, unspentAt chain.utxoSet input.key = some utxo ∧
      utxo.spendableHeight ≤ chain.height + 1)
    (room : total.toNat + inputsValue chain.utxoSet inputs < 2 ^ 64) :
    ∃ result, sumInputs chain seen total inputs = .ok result ∧
      result.toNat = total.toNat + inputsValue chain.utxoSet inputs := by
  induction inputs generalizing seen total with
  | nil => exact ⟨total, rfl, rfl⟩
  | cons input rest ih =>
    obtain ⟨absent, distinct⟩ := List.nodup_cons.mp distinct
    obtain ⟨⟨utxo, unspent, mature⟩, present⟩ := List.forall_mem_cons.mp present
    obtain ⟨new, fresh⟩ := List.forall_mem_cons.mp fresh
    have amount : unspentAmount chain.utxoSet input.key = utxo.amount.toNat := by
      rw [unspentAmount, unspent]
      rfl
    rw [inputsValue, List.map_cons, List.sum_cons, amount, ← inputsValue] at room ⊢
    obtain ⟨next, added⟩ : ∃ next, addOr "inputs overflow" total utxo.amount = .ok next := by
      refine ⟨UInt64.ofNat (total.toNat + utxo.amount.toNat), ?_⟩
      rw [addOr_ok, UInt64.toNat_ofNat_of_lt' (by simp only [UInt64.size]; omega)]
    have sum := (addOr_ok _ _ _ _).mp added
    obtain ⟨result, later, exact⟩ := ih (insert input.key seen) next distinct
      (by
        intro other member
        rw [Finset.mem_insert, not_or]
        refine ⟨?_, fresh other member⟩
        intro same
        exact absent (same ▸ List.mem_map_of_mem member))
      present (by omega)
    refine ⟨result, ?_, by omega⟩
    have context : chain.contextHeight = chain.height + 1 := by
      rw [Chain.contextHeight, idle]
      rfl
    simp only [sumInputs, bind_ok, exists_unit, ensure_ok, decide_eq_true_eq, unspent]
    exact ⟨new, by rw [context]; exact mature, next, added, later⟩

variable {P : Primitives}

/-- A signer with a key bound to it, a signature that verifies and a nonce beyond the
recorded one has authority over inputs that it controls. -/
theorem signed_authority (chain : Chain) (tx : Transaction) (spends : tx.inputs ≠ [])
    (bare : ∀ input ∈ tx.inputs, input.witness = [])
    (controls : ∀ input ∈ tx.inputs, chain.controls tx.signer input = true)
    (bound : signerBindsPubkey P tx.signer tx.signerPubkey = .ok ())
    (verified : verifyMessageSignatureHybridUncached P tx.signerPubkey (signedMessage P tx) tx.signature =
      true)
    (beyond : ∀ last, chain.signerLastNonce.lookup tx.signer = some last → last < tx.nonce) :
    validateAuthority P chain tx true = .ok () := by
  obtain ⟨length, _, carried, _⟩ := signerBindsPubkey_ok P tx.signer tx.signerPubkey bound
  obtain ⟨digits, marked, _⟩ := verifyMessageSignatureHybridUncached_shape P _ _ _ verified
  have signer : tx.signer ≠ [] := by
    intro unsigned
    rw [unsigned] at length
    simp at length
  have signature : tx.signature ≠ [] := by
    rw [marked]
    simp [pqPrefix, ascii]
  have resolved : resolveSignerPubkey P chain.pubkeyRegistry ∅ tx = .ok tx.signerPubkey := by
    simp [resolveSignerPubkey, carried, bound]
  have strict : pqPrefix.isPrefixOf tx.signature = true := by
    rw [marked]
    exact List.isPrefixOf_iff_prefix.mpr (List.prefix_append _ _)
  rw [validateAuthority, if_neg (by simpa using signer)]
  simp only [bind_ok, exists_unit, ensure_ok, validateTransactionSignature, resolved, onlyIf_ok]
  refine ⟨?_, ⟨?_, ?_, ?_, tx.signerPubkey, rfl, ?_, fun _ => verified⟩, ?_⟩
  · simpa using bare
  · simp [strict]
  · simpa using signer
  · simpa using signature
  · simpa [spends] using controls
  · cases recorded : chain.signerLastNonce.lookup tx.signer with
    | none => rfl
    | some last => simpa using beyond last recorded

/-- A funded transparent spend with an authority passes, when its outputs are named and
positive and keep the stake rules. -/
theorem funded_passes (chain : Chain) (idle : chain.applyingHeight = 0) (tx : Transaction)
    (funded : Funded chain tx) (spends : tx.inputs ≠ []) (transparent : tx.shielded = [])
    (room : inputsValue chain.utxoSet tx.inputs < 2 ^ 64) (pays : tx.outputs ≠ [])
    (outputs : ∀ output ∈ tx.outputs, output.recipient ≠ [] ∧ output.amount ≠ 0)
    (paid : chain.cfg.minFee ≤ tx.fee) (authority : validateAuthority P chain tx true = .ok ())
    (stake : ∀ output ∈ tx.outputs,
      checkStakeOutput chain (chain.spendsTicket tx) output = .ok ()) :
    validateTransaction P chain tx true = .ok () := by
  have balance := funded.exact
  obtain ⟨inputsTotal, summed, inputsExact⟩ := sumInputs_total chain idle ∅ 0 tx.inputs
    funded.distinct (by simp) funded.present (by simpa using room)
  obtain ⟨outputsTotal, outputsExact⟩ :
      ∃ total : UInt64, total.toNat = outputsValue tx.outputs := by
    refine ⟨UInt64.ofNat (outputsValue tx.outputs), ?_⟩
    rw [UInt64.toNat_ofNat_of_lt' (by simp only [UInt64.size]; omega)]
  have total : sumOutputs "output recipient empty" "output amount zero" "outputs overflow" 0
      tx.outputs = .ok outputsTotal := by
    rw [sumOutputs_ok]
    exact ⟨outputs, by simpa using outputsExact⟩
  have covered : validateBalance tx none inputsTotal outputsTotal = .ok () := by
    obtain ⟨spent, added⟩ :
        ∃ spent, addOr "outputs+fee overflow" outputsTotal tx.fee = .ok spent := by
      refine ⟨UInt64.ofNat (outputsTotal.toNat + tx.fee.toNat), ?_⟩
      rw [addOr_ok, UInt64.toNat_ofNat_of_lt' (by simp only [UInt64.size]; omega)]
    have exact := (addOr_ok _ _ _ _).mp added
    simp only [UInt64.reduceToNat, Nat.zero_add] at inputsExact
    simp only [validateBalance, bind_ok, ensure_ok]
    refine ⟨spent, added, ?_⟩
    simp only [Bool.not_eq_true', decide_eq_false_iff_not, UInt64.lt_iff_toNat_lt]
    omega
  simp only [validateTransaction, shieldedBundle, transparent, List.isEmpty_nil, ↓reduceIte,
    bind_ok, exists_unit, ensure_ok, total]
  refine ⟨none, rfl, ?_, outputsTotal, rfl, ?_⟩
  · simp [pays]
  · rw [if_neg (by simpa using spends)]
    simp only [validateSpend, bind_ok, exists_unit, ensure_ok, checkAll_ok]
    refine ⟨?_, authority, inputsTotal, summed, stake, covered⟩
    simp [UInt64.not_lt, paid]

/-! ### Payments -/

/-- A built transaction with its signer, the signer's key and a signature. -/
def completed (tx : Transaction) (signer pubkey signature : Bytes) : Transaction :=
  { tx with signer := signer, signerPubkey := pubkey, signature := signature }

/-- Validation agrees with a builder: the transaction is funded, and completed with its
signer it passes whenever its fee and its nonce do. -/
structure Agrees (P : Primitives) (chain : Chain) (signer pubkey : Bytes) (tx : Transaction) :
    Prop where
  funded : Funded chain tx
  passes : ∀ signature,
    verifyMessageSignatureHybridUncached P pubkey (signedMessage P (completed tx signer pubkey signature))
      signature = true →
    chain.cfg.minFee ≤ tx.fee →
    (∀ last, chain.signerLastNonce.lookup signer = some last → last < tx.nonce) →
    validateTransaction P chain (completed tx signer pubkey signature) true = .ok ()

/-- Validation agrees on a funded transaction whose inputs the signer controls, when its
outputs are named and positive and keep the stake rules. -/
theorem agrees_of_funded (chain : Chain) (idle : chain.applyingHeight = 0) (signer pubkey : Bytes)
    (bound : signerBindsPubkey P signer pubkey = .ok ()) (inputs : List TxInput)
    (outputs : List TxOutput) (fee nonce : UInt64)
    (funded : Funded chain (unsignedTransaction inputs outputs fee nonce))
    (room : inputsValue chain.utxoSet inputs < 2 ^ 64) (spends : inputs ≠ []) (pays : outputs ≠ [])
    (bare : ∀ input ∈ inputs, input.witness = [])
    (controls : ∀ input ∈ inputs, chain.controls signer input = true)
    (named : ∀ output ∈ outputs, output.recipient ≠ [] ∧ output.amount ≠ 0)
    (stake : ∀ output ∈ outputs, checkStakeOutput chain
      (inputs.any (fun input => (chain.tickets.lookup input.key).isSome)) output = .ok ()) :
    Agrees P chain signer pubkey (unsignedTransaction inputs outputs fee nonce) := by
  refine ⟨funded, ?_⟩
  intro signature verified paid beyond
  let signed := completed (unsignedTransaction inputs outputs fee nonce) signer pubkey signature
  have whole : Funded chain signed := ⟨funded.distinct, funded.present, funded.exact⟩
  have authority : validateAuthority P chain signed true = .ok () :=
    signed_authority chain signed spends bare controls bound verified beyond
  exact funded_passes chain idle signed whole spends rfl room pays named paid authority stake

/-- The entries taken from a listing are entries of the table with distinct keys, and
their amounts add up to no more than the balance that covers them. -/
theorem taken_entries (lists : Lists order chain.utxoSet)
    (covers : CoversAt sender chain.utxoSet chain.addressIndex) (sublist : taken.Sublist order)
    (usable : ∀ entry ∈ taken, Usable chain pending sender entry) :
    (taken.map Prod.fst).Nodup ∧
      (∀ entry ∈ taken, unspentAt chain.utxoSet entry.1 = some entry.2) ∧
      (taken.map (fun entry => entry.2.amount.toNat)).sum < 2 ^ 64 := by
  have distinct : (taken.map Prod.fst).Nodup := lists.distinct.sublist (sublist.map Prod.fst)
  have found : ∀ entry ∈ taken, chain.utxoSet.lookup entry.1 = some entry.2 :=
    fun entry member => (lists.entries entry.1 entry.2).mp (sublist.subset member)
  refine ⟨distinct, ?_, ?_⟩
  · intro entry member
    exact (unspentAt_some _ _ _).mpr ⟨found entry member, (usable entry member).unspent⟩
  · have together := weights_le_measure (owned sender) chain.utxoSet (taken.map Prod.fst) distinct
    have weights : (taken.map Prod.fst).map (weightAt (owned sender) chain.utxoSet) =
        taken.map (fun entry => entry.2.amount.toNat) := by
      rw [List.map_map]
      apply List.map_congr_left
      intro entry member
      have own := usable entry member
      rw [Function.comp_apply, weightAt_some _ _ _ _ (found entry member), owned,
        if_pos ⟨own.unspent, own.own⟩]
    have bound := (balanceIn chain.addressIndex sender).toNat_lt
    rw [weights] at together
    exact (together.trans covers).trans_lt bound

/-- What a built payment is. -/
structure Payment (chain : Chain) (sender recipient : Bytes) (amount fee nonce : UInt64)
    (inputs : List TxInput) (change : UInt64) : Prop where
  named : sender ≠ [] ∧ recipient ≠ []
  positive : amount ≠ 0
  funded : Funded chain
    (unsignedTransaction inputs (paymentOutputs sender recipient amount change) fee nonce)
  room : inputsValue chain.utxoSet inputs < 2 ^ 64
  spends : inputs ≠ []
  bare : ∀ input ∈ inputs, input.witness = []
  own : ∀ input ∈ inputs, ∃ utxo, unspentAt chain.utxoSet input.key = some utxo ∧
    utxo.owner = sender

theorem outputsValue_payment (sender recipient : Bytes) (amount change : UInt64) :
    outputsValue (paymentOutputs sender recipient amount change) = amount.toNat + change.toNat := by
  unfold outputsValue paymentOutputs
  split
  · simp
  · rename_i none
    have zero : change = 0 := by
      simpa [gt_iff_lt, UInt64.pos_iff_ne_zero] using none
    simp [zero]

theorem paymentOutputs_named (sender recipient : Bytes) (amount change : UInt64)
    (positive : amount ≠ 0) (named : sender ≠ [] ∧ recipient ≠ []) :
    ∀ output ∈ paymentOutputs sender recipient amount change,
      output.recipient ≠ [] ∧ output.amount ≠ 0 := by
  intro output member
  rcases List.mem_cons.mp member with rfl | rest
  · exact ⟨named.2, positive⟩
  · split at rest
    · rename_i some
      rw [List.mem_singleton.mp rest]
      exact ⟨named.1, UInt64.pos_iff_ne_zero.mp some⟩
    · simp at rest

/-- The inputs that name some entries are worth what the entries are. -/
theorem inputsValue_taken {utxoSet : Table Bytes Utxo}
    (keys : inputs.map TxInput.key = taken.map Prod.fst)
    (entries : ∀ entry ∈ taken, unspentAt utxoSet entry.1 = some entry.2) :
    inputsValue utxoSet inputs = (taken.map (fun entry => entry.2.amount.toNat)).sum := by
  have split : inputsValue utxoSet inputs =
      ((inputs.map TxInput.key).map (unspentAmount utxoSet)).sum := by
    rw [List.map_map]
    rfl
  rw [split, keys, List.map_map]
  congr 1
  apply List.map_congr_left
  intro entry member
  rw [Function.comp_apply, unspentAmount, entries entry member]
  rfl

/-- The guards that a built payment has passed. -/
theorem buildTransaction_ok
    (chosen : selectInputs chain pending sender (amount + fee) 0 [] order = .ok (gathered, inputs))
    (built : buildTransaction chain pending order sender recipient amount fee nonce = .ok tx) :
    (sender ≠ [] ∧ recipient ≠ []) ∧ amount ≠ 0 ∧ overflows fee amount = false ∧
      amount + fee ≤ gathered ∧
      tx = unsignedTransaction inputs
        (paymentOutputs sender recipient amount (gathered - (amount + fee))) fee nonce := by
  rw [buildTransaction] at built
  split at built
  · simp at built
  · rename_i named
    split at built
    · simp at built
    · rename_i positive
      split at built
      · simp at built
      · rename_i fits
        simp only [chosen, bind_ok, Except.ok.injEq, exists_eq_left'] at built
        split at built
        · simp at built
        · rename_i enough
          refine ⟨by simpa using named, positive, by simpa using fits, UInt64.not_lt.mp enough, ?_⟩
          exact ((pure_ok _ _).mp built).symm

/-- A payment that is built is a payment. -/
theorem buildTransaction_payment (lists : Lists order chain.utxoSet)
    (narrow : ∀ key utxo, chain.utxoSet.lookup key = some utxo → NarrowKey key)
    (covers : CoversAt sender chain.utxoSet chain.addressIndex)
    (built : buildTransaction chain pending order sender recipient amount fee nonce = .ok tx) :
    ∃ inputs change,
      tx = unsignedTransaction inputs (paymentOutputs sender recipient amount change) fee nonce ∧
        Payment chain sender recipient amount fee nonce inputs change := by
  have listed : ∀ entry ∈ order, NarrowKey entry.1 := by
    intro entry member
    exact narrow entry.1 entry.2 ((lists.entries _ _).mp member)
  obtain ⟨⟨gathered, inputs⟩, taken, chosen, selects⟩ :=
    selectInputs_selects chain pending sender (amount + fee) 0 [] order listed
  obtain ⟨named, positive, fits, enough, rfl⟩ := buildTransaction_ok chosen built
  obtain ⟨distinct, entries, sum⟩ := taken_entries lists covers selects.sublist selects.usable
  have keys : inputs.map TxInput.key = taken.map Prod.fst := selects.keys
  have total : gathered.toNat = inputsValue chain.utxoSet inputs := by
    rw [selects.gathered, UInt64.toNat_zero, Nat.zero_add, Nat.mod_eq_of_lt sum,
      inputsValue_taken keys entries]
  have required : (amount + fee).toNat = amount.toNat + fee.toNat := by
    rw [UInt64.add_comm, toNat_add_of_not_overflows fee amount (by simp [fits]), Nat.add_comm]
  have bound := gathered.toNat_lt
  have covered := UInt64.le_iff_toNat_le.mp enough
  have change := UInt64.toNat_sub_of_le gathered (amount + fee) enough
  have some : 0 < amount.toNat := by
    rw [Nat.pos_iff_ne_zero]
    intro zero
    exact positive (UInt64.toNat_inj.mp zero)
  -- each input names an entry that the loop took
  have taking : ∀ input ∈ inputs, ∃ entry ∈ taken, entry.1 = input.key := by
    intro input member
    have listed : input.key ∈ taken.map Prod.fst := keys ▸ List.mem_map_of_mem member
    exact List.mem_map.mp listed
  refine ⟨inputs, gathered - (amount + fee), rfl, named, positive, ⟨keys ▸ distinct, ?_, ?_⟩,
    by omega, ?_, selects.bare (by simp), ?_⟩
  · intro input member
    obtain ⟨entry, listed, same⟩ := taking input member
    exact ⟨entry.2, same ▸ entries entry listed, (selects.usable entry listed).mature⟩
  · show inputsValue chain.utxoSet inputs =
      outputsValue (paymentOutputs sender recipient amount (gathered - (amount + fee))) + fee.toNat
    rw [outputsValue_payment, change]
    omega
  · rintro rfl
    rw [inputsValue, List.map_nil, List.sum_nil] at total
    omega
  · intro input member
    obtain ⟨entry, listed, same⟩ := taking input member
    exact ⟨entry.2, same ▸ entries entry listed, (selects.usable entry listed).own⟩

/-- An address with a bound key is not the stake address. -/
theorem bound_ne_stake {signer : Bytes}
    (bound : signerBindsPubkey P signer pubkey = .ok ()) : signer ≠ kStakeAddress := by
  obtain ⟨length, _⟩ := signerBindsPubkey_ok P signer pubkey bound
  rintro rfl
  exact absurd length (by decide)

/-- Validation agrees on a payment whose outputs keep the stake rules. -/
theorem Payment.agrees {change : UInt64}
    (payment : Payment chain sender recipient amount fee nonce inputs change)
    (idle : chain.applyingHeight = 0) (bound : signerBindsPubkey P sender pubkey = .ok ())
    (stake : recipient = kStakeAddress → checkStakeOutput chain
      (inputs.any (fun input => (chain.tickets.lookup input.key).isSome)) ⟨recipient, amount⟩ =
        .ok ()) :
    Agrees P chain sender pubkey
      (unsignedTransaction inputs (paymentOutputs sender recipient amount change) fee nonce) := by
  have other := bound_ne_stake bound
  apply agrees_of_funded chain idle sender pubkey bound inputs _ fee nonce payment.funded
    payment.room payment.spends (by simp [paymentOutputs]) payment.bare
  · intro input member
    obtain ⟨utxo, unspent, rfl⟩ := payment.own input member
    simp [Chain.controls, unspent, other]
  · exact paymentOutputs_named sender recipient amount change payment.positive payment.named
  · intro output member
    by_cases pays : output.recipient = kStakeAddress
    · have first : output = ⟨recipient, amount⟩ := by
        rcases List.mem_cons.mp member with same | rest
        · exact same
        · split at rest
          · rw [List.mem_singleton.mp rest] at pays
            exact absurd pays other
          · simp at rest
      subst first
      exact stake pays
    · simp [checkStakeOutput, pays]

/-- Validation agrees on every payment to another address than that of the stakes. -/
theorem buildTransaction_agrees (idle : chain.applyingHeight = 0)
    (lists : Lists order chain.utxoSet)
    (narrow : ∀ key utxo, chain.utxoSet.lookup key = some utxo → NarrowKey key)
    (covers : CoversAt sender chain.utxoSet chain.addressIndex)
    (bound : signerBindsPubkey P sender pubkey = .ok ()) (plain : recipient ≠ kStakeAddress)
    (built : buildTransaction chain pending order sender recipient amount fee nonce = .ok tx) :
    Agrees P chain sender pubkey tx := by
  obtain ⟨inputs, change, rfl, payment⟩ := buildTransaction_payment lists narrow covers built
  exact payment.agrees idle bound (fun stake => absurd stake plain)

/-! ### Stakes -/

/-- Every ticket stands beside an unspent output to the stake address of its amount, and
such outputs are mature from the start. -/
structure StakesBacked (chain : Chain) : Prop where
  entry : ∀ key ticket, chain.tickets.lookup key = some ticket →
    ∃ utxo, unspentAt chain.utxoSet key = some utxo ∧ utxo.owner = kStakeAddress ∧
      utxo.amount = ticket.amount
  mature : ∀ key utxo, chain.utxoSet.lookup key = some utxo → utxo.owner = kStakeAddress →
    utxo.spendableHeight = 0

/-- Validation agrees on every stake lock while the tickets are backed. -/
theorem buildStakeLock_agrees (idle : chain.applyingHeight = 0) (lists : Lists order chain.utxoSet)
    (narrow : ∀ key utxo, chain.utxoSet.lookup key = some utxo → NarrowKey key)
    (backed : StakesBacked chain) (covers : CoversAt sender chain.utxoSet chain.addressIndex)
    (bound : signerBindsPubkey P sender pubkey = .ok ())
    (built : buildStakeLock chain pending order sender amount fee nonce = .ok tx) :
    Agrees P chain sender pubkey tx := by
  rw [buildStakeLock] at built
  split at built
  · simp at built
  · rename_i active
    split at built
    · simp at built
    · rename_i minimum
      obtain ⟨inputs, change, rfl, payment⟩ := buildTransaction_payment lists narrow covers built
      apply payment.agrees idle bound
      -- an output of the sender has no ticket
      have unlocked :
          inputs.any (fun input => (chain.tickets.lookup input.key).isSome) = false := by
        rw [List.any_eq_false]
        intro input member live
        obtain ⟨ticket, found⟩ := Option.isSome_iff_exists.mp live
        obtain ⟨staked, held, owner, _⟩ := backed.entry input.key ticket found
        obtain ⟨utxo, unspent, rfl⟩ := payment.own input member
        obtain rfl : staked = utxo := Option.some.inj (held.symm.trans unspent)
        exact bound_ne_stake bound owner
      have context : chain.contextHeight = chain.height + 1 := by
        rw [Chain.contextHeight, idle]
        rfl
      intro _
      simp only [Bool.not_eq_true', Bool.not_eq_false, UInt64.not_lt] at active minimum
      simp [checkStakeOutput, unlocked, context, active, minimum]

/-- Validation agrees on every unlock of a ticket by its owner while the tickets are
backed. -/
theorem buildStakeUnlock_agrees (idle : chain.applyingHeight = 0)
    (narrow : ∀ key utxo, chain.utxoSet.lookup key = some utxo → NarrowKey key)
    (backed : StakesBacked chain) {ticketId : Bytes} {ticket : StakeTicket}
    (live : chain.tickets.lookup ticketId = some ticket)
    (bound : signerBindsPubkey P ticket.owner pubkey = .ok ())
    (built : buildStakeUnlock chain ticketId fee nonce = .ok tx) :
    Agrees P chain ticket.owner pubkey tx := by
  obtain ⟨utxo, unspent, owner, amount⟩ := backed.entry ticketId ticket live
  have entry := ((unspentAt_some _ _ _).mp unspent).1
  obtain ⟨sep, input, cut, read, rfl, bare⟩ := inputAt_narrow (narrow ticketId utxo entry)
  simp only [buildStakeUnlock, live, cut, read] at built
  split at built
  · simp at built
  · rename_i more
    obtain rfl := Except.ok.inj built
    have value : inputsValue chain.utxoSet [input] = ticket.amount.toNat := by
      simp [inputsValue, unspentAmount, unspent, amount]
    have width := ticket.amount.toNat_lt
    have rest := UInt64.toNat_sub_of_le ticket.amount fee (UInt64.le_of_lt (UInt64.not_le.mp more))
    have less := UInt64.lt_iff_toNat_lt.mp (UInt64.not_le.mp more)
    have named : ticket.owner ≠ [] := by
      obtain ⟨length, _⟩ := signerBindsPubkey_ok P ticket.owner pubkey bound
      intro unnamed
      rw [unnamed] at length
      simp at length
    apply agrees_of_funded chain idle ticket.owner pubkey bound [input] _ fee nonce
    · refine ⟨List.nodup_singleton _, ?_, ?_⟩
      · intro other member
        rw [List.mem_singleton.mp member]
        exact ⟨utxo, unspent, by simp [backed.mature input.key utxo entry owner]⟩
      · show inputsValue chain.utxoSet [input] =
          outputsValue [⟨ticket.owner, ticket.amount - fee⟩] + fee.toNat
        simp only [value, outputsValue, List.map_cons, List.map_nil, List.sum_cons, List.sum_nil]
        omega
    · omega
    · simp
    · simp
    · simpa using bare
    · simp [Chain.controls, unspent, owner, live]
    · intro output member
      rw [List.mem_singleton.mp member]
      refine ⟨named, ?_⟩
      intro zero
      have none := congrArg UInt64.toNat zero
      rw [rest] at none
      simp at none
      omega
    · intro output member
      rw [List.mem_singleton.mp member]
      simp [checkStakeOutput, bound_ne_stake bound]

end Addition
