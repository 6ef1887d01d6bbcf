import Addition.Transactions
import Mathlib.Data.Set.Function

/-!
# What a transaction text determines

The text that `hash_transaction` hashes ends in decimal numbers and a digest,
and these can be cut off from the right: fee, nonce and shielded field are
always determined. The front part streams names without escaping. It determines
the lists and the signer of a transaction as soon as the lengths of the names
are known, and not otherwise: a recipient may contain the separators of another
output.

For names of hexadecimal digits the signer, its key and the first input are
determined without the lengths.
-/

namespace Addition

open ByteStrings

variable (P : Primitives)

/-- The text before the fee. -/
def frontText (tx : Transaction) : Bytes :=
  ascii "in[" ++ inputsText tx.inputs ++ ascii "]out[" ++ outputsText tx.outputs ++
    ascii "]signer=" ++ tx.signer ++ ascii "|pub=" ++ tx.signerPubkey

/-- The texts whose digests stand for a transaction. -/
def hashedTexts (tx : Transaction) : Set Bytes := {transactionText P tx, tx.shielded}

theorem hex_not_bar (digit : UInt8) (hex : isHex digit = true) : digit ≠ byte '|' := by
  rintro rfl
  exact absurd hex (by decide)

theorem lowerHex_not_bar (digit : UInt8) (lower : isLowerHex digit = true) : digit ≠ byte '|' :=
  hex_not_bar digit (isHex_of_isLowerHex digit lower)

theorem strongHash_no_bar (text : Bytes) : byte '|' ∉ strongHash P text :=
  fun member => lowerHex_not_bar _ (strongHash_lower P text _ member) rfl

theorem decimal_no_bar (value : Nat) : byte '|' ∉ decimal value :=
  not_mem_decimal value _ (by decide)

/-! ### The end of the text -/

theorem numbers_determined (tx tx' : Transaction)
    (same : frontText tx ++ ascii "|fee=" ++ decimal tx.fee.toNat ++ ascii "|nonce=" ++
        decimal tx.nonce.toNat =
      frontText tx' ++ ascii "|fee=" ++ decimal tx'.fee.toNat ++ ascii "|nonce=" ++
        decimal tx'.nonce.toNat) :
    frontText tx = frontText tx' ∧ tx.fee = tx'.fee ∧ tx.nonce = tx'.nonce := by
  have shape : ∀ tx : Transaction, frontText tx ++ ascii "|fee=" ++ decimal tx.fee.toNat ++
      ascii "|nonce=" ++ decimal tx.nonce.toNat =
        (frontText tx ++ byte '|' :: (ascii "fee=" ++ decimal tx.fee.toNat)) ++
          byte '|' :: (ascii "nonce=" ++ decimal tx.nonce.toNat) := by
    intro tx
    simp [ascii]
  rw [shape, shape] at same
  have plain : ∀ (label : Bytes) (value : Nat), byte '|' ∉ label →
      byte '|' ∉ label ++ decimal value := by
    intro label value absent
    simp [absent, decimal_no_bar]
  obtain ⟨left, nonces⟩ := cut_last (byte '|') _ _ _ _ (plain _ _ (by decide))
    (plain _ _ (by decide)) same
  obtain ⟨front, fees⟩ := cut_last (byte '|') _ _ _ _ (plain _ _ (by decide))
    (plain _ _ (by decide)) left
  have sameFee := decimal_injective _ _ (List.append_cancel_left fees)
  have sameNonce := decimal_injective _ _ (List.append_cancel_left nonces)
  exact ⟨front, UInt64.toNat_inj.mp sameFee, UInt64.toNat_inj.mp sameNonce⟩

/-- Equal texts agree on everything after the signer's key, the shielded field up
to its digest. -/
theorem text_tail_determined (tx tx' : Transaction)
    (same : transactionText P tx = transactionText P tx') :
    frontText tx = frontText tx' ∧ tx.fee = tx'.fee ∧ tx.nonce = tx'.nonce ∧
      shieldedText P tx.shielded = shieldedText P tx'.shielded := by
  have shape : ∀ tx : Transaction, transactionText P tx =
      (frontText tx ++ ascii "|fee=" ++ decimal tx.fee.toNat ++ ascii "|nonce=" ++
        decimal tx.nonce.toNat) ++ shieldedText P tx.shielded := by
    intro tx
    simp [transactionText, frontText]
  have nonceLast : ∀ tx : Transaction, frontText tx ++ ascii "|fee=" ++ decimal tx.fee.toNat ++
      ascii "|nonce=" ++ decimal tx.nonce.toNat =
        (frontText tx ++ ascii "|fee=" ++ decimal tx.fee.toNat) ++
          byte '|' :: (ascii "nonce=" ++ decimal tx.nonce.toNat) := by
    intro tx
    simp [ascii]
  have plain : ∀ tx : Transaction, byte '|' ∉ ascii "nonce=" ++ decimal tx.nonce.toNat := by
    intro tx
    simp only [List.mem_append, not_or]
    exact ⟨by decide, decimal_no_bar _⟩
  have hashed : ∀ text, byte '|' ∉ ascii "sh=" ++ strongHash P text := by
    intro text
    simp only [List.mem_append, not_or]
    exact ⟨by decide, strongHash_no_bar P text⟩
  rw [shape, shape] at same
  by_cases empty : tx.shielded = [] <;> by_cases empty' : tx'.shielded = []
  · simp only [shieldedText, empty, empty', List.isEmpty_nil, ↓reduceIte, List.append_nil] at same
    obtain ⟨front, fee, nonce⟩ := numbers_determined tx tx' same
    exact ⟨front, fee, nonce, by rw [empty, empty']⟩
  · -- the last bar introduces a nonce on the left and a digest on the right
    rw [nonceLast] at same
    simp only [shieldedText, empty, empty', List.isEmpty_nil, ↓reduceIte, List.append_nil,
      List.isEmpty_iff] at same
    have labels := (cut_last (byte '|') _ _ _ _ (plain tx) (hashed tx'.shielded) same).2
    simp [ascii, byte] at labels
  · rw [nonceLast tx'] at same
    simp only [shieldedText, empty, empty', List.isEmpty_nil, ↓reduceIte, List.append_nil,
      List.isEmpty_iff] at same
    have labels := (cut_last (byte '|') _ _ _ _ (hashed tx.shielded) (plain tx') same).2
    simp [ascii, byte] at labels
  · simp only [shieldedText, empty, empty', ↓reduceIte, List.isEmpty_iff] at same
    obtain ⟨numbers, digests⟩ := cut_last (byte '|') _ _ _ _ (hashed tx.shielded)
      (hashed tx'.shielded) same
    obtain ⟨front, fee, nonce⟩ := numbers_determined tx tx' numbers
    refine ⟨front, fee, nonce, ?_⟩
    simp only [shieldedText, empty, empty', ↓reduceIte, List.isEmpty_iff]
    exact congrArg (fun rest => byte '|' :: rest) digests

/-- Without a collision among the shielded fields, the digest stands for the field. -/
theorem shieldedText_injOn (texts : Set Bytes) (injective : Set.InjOn P.sha3 texts)
    (shielded shielded' : Bytes) (member : shielded ∈ texts) (member' : shielded' ∈ texts)
    (same : shieldedText P shielded = shieldedText P shielded') : shielded = shielded' := by
  unfold shieldedText at same
  by_cases empty : shielded = [] <;> by_cases empty' : shielded' = []
  · rw [empty, empty']
  · simp [empty, empty', ascii] at same
  · simp [empty, empty', ascii] at same
  · simp only [List.isEmpty_iff, empty, empty', ↓reduceIte] at same
    exact strongHash_injOn P texts injective member member' (List.append_cancel_left same)

/-- Equal transaction identifiers come from equal texts. -/
theorem hashTransaction_injOn (texts : Set Bytes) (injective : Set.InjOn P.sha3 texts)
    (tx tx' : Transaction) (member : transactionText P tx ∈ texts)
    (member' : transactionText P tx' ∈ texts)
    (same : hashTransaction P tx = hashTransaction P tx') :
    transactionText P tx = transactionText P tx' :=
  strongHash_injOn P texts injective member member' same

/-! ### The front of the text, with the lengths of the names -/

/-- The streamed text of a list of names with numbers. -/
def itemsText (items : List (Bytes × Nat)) : Bytes := items.flatMap (fun entry => item entry.1 entry.2)

/-- Names of known lengths can be read off one by one. -/
theorem itemsText_determined (items items' : List (Bytes × Nat)) (right right' : Bytes)
    (lengths : items.map (fun entry => entry.1.length) = items'.map (fun entry => entry.1.length))
    (same : itemsText items ++ right = itemsText items' ++ right') :
    items = items' ∧ right = right' := by
  induction items generalizing items' with
  | nil =>
    cases items' with
    | nil => exact ⟨rfl, by simpa [itemsText] using same⟩
    | cons entry rest => simp at lengths
  | cons entry rest ih =>
    cases items' with
    | nil => simp at lengths
    | cons entry' rest' =>
      simp only [List.map_cons, List.cons.injEq] at lengths
      have split : ∀ (entry : Bytes × Nat) (rest : List (Bytes × Nat)) (right : Bytes),
          itemsText (entry :: rest) ++ right =
            entry.1 ++ (byte ':' :: (decimal entry.2 ++ byte ';' :: (itemsText rest ++ right))) := by
        intro entry rest right
        simp [itemsText, item]
      rw [split, split] at same
      obtain ⟨names, numbers⟩ := cut_width _ _ _ _ lengths.1 same
      obtain ⟨value, remaining⟩ := cut_decimal (byte ';') _ _ _ _ (by decide)
        (List.cons.inj numbers).2
      obtain ⟨tail, rights⟩ := ih rest' lengths.2 remaining
      exact ⟨by rw [Prod.ext names value, tail], rights⟩

/-- The outpoint an input names. -/
def TxInput.outpoint (input : TxInput) : Bytes × UInt32 := (input.previousTxid, input.outputIndex)

/-- Two transactions with the same lengths of names. -/
structure SameShape (tx tx' : Transaction) : Prop where
  inputs : tx.inputs.map (fun input => input.previousTxid.length) =
    tx'.inputs.map (fun input => input.previousTxid.length)
  outputs : tx.outputs.map (fun output => output.recipient.length) =
    tx'.outputs.map (fun output => output.recipient.length)
  signer : tx.signer.length = tx'.signer.length

/-- Two transactions that agree in everything a signature should cover. -/
structure SameContent (tx tx' : Transaction) : Prop where
  inputs : tx.inputs.map TxInput.outpoint = tx'.inputs.map TxInput.outpoint
  outputs : tx.outputs = tx'.outputs
  signer : tx.signer = tx'.signer
  signerPubkey : tx.signerPubkey = tx'.signerPubkey
  fee : tx.fee = tx'.fee
  nonce : tx.nonce = tx'.nonce
  shielded : tx.shielded = tx'.shielded

theorem SameContent.shape {tx tx' : Transaction} (same : SameContent tx tx') : SameShape tx tx' where
  inputs := by
    have lengths := congrArg (List.map (fun outpoint : Bytes × UInt32 => outpoint.1.length))
      same.inputs
    simpa [TxInput.outpoint, Function.comp_def] using lengths
  outputs := by rw [same.outputs]
  signer := by rw [same.signer]

theorem inputs_of_items (inputs inputs' : List TxInput)
    (same : inputs.map (fun input => (input.previousTxid, input.outputIndex.toNat)) =
      inputs'.map (fun input => (input.previousTxid, input.outputIndex.toNat))) :
    inputs.map TxInput.outpoint = inputs'.map TxInput.outpoint := by
  have read := congrArg (List.map (fun entry : Bytes × Nat => (entry.1, UInt32.ofNat entry.2))) same
  simp only [List.map_map, Function.comp_def, UInt32.ofNat_toNat] at read
  exact read

theorem outputs_of_items (outputs outputs' : List TxOutput)
    (same : outputs.map (fun output => (output.recipient, output.amount.toNat)) =
      outputs'.map (fun output => (output.recipient, output.amount.toNat))) : outputs = outputs' := by
  have read := congrArg
    (List.map (fun entry : Bytes × Nat => (⟨entry.1, UInt64.ofNat entry.2⟩ : TxOutput))) same
  simpa [Function.comp_def] using read

/-- The front text determines its parts once the lengths of the names are known. -/
theorem front_determined (tx tx' : Transaction) (shape : SameShape tx tx')
    (same : frontText tx = frontText tx') :
    tx.inputs.map TxInput.outpoint = tx'.inputs.map TxInput.outpoint ∧ tx.outputs = tx'.outputs ∧
      tx.signer = tx'.signer ∧ tx.signerPubkey = tx'.signerPubkey := by
  have split : ∀ tx : Transaction, frontText tx = ascii "in[" ++
      (itemsText (tx.inputs.map (fun input => (input.previousTxid, input.outputIndex.toNat))) ++
        (ascii "]out[" ++
          (itemsText (tx.outputs.map (fun output => (output.recipient, output.amount.toNat))) ++
            (ascii "]signer=" ++ (tx.signer ++ (ascii "|pub=" ++ tx.signerPubkey)))))) := by
    intro tx
    simp [frontText, itemsText, inputsText, outputsText, List.flatMap_map]
  rw [split, split] at same
  obtain ⟨inputs, afterInputs⟩ := itemsText_determined _ _ _ _
    (by simpa [Function.comp_def] using shape.inputs) (List.append_cancel_left same)
  obtain ⟨outputs, afterOutputs⟩ := itemsText_determined _ _ _ _
    (by simpa [Function.comp_def] using shape.outputs) (List.append_cancel_left afterInputs)
  obtain ⟨signer, keys⟩ := cut_width _ _ _ _ shape.signer (List.append_cancel_left afterOutputs)
  exact ⟨inputs_of_items _ _ inputs, outputs_of_items _ _ outputs, signer,
    List.append_cancel_left keys⟩

/-! ### The front of the text, with names of digits -/

/-- A string of hexadecimal digits of either case. -/
def HexDigits (name : Bytes) : Prop := ∀ digit ∈ name, isHex digit = true

theorem HexDigits.absent {name : Bytes} (digits : HexDigits name) (separator : UInt8)
    (other : isHex separator = false) : separator ∉ name := by
  intro member
  have digit := digits separator member
  simp [other] at digit

theorem strongHash_hexDigits (text : Bytes) : HexDigits (strongHash P text) :=
  fun digit member => isHex_of_isLowerHex digit (strongHash_lower P text digit member)

theorem hashTransaction_ne_nil (tx : Transaction) : hashTransaction P tx ≠ [] := by
  intro empty
  have width := hashTransaction_length P tx
  simp [empty] at width

/-- A list of items with hexadecimal names ends at the first bracket. -/
theorem hexItems_determined (items items' : List (Bytes × Nat)) (right right' : Bytes)
    (digits : ∀ entry ∈ items, entry.1 ≠ [] ∧ HexDigits entry.1)
    (digits' : ∀ entry ∈ items', entry.1 ≠ [] ∧ HexDigits entry.1)
    (same : itemsText items ++ byte ']' :: right = itemsText items' ++ byte ']' :: right') :
    items = items' ∧ right = right' := by
  have split : ∀ (entry : Bytes × Nat) (rest : List (Bytes × Nat)) (right : Bytes),
      itemsText (entry :: rest) ++ right =
        entry.1 ++ byte ':' :: (decimal entry.2 ++ byte ';' :: (itemsText rest ++ right)) := by
    intro entry rest right
    simp [itemsText, item]
  have nonempty : ∀ (entry : Bytes × Nat) (rest : List (Bytes × Nat)) (right right' : Bytes),
      entry.1 ≠ [] ∧ HexDigits entry.1 → byte ']' :: right ≠ itemsText (entry :: rest) ++ right' := by
    intro entry rest right right' named same
    rw [split] at same
    obtain ⟨⟨first, name⟩, number⟩ | ⟨name, number⟩ := entry
    · exact named.1 rfl
    · simp only [List.cons_append, List.cons.injEq] at same
      exact named.2.absent (byte ']') (by decide) (by simp [same.1])
  induction items generalizing items' with
  | nil =>
    cases items' with
    | nil => exact ⟨rfl, by simpa [itemsText] using same⟩
    | cons entry rest => exact absurd same (nonempty entry rest right _ (digits' entry (by simp)))
  | cons entry rest ih =>
    cases items' with
    | nil => exact absurd same.symm (nonempty entry rest right' _ (digits entry (by simp)))
    | cons entry' rest' =>
      rw [split, split] at same
      obtain ⟨names, numbers⟩ := cut_first (byte ':') _ _ _ _
        ((digits entry (by simp)).2.absent _ (by decide))
        ((digits' entry' (by simp)).2.absent _ (by decide)) same
      obtain ⟨value, remaining⟩ := cut_decimal (byte ';') _ _ _ _ (by decide) numbers
      obtain ⟨tail, rights⟩ := ih rest'
        (fun other member => digits other (by simp [member]))
        (fun other member => digits' other (by simp [member])) remaining
      exact ⟨by rw [Prod.ext names value, tail], rights⟩

/-- The names of a transaction's inputs and of its signer are digits. -/
structure HexNames (tx : Transaction) : Prop where
  inputs : ∀ input ∈ tx.inputs, input.previousTxid ≠ [] ∧ HexDigits input.previousTxid
  signer : HexDigits tx.signer
  signerPubkey : HexDigits tx.signerPubkey

/-- With names of digits everything but the cut between the outputs is determined. -/
theorem hex_front_determined (tx tx' : Transaction) (names : HexNames tx) (names' : HexNames tx')
    (same : frontText tx = frontText tx') :
    tx.inputs.map TxInput.outpoint = tx'.inputs.map TxInput.outpoint ∧
      outputsText tx.outputs = outputsText tx'.outputs ∧ tx.signer = tx'.signer ∧
      tx.signerPubkey = tx'.signerPubkey := by
  have atPubkey : ∀ tx : Transaction, frontText tx =
      (ascii "in[" ++ inputsText tx.inputs ++ ascii "]out[" ++ outputsText tx.outputs ++
        ascii "]signer=" ++ tx.signer) ++ byte '|' :: (ascii "pub=" ++ tx.signerPubkey) := by
    intro tx
    simp [frontText, ascii]
  have atSigner : ∀ tx : Transaction,
      ascii "in[" ++ inputsText tx.inputs ++ ascii "]out[" ++ outputsText tx.outputs ++
        ascii "]signer=" ++ tx.signer =
      (ascii "in[" ++ inputsText tx.inputs ++ ascii "]out[" ++ outputsText tx.outputs ++
        ascii "]signer") ++ byte '=' :: tx.signer := by
    intro tx
    simp [ascii]
  have atInputs : ∀ tx : Transaction,
      ascii "in[" ++ inputsText tx.inputs ++ ascii "]out[" ++ outputsText tx.outputs ++
        ascii "]signer" =
      ascii "in[" ++
        (itemsText (tx.inputs.map (fun input => (input.previousTxid, input.outputIndex.toNat))) ++
          byte ']' :: (ascii "out[" ++ (outputsText tx.outputs ++ ascii "]signer"))) := by
    intro tx
    simp [itemsText, inputsText, List.flatMap_map, ascii]
  have plainKey : ∀ tx : Transaction, HexNames tx → byte '|' ∉ ascii "pub=" ++ tx.signerPubkey := by
    intro tx names
    simp only [List.mem_append, not_or]
    exact ⟨by decide, names.signerPubkey.absent _ (by decide)⟩
  have listed : ∀ tx : Transaction, HexNames tx →
      ∀ entry ∈ tx.inputs.map (fun input => (input.previousTxid, input.outputIndex.toNat)),
        entry.1 ≠ [] ∧ HexDigits entry.1 := by
    intro tx names entry member
    obtain ⟨input, inside, rfl⟩ := List.mem_map.mp member
    exact names.inputs input inside
  rw [atPubkey, atPubkey] at same
  obtain ⟨left, keys⟩ := cut_last (byte '|') _ _ _ _ (plainKey tx names) (plainKey tx' names') same
  rw [atSigner, atSigner] at left
  obtain ⟨lists, signer⟩ := cut_last (byte '=') _ _ _ _ (names.signer.absent _ (by decide))
    (names'.signer.absent _ (by decide)) left
  rw [atInputs, atInputs] at lists
  obtain ⟨inputs, outputs⟩ := hexItems_determined _ _ _ _ (listed tx names) (listed tx' names')
    (List.append_cancel_left lists)
  exact ⟨inputs_of_items _ _ inputs,
    List.append_cancel_right (List.append_cancel_left outputs), signer,
    List.append_cancel_left keys⟩

/-- A transaction without inputs shares no text with one whose first input is
named by digits. -/
theorem front_inputs_separated (tx tx' : Transaction) (none : tx.inputs = [])
    (some : tx'.inputs ≠ []) (named : ∀ input ∈ tx'.inputs,
      input.previousTxid ≠ [] ∧ HexDigits input.previousTxid) : frontText tx ≠ frontText tx' := by
  intro same
  obtain ⟨input, rest, listed⟩ := List.exists_cons_of_ne_nil some
  obtain ⟨nonempty, digits⟩ := named input (by simp [listed])
  obtain ⟨first, name, spelled⟩ := List.exists_cons_of_ne_nil nonempty
  have bracket : first = byte ']' := by
    have heads := congrArg (fun text => text[3]?) same
    simp only [frontText, none, listed, inputsText, List.flatMap_cons, item, spelled] at heads
    simpa [ascii] using heads.symm
  exact digits.absent (byte ']') (by decide) (by simp [spelled, bracket])

/-! ### What a signature covers -/

/-- The output checks of `validate_transaction`: named recipients and positive
amounts. -/
def StructurallyValid (tx : Transaction) : Prop :=
  ∀ output ∈ tx.outputs, output.recipient ≠ [] ∧ output.amount ≠ 0

instance (tx : Transaction) : Decidable (StructurallyValid tx) :=
  inferInstanceAs (Decidable (∀ output ∈ tx.outputs, output.recipient ≠ [] ∧ output.amount ≠ 0))

/-- Two transactions with the same identifier, and no SHA3-512 collision among
their texts, agree in everything that a signature should cover exactly when the
names of one have the lengths of the names of the other. -/
theorem same_id_binds_iff (P : Primitives) (tx tx' : Transaction)
    (injective : Set.InjOn P.sha3 (hashedTexts P tx ∪ hashedTexts P tx'))
    (same : hashTransaction P tx = hashTransaction P tx') :
    SameContent tx tx' ↔ SameShape tx tx' := by
  refine ⟨SameContent.shape, fun shape => ?_⟩
  have texts := hashTransaction_injOn P _ injective tx tx' (by simp [hashedTexts])
    (by simp [hashedTexts]) same
  obtain ⟨front, fee, nonce, digests⟩ := text_tail_determined P tx tx' texts
  obtain ⟨inputs, outputs, signer, signerPubkey⟩ := front_determined tx tx' shape front
  have shielded := shieldedText_injOn P _ injective tx.shielded tx'.shielded
    (by simp [hashedTexts]) (by simp [hashedTexts]) digests
  exact ⟨inputs, outputs, signer, signerPubkey, fee, nonce, shielded⟩

/-- A transaction with a single output to a name. -/
def payment (recipient : Bytes) (amount : UInt64) (signature : Bytes) : Transaction :=
  ⟨[⟨ascii "t", 0, []⟩], [⟨recipient, amount⟩], ascii "s", [], signature, 1, 1, []⟩

/-- The signature is in no text, so it does not enter the comparison. -/
theorem payment_bound : SameContent (payment (ascii "a") 5 []) (payment (ascii "a") 5 [1]) := by
  refine (same_id_binds_iff samplePrimitives (payment (ascii "a") 5 []) (payment (ascii "a") 5 [1])
    ?_ rfl).mpr ⟨rfl, rfl, rfl⟩
  refine injOn_listed _ [transactionText samplePrimitives (payment (ascii "a") 5 []), []] _ ?_
    (by decide)
  rintro text ((rfl | rfl) | (rfl | rfl)) <;> decide

/-- No hash function makes the identifier bind the outputs: the separators may
stand inside a recipient's name. -/
theorem same_id_different_outputs :
    ¬ ∃ P : Primitives, ∀ tx tx' : Transaction, StructurallyValid tx → StructurallyValid tx' →
      hashTransaction P tx = hashTransaction P tx' → SameContent tx tx' := by
  rintro ⟨P, binds⟩
  let joined := payment (ascii "a:5;b") 7 []
  let separate : Transaction := { joined with outputs := [⟨ascii "a", 5⟩, ⟨ascii "b", 7⟩] }
  have same : hashTransaction P joined = hashTransaction P separate := by
    refine congrArg (strongHash P) ?_
    rfl
  have content := binds joined separate (by decide) (by decide) same
  exact absurd content.outputs (by decide)

end Addition
