import Addition.Readers

/-!
# The wire format read back

The decoders of the binary format, applied to what the encoders produced. A
transaction or a block comes back unchanged when its widths and counts are within
the caps that the decoders apply and every transaction has an output or a bundle;
and nothing that violates those caps ever comes out of a decoder.
-/

namespace Addition.Wire

open ByteStrings Checked

/-! ### Tagged strings -/

/-- The stored octets of a string are within the cap. -/
def Narrow (text : Bytes) : Prop := (tagged text).2.length ≤ kMaxFieldBytes

theorem tagged_length_le (text : Bytes) : (tagged text).2.length ≤ text.length := by
  unfold tagged
  split
  · rw [fromHex_length, List.length_drop]
    omega
  · split
    · rw [fromHex_length]
      omega
    · exact Nat.le_refl _

theorem isLowerHexField_iff (text : Bytes) :
    isLowerHexField text = true ↔
      text ≠ [] ∧ text.length % 2 = 0 ∧ ∀ digit ∈ text, isLowerHex digit = true := by
  simp [isLowerHexField, and_assoc]

/-- The octets of a nonempty even string of digits are not empty. -/
theorem fromHex_ne_nil (digits : Bytes) (some : digits ≠ []) (even : digits.length % 2 = 0) :
    fromHex digits ≠ [] := by
  intro none
  have width := congrArg List.length none
  rw [fromHex_length, List.length_nil] at width
  have positive := List.length_pos_iff.mpr some
  omega

/-- The tag and the stored octets denote the string. -/
theorem untag_tagged (text : Bytes) : untag (tagged text).1 (tagged text).2 = some text := by
  unfold tagged
  split
  · rename_i signed
    obtain ⟨front, field⟩ := Bool.and_eq_true_iff.mp signed
    obtain ⟨nonempty, even, lower⟩ := (isLowerHexField_iff _).mp field
    have whole : pqPrefix ++ text.drop 3 = text := by
      obtain ⟨rest, rfl⟩ := List.isPrefixOf_iff_prefix.mp front
      rfl
    have stored := fromHex_ne_nil _ nonempty even
    simp [untag, stored, toHex_fromHex _ even lower, whole]
  · split
    · rename_i field
      obtain ⟨nonempty, even, lower⟩ := (isLowerHexField_iff _).mp field
      have stored := fromHex_ne_nil _ nonempty even
      simp [untag, stored, toHex_fromHex _ even lower]
    · simp [untag]

theorem readTagged_restores (text : Bytes) (narrow : Narrow text) :
    Restores readTagged (writeTagged text) text := by
  intro rest
  have bound : (tagged text).2.length < 2 ^ 32 := by
    have cap := narrow
    unfold Narrow kMaxFieldBytes at cap
    omega
  have width := getU32_restores (tagged text).2.length bound ((tagged text).2 ++ rest)
  have stored := take_restores (tagged text).2 _ rfl rest
  have within : ¬ (tagged text).2.length > kMaxFieldBytes := Nat.not_lt.mpr narrow
  simp only [readTagged, writeTagged, List.cons_append, List.append_assoc, getU8,
    Option.bind_eq_bind, Option.bind_some, width, within, ↓reduceIte, stored, untag_tagged,
    Option.pure_def]

/-! ### Transactions -/

/-- The fields of a transaction are within the caps of the decoder. -/
structure TxFits (tx : Transaction) : Prop where
  signer : Narrow tx.signer
  signerPubkey : Narrow tx.signerPubkey
  signature : Narrow tx.signature
  shielded : Narrow tx.shielded
  txids : ∀ input ∈ tx.inputs, Narrow input.previousTxid
  witnesses : ∀ input ∈ tx.inputs, input.witness.length ≤ kMaxFieldBytes
  recipients : ∀ output ∈ tx.outputs, Narrow output.recipient

/-- What the decoder enforces on a transaction. -/
structure TxCapped (tx : Transaction) : Prop where
  inputs : tx.inputs.length ≤ kMaxTxIo
  outputs : tx.outputs.length ≤ kMaxTxIo
  pays : tx.outputs ≠ [] ∨ tx.shielded ≠ []

theorem readInput_restores (input : TxInput) (narrow : Narrow input.previousTxid) :
    Restores readInput (writeTagged input.previousTxid ++ putU32 input.outputIndex.toNat)
      { input with witness := [] } := by
  intro rest
  have index := getU32_restores input.outputIndex.toNat input.outputIndex.toNat_lt rest
  simp only [readInput, List.append_assoc, readTagged_restores _ narrow _, Option.bind_eq_bind,
    Option.bind_some, index, Option.pure_def, UInt32.ofNat_toNat]

theorem readOutput_restores (output : TxOutput) (narrow : Narrow output.recipient) :
    Restores readOutput (writeTagged output.recipient ++ putU64 output.amount) output := by
  intro rest
  simp only [readOutput, List.append_assoc, readTagged_restores _ narrow _, getU64_restores _ _,
    Option.bind_eq_bind, Option.bind_some, Option.pure_def]

theorem readWitness_restores (witness : Bytes) (within : witness.length ≤ kMaxFieldBytes) :
    Restores readWitness (putU32 witness.length ++ witness) witness := by
  intro rest
  have bound : witness.length < 2 ^ 32 := by
    unfold kMaxFieldBytes at within
    omega
  have not : ¬ witness.length > kMaxFieldBytes := Nat.not_lt.mpr within
  simp only [readWitness, List.append_assoc, getU32_restores _ bound _, Option.bind_eq_bind,
    Option.bind_some, not, ↓reduceIte, take_restores witness _ rfl rest]

/-- The inputs without their witnesses. -/
def bareInputs (inputs : List TxInput) : List TxInput :=
  inputs.map (fun input => { input with witness := [] })

theorem readInputs_restores (inputs : List TxInput)
    (narrow : ∀ input ∈ inputs, Narrow input.previousTxid) :
    Restores (readMany readInput inputs.length)
      (inputs.flatMap (fun input =>
        writeTagged input.previousTxid ++ putU32 input.outputIndex.toNat)) (bareInputs inputs) := by
  have read := readMany_restores readInput
    (fun input : TxInput => writeTagged input.previousTxid ++ putU32 input.outputIndex.toNat)
    (bareInputs inputs) (by
      intro bare member
      obtain ⟨input, listed, rfl⟩ := List.mem_map.mp member
      exact readInput_restores input (narrow input listed))
  unfold bareInputs at read ⊢
  rwa [List.flatMap_map, List.length_map] at read

/-- Giving the inputs their own witnesses restores them. -/
theorem attachWitnesses_own (inputs : List TxInput) :
    attachWitnesses (bareInputs inputs) (inputs.map TxInput.witness) = inputs := by
  unfold attachWitnesses bareInputs
  rw [List.zipWith_map, List.zipWith_self]
  exact List.map_id _

/-- The witness section gives the inputs their witnesses back, and is absent when
none has one. -/
theorem readWitnessSection_restores (inputs : List TxInput) (tail : Bytes) (width : tail.length = 4)
    (within : ∀ input ∈ inputs, input.witness.length ≤ kMaxFieldBytes) :
    readWitnessSection (bareInputs inputs) (witnessSection inputs ++ tail) = .ok (inputs, tail) := by
  unfold witnessSection
  by_cases witnessed : inputs.any (fun input => !input.witness.isEmpty) = true
  · rw [if_pos witnessed]
    have read := readMany_restores readWitness
      (fun witness : Bytes => putU32 witness.length ++ witness) (inputs.map TxInput.witness) (by
        intro witness member
        obtain ⟨input, listed, rfl⟩ := List.mem_map.mp member
        exact readWitness_restores input.witness (within input listed)) tail
    rw [List.flatMap_map, List.length_map] at read
    have long : ¬ (1 :: inputs.flatMap (fun input =>
        putU32 input.witness.length ++ input.witness) ++ tail).length ≤ 4 := by
      simp only [List.cons_append, List.length_cons, List.length_append]
      omega
    have count : (bareInputs inputs).length = inputs.length := List.length_map _
    have some : (inputs.map TxInput.witness).any (fun witness => !witness.isEmpty) = true := by
      rw [List.any_map]
      exact witnessed
    unfold readWitnessSection
    rw [if_neg long, count]
    simp only [bind_ok, exists_unit, ensure_ok, orError_ok, pure_ok, List.cons_append]
    exact ⟨_, rfl, rfl, _, read, some, by rw [attachWitnesses_own]⟩
  · rw [if_neg witnessed, List.nil_append]
    have bare : bareInputs inputs = inputs := by
      refine (List.map_congr_left fun input member => ?_).trans (List.map_id _)
      have none : input.witness = [] := by
        by_contra some
        exact witnessed (List.any_eq_true.mpr ⟨input, member, by simpa using some⟩)
      rw [id, ← none]
    unfold readWitnessSection
    rw [if_pos (by omega), bare]

variable (P : Primitives)

theorem checksum32_lt (data : Bytes) : checksum32 P data < 2 ^ 32 := by
  have bound := leValue_lt ((P.sha3 data).val.take 4)
  have width : ((P.sha3 data).val.take 4).length = 4 := by
    rw [List.length_take, (P.sha3 data).property]
    rfl
  rw [width] at bound
  exact bound

/-- The checksum of a sealed text is the one that is tested. -/
theorem checkTail_sealed (body : Bytes) (what : String) :
    checkTail P (sealed P body) (putU32 (checksum32 P body)) what = .ok () := by
  have width : (putU32 (checksum32 P body)).length = 4 := by simp [putU32]
  have front : (sealed P body).take ((sealed P body).length - 4) = body := by
    unfold sealed
    rw [List.length_append, width, Nat.add_sub_cancel]
    exact List.take_left' rfl
  simp only [checkTail, bind_ok, exists_unit, ensure_ok, decide_eq_true_eq]
  exact ⟨width, by rw [front, leValue_putU32 _ (checksum32_lt P body)]⟩

theorem readTxHeader_restores (tx : Transaction) (fits : TxFits tx) :
    Restores readTxHeader (writeTagged tx.signer ++ writeTagged tx.signerPubkey ++
      writeTagged tx.signature ++ putU64 tx.fee ++ putU64 tx.nonce)
      (tx.signer, tx.signerPubkey, tx.signature, tx.fee, tx.nonce) := by
  intro rest
  simp only [readTxHeader, List.append_assoc, readTagged_restores _ fits.signer _,
    readTagged_restores _ fits.signerPubkey _, readTagged_restores _ fits.signature _,
    getU64_restores _ _, Option.bind_eq_bind, Option.bind_some, Option.pure_def]

/-- The octets of a transaction after the magic. -/
def txOctets (tx : Transaction) : Bytes :=
  writeTagged tx.signer ++ writeTagged tx.signerPubkey ++ writeTagged tx.signature ++
    putU64 tx.fee ++ putU64 tx.nonce ++
    (putU32 tx.inputs.length ++
    (tx.inputs.flatMap (fun input =>
      writeTagged input.previousTxid ++ putU32 input.outputIndex.toNat) ++
    (putU32 tx.outputs.length ++
    (tx.outputs.flatMap (fun output => writeTagged output.recipient ++ putU64 output.amount) ++
    (writeTagged tx.shielded ++
    (witnessSection tx.inputs ++ putU32 (checksum32 P (txBody tx))))))))

theorem encodeTx_split (tx : Transaction) : encodeTxV3 P tx = ascii "TXV3" ++ txOctets P tx := by
  simp only [encodeTxV3, sealed, txBody, txOctets, List.append_assoc]

/-- A text with its magic and enough octets behind it. -/
theorem magic_passes (magic octets : Bytes) (four : magic.length = 4) (long : 4 ≤ octets.length) :
    (decide (8 ≤ (magic ++ octets).length) && magic.isPrefixOf (magic ++ octets)) = true := by
  rw [Bool.and_eq_true, decide_eq_true_eq, List.isPrefixOf_iff_prefix, List.length_append]
  exact ⟨by omega, List.prefix_append _ _⟩

theorem writeTagged_length (text : Bytes) :
    (writeTagged text).length = 5 + (tagged text).2.length := by
  simp only [writeTagged, putU32, List.length_cons, List.length_append, leBytes_length]
  omega

/-- A transaction within the caps comes back unchanged. -/
theorem decodeTx_encodeTx (tx : Transaction) (fits : TxFits tx) (capped : TxCapped tx) :
    decodeTxV3 P (encodeTxV3 P tx) = .ok tx := by
  have ioBound : ∀ count, count ≤ kMaxTxIo → count < 2 ^ 32 := by
    intro count within
    unfold kMaxTxIo at within
    omega
  have inputsCount := getCount_restores kMaxTxIo tx.inputs.length capped.inputs
    (ioBound _ capped.inputs)
  have outputsCount := getCount_restores kMaxTxIo tx.outputs.length capped.outputs
    (ioBound _ capped.outputs)
  have inputs := readInputs_restores tx.inputs fits.txids
  have outputs := readMany_restores readOutput
    (fun output : TxOutput => writeTagged output.recipient ++ putU64 output.amount) tx.outputs
    (fun output member => readOutput_restores output (fits.recipients output member))
  have tailWidth : (putU32 (checksum32 P (txBody tx))).length = 4 := by simp [putU32]
  have witnesses := readWitnessSection_restores tx.inputs (putU32 (checksum32 P (txBody tx)))
    tailWidth fits.witnesses
  have tail := checkTail_sealed P (txBody tx) "tx v3"
  have magic := magic_passes (ascii "TXV3") (txOctets P tx) rfl (by
    have width := writeTagged_length tx.signer
    simp only [txOctets, List.length_append]
    omega)
  have paid : (!(tx.outputs.isEmpty && tx.shielded.isEmpty)) = true := by
    rcases capped.pays with some | some <;> simp [some]
  rw [← encodeTx_split] at magic
  have front : (encodeTxV3 P tx).drop 4 = txOctets P tx := by
    rw [encodeTx_split]
    exact List.drop_left' rfl
  unfold decodeTxV3
  rw [front]
  simp only [bind_ok, exists_unit, ensure_ok, orError_ok, pure_ok]
  exact ⟨magic, _, readTxHeader_restores tx fits _, _, inputsCount _, _, inputs _, _,
    outputsCount _, _, outputs _, _, readTagged_restores _ fits.shielded _, _, witnesses, tail, paid,
    rfl⟩

theorem attachWitnesses_length (inputs : List TxInput) (witnesses : List Bytes)
    (same : witnesses.length = inputs.length) :
    (attachWitnesses inputs witnesses).length = inputs.length := by
  rw [attachWitnesses, List.length_zipWith, same, Nat.min_self]

theorem readWitnessSection_length (inputs result : List TxInput) (input rest : Bytes)
    (read : readWitnessSection inputs input = .ok (result, rest)) :
    result.length = inputs.length := by
  unfold readWitnessSection at read
  split at read
  · obtain ⟨rfl, _⟩ := Prod.mk.inj (Except.ok.inj read)
    rfl
  · simp only [bind_ok, exists_unit, ensure_ok, orError_ok, pure_ok] at read
    obtain ⟨_, _, _, ⟨witnesses, _⟩, listed, _, same⟩ := read
    obtain ⟨rfl, _⟩ := Prod.mk.inj same
    exact attachWitnesses_length _ _ (readMany_length _ _ _ _ _ listed)

theorem getCount_le (cap : Nat) (input rest : Bytes) (count : Nat)
    (read : getCount cap input = some (count, rest)) : count ≤ cap := by
  unfold getCount at read
  split at read
  · split at read
    · rename_i within
      obtain ⟨rfl, _⟩ := Prod.mk.inj (Option.some.inj read)
      exact within
    · simp at read
  · simp at read

/-- Whatever comes out of the decoder is within its caps. -/
theorem decodeTx_capped (binary : Bytes) (tx : Transaction)
    (decoded : decodeTxV3 P binary = .ok tx) : TxCapped tx := by
  unfold decodeTxV3 at decoded
  simp only [bind_ok, exists_unit, ensure_ok, orError_ok, pure_ok] at decoded
  obtain ⟨_, _, _, ⟨inputCount, _⟩, inputsCount, ⟨inputs, _⟩, inputsRead, ⟨outputCount, _⟩,
    outputsCount, ⟨outputs, _⟩, outputsRead, ⟨shielded, _⟩, _, ⟨withWitnesses, _⟩, section_, _, paid,
    rfl⟩ := decoded
  refine ⟨?_, ?_, ?_⟩
  · rw [readWitnessSection_length _ _ _ _ section_, readMany_length _ _ _ _ _ inputsRead]
    exact getCount_le _ _ _ _ inputsCount
  · rw [readMany_length _ _ _ _ _ outputsRead]
    exact getCount_le _ _ _ _ outputsCount
  · by_contra neither
    simp only [ne_eq, not_or, not_not] at neither
    simp [neither.1, neither.2] at paid

/-! ### Votes and sections -/

/-- The strings of a vote are within the cap. -/
structure VoteFits (vote : StakeVote) : Prop where
  ticketId : Narrow vote.ticketId
  votedHash : Narrow vote.votedHash
  signature : Narrow vote.signature

theorem getVote_restores (vote : StakeVote) (fits : VoteFits vote) :
    Restores getVote (putVote vote) vote := by
  intro rest
  have flag : ((if vote.approve then 1 else 0 : UInt8) > 1) = False := by
    cases vote.approve <;> decide
  have same : ((if vote.approve then 1 else 0 : UInt8) == 1) = vote.approve := by
    cases vote.approve <;> rfl
  simp only [getVote, putVote, List.append_assoc, List.cons_append,
    readTagged_restores _ fits.ticketId _, getU64_restores _ _, readTagged_restores _ fits.votedHash _,
    getU8, readTagged_restores _ fits.signature _, Option.bind_eq_bind, Option.bind_some, flag,
    ↓reduceIte, same, Option.pure_def]

theorem getSlash_restores (slash : SlashEvidence) (a : VoteFits slash.a) (b : VoteFits slash.b) :
    Restores getSlash (putVote slash.a ++ putVote slash.b) slash := by
  intro rest
  simp only [getSlash, List.append_assoc, getVote_restores _ a _, getVote_restores _ b _,
    Option.bind_eq_bind, Option.bind_some, Option.pure_def]

/-- The content of a section: a count and that many items. -/
def sectionContent {α : Type} (put : α → Bytes) (items : List α) : Bytes :=
  putU32 items.length ++ items.flatMap put

theorem readSection_restores {α : Type} (read : Bytes → Option (α × Bytes)) (put : α → Bytes)
    (message : String) (items : List α) (some : items ≠ []) (few : items.length ≤ kMaxExtItems)
    (each : ∀ item ∈ items, Restores read (put item) item) :
    readSection read message (sectionContent put items) = .ok items := by
  have count := getCount_restores kMaxExtItems items.length few (by
    unfold kMaxExtItems at few
    omega) (items.flatMap put)
  have listed := readMany_restores read put items each []
  rw [List.append_nil] at listed
  have positive : items.length ≠ 0 := fun none => some (List.length_eq_zero_iff.mp none)
  simp only [readSection, bind_ok, exists_unit, ensure_ok, orError_ok, pure_ok, sectionContent,
    decide_eq_true_eq]
  exact ⟨_, count, positive, _, listed, rfl, rfl⟩

/-- A vote section after nothing, or after nothing of its kind. -/
theorem readExtension_votes (votes : List StakeVote) (rest : Bytes) (some : votes ≠ [])
    (few : votes.length ≤ kMaxExtItems) (fits : ∀ vote ∈ votes, VoteFits vote)
    (narrow : (sectionContent putVote votes).length < 2 ^ 32) :
    readExtension ⟨0, [], []⟩ (extension 1 putVote votes ++ rest) = .ok (⟨1, votes, []⟩, rest) := by
  have content := readSection_restores getVote putVote "invalid block v3 vote" votes some few
    (fun vote member => getVote_restores vote (fits vote member))
  have width := getU32_restores _ narrow (sectionContent putVote votes ++ rest)
  have taken := take_restores (sectionContent putVote votes) _ rfl rest
  have written : extension 1 putVote votes ++ rest =
      1 :: (putU32 (sectionContent putVote votes).length ++ (sectionContent putVote votes ++ rest)) := by
    simp [extension, some, sectionContent]
  rw [written]
  unfold readExtension
  simp only [getU8, Option.bind_eq_bind, Option.bind_some, width, taken, Option.pure_def, bind_ok,
    exists_unit, ensure_ok, orError_ok]
  refine ⟨_, rfl, rfl, ?_⟩
  simp only [↓reduceIte, bind_ok, pure_ok, List.nil_append]
  exact ⟨votes, content, rfl⟩

/-- A slash section after the votes. -/
theorem readExtension_slashes (extensions : Extensions) (slashes : List SlashEvidence) (rest : Bytes)
    (before : extensions.lastKind < 2) (none : extensions.slashes = []) (some : slashes ≠ [])
    (few : slashes.length ≤ kMaxExtItems)
    (fits : ∀ slash ∈ slashes, VoteFits slash.a ∧ VoteFits slash.b)
    (narrow : (sectionContent (fun slash => putVote slash.a ++ putVote slash.b) slashes).length <
      2 ^ 32) :
    readExtension extensions
        (extension 2 (fun slash => putVote slash.a ++ putVote slash.b) slashes ++ rest) =
      .ok (⟨2, extensions.votes, slashes⟩, rest) := by
  have content := readSection_restores getSlash
    (fun slash : SlashEvidence => putVote slash.a ++ putVote slash.b) "invalid block v3 slash" slashes
    some few (fun slash member => getSlash_restores slash (fits slash member).1 (fits slash member).2)
  generalize written : sectionContent (fun slash : SlashEvidence =>
    putVote slash.a ++ putVote slash.b) slashes = octets at content narrow
  have width := getU32_restores _ narrow (octets ++ rest)
  have taken := take_restores octets _ rfl rest
  have whole : extension 2 (fun slash : SlashEvidence => putVote slash.a ++ putVote slash.b) slashes ++
      rest = 2 :: (putU32 octets.length ++ (octets ++ rest)) := by
    rw [← written]
    simp [extension, some, sectionContent]
  rw [whole]
  unfold readExtension
  simp only [getU8, Option.bind_eq_bind, Option.bind_some, width, taken, Option.pure_def, bind_ok,
    exists_unit, ensure_ok, orError_ok]
  refine ⟨_, rfl, ?_, ?_⟩
  · simp [before]
  · have other : ((2 : UInt8) = 1) = False := by decide
    simp only [other, ↓reduceIte, bind_ok, pure_ok, none, List.nil_append]
    exact ⟨slashes, content, rfl⟩

/-! ### Blocks -/

/-- The widths and counts of a block are within the caps of the decoder. -/
structure BlockFits (block : Block) : Prop where
  previousHash : Narrow block.header.previousHash
  merkleRoot : Narrow block.header.merkleRoot
  transactions : ∀ tx ∈ block.transactions, TxFits tx ∧ (encodeTxV3 P tx).length < 2 ^ 32
  fewTransactions : block.transactions.length ≤ kMaxBlockTxs
  votes : ∀ vote ∈ block.votes, VoteFits vote
  slashes : ∀ slash ∈ block.slashes, VoteFits slash.a ∧ VoteFits slash.b
  voteSection : (sectionContent putVote block.votes).length < 2 ^ 32
  slashSection :
    (sectionContent (fun slash => putVote slash.a ++ putVote slash.b) block.slashes).length < 2 ^ 32
  coinbase : block.transactions ≠ []

/-- What the decoder enforces on a block beyond its widths: every transaction has an
output or a bundle and at most ten thousand inputs and outputs, and there are at most
256 votes and 256 slashes. -/
structure BlockCapped (block : Block) : Prop where
  transactions : ∀ tx ∈ block.transactions, TxCapped tx
  votes : block.votes.length ≤ kMaxExtItems
  slashes : block.slashes.length ≤ kMaxExtItems

theorem readBlockHeader_restores (header : BlockHeader) (previousHash : Narrow header.previousHash)
    (merkleRoot : Narrow header.merkleRoot) :
    Restores readBlockHeader (putU64 header.height ++ writeTagged header.previousHash ++
      putU64 header.timestamp ++ putU64 header.nonce ++ putU64 header.difficultyTarget ++
      writeTagged header.merkleRoot) header := by
  intro rest
  simp only [readBlockHeader, List.append_assoc, getU64_restores _ _,
    readTagged_restores _ previousHash _, readTagged_restores _ merkleRoot _, Option.bind_eq_bind,
    Option.bind_some, Option.pure_def]

theorem readTransactions_restores (txs : List Transaction) (rest : Bytes)
    (fits : ∀ tx ∈ txs, TxFits tx ∧ (encodeTxV3 P tx).length < 2 ^ 32)
    (capped : ∀ tx ∈ txs, TxCapped tx) :
    readTransactions P txs.length
        (txs.flatMap (fun tx => putU32 (encodeTxV3 P tx).length ++ encodeTxV3 P tx) ++ rest) =
      .ok (txs, rest) := by
  induction txs with
  | nil => rfl
  | cons tx others ih =>
    obtain ⟨fit, narrow⟩ := fits tx (by simp)
    have later := ih (fun other member => fits other (by simp [member]))
      (fun other member => capped other (by simp [member]))
    have width := getU32_restores _ narrow
    have taken := take_restores (encodeTxV3 P tx) _ rfl
    rw [List.length_cons, readTransactions]
    simp only [List.flatMap_cons, List.append_assoc, width _, taken _, Option.bind_eq_bind,
      Option.bind_some, bind_ok, orError_ok, pure_ok]
    exact ⟨_, rfl, tx, decodeTx_encodeTx P tx fit (capped tx (by simp)), _, later, rfl⟩

/-- The extension sections of a block and how many there are. -/
theorem readExtensions_restores (block : Block) (rest : Bytes) (fits : BlockFits P block)
    (capped : BlockCapped block) :
    ∃ kind, readExtensions
        ((if block.votes.isEmpty then 0 else 1) + (if block.slashes.isEmpty then 0 else 1))
        ⟨0, [], []⟩ (extension 1 putVote block.votes ++
          (extension 2 (fun slash => putVote slash.a ++ putVote slash.b) block.slashes ++ rest)) =
      .ok (⟨kind, block.votes, block.slashes⟩, rest) := by
  by_cases noVotes : block.votes = []
  · have silent : extension 1 putVote block.votes = [] := by simp [extension, noVotes]
    by_cases noSlashes : block.slashes = []
    · have quiet : extension 2 (fun slash : SlashEvidence => putVote slash.a ++ putVote slash.b)
          block.slashes = [] := by simp [extension, noSlashes]
      rw [silent, quiet]
      exact ⟨0, by simp [noVotes, noSlashes, readExtensions]⟩
    · have read := readExtension_slashes ⟨0, [], []⟩ block.slashes rest (by decide : (0 : UInt8) < 2)
        rfl noSlashes capped.slashes fits.slashes fits.slashSection
      rw [silent, List.nil_append]
      refine ⟨2, ?_⟩
      simp only [noVotes, List.isEmpty_nil, ↓reduceIte, List.isEmpty_iff, noSlashes, Nat.zero_add,
        readExtensions, bind_ok]
      exact ⟨_, read, rfl⟩
  · have first := readExtension_votes block.votes
      (extension 2 (fun slash => putVote slash.a ++ putVote slash.b) block.slashes ++ rest) noVotes
      capped.votes fits.votes fits.voteSection
    by_cases noSlashes : block.slashes = []
    · have quiet : extension 2 (fun slash : SlashEvidence => putVote slash.a ++ putVote slash.b)
          block.slashes = [] := by simp [extension, noSlashes]
      refine ⟨1, ?_⟩
      rw [quiet] at first ⊢
      simp only [noSlashes, List.isEmpty_nil, ↓reduceIte, List.isEmpty_iff, noVotes, Nat.add_zero,
        readExtensions, bind_ok]
      exact ⟨_, first, rfl⟩
    · have second := readExtension_slashes ⟨1, block.votes, []⟩ block.slashes rest
        (by decide : (1 : UInt8) < 2) rfl noSlashes capped.slashes fits.slashes fits.slashSection
      refine ⟨2, ?_⟩
      simp only [List.isEmpty_iff, noVotes, noSlashes, ↓reduceIte, readExtensions, bind_ok]
      exact ⟨_, first, _, second, rfl⟩

/-- The octets of a block after the magic. -/
def blockOctets (block : Block) : Bytes :=
  putU64 block.header.height ++ writeTagged block.header.previousHash ++
    putU64 block.header.timestamp ++ putU64 block.header.nonce ++
    putU64 block.header.difficultyTarget ++ writeTagged block.header.merkleRoot ++
    (putU32 block.transactions.length ++
    (block.transactions.flatMap (fun tx => putU32 (encodeTxV3 P tx).length ++ encodeTxV3 P tx) ++
    (putU32 ((if block.votes.isEmpty then 0 else 1) + (if block.slashes.isEmpty then 0 else 1)) ++
    (extension 1 putVote block.votes ++
    (extension 2 (fun slash => putVote slash.a ++ putVote slash.b) block.slashes ++
    putU32 (checksum32 P (blockBody P block)))))))

theorem encodeBlock_split (block : Block) :
    encodeBlockV3 P block = ascii "BLV3" ++ blockOctets P block := by
  simp only [encodeBlockV3, sealed, blockBody, blockOctets, List.append_assoc]

/-- A block within the caps comes back unchanged. -/
theorem decodeBlock_encodeBlock (block : Block) (fits : BlockFits P block)
    (capped : BlockCapped block) : decodeBlockV3 P (encodeBlockV3 P block) = .ok block := by
  have few := fits.fewTransactions
  have txCount := getCount_restores kMaxBlockTxs block.transactions.length few (by
    unfold kMaxBlockTxs at few
    omega)
  have extBound : (if block.votes.isEmpty then 0 else 1) + (if block.slashes.isEmpty then 0 else 1) ≤
      2 := by
    split <;> split <;> omega
  have extCount := getCount_restores 2 _ extBound (by omega)
  obtain ⟨kind, extensions⟩ := readExtensions_restores P block
    (putU32 (checksum32 P (blockBody P block))) fits capped
  have tail := checkTail_sealed P (blockBody P block) "block v3"
  have magic := magic_passes (ascii "BLV3") (blockOctets P block) rfl (by
    have width := writeTagged_length block.header.previousHash
    simp only [blockOctets, List.length_append]
    omega)
  have filled : (!(block.transactions.isEmpty && block.header.height != 0)) = true := by
    simp [fits.coinbase]
  rw [← encodeBlock_split] at magic
  have front : (encodeBlockV3 P block).drop 4 = blockOctets P block := by
    rw [encodeBlock_split]
    exact List.drop_left' rfl
  unfold decodeBlockV3
  rw [front]
  simp only [bind_ok, exists_unit, ensure_ok, orError_ok, pure_ok]
  exact ⟨magic, _, readBlockHeader_restores block.header fits.previousHash fits.merkleRoot _, _,
    txCount _, _, readTransactions_restores P block.transactions _ fits.transactions
      capped.transactions, _, extCount _, _, extensions, tail, filled, rfl⟩

theorem readTransactions_capped (count : Nat) (input rest : Bytes) (txs : List Transaction)
    (read : readTransactions P count input = .ok (txs, rest)) : ∀ tx ∈ txs, TxCapped tx := by
  induction count generalizing input txs with
  | zero =>
    obtain ⟨rfl, _⟩ := Prod.mk.inj (Except.ok.inj read)
    simp
  | succ count ih =>
    simp only [readTransactions, bind_ok, orError_ok, pure_ok] at read
    obtain ⟨⟨encoded, _⟩, _, tx, decoded, ⟨others, _⟩, later, same⟩ := read
    obtain ⟨rfl, rfl⟩ := Prod.mk.inj same
    intro other member
    rcases List.mem_cons.mp member with rfl | inside
    · exact decodeTx_capped P encoded other decoded
    · exact ih _ _ later other inside

/-- The sections read so far hold at most the capped number of items each, and none of
a kind that may still come. -/
structure ExtensionsCapped (extensions : Extensions) : Prop where
  votes : extensions.votes.length ≤ kMaxExtItems
  slashes : extensions.slashes.length ≤ kMaxExtItems
  votesToCome : extensions.lastKind < 1 → extensions.votes = []
  slashesToCome : extensions.lastKind < 2 → extensions.slashes = []

theorem readSection_few {α : Type} (read : Bytes → Option (α × Bytes)) (message : String)
    (content : Bytes) (items : List α) (listed : readSection read message content = .ok items) :
    items.length ≤ kMaxExtItems := by
  simp only [readSection, bind_ok, exists_unit, ensure_ok, orError_ok, pure_ok] at listed
  obtain ⟨⟨count, _⟩, counted, _, ⟨found, _⟩, many, _, rfl⟩ := listed
  rw [readMany_length _ _ _ _ _ many]
  exact getCount_le _ _ _ _ counted

theorem readExtension_capped (extensions after : Extensions) (input rest : Bytes)
    (capped : ExtensionsCapped extensions)
    (read : readExtension extensions input = .ok (after, rest)) : ExtensionsCapped after := by
  simp only [readExtension, bind_ok, exists_unit, ensure_ok, orError_ok, Bool.and_eq_true,
    decide_eq_true_eq, Bool.or_eq_true, beq_iff_eq] at read
  obtain ⟨⟨⟨kind, content⟩, _⟩, _, ⟨above, known⟩, read⟩ := read
  dsimp only at above known read
  split at read
  · rename_i first
    simp only [bind_ok, pure_ok] at read
    obtain ⟨votes, listed, same⟩ := read
    obtain ⟨rfl, _⟩ := Prod.mk.inj same
    rw [first] at above
    have few := readSection_few _ _ _ _ listed
    refine ⟨?_, capped.slashes, fun less => ?_, fun _ => capped.slashesToCome ?_⟩
    · show (extensions.votes ++ votes).length ≤ _
      rw [capped.votesToCome above, List.nil_append]
      exact few
    · exact absurd (show (1 : UInt8) < 1 from first ▸ less) (by decide)
    · exact UInt8.lt_trans above (by decide)
  · rename_i other
    simp only [bind_ok, pure_ok] at read
    obtain ⟨slashes, listed, same⟩ := read
    obtain ⟨rfl, _⟩ := Prod.mk.inj same
    have second : kind = 2 := known.resolve_left other
    rw [second] at above
    have few := readSection_few _ _ _ _ listed
    refine ⟨capped.votes, ?_, fun less => ?_, fun less => ?_⟩
    · show (extensions.slashes ++ slashes).length ≤ _
      rw [capped.slashesToCome above, List.nil_append]
      exact few
    · exact absurd (show (2 : UInt8) < 1 from second ▸ less) (by decide)
    · exact absurd (show (2 : UInt8) < 2 from second ▸ less) (by decide)

theorem readExtensions_capped (count : Nat) (extensions after : Extensions) (input rest : Bytes)
    (capped : ExtensionsCapped extensions)
    (read : readExtensions count extensions input = .ok (after, rest)) : ExtensionsCapped after := by
  induction count generalizing extensions input with
  | zero =>
    obtain ⟨rfl, _⟩ := Prod.mk.inj (Except.ok.inj read)
    exact capped
  | succ count ih =>
    simp only [readExtensions, bind_ok] at read
    obtain ⟨⟨next, _⟩, first, later⟩ := read
    exact ih next _ (readExtension_capped extensions next _ _ capped first) later

/-- Whatever block comes out of the decoder is within its caps. -/
theorem decodeBlock_capped (binary : Bytes) (block : Block)
    (decoded : decodeBlockV3 P binary = .ok block) : BlockCapped block := by
  unfold decodeBlockV3 at decoded
  simp only [bind_ok, exists_unit, ensure_ok, orError_ok, pure_ok] at decoded
  obtain ⟨_, ⟨_, _⟩, _, ⟨_, _⟩, _, ⟨transactions, _⟩, txs, ⟨_, _⟩, _, ⟨extensions, _⟩, sections, _, _,
    rfl⟩ := decoded
  have start : ExtensionsCapped ⟨0, [], []⟩ :=
    ⟨Nat.zero_le _, Nat.zero_le _, fun _ => rfl, fun _ => rfl⟩
  have capped := readExtensions_capped _ _ _ _ _ start sections
  exact ⟨readTransactions_capped P _ _ _ _ txs, capped.votes, capped.slashes⟩

end Addition.Wire
