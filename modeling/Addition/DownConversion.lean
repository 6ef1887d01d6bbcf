import Addition.BundleCodec
import Addition.Payloads

/-!
# Messages to older peers

The older form gives back every transaction that needs neither witnesses nor shielded data, and every
block of such transactions with its votes and evidence. What the decoder of version 3 accepts has strings
and counts that the older form can hold, so a message that is written anew for an older peer decodes
there to what it carried, and it is held back exactly when the form of the peer has no place for it.
-/

namespace Addition

namespace Payloads

open ByteStrings Checked Wire

/-! ### Hexadecimal payloads -/

theorem fromHexText_toHex (octets : Bytes) : fromHexText (toHex octets) = some octets := by
  have even : (toHex octets).length % 2 = 0 := by
    rw [toHex_length]
    exact Nat.mul_mod_right 2 _
  have digits : (toHex octets).all isHex = true :=
    List.all_eq_true.mpr fun digit here => isHex_of_isLowerHex digit (toHex_lower octets digit here)
  rw [fromHexText, if_pos ⟨even, digits⟩, fromHex_toHex]

/-- Digits do not look like base 64: there is no colon among them. -/
theorem not_b64_toHex (octets : Bytes) : ¬ b64Prefix.isPrefixOf (toHex octets) = true := by
  intro marked
  have colon : byte ':' ∈ toHex octets := (List.isPrefixOf_iff_prefix.mp marked).subset (by decide)
  exact absurd (toHex_lower octets _ colon) (by decide)

variable (P : Primitives)

theorem decodeTxPayload_toHex (binary : Bytes) : decodeTxPayload P (toHex binary) = decodeTxV2 P binary := by
  rw [decodeTxPayload, if_neg (not_b64_toHex binary), fromHexText_toHex]

theorem decodeBlockPayload_toHex (binary : Bytes) :
    decodeBlockPayload P (toHex binary) = decodeBlockV2 P binary := by
  rw [decodeBlockPayload, if_neg (not_b64_toHex binary), fromHexText_toHex]

/-! ### Transactions in the older form -/

/-- A text whose width fits. -/
def Short (text : Bytes) : Prop := text.length < 2 ^ 32

variable {text : Bytes} {tx : Transaction} {block : Block} {input rest binary : Bytes} {proto : Nat}
  {after extensions : Extensions} {body kind : Bytes}

theorem readString_restores (short : Short text) :
    Restores readString (writeString text) text := by
  intro rest
  rw [writeString, if_pos (show text.length < 2 ^ 32 from short)]
  simp only [readString, List.append_assoc, getU32_restores _ short _, Option.bind_eq_bind,
    Option.bind_some, take_restores text _ rfl rest]

/-- The older form can hold a transaction. -/
structure TxOld (tx : Transaction) : Prop where
  signer : Short tx.signer
  signerPubkey : Short tx.signerPubkey
  signature : Short tx.signature
  txids : ∀ input ∈ tx.inputs, Short input.previousTxid ∧ input.witness = []
  recipients : ∀ output ∈ tx.outputs, Short output.recipient
  fewInputs : tx.inputs.length < 2 ^ 32
  fewOutputs : tx.outputs.length < 2 ^ 32
  pays : tx.outputs ≠ []
  plain : tx.shielded = []

theorem readInputV2_restores {input : TxInput} (short : Short input.previousTxid)
    (bare : input.witness = []) :
    Restores readInputV2 (writeString input.previousTxid ++ putU32 input.outputIndex.toNat) input := by
  intro rest
  have index := getU32_restores input.outputIndex.toNat input.outputIndex.toNat_lt rest
  simp only [readInputV2, List.append_assoc, readString_restores short _, Option.bind_eq_bind,
    Option.bind_some, index, Option.pure_def, UInt32.ofNat_toNat, ← bare]

theorem readOutputV2_restores {output : TxOutput} (short : Short output.recipient) :
    Restores readOutputV2 (writeString output.recipient ++ putU64 output.amount) output := by
  intro rest
  simp only [readOutputV2, List.append_assoc, readString_restores short _, getU64_restores _ _,
    Option.bind_eq_bind, Option.bind_some, Option.pure_def]

/-- The end of a form with a checksum. -/
theorem checkEnd_sealed (body : Bytes) (what : String) :
    checkEnd P (sealed P body) (putU32 (checksum32 P body)) true what = .ok () :=
  checkTail_sealed P body what

/-- A transaction comes back from its older form. -/
theorem decodeTxV2_written (old : TxOld tx) :
    decodeTxV2 P (sealed P (txBodyV2 tx)) = .ok tx := by
  have inputs := readMany_restores readInputV2
    (fun input : TxInput => writeString input.previousTxid ++ putU32 input.outputIndex.toNat) tx.inputs
    (fun input here => readInputV2_restores (old.txids input here).1 (old.txids input here).2)
  have outputs := readMany_restores readOutputV2
    (fun output : TxOutput => writeString output.recipient ++ putU64 output.amount) tx.outputs
    (fun output here => readOutputV2_restores (old.recipients output here))
  have front : sealed P (txBodyV2 tx) = ascii "TXB2" ++ (writeString tx.signer ++
      (writeString tx.signerPubkey ++ (writeString tx.signature ++ (putU64 tx.fee ++ (putU64 tx.nonce ++
      (putU32 tx.inputs.length ++ (tx.inputs.flatMap (fun input =>
        writeString input.previousTxid ++ putU32 input.outputIndex.toNat) ++
      (putU32 tx.outputs.length ++ (tx.outputs.flatMap (fun output =>
        writeString output.recipient ++ putU64 output.amount) ++
      putU32 (checksum32 P (txBodyV2 tx))))))))))) := by
    simp only [sealed, txBodyV2, List.append_assoc]
  have magic : (sealed P (txBodyV2 tx)).take 4 = ascii "TXB2" := by
    rw [front]
    exact List.take_left' rfl
  have behind := congrArg (List.drop 4) front
  rw [List.drop_left' (by rfl)] at behind
  have long : 4 ≤ (sealed P (txBodyV2 tx)).length := by
    rw [front, List.length_append]
    exact Nat.le_add_right 4 _
  have some : (!tx.outputs.isEmpty) = true := by simp [old.pays]
  have sum := checkEnd_sealed P (txBodyV2 tx) "tx payload"
  unfold decodeTxV2
  rw [behind, magic]
  simp only [bind_ok, exists_unit, ensure_ok, orError_ok, pure_ok]
  refine ⟨by simp [long], _, readString_restores old.signer _, _, readString_restores old.signerPubkey _, _,
    readString_restores old.signature _, _, getU64_restores _ _, _, getU64_restores _ _, _,
    getU32_restores _ old.fewInputs _, _, inputs _, _, getU32_restores _ old.fewOutputs _, _, outputs _, sum,
    some, ?_⟩
  rw [← old.plain]

/-! ### Blocks in the older form -/

/-- The older form can hold a vote. -/
structure VoteOld (vote : StakeVote) : Prop where
  ticketId : Short vote.ticketId
  votedHash : Short vote.votedHash
  signature : Short vote.signature

/-- The older form can hold a block. -/
structure BlockOld (block : Block) : Prop where
  previousHash : Short block.header.previousHash
  merkleRoot : Short block.header.merkleRoot
  transactions : ∀ tx ∈ block.transactions, TxOld tx ∧ (sealed P (txBodyV2 tx)).length < 2 ^ 32
  fewTransactions : block.transactions.length < 2 ^ 32
  votes : ∀ vote ∈ block.votes, VoteOld vote
  slashes : ∀ slash ∈ block.slashes, VoteOld slash.a ∧ VoteOld slash.b
  fewVotes : block.votes.length ≤ 4096
  fewSlashes : block.slashes.length ≤ 4096
  filled : block.transactions ≠ [] ∨ block.header.height = 0

theorem readVoteV2_restores {vote : StakeVote} (old : VoteOld vote) :
    Restores readVoteV2 (putVoteV2 vote) vote := by
  intro rest
  have flag := getU32_restores (if vote.approve then 1 else 0) (by split <;> decide)
    (writeString vote.signature ++ rest)
  have same : decide ((if vote.approve then 1 else 0) ≠ 0) = vote.approve := by
    cases vote.approve with
    | false => rfl
    | true => rfl
  simp only [readVoteV2, putVoteV2, List.append_assoc, readString_restores old.ticketId _,
    getU64_restores _ _, readString_restores old.votedHash _, flag, readString_restores old.signature _,
    Option.bind_eq_bind, Option.bind_some, Option.pure_def, same]

theorem readSlashV2_restores {slash : SlashEvidence} (a : VoteOld slash.a) (b : VoteOld slash.b) :
    Restores readSlashV2 (putSlashV2 slash) slash := by
  intro rest
  simp only [readSlashV2, putSlashV2, List.append_assoc, readVoteV2_restores a _, readVoteV2_restores b _,
    Option.bind_eq_bind, Option.bind_some, Option.pure_def]

theorem readHeaderV2_restores {header : BlockHeader} (previousHash : Short header.previousHash)
    (merkleRoot : Short header.merkleRoot) :
    Restores readHeaderV2 (putU64 header.height ++ writeString header.previousHash ++
      putU64 header.timestamp ++ putU64 header.nonce ++ putU64 header.difficultyTarget ++
      writeString header.merkleRoot) header := by
  intro rest
  simp only [readHeaderV2, List.append_assoc, readString_restores previousHash _,
    readString_restores merkleRoot _, getU64_restores _ _, Option.bind_eq_bind, Option.bind_some,
    Option.pure_def]

theorem readTxPayloads_restores (txs : List Transaction) (rest : Bytes)
    (each : ∀ tx ∈ txs, TxOld tx ∧ (sealed P (txBodyV2 tx)).length < 2 ^ 32) :
    readTxPayloads P txs.length (txs.flatMap (fun tx =>
      putU32 (sealed P (txBodyV2 tx)).length ++ sealed P (txBodyV2 tx)) ++ rest) = .ok (txs, rest) := by
  induction txs with
  | nil => rfl
  | cons tx others ih =>
    have first := each tx List.mem_cons_self
    have later := ih fun other here => each other (List.mem_cons_of_mem _ here)
    have decoded : decodeTxPayload P (toHex (sealed P (txBodyV2 tx))) = .ok tx := by
      rw [decodeTxPayload_toHex]
      exact decodeTxV2_written P first.1
    rw [List.length_cons, readTxPayloads, List.flatMap_cons, List.append_assoc, List.append_assoc]
    simp only [bind_ok, orError_ok, pure_ok]
    exact ⟨_, getU32_restores _ first.2 _, _, take_restores _ _ rfl _, _, decoded, _, later, rfl⟩

theorem readStakeSection_restores (old : BlockOld P block) (rest : Bytes) :
    readStakeSection (staked block) (stakeSection block ++ rest) =
      .ok ((block.votes, block.slashes), rest) := by
  unfold readStakeSection stakeSection
  split
  · have votes := readMany_restores readVoteV2 putVoteV2 block.votes
      fun vote here => readVoteV2_restores (old.votes vote here)
    have slashes := readMany_restores readSlashV2 putSlashV2 block.slashes
      fun slash here => readSlashV2_restores (old.slashes slash here).1 (old.slashes slash here).2
    have bound : ∀ count, count ≤ 4096 → count < 2 ^ 32 := by
      intro count within
      omega
    simp only [List.append_assoc, bind_ok, orError_ok, pure_ok]
    exact ⟨_, getCount_restores 4096 _ old.fewVotes (bound _ old.fewVotes) _, _, votes _, _,
      getCount_restores 4096 _ old.fewSlashes (bound _ old.fewSlashes) _, _, slashes _, rfl⟩
  · rename_i bare
    obtain ⟨votes, slashes⟩ : block.votes = [] ∧ block.slashes = [] := by simpa [staked] using bare
    rw [votes, slashes]
    rfl

/-- A block comes back from its older form. -/
theorem decodeBlockV2_written (old : BlockOld P block) :
    decodeBlockV2 P (sealed P (blockBodyV2 P block)) = .ok block := by
  have front : sealed P (blockBodyV2 P block) = ascii (if staked block then "BLB3" else "BLB2") ++
      ((putU64 block.header.height ++ writeString block.header.previousHash ++
        putU64 block.header.timestamp ++ putU64 block.header.nonce ++
        putU64 block.header.difficultyTarget ++ writeString block.header.merkleRoot) ++
      (putU32 block.transactions.length ++ (block.transactions.flatMap (fun tx =>
        putU32 (sealed P (txBodyV2 tx)).length ++ sealed P (txBodyV2 tx)) ++
      (stakeSection block ++ putU32 (checksum32 P (blockBodyV2 P block)))))) := by
    simp only [sealed, blockBodyV2, List.append_assoc]
  have width : (ascii (if staked block then "BLB3" else "BLB2")).length = 4 := by
    split <;> rfl
  have magic : (sealed P (blockBodyV2 P block)).take 4 = ascii (if staked block then "BLB3" else "BLB2") := by
    rw [front]
    exact List.take_left' width
  have behind := congrArg (List.drop 4) front
  rw [List.drop_left' width] at behind
  have long : 4 ≤ (sealed P (blockBodyV2 P block)).length := by
    rw [front, List.length_append, width]
    exact Nat.le_add_right 4 _
  have known : ascii (if staked block then "BLB3" else "BLB2") ∈
      [ascii "BLB1", ascii "BLB2", ascii "BLB3"] := by
    split <;> decide
  have form : decide (ascii (if staked block then "BLB3" else "BLB2") = ascii "BLB3") = staked block := by
    cases staked block with
    | false => decide
    | true => decide
  have checked : decide (ascii (if staked block then "BLB3" else "BLB2") ≠ ascii "BLB1") = true := by
    split <;> decide
  have filled : (!(block.transactions.isEmpty && block.header.height != 0)) = true := by
    rcases old.filled with some | zero
    · simp [some]
    · simp [zero]
  have sum := checkEnd_sealed P (blockBodyV2 P block) "block payload"
  have stakes := readStakeSection_restores P old (putU32 (checksum32 P (blockBodyV2 P block)))
  unfold decodeBlockV2
  rw [behind, magic, form, checked]
  simp only [bind_ok, exists_unit, ensure_ok, orError_ok, pure_ok]
  exact ⟨by simp [long, known], _, readHeaderV2_restores old.previousHash old.merkleRoot _, _,
    getU32_restores _ old.fewTransactions _, _, readTxPayloads_restores P _ _ old.transactions, _, stakes, sum,
    filled, rfl⟩

/-! ### What the decoder of version 3 accepts -/

theorem readTagged_short (read : readTagged input = some (text, rest)) :
    Short text := by
  simp only [readTagged, Option.bind_eq_bind, Option.bind_eq_some_iff, Prod.exists] at read
  obtain ⟨tag, _, -, width, _, -, read⟩ := read
  split at read
  · exact absurd read (by simp)
  rename_i within
  simp only [Option.bind_eq_some_iff, Prod.exists, Option.pure_def, Option.some.injEq,
    Prod.mk.injEq] at read
  obtain ⟨stored, left, taken, found, untagged, rfl, rfl⟩ := read
  have sized := (take_accepts width _ stored left taken).2
  have cap : stored.length ≤ kMaxFieldBytes := sized ▸ Nat.not_lt.mp within
  unfold kMaxFieldBytes at cap
  unfold Short
  unfold untag at untagged
  split at untagged
  · obtain rfl := Option.some.inj untagged
    omega
  split at untagged
  · obtain rfl := Option.some.inj untagged
    rw [toHex_length]
    omega
  split at untagged
  · obtain rfl := Option.some.inj untagged
    rw [List.length_append, toHex_length, show pqPrefix.length = 3 from rfl]
    omega
  · exact absurd untagged (by simp)

theorem readInput_short (octets : Bytes) (input : TxInput) (rest : Bytes)
    (read : readInput octets = some (input, rest)) : Short input.previousTxid := by
  simp only [readInput, Option.bind_eq_bind, Option.bind_eq_some_iff, Prod.exists, Option.pure_def,
    Option.some.injEq, Prod.mk.injEq] at read
  obtain ⟨txid, _, named, _, _, _, rfl, _⟩ := read
  exact readTagged_short named

theorem readOutput_short (octets : Bytes) (output : TxOutput) (rest : Bytes)
    (read : readOutput octets = some (output, rest)) : Short output.recipient := by
  simp only [readOutput, Option.bind_eq_bind, Option.bind_eq_some_iff, Prod.exists, Option.pure_def,
    Option.some.injEq, Prod.mk.injEq] at read
  obtain ⟨recipient, _, named, _, _, _, rfl, _⟩ := read
  exact readTagged_short named

/-- An input with its witness is one of the inputs without. -/
theorem attachWitnesses_txid (inputs : List TxInput) (witnesses : List Bytes) :
    ∀ input ∈ attachWitnesses inputs witnesses, ∃ bare ∈ inputs, input.previousTxid = bare.previousTxid := by
  induction inputs generalizing witnesses with
  | nil => exact fun input here => absurd here (by simp [attachWitnesses])
  | cons first others ih =>
    intro input here
    cases witnesses with
    | nil => exact absurd here (by simp [attachWitnesses])
    | cons witness rest =>
      rcases List.mem_cons.mp here with rfl | later
      · exact ⟨first, List.mem_cons_self, rfl⟩
      · obtain ⟨bare, there, same⟩ := ih rest input later
        exact ⟨bare, List.mem_cons_of_mem _ there, same⟩

theorem readWitnessSection_short {inputs result : List TxInput} {octets : Bytes}
    (short : ∀ input ∈ inputs, Short input.previousTxid)
    (read : readWitnessSection inputs octets = .ok (result, rest)) :
    ∀ input ∈ result, Short input.previousTxid := by
  unfold readWitnessSection at read
  split at read
  · obtain ⟨rfl, -⟩ := Prod.mk.inj (Except.ok.inj read)
    exact short
  · simp only [bind_ok, exists_unit, ensure_ok, orError_ok, pure_ok] at read
    obtain ⟨-, -, -, ⟨witnesses, left⟩, -, -, same⟩ := read
    obtain ⟨rfl, -⟩ := Prod.mk.inj same
    intro input here
    obtain ⟨bare, there, txid⟩ := attachWitnesses_txid inputs witnesses input here
    rw [txid]
    exact short bare there

/-- The strings of a transaction are short. -/
structure TxShort (tx : Transaction) : Prop where
  signer : Short tx.signer
  signerPubkey : Short tx.signerPubkey
  signature : Short tx.signature
  txids : ∀ input ∈ tx.inputs, Short input.previousTxid
  recipients : ∀ output ∈ tx.outputs, Short output.recipient

theorem decodeTxV3_short (decoded : decodeTxV3 P binary = .ok tx) :
    TxShort tx := by
  unfold decodeTxV3 at decoded
  simp only [bind_ok, exists_unit, ensure_ok, orError_ok, pure_ok] at decoded
  obtain ⟨-, ⟨⟨signer, signerPubkey, signature, fee, nonce⟩, _⟩, header, ⟨inputCount, _⟩, -, ⟨inputs, _⟩,
    inputsRead, ⟨outputCount, _⟩, -, ⟨outputs, _⟩, outputsRead, ⟨shielded, _⟩, -, ⟨withWitnesses, _⟩,
    witnessed, -, -, rfl⟩ := decoded
  simp only [readTxHeader, Option.bind_eq_bind, Option.bind_eq_some_iff, Prod.exists, Option.pure_def,
    Option.some.injEq, Prod.mk.injEq] at header
  obtain ⟨_, _, first, _, _, second, _, _, third, _, _, _, _, _, _, ⟨rfl, rfl, rfl, rfl, rfl⟩, _⟩ := header
  have bare := Shielded.readMany_each readInput_short _ _ _ _ inputsRead
  exact ⟨readTagged_short first, readTagged_short second, readTagged_short third,
    readWitnessSection_short bare witnessed, Shielded.readMany_each readOutput_short _ _ _ _ outputsRead⟩

/-- What is not held back from the oldest peers is in the older form. -/
theorem decodeTxV3_old
    (decoded : decodeTxV3 P binary = .ok tx) (ancient : proto < 3) (fit : unfit proto tx = false) :
    TxOld tx := by
  have short := decodeTxV3_short P decoded
  have capped := decodeTx_capped P binary tx decoded
  have few : ∀ count, count ≤ kMaxTxIo → count < 2 ^ 32 := by
    intro count within
    unfold kMaxTxIo at within
    omega
  obtain ⟨bare, plain⟩ : (∀ input ∈ tx.inputs, input.witness = []) ∧ tx.shielded = [] := by
    simpa [unfit, txNeedsProto4, ancient] using fit
  exact {
    signer := short.signer
    signerPubkey := short.signerPubkey
    signature := short.signature
    txids := fun input here => ⟨short.txids input here, bare input here⟩
    recipients := short.recipients
    fewInputs := few _ capped.inputs
    fewOutputs := few _ capped.outputs
    pays := capped.pays.resolve_right (not_not.mpr plain)
    plain := plain }

theorem getVote_old (octets : Bytes) (vote : StakeVote) (rest : Bytes)
    (read : getVote octets = some (vote, rest)) : VoteOld vote := by
  simp only [getVote, Option.bind_eq_bind, Option.bind_eq_some_iff, Prod.exists] at read
  obtain ⟨_, _, ticket, _, _, _, _, _, hash, approve, _, _, read⟩ := read
  split at read
  · exact absurd read (by simp)
  · simp only [Option.bind_eq_some_iff, Prod.exists, Option.pure_def, Option.some.injEq,
      Prod.mk.injEq] at read
    obtain ⟨_, _, signature, rfl, _⟩ := read
    exact ⟨readTagged_short ticket, readTagged_short hash, readTagged_short signature⟩

theorem getSlash_old (octets : Bytes) (slash : SlashEvidence) (rest : Bytes)
    (read : getSlash octets = some (slash, rest)) : VoteOld slash.a ∧ VoteOld slash.b := by
  simp only [getSlash, Option.bind_eq_bind, Option.bind_eq_some_iff, Prod.exists, Option.pure_def,
    Option.some.injEq, Prod.mk.injEq] at read
  obtain ⟨_, _, first, _, _, second, rfl, _⟩ := read
  exact ⟨getVote_old _ _ _ first, getVote_old _ _ _ second⟩

/-- The votes and the evidence that were read so far. -/
def ExtensionsOld (extensions : Extensions) : Prop :=
  (∀ vote ∈ extensions.votes, VoteOld vote) ∧
    ∀ slash ∈ extensions.slashes, VoteOld slash.a ∧ VoteOld slash.b

theorem readSection_each {α : Type} {read : Bytes → Option (α × Bytes)} {good : α → Prop}
    (each : ∀ octets item rest, read octets = some (item, rest) → good item) {message : String}
    {content : Bytes} {items : List α} (listed : readSection read message content = .ok items) :
    ∀ item ∈ items, good item := by
  simp only [readSection, bind_ok, exists_unit, ensure_ok, orError_ok, pure_ok] at listed
  obtain ⟨_, _, _, ⟨found, _⟩, many, _, rfl⟩ := listed
  exact Shielded.readMany_each each _ _ _ _ many

theorem readExtension_old
    (old : ExtensionsOld extensions) (read : readExtension extensions input = .ok (after, rest)) :
    ExtensionsOld after := by
  simp only [readExtension, bind_ok, exists_unit, ensure_ok, orError_ok] at read
  obtain ⟨⟨⟨kind, content⟩, _⟩, _, _, read⟩ := read
  dsimp only at read
  split at read
  · simp only [bind_ok, pure_ok] at read
    obtain ⟨votes, listed, same⟩ := read
    obtain ⟨rfl, _⟩ := Prod.mk.inj same
    exact ⟨fun vote here => (List.mem_append.mp here).elim (old.1 vote)
      (readSection_each getVote_old listed vote), old.2⟩
  · simp only [bind_ok, pure_ok] at read
    obtain ⟨slashes, listed, same⟩ := read
    obtain ⟨rfl, _⟩ := Prod.mk.inj same
    exact ⟨old.1, fun slash here => (List.mem_append.mp here).elim (old.2 slash)
      (readSection_each getSlash_old listed slash)⟩

theorem readExtensions_old (count : Nat)
    (old : ExtensionsOld extensions) (read : readExtensions count extensions input = .ok (after, rest)) :
    ExtensionsOld after := by
  induction count generalizing extensions input with
  | zero =>
    obtain ⟨rfl, _⟩ := Prod.mk.inj (Except.ok.inj read)
    exact old
  | succ count ih =>
    simp only [readExtensions, bind_ok] at read
    obtain ⟨⟨next, _⟩, first, later⟩ := read
    exact ih (readExtension_old old first) later

theorem readTransactions_decoded (count : Nat) {txs : List Transaction}
    (read : readTransactions P count input = .ok (txs, rest)) :
    txs.length = count ∧ ∀ tx ∈ txs, ∃ binary, decodeTxV3 P binary = .ok tx := by
  induction count generalizing input txs with
  | zero =>
    obtain ⟨rfl, _⟩ := Prod.mk.inj (Except.ok.inj read)
    exact ⟨rfl, fun tx here => absurd here List.not_mem_nil⟩
  | succ count ih =>
    simp only [readTransactions, bind_ok, orError_ok, pure_ok] at read
    obtain ⟨⟨encoded, _⟩, _, tx, decoded, ⟨others, _⟩, later, same⟩ := read
    obtain ⟨rfl, rfl⟩ := Prod.mk.inj same
    obtain ⟨counted, each⟩ := ih later
    refine ⟨congrArg (· + 1) counted, fun other here => ?_⟩
    rcases List.mem_cons.mp here with rfl | inside
    · exact ⟨encoded, decoded⟩
    · exact each other inside

/-- A block that is not held back from the oldest peers is in the older form when the octets of each of
its transactions can be counted there. -/
theorem decodeBlockV3_old (decoded : decodeBlockV3 P binary = .ok block) (ancient : proto < 3)
    (fit : ∀ tx ∈ block.transactions, unfit proto tx = false)
    (counted : ∀ tx ∈ block.transactions, (sealed P (txBodyV2 tx)).length < 2 ^ 32) : BlockOld P block := by
  have capped := decodeBlock_capped P binary block decoded
  unfold decodeBlockV3 at decoded
  simp only [bind_ok, exists_unit, ensure_ok, orError_ok, pure_ok] at decoded
  obtain ⟨_, ⟨header, _⟩, headerRead, ⟨txCount, _⟩, few, ⟨transactions, _⟩, txs, ⟨_, _⟩, _, ⟨extensions, _⟩,
    sections, _, filled, rfl⟩ := decoded
  obtain ⟨total, each⟩ := readTransactions_decoded P _ txs
  have start : ExtensionsOld ⟨0, [], []⟩ :=
    ⟨fun vote here => absurd here List.not_mem_nil, fun slash here => absurd here List.not_mem_nil⟩
  obtain ⟨votes, slashes⟩ := readExtensions_old _ start sections
  simp only [readBlockHeader, Option.bind_eq_bind, Option.bind_eq_some_iff, Prod.exists, Option.pure_def,
    Option.some.injEq, Prod.mk.injEq] at headerRead
  obtain ⟨_, _, _, _, _, first, _, _, _, _, _, _, _, _, _, _, _, second, rfl, _⟩ := headerRead
  have within := getCount_le _ _ _ _ few
  unfold kMaxBlockTxs at within
  exact {
    previousHash := readTagged_short first
    merkleRoot := readTagged_short second
    transactions := by
      intro tx here
      obtain ⟨octets, own⟩ := each tx here
      exact ⟨decodeTxV3_old P own ancient (fit tx here), counted tx here⟩
    fewTransactions := by
      dsimp only
      omega
    votes := votes
    slashes := slashes
    fewVotes := capped.votes.trans (by decide)
    fewSlashes := capped.slashes.trans (by decide)
    filled := by
      by_contra neither
      simp only [ne_eq, not_or, not_not] at neither
      simp [neither.1, neither.2] at filled }

/-! ### Messages -/

/-- What is announced is decoded as what was written in base 64. -/
theorem decodeTxPayload_encode (tx : Transaction) :
    decodeTxPayload P (encodeTxPayload P tx) = decodeTxV3 P (encodeTxV3 P tx) := by
  have marked : b64Prefix.isPrefixOf (encodeTxPayload P tx) = true :=
    List.isPrefixOf_iff_prefix.mpr (List.prefix_append _ _)
  have body : (encodeTxPayload P tx).drop 4 = Base64.encode (encodeTxV3 P tx) := List.drop_left' rfl
  rw [decodeTxPayload, if_pos marked, body, Base64.decode_encode]

theorem decodeBlockPayload_encode (block : Block) :
    decodeBlockPayload P (encodeBlockPayload P block) = decodeBlockV3 P (encodeBlockV3 P block) := by
  have marked : b64Prefix.isPrefixOf (encodeBlockPayload P block) = true :=
    List.isPrefixOf_iff_prefix.mpr (List.prefix_append _ _)
  have body : (encodeBlockPayload P block).drop 4 = Base64.encode (encodeBlockV3 P block) := List.drop_left' rfl
  rw [decodeBlockPayload, if_pos marked, body, Base64.decode_encode]

/-- A payload in base 64 is one of version 3. -/
theorem decodeTxPayload_b64 (marked : b64Prefix.isPrefixOf body = true)
    (decoded : decodeTxPayload P body = .ok tx) : ∃ raw, decodeTxV3 P raw = .ok tx := by
  rw [decodeTxPayload, if_pos marked] at decoded
  split at decoded
  · exact absurd decoded (by simp)
  · exact ⟨_, decoded⟩

theorem decodeBlockPayload_b64 (marked : b64Prefix.isPrefixOf body = true)
    (decoded : decodeBlockPayload P body = .ok block) : ∃ raw, decodeBlockV3 P raw = .ok block := by
  rw [decodeBlockPayload, if_pos marked] at decoded
  split at decoded
  · exact absurd decoded (by simp)
  · exact ⟨_, decoded⟩

/-- A message of a kind that is looked into is adapted by its body. -/
theorem adaptForPeer_kind {carriesBlock : Bool}
    (known : (kind, carriesBlock) ∈ adaptedPrefixes) (marked : b64Prefix.isPrefixOf body = true)
    (old : proto < 4) :
    adaptForPeer P (kind ++ body) proto =
      if carriesBlock then adaptBlock P (kind ++ body) kind body proto
      else adaptTx P (kind ++ body) kind body proto := by
  have found : adaptedPrefixes.find? (fun tested =>
      tested.1.isPrefixOf (kind ++ body) && b64Prefix.isPrefixOf ((kind ++ body).drop tested.1.length)) =
      some (kind, carriesBlock) := by
    simp only [adaptedPrefixes, List.mem_cons, List.not_mem_nil, or_false, Prod.mk.injEq] at known
    unfold adaptedPrefixes
    rcases known with ⟨rfl, rfl⟩ | ⟨rfl, rfl⟩ | ⟨rfl, rfl⟩ | ⟨rfl, rfl⟩
    · exact List.find?_cons_of_pos marked
    · rw [List.find?_cons_of_neg (by exact Bool.false_ne_true)]
      exact List.find?_cons_of_pos marked
    · rw [List.find?_cons_of_neg (by exact Bool.false_ne_true),
        List.find?_cons_of_neg (by exact Bool.false_ne_true)]
      exact List.find?_cons_of_pos marked
    · rw [List.find?_cons_of_neg (by exact Bool.false_ne_true),
        List.find?_cons_of_neg (by exact Bool.false_ne_true),
        List.find?_cons_of_neg (by exact Bool.false_ne_true)]
      exact List.find?_cons_of_pos marked
  rw [adaptForPeer, if_neg (Nat.not_le.mpr old), found]
  simp only [List.drop_left]

/-- Whether a peer of a protocol has no form for a transaction. -/
def heldBack (proto : Nat) (tx : Transaction) : Bool := decide (proto < 4) && unfit proto tx

theorem adapted_tx
    (known : (kind, false) ∈ adaptedPrefixes) (marked : b64Prefix.isPrefixOf body = true)
    (decoded : decodeTxPayload P body = .ok tx) :
    (heldBack proto tx = true ∧ adaptForPeer P (kind ++ body) proto = []) ∨
      (heldBack proto tx = false ∧ ∃ adapted, adaptForPeer P (kind ++ body) proto = kind ++ adapted ∧
        decodeTxPayload P adapted = .ok tx) := by
  by_cases old : proto < 4
  · have held : heldBack proto tx = unfit proto tx := by simp [heldBack, old]
    rw [held, adaptForPeer_kind P known marked old, adaptTx, decoded]
    dsimp only
    cases fit : unfit proto tx with
    | true => exact .inl ⟨rfl, rfl⟩
    | false =>
      refine .inr ⟨rfl, ?_⟩
      by_cases third : 3 ≤ proto
      · refine ⟨body, ?_, decoded⟩
        simp [third]
      · obtain ⟨raw, read⟩ := decodeTxPayload_b64 P marked decoded
        refine ⟨encodeTxPayloadV2 P tx, by simp [third], ?_⟩
        rw [encodeTxPayloadV2, decodeTxPayload_toHex]
        exact decodeTxV2_written P (decodeTxV3_old P read (Nat.not_le.mp third) fit)
  · refine .inr ⟨by simp [heldBack, old], body, ?_, decoded⟩
    rw [adaptForPeer, if_pos (Nat.not_lt.mp old)]

theorem adapted_block
    (known : (kind, true) ∈ adaptedPrefixes) (marked : b64Prefix.isPrefixOf body = true)
    (decoded : decodeBlockPayload P body = .ok block)
    (counted : proto < 3 → ∀ tx ∈ block.transactions, (sealed P (txBodyV2 tx)).length < 2 ^ 32) :
    (block.transactions.any (heldBack proto) = true ∧ adaptForPeer P (kind ++ body) proto = []) ∨
      (block.transactions.any (heldBack proto) = false ∧
        ∃ adapted, adaptForPeer P (kind ++ body) proto = kind ++ adapted ∧
          decodeBlockPayload P adapted = .ok block) := by
  by_cases old : proto < 4
  · have held : heldBack proto = unfit proto := by
      funext tx
      simp [heldBack, old]
    rw [held, adaptForPeer_kind P known marked old, adaptBlock, decoded]
    dsimp only
    cases fit : block.transactions.any (unfit proto) with
    | true => exact .inl ⟨rfl, rfl⟩
    | false =>
      refine .inr ⟨rfl, ?_⟩
      by_cases third : 3 ≤ proto
      · refine ⟨body, ?_, decoded⟩
        simp [third]
      · obtain ⟨raw, read⟩ := decodeBlockPayload_b64 P marked decoded
        have each : ∀ tx ∈ block.transactions, unfit proto tx = false := by simpa using fit
        refine ⟨encodeBlockPayloadV2 P block, by simp [third], ?_⟩
        rw [encodeBlockPayloadV2, decodeBlockPayload_toHex]
        exact decodeBlockV2_written P (decodeBlockV3_old P read (Nat.not_le.mp third) each
          (counted (Nat.not_le.mp third)))
  · refine .inr ⟨by simp [heldBack, old], body, ?_, decoded⟩
    rw [adaptForPeer, if_pos (Nat.not_lt.mp old)]

/-- A message of version 3 is held back from a peer exactly when its protocol has no form for a
transaction in it; otherwise what the peer is sent decodes to the transaction or the block that the
message carried, with its votes and evidence. The older form counts the octets of a transaction in a block
with a word of 32 bits, so there each of them takes less than 2^32 octets. -/
theorem adapted_same (P : Primitives) (proto : Nat) (kind body : Bytes)
    (marked : b64Prefix.isPrefixOf body = true) :
    (∀ tx, kind ∈ [ascii "TX|", ascii "STEM|"] → decodeTxPayload P body = .ok tx →
      (heldBack proto tx = true ∧ adaptForPeer P (kind ++ body) proto = []) ∨
        (heldBack proto tx = false ∧ ∃ adapted, adaptForPeer P (kind ++ body) proto = kind ++ adapted ∧
          decodeTxPayload P adapted = .ok tx)) ∧
    (∀ block, kind ∈ [ascii "BLK|", ascii "BLKDATA|"] → decodeBlockPayload P body = .ok block →
      (proto < 3 → ∀ tx ∈ block.transactions, (sealed P (txBodyV2 tx)).length < 2 ^ 32) →
      (block.transactions.any (heldBack proto) = true ∧ adaptForPeer P (kind ++ body) proto = []) ∨
        (block.transactions.any (heldBack proto) = false ∧
          ∃ adapted, adaptForPeer P (kind ++ body) proto = kind ++ adapted ∧
            decodeBlockPayload P adapted = .ok block)) := by
  constructor
  · intro tx known decoded
    apply adapted_tx P ?_ marked decoded
    rcases List.mem_cons.mp known with rfl | known
    · decide
    · obtain rfl := List.mem_singleton.mp known
      decide
  · intro block known decoded counted
    apply adapted_block P ?_ marked decoded counted
    rcases List.mem_cons.mp known with rfl | known
    · decide
    · obtain rfl := List.mem_singleton.mp known
      decide

/-- A block with a payment and a vote on the genesis block. -/
def votedBlock : Block :=
  ⟨⟨0, ascii "p", 1, 2, 3, ascii "m"⟩, [payment (ascii "xyz") 5 []],
    [⟨ascii "ticket", 0, ascii "h", true, ascii "s"⟩], []⟩

set_option maxRecDepth 100000 in
/-- A payment and a block with a vote reach a peer of the second protocol. -/
theorem payment_adapted :
    (∃ adapted, adaptForPeer samplePrimitives
        (ascii "TX|" ++ encodeTxPayload samplePrimitives (payment (ascii "xyz") 5 [])) 2 =
          ascii "TX|" ++ adapted ∧
      decodeTxPayload samplePrimitives adapted = .ok (payment (ascii "xyz") 5 [])) ∧
    ∃ adapted, adaptForPeer samplePrimitives
        (ascii "BLK|" ++ encodeBlockPayload samplePrimitives votedBlock) 2 = ascii "BLK|" ++ adapted ∧
      decodeBlockPayload samplePrimitives adapted = .ok votedBlock := by
  have prefixed : ∀ octets, b64Prefix.isPrefixOf (b64Prefix ++ octets) = true :=
    fun octets => List.isPrefixOf_iff_prefix.mpr (List.prefix_append _ _)
  constructor
  · have decoded : decodeTxPayload samplePrimitives (encodeTxPayload samplePrimitives
        (payment (ascii "xyz") 5 [])) = .ok (payment (ascii "xyz") 5 []) := by
      rw [decodeTxPayload_encode]
      rfl
    rcases (adapted_same samplePrimitives 2 (ascii "TX|") _ (prefixed _)).1 _ (by decide) decoded with
      ⟨held, -⟩ | ⟨-, sent⟩
    · exact absurd held (by decide)
    · exact sent
  · have decoded : decodeBlockPayload samplePrimitives (encodeBlockPayload samplePrimitives votedBlock) =
        .ok votedBlock := by
      rw [decodeBlockPayload_encode]
      rfl
    rcases (adapted_same samplePrimitives 2 (ascii "BLK|") _ (prefixed _)).2 _ (by decide) decoded
      (by decide +kernel) with ⟨held, -⟩ | ⟨-, sent⟩
    · exact absurd held (by decide)
    · exact sent

end Payloads

end Addition
