import Addition.Canonical
import Addition.DownConversion

/-!
# Older forms of what was accepted

A string takes at most twice its tagged octets in the older form, so an older form is at most twice as
long as the encoding of version 3, which is no longer than what was decoded. The transactions of a
message of fewer than 2^31 octets can therefore be counted by the words of 32 bits of the older form,
and messages are lines of 4 MiB at most. What was accepted and has no witness and no shielded data is
what its older form is decoded to.
-/

namespace Addition

namespace Payloads

open ByteStrings Checked Wire

/-! ### Widths -/

/-- The digits of a string are two for each stored octet, behind a marker at most. -/
theorem length_le_tagged (text : Bytes) : text.length ≤ 2 * (tagged text).2.length + 3 := by
  unfold tagged
  split
  · rename_i marked
    obtain ⟨-, even, -⟩ := (isLowerHexField_iff _).mp (Bool.and_eq_true_iff.mp marked).2
    rw [List.length_drop] at even
    dsimp only
    rw [fromHex_length, List.length_drop]
    omega
  · split
    · rename_i digits
      obtain ⟨-, even, -⟩ := (isLowerHexField_iff _).mp digits
      dsimp only
      rw [fromHex_length]
      omega
    · dsimp only
      omega

theorem writeString_length_le (text : Bytes) :
    (writeString text).length ≤ 2 * (writeTagged text).length := by
  have stored := length_le_tagged text
  rw [writeTagged_length, writeString]
  split
  · rw [List.length_append, putU32, leBytes_length]
    omega
  · exact Nat.zero_le _

theorem flatMap_length_le {α : Type} (older newer : α → Bytes) (items : List α)
    (each : ∀ item ∈ items, (older item).length ≤ 2 * (newer item).length) :
    (items.flatMap older).length ≤ 2 * (items.flatMap newer).length := by
  induction items with
  | nil => exact Nat.zero_le _
  | cons item rest ih =>
    have first := each item List.mem_cons_self
    have later := ih fun other member => each other (List.mem_cons_of_mem _ member)
    simp only [List.flatMap_cons, List.length_append]
    omega

variable (P : Primitives)

/-- The older form of a transaction is at most twice as long as its encoding. -/
theorem txV2_length_le (tx : Transaction) :
    (sealed P (txBodyV2 tx)).length ≤ 2 * (encodeTxV3 P tx).length := by
  have signer := writeString_length_le tx.signer
  have signerPubkey := writeString_length_le tx.signerPubkey
  have signature := writeString_length_le tx.signature
  have inputs := flatMap_length_le
    (fun input => writeString input.previousTxid ++ putU32 input.outputIndex.toNat)
    (fun input => writeTagged input.previousTxid ++ putU32 input.outputIndex.toNat) tx.inputs
    (fun input _ => by
      have txid := writeString_length_le input.previousTxid
      simp only [List.length_append]
      omega)
  have outputs := flatMap_length_le
    (fun output => writeString output.recipient ++ putU64 output.amount)
    (fun output => writeTagged output.recipient ++ putU64 output.amount) tx.outputs
    (fun output _ => by
      have recipient := writeString_length_le output.recipient
      simp only [List.length_append]
      omega)
  simp only [sealed, txBodyV2, encodeTxV3, txBody, List.length_append]
  have older : (ascii "TXB2").length = 4 := rfl
  have newer : (ascii "TXV3").length = 4 := rfl
  simp only [putU32, leBytes_length] at inputs outputs ⊢
  omega

variable {block : Block} {tx : Transaction} {raw : Bytes}

/-- A transaction of a block is in the encoding of the block. -/
theorem encodeTx_length_le (member : tx ∈ block.transactions) :
    (encodeTxV3 P tx).length ≤ (encodeBlockV3 P block).length := by
  have counted := transactions_length P block.transactions
  have one : 4 + (encodeTxV3 P tx).length ≤ (block.transactions.map (txWeight P)).sum :=
    List.le_sum_of_mem (List.mem_map.mpr ⟨tx, member, rfl⟩)
  simp only [encodeBlockV3, sealed, blockBody, List.length_append] at counted ⊢
  omega

/-- What a block takes was counted when it was accepted. -/
theorem decodeBlockV3_counted {binary : Bytes} (short : binary.length < 2 ^ 31)
    (decoded : decodeBlockV3 P binary = .ok block) :
    ∀ tx ∈ block.transactions, (sealed P (txBodyV2 tx)).length < 2 ^ 32 := by
  intro tx member
  have older := txV2_length_le P tx
  have within := encodeTx_length_le P member
  have shorter := (decodeBlock_spells P binary block decoded).shorter
  omega

/-- A body in base 64 has more letters than it stands for octets. -/
theorem decodeBlockPayload_short {body : Bytes} (marked : b64Prefix.isPrefixOf body = true)
    (decoded : decodeBlockPayload P body = .ok block) :
    ∃ raw, raw.length ≤ body.length ∧ decodeBlockV3 P raw = .ok block := by
  rw [decodeBlockPayload, if_pos marked] at decoded
  split at decoded
  · exact absurd decoded (by simp)
  · rename_i raw read
    have letters := Base64.decode_length read
    rw [List.length_drop] at letters
    exact ⟨raw, letters.trans (Nat.sub_le _ _), decoded⟩

/-! ### Messages that are adapted -/

/-- An input of a transaction carries a script witness. -/
def HasWitness (tx : Transaction) : Prop := ∃ input ∈ tx.inputs, input.witness ≠ []

/-- A protocol has no form for a transaction: none before the fourth has witnesses, and the second has
no shielded data either. -/
def NoForm (proto : Nat) (tx : Transaction) : Prop := HasWitness tx ∨ proto = 2 ∧ tx.shielded ≠ []

/-- A message is dropped exactly when there is no form for what it carries, and otherwise what is sent
is read as the same value. -/
structure Preserved {α : Type} (decode : Bytes → Except String α) (noForm : Prop) (kind : Bytes) (value : α)
    (adapted : Bytes) : Prop where
  dropped : adapted = [] ↔ noForm
  kept : ¬ noForm → ∃ payload, adapted = kind ++ payload ∧ decode payload = .ok value

/-- A transaction is held back exactly when it has no older form. -/
theorem heldBack_iff {proto : Nat} (older : proto ∈ [2, 3]) (tx : Transaction) :
    heldBack proto tx = true ↔ NoForm proto tx := by
  simp only [List.mem_cons, List.not_mem_nil, or_false] at older
  rcases older with rfl | rfl
  · simp [heldBack, unfit, txNeedsProto4, NoForm, HasWitness]
  · simp [heldBack, unfit, txNeedsProto4, NoForm, HasWitness]

/-- Both ways in which a message goes on, as one statement. -/
theorem preserved_of_cases {α : Type} {decode : Bytes → Except String α} {held : Bool} {noForm : Prop}
    {kind : Bytes} {value : α} {adapted : Bytes} (some : kind ≠ []) (same : held = true ↔ noForm)
    (cases' : (held = true ∧ adapted = []) ∨
      (held = false ∧ ∃ payload, adapted = kind ++ payload ∧ decode payload = .ok value)) :
    Preserved decode noForm kind value adapted := by
  rcases cases' with ⟨back, rfl⟩ | ⟨on, payload, rfl, decoded⟩
  · exact ⟨⟨fun _ => same.mp back, fun _ => rfl⟩, fun formed => absurd (same.mp back) formed⟩
  · have formed : ¬ noForm := fun none => by
      rw [same.mpr none] at on
      exact absurd on (by decide)
    exact ⟨⟨fun empty => absurd (List.append_eq_nil_iff.mp empty).1 some, fun none => absurd none formed⟩,
      fun _ => ⟨payload, rfl, decoded⟩⟩

/-- The older form of what was accepted is decoded to it. -/
theorem decodeTxPayload_older (decoded : decodeTxV3 P raw = .ok tx)
    (formed : ¬ NoForm 2 tx) : decodeTxPayload P (encodeTxPayloadV2 P tx) = .ok tx := by
  have fit : unfit 2 tx = false := by
    have free := mt (heldBack_iff (by decide) tx).mp formed
    simpa [heldBack] using free
  rw [encodeTxPayloadV2, decodeTxPayload_toHex]
  exact decodeTxV2_written P (decodeTxV3_old P decoded (by decide) fit)

theorem decodeBlockPayload_older (short : raw.length < 2 ^ 31)
    (decoded : decodeBlockV3 P raw = .ok block) (formed : ∀ tx ∈ block.transactions, ¬ NoForm 2 tx) :
    decodeBlockPayload P (encodeBlockPayloadV2 P block) = .ok block := by
  have fit : ∀ tx ∈ block.transactions, unfit 2 tx = false := by
    intro tx member
    have free := mt (heldBack_iff (by decide) tx).mp (formed tx member)
    simpa [heldBack] using free
  rw [encodeBlockPayloadV2, decodeBlockPayload_toHex]
  exact decodeBlockV2_written P (decodeBlockV3_old P decoded (by decide) fit
    (decodeBlockV3_counted P short decoded))

/-- A transaction or a block in the form of version 3 is dropped for an older peer exactly when the
protocol of the peer has no form for it, and otherwise the peer reads the same transaction, or the same
block with its votes and evidence. The older form of what was accepted is decoded to it. A message is a
line of 4 MiB at most; here that of a block has fewer than 2^31 octets. -/
theorem content_preserved (P : Primitives) :
    (∀ kind ∈ [ascii "TX|", ascii "STEM|"], ∀ body tx, b64Prefix.isPrefixOf body = true →
      decodeTxPayload P body = .ok tx → ∀ proto ∈ [2, 3],
        Preserved (decodeTxPayload P) (NoForm proto tx) kind tx (adaptForPeer P (kind ++ body) proto)) ∧
    (∀ kind ∈ [ascii "BLK|", ascii "BLKDATA|"], ∀ body block, b64Prefix.isPrefixOf body = true →
      body.length < 2 ^ 31 → decodeBlockPayload P body = .ok block → ∀ proto ∈ [2, 3],
        Preserved (decodeBlockPayload P) (∃ tx ∈ block.transactions, NoForm proto tx) kind block
          (adaptForPeer P (kind ++ body) proto)) ∧
    (∀ raw tx, decodeTxV3 P raw = .ok tx → ¬ NoForm 2 tx →
      decodeTxPayload P (encodeTxPayloadV2 P tx) = .ok tx) ∧
    ∀ raw block, raw.length < 2 ^ 31 → decodeBlockV3 P raw = .ok block →
      (∀ tx ∈ block.transactions, ¬ NoForm 2 tx) →
        decodeBlockPayload P (encodeBlockPayloadV2 P block) = .ok block := by
  refine ⟨?_, ?_, fun raw tx => decodeTxPayload_older P, fun raw block => decodeBlockPayload_older P⟩
  · intro kind listed body tx marked decoded proto older
    obtain ⟨some, known⟩ : kind ≠ [] ∧ (kind, false) ∈ adaptedPrefixes := by
      rcases List.mem_cons.mp listed with rfl | listed
      · decide
      · obtain rfl := List.mem_singleton.mp listed
        decide
    exact preserved_of_cases some (heldBack_iff older tx) (adapted_tx P known marked decoded)
  · intro kind listed body block marked short decoded proto older
    obtain ⟨some, known⟩ : kind ≠ [] ∧ (kind, true) ∈ adaptedPrefixes := by
      rcases List.mem_cons.mp listed with rfl | listed
      · decide
      · obtain rfl := List.mem_singleton.mp listed
        decide
    have held : block.transactions.any (heldBack proto) = true ↔
        ∃ tx ∈ block.transactions, NoForm proto tx := by
      simp only [List.any_eq_true, heldBack_iff older]
    obtain ⟨raw, letters, read⟩ := decodeBlockPayload_short P marked decoded
    have counted := decodeBlockV3_counted P (letters.trans_lt short) read
    exact preserved_of_cases some held (adapted_block P known marked decoded fun _ => counted)

/-- A payment of something that was locked by a script. -/
def scriptPayment : Transaction :=
  { payment (ascii "xyz") 5 [] with inputs := [⟨ascii "t", 0, ascii "w"⟩] }

set_option maxRecDepth 100000 in
/-- A payment with a witness is not sent to a peer of the third protocol, and a block with a vote is read
by a peer of the second. -/
theorem older_peers_read :
    adaptForPeer samplePrimitives
        (ascii "TX|" ++ encodeTxPayload samplePrimitives scriptPayment) 3 = [] ∧
    ∃ adapted, adaptForPeer samplePrimitives
        (ascii "BLK|" ++ encodeBlockPayload samplePrimitives votedBlock) 2 = ascii "BLK|" ++ adapted ∧
      decodeBlockPayload samplePrimitives adapted = .ok votedBlock := by
  have prefixed : ∀ octets, b64Prefix.isPrefixOf (b64Prefix ++ octets) = true :=
    fun octets => List.isPrefixOf_iff_prefix.mpr (List.prefix_append _ _)
  obtain ⟨txs, blocks, -, -⟩ := content_preserved samplePrimitives
  constructor
  · have decoded : decodeTxPayload samplePrimitives (encodeTxPayload samplePrimitives scriptPayment) =
        .ok scriptPayment := by
      rw [decodeTxPayload_encode]
      rfl
    refine (txs (ascii "TX|") (by decide) _ _ (prefixed _) decoded 3 (by decide)).dropped.mpr (.inl ?_)
    exact ⟨_, List.mem_cons_self, by decide⟩
  · have decoded : decodeBlockPayload samplePrimitives (encodeBlockPayload samplePrimitives votedBlock) =
        .ok votedBlock := by
      rw [decodeBlockPayload_encode]
      rfl
    have short : (encodeBlockPayload samplePrimitives votedBlock).length < 2 ^ 31 := by decide +kernel
    refine (blocks (ascii "BLK|") (by decide) _ _ (prefixed _) short decoded 2 (by decide)).kept ?_
    rintro ⟨tx, member, ⟨input, here, witness⟩ | ⟨-, shielded⟩⟩
    · obtain rfl := List.mem_singleton.mp member
      obtain rfl := List.mem_singleton.mp here
      exact witness rfl
    · obtain rfl := List.mem_singleton.mp member
      exact shielded rfl

end Payloads

end Addition
