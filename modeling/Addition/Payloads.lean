import Addition.Codec
import Addition.Foundations.Base64
import Addition.Foundations.TextLines

/-!
# Payloads of gossip

A payload is either the binary form of version 3 in base 64, or an older binary form in hexadecimal. The
older form writes every string as it is behind its width, has no place for witnesses and for shielded
data, and has a variant for blocks with votes. A message to a peer that speaks an older protocol is
written again in the older form, or it is not sent.

A vote is a line of text of its own. It comes back exactly when its parts can be told apart and the line
is not too long.
-/

namespace Addition

namespace Payloads

open ByteStrings Checked TextLines Wire

/-! ### Strings -/

/-- `from_hex`: digits of either case, in pairs. -/
def fromHexText (text : Bytes) : Option Bytes :=
  if text.length % 2 = 0 ∧ text.all isHex = true then some (fromHex text) else none

/-- `write_string`. A string whose width does not fit is left out. -/
def writeString (text : Bytes) : Bytes := if text.length < 2 ^ 32 then putU32 text.length ++ text else []

/-- `read_string`. -/
def readString (input : Bytes) : Option (Bytes × Bytes) := do
  let (width, input) ← getU32 input
  take width input

variable (P : Primitives)

/-! ### Transactions -/

/-- One input of the older form. -/
def readInputV2 (input : Bytes) : Option (TxInput × Bytes) := do
  let (txid, input) ← readString input
  let (index, input) ← getU32 input
  pure (⟨txid, UInt32.ofNat index, []⟩, input)

/-- One output of the older form. -/
def readOutputV2 (input : Bytes) : Option (TxOutput × Bytes) := do
  let (recipient, input) ← readString input
  let (amount, input) ← getU64 input
  pure (⟨recipient, amount⟩, input)

/-- The older form of a transaction before its checksum. -/
def txBodyV2 (tx : Transaction) : Bytes :=
  ascii "TXB2" ++ writeString tx.signer ++ writeString tx.signerPubkey ++ writeString tx.signature ++
    putU64 tx.fee ++ putU64 tx.nonce ++
    putU32 tx.inputs.length ++
    tx.inputs.flatMap (fun input => writeString input.previousTxid ++ putU32 input.outputIndex.toNat) ++
    putU32 tx.outputs.length ++
    tx.outputs.flatMap (fun output => writeString output.recipient ++ putU64 output.amount)

/-- `encode_tx_payload_v2`. -/
def encodeTxPayloadV2 (tx : Transaction) : Bytes := toHex (sealed P (txBodyV2 tx))

/-- `kB64Prefix`. -/
def b64Prefix : Bytes := ascii "b64:"

/-- What is left at the end: the checksum, or nothing in the form without one. -/
def checkEnd (whole left : Bytes) (checked : Bool) (what : String) : Except String Unit :=
  if checked then checkTail P whole left what
  else ensure left.isEmpty ("invalid " ++ what ++ " trailing bytes")

/-- The part of `decode_tx_payload` behind the conversion to octets. -/
def decodeTxV2 (binary : Bytes) : Except String Transaction := do
  ensure (decide (4 ≤ binary.length ∧ binary.take 4 ∈ [ascii "TXB1", ascii "TXB2"]))
    "invalid tx payload magic"
  let (signer, input) ← orError "invalid tx payload header" (readString (binary.drop 4))
  let (signerPubkey, input) ← orError "invalid tx payload header" (readString input)
  let (signature, input) ← orError "invalid tx payload header" (readString input)
  let (fee, input) ← orError "invalid tx payload numeric fields" (getU64 input)
  let (nonce, input) ← orError "invalid tx payload numeric fields" (getU64 input)
  let (inputCount, input) ← orError "invalid tx payload inputs count" (getU32 input)
  let (inputs, input) ← orError "invalid tx payload input" (readMany readInputV2 inputCount input)
  let (outputCount, input) ← orError "invalid tx payload outputs count" (getU32 input)
  let (outputs, input) ← orError "invalid tx payload output" (readMany readOutputV2 outputCount input)
  checkEnd P binary input (decide (binary.take 4 = ascii "TXB2")) "tx payload"
  ensure (!outputs.isEmpty) "tx payload has no outputs"
  pure ⟨inputs, outputs, signer, signerPubkey, signature, fee, nonce, []⟩

/-- `decode_tx_payload`. -/
def decodeTxPayload (payload : Bytes) : Except String Transaction :=
  if b64Prefix.isPrefixOf payload then
    match Base64.decode (payload.drop 4) with
    | none => .error "invalid tx payload base64"
    | some raw => decodeTxV3 P raw
  else
    match fromHexText payload with
    | none => .error "invalid tx payload hex"
    | some binary => decodeTxV2 P binary

/-! ### Blocks -/

/-- A vote of the older form. -/
def putVoteV2 (vote : StakeVote) : Bytes :=
  writeString vote.ticketId ++ putU64 vote.votedHeight ++ writeString vote.votedHash ++
    putU32 (if vote.approve then 1 else 0) ++ writeString vote.signature

/-- `read_vote`. -/
def readVoteV2 (input : Bytes) : Option (StakeVote × Bytes) := do
  let (ticketId, input) ← readString input
  let (votedHeight, input) ← getU64 input
  let (votedHash, input) ← readString input
  let (approve, input) ← getU32 input
  let (signature, input) ← readString input
  pure (⟨ticketId, votedHeight, votedHash, decide (approve ≠ 0), signature⟩, input)

/-- Two votes of one piece of evidence. -/
def putSlashV2 (slash : SlashEvidence) : Bytes := putVoteV2 slash.a ++ putVoteV2 slash.b

/-- Evidence in its second form. -/
def readSlashV2 (input : Bytes) : Option (SlashEvidence × Bytes) := do
  let (a, input) ← readVoteV2 input
  let (b, input) ← readVoteV2 input
  pure (⟨a, b⟩, input)

/-- Whether a block has votes or evidence. -/
def staked (block : Block) : Bool := !block.votes.isEmpty || !block.slashes.isEmpty

/-- The votes and the evidence of a block that has any. -/
def stakeSection (block : Block) : Bytes :=
  if staked block then
    putU32 block.votes.length ++ block.votes.flatMap putVoteV2 ++
      putU32 block.slashes.length ++ block.slashes.flatMap putSlashV2
  else []

/-- The older form of a block before its checksum. The octets of a transaction are behind their width. -/
def blockBodyV2 (block : Block) : Bytes :=
  ascii (if staked block then "BLB3" else "BLB2") ++ putU64 block.header.height ++
    writeString block.header.previousHash ++ putU64 block.header.timestamp ++ putU64 block.header.nonce ++
    putU64 block.header.difficultyTarget ++ writeString block.header.merkleRoot ++
    putU32 block.transactions.length ++
    block.transactions.flatMap (fun tx =>
      putU32 (sealed P (txBodyV2 tx)).length ++ sealed P (txBodyV2 tx)) ++
    stakeSection block

/-- `encode_block_payload_v2`. -/
def encodeBlockPayloadV2 (block : Block) : Bytes := toHex (sealed P (blockBodyV2 P block))

/-- The header of the older form. -/
def readHeaderV2 (input : Bytes) : Option (BlockHeader × Bytes) := do
  let (height, input) ← getU64 input
  let (previousHash, input) ← readString input
  let (timestamp, input) ← getU64 input
  let (nonce, input) ← getU64 input
  let (difficultyTarget, input) ← getU64 input
  let (merkleRoot, input) ← readString input
  pure (⟨height, previousHash, timestamp, nonce, difficultyTarget, merkleRoot⟩, input)

/-- The transactions of a block. Each is read as a payload of its own. -/
def readTxPayloads : Nat → Bytes → Except String (List Transaction × Bytes)
  | 0, input => .ok ([], input)
  | count + 1, input => do
    let (width, input) ← orError "invalid block payload tx size" (getU32 input)
    let (encoded, input) ← orError "invalid block payload tx bounds" (take width input)
    let tx ← decodeTxPayload P (toHex encoded)
    let (rest, input) ← readTxPayloads count input
    pure (tx :: rest, input)

/-- The votes and the evidence, in the form that has them. -/
def readStakeSection (staked : Bool) (input : Bytes) :
    Except String ((List StakeVote × List SlashEvidence) × Bytes) :=
  if staked then do
    let (voteCount, input) ← orError "invalid block payload vote count" (getCount 4096 input)
    let (votes, input) ← orError "invalid block payload vote" (readMany readVoteV2 voteCount input)
    let (slashCount, input) ← orError "invalid block payload slash count" (getCount 4096 input)
    let (slashes, input) ← orError "invalid block payload slash" (readMany readSlashV2 slashCount input)
    pure ((votes, slashes), input)
  else .ok (([], []), input)

/-- The part of `decode_block_payload` behind the conversion to octets. -/
def decodeBlockV2 (binary : Bytes) : Except String Block := do
  ensure (decide (4 ≤ binary.length ∧ binary.take 4 ∈ [ascii "BLB1", ascii "BLB2", ascii "BLB3"]))
    "invalid block payload magic"
  let (header, input) ← orError "invalid block payload header" (readHeaderV2 (binary.drop 4))
  let (txCount, input) ← orError "invalid block payload tx count" (getU32 input)
  let (transactions, input) ← readTxPayloads P txCount input
  let ((votes, slashes), input) ← readStakeSection (decide (binary.take 4 = ascii "BLB3")) input
  checkEnd P binary input (decide (binary.take 4 ≠ ascii "BLB1")) "block payload"
  ensure (!(transactions.isEmpty && header.height != 0)) "block payload has no transactions"
  pure ⟨header, transactions, votes, slashes⟩

/-- `decode_block_payload`. -/
def decodeBlockPayload (payload : Bytes) : Except String Block :=
  if b64Prefix.isPrefixOf payload then
    match Base64.decode (payload.drop 4) with
    | none => .error "invalid block payload base64"
    | some raw => decodeBlockV3 P raw
  else
    match fromHexText payload with
    | none => .error "invalid block payload hex"
    | some binary => decodeBlockV2 P binary

/-! ### Messages -/

/-- `encode_tx_payload`. -/
def encodeTxPayload (tx : Transaction) : Bytes := b64Prefix ++ Base64.encode (encodeTxV3 P tx)

/-- `encode_block_payload`. -/
def encodeBlockPayload (block : Block) : Bytes := b64Prefix ++ Base64.encode (encodeBlockV3 P block)

/-- `tx_needs_proto4`. -/
def txNeedsProto4 (tx : Transaction) : Bool := tx.inputs.any (fun input => !input.witness.isEmpty)

/-- Whether the form of a protocol has no place for a transaction. -/
def unfit (proto : Nat) (tx : Transaction) : Bool :=
  txNeedsProto4 tx || (decide (proto < 3) && !tx.shielded.isEmpty)

/-- The messages that `adapt_for_peer` looks into, and whether they carry a block. -/
def adaptedPrefixes : List (Bytes × Bool) :=
  [(ascii "TX|", false), (ascii "STEM|", false), (ascii "BLK|", true), (ascii "BLKDATA|", true)]

/-- A message with a body that is written anew for an older protocol. -/
def adaptTx (message kind body : Bytes) (proto : Nat) : Bytes :=
  match decodeTxPayload P body with
  | .error _ => message
  | .ok tx =>
    if unfit proto tx then [] else if 3 ≤ proto then message else kind ++ encodeTxPayloadV2 P tx

/-- A message with a block, as a peer of a protocol reads it. -/
def adaptBlock (message kind body : Bytes) (proto : Nat) : Bytes :=
  match decodeBlockPayload P body with
  | .error _ => message
  | .ok block =>
    if block.transactions.any (unfit proto) then []
    else if 3 ≤ proto then message
    else kind ++ encodeBlockPayloadV2 P block

/-- `adapt_for_peer`. The empty message is not sent. -/
def adaptForPeer (message : Bytes) (proto : Nat) : Bytes :=
  if 4 ≤ proto then message
  else
    match adaptedPrefixes.find? (fun kind =>
      kind.1.isPrefixOf message && b64Prefix.isPrefixOf (message.drop kind.1.length)) with
    | none => message
    | some (kind, carriesBlock) =>
      let body := message.drop kind.length
      if carriesBlock then adaptBlock P message kind body proto else adaptTx P message kind body proto

/-! ### Votes -/

/-- The octet between the parts of a vote. -/
def bar : UInt8 := byte '|'

/-- `encode_stake_vote`. -/
def encodeStakeVote (vote : StakeVote) : Bytes :=
  vote.ticketId ++ [bar] ++ decimal vote.votedHeight.toNat ++ [bar] ++ vote.votedHash ++ [bar] ++
    (if vote.approve then ascii "1" else ascii "0") ++ [bar] ++ toHex vote.signature

/-- `decode_stake_vote`. With a separator behind it the last part has an end too. -/
def decodeStakeVote (payload : Bytes) : Except String StakeVote :=
  match splitAll bar (payload ++ [bar]) with
  | [ticketId, height, votedHash, approve, signature] => do
    ensure (decide (ticketId ≠ [] ∧ votedHash ≠ [] ∧ (approve = ascii "0" ∨ approve = ascii "1") ∧
      signature ≠ [] ∧ payload.length ≤ 32768)) "invalid stake vote payload"
    let votedHeight ← orError "invalid stake vote height" (stoull height)
    let octets ← orError "invalid stake vote signature hex" (hexToBytes signature).toOption
    pure ⟨ticketId, votedHeight, votedHash, decide (approve = ascii "1"), octets⟩
  | _ => .error "invalid stake vote payload"

theorem bar_not_mem_toHex (octets : Bytes) : bar ∉ toHex octets :=
  fun here => absurd (toHex_lower octets bar here) (by decide)

/-- The parts of a vote that can be told apart. -/
theorem splitAll_encodeStakeVote {vote : StakeVote} (ticketId : bar ∉ vote.ticketId)
    (votedHash : bar ∉ vote.votedHash) :
    splitAll bar (encodeStakeVote vote ++ [bar]) =
      [vote.ticketId, decimal vote.votedHeight.toNat, vote.votedHash,
        if vote.approve then ascii "1" else ascii "0", toHex vote.signature] := by
  have height : bar ∉ decimal vote.votedHeight.toNat := not_mem_decimal _ bar (by decide)
  have flag : bar ∉ (if vote.approve then ascii "1" else ascii "0") := by
    split <;> decide
  have shape : encodeStakeVote vote ++ [bar] = vote.ticketId ++ bar :: (decimal vote.votedHeight.toNat ++
      bar :: (vote.votedHash ++ bar :: ((if vote.approve then ascii "1" else ascii "0") ++
      bar :: (toHex vote.signature ++ bar :: [])))) := by
    simp [encodeStakeVote]
  rw [shape, splitAll_append bar _ _ ticketId, splitAll_append bar _ _ height,
    splitAll_append bar _ _ votedHash, splitAll_append bar _ _ flag,
    splitAll_append bar _ _ (bar_not_mem_toHex _)]
  rfl

/-- A vote comes back from its line exactly when its ticket and its hash are not empty and have no bar,
it is signed, and the line has at most 32768 octets. -/
theorem stake_vote_line_iff (vote : StakeVote) :
    decodeStakeVote (encodeStakeVote vote) = .ok vote ↔
      (vote.ticketId ≠ [] ∧ bar ∉ vote.ticketId) ∧ (vote.votedHash ≠ [] ∧ bar ∉ vote.votedHash) ∧
        vote.signature ≠ [] ∧ (encodeStakeVote vote).length ≤ 32768 := by
  constructor
  · intro decoded
    unfold decodeStakeVote at decoded
    split at decoded
    · rename_i ticketId height votedHash approve signature parts
      have absent := splitAll_absent bar (encodeStakeVote vote ++ [bar])
      rw [parts] at absent
      simp only [bind_ok, exists_unit, ensure_ok, orError_ok, pure_ok, decide_eq_true_eq] at decoded
      obtain ⟨⟨some, someHash, -, signed, short⟩, _, -, octets, read, same⟩ := decoded
      have strict := toOption_ok read
      simp only [hexToBytes, bind_ok, exists_unit, pure_ok] at strict
      obtain ⟨digits, rfl⟩ := strict
      have even := ((isHexStrict_ok _ _).mp digits).2.2.1
      obtain rfl := same
      exact ⟨⟨some, absent _ (by simp)⟩, ⟨someHash, absent _ (by simp)⟩, fromHex_ne_nil _ signed even, short⟩
    · exact absurd decoded (by simp)
  · rintro ⟨⟨some, ticketId⟩, ⟨someHash, votedHash⟩, signed, short⟩
    have within : (toHex vote.signature).length ≤ 32768 := by
      refine le_trans ?_ short
      rw [encodeStakeVote, List.length_append]
      exact Nat.le_add_left _ _
    rw [toHex_length] at within
    have octets := hexToBytes_toHex vote.signature signed (by omega)
    have hex : toHex vote.signature ≠ [] := by
      intro none
      have width := congrArg List.length none
      rw [toHex_length] at width
      exact signed (List.length_eq_zero_iff.mp (by simpa using width))
    have flag : (if vote.approve then ascii "1" else ascii "0") = ascii "0" ∨
        (if vote.approve then ascii "1" else ascii "0") = ascii "1" := by
      split <;> decide
    have approve : decide ((if vote.approve then ascii "1" else ascii "0") = ascii "1") = vote.approve := by
      cases vote.approve with
      | false => decide
      | true => decide
    rw [decodeStakeVote, splitAll_encodeStakeVote ticketId votedHash]
    simp only [bind_ok, exists_unit, ensure_ok, orError_ok, pure_ok, decide_eq_true_eq, octets, approve]
    exact ⟨⟨some, someHash, flag, hex, short⟩, _, stoull_decimal _, _, rfl, rfl⟩

end Payloads

end Addition
