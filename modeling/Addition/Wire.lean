import Addition.Transactions

/-!
# Binary wire format, version 3

`wire_v3.cpp` and the weights of `block.cpp`. A tagged string stores lowercase
hexadecimal, with or without the signature prefix, as raw octets; any other
string is stored as it is. A reader is a function on the octets that are left,
which is what the source's offset into a fixed buffer denotes. Counts and widths
are written as 32-bit words of the low bits, as the source's casts do.
-/

namespace Addition.Wire

open ByteStrings Checked

/-- Octets of a field at most. -/
def kMaxFieldBytes : Nat := 4 * 1024 * 1024
/-- Inputs or outputs of a transaction at most. -/
def kMaxTxIo : Nat := 10000
/-- Transactions of a block at most. -/
def kMaxBlockTxs : Nat := 100000
/-- Votes or evidence of a block at most. -/
def kMaxExtItems : Nat := 256

/-- `put_u32`. -/
def putU32 (value : Nat) : Bytes := leBytes 4 value

/-- `put_u64`. -/
def putU64 (value : UInt64) : Bytes := leBytes 8 value.toNat

/-- Octets taken from the front, refused when fewer are left. -/
def take (count : Nat) (input : Bytes) : Option (Bytes × Bytes) :=
  if count ≤ input.length then some (input.take count, input.drop count) else none

/-- `get_u8`. -/
def getU8 : Bytes → Option (UInt8 × Bytes)
  | [] => none
  | octet :: rest => some (octet, rest)

/-- `get_u32`. -/
def getU32 (input : Bytes) : Option (Nat × Bytes) :=
  (take 4 input).map (fun taken => (leValue taken.1, taken.2))

/-- `get_u64`. -/
def getU64 (input : Bytes) : Option (UInt64 × Bytes) :=
  (take 8 input).map (fun taken => (UInt64.ofNat (leValue taken.1), taken.2))

/-- `is_lower_hex`: nonempty, even and lowercase. -/
def isLowerHexField (text : Bytes) : Bool :=
  !text.isEmpty && decide (text.length % 2 = 0) && text.all isLowerHex

/-- The tag and the stored octets of a string. -/
def tagged (text : Bytes) : UInt8 × Bytes :=
  if pqPrefix.isPrefixOf text && isLowerHexField (text.drop 3) then (2, fromHex (text.drop 3))
  else if isLowerHexField text then (1, fromHex text)
  else (0, text)

/-- `write_tagged`. -/
def writeTagged (text : Bytes) : Bytes :=
  (tagged text).1 :: (putU32 (tagged text).2.length ++ (tagged text).2)

/-- The string that a tag and stored octets denote. -/
def untag (tag : UInt8) (stored : Bytes) : Option Bytes :=
  if tag = 0 then some stored
  else if tag = 1 ∧ stored ≠ [] then some (toHex stored)
  else if tag = 2 ∧ stored ≠ [] then some (pqPrefix ++ toHex stored)
  else none

/-- `read_tagged`. -/
def readTagged (input : Bytes) : Option (Bytes × Bytes) := do
  let (tag, input) ← getU8 input
  let (width, input) ← getU32 input
  if width > kMaxFieldBytes then none
  else
    let (stored, input) ← take width input
    let text ← untag tag stored
    pure (text, input)

variable (P : Primitives)

/-- `checksum32`: the first four octets of the digest, little-endian. -/
def checksum32 (data : Bytes) : Nat := leValue ((P.sha3 data).val.take 4)

/-- Append the checksum of everything before it. -/
def sealed (data : Bytes) : Bytes := data ++ putU32 (checksum32 P data)

/-- `check_tail`: exactly four octets are left, and they are the checksum of the
rest of the buffer. -/
def checkTail (whole left : Bytes) (what : String) : Except String Unit := do
  ensure (decide (left.length = 4)) ("invalid " ++ what ++ " checksum bounds")
  ensure (decide (leValue left = checksum32 P (whole.take (whole.length - 4))))
    (what ++ " checksum mismatch")

/-! ### Transactions -/

/-- The optional section with one witness per input. -/
def witnessSection (inputs : List TxInput) : Bytes :=
  if inputs.any (fun input => !input.witness.isEmpty) then
    1 :: inputs.flatMap (fun input => putU32 input.witness.length ++ input.witness)
  else []

/-- The encoding of a transaction before its checksum. -/
def txBody (tx : Transaction) : Bytes :=
  ascii "TXV3" ++ writeTagged tx.signer ++ writeTagged tx.signerPubkey ++
    writeTagged tx.signature ++ putU64 tx.fee ++ putU64 tx.nonce ++
    putU32 tx.inputs.length ++
    tx.inputs.flatMap (fun input =>
      writeTagged input.previousTxid ++ putU32 input.outputIndex.toNat) ++
    putU32 tx.outputs.length ++
    tx.outputs.flatMap (fun output => writeTagged output.recipient ++ putU64 output.amount) ++
    writeTagged tx.shielded ++ witnessSection tx.inputs

/-- `encode_tx_v3`. -/
def encodeTxV3 (tx : Transaction) : Bytes := sealed P (txBody tx)

/-- Read a counted list of items. -/
def readMany {α : Type} (read : Bytes → Option (α × Bytes)) : Nat → Bytes → Option (List α × Bytes)
  | 0, input => some ([], input)
  | count + 1, input => do
    let (first, input) ← read input
    let (rest, input) ← readMany read count input
    pure (first :: rest, input)

/-- One input without its witness. -/
def readInput (input : Bytes) : Option (TxInput × Bytes) := do
  let (txid, input) ← readTagged input
  let (index, input) ← getU32 input
  pure (⟨txid, UInt32.ofNat index, []⟩, input)

/-- One output. -/
def readOutput (input : Bytes) : Option (TxOutput × Bytes) := do
  let (recipient, input) ← readTagged input
  let (amount, input) ← getU64 input
  pure (⟨recipient, amount⟩, input)

/-- One witness. -/
def readWitness (input : Bytes) : Option (Bytes × Bytes) := do
  let (width, input) ← getU32 input
  if width > kMaxFieldBytes then none else take width input

/-- Give each input its witness. -/
def attachWitnesses (inputs : List TxInput) (witnesses : List Bytes) : List TxInput :=
  inputs.zipWith (fun input witness => { input with witness := witness }) witnesses

/-- Turn a missing result into a refusal. -/
def orError {α : Type} (message : String) : Option α → Except String α
  | none => .error message
  | some value => .ok value

/-- A count no larger than a cap. -/
def getCount (cap : Nat) (input : Bytes) : Option (Nat × Bytes) :=
  match getU32 input with
  | some (count, rest) => if count ≤ cap then some (count, rest) else none
  | none => none

/-- The fixed fields at the front of a transaction. -/
def readTxHeader (input : Bytes) :
    Option ((Bytes × Bytes × Bytes × UInt64 × UInt64) × Bytes) := do
  let (signer, input) ← readTagged input
  let (signerPubkey, input) ← readTagged input
  let (signature, input) ← readTagged input
  let (fee, input) ← getU64 input
  let (nonce, input) ← getU64 input
  pure ((signer, signerPubkey, signature, fee, nonce), input)

/-- The optional witness section: present when more than the checksum is left. -/
def readWitnessSection (inputs : List TxInput) (input : Bytes) :
    Except String (List TxInput × Bytes) :=
  if input.length ≤ 4 then .ok (inputs, input)
  else do
    let (kind, input) ← orError "unknown tx v3 section" (getU8 input)
    ensure (kind == 1) "unknown tx v3 section"
    let (witnesses, input) ← orError "invalid tx v3 witness"
      (readMany readWitness inputs.length input)
    ensure (witnesses.any (fun witness => !witness.isEmpty))
      "non-canonical empty tx v3 witness section"
    pure (attachWitnesses inputs witnesses, input)

/-- `decode_tx_v3`. -/
def decodeTxV3 (binary : Bytes) : Except String Transaction := do
  ensure (decide (8 ≤ binary.length) && (ascii "TXV3").isPrefixOf binary) "invalid tx v3 magic"
  let ((signer, signerPubkey, signature, fee, nonce), input) ←
    orError "invalid tx v3 header" (readTxHeader (binary.drop 4))
  let (inputCount, input) ← orError "invalid tx v3 inputs count" (getCount kMaxTxIo input)
  let (inputs, input) ← orError "invalid tx v3 input" (readMany readInput inputCount input)
  let (outputCount, input) ← orError "invalid tx v3 outputs count" (getCount kMaxTxIo input)
  let (outputs, input) ← orError "invalid tx v3 output" (readMany readOutput outputCount input)
  let (shielded, input) ← orError "invalid tx v3 shielded" (readTagged input)
  let (inputs, input) ← readWitnessSection inputs input
  checkTail P binary input "tx v3"
  ensure (!(outputs.isEmpty && shielded.isEmpty)) "tx payload has no outputs"
  pure ⟨inputs, outputs, signer, signerPubkey, signature, fee, nonce, shielded⟩

/-! ### Blocks -/

/-- `put_vote`. -/
def putVote (vote : StakeVote) : Bytes :=
  writeTagged vote.ticketId ++ putU64 vote.votedHeight ++ writeTagged vote.votedHash ++
    (if vote.approve then 1 else 0) :: writeTagged vote.signature

/-- `get_vote`. -/
def getVote (input : Bytes) : Option (StakeVote × Bytes) := do
  let (ticketId, input) ← readTagged input
  let (votedHeight, input) ← getU64 input
  let (votedHash, input) ← readTagged input
  let (approve, input) ← getU8 input
  if approve > 1 then none
  else
    let (signature, input) ← readTagged input
    pure (⟨ticketId, votedHeight, votedHash, approve == 1, signature⟩, input)

/-- Two votes of one piece of evidence. -/
def getSlash (input : Bytes) : Option (SlashEvidence × Bytes) := do
  let (a, input) ← getVote input
  let (b, input) ← getVote input
  pure (⟨a, b⟩, input)

/-- An extension section: kind, width and content, absent when it has no items. -/
def extension {α : Type} (kind : UInt8) (put : α → Bytes) (items : List α) : Bytes :=
  if items.isEmpty then []
  else
    let content := putU32 items.length ++ items.flatMap put
    kind :: (putU32 content.length ++ content)

/-- The encoding of a block before its checksum. -/
def blockBody (block : Block) : Bytes :=
  ascii "BLV3" ++ putU64 block.header.height ++ writeTagged block.header.previousHash ++
    putU64 block.header.timestamp ++ putU64 block.header.nonce ++
    putU64 block.header.difficultyTarget ++ writeTagged block.header.merkleRoot ++
    putU32 block.transactions.length ++
    block.transactions.flatMap (fun tx =>
      putU32 (encodeTxV3 P tx).length ++ encodeTxV3 P tx) ++
    putU32 ((if block.votes.isEmpty then 0 else 1) + (if block.slashes.isEmpty then 0 else 1)) ++
    extension 1 putVote block.votes ++
    extension 2 (fun slash => putVote slash.a ++ putVote slash.b) block.slashes

/-- `encode_block_v3`. -/
def encodeBlockV3 (block : Block) : Bytes := sealed P (blockBody P block)

/-- The fixed fields at the front of a block. -/
def readBlockHeader (input : Bytes) : Option (BlockHeader × Bytes) := do
  let (height, input) ← getU64 input
  let (previousHash, input) ← readTagged input
  let (timestamp, input) ← getU64 input
  let (nonce, input) ← getU64 input
  let (difficultyTarget, input) ← getU64 input
  let (merkleRoot, input) ← readTagged input
  pure (⟨height, previousHash, timestamp, nonce, difficultyTarget, merkleRoot⟩, input)

/-- The counted transactions of a block, each within its own width. -/
def readTransactions : Nat → Bytes → Except String (List Transaction × Bytes)
  | 0, input => .ok ([], input)
  | count + 1, input => do
    let (encoded, input) ← orError "invalid block v3 tx bounds" (do
      let (width, input) ← getU32 input
      take width input)
    let tx ← decodeTxV3 P encoded
    let (rest, input) ← readTransactions count input
    pure (tx :: rest, input)

/-- What the extension sections have contributed so far. -/
structure Extensions where
  lastKind : UInt8
  votes : List StakeVote
  slashes : List SlashEvidence

/-- The items of one section, which must fill it. -/
def readSection {α : Type} (read : Bytes → Option (α × Bytes)) (message : String)
    (content : Bytes) : Except String (List α) := do
  let (count, rest) ← orError "invalid block v3 extension count" (getCount kMaxExtItems content)
  ensure (decide (count ≠ 0)) "invalid block v3 extension count"
  let (items, rest) ← orError message (readMany read count rest)
  ensure rest.isEmpty "invalid block v3 extension trailing bytes"
  pure items

/-- One extension section. Kinds must increase, so each occurs at most once. -/
def readExtension (extensions : Extensions) (input : Bytes) :
    Except String (Extensions × Bytes) := do
  let ((kind, content), input) ← orError "invalid block v3 extension" (do
    let (kind, input) ← getU8 input
    let (width, input) ← getU32 input
    let (content, input) ← take width input
    pure ((kind, content), input))
  ensure (decide (extensions.lastKind < kind) && (kind == 1 || kind == 2))
    "invalid block v3 extension"
  if kind = 1 then
    let votes ← readSection getVote "invalid block v3 vote" content
    pure (⟨kind, extensions.votes ++ votes, extensions.slashes⟩, input)
  else
    let slashes ← readSection getSlash "invalid block v3 slash" content
    pure (⟨kind, extensions.votes, extensions.slashes ++ slashes⟩, input)

/-- The counted extension sections. -/
def readExtensions : Nat → Extensions → Bytes → Except String (Extensions × Bytes)
  | 0, extensions, input => .ok (extensions, input)
  | count + 1, extensions, input => do
    let (extensions, input) ← readExtension extensions input
    readExtensions count extensions input

/-- `decode_block_v3`. -/
def decodeBlockV3 (binary : Bytes) : Except String Block := do
  ensure (decide (8 ≤ binary.length) && (ascii "BLV3").isPrefixOf binary) "invalid block v3 magic"
  let (header, input) ← orError "invalid block v3 header" (readBlockHeader (binary.drop 4))
  let (txCount, input) ← orError "invalid block v3 tx count" (getCount kMaxBlockTxs input)
  let (transactions, input) ← readTransactions P txCount input
  let (extCount, input) ← orError "unsupported block v3 extension section" (getCount 2 input)
  let (extensions, input) ← readExtensions extCount ⟨0, [], []⟩ input
  checkTail P binary input "block v3"
  ensure (!(transactions.isEmpty && header.height != 0)) "block payload has no transactions"
  pure ⟨header, transactions, extensions.votes, extensions.slashes⟩

/-! ### Weights -/

/-- `tx_weight`. -/
def txWeight (tx : Transaction) : Nat := 4 + (encodeTxV3 P tx).length

/-- The weight of a string counted as hexadecimal. -/
def binWeight (text : Bytes) : Nat := 4 + (text.length + 1) / 2

/-- `stake_vote_weight`. A ticket without a colon counts in full. -/
def stakeVoteWeight (vote : StakeVote) : Nat :=
  let ticket := if byte ':' ∈ vote.ticketId then
      binWeight (vote.ticketId.takeWhile (· ≠ byte ':')) + 4
    else 4 + vote.ticketId.length
  ticket + 8 + binWeight vote.votedHash + 1 + binWeight vote.signature

/-- `stake_extension_weight`. -/
def stakeExtensionWeight (block : Block) : Nat :=
  if block.votes.isEmpty && block.slashes.isEmpty then 0
  else 8 + (block.votes.map stakeVoteWeight).sum +
    (block.slashes.map (fun slash => stakeVoteWeight slash.a + stakeVoteWeight slash.b)).sum

/-- `block_weight`. -/
def blockWeight (block : Block) : Nat :=
  4 + 8 + 24 + (writeTagged block.header.previousHash ++ writeTagged block.header.merkleRoot).length +
    4 + 4 + 4 + (block.transactions.map (txWeight P)).sum + stakeExtensionWeight block

end Addition.Wire
