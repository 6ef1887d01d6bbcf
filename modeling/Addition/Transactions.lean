import Addition.Primitives
import Addition.Foundations.PairedLayers

/-!
# Transactions, blocks and their hashes

The records of `block.hpp` and the hashed texts of `block.cpp`. Every text is
the concatenation the source streams, without escaping: names are separated by
`:`, `;`, `]` and `|`, and a name may contain these octets. The signature of a
transaction is in no text; script witnesses enter the leaf of the block
commitment only when some input carries one.
-/

namespace Addition

open ByteStrings

/-- `TxInput`. -/
structure TxInput where
  previousTxid : Bytes
  outputIndex : UInt32
  witness : Bytes
deriving DecidableEq

/-- `TxOutput`. -/
structure TxOutput where
  recipient : Bytes
  amount : UInt64
deriving DecidableEq

/-- `Transaction`. -/
structure Transaction where
  inputs : List TxInput
  outputs : List TxOutput
  signer : Bytes
  signerPubkey : Bytes
  signature : Bytes
  fee : UInt64
  nonce : UInt64
  shielded : Bytes
deriving DecidableEq

/-- `BlockHeader`. -/
structure BlockHeader where
  height : UInt64
  previousHash : Bytes
  timestamp : UInt64
  nonce : UInt64
  difficultyTarget : UInt64
  merkleRoot : Bytes
deriving DecidableEq

/-- `StakeVote`. -/
structure StakeVote where
  ticketId : Bytes
  votedHeight : UInt64
  votedHash : Bytes
  approve : Bool
  signature : Bytes
deriving DecidableEq

/-- `SlashEvidence`: two votes. -/
structure SlashEvidence where
  a : StakeVote
  b : StakeVote
deriving DecidableEq

/-- `Block`. -/
structure Block where
  header : BlockHeader
  transactions : List Transaction
  votes : List StakeVote
  slashes : List SlashEvidence
deriving DecidableEq

instance : Inhabited Block :=
  ⟨⟨⟨0, [], 0, 0, 0, []⟩, [], [], []⟩⟩

/-! ### Transaction identifiers -/

/-- One streamed list item: a name, a colon, a number and a semicolon. -/
def item (name : Bytes) (value : Nat) : Bytes :=
  name ++ byte ':' :: (decimal value ++ [byte ';'])

/-- The streamed inputs, without their witnesses. -/
def inputsText (inputs : List TxInput) : Bytes :=
  inputs.flatMap (fun input => item input.previousTxid input.outputIndex.toNat)

/-- The streamed outputs. -/
def outputsText (outputs : List TxOutput) : Bytes :=
  outputs.flatMap (fun output => item output.recipient output.amount.toNat)

variable (P : Primitives)

/-- The last part of a transaction's text: present only for a shielded one. -/
def shieldedText (shielded : Bytes) : Bytes :=
  if shielded.isEmpty then [] else ascii "|sh=" ++ strongHash P shielded

/-- The text that `hash_transaction` hashes. -/
def transactionText (tx : Transaction) : Bytes :=
  ascii "in[" ++ inputsText tx.inputs ++ ascii "]out[" ++ outputsText tx.outputs ++
    ascii "]signer=" ++ tx.signer ++ ascii "|pub=" ++ tx.signerPubkey ++
    ascii "|fee=" ++ decimal tx.fee.toNat ++ ascii "|nonce=" ++ decimal tx.nonce.toNat ++
    shieldedText P tx.shielded

/-- `hash_transaction`. -/
def hashTransaction (tx : Transaction) : Bytes := strongHash P (transactionText P tx)

/-- The text hashed over the script witnesses. -/
def witnessText (tx : Transaction) : Bytes :=
  hashTransaction P tx ++ ascii "|wit[" ++
    tx.inputs.flatMap (fun input => strongHash P input.witness ++ [byte ';']) ++ ascii "]"

/-- Whether some input carries a witness. -/
def hasWitness (tx : Transaction) : Bool := tx.inputs.any (fun input => !input.witness.isEmpty)

/-- `hash_transaction_with_witness`. -/
def hashTransactionWithWitness (tx : Transaction) : Bytes :=
  if hasWitness tx then strongHash P (witnessText P tx) else hashTransaction P tx

/-! ### Block commitments -/

/-- One inner node of the transaction tree. -/
def merkleNode (left right : Bytes) : Bytes := strongHash P (left ++ right)

/-- `compute_merkle_root`. -/
def computeMerkleRoot (transactions : List Transaction) : Bytes :=
  if transactions.isEmpty then strongHash P (ascii "empty")
  else
    let leaves := transactions.map (hashTransactionWithWitness P)
    (PairedLayers.reduce (merkleNode P) leaves.length leaves).headD []

/-- The text that `hash_block_header` hashes. -/
def headerText (header : BlockHeader) : Bytes :=
  decimal header.height.toNat ++ ascii "|" ++ header.previousHash ++ ascii "|" ++
    decimal header.timestamp.toNat ++ ascii "|" ++ decimal header.nonce.toNat ++ ascii "|" ++
    decimal header.difficultyTarget.toNat ++ ascii "|" ++ header.merkleRoot

/-- `hash_block_header`. -/
def hashBlockHeader (header : BlockHeader) : Bytes := strongHash P (headerText header)

/-- The text that `hash_stake_vote` hashes. -/
def voteText (vote : StakeVote) : Bytes :=
  ascii "vote|" ++ vote.ticketId ++ ascii "|" ++ decimal vote.votedHeight.toNat ++ ascii "|" ++
    vote.votedHash ++ ascii "|" ++ decimal (if vote.approve then 1 else 0) ++ ascii "|" ++
    vote.signature

/-- `hash_stake_vote`. -/
def hashStakeVote (vote : StakeVote) : Bytes := strongHash P (voteText vote)

/-- The text hashed for a block with votes or slashes. -/
def commitmentText (block : Block) : Bytes :=
  ascii "blockcommit_v1|" ++ computeMerkleRoot P block.transactions ++ ascii "|votes[" ++
    block.votes.flatMap (fun vote => hashStakeVote P vote ++ [byte ';']) ++
    ascii "]slashes[" ++
    block.slashes.flatMap (fun slash =>
      hashStakeVote P slash.a ++ [byte ','] ++ hashStakeVote P slash.b ++ [byte ';']) ++
    ascii "]"

/-- `compute_block_commitment`. -/
def computeBlockCommitment (block : Block) : Bytes :=
  if block.votes.isEmpty && block.slashes.isEmpty then computeMerkleRoot P block.transactions
  else strongHash P (commitmentText P block)

/-- A commitment is a digest of some text. -/
theorem computeMerkleRoot_digest (transactions : List Transaction) :
    ∃ text, computeMerkleRoot P transactions = strongHash P text := by
  unfold computeMerkleRoot
  split
  · exact ⟨_, rfl⟩
  · rename_i nonempty
    have leaves : ∀ node ∈ transactions.map (hashTransactionWithWitness P),
        ∃ text, node = strongHash P text := by
      intro node member
      obtain ⟨tx, _, rfl⟩ := List.mem_map.mp member
      unfold hashTransactionWithWitness
      split
      · exact ⟨_, rfl⟩
      · exact ⟨_, rfl⟩
    have single := PairedLayers.reduce_single (merkleNode P)
      (transactions.map (hashTransactionWithWitness P)).length
      (transactions.map (hashTransactionWithWitness P)) (by simpa using nonempty) (by omega)
    obtain ⟨root, only⟩ := List.length_eq_one_iff.mp single
    have reduced := PairedLayers.reduce_forall (merkleNode P)
      (fun node => ∃ text, node = strongHash P text) (fun left right => ⟨left ++ right, rfl⟩)
      (transactions.map (hashTransactionWithWitness P)).length _ leaves root
    rw [only] at reduced
    dsimp only
    rw [only]
    exact reduced (by simp)

theorem computeBlockCommitment_digest (block : Block) :
    ∃ text, computeBlockCommitment P block = strongHash P text := by
  unfold computeBlockCommitment
  split
  · exact computeMerkleRoot_digest P block.transactions
  · exact ⟨_, rfl⟩

@[simp] theorem hashTransaction_length (tx : Transaction) : (hashTransaction P tx).length = 128 :=
  strongHash_length P _

@[simp] theorem hashBlockHeader_length (header : BlockHeader) :
    (hashBlockHeader P header).length = 128 :=
  strongHash_length P _

/-- `Chain::outpoint_key`. -/
def outpointKey (txid : Bytes) (outputIndex : Nat) : Bytes :=
  txid ++ byte ':' :: decimal outputIndex

/-- The key of the output an input spends. -/
def TxInput.key (input : TxInput) : Bytes := outpointKey input.previousTxid input.outputIndex.toNat

end Addition
