import Addition.TransactionTexts

/-!
# What a block commitment determines

The commitment of a block is a digest over digests. Leaves, inner nodes and the
text that adds votes and slashes start differently, so without a SHA3-512
collision among the texts that were hashed the commitment can be taken apart: it
determines the digests of the votes and the slashes and, when no segment of the
block's leaves is followed by a copy of itself, the list of leaves. A leaf
determines the text of its transaction and the witnesses of its inputs.

A vote is determined by its text and its signature when its ticket identifier is free
of bars.
-/

namespace Addition

open ByteStrings

variable (P : Primitives)

/-! ### The hashed texts -/

/-- The texts hashed for one leaf of the transaction tree. -/
def leafTexts (tx : Transaction) : Set Bytes :=
  hashedTexts P tx ∪ {witnessText P tx} ∪ {text | ∃ input ∈ tx.inputs, text = input.witness}

/-- The leaves of the transaction tree. -/
def leavesOf (transactions : List Transaction) : List Bytes :=
  transactions.map (hashTransactionWithWitness P)

/-- The texts hashed for the inner nodes of the transaction tree. -/
def nodeTexts (transactions : List Transaction) : Set Bytes :=
  {text | ∃ pair ∈ PairedLayers.joined (merkleNode P) (leavesOf P transactions).length
    (leavesOf P transactions), text = pair.1 ++ pair.2}

/-- The votes of a block, those of its evidence included. -/
def votesOf (block : Block) : List StakeVote :=
  block.votes ++ block.slashes.flatMap (fun slash => [slash.a, slash.b])

/-- All texts hashed for the header hash of a block. -/
def blockTexts (block : Block) : Set Bytes :=
  {headerText block.header, commitmentText P block} ∪
    {text | ∃ tx ∈ block.transactions, text ∈ leafTexts P tx} ∪ nodeTexts P block.transactions ∪
    {text | ∃ vote ∈ votesOf block, text = voteText vote}

/-! ### Leaves -/

theorem strongHash_head (text : Bytes) (close : UInt8) (other : isHex close = false) :
    (strongHash P text).head? ≠ some close := by
  intro head
  exact (strongHash_hexDigits P text).absent close other (List.mem_of_mem_head? head)

/-- A transaction text starts with a letter that is no digit. -/
theorem transactionText_head (tx : Transaction) : (transactionText P tx).head? = some (byte 'i') := by
  simp [transactionText, ascii]

theorem witnessText_head (tx : Transaction) : (witnessText P tx).head? ≠ some (byte 'i') := by
  have head : (witnessText P tx).head? = (hashTransaction P tx).head? := by
    unfold witnessText
    rw [List.append_assoc, List.append_assoc, List.head?_append_of_ne_nil _
      (hashTransaction_ne_nil P tx)]
  rw [head]
  exact strongHash_head P _ _ (by decide)

/-- A leaf determines the text of its transaction, and the witnesses unless there
are none. -/
theorem leaf_determined (texts : Set Bytes) (injective : Set.InjOn P.sha3 texts)
    (tx tx' : Transaction) (inside : leafTexts P tx ⊆ texts) (inside' : leafTexts P tx' ⊆ texts)
    (same : hashTransactionWithWitness P tx = hashTransactionWithWitness P tx') :
    transactionText P tx = transactionText P tx' ∧
      (hasWitness tx = false ∧ hasWitness tx' = false ∨
        tx.inputs.map TxInput.witness = tx'.inputs.map TxInput.witness) := by
  have text : ∀ tx : Transaction, leafTexts P tx ⊆ texts → transactionText P tx ∈ texts :=
    fun tx inside => inside (by simp [leafTexts, hashedTexts])
  have witness : ∀ tx : Transaction, leafTexts P tx ⊆ texts → witnessText P tx ∈ texts :=
    fun tx inside => inside (by simp [leafTexts])
  have separated : ∀ tx tx' : Transaction, transactionText P tx ≠ witnessText P tx' := by
    intro tx tx' equal
    exact witnessText_head P tx' (equal ▸ transactionText_head P tx)
  unfold hashTransactionWithWitness at same
  by_cases has : hasWitness tx = true <;> by_cases has' : hasWitness tx' = true
  · simp only [has, has', ↓reduceIte] at same
    have texts' := strongHash_injOn P texts injective (witness tx inside) (witness tx' inside') same
    unfold witnessText at texts'
    simp only [List.append_assoc] at texts'
    obtain ⟨ids, rest⟩ := cut_width _ _ _ _ (by simp) texts'
    obtain ⟨digests, _⟩ := cut_blocks (fun input : TxInput => strongHash P input.witness ++ [byte ';'])
      129 (byte ']') (by decide) (by simp)
      (fun input => by
        rw [List.head?_append_of_ne_nil _ (fun empty => by
          simpa [empty] using strongHash_length P input.witness)]
        exact strongHash_head P _ _ (by decide))
      tx.inputs tx'.inputs [] [] (List.append_cancel_left rest)
    refine ⟨hashTransaction_injOn P texts injective tx tx' (text tx inside) (text tx' inside') ids,
      .inr ?_⟩
    have hashed : (tx.inputs.map TxInput.witness).map (strongHash P) =
        (tx'.inputs.map TxInput.witness).map (strongHash P) := by
      have cut := congrArg (List.map (List.take 128)) digests
      simpa [Function.comp_def] using cut
    refine PairedLayers.map_separated (strongHash P) _ _ ?_ hashed
    intro left member right member'
    obtain ⟨input, listed, rfl⟩ := List.mem_map.mp member
    obtain ⟨input', listed', rfl⟩ := List.mem_map.mp member'
    exact fun equal => strongHash_injOn P texts injective
      (inside (.inr ⟨input, listed, rfl⟩)) (inside' (.inr ⟨input', listed', rfl⟩)) equal
  · simp only [has, has', Bool.false_eq_true, ↓reduceIte] at same
    exact absurd (strongHash_injOn P texts injective (witness tx inside) (text tx' inside') same).symm
      (separated tx' tx)
  · simp only [has, has', Bool.false_eq_true, ↓reduceIte] at same
    exact absurd (strongHash_injOn P texts injective (text tx inside) (witness tx' inside') same)
      (separated tx tx')
  · simp only [has, has', Bool.false_eq_true, ↓reduceIte] at same
    exact ⟨hashTransaction_injOn P texts injective tx tx' (text tx inside) (text tx' inside') same,
      .inl ⟨by simpa using has, by simpa using has'⟩⟩

/-! ### The transaction tree -/

/-- A digest: what a leaf and an inner node are. -/
def IsDigest (node : Bytes) : Prop := ∃ text, node = strongHash P text

theorem leavesOf_digests (transactions : List Transaction) :
    ∀ node ∈ leavesOf P transactions, IsDigest P node := by
  intro node member
  obtain ⟨tx, _, rfl⟩ := List.mem_map.mp member
  unfold hashTransactionWithWitness
  split
  · exact ⟨_, rfl⟩
  · exact ⟨_, rfl⟩

theorem joined_digests (transactions : List Transaction) (fuel : Nat) (pair : Bytes × Bytes)
    (member : pair ∈ PairedLayers.joined (merkleNode P) fuel (leavesOf P transactions)) :
    IsDigest P pair.1 ∧ IsDigest P pair.2 :=
  PairedLayers.joined_forall (merkleNode P) (IsDigest P) (fun _ _ => ⟨_, rfl⟩) fuel _
    (leavesOf_digests P transactions) pair member

/-- The root of a nonempty list of transactions is the one element of the
reduction. -/
theorem computeMerkleRoot_reduce (transactions : List Transaction) (nonempty : transactions ≠ []) :
    PairedLayers.reduce (merkleNode P) (leavesOf P transactions).length (leavesOf P transactions) =
      [computeMerkleRoot P transactions] := by
  have single := PairedLayers.reduce_single (merkleNode P) (leavesOf P transactions).length
    (leavesOf P transactions) (by simpa [leavesOf] using nonempty) (by omega)
  obtain ⟨root, only⟩ := List.length_eq_one_iff.mp single
  unfold computeMerkleRoot
  rw [if_neg (by simpa using nonempty)]
  unfold leavesOf at only ⊢
  simp only [only, List.headD_cons]

/-- The octet that tells a commitment with votes from a tree. -/
theorem digest_second (node : Bytes) (digest : IsDigest P node) (rest : Bytes) :
    (node ++ rest)[1]? ≠ some (byte 'l') := by
  obtain ⟨text, rfl⟩ := digest
  have width := strongHash_length P text
  intro second
  rw [List.getElem?_append_left (by omega)] at second
  exact (strongHash_hexDigits P text).absent (byte 'l') (by decide) (List.mem_of_getElem? second)

/-- The root is the digest of a leaf's text or of an inner node's text. -/
theorem computeMerkleRoot_text (transactions : List Transaction) (nonempty : transactions ≠ []) :
    ∃ text ∈ {text | ∃ tx ∈ transactions, text ∈ leafTexts P tx} ∪ nodeTexts P transactions,
      computeMerkleRoot P transactions = strongHash P text ∧ text[1]? ≠ some (byte 'l') := by
  have reduced : computeMerkleRoot P transactions ∈ PairedLayers.reduce (merkleNode P)
      (leavesOf P transactions).length (leavesOf P transactions) := by
    simp [computeMerkleRoot_reduce P transactions nonempty]
  rcases PairedLayers.reduce_member _ _ _ _ reduced with leaf | ⟨pair, inside, root⟩
  · obtain ⟨tx, member, root⟩ := List.mem_map.mp leaf
    rw [← root]
    unfold hashTransactionWithWitness
    split
    · refine ⟨witnessText P tx, .inl ⟨tx, member, by simp [leafTexts]⟩, rfl, ?_⟩
      unfold witnessText
      rw [List.append_assoc, List.append_assoc]
      exact digest_second P _ ⟨_, rfl⟩ _
    · refine ⟨transactionText P tx, .inl ⟨tx, member, by simp [leafTexts, hashedTexts]⟩, rfl, ?_⟩
      simp [transactionText, ascii, byte]
  · exact ⟨pair.1 ++ pair.2, .inr ⟨pair, inside, rfl⟩, root,
      digest_second P _ (joined_digests P transactions _ pair inside).1 _⟩

/-- Two lists of transactions with one root have the same leaves, when neither has
a doubled segment of leaves. -/
theorem leaves_determined (texts : Set Bytes) (injective : Set.InjOn P.sha3 texts)
    (transactions transactions' : List Transaction) (nonempty : transactions ≠ [])
    (nonempty' : transactions' ≠ [])
    (leaves : ∀ tx ∈ transactions, leafTexts P tx ⊆ texts)
    (leaves' : ∀ tx ∈ transactions', leafTexts P tx ⊆ texts)
    (nodes : nodeTexts P transactions ⊆ texts) (nodes' : nodeTexts P transactions' ⊆ texts)
    (free : PairedLayers.SquareFreeWord (leavesOf P transactions))
    (free' : PairedLayers.SquareFreeWord (leavesOf P transactions'))
    (same : computeMerkleRoot P transactions = computeMerkleRoot P transactions') :
    leavesOf P transactions = leavesOf P transactions' := by
  let domain : Set (Bytes × Bytes) :=
    {pair | IsDigest P pair.1 ∧ IsDigest P pair.2 ∧ pair.1 ++ pair.2 ∈ texts}
  let leaf : Bytes → Prop := fun node =>
    ∃ tx, leafTexts P tx ⊆ texts ∧ node = hashTransactionWithWitness P tx
  have width : ∀ node, IsDigest P node → node.length = 128 := by
    rintro node ⟨text, rfl⟩
    exact strongHash_length P text
  have injectiveJoin : Set.InjOn (fun pair : Bytes × Bytes => merkleNode P pair.1 pair.2) domain := by
    rintro ⟨left, right⟩ ⟨first, _, member⟩ ⟨left', right'⟩ ⟨first', _, member'⟩ equal
    have concatenated := strongHash_injOn P texts injective member member' equal
    obtain ⟨sameLeft, sameRight⟩ := cut_width _ _ _ _ ((width _ first).trans (width _ first').symm)
      concatenated
    exact Prod.ext sameLeft sameRight
  have separated : ∀ pair ∈ domain, ¬ leaf (merkleNode P pair.1 pair.2) := by
    rintro pair ⟨first, second, member⟩ ⟨tx, inside, equal⟩
    have hexes : ∀ octet ∈ pair.1 ++ pair.2, isHex octet = true := by
      obtain ⟨text, spelled⟩ := first
      obtain ⟨text', spelled'⟩ := second
      intro octet listed
      rw [spelled, spelled', List.mem_append] at listed
      rcases listed with left | right
      · exact strongHash_hexDigits P text octet left
      · exact strongHash_hexDigits P text' octet right
    unfold hashTransactionWithWitness at equal
    split at equal
    · have text := strongHash_injOn P texts injective member (inside (by simp [leafTexts])) equal
      rw [text] at hexes
      exact absurd (hexes (byte '|') (by simp [witnessText, ascii])) (by decide)
    · have text := strongHash_injOn P texts injective member
        (inside (by simp [leafTexts, hashedTexts])) equal
      rw [text] at hexes
      exact absurd (hexes (byte 'i') (by simp [transactionText, ascii])) (by decide)
  have inDomain : ∀ transactions : List Transaction, nodeTexts P transactions ⊆ texts →
      ∀ pair ∈ PairedLayers.joined (merkleNode P) (leavesOf P transactions).length
        (leavesOf P transactions), pair ∈ domain := by
    intro transactions nodes pair member
    obtain ⟨first, second⟩ := joined_digests P transactions _ pair member
    exact ⟨first, second, nodes ⟨pair, member, rfl⟩⟩
  have areLeaves : ∀ transactions : List Transaction,
      (∀ tx ∈ transactions, leafTexts P tx ⊆ texts) → ∀ node ∈ leavesOf P transactions, leaf node := by
    intro transactions inside node member
    obtain ⟨tx, listed, rfl⟩ := List.mem_map.mp member
    exact ⟨tx, inside tx listed, rfl⟩
  refine PairedLayers.reduce_injective (merkleNode P) domain injectiveJoin leaf _ _ _ _ separated
    (areLeaves _ leaves) (areLeaves _ leaves') free free' (inDomain _ nodes) (inDomain _ nodes') ?_
  rw [computeMerkleRoot_reduce P transactions nonempty,
    computeMerkleRoot_reduce P transactions' nonempty', same]

/-! ### Votes and slashes -/

/-- The text of a vote and its signature determine the vote, when no bar is in the ticket
identifier: the voted hash is what is left after cutting from both ends. -/
theorem vote_determined (vote vote' : StakeVote) (plain : byte '|' ∉ vote.ticketId)
    (plain' : byte '|' ∉ vote'.ticketId) (signature : vote.signature = vote'.signature)
    (same : voteText vote = voteText vote') : vote = vote' := by
  have split : ∀ vote : StakeVote, voteText vote = ascii "vote|" ++ (vote.ticketId ++
      byte '|' :: (decimal vote.votedHeight.toNat ++ byte '|' ::
        ((vote.votedHash ++ byte '|' :: decimal (if vote.approve then 1 else 0)) ++
          byte '|' :: vote.signature))) := by
    intro vote
    simp [voteText, ascii]
  rw [split, split] at same
  obtain ⟨ticketId, afterTicket⟩ := cut_first (byte '|') _ _ _ _ plain plain'
    (List.append_cancel_left same)
  obtain ⟨height, afterHeight⟩ := cut_decimal (byte '|') _ _ _ _ (by decide) afterTicket
  rw [signature] at afterHeight
  obtain ⟨votedHash, bit⟩ := cut_last (byte '|') _ _ _ _ (decimal_no_bar _) (decimal_no_bar _)
    (List.append_cancel_right afterHeight)
  have approve : vote.approve = vote'.approve := by
    have number := decimal_injective _ _ bit
    cases first : vote.approve <;> cases second : vote'.approve <;> simp [first, second] at number ⊢
  obtain ⟨_, _, _, _, _⟩ := vote
  obtain ⟨_, _, _, _, _⟩ := vote'
  simp only [StakeVote.mk.injEq]
  exact ⟨ticketId, UInt64.toNat_inj.mp height, votedHash, approve, signature⟩

theorem votes_determined (texts : Set Bytes) (injective : Set.InjOn P.sha3 texts)
    (votes votes' : List StakeVote) (inside : ∀ vote ∈ votes, voteText vote ∈ texts)
    (inside' : ∀ vote ∈ votes', voteText vote ∈ texts)
    (plain : ∀ vote ∈ votes, byte '|' ∉ vote.ticketId)
    (plain' : ∀ vote ∈ votes', byte '|' ∉ vote.ticketId)
    (signatures : votes.map StakeVote.signature = votes'.map StakeVote.signature)
    (same : votes.map (hashStakeVote P) = votes'.map (hashStakeVote P)) : votes = votes' := by
  have together : votes.map (fun vote => (hashStakeVote P vote, vote.signature)) =
      votes'.map (fun vote => (hashStakeVote P vote, vote.signature)) := by
    have zipped := congrArg₂ List.zip same signatures
    simpa [List.zip_map', Function.comp_def] using zipped
  refine PairedLayers.map_separated _ votes votes' ?_ together
  intro vote member vote' member' equal
  obtain ⟨digests, signature⟩ := Prod.mk.inj equal
  exact vote_determined vote vote' (plain vote member) (plain' vote' member') signature
    (strongHash_injOn P texts injective (inside vote member) (inside' vote' member') digests)

/-- Two blocks carry the same signatures of votes, in the votes and in the evidence. -/
structure SameVoteSignatures (block block' : Block) : Prop where
  votes : block.votes.map StakeVote.signature = block'.votes.map StakeVote.signature
  first : block.slashes.map (fun slash => slash.a.signature) =
    block'.slashes.map (fun slash => slash.a.signature)
  second : block.slashes.map (fun slash => slash.b.signature) =
    block'.slashes.map (fun slash => slash.b.signature)

/-- The digests of one piece of evidence, as streamed. -/
def slashDigests (slash : SlashEvidence) : Bytes :=
  hashStakeVote P slash.a ++ [byte ','] ++ hashStakeVote P slash.b ++ [byte ';']

theorem slashDigests_determined (slashes slashes' : List SlashEvidence)
    (same : slashes.map (slashDigests P) = slashes'.map (slashDigests P)) :
    (slashes.map SlashEvidence.a).map (hashStakeVote P) =
        (slashes'.map SlashEvidence.a).map (hashStakeVote P) ∧
      (slashes.map SlashEvidence.b).map (hashStakeVote P) =
        (slashes'.map SlashEvidence.b).map (hashStakeVote P) := by
  have width : ∀ vote, (hashStakeVote P vote).length = 128 := fun vote => strongHash_length P _
  have first : ∀ slash, (slashDigests P slash).take 128 = hashStakeVote P slash.a := by
    intro slash
    simp [slashDigests, width]
  have second : ∀ slash, ((slashDigests P slash).drop 129).take 128 = hashStakeVote P slash.b := by
    intro slash
    have front : (hashStakeVote P slash.a ++ [byte ',']).length = 129 := by simp [width]
    unfold slashDigests
    rw [List.append_assoc (hashStakeVote P slash.a ++ [byte ',']), List.drop_left' front,
      List.take_left' (width slash.b)]
  constructor
  · have cut := congrArg (List.map (List.take 128)) same
    simpa [Function.comp_def, first] using cut
  · have cut := congrArg (List.map (fun text => (text.drop 129).take 128)) same
    simpa [Function.comp_def, second] using cut

/-! ### The commitment -/

theorem hashStakeVote_head (vote : StakeVote) : (hashStakeVote P vote).head? ≠ some (byte ']') :=
  strongHash_head P _ _ (by decide)

theorem hashStakeVote_ne_nil (vote : StakeVote) : hashStakeVote P vote ≠ [] := by
  intro empty
  have width : (hashStakeVote P vote).length = 128 := strongHash_length P _
  simp [empty] at width

/-- The text with votes determines the tree's root and the digests of votes and
slashes. -/
theorem commitmentText_determined (block block' : Block)
    (same : commitmentText P block = commitmentText P block') :
    computeMerkleRoot P block.transactions = computeMerkleRoot P block'.transactions ∧
      block.votes.map (hashStakeVote P) = block'.votes.map (hashStakeVote P) ∧
      block.slashes.map (slashDigests P) = block'.slashes.map (slashDigests P) := by
  have width : ∀ vote, (hashStakeVote P vote).length = 128 := fun vote => strongHash_length P _
  have rootWidth : ∀ transactions, (computeMerkleRoot P transactions).length = 128 := by
    intro transactions
    obtain ⟨text, digest⟩ := computeMerkleRoot_digest P transactions
    rw [digest, strongHash_length]
  have split : ∀ block : Block, commitmentText P block = ascii "blockcommit_v1|" ++
      (computeMerkleRoot P block.transactions ++ (ascii "|votes[" ++
        (block.votes.flatMap (fun vote => hashStakeVote P vote ++ [byte ';']) ++ byte ']' ::
          (ascii "slashes[" ++ (block.slashes.flatMap (slashDigests P) ++ [byte ']']))))) := by
    intro block
    have streamed : (fun slash : SlashEvidence =>
        hashStakeVote P slash.a ++ [byte ','] ++ hashStakeVote P slash.b ++ [byte ';']) =
          slashDigests P := rfl
    unfold commitmentText
    rw [streamed]
    simp [ascii]
  rw [split, split] at same
  obtain ⟨root, afterRoot⟩ := cut_width _ _ _ _
    ((rootWidth block.transactions).trans (rootWidth block'.transactions).symm)
    (List.append_cancel_left same)
  obtain ⟨votes, afterVotes⟩ := cut_blocks
    (fun vote : StakeVote => hashStakeVote P vote ++ [byte ';']) 129 (byte ']') (by decide)
    (by simp [width])
    (fun vote => by
      rw [List.head?_append_of_ne_nil _ (hashStakeVote_ne_nil P vote)]
      exact hashStakeVote_head P vote) _ _ _ _ (List.append_cancel_left afterRoot)
  obtain ⟨slashes, _⟩ := cut_blocks (slashDigests P) 258 (byte ']') (by decide)
    (by simp [slashDigests, width])
    (fun slash => by
      simp only [slashDigests, List.append_assoc]
      rw [List.head?_append_of_ne_nil _ (hashStakeVote_ne_nil P slash.a)]
      exact hashStakeVote_head P slash.a) _ _ [] [] (List.append_cancel_left afterVotes)
  refine ⟨root, ?_, slashes⟩
  have cut := congrArg (List.map (List.take 128)) votes
  simpa [Function.comp_def, width] using cut

/-- Two nonempty blocks with one commitment have the same tree root, the same votes
and the same slashes, when their votes name tickets without bars and carry the same
signatures. -/
theorem commitment_determined (texts : Set Bytes) (injective : Set.InjOn P.sha3 texts)
    (block block' : Block) (nonempty : block.transactions ≠ []) (nonempty' : block'.transactions ≠ [])
    (inside : blockTexts P block ⊆ texts) (inside' : blockTexts P block' ⊆ texts)
    (plain : ∀ vote ∈ votesOf block, byte '|' ∉ vote.ticketId)
    (plain' : ∀ vote ∈ votesOf block', byte '|' ∉ vote.ticketId)
    (signatures : SameVoteSignatures block block')
    (same : computeBlockCommitment P block = computeBlockCommitment P block') :
    computeMerkleRoot P block.transactions = computeMerkleRoot P block'.transactions ∧
      block.votes = block'.votes ∧ block.slashes = block'.slashes := by
  have rootText : ∀ block : Block, block.transactions ≠ [] → blockTexts P block ⊆ texts →
      ∃ text ∈ texts, computeMerkleRoot P block.transactions = strongHash P text ∧
        text[1]? ≠ some (byte 'l') := by
    intro block nonempty inside
    obtain ⟨text, member, root, second⟩ := computeMerkleRoot_text P block.transactions nonempty
    refine ⟨text, inside ?_, root, second⟩
    rcases member with leaf | node
    · exact .inl (.inl (.inr leaf))
    · exact .inl (.inr node)
  have own : ∀ block : Block, blockTexts P block ⊆ texts → commitmentText P block ∈ texts :=
    fun block inside => inside (by simp [blockTexts])
  -- the second octet tells the two kinds of commitments apart
  have apart : ∀ block block' : Block, block'.transactions ≠ [] → blockTexts P block ⊆ texts →
      blockTexts P block' ⊆ texts →
      strongHash P (commitmentText P block) ≠ computeMerkleRoot P block'.transactions := by
    intro block block' nonempty inside inside' equal
    obtain ⟨text, member, root, second⟩ := rootText block' nonempty inside'
    rw [root] at equal
    have text' := strongHash_injOn P texts injective (own block inside) member equal
    refine second ?_
    rw [← text']
    simp [commitmentText, ascii]
  have listed : ∀ block : Block, blockTexts P block ⊆ texts → ∀ vote ∈ votesOf block,
      voteText vote ∈ texts := fun block inside vote member => inside (.inr ⟨vote, member, rfl⟩)
  unfold computeBlockCommitment at same
  by_cases bare : (block.votes.isEmpty && block.slashes.isEmpty) = true <;>
    by_cases bare' : (block'.votes.isEmpty && block'.slashes.isEmpty) = true
  · rw [if_pos bare, if_pos bare'] at same
    simp only [Bool.and_eq_true, List.isEmpty_iff] at bare bare'
    exact ⟨same, by rw [bare.1, bare'.1], by rw [bare.2, bare'.2]⟩
  · rw [if_pos bare, if_neg bare'] at same
    exact absurd same.symm (apart block' block nonempty inside' inside)
  · rw [if_neg bare, if_pos bare'] at same
    exact absurd same (apart block block' nonempty' inside inside')
  · rw [if_neg bare, if_neg bare'] at same
    have text := strongHash_injOn P texts injective (own block inside) (own block' inside') same
    obtain ⟨root, voteDigests, evidence⟩ := commitmentText_determined P block block' text
    obtain ⟨first, second⟩ := slashDigests_determined P block.slashes block'.slashes evidence
    have votes := votes_determined P texts injective block.votes block'.votes
      (fun vote member => listed block inside vote (by simp [votesOf, member]))
      (fun vote member => listed block' inside' vote (by simp [votesOf, member]))
      (fun vote member => plain vote (by simp [votesOf, member]))
      (fun vote member => plain' vote (by simp [votesOf, member])) signatures.votes voteDigests
    have memberA : ∀ block : Block, ∀ vote ∈ block.slashes.map SlashEvidence.a,
        vote ∈ votesOf block := by
      intro block vote member
      obtain ⟨slash, inside, rfl⟩ := List.mem_map.mp member
      simp only [votesOf, List.mem_append, List.mem_flatMap]
      exact .inr ⟨slash, inside, by simp⟩
    have memberB : ∀ block : Block, ∀ vote ∈ block.slashes.map SlashEvidence.b,
        vote ∈ votesOf block := by
      intro block vote member
      obtain ⟨slash, inside, rfl⟩ := List.mem_map.mp member
      simp only [votesOf, List.mem_append, List.mem_flatMap]
      exact .inr ⟨slash, inside, by simp⟩
    have sameA := votes_determined P texts injective _ _
      (fun vote member => listed block inside vote (memberA block vote member))
      (fun vote member => listed block' inside' vote (memberA block' vote member))
      (fun vote member => plain vote (memberA block vote member))
      (fun vote member => plain' vote (memberA block' vote member))
      (by simpa [Function.comp_def] using signatures.first) first
    have sameB := votes_determined P texts injective _ _
      (fun vote member => listed block inside vote (memberB block vote member))
      (fun vote member => listed block' inside' vote (memberB block' vote member))
      (fun vote member => plain vote (memberB block vote member))
      (fun vote member => plain' vote (memberB block' vote member))
      (by simpa [Function.comp_def] using signatures.second) second
    refine ⟨root, votes, ?_⟩
    have zipped := congrArg₂ (List.zipWith SlashEvidence.mk) sameA sameB
    simpa [List.zipWith_map, List.zipWith_self] using zipped

/-- The header hash determines the commitment, when commitments are digests. -/
theorem header_root_determined (texts : Set Bytes) (injective : Set.InjOn P.sha3 texts)
    (block block' : Block) (inside : headerText block.header ∈ texts)
    (inside' : headerText block'.header ∈ texts)
    (root : block.header.merkleRoot = computeBlockCommitment P block)
    (root' : block'.header.merkleRoot = computeBlockCommitment P block')
    (same : hashBlockHeader P block.header = hashBlockHeader P block'.header) :
    computeBlockCommitment P block = computeBlockCommitment P block' := by
  have text := strongHash_injOn P texts injective inside inside' same
  have split : ∀ header : BlockHeader, headerText header =
      (decimal header.height.toNat ++ ascii "|" ++ header.previousHash ++ ascii "|" ++
        decimal header.timestamp.toNat ++ ascii "|" ++ decimal header.nonce.toNat ++ ascii "|" ++
        decimal header.difficultyTarget.toNat) ++ byte '|' :: header.merkleRoot := by
    intro header
    simp [headerText, ascii]
  have plain : ∀ block : Block, byte '|' ∉ computeBlockCommitment P block := by
    intro block
    obtain ⟨text, digest⟩ := computeBlockCommitment_digest P block
    rw [digest]
    exact strongHash_no_bar P text
  rw [split, split, root, root'] at text
  exact (cut_last (byte '|') _ _ _ _ (plain block) (plain block') text).2

end Addition
