import Addition.Store

/-!
# The block file read back

The lines of a block are read back into it when no text of the block contains a
separator that delimits it. Votes and evidence also need their signatures, since an
empty field at the end of a line is no field.
-/

namespace Addition.Store

open ByteStrings Checked FiniteTables TextLines

variable {P : Primitives}

/-! ### Texts without separators -/

/-- A field that neither separator cuts. -/
structure PlainField (text : Bytes) : Prop where
  bar : bar ∉ text
  newline : newline ∉ text

/-- The texts of a transaction do not contain the separators that delimit them. -/
structure StorableTx (tx : Transaction) : Prop where
  signer : PlainField tx.signer
  signerPubkey : PlainField tx.signerPubkey
  signature : PlainField tx.signature
  txids : ∀ input ∈ tx.inputs, PlainField input.previousTxid
  witnesses : ∀ input ∈ tx.inputs, newline ∉ input.witness
  recipients : ∀ output ∈ tx.outputs, PlainField output.recipient
  shielded : newline ∉ tx.shielded

/-- The texts of a vote do not contain the separators that delimit them. -/
structure StorableVote (vote : StakeVote) : Prop where
  ticketId : PlainField vote.ticketId
  votedHash : PlainField vote.votedHash
  signature : PlainField vote.signature

/-- The texts of a block do not contain the separators that delimit them. -/
structure StorableBlock (block : Block) : Prop where
  previousHash : PlainField block.header.previousHash
  merkleRoot : newline ∉ block.header.merkleRoot
  transactions : ∀ tx ∈ block.transactions, StorableTx tx
  votes : ∀ vote ∈ block.votes, StorableVote vote
  slashes : ∀ slash ∈ block.slashes, StorableVote slash.a ∧ StorableVote slash.b

theorem plain_decimal (value : Nat) : PlainField (decimal value) :=
  ⟨not_mem_decimal value _ (by decide), not_mem_decimal value _ (by decide)⟩

theorem plain_nil : PlainField [] := ⟨by simp, by simp⟩

/-! ### Fields -/

theorem fields_cons (first second : Bytes) (rest : List Bytes) :
    fields (first :: second :: rest) = first ++ bar :: fields (second :: rest) := by
  simp [fields, List.intercalate]

theorem fields_one (text : Bytes) : fields [text] = text := by
  simp [fields, List.intercalate]

theorem contentOf_tagLine (tag : Char) (texts : List Bytes) :
    contentOf (tagLine tag texts) = fields texts := rfl

theorem hasTag_tagLine (tag tag' : Char) (texts : List Bytes) :
    hasTag tag (tagLine tag' texts) = (byte tag == byte tag') := by
  simp [hasTag, tagLine, List.isPrefixOf]

/-- The next field of a list of fields. -/
theorem getline_fields (first second : Bytes) (rest : List Bytes) (old : Bytes)
    (plain : bar ∉ first) :
    getline bar (some (fields (first :: second :: rest))) old =
      (first, some (fields (second :: rest)), true) := by
  rw [fields_cons]
  exact getline_append bar first _ old plain

/-- A line of plain fields has no end inside. -/
theorem tagLine_whole (tag : Char) (texts : List Bytes) (other : byte tag ≠ newline)
    (plain : ∀ text ∈ texts, newline ∉ text) : newline ∉ tagLine tag texts := by
  have inside : newline ∉ fields texts := by
    induction texts with
    | nil => simp [fields, List.intercalate]
    | cons first rest ih =>
      have later := ih (fun text member => plain text (by simp [member]))
      cases rest with
      | nil =>
        rw [fields_one]
        exact plain first (by simp)
      | cons second rest =>
        rw [fields_cons, List.mem_append, List.mem_cons, not_or, not_or]
        exact ⟨plain first (by simp), by decide, later⟩
  simp only [tagLine, List.mem_cons, not_or]
  exact ⟨fun same => other same.symm, by decide, inside⟩

/-! ### Transactions -/

/-- Reading some lines takes a transaction from one state to another. -/
def Reads (tx : Transaction) (lines : List Bytes) (after : Transaction) : Prop :=
  ∀ rest, parseTxLines tx (lines ++ rest) = parseTxLines after rest

variable {first second : List Bytes}

theorem Reads.trans {tx between after : Transaction}
    (left : Reads tx first between) (right : Reads between second after) :
    Reads tx (first ++ second) after := by
  intro rest
  rw [List.append_assoc, left, right]

theorem Reads.nil (tx : Transaction) : Reads tx [] tx := fun _ => rfl

/-- One tagged line. -/
theorem reads_line (tx after : Transaction) (tag : Char) (texts : List Bytes)
    (read : parseTxField tx (byte tag) (fields texts) = .ok after) :
    Reads tx [tagLine tag texts] after := by
  intro rest
  have other : tagLine tag texts ≠ ascii "E" := by
    intro same
    have width := congrArg List.length same
    simp [tagLine, ascii] at width
  rw [List.singleton_append]
  unfold tagLine at other ⊢
  rw [parseTxLines, if_neg other, if_pos rfl, read]
  rfl

theorem need_number (what : String) (value : UInt64) : need what (number value) = .ok value := by
  simp [need, number, stoull_decimal]

theorem number_absent (value : UInt64) : bar ∉ number value ∧ newline ∉ number value :=
  ⟨(plain_decimal _).bar, (plain_decimal _).newline⟩

theorem attachWitness_last (inputs : List TxInput) (input : TxInput) (witness : Bytes) :
    attachWitness (inputs ++ [input]) witness = inputs ++ [{ input with witness := witness }] := by
  induction inputs with
  | nil => rfl
  | cons first rest ih =>
    cases rest with
    | nil => rfl
    | cons second rest =>
      rw [List.cons_append, List.cons_append, attachWitness, ← List.cons_append,
        ih]
      · rfl
      · simp

theorem reads_input (tx : Transaction) (input : TxInput) (plain : PlainField input.previousTxid) :
    Reads tx (inputLines input) { tx with inputs := tx.inputs ++ [input] } := by
  have index : need "stoul" (decimal input.outputIndex.toNat) =
      .ok (UInt64.ofNat input.outputIndex.toNat) := by
    have bound := input.outputIndex.toNat_lt
    have value : (UInt64.ofNat input.outputIndex.toNat).toNat = input.outputIndex.toNat :=
      UInt64.toNat_ofNat_of_lt' (by rw [UInt64.size]; omega)
    have read := need_number "stoul" (UInt64.ofNat input.outputIndex.toNat)
    rwa [number, value] at read
  have head : Reads tx [tagLine 'I' [input.previousTxid, decimal input.outputIndex.toNat]]
      { tx with inputs := tx.inputs ++ [{ input with witness := [] }] } := by
    refine reads_line _ _ _ _ ?_
    have back : UInt32.ofNat (UInt64.ofNat input.outputIndex.toNat).toNat = input.outputIndex := by
      have bound := input.outputIndex.toNat_lt
      rw [UInt64.toNat_ofNat_of_lt' (by rw [UInt64.size]; omega), UInt32.ofNat_toNat]
    simp only [parseTxField, ↓reduceIte, getline_fields _ _ _ _ plain.bar, fields_one,
      getline_last _ _ _ (plain_decimal input.outputIndex.toNat).newline, index, bind, Except.bind,
      back, pure, Except.pure]
  unfold inputLines
  split
  · rename_i none
    have bare : { input with witness := [] } = input := by
      rw [List.isEmpty_iff] at none
      rw [← none]
    rwa [bare] at head
  · refine Reads.trans head ?_
    refine reads_line _ _ 'W' [input.witness] ?_
    have tag : (byte 'W' = byte 'I') = False := by decide
    have filled : (tx.inputs ++ [{ input with witness := [] }]).isEmpty = false := by simp
    simp only [parseTxField, tag, ↓reduceIte, filled, Bool.false_eq_true, attachWitness_last,
      fields_one, pure, Except.pure]

theorem reads_inputs (tx : Transaction) (inputs : List TxInput)
    (plain : ∀ input ∈ inputs, PlainField input.previousTxid) :
    Reads tx (inputs.flatMap inputLines) { tx with inputs := tx.inputs ++ inputs } := by
  induction inputs generalizing tx with
  | nil => simpa using Reads.nil tx
  | cons input rest ih =>
    have later := ih { tx with inputs := tx.inputs ++ [input] }
      (fun other member => plain other (by simp [member]))
    have both := (reads_input tx input (plain input (by simp))).trans later
    simpa using both

theorem reads_output (tx : Transaction) (output : TxOutput) (plain : PlainField output.recipient) :
    Reads tx [outputLine output] { tx with outputs := tx.outputs ++ [output] } := by
  refine reads_line _ _ _ _ ?_
  have notInput : (byte 'O' = byte 'I') = False := by decide
  have notWitness : (byte 'O' = byte 'W') = False := by decide
  simp only [parseTxField, notInput, notWitness, ↓reduceIte, getline_fields _ _ _ _ plain.bar,
    fields_one, getline_last _ _ _ (number_absent output.amount).2, need_number, bind, Except.bind,
    pure, Except.pure]

theorem reads_outputs (tx : Transaction) (outputs : List TxOutput)
    (plain : ∀ output ∈ outputs, PlainField output.recipient) :
    Reads tx (outputs.map outputLine) { tx with outputs := tx.outputs ++ outputs } := by
  induction outputs generalizing tx with
  | nil => simpa using Reads.nil tx
  | cons output rest ih =>
    have later := ih { tx with outputs := tx.outputs ++ [output] }
      (fun other member => plain other (by simp [member]))
    have both := (reads_output tx output (plain output (by simp))).trans later
    simpa using both

/-- The lines of a transaction are read back into it. -/
theorem parseTxLines_txLines (tx : Transaction) (storable : StorableTx tx) :
    parseTxLines emptyTx (txLines tx) = .ok tx := by
  have head : Reads emptyTx [txHeadLine tx]
      { tx with inputs := [], outputs := [], shielded := [] } := by
    refine reads_line _ _ _ _ ?_
    have notInput : (byte 'T' = byte 'I') = False := by decide
    have notWitness : (byte 'T' = byte 'W') = False := by decide
    have notOutput : (byte 'T' = byte 'O') = False := by decide
    simp only [parseTxField, notInput, notWitness, notOutput, ↓reduceIte,
      getline_fields _ _ _ _ storable.signer.bar, getline_fields _ _ _ _ storable.signerPubkey.bar,
      getline_fields _ _ _ _ storable.signature.bar, getline_fields _ _ _ _ (number_absent _).1,
      fields_one, getline_last _ _ _ (number_absent _).2, need_number, bind, Except.bind, pure,
      Except.pure, emptyTx]
  have inputs := reads_inputs { tx with inputs := [], outputs := [], shielded := [] } tx.inputs
    storable.txids
  have outputs := reads_outputs { tx with outputs := [], shielded := [] } tx.outputs
    storable.recipients
  have bundle : Reads { tx with shielded := [] }
      (if tx.shielded.isEmpty then [] else [tagLine 'S' [tx.shielded]]) tx := by
    split
    · rename_i none
      have bare : { tx with shielded := [] } = tx := by
        rw [List.isEmpty_iff] at none
        rw [← none]
      rw [bare]
      exact Reads.nil tx
    · refine reads_line _ _ _ _ ?_
      have notInput : (byte 'S' = byte 'I') = False := by decide
      have notWitness : (byte 'S' = byte 'W') = False := by decide
      have notOutput : (byte 'S' = byte 'O') = False := by decide
      have notHead : (byte 'S' = byte 'T') = False := by decide
      simp only [parseTxField, notInput, notWitness, notOutput, notHead, ↓reduceIte, fields_one,
        getline_last _ _ _ storable.shielded, pure, Except.pure]
  have whole := head.trans ((inputs.trans outputs).trans bundle)
  exact whole [ascii "E"]

/-! ### Blocks -/

/-- Reading some lines takes a block from one state to another. -/
def Adds (block : Block) (lines : List Bytes) (after : Block) : Prop :=
  ∀ rest, readBody block (lines ++ rest) = readBody after rest

theorem Adds.trans {block between after : Block}
    (left : Adds block first between) (right : Adds between second after) :
    Adds block (first ++ second) after := by
  intro rest
  rw [List.append_assoc, left, right]

theorem Adds.nil (block : Block) : Adds block [] block := fun _ => rfl

/-- A tagged line is none of the closing lines. -/
theorem tagLine_ne_single (tag : Char) (texts : List Bytes) (octet : UInt8) :
    tagLine tag texts ≠ [octet] := by
  intro same
  have width := congrArg List.length same
  simp [tagLine] at width

theorem takeTx_append (inner rest : List Bytes)
    (tagged : ∀ text ∈ inner, ∃ tag texts, text = tagLine tag texts) :
    takeTx (inner ++ ascii "E" :: rest) = (inner ++ [ascii "E"], rest) := by
  induction inner with
  | nil => simp [takeTx]
  | cons text others ih =>
    have later := ih (fun other member => tagged other (by simp [member]))
    obtain ⟨tag, texts, rfl⟩ := tagged text (by simp)
    have other : tagLine tag texts ≠ ascii "E" := tagLine_ne_single tag texts _
    rw [List.cons_append, takeTx, if_neg other, later]
    rfl

theorem txInnerLines_tagged (tx : Transaction) :
    ∀ text ∈ txInnerLines tx, ∃ tag texts, text = tagLine tag texts := by
  intro text member
  simp only [txInnerLines, List.mem_append, List.mem_flatMap, List.mem_map] at member
  rcases member with (⟨input, _, listed⟩ | ⟨output, _, rfl⟩) | listed
  · unfold inputLines at listed
    rcases List.mem_cons.mp listed with rfl | inside
    · exact ⟨_, _, rfl⟩
    · split at inside
      · simp at inside
      · exact ⟨_, _, List.mem_singleton.mp inside⟩
  · exact ⟨_, _, rfl⟩
  · split at listed
    · simp at listed
    · exact ⟨_, _, List.mem_singleton.mp listed⟩

theorem adds_tx (block : Block) (tx : Transaction) (storable : StorableTx tx) :
    Adds block (txLines tx) { block with transactions := block.transactions ++ [tx] } := by
  intro rest
  have taken := takeTx_append (txInnerLines tx) rest (txInnerLines_tagged tx)
  have loaded : loadTx (txHeadLine tx) (txInnerLines tx ++ ascii "E" :: rest) = .ok tx := by
    have parsed := parseTxLines_txLines tx storable
    unfold txLines at parsed
    rw [loadTx, taken, parsed]
  have closing : txHeadLine tx ≠ ascii "Z" := tagLine_ne_single _ _ _
  have notVote : hasTag 'V' (txHeadLine tx) = false := hasTag_tagLine _ _ _
  have notSlash : hasTag 'S' (txHeadLine tx) = false := hasTag_tagLine _ _ _
  have isTx : hasTag 'T' (txHeadLine tx) = true := hasTag_tagLine _ _ _
  rw [txLines, List.cons_append, List.append_assoc, List.singleton_append, readBody, if_neg closing]
  simp only [notVote, notSlash, isTx, Bool.false_eq_true, ↓reduceIte, loaded, taken, bind, Except.bind]

theorem adds_txs (block : Block) (txs : List Transaction) (storable : ∀ tx ∈ txs, StorableTx tx) :
    Adds block (txs.flatMap txLines) { block with transactions := block.transactions ++ txs } := by
  induction txs generalizing block with
  | nil => simpa using Adds.nil block
  | cons tx rest ih =>
    have later := ih { block with transactions := block.transactions ++ [tx] }
      (fun other member => storable other (by simp [member]))
    have both := (adds_tx block tx (storable tx (by simp))).trans later
    simpa using both

theorem wanted_fields (message : String) (first second : Bytes) (rest : List Bytes)
    (plain : bar ∉ first) :
    wanted message (some (fields (first :: second :: rest))) =
      .ok (first, some (fields (second :: rest))) := by
  simp [wanted, getline_fields first second rest [] plain]

theorem wanted_last (message : String) (field : Bytes) (plain : bar ∉ field) (some : field ≠ []) :
    wanted message (.some (fields [field])) = .ok (field, none) := by
  simp [wanted, fields_one, getline_last bar field [] plain, some]

theorem approve_absent (approve : Bool) : bar ∉ (if approve then ascii "1" else ascii "0") := by
  cases approve <;> decide

theorem approve_read (approve : Bool) :
    ((if approve then ascii "1" else ascii "0") == ascii "1") = approve := by
  cases approve <;> decide

/-- A vote that more fields follow. -/
theorem parseVote_front (message : String) (vote : StakeVote) (next : Bytes) (rest : List Bytes)
    (storable : StorableVote vote) :
    parseVoteFields message (some (fields (voteFields vote ++ next :: rest))) =
      .ok (vote, some (fields (next :: rest))) := by
  simp only [parseVoteFields, voteFields, List.cons_append, List.nil_append,
    wanted_fields _ _ _ _ storable.ticketId.bar, wanted_fields _ _ _ _ (number_absent _).1,
    wanted_fields _ _ _ _ storable.votedHash.bar, wanted_fields _ _ _ _ (approve_absent _),
    wanted_fields _ _ _ _ storable.signature.bar, need_number, approve_read, bind, Except.bind, pure,
    Except.pure]

/-- A vote at the end of a line. Its signature must not be empty. -/
theorem parseVote_last (message : String) (vote : StakeVote) (storable : StorableVote vote)
    (signed : vote.signature ≠ []) :
    parseVoteFields message (some (fields (voteFields vote))) = .ok (vote, none) := by
  simp only [parseVoteFields, voteFields,
    wanted_fields _ _ _ _ storable.ticketId.bar, wanted_fields _ _ _ _ (number_absent _).1,
    wanted_fields _ _ _ _ storable.votedHash.bar, wanted_fields _ _ _ _ (approve_absent _),
    wanted_last _ _ storable.signature.bar signed, need_number, approve_read, bind, Except.bind, pure,
    Except.pure]

theorem adds_vote (block : Block) (vote : StakeVote) (storable : StorableVote vote)
    (signed : vote.signature ≠ []) :
    Adds block [voteLine vote] { block with votes := block.votes ++ [vote] } := by
  intro rest
  have closing : voteLine vote ≠ ascii "Z" := tagLine_ne_single _ _ _
  have isVote : hasTag 'V' (voteLine vote) = true := hasTag_tagLine _ _ _
  have content : contentOf (voteLine vote) = fields (voteFields vote) := rfl
  rw [List.singleton_append, readBody, if_neg closing]
  simp only [isVote, ↓reduceIte, content, parseVote_last _ vote storable signed, bind, Except.bind]

theorem adds_votes (block : Block) (votes : List StakeVote)
    (storable : ∀ vote ∈ votes, StorableVote vote ∧ vote.signature ≠ []) :
    Adds block (votes.map voteLine) { block with votes := block.votes ++ votes } := by
  induction votes generalizing block with
  | nil => simpa using Adds.nil block
  | cons vote rest ih =>
    have later := ih { block with votes := block.votes ++ [vote] }
      (fun other member => storable other (by simp [member]))
    obtain ⟨plain, signed⟩ := storable vote (by simp)
    have both := (adds_vote block vote plain signed).trans later
    simpa using both

theorem adds_slash (block : Block) (slash : SlashEvidence) (a : StorableVote slash.a)
    (b : StorableVote slash.b) (signed : slash.b.signature ≠ []) :
    Adds block [slashLine slash] { block with slashes := block.slashes ++ [slash] } := by
  intro rest
  have closing : slashLine slash ≠ ascii "Z" := tagLine_ne_single _ _ _
  have notVote : hasTag 'V' (slashLine slash) = false := hasTag_tagLine _ _ _
  have isSlash : hasTag 'S' (slashLine slash) = true := hasTag_tagLine _ _ _
  have content : contentOf (slashLine slash) = fields (voteFields slash.a ++ voteFields slash.b) := rfl
  have first := parseVote_front "chain load failed: invalid slash line" slash.a slash.b.ticketId
    [number slash.b.votedHeight, slash.b.votedHash,
      if slash.b.approve then ascii "1" else ascii "0", slash.b.signature] a
  have second := parseVote_last "chain load failed: invalid slash line" slash.b b signed
  rw [List.singleton_append, readBody, if_neg closing]
  unfold voteFields at first second content
  simp only [notVote, isSlash, Bool.false_eq_true, ↓reduceIte, content, first, second, bind, Except.bind]

theorem adds_slashes (block : Block) (slashes : List SlashEvidence)
    (storable : ∀ slash ∈ slashes, StorableVote slash.a ∧ StorableVote slash.b ∧
      slash.b.signature ≠ []) :
    Adds block (slashes.map slashLine) { block with slashes := block.slashes ++ slashes } := by
  induction slashes generalizing block with
  | nil => simpa using Adds.nil block
  | cons slash rest ih =>
    have later := ih { block with slashes := block.slashes ++ [slash] }
      (fun other member => storable other (by simp [member]))
    obtain ⟨a, b, signed⟩ := storable slash (by simp)
    have both := (adds_slash block slash a b signed).trans later
    simpa using both

/-- The signatures that votes and evidence need to be read back. -/
structure SignedVotes (block : Block) : Prop where
  votes : ∀ vote ∈ block.votes, vote.signature ≠ []
  slashes : ∀ slash ∈ block.slashes, slash.b.signature ≠ []

theorem readHeader_headerLine (header : BlockHeader) (previousHash : PlainField header.previousHash)
    (merkleRoot : newline ∉ header.merkleRoot) :
    readHeader (contentOf (headerLine header)) = .ok header := by
  rw [headerLine, contentOf_tagLine]
  simp only [readHeader, getline_fields _ _ _ _ (number_absent _).1,
    getline_fields _ _ _ _ previousHash.bar, fields_one, getline_last _ _ _ merkleRoot, need_number,
    bind, Except.bind, pure, Except.pure]

/-- The lines of a block are read back into it, and the lines behind it are left. -/
theorem readBlock_blockLines (block : Block) (rest : List Bytes) (storable : StorableBlock block)
    (signed : SignedVotes block) :
    readBlock (headerLine block.header)
        (block.transactions.flatMap txLines ++ block.votes.map voteLine ++
          block.slashes.map slashLine ++ [ascii "Z"] ++ rest) = .ok (block, rest) := by
  have header := readHeader_headerLine block.header storable.previousHash storable.merkleRoot
  have txs := adds_txs ⟨block.header, [], [], []⟩ block.transactions storable.transactions
  have votes := adds_votes ⟨block.header, block.transactions, [], []⟩ block.votes
    (fun vote member => ⟨storable.votes vote member, signed.votes vote member⟩)
  have slashes := adds_slashes ⟨block.header, block.transactions, block.votes, []⟩ block.slashes
    (fun slash member => ⟨(storable.slashes slash member).1, (storable.slashes slash member).2,
      signed.slashes slash member⟩)
  have body := ((txs.trans votes).trans slashes) ([ascii "Z"] ++ rest)
  rw [readBlock, header, List.append_assoc]
  simp only [bind, Except.bind]
  refine body.trans ?_
  rw [List.singleton_append, readBody, if_pos rfl]
  rfl

end Addition.Store
