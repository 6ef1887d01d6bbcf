import Addition.Foundations.TextLines
import Addition.Blocks

/-!
# The block file

`StateStore::save_chain` and `StateStore::load_chain`. The file is a text of lines
whose fields are separated by bars and written without escaping: a header line, the
lines of the transactions, of the votes and of the slashes, and a closing line for
each block. Loading reads the blocks one after the other and adds each to the chain
as soon as it is read. Every reading loop of the source takes its lines from one
stream, which here is the list of the lines that are left; writing and reading the
file itself do not fail here.
-/

namespace Addition.Store

open ByteStrings Checked FiniteTables TextLines

variable (P : Primitives)

/-- The mark between fields. -/
def bar : UInt8 := byte '|'

/-! ### Writing -/

/-- The text between the separators of a line. -/
def fields (texts : List Bytes) : Bytes := List.intercalate [bar] texts

/-- A tag and the fields behind it. -/
def tagLine (tag : Char) (texts : List Bytes) : Bytes := byte tag :: bar :: fields texts

/-- An integer as `operator<<` writes it. -/
def number (value : UInt64) : Bytes := decimal value.toNat

/-- The lines of one input. -/
def inputLines (input : TxInput) : List Bytes :=
  tagLine 'I' [input.previousTxid, decimal input.outputIndex.toNat] ::
    if input.witness.isEmpty then [] else [tagLine 'W' [input.witness]]

/-- The first line of a transaction. -/
def txHeadLine (tx : Transaction) : Bytes :=
  tagLine 'T' [tx.signer, tx.signerPubkey, tx.signature, number tx.fee, number tx.nonce]

/-- The line of an output. -/
def outputLine (output : TxOutput) : Bytes :=
  tagLine 'O' [output.recipient, number output.amount]

/-- The lines of a transaction between the first and the last. -/
def txInnerLines (tx : Transaction) : List Bytes :=
  tx.inputs.flatMap inputLines ++ tx.outputs.map outputLine ++
    if tx.shielded.isEmpty then [] else [tagLine 'S' [tx.shielded]]

/-- `tx_to_line`, line by line. -/
def txLines (tx : Transaction) : List Bytes :=
  txHeadLine tx :: (txInnerLines tx ++ [ascii "E"])

/-- `vote_fields`. -/
def voteFields (vote : StakeVote) : List Bytes :=
  [vote.ticketId, number vote.votedHeight, vote.votedHash,
    if vote.approve then ascii "1" else ascii "0", vote.signature]

/-- The line of a vote. -/
def voteLine (vote : StakeVote) : Bytes := tagLine 'V' (voteFields vote)

/-- The line of evidence. -/
def slashLine (slash : SlashEvidence) : Bytes :=
  tagLine 'S' (voteFields slash.a ++ voteFields slash.b)

/-- The line of a header. -/
def headerLine (header : BlockHeader) : Bytes :=
  tagLine 'B' [number header.height, header.previousHash, number header.timestamp,
    number header.nonce, number header.difficultyTarget, header.merkleRoot]

/-- The lines of a block. -/
def blockLines (block : Block) : List Bytes :=
  headerLine block.header ::
    (block.transactions.flatMap txLines ++ block.votes.map voteLine ++
      block.slashes.map slashLine ++ [ascii "Z"])

/-- The blocks that are written. -/
def written (chain : Chain) : List Block :=
  chain.blocks.filter (fun block => block.header.height ≠ 0)

/-- The line that names the network, which the test network does without. -/
def networkLines (chain : Chain) : List Bytes :=
  if chain.cfg.networkId ≠ kTestnetNetworkId then
    [tagLine 'N' [chain.cfg.networkId, chain.cfg.networkMode,
      hashBlockHeader P (chain.blocks.headD default).header]]
  else []

/-- `StateStore::save_chain`: the text of the file. -/
def saveChain (chain : Chain) : Bytes :=
  (networkLines P chain ++ (written chain).flatMap blockLines).flatMap line

/-! ### Reading -/

/-- How reading ends early: an error text of its own, or an exception of the library. -/
inductive Failure
  | refused (message : String)
  | thrown (what : String)
deriving DecidableEq, Repr

/-- A number that must be there. -/
def need (what : String) (text : Bytes) : Except Failure UInt64 :=
  match stoull text with
  | some value => .ok value
  | none => .error (.thrown what)

/-- A field that must be there. -/
def wanted (message : String) (stream : Option Bytes) : Except Failure (Bytes × Option Bytes) :=
  let (field, stream, present) := getline bar stream []
  if present then .ok (field, stream) else .error (.refused message)

/-- `parse_vote_fields`. -/
def parseVoteFields (message : String) (stream : Option Bytes) :
    Except Failure (StakeVote × Option Bytes) := do
  let (ticketId, stream) ← wanted message stream
  let (height, stream) ← wanted message stream
  let (votedHash, stream) ← wanted message stream
  let (approve, stream) ← wanted message stream
  let (signature, stream) ← wanted message stream
  let votedHeight ← need "stoull" height
  pure (⟨ticketId, votedHeight, votedHash, approve == ascii "1", signature⟩, stream)

/-- Set the witness of the last input. -/
def attachWitness : List TxInput → Bytes → List TxInput
  | [], _ => []
  | [input], witness => [{ input with witness := witness }]
  | input :: rest, witness => input :: attachWitness rest witness

/-- One line of a transaction, by its tag. -/
def parseTxField (tx : Transaction) (tag : UInt8) (content : Bytes) : Except Failure Transaction :=
  if tag = byte 'I' then do
    let (previousTxid, stream, _) := getline bar (some content) []
    let (index, _, _) := getline newline stream []
    let value ← need "stoul" index
    pure { tx with inputs := tx.inputs ++ [⟨previousTxid, UInt32.ofNat value.toNat, []⟩] }
  else if tag = byte 'W' then
    if tx.inputs.isEmpty then .error (.refused "witness without input")
    else pure { tx with inputs := attachWitness tx.inputs content }
  else if tag = byte 'O' then do
    let (recipient, stream, _) := getline bar (some content) []
    let (amount, _, _) := getline newline stream []
    let value ← need "stoull" amount
    pure { tx with outputs := tx.outputs ++ [⟨recipient, value⟩] }
  else if tag = byte 'T' then do
    let (signer, stream, _) := getline bar (some content) tx.signer
    let (signerPubkey, stream, _) := getline bar stream tx.signerPubkey
    let (signature, stream, _) := getline bar stream tx.signature
    let (feeText, stream, _) := getline bar stream []
    let (nonceText, _, _) := getline newline stream []
    let fee ← need "stoull" feeText
    let nonce ← need "stoull" nonceText
    pure { tx with signer := signer, signerPubkey := signerPubkey, signature := signature,
                   fee := fee, nonce := nonce }
  else if tag = byte 'S' then
    pure { tx with shielded := (getline newline (some content) tx.shielded).1 }
  else .error (.refused "unknown tx tag")

/-- `parse_tx_lines`. -/
def parseTxLines : Transaction → List Bytes → Except Failure Transaction
  | _, [] => .error (.refused "unterminated tx block")
  | tx, text :: rest =>
    if text = ascii "E" then .ok tx
    else
      match text with
      | tag :: second :: content =>
        if second = bar then do
          let tx ← parseTxField tx tag content
          parseTxLines tx rest
        else .error (.refused "invalid tx line")
      | _ => .error (.refused "invalid tx line")

/-- The lines up to the end of a transaction, with the end, and the lines behind it. -/
def takeTx : List Bytes → List Bytes × List Bytes
  | [] => ([], [])
  | text :: rest =>
    if text = ascii "E" then ([text], rest) else (text :: (takeTx rest).1, (takeTx rest).2)

theorem takeTx_shrinks (lines : List Bytes) : (takeTx lines).2.length ≤ lines.length := by
  induction lines with
  | nil => exact Nat.le_refl _
  | cons text rest ih =>
    unfold takeTx
    split
    · exact Nat.le_succ _
    · exact ih.trans (Nat.le_succ _)

/-- What the reader of a transaction starts with. -/
def emptyTx : Transaction := ⟨[], [], [], [], [], 0, 0, []⟩

/-- `load_chain` puts its own name before what the parser of transactions refused. -/
def Failure.within : Failure → Failure
  | .refused message => .refused ("chain load failed: " ++ message)
  | .thrown what => .thrown what

/-- The transaction whose first line was read. -/
def loadTx (first : Bytes) (rest : List Bytes) : Except Failure Transaction :=
  match parseTxLines emptyTx (first :: (takeTx rest).1) with
  | .ok tx => .ok tx
  | .error failure => .error failure.within

/-- The content behind a tag. -/
def contentOf (text : Bytes) : Bytes := text.drop 2

/-- Whether a line has a tag. -/
def hasTag (tag : Char) (text : Bytes) : Bool := [byte tag, bar].isPrefixOf text

/-- The lines of a block behind its header. Lines of no known tag are skipped, and the
end of the file ends the block. -/
def readBody (block : Block) : List Bytes → Except Failure (Block × List Bytes)
  | [] => .ok (block, [])
  | text :: rest =>
    if text = ascii "Z" then .ok (block, rest)
    else if hasTag 'V' text then do
      let (vote, _) ← parseVoteFields "chain load failed: invalid vote line" (some (contentOf text))
      readBody { block with votes := block.votes ++ [vote] } rest
    else if hasTag 'S' text then do
      let (a, stream) ←
        parseVoteFields "chain load failed: invalid slash line" (some (contentOf text))
      let (b, _) ← parseVoteFields "chain load failed: invalid slash line" stream
      readBody { block with slashes := block.slashes ++ [⟨a, b⟩] } rest
    else if hasTag 'T' text then do
      let tx ← loadTx text rest
      readBody { block with transactions := block.transactions ++ [tx] } (takeTx rest).2
    else readBody block rest
termination_by lines => lines.length
decreasing_by
  all_goals
    have shrinks := takeTx_shrinks rest
    simp only [List.length_cons]
    omega

/-- The header line of a block. A missing field leaves the text of the one before. -/
def readHeader (content : Bytes) : Except Failure BlockHeader := do
  let (heightText, stream, _) := getline bar (some content) []
  let height ← need "stoull" heightText
  let (previousHash, stream, _) := getline bar stream []
  let (timeText, stream, _) := getline bar stream heightText
  let timestamp ← need "stoull" timeText
  let (nonceText, stream, _) := getline bar stream timeText
  let nonce ← need "stoull" nonceText
  let (targetText, stream, _) := getline bar stream nonceText
  let difficultyTarget ← need "stoull" targetText
  let (merkleRoot, _, _) := getline newline stream []
  pure ⟨height, previousHash, timestamp, nonce, difficultyTarget, merkleRoot⟩

/-- The block whose header line was read, and the lines behind it. -/
def readBlock (text : Bytes) (rest : List Bytes) : Except Failure (Block × List Bytes) := do
  let header ← readHeader (contentOf text)
  readBody ⟨header, [], [], []⟩ rest

theorem readBody_shrinks (block found : Block) (lines left : List Bytes)
    (read : readBody block lines = .ok (found, left)) : left.length ≤ lines.length := by
  fun_induction readBody block lines generalizing found left with
  | case1 block =>
    obtain ⟨_, rfl⟩ := Prod.mk.inj (Except.ok.inj read)
    exact Nat.le_refl _
  | case2 block rest =>
    obtain ⟨_, rfl⟩ := Prod.mk.inj (Except.ok.inj read)
    exact Nat.le_succ _
  | case3 block text rest _ _ ih =>
    obtain ⟨⟨vote, _⟩, _, later⟩ := (bind_ok _ _ _).mp read
    exact (ih vote found left later).trans (Nat.le_succ _)
  | case4 block text rest _ _ _ ih =>
    obtain ⟨⟨a, _⟩, _, read⟩ := (bind_ok _ _ _).mp read
    obtain ⟨⟨b, _⟩, _, later⟩ := (bind_ok _ _ _).mp read
    exact (ih a b found left later).trans (Nat.le_succ _)
  | case5 block text rest _ _ _ _ ih =>
    obtain ⟨tx, _, later⟩ := (bind_ok _ _ _).mp read
    exact ((ih tx found left later).trans (takeTx_shrinks rest)).trans
      (Nat.le_succ _)
  | case6 block text rest _ _ _ _ ih =>
    exact (ih found left read).trans (Nat.le_succ _)

theorem readBlock_shrinks (text : Bytes) (rest left : List Bytes) (block : Block)
    (read : readBlock text rest = .ok (block, left)) : left.length ≤ rest.length := by
  obtain ⟨header, _, body⟩ := (bind_ok _ _ _).mp read
  exact readBody_shrinks _ block rest left body

/-- The loop over the lines of the file. The positions number the blocks read, each of
which is added at its own reading of the clock. -/
def loadLines (clock : Nat → Time) (position : Nat) (chain : Chain) :
    List Bytes → Except Failure Unit × Chain
  | [] => (.ok (), chain)
  | text :: rest =>
    if text.isEmpty then loadLines clock position chain rest
    else if hasTag 'N' text then
      let named := (getline bar (some (contentOf text)) []).1
      if named ≠ chain.cfg.networkId then
        (.error (.refused ("chain load failed: blocks.dat network_id=" ++ spelled named ++
          " does not match " ++ spelled chain.cfg.networkId)), chain)
      else loadLines clock position chain rest
    else if !hasTag 'B' text then loadLines clock position chain rest
    else
      match _reading : readBlock text rest with
      | .error failure => (.error failure, chain)
      | .ok (block, left) =>
        match addBlock P (clock position) chain block with
        | (.error refusal, reached) =>
          (.error (.refused ("chain load failed: failed to replay block: " ++ refusal)), reached)
        | (.ok _, reached) => loadLines clock (position + 1) reached left
termination_by lines => lines.length
decreasing_by
  · exact Nat.lt_succ_self _
  · exact Nat.lt_succ_self _
  · exact Nat.lt_succ_self _
  · exact Nat.lt_succ_of_le (readBlock_shrinks text rest left block ‹_›)

/-- `StateStore::load_chain`. Without a file there is nothing to load. -/
def loadChain (clock : Nat → Time) (chain : Chain) (file : Option Bytes) :
    Except String Unit × Chain :=
  match file with
  | none => (.ok (), chain)
  | some content =>
    match loadLines P clock 1 chain (splitLines content) with
    | (.ok _, reached) => (.ok (), reached)
    | (.error (.refused message), reached) => (.error message, reached)
    | (.error (.thrown what), reached) =>
      (.error ("chain load failed: state parse exception: " ++ what), reached)

end Addition.Store
