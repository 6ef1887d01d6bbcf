import Addition.Foundations.FiniteTables
import Addition.Foundations.HexNumbers
import Addition.Primitives

/-!
# The pool of opening notes

A note carries a tag of its owner, a masked amount, a commitment and a nullifier. Its
identifier, tag and mask are digests; the mask is the first 64 bits of one of them. Minting
checks the opening against the commitment and the nullifier and scans the notes for both.
Spending mints the recipient's note and the change before it marks the spent note, and takes
the minted notes back when a later part fails. The default cipher of `privacy.cpp` is
modelled; the random openings of a spend are arguments and may be missing.
-/

namespace Addition

namespace Privacy

open ByteStrings Checked FiniteTables HexNumbers

/-- `PrivateNote`. -/
structure PrivateNote where
  ownerTag : Bytes
  amountSealed : Bytes
  blinding : Bytes
  commitment : Bytes
  nullifier : Bytes
  spent : Bool
deriving DecidableEq

/-- The parts of an opening. -/
structure OpeningNote where
  trapdoor : Bytes
  commitment : Bytes
  nullifier : Bytes
deriving DecidableEq

/-- `OpeningNote{}`. -/
def OpeningNote.empty : OpeningNote := ⟨[], [], []⟩

/-- `NativeVerifierMode`. -/
inductive NativeVerifierMode
  | pqMldsa87
deriving DecidableEq

/-- `PrivacyPool`. -/
structure PrivacyPool where
  nativeVerifierMode : NativeVerifierMode
  strictZkMode : Bool
  notes : Table Bytes PrivateNote
  usedNullifiers : Finset Bytes
  spentCommitments : Finset Bytes

/-- A pool as it is constructed. -/
def PrivacyPool.initial : PrivacyPool := ⟨.pqMldsa87, true, ∅, ∅, ∅⟩

/-- `is_hex_even`. -/
def isHexEven (text : Bytes) : Bool :=
  !text.isEmpty && decide (text.length % 2 = 0) && text.all isHex

variable (P : Primitives)

/-- `mk_note_id`. -/
def mkNoteId (owner : Bytes) (amount : UInt64) (seed : Bytes) : Bytes :=
  strongHash P (ascii "note|" ++ owner ++ ascii "|" ++ decimal amount.toNat ++ ascii "|" ++ seed)

/-! ### `KeylessNoteCipher` -/

/-- `owner_tag`. -/
def ownerTag (owner noteId : Bytes) : Except String Bytes := do
  ensure (!owner.isEmpty && !noteId.isEmpty) "owner_tag: owner/note_id empty"
  pure (strongHash P (ascii "owner_tag_v2|" ++ noteId ++ ascii "|" ++ owner))

/-- `mask`. Sixteen digits of a digest are always a 64-bit number. -/
def mask (noteId blinding : Bytes) : Except String UInt64 := do
  ensure (!noteId.isEmpty) "amount mask: note_id empty"
  let maskHex := strongHash P (ascii "amount_mask_v2|" ++ noteId ++ ascii "|" ++ blinding)
  pure ((stoullHex (maskHex.take 16)).getD 0)

/-- `seal_amount`. -/
def sealAmount (amount : UInt64) (noteId blinding : Bytes) : Except String Bytes := do
  let mask64 ← mask P noteId blinding
  pure (hexNumber (amount ^^^ mask64).toNat)

/-- The number of a sealed amount. -/
def parseSealed (sealedHex : Bytes) : Except String UInt64 :=
  match stoullHex sealedHex with
  | none => .error "invalid sealed amount parse"
  | some value => .ok value

/-- `unseal_amount`. An odd digit string is judged with a zero in front. -/
def unsealAmount (sealedHex noteId blinding : Bytes) : Except String UInt64 := do
  ensure (!sealedHex.isEmpty && decide (sealedHex.length ≤ 16) &&
      isHexEven (if sealedHex.length % 2 = 0 then sealedHex else ascii "0" ++ sealedHex))
    "invalid sealed amount"
  let mask64 ← mask P noteId blinding
  let value ← parseSealed sealedHex
  pure (value ^^^ mask64)

/-! ### Openings -/

/-- `compute_opening_relation`: the commitment and the nullifier. -/
def computeOpeningRelation (amount : UInt64) (trapdoor : Bytes) : Bytes × Bytes :=
  let commitment := strongHash P (ascii "cm|v1|" ++ decimal amount.toNat ++ ascii "|" ++ trapdoor)
  (commitment, strongHash P (ascii "nf|v1|" ++ commitment ++ ascii "|" ++ trapdoor))

/-- `verify_opening`. -/
def verifyOpening (amount : UInt64) (trapdoor commitment nullifier : Bytes) :
    Except String Unit := do
  ensure (isHexEven trapdoor && decide (32 ≤ trapdoor.length))
    "trapdoor must be even-length hex (>=16 bytes)"
  ensure (isHexEven commitment && isHexEven nullifier)
    "commitment/nullifier must be even-length hex"
  ensure (decide (computeOpeningRelation P amount trapdoor = (commitment, nullifier)))
    "opening relation rejected"

/-- `prepare_opening`, on what the random source gives. -/
def prepareOpening (amount : UInt64) (drawn : Except String H32) : Except String OpeningNote := do
  ensure (decide (amount ≠ 0)) "amount must be > 0"
  let octets ← drawn
  let trapdoor := toHex octets.val
  let (commitment, nullifier) := computeOpeningRelation P amount trapdoor
  pure ⟨trapdoor, commitment, nullifier⟩

/-! ### Minting -/

/-- The scan of the notes for the nullifier and the commitment. The two messages come in
the order of the notes. -/
def scanNotes (commitment nullifier : Bytes) : List PrivateNote → Except String Unit
  | [] => .ok ()
  | existing :: rest => do
    ensure (decide (existing.nullifier ≠ nullifier)) "nullifier already assigned"
    ensure (decide (existing.commitment ≠ commitment)) "commitment already assigned"
    scanNotes commitment nullifier rest

/-- The notes of a pool. -/
def PrivacyPool.listed (pool : PrivacyPool) : List PrivateNote :=
  pool.notes.entries.map (fun entry => entry.2)

/-- The checks of `mint_open` and the note it makes. -/
def openNote (pool : PrivacyPool) (owner : Bytes) (amount : UInt64)
    (commitment nullifier trapdoor : Bytes) : Except String (Bytes × PrivateNote) := do
  ensure (!owner.isEmpty && decide (amount ≠ 0)) "invalid mint_open params"
  verifyOpening P amount trapdoor commitment nullifier
  ensure (decide (nullifier ∉ pool.usedNullifiers)) "nullifier already used"
  ensure (decide (commitment ∉ pool.spentCommitments)) "commitment already spent"
  scanNotes commitment nullifier pool.listed
  let noteId := mkNoteId P owner amount commitment
  ensure (!(pool.notes.lookup noteId).isSome) "note already exists"
  let sealedAmount ← sealAmount P amount noteId (ascii "open")
  let tag ← ownerTag P owner noteId
  pure (noteId, ⟨tag, sealedAmount, ascii "open", commitment, nullifier, false⟩)

/-- A note is stored. -/
def PrivacyPool.putNote (pool : PrivacyPool) (noteId : Bytes) (note : PrivateNote) : PrivacyPool :=
  { pool with notes := pool.notes.insert noteId note }

/-- A note is taken out. -/
def PrivacyPool.eraseNote (pool : PrivacyPool) (noteId : Bytes) : PrivacyPool :=
  { pool with notes := pool.notes.erase noteId }

/-- `mint_open`. -/
def mintOpen (pool : PrivacyPool) (owner : Bytes) (amount : UInt64)
    (commitment nullifier trapdoor : Bytes) : Except String Bytes × PrivacyPool :=
  match openNote P pool owner amount commitment nullifier trapdoor with
  | .error message => (.error message, pool)
  | .ok (noteId, note) => (.ok noteId, pool.putNote noteId note)

/-! ### Spending -/

/-- The note under an identifier. -/
def findNote (pool : PrivacyPool) (noteId : Bytes) : Except String PrivateNote :=
  match pool.notes.lookup noteId with
  | none => .error "note not found"
  | some note => .ok note

/-- The checks of `spend_open` before anything is minted: the note and its amount. -/
def spendable (pool : PrivacyPool) (owner noteId recipient : Bytes) (amount : UInt64)
    (trapdoor : Bytes) : Except String (PrivateNote × UInt64) := do
  ensure (!owner.isEmpty && !recipient.isEmpty && !noteId.isEmpty && decide (amount ≠ 0))
    "invalid spend_open params"
  let note ← findNote pool noteId
  ensure (!note.spent) "note already spent"
  let expectedOwnerTag ← ownerTag P owner noteId
  ensure (decide (note.ownerTag = expectedOwnerTag)) "owner mismatch"
  let noteAmount ← unsealAmount P note.amountSealed noteId note.blinding
  ensure (decide (amount ≤ noteAmount)) "insufficient note amount"
  verifyOpening P noteAmount trapdoor note.commitment note.nullifier
  ensure (decide (note.nullifier ∉ pool.usedNullifiers)) "nullifier already used"
  pure (note, noteAmount)

/-- What a successful spend hands back, and the amount of the change. -/
structure SpendReceipt where
  newNoteId : Bytes
  recipientOpening : OpeningNote
  changeNoteId : Bytes
  changeOpening : OpeningNote
  change : UInt64
deriving DecidableEq

/-- The spent flag and the two sets. -/
def PrivacyPool.markSpent (pool : PrivacyPool) (noteId : Bytes) (note : PrivateNote) :
    PrivacyPool :=
  { pool with
    notes := pool.notes.insert noteId { note with spent := true }
    usedNullifiers := insert note.nullifier pool.usedNullifiers
    spentCommitments := insert note.commitment pool.spentCommitments }

/-- The opening and the minting of one new note. -/
def mintNew (pool : PrivacyPool) (owner : Bytes) (amount : UInt64) (drawn : Except String H32) :
    Except String (Bytes × OpeningNote) × PrivacyPool :=
  match prepareOpening P amount drawn with
  | .error message => (.error message, pool)
  | .ok opening =>
    match mintOpen P pool owner amount opening.commitment opening.nullifier opening.trapdoor with
    | (.error message, left) => (.error message, left)
    | (.ok minted, left) => (.ok (minted, opening), left)

/-- The change of a spend. A failure takes the recipient's note back. -/
def mintChange (pool : PrivacyPool) (owner : Bytes) (change : UInt64) (minted : Bytes)
    (drawn : Except String H32) : Except String (Bytes × OpeningNote) × PrivacyPool :=
  if change = 0 then (.ok ([], .empty), pool)
  else
    match mintNew P pool owner change drawn with
    | (.error message, left) => (.error message, left.eraseNote minted)
    | (.ok made, left) => (.ok made, left)

/-- `spend_open`. -/
def spendOpen (pool : PrivacyPool) (owner noteId recipient : Bytes) (amount : UInt64)
    (trapdoor : Bytes) (drawn drawnChange : Except String H32) :
    Except String SpendReceipt × PrivacyPool :=
  match spendable P pool owner noteId recipient amount trapdoor with
  | .error message => (.error message, pool)
  | .ok (note, noteAmount) =>
    match mintNew P pool recipient amount drawn with
    | (.error message, left) => (.error message, left)
    | (.ok (minted, recipientOpening), paid) =>
      let change := noteAmount - amount
      match mintChange P paid owner change minted drawnChange with
      | (.error message, left) => (.error message, left)
      | (.ok (mintedChange, changeOpening), changed) =>
        (.ok ⟨minted, recipientOpening, mintedChange, changeOpening, change⟩,
          changed.markSpent noteId note)

/-! ### Calls -/

/-- A call on the pool, with what the random source gives during a spend. -/
inductive Call
  | mint (owner : Bytes) (amount : UInt64) (commitment nullifier trapdoor : Bytes)
  | spend (owner noteId recipient : Bytes) (amount : UInt64) (trapdoor : Bytes)
      (drawn drawnChange : Except String H32)

/-- What a successful call did: the notes it minted with their amounts, the last one first,
and the notes it spent. -/
structure Done where
  minted : List (Bytes × UInt64)
  spent : List Bytes

/-- The new notes of a spend, the last one first. -/
def SpendReceipt.minted (receipt : SpendReceipt) (amount : UInt64) : List (Bytes × UInt64) :=
  (if receipt.change = 0 then [] else [(receipt.changeNoteId, receipt.change)]) ++
    [(receipt.newNoteId, amount)]

/-- One call. -/
def perform (pool : PrivacyPool) : Call → Except String Done × PrivacyPool
  | .mint owner amount commitment nullifier trapdoor =>
    match mintOpen P pool owner amount commitment nullifier trapdoor with
    | (.error message, left) => (.error message, left)
    | (.ok noteId, left) => (.ok ⟨[(noteId, amount)], []⟩, left)
  | .spend owner noteId recipient amount trapdoor drawn drawnChange =>
    match spendOpen P pool owner noteId recipient amount trapdoor drawn drawnChange with
    | (.error message, left) => (.error message, left)
    | (.ok receipt, left) => (.ok ⟨receipt.minted amount, [noteId]⟩, left)

/-- A pool and what the successful calls on it did. -/
structure History where
  pool : PrivacyPool
  minted : List (Bytes × UInt64)
  spent : List Bytes

/-- The history before the first call. -/
def History.initial : History := ⟨.initial, [], []⟩

/-- A call is performed; what it minted or spent is noted. -/
def History.advance (history : History) (call : Call) : History :=
  match perform P history.pool call with
  | (.error _, left) => { history with pool := left }
  | (.ok done, left) => ⟨left, done.minted ++ history.minted, done.spent ++ history.spent⟩

/-- The calls on a new pool, in order. -/
def run (calls : List Call) : History := calls.foldl (History.advance P) .initial

end Privacy

end Addition
