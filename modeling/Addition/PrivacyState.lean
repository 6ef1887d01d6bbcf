import Addition.PrivacyRuns
import Addition.StateLines

/-!
# The state file of the note pool

The state of the pool is written as lines and read back line by line. A note's line is read
in one of two ways. With a tag of 128 hexadecimal digits and an amount of an even number of
hexadecimal digits it is a note; otherwise it is taken for an old line with the owner and
the amount in plain text, and both are derived again. A sealed amount is written without
leading zeros, so it can have an odd number of digits.
-/

namespace Addition

namespace Privacy

open ByteStrings Checked FiniteTables HexNumbers TextLines Store

/-- `lower_copy`. -/
def lowerCopy (text : Bytes) : Bytes :=
  text.map (fun octet => if 65 ≤ octet ∧ octet ≤ 90 then octet + 32 else octet)

/-- `find(part) != npos`. -/
def contains (part text : Bytes) : Bool := text.tails.any part.isPrefixOf

/-- `native_verifier_mode`. -/
def nativeVerifierModeText : NativeVerifierMode → Bytes
  | .pqMldsa87 => ascii "pq_mldsa87"

/-- `set_native_verifier_mode`. -/
def setNativeVerifierMode (pool : PrivacyPool) (mode : Bytes) : Except String PrivacyPool :=
  let normalized := lowerCopy mode
  if ["zk", "snark", "groth", "bullet", "stark", "plonk"].any
      (fun part => contains (ascii part) normalized) then
    .error "not a ZK/SNARK/bulletproofs circuit; privacy is SHA3 opening"
  else if normalized = ascii "pq_mldsa87" ∨ normalized = ascii "pq" ∨ normalized = ascii "mldsa87" then
    .ok { pool with nativeVerifierMode := .pqMldsa87 }
  else
    .error "unsupported native verifier mode (use: pq_mldsa87); SHA3 opening is the privacy path"

/-! ### Writing -/

/-- A truth value as a digit. -/
def flag (value : Bool) : Bytes := if value then ascii "1" else ascii "0"

/-- The fields of a note. -/
def noteFields (entry : Bytes × PrivateNote) : List Bytes :=
  [entry.1, entry.2.ownerTag, entry.2.amountSealed, entry.2.blinding, entry.2.commitment,
    entry.2.nullifier, flag entry.2.spent]

/-- The line of a note. -/
def noteLine (entry : Bytes × PrivateNote) : Bytes := tagLine 'N' (noteFields entry)

/-- The containers of a pool in the order in which they are enumerated. -/
structure Enumeration where
  notes : List (Bytes × PrivateNote)
  usedNullifiers : List Bytes
  spentCommitments : List Bytes

/-- An enumeration has what the pool has. -/
structure Enumerates (order : Enumeration) (pool : PrivacyPool) : Prop where
  notes : Lists order.notes pool.notes
  usedNullifiers : ListsSet order.usedNullifiers pool.usedNullifiers
  spentCommitments : ListsSet order.spentCommitments pool.spentCommitments

/-- The lines of a state file. -/
def stateLines (pool : PrivacyPool) (order : Enumeration) : List Bytes :=
  [tagLine 'M' [flag pool.strictZkMode],
    tagLine 'Z' [nativeVerifierModeText pool.nativeVerifierMode]] ++
  (order.notes.map noteLine ++ (order.usedNullifiers.map (fun nf => tagLine 'U' [nf]) ++
    order.spentCommitments.map (fun cm => tagLine 'S' [cm])))

/-- `dump_state`, in some order of the containers. -/
def dumpState (pool : PrivacyPool) (order : Enumeration) : Bytes :=
  (stateLines pool order).flatMap line

/-! ### Reading -/

variable (P : Primitives)

/-- The number of an old line. -/
def legacyAmount (text : Bytes) : Except String UInt64 :=
  match stoull text with
  | none => .error "invalid legacy note amount"
  | some amount => .ok amount

/-- The branch for an old line: the tag and the sealed amount are derived again. -/
def migrateNote (noteId : Bytes) (note : PrivateNote) : Except String PrivateNote := do
  let migratedOwnerTag ← ownerTag P note.ownerTag noteId
  let migratedAmount ← legacyAmount note.amountSealed
  let sealedAmount ← sealAmount P migratedAmount noteId note.blinding
  pure { note with ownerTag := migratedOwnerTag, amountSealed := sealedAmount }

/-- A line has the form of a sealed note. -/
def looksSealed (note : PrivateNote) : Bool :=
  decide (note.ownerTag.length = 128) && isHexEven note.ownerTag && isHexEven note.amountSealed

/-- A note's line, with the texts as they were read. -/
def loadNote (pool : PrivacyPool) (noteId : Bytes) (note : PrivateNote) :
    Except String PrivacyPool := do
  ensure (!noteId.isEmpty) "invalid note line"
  if looksSealed note then
    let kept := pool.putNote noteId { note with amountSealed := lowerCopy note.amountSealed }
    pure { kept with
      spentCommitments :=
        if note.spent && !note.commitment.isEmpty then insert note.commitment kept.spentCommitments
        else kept.spentCommitments }
  else
    let migrated ← migrateNote P noteId note
    pure (pool.putNote noteId migrated)

/-- What a line does, by its tag. A line without a tag does nothing. -/
def loadTagged (pool : PrivacyPool) (tag : UInt8) (content : Bytes) : Except String PrivacyPool :=
  if tag = byte 'Z' then
    match setNativeVerifierMode pool (getline newline (some content) []).1 with
    | .error _ => .error "invalid native verifier mode in state"
    | .ok left => .ok left
  else if tag = byte 'M' then
    let value := (getline newline (some content) []).1
    .ok { pool with strictZkMode := decide (value = ascii "1" ∨ value = ascii "true") }
  else if tag = byte 'N' then
    match readFields 6 (some content) with
    | [noteId, ownerOrTag, amountOrSealed, blinding, commitment, nullifier, spent] =>
      loadNote P pool noteId
        ⟨ownerOrTag, amountOrSealed, blinding, commitment, nullifier, decide (spent = ascii "1")⟩
    | _ => .ok pool -- never: there are as many fields as were asked for
  else if tag = byte 'U' then
    let nullifier := (getline newline (some content) []).1
    .ok (if nullifier.isEmpty then pool
      else { pool with usedNullifiers := insert nullifier pool.usedNullifiers })
  else if tag = byte 'S' then
    let commitment := (getline newline (some content) []).1
    .ok (if commitment.isEmpty then pool
      else { pool with spentCommitments := insert commitment pool.spentCommitments })
  else .ok pool

/-- One line of the file. -/
def loadLine (pool : PrivacyPool) (text : Bytes) : Except String PrivacyPool :=
  match text with
  | tag :: separator :: content => if separator = bar then loadTagged P pool tag content else .ok pool
  | _ => .ok pool

/-- `load_state`. On the main network the strict mode is set in the end. -/
def loadState (mainnet : Bool) (state : Bytes) : Except String PrivacyPool := do
  let loaded ← readLines (loadLine P) .initial (splitLines state)
  pure (if mainnet then { loaded with strictZkMode := true } else loaded)

/-! ### One line -/

theorem loadLine_tagLine (pool : PrivacyPool) (tag : Char) (texts : List Bytes) :
    loadLine P pool (tagLine tag texts) = loadTagged P pool (byte tag) (fields texts) := by
  simp [loadLine, tagLine]

theorem lowerHex_plain (text : Bytes) (lower : ∀ digit ∈ text, isLowerHex digit = true) :
    PlainField text where
  bar := fun member => absurd (lower bar member) (by decide)
  newline := fun member => absurd (lower newline member) (by decide)

theorem strongHash_plain (text : Bytes) : PlainField (strongHash P text) :=
  lowerHex_plain _ (strongHash_lower P text)

theorem flag_plain (value : Bool) : PlainField (flag value) := by
  cases value
  · exact ⟨by decide, by decide⟩
  · exact ⟨by decide, by decide⟩

theorem lowerCopy_lower (text : Bytes) (lower : ∀ digit ∈ text, isLowerHex digit = true) :
    lowerCopy text = text := by
  unfold lowerCopy
  refine (List.map_congr_left ?_).trans (List.map_id text)
  intro digit member
  have small := lower digit member
  simp only [isLowerHex, isDigit, Bool.or_eq_true, decide_eq_true_eq] at small
  rw [if_neg, id_eq]
  rintro ⟨low, high⟩
  have low' := UInt8.le_iff_toNat_le.mp low
  have high' := UInt8.le_iff_toNat_le.mp high
  simp only [UInt8.reduceToNat] at low' high'
  omega

variable {P}

variable {note : PrivateNote} {noteId : Bytes}

theorem Shaped.sealed_lower (shaped : Shaped P noteId note) :
    ∀ digit ∈ note.amountSealed, isLowerHex digit = true := by
  obtain ⟨value, same⟩ := shaped.amountSealed
  rw [same]
  exact hexNumber_lower value.toNat

/-- The fields of a note come back from its line. -/
theorem Shaped.readFields (shaped : Shaped P noteId note) :
    Store.readFields 6 (some (fields (noteFields (noteId, note)))) = noteFields (noteId, note) := by
  obtain ⟨idText, sameId⟩ := shaped.noteId
  obtain ⟨tagText, sameTag⟩ := shaped.ownerTag
  obtain ⟨commitmentText, sameCommitment⟩ := shaped.commitment
  obtain ⟨nullifierText, sameNullifier⟩ := shaped.nullifier
  refine readFields_fields [noteId, note.ownerTag, note.amountSealed, note.blinding,
    note.commitment, note.nullifier] (flag note.spent) ?_ (flag_plain _).newline
  simp only [List.forall_mem_cons, List.not_mem_nil, false_implies, implies_true, and_true]
  rw [sameId, sameTag, shaped.blinding, sameCommitment, sameNullifier]
  exact ⟨(strongHash_plain P _).bar, (strongHash_plain P _).bar,
    (lowerHex_plain _ shaped.sealed_lower).bar, by decide, (strongHash_plain P _).bar,
    (strongHash_plain P _).bar⟩

theorem isHexEven_lower (text : Bytes) (nonempty : text ≠ [])
    (lower : ∀ digit ∈ text, isLowerHex digit = true) :
    isHexEven text = decide (text.length % 2 = 0) := by
  have hex : ∀ digit ∈ text, isHex digit = true :=
    fun digit member => isHex_of_isLowerHex digit (lower digit member)
  simp [isHexEven, nonempty, List.all_eq_true.mpr hex]

/-- The parity of its sealed amount decides how a note's line is read. -/
theorem Shaped.looksSealed (shaped : Shaped P noteId note) :
    looksSealed note = decide (note.amountSealed.length % 2 = 0) := by
  obtain ⟨tagText, sameTag⟩ := shaped.ownerTag
  obtain ⟨value, sameSealed⟩ := shaped.amountSealed
  have width : note.ownerTag.length = 128 := by rw [sameTag, strongHash_length]
  have tag : isHexEven note.ownerTag = true := by
    rw [isHexEven_lower _ (by intro none; simp [none] at width)]
    · simp [width]
    · rw [sameTag]
      exact strongHash_lower P tagText
  have nonempty : note.amountSealed ≠ [] := by
    rw [sameSealed]
    exact hexNumber_ne_nil _
  rw [Privacy.looksSealed, width, tag, isHexEven_lower _ nonempty shaped.sealed_lower]
  simp

variable (P)

/-- What becomes of a note when its line is read. -/
def restoreNote (noteId : Bytes) (note : PrivateNote) : Except String PrivateNote :=
  if note.amountSealed.length % 2 = 0 then .ok note else migrateNote P noteId note

/-- The pool behind a note's line, whatever became of the note. -/
def PrivacyPool.restored (pool : PrivacyPool) (entry : Bytes × PrivateNote) (note : PrivateNote) :
    PrivacyPool :=
  { pool.putNote entry.1 note with
    spentCommitments :=
      if decide (entry.2.amountSealed.length % 2 = 0) && entry.2.spent then
        insert entry.2.commitment pool.spentCommitments
      else pool.spentCommitments }

variable {P}

theorem Shaped.loadLine (shaped : Shaped P noteId note) (pool : PrivacyPool) :
    loadLine P pool (noteLine (noteId, note)) =
      (restoreNote P noteId note >>= fun left => .ok (pool.restored (noteId, note) left)) := by
  obtain ⟨idText, sameId⟩ := shaped.noteId
  obtain ⟨commitmentText, sameCommitment⟩ := shaped.commitment
  have named : noteId ≠ [] := by
    intro none
    have width := strongHash_length P idText
    simp [← sameId, none] at width
  have committed : note.commitment ≠ [] := by
    intro none
    have width := strongHash_length P commitmentText
    simp [← sameCommitment, none] at width
  have spent : decide (flag note.spent = ascii "1") = note.spent := by
    cases note.spent
    · rfl
    · rfl
  have fields := shaped.readFields
  have judged := shaped.looksSealed
  rw [noteLine, loadLine_tagLine]
  have read : loadTagged P pool (byte 'N') (Store.fields (noteFields (noteId, note))) =
      loadNote P pool noteId note := by
    unfold loadTagged
    rw [if_neg (by decide), if_neg (by decide), if_pos rfl, fields]
    simp only [noteFields, spent]
  rw [read, loadNote, judged, restoreNote]
  by_cases even : note.amountSealed.length % 2 = 0
  · simp [even, named, committed, ensure, lowerCopy_lower _ shaped.sealed_lower,
      PrivacyPool.restored, PrivacyPool.putNote, pure, Except.pure, bind, Except.bind]
  · simp [even, named, ensure, PrivacyPool.restored, PrivacyPool.putNote, pure, Except.pure, bind,
      Except.bind]

/-! ### The note lines -/

/-- The lines of notes whose sealed texts are kept put the notes as they are. -/
theorem readLines_kept (pool : PrivacyPool) (order : List (Bytes × PrivateNote))
    (shaped : ∀ entry ∈ order, Shaped P entry.1 entry.2)
    (kept : ∀ entry ∈ order, restoreNote P entry.1 entry.2 = .ok entry.2) :
    readLines (loadLine P) pool (order.map noteLine) =
      .ok (order.foldl (fun pool entry => pool.restored entry entry.2) pool) := by
  refine readLines_items (loadLine P) noteLine _ order pool ?_
  intro pool entry member
  have restored := kept entry member
  rw [(shaped entry member).loadLine, restored]
  rfl

/-- When the lines of notes are read, each note became something, and it is in the pool. -/
theorem readLines_restored (pool between : PrivacyPool) (order : List (Bytes × PrivateNote))
    (shaped : ∀ entry ∈ order, Shaped P entry.1 entry.2) (distinct : (order.map Prod.fst).Nodup)
    (read : readLines (loadLine P) pool (order.map noteLine) = .ok between) :
    (∀ noteId, noteId ∉ order.map Prod.fst →
      between.notes.lookup noteId = pool.notes.lookup noteId) ∧
    ∀ entry ∈ order, ∃ note, restoreNote P entry.1 entry.2 = .ok note ∧
      between.notes.lookup entry.1 = some note := by
  induction order generalizing pool with
  | nil =>
    rw [List.map_nil, readLines_nil] at read
    obtain rfl := Except.ok.inj read
    exact ⟨fun _ _ => rfl, by simp⟩
  | cons entry rest ih =>
    obtain ⟨absent, distinct⟩ := List.nodup_cons.mp distinct
    rw [List.map_cons, readLines_cons, (shaped entry (by simp)).loadLine] at read
    simp only [bind_ok, Except.ok.injEq] at read
    obtain ⟨_, ⟨note, restored, rfl⟩, read⟩ := read
    obtain ⟨others, later⟩ := ih _
      (fun other member => shaped other (by simp [member])) distinct read
    have put : ∀ noteId, (pool.restored entry note).notes.lookup noteId =
        if noteId = entry.1 then some note else pool.notes.lookup noteId :=
      fun noteId => lookup_putNote pool entry.1 noteId note
    constructor
    · intro noteId outside
      rw [List.map_cons, List.mem_cons, not_or] at outside
      rw [others noteId outside.2, put, if_neg outside.1]
    · intro other member
      rcases List.mem_cons.mp member with rfl | inside
      · exact ⟨note, restored, by rw [others _ absent, put, if_pos rfl]⟩
      · exact later other inside

theorem foldl_restored (order : List (Bytes × PrivateNote)) (pool : PrivacyPool) :
    (order.foldl (fun pool entry => pool.restored entry entry.2) pool).notes =
        putAll pool.notes order ∧
      (order.foldl (fun pool entry => pool.restored entry entry.2) pool).usedNullifiers =
        pool.usedNullifiers ∧
      ∀ text ∈ (order.foldl (fun pool entry => pool.restored entry entry.2) pool).spentCommitments,
        text ∈ pool.spentCommitments ∨
          ∃ entry ∈ order, entry.2.spent = true ∧ entry.2.commitment = text := by
  induction order generalizing pool with
  | nil => exact ⟨rfl, rfl, fun text member => .inl member⟩
  | cons entry rest ih =>
    obtain ⟨notes, used, commitments⟩ := ih (pool.restored entry entry.2)
    rw [List.foldl_cons]
    refine ⟨notes, used, ?_⟩
    intro text member
    rcases commitments text member with earlier | ⟨other, inside, spent, same⟩
    · simp only [PrivacyPool.restored] at earlier
      split at earlier
      · rename_i marked
        rw [Bool.and_eq_true] at marked
        rcases Finset.mem_insert.mp earlier with rfl | earlier
        · exact .inr ⟨entry, by simp, marked.2, rfl⟩
        · exact .inl earlier
      · exact .inl earlier
    · exact .inr ⟨other, by simp [inside], spent, same⟩

/-! ### The whole file -/

/-- A listed text that is a digest. -/
def Digests (P : Primitives) (texts : List Bytes) : Prop :=
  ∀ text ∈ texts, ∃ front, text = strongHash P front

theorem strongHash_ne_nil (P : Primitives) (text : Bytes) : strongHash P text ≠ [] := by
  intro none
  have width := strongHash_length P text
  simp [none] at width

/-- The lines behind the notes fill the two sets. -/
theorem readLines_sets (pool : PrivacyPool) (used spent : List Bytes) (usedDigests : Digests P used)
    (spentDigests : Digests P spent) :
    readLines (loadLine P) pool (used.map (fun nf => tagLine 'U' [nf]) ++
        spent.map (fun cm => tagLine 'S' [cm])) =
      .ok { pool with
        usedNullifiers := pool.usedNullifiers ∪ used.toFinset
        spentCommitments := pool.spentCommitments ∪ spent.toFinset } := by
  have field : ∀ text, (∃ front, text = strongHash P front) →
      (getline newline (some (fields [text])) []).1 = text ∧ text.isEmpty = false := by
    rintro text ⟨front, rfl⟩
    rw [fields_one, getline_last newline _ _ (strongHash_plain P front).newline]
    exact ⟨rfl, by simpa using strongHash_ne_nil P front⟩
  have usedLines : readLines (loadLine P) pool (used.map (fun nf => tagLine 'U' [nf])) =
      .ok (used.foldl (fun pool nf =>
        { pool with usedNullifiers := insert nf pool.usedNullifiers }) pool) := by
    refine readLines_items (loadLine P) _ _ used pool ?_
    intro pool nf member
    obtain ⟨read, some⟩ := field nf (usedDigests nf member)
    rw [loadLine_tagLine]
    unfold loadTagged
    rw [if_neg (by decide), if_neg (by decide), if_neg (by decide), if_pos rfl, read]
    simp [some]
  have spentLines : ∀ pool : PrivacyPool,
      readLines (loadLine P) pool (spent.map (fun cm => tagLine 'S' [cm])) =
        .ok (spent.foldl (fun pool cm =>
          { pool with spentCommitments := insert cm pool.spentCommitments }) pool) := by
    intro pool
    refine readLines_items (loadLine P) _ _ spent pool ?_
    intro pool cm member
    obtain ⟨read, some⟩ := field cm (spentDigests cm member)
    rw [loadLine_tagLine]
    unfold loadTagged
    rw [if_neg (by decide), if_neg (by decide), if_neg (by decide), if_neg (by decide), if_pos rfl,
      read]
    simp [some]
  have usedFold : ∀ (texts : List Bytes) (pool : PrivacyPool), texts.foldl (fun pool nf =>
      { pool with usedNullifiers := insert nf pool.usedNullifiers }) pool =
        { pool with usedNullifiers := pool.usedNullifiers ∪ texts.toFinset } := by
    intro texts
    induction texts with
    | nil => simp
    | cons text rest ih =>
      intro pool
      rw [List.foldl_cons, ih]
      simp [Finset.insert_union, Finset.union_insert]
  have spentFold : ∀ (texts : List Bytes) (pool : PrivacyPool), texts.foldl (fun pool cm =>
      { pool with spentCommitments := insert cm pool.spentCommitments }) pool =
        { pool with spentCommitments := pool.spentCommitments ∪ texts.toFinset } := by
    intro texts
    induction texts with
    | nil => simp
    | cons text rest ih =>
      intro pool
      rw [List.foldl_cons, ih]
      simp [Finset.insert_union, Finset.union_insert]
  rw [readLines_append, usedLines, usedFold]
  exact (spentLines _).trans (by rw [spentFold])

/-- The texts of an enumerated pool are those of its notes and of its sets. -/
structure Printed (P : Primitives) (order : Enumeration) : Prop where
  notes : ∀ entry ∈ order.notes, Shaped P entry.1 entry.2
  usedNullifiers : Digests P order.usedNullifiers
  spentCommitments : Digests P order.spentCommitments

/-- No line of the file has an end inside. -/
theorem stateLines_whole (pool : PrivacyPool) (order : Enumeration) (printed : Printed P order) :
    ∀ text ∈ stateLines pool order, newline ∉ text := by
  intro text member
  have head : text ∈ [tagLine 'M' [flag pool.strictZkMode],
      tagLine 'Z' [nativeVerifierModeText pool.nativeVerifierMode]] → newline ∉ text := by
    intro listed
    simp only [List.mem_cons, List.not_mem_nil, or_false] at listed
    rcases listed with rfl | rfl
    · exact tagLine_whole 'M' _ (by decide) (by simpa using (flag_plain _).newline)
    · refine tagLine_whole 'Z' _ (by decide) ?_
      intro mode listed
      rw [List.mem_singleton.mp listed]
      cases pool.nativeVerifierMode
      decide
  rcases List.mem_append.mp member with listed | member
  · exact head listed
  · rcases List.mem_append.mp member with listed | member
    · obtain ⟨entry, inside, rfl⟩ := List.mem_map.mp listed
      have shaped := printed.notes entry inside
      obtain ⟨idText, sameId⟩ := shaped.noteId
      obtain ⟨tagText, sameTag⟩ := shaped.ownerTag
      obtain ⟨commitmentText, sameCommitment⟩ := shaped.commitment
      obtain ⟨nullifierText, sameNullifier⟩ := shaped.nullifier
      refine tagLine_whole 'N' _ (by decide) ?_
      simp only [noteFields, List.forall_mem_cons, List.not_mem_nil, false_implies, implies_true,
        and_true]
      rw [sameId, sameTag, shaped.blinding, sameCommitment, sameNullifier]
      exact ⟨(strongHash_plain P _).newline, (strongHash_plain P _).newline,
        (lowerHex_plain _ shaped.sealed_lower).newline, by decide, (strongHash_plain P _).newline,
        (strongHash_plain P _).newline, (flag_plain _).newline⟩
    · rcases List.mem_append.mp member with listed | listed
      · obtain ⟨nf, inside, rfl⟩ := List.mem_map.mp listed
        obtain ⟨front, rfl⟩ := printed.usedNullifiers nf inside
        exact tagLine_whole 'U' _ (by decide) (by simpa using (strongHash_plain P front).newline)
      · obtain ⟨cm, inside, rfl⟩ := List.mem_map.mp listed
        obtain ⟨front, rfl⟩ := printed.spentCommitments cm inside
        exact tagLine_whole 'S' _ (by decide) (by simpa using (strongHash_plain P front).newline)

/-- The pool before the notes are read. -/
def loadStart (pool : PrivacyPool) : PrivacyPool :=
  { PrivacyPool.initial with strictZkMode := pool.strictZkMode }

/-- What the lines behind the notes and the main network make of a pool. -/
def loadFinish (mainnet : Bool) (order : Enumeration) (between : PrivacyPool) : PrivacyPool :=
  { between with
    strictZkMode := mainnet || between.strictZkMode
    usedNullifiers := between.usedNullifiers ∪ order.usedNullifiers.toFinset
    spentCommitments := between.spentCommitments ∪ order.spentCommitments.toFinset }

theorem readLines_head (pool : PrivacyPool) :
    readLines (loadLine P) .initial [tagLine 'M' [flag pool.strictZkMode],
      tagLine 'Z' [nativeVerifierModeText pool.nativeVerifierMode]] = .ok (loadStart pool) := by
  have mode : loadTagged P .initial (byte 'M') (fields [flag pool.strictZkMode]) =
      .ok (loadStart pool) := by
    unfold loadTagged
    rw [if_neg (by decide), if_pos rfl, fields_one, getline_last newline _ _ (flag_plain _).newline]
    cases strict : pool.strictZkMode
    · simp only [loadStart, strict]
      rfl
    · simp only [loadStart, strict]
      rfl
  have verifier : loadTagged P (loadStart pool) (byte 'Z')
      (fields [nativeVerifierModeText pool.nativeVerifierMode]) = .ok (loadStart pool) := by
    unfold loadTagged
    rw [if_pos rfl, fields_one]
    cases pool.nativeVerifierMode
    rw [getline_last newline _ _ (by decide)]
    rfl
  rw [readLines_cons, loadLine_tagLine, mode]
  change readLines (loadLine P) (loadStart pool) _ = _
  rw [readLines_cons, loadLine_tagLine, verifier]
  rfl

/-- Reading a state file is reading its note lines. -/
theorem loadState_dumpState (pool : PrivacyPool) (order : Enumeration) (printed : Printed P order)
    (mainnet : Bool) :
    loadState P mainnet (dumpState pool order) =
      (readLines (loadLine P) (loadStart pool) (order.notes.map noteLine) >>=
        fun between => .ok (loadFinish mainnet order between)) := by
  have lines : splitLines (dumpState pool order) = stateLines pool order :=
    splitLines_lines _ (stateLines_whole pool order printed)
  have sets := fun between => readLines_sets (P := P) between order.usedNullifiers
    order.spentCommitments printed.usedNullifiers printed.spentCommitments
  unfold loadState
  rw [lines, stateLines, readLines_append, readLines_head]
  change (readLines (loadLine P) (loadStart pool) _ >>= _) = _
  rw [readLines_append]
  cases readLines (loadLine P) (loadStart pool) (order.notes.map noteLine) with
  | error message => rfl
  | ok between =>
    change (readLines (loadLine P) between _ >>= _) = _
    rw [sets between]
    cases mainnet
    · rfl
    · rfl

/-! ### The round trip -/

/-- The loaded pool has the notes and the sets of the pool. -/
structure Restores (pool loaded : PrivacyPool) : Prop where
  notes : ∀ noteId, loaded.notes.lookup noteId = pool.notes.lookup noteId
  usedNullifiers : loaded.usedNullifiers = pool.usedNullifiers
  spentCommitments : loaded.spentCommitments = pool.spentCommitments

/-- Pools with the same notes and nullifiers allow the same spends for the same amounts. -/
theorem Restores.spendable {pool loaded : PrivacyPool} (restores : Restores pool loaded)
    (owner noteId recipient : Bytes) (amount : UInt64) (trapdoor : Bytes) :
    spendable P loaded owner noteId recipient amount trapdoor =
      spendable P pool owner noteId recipient amount trapdoor := by
  simp only [Privacy.spendable, findNote, restores.notes, restores.usedNullifiers]

theorem Kept.printed {history : History} (kept : Kept P history) (order : Enumeration)
    (enumerates : Enumerates order history.pool) : Printed P order where
  notes := fun entry member => kept.shaped _ _ ((enumerates.notes.entries _ _).mp member)
  usedNullifiers := by
    intro text member
    obtain ⟨noteId, note, found, _, rfl⟩ :=
      (kept.nullifiers text).mp ((enumerates.usedNullifiers.members text).mp member)
    exact (kept.shaped noteId note found).nullifier
  spentCommitments := by
    intro text member
    obtain ⟨noteId, note, found, _, rfl⟩ :=
      (kept.commitments text).mp ((enumerates.spentCommitments.members text).mp member)
    exact (kept.shaped noteId note found).commitment

/-- A note whose line is read as it was written: its sealed amount has an even number of
digits, or, taken for an old line, it has its own tag as the tag of that tag and its own
sealed amount as the sealed decimal reading of that amount. -/
def Readable (P : Primitives) (noteId : Bytes) (note : PrivateNote) : Prop :=
  note.amountSealed.length % 2 = 0 ∨
    ∃ amount, stoull note.amountSealed = some amount ∧
      ownerTag P note.ownerTag noteId = .ok note.ownerTag ∧
      sealAmount P amount noteId note.blinding = .ok note.amountSealed

theorem legacyAmount_ok (text : Bytes) (amount : UInt64) :
    legacyAmount text = .ok amount ↔ stoull text = some amount := by
  unfold legacyAmount
  split
  · rename_i none
    simp [none]
  · rename_i value some
    simp [some]

theorem migrateNote_kept (noteId : Bytes) (note : PrivateNote) :
    migrateNote P noteId note = .ok note ↔
      ∃ amount, stoull note.amountSealed = some amount ∧
        ownerTag P note.ownerTag noteId = .ok note.ownerTag ∧
        sealAmount P amount noteId note.blinding = .ok note.amountSealed := by
  simp only [migrateNote, bind_ok, pure_ok, legacyAmount_ok]
  constructor
  · rintro ⟨tag, tagged, amount, read, text, masked, same⟩
    obtain ⟨sameTag, sameText⟩ : tag = note.ownerTag ∧ text = note.amountSealed := by
      rw [← same]
      exact ⟨rfl, rfl⟩
    exact ⟨amount, read, sameTag ▸ tagged, sameText ▸ masked⟩
  · rintro ⟨amount, read, tagged, masked⟩
    exact ⟨_, tagged, amount, read, _, masked, rfl⟩

theorem restoreNote_kept (noteId : Bytes) (note : PrivateNote) :
    restoreNote P noteId note = .ok note ↔ Readable P noteId note := by
  unfold restoreNote Readable
  split
  · rename_i even
    simp [even]
  · rename_i odd
    simp only [odd, false_or]
    exact migrateNote_kept noteId note

/-- Reading the state file of a pool reached by calls succeeds and gives the notes and the
sets back, so that the same spends are possible, exactly when every note is readable. -/
theorem state_restored_iff (P : Primitives) (calls : List Call) (mainnet : Bool)
    (order : Enumeration) (enumerates : Enumerates order (run P calls).pool) :
    (∃ loaded, loadState P mainnet (dumpState (run P calls).pool order) = .ok loaded ∧
      Restores (run P calls).pool loaded ∧
      ∀ owner noteId recipient amount trapdoor,
        spendable P loaded owner noteId recipient amount trapdoor =
          spendable P (run P calls).pool owner noteId recipient amount trapdoor) ↔
    ∀ noteId note, (run P calls).pool.notes.lookup noteId = some note →
      Readable P noteId note := by
  have kept := run_kept (P := P) calls
  have printed := kept.printed order enumerates
  rw [loadState_dumpState _ order printed mainnet]
  constructor
  · rintro ⟨loaded, read, restores, _⟩ noteId note found
    simp only [bind_ok, Except.ok.injEq] at read
    obtain ⟨between, notesRead, rfl⟩ := read
    have member := (enumerates.notes.entries noteId note).mpr found
    obtain ⟨_, each⟩ := readLines_restored _ between order.notes printed.notes
      enumerates.notes.distinct notesRead
    obtain ⟨left, restored, listed⟩ := each (noteId, note) member
    have same : some left = some note := by
      rw [← listed, ← found]
      exact restores.notes noteId
    rw [Option.some.inj same] at restored
    exact (restoreNote_kept noteId note).mp restored
  · intro readable
    have keeps : ∀ entry ∈ order.notes, restoreNote P entry.1 entry.2 = .ok entry.2 :=
      fun entry member => (restoreNote_kept _ _).mpr
        (readable _ _ ((enumerates.notes.entries _ _).mp member))
    rw [readLines_kept _ order.notes printed.notes keeps]
    obtain ⟨notes, used, commitments⟩ := foldl_restored order.notes (loadStart (run P calls).pool)
    generalize order.notes.foldl (fun pool entry => pool.restored entry entry.2)
      (loadStart (run P calls).pool) = between at notes used commitments
    have restores : Restores (run P calls).pool (loadFinish mainnet order between) := {
      notes := by
        intro noteId
        rw [← enumerates.notes.lookup noteId]
        exact congrArg (AList.lookup noteId) notes
      usedNullifiers := by
        simp only [loadFinish, used, loadStart, PrivacyPool.initial, Finset.empty_union]
        exact enumerates.usedNullifiers.toFinset
      spentCommitments := by
        simp only [loadFinish, enumerates.spentCommitments.toFinset]
        apply Finset.union_eq_right.mpr
        intro text member
        rcases commitments text member with earlier | ⟨entry, inside, spent, same⟩
        · simp [loadStart, PrivacyPool.initial] at earlier
        · have found := (enumerates.notes.entries _ _).mp inside
          exact (kept.commitments text).mpr ⟨entry.1, entry.2, found, spent, same⟩ }
    exact ⟨_, rfl, restores, fun owner noteId recipient amount trapdoor =>
      restores.spendable owner noteId recipient amount trapdoor⟩

/-! ### Two minted notes -/

/-- A pool without spent notes in its own order. -/
def PrivacyPool.unspentOrder (pool : PrivacyPool) : Enumeration :=
  ⟨pool.notes.entries.map (fun entry => (entry.1, entry.2)), [], []⟩

theorem unspentOrder_enumerates (pool : PrivacyPool) (unused : pool.usedNullifiers = ∅)
    (unspent : pool.spentCommitments = ∅) : Enumerates pool.unspentOrder pool where
  notes := lists_entries pool.notes
  usedNullifiers := ⟨List.nodup_nil, by simp [PrivacyPool.unspentOrder, unused]⟩
  spentCommitments := ⟨List.nodup_nil, by simp [PrivacyPool.unspentOrder, unspent]⟩

/-- A trapdoor of thirty-two octets. -/
def sampleTrapdoor : Bytes := List.replicate 32 (byte '0')

/-- A pool with one note of an owner. -/
def sampleMint (amount : UInt64) : List Call :=
  let opening := computeOpeningRelation samplePrimitives amount sampleTrapdoor
  [.mint (ascii "alice") amount opening.1 opening.2 sampleTrapdoor]

/-- The pool after the mint. -/
def samplePool (amount : UInt64) : PrivacyPool := (run samplePrimitives (sampleMint amount)).pool

/-- The identifier of that note. -/
def sampleNoteId (amount : UInt64) : Bytes :=
  mkNoteId samplePrimitives (ascii "alice") amount
    (computeOpeningRelation samplePrimitives amount sampleTrapdoor).1

/-- A spend of that note before and after a restart. -/
def sampleSpendable (pool : PrivacyPool) (amount : UInt64) : Bool :=
  (spendable samplePrimitives pool (ascii "alice") (sampleNoteId amount) (ascii "bob") 1
    sampleTrapdoor).isOk

theorem readable_even (pool : PrivacyPool)
    (even : pool.listed.all (fun note => decide (note.amountSealed.length % 2 = 0)) = true) :
    ∀ noteId note, pool.notes.lookup noteId = some note → Readable P noteId note := by
  intro noteId note found
  have checked := List.all_eq_true.mp even note (mem_listed pool noteId note found)
  exact .inl (of_decide_eq_true checked)

/-- What the random source gives. -/
def sampleDrawn (octet : UInt8) : Except String H32 := .ok ⟨List.replicate 32 octet, List.length_replicate⟩

/-- An owner pays a part of a note, and the change comes back. -/
def samplePayment : List Call :=
  sampleMint 5 ++ [.spend (ascii "alice") (sampleNoteId 5) (ascii "bob") 2 sampleTrapdoor (sampleDrawn 1)
    (sampleDrawn 2)]

/-- The pool after the payment. -/
def paidPool : PrivacyPool := (run samplePrimitives samplePayment).pool

/-- A pool with one spent note in its own order. -/
def PrivacyPool.spentOrder (pool : PrivacyPool) (opening : Bytes × Bytes) : Enumeration :=
  ⟨pool.notes.entries.map (fun entry => (entry.1, entry.2)), [opening.2], [opening.1]⟩

theorem spentOrder_enumerates (pool : PrivacyPool) (opening : Bytes × Bytes)
    (used : pool.usedNullifiers = {opening.2}) (spent : pool.spentCommitments = {opening.1}) :
    Enumerates (pool.spentOrder opening) pool where
  notes := lists_entries pool.notes
  usedNullifiers := ⟨List.nodup_singleton _, by simp [PrivacyPool.spentOrder, used]⟩
  spentCommitments := ⟨List.nodup_singleton _, by simp [PrivacyPool.spentOrder, spent]⟩

/-- The commitment and the nullifier of the note that is spent. -/
def paidOpening : Bytes × Bytes := computeOpeningRelation samplePrimitives 5 sampleTrapdoor

set_option maxRecDepth 100000 in
theorem paidPool_evaluated :
    paidPool.listed.map PrivateNote.spent = [true, false, false] ∧
      paidPool.usedNullifiers = {paidOpening.2} ∧ paidPool.spentCommitments = {paidOpening.1} ∧
      paidPool.listed.all (fun note => decide (note.amountSealed.length % 2 = 0)) = true := by
  decide +kernel

/-- Sealed amounts of sixteen digits survive a restart: a spent note with its nullifier and its commitment,
and the two notes that were made of it. -/
theorem even_amount_restored :
    paidPool.listed.map PrivateNote.spent = [true, false, false] ∧
    ∃ loaded, loadState samplePrimitives false (dumpState paidPool (paidPool.spentOrder paidOpening)) =
        .ok loaded ∧
      Restores paidPool loaded ∧
      ∀ owner noteId recipient amount trapdoor,
        spendable samplePrimitives loaded owner noteId recipient amount trapdoor =
          spendable samplePrimitives paidPool owner noteId recipient amount trapdoor := by
  obtain ⟨spent, used, commitments, even⟩ := paidPool_evaluated
  have enumerates := spentOrder_enumerates paidPool paidOpening used commitments
  exact ⟨spent, (state_restored_iff samplePrimitives samplePayment false _ enumerates).mpr
    (readable_even _ even)⟩

/-- A pool as it is after a restart, for a check on it. -/
def afterRestart (pool : PrivacyPool) (check : PrivacyPool → Bool) : Bool :=
  match loadState samplePrimitives false (dumpState pool pool.unspentOrder) with
  | .error _ => false
  | .ok loaded => check loaded

set_option maxRecDepth 100000 in
theorem samplePool_seventeen :
    (samplePool 17).usedNullifiers = ∅ ∧ (samplePool 17).spentCommitments = ∅ ∧
      sampleSpendable (samplePool 17) 17 = true ∧
      afterRestart (samplePool 17) (fun loaded => !sampleSpendable loaded 17) = true := by
  decide +kernel

/-- A sealed amount of fifteen digits is taken for an old line: its note is spendable before
a restart and not after it. -/
theorem odd_amount_lost :
    Enumerates (samplePool 17).unspentOrder (samplePool 17) ∧
    sampleSpendable (samplePool 17) 17 = true ∧
    ∃ loaded, loadState samplePrimitives false
        (dumpState (samplePool 17) (samplePool 17).unspentOrder) = .ok loaded ∧
      sampleSpendable loaded 17 = false ∧ ¬ Restores (samplePool 17) loaded := by
  obtain ⟨unused, unspent, before, after⟩ := samplePool_seventeen
  refine ⟨unspentOrder_enumerates _ unused unspent, before, ?_⟩
  unfold afterRestart at after
  split at after
  · exact Bool.noConfusion after
  · rename_i loaded read
    have lost : sampleSpendable loaded 17 = false := by simpa using after
    refine ⟨loaded, read, lost, ?_⟩
    intro restores
    unfold sampleSpendable at before lost
    rw [restores.spendable, before] at lost
    exact Bool.noConfusion lost

end Privacy

end Addition
