import Addition.Privacy

/-!
# What every run of the note pool keeps

A minted note is new: its identifier, commitment and nullifier occur nowhere in the pool,
and its sealed amount opens to the amount it was minted with. Spending is a mint or two
followed by a mark, and a failure after a mint erases what was minted. One invariant over
the pool and the log of successful calls carries the statements about notes; the total of
the unspent amounts moves by the minted amount and by the amount of the marked note.
-/

namespace Addition

namespace Privacy

open ByteStrings Checked FiniteTables HexNumbers

variable (P : Primitives)

/-! ### Sealed amounts -/

theorem isHexEven_iff (text : Bytes) :
    isHexEven text = true ↔
      text ≠ [] ∧ text.length % 2 = 0 ∧ ∀ digit ∈ text, isHex digit = true := by
  simp [isHexEven, and_assoc]

/-- Unsealing gives back what was sealed: the rendering has at most sixteen digits, and the
mask is its own inverse. -/
theorem unsealAmount_sealed (amount : UInt64) (noteId blinding text : Bytes)
    (masked : sealAmount P amount noteId blinding = .ok text) :
    unsealAmount P text noteId blinding = .ok amount := by
  simp only [sealAmount, bind_ok, pure_ok] at masked
  obtain ⟨mask64, found, rfl⟩ := masked
  have bound := (amount ^^^ mask64).toNat_lt
  have nonempty := hexNumber_ne_nil (amount ^^^ mask64).toNat
  have short := hexNumber_length_le (amount ^^^ mask64).toNat 16 (by decide) (by omega)
  have hex : ∀ digit ∈ hexNumber (amount ^^^ mask64).toNat, isHex digit = true :=
    fun digit member => isHex_of_isLowerHex digit (hexNumber_lower _ digit member)
  have read := stoullHex_hexNumber (amount ^^^ mask64)
  have judged : isHexEven (if (hexNumber (amount ^^^ mask64).toNat).length % 2 = 0 then
      hexNumber (amount ^^^ mask64).toNat
      else ascii "0" ++ hexNumber (amount ^^^ mask64).toNat) = true := by
    rw [isHexEven_iff]
    split
    · rename_i even
      exact ⟨nonempty, even, hex⟩
    · rename_i odd
      have zero : ascii "0" = [byte '0'] := rfl
      rw [zero, List.singleton_append]
      refine ⟨by simp, by rw [List.length_cons]; omega, ?_⟩
      intro digit member
      rcases List.mem_cons.mp member with rfl | inside
      · rfl
      · exact hex digit inside
  simp only [unsealAmount, parseSealed, read, found, judged, bind_ok, ensure_ok, exists_unit,
    pure_ok, Bool.and_eq_true, decide_eq_true_eq, Bool.not_eq_true', List.isEmpty_eq_false_iff]
  refine ⟨⟨⟨nonempty, short⟩, trivial⟩, mask64, rfl, amount ^^^ mask64, rfl, ?_⟩
  rw [UInt64.xor_assoc, UInt64.xor_self, UInt64.xor_zero]

/-! ### New notes -/

/-- How the texts of a note come about: digests and a number in base sixteen. -/
structure Shaped (noteId : Bytes) (note : PrivateNote) : Prop where
  noteId : ∃ text, noteId = strongHash P text
  ownerTag : ∃ text, note.ownerTag = strongHash P text
  amountSealed : ∃ value : UInt64, note.amountSealed = hexNumber value.toNat
  blinding : note.blinding = ascii "open"
  commitment : ∃ text, note.commitment = strongHash P text
  nullifier : ∃ text, note.nullifier = strongHash P text

/-- A note that the pool does not have, and what its sealed amount opens to. -/
structure Fresh (pool : PrivacyPool) (noteId : Bytes) (note : PrivateNote) (amount : UInt64) :
    Prop where
  absent : pool.notes.lookup noteId = none
  unspent : note.spent = false
  unsealed : unsealAmount P note.amountSealed noteId note.blinding = .ok amount
  unused : note.nullifier ∉ pool.usedNullifiers
  unassigned : note.commitment ∉ pool.spentCommitments
  scanned : ∀ other existing, pool.notes.lookup other = some existing →
    existing.nullifier ≠ note.nullifier ∧ existing.commitment ≠ note.commitment
  shaped : Shaped P noteId note

/-- A note is new when no note has its commitment or its nullifier. -/
theorem scanNotes_ok (commitment nullifier : Bytes) (notes : List PrivateNote) :
    scanNotes commitment nullifier notes = .ok () ↔
      ∀ existing ∈ notes, existing.nullifier ≠ nullifier ∧ existing.commitment ≠ commitment := by
  induction notes with
  | nil => simp [scanNotes]
  | cons existing rest ih =>
    simp only [scanNotes, bind_ok, exists_unit, ensure_ok, decide_eq_true_eq,
      ih, List.forall_mem_cons, and_assoc]

theorem mem_listed (pool : PrivacyPool) (noteId : Bytes) (note : PrivateNote)
    (found : pool.notes.lookup noteId = some note) : note ∈ pool.listed := by
  have member : (⟨noteId, note⟩ : Σ _ : Bytes, PrivateNote) ∈ pool.notes.entries :=
    List.of_mem_dlookup found
  exact List.mem_map.mpr ⟨_, member, rfl⟩

/-- An accepted opening has the digests of its relation. -/
theorem verifyOpening_digests (amount : UInt64) (trapdoor commitment nullifier : Bytes)
    (verified : verifyOpening P amount trapdoor commitment nullifier = .ok ()) :
    (∃ text, commitment = strongHash P text) ∧ ∃ text, nullifier = strongHash P text := by
  simp only [verifyOpening, bind_ok, exists_unit, ensure_ok, decide_eq_true_eq,
    computeOpeningRelation, Prod.mk.injEq] at verified
  obtain ⟨_, _, sameCommitment, sameNullifier⟩ := verified
  exact ⟨⟨_, sameCommitment.symm⟩, ⟨_, sameNullifier.symm⟩⟩

/-- The note that `mint_open` makes is new. -/
theorem openNote_fresh (pool : PrivacyPool) (owner : Bytes) (amount : UInt64)
    (commitment nullifier trapdoor noteId : Bytes) (note : PrivateNote)
    (made : openNote P pool owner amount commitment nullifier trapdoor = .ok (noteId, note)) :
    Fresh P pool noteId note amount := by
  simp only [openNote, bind_ok, exists_unit, ensure_ok, pure_ok, decide_eq_true_eq,
    Bool.not_eq_true', Option.isSome_eq_false_iff, Option.isNone_iff_eq_none, Prod.mk.injEq] at made
  obtain ⟨_, verified, unused, unassigned, scanned, absent, text, masked, tag, tagged, rfl, rfl⟩ := made
  obtain ⟨commitments, nullifiers⟩ := verifyOpening_digests P amount _ _ _ verified
  have sealedText : ∃ value : UInt64, text = hexNumber value.toNat := by
    simp only [sealAmount, bind_ok, pure_ok] at masked
    obtain ⟨mask64, _, rfl⟩ := masked
    exact ⟨_, rfl⟩
  have tagText : ∃ front, tag = strongHash P front := by
    simp only [ownerTag, bind_ok, exists_unit, ensure_ok, pure_ok] at tagged
    exact ⟨_, tagged.2.symm⟩
  have clear := (scanNotes_ok commitment nullifier pool.listed).mp scanned
  exact {
    absent := absent
    unspent := rfl
    unsealed := unsealAmount_sealed P amount _ _ text masked
    unused := unused
    unassigned := unassigned
    scanned := fun other existing found => clear existing (mem_listed pool other existing found)
    shaped := ⟨⟨_, rfl⟩, tagText, sealedText, rfl, commitments, nullifiers⟩ }

/-- A successful `mint_open` puts one new note. -/
theorem mintOpen_ok (pool left : PrivacyPool) (owner : Bytes) (amount : UInt64)
    (commitment nullifier trapdoor noteId : Bytes)
    (minted : mintOpen P pool owner amount commitment nullifier trapdoor = (.ok noteId, left)) :
    ∃ note, Fresh P pool noteId note amount ∧ left = pool.putNote noteId note := by
  unfold mintOpen at minted
  split at minted
  · simp at minted
  · rename_i made note opened
    obtain ⟨rfl, rfl⟩ : made = noteId ∧ pool.putNote made note = left := by simpa using minted
    exact ⟨note, openNote_fresh P pool owner amount _ _ _ made note opened, rfl⟩

theorem mintOpen_error (pool left : PrivacyPool) (owner : Bytes) (amount : UInt64)
    (commitment nullifier trapdoor : Bytes) (message : String)
    (refused : mintOpen P pool owner amount commitment nullifier trapdoor = (.error message, left)) :
    left = pool := by
  unfold mintOpen at refused
  split at refused
  · exact (Prod.mk.inj refused).2.symm
  · simp at refused

/-- A mint adds one note. -/
theorem mintNew_ok (pool left : PrivacyPool) (owner : Bytes) (amount : UInt64)
    (drawn : Except String H32) (noteId : Bytes) (opening : OpeningNote)
    (minted : mintNew P pool owner amount drawn = (.ok (noteId, opening), left)) :
    ∃ note, Fresh P pool noteId note amount ∧ left = pool.putNote noteId note := by
  unfold mintNew at minted
  split at minted
  · simp at minted
  · split at minted
    · simp at minted
    · rename_i made after opened
      obtain ⟨⟨rfl, _⟩, rfl⟩ : (made = noteId ∧ _ = opening) ∧ after = left := by simpa using minted
      exact mintOpen_ok P pool after owner amount _ _ _ made opened

theorem mintNew_error (pool left : PrivacyPool) (owner : Bytes) (amount : UInt64)
    (drawn : Except String H32) (message : String)
    (refused : mintNew P pool owner amount drawn = (.error message, left)) : left = pool := by
  unfold mintNew at refused
  split at refused
  · exact (Prod.mk.inj refused).2.symm
  · split at refused
    · rename_i failed
      exact (Prod.mk.inj refused).2 ▸ mintOpen_error P _ _ _ _ _ _ _ _ failed
    · simp at refused

/-- Erasing a note that was put under a free identifier restores the pool. -/
theorem eraseNote_putNote (pool : PrivacyPool) (noteId : Bytes) (note : PrivateNote)
    (absent : pool.notes.lookup noteId = none) :
    (pool.putNote noteId note).eraseNote noteId = pool := by
  have outside : noteId ∉ pool.notes := AList.lookup_eq_none.mp absent
  have restored : (pool.notes.insert noteId note).erase noteId = pool.notes := by
    apply AList.ext
    have keyless : noteId ∉ pool.notes.entries.keys := outside
    simp [entries_erase, AList.entries_insert, List.kerase_of_notMem_keys keyless]
  simp only [PrivacyPool.eraseNote, PrivacyPool.putNote, restored]

/-! ### Spends -/

/-- The pool after the change of a spend. -/
def Changed (paid : PrivacyPool) (receipt : SpendReceipt) (changed : PrivacyPool) : Prop :=
  (receipt.change = 0 ∧ changed = paid) ∨
    receipt.change ≠ 0 ∧ ∃ note, Fresh P paid receipt.changeNoteId note receipt.change ∧
      changed = paid.putNote receipt.changeNoteId note

/-- A successful `spend_open`: an unspent note of at least the amount, a new note for the
recipient, the change, and the mark. -/
structure Spends (pool : PrivacyPool) (noteId : Bytes) (amount : UInt64) (receipt : SpendReceipt)
    (note paidNote : PrivateNote) (noteAmount : UInt64) (changed left : PrivacyPool) : Prop where
  found : pool.notes.lookup noteId = some note
  unspent : note.spent = false
  unsealed : unsealAmount P note.amountSealed noteId note.blinding = .ok noteAmount
  enough : amount ≤ noteAmount
  change : receipt.change = noteAmount - amount
  fresh : Fresh P pool receipt.newNoteId paidNote amount
  changing : Changed P (pool.putNote receipt.newNoteId paidNote) receipt changed
  marked : left = changed.markSpent noteId note

/-- The change of a payment is a mint, or nothing. -/
theorem mintChange_ok (paid changed : PrivacyPool) (owner : Bytes) (change : UInt64)
    (minted : Bytes) (drawn : Except String H32) (made : Bytes × OpeningNote)
    (done : mintChange P paid owner change minted drawn = (.ok made, changed)) :
    (change = 0 ∧ changed = paid) ∨
      change ≠ 0 ∧ ∃ note, Fresh P paid made.1 note change ∧ changed = paid.putNote made.1 note := by
  unfold mintChange at done
  split at done
  · rename_i none
    exact .inl ⟨none, (Prod.mk.inj done).2.symm⟩
  · rename_i some
    split at done
    · simp at done
    · rename_i opening left new
      obtain ⟨rfl, rfl⟩ : opening = made ∧ left = changed := by simpa using done
      exact .inr ⟨some, mintNew_ok P paid left owner change drawn opening.1 opening.2 new⟩

theorem mintChange_error (paid left : PrivacyPool) (owner : Bytes) (change : UInt64)
    (minted : Bytes) (drawn : Except String H32) (message : String)
    (refused : mintChange P paid owner change minted drawn = (.error message, left)) :
    left = paid.eraseNote minted := by
  unfold mintChange at refused
  split at refused
  · simp at refused
  · split at refused
    · rename_i failed
      have same := mintNew_error P _ _ _ _ _ _ failed
      rw [← (Prod.mk.inj refused).2, same]
    · simp at refused

/-- What a note has to meet to be spent. -/
theorem spendable_ok (pool : PrivacyPool) (owner noteId recipient : Bytes) (amount : UInt64)
    (trapdoor : Bytes) (note : PrivateNote) (noteAmount : UInt64)
    (passed : spendable P pool owner noteId recipient amount trapdoor = .ok (note, noteAmount)) :
    pool.notes.lookup noteId = some note ∧ note.spent = false ∧
      unsealAmount P note.amountSealed noteId note.blinding = .ok noteAmount ∧
      amount ≤ noteAmount := by
  simp only [spendable, bind_ok, exists_unit, ensure_ok, pure_ok, decide_eq_true_eq,
    Bool.not_eq_true', Prod.mk.injEq] at passed
  obtain ⟨_, known, looked, unspent, _, _, _, value, unsealed, enough, _, _, rfl, rfl⟩ := passed
  have found : pool.notes.lookup noteId = some known := by
    unfold findNote at looked
    split at looked
    · simp at looked
    · rename_i listed
      exact Except.ok.inj looked ▸ listed
  exact ⟨found, unspent, unsealed, enough⟩

/-- A payment spends one note and mints two at most. -/
theorem spendOpen_ok (pool left : PrivacyPool) (owner noteId recipient : Bytes) (amount : UInt64)
    (trapdoor : Bytes) (drawn drawnChange : Except String H32) (receipt : SpendReceipt)
    (done : spendOpen P pool owner noteId recipient amount trapdoor drawn drawnChange =
      (.ok receipt, left)) :
    ∃ note paidNote noteAmount changed,
      Spends P pool noteId amount receipt note paidNote noteAmount changed left := by
  unfold spendOpen at done
  split at done
  · simp at done
  · rename_i note noteAmount passed
    split at done
    · simp at done
    · rename_i minted opening paid new
      dsimp only at done
      split at done
      · simp at done
      · rename_i mintedChange changeOpening changed made
        obtain ⟨made', rfl⟩ := Prod.mk.inj done
        obtain rfl := Except.ok.inj made'
        obtain ⟨found, unspent, unsealed, enough⟩ :=
          spendable_ok P pool owner noteId recipient amount trapdoor note noteAmount passed
        obtain ⟨paidNote, fresh, rfl⟩ := mintNew_ok P pool paid recipient amount drawn _ _ new
        exact ⟨note, paidNote, noteAmount, changed, {
          found := found
          unspent := unspent
          unsealed := unsealed
          enough := enough
          change := rfl
          fresh := fresh
          changing := mintChange_ok P _ changed owner _ minted drawnChange _ made
          marked := rfl }⟩

/-- A failing `spend_open` leaves the pool as it was: what it had minted is erased. -/
theorem spendOpen_error (pool left : PrivacyPool) (owner noteId recipient : Bytes)
    (amount : UInt64) (trapdoor : Bytes) (drawn drawnChange : Except String H32) (message : String)
    (refused : spendOpen P pool owner noteId recipient amount trapdoor drawn drawnChange =
      (.error message, left)) : left = pool := by
  unfold spendOpen at refused
  split at refused
  · exact (Prod.mk.inj refused).2.symm
  · split at refused
    · rename_i failed
      exact (Prod.mk.inj refused).2 ▸ mintNew_error P _ _ _ _ _ _ failed
    · rename_i minted opening paid new
      dsimp only at refused
      split at refused
      · rename_i failed
        obtain ⟨note, fresh, rfl⟩ := mintNew_ok P pool paid recipient amount drawn _ _ new
        rw [← (Prod.mk.inj refused).2, mintChange_error P _ _ _ _ _ _ _ failed]
        exact eraseNote_putNote pool minted note fresh.absent
      · simp at refused

/-! ### The invariant -/

variable {P}

/-- No two notes share a commitment or a nullifier. -/
def PrivacyPool.NotesDistinct (pool : PrivacyPool) : Prop :=
  ∀ noteId noteId' note note', pool.notes.lookup noteId = some note →
    pool.notes.lookup noteId' = some note' → noteId ≠ noteId' →
      note.commitment ≠ note'.commitment ∧ note.nullifier ≠ note'.nullifier

/-- The spent note of a pool with a given part. -/
def PrivacyPool.SpentWith (pool : PrivacyPool) (part : PrivateNote → Bytes) (text : Bytes) : Prop :=
  ∃ noteId note, pool.notes.lookup noteId = some note ∧ note.spent = true ∧ part note = text

/-- What holds of a pool and of the log of the successful calls on it. -/
structure Kept (P : Primitives) (history : History) : Prop where
  distinct : history.pool.NotesDistinct
  nullifiers : ∀ text, text ∈ history.pool.usedNullifiers ↔
    history.pool.SpentWith PrivateNote.nullifier text
  commitments : ∀ text, text ∈ history.pool.spentCommitments ↔
    history.pool.SpentWith PrivateNote.commitment text
  amounts : ∀ noteId note, history.pool.notes.lookup noteId = some note →
    ∃ amount, (∀ other, (noteId, other) ∈ history.minted ↔ other = amount) ∧
      unsealAmount P note.amountSealed noteId note.blinding = .ok amount
  listed : ∀ entry ∈ history.minted, history.pool.notes.lookup entry.1 ≠ none
  marked : ∀ noteId ∈ history.spent, ∃ note,
    history.pool.notes.lookup noteId = some note ∧ note.spent = true
  once : history.spent.Nodup
  shaped : ∀ noteId note, history.pool.notes.lookup noteId = some note → Shaped P noteId note

theorem kept_initial : Kept P .initial where
  distinct := by
    intro noteId _ note _ found
    exact absurd found (by simp [History.initial, PrivacyPool.initial])
  nullifiers := by simp [History.initial, PrivacyPool.initial, PrivacyPool.SpentWith]
  commitments := by simp [History.initial, PrivacyPool.initial, PrivacyPool.SpentWith]
  amounts := by simp [History.initial, PrivacyPool.initial]
  listed := by simp [History.initial]
  marked := by simp [History.initial]
  once := List.nodup_nil
  shaped := by simp [History.initial, PrivacyPool.initial]

theorem lookup_putNote (pool : PrivacyPool) (noteId tested : Bytes) (note : PrivateNote) :
    (pool.putNote noteId note).notes.lookup tested =
      if tested = noteId then some note else pool.notes.lookup tested :=
  lookup_insert pool.notes noteId tested note

theorem lookup_markSpent (pool : PrivacyPool) (noteId tested : Bytes) (note : PrivateNote) :
    (pool.markSpent noteId note).notes.lookup tested =
      if tested = noteId then some { note with spent := true } else pool.notes.lookup tested :=
  lookup_insert pool.notes noteId tested _

/-- An unspent note adds nothing to the spent ones. -/
theorem spentWith_putNote (pool : PrivacyPool) (noteId : Bytes) (note : PrivateNote)
    (part : PrivateNote → Bytes) (text : Bytes) (absent : pool.notes.lookup noteId = none)
    (unspent : note.spent = false) :
    (pool.putNote noteId note).SpentWith part text ↔ pool.SpentWith part text := by
  constructor
  · rintro ⟨other, found, listed, spent, same⟩
    rw [lookup_putNote] at listed
    split at listed
    · rw [← Option.some.inj listed, unspent] at spent
      exact Bool.noConfusion spent
    · exact ⟨other, found, listed, spent, same⟩
  · rintro ⟨other, found, listed, spent, same⟩
    refine ⟨other, found, ?_, spent, same⟩
    rw [lookup_putNote, if_neg, listed]
    rintro rfl
    rw [absent] at listed
    exact absurd listed (by simp)

/-- A marked note joins the spent ones with the part it had. -/
theorem spentWith_markSpent (pool : PrivacyPool) (noteId : Bytes) (note : PrivateNote)
    (part : PrivateNote → Bytes) (text : Bytes)
    (blind : ∀ note : PrivateNote, part { note with spent := true } = part note)
    (found : pool.notes.lookup noteId = some note) (unspent : note.spent = false) :
    (pool.markSpent noteId note).SpentWith part text ↔
      text = part note ∨ pool.SpentWith part text := by
  constructor
  · rintro ⟨other, marked, listed, spent, same⟩
    rw [lookup_markSpent] at listed
    split at listed
    · rw [← Option.some.inj listed, blind] at same
      exact .inl same.symm
    · exact .inr ⟨other, marked, listed, spent, same⟩
  · rintro (rfl | ⟨other, marked, listed, spent, same⟩)
    · exact ⟨noteId, _, by rw [lookup_markSpent, if_pos rfl], rfl, blind note⟩
    · refine ⟨other, marked, ?_, spent, same⟩
      rw [lookup_markSpent, if_neg, listed]
      rintro rfl
      rw [found] at listed
      rw [← Option.some.inj listed, unspent] at spent
      exact Bool.noConfusion spent

variable {amount : UInt64} {history : History} {note : PrivateNote} {noteId : Bytes}
  {changed left : PrivacyPool} {noteAmount : UInt64} {paidNote : PrivateNote} {pool : PrivacyPool}
  {receipt : SpendReceipt}

/-- Minting a new note keeps the invariant. -/
theorem Kept.put (kept : Kept P history) (fresh : Fresh P history.pool noteId note amount) :
    Kept P { history with
      pool := history.pool.putNote noteId note
      minted := (noteId, amount) :: history.minted } where
  distinct := by
    intro first second firstNote secondNote foundFirst foundSecond different
    simp only [lookup_putNote] at foundFirst foundSecond
    split at foundFirst
    · rename_i sameFirst
      rw [if_neg (fun sameSecond => different (sameFirst.trans sameSecond.symm))] at foundSecond
      obtain ⟨nullifiers, commitments⟩ := fresh.scanned second secondNote foundSecond
      rw [← Option.some.inj foundFirst]
      exact ⟨commitments.symm, nullifiers.symm⟩
    · split at foundSecond
      · obtain ⟨nullifiers, commitments⟩ := fresh.scanned first firstNote foundFirst
        rw [← Option.some.inj foundSecond]
        exact ⟨commitments, nullifiers⟩
      · exact kept.distinct first second firstNote secondNote foundFirst foundSecond different
  nullifiers := fun text => (kept.nullifiers text).trans
    (spentWith_putNote _ _ _ _ text fresh.absent fresh.unspent).symm
  commitments := fun text => (kept.commitments text).trans
    (spentWith_putNote _ _ _ _ text fresh.absent fresh.unspent).symm
  amounts := by
    intro tested found listed
    simp only [lookup_putNote] at listed
    split at listed
    · rename_i same
      obtain rfl := Option.some.inj listed
      subst same
      refine ⟨amount, ?_, fresh.unsealed⟩
      intro other
      simp only [List.mem_cons, Prod.mk.injEq, true_and]
      constructor
      · rintro (same | earlier)
        · exact same
        · exact absurd fresh.absent (kept.listed _ earlier)
      · exact .inl
    · rename_i different
      obtain ⟨value, logged, unsealed⟩ := kept.amounts tested found listed
      refine ⟨value, ?_, unsealed⟩
      intro other
      simpa [different] using logged other
  listed := by
    intro entry member
    rw [lookup_putNote]
    split
    · simp
    · rename_i different
      rcases List.mem_cons.mp member with rfl | earlier
      · exact absurd rfl different
      · exact kept.listed entry earlier
  marked := by
    intro tested member
    obtain ⟨found, listed, spent⟩ := kept.marked tested member
    refine ⟨found, ?_, spent⟩
    rw [lookup_putNote, if_neg, listed]
    rintro rfl
    rw [fresh.absent] at listed
    exact absurd listed (by simp)
  once := kept.once
  shaped := by
    intro tested found listed
    simp only [lookup_putNote] at listed
    split at listed
    · rename_i same
      rw [same, ← Option.some.inj listed]
      exact fresh.shaped
    · exact kept.shaped tested found listed

/-- Marking an unspent note keeps the invariant. -/
theorem Kept.mark (kept : Kept P history) (found : history.pool.notes.lookup noteId = some note)
    (unspent : note.spent = false) :
    Kept P { history with
      pool := history.pool.markSpent noteId note
      spent := noteId :: history.spent } where
  distinct := by
    intro first second firstNote secondNote foundFirst foundSecond different
    simp only [lookup_markSpent] at foundFirst foundSecond
    split at foundFirst
    · rename_i sameFirst
      rw [if_neg (fun sameSecond => different (sameFirst.trans sameSecond.symm))] at foundSecond
      rw [← Option.some.inj foundFirst]
      exact kept.distinct noteId second note secondNote found foundSecond (sameFirst ▸ different)
    · split at foundSecond
      · rename_i sameSecond
        rw [← Option.some.inj foundSecond]
        exact kept.distinct first noteId firstNote note foundFirst found (sameSecond ▸ different)
      · exact kept.distinct first second firstNote secondNote foundFirst foundSecond different
  nullifiers := by
    intro text
    rw [spentWith_markSpent history.pool noteId note _ text (fun _ => rfl) found unspent,
      ← kept.nullifiers]
    exact Finset.mem_insert
  commitments := by
    intro text
    rw [spentWith_markSpent history.pool noteId note _ text (fun _ => rfl) found unspent,
      ← kept.commitments]
    exact Finset.mem_insert
  amounts := by
    intro tested marked listed
    simp only [lookup_markSpent] at listed
    split at listed
    · rename_i same
      rw [same, ← Option.some.inj listed]
      exact kept.amounts noteId note found
    · exact kept.amounts tested marked listed
  listed := by
    intro entry member
    rw [lookup_markSpent]
    split
    · simp
    · exact kept.listed entry member
  marked := by
    intro tested member
    simp only [lookup_markSpent]
    split
    · exact ⟨_, rfl, rfl⟩
    · rename_i different
      rcases List.mem_cons.mp member with same | earlier
      · exact absurd same different
      · exact kept.marked tested earlier
  once := by
    refine List.nodup_cons.mpr ⟨?_, kept.once⟩
    intro earlier
    obtain ⟨other, listed, spent⟩ := kept.marked noteId earlier
    rw [found] at listed
    rw [← Option.some.inj listed, unspent] at spent
    exact Bool.noConfusion spent
  shaped := by
    intro tested marked listed
    simp only [lookup_markSpent] at listed
    split at listed
    · rename_i same
      obtain ⟨noteIds, tags, amounts, blinding, commitments, nullifiers⟩ := kept.shaped noteId note found
      rw [same, ← Option.some.inj listed]
      exact ⟨noteIds, tags, amounts, blinding, commitments, nullifiers⟩
    · exact kept.shaped tested marked listed

/-- The spent note is none of the new ones. -/
theorem Spends.found_changed
    (spends : Spends P pool noteId amount receipt note paidNote noteAmount changed left) :
    changed.notes.lookup noteId = some note := by
  have found := spends.found
  have paid : (pool.putNote receipt.newNoteId paidNote).notes.lookup noteId = some note := by
    rw [lookup_putNote, if_neg, found]
    rintro rfl
    rw [spends.fresh.absent] at found
    exact absurd found (by simp)
  rcases spends.changing with ⟨_, same⟩ | ⟨_, changeNote, fresh, same⟩
  · rw [same, paid]
  · rw [same, lookup_putNote, if_neg, paid]
    rintro rfl
    rw [fresh.absent] at paid
    exact absurd paid (by simp)

/-- A successful spend keeps the invariant. -/
theorem Kept.spend (kept : Kept P history)
    (spends : Spends P history.pool noteId amount receipt note paidNote noteAmount changed left) :
    Kept P ⟨left, receipt.minted amount ++ history.minted, noteId :: history.spent⟩ := by
  have paid := kept.put spends.fresh
  have listed := spends.found_changed
  rw [spends.marked]
  rcases spends.changing with ⟨none, same⟩ | ⟨some, changeNote, fresh, same⟩
  · subst same
    simpa [SpendReceipt.minted, none] using paid.mark listed spends.unspent
  · subst same
    simpa [SpendReceipt.minted, some] using (paid.put fresh).mark listed spends.unspent

/-! ### Steps -/

/-- A failing call leaves the pool as it was. -/
theorem perform_error (pool left : PrivacyPool) (call : Call) (message : String)
    (refused : perform P pool call = (.error message, left)) : left = pool := by
  cases call with
  | mint owner amount commitment nullifier trapdoor =>
    simp only [perform] at refused
    split at refused
    · rename_i failed
      exact (Prod.mk.inj refused).2 ▸ mintOpen_error P _ _ _ _ _ _ _ _ failed
    · simp at refused
  | spend owner noteId recipient amount trapdoor drawn drawnChange =>
    simp only [perform] at refused
    split at refused
    · rename_i failed
      exact (Prod.mk.inj refused).2 ▸ spendOpen_error P _ _ _ _ _ _ _ _ _ _ failed
    · simp at refused

/-- One call keeps the invariant. -/
theorem Kept.advance (kept : Kept P history) (call : Call) :
    Kept P (history.advance P call) := by
  unfold History.advance
  split
  · rename_i message left refused
    rw [perform_error _ _ call message refused]
    exact kept
  · rename_i done left performed
    cases call with
    | mint owner amount commitment nullifier trapdoor =>
      simp only [perform] at performed
      split at performed
      · simp at performed
      · rename_i noteId after minted
        obtain ⟨note, fresh, same⟩ := mintOpen_ok P _ _ _ _ _ _ _ _ minted
        obtain ⟨rfl, rfl⟩ : ⟨[(noteId, amount)], []⟩ = done ∧ after = left := by
          simpa using performed
        rw [same]
        exact kept.put fresh
    | spend owner noteId recipient amount trapdoor drawn drawnChange =>
      simp only [perform] at performed
      split at performed
      · simp at performed
      · rename_i receipt after spent
        obtain ⟨note, paidNote, noteAmount, changed, spends⟩ := spendOpen_ok P _ _ _ _ _ _ _ _ _ _ spent
        obtain ⟨rfl, rfl⟩ : ⟨receipt.minted amount, [noteId]⟩ = done ∧ after = left := by
          simpa using performed
        exact kept.spend spends

/-- Every run keeps the invariant. -/
theorem run_kept (calls : List Call) : Kept P (run P calls) := by
  induction calls using List.reverseRecOn with
  | nil => exact kept_initial
  | append_singleton front call ih =>
    rw [run, List.foldl_append]
    exact ih.advance call

/-! ### The total -/

/-- What an unspent note is worth. -/
def noteValue (P : Primitives) (noteId : Bytes) (note : PrivateNote) : Nat :=
  if note.spent then 0
  else match unsealAmount P note.amountSealed noteId note.blinding with
    | .error _ => 0
    | .ok amount => amount.toNat

/-- The total unsealed amount of the unspent notes. -/
def unsealedTotal (P : Primitives) (pool : PrivacyPool) : Nat := measure (noteValue P) pool.notes

theorem noteValue_unspent (noteId : Bytes) (note : PrivateNote) (amount : UInt64)
    (unspent : note.spent = false)
    (unsealed : unsealAmount P note.amountSealed noteId note.blinding = .ok amount) :
    noteValue P noteId note = amount.toNat := by
  simp [noteValue, unspent, unsealed]

theorem unsealedTotal_put (pool : PrivacyPool) (noteId : Bytes) (note : PrivateNote)
    (amount : UInt64) (fresh : Fresh P pool noteId note amount) :
    unsealedTotal P (pool.putNote noteId note) = unsealedTotal P pool + amount.toNat := by
  have exchanged := measure_insert (noteValue P) pool.notes noteId note
  rw [weightAt_none _ _ _ fresh.absent, Nat.add_zero,
    noteValue_unspent noteId note amount fresh.unspent fresh.unsealed] at exchanged
  exact exchanged

theorem unsealedTotal_mark (pool : PrivacyPool) (noteId : Bytes) (note : PrivateNote)
    (amount : UInt64) (found : pool.notes.lookup noteId = some note) (unspent : note.spent = false)
    (unsealed : unsealAmount P note.amountSealed noteId note.blinding = .ok amount) :
    unsealedTotal P (pool.markSpent noteId note) + amount.toNat = unsealedTotal P pool := by
  have exchanged := measure_insert_found (noteValue P) pool.notes noteId note
    { note with spent := true } found
  have spent : noteValue P noteId { note with spent := true } = 0 := rfl
  rwa [spent, Nat.add_zero, noteValue_unspent noteId note amount unspent unsealed] at exchanged

/-- A spend moves its amount and the change, together what the spent note was worth. -/
theorem Spends.total
    (spends : Spends P pool noteId amount receipt note paidNote noteAmount changed left) :
    unsealedTotal P left = unsealedTotal P pool := by
  have paid := unsealedTotal_put pool _ _ amount spends.fresh
  have marked := unsealedTotal_mark changed noteId note noteAmount spends.found_changed
    spends.unspent spends.unsealed
  have change : receipt.change.toNat = noteAmount.toNat - amount.toNat := by
    rw [spends.change, UInt64.toNat_sub_of_le _ _ spends.enough]
  have enough := UInt64.le_iff_toNat_le.mp spends.enough
  have changing : unsealedTotal P changed =
      unsealedTotal P (pool.putNote receipt.newNoteId paidNote) + receipt.change.toNat := by
    rcases spends.changing with ⟨none, same⟩ | ⟨_, changeNote, fresh, same⟩
    · simp [same, none]
    · rw [same]
      exact unsealedTotal_put _ _ changeNote _ fresh
  rw [spends.marked]
  omega

/-- After any calls on a new pool the notes have distinct commitments and nullifiers, the two
sets are those of the spent notes, an unspent note opens to the one amount it was minted
with, and no note was spent twice. A further spend keeps the total of the unspent notes,
and a further call that fails keeps the pool. -/
theorem notes_conserved (P : Primitives) (calls : List Call) :
    (run P calls).pool.NotesDistinct ∧
    (∀ text, text ∈ (run P calls).pool.usedNullifiers ↔
      (run P calls).pool.SpentWith PrivateNote.nullifier text) ∧
    (∀ text, text ∈ (run P calls).pool.spentCommitments ↔
      (run P calls).pool.SpentWith PrivateNote.commitment text) ∧
    (∀ noteId note, (run P calls).pool.notes.lookup noteId = some note → note.spent = false →
      ∃ amount, (∀ other, (noteId, other) ∈ (run P calls).minted ↔ other = amount) ∧
        unsealAmount P note.amountSealed noteId note.blinding = .ok amount) ∧
    (run P calls).spent.Nodup ∧
    (∀ owner noteId recipient amount trapdoor drawn drawnChange receipt left,
      spendOpen P (run P calls).pool owner noteId recipient amount trapdoor drawn drawnChange =
        (.ok receipt, left) → unsealedTotal P left = unsealedTotal P (run P calls).pool) ∧
    (∀ call message left, perform P (run P calls).pool call = (.error message, left) →
      left = (run P calls).pool) := by
  have kept := run_kept (P := P) calls
  refine ⟨kept.distinct, kept.nullifiers, kept.commitments, ?_, kept.once, ?_, ?_⟩
  · intro noteId note found _
    exact kept.amounts noteId note found
  · intro owner noteId recipient amount trapdoor drawn drawnChange receipt left spent
    obtain ⟨note, paidNote, noteAmount, changed, spends⟩ := spendOpen_ok P _ _ _ _ _ _ _ _ _ _ spent
    exact spends.total
  · intro call message left refused
    exact perform_error _ left call message refused

end Privacy

end Addition
