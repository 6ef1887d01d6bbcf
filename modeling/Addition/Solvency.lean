import Addition.Ledger
import Addition.Sequential
import Addition.Statement
import Mathlib.Algebra.Order.BigOperators.Group.List
import Mathlib.Data.List.Infix

/-!
# Solvency of the shielded pool

There is no counter of what the pool holds. That no more leaves it than entered
follows from the statement and the pool state together: a spend folds to a recent
root, so it opens a commitment that was appended before; its nullifier is fixed by
that commitment, so no commitment is opened twice; and each bundle conserves value.

SHA-256 and the proof verifier are linked libraries. The assumptions are that
SHA-256 has no collision and no zero digest among the texts that occur, and that a
verified bundle has a witness that evaluates to its journal.
-/

namespace Addition.Shielded

open ByteStrings Checked

/-! ### Texts -/

/-- As many digests on both sides are read off the front. -/
theorem cut_digests (digests digests' : List H32) (count : digests.length = digests'.length)
    (right right' : Bytes) (same : putDigests digests ++ right = putDigests digests' ++ right') :
    digests = digests' ∧ right = right' := by
  refine cut_counted _ digests digests' count ?_ right right' same
  intro digest _ digest' _ rest rest' equal
  obtain ⟨first, later⟩ := cut_width _ _ _ _ (by rw [digest.property, digest'.property]) equal
  exact ⟨Subtype.ext first, later⟩

theorem putDigests_injective (digests digests' : List H32)
    (same : putDigests digests = putDigests digests') : digests = digests' := by
  have widths := congrArg List.length same
  rw [putDigests_length, putDigests_length] at widths
  exact (cut_digests digests digests' (by omega) [] [] (by rw [same])).1

theorem putU64_injective (value value' : UInt64) (same : Wire.putU64 value = Wire.putU64 value') :
    value = value' := by
  have read := Wire.getU64_restores value []
  rw [same, Wire.getU64_restores value' []] at read
  exact (Prod.mk.inj (Option.some.inj read)).1.symm

theorem putU32_injective (value value' : Nat) (bound : value < 2 ^ 32) (bound' : value' < 2 ^ 32)
    (same : Wire.putU32 value = Wire.putU32 value') : value = value' := by
  rw [← Wire.leValue_putU32 value bound, same, Wire.leValue_putU32 value' bound']

theorem cut_word (value value' : UInt64) (right right' : Bytes)
    (same : Wire.putU64 value ++ right = Wire.putU64 value' ++ right') :
    value = value' ∧ right = right' := by
  obtain ⟨words, rights⟩ := cut_width _ _ _ _ (by simp [Wire.putU64]) same
  exact ⟨putU64_injective _ _ words, rights⟩

theorem cut_digest (digest digest' : H32) (right right' : Bytes)
    (same : digest.val ++ right = digest'.val ++ right') : digest = digest' ∧ right = right' := by
  obtain ⟨digests, rights⟩ := cut_width _ _ _ _ (by rw [digest.property, digest'.property]) same
  exact ⟨Subtype.ext digests, rights⟩

theorem cut_count (count count' : Nat) (bound : count < 2 ^ 32) (bound' : count' < 2 ^ 32)
    (right right' : Bytes) (same : Wire.putU32 count ++ right = Wire.putU32 count' ++ right') :
    count = count' ∧ right = right' := by
  obtain ⟨counts, rights⟩ := cut_width _ _ _ _ (by simp [Wire.putU32]) same
  exact ⟨putU32_injective _ _ bound bound' counts, rights⟩

/-- A journal determines its public values. -/
theorem journalText_injective (bind bind' anchor anchor' : H32) (vpubIn vpubIn' vpubOut vpubOut' : UInt64)
    (nullifiers nullifiers' commitments commitments' : List H32)
    (few : nullifiers.length < 2 ^ 32) (few' : nullifiers'.length < 2 ^ 32)
    (same : journalText bind anchor vpubIn vpubOut nullifiers commitments =
      journalText bind' anchor' vpubIn' vpubOut' nullifiers' commitments') :
    anchor = anchor' ∧ vpubIn = vpubIn' ∧ vpubOut = vpubOut' ∧ nullifiers = nullifiers' ∧
      commitments = commitments' := by
  simp only [journalText, List.append_assoc, List.append_cancel_left_eq] at same
  obtain ⟨_, same⟩ := cut_digest _ _ _ _ same
  obtain ⟨anchors, same⟩ := cut_digest _ _ _ _ same
  obtain ⟨ins, same⟩ := cut_word _ _ _ _ same
  obtain ⟨outs, same⟩ := cut_word _ _ _ _ same
  obtain ⟨count, same⟩ := cut_count _ _ few few' _ _ same
  obtain ⟨nfs, same⟩ := cut_digests _ _ count _ _ same
  obtain ⟨_, cms⟩ := cut_width _ _ _ _ (by simp [Wire.putU32]) same
  exact ⟨anchors, ins, outs, nfs, putDigests_injective _ _ cms⟩

/-- The text of a node tells its children. -/
theorem nodePreimage_injective (left left' right right' : H32)
    (same : nodePreimage left right = nodePreimage left' right') : left = left' ∧ right = right' := by
  simp only [nodePreimage, List.append_assoc, List.append_cancel_left_eq] at same
  obtain ⟨lefts, rights⟩ := cut_digest _ _ _ _ same
  exact ⟨lefts, Subtype.ext rights⟩

/-- The text of a commitment tells its note. -/
theorem commitmentPreimage_injective (value value' : UInt64) (owner owner' rho rho' r r' : H32)
    (same : commitmentPreimage value owner rho r = commitmentPreimage value' owner' rho' r') :
    value = value' ∧ owner = owner' ∧ rho = rho' ∧ r = r' := by
  simp only [commitmentPreimage, List.append_assoc, List.append_cancel_left_eq] at same
  obtain ⟨values, same⟩ := cut_word _ _ _ _ same
  obtain ⟨owners, same⟩ := cut_digest _ _ _ _ same
  obtain ⟨rhos, rs⟩ := cut_digest _ _ _ _ same
  exact ⟨values, owners, rhos, Subtype.ext rs⟩

variable (P : Primitives)

/-- The texts hashed for one spend: its owner tag, commitment, nullifier and path. -/
def SpendWitness.texts (spend : SpendWitness) : List Bytes :=
  [ascii "ADD/owner/v1" ++ spend.nk.val,
    commitmentPreimage spend.value (ownerTag P spend.nk) spend.rho spend.r,
    ascii "ADD/nf/v1" ++ spend.nk.val ++ spend.rho.val] ++
  (PaddedTrees.pathPairs (merkleNode P) spend.pos.toNat 0 (spend.commitment P) spend.siblings).map
    (fun pair => nodePreimage pair.1 pair.2)

/-- The texts hashed for the new notes from some position on. -/
def outputTexts (bind : H32) (nfs : List H32) : Nat → List OutputWitness → List Bytes
  | _, [] => []
  | j, output :: rest =>
    (ascii "ADD/rho/v1" ++ bind.val ++ putDigests nfs ++ Wire.putU32 j) ::
      commitmentPreimage output.value output.owner (outputRho P bind nfs j) output.r ::
      outputTexts bind nfs (j + 1) rest

/-- The texts that the evaluation of a witness hashes. -/
def Witness.texts (witness : Witness) : List Bytes :=
  witness.spends.flatMap (SpendWitness.texts P) ++
    outputTexts P witness.bind (witness.nullifiers P) 0 witness.outputs

/-- The texts hashed for the nodes of the trees over the front parts of a list of
leaves. -/
def treeTexts (leaves : List H32) : Set Bytes :=
  {text | ∃ count, ∃ pair ∈ PaddedTrees.treePairs (merkleNode P) zeroH32 (leaves.take count) kTreeDepth,
    text = nodePreimage pair.1 pair.2}

/-! ### One bundle -/

/-- A bundle and a witness of its statement, with the texts it hashes. -/
structure Witnessed (texts : Set Bytes) (bundle : Bundle) (witness : Witness) : Prop where
  formed : WellFormed P witness bundle.anchor
  balanced : witness.Balanced
  vpubIn : witness.vpubIn = bundle.vpubIn
  vpubOut : witness.vpubOut = bundle.vpubOut
  nullifiers : witness.nullifiers P = bundle.nullifiers
  commitments : witness.commitments P = bundle.commitments
  hashed : ∀ text ∈ witness.texts P, text ∈ texts

/-- The texts that the evaluation of these octets hashes, if they are accepted. -/
def hashedBy (octets : Bytes) : Set Bytes :=
  {text | ∃ (witness : Witness) (anchor : H32), octets = witness.text ∧
    WellFormed P witness anchor ∧ text ∈ witness.texts P}

/-- What evaluates to the journal of a bundle is a witness of it. -/
theorem witnessed_of_journal (texts : Set Bytes) (bind : H32) (bundle : Bundle) (octets : Bytes)
    (few : bundle.nullifiers.length ≤ kMaxIn)
    (accepted : evaluate P octets = .ok (expectedJournal bind bundle))
    (hashed : hashedBy P octets ⊆ texts) :
    ∃ witness : Witness, octets = witness.text ∧ Witnessed P texts bundle witness := by
  obtain ⟨witness, anchor, written, formed, balanced, journal⟩ := evaluate_ok P _ _ accepted
  have narrow := formed.fewSpends
  have width : (witness.nullifiers P).length = witness.spends.length := by simp [Witness.nullifiers]
  obtain ⟨rfl, vpubIn, vpubOut, nullifiers, commitments⟩ :=
    journalText_injective _ _ _ _ _ _ _ _ _ _ _ _ (by unfold kMaxIn at few; omega)
      (by unfold kMaxIn at narrow; omega) journal
  exact ⟨witness, written, formed, balanced, vpubIn.symm, vpubOut.symm, nullifiers.symm,
    commitments.symm, fun text member => hashed ⟨witness, _, written, formed, member⟩⟩

/-! ### Octets determine their witness -/

/-- Well-formed witnesses with the same octets are equal. -/
theorem Witness.text_determined (witness witness' : Witness) (anchor anchor' : H32)
    (formed : WellFormed P witness anchor) (formed' : WellFormed P witness' anchor')
    (same : witness.text = witness'.text) : witness = witness' := by
  have few := formed.fewSpends
  have few' := formed'.fewSpends
  have fewOutputs := formed.fewOutputs
  have fewOutputs' := formed'.fewOutputs
  unfold kMaxIn at few few'
  unfold kMaxOut at fewOutputs fewOutputs'
  simp only [Witness.text, List.append_assoc] at same
  obtain ⟨binds, same⟩ := cut_digest _ _ _ _ same
  obtain ⟨ins, same⟩ := cut_word _ _ _ _ same
  obtain ⟨outs, same⟩ := cut_word _ _ _ _ same
  obtain ⟨spendCount, same⟩ := cut_count _ _ (by omega) (by omega) _ _ same
  obtain ⟨spends, same⟩ := cut_counted SpendWitness.text _ _ spendCount (by
    intro spend member spend' member' rest rest' equal
    have width := formed.paths spend member
    have width' := formed'.paths spend' member'
    obtain ⟨nk, value, rho, r, pos, siblings⟩ := spend
    obtain ⟨nk', value', rho', r', pos', siblings'⟩ := spend'
    simp only [SpendWitness.text, List.append_assoc] at equal
    obtain ⟨nks, equal⟩ := cut_digest _ _ _ _ equal
    obtain ⟨values, equal⟩ := cut_word _ _ _ _ equal
    obtain ⟨rhos, equal⟩ := cut_digest _ _ _ _ equal
    obtain ⟨rs, equal⟩ := cut_digest _ _ _ _ equal
    obtain ⟨positions, equal⟩ := cut_word _ _ _ _ equal
    obtain ⟨paths, equal⟩ := cut_digests siblings siblings' (width.trans width'.symm) _ _ equal
    exact ⟨by rw [nks, values, rhos, rs, positions, paths], equal⟩) _ _ same
  obtain ⟨outputCount, same⟩ := cut_count _ _ (by omega) (by omega) _ _ same
  obtain ⟨outputs, _⟩ := cut_counted OutputWitness.text _ _ outputCount (by
    intro output _ output' _ rest rest' equal
    obtain ⟨value, owner, r⟩ := output
    obtain ⟨value', owner', r'⟩ := output'
    simp only [OutputWitness.text, List.append_assoc] at equal
    obtain ⟨values, equal⟩ := cut_word _ _ _ _ equal
    obtain ⟨owners, equal⟩ := cut_digest _ _ _ _ equal
    obtain ⟨rs, equal⟩ := cut_digest _ _ _ _ equal
    exact ⟨by rw [values, owners, rs], equal⟩) [] [] (by simpa using same)
  cases witness
  cases witness'
  simp_all

/-- A well-formed witness hashes the texts of its octets. -/
theorem hashedBy_text (witness : Witness) (anchor : H32) (formed : WellFormed P witness anchor) :
    hashedBy P witness.text ⊆ {text | text ∈ witness.texts P} := by
  rintro text ⟨other, anchor', same, formed', listed⟩
  rwa [witness.text_determined P other anchor anchor' formed formed' same]

/-! ### The nodes of a list of leaves -/

/-- The texts hashed for the trees over the front parts of a list of leaves: those of the
padding, and those of each part layer by layer. -/
def layerTexts (leaves : List H32) : List Bytes :=
  (List.range kTreeDepth).map (fun height => nodePreimage (emptyRoot P height) (emptyRoot P height)) ++
    leaves.inits.flatMap (fun front =>
      (PaddedTrees.joinedPairs (merkleNode P) zeroH32 kTreeDepth 0 front).map
        (fun pair => nodePreimage pair.1 pair.2))

theorem treeTexts_listed (leaves : List H32) :
    treeTexts P leaves ⊆ {text | text ∈ layerTexts P leaves} := by
  rintro text ⟨count, pair, joined, rfl⟩
  rcases PaddedTrees.treePairs_listed (merkleNode P) zeroH32 _ _ pair joined with
    ⟨height, below, rfl⟩ | listed
  · rw [← emptyRoot_eq]
    exact List.mem_append_left _ (List.mem_map.mpr ⟨height, List.mem_range.mpr below, rfl⟩)
  · refine List.mem_append_right _ (List.mem_flatMap.mpr ⟨leaves.take count, ?_,
      List.mem_map_of_mem listed⟩)
    exact (List.mem_inits _ _).mpr (List.take_prefix _ _)

/-! ### Notes -/

/-- SHA-256 has no collision and no zero digest among some texts. -/
structure CleanDigest (texts : Set Bytes) : Prop where
  injective : Set.InjOn P.sha256 texts
  nonzero : ∀ text ∈ texts, P.sha256 text ≠ zeroH32

/-- The notes that some witnesses create: value and commitment. -/
def Witness.notes (witness : Witness) : List (UInt64 × H32) :=
  (witness.outputs.map OutputWitness.value).zip (witness.commitments P)

theorem commitmentsFrom_length (bind : H32) (nfs : List H32) (j : Nat) (outputs : List OutputWitness) :
    (commitmentsFrom P bind nfs j outputs).length = outputs.length := by
  induction outputs generalizing j with
  | nil => rfl
  | cons output rest ih =>
    rw [commitmentsFrom, List.length_cons, ih, List.length_cons]

theorem Witness.notes_commitments (witness : Witness) :
    (witness.notes P).map Prod.snd = witness.commitments P := by
  unfold Witness.notes
  exact List.map_snd_zip (by simp [Witness.commitments, commitmentsFrom_length])

theorem Witness.notes_value (witness : Witness) :
    ((witness.notes P).map (fun note => note.1.toNat)).sum = witness.newValue := by
  have values : (witness.notes P).map Prod.fst = witness.outputs.map OutputWitness.value :=
    List.map_fst_zip (by simp [Witness.commitments, commitmentsFrom_length])
  rw [show (witness.notes P).map (fun note => note.1.toNat) =
    ((witness.notes P).map Prod.fst).map UInt64.toNat by simp, values, List.map_map]
  rfl

/-- The commitment of a new note is the digest of an occurring text that contains
its value. -/
theorem note_opening (bind : H32) (nfs : List H32) (j : Nat) (outputs : List OutputWitness)
    (note : UInt64 × H32)
    (member : note ∈ (outputs.map OutputWitness.value).zip (commitmentsFrom P bind nfs j outputs)) :
    ∃ owner rho r, note.2 = P.sha256 (commitmentPreimage note.1 owner rho r) ∧
      commitmentPreimage note.1 owner rho r ∈ outputTexts P bind nfs j outputs := by
  induction outputs generalizing j with
  | nil => simp at member
  | cons output rest ih =>
    simp only [List.map_cons, commitmentsFrom, List.zip_cons_cons, List.mem_cons] at member
    rcases member with rfl | later
    · exact ⟨output.owner, outputRho P bind nfs j, output.r, rfl, by simp [outputTexts]⟩
    · obtain ⟨owner, rho, r, opened, listed⟩ := ih (j + 1) later
      exact ⟨owner, rho, r, opened, by simp [outputTexts, listed]⟩

variable {P} {texts : Set Bytes}

variable {bundle : Bundle} {bundles : List Bundle} {witnesses : List Witness}

theorem Witnessed.spendTexts {witness : Witness}
    (witnessed : Witnessed P texts bundle witness) (spend : SpendWitness)
    (member : spend ∈ witness.spends) : ∀ text ∈ spend.texts P, text ∈ texts := by
  intro text listed
  refine witnessed.hashed text (List.mem_append_left _ ?_)
  exact List.mem_flatMap.mpr ⟨spend, member, listed⟩

/-- Two spends that open one commitment have one value and one nullifier. -/
theorem same_commitment (clean : CleanDigest P texts) (spend spend' : SpendWitness)
    (inside : ∀ text ∈ spend.texts P, text ∈ texts) (inside' : ∀ text ∈ spend'.texts P, text ∈ texts)
    (same : spend.commitment P = spend'.commitment P) :
    spend.value = spend'.value ∧ spend.nullifier P = spend'.nullifier P := by
  have preimages := clean.injective (inside _ (by simp [SpendWitness.texts]))
    (inside' _ (by simp [SpendWitness.texts])) same
  obtain ⟨value, owner, rho, _⟩ := commitmentPreimage_injective _ _ _ _ _ _ _ _ preimages
  have keys := clean.injective (inside (ascii "ADD/owner/v1" ++ spend.nk.val)
    (by simp [SpendWitness.texts])) (inside' (ascii "ADD/owner/v1" ++ spend'.nk.val)
    (by simp [SpendWitness.texts])) owner
  rw [List.append_cancel_left_eq] at keys
  refine ⟨value, ?_⟩
  unfold SpendWitness.nullifier
  rw [Subtype.ext keys, rho]

/-- A spend that folds to the root over some leaves opens one of them. -/
theorem spend_opens_leaf (clean : CleanDigest P texts) (spend : SpendWitness) (leaves : List H32)
    (inside : ∀ text ∈ spend.texts P, text ∈ texts) (nodes : treeTexts P leaves ⊆ texts)
    (count : Nat) (inRange : spend.pos.toNat < 2 ^ kTreeDepth)
    (width : spend.siblings.length = kTreeDepth)
    (root : spend.root P = treeRoot P (leaves.take count)) :
    spend.commitment P ∈ leaves := by
  have injective : Set.InjOn (fun pair : H32 × H32 => merkleNode P pair.1 pair.2)
      {pair | nodePreimage pair.1 pair.2 ∈ texts} := by
    rintro ⟨left, right⟩ member ⟨left', right'⟩ member' same
    obtain ⟨rfl, rfl⟩ := nodePreimage_injective _ _ _ _ (clean.injective member member' same)
    rfl
  have opened := PaddedTrees.foldPath_binds (merkleNode P) zeroH32 (leaves.take count)
    spend.pos.toNat 0 (spend.commitment P) spend.siblings _ injective
    (fun pair member => inside _ (List.mem_append_right _ (List.mem_map_of_mem member)))
    (by
      rintro pair member
      rw [width, Nat.zero_add] at member
      exact nodes ⟨count, pair, member, rfl⟩)
    (by
      rw [width, Nat.zero_add, Nat.div_eq_of_lt inRange]
      exact root)
  rw [Nat.pow_zero, Nat.div_one, PaddedTrees.nodeAt] at opened
  -- a commitment is not the padding digest, so the position is that of a leaf
  have nonzero : spend.commitment P ≠ zeroH32 :=
    clean.nonzero _ (inside _ (by simp [SpendWitness.texts]))
  rw [opened]
  rw [opened] at nonzero
  rcases Nat.lt_or_ge spend.pos.toNat (leaves.take count).length with present | beyond
  · rw [List.getD_eq_getElem _ _ present]
    exact List.mem_of_mem_take (List.getElem_mem present)
  · exact absurd (List.getD_eq_default _ _ beyond) nonzero

/-! ### Runs of bundles -/

/-- Each bundle was admitted to the pool of the bundles before it. -/
def Admissions (P : Primitives) (bundles : List Bundle) : Prop :=
  ∀ front bundle back, bundles = front ++ bundle :: back →
    ∃ state, PoolOf P front state ∧ Admitted state bundle ∅

theorem Admissions.front {front back : List Bundle} (admissions : Admissions P (front ++ back)) :
    Admissions P front := by
  intro first bundle rest split
  exact admissions first bundle (rest ++ back) (by rw [split]; simp)

/-- An admitted bundle is put behind the others. -/
theorem Admissions.extend (admissions : Admissions P bundles) {state : State}
    (pool : PoolOf P bundles state) (admitted : Admitted state bundle ∅) :
    Admissions P (bundles ++ [bundle]) := by
  intro front other back split
  rcases List.eq_nil_or_concat back with rfl | ⟨back, last, rfl⟩
  · obtain ⟨rfl, same⟩ := List.append_inj' split rfl
    obtain rfl : bundle = other := by simpa using same
    exact ⟨state, pool, admitted⟩
  · rw [List.concat_eq_append, ← List.cons_append, ← List.append_assoc] at split
    exact admissions front other back (List.append_inj' split rfl).1

/-- No nullifier is spent twice. -/
theorem Admissions.nullifiers_distinct (admissions : Admissions P bundles) :
    (bundles.flatMap Bundle.nullifiers).Nodup := by
  induction bundles using List.reverseRecOn with
  | nil => simp
  | append_singleton front bundle ih =>
    obtain ⟨state, pool, admitted⟩ := admissions front bundle [] rfl
    rw [List.flatMap_append, List.flatMap_singleton]
    refine List.nodup_append.mpr ⟨ih admissions.front, admitted.distinct, ?_⟩
    rintro digest spent other own rfl
    obtain ⟨earlier, member, listed⟩ := List.mem_flatMap.mp spent
    exact (admitted.unspent digest own).1 ((pool.nullifiers digest).mpr ⟨earlier, member, listed⟩)

theorem treeTexts_front (front back : List H32) : treeTexts P front ⊆ treeTexts P (front ++ back) := by
  rintro text ⟨count, pair, member, rfl⟩
  refine ⟨min count front.length, pair, ?_, rfl⟩
  rwa [List.take_append_of_le_length (Nat.min_le_right _ _), ← List.take_eq_take_min]

/-- The commitments of bundles are those of the notes of their witnesses. -/
theorem notes_of_bundles (witnessed : List.Forall₂ (Witnessed P texts) bundles witnesses) :
    (witnesses.flatMap (Witness.notes P)).map Prod.snd = bundles.flatMap Bundle.commitments := by
  induction witnessed with
  | nil => rfl
  | cons first _ ih =>
    rw [List.flatMap_cons, List.map_append, ih, Witness.notes_commitments,
      first.commitments, List.flatMap_cons]

/-- The nullifiers of the witnesses are those of the bundles. -/
theorem nullifiers_of_bundles (witnessed : List.Forall₂ (Witnessed P texts) bundles witnesses) :
    witnesses.flatMap (Witness.nullifiers P) = bundles.flatMap Bundle.nullifiers := by
  induction witnessed with
  | nil => rfl
  | cons first _ ih =>
    rw [List.flatMap_cons, List.flatMap_cons, ih, first.nullifiers]

/-- A note of a list of witnesses is the digest of an occurring text. -/
theorem occurring_note
    (witnessed : List.Forall₂ (Witnessed P texts) bundles witnesses) (note : UInt64 × H32)
    (member : note ∈ witnesses.flatMap (Witness.notes P)) :
    ∃ owner rho r, note.2 = P.sha256 (commitmentPreimage note.1 owner rho r) ∧
      commitmentPreimage note.1 owner rho r ∈ texts := by
  induction witnessed with
  | nil => simp at member
  | @cons _ witness _ _ first _ ih =>
    rw [List.flatMap_cons, List.mem_append] at member
    rcases member with own | later
    · obtain ⟨owner, rho, r, opened, listed⟩ := note_opening P _ _ _ _ note own
      exact ⟨owner, rho, r, opened, first.hashed _ (List.mem_append_right _ listed)⟩
    · exact ih later

/-- A spend opens a note of an earlier bundle, with its value. -/
theorem spend_matches_note (clean : CleanDigest P texts) (admissions : Admissions P bundles)
    (witnessed : List.Forall₂ (Witnessed P texts) bundles witnesses)
    (nodes : treeTexts P (bundles.flatMap Bundle.commitments) ⊆ texts)
    (front : List Witness) (witness : Witness) (back : List Witness)
    (split : witnesses = front ++ witness :: back) (spend : SpendWitness)
    (member : spend ∈ witness.spends) :
    (spend.value, spend.commitment P) ∈ front.flatMap (Witness.notes P) := by
  subst split
  have before := List.forall₂_take_append _ _ _ witnessed
  have after := List.forall₂_drop_append _ _ _ witnessed
  obtain ⟨bundle, later, own, _, rest⟩ := List.forall₂_cons_right_iff.mp after
  have whole : bundles = bundles.take front.length ++ bundle :: later := by
    rw [← rest, List.take_append_drop]
  generalize bundles.take front.length = earlier at before whole
  subst whole
  obtain ⟨state, pool, admitted⟩ := admissions earlier bundle later rfl
  have spends : bundle.nullifiers ≠ [] := by
    rw [← own.nullifiers]
    intro none
    rw [Witness.nullifiers, List.map_eq_nil_iff] at none
    simp [none] at member
  obtain ⟨count, anchor⟩ := pool.anchors _ (admitted.anchored spends)
  rw [pool.leaves] at anchor
  have inTree : treeTexts P (earlier.flatMap Bundle.commitments) ⊆ texts := by
    rw [List.flatMap_append] at nodes
    exact (treeTexts_front _ _).trans nodes
  have inside := own.spendTexts spend member
  have opened := spend_opens_leaf clean spend _ inside inTree count
    (own.formed.positions spend member) (own.formed.paths spend member)
    ((own.formed.anchored spend member).trans anchor)
  rw [← notes_of_bundles before] at opened
  obtain ⟨note, listed, same⟩ := List.mem_map.mp opened
  -- the note and the spend open the same commitment
  obtain ⟨owner, rho, r, digest, occurs⟩ := occurring_note before note listed
  have preimages := clean.injective occurs (inside _ (by simp [SpendWitness.texts]))
    (digest.symm.trans same)
  have value := (commitmentPreimage_injective _ _ _ _ _ _ _ _ preimages).1
  rwa [← same, ← value]

theorem spendTexts_all (witnessed : List.Forall₂ (Witnessed P texts) bundles witnesses) :
    ∀ spend ∈ witnesses.flatMap Witness.spends, ∀ text ∈ spend.texts P, text ∈ texts := by
  induction witnessed with
  | nil => simp
  | cons first _ ih =>
    intro spend member
    rw [List.flatMap_cons, List.mem_append] at member
    rcases member with own | later
    · exact first.spendTexts spend own
    · exact ih spend later

/-- Distinct spends open distinct commitments. -/
theorem spends_open_distinct (clean : CleanDigest P texts)
    (witnessed : List.Forall₂ (Witnessed P texts) bundles witnesses)
    (spend spend' : SpendWitness) (member : spend ∈ witnesses.flatMap Witness.spends)
    (member' : spend' ∈ witnesses.flatMap Witness.spends)
    (same : spend.commitment P = spend'.commitment P) :
    spend.nullifier P = spend'.nullifier P :=
  (same_commitment clean spend spend' (spendTexts_all witnessed spend member)
    (spendTexts_all witnessed spend' member') same).2

theorem sum_map_flatMap {α β : Type} (parts : α → List β) (weight : β → Nat) (items : List α) :
    ((items.flatMap parts).map weight).sum =
      (items.map (fun item => ((parts item).map weight).sum)).sum := by
  induction items with
  | nil => rfl
  | cons item rest ih =>
    rw [List.flatMap_cons, List.map_append, List.sum_append, ih, List.map_cons,
      List.sum_cons]

/-- What is spent was created. -/
theorem spent_le_created (clean : CleanDigest P texts) (admissions : Admissions P bundles)
    (witnessed : List.Forall₂ (Witnessed P texts) bundles witnesses)
    (nodes : treeTexts P (bundles.flatMap Bundle.commitments) ⊆ texts) :
    (witnesses.map Witness.spentValue).sum ≤ (witnesses.map Witness.newValue).sum := by
  -- the spends, as values and commitments, are distinct notes
  have distinct : ((witnesses.flatMap Witness.spends).map (SpendWitness.nullifier P)).Nodup := by
    have nullifiers := admissions.nullifiers_distinct
    rw [← nullifiers_of_bundles witnessed] at nullifiers
    rwa [List.map_flatMap]
  have opened : ((witnesses.flatMap Witness.spends).map
      (fun spend => (spend.value, spend.commitment P))).Nodup := by
    refine (List.Nodup.of_map _ distinct).map_on ?_
    intro spend member spend' member' same
    exact List.inj_on_of_nodup_map distinct member member'
      (spends_open_distinct clean witnessed spend spend' member member' (Prod.mk.inj same).2)
  have created : ((witnesses.flatMap Witness.spends).map
      (fun spend => (spend.value, spend.commitment P))) ⊆ witnesses.flatMap (Witness.notes P) := by
    intro note member
    obtain ⟨spend, listed, rfl⟩ := List.mem_map.mp member
    obtain ⟨witness, inside, own⟩ := List.mem_flatMap.mp listed
    obtain ⟨front, back, split⟩ := List.append_of_mem inside
    have found := spend_matches_note clean admissions witnessed nodes front witness back split spend own
    rw [split, List.flatMap_append]
    exact List.mem_append_left _ found
  obtain ⟨subset, arranged, sublist⟩ := opened.subperm created
  have spent : (witnesses.map Witness.spentValue).sum =
      (subset.map (fun note => note.1.toNat)).sum := by
    rw [(arranged.map (fun note : UInt64 × H32 => note.1.toNat)).sum_eq, List.map_map,
      sum_map_flatMap]
    rfl
  have new : (witnesses.map Witness.newValue).sum =
      ((witnesses.flatMap (Witness.notes P)).map (fun note => note.1.toNat)).sum := by
    rw [sum_map_flatMap]
    simp only [Witness.notes_value]
  rw [spent, new]
  exact (sublist.map _).sum_le_sum (fun _ _ => Nat.zero_le _)

/-- Over a list of witnesses the conserved values add up. -/
theorem balanced_sum (witnessed : List.Forall₂ (Witnessed P texts) bundles witnesses) :
    (bundles.map (fun bundle => bundle.vpubIn.toNat)).sum + (witnesses.map Witness.spentValue).sum =
      (bundles.map (fun bundle => bundle.vpubOut.toNat)).sum +
        (witnesses.map Witness.newValue).sum := by
  induction witnessed with
  | nil => rfl
  | cons first _ ih =>
    have balance := first.balanced
    unfold Witness.Balanced at balance
    rw [first.vpubIn, first.vpubOut] at balance
    simp only [List.map_cons, List.sum_cons]
    omega

end Addition.Shielded

namespace Addition

open ByteStrings Checked Shielded

variable {P : Primitives}

/-- The shielded transactions of a list with their bundles. -/
def shieldedOf (transactions : List Transaction) : List (Transaction × Bundle) :=
  transactions.filterMap (fun tx => (bundleOf tx).map (fun bundle => (tx, bundle)))

/-- The bundles of a list of transactions. -/
def bundlesOf (transactions : List Transaction) : List Bundle :=
  (shieldedOf transactions).map Prod.snd

theorem bundlesOf_append (done later : List Transaction) :
    bundlesOf (done ++ later) = bundlesOf done ++ bundlesOf later := by
  simp [bundlesOf, shieldedOf]

theorem bundlesOf_singleton (tx : Transaction) : bundlesOf [tx] = (bundleOf tx).toList := by
  cases carried : bundleOf tx <;> simp [bundlesOf, shieldedOf, carried]

/-- The bundle of a valid transaction is admitted to the pool. -/
theorem admitted_of_valid (chain : Chain) (tx : Transaction)
    (valid : validateTransaction P chain tx false = .ok ()) (bundle : Bundle)
    (carried : bundleOf tx = some bundle) : Admitted chain.shielded bundle ∅ := by
  have fromForm : ∀ other, ShieldedForm chain tx other → Admitted chain.shielded bundle ∅ := by
    intro other form
    obtain rfl : bundle = other :=
      Option.some.inj (carried.symm.trans (bundleOf_decoded tx other form.decoded))
    exact State.check_ok _ _ _ form.checked
  have transparent : tx.shielded ≠ [] := by
    intro empty
    simp [bundleOf_transparent tx empty] at carried
  obtain ⟨_, coinbase | ⟨other, form⟩ | ⟨_, spend⟩⟩ := validateTransaction_forms P chain tx valid
  · exact absurd coinbase.transparent transparent
  · exact fromForm other form.shielded
  · rcases spend.shielded with empty | ⟨other, form⟩
    · exact absurd empty transparent
    · exact fromForm other form

/-- The pool of a state is that of its transactions' bundles, each admitted in turn. -/
structure PoolLedger (P : Primitives) (done : List Transaction) (pool : State) : Prop where
  gathered : PoolOf P (bundlesOf done) pool
  admissions : Admissions P (bundlesOf done)

variable {chain : Chain} {done : List Transaction} {cfg : ChainConfig} {condition : StepCondition}

/-- An applied transaction is put behind the others in the ledger of the pool. -/
theorem PoolLedger.apply {reached : Chain} {tx : Transaction}
    (ledger : PoolLedger P done chain.shielded) (step : applyNext P chain tx = (.ok (), reached)) :
    PoolLedger P (done ++ [tx]) reached.shielded := by
  obtain ⟨_, _, _, applied, _⟩ := applyNext_ok P chain tx reached step
  rw [applied.members.shielded, poolAfter]
  cases carried : bundleOf tx with
  | none =>
    have same : bundlesOf (done ++ [tx]) = bundlesOf done := by
      rw [bundlesOf_append, bundlesOf_singleton, carried]
      simp
    exact ⟨same ▸ ledger.gathered, same ▸ ledger.admissions⟩
  | some bundle =>
    have extended : bundlesOf (done ++ [tx]) = bundlesOf done ++ [bundle] := by
      rw [bundlesOf_append, bundlesOf_singleton, carried]
      rfl
    have admitted := admitted_of_valid chain tx applied.valid bundle carried
    exact ⟨extended ▸ ledger.gathered.apply P bundle ∅ admitted,
      extended ▸ ledger.admissions.extend ledger.gathered admitted⟩

/-- All applied transactions are. -/
theorem PoolLedger.applyLoop {transactions : List Transaction} {applied : Chain}
    (ledger : PoolLedger P done chain.shielded)
    (loop : each (applyNext P) chain transactions = (.ok (), applied)) :
    PoolLedger P (done ++ transactions) applied.shielded := by
  induction transactions generalizing done chain with
  | nil =>
    rw [each_nil_ok] at loop
    simpa [loop] using ledger
  | cons tx rest ih =>
    obtain ⟨next, step, later⟩ := (each_cons_ok _ _ _ _ _).mp loop
    simpa using ih (ledger.apply step) later

theorem slashTickets_shielded (slashes : List SlashEvidence) (chain : Chain) :
    (slashes.foldl Chain.slashTicket chain).shielded = chain.shielded := by
  induction slashes generalizing chain with
  | nil => rfl
  | cons slash rest ih =>
    rw [List.foldl_cons, ih]
    unfold Chain.slashTicket
    split <;> rfl

/-- The pool of a chain is the ledger of what it confirmed. -/
theorem Grown.poolLedger
    (grown : Grown P condition cfg chain) : PoolLedger P chain.confirmed chain.shielded := by
  refine grown.carries (fun chain => PoolLedger P chain.confirmed chain.shielded) ?_ ?_
  · refine ⟨poolOf_new P, ?_⟩
    intro front bundle back split
    simp [Chain.confirmed, Chain.new, makeGenesis, bundlesOf, shieldedOf] at split
  · intro now chain block reached _ ledger _ accepted
    rw [addBlock_confirmed now chain reached block accepted]
    obtain ⟨_, _, _, fees, _, _, applied, went, rfl⟩ := addBlock_ok P now chain block reached accepted
    have entered : PoolLedger P chain.confirmed (chain.entering block).shielded := ledger
    have after := entered.applyLoop went.applied
    have kept := slashTickets_shielded block.slashes { applied with totalFeesLastBlock := fees }
    show PoolLedger P _ (block.slashes.foldl Chain.slashTicket
      { applied with totalFeesLastBlock := fees }).shielded
    rw [kept]
    exact after

/-- Every bundle of a chain was verified. -/
theorem Grown.proved (grown : Grown P condition cfg chain) :
    ∀ tx ∈ chain.confirmed, ∀ bundle, bundleOf tx = some bundle →
      verifyBundleProof P tx bundle = .ok () := by
  refine grown.carries (fun chain => ∀ tx ∈ chain.confirmed, ∀ bundle, bundleOf tx = some bundle →
    verifyBundleProof P tx bundle = .ok ()) (by simp [Chain.confirmed, Chain.new, makeGenesis]) ?_
  intro now chain block reached _ proved _ accepted tx member bundle carried
  rw [addBlock_confirmed now chain reached block accepted] at member
  rcases List.mem_append.mp member with earlier | new
  · exact proved tx earlier bundle carried
  · obtain ⟨coinbase, others, _, _, bundles, _, _, went, _⟩ :=
      addBlock_ok P now chain block reached accepted
    have carries : tx.shielded ≠ [] := by
      intro empty
      simp [bundleOf_transparent tx empty] at carried
    rw [went.valid.transactions] at new
    rcases List.mem_cons.mp new with rfl | other
    · exact absurd went.valid.claim.transparent carries
    · obtain ⟨decoded, field, listed⟩ := shieldedPass_bundle P chain ∅ ∅ others bundles tx
        went.valid.shielded other carries
      obtain rfl : bundle = decoded :=
        Option.some.inj (carried.symm.trans (bundleOf_decoded tx decoded field))
      exact went.valid.proofs _ listed

/-- A decoded bundle has at most four nullifiers. -/
theorem decoded_few (field : Bytes) (bundle : Bundle) (decoded : fromTxField field = .ok bundle) :
    bundle.nullifiers.length ≤ kMaxIn := by
  simp only [fromTxField, bind_ok, exists_unit, ensure_ok] at decoded
  obtain ⟨_, _, decoded⟩ := decoded
  unfold deserialize at decoded
  split at decoded
  · rename_i found read
    obtain rfl := Except.ok.inj decoded
    unfold readBundle at read
    obtain ⟨⟨_, _⟩, _, read⟩ := Option.bind_eq_some_iff.mp read
    dsimp only at read
    split at read
    · simp at read
    · obtain ⟨⟨_, _⟩, _, read⟩ := Option.bind_eq_some_iff.mp read
      obtain ⟨⟨_, _⟩, _, read⟩ := Option.bind_eq_some_iff.mp read
      obtain ⟨⟨_, _⟩, _, read⟩ := Option.bind_eq_some_iff.mp read
      obtain ⟨⟨count, _⟩, counted, read⟩ := Option.bind_eq_some_iff.mp read
      obtain ⟨⟨nullifiers, _⟩, listed, read⟩ := Option.bind_eq_some_iff.mp read
      obtain ⟨⟨_, _⟩, _, read⟩ := Option.bind_eq_some_iff.mp read
      obtain ⟨⟨_, _⟩, _, read⟩ := Option.bind_eq_some_iff.mp read
      obtain ⟨⟨_, _⟩, _, read⟩ := Option.bind_eq_some_iff.mp read
      dsimp only at read
      split at read
      · simp at read
      · obtain ⟨⟨_, _⟩, _, read⟩ := Option.bind_eq_some_iff.mp read
        obtain ⟨⟨_, _⟩, _, read⟩ := Option.bind_eq_some_iff.mp read
        obtain ⟨rfl, _⟩ := Prod.mk.inj (Option.some.inj read)
        dsimp only
        have width := Wire.readMany_length readH32 count _ _ _ listed
        rw [width]
        unfold Wire.getCount at counted
        split at counted
        · split at counted
          · rename_i within
            obtain ⟨rfl, _⟩ := Prod.mk.inj (Option.some.inj counted)
            exact within
          · simp at counted
        · simp at counted
  · simp at decoded

/-- What is assumed of the linked libraries on a chain: among some texts SHA-256 has
no collision and no zero digest; each verified bundle of the chain has a witness
whose evaluation gives its journal and hashes such texts only; and so does the
commitment tree. -/
structure PoolAssumptions (P : Primitives) (chain : Chain) (texts : Set Bytes) : Prop where
  clean : CleanDigest P texts
  sound : ∀ tx ∈ chain.confirmed, ∀ bundle, bundleOf tx = some bundle →
    verifyBundleProof P tx bundle = .ok () →
    ∃ octets, evaluate P octets = .ok (expectedJournal (bindHash P tx bundle) bundle) ∧
      hashedBy P octets ⊆ texts
  nodes : treeTexts P chain.shielded.tree.leaves ⊆ texts

/-- A shielded transaction and a witness whose evaluation gives its journal. -/
def Proves (P : Primitives) (applied : Transaction × Bundle) (witness : Witness) : Prop :=
  evaluate P witness.text = .ok (expectedJournal (bindHash P applied.1 applied.2) applied.2)

/-- Every bundle of a chain has a witness. -/
theorem witnesses_exist {texts : Set Bytes}
    (sound : ∀ tx ∈ chain.confirmed, ∀ bundle, bundleOf tx = some bundle →
      verifyBundleProof P tx bundle = .ok () →
      ∃ octets, evaluate P octets = .ok (expectedJournal (bindHash P tx bundle) bundle) ∧
        hashedBy P octets ⊆ texts)
    (proved : ∀ tx ∈ chain.confirmed, ∀ bundle, bundleOf tx = some bundle →
      verifyBundleProof P tx bundle = .ok ()) :
    ∃ witnesses : List Witness,
      List.Forall₂ (Proves P) (shieldedOf chain.confirmed) witnesses ∧
      List.Forall₂ (Witnessed P texts) (bundlesOf chain.confirmed) witnesses := by
  have single : ∀ applied ∈ shieldedOf chain.confirmed,
      ∃ witness, Proves P applied witness ∧ Witnessed P texts applied.2 witness := by
    rintro ⟨tx, bundle⟩ member
    obtain ⟨source, listed, carried⟩ := List.mem_filterMap.mp member
    obtain ⟨found, decoded, same⟩ := Option.map_eq_some_iff.mp carried
    obtain ⟨rfl, rfl⟩ := Prod.mk.inj same
    obtain ⟨octets, accepted, hashed⟩ :=
      sound source listed found decoded (proved source listed found decoded)
    have field : fromTxField source.shielded = .ok found := by
      unfold bundleOf at decoded
      cases outcome : fromTxField source.shielded with
      | error refusal => simp [outcome, Except.toOption] at decoded
      | ok value => rw [outcome] at decoded; exact congrArg _ (Option.some.inj decoded)
    obtain ⟨witness, rfl, witnessed⟩ := witnessed_of_journal P texts _ found octets
      (decoded_few _ _ field) accepted hashed
    exact ⟨witness, accepted, witnessed⟩
  unfold bundlesOf
  generalize shieldedOf chain.confirmed = applied at single
  induction applied with
  | nil => exact ⟨[], .nil, .nil⟩
  | cons first rest ih =>
    obtain ⟨witness, proves, witnessed⟩ := single first (by simp)
    obtain ⟨later, provesLater, witnessedLater⟩ :=
      ih (fun other member => single other (by simp [member]))
    exact ⟨witness :: later, .cons proves provesLater, .cons witnessed witnessedLater⟩

/-- In every run no more value leaves the pool than entered it. -/
theorem Grown.solvent {texts : Set Bytes} (grown : Grown P condition cfg chain)
    (assumed : PoolAssumptions P chain texts) :
    ((bundlesOf chain.confirmed).map (fun bundle => bundle.vpubOut.toNat)).sum ≤
      ((bundlesOf chain.confirmed).map (fun bundle => bundle.vpubIn.toNat)).sum := by
  have ledger := grown.poolLedger
  obtain ⟨witnesses, _, witnessed⟩ := witnesses_exist assumed.sound grown.proved
  have nodes := assumed.nodes
  rw [ledger.gathered.leaves] at nodes
  have created := spent_le_created assumed.clean ledger.admissions witnessed nodes
  have balance := balanced_sum witnessed
  omega

/-- No more value leaves the pool than entered it. The bundles of the chain have
witnesses such that each spent note is one that an earlier bundle appended, with
its value, and distinct spent nullifiers belong to distinct commitments. -/
theorem pool_solvent (P : Primitives) (cfg : ChainConfig) (chain : Chain) (texts : Set Bytes)
    (reachable : Reachable P cfg chain) (assumed : PoolAssumptions P chain texts) :
    ((bundlesOf chain.confirmed).map (fun bundle => bundle.vpubOut.toNat)).sum ≤
      ((bundlesOf chain.confirmed).map (fun bundle => bundle.vpubIn.toNat)).sum ∧
    ∃ witnesses : List Witness,
      List.Forall₂ (Proves P) (shieldedOf chain.confirmed) witnesses ∧
      ∃ note : H32 → H32,
        Set.InjOn note {nullifier | hex32 nullifier ∈ chain.shielded.nfs} ∧
        ∀ front witness back, witnesses = front ++ witness :: back →
          ∀ spend ∈ witness.spends, hex32 (spend.nullifier P) ∈ chain.shielded.nfs ∧
            (spend.value, note (spend.nullifier P)) ∈ front.flatMap (Witness.notes P) := by
  classical
  have grown := reachable.grown
  have ledger := grown.poolLedger
  obtain ⟨witnesses, proves, witnessed⟩ := witnesses_exist assumed.sound grown.proved
  have nodes := assumed.nodes
  rw [ledger.gathered.leaves] at nodes
  have nullifiers := nullifiers_of_bundles witnessed
  have spentIff : ∀ nullifier, hex32 nullifier ∈ chain.shielded.nfs ↔
      ∃ spend ∈ witnesses.flatMap Witness.spends, spend.nullifier P = nullifier := by
    intro nullifier
    rw [ledger.gathered.nullifiers, ← List.mem_flatMap, ← nullifiers,
      show witnesses.flatMap (Witness.nullifiers P) =
        (witnesses.flatMap Witness.spends).map (SpendWitness.nullifier P) by
        rw [List.map_flatMap]; rfl, List.mem_map]
  have distinct : ((witnesses.flatMap Witness.spends).map (SpendWitness.nullifier P)).Nodup := by
    rw [List.map_flatMap]
    exact nullifiers ▸ ledger.admissions.nullifiers_distinct
  -- the note of a nullifier is the commitment that its spend opens
  let note : H32 → H32 := fun nullifier =>
    if spent : ∃ spend ∈ witnesses.flatMap Witness.spends, spend.nullifier P = nullifier then
      spent.choose.commitment P
    else zeroH32
  have noteOf : ∀ spend ∈ witnesses.flatMap Witness.spends,
      note (spend.nullifier P) = spend.commitment P := by
    intro spend member
    have spent : ∃ other ∈ witnesses.flatMap Witness.spends,
        other.nullifier P = spend.nullifier P := ⟨spend, member, rfl⟩
    have same : spent.choose = spend := List.inj_on_of_nodup_map distinct spent.choose_spec.1 member
      spent.choose_spec.2
    show (if found : _ then _ else _) = _
    rw [dif_pos spent, same]
  refine ⟨grown.solvent assumed, witnesses, proves, note, ?_, ?_⟩
  · intro nullifier member nullifier' member' same
    obtain ⟨spend, listed, rfl⟩ := (spentIff nullifier).mp member
    obtain ⟨spend', listed', rfl⟩ := (spentIff nullifier').mp member'
    rw [noteOf spend listed, noteOf spend' listed'] at same
    exact spends_open_distinct assumed.clean witnessed spend spend' listed listed' same
  · intro front witness back split spend member
    have listed : spend ∈ witnesses.flatMap Witness.spends :=
      List.mem_flatMap.mpr ⟨witness, by simp [split], member⟩
    refine ⟨(spentIff _).mpr ⟨spend, listed, rfl⟩, ?_⟩
    rw [noteOf spend listed]
    exact spend_matches_note assumed.clean ledger.admissions witnessed nodes front witness back split
      spend member

/-! ### A deposit and a withdrawal -/

/-- The sample libraries with a verifier that takes a receipt for its journal. -/
def depositPrimitives : Primitives :=
  { samplePrimitives with decodeReceipt := some (fun receipt => some ⟨true, receipt, true⟩) }

/-- The regression network with the pool. -/
def shieldedRegtest : ChainConfig := { regtestChainConfig with shieldedEnabled := true }

/-- The block that pays the depositor. -/
def depositFirst : Block :=
  blockOn depositPrimitives (Chain.new depositPrimitives shieldedRegtest) [scriptCoinbase]

/-- The state after it. -/
def depositTip : Chain :=
  stateAfter depositPrimitives (Chain.new depositPrimitives shieldedRegtest) depositFirst

/-- The tag of the one who owns all notes of the run. -/
def holderTag : H32 := ownerTag depositPrimitives zeroH32

/-- A spend by a script that moves its value into the pool, without its bundle. -/
def depositFrame : Transaction :=
  ⟨[⟨hashTransaction depositPrimitives scriptCoinbase, 0, ascii "after(0);0;0;"⟩], [], [], [], [], 1, 0, []⟩

/-- The bundle of the deposit without its proof. -/
def depositBare : Bundle := ⟨49, 0, zeroH32, [], [], [⟨[], []⟩, ⟨[], []⟩], []⟩

/-- Forty-nine coins become a note of thirty and one of nineteen. -/
def depositWitness : Witness :=
  ⟨bindHash depositPrimitives depositFrame depositBare, 49, 0, [],
    [⟨30, holderTag, zeroH32⟩, ⟨19, holderTag, zeroH32⟩]⟩

/-- The bundle of the deposit. -/
def depositBundle : Bundle :=
  { depositBare with
    commitments := depositWitness.commitments depositPrimitives
    proof := depositWitness.journal depositPrimitives zeroH32 }

/-- The transaction of the deposit. -/
def deposit : Transaction := { depositFrame with shielded := toTxField depositBundle }

/-- The block of the deposit. -/
def depositSecond : Block :=
  blockOn depositPrimitives depositTip [coinbaseOf [⟨ascii "miner", 50⟩] 1, deposit]

/-- The state after the deposit. -/
def deposited : Chain := stateAfter depositPrimitives depositTip depositSecond

/-- A payment out of the pool, without its bundle. -/
def withdrawFrame : Transaction := ⟨[], [⟨ascii "payee", 29⟩], [], [], [], 1, 0, []⟩

/-- The bundle of the payment without its proof. -/
def withdrawBare : Bundle := ⟨0, 30, zeroH32, [], [], [], []⟩

/-- The spend of the first note, with the path that a wallet reads off the layers. -/
def withdrawSpend : SpendWitness :=
  ⟨zeroH32, 30, outputRho depositPrimitives depositWitness.bind [] 0, zeroH32, 0,
    PaddedTrees.siblings (Shielded.merkleNode depositPrimitives) zeroH32 kTreeDepth 0 0
      depositBundle.commitments⟩

/-- Its thirty coins leave the pool. -/
def withdrawWitness : Witness :=
  ⟨bindHash depositPrimitives withdrawFrame withdrawBare, 0, 30, [withdrawSpend], []⟩

/-- The bundle of the payment. -/
def withdrawBundle : Bundle :=
  { withdrawBare with
    anchor := withdrawSpend.root depositPrimitives
    nullifiers := withdrawWitness.nullifiers depositPrimitives
    proof := withdrawWitness.journal depositPrimitives (withdrawSpend.root depositPrimitives) }

/-- The transaction of the payment. -/
def withdrawal : Transaction := { withdrawFrame with shielded := toTxField withdrawBundle }

/-- The block of the payment. -/
def withdrawThird : Block :=
  blockOn depositPrimitives deposited [coinbaseOf [⟨ascii "miner", 50⟩] 2, withdrawal]

/-- The state after both. -/
def withdrawn : Chain := stateAfter depositPrimitives deposited withdrawThird

/-- What the two witnesses and the tree hash. The spend opens a text of the deposit, and
its path joins nodes of the tree. -/
def poolTexts : List Bytes :=
  [ascii "ADD/owner/v1" ++ zeroH32.val, ascii "ADD/nf/v1" ++ zeroH32.val ++ withdrawSpend.rho.val] ++
    depositWitness.texts depositPrimitives ++ layerTexts depositPrimitives depositBundle.commitments

set_option maxRecDepth 100000 in
theorem pool_evaluated :
    (addBlock depositPrimitives epoch (Chain.new depositPrimitives shieldedRegtest)
      depositFirst).1.isOk = true ∧
    (addBlock depositPrimitives epoch depositTip depositSecond).1.isOk = true ∧
    (addBlock depositPrimitives epoch deposited withdrawThird).1.isOk = true ∧
    bundleOf deposit = some depositBundle ∧ bundleOf withdrawal = some withdrawBundle ∧
    depositWitness.journal depositPrimitives zeroH32 =
      expectedJournal (bindHash depositPrimitives deposit depositBundle) depositBundle ∧
    withdrawWitness.journal depositPrimitives withdrawBundle.anchor =
      expectedJournal (bindHash depositPrimitives withdrawal withdrawBundle) withdrawBundle := by
  decide +kernel

set_option maxRecDepth 100000 in
theorem poolTexts_clean :
    (poolTexts.map depositPrimitives.sha256).Nodup ∧
      ∀ text ∈ poolTexts, depositPrimitives.sha256 text ≠ zeroH32 := by
  decide +kernel

theorem depositFirst_accepted :
    addBlock depositPrimitives epoch (Chain.new depositPrimitives shieldedRegtest) depositFirst =
      (.ok (), depositTip) :=
  stateAfter_accepted pool_evaluated.1

theorem depositSecond_accepted :
    addBlock depositPrimitives epoch depositTip depositSecond = (.ok (), deposited) :=
  stateAfter_accepted pool_evaluated.2.1

theorem withdrawThird_accepted :
    addBlock depositPrimitives epoch deposited withdrawThird = (.ok (), withdrawn) :=
  stateAfter_accepted pool_evaluated.2.2.1

theorem deposited_reachable : Reachable depositPrimitives shieldedRegtest deposited :=
  ((Reachable.start _ _).step epoch _ _ depositFirst_accepted).step epoch _ _ depositSecond_accepted

theorem withdrawn_reachable : Reachable depositPrimitives shieldedRegtest withdrawn :=
  deposited_reachable.step epoch _ _ withdrawThird_accepted

theorem deposited_confirmed :
    deposited.confirmed = [scriptCoinbase, coinbaseOf [⟨ascii "miner", 50⟩] 1, deposit] := by
  rw [addBlock_confirmed epoch _ _ _ depositSecond_accepted,
    addBlock_confirmed epoch _ _ _ depositFirst_accepted]
  rfl

theorem withdrawn_confirmed :
    withdrawn.confirmed = [scriptCoinbase, coinbaseOf [⟨ascii "miner", 50⟩] 1, deposit,
      coinbaseOf [⟨ascii "miner", 50⟩] 2, withdrawal] := by
  rw [addBlock_confirmed epoch _ _ _ withdrawThird_accepted, deposited_confirmed]
  rfl

theorem shieldedOf_cons (tx : Transaction) (rest : List Transaction) :
    shieldedOf (tx :: rest) = ((bundleOf tx).map (fun bundle => (tx, bundle))).toList ++
      shieldedOf rest := by
  unfold shieldedOf
  cases found : bundleOf tx <;> simp [found]

theorem deposited_shielded : shieldedOf deposited.confirmed = [(deposit, depositBundle)] := by
  obtain ⟨_, _, _, carried, _⟩ := pool_evaluated
  rw [deposited_confirmed]
  simp only [shieldedOf_cons, carried, bundleOf_transparent scriptCoinbase rfl,
    bundleOf_transparent (coinbaseOf _ _) rfl]
  rfl

theorem withdrawn_shielded :
    shieldedOf withdrawn.confirmed = [(deposit, depositBundle), (withdrawal, withdrawBundle)] := by
  obtain ⟨_, _, _, carried, carried', _⟩ := pool_evaluated
  rw [withdrawn_confirmed]
  simp only [shieldedOf_cons, carried, carried', bundleOf_transparent scriptCoinbase rfl,
    bundleOf_transparent (coinbaseOf _ _) rfl]
  rfl

theorem depositWitness_formed : WellFormed depositPrimitives depositWitness zeroH32 := by
  refine ⟨by decide, by decide, ?_, ?_, ?_, fun _ => rfl, ?_⟩ <;>
    simp [depositWitness, Witness.nullifiers]

theorem withdrawWitness_formed :
    WellFormed depositPrimitives withdrawWitness withdrawBundle.anchor := by
  refine ⟨by decide, by decide, ?_, ?_, ?_, ?_, ?_⟩ <;>
    simp [withdrawWitness, Witness.nullifiers, withdrawSpend, PaddedTrees.siblings_length,
      withdrawBundle]

/-- The texts of both witnesses are listed. -/
theorem poolTexts_listed :
    (∀ text ∈ depositWitness.texts depositPrimitives, text ∈ poolTexts) ∧
      (∀ text ∈ withdrawWitness.texts depositPrimitives, text ∈ poolTexts) ∧
      treeTexts depositPrimitives depositBundle.commitments ⊆ {text | text ∈ poolTexts} := by
  have tree : treeTexts depositPrimitives depositBundle.commitments ⊆ {text | text ∈ poolTexts} :=
    fun text hashed => List.mem_append_right _ (treeTexts_listed depositPrimitives _ hashed)
  refine ⟨fun text member => by simp [poolTexts, member], ?_, tree⟩
  intro text member
  simp only [withdrawWitness, Witness.texts, List.flatMap_cons, List.flatMap_nil, List.append_nil,
    outputTexts, SpendWitness.texts, List.mem_append, List.mem_cons, List.not_mem_nil, or_false,
    List.mem_map] at member
  rcases member with (rfl | rfl | rfl) | ⟨pair, joined, rfl⟩
  · exact List.mem_append_left _ (List.mem_append_left _ (List.mem_cons_self ..))
  · refine List.mem_append_left _ (List.mem_append_right _ ?_)
    exact List.mem_cons_of_mem _ (List.mem_cons_self ..)
  · exact List.mem_append_left _ (List.mem_append_left _ (by simp [withdrawSpend]))
  · refine tree ⟨2, pair, ?_, rfl⟩
    have path := PaddedTrees.pathPairs_siblings (Shielded.merkleNode depositPrimitives) zeroH32
      depositBundle.commitments 0 kTreeDepth 0 depositBundle.commitments (fun _ => rfl) pair
    exact path joined

/-- A chain with these bundles and leaves meets the assumptions. -/
theorem pool_assumed (leaves : chain.shielded.tree.leaves = depositBundle.commitments)
    (carried : ∀ applied ∈ shieldedOf chain.confirmed,
      applied = (deposit, depositBundle) ∨ applied = (withdrawal, withdrawBundle)) :
    PoolAssumptions depositPrimitives chain {text | text ∈ poolTexts} := by
  obtain ⟨distinct, nonzero⟩ := poolTexts_clean
  obtain ⟨deposits, withdraws, tree⟩ := poolTexts_listed
  obtain ⟨_, _, _, _, _, journal, journal'⟩ := pool_evaluated
  refine ⟨⟨?_, nonzero⟩, ?_, leaves ▸ tree⟩
  · intro text member text' member' same
    exact List.inj_on_of_nodup_map distinct member member' same
  · intro tx member bundle found _
    have listed : (tx, bundle) ∈ shieldedOf chain.confirmed :=
      List.mem_filterMap.mpr ⟨tx, member, by rw [found]; rfl⟩
    rcases carried _ listed with same | same
    · obtain ⟨rfl, rfl⟩ := Prod.mk.inj same
      refine ⟨depositWitness.text, ?_, (hashedBy_text _ _ _ depositWitness_formed).trans deposits⟩
      rw [evaluate_text depositPrimitives depositWitness zeroH32 depositWitness_formed,
        if_pos (by decide), journal]
    · obtain ⟨rfl, rfl⟩ := Prod.mk.inj same
      refine ⟨withdrawWitness.text, ?_, (hashedBy_text _ _ _ withdrawWitness_formed).trans withdraws⟩
      rw [evaluate_text depositPrimitives withdrawWitness _ withdrawWitness_formed,
        if_pos (by decide), journal']

theorem deposited_leaves : deposited.shielded.tree.leaves = depositBundle.commitments := by
  rw [deposited_reachable.grown.poolLedger.gathered.leaves, bundlesOf, deposited_shielded]
  exact List.append_nil _

theorem withdrawn_leaves : withdrawn.shielded.tree.leaves = depositBundle.commitments := by
  rw [withdrawn_reachable.grown.poolLedger.gathered.leaves, bundlesOf, withdrawn_shielded]
  exact List.append_nil _

/-- The assumptions hold after the deposit. -/
theorem deposited_assumptions :
    PoolAssumptions depositPrimitives deposited {text | text ∈ poolTexts} := by
  refine pool_assumed deposited_leaves fun applied member => .inl ?_
  rw [deposited_shielded] at member
  exact List.mem_singleton.mp member

/-- The assumptions hold after the payment. -/
theorem withdrawn_assumptions :
    PoolAssumptions depositPrimitives withdrawn {text | text ∈ poolTexts} := by
  refine pool_assumed withdrawn_leaves fun applied member => ?_
  rw [withdrawn_shielded] at member
  simpa using member

/-- After a deposit of forty-nine coins and a withdrawal of thirty the pool is solvent, and
the spent nullifier belongs to a note of an earlier bundle with the value that was spent. -/
theorem withdrawn_solvent :
    hex32 (withdrawSpend.nullifier depositPrimitives) ∈ withdrawn.shielded.nfs ∧
      ((bundlesOf withdrawn.confirmed).map (fun bundle => bundle.vpubOut.toNat)).sum ≤
        ((bundlesOf withdrawn.confirmed).map (fun bundle => bundle.vpubIn.toNat)).sum ∧
      ∃ witnesses : List Witness,
        List.Forall₂ (Proves depositPrimitives) [(deposit, depositBundle), (withdrawal, withdrawBundle)]
          witnesses ∧
        ∃ note : H32 → H32,
          Set.InjOn note {nullifier | hex32 nullifier ∈ withdrawn.shielded.nfs} ∧
          ∀ front witness back, witnesses = front ++ witness :: back → ∀ spend ∈ witness.spends,
            hex32 (spend.nullifier depositPrimitives) ∈ withdrawn.shielded.nfs ∧
              (spend.value, note (spend.nullifier depositPrimitives)) ∈
                front.flatMap (Witness.notes depositPrimitives) := by
  have solvent := pool_solvent depositPrimitives shieldedRegtest withdrawn _ withdrawn_reachable
    withdrawn_assumptions
  rw [withdrawn_shielded] at solvent
  refine ⟨?_, solvent⟩
  rw [withdrawn_reachable.grown.poolLedger.gathered.nullifiers, bundlesOf, withdrawn_shielded]
  exact ⟨withdrawBundle, by simp, List.mem_singleton_self _⟩

end Addition
