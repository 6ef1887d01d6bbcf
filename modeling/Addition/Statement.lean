import Addition.Pool
import Addition.Readers

/-!
# The shielded statement

`evaluate` of `shielded_stark/core`: what the proof system proves. It reads a
witness of spent notes with their sibling paths and of new notes, and returns the
journal of public values, or an error. The sums are 128-bit in the source and add
at most five words, so they are plain naturals.

A witness that evaluates to a journal satisfies the statement, and conversely the
octets written for a witness that satisfies all of it but the value equation
evaluate to the journal exactly when the values balance.
-/

namespace Addition.Shielded

open ByteStrings Checked

/-- The private part of one spent note. -/
structure SpendWitness where
  nk : H32
  value : UInt64
  rho : H32
  r : H32
  pos : UInt64
  siblings : List H32

/-- The private part of one new note. -/
structure OutputWitness where
  value : UInt64
  owner : H32
  r : H32

/-- The private and the public part of a statement. -/
structure Witness where
  bind : H32
  vpubIn : UInt64
  vpubOut : UInt64
  spends : List SpendWitness
  outputs : List OutputWitness

variable (P : Primitives)

/-- `merkle_root_from_path`. -/
def merkleRootFromPath (leaf : H32) (pos : UInt64) (siblings : List H32) : H32 :=
  PaddedTrees.foldPath (merkleNode P) pos.toNat 0 leaf siblings

/-- The commitment that a spend opens. -/
def SpendWitness.commitment (spend : SpendWitness) : H32 :=
  noteCommitment P spend.value (ownerTag P spend.nk) spend.rho spend.r

/-- The nullifier of a spend. -/
def SpendWitness.nullifier (spend : SpendWitness) : H32 := Shielded.nullifier P spend.nk spend.rho

/-- The root that a spend folds to. -/
def SpendWitness.root (spend : SpendWitness) : H32 :=
  merkleRootFromPath P (spend.commitment P) spend.pos spend.siblings

/-- The commitment of a new note at its position. -/
def OutputWitness.commitment (output : OutputWitness) (bind : H32) (nullifiers : List H32)
    (index : Nat) : H32 :=
  noteCommitment P output.value output.owner (outputRho P bind nullifiers index) output.r

/-! ### Evaluation -/

/-- The octets of one spend up to its position. -/
def readSpendFields (input : Bytes) : Option ((H32 × UInt64 × H32 × H32 × UInt64) × Bytes) := do
  let (nk, input) ← readH32 input
  let (value, input) ← Wire.getU64 input
  let (rho, input) ← readH32 input
  let (r, input) ← readH32 input
  let (pos, input) ← Wire.getU64 input
  pure ((nk, value, rho, r, pos), input)

/-- One spend. The position is tested before the siblings are read. -/
def readSpend (input : Bytes) : Except String (SpendWitness × Bytes) := do
  let ((nk, value, rho, r, pos), input) ← Wire.orError "malformed witness" (readSpendFields input)
  ensure (decide (pos.toNat < 2 ^ kTreeDepth)) "position out of range"
  let (siblings, input) ← Wire.orError "malformed witness"
    (Wire.readMany readH32 kTreeDepth input)
  pure (⟨nk, value, rho, r, pos, siblings⟩, input)

/-- One new note. -/
def readOutputWitness (input : Bytes) : Option (OutputWitness × Bytes) := do
  let (value, input) ← Wire.getU64 input
  let (owner, input) ← readH32 input
  let (r, input) ← readH32 input
  pure (⟨value, owner, r⟩, input)

/-- What the loop over the spends accumulates. -/
structure Tally where
  anchor : H32
  nfs : List H32
  sumIn : Nat

/-- One round of the loop over the spends; the first one sets the anchor. -/
def tallySpend (k : Nat) (tally : Tally) (spend : SpendWitness) : Except String Tally := do
  ensure (decide (k = 0 ∨ spend.root P = tally.anchor)) "inputs use different anchors"
  ensure (decide (spend.nullifier P ∉ tally.nfs)) "duplicate nullifier"
  pure ⟨if k = 0 then spend.root P else tally.anchor, tally.nfs ++ [spend.nullifier P],
    tally.sumIn + spend.value.toNat⟩

/-- The loop over the spends, with those still to come and the round. -/
def tallySpends : Nat → Nat → Tally → Bytes → Except String (Tally × Bytes)
  | 0, _, tally, input => .ok (tally, input)
  | count + 1, k, tally, input => do
    let (spend, input) ← readSpend input
    let tally ← tallySpend P k tally spend
    tallySpends count (k + 1) tally input

/-- The loop over the new notes, returning their commitments and the sum. -/
def tallyOutputs (bind : H32) (nfs : List H32) :
    Nat → Nat → List H32 × Nat → Bytes → Except String ((List H32 × Nat) × Bytes)
  | 0, _, tally, input => .ok (tally, input)
  | count + 1, j, (cms, sumOut), input => do
    let (output, input) ← Wire.orError "malformed witness" (readOutputWitness input)
    tallyOutputs bind nfs count (j + 1)
      (cms ++ [output.commitment P bind nfs j], sumOut + output.value.toNat) input

/-- The public fields at the front of a witness. -/
def readPublic (input : Bytes) : Option ((H32 × UInt64 × UInt64 × Nat) × Bytes) := do
  let (bind, input) ← readH32 input
  let (vpubIn, input) ← Wire.getU64 input
  let (vpubOut, input) ← Wire.getU64 input
  let (nIn, input) ← Wire.getU32 input
  pure ((bind, vpubIn, vpubOut, nIn), input)

/-- `evaluate`. -/
def evaluate (witness : Bytes) : Except String Bytes := do
  let ((bind, vpubIn, vpubOut, nIn), input) ←
    Wire.orError "malformed witness" (readPublic witness)
  ensure (decide (nIn ≤ kMaxIn)) "too many inputs"
  let (tally, input) ← tallySpends P nIn 0 ⟨zeroH32, [], vpubIn.toNat⟩ input
  let (nOut, input) ← Wire.orError "malformed witness" (Wire.getU32 input)
  ensure (decide (nOut ≤ kMaxOut)) "too many outputs"
  let ((cms, sumOut), input) ← tallyOutputs P bind tally.nfs nOut 0 ([], vpubOut.toNat) input
  ensure input.isEmpty "trailing witness bytes"
  ensure (decide (tally.sumIn = sumOut)) "value not conserved"
  pure (journalText bind tally.anchor vpubIn vpubOut tally.nfs cms)

/-! ### What a witness says -/

/-- The nullifiers of a witness. -/
def Witness.nullifiers (witness : Witness) : List H32 :=
  witness.spends.map (SpendWitness.nullifier P)

/-- The commitments of the new notes from some position on. -/
def commitmentsFrom (bind : H32) (nfs : List H32) : Nat → List OutputWitness → List H32
  | _, [] => []
  | j, output :: rest => output.commitment P bind nfs j :: commitmentsFrom bind nfs (j + 1) rest

/-- The commitments of a witness. -/
def Witness.commitments (witness : Witness) : List H32 :=
  commitmentsFrom P witness.bind (witness.nullifiers P) 0 witness.outputs

/-- The value of the spent notes. -/
def Witness.spentValue (witness : Witness) : Nat :=
  (witness.spends.map (fun spend => spend.value.toNat)).sum

/-- The value of the new notes. -/
def Witness.newValue (witness : Witness) : Nat :=
  (witness.outputs.map (fun output => output.value.toNat)).sum

/-- Everything the statement asks of a witness but the value equation. -/
structure WellFormed (witness : Witness) (anchor : H32) : Prop where
  fewSpends : witness.spends.length ≤ kMaxIn
  fewOutputs : witness.outputs.length ≤ kMaxOut
  positions : ∀ spend ∈ witness.spends, spend.pos.toNat < 2 ^ kTreeDepth
  paths : ∀ spend ∈ witness.spends, spend.siblings.length = kTreeDepth
  anchored : ∀ spend ∈ witness.spends, spend.root P = anchor
  unanchored : witness.spends = [] → anchor = zeroH32
  distinct : (witness.nullifiers P).Nodup

/-- The value equation of the statement. -/
def Witness.Balanced (witness : Witness) : Prop :=
  witness.vpubIn.toNat + witness.spentValue = witness.vpubOut.toNat + witness.newValue

instance (witness : Witness) : Decidable witness.Balanced :=
  inferInstanceAs (Decidable (_ = _))

/-- The journal of a witness. -/
def Witness.journal (witness : Witness) (anchor : H32) : Bytes :=
  journalText witness.bind anchor witness.vpubIn witness.vpubOut (witness.nullifiers P)
    (witness.commitments P)

/-! ### The octets of a witness -/

/-- The octets of one spend. -/
def SpendWitness.text (spend : SpendWitness) : Bytes :=
  spend.nk.val ++ Wire.putU64 spend.value ++ spend.rho.val ++ spend.r.val ++
    Wire.putU64 spend.pos ++ putDigests spend.siblings

/-- The octets of one new note. -/
def OutputWitness.text (output : OutputWitness) : Bytes :=
  Wire.putU64 output.value ++ output.owner.val ++ output.r.val

/-- The octets of a witness. -/
def Witness.text (witness : Witness) : Bytes :=
  witness.bind.val ++ Wire.putU64 witness.vpubIn ++ Wire.putU64 witness.vpubOut ++
    Wire.putU32 witness.spends.length ++ witness.spends.flatMap SpendWitness.text ++
    Wire.putU32 witness.outputs.length ++ witness.outputs.flatMap OutputWitness.text

open Wire in
/-- A spend is read exactly off its text. -/
theorem readSpend_ok (input : Bytes) (spend : SpendWitness) (rest : Bytes) :
    readSpend input = .ok (spend, rest) ↔
      input = spend.text ++ rest ∧ spend.pos.toNat < 2 ^ kTreeDepth ∧
        spend.siblings.length = kTreeDepth := by
  constructor
  · intro read
    simp only [readSpend, readSpendFields, Option.bind_eq_bind, Option.pure_def, bind_ok,
      exists_unit, ensure_ok, orError_ok, decide_eq_true_eq, Option.bind_eq_some_iff,
      Option.some.injEq, pure_ok, Prod.exists, Prod.mk.injEq] at read
    obtain ⟨_, _, _, _, _, _, ⟨nk, _, readNk, value, _, readValue, rho, _, readRho, r, _, readR, pos,
      _, readPos, ⟨rfl, rfl, rfl, rfl, rfl⟩, rfl⟩, inRange, siblings, _, readSiblings, rfl, rfl⟩ := read
    have width := readMany_length readH32 kTreeDepth _ _ _ readSiblings
    refine ⟨?_, inRange, width⟩
    rw [readH32_reflects _ _ _ readNk, getU64_reflects _ _ _ readValue,
      readH32_reflects _ _ _ readRho, readH32_reflects _ _ _ readR, getU64_reflects _ _ _ readPos,
      readMany_reflects readH32_reflects kTreeDepth _ _ _ readSiblings]
    simp [SpendWitness.text, putDigests]
  · rintro ⟨rfl, inRange, width⟩
    have path := readDigests_restores spend.siblings rest
    rw [width] at path
    have fields : readSpendFields (spend.text ++ rest) =
        some ((spend.nk, spend.value, spend.rho, spend.r, spend.pos),
          putDigests spend.siblings ++ rest) := by
      simp only [readSpendFields, SpendWitness.text, List.append_assoc, readH32_restores _ _,
        getU64_restores _ _, Option.bind_eq_bind, Option.bind_some, Option.pure_def]
    simp only [readSpend, bind_ok, exists_unit, ensure_ok, orError_ok, decide_eq_true_eq, pure_ok]
    exact ⟨_, fields, inRange, _, path, rfl⟩

open Wire in
/-- An output is read exactly off its text. -/
theorem readOutputWitness_ok (input : Bytes) (output : OutputWitness) (rest : Bytes) :
    readOutputWitness input = some (output, rest) ↔ input = output.text ++ rest := by
  constructor
  · intro read
    simp only [readOutputWitness, Option.bind_eq_bind, Option.pure_def, Option.bind_eq_some_iff,
      Option.some.injEq, Prod.exists, Prod.mk.injEq] at read
    obtain ⟨value, _, readValue, owner, _, readOwner, r, _, readR, rfl, rfl⟩ := read
    rw [getU64_reflects _ _ _ readValue, readH32_reflects _ _ _ readOwner,
      readH32_reflects _ _ _ readR]
    simp [OutputWitness.text]
  · rintro rfl
    simp only [readOutputWitness, OutputWitness.text, List.append_assoc, readH32_restores _ _,
      getU64_restores _ _, Option.bind_eq_bind, Option.bind_some, Option.pure_def]

/-! ### The loops -/

/-- What a list of spends does to a tally, from some round on. -/
structure Tallied (k : Nat) (tally : Tally) (spends : List SpendWitness) (after : Tally) : Prop where
  positions : ∀ spend ∈ spends, spend.pos.toNat < 2 ^ kTreeDepth
  paths : ∀ spend ∈ spends, spend.siblings.length = kTreeDepth
  anchored : ∀ spend ∈ spends, spend.root P = after.anchor
  kept : k ≠ 0 ∨ spends = [] → after.anchor = tally.anchor
  nfs : after.nfs = tally.nfs ++ spends.map (SpendWitness.nullifier P)
  distinct : tally.nfs.Nodup → after.nfs.Nodup
  sumIn : after.sumIn = tally.sumIn + (spends.map (fun spend => spend.value.toNat)).sum

/-- The tally reads as many spends as it counts. -/
theorem tallySpends_ok (count k : Nat) (tally after : Tally) (input rest : Bytes) 
    (run : tallySpends P count k tally input = .ok (after, rest)) :
    ∃ spends : List SpendWitness, spends.length = count ∧
      input = spends.flatMap SpendWitness.text ++ rest ∧ Tallied P k tally spends after := by
  induction count generalizing k tally input with
  | zero =>
    simp only [tallySpends, Except.ok.injEq, Prod.mk.injEq] at run
    obtain ⟨rfl, rfl⟩ := run
    exact ⟨[], rfl, rfl, by simp, by simp, by simp, fun _ => rfl, by simp, id, by simp⟩
  | succ count ih =>
    simp only [tallySpends, bind_ok, Prod.exists] at run
    obtain ⟨spend, middle, read, next, step, later⟩ := run
    obtain ⟨rfl, inRange, width⟩ := (readSpend_ok _ _ _).mp read
    simp only [tallySpend, bind_ok, exists_unit, ensure_ok, decide_eq_true_eq, pure_ok] at step
    obtain ⟨sameAnchor, new, rfl⟩ := step
    obtain ⟨spends, counted, rfl, facts⟩ := ih (k + 1) _ middle later
    have anchor := facts.kept (.inl (Nat.succ_ne_zero k))
    refine ⟨spend :: spends, by simp [counted], by simp, ?_, ?_, ?_, ?_, ?_, ?_, ?_⟩
    · simpa using ⟨inRange, facts.positions⟩
    · simpa using ⟨width, facts.paths⟩
    · intro other member
      rcases List.mem_cons.mp member with rfl | inside
      · rw [anchor]
        dsimp only
        split
        · rfl
        · rename_i later
          exact sameAnchor.resolve_left later
      · exact facts.anchored other inside
    · rintro (later | nothing)
      · rw [anchor]
        simp [later]
      · simp at nothing
    · rw [facts.nfs]
      simp
    · intro before
      refine facts.distinct (List.nodup_append.mpr ⟨before, by simp, ?_⟩)
      rintro earlier listed own member rfl
      exact new (by simpa using List.mem_singleton.mp member ▸ listed)
    · rw [facts.sumIn]
      simp only [List.map_cons, List.sum_cons]
      omega

theorem tallySpends_run (k : Nat) (tally : Tally) (spends : List SpendWitness) (rest : Bytes)
    (anchor : H32) (positions : ∀ spend ∈ spends, spend.pos.toNat < 2 ^ kTreeDepth)
    (paths : ∀ spend ∈ spends, spend.siblings.length = kTreeDepth)
    (anchored : ∀ spend ∈ spends, spend.root P = anchor)
    (start : k ≠ 0 ∨ spends = [] → tally.anchor = anchor)
    (distinct : (tally.nfs ++ spends.map (SpendWitness.nullifier P)).Nodup) :
    tallySpends P spends.length k tally (spends.flatMap SpendWitness.text ++ rest) =
      .ok (⟨anchor, tally.nfs ++ spends.map (SpendWitness.nullifier P),
        tally.sumIn + (spends.map (fun spend => spend.value.toNat)).sum⟩, rest) := by
  induction spends generalizing k tally with
  | nil =>
    have same := start (.inr rfl)
    simp [tallySpends, ← same]
  | cons spend others ih =>
    have read := (readSpend_ok (spend.text ++ (others.flatMap SpendWitness.text ++ rest)) spend
      (others.flatMap SpendWitness.text ++ rest)).mpr
      ⟨rfl, positions spend (by simp), paths spend (by simp)⟩
    have new : spend.nullifier P ∉ tally.nfs := by
      intro member
      have disjoint := (List.nodup_append.mp distinct).2.2
      exact disjoint _ member _ (by simp) rfl
    have own := anchored spend (by simp)
    have step : tallySpend P k tally spend = .ok ⟨anchor, tally.nfs ++ [spend.nullifier P],
        tally.sumIn + spend.value.toNat⟩ := by
      simp only [tallySpend, bind_ok, exists_unit, ensure_ok, decide_eq_true_eq, pure_ok]
      refine ⟨?_, new, ?_⟩
      · by_cases first : k = 0
        · exact .inl first
        · exact .inr (own.trans (start (.inl first)).symm)
      · by_cases first : k = 0
        · rw [if_pos first, own]
        · rw [if_neg first, start (.inl first)]
    simp only [List.length_cons, tallySpends, List.flatMap_cons, List.append_assoc, bind_ok]
    refine ⟨_, read, _, step, ?_⟩
    rw [ih (k + 1) _ (fun other member => positions other (by simp [member]))
      (fun other member => paths other (by simp [member]))
      (fun other member => anchored other (by simp [member])) (fun _ => rfl) (by simpa using distinct)]
    simp [Nat.add_assoc]

/-- The tally reads as many outputs as it counts. -/
theorem tallyOutputs_ok (bind : H32) (nfs : List H32) (count j : Nat) (tally after : List H32 × Nat)
    (input rest : Bytes) (run : tallyOutputs P bind nfs count j tally input = .ok (after, rest)) :
    ∃ outputs : List OutputWitness, outputs.length = count ∧
      input = outputs.flatMap OutputWitness.text ++ rest ∧
      after = (tally.1 ++ commitmentsFrom P bind nfs j outputs,
        tally.2 + (outputs.map (fun output => output.value.toNat)).sum) := by
  induction count generalizing j tally input with
  | zero =>
    simp only [tallyOutputs, Except.ok.injEq, Prod.mk.injEq] at run
    obtain ⟨rfl, rfl⟩ := run
    exact ⟨[], rfl, rfl, by simp [commitmentsFrom]⟩
  | succ count ih =>
    obtain ⟨cms, sumOut⟩ := tally
    simp only [tallyOutputs, bind_ok, Prod.exists, Wire.orError_ok] at run
    obtain ⟨output, middle, read, later⟩ := run
    obtain rfl := (readOutputWitness_ok _ _ _).mp read
    obtain ⟨outputs, counted, rfl, same⟩ := ih (j + 1) _ middle later
    refine ⟨output :: outputs, by simp [counted], by simp, ?_⟩
    rw [same]
    simp [commitmentsFrom, Nat.add_assoc]

theorem tallyOutputs_run (bind : H32) (nfs : List H32) (j : Nat) (tally : List H32 × Nat)
    (outputs : List OutputWitness) (rest : Bytes) :
    tallyOutputs P bind nfs outputs.length j tally (outputs.flatMap OutputWitness.text ++ rest) =
      .ok ((tally.1 ++ commitmentsFrom P bind nfs j outputs,
        tally.2 + (outputs.map (fun output => output.value.toNat)).sum), rest) := by
  induction outputs generalizing j tally with
  | nil => simp [tallyOutputs, commitmentsFrom]
  | cons output others ih =>
    obtain ⟨cms, sumOut⟩ := tally
    have read := (readOutputWitness_ok (output.text ++ (others.flatMap OutputWitness.text ++ rest))
      output (others.flatMap OutputWitness.text ++ rest)).mpr rfl
    simp only [List.length_cons, tallyOutputs, List.flatMap_cons, List.append_assoc, bind_ok,
      Wire.orError_ok]
    refine ⟨_, read, ?_⟩
    rw [ih]
    simp [commitmentsFrom, Nat.add_assoc]

/-! ### The statement and its octets -/

open Wire in
/-- What evaluates to a journal is a well-formed and balanced witness. -/
theorem evaluate_ok (octets journal : Bytes) (accepted : evaluate P octets = .ok journal) :
    ∃ (witness : Witness) (anchor : H32), octets = witness.text ∧ WellFormed P witness anchor ∧
      witness.Balanced ∧ journal = witness.journal P anchor := by
  simp only [evaluate, readPublic, bind_ok, exists_unit, ensure_ok, orError_ok, decide_eq_true_eq,
    Option.bind_eq_bind, Option.pure_def, Option.bind_eq_some_iff, Option.some.injEq, pure_ok,
    Prod.exists, Prod.mk.injEq, List.isEmpty_iff] at accepted
  obtain ⟨_, _, _, _, _, ⟨bind, _, readBind, vpubIn, _, readIn, vpubOut, _, readOut, nIn, _, readCount,
    ⟨rfl, rfl, rfl, rfl⟩, rfl⟩, few, tally, _, spent, nOut, _, readOutputs, fewOutputs, cms, sumOut,
    _, created, rfl, balance, rfl⟩ := accepted
  obtain ⟨spends, spendCount, rfl, facts⟩ := tallySpends_ok P nIn 0 _ tally _ _ spent
  obtain ⟨outputs, outputCount, rfl, same⟩ := tallyOutputs_ok P bind tally.nfs nOut 0 _ _ _ _ created
  obtain ⟨rfl, rfl⟩ := Prod.mk.inj same
  have nullifiers : tally.nfs = spends.map (SpendWitness.nullifier P) := by simpa using facts.nfs
  refine ⟨⟨bind, vpubIn, vpubOut, spends, outputs⟩, tally.anchor, ?_, ?_, ?_, ?_⟩
  · rw [readH32_reflects _ _ _ readBind, getU64_reflects _ _ _ readIn, getU64_reflects _ _ _ readOut,
      getU32_reflects _ _ _ readCount, getU32_reflects _ _ _ readOutputs]
    simp [Witness.text, spendCount, outputCount]
  · refine ⟨spendCount ▸ few, outputCount ▸ fewOutputs, facts.positions, facts.paths, facts.anchored,
      fun nothing => facts.kept (.inr nothing), ?_⟩
    show (spends.map (SpendWitness.nullifier P)).Nodup
    rw [← nullifiers]
    exact facts.distinct List.nodup_nil
  · show vpubIn.toNat + (spends.map (fun spend => spend.value.toNat)).sum = _
    rw [← facts.sumIn, balance]
    rfl
  · rw [nullifiers]
    simp [Witness.journal, Witness.commitments, Witness.nullifiers]

open Wire in
/-- The octets of a well-formed witness evaluate to its journal exactly when it
balances. -/
theorem evaluate_text (witness : Witness) (anchor : H32) (formed : WellFormed P witness anchor) :
    evaluate P witness.text =
      if witness.Balanced then .ok (witness.journal P anchor) else .error "value not conserved" := by
  have few := formed.fewSpends
  have fewOutputs := formed.fewOutputs
  have spends := tallySpends_run P 0 ⟨zeroH32, [], witness.vpubIn.toNat⟩ witness.spends
    (putU32 witness.outputs.length ++ witness.outputs.flatMap OutputWitness.text) anchor
    formed.positions formed.paths formed.anchored
    (fun none => (formed.unanchored (none.resolve_left fun first => first rfl)).symm) formed.distinct
  have outputs := tallyOutputs_run P witness.bind (witness.nullifiers P) 0
    ([], witness.vpubOut.toNat) witness.outputs []
  rw [List.append_nil] at outputs
  have counted := getU32_restores witness.outputs.length (by unfold kMaxOut at fewOutputs; omega)
  have front : readPublic witness.text =
      some ((witness.bind, witness.vpubIn, witness.vpubOut, witness.spends.length),
        witness.spends.flatMap SpendWitness.text ++
          (putU32 witness.outputs.length ++ witness.outputs.flatMap OutputWitness.text)) := by
    have count := getU32_restores witness.spends.length (by unfold kMaxIn at few; omega)
    simp only [readPublic, Witness.text, List.append_assoc, readH32_restores _ _,
      getU64_restores _ _, count _, Option.bind_eq_bind, Option.bind_some, Option.pure_def]
  have settled : evaluate P witness.text =
      (do
        ensure (decide witness.Balanced) "value not conserved"
        pure (witness.journal P anchor)) := by
    unfold evaluate
    rw [front]
    simp only [orError, ensure, few, decide_true, ↓reduceIte, bind, Except.bind]
    rw [spends]
    simp only [counted _, fewOutputs, decide_true, ↓reduceIte]
    rw [show [] ++ witness.spends.map (SpendWitness.nullifier P) = witness.nullifiers P from rfl,
      outputs]
    rfl
  rw [settled]
  by_cases balanced : witness.Balanced
  · rw [if_pos balanced]
    simp [ensure, balanced, bind, Except.bind, pure, Except.pure]
  · rw [if_neg balanced]
    simp [ensure, balanced, bind, Except.bind]

end Addition.Shielded
