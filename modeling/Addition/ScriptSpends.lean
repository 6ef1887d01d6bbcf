import Addition.ScriptGrammar

/-!
# Spends of script outputs

A tree is true or false of a context and a witness; the evaluator computes this and marks the
first signature and the first preimage that each leaf finds. A spend goes through exactly when
the tree is true and every witness item was marked. A witness that is decoded is encoded as the
text it was decoded from.
-/

namespace Addition.Script

open ByteStrings Checked

/-! ### Formulas -/

section Formula

variable (P : Primitives) (context : SpendContext) (witness : Witness)

/-- The formula of a tree. -/
def Node.Holds : Node → Prop
  | .pk address => ∃ sig ∈ witness.sigs, sigMatches P context address sig = true
  | .sha3 digest => ∃ preimage ∈ witness.preimages, hashPreimageHex P preimage = digest
  | .after height => height ≤ context.spendHeight.toNat
  | .older blocks => context.utxoHeight ≤ context.spendHeight ∧
      blocks ≤ (context.spendHeight - context.utxoHeight).toNat
  | .and a b => a.Holds ∧ b.Holds
  | .or a b => a.Holds ∨ b.Holds

/-- The addresses and the digests of a tree. -/
def Node.addresses : Node → List Bytes
  | .pk address => [address]
  | .and a b => a.addresses ++ b.addresses
  | .or a b => a.addresses ++ b.addresses
  | _ => []

/-- The digests that a script names. -/
def Node.digests : Node → List Bytes
  | .sha3 digest => [digest]
  | .and a b => a.digests ++ b.digests
  | .or a b => a.digests ++ b.digests
  | _ => []

/-- The signature at an index is the first one that some address of the tree accepts. -/
def Node.SelectsSig (tree : Node) (index : Nat) : Prop :=
  ∃ address ∈ tree.addresses, witness.sigs.findIdx? (sigMatches P context address) = some index

/-- The preimage at an index is the first one of some digest of the tree. -/
def Node.SelectsPreimage (tree : Node) (index : Nat) : Prop :=
  ∃ digest ∈ tree.digests,
    (witness.preimages.map (hashPreimageHex P)).findIdx? (· == digest) = some index

/-- Which marks there are after others were set. -/
def Marked (before after : List Bool) (selected : Nat → Prop) : Prop :=
  after.length = before.length ∧
    ∀ index, after[index]? = some true ↔
      before[index]? = some true ∨ index < before.length ∧ selected index

end Formula

theorem Marked.none (marks : List Bool) (selected : Nat → Prop) (nothing : ∀ index, ¬ selected index) :
    Marked marks marks selected :=
  ⟨rfl, fun index => by simp [nothing index]⟩

theorem Marked.set (marks : List Bool) (index : Nat) (selected : Nat → Prop)
    (only : ∀ other, selected other ↔ other = index) : Marked marks (marks.set index true) selected := by
  refine ⟨List.length_set, fun other => ?_⟩
  rw [only, List.getElem?_set]
  by_cases same : index = other
  · subst same
    by_cases inside : index < marks.length
    · simp [inside]
    · simp [inside]
  · simp [same, Ne.symm same]

variable {after : List Bool}

theorem Marked.trans {before middle : List Bool} {first second both : Nat → Prop}
    (early : Marked before middle first) (late : Marked middle after second)
    (union : ∀ index, both index ↔ first index ∨ second index) : Marked before after both := by
  refine ⟨late.1.trans early.1, fun index => ?_⟩
  rw [late.2, early.2, early.1, union]
  tauto

/-- Every mark is set exactly when every index is selected. -/
theorem Marked.all_iff {α : Type} {items : List α} {selected : Nat → Prop}
    (marked : Marked (items.map (fun _ => false)) after selected) :
    after.all id = true ↔ ∀ index < items.length, selected index := by
  obtain ⟨length, marks⟩ := marked
  rw [List.length_map] at length
  have fresh : ∀ index : Nat, (items.map (fun _ => false))[index]? ≠ some true := by
    intro index found
    obtain ⟨item, -, wrong⟩ := List.mem_map.mp (List.mem_of_getElem? found)
    exact absurd wrong (by decide)
  rw [List.all_eq_true, List.forall_mem_iff_getElem]
  constructor
  · intro all index small
    have found : after[index]? = some true := by
      rw [List.getElem?_eq_getElem (by omega)]
      exact congrArg some (all index (by omega))
    obtain before | ⟨-, chosen⟩ := (marks index).mp found
    · exact absurd before (fresh index)
    · exact chosen
  · intro all index small
    have found := (marks index).mpr (.inr ⟨by rw [List.length_map]; omega, all index (by omega)⟩)
    rw [List.getElem?_eq_getElem small] at found
    exact Option.some.inj found

section Evaluation

variable {P : Primitives} {context : SpendContext} {witness : Witness}

/-- Induction on the tree: the evaluator computes the formula and marks the first matches, also
of an operand that does not matter for the result. -/
theorem eval_marks (tree : Node) (used : Used) :
    ((eval P context witness tree used).1 = true ↔ tree.Holds P context witness) ∧
      Marked used.sigs (eval P context witness tree used).2.sigs (tree.SelectsSig P context witness) ∧
      Marked used.preimages (eval P context witness tree used).2.preimages
        (tree.SelectsPreimage P witness) := by
  induction tree generalizing used with
  | pk address =>
    have selects : ∀ index, (Node.pk address).SelectsSig P context witness index ↔
        witness.sigs.findIdx? (sigMatches P context address) = some index := by
      simp [Node.SelectsSig, Node.addresses]
    rw [eval]
    cases found : witness.sigs.findIdx? (sigMatches P context address) with
    | none =>
      rw [List.findIdx?_eq_none_iff] at found
      refine ⟨iff_of_false (by simp) ?_, .none _ _ fun index selected => ?_,
        .none _ _ fun index => by simp [Node.SelectsPreimage, Node.digests]⟩
      · rintro ⟨sig, member, accepted⟩
        exact absurd accepted (by simp [found sig member])
      · rw [selects, List.findIdx?_eq_some_iff_getElem] at selected
        obtain ⟨inside, accepted, -⟩ := selected
        exact absurd accepted (by simp [found _ (List.getElem_mem inside)])
    | some index =>
      refine ⟨iff_of_true rfl ?_, .set _ index _ fun other => ?_,
        .none _ _ fun index => by simp [Node.SelectsPreimage, Node.digests]⟩
      · obtain ⟨inside, accepted, -⟩ := List.findIdx?_eq_some_iff_getElem.mp found
        exact ⟨_, List.getElem_mem inside, accepted⟩
      · rw [selects, found]
        exact ⟨fun same => (Option.some.inj same).symm, fun same => congrArg some same.symm⟩
  | sha3 digest =>
    have selects : ∀ index, (Node.sha3 digest).SelectsPreimage P witness index ↔
        (witness.preimages.map (hashPreimageHex P)).findIdx? (· == digest) = some index := by
      simp [Node.SelectsPreimage, Node.digests]
    rw [eval]
    cases found : (witness.preimages.map (hashPreimageHex P)).findIdx? (· == digest) with
    | none =>
      rw [List.findIdx?_eq_none_iff] at found
      refine ⟨iff_of_false (by simp) ?_, .none _ _ fun index => by simp [Node.SelectsSig, Node.addresses],
        .none _ _ fun index selected => ?_⟩
      · rintro ⟨preimage, member, opens⟩
        have other := found _ (List.mem_map_of_mem member)
        exact absurd opens (by simpa using other)
      · rw [selects, List.findIdx?_eq_some_iff_getElem] at selected
        obtain ⟨inside, accepted, -⟩ := selected
        exact absurd (found _ (List.getElem_mem inside)) (by rw [accepted]; decide)
    | some index =>
      refine ⟨iff_of_true rfl ?_, .none _ _ fun index => by simp [Node.SelectsSig, Node.addresses],
        .set _ index _ fun other => ?_⟩
      · obtain ⟨inside, accepted, -⟩ := List.findIdx?_eq_some_iff_getElem.mp found
        obtain ⟨preimage, member, same⟩ := List.mem_map.mp (List.getElem_mem inside)
        exact ⟨preimage, member, same.trans (by simpa using accepted)⟩
      · rw [selects, found]
        exact ⟨fun same => (Option.some.inj same).symm, fun same => congrArg some same.symm⟩
  | after height =>
    refine ⟨by simp [eval, Node.Holds], .none _ _ fun index => ?_, .none _ _ fun index => ?_⟩
    · simp [Node.SelectsSig, Node.addresses]
    · simp [Node.SelectsPreimage, Node.digests]
  | older blocks =>
    refine ⟨by simp [eval, Node.Holds], .none _ _ fun index => ?_, .none _ _ fun index => ?_⟩
    · simp [Node.SelectsSig, Node.addresses]
    · simp [Node.SelectsPreimage, Node.digests]
  | and a b left right =>
    obtain ⟨holdsA, sigsA, preimagesA⟩ := left used
    obtain ⟨holdsB, sigsB, preimagesB⟩ := right (eval P context witness a used).2
    refine ⟨?_, sigsA.trans sigsB fun index => ?_, preimagesA.trans preimagesB fun index => ?_⟩
    · change ((eval P context witness a used).1 &&
        (eval P context witness b (eval P context witness a used).2).1) = true ↔ _
      rw [Bool.and_eq_true, holdsA, holdsB, Node.Holds]
    · simp [Node.SelectsSig, Node.addresses, or_and_right, exists_or]
    · simp [Node.SelectsPreimage, Node.digests, or_and_right, exists_or]
  | or a b left right =>
    obtain ⟨holdsA, sigsA, preimagesA⟩ := left used
    obtain ⟨holdsB, sigsB, preimagesB⟩ := right (eval P context witness a used).2
    refine ⟨?_, sigsA.trans sigsB fun index => ?_, preimagesA.trans preimagesB fun index => ?_⟩
    · change ((eval P context witness a used).1 ||
        (eval P context witness b (eval P context witness a used).2).1) = true ↔ _
      rw [Bool.or_eq_true, holdsA, holdsB, Node.Holds]
    · simp [Node.SelectsSig, Node.addresses, or_and_right, exists_or]
    · simp [Node.SelectsPreimage, Node.digests, or_and_right, exists_or]

end Evaluation

/-! ### Witnesses -/

variable {count : Nat} {parts rest : List Bytes}

theorem takeCount_ok {bound : Nat}
    (read : takeCount bound parts = some (count, rest)) (small : bound ≤ 9) :
    parts = decimal count :: rest ∧ count ≤ bound := by
  match parts with
  | [digit] :: others =>
    rw [takeCount] at read
    split at read
    · rename_i checked
      rw [Bool.and_eq_true, decide_eq_true_eq] at checked
      obtain ⟨rfl, rfl⟩ := Prod.mk.inj (Option.some.inj read)
      refine ⟨?_, checked.2⟩
      rw [decimal_small _ (by omega), digit_octet digit checked.1]
    · exact absurd read (by simp)
  | [] => exact absurd read (by simp [takeCount])
  | [] :: others => exact absurd read (by simp [takeCount])
  | (first :: second :: more) :: others => exact absurd read (by simp [takeCount])

theorem splitColon_ok {part : Bytes} {sig : Bytes × Bytes} (read : splitColon part = some sig) :
    part = sig.1 ++ byte ':' :: sig.2 := by
  unfold splitColon at read
  have whole : part.takeWhile (· ≠ byte ':') ++ part.dropWhile (· ≠ byte ':') = part :=
    List.takeWhile_append_dropWhile
  cases dropped : part.dropWhile (· ≠ byte ':') with
  | nil =>
    rw [dropped] at read
    exact absurd read (by simp)
  | cons first rest =>
    have isColon : first = byte ':' := by
      have stops := List.head?_dropWhile_not (fun octet => decide (octet ≠ byte ':')) part
      rw [dropped] at stops
      simpa using stops
    rw [dropped] at read whole
    cases Option.some.inj read
    rw [isColon] at whole
    exact whole.symm

/-- The signatures of a witness are read off its parts. -/
theorem takeSigs_ok {sigs : List (Bytes × Bytes)} (read : takeSigs count parts = .ok (sigs, rest)) :
    parts = sigs.map (fun sig => sig.1 ++ byte ':' :: sig.2) ++ rest ∧ sigs.length = count := by
  induction count generalizing parts sigs with
  | zero =>
    obtain ⟨rfl, rfl⟩ := Prod.mk.inj (Except.ok.inj read)
    exact ⟨rfl, rfl⟩
  | succ count ih =>
    cases parts with
    | nil => exact absurd read (by simp [takeSigs])
    | cons part others =>
      rw [takeSigs] at read
      split at read
      · exact absurd read (by simp)
      · rename_i sig isSig
        simp only [bind_ok, pure_ok, Prod.exists] at read
        obtain ⟨later, left, readLater, isSigs⟩ := read
        obtain ⟨rfl, rfl⟩ := Prod.mk.inj isSigs
        obtain ⟨isOthers, length⟩ := ih readLater
        rw [List.map_cons, List.cons_append, ← isOthers, ← splitColon_ok isSig, List.length_cons, length]
        exact ⟨rfl, rfl⟩

/-- The preimages of a witness are read off its parts. -/
theorem takePreimages_ok {preimages : List Bytes}
    (read : takePreimages count parts = .ok (preimages, rest)) :
    parts = preimages ++ rest ∧ preimages.length = count := by
  induction count generalizing parts preimages with
  | zero =>
    obtain ⟨rfl, rfl⟩ := Prod.mk.inj (Except.ok.inj read)
    exact ⟨rfl, rfl⟩
  | succ count ih =>
    cases parts with
    | nil => exact absurd read (by simp [takePreimages])
    | cons part others =>
      rw [takePreimages] at read
      split at read
      · simp only [bind_ok, pure_ok, Prod.exists] at read
        obtain ⟨later, left, readLater, isAll⟩ := read
        obtain ⟨rfl, rfl⟩ := Prod.mk.inj isAll
        obtain ⟨isOthers, length⟩ := ih readLater
        rw [List.cons_append, ← isOthers, List.length_cons, length]
        exact ⟨rfl, rfl⟩
      · exact absurd read (by simp)

/-- A witness that is decoded is encoded as the text it was decoded from. -/
theorem encode_decode (text : Bytes) (witness : Witness) (decoded : decodeWitness text = .ok witness) :
    encodeWitness witness = text := by
  unfold decodeWitness at decoded
  cases split : semicolonParts text with
  | none =>
    rw [split] at decoded
    exact absurd decoded (by simp)
  | some parts =>
    rw [split] at decoded
    simp only [bind_ok, exists_unit, ensure_ok, decide_eq_true_eq] at decoded
    obtain ⟨-, rest⟩ := decoded
    have isText : [byte ';'].intercalate (parts ++ [[]]) = text := by
      unfold semicolonParts at split
      dsimp only at split
      split at split
      · rename_i last
        rw [← Option.some.inj split, List.dropLast_append_getLast? _ last]
        exact List.intercalate_splitOn _
      · exact absurd split (by simp)
    have isParts : witness.parts = parts := by
      cases parts with
      | nil => exact absurd rest (by simp [takeCount])
      | cons script others =>
        rw [List.tail_cons] at rest
        cases counted : takeCount kMaxSigs others with
        | none =>
          rw [counted] at rest
          exact absurd rest (by simp)
        | some found =>
          obtain ⟨sigCount, afterCount⟩ := found
          rw [counted] at rest
          simp only [bind_ok, Prod.exists] at rest
          obtain ⟨sigs, afterSigs, readSigs, rest⟩ := rest
          cases counted' : takeCount kMaxPreimages afterSigs with
          | none =>
            rw [counted'] at rest
            exact absurd rest (by simp)
          | some found =>
            obtain ⟨preimageCount, afterCount'⟩ := found
            rw [counted'] at rest
            simp only [bind_ok, exists_unit, ensure_ok, pure_ok, Prod.exists] at rest
            obtain ⟨preimages, left, readPreimages, done, rfl⟩ := rest
            obtain ⟨isOthers, -⟩ := takeCount_ok counted (by decide)
            obtain ⟨isAfter, sigLength⟩ := takeSigs_ok readSigs
            obtain ⟨isAfterSigs, -⟩ := takeCount_ok counted' (by decide)
            obtain ⟨isLast, preimageLength⟩ := takePreimages_ok readPreimages
            rw [List.isEmpty_iff.mp done, List.append_nil] at isLast
            rw [Witness.parts, List.headD_cons, isOthers, isAfter, isAfterSigs, isLast, sigLength,
              preimageLength]
    rw [encodeWitness_parts, isParts, isText]

/-! ### The check of an input -/

section Check

variable (P : Primitives) (context : SpendContext)

/-- A witness that authorizes a spend: its script is the one of the output and reads as a tree,
the tree is true, and every signature and every preimage is the first match of some leaf. -/
structure Authorizes (owner : Bytes) (witness : Witness) (tree : Node) : Prop where
  owned : owner = scriptAddress P witness.script
  parsed : parse witness.script = .ok tree
  holds : tree.Holds P context witness
  sigs : ∀ index < witness.sigs.length, tree.SelectsSig P context witness index
  preimages : ∀ index < witness.preimages.length, tree.SelectsPreimage P witness index

/-- An input is authorized exactly by a witness that decodes, whose script is the one of the
output, whose tree is true, and every item of which is the first match of some leaf; and a
witness that decodes is encoded as the same text. -/
theorem verifyInput_exact :
    (∀ owner witnessField, verifyInput P owner witnessField context = .ok () ↔
      ∃ witness tree, decodeWitness witnessField = .ok witness ∧
        Authorizes P context owner witness tree) ∧
    ∀ text witness, decodeWitness text = .ok witness → encodeWitness witness = text := by
  refine ⟨fun owner witnessField => ?_, encode_decode⟩
  have checked : ∀ (witness : Witness) (tree : Node),
      ((eval P context witness tree ⟨witness.sigs.map (fun _ => false),
          witness.preimages.map (fun _ => false)⟩).1 = true ∧
        (eval P context witness tree ⟨witness.sigs.map (fun _ => false),
          witness.preimages.map (fun _ => false)⟩).2.sigs.all id = true ∧
        (eval P context witness tree ⟨witness.sigs.map (fun _ => false),
          witness.preimages.map (fun _ => false)⟩).2.preimages.all id = true) ↔
        tree.Holds P context witness ∧
        (∀ index < witness.sigs.length, tree.SelectsSig P context witness index) ∧
        ∀ index < witness.preimages.length, tree.SelectsPreimage P witness index := by
    intro witness tree
    obtain ⟨holds, sigs, preimages⟩ := @eval_marks P context witness
      tree ⟨witness.sigs.map (fun _ => false), witness.preimages.map (fun _ => false)⟩
    rw [holds, sigs.all_iff, preimages.all_iff]
  simp only [verifyInput, bind_ok, exists_unit, ensure_ok, beq_iff_eq]
  constructor
  · rintro ⟨-, witness, decoded, owned, tree, parsed, all⟩
    obtain ⟨holds, sigs, preimages⟩ := (checked witness tree).mp all
    exact ⟨witness, tree, decoded, owned.symm, parsed, holds, sigs, preimages⟩
  · rintro ⟨witness, tree, decoded, rfl, parsed, holds, sigs, preimages⟩
    exact ⟨isScriptAddress_scriptAddress witness.script, witness, decoded, rfl, tree, parsed,
      (checked witness tree).mpr ⟨holds, sigs, preimages⟩⟩

/-- A key of one octet with its address, a signature of it, and a preimage. -/
def spenderAddress : Bytes := hashCommittedAddress signingPrimitives (sigSchemeId .mlDsa87) [7]

/-- A spend at height nine of an output of height zero. -/
def lateSpend : SpendContext := ⟨ascii "message", 9, 0⟩

/-- The preimage of the example. -/
def spendPreimage : Bytes := toHex [5]

/-- A script that asks for both after height seven, or for the key after twenty more blocks. -/
def spendScript : Bytes :=
  ascii "or(and(and(pk(" ++ spenderAddress ++ ascii "),sha3(" ++
    hashPreimageHex signingPrimitives spendPreimage ++ ascii ")),after(7)),and(pk(" ++ spenderAddress ++
    ascii "),older(20)))"

/-- The signature of the example. -/
def spendSignature : Bytes :=
  pqPrefix ++ toHex (sampleDigest 4 ([7] ++ lateSpend.sighash)).val

/-- The script with one signature and one preimage. -/
def spendWitness : Witness := ⟨spendScript, [(toHex [7], spendSignature)], [spendPreimage]⟩

/-- The witness as it is written. -/
def spendWitnessText : Bytes :=
  spendScript ++ ascii ";1;" ++ toHex [7] ++ ascii ":" ++ spendSignature ++ ascii ";1;" ++
    spendPreimage ++ ascii ";"

set_option maxRecDepth 100000 in
/-- The script is satisfied by the key and the preimage, each the first match of a leaf, and the
witness is written as it was read. -/
theorem spendWitness_authorizes :
    (∃ tree, Authorizes signingPrimitives lateSpend (scriptAddress signingPrimitives spendScript)
      spendWitness tree) ∧ encodeWitness spendWitness = spendWitnessText := by
  obtain ⟨authorized, codec⟩ := verifyInput_exact signingPrimitives lateSpend
  have decoded : decodeWitness spendWitnessText = .ok spendWitness :=
    toOption_ok (by decide +kernel)
  have spent : (verifyInput signingPrimitives (scriptAddress signingPrimitives spendScript)
      spendWitnessText lateSpend).toOption = some () := by
    decide +kernel
  obtain ⟨witness, tree, decoded', holds⟩ := (authorized _ _).mp (toOption_ok spent)
  obtain rfl := Except.ok.inj (decoded.symm.trans decoded')
  exact ⟨⟨tree, holds⟩, codec _ _ decoded⟩

end Check

end Addition.Script
