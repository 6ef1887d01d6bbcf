import Addition.TreePaths

/-!
# Building a bundle

`build_bundle` of `shielded.cpp`: the wallet side of the statement. It seals the new
notes, binds the bundle to its transaction, writes the witness octets for the prover
and fills in what the journal of the bundle will be compared with. The other side of
those octets is `evaluate`, written in another language; the two agree here on every
tree within its capacity.

Random draws, key encapsulation with authenticated encryption, and the proof system
are linked libraries and enter as one record.
-/

namespace Addition.Shielded

open ByteStrings Checked

/-- Octets of a memo. -/
def kMemoSize : Nat := 512
/-- Octets of a note before it is encrypted. -/
def kPlainSize : Nat := 8 + 32 + 2 + kMemoSize

/-- `Address`. -/
structure Address where
  owner : H32
  kemPk : Bytes

/-- The part of a spending key that spends use. -/
structure SpendingKey where
  nk : H32

/-- `Note`. -/
structure Note where
  value : UInt64
  rho : H32
  r : H32
  position : UInt64

/-- `OutputSpec`. -/
structure OutputSpec where
  recipient : Address
  value : UInt64
  memo : Bytes

/-- What the libraries return in one call of `build_bundle`: the draw for each new
note, the sealing of its plaintext to a key, and the receipt with its journal for a
witness. `execute` is empty in a build without the prover. -/
structure ProverLibraries where
  randBytes : Nat → Option H32
  encrypt : Nat → Bytes → Bytes → Except String EncryptedNote
  execute : Option (Bytes → Option (Bytes × Bytes))

variable (P : Primitives) (L : ProverLibraries)

/-! ### Writing the witness -/

/-- The fixed-size plaintext of a note. -/
def notePlaintext (value : UInt64) (r : H32) (memo : Bytes) : Bytes :=
  let text := Wire.putU64 value ++ r.val ++
    [UInt8.ofNat memo.length, UInt8.ofNat (memo.length >>> 8)] ++ memo
  text ++ List.replicate (kPlainSize - text.length) 0

/-- `encrypt_note`. -/
def encryptNote (call : Nat) (recipient : Address) (value : UInt64) (r : H32) (memo : Bytes) :
    Except String EncryptedNote := do
  ensure (decide (memo.length ≤ kMemoSize)) "memo too long (max 512 bytes)"
  ensure (decide (recipient.kemPk.length = 1568)) "bad recipient key"
  L.encrypt call recipient.kemPk (notePlaintext value r memo)

/-- The draws and encrypted notes of the outputs from some position on. -/
def sealOutputs : Nat → List OutputSpec → Except String (List (H32 × EncryptedNote))
  | _, [] => .ok []
  | j, output :: rest => do
    let r ← Wire.orError "rng failure" (L.randBytes j)
    let enc ← encryptNote L j output.recipient output.value r output.memo
    let later ← sealOutputs (j + 1) rest
    pure ((r, enc) :: later)

/-- The witness octets of the spends and their nullifiers. -/
def writeSpends (tree : CommitmentTree) (spender : SpendingKey) :
    List Note → Except String (Bytes × List H32)
  | [] => .ok ([], [])
  | note :: rest => do
    let siblings ← Wire.orError "note position not in tree" (tree.path P note.position.toNat)
    let (octets, nullifiers) ← writeSpends tree spender rest
    pure (spender.nk.val ++ Wire.putU64 note.value ++ note.rho.val ++ note.r.val ++
      Wire.putU64 note.position ++ putDigests siblings ++ octets,
      nullifier P spender.nk note.rho :: nullifiers)

/-- Without a key there are no inputs, so the loop is empty. -/
def writeInputs (tree : CommitmentTree) (inputs : List Note) :
    Option SpendingKey → Except String (Bytes × List H32)
  | none => .ok ([], [])
  | some spender => writeSpends P tree spender inputs

/-- The witness octets of the new notes from some position on and their commitments. -/
def writeOutputs (bind : H32) (nullifiers : List H32) :
    Nat → List (OutputSpec × H32) → Bytes × List H32
  | _, [] => ([], [])
  | j, (output, r) :: rest =>
    let (octets, commitments) := writeOutputs bind nullifiers (j + 1) rest
    (Wire.putU64 output.value ++ output.recipient.owner.val ++ r.val ++ octets,
      noteCommitment P output.value output.recipient.owner (outputRho P bind nullifiers j) r :: commitments)

/-- What is handed to the prover, and the bundle that awaits the proof. -/
structure ProverInput where
  bundle : Bundle
  bind : H32
  witness : Bytes

/-- The bundle when it is bound: only its public values and encrypted notes are set. -/
def boundBundle (vpubIn vpubOut : UInt64) (enc : List EncryptedNote) : Bundle :=
  ⟨vpubIn, vpubOut, zeroH32, [], [], enc, []⟩

/-- `build_bundle` up to the call of the prover. -/
def proverInput (tx : Transaction) (spender : Option SpendingKey) (inputs : List Note)
    (tree : CommitmentTree) (outputs : List OutputSpec) (vpubIn vpubOut : UInt64) :
    Except String ProverInput := do
  ensure (decide (inputs.length ≤ kMaxIn) && decide (outputs.length ≤ kMaxOut))
    "too many inputs/outputs"
  ensure (inputs.isEmpty || spender.isSome) "spending key required"
  let drawn ← sealOutputs L 0 outputs
  let enc := drawn.map Prod.snd
  let bind := bindHash P tx (boundBundle vpubIn vpubOut enc)
  let (spent, nullifiers) ← writeInputs P tree inputs spender
  let anchor := if inputs.isEmpty then zeroH32 else tree.root
  let (made, commitments) := writeOutputs P bind nullifiers 0 (outputs.zip (drawn.map Prod.fst))
  pure ⟨⟨vpubIn, vpubOut, anchor, nullifiers, commitments, enc, []⟩, bind,
    bind.val ++ Wire.putU64 vpubIn ++ Wire.putU64 vpubOut ++ Wire.putU32 inputs.length ++ spent ++
      Wire.putU32 outputs.length ++ made⟩

/-- `addition_shielded_prove`: the code of a failure, or receipt and journal. The
statement is evaluated before anything is proved. -/
def additionShieldedProve (execute : Bytes → Option (Bytes × Bytes)) (witness : Bytes) :
    Except Nat (Bytes × Bytes) :=
  match evaluate P witness with
  | .error _ => .error 2
  | .ok _ =>
    match execute witness with
    | none => .error 3
    | some proved => .ok proved

/-- `build_bundle`. -/
def buildBundle (tx : Transaction) (spender : Option SpendingKey) (inputs : List Note)
    (tree : CommitmentTree) (outputs : List OutputSpec) (vpubIn vpubOut : UInt64) :
    Except String Bundle := do
  let input ← proverInput P L tx spender inputs tree outputs vpubIn vpubOut
  match L.execute with
  | none => .error "built without STARK prover"
  | some execute =>
    match additionShieldedProve P execute input.witness with
    | .error code => .error ("proving failed (code " ++ toString code ++ ")")
    | .ok (receipt, journal) => do
      ensure (decide (journal = expectedJournal input.bind input.bundle))
        "journal mismatch (C++/Rust statement drift)"
      pure { input.bundle with proof := receipt }

/-! ### The witness that was written -/

/-- The spend of a note. -/
def Note.spend (tree : CommitmentTree) (spender : SpendingKey) (note : Note) : SpendWitness :=
  ⟨spender.nk, note.value, note.rho, note.r, note.position,
    PaddedTrees.siblings (merkleNode P) zeroH32 kTreeDepth 0 note.position.toNat tree.leaves⟩

/-- The new note of an output and its draw. -/
def newNote (drawn : OutputSpec × H32) : OutputWitness :=
  ⟨drawn.1.value, drawn.1.recipient.owner, drawn.2⟩

theorem sealOutputs_length (j : Nat) (outputs : List OutputSpec) (drawn : List (H32 × EncryptedNote))
    (sealing : sealOutputs L j outputs = .ok drawn) : drawn.length = outputs.length := by
  induction outputs generalizing j drawn with
  | nil =>
    obtain rfl := Except.ok.inj sealing
    rfl
  | cons output rest ih =>
    simp only [sealOutputs, bind_ok, pure_ok] at sealing
    obtain ⟨_, _, _, _, later, others, rfl⟩ := sealing
    rw [List.length_cons, ih _ _ others, List.length_cons]

/-- The spends of a witness are those of its notes. -/
theorem writeSpends_ok (tree : CommitmentTree) (spender : SpendingKey) (inputs : List Note)
    (inside : ∀ note ∈ inputs, note.position.toNat < tree.leaves.length) :
    writeSpends P tree spender inputs =
      .ok ((inputs.map (Note.spend P tree spender)).flatMap SpendWitness.text,
        (inputs.map (Note.spend P tree spender)).map (SpendWitness.nullifier P)) := by
  induction inputs with
  | nil => rfl
  | cons note rest ih =>
    have path : tree.path P note.position.toNat = some (note.spend P tree spender).siblings :=
      if_pos (inside note (by simp))
    simp only [writeSpends, bind_ok, pure_ok, Wire.orError_ok]
    refine ⟨_, path, _, ih fun other member => inside other (by simp [member]), ?_⟩
    rfl

theorem writeOutputs_eq (bind : H32) (nullifiers : List H32) (j : Nat)
    (outputs : List (OutputSpec × H32)) :
    writeOutputs P bind nullifiers j outputs =
      ((outputs.map newNote).flatMap OutputWitness.text,
        commitmentsFrom P bind nullifiers j (outputs.map newNote)) := by
  induction outputs generalizing j with
  | nil => rfl
  | cons output rest ih =>
    obtain ⟨output, r⟩ := output
    rw [writeOutputs, ih]
    rfl

/-- The witness whose octets are written. -/
def writtenWitness (tx : Transaction) (spender : Option SpendingKey) (inputs : List Note)
    (tree : CommitmentTree) (outputs : List OutputSpec) (vpubIn vpubOut : UInt64)
    (drawn : List (H32 × EncryptedNote)) : Witness where
  bind := bindHash P tx (boundBundle vpubIn vpubOut (drawn.map Prod.snd))
  vpubIn := vpubIn
  vpubOut := vpubOut
  spends := spender.elim [] (fun key => inputs.map (Note.spend P tree key))
  outputs := (outputs.zip (drawn.map Prod.fst)).map newNote

/-- The bundle that goes with it. -/
def writtenBundle (witness : Witness) (anchor : H32) (enc : List EncryptedNote) : Bundle :=
  ⟨witness.vpubIn, witness.vpubOut, anchor, witness.nullifiers P, witness.commitments P, enc, []⟩

/-- With notes inside the tree and the draws made, the prover is handed the octets of
one witness. -/
theorem proverInput_ok (tx : Transaction) (spender : Option SpendingKey) (inputs : List Note)
    (tree : CommitmentTree) (outputs : List OutputSpec) (vpubIn vpubOut : UInt64)
    (drawn : List (H32 × EncryptedNote)) (fewInputs : inputs.length ≤ kMaxIn)
    (fewOutputs : outputs.length ≤ kMaxOut) (keyed : inputs ≠ [] → spender.isSome)
    (inside : ∀ note ∈ inputs, note.position.toNat < tree.leaves.length)
    (sealing : sealOutputs L 0 outputs = .ok drawn) :
    proverInput P L tx spender inputs tree outputs vpubIn vpubOut =
      .ok ⟨writtenBundle P (writtenWitness P tx spender inputs tree outputs vpubIn vpubOut drawn)
          (if inputs.isEmpty then zeroH32 else tree.root) (drawn.map Prod.snd),
        bindHash P tx (boundBundle vpubIn vpubOut (drawn.map Prod.snd)),
        (writtenWitness P tx spender inputs tree outputs vpubIn vpubOut drawn).text⟩ := by
  have width : (outputs.zip (drawn.map Prod.fst)).length = outputs.length := by
    rw [List.length_zip, List.length_map, sealOutputs_length L 0 outputs drawn sealing, Nat.min_self]
  have allowed : inputs.isEmpty = true ∨ spender.isSome = true := by
    by_cases none : inputs = []
    · exact .inl (List.isEmpty_iff.mpr none)
    · exact .inr (keyed none)
  simp only [proverInput, bind_ok, exists_unit, ensure_ok, pure_ok, Bool.and_eq_true,
    Bool.or_eq_true, decide_eq_true_eq]
  refine ⟨⟨fewInputs, fewOutputs⟩, allowed, drawn, sealing, ?_⟩
  cases spender with
  | none =>
    obtain rfl : inputs = [] := by simpa using allowed
    refine ⟨_, rfl, ?_⟩
    rw [writeOutputs_eq]
    simp [writtenBundle, writtenWitness, Witness.text, Witness.nullifiers, Witness.commitments, width]
  | some key =>
    refine ⟨_, writeSpends_ok P tree key inputs inside, ?_⟩
    rw [writeOutputs_eq]
    simp [writtenBundle, writtenWitness, Witness.text, Witness.nullifiers, Witness.commitments, width]

/-! ### Agreement with the statement -/

/-- Some notes are leaves of a tree under the owner tag of the spender. -/
def Owned (leaves : List H32) (spender : Option SpendingKey) (inputs : List Note) : Prop :=
  ∀ note ∈ inputs, ∃ key, spender = some key ∧ leaves[note.position.toNat]? =
    some (noteCommitment P note.value (ownerTag P key.nk) note.rho note.r)

/-- The texts hashed for the nullifiers of some notes. -/
def nullifierTexts (spender : Option SpendingKey) (inputs : List Note) : Set Bytes :=
  {text | ∃ key, spender = some key ∧ ∃ note ∈ inputs,
    text = ascii "ADD/nf/v1" ++ key.nk.val ++ note.rho.val}

/-- The siblings read off the layers fold to the root that the frontier gave. -/
theorem spend_root (leaves : List H32) (room : leaves.length ≤ 2 ^ kTreeDepth) (key : SpendingKey)
    (note : Note) (opened : leaves[note.position.toNat]? =
      some (noteCommitment P note.value (ownerTag P key.nk) note.rho note.r)) :
    (note.spend P (treeOf P leaves) key).root P = (treeOf P leaves).root := by
  obtain ⟨kept, faithful⟩ := treeOf_faithful P leaves room
  have inside : note.position.toNat < leaves.length := by
    by_contra outside
    rw [List.getElem?_eq_none (Nat.le_of_not_lt outside)] at opened
    simp at opened
  have leaf : paddedLeaf leaves note.position.toNat =
      noteCommitment P note.value (ownerTag P key.nk) note.rho note.r := by
    rw [paddedLeaf, List.getD_eq_getElem?_getD, opened, Option.getD_some]
  have folded := siblings_fold P leaves note.position.toNat (Nat.lt_of_lt_of_le inside room)
  rw [leaf] at folded
  rw [faithful.root, kept]
  unfold SpendWitness.root merkleRootFromPath Note.spend
  rw [kept]
  exact folded

/-- Distinct seeds give distinct nullifiers. -/
theorem nullifiers_nodup (key : SpendingKey) (tree : CommitmentTree) (inputs : List Note)
    (distinct : (inputs.map Note.rho).Nodup)
    (injective : Set.InjOn P.sha256 (nullifierTexts (some key) inputs)) :
    ((inputs.map (Note.spend P tree key)).map (SpendWitness.nullifier P)).Nodup := by
  rw [List.map_map]
  refine List.Nodup.map_on ?_ distinct.of_map
  intro note member note' member' same
  have texts := injective ⟨key, rfl, note, member, rfl⟩ ⟨key, rfl, note', member', rfl⟩ same
  have seeds : note.rho = note'.rho := Subtype.ext (List.append_cancel_left texts)
  exact List.inj_on_of_nodup_map distinct member member' seeds

/-- What is written for owned notes is well formed. -/
theorem writtenWitness_formed (tx : Transaction) (spender : Option SpendingKey) (leaves : List H32)
    (inputs : List Note) (outputs : List OutputSpec) (vpubIn vpubOut : UInt64)
    (drawn : List (H32 × EncryptedNote)) (room : leaves.length ≤ 2 ^ kTreeDepth)
    (fewInputs : inputs.length ≤ kMaxIn) (fewOutputs : outputs.length ≤ kMaxOut)
    (owned : Owned P leaves spender inputs) (distinct : (inputs.map Note.rho).Nodup)
    (injective : Set.InjOn P.sha256 (nullifierTexts spender inputs)) :
    WellFormed P (writtenWitness P tx spender inputs (treeOf P leaves) outputs vpubIn vpubOut drawn)
      (if inputs.isEmpty then zeroH32 else (treeOf P leaves).root) := by
  have fewNew : ((outputs.zip (drawn.map Prod.fst)).map newNote).length ≤ kMaxOut := by
    rw [List.length_map, List.length_zip]
    exact (Nat.min_le_left _ _).trans fewOutputs
  cases inputs with
  | nil =>
    have spends : (writtenWitness P tx spender [] (treeOf P leaves) outputs vpubIn vpubOut
        drawn).spends = [] := by cases spender <;> rfl
    refine ⟨by simp [spends], fewNew, ?_, ?_, ?_, fun _ => rfl, ?_⟩ <;>
      simp [spends, Witness.nullifiers]
  | cons first rest =>
    obtain ⟨key, rfl, _⟩ := owned first (by simp)
    refine ⟨?_, fewNew, ?_, ?_, ?_, ?_, ?_⟩
    · simpa [writtenWitness] using fewInputs
    · intro spend member
      obtain ⟨note, listed, rfl⟩ := List.mem_map.mp member
      obtain ⟨_, _, opened⟩ := owned note listed
      exact Nat.lt_of_lt_of_le (List.getElem?_eq_some_iff.mp opened).1 room
    · intro spend member
      obtain ⟨note, _, rfl⟩ := List.mem_map.mp member
      exact PaddedTrees.siblings_length _ _ _ _ _ _
    · intro spend member
      obtain ⟨note, listed, rfl⟩ := List.mem_map.mp member
      obtain ⟨_, same, opened⟩ := owned note listed
      obtain rfl := Option.some.inj same
      exact spend_root P leaves room key note opened
    · simp [writtenWitness]
    · exact nullifiers_nodup P key _ _ distinct injective

/-- The value equation of a call. -/
def ValuesBalance (inputs : List Note) (outputs : List OutputSpec) (vpubIn vpubOut : UInt64) : Prop :=
  vpubIn.toNat + (inputs.map (fun note => note.value.toNat)).sum =
    vpubOut.toNat + (outputs.map (fun output => output.value.toNat)).sum

theorem writtenWitness_balanced (tx : Transaction) (spender : Option SpendingKey) (leaves : List H32)
    (inputs : List Note) (tree : CommitmentTree) (outputs : List OutputSpec)
    (vpubIn vpubOut : UInt64) (drawn : List (H32 × EncryptedNote))
    (owned : Owned P leaves spender inputs) (width : drawn.length = outputs.length) :
    (writtenWitness P tx spender inputs tree outputs vpubIn vpubOut drawn).Balanced ↔
      ValuesBalance inputs outputs vpubIn vpubOut := by
  have spent : (writtenWitness P tx spender inputs tree outputs vpubIn vpubOut drawn).spentValue =
      (inputs.map (fun note => note.value.toNat)).sum := by
    cases inputs with
    | nil => cases spender <;> rfl
    | cons first rest =>
      obtain ⟨key, rfl, _⟩ := owned first (by simp)
      simp only [Witness.spentValue, writtenWitness, Option.elim_some, List.map_map]
      rfl
  have made : (writtenWitness P tx spender inputs tree outputs vpubIn vpubOut drawn).newValue =
      (outputs.map (fun output => output.value.toNat)).sum := by
    have values : (outputs.zip (drawn.map Prod.fst)).map Prod.fst = outputs :=
      List.map_fst_zip (by simp [width])
    rw [← values, List.map_map]
    simp only [Witness.newValue, writtenWitness, List.map_map]
    rw [values]
    rfl
  unfold Witness.Balanced ValuesBalance
  rw [spent, made]
  rfl

instance (inputs : List Note) (outputs : List OutputSpec) (vpubIn vpubOut : UInt64) :
    Decidable (ValuesBalance inputs outputs vpubIn vpubOut) :=
  inferInstanceAs (Decidable (_ = _))

/-- What a call of `build_bundle` is given: a tree within its capacity, notes of the
spender in it, and numbers of notes that fit. The nullifier texts have no SHA-256
collision. -/
structure Buildable (P : Primitives) (spender : Option SpendingKey) (leaves : List H32)
    (inputs : List Note) (outputs : List OutputSpec) : Prop where
  room : leaves.length ≤ 2 ^ kTreeDepth
  fewInputs : inputs.length ≤ kMaxIn
  fewOutputs : outputs.length ≤ kMaxOut
  owned : Owned P leaves spender inputs
  distinct : (inputs.map Note.rho).Nodup
  injective : Set.InjOn P.sha256 (nullifierTexts spender inputs)

/-- The prover is handed a witness that evaluates to the journal of its bundle or to
an error, by the value equation. -/
theorem Buildable.handed {spender : Option SpendingKey} {leaves : List H32} {inputs : List Note}
    {outputs : List OutputSpec} (given : Buildable P spender leaves inputs outputs)
    (tx : Transaction) (vpubIn vpubOut : UInt64) (drawn : List (H32 × EncryptedNote))
    (sealing : sealOutputs L 0 outputs = .ok drawn) :
    ∃ made, proverInput P L tx spender inputs (treeOf P leaves) outputs vpubIn vpubOut = .ok made ∧
      made.bind = bindHash P tx made.bundle ∧
      evaluate P made.witness = if ValuesBalance inputs outputs vpubIn vpubOut then
        .ok (expectedJournal made.bind made.bundle) else .error "value not conserved" := by
  have kept := (treeOf_faithful P leaves given.room).1
  have keyed : inputs ≠ [] → spender.isSome := by
    intro some
    obtain ⟨note, member⟩ := List.exists_mem_of_ne_nil inputs some
    obtain ⟨key, rfl, _⟩ := given.owned note member
    rfl
  have inside : ∀ note ∈ inputs, note.position.toNat < (treeOf P leaves).leaves.length := by
    intro note member
    obtain ⟨_, _, opened⟩ := given.owned note member
    rw [kept]
    exact (List.getElem?_eq_some_iff.mp opened).1
  have formed := writtenWitness_formed P tx spender leaves inputs outputs vpubIn vpubOut drawn
    given.room given.fewInputs given.fewOutputs given.owned given.distinct given.injective
  have balanced := writtenWitness_balanced P tx spender leaves inputs (treeOf P leaves) outputs vpubIn
    vpubOut drawn given.owned (sealOutputs_length L 0 outputs drawn sealing)
  refine ⟨_, proverInput_ok P L tx spender inputs (treeOf P leaves) outputs vpubIn vpubOut drawn
    given.fewInputs given.fewOutputs keyed inside sealing, rfl, ?_⟩
  rw [evaluate_text P _ _ formed]
  exact if_congr balanced rfl rfl

/-- On a tree within its capacity the octets handed to the prover evaluate to the
journal that the bundle is compared with when the values balance, and to an error
when they do not. -/
theorem prover_input_agrees (P : Primitives) (L : ProverLibraries) (tx : Transaction)
    (spender : Option SpendingKey) (leaves : List H32) (inputs : List Note)
    (outputs : List OutputSpec) (vpubIn vpubOut : UInt64) (drawn : List (H32 × EncryptedNote))
    (given : Buildable P spender leaves inputs outputs)
    (sealing : sealOutputs L 0 outputs = .ok drawn) :
    ∃ made, proverInput P L tx spender inputs (treeOf P leaves) outputs vpubIn vpubOut = .ok made ∧
      made.bind = bindHash P tx made.bundle ∧
      (ValuesBalance inputs outputs vpubIn vpubOut →
        evaluate P made.witness = .ok (expectedJournal made.bind made.bundle)) ∧
      (¬ ValuesBalance inputs outputs vpubIn vpubOut →
        ∃ refusal, evaluate P made.witness = .error refusal) := by
  obtain ⟨made, called, bound, evaluated⟩ := given.handed P L tx vpubIn vpubOut drawn sealing
  refine ⟨made, called, bound, ?_, ?_⟩
  · intro balance
    rw [evaluated, if_pos balance]
  · intro unbalanced
    rw [evaluated, if_neg unbalanced]
    exact ⟨_, rfl⟩

/-! ### Two calls -/

/-- Libraries that draw zeros and leave the notes empty. -/
def sampleLibraries : ProverLibraries where
  randBytes := fun _ => some zeroH32
  encrypt := fun _ _ _ => .ok ⟨[], []⟩
  execute := none

/-- A key of zeros. -/
def sampleKey : SpendingKey := ⟨zeroH32⟩

/-- A transaction without parts. -/
def emptyTransaction : Transaction := ⟨[], [], [], [], [], 0, 0, []⟩

/-- A note of seven coins at some position. -/
def sampleNote (position : UInt64) : Note := ⟨7, zeroH32, zeroH32, position⟩

/-- A new note of four coins. -/
def sampleOutput : OutputSpec := ⟨⟨zeroH32, List.replicate 1568 0⟩, 4, []⟩

/-- The commitment of the sample note. -/
def sampleCommitment (P : Primitives) : H32 :=
  noteCommitment P 7 (ownerTag P zeroH32) zeroH32 zeroH32

theorem sampleNote_owned (P : Primitives) (leaves : List H32) (position : UInt64)
    (opened : leaves[position.toNat]? = some (sampleCommitment P)) :
    Owned P leaves (some sampleKey) [sampleNote position] := by
  intro note member
  obtain rfl := List.mem_singleton.mp member
  exact ⟨sampleKey, rfl, opened⟩

theorem sampleNote_injective (P : Primitives) (position : UInt64) :
    Set.InjOn P.sha256 (nullifierTexts (some sampleKey) [sampleNote position]) := by
  rintro text ⟨key, keyed, note, member, rfl⟩ text' ⟨key', keyed', note', member', rfl⟩ _
  obtain rfl := List.mem_singleton.mp member
  obtain rfl := List.mem_singleton.mp member'
  obtain rfl := Option.some.inj (keyed.symm.trans keyed')
  rfl

theorem sampleOutput_sealed :
    sealOutputs sampleLibraries 0 [sampleOutput] = .ok [(zeroH32, ⟨[], []⟩)] := by
  have keyed : sampleOutput.recipient.kemPk.length = 1568 := List.length_replicate
  have sealed : encryptNote sampleLibraries 0 sampleOutput.recipient sampleOutput.value zeroH32
      sampleOutput.memo = .ok ⟨[], []⟩ := by
    simp only [encryptNote, bind_ok, exists_unit, ensure_ok, decide_eq_true_eq]
    exact ⟨Nat.zero_le _, keyed, rfl⟩
  simp only [sealOutputs, bind_ok, pure_ok, Wire.orError_ok]
  exact ⟨_, rfl, _, sealed, _, rfl, rfl⟩

/-- A note of seven coins, spent for a new one of four and three that leave the pool. -/
theorem sampleNote_agrees :
    ∃ made, proverInput samplePrimitives sampleLibraries emptyTransaction (some sampleKey)
        [sampleNote 0] (treeOf samplePrimitives [sampleCommitment samplePrimitives]) [sampleOutput] 0 3 =
          .ok made ∧
      evaluate samplePrimitives made.witness = .ok (expectedJournal made.bind made.bundle) := by
  obtain ⟨made, called, _, balanced, _⟩ := prover_input_agrees samplePrimitives sampleLibraries
    emptyTransaction (some sampleKey) [sampleCommitment samplePrimitives] [sampleNote 0] [sampleOutput]
    0 3 _ ⟨by decide, by decide, by decide, sampleNote_owned _ _ _ rfl, by simp,
      sampleNote_injective _ _⟩ sampleOutput_sealed
  exact ⟨made, called, balanced (by decide)⟩

/-- The octets of a witness whose first spend is beyond the tree are refused. -/
theorem evaluate_beyond (P : Primitives) (witness : Witness) (first : SpendWitness)
    (rest : List SpendWitness) (few : witness.spends.length ≤ kMaxIn)
    (spends : witness.spends = first :: rest) (beyond : ¬ first.pos.toNat < 2 ^ kTreeDepth) :
    evaluate P witness.text = .error "position out of range" := by
  have count := Wire.getU32_restores witness.spends.length (by unfold kMaxIn at few; omega)
  have front : readPublic witness.text =
      some ((witness.bind, witness.vpubIn, witness.vpubOut, witness.spends.length),
        witness.spends.flatMap SpendWitness.text ++
          (Wire.putU32 witness.outputs.length ++ witness.outputs.flatMap OutputWitness.text)) := by
    simp only [readPublic, Witness.text, List.append_assoc, Wire.readH32_restores _ _,
      Wire.getU64_restores _ _, count _, Option.bind_eq_bind, Option.bind_some, Option.pure_def]
  have fields : ∀ later, readSpendFields (first.text ++ later) =
      some ((first.nk, first.value, first.rho, first.r, first.pos),
        putDigests first.siblings ++ later) := by
    intro later
    simp only [readSpendFields, SpendWitness.text, List.append_assoc, Wire.readH32_restores _ _,
      Wire.getU64_restores _ _, Option.bind_eq_bind, Option.bind_some, Option.pure_def]
  have refused : ∀ later, readSpend (first.text ++ later) = .error "position out of range" := by
    intro later
    simp only [readSpend, fields later, Wire.orError, ensure, beyond, bind, Except.bind]
    rfl
  unfold evaluate
  rw [front]
  simp only [Wire.orError, ensure, few, decide_true, ↓reduceIte, bind, Except.bind]
  rw [spends]
  simp only [List.length_cons, tallySpends, List.flatMap_cons, List.append_assoc, refused, bind,
    Except.bind]

/-- One leaf more than a tree has room for. -/
def deepLeaves : List H32 := List.replicate (2 ^ 32 + 1) (sampleCommitment samplePrimitives)

/-- With one leaf more than there is room for, the last leaf is a note that the call
accepts, balanced as it is, and the statement refuses. -/
theorem deep_note_refused :
    deepLeaves[(sampleNote (2 ^ 32)).position.toNat]? = some (sampleCommitment samplePrimitives) ∧
      ValuesBalance [sampleNote (2 ^ 32)] [sampleOutput] 0 3 ∧
      ∃ made, proverInput samplePrimitives sampleLibraries emptyTransaction (some sampleKey)
          [sampleNote (2 ^ 32)] (treeOf samplePrimitives deepLeaves) [sampleOutput] 0 3 = .ok made ∧
        evaluate samplePrimitives made.witness = .error "position out of range" := by
  have place : (sampleNote (2 ^ 32)).position.toNat = 2 ^ 32 := by decide
  have kept : (treeOf samplePrimitives deepLeaves).leaves = deepLeaves :=
    (appendAll_leaves samplePrimitives _ deepLeaves).trans (List.nil_append _)
  have opened : deepLeaves[(sampleNote (2 ^ 32)).position.toNat]? =
      some (sampleCommitment samplePrimitives) := by
    rw [place]
    unfold deepLeaves
    exact List.getElem?_replicate_of_lt (Nat.lt_succ_self _)
  have inside : ∀ note ∈ [sampleNote (2 ^ 32)],
      note.position.toNat < (treeOf samplePrimitives deepLeaves).leaves.length := by
    intro note member
    obtain rfl := List.mem_singleton.mp member
    rw [kept]
    exact (List.getElem?_eq_some_iff.mp opened).1
  refine ⟨opened, by decide, _, proverInput_ok samplePrimitives sampleLibraries
    emptyTransaction (some sampleKey) [sampleNote (2 ^ 32)] (treeOf samplePrimitives deepLeaves)
    [sampleOutput] 0 3 _ (by decide) (by decide) (fun _ => rfl) inside sampleOutput_sealed, ?_⟩
  refine evaluate_beyond samplePrimitives _ _ [] (by decide) rfl ?_
  show ¬ (sampleNote (2 ^ 32)).position.toNat < 2 ^ kTreeDepth
  rw [place]
  exact Nat.lt_irrefl _

end Addition.Shielded
