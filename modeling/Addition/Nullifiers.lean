import Addition.Outpoints
import Addition.Solvency

/-!
# Nullifiers of the notes of a chain

The nonce of a new note is the digest of the transaction it was made in, of the nullifiers
spent there and of its position. Two bundles with nullifiers differ in them. A bundle
without nullifiers stands in a transaction with inputs, and two such transactions differ in
their outpoints, as long as no outpoint is spent twice. So no two notes have one nonce, no
key has one nullifier for two notes, and a note is spent only by a spend that opens it.
-/

namespace Addition

open ByteStrings Checked Shielded

/-! ### The hashed texts -/

variable (P : Primitives)

/-- The octets hashed by `bind_hash` behind the inputs. -/
def bindTail (tx : Transaction) (bundle : Bundle) : Bytes :=
  Wire.putU32 tx.outputs.length ++
    tx.outputs.flatMap (fun output => putVec output.recipient ++ Wire.putU64 output.amount) ++
    putVec tx.signer ++ putVec tx.signerPubkey ++ Wire.putU64 tx.fee ++ Wire.putU64 tx.nonce ++
    Wire.putU64 bundle.vpubIn ++ Wire.putU64 bundle.vpubOut ++ putEnc bundle.enc ++
    (imageId P).val

/-- The octets hashed by `bind_hash`. -/
def bindText (tx : Transaction) (bundle : Bundle) : Bytes :=
  ascii "ADD/bind/v1" ++ (Wire.putU32 tx.inputs.length ++
    (tx.inputs.flatMap (fun input =>
      putVec input.previousTxid ++ Wire.putU32 input.outputIndex.toNat) ++ bindTail P tx bundle))

/-- The octets hashed by `output_rho`. -/
def rhoText (bind : H32) (nullifiers : List H32) (index : Nat) : Bytes :=
  ascii "ADD/rho/v1" ++ bind.val ++ putDigests nullifiers ++ Wire.putU32 index

/-- The octets hashed by `nullifier`. -/
def nullifierText (nk rho : H32) : Bytes := ascii "ADD/nf/v1" ++ nk.val ++ rho.val

theorem bindHash_text (tx : Transaction) (bundle : Bundle) :
    bindHash P tx bundle = P.sha256 (bindText P tx bundle) := by
  simp [bindHash, bindText, bindTail]

variable {P}

theorem rhoText_injective (bind bind' : H32) (nullifiers nullifiers' : List H32) (index index' : Nat)
    (bound : index < 2 ^ 32) (bound' : index' < 2 ^ 32)
    (same : rhoText bind nullifiers index = rhoText bind' nullifiers' index') :
    bind = bind' ∧ nullifiers = nullifiers' ∧ index = index' := by
  simp only [rhoText, List.append_assoc, List.append_cancel_left_eq] at same
  obtain ⟨binds, same⟩ := cut_digest _ _ _ _ same
  have widths := congrArg List.length same
  simp only [List.length_append, putDigests_length] at widths
  have word : ∀ value, (Wire.putU32 value).length = 4 := by
    intro value
    simp [Wire.putU32]
  rw [word, word] at widths
  obtain ⟨nfs, indices⟩ := cut_digests _ _ (by omega) _ _ same
  exact ⟨binds, nfs, putU32_injective _ _ bound bound' indices⟩

theorem nullifierText_injective (nk nk' rho rho' : H32)
    (same : nullifierText nk rho = nullifierText nk' rho') : nk = nk' ∧ rho = rho' := by
  simp only [nullifierText, List.append_assoc, List.append_cancel_left_eq] at same
  obtain ⟨keys, rhos⟩ := cut_digest _ _ _ _ same
  exact ⟨keys, Subtype.ext rhos⟩

/-- Transactions with inputs and one text have their first outpoint in common. -/
theorem bindText_outpoint (tx tx' : Transaction) (bundle bundle' : Bundle)
    (spends : tx.inputs ≠ []) (spends' : tx'.inputs ≠ [])
    (short : ∀ input ∈ tx.inputs, input.previousTxid.length = 128)
    (short' : ∀ input ∈ tx'.inputs, input.previousTxid.length = 128)
    (same : bindText P tx bundle = bindText P tx' bundle') :
    ∃ outpoint, outpoint ∈ tx.inputs.map TxInput.outpoint ∧
      outpoint ∈ tx'.inputs.map TxInput.outpoint := by
  obtain ⟨input, rest, listed⟩ := List.exists_cons_of_ne_nil spends
  obtain ⟨input', rest', listed'⟩ := List.exists_cons_of_ne_nil spends'
  have width := short input (by simp [listed])
  have width' := short' input' (by simp [listed'])
  simp only [bindText, listed, listed', List.flatMap_cons, putVec, List.append_assoc,
    List.append_cancel_left_eq] at same
  obtain ⟨_, same⟩ := cut_width _ _ _ _ (by simp [Wire.putU32]) same
  obtain ⟨_, same⟩ := cut_width _ _ _ _ (by simp [Wire.putU32]) same
  obtain ⟨ids, same⟩ := cut_width _ _ _ _ (by rw [width, width']) same
  obtain ⟨indices, _⟩ := cut_count _ _ input.outputIndex.toNat_lt input'.outputIndex.toNat_lt _ _ same
  refine ⟨input.outpoint, by simp [listed], ?_⟩
  have outpoints : input.outpoint = input'.outpoint :=
    Prod.ext ids (UInt32.toNat_inj.mp indices)
  simp [listed', outpoints]

/-! ### The notes of a bundle -/

variable (P) in
/-- The nonces of the notes that a bundle appends. -/
def rhosOf (applied : Transaction × Bundle) : List H32 :=
  (List.range applied.2.commitments.length).map
    (outputRho P (bindHash P applied.1 applied.2) applied.2.nullifiers)

variable (P) in
/-- The nonces of the notes of a chain, in the order of their commitments. -/
def Chain.rhos (chain : Chain) : List H32 := (shieldedOf chain.confirmed).flatMap (rhosOf P)

variable (P) in
/-- A commitment is that of a note with a nonce, and was hashed from such a text. -/
def DerivedFrom (texts : Set Bytes) (commitment rho : H32) : Prop :=
  ∃ value owner r, commitment = noteCommitment P value owner rho r ∧
    commitmentPreimage value owner rho r ∈ texts

/-- The commitments of some outputs are derived from the nonces of their positions, which
were hashed too. -/
theorem outputs_derived (texts : Set Bytes) (bind : H32) (nfs : List H32) (j : Nat)
    (outputs : List OutputWitness)
    (hashed : ∀ text ∈ outputTexts P bind nfs j outputs, text ∈ texts) :
    List.Forall₂ (DerivedFrom P texts) (commitmentsFrom P bind nfs j outputs)
        ((List.range' j outputs.length).map (outputRho P bind nfs)) ∧
      ∀ index, j ≤ index → index < j + outputs.length → rhoText bind nfs index ∈ texts := by
  induction outputs generalizing j with
  | nil =>
    constructor
    · exact .nil
    · intro index low high
      simp at high
      omega
  | cons output rest ih =>
    obtain ⟨later, rhos⟩ := ih (j + 1) (fun text member => hashed text (by
      simp [outputTexts, member]))
    constructor
    · rw [List.length_cons, List.range'_succ, List.map_cons, commitmentsFrom]
      exact .cons ⟨output.value, output.owner, output.r, rfl, hashed _ (by simp [outputTexts])⟩ later
    · intro index low high
      rcases Nat.eq_or_lt_of_le low with rfl | later
      · exact hashed _ (by simp [outputTexts, rhoText])
      · exact rhos index later (by rw [List.length_cons] at high; omega)

variable (P) in
/-- A bundle whose notes were derived as the statement says, from texts of a set. -/
structure DerivedBundle (texts : Set Bytes) (applied : Transaction × Bundle) : Prop where
  notes : List.Forall₂ (DerivedFrom P texts) applied.2.commitments (rhosOf P applied)
  hashed : ∀ index < applied.2.commitments.length,
    rhoText (bindHash P applied.1 applied.2) applied.2.nullifiers index ∈ texts
  few : applied.2.commitments.length ≤ kMaxOut

/-- What evaluates to the journal of a bundle derives its notes. -/
theorem Shielded.Witnessed.derived {texts : Set Bytes} {applied : Transaction × Bundle} {witness : Witness}
    (witnessed : Witnessed P texts applied.2 witness) (proves : Proves P applied witness) :
    DerivedBundle P texts applied := by
  have journal := (evaluate_text P witness applied.2.anchor witnessed.formed).symm.trans proves
  rw [if_pos witnessed.balanced] at journal
  have bind : witness.bind = bindHash P applied.1 applied.2 := by
    have same := Except.ok.inj journal
    simp only [Witness.journal, expectedJournal, journalText, List.append_assoc,
      List.append_cancel_left_eq] at same
    exact (cut_digest _ _ _ _ same).1
  obtain ⟨notes, rhos⟩ := outputs_derived texts witness.bind (witness.nullifiers P) 0 witness.outputs
    (fun text member => witnessed.hashed text (List.mem_append_right _ member))
  have commitments : commitmentsFrom P witness.bind (witness.nullifiers P) 0 witness.outputs =
      applied.2.commitments := witnessed.commitments
  have count : applied.2.commitments.length = witness.outputs.length := by
    rw [← commitments, commitmentsFrom_length]
  rw [bind, witnessed.nullifiers] at rhos
  constructor
  · rw [commitments, bind, witnessed.nullifiers, ← count, ← List.range_eq_range'] at notes
    exact notes
  · intro index inside
    exact rhos index (Nat.zero_le _) (by omega)
  · rw [count]
    exact witnessed.formed.fewOutputs

/-! ### Bundles of a chain -/

/-- The transactions of a block were valid where they were applied. -/
theorem applyLoop_valid (transactions : List Transaction) (chain applied : Chain)
    (loop : each (applyNext P) chain transactions = (.ok (), applied)) :
    ∀ tx ∈ transactions, ∃ before, validateTransaction P before tx false = .ok () := by
  induction transactions generalizing chain with
  | nil => simp
  | cons first rest ih =>
    obtain ⟨next, step, later⟩ := (each_cons_ok _ _ _ _ _).mp loop
    intro tx member
    rcases List.mem_cons.mp member with rfl | inside
    · obtain ⟨_, _, _, applied, _⟩ := applyNext_ok P chain tx next step
      exact ⟨chain, applied.valid⟩
    · exact ih next later tx inside

variable {cfg : ChainConfig} {chain : Chain} {condition : StepCondition}

/-- A bundle stands in a transaction with inputs, or spends a note. -/
theorem Grown.spends_something (grown : Grown P condition cfg chain) :
    ∀ applied ∈ shieldedOf chain.confirmed, applied.2.nullifiers = [] → applied.1.inputs ≠ [] := by
  have carried : ∀ tx ∈ chain.confirmed, ∀ bundle, bundleOf tx = some bundle →
      bundle.nullifiers = [] → tx.inputs ≠ [] := by
    refine grown.carries (fun chain => ∀ tx ∈ chain.confirmed, ∀ bundle, bundleOf tx = some bundle →
      bundle.nullifiers = [] → tx.inputs ≠ []) (by simp [Chain.confirmed, Chain.new, makeGenesis]) ?_
    intro now chain block reached _ earlier _ accepted tx member bundle carried none
    rw [addBlock_confirmed now chain reached block accepted] at member
    rcases List.mem_append.mp member with before | new
    · exact earlier tx before bundle carried none
    obtain ⟨_, _, _, _, _, _, _, went, _⟩ := addBlock_ok P now chain block reached accepted
    obtain ⟨before, valid⟩ := applyLoop_valid block.transactions _ _ went.applied tx new
    obtain ⟨_, coinbase | ⟨other, form⟩ | ⟨_, spend⟩⟩ := validateTransaction_forms P before tx valid
    · simp [bundleOf_transparent tx coinbase.transparent] at carried
    · obtain rfl : bundle = other :=
        Option.some.inj (carried.symm.trans (bundleOf_decoded tx other form.shielded.decoded))
      exact absurd none form.spendsNote
    · exact spend.hasInputs
  rintro ⟨tx, bundle⟩ member none
  obtain ⟨source, listed, carries⟩ := List.mem_filterMap.mp member
  obtain ⟨found, decoded, same⟩ := Option.map_eq_some_iff.mp carries
  obtain ⟨rfl, rfl⟩ := Prod.mk.inj same
  exact carried source listed found decoded none

/-- The identifiers that a confirmed transaction names are digests. -/
theorem Grown.previous_length (grown : Grown P condition cfg chain) :
    ∀ applied ∈ shieldedOf chain.confirmed, ∀ input ∈ applied.1.inputs,
      input.previousTxid.length = 128 := by
  rintro ⟨tx, bundle⟩ member input inside
  obtain ⟨source, listed, carries⟩ := List.mem_filterMap.mp member
  obtain ⟨found, _, same⟩ := Option.map_eq_some_iff.mp carries
  obtain ⟨rfl, rfl⟩ := Prod.mk.inj same
  obtain ⟨earlier, _, named⟩ := grown.ledger.source source listed input inside
  rw [named]
  exact strongHash_length P _

/-- Two bundles of a chain share no outpoint and no nullifier. -/
def Separate (applied applied' : Transaction × Bundle) : Prop :=
  List.Disjoint (applied.1.inputs.map TxInput.outpoint) (applied'.1.inputs.map TxInput.outpoint) ∧
    List.Disjoint applied.2.nullifiers applied'.2.nullifiers

/-- As long as no outpoint is spent twice, the bundles of a chain are separate. -/
theorem bundles_separate (admissions : Admissions P (bundlesOf chain.confirmed))
    (once : (chain.confirmed.flatMap (fun tx => tx.inputs.map TxInput.outpoint)).Nodup) :
    (shieldedOf chain.confirmed).Pairwise Separate := by
  have outpoints : (shieldedOf chain.confirmed).Pairwise (fun applied applied' =>
      List.Disjoint (applied.1.inputs.map TxInput.outpoint)
        (applied'.1.inputs.map TxInput.outpoint)) := by
    refine List.Pairwise.filterMap _ ?_ (List.nodup_flatMap.mp once).2
    intro tx tx' apart applied carries applied' carries'
    obtain ⟨_, _, rfl⟩ := Option.map_eq_some_iff.mp carries
    obtain ⟨_, _, rfl⟩ := Option.map_eq_some_iff.mp carries'
    exact apart
  have nullifiers := (List.nodup_flatMap.mp admissions.nullifiers_distinct).2
  rw [bundlesOf, List.pairwise_map] at nullifiers
  exact outpoints.and nullifiers

/-! ### Distinct nonces -/

variable {texts : Set Bytes}

/-- The positions of one bundle have distinct nonces. -/
theorem rhosOf_nodup (injective : Set.InjOn P.sha256 texts) (applied : Transaction × Bundle)
    (derived : DerivedBundle P texts applied) : (rhosOf P applied).Nodup := by
  have few : applied.2.commitments.length ≤ 4 := derived.few
  refine List.Nodup.map_on ?_ List.nodup_range
  intro index member index' member' same
  rw [List.mem_range] at member member'
  have rhos := injective (derived.hashed index member) (derived.hashed index' member') same
  exact (rhoText_injective _ _ _ _ _ _ (by omega) (by omega) rhos).2.2

/-- Two bundles that share neither outpoints nor nullifiers share no nonce. -/
theorem rhosOf_disjoint (injective : Set.InjOn P.sha256 texts) (applied applied' : Transaction × Bundle)
    (derived : DerivedBundle P texts applied) (derived' : DerivedBundle P texts applied')
    (bind : bindText P applied.1 applied.2 ∈ texts) (bind' : bindText P applied'.1 applied'.2 ∈ texts)
    (spends : applied.2.nullifiers = [] → applied.1.inputs ≠ [])
    (spends' : applied'.2.nullifiers = [] → applied'.1.inputs ≠ [])
    (short : ∀ input ∈ applied.1.inputs, input.previousTxid.length = 128)
    (short' : ∀ input ∈ applied'.1.inputs, input.previousTxid.length = 128)
    (separate : Separate applied applied') : List.Disjoint (rhosOf P applied) (rhosOf P applied') := by
  intro rho member member'
  obtain ⟨index, inside, rfl⟩ := List.mem_map.mp member
  obtain ⟨index', inside', same⟩ := List.mem_map.mp member'
  rw [List.mem_range] at inside inside'
  have few : applied.2.commitments.length ≤ 4 := derived.few
  have few' : applied'.2.commitments.length ≤ 4 := derived'.few
  have rhos := injective (derived'.hashed index' inside') (derived.hashed index inside) same
  obtain ⟨binds, nfs, _⟩ := rhoText_injective _ _ _ _ _ _ (by omega) (by omega) rhos
  rcases List.eq_nil_or_concat applied.2.nullifiers with none | ⟨front, spent, some⟩
  · -- neither spends a note, so their inputs were hashed under one digest
    rw [bindHash_text, bindHash_text] at binds
    obtain ⟨outpoint, first, second⟩ := bindText_outpoint _ _ _ _ (spends none)
      (spends' (nfs.trans none)) short short' (injective bind bind' binds.symm)
    exact separate.1 first second
  · have listed : spent ∈ applied.2.nullifiers := by simp [some]
    exact separate.2 listed (nfs ▸ listed)

theorem forall₂_mem {α β : Type} {relation relation' : α → β → Prop} {items : List α} {others : List β}
    (related : List.Forall₂ relation items others) (related' : List.Forall₂ relation' items others) :
    ∀ item ∈ items, ∃ other ∈ others, relation item other ∧ relation' item other := by
  induction related with
  | nil => simp
  | cons first _ ih =>
    obtain ⟨first', rest'⟩ := List.forall₂_cons.mp related'
    intro item member
    rcases List.mem_cons.mp member with rfl | inside
    · exact ⟨_, by simp, first, first'⟩
    · obtain ⟨other, listed, both⟩ := ih rest' item inside
      exact ⟨other, by simp [listed], both⟩

/-- The commitments of bundles are derived from their nonces. -/
theorem bundles_derived (applied : List (Transaction × Bundle))
    (derived : ∀ bundle ∈ applied, DerivedBundle P texts bundle) :
    List.Forall₂ (DerivedFrom P texts) (applied.flatMap (fun bundle => bundle.2.commitments))
      (applied.flatMap (rhosOf P)) := by
  induction applied with
  | nil => exact .nil
  | cons first rest ih =>
    rw [List.flatMap_cons, List.flatMap_cons]
    exact List.rel_append (derived first (by simp)).notes
      (ih (fun bundle member => derived bundle (by simp [member])))

variable (P) in
/-- What is assumed of a chain: SHA-256 has no collision among some texts, each verified
bundle has a witness whose evaluation gives its journal and hashes such texts only, the
bundles were bound by such texts, and no outpoint is spent twice. -/
structure NoteAssumptions (chain : Chain) (texts : Set Bytes) : Prop where
  injective : Set.InjOn P.sha256 texts
  sound : ∀ tx ∈ chain.confirmed, ∀ bundle, bundleOf tx = some bundle →
    verifyBundleProof P tx bundle = .ok () →
    ∃ octets, evaluate P octets = .ok (expectedJournal (bindHash P tx bundle) bundle) ∧
      hashedBy P octets ⊆ texts
  binds : ∀ applied ∈ shieldedOf chain.confirmed, bindText P applied.1 applied.2 ∈ texts
  once : (chain.confirmed.flatMap (fun tx => tx.inputs.map TxInput.outpoint)).Nodup

/-- The spends of a chain publish its nullifiers. -/
theorem spent_iff {bundles : List Bundle} {pool : State} (gathered : PoolOf P bundles pool)
    {witnesses : List Witness} (witnessed : List.Forall₂ (Witnessed P texts) bundles witnesses)
    (digest : H32) : hex32 digest ∈ pool.nfs ↔
      ∃ spend ∈ witnesses.flatMap Witness.spends, spend.nullifier P = digest := by
  rw [gathered.nullifiers, ← List.mem_flatMap, ← nullifiers_of_bundles witnessed,
    show witnesses.flatMap (Witness.nullifiers P) =
      (witnesses.flatMap Witness.spends).map (SpendWitness.nullifier P) by
      rw [List.map_flatMap]; rfl, List.mem_map]

/-- The notes of a chain are derived from distinct nonces, so two keys never have one
nullifier for two of them; and a nullifier of a note is published only by a spend with its
key and its nonce, which opens no other note. -/
theorem notes_never_share_nullifier (P : Primitives) (cfg : ChainConfig) (chain : Chain)
    (texts : Set Bytes) (reachable : Reachable P cfg chain) (assumed : NoteAssumptions P chain texts) :
    (chain.rhos P).Nodup ∧
    List.Forall₂ (DerivedFrom P texts) chain.shielded.tree.leaves (chain.rhos P) ∧
    (∀ rho ∈ chain.rhos P, ∀ rho' ∈ chain.rhos P, ∀ nk nk', nullifierText nk rho ∈ texts →
      nullifierText nk' rho' ∈ texts → nullifier P nk rho = nullifier P nk' rho' → rho = rho') ∧
    ∃ witnesses : List Witness,
      List.Forall₂ (Proves P) (shieldedOf chain.confirmed) witnesses ∧
      ∀ position rho nk, (chain.rhos P)[position]? = some rho → nullifierText nk rho ∈ texts →
        hex32 (nullifier P nk rho) ∈ chain.shielded.nfs →
        ∃ witness ∈ witnesses, ∃ spend ∈ witness.spends, spend.nullifier P = nullifier P nk rho ∧
          spend.nk = nk ∧ spend.rho = rho ∧ ∀ other : Nat,
            chain.shielded.tree.leaves[other]? = some (spend.commitment P) → other = position := by
  have grown := reachable.grown
  have ledger := grown.poolLedger
  obtain ⟨witnesses, proves, witnessed⟩ := witnesses_exist assumed.sound grown.proved
  have derived : ∀ applied ∈ shieldedOf chain.confirmed, DerivedBundle P texts applied := by
    intro applied member
    rw [bundlesOf, List.forall₂_map_left_iff] at witnessed
    obtain ⟨witness, _, proof, statement⟩ := forall₂_mem proves witnessed applied member
    exact statement.derived proof
  have separate := bundles_separate ledger.admissions assumed.once
  have distinct : (chain.rhos P).Nodup := by
    refine List.nodup_flatMap.mpr ⟨fun applied member => rhosOf_nodup assumed.injective applied
      (derived applied member), separate.imp_of_mem ?_⟩
    intro applied applied' member member' apart
    exact rhosOf_disjoint assumed.injective applied applied' (derived applied member)
      (derived applied' member') (assumed.binds applied member) (assumed.binds applied' member')
      (grown.spends_something applied member) (grown.spends_something applied' member')
      (grown.previous_length applied member) (grown.previous_length applied' member') apart
  have notes : List.Forall₂ (DerivedFrom P texts) chain.shielded.tree.leaves (chain.rhos P) := by
    rw [ledger.gathered.leaves, bundlesOf, List.flatMap_map]
    exact bundles_derived _ derived
  refine ⟨distinct, notes, ?_, witnesses, proves, ?_⟩
  · intro rho _ rho' _ nk nk' inside inside' same
    exact (nullifierText_injective _ _ _ _ (assumed.injective inside inside' same)).2
  · intro position rho nk placed inside spent
    obtain ⟨spend, listed, published⟩ := (spent_iff ledger.gathered witnessed _).mp spent
    have hashed := spendTexts_all witnessed spend listed
    have preimages := assumed.injective (hashed (nullifierText spend.nk spend.rho)
      (by simp [SpendWitness.texts, nullifierText])) inside published
    obtain ⟨keys, rhos⟩ := nullifierText_injective _ _ _ _ preimages
    obtain ⟨witness, among, member⟩ := List.mem_flatMap.mp listed
    refine ⟨witness, among, spend, member, published, keys, rhos, ?_⟩
    intro other opened
    -- the note at the other position was derived from the nonce of the spend
    obtain ⟨width, aligned⟩ := List.forall₂_iff_get.mp notes
    obtain ⟨bound, found⟩ := List.getElem?_eq_some_iff.mp opened
    obtain ⟨value, owner, r, digest, occurs⟩ := aligned other bound (width ▸ bound)
    rw [List.get_eq_getElem, found] at digest
    have texts := assumed.injective (hashed _ (by simp [SpendWitness.texts])) occurs digest
    obtain ⟨_, _, nonce, _⟩ := commitmentPreimage_injective _ _ _ _ _ _ _ _ texts
    obtain ⟨bound', here⟩ := List.getElem?_eq_some_iff.mp placed
    exact (List.Nodup.getElem_inj_iff distinct).mp (by
      rw [here, ← rhos, nonce, List.get_eq_getElem])

/-! ### The deposit and the withdrawal -/

/-- What the bundles of the run were bound by, and the nullifier of the second note. -/
def bindTexts : List Bytes :=
  [bindText depositPrimitives deposit depositBundle,
    bindText depositPrimitives withdrawal withdrawBundle,
    nullifierText zeroH32 (outputRho depositPrimitives depositWitness.bind [] 1)]

set_option maxRecDepth 100000 in
theorem noteTexts_distinct :
    ((bindTexts ++ poolTexts).map depositPrimitives.sha256).Nodup := by
  rw [List.map_append, List.nodup_append]
  exact ⟨by decide +kernel, poolTexts_clean.1, by decide +kernel⟩

theorem withdrawn_noteAssumptions :
    NoteAssumptions depositPrimitives withdrawn {text | text ∈ bindTexts ++ poolTexts} := by
  have shown := withdrawn_assumptions
  constructor
  · intro text member text' member' same
    exact List.inj_on_of_nodup_map noteTexts_distinct member member' same
  · intro tx member bundle carried verified
    obtain ⟨octets, evaluated, hashed⟩ := shown.sound tx member bundle carried verified
    exact ⟨octets, evaluated, hashed.trans fun text listed => List.mem_append_right _ listed⟩
  · rw [withdrawn_shielded]
    intro applied member
    rcases List.mem_pair.mp member with rfl | rfl
    · exact List.mem_append_left _ (by simp [bindTexts])
    · exact List.mem_append_left _ (by simp [bindTexts])
  · rw [withdrawn_confirmed]
    decide +kernel

/-- The two notes of the deposit have nonces and nullifiers of their own. The withdrawal
published the nullifier of the first one, by a spend with its nonce that opens no other. -/
theorem withdrawn_notes_distinct :
    (withdrawn.rhos depositPrimitives).Nodup ∧
      withdrawn.rhos depositPrimitives =
        [outputRho depositPrimitives depositWitness.bind [] 0,
          outputRho depositPrimitives depositWitness.bind [] 1] ∧
      nullifier depositPrimitives zeroH32 (outputRho depositPrimitives depositWitness.bind [] 0) ≠
        nullifier depositPrimitives zeroH32 (outputRho depositPrimitives depositWitness.bind [] 1) ∧
      ∃ (witness : Witness) (spend : SpendWitness), spend ∈ witness.spends ∧ spend.nk = zeroH32 ∧
        spend.rho = outputRho depositPrimitives depositWitness.bind [] 0 ∧
        ∀ other : Nat, withdrawn.shielded.tree.leaves[other]? =
          some (spend.commitment depositPrimitives) → other = 0 := by
  obtain ⟨distinct, _, apart, witnesses, _, spends⟩ := notes_never_share_nullifier depositPrimitives
    shieldedRegtest withdrawn _ withdrawn_reachable withdrawn_noteAssumptions
  have bound : bindHash depositPrimitives deposit depositBundle = depositWitness.bind := by
    simp only [bindHash, deposit, depositBundle, depositWitness]
  have rhos : withdrawn.rhos depositPrimitives =
      [outputRho depositPrimitives depositWitness.bind [] 0,
        outputRho depositPrimitives depositWitness.bind [] 1] := by
    rw [Chain.rhos, withdrawn_shielded, List.flatMap_cons, rhosOf, bound]
    rfl
  refine ⟨distinct, rhos, fun same => ?_, ?_⟩
  · rw [rhos] at distinct apart
    have equal := apart _ (List.mem_cons_self ..) _ (List.mem_cons_of_mem _ (List.mem_singleton_self _))
      zeroH32 zeroH32 (List.mem_append_right _ (by simp [poolTexts, nullifierText, withdrawSpend]))
      (List.mem_append_left _ (by simp [bindTexts])) same
    exact (List.nodup_cons.mp distinct).1 (by simp [equal])
  · obtain ⟨witness, _, spend, member, _, key, rho, only⟩ := spends 0
      (outputRho depositPrimitives depositWitness.bind [] 0) zeroH32 (by rw [rhos]; rfl)
      (List.mem_append_right _ (by simp [poolTexts, nullifierText, withdrawSpend])) (by
        rw [withdrawn_reachable.grown.poolLedger.gathered.nullifiers, bundlesOf, withdrawn_shielded]
        exact ⟨withdrawBundle, by simp, List.mem_singleton_self _⟩)
    exact ⟨witness, spend, member, key, rho, only⟩

end Addition
