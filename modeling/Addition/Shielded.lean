import Mathlib.Data.Finset.Basic
import Addition.Wire

/-!
# Shielded bundles and the commitment pool

`shielded.cpp`: the binary bundle inside a transaction's shielded field, the hash
that binds a proof to the rest of its transaction, the append-only commitment
tree with its frontier, and the consensus state of the pool. `State.check` and
`State.apply` are separate, as in the source: nothing in `apply` re-checks.

Note encryption, wallet keys and bundle construction do not take part in
consensus and are left out.
-/

namespace Addition.Shielded

open ByteStrings Checked

/-- Levels of the tree of notes. -/
def kTreeDepth : Nat := 32
/-- Spends of a bundle at most. -/
def kMaxIn : Nat := 4
/-- New notes of a bundle at most. -/
def kMaxOut : Nat := 4
/-- Roots that stay anchors. -/
def kRecentAnchors : Nat := 256
/-- Octets of a proof at most. -/
def kMaxProofBytes : Nat := 4 * 1024 * 1024
/-- Digits of a bundle at most. -/
def kMaxHex : Nat := 2 * (kMaxProofBytes + 64 * 1024)

/-- `hex32`. -/
def hex32 (digest : H32) : Bytes := toHex digest.val

theorem hex32_injective : Function.Injective hex32 := by
  intro left right same
  exact Subtype.ext (toHex_injective _ _ same)

/-! ### Bundles -/

/-- `EncryptedNote`. -/
structure EncryptedNote where
  kemCt : Bytes
  aead : Bytes
deriving DecidableEq

/-- `Bundle`: what goes in and out of the pool, and the proof of it. -/
structure Bundle where
  vpubIn : UInt64
  vpubOut : UInt64
  anchor : H32
  nullifiers : List H32
  commitments : List H32
  enc : List EncryptedNote
  proof : Bytes
deriving DecidableEq

/-- `putv`: a width and that many octets. -/
def putVec (octets : Bytes) : Bytes := Wire.putU32 octets.length ++ octets

/-- The octets of a list of digests. -/
def putDigests (digests : List H32) : Bytes := digests.flatMap Subtype.val

theorem putDigests_length (digests : List H32) :
    (putDigests digests).length = 32 * digests.length := by
  induction digests with
  | nil => rfl
  | cons digest rest ih =>
    rw [putDigests, List.flatMap_cons, List.length_append, digest.property, List.length_cons]
    rw [putDigests] at ih
    omega

/-- The encrypted notes with their count, as bundle and binding text stream them. -/
def putEnc (enc : List EncryptedNote) : Bytes :=
  Wire.putU32 enc.length ++ enc.flatMap (fun note => putVec note.kemCt ++ putVec note.aead)

/-- `serialize`. -/
def serialize (bundle : Bundle) : Bytes :=
  ascii "Z1" ++ Wire.putU64 bundle.vpubIn ++ Wire.putU64 bundle.vpubOut ++ bundle.anchor.val ++
    Wire.putU32 bundle.nullifiers.length ++ putDigests bundle.nullifiers ++
    Wire.putU32 bundle.commitments.length ++ putDigests bundle.commitments ++
    putEnc bundle.enc ++ putVec bundle.proof

/-- `to_tx_field`. -/
def toTxField (bundle : Bundle) : Bytes := toHex (serialize bundle)

/-- `Rd::h`. -/
def readH32 (input : Bytes) : Option (H32 × Bytes) :=
  if enough : 32 ≤ input.length then
    some (⟨input.take 32, by simp [enough]⟩, input.drop 32)
  else none

/-- `Rd::vec`. -/
def readVec (max : Nat) (input : Bytes) : Option (Bytes × Bytes) := do
  let (width, input) ← Wire.getU32 input
  if width > max then none else Wire.take width input

/-- One encrypted note. -/
def readEnc (input : Bytes) : Option (EncryptedNote × Bytes) := do
  let (kemCt, input) ← readVec 4096 input
  let (aead, input) ← readVec 4096 input
  pure (⟨kemCt, aead⟩, input)

/-- The fields of a bundle in order, and what is left. -/
def readBundle (input : Bytes) : Option (Bundle × Bytes) := do
  let (magic, input) ← Wire.take 2 input
  if magic ≠ ascii "Z1" then none
  else
    let (vpubIn, input) ← Wire.getU64 input
    let (vpubOut, input) ← Wire.getU64 input
    let (anchor, input) ← readH32 input
    let (inCount, input) ← Wire.getCount kMaxIn input
    let (nullifiers, input) ← Wire.readMany readH32 inCount input
    let (outCount, input) ← Wire.getCount kMaxOut input
    let (commitments, input) ← Wire.readMany readH32 outCount input
    let (encCount, input) ← Wire.getU32 input
    if encCount ≠ commitments.length then none
    else
      let (enc, input) ← Wire.readMany readEnc encCount input
      let (proof, input) ← readVec kMaxProofBytes input
      pure (⟨vpubIn, vpubOut, anchor, nullifiers, commitments, enc, proof⟩, input)

/-- `deserialize`: the fields must use up the input. -/
def deserialize (input : Bytes) : Except String Bundle :=
  match readBundle input with
  | some (bundle, []) => .ok bundle
  | _ => .error "malformed shielded bundle"

/-- `from_tx_field`: lowercase digits only. -/
def fromTxField (hex : Bytes) : Except String Bundle := do
  ensure (!hex.isEmpty && decide (hex.length ≤ kMaxHex) && decide (hex.length % 2 = 0))
    "malformed shielded bundle hex"
  ensure (hex.all isLowerHex) "malformed shielded bundle hex"
  deserialize (fromHex hex)

variable (P : Primitives)

/-! ### Domain-separated digests -/

/-- `owner_tag`. -/
def ownerTag (nk : H32) : H32 := P.sha256 (ascii "ADD/owner/v1" ++ nk.val)

/-- The octets hashed by `note_commitment`. -/
def commitmentPreimage (value : UInt64) (owner rho r : H32) : Bytes :=
  ascii "ADD/cm/v1" ++ Wire.putU64 value ++ owner.val ++ rho.val ++ r.val

/-- `note_commitment`. -/
def noteCommitment (value : UInt64) (owner rho r : H32) : H32 :=
  P.sha256 (commitmentPreimage value owner rho r)

/-- `nullifier`. -/
def nullifier (nk rho : H32) : H32 := P.sha256 (ascii "ADD/nf/v1" ++ nk.val ++ rho.val)

/-- The octets hashed by `merkle_node`. -/
def nodePreimage (left right : H32) : Bytes := ascii "ADD/mk/v1" ++ left.val ++ right.val

/-- `merkle_node`. -/
def merkleNode (left right : H32) : H32 := P.sha256 (nodePreimage left right)

/-- `output_rho`. -/
def outputRho (bind : H32) (nullifiers : List H32) (index : Nat) : H32 :=
  P.sha256 (ascii "ADD/rho/v1" ++ bind.val ++ putDigests nullifiers ++ Wire.putU32 index)

/-- `image_id`: zero in a build without the proof verifier. -/
def imageId : H32 := if P.decodeReceipt.isSome then P.imageId else zeroH32

/-- `bind_hash`. -/
def bindHash (tx : Transaction) (bundle : Bundle) : H32 :=
  P.sha256 (ascii "ADD/bind/v1" ++
    Wire.putU32 tx.inputs.length ++
    tx.inputs.flatMap (fun input =>
      putVec input.previousTxid ++ Wire.putU32 input.outputIndex.toNat) ++
    Wire.putU32 tx.outputs.length ++
    tx.outputs.flatMap (fun output => putVec output.recipient ++ Wire.putU64 output.amount) ++
    putVec tx.signer ++ putVec tx.signerPubkey ++ Wire.putU64 tx.fee ++ Wire.putU64 tx.nonce ++
    Wire.putU64 bundle.vpubIn ++ Wire.putU64 bundle.vpubOut ++ putEnc bundle.enc ++
    (imageId P).val)

/-- The journal of a statement with these public values. -/
def journalText (bind anchor : H32) (vpubIn vpubOut : UInt64) (nullifiers commitments : List H32) :
    Bytes :=
  ascii "ADDSHLD1" ++ bind.val ++ anchor.val ++ Wire.putU64 vpubIn ++ Wire.putU64 vpubOut ++
    Wire.putU32 nullifiers.length ++ putDigests nullifiers ++
    Wire.putU32 commitments.length ++ putDigests commitments

/-- `expected_journal`. -/
def expectedJournal (bind : H32) (bundle : Bundle) : Bytes :=
  journalText bind bundle.anchor bundle.vpubIn bundle.vpubOut bundle.nullifiers bundle.commitments

/-- The result codes of `addition_shielded.h` that verification returns. -/
inductive VerifyCode where
  | ok
  | errArg
  | errDecode
  | errVerify
  | errJournal
  | errNotSuccinct
deriving DecidableEq

/-- The number of a verdict. -/
def VerifyCode.number : VerifyCode → Nat
  | .ok => 0
  | .errArg => 1
  | .errDecode => 4
  | .errVerify => 5
  | .errJournal => 6
  | .errNotSuccinct => 7

/-- `addition_shielded_verify`. -/
def additionShieldedVerify (decodeReceipt : Bytes → Option Receipt) (receipt journal : Bytes) :
    VerifyCode :=
  if receipt.length = 0 ∨ receipt.length > 4 * 1024 * 1024 then .errArg
  else
    match decodeReceipt receipt with
    | none => .errDecode
    | some decoded =>
      if decoded.succinct = false then .errNotSuccinct
      else if decoded.journal ≠ journal then .errJournal
      else if decoded.verifies then .ok
      else .errVerify

/-- `verify_bundle_proof`: fail-closed without the proof verifier. -/
def verifyBundleProof (tx : Transaction) (bundle : Bundle) : Except String Unit :=
  match P.decodeReceipt with
  | none => .error "shielded: node built without STARK verifier; rejecting (fail-closed)"
  | some decodeReceipt =>
    let code := additionShieldedVerify decodeReceipt bundle.proof
      (expectedJournal (bindHash P tx bundle) bundle)
    if code = .ok then .ok ()
    else .error ("shielded: STARK verification failed (code " ++ toString code.number ++ ")")

/-! ### The commitment tree -/

/-- `empty_`: the roots of empty subtrees by height. -/
def emptyRoot : Nat → H32
  | 0 => zeroH32
  | height + 1 => merkleNode P (emptyRoot height) (emptyRoot height)

/-- `CommitmentTree`: the leaves, the frontier and the root. -/
structure CommitmentTree where
  leaves : List H32
  frontier : Nat → H32
  root : H32

/-- `CommitmentTree::CommitmentTree`. -/
def CommitmentTree.new : CommitmentTree := ⟨[], fun _ => zeroH32, emptyRoot P kTreeDepth⟩

/-- One level of `append`: a left child is remembered in the frontier and joined
with an empty right subtree, a right child is joined with the remembered left. -/
def climb (position : Nat) (state : (Nat → H32) × H32) (level : Nat) : (Nat → H32) × H32 :=
  if (position >>> level) % 2 = 0 then
    (Function.update state.1 level state.2, merkleNode P state.2 (emptyRoot P level))
  else (state.1, merkleNode P (state.1 level) state.2)

/-- `CommitmentTree::append`. -/
def CommitmentTree.append (tree : CommitmentTree) (commitment : H32) : CommitmentTree :=
  let (frontier, root) := (List.range kTreeDepth).foldl (climb P tree.leaves.length)
    (tree.frontier, commitment)
  ⟨tree.leaves ++ [commitment], frontier, root⟩

/-! ### The pool state -/

/-- `State`: the tree, the recent anchors and the nullifiers. -/
structure State where
  tree : CommitmentTree
  recent : List H32
  recentSet : Finset Bytes
  nfs : Finset Bytes
  cms : Finset Bytes

/-- Drop remembered roots from the front until no more than the bound are left. -/
def trimRecent : List H32 → Finset Bytes → List H32 × Finset Bytes
  | [], set => ([], set)
  | oldest :: rest, set =>
    if (oldest :: rest).length > kRecentAnchors then trimRecent rest (set.erase (hex32 oldest))
    else (oldest :: rest, set)

/-- `State::remember_root`. -/
def State.rememberRoot (state : State) : State :=
  let root := hex32 state.tree.root
  let recent := if root ∈ state.recentSet then state.recent else state.recent ++ [state.tree.root]
  let (recent, recentSet) := trimRecent recent (insert root state.recentSet)
  { state with recent := recent, recentSet := recentSet }

/-- `State::State`. -/
def State.new : State := State.rememberRoot ⟨CommitmentTree.new P, [], ∅, ∅, ∅⟩

/-- The nullifier loop of `State::check`. -/
def checkNullifiers (nfs pending : Finset Bytes) : Finset Bytes → List H32 → Except String Unit
  | _, [] => .ok ()
  | seen, nullifier :: rest => do
    let key := hex32 nullifier
    ensure (decide (key ∉ nfs) && decide (key ∉ pending) && decide (key ∉ seen))
      "shielded: nullifier already spent"
    checkNullifiers nfs pending (insert key seen) rest

/-- `State::check`. Repetitions inside one bundle's commitments are not tested
here. -/
def State.check (state : State) (bundle : Bundle) (pending : Finset Bytes) : Except String Unit := do
  ensure (decide (bundle.commitments.length = bundle.enc.length)) "shielded: enc/cm count mismatch"
  ensure (!(bundle.nullifiers.isEmpty && bundle.commitments.isEmpty)) "shielded: empty bundle"
  ensure (bundle.nullifiers.isEmpty || decide (hex32 bundle.anchor ∈ state.recentSet))
    "shielded: unknown or stale anchor"
  ensure (!bundle.nullifiers.isEmpty || decide (bundle.anchor = zeroH32))
    "shielded: anchor must be zero without spends"
  ensure (decide (state.tree.leaves.length + bundle.commitments.length ≤ 2 ^ kTreeDepth))
    "shielded: tree full"
  checkNullifiers state.nfs pending ∅ bundle.nullifiers
  ensure (bundle.commitments.all (fun commitment => decide (hex32 commitment ∉ state.cms)))
    "shielded: duplicate commitment"

/-- `State::apply`. -/
def State.apply (state : State) (bundle : Bundle) : State :=
  State.rememberRoot { state with
    nfs := bundle.nullifiers.foldl (fun nfs nullifier => insert (hex32 nullifier) nfs) state.nfs
    tree := bundle.commitments.foldl (CommitmentTree.append P) state.tree
    cms := bundle.commitments.foldl (fun cms commitment => insert (hex32 commitment) cms) state.cms }

/-- What the checks of a bundle against a pool establish. -/
structure Admitted (state : State) (bundle : Bundle) (pending : Finset Bytes) : Prop where
  anchored : bundle.nullifiers ≠ [] → hex32 bundle.anchor ∈ state.recentSet
  room : state.tree.leaves.length + bundle.commitments.length ≤ 2 ^ kTreeDepth
  unspent : ∀ nullifier ∈ bundle.nullifiers,
    hex32 nullifier ∉ state.nfs ∧ hex32 nullifier ∉ pending
  distinct : bundle.nullifiers.Nodup
  newCommitments : ∀ commitment ∈ bundle.commitments, hex32 commitment ∉ state.cms

/-- Accepted nullifiers are new and differ. -/
theorem checkNullifiers_ok (nfs pending seen : Finset Bytes) (nullifiers : List H32)
    (checked : checkNullifiers nfs pending seen nullifiers = .ok ()) :
    (∀ nullifier ∈ nullifiers, hex32 nullifier ∉ nfs ∧ hex32 nullifier ∉ pending ∧
      hex32 nullifier ∉ seen) ∧ nullifiers.Nodup := by
  induction nullifiers generalizing seen with
  | nil => simp
  | cons nullifier rest ih =>
    simp only [checkNullifiers, bind_ok, exists_unit, ensure_ok, Bool.and_eq_true,
      decide_eq_true_eq] at checked
    obtain ⟨⟨⟨unspent, notPending⟩, new⟩, later⟩ := checked
    obtain ⟨fresh, distinct⟩ := ih _ later
    refine ⟨?_, ?_⟩
    · rintro other member
      rcases List.mem_cons.mp member with rfl | inside
      · exact ⟨unspent, notPending, new⟩
      · obtain ⟨first, second, third⟩ := fresh other inside
        exact ⟨first, second, fun seenBefore => third (by simp [seenBefore])⟩
    · refine List.nodup_cons.mpr ⟨fun member => ?_, distinct⟩
      exact (fresh nullifier member).2.2 (by simp)

/-- A bundle that passes the checks is admitted. -/
theorem State.check_ok (state : State) (bundle : Bundle) (pending : Finset Bytes)
    (checked : state.check bundle pending = .ok ()) : Admitted state bundle pending := by
  simp only [State.check, bind_ok, exists_unit, ensure_ok, Bool.or_eq_true, List.isEmpty_iff,
    decide_eq_true_eq, List.all_eq_true] at checked
  obtain ⟨_, _, anchor, _, room, nullifiers, commitments⟩ := checked
  obtain ⟨fresh, distinct⟩ := checkNullifiers_ok _ _ _ _ nullifiers
  refine ⟨fun spends => anchor.resolve_left spends, room, ?_, distinct, commitments⟩
  intro nullifier member
  obtain ⟨unspent, notPending, _⟩ := fresh nullifier member
  exact ⟨unspent, notPending⟩

@[simp] theorem State.rememberRoot_nfs (state : State) : state.rememberRoot.nfs = state.nfs := rfl

@[simp] theorem State.rememberRoot_cms (state : State) : state.rememberRoot.cms = state.cms := rfl

@[simp] theorem State.rememberRoot_tree (state : State) : state.rememberRoot.tree = state.tree := rfl

theorem mem_insert_all (digests : List H32) (set : Finset Bytes) (key : Bytes) :
    key ∈ digests.foldl (fun all digest => insert (hex32 digest) all) set ↔
      key ∈ set ∨ ∃ digest ∈ digests, hex32 digest = key := by
  induction digests generalizing set with
  | nil => simp
  | cons digest rest ih =>
    rw [List.foldl_cons, ih]
    simp only [Finset.mem_insert, List.mem_cons, exists_eq_or_imp, eq_comm (a := key)]
    tauto

/-- The nullifiers of a pool after a bundle. -/
theorem State.apply_nfs (state : State) (bundle : Bundle) (key : Bytes) :
    key ∈ (state.apply P bundle).nfs ↔
      key ∈ state.nfs ∨ ∃ nullifier ∈ bundle.nullifiers, hex32 nullifier = key :=
  mem_insert_all bundle.nullifiers state.nfs key

end Addition.Shielded
