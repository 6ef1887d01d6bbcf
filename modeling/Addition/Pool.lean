import Addition.Foundations.PaddedTrees
import Addition.Shielded

/-!
# The pool and its bundles

The state of the pool after a list of admitted bundles: the leaves of the tree are
their commitments in order, the frontier yields the root of the tree padded with
zero digests, every remembered anchor is the root over a front part of the leaves,
and the spent keys are those of their nullifiers.

The sibling path of a leaf, which wallets read off the layers, is here too.
-/

namespace Addition.Shielded

open ByteStrings Checked

variable (P : Primitives)

/-- The node of the padded tree at a height and an index. -/
def treeNode (leaves : List H32) (height index : Nat) : H32 :=
  PaddedTrees.nodeAt (merkleNode P) zeroH32 leaves height index

/-- The root of the padded tree. -/
def treeRoot (leaves : List H32) : H32 := treeNode P leaves kTreeDepth 0

/-- `CommitmentTree::path`. -/
def CommitmentTree.path (tree : CommitmentTree) (position : Nat) : Option (List H32) :=
  if position < tree.leaves.length then
    some (PaddedTrees.siblings (merkleNode P) zeroH32 kTreeDepth 0 position tree.leaves)
  else none

/-- A tree built by appending. -/
def treeOf (leaves : List H32) : CommitmentTree :=
  leaves.foldl (CommitmentTree.append P) (CommitmentTree.new P)

theorem emptyRoot_eq (height : Nat) :
    emptyRoot P height = PaddedTrees.emptyAt (merkleNode P) zeroH32 height := by
  induction height with
  | zero => rfl
  | succ height ih => rw [emptyRoot, PaddedTrees.emptyAt, ih]

theorem climb_eq (position : Nat) :
    climb P position = PaddedTrees.climb (merkleNode P) zeroH32 position := by
  funext state level
  unfold climb PaddedTrees.climb
  rw [emptyRoot_eq]

/-! ### The tree -/

/-- The root is that of the padded tree, and the frontier is ready for the next
leaf. -/
structure TreeFaithful (tree : CommitmentTree) : Prop where
  root : tree.root = treeRoot P tree.leaves
  frontier : PaddedTrees.Remembers (merkleNode P) zeroH32 kTreeDepth tree.leaves tree.frontier

theorem treeFaithful_new : TreeFaithful P (CommitmentTree.new P) := by
  constructor
  · show emptyRoot P kTreeDepth = _
    rw [emptyRoot_eq]
    exact (PaddedTrees.nodeAt_beyond (merkleNode P) zeroH32 [] kTreeDepth 0 (by simp)).symm
  · intro level _ odd
    simp [CommitmentTree.new] at odd

theorem append_leaves (tree : CommitmentTree) (commitment : H32) :
    (tree.append P commitment).leaves = tree.leaves ++ [commitment] := rfl

variable {tree : CommitmentTree}

theorem TreeFaithful.append (faithful : TreeFaithful P tree)
    (commitment : H32) (room : tree.leaves.length < 2 ^ kTreeDepth) :
    TreeFaithful P (tree.append P commitment) := by
  obtain ⟨root, frontier⟩ := PaddedTrees.climb_correct (merkleNode P) zeroH32 kTreeDepth tree.leaves
    commitment tree.frontier faithful.frontier room
  rw [← climb_eq] at root frontier
  exact ⟨root, frontier⟩

theorem appendAll_leaves (tree : CommitmentTree) (commitments : List H32) :
    (commitments.foldl (CommitmentTree.append P) tree).leaves = tree.leaves ++ commitments := by
  induction commitments generalizing tree with
  | nil => simp
  | cons commitment rest ih =>
    rw [List.foldl_cons, ih, append_leaves, List.append_assoc,
      List.singleton_append]

theorem TreeFaithful.appendAll (faithful : TreeFaithful P tree)
    (commitments : List H32) (room : tree.leaves.length + commitments.length ≤ 2 ^ kTreeDepth) :
    TreeFaithful P (commitments.foldl (CommitmentTree.append P) tree) := by
  induction commitments generalizing tree with
  | nil => exact faithful
  | cons commitment rest ih =>
    rw [List.length_cons] at room
    refine ih (faithful.append P commitment (by omega)) ?_
    rw [append_leaves, List.length_append, List.length_singleton]
    omega

/-- A tree built by appending has its leaves in order and the root of the padded
tree. -/
theorem treeOf_faithful (leaves : List H32) (room : leaves.length ≤ 2 ^ kTreeDepth) :
    (treeOf P leaves).leaves = leaves ∧ TreeFaithful P (treeOf P leaves) := by
  refine ⟨(appendAll_leaves P _ leaves).trans (by simp [CommitmentTree.new]), ?_⟩
  exact (treeFaithful_new P).appendAll P leaves (by simpa [CommitmentTree.new] using room)

/-! ### The state -/

/-- The pool after a list of admitted bundles. -/
structure PoolOf (bundles : List Bundle) (state : State) : Prop where
  leaves : state.tree.leaves = bundles.flatMap Bundle.commitments
  faithful : TreeFaithful P state.tree
  anchors : ∀ digest, hex32 digest ∈ state.recentSet →
    ∃ count, digest = treeRoot P (state.tree.leaves.take count)
  nullifiers : ∀ digest, hex32 digest ∈ state.nfs ↔ ∃ bundle ∈ bundles, digest ∈ bundle.nullifiers

/-- Trimming only forgets roots. -/
theorem trimRecent_subset (recent : List H32) (set : Finset Bytes) :
    (trimRecent recent set).2 ⊆ set := by
  induction recent generalizing set with
  | nil => exact Finset.Subset.refl _
  | cons oldest rest ih =>
    unfold trimRecent
    split
    · exact (ih _).trans (Finset.erase_subset _ _)
    · exact Finset.Subset.refl _

/-- The roots remembered after remembering one more. -/
theorem rememberRoot_recent (state : State) (key : Bytes)
    (known : key ∈ state.rememberRoot.recentSet) :
    key = hex32 state.tree.root ∨ key ∈ state.recentSet :=
  Finset.mem_insert.mp (trimRecent_subset _ _ known)

theorem poolOf_new : PoolOf P [] (State.new P) := by
  refine ⟨rfl, treeFaithful_new P, ?_, ?_⟩
  · intro digest known
    rcases rememberRoot_recent _ _ known with root | before
    · exact ⟨0, (hex32_injective root).trans (treeFaithful_new P).root⟩
    · simp at before
  · intro digest
    simp [State.new]

/-- An admitted bundle extends the list. -/
theorem PoolOf.apply {bundles : List Bundle} {state : State} (after : PoolOf P bundles state)
    (bundle : Bundle) (pending : Finset Bytes) (admitted : Admitted state bundle pending) :
    PoolOf P (bundles ++ [bundle]) (state.apply P bundle) := by
  have extended := appendAll_leaves P state.tree bundle.commitments
  have faithful := after.faithful.appendAll P bundle.commitments admitted.room
  refine ⟨?_, faithful, ?_, ?_⟩
  · show (bundle.commitments.foldl (CommitmentTree.append P) state.tree).leaves = _
    rw [extended, after.leaves]
    simp
  · intro digest known
    show ∃ count, digest = treeRoot P
      ((bundle.commitments.foldl (CommitmentTree.append P) state.tree).leaves.take count)
    rcases rememberRoot_recent _ _ known with root | before
    · refine ⟨(state.tree.leaves ++ bundle.commitments).length, ?_⟩
      rw [hex32_injective root]
      show (bundle.commitments.foldl (CommitmentTree.append P) state.tree).root = _
      rw [faithful.root, extended, List.take_length]
    · obtain ⟨count, same⟩ := after.anchors digest before
      refine ⟨min count state.tree.leaves.length, ?_⟩
      rw [extended, List.take_append_of_le_length (Nat.min_le_right _ _), same]
      exact congrArg (treeRoot P) List.take_eq_take_min
  · intro digest
    rw [State.apply_nfs, after.nullifiers]
    constructor
    · rintro (⟨earlier, member, spent⟩ | ⟨own, member, same⟩)
      · exact ⟨earlier, by simp [member], spent⟩
      · exact ⟨bundle, by simp, hex32_injective same ▸ member⟩
    · rintro ⟨other, member, spent⟩
      rcases List.mem_append.mp member with earlier | last
      · exact .inl ⟨other, earlier, spent⟩
      · obtain rfl : other = bundle := by simpa using last
        exact .inr ⟨digest, spent, rfl⟩

end Addition.Shielded
