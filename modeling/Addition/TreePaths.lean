import Addition.Statement

/-!
# Paths of the commitment tree

Three algorithms walk the same tree: appending climbs along the frontier, the wallet reads
siblings off the layers, and the statement folds a leaf with its siblings. The frontier gives
the root of the tree whose places behind the last leaf hold the zero digest, and every path
folds back to it.
-/

namespace Addition.Shielded

variable (P : Primitives)

/-- The digest at a place of the padded tree. -/
def paddedLeaf (leaves : List H32) (place : Nat) : H32 := leaves.getD place zeroH32

/-- The root of the complete tree of depth 32. -/
theorem treeRoot_whole (leaves : List H32) :
    treeRoot P leaves = PaddedTrees.wholeRoot (merkleNode P) kTreeDepth (paddedLeaf leaves) := by
  rw [treeRoot, treeNode, PaddedTrees.nodeAt_whole, Nat.zero_mul]
  simp only [Nat.zero_add]
  rfl

/-- A leaf folds with the siblings read off the layers to the root. -/
theorem siblings_fold (leaves : List H32) (position : Nat) (room : position < 2 ^ kTreeDepth) :
    PaddedTrees.foldPath (merkleNode P) position 0 (paddedLeaf leaves position)
      (PaddedTrees.siblings (merkleNode P) zeroH32 kTreeDepth 0 position leaves) =
        treeRoot P leaves := by
  have folded := PaddedTrees.foldPath_siblings (merkleNode P) zeroH32 leaves position
    kTreeDepth 0 leaves (fun _ => rfl)
  rw [Nat.pow_zero, Nat.div_one, Nat.zero_add, Nat.div_eq_of_lt room] at folded
  exact folded

/-- A tree has a path for every leaf. -/
theorem path_leaf (tree : CommitmentTree) (position : Nat) (inside : position < tree.leaves.length) :
    ∃ siblings, tree.path P position = some siblings ∧ siblings.length = kTreeDepth ∧
      siblings = PaddedTrees.siblings (merkleNode P) zeroH32 kTreeDepth 0 position tree.leaves :=
  ⟨_, if_pos inside, PaddedTrees.siblings_length _ _ _ _ _ _, rfl⟩

/-- The frontier gives the root of the padded tree, and the path of every position folds its
leaf to that root. -/
theorem tree_consistent (leaves : List H32) (room : leaves.length < 2 ^ kTreeDepth) :
    (treeOf P leaves).root =
        PaddedTrees.wholeRoot (merkleNode P) kTreeDepth (paddedLeaf leaves) ∧
      ∀ (pos : UInt64) (inside : pos.toNat < leaves.length),
        ∃ siblings, (treeOf P leaves).path P pos.toNat = some siblings ∧
          siblings.length = kTreeDepth ∧
          merkleRootFromPath P leaves[pos.toNat] pos siblings = (treeOf P leaves).root := by
  obtain ⟨kept, faithful⟩ := treeOf_faithful P leaves (Nat.le_of_lt room)
  have root : (treeOf P leaves).root = treeRoot P leaves := faithful.root.trans (by rw [kept])
  constructor
  · rw [root, treeRoot_whole]
  · intro pos inside
    obtain ⟨siblings, found, width, read⟩ := path_leaf P (treeOf P leaves) pos.toNat (by rwa [kept])
    refine ⟨siblings, found, width, ?_⟩
    have leaf : leaves[pos.toNat] = paddedLeaf leaves pos.toNat :=
      (List.getD_eq_getElem leaves zeroH32 inside).symm
    rw [root, read, kept, leaf]
    exact siblings_fold P leaves pos.toNat (Nat.lt_trans inside room)

/-- Three leaves. The last one has no right neighbour. -/
theorem three_leaves_consistent :
    let leaves := [zeroH32, emptyRoot samplePrimitives 1, emptyRoot samplePrimitives 2]
    ∃ siblings, (treeOf samplePrimitives leaves).path samplePrimitives 2 = some siblings ∧
      siblings.length = kTreeDepth ∧
      merkleRootFromPath samplePrimitives (emptyRoot samplePrimitives 2) 2 siblings =
        (treeOf samplePrimitives leaves).root := by
  intro leaves
  exact (tree_consistent samplePrimitives leaves (by decide)).2 2 (by decide)

end Addition.Shielded
