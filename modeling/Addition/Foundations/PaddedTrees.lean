import Mathlib.Data.List.Basic
import Mathlib.Data.Nat.Bitwise
import Mathlib.Data.Set.Function
import Mathlib.Logic.Function.Basic

/-!
# Append-only trees of fixed depth

The leaves of a tree of fixed depth are a list; the places behind it hold one
padding value. The node at a height and an index is determined by the leaves, so
every algorithm is compared with that one function: appending along a frontier of
remembered left siblings, reading siblings off the layers, and folding a leaf with
the siblings of its position back to the root.

Folding binds. If the joining function does not identify two pairs that occur, a
leaf that folds to the root of a tree is the leaf of that tree at its position.
-/

namespace PaddedTrees

variable {α : Type} (node : α → α → α) (padding : α)

/-- The node over nothing but padding. -/
def emptyAt : Nat → α
  | 0 => padding
  | height + 1 => node (emptyAt height) (emptyAt height)

/-- The node at a height and an index. -/
def nodeAt (leaves : List α) : Nat → Nat → α
  | 0, index => leaves.getD index padding
  | height + 1, index =>
    node (nodeAt leaves height (2 * index)) (nodeAt leaves height (2 * index + 1))

/-- Behind the last leaf there is only padding. -/
theorem nodeAt_beyond (leaves : List α) (height index : Nat)
    (beyond : leaves.length ≤ index * 2 ^ height) :
    nodeAt node padding leaves height index = emptyAt node padding height := by
  induction height generalizing index with
  | zero =>
    rw [Nat.pow_zero, Nat.mul_one] at beyond
    exact List.getD_eq_default _ _ beyond
  | succ height ih =>
    have left : index * 2 ^ (height + 1) = 2 * index * 2 ^ height := by
      rw [Nat.pow_succ]
      ac_rfl
    have right : 2 * index * 2 ^ height ≤ (2 * index + 1) * 2 ^ height :=
      Nat.mul_le_mul_right _ (Nat.le_succ _)
    rw [nodeAt, emptyAt, ih (2 * index) (by omega),
      ih (2 * index + 1) (by omega)]

/-- A node over leaves that are all present does not change when leaves are added. -/
theorem nodeAt_append (leaves more : List α) (height index : Nat)
    (complete : (index + 1) * 2 ^ height ≤ leaves.length) :
    nodeAt node padding (leaves ++ more) height index = nodeAt node padding leaves height index := by
  induction height generalizing index with
  | zero =>
    rw [Nat.pow_zero, Nat.mul_one] at complete
    exact List.getD_append _ _ _ _ complete
  | succ height ih =>
    have whole : (index + 1) * 2 ^ (height + 1) = (2 * index + 1 + 1) * 2 ^ height := by
      rw [Nat.pow_succ]
      have double : 2 * index + 1 + 1 = 2 * (index + 1) := by omega
      rw [double]
      ac_rfl
    have half : (2 * index + 1) * 2 ^ height ≤ (2 * index + 1 + 1) * 2 ^ height :=
      Nat.mul_le_mul_right _ (Nat.le_succ _)
    rw [nodeAt, nodeAt, ih (2 * index) (by omega),
      ih (2 * index + 1) (by omega)]

/-! ### The whole tree -/

/-- The root of a complete tree with a leaf at every place, by halves. -/
def wholeRoot : Nat → (Nat → α) → α
  | 0, leaf => leaf 0
  | depth + 1, leaf =>
    node (wholeRoot depth leaf) (wholeRoot depth (fun place => leaf (2 ^ depth + place)))

/-- A node is the root of the complete tree over the places below it. -/
theorem nodeAt_whole (leaves : List α) (height index : Nat) :
    nodeAt node padding leaves height index =
      wholeRoot node height (fun place => leaves.getD (index * 2 ^ height + place) padding) := by
  induction height generalizing index with
  | zero => simp [nodeAt, wholeRoot]
  | succ height ih =>
    have left : index * 2 ^ (height + 1) = 2 * index * 2 ^ height := by
      rw [Nat.pow_succ]
      ac_rfl
    have right : (2 * index + 1) * 2 ^ height = 2 * index * 2 ^ height + 2 ^ height := by
      rw [Nat.add_mul, Nat.one_mul]
    rw [nodeAt, wholeRoot, ih, ih, left, right]
    simp only [Nat.add_assoc]

/-! ### Positions -/

theorem shift_succ (position level : Nat) :
    position / 2 ^ (level + 1) = position / 2 ^ level / 2 := by
  rw [Nat.pow_succ, Nat.div_div_eq_div_mul]

variable {index : Nat}

theorem half_even (even : index % 2 = 0) : 2 * (index / 2) = index := by omega

theorem half_odd (odd : ¬ index % 2 = 0) : 2 * (index / 2) = index - 1 := by omega

theorem odd_pred_succ (odd : ¬ index % 2 = 0) : index - 1 + 1 = index := by omega

theorem mod_two_ne_zero (odd : ¬ index % 2 = 0) : index % 2 = 1 := by omega

/-- The node one level up has the current node and its sibling as children. -/
theorem nodeAt_parent (leaves : List α) (position level : Nat) :
    nodeAt node padding leaves (level + 1) (position / 2 ^ (level + 1)) =
      if position / 2 ^ level % 2 = 0 then
        node (nodeAt node padding leaves level (position / 2 ^ level))
          (nodeAt node padding leaves level (position / 2 ^ level + 1))
      else
        node (nodeAt node padding leaves level (position / 2 ^ level - 1))
          (nodeAt node padding leaves level (position / 2 ^ level)) := by
  rw [nodeAt, shift_succ]
  split
  · rename_i even
    rw [half_even even]
  · rename_i odd
    rw [half_odd odd, odd_pred_succ odd]

/-! ### Appending along a frontier -/

/-- One level of an append: a left child is remembered and joined with padding, a
right child is joined with the remembered left one. -/
def climb (position : Nat) (state : (Nat → α) × α) (level : Nat) : (Nat → α) × α :=
  if (position >>> level) % 2 = 0 then
    (Function.update state.1 level state.2, node state.2 (emptyAt node padding level))
  else (state.1, node (state.1 level) state.2)

/-- The frontier remembers the left sibling at every level below the depth at which
the next leaf arrives on the right. -/
def Remembers (depth : Nat) (leaves : List α) (frontier : Nat → α) : Prop :=
  ∀ level < depth, leaves.length / 2 ^ level % 2 = 1 →
    frontier level = nodeAt node padding leaves level (leaves.length / 2 ^ level - 1)

/-- The state of an append after some levels: the node over the new leaf, and the
remembered nodes at the levels where it was a left child. -/
theorem climb_levels (depth : Nat) (leaves : List α) (leaf : α) (frontier : Nat → α)
    (remembers : Remembers node padding depth leaves frontier) (levels : Nat)
    (within : levels ≤ depth) :
    (List.range levels).foldl (climb node padding leaves.length) (frontier, leaf) =
      (fun level =>
        if level < levels ∧ leaves.length / 2 ^ level % 2 = 0 then
          nodeAt node padding (leaves ++ [leaf]) level (leaves.length / 2 ^ level)
        else frontier level,
      nodeAt node padding (leaves ++ [leaf]) levels (leaves.length / 2 ^ levels)) := by
  induction levels with
  | zero =>
    refine Prod.ext ?_ ?_
    · funext level
      simp
    · simp [nodeAt]
  | succ levels ih =>
    rw [List.range_succ, List.foldl_append, ih (by omega), List.foldl_cons,
      List.foldl_nil]
    have parent := nodeAt_parent node padding (leaves ++ [leaf]) leaves.length levels
    simp only [climb, Nat.shiftRight_eq_div_pow]
    by_cases even : leaves.length / 2 ^ levels % 2 = 0
    · rw [if_pos even] at parent ⊢
      -- everything to the right of the new leaf is padding
      have right : nodeAt node padding (leaves ++ [leaf]) levels (leaves.length / 2 ^ levels + 1) =
          emptyAt node padding levels := by
        refine nodeAt_beyond node padding _ _ _ ?_
        rw [List.length_append, List.length_singleton]
        exact Nat.succ_le_of_lt (Nat.lt_mul_of_div_lt (Nat.lt_succ_self _) (Nat.two_pow_pos _))
      refine Prod.ext ?_ ?_
      · funext level
        dsimp only
        by_cases same : level = levels
        · subst same
          simp [even]
        · rw [Function.update_of_ne same]
          have order : level < levels + 1 ↔ level < levels := by omega
          simp only [order]
      · rw [parent, right]
    · rw [if_neg even] at parent ⊢
      have below : (leaves.length / 2 ^ levels - 1 + 1) * 2 ^ levels ≤ leaves.length := by
        rw [odd_pred_succ even]
        exact Nat.div_mul_le_self _ _
      have left := nodeAt_append node padding leaves [leaf] levels _ below
      refine Prod.ext ?_ ?_
      · funext level
        by_cases same : level = levels
        · subst same
          simp [even]
        · have order : level < levels + 1 ↔ level < levels := by omega
          simp only [order]
      · rw [parent, left, ← remembers levels (by omega) (mod_two_ne_zero even)]
        simp

/-- Appending yields the node over the extended leaves, and a frontier that
remembers. -/
theorem climb_correct (depth : Nat) (leaves : List α) (leaf : α) (frontier : Nat → α)
    (remembers : Remembers node padding depth leaves frontier) (room : leaves.length < 2 ^ depth) :
    ((List.range depth).foldl (climb node padding leaves.length) (frontier, leaf)).2 =
        nodeAt node padding (leaves ++ [leaf]) depth 0 ∧
      Remembers node padding depth (leaves ++ [leaf])
        ((List.range depth).foldl (climb node padding leaves.length) (frontier, leaf)).1 := by
  rw [climb_levels node padding depth leaves leaf frontier remembers depth (Nat.le_refl _)]
  refine ⟨by rw [Nat.div_eq_of_lt room], ?_⟩
  intro level inside odd
  rw [List.length_append, List.length_singleton] at odd ⊢
  dsimp only
  have next : (leaves.length + 1) / 2 ^ level = leaves.length / 2 ^ level ∨
      (leaves.length + 1) / 2 ^ level = leaves.length / 2 ^ level + 1 := by
    rw [Nat.succ_div]
    split
    · exact .inr rfl
    · exact .inl rfl
  by_cases even : leaves.length / 2 ^ level % 2 = 0
  · have up := next.resolve_left fun same => by simp [same, even] at odd
    rw [if_pos ⟨inside, even⟩, up, Nat.add_sub_cancel]
  · have same := next.resolve_right fun up => by
      have parity := mod_two_ne_zero even
      rw [up] at odd
      generalize leaves.length / 2 ^ level = index at parity odd
      omega
    rw [if_neg (fun both => even both.2), same, remembers level inside (mod_two_ne_zero even)]
    refine (nodeAt_append node padding leaves [leaf] level _ ?_).symm
    rw [odd_pred_succ even]
    exact Nat.div_mul_le_self _ _

/-! ### Siblings off the layers -/

/-- The layer above: neighbours joined, an odd last node joined with padding. -/
def nextLayer (pad : α) : List α → List α
  | [] => []
  | [last] => [node last pad]
  | left :: right :: rest => node left right :: nextLayer pad rest

theorem nextLayer_getD (pad : α) (layer : List α) (index : Nat) :
    (nextLayer node pad layer).getD index (node pad pad) =
      node (layer.getD (2 * index) pad) (layer.getD (2 * index + 1) pad) := by
  induction layer using nextLayer.induct generalizing index with
  | case1 => simp [nextLayer]
  | case2 last =>
    cases index with
    | zero => simp [nextLayer]
    | succ index => simp [nextLayer, Nat.mul_add]
  | case3 left right rest ih =>
    cases index with
    | zero => simp [nextLayer]
    | succ index =>
      rw [show 2 * (index + 1) = 2 * index + 1 + 1 by omega]
      simpa [nextLayer] using ih index

/-- The layer above a layer of a tree is the layer one level up. -/
theorem nextLayer_reads (leaves : List α) (level : Nat) (layer : List α)
    (reads : ∀ index, layer.getD index (emptyAt node padding level) =
      nodeAt node padding leaves level index) (index : Nat) :
    (nextLayer node (emptyAt node padding level) layer).getD index
        (emptyAt node padding (level + 1)) = nodeAt node padding leaves (level + 1) index := by
  rw [emptyAt, nextLayer_getD, reads, reads, nodeAt]

/-- The siblings of a position from one level upwards, each read off its layer. -/
def siblings : Nat → Nat → Nat → List α → List α
  | 0, _, _, _ => []
  | count + 1, level, position, layer =>
    layer.getD (position ^^^ 1) (emptyAt node padding level) ::
      siblings count (level + 1) (position / 2) (nextLayer node (emptyAt node padding level) layer)

/-- Fold a node with siblings, from one level upwards. -/
def foldPath (position : Nat) : Nat → α → List α → α
  | _, current, [] => current
  | level, current, sibling :: rest =>
    foldPath position (level + 1)
      (if (position >>> level) % 2 = 0 then node current sibling else node sibling current) rest

/-- Folding a node of the tree with the siblings read off the layers gives the node
of the tree that many levels up. -/
theorem foldPath_siblings (leaves : List α) (position count level : Nat) (layer : List α)
    (reads : ∀ index, layer.getD index (emptyAt node padding level) =
      nodeAt node padding leaves level index) :
    foldPath node position level (nodeAt node padding leaves level (position / 2 ^ level))
        (siblings node padding count level (position / 2 ^ level) layer) =
      nodeAt node padding leaves (level + count) (position / 2 ^ (level + count)) := by
  induction count generalizing level layer with
  | zero => rfl
  | succ count ih =>
    have above := nextLayer_reads node padding leaves level layer reads
    have parent := nodeAt_parent node padding leaves position level
    rw [siblings, foldPath, reads, Nat.shiftRight_eq_div_pow]
    have joined : (if position / 2 ^ level % 2 = 0 then
          node (nodeAt node padding leaves level (position / 2 ^ level))
            (nodeAt node padding leaves level (position / 2 ^ level ^^^ 1))
        else node (nodeAt node padding leaves level (position / 2 ^ level ^^^ 1))
          (nodeAt node padding leaves level (position / 2 ^ level))) =
        nodeAt node padding leaves (level + 1) (position / 2 ^ (level + 1)) := by
      rw [parent]
      by_cases even : position / 2 ^ level % 2 = 0
      · rw [if_pos even, if_pos even, Nat.xor_one_of_even (Nat.even_iff.mpr even)]
      · rw [if_neg even, if_neg even, Nat.xor_one_of_odd
          (Nat.odd_iff.mpr (mod_two_ne_zero even))]
    rw [joined, ← shift_succ, ih (level + 1) _ above]
    rw [show level + 1 + count = level + (count + 1) by omega]

theorem siblings_length (count level position : Nat) (layer : List α) :
    (siblings node padding count level position layer).length = count := by
  induction count generalizing level position layer with
  | zero => rfl
  | succ count ih =>
    rw [siblings, List.length_cons, ih]

/-! ### Binding -/

/-- The pairs joined by a fold. -/
def pathPairs (position : Nat) : Nat → α → List α → List (α × α)
  | _, _, [] => []
  | level, current, sibling :: rest =>
    let pair := if (position >>> level) % 2 = 0 then (current, sibling) else (sibling, current)
    pair :: pathPairs position (level + 1) (node pair.1 pair.2) rest

/-- The pairs joined in a tree below a height. -/
def treePairs (leaves : List α) (depth : Nat) : Set (α × α) :=
  {pair | ∃ height < depth, ∃ index, pair =
    (nodeAt node padding leaves height (2 * index),
      nodeAt node padding leaves height (2 * index + 1))}

/-- Folding a node of the tree with the siblings read off the layers joins pairs of the
tree. -/
theorem pathPairs_siblings (leaves : List α) (position count level : Nat) (layer : List α)
    (reads : ∀ index, layer.getD index (emptyAt node padding level) =
      nodeAt node padding leaves level index) :
    ∀ pair ∈ pathPairs node position level (nodeAt node padding leaves level (position / 2 ^ level))
        (siblings node padding count level (position / 2 ^ level) layer),
      pair ∈ treePairs node padding leaves (level + count) := by
  induction count generalizing level layer with
  | zero => simp [siblings, pathPairs]
  | succ count ih =>
    have above := nextLayer_reads node padding leaves level layer reads
    have later := ih (level + 1) _ above
    rw [shift_succ, nodeAt, show level + 1 + count = level + (count + 1) by omega] at later
    rw [siblings, pathPairs, reads, Nat.shiftRight_eq_div_pow]
    have joined : (if position / 2 ^ level % 2 = 0 then
          (nodeAt node padding leaves level (position / 2 ^ level),
            nodeAt node padding leaves level (position / 2 ^ level ^^^ 1))
        else (nodeAt node padding leaves level (position / 2 ^ level ^^^ 1),
          nodeAt node padding leaves level (position / 2 ^ level))) =
        (nodeAt node padding leaves level (2 * (position / 2 ^ level / 2)),
          nodeAt node padding leaves level (2 * (position / 2 ^ level / 2) + 1)) := by
      by_cases even : position / 2 ^ level % 2 = 0
      · rw [if_pos even, half_even even, Nat.xor_one_of_even (Nat.even_iff.mpr even)]
      · rw [if_neg even, half_odd even, odd_pred_succ even,
          Nat.xor_one_of_odd (Nat.odd_iff.mpr (mod_two_ne_zero even))]
    rw [joined]
    intro pair member
    rcases List.mem_cons.mp member with rfl | rest
    · exact ⟨level, by omega, _, rfl⟩
    · exact later pair rest

/-- The pairs joined over one layer that are not mere padding. -/
def layerPairs (pad : α) : List α → List (α × α)
  | [] => []
  | [last] => [(last, pad)]
  | left :: right :: rest => (left, right) :: layerPairs pad rest

theorem layerPairs_mem (pad : α) (layer : List α) (index : Nat) :
    (layer.getD (2 * index) pad, layer.getD (2 * index + 1) pad) = (pad, pad) ∨
      (layer.getD (2 * index) pad, layer.getD (2 * index + 1) pad) ∈ layerPairs pad layer := by
  induction layer using layerPairs.induct generalizing index with
  | case1 => simp
  | case2 last =>
    cases index with
    | zero => simp [layerPairs]
    | succ index => simp [layerPairs, Nat.mul_add]
  | case3 left right rest ih =>
    cases index with
    | zero => simp [layerPairs]
    | succ index =>
      rw [show 2 * (index + 1) = 2 * index + 1 + 1 by omega]
      exact (ih index).imp_right (List.mem_cons_of_mem _)

/-- The pairs joined over a number of layers, from one level upwards. -/
def joinedPairs : Nat → Nat → List α → List (α × α)
  | 0, _, _ => []
  | count + 1, level, layer =>
    layerPairs (emptyAt node padding level) layer ++
      joinedPairs count (level + 1) (nextLayer node (emptyAt node padding level) layer)

/-- The layers of a tree list every pair that is joined in it but those of padding. -/
theorem joinedPairs_mem (leaves : List α) (count level : Nat) (layer : List α)
    (reads : ∀ index, layer.getD index (emptyAt node padding level) =
      nodeAt node padding leaves level index)
    (height index : Nat) (low : level ≤ height) (high : height < level + count) :
    (nodeAt node padding leaves height (2 * index),
        nodeAt node padding leaves height (2 * index + 1)) =
        (emptyAt node padding height, emptyAt node padding height) ∨
      (nodeAt node padding leaves height (2 * index),
        nodeAt node padding leaves height (2 * index + 1)) ∈
          joinedPairs node padding count level layer := by
  induction count generalizing level layer with
  | zero => omega
  | succ count ih =>
    rw [joinedPairs, List.mem_append]
    rcases Nat.eq_or_lt_of_le low with rfl | above
    · rw [← reads, ← reads]
      exact (layerPairs_mem _ layer index).imp_right .inl
    · have later := ih (level + 1) _
        (nextLayer_reads node padding leaves level layer reads) above (by omega)
      exact later.imp_right .inr

/-- Every pair joined in a tree joins padding or is listed over its layers. -/
theorem treePairs_listed (leaves : List α) (depth : Nat) (pair : α × α)
    (joined : pair ∈ treePairs node padding leaves depth) :
    (∃ height < depth, pair = (emptyAt node padding height, emptyAt node padding height)) ∨
      pair ∈ joinedPairs node padding depth 0 leaves := by
  obtain ⟨height, below, index, rfl⟩ := joined
  have listed := joinedPairs_mem node padding leaves depth 0 leaves (fun _ => rfl) height index
    (Nat.zero_le _) (by omega)
  exact listed.imp_left fun same => ⟨height, below, same⟩

/-- A node that folds to the node of a tree is the node of that tree, provided the
joining function does not identify two of the pairs that occur. -/
theorem foldPath_binds (leaves : List α) (position level : Nat) (current : α) (path : List α)
    (occurring : Set (α × α))
    (injective : Set.InjOn (fun pair : α × α => node pair.1 pair.2) occurring)
    (onPath : ∀ pair ∈ pathPairs node position level current path, pair ∈ occurring)
    (inTree : treePairs node padding leaves (level + path.length) ⊆ occurring)
    (folds : foldPath node position level current path =
      nodeAt node padding leaves (level + path.length) (position / 2 ^ (level + path.length))) :
    current = nodeAt node padding leaves level (position / 2 ^ level) := by
  induction path generalizing level current with
  | nil => exact folds
  | cons sibling rest ih =>
    rw [List.length_cons, show level + (rest.length + 1) = level + 1 + rest.length by omega]
      at folds inTree
    rw [foldPath] at folds
    simp only [pathPairs, List.mem_cons, forall_eq_or_imp] at onPath
    obtain ⟨own, later⟩ := onPath
    have parent := nodeAt_parent node padding leaves position level
    have shifted : position >>> level = position / 2 ^ level := Nat.shiftRight_eq_div_pow _ _
    rw [shifted] at own later folds
    have below : level < level + 1 + rest.length := by omega
    by_cases even : position / 2 ^ level % 2 = 0
    · rw [if_pos even] at own later parent folds
      have up := ih (level + 1) _ later inTree folds
      have tree : (nodeAt node padding leaves level (position / 2 ^ level),
          nodeAt node padding leaves level (position / 2 ^ level + 1)) ∈ occurring := by
        refine inTree ⟨level, below, position / 2 ^ level / 2, ?_⟩
        rw [half_even even]
      exact (Prod.mk.inj (injective own tree (up.trans parent))).1
    · rw [if_neg even] at own later parent folds
      have up := ih (level + 1) _ later inTree folds
      have tree : (nodeAt node padding leaves level (position / 2 ^ level - 1),
          nodeAt node padding leaves level (position / 2 ^ level)) ∈ occurring := by
        refine inTree ⟨level, below, position / 2 ^ level / 2, ?_⟩
        rw [half_odd even, odd_pred_succ even]
      exact (Prod.mk.inj (injective own tree (up.trans parent))).2

end PaddedTrees
