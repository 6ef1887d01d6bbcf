import Mathlib.Data.List.Nodup
import Mathlib.Data.Set.Function
import Mathlib.Logic.Relation

/-!
# Layers of paired nodes

A layer joins neighbours two by two; an odd last element is joined with itself.
Repeating the step ends in a single element. The pairing is not injective on
lists in general: a list with an odd last element and the same list with that
element repeated share their next layer. On lists in which no segment is followed
by a copy of itself it is, and the whole reduction identifies its list of leaves,
provided the joining function does not identify two pairs that occur and no leaf
is itself a joined value.
-/

namespace PairedLayers

variable {α : Type}

/-- Neighbours two by two; an odd last element is paired with itself. -/
def pairs : List α → List (α × α)
  | [] => []
  | [last] => [(last, last)]
  | left :: right :: rest => (left, right) :: pairs rest

/-- The next layer. -/
def nextLayer (join : α → α → α) (layer : List α) : List α :=
  (pairs layer).map (fun pair => join pair.1 pair.2)

/-- Reduce while more than one element is left. -/
def reduce (join : α → α → α) : Nat → List α → List α
  | 0, layer => layer
  | fuel + 1, layer => if 1 < layer.length then reduce join fuel (nextLayer join layer) else layer

/-- All pairs joined by a reduction. -/
def joined (join : α → α → α) : Nat → List α → List (α × α)
  | 0, _ => []
  | fuel + 1, layer =>
      if 1 < layer.length then pairs layer ++ joined join fuel (nextLayer join layer) else []

theorem pairs_length (layer : List α) : (pairs layer).length = (layer.length + 1) / 2 := by
  induction layer using pairs.induct with
  | case1 => simp [pairs]
  | case2 last => simp [pairs]
  | case3 left right rest ih =>
    simp only [pairs, List.length_cons, ih]
    omega

/-- As many steps as elements leave a single element. -/
theorem reduce_single (join : α → α → α) (fuel : Nat) (layer : List α) (nonempty : layer ≠ [])
    (enough : layer.length ≤ fuel + 1) : (reduce join fuel layer).length = 1 := by
  induction fuel generalizing layer with
  | zero =>
    have positive : 0 < layer.length := List.length_pos_iff.mpr nonempty
    simp only [reduce]
    omega
  | succ fuel ih =>
    have positive : 0 < layer.length := List.length_pos_iff.mpr nonempty
    by_cases several : 1 < layer.length
    · have shorter : (nextLayer join layer).length = (layer.length + 1) / 2 := by
        rw [nextLayer, List.length_map, pairs_length]
      simp only [reduce, several, ↓reduceIte]
      apply ih
      · exact List.length_pos_iff.mp (by omega)
      · omega
    · simp only [reduce, several, ↓reduceIte]
      omega

/-- What all leaves and all joined values have, the reduced elements have. -/
theorem reduce_forall (join : α → α → α) (property : α → Prop)
    (joins : ∀ left right, property (join left right)) (fuel : Nat) (layer : List α)
    (leaves : ∀ node ∈ layer, property node) (node : α) (member : node ∈ reduce join fuel layer) :
    property node := by
  induction fuel generalizing layer with
  | zero => exact leaves node member
  | succ fuel ih =>
    unfold reduce at member
    split at member
    · refine ih _ ?_ member
      intro other inside
      obtain ⟨pair, _, rfl⟩ := List.mem_map.mp inside
      exact joins pair.1 pair.2
    · exact leaves node member

/-- The components of a layer's pairs are its elements. -/
theorem pairs_members (layer : List α) (pair : α × α) (member : pair ∈ pairs layer) :
    pair.1 ∈ layer ∧ pair.2 ∈ layer := by
  induction layer using pairs.induct with
  | case1 => simp [pairs] at member
  | case2 last =>
    obtain rfl : pair = (last, last) := by simpa [pairs] using member
    simp
  | case3 left right rest ih =>
    rcases List.mem_cons.mp member with rfl | inside
    · simp
    · obtain ⟨first, second⟩ := ih inside
      simp [first, second]

/-- What all leaves and all joined values have, both components of every joined
pair have. -/
theorem joined_forall (join : α → α → α) (property : α → Prop)
    (joins : ∀ left right, property (join left right)) (fuel : Nat) (layer : List α)
    (leaves : ∀ node ∈ layer, property node) (pair : α × α)
    (member : pair ∈ joined join fuel layer) : property pair.1 ∧ property pair.2 := by
  induction fuel generalizing layer with
  | zero => simp [joined] at member
  | succ fuel ih =>
    unfold joined at member
    split at member
    · rcases List.mem_append.mp member with here | above
      · obtain ⟨first, second⟩ := pairs_members layer pair here
        exact ⟨leaves _ first, leaves _ second⟩
      · refine ih _ ?_ above
        intro node inside
        obtain ⟨lower, _, rfl⟩ := List.mem_map.mp inside
        exact joins lower.1 lower.2
    · simp at member

/-- A reduced element is a leaf or a joined value. -/
theorem reduce_member (join : α → α → α) (fuel : Nat) (layer : List α) (node : α)
    (member : node ∈ reduce join fuel layer) :
    node ∈ layer ∨ ∃ pair ∈ joined join fuel layer, node = join pair.1 pair.2 := by
  induction fuel generalizing layer with
  | zero => exact .inl member
  | succ fuel ih =>
    unfold reduce at member
    unfold joined
    split at member
    · rename_i several
      rw [if_pos several]
      rcases ih _ member with next | ⟨pair, inside, same⟩
      · obtain ⟨pair, inside, rfl⟩ := List.mem_map.mp next
        exact .inr ⟨pair, List.mem_append_left _ inside, rfl⟩
      · exact .inr ⟨pair, List.mem_append_right _ inside, same⟩
    · exact .inl member

/-! ### Lists without a doubled segment -/

/-- No segment is directly followed by a copy of itself. -/
def SquareFreeWord (layer : List α) : Prop := ∀ word, word ≠ [] → ¬ (word ++ word) <:+: layer

theorem SquareFreeWord.segment {layer segment : List α} (free : SquareFreeWord layer)
    (inside : segment <:+: layer) : SquareFreeWord segment :=
  fun word nonempty square => free word nonempty (square.trans inside)

/-- What equal images under one function say about single elements, they say about
the lists. -/
theorem map_transfer {β γ : Type} (transform : α → β) (other : α → γ) (layer layer' : List α)
    (transfers : ∀ left ∈ layer, ∀ right ∈ layer', transform left = transform right →
      other left = other right)
    (same : layer.map transform = layer'.map transform) : layer.map other = layer'.map other := by
  induction layer generalizing layer' with
  | nil =>
    cases layer' with
    | nil => rfl
    | cons first rest => simp at same
  | cons first rest ih =>
    cases layer' with
    | nil => simp at same
    | cons first' rest' =>
      simp only [List.map_cons, List.cons.injEq] at same ⊢
      have head := transfers first (by simp) first' (by simp) same.1
      have tail := ih rest' (fun left member right member' =>
        transfers left (by simp [member]) right (by simp [member'])) same.2
      exact ⟨head, tail⟩

/-- Two lists with equal images are equal when the function separates their
elements. -/
theorem map_separated {β : Type} (transform : α → β) (layer layer' : List α)
    (separates : ∀ left ∈ layer, ∀ right ∈ layer', transform left = transform right → left = right)
    (same : layer.map transform = layer'.map transform) : layer = layer' := by
  simpa using map_transfer transform id layer layer' separates same

/-- A function that separates the elements of a list keeps it free of doubled
segments. -/
theorem SquareFreeWord.map {β : Type} (transform : α → β) (layer : List α)
    (separates : ∀ left ∈ layer, ∀ right ∈ layer, transform left = transform right → left = right)
    (free : SquareFreeWord layer) : SquareFreeWord (layer.map transform) := by
  rintro word nonempty ⟨before, after, split⟩
  obtain ⟨front, back, rfl, frontImage, _⟩ := List.map_eq_append_iff.mp split.symm
  obtain ⟨start, doubled, rfl, _, doubledImage⟩ := List.map_eq_append_iff.mp frontImage
  obtain ⟨first, second, rfl, firstImage, secondImage⟩ := List.map_eq_append_iff.mp doubledImage
  have same : first = second := by
    refine map_separated transform first second ?_ (firstImage.trans secondImage.symm)
    intro left member right member'
    exact separates left (by simp [member]) right (by simp [member'])
  subst same
  refine free first ?_ ⟨start, back, rfl⟩
  rintro rfl
  exact nonempty (by simpa using firstImage.symm)

/-- Pairs written out again. -/
def unpair (pairs : List (α × α)) : List α := pairs.flatMap (fun pair => [pair.1, pair.2])

/-- Writing out the pairs of a layer gives the layer, with an odd last element
doubled. -/
theorem unpair_pairs (layer : List α) :
    unpair (pairs layer) = layer ∨
      ∃ front last, layer = front ++ [last] ∧ unpair (pairs layer) = front ++ [last, last] := by
  induction layer using pairs.induct with
  | case1 => exact .inl rfl
  | case2 last => exact .inr ⟨[], last, rfl, rfl⟩
  | case3 left right rest ih =>
    have split : unpair (pairs (left :: right :: rest)) = left :: right :: unpair (pairs rest) := rfl
    rw [split]
    rcases ih with even | ⟨front, last, rfl, odd⟩
    · exact .inl (by rw [even])
    · exact .inr ⟨left :: right :: front, last, rfl, by rw [odd]; rfl⟩

/-- The pairs of a layer without a doubled segment have none. -/
theorem SquareFreeWord.pairs (layer : List α) (free : SquareFreeWord layer) :
    SquareFreeWord (pairs layer) := by
  rintro word nonempty ⟨before, after, split⟩
  have writtenWord : unpair word ≠ [] := by
    cases word with
    | nil => exact absurd rfl nonempty
    | cons pair rest => simp [unpair]
  have written : unpair before ++ (unpair word ++ unpair word) ++ unpair after =
      unpair (PairedLayers.pairs layer) := by
    rw [← split]
    simp [unpair]
  rcases unpair_pairs layer with even | ⟨front, last, rfl, odd⟩
  · exact free (unpair word) writtenWord ⟨_, _, written.trans even⟩
  · rw [odd] at written
    rcases List.eq_nil_or_concat' after with rfl | ⟨rest, pair, rfl⟩
    · -- the doubled segment ends the layer, so its first copy ends in a doubled element
      obtain ⟨rest, pair, rfl⟩ := (List.eq_nil_or_concat' word).resolve_left nonempty
      have ending : (unpair before ++ unpair (rest ++ [pair]) ++ unpair rest) ++ [pair.1, pair.2] =
          front ++ [last, last] := by
        rw [← written]
        simp [unpair]
      obtain ⟨start, ends⟩ := List.append_inj' ending rfl
      have both : pair.1 = last ∧ pair.2 = last := by simpa using ends
      refine free [last] (by simp) ⟨unpair before ++ unpair rest, unpair rest ++ [last], ?_⟩
      rw [← start]
      simp [unpair, both.1, both.2]
    · have ending : (unpair before ++ (unpair word ++ unpair word) ++ unpair rest ++ [pair.1]) ++
          [pair.2] = (front ++ [last]) ++ [last] := by
        rw [List.append_assoc front]
        refine Eq.trans ?_ written
        simp [unpair]
      obtain ⟨start, _⟩ := List.append_inj' ending rfl
      exact free (unpair word) writtenWord
        ⟨unpair before, unpair rest ++ [pair.1], by rw [← start]; simp⟩

/-- On lists without a doubled segment the pairing keeps the list. -/
theorem pairs_injective (layer layer' : List α) (free : SquareFreeWord layer)
    (free' : SquareFreeWord layer') (same : PairedLayers.pairs layer = PairedLayers.pairs layer') :
    layer = layer' := by
  induction layer using pairs.induct generalizing layer' with
  | case1 =>
    match layer' with
    | [] => rfl
    | [_] => simp [PairedLayers.pairs] at same
    | _ :: _ :: _ => simp [PairedLayers.pairs] at same
  | case2 last =>
    match layer' with
    | [] => simp [PairedLayers.pairs] at same
    | [last'] => simpa [PairedLayers.pairs] using same
    | left :: right :: rest =>
      simp only [PairedLayers.pairs, List.cons.injEq, Prod.mk.injEq] at same
      have doubled : left = right := same.1.1.symm.trans same.1.2
      exact absurd ⟨[], rest, by simp [doubled]⟩ (free' [right] (by simp))
  | case3 left right rest ih =>
    match layer' with
    | [] => simp [PairedLayers.pairs] at same
    | [last'] =>
      simp only [PairedLayers.pairs, List.cons.injEq, Prod.mk.injEq] at same
      have doubled : left = right := same.1.1.trans same.1.2.symm
      exact absurd ⟨[], rest, by simp [doubled]⟩ (free [right] (by simp))
    | left' :: right' :: rest' =>
      simp only [PairedLayers.pairs, List.cons.injEq, Prod.mk.injEq] at same
      obtain ⟨⟨sameLeft, sameRight⟩, sameRest⟩ := same
      have tail := ih rest' (free.segment ⟨[left, right], [], by simp⟩)
        (free'.segment ⟨[left', right'], [], by simp⟩) sameRest
      rw [sameLeft, sameRight, tail]

section Injective

variable (join : α → α → α) (domain : Set (α × α))
  (injective : Set.InjOn (fun pair : α × α => join pair.1 pair.2) domain)

include injective

/-- Joining keeps a layer free of doubled segments. -/
theorem nextLayer_squareFree (layer : List α) (free : SquareFreeWord layer)
    (inside : ∀ pair ∈ pairs layer, pair ∈ domain) : SquareFreeWord (nextLayer join layer) := by
  refine SquareFreeWord.map _ _ ?_ (SquareFreeWord.pairs layer free)
  intro pair member pair' member' same
  exact injective (inside pair member) (inside pair' member') same

/-- Equal next layers come from equal layers. -/
theorem nextLayer_injective (layer layer' : List α) (free : SquareFreeWord layer)
    (free' : SquareFreeWord layer') (inside : ∀ pair ∈ pairs layer, pair ∈ domain)
    (inside' : ∀ pair ∈ pairs layer', pair ∈ domain)
    (same : nextLayer join layer = nextLayer join layer') : layer = layer' := by
  refine pairs_injective layer layer' free free' (map_separated _ _ _ ?_ same)
  intro pair member pair' member' equal
  exact injective (inside pair member) (inside' pair' member') equal

/-- One reduction step read backwards: the second list is a layer whose pairs
lie in the domain, and the first is its next layer. -/
def Above (layer lower : List α) : Prop :=
  1 < lower.length ∧ SquareFreeWord lower ∧ (∀ pair ∈ pairs lower, pair ∈ domain) ∧
    layer = nextLayer join lower

/-- A layer has at most one layer below it. -/
theorem above_rightUnique : Relator.RightUnique (Above join domain) := by
  intro layer lower lower' above above'
  obtain ⟨_, free, inside, rfl⟩ := above
  obtain ⟨_, free', inside', same⟩ := above'
  exact nextLayer_injective join domain injective lower lower' free free' inside inside' same

/-- The result of a reduction stands above its list. -/
theorem reduce_above (fuel : Nat) (layer : List α) (free : SquareFreeWord layer)
    (inside : ∀ pair ∈ joined join fuel layer, pair ∈ domain) :
    Relation.ReflTransGen (Above join domain) (reduce join fuel layer) layer := by
  induction fuel generalizing layer with
  | zero => exact .refl
  | succ fuel ih =>
    by_cases several : 1 < layer.length
    · simp only [joined, several, ↓reduceIte, List.mem_append] at inside
      have here : ∀ pair ∈ pairs layer, pair ∈ domain := fun pair member =>
        inside pair (Or.inl member)
      have further := ih (nextLayer join layer)
        (nextLayer_squareFree join domain injective layer free here)
        (fun pair member => inside pair (Or.inr member))
      simp only [reduce, several, ↓reduceIte]
      exact further.tail ⟨several, free, here, rfl⟩
    · simp only [reduce, several, ↓reduceIte]
      exact .refl

omit injective in
/-- A list whose elements are no joined values has no layer below it. -/
theorem above_leaves (leaf : α → Prop) (layer lower : List α)
    (separated : ∀ pair ∈ domain, ¬ leaf (join pair.1 pair.2))
    (leaves : ∀ element ∈ layer, leaf element)
    (above : Relation.ReflTransGen (Above join domain) layer lower) : layer = lower := by
  rcases Relation.ReflTransGen.cases_head above with same | ⟨next, step, _⟩
  · exact same
  · obtain ⟨several, _, inside, rfl⟩ := step
    match next with
    | [] => simp at several
    | [_] => simp at several
    | left :: right :: rest =>
      have joinedLeaf : leaf (join left right) := leaves _ (by simp [nextLayer, pairs])
      exact absurd joinedLeaf (separated (left, right) (inside _ (by simp [pairs])))

/-- The reduction of a list without a doubled segment determines the list: when the
joining function separates the pairs that occur and no element of either list
is a joined value, equal results come from equal lists.

Both lists lie below the common result along an injective step, so one lies
below the other; a list of leaves has nothing below it. -/
theorem reduce_injective (leaf : α → Prop) (fuel fuel' : Nat) (layer layer' : List α)
    (separated : ∀ pair ∈ domain, ¬ leaf (join pair.1 pair.2))
    (leaves : ∀ element ∈ layer, leaf element) (leaves' : ∀ element ∈ layer', leaf element)
    (free : SquareFreeWord layer) (free' : SquareFreeWord layer')
    (inside : ∀ pair ∈ joined join fuel layer, pair ∈ domain)
    (inside' : ∀ pair ∈ joined join fuel' layer', pair ∈ domain)
    (same : reduce join fuel layer = reduce join fuel' layer') : layer = layer' := by
  have chain := reduce_above join domain injective fuel layer free inside
  have chain' := reduce_above join domain injective fuel' layer' free' inside'
  rw [same] at chain
  rcases Relation.ReflTransGen.total_of_right_unique
    (above_rightUnique join domain injective) chain chain' with below | below
  · exact above_leaves join domain leaf layer layer' separated leaves below
  · exact (above_leaves join domain leaf layer' layer separated leaves' below).symm

end Injective

end PairedLayers
