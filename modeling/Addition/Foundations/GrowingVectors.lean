import Mathlib.Data.List.Basic

/-!
# Vectors that grow, and references into them

A vector keeps its elements in a block of places. A push onto a full vector moves all of them
to a block of twice the size, and a reference into the old block no longer reads anything that
is defined. Blocks are told apart by their sizes, which only grow.
-/

namespace GrowingVectors

variable {α : Type}

/-- A vector with the places of its allocation. -/
structure Vec (α : Type) where
  items : List α
  places : Nat

/-- A vector with one element. -/
def Vec.single (item : α) : Vec α := ⟨[item], 1⟩

/-- `push_back`. -/
def Vec.push (vec : Vec α) (item : α) : Vec α :=
  ⟨vec.items ++ [item], if vec.items.length < vec.places then vec.places else 2 * vec.places⟩

/-- `pop_back`. -/
def Vec.pop (vec : Vec α) : Vec α := ⟨vec.items.dropLast, vec.places⟩

/-- A reference to an element: the element, and the block it was in. -/
structure Ref (α : Type) where
  item : α
  places : Nat

/-- A reference to the last element, with a value for an empty vector. -/
def Vec.back (vec : Vec α) (missing : α) : Ref α := ⟨vec.items.getLastD missing, vec.places⟩

/-- What a reference reads: nothing that is defined once its block was left. -/
def Vec.read (vec : Vec α) (reference : Ref α) : Option α :=
  if vec.places = reference.places then some reference.item else none

@[simp] theorem push_items (vec : Vec α) (item : α) : (vec.push item).items = vec.items ++ [item] := rfl

/-- The places of a vector that has grown to a number of elements from one. -/
def placesFor : Nat → Nat
  | 0 => 1
  | length + 1 => if length < placesFor length then placesFor length else 2 * placesFor length

theorem placesFor_pos (length : Nat) : 0 < placesFor length := by
  induction length with
  | zero => exact Nat.one_pos
  | succ length ih =>
    rw [placesFor]
    split <;> omega

theorem length_le_placesFor (length : Nat) : length ≤ placesFor length := by
  induction length with
  | zero => exact Nat.zero_le _
  | succ length ih =>
    have positive := placesFor_pos length
    rw [placesFor]
    split
    · rename_i room
      exact room
    · omega

/-- A vector that has just as many places as it grew to have, still has them after a push. -/
theorem push_places (vec : Vec α) (item : α) (grown : vec.places = placesFor vec.items.length) :
    (vec.push item).places = placesFor (vec.push item).items.length := by
  rw [push_items, List.length_append, List.length_singleton, placesFor, ← grown]
  rfl

theorem read_some (vec : Vec α) (reference : Ref α) (same : vec.places = reference.places) :
    vec.read reference = some reference.item := if_pos same

theorem read_none (vec : Vec α) (reference : Ref α) (different : vec.places ≠ reference.places) :
    vec.read reference = none := if_neg different

end GrowingVectors
