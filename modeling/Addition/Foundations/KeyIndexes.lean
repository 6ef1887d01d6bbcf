import Mathlib.Data.Finset.Basic
import Mathlib.Data.Finset.Lattice.Basic

/-!
# Indexed lists

A list of items, each with some keys, beside the set of all their keys. While no two
items share a key, the set can be kept by inserting the keys of a new item and
erasing those of a removed one: no key that is erased is needed by another item.
-/

namespace KeyIndexes

variable {α κ : Type}

/-- A set is exactly the keys of some items, no two of which share one. -/
structure Indexes (keys : α → List κ) (items : List α) (index : Finset κ) : Prop where
  exact : ∀ key, key ∈ index ↔ ∃ item ∈ items, key ∈ keys item
  apart : items.Pairwise (fun left right => ∀ key ∈ keys left, key ∉ keys right)

theorem indexes_nil (keys : α → List κ) : Indexes keys [] ∅ :=
  ⟨by simp, List.Pairwise.nil⟩

variable {index : Finset κ} {items : List α} {keys : α → List κ}

/-- The order of the items does not matter. -/
theorem Indexes.perm {items' : List α}
    (indexes : Indexes keys items index) (arranged : items'.Perm items) :
    Indexes keys items' index := by
  refine ⟨?_, ?_⟩
  · intro key
    rw [indexes.exact]
    simp only [arranged.mem_iff]
  · refine (arranged.pairwise_iff ?_).mpr indexes.apart
    intro left right apart key member member'
    exact apart key member' member

variable [DecidableEq κ]

/-- Insert some keys one after another. -/
def insertKeys (index : Finset κ) (keys : List κ) : Finset κ :=
  keys.foldl (fun index key => insert key index) index

/-- Erase some keys one after another. -/
def eraseKeys (index : Finset κ) (keys : List κ) : Finset κ :=
  keys.foldl (fun index key => index.erase key) index

theorem mem_insertKeys (index : Finset κ) (keys : List κ) (key : κ) :
    key ∈ insertKeys index keys ↔ key ∈ index ∨ key ∈ keys := by
  induction keys generalizing index with
  | nil => simp [insertKeys]
  | cons first rest ih =>
    show key ∈ insertKeys (insert first index) rest ↔ _
    rw [ih, Finset.mem_insert, List.mem_cons]
    tauto

theorem mem_eraseKeys (index : Finset κ) (keys : List κ) (key : κ) :
    key ∈ eraseKeys index keys ↔ key ∈ index ∧ key ∉ keys := by
  induction keys generalizing index with
  | nil => simp [eraseKeys]
  | cons first rest ih =>
    show key ∈ eraseKeys (index.erase first) rest ↔ _
    rw [ih, Finset.mem_erase, List.mem_cons]
    tauto

/-- A list that ends in one more item is indexed exactly when the list before is and
the new keys are in no index. -/
theorem indexes_snoc (keys : α → List κ) (items : List α) (index : Finset κ) (item : α)
    (indexes : Indexes keys items index) :
    Indexes keys (items ++ [item]) (insertKeys index (keys item)) ↔
      ∀ key ∈ keys item, key ∉ index := by
  constructor
  · intro extended key member known
    obtain ⟨earlier, listed, shared⟩ := (indexes.exact key).mp known
    exact (List.pairwise_append.mp extended.apart).2.2 earlier listed item (by simp) key shared member
  · intro fresh
    refine ⟨?_, List.pairwise_append.mpr ⟨indexes.apart, List.pairwise_singleton _ _, ?_⟩⟩
    · intro key
      rw [mem_insertKeys, indexes.exact]
      constructor
      · rintro (⟨earlier, listed, member⟩ | member)
        · exact ⟨earlier, by simp [listed], member⟩
        · exact ⟨item, by simp, member⟩
      · rintro ⟨other, listed, member⟩
        rcases List.mem_append.mp listed with earlier | last
        · exact .inl ⟨other, earlier, member⟩
        · exact .inr (List.mem_singleton.mp last ▸ member)
    · intro earlier listed last same key member shared
      obtain rfl := List.mem_singleton.mp same
      exact fresh key shared ((indexes.exact key).mpr ⟨earlier, listed, member⟩)

/-- Removing the first item erases exactly its keys. -/
theorem Indexes.tail {item : α} (indexes : Indexes keys (item :: items) index) :
    Indexes keys items (eraseKeys index (keys item)) := by
  obtain ⟨apart, later⟩ := List.pairwise_cons.mp indexes.apart
  refine ⟨?_, later⟩
  intro key
  rw [mem_eraseKeys, indexes.exact]
  constructor
  · rintro ⟨⟨other, listed, member⟩, absent⟩
    rcases List.mem_cons.mp listed with rfl | inside
    · exact absurd member absent
    · exact ⟨other, inside, member⟩
  · rintro ⟨other, inside, member⟩
    exact ⟨⟨other, by simp [inside], member⟩, fun own => apart other inside key own member⟩

end KeyIndexes
