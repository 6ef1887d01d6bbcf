import Mathlib.Data.List.AList
import Mathlib.Algebra.BigOperators.Group.Finset.Basic
import Mathlib.Algebra.Ring.Nat

/-!
# Finite tables with additive measures

A table is a finite association list with distinct keys. The measure of a table
adds a weight over its entries. Insertion replaces one entry's weight, erasure
removes it, and a table whose selected entries correspond key by key to those of
another has the same measure. Only the weights of the touched key change.
-/

namespace FiniteTables

variable {κ ν μ : Type} [DecidableEq κ]

/-- A finite table from keys to values. -/
abbrev Table (κ ν : Type) [DecidableEq κ] := AList (fun _ : κ => ν)

/-- The sum of a weight over all entries. -/
def measure (weight : κ → ν → Nat) (table : Table κ ν) : Nat :=
  (table.entries.map (fun entry => weight entry.1 entry.2)).sum

/-- The weight of a key's entry, zero when the key is absent. -/
def weightAt (weight : κ → ν → Nat) (table : Table κ ν) (key : κ) : Nat :=
  match table.lookup key with
  | none => 0
  | some value => weight key value

@[simp] theorem measure_empty (weight : κ → ν → Nat) :
    measure weight (∅ : Table κ ν) = 0 := rfl

theorem weightAt_some (weight : κ → ν → Nat) (table : Table κ ν) (key : κ) (value : ν)
    (found : table.lookup key = some value) : weightAt weight table key = weight key value := by
  simp [weightAt, found]

theorem weightAt_none (weight : κ → ν → Nat) (table : Table κ ν) (key : κ)
    (missing : table.lookup key = none) : weightAt weight table key = 0 := by
  simp [weightAt, missing]

theorem entries_erase (table : Table κ ν) (key : κ) :
    (table.erase key).entries = table.entries.kerase key := rfl

/-- Erasing a key removes exactly its weight. -/
theorem measure_erase (weight : κ → ν → Nat) (table : Table κ ν) (key : κ) :
    measure weight (table.erase key) + weightAt weight table key = measure weight table := by
  obtain ⟨entries, distinct⟩ := table
  simp only [measure, weightAt, entries_erase, AList.lookup]
  induction entries with
  | nil => rfl
  | cons entry rest ih =>
    obtain ⟨first, value⟩ := entry
    have tail := ih (List.NodupKeys.sublist (List.sublist_cons_self _ _) distinct)
    by_cases same : key = first
    · subst same
      simp [List.kerase_cons_eq, Nat.add_comm]
    · rw [List.kerase_cons_ne (by simpa using same), List.dlookup_cons_ne _ _ same]
      simp only [List.map_cons, List.sum_cons]
      omega

/-- Insertion exchanges the key's old weight for the new one. -/
theorem measure_insert (weight : κ → ν → Nat) (table : Table κ ν) (key : κ) (value : ν) :
    measure weight (table.insert key value) + weightAt weight table key =
      measure weight table + weight key value := by
  have erased := measure_erase weight table key
  have inserted : measure weight (table.insert key value) =
      weight key value + measure weight (table.erase key) := by
    simp [measure, AList.entries_insert, entries_erase]
  omega

/-- A pointwise smaller weight has a smaller measure. -/
theorem measure_mono (weight weight' : κ → ν → Nat) (table : Table κ ν)
    (le : ∀ key value, weight key value ≤ weight' key value) :
    measure weight table ≤ measure weight' table := by
  unfold measure
  induction table.entries with
  | nil => simp
  | cons entry rest ih =>
    have first := le entry.1 entry.2
    simp only [List.map_cons, List.sum_cons]
    omega

/-- The measure as a sum over any set of keys that covers the table. -/
theorem measure_eq_sum (weight : κ → ν → Nat) (table : Table κ ν) (keys : Finset κ)
    (covers : ∀ key value, table.lookup key = some value → key ∈ keys) :
    measure weight table = ∑ key ∈ keys, weightAt weight table key := by
  have own : measure weight table = ∑ key ∈ table.keys.toFinset, weightAt weight table key := by
    rw [List.sum_toFinset _ table.keys_nodup]
    unfold measure AList.keys List.keys
    rw [List.map_map]
    refine congrArg List.sum (List.map_congr_left fun entry member => ?_)
    exact (weightAt_some weight table entry.1 entry.2
      (List.mem_dlookup table.nodupKeys member)).symm
  rw [own]
  refine Finset.sum_subset ?_ ?_
  · intro key member
    rw [List.mem_toFinset, ← AList.mem_keys, ← AList.lookup_isSome, Option.isSome_iff_exists] at member
    obtain ⟨value, found⟩ := member
    exact covers key value found
  · intro key _ absent
    refine weightAt_none weight table key (AList.lookup_eq_none.mpr ?_)
    rwa [List.mem_toFinset, ← AList.mem_keys] at absent

/-- Tables with the same weight under every key have the same measure. -/
theorem measure_congr (weight : κ → ν → Nat) (weight' : κ → μ → Nat) (table : Table κ ν)
    (table' : Table κ μ) (same : ∀ key, weightAt weight table key = weightAt weight' table' key) :
    measure weight table = measure weight' table' := by
  have listed : ∀ {ρ : Type} (table : Table κ ρ) (key : κ) (value : ρ),
      table.lookup key = some value → key ∈ table.keys.toFinset := by
    intro ρ table key value found
    rw [List.mem_toFinset, ← AList.mem_keys, ← AList.lookup_isSome, found]
    rfl
  rw [measure_eq_sum weight table (table.keys.toFinset ∪ table'.keys.toFinset)
      (fun key value found => Finset.mem_union_left _ (listed table key value found)),
    measure_eq_sum weight' table' (table.keys.toFinset ∪ table'.keys.toFinset)
      (fun key value found => Finset.mem_union_right _ (listed table' key value found))]
  exact Finset.sum_congr rfl (fun key _ => same key)

/-- Distinct keys weigh together no more than the table. -/
theorem weights_le_measure (weight : κ → ν → Nat) (table : Table κ ν) (keys : List κ)
    (distinct : keys.Nodup) :
    (keys.map (weightAt weight table)).sum ≤ measure weight table := by
  induction keys generalizing table with
  | nil => simp
  | cons key rest ih =>
    obtain ⟨absent, distinct⟩ := List.nodup_cons.mp distinct
    have erased := measure_erase weight table key
    have others := ih (table.erase key) distinct
    have unchanged : rest.map (weightAt weight (table.erase key)) =
        rest.map (weightAt weight table) := by
      refine List.map_congr_left fun other member => ?_
      have different : other ≠ key := fun same => absent (same ▸ member)
      unfold weightAt
      rw [AList.lookup_erase_ne different]
    rw [unchanged] at others
    simp only [List.map_cons, List.sum_cons]
    omega

/-- Overwriting one entry with another weight, when the old entry is known. -/
theorem measure_insert_found (weight : κ → ν → Nat) (table : Table κ ν) (key : κ)
    (old value : ν) (found : table.lookup key = some old) :
    measure weight (table.insert key value) + weight key old =
      measure weight table + weight key value := by
  have exchanged := measure_insert weight table key value
  rwa [weightAt_some weight table key old found] at exchanged

/-- Lookup after an insertion, for any key. -/
theorem lookup_insert (table : Table κ ν) (key tested : κ) (value : ν) :
    (table.insert key value).lookup tested =
      if tested = key then some value else table.lookup tested := by
  by_cases same : tested = key
  · subst same
    simp
  · simp [same, AList.lookup_insert_ne same]

/-- Lookup after an erasure, for any key. -/
theorem lookup_erase (table : Table κ ν) (key tested : κ) :
    (table.erase key).lookup tested = if tested = key then none else table.lookup tested := by
  by_cases same : tested = key
  · subst same
    simp
  · simp [same, AList.lookup_erase_ne same]

end FiniteTables
