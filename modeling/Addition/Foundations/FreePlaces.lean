import Mathlib.Data.List.Count
import Mathlib.Data.List.Nodup

/-!
# Searching for free places

Names stand at places of a list. They are searched one after the other, and a search
takes the first place of its name that no earlier search took. When every name is
searched for at least as often as it occurs, every place of a searched name is taken.
-/

namespace FreePlaces

variable {α : Type*} [BEq α] [LawfulBEq α]

/-- The places of a name that are not taken. -/
def freePlaces (names : List α) (taken : List Nat) (name : α) : List Nat :=
  (List.range names.length).filter (fun place => !taken.contains place && names[place]? == some name)

/-- The first of the free places. -/
def freePlace (names : List α) (taken : List Nat) (name : α) : Option Nat :=
  (freePlaces names taken name).head?

/-- One search: the place of the name is added, when there is one. -/
def takePlace (names : List α) (taken : List Nat) (name : α) : List Nat :=
  taken ++ (freePlace names taken name).toList

/-- Several searches, each after the places that were taken before it. -/
def takePlaces (names searches : List α) (taken : List Nat) : List Nat :=
  searches.foldl (takePlace names) taken

theorem mem_freePlaces (names : List α) (taken : List Nat) (name : α) (place : Nat) :
    place ∈ freePlaces names taken name ↔ names[place]? = some name ∧ place ∉ taken := by
  simp only [freePlaces, List.mem_filter, List.mem_range, Bool.and_eq_true, Bool.not_eq_true',
    beq_iff_eq, List.contains_eq_mem, decide_eq_false_iff_not]
  constructor
  · rintro ⟨_, free, named⟩
    exact ⟨named, free⟩
  · rintro ⟨named, free⟩
    exact ⟨(List.getElem?_eq_some_iff.mp named).1, free, named⟩

omit [LawfulBEq α] in
theorem freePlaces_nodup (names : List α) (taken : List Nat) (name : α) :
    (freePlaces names taken name).Nodup :=
  List.nodup_range.filter _

/-- Taking a place removes it from the free ones. -/
theorem freePlaces_taken (names : List α) (taken : List Nat) (place : Nat) (name : α) :
    freePlaces names (taken ++ [place]) name = (freePlaces names taken name).erase place := by
  rw [(freePlaces_nodup names taken name).erase_eq_filter, freePlaces, freePlaces, List.filter_filter]
  refine List.filter_congr fun other _ => ?_
  by_cases same : other = place
  · simp [same]
  · simp [same]

/-- A search leaves one free place less of its name, and those of other names alone. -/
theorem freePlaces_length (names : List α) (taken : List Nat) (searched name : α) :
    (freePlaces names (takePlace names taken searched) name).length =
      (freePlaces names taken name).length - if searched == name then 1 else 0 := by
  unfold takePlace freePlace
  cases found : freePlaces names taken searched with
  | nil =>
    by_cases same : searched = name
    · simp [← same, found]
    · simp [same]
  | cons place rest =>
    obtain ⟨named, free⟩ := (mem_freePlaces names taken searched place).mp (by simp [found])
    simp only [List.head?_cons, Option.toList_some]
    rw [freePlaces_taken]
    by_cases same : searched = name
    · rw [if_pos (beq_iff_eq.mpr same), ← same, found, List.erase_cons_head]
      rfl
    · rw [if_neg (fun equal => same (beq_iff_eq.mp equal)), List.erase_of_not_mem, Nat.sub_zero]
      intro member
      have other := ((mem_freePlaces names taken name place).mp member).1
      rw [named] at other
      exact same (Option.some.inj other)

/-- After all searches the free places of a name are fewer by the searches for it. -/
theorem freePlaces_takePlaces (names searches : List α) (taken : List Nat) (name : α) :
    (freePlaces names (takePlaces names searches taken) name).length =
      (freePlaces names taken name).length - searches.count name := by
  induction searches generalizing taken with
  | nil => simp [takePlaces]
  | cons searched rest ih =>
    have later := ih (takePlace names taken searched)
    rw [freePlaces_length] at later
    rw [List.count_cons, takePlaces, List.foldl_cons]
    rw [takePlaces] at later
    rw [later]
    omega

omit [LawfulBEq α] in
/-- A loop that records more than the places takes the same places. -/
theorem takePlaces_foldl {β γ : Type*} (names : List α) (step : List γ → β → List γ)
    (place : γ → Nat) (wanted : β → α)
    (each : ∀ found item, (step found item).map place =
      takePlace names (found.map place) (wanted item)) (items : List β) (found : List γ) :
    (items.foldl step found).map place =
      takePlaces names (items.map wanted) (found.map place) := by
  induction items generalizing found with
  | nil => rfl
  | cons item rest ih =>
    rw [List.foldl_cons, ih, each, List.map_cons, takePlaces, takePlaces,
      List.foldl_cons]

/-- In the beginning a name has as many free places as it occurs. -/
theorem freePlaces_nil (names : List α) (name : α) :
    (freePlaces names [] name).length = names.count name := by
  have listed : (List.range names.length).map (fun place => names[place]?) = names.map some := by
    refine List.ext_getElem? fun place => ?_
    by_cases inside : place < names.length
    · simp [inside]
    · simp [inside]
  have counted := List.count_map_of_injective names some (fun _ _ => Option.some.inj) name
  rw [← listed, List.count_eq_countP, List.countP_map] at counted
  rw [← counted, freePlaces, ← List.countP_eq_length_filter]
  simp [Function.comp_def]

/-- A name that is searched for as often as it occurs has no free place left. -/
theorem searched_taken (names searches : List α) (name : α) (place : Nat)
    (named : names[place]? = some name) (often : names.count name ≤ searches.count name) :
    place ∈ takePlaces names searches [] := by
  by_contra free
  have left := List.length_pos_of_mem
    ((mem_freePlaces names (takePlaces names searches []) name place).mpr ⟨named, free⟩)
  rw [freePlaces_takePlaces, freePlaces_nil] at left
  omega

/-- Every taken place holds a name that was searched for, and is taken once. -/
theorem takePlaces_sound (names searches : List α) (taken : List Nat) (nodup : taken.Nodup) :
    (takePlaces names searches taken).Nodup ∧
      ∀ place ∈ takePlaces names searches taken,
        place ∈ taken ∨ ∃ name ∈ searches, names[place]? = some name := by
  induction searches generalizing taken with
  | nil => exact ⟨nodup, fun place member => .inl member⟩
  | cons searched rest ih =>
    have once : (takePlace names taken searched).Nodup ∧ ∀ place ∈ takePlace names taken searched,
        place ∈ taken ∨ names[place]? = some searched := by
      unfold takePlace freePlace
      cases found : freePlaces names taken searched with
      | nil =>
        simp only [List.head?_nil, Option.toList_none, List.append_nil]
        exact ⟨nodup, fun place member => .inl member⟩
      | cons place others =>
        obtain ⟨named, free⟩ := (mem_freePlaces names taken searched place).mp (by simp [found])
        simp only [List.head?_cons, Option.toList_some]
        refine ⟨List.nodup_append.mpr ⟨nodup, by simp, ?_⟩, ?_⟩
        · rintro other member _ last rfl
          rw [List.mem_singleton.mp last] at member
          exact free member
        · intro other member
          rcases List.mem_append.mp member with early | last
          · exact .inl early
          · rw [List.mem_singleton.mp last]
            exact .inr named
    obtain ⟨unique, sound⟩ := ih (takePlace names taken searched) once.1
    refine ⟨unique, fun place member => ?_⟩
    rcases sound place member with before | ⟨name, listed, named⟩
    · rcases once.2 place before with early | here
      · exact .inl early
      · exact .inr ⟨searched, by simp, here⟩
    · exact .inr ⟨name, by simp [listed], named⟩

end FreePlaces
