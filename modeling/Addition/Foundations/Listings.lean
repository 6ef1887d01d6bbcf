import Addition.Foundations.FiniteTables

/-!
# Tables and sets written down in some order

A listing has every entry of a table exactly once, in an order that nothing fixes. Putting
the entries of a listing into an empty table gives the same lookups, whatever the order.
The same holds of the values of a set.
-/

namespace FiniteTables

variable {κ ν : Type} [DecidableEq κ]

/-- The entries of a table, each once and in any order. -/
structure Lists (order : List (κ × ν)) (table : Table κ ν) : Prop where
  distinct : (order.map Prod.fst).Nodup
  entries : ∀ key value, (key, value) ∈ order ↔ table.lookup key = some value

/-- The values of a set, each once and in any order. -/
structure ListsSet (order : List κ) (values : Finset κ) : Prop where
  distinct : order.Nodup
  members : ∀ value, value ∈ order ↔ value ∈ values

/-- Put some entries into a table, one after the other. -/
def putAll (table : Table κ ν) (order : List (κ × ν)) : Table κ ν :=
  order.foldl (fun table entry => table.insert entry.1 entry.2) table

@[simp] theorem putAll_cons (table : Table κ ν) (entry : κ × ν) (rest : List (κ × ν)) :
    putAll table (entry :: rest) = putAll (table.insert entry.1 entry.2) rest := rfl

/-- A key that is not among the entries keeps its value. -/
theorem lookup_putAll_other (table : Table κ ν) (order : List (κ × ν)) (key : κ)
    (other : key ∉ order.map Prod.fst) : (putAll table order).lookup key = table.lookup key := by
  induction order generalizing table with
  | nil => rfl
  | cons entry rest ih =>
    rw [List.map_cons, List.mem_cons, not_or] at other
    rw [putAll_cons, ih _ other.2, lookup_insert, if_neg other.1]

/-- An entry whose key comes once is looked up. -/
theorem lookup_putAll (table : Table κ ν) (order : List (κ × ν)) (key : κ) (value : ν)
    (distinct : (order.map Prod.fst).Nodup) (member : (key, value) ∈ order) :
    (putAll table order).lookup key = some value := by
  induction order generalizing table with
  | nil => simp at member
  | cons entry rest ih =>
    obtain ⟨absent, distinct⟩ := List.nodup_cons.mp distinct
    rw [putAll_cons]
    rcases List.mem_cons.mp member with rfl | later
    · rw [lookup_putAll_other _ rest key absent, lookup_insert, if_pos rfl]
    · exact ih _ distinct later

variable {order : List (κ × ν)} {table : Table κ ν}

/-- Collecting what is made of the entries of a listing gives the lookups of the table, with the
same made of them. -/
theorem Lists.lookup_map {μ : Type} (lists : Lists order table) (made : κ × ν → μ) (key : κ) :
    (putAll ∅ (order.map (fun entry => (entry.1, made entry)))).lookup key =
      (table.lookup key).map (fun value => made (key, value)) := by
  have keys : (order.map (fun entry => (entry.1, made entry))).map Prod.fst = order.map Prod.fst := by
    rw [List.map_map]
    rfl
  cases found : table.lookup key with
  | some value =>
    refine lookup_putAll ∅ _ key _ (keys ▸ lists.distinct) ?_
    exact List.mem_map.mpr ⟨(key, value), (lists.entries _ _).mpr found, rfl⟩
  | none =>
    rw [lookup_putAll_other, AList.lookup_empty, Option.map_none]
    rw [keys]
    intro member
    obtain ⟨entry, inside, same⟩ := List.mem_map.mp member
    have present := (lists.entries entry.1 entry.2).mp inside
    rw [same, found] at present
    exact absurd present (by simp)

/-- Collecting a listing gives the lookups of the table. -/
theorem Lists.lookup (lists : Lists order table)
    (key : κ) : (putAll ∅ order).lookup key = table.lookup key := by
  have whole := lists.lookup_map Prod.snd key
  rw [show order.map (fun entry => (entry.1, entry.2)) = order from List.map_id order] at whole
  rw [whole]
  exact Option.map_id'

/-- The table's own order is one of its listings. -/
theorem lists_entries (table : Table κ ν) :
    Lists (table.entries.map (fun entry => (entry.1, entry.2))) table where
  distinct := by
    rw [List.map_map]
    exact table.nodupKeys
  entries := by
    intro key value
    simp only [List.mem_map, Prod.mk.injEq]
    constructor
    · rintro ⟨entry, member, rfl, rfl⟩
      exact List.mem_dlookup table.nodupKeys member
    · intro found
      exact ⟨⟨key, value⟩, List.of_mem_dlookup found, rfl, rfl⟩

/-- Collecting a listing gives the set. -/
theorem ListsSet.toFinset {order : List κ} {values : Finset κ} (lists : ListsSet order values) :
    order.toFinset = values := by
  ext value
  rw [List.mem_toFinset, lists.members]

/-- Putting some values into a set, one after the other. -/
theorem insertAll (values : Finset κ) (order : List κ) :
    order.foldl (fun values value => insert value values) values = values ∪ order.toFinset := by
  induction order generalizing values with
  | nil => simp
  | cons value rest ih =>
    rw [List.foldl_cons, ih]
    ext other
    simp only [Finset.mem_union, Finset.mem_insert, List.mem_toFinset, List.mem_cons]
    tauto

/-! ### Sums of measures -/

/-- Measures add up to the measure of the sum of the weights. -/
theorem sum_measure {α : Type} (items : List α) (weight : α → κ → ν → Nat) (table : Table κ ν) :
    (items.map (fun item => measure (weight item) table)).sum =
      measure (fun key value => (items.map (fun item => weight item key value)).sum) table := by
  unfold measure
  induction items with
  | nil => simp
  | cons item rest ih =>
    simp only [List.map_cons, List.sum_cons, List.sum_map_add, ih]

/-- Weights that agree on the entries of a table. -/
theorem measure_entries (weight weight' : κ → ν → Nat) (table : Table κ ν)
    (same : ∀ key value, table.lookup key = some value → weight key value = weight' key value) :
    measure weight table = measure weight' table := by
  refine measure_congr weight weight' table table fun key => ?_
  cases found : table.lookup key with
  | none => rw [weightAt_none _ _ _ found, weightAt_none _ _ _ found]
  | some value => rw [weightAt_some _ _ _ _ found, weightAt_some _ _ _ _ found, same key value found]

/-- A value is once among distinct ones. -/
theorem sum_indicator (values : List κ) (distinct : values.Nodup) {value : κ} (member : value ∈ values) :
    (values.map (fun other => if value = other then 1 else 0)).sum = 1 := by
  have counted : ∀ values : List κ,
      (values.map (fun other => if value = other then 1 else 0)).sum = values.count value := by
    intro values
    induction values with
    | nil => rfl
    | cons other rest ih =>
      rw [List.map_cons, List.sum_cons, ih, List.count_cons, Nat.add_comm]
      simp only [beq_iff_eq, @eq_comm _ value]
  rw [counted, List.count_eq_one_of_mem distinct member]

/-! ### What is kept of a table -/

/-- The entries that meet a condition. -/
def keep (table : Table κ ν) (kept : κ → ν → Bool) : Table κ ν :=
  ⟨table.entries.filter (fun entry => kept entry.1 entry.2),
    List.NodupKeys.sublist List.filter_sublist table.nodupKeys⟩

theorem lookup_keep (table : Table κ ν) (kept : κ → ν → Bool) (key : κ) :
    (keep table kept).lookup key = (table.lookup key).filter (kept key) := by
  have found : ∀ value, (keep table kept).lookup key = some value ↔
      table.lookup key = some value ∧ kept key value = true := by
    intro value
    constructor
    · intro here
      obtain ⟨inside, meets⟩ := List.mem_filter.mp (List.of_mem_dlookup here)
      exact ⟨List.mem_dlookup table.nodupKeys inside, meets⟩
    · rintro ⟨here, meets⟩
      exact List.mem_dlookup (keep table kept).nodupKeys
        (List.mem_filter.mpr ⟨List.of_mem_dlookup here, meets⟩)
  refine Option.ext fun value => ?_
  rw [found, Option.filter_eq_some_iff]

/-- What is kept and what is not weigh together as much as the table. -/
theorem measure_keep (weight : κ → ν → Nat) (table : Table κ ν) (kept : κ → ν → Bool) :
    measure weight (keep table kept) + measure weight (keep table (fun key value => !kept key value)) =
      measure weight table := by
  unfold measure keep
  dsimp only
  induction table.entries with
  | nil => rfl
  | cons entry rest ih =>
    rw [List.filter_cons, List.filter_cons, List.map_cons, List.sum_cons]
    cases kept entry.1 entry.2 with
    | true =>
      simp only [↓reduceIte, Bool.not_true, Bool.false_eq_true, List.map_cons, List.sum_cons]
      omega
    | false =>
      simp only [↓reduceIte, Bool.not_false, Bool.false_eq_true, List.map_cons, List.sum_cons]
      omega

theorem keep_few (table : Table κ ν) (kept : κ → ν → Bool) :
    (keep table kept).entries.length ≤ table.entries.length := List.length_filter_le _ _

/-- A table with other values under the same keys. -/
def mapValues {μ : Type} (table : Table κ ν) (change : ν → μ) : Table κ μ :=
  ⟨table.entries.map (fun entry => ⟨entry.1, change entry.2⟩), by
    have same : (table.entries.map (fun entry => (⟨entry.1, change entry.2⟩ : Sigma fun _ : κ => μ))).keys =
        table.entries.keys := by
      rw [List.keys, List.map_map]
      rfl
    rw [List.NodupKeys, same]
    exact table.nodupKeys⟩

theorem lookup_mapValues {μ : Type} (table : Table κ ν) (change : ν → μ) (key : κ) :
    (mapValues table change).lookup key = (table.lookup key).map change := by
  cases found : table.lookup key with
  | some value =>
    exact List.mem_dlookup (mapValues table change).nodupKeys
      (List.mem_map.mpr ⟨⟨key, value⟩, List.of_mem_dlookup found, rfl⟩)
  | none =>
    rw [Option.map_none, AList.lookup_eq_none, AList.mem_keys]
    rw [AList.lookup_eq_none, AList.mem_keys] at found
    intro member
    obtain ⟨entry, inside, same⟩ := List.mem_map.mp member
    obtain ⟨before, there, rfl⟩ := List.mem_map.mp inside
    exact found (same ▸ List.mem_map_of_mem (f := Sigma.fst) there)

theorem length_keys (table : Table κ ν) : table.keys.length = table.entries.length := List.length_map _

theorem insert_few (table : Table κ ν) (key : κ) (value : ν) :
    (table.insert key value).entries.length ≤ table.entries.length + 1 := by
  have shorter := List.length_erase_le (a := key) (l := table.keys)
  rw [← length_keys, ← length_keys, AList.keys_insert, List.length_cons]
  omega

theorem insert_same (table : Table κ ν) (key : κ) (value old : ν) (found : table.lookup key = some old) :
    (table.insert key value).entries.length = table.entries.length := by
  have member : key ∈ table.keys := by
    rw [← AList.mem_keys, ← AList.lookup_isSome, found]
    rfl
  have filled := List.length_pos_of_mem member
  rw [← length_keys, ← length_keys, AList.keys_insert, List.length_cons,
    List.length_erase_of_mem member]
  omega

theorem erase_few (table : Table κ ν) (key : κ) :
    (table.erase key).entries.length ≤ table.entries.length := by
  rw [← length_keys, ← length_keys, AList.keys_erase]
  exact List.length_erase_le

end FiniteTables
