import Addition.Shielded

/-!
# Reading back what was written

Each reader of the binary formats, applied to what its writer produced and
anything behind it, returns the value and leaves the rest. The readers and the
writers compose, so the lemmas do.
-/

namespace Addition.Wire

open ByteStrings Checked

/-- A reader returns a value from what was written for it and leaves the rest. -/
def Restores {α : Type} (read : Bytes → Option (α × Bytes)) (written : Bytes) (value : α) : Prop :=
  ∀ rest, read (written ++ rest) = some (value, rest)

theorem take_restores (octets : Bytes) (count : Nat) (width : octets.length = count) :
    Restores (take count) octets octets := by
  intro rest
  subst width
  simp [take]

theorem leValue_putU32 (value : Nat) (bound : value < 2 ^ 32) : leValue (putU32 value) = value := by
  rw [putU32, leValue_leBytes, Nat.mod_eq_of_lt (by omega)]

theorem getU32_restores (value : Nat) (bound : value < 2 ^ 32) :
    Restores getU32 (putU32 value) value := by
  intro rest
  rw [getU32, take_restores (putU32 value) 4 (by simp [putU32]) rest, Option.map_some,
    leValue_putU32 value bound]

theorem getU64_restores (value : UInt64) : Restores getU64 (putU64 value) value := by
  intro rest
  rw [getU64, take_restores (putU64 value) 8 (by simp [putU64]) rest, Option.map_some, putU64,
    leValue_leBytes, Nat.mod_eq_of_lt (by have bound := value.toNat_lt; omega), UInt64.ofNat_toNat]

theorem getCount_restores (cap count : Nat) (within : count ≤ cap) (bound : count < 2 ^ 32) :
    Restores (getCount cap) (putU32 count) count := by
  intro rest
  rw [getCount, getU32_restores count bound rest]
  simp [within]

/-- A counted list of items. -/
theorem readMany_restores {α : Type} (read : Bytes → Option (α × Bytes)) (put : α → Bytes)
    (items : List α) (each : ∀ item ∈ items, Restores read (put item) item) :
    Restores (readMany read items.length) (items.flatMap put) items := by
  induction items with
  | nil =>
    intro rest
    rfl
  | cons item others ih =>
    intro rest
    have later := ih (fun other member => each other (by simp [member]))
    rw [List.length_cons, readMany, List.flatMap_cons, List.append_assoc,
      each item (by simp) (others.flatMap put ++ rest)]
    simp [later rest]

theorem readH32_restores (digest : H32) : Restores Shielded.readH32 digest.val digest := by
  intro rest
  have width := digest.property
  have enough : 32 ≤ (digest.val ++ rest).length := by
    rw [List.length_append]
    omega
  unfold Shielded.readH32
  rw [dif_pos enough]
  refine congrArg some (Prod.ext (Subtype.ext ?_) ?_)
  · exact List.take_left' width
  · exact List.drop_left' width

/-- The digests of a list. -/
theorem readDigests_restores (digests : List H32) :
    Restores (readMany Shielded.readH32 digests.length) (Shielded.putDigests digests) digests :=
  readMany_restores _ _ digests (fun digest _ => readH32_restores digest)

/-- How many items a counted read returns. -/
theorem readMany_length {α : Type} (read : Bytes → Option (α × Bytes)) (count : Nat)
    (input rest : Bytes) (items : List α) (result : readMany read count input = some (items, rest)) :
    items.length = count := by
  induction count generalizing input items with
  | zero =>
    obtain ⟨rfl, _⟩ := Prod.mk.inj (Option.some.inj result)
    rfl
  | succ count ih =>
    simp only [readMany, Option.bind_eq_bind, Option.pure_def, Option.bind_eq_some_iff,
      Option.some.injEq] at result
    obtain ⟨⟨first, _⟩, _, ⟨later, _⟩, others, same⟩ := result
    obtain ⟨rfl, rfl⟩ := Prod.mk.inj same
    rw [List.length_cons, ih _ _ others]

/-! ### What a reader accepted -/

/-- What a reader accepts is what would be written for its value. -/
def Reflects {α : Type} (read : Bytes → Option (α × Bytes)) (put : α → Bytes) : Prop :=
  ∀ input value rest, read input = some (value, rest) → input = put value ++ rest

@[simp] theorem orError_ok {α : Type} (message : String) (result : Option α) (value : α) :
    orError message result = .ok value ↔ result = some value := by
  cases result <;> simp [orError]

theorem take_accepts (count : Nat) (input octets rest : Bytes)
    (read : take count input = some (octets, rest)) :
    input = octets ++ rest ∧ octets.length = count := by
  unfold take at read
  split at read
  · rename_i enough
    obtain ⟨rfl, rfl⟩ := Prod.mk.inj (Option.some.inj read)
    exact ⟨(List.take_append_drop count input).symm, List.length_take_of_le enough⟩
  · simp at read

theorem getU32_reflects : Reflects getU32 putU32 := by
  intro input value rest read
  simp only [getU32, Option.map_eq_some_iff, Prod.mk.injEq, Prod.exists] at read
  obtain ⟨octets, _, taken, rfl, rfl⟩ := read
  obtain ⟨split, width⟩ := take_accepts 4 input octets _ taken
  rw [split, putU32, ← width, leBytes_leValue]

theorem getU64_reflects : Reflects getU64 putU64 := by
  intro input value rest read
  simp only [getU64, Option.map_eq_some_iff, Prod.mk.injEq, Prod.exists] at read
  obtain ⟨octets, _, taken, rfl, rfl⟩ := read
  obtain ⟨split, width⟩ := take_accepts 8 input octets _ taken
  have bound : leValue octets < UInt64.size := by
    have small := leValue_lt octets
    rw [width] at small
    simp only [UInt64.size]
    omega
  rw [split, putU64, UInt64.toNat_ofNat_of_lt' bound, ← width, leBytes_leValue]

theorem readH32_reflects : Reflects Shielded.readH32 Subtype.val := by
  intro input digest rest read
  unfold Shielded.readH32 at read
  split at read
  · obtain ⟨rfl, rfl⟩ := Prod.mk.inj (Option.some.inj read)
    exact (List.take_append_drop 32 input).symm
  · simp at read

theorem readMany_reflects {α : Type} {read : Bytes → Option (α × Bytes)} {put : α → Bytes}
    (reflects : Reflects read put) (count : Nat) :
    Reflects (readMany read count) (fun items => items.flatMap put) := by
  induction count with
  | zero =>
    intro input items rest result
    obtain ⟨rfl, rfl⟩ := Prod.mk.inj (Option.some.inj result)
    rfl
  | succ count ih =>
    intro input items rest result
    simp only [readMany, Option.bind_eq_bind, Option.pure_def, Option.bind_eq_some_iff,
      Option.some.injEq] at result
    obtain ⟨⟨first, middle⟩, head, ⟨later, _⟩, others, same⟩ := result
    obtain ⟨rfl, rfl⟩ := Prod.mk.inj same
    rw [reflects input first middle head, ih middle later _ others]
    simp

end Addition.Wire
