import Addition.Config
import Addition.Foundations.CappedSums

/-!
# The emission schedule

`scheduled_total_emission` sums the schedule era by era, while the chain mints block by block,
each block clipped to what the cap leaves. Both are the same: an era is a run of blocks with one
reward, the era in which the floor is reached goes on until the cap, and when the reward has
become nothing the sum stays what it is.
-/

namespace Addition

open Checked CappedSums

/-- The eras of `scheduled_total_emission` that are left, with the sum of the ones before: the
total and the height that reaches the cap. -/
def emissionEras (maxSupply blockReward halvingInterval subsidyFloor : UInt64) :
    Nat → UInt64 → Nat → UInt64 × UInt64
  | 0, _, total => (.ofNat total, 0)
  | left + 1, e, total =>
    let floorR := min subsidyFloor blockReward
    let r := max (blockReward >>> e) floorR
    if r = 0 then (.ofNat total, 0)
    else
      let first := if e = 0 then 1 else e * halvingInterval
      let floorEra := decide (floorR > 0) && decide (blockReward >>> e ≤ floorR)
      let last := if floorEra then wordMax / 2 else (e + 1) * halvingInterval - 1
      let n := last - first + 1
      let add := wrap128 (r.toNat * n.toNat)
      if wrap128 (total + add) ≥ maxSupply.toNat then
        let need := maxSupply - .ofNat total
        (maxSupply, first + (need + r - 1) / r - 1)
      else emissionEras maxSupply blockReward halvingInterval subsidyFloor left (e + 1)
        (wrap128 (total + add))

/-- `scheduled_total_emission`, with the height it reports. -/
def scheduledTotalEmission (maxSupply blockReward halvingInterval subsidyFloor : UInt64) :
    UInt64 × UInt64 :=
  if halvingInterval = 0 then (0, 0)
  else emissionEras maxSupply blockReward halvingInterval subsidyFloor 64 0 0

/-- What the chain has minted up to a height, block by block. -/
def emission (maxSupply blockReward halvingInterval subsidyFloor : UInt64) : Nat → Nat
  | 0 => 0
  | height + 1 =>
    let before := emission maxSupply blockReward halvingInterval subsidyFloor height
    before + (maxMintableSubsidy (.ofNat (height + 1)) (.ofNat before) maxSupply blockReward
      halvingInterval subsidyFloor).toNat

section Schedule

variable (maxSupply blockReward halvingInterval subsidyFloor : UInt64)

/-- The reward of a height over the natural numbers. -/
def reward (height : Nat) : Nat :=
  max (blockReward.toNat / 2 ^ (height / halvingInterval.toNat)) (min subsidyFloor blockReward).toNat

/-- Rewards are halved once in an interval, and 64 halvings leave nothing of a word. -/
theorem subsidy_reward (height : Nat) (small : height < 2 ^ 64) (some : halvingInterval ≠ 0) :
    (scheduledBlockSubsidy (.ofNat height) blockReward halvingInterval subsidyFloor).toNat =
      reward blockReward halvingInterval subsidyFloor height := by
  have isHeight : (UInt64.ofNat height).toNat = height := UInt64.toNat_ofNat_of_lt' small
  have halvings : (UInt64.ofNat height / halvingInterval).toNat = height / halvingInterval.toNat := by
    rw [UInt64.toNat_div, isHeight]
  unfold scheduledBlockSubsidy reward
  rw [if_neg some]
  dsimp only
  rw [toNat_max]
  congr 1
  by_cases over64 : UInt64.ofNat height / halvingInterval ≥ 64
  · rw [if_pos over64]
    have many := UInt64.le_iff_toNat_le.mp over64
    rw [halvings] at many
    have whole := blockReward.toNat_lt
    have power := Nat.pow_le_pow_right (show 0 < 2 by decide) (show 64 ≤ height / halvingInterval.toNat from many)
    exact (Nat.div_eq_of_lt (by omega)).symm
  · rw [if_neg over64, UInt64.toNat_shiftRight, halvings]
    have few : height / halvingInterval.toNat < 64 :=
      halvings ▸ UInt64.lt_iff_toNat_lt.mp (UInt64.not_le.mp over64)
    rw [Nat.mod_eq_of_lt few, Nat.shiftRight_eq_div_pow]

/-- The chain mints the rewards, capped. -/
theorem emission_capped (some : halvingInterval ≠ 0) (height : Nat) (small : height < 2 ^ 64) :
    emission maxSupply blockReward halvingInterval subsidyFloor height =
      capped maxSupply.toNat (reward blockReward halvingInterval subsidyFloor) height := by
  induction height with
  | zero => rfl
  | succ height ih =>
    have within : emission maxSupply blockReward halvingInterval subsidyFloor height ≤ maxSupply.toNat := by
      rw [ih (by omega), capped_eq]
      exact Nat.min_le_left ..
    rw [emission, capped, ← ih (by omega),
      ← subsidy_reward blockReward halvingInterval subsidyFloor (height + 1) small some]
    generalize emission maxSupply blockReward halvingInterval subsidyFloor height = before at within
    congr 1
    unfold maxMintableSubsidy
    rw [toNat_min]
    congr 1
    have whole := maxSupply.toNat_lt
    have isBefore : (UInt64.ofNat before).toNat = before := UInt64.toNat_ofNat_of_lt' (show before < 2 ^ 64 by omega)
    split
    · rename_i room
      rw [UInt64.toNat_sub_of_le _ _ (UInt64.le_of_lt room), isBefore]
    · rename_i none
      have atLeast := UInt64.le_iff_toNat_le.mp (UInt64.not_lt.mp none)
      rw [isBefore] at atLeast
      change 0 = _
      omega

/-! ### Eras -/

/-- What the parameters of a network satisfy. -/
structure ScheduleBounds : Prop where
  interval : 1 ≤ halvingInterval.toNat ∧ halvingInterval.toNat < 2 ^ 32
  some : 1 ≤ blockReward.toNat
  narrow : maxSupply.toNat ≤ 2 ^ 62 ∧ blockReward.toNat ≤ 2 ^ 62

/-- The reward of an era. -/
def eraReward (e : UInt64) : UInt64 := max (blockReward >>> e) (min subsidyFloor blockReward)

theorem eraReward_toNat (e : UInt64) (few : e.toNat < 64) :
    (eraReward blockReward subsidyFloor e).toNat =
      max (blockReward.toNat / 2 ^ e.toNat) (min subsidyFloor blockReward).toNat := by
  unfold eraReward
  rw [toNat_max, UInt64.toNat_shiftRight, Nat.mod_eq_of_lt few, Nat.shiftRight_eq_div_pow]

/-- The height before an era; the first one starts after the genesis block. -/
def eraStart (e : UInt64) : Nat := e.toNat * halvingInterval.toNat - 1

/-- In an era every height has its reward. -/
theorem reward_era (e : UInt64) (few : e.toNat < 64) (height : Nat)
    (inside : e.toNat * halvingInterval.toNat ≤ height ∧
      height < (e.toNat + 1) * halvingInterval.toNat) :
    reward blockReward halvingInterval subsidyFloor height =
      (eraReward blockReward subsidyFloor e).toNat := by
  have isEra : height / halvingInterval.toNat = e.toNat := Nat.div_eq_of_lt_le inside.1 inside.2
  rw [eraReward_toNat blockReward subsidyFloor e few, reward, isEra]

/-- Once the halved reward is not above the floor, the reward stays at the floor. -/
theorem reward_floor (e : UInt64) (few : e.toNat < 64) (positive : 0 < halvingInterval.toNat)
    (atFloor : blockReward.toNat / 2 ^ e.toNat ≤ (min subsidyFloor blockReward).toNat) (height : Nat)
    (late : e.toNat * halvingInterval.toNat ≤ height) :
    reward blockReward halvingInterval subsidyFloor height =
      (eraReward blockReward subsidyFloor e).toNat := by
  have later : e.toNat ≤ height / halvingInterval.toNat := (Nat.le_div_iff_mul_le positive).mpr late
  have smaller : blockReward.toNat / 2 ^ (height / halvingInterval.toNat) ≤
      blockReward.toNat / 2 ^ e.toNat :=
    Nat.div_le_div_left (Nat.pow_le_pow_right (by decide) later) (Nat.two_pow_pos _)
  rw [eraReward_toNat blockReward subsidyFloor e few, reward]
  omega

/-- The era in which the floor is reached. -/
def floorEra (e : UInt64) : Bool :=
  decide (min subsidyFloor blockReward > 0) && decide (blockReward >>> e ≤ min subsidyFloor blockReward)

/-- The first and the last height of an era. -/
def eraFirst (e : UInt64) : UInt64 := if e = 0 then 1 else e * halvingInterval

/-- The last height of an era. -/
def eraLast (e : UInt64) : UInt64 :=
  if floorEra blockReward subsidyFloor e then wordMax / 2 else (e + 1) * halvingInterval - 1

/-- The sum over the eras before the next one. -/
def eraTotal (e : UInt64) (total : Nat) : Nat :=
  wrap128 (total + wrap128 ((eraReward blockReward subsidyFloor e).toNat *
    (eraLast blockReward halvingInterval subsidyFloor e - eraFirst halvingInterval e + 1).toNat))

theorem emissionEras_succ (left : Nat) (e : UInt64) (total : Nat) :
    emissionEras maxSupply blockReward halvingInterval subsidyFloor (left + 1) e total =
      if eraReward blockReward subsidyFloor e = 0 then (.ofNat total, 0)
      else if eraTotal blockReward halvingInterval subsidyFloor e total ≥ maxSupply.toNat then
        (maxSupply, eraFirst halvingInterval e + (maxSupply - .ofNat total +
          eraReward blockReward subsidyFloor e - 1) / eraReward blockReward subsidyFloor e - 1)
      else emissionEras maxSupply blockReward halvingInterval subsidyFloor left (e + 1)
        (eraTotal blockReward halvingInterval subsidyFloor e total) := rfl

/-- The heights of an era on the natural numbers, and their number. -/
theorem era_heights (bounds : ScheduleBounds maxSupply blockReward halvingInterval) (e : UInt64)
    (few : e.toNat < 64) :
    (eraFirst halvingInterval e).toNat = eraStart halvingInterval e + 1 ∧
      eraStart halvingInterval e < 2 ^ 38 ∧
      (eraLast blockReward halvingInterval subsidyFloor e).toNat =
        (if floorEra blockReward subsidyFloor e then 2 ^ 63 - 1
          else (e.toNat + 1) * halvingInterval.toNat - 1) ∧
      (eraLast blockReward halvingInterval subsidyFloor e - eraFirst halvingInterval e + 1).toNat =
        (eraLast blockReward halvingInterval subsidyFloor e).toNat - eraStart halvingInterval e ∧
      eraStart halvingInterval e ≤ (eraLast blockReward halvingInterval subsidyFloor e).toNat := by
  obtain ⟨least, most⟩ := bounds.interval
  have product : e.toNat * halvingInterval.toNat ≤ 63 * 2 ^ 32 := Nat.mul_le_mul (by omega) (by omega)
  have next : (e.toNat + 1) * halvingInterval.toNat = e.toNat * halvingInterval.toNat + halvingInterval.toNat := Nat.succ_mul ..
  have first : (eraFirst halvingInterval e).toNat = eraStart halvingInterval e + 1 := by
    unfold eraFirst eraStart
    by_cases zero : e = 0
    · rw [if_pos zero, zero]
      simp
    · have one : 1 ≤ e.toNat := positive_of_ne_zero zero
      have above := Nat.mul_le_mul one least
      rw [if_neg zero, UInt64.toNat_mul, Nat.mod_eq_of_lt (by omega)]
      omega
  have last : (eraLast blockReward halvingInterval subsidyFloor e).toNat =
      if floorEra blockReward subsidyFloor e then 2 ^ 63 - 1
        else (e.toNat + 1) * halvingInterval.toNat - 1 := by
    unfold eraLast
    split
    · rfl
    · have sum : (e + 1).toNat = e.toNat + 1 := by
        rw [UInt64.toNat_add]
        exact Nat.mod_eq_of_lt (by change e.toNat + 1 < _; omega)
      have whole : ((e + 1) * halvingInterval).toNat = (e.toNat + 1) * halvingInterval.toNat := by
        rw [UInt64.toNat_mul, sum, Nat.mod_eq_of_lt (by omega)]
      rw [UInt64.toNat_sub_of_le _ _ (by rw [UInt64.le_iff_toNat_le, whole]; change 1 ≤ _; omega), whole]
      rfl
  have start : eraStart halvingInterval e < 2 ^ 38 := by
    unfold eraStart
    omega
  have ordered : eraStart halvingInterval e ≤ (eraLast blockReward halvingInterval subsidyFloor e).toNat := by
    rw [last]
    unfold eraStart
    split <;> omega
  refine ⟨first, start, last, ?_, ordered⟩
  have small : (eraLast blockReward halvingInterval subsidyFloor e).toNat < 2 ^ 64 := UInt64.toNat_lt _
  rw [UInt64.toNat_add, UInt64.toNat_sub, first]
  change (_ + 1) % 2 ^ 64 = _
  omega

/-- In an era the reward is constant. -/
theorem era_constant (bounds : ScheduleBounds maxSupply blockReward halvingInterval) (e : UInt64)
    (few : e.toNat < 64) (i : Nat)
    (inside : eraStart halvingInterval e + i + 1 ≤
      (eraLast blockReward halvingInterval subsidyFloor e).toNat) :
    reward blockReward halvingInterval subsidyFloor (eraStart halvingInterval e + i + 1) =
      (eraReward blockReward subsidyFloor e).toNat := by
  obtain ⟨-, -, last, -, -⟩ := era_heights maxSupply blockReward halvingInterval subsidyFloor bounds e few
  have late : e.toNat * halvingInterval.toNat ≤ eraStart halvingInterval e + i + 1 := by
    unfold eraStart
    omega
  rw [last] at inside
  by_cases floor : floorEra blockReward subsidyFloor e = true
  · refine reward_floor blockReward halvingInterval subsidyFloor e few bounds.interval.1 ?_ _ late
    unfold floorEra at floor
    rw [Bool.and_eq_true, decide_eq_true_eq, decide_eq_true_eq] at floor
    have below := UInt64.le_iff_toNat_le.mp floor.2
    rwa [UInt64.toNat_shiftRight, Nat.mod_eq_of_lt few, Nat.shiftRight_eq_div_pow] at below
  · rw [if_neg floor] at inside
    exact reward_era blockReward halvingInterval subsidyFloor e few _ ⟨late, by omega⟩

/-- What the schedule comes to: the cap, and the height that reaches it, or all that is ever paid. -/
def Scheduled (result : UInt64 × UInt64) : Prop :=
  (result.1 = maxSupply ∧
    maxSupply.toNat ≤ paid (reward blockReward halvingInterval subsidyFloor) result.2.toNat ∧
    ∀ height, height < result.2.toNat →
      paid (reward blockReward halvingInterval subsidyFloor) height < maxSupply.toNat) ∨
  (result.1 < maxSupply ∧ ∃ start, start < 2 ^ 63 ∧ ∀ more,
    paid (reward blockReward halvingInterval subsidyFloor) (start + more) = result.1.toNat)

theorem eraReward_le (e : UInt64) (few : e.toNat < 64) :
    (eraReward blockReward subsidyFloor e).toNat ≤ blockReward.toNat := by
  rw [eraReward_toNat blockReward subsidyFloor e few, toNat_min]
  have halved := Nat.div_le_self blockReward.toNat (2 ^ e.toNat)
  omega

/-- An era without a reward: nothing more is ever paid. -/
theorem era_stopped (bounds : ScheduleBounds maxSupply blockReward halvingInterval) (e : UInt64)
    (few : e.toNat < 64) (nothing : eraReward blockReward subsidyFloor e = 0) (total : Nat)
    (sum : total = paid (reward blockReward halvingInterval subsidyFloor) (eraStart halvingInterval e))
    (within : e ≠ 0 → total < maxSupply.toNat) :
    Scheduled maxSupply blockReward halvingInterval subsidyFloor (.ofNat total, 0) := by
  obtain ⟨narrow, -⟩ := bounds.narrow
  obtain ⟨-, early, -⟩ := era_heights maxSupply blockReward halvingInterval subsidyFloor bounds e few
  have value := eraReward_toNat blockReward subsidyFloor e few
  rw [nothing] at value
  change 0 = _ at value
  have later : e ≠ 0 := by
    rintro rfl
    have given := bounds.some
    rw [UInt64.toNat_zero, Nat.pow_zero, Nat.div_one] at value
    omega
  have below := within later
  have isTotal : (UInt64.ofNat total).toNat = total :=
    UInt64.toNat_ofNat_of_lt' (show total < 2 ^ 64 by omega)
  refine .inr ⟨by rw [UInt64.lt_iff_toNat_lt, isTotal]; exact below, eraStart halvingInterval e,
    by omega, fun more => ?_⟩
  have constant : ∀ i, i < more → reward blockReward halvingInterval subsidyFloor
      (eraStart halvingInterval e + i + 1) = 0 := by
    intro i _
    rw [reward_floor blockReward halvingInterval subsidyFloor e few bounds.interval.1 (by omega) _
      (by unfold eraStart; omega), nothing]
    rfl
  rw [paid_run _ _ more 0 constant, Nat.mul_zero, Nat.add_zero, ← sum]
  exact isTotal.symm

/-- An era that reaches the cap: the height is the first one with the cap. -/
theorem era_capped (bounds : ScheduleBounds maxSupply blockReward halvingInterval) (e : UInt64)
    (few : e.toNat < 64) (some : 0 < (eraReward blockReward subsidyFloor e).toNat) (total : Nat)
    (sum : total = paid (reward blockReward halvingInterval subsidyFloor) (eraStart halvingInterval e))
    (before : ∀ height, height < eraStart halvingInterval e →
      paid (reward blockReward halvingInterval subsidyFloor) height < maxSupply.toNat)
    (most : total ≤ maxSupply.toNat)
    (enough : maxSupply.toNat ≤ total + ((eraLast blockReward halvingInterval subsidyFloor e).toNat -
      eraStart halvingInterval e) * (eraReward blockReward subsidyFloor e).toNat) :
    Scheduled maxSupply blockReward halvingInterval subsidyFloor
      (maxSupply, eraFirst halvingInterval e + (maxSupply - .ofNat total +
        eraReward blockReward subsidyFloor e - 1) / eraReward blockReward subsidyFloor e - 1) := by
  obtain ⟨narrow, narrowReward⟩ := bounds.narrow
  obtain ⟨first, early, -, -, -⟩ :=
    era_heights maxSupply blockReward halvingInterval subsidyFloor bounds e few
  have bounded := eraReward_le blockReward subsidyFloor e few
  have reached := cap_reached maxSupply.toNat _ _ _ _
    (fun i small => era_constant maxSupply blockReward halvingInterval subsidyFloor bounds e few i
      (by omega)) some before (sum ▸ most) (sum ▸ enough)
  rw [← sum] at reached
  obtain ⟨-, covers, least⟩ := reached
  have isTotal : (UInt64.ofNat total).toNat = total :=
    UInt64.toNat_ofNat_of_lt' (show total < 2 ^ 64 by omega)
  have need : (maxSupply - .ofNat total).toNat = maxSupply.toNat - total := by
    rw [UInt64.toNat_sub_of_le _ _ (by rwa [UInt64.le_iff_toNat_le, isTotal]), isTotal]
  generalize eraReward blockReward subsidyFloor e = r at *
  have dividend : (maxSupply - .ofNat total + r - 1).toNat = maxSupply.toNat - total + r.toNat - 1 := by
    rw [UInt64.toNat_sub, UInt64.toNat_add, need]
    change (2 ^ 64 - 1 + _) % 2 ^ 64 = _
    omega
  have quotient := Nat.div_le_self (maxSupply.toNat - total + r.toNat - 1) r.toNat
  have isCap : (eraFirst halvingInterval e + (maxSupply - .ofNat total + r - 1) / r - 1).toNat =
      eraStart halvingInterval e + (maxSupply.toNat - total + r.toNat - 1) / r.toNat := by
    rw [UInt64.toNat_sub, UInt64.toNat_add, UInt64.toNat_div, dividend, first]
    change (2 ^ 64 - 1 + _) % 2 ^ 64 = _
    generalize (maxSupply.toNat - total + r.toNat - 1) / r.toNat = q at quotient ⊢
    omega
  refine .inl ⟨rfl, ?_, ?_⟩
  · rw [isCap]
    exact covers
  · rw [isCap]
    exact least

/-- The era of the floor is long enough for any supply. -/
theorem floorEra_enough (bounds : ScheduleBounds maxSupply blockReward halvingInterval) (e : UInt64)
    (few : e.toNat < 64) (some : 0 < (eraReward blockReward subsidyFloor e).toNat)
    (floor : floorEra blockReward subsidyFloor e = true) (total : Nat) :
    maxSupply.toNat ≤ total + ((eraLast blockReward halvingInterval subsidyFloor e).toNat -
      eraStart halvingInterval e) * (eraReward blockReward subsidyFloor e).toNat := by
  obtain ⟨narrow, -⟩ := bounds.narrow
  obtain ⟨-, early, last, -, -⟩ :=
    era_heights maxSupply blockReward halvingInterval subsidyFloor bounds e few
  rw [last, if_pos floor]
  have least := Nat.mul_le_mul_left (2 ^ 63 - 1 - eraStart halvingInterval e) some
  omega

/-- The last of the eras is never passed: there the halved reward is nothing. -/
theorem last_era (bounds : ScheduleBounds maxSupply blockReward halvingInterval) (e : UInt64)
    (last : e.toNat = 63) (some : 0 < (eraReward blockReward subsidyFloor e).toNat) :
    floorEra blockReward subsidyFloor e = true := by
  obtain ⟨-, narrow⟩ := bounds.narrow
  have gone : blockReward.toNat / 2 ^ 63 = 0 := Nat.div_eq_of_lt (by omega)
  rw [eraReward_toNat blockReward subsidyFloor e (by omega), last, gone] at some
  have shifted : (blockReward >>> e).toNat = 0 := by
    rw [UInt64.toNat_shiftRight, last, Nat.shiftRight_eq_div_pow]
    exact gone
  unfold floorEra
  rw [Bool.and_eq_true, decide_eq_true_eq, decide_eq_true_eq]
  refine ⟨UInt64.lt_iff_toNat_lt.mpr ?_, ?_⟩
  · change 0 < _
    omega
  · rw [UInt64.le_iff_toNat_le, shifted]
    exact Nat.zero_le _

/-- Induction on the eras that are left. -/
theorem emissionEras_scheduled (bounds : ScheduleBounds maxSupply blockReward halvingInterval)
    (left : Nat) (e : UInt64) (total : Nat) (counted : e.toNat + left = 64) (someLeft : 0 < left)
    (sum : total = paid (reward blockReward halvingInterval subsidyFloor) (eraStart halvingInterval e))
    (before : ∀ height, height < eraStart halvingInterval e →
      paid (reward blockReward halvingInterval subsidyFloor) height < maxSupply.toNat)
    (within : e ≠ 0 → total < maxSupply.toNat) :
    Scheduled maxSupply blockReward halvingInterval subsidyFloor
      (emissionEras maxSupply blockReward halvingInterval subsidyFloor left e total) := by
  induction left generalizing e total with
  | zero => exact absurd someLeft (by decide)
  | succ left ih =>
    have few : e.toNat < 64 := by omega
    obtain ⟨narrow, narrowReward⟩ := bounds.narrow
    obtain ⟨first, early, last, count, ordered⟩ :=
      era_heights maxSupply blockReward halvingInterval subsidyFloor bounds e few
    rw [emissionEras_succ]
    by_cases nothing : eraReward blockReward subsidyFloor e = 0
    · rw [if_pos nothing]
      exact era_stopped maxSupply blockReward halvingInterval subsidyFloor bounds e few nothing total sum
        within
    have positive := positive_of_ne_zero nothing
    have bounded := eraReward_le blockReward subsidyFloor e few
    have most : total ≤ maxSupply.toNat := by
      by_cases zero : e = 0
      · have none : total = 0 := by
          rw [sum, zero]
          simp [eraStart, paid]
        omega
      · exact Nat.le_of_lt (within zero)
    have whole := (eraLast blockReward halvingInterval subsidyFloor e).toNat_lt
    rw [if_neg nothing]
    generalize isLength : (eraLast blockReward halvingInterval subsidyFloor e).toNat -
      eraStart halvingInterval e = length at count
    have product : length * (eraReward blockReward subsidyFloor e).toNat ≤ 2 ^ 64 * 2 ^ 62 :=
      Nat.mul_le_mul (by omega) (by omega)
    have exact : eraTotal blockReward halvingInterval subsidyFloor e total =
        total + length * (eraReward blockReward subsidyFloor e).toNat := by
      unfold eraTotal wrap128
      rw [count, Nat.mul_comm]
      omega
    rw [exact]
    split
    · rename_i enough
      exact era_capped maxSupply blockReward halvingInterval subsidyFloor bounds e few positive total sum
        before most (isLength ▸ enough)
    · rename_i short
      have onward : ¬ floorEra blockReward subsidyFloor e = true := fun floor =>
        short (isLength ▸ floorEra_enough maxSupply blockReward halvingInterval subsidyFloor bounds e few
          positive floor total)
      have notLast : e.toNat ≠ 63 := fun isLast =>
        onward (last_era maxSupply blockReward halvingInterval subsidyFloor bounds e isLast positive)
      have next : (e + 1).toNat = e.toNat + 1 := by
        rw [UInt64.toNat_add]
        exact Nat.mod_eq_of_lt (by change e.toNat + 1 < _; omega)
      rw [if_neg onward] at last
      have nextStart : eraStart halvingInterval (e + 1) = eraStart halvingInterval e + length := by
        rw [eraStart, next, ← isLength, ← last]
        omega
      have nextSum : total + length * (eraReward blockReward subsidyFloor e).toNat =
          paid (reward blockReward halvingInterval subsidyFloor) (eraStart halvingInterval (e + 1)) := by
        rw [nextStart, sum]
        refine (paid_run _ _ length _ (fun i small => ?_)).symm
        exact era_constant maxSupply blockReward halvingInterval subsidyFloor bounds e few i (by omega)
      refine ih (e + 1) _ (by omega) (by omega) nextSum (fun height early => ?_)
        (fun _ => by omega)
      have most := paid_mono (reward blockReward halvingInterval subsidyFloor) (Nat.le_of_lt early)
      omega

end Schedule

/-- The schedule is what the chain mints: its total is the most that any height has, every height
keeps to the cap, and when the cap is reached the reported height is the first one that has it. -/
theorem schedule_exact (maxSupply blockReward halvingInterval subsidyFloor : UInt64)
    (bounds : ScheduleBounds maxSupply blockReward halvingInterval) :
    IsGreatest (Set.image (emission maxSupply blockReward halvingInterval subsidyFloor)
        {height | height < 2 ^ 64})
      (scheduledTotalEmission maxSupply blockReward halvingInterval subsidyFloor).1.toNat ∧
    (∃ height < 2 ^ 64, ∀ later < 2 ^ 64, height ≤ later →
      emission maxSupply blockReward halvingInterval subsidyFloor later =
        (scheduledTotalEmission maxSupply blockReward halvingInterval subsidyFloor).1.toNat) ∧
    (∀ height < 2 ^ 64,
      emission maxSupply blockReward halvingInterval subsidyFloor height ≤ maxSupply.toNat) ∧
    ((scheduledTotalEmission maxSupply blockReward halvingInterval subsidyFloor).1 = maxSupply →
      IsLeast {height | height < 2 ^ 64 ∧
          emission maxSupply blockReward halvingInterval subsidyFloor height = maxSupply.toNat}
        (scheduledTotalEmission maxSupply blockReward halvingInterval subsidyFloor).2.toNat) := by
  have some : halvingInterval ≠ 0 := ne_zero_of_positive bounds.interval.1
  have value := fun height small => (emission_capped maxSupply blockReward halvingInterval subsidyFloor some
    height small).trans (capped_eq _ _ height)
  have scheduled := emissionEras_scheduled maxSupply blockReward halvingInterval subsidyFloor bounds 64 0 0
    (by rfl) (by decide) (by simp [eraStart, paid]) (by simp [eraStart]) (fun different => absurd rfl different)
  unfold scheduledTotalEmission
  rw [if_neg some]
  generalize emissionEras maxSupply blockReward halvingInterval subsidyFloor 64 0 0 = result at *
  obtain ⟨total, cap⟩ := result
  have small := cap.toNat_lt
  obtain ⟨isTotal, covers, least⟩ | ⟨below, start, early, constant⟩ := scheduled
  · dsimp only at isTotal covers least ⊢
    subst isTotal
    have capped : ∀ height < 2 ^ 64, cap.toNat ≤ height →
        emission total blockReward halvingInterval subsidyFloor height = total.toNat := by
      intro height fits late
      have more := paid_mono (reward blockReward halvingInterval subsidyFloor) late
      rw [value height fits]
      omega
    refine ⟨⟨⟨cap.toNat, small, capped _ small (Nat.le_refl _)⟩, ?_⟩, ⟨cap.toNat, small, capped⟩, ?_,
      fun _ => ⟨⟨small, capped _ small (Nat.le_refl _)⟩, ?_⟩⟩
    · rintro _ ⟨height, fits, rfl⟩
      rw [value height fits]
      exact Nat.min_le_left ..
    · intro height fits
      rw [value height fits]
      exact Nat.min_le_left ..
    · rintro height ⟨fits, full⟩
      by_contra early
      have less := least height (by omega)
      rw [value height fits] at full
      omega
  · dsimp only at below constant ⊢
    have less := UInt64.lt_iff_toNat_lt.mp below
    have paidAt : ∀ height, paid (reward blockReward halvingInterval subsidyFloor) height ≤ total.toNat ∧
        (start ≤ height → paid (reward blockReward halvingInterval subsidyFloor) height = total.toNat) := by
      intro height
      refine ⟨?_, fun late => ?_⟩
      · rw [← constant height]
        exact paid_mono _ (Nat.le_add_left ..)
      · rw [← constant (height - start), Nat.add_sub_cancel' late]
    have capped : ∀ height < 2 ^ 64, start ≤ height →
        emission maxSupply blockReward halvingInterval subsidyFloor height = total.toNat := by
      intro height fits late
      rw [value height fits, (paidAt height).2 late]
      omega
    refine ⟨⟨⟨start, by change start < 2 ^ 64; omega, capped start (by omega) (Nat.le_refl _)⟩, ?_⟩,
      ⟨start, by omega, capped⟩, ?_, fun isCap => absurd isCap (UInt64.ne_of_lt below)⟩
    · rintro _ ⟨height, fits, rfl⟩
      have most := (paidAt height).1
      rw [value height fits]
      omega
    · intro height fits
      rw [value height fits]
      exact Nat.min_le_left ..

/-- The rule at a schedule with a short interval. -/
theorem short_schedule_least :
    IsLeast {height | height < 2 ^ 64 ∧ emission 100 50 2 1 height = (100 : UInt64).toNat} 3 := by
  have least := (schedule_exact 100 50 2 1 ⟨by decide, by decide, by decide⟩).2.2.2
  have capped : scheduledTotalEmission 100 50 2 1 = (100, 3) := by decide +kernel
  rw [capped] at least
  exact least rfl

end Addition
