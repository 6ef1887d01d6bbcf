import Addition.Config
import Mathlib.Algebra.Order.BigOperators.Group.List
import Mathlib.Data.List.Forall2
import Mathlib.Tactic.LinearCombination
import Mathlib.Tactic.Ring

/-!
# The retarget

On windows of at most a thousand blocks and block times of at most 32 bits the 128-bit words of
the retarget never wrap, so that it is a quotient over the natural numbers between its clamps.
The quotient grows with every solvetime, and a steady window keeps its target.
-/

namespace Addition

open Checked

/-! ### Over the natural numbers -/

/-- A solvetime, from nothing up to six block times. -/
def solvetime (T : UInt64) (pair : (UInt64 × UInt64) × UInt64) : Nat :=
  min (pair.1.2.toNat - pair.1.1.toNat) (T.toNat * kLwmaMaxSolvetimeMultiple)

/-- What the loop of the retarget runs over: two timestamps and a target for each solvetime. -/
def lwmaPairs (timestamps targets : List UInt64) : List ((UInt64 × UInt64) × UInt64) :=
  let count := min timestamps.length targets.length
  let times := timestamps.drop (timestamps.length - count)
  let goals := targets.drop (targets.length - count)
  (times.zip times.tail).zip goals.tail

/-- The solve times of a window. -/
def solvetimes (T : UInt64) (timestamps targets : List UInt64) : List Nat :=
  (lwmaPairs timestamps targets).map (solvetime T)

/-- The targets of the window. -/
def goals (timestamps targets : List UInt64) : List Nat :=
  (lwmaPairs timestamps targets).map (fun pair => pair.2.toNat)

/-- The sum of the solvetimes, each with its position as the weight. -/
def weighted : Nat → List Nat → Nat
  | _, [] => 0
  | j, time :: rest => time * j + weighted (j + 1) rest

/-- The sum of the weights. -/
def weights (n : Nat) : Nat := n * (n + 1) / 2

/-- A value between two bounds. -/
def clamp (value low high : Nat) : Nat := min (max value low) high

/-- The retarget over the natural numbers. -/
def retarget (times : List Nat) (average previous T low high : Nat) : Nat :=
  let k := weights times.length
  let W := max (weighted 1 times) (k * T / 10)
  clamp (max 1 (clamp (average * W / (k * T)) (previous / 2) (2 * previous))) low high

/-! ### Weighted sums -/

variable {later times : List Nat}

theorem weighted_mono (atMost : List.Forall₂ (· ≤ ·) times later) (j : Nat) :
    weighted j times ≤ weighted j later := by
  induction atMost generalizing j with
  | nil => exact Nat.le_refl _
  | cons less _ ih =>
    exact Nat.add_le_add (Nat.mul_le_mul_right j less) (ih (j + 1))

/-- With equal solvetimes the weights are summed up. -/
theorem weighted_constant (amount : Nat) (times : List Nat) (same : ∀ time ∈ times, time = amount)
    (j : Nat) : 2 * weighted j times + amount * times.length =
      amount * (times.length * (times.length + 2 * j)) := by
  induction times generalizing j with
  | nil => simp [weighted]
  | cons time rest ih =>
    have later := ih (fun other member => same other (List.mem_cons_of_mem _ member)) (j + 1)
    rw [weighted, List.length_cons, same time (List.mem_cons_self ..)]
    linear_combination later

theorem two_mul_weights (n : Nat) : 2 * weights n = n * (n + 1) :=
  Nat.mul_div_cancel' (Nat.even_mul_succ_self n).two_dvd

theorem weighted_steady (amount : Nat) (times : List Nat) (same : ∀ time ∈ times, time = amount) :
    weighted 1 times = amount * weights times.length := by
  have twice := weighted_constant amount times same 1
  have even := two_mul_weights times.length
  have split : amount * (times.length * (times.length + 2 * 1)) =
      amount * (2 * weights times.length) + amount * times.length := by
    rw [even]
    ring
  have both : amount * (2 * weights times.length) = 2 * (amount * weights times.length) := by ring
  omega

/-- Solvetimes with a bound have at most its multiple of the weights. -/
theorem weighted_le (amount : Nat) (times : List Nat) (most : ∀ time ∈ times, time ≤ amount) :
    weighted 1 times ≤ amount * weights times.length := by
  have below : List.Forall₂ (· ≤ ·) times (List.replicate times.length amount) := by
    rw [List.forall₂_iff_get]
    refine ⟨List.length_replicate.symm, fun i first second => ?_⟩
    simpa using most _ (List.get_mem times ⟨i, first⟩)
  refine (weighted_mono below 1).trans (Nat.le_of_eq ?_)
  rw [weighted_steady amount _ (fun time member => List.eq_of_mem_replicate member), List.length_replicate]

/-! ### The retarget over the natural numbers -/

theorem clamp_mono {value larger : Nat} (atMost : value ≤ larger) (low high : Nat) :
    clamp value low high ≤ clamp larger low high := by
  unfold clamp
  omega

theorem retarget_mono (atMost : List.Forall₂ (· ≤ ·) times later)
    (average previous T low high : Nat) :
    retarget times average previous T low high ≤ retarget later average previous T low high := by
  unfold retarget
  rw [atMost.length_eq]
  apply clamp_mono
  have inner : clamp (average * max (weighted 1 times) (weights later.length * T / 10) /
      (weights later.length * T)) (previous / 2) (2 * previous) ≤
      clamp (average * max (weighted 1 later) (weights later.length * T / 10) /
        (weights later.length * T)) (previous / 2) (2 * previous) := by
    apply clamp_mono
    apply Nat.div_le_div_right
    apply Nat.mul_le_mul_left
    have more := weighted_mono atMost 1
    omega
  omega

/-- A steady window keeps its target. -/
theorem retarget_steady (times : List Nat) (previous T low high : Nat) (some : times ≠ [])
    (positive : 0 < T) (steady : ∀ time ∈ times, time = T) (given : 0 < previous)
    (within : low ≤ previous ∧ previous ≤ high) :
    retarget times previous previous T low high = previous := by
  have length := List.length_pos_of_ne_nil some
  have even := two_mul_weights times.length
  have weight : 0 < weights times.length := by
    have product := Nat.mul_pos length (show 0 < times.length + 1 from Nat.succ_pos _)
    omega
  have scale := Nat.mul_pos weight positive
  unfold retarget
  dsimp only
  rw [weighted_steady T times steady, Nat.mul_comm T, max_eq_left (Nat.div_le_self _ _),
    Nat.mul_div_cancel _ scale]
  unfold clamp
  omega

/-! ### The loop -/

/-- One turn of the loop that does not wrap. -/
theorem lwmaStep_exact (T : UInt64) (pair : (UInt64 × UInt64) × UInt64) (j weighted sumTarget : Nat)
    (fits : weighted + solvetime T pair * j < 2 ^ 128) (fitsTarget : sumTarget + pair.2.toNat < 2 ^ 128) :
    lwmaStep (T.toNat * kLwmaMaxSolvetimeMultiple) (j, weighted, sumTarget) pair =
      (j + 1, weighted + solvetime T pair * j, sumTarget + pair.2.toNat) := by
  obtain ⟨⟨previous, current⟩, target⟩ := pair
  have passed : (if current > previous then (current - previous).toNat else 0) =
      current.toNat - previous.toNat := by
    split
    · rename_i later
      exact UInt64.toNat_sub_of_le _ _ (UInt64.le_of_lt later)
    · rename_i earlier
      have atMost := UInt64.le_iff_toNat_le.mp (UInt64.not_lt.mp earlier)
      omega
  have isTime : (if current.toNat - previous.toNat > T.toNat * kLwmaMaxSolvetimeMultiple then
      T.toNat * kLwmaMaxSolvetimeMultiple else current.toNat - previous.toNat) =
        solvetime T ((previous, current), target) := by
    unfold solvetime
    dsimp only
    split <;> omega
  unfold lwmaStep
  dsimp only at fits fitsTarget ⊢
  rw [passed, isTime]
  unfold wrap128
  rw [Nat.mod_eq_of_lt (show solvetime T ((previous, current), target) * j < 2 ^ 128 by omega),
    Nat.mod_eq_of_lt fits, Nat.mod_eq_of_lt fitsTarget]

/-- Induction on the window: the loop computes the weighted sum and the sum of the targets. -/
theorem lwma_loop (T : UInt64) (pairs : List ((UInt64 × UInt64) × UInt64)) (j start sum : Nat)
    (fits : start + weighted j (pairs.map (solvetime T)) < 2 ^ 128)
    (fitsTarget : sum + (pairs.map (fun pair => pair.2.toNat)).sum < 2 ^ 128) :
    pairs.foldl (lwmaStep (T.toNat * kLwmaMaxSolvetimeMultiple)) (j, start, sum) =
      (j + pairs.length, start + weighted j (pairs.map (solvetime T)),
        sum + (pairs.map (fun pair => pair.2.toNat)).sum) := by
  induction pairs generalizing j start sum with
  | nil => rfl
  | cons pair rest ih =>
    rw [List.map_cons, weighted] at fits
    rw [List.map_cons, List.sum_cons] at fitsTarget
    rw [List.foldl_cons, lwmaStep_exact T pair j start sum (by omega) (by omega),
      ih (j + 1) _ _ (by omega) (by omega), List.map_cons, List.map_cons, weighted,
      List.sum_cons, List.length_cons, Nat.add_assoc start, Nat.add_assoc sum, Nat.add_assoc j,
      Nat.add_comm 1]

/-! ### The call -/

/-- The windows that a chain passes on. -/
structure Window (timestamps targets : List UInt64) : Prop where
  timesLength : 2 ≤ timestamps.length ∧ timestamps.length ≤ 1001
  targetsLength : 2 ≤ targets.length ∧ targets.length ≤ 1001
  positive : ∀ target ∈ targets, 0 < target

/-- The average of the targets of a window, rounded down. -/
def average (timestamps targets : List UInt64) : Nat :=
  (goals timestamps targets).sum / (lwmaPairs timestamps targets).length

/-- No 128-bit intermediate of the retarget wraps: the limit of a solvetime, the sums of the loop
after every turn, the weights, their multiple of the block time, and the product. -/
structure Unwrapped (T : UInt64) (timestamps targets : List UInt64) : Prop where
  limit : T.toNat * kLwmaMaxSolvetimeMultiple < 2 ^ 128
  turns : ∀ turns, ((lwmaPairs timestamps targets).take turns).foldl
      (lwmaStep (T.toNat * kLwmaMaxSolvetimeMultiple)) (1, 0, 0) =
        (1 + ((lwmaPairs timestamps targets).take turns).length,
          weighted 1 ((solvetimes T timestamps targets).take turns),
          ((goals timestamps targets).take turns).sum) ∧
    weighted 1 ((solvetimes T timestamps targets).take turns) < 2 ^ 128 ∧
    ((goals timestamps targets).take turns).sum < 2 ^ 128
  count : (solvetimes T timestamps targets).length *
    ((solvetimes T timestamps targets).length + 1) < 2 ^ 128
  scale : weights (solvetimes T timestamps targets).length * T.toNat < 2 ^ 128
  product : average timestamps targets * max (weighted 1 (solvetimes T timestamps targets))
    (weights (solvetimes T timestamps targets).length * T.toNat / 10) < 2 ^ 128

theorem lwmaPairs_length (timestamps targets : List UInt64) :
    (lwmaPairs timestamps targets).length = min timestamps.length targets.length - 1 := by
  unfold lwmaPairs
  simp only [List.length_zip, List.length_tail, List.length_drop]
  omega

section Call

variable (T : UInt64) (timestamps targets : List UInt64)

theorem solvetime_le (time : Nat) (member : time ∈ solvetimes T timestamps targets) :
    time ≤ T.toNat * kLwmaMaxSolvetimeMultiple := by
  obtain ⟨pair, -, rfl⟩ := List.mem_map.mp member
  exact Nat.min_le_right ..

theorem goal_lt (goal : Nat) (member : goal ∈ goals timestamps targets) : goal < 2 ^ 64 := by
  obtain ⟨pair, -, rfl⟩ := List.mem_map.mp member
  exact pair.2.toNat_lt

/-- The sums of a part of a window are small. -/
theorem sums_small (times targetsOf : List Nat) (short : times.length ≤ 1000)
    (narrow : T.toNat < 2 ^ 32)
    (most : ∀ time ∈ times, time ≤ T.toNat * kLwmaMaxSolvetimeMultiple)
    (mostTargets : ∀ goal ∈ targetsOf, goal ≤ 2 ^ 64) :
    weights times.length ≤ 500500 ∧ weighted 1 times ≤ 2 ^ 35 * 500500 ∧
      targetsOf.sum ≤ targetsOf.length * 2 ^ 64 := by
  have twice := two_mul_weights times.length
  have square : times.length * (times.length + 1) ≤ 1000 * 1001 := Nat.mul_le_mul short (by omega)
  have weight : weights times.length ≤ 500500 := by omega
  refine ⟨weight, (weighted_le _ times most).trans (Nat.mul_le_mul ?_ weight), ?_⟩
  · change T.toNat * 6 ≤ _
    omega
  · exact (List.sum_le_card_nsmul targetsOf (2 ^ 64) mostTargets).trans (Nat.le_of_eq (smul_eq_mul ..))

variable (short : (lwmaPairs timestamps targets).length ≤ 1000) (narrow : T.toNat < 2 ^ 32)
include short narrow

theorem window_unwrapped : Unwrapped T timestamps targets := by
  have lengthTimes : (solvetimes T timestamps targets).length = (lwmaPairs timestamps targets).length :=
    List.length_map ..
  have lengthGoals : (goals timestamps targets).length = (lwmaPairs timestamps targets).length :=
    List.length_map ..
  obtain ⟨weight, sumTimes, sumGoals⟩ := sums_small T (solvetimes T timestamps targets)
    (goals timestamps targets) (by omega) narrow (solvetime_le T timestamps targets)
    (fun goal member => Nat.le_of_lt (goal_lt timestamps targets goal member))
  have mean : average timestamps targets ≤ 2 ^ 64 := by
    unfold average
    rw [← lengthGoals]
    exact Nat.div_le_of_le_mul sumGoals
  have scale : weights (solvetimes T timestamps targets).length * T.toNat ≤ 500500 * 2 ^ 32 :=
    Nat.mul_le_mul weight (Nat.le_of_lt narrow)
  refine ⟨?_, fun turns => ?_, ?_, by omega, ?_⟩
  · change T.toNat * 6 < _
    omega
  · obtain ⟨-, partTimes, partGoals⟩ := sums_small T ((solvetimes T timestamps targets).take turns)
      ((goals timestamps targets).take turns) (by rw [List.length_take]; omega) narrow
      (fun time member => solvetime_le T timestamps targets time (List.mem_of_mem_take member))
      (fun goal member => Nat.le_of_lt (goal_lt timestamps targets goal (List.mem_of_mem_take member)))
    have partLength : ((goals timestamps targets).take turns).length ≤ 1000 := by
      rw [List.length_take]
      omega
    have fits : ((goals timestamps targets).take turns).sum < 2 ^ 128 := by omega
    refine ⟨?_, by omega, fits⟩
    have loop := lwma_loop T ((lwmaPairs timestamps targets).take turns) 1 0 0
      (by rw [List.map_take]; change 0 + weighted 1 ((solvetimes T timestamps targets).take turns) < _; omega)
      (by rw [List.map_take]; change 0 + ((goals timestamps targets).take turns).sum < _; omega)
    rw [loop, List.map_take, List.map_take, Nat.zero_add, Nat.zero_add]
    rfl
  · have twice := two_mul_weights (solvetimes T timestamps targets).length
    omega
  · have product : average timestamps targets * max (weighted 1 (solvetimes T timestamps targets))
        (weights (solvetimes T timestamps targets).length * T.toNat / 10) ≤ 2 ^ 64 * 2 ^ 60 :=
      Nat.mul_le_mul mean (by omega)
    omega

omit short narrow in
theorem clampU64_toNat (value : Nat) (low high : UInt64) (ordered : low ≤ high) :
    (clampU64 value low high).toNat = clamp value low.toNat high.toNat := by
  have least := UInt64.le_iff_toNat_le.mp ordered
  have word := high.toNat_lt
  unfold clampU64 clamp
  rw [if_neg (UInt64.not_lt.mpr ordered)]
  dsimp only
  split
  · omega
  · split
    · omega
    · rw [UInt64.toNat_ofNat_of_lt' (show value < 2 ^ 64 by omega)]
      omega

omit short narrow in
/-- The retarget by what its loop computes. -/
theorem lwmaNextTarget_eq (long : 2 ≤ min timestamps.length targets.length) (some : T ≠ 0)
    (minTarget maxTarget fallback : UInt64) (turns weightedSum sumTarget : Nat)
    (loop : (lwmaPairs timestamps targets).foldl
      (lwmaStep (wrap128 (T.toNat * kLwmaMaxSolvetimeMultiple))) (1, 0, 0) =
        (turns, weightedSum, sumTarget)) :
    lwmaNextTarget timestamps targets T minTarget maxTarget fallback =
      let n := min timestamps.length targets.length - 1
      let k := wrap128 (n * (n + 1)) / 2
      let next := wrap128 (sumTarget / n * max weightedSum (wrap128 (k * T.toNat) / 10)) /
        wrap128 (k * T.toNat)
      let previous := targets.getLastD 0
      let next := min (max next (previous.toNat / 2)) (previous.toNat * 2)
      clampU64 (if next = 0 then 1 else next) minTarget maxTarget := by
  unfold lwmaPairs at loop
  dsimp only at loop
  unfold lwmaNextTarget
  rw [if_neg (not_or.mpr ⟨by omega, some⟩)]
  dsimp only
  rw [loop]

/-- The retarget of the source is the one over the natural numbers. -/
theorem lwmaNextTarget_value (long : 2 ≤ min timestamps.length targets.length) (some : 0 < T.toNat)
    (minTarget maxTarget fallback : UInt64) (ordered : minTarget ≤ maxTarget) :
    (lwmaNextTarget timestamps targets T minTarget maxTarget fallback).toNat =
      retarget (solvetimes T timestamps targets) (average timestamps targets)
        (targets.getLastD 0).toNat T.toNat minTarget.toNat maxTarget.toNat := by
  have unwrapped := window_unwrapped T timestamps targets short narrow
  have length := lwmaPairs_length timestamps targets
  have lengthTimes : (solvetimes T timestamps targets).length =
      min timestamps.length targets.length - 1 := (List.length_map ..).trans length
  have lengthGoals : (goals timestamps targets).length =
      min timestamps.length targets.length - 1 := (List.length_map ..).trans length
  have all := (unwrapped.turns (lwmaPairs timestamps targets).length).1
  rw [List.take_of_length_le (Nat.le_refl _), List.take_of_length_le (by rw [lengthTimes, length]),
    List.take_of_length_le (by rw [lengthGoals, length])] at all
  have limit : wrap128 (T.toNat * kLwmaMaxSolvetimeMultiple) = T.toNat * kLwmaMaxSolvetimeMultiple :=
    Nat.mod_eq_of_lt unwrapped.limit
  rw [lwmaNextTarget_eq T timestamps targets long (ne_zero_of_positive some) minTarget maxTarget fallback
    _ _ _ (limit ▸ all), clampU64_toNat _ _ _ ordered]
  have isCount : wrap128 ((min timestamps.length targets.length - 1) *
      (min timestamps.length targets.length - 1 + 1)) / 2 =
        weights (solvetimes T timestamps targets).length := by
    rw [← lengthTimes]
    exact congrArg (· / 2) (Nat.mod_eq_of_lt unwrapped.count)
  have isMean : (goals timestamps targets).sum / (min timestamps.length targets.length - 1) =
      average timestamps targets := by
    rw [← length]
    rfl
  have isScale : wrap128 (weights (solvetimes T timestamps targets).length * T.toNat) =
      weights (solvetimes T timestamps targets).length * T.toNat := Nat.mod_eq_of_lt unwrapped.scale
  have isProduct := Nat.mod_eq_of_lt unwrapped.product
  rw [isCount, isMean, isScale]
  unfold wrap128 retarget
  dsimp only
  rw [isProduct]
  unfold clamp
  split <;> omega

end Call

/-- The targets of a window are the last ones. -/
theorem goals_eq (timestamps targets : List UInt64) :
    goals timestamps targets =
      (targets.drop (targets.length - min timestamps.length targets.length)).tail.map UInt64.toNat := by
  have whole : ((lwmaPairs timestamps targets).map Prod.snd) =
      (targets.drop (targets.length - min timestamps.length targets.length)).tail := by
    apply List.map_snd_zip
    simp only [List.length_zip, List.length_tail, List.length_drop]
    omega
  rw [← whole, List.map_map]
  rfl

/-- The average of equal targets is the target. -/
theorem average_steady (timestamps targets : List UInt64) (long : 2 ≤ min timestamps.length targets.length)
    (previous : UInt64) (same : ∀ target ∈ targets, target = previous) :
    average timestamps targets = previous.toNat := by
  have length := lwmaPairs_length timestamps targets
  have lengthGoals : (goals timestamps targets).length = (lwmaPairs timestamps targets).length :=
    List.length_map ..
  have equal : ∀ goal ∈ goals timestamps targets, goal = previous.toNat := by
    intro goal member
    rw [goals_eq] at member
    obtain ⟨target, listed, rfl⟩ := List.mem_map.mp member
    exact congrArg UInt64.toNat (same target (List.mem_of_mem_drop (List.mem_of_mem_tail listed)))
  unfold average
  rw [List.sum_eq_card_nsmul _ _ equal, lengthGoals, smul_eq_mul]
  exact Nat.mul_div_cancel_left _ (by omega)

/-- The retarget on every window: nothing wraps, the result is the clamped quotient over the
natural numbers, it grows with every solvetime, and a steady window keeps its target. -/
theorem lwma_exact (timestamps targets : List UInt64) (window : Window timestamps targets) (T : UInt64)
    (some : 0 < T.toNat ∧ T.toNat < 2 ^ 32) (minTarget maxTarget fallback : UInt64)
    (bounds : 1 ≤ minTarget ∧ minTarget ≤ maxTarget) :
    Unwrapped T timestamps targets ∧
    (lwmaNextTarget timestamps targets T minTarget maxTarget fallback).toNat =
      retarget (solvetimes T timestamps targets) (average timestamps targets)
        (targets.getLastD 0).toNat T.toNat minTarget.toNat maxTarget.toNat ∧
    (∀ later, Window later targets →
      List.Forall₂ (· ≤ ·) (solvetimes T timestamps targets) (solvetimes T later targets) →
      lwmaNextTarget timestamps targets T minTarget maxTarget fallback ≤
        lwmaNextTarget later targets T minTarget maxTarget fallback) ∧
    ((∀ time ∈ solvetimes T timestamps targets, time = T.toNat) →
      (∀ target ∈ targets, target = targets.getLastD 0) →
      minTarget ≤ targets.getLastD 0 ∧ targets.getLastD 0 ≤ maxTarget →
      lwmaNextTarget timestamps targets T minTarget maxTarget fallback = targets.getLastD 0) := by
  have wide : ∀ times, Window times targets → 2 ≤ min times.length targets.length ∧
      (lwmaPairs times targets).length ≤ 1000 := by
    intro times window
    obtain ⟨⟨longTimes, shortTimes⟩, ⟨longTargets, -⟩, -⟩ := window
    have length := lwmaPairs_length times targets
    omega
  obtain ⟨long, short⟩ := wide timestamps window
  have value := lwmaNextTarget_value T timestamps targets short some.2 long some.1 minTarget maxTarget fallback
    bounds.2
  refine ⟨window_unwrapped T timestamps targets short some.2, value, fun later window' atMost => ?_,
    fun steady same within => ?_⟩
  · obtain ⟨long', short'⟩ := wide later window'
    have sameLength := atMost.length_eq
    unfold solvetimes at sameLength
    rw [List.length_map, List.length_map, lwmaPairs_length, lwmaPairs_length] at sameLength
    have sameMean : average later targets = average timestamps targets := by
      unfold average
      rw [goals_eq, goals_eq, lwmaPairs_length, lwmaPairs_length, sameLength,
        show min later.length targets.length = min timestamps.length targets.length by omega]
    rw [UInt64.le_iff_toNat_le, value, lwmaNextTarget_value T later targets short' some.2 long' some.1 minTarget
      maxTarget fallback bounds.2, sameMean]
    exact retarget_mono atMost ..
  · have someTimes : solvetimes T timestamps targets ≠ [] := by
      refine List.ne_nil_of_length_pos ?_
      unfold solvetimes
      rw [List.length_map, lwmaPairs_length]
      omega
    have given : 0 < (targets.getLastD 0).toNat := by
      have least := UInt64.le_iff_toNat_le.mp (UInt64.le_trans bounds.1 within.1)
      exact least
    rw [← UInt64.toNat_inj, value, average_steady timestamps targets long _ same]
    exact retarget_steady _ _ _ _ _ someTimes some.1 steady given
      ⟨UInt64.le_iff_toNat_le.mp within.1, UInt64.le_iff_toNat_le.mp within.2⟩

/-- Three blocks a minute apart keep their target. -/
theorem minute_blocks_keep : lwmaNextTarget [60, 120, 180] [1000, 1000, 1000] 60 1 5000 7 = 1000 := by
  have minutes : solvetimes 60 [60, 120, 180] [1000, 1000, 1000] = [60, 60] := by decide
  exact (lwma_exact [60, 120, 180] [1000, 1000, 1000] ⟨by decide, by decide, by simp⟩ 60 (by decide) 1 5000
    7 (by decide)).2.2.2 (by simp [minutes]) (by simp) (by decide)

end Addition
