import Addition.Ledger
import Addition.Sequential

/-!
# Replaying a chain

A chain is what its blocks make of the constructed state. Side branches, refused
blocks and abandoned reorganizations leave no trace: feeding the blocks to a
fresh chain accepts each of them and arrives at the same state, member by member.

The clock enters one rule only, the limit on timestamps ahead of it, and a later
clock admits whatever an earlier one admitted.
-/

namespace Addition

open ByteStrings Checked

variable {P : Primitives}

/-! ### The clock -/

theorem futureTimeLimit_lt (cfg : ChainConfig) : (futureTimeLimit cfg).toNat < 2 ^ 36 := by
  have width : cfg.targetBlockTimeSec.toUInt64.toNat < 2 ^ 32 := by
    rw [UInt32.toNat_toUInt64]
    exact cfg.targetBlockTimeSec.toNat_lt
  have largest : (max 1 cfg.targetBlockTimeSec.toUInt64).toNat < 2 ^ 32 := by
    rw [show max 1 cfg.targetBlockTimeSec.toUInt64 =
      if 1 ≤ cfg.targetBlockTimeSec.toUInt64 then cfg.targetBlockTimeSec.toUInt64 else 1 from rfl]
    split
    · exact width
    · decide
  have fifteen : kFutureTimeLimitBlocks.toNat = 15 := by decide
  unfold futureTimeLimit
  rw [UInt64.toNat_mul, fifteen, Nat.mod_eq_of_lt (by omega)]
  omega

/-- The clock reading plus the limit does not wrap. -/
theorem clock_limit_toNat (now : Time) (cfg : ChainConfig) :
    (now.val + futureTimeLimit cfg).toNat = now.val.toNat + (futureTimeLimit cfg).toNat := by
  have limit := futureTimeLimit_lt cfg
  have reading := now.property
  rw [UInt64.toNat_add, Nat.mod_eq_of_lt (by omega)]

/-- A header that passed at some time passes at a later time. -/
theorem validateBlockHeader_later (now later : Time) (ordered : now.val ≤ later.val) (chain : Chain)
    (block : Block) (valid : validateBlockHeader P now chain block = .ok ()) :
    validateBlockHeader P later chain block = .ok () := by
  simp only [validateBlockHeader, bind_ok, exists_unit, ensure_ok] at valid ⊢
  obtain ⟨height, previous, root, regression, future, rest⟩ := valid
  refine ⟨height, previous, root, regression, ?_, rest⟩
  simp only [Bool.not_eq_true', Bool.and_eq_false_iff, decide_eq_false_iff_not, gt_iff_lt,
    UInt64.lt_iff_toNat_lt, clock_limit_toNat] at future ⊢
  rw [UInt64.le_iff_toNat_le] at ordered
  rcases future with early | near
  · exact .inl early
  · exact .inr (by omega)

/-- A block that was accepted at some time is accepted at a later time, with the
same result. -/
theorem addBlock_later (now later : Time) (ordered : now.val ≤ later.val) (chain reached : Chain)
    (block : Block) (accepted : addBlock P now chain block = (.ok (), reached)) :
    addBlock P later chain block = (.ok (), reached) := by
  have passed : validateBlock P now chain block = .ok () := by
    cases verdict : validateBlock P now chain block with
    | error refusal => simp [addBlock, verdict] at accepted
    | ok _ => rfl
  have passes : validateBlock P later chain block = .ok () := by
    simp only [validateBlock, bind_ok, exists_unit] at passed ⊢
    exact ⟨passed.1, validateBlockHeader_later now later ordered chain block passed.2.1, passed.2.2⟩
  unfold addBlock at accepted ⊢
  rw [passed] at accepted
  rw [passes]
  exact accepted

/-! ### Replay -/

/-- Replaying one more block. -/
theorem replay_append (clock : Nat → Time) (position : Nat) (start chain reached : Chain)
    (blocks : List Block) (block : Block)
    (before : replay P clock position start blocks = (.ok (), chain))
    (last : addBlock P (clock (position + blocks.length)) chain block = (.ok (), reached)) :
    replay P clock position start (blocks ++ [block]) = (.ok (), reached) := by
  induction blocks generalizing position start with
  | nil =>
    obtain rfl : start = chain := (Prod.mk.inj before).2
    simp only [List.nil_append, replay]
    rw [List.length_nil, Nat.add_zero] at last
    rw [last]
  | cons first rest ih =>
    simp only [List.cons_append, replay] at before ⊢
    cases step : addBlock P (clock position) start first with
    | mk verdict next =>
      rw [step] at before
      cases verdict with
      | error refusal => simp at before
      | ok _ =>
        refine ih (position + 1) next before ?_
        rwa [List.length_cons, Nat.add_comm rest.length 1, ← Nat.add_assoc] at last

/-- A replay that runs through appends its blocks. -/
theorem replay_blocks (clock : Nat → Time) (position : Nat) (start reached : Chain)
    (blocks : List Block) (through : replay P clock position start blocks = (.ok (), reached)) :
    reached.blocks = start.blocks ++ blocks := by
  induction blocks generalizing position start with
  | nil =>
    rw [← (Prod.mk.inj through).2, List.append_nil]
  | cons block rest ih =>
    simp only [replay] at through
    cases step : addBlock P (clock position) start block with
    | mk verdict next =>
      rw [step] at through
      cases verdict with
      | error refusal => simp at through
      | ok _ =>
        rw [ih (position + 1) next through,
          addBlock_blocks (clock position) start next block step, List.append_assoc,
          List.singleton_append]

/-- The steps of a run were taken no later than a given time. -/
def NotAfter (bound : Time) : StepCondition := fun now _ _ => now.val ≤ bound.val

/-- A grown chain is the replay of its blocks after the first. -/
theorem Grown.replays {cfg : ChainConfig} {chain : Chain} {bound : Time}
    (grown : Grown P (NotAfter bound) cfg chain) (clock : Nat → Time)
    (later : ∀ position, bound.val ≤ (clock position).val) :
    chain.blocks ≠ [] ∧
      Addition.replay P clock 1 (Chain.new P cfg) chain.blocks.tail = (.ok (), chain) := by
  induction grown with
  | new => exact ⟨by simp [Chain.new], rfl⟩
  | add now chain block reached _ meets accepted ih =>
    obtain ⟨nonempty, replayed⟩ := ih
    rw [addBlock_blocks now chain reached block accepted, List.tail_append_of_ne_nil nonempty]
    exact ⟨by simp, replay_append clock 1 _ chain reached _ block replayed
      (addBlock_later now _ (UInt64.le_trans meets (later _)) chain reached block accepted)⟩

end Addition
