import Mathlib.Logic.Function.Basic

/-!
# Key schedules of a ratchet

A start key and a stream of secrets give a row of roots. Each root has a chain: the first is
made from the start key alone, each later one from a root and the secret that also makes the
next root. A chain is walked step by step and gives a message key at every step. When the
functions of the schedule never meet, a message key tells its chain and its place, and a
chain made from a foreign secret gives no message key of the schedule.
-/

namespace KeySchedules

/-- The derivations of a key schedule. -/
structure Schedule (Key Secret : Type) where
  first : Key → Key
  root : Key → Secret → Key
  chain : Key → Secret → Key
  next : Key → Key
  message : Key → Key

variable {Key Secret : Type}

/-- No two uses of the schedule's functions give the same key. -/
structure Schedule.Exact (schedule : Schedule Key Secret) : Prop where
  root_injective : ∀ {key key' secret secret'},
    schedule.root key secret = schedule.root key' secret' → key = key' ∧ secret = secret'
  chain_injective : ∀ {key key' secret secret'},
    schedule.chain key secret = schedule.chain key' secret' → key = key' ∧ secret = secret'
  next_injective : Function.Injective schedule.next
  message_injective : Function.Injective schedule.message
  first_ne_chain : ∀ key key' secret, schedule.first key ≠ schedule.chain key' secret
  first_ne_next : ∀ key key', schedule.first key ≠ schedule.next key'
  chain_ne_next : ∀ key secret key', schedule.chain key secret ≠ schedule.next key'

section Rows

variable (schedule : Schedule Key Secret) (start : Key) (secrets : Nat → Secret)

/-- The root after a number of steps. -/
def roots : Nat → Key
  | 0 => start
  | turn + 1 => schedule.root (roots turn) (secrets (turn + 1))

/-- The head of the chain of a step. -/
def chains : Nat → Key
  | 0 => schedule.first start
  | turn + 1 => schedule.chain (roots schedule start secrets turn) (secrets (turn + 1))

/-- A chain after a number of steps. -/
def walk (key : Key) : Nat → Key
  | 0 => key
  | place + 1 => schedule.next (walk key place)

/-- A walk from the next key is a walk of one step more. -/
theorem walk_next (key : Key) (count : Nat) :
    walk schedule (schedule.next key) count = walk schedule key (count + 1) := by
  induction count with
  | zero => rfl
  | succ count ih => exact congrArg schedule.next ih

/-- A walk goes on from where another one ended. -/
theorem walk_add (key : Key) (place count : Nat) :
    walk schedule key (place + count) = walk schedule (walk schedule key place) count := by
  induction count with
  | zero => rfl
  | succ count ih => exact congrArg schedule.next ih

/-- The chain key of a step at a place. -/
def chainAt (turn place : Nat) : Key := walk schedule (chains schedule start secrets turn) place

/-- The message key of a step at a place. -/
def messageAt (turn place : Nat) : Key := schedule.message (chainAt schedule start secrets turn place)

variable {schedule start secrets}

/-- The head of a chain is the key of no later place. -/
def Head (schedule : Schedule Key Secret) (key : Key) : Prop := ∀ key', key ≠ schedule.next key'

theorem head_chains (exact : schedule.Exact) (turn : Nat) :
    Head schedule (chains schedule start secrets turn) := by
  cases turn with
  | zero => exact exact.first_ne_next start
  | succ turn => exact exact.chain_ne_next _ _

variable {place place' turn turn' : Nat} {secret : Secret}

/-- Walks from heads meet at the same head and the same place only. -/
theorem walk_injective (exact : schedule.Exact) {key key' : Key} (head : Head schedule key)
    (head' : Head schedule key')
    (same : walk schedule key place = walk schedule key' place') : key = key' ∧ place = place' := by
  induction place generalizing place' with
  | zero =>
    cases place' with
    | zero => exact ⟨same, rfl⟩
    | succ place' => exact absurd same (head _)
  | succ place ih =>
    cases place' with
    | zero => exact absurd same.symm (head' _)
    | succ place' =>
      obtain ⟨sameKey, samePlace⟩ := ih (exact.next_injective same)
      exact ⟨sameKey, congrArg Nat.succ samePlace⟩

/-- Roots never return. -/
theorem roots_injective (exact : schedule.Exact) (fresh : ∀ key secret, start ≠ schedule.root key secret)
    (same : roots schedule start secrets turn = roots schedule start secrets turn') :
    turn = turn' := by
  induction turn generalizing turn' with
  | zero =>
    cases turn' with
    | zero => rfl
    | succ turn' => exact absurd same (fresh _ _)
  | succ turn ih =>
    cases turn' with
    | zero => exact absurd same.symm (fresh _ _)
    | succ turn' => exact congrArg Nat.succ (ih (exact.root_injective same).1)

/-- A chain made from a root and any secret is a chain of the schedule only one step after
that root and with the secret of this step. -/
theorem chain_eq_chains (exact : schedule.Exact) (fresh : ∀ key secret, start ≠ schedule.root key secret)
    (same : schedule.chain (roots schedule start secrets turn) secret =
      chains schedule start secrets turn') : turn' = turn + 1 ∧ secret = secrets turn' := by
  cases turn' with
  | zero => exact absurd same.symm (exact.first_ne_chain _ _ _)
  | succ turn' =>
    obtain ⟨sameRoot, sameSecret⟩ := exact.chain_injective same
    exact ⟨congrArg Nat.succ (roots_injective exact fresh sameRoot).symm, sameSecret⟩

theorem chains_injective (exact : schedule.Exact) (fresh : ∀ key secret, start ≠ schedule.root key secret)
    (same : chains schedule start secrets turn = chains schedule start secrets turn') :
    turn = turn' := by
  cases turn with
  | zero =>
    cases turn' with
    | zero => rfl
    | succ turn' => exact absurd same (exact.first_ne_chain _ _ _)
  | succ turn => exact (chain_eq_chains exact fresh same).1.symm

/-- A message key tells its chain and its place. -/
theorem messageAt_injective (exact : schedule.Exact)
    (fresh : ∀ key secret, start ≠ schedule.root key secret)
    (same : messageAt schedule start secrets turn place =
      messageAt schedule start secrets turn' place') : turn = turn' ∧ place = place' := by
  obtain ⟨sameChain, samePlace⟩ := walk_injective exact (head_chains exact turn)
    (head_chains exact turn') (exact.message_injective same)
  exact ⟨chains_injective exact fresh sameChain, samePlace⟩

/-- A message key on a chain made from a root and any secret. -/
theorem message_walk_chain (exact : schedule.Exact)
    (fresh : ∀ key secret, start ≠ schedule.root key secret)
    (same : schedule.message (walk schedule (schedule.chain (roots schedule start secrets turn) secret)
      place) = messageAt schedule start secrets turn' place') :
    turn' = turn + 1 ∧ secret = secrets turn' ∧ place = place' := by
  obtain ⟨sameChain, samePlace⟩ := walk_injective exact (exact.chain_ne_next _ _)
    (head_chains exact turn') (exact.message_injective same)
  obtain ⟨step, sameSecret⟩ := chain_eq_chains exact fresh sameChain
  exact ⟨step, sameSecret, samePlace⟩

end Rows

end KeySchedules
