import Addition.Foundations.KeySchedules
import Addition.PqSession

/-!
# What opening a frame does to a session

The assumptions on the libraries: derived keys never meet, a sealed text opens under exactly
what it was sealed with, and encapsulation and decapsulation agree. Then the session
functions, case by case: a jump along a chain stores the keys it passes, a frame is opened
with a stored key, with the next key of the chain, or with a key of a new chain.
-/

namespace Addition

namespace PqSession

open ByteStrings Checked FiniteTables KeySchedules

/-! ### The libraries -/

/-- The assumptions on the libraries. -/
structure Suite.Ideal (S : Suite) : Prop where
  front_injective : ∀ {key key' message message'},
    (S.hmac key message).1 = (S.hmac key' message').1 → key = key' ∧ message = message'
  back_injective : ∀ {key key' message message'},
    (S.hmac key message).2 = (S.hmac key' message').2 → key = key' ∧ message = message'
  front_ne_back : ∀ key message key' message', (S.hmac key message).1 ≠ (S.hmac key' message').2
  h32_injective : Function.Injective S.h32
  h32_hex : ∀ octets, ∀ digit ∈ S.h32 octets, isLowerHex digit = true
  agreement : ∀ {seed pub sk coins ct ss}, S.keypair seed = some (pub, sk) →
    S.encaps pub coins = some (ct, ss) → S.decaps sk ct = some ss
  keypair_some : ∀ {seed pub sk}, S.keypair seed = some (pub, sk) → pub ≠ []
  encaps_some : ∀ {pub coins ct ss}, S.encaps pub coins = some (ct, ss) → ct ≠ []
  aead_exact : ∀ key iv aad box text, S.aeadOpen key iv aad box = some text ↔
    box = S.aeadSeal key iv aad text
  aead_injective : ∀ {key key' iv iv' aad aad' text text'},
    S.aeadSeal key iv aad text = S.aeadSeal key' iv' aad' text' →
      key = key' ∧ iv = iv' ∧ aad = aad' ∧ text = text'

/-- The sizes that the libraries' outputs have in a frame. -/
structure Suite.Sized (S : Suite) : Prop where
  pub : ∀ {seed pub sk}, S.keypair seed = some (pub, sk) → pub.length ≤ 4096
  digest : (S.h32 []).length ≤ 64 ∧
    ∀ {seed pub sk}, S.keypair seed = some (pub, sk) → (S.h32 pub).length ≤ 64
  capsule : ∀ {pub coins ct ss}, S.encaps pub coins = some (ct, ss) → ct.length ≤ 4096
  box : ∀ key iv aad text, S.boxSize (S.aeadSeal key iv aad text) = text.length + 16

/-- The derivations as a schedule of keys. -/
def Suite.schedule (S : Suite) : Schedule S.Key Bytes where
  first := S.initChain
  root rk ss := (S.kdfRk rk ss).1
  chain rk ss := (S.kdfRk rk ss).2
  next ck := (S.kdfCk (some ck)).2
  message ck := (S.kdfCk (some ck)).1

variable {S : Suite}

/-- The key schedule of an ideal suite is exact. -/
theorem Suite.Ideal.exact (ideal : S.Ideal) : S.schedule.Exact where
  root_injective same := by
    obtain ⟨keys, messages⟩ := ideal.front_injective same
    exact ⟨MacKey.derived.inj keys, List.append_cancel_left messages⟩
  chain_injective same := by
    obtain ⟨keys, messages⟩ := ideal.back_injective same
    exact ⟨MacKey.derived.inj keys, List.append_cancel_left messages⟩
  next_injective _ _ same := MacKey.derived.inj (ideal.front_injective same).1
  message_injective _ _ same := MacKey.derived.inj (ideal.front_injective same).1
  first_ne_chain _ _ _ := ideal.front_ne_back _ _ _ _
  first_ne_next _ _ same := absurd (ideal.front_injective same).2 (by decide)
  chain_ne_next _ _ _ same := ideal.front_ne_back _ _ _ _ same.symm

/-- The root of a transcript is the root of no step. -/
theorem Suite.Ideal.initRoot_fresh (ideal : S.Ideal) (transcript ss : Bytes) (rk : S.Key) (secret : Bytes) :
    S.initRoot transcript ss ≠ S.schedule.root rk secret := by
  intro same
  exact absurd (ideal.front_injective same).1 (by simp)

/-! ### Jumps along a chain -/

theorem skipName_injective (ideal : S.Ideal) {rkPub rkPub' : Bytes} {n n' : Nat}
    (same : skipName (S := S) rkPub n = skipName (S := S) rkPub' n') : rkPub = rkPub' ∧ n = n' := by
  have colon : ∀ octets, byte ':' ∉ S.h32 octets := by
    intro octets member
    exact absurd (ideal.h32_hex octets _ member) (by decide)
  unfold skipName at same
  rw [List.append_assoc, List.append_assoc] at same
  obtain ⟨names, numbers⟩ := cut_first (byte ':') _ _ _ _ (colon rkPub) (colon rkPub') same
  exact ⟨ideal.h32_injective names, decimal_injective n n' numbers⟩

/-- What a jump leaves: the chain further on, and the keys it passed under their names. -/
structure Jumped (s left : Session S) (key : S.Key) (count : Nat) : Prop where
  same : ∃ skipped, left = { s with
    ckr := some (walk S.schedule key count)
    nr := s.nr + UInt32.ofNat count
    skipped := skipped }
  stored : ∀ name found, left.skipped.lookup name = some found →
    s.skipped.lookup name = some found ∨
      ∃ place, place < count ∧ name = skipName (S := S) s.peerRk (s.nr + UInt32.ofNat place).toNat ∧
        found = S.schedule.message (walk S.schedule key place)

theorem UInt32.add_one_ofNat (word : UInt32) (count : Nat) :
    word + 1 + UInt32.ofNat count = word + UInt32.ofNat (count + 1) := by
  rw [UInt32.ofNat_add, UInt32.add_assoc, UInt32.add_comm 1]
  rfl

/-- Induction on the jump: one key is stored, then the rest of the jump. -/
theorem skipMany_jumped (count : Nat) (s : Session S) (key : S.Key) (chain : s.ckr = some key) :
    Jumped s (skipMany count s) key count := by
  induction count generalizing s key with
  | zero =>
    refine ⟨⟨s.skipped, ?_⟩, fun name found listed => .inl listed⟩
    obtain ⟨sid, peerFp, myFp, peerIdentity, peerRelay, rk, cks, ckr, ns, nr, pn, myPub, mySk, prevPub,
      prevSk, peerRk, stepCt, stepTo, needStep, skipped⟩ := s
    cases chain
    simp [skipMany, walk]
  | succ count ih =>
    have one : (skipOne s).ckr = some (S.schedule.next key) := by
      simp only [skipOne, chain]
      rfl
    obtain ⟨⟨skipped, rest⟩, stored⟩ := ih (skipOne s) (S.schedule.next key) one
    constructor
    · refine ⟨skipped, ?_⟩
      rw [skipMany, rest, walk_next]
      simp only [skipOne, UInt32.add_one_ofNat]
    · intro name found listed
      obtain before | ⟨place, less, isName, isKey⟩ := stored name found listed
      · simp only [skipOne] at before
        rw [lookup_insert] at before
        split at before
        · rename_i isName
          refine .inr ⟨0, Nat.succ_pos _, ?_, ?_⟩
          · rw [isName]
            simp
          · rw [← Option.some.inj before, chain]
            rfl
        · exact .inl before
      · refine .inr ⟨place + 1, Nat.succ_lt_succ less, ?_, ?_⟩
        · rw [isName, ← UInt32.add_one_ofNat]
          rfl
        · rw [isKey, walk_next]

theorem evict_subset (excess : Nat) (skipped : Table Bytes S.Key) (name : Bytes) (found : S.Key)
    (listed : (evict excess skipped).lookup name = some found) : skipped.lookup name = some found := by
  induction excess generalizing skipped with
  | zero => exact listed
  | succ excess ih =>
    rw [evict] at listed
    split at listed
    · exact listed
    · have erased := ih _ listed
      rw [lookup_erase] at erased
      split at erased
      · exact absurd erased (by simp)
      · exact erased

variable {left s : Session S} {frame : MessageFrame S}

theorem Jumped.trim {key : S.Key} {count : Nat} (jumped : Jumped s left key count) :
    Jumped s (trim left) key count := by
  obtain ⟨⟨skipped, rfl⟩, stored⟩ := jumped
  constructor
  · exact ⟨evict (skipped.keys.length - 256) skipped, rfl⟩
  · intro name found listed
    simp only [PqSession.trim] at listed
    exact stored name found (evict_subset _ _ name found listed)

/-- `skip_to` with a receiving chain. -/
theorem skipTo_ok (s left : Session S) (bound : UInt32) (key : S.Key) (chain : s.ckr = some key)
    (done : skipTo s bound = .ok left) : Jumped s left key (bound.toNat - s.nr.toNat) := by
  unfold skipTo at done
  rw [chain] at done
  simp only [Option.isNone_some, Bool.false_eq_true, ↓reduceIte] at done
  split at done
  · exact absurd done (by simp)
  · exact Except.ok.inj done ▸ (skipMany_jumped _ s key chain).trim

/-- `skip_to` without one. -/
theorem skipTo_none (s left : Session S) (bound : UInt32) (chain : s.ckr = none)
    (done : skipTo s bound = .ok left) : left = s := by
  unfold skipTo at done
  rw [chain] at done
  exact (Except.ok.inj done).symm

/-! ### The key of a frame -/

/-- The next key of a chain after a jump. -/
structure Advanced (s left : Session S) (frame : MessageFrame S) (mk : S.Key) : Prop where
  later : s.nr ≤ frame.n.toUInt32
  next : ∃ reached, skipTo s frame.n.toUInt32 = .ok reached ∧ mk = (S.kdfCk reached.ckr).1 ∧
    left = { reached with ckr := some (S.kdfCk reached.ckr).2, nr := reached.nr + 1 }

/-- Where the key of a frame comes from. -/
inductive Chosen (s left : Session S) (frame : MessageFrame S) (mk : S.Key) : Prop
  | stored
      (found : s.skipped.lookup (skipName (S := S) frame.rkPub frame.n.toUInt32.toNat) = some mk)
      (erased : left = { s with
        skipped := s.skipped.erase (skipName (S := S) frame.rkPub frame.n.toUInt32.toNat) })
  | along (known : frame.rkPub = s.peerRk) (advanced : Advanced s left frame mk)
  | fresh (between : Session S) (unknown : frame.rkPub ≠ s.peerRk)
      (turned : newChain s frame = .ok between) (advanced : Advanced between left frame mk)

/-- Where a key was chosen from. -/
theorem chooseKey_ok (s left : Session S) (frame : MessageFrame S) (mk : S.Key)
    (done : chooseKey s frame = .ok (mk, left)) : Chosen s left frame mk := by
  unfold chooseKey at done
  split at done
  · rename_i key found
    simp only [Except.ok.injEq, Prod.mk.injEq] at done
    exact .stored (done.1 ▸ found) done.2.symm
  · simp only [bind_ok, exists_unit, ensure_ok, pure_ok, decide_eq_true_eq, Prod.mk.injEq] at done
    obtain ⟨between, chain, later, reached, jumped, rfl, rfl⟩ := done
    unfold chainOf at chain
    split at chain
    · rename_i unknown
      exact .fresh between unknown chain ⟨later, reached, jumped, rfl, rfl⟩
    · rename_i known
      cases Except.ok.inj chain
      exact .along (not_not.mp known) ⟨later, reached, jumped, rfl, rfl⟩

/-- What a new chain leaves: the old chain jumped to its end, and a root and a chain from the
secret of the step. -/
theorem newChain_ok (s left : Session S) (frame : MessageFrame S) (done : newChain s frame = .ok left) :
    frame.stepCt ≠ [] ∧ ∃ jumped sk ss, skipTo s frame.pn.toUInt32 = .ok jumped ∧
      stepKey jumped frame.stepTo = some sk ∧ S.decaps sk frame.stepCt = some ss ∧
      left = { jumped with
        rk := (S.kdfRk jumped.rk ss).1
        ckr := some (S.kdfRk jumped.rk ss).2
        peerRk := frame.rkPub
        nr := 0
        needStep := true } := by
  simp only [newChain, bind_ok, exists_unit, ensure_ok] at done
  obtain ⟨some, jumped, skipped, turned⟩ := done
  refine ⟨by simpa using some, jumped, ?_⟩
  split at turned
  · exact absurd turned (by simp)
  · rename_i ss found
    obtain ⟨sk, key, decapsed⟩ := Option.bind_eq_some_iff.mp found
    exact ⟨sk, ss, skipped, key, decapsed, (Except.ok.inj turned).symm⟩

/-- A frame that opens does so under its chosen key. -/
theorem decryptLocked_ok (s left : Session S) (frame : MessageFrame S) (text : Bytes)
    (done : decryptLocked s frame = .ok (text, left)) :
    ∃ mk, chooseKey s frame = .ok (mk, left) ∧ S.aeadOpen mk frame.iv frame.aad frame.ct = some text := by
  simp only [decryptLocked, bind_ok, Prod.exists] at done
  obtain ⟨mk, reached, chosen, opened⟩ := done
  split at opened
  · exact absurd opened (by simp)
  · rename_i found
    simp only [pure_ok, Prod.mk.injEq] at opened
    obtain ⟨rfl, rfl⟩ := opened
    exact ⟨mk, chosen, found⟩

/-! ### Sessions that open a frame -/

theorem newChain_some {jumped : Session S} {sk ss : Bytes}
    (present : frame.stepCt ≠ []) (skipped : skipTo s frame.pn.toUInt32 = .ok jumped)
    (key : stepKey jumped frame.stepTo = some sk) (opened : S.decaps sk frame.stepCt = some ss) :
    newChain s frame = .ok { jumped with
      rk := (S.kdfRk jumped.rk ss).1
      ckr := some (S.kdfRk jumped.rk ss).2
      peerRk := frame.rkPub
      nr := 0
      needStep := true } := by
  simp only [newChain, bind_ok, exists_unit, ensure_ok]
  refine ⟨by simpa using present, jumped, skipped, ?_⟩
  rw [key, Option.bind_some, opened]
  rfl

theorem chooseKey_some {between reached : Session S}
    (absent : s.skipped.lookup (skipName (S := S) frame.rkPub frame.n.toUInt32.toNat) = none)
    (chain : chainOf s frame = .ok between) (later : between.nr ≤ frame.n.toUInt32)
    (skipped : skipTo between frame.n.toUInt32 = .ok reached) :
    chooseKey s frame = .ok ((S.kdfCk reached.ckr).1,
      { reached with ckr := some (S.kdfCk reached.ckr).2, nr := reached.nr + 1 }) := by
  unfold chooseKey
  rw [absent]
  simp only [bind_ok, exists_unit, ensure_ok, pure_ok, decide_eq_true_eq]
  exact ⟨between, chain, later, reached, skipped, rfl⟩

theorem decryptLocked_some {mk : S.Key} {text : Bytes} (chosen : chooseKey s frame = .ok (mk, left))
    (opened : S.aeadOpen mk frame.iv frame.aad frame.ct = some text) :
    decryptLocked s frame = .ok (text, left) := by
  simp only [decryptLocked, bind_ok]
  refine ⟨(mk, left), chosen, ?_⟩
  dsimp only
  rw [opened]
  rfl

end PqSession

end Addition
