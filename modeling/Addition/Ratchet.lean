import Addition.SkippedKeys

/-!
# Two parties of a session

The ratchet steps of a session are numbered; the initiator makes the even ones and the
responder the odd ones, and each step gives a chain to its maker. A party is described by
the number of steps it has made or seen. What is drawn at random for a step is fixed in
advance, so every key of the session is determined by the number of its step and its place.
-/

namespace Addition

namespace PqSession

open ByteStrings Checked FiniteTables KeySchedules

variable {S : Suite}

/-! ### Steps and keys -/

/-- The parties of a session. -/
inductive Side
  | initiator
  | responder
deriving DecidableEq

/-- The peer. -/
def Side.other : Side → Side
  | .initiator => .responder
  | .responder => .initiator

/-- The side that makes a step. -/
def Side.owns (side : Side) (turn : Nat) : Bool :=
  match side with
  | .initiator => turn % 2 == 0
  | .responder => turn % 2 == 1

theorem owns_succ (side : Side) (turn : Nat) : side.owns (turn + 1) = !side.owns turn := by
  cases side with
  | initiator =>
    simp only [Side.owns]
    rcases Nat.mod_two_eq_zero_or_one turn with even | odd
    · have next : (turn + 1) % 2 = 1 := by omega
      rw [even, next]
      rfl
    · have next : (turn + 1) % 2 = 0 := by omega
      rw [odd, next]
      rfl
  | responder =>
    simp only [Side.owns]
    rcases Nat.mod_two_eq_zero_or_one turn with even | odd
    · have next : (turn + 1) % 2 = 1 := by omega
      rw [even, next]
      rfl
    · have next : (turn + 1) % 2 = 0 := by omega
      rw [odd, next]
      rfl

theorem owns_other (side : Side) (turn : Nat) : side.other.owns turn = !side.owns turn := by
  rcases Nat.mod_two_eq_zero_or_one turn with even | odd
  · cases side <;> simp [Side.other, Side.owns, even]
  · cases side <;> simp [Side.other, Side.owns, odd]

/-- A side either owns a step or the other one does. -/
theorem side_eq (side maker : Side) (turn : Nat) (made : maker.owns turn = true) :
    maker = if side.owns turn then side else side.other := by
  have opposite := owns_other side turn
  cases side <;> cases maker <;> simp_all [Side.other]

/-- The last of the first steps that a side made. -/
def Side.sendTurn (side : Side) (turn : Nat) : Option Nat :=
  if side.owns turn then some turn
  else
    match turn with
    | 0 => none
    | before + 1 => some before

/-- The last of the first steps that its peer made. -/
def Side.receiveTurn (side : Side) (turn : Nat) : Option Nat := side.other.sendTurn turn

theorem sendTurn_owned (side : Side) (turn : Nat) (owned : side.owns turn = true) :
    side.sendTurn turn = some turn := by
  unfold Side.sendTurn
  rw [if_pos owned]

theorem sendTurn_succ (side : Side) (turn : Nat) (owned : side.owns turn = true) :
    side.sendTurn (turn + 1) = some turn := by
  unfold Side.sendTurn
  rw [owns_succ, owned]
  rfl

theorem receiveTurn_foreign (side : Side) (turn : Nat) (foreign : side.owns turn = false) :
    side.receiveTurn turn = some turn :=
  sendTurn_owned side.other turn (by rw [owns_other, foreign]; rfl)

/-- The chain on which a side receives does not change when it makes a step. -/
theorem receiveTurn_succ (side : Side) (turn : Nat) (foreign : side.owns turn = false) :
    side.receiveTurn (turn + 1) = some turn :=
  sendTurn_succ side.other turn (by rw [owns_other, foreign]; rfl)

theorem receiveTurn_some (side : Side) (turn last : Nat) (found : side.receiveTurn turn = some last) :
    side.owns last = false ∧ last ≤ turn ∧ (side.owns turn = true → last + 1 = turn) := by
  unfold Side.receiveTurn Side.sendTurn at found
  have opposite := owns_other side turn
  split at found
  · rename_i owned
    cases Option.some.inj found
    rw [owned] at opposite
    have foreign : side.owns turn = false := by simpa using opposite.symm
    exact ⟨foreign, Nat.le_refl _, fun owns => absurd (foreign.symm.trans owns) (by decide)⟩
  · rename_i foreign
    cases turn with
    | zero => exact absurd found (by simp)
    | succ before =>
      cases Option.some.inj found
      rw [opposite, owns_succ] at foreign
      exact ⟨by simpa using foreign, Nat.le_succ _, fun _ => rfl⟩

variable (S) in
/-- A session: its name, its first root, and the seeds of its steps. -/
structure Thread where
  sid : Bytes
  start : S.Key
  seeds : Nat → S.Seed × S.Seed

/-- The ratchet key pair of a step. -/
def Thread.pair (T : Thread S) (turn : Nat) : Bytes × Bytes :=
  (S.keypair (T.seeds turn).2).getD ([], [])

/-- The public half of the ratchet keys of a step. -/
def Thread.pub (T : Thread S) (turn : Nat) : Bytes := (T.pair turn).1

/-- The secret half of the ratchet keys of a step. -/
def Thread.sec (T : Thread S) (turn : Nat) : Bytes := (T.pair turn).2

/-- What a step encapsulates to the key of the step before. -/
def Thread.capsule (T : Thread S) (turn : Nat) : Bytes × Bytes :=
  (S.encaps (T.pub (turn - 1)) (T.seeds turn).1).getD ([], [])

/-- The root after a step. -/
def Thread.root (T : Thread S) (turn : Nat) : S.Key :=
  roots S.schedule T.start (fun turn => (T.capsule turn).2) turn

/-- The chain key of a step at a place. -/
def Thread.chain (T : Thread S) (turn place : Nat) : S.Key :=
  chainAt S.schedule T.start (fun turn => (T.capsule turn).2) turn place

/-- The message key of a step at a place. -/
def Thread.key (T : Thread S) (turn place : Nat) : S.Key :=
  messageAt S.schedule T.start (fun turn => (T.capsule turn).2) turn place

/-- The first root is the root of no step. -/
def Thread.Fresh (T : Thread S) : Prop := ∀ rk secret, T.start ≠ S.schedule.root rk secret

variable {T : Thread S} {place place' turn turn' seen : Nat} {side : Side} {count last : Nat}
  {tally : Nat → Nat} {frame : MessageFrame S} {mk : S.Key} {tally' : Nat → Nat}

theorem key_injective (ideal : S.Ideal) (fresh : T.Fresh)
    (same : T.key turn place = T.key turn' place') : turn = turn' ∧ place = place' :=
  messageAt_injective ideal.exact fresh same

/-! ### A party's session -/

/-- A place on a chain of the peer that a party has passed. -/
def Passed (side : Side) (seen place turn' place' : Nat) : Prop :=
  ∃ last, side.receiveTurn seen = some last ∧ side.owns turn' = false ∧
    (turn' < last ∨ turn' = last ∧ place' < place)

theorem Passed.congr {seen' : Nat}
    (passed : Passed side seen place turn' place') (same : side.receiveTurn seen' = side.receiveTurn seen) :
    Passed side seen' place turn' place' := by
  unfold Passed
  rw [same]
  exact passed

/-- How many messages the chain before the last had when a step was made. -/
def before (tally : Nat → Nat) (turn : Nat) : Nat := if turn < 2 then 0 else tally (turn - 2)

/-- The sending half of a session on the chain of a step. -/
structure Thread.Sends (T : Thread S) (tally : Nat → Nat) (turn : Nat) (s : Session S) : Prop where
  chain : s.cks = some (T.chain turn (tally turn))
  number : s.ns = UInt32.ofNat (tally turn)
  former : s.pn = UInt32.ofNat (before tally turn)
  pub : s.myPub = T.pub turn
  sec : s.mySk = T.sec turn
  drawn : S.keypair (T.seeds turn).2 = some (T.pair turn)
  capsule : 0 < turn → S.encaps (T.pub (turn - 1)) (T.seeds turn).1 = some (T.capsule turn) ∧
    s.stepCt = (T.capsule turn).1 ∧ s.stepTo = S.h32 (T.pub (turn - 1))
  front : turn = 0 → s.stepCt = [] ∧ s.stepTo = ascii "-"

/-- The receiving half of a session on the chain of a step. -/
structure Thread.Receives (T : Thread S) (place turn : Nat) (s : Session S) : Prop where
  chain : s.ckr = some (T.chain turn place)
  number : s.nr = UInt32.ofNat place
  pub : s.peerRk = T.pub turn

/-- The session of a party after a number of steps: the last of them that it made, the last
that its peer made, and keys of places that it passed. -/
structure Thread.At (T : Thread S) (side : Side) (turn place : Nat) (tally : Nat → Nat) (s : Session S) :
    Prop where
  sid : s.sid = T.sid
  root : s.rk = T.root turn
  step : s.needStep = !side.owns turn
  sends : ∀ last, side.sendTurn turn = some last → T.Sends tally last s
  silent : side.sendTurn turn = none → s.cks = none ∧ s.myPub = [] ∧ s.ns = 0
  receives : ∀ last, side.receiveTurn turn = some last → T.Receives place last s
  deaf : side.receiveTurn turn = none → s.ckr = none ∧ s.peerRk = []
  kept : ∀ name found, s.skipped.lookup name = some found → ∃ turn' place',
    Passed side turn place turn' place' ∧ name = skipName (S := S) (T.pub turn') (place' % 2 ^ 32) ∧
      found = T.key turn' place'

/-! ### Opening a frame of the peer -/

variable {left s : Session S}

/-- A jump along the chain on which a party receives. -/
theorem Thread.At.jumped (at_ : T.At side turn place tally s)
    (receiving : side.receiveTurn turn = some last) (jumped : Jumped s left (T.chain last place) count) :
    T.At side turn (place + count) tally left := by
  obtain ⟨skipped, rfl⟩ := jumped.same
  have receives := at_.receives last receiving
  refine ⟨at_.sid, at_.root, at_.step, fun sent found => ?_, at_.silent, fun other found => ?_,
    fun none => absurd (receiving.symm.trans none) (by simp), ?_⟩
  · have sends := at_.sends sent found
    exact ⟨sends.chain, sends.number, sends.former, sends.pub, sends.sec,
      sends.drawn, sends.capsule, sends.front⟩
  · cases Option.some.inj (receiving.symm.trans found)
    refine ⟨congrArg some ?_, ?_, receives.pub⟩
    · exact (walk_add _ _ _ _).symm
    · change s.nr + UInt32.ofNat count = UInt32.ofNat (place + count)
      rw [receives.number, UInt32.ofNat_add]
  · intro name found listed
    obtain earlier | ⟨step, less, isName, isKey⟩ := jumped.stored name found listed
    · obtain ⟨turn', place', passed, isName, isKey⟩ := at_.kept name found earlier
      refine ⟨turn', place', ?_, isName, isKey⟩
      obtain ⟨latest, isLatest, foreign, order⟩ := passed
      refine ⟨latest, isLatest, foreign, order.imp_right (fun same => ⟨same.1, ?_⟩)⟩
      omega
    · refine ⟨last, place + step, ⟨last, receiving, (receiveTurn_some _ _ _ receiving).1,
        .inr ⟨rfl, by omega⟩⟩, ?_, ?_⟩
      · rw [isName, receives.pub, receives.number, ← UInt32.ofNat_add]
        rfl
      · rw [isKey]
        exact congrArg S.schedule.message (walk_add _ _ _ _).symm

/-- The next key of the chain on which a party receives. -/
theorem Thread.At.next
    (at_ : T.At side turn place tally s) (receiving : side.receiveTurn turn = some last) :
    (S.kdfCk s.ckr).1 = T.key last place ∧
      T.At side turn (place + 1) tally { s with ckr := some (S.kdfCk s.ckr).2, nr := s.nr + 1 } := by
  have receives := at_.receives last receiving
  constructor
  · rw [receives.chain]
    rfl
  · refine ⟨at_.sid, at_.root, at_.step, fun sent found => ?_, at_.silent, fun other found => ?_,
      fun none => absurd (receiving.symm.trans none) (by simp), ?_⟩
    · have sends := at_.sends sent found
      exact ⟨sends.chain, sends.number, sends.former, sends.pub, sends.sec,
      sends.drawn, sends.capsule, sends.front⟩
    · cases Option.some.inj (receiving.symm.trans found)
      refine ⟨?_, ?_, receives.pub⟩
      · rw [receives.chain]
        rfl
      · change s.nr + 1 = UInt32.ofNat (place + 1)
        rw [receives.number, UInt32.ofNat_add]
        rfl
    · intro name found listed
      obtain ⟨turn', place', passed, isName, isKey⟩ := at_.kept name found listed
      obtain ⟨latest, isLatest, foreign, order⟩ := passed
      exact ⟨turn', place', ⟨latest, isLatest, foreign,
        order.imp_right (fun same => ⟨same.1, Nat.lt_succ_of_lt same.2⟩)⟩, isName, isKey⟩

/-- A frame further along the chain has the key of its place. -/
theorem Thread.At.advanced (at_ : T.At side turn place tally s)
    (receiving : side.receiveTurn turn = some last) (advanced : Advanced s left frame mk) :
    mk = T.key last (place + (frame.n.toUInt32.toNat - s.nr.toNat)) ∧
      T.At side turn (place + (frame.n.toUInt32.toNat - s.nr.toNat) + 1) tally left := by
  obtain ⟨reached, skipped, rfl, rfl⟩ := advanced.next
  have jumped := skipTo_ok s reached _ _ (at_.receives last receiving).chain skipped
  exact (at_.jumped receiving jumped).next receiving

/-- `skip_to` with or without a chain on which the party receives. -/
theorem Thread.At.leaps {bound : UInt32} (at_ : T.At side turn place tally s)
    (done : skipTo s bound = .ok left) : ∃ place', T.At side turn place' tally left := by
  cases receiving : side.receiveTurn turn with
  | none => exact ⟨place, (skipTo_none s left bound (at_.deaf receiving).1 done) ▸ at_⟩
  | some last =>
    exact ⟨_, at_.jumped receiving
      (skipTo_ok s left bound _ (at_.receives last receiving).chain done)⟩

/-- A place that was passed stays passed after the next step of the peer. -/
theorem Passed.step (passed : Passed side seen place turn' place')
    (owned : side.owns seen = true) : Passed side (seen + 1) 0 turn' place' := by
  obtain ⟨last, isLast, foreign, order⟩ := passed
  have within := (receiveTurn_some side seen last isLast).2.1
  refine ⟨seen + 1, receiveTurn_foreign side _ (by rw [owns_succ, owned]; rfl), foreign, .inl ?_⟩
  omega

/-- The chain that a new ratchet key starts, and the session on it when the secret and the key
are those of the next step. -/
theorem Thread.At.turned (at_ : T.At side turn place tally s) (done : newChain s frame = .ok left) :
    ∃ ss, left.ckr = some (S.schedule.chain (T.root turn) ss) ∧ left.nr = 0 ∧
      (side.owns turn = true → ss = (T.capsule (turn + 1)).2 → frame.rkPub = T.pub (turn + 1) →
        T.At side (turn + 1) 0 tally left) := by
  obtain ⟨-, jumped, sk, ss, skipped, -, -, rfl⟩ := newChain_ok s left frame done
  obtain ⟨place', reached⟩ := at_.leaps skipped
  refine ⟨ss, ?_, rfl, ?_⟩
  · change some (S.kdfRk jumped.rk ss).2 = some (S.kdfRk (T.root turn) ss).2
    rw [reached.root]
  · intro owned isSecret isPub
    have foreign : side.owns (turn + 1) = false := by rw [owns_succ, owned]; rfl
    refine ⟨reached.sid, ?_, ?_, fun sent found => ?_, fun none => ?_, fun last found => ?_,
      fun none => ?_, ?_⟩
    · change (S.kdfRk jumped.rk ss).1 = (S.kdfRk (T.root turn) (T.capsule (turn + 1)).2).1
      rw [reached.root, isSecret]
    · rw [foreign]
      rfl
    · rw [sendTurn_succ side turn owned] at found
      have sends := reached.sends sent ((sendTurn_owned side turn owned).trans found)
      exact ⟨sends.chain, sends.number, sends.former, sends.pub, sends.sec,
      sends.drawn, sends.capsule, sends.front⟩
    · rw [sendTurn_succ side turn owned] at none
      exact absurd none (by simp)
    · cases Option.some.inj ((receiveTurn_foreign side _ foreign).symm.trans found)
      refine ⟨?_, rfl, isPub⟩
      change some (S.kdfRk jumped.rk ss).2 =
        some (S.kdfRk (T.root turn) (T.capsule (turn + 1)).2).2
      rw [reached.root, isSecret]
    · rw [receiveTurn_foreign side _ foreign] at none
      exact absurd none (by simp)
    · intro name found listed
      obtain ⟨turn', place'', passed, isName, isKey⟩ := reached.kept name found listed
      exact ⟨turn', place'', passed.step owned, isName, isKey⟩

/-! ### A frame is opened once -/

/-- No stored key is this one. -/
def Session.Lacks (s : Session S) (key : S.Key) : Prop :=
  ∀ name found, s.skipped.lookup name = some found → found ≠ key

/-- The places that a jump stores were not passed before it. -/
def Thread.Stores (T : Thread S) (side : Side) (turn place : Nat) (s left : Session S) : Prop :=
  ∀ name found, left.skipped.lookup name = some found → s.skipped.lookup name = some found ∨
    ∃ turn' place', found = T.key turn' place' ∧ ¬ Passed side turn place turn' place'

theorem Thread.Stores.lacks (ideal : S.Ideal) (fresh : T.Fresh)
    (stores : T.Stores side turn place s left)
    (passed : Passed side turn place turn' place') (lacks : s.Lacks (T.key turn' place')) :
    left.Lacks (T.key turn' place') := by
  intro name found listed isKey
  obtain earlier | ⟨turn'', place'', isOther, ahead⟩ := stores name found listed
  · exact lacks name found earlier isKey
  · obtain ⟨rfl, rfl⟩ := key_injective ideal fresh (isOther.symm.trans isKey)
    exact ahead passed

/-- What an authentic frame of a place does to the party that opens it. -/
structure Thread.Opens (T : Thread S) (side : Side) (turn place : Nat) (s : Session S)
    (turn₁ place₁ : Nat) (left : Session S) (turn' place' : Nat) : Prop where
  passes : Passed side turn₁ place₁ turn' place'
  keeps : ∀ t p, Passed side turn place t p → Passed side turn₁ place₁ t p
  used : left.Lacks (T.key turn' place')
  lacks : ∀ t p, Passed side turn place t p → s.Lacks (T.key t p) → left.Lacks (T.key t p)
  once : Passed side turn place turn' place' → ¬ s.Lacks (T.key turn' place')

/-- A stored key is used up. -/
theorem Thread.At.opens_stored (ideal : S.Ideal) (fresh : T.Fresh) {name : Bytes}
    (at_ : T.At side turn place tally s) (found : s.skipped.lookup name = some (T.key turn' place')) :
    T.At side turn place tally { s with skipped := s.skipped.erase name } ∧
      T.Opens side turn place s turn place { s with skipped := s.skipped.erase name } turn' place' := by
  have fewer : ∀ other key, (s.skipped.erase name).lookup other = some key →
      other ≠ name ∧ s.skipped.lookup other = some key := by
    intro other key listed
    rw [lookup_erase] at listed
    split at listed
    · exact absurd listed (by simp)
    · rename_i different
      exact ⟨different, listed⟩
  obtain ⟨turn'', place'', passed, isName, isKey⟩ := at_.kept name _ found
  obtain ⟨rfl, rfl⟩ := key_injective ideal fresh isKey
  constructor
  · refine ⟨at_.sid, at_.root, at_.step, fun sent isLast => ?_, at_.silent, fun last isLast => ?_,
      at_.deaf, fun other key listed => at_.kept other key (fewer other key listed).2⟩
    · have sends := at_.sends sent isLast
      exact ⟨sends.chain, sends.number, sends.former, sends.pub, sends.sec,
      sends.drawn, sends.capsule, sends.front⟩
    · have receives := at_.receives last isLast
      exact ⟨receives.chain, receives.number, receives.pub⟩
  · refine ⟨passed, fun _ _ earlier => earlier, ?_, ?_, fun _ lacks => lacks name _ found rfl⟩
    · intro other key listed isSame
      obtain ⟨different, earlier⟩ := fewer other key listed
      obtain ⟨turn'', place'', -, isOther, isKey'⟩ := at_.kept other key earlier
      obtain ⟨rfl, rfl⟩ := key_injective ideal fresh (isSame.symm.trans isKey')
      exact different (isOther.trans isName.symm)
    · intro t p _ lacks other key listed
      exact lacks other key (fewer other key listed).2

/-- A jump stores places ahead only. -/
theorem Jumped.places (jumped : Jumped s left (T.chain last place) count) :
    ∀ name found, left.skipped.lookup name = some found → s.skipped.lookup name = some found ∨
      ∃ step, step < count ∧ found = T.key last (place + step) := by
  intro name found listed
  obtain earlier | ⟨step, less, -, isKey⟩ := jumped.stored name found listed
  · exact .inl earlier
  · refine .inr ⟨step, less, isKey.trans ?_⟩
    exact congrArg S.schedule.message (walk_add _ _ _ _).symm

theorem not_passed_ahead {step : Nat}
    (receiving : side.receiveTurn turn = some last) : ¬ Passed side turn place last (place + step) := by
  rintro ⟨latest, isLatest, -, order⟩
  cases Option.some.inj (receiving.symm.trans isLatest)
  omega

/-- The next key of the chain, after a jump. -/
theorem Thread.At.opens_along (ideal : S.Ideal) (fresh : T.Fresh)
    (at_ : T.At side turn place tally s)
    (receiving : side.receiveTurn turn = some last) (advanced : Advanced s left frame mk) :
    ∃ count, mk = T.key last (place + count) ∧ T.At side turn (place + count + 1) tally left ∧
      T.Opens side turn place s turn (place + count + 1) left last (place + count) := by
  obtain ⟨isKey, reached⟩ := at_.advanced receiving advanced
  refine ⟨_, isKey, reached, ?_⟩
  obtain ⟨middle, skipped, -, rfl⟩ := advanced.next
  have stored := (skipTo_ok s middle _ _ (at_.receives last receiving).chain skipped).places
  have foreign := (receiveTurn_some side turn last receiving).1
  refine ⟨⟨last, receiving, foreign, .inr ⟨rfl, Nat.lt_succ_self _⟩⟩, ?_, ?_, ?_, ?_⟩
  · rintro t p ⟨latest, isLatest, isForeign, order⟩
    exact ⟨latest, isLatest, isForeign, order.imp_right (fun same => ⟨same.1, by omega⟩)⟩
  · intro name found listed isUsed
    obtain earlier | ⟨step, less, isKey⟩ := stored name found listed
    · obtain ⟨t, p, passed, -, isKey⟩ := at_.kept name found earlier
      obtain ⟨rfl, rfl⟩ := key_injective ideal fresh (isUsed.symm.trans isKey)
      exact not_passed_ahead receiving passed
    · obtain ⟨-, same⟩ := key_injective ideal fresh (isUsed.symm.trans isKey)
      omega
  · intro t p passed lacks
    refine Thread.Stores.lacks ideal fresh (fun name found listed => ?_) passed lacks
    exact (stored name found listed).imp_right
      (fun ⟨step, _, isKey⟩ => ⟨last, place + step, isKey, not_passed_ahead receiving⟩)
  · exact fun passed => absurd passed (not_passed_ahead receiving)

/-- The first key used on the chain of the peer's next step. -/
theorem Thread.At.opens_fresh (ideal : S.Ideal) (fresh : T.Fresh) {between : Session S}
    (at_ : T.At side turn place tally s) (turned : newChain s frame = .ok between)
    (advanced : Advanced between left frame (T.key turn' place')) (isPub : frame.rkPub = T.pub turn') :
    turn' = turn + 1 ∧ (side.owns turn = true → T.At side (turn + 1) (place' + 1) tally left ∧
      T.Opens side turn place s (turn + 1) (place' + 1) left turn' place') := by
  obtain ⟨ss, chain, zero, reach⟩ := at_.turned turned
  obtain ⟨middle, skipped, isKey, -⟩ := advanced.next
  obtain ⟨jump, -⟩ := skipTo_ok between middle _ _ chain skipped
  obtain ⟨kept, rfl⟩ := jump
  have sameKey : S.schedule.message (walk S.schedule (S.schedule.chain (T.root turn) ss)
      (frame.n.toUInt32.toNat - between.nr.toNat)) = T.key turn' place' := isKey.symm
  obtain ⟨rfl, isSecret, -⟩ := message_walk_chain ideal.exact fresh sameKey
  refine ⟨rfl, fun owned => ?_⟩
  have foreign : side.owns (turn + 1) = false := by rw [owns_succ, owned]; rfl
  have reached := reach owned isSecret isPub
  obtain ⟨count, isUsed, final, opens⟩ := reached.opens_along ideal fresh
    (receiveTurn_foreign side _ foreign) advanced
  obtain ⟨-, isPlace⟩ := key_injective ideal fresh isUsed
  rw [Nat.zero_add] at isPlace final opens
  cases isPlace
  refine ⟨final, ⟨opens.passes, fun t p passed => opens.keeps t p (passed.step owned), opens.used,
    fun t p passed lacks => opens.lacks t p (passed.step owned) ?_, ?_⟩⟩
  · obtain ⟨-, jumped, sk, ss, skippedOld, -, -, rfl⟩ := newChain_ok s between frame turned
    refine Thread.Stores.lacks ideal fresh (fun name found listed => ?_) passed lacks
    cases receiving : side.receiveTurn turn with
    | none => exact .inl ((skipTo_none s jumped _ (at_.deaf receiving).1 skippedOld) ▸ listed)
    | some last =>
      have stored := (skipTo_ok s jumped _ _ (at_.receives last receiving).chain skippedOld).places
      exact (stored name found listed).imp_right
        (fun ⟨step, _, isKey⟩ => ⟨last, place + step, isKey, not_passed_ahead receiving⟩)
  · rintro ⟨last, isLast, -, order⟩
    have within := (receiveTurn_some side turn last isLast).2.1
    omega

/-! ### Sending -/

theorem sendTurn_some (side : Side) (turn last : Nat) (found : side.sendTurn turn = some last) :
    side.owns last = true ∧ last ≤ turn := by
  unfold Side.sendTurn at found
  split at found
  · rename_i owned
    cases Option.some.inj found
    exact ⟨owned, Nat.le_refl _⟩
  · rename_i foreign
    cases turn with
    | zero => exact absurd found (by simp)
    | succ earlier =>
      cases Option.some.inj found
      rw [owns_succ] at foreign
      exact ⟨by simpa using foreign, Nat.le_succ _⟩

/-- How many messages the chain before has does not depend on the other side's steps. -/
theorem before_congr (owned : side.owns turn = true)
    (same : ∀ turn', side.owns turn' = true → turn' + 2 ≤ turn → tally' turn' = tally turn') :
    before tally' turn = before tally turn := by
  unfold before
  split
  · rfl
  · rename_i late
    obtain ⟨earlier, rfl⟩ : ∃ earlier, turn = earlier + 2 := ⟨turn - 2, by omega⟩
    rw [owns_succ, owns_succ, Bool.not_not] at owned
    exact same earlier owned (Nat.le_refl _)

/-- A session does not depend on how many messages the peer has sent. -/
theorem Thread.At.congr (at_ : T.At side turn place tally s)
    (same : ∀ turn', side.owns turn' = true → tally' turn' = tally turn') :
    T.At side turn place tally' s := by
  refine ⟨at_.sid, at_.root, at_.step, fun last found => ?_, at_.silent, at_.receives, at_.deaf, at_.kept⟩
  obtain ⟨owned, -⟩ := sendTurn_some side turn last found
  have sends := at_.sends last found
  have count := same last owned
  have former := before_congr owned (fun turn' owned _ => same turn' owned)
  exact ⟨count ▸ sends.chain, count ▸ sends.number, former ▸ sends.former, sends.pub, sends.sec,
    sends.drawn, sends.capsule, sends.front⟩

/-- The step before a message, when one is needed, is the next step of the session. -/
theorem Thread.At.stepped {steps : Nat} {iv : Bytes} (at_ : T.At side turn place tally s)
    (late : s.needStep = true → turn = steps) (unmade : tally (steps + 1) = 0)
    (done : ratchetStep s ⟨(T.seeds (steps + 1)).1, (T.seeds (steps + 1)).2, iv⟩ = .ok left) :
    ∃ turn₁, turn₁ = (if s.needStep then turn + 1 else turn) ∧ side.owns turn₁ = true ∧
      T.At side turn₁ place tally left ∧ left.skipped = s.skipped ∧
      side.receiveTurn turn₁ = side.receiveTurn turn := by
  unfold ratchetStep at done
  cases needed : s.needStep with
  | false =>
    rw [needed, if_pos rfl] at done
    cases Except.ok.inj done
    have owned := at_.step
    rw [needed] at owned
    exact ⟨turn, rfl, by simpa using owned.symm, at_, rfl, rfl⟩
  | true =>
    rw [needed, if_neg (by simp)] at done
    cases late needed
    have foreign : side.owns turn = false := by
      have step := at_.step
      rw [needed] at step
      simpa using step.symm
    have owned : side.owns (turn + 1) = true := by rw [owns_succ, foreign]; rfl
    have receiving := receiveTurn_foreign side turn foreign
    have receives := at_.receives turn receiving
    have still : side.receiveTurn (turn + 1) = side.receiveTurn turn :=
      (receiveTurn_succ side turn foreign).trans receiving.symm
    cases capsule : S.encaps s.peerRk (T.seeds (turn + 1)).1 with
    | none =>
      rw [capsule] at done
      exact absurd done (by simp)
    | some encapsulated =>
      cases pair : S.keypair (T.seeds (turn + 1)).2 with
      | none =>
        rw [capsule, pair] at done
        exact absurd done (by simp)
      | some keys =>
        rw [capsule, pair] at done
        cases Except.ok.inj done
        rw [receives.pub] at capsule
        have isPair : T.pair (turn + 1) = keys := by
          unfold Thread.pair
          rw [pair]
          rfl
        have isCapsule : T.capsule (turn + 1) = encapsulated := by
          unfold Thread.capsule
          rw [Nat.add_sub_cancel, capsule]
          rfl
        have rooted : T.root (turn + 1) = (S.kdfRk (T.root turn) encapsulated.2).1 := by
          rw [← isCapsule]
          rfl
        have headed : T.chain (turn + 1) 0 = (S.kdfRk (T.root turn) encapsulated.2).2 := by
          rw [← isCapsule]
          rfl
        refine ⟨turn + 1, rfl, owned, ?_, rfl, still⟩
        refine ⟨at_.sid, ?_, ?_, fun last found => ?_, fun none => ?_, fun last found => ?_,
          fun none => ?_, ?_⟩
        · rw [rooted, at_.root]
        · rw [owned]
          rfl
        · cases Option.some.inj ((sendTurn_owned side _ owned).symm.trans found)
          refine ⟨?_, ?_, ?_, ?_, ?_, ?_, fun _ => ⟨?_, ?_, ?_⟩, fun zero => absurd zero (by simp)⟩
          · rw [unmade, headed, at_.root]
          · rw [unmade]
            rfl
          · change s.ns = UInt32.ofNat (before tally (turn + 1))
            unfold before
            cases turn with
            | zero =>
              have none : side.sendTurn 0 = none := by
                unfold Side.sendTurn
                rw [foreign]
                rfl
              rw [(at_.silent none).2.2]
              rfl
            | succ earlier =>
              have sent : side.sendTurn (earlier + 1) = some earlier := by
                unfold Side.sendTurn
                rw [foreign]
                rfl
              rw [(at_.sends earlier sent).number, if_neg (by omega)]
              rfl
          · exact (congrArg Prod.fst isPair).symm
          · exact (congrArg Prod.snd isPair).symm
          · rw [isPair]
            exact pair
          · rw [isCapsule, Nat.add_sub_cancel]
            exact capsule
          · rw [isCapsule]
          · rw [Nat.add_sub_cancel, ← receives.pub]
        · exact absurd ((sendTurn_owned side _ owned).symm.trans none) (by simp)
        · cases Option.some.inj ((receiveTurn_succ side turn foreign).symm.trans found)
          exact ⟨receives.chain, receives.number, receives.pub⟩
        · exact absurd ((receiveTurn_succ side turn foreign).symm.trans none) (by simp)
        · intro name found listed
          obtain ⟨turn', place', passed, isName, isKey⟩ := at_.kept name found listed
          exact ⟨turn', place', passed.congr still, isName, isKey⟩

/-- The counts once a message was sent on the chain of a step. -/
def counted (tally : Nat → Nat) (turn : Nat) : Nat → Nat :=
  Function.update tally turn (tally turn + 1)

theorem before_counted (tally : Nat → Nat) (turn turn' : Nat) (apart : turn' ≠ turn + 2) :
    before (counted tally turn) turn' = before tally turn' := by
  unfold before counted
  split
  · rfl
  · rw [Function.update_of_ne]
    omega

/-- A message uses the next key of the sending chain. -/
theorem Thread.At.sent
    {ck : S.Key} (at_ : T.At side turn place tally s) (owned : side.owns turn = true)
    (chain : s.cks = some ck) :
    ck = T.chain turn (tally turn) ∧ T.At side turn place (counted tally turn)
      { s with cks := some (S.kdfCk (some ck)).2, ns := s.ns + 1 } := by
  have sending := sendTurn_owned side turn owned
  have sends := at_.sends turn sending
  have isKey : ck = T.chain turn (tally turn) := Option.some.inj (chain.symm.trans sends.chain)
  refine ⟨isKey, at_.sid, at_.root, at_.step, fun last found => ?_,
    fun none => absurd (sending.symm.trans none) (by simp), fun last found => ?_, at_.deaf, at_.kept⟩
  · cases Option.some.inj (sending.symm.trans found)
    have count : counted tally turn turn = tally turn + 1 := Function.update_self _ _ _
    refine ⟨?_, ?_, ?_, sends.pub, sends.sec, sends.drawn, sends.capsule, sends.front⟩
    · rw [count, isKey]
      rfl
    · rw [count, sends.number, UInt32.ofNat_add]
      rfl
    · rw [before_counted _ _ _ (by omega)]
      exact sends.former
  · have receives := at_.receives last found
    exact ⟨receives.chain, receives.number, receives.pub⟩

end PqSession

end Addition
