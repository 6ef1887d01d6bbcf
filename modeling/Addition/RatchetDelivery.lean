import Addition.RatchetRuns
import Addition.SymbolicSuite

/-!
# Every frame that comes is opened

When frames are only lost, delayed, repeated and reordered, a frame of the peer that was not
opened before is opened, however late it comes. Its key lies ahead on the chain, on the
chain of the peer's next step, or among the stored keys, which are complete as long as they
are at most 256.
-/

namespace Addition

namespace PqSession

open ByteStrings Checked FiniteTables KeySchedules

variable {S : Suite}

/-! ### Jumps without eviction -/

theorem add_ofNat_toNat (word : UInt32) (count : Nat) (narrow : word.toNat + count < 2 ^ 32) :
    (word + UInt32.ofNat count).toNat = word.toNat + count := by
  rw [UInt32.toNat_add, UInt32.toNat_ofNat']
  omega

/-- Other names keep what they have. -/
theorem skipMany_other (count : Nat) (s : Session S) (name : Bytes)
    (away : ∀ place < count, name ≠ skipName (S := S) s.peerRk (s.nr + UInt32.ofNat place).toNat) :
    (skipMany count s).skipped.lookup name = s.skipped.lookup name := by
  induction count generalizing s with
  | zero => rfl
  | succ count ih =>
    rw [skipMany, ih]
    · have first := away 0 (Nat.succ_pos _)
      simp only [skipOne]
      rw [lookup_insert, if_neg]
      intro same
      exact first (same.trans (by simp))
    · intro place less
      have next := away (place + 1) (Nat.succ_lt_succ less)
      rw [← UInt32.add_one_ofNat] at next
      exact next

/-- Every place that a jump passes is stored. -/
theorem skipMany_place (ideal : S.Ideal) (count : Nat) (s : Session S) (key : S.Key)
    (chain : s.ckr = some key) (narrow : s.nr.toNat + count < 2 ^ 32) (place : Nat) (less : place < count) :
    (skipMany count s).skipped.lookup (skipName (S := S) s.peerRk (s.nr.toNat + place)) =
      some (S.schedule.message (walk S.schedule key place)) := by
  induction count generalizing s key place with
  | zero => exact absurd less (Nat.not_lt_zero _)
  | succ count ih =>
    have number : (skipOne s).nr.toNat = s.nr.toNat + 1 := add_ofNat_toNat s.nr 1 (by omega)
    have next : (skipOne s).ckr = some (S.schedule.next key) := by
      simp only [skipOne, chain]
      rfl
    rw [skipMany]
    cases place with
    | zero =>
      rw [skipMany_other]
      · simp only [skipOne]
        rw [lookup_insert, Nat.add_zero, if_pos rfl, chain]
        rfl
      · intro later less same
        have apart := (skipName_injective ideal same).2
        rw [add_ofNat_toNat _ _ (by omega), number] at apart
        omega
    | succ place =>
      have rest := ih (skipOne s) (S.schedule.next key) next (by omega) place (by omega)
      rw [number, walk_next] at rest
      rw [← rest]
      exact congrArg (fun n => (skipMany count (skipOne s)).skipped.lookup
        (skipName (S := S) s.peerRk n)) (by omega)

theorem skipMany_size (count : Nat) (s : Session S) :
    (skipMany count s).skipped.keys.length ≤ s.skipped.keys.length + count := by
  induction count generalizing s with
  | zero => exact Nat.le_refl _
  | succ count ih =>
    have rest := ih (skipOne s)
    have one : (skipOne s).skipped.keys.length ≤ s.skipped.keys.length + 1 := by
      simp only [skipOne, AList.keys, List.keys, AList.entries_insert, List.length_map, List.length_cons]
      exact Nat.succ_le_succ (List.kerase_sublist _ _).length_le
    rw [skipMany]
    omega

/-- A jump that leaves at most 256 stored keys evicts none. -/
theorem skipTo_roomy (s : Session S) (bound : UInt32) (key : S.Key) (chain : s.ckr = some key)
    (room : s.skipped.keys.length + (bound.toNat - s.nr.toNat) ≤ 256) :
    skipTo s bound = .ok (skipMany (bound.toNat - s.nr.toNat) s) := by
  have size := skipMany_size (bound.toNat - s.nr.toNat) s
  unfold skipTo
  rw [chain]
  simp only [Option.isNone_some, Bool.false_eq_true, ↓reduceIte]
  rw [if_neg (by omega)]
  have none : (skipMany (bound.toNat - s.nr.toNat) s).skipped.keys.length - 256 = 0 := by omega
  simp only [trim, none, evict]

theorem skipTo_size (s left : Session S) (bound : UInt32)
    (room : s.skipped.keys.length + (if s.ckr.isNone then 0 else bound.toNat - s.nr.toNat) ≤ 256)
    (done : skipTo s bound = .ok left) : left.skipped.keys.length ≤
      s.skipped.keys.length + (if s.ckr.isNone then 0 else bound.toNat - s.nr.toNat) := by
  cases chain : s.ckr with
  | none => exact skipTo_none s left bound chain done ▸ Nat.le_add_right _ _
  | some key =>
    rw [chain] at room
    rw [skipTo_roomy s bound key chain room] at done
    exact Except.ok.inj done ▸ skipMany_size _ s

/-! ### Deliveries that leave room -/

/-- How many keys a frame makes a session store. -/
def jump (s : Session S) (frame : MessageFrame S) : Nat :=
  if (s.skipped.lookup (skipName (S := S) frame.rkPub frame.n.toUInt32.toNat)).isSome then 0
  else if frame.rkPub = s.peerRk then frame.n.toUInt32.toNat - s.nr.toNat
  else (if s.ckr.isNone then 0 else frame.pn.toUInt32.toNat - s.nr.toNat) + frame.n.toUInt32.toNat

/-- At most 256 skipped keys are outstanding once the frame is opened. -/
def Roomy (s : Session S) (frame : MessageFrame S) : Prop :=
  s.skipped.keys.length + jump s frame ≤ 256

/-- Deliveries of a network that forges nothing. -/
def Honest (w : World S) (side : Side) (frame : Frame S) : Prop :=
  ∃ sent ∈ w.sent, sent.side = side.other ∧ sent.frame = frame

/-- Deliveries of such a network that leave room for the skipped keys. -/
def Thread.Patient (T : Thread S) (w : World S) (side : Side) (frame : Frame S) : Prop :=
  Honest w side frame ∧ ∀ later, frame = .message later → ∀ s, w.session T side = some s → Roomy s later

/-- A chain has fewer messages than its counter has values, and a new ratchet key is new. -/
def Thread.Brief (T : Thread S) (w : World S) (side : Side) : Prop :=
  ∀ s, w.session T side = some s →
    (s.needStep = false → s.ns.toNat + 1 < 2 ^ 32) ∧
    (s.needStep = true → ∀ turn ≤ w.steps, T.pub turn ≠ T.pub (w.steps + 1))

variable {T : Thread S} {place' : Nat} {sent : Sent S} {tally : Nat → Nat} {turn' : Nat}
  {place : Side → Nat} {s : Session S} {side : Side} {turn : Side → Nat} {w : World S}
  {frame : MessageFrame S} {between : Session S} {last : Nat} {device : Device S} {left : Session S}
  {text : Bytes} {turn₁ place₁ : Nat} {now : UInt64} {name : Bytes}

theorem Thread.Wrote.unique (ideal : S.Ideal) (fresh : T.Fresh) {tally' : Nat → Nat}
    {turn place : Nat} (wrote : T.Wrote tally sent turn place)
    (wrote' : T.Wrote tally' sent turn' place') : turn = turn' ∧ place = place' := by
  unfold Thread.Wrote at wrote wrote'
  cases kind : sent.frame with
  | init frame =>
    rw [kind] at wrote wrote'
    exact ⟨wrote.1.trans wrote'.1.symm, wrote.2.1.trans wrote'.2.1.symm⟩
  | message frame =>
    rw [kind] at wrote wrote'
    exact key_injective ideal fresh
      (ideal.aead_injective (wrote.sealed_.symm.trans wrote'.sealed_)).1

/-- What the stored keys have to be for every frame to open. -/
structure Thread.Complete (T : Thread S) (w : World S) (turn place : Side → Nat) (tally : Nat → Nat) :
    Prop where
  brief : ∀ turn', tally turn' < 2 ^ 32
  distinct : ∀ turn' turn'', turn' ≤ w.steps → turn'' ≤ w.steps → T.pub turn' = T.pub turn'' →
    turn' = turn''
  less : ∀ sent ∈ w.sent, ∀ turn' place', T.Wrote tally sent turn' place' → place' < tally turn'
  single : ∀ sent ∈ w.sent, ∀ sent' ∈ w.sent, ∀ turn' place', T.Wrote tally sent turn' place' →
    T.Wrote tally sent' turn' place' → sent = sent'
  within : ∀ side s last, w.session T side = some s → side.receiveTurn (turn side) = some last →
    place side ≤ tally last
  kept : ∀ side s, w.session T side = some s → ∀ sent ∈ w.sent, sent.side = side.other →
    ∀ turn' place', T.Wrote tally sent turn' place' → Passed side (turn side) (place side) turn' place' →
      (side, sent.frame) ∉ w.opened →
        s.skipped.lookup (skipName (S := S) (T.pub turn') place') = some (T.key turn' place')

/-! ### A frame that was not opened opens -/

/-- The peer's steps that a party knows lie up to the chain on which it receives. -/
theorem receiveTurn_covers (side : Side) (turn turn' : Nat) (foreign : side.owns turn' = false)
    (known : turn' ≤ turn) : ∃ last, side.receiveTurn turn = some last ∧ turn' ≤ last := by
  cases owner : side.owns turn with
  | false => exact ⟨turn, receiveTurn_foreign side turn owner, known⟩
  | true =>
    have different : turn' ≠ turn := by
      rintro rfl
      exact absurd (foreign.symm.trans owner) (by simp)
    obtain ⟨earlier, rfl⟩ : ∃ earlier, turn = earlier + 1 := ⟨turn - 1, by omega⟩
    rw [owns_succ] at owner
    exact ⟨earlier, receiveTurn_succ side earlier (by simpa using owner), by omega⟩

theorem word_toNat (place : Nat) (narrow : place < 2 ^ 32) :
    (UInt32.ofNat place).toUInt64.toUInt32.toNat = place := by
  rw [UInt32.toUInt32_toUInt64, UInt32.toNat_ofNat', Nat.mod_eq_of_lt narrow]

/-- A place that was not passed has no stored key. -/
theorem Thread.Complete.absent (ideal : S.Ideal)
    (joint : T.Joint w turn place tally) (complete : T.Complete w turn place tally)
    (session : w.session T side = some s) (made : turn' ≤ w.steps)
    (ahead : ¬ Passed side (turn side) (place side) turn' place') :
    s.skipped.lookup (skipName (S := S) (T.pub turn') place') = none := by
  cases listed : s.skipped.lookup (skipName (S := S) (T.pub turn') place') with
  | none => rfl
  | some found =>
    obtain ⟨turn'', place'', ⟨last, isLast, foreign, order⟩, isName, -⟩ :=
      (joint.holds side s session).kept _ found listed
    have known : turn'' ≤ w.steps := by
      have most := (receiveTurn_some side _ _ isLast).2.1
      have seen := (joint.alternate side).1
      omega
    obtain ⟨samePub, samePlace⟩ := skipName_injective ideal isName
    cases complete.distinct turn' turn'' made known samePub
    refine absurd ⟨last, isLast, foreign, order.imp_right (fun same => ⟨same.1, ?_⟩)⟩ ahead
    have bound := complete.within side s last session isLast
    have brief := complete.brief last
    rw [Nat.mod_eq_of_lt (by omega)] at samePlace
    omega

/-- The ratchet key of the peer's next step is not the known one. -/
theorem Thread.Complete.unknown
    (joint : T.Joint w turn place tally) (complete : T.Complete w turn place tally)
    (session : w.session T side = some s)
    (made : turn side + 1 ≤ w.steps) (present : T.pub (turn side + 1) ≠ []) :
    T.pub (turn side + 1) ≠ s.peerRk := by
  have at_ := joint.holds side s session
  cases receiving : side.receiveTurn (turn side) with
  | none =>
    rw [(at_.deaf receiving).2]
    exact present
  | some last =>
    rw [(at_.receives last receiving).pub]
    intro same
    have most := (receiveTurn_some side _ _ receiving).2.1
    have equal := complete.distinct _ _ made (by omega) same
    omega

theorem chooseKey_stored {mk : S.Key}
    (found : s.skipped.lookup (skipName (S := S) frame.rkPub frame.n.toUInt32.toNat) = some mk) :
    ∃ left, chooseKey s frame = .ok (mk, left) := by
  unfold chooseKey
  rw [found]
  exact ⟨_, rfl⟩

/-- A place ahead on the chain is reached when there is room for the places before it. -/
theorem Thread.At.reaches {turn place : Nat}
    (at_ : T.At side turn place tally between) (receiving : side.receiveTurn turn = some last)
    (absent : s.skipped.lookup (skipName (S := S) frame.rkPub frame.n.toUInt32.toNat) = none)
    (chain : chainOf s frame = .ok between) (number : frame.n.toUInt32.toNat = place')
    (ahead : place ≤ place') (narrow : place < 2 ^ 32)
    (room : between.skipped.keys.length + (place' - place) ≤ 256) :
    ∃ left, chooseKey s frame = .ok (T.key last place', left) := by
  have receives := at_.receives last receiving
  have counter : between.nr.toNat = place := by
    rw [receives.number, UInt32.toNat_ofNat', Nat.mod_eq_of_lt narrow]
  have later : between.nr ≤ frame.n.toUInt32 := by
    rw [UInt32.le_iff_toNat_le]
    omega
  have skipped := skipTo_roomy between frame.n.toUInt32 _ receives.chain (by rw [number, counter]; exact room)
  have chosen := chooseKey_some absent chain later skipped
  have advanced : Advanced between _ frame _ := ⟨later, _, skipped, rfl, rfl⟩
  obtain ⟨isKey, -⟩ := at_.advanced receiving advanced
  rw [isKey, number, counter, Nat.add_sub_cancel' ahead] at chosen
  exact ⟨_, chosen⟩

/-- The chain of the peer's next step is reached when there is room for what is left behind. -/
theorem Thread.At.turns (ideal : S.Ideal) {turn place : Nat}
    (at_ : T.At side turn place tally s) (owner : side.owns turn = true)
    (isPub : frame.rkPub = T.pub (turn + 1))
    (capsule : S.encaps (T.pub turn) (T.seeds (turn + 1)).1 = some (T.capsule (turn + 1)))
    (isCapsule : frame.stepCt = (T.capsule (turn + 1)).1) (isStep : frame.stepTo = S.h32 (T.pub turn))
    (room : s.skipped.keys.length +
      (if s.ckr.isNone then 0 else frame.pn.toUInt32.toNat - s.nr.toNat) ≤ 256) :
    ∃ jumped between, skipTo s frame.pn.toUInt32 = .ok jumped ∧ between.skipped = jumped.skipped ∧
      jumped.skipped.keys.length ≤ s.skipped.keys.length +
        (if s.ckr.isNone then 0 else frame.pn.toUInt32.toNat - s.nr.toNat) ∧
      newChain s frame = .ok between ∧ T.At side (turn + 1) 0 tally between := by
  have sends := at_.sends turn (sendTurn_owned side turn owner)
  have skips : ∃ jumped, skipTo s frame.pn.toUInt32 = .ok jumped ∧
      jumped.myPub = s.myPub ∧ jumped.mySk = s.mySk ∧ jumped.rk = s.rk ∧
      jumped.skipped.keys.length ≤ s.skipped.keys.length +
        (if s.ckr.isNone then 0 else frame.pn.toUInt32.toNat - s.nr.toNat) := by
    cases chain : s.ckr with
    | none =>
      refine ⟨s, ?_, rfl, rfl, rfl, by simp⟩
      unfold skipTo
      rw [chain]
      rfl
    | some key =>
      rw [chain] at room
      obtain ⟨kept, same⟩ :=
        (skipMany_jumped (frame.pn.toUInt32.toNat - s.nr.toNat) s key chain).same
      refine ⟨_, skipTo_roomy s _ key chain room, ?_, ?_, ?_, skipMany_size _ s⟩
      · rw [same]
      · rw [same]
      · rw [same]
  obtain ⟨jumped, skipped, samePub, sameSk, sameRoot, size⟩ := skips
  have present : T.pub turn ≠ [] := ideal.keypair_some sends.drawn
  have key : stepKey jumped frame.stepTo = some (T.sec turn) := by
    unfold stepKey
    rw [samePub, sends.pub, sameSk, sends.sec, isStep, if_pos]
    simpa using present
  have decapsed : S.decaps (T.sec turn) frame.stepCt = some (T.capsule (turn + 1)).2 :=
    isCapsule ▸ ideal.agreement sends.drawn capsule
  obtain ⟨between, turned, sameKeys, isChain⟩ : ∃ between, newChain s frame = .ok between ∧
      between.skipped = jumped.skipped ∧
      between.ckr = some (S.kdfRk jumped.rk (T.capsule (turn + 1)).2).2 :=
    ⟨_, newChain_some (isCapsule ▸ ideal.encaps_some capsule) skipped key decapsed, rfl, rfl⟩
  refine ⟨jumped, between, skipped, sameKeys, size, turned, ?_⟩
  obtain ⟨ss, chain, -, reach⟩ := at_.turned turned
  refine reach owner ?_ isPub
  have isRoot : jumped.rk = T.root turn := sameRoot.trans at_.root
  have same : S.schedule.chain (T.root turn) (T.capsule (turn + 1)).2 =
      S.schedule.chain (T.root turn) ss := by
    have heads := Option.some.inj (isChain.symm.trans chain)
    rwa [isRoot] at heads
  exact (ideal.exact.chain_injective same).2.symm

theorem Thread.Complete.opens (ideal : S.Ideal)
    (joint : T.Joint w turn place tally) (complete : T.Complete w turn place tally)
    (member : sent ∈ w.sent)
    (isSide : sent.side = side.other) (isFrame : sent.frame = .message frame)
    (session : w.session T side = some s) (unopened : (side, .message frame) ∉ w.opened)
    (roomy : Roomy s frame) : ∃ left, decryptLocked s frame = .ok (sent.text, left) := by
  have at_ := joint.holds side s session
  obtain ⟨turn', place', wrote, owned, made⟩ := joint.sent sent member
  have less := complete.less sent member turn' place' wrote
  have brief := complete.brief turn'
  have written : T.WroteMessage tally frame sent.text turn' place' := by
    have wrote := wrote
    unfold Thread.Wrote at wrote
    rw [isFrame] at wrote
    exact wrote
  have number : frame.n.toUInt32.toNat = place' := by
    rw [written.number]
    exact word_toNat place' (by omega)
  have opened : S.aeadOpen (T.key turn' place') frame.iv frame.aad frame.ct = some sent.text :=
    (ideal.aead_exact _ _ _ _ _).mpr written.sealed_
  have foreign : side.owns turn' = false := by
    rw [isSide, owns_other] at owned
    simpa using owned
  have known : turn' ≤ w.steps := by
    have steps := (joint.alternate side.other).1
    rw [isSide] at made
    omega
  suffices chosen : ∃ left, chooseKey s frame = .ok (T.key turn' place', left) by
    obtain ⟨left, chosen⟩ := chosen
    exact ⟨left, decryptLocked_some chosen opened⟩
  by_cases passed : Passed side (turn side) (place side) turn' place'
  · apply chooseKey_stored
    rw [written.pub, number]
    exact complete.kept side s session sent member isSide turn' place' wrote passed (by rwa [isFrame])
  · have absent : s.skipped.lookup (skipName (S := S) frame.rkPub frame.n.toUInt32.toNat) = none := by
      rw [written.pub, number]
      exact complete.absent ideal joint session known passed
    unfold Roomy jump at roomy
    rw [absent, if_neg (by simp), number] at roomy
    by_cases seen : turn' ≤ turn side
    · -- the chain of the frame is the one on which the party receives
      obtain ⟨last, receiving, most⟩ := receiveTurn_covers side (turn side) turn' foreign seen
      have isLast : turn' = last := by
        by_contra differs
        exact passed ⟨last, receiving, foreign, .inl (by omega)⟩
      cases isLast
      have ahead : place side ≤ place' := by
        by_contra behind
        exact passed ⟨turn', receiving, foreign, .inr ⟨rfl, by omega⟩⟩
      have receives := at_.receives turn' receiving
      have bound := complete.within side s turn' session receiving
      have isPub : frame.rkPub = s.peerRk := written.pub.trans receives.pub.symm
      have counter : s.nr.toNat = place side := by
        rw [receives.number, UInt32.toNat_ofNat', Nat.mod_eq_of_lt (by omega)]
      rw [if_pos isPub, counter] at roomy
      have same : chainOf s frame = .ok s := by
        unfold chainOf
        rw [if_neg (by simp [isPub])]
      exact at_.reaches receiving absent same number ahead (by omega) roomy
    · -- the frame is of the next step, which the peer has made
      have behind := (joint.alternate side).2.1
      have isNext : turn' = turn side + 1 := by omega
      cases isNext
      have owner : side.owns (turn side) = true := by
        rw [owns_succ] at foreign
        simpa using foreign
      have unknown : frame.rkPub ≠ s.peerRk := by
        rw [written.pub]
        exact complete.unknown joint session known (written.pub ▸ written.present)
      rw [if_neg unknown] at roomy
      obtain ⟨capsule, isCapsule, isStep⟩ := written.capsule (Nat.succ_pos _)
      rw [Nat.add_sub_cancel] at capsule isStep
      obtain ⟨jumped, between, -, sameKeys, size, turned, reached⟩ :=
        at_.turns ideal owner written.pub capsule isCapsule isStep (by omega)
      have chain : chainOf s frame = .ok between := by
        unfold chainOf
        rw [if_pos unknown, turned]
      exact reached.reaches (receiveTurn_foreign side _ foreign) absent chain number (Nat.zero_le _)
        (by decide) (by rw [sameKeys]; omega)

/-! ### The stored keys stay complete -/

theorem Started.complete (started : Started T w) :
    T.Complete w (fun _ => 0) (fun _ => 0) firstTally := by
  obtain ⟨former, peer, text, name, iv, now, frame, -, -, done, isSent⟩ := started.begun
  obtain ⟨idPk, idSk, mine, ct1, ss1, myPub, mySk, sig, -, -, -, -, -, -, isFrame, -⟩ := startFrame_ok done
  have first : ∀ sent ∈ w.sent, ∀ turn place, T.Wrote firstTally sent turn place →
      turn = 0 ∧ place = 0 := by
    intro sent member turn place wrote
    rw [isSent, List.mem_singleton] at member
    unfold Thread.Wrote at wrote
    rw [member, isFrame] at wrote
    exact ⟨wrote.1, wrote.2.1⟩
  have responder : ∀ s, w.session T .responder ≠ some s := fun s found =>
    absurd (started.absent.symm.trans found) (by simp)
  refine ⟨fun turn => ?_, fun turn turn' less less' _ => ?_, fun sent member turn place wrote => ?_,
    fun sent member sent' member' _ _ _ _ => ?_, fun side s last found receiving => ?_,
    fun side s found sent member isSide turn place wrote passed => ?_⟩
  · unfold firstTally
    split <;> decide
  · rw [started.steps] at less less'
    omega
  · obtain ⟨rfl, rfl⟩ := first sent member turn place wrote
    exact Nat.zero_lt_one
  · rw [isSent, List.mem_singleton] at member member'
    exact member.trans member'.symm
  · exact Nat.zero_le _
  · cases side with
    | initiator =>
      obtain ⟨last, isLast, -⟩ := passed
      exact absurd isLast (by simp [Side.receiveTurn, Side.sendTurn, Side.other, Side.owns])
    | responder => exact absurd found (responder s)

theorem tally_le_counted (tally : Nat → Nat) (turn turn' : Nat) : tally turn' ≤ counted tally turn turn' := by
  unfold counted
  rw [Function.update_apply]
  split
  · rename_i same
    rw [same]
    exact Nat.le_succ _
  · exact Nat.le_refl _

theorem Thread.Complete.wrote (ideal : S.Ideal)
    (joint : T.Joint w turn place tally) (complete : T.Complete w turn place tally)
    (brief : T.Brief w side) (session : w.session T side = some s)
    (saved : device.sessions.lookup T.sid = some left) (sameKeys : left.skipped = s.skipped)
    (isTurn : turn₁ = (if s.needStep then turn side + 1 else turn side))
    (owned : side.owns turn₁ = true) (still : side.receiveTurn turn₁ = side.receiveTurn (turn side))
    (wrote : T.WroteMessage (counted tally turn₁) frame text turn₁ (tally turn₁)) :
    T.Complete (w.wrote T side device frame text) (Function.update turn side turn₁) place
      (counted tally turn₁) := by
  have at_ := joint.holds side s session
  have after : w.stepsAfter T side = if s.needStep then w.steps + 1 else w.steps := by
    unfold World.stepsAfter
    rw [session]
  have latest : s.needStep = true → turn side = w.steps := by
    intro needed
    have step := at_.step
    rw [needed] at step
    exact (joint.alternate side).2.2 (by simpa using step.symm)
  obtain ⟨below, above, -⟩ := joint.alternate side
  have grown : turn side ≤ turn₁ := by
    rw [isTurn]
    split <;> omega
  have known : ∀ sent ∈ w.sent, ∀ turn' place', T.Wrote (counted tally turn₁) sent turn' place' →
      T.Wrote tally sent turn' place' ∧ place' < tally turn' := by
    intro sent member turn' place' wrote'
    obtain ⟨turn'', place'', earlier, -, -⟩ := joint.sent sent member
    obtain ⟨rfl, rfl⟩ := wrote'.unique ideal joint.fresh earlier
    exact ⟨earlier, complete.less sent member _ _ earlier⟩
  have isNew : ∀ turn' place', T.Wrote (counted tally turn₁) (⟨side, .message frame, text⟩ : Sent S)
      turn' place' → turn' = turn₁ ∧ place' = tally turn₁ := by
    intro turn' place' wrote'
    have this : T.Wrote (counted tally turn₁) (⟨side, .message frame, text⟩ : Sent S) turn₁
      (tally turn₁) := wrote
    exact wrote'.unique ideal joint.fresh this
  have sessions : ∀ tested, (w.wrote T side device frame text).session T tested =
      if tested = side then some left else w.session T tested := by
    intro tested
    refine (session_put w T side tested device).trans ?_
    rw [saved]
  refine ⟨fun turn' => ?_, fun turn' turn'' less less' same => ?_, fun sent member turn' place' wrote' => ?_,
    fun sent member sent' member' turn' place' one two => ?_, fun tested s' last found receiving => ?_,
    fun tested s' found sent member isSide turn' place' wrote' passed unopened => ?_⟩
  · unfold counted
    rw [Function.update_apply]
    split
    · cases needed : s.needStep with
      | true =>
        rw [needed, if_pos rfl, latest needed] at isTurn
        rw [isTurn, joint.unmade _ (Nat.lt_succ_self _)]
        decide
      | false =>
        rw [needed, if_neg (by simp)] at isTurn
        have sends := at_.sends turn₁ (isTurn ▸ sendTurn_owned side _ (isTurn ▸ owned))
        have room := (brief s session).1 needed
        have few := complete.brief turn₁
        rw [sends.number, UInt32.toNat_ofNat', Nat.mod_eq_of_lt few] at room
        exact room
    · exact complete.brief turn'
  · have less : turn' ≤ w.stepsAfter T side := less
    have less' : turn'' ≤ w.stepsAfter T side := less'
    rw [after] at less less'
    cases needed : s.needStep with
    | false =>
      rw [needed, if_neg (by simp)] at less less'
      exact complete.distinct turn' turn'' less less' same
    | true =>
      rw [needed, if_pos rfl] at less less'
      have new := (brief s session).2 needed
      obtain earlier | rfl := Nat.lt_or_eq_of_le less
      · obtain earlier' | rfl := Nat.lt_or_eq_of_le less'
        · exact complete.distinct turn' turn'' (by omega) (by omega) same
        · exact absurd same (new turn' (by omega))
      · obtain earlier' | rfl := Nat.lt_or_eq_of_le less'
        · exact absurd same.symm (new turn'' (by omega))
        · rfl
  · obtain rfl | earlier := List.mem_cons.mp (show sent ∈ _ :: w.sent from member)
    · obtain ⟨rfl, rfl⟩ := isNew turn' place' wrote'
      exact wrote.less
    · exact lt_of_lt_of_le (known sent earlier turn' place' wrote').2 (tally_le_counted _ _ _)
  · obtain rfl | earlier := List.mem_cons.mp (show sent ∈ _ :: w.sent from member)
    · obtain rfl | earlier' := List.mem_cons.mp (show sent' ∈ _ :: w.sent from member')
      · rfl
      · obtain ⟨rfl, rfl⟩ := isNew turn' place' one
        exact absurd (known sent' earlier' _ _ two).2 (Nat.lt_irrefl _)
    · obtain rfl | earlier' := List.mem_cons.mp (show sent' ∈ _ :: w.sent from member')
      · obtain ⟨rfl, rfl⟩ := isNew turn' place' two
        exact absurd (known sent earlier _ _ one).2 (Nat.lt_irrefl _)
      · exact complete.single sent earlier sent' earlier' turn' place'
          (known sent earlier turn' place' one).1 (known sent' earlier' turn' place' two).1
  · rw [sessions] at found
    by_cases same : tested = side
    · rw [same, Function.update_self, still] at receiving
      rw [same]
      exact (complete.within side s last session receiving).trans (tally_le_counted _ _ _)
    · rw [if_neg same] at found
      rw [Function.update_of_ne same] at receiving
      exact (complete.within tested s' last found receiving).trans (tally_le_counted _ _ _)
  · rw [sessions] at found
    have unopened : (tested, sent.frame) ∉ w.opened := by simpa [World.wrote] using unopened
    obtain rfl | earlier := List.mem_cons.mp (show sent ∈ _ :: w.sent from member)
    · -- the peer has not passed the place of the new message
      obtain ⟨rfl, rfl⟩ := isNew turn' place' wrote'
      have different : tested ≠ side := by
        rintro rfl
        cases tested <;> exact absurd isSide (by simp [Side.other])
      rw [if_neg different] at found
      rw [Function.update_of_ne different] at passed
      obtain ⟨last, isLast, foreign, order⟩ := passed
      have bound := complete.within tested s' last found isLast
      have most := (receiveTurn_some tested _ _ isLast).2.1
      have seen := (joint.alternate tested).1
      obtain late | ⟨rfl, less⟩ := order
      · have isMade : last = turn' + 1 := by omega
        have lastForeign := (receiveTurn_some tested _ _ isLast).1
        rw [isMade, owns_succ, foreign] at lastForeign
        exact absurd lastForeign (by simp)
      · omega
    · obtain ⟨wrote'', -⟩ := known sent earlier turn' place' wrote'
      by_cases same : tested = side
      · rw [if_pos same] at found
        cases Option.some.inj found
        rw [same, Function.update_self] at passed
        rw [sameKeys]
        exact complete.kept side s session sent earlier (same ▸ isSide) turn' place' wrote''
          (passed.congr still.symm) (same ▸ unopened)
      · rw [if_neg same] at found
        rw [Function.update_of_ne same] at passed
        exact complete.kept tested s' found sent earlier isSide turn' place' wrote'' passed unopened

/-- The chain of the peer's next step is received once its ratchet key is known. -/
theorem Thread.At.followed (ideal : S.Ideal) (fresh : T.Fresh) {turn place : Nat}
    (at_ : T.At side turn place tally s) (owned : side.owns turn = true)
    (turned : newChain s frame = .ok between) (isPub : frame.rkPub = T.pub (turn + 1))
    (advanced : Advanced between left frame (T.key (turn + 1) place')) :
    T.At side (turn + 1) 0 tally between := by
  obtain ⟨ss, chain, -, reach⟩ := at_.turned turned
  obtain ⟨middle, skipped, isKey, -⟩ := advanced.next
  obtain ⟨⟨kept, rfl⟩, -⟩ := skipTo_ok between middle _ _ chain skipped
  have sameKey : S.schedule.message (walk S.schedule (S.schedule.chain (T.root turn) ss)
      (frame.n.toUInt32.toNat - between.nr.toNat)) = T.key (turn + 1) place' := isKey.symm
  obtain ⟨-, isSecret, -⟩ := message_walk_chain ideal.exact fresh sameKey
  exact reach owned isSecret isPub

/-- What a jump without eviction leaves in the stored keys: what they had, and the places that
it passes. -/
theorem Thread.At.keeps (ideal : S.Ideal) {turn place : Nat}
    {bound : UInt32} (at_ : T.At side turn place tally s)
    (receiving : side.receiveTurn turn = some last) (narrow : place < 2 ^ 32)
    (room : s.skipped.keys.length + (bound.toNat - place) ≤ 256) (done : skipTo s bound = .ok left) :
    (∀ turn' place', (T.pub turn' = T.pub last → place' < place ∨ bound.toNat ≤ place') →
      left.skipped.lookup (skipName (S := S) (T.pub turn') place') =
        s.skipped.lookup (skipName (S := S) (T.pub turn') place')) ∧
      ∀ place', place ≤ place' → place' < bound.toNat →
        left.skipped.lookup (skipName (S := S) (T.pub last) place') = some (T.key last place') := by
  have receives := at_.receives last receiving
  have counter : s.nr.toNat = place := by
    rw [receives.number, UInt32.toNat_ofNat', Nat.mod_eq_of_lt narrow]
  have words := bound.toNat_lt
  rw [skipTo_roomy s bound _ receives.chain (by rw [counter]; exact room)] at done
  cases Except.ok.inj done
  rw [counter]
  constructor
  · intro turn' place' away
    apply skipMany_other
    intro step less same
    obtain ⟨samePub, samePlace⟩ := skipName_injective ideal same
    rw [receives.pub] at samePub
    rw [add_ofNat_toNat _ _ (by omega), counter] at samePlace
    have apart := away samePub
    omega
  · intro place' later less
    have stored := skipMany_place ideal (bound.toNat - place) s _ receives.chain (by omega)
      (place' - place) (by omega)
    rw [counter, receives.pub, Nat.add_sub_cancel' later] at stored
    rw [stored]
    refine congrArg some (congrArg S.schedule.message ?_)
    refine (walk_add _ _ _ _).symm.trans ?_
    rw [Nat.add_sub_cancel' later]
    rfl

/-- A chain that is left behind has all its keys stored, but for those that were used. -/
theorem Thread.At.leaves (ideal : S.Ideal) {turn place t p : Nat}
    (at_ : T.At side turn place tally s) (brief : ∀ turn', tally turn' < 2 ^ 32)
    (within : place ≤ tally last) (distinct : T.pub t = T.pub last → t = last)
    (receiving : side.receiveTurn turn = some last)
    (former : frame.pn = (UInt32.ofNat (tally last)).toUInt64) (room : s.skipped.keys.length +
      (if s.ckr.isNone then 0 else frame.pn.toUInt32.toNat - s.nr.toNat) ≤ 256)
    (done : skipTo s frame.pn.toUInt32 = .ok left) (less : p < tally t) (most : t ≤ last)
    (foreign : side.owns t = false) (kept : Passed side turn place t p →
      s.skipped.lookup (skipName (S := S) (T.pub t) p) = some (T.key t p)) :
    left.skipped.lookup (skipName (S := S) (T.pub t) p) = some (T.key t p) := by
  have receives := at_.receives last receiving
  have number : frame.pn.toUInt32.toNat = tally last := by
    rw [former]
    exact word_toNat _ (brief last)
  have narrow : place < 2 ^ 32 := lt_of_le_of_lt within (brief last)
  have counter : s.nr.toNat = place := by
    rw [receives.number, UInt32.toNat_ofNat', Nat.mod_eq_of_lt narrow]
  have isChain : s.ckr.isNone = false := by rw [receives.chain]; rfl
  rw [isChain, if_neg (by simp), counter] at room
  obtain ⟨same, new⟩ := at_.keeps ideal receiving narrow room done
  rw [number] at same new
  by_cases early : t < last ∨ p < place
  · rw [same t p, kept]
    · exact ⟨last, receiving, foreign, by omega⟩
    · intro samePub
      have sameTurn := distinct samePub
      omega
  · have isLast : t = last := by omega
    cases isLast
    exact new p (by omega) less

/-- The keys of passed places stay when a message of another place is opened. -/
theorem Thread.Complete.moved (ideal : S.Ideal)
    (joint : T.Joint w turn place tally) (complete : T.Complete w turn place tally)
    (session : w.session T side = some s)
    (wrote : T.WroteMessage tally frame text turn' place') (made : turn' ≤ w.steps)
    (moved : T.Moved side s left frame (turn side) (place side) turn' place' turn₁ place₁)
    (roomy : Roomy s frame) {t p : Nat} (less : p < tally t) (known : t ≤ w.steps)
    (other : ¬ (t = turn' ∧ p = place')) (passed : Passed side turn₁ place₁ t p)
    (kept : Passed side (turn side) (place side) t p →
      s.skipped.lookup (skipName (S := S) (T.pub t) p) = some (T.key t p)) :
    left.skipped.lookup (skipName (S := S) (T.pub t) p) = some (T.key t p) := by
  have at_ := joint.holds side s session
  have number : frame.n.toUInt32.toNat = place' := by
    rw [wrote.number]
    exact word_toNat place' (lt_trans wrote.less (complete.brief turn'))
  cases moved with
  | stored found erased =>
    rw [erased, wrote.pub, number]
    dsimp only
    rw [lookup_erase, if_neg, kept passed]
    intro same
    obtain ⟨samePub, samePlace⟩ := skipName_injective ideal same
    exact other ⟨complete.distinct t turn' known made samePub, samePlace⟩
  | along receiving ahead advanced =>
    have absent := complete.absent ideal joint session made
      (fun early : Passed side (turn side) (place side) turn' place' => by
        obtain ⟨last, isLast, -, order⟩ := early
        cases Option.some.inj (receiving.symm.trans isLast)
        omega)
    have isPub : frame.rkPub = s.peerRk := wrote.pub.trans (at_.receives turn' receiving).pub.symm
    have narrow : place side < 2 ^ 32 :=
      lt_of_le_of_lt (complete.within side s turn' session receiving) (complete.brief turn')
    have counter : s.nr.toNat = place side := by
      rw [(at_.receives turn' receiving).number, UInt32.toNat_ofNat', Nat.mod_eq_of_lt narrow]
    unfold Roomy jump at roomy
    rw [wrote.pub, number, absent, if_neg (by simp), if_pos (wrote.pub.symm.trans isPub), counter] at roomy
    obtain ⟨middle, skipped, -, rfl⟩ := advanced.next
    obtain ⟨same, new⟩ := at_.keeps ideal receiving narrow (by rw [number]; exact roomy) skipped
    rw [number] at same new
    dsimp only
    by_cases early : Passed side (turn side) (place side) t p
    · rw [same t p, kept early]
      intro samePub
      obtain ⟨last, isLast, -, order⟩ := early
      cases Option.some.inj (receiving.symm.trans isLast)
      have sameTurn := complete.distinct t turn' known made samePub
      omega
    · obtain ⟨last, isLast, foreign, order⟩ := passed
      cases Option.some.inj (receiving.symm.trans isLast)
      obtain earlier | ⟨rfl, within⟩ := order
      · exact absurd ⟨turn', receiving, foreign, .inl earlier⟩ early
      · have later : place side ≤ p := by
          by_contra behind
          exact early ⟨t, receiving, foreign, .inr ⟨rfl, by omega⟩⟩
        exact new p later (by omega)
  | fresh between isNext owner turned advanced =>
    cases isNext
    have absent := complete.absent ideal joint session made
      (fun early : Passed side (turn side) (place side) (turn side + 1) place' => by
        obtain ⟨last, isLast, -, order⟩ := early
        have most := (receiveTurn_some side _ _ isLast).2.1
        omega)
    have unknown := complete.unknown joint session made (wrote.pub ▸ wrote.present)
    unfold Roomy jump at roomy
    rw [wrote.pub, number, absent, if_neg (by simp), if_neg unknown] at roomy
    have reached := at_.followed ideal joint.fresh owner turned wrote.pub advanced
    have foreign : side.owns (turn side + 1) = false := by rw [owns_succ, owner]; rfl
    have receivingNext := receiveTurn_foreign side (turn side + 1) foreign
    obtain ⟨-, jumped, _, _, skippedOld, -, -, isBetween⟩ := newChain_ok s between frame turned
    have sameKeys : between.skipped = jumped.skipped := by rw [isBetween]
    obtain ⟨middle, skipped, -, rfl⟩ := advanced.next
    dsimp only
    have size := skipTo_size s jumped _ (by omega) skippedOld
    obtain ⟨same, new⟩ := reached.keeps ideal receivingNext (by decide)
      (by rw [sameKeys, number]; omega) skipped
    rw [number] at same new
    obtain ⟨latest, isLatest, isForeign, order⟩ := passed
    cases Option.some.inj (receivingNext.symm.trans isLatest)
    by_cases isNew : t = turn side + 1
    · cases isNew
      exact new p (Nat.zero_le _) (by omega)
    · have earlier : t ≤ turn side := by omega
      rw [same t p (fun samePub => absurd (complete.distinct t _ known made samePub) isNew), sameKeys]
      obtain ⟨last, receiving, most⟩ := receiveTurn_covers side (turn side) t isForeign earlier
      have isLast := (receiveTurn_some side _ _ receiving).2.2 owner
      exact at_.leaves ideal complete.brief (complete.within side s last session receiving)
        (fun samePub => complete.distinct t last known (by omega) samePub) receiving
        (wrote.former.trans (by rw [← isLast, before, if_neg (by omega)]; rfl)) (by omega) skippedOld less
        most isForeign kept

/-- The keys stay complete when a party opens a message. -/
theorem Thread.Complete.openedMessage (ideal : S.Ideal) (joint : T.Joint w turn place tally)
    (complete : T.Complete w turn place tally)
    (session : w.session T side = some s) (member : sent ∈ w.sent)
    (isFrame : sent.frame = .message frame)
    (wrote : T.WroteMessage tally frame sent.text turn' place') (made : turn' ≤ w.steps)
    (moved : T.Moved side s left frame (turn side) (place side) turn' place' turn₁ place₁)
    (named : left.sid = T.sid) (roomy : Roomy s frame) :
    T.Complete (w.read side (saveSession (w.device side) left) (.message frame))
      (Function.update turn side turn₁) (Function.update place side place₁) tally := by
  have sessions := fun tested => session_saved w T side tested left named
  have written : T.Wrote tally sent turn' place' := by
    unfold Thread.Wrote
    rw [isFrame]
    exact wrote
  have steps : (w.read side (saveSession (w.device side) left) (.message frame)).steps = w.steps := by
    simp [World.read]
  have sents : (w.read side (saveSession (w.device side) left) (.message frame)).sent = w.sent := by
    simp [World.read]
  refine ⟨complete.brief, ?_, ?_, ?_, fun tested s' last found receiving => ?_,
    fun tested s' found other listed isSide t p wrote' passed unopened => ?_⟩
  · rw [steps]
    exact complete.distinct
  · rw [sents]
    exact complete.less
  · rw [sents]
    exact complete.single
  · have found : (w.put side (saveSession (w.device side) left)).session T tested = some s' := found
    rw [sessions] at found
    by_cases same : tested = side
    · rw [same, Function.update_self] at receiving ⊢
      cases moved with
      | stored _ _ => exact complete.within side s last session receiving
      | along isLast _ _ =>
        cases Option.some.inj (isLast.symm.trans receiving)
        exact wrote.less
      | fresh between isNext owner _ _ =>
        have foreign : side.owns (turn side + 1) = false := by rw [owns_succ, owner]; rfl
        cases Option.some.inj ((receiveTurn_foreign side _ foreign).symm.trans receiving)
        exact isNext ▸ wrote.less
    · rw [if_neg same] at found
      rw [Function.update_of_ne same] at receiving ⊢
      exact complete.within tested s' last found receiving
  · rw [sents] at listed
    have found : (w.put side (saveSession (w.device side) left)).session T tested = some s' := found
    rw [sessions] at found
    have apart : (tested, other.frame) ≠ (side, .message frame) ∧ (tested, other.frame) ∉ w.opened := by
      simpa [World.read] using unopened
    by_cases same : tested = side
    · rw [if_pos same] at found
      cases Option.some.inj found
      rw [same, Function.update_self, Function.update_self] at passed
      have known : t ≤ w.steps := by
        obtain ⟨turn'', place'', wrote'', -, made'⟩ := joint.sent other listed
        obtain ⟨rfl, -⟩ := wrote'.unique ideal joint.fresh wrote''
        exact le_trans made' (joint.alternate other.side).1
      refine complete.moved ideal joint session wrote made moved roomy
        (complete.less other listed t p wrote') known ?_ passed
        (fun early => complete.kept side s session other listed (same ▸ isSide) t p wrote' early
          (same ▸ apart.2))
      rintro ⟨rfl, rfl⟩
      have same' := complete.single other listed sent member t p wrote' written
      exact apart.1 (by rw [same, same', isFrame])
    · rw [if_neg same] at found
      rw [Function.update_of_ne same, Function.update_of_ne same] at passed
      exact complete.kept tested s' found other listed isSide t p wrote' passed apart.2

/-- The keys stay complete when the responder opens the init frame. -/
theorem Thread.Complete.openedInit
    (joint : T.Joint w turn place tally) (complete : T.Complete w turn place tally)
    {left : Device S} {frame : InitFrame S} (member : sent ∈ w.sent)
    (isFrame : sent.frame = .init frame) (absent : w.session T .responder = none) :
    T.Complete (w.read .responder left (.init frame)) turn (Function.update place .responder 1) tally := by
  obtain ⟨isFirst, -⟩ := joint.absent absent
  obtain ⟨turn', place', wrote, -, -⟩ := joint.sent sent member
  have first : T.Wrote tally sent 0 0 := by
    have written := wrote
    unfold Thread.Wrote at written ⊢
    rw [isFrame] at written ⊢
    exact ⟨rfl, rfl, written.2.2⟩
  have steps : (w.read .responder left (.init frame)).steps = w.steps := by simp [World.read]
  have sents : (w.read .responder left (.init frame)).sent = w.sent := by simp [World.read]
  have sessions : ∀ s, (w.read .responder left (.init frame)).session T .initiator = some s →
      w.session T .initiator = some s := by
    intro s found
    have found : (w.put .responder left).session T .initiator = some s := found
    rwa [session_put, if_neg (by decide)] at found
  have receivingFirst := receiveTurn_foreign .responder 0 rfl
  refine ⟨complete.brief, ?_, ?_, ?_, fun side s last found receiving => ?_,
    fun side s found other listed isSide t p wrote' passed unopened => ?_⟩
  · rw [steps]
    exact complete.distinct
  · rw [sents]
    exact complete.less
  · rw [sents]
    exact complete.single
  · cases side with
    | initiator =>
      rw [Function.update_of_ne (by decide)]
      exact complete.within .initiator s last (sessions s found) receiving
    | responder =>
      rw [isFirst] at receiving
      cases Option.some.inj (receivingFirst.symm.trans receiving)
      rw [Function.update_self]
      exact complete.less sent member 0 0 first
  · rw [sents] at listed
    have apart : (side, other.frame) ≠ (.responder, .init frame) ∧ (side, other.frame) ∉ w.opened := by
      simpa [World.read] using unopened
    cases side with
    | initiator =>
      rw [Function.update_of_ne (by decide)] at passed
      exact complete.kept .initiator s (sessions s found) other listed isSide t p wrote' passed apart.2
    | responder =>
      -- the init frame is the only one of its place
      rw [isFirst, Function.update_self] at passed
      obtain ⟨last, isLast, -, order⟩ := passed
      cases Option.some.inj (receivingFirst.symm.trans isLast)
      have isZero : t = 0 ∧ p = 0 := by omega
      obtain ⟨rfl, rfl⟩ := isZero
      have same := complete.single other listed sent member 0 0 wrote' first
      exact absurd (by rw [same, isFrame]) apart.1

/-- The keys stay complete when a party does anything else. -/
theorem Thread.Complete.elsewhere (complete : T.Complete w turn place tally)
    (same : device.sessions.lookup T.sid = (w.device side).sessions.lookup T.sid) :
    T.Complete (w.put side device) turn place tally := by
  have sessions := session_elsewhere same
  refine ⟨complete.brief, ?_, ?_, ?_, fun tested s last found receiving => ?_,
    fun tested s found other listed isSide t p wrote passed unopened => ?_⟩
  · rw [steps_put]
    exact complete.distinct
  · rw [sent_put]
    exact complete.less
  · rw [sent_put]
    exact complete.single
  · rw [sessions] at found
    exact complete.within tested s last found receiving
  · rw [sessions] at found
    rw [sent_put] at listed
    rw [opened_put] at unopened
    exact complete.kept tested s found other listed isSide t p wrote passed unopened

/-! ### Runs -/

/-- What the peer wrote can be delivered by anybody. -/
theorem Honest.adversarial
    (joint : T.Joint w turn place tally) {frame : Frame S} (honest : Honest w side frame) :
    T.Adversarial w side frame := by
  obtain ⟨sent, member, -, isFrame⟩ := honest
  obtain ⟨turn', place', wrote, -, -⟩ := joint.sent sent member
  cases frame with
  | init first => exact ⟨sent, member, isFrame⟩
  | message later =>
    unfold Thread.Wrote at wrote
    rw [isFrame] at wrote
    refine ⟨wrote.sid, fun _ _ _ _ _ _ => ⟨sent, member, ?_⟩, fun _ _ => .inl wrote.present⟩
    rw [isFrame]
    rfl

/-- In runs whose deliveries leave room, the stored keys are complete. -/
theorem Reached.complete (ideal : S.Ideal) (reached : Reached T T.Brief T.Patient w) :
    ∃ turn place tally, T.Joint w turn place tally ∧ T.Complete w turn place tally := by
  induction reached with
  | start started => exact ⟨_, _, _, started.joint ideal, started.complete⟩
  | send reached side text iv frame device may drawn done ih =>
    obtain ⟨turn, place, tally, joint, complete⟩ := ih
    obtain ⟨s, left, turn₁, session, saved, sameKeys, isTurn, owned, still, wrote, next⟩ :=
      joint.wrote ideal drawn done
    exact ⟨_, _, _, next,
      complete.wrote ideal joint may session saved sameKeys isTurn owned still wrote⟩
  | receive reached side frame now opened device may done ih =>
    obtain ⟨turn, place, tally, joint, complete⟩ := ih
    obtain ⟨honest, roomy⟩ := may
    have adversarial := honest.adversarial joint
    obtain ⟨first, rfl, opens⟩ | ⟨later, rfl, opens⟩ := openFrame_ok done
    · obtain ⟨sent, member, isFrame⟩ := adversarial
      obtain ⟨rfl, absent, -, -, next⟩ := joint.openedInit ideal member isFrame opens
      exact ⟨_, _, _, next, complete.openedInit joint member isFrame absent⟩
    · obtain ⟨sid, built, keyed⟩ := adversarial
      obtain ⟨-, s, left, session, decrypted, rfl⟩ := openMessage_ok opens
      rw [sid] at session
      obtain ⟨named, sent, member, -, isFrame, isText, turn', place', turn₁, place₁, wrote, made, moved, -,
        next⟩ := joint.openedMessage ideal session sid built (keyed s session) decrypted
      rw [← isText] at wrote
      exact ⟨_, _, _, next, complete.openedMessage ideal joint session member isFrame wrote made moved
        named (roomy later rfl s session)⟩
  | elsewhere reached side device same ih =>
    obtain ⟨turn, place, tally, joint, complete⟩ := ih
    exact ⟨_, _, _, joint.elsewhere same, complete.elsewhere same⟩

/-- A frame that does not open leaves the wallet as it was. -/
theorem openFrame_error {left : Device S} {frame : Frame S} {message : String}
    (failed : openFrame device frame now = (.error message, left)) : left = device := by
  unfold openFrame at failed
  split at failed
  · simp only [Prod.mk.injEq] at failed
    exact failed.2.symm
  · exact absurd (congrArg Prod.fst failed) (by simp)

/-- A frame that the peer wrote has one text. -/
theorem Thread.Joint.text_unique (ideal : S.Ideal) (joint : T.Joint w turn place tally)
    {sent' : Sent S} (member : sent ∈ w.sent) (member' : sent' ∈ w.sent)
    (same : sent.frame = sent'.frame) : sent.text = sent'.text := by
  obtain ⟨turn', place', wrote, -, -⟩ := joint.sent sent member
  obtain ⟨turn'', place'', wrote', -, -⟩ := joint.sent sent' member'
  unfold Thread.Wrote at wrote wrote'
  rw [← same] at wrote'
  cases kind : sent.frame with
  | init frame =>
    rw [kind] at wrote wrote'
    obtain ⟨-, -, -, -, _, isBox⟩ := wrote
    obtain ⟨-, -, -, -, _, isBox'⟩ := wrote'
    exact (ideal.aead_injective (isBox.symm.trans isBox')).2.2.2
  | message frame =>
    rw [kind] at wrote wrote'
    exact (ideal.aead_injective (wrote.sealed_.symm.trans wrote'.sealed_)).2.2.2

/-- A frame of the peer opens once, and with the text that the peer wrote. -/
theorem Thread.Joint.opens_once (ideal : S.Ideal) (joint : T.Joint w turn place tally)
    {frame : Frame S} {opened : Opened} {left : Device S} (honest : Honest w side frame)
    (done : openFrame (w.device side) frame now = (.ok opened, left)) :
    (side, frame) ∉ w.opened ∧ ∀ sent ∈ w.sent, sent.frame = frame → opened.text = sent.text := by
  have adversarial := honest.adversarial joint
  obtain ⟨first, rfl, opens⟩ | ⟨later, rfl, opens⟩ := openFrame_ok done
  · obtain ⟨sent, member, isFrame⟩ := adversarial
    obtain ⟨rfl, absent, -, isText, -⟩ := joint.openedInit ideal member isFrame opens
    refine ⟨(joint.absent absent).2 _, fun other listed same => ?_⟩
    rw [isText]
    exact joint.text_unique ideal member listed (isFrame.trans same.symm)
  · obtain ⟨sid, built, keyed⟩ := adversarial
    obtain ⟨-, s, next, session, decrypted, rfl⟩ := openMessage_ok opens
    rw [sid] at session
    obtain ⟨-, sent, member, -, isFrame, isText, turn', place', _, _, wrote, -, -, once, -⟩ :=
      joint.openedMessage ideal session sid built (keyed s session) decrypted
    constructor
    · intro listed
      obtain ⟨other, -, -, isOther, turn'', place'', wrote', passed, lacks⟩ :=
        joint.opened side _ listed
      unfold Thread.Wrote at wrote'
      rw [isOther] at wrote'
      obtain ⟨rfl, rfl⟩ := key_injective ideal joint.fresh
        (ideal.aead_injective (wrote.sealed_.symm.trans wrote'.sealed_)).1
      exact once passed (lacks s session)
    · intro other listed same
      rw [← isText]
      exact joint.text_unique ideal member listed (isFrame.trans same.symm)

/-! ### Every frame is opened -/

theorem Thread.pub_short (sized : S.Sized) (T : Thread S) (turn : Nat) :
    (T.pub turn).length ≤ 4096 ∧ (S.h32 (T.pub turn)).length ≤ 64 := by
  unfold Thread.pub Thread.pair
  cases drawn : S.keypair (T.seeds turn).2 with
  | none => exact ⟨by simp, sized.digest.1⟩
  | some keys => exact ⟨sized.pub drawn, sized.digest.2 drawn⟩

/-- The reader takes what a party writes, when the text is not too long. -/
theorem Thread.WroteMessage.readable (sized : S.Sized) {turn place : Nat}
    (wrote : T.WroteMessage tally frame text turn place) (named : T.sid.length ≤ 64)
    (short : text.length ≤ 39984) : frame.readable = true := by
  have word : ∀ count, (UInt32.ofNat count).toUInt64 ≤ 0xffffffff := by
    intro count
    rw [UInt64.le_iff_toNat_le, UInt32.toNat_toUInt64]
    have less := (UInt32.ofNat count).toNat_lt
    change (UInt32.ofNat count).toNat ≤ 4294967295
    omega
  have step : frame.stepCt.length ≤ 4096 ∧ frame.stepTo.length ≤ 64 := by
    cases turn with
    | zero =>
      obtain ⟨noCapsule, noStep⟩ := wrote.front rfl
      rw [noCapsule, noStep]
      decide
    | succ turn =>
      obtain ⟨capsule, isCapsule, isStep⟩ := wrote.capsule (Nat.succ_pos _)
      rw [isCapsule, isStep]
      exact ⟨sized.capsule capsule, (T.pub_short sized _).2⟩
  unfold MessageFrame.readable
  simp only [Bool.and_eq_true, decide_eq_true_eq]
  refine ⟨⟨⟨⟨⟨⟨⟨?_, ?_⟩, step.1⟩, step.2⟩, ?_⟩, ?_⟩, wrote.drawn⟩, ?_⟩
  · rw [wrote.sid]
    exact named
  · rw [wrote.pub]
    exact (T.pub_short sized turn).1
  · rw [wrote.former]
    exact word _
  · rw [wrote.number]
    exact word _
  · rw [wrote.sealed_, sized.box]
    omega

theorem Reached.named {maySend : World S → Side → Prop}
    {mayOpen : World S → Side → Frame S → Prop} (reached : Reached T maySend mayOpen w) :
    ∃ name : Bytes, name.length = 16 ∧ T.sid = toHex name := by
  induction reached with
  | start started =>
    obtain ⟨_, _, _, name, _, _, _, size, isName, -⟩ := started.begun
    exact ⟨name, size, isName⟩
  | send _ _ _ _ _ _ _ _ _ ih => exact ih
  | receive _ _ _ _ _ _ _ _ ih => exact ih
  | elsewhere _ _ _ _ ih => exact ih

/-- A message that was not opened opens once the session has begun, when there is room. -/
theorem Thread.Complete.delivers (ideal : S.Ideal) (sized : S.Sized)
    (joint : T.Joint w turn place tally)
    (complete : T.Complete w turn place tally) (size : name.length = 16)
    (named : T.sid = toHex name)
    (member : sent ∈ w.sent) (isSide : sent.side = side.other) (isFrame : sent.frame = .message frame)
    (begun : side = .responder → ∃ first, (Side.responder, first) ∈ w.opened)
    (unopened : (side, .message frame) ∉ w.opened)
    (roomy : ∀ s, w.session T side = some s → Roomy s frame) (short : sent.text.length ≤ 39984)
    (now : UInt64) : ∃ opened left,
      openFrame (w.device side) (.message frame) now = (.ok opened, left) ∧ opened.text = sent.text := by
  obtain ⟨s, session⟩ : ∃ s, w.session T side = some s := by
    cases side with
    | initiator => exact joint.started
    | responder =>
      cases session : w.session T .responder with
      | some s => exact ⟨s, rfl⟩
      | none =>
        obtain ⟨first, opened⟩ := begun rfl
        exact absurd opened ((joint.absent session).2 first)
  obtain ⟨left, decrypted⟩ :=
    complete.opens ideal joint member isSide isFrame session unopened (roomy s session)
  obtain ⟨turn', place', wrote, -, -⟩ := joint.sent sent member
  unfold Thread.Wrote at wrote
  rw [isFrame] at wrote
  have long : T.sid.length = 32 := by rw [named, toHex_length, size]
  have readable := wrote.readable sized (by omega) short
  have loaded : loadSession (w.device side) frame.sid = .ok s := by
    have session : (w.device side).sessions.lookup T.sid = some s := session
    unfold loadSession
    rw [wrote.sid, named, safeName_toHex name size, ← named, session]
    rfl
  have opens : openMessage (w.device side) frame =
      .ok (⟨frame.sid, left.peerFp, sent.text⟩, saveSession (w.device side) left) := by
    unfold openMessage
    rw [readable, loaded]
    simp only [bind_ok, exists_unit, ensure_ok, true_and]
    exact ⟨s, rfl, (sent.text, left), decrypted, rfl⟩
  refine ⟨⟨frame.sid, left.peerFp, sent.text⟩, saveSession (w.device side) left, ?_, rfl⟩
  unfold openFrame
  dsimp only
  rw [opens]

/-- A party whose session has begun can send, when the libraries work. -/
theorem Thread.Joint.sends (joint : T.Joint w turn place tally) (size : name.length = 16)
    (named : T.sid = toHex name) (session : w.session T side = some s)
    (text : Bytes) (coins : Coins S) (capsules : ∀ pub, S.encaps pub coins.kem ≠ none)
    (pairs : S.keypair coins.key ≠ none) :
    ∃ frame device, sendFrame (w.device side) T.sid text coins = .ok (frame, device) := by
  have session : (w.device side).sessions.lookup T.sid = some s := session
  have loaded : loadSession (w.device side) T.sid = .ok s := by
    unfold loadSession
    rw [named, safeName_toHex name size, ← named, session]
    rfl
  have at_ := joint.holds side s session
  obtain ⟨stepped, ck, stepOk, chain⟩ :
      ∃ stepped ck, ratchetStep s coins = .ok stepped ∧ stepped.cks = some ck := by
    unfold ratchetStep
    cases needed : s.needStep with
    | false =>
      have owned : side.owns (turn side) = true := by
        have step := at_.step
        rw [needed] at step
        simpa using step.symm
      exact ⟨s, _, rfl, (at_.sends _ (sendTurn_owned side _ owned)).chain⟩
    | true =>
      obtain ⟨⟨ct, ss⟩, capsule⟩ := Option.ne_none_iff_exists'.mp (capsules s.peerRk)
      obtain ⟨⟨pub, sk⟩, pair⟩ := Option.ne_none_iff_exists'.mp pairs
      rw [capsule, pair]
      exact ⟨_, _, rfl, rfl⟩
  have encrypted : encryptLocked s text coins = .ok (sealedFrame stepped ck text coins.iv,
      { stepped with cks := some (S.kdfCk (some ck)).2, ns := stepped.ns + 1 }) := by
    simp only [encryptLocked, bind_ok]
    refine ⟨stepped, stepOk, ?_⟩
    rw [chain]
    rfl
  have done : sendFrame (w.device side) T.sid text coins = .ok (sealedFrame stepped ck text coins.iv,
      saveSession (w.device side)
        { stepped with cks := some (S.kdfCk (some ck)).2, ns := stepped.ns + 1 }) := by
    simp only [sendFrame, bind_ok]
    exact ⟨s, loaded, _, encrypted, rfl⟩
  exact ⟨_, _, done⟩

/-- Whatever the order, the losses and the repetitions: a frame of the peer opens at most once
and with its text, a failure changes nothing, and as long as the skipped keys have room every
message opens that is not too long, however late it comes. -/
theorem frames_delivered (ideal : S.Ideal) (sized : S.Sized) (T : Thread S) :
    (∀ w, Reached T (fun _ _ => True) Honest w → ∀ side frame now, Honest w side frame →
      (∀ opened left, openFrame (w.device side) frame now = (.ok opened, left) →
        (side, frame) ∉ w.opened ∧ ∀ sent ∈ w.sent, sent.frame = frame → opened.text = sent.text) ∧
      ∀ message left, openFrame (w.device side) frame now = (.error message, left) →
        left = w.device side) ∧
    ∀ w, Reached T T.Brief T.Patient w → ∀ side frame now, T.Patient w side (.message frame) →
      (side = .responder → ∃ first, (Side.responder, first) ∈ w.opened) →
      (side, .message frame) ∉ w.opened → ∀ sent ∈ w.sent, sent.frame = .message frame →
        sent.text.length ≤ 39984 → ∃ opened left,
          openFrame (w.device side) (.message frame) now = (.ok opened, left) ∧
            opened.text = sent.text := by
  constructor
  · intro w reached side frame now honest
    obtain ⟨turn, place, tally, joint⟩ := reached.joint ideal
      (fun _ _ _ joint honest => honest.adversarial joint.choose_spec.choose_spec.choose_spec)
    exact ⟨fun opened left done => joint.opens_once ideal honest done,
      fun message left failed => openFrame_error failed⟩
  · intro w reached side frame now patient begun unopened sent member isFrame short
    obtain ⟨turn, place, tally, joint, complete⟩ := reached.complete ideal
    obtain ⟨name, size, named⟩ := reached.named
    obtain ⟨⟨peer, listed, isSide, isPeer⟩, roomy⟩ := patient
    have same := joint.text_unique ideal member listed (isFrame.trans isPeer.symm)
    rw [same] at short ⊢
    exact complete.delivers ideal sized joint size named listed isSide isPeer begun unopened
      (roomy frame rfl) short now

/-! ### A session of symbols -/

/-- The name of the session. -/
def symbolicName : Bytes := List.replicate 16 0

/-- The session that the owner of the first package starts, with numbered seeds. -/
def symbolicThread : Thread symbolic where
  sid := toHex symbolicName
  start := symbolic.initRoot (transcriptOf (S := symbolic) (toHex symbolicName)
    (responderPackage.hash symbolic) (initiatorPackage.hash symbolic) [0] [0]) [0]
  seeds turn := (UInt8.ofNat turn, UInt8.ofNat turn)

/-- The wallet that starts the session. -/
def initiatorDevice : Device symbolic := ⟨some ([1], [1]), some initiatorPackage, [], ∅⟩

/-- The wallet that answers, with the secret of its package. -/
def responderDevice : Device symbolic :=
  ⟨some ([2], [2]), some responderPackage, [⟨responderPackage.hash symbolic, 1000, [3]⟩], ∅⟩

/-- The session and the frame of its start. -/
def symbolicStart (text : Bytes) : Session symbolic × Frame symbolic :=
  firstSession (S := symbolic) (toHex symbolicName) (symbolic.fingerprint [1]) responderPackage
    initiatorPackage [0] [0] [0] [0] [1] text (List.replicate 12 0)

/-- The world once the session was started. -/
def symbolicWorld (text : Bytes) : World symbolic where
  initiator := saveSession initiatorDevice (symbolicStart text).1
  responder := responderDevice
  steps := 0
  sent := [⟨.initiator, (symbolicStart text).2, text⟩]
  opened := []

/-- The coins of the start. -/
def symbolicCoins : Coins symbolic :=
  ⟨(symbolicThread.seeds 0).1, (symbolicThread.seeds 0).2, List.replicate 12 0⟩

theorem symbolic_begun (text : Bytes) :
    startFrame initiatorDevice responderPackage text 0 symbolicName symbolicCoins =
      .ok ((symbolicStart text).2, (symbolicWorld text).initiator) := by
  refine startFrame_some ?_ rfl rfl ?_ rfl rfl rfl
  · exact symbolicPackage_valid _ (.inr (by decide)) 0 (by decide)
  · exact symbolicPackage_valid _ (.inl rfl) 0 (by decide)

theorem symbolic_started (text : Bytes) : Started symbolicThread (symbolicWorld text) where
  begun := ⟨initiatorDevice, responderPackage, text, symbolicName, List.replicate 12 0, 0, _, rfl, rfl,
    symbolic_begun text, rfl⟩
  start := ⟨(symbolicStart text).1, AList.lookup_insert _, rfl⟩
  absent := rfl
  steps := rfl
  opened := rfl

theorem symbolic_readable (text : Bytes) (short : text.length ≤ 39984) :
    ∃ first : InitFrame symbolic, (symbolicStart text).2 = .init first ∧ first.readable = true := by
  apply firstSession_readable symbolic_sized
  · decide
  · exact responderPackage_hash
  · exact symbolicPackage_length _ (by decide)
  · decide
  · decide
  · decide
  · rfl
  · exact short

/-- The owner of the second package opens the init frame. -/
theorem symbolic_opens (text : Bytes) (short : text.length ≤ 39984) : ∃ first opened s,
    (symbolicStart text).2 = .init first ∧ s.skipped = ∅ ∧
      symbolicThread.At .responder 0 1 firstTally s ∧
      openInit responderDevice first 0 = .ok (opened, saveSession responderDevice s) := by
  obtain ⟨first, isFirst, readable⟩ := symbolic_readable text short
  have begun := symbolic_begun text
  rw [isFirst] at begun
  have early : (0 : UInt64) < 1000 := by decide
  have kept : findInitSk responderDevice (responderPackage.hash symbolic) 0 = .ok [3] :=
    findInitSk_own rfl early
  obtain ⟨opened, left, opens, -⟩ := init_opens symbolic_ideal begun rfl readable rfl
    (symbolicPackage_bounded _ (by decide)) (symbolicPackage_valid _ (.inl rfl) 0 (by decide))
    (fun _ _ _ sig _ signed => by cases Option.some.inj signed; rfl) kept
    (fun ct ss capsule => by cases Option.some.inj capsule; rfl) rfl rfl
  obtain ⟨_, _, wrote, -, -⟩ := ((symbolic_started text).joint symbolic_ideal).sent
    ⟨.initiator, (symbolicStart text).2, text⟩ List.mem_cons_self
  unfold Thread.Wrote at wrote
  dsimp only at wrote
  rw [isFirst] at wrote
  obtain ⟨-, -, s, isLeft, at_, noKeys⟩ := openInit_ok symbolic_ideal wrote.2.2 opens
  rw [isLeft] at opens
  exact ⟨first, opened, s, isFirst, noKeys, at_, opens⟩

/-- The world once the owner of the second package has opened the init frame. -/
theorem symbolic_answered (text : Bytes) (short : text.length ≤ 39984) : ∃ w s first,
    Reached symbolicThread symbolicThread.Brief symbolicThread.Patient w ∧
      symbolicThread.Joint w (fun _ => 0) (Function.update (fun _ => 0) .responder 1) firstTally ∧
      w.session symbolicThread .responder = some s ∧ s.skipped = ∅ ∧
      symbolicThread.At .responder 0 1 firstTally s ∧ w.opened = [(.responder, .init first)] := by
  obtain ⟨first, opened, s, isFirst, noKeys, at_, opens⟩ := symbolic_opens text short
  have started := symbolic_started text
  have member : (⟨.initiator, (symbolicStart text).2, text⟩ : Sent symbolic) ∈ (symbolicWorld text).sent :=
    List.mem_cons_self
  have opens : openInit ((symbolicWorld text).device .responder) first 0 =
      .ok (opened, saveSession ((symbolicWorld text).device .responder) s) := opens
  have done : openFrame ((symbolicWorld text).device .responder) (.init first) 0 =
      (.ok opened, saveSession ((symbolicWorld text).device .responder) s) := by
    unfold openFrame
    dsimp only
    rw [opens]
  obtain ⟨-, -, -, -, joint⟩ :=
    (started.joint symbolic_ideal).openedInit symbolic_ideal member isFirst opens
  have session := session_saved (symbolicWorld text) symbolicThread .responder .responder s at_.sid
  exact ⟨_, s, first, (Reached.start started).receive .responder (.init first) 0 opened _
    ⟨⟨_, member, rfl, isFirst⟩, fun later same => absurd same (by simp)⟩ done, joint,
    session.trans (if_pos rfl), noKeys, at_, rfl⟩

/-- A world in which the owner of the first package has sent a number of frames along the first chain,
and the peer has opened the first of them only. -/
structure Talked (count : Nat) (s : Session symbolic) (w : World symbolic) : Prop where
  reached : Reached symbolicThread symbolicThread.Brief symbolicThread.Patient w
  joint : ∃ tally, tally 0 = count ∧
    symbolicThread.Joint w (fun _ => 0) (Function.update (fun _ => 0) .responder 1) tally
  session : w.session symbolicThread .responder = some s
  noKeys : s.skipped = ∅
  opened : ∃ first, w.opened = [(.responder, .init first)]

theorem symbolic_talked (text : Bytes) (short : text.length ≤ 39984) : ∃ w s, Talked 1 s w := by
  obtain ⟨w, s, first, reached, joint, session, noKeys, -, isOpened⟩ := symbolic_answered text short
  exact ⟨w, s, reached, ⟨firstTally, rfl, joint⟩, session, noKeys, first, isOpened⟩

variable {count : Nat} {s : Session symbolic} {w : World symbolic}

/-- What the peer's session is before a message of the first chain is read. -/
theorem Talked.receives (talked : Talked count s w) :
    s.sid = symbolicThread.sid ∧ symbolicThread.Receives 1 0 s := by
  obtain ⟨tally, -, joint⟩ := talked.joint
  have at_ := joint.holds .responder s talked.session
  exact ⟨at_.sid, at_.receives 0 rfl⟩

/-- Another message is sent. -/
theorem Talked.says (talked : Talked count s w) (few : count + 1 < 2 ^ 32) (text : Bytes) :
    ∃ w' frame, Talked (count + 1) s w' ∧ w'.sent = ⟨.initiator, .message frame, text⟩ :: w.sent ∧
      w'.opened = w.opened ∧ frame.n = (UInt32.ofNat count).toUInt64 ∧ frame.rkPub = s.peerRk ∧
      symbolic.boxSize frame.ct = text.length + 16 := by
  obtain ⟨tally, isCount, joint⟩ := talked.joint
  obtain ⟨own, owned⟩ := joint.started
  obtain ⟨frame, device, done⟩ := joint.sends rfl rfl owned text
    ⟨(symbolicThread.seeds (w.steps + 1)).1, (symbolicThread.seeds (w.steps + 1)).2, List.replicate 12 0⟩
    (fun _ => by simp [symbolic]) (by simp [symbolic])
  have ownAt := joint.holds .initiator own owned
  have ready : own.needStep = false := ownAt.step
  have number : own.ns.toNat = count := by
    rw [(ownAt.sends 0 rfl).number, isCount, UInt32.toNat_ofNat', Nat.mod_eq_of_lt (by omega)]
  have brief : symbolicThread.Brief w .initiator := by
    intro found isOwn
    cases Option.some.inj (owned.symm.trans isOwn)
    rw [ready, number]
    exact ⟨fun _ => few, fun needed => absurd needed (by simp)⟩
  obtain ⟨_, _, turn₁, stored, -, -, isTurn, -, -, wrote, next⟩ := joint.wrote symbolic_ideal rfl done
  cases Option.some.inj (owned.symm.trans stored)
  rw [ready, if_neg (by decide)] at isTurn
  subst isTurn
  have later := session_put w symbolicThread .initiator .responder device
  obtain ⟨first, isOpened⟩ := talked.opened
  refine ⟨_, frame, ⟨talked.reached.send .initiator text _ frame device brief rfl done,
    ⟨counted tally 0, ?_, ?_⟩, ?_, talked.noKeys, first, ?_⟩, ?_, ?_, ?_, ?_, ?_⟩
  · rw [counted, Function.update_self, isCount]
  · rwa [Function.update_eq_self] at next
  · exact later.trans ((if_neg (by decide)).trans talked.session)
  · simp [World.wrote, isOpened]
  · simp [World.wrote]
  · simp [World.wrote]
  · rw [wrote.number, isCount]
  · exact wrote.pub.trans talked.receives.2.pub.symm
  · rw [wrote.sealed_]
    exact symbolic_sized.box _ _ _ _

/-- There is room for the keys of a few messages of the first chain. -/
theorem Talked.patient (talked : Talked count s w) {frame : MessageFrame symbolic} {text : Bytes}
    (member : ⟨.initiator, .message frame, text⟩ ∈ w.sent) (pub : frame.rkPub = s.peerRk)
    (near : frame.n.toUInt32.toNat ≤ 256) : symbolicThread.Patient w .responder (.message frame) := by
  refine ⟨⟨_, member, rfl, rfl⟩, fun other same s' found => ?_⟩
  cases Frame.message.inj same
  cases Option.some.inj (talked.session.symm.trans found)
  unfold Roomy jump
  rw [talked.noKeys, if_neg (by simp), if_pos pub]
  exact (Nat.zero_add _).trans_le ((Nat.sub_le _ _).trans near)

/-- A message that the owner of the first package sends then. -/
theorem symbolic_talk (text : Bytes) : ∃ w frame,
    Reached symbolicThread symbolicThread.Brief symbolicThread.Patient w ∧
      ⟨.initiator, .message frame, text⟩ ∈ w.sent ∧ (∃ first, (Side.responder, first) ∈ w.opened) ∧
      (Side.responder, .message frame) ∉ w.opened ∧
      symbolicThread.Patient w .responder (.message frame) ∧ symbolic.boxSize frame.ct = text.length + 16 := by
  obtain ⟨w, s, talked⟩ := symbolic_talked [] (by decide)
  obtain ⟨next, frame, said, isSent, isOpened, number, pub, size⟩ := talked.says (by decide) text
  have member : ⟨.initiator, .message frame, text⟩ ∈ next.sent := isSent ▸ List.mem_cons_self
  obtain ⟨first, opened⟩ := talked.opened
  rw [opened] at isOpened
  exact ⟨next, frame, said.reached, member, ⟨.init first, by simp [isOpened]⟩, by simp [isOpened],
    said.patient member pub (by rw [number]; decide), size⟩

/-- A message that is read before the one that was sent before it leaves one key behind, which is
the key of that message. -/
theorem Talked.skips {between left : Session symbolic} {frame later : MessageFrame symbolic}
    {text : Bytes} (talked : Talked count between w) (pub : frame.rkPub = between.peerRk)
    (pub' : later.rkPub = between.peerRk) (number : frame.n.toUInt32.toNat = 1)
    (number' : later.n.toUInt32.toNat = 2) (done : decryptLocked between later = .ok (text, left)) :
    left.sid = symbolicThread.sid ∧ Roomy left frame := by
  obtain ⟨sid, receives⟩ := talked.receives
  have counter : between.nr.toNat = 1 := by
    rw [receives.number]
    rfl
  have nothing : between.skipped.keys.length = 0 := by rw [talked.noKeys]; rfl
  obtain ⟨mk, chosen, -⟩ := decryptLocked_ok _ _ _ _ done
  have jumped := skipTo_roomy between later.n.toUInt32 _ receives.chain (by omega)
  rw [number', counter] at jumped
  have absent : between.skipped.lookup (skipName (S := symbolic) later.rkPub later.n.toUInt32.toNat) =
      none := by simp [talked.noKeys]
  have reached := chooseKey_some absent (by rw [chainOf, if_neg (not_not_intro pub')])
    (UInt32.le_iff_toNat_le.mpr (by omega)) jumped
  obtain ⟨-, rfl⟩ := Prod.mk.inj (Except.ok.inj (reached.symm.trans chosen))
  refine ⟨sid, ?_⟩
  have size := skipMany_size (2 - 1) between
  have stored := skipMany_place symbolic_ideal (2 - 1) between _ receives.chain (by omega) 0 (by decide)
  rw [counter, Nat.add_zero, ← pub] at stored
  unfold Roomy jump
  dsimp only
  rw [number, stored, Option.isSome_some, if_pos rfl]
  omega

/-- A message that is read after the one behind it: its key was skipped and is still there. -/
theorem symbolic_late (text : Bytes) (short : text.length ≤ 39984) : ∃ w frame later,
    Reached symbolicThread symbolicThread.Brief symbolicThread.Patient w ∧
      ⟨.initiator, .message frame, text⟩ ∈ w.sent ∧ frame.n < later.n ∧
      (Side.responder, .message later) ∈ w.opened ∧ (∃ first, (Side.responder, first) ∈ w.opened) ∧
      (Side.responder, .message frame) ∉ w.opened ∧
      symbolicThread.Patient w .responder (.message frame) := by
  obtain ⟨_, s, talked⟩ := symbolic_talked [] (by decide)
  obtain ⟨first, opened⟩ := talked.opened
  obtain ⟨_, frame, once, isSent, isOpened, number, pub, -⟩ := talked.says (by decide) text
  obtain ⟨w, later, twice, isSent', isOpened', number', pub', -⟩ := once.says (by decide) text
  rw [isOpened, opened] at isOpened'
  have member : ⟨.initiator, .message later, text⟩ ∈ w.sent := isSent' ▸ List.mem_cons_self
  have member' : ⟨.initiator, .message frame, text⟩ ∈ w.sent := by simp [isSent', isSent]
  have patient := twice.patient member pub' (by rw [number']; decide)
  have begun : ∃ first, (Side.responder, first) ∈ w.opened := ⟨.init first, by simp [isOpened']⟩
  obtain ⟨content, left, opens, -⟩ := (frames_delivered symbolic_ideal symbolic_sized
    symbolicThread).2 w twice.reached .responder later 0 patient (fun _ => begun) (by simp [isOpened']) _
      member rfl short
  obtain ⟨_, isInit, -⟩ | ⟨read, same, reads⟩ := openFrame_ok opens
  · exact nomatch isInit
  cases Frame.message.inj same
  obtain ⟨-, between, after, session, decrypted, isLeft⟩ := openMessage_ok reads
  have isOwn : later.sid = symbolicThread.sid := by
    obtain ⟨_, -, joint⟩ := twice.joint
    obtain ⟨_, _, wrote, -⟩ := joint.sent _ member
    unfold Thread.Wrote at wrote
    exact wrote.sid
  rw [isOwn] at session
  cases Option.some.inj (twice.session.symm.trans session)
  obtain ⟨named, roomy⟩ := twice.skips pub pub' (by rw [number]; rfl) (by rw [number']; rfl) decrypted
  have less : frame.n < later.n := by
    rw [number, number']
    decide
  have apart : frame ≠ later := by
    rintro rfl
    exact absurd less (UInt64.lt_irrefl _)
  have stored := session_saved w symbolicThread .responder .responder after named
  refine ⟨_, frame, later, twice.reached.receive .responder _ 0 content left patient opens, ?_, less,
    List.mem_cons_self, ⟨.init first, ?_⟩, ?_,
    ⟨⟨.initiator, .message frame, text⟩, ?_, rfl, rfl⟩, fun other same s' found => ?_⟩
  · simpa [World.read] using member'
  · simp [World.read, isOpened']
  · simp [World.read, isOpened', apart]
  · simpa [World.read] using member'
  · cases Frame.message.inj same
    subst isLeft
    exact Option.some.inj (((if_pos rfl).symm.trans stored.symm).trans found) ▸ roomy

/-- A message opens with its text though the one behind it was read first. -/
theorem short_text_opens : ∃ w frame later opened left,
    Reached symbolicThread symbolicThread.Brief symbolicThread.Patient w ∧
      ⟨.initiator, .message frame, ascii "hello"⟩ ∈ w.sent ∧
      (Side.responder, .message later) ∈ w.opened ∧ frame.n < later.n ∧
      openFrame (w.device .responder) (.message frame) 0 = (.ok opened, left) ∧
      opened.text = ascii "hello" := by
  have short : (ascii "hello").length ≤ 39984 := by decide
  obtain ⟨w, frame, later, reached, member, before, early, begun, unopened, patient⟩ :=
    symbolic_late (ascii "hello") short
  obtain ⟨opened, left, opens, isText⟩ := (frames_delivered symbolic_ideal symbolic_sized
    symbolicThread).2 w reached .responder frame 0 patient (fun _ => begun) unopened _ member rfl short
  exact ⟨w, frame, later, opened, left, reached, member, early, before, opens, isText⟩

/-- A message is sealed and sent though its text is too long for the reader of the peer. -/
theorem long_text_lost : ∃ w frame,
    Reached symbolicThread symbolicThread.Brief symbolicThread.Patient w ∧
      ⟨.initiator, .message frame, List.replicate 39985 0⟩ ∈ w.sent ∧
      (∃ first, (Side.responder, first) ∈ w.opened) ∧
      (Side.responder, .message frame) ∉ w.opened ∧
      symbolicThread.Patient w .responder (.message frame) ∧
      ∀ now, openFrame (w.device .responder) (.message frame) now =
        (.error "malformed frame", w.device .responder) := by
  obtain ⟨w, frame, reached, member, begun, unopened, patient, size⟩ :=
    symbolic_talk (List.replicate 39985 0)
  refine ⟨w, frame, reached, member, begun, unopened, patient, fun now => ?_⟩
  have unreadable : frame.readable = false := by
    rw [List.length_replicate] at size
    unfold MessageFrame.readable
    rw [size]
    simp
  unfold openFrame openMessage
  dsimp only
  rw [unreadable]
  rfl

end PqSession

end Addition
