import Addition.Handshakes
import Addition.Ratchet

/-!
# Runs of a session

The world of a session has the two wallets, the frames that were sent and those that were
opened. A party sends or opens a frame; everything else may change except the session. One
invariant describes both sessions, the frames and what was opened: it is kept by whatever an
adversary without the secrets of the session delivers, as long as no frame without a ratchet
key reaches a session without a receiving chain.
-/

namespace Addition

namespace PqSession

open ByteStrings Checked FiniteTables KeySchedules

variable {S : Suite}

/-! ### Worlds -/

variable (S) in
/-- A frame that was sent, with its sender and its text. -/
structure Sent where
  side : Side
  frame : Frame S
  text : Bytes

variable (S) in
/-- Two wallets, the steps of the ratchet, the frames that were sent and those that were opened. -/
structure World where
  initiator : Device S
  responder : Device S
  steps : Nat
  sent : List (Sent S)
  opened : List (Side × Frame S)

/-- The wallet of a party. -/
def World.device (w : World S) : Side → Device S
  | .initiator => w.initiator
  | .responder => w.responder

/-- The wallet of a party is replaced. -/
def World.put (w : World S) (side : Side) (device : Device S) : World S :=
  match side with
  | .initiator => { w with initiator := device }
  | .responder => { w with responder := device }

theorem device_put (w : World S) (side tested : Side) (device : Device S) :
    (w.put side device).device tested = if tested = side then device else w.device tested := by
  cases side <;> cases tested <;> rfl

@[simp] theorem steps_put (w : World S) (side : Side) (device : Device S) :
    (w.put side device).steps = w.steps := by
  cases side <;> rfl

@[simp] theorem sent_put (w : World S) (side : Side) (device : Device S) :
    (w.put side device).sent = w.sent := by
  cases side <;> rfl

@[simp] theorem opened_put (w : World S) (side : Side) (device : Device S) :
    (w.put side device).opened = w.opened := by
  cases side <;> rfl

/-- A party's session. -/
def World.session (w : World S) (T : Thread S) (side : Side) : Option (Session S) :=
  (w.device side).sessions.lookup T.sid

/-- The steps once a party has sent. -/
def World.stepsAfter (w : World S) (T : Thread S) (side : Side) : Nat :=
  match w.session T side with
  | none => w.steps
  | some s => if s.needStep then w.steps + 1 else w.steps

/-- The world once a party has sent. -/
def World.wrote (w : World S) (T : Thread S) (side : Side) (device : Device S) (frame : MessageFrame S)
    (text : Bytes) : World S :=
  { w.put side device with
    steps := w.stepsAfter T side
    sent := ⟨side, .message frame, text⟩ :: w.sent }

/-- The world once a party has opened a frame. -/
def World.read (w : World S) (side : Side) (device : Device S) (frame : Frame S) : World S :=
  { w.put side device with opened := (side, frame) :: w.opened }

/-- The world of a session that was just started. -/
structure Started (T : Thread S) (w : World S) : Prop where
  begun : ∃ (former : Device S) (peer : KeyPackage) (text name iv : Bytes) (now : UInt64)
    (frame : Frame S), name.length = 16 ∧ T.sid = toHex name ∧
      startFrame former peer text now name ⟨(T.seeds 0).1, (T.seeds 0).2, iv⟩ =
        .ok (frame, w.initiator) ∧
      w.sent = [⟨.initiator, frame, text⟩]
  start : ∃ s, w.initiator.sessions.lookup T.sid = some s ∧ s.rk = T.start
  absent : w.responder.sessions.lookup T.sid = none
  steps : w.steps = 0
  opened : w.opened = []

/-- The worlds that a session reaches, with what may be sent and what may be delivered. -/
inductive Reached (T : Thread S) (maySend : World S → Side → Prop)
    (mayOpen : World S → Side → Frame S → Prop) : World S → Prop
  | start {w : World S} (started : Started T w) : Reached T maySend mayOpen w
  | send {w : World S} (reached : Reached T maySend mayOpen w) (side : Side) (text iv : Bytes)
      (frame : MessageFrame S) (device : Device S) (may : maySend w side) (drawn : iv.length = 12)
      (done : sendFrame (w.device side) T.sid text
        ⟨(T.seeds (w.steps + 1)).1, (T.seeds (w.steps + 1)).2, iv⟩ = .ok (frame, device)) :
      Reached T maySend mayOpen (w.wrote T side device frame text)
  | receive {w : World S} (reached : Reached T maySend mayOpen w) (side : Side) (frame : Frame S)
      (now : UInt64) (opened : Opened) (device : Device S) (may : mayOpen w side frame)
      (done : openFrame (w.device side) frame now = (.ok opened, device)) :
      Reached T maySend mayOpen (w.read side device frame)
  | elsewhere {w : World S} (reached : Reached T maySend mayOpen w) (side : Side) (device : Device S)
      (same : device.sessions.lookup T.sid = (w.device side).sessions.lookup T.sid) :
      Reached T maySend mayOpen (w.put side device)

/-! ### What the parties wrote -/

/-- A message frame of a step and a place. -/
structure Thread.WroteMessage (T : Thread S) (tally : Nat → Nat) (frame : MessageFrame S) (text : Bytes)
    (turn place : Nat) : Prop where
  sid : frame.sid = T.sid
  sealed_ : frame.ct = S.aeadSeal (T.key turn place) frame.iv frame.aad text
  pub : frame.rkPub = T.pub turn
  present : frame.rkPub ≠ []
  number : frame.n = (UInt32.ofNat place).toUInt64
  former : frame.pn = (UInt32.ofNat (before tally turn)).toUInt64
  capsule : 0 < turn → S.encaps (T.pub (turn - 1)) (T.seeds turn).1 = some (T.capsule turn) ∧
    frame.stepCt = (T.capsule turn).1 ∧ frame.stepTo = S.h32 (T.pub (turn - 1))
  front : turn = 0 → frame.stepCt = [] ∧ frame.stepTo = ascii "-"
  drawn : frame.iv.length = 12
  less : place < tally turn

/-- The init frame. -/
structure Thread.WroteInit (T : Thread S) (frame : InitFrame S) (text : Bytes) : Prop where
  sid : frame.sid = T.sid
  pub : frame.rkPub = T.pub 0
  sealed_ : ∃ transcript, frame.ct = S.aeadSeal (T.key 0 0) frame.iv (initAad (S := S) transcript) text

/-- A frame that was sent, of a step and a place. -/
def Thread.Wrote (T : Thread S) (tally : Nat → Nat) (sent : Sent S) (turn place : Nat) : Prop :=
  match sent.frame with
  | .init frame => turn = 0 ∧ place = 0 ∧ T.WroteInit frame sent.text
  | .message frame => T.WroteMessage tally frame sent.text turn place

/-- The steps of a session alternate: each side has seen all steps or all but the last, and all
when its peer made the last step that it knows. -/
def Alternate (turn : Side → Nat) (steps : Nat) : Prop :=
  ∀ side, turn side ≤ steps ∧ steps ≤ turn side + 1 ∧ (side.owns (turn side) = false → turn side = steps)

variable {steps : Nat} {turn : Side → Nat} {frame : MessageFrame S} {ck start mk : S.Key}
  {left s : Session S} {T : Thread S} {tally : Nat → Nat} {place : Side → Nat} {text : Bytes}
  {w : World S} {place' : Nat} {sent : Sent S} {turn' : Nat} {iv : Bytes} {opened : Opened}
  {now : UInt64}

/-- A side that knows a step of its peer last makes the next one. -/
theorem Alternate.made (alternate : Alternate turn steps) (side : Side)
    (foreign : side.owns (turn side) = false) :
    Alternate (Function.update turn side (turn side + 1)) (steps + 1) := by
  have isLast := (alternate side).2.2 foreign
  intro tested
  obtain ⟨below, above, latest⟩ := alternate tested
  by_cases same : tested = side
  · rw [same, Function.update_self, owns_succ, foreign]
    exact ⟨by omega, by omega, fun owned => absurd owned (by simp)⟩
  · rw [Function.update_of_ne same]
    have maker : tested = side.other := by
      cases side <;> cases tested <;> simp_all [Side.other]
    have current : turn tested = steps := by
      by_contra differs
      have behind : turn tested + 1 = turn side := by omega
      have owns : tested.owns (turn tested) = true := by
        by_contra unowned
        exact differs (latest (by simpa using unowned))
      have next := owns_succ tested (turn tested)
      rw [behind, owns, maker, owns_other, foreign] at next
      exact absurd next (by simp)
    refine ⟨by omega, by omega, fun unowned => ?_⟩
    rw [maker, owns_other, ← maker, current, ← isLast, foreign] at unowned
    exact absurd unowned (by simp)

/-- A side that made the last step it knows sees the next one of its peer. -/
theorem Alternate.seen (alternate : Alternate turn steps) (side : Side)
    (made : turn side + 1 ≤ turn side.other) :
    Alternate (Function.update turn side (turn side + 1)) steps := by
  intro tested
  obtain ⟨below, above, latest⟩ := alternate tested
  by_cases same : tested = side
  · have other := (alternate side.other).1
    rw [same] at above
    rw [same, Function.update_self]
    exact ⟨by omega, by omega, fun _ => by omega⟩
  · rw [Function.update_of_ne same]
    exact ⟨below, above, latest⟩

/-- What happens to both parties together. -/
structure Thread.Joint (T : Thread S) (w : World S) (turn place : Side → Nat) (tally : Nat → Nat) :
    Prop where
  fresh : T.Fresh
  holds : ∀ side s, w.session T side = some s → T.At side (turn side) (place side) tally s
  started : ∃ s, w.session T .initiator = some s
  absent : w.session T .responder = none → turn .responder = 0 ∧ ∀ frame, (.responder, frame) ∉ w.opened
  alternate : Alternate turn w.steps
  unmade : ∀ turn', w.steps < turn' → tally turn' = 0
  sent : ∀ sent ∈ w.sent, ∃ turn' place', T.Wrote tally sent turn' place' ∧
    sent.side.owns turn' = true ∧ turn' ≤ turn sent.side
  opened : ∀ side frame, (side, frame) ∈ w.opened → ∃ sent ∈ w.sent, sent.side = side.other ∧
    sent.frame = frame ∧ ∃ turn' place', T.Wrote tally sent turn' place' ∧
      Passed side (turn side) (place side) turn' place' ∧
      ∀ s, w.session T side = some s → s.Lacks (T.key turn' place')

/-! ### Texts under one authentication -/

theorem initAad_ne (transcript : Bytes) (frame : MessageFrame S) :
    initAad (S := S) transcript ≠ frame.aad := by
  intro same
  have heads := congrArg (List.take 8) same
  simp only [initAad, MessageFrame.aad, List.append_assoc] at heads
  rw [List.take_left' (by decide), List.take_left' (by decide)] at heads
  exact absurd heads (by decide)

/-- Frames of one session with the same authenticated data have the same fields. -/
theorem aad_injective (ideal : S.Ideal) {frame' : MessageFrame S} (sid : frame.sid = frame'.sid)
    (same : frame.aad = frame'.aad) (iv : frame.iv = frame'.iv) (ct : frame.ct = frame'.ct) :
    frame = frame' := by
  have bar : ∀ octets, byte '|' ∉ S.h32 octets := by
    intro octets member
    exact absurd (ideal.h32_hex octets _ member) (by decide)
  have digits : ∀ value, byte '|' ∉ decimal value := fun value => not_mem_decimal value _ (by decide)
  unfold MessageFrame.aad at same
  rw [sid] at same
  obtain ⟨fronts, numbers⟩ := cut_last (byte '|') _ _ _ _ (digits _) (digits _)
    ((List.append_assoc _ _ _).symm.trans (same.trans (List.append_assoc _ _ _)))
  obtain ⟨fronts, formers⟩ := cut_last (byte '|') _ _ _ _ (digits _) (digits _)
    ((List.append_assoc _ _ _).symm.trans (fronts.trans (List.append_assoc _ _ _)))
  simp only [List.append_assoc] at fronts
  have names := List.append_cancel_left (List.append_cancel_left (List.append_cancel_left fronts))
  obtain ⟨pubs, rest⟩ := cut_first (byte '|') _ _ _ _ (bar frame.rkPub) (bar frame'.rkPub) names
  obtain ⟨capsules, steps⟩ := cut_first (byte '|') _ _ _ _ (bar frame.stepCt) (bar frame'.stepCt) rest
  obtain ⟨sid₁, pub₁, stepCt₁, stepTo₁, pn₁, n₁, iv₁, ct₁⟩ := frame
  obtain ⟨sid₂, pub₂, stepCt₂, stepTo₂, pn₂, n₂, iv₂, ct₂⟩ := frame'
  cases sid
  cases iv
  cases ct
  cases steps
  cases ideal.h32_injective pubs
  cases ideal.h32_injective capsules
  cases UInt64.toNat_inj.mp (decimal_injective _ _ numbers)
  cases UInt64.toNat_inj.mp (decimal_injective _ _ formers)
  rfl

/-! ### Secrets of a session -/

/-- The keys that are derived from the first root. -/
inductive Secret (start : S.Key) : S.Key → Prop
  | start : Secret start start
  | first {rk : S.Key} (known : Secret start rk) : Secret start (S.initChain rk)
  | root {rk : S.Key} (known : Secret start rk) (ss : Bytes) : Secret start (S.kdfRk rk ss).1
  | chain {rk : S.Key} (known : Secret start rk) (ss : Bytes) : Secret start (S.kdfRk rk ss).2
  | message {ck : S.Key} (known : Secret start ck) : Secret start (S.kdfCk (some ck)).1
  | next {ck : S.Key} (known : Secret start ck) : Secret start (S.kdfCk (some ck)).2

theorem secret_walk (known : Secret start ck) (count : Nat) :
    Secret start (walk S.schedule ck count) := by
  induction count with
  | zero => exact known
  | succ count ih => exact ih.next

theorem secret_root (T : Thread S) (turn : Nat) : Secret T.start (T.root turn) := by
  induction turn with
  | zero => exact .start
  | succ turn ih => exact ih.root _

theorem secret_chain (T : Thread S) (turn place : Nat) : Secret T.start (T.chain turn place) := by
  apply secret_walk
  cases turn with
  | zero => exact .first .start
  | succ turn => exact (secret_root T turn).chain _

/-- A message key of a receiving chain that comes from the first root. -/
def FromRoot (start mk : S.Key) : Prop := ∃ ck, Secret start ck ∧ mk = (S.kdfCk (some ck)).1

theorem FromRoot.secret (known : FromRoot start mk) : Secret start mk := by
  obtain ⟨ck, known, rfl⟩ := known
  exact known.message

theorem fromRoot_key (T : Thread S) (turn place : Nat) : FromRoot T.start (T.key turn place) :=
  ⟨T.chain turn place, secret_chain T turn place, rfl⟩

/-- A frame that brings a ratchet key, or that comes to a session with a receiving chain. -/
def Keyed (s : Session S) (frame : MessageFrame S) : Prop := frame.rkPub ≠ [] ∨ s.ckr ≠ none

/-- A session with a receiving chain uses keys that come from the root. -/
theorem Advanced.fromRoot
    (advanced : Advanced s left frame mk) (chain : s.ckr = some ck) (known : Secret start ck) :
    FromRoot start mk := by
  obtain ⟨reached, skipped, rfl, -⟩ := advanced.next
  obtain ⟨kept, rfl⟩ := (skipTo_ok s reached _ ck chain skipped).same
  exact ⟨_, secret_walk known _, rfl⟩

/-- The key of a frame is a stored one or comes from the root. -/
theorem Thread.At.chosen {side : Side} {turn place : Nat} (at_ : T.At side turn place tally s)
    (keyed : Keyed s frame) (chosen : Chosen s left frame mk) :
    s.skipped.lookup (skipName (S := S) frame.rkPub frame.n.toUInt32.toNat) = some mk ∨
      FromRoot T.start mk := by
  cases chosen with
  | stored found erased => exact .inl found
  | along known advanced =>
    refine .inr ?_
    cases receiving : side.receiveTurn turn with
    | none =>
      obtain ⟨noChain, noPub⟩ := at_.deaf receiving
      exact absurd noChain (keyed.resolve_left (fun some => some (known.trans noPub)))
    | some last =>
      exact advanced.fromRoot (at_.receives last receiving).chain (secret_chain T last place)
  | fresh between unknown turned advanced =>
    obtain ⟨ss, chain, -, -⟩ := at_.turned turned
    exact .inr (advanced.fromRoot chain ((secret_root T turn).chain ss))

/-- A stored key is a key of the session. -/
theorem Thread.At.stored {side : Side} {turn place : Nat}
    {name : Bytes} (at_ : T.At side turn place tally s)
    (found : s.skipped.lookup name = some mk) : FromRoot T.start mk := by
  obtain ⟨turn', place', -, -, rfl⟩ := at_.kept name mk found
  exact fromRoot_key T turn' place'

/-! ### What an adversary can deliver -/

/-- The sealed text of a frame. -/
def Frame.box : Frame S → S.Box
  | .init frame => frame.ct
  | .message frame => frame.ct

/-- Without a secret of the session a frame carries a sealed text of the parties or one that
is sealed under no secret of the session. -/
def Thread.Built (T : Thread S) (w : World S) (frame : MessageFrame S) : Prop :=
  ∀ key iv aad text, Secret T.start key → frame.ct = S.aeadSeal key iv aad text →
    ∃ sent ∈ w.sent, sent.frame.box = frame.ct

/-- Deliveries of an adversary: the init frame, and any message frame it can build. -/
def Thread.Adversarial (T : Thread S) (w : World S) (side : Side) (frame : Frame S) : Prop :=
  match frame with
  | .init frame => ∃ sent ∈ w.sent, sent.frame = .init frame
  | .message frame => frame.sid = T.sid ∧ T.Built w frame ∧
      ∀ s, w.session T side = some s → Keyed s frame

/-- How a party comes to the key of a step and a place: it was stored, it lies ahead on the
chain, or it lies on the chain of the peer's next step. -/
inductive Thread.Moved (T : Thread S) (side : Side) (s left : Session S) (frame : MessageFrame S)
    (turn place turn' place' : Nat) : Nat → Nat → Prop
  | stored
      (found : s.skipped.lookup (skipName (S := S) frame.rkPub frame.n.toUInt32.toNat) =
        some (T.key turn' place'))
      (erased : left = { s with
        skipped := s.skipped.erase (skipName (S := S) frame.rkPub frame.n.toUInt32.toNat) }) :
      T.Moved side s left frame turn place turn' place' turn place
  | along (receiving : side.receiveTurn turn = some turn') (ahead : place ≤ place')
      (advanced : Advanced s left frame (T.key turn' place')) :
      T.Moved side s left frame turn place turn' place' turn (place' + 1)
  | fresh (between : Session S) (isNext : turn' = turn + 1) (owner : side.owns turn = true)
      (turned : newChain s frame = .ok between)
      (advanced : Advanced between left frame (T.key turn' place')) :
      T.Moved side s left frame turn place turn' place' (turn + 1) (place' + 1)

/-- What a party opens was written by its peer, and for this text. -/
theorem Thread.Joint.genuine (ideal : S.Ideal) (joint : T.Joint w turn place tally) {side : Side}
    (session : w.session T side = some s)
    (sid : frame.sid = T.sid) (built : T.Built w frame) (keyed : Keyed s frame)
    (done : decryptLocked s frame = .ok (text, left)) :
    ∃ sent ∈ w.sent, sent.side = side.other ∧ sent.frame = .message frame ∧ sent.text = text ∧
      ∃ turn' place', T.WroteMessage tally frame text turn' place' ∧ side.owns turn' = false ∧
        turn' ≤ turn side.other ∧ ∃ turn₁ place₁,
          T.Moved side s left frame (turn side) (place side) turn' place' turn₁ place₁ ∧
          T.At side turn₁ place₁ tally left ∧
          T.Opens side (turn side) (place side) s turn₁ place₁ left turn' place' := by
  have at_ := joint.holds side s session
  obtain ⟨mk, chose, opened⟩ := decryptLocked_ok s left frame text done
  have chosen := chooseKey_ok s left frame mk chose
  have isBox := (ideal.aead_exact mk frame.iv frame.aad frame.ct text).mp opened
  have known : Secret T.start mk := by
    obtain found | root := at_.chosen keyed chosen
    · exact (at_.stored found).secret
    · exact root.secret
  obtain ⟨sent, member, sameBox⟩ := built mk frame.iv frame.aad text known isBox
  obtain ⟨turn', place', wrote, owned, made⟩ := joint.sent sent member
  unfold Thread.Wrote at wrote
  cases kind : sent.frame with
  | init first =>
    rw [kind] at wrote sameBox
    obtain ⟨-, -, written⟩ := wrote
    obtain ⟨transcript, isFirst⟩ := written.sealed_
    obtain ⟨-, -, sameAad, -⟩ := ideal.aead_injective (isFirst.symm.trans (sameBox.trans isBox))
    exact absurd sameAad (initAad_ne transcript frame)
  | message other =>
    rw [kind] at wrote sameBox
    obtain ⟨sameKey, sameIv, sameAad, sameText⟩ :=
      ideal.aead_injective (wrote.sealed_.symm.trans (sameBox.trans isBox))
    cases aad_injective ideal (wrote.sid.trans sid.symm) sameAad sameIv sameBox
    rw [sameText] at wrote
    have isSide := side_eq side sent.side turn' owned
    -- the key decides which step the frame is of, and this step is not one of the reader's own
    cases chosen with
    | stored found erased =>
      rw [← sameKey] at found
      obtain ⟨_, _, ⟨last, -, foreign, -⟩, -, isKey⟩ := at_.kept _ _ found
      obtain ⟨rfl, rfl⟩ := key_injective ideal joint.fresh isKey
      rw [foreign, if_neg (by simp)] at isSide
      obtain ⟨reached, opens⟩ := at_.opens_stored ideal joint.fresh found
      rw [← erased] at reached opens
      exact ⟨sent, member, isSide, kind, sameText, turn', place', wrote, foreign, isSide ▸ made,
        turn side, place side, .stored found erased, reached, opens⟩
    | along isPub advanced =>
      cases receiving : side.receiveTurn (turn side) with
      | none =>
        obtain ⟨noChain, noPub⟩ := at_.deaf receiving
        exact absurd noChain (keyed.resolve_left (fun some => some (isPub.trans noPub)))
      | some last =>
        obtain ⟨count, isKey, reached, opens⟩ := at_.opens_along ideal joint.fresh receiving advanced
        obtain ⟨rfl, rfl⟩ := key_injective ideal joint.fresh (sameKey.trans isKey)
        have foreign := (receiveTurn_some side _ _ receiving).1
        rw [foreign, if_neg (by simp)] at isSide
        rw [isKey] at advanced
        exact ⟨sent, member, isSide, kind, sameText, turn', _, wrote, foreign, isSide ▸ made,
          turn side, _, .along receiving (Nat.le_add_right _ _) advanced, reached, opens⟩
    | fresh between unknown turned advanced =>
      rw [← sameKey] at advanced
      obtain ⟨isNext, opens⟩ := at_.opens_fresh ideal joint.fresh turned advanced wrote.pub
      cases owns : side.owns turn' with
      | true =>
        rw [owns, if_pos rfl] at isSide
        rw [isSide] at made
        omega
      | false =>
        have owner : side.owns (turn side) = true := by
          rw [isNext, owns_succ] at owns
          simpa using owns
        rw [owns, if_neg (by simp)] at isSide
        obtain ⟨reached, opened⟩ := opens owner
        exact ⟨sent, member, isSide, kind, sameText, turn', place', wrote, owns, isSide ▸ made,
          turn side + 1, place' + 1, .fresh between isNext owner turned advanced, reached, opened⟩

/-! ### Sending keeps the invariant -/

theorem session_put (w : World S) (T : Thread S) (side tested : Side) (device : Device S) :
    (w.put side device).session T tested =
      if tested = side then device.sessions.lookup T.sid else w.session T tested := by
  unfold World.session
  rw [device_put]
  split <;> rfl

theorem session_saved (w : World S) (T : Thread S) (side tested : Side) (s : Session S)
    (named : s.sid = T.sid) :
    (w.put side (saveSession (w.device side) s)).session T tested =
      if tested = side then some s else w.session T tested := by
  rw [session_put]
  unfold saveSession
  rw [← named]
  simp only [AList.lookup_insert]

theorem loadSession_ok {device : Device S} {sid : Bytes}
    (done : loadSession device sid = .ok s) : device.sessions.lookup sid = some s := by
  unfold loadSession at done
  split at done
  · exact absurd done (by simp)
  · split at done
    · exact absurd done (by simp)
    · rename_i found
      exact Except.ok.inj done ▸ found

/-- A message is sealed under the key of the next place. -/
theorem encryptLocked_ok {coins : Coins S} (done : encryptLocked s text coins = .ok (frame, left)) :
    ∃ stepped ck, ratchetStep s coins = .ok stepped ∧ stepped.cks = some ck ∧
      frame = sealedFrame stepped ck text coins.iv ∧
      left = { stepped with cks := some (S.kdfCk (some ck)).2, ns := stepped.ns + 1 } := by
  simp only [encryptLocked, bind_ok] at done
  obtain ⟨stepped, stepOk, rest⟩ := done
  split at rest
  · exact absurd rest (by simp)
  · rename_i ck chain
    simp only [pure_ok, Prod.mk.injEq] at rest
    exact ⟨stepped, ck, stepOk, chain, rest.1.symm, rest.2.symm⟩

/-- What was written stays written when another message is sent. -/
theorem Thread.Wrote.counted {turn : Nat}
    (wrote : T.Wrote tally sent turn' place') (apart : turn' ≠ turn + 2) :
    T.Wrote (counted tally turn) sent turn' place' := by
  unfold Thread.Wrote at wrote ⊢
  split
  · rename_i frame kind
    rw [kind] at wrote
    exact wrote
  · rename_i frame kind
    rw [kind] at wrote
    refine ⟨wrote.sid, wrote.sealed_, wrote.pub, wrote.present, wrote.number, ?_, wrote.capsule,
      wrote.front, wrote.drawn, ?_⟩
    · rw [before_counted _ _ _ apart]
      exact wrote.former
    · have less := wrote.less
      unfold PqSession.counted
      rw [Function.update_apply]
      split
      · rename_i same
        rw [← same]
        omega
      · exact less

/-- The frame of a message on the chain of the last step. -/
theorem Thread.At.wrote (ideal : S.Ideal) {side : Side} {turn place : Nat}
    (at_ : T.At side turn place tally s) (owned : side.owns turn = true) (chain : s.cks = some ck)
    (drawn : iv.length = 12) :
    T.WroteMessage (counted tally turn) (sealedFrame s ck text iv) text turn (tally turn) := by
  obtain ⟨isKey, -⟩ := at_.sent owned chain
  have sends := at_.sends turn (sendTurn_owned side turn owned)
  refine ⟨at_.sid, ?_, sends.pub, ?_, ?_, ?_, fun positive => ?_, sends.front, drawn, ?_⟩
  · rw [isKey]
    rfl
  · change s.myPub ≠ []
    rw [sends.pub]
    exact ideal.keypair_some sends.drawn
  · change s.ns.toUInt64 = _
    rw [sends.number]
  · change s.pn.toUInt64 = _
    rw [sends.former, before_counted _ _ _ (by omega)]
  · exact sends.capsule positive
  · unfold counted
    rw [Function.update_self]
    exact Nat.lt_succ_self _

theorem Thread.Joint.wrote (ideal : S.Ideal) (joint : T.Joint w turn place tally) {side : Side}
    {device : Device S} (drawn : iv.length = 12) (done : sendFrame (w.device side) T.sid text
      ⟨(T.seeds (w.steps + 1)).1, (T.seeds (w.steps + 1)).2, iv⟩ = .ok (frame, device)) :
    ∃ s left turn₁, w.session T side = some s ∧ device.sessions.lookup T.sid = some left ∧
      left.skipped = s.skipped ∧ turn₁ = (if s.needStep then turn side + 1 else turn side) ∧
      side.owns turn₁ = true ∧ side.receiveTurn turn₁ = side.receiveTurn (turn side) ∧
      T.WroteMessage (counted tally turn₁) frame text turn₁ (tally turn₁) ∧
      T.Joint (w.wrote T side device frame text) (Function.update turn side turn₁) place
        (counted tally turn₁) := by
  simp only [sendFrame, bind_ok, Prod.exists, pure_ok, Prod.mk.injEq] at done
  obtain ⟨s, loaded, frame', left, encrypted, rfl, rfl⟩ := done
  have session : w.session T side = some s := loadSession_ok loaded
  have at_ := joint.holds side s session
  obtain ⟨stepped, ck, stepOk, chain, rfl, rfl⟩ := encryptLocked_ok encrypted
  obtain ⟨below, above, latest⟩ := joint.alternate side
  have step := at_.step
  have late : s.needStep = true → turn side = w.steps := by
    intro needed
    rw [needed] at step
    exact latest (by simpa using step.symm)
  obtain ⟨turn₁, isTurn, owned, reached, sameKeys, still⟩ :=
    at_.stepped late (joint.unmade _ (Nat.lt_succ_self _)) stepOk
  obtain ⟨-, final⟩ := reached.sent owned chain
  have wrote : T.WroteMessage (counted tally turn₁) (sealedFrame stepped ck text iv) text turn₁
      (tally turn₁) := reached.wrote ideal owned chain drawn
  set left := { stepped with cks := some (S.kdfCk (some ck)).2, ns := stepped.ns + 1 } with isLeft
  have sessions := fun tested => session_saved w T side tested left reached.sid
  have after : w.stepsAfter T side = if s.needStep then w.steps + 1 else w.steps := by
    unfold World.stepsAfter
    rw [session]
  have alternate : Alternate (Function.update turn side turn₁) (w.stepsAfter T side) := by
    rw [after, isTurn]
    cases needed : s.needStep with
    | false => simpa using joint.alternate
    | true =>
      rw [needed] at step
      simpa using joint.alternate.made side (by simpa using step.symm)
  have grown : turn side ≤ turn₁ := by
    rw [isTurn]
    split <;> omega
  have within : turn₁ ≤ w.stepsAfter T side := by
    have known := (alternate side).1
    rwa [Function.update_self] at known
  have stepsLess : w.steps ≤ w.stepsAfter T side := by
    rw [after]
    split <;> omega
  have apart : ∀ turn', turn' ≤ w.steps → turn' ≠ turn₁ + 2 := fun turn' known => by omega
  have saved : (saveSession (w.device side) left).sessions.lookup T.sid = some left := by
    have own := sessions side
    rwa [session_put, if_pos rfl, if_pos rfl] at own
  refine ⟨s, left, turn₁, session, saved, sameKeys, isTurn, owned, still, wrote, joint.fresh,
    fun tested s' found => ?_, ?_, fun none => ?_, alternate, fun turn' late => ?_, fun sent member => ?_, fun tested opened member => ?_⟩
  · have found : (w.put side (saveSession (w.device side) left)).session T tested = some s' := found
    rw [sessions] at found
    by_cases same : tested = side
    · rw [if_pos same] at found
      cases Option.some.inj found
      rw [same, Function.update_self]
      exact final
    · rw [if_neg same] at found
      rw [Function.update_of_ne same]
      refine (joint.holds tested s' found).congr (fun turn' owns => Function.update_of_ne ?_ _ _)
      rintro rfl
      have maker := side_eq side tested turn' owns
      rw [owned, if_pos rfl] at maker
      exact same maker
  · change ∃ s, (w.put side (saveSession (w.device side) left)).session T .initiator = some s
    rw [sessions]
    split
    · exact ⟨_, rfl⟩
    · exact joint.started
  · have none : (w.put side (saveSession (w.device side) left)).session T .responder = Option.none := none
    rw [sessions] at none
    split at none
    · exact absurd none (by simp)
    · rename_i different
      rw [Function.update_of_ne different]
      refine ⟨(joint.absent none).1, fun frame member => (joint.absent none).2 frame ?_⟩
      simpa [World.wrote] using member
  · have late : w.stepsAfter T side < turn' := late
    unfold counted
    rw [Function.update_of_ne (by omega)]
    exact joint.unmade turn' (by omega)
  · change sent ∈ (⟨side, .message _, text⟩ : Sent S) :: w.sent at member
    obtain rfl | earlier := List.mem_cons.mp member
    · exact ⟨turn₁, tally turn₁, wrote, owned, by rw [Function.update_self]⟩
    · obtain ⟨turn', place', wrote', owns, made⟩ := joint.sent sent earlier
      have known := (joint.alternate sent.side).1
      refine ⟨turn', place', wrote'.counted (apart turn' (by omega)), owns, ?_⟩
      by_cases same : sent.side = side
      · rw [same, Function.update_self]
        rw [same] at made
        omega
      · rw [Function.update_of_ne same]
        exact made
  · have listed : (tested, opened) ∈ w.opened := by simpa [World.wrote] using member
    obtain ⟨sent, earlier, isSide, isFrame, turn', place', wrote', passed, lacks⟩ :=
      joint.opened tested opened listed
    have known : turn' ≤ w.steps := by
      obtain ⟨last, isLast, -, order⟩ := passed
      have most := (receiveTurn_some _ _ _ isLast).2.1
      have seen := (joint.alternate tested).1
      omega
    refine ⟨sent, List.mem_cons_of_mem _ earlier, isSide, isFrame, turn', place',
      wrote'.counted (apart turn' known), ?_, fun s' found => ?_⟩
    · by_cases same : tested = side
      · rw [same] at passed ⊢
        rw [Function.update_self]
        exact passed.congr still
      · rw [Function.update_of_ne same]
        exact passed
    · have found : (w.put side (saveSession (w.device side) left)).session T tested = some s' := found
      rw [sessions] at found
      split at found
      · rename_i same
        cases Option.some.inj found
        intro name key listed
        rw [isLeft] at listed
        exact lacks s (same ▸ session) name key (sameKeys ▸ listed)
      · exact lacks s' found

/-! ### Opening keeps the invariant -/

/-- A message that opens is readable, and its session is stored again. -/
theorem openMessage_ok {device left : Device S}
    (done : openMessage device frame = .ok (opened, left)) :
    frame.readable = true ∧ ∃ s s', device.sessions.lookup frame.sid = some s ∧
      decryptLocked s frame = .ok (opened.text, s') ∧ left = saveSession device s' := by
  simp only [openMessage, bind_ok, exists_unit, ensure_ok, Prod.exists, pure_ok, Prod.mk.injEq] at done
  obtain ⟨readable, s, loaded, text, s', decrypted, rfl, rfl⟩ := done
  exact ⟨readable, s, s', loadSession_ok loaded, decrypted, rfl⟩

/-- A frame that opens is the first of a session or a message in it. -/
theorem openFrame_ok {device left : Device S} {frame : Frame S}
    (done : openFrame device frame now = (.ok opened, left)) :
    (∃ first, frame = .init first ∧ openInit device first now = .ok (opened, left)) ∨
      ∃ later, frame = .message later ∧ openMessage device later = .ok (opened, left) := by
  unfold openFrame at done
  cases frame with
  | init first =>
    refine .inl ⟨first, rfl, ?_⟩
    dsimp only at done
    split at done
    · exact absurd done (by simp)
    · rename_i opened' left' outcome
      simp only [Prod.mk.injEq, Except.ok.injEq] at done
      obtain ⟨rfl, rfl⟩ := done
      exact outcome
  | message later =>
    refine .inr ⟨later, rfl, ?_⟩
    dsimp only at done
    split at done
    · exact absurd done (by simp)
    · rename_i opened' left' outcome
      simp only [Prod.mk.injEq, Except.ok.injEq] at done
      obtain ⟨rfl, rfl⟩ := done
      exact outcome

/-- A party opens a frame of its peer. -/
theorem Thread.Joint.opens (joint : T.Joint w turn place tally) {side : Side} {frame : Frame S}
    {turn₁ place₁ : Nat} (member : sent ∈ w.sent)
    (isSide : sent.side = side.other) (isFrame : sent.frame = frame)
    (wrote : T.Wrote tally sent turn' place')
    (alternate : Alternate (Function.update turn side turn₁) w.steps) (grown : turn side ≤ turn₁)
    (at_ : T.At side turn₁ place₁ tally left)
    (passes : Passed side turn₁ place₁ turn' place') (used : left.Lacks (T.key turn' place'))
    (kept : ∀ t p, (∃ other, (side, other) ∈ w.opened) → Passed side (turn side) (place side) t p →
      Passed side turn₁ place₁ t p ∧
      ((∀ s, w.session T side = some s → s.Lacks (T.key t p)) → left.Lacks (T.key t p))) :
    T.Joint (w.read side (saveSession (w.device side) left) frame) (Function.update turn side turn₁)
      (Function.update place side place₁) tally := by
  have sessions := fun tested => session_saved w T side tested left at_.sid
  refine ⟨joint.fresh, fun tested s' found => ?_, ?_, fun none => ?_, ?_, ?_, fun sent member => ?_,
    fun tested opened listed => ?_⟩
  · have found : (w.put side (saveSession (w.device side) left)).session T tested = some s' := found
    rw [sessions] at found
    by_cases same : tested = side
    · rw [if_pos same] at found
      cases Option.some.inj found
      rw [same, Function.update_self, Function.update_self]
      exact at_
    · rw [if_neg same] at found
      rw [Function.update_of_ne same, Function.update_of_ne same]
      exact joint.holds tested s' found
  · change ∃ s, (w.put side (saveSession (w.device side) left)).session T .initiator = some s
    rw [sessions]
    split
    · exact ⟨_, rfl⟩
    · exact joint.started
  · have none : (w.put side (saveSession (w.device side) left)).session T .responder = Option.none := none
    rw [sessions] at none
    split at none
    · exact absurd none (by simp)
    · rename_i different
      rw [Function.update_of_ne different]
      refine ⟨(joint.absent none).1, fun other listed => ?_⟩
      obtain isNew | earlier := List.mem_cons.mp listed
      · exact different (congrArg Prod.fst isNew)
      · exact (joint.absent none).2 other (by simpa using earlier)
  · simpa [World.read] using alternate
  · simpa [World.read] using joint.unmade
  · obtain ⟨turn'', place'', wrote', owns, made⟩ := joint.sent sent (by simpa [World.read] using member)
    refine ⟨turn'', place'', wrote', owns, ?_⟩
    by_cases same : sent.side = side
    · rw [same, Function.update_self]
      rw [same] at made
      omega
    · rw [Function.update_of_ne same]
      exact made
  · have still : ∀ sent ∈ w.sent, sent ∈ (w.read side (saveSession (w.device side) left) frame).sent := by
      intro sent member
      simpa [World.read] using member
    obtain isNew | earlier := List.mem_cons.mp listed
    · simp only [Prod.mk.injEq] at isNew
      obtain ⟨rfl, rfl⟩ := isNew
      refine ⟨sent, still sent member, isSide, isFrame, turn', place', wrote, ?_, fun s' found => ?_⟩
      · rw [Function.update_self, Function.update_self]
        exact passes
      · have found : (w.put tested (saveSession (w.device tested) left)).session T tested = some s' :=
          found
        rw [sessions, if_pos rfl] at found
        exact Option.some.inj found ▸ used
    · have earlier : (tested, opened) ∈ w.opened := by simpa using earlier
      obtain ⟨sent', member', isSide', isFrame', turn'', place'', wrote', passed, lacks⟩ :=
        joint.opened tested opened earlier
      refine ⟨sent', still sent' member', isSide', isFrame', turn'', place'', wrote', ?_,
        fun s' found => ?_⟩
      · by_cases same : tested = side
        · cases same
          rw [Function.update_self, Function.update_self]
          exact (kept turn'' place'' ⟨opened, earlier⟩ passed).1
        · rw [Function.update_of_ne same, Function.update_of_ne same]
          exact passed
      · have stored : (w.put side (saveSession (w.device side) left)).session T tested = some s' := found
        rw [sessions] at stored
        split at stored
        · rename_i same
          cases same
          exact Option.some.inj stored ▸ (kept turn'' place'' ⟨opened, earlier⟩ passed).2 lacks
        · exact lacks s' stored

/-- The init frame starts the session of the responder. -/
theorem openInit_ok (ideal : S.Ideal) {device left : Device S} {frame : InitFrame S}
    (written : T.WroteInit frame text) (done : openInit device frame now = .ok (opened, left)) :
    device.sessions.lookup T.sid = none ∧ opened.text = text ∧ ∃ s, left = saveSession device s ∧
      T.At .responder 0 1 tally s ∧ s.skipped = ∅ := by
  simp only [openInit, bind_ok, exists_unit, ensure_ok, pure_ok, Prod.mk.injEq] at done
  obtain ⟨-, absent, sender, -, -, -, initSk, -, ss1, -, keys, -, text', opens, rfl, rfl⟩ := done
  obtain ⟨transcript, isBox⟩ := written.sealed_
  obtain ⟨sameKey, -, -, sameText⟩ :=
    ideal.aead_injective (isBox.symm.trans ((ideal.aead_exact _ _ _ _ _).mp (required_ok opens)))
  have isRoot := MacKey.derived.inj (ideal.front_injective
    (MacKey.derived.inj (ideal.front_injective sameKey).1)).1
  rw [written.sid] at absent
  refine ⟨Option.isNone_iff_eq_none.mp absent, sameText.symm, _, rfl, ?_, rfl⟩
  refine ⟨written.sid, isRoot.symm, rfl, fun last none => absurd none (by simp [Side.sendTurn, Side.owns]),
    fun _ => ⟨rfl, rfl, rfl⟩, fun last receiving => ?_, fun none => ?_, fun name found listed => ?_⟩
  · cases Option.some.inj ((receiveTurn_foreign .responder 0 rfl).symm.trans receiving)
    refine ⟨?_, rfl, written.pub⟩
    change some (S.kdfCk (some (S.initChain _))).2 = some (S.kdfCk (some (S.initChain T.start))).2
    exact congrArg (fun rk => some (S.kdfCk (some (S.initChain rk))).2) isRoot.symm
  · exact absurd ((receiveTurn_foreign .responder 0 rfl).symm.trans none) (by simp)
  · exact absurd listed (by simp [secondSession])

/-- Both parties after a party opened a message. -/
theorem Thread.Joint.openedMessage (ideal : S.Ideal)
    (joint : T.Joint w turn place tally) {side : Side} (session : w.session T side = some s)
    (sid : frame.sid = T.sid) (built : T.Built w frame) (keyed : Keyed s frame)
    (done : decryptLocked s frame = .ok (text, left)) :
    left.sid = T.sid ∧
    ∃ sent ∈ w.sent, sent.side = side.other ∧ sent.frame = .message frame ∧ sent.text = text ∧
      ∃ turn' place' turn₁ place₁, T.WroteMessage tally frame text turn' place' ∧ turn' ≤ w.steps ∧
        T.Moved side s left frame (turn side) (place side) turn' place' turn₁ place₁ ∧
        (Passed side (turn side) (place side) turn' place' → ¬ s.Lacks (T.key turn' place')) ∧
        T.Joint (w.read side (saveSession (w.device side) left) (.message frame))
          (Function.update turn side turn₁) (Function.update place side place₁) tally := by
  obtain ⟨sent, member, isSide, isFrame, isText, turn', place', wrote, foreign, made, turn₁, place₁, moved,
    at_, opens⟩ := joint.genuine ideal session sid built keyed done
  have alternate : turn side ≤ turn₁ ∧ Alternate (Function.update turn side turn₁) w.steps := by
    cases moved with
    | stored found erased =>
      rw [Function.update_eq_self]
      exact ⟨Nat.le_refl _, joint.alternate⟩
    | along receiving ahead advanced =>
      rw [Function.update_eq_self]
      exact ⟨Nat.le_refl _, joint.alternate⟩
    | fresh between isNext owner turned advanced =>
      exact ⟨Nat.le_succ _, joint.alternate.seen side (isNext ▸ made)⟩
  have written : T.Wrote tally sent turn' place' := by
    unfold Thread.Wrote
    rw [isFrame, isText]
    exact wrote
  have known : turn' ≤ w.steps := le_trans made (joint.alternate side.other).1
  exact ⟨at_.sid, sent, member, isSide, isFrame, isText, turn', place', turn₁, place₁, wrote, known, moved,
    opens.once,
    joint.opens member isSide isFrame written alternate.2 alternate.1 at_ opens.passes opens.used
      (fun t p _ passed => ⟨opens.keeps t p passed, fun lacks =>
        opens.lacks t p passed (lacks s session)⟩)⟩

/-- Both parties after the responder opened the init frame. -/
theorem Thread.Joint.openedInit (ideal : S.Ideal) (joint : T.Joint w turn place tally) {side : Side}
    {left : Device S} {frame : InitFrame S}
    (member : sent ∈ w.sent) (isFrame : sent.frame = .init frame)
    (done : openInit (w.device side) frame now = .ok (opened, left)) :
    side = .responder ∧ w.session T side = none ∧ sent.side = .initiator ∧ opened.text = sent.text ∧
      T.Joint (w.read side left (.init frame)) turn (Function.update place side 1) tally := by
  obtain ⟨turn', place', wrote, owned, made⟩ := joint.sent sent member
  have written := wrote
  unfold Thread.Wrote at written
  rw [isFrame] at written
  obtain ⟨rfl, rfl, written⟩ := written
  obtain ⟨absent, isText, s, rfl, at_, noKeys⟩ := openInit_ok ideal written done
  have isResponder : side = .responder := by
    cases side with
    | responder => rfl
    | initiator =>
      obtain ⟨s', session⟩ := joint.started
      exact absurd (absent.symm.trans session) (by simp)
  cases isResponder
  have isSide : sent.side = .initiator := side_eq .initiator sent.side 0 owned
  obtain ⟨isFirst, unopened⟩ := joint.absent absent
  refine ⟨rfl, absent, isSide, isText, ?_⟩
  have same : Function.update turn .responder 0 = turn := by
    rw [← isFirst, Function.update_eq_self]
  have joined : T.Joint (w.read .responder (saveSession (w.device .responder) s) (.init frame))
      (Function.update turn .responder 0) (Function.update place .responder 1) tally :=
    joint.opens member isSide isFrame wrote (same.symm ▸ joint.alternate) (by omega) at_
    ⟨0, receiveTurn_foreign .responder 0 rfl, rfl, .inr ⟨rfl, Nat.zero_lt_one⟩⟩
    (fun name found listed => absurd listed (by rw [noKeys]; simp))
    (fun t p some => absurd some (fun ⟨other, listed⟩ => unopened other listed))
  rwa [same] at joined

theorem session_elsewhere {side : Side} {device : Device S}
    (same : device.sessions.lookup T.sid = (w.device side).sessions.lookup T.sid) (tested : Side) :
    (w.put side device).session T tested = w.session T tested := by
  rw [session_put]
  split
  · rename_i isSide
    exact isSide ▸ same
  · rfl

/-- A party whose session stays as it is may do anything else. -/
theorem Thread.Joint.elsewhere
    (joint : T.Joint w turn place tally) {side : Side} {device : Device S}
    (same : device.sessions.lookup T.sid = (w.device side).sessions.lookup T.sid) :
    T.Joint (w.put side device) turn place tally := by
  have sessions := session_elsewhere same
  refine ⟨joint.fresh, fun tested s found => joint.holds tested s ((sessions tested).symm.trans found),
    ?_, fun none => ?_, ?_, ?_, ?_, fun tested opened listed => ?_⟩
  · rw [sessions]
    exact joint.started
  · rw [sessions] at none
    rw [opened_put]
    exact joint.absent none
  · rw [steps_put]
    exact joint.alternate
  · rw [steps_put]
    exact joint.unmade
  · rw [sent_put]
    exact joint.sent
  · rw [opened_put] at listed
    obtain ⟨sent, member, isSide, isFrame, turn', place', wrote, passed, lacks⟩ :=
      joint.opened tested opened listed
    rw [sent_put]
    exact ⟨sent, member, isSide, isFrame, turn', place', wrote, passed,
      fun s found => lacks s ((sessions tested).symm.trans found)⟩

/-! ### Runs -/

/-- The counts of a session that was just started: the init frame. -/
def firstTally (turn : Nat) : Nat := if turn = 0 then 1 else 0

/-- A session that was just started. -/
theorem Started.joint (ideal : S.Ideal) (started : Started T w) :
    T.Joint w (fun _ => 0) (fun _ => 0) firstTally := by
  obtain ⟨former, peer, text, name, iv, now, frame, -, isSid, done, isSent⟩ := started.begun
  obtain ⟨s, session, isStart⟩ := started.start
  obtain ⟨idPk, idSk, mine, ct1, ss1, myPub, mySk, sig, -, -, -, -, drawn, -, isFrame, isDevice⟩ :=
    startFrame_ok done
  have isPair : T.pair 0 = (myPub, mySk) := by
    unfold Thread.pair
    rw [drawn]
    rfl
  rw [← isSid] at isFrame isDevice
  set begun := firstSession T.sid (S.fingerprint idPk) peer mine ct1 ss1 myPub mySk sig text iv with isBegun
  have sidIs : begun.1.sid = T.sid := rfl
  have isSession : s = begun.1 := by
    rw [isDevice] at session
    unfold saveSession at session
    rw [sidIs, AList.lookup_insert] at session
    exact (Option.some.inj session).symm
  have rooted : begun.1.rk = T.start := by rw [← isSession, isStart]
  have at_ : T.At .initiator 0 0 firstTally s := by
    rw [isSession]
    have sending := sendTurn_owned .initiator 0 rfl
    have none : Side.receiveTurn .initiator 0 = Option.none := rfl
    refine ⟨sidIs, rooted, rfl, fun last found => ?_,
      fun silent => absurd (sending.symm.trans silent) (by simp),
      fun last found => absurd (none.symm.trans found) (by simp), fun _ => ⟨rfl, rfl⟩,
      fun name found listed => absurd listed (by simp [isBegun, firstSession])⟩
    cases Option.some.inj (sending.symm.trans found)
    refine ⟨?_, rfl, rfl, ?_, ?_, ?_, fun positive => absurd positive (Nat.lt_irrefl 0),
      fun _ => ⟨rfl, rfl⟩⟩
    · change some (S.kdfCk (some (S.initChain begun.1.rk))).2 = _
      rw [rooted]
      rfl
    · exact (congrArg Prod.fst isPair).symm
    · exact (congrArg Prod.snd isPair).symm
    · rw [isPair]
      exact drawn
  refine ⟨?_, fun side s' found => ?_, ⟨s, session⟩, fun _ => ⟨rfl, fun other listed => ?_⟩,
    fun side => ?_, fun turn' late => ?_, fun sent member => ?_, fun side opened listed => ?_⟩
  · intro rk secret
    rw [← rooted]
    exact ideal.initRoot_fresh _ _ rk secret
  · cases side with
    | initiator => exact Option.some.inj (session.symm.trans found) ▸ at_
    | responder => exact absurd (started.absent.symm.trans found) (by simp)
  · rw [started.opened] at listed
    exact absurd listed List.not_mem_nil
  · rw [started.steps]
    exact ⟨Nat.le_refl _, Nat.zero_le _, fun _ => rfl⟩
  · rw [started.steps] at late
    unfold firstTally
    rw [if_neg (by omega)]
  · rw [isSent, List.mem_singleton] at member
    refine ⟨0, 0, ?_, by rw [member]; rfl, Nat.zero_le _⟩
    unfold Thread.Wrote
    rw [member, isFrame]
    refine ⟨rfl, rfl, rfl, (congrArg Prod.fst isPair).symm,
      transcriptOf (S := S) T.sid (peer.hash S) (mine.hash S) ct1 myPub, ?_⟩
    change S.aeadSeal (S.kdfCk (some (S.initChain begun.1.rk))).1 iv _ text = _
    rw [rooted]
    rfl
  · rw [started.opened] at listed
    exact absurd listed List.not_mem_nil

/-- The invariant holds in every world that an adversary can bring about. -/
theorem Reached.joint (ideal : S.Ideal) {maySend : World S → Side → Prop}
    {mayOpen : World S → Side → Frame S → Prop}
    (allowed : ∀ w side frame, (∃ turn place tally, T.Joint w turn place tally) →
      mayOpen w side frame → T.Adversarial w side frame)
    (reached : Reached T maySend mayOpen w) : ∃ turn place tally, T.Joint w turn place tally := by
  induction reached with
  | start started => exact ⟨_, _, _, started.joint ideal⟩
  | send reached side text iv frame device may drawn done ih =>
    obtain ⟨turn, place, tally, joint⟩ := ih
    obtain ⟨_, _, _, -, -, -, -, -, -, -, next⟩ := joint.wrote ideal drawn done
    exact ⟨_, _, _, next⟩
  | receive reached side frame now opened device may done ih =>
    obtain ⟨turn, place, tally, joint⟩ := ih
    have adversarial := allowed _ side frame ⟨turn, place, tally, joint⟩ may
    obtain ⟨first, rfl, opens⟩ | ⟨later, rfl, opens⟩ := openFrame_ok done
    · obtain ⟨sent, member, isFrame⟩ := adversarial
      exact ⟨_, _, _, (joint.openedInit ideal member isFrame opens).2.2.2.2⟩
    · obtain ⟨sid, built, keyed⟩ := adversarial
      obtain ⟨-, s, left, session, decrypted, rfl⟩ := openMessage_ok opens
      rw [sid] at session
      obtain ⟨-, _, _, _, _, _, _, _, _, _, _, _, _, _, next⟩ :=
        joint.openedMessage ideal session sid built (keyed s session) decrypted
      exact ⟨_, _, _, next⟩
  | elsewhere reached side device same ih =>
    obtain ⟨turn, place, tally, joint⟩ := ih
    exact ⟨_, _, _, joint.elsewhere same⟩

end PqSession

end Addition
