import Addition.ChannelRuns
import Mathlib.Logic.Relation

/-!
# Opening a channel, and what its state goes through

The two ways a channel comes about: the messages OPEN and FUND of a peer that funds it,
and the command of the node that funds it. Then the moves that all steps are made of, as
far as the current and the pending state, their signatures and the terms go.
-/

namespace Addition.Channels

open ByteStrings Checked FiniteTables TextLines Script

variable (P : Primitives)

/-! ### Opening -/

/-- `safe_id`. -/
def safeId (id : Bytes) : Bool := !id.isEmpty && decide (id.length ≤ 64) && id.all isHex

/-- `handle_channel_message`, OPEN, with the keys of the wallet that is named. The delay
and the fee are the defaults of `Info`. -/
def handleOpen (keys : Option WalletKeys) (seed : Bytes) (fields : List Bytes) :
    Except String (Bytes × Channel) := do
  ensure (decide (fields.length = 10) && safeId (fields.getD 1 [])) "bad OPEN"
  match keys with
  | none => .error "unknown wallet"
  | some keys =>
    match stoull (fields.getD 6 []), stoull (fields.getD 7 []) with
    | some capacity, some push =>
      ensure (!(decide (capacity < 2) || decide (push > capacity) || decide (capacity - push < 1)))
        "bad capacity"
      let ch := openingChannel keys (fields.getD 5 []) false
        ⟨fields.getD 4 [], keys.address, capacity, [], 0, 6, 1⟩ seed (fields.getD 8 []) (fields.getD 9 [])
      pure (chanOk ++ keys.address ++ ascii "|" ++ keys.publicKey ++ ascii "|" ++ ch.revHash P 0 ++
        ascii "|" ++ ch.revHash P 1 ++ ascii "|" ++ decimal push.toNat, ch)
    | _, _ => .error "bad OPEN"

/-- `Channel::set_funding`. -/
def setFunding (ch : Channel) (txid : Bytes) (vout : UInt32) : Channel :=
  { ch with info := { ch.info with fundingTxid := txid, fundingVout := vout } }

/-- `handle_channel_message`, FUND, with the channel that was opened, if it is known. -/
def handleFund (opening : Option Channel) (taken : Bytes → Bool) (fields : List Bytes) :
    Except String (Bytes × Channel) := do
  ensure (decide (fields.length = 6)) "bad FUND"
  match opening with
  | none => .error "unknown channel open"
  | some ch =>
    ensure (safeId (fields.getD 2 []) && !taken (fields.getD 2 [])) "unknown channel open"
    match stoull (fields.getD 4 []) with
    | none => .error "bad FUND"
    | some vout =>
      ensure (fields.getD 2 [] == (fields.getD 3 []).take 16) "channel id mismatch"
      let ch := setFunding ch (fields.getD 3 []) vout.toUInt32
      match cutAt (byte '#') (fields.getD 5 []) with
      | (_, none) => .error "bad initial state"
      | (text, some sig) =>
        match decodeState text with
        | none => .error "bad initial state"
        | some initial =>
          ensure (decide (initial.n = 0) && initial.htlcs.isEmpty &&
            decide (initial.balA + initial.balB = ch.info.capacity)) "bad initial state"
          let ch ← receiveCommitSig P ch initial sig
          pure (chanOk ++ signRemoteCommitment P ch initial, ch)

/-- `rchan_open` on the funder's side, with the fields of the peer's answers. -/
def rchanOpen (keys : WalletKeys) (seed : Bytes) (capacity push : UInt64) (reply : List Bytes)
    (txid : Bytes) (vout : UInt32) (sig : Bytes) : Except String Channel := do
  ensure (!(decide (capacity < 2) || decide (push > capacity - 1))) "usage"
  ensure (decide (reply.length = 5)) "bad peer reply"
  receiveCommitSig P (openingChannel keys (reply.getD 1 []) true
    ⟨keys.address, reply.getD 0 [], capacity, txid, vout, 6, 1⟩ seed (reply.getD 2 []) (reply.getD 3 []))
    ⟨0, capacity - push, push, [], 0⟩ sig

/-- The channels of a node and a peer that sends anything. -/
inductive ChannelRun : RemoteChannel → Prop
  | funded (keys : WalletKeys) (seed : Bytes) (openFields fundFields : List Bytes)
      (taken : Bytes → Bool) (reply reply' : Bytes) (opening ch : Channel)
      (opens : handleOpen P (some keys) seed openFields = .ok (reply, opening))
      (funds : handleFund P (some opening) taken fundFields = .ok (reply', ch)) :
      ChannelRun ⟨.opened, ch, .idle, []⟩
  | opened (keys : WalletKeys) (seed : Bytes) (capacity push : UInt64) (reply : List Bytes)
      (txid : Bytes) (vout : UInt32) (sig : Bytes) (ch : Channel)
      (opens : rchanOpen P keys seed capacity push reply txid vout sig = .ok ch) :
      ChannelRun ⟨.opened, ch, .idle, []⟩
  | next (rc : RemoteChannel) (event : Event) (before : ChannelRun rc) :
      ChannelRun (step P rc event).2

variable {P}

/-- What OPEN leaves behind. -/
theorem handleOpen_ok (keys : WalletKeys) (seed : Bytes) (fields : List Bytes) (reply : Bytes)
    (ch : Channel) (opens : handleOpen P (some keys) seed fields = .ok (reply, ch)) :
    ∃ remotePub info h0 h1, info.addrB = keys.address ∧
      ch = openingChannel keys remotePub false info seed h0 h1 := by
  simp only [handleOpen, bind_ok, exists_unit, ensure_ok] at opens
  obtain ⟨_, opens⟩ := opens
  split at opens
  · simp only [bind_ok, exists_unit, ensure_ok, pure_ok, Prod.mk.injEq] at opens
    obtain ⟨_, _, rfl⟩ := opens
    exact ⟨_, _, _, _, rfl, rfl⟩
  · simp at opens

/-- What FUND accepts. -/
theorem handleFund_ok (opening ch : Channel) (taken : Bytes → Bool) (fields : List Bytes)
    (reply : Bytes) (funds : handleFund P (some opening) taken fields = .ok (reply, ch)) :
    ∃ txid vout initial sig, initial.n = 0 ∧ initial.htlcs = [] ∧
      initial.balA + initial.balB = opening.info.capacity ∧
      receiveCommitSig P (setFunding opening txid vout) initial sig = .ok ch := by
  simp only [handleFund, bind_ok, exists_unit, ensure_ok] at funds
  obtain ⟨_, _, funds⟩ := funds
  split at funds
  · simp at funds
  · simp only [bind_ok, exists_unit, ensure_ok] at funds
    obtain ⟨_, funds⟩ := funds
    split at funds
    · simp at funds
    · split at funds
      · simp at funds
      · simp only [bind_ok, exists_unit, ensure_ok, pure_ok, Prod.mk.injEq, Bool.and_eq_true,
          decide_eq_true_eq, List.isEmpty_iff] at funds
        obtain ⟨⟨⟨first, noHtlcs⟩, sum⟩, after, received, _, rfl⟩ := funds
        exact ⟨_, _, _, _, first, noHtlcs, sum, received⟩

/-- What the funder starts with. -/
theorem rchanOpen_ok (keys : WalletKeys) (seed : Bytes) (capacity push : UInt64) (reply : List Bytes)
    (txid : Bytes) (vout : UInt32) (sig : Bytes) (ch : Channel)
    (opens : rchanOpen P keys seed capacity push reply txid vout sig = .ok ch) :
    2 ≤ capacity ∧ push ≤ capacity - 1 ∧
      ∃ remotePub info h0 h1, info.addrA = keys.address ∧ info.capacity = capacity ∧ info.fee = 1 ∧
        receiveCommitSig P (openingChannel keys remotePub true info seed h0 h1)
          ⟨0, capacity - push, push, [], 0⟩ sig = .ok ch := by
  simp only [rchanOpen, bind_ok, exists_unit, ensure_ok, Bool.not_eq_true', Bool.or_eq_false_iff,
    decide_eq_false_iff_not, UInt64.not_lt] at opens
  obtain ⟨⟨enough, pushed⟩, _, received⟩ := opens
  exact ⟨enough, pushed, _, _, _, _, rfl, rfl, rfl, received⟩

/-! ### Moves -/

/-- The preimage that an UPD gives to the classification. -/
def preimageOf (fields : List Bytes) : Bytes :=
  let kind := if fields.length = 6 then fields.getD 4 [] else ascii "PAY"
  let extra := if fields.length = 6 then fields.getD 5 [] else ascii "-"
  if kind = ascii "SETTLE" then extra else []

/-- The preimage that comes with an event. -/
def Event.preimage : Event → Bytes
  | .message _ fields => preimageOf fields
  | _ => []

/-- The state that an event makes the endpoint propose, as the outbox gives it back. -/
def Event.proposals : Event → List State
  | .propose _ _ next => (decodeState (encodeState next)).toList
  | _ => []

/-- A proposal in the outbox was there before. -/
def SameProposal (rc after : RemoteChannel) : Prop :=
  after.outPhase = .upd → rc.outPhase = .upd ∧ after.outState = rc.outState

/-- The states of a channel, their signatures and the terms are the same. -/
structure SameStates (ch after : Channel) : Prop where
  cur : after.cur = ch.cur
  pending : after.pending = ch.pending
  sigCur : after.remoteSigCur = ch.remoteSigCur
  sigPending : after.remoteSigPending = ch.remoteSigPending
  history : after.history = ch.history
  abandoned : after.abandoned = ch.abandoned
  terms : after.terms = ch.terms

theorem SameStates.refl (ch : Channel) : SameStates ch ch := ⟨rfl, rfl, rfl, rfl, rfl, rfl, rfl⟩

/-- One move of an endpoint's states at an event. A pending state comes from the peer and was
classified; a state of the outbox becomes current as soon as the peer has signed it. -/
inductive Move (P : Primitives) (event : Event) (rc after : RemoteChannel) : Prop
  | keeps (states : SameStates rc.ch after.ch) (proposal : SameProposal rc after)
  | proposes (next : State) (proposed : event.proposals = (decodeState (encodeState next)).toList)
      (shape : after = { rc with outPhase := .upd, outState := encodeState next })
  | receives (next : State) (sig : Bytes) (height : UInt64) (update : PeerUpdate) (ch : Channel)
      (classified : classifyPeerUpdate P rc.ch next event.preimage height = .ok update)
      (received : receiveCommitSig P rc.ch next sig = .ok ch) (shape : after = { rc with ch := ch })
  | drops (shape : after = { rc with ch := dropPending rc.ch })
  | abandons (phase : rc.outPhase = .upd) (shape : after = rchanAbandonOut rc)
  | advances (pending : State) (flight : rc.ch.pending = some pending)
      (states : SameStates (revokeAndAdvance P rc.ch pending).2 after.ch)
      (proposal : SameProposal rc after)
  | countersigned (next : State) (sig : Bytes) (ch : Channel) (phase : rc.outPhase = .upd)
      (read : decodeState rc.outState = some next)
      (received : receiveCommitSig P rc.ch next sig = .ok ch)
      (shape : after = { rc with ch := (revokeAndAdvance P ch next).2, outPhase := .rev })

/-- The moves of one step. -/
abbrev Moves (P : Primitives) (event : Event) : RemoteChannel → RemoteChannel → Prop :=
  Relation.ReflTransGen (Move P event)

variable {event : Event}

theorem Move.moves {rc after : RemoteChannel} (move : Move P event rc after) :
    Moves P event rc after := .single move

/-- A step that changes neither a state nor the outbox. -/
theorem moves_same (rc after : RemoteChannel) (states : SameStates rc.ch after.ch)
    (proposal : SameProposal rc after) : Moves P event rc after :=
  (Move.keeps states proposal).moves

theorem moves_abandon (rc : RemoteChannel) : Moves P event rc (rchanAbandonOut rc) := by
  by_cases phase : rc.outPhase = .upd
  · exact (Move.abandons phase rfl).moves
  · have same : rchanAbandonOut rc = rc := if_pos phase
    rw [same]

theorem receiveRevoke_states (ch after : Channel) (revoke : Revoke)
    (received : receiveRevoke P ch revoke = .ok after) : SameStates ch after := by
  obtain ⟨_, _, rfl⟩ := (receiveRevoke_ok ch after revoke).mp received
  exact ⟨rfl, rfl, rfl, rfl, rfl, rfl, rfl⟩

theorem moves_acceptUpd (height : UInt64) (saved : Bool) (rc : RemoteChannel) (next : State)
    (sig kind extra : Bytes)
    (told : event.preimage = if kind = ascii "SETTLE" then extra else []) :
    Moves P event rc (acceptUpd P height saved rc next sig kind extra).after := by
  unfold acceptUpd
  rw [← told]
  split
  · exact .refl
  · -- the route is looked at only when an HTLC is added
    rename_i update classified
    cases update
    all_goals
      repeat' split
    all_goals first
      | exact .refl
      | exact (Move.receives next sig height _ _ classified (by assumption) rfl).moves

theorem moves_resolveOut (height : UInt64) (saved : Bool) (rc : RemoteChannel) (next : State)
    (sig kind extra : Bytes)
    (told : event.preimage = if kind = ascii "SETTLE" then extra else []) :
    Moves P event rc (resolveOut P height saved rc next sig kind extra).after := by
  unfold resolveOut
  split
  · exact .refl
  · split
    · exact .refl
    · exact (moves_abandon rc).trans (moves_acceptUpd height saved _ next sig kind extra told)
  · exact moves_acceptUpd height saved rc next sig kind extra told

theorem moves_upd (height : UInt64) (saved : Bool) (rc : RemoteChannel) (fields : List Bytes)
    (told : event.preimage = preimageOf fields) :
    Moves P event rc (handleUpd P height saved rc fields).after := by
  unfold handleUpd
  dsimp only
  split
  · exact .refl
  split
  · exact .refl
  split
  · exact moves_resolveOut height saved rc _ _ _ _ told
  split
  · exact .refl
  split
  · exact .refl
  · exact (Move.drops rfl).moves.trans
      (moves_resolveOut height saved { rc with ch := dropPending rc.ch } _ _ _ _ told)

theorem moves_rev (saved : Bool) (fault : RevFault) (rc : RemoteChannel) (fields : List Bytes) :
    Moves P event rc (handleRev P saved fault rc fields).after := by
  unfold handleRev
  split
  · exact .refl
  split
  · split
    · exact .refl
    · exact .refl
  split
  · exact .refl
  split
  · exact .refl
  · rename_i pending flight _ _ ch received
    have states : SameStates (revokeAndAdvance P rc.ch pending).2 (revokeAndAdvance P ch pending).2 := by
      obtain ⟨_, _, rfl⟩ := (receiveRevoke_ok rc.ch ch _).mp received
      exact ⟨rfl, rfl, rfl, rfl, rfl, rfl, rfl⟩
    have whole : Moves P event rc { rc with ch := (revokeAndAdvance P ch pending).2 } := by
      refine (Move.advances pending flight states ?_).moves
      exact fun phase => ⟨phase, rfl⟩
    dsimp only
    repeat' split
    all_goals exact whole

theorem moves_abort (saved : Bool) (rc : RemoteChannel) (fields : List Bytes) :
    Moves P event rc (handleAbort saved rc fields).after := by
  unfold handleAbort
  dsimp only
  repeat' split
  all_goals first
    | exact .refl
    | exact (Move.drops rfl).moves

theorem moves_message (env : Circumstances) (rc : RemoteChannel) (fields : List Bytes)
    (told : event.preimage = preimageOf fields) :
    Moves P event rc (handleChannelMessage P env rc fields).after := by
  unfold handleChannelMessage
  dsimp only
  split
  · exact .refl
  split
  · exact .refl
  split
  · exact moves_upd env.height env.saved rc fields told
  split
  · exact moves_rev env.saved env.fault rc fields
  split
  · exact moves_abort env.saved rc fields
  split
  · unfold handleClose
    split
    · exact .refl
    · exact moves_same _ _ (.refl _) (fun phase => ⟨phase, rfl⟩)
  · exact .refl

theorem moves_driveRev (answers : Answers) (rc : RemoteChannel) :
    Moves P event rc (driveRev P answers rc).after := by
  unfold driveRev
  dsimp only
  split
  · exact .refl
  split
  · exact .refl
  · rename_i ch received
    exact moves_same _ _ (receiveRevoke_states rc.ch ch _ received) (by simp [SameProposal])

/-- After the advance of a drive only the second round is left. -/
theorem moves_driveAdvance (answers : Answers) (released : List Released) (rc start : RemoteChannel)
    (pending : State)
    (advanced : Move P event start
      { rc with ch := (revokeAndAdvance P rc.ch pending).2, outPhase := .rev }) :
    Moves P event start (driveAdvance P answers released rc pending).after := by
  unfold driveAdvance
  dsimp only
  split
  · exact advanced.moves
  · exact advanced.moves.trans (moves_driveRev answers
      { rc with ch := (revokeAndAdvance P rc.ch pending).2, outPhase := .rev })

theorem moves_driveUpd (answers : Answers) (rc : RemoteChannel) (next : State)
    (phase : rc.outPhase = .upd) (read : decodeState rc.outState = some next) :
    Moves P event rc (driveUpd P answers rc next).after := by
  unfold driveUpd
  dsimp only
  split
  · split
    · exact moves_abandon rc
    · exact .refl
  split
  · exact .refl
  split
  · exact .refl
  · rename_i body _ _ ch received
    exact moves_driveAdvance answers _ { rc with ch := ch } rc next
      (.countersigned next body ch phase read received rfl)

theorem moves_drive (answers : Answers) (rc : RemoteChannel) :
    Moves P event rc (rchanDrive P answers rc).after := by
  unfold rchanDrive
  split
  · exact moves_same _ _ (.refl _) (by simp [SameProposal, refuse])
  rename_i next read
  split
  · exact .refl
  · exact moves_driveRev answers rc
  rename_i phase
  split
  · exact moves_abandon rc
  split
  · exact moves_driveUpd answers rc next phase read
  · rename_i pending flight
    split
    · exact moves_driveAdvance answers [] rc rc pending
        (.advances pending flight (.refl _) (by simp [SameProposal]))
    split
    · exact moves_abandon rc
    · exact (Move.drops rfl).moves.trans
        (moves_driveUpd answers { rc with ch := dropPending rc.ch } next phase read)

theorem moves_propose (saved : Bool) (answers : Answers) (rc : RemoteChannel) (next : State)
    (proposed : event.proposals = (decodeState (encodeState next)).toList) :
    Moves P event rc (rchanPropose P saved answers rc next).after := by
  unfold rchanPropose
  split
  · exact .refl
  split
  · exact .refl
  dsimp only
  split
  · exact moves_same _ _ (.refl _) (by simp [SameProposal, refuse])
  · exact (Move.proposes next proposed rfl).moves.trans
      (moves_drive answers { rc with outPhase := .upd, outState := encodeState next })

theorem moves_probe (answer : Except Bytes Bytes) (rc : RemoteChannel) :
    Moves P event rc (rchanProbe answer rc) := by
  unfold rchanProbe
  repeat' split
  all_goals first
    | exact .refl
    | exact (Move.drops rfl).moves

theorem moves_rollback (rc : RemoteChannel) : Moves P event rc (rchanRollback rc) := by
  unfold rchanRollback
  split
  · exact .refl
  · dsimp only
    split
    · exact (moves_abandon rc).tail (.drops rfl)
    · exact moves_abandon rc

/-- Every step is made of moves. -/
theorem step_moves (rc : RemoteChannel) (event : Event) :
    Moves P event rc (step P rc event).2 := by
  cases event with
  | message env fields => exact moves_message env rc fields rfl
  | propose saved answers next => exact moves_propose saved answers rc next rfl
  | drive answers => exact moves_drive answers rc
  | probe answer => exact moves_probe answer rc
  | rollback => exact moves_rollback rc
  | force =>
    show Moves P _ rc (rchanForce rc)
    unfold rchanForce
    split
    · exact .refl
    · exact moves_same _ _ (.refl _) (fun phase => ⟨phase, rfl⟩)

/-- The current and the pending state of a channel have a property, and are countersigned. -/
structure Holds (property : Info → State → Prop) (ch : Channel) : Prop where
  current : property ch.info ch.cur
  pending : ∀ state, ch.pending = some state → property ch.info state
  opened : ch.remoteSigCur ≠ []
  countersigned : ch.pending ≠ none → ch.remoteSigPending.getD [] ≠ []

section Holding

variable {property : Info → State → Prop}

variable {after ch : Channel} {rc : RemoteChannel}

theorem SameStates.info (same : SameStates ch after) : after.info = ch.info :=
  (Prod.mk.inj (Prod.mk.inj same.terms).2).2

theorem Holds.of_same (holds : Holds property ch) (same : SameStates ch after) :
    Holds property after := by
  refine ⟨?_, ?_, ?_, ?_⟩
  · rw [same.cur, same.info]
    exact holds.current
  · rw [same.pending, same.info]
    exact holds.pending
  · rw [same.sigCur]
    exact holds.opened
  · rw [same.pending, same.sigPending]
    exact holds.countersigned

theorem Holds.receive {next : State} {sig : Bytes} (holds : Holds property ch)
    (valid : ∀ ch next, validateNext ch next = .ok () → property ch.info next)
    (received : receiveCommitSig P ch next sig = .ok after) :
    Holds property after ∧ after.pending = some next := by
  obtain ⟨checked, present, rfl⟩ := receiveCommitSig_checks ch after next sig holds.opened received
  refine ⟨⟨holds.current, ?_, holds.opened, fun _ => present⟩, rfl⟩
  rintro state flight
  obtain rfl := Option.some.inj flight
  exact valid ch next checked

/-- What holds of all states of a channel holds after the advance. -/
theorem Holds.advance (P : Primitives) {pending : State} (holds : Holds property ch)
    (flight : ch.pending = some pending) : Holds property (revokeAndAdvance P ch pending).2 :=
  ⟨holds.pending pending flight, by simp [revokeAndAdvance],
    holds.countersigned (by simp [flight]), by simp [revokeAndAdvance]⟩

/-- A property of the states that `validate_next` lets through is kept by a move. -/
theorem Move.holds {after : RemoteChannel} (move : Move P event rc after)
    (valid : ∀ ch next, validateNext ch next = .ok () → property ch.info next)
    (holds : Holds property rc.ch) : Holds property after.ch := by
  cases move with
  | keeps states _ => exact holds.of_same states
  | proposes next _ shape =>
    subst shape
    exact holds
  | receives next sig height update ch _ received shape =>
    subst shape
    exact (holds.receive valid received).1
  | drops shape =>
    subst shape
    exact ⟨holds.current, by simp [dropPending], holds.opened, by simp [dropPending]⟩
  | abandons phase shape =>
    subst shape
    unfold rchanAbandonOut
    split
    · exact holds
    · exact ⟨holds.current, holds.pending, holds.opened, holds.countersigned⟩
  | advances pending flight states _ => exact (holds.advance P flight).of_same states
  | countersigned next sig ch _ _ received shape =>
    subst shape
    obtain ⟨later, flight⟩ := holds.receive valid received
    exact later.advance P flight

theorem Moves.holds {after : RemoteChannel} (moves : Moves P event rc after)
    (valid : ∀ ch next, validateNext ch next = .ok () → property ch.info next)
    (holds : Holds property rc.ch) : Holds property after.ch := by
  induction moves with
  | refl => exact holds
  | tail _ move ih => exact move.holds valid ih

end Holding

end Addition.Channels
