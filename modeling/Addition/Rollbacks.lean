import Addition.Capacity
import Addition.PeerUpdates
import Mathlib.Algebra.Order.BigOperators.Group.List

/-!
# States that were rolled back

A pending state is dropped on ABORT, when the peer proposes another one, after a probe and by
hand, and so is a proposal of the endpoint itself. The peer keeps the signature that it was
given, and all states of one number are punishable only once that number is revoked.

A state that the peer proposed went through the classification against the state that was agreed
at the time. It pays the endpoint what that state pays, unless the peer settled one HTLC of the
endpoint with its preimage. Each rolled-back state is therefore followed to the state it
was proposed on: the current one, or the one agreed before it. A proposal of the endpoint itself
is not classified and may pay it anything.
-/

namespace Addition.Channels

open ByteStrings Checked FiniteTables TextLines Script

variable {P : Primitives}

/-- What a state pays an endpoint on the peer's commitment: its own output and the HTLCs
it offered. -/
def paysLocal (ch : Channel) (state : State) : Nat :=
  (commitmentAmounts ch.info (!ch.isA) state).2.toNat +
    ((state.htlcs.filter (fun htlc => htlc.offeredByA = ch.isA)).map (fun htlc => htlc.amount.toNat)).sum

/-! ### Runs with their events -/

/-- The runs of a channel from its opening, with what was released and the events so far. -/
inductive RecordedRun (P : Primitives) (condition : EventCondition) :
    RemoteChannel → List Released → List Event → Prop
  | funded (keys : WalletKeys) (seed : Bytes) (openFields fundFields : List Bytes)
      (taken : Bytes → Bool) (reply reply' : Bytes) (opening ch : Channel)
      (opens : handleOpen P (some keys) seed openFields = .ok (reply, opening))
      (funds : handleFund P (some opening) taken fundFields = .ok (reply', ch)) :
      RecordedRun P condition ⟨.opened, ch, .idle, []⟩ [signed ch ch.cur] []
  | opened (keys : WalletKeys) (seed : Bytes) (capacity push : UInt64) (reply : List Bytes)
      (txid : Bytes) (vout : UInt32) (sig : Bytes) (ch : Channel)
      (opens : rchanOpen P keys seed capacity push reply txid vout sig = .ok ch) :
      RecordedRun P condition ⟨.opened, ch, .idle, []⟩ [signed ch ch.cur] []
  | next (rc : RemoteChannel) (log : List Released) (events : List Event) (event : Event)
      (before : RecordedRun P condition rc log events) (meets : condition rc event) :
      RecordedRun P condition (step P rc event).2 (log ++ (step P rc event).1) (events ++ [event])

variable {condition : EventCondition}

/-- The first signature of the endpoint is for the state that the peer's first signature made
current. -/
theorem first_run (keys : WalletKeys) (remotePub : Bytes) (isA : Bool) (info : Info)
    (seed h0 h1 : Bytes) (initial : State) (sig : Bytes) (ch : Channel) (first : initial.n = 0)
    (noHtlcs : initial.htlcs = []) (own : keys.address = if isA then info.addrA else info.addrB)
    (received : receiveCommitSig P (openingChannel keys remotePub isA info seed h0 h1) initial sig =
      .ok ch) :
    Run P condition ⟨.opened, ch, .idle, []⟩ [signed ch ch.cur] := by
  have run : Run P condition ⟨.opened, ch, .idle, []⟩ [.commitment initial h0] :=
    .opened keys remotePub isA info seed h0 h1 initial sig ch first noHtlcs own received
  obtain ⟨_, rfl⟩ := (receiveCommitSig_first keys remotePub isA info seed h0 h1 initial sig ch
    first).mp received
  have hash : Channel.hashFor { openingChannel keys remotePub isA info seed h0 h1 with
      cur := initial, remoteSigCur := sig } initial.n = h0 := by
    show ((((∅ : Table Nat Bytes).insert 0 h0).insert 1 h1).lookup initial.n).getD _ = h0
    rw [first, lookup_insert, lookup_insert]
    rfl
  rw [signed, hash]
  exact run

variable {events : List Event} {log : List Released} {rc : RemoteChannel}

/-- A recorded run is a run. -/
theorem RecordedRun.run (run : RecordedRun P condition rc log events) : Run P condition rc log := by
  induction run with
  | funded keys seed openFields fundFields taken reply reply' opening ch opens funds =>
    obtain ⟨remotePub, info, h0, h1, own, rfl⟩ := handleOpen_ok keys seed openFields reply opening opens
    obtain ⟨txid, vout, initial, sig, first, noHtlcs, _, received⟩ :=
      handleFund_ok _ ch taken fundFields reply' funds
    exact first_run keys remotePub false { info with fundingTxid := txid, fundingVout := vout } seed h0
      h1 initial sig ch first noHtlcs own.symm received
  | opened keys seed capacity push reply txid vout sig ch opens =>
    obtain ⟨_, _, remotePub, info, h0, h1, own, _, _, received⟩ :=
      rchanOpen_ok keys seed capacity push reply txid vout sig ch opens
    exact first_run keys remotePub true info seed h0 h1 _ sig ch rfl rfl own.symm received
  | next rc log events event _ meets ih =>
    exact .next rc log event ih meets

/-- A recorded run is a run of its channel. -/
theorem RecordedRun.channelRun (run : RecordedRun P condition rc log events) : ChannelRun P rc := by
  induction run with
  | funded keys seed openFields fundFields taken reply reply' opening ch opens funds =>
    exact .funded keys seed openFields fundFields taken reply reply' opening ch opens funds
  | opened keys seed capacity push reply txid vout sig ch opens =>
    exact .opened keys seed capacity push reply txid vout sig ch opens
  | next rc log events event _ _ ih => exact .next rc event ih

/-- Further steps make a longer record. -/
theorem RecordedRun.play (run : RecordedRun P condition rc log events) (more : List Event)
    (meets : MeetAll P condition rc more) :
    RecordedRun P condition (play P rc more).2 (log ++ (play P rc more).1) (events ++ more) := by
  induction more generalizing rc log events with
  | nil => simpa [Channels.play] using run
  | cons event rest ih =>
    obtain ⟨first, others⟩ := meets
    have later := ih (RecordedRun.next rc log events event run first) others
    rw [List.append_assoc, List.append_assoc] at later
    exact later

/-! ### What a rolled-back state was proposed on -/

/-- The peer offered a state on an agreed one in one of the events. -/
structure OfferedOn (P : Primitives) (events : List Event) (ch : Channel) (base state : State) :
    Prop where
  number : state.n = base.n + 1
  feePaid : ch.info.fee ≤ state.balA
  before : ch.isA = true → ch.info.fee ≤ base.balA
  classified : ∃ event ∈ events, ∃ height update,
    classifyPeerUpdate P { ch with cur := base } state event.preimage height = .ok update

/-- A state is the current one, or in the history under a lower number. -/
def Agreed (ch : Channel) (base : State) : Prop :=
  base = ch.cur ∨ base.n < ch.cur.n ∧ ch.history.lookup base.n = some base

/-- A state is a proposal of the endpoint itself, or the peer offered it on an agreed one. -/
def Origin (P : Primitives) (events : List Event) (ch : Channel) (state : State) : Prop :=
  state ∈ events.flatMap Event.proposals ∨ ∃ base, Agreed ch base ∧ OfferedOn P events ch base state

/-- Where the states of an endpoint come from: a pending state is the peer's offer on the current
one, the outbox has a proposal of the endpoint, and a rolled-back state was either. -/
structure Traced (P : Primitives) (events : List Event) (rc : RemoteChannel) : Prop where
  covered : rc.ch.isA = true → rc.ch.info.fee ≤ rc.ch.cur.balA
  pending : ∀ state, rc.ch.pending = some state → OfferedOn P events rc.ch rc.ch.cur state
  outbox : rc.outPhase = .upd → ∀ state, decodeState rc.outState = some state →
    state ∈ events.flatMap Event.proposals
  abandoned : ∀ state ∈ rc.ch.abandoned, Origin P events rc.ch state

/-- The classification looks at the side of the endpoint and at the agreed state. -/
theorem classifyPeerUpdate_congr (ch ch' : Channel) (cur : ch.cur = ch'.cur) (side : ch.isA = ch'.isA)
    (state : State) (preimage : Bytes) (height : UInt64) :
    classifyPeerUpdate P ch state preimage height = classifyPeerUpdate P ch' state preimage height := by
  unfold classifyPeerUpdate
  rw [cur, side]

section Tracing

variable {events : List Event} {ch ch' : Channel} {base state : State}

theorem OfferedOn.of_terms (offer : OfferedOn P events ch base state) (terms : ch'.terms = ch.terms) :
    OfferedOn P events ch' base state := by
  simp only [Channel.terms, Prod.mk.injEq] at terms
  obtain ⟨_, side, info⟩ := terms
  obtain ⟨event, member, height, update, classified⟩ := offer.classified
  refine ⟨offer.number, ?_, ?_, event, member, height, update, ?_⟩
  · rw [info]
    exact offer.feePaid
  · rw [side, info]
    exact offer.before
  · rw [← classified]
    exact classifyPeerUpdate_congr { ch' with cur := base } { ch with cur := base } rfl side state
      event.preimage height

theorem OfferedOn.later (offer : OfferedOn P events ch base state) (event : Event) :
    OfferedOn P (events ++ [event]) ch base state := by
  obtain ⟨earlier, member, classified⟩ := offer.classified
  exact ⟨offer.number, offer.feePaid, offer.before, earlier, List.mem_append_left _ member, classified⟩

/-- An origin stays one as long as the agreed states stay agreed. -/
theorem Origin.mono (origin : Origin P events ch state) (terms : ch'.terms = ch.terms)
    (agreed : ∀ base, Agreed ch base → Agreed ch' base) : Origin P events ch' state := by
  rcases origin with proposed | ⟨base, before, offer⟩
  · exact .inl proposed
  · exact .inr ⟨base, agreed base before, offer.of_terms terms⟩

variable {rc after : RemoteChannel}

theorem Traced.later (traced : Traced P events rc) (event : Event) :
    Traced P (events ++ [event]) rc := by
  have own : ∀ state, state ∈ events.flatMap Event.proposals →
      state ∈ (events ++ [event]).flatMap Event.proposals := by
    intro state member
    rw [List.flatMap_append]
    exact List.mem_append_left _ member
  refine ⟨traced.covered, fun state flight => (traced.pending state flight).later event,
    fun phase state read => own state (traced.outbox phase state read), fun state gone => ?_⟩
  rcases traced.abandoned state gone with proposed | ⟨base, agreed, offer⟩
  · exact .inl (own state proposed)
  · exact .inr ⟨base, agreed, offer.later event⟩

/-- States that are the same have the same origins. -/
theorem Traced.of_same (traced : Traced P events rc) (same : SameStates rc.ch after.ch)
    (outbox : after.outPhase = .upd → ∀ state, decodeState after.outState = some state →
      state ∈ events.flatMap Event.proposals) : Traced P events after := by
  have terms := same.terms
  simp only [Channel.terms, Prod.mk.injEq] at terms
  obtain ⟨_, side, info⟩ := terms
  refine ⟨?_, fun state flight => ?_, outbox, fun state gone => ?_⟩
  · rw [side, info, same.cur]
    exact traced.covered
  · rw [same.cur]
    exact (traced.pending state (same.pending ▸ flight)).of_terms same.terms
  · rw [same.abandoned] at gone
    refine (traced.abandoned state gone).mono same.terms fun base agreed => ?_
    unfold Agreed
    rw [same.cur, same.history]
    exact agreed

/-- A state that becomes current keeps every agreed state in the history. -/
theorem Agreed.advance (P : Primitives) (agreed : Agreed ch base) (number : state.n = ch.cur.n + 1) :
    Agreed (revokeAndAdvance P ch state).2 base := by
  refine .inr ?_
  show base.n < state.n ∧ (ch.history.insert ch.cur.n ch.cur).lookup base.n = some base
  rw [number, lookup_insert]
  rcases agreed with rfl | ⟨below, past⟩
  · exact ⟨by omega, if_pos rfl⟩
  · exact ⟨by omega, by rw [if_neg (by omega)]; exact past⟩

theorem Traced.advance (traced : Traced P events rc) (number : state.n = rc.ch.cur.n + 1)
    (feePaid : rc.ch.info.fee ≤ state.balA) (flight : Option State) (sig : Option Bytes)
    (phase : OutPhase) (notUpd : phase = .upd → rc.outPhase = .upd) :
    Traced P events { rc with
      ch := (revokeAndAdvance P { rc.ch with pending := flight, remoteSigPending := sig } state).2
      outPhase := phase } := by
  refine ⟨fun _ => feePaid, by simp [revokeAndAdvance], fun upd => traced.outbox (notUpd upd),
    fun gone member => ?_⟩
  exact (traced.abandoned gone member).mono rfl fun _ agreed => agreed.advance P number

/-- What `validate_next` says of a received state. -/
theorem received_next {ch after : Channel} {next : State} {sig : Bytes} (opened : ch.remoteSigCur ≠ [])
    (received : receiveCommitSig P ch next sig = .ok after) :
    next.n = ch.cur.n + 1 ∧ ch.info.fee ≤ next.balA ∧
      after = { ch with pending := some next, remoteSigPending := some sig } := by
  obtain ⟨valid, _, same⟩ := receiveCommitSig_checks ch after next sig opened received
  simp only [validateNext, bind_ok, exists_unit, ensure_ok, decide_eq_true_eq] at valid
  obtain ⟨_, number, _, feePaid, _⟩ := valid
  exact ⟨number, feePaid, same⟩

/-- Every move keeps track of where the states come from. -/
theorem Move.traced {event : Event} (move : Move P event rc after) (opened : rc.ch.remoteSigCur ≠ [])
    (here : event ∈ events) (traced : Traced P events rc) : Traced P events after := by
  cases move with
  | keeps states proposal =>
    refine traced.of_same states fun phase state read => ?_
    obtain ⟨upd, same⟩ := proposal phase
    exact traced.outbox upd state (same ▸ read)
  | proposes next proposed shape =>
    subst shape
    refine traced.of_same (.refl _) fun _ state read => ?_
    refine List.mem_flatMap.mpr ⟨event, here, ?_⟩
    rw [proposed]
    exact Option.mem_toList.mpr read
  | receives next sig height update ch classified received shape =>
    subst shape
    obtain ⟨number, feePaid, rfl⟩ := received_next opened received
    refine ⟨traced.covered, ?_, traced.outbox, fun state gone =>
      (traced.abandoned state gone).mono rfl fun _ => id⟩
    rintro state flight
    obtain rfl := Option.some.inj flight
    exact ⟨number, feePaid, traced.covered, event, here, height, update, classified⟩
  | drops shape =>
    subst shape
    refine ⟨traced.covered, by simp [dropPending], traced.outbox, fun state gone => ?_⟩
    rcases List.mem_append.mp gone with earlier | dropped
    · exact (traced.abandoned state earlier).mono rfl fun _ => id
    · have flight : rc.ch.pending = some state := Option.mem_toList.mp dropped
      exact .inr ⟨rc.ch.cur, .inl rfl, (traced.pending state flight).of_terms rfl⟩
  | abandons phase shape =>
    subst shape
    rw [rchanAbandonOut, if_neg (not_not.mpr phase)]
    refine ⟨traced.covered, fun state flight => (traced.pending state flight).of_terms rfl, by simp,
      fun state gone => ?_⟩
    rcases List.mem_append.mp gone with earlier | given
    · exact (traced.abandoned state earlier).mono rfl fun _ => id
    · exact .inl (traced.outbox phase state (Option.mem_toList.mp given))
  | advances pending flight states proposal =>
    have offer := traced.pending pending flight
    refine (traced.advance offer.number offer.feePaid rc.ch.pending rc.ch.remoteSigPending
      rc.outPhase id).of_same states fun phase state read => ?_
    obtain ⟨upd, same⟩ := proposal phase
    exact traced.outbox upd state (same ▸ read)
  | countersigned next sig ch phase read received shape =>
    subst shape
    obtain ⟨number, feePaid, rfl⟩ := received_next opened received
    exact traced.advance number feePaid (some next) (some sig) .rev (by simp)

end Tracing

/-! ### Whole runs -/

variable {event : Event}

theorem Moves.traced {after : RemoteChannel}
    (moves : Moves P event rc after) (holds : Holds CheckedState rc.ch) (here : event ∈ events)
    (traced : Traced P events rc) : Traced P events after := by
  induction moves with
  | refl => exact traced
  | tail earlier move ih =>
    have between : Moves P event rc _ := earlier
    exact move.traced (between.holds validateNext_checked holds).opened here ih

/-- The states of a recorded run trace back to their proposals. -/
theorem RecordedRun.traced (run : RecordedRun P condition rc log events) : Traced P events rc := by
  induction run with
  | funded keys seed openFields fundFields taken reply reply' opening ch opens funds =>
    obtain ⟨remotePub, info, h0, h1, own, rfl⟩ := handleOpen_ok keys seed openFields reply opening opens
    obtain ⟨txid, vout, initial, sig, first, _, _, received⟩ :=
      handleFund_ok _ ch taken fundFields reply' funds
    obtain ⟨_, rfl⟩ := (receiveCommitSig_first keys remotePub false
      { info with fundingTxid := txid, fundingVout := vout } seed h0 h1 initial sig ch first).mp received
    exact ⟨by simp [openingChannel], by simp [openingChannel], by simp, by simp [openingChannel]⟩
  | opened keys seed capacity push reply txid vout sig ch opens =>
    obtain ⟨enough, pushed, remotePub, info, h0, h1, own, _, fee, received⟩ :=
      rchanOpen_ok keys seed capacity push reply txid vout sig ch opens
    obtain ⟨_, rfl⟩ := (receiveCommitSig_first keys remotePub true info seed h0 h1
      ⟨0, capacity - push, push, [], 0⟩ sig ch rfl).mp received
    refine ⟨fun _ => ?_, by simp [openingChannel], by simp, by simp [openingChannel]⟩
    show info.fee ≤ capacity - push
    rw [fee]
    have two := UInt64.le_iff_toNat_le.mp enough
    have most := UInt64.le_iff_toNat_le.mp pushed
    rw [UInt64.toNat_sub_of_le _ _ (UInt64.le_iff_toNat_le.mpr (Nat.le_trans (by decide) two))] at most
    have below : push ≤ capacity := UInt64.le_iff_toNat_le.mpr (by omega)
    rw [UInt64.le_iff_toNat_le, UInt64.toNat_sub_of_le _ _ below]
    have ones : (1 : UInt64).toNat = 1 := rfl
    have twos : (2 : UInt64).toNat = 2 := rfl
    omega
  | next rc log events event before _ ih =>
    exact (step_moves rc event).traced before.channelRun.checked (by simp)
      (ih.later event)

/-! ### What a proposal of the peer pays -/

/-- No identifier is listed twice, and the amounts of the agreed state do not wrap. -/
structure PlainProposal (base state : State) : Prop where
  agreed : (base.htlcs.map Htlc.id).Nodup
  proposed : (state.htlcs.map Htlc.id).Nodup
  narrow : base.total < 2 ^ 64

/-- A state pays an endpoint what another one pays it, or less by one HTLC that it offered and
whose preimage came with an event. -/
def PaysBut (P : Primitives) (events : List Event) (ch : Channel) (base state : State) : Prop :=
  paysLocal ch base ≤ paysLocal ch state ∨
    ∃ htlc ∈ base.htlcs, htlc.offeredByA = ch.isA ∧
      (∃ event ∈ events, hashPreimageHex P event.preimage = htlc.paymentHash) ∧
      paysLocal ch base = paysLocal ch state + htlc.amount.toNat

theorem offered_eq (ch : Channel) (htlcs : List Htlc) :
    ((htlcs.filter (fun htlc => htlc.offeredByA = ch.isA)).map (fun htlc => htlc.amount.toNat)).sum =
      ch.offered htlcs := by
  induction htlcs with
  | nil => rfl
  | cons htlc rest ih =>
    rw [offered_cons, ← ih, List.filter_cons]
    by_cases own : htlc.offeredByA = ch.isA
    · simp [own]
    · simp [own]

/-- What a state pays is its worth, less the fee for the funder. -/
theorem paysLocal_worth (ch : Channel) (state : State)
    (feePaid : ch.isA = true → ch.info.fee ≤ state.balA) :
    paysLocal ch state + (if ch.isA then ch.info.fee.toNat else 0) = ch.worth state := by
  unfold paysLocal Channel.worth Channel.own
  rw [offered_eq]
  cases side : ch.isA with
  | false => simp [commitmentAmounts]
  | true =>
    have enough := feePaid side
    have words := UInt64.le_iff_toNat_le.mp enough
    simp only [commitmentAmounts, Bool.not_true, Bool.false_eq_true, ↓reduceIte]
    rw [UInt64.toNat_sub_of_le _ _ enough]
    omega

theorem own_amount_le (ch : Channel) (state : State) {htlc : Htlc} (member : htlc ∈ state.htlcs) :
    (ch.own state).toNat + htlc.amount.toNat ≤ state.total := by
  have amount : htlc.amount.toNat ≤ (state.htlcs.map (fun htlc => htlc.amount.toNat)).sum :=
    List.single_le_sum (fun _ _ => Nat.zero_le _) _ (List.mem_map.mpr ⟨htlc, member, rfl⟩)
  unfold State.total Channel.own
  split <;> omega

theorem OfferedOn.pays {ch : Channel} {base state : State}
    (offer : OfferedOn P events ch base state) (plain : PlainProposal base state) :
    PaysBut P events ch base state := by
  obtain ⟨event, member, height, update, accepted⟩ := offer.classified
  obtain ⟨unmodified, classified⟩ := classifyPeerUpdate_cases accepted
  have refund : ∀ htlc ∈ base.htlcs, htlc.id ∉ state.htlcs.map Htlc.id →
      ch.own state = ch.own base + htlc.amount →
        (ch.own base).toNat + htlc.amount.toNat < 2 ^ 64 := by
    intro htlc inside _ _
    exact Nat.lt_of_le_of_lt (own_amount_le ch base inside) plain.narrow
  have worth := classified_worth plain.agreed refund
    (unmodified_lists plain.agreed plain.proposed unmodified) classified
  have before := paysLocal_worth ch base offer.before
  have after := paysLocal_worth ch state (fun _ => offer.feePaid)
  cases update with
  | settleHtlc htlc =>
    obtain ⟨fewer, less, hashed⟩ := worth
    have less : ch.worth base = ch.worth state + htlc.amount.toNat := less
    cases classified with
    | settleHtlc _ _ _ offered =>
      exact .inr ⟨htlc, fewer.mem_iff.mpr (List.mem_cons_self ..), offered, ⟨event, member, hashed⟩,
        by omega⟩
  | pay =>
    have risen : ch.worth base ≤ ch.worth state := worth
    exact .inl (by omega)
  | addHtlc htlc =>
    have risen : ch.worth base ≤ ch.worth state := worth
    exact .inl (by omega)
  | failHtlc htlc =>
    have risen : ch.worth base ≤ ch.worth state := worth
    exact .inl (by omega)

/-! ### The states that the peer can close on -/

/-- The state that a state of the current or the next number was proposed on. -/
def ProposedOn (ch : Channel) (base state : State) : Prop :=
  state.n = ch.cur.n + 1 ∧ base = ch.cur ∨
    state.n = ch.cur.n ∧ state.n = base.n + 1 ∧ ch.history.lookup base.n = some base

/-- With nothing in flight, a signed state that the peer has not revoked is the current one, or
has the current or the next number and was rolled back. Then it is a proposal of the endpoint
itself, or the peer proposed it on an agreed state and it pays what that state pays, except for
one HTLC that the peer settled. -/
theorem unrevoked_commitment_pays {rc : RemoteChannel} {log : List Released} {events : List Event}
    (run : RecordedRun P (RevokesInOrder P) rc log events) (quiet : Quiescent rc) (state : State)
    (revHash : Bytes) (released : Released.commitment state revHash ∈ log)
    (uncovered : rc.ch.remoteSecrets.lookup state.n = none) :
    rc.ch.cur.n ≤ state.n ∧ state.n ≤ rc.ch.cur.n + 1 ∧
      (state = rc.ch.cur ∨ state ∈ rc.ch.abandoned ∧
        (state ∈ events.flatMap Event.proposals ∨
          ∃ base, ProposedOn rc.ch base state ∧
            (PlainProposal base state → PaysBut P events rc.ch base state))) := by
  obtain ⟨sound, accounted⟩ := run.run.sound
  have due : rc.due = rc.ch.cur.n := due_of_ne (by simp [quiet.2])
  obtain ⟨hash, _, kept⟩ := accounted _ released
  have late : rc.ch.cur.n ≤ state.n := by
    by_contra early
    obtain ⟨secret, stored, _⟩ := sound.revealed state.n (by omega)
    simp [uncovered] at stored
  have bound := sound.known hash
  refine ⟨late, by omega, ?_⟩
  rcases kept with gone | ⟨early, _⟩ | same | ⟨_, flight | ⟨phase, _⟩⟩
  · refine .inr ⟨gone, ?_⟩
    rcases run.traced.abandoned state gone with proposed | ⟨base, agreed, offer⟩
    · exact .inl proposed
    · refine .inr ⟨base, ?_, offer.pays⟩
      have number := offer.number
      rcases agreed with rfl | ⟨below, past⟩
      · exact .inl ⟨number, rfl⟩
      · exact .inr ⟨by omega, number, past⟩
  · omega
  · exact .inl same
  · simp [quiet.1] at flight
  · simp [quiet.2] at phase

/-! ### Rolled-back states of each kind -/

/-- The revocation that an event brings, when it can be accepted. -/
def Event.revocation (rc : RemoteChannel) : Event → Option Revoke
  | .message _ fields =>
    if rc.status = .opened ∧ fields.getD 0 [] = ascii "REV" ∧ rc.ch.pending.isSome then revokeOf fields
    else none
  | .propose _ answers _ => answers.revocation.toOption
  | .drive answers => answers.revocation.toOption
  | _ => none

/-- Every revocation in a list of events names the number that is due. -/
def inOrder (P : Primitives) (rc : RemoteChannel) : List Event → Bool
  | [] => true
  | event :: rest =>
    (event.revocation rc).all (fun revoke => revoke.revokedN = rc.due) && inOrder P (step P rc event).2 rest

theorem inOrder_meets
    (due : (event.revocation rc).all (fun revoke => revoke.revokedN = rc.due) = true) :
    RevokesInOrder P rc event := by
  have named : ∀ revoke, event.revocation rc = some revoke → revoke.revokedN = rc.due := by
    intro revoke found
    rw [found] at due
    exact of_decide_eq_true due
  cases event with
  | message env fields =>
    intro opened isRev flight revoke read _
    refine named revoke ?_
    rw [Event.revocation, if_pos ⟨opened, isRev, Option.isSome_iff_ne_none.mpr flight⟩]
    exact read
  | propose saved answers next =>
    intro revoke answered _
    exact named revoke (by rw [Event.revocation, answered]; rfl)
  | drive answers =>
    intro revoke answered _
    exact named revoke (by rw [Event.revocation, answered]; rfl)
  | probe answer => trivial
  | rollback => trivial
  | force => trivial

theorem meetAll_inOrder (ordered : inOrder P rc events = true) :
    MeetAll P (RevokesInOrder P) rc events := by
  induction events generalizing rc with
  | nil => trivial
  | cons event rest ih =>
    obtain ⟨due, others⟩ := Bool.and_eq_true_iff.mp ordered
    exact ⟨inOrder_meets due, ih others⟩

/-- The channel after the peer's funding, with forty for the endpoint. -/
def sampleFunded : Channel :=
  ((handleFund signingPrimitives (some sampleFunding) (fun _ => false)
    (fundMessage (sampleState 0 40))).toOption.map Prod.snd).getD sampleFunding

/-- An endpoint of the funded channel. -/
def fundedEndpoint : RemoteChannel := ⟨.opened, sampleFunded, .idle, []⟩

/-- What an accepting outcome leaves behind. -/
theorem accepted_channel (outcome : Except String (Bytes × Channel)) (accepted : outcome.isOk = true)
    (other : Channel) : ∃ reply, outcome = .ok (reply, (outcome.toOption.map Prod.snd).getD other) := by
  cases outcome with
  | error message => simp [Except.isOk, Except.toBool] at accepted
  | ok result => exact ⟨result.1, rfl⟩

theorem fundedEndpoint_run :
    RecordedRun signingPrimitives condition fundedEndpoint [signed sampleFunded sampleFunded.cur] [] := by
  obtain ⟨reply, opens⟩ := sampleOpen_opens
  obtain ⟨reply', funds⟩ := accepted_channel (handleFund signingPrimitives (some sampleFunding)
    (fun _ => false) (fundMessage (sampleState 0 40))) (by decide +kernel) sampleFunding
  exact .funded sampleKeys (ascii "seed") sampleOpen _ (fun _ => false) reply reply' sampleFunding
    sampleFunded opens funds

/-- The peer's signature on the endpoint's commitment of a state. -/
def counterSignature (state : State) : Bytes :=
  sampleSignature 9 (sighash signingPrimitives (commitmentTx signingPrimitives sampleFunded.info false
    state (sampleFunded.revHash signingPrimitives state.n)))

/-- The peer's update to a state, as a payment and as the settlement of an HTLC. -/
def offersState (state : State) : Event :=
  sampleMessage [ascii "UPD", ascii "id", encodeState state, counterSignature state]

/-- The peer settles an HTLC. -/
def settlesState (state : State) (preimage : Bytes) : Event :=
  sampleMessage [ascii "UPD", ascii "id", encodeState state, counterSignature state, ascii "SETTLE",
    preimage]

/-- The peer sends ABORT. -/
def abortsState (n : Nat) : Event := sampleMessage [ascii "ABORT", ascii "id", decimal n]

/-- The answers of a peer that signs a proposal and revokes the first state, and of one that is
not there. -/
def agreeing (state : State) : Answers where
  upd := .ok (chanOk ++ counterSignature state)
  rev := .ok (chanOk ++ decimal 0 ++ ascii "|" ++ peerSecret 0 ++ ascii "|" ++ peerHash 2)
  reUpd := .error []
  revAgain := .error []
  savedAdvance := true
  savedEnd := true

/-- A peer that does not answer. -/
def absent : Answers := ⟨.error (ascii "timeout"), .error [], .error [], .error [], true, true⟩

/-- The endpoint offers ten to the peer, hears nothing and rolls back. -/
def unanswered : List Event := [.propose true absent (sampleState 1 30), .rollback]

/-- The peer takes back a state that pays nothing, pays ten, and takes back another five. -/
def switched : List Event :=
  [offersState (sampleState 1 40), abortsState 1, offersState (sampleState 1 50),
    peerRevokes 0 (peerSecret 0) (peerHash 2), offersState (sampleState 2 55), abortsState 2]

/-- An HTLC of ten from the endpoint, and the states with it and after its settlement. -/
def ownHtlc : Htlc := ⟨0, false, 10, hashPreimageHex signingPrimitives (toHex [5]), 50⟩

/-- The state with the HTLC of the endpoint. -/
def htlcState : State := ⟨1, 60, 30, [ownHtlc], 1⟩

/-- The state after the HTLC was settled. -/
def settledState : State := ⟨2, 70, 30, [], 1⟩

/-- The peer settles the HTLC and takes the state back. -/
def resettled : List Event :=
  [.propose true (agreeing htlcState) htlcState, settlesState settledState (toHex [5]),
    abortsState 2]

/-- Nothing is in flight, and the peer can close on a state that pays less than the current one. -/
def ClosesBelow (rc : RemoteChannel) (log : List Released) (state : State) : Prop :=
  Quiescent rc ∧ Released.commitment state (rc.ch.hashFor state.n) ∈ log ∧
    rc.ch.remoteSecrets.lookup state.n = none ∧ paysLocal rc.ch state < paysLocal rc.ch rc.ch.cur

instance (rc : RemoteChannel) (log : List Released) (state : State) :
    Decidable (ClosesBelow rc log state) := by
  unfold ClosesBelow Quiescent
  infer_instance

/-- The runs on the funded endpoint. -/
def playedFunded (events : List Event) : List Released × RemoteChannel :=
  let played := play signingPrimitives fundedEndpoint events
  ([signed sampleFunded sampleFunded.cur] ++ played.1, played.2)

theorem playedFunded_run (ordered : inOrder signingPrimitives fundedEndpoint events = true) :
    RecordedRun signingPrimitives (RevokesInOrder signingPrimitives) (playedFunded events).2
      (playedFunded events).1 events :=
  fundedEndpoint_run.play events (meetAll_inOrder ordered)

set_option maxRecDepth 100000 in
theorem rollbacks_evaluated :
    (inOrder signingPrimitives fundedEndpoint unanswered = true ∧
      ClosesBelow (playedFunded unanswered).2 (playedFunded unanswered).1 (sampleState 1 30) ∧
      sampleState 1 30 ∈ unanswered.flatMap Event.proposals) ∧
    (inOrder signingPrimitives fundedEndpoint switched = true ∧
      ClosesBelow (playedFunded switched).2 (playedFunded switched).1 (sampleState 1 40) ∧
      switched.flatMap Event.proposals = [] ∧
      (playedFunded switched).2.ch.cur = sampleState 1 50 ∧
      (playedFunded switched).2.ch.history.lookup 0 = some (sampleState 0 40) ∧
      signed (playedFunded switched).2.ch (sampleState 2 55) ∈ (playedFunded switched).1 ∧
      (playedFunded switched).2.ch.remoteSecrets.lookup 2 = none) ∧
    (inOrder signingPrimitives fundedEndpoint resettled = true ∧
      ClosesBelow (playedFunded resettled).2 (playedFunded resettled).1 settledState ∧
      settledState ∉ resettled.flatMap Event.proposals ∧
      (playedFunded resettled).2.ch.cur = htlcState) := by
  decide +kernel

/-- The peer can close on a state that pays less than the current one: a proposal of the endpoint
that was given up, a state of the current number, and one of the next number. -/
theorem rolled_back_states_pay_less :
    (∃ rc log events, RecordedRun signingPrimitives (RevokesInOrder signingPrimitives) rc log events ∧
      ∃ state ∈ events.flatMap Event.proposals, ClosesBelow rc log state) ∧
    (∃ rc log events, RecordedRun signingPrimitives (RevokesInOrder signingPrimitives) rc log events ∧
      ∃ state ∉ events.flatMap Event.proposals, state.n = rc.ch.cur.n ∧ ClosesBelow rc log state) ∧
    ∃ rc log events, RecordedRun signingPrimitives (RevokesInOrder signingPrimitives) rc log events ∧
      ∃ state ∉ events.flatMap Event.proposals, state.n = rc.ch.cur.n + 1 ∧ ClosesBelow rc log state := by
  obtain ⟨⟨first, own, proposed⟩, ⟨second, same, none, cur, _⟩, third, next, other, current⟩ :=
    rollbacks_evaluated
  refine ⟨⟨_, _, _, playedFunded_run first, _, proposed, own⟩,
    ⟨_, _, _, playedFunded_run second, sampleState 1 40, by simp [none], ?_, same⟩,
    _, _, _, playedFunded_run third, settledState, other, ?_, next⟩
  · rw [cur]
    rfl
  · rw [current]
    rfl

/-- Of the two states that the peer took back, the first pays what the opening pays, and the
second what the current state pays. -/
theorem switched_states_pay :
    PaysBut signingPrimitives switched (playedFunded switched).2.ch (sampleState 0 40)
      (sampleState 1 40) ∧
    PaysBut signingPrimitives switched (playedFunded switched).2.ch (sampleState 1 50)
      (sampleState 2 55) := by
  obtain ⟨_, ⟨ordered, ⟨quiet, released, uncovered, _⟩, none, cur, past, released', uncovered'⟩, _⟩ :=
    rollbacks_evaluated
  constructor
  · rcases (unrevoked_commitment_pays (playedFunded_run ordered) quiet (sampleState 1 40) _ released
      uncovered).2.2 with same | ⟨_, own | ⟨base, ⟨later, _⟩ | ⟨_, number, agreed⟩, pays⟩⟩
    · rw [cur] at same
      exact absurd same (by decide)
    · simp [none] at own
    · rw [cur] at later
      exact absurd later (by decide)
    · obtain zero : base.n = 0 := Nat.succ.inj number.symm
      rw [zero, past] at agreed
      obtain rfl := Option.some.inj agreed
      exact pays ⟨by decide, by decide, by decide⟩
  · rcases (unrevoked_commitment_pays (playedFunded_run ordered) quiet (sampleState 2 55) _ released'
      uncovered').2.2 with same | ⟨_, own | ⟨base, ⟨_, agreed⟩ | ⟨number, _⟩, pays⟩⟩
    · rw [cur] at same
      exact absurd same (by decide)
    · simp [none] at own
    · rw [agreed, cur] at pays
      exact pays ⟨by decide, by decide, by decide⟩
    · rw [cur] at number
      exact absurd number (by decide)

end Addition.Channels
