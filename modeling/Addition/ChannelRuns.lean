import Addition.ChannelNode
import Addition.ChannelTexts

/-!
# Runs of one endpoint

The steps of an endpoint are the peer's messages, its own proposals and their retries
with arbitrary answers, and the ways it gives up. A run starts from the first exchange
of signatures and keeps a log of what the endpoint has released.

A revocation is accepted under whatever number the peer puts into it. While every
accepted revocation names the number that is due, an endpoint holds the peer's secrets
of all numbers before its current one, the revocation hashes it signed under stay, and
every state it signed is the current one, the one in flight, in the history or among
the abandoned.
-/

namespace Addition.Channels

open ByteStrings Checked FiniteTables TextLines Script

variable (P : Primitives)

/-! ### Steps and runs -/

/-- What happens to an endpoint: a message of the peer, or a call of its own node. -/
inductive Event
  | message (env : Circumstances) (fields : List Bytes)
  | propose (saved : Bool) (answers : Answers) (next : State)
  | drive (answers : Answers)
  | probe (answer : Except Bytes Bytes)
  | rollback
  | force

/-- What a step releases, and the channel after it. -/
def step (rc : RemoteChannel) : Event → List Released × RemoteChannel
  | .message env fields =>
    let outcome := handleChannelMessage P env rc fields
    (outcome.released, outcome.after)
  | .propose saved answers next =>
    let outcome := rchanPropose P saved answers rc next
    (outcome.released, outcome.after)
  | .drive answers =>
    let outcome := rchanDrive P answers rc
    (outcome.released, outcome.after)
  | .probe answer => ([], rchanProbe answer rc)
  | .rollback => ([], rchanRollback rc)
  | .force => ([], rchanForce rc)

/-- The channel before the first signatures, with the peer's first two revocation hashes. -/
def openingChannel (keys : WalletKeys) (remotePub : Bytes) (isA : Bool) (info : Info)
    (seed h0 h1 : Bytes) : Channel where
  keys := keys
  remotePub := remotePub
  isA := isA
  info := info
  seed := seed
  cur := ⟨0, 0, 0, [], 0⟩
  pending := none
  remoteSigCur := []
  remoteSigPending := none
  remoteHashes := ((∅ : Table Nat Bytes).insert 0 h0).insert 1 h1
  remoteSecrets := ∅
  history := ∅
  abandoned := []

/-- A condition on the steps of a run. -/
abbrev EventCondition := RemoteChannel → Event → Prop

/-- The channels of the runs whose steps meet a condition, with what was released. -/
inductive Run (condition : EventCondition) : RemoteChannel → List Released → Prop
  | opened (keys : WalletKeys) (remotePub : Bytes) (isA : Bool) (info : Info) (seed h0 h1 : Bytes)
      (initial : State) (sig : Bytes) (ch : Channel) (first : initial.n = 0)
      (noHtlcs : initial.htlcs = [])
      (own : keys.address = if isA then info.addrA else info.addrB)
      (received : receiveCommitSig P (openingChannel keys remotePub isA info seed h0 h1) initial sig =
        .ok ch) :
      Run condition ⟨.opened, ch, .idle, []⟩ [.commitment initial h0]
  | next (rc : RemoteChannel) (log : List Released) (event : Event) (before : Run condition rc log)
      (meets : condition rc event) :
      Run condition (step P rc event).2 (log ++ (step P rc event).1)

/-- The number of the peer's state that is to be revoked next: our current one, or the
one before it while we await the peer's revocation. -/
def RemoteChannel.due (rc : RemoteChannel) : Nat :=
  if rc.outPhase = .rev then rc.ch.cur.n - 1 else rc.ch.cur.n

/-- A revocation that would be accepted names the number that is due. -/
def Fitting (rc : RemoteChannel) (revoke : Revoke) : Prop :=
  (receiveRevoke P rc.ch revoke).isOk = true → revoke.revokedN = rc.due

/-- Every revocation that a step accepts names the number that is due: the one in a REV
for a pending state, and the one in the answer to our own REV. -/
def RevokesInOrder : EventCondition := fun rc event =>
  match event with
  | .message _ fields => rc.status = .opened → fields.getD 0 [] = ascii "REV" →
      rc.ch.pending ≠ none → ∀ revoke, revokeOf fields = some revoke → Fitting P rc revoke
  | .propose _ answers _ => ∀ revoke, answers.revocation = .ok revoke → Fitting P rc revoke
  | .drive answers => ∀ revoke, answers.revocation = .ok revoke → Fitting P rc revoke
  | .probe _ => True
  | .rollback => True
  | .force => True

/-! ### The invariant -/

/-- A state that was signed for the peer is not forgotten. -/
def Kept (rc : RemoteChannel) (state : State) : Prop :=
  state ∈ rc.ch.abandoned ∨
    state.n < rc.ch.cur.n ∧ rc.ch.history.lookup state.n = some state ∨
    state = rc.ch.cur ∨
    state.n = rc.ch.cur.n + 1 ∧
      (rc.ch.pending = some state ∨ rc.outPhase = .upd ∧ decodeState rc.outState = some state)

/-- What holds of an endpoint while revocations come in order. -/
structure Sound (rc : RemoteChannel) : Prop where
  revealed : ∀ k < rc.due, ∃ secret, rc.ch.remoteSecrets.lookup k = some secret ∧
    rc.ch.remoteHashes.lookup k = some (hashPreimageHex P secret)
  notYet : ∀ k secret, rc.ch.remoteSecrets.lookup k = some secret → k < rc.due
  hashes : ∀ k, (rc.ch.remoteHashes.lookup k).isSome = true ↔ k ≤ rc.due + 1
  awaiting : rc.outPhase = .rev → 0 < rc.ch.cur.n ∧ (decodeState rc.outState).isSome = true
  current : Readable rc.ch.cur
  opened : rc.ch.remoteSigCur ≠ []
  pending : ∀ state, rc.ch.pending = some state →
    state.n = rc.ch.cur.n + 1 ∧ Readable state ∧ rc.outPhase = .idle
  countersigned : rc.ch.pending ≠ none → rc.ch.remoteSigPending.getD [] ≠ []
  proposed : rc.outPhase = .upd → ∀ state, decodeState rc.outState = some state →
    state.n = rc.ch.cur.n + 1

/-- What holds of everything an endpoint has released. -/
def Accounted (rc : RemoteChannel) : Released → Prop
  | .commitment state revHash => rc.ch.remoteHashes.lookup state.n = some revHash ∧ Readable state ∧
      Kept rc state
  | .answered k => k < rc.due
  | .announced _ => True

/-- What an endpoint is told once: its wallet, its side and the terms. -/
def Channel.terms (ch : Channel) : WalletKeys × Bool × Info := (ch.keys, ch.isA, ch.info)

/-- A sound endpoint goes to a sound one, and the log stays accounted for. -/
structure Safely (rc : RemoteChannel) (released : List Released) (after : RemoteChannel) : Prop where
  sound : Sound P after
  keeps : ∀ item, Accounted rc item → Accounted after item
  adds : ∀ item ∈ released, Accounted after item
  terms : after.ch.terms = rc.ch.terms

variable {P}

variable {rc after : RemoteChannel} {state : State} {log : List Released}

/-- Nothing happens safely. -/
theorem Safely.refl (sound : Sound P rc) : Safely P rc [] rc :=
  ⟨sound, fun _ holds => holds, by simp, rfl⟩

/-- What happens safely, twice. -/
theorem Safely.trans {between : RemoteChannel} {first second : List Released}
    (left : Safely P rc first between) (right : Safely P between second after) :
    Safely P rc (first ++ second) after := by
  refine ⟨right.sound, fun item holds => right.keeps item (left.keeps item holds), ?_,
    right.terms.trans left.terms⟩
  intro item member
  rcases List.mem_append.mp member with early | late
  · exact right.keeps item (left.adds item early)
  · exact right.adds item late

theorem due_of_ne (other : rc.outPhase ≠ .rev) : rc.due = rc.ch.cur.n :=
  if_neg other

theorem due_rev (awaiting : rc.outPhase = .rev) : rc.due = rc.ch.cur.n - 1 :=
  if_pos awaiting

/-- The current number is due, or the one before it. -/
theorem Sound.due_le (sound : Sound P rc) :
    rc.due ≤ rc.ch.cur.n ∧ rc.ch.cur.n ≤ rc.due + 1 := by
  unfold RemoteChannel.due
  split
  · rename_i awaiting
    have positive := (sound.awaiting awaiting).1
    omega
  · omega

/-- A number whose hash is in the table is at most one beyond the one that is due. -/
theorem Sound.known (sound : Sound P rc) {n : Nat} {hash : Bytes}
    (found : rc.ch.remoteHashes.lookup n = some hash) : n ≤ rc.due + 1 :=
  (sound.hashes n).mp (by simp [found])

/-- The hash that a signature was made under is in the table. -/
theorem Sound.hashFor (sound : Sound P rc) (n : Nat) (known : n ≤ rc.due + 1) :
    rc.ch.remoteHashes.lookup n = some (rc.ch.hashFor n) := by
  obtain ⟨hash, found⟩ := Option.isSome_iff_exists.mp ((sound.hashes n).mpr known)
  rw [Channel.hashFor, found, Option.getD_some]

/-- A step that leaves the tables, the current state and the number that is due as they
are is safe when what it does to the states in flight is. -/
theorem Safely.of_same (sound : Sound P rc) (tables : after.ch.remoteSecrets = rc.ch.remoteSecrets ∧
      after.ch.remoteHashes = rc.ch.remoteHashes)
    (current : after.ch.cur = rc.ch.cur ∧ after.ch.remoteSigCur = rc.ch.remoteSigCur)
    (due : after.due = rc.due) (terms : after.ch.terms = rc.ch.terms)
    (awaiting : after.outPhase = .rev → rc.outPhase = .rev ∧ after.outState = rc.outState)
    (pending : ∀ state, after.ch.pending = some state → state.n = rc.ch.cur.n + 1 ∧
      Readable state ∧ after.outPhase = .idle ∧ after.ch.remoteSigPending.getD [] ≠ [])
    (proposed : after.outPhase = .upd → ∀ state, decodeState after.outState = some state →
      state.n = rc.ch.cur.n + 1)
    (keeps : ∀ state, Kept rc state → Kept after state) : Safely P rc [] after := by
  obtain ⟨secrets, hashes⟩ := tables
  obtain ⟨current, opened⟩ := current
  refine ⟨⟨?_, ?_, ?_, ?_, ?_, ?_, ?_, ?_, ?_⟩, ?_, by simp, terms⟩
  · rw [due, secrets, hashes]
    exact sound.revealed
  · rw [due, secrets]
    exact sound.notYet
  · rw [due, hashes]
    exact sound.hashes
  · intro phase
    rw [current, (awaiting phase).2]
    exact sound.awaiting (awaiting phase).1
  · rw [current]
    exact sound.current
  · rw [opened]
    exact sound.opened
  · intro state flight
    rw [current]
    exact ⟨(pending state flight).1, (pending state flight).2.1, (pending state flight).2.2.1⟩
  · intro flight
    obtain ⟨state, flight⟩ := Option.ne_none_iff_exists'.mp flight
    exact (pending state flight).2.2.2
  · rw [current]
    exact proposed
  · intro item holds
    cases item with
    | announced k => trivial
    | answered k =>
      show k < _
      rw [due]
      exact holds
    | commitment state revHash =>
      obtain ⟨hash, readable, kept⟩ := holds
      exact ⟨hashes ▸ hash, readable, keeps state kept⟩

/-- What is known of a pending state. -/
theorem Sound.flight (sound : Sound P rc)
    (flight : rc.ch.pending = some state) : state.n = rc.ch.cur.n + 1 ∧ Readable state ∧
      rc.outPhase = .idle ∧ rc.ch.remoteSigPending.getD [] ≠ [] := by
  obtain ⟨number, readable, idle⟩ := sound.pending state flight
  exact ⟨number, readable, idle, sound.countersigned (by simp [flight])⟩

/-! ### Giving up -/

theorem safely_force (sound : Sound P rc) : Safely P rc [] (rchanForce rc) := by
  unfold rchanForce
  split
  · exact Safely.refl sound
  · exact ⟨{ sound with }, fun item holds => by cases item <;> exact holds, by simp, rfl⟩

theorem safely_drop (sound : Sound P rc) :
    Safely P rc [] { rc with ch := dropPending rc.ch } := by
  refine Safely.of_same sound ⟨rfl, rfl⟩ ⟨rfl, rfl⟩ rfl rfl (fun awaiting => ⟨awaiting, rfl⟩) ?_
    sound.proposed ?_
  · intro state flight
    simp [dropPending] at flight
  · rintro state (gone | past | current | ⟨next, flight | proposed⟩)
    · exact .inl (List.mem_append_left _ gone)
    · exact .inr (.inl past)
    · exact .inr (.inr (.inl current))
    · exact .inl (List.mem_append_right _ (by simp [flight]))
    · exact .inr (.inr (.inr ⟨next, .inr proposed⟩))

theorem safely_abandon (sound : Sound P rc) :
    Safely P rc [] (rchanAbandonOut rc) := by
  unfold rchanAbandonOut
  split
  · exact Safely.refl sound
  · rename_i phase
    have upd : rc.outPhase = .upd := not_not.mp phase
    have due : rc.due = rc.ch.cur.n := due_of_ne (by simp [upd])
    refine Safely.of_same sound ⟨rfl, rfl⟩ ⟨rfl, rfl⟩ (due ▸ rfl) rfl (by simp) ?_ (by simp) ?_
    · intro state flight
      have idle := (sound.flight flight).2.2.1
      simp [upd] at idle
    · rintro state (gone | past | current | ⟨next, flight | ⟨_, proposed⟩⟩)
      · exact .inl (List.mem_append_left _ gone)
      · exact .inr (.inl past)
      · exact .inr (.inr (.inl current))
      · exact .inr (.inr (.inr ⟨next, .inl flight⟩))
      · exact .inl (List.mem_append_right _ (by simp [proposed]))

theorem safely_rollback (sound : Sound P rc) :
    Safely P rc [] (rchanRollback rc) := by
  unfold rchanRollback
  split
  · exact Safely.refl sound
  · have given := safely_abandon sound
    dsimp only
    split
    · exact given.trans (safely_drop given.sound)
    · exact given

theorem safely_probe (sound : Sound P rc) (answer : Except Bytes Bytes) :
    Safely P rc [] (rchanProbe answer rc) := by
  unfold rchanProbe
  repeat' split
  all_goals first
    | exact safely_drop sound
    | exact Safely.refl sound

/-! ### The peer's updates -/

theorem signature_ne_nil {publicKey message sig : Bytes}
    (verified : verifyMessageSignatureHybridUncached P publicKey message sig = true) : sig ≠ [] := by
  obtain ⟨digits, spelled, _⟩ := verifyMessageSignatureHybridUncached_shape P _ _ _ verified
  rw [spelled]
  simp [pqPrefix, ascii]

/-- A signature for a later state is accepted for a valid state. -/
theorem receiveCommitSig_checks (ch after : Channel) (next : State) (sig : Bytes)
    (opened : ch.remoteSigCur ≠ []) (received : receiveCommitSig P ch next sig = .ok after) :
    validateNext ch next = .ok () ∧ sig ≠ [] ∧
      after = { ch with pending := some next, remoteSigPending := some sig } := by
  have later : (decide (next.n = 0) && ch.remoteSigCur.isEmpty) = false := by simp [opened]
  simp only [receiveCommitSig, later, Bool.not_false, onlyIf_ok, bind_ok, exists_unit, ensure_ok,
    Bool.false_eq_true, ↓reduceIte, pure_ok, forall_const] at received
  obtain ⟨valid, verified, same⟩ := received
  exact ⟨valid, signature_ne_nil verified, same.symm⟩

/-- What accepting a signature for a later state needs and does. -/
theorem receiveCommitSig_later (ch after : Channel) (next : State) (sig : Bytes)
    (opened : ch.remoteSigCur ≠ []) (received : receiveCommitSig P ch next sig = .ok after) :
    ch.pending = none ∧ next.n = ch.cur.n + 1 ∧ sig ≠ [] ∧
      after = { ch with pending := some next, remoteSigPending := some sig } := by
  obtain ⟨valid, present, same⟩ := receiveCommitSig_checks ch after next sig opened received
  simp only [validateNext, bind_ok, exists_unit, ensure_ok, decide_eq_true_eq,
    Option.isNone_iff_eq_none] at valid
  obtain ⟨none, number, _⟩ := valid
  exact ⟨none, number, present, same⟩

theorem safely_receive (sound : Sound P rc) (idle : rc.outPhase = .idle)
    (ch : Channel) (next : State) (sig : Bytes) (readable : Readable next)
    (received : receiveCommitSig P rc.ch next sig = .ok ch) :
    Safely P rc [signed ch next] { rc with ch := ch } := by
  obtain ⟨none, number, present, rfl⟩ :=
    receiveCommitSig_later rc.ch ch next sig sound.opened received
  have due : rc.due = rc.ch.cur.n := due_of_ne (by simp [idle])
  have hash := sound.hashFor next.n (by omega)
  refine ⟨{ sound with pending := ?_, countersigned := fun _ => present }, ?_, ?_, rfl⟩
  · rintro state flight
    obtain rfl := Option.some.inj flight
    exact ⟨number, readable, idle⟩
  · intro item holds
    cases item with
    | answered k => exact holds
    | announced k => trivial
    | commitment state revHash =>
      obtain ⟨hash, readable, kept⟩ := holds
      refine ⟨hash, readable, ?_⟩
      rcases kept with gone | past | current | ⟨_, flight | ⟨phase, _⟩⟩
      · exact .inl gone
      · exact .inr (.inl past)
      · exact .inr (.inr (.inl current))
      · simp [none] at flight
      · simp [idle] at phase
  · intro item member
    rw [List.mem_singleton.mp member]
    exact ⟨hash, readable, .inr (.inr (.inr ⟨number, .inl rfl⟩))⟩

theorem safely_acceptUpd (sound : Sound P rc) (idle : rc.outPhase = .idle)
    (height : UInt64) (saved : Bool) (next : State) (sig kind extra : Bytes)
    (readable : Readable next) :
    Safely P rc (acceptUpd P height saved rc next sig kind extra).released
      (acceptUpd P height saved rc next sig kind extra).after := by
  unfold acceptUpd
  split
  · exact Safely.refl sound
  · -- the route is looked at only when an HTLC is added
    rename_i update _
    cases update
    all_goals
      repeat' split
    all_goals first
      | exact Safely.refl sound
      | exact safely_receive sound idle _ next sig readable (by assumption)

theorem safely_resolveOut (sound : Sound P rc) (height : UInt64) (saved : Bool)
    (next : State) (sig kind extra : Bytes) (readable : Readable next) :
    Safely P rc (resolveOut P height saved rc next sig kind extra).released
      (resolveOut P height saved rc next sig kind extra).after := by
  unfold resolveOut
  split
  · exact Safely.refl sound
  · rename_i upd
    split
    · exact Safely.refl sound
    · have given := safely_abandon sound
      have idle : (rchanAbandonOut rc).outPhase = .idle := by
        simp [rchanAbandonOut, upd]
      exact given.trans (safely_acceptUpd given.sound idle height saved next sig kind extra readable)
  · rename_i idle
    exact safely_acceptUpd sound idle height saved next sig kind extra readable

/-- UPD is handled safely. -/
theorem safely_upd (sound : Sound P rc) (height : UInt64) (saved : Bool) (fields : List Bytes) :
    Safely P rc (handleUpd P height saved rc fields).released
      (handleUpd P height saved rc fields).after := by
  unfold handleUpd
  dsimp only
  split
  · exact Safely.refl sound
  · rename_i next read
    have readable := decodeState_readable _ next read
    split
    · exact Safely.refl sound
    · split
      · exact safely_resolveOut sound height saved next _ _ _ readable
      · rename_i pending flight
        split
        · -- the same text again: what is signed is the pending state itself
          rename_i same
          obtain ⟨number, whole, idle⟩ := sound.pending pending flight
          have again : next = pending := by
            rw [← same, decodeState_encodeState pending whole] at read
            exact (Option.some.inj read).symm
          have due : rc.due = rc.ch.cur.n := due_of_ne (by simp [idle])
          refine ⟨sound, fun _ holds => holds, fun item member => ?_, rfl⟩
          rw [List.mem_singleton.mp member, again]
          exact ⟨sound.hashFor pending.n (by omega), whole,
            .inr (.inr (.inr ⟨number, .inl flight⟩))⟩
        · split
          · exact Safely.refl sound
          · have dropped := safely_drop sound
            exact dropped.trans
              (safely_resolveOut dropped.sound height saved next _ _ _ readable)

/-! ### The peer's revocations -/

theorem receiveRevoke_ok (ch after : Channel) (revoke : Revoke) :
    receiveRevoke P ch revoke = .ok after ↔
      ch.remoteHashes.lookup revoke.revokedN = some (hashPreimageHex P revoke.secret) ∧
        revoke.nextHash.length = 128 ∧
        after = { ch with
          remoteSecrets := ch.remoteSecrets.insert revoke.revokedN revoke.secret
          remoteHashes := ch.remoteHashes.insert (revoke.revokedN + 2) revoke.nextHash } := by
  simp only [receiveRevoke, bind_ok, exists_unit, ensure_ok, beq_iff_eq, decide_eq_true_eq, pure_ok]
  constructor
  · rintro ⟨hash, width, same⟩
    exact ⟨hash, width, same.symm⟩
  · rintro ⟨hash, width, same⟩
    exact ⟨hash, width, same.symm⟩

/-- Whether a revocation is accepted depends on the hashes alone. -/
theorem receiveRevoke_isOk (ch ch' : Channel) (revoke : Revoke)
    (same : ch.remoteHashes = ch'.remoteHashes) :
    (receiveRevoke P ch revoke).isOk = (receiveRevoke P ch' revoke).isOk := by
  unfold receiveRevoke
  rw [same]
  by_cases hash : (ch'.remoteHashes.lookup revoke.revokedN ==
      some (hashPreimageHex P revoke.secret)) = true
  · by_cases width : revoke.nextHash.length = 128
    · simp [ensure, hash, width, bind, Except.bind, Except.isOk, Except.toBool, pure, Except.pure]
    · simp [ensure, hash, width, bind, Except.bind, Except.isOk, Except.toBool]
  · simp [ensure, hash, bind, Except.bind, Except.isOk, Except.toBool]

/-- The tables of the peer's hashes and secrets, when the number that is due was revoked. -/
structure Revealed (P : Primitives) (before ch : Channel) (due : Nat) : Prop where
  revealed : ∀ k < due + 1, ∃ secret, ch.remoteSecrets.lookup k = some secret ∧
    ch.remoteHashes.lookup k = some (hashPreimageHex P secret)
  notYet : ∀ k secret, ch.remoteSecrets.lookup k = some secret → k < due + 1
  hashes : ∀ k, (ch.remoteHashes.lookup k).isSome = true ↔ k ≤ due + 1 + 1
  same : ∀ k ≤ due + 1, ch.remoteHashes.lookup k = before.remoteHashes.lookup k

theorem Sound.reveal (sound : Sound P rc) (revoke : Revoke) (ch : Channel)
    (fits : Fitting P rc revoke) (received : receiveRevoke P rc.ch revoke = .ok ch) :
    Revealed P rc.ch ch rc.due := by
  have number : revoke.revokedN = rc.due := fits (by rw [received]; rfl)
  obtain ⟨hash, _, rfl⟩ := (receiveRevoke_ok rc.ch ch revoke).mp received
  rw [number] at hash
  have same : ∀ k ≤ rc.due + 1, (rc.ch.remoteHashes.insert (rc.due + 2) revoke.nextHash).lookup k =
      rc.ch.remoteHashes.lookup k := by
    intro k bound
    rw [lookup_insert, if_neg (by omega)]
  simp only [number]
  refine ⟨?_, ?_, ?_, same⟩
  · intro k bound
    dsimp only
    rw [lookup_insert, same k (by omega)]
    by_cases here : k = rc.due
    · rw [if_pos here]
      exact ⟨revoke.secret, rfl, here ▸ hash⟩
    · rw [if_neg here]
      exact sound.revealed k (by omega)
  · intro k secret found
    dsimp only at found
    rw [lookup_insert] at found
    by_cases here : k = rc.due
    · omega
    · rw [if_neg here] at found
      have earlier := sound.notYet k secret found
      omega
  · intro k
    dsimp only
    rw [lookup_insert]
    by_cases here : k = rc.due + 2
    · simp [here]
    · rw [if_neg here, sound.hashes k]
      omega

/-- A signed state stays kept when the state in flight becomes the current one. -/
theorem Kept.advance (kept : Kept rc state) (flying : State) (number : flying.n = rc.ch.cur.n + 1)
    (only : ∀ state, rc.ch.pending = some state ∨
      rc.outPhase = .upd ∧ decodeState rc.outState = some state → state = flying)
    (history : after.ch.history = rc.ch.history.insert rc.ch.cur.n rc.ch.cur)
    (current : after.ch.cur = flying) (abandoned : after.ch.abandoned = rc.ch.abandoned) :
    Kept after state := by
  unfold Kept
  rw [history, current, abandoned, number]
  rcases kept with gone | ⟨early, past⟩ | same | ⟨_, inFlight⟩
  · exact .inl gone
  · refine .inr (.inl ⟨by omega, ?_⟩)
    rw [lookup_insert, if_neg (by omega)]
    exact past
  · subst same
    refine .inr (.inl ⟨by omega, ?_⟩)
    rw [lookup_insert, if_pos rfl]
  · exact .inr (.inr (.inl (only state inFlight)))

/-- The peer's revocation and then ours: the number that was current is answered. -/
theorem safely_answer (sound : Sound P rc) (revoke : Revoke) (ch : Channel)
    (pending : State) (flight : rc.ch.pending = some pending) (tables : Revealed P rc.ch ch rc.due)
    (received : receiveRevoke P rc.ch revoke = .ok ch) :
    Safely P rc [.answered rc.ch.cur.n] { rc with ch := (revokeAndAdvance P ch pending).2 } := by
  obtain ⟨number, readable, idle⟩ := sound.pending pending flight
  have due : rc.due = rc.ch.cur.n := due_of_ne (by simp [idle])
  have sig := sound.countersigned (by simp [flight])
  obtain ⟨_, _, rfl⟩ := (receiveRevoke_ok rc.ch ch revoke).mp received
  set after : RemoteChannel := { rc with ch := (revokeAndAdvance P _ pending).2 } with shape
  have later : after.due = rc.due + 1 := by
    rw [due_of_ne (by simp [shape, idle]), due, ← number]
    rfl
  refine ⟨⟨?_, ?_, ?_, ?_, readable, sig, ?_, ?_, ?_⟩, ?_, ?_, rfl⟩
  · rw [later]
    exact tables.revealed
  · rw [later]
    exact tables.notYet
  · rw [later]
    exact tables.hashes
  · intro awaiting
    simp [shape, idle] at awaiting
  · intro state pendingAgain
    simp [shape, revokeAndAdvance] at pendingAgain
  · simp [shape, revokeAndAdvance]
  · intro phase
    simp [shape, idle] at phase
  · intro item holds
    cases item with
    | announced k => trivial
    | answered k =>
      have before : k < rc.due := holds
      show k < after.due
      omega
    | commitment state revHash =>
      obtain ⟨hash, readable, kept⟩ := holds
      refine ⟨?_, readable, ?_⟩
      · rw [← hash]
        exact tables.same state.n (sound.known hash)
      · refine kept.advance pending number ?_ rfl rfl rfl
        rintro state (same | ⟨phase, _⟩)
        · rw [flight] at same
          exact (Option.some.inj same).symm
        · simp [idle] at phase
  · intro item member
    rw [List.mem_singleton.mp member]
    show rc.ch.cur.n < after.due
    omega

/-- REV is handled safely when it names the number that is due. -/
theorem safely_rev (sound : Sound P rc) (saved : Bool) (fault : RevFault) (fields : List Bytes)
    (inOrder : rc.ch.pending ≠ none → ∀ revoke, revokeOf fields = some revoke → Fitting P rc revoke) :
    Safely P rc (handleRev P saved fault rc fields).released
      (handleRev P saved fault rc fields).after := by
  unfold handleRev
  split
  · exact Safely.refl sound
  · rename_i revoke read
    split
    · split
      · -- the peer's secret for the number before the current one is stored already
        rename_i again
        obtain ⟨number, stored⟩ := again
        refine ⟨sound, fun _ holds => holds, fun item member => ?_, rfl⟩
        rw [List.mem_singleton.mp member]
        have early := sound.notYet revoke.revokedN revoke.secret (beq_iff_eq.mp stored)
        show rc.ch.cur.n - 1 < rc.due
        omega
      · exact Safely.refl sound
    · rename_i pending flight
      split
      · exact Safely.refl sound
      · split
        · exact Safely.refl sound
        · rename_i ch received
          have tables := sound.reveal revoke ch (inOrder (by simp [flight]) revoke read) received
          have advanced : Safely P rc [.answered rc.ch.cur.n]
              { rc with ch := (revokeAndAdvance P ch pending).2 } :=
            safely_answer sound revoke ch pending flight tables received
          have silent : Safely P rc [] { rc with ch := (revokeAndAdvance P ch pending).2 } :=
            ⟨advanced.sound, advanced.keeps, by simp, advanced.terms⟩
          have current : ch.cur = rc.ch.cur := by
            rw [((receiveRevoke_ok rc.ch ch revoke).mp received).2.2]
          dsimp only
          split
          · exact silent
          · split
            · exact silent
            · show Safely P rc [.answered ch.cur.n] _
              rw [current]
              exact advanced

/-! ### The other messages -/

/-- ABORT is handled safely. -/
theorem safely_abort (sound : Sound P rc) (saved : Bool) (fields : List Bytes) :
    Safely P rc (handleAbort saved rc fields).released (handleAbort saved rc fields).after := by
  unfold handleAbort
  split
  · exact Safely.refl sound
  · dsimp only
    split
    · exact Safely.refl sound
    · split
      · exact safely_drop sound
      · exact Safely.refl sound

/-- CLOSE is handled safely. -/
theorem safely_close (sound : Sound P rc) (saved : Bool) :
    Safely P rc (handleClose P saved rc).released (handleClose P saved rc).after := by
  unfold handleClose
  split
  · exact Safely.refl sound
  · exact ⟨{ sound with }, fun item holds => by cases item <;> exact holds, by simp, rfl⟩

theorem safely_message (sound : Sound P rc) (env : Circumstances)
    (fields : List Bytes) (inOrder : RevokesInOrder P rc (.message env fields)) :
    Safely P rc (handleChannelMessage P env rc fields).released
      (handleChannelMessage P env rc fields).after := by
  unfold handleChannelMessage
  dsimp only
  split
  · exact Safely.refl sound
  split
  · exact Safely.refl sound
  rename_i status
  have opened : rc.status = .opened := not_not.mp status
  split
  · exact safely_upd sound env.height env.saved fields
  split
  · rename_i isRev
    exact safely_rev sound env.saved env.fault fields (inOrder opened isRev)
  split
  · exact safely_abort sound env.saved fields
  split
  · exact safely_close sound env.saved
  · exact Safely.refl sound

/-! ### Our own proposals -/

/-- The answer to our revocation is the peer's. -/
theorem safely_finish (sound : Sound P rc) (awaiting : rc.outPhase = .rev)
    (revoke : Revoke) (ch : Channel) (fits : Fitting P rc revoke)
    (received : receiveRevoke P rc.ch revoke = .ok ch) :
    Safely P rc [] { rc with ch := ch, outPhase := .idle, outState := [] } := by
  have tables := sound.reveal revoke ch fits received
  have positive := (sound.awaiting awaiting).1
  have due := due_rev awaiting
  obtain ⟨_, _, rfl⟩ := (receiveRevoke_ok rc.ch ch revoke).mp received
  set after : RemoteChannel := { rc with ch := _, outPhase := .idle, outState := [] } with shape
  have later : after.due = rc.due + 1 := by
    rw [due_of_ne (by simp [shape]), due]
    show rc.ch.cur.n = _
    omega
  refine ⟨⟨?_, ?_, ?_, by simp [shape], sound.current, sound.opened, ?_, sound.countersigned,
    by simp [shape]⟩, ?_, by simp, rfl⟩
  · rw [later]
    exact tables.revealed
  · rw [later]
    exact tables.notYet
  · rw [later]
    exact tables.hashes
  · intro state flight
    have idle := (sound.pending state flight).2.2
    simp [awaiting] at idle
  · intro item holds
    cases item with
    | announced k => trivial
    | answered k =>
      have before : k < rc.due := holds
      show k < after.due
      omega
    | commitment state revHash =>
      obtain ⟨hash, readable, kept⟩ := holds
      refine ⟨?_, readable, ?_⟩
      · rw [← hash]
        exact tables.same state.n (sound.known hash)
      · rcases kept with gone | past | current | ⟨next, flight | ⟨phase, _⟩⟩
        · exact .inl gone
        · exact .inr (.inl past)
        · exact .inr (.inr (.inl current))
        · exact .inr (.inr (.inr ⟨next, .inl flight⟩))
        · simp [awaiting] at phase

theorem safely_driveRev (sound : Sound P rc) (awaiting : rc.outPhase = .rev) (answers : Answers)
    (inOrder : ∀ revoke, answers.revocation = .ok revoke → Fitting P rc revoke) :
    Safely P rc (driveRev P answers rc).released (driveRev P answers rc).after := by
  have due := due_rev awaiting
  have positive := (sound.awaiting awaiting).1
  have sent : Safely P rc (driveRev P answers rc).released rc := by
    have current : Accounted rc (signed rc.ch rc.ch.cur) :=
      ⟨sound.hashFor _ (by omega), sound.current, .inr (.inr (.inl rfl))⟩
    have released : (driveRev P answers rc).released =
        if answers.toRev.1 then [.announced (lastRevoke P rc.ch).revokedN, signed rc.ch rc.ch.cur]
        else [.announced (lastRevoke P rc.ch).revokedN] := by
      unfold driveRev
      repeat' split
      all_goals rfl
    refine ⟨sound, fun _ holds => holds, fun item member => ?_, rfl⟩
    rw [released] at member
    split at member
    · rcases List.mem_cons.mp member with rfl | last
      · trivial
      · rw [List.mem_singleton.mp last]
        exact current
    · rw [List.mem_singleton.mp member]
      trivial
  have after : Safely P rc [] (driveRev P answers rc).after := by
    unfold driveRev
    dsimp only
    split
    · exact Safely.refl sound
    · rename_i theirs answered
      split
      · exact Safely.refl sound
      · rename_i ch received
        exact safely_finish sound awaiting theirs ch (inOrder theirs answered) received
  simpa using sent.trans after

/-- Our own proposal becomes the current state, and our revocation is awaiting the peer's. -/
theorem safely_advance (sound : Sound P rc) (upd : rc.outPhase = .upd)
    (next : State) (sig : Bytes) (read : decodeState rc.outState = some next) (present : sig ≠ []) :
    Safely P rc [] { rc with
      ch := (revokeAndAdvance P { rc.ch with pending := some next, remoteSigPending := some sig } next).2
      outPhase := .rev } := by
  have number := sound.proposed upd next read
  have due : rc.due = rc.ch.cur.n := due_of_ne (by simp [upd])
  set after : RemoteChannel := { rc with ch := (revokeAndAdvance P _ next).2, outPhase := .rev }
    with shape
  have sameDue : after.due = rc.due := by
    rw [due_rev (by simp [shape]), due]
    show next.n - 1 = _
    omega
  refine ⟨⟨?_, ?_, ?_, ?_, decodeState_readable _ next read, present, ?_, ?_, ?_⟩, ?_, by simp,
    rfl⟩
  · rw [sameDue]
    exact sound.revealed
  · rw [sameDue]
    exact sound.notYet
  · rw [sameDue]
    exact sound.hashes
  · intro _
    refine ⟨?_, by simp [shape, read]⟩
    show 0 < next.n
    omega
  · intro state flight
    simp [shape, revokeAndAdvance] at flight
  · simp [shape, revokeAndAdvance]
  · simp [shape]
  · intro item holds
    cases item with
    | announced k => trivial
    | answered k =>
      have before : k < rc.due := holds
      show k < after.due
      omega
    | commitment state revHash =>
      obtain ⟨hash, readable, kept⟩ := holds
      refine ⟨hash, readable, kept.advance next number ?_ rfl rfl rfl⟩
      rintro state (flight | ⟨_, same⟩)
      · have idle := (sound.pending state flight).2.2
        simp [upd] at idle
      · rw [read] at same
        exact (Option.some.inj same).symm

/-- Whether a revocation fits depends on the hashes and the number that is due. -/
theorem Fitting.of_same {revoke : Revoke} (fits : Fitting P rc revoke)
    (hashes : after.ch.remoteHashes = rc.ch.remoteHashes) (due : after.due = rc.due) :
    Fitting P after revoke := by
  intro accepted
  rw [due]
  exact fits (by rw [← receiveRevoke_isOk after.ch rc.ch revoke hashes]; exact accepted)

theorem safely_driveUpd (sound : Sound P rc) (upd : rc.outPhase = .upd)
    (answers : Answers) (next : State) (read : decodeState rc.outState = some next)
    (inOrder : ∀ revoke, answers.revocation = .ok revoke → Fitting P rc revoke) :
    Safely P rc (driveUpd P answers rc next).released (driveUpd P answers rc next).after := by
  have number := sound.proposed upd next read
  have due : rc.due = rc.ch.cur.n := due_of_ne (by simp [upd])
  have sent : Safely P rc [signed rc.ch next] rc := by
    refine ⟨sound, fun _ holds => holds, fun item member => ?_, rfl⟩
    rw [List.mem_singleton.mp member]
    exact ⟨sound.hashFor next.n (by omega), decodeState_readable _ next read,
      .inr (.inr (.inr ⟨number, .inr ⟨upd, read⟩⟩))⟩
  unfold driveUpd
  dsimp only
  split
  · split
    · simpa using sent.trans (safely_abandon sound)
    · exact sent
  · split
    · exact sent
    · split
      · exact sent
      · rename_i _ _ body _ _ ch received
        obtain ⟨_, _, present, rfl⟩ :=
          receiveCommitSig_later rc.ch ch next body sound.opened received
        have advanced := sent.trans (safely_advance sound upd next body read present)
        unfold driveAdvance
        dsimp only
        split
        · simpa using advanced
        · refine (by simpa using advanced : Safely P rc [signed rc.ch next] _).trans
            (safely_driveRev advanced.sound rfl answers fun revoke answered => ?_)
          refine (inOrder revoke answered).of_same rfl ?_
          rw [due_rev rfl, due]
          show next.n - 1 = _
          omega

/-- A proposal that cannot be read is forgotten; nothing was signed for it. -/
theorem safely_corrupt (sound : Sound P rc)
    (unread : decodeState rc.outState = none) : Safely P rc [] { rc with outPhase := .idle } := by
  have due : rc.due = rc.ch.cur.n := by
    refine due_of_ne fun awaiting => ?_
    have readable := (sound.awaiting awaiting).2
    simp [unread] at readable
  refine Safely.of_same sound ⟨rfl, rfl⟩ ⟨rfl, rfl⟩ ?_ rfl (by simp) ?_ (by simp) ?_
  · rw [due]
    rfl
  · intro state flight
    obtain ⟨number, readable, _, present⟩ := sound.flight flight
    exact ⟨number, readable, rfl, present⟩
  · rintro state (gone | past | current | ⟨next, flight | ⟨_, proposed⟩⟩)
    · exact .inl gone
    · exact .inr (.inl past)
    · exact .inr (.inr (.inl current))
    · exact .inr (.inr (.inr ⟨next, .inl flight⟩))
    · simp [unread] at proposed

/-- A drive is safe when the answers name the number that is due. -/
theorem safely_drive (sound : Sound P rc) (answers : Answers)
    (inOrder : ∀ revoke, answers.revocation = .ok revoke → Fitting P rc revoke) :
    Safely P rc (rchanDrive P answers rc).released (rchanDrive P answers rc).after := by
  unfold rchanDrive
  split
  · rename_i unread
    exact safely_corrupt sound unread
  · rename_i next read
    split
    · exact Safely.refl sound
    · rename_i awaiting
      exact safely_driveRev sound awaiting answers inOrder
    · rename_i upd
      split
      · exact safely_abandon sound
      · split
        · exact safely_driveUpd sound upd answers next read inOrder
        · -- nothing of the peer's is pending while we propose
          rename_i pending flight
          have idle := (sound.pending pending flight).2.2
          simp [upd] at idle

/-- A text that is put into the idle outbox: our proposal, or what is left of one that
could not be written down. -/
theorem safely_outbox (sound : Sound P rc) (idle : rc.outPhase = .idle)
    (phase : OutPhase) (next : State) (nothing : rc.ch.pending = none)
    (number : next.n = rc.ch.cur.n + 1) (before : phase ≠ .rev) :
    Safely P rc [] { rc with outPhase := phase, outState := encodeState next } := by
  have due : rc.due = rc.ch.cur.n := due_of_ne (by simp [idle])
  refine Safely.of_same sound ⟨rfl, rfl⟩ ⟨rfl, rfl⟩ ?_ rfl (fun awaiting => absurd awaiting before)
    ?_ ?_ ?_
  · rw [due]
    exact due_of_ne before
  · simp [nothing]
  · intro _ state read
    rw [decodeState_encodeState_n next state read]
    exact number
  · rintro state (gone | past | current | ⟨_, flight | ⟨phase, _⟩⟩)
    · exact .inl gone
    · exact .inr (.inl past)
    · exact .inr (.inr (.inl current))
    · simp [nothing] at flight
    · simp [idle] at phase

/-- A proposal is safe under the same condition. -/
theorem safely_propose (sound : Sound P rc) (saved : Bool) (answers : Answers) (next : State)
    (inOrder : ∀ revoke, answers.revocation = .ok revoke → Fitting P rc revoke) :
    Safely P rc (rchanPropose P saved answers rc next).released
      (rchanPropose P saved answers rc next).after := by
  unfold rchanPropose
  split
  · exact Safely.refl sound
  · rename_i busy
    have idle : rc.outPhase = .idle := not_not.mp busy
    split
    · exact Safely.refl sound
    · rename_i valid
      simp only [validateNext, bind_ok, exists_unit, ensure_ok, decide_eq_true_eq,
        Option.isNone_iff_eq_none] at valid
      obtain ⟨nothing, number, _⟩ := valid
      have proposed := safely_outbox sound idle .upd next nothing number (by simp)
      have due : rc.due = rc.ch.cur.n := due_of_ne (by simp [idle])
      dsimp only
      split
      · exact safely_outbox sound idle .idle next nothing number (by simp)
      · refine proposed.trans (safely_drive proposed.sound answers fun revoke answered => ?_)
        refine (inOrder revoke answered).of_same rfl ?_
        rw [due]
        rfl

/-! ### Whole runs -/

/-- Every step is safe under this condition. -/
theorem step_safely (sound : Sound P rc) (event : Event) (inOrder : RevokesInOrder P rc event) :
    Safely P rc (step P rc event).1 (step P rc event).2 := by
  cases event with
  | message env fields => exact safely_message sound env fields inOrder
  | propose saved answers next => exact safely_propose sound saved answers next inOrder
  | drive answers => exact safely_drive sound answers inOrder
  | probe answer => exact safely_probe sound answer
  | rollback => exact safely_rollback sound
  | force => exact safely_force sound

/-- The first signature of the peer is accepted when it verifies, and makes the initial
state current. -/
theorem receiveCommitSig_first (keys : WalletKeys) (remotePub : Bytes) (isA : Bool) (info : Info)
    (seed h0 h1 : Bytes) (initial : State) (sig : Bytes) (ch : Channel) (first : initial.n = 0) :
    receiveCommitSig P (openingChannel keys remotePub isA info seed h0 h1) initial sig = .ok ch ↔
      verifyMessageSignatureHybridUncached P remotePub (sighash P (commitmentTx P info isA initial
        ((openingChannel keys remotePub isA info seed h0 h1).revHash P initial.n))) sig = true ∧
      ch = { openingChannel keys remotePub isA info seed h0 h1 with
        cur := initial, remoteSigCur := sig } := by
  have isFirst : (decide (initial.n = 0) &&
      (openingChannel keys remotePub isA info seed h0 h1).remoteSigCur.isEmpty) = true := by
    simp [first, openingChannel]
  simp only [receiveCommitSig, isFirst, Bool.not_true, onlyIf_ok, bind_ok, exists_unit, ensure_ok,
    Bool.false_eq_true, ↓reduceIte, pure_ok, false_imp_iff, true_and]
  rw [eq_comm (b := ch)]
  rfl

/-- The endpoint after the first exchange is sound, and its first signature is accounted for. -/
theorem opened_sound (keys : WalletKeys) (remotePub : Bytes) (isA : Bool) (info : Info)
    (seed h0 h1 : Bytes) (initial : State) (sig : Bytes) (ch : Channel) (first : initial.n = 0)
    (noHtlcs : initial.htlcs = [])
    (received : receiveCommitSig P (openingChannel keys remotePub isA info seed h0 h1) initial sig =
      .ok ch) :
    Sound P ⟨.opened, ch, .idle, []⟩ ∧ Accounted ⟨.opened, ch, .idle, []⟩ (.commitment initial h0) := by
  obtain ⟨verified, rfl⟩ := (receiveCommitSig_first keys remotePub isA info seed h0 h1 initial sig ch
    first).mp received
  have present := signature_ne_nil verified
  have readable : Readable initial := ⟨by omega, by simp [noHtlcs]⟩
  have due : RemoteChannel.due ⟨.opened, { openingChannel keys remotePub isA info seed h0 h1 with
      cur := initial, remoteSigCur := sig }, .idle, []⟩ = 0 := first
  refine ⟨⟨?_, ?_, ?_, by simp, readable, present, ?_, ?_, by simp⟩, ?_, readable,
    .inr (.inr (.inl rfl))⟩
  · simp [due]
  · simp [openingChannel]
  · intro k
    rw [due]
    simp only [openingChannel, lookup_insert, AList.lookup_empty]
    by_cases one : k = 1
    · simp [one]
    · by_cases zero : k = 0
      · simp [zero]
      · simp only [one, zero, ↓reduceIte, Option.isSome_none, Bool.false_eq_true, false_iff]
        omega
  · simp [openingChannel]
  · simp [openingChannel]
  · show (((∅ : Table Nat Bytes).insert 0 h0).insert 1 h1).lookup initial.n = some h0
    rw [first, lookup_insert, lookup_insert]
    rfl

/-- While revocations come in order, an endpoint is sound and all it released is accounted
for. -/
theorem Run.sound (run : Run P (RevokesInOrder P) rc log) :
    Sound P rc ∧ ∀ item ∈ log, Accounted rc item := by
  induction run with
  | opened keys remotePub isA info seed h0 h1 initial sig ch first noHtlcs own received =>
    obtain ⟨sound, accounted⟩ :=
      opened_sound keys remotePub isA info seed h0 h1 initial sig ch first noHtlcs received
    exact ⟨sound, by simpa using accounted⟩
  | next rc log event before inOrder ih =>
    obtain ⟨sound, accounted⟩ := ih
    have safe := step_safely sound event inOrder
    refine ⟨safe.sound, fun item member => ?_⟩
    rcases List.mem_append.mp member with early | late
    · exact safe.keeps item (accounted item early)
    · exact safe.adds item late

/-- Several steps, one after the other. -/
def play (P : Primitives) (rc : RemoteChannel) : List Event → List Released × RemoteChannel
  | [] => ([], rc)
  | event :: rest =>
    let first := step P rc event
    let later := play P first.2 rest
    (first.1 ++ later.1, later.2)

/-- Every one of the steps meets a condition. -/
def MeetAll (P : Primitives) (condition : EventCondition) (rc : RemoteChannel) : List Event → Prop
  | [] => True
  | event :: rest => condition rc event ∧ MeetAll P condition (step P rc event).2 rest

/-- Further steps make a longer run. -/
theorem Run.play {condition : EventCondition}
    (run : Run P condition rc log) (events : List Event) (meets : MeetAll P condition rc events) :
    Run P condition (play P rc events).2 (log ++ (play P rc events).1) := by
  induction events generalizing rc log with
  | nil => simpa [Channels.play] using run
  | cons event rest ih =>
    obtain ⟨first, others⟩ := meets
    have later := ih (Run.next rc log event run first) others
    rw [List.append_assoc] at later
    exact later

/-- The wallet's address is the address of its side, all along a run. -/
theorem Run.own_address (run : Run P (RevokesInOrder P) rc log) :
    rc.ch.keys.address = if rc.ch.isA then rc.ch.info.addrA else rc.ch.info.addrB := by
  induction run with
  | opened keys remotePub isA info seed h0 h1 initial sig ch first noHtlcs own received =>
    obtain ⟨_, rfl⟩ := (receiveCommitSig_first keys remotePub isA info seed h0 h1 initial sig ch
      first).mp received
    exact own
  | next rc log event before inOrder ih =>
    have terms := (step_safely before.sound.1 event inOrder).terms
    simp only [Channel.terms, Prod.mk.injEq] at terms
    obtain ⟨keys, isA, info⟩ := terms
    rw [keys, isA, info]
    exact ih

end Addition.Channels
