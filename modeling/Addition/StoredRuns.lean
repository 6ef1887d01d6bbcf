import Addition.ChannelFiles
import Addition.ChannelSpends
import Addition.Foundations.HexNumbers

/-!
# Files of channels that run

Whatever a step does to a channel is made of a few changes: a state is received, dropped, taken as
the current one or remembered as rolled back, and a revocation of the peer is stored. Every state
that enters a channel was read from a text, and comes back from its text. The channel comes back
from its file as long as the addresses, the hashes and the secrets that the peer sends have no
white space; nothing checks that.
-/

namespace Addition.Channels

open ByteStrings Checked FiniteTables TextLines StreamWords Script HexNumbers

/-! ### Changes -/

/-- One change of a channel, with a condition on the states and on the revocations that enter. -/
inductive Change (P : Primitives) (takes : State → Prop) (reveals : Revoke → Prop)
    (ch after : Channel) : Prop
  | receives (next : State) (sig : Bytes) (taken : takes next)
      (received : receiveCommitSig P ch next sig = .ok after)
  | drops (dropped : after = dropPending ch)
  | advances (pending : State) (flight : ch.pending = some pending)
      (advanced : after = (revokeAndAdvance P ch pending).2)
  | abandons (state : State) (taken : takes state)
      (noted : after = { ch with abandoned := ch.abandoned ++ [state] })
  | revokes (revoke : Revoke) (revealed : reveals revoke)
      (received : receiveRevoke P ch revoke = .ok after)

/-- Several changes of a channel, one after the other. -/
abbrev Changes (P : Primitives) (takes : State → Prop) (reveals : Revoke → Prop) :
    Channel → Channel → Prop := Relation.ReflTransGen (Change P takes reveals)

/-- The revocations of the peer that a channel accepts meet a condition. -/
def Reveals (P : Primitives) (reveals : Revoke → Prop) (ch : Channel) (revoke : Revoke) : Prop :=
  (receiveRevoke P ch revoke).isOk = true → reveals revoke

/-- What a step accepts from the peer, and what it proposes, meets the conditions. -/
def Supplies (P : Primitives) (takes : State → Prop) (reveals : Revoke → Prop) : EventCondition :=
  fun rc event =>
    match event with
    | .message _ fields =>
      (fields.getD 0 [] = ascii "UPD" → ∀ next, decodeState (fields.getD 2 []) = some next →
        (receiveCommitSig P { rc.ch with pending := none } next (fields.getD 3 [])).isOk = true →
          takes next) ∧
      (fields.getD 0 [] = ascii "REV" → ∀ revoke, revokeOf fields = some revoke →
        Reveals P reveals rc.ch revoke)
    | .propose _ answers next =>
      ((validateNext rc.ch next).isOk = true →
        ∀ found, decodeState (encodeState next) = some found → takes found) ∧
      ∀ revoke, answers.revocation = .ok revoke → Reveals P reveals rc.ch revoke
    | .drive answers => ∀ revoke, answers.revocation = .ok revoke → Reveals P reveals rc.ch revoke
    | .probe _ => True
    | .rollback => True
    | .force => True

/-- The state in the outbox meets a condition. -/
def Outbox (takes : State → Prop) (rc : RemoteChannel) : Prop :=
  ∀ state, decodeState rc.outState = some state → takes state

section Steps

variable {P : Primitives} {takes : State → Prop} {reveals : Revoke → Prop}

variable {ch : Channel}

theorem Change.changes {after : Channel} (change : Change P takes reveals ch after) :
    Changes P takes reveals ch after := .single change

theorem Reveals.same {ch' : Channel} {revoke : Revoke} (revealed : Reveals P reveals ch revoke)
    (hashes : ch'.remoteHashes = ch.remoteHashes) : Reveals P reveals ch' revoke := by
  intro accepted
  rw [receiveRevoke_isOk ch' ch revoke hashes] at accepted
  exact revealed accepted

theorem outbox_nil (takes : State → Prop) (rc : RemoteChannel) (empty : rc.outState = []) :
    Outbox takes rc := by
  intro state read
  rw [empty] at read
  exact absurd read (by simp [decodeState, splitAll])

theorem changes_abandon (rc : RemoteChannel) (outbox : Outbox takes rc) :
    Changes P takes reveals rc.ch (rchanAbandonOut rc).ch ∧ Outbox takes (rchanAbandonOut rc) := by
  unfold rchanAbandonOut
  split
  · exact ⟨.refl, outbox⟩
  · refine ⟨?_, outbox_nil takes _ rfl⟩
    cases read : decodeState rc.outState with
    | none =>
      rw [Option.toList_none, List.append_nil]
    | some state => exact (Change.abandons state (outbox state read) rfl).changes

/-- Whether a signature is accepted depends neither on what was rolled back nor on the pending
signature. -/
theorem receiveCommitSig_without (ch after : Channel) (abandoned : List State)
    (sigPending : Option Bytes) (next : State) (sig : Bytes)
    (received : receiveCommitSig P
      { ch with abandoned := abandoned, remoteSigPending := sigPending } next sig = .ok after) :
    (receiveCommitSig P ch next sig).isOk = true := by
  simp only [receiveCommitSig, bind_ok, exists_unit, ensure_ok] at received
  obtain ⟨valid, verified, _⟩ := received
  have accepted : ∃ found, receiveCommitSig P ch next sig = .ok found := by
    simp only [receiveCommitSig, bind_ok, exists_unit, ensure_ok]
    cases initial : decide (next.n = 0) && ch.remoteSigCur.isEmpty with
    | true => exact ⟨_, by simp, verified, rfl⟩
    | false => exact ⟨_, by simpa [initial, validateNext] using valid, verified, rfl⟩
  obtain ⟨found, accepted⟩ := accepted
  rw [accepted]
  rfl

/-! ### The peer's messages -/

theorem changes_acceptUpd (height : UInt64) (saved : Bool) (rc : RemoteChannel) (next : State)
    (sig kind extra : Bytes) (outbox : Outbox takes rc)
    (taken : ∀ after, receiveCommitSig P rc.ch next sig = .ok after → takes next) :
    Changes P takes reveals rc.ch (acceptUpd P height saved rc next sig kind extra).after.ch ∧
      Outbox takes (acceptUpd P height saved rc next sig kind extra).after := by
  unfold acceptUpd
  split
  · exact ⟨.refl, outbox⟩
  · rename_i update _
    cases update
    all_goals
      repeat' split
    all_goals first
      | exact ⟨.refl, outbox⟩
      | exact ⟨(Change.receives next sig (taken _ (by assumption)) (by assumption)).changes, outbox⟩

theorem changes_resolveOut (height : UInt64) (saved : Bool) (rc : RemoteChannel) (next : State)
    (sig kind extra : Bytes) (outbox : Outbox takes rc)
    (taken : ∀ abandoned sigPending, (receiveCommitSig P
      { rc.ch with abandoned := abandoned, remoteSigPending := sigPending } next sig).isOk = true →
        takes next) :
    Changes P takes reveals rc.ch (resolveOut P height saved rc next sig kind extra).after.ch ∧
      Outbox takes (resolveOut P height saved rc next sig kind extra).after := by
  unfold resolveOut
  split
  · exact ⟨.refl, outbox⟩
  · split
    · exact ⟨.refl, outbox⟩
    · rename_i proposing _
      obtain ⟨abandoned, empty⟩ := @changes_abandon P takes reveals rc outbox
      have shape : (rchanAbandonOut rc).ch = { rc.ch with
          abandoned := rc.ch.abandoned ++ (decodeState rc.outState).toList } := by
        rw [rchanAbandonOut, if_neg (not_not.mpr proposing)]
      obtain ⟨changes, after⟩ := @changes_acceptUpd P takes reveals height saved
        (rchanAbandonOut rc) next sig kind extra empty (fun after received => by
          rw [shape] at received
          exact taken _ _ (by rw [received]; rfl))
      exact ⟨abandoned.trans changes, after⟩
  · exact changes_acceptUpd height saved rc next sig kind extra outbox
      (fun after received => taken rc.ch.abandoned rc.ch.remoteSigPending (by rw [received]; rfl))

theorem changes_upd (height : UInt64) (saved : Bool) (rc : RemoteChannel) (fields : List Bytes)
    (outbox : Outbox takes rc)
    (taken : ∀ next, decodeState (fields.getD 2 []) = some next →
      (receiveCommitSig P { rc.ch with pending := none } next (fields.getD 3 [])).isOk = true →
        takes next) :
    Changes P takes reveals rc.ch (handleUpd P height saved rc fields).after.ch ∧
      Outbox takes (handleUpd P height saved rc fields).after := by
  have plain : ∀ next, decodeState (fields.getD 2 []) = some next → ∀ abandoned sigPending,
      (receiveCommitSig P { rc.ch with
        pending := none, abandoned := abandoned, remoteSigPending := sigPending } next
          (fields.getD 3 [])).isOk = true → takes next := by
    intro next read abandoned sigPending accepted
    cases received : receiveCommitSig P { rc.ch with
        pending := none, abandoned := abandoned, remoteSigPending := sigPending } next
          (fields.getD 3 []) with
    | error message =>
      rw [received] at accepted
      exact absurd accepted (by simp [Except.isOk, Except.toBool])
    | ok after =>
      exact taken next read (receiveCommitSig_without { rc.ch with pending := none } after abandoned
        sigPending next _ received)
  unfold handleUpd
  dsimp only
  split
  · exact ⟨.refl, outbox⟩
  rename_i next read
  split
  · exact ⟨.refl, outbox⟩
  split
  · rename_i idle
    refine changes_resolveOut height saved rc next _ _ _ outbox (fun abandoned sigPending accepted => ?_)
    exact plain next read abandoned sigPending (by rw [← idle]; exact accepted)
  split
  · exact ⟨.refl, outbox⟩
  split
  · exact ⟨.refl, outbox⟩
  · have dropped : Changes P takes reveals rc.ch (dropPending rc.ch) := (Change.drops rfl).changes
    obtain ⟨changes, after⟩ := @changes_resolveOut P takes reveals height saved
      { rc with ch := dropPending rc.ch } next (fields.getD 3 [])
      (if fields.length = 6 then fields.getD 4 [] else ascii "PAY")
      (if fields.length = 6 then fields.getD 5 [] else ascii "-") outbox (plain next read)
    exact ⟨dropped.trans changes, after⟩

theorem changes_rev (saved : Bool) (fault : RevFault) (rc : RemoteChannel) (fields : List Bytes)
    (outbox : Outbox takes rc)
    (revealed : ∀ revoke, revokeOf fields = some revoke → Reveals P reveals rc.ch revoke) :
    Changes P takes reveals rc.ch (handleRev P saved fault rc fields).after.ch ∧
      Outbox takes (handleRev P saved fault rc fields).after := by
  unfold handleRev
  split
  · exact ⟨.refl, outbox⟩
  rename_i revoke read
  split
  · split
    · exact ⟨.refl, outbox⟩
    · exact ⟨.refl, outbox⟩
  split
  · exact ⟨.refl, outbox⟩
  split
  · exact ⟨.refl, outbox⟩
  · rename_i pending flight _ _ ch received
    have revoked : Change P takes reveals rc.ch ch :=
      .revokes revoke (revealed revoke read (by rw [received]; rfl)) received
    have same : ch.pending = some pending := by
      obtain ⟨_, _, rfl⟩ := (receiveRevoke_ok rc.ch ch _).mp received
      exact flight
    have whole : Changes P takes reveals rc.ch (revokeAndAdvance P ch pending).2 :=
      revoked.changes.tail (.advances pending same rfl)
    dsimp only
    repeat' split
    all_goals exact ⟨whole, outbox⟩

theorem changes_message (env : Circumstances) (rc : RemoteChannel) (fields : List Bytes)
    (outbox : Outbox takes rc) (supplies : Supplies P takes reveals rc (.message env fields)) :
    Changes P takes reveals rc.ch (handleChannelMessage P env rc fields).after.ch ∧
      Outbox takes (handleChannelMessage P env rc fields).after := by
  unfold handleChannelMessage
  dsimp only
  split
  · exact ⟨.refl, outbox⟩
  split
  · exact ⟨.refl, outbox⟩
  split
  · rename_i update
    exact changes_upd env.height env.saved rc fields outbox (supplies.1 update)
  split
  · rename_i revocation
    exact changes_rev env.saved env.fault rc fields outbox (supplies.2 revocation)
  split
  · unfold handleAbort
    dsimp only
    repeat' split
    all_goals first
      | exact ⟨.refl, outbox⟩
      | exact ⟨(Change.drops rfl).changes, outbox⟩
  split
  · unfold handleClose
    split
    · exact ⟨.refl, outbox⟩
    · exact ⟨.refl, outbox⟩
  · exact ⟨.refl, outbox⟩

/-! ### Our own proposals -/

theorem changes_driveRev (answers : Answers) (rc : RemoteChannel) (outbox : Outbox takes rc)
    (revealed : ∀ revoke, answers.revocation = .ok revoke → Reveals P reveals rc.ch revoke) :
    Changes P takes reveals rc.ch (driveRev P answers rc).after.ch ∧
      Outbox takes (driveRev P answers rc).after := by
  unfold driveRev
  dsimp only
  split
  · exact ⟨.refl, outbox⟩
  split
  · exact ⟨.refl, outbox⟩
  · rename_i revoke answered _ ch received
    have accepted := revealed revoke answered (by rw [received]; rfl)
    exact ⟨(Change.revokes revoke accepted received).changes, outbox_nil takes _ rfl⟩

theorem changes_driveAdvance (answers : Answers) (released : List Released) (rc : RemoteChannel)
    (pending : State) (flight : rc.ch.pending = some pending) (outbox : Outbox takes rc)
    (revealed : ∀ revoke, answers.revocation = .ok revoke → Reveals P reveals rc.ch revoke) :
    Changes P takes reveals rc.ch (driveAdvance P answers released rc pending).after.ch ∧
      Outbox takes (driveAdvance P answers released rc pending).after := by
  have advanced : Changes P takes reveals rc.ch (revokeAndAdvance P rc.ch pending).2 :=
    (Change.advances pending flight rfl).changes
  unfold driveAdvance
  dsimp only
  split
  · exact ⟨advanced, outbox⟩
  · obtain ⟨changes, after⟩ := @changes_driveRev P takes reveals answers
      { rc with ch := (revokeAndAdvance P rc.ch pending).2, outPhase := .rev } outbox
      (fun revoke answered => (revealed revoke answered).same rfl)
    exact ⟨advanced.trans changes, after⟩

theorem changes_driveUpd (answers : Answers) (rc : RemoteChannel) (next : State)
    (opened : rc.ch.remoteSigCur ≠ []) (taken : takes next) (outbox : Outbox takes rc)
    (revealed : ∀ revoke, answers.revocation = .ok revoke → Reveals P reveals rc.ch revoke) :
    Changes P takes reveals rc.ch (driveUpd P answers rc next).after.ch ∧
      Outbox takes (driveUpd P answers rc next).after := by
  unfold driveUpd
  dsimp only
  split
  · split
    · exact changes_abandon rc outbox
    · exact ⟨.refl, outbox⟩
  split
  · exact ⟨.refl, outbox⟩
  split
  · exact ⟨.refl, outbox⟩
  · rename_i body _ _ ch received
    obtain ⟨_, _, _, shape⟩ := receiveCommitSig_later rc.ch ch next _ opened received
    have flight : ch.pending = some next := by rw [shape]
    have hashes : ch.remoteHashes = rc.ch.remoteHashes := by rw [shape]
    obtain ⟨changes, after⟩ := @changes_driveAdvance P takes reveals
      answers [signed rc.ch next] { rc with ch := ch } next flight outbox
      (fun revoke answered => (revealed revoke answered).same hashes)
    have entered : Changes P takes reveals rc.ch ch := (Change.receives next _ taken received).changes
    exact ⟨entered.trans changes, after⟩

theorem changes_drive (answers : Answers) (rc : RemoteChannel) (opened : rc.ch.remoteSigCur ≠ [])
    (outbox : Outbox takes rc)
    (revealed : ∀ revoke, answers.revocation = .ok revoke → Reveals P reveals rc.ch revoke) :
    Changes P takes reveals rc.ch (rchanDrive P answers rc).after.ch ∧
      Outbox takes (rchanDrive P answers rc).after := by
  unfold rchanDrive
  split
  · exact ⟨.refl, outbox⟩
  rename_i next read
  split
  · exact ⟨.refl, outbox⟩
  · exact changes_driveRev answers rc outbox revealed
  split
  · exact changes_abandon rc outbox
  split
  · exact changes_driveUpd answers rc next opened (outbox next read) outbox revealed
  · rename_i pending flight
    split
    · exact changes_driveAdvance answers [] rc pending flight outbox revealed
    split
    · exact changes_abandon rc outbox
    · have dropped : Changes P takes reveals rc.ch (dropPending rc.ch) := (Change.drops rfl).changes
      obtain ⟨changes, after⟩ := @changes_driveUpd P takes reveals answers
        { rc with ch := dropPending rc.ch } next opened (outbox next read) outbox
        (fun revoke answered => (revealed revoke answered).same rfl)
      exact ⟨dropped.trans changes, after⟩

theorem changes_propose (saved : Bool) (answers : Answers) (rc : RemoteChannel) (next : State)
    (opened : rc.ch.remoteSigCur ≠ []) (outbox : Outbox takes rc)
    (supplies : Supplies P takes reveals rc (.propose saved answers next)) :
    Changes P takes reveals rc.ch (rchanPropose P saved answers rc next).after.ch ∧
      Outbox takes (rchanPropose P saved answers rc next).after := by
  obtain ⟨taken, revealed⟩ := supplies
  unfold rchanPropose
  split
  · exact ⟨.refl, outbox⟩
  split
  · exact ⟨.refl, outbox⟩
  · rename_i valid
    have proposed : ∀ state, decodeState (encodeState next) = some state → takes state :=
      taken (by rw [valid]; rfl)
    dsimp only
    split
    · exact ⟨.refl, proposed⟩
    · exact changes_drive answers { rc with outPhase := .upd, outState := encodeState next } opened
        proposed revealed

/-! ### Every step -/

theorem step_changes (rc : RemoteChannel) (event : Event) (opened : rc.ch.remoteSigCur ≠ [])
    (outbox : Outbox takes rc) (supplies : Supplies P takes reveals rc event) :
    Changes P takes reveals rc.ch (step P rc event).2.ch ∧ Outbox takes (step P rc event).2 := by
  cases event with
  | message env fields => exact changes_message env rc fields outbox supplies
  | propose saved answers next => exact changes_propose saved answers rc next opened outbox supplies
  | drive answers => exact changes_drive answers rc opened outbox supplies
  | probe answer =>
    show Changes P takes reveals rc.ch (rchanProbe answer rc).ch ∧ Outbox takes (rchanProbe answer rc)
    unfold rchanProbe
    repeat' split
    all_goals first
      | exact ⟨.refl, outbox⟩
      | exact ⟨(Change.drops rfl).changes, outbox⟩
  | rollback =>
    show Changes P takes reveals rc.ch (rchanRollback rc).ch ∧ Outbox takes (rchanRollback rc)
    obtain ⟨abandoned, after⟩ := @changes_abandon P takes reveals rc outbox
    unfold rchanRollback
    split
    · exact ⟨.refl, outbox⟩
    · dsimp only
      split
      · exact ⟨abandoned.tail (.drops rfl), after⟩
      · exact ⟨abandoned, after⟩
  | force =>
    show Changes P takes reveals rc.ch (rchanForce rc).ch ∧ Outbox takes (rchanForce rc)
    unfold rchanForce
    split
    · exact ⟨.refl, outbox⟩
    · exact ⟨.refl, outbox⟩

end Steps

/-! ### What enters is kept -/

/-- What holds of every state of a channel and of every text of the peer in it. -/
structure Carries (takes : State → Prop) (ch : Channel) : Prop where
  states : ∀ state, Accepted ch state → takes state
  numbers : ∀ n state, ch.history.lookup n = some state → n = state.n

section Kept

variable {P : Primitives} {takes : State → Prop} {reveals : Revoke → Prop}

theorem Change.carries {ch after : Channel} (change : Change P takes reveals ch after)
    (carries : Carries takes ch) : Carries takes after := by
  have cur := carries.states ch.cur (.inl rfl)
  have pending : ∀ state, ch.pending = some state → takes state :=
    fun state flight => carries.states state (.inr (.inl flight))
  have history : ∀ n state, ch.history.lookup n = some state → takes state :=
    fun n state found => carries.states state (.inr (.inr (.inl ⟨n, found⟩)))
  have abandoned : ∀ state ∈ ch.abandoned, takes state :=
    fun state gone => carries.states state (.inr (.inr (.inr gone)))
  cases change with
  | receives next sig taken received =>
    simp only [receiveCommitSig, bind_ok, exists_unit, ensure_ok] at received
    obtain ⟨_, _, received⟩ := received
    split at received
    · rw [← Except.ok.inj received]
      refine ⟨?_, carries.numbers⟩
      rintro state (rfl | flight | ⟨n, found⟩ | gone)
      · exact taken
      · exact pending state flight
      · exact history n state found
      · exact abandoned state gone
    · rw [← Except.ok.inj received]
      refine ⟨?_, carries.numbers⟩
      rintro state (rfl | flight | ⟨n, found⟩ | gone)
      · exact cur
      · exact Option.some.inj flight ▸ taken
      · exact history n state found
      · exact abandoned state gone
  | drops dropped =>
    subst dropped
    refine ⟨?_, carries.numbers⟩
    rintro state (rfl | flight | ⟨n, found⟩ | gone)
    · exact cur
    · exact absurd flight (by simp [dropPending])
    · exact history n state found
    · rcases List.mem_append.mp gone with before | now
      · exact abandoned state before
      · exact pending state (Option.mem_toList.mp now)
  | advances flying flight advanced =>
    subst advanced
    refine ⟨?_, insert_all carries.numbers ch.cur.n ch.cur rfl⟩
    rintro state (rfl | other | ⟨n, found⟩ | gone)
    · exact pending _ flight
    · exact absurd other (by simp [revokeAndAdvance])
    · exact insert_all history ch.cur.n ch.cur cur n state found
    · exact abandoned state gone
  | abandons noted taken shape =>
    subst shape
    refine ⟨?_, carries.numbers⟩
    rintro state (rfl | flight | ⟨n, found⟩ | gone)
    · exact cur
    · exact pending state flight
    · exact history n state found
    · rcases List.mem_append.mp gone with before | now
      · exact abandoned state before
      · exact List.mem_singleton.mp now ▸ taken
  | revokes revoke _ received =>
    obtain ⟨_, _, rfl⟩ := (receiveRevoke_ok ch after revoke).mp received
    refine ⟨?_, carries.numbers⟩
    rintro state (rfl | flight | ⟨n, found⟩ | gone)
    · exact cur
    · exact pending state flight
    · exact history n state found
    · exact abandoned state gone

end Kept

/-! ### Texts -/

/-- A revocation whose texts have no white space. Its numbers are words. -/
structure PlainRevoke (revoke : Revoke) : Prop where
  small : revoke.revokedN + 2 < 2 ^ 64
  secret : Spaceless revoke.secret
  nextHash : Spaceless revoke.nextHash

/-- The texts of a channel besides its states. -/
structure PlainTexts (ch : Channel) : Prop where
  own : ch.keys.address = if ch.isA then ch.info.addrA else ch.info.addrB
  addrA : Spaceless ch.info.addrA ∧ ch.info.addrA ≠ []
  addrB : Spaceless ch.info.addrB ∧ ch.info.addrB ≠ []
  funding : Spaceless ch.info.fundingTxid ∧ ch.info.fundingTxid ≠ ascii "-"
  remotePub : Spaceless ch.remotePub ∧ ch.remotePub ≠ []
  seed : Spaceless ch.seed ∧ ch.seed ≠ []
  sigCur : Spaceless ch.remoteSigCur ∧ ch.remoteSigCur ≠ ascii "-"
  sigPending : ∀ sig, ch.remoteSigPending = some sig → Spaceless sig ∧ sig ≠ ascii "-"
  hashes : ∀ n hash, ch.remoteHashes.lookup n = some hash → n < 2 ^ 64 ∧ Spaceless hash
  secrets : ∀ n secret, ch.remoteSecrets.lookup n = some secret → n < 2 ^ 64 ∧ Spaceless secret

theorem hex_spaceless {text : Bytes} (hex : ∀ digit ∈ text, isHex digit = true) : Spaceless text :=
  fun digit member => not_isSpace_of_isHex digit (hex digit member)

variable {P : Primitives} {ch : Channel}

/-- A signature that verifies and its key have no white space. -/
theorem verified_plain {publicKey message sig : Bytes}
    (verified : verifyMessageSignatureHybridUncached P publicKey message sig = true) :
    (Spaceless sig ∧ sig ≠ ascii "-") ∧ Spaceless publicKey ∧ publicKey ≠ [] := by
  obtain ⟨digits, rfl, hex⟩ := verifyMessageSignatureHybridUncached_shape P _ _ _ verified
  refine ⟨⟨Spaceless.append (spaceless_of_all (by decide)) (hex_spaceless hex), ?_⟩, ?_⟩
  · intro dash
    have width := congrArg List.length dash
    simp [pqPrefix, ascii] at width
  · simp only [verifyMessageSignatureHybridUncached] at verified
    split at verified
    · simp at verified
    split at verified
    · simp at verified
    split at verified
    · simp at verified
    · split at verified
      · rename_i checked
        simp only [Bool.and_eq_true, isOk_iff, isHexStrict_ok] at checked
        obtain ⟨⟨⟨filled, _, _, keyHex⟩, _⟩, _⟩ := checked
        exact ⟨hex_spaceless keyHex, filled⟩
      · simp at verified

theorem Change.texts {takes : State → Prop} {after : Channel}
    (change : Change P takes PlainRevoke ch after) (texts : PlainTexts ch) : PlainTexts after := by
  cases change with
  | receives next sig taken received =>
    simp only [receiveCommitSig, bind_ok, exists_unit, ensure_ok] at received
    obtain ⟨_, verified, received⟩ := received
    have plain := (verified_plain verified).1
    split at received
    · rw [← Except.ok.inj received]
      exact { texts with sigCur := plain }
    · rw [← Except.ok.inj received]
      exact { texts with sigPending := fun other same => Option.some.inj same ▸ plain }
  | drops dropped =>
    subst dropped
    exact { texts with sigPending := by simp [dropPending] }
  | advances flying flight advanced =>
    subst advanced
    refine { texts with sigCur := ?_, sigPending := by simp [revokeAndAdvance] }
    show Spaceless (ch.remoteSigPending.getD []) ∧ ch.remoteSigPending.getD [] ≠ ascii "-"
    cases held : ch.remoteSigPending with
    | none => exact ⟨spaceless_nil, by decide⟩
    | some sig => exact texts.sigPending sig held
  | abandons state taken noted =>
    subst noted
    exact { texts with }
  | revokes revoke revealed received =>
    obtain ⟨_, _, rfl⟩ := (receiveRevoke_ok ch after revoke).mp received
    have small := revealed.small
    exact { texts with
      hashes := insert_all texts.hashes _ _ ⟨small, revealed.nextHash⟩
      secrets := insert_all texts.secrets _ _ ⟨by omega, revealed.secret⟩ }

theorem PlainTexts.storable (texts : PlainTexts ch) (carries : Carries StoredState ch) :
    Storable ch := by
  have stored : ∀ state, Accepted ch state → state.n < 2 ^ 64 ∧ StoredState state :=
    fun state accepted =>
      ⟨(carries.states state accepted).readable.small, carries.states state accepted⟩
  refine ⟨⟨texts.addrA.1, texts.addrB.1, texts.funding, texts.remotePub.1, texts.seed.1, ?_, ?_,
    texts.sigCur, fun sig held => (texts.sigPending sig held).1, texts.hashes, texts.secrets, ?_, ?_⟩,
    ⟨texts.remotePub.2, texts.seed.2, texts.addrA.2, texts.addrB.2⟩, texts.own⟩
  · exact (stored ch.cur (.inl rfl)).2
  · exact fun state flight => (stored state (.inr (.inl flight))).2
  · intro n state found
    obtain ⟨small, plain⟩ := stored state (.inr (.inr (.inl ⟨n, found⟩)))
    rw [carries.numbers n state found]
    exact ⟨small, plain⟩
  · intro entry member
    obtain ⟨state, gone, rfl⟩ := List.mem_map.mp member
    exact stored state (.inr (.inr (.inr gone)))

/-! ### Runs -/

/-- The channels of the runs in which the peer sends no white space: neither in its address, its
first hashes and the funding transaction, nor in the payment hashes of its updates and in its
revocations. -/
inductive PlainRun (P : Primitives) : RemoteChannel → Prop
  | opened (keys : WalletKeys) (remotePub : Bytes) (isA : Bool) (info : Info) (seed h0 h1 : Bytes)
      (initial : State) (sig : Bytes) (ch : Channel) (first : initial.n = 0)
      (noHtlcs : initial.htlcs = [])
      (own : keys.address = if isA then info.addrA else info.addrB)
      (addrA : Spaceless info.addrA ∧ info.addrA ≠ []) (addrB : Spaceless info.addrB ∧ info.addrB ≠ [])
      (funding : Spaceless info.fundingTxid ∧ info.fundingTxid ≠ ascii "-")
      (seedPlain : Spaceless seed ∧ seed ≠ []) (hashes : Spaceless h0 ∧ Spaceless h1)
      (received : receiveCommitSig P (openingChannel keys remotePub isA info seed h0 h1) initial sig =
        .ok ch) : PlainRun P ⟨.opened, ch, .idle, []⟩
  | next (rc : RemoteChannel) (event : Event) (before : PlainRun P rc)
      (plain : Supplies P StoredState PlainRevoke rc event) : PlainRun P (step P rc event).2

section Runs

variable {P : Primitives} {takes : State → Prop} {reveals : Revoke → Prop}

variable {after : Channel} {h0 h1 : Bytes} {info : Info} {initial : State} {isA : Bool}
  {keys : WalletKeys} {remotePub seed : Bytes} {rc : RemoteChannel}

theorem Changes.carries (changes : Changes P takes reveals ch after)
    (carries : Carries takes ch) : Carries takes after := by
  induction changes with
  | refl => exact carries
  | tail _ change ih => exact change.carries ih

theorem Changes.texts (changes : Changes P takes PlainRevoke ch after)
    (texts : PlainTexts ch) : PlainTexts after := by
  induction changes with
  | refl => exact texts
  | tail _ change ih => exact change.texts ih

theorem opened_carries (sig : Bytes) (taken : takes initial) :
    Carries takes { openingChannel keys remotePub isA info seed h0 h1 with
      cur := initial, remoteSigCur := sig } := by
  refine ⟨?_, by simp [openingChannel]⟩
  rintro state (rfl | flight | ⟨n, found⟩ | gone)
  · exact taken
  · exact absurd flight (by simp [openingChannel])
  · exact absurd found (by simp [openingChannel])
  · exact absurd gone (by simp [openingChannel])

/-- Every step keeps the first signature. -/
theorem step_opened (rc : RemoteChannel) (event : Event) (opened : rc.ch.remoteSigCur ≠ [] ∧
    (rc.ch.pending ≠ none → rc.ch.remoteSigPending.getD [] ≠ [])) :
    (step P rc event).2.ch.remoteSigCur ≠ [] ∧ ((step P rc event).2.ch.pending ≠ none →
      (step P rc event).2.ch.remoteSigPending.getD [] ≠ []) := by
  have holds : Holds (fun _ _ => True) rc.ch :=
    ⟨trivial, fun _ _ => trivial, opened.1, opened.2⟩
  have after := (step_moves (P := P) rc event).holds (fun _ _ _ => trivial) holds
  exact ⟨after.opened, after.countersigned⟩

/-- The endpoint of a run has taken the first signature. -/
theorem first_opened {sig : Bytes} (some : sig ≠ []) :
    ({ openingChannel keys remotePub isA info seed h0 h1 with
      cur := initial, remoteSigCur := sig } : Channel).remoteSigCur ≠ [] ∧
    (({ openingChannel keys remotePub isA info seed h0 h1 with
      cur := initial, remoteSigCur := sig } : Channel).pending ≠ none →
        (none : Option Bytes).getD [] ≠ []) :=
  ⟨some, by simp [openingChannel]⟩

/-- What a run of plain messages keeps in the file. -/
theorem PlainRun.invariant (run : PlainRun P rc) :
    (PlainTexts rc.ch ∧ Carries StoredState rc.ch) ∧ Outbox StoredState rc ∧
      rc.ch.remoteSigCur ≠ [] ∧
        (rc.ch.pending ≠ none → rc.ch.remoteSigPending.getD [] ≠ []) := by
  induction run with
  | opened keys remotePub isA info seed h0 h1 initial sig ch first noHtlcs own addrA addrB funding
      seedPlain hashes received =>
    obtain ⟨verified, rfl⟩ := (receiveCommitSig_first keys remotePub isA info seed h0 h1 initial sig ch
      first).mp received
    obtain ⟨signature, key⟩ := verified_plain verified
    have stored : StoredState initial :=
      ⟨⟨by omega, by simp [noHtlcs]⟩, by simp [noHtlcs]⟩
    refine ⟨⟨⟨own, addrA, addrB, funding, key, seedPlain, signature, by simp [openingChannel], ?_,
      by simp [openingChannel]⟩, opened_carries sig stored⟩, outbox_nil _ _ rfl,
      first_opened (signature_ne_nil verified)⟩
    have start : ∀ n hash, (∅ : Table Nat Bytes).lookup n = some hash →
        n < 2 ^ 64 ∧ Spaceless hash := by simp
    exact insert_all (insert_all start 0 h0 ⟨by omega, hashes.1⟩) 1 h1 ⟨by omega, hashes.2⟩
  | next rc event before plain ih =>
    obtain ⟨⟨texts, carries⟩, outbox, opened⟩ := ih
    obtain ⟨changes, after⟩ := step_changes rc event opened.1 outbox plain
    exact ⟨⟨changes.texts texts, changes.carries carries⟩, after, step_opened rc event opened⟩

/-- Whatever the peer sends, the states of a channel are readable. -/
theorem Run.readable {condition : EventCondition} {log : List Released}
    (run : Run P condition rc log) :
    Carries Readable rc.ch ∧ rc.ch.remoteSigCur ≠ [] ∧
      (rc.ch.pending ≠ none → rc.ch.remoteSigPending.getD [] ≠ []) := by
  induction run with
  | opened keys remotePub isA info seed h0 h1 initial sig ch first noHtlcs own received =>
    obtain ⟨verified, rfl⟩ := (receiveCommitSig_first keys remotePub isA info seed h0 h1 initial sig ch
      first).mp received
    exact ⟨opened_carries sig ⟨by omega, by simp [noHtlcs]⟩, first_opened (signature_ne_nil verified)⟩
  | next rc log event before _ ih =>
    obtain ⟨carries, opened⟩ := ih
    have supplies : Supplies P Readable (fun _ => True) rc event := by
      cases event with
      | message env fields =>
        exact ⟨fun _ next read _ => decodeState_readable _ next read, fun _ _ _ _ => trivial⟩
      | propose saved answers next =>
        exact ⟨fun _ found read => decodeState_readable _ found read, fun _ _ _ => trivial⟩
      | drive answers => exact fun _ _ _ => trivial
      | probe answer => trivial
      | rollback => trivial
      | force => trivial
    have changes := (step_changes rc event opened.1 (decodeState_readable _) supplies).1
    exact ⟨changes.carries carries, step_opened rc event opened⟩

end Runs

/-- A channel comes back from its file exactly when its texts have no white space and are filled.
So does every channel of a run in which the peer sends no white space; and in every run each
accepted state comes back from its text. -/
theorem files_exact (P : Primitives) :
    (∀ ch, RoundTrips ch ↔ Storable ch) ∧
    (∀ rc, PlainRun P rc → RoundTrips rc.ch) ∧
    ∀ rc log, Run P (fun _ _ => True) rc log → ∀ state, Accepted rc.ch state →
      decodeState (encodeState state) = some state := by
  refine ⟨roundTrips_iff, fun rc run => ?_, fun rc log run state accepted => ?_⟩
  · obtain ⟨⟨texts, carries⟩, _⟩ := run.invariant
    exact storable_roundTrips rc.ch (texts.storable carries)
  · exact decodeState_encodeState state (run.readable.1.states state accepted)

variable {rc : RemoteChannel} {env : Circumstances} {state : State}

/-- A run goes on as long as what the peer sends has no white space. -/
theorem PlainRun.play (run : PlainRun P rc) (events : List Event)
    (plain : MeetAll P (Supplies P StoredState PlainRevoke) rc events) :
    PlainRun P (Channels.play P rc events).2 := by
  induction events generalizing rc with
  | nil => exact run
  | cons event rest ih =>
    exact ih (run.next rc event plain.1) plain.2

/-- An update of the peer to a state that can be stored. -/
theorem supplies_update {id : Bytes} {rest : List Bytes} (stored : StoredState state) :
    Supplies P StoredState PlainRevoke rc (.message env (ascii "UPD" :: id :: encodeState state :: rest)) := by
  have kinds : ascii "UPD" ≠ ascii "REV" := by decide
  refine ⟨fun _ next read _ => ?_, fun other => absurd other kinds⟩
  rw [show (ascii "UPD" :: id :: encodeState state :: rest).getD 2 [] = encodeState state from rfl,
    decodeState_encodeState state stored.readable] at read
  exact Option.some.inj read ▸ stored

/-- A revocation of the peer without white space. -/
theorem supplies_revocation {fields : List Bytes}
    {revoke : Revoke} (kind : fields.getD 0 [] = ascii "REV") (read : revokeOf fields = some revoke)
    (plain : PlainRevoke revoke) : Supplies P StoredState PlainRevoke rc (.message env fields) := by
  refine ⟨fun other => absurd (kind.symm.trans other) (by decide), fun _ found same _ => ?_⟩
  rw [read] at same
  exact Option.some.inj same ▸ plain

/-- The spaceless texts of the sample run. -/
def sampleTexts : List Bytes :=
  [sampleAddress 7, sampleAddress 9, ascii "funding", ascii "seed", peerHash 0, peerHash 1, peerHash 2,
    peerHash 11, peerSecret 0]

set_option maxRecDepth 100000 in
theorem sampleTexts_evaluated :
    sampleTexts.all (fun text => text.all (fun octet => !isSpace octet)) = true ∧
      (byte ':' ∉ peerHash 11 ∧ byte ';' ∉ peerHash 11 ∧ byte ',' ∉ peerHash 11) ∧
      (sampleAddress 7).isEmpty = false ∧ (sampleAddress 9).isEmpty = false ∧
      revokeOf [ascii "REV", ascii "id", decimal 0, peerSecret 0, peerHash 2] =
        some ⟨0, peerSecret 0, peerHash 2⟩ := by
  decide +kernel

theorem sampleTexts_spaceless {text : Bytes} (listed : text ∈ sampleTexts) : Spaceless text := by
  intro octet member
  have plain := List.all_eq_true.mp (List.all_eq_true.mp sampleTexts_evaluated.1 text listed) octet member
  simpa using plain

/-- The states that the peer offers can be stored. -/
theorem sampleOffer_stored (small : state.n < 2 ^ 64)
    (hashes : ∀ htlc ∈ state.htlcs, htlc.paymentHash = peerHash 11) : StoredState state := by
  obtain ⟨-, ⟨colon, semicolon, comma⟩, -⟩ := sampleTexts_evaluated
  refine ⟨⟨small, fun htlc listed => ?_⟩, fun htlc listed => ?_⟩
  · rw [hashes htlc listed]
    exact ⟨colon, semicolon, comma⟩
  · rw [hashes htlc listed]
    exact sampleTexts_spaceless (by simp [sampleTexts])

theorem offered_stored : StoredState (offered (peerHash 11)) := by
  refine sampleOffer_stored (Nat.one_lt_two_pow (by decide)) fun htlc listed => ?_
  obtain rfl := List.mem_singleton.mp listed
  rfl

theorem offeredMore_stored (amount : UInt64) : StoredState (offeredMore amount) := by
  refine sampleOffer_stored (show 2 < 2 ^ 64 by decide) fun htlc listed => ?_
  rcases List.mem_cons.mp listed with rfl | listed
  · rfl
  · obtain rfl := List.mem_singleton.mp listed
    rfl

theorem fundedChannel_plain : PlainRun signingPrimitives ⟨.opened, fundedChannel, .idle, []⟩ := by
  obtain ⟨-, -, some, some', -⟩ := sampleTexts_evaluated
  have spaceless : ∀ text ∈ sampleTexts, Spaceless text := fun text listed => sampleTexts_spaceless listed
  refine PlainRun.opened sampleKeys (toHex [9]) true fundedInfo (ascii "seed") (peerHash 0) (peerHash 1)
    ⟨0, 60, 40, [], 0⟩ (peerSigns ⟨0, 60, 40, [], 0⟩) fundedChannel rfl rfl rfl
    ⟨spaceless _ (by simp [sampleTexts, fundedInfo]), ?_⟩
    ⟨spaceless _ (by simp [sampleTexts, fundedInfo]), ?_⟩
    ⟨spaceless _ (by simp [sampleTexts, fundedInfo]), by decide⟩
    ⟨spaceless _ (by simp [sampleTexts]), by decide⟩
    ⟨spaceless _ (by simp [sampleTexts]), spaceless _ (by simp [sampleTexts])⟩ ?_
  · exact fun none => absurd (List.isEmpty_iff.mpr none) (by simp [some, fundedInfo])
  · exact fun none => absurd (List.isEmpty_iff.mpr none) (by simp [some', fundedInfo])
  · exact (receiveCommitSig_first sampleKeys (toHex [9]) true fundedInfo (ascii "seed") (peerHash 0)
      (peerHash 1) ⟨0, 60, 40, [], 0⟩ (peerSigns ⟨0, 60, 40, [], 0⟩) fundedChannel rfl).mpr
      ⟨sampleSignature_verifies 9 _, rfl⟩

/-- A channel with an HTLC, a revealed secret, a state in flight and one that was rolled back comes
back. -/
theorem opened_channel_restored :
    (readableChannel.cur = offered (peerHash 11) ∧ readableChannel.pending = some (offeredMore 5) ∧
      readableChannel.history.keys = [0] ∧ readableChannel.remoteSecrets.keys = [0] ∧
      readableChannel.abandoned = [offeredMore 10]) ∧ RoundTrips readableChannel := by
  obtain ⟨_, runs, _⟩ := files_exact signingPrimitives
  have spaceless : ∀ text ∈ sampleTexts, Spaceless text := fun text listed => sampleTexts_spaceless listed
  have revocation : PlainRevoke ⟨0, peerSecret 0, peerHash 2⟩ :=
    ⟨show 0 + 2 < 2 ^ 64 by decide, spaceless _ (by simp [sampleTexts]), spaceless _ (by simp [sampleTexts])⟩
  have abort : ∀ rc : RemoteChannel, Supplies signingPrimitives StoredState PlainRevoke rc
      (sampleMessage [ascii "ABORT", ascii "id", decimal 2]) :=
    fun rc => ⟨fun other => absurd other (by decide), fun other => absurd other (by decide)⟩
  refine ⟨readableChannel_evaluated.1, runs readableEndpoint (fundedChannel_plain.play readableRun ?_)⟩
  exact ⟨supplies_update offered_stored,
    supplies_revocation rfl sampleTexts_evaluated.2.2.2.2 revocation, supplies_update (offeredMore_stored 10),
    abort _, supplies_update (offeredMore_stored 5), trivial⟩

/-- A revocation hash of 127 zeros and a space. -/
def spacedHash : Bytes := List.replicate 127 (byte '0') ++ [byte ' ']

/-- The peer pays ten and revokes its state with the spaced hash for the next one. -/
def spacedRevocation : List Event :=
  [peerUpdates (sampleState 1 50), peerRevokes 0 (peerSecret 0) spacedHash]

set_option maxRecDepth 100000 in
/-- Only the length of the next hash is checked, and the channel does not come back. -/
theorem spaced_hash_lost :
    ∃ rc log, Run signingPrimitives (fun _ _ => True) rc log ∧ ¬RoundTrips rc.ch := by
  refine ⟨_, _, (sampleOpened_run _).play spacedRevocation ⟨trivial, trivial, trivial⟩, ?_⟩
  set ch := (play signingPrimitives sampleOpened spacedRevocation).2.ch with shape
  have stored : ch.remoteHashes.lookup 2 = some spacedHash := by
    rw [shape]
    decide +kernel
  intro roundTrips
  obtain ⟨draft, read, restores⟩ := roundTrips _ ch.ownOrder_of ⟨false, 0⟩
  have storable := restored_storable ch _ _ draft read restores
  have plain := (storable.plain.remoteHashes 2 spacedHash stored).2 (byte ' ') (by decide)
  exact absurd plain (by decide)

end Addition.Channels
