import Addition.RatchetDelivery

/-!
# Frames that only the peer can have made

A party opens a frame under a stored key or under a key that comes from the root of the
session, and only when its peer made it. The exception is a session without a receiving chain,
which is the initiator's before the first reply: a frame without a ratchet key is then read
under the key of an empty chain, which everybody can compute.
-/

namespace Addition

namespace PqSession

open ByteStrings Checked FiniteTables KeySchedules

variable {S : Suite}

/-! ### The empty chain -/

/-- The key that a chain without a key gives is derived from no root. -/
theorem emptyKey_ne_secret (ideal : S.Ideal) {start : S.Key}
    (foreign : start ≠ (S.kdfCk none).1) : ¬ Secret start (S.kdfCk none).1 := by
  generalize isKey : (S.kdfCk none).1 = key
  intro secret
  cases secret with
  | start => exact foreign isKey.symm
  | first known => exact absurd (ideal.front_injective isKey).1 (by simp [Suite.hmacKey])
  | root known ss => exact absurd (ideal.front_injective isKey).1 (by simp [Suite.hmacKey])
  | chain known ss => exact ideal.front_ne_back _ _ _ _ isKey
  | message known => exact absurd (ideal.front_injective isKey).1 (by simp [Suite.hmacKey])
  | next known => exact absurd (ideal.front_injective isKey).1 (by simp [Suite.hmacKey])

/-- A frame that anybody can make for a session whose name is known. -/
def forgedFrame (sid iv text : Bytes) : MessageFrame S :=
  let bare : MessageFrame S :=
    ⟨sid, [], [], ascii "-", 0, 0, iv, S.aeadSeal (S.kdfCk none).1 iv [] text⟩
  { bare with ct := S.aeadSeal (S.kdfCk none).1 iv bare.aad text }

/-- A session without a receiving chain opens it. -/
theorem forged_opens (ideal : S.Ideal) {s : Session S} (sid iv text : Bytes) (chain : s.ckr = none)
    (pub : s.peerRk = []) (number : s.nr = 0) (noKeys : s.skipped = ∅) :
    ∃ left, chooseKey s (forgedFrame sid iv text) = .ok ((S.kdfCk none).1, left) ∧
      decryptLocked s (forgedFrame sid iv text) = .ok (text, left) := by
  have absent : s.skipped.lookup (skipName (S := S) (forgedFrame (S := S) sid iv text).rkPub
      (forgedFrame (S := S) sid iv text).n.toUInt32.toNat) = none := by
    rw [noKeys]
    exact AList.lookup_empty _
  have same : chainOf s (forgedFrame sid iv text) = .ok s := by
    unfold chainOf
    rw [pub]
    exact if_neg (not_not.mpr rfl)
  have stays : skipTo s (forgedFrame (S := S) sid iv text).n.toUInt32 = .ok s := by
    unfold skipTo
    rw [chain]
    rfl
  have later : s.nr ≤ (forgedFrame (S := S) sid iv text).n.toUInt32 := by
    rw [number]
    exact UInt32.zero_le
  have chosen := chooseKey_some absent same later stays
  rw [chain] at chosen
  have opened := (ideal.aead_exact (S.kdfCk none).1 iv (forgedFrame (S := S) sid iv text).aad
    (forgedFrame (S := S) sid iv text).ct text).mpr rfl
  exact ⟨_, chosen, decryptLocked_some chosen opened⟩

variable {T : Thread S} {w : World S}

/-- A session that was just started takes the frame of anybody. -/
theorem Started.forged (ideal : S.Ideal) (started : Started T w)
    (iv text : Bytes) : ∃ s left, w.session T .initiator = some s ∧
      T.Built w (forgedFrame T.sid iv text) ∧
      chooseKey s (forgedFrame T.sid iv text) = .ok ((S.kdfCk none).1, left) ∧
      decryptLocked s (forgedFrame T.sid iv text) = .ok (text, left) ∧
      ¬ FromRoot T.start (S.kdfCk none).1 ∧ s.skipped = ∅ ∧
      ∀ sent ∈ w.sent, sent.frame ≠ .message (forgedFrame T.sid iv text) := by
  obtain ⟨former, peer, text', name, iv', now, frame, -, isSid, done, isSent⟩ := started.begun
  obtain ⟨s, session, isStart⟩ := started.start
  obtain ⟨idPk, idSk, mine, ct1, ss1, myPub, mySk, sig, -, -, -, -, -, -, isFrame, isDevice⟩ :=
    startFrame_ok done
  rw [← isSid] at isDevice
  have isSession : s = (firstSession T.sid (S.fingerprint idPk) peer mine ct1 ss1 myPub mySk sig text'
      iv').1 := by
    rw [isDevice] at session
    unfold saveSession at session
    rw [show (firstSession T.sid (S.fingerprint idPk) peer mine ct1 ss1 myPub mySk sig text'
      iv').1.sid = T.sid from rfl, AList.lookup_insert] at session
    exact (Option.some.inj session).symm
  have foreign : T.start ≠ (S.kdfCk none).1 := by
    rw [← isStart, isSession]
    intro same
    exact absurd (ideal.front_injective same).1 (by simp [Suite.hmacKey])
  have unknown := emptyKey_ne_secret ideal foreign
  obtain ⟨left, chosen, opened⟩ := forged_opens ideal (s := s) T.sid iv text (by rw [isSession]; rfl)
    (by rw [isSession]; rfl) (by rw [isSession]; rfl) (by rw [isSession]; rfl)
  refine ⟨s, left, session, fun key iv'' aad text'' secret isBox => ?_, chosen, opened,
    fun known => unknown known.secret, by rw [isSession]; rfl, fun sent member isForged => ?_⟩
  · exact absurd ((ideal.aead_injective isBox).1 ▸ secret) unknown
  · rw [isSent, List.mem_singleton] at member
    rw [member, isFrame] at isForged
    exact absurd isForged (by simp [firstSession])

/-! ### Every other frame -/

/-- In every session that an adversary without its secrets can bring about, a party opens a
frame under a stored key or under a key from its root, and only when its peer wrote it. -/
theorem only_peer_opens (ideal : S.Ideal) (T : Thread S) (w : World S)
    (reached : Reached T (fun _ _ => True) T.Adversarial w) (side : Side) (s : Session S)
    (session : w.session T side = some s) (frame : MessageFrame S) (sid : frame.sid = T.sid)
    (built : T.Built w frame) (keyed : Keyed s frame) :
    (∀ mk left, chooseKey s frame = .ok (mk, left) →
      s.skipped.lookup (skipName (S := S) frame.rkPub frame.n.toUInt32.toNat) = some mk ∨
        FromRoot T.start mk) ∧
      ∀ text left, decryptLocked s frame = .ok (text, left) →
        ∃ sent ∈ w.sent, sent.side = side.other ∧ sent.frame = .message frame ∧ sent.text = text := by
  obtain ⟨turn, place, tally, joint⟩ := reached.joint ideal (fun _ _ _ _ allowed => allowed)
  constructor
  · intro mk left chose
    exact (joint.holds side s session).chosen keyed (chooseKey_ok s left frame mk chose)
  · intro text left done
    obtain ⟨sent, member, isSide, isFrame, isText, -⟩ :=
      joint.genuine ideal session sid built keyed done
    exact ⟨sent, member, isSide, isFrame, isText⟩

/-- Deliveries of the peer's frames are deliveries of an adversary. -/
theorem Reached.adversarial (ideal : S.Ideal)
    (reached : Reached T T.Brief T.Patient w) : Reached T (fun _ _ => True) T.Adversarial w := by
  induction reached with
  | start started => exact .start started
  | send _ side text iv frame device _ drawn done ih =>
    exact ih.send side text iv frame device trivial drawn done
  | receive reached side frame now opened device may done ih =>
    obtain ⟨turn, place, tally, joint, -⟩ := reached.complete ideal
    exact ih.receive side frame now opened device (may.1.adversarial joint) done
  | elsewhere _ side device same ih =>
    exact ih.elsewhere side device same

/-- The first message of the example comes from the peer. -/
theorem first_message_from_peer : ∃ w s frame left,
    Reached symbolicThread (fun _ _ => True) symbolicThread.Adversarial w ∧
      w.session symbolicThread .responder = some s ∧
      decryptLocked s frame = .ok (ascii "hello", left) ∧
      ∃ sent ∈ w.sent, sent.side = .initiator ∧ sent.frame = .message frame ∧
        sent.text = ascii "hello" := by
  obtain ⟨w, frame, reached, member, ⟨first, begun⟩, unopened, patient, -⟩ :=
    symbolic_talk (ascii "hello")
  obtain ⟨turn, place, tally, joint, complete⟩ := reached.complete symbolic_ideal
  obtain ⟨s, session⟩ : ∃ s, w.session symbolicThread .responder = some s := by
    cases session : w.session symbolicThread .responder with
    | some s => exact ⟨s, rfl⟩
    | none => exact absurd begun ((joint.absent session).2 first)
  obtain ⟨left, decrypted⟩ := complete.opens symbolic_ideal joint member rfl rfl session unopened
    (patient.2 frame rfl s session)
  obtain ⟨sid, built, keyed⟩ := patient.1.adversarial joint
  exact ⟨w, s, frame, left, reached.adversarial symbolic_ideal, session, decrypted,
    (only_peer_opens symbolic_ideal symbolicThread w (reached.adversarial symbolic_ideal) .responder s
      session frame sid built (keyed s session)).2 _ left decrypted⟩

/-- The owner of the first package opens a frame that nobody of the session has made. -/
theorem stranger_opens : ∃ s left,
    Reached symbolicThread (fun _ _ => True) symbolicThread.Adversarial (symbolicWorld []) ∧
      (symbolicWorld []).session symbolicThread .initiator = some s ∧
      symbolicThread.Built (symbolicWorld []) (forgedFrame symbolicThread.sid (List.replicate 12 0)
        (ascii "forged")) ∧
      (∃ mk, chooseKey s (forgedFrame symbolicThread.sid (List.replicate 12 0) (ascii "forged")) =
        .ok (mk, left) ∧ s.skipped = ∅ ∧ ¬ FromRoot symbolicThread.start mk) ∧
      decryptLocked s (forgedFrame symbolicThread.sid (List.replicate 12 0) (ascii "forged")) =
        .ok (ascii "forged", left) ∧
      ∀ sent ∈ (symbolicWorld []).sent, sent.frame ≠
        .message (forgedFrame symbolicThread.sid (List.replicate 12 0) (ascii "forged")) := by
  obtain ⟨s, left, session, built, chosen, opened, foreign, noKeys, unsent⟩ :=
    (symbolic_started []).forged symbolic_ideal (List.replicate 12 0) (ascii "forged")
  exact ⟨s, left, .start (symbolic_started []), session, built, ⟨_, chosen, noKeys, foreign⟩, opened,
    unsent⟩

end PqSession

end Addition
