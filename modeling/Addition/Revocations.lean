import Addition.ChannelRuns

/-!
# Revocation of the peer's states

While every accepted revocation names the number that is due, an endpoint has the
peer's secret of every state before its current one, for the hash it signed under;
it answers a revocation only when it has the peer's secret of the same number.

`receive_revoke` takes any number whose hash matches. A peer that reveals the secret of
the new state in place of the old one keeps the old state unrevoked.
-/

namespace Addition.Channels

open ByteStrings Checked FiniteTables TextLines Script

variable {P : Primitives}

/-- No update is in flight. -/
def Quiescent (rc : RemoteChannel) : Prop := rc.ch.pending = none ∧ rc.outPhase = .idle

/-- The peer's secret of a number is stored, and opens the hash that every commitment of
the number was signed under. -/
def Obtained (P : Primitives) (rc : RemoteChannel) (log : List Released) (k : Nat) : Prop :=
  ∃ secret, rc.ch.remoteSecrets.lookup k = some secret ∧
    rc.ch.remoteHashes.lookup k = some (hashPreimageHex P secret) ∧
    ∀ state revHash, Released.commitment state revHash ∈ log → state.n = k →
      hashPreimageHex P secret = revHash

/-- Every number below the due one was revealed by the peer. -/
theorem Run.obtained {rc : RemoteChannel} {log : List Released}
    (run : Run P (RevokesInOrder P) rc log) (k : Nat) (before : k < rc.due) :
    Obtained P rc log k := by
  obtain ⟨sound, accounted⟩ := run.sound
  obtain ⟨secret, stored, hash⟩ := sound.revealed k before
  refine ⟨secret, stored, hash, ?_⟩
  rintro state revHash released rfl
  obtain ⟨signedUnder, _, _⟩ := accounted _ released
  rw [hash] at signedUnder
  exact Option.some.inj signedUnder

/-- With nothing in flight the peer has revoked every state before the current one. It has
also revoked every number that was revoked in answer to it, and, as soon as a proposal
of ours is finished, the number before it. -/
theorem peer_states_revoked {rc : RemoteChannel} {log : List Released}
    (run : Run P (RevokesInOrder P) rc log) :
    (Quiescent rc → ∀ k < rc.ch.cur.n, Obtained P rc log k) ∧
      (∀ k, Released.answered k ∈ log → Obtained P rc log k) ∧
      (rc.outPhase ≠ .rev → ∀ k < rc.ch.cur.n, Obtained P rc log k) := by
  have settled : rc.outPhase ≠ .rev → ∀ k < rc.ch.cur.n, Obtained P rc log k := by
    intro finished k before
    exact run.obtained k (by rw [due_of_ne finished]; exact before)
  refine ⟨fun quiet => settled (by simp [quiet.2]), fun k answered => ?_, settled⟩
  exact run.obtained k (run.sound.2 _ answered)

/-! ### A peer that reveals another secret -/

/-- A wallet of the sample libraries with a key of one octet. -/
def sampleAddress (key : UInt8) : Bytes :=
  hashCommittedAddress signingPrimitives (sigSchemeId .mlDsa87) [key]

/-- A signature that everyone can make: a digest of key and text. -/
def sampleSignature (key : UInt8) (message : Bytes) : Bytes :=
  pqPrefix ++ toHex (sampleDigest 4 ([key] ++ message)).val

/-- The wallet of the endpoint. -/
def sampleKeys : WalletKeys := ⟨toHex [7], sampleAddress 7, sampleSignature 7⟩

/-- The peer is A and funds the channel. -/
def sampleInfo : Info := ⟨sampleAddress 9, sampleAddress 7, 100, ascii "funding", 0, 10, 1⟩

/-- The peer's secrets and revocation hashes. -/
def peerSecret (n : UInt8) : Bytes := toHex [n]

/-- The revocation hash of the peer for a number. -/
def peerHash (n : UInt8) : Bytes := hashPreimageHex signingPrimitives (peerSecret n)

/-- The channel before the first signature. -/
def sampleOpening : Channel :=
  openingChannel sampleKeys (toHex [9]) false sampleInfo (ascii "seed") (peerHash 0) (peerHash 1)

/-- The state of a number in which the endpoint has an amount and the peer the rest. -/
def sampleState (n : Nat) (amount : UInt64) : State := ⟨n, 100 - amount, amount, [], 0⟩

/-- The peer's signature on the endpoint's commitment of a state. -/
def peerSignature (state : State) : Bytes :=
  sampleSignature 9 (sighash signingPrimitives (commitmentTx signingPrimitives sampleInfo false state
    (sampleOpening.revHash signingPrimitives state.n)))

/-- The endpoint after the first signature. -/
def sampleOpened : RemoteChannel :=
  ⟨.opened, { sampleOpening with
    cur := sampleState 0 40, remoteSigCur := peerSignature (sampleState 0 40) }, .idle, []⟩

/-- A message that meets an open chain and a writable file. -/
def sampleMessage (fields : List Bytes) : Event := .message ⟨5, true, .none⟩ fields

/-- The peer's update to a state, and its revocation of a number. -/
def peerUpdates (state : State) : Event :=
  sampleMessage [ascii "UPD", ascii "id", encodeState state, peerSignature state]

/-- The peer sends REV. -/
def peerRevokes (n : Nat) (secret nextHash : Bytes) : Event :=
  sampleMessage [ascii "REV", ascii "id", decimal n, secret, nextHash]

set_option maxRecDepth 100000 in
theorem sampleOpened_run (condition : EventCondition) :
    Run signingPrimitives condition sampleOpened [.commitment (sampleState 0 40) (peerHash 0)] := by
  refine Run.opened sampleKeys (toHex [9]) false sampleInfo (ascii "seed") (peerHash 0) (peerHash 1)
    (sampleState 0 40) (peerSignature (sampleState 0 40)) _ rfl rfl rfl ?_
  have verified : verifyMessageSignatureHybridUncached signingPrimitives (toHex [9])
      (sighash signingPrimitives (commitmentTx signingPrimitives sampleInfo false (sampleState 0 40)
        (sampleOpening.revHash signingPrimitives 0))) (peerSignature (sampleState 0 40)) = true := by
    decide +kernel
  exact (receiveCommitSig_first sampleKeys (toHex [9]) false sampleInfo (ascii "seed") (peerHash 0)
    (peerHash 1) (sampleState 0 40) (peerSignature (sampleState 0 40)) _ rfl).mpr ⟨verified, rfl⟩

/-- The peer pays ten, and reveals its secret of the new state as if of the old one. -/
def evasion : List Event :=
  [peerUpdates (sampleState 1 50), peerRevokes 1 (peerSecret 1) (peerHash 3)]

set_option maxRecDepth 100000 in
/-- The endpoint answers with its own secret of the old state and ends with nothing in
flight and without the peer's secret of it. -/
theorem old_state_kept_unrevoked :
    ∃ rc log, Run signingPrimitives (fun _ _ => True) rc log ∧ Quiescent rc ∧ 0 < rc.ch.cur.n ∧
      rc.ch.remoteSecrets.lookup 0 = none ∧ Released.answered 0 ∈ log := by
  refine ⟨_, _, (sampleOpened_run _).play evasion ⟨trivial, trivial, trivial⟩, ?_⟩
  unfold Quiescent
  decide +kernel

/-- The same update with the secret that is due. -/
def revocation : List Event :=
  [peerUpdates (sampleState 1 50), peerRevokes 0 (peerSecret 0) (peerHash 2)]

set_option maxRecDepth 100000 in
theorem revocation_inOrder :
    MeetAll signingPrimitives (RevokesInOrder signingPrimitives) sampleOpened revocation := by
  refine ⟨?_, ?_, trivial⟩
  · intro _ other
    exact absurd other (by decide)
  · intro _ _ _ revoke read _
    have fields : revokeOf [ascii "REV", ascii "id", decimal 0, peerSecret 0, peerHash 2] =
        some ⟨0, peerSecret 0, peerHash 2⟩ := by
      decide +kernel
    rw [fields] at read
    obtain rfl := Option.some.inj read
    decide +kernel

set_option maxRecDepth 100000 in
/-- After it the peer's secret of the old state is stored. -/
theorem revocation_obtained :
    (play signingPrimitives sampleOpened revocation).2.ch.cur.n = 1 ∧
      Obtained signingPrimitives (play signingPrimitives sampleOpened revocation).2
        ([.commitment (sampleState 0 40) (peerHash 0)] ++
          (play signingPrimitives sampleOpened revocation).1) 0 := by
  have quiet : Quiescent (play signingPrimitives sampleOpened revocation).2 := by
    unfold Quiescent
    decide +kernel
  have number : (play signingPrimitives sampleOpened revocation).2.ch.cur.n = 1 := by decide +kernel
  refine ⟨number, ?_⟩
  exact (peer_states_revoked ((sampleOpened_run _).play revocation revocation_inOrder)).1 quiet 0
    (by rw [number]; decide)

end Addition.Channels
