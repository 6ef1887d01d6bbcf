import Addition.IdentityRotation

/-!
# What a committed rotation rests on

A pending rotation with a private key was proposed by the node itself, since announcements
carry none. Its voters are the node and the names in accepted votes; when a new name always
comes with a new key, there are at least as many keys as names. A commit then installs the
last own proposal, after its time, with a quorum of keys.
-/

namespace Addition

namespace Rotation

open ByteStrings Checked Runs
open DecentralizedNode (SignMessage)

variable {P : Primitives} {sign : SignMessage}

/-- The keys behind the votes for a node's own proposal: its own key and the keys that
signed the accepted votes. -/
def History.voterKeys (history : History) : Finset Bytes :=
  insert history.node.nodePublicKey (history.ballots.map Ballot.voterKey).toFinset

/-- A vote that verifies and names a rotation. -/
def Ballot.For (P : Primitives) (rotationId : Bytes) (ballot : Ballot) : Prop :=
  ballot.rotationId = rotationId ∧
    verifyMessageSignatureHybridUncached P ballot.voterKey (voteBody rotationId ballot.voterId)
      ballot.signature = true

/-- A pending rotation that the node proposed itself. -/
structure Own (P : Primitives) (history : History) (rotation : PendingRotation) : Prop where
  proposed : ∃ proposal, history.proposal = some proposal ∧
    proposal.oldPublicKey = history.node.nodePublicKey ∧
    rotation.newPublicKey = proposal.newPublicKey ∧
    rotation.newPrivateKey = proposal.newPrivateKey ∧
    rotation.rotationId = proposal.rotationId P ∧
    rotation.effectiveAfter = proposal.now + proposal.graceSeconds ∧
    proposal.now.toNat + proposal.graceSeconds.toNat < 2 ^ 64
  self : history.node.selfId ∈ rotation.votes
  ballots : ∀ ballot ∈ history.ballots, ballot.For P rotation.rotationId
  counted : rotation.votes.card ≤ history.voterKeys.card

/-- A pending rotation with a private key is the node's own. -/
def Kept (P : Primitives) (history : History) : Prop :=
  ∀ rotation, history.node.pendingRotation = some rotation → rotation.newPrivateKey ≠ [] →
    Own P history rotation

/-- What every step has to meet. The time of a proposal does not wrap around; a name that
has not voted for an own proposal comes with a key that has not; and a rotation that is
about to be installed has a private key. -/
def Careful (P : Primitives) (history : History) : Event → Prop
  | .propose _ _ graceSeconds now => now.toNat + graceSeconds.toNat < 2 ^ 64
  | .vote peerId => ∀ rotation, history.node.pendingRotation = some rotation →
      rotation.newPrivateKey ≠ [] → peerId = [] ∨ peerId ∈ rotation.votes
  | .voteMessage message => ∀ rotation ballot, history.node.pendingRotation = some rotation →
      rotation.newPrivateKey ≠ [] → acceptedBallot P history.node message = some ballot →
      ballot.voterId ∈ rotation.votes ∨ ballot.voterKey ∉ history.voterKeys
  | .commit now peerCount => ∀ rotation, history.node.pendingRotation = some rotation →
      rotation.effectiveAfter ≤ now → needed peerCount ≤ rotation.votes.card →
      rotation.newPrivateKey ≠ []
  | .broadcastVote => True
  | .rotateMessage _ => True

theorem kept_start (node : RotatingNode) (idle : node.pendingRotation = none) :
    Kept P (.start node) := by
  intro rotation pending
  have none : node.pendingRotation = some rotation := pending
  rw [idle] at none
  exact absurd none (by simp)

/-! ### Counting -/

theorem count_same (rotation : PendingRotation) (voterId signature : Bytes) :
    (rotation.count voterId signature).newPublicKey = rotation.newPublicKey ∧
      (rotation.count voterId signature).newPrivateKey = rotation.newPrivateKey ∧
      (rotation.count voterId signature).rotationId = rotation.rotationId ∧
      (rotation.count voterId signature).effectiveAfter = rotation.effectiveAfter := by
  unfold PendingRotation.count
  split
  · exact ⟨rfl, rfl, rfl, rfl⟩
  · exact ⟨rfl, rfl, rfl, rfl⟩

theorem count_votes (rotation : PendingRotation) (voterId signature : Bytes) :
    (rotation.count voterId signature).votes = rotation.votes ∨
      (rotation.count voterId signature).votes = insert voterId rotation.votes := by
  unfold PendingRotation.count
  split
  · exact .inl rfl
  · exact .inr rfl

/-- Counting a vote of a name whose vote is there already changes nothing that matters. -/
theorem count_known (rotation : PendingRotation) (voterId signature : Bytes)
    (known : voterId ∈ rotation.votes) :
    (rotation.count voterId signature).votes = rotation.votes := by
  rcases count_votes rotation voterId signature with same | more
  · exact same
  · rw [more, Finset.insert_eq_of_mem known]

/-! ### Steps -/

/-- What an accepted proposal of the own node meets. -/
theorem proposedRotation_ok (node : RotatingNode) (newPublicKey newPrivateKey : Bytes)
    (graceSeconds now : UInt64) (rotation : PendingRotation)
    (proposed : proposedRotation P sign node newPublicKey newPrivateKey graceSeconds now =
      .ok rotation) :
    rotation.newPublicKey = newPublicKey ∧ rotation.newPrivateKey = newPrivateKey ∧
      rotation.effectiveAfter = now + graceSeconds ∧ rotation.votes = {node.selfId} ∧
      rotation.rotationId = Proposal.rotationId P
        ⟨node.nodePublicKey, newPublicKey, newPrivateKey, graceSeconds, now⟩ := by
  simp only [proposedRotation, bind_ok, exists_unit, ensure_ok, pure_ok] at proposed
  obtain ⟨_, _, proof, _, rfl⟩ := proposed
  exact ⟨rfl, rfl, rfl, rfl, rfl⟩

variable {history : History}

theorem Kept.propose (kept : Kept P history) (newPublicKey newPrivateKey : Bytes)
    (graceSeconds now : UInt64) (bounded : now.toNat + graceSeconds.toNat < 2 ^ 64) :
    Kept P (history.step P sign (.propose newPublicKey newPrivateKey graceSeconds now)) := by
  cases made : proposedRotation P sign history.node newPublicKey newPrivateKey graceSeconds now with
  | error message =>
    simp only [History.step, proposeIdentityRotation, made]
    exact kept
  | ok rotation =>
    simp only [History.step, proposeIdentityRotation, made]
    obtain ⟨publicKey, privateKey, effective, votes, rotationId⟩ :=
      proposedRotation_ok history.node newPublicKey newPrivateKey graceSeconds now rotation made
    intro pending set _
    obtain rfl : rotation = pending := Option.some.inj set
    exact {
      proposed := ⟨_, rfl, rfl, publicKey, privateKey, rotationId, effective, bounded⟩
      self := by
        rw [votes]
        exact Finset.mem_singleton_self _
      ballots := by simp
      counted := by
        rw [votes, Finset.card_singleton]
        exact Finset.card_pos.mpr ⟨_, Finset.mem_insert_self _ _⟩ }

theorem Kept.vote (kept : Kept P history) (peerId : Bytes)
    (known : ∀ rotation, history.node.pendingRotation = some rotation →
      rotation.newPrivateKey ≠ [] → peerId = [] ∨ peerId ∈ rotation.votes) :
    Kept P (history.step P sign (.vote peerId)) := by
  cases pending : history.node.pendingRotation with
  | none =>
    simp only [History.step, voteIdentityRotation, pending]
    exact kept
  | some rotation =>
    simp only [History.step, voteIdentityRotation, pending]
    split
    · exact kept
    · rename_i named
      intro voted set secret
      obtain rfl := Option.some.inj set
      have own := kept rotation pending secret
      have listed : peerId ∈ rotation.votes :=
        (known rotation pending secret).resolve_left (by simpa using named)
      have same : insert peerId rotation.votes = rotation.votes := Finset.insert_eq_of_mem listed
      exact {
        proposed := own.proposed
        self := Finset.mem_insert_of_mem own.self
        ballots := own.ballots
        counted := by
          change (insert peerId rotation.votes).card ≤ _
          rw [same]
          exact own.counted }

theorem Kept.broadcast (kept : Kept P history) :
    Kept P (history.step P sign .broadcastVote) := by
  cases pending : history.node.pendingRotation with
  | none =>
    simp only [History.step, broadcastIdentityRotationVote, pending]
    exact kept
  | some rotation =>
    simp only [History.step, broadcastIdentityRotationVote, pending]
    split
    · exact kept
    · rename_i signature signed
      intro voted set secret
      obtain rfl := Option.some.inj set
      obtain ⟨publicKey, privateKey, rotationId, effective⟩ :=
        count_same rotation history.node.selfId signature
      rw [privateKey] at secret
      have own := kept rotation pending secret
      have votes := count_known rotation history.node.selfId signature own.self
      exact {
        proposed := by
          rw [publicKey, privateKey, rotationId, effective]
          exact own.proposed
        self := votes ▸ own.self
        ballots := rotationId ▸ own.ballots
        counted := votes ▸ own.counted }

theorem Kept.commit (kept : Kept P history) (now : UInt64) (peerCount : Nat) :
    Kept P (history.step P sign (.commit now peerCount)) := by
  cases pending : history.node.pendingRotation with
  | none =>
    simp only [History.step, commitIdentityRotation, pending]
    exact kept
  | some rotation =>
    simp only [History.step, commitIdentityRotation, pending]
    split
    · exact kept
    · split
      · exact kept
      · intro committed set
        exact absurd set (by simp)

/-- An announcement carries no private key. -/
theorem announcedRotation_keyless (body : Bytes) (rotation : PendingRotation)
    (announced : announcedRotation P body = .ok rotation) : rotation.newPrivateKey = [] := by
  simp only [announcedRotation, bind_ok, exists_unit, ensure_ok, pure_ok] at announced
  obtain ⟨_, _, _, _, _, _, _, _, _, _, _, _, _, _, rfl⟩ := announced
  rfl

theorem Kept.rotateMessage (kept : Kept P history) (message : Bytes) :
    Kept P (history.step P sign (.rotateMessage message)) := by
  cases announced : announcedRotation P (message.drop 9) with
  | error refusal =>
    simp only [History.step, handleRotate, announced, if_true]
    exact kept
  | ok rotation =>
    simp only [History.step, handleRotate, announced]
    split
    · simp only [if_true]
      exact kept
    · intro pending set secret
      obtain rfl : rotation = pending := Option.some.inj set
      exact absurd (announcedRotation_keyless _ rotation announced) secret

/-- An accepted vote is for the pending rotation. -/
theorem checkedBallot_for (rotation : PendingRotation) (body : Bytes) (ballot : Ballot)
    (checked : checkedBallot P rotation body = .ok ballot) : ballot.For P rotation.rotationId := by
  simp only [checkedBallot, bind_ok, exists_unit, ensure_ok, pure_ok, decide_eq_true_eq] at checked
  obtain ⟨_, _, _, _, _, _, _, _, _, same, verified, rfl⟩ := checked
  exact ⟨same, same ▸ verified⟩

theorem Kept.voteMessage (kept : Kept P history) (message : Bytes)
    (careful : Careful P history (.voteMessage message)) :
    Kept P (history.step P sign (.voteMessage message)) := by
  cases pending : history.node.pendingRotation with
  | none =>
    simp only [History.step, handleVote, acceptedBallot, pending]
    exact kept
  | some rotation =>
    cases checked : checkedBallot P rotation (message.drop 7) with
    | error refusal =>
      have refused : acceptedBallot P history.node message = none := by
        simp [acceptedBallot, pending, checked, Except.toOption]
      simp only [History.step, handleVote, refused, pending, checked]
      exact kept
    | ok ballot =>
      simp only [History.step, handleVote, pending, checked]
      have accepted : acceptedBallot P history.node message = some ballot := by
        simp [acceptedBallot, pending, checked, Except.toOption]
      intro voted set secret
      obtain rfl := Option.some.inj set
      obtain ⟨publicKey, privateKey, rotationId, effective⟩ :=
        count_same rotation ballot.voterId ballot.signature
      rw [privateKey] at secret
      have own := kept rotation pending secret
      have new := careful rotation ballot pending secret accepted
      have votes := count_votes rotation ballot.voterId ballot.signature
      have counted := own.counted
      have listed : (acceptedBallot P history.node message).toList = [ballot] := by
        rw [accepted]
        rfl
      have keys : insert history.node.nodePublicKey
          ((ballot :: history.ballots).map Ballot.voterKey).toFinset =
            insert ballot.voterKey history.voterKeys := by
        rw [List.map_cons, List.toFinset_cons, Finset.insert_comm]
        rfl
      exact {
        proposed := by
          rw [publicKey, privateKey, rotationId, effective]
          exact own.proposed
        self := by
          rcases votes with same | more
          · exact same ▸ own.self
          · exact more ▸ Finset.mem_insert_of_mem own.self
        ballots := by
          rw [rotationId, listed]
          exact List.forall_mem_cons.mpr ⟨checkedBallot_for rotation _ ballot checked, own.ballots⟩
        counted := by
          have grown : (rotation.count ballot.voterId ballot.signature).votes.card ≤
              (insert ballot.voterKey history.voterKeys).card := by
            rcases new with known | unknown
            · rw [count_known rotation _ _ known]
              exact counted.trans (Finset.card_le_card (Finset.subset_insert _ _))
            · rw [Finset.card_insert_of_notMem unknown]
              rcases votes with same | more
              · rw [same]
                omega
              · have most := Finset.card_insert_le ballot.voterId rotation.votes
                rw [more]
                omega
          rw [← keys] at grown
          simpa [History.voterKeys, listed] using grown }

/-- A careful step keeps the invariant. -/
theorem Kept.step (kept : Kept P history) (event : Event)
    (careful : Careful P history event) : Kept P (history.step P sign event) := by
  cases event with
  | propose newPublicKey newPrivateKey graceSeconds now =>
    exact kept.propose newPublicKey newPrivateKey graceSeconds now careful
  | vote peerId => exact kept.vote peerId careful
  | broadcastVote => exact kept.broadcast
  | commit now peerCount => exact kept.commit now peerCount
  | rotateMessage message => exact kept.rotateMessage message
  | voteMessage message => exact kept.voteMessage message careful

/-- What a commit has to wait for. -/
theorem commit_ok (node left : RotatingNode) (now : UInt64) (peerCount : Nat)
    (committed : commitIdentityRotation node now peerCount = (.ok (), left)) :
    ∃ rotation, node.pendingRotation = some rotation ∧ rotation.effectiveAfter ≤ now ∧
      needed peerCount ≤ rotation.votes.card ∧
      left.nodePublicKey = rotation.newPublicKey ∧ left.nodePrivateKey = rotation.newPrivateKey := by
  unfold commitIdentityRotation at committed
  cases pending : node.pendingRotation with
  | none => simp [pending] at committed
  | some rotation =>
    rw [pending] at committed
    dsimp only at committed
    split at committed
    · simp at committed
    · rename_i elapsed
      split at committed
      · simp at committed
      · rename_i quorum
        obtain ⟨_, rfl⟩ := Prod.mk.inj committed
        exact ⟨rotation, rfl, UInt64.not_lt.mp elapsed, Nat.not_lt.mp quorum, rfl, rfl⟩

/-- In a run whose steps are careful, a commit that succeeds installs the key pair of the
node's last proposal, with a private key, after its grace period, and more than two thirds
of the peers and the node voted for its rotation, counted by their keys. -/
theorem rotation_commits_proposal (P : Primitives) (sign : SignMessage) (node : RotatingNode)
    (idle : node.pendingRotation = none) (events : List Event)
    (careful : EachStep (History.step P sign) (Careful P) (.start node) events)
    (front : List Event) (now : UInt64) (peerCount : Nat) (left : RotatingNode)
    (cut : front ++ [.commit now peerCount] <+: events)
    (committed : commitIdentityRotation (front.foldl (History.step P sign) (.start node)).node
      now peerCount = (.ok (), left)) :
    ∃ proposal, (front.foldl (History.step P sign) (.start node)).proposal = some proposal ∧
      left.nodePublicKey = proposal.newPublicKey ∧
      left.nodePrivateKey = proposal.newPrivateKey ∧ proposal.newPrivateKey ≠ [] ∧
      proposal.now.toNat + proposal.graceSeconds.toNat ≤ now.toNat ∧
      2 * (peerCount + 1) <
        3 * (front.foldl (History.step P sign) (.start node)).voterKeys.card ∧
      ∀ ballot ∈ (front.foldl (History.step P sign) (.start node)).ballots,
        ballot.For P (proposal.rotationId P) := by
  have kept := careful.carries (Kept P) (fun _ event kept meets => kept.step event meets)
    (kept_start node idle) front ((List.prefix_append _ _).trans cut)
  obtain ⟨rest, split⟩ := cut
  rw [← split, List.append_assoc] at careful
  have meets := careful.before
  generalize front.foldl (History.step P sign) (.start node) = history at *
  obtain ⟨rotation, pending, elapsed, quorum, publicKey, privateKey⟩ :=
    commit_ok history.node left now peerCount committed
  have secret := meets rotation pending elapsed quorum
  have own := kept rotation pending secret
  obtain ⟨proposal, last, _, samePublic, samePrivate, sameId, effective, bounded⟩ := own.proposed
  have after := UInt64.le_iff_toNat_le.mp elapsed
  rw [effective, UInt64.toNat_add, Nat.mod_eq_of_lt bounded] at after
  have counted := own.counted
  refine ⟨proposal, last, publicKey.trans samePublic, privateKey.trans samePrivate,
    samePrivate ▸ secret, after, ?_, sameId ▸ own.ballots⟩
  unfold needed at quorum
  omega

/-! ### Three runs -/

/-- The signature of a one-octet key under the sample libraries. -/
def sampleSign : SignMessage := fun key message =>
  some (pqPrefix ++ toHex (sampleDigest 4 (fromHex key ++ message)).val)

/-- A node under its first key. -/
def sampleNode : RotatingNode := ⟨ascii "01", ascii "01", ascii "node", none, ∅, ∅, []⟩

/-- A vote of a name, signed with a key. -/
def sampleVote (rotationId voterId key : Bytes) : Bytes :=
  ascii "IDVOTE|" ++ joined [rotationId, voterId, key,
    (sampleSign key (voteBody rotationId voterId)).getD []]

/-- The node proposes its next keys, with a grace period of thirty seconds. -/
def sampleProposal : Event := .propose (ascii "02") (ascii "02") 30 100

/-- The name of the proposal. -/
def sampleRotationId : Bytes :=
  Proposal.rotationId signingPrimitives ⟨ascii "01", ascii "02", ascii "02", 30, 100⟩

/-- One peer votes, and the node commits. -/
def plainRotation : List Event :=
  [sampleProposal, .voteMessage (sampleVote sampleRotationId (ascii "bob") (ascii "05")),
    .commit 130 1]

/-- The state in which the node commits. -/
def beforeCommit (events : List Event) : History :=
  (events.take (events.length - 1)).foldl (History.step signingPrimitives sampleSign)
    (.start sampleNode)

set_option maxRecDepth 100000 in
theorem plainRotation_state :
    let voted := (([sampleProposal] : List Event).foldl (History.step signingPrimitives sampleSign)
      (.start sampleNode))
    (acceptedBallot signingPrimitives voted.node
        (sampleVote sampleRotationId (ascii "bob") (ascii "05"))).map Ballot.voterKey =
        some (ascii "05") ∧
      ascii "05" ∉ voted.voterKeys ∧
      (beforeCommit plainRotation).node.pendingRotation.all
        (fun rotation => decide (rotation.newPrivateKey ≠ [])) = true ∧
      (commitIdentityRotation (beforeCommit plainRotation).node 130 1).1.isOk = true := by
  decide +kernel

theorem careful_key (history : History) (message key : Bytes)
    (accepted : (acceptedBallot P history.node message).map Ballot.voterKey = some key)
    (new : key ∉ history.voterKeys) : Careful P history (.voteMessage message) := by
  intro rotation ballot _ _ found
  rw [found] at accepted
  exact .inr (Option.some.inj accepted ▸ new)

theorem careful_secret (history : History) (now : UInt64) (peerCount : Nat)
    (secret : history.node.pendingRotation.all
      (fun rotation => decide (rotation.newPrivateKey ≠ [])) = true) :
    Careful P history (.commit now peerCount) := by
  intro rotation pending _ _
  rw [pending] at secret
  exact of_decide_eq_true secret

/-- An own proposal with the vote of another key is installed. -/
theorem plain_rotation_committed :
    ∃ left, commitIdentityRotation (beforeCommit plainRotation).node 130 1 = (.ok (), left) ∧
    ∃ proposal, (beforeCommit plainRotation).proposal = some proposal ∧
      left.nodePublicKey = proposal.newPublicKey ∧
      left.nodePrivateKey = proposal.newPrivateKey ∧ proposal.newPrivateKey ≠ [] ∧
      proposal.now.toNat + proposal.graceSeconds.toNat ≤ (130 : UInt64).toNat ∧
      2 * (1 + 1) < 3 * (beforeCommit plainRotation).voterKeys.card ∧
      ∀ ballot ∈ (beforeCommit plainRotation).ballots,
        ballot.For signingPrimitives (proposal.rotationId signingPrimitives) := by
  obtain ⟨accepted, new, secret, committed⟩ := plainRotation_state
  obtain ⟨left, done⟩ : ∃ left,
      commitIdentityRotation (beforeCommit plainRotation).node 130 1 = (.ok (), left) := by
    cases outcome : commitIdentityRotation (beforeCommit plainRotation).node 130 1 with
    | mk result left =>
      cases result with
      | error message => simp [outcome, Except.isOk, Except.toBool] at committed
      | ok value => exact ⟨left, rfl⟩
  have careful : EachStep (History.step signingPrimitives sampleSign) (Careful signingPrimitives)
      (.start sampleNode) plainRotation :=
    ⟨(by decide : (100 : UInt64).toNat + (30 : UInt64).toNat < 2 ^ 64), careful_key _ _ _ accepted new, careful_secret _ 130 1 secret, trivial⟩
  have cut : plainRotation.take (plainRotation.length - 1) ++ [.commit 130 1] <+: plainRotation :=
    ⟨[], rfl⟩
  unfold beforeCommit at done ⊢
  exact ⟨left, done, rotation_commits_proposal signingPrimitives sampleSign sampleNode rfl
    plainRotation careful (plainRotation.take (plainRotation.length - 1)) 130 1 left cut done⟩

/-- An announcement of another key replaces the proposal, and its key votes under three
names. -/
def remoteRotation : List Event :=
  let body := rotationBody (ascii "09") (ascii "0a") (ascii "120")
  [sampleProposal,
    .rotateMessage (ascii "IDROTATE|" ++ joined [ascii "r", ascii "09", ascii "0a", ascii "120",
      (sampleSign (ascii "09") body).getD []]),
    .voteMessage (sampleVote (ascii "r") (ascii "a") (ascii "09")),
    .voteMessage (sampleVote (ascii "r") (ascii "b") (ascii "09")),
    .voteMessage (sampleVote (ascii "r") (ascii "c") (ascii "09")),
    .commit 120 2]

/-- One key votes for the node's own proposal under two names. -/
def stuffedRotation : List Event :=
  [sampleProposal, .voteMessage (sampleVote sampleRotationId (ascii "a") (ascii "09")),
    .voteMessage (sampleVote sampleRotationId (ascii "b") (ascii "09")), .commit 130 2]

set_option maxRecDepth 100000 in
/-- A node installs the announced key of another with an empty private key before the grace
period of its own proposal, and one installs its own keys on the votes of two keys out of
three. -/
theorem rotation_hijacked :
    (commitIdentityRotation (beforeCommit remoteRotation).node 120 2).1.isOk = true ∧
    (commitIdentityRotation (beforeCommit remoteRotation).node 120 2).2.nodePublicKey = ascii "0a" ∧
    (commitIdentityRotation (beforeCommit remoteRotation).node 120 2).2.nodePrivateKey = [] ∧
    (commitIdentityRotation (beforeCommit stuffedRotation).node 130 2).1.isOk = true ∧
    (beforeCommit stuffedRotation).voterKeys.card = 2 := by
  decide +kernel

end Rotation

end Addition
