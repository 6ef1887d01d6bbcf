import Addition.DecentralizedNode
import Addition.Foundations.Runs
import Addition.Store

/-!
# Identity rotation

A node proposes new keys for itself, collects votes for a while and installs the keys when
enough voters are counted. The same slot for a pending rotation is filled by announcements
of other nodes, which are signed by any key and name any identifier; a voter is counted by
the name that its vote carries. The state is the part of the node that these operations and
the two messages touch; the marks on peers are left out.
-/

namespace Addition

namespace Rotation

open ByteStrings Checked TextLines
open DecentralizedNode (SignMessage)

/-- `PendingRotation`. -/
structure PendingRotation where
  newPublicKey : Bytes
  newPrivateKey : Bytes
  effectiveAfter : UInt64
  proof : Bytes
  rotationId : Bytes
  votes : Finset Bytes
  voteSignatures : Finset Bytes
deriving DecidableEq

/-- The part of a node that changes its identity. -/
structure RotatingNode where
  nodePublicKey : Bytes
  nodePrivateKey : Bytes
  selfId : Bytes
  pendingRotation : Option PendingRotation
  seenRotationIds : Finset Bytes
  seenVoteSignatures : Finset Bytes
  outbound : List Bytes
deriving DecidableEq

variable (P : Primitives) (sign : SignMessage)

/-- Fields between bars. -/
def joined (texts : List Bytes) : Bytes := Store.fields texts

/-- The text that the proof of a rotation signs. -/
def rotationBody (oldKey newKey effective : Bytes) : Bytes :=
  joined [ascii "rotate", oldKey, newKey, effective]

/-- The text that a vote signs. -/
def voteBody (rotationId voterId : Bytes) : Bytes := joined [ascii "idvote", rotationId, voterId]

/-- A signature, or the refusal that stands for an exception. -/
def signOr (message : String) (privateKey body : Bytes) : Except String Bytes :=
  match sign privateKey body with
  | none => .error message
  | some signature => .ok signature

/-- The pending rotation of a proposal at a time. -/
def proposedRotation (node : RotatingNode) (newPublicKey newPrivateKey : Bytes)
    (graceSeconds now : UInt64) : Except String PendingRotation := do
  ensure (!newPublicKey.isEmpty && !newPrivateKey.isEmpty) "new identity keys required"
  ensure (decide (30 ≤ graceSeconds)) "grace too short"
  let body := rotationBody node.nodePublicKey newPublicKey (decimal (now + graceSeconds).toNat)
  let proof ← signOr sign "rotation proof signing failed" node.nodePrivateKey body
  pure {
    newPublicKey := newPublicKey
    newPrivateKey := newPrivateKey
    effectiveAfter := now + graceSeconds
    proof := proof
    rotationId := strongHash P body
    votes := {node.selfId}
    voteSignatures := {proof} }

/-- `propose_identity_rotation`. -/
def proposeIdentityRotation (node : RotatingNode) (newPublicKey newPrivateKey : Bytes)
    (graceSeconds now : UInt64) : Except String Unit × RotatingNode :=
  match proposedRotation P sign node newPublicKey newPrivateKey graceSeconds now with
  | .error message => (.error message, node)
  | .ok rotation =>
    let announcement := joined [ascii "IDROTATE", rotation.rotationId, node.nodePublicKey,
      rotation.newPublicKey, decimal rotation.effectiveAfter.toNat, rotation.proof]
    (.ok (), { node with
      pendingRotation := some rotation
      outbound := node.outbound ++ [announcement] })

/-- `vote_identity_rotation`. -/
def voteIdentityRotation (node : RotatingNode) (peerId : Bytes) :
    Except String Unit × RotatingNode :=
  match node.pendingRotation with
  | none => (.error "no pending rotation", node)
  | some rotation =>
    if peerId.isEmpty then (.error "peer id required", node)
    else
      (.ok (), { node with
        pendingRotation := some { rotation with votes := insert peerId rotation.votes } })

/-- A vote counts when its signature is new. -/
def PendingRotation.count (rotation : PendingRotation) (voterId signature : Bytes) :
    PendingRotation :=
  if signature ∈ rotation.voteSignatures then rotation
  else { rotation with
    votes := insert voterId rotation.votes
    voteSignatures := insert signature rotation.voteSignatures }

/-- `broadcast_identity_rotation_vote`. -/
def broadcastIdentityRotationVote (node : RotatingNode) : Except String Unit × RotatingNode :=
  match node.pendingRotation with
  | none => (.error "no pending rotation", node)
  | some rotation =>
    match signOr sign "vote signing failed" node.nodePrivateKey
        (voteBody rotation.rotationId node.selfId) with
    | .error message => (.error message, node)
    | .ok signature =>
      let vote := joined [ascii "IDVOTE", rotation.rotationId, node.selfId, node.nodePublicKey,
        signature]
      (.ok (), { node with
        pendingRotation := some (rotation.count node.selfId signature)
        outbound := node.outbound ++ [vote] })

/-- The number of voters that a rotation needs. -/
def needed (peerCount : Nat) : Nat := 2 * (peerCount + 1) / 3 + 1

/-- `commit_identity_rotation`. -/
def commitIdentityRotation (node : RotatingNode) (now : UInt64) (peerCount : Nat) :
    Except String Unit × RotatingNode :=
  match node.pendingRotation with
  | none => (.error "no pending rotation", node)
  | some rotation =>
    if now < rotation.effectiveAfter then (.error "rotation grace period not elapsed", node)
    else if rotation.votes.card < needed peerCount then (.error "rotation quorum not reached", node)
    else
      (.ok (), { node with
        nodePublicKey := rotation.newPublicKey
        nodePrivateKey := rotation.newPrivateKey
        pendingRotation := none })

/-! ### Messages -/

/-- `kMaxRotationIdLen`, `kMaxPeerIdLen`, `kMaxPubKeyHexLen` and `kMaxSigHexLen`. -/
def kMaxRotationIdLen : Nat := 128
/-- The octets of a name at most. -/
def kMaxPeerIdLen : Nat := 128
/-- The digits of a key at most. -/
def kMaxPubKeyHexLen : Nat := 12000
/-- The octets of a signature at most. -/
def kMaxSigHexLen : Nat := 40000

/-- `is_reasonable_field_size`. -/
def isReasonableFieldSize (value : Bytes) (maxLen : Nat) : Bool :=
  !value.isEmpty && decide (value.length ≤ maxLen)

/-- The next field of a message, which must be there. -/
def wantedField (message : String) (separator : UInt8) (stream : Option Bytes) :
    Except String (Bytes × Option Bytes) :=
  let (field, left, present) := getline separator stream []
  if present then .ok (field, left) else .error message

/-- The number of an announcement's effective time. -/
def effectiveTime (text : Bytes) : Except String UInt64 :=
  match stoull text with
  | none => .error "invalid rotation effective time"
  | some value => .ok value

/-- The checks of an announcement and the rotation it carries. -/
def announcedRotation (body : Bytes) : Except String PendingRotation := do
  let (rotationId, stream) ← wantedField "invalid rotation announce" Store.bar (some body)
  let (oldKey, stream) ← wantedField "invalid rotation announce" Store.bar stream
  let (newKey, stream) ← wantedField "invalid rotation announce" Store.bar stream
  let (effective, stream) ← wantedField "invalid rotation announce" Store.bar stream
  let (proof, _) ← wantedField "invalid rotation announce" newline stream
  ensure (isReasonableFieldSize rotationId kMaxRotationIdLen &&
    isReasonableFieldSize oldKey kMaxPubKeyHexLen && isReasonableFieldSize newKey kMaxPubKeyHexLen &&
    isReasonableFieldSize proof kMaxSigHexLen) "rotation field too large"
  ensure (verifyMessageSignatureHybridUncached P oldKey (rotationBody oldKey newKey effective) proof)
    "invalid rotation proof"
  let effectiveAfter ← effectiveTime effective
  pure ⟨newKey, [], effectiveAfter, proof, rotationId, ∅, ∅⟩

/-- The handling of `IDROTATE`. -/
def handleRotate (node : RotatingNode) (message : Bytes) : Except String Unit × RotatingNode :=
  match announcedRotation P (message.drop 9) with
  | .error refusal => (.error refusal, node)
  | .ok rotation =>
    if rotation.rotationId ∈ node.seenRotationIds then (.ok (), node)
    else
      (.ok (), { node with
        seenRotationIds := insert rotation.rotationId node.seenRotationIds
        pendingRotation := some rotation
        outbound := node.outbound ++ [message] })

/-- What a vote message carries. -/
structure Ballot where
  rotationId : Bytes
  voterId : Bytes
  voterKey : Bytes
  signature : Bytes
deriving DecidableEq

/-- The checks of a vote for a pending rotation. -/
def checkedBallot (rotation : PendingRotation) (body : Bytes) : Except String Ballot := do
  let (rotationId, stream) ← wantedField "invalid vote message" Store.bar (some body)
  let (voterId, stream) ← wantedField "invalid vote message" Store.bar stream
  let (voterKey, stream) ← wantedField "invalid vote message" Store.bar stream
  let (signature, _) ← wantedField "invalid vote message" newline stream
  ensure (isReasonableFieldSize rotationId kMaxRotationIdLen &&
    isReasonableFieldSize voterId kMaxPeerIdLen && isReasonableFieldSize voterKey kMaxPubKeyHexLen &&
    isReasonableFieldSize signature kMaxSigHexLen) "vote field too large"
  ensure (decide (rotationId = rotation.rotationId)) "vote rotation id mismatch"
  ensure (verifyMessageSignatureHybridUncached P voterKey (voteBody rotationId voterId) signature)
    "invalid vote signature"
  pure ⟨rotationId, voterId, voterKey, signature⟩

/-- The handling of `IDVOTE`. -/
def handleVote (node : RotatingNode) (message : Bytes) : Except String Unit × RotatingNode :=
  match node.pendingRotation with
  | none => (.error "no pending rotation for vote", node)
  | some rotation =>
    match checkedBallot P rotation (message.drop 7) with
    | .error refusal => (.error refusal, node)
    | .ok ballot =>
      (.ok (), { node with
        pendingRotation := some (rotation.count ballot.voterId ballot.signature)
        seenVoteSignatures := insert ballot.signature node.seenVoteSignatures
        outbound :=
          if ballot.signature ∈ node.seenVoteSignatures then node.outbound
          else node.outbound ++ [message] })

/-! ### Runs -/

/-- What happens to a node. A call carries the time at which it is made; a commit also the
number of peers at that moment. -/
inductive Event
  | propose (newPublicKey newPrivateKey : Bytes) (graceSeconds now : UInt64)
  | vote (peerId : Bytes)
  | broadcastVote
  | commit (now : UInt64) (peerCount : Nat)
  | rotateMessage (message : Bytes)
  | voteMessage (message : Bytes)
deriving DecidableEq

/-- The own proposal that was made last. -/
structure Proposal where
  oldPublicKey : Bytes
  newPublicKey : Bytes
  newPrivateKey : Bytes
  graceSeconds : UInt64
  now : UInt64
deriving DecidableEq

/-- The identifier of a proposal's rotation. -/
def Proposal.rotationId (proposal : Proposal) : Bytes :=
  strongHash P (rotationBody proposal.oldPublicKey proposal.newPublicKey
    (decimal (proposal.now + proposal.graceSeconds).toNat))

/-- A node, its last own proposal, and the votes that were accepted since the pending
rotation was set. No operation reads the last two. -/
structure History where
  node : RotatingNode
  proposal : Option Proposal
  ballots : List Ballot
deriving DecidableEq

/-- The history before the first event. -/
def History.start (node : RotatingNode) : History := ⟨node, none, []⟩

/-- The vote that a node accepts from a message. -/
def acceptedBallot (node : RotatingNode) (message : Bytes) : Option Ballot :=
  node.pendingRotation.bind (fun rotation => (checkedBallot P rotation (message.drop 7)).toOption)

/-- An event happens to the node and is noted. -/
def History.step (history : History) : Event → History
  | .propose newPublicKey newPrivateKey graceSeconds now =>
    match proposeIdentityRotation P sign history.node newPublicKey newPrivateKey graceSeconds now with
    | (.error _, left) => { history with node := left }
    | (.ok (), left) =>
      ⟨left, some ⟨history.node.nodePublicKey, newPublicKey, newPrivateKey, graceSeconds, now⟩, []⟩
  | .vote peerId => { history with node := (voteIdentityRotation history.node peerId).2 }
  | .broadcastVote => { history with node := (broadcastIdentityRotationVote sign history.node).2 }
  | .commit now peerCount =>
    { history with node := (commitIdentityRotation history.node now peerCount).2 }
  | .rotateMessage message =>
    let left := (handleRotate P history.node message).2
    { history with
      node := left
      ballots := if left.pendingRotation = history.node.pendingRotation then history.ballots else [] }
  | .voteMessage message =>
    { history with
      node := (handleVote P history.node message).2
      ballots := (acceptedBallot P history.node message).toList ++ history.ballots }

end Rotation

end Addition
