import Addition.Foundations.Listings
import Addition.Foundations.StreamWords
import Addition.IdentityRotation
import Addition.PeerNetwork

/-!
# Handshakes with peers

In every line a peer names itself. Before its messages are handled it must have greeted with a text
that is signed by a key, under a number that it did not use lately; the first key of a name is pinned
to it. A node that reaches out greets in the same way and takes the acknowledgement only under the
pinned key. An old kind of peer answers a greeting with what it has to tell, and is believed.

The lock on the state is dropped while a node waits for an answer, so a handshake that it began is
taken apart into what it does between two answers, and what it keeps to itself goes with it. The clock
is read where the source reads it, and each reading is given with the call.
-/

namespace Addition

open ByteStrings Checked FiniteTables StreamWords TextLines
open Rotation (joined wantedField isReasonableFieldSize kMaxPubKeyHexLen kMaxSigHexLen)
open Store (bar)

/-- `DecentralizedNode::RateBucket`. -/
structure RateBucket where
  genericHits : List UInt64
  expensiveHits : List UInt64

/-- The part of the node that handshakes touch. -/
structure PeerSessions where
  peers : PeerNetwork
  handshakeOk : Table Bytes Bool
  outboundHsOk : Table Bytes Bool
  helloCache : Table Bytes (Bytes × UInt64)
  peerProto : Table Bytes Nat
  seenNonces : Table Bytes (Finset Bytes)
  peerPubkeys : Table Bytes Bytes
  pinnedPeerPubkeys : Table Bytes Bytes
  rateLimits : Table Bytes RateBucket

/-- What a node says of itself. A signature is empty where signing throws. -/
structure OwnIdentity where
  selfId : Bytes
  network : Bytes
  publicKey : Bytes
  sign : Bytes → Option Bytes

namespace PeerSessions

/-- Sessions before the first message. -/
def initial (peers : PeerNetwork) : PeerSessions := ⟨peers, ∅, ∅, ∅, ∅, ∅, ∅, ∅, ∅⟩

/-- Seconds by which a greeting may be off the clock. -/
def kMsgSkewSec : UInt64 := 90
/-- Octets of a nonce at most. -/
def kMaxNonceLen : Nat := 128
/-- Nonces of a peer that are kept at most. -/
def kMaxSeenNonces : Nat := 4096
/-- Seconds for which a handshake is not repeated. -/
def kHelloCacheSeconds : UInt64 := 600
/-- Seconds in which messages are counted. -/
def kGenericWindowSec : UInt64 := 10
/-- Seconds in which expensive messages are counted. -/
def kExpensiveWindowSec : UInt64 := 10
/-- Messages of a peer in one window. -/
def kGenericMax : Nat := 2048
/-- Expensive messages of a peer in one window. -/
def kExpensiveMax : Nat := 512

variable (P : Primitives)

/-! ### Greetings -/

/-- What a greeting or its acknowledgement carries. -/
structure Hello where
  version : Bytes
  network : Bytes
  ts : Bytes
  nonce : Bytes
  key : Bytes
  sig : Bytes
deriving DecidableEq

/-- The fields of a greeting. The last one ends with the line. -/
def readHello (message : String) (body : Bytes) : Except String Hello := do
  let (version, stream) ← wantedField message bar (some body)
  let (network, stream) ← wantedField message bar stream
  let (ts, stream) ← wantedField message bar stream
  let (nonce, stream) ← wantedField message bar stream
  let (key, stream) ← wantedField message bar stream
  let (sig, _) ← wantedField message newline stream
  pure ⟨version, network, ts, nonce, key, sig⟩

/-- The text that a greeting signs, and an acknowledgement too. -/
def signedBody (version network ts nonce key : Bytes) : Bytes := joined [version, network, ts, nonce, key]

/-- `proto_supported`. -/
def protoSupported (version : Bytes) : Bool :=
  version == ascii "4" || version == ascii "3" || version == ascii "2"

/-- The number of a supported version. -/
def protoNumber (version : Bytes) : Nat :=
  if version = ascii "4" then 4 else if version = ascii "3" then 3 else 2

/-- The checks on the sizes of what a text carries. -/
def sizesOk (hello : Hello) : Bool :=
  isReasonableFieldSize hello.nonce kMaxNonceLen && isReasonableFieldSize hello.key kMaxPubKeyHexLen &&
    isReasonableFieldSize hello.sig kMaxSigHexLen

/-- The time of a greeting is near the clock. -/
def nearClock (now ts : UInt64) : Bool :=
  !(decide (ts + kMsgSkewSec < now) || decide (now + kMsgSkewSec < ts))

/-- The time of a greeting. -/
def helloTime (text : Bytes) : Except String UInt64 :=
  match stoull text with
  | none => .error "invalid hello timestamp"
  | some ts => .ok ts

/-- The checks of a greeting of a peer with this pin. -/
def checkHello (own : OwnIdentity) (pin : Option Bytes) (now : UInt64) (hello : Hello) :
    Except String Unit := do
  ensure (protoSupported hello.version && hello.network == own.network) "handshake mismatch"
  let ts ← helloTime hello.ts
  ensure (nearClock now ts) "hello timestamp skew"
  ensure (!hello.nonce.isEmpty) "missing hello nonce"
  ensure (!hello.key.isEmpty && !hello.sig.isEmpty) "missing hello signature fields"
  ensure (sizesOk hello) "hello field too large"
  ensure (pin.all (· == hello.key)) "peer pubkey pin mismatch"
  ensure (verifyMessageSignatureHybridUncached P hello.key
    (signedBody hello.version hello.network hello.ts hello.nonce hello.key) hello.sig)
    "invalid hello signature"

/-! ### Changes of the state -/

/-- Pin a key to a name that has none. -/
def pin (s : PeerSessions) (peer key : Bytes) : PeerSessions :=
  { s with
    peerPubkeys := s.peerPubkeys.insert peer key
    pinnedPeerPubkeys :=
      if (s.pinnedPeerPubkeys.lookup peer).isSome then s.pinnedPeerPubkeys
      else s.pinnedPeerPubkeys.insert peer key }

/-- The numbers that a peer greeted with lately. -/
def noncesOf (s : PeerSessions) (peer : Bytes) : Finset Bytes := (s.seenNonces.lookup peer).getD ∅

/-- A set of numbers with one more. A set that grows too large keeps this one only. -/
def grow (seen : Finset Bytes) (nonce : Bytes) : Finset Bytes :=
  if kMaxSeenNonces < (insert nonce seen).card then {nonce} else insert nonce seen

/-- What stays of a greeting that was checked and is new. -/
def note (s : PeerSessions) (peer : Bytes) (hello : Hello) : PeerSessions :=
  { s.pin peer hello.key with
    seenNonces := s.seenNonces.insert peer (grow (s.noncesOf peer) hello.nonce) }

/-- A peer whose greeting was acknowledged. -/
def welcome (s : PeerSessions) (now : Int) (peer version : Bytes) : PeerSessions :=
  { s with
    peers := (s.peers.readmitAuthenticated now peer).markPeerGood peer
    handshakeOk := s.handshakeOk.insert peer true
    peerProto := s.peerProto.insert peer (protoNumber version) }

/-- A peer whose greeting was refused. -/
def refuse (s : PeerSessions) (now : Int) (peer : Bytes) : PeerSessions :=
  { s with
    peers := s.peers.markPeerBad now peer
    handshakeOk := s.handshakeOk.insert peer false }

/-- The counters of a peer are replaced. -/
def limit (s : PeerSessions) (peer : Bytes) (bucket : RateBucket) : PeerSessions :=
  { s with rateLimits := s.rateLimits.insert peer bucket }

/-- The table of peers is replaced. -/
def withPeers (s : PeerSessions) (peers : PeerNetwork) : PeerSessions := { s with peers := peers }

/-- Whether the handshake with a peer succeeded. -/
def setOutbound (s : PeerSessions) (peer : Bytes) (ok : Bool) : PeerSessions :=
  { s with outboundHsOk := s.outboundHsOk.insert peer ok }

/-! ### Being reached -/

/-- The times that are still in a window. -/
def recent (window now : UInt64) (hits : List UInt64) : List UInt64 :=
  hits.dropWhile (fun time => decide (time + window < now))

/-- `allow_peer_message`. -/
def allowPeerMessage (s : PeerSessions) (now : UInt64) (peer : Bytes) (expensive : Bool) :
    Except String Unit × PeerSessions :=
  let bucket := (s.rateLimits.lookup peer).getD ⟨[], []⟩
  let generic := recent kGenericWindowSec now bucket.genericHits
  let costly := recent kExpensiveWindowSec now bucket.expensiveHits
  if kGenericMax ≤ generic.length then
    (.error "rate limit exceeded (generic)", s.limit peer ⟨generic, costly⟩)
  else if expensive = false then (.ok (), s.limit peer ⟨generic ++ [now], costly⟩)
  else if kExpensiveMax ≤ costly.length then
    (.error "rate limit exceeded (expensive)", s.limit peer ⟨generic ++ [now], costly⟩)
  else (.ok (), s.limit peer ⟨generic ++ [now], costly ++ [now]⟩)

/-- The messages that count twice. -/
def isExpensive (message : Bytes) : Bool :=
  ["REQBLK|", "REQINV|", "BLKDATA|", "REQADDR|", "ADVERTISE|", "IDROTATE|", "IDVOTE|", "SVOTE|", "PMSG|",
    "PMDEL|", "KPKG|", "CHAN|"].any (fun start => (ascii start).isPrefixOf message)

/-- The acknowledged version. -/
def negotiated (version : Bytes) : Bytes :=
  if version = ascii "4" ∨ version = ascii "3" then version else ascii "2"

/-- A greeting, without the mark for one that is refused. -/
def greet (s : PeerSessions) (own : OwnIdentity) (now : UInt64) (scored : Int) (peer body : Bytes) :
    Except String Bytes × PeerSessions :=
  match readHello "invalid hello" body with
  | .error message => (.error message, s)
  | .ok hello =>
    match checkHello P own (s.pinnedPeerPubkeys.lookup peer) now hello with
    | .error message => (.error message, s)
    | .ok () =>
      if hello.nonce ∈ s.noncesOf peer then (.error "replayed hello nonce", s)
      else
        let version := negotiated hello.version
        match own.sign (signedBody version own.network (decimal now.toNat) hello.nonce own.publicKey) with
        | none => (.error "ack signing failed", s.note peer hello)
        | some sig =>
          (.ok (joined [ascii "HELLO_ACK", version, own.network, decimal now.toNat, hello.nonce,
            own.publicKey, sig]), (s.note peer hello).welcome scored peer version)

/-- The handling of `HELLO`. -/
def hello (s : PeerSessions) (own : OwnIdentity) (now : UInt64) (scored : Int) (peer body : Bytes) :
    Except String Bytes × PeerSessions :=
  match s.greet P own now scored peer body with
  | (.error message, left) => (.error message, left.refuse scored peer)
  | (.ok reply, left) => (.ok reply, left)

/-- `ban_expiry`. -/
def banExpiry (peers : PeerNetwork) (now : Int) (peer : Bytes) : Int :=
  if peers.isBanned now peer then (peers.banned.lookup peer).getD 0 else 0

/-- The refusal of a banned peer. -/
def bannedUntil (expiry : Int) : String := s!"peer banned until {expiry} (misbehaviour; time-limited)"

/-- The readings of the clock while a message is handled: when the peer is added, when it is tested for
a ban, when that is told, for the rate, for the greeting, and when the peer is marked. -/
structure Readings where
  joins : Int
  tests : Int
  tells : Int
  asks : UInt64
  checks : UInt64
  marks : Int

/-- The peer is in the table, or is added to it. -/
def enter (s : PeerSessions) (readings : Readings) (peer : Bytes) : Except String Unit × PeerSessions :=
  if peer ∈ s.peers.peers then (.ok (), s)
  else
    match s.peers.addPeer readings.joins peer with
    | (true, peers) => (.ok (), s.withPeers peers)
    | (false, peers) =>
      (.error (if banExpiry peers readings.tells peer = 0 then "peer table full"
        else bannedUntil (banExpiry peers readings.tells peer)), s.withPeers peers)

/-- The part of `handle_inbound_message` in front of the message: the peer is added, is not banned, and
does not write too often. -/
def approach (s : PeerSessions) (readings : Readings) (peer message : Bytes) :
    Except String Unit × PeerSessions :=
  match s.enter readings peer with
  | (.error refusal, left) => (.error refusal, left)
  | (.ok (), entered) =>
    if entered.peers.isBanned readings.tests peer then
      (.error (bannedUntil (banExpiry entered.peers readings.tells peer)), entered)
    else
      match entered.allowPeerMessage readings.asks peer (isExpensive message) with
      | (.error refusal, left) =>
        (.error refusal, left.withPeers (left.peers.markPeerBad readings.marks peer))
      | (.ok (), allowed) => (.ok (), allowed)

/-- `handle_inbound_message` up to where it looks at the kind of a message that is no greeting: it is
refused, answered, or handed to its handler. -/
def authenticate (s : PeerSessions) (own : OwnIdentity) (readings : Readings) (peer message : Bytes) :
    Except String (Option Bytes) × PeerSessions :=
  match s.approach readings peer message with
  | (.error refusal, left) => (.error refusal, left)
  | (.ok (), allowed) =>
    if (ascii "HELLO|").isPrefixOf message then
      match allowed.hello P own readings.checks readings.marks peer (message.drop 6) with
      | (.error refusal, left) => (.error refusal, left)
      | (.ok reply, left) => (.ok (some reply), left)
    else if allowed.handshakeOk.lookup peer = some true then (.ok none, allowed)
    else (.error "handshake required", allowed)

/-- What a handler answers and makes of the table of peers. -/
abbrev Handler := PeerNetwork → Except Bytes Bytes × PeerNetwork

/-- `handle_inbound_message`. -/
def handleInboundMessage (s : PeerSessions) (own : OwnIdentity) (readings : Readings)
    (handler : Handler) (peer message : Bytes) : Except Bytes Bytes × PeerSessions :=
  match s.authenticate P own readings peer message with
  | (.error refusal, left) => (.error (ascii refusal), left)
  | (.ok (some reply), left) => (.ok reply, left)
  | (.ok none, left) => ((handler left.peers).1, left.withPeers (handler left.peers).2)

/-- The name and the message of a line. -/
def readLine (text : Bytes) : Bytes × Bytes :=
  match word text with
  | none => ([], [])
  | some (peer, rest) =>
    let payload := (getline newline (some rest) []).1
    (peer, if payload.head? = some (byte ' ') then payload.tail else payload)

/-- `handle_p2p_line`. -/
def handleP2pLine (s : PeerSessions) (own : OwnIdentity) (readings : Readings) (handler : Handler)
    (text : Bytes) : Bytes × PeerSessions :=
  let (peer, payload) := readLine text
  if peer.isEmpty || payload.isEmpty then (ascii "error: usage <peer> <payload>", s)
  else
    match s.handleInboundMessage P own readings handler peer payload with
    | (.error refusal, left) => (ascii "error: " ++ refusal, left)
    | (.ok reply, left) => (if reply.isEmpty then ascii "ok" else ascii "ok:" ++ reply, left)

/-! ### Reaching out -/

/-- Where a handshake that the node began stands. -/
structure Outbound where
  peer : Bytes
  attempt : Nat
  version : Bytes
  downgraded : Bool
  transportFails : Nat

/-- The state before the first attempt. -/
def Outbound.first (peer : Bytes) : Outbound := ⟨peer, 0, ascii "4", false, 0⟩

/-- The number of a greeting. -/
def helloNonce (attempt : Nat) (ts : UInt64) : Bytes :=
  ascii "s" ++ decimal attempt ++ ascii "-" ++ decimal (ts.toNat % 1000000)

/-- The name that a node uses in an attempt. -/
def attemptId (own : OwnIdentity) (attempt : Nat) : Bytes :=
  if attempt = 0 then own.selfId else own.selfId ++ ascii "x" ++ decimal attempt

/-- The line with the greeting of an attempt. -/
def helloRequest (own : OwnIdentity) (out : Outbound) (ts : UInt64) : Except String Bytes :=
  let nonce := helloNonce out.attempt ts
  match own.sign (signedBody out.version own.network (decimal ts.toNat) nonce own.publicKey) with
  | none => .error "hello signing failed"
  | some sig =>
    .ok (attemptId own out.attempt ++ ascii " " ++ joined [ascii "HELLO", out.version, own.network,
      decimal ts.toNat, nonce, own.publicKey, sig])

/-- The checks of an acknowledgement to a greeting with this number. -/
def checkAck (own : OwnIdentity) (pin : Option Bytes) (out : Outbound) (nonce : Bytes) (ack : Hello) :
    Except String Unit := do
  ensure (protoSupported ack.version && decide (protoNumber ack.version ≤ protoNumber out.version) &&
    ack.network == own.network && ack.nonce == nonce && !ack.key.isEmpty && !ack.sig.isEmpty)
    "HELLO_ACK mismatch"
  ensure (sizesOk ack) "HELLO_ACK field too large"
  ensure (pin.all (· == ack.key)) "peer pubkey pin mismatch"
  ensure (verifyMessageSignatureHybridUncached P ack.key
    (signedBody ack.version own.network ack.ts ack.nonce ack.key) ack.sig) "invalid HELLO_ACK signature"

/-- An acknowledgement that passes. -/
def readAck (own : OwnIdentity) (pin : Option Bytes) (out : Outbound) (nonce : Bytes) (body : Bytes) :
    Except String Hello := do
  let ack ← readHello "invalid HELLO_ACK fields" body
  checkAck P own pin out nonce ack
  pure ack

/-- What stays of an acknowledgement. -/
def acknowledge (s : PeerSessions) (now : Int) (peer : Bytes) (ack : Hello) : PeerSessions :=
  { (s.pin peer ack.key).setOutbound peer true with
    peers := s.peers.readmitAuthenticated now peer
    peerProto := s.peerProto.insert peer (protoNumber ack.version) }

/-- How a handshake goes on: it is done under a name, it fails, it is tried again, or an old peer is
asked for its work. -/
inductive Progress
  | done (wireId : Bytes)
  | failed (message : Bytes)
  | again (out : Outbound)
  | askWork

/-- There are at most eight attempts. -/
def retry (out : Outbound) (message : Bytes) : Progress :=
  if out.attempt + 1 < 8 then .again { out with attempt := out.attempt + 1 } else .failed message

/-- `persist_leftover_reply`. -/
def persistLeftoverReply (answer : Bytes) : Bool :=
  answer == ascii "ok" ||
    ["ok:BLK|", "ok:TX|", "ok:HAVE", "ok:INV|", "ok:IDROTATE|", "ok:IDVOTE|", "ok:SVOTE|"].any
      (fun start => (ascii start).isPrefixOf answer)

/-- `persist_truncated_hello`. -/
def persistTruncatedHello (answer : Bytes) : Bool :=
  answer == ascii "error: invalid hello" || answer == ascii "error: invalid hello signature"

/-- How the handshake goes on when the answer is a refusal. -/
def refused (out : Outbound) (answer : Bytes) : Progress :=
  let starts (text : String) : Bool := (ascii text).isPrefixOf answer
  let got := ascii "expected HELLO_ACK, got: " ++ answer
  if persistTruncatedHello answer then
    retry out (ascii "HELLO rejected as invalid or bad signature")
  else if answer == ascii "error: unknown peer" || starts "error: peer banned" then
    retry out (ascii "seed rejected peer id (persist banned self)")
  else if starts "error: handshake mismatch" && !out.downgraded then
    -- an older peer: one version down
    let version := if out.version = ascii "4" then ascii "3" else ascii "2"
    retry { out with version := version, downgraded := version == ascii "2" } got
  else if starts "error: hello timestamp" || starts "error: handshake mismatch" ||
      starts "error: peer pubkey pin" || starts "error: missing hello" then
    .failed got
  else retry out got

/-- The part of an attempt behind its answer; no answer stands for a failed transport. -/
def takeAnswer (s : PeerSessions) (own : OwnIdentity) (out : Outbound) (ts : UInt64) (isOnion : Bool)
    (now : Int) (answer : Option Bytes) : Progress × PeerSessions :=
  match answer with
  | none =>
    let message := ascii "HELLO transport failed to " ++ out.peer ++
      ascii " (paced WAN write/read of ML-DSA HELLO failed)"
    if (if isOnion then 5 else 2) ≤ out.transportFails + 1 then (.failed message, s)
    else (retry { out with transportFails := out.transportFails + 1 } message, s)
  | some answer =>
    if (ascii "ok:HELLO_ACK|").isPrefixOf answer then
      match readAck P own (s.pinnedPeerPubkeys.lookup out.peer) out (helloNonce out.attempt ts)
          (answer.drop 13) with
      | .error message => (.failed (ascii message), s)
      | .ok ack => (.done (attemptId own out.attempt), s.acknowledge now out.peer ack)
    else if persistLeftoverReply answer then (.askWork, s.setOutbound out.peer true)
    else (refused out answer, s)

/-- The part of an attempt behind the work of an old peer, which had answered the greeting so. -/
def takeWork (s : PeerSessions) (own : OwnIdentity) (out : Outbound) (answer : Bytes)
    (work : Option Bytes) : Progress × PeerSessions :=
  if work.any (ascii "ok:HAVEWORK|").isPrefixOf then (.done (attemptId own out.attempt), s)
  else
    (retry out (ascii "persist leftover reply without HAVEWORK: " ++ answer), s.setOutbound out.peer false)

/-- The name of a handshake that was made lately. -/
def cached (s : PeerSessions) (now : UInt64) (peer : Bytes) : Option Bytes × PeerSessions :=
  match s.helloCache.lookup peer with
  | none => (none, s)
  | some (wireId, time) =>
    if s.outboundHsOk.lookup peer = some true ∧ now < time + kHelloCacheSeconds then (some wireId, s)
    else (none, { s with helloCache := s.helloCache.erase peer })

/-- The end of `handshake_with_peer`. -/
def remember (s : PeerSessions) (own : OwnIdentity) (now : UInt64) (peer wireId : Bytes) : PeerSessions :=
  { s with
    helloCache := s.helloCache.insert peer (if wireId.isEmpty then own.selfId else wireId, now) }

/-- `forget_handshake`. -/
def forget (s : PeerSessions) (peer : Bytes) : PeerSessions :=
  { s with helloCache := s.helloCache.erase peer }

/-- `load_peer_pins`. -/
def loadPeerPins (s : PeerSessions) (pins : List (Bytes × Bytes)) : PeerSessions :=
  { s with
    pinnedPeerPubkeys :=
      putAll ∅ (pins.filter (fun entry => !entry.1.isEmpty && !entry.2.isEmpty)) }

/-- The sessions of a node that was just started, with the pins that it stored. -/
def started (peers : PeerNetwork) (pins : List (Bytes × Bytes)) : PeerSessions :=
  (initial peers).loadPeerPins pins

/-! ### Runs -/

/-- What happens to the state between two droppings of the lock. The table of peers has other users. -/
inductive Event
  | inbound (own : OwnIdentity) (readings : Readings) (handler : Handler) (peer message : Bytes)
  | cached (now : UInt64) (peer : Bytes)
  | begin (peer : Bytes)
  | answer (own : OwnIdentity) (out : Outbound) (ts : UInt64) (isOnion : Bool) (now : Int)
      (answer : Option Bytes)
  | work (own : OwnIdentity) (out : Outbound) (answer : Bytes) (work : Option Bytes)
  | remember (own : OwnIdentity) (now : UInt64) (peer wireId : Bytes)
  | forget (peer : Bytes)
  | failed (peer : Bytes)
  | others (peers : PeerNetwork)

/-- The sessions after an event. -/
def step (s : PeerSessions) : Event → PeerSessions
  | .inbound own readings handler peer message =>
    (s.handleInboundMessage P own readings handler peer message).2
  | .cached now peer => (s.cached now peer).2
  | .begin peer => s.setOutbound peer false
  | .answer own out ts isOnion now answer => (s.takeAnswer P own out ts isOnion now answer).2
  | .work own out answer work => (s.takeWork own out answer work).2
  | .remember own now peer wireId => s.remember own now peer wireId
  | .forget peer => s.forget peer
  | .failed peer => s.setOutbound peer false
  | .others peers => s.withPeers peers

/-- The sessions after a list of events. -/
def reached (start : PeerSessions) (events : List Event) : PeerSessions := events.foldl (step P) start

end PeerSessions

end Addition
