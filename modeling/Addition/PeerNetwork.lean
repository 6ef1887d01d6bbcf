import Addition.Foundations.ByteStrings
import Addition.Foundations.FiniteTables
import Addition.Foundations.Runs

/-!
# The table of peers

A node keeps the endpoints that it talks to, with a score, and apart from them the candidates
that it only heard of. A full table loses its lowest peer that is no seed. Misbehaviour lowers the
score, and at the bound the peer is banned for a time; a seed is only left alone for a minute.

Times and ban times are integers: the source leaves a sum past 64 bits undefined.
-/

namespace Addition

open ByteStrings FiniteTables Runs

/-! ### The table -/

namespace PeerNetwork

/-- The best score. -/
def kMaxScore : Int := 100

/-- The worst score. -/
def kMinScore : Int := -10

/-- The score at which a peer is banned. -/
def kBanScore : Int := -5

end PeerNetwork

/-- The peers are in an order in which the source may meet them. -/
structure PeerNetwork where
  peers : List Bytes
  score : Table Bytes Int
  banned : Table Bytes Int
  backoff : Table Bytes Int
  seeds : Finset Bytes
  candidates : Finset Bytes
  softBanned : Finset Bytes
  maxPeers : Nat
  maxCandidates : Nat
  banSeconds : Int

namespace PeerNetwork

/-- A table without peers. -/
def initial : PeerNetwork := ⟨[], ∅, ∅, ∅, ∅, ∅, ∅, 125, 1000, 3600⟩

/-- `set_limits`. -/
def setLimits (net : PeerNetwork) (maxPeers maxCandidates : Nat) (banSeconds : Int) : PeerNetwork :=
  { net with
    maxPeers := if 0 < maxPeers then maxPeers else 1
    maxCandidates := maxCandidates
    banSeconds := if 0 < banSeconds then banSeconds else 1 }

/-- `banned_locked`. -/
def isBanned (net : PeerNetwork) (now : Int) (endpoint : Bytes) : Bool :=
  (net.banned.lookup endpoint).any (fun expiry => decide (now < expiry))

/-- `score`. -/
def scoreOf (net : PeerNetwork) (endpoint : Bytes) : Int := (net.score.lookup endpoint).getD 0

/-! ### Changes of one container -/

/-- The score of an endpoint is replaced. -/
def setScore (net : PeerNetwork) (endpoint : Bytes) (score : Int) : PeerNetwork :=
  { net with score := net.score.insert endpoint score }

/-- The score of an endpoint is forgotten. -/
def dropScore (net : PeerNetwork) (endpoint : Bytes) : PeerNetwork :=
  { net with score := net.score.erase endpoint }

/-- A score of 0 for an endpoint that has none. -/
def tryScore (net : PeerNetwork) (endpoint : Bytes) : PeerNetwork :=
  if (net.score.lookup endpoint).isSome then net else net.setScore endpoint 0

/-- An endpoint is banned until a time. -/
def ban (net : PeerNetwork) (endpoint : Bytes) (expiry : Int) : PeerNetwork :=
  { net with banned := net.banned.insert endpoint expiry }

/-- A ban is lifted. -/
def unban (net : PeerNetwork) (endpoint : Bytes) : PeerNetwork :=
  { net with banned := net.banned.erase endpoint }

/-- A soft ban is no longer one. -/
def harden (net : PeerNetwork) (endpoint : Bytes) : PeerNetwork :=
  { net with softBanned := net.softBanned.erase endpoint }

/-- An endpoint is not tried before a time. -/
def backOff (net : PeerNetwork) (endpoint : Bytes) (retry : Int) : PeerNetwork :=
  { net with backoff := net.backoff.insert endpoint retry }

/-- An endpoint may be tried again. -/
def resume (net : PeerNetwork) (endpoint : Bytes) : PeerNetwork :=
  { net with backoff := net.backoff.erase endpoint }

/-- A peer is put behind the others. -/
def join (net : PeerNetwork) (endpoint : Bytes) : PeerNetwork :=
  { net with peers := net.peers ++ [endpoint] }

/-- A peer is taken out. -/
def leave (net : PeerNetwork) (endpoint : Bytes) : PeerNetwork :=
  { net with peers := net.peers.erase endpoint }

/-- An endpoint becomes a seed. -/
def seed (net : PeerNetwork) (endpoint : Bytes) : PeerNetwork :=
  { net with seeds := insert endpoint net.seeds }

/-- An endpoint becomes a candidate. -/
def list (net : PeerNetwork) (endpoint : Bytes) : PeerNetwork :=
  { net with candidates := insert endpoint net.candidates }

/-- An endpoint is no candidate any longer. -/
def unlist (net : PeerNetwork) (endpoint : Bytes) : PeerNetwork :=
  { net with candidates := net.candidates.erase endpoint }

/-! ### Eviction -/

/-- The lower one of the victim so far and the next peer. Seeds are passed over. -/
def lower (net : PeerNetwork) (found : Bytes × Int) (peer : Bytes) : Bytes × Int :=
  if peer ∈ net.seeds then found
  else if net.scoreOf peer < found.2 ∨ net.scoreOf peer = found.2 ∧ peer < found.1 then
    (peer, net.scoreOf peer)
  else found

/-- The peer to leave next; the empty text stands for none. -/
def victim (net : PeerNetwork) : Bytes := (net.peers.foldl net.lower ([], kMaxScore + 1)).1

/-- At most so many rounds of the loop of `evict_if_full_locked`. -/
def evictRounds : Nat → PeerNetwork → PeerNetwork
  | 0, net => net
  | rounds + 1, net =>
    if net.peers.length < net.maxPeers then net
    else if net.victim.isEmpty then net
    else evictRounds rounds ((net.leave net.victim).dropScore net.victim)

/-- `evict_if_full_locked`. A round takes a peer away, so there are no more rounds than peers. -/
def evictIfFull (net : PeerNetwork) : PeerNetwork := evictRounds net.peers.length net

/-! ### Joining -/

/-- `add_peer`. -/
def addPeer (net : PeerNetwork) (now : Int) (endpoint : Bytes) : Bool × PeerNetwork :=
  if endpoint.isEmpty then (false, net)
  else if net.isBanned now endpoint then (false, net)
  else if endpoint ∈ (net.unban endpoint).peers then (false, net.unban endpoint)
  else
    let evicted := (net.unban endpoint).evictIfFull
    if evicted.maxPeers ≤ evicted.peers.length then (false, evicted)
    else (true, ((evicted.tryScore endpoint).unlist endpoint).join endpoint)

/-- `add_seed`. -/
def addSeed (net : PeerNetwork) (endpoint : Bytes) : Bool × PeerNetwork :=
  if endpoint.isEmpty then (false, net)
  else
    let seeded := (net.seed endpoint).unban endpoint
    if endpoint ∈ seeded.peers then (false, seeded)
    else (true, (seeded.tryScore endpoint).join endpoint)

/-- `add_candidate`. -/
def addCandidate (net : PeerNetwork) (now : Int) (endpoint : Bytes) : Bool × PeerNetwork :=
  if endpoint.isEmpty ∨ endpoint ∈ net.peers ∨ net.isBanned now endpoint = true then (false, net)
  else if net.maxCandidates ≤ net.candidates.card then (false, net)
  else (decide (endpoint ∉ net.candidates), net.list endpoint)

/-- `promote_candidate`. -/
def promoteCandidate (net : PeerNetwork) (now : Int) (endpoint : Bytes) : Bool × PeerNetwork :=
  if endpoint ∉ net.candidates then (false, net) else (net.unlist endpoint).addPeer now endpoint

/-- `remove_candidate`. -/
def removeCandidate (net : PeerNetwork) (endpoint : Bytes) : Bool × PeerNetwork :=
  (decide (endpoint ∈ net.candidates), net.unlist endpoint)

/-- `readmit_authenticated`. -/
def readmitAuthenticated (net : PeerNetwork) (now : Int) (endpoint : Bytes) : PeerNetwork :=
  let resumed := net.resume endpoint
  let hardened :=
    if endpoint ∈ resumed.softBanned then (resumed.harden endpoint).unban endpoint else resumed
  if hardened.isBanned now endpoint then hardened
  else
    let free := hardened.unban endpoint
    let joined :=
      if endpoint ∉ free.peers ∧ free.peers.length < free.maxPeers then free.join endpoint else free
    joined.setScore endpoint (max 0 (joined.scoreOf endpoint))

/-! ### Leaving -/

/-- `remove_peer`. -/
def removePeer (net : PeerNetwork) (endpoint : Bytes) : Bool × PeerNetwork :=
  (decide (endpoint ∈ net.peers), net.leave endpoint)

/-- `mark_peer_good`. -/
def markPeerGood (net : PeerNetwork) (endpoint : Bytes) : PeerNetwork :=
  if endpoint ∉ net.peers then net
  else (net.setScore endpoint (min kMaxScore (net.scoreOf endpoint + 1))).resume endpoint

/-- `mark_peer_bad`. -/
def markPeerBad (net : PeerNetwork) (now : Int) (endpoint : Bytes) : PeerNetwork :=
  if endpoint ∉ net.peers then net
  else
    let score := max kMinScore (net.scoreOf endpoint - 1)
    if kBanScore < score then net.setScore endpoint score
    else if endpoint ∈ net.seeds then
      (net.backOff endpoint (now + 60)).setScore endpoint (kBanScore + 2)
    else
      (((net.ban endpoint (now + net.banSeconds)).harden endpoint).leave endpoint).dropScore endpoint

/-- `mark_peer_unreachable`. -/
def markPeerUnreachable (net : PeerNetwork) (now : Int) (endpoint : Bytes) : PeerNetwork :=
  if endpoint ∉ net.peers then net
  else
    let score := max kMinScore (net.scoreOf endpoint - 1)
    if score ≤ kBanScore then (net.backOff endpoint (now + 60)).setScore endpoint (kBanScore + 1)
    else net.setScore endpoint score

/-! ### Runs -/

/-- The operations of the table. -/
inductive Operation
  | addPeer (endpoint : Bytes)
  | addSeed (endpoint : Bytes)
  | addCandidate (endpoint : Bytes)
  | promoteCandidate (endpoint : Bytes)
  | removeCandidate (endpoint : Bytes)
  | removePeer (endpoint : Bytes)
  | markPeerGood (endpoint : Bytes)
  | markPeerBad (endpoint : Bytes)
  | markPeerUnreachable (endpoint : Bytes)
  | readmitAuthenticated (endpoint : Bytes)

/-- An operation and what `now_locked` returns in it. -/
structure Event where
  now : Int
  operation : Operation

/-- The table after an event. -/
def step (net : PeerNetwork) (event : Event) : PeerNetwork :=
  match event.operation with
  | .addPeer endpoint => (net.addPeer event.now endpoint).2
  | .addSeed endpoint => (net.addSeed endpoint).2
  | .addCandidate endpoint => (net.addCandidate event.now endpoint).2
  | .promoteCandidate endpoint => (net.promoteCandidate event.now endpoint).2
  | .removeCandidate endpoint => (net.removeCandidate endpoint).2
  | .removePeer endpoint => (net.removePeer endpoint).2
  | .markPeerGood endpoint => net.markPeerGood endpoint
  | .markPeerBad endpoint => net.markPeerBad event.now endpoint
  | .markPeerUnreachable endpoint => net.markPeerUnreachable event.now endpoint
  | .readmitAuthenticated endpoint => net.readmitAuthenticated event.now endpoint

/-- A new table with its limits. -/
def limited (maxPeers maxCandidates : Nat) (banSeconds : Int) : PeerNetwork :=
  initial.setLimits maxPeers maxCandidates banSeconds

/-- The table after a list of events. -/
def reached (start : PeerNetwork) (events : List Event) : PeerNetwork := events.foldl step start

end PeerNetwork

end Addition
