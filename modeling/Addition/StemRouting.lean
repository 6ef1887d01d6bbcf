import Addition.DecentralizedNode
import Addition.Foundations.Listings
import Addition.Foundations.Runs

/-!
# The stem phase of transactions

With Dandelion on, a transaction first goes along a stem, from node to node over relays that each node
picks for an epoch. A node that sent a transaction on holds it under an embargo. It spreads it itself
when the relay could not be reached, when somebody else has spread it, or when the embargo ends.

Random draws and readings of the clock are given with the calls; seconds are integers. The lock on the
state is dropped while a relay is reached, so a flush begins in one event and ends one line at a time.
-/

namespace Addition

open ByteStrings Checked FiniteTables

/-! ### The router -/

/-- `DandelionRouter`. No relay is picked before the first call. -/
structure DandelionRouter where
  epochSeconds : Int
  positive : 0 < epochSeconds
  embargoBaseSeconds : Int
  embargoJitterSeconds : Int
  epoch : UInt64
  diffuser : Bool
  relays : List Bytes
  sourceToRelay : Table Bytes Bytes
  embargoUntil : Table Bytes Int

namespace DandelionRouter

/-- The router before its first epoch, with its intervals put in order. -/
def new (epochSeconds base jitter : Int) : DandelionRouter where
  epochSeconds := if 0 < epochSeconds then epochSeconds else 600
  positive := by split <;> omega
  embargoBaseSeconds := base
  embargoJitterSeconds := jitter
  epoch := 18446744073709551615
  diffuser := false
  relays := []
  sourceToRelay := ∅
  embargoUntil := ∅

/-- What is drawn in a call of `route`: the coin of a new epoch, the shuffle of the relays, and a number
that picks among the candidates. -/
structure Draws where
  coin : Bool
  shuffle : List Bytes → List Bytes
  isShuffle : ∀ pool, (shuffle pool).Perm pool
  pick : Nat

/-- The epoch of a time. -/
def epochAt (router : DandelionRouter) (now : Int) : UInt64 := UInt64.ofInt (now.tdiv router.epochSeconds)

/-- A relay is not among the peers any more. -/
def stale (router : DandelionRouter) (outbound : List Bytes) : Bool :=
  router.relays.any (fun relay => decide (relay ∉ outbound))

/-- `maybe_new_epoch`. -/
def maybeNewEpoch (router : DandelionRouter) (now : Int) (draws : Draws) (outbound : List Bytes) :
    DandelionRouter :=
  if router.epochAt now = router.epoch ∧ router.stale outbound = false ∧
      ¬ (router.relays = [] ∧ outbound ≠ []) then router
  else
    { router with
      diffuser := if router.epochAt now = router.epoch then router.diffuser else draws.coin
      epoch := router.epochAt now
      relays := (draws.shuffle (outbound.mergeSort (fun left right => decide (left ≤ right)))).take 2
      sourceToRelay := ∅ }

/-- A relay among candidates. -/
def picked (pick : Nat) (first : Bytes) (others : List Bytes) : Bytes :=
  (first :: others).get ⟨pick % (others.length + 1), Nat.mod_lt _ (Nat.succ_pos _)⟩

/-- The key of local transactions, and of those of a peer. -/
def localKey : Bytes := 1 :: ascii "local"

/-- The name under which a source has its relay. -/
def sourceKey (source : Bytes) : Bytes := if source.isEmpty then localKey else source

/-- Keep the relay of a source. -/
def assign (router : DandelionRouter) (source relay : Bytes) : DandelionRouter :=
  { router with sourceToRelay := router.sourceToRelay.insert (sourceKey source) relay }

/-- The relay of a source that has these candidates. -/
def relayOf (router : DandelionRouter) (pick : Nat) (source first : Bytes) (others : List Bytes) :
    Bytes × DandelionRouter :=
  match router.sourceToRelay.lookup (sourceKey source) with
  | some relay =>
    if relay ∈ first :: others then (relay, router)
    else (picked pick first others, router.assign source (picked pick first others))
  | none => (picked pick first others, router.assign source (picked pick first others))

/-- `route`: the relay, or none where the transaction is to be spread. The empty text is the source of
local transactions. -/
def route (router : DandelionRouter) (now : Int) (draws : Draws) (source : Bytes)
    (outbound : List Bytes) : Option Bytes × DandelionRouter :=
  let current := router.maybeNewEpoch now draws outbound
  if source ≠ [] ∧ current.diffuser = true then (none, current)
  else
    match current.relays.filter (fun relay => decide (relay ≠ source)) with
    | [] => (none, current)
    | first :: others =>
      let (relay, left) := current.relayOf draws.pick source first others
      (some relay, left)

/-- The time that is added to an embargo. -/
def jitter (router : DandelionRouter) (draw : Nat) : Int :=
  (draw % ((max 0 router.embargoJitterSeconds).toNat + 1) : Nat)

/-- `embargo`. -/
def embargo (router : DandelionRouter) (now : Int) (draw : Nat) (txid : Bytes) : DandelionRouter :=
  if (router.embargoUntil.lookup txid).isSome then router
  else
    { router with
      embargoUntil :=
        router.embargoUntil.insert txid (now + router.embargoBaseSeconds + router.jitter draw) }

/-- `mark_fluffed`. -/
def markFluffed (router : DandelionRouter) (txid : Bytes) : DandelionRouter :=
  { router with embargoUntil := router.embargoUntil.erase txid }

/-- The identifiers whose embargo has ended, in order. -/
def expired (router : DandelionRouter) (now : Int) : List Bytes :=
  ((router.embargoUntil.entries.filter (fun entry => decide (entry.2 ≤ now))).map Sigma.fst).mergeSort
    (fun left right => decide (left ≤ right))

/-- `expired_embargoes`. -/
def expiredEmbargoes (router : DandelionRouter) (now : Int) : List Bytes × DandelionRouter :=
  (router.expired now,
    { router with embargoUntil := keep router.embargoUntil (fun _ time => decide (now < time)) })

end DandelionRouter

/-! ### The node -/

/-- The node with its router, the transactions that it holds, the lines for its relays, and the lines
that a flush has taken and not sent yet. A line is kept as what it carries. -/
structure StemNode where
  node : DecentralizedNode
  router : DandelionRouter
  stempool : Table Bytes Transaction
  stemOutbound : List (Bytes × Transaction)
  sending : List (Bytes × Transaction)
  dandelion : Bool

namespace StemNode

/-- Stem transactions that are kept at most. -/
def kMaxStempool : Nat := 5000

/-- A node without stem transactions. -/
def new (node : DecentralizedNode) (router : DandelionRouter) : StemNode := ⟨node, router, ∅, [], [], false⟩

variable (P : Primitives)

/-- What is read and drawn in a call that stems a transaction: the clock for the route and for the
embargo, the peers, and the draws. -/
structure Stemming where
  routes : Int
  embargoes : Int
  peers : List Bytes
  draws : DandelionRouter.Draws
  jitter : Nat

/-- The router is replaced. -/
def withRouter (s : StemNode) (router : DandelionRouter) : StemNode := { s with router := router }

/-- `fluff_transaction`. -/
def fluff (s : StemNode) (tx : Transaction) : Except String Unit × StemNode :=
  ((s.node.fluffTransaction P tx).1, { s with node := (s.node.fluffTransaction P tx).2 })

/-- Neither hold a transaction nor wait for it any more. -/
def release (s : StemNode) (txid : Bytes) : StemNode :=
  { s with
    stempool := s.stempool.erase txid
    router := s.router.markFluffed txid }

/-- Hold a transaction and send it to a relay. -/
def hold (s : StemNode) (call : Stemming) (relay : Bytes) (tx : Transaction) : StemNode :=
  { s with
    stempool := s.stempool.insert (hashTransaction P tx) tx
    router := s.router.embargo call.embargoes call.jitter (hashTransaction P tx)
    stemOutbound := s.stemOutbound ++ [(relay, tx)] }

/-- `stem_transaction`. -/
def stemTransaction (s : StemNode) (call : Stemming) (source : Bytes) (tx : Transaction) :
    Except String Unit × StemNode :=
  match validateTransaction P s.node.chain tx true with
  | .error refusal => (.error refusal, s)
  | .ok _ =>
    let txid := hashTransaction P tx
    if txid ∈ s.node.seenTxids ∨ (s.stempool.lookup txid).isSome then (.ok (), s)
    else
      let (decision, router) := s.router.route call.routes call.draws source call.peers
      let routed := s.withRouter router
      match decision with
      | none => (routed.withRouter (router.markFluffed txid)).fluff P tx
      | some relay =>
        if kMaxStempool ≤ s.stempool.entries.length then
          (routed.withRouter (router.markFluffed txid)).fluff P tx
        else (.ok (), routed.hold P call relay tx)

/-- `submit_transaction` when the source is empty, and the handling of `STEM`. -/
def submit (s : StemNode) (call : Stemming) (source : Bytes) (tx : Transaction) :
    Except String Unit × StemNode :=
  if s.dandelion then s.stemTransaction P call source tx else s.fluff P tx

/-- The handling of `TX`. -/
def receiveTx (s : StemNode) (tx : Transaction) : Except String Unit × StemNode :=
  (s.release (hashTransaction P tx)).fluff P tx

/-- Spread what is held under an identifier. -/
def spread (s : StemNode) (txid : Bytes) : StemNode :=
  match s.stempool.lookup txid with
  | none => s
  | some tx => ({ s with stempool := s.stempool.erase txid }.fluff P tx).2

/-- The part of `flush_stem` in front of the sending. -/
def beginFlush (s : StemNode) (now : Int) : StemNode :=
  let (txids, router) := s.router.expiredEmbargoes now
  let left := txids.foldl (spread P) (s.withRouter router)
  { left with
    sending := left.sending ++ left.stemOutbound
    stemOutbound := [] }

/-- A line was sent. -/
def sent (s : StemNode) (position : Nat) : StemNode := { s with sending := s.sending.eraseIdx position }

/-- The relay of a line was not reached, or refused it; the transaction is what the line is read as, if
it is read. -/
def unreachable (s : StemNode) (position : Nat) (decoded : Option Transaction) : StemNode :=
  match decoded with
  | none => s.sent position
  | some tx => (((s.sent position).release (hashTransaction P tx)).fluff P tx).2

/-! ### Runs -/

/-- The events of the node that spread a transaction. -/
def isFluff : DecentralizedNode.Event → Bool
  | .fluffTransaction _ => true
  | _ => false

/-- What happens to a node. Its other events spread no transaction. -/
inductive Event
  | setDandelion (enabled : Bool)
  | submit (call : Stemming) (source : Bytes) (tx : Transaction)
  | receiveTx (tx : Transaction)
  | beginFlush (now : Int)
  | sent (position : Nat)
  | unreachable (position : Nat) (decoded : Option Transaction)
  | other (event : DecentralizedNode.Event) (noFluff : isFluff event = false)

variable (sign : DecentralizedNode.SignMessage) (sort : List Transaction → List Transaction)

/-- The node after an event. -/
def step (s : StemNode) : Event → StemNode
  | .setDandelion enabled => { s with dandelion := enabled }
  | .submit call source tx => (s.submit P call source tx).2
  | .receiveTx tx => (s.receiveTx P tx).2
  | .beginFlush now => s.beginFlush P now
  | .sent position => s.sent position
  | .unreachable position decoded => s.unreachable P position decoded
  | .other event _ => { s with node := s.node.step P sign sort event }

/-- The node after a list of events. -/
def reached (start : StemNode) (events : List Event) : StemNode := events.foldl (step P sign sort) start

/-! ### Pushing -/

/-- Add a pending transaction to the messages, unless 32 were added, it is held, or it is there. -/
def rebroadcast (s : StemNode) (state : List Gossip × Nat) (tx : Transaction) : List Gossip × Nat :=
  if 32 ≤ state.2 ∨ (s.stempool.lookup (hashTransaction P tx)).isSome ∨ Gossip.tx tx ∈ state.1 then state
  else (state.1 ++ [.tx tx], state.2 + 1)

/-- The messages of a round of `flush_outbound_gossip`. -/
def pushed (s : StemNode) : List Gossip :=
  (s.node.mempool.pending.foldl (s.rebroadcast P) (s.node.outbound, 0)).1

end StemNode

end Addition
