import Addition.StemRelays
import Addition.Submissions

/-!
# The stem phase along runs

A transaction is held exactly as long as its embargo, so every transaction that a relay has lost is
spread by the node itself: what a flush leaves in the stempool was stemmed less than an embargo ago.
While Dandelion is on, no message of a round of gossip carries a transaction that is still held.
-/

namespace Addition

open ByteStrings Checked FiniteTables KeyIndexes Runs

/-! ### What other events announce -/

namespace DecentralizedNode

variable {P : Primitives} {sign : SignMessage} {sort : List Transaction → List Transaction}

/-- No transaction is announced that was not announced before, and none that was seen is forgotten. -/
structure NoSpread (node reached : DecentralizedNode) : Prop where
  announced : ∀ tx, Gossip.tx tx ∈ reached.outbound → Gossip.tx tx ∈ node.outbound
  seen : node.seenTxids ⊆ reached.seenTxids

theorem NoSpread.refl (node : DecentralizedNode) : NoSpread node node :=
  ⟨fun _ here => here, Finset.Subset.refl _⟩

theorem NoSpread.trans {first second third : DecentralizedNode} (left : NoSpread first second)
    (right : NoSpread second third) : NoSpread first third :=
  ⟨fun tx here => left.announced tx (right.announced tx here), left.seen.trans right.seen⟩

variable {node : DecentralizedNode} {tx : Transaction}

/-- Votes and blocks are announced besides. -/
theorem NoSpread.announce {reached : DecentralizedNode} (spread : NoSpread node reached)
    (messages : List Gossip) (others : ∀ tx, Gossip.tx tx ∉ messages) {left : DecentralizedNode}
    (outbound : left.outbound = reached.outbound ++ messages) (seen : left.seenTxids = reached.seenTxids) :
    NoSpread node left where
  announced := by
    intro tx here
    rw [outbound, List.mem_append] at here
    exact spread.announced tx (here.resolve_right (others tx))
  seen := seen ▸ spread.seen

theorem observe_noSpread (node : DecentralizedNode) (vote : StakeVote) :
    NoSpread node (node.observeVoteForEquivocation P vote).2 := by
  have same := NoSpread.refl node
  unfold observeVoteForEquivocation
  split
  · exact same
  dsimp only
  split
  · exact ⟨same.announced, same.seen⟩
  split
  · exact ⟨same.announced, same.seen⟩
  split
  · exact ⟨same.announced, same.seen⟩
  split
  · exact ⟨same.announced, same.seen⟩
  · exact same.announce [_, _] (by simp) rfl rfl

theorem observeVotes_noSpread (votes : List StakeVote) (node : DecentralizedNode) :
    NoSpread node (node.observeVotes P votes) := by
  induction votes generalizing node with
  | nil => exact .refl node
  | cons vote rest ih =>
    exact (observe_noSpread node vote).trans (ih _)

theorem submitStakeVote_noSpread (node : DecentralizedNode) (vote : StakeVote) :
    NoSpread node (node.submitStakeVote P vote).2 := by
  have pruned : NoSpread node node.pruneVotePool := ⟨fun _ here => here, Finset.Subset.refl _⟩
  have observed := pruned.trans (@observe_noSpread P _ vote)
  unfold submitStakeVote
  split
  · rename_i same
    rwa [same] at observed
  rename_i reached same
  rw [same] at observed
  split
  · exact observed
  split
  · exact observed
  split
  · exact observed
  split
  · exact observed
  · exact observed.announce [_] (by simp) rfl rfl

theorem refreshVote_noSpread (tip : UInt64) (tipHash : Bytes) (state : Nat × DecentralizedNode)
    (id : Bytes) : NoSpread state.2 (refreshVote P sign tip tipHash state id).2 := by
  rcases @refreshVote_cases P sign tip tipHash state id with
    same | ⟨known, announced⟩ | ⟨_, _, _, _, _, _, _, submitted⟩
  · rw [same]
    exact .refl _
  · rw [announced]
    exact (NoSpread.refl state.2).announce [_] (by simp) rfl rfl
  · rw [submitted]
    refine .trans ?_ (submitStakeVote_noSpread _ _)
    exact ⟨fun _ here => here, Finset.Subset.refl _⟩

theorem refreshLocalVotes_noSpread (node : DecentralizedNode) :
    NoSpread node (node.refreshLocalVotes P sign).2 :=
  refreshLocalVotes_carries (NoSpread node) node (.refl node)
    (fun _ _ _ id same _ _ => same.trans (refreshVote_noSpread _ _ _ id))

theorem voteSource_noSpread (node : DecentralizedNode) : NoSpread node (node.voteSource P sign) := by
  unfold voteSource
  split
  · exact refreshLocalVotes_noSpread node
  · exact .refl node

/-- Only the fluffing of a transaction spreads one. -/
theorem step_noSpread (node : DecentralizedNode) (event : Event) (noFluff : StemNode.isFluff event = false) :
    NoSpread node (node.step P sign sort event) := by
  have same := NoSpread.refl node
  cases event with
  | restorePool txs => exact ⟨same.announced, same.seen⟩
  | fluffTransaction tx => exact absurd noFluff (by simp [StemNode.isFluff])
  | ingestBlock now block =>
    rw [step]
    unfold ingestBlock
    dsimp only
    split
    · exact same
    have observed := @observeVotes_noSpread P block.votes node
    split
    · exact ⟨observed.announced, observed.seen⟩
    · refine .trans ?_ (refreshLocalVotes_noSpread _)
      exact observed.announce [.block block] (by simp) rfl rfl
  | adoptChain clock candidate =>
    rw [step]
    unfold adoptChain
    split
    · exact ⟨same.announced, same.seen⟩
    · exact ⟨same.announced, Finset.subset_union_left⟩
  | announceTip =>
    rw [step]
    unfold announceTip
    split
    · exact same
    · refine ⟨fun tx here => ?_, Finset.subset_union_left⟩
      have there : Gossip.tx tx ∈ node.outbound ++ [Gossip.block node.chain.tip] := here
      simpa using there
  | submitStakeVote vote => exact submitStakeVote_noSpread node vote
  | refreshLocalVotes => exact refreshLocalVotes_noSpread node
  | setAutoVoteKey address key => exact ⟨same.announced, same.seen⟩
  | clearAutoVoteKey address => exact ⟨same.announced, same.seen⟩
  | beginMining call =>
    have asked := @voteSource_noSpread P sign node
    exact ⟨asked.announced, asked.seen⟩
  | endMining now position outcome =>
    rw [step]
    unfold endMining
    split
    · exact same
    · exact ⟨same.announced, same.seen⟩
  | pullOutbound => exact ⟨fun tx here => absurd here List.not_mem_nil, same.seen⟩

/-! ### What stays refused -/

/-- Nothing is taken out of the sets of a pool. -/
structure Grows (pool left : Mempool) : Prop where
  txids : pool.txids ⊆ left.txids
  nonces : pool.signerNonces ⊆ left.signerNonces
  reserved : pool.reservedOutpoints ⊆ left.reservedOutpoints

theorem Grows.fresh {pool left : Mempool} (grows : Grows pool left)
    (fresh : Fresh P left tx) : Fresh P pool tx where
  txid := fun known => fresh.txid (grows.txids known)
  nonce := fun key own known => fresh.nonce key own (grows.nonces known)
  reserved := fun key own known => fresh.reserved key own (grows.reserved known)

theorem submit_grows (pool : Mempool) (tx : Transaction) : Grows pool (pool.submit P tx).2 := by
  have same : Grows pool pool :=
    ⟨Finset.Subset.refl _, Finset.Subset.refl _, Finset.Subset.refl _⟩
  unfold Mempool.submit
  split
  · exact same
  split
  · exact same
  rename_i txid
  dsimp only
  split
  · exact ⟨(Finset.erase_insert txid).symm.subset, same.nonces, same.reserved⟩
  rename_i noncesFree
  have nonce : ∀ key ∈ nonceKeys tx, key ∉ pool.signerNonces := by simpa using noncesFree
  split
  · refine ⟨(Finset.erase_insert txid).symm.subset, ?_, same.reserved⟩
    intro key known
    rw [mem_eraseKeys, mem_insertKeys]
    exact ⟨.inl known, fun own => nonce key own known⟩
  · constructor
    · exact Finset.subset_insert _ _
    · exact fun key known => (mem_insertKeys _ _ _).mpr (.inl known)
    · exact fun key known => (mem_insertKeys _ _ _).mpr (.inl known)

theorem submit_refused (pool : Mempool) (tx : Transaction) (refused : (pool.submit P tx).1 = false) :
    ¬ (looksSpendable tx = true ∧ Fresh P pool tx) := by
  rintro ⟨spendable, fresh⟩
  rw [submit_fresh pool tx spendable fresh] at refused
  exact absurd refused (by simp)

theorem submit_accepted (pool : Mempool) (tx : Transaction) (accepted : (pool.submit P tx).1 = true) :
    looksSpendable tx = true ∧ Fresh P pool tx := by
  unfold Mempool.submit at accepted
  split at accepted
  · exact absurd accepted (by simp)
  rename_i spendable
  split at accepted
  · exact absurd accepted (by simp)
  rename_i txid
  dsimp only at accepted
  split at accepted
  · exact absurd accepted (by simp)
  rename_i nonces
  split at accepted
  · exact absurd accepted (by simp)
  rename_i reserved
  exact ⟨by simpa using spendable, txid, by simpa using nonces, by simpa using reserved⟩

/-- A transaction was seen, or it is refused. -/
def Resolved (P : Primitives) (node : DecentralizedNode) (tx : Transaction) : Prop :=
  hashTransaction P tx ∈ node.seenTxids ∨ ∃ refusal, (node.fluffTransaction P tx).1 = .error refusal

/-- A transaction is resolved when it was seen, is invalid or does not enter the pool. -/
theorem resolved_iff (node : DecentralizedNode) (tx : Transaction) : Resolved P node tx ↔
    hashTransaction P tx ∈ node.seenTxids ∨
      (∃ refusal, validateTransaction P node.chain tx true = .error refusal) ∨
      ¬ (looksSpendable tx = true ∧ Fresh P node.mempool tx) := by
  unfold Resolved fluffTransaction
  cases valid : validateTransaction P node.chain tx true with
  | error refusal => simp
  | ok _ =>
    by_cases seen : hashTransaction P tx ∈ node.seenTxids
    · simp [seen]
    · cases outcome : node.mempool.submit P tx with
      | mk accepted pool =>
        cases accepted with
        | false =>
          have refused := submit_refused node.mempool tx (by rw [outcome])
          simp [seen, refused]
        | true =>
          have fresh := submit_accepted node.mempool tx (by rw [outcome])
          simp [seen, fresh.1, fresh.2]

/-- What a call of `fluff_transaction` leaves, and what it adds. -/
structure Fluffed (P : Primitives) (node : DecentralizedNode) (tx : Transaction)
    (reached : DecentralizedNode) : Prop where
  chain : reached.chain = node.chain
  seen : node.seenTxids ⊆ reached.seenTxids
  pool : Grows node.mempool reached.mempool
  announced : reached.outbound = node.outbound ∨
    reached.outbound = node.outbound ++ [.tx tx] ∧ hashTransaction P tx ∉ node.seenTxids ∧
      hashTransaction P tx ∈ reached.seenTxids ∧ (node.fluffTransaction P tx).1 = .ok ()
  accepted : (node.fluffTransaction P tx).1 = .ok () → hashTransaction P tx ∉ node.seenTxids →
    .tx tx ∈ reached.outbound

/-- What fluffing a transaction leaves behind. -/
theorem fluffTransaction_spec (node : DecentralizedNode) (tx : Transaction) :
    Fluffed P node tx (node.fluffTransaction P tx).2 := by
  have pool : Grows node.mempool node.mempool :=
    ⟨Finset.Subset.refl _, Finset.Subset.refl _, Finset.Subset.refl _⟩
  have grows := @submit_grows P node.mempool tx
  unfold fluffTransaction
  cases valid : validateTransaction P node.chain tx true with
  | error refusal =>
    exact ⟨rfl, Finset.Subset.refl _, pool, .inl rfl, by simp [fluffTransaction, valid]⟩
  | ok _ =>
    by_cases seen : hashTransaction P tx ∈ node.seenTxids
    · simp only [seen, ↓reduceIte]
      exact ⟨rfl, Finset.Subset.refl _, pool, .inl rfl, fun _ unseen => absurd seen unseen⟩
    · simp only [seen, ↓reduceIte]
      cases outcome : node.mempool.submit P tx with
      | mk accepted pool =>
        rw [outcome] at grows
        cases accepted with
        | false =>
          refine ⟨rfl, Finset.Subset.refl _, grows, .inl rfl, fun accepted => ?_⟩
          simp [fluffTransaction, valid, seen, outcome] at accepted
        | true =>
          refine ⟨rfl, Finset.subset_insert _ _, grows, .inr ⟨rfl, seen, ?_, ?_⟩, fun _ _ => ?_⟩
          · exact Finset.mem_insert_self _ _
          · simp [fluffTransaction, valid, seen, outcome]
          · exact List.mem_append_right _ (List.mem_singleton_self _)

/-- What is resolved stays resolved when another transaction is spread. -/
theorem Resolved.fluff (resolved : Resolved P node tx)
    (other : Transaction) : Resolved P (node.fluffTransaction P other).2 tx := by
  have spec := @fluffTransaction_spec P node other
  rw [resolved_iff] at resolved ⊢
  rcases resolved with seen | refused | taken
  · exact .inl (spec.seen seen)
  · exact .inr (.inl (spec.chain ▸ refused))
  · exact .inr (.inr fun fresh => taken ⟨fresh.1, spec.pool.fresh fresh.2⟩)

/-- A transaction that was spread is resolved. -/
theorem fluffTransaction_resolved (node : DecentralizedNode) (tx : Transaction) :
    Resolved P (node.fluffTransaction P tx).2 tx := by
  by_cases already : Resolved P node tx
  · exact already.fluff tx
  · rw [resolved_iff] at already
    push Not at already
    obtain ⟨unseen, valid, spendable, fresh⟩ := already
    unfold fluffTransaction
    cases accepted : validateTransaction P node.chain tx true with
    | error refusal => exact absurd accepted (valid refusal)
    | ok _ =>
      simp only [unseen, ↓reduceIte, submit_fresh node.mempool tx spendable fresh]
      exact .inl (Finset.mem_insert_self _ _)

end DecentralizedNode

/-! ### What a step does under an identifier -/

namespace StemNode

/-- Nothing changes, the transaction is released and with it its embargo, or a transaction that was not
held is stemmed. -/
inductive Change (P : Primitives) (s : StemNode) (event : Event) (left : StemNode) (txid : Bytes) : Prop
  | kept (stempool : left.stempool.lookup txid = s.stempool.lookup txid)
      (embargo : left.router.embargoUntil.lookup txid = s.router.embargoUntil.lookup txid)
  | released (stempool : left.stempool.lookup txid = none)
      (embargo : left.router.embargoUntil.lookup txid = none)
      (resolved : ∃ tx, hashTransaction P tx = txid ∧ left.node.Resolved P tx)
  | stemmed (call : Stemming) (source : Bytes) (tx : Transaction) (time : Int)
      (submits : event = .submit call source tx) (same : hashTransaction P tx = txid)
      (fresh : s.stempool.lookup txid = none) (stempool : left.stempool.lookup txid = some tx)
      (embargo : left.router.embargoUntil.lookup txid = some time)
      (bound : time ≤ call.embargoes + s.router.embargoBaseSeconds + max 0 s.router.embargoJitterSeconds)

variable {P : Primitives} {sign : DecentralizedNode.SignMessage}
  {sort : List Transaction → List Transaction}

/-- What is held is kept under its identifier, exactly as long as its embargo. -/
structure Held (P : Primitives) (s : StemNode) : Prop where
  keyed : ∀ txid tx, s.stempool.lookup txid = some tx → hashTransaction P tx = txid
  awaited : ∀ txid, s.stempool.lookup txid = none ↔ s.router.embargoUntil.lookup txid = none

variable {event : Event} {s : StemNode} {tx : Transaction} {left : StemNode}

/-- A transaction is neither held nor awaited, and is spread. -/
theorem change_fluff {released : StemNode} (stempool : ∀ txid, released.stempool.lookup txid =
      if txid = hashTransaction P tx then none else s.stempool.lookup txid)
    (embargo : ∀ txid, released.router.embargoUntil.lookup txid =
      if txid = hashTransaction P tx then none else s.router.embargoUntil.lookup txid) (txid : Bytes) :
    Change P s event (released.fluff P tx).2 txid := by
  have pool : (released.fluff P tx).2.stempool.lookup txid = _ := stempool txid
  have times : (released.fluff P tx).2.router.embargoUntil.lookup txid = _ := embargo txid
  by_cases same : txid = hashTransaction P tx
  · rw [if_pos same] at pool times
    exact .released pool times ⟨tx, same.symm, DecentralizedNode.fluffTransaction_resolved _ tx⟩
  · rw [if_neg same] at pool times
    exact .kept pool times

/-- A transaction that is released is fluffed. -/
theorem change_release (tx : Transaction) (txid : Bytes) :
    Change P s event ((s.release (hashTransaction P tx)).fluff P tx).2 txid :=
  change_fluff (fun txid => lookup_erase _ _ txid) (fun txid => lookup_erase _ _ txid) txid

/-- A transaction that is held gets an embargo. -/
theorem hold_change {routed : StemNode} (pool : routed.stempool = s.stempool)
    (same : s.router.SameEmbargoes routed.router)
    (absent : s.stempool.lookup (hashTransaction P tx) = none)
    (free : s.router.embargoUntil.lookup (hashTransaction P tx) = none) (call : Stemming)
    (source relay txid : Bytes) :
    Change P s (.submit call source tx) (routed.hold P call relay tx) txid := by
  have embargoed : (routed.hold P call relay tx).router.embargoUntil =
      s.router.embargoUntil.insert (hashTransaction P tx)
        (call.embargoes + routed.router.embargoBaseSeconds + routed.router.jitter call.jitter) := by
    show (routed.router.embargo _ _ _).embargoUntil = _
    unfold DandelionRouter.embargo
    rw [same.ends, free]
    rfl
  have stempool : (routed.hold P call relay tx).stempool =
      s.stempool.insert (hashTransaction P tx) tx := by
    rw [← pool]
    rfl
  by_cases own : txid = hashTransaction P tx
  · subst own
    refine .stemmed call source tx
      (call.embargoes + routed.router.embargoBaseSeconds + routed.router.jitter call.jitter) rfl rfl
      absent ?_ ?_ ?_
    · rw [stempool, lookup_insert, if_pos rfl]
    · rw [embargoed, lookup_insert, if_pos rfl]
    · have within := routed.router.jitter_le call.jitter
      rw [same.jitter] at within
      rw [same.base]
      omega
  · refine .kept ?_ ?_
    · rw [stempool, lookup_insert, if_neg own]
    · rw [embargoed, lookup_insert, if_neg own]

/-- A transaction that is routed is fluffed or held. -/
theorem stemTransaction_change (held : Held P s) (call : Stemming)
    (source : Bytes) (tx : Transaction) (submits : event = .submit call source tx) (txid : Bytes) :
    Change P s event (s.stemTransaction P call source tx).2 txid := by
  unfold stemTransaction
  split
  · exact .kept rfl rfl
  dsimp only
  split
  · exact .kept rfl rfl
  rename_i unknown
  push Not at unknown
  have absent : s.stempool.lookup (hashTransaction P tx) = none := by simpa using unknown.2
  have free := (held.awaited _).mp absent
  have routed := s.router.route_embargoes call.routes call.draws source call.peers
  -- nothing is held or awaited under the identifier, so it does not matter that it is marked
  have spread : Change P s event
      (((s.withRouter (s.router.route call.routes call.draws source call.peers).2).withRouter
        ((s.router.route call.routes call.draws source call.peers).2.markFluffed
          (hashTransaction P tx))).fluff P tx).2 txid := by
    refine change_fluff (fun txid => ?_) (fun txid => ?_) txid
    · show s.stempool.lookup txid = _
      split
      · rename_i same
        rw [same, absent]
      · rfl
    · refine (lookup_erase _ _ txid).trans ?_
      rw [routed.ends]
  split
  · exact spread
  split
  · exact spread
  · rename_i relay _ _
    subst submits
    exact @hold_change P s tx
      (s.withRouter (s.router.route call.routes call.draws source call.peers).2) rfl routed absent free
      call source relay txid

/-- Identifiers were released, and what was held under them was spread. -/
structure Spreads (P : Primitives) (s : StemNode) (txids : List Bytes) (left : StemNode) : Prop where
  router : left.router = s.router
  stempool : ∀ txid, left.stempool.lookup txid = if txid ∈ txids then none else s.stempool.lookup txid
  stays : ∀ tx, s.node.Resolved P tx → left.node.Resolved P tx
  gone : ∀ txid ∈ txids, ∀ tx, s.stempool.lookup txid = some tx → left.node.Resolved P tx

/-- An embargo that ended spreads its transaction. -/
theorem spread_spec (s : StemNode) (txid : Bytes) : Spreads P s [txid] (s.spread P txid) := by
  cases found : s.stempool.lookup txid with
  | none =>
    have same : s.spread P txid = s := by
      unfold spread
      rw [found]
    rw [same]
    refine ⟨rfl, fun other => ?_, fun _ here => here, fun other here tx held => ?_⟩
    · simp only [List.mem_singleton]
      split
      · rename_i own
        rw [own, found]
      · rfl
    · obtain rfl := List.mem_singleton.mp here
      exact absurd held (by simp [found])
  | some tx =>
    have spread : s.spread P txid = ({ s with stempool := s.stempool.erase txid }.fluff P tx).2 := by
      unfold spread
      rw [found]
    rw [spread]
    constructor
    · rfl
    · intro other
      simp only [List.mem_singleton]
      exact lookup_erase s.stempool txid other
    · exact fun _ here => here.fluff tx
    · intro other here held found'
      obtain rfl := List.mem_singleton.mp here
      obtain rfl := Option.some_inj.mp (found.symm.trans found')
      exact DecentralizedNode.fluffTransaction_resolved _ _

theorem Spreads.cons {first : Bytes} {rest : List Bytes} {middle : StemNode}
    (head : Spreads P s [first] middle) (tail : Spreads P middle rest left) :
    Spreads P s (first :: rest) left where
  router := tail.router.trans head.router
  stempool := by
    intro txid
    rw [tail.stempool, head.stempool]
    by_cases own : txid = first
    · simp [own]
    · simp [own]
  stays := fun tx here => tail.stays tx (head.stays tx here)
  gone := by
    intro txid member tx found
    by_cases own : txid = first
    · exact tail.stays tx (head.gone txid (by simp [own]) tx found)
    · refine tail.gone txid ((List.mem_cons.mp member).resolve_left own) tx ?_
      rw [head.stempool, if_neg (by simpa using own), found]

/-- All embargoes that ended spread theirs. -/
theorem spreadAll_spec (txids : List Bytes) (s : StemNode) :
    Spreads P s txids (txids.foldl (spread P) s) := by
  induction txids generalizing s with
  | nil => exact ⟨rfl, fun _ => rfl, fun _ here => here, fun _ here => absurd here (by simp)⟩
  | cons first rest ih => exact (spread_spec s first).cons (ih _)

/-- A flush releases what has expired, and nothing else. -/
theorem beginFlush_change (held : Held P s) (event : Event) (now : Int) (txid : Bytes) :
    Change P s event (s.beginFlush P now) txid := by
  obtain ⟨router, stempool, _, gone⟩ := @spreadAll_spec P (s.router.expired now)
    (s.withRouter (s.router.expiredEmbargoes now).2)
  have pool : (s.beginFlush P now).stempool.lookup txid = _ := stempool txid
  have times : (s.beginFlush P now).router.embargoUntil.lookup txid = _ :=
    (congrArg (fun router => router.embargoUntil.lookup txid) router).trans
      (s.router.expired_lookup now txid)
  by_cases expired : txid ∈ s.router.expired now
  · rw [if_pos expired] at pool times
    obtain ⟨time, awaited, -⟩ := (s.router.mem_expired now txid).mp expired
    cases found : s.stempool.lookup txid with
    | none => exact absurd ((held.awaited txid).mp found) (by simp [awaited])
    | some tx => exact .released pool times ⟨tx, held.keyed txid tx found, gone txid expired tx found⟩
  · rw [if_neg expired] at pool times
    exact .kept pool times

/-- An unreachable relay lets its transaction be fluffed. -/
theorem unreachable_change (event : Event) (position : Nat) (decoded : Option Transaction)
    (txid : Bytes) : Change P s event (s.unreachable P position decoded) txid := by
  cases decoded with
  | none => exact .kept rfl rfl
  | some tx =>
    exact change_fluff (fun txid => lookup_erase _ _ txid) (fun txid => lookup_erase _ _ txid) txid

/-- What a step does under an identifier. -/
theorem step_change (held : Held P s) (event : Event) (txid : Bytes) :
    Change P s event (s.step P sign sort event) txid := by
  cases event with
  | setDandelion enabled => exact .kept rfl rfl
  | submit call source tx =>
    rw [step, submit]
    split
    · exact stemTransaction_change held call source tx rfl txid
    · exact .kept rfl rfl
  | receiveTx tx => exact change_release tx txid
  | beginFlush now => exact beginFlush_change held _ now txid
  | sent position => exact .kept rfl rfl
  | unreachable position decoded => exact unreachable_change _ position decoded txid
  | other event noFluff => exact .kept rfl rfl

/-- Every event keeps the embargoes in step with the stem pool. -/
theorem Held.step (held : Held P s) (event : Event) :
    Held P (s.step P sign sort event) where
  keyed := by
    intro txid tx found
    cases @step_change P sign sort s held event txid with
    | kept stempool embargo => exact held.keyed txid tx (stempool ▸ found)
    | released stempool embargo resolved => exact absurd found (by simp [stempool])
    | stemmed call source other time submits same fresh stempool embargo bound =>
      rw [stempool] at found
      exact Option.some_inj.mp found ▸ same
  awaited := by
    intro txid
    cases @step_change P sign sort s held event txid with
    | kept stempool embargo => rw [stempool, embargo, held.awaited txid]
    | released stempool embargo resolved => simp [stempool, embargo]
    | stemmed call source other time submits same fresh stempool embargo bound =>
      simp [stempool, embargo]

/-! ### A spend that is held -/

/-- A call that draws nothing but zeroes. -/
def sampleStemming : Stemming where
  routes := 0
  embargoes := 0
  peers := [DandelionRouter.sampleRelay]
  draws := DandelionRouter.sampleDraws
  jitter := 0

/-- A coinbase to a script is confirmed, and a spend of it is stemmed. -/
def sampleStemRun : List Event :=
  [.other (.ingestBlock epoch scriptFirst) rfl, .setDandelion true, .submit sampleStemming [] scriptSpend]

theorem sampleStem_route :
    ((DandelionRouter.new 600 39 0).route 0 sampleStemming.draws []
      [DandelionRouter.sampleRelay]).1 = some DandelionRouter.sampleRelay := by
  simp [DandelionRouter.route, DandelionRouter.maybeNewEpoch, DandelionRouter.new, DandelionRouter.epochAt]
  decide +kernel


/-- A valid transaction that nobody has seen is held, when there is a relay and room. -/
theorem stemTransaction_holds {call : Stemming} {source relay : Bytes}
    (valid : validateTransaction P s.node.chain tx true = .ok ())
    (unseen : hashTransaction P tx ∉ s.node.seenTxids)
    (absent : s.stempool.lookup (hashTransaction P tx) = none)
    (routed : (s.router.route call.routes call.draws source call.peers).1 = some relay)
    (room : s.stempool.entries.length < kMaxStempool) :
    (s.stemTransaction P call source tx).2.stempool.lookup (hashTransaction P tx) = some tx := by
  unfold stemTransaction
  rw [valid]
  dsimp only
  rw [if_neg (by simp [unseen, absent]), routed]
  dsimp only
  rw [if_neg (by omega)]
  exact (lookup_insert _ _ _ _).trans (if_pos rfl)

/-- The node that stems it. -/
def sampleStemNode : StemNode :=
  { new DecentralizedNode.freshNode (.new 600 39 0) with
    node := DecentralizedNode.run samplePrimitives DecentralizedNode.noSign sampleSort
      DecentralizedNode.freshNode [.ingestBlock epoch scriptFirst]
    dandelion := true }

set_option maxRecDepth 100000 in
theorem sampleStem_held :
    (reached samplePrimitives DecentralizedNode.noSign sampleSort
      (new DecentralizedNode.freshNode (.new 600 39 0)) sampleStemRun).stempool.lookup
        (hashTransaction samplePrimitives scriptSpend) = some scriptSpend := by
  have valid : validateTransaction samplePrimitives sampleStemNode.node.chain scriptSpend true = .ok () := rfl
  have unseen : hashTransaction samplePrimitives scriptSpend ∉ sampleStemNode.node.seenTxids := by
    decide +kernel
  have held := @stemTransaction_holds samplePrimitives sampleStemNode scriptSpend sampleStemming []
    DandelionRouter.sampleRelay valid unseen rfl sampleStem_route (by decide)
  exact held

/-! ### Embargoes end -/

/-- A transaction that was not held was stemmed by a call, and its embargo reaches this far. -/
def Stems (P : Primitives) (base jitter : Int) (tx : Transaction) (time : Int) (s : StemNode)
    (event : Event) : Prop :=
  ∃ call source, event = .submit call source tx ∧ s.stempool.lookup (hashTransaction P tx) = none ∧
    time ≤ call.embargoes + base + max 0 jitter

/-- What is held was stemmed in the run, and its embargo ends in time. -/
structure Timed (P : Primitives) (sign : DecentralizedNode.SignMessage)
    (sort : List Transaction → List Transaction) (start : StemNode) (events : List Event) : Prop where
  held : Held P (reached P sign sort start events)
  base : (reached P sign sort start events).router.embargoBaseSeconds = start.router.embargoBaseSeconds
  jitter :
    (reached P sign sort start events).router.embargoJitterSeconds = start.router.embargoJitterSeconds
  stems : ∀ txid tx, (reached P sign sort start events).stempool.lookup txid = some tx → ∃ time,
    (reached P sign sort start events).router.embargoUntil.lookup txid = some time ∧
      Happens (step P sign sort)
        (Stems P start.router.embargoBaseSeconds start.router.embargoJitterSeconds tx time) start events

theorem stemTransaction_lengths (s : StemNode) (call : Stemming) (source : Bytes) (tx : Transaction) :
    (s.stemTransaction P call source tx).2.router.embargoBaseSeconds = s.router.embargoBaseSeconds ∧
      (s.stemTransaction P call source tx).2.router.embargoJitterSeconds =
        s.router.embargoJitterSeconds ∧
      (s.stempool.entries.length ≤ kMaxStempool →
        (s.stemTransaction P call source tx).2.stempool.entries.length ≤ kMaxStempool) := by
  have routed := s.router.route_embargoes call.routes call.draws source call.peers
  unfold stemTransaction
  split
  · exact ⟨rfl, rfl, id⟩
  dsimp only
  split
  · exact ⟨rfl, rfl, id⟩
  split
  · exact ⟨routed.base, routed.jitter, id⟩
  split
  · exact ⟨routed.base, routed.jitter, id⟩
  rename_i room
  unfold hold DandelionRouter.embargo
  dsimp only
  have longer := insert_few s.stempool (hashTransaction P tx) tx
  split
  · exact ⟨routed.base, routed.jitter, fun _ => longer.trans (by omega)⟩
  · exact ⟨routed.base, routed.jitter, fun _ => longer.trans (by omega)⟩

theorem spreadAll_few (txids : List Bytes) (s : StemNode) :
    (txids.foldl (spread P) s).stempool.entries.length ≤ s.stempool.entries.length := by
  induction txids generalizing s with
  | nil => exact Nat.le_refl _
  | cons first rest ih =>
    refine (ih _).trans ?_
    unfold spread
    split
    · exact Nat.le_refl _
    · exact erase_few _ _

/-- The lengths of embargoes are never set anew, and the stempool stays within its limit. -/
theorem step_lengths (s : StemNode) (event : Event) :
    (s.step P sign sort event).router.embargoBaseSeconds = s.router.embargoBaseSeconds ∧
      (s.step P sign sort event).router.embargoJitterSeconds = s.router.embargoJitterSeconds ∧
      (s.stempool.entries.length ≤ kMaxStempool →
        (s.step P sign sort event).stempool.entries.length ≤ kMaxStempool) := by
  cases event with
  | setDandelion enabled => exact ⟨rfl, rfl, id⟩
  | submit call source tx =>
    rw [step, submit]
    split
    · exact stemTransaction_lengths s call source tx
    · exact ⟨rfl, rfl, id⟩
  | receiveTx tx => exact ⟨rfl, rfl, fun few => (erase_few _ _).trans few⟩
  | beginFlush now =>
    have spec := @spreadAll_spec P (s.router.expired now)
      (s.withRouter (s.router.expiredEmbargoes now).2)
    have few := @spreadAll_few P (s.router.expired now)
      (s.withRouter (s.router.expiredEmbargoes now).2)
    refine ⟨?_, ?_, few.trans⟩
    · exact (congrArg DandelionRouter.embargoBaseSeconds spec.router :)
    · exact (congrArg DandelionRouter.embargoJitterSeconds spec.router :)
  | sent position => exact ⟨rfl, rfl, id⟩
  | unreachable position decoded =>
    cases decoded with
    | none => exact ⟨rfl, rfl, id⟩
    | some tx => exact ⟨rfl, rfl, fun few => (erase_few _ _).trans few⟩
  | other event noFluff => exact ⟨rfl, rfl, id⟩

theorem new_held (node : DecentralizedNode) (epochSeconds base jitter : Int) :
    Held P (new node (.new epochSeconds base jitter)) where
  keyed := fun _ _ found => absurd found (by simp [new])
  awaited := fun _ => by simp [new, DandelionRouter.new]

theorem reached_snoc (start : StemNode) (events : List Event) (event : Event) :
    reached P sign sort start (events ++ [event]) =
      (reached P sign sort start events).step P sign sort event := by
  rw [reached, List.foldl_append]
  rfl

/-- All embargoes of a run end in time. -/
theorem reached_timed (node : DecentralizedNode) (epochSeconds base jitter : Int) (events : List Event) :
    Timed P sign sort (new node (.new epochSeconds base jitter)) events := by
  induction events using List.reverseRecOn with
  | nil => exact ⟨new_held _ _ _ _, rfl, rfl, fun _ _ found => absurd found (by simp [reached, new])⟩
  | append_singleton events event timed =>
    have lengths := @step_lengths P sign sort
      (reached P sign sort (new node (.new epochSeconds base jitter)) events) event
    constructor
    · rw [reached_snoc]
      exact timed.held.step event
    · rw [reached_snoc]
      exact lengths.1.trans timed.base
    · rw [reached_snoc]
      exact lengths.2.1.trans timed.jitter
    · intro txid tx found
      rw [reached_snoc] at found ⊢
      cases @step_change P sign sort _ timed.held event txid with
      | kept stempool embargo =>
        obtain ⟨time, awaited, stemmed⟩ := timed.stems txid tx (stempool ▸ found)
        exact ⟨time, embargo.trans awaited, happens_snoc.mpr (.inl stemmed)⟩
      | released stempool embargo resolved => exact absurd found (by simp [stempool])
      | stemmed call source other time submits same fresh stempool embargo bound =>
        obtain rfl := Option.some_inj.mp (stempool.symm.trans found)
        rw [timed.base, timed.jitter] at bound
        exact ⟨time, embargo, happens_snoc.mpr (.inr ⟨call, source, submits, same ▸ fresh, bound⟩)⟩

/-- The stem pool stays within its limit. -/
theorem reached_few (node : DecentralizedNode) (router : DandelionRouter) (events : List Event) :
    (reached P sign sort (new node router) events).stempool.entries.length ≤ kMaxStempool := by
  induction events using List.reverseRecOn with
  | nil => exact Nat.zero_le _
  | append_singleton events event few =>
    rw [reached_snoc]
    exact (step_lengths _ event).2.2 few

/-- At a flush, a transaction that is held was stemmed less than the longest embargo ago, or it is
released: then it was seen since, or the node refuses it. -/
theorem embargo_ends (P : Primitives) (sign : DecentralizedNode.SignMessage)
    (sort : List Transaction → List Transaction) (node : DecentralizedNode)
    (epochSeconds base jitter : Int) (events : List Event) (now : Int) :
    let start := new node (.new epochSeconds base jitter)
    let before := reached P sign sort start events
    let left := before.beginFlush P now
    ∀ txid tx, before.stempool.lookup txid = some tx →
      left.stempool.lookup txid = some tx ∧
          Happens (step P sign sort) (Stems P base jitter tx (now + 1)) start events ∨
        left.stempool.lookup txid = none ∧
          (hashTransaction P tx ∈ left.node.seenTxids ∨
            ∃ refusal, (left.node.fluffTransaction P tx).1 = .error refusal) := by
  intro start before left txid tx found
  have timed := @reached_timed P sign sort node epochSeconds base jitter events
  obtain ⟨time, awaited, stemmed⟩ := timed.stems txid tx found
  obtain ⟨router, stempool, stays, gone⟩ := @spreadAll_spec P (before.router.expired now)
    (before.withRouter (before.router.expiredEmbargoes now).2)
  have pool : left.stempool.lookup txid = _ := stempool txid
  by_cases expired : txid ∈ before.router.expired now
  · rw [if_pos expired] at pool
    exact .inr ⟨pool, gone txid expired tx found⟩
  · rw [if_neg expired] at pool
    refine .inl ⟨pool.trans found, ?_⟩
    have later : now + 1 ≤ time := by
      by_contra ended
      exact expired ((before.router.mem_expired now txid).mpr ⟨time, awaited, by omega⟩)
    obtain ⟨front, event, rest, whole, call, source, submits, fresh, bound⟩ := stemmed
    exact ⟨front, event, rest, whole, call, source, submits, fresh, later.trans bound⟩

/-- The stemmed spend at a flush after its embargo. -/
theorem sampleStem_ends :
    let start := new DecentralizedNode.freshNode (.new 600 39 0)
    let before := reached samplePrimitives DecentralizedNode.noSign sampleSort start sampleStemRun
    let left := before.beginFlush samplePrimitives 50
    let id := hashTransaction samplePrimitives scriptSpend
    left.stempool.lookup id = some scriptSpend ∧
        Happens (step samplePrimitives DecentralizedNode.noSign sampleSort)
          (Stems samplePrimitives 39 0 scriptSpend 51) start sampleStemRun ∨
      left.stempool.lookup id = none ∧ (id ∈ left.node.seenTxids ∨
        ∃ refusal, (left.node.fluffTransaction samplePrimitives scriptSpend).1 = .error refusal) :=
  embargo_ends samplePrimitives DecentralizedNode.noSign sampleSort DecentralizedNode.freshNode 600 39 0
    sampleStemRun 50 _ _ sampleStem_held

/-- No step drops a transaction: what is not held any more was seen, or the node refuses a
transaction with the same identifier. The stempool stays within its limit. -/
theorem held_until_tried (P : Primitives) (sign : DecentralizedNode.SignMessage)
    (sort : List Transaction → List Transaction) (node : DecentralizedNode)
    (epochSeconds base jitter : Int) (events : List Event) (event : Event) :
    let before := reached P sign sort (new node (.new epochSeconds base jitter)) events
    let left := before.step P sign sort event
    left.stempool.entries.length ≤ kMaxStempool ∧
      ∀ txid tx, before.stempool.lookup txid = some tx → hashTransaction P tx = txid ∧
        (left.stempool.lookup txid = some tx ∨ ∃ other, hashTransaction P other = txid ∧
          (txid ∈ left.node.seenTxids ∨
            ∃ refusal, (left.node.fluffTransaction P other).1 = .error refusal)) := by
  intro before left
  have timed := @reached_timed P sign sort node epochSeconds base jitter events
  refine ⟨(step_lengths before event).2.2 (reached_few _ _ _), fun txid tx found => ?_⟩
  refine ⟨timed.held.keyed txid tx found, ?_⟩
  cases @step_change P sign sort before timed.held event txid with
  | kept stempool embargo => exact .inl (stempool.trans found)
  | released stempool embargo resolved =>
    obtain ⟨other, same, tried⟩ := resolved
    exact .inr ⟨other, same, same ▸ tried⟩
  | stemmed call source other time submits same fresh stempool embargo bound =>
    exact absurd fresh (by simp [found])

/-- The stemmed spend when somebody else spreads it. -/
theorem sampleStem_tried :
    let before := reached samplePrimitives DecentralizedNode.noSign sampleSort
      (new DecentralizedNode.freshNode (.new 600 39 0)) sampleStemRun
    let left := before.step samplePrimitives DecentralizedNode.noSign sampleSort (.receiveTx scriptSpend)
    let id := hashTransaction samplePrimitives scriptSpend
    left.stempool.lookup id = some scriptSpend ∨ ∃ other, hashTransaction samplePrimitives other = id ∧
      (id ∈ left.node.seenTxids ∨
        ∃ refusal, (left.node.fluffTransaction samplePrimitives other).1 = .error refusal) :=
  ((held_until_tried samplePrimitives DecentralizedNode.noSign sampleSort DecentralizedNode.freshNode 600 39
    0 sampleStemRun (.receiveTx scriptSpend)).2 _ _ sampleStem_held).2

/-! ### What is held is not pushed -/

/-- A transaction is spread while it is held: it is submitted with Dandelion off, and accepted. -/
def Exposes (P : Primitives) (s : StemNode) : Event → Prop
  | .submit _ _ tx =>
    s.dandelion = false ∧ (s.stempool.lookup (hashTransaction P tx)).isSome = true ∧
      hashTransaction P tx ∉ s.node.seenTxids ∧ (s.node.fluffTransaction P tx).1 = .ok ()
  | _ => False

/-- What is announced was seen, and is not held. -/
structure Covert (P : Primitives) (s : StemNode) : Prop where
  seen : ∀ tx, Gossip.tx tx ∈ s.node.outbound → hashTransaction P tx ∈ s.node.seenTxids
  hidden : ∀ tx, Gossip.tx tx ∈ s.node.outbound → s.stempool.lookup (hashTransaction P tx) = none

/-- Less is held. -/
theorem Covert.less (covert : Covert P s) (node : left.node = s.node)
    (less : ∀ txid, s.stempool.lookup txid = none → left.stempool.lookup txid = none) : Covert P left where
  seen := node ▸ covert.seen
  hidden := fun tx here => less _ (covert.hidden tx (node ▸ here))

/-- A transaction that is not held is spread. -/
theorem Covert.fluff (covert : Covert P s) (tx : Transaction)
    (allowed : s.stempool.lookup (hashTransaction P tx) = none ∨
      hashTransaction P tx ∈ s.node.seenTxids ∨ (s.node.fluffTransaction P tx).1 ≠ .ok ()) :
    Covert P (s.fluff P tx).2 := by
  have spec := @DecentralizedNode.fluffTransaction_spec P s.node tx
  rcases spec.announced with same | ⟨announced, unseen, seen, accepted⟩
  · constructor
    · exact fun other here => spec.seen (covert.seen other (same ▸ here))
    · exact fun other here => covert.hidden other (same ▸ here)
  · have absent := allowed.resolve_right (by simp [unseen, accepted])
    have either : ∀ other, Gossip.tx other ∈ (s.node.fluffTransaction P tx).2.outbound →
        Gossip.tx other ∈ s.node.outbound ∨ other = tx := by
      intro other here
      rw [announced, List.mem_append, List.mem_singleton] at here
      exact here.imp_right Gossip.tx.inj
    constructor
    · intro other here
      rcases either other here with before | rfl
      · exact spec.seen (covert.seen other before)
      · exact seen
    · intro other here
      rcases either other here with before | rfl
      · exact covert.hidden other before
      · exact absent

theorem Covert.release (covert : Covert P s) (tx : Transaction) :
    Covert P ((s.release (hashTransaction P tx)).fluff P tx).2 := by
  have released : Covert P (s.release (hashTransaction P tx)) := by
    refine covert.less rfl fun txid absent => (lookup_erase _ _ _).trans ?_
    rw [absent, ite_self]
  refine released.fluff tx (.inl ?_)
  exact (lookup_erase _ _ _).trans (if_pos rfl)

theorem Covert.stemTransaction (covert : Covert P s) (call : Stemming) (source : Bytes)
    (tx : Transaction) : Covert P (s.stemTransaction P call source tx).2 := by
  unfold StemNode.stemTransaction
  split
  · exact covert
  dsimp only
  split
  · exact covert
  rename_i unknown
  push Not at unknown
  have absent : s.stempool.lookup (hashTransaction P tx) = none := by simpa using unknown.2
  have same : ∀ router, Covert P (s.withRouter router) := fun router => covert.less rfl fun _ here => here
  split
  · exact Covert.fluff (same _) tx (.inl absent)
  split
  · exact Covert.fluff (same _) tx (.inl absent)
  · -- nothing was announced under the identifier, for it was not seen
    constructor
    · exact covert.seen
    · intro other here
      have different : hashTransaction P other ≠ hashTransaction P tx := by
        intro collision
        exact unknown.1 (collision ▸ covert.seen other here)
      exact (lookup_insert _ _ _ _).trans ((if_neg different).trans (covert.hidden other here))

theorem Covert.spreadAll (txids : List Bytes) (covert : Covert P s)
    (held : ∀ txid tx, s.stempool.lookup txid = some tx → hashTransaction P tx = txid) :
    Covert P (txids.foldl (spread P) s) := by
  induction txids generalizing s with
  | nil => exact covert
  | cons first rest ih =>
    have spec := @spread_spec P s first
    refine ih ?_ fun txid tx found => ?_
    · unfold spread
      split
      · exact covert
      · rename_i tx found
        have erased : Covert P { s with stempool := s.stempool.erase first } := by
          refine covert.less rfl fun txid absent => (lookup_erase _ _ _).trans ?_
          rw [absent, ite_self]
        refine erased.fluff tx (.inl ?_)
        rw [held first tx found]
        exact (lookup_erase _ _ _).trans (if_pos rfl)
    · rw [spec.stempool] at found
      split at found
      · exact absurd found (by simp)
      · exact held txid tx found

/-- What is held stays covert through an event that does not expose it. -/
theorem Covert.step (covert : Covert P s) (held : Held P s) (event : Event)
    (hidden : ¬ Exposes P s event) : Covert P (s.step P sign sort event) := by
  cases event with
  | setDandelion enabled => exact covert.less rfl fun _ here => here
  | submit call source tx =>
    rw [StemNode.step, submit]
    split
    · exact covert.stemTransaction call source tx
    · rename_i off
      refine covert.fluff tx ?_
      by_contra exposing
      push Not at exposing
      refine hidden ⟨by simpa using off, ?_, exposing.2.1, exposing.2.2⟩
      exact Option.isSome_iff_ne_none.mpr exposing.1
  | receiveTx tx => exact covert.release tx
  | beginFlush now =>
    have router : Covert P (s.withRouter (s.router.expiredEmbargoes now).2) :=
      covert.less rfl fun _ here => here
    exact (router.spreadAll (s.router.expired now) held.keyed).less rfl fun _ here => here
  | sent position => exact covert.less rfl fun _ here => here
  | unreachable position decoded =>
    have sent : Covert P (s.sent position) := covert.less rfl fun _ here => here
    cases decoded with
    | none => exact sent
    | some tx => exact sent.release tx
  | other event noFluff =>
    have spread := @DecentralizedNode.step_noSpread P sign sort s.node event noFluff
    constructor
    · exact fun tx here => spread.seen (covert.seen tx (spread.announced tx here))
    · exact fun tx here => covert.hidden tx (spread.announced tx here)

/-- The messages of a round are those announced and some that are not held. -/
theorem mem_pushed (s : StemNode) (tx : Transaction) (member : Gossip.tx tx ∈ s.pushed P) :
    Gossip.tx tx ∈ s.node.outbound ∨ s.stempool.lookup (hashTransaction P tx) = none := by
  have folded : ∀ (pending : List Transaction) (state : List Gossip × Nat),
      Gossip.tx tx ∈ (pending.foldl (s.rebroadcast P) state).1 →
        Gossip.tx tx ∈ state.1 ∨ s.stempool.lookup (hashTransaction P tx) = none := by
    intro pending
    induction pending with
    | nil => exact fun state here => .inl here
    | cons first rest ih =>
      intro state here
      refine (ih _ here).elim (fun before => ?_) .inr
      unfold rebroadcast at before
      split at before
      · exact .inl before
      · rename_i free
        push Not at free
        rw [List.mem_append, List.mem_singleton] at before
        rcases before with before | own
        · exact .inl before
        · obtain rfl := Gossip.tx.inj own
          exact .inr (by simpa using free.2.1)
  exact folded _ _ member

/-- What waits to be sent is pushed. -/
theorem pushed_announced (s : StemNode) (message : Gossip) (member : message ∈ s.node.outbound) :
    message ∈ s.pushed P := by
  have folded : ∀ (pending : List Transaction) (state : List Gossip × Nat), message ∈ state.1 →
      message ∈ (pending.foldl (s.rebroadcast P) state).1 := by
    intro pending
    induction pending with
    | nil => exact fun state here => here
    | cons first rest ih =>
      intro state here
      refine ih _ ?_
      unfold rebroadcast
      split
      · exact here
      · exact List.mem_append_left _ here
  exact folded _ _ member

/-- No round of a run pushes a transaction that is held, exactly when no step spreads one because
Dandelion was switched off in between. -/
theorem stemmed_not_pushed (P : Primitives) (sign : DecentralizedNode.SignMessage)
    (sort : List Transaction → List Transaction) (chain : Chain) (epochSeconds base jitter : Int)
    (events : List Event) :
    let start := new (.new chain) (.new epochSeconds base jitter)
    (∀ front, front <+: events → ∀ tx, Gossip.tx tx ∈ (reached P sign sort start front).pushed P →
        (reached P sign sort start front).stempool.lookup (hashTransaction P tx) = none) ↔
      EachStep (step P sign sort) (fun s event => ¬ Exposes P s event) start events := by
  intro start
  constructor
  · intro hidden
    refine eachStep_iff.mpr fun front event cut exposes => ?_
    have after := hidden (front ++ [event]) cut
    rw [reached_snoc] at after
    cases event with
    | submit call source tx =>
      have exposed : Exposes P (reached P sign sort start front) (.submit call source tx) := exposes
      obtain ⟨off, held, unseen, accepted⟩ := exposed
      have spread : (reached P sign sort start front).step P sign sort (.submit call source tx) =
          ((reached P sign sort start front).fluff P tx).2 := by
        rw [step, submit, if_neg]
        simpa using off
      rw [spread] at after
      have announced := (DecentralizedNode.fluffTransaction_spec _ tx).accepted accepted unseen
      have gone : (reached P sign sort start front).stempool.lookup (hashTransaction P tx) = none :=
        after tx (pushed_announced _ _ announced)
      rw [gone] at held
      exact absurd held (by simp)
    | setDandelion | receiveTx | beginFlush | sent | unreachable | other => exact exposes
  · intro meets front cut
    have fresh : Covert P start := ⟨fun _ here => absurd here (by simp [start, new, DecentralizedNode.new]),
      fun _ here => absurd here (by simp [start, new, DecentralizedNode.new])⟩
    obtain ⟨held, covert⟩ := meets.carries (fun s => Held P s ∧ Covert P s)
      (fun s event both hidden => ⟨both.1.step event, both.2.step both.1 event hidden⟩)
      ⟨new_held _ _ _ _, fresh⟩ front cut
    intro tx member
    exact (mem_pushed _ tx member).elim (covert.hidden tx) id

end StemNode

end Addition
