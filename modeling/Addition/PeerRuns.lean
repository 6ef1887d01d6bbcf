import Addition.PeerEviction
import Mathlib.Data.List.Nodup

/-!
# The table of peers along runs

Whatever is called, and whatever the clock says: peers and seeds are never banned, the table keeps
its bounds and the scores theirs, seeds are not evicted, and who is banned comes back only as a seed
before the ban is over. Candidates are no peers in exactly the runs in which no candidate is made a
seed or readmitted as a peer, where the source, unlike in `add_peer`, leaves it among the candidates.
-/

namespace Addition

namespace PeerNetwork

open ByteStrings FiniteTables Runs

variable {net : PeerNetwork}

/-! ### What runs should keep -/

/-- A table in order, within the limits of another one. -/
structure Ordered (limits net : PeerNetwork) : Prop where
  distinct : net.peers.Nodup
  peersFree : ∀ endpoint ∈ net.peers, ∀ now, net.isBanned now endpoint = false
  seedsFree : ∀ endpoint ∈ net.seeds, ∀ now, net.isBanned now endpoint = false
  room : net.peers.countP (fun endpoint => decide (endpoint ∉ net.seeds)) ≤ limits.maxPeers
  apart : ∀ endpoint ∈ net.candidates, endpoint ∉ net.peers
  listed : net.candidates.card ≤ limits.maxCandidates
  scored : ∀ endpoint, kMinScore ≤ net.scoreOf endpoint ∧ net.scoreOf endpoint ≤ kMaxScore

/-- All tables of a run are in order, seeds stay seeds and are not evicted, and who misbehaved until
it was banned comes back before the ban is over only as a seed. -/
structure Sound (start : PeerNetwork) (events : List Event) : Prop where
  ordered : ∀ front, front <+: events → Ordered start (reached start front)
  seeded : ∀ front now endpoint, front <+: events → endpoint ≠ [] →
    ⟨now, .addSeed endpoint⟩ ∈ front → endpoint ∈ (reached start front).seeds
  kept : ∀ front event, front ++ [event] <+: events → ∀ endpoint ∈ (reached start front).seeds,
    endpoint ∈ (reached start front).peers → endpoint ∈ (reached start (front ++ [event])).peers ∨
      event.operation = .removePeer endpoint
  barred : ∀ front now endpoint later, front ++ ⟨now, .markPeerBad endpoint⟩ :: later <+: events →
    endpoint ∈ (reached start front).peers →
    endpoint ∉ (reached start (front ++ [⟨now, .markPeerBad endpoint⟩])).peers →
    (∀ event ∈ later, event.now < now + start.banSeconds ∧ event.operation ≠ .addSeed endpoint) →
      endpoint ∉ (reached start (front ++ ⟨now, .markPeerBad endpoint⟩ :: later)).peers

/-- No candidate is made a seed, or readmitted while there is room and no ban. -/
def KeepsApart (net : PeerNetwork) (event : Event) : Prop :=
  match event.operation with
  | .addSeed endpoint => endpoint ∉ net.candidates
  | .readmitAuthenticated endpoint => endpoint ∈ net.candidates →
      net.isBanned event.now endpoint = true ∨ net.maxPeers ≤ net.peers.length
  | _ => True

/-! ### What joining does -/

theorem tryScore_spec (net : PeerNetwork) (endpoint : Bytes) :
    ∃ score, net.tryScore endpoint = { net with score := score } ∧
      ∀ tested value, score.lookup tested = some value →
        net.score.lookup tested = some value ∨ value = 0 := by
  unfold tryScore
  split
  · exact ⟨_, rfl, fun _ _ found => .inl found⟩
  · refine ⟨_, rfl, fun tested value found => ?_⟩
    rw [lookup_insert] at found
    split at found
    · exact .inr (Option.some.inj found).symm
    · exact .inl found

/-- Some peers left that are no seeds, and scores were dropped, or new ones are 0. -/
structure Thinned (net : PeerNetwork) (peers : List Bytes) (score : Table Bytes Int) : Prop where
  sub : peers.Sublist net.peers
  seeds : ∀ endpoint ∈ net.seeds, endpoint ∈ net.peers → endpoint ∈ peers
  scores : ∀ endpoint value, score.lookup endpoint = some value →
    net.score.lookup endpoint = some value ∨ value = 0

/-- All that `add_peer` does: nothing, or it lifts a ban that is over, and then it may evict, and
then the endpoint may join. -/
theorem addPeer_cases (net : PeerNetwork) (now : Int) (endpoint : Bytes) :
    (net.addPeer now endpoint).2 = net ∨
      (endpoint ≠ [] ∧ net.isBanned now endpoint = false ∧ ∃ peers score, Thinned net peers score ∧
        ((net.addPeer now endpoint).2 =
            PeerNetwork.unban { net with peers := peers, score := score } endpoint ∨
          endpoint ∉ net.peers ∧ peers.length < net.maxPeers ∧ (net.addPeer now endpoint).2 =
            ((PeerNetwork.unban { net with peers := peers, score := score } endpoint).unlist
              endpoint).join endpoint)) := by
  unfold addPeer
  split
  · exact .inl rfl
  · rename_i some
    split
    · exact .inl rfl
    · rename_i free
      refine .inr ⟨by simpa using some, by simpa using free, ?_⟩
      split
      · exact ⟨net.peers, net.score, ⟨List.Sublist.refl _, fun _ _ inside => inside,
          fun _ _ found => .inl found⟩, .inl rfl⟩
      · rename_i fresh
        obtain ⟨peers, score, left, sub, seeds, scores⟩ :=
          evictRounds_spec (net.unban endpoint).peers.length (net.unban endpoint)
        have thinned : Thinned net peers score :=
          ⟨sub, seeds, fun other value found => .inl (scores other value found)⟩
        dsimp only
        rw [evictIfFull, left]
        split
        · exact ⟨peers, score, thinned, .inl rfl⟩
        · rename_i fits
          obtain ⟨given, isGiven, known⟩ := tryScore_spec
            { net.unban endpoint with peers := peers, score := score } endpoint
          refine ⟨peers, given, ⟨sub, seeds, fun other value found => ?_⟩, .inr ⟨fresh, ?_, ?_⟩⟩
          · exact (known other value found).imp_left (scores other value)
          · exact Nat.not_le.mp fits
          · rw [isGiven]
            rfl

/-- All that `add_seed` does. -/
theorem addSeed_cases (net : PeerNetwork) (endpoint : Bytes) :
    endpoint = [] ∧ (net.addSeed endpoint).2 = net ∨
      endpoint ∈ net.peers ∧ (net.addSeed endpoint).2 = (net.seed endpoint).unban endpoint ∨
      (endpoint ∉ net.peers ∧ ∃ score, Thinned net net.peers score ∧ (net.addSeed endpoint).2 =
        (PeerNetwork.unban (PeerNetwork.seed { net with score := score } endpoint) endpoint).join
          endpoint) := by
  unfold addSeed
  split
  · exact .inl ⟨List.isEmpty_iff.mp ‹_›, rfl⟩
  · dsimp only
    split
    · exact .inr (.inl ⟨‹_›, rfl⟩)
    · rename_i fresh
      obtain ⟨given, isGiven, known⟩ := tryScore_spec ((net.seed endpoint).unban endpoint) endpoint
      refine .inr (.inr ⟨fresh, given, ⟨List.Sublist.refl _, fun _ _ inside => inside, known⟩, ?_⟩)
      rw [isGiven]
      rfl

/-- All that `readmit_authenticated` does where no ban is soft: nothing but to resume for an endpoint
that is banned, and else it lifts the ban, lets the endpoint join when there is room, and raises its
score to 0. -/
theorem readmitAuthenticated_cases (hard : net.softBanned = ∅) (now : Int) (endpoint : Bytes) :
    net.isBanned now endpoint = true ∧
        net.readmitAuthenticated now endpoint = net.resume endpoint ∨
      (net.isBanned now endpoint = false ∧
        ((endpoint ∈ net.peers ∨ net.maxPeers ≤ net.peers.length) ∧
            net.readmitAuthenticated now endpoint = ((net.resume endpoint).unban endpoint).setScore
              endpoint (max 0 (net.scoreOf endpoint)) ∨
          endpoint ∉ net.peers ∧ net.peers.length < net.maxPeers ∧
            net.readmitAuthenticated now endpoint =
              (((net.resume endpoint).unban endpoint).join endpoint).setScore endpoint
                (max 0 (net.scoreOf endpoint)))) := by
  have notSoft : endpoint ∉ (net.resume endpoint).softBanned := by
    change endpoint ∉ net.softBanned
    rw [hard]
    exact Finset.notMem_empty endpoint
  cases banned : net.isBanned now endpoint with
  | true =>
    have held : (net.resume endpoint).isBanned now endpoint = true := banned
    refine .inl ⟨rfl, ?_⟩
    simp only [readmitAuthenticated, if_neg notSoft, if_pos held]
  | false =>
    have free : ¬ (net.resume endpoint).isBanned now endpoint = true :=
      (Bool.not_eq_true _).mpr banned
    refine .inr ⟨rfl, ?_⟩
    simp only [readmitAuthenticated, if_neg notSoft, if_neg free]
    by_cases joins : endpoint ∉ net.peers ∧ net.peers.length < net.maxPeers
    · have fits : endpoint ∉ ((net.resume endpoint).unban endpoint).peers ∧
          ((net.resume endpoint).unban endpoint).peers.length <
            ((net.resume endpoint).unban endpoint).maxPeers := joins
      refine .inr ⟨joins.1, joins.2, ?_⟩
      rw [if_pos fits]
      rfl
    · have full : ¬ (endpoint ∉ ((net.resume endpoint).unban endpoint).peers ∧
          ((net.resume endpoint).unban endpoint).peers.length <
            ((net.resume endpoint).unban endpoint).maxPeers) := joins
      refine .inl ⟨?_, ?_⟩
      · by_cases inside : endpoint ∈ net.peers
        · exact .inl inside
        · exact .inr (Nat.not_lt.mp fun less => joins ⟨inside, less⟩)
      · rw [if_neg full]
        rfl

/-! ### What all runs keep -/

/-- The order of a table, but for candidates that are peers. -/
structure Lawful (net : PeerNetwork) : Prop where
  distinct : net.peers.Nodup
  peersFree : ∀ endpoint ∈ net.peers, net.banned.lookup endpoint = none
  seedsFree : ∀ endpoint ∈ net.seeds, net.banned.lookup endpoint = none
  room : net.peers.countP (fun endpoint => decide (endpoint ∉ net.seeds)) ≤ net.maxPeers
  named : [] ∉ net.candidates
  listed : net.candidates.card ≤ net.maxCandidates
  scored : ∀ endpoint score, net.score.lookup endpoint = some score →
    kMinScore ≤ score ∧ score ≤ kMaxScore
  hard : net.softBanned = ∅

/-- A new table is lawful. -/
theorem lawful_limited (maxPeers maxCandidates : Nat) (banSeconds : Int) :
    Lawful (limited maxPeers maxCandidates banSeconds) where
  distinct := List.nodup_nil
  peersFree := by simp [limited, setLimits, initial]
  seedsFree := by simp [limited, setLimits, initial]
  room := Nat.zero_le _
  named := Finset.notMem_empty _
  listed := Nat.zero_le _
  scored := by simp [limited, setLimits, initial]
  hard := rfl

/-- A score lies between the worst and the best. -/
theorem Lawful.range (lawful : Lawful net) (endpoint : Bytes) :
    kMinScore ≤ net.scoreOf endpoint ∧ net.scoreOf endpoint ≤ kMaxScore := by
  unfold scoreOf
  cases found : net.score.lookup endpoint with
  | none => decide
  | some score => exact lawful.scored endpoint score found

theorem free_erase {table : Table Bytes Int} {tested : Bytes} (free : table.lookup tested = none)
    (endpoint : Bytes) : (table.erase endpoint).lookup tested = none := by
  rw [lookup_erase]
  split
  · rfl
  · exact free

theorem Lawful.setScore (lawful : Lawful net) (endpoint : Bytes) {score : Int}
    (low : kMinScore ≤ score) (high : score ≤ kMaxScore) : Lawful (net.setScore endpoint score) :=
  { lawful with
    scored := by
      intro tested value found
      rw [PeerNetwork.setScore, lookup_insert] at found
      split at found
      · exact Option.some.inj found ▸ ⟨low, high⟩
      · exact lawful.scored tested value found }

theorem Lawful.dropScore (lawful : Lawful net) (endpoint : Bytes) : Lawful (net.dropScore endpoint) :=
  { lawful with
    scored := by
      intro tested value found
      rw [PeerNetwork.dropScore, lookup_erase] at found
      split at found
      · cases found
      · exact lawful.scored tested value found }

theorem Lawful.unban (lawful : Lawful net) (endpoint : Bytes) : Lawful (net.unban endpoint) :=
  { lawful with
    peersFree := fun tested inside => free_erase (lawful.peersFree tested inside) endpoint
    seedsFree := fun tested isSeed => free_erase (lawful.seedsFree tested isSeed) endpoint }

theorem Lawful.resume (lawful : Lawful net) (endpoint : Bytes) : Lawful (net.resume endpoint) :=
  { lawful with distinct := lawful.distinct }

theorem Lawful.backOff (lawful : Lawful net) (endpoint : Bytes) (retry : Int) :
    Lawful (net.backOff endpoint retry) :=
  { lawful with distinct := lawful.distinct }

theorem Lawful.thinned (lawful : Lawful net) {peers : List Bytes} {score : Table Bytes Int}
    (thinned : Thinned net peers score) : Lawful { net with peers := peers, score := score } :=
  { lawful with
    distinct := lawful.distinct.sublist thinned.sub
    peersFree := fun tested inside => lawful.peersFree tested (thinned.sub.subset inside)
    room := thinned.sub.countP_le.trans lawful.room
    scored := by
      intro tested value found
      obtain before | rfl := thinned.scores tested value found
      · exact lawful.scored tested value before
      · decide }

theorem Lawful.leave (lawful : Lawful net) (endpoint : Bytes) : Lawful (net.leave endpoint) :=
  { lawful with
    distinct := lawful.distinct.erase endpoint
    peersFree := fun tested inside => lawful.peersFree tested (List.mem_of_mem_erase inside)
    room := List.erase_sublist.countP_le.trans lawful.room }

variable {endpoint : Bytes} {start : PeerNetwork} {expiry now : Int}

/-- A new peer that is free and has room keeps the table lawful. -/
theorem Lawful.join (lawful : Lawful net) (fresh : endpoint ∉ net.peers)
    (free : net.banned.lookup endpoint = none)
    (fits : endpoint ∈ net.seeds ∨ net.peers.length < net.maxPeers) : Lawful (net.join endpoint) :=
  { lawful with
    distinct := by
      rw [PeerNetwork.join, List.nodup_append]
      exact ⟨lawful.distinct, List.nodup_singleton _, fun other inside last isLast =>
        fun same => fresh (List.mem_singleton.mp isLast ▸ same ▸ inside)⟩
    peersFree := by
      intro tested inside
      rcases List.mem_append.mp inside with before | new
      · exact lawful.peersFree tested before
      · exact List.mem_singleton.mp new ▸ free
    room := by
      rw [PeerNetwork.join, List.countP_append, List.countP_singleton]
      have counted : net.peers.countP (fun tested => decide (tested ∉ net.seeds)) ≤ net.peers.length :=
        List.countP_le_length
      have before := lawful.room
      rcases fits with isSeed | less
      · simpa [isSeed] using before
      · dsimp only
        split <;> omega }

theorem Lawful.seed (lawful : Lawful net) (endpoint : Bytes) :
    Lawful ((net.seed endpoint).unban endpoint) :=
  { lawful with
    peersFree := fun tested inside => free_erase (lawful.peersFree tested inside) endpoint
    seedsFree := by
      intro tested isSeed
      rcases Finset.mem_insert.mp isSeed with rfl | before
      · exact AList.lookup_erase _ _
      · exact free_erase (lawful.seedsFree tested before) endpoint
    room := by
      refine le_trans (List.countP_mono_left fun tested _ plain => ?_) lawful.room
      simp only [PeerNetwork.unban, PeerNetwork.seed, Finset.mem_insert, not_or,
        decide_eq_true_eq] at plain ⊢
      exact plain.2 }

theorem Lawful.unlist (lawful : Lawful net) (endpoint : Bytes) : Lawful (net.unlist endpoint) :=
  { lawful with
    named := fun inside => lawful.named (Finset.mem_of_mem_erase inside)
    listed := (Finset.card_erase_le).trans lawful.listed }

theorem Lawful.list (lawful : Lawful net) (some : endpoint ≠ [])
    (fits : net.candidates.card < net.maxCandidates) : Lawful (net.list endpoint) :=
  { lawful with
    named := by
      intro inside
      rcases Finset.mem_insert.mp inside with same | before
      · exact some same.symm
      · exact lawful.named before
    listed := (Finset.card_insert_le _ _).trans fits }

/-- A ban goes with the peer. -/
theorem Lawful.banned (lawful : Lawful net) (plain : endpoint ∉ net.seeds)
    (expiry : Int) : Lawful (((net.ban endpoint expiry).harden endpoint).leave endpoint) where
  distinct := lawful.distinct.erase endpoint
  peersFree := by
    intro tested inside
    have inside' := (List.Nodup.mem_erase_iff lawful.distinct).mp inside
    exact (AList.lookup_insert_ne inside'.1).trans (lawful.peersFree tested inside'.2)
  seedsFree := by
    intro tested isSeed
    have other : tested ≠ endpoint := fun same => plain (same ▸ isSeed)
    exact (AList.lookup_insert_ne other).trans (lawful.seedsFree tested isSeed)
  room := List.erase_sublist.countP_le.trans lawful.room
  named := lawful.named
  listed := lawful.listed
  scored := lawful.scored
  hard := by
    change net.softBanned.erase endpoint = ∅
    rw [lawful.hard]
    rfl

/-- `add_peer` keeps the table lawful. -/
theorem Lawful.addPeer (lawful : Lawful net) (now : Int) (endpoint : Bytes) :
    Lawful (net.addPeer now endpoint).2 := by
  obtain same | ⟨-, -, peers, score, thinned, same | ⟨fresh, fits, same⟩⟩ :=
    addPeer_cases net now endpoint <;> rw [same]
  · exact lawful
  · exact (lawful.thinned thinned).unban endpoint
  · refine (((lawful.thinned thinned).unban endpoint).unlist endpoint).join ?_ ?_ (.inr fits)
    · exact fun inside => fresh (thinned.sub.subset inside)
    · exact AList.lookup_erase _ _

/-- Every event keeps the table lawful. -/
theorem Lawful.step (lawful : Lawful net) (event : Event) : Lawful (net.step event) := by
  obtain ⟨now, operation⟩ := event
  cases operation with
  | addPeer endpoint => exact lawful.addPeer now endpoint
  | addSeed endpoint =>
    change Lawful (net.addSeed endpoint).2
    obtain ⟨-, same⟩ | ⟨-, same⟩ | ⟨fresh, score, thinned, same⟩ := addSeed_cases net endpoint <;> rw [same]
    · exact lawful
    · exact lawful.seed endpoint
    · refine ((lawful.thinned thinned).seed endpoint).join fresh (AList.lookup_erase _ _) (.inl ?_)
      exact Finset.mem_insert_self _ _
  | addCandidate endpoint =>
    change Lawful (net.addCandidate now endpoint).2
    unfold addCandidate
    split
    · exact lawful
    · rename_i good
      split
      · exact lawful
      · rename_i fits
        refine lawful.list (fun none => good (.inl ?_)) (Nat.not_le.mp fits)
        rw [none]
        rfl
  | promoteCandidate endpoint =>
    change Lawful (net.promoteCandidate now endpoint).2
    unfold promoteCandidate
    split
    · exact lawful
    · exact (lawful.unlist endpoint).addPeer now endpoint
  | removeCandidate endpoint => exact lawful.unlist endpoint
  | removePeer endpoint => exact lawful.leave endpoint
  | markPeerGood endpoint =>
    change Lawful (net.markPeerGood endpoint)
    unfold markPeerGood
    split
    · exact lawful
    · have range := lawful.range endpoint
      refine (lawful.setScore endpoint ?_ (min_le_left _ _)).resume endpoint
      exact le_min (by decide) (by omega)
  | markPeerBad endpoint =>
    change Lawful (net.markPeerBad now endpoint)
    have range := lawful.range endpoint
    unfold markPeerBad
    split
    · exact lawful
    · dsimp only
      split
      · exact lawful.setScore endpoint (le_max_left _ _) (max_le (by decide) (by omega))
      · split
        · exact (lawful.backOff endpoint (now + 60)).setScore endpoint (by decide) (by decide)
        · exact (lawful.banned ‹_› _).dropScore endpoint
  | markPeerUnreachable endpoint =>
    change Lawful (net.markPeerUnreachable now endpoint)
    have range := lawful.range endpoint
    unfold markPeerUnreachable
    split
    · exact lawful
    · dsimp only
      split
      · exact (lawful.backOff endpoint (now + 60)).setScore endpoint (by decide) (by decide)
      · exact lawful.setScore endpoint (le_max_left _ _) (max_le (by decide) (by omega))
  | readmitAuthenticated endpoint =>
    change Lawful (net.readmitAuthenticated now endpoint)
    have range := lawful.range endpoint
    have free := (lawful.resume endpoint).unban endpoint
    have low : kMinScore ≤ max 0 (net.scoreOf endpoint) := le_trans (by decide) (le_max_left _ _)
    have high : max 0 (net.scoreOf endpoint) ≤ kMaxScore := max_le (by decide) range.2
    obtain ⟨-, same⟩ | ⟨-, ⟨-, same⟩ | ⟨fresh, fits, same⟩⟩ :=
      readmitAuthenticated_cases lawful.hard now endpoint <;> rw [same]
    · exact lawful.resume endpoint
    · exact free.setScore endpoint low high
    · exact (free.join fresh (AList.lookup_erase _ _) (.inr fits)).setScore endpoint low high

/-- Every list of events keeps the table lawful. -/
theorem reached_lawful (lawful : Lawful start) (events : List Event) :
    Lawful (reached start events) := by
  unfold reached
  induction events using List.reverseRecOn with
  | nil => exact lawful
  | append_singleton front event ih =>
    rw [List.foldl_append]
    exact ih.step event

/-! ### Seeds, limits and bans -/

/-- What no operation changes or takes away. -/
structure Extends (net next : PeerNetwork) : Prop where
  maxPeers : next.maxPeers = net.maxPeers
  maxCandidates : next.maxCandidates = net.maxCandidates
  banSeconds : next.banSeconds = net.banSeconds
  seeds : net.seeds ⊆ next.seeds

theorem Extends.refl (net : PeerNetwork) : Extends net net := ⟨rfl, rfl, rfl, Finset.Subset.refl _⟩

theorem Extends.trans {first second third : PeerNetwork} (left : Extends first second)
    (right : Extends second third) : Extends first third :=
  ⟨right.maxPeers.trans left.maxPeers, right.maxCandidates.trans left.maxCandidates,
    right.banSeconds.trans left.banSeconds, left.seeds.trans right.seeds⟩

theorem addPeer_extends (net : PeerNetwork) (now : Int) (endpoint : Bytes) :
    Extends net (net.addPeer now endpoint).2 := by
  obtain same | ⟨-, -, peers, score, -, same | ⟨-, -, same⟩⟩ := addPeer_cases net now endpoint <;> rw [same]
  · exact .refl net
  · exact ⟨rfl, rfl, rfl, Finset.Subset.refl _⟩
  · exact ⟨rfl, rfl, rfl, Finset.Subset.refl _⟩

/-- An event neither moves the limits nor takes back a seed. -/
theorem step_extends (lawful : Lawful net) (event : Event) : Extends net (net.step event) := by
  have plain : ∀ next : PeerNetwork, next.maxPeers = net.maxPeers →
      next.maxCandidates = net.maxCandidates → next.banSeconds = net.banSeconds →
      next.seeds = net.seeds → Extends net next :=
    fun next maxPeers maxCandidates banSeconds seeds =>
      ⟨maxPeers, maxCandidates, banSeconds, seeds.symm.subset⟩
  obtain ⟨now, operation⟩ := event
  cases operation with
  | addPeer endpoint => exact addPeer_extends net now endpoint
  | addSeed endpoint =>
    change Extends net (net.addSeed endpoint).2
    obtain ⟨-, same⟩ | ⟨-, same⟩ | ⟨-, score, -, same⟩ := addSeed_cases net endpoint <;> rw [same]
    · exact .refl net
    · exact ⟨rfl, rfl, rfl, Finset.subset_insert _ _⟩
    · exact ⟨rfl, rfl, rfl, Finset.subset_insert _ _⟩
  | addCandidate endpoint =>
    change Extends net (net.addCandidate now endpoint).2
    unfold addCandidate
    split
    · exact .refl net
    · split <;> exact plain _ rfl rfl rfl rfl
  | promoteCandidate endpoint =>
    change Extends net (net.promoteCandidate now endpoint).2
    unfold promoteCandidate
    split
    · exact .refl net
    · exact (plain (net.unlist endpoint) rfl rfl rfl rfl).trans (addPeer_extends _ now endpoint)
  | removeCandidate endpoint => exact plain _ rfl rfl rfl rfl
  | removePeer endpoint => exact plain _ rfl rfl rfl rfl
  | markPeerGood endpoint =>
    change Extends net (net.markPeerGood endpoint)
    unfold markPeerGood
    split <;> exact plain _ rfl rfl rfl rfl
  | markPeerBad endpoint =>
    change Extends net (net.markPeerBad now endpoint)
    unfold markPeerBad
    split
    · exact .refl net
    · dsimp only
      split
      · exact plain _ rfl rfl rfl rfl
      · split <;> exact plain _ rfl rfl rfl rfl
  | markPeerUnreachable endpoint =>
    change Extends net (net.markPeerUnreachable now endpoint)
    unfold markPeerUnreachable
    split
    · exact .refl net
    · dsimp only
      split <;> exact plain _ rfl rfl rfl rfl
  | readmitAuthenticated endpoint =>
    change Extends net (net.readmitAuthenticated now endpoint)
    obtain ⟨-, same⟩ | ⟨-, ⟨-, same⟩ | ⟨-, -, same⟩⟩ :=
      readmitAuthenticated_cases lawful.hard now endpoint <;> rw [same] <;> exact plain _ rfl rfl rfl rfl

/-- No list of events does. -/
theorem reached_extends (lawful : Lawful start) (events : List Event) :
    Extends start (reached start events) := by
  induction events using List.reverseRecOn with
  | nil => exact .refl start
  | append_singleton front event ih =>
    rw [reached, List.foldl_append]
    exact ih.trans (step_extends (reached_lawful lawful front) event)

theorem addPeer_seed (now : Int) (endpoint : Bytes) {seed : Bytes} (isSeed : seed ∈ net.seeds)
    (inside : seed ∈ net.peers) : seed ∈ (net.addPeer now endpoint).2.peers := by
  obtain same | ⟨-, -, peers, score, thinned, same | ⟨-, -, same⟩⟩ :=
    addPeer_cases net now endpoint <;> rw [same]
  · exact inside
  · exact thinned.seeds seed isSeed inside
  · exact List.mem_append_left _ (thinned.seeds seed isSeed inside)

/-- A seed leaves only by `remove_peer`. -/
theorem step_seed (lawful : Lawful net) (event : Event) {seed : Bytes} (isSeed : seed ∈ net.seeds)
    (inside : seed ∈ net.peers) :
    seed ∈ (net.step event).peers ∨ event.operation = .removePeer seed := by
  obtain ⟨now, operation⟩ := event
  cases operation with
  | addPeer endpoint => exact .inl (addPeer_seed now endpoint isSeed inside)
  | addSeed endpoint =>
    refine .inl (?_ : seed ∈ (net.addSeed endpoint).2.peers)
    obtain ⟨-, same⟩ | ⟨-, same⟩ | ⟨-, score, -, same⟩ := addSeed_cases net endpoint <;> rw [same]
    · exact inside
    · exact inside
    · exact List.mem_append_left _ inside
  | addCandidate endpoint =>
    refine .inl (?_ : seed ∈ (net.addCandidate now endpoint).2.peers)
    unfold addCandidate
    split
    · exact inside
    · split <;> exact inside
  | promoteCandidate endpoint =>
    refine .inl (?_ : seed ∈ (net.promoteCandidate now endpoint).2.peers)
    unfold promoteCandidate
    split
    · exact inside
    · exact @addPeer_seed (net.unlist endpoint) now endpoint seed isSeed inside
  | removeCandidate endpoint => exact .inl inside
  | removePeer endpoint =>
    by_cases same : seed = endpoint
    · exact .inr (same ▸ rfl)
    · exact .inl ((List.mem_erase_of_ne same).mpr inside)
  | markPeerGood endpoint =>
    refine .inl (?_ : seed ∈ (net.markPeerGood endpoint).peers)
    unfold markPeerGood
    split <;> exact inside
  | markPeerBad endpoint =>
    refine .inl (?_ : seed ∈ (net.markPeerBad now endpoint).peers)
    unfold markPeerBad
    split
    · exact inside
    · dsimp only
      split
      · exact inside
      · split
        · exact inside
        · rename_i plain
          have different : seed ≠ endpoint := by
            rintro rfl
            exact plain isSeed
          exact (List.mem_erase_of_ne different).mpr inside
  | markPeerUnreachable endpoint =>
    refine .inl (?_ : seed ∈ (net.markPeerUnreachable now endpoint).peers)
    unfold markPeerUnreachable
    split
    · exact inside
    · dsimp only
      split <;> exact inside
  | readmitAuthenticated endpoint =>
    refine .inl (?_ : seed ∈ (net.readmitAuthenticated now endpoint).peers)
    obtain ⟨-, same⟩ | ⟨-, ⟨-, same⟩ | ⟨-, -, same⟩⟩ :=
      readmitAuthenticated_cases lawful.hard now endpoint <;> rw [same]
    · exact inside
    · exact inside
    · exact List.mem_append_left _ inside

/-- No peer, and banned until a time. -/
structure Barred (net : PeerNetwork) (endpoint : Bytes) (expiry : Int) : Prop where
  absent : endpoint ∉ net.peers
  banned : net.banned.lookup endpoint = some expiry

theorem Barred.isBanned (barred : Barred net endpoint expiry)
    (early : now < expiry) : net.isBanned now endpoint = true := by
  simp [PeerNetwork.isBanned, barred.banned, early]

/-- Adding another peer leaves a ban. -/
theorem Barred.addPeer (barred : Barred net endpoint expiry)
    (early : now < expiry) (other : Bytes) : Barred (net.addPeer now other).2 endpoint expiry := by
  obtain same | ⟨-, free, peers, score, thinned, same⟩ := addPeer_cases net now other
  · rw [same]
    exact barred
  · have different : endpoint ≠ other := by
      rintro rfl
      rw [barred.isBanned early] at free
      exact nomatch free
    have banned := (AList.lookup_erase_ne different (s := net.banned)).trans barred.banned
    have absent : endpoint ∉ peers := fun inside => barred.absent (thinned.sub.subset inside)
    obtain same | ⟨-, -, same⟩ := same <;> rw [same]
    · exact ⟨absent, banned⟩
    · refine ⟨fun inside => ?_, banned⟩
      rcases List.mem_append.mp inside with before | new
      · exact absent before
      · exact different (List.mem_singleton.mp new)

/-- Before a ban is over, only `add_seed` lifts it. -/
theorem Barred.step (barred : Barred net endpoint expiry)
    (lawful : Lawful net) (event : Event) (early : event.now < expiry)
    (unseeded : event.operation ≠ .addSeed endpoint) : Barred (net.step event) endpoint expiry := by
  obtain ⟨now, operation⟩ := event
  have left : ∀ other, endpoint ∉ net.peers.erase other :=
    fun other inside => barred.absent (List.mem_of_mem_erase inside)
  have joined : ∀ other, endpoint ≠ other → endpoint ∉ net.peers ++ [other] := by
    intro other different inside
    rcases List.mem_append.mp inside with before | new
    · exact barred.absent before
    · exact different (List.mem_singleton.mp new)
  have lifted : ∀ other, endpoint ≠ other → (net.banned.erase other).lookup endpoint = some expiry :=
    fun other different => (AList.lookup_erase_ne different).trans barred.banned
  cases operation with
  | addPeer other => exact barred.addPeer early other
  | addSeed other =>
    have different : endpoint ≠ other := fun same => unseeded (same ▸ rfl)
    change Barred (net.addSeed other).2 endpoint expiry
    obtain ⟨-, same⟩ | ⟨-, same⟩ | ⟨-, score, -, same⟩ := addSeed_cases net other <;> rw [same]
    · exact barred
    · exact ⟨barred.absent, lifted other different⟩
    · exact ⟨joined other different, lifted other different⟩
  | addCandidate other =>
    change Barred (net.addCandidate now other).2 endpoint expiry
    unfold addCandidate
    split
    · exact barred
    · split <;> exact ⟨barred.absent, barred.banned⟩
  | promoteCandidate other =>
    change Barred (net.promoteCandidate now other).2 endpoint expiry
    unfold promoteCandidate
    split
    · exact barred
    · exact @Barred.addPeer (net.unlist other) _ _ _ ⟨barred.absent, barred.banned⟩ early other
  | removeCandidate other => exact ⟨barred.absent, barred.banned⟩
  | removePeer other => exact ⟨left other, barred.banned⟩
  | markPeerGood other =>
    change Barred (net.markPeerGood other) endpoint expiry
    unfold markPeerGood
    split <;> exact ⟨barred.absent, barred.banned⟩
  | markPeerBad other =>
    change Barred (net.markPeerBad now other) endpoint expiry
    unfold markPeerBad
    split
    · exact barred
    · rename_i inside
      dsimp only
      split
      · exact ⟨barred.absent, barred.banned⟩
      · split
        · exact ⟨barred.absent, barred.banned⟩
        · have different : endpoint ≠ other := fun same => inside (same ▸ barred.absent)
          exact ⟨left other, (AList.lookup_insert_ne different).trans barred.banned⟩
  | markPeerUnreachable other =>
    change Barred (net.markPeerUnreachable now other) endpoint expiry
    unfold markPeerUnreachable
    split
    · exact barred
    · dsimp only
      split <;> exact ⟨barred.absent, barred.banned⟩
  | readmitAuthenticated other =>
    change Barred (net.readmitAuthenticated now other) endpoint expiry
    obtain ⟨-, same⟩ | ⟨free, same⟩ := readmitAuthenticated_cases lawful.hard now other
    · rw [same]
      exact ⟨barred.absent, barred.banned⟩
    · have different : endpoint ≠ other := by
        rintro rfl
        rw [barred.isBanned early] at free
        exact nomatch free
      obtain ⟨-, same⟩ | ⟨-, -, same⟩ := same <;> rw [same]
      · exact ⟨barred.absent, lifted other different⟩
      · exact ⟨joined other different, lifted other different⟩

/-- A peer that `mark_peer_bad` takes away is banned for the ban time. -/
theorem markPeerBad_barred (now : Int) (endpoint : Bytes)
    (inside : endpoint ∈ net.peers) (gone : endpoint ∉ (net.markPeerBad now endpoint).peers) :
    Barred (net.markPeerBad now endpoint) endpoint (now + net.banSeconds) := by
  refine ⟨gone, ?_⟩
  unfold markPeerBad at gone ⊢
  rw [if_neg (not_not.mpr inside)] at gone ⊢
  dsimp only at gone ⊢
  split at gone
  · exact absurd inside gone
  · split at gone
    · exact absurd inside gone
    · rw [if_neg ‹_›, if_neg ‹_›]
      exact AList.lookup_insert _

/-! ### Candidates -/

/-- No candidate is a peer. -/
def Apart (net : PeerNetwork) : Prop := ∀ endpoint ∈ net.candidates, endpoint ∉ net.peers

/-- A new peer is no candidate. -/
theorem Apart.addPeer (apart : Apart net) (now : Int) (endpoint : Bytes) :
    Apart (net.addPeer now endpoint).2 := by
  obtain same | ⟨-, -, peers, score, thinned, same | ⟨-, -, same⟩⟩ :=
    addPeer_cases net now endpoint <;> rw [same]
  · exact apart
  · exact fun other listed inside => apart other listed (thinned.sub.subset inside)
  · intro other listed inside
    obtain ⟨different, listed⟩ := Finset.mem_erase.mp listed
    rcases List.mem_append.mp inside with before | new
    · exact apart other listed (thinned.sub.subset before)
    · exact different (List.mem_singleton.mp new)

theorem Apart.joined (apart : Apart net) (unlisted : endpoint ∉ net.candidates) :
    ∀ other ∈ net.candidates, other ∉ net.peers ++ [endpoint] := by
  intro other listed inside
  rcases List.mem_append.mp inside with before | new
  · exact apart other listed before
  · exact unlisted (List.mem_singleton.mp new ▸ listed)

theorem Apart.unlist (apart : Apart net) (endpoint : Bytes) : Apart (net.unlist endpoint) :=
  fun other listed => apart other (Finset.mem_of_mem_erase listed)

theorem Apart.leave (apart : Apart net) (endpoint : Bytes) : Apart (net.leave endpoint) :=
  fun other listed inside => apart other listed (List.mem_of_mem_erase inside)

/-- Peers and candidates stay apart, but for the calls that mix them. -/
theorem Apart.step (apart : Apart net) (lawful : Lawful net) (event : Event)
    (keeps : KeepsApart net event) : Apart (net.step event) := by
  obtain ⟨now, operation⟩ := event
  cases operation with
  | addPeer endpoint => exact apart.addPeer now endpoint
  | addSeed endpoint =>
    change Apart (net.addSeed endpoint).2
    obtain ⟨-, same⟩ | ⟨-, same⟩ | ⟨-, score, -, same⟩ := addSeed_cases net endpoint <;> rw [same]
    · exact apart
    · exact apart
    · exact apart.joined keeps
  | addCandidate endpoint =>
    change Apart (net.addCandidate now endpoint).2
    unfold addCandidate
    split
    · exact apart
    · rename_i good
      split
      · exact apart
      · intro other listed inside
        rcases Finset.mem_insert.mp listed with rfl | before
        · exact good (.inr (.inl inside))
        · exact apart other before inside
  | promoteCandidate endpoint =>
    change Apart (net.promoteCandidate now endpoint).2
    unfold promoteCandidate
    split
    · exact apart
    · exact (apart.unlist endpoint).addPeer now endpoint
  | removeCandidate endpoint => exact apart.unlist endpoint
  | removePeer endpoint => exact apart.leave endpoint
  | markPeerGood endpoint =>
    change Apart (net.markPeerGood endpoint)
    unfold markPeerGood
    split <;> exact apart
  | markPeerBad endpoint =>
    change Apart (net.markPeerBad now endpoint)
    unfold markPeerBad
    split
    · exact apart
    · dsimp only
      split
      · exact apart
      · split
        · exact apart
        · exact apart.leave endpoint
  | markPeerUnreachable endpoint =>
    change Apart (net.markPeerUnreachable now endpoint)
    unfold markPeerUnreachable
    split
    · exact apart
    · dsimp only
      split <;> exact apart
  | readmitAuthenticated endpoint =>
    change Apart (net.readmitAuthenticated now endpoint)
    obtain ⟨-, same⟩ | ⟨free, ⟨-, same⟩ | ⟨-, fits, same⟩⟩ :=
      readmitAuthenticated_cases lawful.hard now endpoint <;> rw [same]
    · exact apart
    · exact apart
    · refine @Apart.joined net _ apart fun listed => ?_
      obtain banned | full := keeps listed
      · exact nomatch free.symm.trans banned
      · exact absurd fits (Nat.not_lt.mpr full)

/-- A candidate that is made a seed or readmitted stays a candidate. -/
theorem not_apart_step (lawful : Lawful net) (event : Event) (mixes : ¬ KeepsApart net event) :
    ¬ Apart (net.step event) := by
  obtain ⟨now, operation⟩ := event
  cases operation with
  | addSeed endpoint =>
    have listed : endpoint ∈ net.candidates := not_not.mp mixes
    change ¬ Apart (net.addSeed endpoint).2
    obtain ⟨rfl, -⟩ | ⟨inside, same⟩ | ⟨-, score, -, same⟩ := addSeed_cases net endpoint
    · exact absurd listed lawful.named
    · rw [same]
      exact fun apart => apart endpoint listed inside
    · rw [same]
      exact fun apart => apart endpoint listed (List.mem_append_right _ (List.mem_singleton_self _))
  | readmitAuthenticated endpoint =>
    obtain ⟨listed, other⟩ := Classical.not_imp.mp mixes
    obtain ⟨free, room⟩ := not_or.mp other
    change ¬ Apart (net.readmitAuthenticated now endpoint)
    obtain ⟨banned, -⟩ | ⟨-, ⟨inside | full, same⟩ | ⟨-, -, same⟩⟩ :=
      readmitAuthenticated_cases lawful.hard now endpoint
    · exact absurd banned free
    · rw [same]
      exact fun apart => apart endpoint listed inside
    · exact absurd full room
    · rw [same]
      exact fun apart => apart endpoint listed (List.mem_append_right _ (List.mem_singleton_self _))
  | addPeer endpoint => exact absurd trivial mixes
  | addCandidate endpoint => exact absurd trivial mixes
  | promoteCandidate endpoint => exact absurd trivial mixes
  | removeCandidate endpoint => exact absurd trivial mixes
  | removePeer endpoint => exact absurd trivial mixes
  | markPeerGood endpoint => exact absurd trivial mixes
  | markPeerBad endpoint => exact absurd trivial mixes
  | markPeerUnreachable endpoint => exact absurd trivial mixes

/-! ### Runs -/

theorem reached_append (start : PeerNetwork) (front later : List Event) :
    reached start (front ++ later) = reached (reached start front) later :=
  List.foldl_append

theorem reached_snoc (start : PeerNetwork) (front : List Event) (event : Event) :
    reached start (front ++ [event]) = (reached start front).step event :=
  reached_append start front [event]

/-- A seed that was added stays a seed. -/
theorem reached_seeded (lawful : Lawful start) (front : List Event)
    (some : endpoint ≠ []) (called : ⟨now, .addSeed endpoint⟩ ∈ front) :
    endpoint ∈ (reached start front).seeds := by
  obtain ⟨early, later, rfl⟩ := List.append_of_mem called
  have there : endpoint ∈ ((reached start early).step ⟨now, .addSeed endpoint⟩).seeds := by
    change endpoint ∈ ((reached start early).addSeed endpoint).2.seeds
    obtain ⟨none, -⟩ | ⟨-, same⟩ | ⟨-, score, -, same⟩ := addSeed_cases (reached start early) endpoint
    · exact absurd none some
    · rw [same]
      exact Finset.mem_insert_self _ _
    · rw [same]
      exact Finset.mem_insert_self _ _
  have stays := reached_extends ((reached_lawful lawful early).step ⟨now, .addSeed endpoint⟩) later
  rw [reached_append]
  exact stays.seeds there

/-- A ban stays until it ends, unless the endpoint becomes a seed. -/
theorem reached_barred (lawful : Lawful start)
    (barred : Barred start endpoint expiry) (later : List Event)
    (early : ∀ event ∈ later, event.now < expiry ∧ event.operation ≠ .addSeed endpoint) :
    Barred (reached start later) endpoint expiry := by
  induction later using List.reverseRecOn with
  | nil => exact barred
  | append_singleton front event ih =>
    have before := ih (fun other member => early other (List.mem_append_left _ member))
    obtain ⟨soon, unseeded⟩ := early event (by simp)
    rw [reached_snoc]
    exact before.step (reached_lawful lawful front) event soon unseeded

theorem isBanned_of_free (free : net.banned.lookup endpoint = none) (now : Int) :
    net.isBanned now endpoint = false := by
  rw [isBanned, free]
  rfl

/-- What the invariants say of a table, put together. -/
theorem Lawful.ordered (lawful : Lawful net) (extends' : Extends start net)
    (apart : Apart net) : Ordered start net where
  distinct := lawful.distinct
  peersFree := fun endpoint inside => isBanned_of_free (lawful.peersFree endpoint inside)
  seedsFree := fun endpoint isSeed => isBanned_of_free (lawful.seedsFree endpoint isSeed)
  room := extends'.maxPeers ▸ lawful.room
  apart := apart
  listed := extends'.maxCandidates ▸ lawful.listed
  scored := lawful.range

/-- A table of peers is sound in exactly the runs in which no candidate is made a seed, or readmitted
while there is room and no ban. -/
theorem peers_sound_iff (maxPeers maxCandidates : Nat) (banSeconds : Int) (events : List Event) :
    Sound (limited maxPeers maxCandidates banSeconds) events ↔
      EachStep step KeepsApart (limited maxPeers maxCandidates banSeconds) events := by
  have lawful := lawful_limited maxPeers maxCandidates banSeconds
  have fresh : Apart (limited maxPeers maxCandidates banSeconds) :=
    fun endpoint listed => absurd listed (Finset.notMem_empty endpoint)
  generalize limited maxPeers maxCandidates banSeconds = start at lawful fresh ⊢
  constructor
  · intro sound
    rw [eachStep_iff]
    intro front event cut
    by_contra mixes
    refine not_apart_step (reached_lawful lawful front) event mixes ?_
    rw [← reached_snoc]
    exact (sound.ordered _ cut).apart
  · intro keeps
    have apart : ∀ front, front <+: events → Lawful (reached start front) ∧ Apart (reached start front) :=
      keeps.carries (fun net => Lawful net ∧ Apart net)
        (fun net event held meets => ⟨held.1.step event, held.2.step held.1 event meets⟩)
        ⟨lawful, fresh⟩
    exact {
      ordered := fun front cut => (apart front cut).1.ordered (reached_extends lawful front) (apart front cut).2
      seeded := fun front now endpoint _ some called => reached_seeded lawful front some called
      kept := by
        intro front event _ endpoint isSeed inside
        rw [reached_snoc]
        exact step_seed (reached_lawful lawful front) event isSeed inside
      barred := by
        intro front now endpoint later _ inside gone early
        rw [reached_snoc] at gone
        have limits := reached_extends lawful front
        have barred := @markPeerBad_barred (reached start front) now endpoint inside gone
        rw [limits.banSeconds] at barred
        rw [reached_append]
        have held := (reached_lawful lawful front).step ⟨now, .markPeerBad endpoint⟩
        exact (reached_barred held barred later early).absent }

/-- A candidate that is made a seed. -/
def seededCandidate : List Event :=
  [⟨0, .addCandidate (ascii "a")⟩, ⟨0, .addSeed (ascii "a")⟩]

/-- `add_seed` leaves it among the candidates. -/
theorem seededCandidate_listed : ¬ Sound (limited 2 2 60) seededCandidate := by
  intro sound
  refine (sound.ordered seededCandidate (List.prefix_refl _)).apart (ascii "a") ?_ ?_
  · decide +kernel
  · decide +kernel

theorem limited_maxPeers (maxPeers maxCandidates : Nat) (banSeconds : Int) :
    0 < (limited maxPeers maxCandidates banSeconds).maxPeers := by
  change 0 < if 0 < maxPeers then maxPeers else 1
  split
  · assumption
  · exact Nat.one_pos

/-- Eviction from a table that a run reaches ends with room, or where only seeds are left, or where a
peer without a name would go next, which the loop takes for nobody. Who goes is no seed and goes before everyone who stays and is
no seed; and when the table is read in another order, the same peers stay. -/
theorem evictIfFull_lowest (maxPeers maxCandidates : Nat) (banSeconds : Int) (events : List Event)
    (net : PeerNetwork) (reaches : net = reached (limited maxPeers maxCandidates banSeconds) events) :
    (net.evictIfFull.peers.length < net.maxPeers ∨
        (∀ peer ∈ net.evictIfFull.peers, peer ∈ net.seeds) ∨
        ([] ∈ net.evictIfFull.peers ∧ [] ∉ net.seeds ∧ net.evictIfFull.victim = [])) ∧
      (∀ gone ∈ net.peers, gone ∉ net.evictIfFull.peers → gone ∉ net.seeds ∧
        ∀ stays ∈ net.evictIfFull.peers, stays ∉ net.seeds → net.Before gone stays) ∧
      ∀ order, order.Perm net.peers →
        (evictIfFull { net with peers := order }).peers.Perm net.evictIfFull.peers := by
  have lawful : Lawful net := reaches ▸ reached_lawful (lawful_limited _ _ _) events
  have positive : 0 < net.maxPeers := by
    rw [reaches, (reached_extends (lawful_limited _ _ _) events).maxPeers]
    exact limited_maxPeers maxPeers maxCandidates banSeconds
  have scored : ∀ peer ∈ net.peers, net.scoreOf peer ≤ kMaxScore := fun peer _ => (lawful.range peer).2
  refine ⟨?_, evictRounds_before _ net lawful.distinct scored, fun order perm => ?_⟩
  · refine (evictRounds_done _ net (Nat.le_refl _) positive).imp_right fun none => ?_
    obtain ⟨peers, score, left, sub, -, scores⟩ := evictRounds_spec net.peers.length net
    have scored' : ∀ peer ∈ net.evictIfFull.peers, net.evictIfFull.scoreOf peer ≤ kMaxScore := by
      intro peer _
      rw [evictIfFull, left]
      unfold scoreOf
      cases found : score.lookup peer with
      | none => decide
      | some value => exact (lawful.scored peer value (scores peer value found)).2
    have none : net.evictIfFull.victim = [] := none
    obtain ⟨seeds, -⟩ | ⟨inside, plain, -⟩ := found_all scored'
    · rw [evictIfFull, left] at seeds ⊢
      exact .inl seeds
    · have same : net.evictIfFull.seeds = net.seeds := by
        rw [evictIfFull, left]
      rw [same] at plain
      exact .inr ⟨none ▸ inside, none ▸ plain, none⟩
  · unfold evictIfFull
    rw [show ({ net with peers := order } : PeerNetwork).peers.length = net.peers.length from perm.length_eq]
    exact evictRounds_perm _ net lawful.distinct scored order perm

/-- Two peers where there is room for two, and the first one was good. -/
def fullTable : PeerNetwork :=
  reached (limited 2 2 60) [⟨0, .addPeer (ascii "a")⟩, ⟨0, .addPeer (ascii "b")⟩,
    ⟨0, .markPeerGood (ascii "a")⟩]

/-- The lowest of a full table leaves. -/
theorem fullTable_lowest : fullTable.Before (ascii "b") (ascii "a") ∧
    (evictIfFull { fullTable with peers := [ascii "b", ascii "a"] }).peers.Perm
      fullTable.evictIfFull.peers := by
  obtain ⟨-, lowest, orders⟩ := evictIfFull_lowest 2 2 60 _ fullTable rfl
  have first := lowest (ascii "b") (by decide +kernel) (by decide +kernel)
  exact ⟨first.2 (ascii "a") (by decide +kernel) (by decide +kernel), orders _ (by decide +kernel)⟩

end PeerNetwork

end Addition
