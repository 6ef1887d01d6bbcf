import Addition.StemRouting

/-!
# The router along its calls

A call of the router leaves the embargoes alone, and an expiry takes out those that have ended. Within
an epoch, while the relays that were picked are among the peers, every source keeps its relay: what the
router answers is one function of the source, which other sources cannot change.
-/

namespace Addition

open ByteStrings FiniteTables Runs

/-! ### Routes and embargoes -/

namespace DandelionRouter

/-- The embargoes of a router and their lengths are those of another one. -/
structure SameEmbargoes (router left : DandelionRouter) : Prop where
  ends : left.embargoUntil = router.embargoUntil
  base : left.embargoBaseSeconds = router.embargoBaseSeconds
  jitter : left.embargoJitterSeconds = router.embargoJitterSeconds

theorem maybeNewEpoch_embargoes (router : DandelionRouter) (now : Int) (draws : Draws)
    (outbound : List Bytes) : SameEmbargoes router (router.maybeNewEpoch now draws outbound) := by
  unfold maybeNewEpoch
  split
  · exact ⟨rfl, rfl, rfl⟩
  · exact ⟨rfl, rfl, rfl⟩

theorem relayOf_embargoes (router : DandelionRouter) (pick : Nat) (source first : Bytes)
    (others : List Bytes) : SameEmbargoes router (router.relayOf pick source first others).2 := by
  unfold relayOf
  split
  · split
    · exact ⟨rfl, rfl, rfl⟩
    · exact ⟨rfl, rfl, rfl⟩
  · exact ⟨rfl, rfl, rfl⟩

theorem route_embargoes (router : DandelionRouter) (now : Int) (draws : Draws) (source : Bytes)
    (outbound : List Bytes) : SameEmbargoes router (router.route now draws source outbound).2 := by
  have current := router.maybeNewEpoch_embargoes now draws outbound
  unfold route
  dsimp only
  split
  · exact current
  split
  · exact current
  · rename_i first others _
    have picked := (router.maybeNewEpoch now draws outbound).relayOf_embargoes draws.pick source first
      others
    constructor
    · exact picked.ends.trans current.ends
    · exact picked.base.trans current.base
    · exact picked.jitter.trans current.jitter

/-- The jitter is within its bound. -/
theorem jitter_le (router : DandelionRouter) (draw : Nat) :
    router.jitter draw ≤ max 0 router.embargoJitterSeconds := by
  have below : draw % ((max 0 router.embargoJitterSeconds).toNat + 1) <
      (max 0 router.embargoJitterSeconds).toNat + 1 := Nat.mod_lt _ (Nat.succ_pos _)
  unfold jitter
  omega

theorem mem_expired (router : DandelionRouter) (now : Int) (txid : Bytes) :
    txid ∈ router.expired now ↔ ∃ time, router.embargoUntil.lookup txid = some time ∧ time ≤ now := by
  unfold expired
  rw [List.mem_mergeSort, List.mem_map]
  constructor
  · rintro ⟨entry, inside, rfl⟩
    obtain ⟨listed, ended⟩ := List.mem_filter.mp inside
    exact ⟨entry.2, List.mem_dlookup router.embargoUntil.nodupKeys listed, of_decide_eq_true ended⟩
  · rintro ⟨time, found, ended⟩
    refine ⟨⟨txid, time⟩, List.mem_filter.mpr ⟨List.of_mem_dlookup found, ?_⟩, rfl⟩
    exact decide_eq_true ended

theorem expired_lookup (router : DandelionRouter) (now : Int) (txid : Bytes) :
    (router.expiredEmbargoes now).2.embargoUntil.lookup txid =
      if txid ∈ router.expired now then none else router.embargoUntil.lookup txid := by
  have kept : (router.expiredEmbargoes now).2.embargoUntil.lookup txid =
      (router.embargoUntil.lookup txid).filter (fun time => decide (now < time)) := lookup_keep _ _ _
  have ended := router.mem_expired now txid
  rw [kept]
  by_cases gone : txid ∈ router.expired now
  · obtain ⟨time, found, before⟩ := ended.mp gone
    rw [if_pos gone, found]
    rw [Option.filter_some, if_neg (by simpa using before)]
  · rw [if_neg gone]
    rw [ended] at gone
    push Not at gone
    cases found : router.embargoUntil.lookup txid with
    | none => rfl
    | some time => rw [Option.filter_some, if_pos (decide_eq_true (gone time found))]

end DandelionRouter

/-! ### Relays within an epoch -/

namespace DandelionRouter

/-- A call of `route`. -/
structure Call where
  now : Int
  draws : Draws
  source : Bytes
  outbound : List Bytes

/-- What a call answers, and the router after it. -/
def answer (router : DandelionRouter) (call : Call) : Option Bytes × DandelionRouter :=
  router.route call.now call.draws call.source call.outbound

/-- The epoch is the same, and every relay is among the peers. -/
def Settled (router : DandelionRouter) (call : Call) : Prop :=
  router.epochAt call.now = router.epoch ∧ router.stale call.outbound = false ∧
    ¬ (router.relays = [] ∧ call.outbound ≠ [])

/-- The relays that a source may have. -/
def candidates (router : DandelionRouter) (source : Bytes) : List Bytes :=
  router.relays.filter (fun relay => decide (relay ≠ source))

/-- The transactions of a source are spread. -/
def Diffuses (router : DandelionRouter) (source : Bytes) : Prop :=
  source ≠ [] ∧ router.diffuser = true

/-- A choice of relays is that of a router, wherever it has made one. -/
structure Chooses (router : DandelionRouter) (choice : Bytes → Option Bytes) : Prop where
  spreads : ∀ source, router.Diffuses source ∨ router.candidates source = [] → choice source = none
  keeps : ∀ source relay, ¬ router.Diffuses source → relay ∈ router.candidates source →
    router.sourceToRelay.lookup (sourceKey source) = some relay → choice source = some relay
  offered : ∀ source relay, choice source = some relay → relay ∈ router.candidates source

open Classical in
theorem exists_choice (router : DandelionRouter) : ∃ choice, Chooses router choice := by
  refine ⟨fun source => if router.Diffuses source then none
    else ((router.sourceToRelay.lookup (sourceKey source)).filter
      (fun relay => decide (relay ∈ router.candidates source))).or (router.candidates source).head?, ?_⟩
  constructor
  · rintro source (diffuses | lonely)
    · exact if_pos diffuses
    · simp [lonely]
  · intro source relay stems inside found
    rw [if_neg stems, found, Option.filter_some, if_pos (decide_eq_true inside)]
    rfl
  · intro source relay chosen
    split at chosen
    · exact absurd chosen (by simp)
    · rcases Option.or_eq_some_iff.mp chosen with assigned | ⟨_, head⟩
      · exact of_decide_eq_true (Option.filter_eq_some_iff.mp assigned).2
      · exact List.mem_of_head? head

theorem picked_mem (pick : Nat) (first : Bytes) (others : List Bytes) :
    picked pick first others ∈ first :: others := List.get_mem _ _

/-- A relay is picked among the candidates and kept, unless one is kept. -/
theorem relayOf_spec (router : DandelionRouter) (pick : Nat) (source first : Bytes) (others : List Bytes) :
    (router.relayOf pick source first others).1 ∈ first :: others ∧
      (router.relayOf pick source first others).2.relays = router.relays ∧
      (router.relayOf pick source first others).2.diffuser = router.diffuser ∧
      (router.relayOf pick source first others).2.sourceToRelay.lookup (sourceKey source) =
        some (router.relayOf pick source first others).1 ∧
      (∀ key, key ≠ sourceKey source →
        (router.relayOf pick source first others).2.sourceToRelay.lookup key =
          router.sourceToRelay.lookup key) ∧
      ∀ relay ∈ first :: others, router.sourceToRelay.lookup (sourceKey source) = some relay →
        (router.relayOf pick source first others).1 = relay := by
  have assigned : ∀ relay : Bytes,
      (router.assign source relay).sourceToRelay.lookup (sourceKey source) = some relay :=
    fun relay => (lookup_insert _ _ _ _).trans (if_pos rfl)
  have others' : ∀ relay key : Bytes, key ≠ sourceKey source →
      (router.assign source relay).sourceToRelay.lookup key = router.sourceToRelay.lookup key :=
    fun relay key different => (lookup_insert _ _ _ _).trans (if_neg different)
  have fresh := picked_mem pick first others
  unfold relayOf
  cases found : router.sourceToRelay.lookup (sourceKey source) with
  | none =>
    exact ⟨fresh, rfl, rfl, assigned _, others' _, fun relay _ kept => absurd kept (by simp)⟩
  | some kept =>
    by_cases inside : kept ∈ first :: others
    · simp only [inside, ↓reduceIte]
      exact ⟨trivial, trivial, trivial, found, fun _ _ => trivial,
        fun relay _ same => Option.some_inj.mp same⟩
    · simp only [inside, ↓reduceIte]
      refine ⟨fresh, rfl, rfl, assigned _, others' _, fun relay here same => ?_⟩
      exact absurd (Option.some_inj.mp same ▸ here) inside

variable {router : DandelionRouter} {call : Call}

/-- Sources with one key have the same candidates, for no relay has an empty name or the name that
stands for local transactions. -/
theorem candidates_key
    (named : ∀ relay ∈ router.relays, relay ≠ [] ∧ relay ≠ localKey) {source other : Bytes}
    (same : sourceKey source = sourceKey other) : router.candidates source = router.candidates other := by
  have whole : ∀ name, name = [] ∨ name = localKey → router.candidates name = router.relays := by
    intro name either
    refine List.filter_eq_self.mpr fun relay here => decide_eq_true ?_
    rcases either with rfl | rfl
    · exact (named relay here).1
    · exact (named relay here).2
  unfold sourceKey at same
  split at same
  · rename_i empty
    rw [whole source (.inl (List.isEmpty_iff.mp empty))]
    split at same
    · rename_i empty'
      rw [whole other (.inl (List.isEmpty_iff.mp empty'))]
    · rw [whole other (.inr same.symm)]
  · split at same
    · rename_i empty
      rw [whole source (.inr same), whole other (.inl (List.isEmpty_iff.mp empty))]
    · rw [same]

/-- What a call answers and leaves while nothing is picked anew. -/
theorem answer_spec (settled : Settled router call) :
    (router.Diffuses call.source ∨ router.candidates call.source = []) ∧
        router.answer call = (none, router) ∨
      ∃ first others, ¬ router.Diffuses call.source ∧ router.candidates call.source = first :: others ∧
        router.answer call = (some (router.relayOf call.draws.pick call.source first others).1,
          (router.relayOf call.draws.pick call.source first others).2) := by
  have current : router.maybeNewEpoch call.now call.draws call.outbound = router := if_pos settled
  unfold answer route
  rw [current]
  dsimp only
  by_cases diffuses : call.source ≠ [] ∧ router.diffuser = true
  · exact .inl ⟨.inl diffuses, if_pos diffuses⟩
  · rw [if_neg diffuses]
    have same : router.candidates call.source =
      router.relays.filter (fun relay => decide (relay ≠ call.source)) := rfl
    rw [← same]
    cases listed : router.candidates call.source with
    | nil => exact .inl ⟨.inr rfl, rfl⟩
    | cons first others => exact .inr ⟨first, others, diffuses, rfl, rfl⟩

/-- A step of a choice: what the call answers is the choice for its source, if the choice is one of the
router that the call leaves. -/
theorem Chooses.answered {choice : Bytes → Option Bytes}
    (named : ∀ relay ∈ router.relays, relay ≠ [] ∧ relay ≠ localKey) (settled : Settled router call)
    (chooses : Chooses (router.answer call).2 choice) :
    Chooses router choice ∧ (router.answer call).1 = choice call.source := by
  rcases answer_spec settled with ⟨either, answered⟩ | ⟨first, others, stems, listed, answered⟩
  · rw [answered] at chooses ⊢
    exact ⟨chooses, (chooses.spreads _ either).symm⟩
  · obtain ⟨inside, relays, diffuser, assigned, elsewhere, kept⟩ :=
      router.relayOf_spec call.draws.pick call.source first others
    rw [answered] at chooses ⊢
    have offers : ∀ source, (router.relayOf call.draws.pick call.source first others).2.candidates source =
        router.candidates source := fun source => congrArg (List.filter _) relays
    have diffuses : ∀ source,
        (router.relayOf call.draws.pick call.source first others).2.Diffuses source ↔
          router.Diffuses source := by
      intro source
      unfold Diffuses
      rw [diffuser]
    refine ⟨⟨?_, ?_, ?_⟩, ?_⟩
    · intro source either
      exact chooses.spreads source (by rwa [diffuses, offers])
    · intro source relay alone member found
      refine chooses.keeps source relay (by rwa [diffuses]) (by rwa [offers]) ?_
      by_cases own : sourceKey source = sourceKey call.source
      · rw [own] at found ⊢
        rw [candidates_key named own, listed] at member
        rw [assigned, kept relay member found]
      · rw [elsewhere _ own, found]
    · intro source relay chosen
      rw [← offers]
      exact chooses.offered source relay chosen
    · refine (chooses.keeps call.source _ (by rwa [diffuses]) ?_ assigned).symm
      rwa [offers, listed]

theorem answer_relays (settled : Settled router call) :
    (router.answer call).2.relays = router.relays := by
  rcases answer_spec settled with ⟨_, answered⟩ | ⟨first, others, _, _, answered⟩
  · rw [answered]
  · rw [answered]
    exact (router.relayOf_spec _ _ first others).2.1

/-- While the epoch is the same and the relays are among the peers, a source keeps its relay, whatever
the other sources ask for in between. It is not the source itself. -/
theorem source_keeps_relay (router : DandelionRouter) (calls : List Call)
    (named : ∀ relay ∈ router.relays, relay ≠ [] ∧ relay ≠ localKey)
    (settled : EachStep (fun router call => (router.answer call).2) Settled router calls) :
    ∃ choice : Bytes → Option Bytes,
      (∀ source relay, choice source = some relay → relay ∈ router.relays ∧ relay ≠ source) ∧
      ∀ front call, front ++ [call] <+: calls →
        ((front.foldl (fun router call => (router.answer call).2) router).answer call).1 =
          choice call.source := by
  have found : ∃ choice, Chooses router choice ∧ ∀ front call, front ++ [call] <+: calls →
      ((front.foldl (fun router call => (router.answer call).2) router).answer call).1 =
        choice call.source := by
    induction calls generalizing router with
    | nil =>
      obtain ⟨choice, chooses⟩ := exists_choice router
      exact ⟨choice, chooses, fun front call cut => absurd (List.prefix_nil.mp cut) (by simp)⟩
    | cons next rest ih =>
      have relays := answer_relays settled.1
      obtain ⟨choice, chooses, agrees⟩ := ih _ (relays.symm ▸ named) settled.2
      obtain ⟨before, answered⟩ := chooses.answered named settled.1
      refine ⟨choice, before, fun front call cut => ?_⟩
      cases front with
      | nil =>
        obtain ⟨rfl, -⟩ := List.cons_prefix_cons.mp cut
        exact answered
      | cons first front =>
        obtain ⟨rfl, later⟩ := List.cons_prefix_cons.mp cut
        exact agrees front call later
  obtain ⟨choice, chooses, agrees⟩ := found
  refine ⟨choice, fun source relay chosen => ?_, agrees⟩
  obtain ⟨listed, different⟩ := List.mem_filter.mp (chooses.offered source relay chosen)
  exact ⟨listed, of_decide_eq_true different⟩

/-- A router that has picked two relays. -/
def sampleRelay : Bytes := ascii "10.0.0.7:28545"

/-- Another relay. -/
def otherRelay : Bytes := ascii "10.0.0.8:28545"

/-- A router with two relays. -/
def sampleRouter : DandelionRouter :=
  { new 600 39 16 with
    epoch := 0
    relays := [sampleRelay, otherRelay] }

/-- No draw changes the order, and the first candidate is picked. -/
def sampleDraws : Draws := ⟨false, id, fun _ => List.Perm.refl _, 0⟩

/-- A local transaction, one of a relay, and a local one again. -/
def sampleCalls : List Call :=
  [⟨5, sampleDraws, [], [sampleRelay, otherRelay]⟩,
    ⟨6, sampleDraws, sampleRelay, [otherRelay, sampleRelay]⟩,
    ⟨599, { sampleDraws with pick := 1 }, [], [sampleRelay, otherRelay]⟩]

/-- A source of the example keeps its relay through the epoch. -/
theorem sampleRouter_keeps : ∃ choice : Bytes → Option Bytes,
    (∀ source relay, choice source = some relay → relay ∈ sampleRouter.relays ∧ relay ≠ source) ∧
    ∀ front call, front ++ [call] <+: sampleCalls →
      ((front.foldl (fun router call => (router.answer call).2) sampleRouter).answer call).1 =
        choice call.source := by
  refine source_keeps_relay sampleRouter sampleCalls (by decide) ⟨?_, ?_, ?_, trivial⟩
  · exact ⟨by decide, by decide, by decide⟩
  · exact ⟨by decide, by decide, by decide⟩
  · exact ⟨by decide, by decide, by decide⟩

end DandelionRouter

end Addition
