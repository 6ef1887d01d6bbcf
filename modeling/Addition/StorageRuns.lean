import Mathlib.Data.UInt
import Addition.Foundations.Listings
import Addition.Foundations.Runs
import Addition.StorageDeals

/-!
# Storage deals along runs

Whatever is called in whatever order: a challenge has the verdict on the first proof that its worker
gave since it was issued, and no later proof changes it. The counters of a commitment are how many of
its worker's challenges passed and failed, up to the width of a counter, and those of all commitments
to a deal add up to what is reported of the deal.
-/

namespace Addition

namespace Storage

open ByteStrings Checked FiniteTables HexNumbers Runs

variable (P : Primitives)

/-! ### Answers to a challenge -/

/-- The proof that a call gives to a challenge of this worker. -/
def answer (id worker : Bytes) : Operation → Option Bytes
  | .submitProof id' worker' proof =>
    if id' = id ∧ worker' = worker ∧ proof ≠ [] then some proof else none
  | _ => none

/-- The verdict on the first proof. -/
def judged (seed : UInt64) : Option Bytes → Bytes
  | none => ascii "pending"
  | some proof => verdictOf (passes seed proof)

/-- A challenge was issued in a run, and its verdict is that on the first proof since then. -/
def Judged (operations : List Operation) (id : Bytes) (challenge : Challenge) : Prop :=
  ∃ front height later,
    operations = front ++ .issueChallenge challenge.dealId challenge.workerAddr height :: later ∧
    (issueChallenge P (reached P front) challenge.dealId challenge.workerAddr height).1 = .ok id ∧
    challenge.verdict = judged challenge.randomSeed (later.findSome? (answer id challenge.workerAddr))

/-- How many challenges of a worker for a deal have this verdict. -/
def StorageEngine.settled (engine : StorageEngine) (id worker verdict : Bytes) : Nat :=
  measure (fun _ challenge =>
    if challenge.dealId = id ∧ challenge.workerAddr = worker ∧ challenge.verdict = verdict then 1 else 0)
    engine.challenges

variable {P}

@[simp] theorem reached_nil : reached P [] = .initial := rfl

@[simp] theorem reached_snoc (front : List Operation) (operation : Operation) :
    reached P (front ++ [operation]) = step P (reached P front) operation := by
  rw [reached, List.foldl_append]
  rfl

theorem verdictOf_ne_pending (pass : Bool) : verdictOf pass ≠ ascii "pending" := by
  cases pass <;> decide

/-- A challenge waits exactly as long as there is no proof. -/
theorem judged_pending {seed : UInt64} {proof : Option Bytes} :
    judged seed proof = ascii "pending" ↔ proof = none := by
  cases proof with
  | none => simp [judged]
  | some text => simp [judged, verdictOf_ne_pending]

/-! ### What a call changes -/

/-- A deal is refused, or it is a new one. -/
theorem createDeal_cases (engine : StorageEngine) (client root : Bytes)
    (chunks replication first last price : UInt64) :
    Refused engine (createDeal P engine client root chunks replication first last price) ∨
      ∃ text deal, engine.deals.lookup (strongHash P text) = none ∧ 0 < chunks ∧
        deal = ⟨strongHash P text, client, root, chunks, replication, first, last, price, ascii "active"⟩ ∧
        createDeal P engine client root chunks replication first last price =
          (.ok (strongHash P text), engine.putDeal (strongHash P text) deal) := by
  unfold createDeal
  split
  · exact .inl ⟨_, rfl⟩
  · rename_i given
    split
    · exact .inl ⟨_, rfl⟩
    · dsimp only
      split
      · exact .inl ⟨_, rfl⟩
      · refine .inr ⟨_, _, Option.not_isSome_iff_eq_none.mp ‹_›, ?_, rfl, rfl⟩
        exact UInt64.pos_iff_ne_zero.mpr fun none => given (.inr (.inr (.inl none)))

/-- A commitment is refused, or it joins those of its deal. -/
theorem registerCommitment_cases (engine : StorageEngine) (id worker sealedCommitment : Bytes)
    (collateral : UInt64) :
    Refused engine (registerCommitment engine id worker sealedCommitment collateral) ∨
      (engine.deals.lookup id).isSome ∧
        (∀ other ∈ engine.commitmentsTo id, other.workerAddr ≠ worker) ∧
        registerCommitment engine id worker sealedCommitment collateral =
          (.ok [], engine.putCommitments id
            (engine.commitmentsTo id ++ [⟨worker, sealedCommitment, collateral, 0, 0⟩])) := by
  unfold registerCommitment
  split
  · exact .inl ⟨_, rfl⟩
  · rename_i known
    split
    · exact .inl ⟨_, rfl⟩
    · split
      · exact .inl ⟨_, rfl⟩
      · rename_i new
        refine .inr ⟨?_, ?_, rfl⟩
        · simpa [Option.isSome_iff_ne_none] using known
        · simpa using new

/-- A challenge is refused, or it is pending. -/
theorem issueChallenge_cases (engine : StorageEngine) (id worker : Bytes) (height : UInt64) :
    Refused engine (issueChallenge P engine id worker height) ∨
      ∃ deal challenge text, engine.deals.lookup id = some deal ∧
        engine.challenges.lookup (strongHash P text) = none ∧ challenge.challengeId = strongHash P text ∧
        challenge.dealId = id ∧ challenge.workerAddr = worker ∧ challenge.verdict = ascii "pending" ∧
        (0 < deal.chunkCount → challenge.chunkIndex < deal.chunkCount) ∧
        (∃ commitment ∈ engine.commitmentsTo id, commitment.workerAddr = worker) ∧
        issueChallenge P engine id worker height =
          (.ok (strongHash P text), engine.putChallenge (strongHash P text) challenge) := by
  unfold issueChallenge
  split
  · exact .inl ⟨_, rfl⟩
  · rename_i deal found
    split
    · rename_i committed
      dsimp only
      split
      · exact .inl ⟨_, rfl⟩
      · refine .inr ⟨deal, _, _, found, Option.not_isSome_iff_eq_none.mp ‹_›, rfl, rfl, rfl, rfl, ?_, ?_,
          rfl⟩
        · intro some'
          simpa [some'] using UInt64.mod_lt _ some'
        · simpa using committed
    · exact .inl ⟨_, rfl⟩

/-- A proof is refused when the challenge is not one of this worker that waits. -/
theorem submitProof_cases (engine : StorageEngine) (id worker proof : Bytes) :
    (Refused engine (submitProof engine id worker proof) ∧
      ∀ challenge, engine.challenges.lookup id = some challenge → challenge.workerAddr = worker →
        proof ≠ [] → challenge.verdict ≠ ascii "pending") ∨
      ∃ challenge pass, engine.challenges.lookup id = some challenge ∧ challenge.workerAddr = worker ∧
        challenge.verdict = ascii "pending" ∧ proof ≠ [] ∧ pass = passes challenge.randomSeed proof ∧
        submitProof engine id worker proof = (.ok (verdictOf pass),
          (engine.putChallenge id { challenge with verdict := verdictOf pass }).count
            challenge.dealId worker pass) := by
  unfold submitProof
  split
  · rename_i missing
    exact .inl ⟨⟨_, rfl⟩, fun challenge found => by simp [missing] at found⟩
  · rename_i challenge found
    split
    · rename_i other
      refine .inl ⟨⟨_, rfl⟩, fun challenge' found' own => ?_⟩
      obtain rfl := Option.some.inj (found.symm.trans found')
      exact absurd own other
    · rename_i own
      split
      · rename_i final
        refine .inl ⟨⟨_, rfl⟩, fun challenge' found' _ _ => ?_⟩
        exact Option.some.inj (found.symm.trans found') ▸ final
      · rename_i waits
        split
        · rename_i empty
          exact .inl ⟨⟨_, rfl⟩, fun _ _ _ given => absurd (List.isEmpty_iff.mp empty) given⟩
        · rename_i given
          exact .inr ⟨challenge, _, found, not_not.mp own, not_not.mp waits,
            fun empty => given (List.isEmpty_iff.mpr empty), rfl, rfl⟩

/-! ### Single containers -/

theorem lookup_putChallenge (engine : StorageEngine) (id tested : Bytes) (challenge : Challenge) :
    (engine.putChallenge id challenge).challenges.lookup tested =
      if tested = id then some challenge else engine.challenges.lookup tested :=
  lookup_insert engine.challenges id tested challenge

@[simp] theorem commitmentsTo_putChallenge (engine : StorageEngine) (id tested : Bytes)
    (challenge : Challenge) :
    (engine.putChallenge id challenge).commitmentsTo tested = engine.commitmentsTo tested := rfl

theorem commitmentsTo_putCommitments (engine : StorageEngine) (id tested : Bytes)
    (commitments : List Commitment) :
    (engine.putCommitments id commitments).commitmentsTo tested =
      if tested = id then commitments else engine.commitmentsTo tested := by
  unfold StorageEngine.commitmentsTo StorageEngine.putCommitments
  rw [lookup_insert]
  split <;> rfl

@[simp] theorem count_challenges (engine : StorageEngine) (id worker : Bytes) (pass : Bool) :
    (engine.count id worker pass).challenges = engine.challenges := by
  unfold StorageEngine.count
  split <;> rfl

@[simp] theorem count_deals (engine : StorageEngine) (id worker : Bytes) (pass : Bool) :
    (engine.count id worker pass).deals = engine.deals := by
  unfold StorageEngine.count
  split <;> rfl

theorem commitmentsTo_count (engine : StorageEngine) (id worker tested : Bytes) (pass : Bool) :
    (engine.count id worker pass).commitmentsTo tested =
      if tested = id then countProof worker pass (engine.commitmentsTo id)
      else engine.commitmentsTo tested := by
  unfold StorageEngine.count
  split
  · rename_i missing
    have none' : engine.commitmentsTo id = [] := by simp [StorageEngine.commitmentsTo, missing]
    split
    · rename_i same
      rw [same, none']
      rfl
    · rfl
  · rename_i commitments found
    have some' : engine.commitmentsTo id = commitments := by simp [StorageEngine.commitmentsTo, found]
    rw [commitmentsTo_putCommitments, some']

/-- Where workers are distinct, all commitments of a worker are the first one. -/
theorem countProof_eq_map (worker : Bytes) (pass : Bool) (commitments : List Commitment)
    (distinct : (commitments.map Commitment.workerAddr).Nodup) :
    countProof worker pass commitments = commitments.map (fun commitment =>
      if commitment.workerAddr = worker then commitment.credit pass else commitment) := by
  induction commitments with
  | nil => rfl
  | cons commitment rest ih =>
    obtain ⟨absent, others⟩ := List.nodup_cons.mp distinct
    rw [countProof, List.map_cons]
    by_cases own : commitment.workerAddr = worker
    · rw [if_pos own, if_pos own]
      refine congrArg (List.cons _) (((List.map_congr_left fun other member => ?_).trans
        (List.map_id rest)).symm)
      rw [if_neg, id_eq]
      exact fun same => absent (own.trans same.symm ▸ List.mem_map_of_mem member)
    · rw [if_neg own, if_neg own, ih others]

@[simp] theorem credit_workerAddr (commitment : Commitment) (pass : Bool) :
    (commitment.credit pass).workerAddr = commitment.workerAddr := by
  cases pass <;> rfl

theorem countProof_workers (worker : Bytes) (pass : Bool) (commitments : List Commitment) :
    (countProof worker pass commitments).map Commitment.workerAddr =
      commitments.map Commitment.workerAddr := by
  induction commitments with
  | nil => rfl
  | cons commitment rest ih =>
    rw [countProof]
    split
    · simp
    · simp [ih]

/-! ### Counting -/

/-- A waiting challenge more does not count for any verdict. -/
theorem settled_putChallenge_new (engine : StorageEngine) (id deal worker verdict : Bytes)
    (challenge : Challenge) (new : engine.challenges.lookup id = none)
    (waits : challenge.verdict ≠ verdict) :
    (engine.putChallenge id challenge).settled deal worker verdict =
      engine.settled deal worker verdict := by
  have exchanged := measure_insert (fun (_ : Bytes) (challenge : Challenge) =>
    if challenge.dealId = deal ∧ challenge.workerAddr = worker ∧ challenge.verdict = verdict then 1 else 0)
    engine.challenges id challenge
  rw [weightAt_none _ _ _ new, if_neg fun all => waits all.2.2] at exchanged
  exact exchanged

/-- A settled challenge counts for its verdict. -/
theorem settled_putChallenge (engine : StorageEngine) (id deal worker verdict : Bytes)
    (challenge settled : Challenge) (found : engine.challenges.lookup id = some challenge)
    (waited : challenge.verdict ≠ verdict) :
    (engine.putChallenge id settled).settled deal worker verdict =
      engine.settled deal worker verdict +
        if settled.dealId = deal ∧ settled.workerAddr = worker ∧ settled.verdict = verdict then 1
        else 0 := by
  have exchanged := measure_insert_found (fun (_ : Bytes) (challenge : Challenge) =>
    if challenge.dealId = deal ∧ challenge.workerAddr = worker ∧ challenge.verdict = verdict then 1 else 0)
    engine.challenges id challenge settled found
  rw [if_neg fun all => waited all.2.2] at exchanged
  exact exchanged

/-- What no challenge is counted for. -/
theorem settled_eq_zero (engine : StorageEngine) (deal worker verdict : Bytes)
    (none' : ∀ id challenge, engine.challenges.lookup id = some challenge → challenge.dealId = deal →
      challenge.workerAddr ≠ worker) : engine.settled deal worker verdict = 0 := by
  unfold StorageEngine.settled
  rw [measure_congr _ (fun _ _ => 0) engine.challenges (∅ : Table Bytes Challenge), measure_empty]
  intro id
  rw [weightAt_none _ _ _ (AList.lookup_empty id)]
  cases found : engine.challenges.lookup id with
  | none => exact weightAt_none _ _ _ found
  | some challenge =>
    rw [weightAt_some _ _ _ _ found]
    exact if_neg fun all => none' id challenge found all.1 all.2.1

/-- The counters of a commitment are right. -/
structure Counted (engine : StorageEngine) (id : Bytes) (commitment : Commitment) : Prop where
  pass : commitment.proofsPass =
    UInt64.ofNat (engine.settled id commitment.workerAddr (ascii "pass"))
  fail : commitment.proofsFail =
    UInt64.ofNat (engine.settled id commitment.workerAddr (ascii "fail"))

variable {engine : StorageEngine} {id : Bytes} {challenge : Challenge}
  {operations front : List Operation} {deal : Deal} {worker : Bytes}
  {order : List (Bytes × List Commitment)}

/-- A proof more for a commitment or for another one. -/
theorem Counted.credit {left : StorageEngine} {commitment : Commitment}
    (counted : Counted engine id commitment) (own : Prop) [Decidable own] (pass : Bool)
    (settled : ∀ verdict, verdict ≠ ascii "pending" →
      left.settled id commitment.workerAddr verdict = engine.settled id commitment.workerAddr verdict +
        if own ∧ verdictOf pass = verdict then 1 else 0) :
    Counted left id (if own then commitment.credit pass else commitment) := by
  have passed := settled (ascii "pass") (by decide)
  have failed := settled (ascii "fail") (by decide)
  by_cases this : own
  · rw [if_pos this]
    cases pass with
    | true =>
      rw [if_pos ⟨this, rfl⟩] at passed
      rw [if_neg (by rintro ⟨-, same⟩; exact absurd same (by decide))] at failed
      constructor
      · change commitment.proofsPass + 1 = UInt64.ofNat (left.settled id commitment.workerAddr _)
        rw [passed, counted.pass, UInt64.ofNat_add]
        rfl
      · change commitment.proofsFail = UInt64.ofNat (left.settled id commitment.workerAddr _)
        rw [failed, counted.fail, Nat.add_zero]
    | false =>
      rw [if_neg (by rintro ⟨-, same⟩; exact absurd same (by decide))] at passed
      rw [if_pos ⟨this, rfl⟩] at failed
      constructor
      · change commitment.proofsPass = UInt64.ofNat (left.settled id commitment.workerAddr _)
        rw [passed, counted.pass, Nat.add_zero]
      · change commitment.proofsFail + 1 = UInt64.ofNat (left.settled id commitment.workerAddr _)
        rw [failed, counted.fail, UInt64.ofNat_add]
        rfl
  · rw [if_neg this]
    rw [if_neg fun both => this both.1, Nat.add_zero] at passed failed
    exact ⟨by rw [passed, counted.pass], by rw [failed, counted.fail]⟩

/-! ### What all runs keep -/

/-- What an engine has to do with the calls that made it. -/
structure Kept (P : Primitives) (operations : List Operation) (engine : StorageEngine) : Prop where
  deals : ∀ id deal, engine.deals.lookup id = some deal → 0 < deal.chunkCount
  distinct : ∀ id, ((engine.commitmentsTo id).map Commitment.workerAddr).Nodup
  counted : ∀ id, ∀ commitment ∈ engine.commitmentsTo id, Counted engine id commitment
  judged : ∀ id challenge, engine.challenges.lookup id = some challenge →
    Judged P operations id challenge
  bound : ∀ id challenge, engine.challenges.lookup id = some challenge →
    ∃ deal, engine.deals.lookup challenge.dealId = some deal ∧ challenge.chunkIndex < deal.chunkCount
  committed : ∀ id challenge, engine.challenges.lookup id = some challenge →
    challenge.workerAddr ∈ (engine.commitmentsTo challenge.dealId).map Commitment.workerAddr

/-- A call that a challenge does not answer to leaves its verdict right. -/
theorem Judged.after (judged' : Judged P operations id challenge) (operation : Operation)
    (final : ∀ proof, answer id challenge.workerAddr operation = some proof →
      challenge.verdict ≠ ascii "pending") : Judged P (operations ++ [operation]) id challenge := by
  obtain ⟨front, height, later, rfl, issued, verdict⟩ := judged'
  refine ⟨front, height, later ++ [operation], by simp, issued, ?_⟩
  rw [List.findSome?_append, List.findSome?_singleton]
  cases first : later.findSome? (answer id challenge.workerAddr) with
  | some proof =>
    rw [first] at verdict
    exact verdict
  | none =>
    rw [first] at verdict
    cases given : answer id challenge.workerAddr operation with
    | none => exact verdict
    | some proof => exact absurd (verdict.trans rfl) (final proof given)

theorem Kept.refused (kept : Kept P front engine)
    (operation : Operation) (final : ∀ id challenge proof, engine.challenges.lookup id = some challenge →
      answer id challenge.workerAddr operation = some proof → challenge.verdict ≠ ascii "pending") :
    Kept P (front ++ [operation]) engine :=
  { kept with
    judged := fun id challenge found =>
      (kept.judged id challenge found).after operation (fun proof => final id challenge proof found) }

theorem Kept.createDeal (kept : Kept P front engine)
    (operation : Operation) (silent : ∀ id worker, answer id worker operation = none)
    (new : engine.deals.lookup id = none) (some' : 0 < deal.chunkCount) :
    Kept P (front ++ [operation]) (engine.putDeal id deal) := by
  have known : ∀ tested deal', engine.deals.lookup tested = some deal' →
      (engine.putDeal id deal).deals.lookup tested = some deal' := by
    intro tested deal' found
    refine (lookup_insert engine.deals id tested deal).trans ?_
    rw [if_neg, found]
    rintro rfl
    exact nomatch new.symm.trans found
  exact {
    deals := by
      intro tested deal' found
      rw [show (engine.putDeal id deal).deals.lookup tested = _ from
        lookup_insert engine.deals id tested deal] at found
      split at found
      · exact Option.some.inj found ▸ some'
      · exact kept.deals tested deal' found
    distinct := kept.distinct
    counted := fun tested commitment member =>
      ⟨(kept.counted tested commitment member).pass, (kept.counted tested commitment member).fail⟩
    judged := fun tested challenge found =>
      (kept.judged tested challenge found).after operation
        (fun proof given => by simp [silent] at given)
    bound := by
      intro tested challenge found
      obtain ⟨deal', there, inside⟩ := kept.bound tested challenge found
      exact ⟨deal', known _ deal' there, inside⟩
    committed := kept.committed }

theorem Kept.registerCommitment (kept : Kept P front engine) (operation : Operation)
    (silent : ∀ id worker, answer id worker operation = none) (sealedCommitment : Bytes)
    (collateral : UInt64) (new : ∀ other ∈ engine.commitmentsTo id, other.workerAddr ≠ worker) :
    Kept P (front ++ [operation]) (engine.putCommitments id
      (engine.commitmentsTo id ++ [⟨worker, sealedCommitment, collateral, 0, 0⟩])) := by
  have unchallenged : ∀ tested challenge, engine.challenges.lookup tested = some challenge →
      challenge.dealId = id → challenge.workerAddr ≠ worker := by
    rintro tested challenge found rfl own
    obtain ⟨commitment, member, same⟩ := List.mem_map.mp (kept.committed tested challenge found)
    exact new commitment member (same.trans own)
  exact {
    deals := kept.deals
    distinct := by
      intro tested
      rw [commitmentsTo_putCommitments]
      split
      · rw [List.map_append, List.nodup_append]
        refine ⟨kept.distinct id, by simp, ?_⟩
        intro other member other' single
        obtain ⟨commitment, inside, rfl⟩ := List.mem_map.mp member
        obtain rfl : other' = worker := by simpa using single
        exact new commitment inside
      · exact kept.distinct tested
    counted := by
      intro tested commitment member
      rw [commitmentsTo_putCommitments] at member
      split at member
      · rename_i same
        subst same
        rcases List.mem_append.mp member with old | added
        · exact ⟨(kept.counted tested commitment old).pass, (kept.counted tested commitment old).fail⟩
        · obtain rfl := List.mem_singleton.mp added
          have pass := settled_eq_zero engine tested worker (ascii "pass") unchallenged
          have fail := settled_eq_zero engine tested worker (ascii "fail") unchallenged
          constructor
          · change 0 = UInt64.ofNat (engine.settled tested worker (ascii "pass"))
            rw [pass]
            rfl
          · change 0 = UInt64.ofNat (engine.settled tested worker (ascii "fail"))
            rw [fail]
            rfl
      · exact ⟨(kept.counted tested commitment member).pass, (kept.counted tested commitment member).fail⟩
    judged := fun tested challenge found =>
      (kept.judged tested challenge found).after operation
        (fun proof given => by simp [silent] at given)
    bound := kept.bound
    committed := by
      intro tested challenge found
      have before := kept.committed tested challenge found
      rw [commitmentsTo_putCommitments]
      split
      · rename_i same
        rw [← same, List.map_append]
        exact List.mem_append_left _ before
      · exact before }

theorem Kept.issueChallenge (kept : Kept P front (reached P front))
    {height : UInt64} {challengeId : Bytes} (found : (reached P front).deals.lookup id = some deal)
    (new : (reached P front).challenges.lookup challengeId = none) (own : challenge.dealId = id)
    (worker' : challenge.workerAddr = worker) (waits : challenge.verdict = ascii "pending")
    (inside : 0 < deal.chunkCount → challenge.chunkIndex < deal.chunkCount)
    (committed : ∃ commitment ∈ (reached P front).commitmentsTo id, commitment.workerAddr = worker)
    (issued : (Storage.issueChallenge P (reached P front) id worker height).1 = .ok challengeId) :
    Kept P (front ++ [.issueChallenge id worker height])
      ((reached P front).putChallenge challengeId challenge) := by
  subst own worker'
  exact {
    deals := kept.deals
    distinct := kept.distinct
    counted := by
      intro tested commitment member
      have counted := kept.counted tested commitment member
      have same : ∀ verdict, verdict ≠ ascii "pending" →
          ((reached P front).putChallenge challengeId challenge).settled tested commitment.workerAddr
            verdict = (reached P front).settled tested commitment.workerAddr verdict :=
        fun verdict other => settled_putChallenge_new _ _ _ _ _ _ new (waits ▸ Ne.symm other)
      exact ⟨by rw [same _ (by decide), counted.pass], by rw [same _ (by decide), counted.fail]⟩
    judged := by
      intro tested challenge' there
      rw [lookup_putChallenge] at there
      split at there
      · rename_i same
        subst same
        obtain rfl := Option.some.inj there
        exact ⟨front, height, [], rfl, issued, waits⟩
      · exact (kept.judged tested challenge' there).after _ (fun proof given => by simp [answer] at given)
    bound := by
      intro tested challenge' there
      rw [lookup_putChallenge] at there
      split at there
      · obtain rfl := Option.some.inj there
        exact ⟨deal, found, inside (kept.deals _ deal found)⟩
      · exact kept.bound tested challenge' there
    committed := by
      intro tested challenge' there
      rw [lookup_putChallenge] at there
      split at there
      · obtain rfl := Option.some.inj there
        obtain ⟨commitment, member, same⟩ := committed
        exact List.mem_map.mpr ⟨commitment, member, same⟩
      · exact kept.committed tested challenge' there }

theorem Kept.submitProof (kept : Kept P front engine) {proof : Bytes} {pass : Bool}
    (found : engine.challenges.lookup id = some challenge) (own : challenge.workerAddr = worker)
    (waits : challenge.verdict = ascii "pending") (given : proof ≠ [])
    (isPass : pass = passes challenge.randomSeed proof) :
    Kept P (front ++ [.submitProof id worker proof])
      ((engine.putChallenge id { challenge with verdict := verdictOf pass }).count
        challenge.dealId worker pass) := by
  subst own
  set settled : Challenge := { challenge with verdict := verdictOf pass } with isSettled
  -- the only challenge that this call answers to
  have other : ∀ tested challenge' proof', tested ≠ id → engine.challenges.lookup tested = some challenge' →
      answer tested challenge'.workerAddr (.submitProof id challenge.workerAddr proof) = some proof' →
      challenge'.verdict ≠ ascii "pending" := by
    intro tested challenge' proof' different _ answered
    rw [answer, if_neg fun all => different all.1.symm] at answered
    exact nomatch answered
  have kept' : ∀ tested challenge', ((engine.putChallenge id settled).count challenge.dealId
      challenge.workerAddr pass).challenges.lookup tested = some challenge' →
      tested = id ∧ challenge' = settled ∨ tested ≠ id ∧ engine.challenges.lookup tested = some challenge' := by
    intro tested challenge' there
    rw [count_challenges, lookup_putChallenge] at there
    split at there
    · exact .inl ⟨‹_›, (Option.some.inj there).symm⟩
    · exact .inr ⟨‹_›, there⟩
  exact {
    deals := by
      rw [count_deals]
      exact kept.deals
    distinct := by
      intro tested
      rw [commitmentsTo_count]
      split
      · rw [countProof_workers]
        exact kept.distinct _
      · exact kept.distinct tested
    counted := by
      intro tested commitment member
      have counts : ∀ deal worker verdict, verdict ≠ ascii "pending" →
          ((engine.putChallenge id settled).count challenge.dealId challenge.workerAddr pass).settled
            deal worker verdict = engine.settled deal worker verdict +
              if challenge.dealId = deal ∧ challenge.workerAddr = worker ∧ verdictOf pass = verdict then 1
              else 0 := by
        intro deal worker verdict final
        unfold StorageEngine.settled
        rw [count_challenges]
        exact settled_putChallenge engine id deal worker verdict challenge settled found
          (waits ▸ Ne.symm final)
      rw [commitmentsTo_count] at member
      split at member
      · rename_i same
        subst same
        rw [commitmentsTo_putChallenge, countProof_eq_map _ _ _ (kept.distinct _)] at member
        obtain ⟨before, inside, rfl⟩ := List.mem_map.mp member
        refine (kept.counted _ before inside).credit (before.workerAddr = challenge.workerAddr) pass ?_
        intro verdict final
        rw [counts _ _ verdict final]
        congr 2
        exact propext ⟨fun all => ⟨all.2.1.symm, all.2.2⟩, fun all => ⟨rfl, all.1.symm, all.2⟩⟩
      · rename_i different
        have counted := kept.counted tested commitment member
        have same : ∀ verdict, verdict ≠ ascii "pending" →
            ((engine.putChallenge id settled).count challenge.dealId challenge.workerAddr pass).settled
              tested commitment.workerAddr verdict =
              engine.settled tested commitment.workerAddr verdict := by
          intro verdict final
          rw [counts _ _ verdict final, if_neg fun all => different all.1.symm, Nat.add_zero]
        exact ⟨by rw [same _ (by decide), counted.pass], by rw [same _ (by decide), counted.fail]⟩
    judged := by
      intro tested challenge' there
      rcases kept' tested challenge' there with ⟨rfl, rfl⟩ | ⟨different, there⟩
      · obtain ⟨before, height, later, rfl, issued, verdict⟩ := kept.judged tested challenge found
        refine ⟨before, height, later ++ [.submitProof tested challenge.workerAddr proof], by simp [settled],
          issued, ?_⟩
        have unanswered := judged_pending.mp (verdict.symm.trans waits)
        change verdictOf pass = Storage.judged challenge.randomSeed
          ((later ++ [_]).findSome? (answer tested challenge.workerAddr))
        rw [List.findSome?_append, unanswered, List.findSome?_singleton, answer,
          if_pos ⟨rfl, rfl, given⟩, isPass]
        rfl
      · exact (kept.judged tested challenge' there).after _
          (fun proof' => other tested challenge' proof' different there)
    bound := by
      intro tested challenge' there
      rw [count_deals]
      rcases kept' tested challenge' there with ⟨rfl, rfl⟩ | ⟨-, there⟩
      · exact kept.bound tested challenge found
      · exact kept.bound tested challenge' there
    committed := by
      intro tested challenge' there
      have before : challenge'.workerAddr ∈
          (engine.commitmentsTo challenge'.dealId).map Commitment.workerAddr := by
        rcases kept' tested challenge' there with ⟨rfl, rfl⟩ | ⟨-, there⟩
        · exact kept.committed tested challenge found
        · exact kept.committed tested challenge' there
      rw [commitmentsTo_count]
      split
      · rename_i same
        rw [countProof_workers]
        exact same ▸ before
      · exact before }

theorem reached_kept (P : Primitives) (operations : List Operation) :
    Kept P operations (reached P operations) := by
  induction operations using List.reverseRecOn with
  | nil =>
    exact {
      deals := fun id deal found => by simp [StorageEngine.initial] at found
      distinct := fun id => List.nodup_nil
      counted := fun id commitment member => nomatch member
      judged := fun id challenge found => by simp [StorageEngine.initial] at found
      bound := fun id challenge found => by simp [StorageEngine.initial] at found
      committed := fun id challenge found => by simp [StorageEngine.initial] at found }
  | append_singleton front operation kept =>
    rw [reached_snoc, step]
    cases operation with
    | createDeal client root chunks replication first last price =>
      rw [perform]
      obtain ⟨message, same⟩ | ⟨text, deal, new, some', isDeal, same⟩ := createDeal_cases (P := P)
        (reached P front) client root chunks replication first last price
      · rw [same]
        exact kept.refused _ (fun id challenge proof _ given => nomatch given)
      · rw [same]
        exact kept.createDeal _ (fun id worker => rfl) new (isDeal ▸ some')
    | registerCommitment id worker sealedCommitment collateral =>
      rw [perform]
      obtain ⟨message, same⟩ | ⟨-, new, same⟩ :=
        registerCommitment_cases (reached P front) id worker sealedCommitment collateral
      · rw [same]
        exact kept.refused _ (fun id challenge proof _ given => nomatch given)
      · rw [same]
        exact kept.registerCommitment _ (fun id worker => rfl) sealedCommitment collateral new
    | issueChallenge id worker height =>
      rw [perform]
      obtain ⟨message, same⟩ | ⟨deal, challenge, text, found, new, -, own, worker', waits, inside,
          committed, same⟩ := issueChallenge_cases (P := P) (reached P front) id worker height
      · rw [same]
        exact kept.refused _ (fun id challenge proof _ given => nomatch given)
      · have issued := congrArg Prod.fst same
        rw [same]
        exact kept.issueChallenge found new own worker' waits inside committed issued
    | submitProof id worker proof =>
      rw [perform]
      obtain ⟨⟨message, same⟩, final⟩ | ⟨challenge, pass, found, own, waits, given, isPass, same⟩ :=
        submitProof_cases (reached P front) id worker proof
      · rw [same]
        refine kept.refused _ (fun tested challenge proof' there answered => ?_)
        rw [answer] at answered
        split at answered
        · rename_i all
          obtain ⟨rfl, own, given⟩ := all
          exact final challenge there own.symm given
        · exact nomatch answered
      · rw [same]
        exact kept.submitProof found own waits given isPass

/-! ### Totals -/

/-- The commitments to a deal have together the challenges of the deal. -/
theorem verdicts_eq_sum (operations : List Operation) (id verdict : Bytes) :
    (((reached P operations).commitmentsTo id).map
      (fun commitment => (reached P operations).settled id commitment.workerAddr verdict)).sum =
      (reached P operations).verdicts id verdict := by
  have kept := reached_kept P operations
  have summed := sum_measure (((reached P operations).commitmentsTo id).map Commitment.workerAddr)
    (fun worker (_ : Bytes) (challenge : Challenge) =>
      if challenge.dealId = id ∧ challenge.workerAddr = worker ∧ challenge.verdict = verdict then 1 else 0)
    (reached P operations).challenges
  rw [List.map_map] at summed
  refine summed.trans (measure_entries _ _ _ fun tested challenge found => ?_)
  by_cases this : challenge.dealId = id ∧ challenge.verdict = verdict
  · obtain ⟨own, same⟩ := this
    have member := kept.committed tested challenge found
    rw [own] at member
    simp only [own, same, true_and, and_true, and_self, ↓reduceIte]
    exact sum_indicator _ (kept.distinct id) member
  · rw [if_neg this]
    refine List.sum_eq_zero fun weight member => ?_
    obtain ⟨worker, -, rfl⟩ := List.mem_map.mp member
    exact if_neg fun all => this ⟨all.1, all.2.2⟩

theorem sum_ofNat (amounts : List Nat) : (amounts.map UInt64.ofNat).sum = UInt64.ofNat amounts.sum := by
  induction amounts with
  | nil => rfl
  | cons amount rest ih =>
    rw [List.map_cons, List.sum_cons, List.sum_cons, ih, UInt64.ofNat_add]

/-- A challenge waits, passed or failed. -/
theorem Judged.verdict
    (judged' : Judged P operations id challenge) : challenge.verdict = ascii "pending" ∨
      challenge.verdict = ascii "pass" ∨ challenge.verdict = ascii "fail" := by
  obtain ⟨front, height, later, -, -, verdict⟩ := judged'
  rw [verdict]
  cases later.findSome? (answer id challenge.workerAddr) with
  | none => exact .inl rfl
  | some proof =>
    rw [judged]
    cases passes challenge.randomSeed proof with
    | true => exact .inr (.inl rfl)
    | false => exact .inr (.inr rfl)

/-- In every run, the counters of a commitment are how many challenges of its worker for the deal
passed and failed, those of all commitments to a deal add up to its passed and failed challenges, with
the waiting ones these are all challenges of the deal, and these are the numbers that `deal_status`
prints. -/
theorem proofs_counted (P : Primitives) (operations : List Operation) (id : Bytes) :
    (∀ commitment ∈ (reached P operations).commitmentsTo id, Counted (reached P operations) id commitment) ∧
      (((reached P operations).commitmentsTo id).map Commitment.proofsPass).sum =
        UInt64.ofNat ((reached P operations).verdicts id (ascii "pass")) ∧
      (((reached P operations).commitmentsTo id).map Commitment.proofsFail).sum =
        UInt64.ofNat ((reached P operations).verdicts id (ascii "fail")) ∧
      (reached P operations).verdicts id (ascii "pending") +
          ((reached P operations).verdicts id (ascii "pass") +
            (reached P operations).verdicts id (ascii "fail")) =
        measure (fun _ challenge => if challenge.dealId = id then 1 else 0)
          (reached P operations).challenges ∧
      ∀ deal, (reached P operations).deals.lookup id = some deal →
        ∃ front, dealStatus (reached P operations) id = .ok (front ++
          ascii " challenges_pending=" ++ decimal ((reached P operations).verdicts id (ascii "pending")) ++
          ascii " challenges_pass=" ++ decimal ((reached P operations).verdicts id (ascii "pass")) ++
          ascii " challenges_fail=" ++ decimal ((reached P operations).verdicts id (ascii "fail")) ++
          ascii " check=first_nibble_parity") := by
  have kept := reached_kept P operations
  refine ⟨kept.counted id, ?_, ?_, ?_, fun deal found => ?_⟩
  · rw [← verdicts_eq_sum, ← sum_ofNat, List.map_map]
    exact congrArg List.sum (List.map_congr_left fun commitment member =>
      (kept.counted id commitment member).pass)
  · rw [← verdicts_eq_sum, ← sum_ofNat, List.map_map]
    exact congrArg List.sum (List.map_congr_left fun commitment member =>
      (kept.counted id commitment member).fail)
  · have summed := sum_measure [ascii "pending", ascii "pass", ascii "fail"]
      (fun verdict (_ : Bytes) (challenge : Challenge) =>
        if challenge.dealId = id ∧ challenge.verdict = verdict then 1 else 0)
      (reached P operations).challenges
    simp only [List.map_cons, List.map_nil, List.sum_cons, List.sum_nil, Nat.add_zero] at summed
    refine summed.trans (measure_entries _ _ _ fun tested challenge found => ?_)
    by_cases own : challenge.dealId = id
    · simp only [own, true_and, ↓reduceIte]
      rcases (kept.judged tested challenge found).verdict with same | same | same
      · rw [same]
        decide
      · rw [same]
        decide
      · rw [same]
        decide
    · simp [own]
  · simp only [dealStatus, found]
    exact ⟨_, rfl⟩

/-- In every run, every challenge has the verdict on the first proof that its worker gave since it was
issued, its worker is committed to its deal, and its chunk is one of the deal. -/
theorem challenge_judged (P : Primitives) (operations : List Operation) (id : Bytes)
    (challenge : Challenge) (found : (reached P operations).challenges.lookup id = some challenge) :
    Judged P operations id challenge ∧
      (∃ commitment ∈ (reached P operations).commitmentsTo challenge.dealId,
        commitment.workerAddr = challenge.workerAddr) ∧
      ∃ deal, (reached P operations).deals.lookup challenge.dealId = some deal ∧
        challenge.chunkIndex < deal.chunkCount := by
  have kept := reached_kept P operations
  exact ⟨kept.judged id challenge found, List.mem_map.mp (kept.committed id challenge found),
    kept.bound id challenge found⟩

/-- A deal. -/
def sampleDeal : Bytes := strongHash samplePrimitives (dealSeed (ascii "c") (ascii "r") 3 1 2 0)

/-- The name of a challenge to the worker of that deal. -/
def sampleChallenge (height : UInt64) (count : Nat) : Bytes :=
  strongHash samplePrimitives (ascii "storage_challenge_id|" ++
    strongHash samplePrimitives (challengeSeed sampleDeal (ascii "w") height count))

/-- A deal, a worker that commits to it, and three challenges: the first is passed, the second is failed
and the third waits. -/
def challenged : List Operation :=
  [.createDeal (ascii "c") (ascii "r") 3 1 1 2 5, .registerCommitment sampleDeal (ascii "w") (ascii "s") 1,
    .issueChallenge sampleDeal (ascii "w") 7,
    .submitProof (sampleChallenge 7 0) (ascii "w") (List.replicate 64 48),
    .issueChallenge sampleDeal (ascii "w") 8, .submitProof (sampleChallenge 8 1) (ascii "w") (ascii "x"),
    .issueChallenge sampleDeal (ascii "w") 9]

set_option maxRecDepth 100000 in
/-- The three challenges have their verdicts, and each is judged as the theorem says. -/
theorem challenged_judged :
    ((reached samplePrimitives challenged).challenges.lookup (sampleChallenge 7 0)).map Challenge.verdict =
        some (ascii "pass") ∧
      ((reached samplePrimitives challenged).challenges.lookup (sampleChallenge 8 1)).map Challenge.verdict =
        some (ascii "fail") ∧
      ((reached samplePrimitives challenged).challenges.lookup (sampleChallenge 9 2)).map Challenge.verdict =
        some (ascii "pending") ∧
      ∀ id challenge, (reached samplePrimitives challenged).challenges.lookup id = some challenge →
        Judged samplePrimitives challenged id challenge ∧
          (∃ commitment ∈ (reached samplePrimitives challenged).commitmentsTo challenge.dealId,
            commitment.workerAddr = challenge.workerAddr) ∧
          ∃ deal, (reached samplePrimitives challenged).deals.lookup challenge.dealId = some deal ∧
            challenge.chunkIndex < deal.chunkCount := by
  have verdicts :
      ((reached samplePrimitives challenged).challenges.lookup (sampleChallenge 7 0)).map
          Challenge.verdict = some (ascii "pass") ∧
        ((reached samplePrimitives challenged).challenges.lookup (sampleChallenge 8 1)).map
          Challenge.verdict = some (ascii "fail") ∧
        ((reached samplePrimitives challenged).challenges.lookup (sampleChallenge 9 2)).map
          Challenge.verdict = some (ascii "pending") := by
    decide +kernel
  exact ⟨verdicts.1, verdicts.2.1, verdicts.2.2, fun id challenge found =>
    challenge_judged samplePrimitives challenged id challenge found⟩

/-! ### What is reported of a worker -/

/-- What fits is added. -/
theorem foldl_addFitting (amounts : List UInt64) (total : UInt64)
    (fits : total.toNat + (amounts.map UInt64.toNat).sum < 2 ^ 64) :
    (amounts.foldl addFitting total).toNat = total.toNat + (amounts.map UInt64.toNat).sum := by
  induction amounts generalizing total with
  | nil => rfl
  | cons amount rest ih =>
    rw [List.map_cons, List.sum_cons] at fits ⊢
    have added : (addFitting total amount).toNat = total.toNat + amount.toNat := by
      have room : total ≤ wordMax - amount := by
        rw [UInt64.le_iff_toNat_le, UInt64.toNat_sub_of_le _ _ (by
          rw [UInt64.le_iff_toNat_le]
          have := amount.toNat_lt
          change amount.toNat ≤ 18446744073709551615
          omega)]
        change total.toNat ≤ 18446744073709551615 - amount.toNat
        omega
      rw [addFitting, if_pos room, UInt64.toNat_add, Nat.mod_eq_of_lt (by omega)]
    rw [List.foldl_cons, ih _ (by omega), added]
    omega

theorem workerTotals_eq (worker : Bytes) (order : List (Bytes × List Commitment)) :
    (workerTotals worker order).proofsPass =
        ((order.flatMap (fun entry => entry.2.filter (fun commitment =>
          decide (commitment.workerAddr = worker)))).map Commitment.proofsPass).foldl addFitting 0 ∧
      (workerTotals worker order).proofsFail =
        ((order.flatMap (fun entry => entry.2.filter (fun commitment =>
          decide (commitment.workerAddr = worker)))).map Commitment.proofsFail).foldl addFitting 0 := by
  have general : ∀ (commitments : List Commitment) (totals : WorkerTotals),
      (commitments.foldl (fun totals commitment =>
        if commitment.workerAddr = worker then totals.add commitment else totals) totals).proofsPass =
        ((commitments.filter (fun commitment => decide (commitment.workerAddr = worker))).map
          Commitment.proofsPass).foldl addFitting totals.proofsPass ∧
      (commitments.foldl (fun totals commitment =>
        if commitment.workerAddr = worker then totals.add commitment else totals) totals).proofsFail =
        ((commitments.filter (fun commitment => decide (commitment.workerAddr = worker))).map
          Commitment.proofsFail).foldl addFitting totals.proofsFail := by
    intro commitments
    induction commitments with
    | nil => exact fun totals => ⟨rfl, rfl⟩
    | cons commitment rest ih =>
      intro totals
      rw [List.foldl_cons, List.filter_cons]
      by_cases own : commitment.workerAddr = worker
      · simp only [own, ↓reduceIte, decide_true, List.map_cons, List.foldl_cons]
        exact ih (totals.add commitment)
      · simp only [own, ↓reduceIte, decide_false, Bool.false_eq_true]
        exact ih totals
  rw [← List.filter_flatMap]
  exact general _ _

/-- The deals that a worker is committed to, once for each of its commitments. -/
def dealsOf (worker : Bytes) (order : List (Bytes × List Commitment)) : List Bytes :=
  order.flatMap (fun entry => (entry.2.filter (fun commitment =>
    decide (commitment.workerAddr = worker))).map (fun _ => entry.1))

/-- How many challenges of a worker have this verdict. -/
def StorageEngine.proofsOf (engine : StorageEngine) (worker verdict : Bytes) : Nat :=
  measure (fun _ challenge =>
    if challenge.workerAddr = worker ∧ challenge.verdict = verdict then 1 else 0) engine.challenges

/-- A worker commits to a deal at most once. -/
theorem dealsOf_nodup (worker : Bytes)
    (lists : Lists order (reached P operations).commitmentsByDeal) : (dealsOf worker order).Nodup := by
  unfold dealsOf
  rw [List.nodup_flatMap]
  constructor
  · intro entry member
    have distinct := (reached_kept P operations).distinct entry.1
    rw [StorageEngine.commitmentsTo, (lists.entries entry.1 entry.2).mp member] at distinct
    have own : (entry.2.filter (fun commitment => decide (commitment.workerAddr = worker))).map
        Commitment.workerAddr = List.replicate (entry.2.filter (fun commitment =>
          decide (commitment.workerAddr = worker))).length worker := by
      refine List.eq_replicate_iff.mpr ⟨List.length_map _, fun name there => ?_⟩
      obtain ⟨commitment, inside, rfl⟩ := List.mem_map.mp there
      exact of_decide_eq_true (List.mem_filter.mp inside).2
    have few : ((entry.2.filter (fun commitment => decide (commitment.workerAddr = worker))).map
        Commitment.workerAddr).Nodup := distinct.sublist (List.filter_sublist.map Commitment.workerAddr)
    rw [own, List.nodup_replicate] at few
    rw [List.map_const', List.nodup_replicate]
    exact few
  · refine (List.pairwise_map.mp lists.distinct).imp fun different => ?_
    intro deal first second
    obtain ⟨_, -, rfl⟩ := List.mem_map.mp first
    obtain ⟨_, -, same⟩ := List.mem_map.mp second
    exact different same.symm

/-- The challenges of a worker are those for its deals. -/
theorem proofsOf_eq_sum (worker verdict : Bytes)
    (lists : Lists order (reached P operations).commitmentsByDeal) :
    ((dealsOf worker order).map
      (fun deal => (reached P operations).settled deal worker verdict)).sum =
      (reached P operations).proofsOf worker verdict := by
  have kept := reached_kept P operations
  refine (sum_measure (dealsOf worker order) (fun deal (_ : Bytes) (challenge : Challenge) =>
    if challenge.dealId = deal ∧ challenge.workerAddr = worker ∧ challenge.verdict = verdict then 1 else 0)
    (reached P operations).challenges).trans (measure_entries _ _ _ fun tested challenge found => ?_)
  by_cases this : challenge.workerAddr = worker ∧ challenge.verdict = verdict
  · obtain ⟨rfl, same⟩ := this
    simp only [same, and_true, and_self, ↓reduceIte]
    refine sum_indicator _ (dealsOf_nodup challenge.workerAddr lists) ?_
    obtain ⟨commitment, member, own⟩ := List.mem_map.mp (kept.committed tested challenge found)
    rw [StorageEngine.commitmentsTo] at member
    cases there : (reached P operations).commitmentsByDeal.lookup challenge.dealId with
    | none =>
      rw [there] at member
      exact nomatch member
    | some commitments =>
      rw [there] at member
      exact List.mem_flatMap.mpr ⟨(challenge.dealId, commitments), (lists.entries _ _).mpr there,
        List.mem_map.mpr ⟨commitment, List.mem_filter.mpr ⟨member, decide_eq_true own⟩, rfl⟩⟩
  · rw [if_neg this]
    refine List.sum_eq_zero fun weight member => ?_
    obtain ⟨deal, -, rfl⟩ := List.mem_map.mp member
    exact if_neg fun all => this ⟨all.2.1, all.2.2⟩

/-- The counters of a worker's commitments add up to its challenges, where these fit in a counter. -/
theorem sum_counters (worker verdict : Bytes)
    (lists : Lists order (reached P operations).commitmentsByDeal) (counter : Commitment → UInt64)
    (counts : ∀ id commitment, commitment ∈ (reached P operations).commitmentsTo id →
      counter commitment = UInt64.ofNat ((reached P operations).settled id commitment.workerAddr verdict))
    (small : (reached P operations).proofsOf worker verdict < 2 ^ 64) :
    (((order.flatMap (fun entry => entry.2.filter (fun commitment =>
      decide (commitment.workerAddr = worker)))).map counter).map UInt64.toNat).sum =
      (reached P operations).proofsOf worker verdict := by
  rw [← proofsOf_eq_sum worker verdict lists, dealsOf, List.map_flatMap, List.map_flatMap,
    List.map_flatMap]
  congr 1
  refine List.flatMap_congr fun entry member => ?_
  simp only [List.map_map]
  refine List.map_congr_left fun commitment inside => ?_
  obtain ⟨there, own⟩ := List.mem_filter.mp inside
  obtain rfl := of_decide_eq_true own
  have own' : commitment ∈ (reached P operations).commitmentsTo entry.1 := by
    rw [StorageEngine.commitmentsTo, (lists.entries entry.1 entry.2).mp member]
    exact there
  have few : (reached P operations).settled entry.1 commitment.workerAddr verdict < 2 ^ 64 := by
    refine Nat.lt_of_le_of_lt (measure_mono _ _ _ fun key challenge => ?_) small
    by_cases all : challenge.dealId = entry.1 ∧ challenge.workerAddr = commitment.workerAddr ∧
        challenge.verdict = verdict
    · rw [if_pos all, if_pos all.2]
    · rw [if_neg all]
      exact Nat.zero_le _
  simp only [Function.comp_apply, counts entry.1 commitment own', UInt64.toNat_ofNat']
  exact Nat.mod_eq_of_lt few

/-- In every run, and in whatever order the commitments are enumerated, the totals of a worker are how
many challenges of it passed and failed, as long as a counter holds these numbers, and these are the
numbers that `worker_status` prints. -/
theorem worker_totals_exact (P : Primitives) (operations : List Operation) (worker : Bytes)
    (order : List (Bytes × List Commitment))
    (lists : Lists order (reached P operations).commitmentsByDeal)
    (passed : (reached P operations).proofsOf worker (ascii "pass") < 2 ^ 64)
    (failed : (reached P operations).proofsOf worker (ascii "fail") < 2 ^ 64) :
    (workerTotals worker order).proofsPass.toNat =
        (reached P operations).proofsOf worker (ascii "pass") ∧
      (workerTotals worker order).proofsFail.toNat =
        (reached P operations).proofsOf worker (ascii "fail") ∧
      (worker ≠ [] → ∃ front, workerStatus worker order = .ok (front ++
        ascii " proofs_pass=" ++ decimal ((reached P operations).proofsOf worker (ascii "pass")) ++
        ascii " proofs_fail=" ++ decimal ((reached P operations).proofsOf worker (ascii "fail")))) := by
  have kept := reached_kept P operations
  obtain ⟨pass, fail⟩ := workerTotals_eq worker order
  have passes' := sum_counters worker (ascii "pass") lists Commitment.proofsPass
    (fun id commitment member => (kept.counted id commitment member).pass) passed
  have fails' := sum_counters worker (ascii "fail") lists Commitment.proofsFail
    (fun id commitment member => (kept.counted id commitment member).fail) failed
  have passes : (workerTotals worker order).proofsPass.toNat =
      (reached P operations).proofsOf worker (ascii "pass") := by
    rw [pass, foldl_addFitting _ _ (by rw [passes']; simpa using passed), passes']
    exact Nat.zero_add _
  have fails : (workerTotals worker order).proofsFail.toNat =
      (reached P operations).proofsOf worker (ascii "fail") := by
    rw [fail, foldl_addFitting _ _ (by rw [fails']; simpa using failed), fails']
    exact Nat.zero_add _
  refine ⟨passes, fails, fun named => ?_⟩
  have unnamed : worker.isEmpty = false := by simpa using named
  refine ⟨ascii "worker=" ++ worker ++ ascii " deals=" ++ decimal (workerTotals worker order).deals ++
    ascii " collateral_total=" ++ decimal (workerTotals worker order).collateral.toNat, ?_⟩
  simp only [workerStatus, unnamed, passes, fails, Bool.false_eq_true, if_false]

set_option maxRecDepth 100000 in
/-- One passed and one failed challenge are reported of the worker. -/
theorem challenged_totals : ∃ order,
    Lists order (reached samplePrimitives challenged).commitmentsByDeal ∧
      (workerTotals (ascii "w") order).proofsPass.toNat = 1 ∧
      (workerTotals (ascii "w") order).proofsFail.toNat = 1 := by
  have counted : (reached samplePrimitives challenged).proofsOf (ascii "w") (ascii "pass") = 1 ∧
      (reached samplePrimitives challenged).proofsOf (ascii "w") (ascii "fail") = 1 := by
    decide +kernel
  obtain ⟨passed, failed⟩ := counted
  obtain ⟨passes, fails, -⟩ := worker_totals_exact samplePrimitives challenged (ascii "w") _
    (lists_entries _) (by rw [passed]; decide) (by rw [failed]; decide)
  exact ⟨_, lists_entries _, passes.trans passed, fails.trans failed⟩

end Storage

end Addition
