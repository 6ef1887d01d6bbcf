import Addition.ComputeJobs

/-!
# Compute jobs along runs

Whatever is called in whatever order: a job is validated exactly when two validators and a majority
of them last said so at some time, and since then no result came in and no vote rejected it. Nothing
ties the verdicts to the result: they count from before it as well. A result is always of the worker
that the job is assigned to, and a job is assigned once.
-/

namespace Addition

namespace Compute

open ByteStrings Checked FiniteTables Runs

variable (P : Primitives)

/-! ### What is said in a run -/

/-- A call goes through. -/
abbrev GoesThrough (front : List Operation) (operation : Operation) : Prop :=
  (perform P (reached P front) operation).1.isOk = true

/-- An engine and what a validator last said of a job, call by call. -/
def hear (id validator : Bytes) (state : ComputeEngine × Option Bytes) (operation : Operation) :
    ComputeEngine × Option Bytes :=
  (step P state.1 operation,
    match operation with
    | .submitValidation id' validator' verdict _ =>
      if id' = id ∧ validator' = validator ∧ (perform P state.1 operation).1.isOk = true then
        some verdict
      else state.2
    | _ => state.2)

/-- The last verdict of a validator on a job. -/
def lastVerdict (operations : List Operation) (id validator : Bytes) : Option Bytes :=
  (operations.foldl (hear P id validator) (.initial, none)).2

/-- The validators whose last verdict on a job is this are so many. -/
def Voters (operations : List Operation) (id verdict : Bytes) (number : Nat) : Prop :=
  ∃ voters : Finset Bytes, voters.card = number ∧
    ∀ validator, validator ∈ voters ↔ lastVerdict P operations id validator = some verdict

/-- Two validators and a majority say that a job passes. -/
def Passing (operations : List Operation) (id : Bytes) : Prop :=
  ∃ passes fails, Voters P operations id (ascii "pass") passes ∧
    Voters P operations id (ascii "fail") fails ∧ 2 ≤ passes ∧ fails < passes

/-- Two validators and at least half of them say that it fails. -/
def Failing (operations : List Operation) (id : Bytes) : Prop :=
  ∃ passes fails, Voters P operations id (ascii "pass") passes ∧
    Voters P operations id (ascii "fail") fails ∧ 2 ≤ fails ∧ passes ≤ fails

/-- A validation goes through, after which the validators are of such a mind. -/
def Votes (mind : List Operation → Bytes → Prop) (id : Bytes) (front : List Operation) :
    Operation → Prop
  | .submitValidation id' validator verdict score =>
    id' = id ∧ GoesThrough P front (.submitValidation id' validator verdict score) ∧
      mind (front ++ [.submitValidation id' validator verdict score]) id
  | _ => False

/-- A result comes in. -/
def Delivers (id : Bytes) (front : List Operation) : Operation → Prop
  | .submitResult id' worker outputRef resultHash proofRef =>
    id' = id ∧ GoesThrough P front (.submitResult id' worker outputRef resultHash proofRef)
  | _ => False

/-- The verdict that a job last got, after which no other one was reached and no result came in. -/
def Stays (mind other : List Operation → Bytes → Prop) (operations : List Operation) (id : Bytes) :
    Prop :=
  Stands (Votes P mind id)
    (fun front operation => Votes P other id front operation ∨ Delivers P id front operation) operations

variable {P}

/-! ### Single calls -/

@[simp] theorem reached_nil : reached P [] = .initial := rfl

@[simp] theorem reached_snoc (front : List Operation) (operation : Operation) :
    reached P (front ++ [operation]) = step P (reached P front) operation := by
  rw [reached, List.foldl_append]
  rfl

@[simp] theorem lastVerdict_nil (id validator : Bytes) : lastVerdict P [] id validator = none := rfl

theorem heard_engine (operations : List Operation) (id validator : Bytes) :
    (operations.foldl (hear P id validator) (.initial, none)).1 = reached P operations := by
  induction operations using List.reverseRecOn with
  | nil => rfl
  | append_singleton front operation ih =>
    rw [List.foldl_append, reached_snoc, ← ih]
    rfl

/-- What a call says of a job. -/
theorem lastVerdict_snoc (front : List Operation) (operation : Operation) (id validator : Bytes) :
    lastVerdict P (front ++ [operation]) id validator =
      match operation with
      | .submitValidation id' validator' verdict _ =>
        if id' = id ∧ validator' = validator ∧ GoesThrough P front operation then some verdict
        else lastVerdict P front id validator
      | _ => lastVerdict P front id validator := by
  have engine := heard_engine (P := P) front id validator
  unfold lastVerdict
  rw [List.foldl_append, List.foldl_cons, List.foldl_nil]
  generalize front.foldl (hear P id validator) (.initial, none) = state at engine ⊢
  obtain ⟨here, said⟩ := state
  obtain rfl : here = reached P front := engine
  rfl

/-! ### What a call changes -/

/-- A submission is refused, or it adds an open job. -/
theorem submitJob_cases (engine : ComputeEngine) (requester jobType inputRef profile : Bytes)
    (latency budget reputation : UInt64) :
    Refused engine (submitJob P engine requester jobType inputRef profile latency budget reputation) ∨
      ∃ text job, engine.jobs.lookup (strongHash P text) = none ∧ job.jobId = strongHash P text ∧
        job.status = ascii "open" ∧
        submitJob P engine requester jobType inputRef profile latency budget reputation =
          (.ok (strongHash P text), engine.putJob job (strongHash P text)) := by
  unfold submitJob
  split
  · exact .inl ⟨_, rfl⟩
  · split
    · exact .inl ⟨_, rfl⟩
    · dsimp only
      split
      · exact .inl ⟨_, rfl⟩
      · exact .inr ⟨_, _, Option.not_isSome_iff_eq_none.mp ‹_›, rfl, rfl, rfl⟩

/-- An assignment is refused, or it takes an open job. -/
theorem assignJob_cases (engine : ComputeEngine) (id worker : Bytes) (collateral : UInt64) :
    Refused engine (assignJob engine id worker collateral) ∨
      ∃ job assignment, engine.jobs.lookup id = some job ∧ job.status = ascii "open" ∧
        assignment.workerAddr = worker ∧ assignJob engine id worker collateral =
          (.ok [], ({ engine with assignments := engine.assignments.insert id assignment }).putJob
            { job with assignedWorker := worker, status := ascii "assigned" } id) := by
  unfold assignJob
  split
  · exact .inl ⟨_, rfl⟩
  · rename_i job found
    split
    · exact .inl ⟨_, rfl⟩
    · split
      · exact .inl ⟨_, rfl⟩
      · exact .inr ⟨job, _, found, not_not.mp ‹_›, rfl, rfl⟩

/-- A result is refused, or it is the one of an assigned job. -/
theorem submitResult_cases (engine : ComputeEngine) (id worker outputRef resultHash proofRef : Bytes) :
    Refused engine (submitResult engine id worker outputRef resultHash proofRef) ∨
      ∃ job assignment result, engine.jobs.lookup id = some job ∧
        engine.assignments.lookup id = some assignment ∧ assignment.workerAddr = worker ∧
        result = ⟨worker, outputRef, resultHash, proofRef⟩ ∧
        submitResult engine id worker outputRef resultHash proofRef =
          (.ok [], ({ engine with results := engine.results.insert id result }).putJob
            { job with
              outputRef := outputRef, resultHash := resultHash, status := ascii "result_submitted" }
            id) := by
  unfold submitResult
  split
  · exact .inl ⟨_, rfl⟩
  · rename_i job found
    split
    · exact .inl ⟨_, rfl⟩
    · rename_i assignment assigned
      split
      · exact .inl ⟨_, rfl⟩
      · split
        · exact .inl ⟨_, rfl⟩
        · exact .inr ⟨job, assignment, _, found, assigned, not_not.mp ‹_›, rfl, rfl⟩

/-- A vote is refused, or it is put behind the others. -/
theorem submitValidation_cases (engine : ComputeEngine) (id validator verdict : Bytes) (score : UInt64) :
    Refused engine (submitValidation engine id validator verdict score) ∨
      ∃ job validations, engine.jobs.lookup id = some job ∧
        (verdict = ascii "pass" ∨ verdict = ascii "fail") ∧
        validations = (engine.validationsOf id).insert validator ⟨validator, verdict, score⟩ ∧
        submitValidation engine id validator verdict score =
          (.ok [], ({ engine with validations := engine.validations.insert id validations }).putJob
            { job with
              status := decided validations job.status, validationScore := scoreSum validations }
            id) := by
  unfold submitValidation
  split
  · exact .inl ⟨_, rfl⟩
  · rename_i job found
    split
    · exact .inl ⟨_, rfl⟩
    · split
      · exact .inl ⟨_, rfl⟩
      · rename_i known
        refine .inr ⟨job, _, found, ?_, rfl, rfl⟩
        by_cases pass : verdict = ascii "pass"
        · exact .inl pass
        · exact .inr (not_not.mp fun fail => known ⟨pass, fail⟩)

/-! ### Counting -/

variable {id : Bytes} {operations : List Operation} {verdict : Bytes}
  {validations : Table Bytes Validation} {front : List Operation}
  {mind : List Operation → Bytes → Prop} {operation : Operation}
  {other : List Operation → Bytes → Prop} {engine : ComputeEngine} {job : Job}
  {assignment : Assignment} {validator : Bytes}

theorem Voters.unique {number number' : Nat}
    (voters : Voters P operations id verdict number) (voters' : Voters P operations id verdict number') :
    number = number' := by
  obtain ⟨names, rfl, said⟩ := voters
  obtain ⟨names', rfl, said'⟩ := voters'
  exact congrArg Finset.card (Finset.ext fun validator => (said validator).trans (said' validator).symm)

/-- The validations of a job are what was last said of it. -/
def Said (P : Primitives) (operations : List Operation) (id : Bytes)
    (validations : Table Bytes Validation) : Prop :=
  ∀ validator, (validations.lookup validator).map Validation.verdict =
    lastVerdict P operations id validator

theorem Said.voters (said : Said P operations id validations) (verdict : Bytes) :
    Voters P operations id verdict (count validations verdict) := by
  let spoken := validations.entries.filter (fun entry => decide (entry.2.verdict = verdict))
  have distinct : (spoken.map Sigma.fst).Nodup :=
    List.Nodup.sublist (List.filter_sublist.map Sigma.fst) validations.nodupKeys
  refine ⟨(spoken.map Sigma.fst).toFinset, ?_, fun validator => ?_⟩
  · rw [List.toFinset_card_of_nodup distinct, List.length_map, count, List.countP_eq_length_filter]
  · rw [List.mem_toFinset, List.mem_map, ← said validator, Option.map_eq_some_iff]
    constructor
    · rintro ⟨entry, member, rfl⟩
      obtain ⟨inside, same⟩ := List.mem_filter.mp member
      exact ⟨entry.2, List.mem_dlookup validations.nodupKeys inside, of_decide_eq_true same⟩
    · rintro ⟨validation, found, same⟩
      exact ⟨⟨validator, validation⟩, List.mem_filter.mpr
        ⟨List.of_mem_dlookup found, decide_eq_true same⟩, rfl⟩

theorem Said.passing (said : Said P operations id validations) : Passing P operations id ↔
      2 ≤ count validations (ascii "pass") ∧
        count validations (ascii "fail") < count validations (ascii "pass") := by
  constructor
  · rintro ⟨passes, fails, pass, fail, enough⟩
    rw [(said.voters _).unique pass, (said.voters _).unique fail]
    exact enough
  · exact fun enough => ⟨_, _, said.voters _, said.voters _, enough⟩

theorem Said.failing (said : Said P operations id validations) : Failing P operations id ↔
      2 ≤ count validations (ascii "fail") ∧
        count validations (ascii "pass") ≤ count validations (ascii "fail") := by
  constructor
  · rintro ⟨passes, fails, pass, fail, enough⟩
    rw [(said.voters _).unique pass, (said.voters _).unique fail]
    exact enough
  · exact fun enough => ⟨_, _, said.voters _, said.voters _, enough⟩

/-! ### What all runs keep -/

/-- What an engine has to do with the calls that made it. -/
structure Tracked (P : Primitives) (operations : List Operation) (engine : ComputeEngine) : Prop where
  said : ∀ id, Said P operations id (engine.validationsOf id)
  fresh : ∀ id, engine.jobs.lookup id = none → engine.assignments.lookup id = none ∧
    engine.results.lookup id = none ∧ ¬ Stays P (Passing P) (Failing P) operations id ∧
      ¬ Stays P (Failing P) (Passing P) operations id
  verdicts : ∀ id job, engine.jobs.lookup id = some job →
    (job.status = ascii "validated" ↔ Stays P (Passing P) (Failing P) operations id) ∧
      (job.status = ascii "rejected" ↔ Stays P (Failing P) (Passing P) operations id)
  owned : ∀ id job assignment, engine.jobs.lookup id = some job →
    engine.assignments.lookup id = some assignment →
      assignment.workerAddr = job.assignedWorker ∧ job.status ≠ ascii "open"
  delivered : ∀ id job result, engine.jobs.lookup id = some job →
    engine.results.lookup id = some result → job.outputRef = result.outputRef ∧
      job.resultHash = result.resultHash ∧ ∃ assignment,
        engine.assignments.lookup id = some assignment ∧ assignment.workerAddr = result.workerAddr

/-- A call that says nothing of a job and brings no result for it leaves its verdicts. -/
theorem stays_other (silent : ¬ Votes P mind id front operation)
    (quiet : ¬ Votes P other id front operation) (empty : ¬ Delivers P id front operation) :
    Stays P mind other (front ++ [operation]) id ↔ Stays P mind other front id := by
  unfold Stays
  rw [stands_snoc]
  tauto

theorem Votes.through (votes : Votes P mind id front operation) :
    GoesThrough P front operation := by
  cases operation with
  | submitValidation id' validator verdict score => exact votes.2.1
  | submitJob requester jobType inputRef profile latency budget reputation => exact votes.elim
  | assignJob id' worker collateral => exact votes.elim
  | submitResult id' worker outputRef resultHash proofRef => exact votes.elim

theorem Delivers.through
    (delivers : Delivers P id front operation) : GoesThrough P front operation := by
  cases operation with
  | submitResult id' worker outputRef resultHash proofRef => exact delivers.2
  | submitJob requester jobType inputRef profile latency budget reputation => exact delivers.elim
  | assignJob id' worker collateral => exact delivers.elim
  | submitValidation id' validator verdict score => exact delivers.elim

theorem lookup_putJob (engine : ComputeEngine) (job : Job) (id tested : Bytes) :
    (engine.putJob job id).jobs.lookup tested = if tested = id then some job else engine.jobs.lookup tested :=
  lookup_insert engine.jobs id tested job

theorem lastVerdict_refused (refused : ¬ GoesThrough P front operation) (id validator : Bytes) :
    lastVerdict P (front ++ [operation]) id validator = lastVerdict P front id validator := by
  rw [lastVerdict_snoc]
  cases operation with
  | submitValidation id' validator' verdict score => exact if_neg (fun all => refused all.2.2)
  | submitJob requester jobType inputRef profile latency budget reputation => rfl
  | assignJob id' worker collateral => rfl
  | submitResult id' worker outputRef resultHash proofRef => rfl

/-- What a call does that brings neither a verdict nor a result for the job. -/
theorem Tracked.silent {left : ComputeEngine}
    (tracked : Tracked P front engine) (operation : Operation)
    (silent : ∀ mind id, ¬ Votes P mind id front operation)
    (empty : ∀ id, ¬ Delivers P id front operation)
    (said : ∀ id validator, lastVerdict P (front ++ [operation]) id validator =
      lastVerdict P front id validator)
    (validations : left.validations = engine.validations) (results : left.results = engine.results)
    (jobs : ∀ id job, left.jobs.lookup id = some job →
      (engine.jobs.lookup id = some job ∧ left.assignments.lookup id = engine.assignments.lookup id) ∨
        job.status ≠ ascii "validated" ∧ job.status ≠ ascii "rejected" ∧
          ¬ Stays P (Passing P) (Failing P) front id ∧ ¬ Stays P (Failing P) (Passing P) front id ∧
          engine.results.lookup id = none ∧ ∀ assignment, left.assignments.lookup id = some assignment →
            assignment.workerAddr = job.assignedWorker ∧ job.status ≠ ascii "open")
    (none : ∀ id, left.jobs.lookup id = none → engine.jobs.lookup id = none ∧
      left.assignments.lookup id = engine.assignments.lookup id) :
    Tracked P (front ++ [operation]) left := by
  have stays : ∀ mind other id, Stays P mind other (front ++ [operation]) id ↔ Stays P mind other front id :=
    fun mind other id => stays_other (silent mind id) (silent other id) (empty id)
  exact {
    said := by
      intro id validator
      have same : left.validationsOf id = engine.validationsOf id := by
        rw [ComputeEngine.validationsOf, validations]
        rfl
      rw [same, said id validator]
      exact tracked.said id validator
    fresh := by
      intro id missing
      obtain ⟨before, same⟩ := none id missing
      rw [same, results, stays, stays]
      exact tracked.fresh id before
    verdicts := by
      intro id job found
      rw [stays, stays]
      obtain ⟨before, -⟩ | ⟨notValidated, notRejected, notPassed, notFailed, -, -⟩ := jobs id job found
      · exact tracked.verdicts id job before
      · exact ⟨⟨fun status => absurd status notValidated, fun other => absurd other notPassed⟩,
          ⟨fun status => absurd status notRejected, fun other => absurd other notFailed⟩⟩
    owned := by
      intro id job assignment found assigned
      obtain ⟨before, same⟩ | ⟨-, -, -, -, -, owned⟩ := jobs id job found
      · exact tracked.owned id job assignment before (same ▸ assigned)
      · exact owned assignment assigned
    delivered := by
      intro id job result found held
      rw [results] at held
      obtain ⟨before, same⟩ | ⟨-, -, -, -, missing, -⟩ := jobs id job found
      · rw [same]
        exact tracked.delivered id job result before held
      · rw [missing] at held
        exact nomatch held }

theorem assigned_other : ascii "assigned" ≠ ascii "validated" ∧ ascii "assigned" ≠ ascii "rejected" := by
  decide

theorem delivered_other :
    ascii "result_submitted" ≠ ascii "validated" ∧ ascii "result_submitted" ≠ ascii "rejected" := by
  decide

theorem Tracked.refused (tracked : Tracked P front engine)
    (refused : ¬ GoesThrough P front operation) : Tracked P (front ++ [operation]) engine :=
  tracked.silent operation (fun _ _ votes => refused votes.through)
    (fun _ delivers => refused delivers.through) (lastVerdict_refused refused) rfl rfl
    (fun _ _ found => .inl ⟨found, rfl⟩) (fun _ missing => ⟨missing, rfl⟩)

theorem Tracked.submitJob
    (tracked : Tracked P front engine) (requester jobType inputRef profile : Bytes)
    (latency budget reputation : UInt64)
    (new : engine.jobs.lookup id = none) (status : job.status = ascii "open") :
    Tracked P (front ++ [.submitJob requester jobType inputRef profile latency budget reputation])
      (engine.putJob job id) := by
  obtain ⟨assignments, results, notPassed, notFailed⟩ := tracked.fresh id new
  refine tracked.silent _ (fun _ _ votes => votes) (fun _ delivers => delivers)
    (fun id validator => lastVerdict_snoc front _ id validator) rfl rfl ?_ ?_
  · intro tested other found
    rw [lookup_putJob] at found
    split at found
    · rename_i same
      obtain rfl := Option.some.inj found
      refine .inr ⟨by rw [status]; decide, by rw [status]; decide, same ▸ notPassed, same ▸ notFailed,
        same ▸ results, fun assignment assigned => ?_⟩
      have none : engine.assignments.lookup tested = some assignment := assigned
      rw [same, assignments] at none
      exact nomatch none
    · exact .inl ⟨found, rfl⟩
  · intro tested missing
    rw [lookup_putJob] at missing
    split at missing
    · exact nomatch missing
    · exact ⟨missing, rfl⟩

theorem Tracked.assignJob (tracked : Tracked P front engine) (worker : Bytes) (collateral : UInt64)
    (found : engine.jobs.lookup id = some job)
    (isOpen : job.status = ascii "open") (own : assignment.workerAddr = worker) :
    Tracked P (front ++ [.assignJob id worker collateral])
      (({ engine with assignments := engine.assignments.insert id assignment }).putJob
        { job with assignedWorker := worker, status := ascii "assigned" } id) := by
  have free : engine.results.lookup id = none := by
    by_contra some
    obtain ⟨result, held⟩ := Option.ne_none_iff_exists'.mp some
    obtain ⟨-, -, assignment, assigned, -⟩ := tracked.delivered id job result found held
    exact (tracked.owned id job assignment found assigned).2 isOpen
  obtain ⟨validated, rejected⟩ := tracked.verdicts id job found
  refine tracked.silent _ (fun _ _ votes => votes) (fun _ delivers => delivers)
    (fun id validator => lastVerdict_snoc front _ id validator) rfl rfl ?_ ?_
  · intro tested other there
    rw [lookup_putJob] at there
    split at there
    · rename_i same
      obtain rfl := Option.some.inj there
      refine .inr ⟨assigned_other.1, assigned_other.2, ?_, ?_, same ▸ free, ?_⟩
      · exact fun stays => absurd ((isOpen.symm.trans (validated.mpr (same ▸ stays)))) (by decide)
      · exact fun stays => absurd ((isOpen.symm.trans (rejected.mpr (same ▸ stays)))) (by decide)
      · intro other assigned
        have inserted : (engine.assignments.insert id assignment).lookup tested = some other := assigned
        rw [lookup_insert, if_pos same] at inserted
        exact ⟨Option.some.inj inserted ▸ own, (by decide : ascii "assigned" ≠ ascii "open")⟩
    · rename_i different
      exact .inl ⟨there, (lookup_insert _ _ _ _).trans (if_neg different)⟩
  · intro tested missing
    rw [lookup_putJob] at missing
    split at missing
    · exact nomatch missing
    · rename_i different
      exact ⟨missing, (lookup_insert _ _ _ _).trans (if_neg different)⟩

theorem Tracked.submitResult
    (tracked : Tracked P front engine) {worker outputRef resultHash proofRef : Bytes}
    {result : JobResult} (found : engine.jobs.lookup id = some job)
    (assigned : engine.assignments.lookup id = some assignment) (own : assignment.workerAddr = worker)
    (isResult : result = ⟨worker, outputRef, resultHash, proofRef⟩)
    (through : GoesThrough P front (.submitResult id worker outputRef resultHash proofRef)) :
    Tracked P (front ++ [.submitResult id worker outputRef resultHash proofRef])
      (({ engine with results := engine.results.insert id result }).putJob
        { job with outputRef := outputRef, resultHash := resultHash, status := ascii "result_submitted" }
        id) := by
  have other : ∀ mind other tested, tested ≠ id →
      (Stays P mind other (front ++ [.submitResult id worker outputRef resultHash proofRef]) tested ↔
        Stays P mind other front tested) := fun mind other tested different =>
    stays_other (fun votes => votes) (fun votes => votes) (fun delivers => different delivers.1.symm)
  have own' : ∀ mind other,
      ¬ Stays P mind other (front ++ [.submitResult id worker outputRef resultHash proofRef]) id := by
    intro mind other stays
    obtain votes | ⟨-, quiet⟩ := stands_snoc.mp stays
    · exact votes
    · exact quiet (.inr ⟨rfl, through⟩)
  exact {
    said := by
      intro tested validator
      rw [lastVerdict_snoc]
      exact tracked.said tested validator
    fresh := by
      intro tested missing
      rw [lookup_putJob] at missing
      split at missing
      · exact nomatch missing
      · rename_i different
        obtain ⟨assignments, results, notPassed, notFailed⟩ := tracked.fresh tested missing
        exact ⟨assignments, ((lookup_insert _ _ _ _).trans (if_neg different)).trans results,
          fun stays => notPassed ((other _ _ tested different).mp stays),
          fun stays => notFailed ((other _ _ tested different).mp stays)⟩
    verdicts := by
      intro tested job' there
      rw [lookup_putJob] at there
      split at there
      · rename_i same
        obtain rfl := Option.some.inj there
        subst same
        exact ⟨⟨fun status => absurd status delivered_other.1, fun stays => absurd stays (own' _ _)⟩,
          ⟨fun status => absurd status delivered_other.2, fun stays => absurd stays (own' _ _)⟩⟩
      · rename_i different
        rw [other _ _ tested different, other _ _ tested different]
        exact tracked.verdicts tested job' there
    owned := by
      intro tested job' assignment' there assigned'
      rw [lookup_putJob] at there
      split at there
      · rename_i same
        obtain rfl := Option.some.inj there
        exact ⟨(tracked.owned id job assignment' found (same ▸ assigned')).1,
          (by decide : ascii "result_submitted" ≠ ascii "open")⟩
      · exact tracked.owned tested job' assignment' there assigned'
    delivered := by
      intro tested job' result' there held
      have inserted : (engine.results.insert id result).lookup tested = some result' := held
      rw [lookup_putJob] at there
      rw [lookup_insert] at inserted
      split at there
      · rename_i same
        obtain rfl := Option.some.inj there
        rw [if_pos same] at inserted
        obtain rfl := Option.some.inj inserted
        rw [isResult]
        exact ⟨rfl, rfl, assignment, same ▸ assigned, own⟩
      · rename_i different
        rw [if_neg different] at inserted
        exact tracked.delivered tested job' result' there inserted }

/-- What the count makes of the status, by what the validators last said. -/
theorem decided_status (said : Said P operations id validations) (status : Bytes) :
    (decided validations status = ascii "validated" ↔ Passing P operations id ∨
        status = ascii "validated" ∧ ¬ Failing P operations id) ∧
      (decided validations status = ascii "rejected" ↔ Failing P operations id ∨
        status = ascii "rejected" ∧ ¬ Passing P operations id) ∧
      (decided validations status = ascii "open" → status = ascii "open") := by
  have apart : ascii "validated" ≠ ascii "rejected" ∧ ascii "validated" ≠ ascii "open" ∧
      ascii "rejected" ≠ ascii "open" := by
    decide
  rw [said.passing, said.failing]
  unfold decided
  dsimp only
  split
  · rename_i passes
    have fails : ¬ (2 ≤ count validations (ascii "fail") ∧
        count validations (ascii "pass") ≤ count validations (ascii "fail")) := by omega
    simp [passes, fails, apart]
  · rename_i passes
    split
    · rename_i fails
      simp [passes, fails, apart, apart.1.symm]
    · rename_i fails
      simp [passes, fails]

theorem Tracked.submitValidation (tracked : Tracked P front engine) {score : UInt64}
    (found : engine.jobs.lookup id = some job)
    (isInserted : validations = (engine.validationsOf id).insert validator ⟨validator, verdict, score⟩)
    (through : GoesThrough P front (.submitValidation id validator verdict score)) :
    Tracked P (front ++ [.submitValidation id validator verdict score])
      (({ engine with validations := engine.validations.insert id validations }).putJob
        { job with
          status := decided validations job.status, validationScore := scoreSum validations } id) := by
  have said : Said P (front ++ [.submitValidation id validator verdict score]) id validations := by
    intro tested
    rw [lastVerdict_snoc, isInserted, lookup_insert]
    by_cases same : tested = validator
    · subst same
      simp [through]
    · simp only [same, ↓reduceIte, Ne.symm same, false_and, and_false]
      exact tracked.said id tested
  have other : ∀ mind other tested, tested ≠ id →
      (Stays P mind other (front ++ [.submitValidation id validator verdict score]) tested ↔
        Stays P mind other front tested) := fun mind other tested different =>
    stays_other (fun votes => different votes.1.symm) (fun votes => different votes.1.symm)
      (fun delivers => delivers)
  have own : ∀ mind other,
      Stays P mind other (front ++ [.submitValidation id validator verdict score]) id ↔
        mind (front ++ [.submitValidation id validator verdict score]) id ∨
          Stays P mind other front id ∧
            ¬ other (front ++ [.submitValidation id validator verdict score]) id := by
    intro mind other
    have votes : ∀ mind, Votes P mind id front (.submitValidation id validator verdict score) ↔
        mind (front ++ [.submitValidation id validator verdict score]) id :=
      fun mind => ⟨fun votes => votes.2.2, fun held => ⟨rfl, through, held⟩⟩
    have empty : Delivers P id front (.submitValidation id validator verdict score) ↔ False := Iff.rfl
    unfold Stays
    rw [stands_snoc]
    simp only [votes, empty, or_false]
  obtain ⟨validated, rejected, stillOpen⟩ := decided_status said job.status
  exact {
    said := by
      intro tested other'
      by_cases same : tested = id
      · subst same
        have inserted : ComputeEngine.validationsOf (({ engine with
            validations := engine.validations.insert tested validations }).putJob
            { job with
              status := decided validations job.status
              validationScore := scoreSum validations } tested) tested = validations := by
          unfold ComputeEngine.validationsOf
          change ((engine.validations.insert tested validations).lookup tested).getD ∅ = _
          rw [AList.lookup_insert]
          rfl
        rw [inserted]
        exact said other'
      · have kept : ComputeEngine.validationsOf (({ engine with
            validations := engine.validations.insert id validations }).putJob
            { job with
              status := decided validations job.status
              validationScore := scoreSum validations } id) tested = engine.validationsOf tested := by
          unfold ComputeEngine.validationsOf
          change ((engine.validations.insert id validations).lookup tested).getD ∅ = _
          rw [AList.lookup_insert_ne same]
        rw [kept, lastVerdict_snoc]
        simp only [Ne.symm same, false_and, ↓reduceIte]
        exact tracked.said tested other'
    fresh := by
      intro tested missing
      rw [lookup_putJob] at missing
      split at missing
      · exact nomatch missing
      · rename_i different
        rw [other _ _ tested different, other _ _ tested different]
        exact tracked.fresh tested missing
    verdicts := by
      intro tested job' there
      rw [lookup_putJob] at there
      split at there
      · rename_i same
        obtain rfl := Option.some.inj there
        subst same
        obtain ⟨before, before'⟩ := tracked.verdicts tested job found
        rw [own, own, ← before, ← before']
        exact ⟨validated, rejected⟩
      · rename_i different
        rw [other _ _ tested different, other _ _ tested different]
        exact tracked.verdicts tested job' there
    owned := by
      intro tested job' assignment there assigned
      rw [lookup_putJob] at there
      split at there
      · rename_i same
        obtain rfl := Option.some.inj there
        obtain ⟨worker, notOpen⟩ := tracked.owned id job assignment found (same ▸ assigned)
        exact ⟨worker, fun isOpen => notOpen (stillOpen isOpen)⟩
      · exact tracked.owned tested job' assignment there assigned
    delivered := by
      intro tested job' result there held
      rw [lookup_putJob] at there
      split at there
      · rename_i same
        obtain rfl := Option.some.inj there
        subst same
        exact tracked.delivered tested job result found held
      · exact tracked.delivered tested job' result there held }

theorem Tracked.turnedDown (tracked : Tracked P front (reached P front))
    (refused : Refused (reached P front) (perform P (reached P front) operation)) :
    Tracked P (front ++ [operation]) (perform P (reached P front) operation).2 := by
  obtain ⟨message, same⟩ := refused
  have down : ¬ GoesThrough P front operation := by
    rw [GoesThrough, same]
    exact Bool.false_ne_true
  rw [same]
  exact tracked.refused down

theorem reached_tracked (P : Primitives) (operations : List Operation) :
    Tracked P operations (reached P operations) := by
  induction operations using List.reverseRecOn with
  | nil =>
    exact {
      said := fun id validator => by simp [ComputeEngine.initial, ComputeEngine.validationsOf]
      fresh := fun id _ => ⟨rfl, rfl, not_stands_nil, not_stands_nil⟩
      verdicts := fun id job found => by simp [ComputeEngine.initial] at found
      owned := fun id job assignment found => by simp [ComputeEngine.initial] at found
      delivered := fun id job result found => by simp [ComputeEngine.initial] at found }
  | append_singleton front operation tracked =>
    rw [reached_snoc, step]
    cases operation with
    | submitJob requester jobType inputRef profile latency budget reputation =>
      obtain refused | ⟨text, job, new, -, status, same⟩ := submitJob_cases (P := P) (reached P front)
        requester jobType inputRef profile latency budget reputation
      · exact tracked.turnedDown refused
      · rw [perform, same]
        exact tracked.submitJob requester jobType inputRef profile latency budget reputation new status
    | assignJob id worker collateral =>
      obtain refused | ⟨job, assignment, found, isOpen, own, same⟩ :=
        assignJob_cases (reached P front) id worker collateral
      · exact tracked.turnedDown refused
      · rw [perform, same]
        exact tracked.assignJob worker collateral found isOpen own
    | submitResult id worker outputRef resultHash proofRef =>
      obtain refused | ⟨job, assignment, result, found, assigned, own, isResult, same⟩ :=
        submitResult_cases (reached P front) id worker outputRef resultHash proofRef
      · exact tracked.turnedDown refused
      · have through : GoesThrough P front (.submitResult id worker outputRef resultHash proofRef) := by
          rw [GoesThrough, perform, same]
          rfl
        rw [perform, same]
        exact tracked.submitResult found assigned own isResult through
    | submitValidation id validator verdict score =>
      obtain refused | ⟨job, validations, found, -, isInserted, same⟩ :=
        submitValidation_cases (reached P front) id validator verdict score
      · exact tracked.turnedDown refused
      · have through : GoesThrough P front (.submitValidation id validator verdict score) := by
          rw [GoesThrough, perform, same]
          rfl
        rw [perform, same]
        exact tracked.submitValidation found isInserted through

/-- In every run, a job is validated exactly when two validators and a majority of them last said that
it passes, at some time after which no result came in and not at least half of them said that it
fails; it is rejected in the same way by two and at least half of them; and its result is the one
recorded, of the worker that it is assigned to. -/
theorem job_verdicts (P : Primitives) (operations : List Operation) (id : Bytes) (job : Job)
    (found : (reached P operations).jobs.lookup id = some job) :
    (job.status = ascii "validated" ↔ Stays P (Passing P) (Failing P) operations id) ∧
      (job.status = ascii "rejected" ↔ Stays P (Failing P) (Passing P) operations id) ∧
      ∀ result, (reached P operations).results.lookup id = some result →
        result.workerAddr = job.assignedWorker ∧ job.outputRef = result.outputRef ∧
          job.resultHash = result.resultHash := by
  have tracked := reached_tracked P operations
  obtain ⟨validated, rejected⟩ := tracked.verdicts id job found
  refine ⟨validated, rejected, fun result held => ?_⟩
  obtain ⟨output, hash, assignment, assigned, worker⟩ := tracked.delivered id job result found held
  exact ⟨worker.symm.trans (tracked.owned id job assignment found assigned).1, output, hash⟩

/-- The name of a job of the runs below. -/
def sampleJob (count : Nat) : Bytes :=
  strongHash samplePrimitives (jobSeed (ascii "r") (ascii "t") (ascii "i") count)

/-- A job is submitted. -/
def sampleSubmission : Operation := .submitJob (ascii "r") (ascii "t") (ascii "i") [] 1 1 0

/-- A worker takes a job and delivers. -/
def sampleWork (count : Nat) : List Operation :=
  [.assignJob (sampleJob count) (ascii "w") 1,
    .submitResult (sampleJob count) (ascii "w") (ascii "o") (ascii "h") (ascii "p")]

/-- A validator votes on a job. -/
def sampleVote (count : Nat) (validator verdict : String) : Operation :=
  .submitValidation (sampleJob count) (ascii validator) (ascii verdict) 1

/-- One job passes although a validator first said otherwise, and another one fails. -/
def assessed : List Operation :=
  [sampleSubmission, sampleSubmission] ++ sampleWork 0 ++ sampleWork 1 ++
    [sampleVote 0 "u" "pass", sampleVote 0 "v" "fail", sampleVote 1 "u" "fail",
      sampleVote 0 "v" "pass", sampleVote 1 "v" "fail"]

/-- The status of a job, and the worker of its result. -/
def standing (operations : List Operation) (count : Nat) : Option (Bytes × Option Bytes) :=
  ((reached samplePrimitives operations).jobs.lookup (sampleJob count)).map (fun job =>
    (job.status, ((reached samplePrimitives operations).results.lookup (sampleJob count)).map
      JobResult.workerAddr))

set_option maxRecDepth 100000 in
theorem assessed_evaluated : standing assessed 0 = some (ascii "validated", some (ascii "w")) ∧
    standing assessed 1 = some (ascii "rejected", some (ascii "w")) := by
  decide +kernel

/-- The verdicts of both jobs stay, and the result of the first is that of its worker. -/
theorem assessed_stays :
    Stays samplePrimitives (Passing samplePrimitives) (Failing samplePrimitives) assessed (sampleJob 0) ∧
      Stays samplePrimitives (Failing samplePrimitives) (Passing samplePrimitives) assessed
        (sampleJob 1) ∧
      ∃ job result, (reached samplePrimitives assessed).jobs.lookup (sampleJob 0) = some job ∧
        (reached samplePrimitives assessed).results.lookup (sampleJob 0) = some result ∧
        result.workerAddr = job.assignedWorker ∧ job.outputRef = result.outputRef ∧
          job.resultHash = result.resultHash := by
  obtain ⟨passed, failed⟩ := assessed_evaluated
  obtain ⟨job, found, reading⟩ := Option.map_eq_some_iff.mp passed
  obtain ⟨job', found', reading'⟩ := Option.map_eq_some_iff.mp failed
  obtain ⟨status, worker⟩ := Prod.mk.inj reading
  obtain ⟨result, held, -⟩ := Option.map_eq_some_iff.mp worker
  obtain ⟨valid, -, delivered⟩ := job_verdicts samplePrimitives assessed (sampleJob 0) job found
  obtain ⟨-, invalid, -⟩ := job_verdicts samplePrimitives assessed (sampleJob 1) job' found'
  exact ⟨valid.mp status, invalid.mp (Prod.mk.inj reading').1, job, result, found, held,
    delivered result held⟩

/-! ### Verdicts on results -/

/-- Validators speak of a job only when its result is there, and no result comes in once one of them
has spoken. The engine asks for neither. -/
def Orderly (engine : ComputeEngine) : Operation → Prop
  | .submitValidation id _ _ _ => (engine.results.lookup id).isSome = true
  | .submitResult id _ _ _ _ => (engine.validationsOf id).keys = []
  | _ => True

instance (engine : ComputeEngine) : ∀ operation, Decidable (Orderly engine operation)
  | .submitValidation id _ _ _ => inferInstanceAs (Decidable ((engine.results.lookup id).isSome = true))
  | .submitResult id _ _ _ _ => inferInstanceAs (Decidable ((engine.validationsOf id).keys = []))
  | .submitJob .. => inferInstanceAs (Decidable True)
  | .assignJob .. => inferInstanceAs (Decidable True)

/-- The call that delivers a result. -/
def delivery (id : Bytes) (result : JobResult) : Operation :=
  .submitResult id result.workerAddr result.outputRef result.resultHash result.proofRef

/-- A result came in before any verdict on its job. -/
def DeliveredFirst (P : Primitives) (operations : List Operation) (id : Bytes) (result : JobResult) : Prop :=
  ∃ front back, operations = front ++ delivery id result :: back ∧
    GoesThrough P front (delivery id result) ∧ ∀ validator, lastVerdict P front id validator = none

/-- The validators were of a mind at some time after a result came in, all their verdicts on the job
followed the result, and nothing changed the verdict since. -/
def DecidedOn (P : Primitives) (mind other : List Operation → Bytes → Prop) (operations : List Operation)
    (id : Bytes) (result : JobResult) : Prop :=
  ∃ front back vote later, operations = front ++ delivery id result :: (back ++ vote :: later) ∧
    GoesThrough P front (delivery id result) ∧ (∀ validator, lastVerdict P front id validator = none) ∧
    mind (front ++ delivery id result :: (back ++ [vote])) id ∧
    ∀ middle next, middle ++ [next] <+: later →
      ¬ (Votes P other id (front ++ delivery id result :: (back ++ vote :: middle)) next ∨
        Delivers P id (front ++ delivery id result :: (back ++ vote :: middle)) next)

/-- What a validator said stays said, or is replaced. -/
theorem lastVerdict_kept
    (spoken : lastVerdict P front id validator ≠ none) (later : List Operation) :
    lastVerdict P (front ++ later) id validator ≠ none := by
  induction later using List.reverseRecOn with
  | nil => simpa using spoken
  | append_singleton middle operation ih =>
    rw [← List.append_assoc, lastVerdict_snoc]
    cases operation with
    | submitValidation id' validator' verdict score =>
      dsimp only
      split
      · simp
      · exact ih
    | submitJob requester jobType inputRef profile latency budget reputation => exact ih
    | assignJob id' worker collateral => exact ih
    | submitResult id' worker outputRef resultHash proofRef => exact ih

/-- A call records no result for a job, or the one that it delivers. -/
theorem results_snoc (front : List Operation) (operation : Operation) (id : Bytes) :
    (reached P (front ++ [operation])).results.lookup id = (reached P front).results.lookup id ∨
      ∃ result, operation = delivery id result ∧ GoesThrough P front operation ∧
        (reached P (front ++ [operation])).results.lookup id = some result := by
  rw [reached_snoc, step]
  cases operation with
  | submitJob requester jobType inputRef profile latency budget reputation =>
    obtain ⟨message, same⟩ | ⟨text, job, -, -, -, same⟩ := submitJob_cases (P := P) (reached P front)
      requester jobType inputRef profile latency budget reputation
    · exact .inl (by rw [perform, same])
    · exact .inl (by rw [perform, same]; rfl)
  | assignJob id' worker collateral =>
    obtain ⟨message, same⟩ | ⟨job, assignment, -, -, -, same⟩ :=
      assignJob_cases (reached P front) id' worker collateral
    · exact .inl (by rw [perform, same])
    · exact .inl (by rw [perform, same]; rfl)
  | submitValidation id' validator verdict score =>
    obtain ⟨message, same⟩ | ⟨job, validations, -, -, -, same⟩ :=
      submitValidation_cases (reached P front) id' validator verdict score
    · exact .inl (by rw [perform, same])
    · exact .inl (by rw [perform, same]; rfl)
  | submitResult id' worker outputRef resultHash proofRef =>
    obtain ⟨message, same⟩ | ⟨job, assignment, result, -, -, -, isResult, same⟩ :=
      submitResult_cases (reached P front) id' worker outputRef resultHash proofRef
    · exact .inl (by rw [perform, same])
    · have through : GoesThrough P front (.submitResult id' worker outputRef resultHash proofRef) := by
        rw [GoesThrough, perform, same]
        rfl
      have recorded : (step P (reached P front)
          (.submitResult id' worker outputRef resultHash proofRef)).results.lookup id =
            if id = id' then some result else (reached P front).results.lookup id := by
        rw [step, perform, same]
        exact lookup_insert _ _ _ _
      by_cases own : id = id'
      · rw [if_pos own] at recorded
        subst own isResult
        exact .inr ⟨_, rfl, through, recorded⟩
      · rw [if_neg own] at recorded
        exact .inl recorded

/-- A job with a result keeps one. -/
theorem result_kept
    (held : ((reached P front).results.lookup id).isSome = true) (later : List Operation) :
    ((reached P (front ++ later)).results.lookup id).isSome = true := by
  induction later using List.reverseRecOn with
  | nil => simpa using held
  | append_singleton middle operation ih =>
    rw [← List.append_assoc]
    rcases results_snoc (P := P) (front ++ middle) operation id with same | ⟨result, -, -, recorded⟩
    · rw [same]
      exact ih
    · rw [recorded]
      rfl

/-- In an orderly run every recorded result came in before any verdict on its job. -/
theorem delivered_first (operations : List Operation)
    (orderly : EachStep (step P) Orderly .initial operations) (id : Bytes) (result : JobResult)
    (held : (reached P operations).results.lookup id = some result) :
    DeliveredFirst P operations id result := by
  induction operations using List.reverseRecOn generalizing result with
  | nil => simp [ComputeEngine.initial] at held
  | append_singleton front operation ih =>
    rcases results_snoc (P := P) front operation id with same | ⟨recorded, isDelivery, through, now⟩
    · obtain ⟨first, back, split, through, silent⟩ :=
        ih orderly.front result (same.symm.trans held)
      exact ⟨first, back ++ [operation], by rw [split]; simp, through, silent⟩
    · obtain rfl := Option.some.inj (held.symm.trans now)
      subst isDelivery
      refine ⟨front, [], rfl, through, fun validator => ?_⟩
      have silent : ((reached P front).validationsOf id).keys = [] := orderly.before
      have none : ((reached P front).validationsOf id).lookup validator = none :=
        AList.lookup_eq_none.mpr (by simp [AList.mem_keys, silent])
      rw [← (reached_tracked P front).said id validator, none]
      rfl

/-- The result of a decided job was there when it was decided. -/
theorem Stays.result (stays : Stays P mind other operations id)
    (orderly : EachStep (step P) Orderly .initial operations) :
    ∃ result, (reached P operations).results.lookup id = some result := by
  obtain ⟨moment, vote, later, rfl, votes, -⟩ := stays
  have asked : Orderly (reached P moment) vote := orderly.before
  cases vote with
  | submitValidation id' validator verdict score =>
    obtain ⟨rfl, -⟩ := votes
    exact Option.isSome_iff_exists.mp (result_kept asked _)
  | submitJob requester jobType inputRef profile latency budget reputation => exact votes.elim
  | assignJob id' worker collateral => exact votes.elim
  | submitResult id' worker outputRef resultHash proofRef => exact votes.elim

/-- A decision on a job whose result came in before any verdict is a decision on that result. -/
theorem Stays.decidedOn {result : JobResult} (stays : Stays P mind other operations id)
    (first : DeliveredFirst P operations id result) : DecidedOn P mind other operations id result := by
  obtain ⟨moment, vote, later, same, votes, undisturbed⟩ := stays
  obtain ⟨front, rest, split, through, silent⟩ := first
  obtain ⟨id', validator, verdict, score, rfl⟩ : ∃ id' validator verdict score,
      vote = .submitValidation id' validator verdict score := by
    cases vote with
    | submitValidation id' validator verdict score => exact ⟨_, _, _, _, rfl⟩
    | submitJob requester jobType inputRef profile latency budget reputation => exact votes.elim
    | assignJob id' worker collateral => exact votes.elim
    | submitResult id' worker outputRef resultHash proofRef => exact votes.elim
  obtain ⟨rfl, accepted, minded⟩ := votes
  rw [split] at same
  rcases List.append_eq_append_iff.mp same with ⟨between, rfl, back⟩ | ⟨between, rfl, back⟩
  · cases between with
    | nil => simp [delivery] at back
    | cons next between =>
      obtain ⟨rfl, rfl⟩ := List.cons.inj back
      refine ⟨front, between, _, later, split, through, silent, ?_, ?_⟩
      · simpa using minded
      · intro middle next cut
        simpa using undisturbed middle next cut
  · -- the vote would have been heard before the result
    cases between with
    | nil => simp [delivery] at back
    | cons next between =>
      obtain ⟨rfl, -⟩ := List.cons.inj back
      have heard : lastVerdict P (moment ++ [.submitValidation id' validator verdict score]) id' validator ≠
          none := by
        rw [lastVerdict_snoc]
        dsimp only
        rw [if_pos ⟨rfl, rfl, accepted⟩]
        exact Option.some_ne_none verdict
      refine absurd (silent validator) ?_
      have whole := lastVerdict_kept heard between
      simpa using whole

/-- In an orderly run every verdict on a job is about its recorded result: the worker it is assigned to
delivered the result, then at some time two validators and a majority of them said that it passes, or
two and at least half of them that it fails, all of them after the result came in, and nothing changed
the verdict since. -/
theorem verdicts_on_results (P : Primitives) (operations : List Operation)
    (orderly : EachStep (step P) Orderly .initial operations) (id : Bytes) (job : Job)
    (found : (reached P operations).jobs.lookup id = some job)
    (decided : job.status = ascii "validated" ∨ job.status = ascii "rejected") :
    ∃ result, (reached P operations).results.lookup id = some result ∧
      result.workerAddr = job.assignedWorker ∧
      (job.status = ascii "validated" → DecidedOn P (Passing P) (Failing P) operations id result) ∧
      (job.status = ascii "rejected" → DecidedOn P (Failing P) (Passing P) operations id result) := by
  obtain ⟨validated, rejected⟩ := (reached_tracked P operations).verdicts id job found
  obtain ⟨result, held⟩ : ∃ result, (reached P operations).results.lookup id = some result := by
    rcases decided with passed | failed
    · exact (validated.mp passed).result orderly
    · exact (rejected.mp failed).result orderly
  have first := delivered_first operations orderly id result held
  obtain ⟨-, -, assignment, assigned, worker⟩ :=
    (reached_tracked P operations).delivered id job result found held
  have own := ((reached_tracked P operations).owned id job assignment found assigned).1
  exact ⟨result, held, worker.symm.trans own, fun passed => (validated.mp passed).decidedOn first,
    fun failed => (rejected.mp failed).decidedOn first⟩

/-- The two jobs above are decided on their results: one is passed, and the other one is failed. -/
theorem assessed_on_results :
    (∃ result, (reached samplePrimitives assessed).results.lookup (sampleJob 0) = some result ∧
      DecidedOn samplePrimitives (Passing samplePrimitives) (Failing samplePrimitives) assessed
        (sampleJob 0) result) ∧
    ∃ result, (reached samplePrimitives assessed).results.lookup (sampleJob 1) = some result ∧
      DecidedOn samplePrimitives (Failing samplePrimitives) (Passing samplePrimitives) assessed
        (sampleJob 1) result := by
  obtain ⟨passed, failed⟩ := assessed_evaluated
  have orderly : EachStep (step samplePrimitives) Orderly .initial assessed := by decide +kernel
  constructor
  · obtain ⟨job, found, reading⟩ := Option.map_eq_some_iff.mp passed
    have status := (Prod.mk.inj reading).1
    obtain ⟨result, held, -, decided, -⟩ :=
      verdicts_on_results samplePrimitives assessed orderly (sampleJob 0) job found (.inl status)
    exact ⟨result, held, decided status⟩
  · obtain ⟨job, found, reading⟩ := Option.map_eq_some_iff.mp failed
    have status := (Prod.mk.inj reading).1
    obtain ⟨result, held, -, -, decided⟩ :=
      verdicts_on_results samplePrimitives assessed orderly (sampleJob 1) job found (.inr status)
    exact ⟨result, held, decided status⟩

/-- Two validators pass a job before anybody works on it; one of them changes its mind after a job
was validated; and two of four reject a job. -/
def votedEarly : List Operation :=
  [sampleSubmission, sampleVote 0 "u" "pass", sampleVote 0 "v" "pass"]

/-- A validator takes back its vote before the second one comes. -/
def changedMind : List Operation :=
  [sampleSubmission] ++ sampleWork 0 ++
    [sampleVote 0 "u" "pass", sampleVote 0 "v" "pass", sampleVote 0 "v" "fail"]

/-- One vote passes and one fails. -/
def drawnVote : List Operation :=
  [sampleSubmission] ++ sampleWork 0 ++
    [sampleVote 0 "u" "pass", sampleVote 0 "v" "fail", sampleVote 0 "x" "pass", sampleVote 0 "y" "fail"]

/-- How many validators last said this of the job. -/
def saying (operations : List Operation) (verdict : String) : Nat :=
  count ((reached samplePrimitives operations).validationsOf (sampleJob 0)) (ascii verdict)

set_option maxRecDepth 100000 in
/-- A job is validated without a result, and with as many fails as passes; and one is rejected with as
many passes as fails. -/
theorem verdicts_beside_results :
    standing votedEarly 0 = some (ascii "validated", none) ∧
    (standing changedMind 0 = some (ascii "validated", some (ascii "w")) ∧
      saying changedMind "pass" = 1 ∧ saying changedMind "fail" = 1) ∧
    standing drawnVote 0 = some (ascii "rejected", some (ascii "w")) ∧
      saying drawnVote "pass" = 2 ∧ saying drawnVote "fail" = 2 := by
  decide +kernel

end Compute

end Addition
