import Addition.ComputeRuns
import Addition.EngineLines

/-!
# The state file of the compute engine

Jobs, assignments, results and validations are written as lines with a tag of their own. A state that a
run reaches comes back exactly when none of the texts that requesters, workers and validators give has
a bar or the end of a line; only the last text of a result may have bars.
-/

namespace Addition

namespace Compute

open ByteStrings Checked FiniteTables Runs TextLines Store

/-! ### Writing -/

/-- The line of a job. -/
def jobLine (job : Job) : Bytes :=
  tagLine 'J' [job.jobId, job.requesterAddr, job.jobType, job.inputRef, job.determinismProfile,
    number job.maxLatencySec, number job.rewardBudget, number job.minReputation, job.status,
    job.assignedWorker, job.outputRef, job.resultHash, number job.validationScore]

/-- The line of an assignment. -/
def assignmentLine (id : Bytes) (assignment : Assignment) : Bytes :=
  tagLine 'A' [id, assignment.workerAddr, number assignment.collateralLocked, number assignment.assignedAt]

/-- The line of a result. -/
def resultLine (id : Bytes) (result : JobResult) : Bytes :=
  tagLine 'R' [id, result.workerAddr, result.outputRef, result.resultHash, result.proofRef]

/-- The line of a validation. -/
def validationLine (id : Bytes) (validation : Validation) : Bytes :=
  tagLine 'V' [id, validation.validatorAddr, validation.verdict, number validation.score]

/-- The containers, and the validations of each job, in the order in which they are enumerated. -/
structure Enumeration where
  jobs : List (Bytes × Job)
  assignments : List (Bytes × Assignment)
  results : List (Bytes × JobResult)
  validations : List (Bytes × Table Bytes Validation)
  voters : Bytes → List (Bytes × Validation)

/-- An enumeration has what the engine has. -/
structure Enumerates (order : Enumeration) (engine : ComputeEngine) : Prop where
  jobs : Lists order.jobs engine.jobs
  assignments : Lists order.assignments engine.assignments
  results : Lists order.results engine.results
  validations : Lists order.validations engine.validations
  voters : ∀ id, Lists (order.voters id) (engine.validationsOf id)

/-- The lines of an engine in the order of its containers. -/
def stateLines (order : Enumeration) : List Bytes :=
  order.jobs.map (fun entry => jobLine entry.2) ++
    (order.assignments.map (fun entry => assignmentLine entry.1 entry.2) ++
      (order.results.map (fun entry => resultLine entry.1 entry.2) ++
        order.validations.flatMap (fun entry =>
          (order.voters entry.1).map (fun voter => validationLine entry.1 voter.2))))

/-- `dump_state`, in some order of the containers. -/
def dumpState (order : Enumeration) : Bytes := (stateLines order).flatMap line

/-! ### Reading -/

/-- The assignment of a job is replaced. -/
def ComputeEngine.putAssignment (engine : ComputeEngine) (id : Bytes) (assignment : Assignment) :
    ComputeEngine :=
  { engine with assignments := engine.assignments.insert id assignment }

/-- The result of a job is replaced. -/
def ComputeEngine.putResult (engine : ComputeEngine) (id : Bytes) (result : JobResult) : ComputeEngine :=
  { engine with results := engine.results.insert id result }

/-- A validation is put behind those of its job. -/
def ComputeEngine.putValidation (engine : ComputeEngine) (id : Bytes) (validation : Validation) :
    ComputeEngine :=
  { engine with
    validations := engine.validations.insert id
      ((engine.validationsOf id).insert validation.validatorAddr validation) }

/-- A status that is not on the line would stay the one of a new job, but then its score is not there
either. -/
def loadJob (engine : ComputeEngine) (content : Bytes) : Except String ComputeEngine :=
  match readFields 12 (some content) with
  | [id, requester, jobType, inputRef, profile, maxLatencySec, rewardBudget, minReputation, status,
      worker, outputRef, resultHash, validationScore] => do
    let latency ← readNumber maxLatencySec
    let budget ← readNumber rewardBudget
    let reputation ← readNumber minReputation
    let score ← readNumber validationScore
    pure (engine.putJob ⟨id, requester, jobType, inputRef, profile, latency, budget, reputation, status,
      worker, outputRef, resultHash, score⟩ id)
  | _ => .ok engine -- never: there are as many fields as were asked for

/-- A line `A` is read. -/
def loadAssignment (engine : ComputeEngine) (content : Bytes) : Except String ComputeEngine :=
  match readFields 3 (some content) with
  | [id, worker, collateralLocked, assignedAt] => do
    let collateral ← readNumber collateralLocked
    let place ← readNumber assignedAt
    pure (engine.putAssignment id ⟨worker, collateral, place⟩)
  | _ => .ok engine

/-- A line `R` is read. -/
def loadResult (engine : ComputeEngine) (content : Bytes) : Except String ComputeEngine :=
  match readFields 4 (some content) with
  | [id, worker, outputRef, resultHash, proofRef] =>
    .ok (engine.putResult id ⟨worker, outputRef, resultHash, proofRef⟩)
  | _ => .ok engine

/-- A line `V` is read. -/
def loadValidation (engine : ComputeEngine) (content : Bytes) : Except String ComputeEngine :=
  match readFields 3 (some content) with
  | [id, validator, verdict, score] => do
    let points ← readNumber score
    pure (engine.putValidation id ⟨validator, verdict, points⟩)
  | _ => .ok engine

/-- What a line does, by its tag. -/
def loadTagged (engine : ComputeEngine) (tag : UInt8) (content : Bytes) : Except String ComputeEngine :=
  if tag = byte 'J' then loadJob engine content
  else if tag = byte 'A' then loadAssignment engine content
  else if tag = byte 'R' then loadResult engine content
  else if tag = byte 'V' then loadValidation engine content
  else .ok engine

/-- `load_state`. -/
def loadState (state : Bytes) : Except String ComputeEngine :=
  readLines (readTagged loadTagged) .initial (splitLines state)

/-! ### The same state -/

/-- Engines that have the same entries. No validations are the same as none yet. -/
structure Same (engine loaded : ComputeEngine) : Prop where
  jobs : ∀ id, loaded.jobs.lookup id = engine.jobs.lookup id
  assignments : ∀ id, loaded.assignments.lookup id = engine.assignments.lookup id
  results : ∀ id, loaded.results.lookup id = engine.results.lookup id
  validations : ∀ id validator,
    (loaded.validationsOf id).lookup validator = (engine.validationsOf id).lookup validator

/-- In whatever order it is written, the state comes back. -/
def RoundTrips (engine : ComputeEngine) : Prop :=
  ∀ order, Enumerates order engine → ∃ loaded, loadState (dumpState order) = .ok loaded ∧
    Same engine loaded

/-- The texts of a job that are given from outside. -/
structure PlainJob (job : Job) : Prop where
  requester : PlainField job.requesterAddr
  jobType : PlainField job.jobType
  inputRef : PlainField job.inputRef
  profile : PlainField job.determinismProfile
  worker : PlainField job.assignedWorker
  outputRef : PlainField job.outputRef
  resultHash : PlainField job.resultHash

/-- The texts of a result hold no separators. -/
structure PlainResult (result : JobResult) : Prop where
  worker : PlainField result.workerAddr
  outputRef : PlainField result.outputRef
  resultHash : PlainField result.resultHash
  proofRef : newline ∉ result.proofRef

/-- The texts that were given do not contain what delimits them. -/
structure PlainEngine (engine : ComputeEngine) : Prop where
  jobs : ∀ id job, engine.jobs.lookup id = some job → PlainJob job
  assignments : ∀ id assignment, engine.assignments.lookup id = some assignment →
    PlainField assignment.workerAddr
  results : ∀ id result, engine.results.lookup id = some result → PlainResult result
  validations : ∀ id validator validation,
    (engine.validationsOf id).lookup validator = some validation → PlainField validation.validatorAddr

/-! ### One line -/

theorem validationsOf_putValidation (engine : ComputeEngine) (id tested : Bytes)
    (validation : Validation) :
    (engine.putValidation id validation).validationsOf tested =
      if tested = id then (engine.validationsOf id).insert validation.validatorAddr validation
      else engine.validationsOf tested := by
  change ((engine.validations.insert id _).lookup tested).getD ∅ = _
  rw [lookup_insert]
  split <;> rfl

theorem load_job (engine : ComputeEngine) (job : Job) (id : PlainField job.jobId)
    (status : PlainField job.status) (plain : PlainJob job) :
    readTagged loadTagged engine (jobLine job) = .ok (engine.putJob job job.jobId) := by
  have clean : CleanFields [job.jobId, job.requesterAddr, job.jobType, job.inputRef,
      job.determinismProfile, number job.maxLatencySec, number job.rewardBudget,
      number job.minReputation, job.status, job.assignedWorker, job.outputRef, job.resultHash]
      (number job.validationScore) := by
    obtain ⟨requester, jobType, inputRef, profile, worker, outputRef, resultHash⟩ := plain
    refine ⟨?_, (plain_number _).newline⟩
    simpa [plain_number] using
      ⟨id, requester, jobType, inputRef, profile, status, worker, outputRef, resultHash⟩
  have read : readFields 12 (some (fields [job.jobId, job.requesterAddr, job.jobType, job.inputRef,
      job.determinismProfile, number job.maxLatencySec, number job.rewardBudget,
      number job.minReputation, job.status, job.assignedWorker, job.outputRef, job.resultHash,
      number job.validationScore])) = _ := clean.readFields
  rw [jobLine, readTagged_tagLine, loadTagged, if_pos rfl, loadJob, read]
  simp only [List.cons_append, List.nil_append, readNumber_number]
  rfl

variable {id : Bytes} {engine : ComputeEngine} {order : Enumeration}

theorem load_assignment (engine : ComputeEngine) (assignment : Assignment)
    (named : PlainField id) (worker : PlainField assignment.workerAddr) :
    readTagged loadTagged engine (assignmentLine id assignment) =
      .ok (engine.putAssignment id assignment) := by
  have clean : CleanFields [id, assignment.workerAddr, number assignment.collateralLocked]
      (number assignment.assignedAt) :=
    ⟨by simpa [plain_number] using ⟨named, worker⟩, (plain_number _).newline⟩
  have read : readFields 3 (some (fields [id, assignment.workerAddr,
      number assignment.collateralLocked, number assignment.assignedAt])) = _ := clean.readFields
  rw [assignmentLine, readTagged_tagLine, loadTagged, if_neg (by decide), if_pos rfl, loadAssignment, read]
  simp only [List.cons_append, List.nil_append, readNumber_number]
  rfl

theorem load_result (engine : ComputeEngine) (result : JobResult) (named : PlainField id)
    (plain : PlainResult result) :
    readTagged loadTagged engine (resultLine id result) = .ok (engine.putResult id result) := by
  have clean : CleanFields [id, result.workerAddr, result.outputRef, result.resultHash] result.proofRef :=
    ⟨by simpa using ⟨named, plain.worker, plain.outputRef, plain.resultHash⟩, plain.proofRef⟩
  have read : readFields 4 (some (fields [id, result.workerAddr, result.outputRef, result.resultHash,
      result.proofRef])) = _ := clean.readFields
  rw [resultLine, readTagged_tagLine, loadTagged, if_neg (by decide), if_neg (by decide), if_pos rfl,
    loadResult, read]
  rfl

theorem load_validation (engine : ComputeEngine) (validation : Validation)
    (named : PlainField id) (validator : PlainField validation.validatorAddr)
    (verdict : PlainField validation.verdict) :
    readTagged loadTagged engine (validationLine id validation) =
      .ok (engine.putValidation id validation) := by
  have clean : CleanFields [id, validation.validatorAddr, validation.verdict] (number validation.score) :=
    ⟨by simpa using ⟨named, validator, verdict⟩, (plain_number _).newline⟩
  have read : readFields 3 (some (fields [id, validation.validatorAddr, validation.verdict,
      number validation.score])) = _ := clean.readFields
  rw [validationLine, readTagged_tagLine, loadTagged, if_neg (by decide), if_neg (by decide),
    if_neg (by decide), if_pos rfl, loadValidation, read]
  simp only [List.cons_append, List.nil_append, readNumber_number]
  rfl

/-- What is loaded does not contain what delimits it. -/
theorem loadTagged_plain (engine left : ComputeEngine) (tag : UInt8) (content : Bytes)
    (whole : newline ∉ content) (plain : PlainEngine engine)
    (loaded : loadTagged engine tag content = .ok left) : PlainEngine left := by
  unfold loadTagged at loaded
  split at loaded
  · unfold loadJob at loaded
    split at loaded
    · rename_i id requester jobType inputRef profile _ _ _ status worker outputRef resultHash _ read
      have clean := readFields_split
        [id, requester, jobType, inputRef, profile, _, _, _, status, worker, outputRef, resultHash]
        (avoids_whole whole) read
      simp only [bind_ok, pure_ok] at loaded
      obtain ⟨_, -, _, -, _, -, _, -, rfl⟩ := loaded
      refine { plain with jobs := fun tested job found => ?_ }
      rw [lookup_putJob] at found
      split at found
      · exact Option.some.inj found ▸ {
          requester := clean.front requester (by simp)
          jobType := clean.front jobType (by simp)
          inputRef := clean.front inputRef (by simp)
          profile := clean.front profile (by simp)
          worker := clean.front worker (by simp)
          outputRef := clean.front outputRef (by simp)
          resultHash := clean.front resultHash (by simp) }
      · exact plain.jobs tested job found
    · exact Except.ok.inj loaded ▸ plain
  split at loaded
  · unfold loadAssignment at loaded
    split at loaded
    · rename_i id worker _ _ read
      have clean := readFields_split [id, worker, _] (avoids_whole whole) read
      simp only [bind_ok, pure_ok] at loaded
      obtain ⟨_, -, _, -, rfl⟩ := loaded
      refine { plain with assignments := fun tested assignment found => ?_ }
      rw [show (engine.putAssignment id _).assignments.lookup tested = _ from
        lookup_insert engine.assignments id tested _] at found
      split at found
      · exact Option.some.inj found ▸ clean.front worker (by simp)
      · exact plain.assignments tested assignment found
    · exact Except.ok.inj loaded ▸ plain
  split at loaded
  · unfold loadResult at loaded
    split at loaded
    · rename_i id worker outputRef resultHash proofRef read
      have clean := readFields_split [id, worker, outputRef, resultHash] (avoids_whole whole) read
      obtain rfl := Except.ok.inj loaded
      refine { plain with results := fun tested result found => ?_ }
      rw [show (engine.putResult id _).results.lookup tested = _ from
        lookup_insert engine.results id tested _] at found
      split at found
      · exact Option.some.inj found ▸ ⟨clean.front worker (by simp), clean.front outputRef (by simp),
          clean.front resultHash (by simp), clean.last⟩
      · exact plain.results tested result found
    · exact Except.ok.inj loaded ▸ plain
  split at loaded
  · unfold loadValidation at loaded
    split at loaded
    · rename_i id validator verdict _ read
      have clean := readFields_split [id, validator, verdict] (avoids_whole whole) read
      simp only [bind_ok, pure_ok] at loaded
      obtain ⟨_, -, rfl⟩ := loaded
      refine { plain with validations := fun tested voter validation found => ?_ }
      rw [validationsOf_putValidation] at found
      split at found
      · rw [lookup_insert] at found
        split at found
        · exact Option.some.inj found ▸ clean.front validator (by simp)
        · exact plain.validations id voter validation found
      · exact plain.validations tested voter validation found
    · exact Except.ok.inj loaded ▸ plain
  · exact Except.ok.inj loaded ▸ plain

theorem loadState_plain {state : Bytes} {loaded : ComputeEngine} (read : loadState state = .ok loaded) :
    PlainEngine loaded := by
  refine readLines_keeps (readTagged loadTagged) PlainEngine (splitLines state) ?_ .initial loaded ?_ read
  · intro engine left text member plain done
    exact readTagged_keeps loadTagged_plain (splitLines_absent state text member) plain done
  · exact {
      jobs := fun id job found => by simp [ComputeEngine.initial] at found
      assignments := fun id assignment found => by simp [ComputeEngine.initial] at found
      results := fun id result found => by simp [ComputeEngine.initial] at found
      validations := fun id validator validation found => by
        simp [ComputeEngine.initial, ComputeEngine.validationsOf] at found }

/-! ### What is read of a reachable state -/

variable {P : Primitives}

/-- The entries of an engine are under their own names, and those of jobs are digests. -/
structure Named (engine : ComputeEngine) : Prop where
  jobs : ∀ id job, engine.jobs.lookup id = some job →
    job.jobId = id ∧ PlainField id ∧ PlainField job.status
  validations : ∀ id validator validation,
    (engine.validationsOf id).lookup validator = some validation →
      validation.validatorAddr = validator ∧ PlainField validation.verdict ∧
        (engine.jobs.lookup id).isSome

theorem Named.putJob (named : Named engine) {job : Job}
    (own : job.jobId = id) (name : PlainField id) (status : PlainField job.status) :
    Named (engine.putJob job id) := by
  refine ⟨fun tested job' found => ?_, fun tested validator validation found => ?_⟩
  · rw [lookup_putJob] at found
    split at found
    · rename_i this
      exact Option.some.inj found ▸ ⟨own.trans this.symm, this ▸ name, status⟩
    · exact named.jobs tested job' found
  · obtain ⟨same, verdict, known⟩ := named.validations tested validator validation found
    refine ⟨same, verdict, ?_⟩
    rw [lookup_putJob]
    split
    · rfl
    · exact known

theorem decided_plain {validations : Table Bytes Validation} {status : Bytes} (plain : PlainField status) :
    PlainField (decided validations status) := by
  unfold decided
  dsimp only
  split
  · exact ⟨by decide, by decide⟩
  split
  · exact ⟨by decide, by decide⟩
  · exact plain

/-- The jobs lie under their own names after every operation. -/
theorem Named.perform (named : Named engine) (operation : Operation) :
    Named (step P engine operation) := by
  rw [step]
  cases operation with
  | submitJob requester jobType inputRef profile latency budget reputation =>
    rw [Compute.perform]
    obtain ⟨message, same⟩ | ⟨text, job, -, own, status, same⟩ := submitJob_cases (P := P) engine
      requester jobType inputRef profile latency budget reputation
    · rw [same]
      exact named
    · rw [same]
      exact named.putJob own (Privacy.strongHash_plain P text) (status ▸ ⟨by decide, by decide⟩)
  | assignJob id worker collateral =>
    rw [Compute.perform]
    obtain ⟨message, same⟩ | ⟨job, assignment, found, -, -, same⟩ := assignJob_cases engine id worker collateral
    · rw [same]
      exact named
    · obtain ⟨own, name, -⟩ := named.jobs id job found
      have assigned : PlainField (ascii "assigned") := ⟨by decide, by decide⟩
      rw [same]
      have kept : Named { engine with assignments := engine.assignments.insert id assignment } :=
        ⟨named.jobs, named.validations⟩
      exact @Named.putJob id _ kept { job with assignedWorker := worker, status := ascii "assigned" } own name
        assigned
  | submitResult id worker outputRef resultHash proofRef =>
    rw [Compute.perform]
    obtain ⟨message, same⟩ | ⟨job, assignment, result, found, -, -, -, same⟩ :=
      submitResult_cases engine id worker outputRef resultHash proofRef
    · rw [same]
      exact named
    · obtain ⟨own, name, -⟩ := named.jobs id job found
      have submitted : PlainField (ascii "result_submitted") := ⟨by decide, by decide⟩
      rw [same]
      have kept : Named { engine with results := engine.results.insert id result } :=
        ⟨named.jobs, named.validations⟩
      exact @Named.putJob id _ kept { job with
        outputRef := outputRef, resultHash := resultHash, status := ascii "result_submitted" } own name
        submitted
  | submitValidation id validator verdict score =>
    rw [Compute.perform]
    obtain ⟨message, same⟩ | ⟨job, validations, found, known, isInserted, same⟩ :=
      submitValidation_cases engine id validator verdict score
    · rw [same]
      exact named
    · obtain ⟨own, name, status⟩ := named.jobs id job found
      have plain : PlainField verdict := by
        rcases known with rfl | rfl
        · exact ⟨by decide, by decide⟩
        · exact ⟨by decide, by decide⟩
      have counted : Named { engine with validations := engine.validations.insert id validations } := by
        refine ⟨named.jobs, fun tested voter validation there => ?_⟩
        change (((engine.validations.insert id validations).lookup tested).getD ∅).lookup voter = _ at there
        rw [lookup_insert] at there
        split at there
        · rename_i this
          rw [Option.getD_some, isInserted, lookup_insert] at there
          split at there
          · rename_i same
            exact Option.some.inj there ▸ ⟨same.symm, plain, by rw [this, found]; rfl⟩
          · exact this ▸ named.validations id voter validation there
        · exact named.validations tested voter validation there
      rw [same]
      exact counted.putJob own name (decided_plain status)

theorem reached_namedPlain (P : Primitives) (operations : List Operation) :
    Named (reached P operations) := by
  induction operations using List.reverseRecOn with
  | nil =>
    exact ⟨fun id job found => by simp [ComputeEngine.initial] at found,
      fun id validator validation found => by
        simp [ComputeEngine.initial, ComputeEngine.validationsOf] at found⟩
  | append_singleton front operation named => exact reached_snoc front operation ▸ named.perform operation

/-! ### The whole file -/

theorem foldl_putJob (entries : List (Bytes × Job)) (engine : ComputeEngine)
    (own : ∀ entry ∈ entries, entry.2.jobId = entry.1) :
    entries.foldl (fun engine entry => engine.putJob entry.2 entry.2.jobId) engine =
      { engine with jobs := putAll engine.jobs entries } := by
  induction entries generalizing engine with
  | nil => rfl
  | cons entry rest ih =>
    rw [List.foldl_cons, ih _ (fun other member => own other (by simp [member])),
      own entry (by simp)]
    rfl

theorem foldl_putAssignment (entries : List (Bytes × Assignment)) (engine : ComputeEngine) :
    entries.foldl (fun engine entry => engine.putAssignment entry.1 entry.2) engine =
      { engine with assignments := putAll engine.assignments entries } := by
  induction entries generalizing engine with
  | nil => rfl
  | cons entry rest ih => exact ih _

theorem foldl_putResult (entries : List (Bytes × JobResult)) (engine : ComputeEngine) :
    entries.foldl (fun engine entry => engine.putResult entry.1 entry.2) engine =
      { engine with results := putAll engine.results entries } := by
  induction entries generalizing engine with
  | nil => rfl
  | cons entry rest ih => exact ih _

/-- Put validations of a job into an engine. -/
def ComputeEngine.validateAll (engine : ComputeEngine) (id : Bytes) (voters : List (Bytes × Validation)) :
    ComputeEngine :=
  voters.foldl (fun engine voter => engine.putValidation id voter.2) engine

/-- Validations change nothing else. -/
structure Beside (engine left : ComputeEngine) : Prop where
  jobs : left.jobs = engine.jobs
  assignments : left.assignments = engine.assignments
  results : left.results = engine.results

theorem beside_validateAll (engine : ComputeEngine) (id : Bytes) (voters : List (Bytes × Validation)) :
    Beside engine (engine.validateAll id voters) := by
  unfold ComputeEngine.validateAll
  induction voters generalizing engine with
  | nil => exact ⟨rfl, rfl, rfl⟩
  | cons voter rest ih =>
    obtain ⟨jobs, assignments, results⟩ := ih (engine.putValidation id voter.2)
    exact ⟨jobs, assignments, results⟩

theorem validationsOf_validateAll (engine : ComputeEngine) (id tested : Bytes)
    (voters : List (Bytes × Validation)) (own : ∀ voter ∈ voters, voter.2.validatorAddr = voter.1) :
    (engine.validateAll id voters).validationsOf tested =
      if tested = id then putAll (engine.validationsOf id) voters else engine.validationsOf tested := by
  unfold ComputeEngine.validateAll
  induction voters generalizing engine with
  | nil =>
    split
    · rename_i same
      rw [same]
      rfl
    · rfl
  | cons voter rest ih =>
    rw [List.foldl_cons, ih _ (fun other member => own other (by simp [member])),
      validationsOf_putValidation, validationsOf_putValidation, if_pos rfl, own voter (by simp)]
    split
    · rfl
    · rfl

/-- A listing of validations that is read into an engine. -/
theorem foldl_validateAll (voters : Bytes → List (Bytes × Validation)) (ids : List Bytes)
    (engine : ComputeEngine) (distinct : ids.Nodup)
    (own : ∀ id, ∀ voter ∈ voters id, voter.2.validatorAddr = voter.1) (tested : Bytes) :
    Beside engine (ids.foldl (fun engine id => engine.validateAll id (voters id)) engine) ∧
      (ids.foldl (fun engine id => engine.validateAll id (voters id)) engine).validationsOf tested =
        if tested ∈ ids then putAll (engine.validationsOf tested) (voters tested)
        else engine.validationsOf tested := by
  induction ids generalizing engine with
  | nil => exact ⟨⟨rfl, rfl, rfl⟩, rfl⟩
  | cons id rest ih =>
    obtain ⟨absent, others⟩ := List.nodup_cons.mp distinct
    obtain ⟨⟨jobs, assignments, results⟩, read⟩ :=
      ih (engine.validateAll id (voters id)) others
    obtain ⟨jobs', assignments', results'⟩ := beside_validateAll engine id (voters id)
    refine ⟨⟨jobs.trans jobs', assignments.trans assignments', results.trans results'⟩, ?_⟩
    rw [List.foldl_cons, read, validationsOf_validateAll _ _ _ _ (own id)]
    by_cases same : tested = id
    · subst same
      simp [absent]
    · simp [same]

/-- An enumeration whose lines can be read back. -/
structure PlainOrder (order : Enumeration) : Prop where
  jobs : ∀ entry ∈ order.jobs, entry.2.jobId = entry.1 ∧ PlainField entry.2.jobId ∧
    PlainField entry.2.status ∧ PlainJob entry.2
  assignments : ∀ entry ∈ order.assignments, PlainField entry.1 ∧ PlainField entry.2.workerAddr
  results : ∀ entry ∈ order.results, PlainField entry.1 ∧ PlainResult entry.2
  voters : ∀ id, ∀ voter ∈ order.voters id, voter.2.validatorAddr = voter.1 ∧ PlainField id ∧
    PlainField voter.2.validatorAddr ∧ PlainField voter.2.verdict

/-- Every text of a reachable state is a digest, a number, a status, a verdict, or was given. -/
theorem Enumerates.plainOrder {operations : List Operation}
    (lists : Enumerates order (reached P operations)) (plain : PlainEngine (reached P operations)) :
    PlainOrder order := by
  have named := reached_namedPlain P operations
  have tracked := reached_tracked P operations
  have jobName : ∀ id, (reached P operations).jobs.lookup id ≠ none → PlainField id := by
    intro id known
    obtain ⟨job, found⟩ := Option.ne_none_iff_exists'.mp known
    exact (named.jobs id job found).2.1
  constructor
  · intro entry member
    have found := (lists.jobs.entries entry.1 entry.2).mp member
    obtain ⟨own, name, status⟩ := named.jobs _ _ found
    exact ⟨own, own.symm ▸ name, status, plain.jobs _ _ found⟩
  · intro entry member
    have found := (lists.assignments.entries entry.1 entry.2).mp member
    refine ⟨jobName _ fun missing => ?_, plain.assignments _ _ found⟩
    exact nomatch (tracked.fresh entry.1 missing).1.symm.trans found
  · intro entry member
    have found := (lists.results.entries entry.1 entry.2).mp member
    refine ⟨jobName _ fun missing => ?_, plain.results _ _ found⟩
    exact nomatch (tracked.fresh entry.1 missing).2.1.symm.trans found
  · intro id voter member
    have found := ((lists.voters id).entries voter.1 voter.2).mp member
    obtain ⟨own, verdict, known⟩ := named.validations _ _ _ found
    exact ⟨own, jobName _ (Option.isSome_iff_ne_none.mp known), plain.validations _ _ _ found, verdict⟩

theorem PlainOrder.whole (plain : PlainOrder order) :
    ∀ text ∈ stateLines order, newline ∉ text := by
  intro text member
  rcases List.mem_append.mp member with isJob | member
  · obtain ⟨entry, inside, rfl⟩ := List.mem_map.mp isJob
    obtain ⟨-, name, status, requester, jobType, inputRef, profile, worker, outputRef, resultHash⟩ :=
      plain.jobs entry inside
    exact CleanFields.whole [_, _, _, _, _, _, _, _, _, _, _, _]
      ⟨by simpa [plain_number] using
        ⟨name, requester, jobType, inputRef, profile, status, worker, outputRef, resultHash⟩,
        (plain_number _).newline⟩ 'J' (by decide)
  rcases List.mem_append.mp member with isAssignment | member
  · obtain ⟨entry, inside, rfl⟩ := List.mem_map.mp isAssignment
    exact CleanFields.whole [_, _, _]
      ⟨by simpa [plain_number] using plain.assignments entry inside, (plain_number _).newline⟩ 'A'
      (by decide)
  rcases List.mem_append.mp member with isResult | isValidation
  · obtain ⟨entry, inside, rfl⟩ := List.mem_map.mp isResult
    obtain ⟨name, worker, outputRef, resultHash, proofRef⟩ := plain.results entry inside
    exact CleanFields.whole [_, _, _, _]
      ⟨by simpa using ⟨name, worker, outputRef, resultHash⟩, proofRef⟩ 'R' (by decide)
  · obtain ⟨entry, -, member⟩ := List.mem_flatMap.mp isValidation
    obtain ⟨voter, there, rfl⟩ := List.mem_map.mp member
    obtain ⟨-, name, validator, verdict⟩ := plain.voters entry.1 voter there
    exact CleanFields.whole [_, _, _]
      ⟨by simpa using ⟨name, validator, verdict⟩, (plain_number _).newline⟩ 'V' (by decide)

/-- What the lines of an enumeration put into an engine, kind by kind. -/
def restored (order : Enumeration) : ComputeEngine :=
  let jobs := order.jobs.foldl (fun engine entry => engine.putJob entry.2 entry.2.jobId)
    ComputeEngine.initial
  let assignments := order.assignments.foldl (fun engine entry => engine.putAssignment entry.1 entry.2) jobs
  let results := order.results.foldl (fun engine entry => engine.putResult entry.1 entry.2) assignments
  order.validations.foldl (fun engine entry => engine.validateAll entry.1 (order.voters entry.1)) results

theorem PlainOrder.read (plain : PlainOrder order) :
    loadState (dumpState order) = .ok (restored order) := by
  have jobs : readLines (readTagged loadTagged) .initial
      (order.jobs.map (fun entry => jobLine entry.2)) = _ :=
    readLines_items (readTagged loadTagged) (fun entry : Bytes × Job => jobLine entry.2)
      (fun engine entry => engine.putJob entry.2 entry.2.jobId) order.jobs .initial
      (fun engine entry member => by
        obtain ⟨-, name, status, texts⟩ := plain.jobs entry member
        exact load_job engine entry.2 name status texts)
  have assignments : ∀ engine, readLines (readTagged loadTagged) engine
      (order.assignments.map (fun entry => assignmentLine entry.1 entry.2)) = _ :=
    fun engine => readLines_items (readTagged loadTagged)
      (fun entry : Bytes × Assignment => assignmentLine entry.1 entry.2)
      (fun engine entry => engine.putAssignment entry.1 entry.2) order.assignments engine
      (fun engine entry member => load_assignment engine entry.2 (plain.assignments entry member).1
        (plain.assignments entry member).2)
  have results : ∀ engine, readLines (readTagged loadTagged) engine
      (order.results.map (fun entry => resultLine entry.1 entry.2)) = _ :=
    fun engine => readLines_items (readTagged loadTagged)
      (fun entry : Bytes × JobResult => resultLine entry.1 entry.2)
      (fun engine entry => engine.putResult entry.1 entry.2) order.results engine
      (fun engine entry member => load_result engine entry.2 (plain.results entry member).1
        (plain.results entry member).2)
  have validations : ∀ engine, readLines (readTagged loadTagged) engine
      (order.validations.flatMap (fun entry =>
        (order.voters entry.1).map (fun voter => validationLine entry.1 voter.2))) = _ :=
    fun engine => readLines_groups (readTagged loadTagged)
      (fun entry : Bytes × Table Bytes Validation =>
        (order.voters entry.1).map (fun voter => validationLine entry.1 voter.2))
      (fun engine entry => engine.validateAll entry.1 (order.voters entry.1)) order.validations engine
      (fun engine entry _ => readLines_items (readTagged loadTagged)
        (fun voter : Bytes × Validation => validationLine entry.1 voter.2)
        (fun engine voter => engine.putValidation entry.1 voter.2) (order.voters entry.1) engine
        (fun engine voter inside => by
          obtain ⟨-, name, validator, verdict⟩ := plain.voters entry.1 voter inside
          exact load_validation engine voter.2 name validator verdict))
  refine (congrArg (readLines (readTagged loadTagged) .initial) (splitLines_lines _ plain.whole)).trans ?_
  rw [stateLines, readLines_append, jobs]
  refine (readLines_append _ _ _ _).trans ?_
  rw [assignments]
  refine (readLines_append _ _ _ _).trans ?_
  rw [results]
  exact validations _

/-- What is restored has the entries that were enumerated. -/
theorem PlainOrder.same (plain : PlainOrder order)
    (lists : Enumerates order engine) : Same engine (restored order) := by
  unfold restored
  dsimp only
  rw [foldl_putResult, foldl_putAssignment,
    foldl_putJob _ _ fun entry member => (plain.jobs entry member).1]
  have voted := foldl_validateAll order.voters (order.validations.map Prod.fst)
    { ComputeEngine.initial with
      jobs := putAll ComputeEngine.initial.jobs order.jobs
      assignments := putAll ComputeEngine.initial.assignments order.assignments
      results := putAll ComputeEngine.initial.results order.results }
    lists.validations.distinct (fun id voter member => (plain.voters id voter member).1)
  rw [List.foldl_map] at voted
  refine ⟨fun id => ?_, fun id => ?_, fun id => ?_, fun id validator => ?_⟩
  · rw [(voted id).1.jobs]
    exact lists.jobs.lookup id
  · rw [(voted id).1.assignments]
    exact lists.assignments.lookup id
  · rw [(voted id).1.results]
    exact lists.results.lookup id
  · rw [(voted id).2]
    split
    · exact (lists.voters id).lookup validator
    · rename_i absent
      have none' : engine.validations.lookup id = none := by
        refine Option.eq_none_iff_forall_not_mem.mpr fun table found => absent ?_
        exact List.mem_map.mpr ⟨(id, table), (lists.validations.entries id table).mpr found, rfl⟩
      rw [ComputeEngine.validationsOf, ComputeEngine.validationsOf, none']
      rfl

/-- The state that a run reaches comes back exactly when the texts that were given are plain. -/
theorem compute_state_restored_iff (P : Primitives) (operations : List Operation) :
    RoundTrips (reached P operations) ↔ PlainEngine (reached P operations) := by
  constructor
  · intro returns
    obtain ⟨loaded, read, same⟩ := returns ⟨_, _, _, _, fun id => _⟩ ⟨lists_entries _, lists_entries _,
      lists_entries _, lists_entries _, fun id => lists_entries _⟩
    have plain := loadState_plain read
    exact {
      jobs := fun id job found => plain.jobs id job ((same.jobs id).trans found)
      assignments := fun id assignment found =>
        plain.assignments id assignment ((same.assignments id).trans found)
      results := fun id result found => plain.results id result ((same.results id).trans found)
      validations := fun id validator validation found =>
        plain.validations id validator validation ((same.validations id validator).trans found) }
  · intro plain order lists
    have readable := lists.plainOrder plain
    exact ⟨_, readable.read, readable.same lists⟩

end Compute

end Addition
