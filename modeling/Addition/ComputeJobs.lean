import Addition.Foundations.Checked
import Addition.Foundations.FiniteTables
import Addition.Foundations.Runs
import Addition.Primitives

/-!
# Compute jobs

A job is submitted, assigned to one worker, and gets a result from that worker, which the worker may
replace. Validators say that it passes or fails, at any time and as often as they like; the last word
of each counts. Two and a majority of those validate the job, two and at least half reject it.

The scores are added in the order of the table. The source adds them in an order that nothing fixes,
which matters only where a sum is past 64 bits and a score is left out.
-/

namespace Addition

namespace Compute

open ByteStrings Checked FiniteTables Runs

/-- `ComputeJob`. -/
structure Job where
  jobId : Bytes
  requesterAddr : Bytes
  jobType : Bytes
  inputRef : Bytes
  determinismProfile : Bytes
  maxLatencySec : UInt64
  rewardBudget : UInt64
  minReputation : UInt64
  status : Bytes
  assignedWorker : Bytes
  outputRef : Bytes
  resultHash : Bytes
  validationScore : UInt64

/-- `ComputeAssignment`. -/
structure Assignment where
  workerAddr : Bytes
  collateralLocked : UInt64
  assignedAt : UInt64

/-- `ComputeResult`. -/
structure JobResult where
  workerAddr : Bytes
  outputRef : Bytes
  resultHash : Bytes
  proofRef : Bytes

/-- `ComputeValidation`. -/
structure Validation where
  validatorAddr : Bytes
  verdict : Bytes
  score : UInt64

/-- The jobs with their assignments, results and validations. -/
structure ComputeEngine where
  jobs : Table Bytes Job
  assignments : Table Bytes Assignment
  results : Table Bytes JobResult
  validations : Table Bytes (Table Bytes Validation)

/-- The engine without jobs. -/
def ComputeEngine.initial : ComputeEngine := ⟨∅, ∅, ∅, ∅⟩

variable (P : Primitives)

/-- A job is replaced. -/
def ComputeEngine.putJob (engine : ComputeEngine) (job : Job) (id : Bytes) : ComputeEngine :=
  { engine with jobs := engine.jobs.insert id job }

/-! ### Jobs and results -/

/-- What is hashed to the name of a job. -/
def jobSeed (requester jobType inputRef : Bytes) (count : Nat) : Bytes :=
  ascii "compute_job|" ++ requester ++ byte '|' :: jobType ++ byte '|' :: inputRef ++
    byte '|' :: decimal count

/-- `submit_job`. -/
def submitJob (engine : ComputeEngine) (requester jobType inputRef profile : Bytes)
    (maxLatencySec rewardBudget minReputation : UInt64) : Except String Bytes × ComputeEngine :=
  if requester.isEmpty ∨ jobType.isEmpty ∨ inputRef.isEmpty then
    (.error "invalid compute job params", engine)
  else if maxLatencySec = 0 ∨ rewardBudget = 0 then
    (.error "max_latency_sec and reward_budget must be > 0", engine)
  else
    let id := strongHash P (jobSeed requester jobType inputRef engine.jobs.keys.length)
    if (engine.jobs.lookup id).isSome then (.error "duplicate job id", engine)
    else
      (.ok id, engine.putJob ⟨id, requester, jobType, inputRef,
        if profile.isEmpty then ascii "strict" else profile, maxLatencySec, rewardBudget,
        minReputation, ascii "open", [], [], [], 0⟩ id)

/-- `assign_job`. -/
def assignJob (engine : ComputeEngine) (id worker : Bytes) (collateral : UInt64) :
    Except String Bytes × ComputeEngine :=
  match engine.jobs.lookup id with
  | none => (.error "job not found", engine)
  | some job =>
    if worker.isEmpty ∨ collateral = 0 then (.error "invalid assignment params", engine)
    else if job.status ≠ ascii "open" then (.error "job not open", engine)
    else
      let assignment : Assignment :=
        ⟨worker, collateral, UInt64.ofNat (engine.assignments.keys.length + 1)⟩
      let assigned := { engine with assignments := engine.assignments.insert id assignment }
      (.ok [], assigned.putJob { job with assignedWorker := worker, status := ascii "assigned" } id)

/-- `submit_result`. -/
def submitResult (engine : ComputeEngine) (id worker outputRef resultHash proofRef : Bytes) :
    Except String Bytes × ComputeEngine :=
  match engine.jobs.lookup id with
  | none => (.error "job not found", engine)
  | some job =>
    match engine.assignments.lookup id with
    | none => (.error "job not assigned", engine)
    | some assignment =>
      if assignment.workerAddr ≠ worker then (.error "worker mismatch", engine)
      else if outputRef.isEmpty ∨ resultHash.isEmpty then (.error "invalid result params", engine)
      else
        let delivered := { engine with
          results := engine.results.insert id ⟨worker, outputRef, resultHash, proofRef⟩ }
        (.ok [], delivered.putJob { job with
          outputRef := outputRef, resultHash := resultHash, status := ascii "result_submitted" } id)

/-! ### Validations -/

/-- The validations of a job. -/
def ComputeEngine.validationsOf (engine : ComputeEngine) (id : Bytes) : Table Bytes Validation :=
  (engine.validations.lookup id).getD ∅

/-- How many validators say this. -/
def count (validations : Table Bytes Validation) (verdict : Bytes) : Nat :=
  validations.entries.countP (fun entry => decide (entry.2.verdict = verdict))

/-- The sum of the scores that fit. -/
def scoreSum (validations : Table Bytes Validation) : UInt64 :=
  validations.entries.foldl
    (fun sum entry => if sum ≤ wordMax - entry.2.score then sum + entry.2.score else sum) 0

/-- The status of a job after its validators have been counted. -/
def decided (validations : Table Bytes Validation) (status : Bytes) : Bytes :=
  let passCount := count validations (ascii "pass")
  let failCount := count validations (ascii "fail")
  if 2 ≤ passCount ∧ failCount < passCount then ascii "validated"
  else if 2 ≤ failCount ∧ passCount ≤ failCount then ascii "rejected"
  else status

/-- `submit_validation`. -/
def submitValidation (engine : ComputeEngine) (id validator verdict : Bytes) (score : UInt64) :
    Except String Bytes × ComputeEngine :=
  match engine.jobs.lookup id with
  | none => (.error "job not found", engine)
  | some job =>
    if validator.isEmpty ∨ verdict.isEmpty then (.error "invalid validation params", engine)
    else if verdict ≠ ascii "pass" ∧ verdict ≠ ascii "fail" then
      (.error "verdict must be pass|fail", engine)
    else
      let validations := (engine.validationsOf id).insert validator ⟨validator, verdict, score⟩
      let counted := { engine with validations := engine.validations.insert id validations }
      (.ok [], counted.putJob { job with
        status := decided validations job.status, validationScore := scoreSum validations } id)

/-! ### Runs -/

/-- The operations of the engine. -/
inductive Operation
  | submitJob (requester jobType inputRef profile : Bytes)
      (maxLatencySec rewardBudget minReputation : UInt64)
  | assignJob (id worker : Bytes) (collateral : UInt64)
  | submitResult (id worker outputRef resultHash proofRef : Bytes)
  | submitValidation (id validator verdict : Bytes) (score : UInt64)

/-- The outcome of an operation, and the engine after it. -/
def perform (engine : ComputeEngine) : Operation → Except String Bytes × ComputeEngine
  | .submitJob requester jobType inputRef profile latency budget reputation =>
    submitJob P engine requester jobType inputRef profile latency budget reputation
  | .assignJob id worker collateral => assignJob engine id worker collateral
  | .submitResult id worker outputRef resultHash proofRef =>
    submitResult engine id worker outputRef resultHash proofRef
  | .submitValidation id validator verdict score => submitValidation engine id validator verdict score

/-- The engine after an operation. -/
def step (engine : ComputeEngine) (operation : Operation) : ComputeEngine :=
  (perform P engine operation).2

/-- The engine after a list of operations, from the empty one. -/
def reached (operations : List Operation) : ComputeEngine := operations.foldl (step P) .initial

end Compute

end Addition
