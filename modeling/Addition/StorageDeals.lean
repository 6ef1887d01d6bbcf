import Addition.Foundations.Checked
import Addition.Foundations.FiniteTables
import Addition.Foundations.HexNumbers
import Addition.Primitives

/-!
# Storage deals

A client makes a deal about some chunks, workers commit to it, and a worker that has committed is
challenged to prove that it holds a chunk. The first proof of that worker settles the challenge: it
passes when it is a text of 64 hexadecimal digits of which the first is as even or odd as the seed of
the challenge.
-/

namespace Addition

namespace Storage

open ByteStrings Checked FiniteTables HexNumbers

/-- `StorageDeal`. -/
structure Deal where
  dealId : Bytes
  clientAddr : Bytes
  contentRoot : Bytes
  chunkCount : UInt64
  replicationFactor : UInt64
  startHeight : UInt64
  endHeight : UInt64
  pricePerEpoch : UInt64
  status : Bytes

/-- `StorageCommitment`. -/
structure Commitment where
  workerAddr : Bytes
  sealedCommitment : Bytes
  collateral : UInt64
  proofsPass : UInt64
  proofsFail : UInt64

/-- `StorageChallenge`. -/
structure Challenge where
  challengeId : Bytes
  dealId : Bytes
  workerAddr : Bytes
  randomSeed : UInt64
  chunkIndex : UInt64
  dueHeight : UInt64
  verdict : Bytes

/-- The deals with their commitments and challenges. -/
structure StorageEngine where
  deals : Table Bytes Deal
  commitmentsByDeal : Table Bytes (List Commitment)
  challenges : Table Bytes Challenge

/-- The engine without deals. -/
def StorageEngine.initial : StorageEngine := ⟨∅, ∅, ∅⟩

variable (P : Primitives)

/-! ### Deals and commitments -/

/-- What is hashed to the name of a deal. -/
def dealSeed (client root : Bytes) (chunks first last : UInt64) (count : Nat) : Bytes :=
  ascii "storage_deal|" ++ client ++ byte '|' :: root ++ byte '|' :: decimal chunks.toNat ++
    byte '|' :: decimal first.toNat ++ byte '|' :: decimal last.toNat ++ byte '|' :: decimal count

/-- A deal is replaced. -/
def StorageEngine.putDeal (engine : StorageEngine) (id : Bytes) (deal : Deal) : StorageEngine :=
  { engine with deals := engine.deals.insert id deal }

/-- The commitments of a deal are replaced. -/
def StorageEngine.putCommitments (engine : StorageEngine) (id : Bytes) (commitments : List Commitment) :
    StorageEngine :=
  { engine with commitmentsByDeal := engine.commitmentsByDeal.insert id commitments }

/-- A challenge is replaced. -/
def StorageEngine.putChallenge (engine : StorageEngine) (id : Bytes) (challenge : Challenge) :
    StorageEngine :=
  { engine with challenges := engine.challenges.insert id challenge }

/-- The commitments to a deal. -/
def StorageEngine.commitmentsTo (engine : StorageEngine) (id : Bytes) : List Commitment :=
  (engine.commitmentsByDeal.lookup id).getD []

/-- `create_deal`. -/
def createDeal (engine : StorageEngine) (client root : Bytes)
    (chunks replication first last price : UInt64) : Except String Bytes × StorageEngine :=
  if client.isEmpty ∨ root.isEmpty ∨ chunks = 0 ∨ replication = 0 then
    (.error "invalid storage deal params", engine)
  else if last ≤ first then (.error "end_height must be > start_height", engine)
  else
    let id := strongHash P (dealSeed client root chunks first last engine.deals.keys.length)
    if (engine.deals.lookup id).isSome then (.error "duplicate storage deal id", engine)
    else
      (.ok id, engine.putDeal id
        ⟨id, client, root, chunks, replication, first, last, price, ascii "active"⟩)

/-- `register_commitment`. -/
def registerCommitment (engine : StorageEngine) (id worker sealedCommitment : Bytes)
    (collateral : UInt64) : Except String Bytes × StorageEngine :=
  if (engine.deals.lookup id).isNone then (.error "deal not found", engine)
  else if worker.isEmpty ∨ sealedCommitment.isEmpty ∨ collateral = 0 then
    (.error "invalid commitment params", engine)
  else if (engine.commitmentsTo id).any (fun commitment => decide (commitment.workerAddr = worker)) then
    (.error "worker already committed", engine)
  else
    (.ok [], engine.putCommitments id
      (engine.commitmentsTo id ++ [⟨worker, sealedCommitment, collateral, 0, 0⟩]))

/-! ### Challenges -/

/-- What is hashed to the seed of a challenge. -/
def challengeSeed (id worker : Bytes) (height : UInt64) (count : Nat) : Bytes :=
  ascii "storage_challenge|" ++ id ++ byte '|' :: worker ++ byte '|' :: decimal height.toNat ++
    byte '|' :: decimal count

/-- `issue_challenge`. -/
def issueChallenge (engine : StorageEngine) (id worker : Bytes) (height : UInt64) :
    Except String Bytes × StorageEngine :=
  match engine.deals.lookup id with
  | none => (.error "deal not found", engine)
  | some deal =>
    if (engine.commitmentsTo id).any (fun commitment => decide (commitment.workerAddr = worker)) then
      let seedHex := strongHash P (challengeSeed id worker height engine.challenges.keys.length)
      -- sixteen hexadecimal digits are always a number
      let randomSeed := (stoullHex (seedHex.take 16)).getD 0
      let chunkIndex := if 0 < deal.chunkCount then randomSeed % deal.chunkCount else 0
      let challengeId := strongHash P (ascii "storage_challenge_id|" ++ seedHex)
      if (engine.challenges.lookup challengeId).isSome then (.error "duplicate challenge id", engine)
      else
        (.ok challengeId, engine.putChallenge challengeId
          ⟨challengeId, id, worker, randomSeed, chunkIndex, height + 64, ascii "pending"⟩)
    else (.error "worker not committed for deal", engine)

/-! ### Proofs -/

/-- `is_canonical_hash_hex`. -/
def isCanonicalHashHex (text : Bytes) : Bool := decide (text.length = 64) && text.all isHex

/-- The rule by which a proof passes. -/
def passes (seed : UInt64) (proof : Bytes) : Bool :=
  isCanonicalHashHex proof &&
    decide (nibble (proof.headD 0) % 2 = seed.toNat % 2)

/-- The text of a verdict. -/
def verdictOf (pass : Bool) : Bytes := if pass then ascii "pass" else ascii "fail"

/-- A verdict is counted. -/
def Commitment.credit (commitment : Commitment) (pass : Bool) : Commitment :=
  if pass then { commitment with proofsPass := commitment.proofsPass + 1 }
  else { commitment with proofsFail := commitment.proofsFail + 1 }

/-- The loop that counts a proof: the first commitment of the worker gets it. -/
def countProof (worker : Bytes) (pass : Bool) : List Commitment → List Commitment
  | [] => []
  | commitment :: rest =>
    if commitment.workerAddr = worker then commitment.credit pass :: rest
    else commitment :: countProof worker pass rest

/-- Count a proof of a worker for a deal. -/
def StorageEngine.count (engine : StorageEngine) (id worker : Bytes) (pass : Bool) : StorageEngine :=
  match engine.commitmentsByDeal.lookup id with
  | none => engine
  | some commitments => engine.putCommitments id (countProof worker pass commitments)

/-- `submit_proof`. -/
def submitProof (engine : StorageEngine) (id worker proof : Bytes) :
    Except String Bytes × StorageEngine :=
  match engine.challenges.lookup id with
  | none => (.error "challenge not found", engine)
  | some challenge =>
    if challenge.workerAddr ≠ worker then (.error "worker mismatch", engine)
    else if challenge.verdict ≠ ascii "pending" then (.error "challenge already finalized", engine)
    else if proof.isEmpty then (.error "proof hash empty", engine)
    else
      let pass := passes challenge.randomSeed proof
      let settled := engine.putChallenge id { challenge with verdict := verdictOf pass }
      (.ok (verdictOf pass), settled.count challenge.dealId worker pass)

/-! ### What is reported -/

/-- How many challenges of a deal have this verdict. -/
def StorageEngine.verdicts (engine : StorageEngine) (id verdict : Bytes) : Nat :=
  measure (fun _ challenge => if challenge.dealId = id ∧ challenge.verdict = verdict then 1 else 0)
    engine.challenges

/-- `deal_status`. -/
def dealStatus (engine : StorageEngine) (id : Bytes) : Except String Bytes :=
  match engine.deals.lookup id with
  | none => .error "deal not found"
  | some deal =>
    .ok (ascii "deal_id=" ++ deal.dealId ++ ascii " status=" ++ deal.status ++
      ascii " chunk_count=" ++ decimal deal.chunkCount.toNat ++
      ascii " replication_factor=" ++ decimal deal.replicationFactor.toNat ++
      ascii " commitments=" ++ decimal (engine.commitmentsTo id).length ++
      ascii " challenges_pending=" ++ decimal (engine.verdicts id (ascii "pending")) ++
      ascii " challenges_pass=" ++ decimal (engine.verdicts id (ascii "pass")) ++
      ascii " challenges_fail=" ++ decimal (engine.verdicts id (ascii "fail")) ++
      ascii " check=first_nibble_parity")

/-- Add what does not overflow. -/
def addFitting (total amount : UInt64) : UInt64 := if total ≤ wordMax - amount then total + amount else total

/-- What the commitments of a worker add up to. -/
structure WorkerTotals where
  deals : Nat
  collateral : UInt64
  proofsPass : UInt64
  proofsFail : UInt64

/-- A commitment is added to the totals of its worker. -/
def WorkerTotals.add (totals : WorkerTotals) (commitment : Commitment) : WorkerTotals where
  deals := totals.deals + 1
  collateral := addFitting totals.collateral commitment.collateral
  proofsPass := addFitting totals.proofsPass commitment.proofsPass
  proofsFail := addFitting totals.proofsFail commitment.proofsFail

/-- The loops of `worker_status`, over the commitments in the order of some enumeration. -/
def workerTotals (worker : Bytes) (order : List (Bytes × List Commitment)) : WorkerTotals :=
  (order.flatMap Prod.snd).foldl
    (fun totals commitment =>
      if commitment.workerAddr = worker then totals.add commitment else totals) ⟨0, 0, 0, 0⟩

/-- `worker_status`. -/
def workerStatus (worker : Bytes) (order : List (Bytes × List Commitment)) : Except String Bytes :=
  if worker.isEmpty then .error "worker empty"
  else
    let totals := workerTotals worker order
    .ok (ascii "worker=" ++ worker ++ ascii " deals=" ++ decimal totals.deals ++
      ascii " collateral_total=" ++ decimal totals.collateral.toNat ++
      ascii " proofs_pass=" ++ decimal totals.proofsPass.toNat ++
      ascii " proofs_fail=" ++ decimal totals.proofsFail.toNat)

/-! ### Runs -/

/-- The operations of the engine. -/
inductive Operation
  | createDeal (client root : Bytes) (chunks replication first last price : UInt64)
  | registerCommitment (id worker sealedCommitment : Bytes) (collateral : UInt64)
  | issueChallenge (id worker : Bytes) (height : UInt64)
  | submitProof (id worker proof : Bytes)

/-- The outcome of an operation, and the engine after it. -/
def perform (engine : StorageEngine) : Operation → Except String Bytes × StorageEngine
  | .createDeal client root chunks replication first last price =>
    createDeal P engine client root chunks replication first last price
  | .registerCommitment id worker sealedCommitment collateral =>
    registerCommitment engine id worker sealedCommitment collateral
  | .issueChallenge id worker height => issueChallenge P engine id worker height
  | .submitProof id worker proof => submitProof engine id worker proof

/-- The engine after an operation. -/
def step (engine : StorageEngine) (operation : Operation) : StorageEngine :=
  (perform P engine operation).2

/-- The engine after a list of operations, from the empty one. -/
def reached (operations : List Operation) : StorageEngine := operations.foldl (step P) .initial

end Storage

end Addition
