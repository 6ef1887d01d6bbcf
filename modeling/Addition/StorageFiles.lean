import Addition.EngineLines
import Addition.StorageRuns

/-!
# The state file of the storage engine

Deals, commitments and challenges are written as lines with a tag of their own. A state that a run
reaches comes back exactly when none of the texts that clients and workers give has a bar or the end of
a line.
-/

namespace Addition

namespace Storage

open ByteStrings Checked FiniteTables TextLines Store

/-! ### Writing -/

/-- The line of a deal. -/
def dealLine (deal : Deal) : Bytes :=
  tagLine 'D' [deal.dealId, deal.clientAddr, deal.contentRoot, number deal.chunkCount,
    number deal.replicationFactor, number deal.startHeight, number deal.endHeight,
    number deal.pricePerEpoch, deal.status]

/-- The line of a commitment. -/
def commitmentLine (id : Bytes) (commitment : Commitment) : Bytes :=
  tagLine 'C' [id, commitment.workerAddr, commitment.sealedCommitment, number commitment.collateral,
    number commitment.proofsPass, number commitment.proofsFail]

/-- The line of a challenge. -/
def challengeLine (challenge : Challenge) : Bytes :=
  tagLine 'H' [challenge.challengeId, challenge.dealId, challenge.workerAddr,
    number challenge.randomSeed, number challenge.chunkIndex, number challenge.dueHeight,
    challenge.verdict]

/-- The containers in the order in which they are enumerated. -/
structure Enumeration where
  deals : List (Bytes × Deal)
  commitments : List (Bytes × List Commitment)
  challenges : List (Bytes × Challenge)

/-- An enumeration has what the engine has. -/
structure Enumerates (order : Enumeration) (engine : StorageEngine) : Prop where
  deals : Lists order.deals engine.deals
  commitments : Lists order.commitments engine.commitmentsByDeal
  challenges : Lists order.challenges engine.challenges

/-- The lines of an engine in the order of its containers. -/
def stateLines (order : Enumeration) : List Bytes :=
  order.deals.map (fun entry => dealLine entry.2) ++
    (order.commitments.flatMap (fun entry => entry.2.map (commitmentLine entry.1)) ++
      order.challenges.map (fun entry => challengeLine entry.2))

/-- `dump_state`, in some order of the containers. -/
def dumpState (order : Enumeration) : Bytes := (stateLines order).flatMap line

/-! ### Reading -/

/-- A line `D` is read. -/
def loadDeal (engine : StorageEngine) (content : Bytes) : Except String StorageEngine :=
  match readFields 8 (some content) with
  | [id, client, root, chunkCount, replicationFactor, startHeight, endHeight, pricePerEpoch, status] => do
    let chunks ← readNumber chunkCount
    let replication ← readNumber replicationFactor
    let first ← readNumber startHeight
    let last ← readNumber endHeight
    let price ← readNumber pricePerEpoch
    pure (engine.putDeal id ⟨id, client, root, chunks, replication, first, last, price,
      lastOr 8 (some content) (ascii "active") status⟩)
  | _ => .ok engine -- never: there are as many fields as were asked for

/-- A line `C` is read. -/
def loadCommitment (engine : StorageEngine) (content : Bytes) : Except String StorageEngine :=
  match readFields 5 (some content) with
  | [id, worker, sealedCommitment, collateral, pass, fail] => do
    let locked ← readNumber collateral
    let passed ← readNumber pass
    let failed ← readNumber fail
    pure (engine.putCommitments id
      (engine.commitmentsTo id ++ [⟨worker, sealedCommitment, locked, passed, failed⟩]))
  | _ => .ok engine

/-- A line `H` is read. -/
def loadChallenge (engine : StorageEngine) (content : Bytes) : Except String StorageEngine :=
  match readFields 6 (some content) with
  | [id, deal, worker, randomSeed, chunkIndex, dueHeight, verdict] => do
    let seed ← readNumber randomSeed
    let chunk ← readNumber chunkIndex
    let due ← readNumber dueHeight
    pure (engine.putChallenge id ⟨id, deal, worker, seed, chunk, due,
      lastOr 6 (some content) (ascii "pending") verdict⟩)
  | _ => .ok engine

/-- What a line does, by its tag. -/
def loadTagged (engine : StorageEngine) (tag : UInt8) (content : Bytes) : Except String StorageEngine :=
  if tag = byte 'D' then loadDeal engine content
  else if tag = byte 'C' then loadCommitment engine content
  else if tag = byte 'H' then loadChallenge engine content
  else .ok engine

/-- `load_state`. -/
def loadState (state : Bytes) : Except String StorageEngine :=
  readLines (readTagged loadTagged) .initial (splitLines state)

/-! ### The same state -/

/-- Engines that have the same entries. -/
structure Same (engine loaded : StorageEngine) : Prop where
  deals : ∀ id, loaded.deals.lookup id = engine.deals.lookup id
  commitments : ∀ id, loaded.commitmentsByDeal.lookup id = engine.commitmentsByDeal.lookup id
  challenges : ∀ id, loaded.challenges.lookup id = engine.challenges.lookup id

/-- In whatever order it is written, the state comes back. -/
def RoundTrips (engine : StorageEngine) : Prop :=
  ∀ order, Enumerates order engine → ∃ loaded, loadState (dumpState order) = .ok loaded ∧
    Same engine loaded

/-- The texts that clients and workers gave do not contain what delimits them. -/
structure PlainEngine (engine : StorageEngine) : Prop where
  deals : ∀ id deal, engine.deals.lookup id = some deal →
    PlainField deal.clientAddr ∧ PlainField deal.contentRoot
  commitments : ∀ id, ∀ commitment ∈ engine.commitmentsTo id,
    PlainField commitment.workerAddr ∧ PlainField commitment.sealedCommitment

/-! ### One line -/

theorem load_deal (engine : StorageEngine) (deal : Deal) (id : PlainField deal.dealId)
    (client : PlainField deal.clientAddr) (root : PlainField deal.contentRoot)
    (status : newline ∉ deal.status) :
    readTagged loadTagged engine (dealLine deal) = .ok (engine.putDeal deal.dealId deal) := by
  have clean : CleanFields [deal.dealId, deal.clientAddr, deal.contentRoot, number deal.chunkCount,
      number deal.replicationFactor, number deal.startHeight, number deal.endHeight,
      number deal.pricePerEpoch] deal.status :=
    ⟨by simpa [plain_number] using ⟨id, client, root⟩, status⟩
  have read : readFields 8 (some (fields [deal.dealId, deal.clientAddr, deal.contentRoot,
      number deal.chunkCount, number deal.replicationFactor, number deal.startHeight,
      number deal.endHeight, number deal.pricePerEpoch, deal.status])) = _ := clean.readFields
  have last := clean.lastOr (ascii "active")
  rw [dealLine, readTagged_tagLine, loadTagged, if_pos rfl, loadDeal, read]
  simp only [List.cons_append, List.nil_append, readNumber_number]
  exact congrArg (fun status => Except.ok (engine.putDeal deal.dealId { deal with status := status })) last

theorem load_commitment (engine : StorageEngine) {id : Bytes} (commitment : Commitment)
    (named : PlainField id) (worker : PlainField commitment.workerAddr)
    (sealedCommitment : PlainField commitment.sealedCommitment) :
    readTagged loadTagged engine (commitmentLine id commitment) =
      .ok (engine.putCommitments id (engine.commitmentsTo id ++ [commitment])) := by
  have clean : CleanFields [id, commitment.workerAddr, commitment.sealedCommitment,
      number commitment.collateral, number commitment.proofsPass] (number commitment.proofsFail) :=
    ⟨by simpa [plain_number] using ⟨named, worker, sealedCommitment⟩, (plain_number _).newline⟩
  have read : readFields 5 (some (fields [id, commitment.workerAddr, commitment.sealedCommitment,
      number commitment.collateral, number commitment.proofsPass, number commitment.proofsFail])) = _ :=
    clean.readFields
  rw [commitmentLine, readTagged_tagLine, loadTagged, if_neg (by decide), if_pos rfl, loadCommitment, read]
  simp only [List.cons_append, List.nil_append, readNumber_number]
  rfl

theorem load_challenge (engine : StorageEngine) (challenge : Challenge)
    (id : PlainField challenge.challengeId) (deal : PlainField challenge.dealId)
    (worker : PlainField challenge.workerAddr) (verdict : newline ∉ challenge.verdict) :
    readTagged loadTagged engine (challengeLine challenge) =
      .ok (engine.putChallenge challenge.challengeId challenge) := by
  have clean : CleanFields [challenge.challengeId, challenge.dealId, challenge.workerAddr,
      number challenge.randomSeed, number challenge.chunkIndex, number challenge.dueHeight]
      challenge.verdict :=
    ⟨by simpa [plain_number] using ⟨id, deal, worker⟩, verdict⟩
  have read : readFields 6 (some (fields [challenge.challengeId, challenge.dealId, challenge.workerAddr,
      number challenge.randomSeed, number challenge.chunkIndex, number challenge.dueHeight,
      challenge.verdict])) = _ := clean.readFields
  have last := clean.lastOr (ascii "pending")
  rw [challengeLine, readTagged_tagLine, loadTagged, if_neg (by decide), if_neg (by decide), if_pos rfl,
    loadChallenge, read]
  simp only [List.cons_append, List.nil_append, readNumber_number]
  exact congrArg (fun verdict =>
    Except.ok (engine.putChallenge challenge.challengeId { challenge with verdict := verdict })) last

/-- What is loaded does not contain what delimits it. -/
theorem loadTagged_plain (engine left : StorageEngine) (tag : UInt8) (content : Bytes)
    (whole : newline ∉ content) (plain : PlainEngine engine)
    (loaded : loadTagged engine tag content = .ok left) : PlainEngine left := by
  unfold loadTagged at loaded
  split at loaded
  · unfold loadDeal at loaded
    split at loaded
    · rename_i id client root _ _ _ _ _ status read
      have clean := readFields_split [id, client, root, _, _, _, _, _] (avoids_whole whole) read
      simp only [bind_ok, pure_ok] at loaded
      obtain ⟨_, -, _, -, _, -, _, -, _, -, rfl⟩ := loaded
      refine ⟨fun tested deal found => ?_, plain.commitments⟩
      rw [show (engine.putDeal id _).deals.lookup tested = _ from
        lookup_insert engine.deals id tested _] at found
      split at found
      · exact Option.some.inj found ▸ ⟨clean.front client (by simp), clean.front root (by simp)⟩
      · exact plain.deals tested deal found
    · exact Except.ok.inj loaded ▸ plain
  split at loaded
  · unfold loadCommitment at loaded
    split at loaded
    · rename_i id worker sealedCommitment _ _ _ read
      have clean := readFields_split [id, worker, sealedCommitment, _, _] (avoids_whole whole)
        read
      simp only [bind_ok, pure_ok] at loaded
      obtain ⟨_, -, _, -, _, -, rfl⟩ := loaded
      refine ⟨plain.deals, fun tested commitment member => ?_⟩
      rw [commitmentsTo_putCommitments] at member
      split at member
      · rcases List.mem_append.mp member with old | added
        · exact plain.commitments id commitment old
        · exact List.mem_singleton.mp added ▸
            ⟨clean.front worker (by simp), clean.front sealedCommitment (by simp)⟩
      · exact plain.commitments tested commitment member
    · exact Except.ok.inj loaded ▸ plain
  split at loaded
  · unfold loadChallenge at loaded
    split at loaded
    · simp only [bind_ok, pure_ok] at loaded
      obtain ⟨_, -, _, -, _, -, rfl⟩ := loaded
      exact ⟨plain.deals, plain.commitments⟩
    · exact Except.ok.inj loaded ▸ plain
  · exact Except.ok.inj loaded ▸ plain

theorem loadState_plain {state : Bytes} {loaded : StorageEngine} (read : loadState state = .ok loaded) :
    PlainEngine loaded := by
  refine readLines_keeps (readTagged loadTagged) PlainEngine (splitLines state) ?_ .initial loaded ?_ read
  · intro engine left text member plain done
    exact readTagged_keeps loadTagged_plain (splitLines_absent state text member) plain done
  · exact ⟨fun id deal found => by simp [StorageEngine.initial] at found,
      fun id commitment member => nomatch member⟩

/-! ### The commitments of the file -/

/-- Put the commitments to a deal behind those that are there. -/
def StorageEngine.commitAll (engine : StorageEngine) (entry : Bytes × List Commitment) : StorageEngine :=
  entry.2.foldl (fun engine commitment =>
    engine.putCommitments entry.1 (engine.commitmentsTo entry.1 ++ [commitment])) engine

theorem commitAll_others (engine : StorageEngine) (entry : Bytes × List Commitment) :
    (engine.commitAll entry).deals = engine.deals ∧
      (engine.commitAll entry).challenges = engine.challenges := by
  obtain ⟨id, commitments⟩ := entry
  unfold StorageEngine.commitAll
  induction commitments generalizing engine with
  | nil => exact ⟨rfl, rfl⟩
  | cons commitment rest ih => exact ih _

theorem lookup_commitAll (engine : StorageEngine) (id tested : Bytes) (commitments : List Commitment)
    (some' : commitments ≠ []) :
    (engine.commitAll (id, commitments)).commitmentsByDeal.lookup tested =
      if tested = id then some (engine.commitmentsTo id ++ commitments)
      else engine.commitmentsByDeal.lookup tested := by
  unfold StorageEngine.commitAll
  induction commitments using List.reverseRecOn with
  | nil => exact absurd rfl some'
  | append_singleton front commitment ih =>
    rw [List.foldl_append, List.foldl_cons, List.foldl_nil]
    refine (lookup_insert _ id tested _).trans ?_
    rcases List.eq_nil_or_concat' front with rfl | ⟨_, _, rfl⟩
    · rfl
    · have before := ih (by simp)
      split
      · rename_i same
        subst same
        rw [if_pos rfl] at before
        refine congrArg some ?_
        rw [StorageEngine.commitmentsTo, before, Option.getD_some, List.append_assoc]
      · rename_i different
        rw [if_neg different] at before
        exact before

/-- A listing of commitments that is read into an engine without any. -/
theorem lookup_commitAlls (order : List (Bytes × List Commitment)) (engine : StorageEngine)
    (distinct : (order.map Prod.fst).Nodup) (filled : ∀ entry ∈ order, entry.2 ≠ [])
    (fresh : ∀ entry ∈ order, engine.commitmentsByDeal.lookup entry.1 = none) (id : Bytes) :
    (order.foldl StorageEngine.commitAll engine).commitmentsByDeal.lookup id =
      (putAll engine.commitmentsByDeal order).lookup id := by
  induction order generalizing engine with
  | nil => rfl
  | cons entry rest ih =>
    obtain ⟨absent, others⟩ := List.nodup_cons.mp distinct
    have here : ∀ tested, (engine.commitAll entry).commitmentsByDeal.lookup tested =
        (engine.commitmentsByDeal.insert entry.1 entry.2).lookup tested := by
      intro tested
      have none' : engine.commitmentsTo entry.1 = [] := by
        rw [StorageEngine.commitmentsTo, fresh entry (by simp)]
        rfl
      refine (lookup_commitAll engine entry.1 tested entry.2 (filled entry (by simp))).trans ?_
      rw [lookup_insert, none', List.nil_append]
    rw [List.foldl_cons, putAll_cons]
    rw [ih _ others (fun other member => filled other (by simp [member]))]
    · by_cases member : id ∈ rest.map Prod.fst
      · obtain ⟨other, inside, rfl⟩ := List.mem_map.mp member
        rw [lookup_putAll _ _ other.1 other.2 others inside, lookup_putAll _ _ other.1 other.2 others inside]
      · rw [lookup_putAll_other _ _ _ member, lookup_putAll_other _ _ _ member, here]
    · intro other member
      rw [here, lookup_insert, if_neg, fresh other (by simp [member])]
      exact fun same => absent (same ▸ List.mem_map_of_mem member)

theorem commitAlls_others (order : List (Bytes × List Commitment)) (engine : StorageEngine) :
    (order.foldl StorageEngine.commitAll engine).deals = engine.deals ∧
      (order.foldl StorageEngine.commitAll engine).challenges = engine.challenges := by
  induction order generalizing engine with
  | nil => exact ⟨rfl, rfl⟩
  | cons entry rest ih =>
    obtain ⟨deals, challenges⟩ := commitAll_others engine entry
    rw [List.foldl_cons, (ih _).1, (ih _).2]
    exact ⟨deals, challenges⟩

/-! ### What is read of a reachable state -/

/-- The entries of an engine are under their own names, which are digests. -/
structure Named (engine : StorageEngine) : Prop where
  deals : ∀ id deal, engine.deals.lookup id = some deal →
    deal.dealId = id ∧ PlainField id ∧ deal.status = ascii "active"
  commitments : ∀ id commitments, engine.commitmentsByDeal.lookup id = some commitments →
    commitments ≠ [] ∧ (engine.deals.lookup id).isSome
  challenges : ∀ id challenge, engine.challenges.lookup id = some challenge →
    challenge.challengeId = id ∧ PlainField id

theorem countProof_ne_nil {worker : Bytes} {pass : Bool} {commitments : List Commitment}
    (some' : commitments ≠ []) : countProof worker pass commitments ≠ [] := by
  cases commitments with
  | nil => exact absurd rfl some'
  | cons commitment rest =>
    rw [countProof]
    split <;> simp

variable {P : Primitives}

variable {engine : StorageEngine} {order : Enumeration}

/-- The deals lie under their own names after every operation. -/
theorem Named.perform (named : Named engine) (operation : Operation) :
    Named (step P engine operation) := by
  rw [step]
  cases operation with
  | createDeal client root chunks replication first last price =>
    rw [Storage.perform]
    obtain ⟨message, same⟩ | ⟨text, deal, new, -, rfl, same⟩ := createDeal_cases (P := P) engine client
      root chunks replication first last price
    · rw [same]
      exact named
    · rw [same]
      refine ⟨fun id deal found => ?_, fun id commitments found => ?_, named.challenges⟩
      · rw [show (engine.putDeal _ _).deals.lookup id = _ from lookup_insert engine.deals _ id _] at found
        split at found
        · rename_i this
          exact Option.some.inj found ▸ ⟨this.symm, this ▸ Privacy.strongHash_plain P text, rfl⟩
        · exact named.deals id deal found
      · obtain ⟨some', known⟩ := named.commitments id commitments found
        refine ⟨some', ?_⟩
        rw [show (engine.putDeal _ _).deals.lookup id = _ from lookup_insert engine.deals _ id _]
        split
        · rfl
        · exact known
  | registerCommitment id worker sealedCommitment collateral =>
    rw [Storage.perform]
    obtain ⟨message, same⟩ | ⟨known, -, same⟩ :=
      registerCommitment_cases engine id worker sealedCommitment collateral
    · rw [same]
      exact named
    · rw [same]
      refine ⟨named.deals, fun tested commitments found => ?_, named.challenges⟩
      rw [show (engine.putCommitments id _).commitmentsByDeal.lookup tested = _ from
        lookup_insert engine.commitmentsByDeal id tested _] at found
      split at found
      · rename_i this
        exact Option.some.inj found ▸ ⟨by simp, this ▸ known⟩
      · exact named.commitments tested commitments found
  | issueChallenge id worker height =>
    rw [Storage.perform]
    obtain ⟨message, same⟩ | ⟨deal, challenge, text, -, -, name, -, -, -, -, -, same⟩ :=
      issueChallenge_cases (P := P) engine id worker height
    · rw [same]
      exact named
    · rw [same]
      refine ⟨named.deals, named.commitments, fun tested challenge' found => ?_⟩
      rw [lookup_putChallenge] at found
      split at found
      · rename_i this
        exact Option.some.inj found ▸ ⟨name.trans this.symm, this ▸ Privacy.strongHash_plain P text⟩
      · exact named.challenges tested challenge' found
  | submitProof id worker proof =>
    rw [Storage.perform]
    obtain ⟨⟨message, same⟩, -⟩ | ⟨challenge, pass, found, -, -, -, -, same⟩ :=
      submitProof_cases engine id worker proof
    · rw [same]
      exact named
    · rw [same]
      refine ⟨by rw [count_deals]; exact named.deals, fun tested commitments there => ?_,
        fun tested challenge' there => ?_⟩
      · rw [count_deals]
        unfold StorageEngine.count at there
        split at there
        · exact named.commitments tested commitments there
        · rename_i before known
          change (engine.commitmentsByDeal.insert challenge.dealId _).lookup tested = _ at there
          rw [lookup_insert] at there
          split at there
          · rename_i this
            obtain ⟨some', deal⟩ := named.commitments _ before known
            exact Option.some.inj there ▸ ⟨countProof_ne_nil some', this ▸ deal⟩
          · exact named.commitments tested commitments there
      · rw [count_challenges, lookup_putChallenge] at there
        split at there
        · rename_i this
          subst this
          exact Option.some.inj there ▸ named.challenges tested challenge found
        · exact named.challenges tested challenge' there

theorem reached_named (P : Primitives) (operations : List Operation) :
    Named (reached P operations) := by
  induction operations using List.reverseRecOn with
  | nil =>
    exact ⟨fun id deal found => by simp [StorageEngine.initial] at found,
      fun id commitments found => by simp [StorageEngine.initial] at found,
      fun id challenge found => by simp [StorageEngine.initial] at found⟩
  | append_singleton front operation named => exact reached_snoc front operation ▸ named.perform operation

/-! ### The whole file -/

theorem foldl_putDeal (entries : List (Bytes × Deal)) (engine : StorageEngine) :
    entries.foldl (fun engine entry => engine.putDeal entry.2.dealId entry.2) engine =
      { engine with deals := putAll engine.deals (entries.map (fun entry => (entry.2.dealId, entry.2))) } := by
  induction entries generalizing engine with
  | nil => rfl
  | cons entry rest ih => exact ih _

theorem foldl_putChallenge (entries : List (Bytes × Challenge)) (engine : StorageEngine) :
    entries.foldl (fun engine entry => engine.putChallenge entry.2.challengeId entry.2) engine =
      { engine with
        challenges := putAll engine.challenges
          (entries.map (fun entry => (entry.2.challengeId, entry.2))) } := by
  induction entries generalizing engine with
  | nil => rfl
  | cons entry rest ih => exact ih _

/-- Entries under their own names. -/
theorem map_own {α : Type} (name : α → Bytes) (entries : List (Bytes × α))
    (own : ∀ entry ∈ entries, name entry.2 = entry.1) :
    entries.map (fun entry => (name entry.2, entry.2)) = entries := by
  refine (List.map_congr_left fun entry member => ?_).trans (List.map_id entries)
  rw [own entry member, id_eq]

/-- An enumeration whose lines can be read back. -/
structure PlainOrder (order : Enumeration) : Prop where
  deals : ∀ entry ∈ order.deals, entry.2.dealId = entry.1 ∧ PlainField entry.2.dealId ∧
    PlainField entry.2.clientAddr ∧ PlainField entry.2.contentRoot ∧ newline ∉ entry.2.status
  commitments : ∀ entry ∈ order.commitments, entry.2 ≠ [] ∧ PlainField entry.1 ∧
    ∀ commitment ∈ entry.2, PlainField commitment.workerAddr ∧ PlainField commitment.sealedCommitment
  challenges : ∀ entry ∈ order.challenges, entry.2.challengeId = entry.1 ∧
    PlainField entry.2.challengeId ∧ PlainField entry.2.dealId ∧ PlainField entry.2.workerAddr ∧
    newline ∉ entry.2.verdict

/-- Every text of a reachable state is a digest, a number, a verdict, or what a client or worker
gave. -/
theorem Enumerates.plainOrder {operations : List Operation}
    (lists : Enumerates order (reached P operations)) (plain : PlainEngine (reached P operations)) :
    PlainOrder order := by
  have named := reached_named P operations
  have kept := reached_kept P operations
  have dealNames : ∀ id, ((reached P operations).deals.lookup id).isSome → PlainField id := by
    intro id known
    obtain ⟨deal, found⟩ := Option.isSome_iff_exists.mp known
    exact (named.deals id deal found).2.1
  constructor
  · intro entry member
    have found := (lists.deals.entries entry.1 entry.2).mp member
    obtain ⟨own, name, status⟩ := named.deals _ _ found
    obtain ⟨client, root⟩ := plain.deals _ _ found
    exact ⟨own, own.symm ▸ name, client, root, status.symm ▸ by decide⟩
  · intro entry member
    have found := (lists.commitments.entries entry.1 entry.2).mp member
    obtain ⟨some', known⟩ := named.commitments _ _ found
    refine ⟨some', dealNames _ known, fun commitment inside => plain.commitments entry.1 commitment ?_⟩
    rw [StorageEngine.commitmentsTo, found]
    exact inside
  · intro entry member
    have found := (lists.challenges.entries entry.1 entry.2).mp member
    obtain ⟨own, name⟩ := named.challenges _ _ found
    obtain ⟨deal, there, -⟩ := kept.bound _ _ found
    obtain ⟨commitment, inside, same⟩ := List.mem_map.mp (kept.committed _ _ found)
    refine ⟨own, own.symm ▸ name, dealNames _ (by rw [there]; rfl),
      same ▸ (plain.commitments _ commitment inside).1, ?_⟩
    rcases (kept.judged _ _ found).verdict with verdict | verdict | verdict
    · exact verdict.symm ▸ by decide
    · exact verdict.symm ▸ by decide
    · exact verdict.symm ▸ by decide

theorem PlainOrder.whole (plain : PlainOrder order) :
    ∀ text ∈ stateLines order, newline ∉ text := by
  intro text member
  rcases List.mem_append.mp member with isDeal | member
  · obtain ⟨entry, inside, rfl⟩ := List.mem_map.mp isDeal
    obtain ⟨-, name, client, root, status⟩ := plain.deals entry inside
    exact CleanFields.whole [_, _, _, _, _, _, _, _]
      ⟨by simpa [plain_number] using ⟨name, client, root⟩, status⟩ 'D' (by decide)
  rcases List.mem_append.mp member with isCommitment | isChallenge
  · obtain ⟨entry, inside, member⟩ := List.mem_flatMap.mp isCommitment
    obtain ⟨commitment, there, rfl⟩ := List.mem_map.mp member
    obtain ⟨-, name, texts⟩ := plain.commitments entry inside
    exact CleanFields.whole [_, _, _, _, _]
      ⟨by simpa [plain_number] using ⟨name, texts commitment there⟩, (plain_number _).newline⟩ 'C'
      (by decide)
  · obtain ⟨entry, inside, rfl⟩ := List.mem_map.mp isChallenge
    obtain ⟨-, name, deal, worker, verdict⟩ := plain.challenges entry inside
    exact CleanFields.whole [_, _, _, _, _, _]
      ⟨by simpa [plain_number] using ⟨name, deal, worker⟩, verdict⟩ 'H' (by decide)

/-- What the lines of an enumeration put into an engine, kind by kind. -/
def restored (order : Enumeration) : StorageEngine :=
  order.challenges.foldl (fun engine entry => engine.putChallenge entry.2.challengeId entry.2)
    (order.commitments.foldl StorageEngine.commitAll
      (order.deals.foldl (fun engine entry => engine.putDeal entry.2.dealId entry.2) .initial))

theorem PlainOrder.read (plain : PlainOrder order) :
    loadState (dumpState order) = .ok (restored order) := by
  have deals : readLines (readTagged loadTagged) .initial
      (order.deals.map (fun entry => dealLine entry.2)) = _ :=
    readLines_items (readTagged loadTagged) (fun entry : Bytes × Deal => dealLine entry.2)
      (fun engine entry => engine.putDeal entry.2.dealId entry.2) order.deals .initial
      (fun engine entry member => by
        obtain ⟨-, name, client, root, status⟩ := plain.deals entry member
        exact load_deal engine entry.2 name client root status)
  have commitments : ∀ engine, readLines (readTagged loadTagged) engine
      (order.commitments.flatMap (fun entry => entry.2.map (commitmentLine entry.1))) =
        .ok (order.commitments.foldl StorageEngine.commitAll engine) :=
    fun engine => readLines_groups (readTagged loadTagged)
      (fun entry : Bytes × List Commitment => entry.2.map (commitmentLine entry.1))
      StorageEngine.commitAll order.commitments engine
      (fun engine entry member => readLines_items (readTagged loadTagged) (commitmentLine entry.1)
        (fun engine commitment =>
          engine.putCommitments entry.1 (engine.commitmentsTo entry.1 ++ [commitment])) entry.2 engine
        (fun engine commitment inside => by
          obtain ⟨-, name, texts⟩ := plain.commitments entry member
          exact load_commitment engine commitment name (texts commitment inside).1
            (texts commitment inside).2))
  have challenges : ∀ engine, readLines (readTagged loadTagged) engine
      (order.challenges.map (fun entry => challengeLine entry.2)) = _ :=
    fun engine => readLines_items (readTagged loadTagged)
      (fun entry : Bytes × Challenge => challengeLine entry.2)
      (fun engine entry => engine.putChallenge entry.2.challengeId entry.2) order.challenges engine
      (fun engine entry member => by
        obtain ⟨-, name, deal, worker, verdict⟩ := plain.challenges entry member
        exact load_challenge engine entry.2 name deal worker verdict)
  refine (congrArg (readLines (readTagged loadTagged) .initial) (splitLines_lines _ plain.whole)).trans ?_
  rw [stateLines, readLines_append, deals]
  refine (readLines_append _ _ _ _).trans ?_
  rw [commitments]
  exact challenges _

/-- What is restored has the entries that were enumerated. -/
theorem PlainOrder.same (plain : PlainOrder order)
    (lists : Enumerates order engine) : Same engine (restored order) := by
  unfold restored
  rw [foldl_putChallenge, foldl_putDeal, map_own _ _ fun entry member => (plain.deals entry member).1,
    map_own _ _ fun entry member => (plain.challenges entry member).1]
  obtain ⟨deals, challenges⟩ := commitAlls_others order.commitments
    { StorageEngine.initial with deals := putAll StorageEngine.initial.deals order.deals }
  refine ⟨fun id => ?_, fun id => ?_, fun id => ?_⟩
  · change (StorageEngine.deals (order.commitments.foldl _ _)).lookup id = _
    rw [deals]
    exact lists.deals.lookup id
  · refine (lookup_commitAlls order.commitments _ lists.commitments.distinct
      (fun entry member => (plain.commitments entry member).1) ?_ id).trans (lists.commitments.lookup id)
    exact fun entry _ => AList.lookup_empty entry.1
  · change (putAll (StorageEngine.challenges (order.commitments.foldl _ _)) order.challenges).lookup id = _
    rw [challenges]
    exact lists.challenges.lookup id

/-- The state that a run reaches comes back exactly when the texts that clients and workers gave are
plain. -/
theorem storage_state_restored_iff (P : Primitives) (operations : List Operation) :
    RoundTrips (reached P operations) ↔ PlainEngine (reached P operations) := by
  constructor
  · intro returns
    obtain ⟨loaded, read, same⟩ := returns ⟨_, _, _⟩ ⟨lists_entries _, lists_entries _, lists_entries _⟩
    have plain := loadState_plain read
    refine ⟨fun id deal found => plain.deals id deal ((same.deals id).trans found), ?_⟩
    intro id commitment member
    refine plain.commitments id commitment ?_
    rw [StorageEngine.commitmentsTo, same.commitments id]
    exact member
  · intro plain order lists
    have readable := lists.plainOrder plain
    exact ⟨_, readable.read, readable.same lists⟩

end Storage

end Addition
