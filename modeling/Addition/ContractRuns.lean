import Addition.Contracts

/-!
# Contracts along runs

What lies under a key of a contract is what was last set, with what was added later, as long as no
deployment starts the contract again. A deployment leaves every contract as it is exactly when no
contract is there whose owner and code are joined to the same text, unless it is the same one and
has no numbers yet.
-/

namespace Addition

namespace Contracts

open ByteStrings Checked FiniteTables Runs

variable (P : Primitives)

/-! ### What runs should leave -/

/-- What an operation that goes through makes of the number under a key of a contract. -/
def effect (id key : Bytes) (number : Int) : Operation → Int
  | .deploy _ _ => number
  | .call _ contractId method key' value =>
    if contractId = id ∧ key' = key then
      if method = ascii "set" then value.toInt
      else if method = ascii "add" then number + value.toInt
      else number
    else number

/-- An engine and the number under a key, operation by operation. -/
def tally (id key : Bytes) (state : ContractEngine × Int) (operation : Operation) :
    ContractEngine × Int :=
  (step P state.1 operation,
    if (perform P state.1 operation).1.isOk then effect id key state.2 operation else state.2)

/-- The last number that operations set under a key, and the sum of those they added later. -/
def stored (operations : List Operation) (id key : Bytes) : Int :=
  (operations.foldl (tally P id key) (.initial, 0)).2

/-- The numbers that a signed word holds. -/
def InRange (number : Int) : Prop := -2 ^ 63 ≤ number ∧ number < 2 ^ 63

/-- No contract gets in the way of another one: deployments have one name exactly when they are
the same, they change no contract that is there, and a number is what was set and added. -/
structure Isolated (operations : List Operation) : Prop where
  names : ∀ owner code owner' code', .deploy owner code ∈ operations →
    .deploy owner' code' ∈ operations →
      (contractId P owner code = contractId P owner' code' ↔ owner = owner' ∧ code = code')
  kept : ∀ front owner code, front ++ [.deploy owner code] <+: operations → ∀ id contract,
    (reached P front).contracts.lookup id = some contract →
      (deploy P (reached P front) owner code).2.contracts.lookup id = some contract
  numbers : ∀ front, front <+: operations → ∀ id, ((reached P front).contracts.lookup id).isSome →
    ∀ key, (∀ early, early <+: front → InRange (stored P early id key)) → ∀ bindings value,
      call (reached P front) bindings id (ascii "get") key value =
        (.ok (integer (stored P front id key)), reached P front)

/-- A deployment finds no contract whose owner and code give the same text, unless it is the same
contract without numbers. -/
def Fresh (engine : ContractEngine) : Operation → Prop
  | .deploy owner code => ∀ id contract, engine.contracts.lookup id = some contract →
    deployment contract.owner contract.code = deployment owner code →
      contract.owner = owner ∧ contract.code = code ∧ contract.kv = ∅
  | .call .. => True

/-- The texts that operations hash. -/
def hashed (operations : List Operation) : Set Bytes :=
  { text | ∃ owner code, .deploy owner code ∈ operations ∧ text = deployment owner code }

/-! ### Single operations -/

theorem lookup_deploy (engine : ContractEngine) (owner code tested : Bytes) :
    (deploy P engine owner code).2.contracts.lookup tested =
      if tested = contractId P owner code then some ⟨owner, code, ∅⟩
      else engine.contracts.lookup tested :=
  lookup_insert engine.contracts _ tested _

/-- What a call makes of its contract. -/
def Contract.called (contract : Contract) (method key : Bytes) (value : Int64) : Contract :=
  if method = ascii "set" then contract.set key value
  else if method = ascii "add" then contract.set key (contract.number key + value)
  else contract

@[simp] theorem called_owner (contract : Contract) (method key : Bytes) (value : Int64) :
    (contract.called method key value).owner = contract.owner := by
  unfold Contract.called
  split
  · rfl
  · split <;> rfl

@[simp] theorem called_code (contract : Contract) (method key : Bytes) (value : Int64) :
    (contract.called method key value).code = contract.code := by
  unfold Contract.called
  split
  · rfl
  · split <;> rfl

theorem number_set (contract : Contract) (key tested : Bytes) (value : Int64) :
    (contract.set key value).number tested = if tested = key then value else contract.number tested := by
  unfold Contract.set Contract.number
  rw [lookup_insert]
  split <;> rfl

theorem number_called (contract : Contract) (method key tested : Bytes) (value : Int64) :
    (contract.called method key value).number tested =
      if tested = key then
        if method = ascii "set" then value
        else if method = ascii "add" then contract.number tested + value
        else contract.number tested
      else contract.number tested := by
  unfold Contract.called
  by_cases same : tested = key
  · subst same
    rw [if_pos rfl]
    split
    · rw [number_set, if_pos rfl]
    · split
      · rw [number_set, if_pos rfl]
      · rfl
  · rw [if_neg same]
    split
    · rw [number_set, if_neg same]
    · split
      · rw [number_set, if_neg same]
      · rfl

/-- A call changes the numbers of its contract and nothing else. -/
theorem lookup_call (engine : ContractEngine) (bindings : Bindings) (id method key : Bytes)
    (value : Int64) (tested : Bytes) :
    (call engine bindings id method key value).2.contracts.lookup tested =
      (engine.contracts.lookup tested).map (fun contract =>
        if tested = id then contract.called method key value else contract) := by
  unfold call Contract.called
  cases found : engine.contracts.lookup id with
  | none =>
    dsimp only
    by_cases same : tested = id
    · rw [same, found, Option.map_none]
    · simp [same]
  | some contract =>
    have put : ∀ changed, (engine.put id changed).contracts.lookup tested =
        if tested = id then some changed else engine.contracts.lookup tested :=
      fun changed => lookup_insert engine.contracts id tested changed
    dsimp only
    by_cases same : tested = id
    · subst same
      rw [found, Option.map_some, if_pos rfl]
      split
      · rw [put, if_pos rfl]
      · split
        · rw [put, if_pos rfl]
        · split_ifs <;> exact found
    · simp only [if_neg same, Option.map_id']
      split
      · rw [put, if_neg same]
      · split
        · rw [put, if_neg same]
        · split_ifs <;> rfl

/-- A number is set, or added to, when the contract is there. -/
theorem call_ok (engine : ContractEngine) (bindings : Bindings) (id method key : Bytes) (value : Int64)
    (writes : method = ascii "set" ∨ method = ascii "add") :
    (call engine bindings id method key value).1.isOk = (engine.contracts.lookup id).isSome := by
  unfold call
  cases engine.contracts.lookup id with
  | none => rfl
  | some contract =>
    dsimp only
    rcases writes with rfl | rfl
    · rw [if_pos rfl]
      rfl
    · rw [if_neg (by decide), if_pos rfl]
      rfl

/-- Reading a number changes nothing. -/
theorem call_get (engine : ContractEngine) (bindings : Bindings) (id key : Bytes) (value : Int64)
    (contract : Contract) (found : engine.contracts.lookup id = some contract) :
    call engine bindings id (ascii "get") key value =
      (.ok (integer (contract.number key).toInt), engine) := by
  unfold call
  rw [found]
  dsimp only
  rw [if_neg (by decide), if_neg (by decide), if_pos rfl]

/-! ### Single steps of a run -/

@[simp] theorem reached_nil : reached P [] = .initial := rfl

@[simp] theorem reached_snoc (front : List Operation) (operation : Operation) :
    reached P (front ++ [operation]) = step P (reached P front) operation := by
  rw [reached, List.foldl_append]
  rfl

theorem tally_engine (operations : List Operation) (id key : Bytes) :
    (operations.foldl (tally P id key) (.initial, 0)).1 = reached P operations := by
  induction operations using List.reverseRecOn with
  | nil => rfl
  | append_singleton front operation ih =>
    rw [List.foldl_append, reached_snoc, ← ih]
    rfl

@[simp] theorem stored_nil (id key : Bytes) : stored P [] id key = 0 := rfl

theorem stored_snoc (front : List Operation) (operation : Operation) (id key : Bytes) :
    stored P (front ++ [operation]) id key =
      if (perform P (reached P front) operation).1.isOk then
        effect id key (stored P front id key) operation
      else stored P front id key := by
  rw [stored, List.foldl_append, ← tally_engine P front id key]
  rfl

/-- A deployment changes no number that was set or added to. -/
theorem stored_deploy (front : List Operation) (owner code id key : Bytes) :
    stored P (front ++ [.deploy owner code]) id key = stored P front id key := by
  rw [stored_snoc]
  exact ite_self _

/-- A call changes the number that it names when its contract is there. -/
theorem stored_call (front : List Operation) (bindings : Bindings)
    (called method key' : Bytes) (value : Int64) (id key : Bytes) :
    stored P (front ++ [.call bindings called method key' value]) id key =
      if ((reached P front).contracts.lookup called).isSome ∧ called = id ∧ key' = key then
        if method = ascii "set" then value.toInt
        else if method = ascii "add" then stored P front id key + value.toInt
        else stored P front id key
      else stored P front id key := by
  rw [stored_snoc, perform]
  by_cases here : called = id ∧ key' = key
  · by_cases writes : method = ascii "set" ∨ method = ascii "add"
    · rw [call_ok _ _ _ _ _ _ writes]
      simp only [effect, here, and_self, and_true, ↓reduceIte]
    · rw [not_or] at writes
      simp [effect, writes.1, writes.2]
  · simp [effect, here]

/-! ### What fresh deployments keep -/

/-- A contract lies under the digest of its own owner and code, which were deployed. -/
def Named (operations : List Operation) (engine : ContractEngine) : Prop :=
  ∀ id contract, engine.contracts.lookup id = some contract →
    id = contractId P contract.owner contract.code ∧
      .deploy contract.owner contract.code ∈ operations

/-- What was deployed is there, with its own owner and code. -/
def Deployed (operations : List Operation) (engine : ContractEngine) : Prop :=
  ∀ owner code, .deploy owner code ∈ operations → ∃ contract,
    engine.contracts.lookup (contractId P owner code) = some contract ∧
      contract.owner = owner ∧ contract.code = code

/-- A number is what was set and added, as long as that was never out of range, and nothing was
where there is no contract. -/
def Tallied (operations : List Operation) (engine : ContractEngine) : Prop :=
  ∀ id key, (engine.contracts.lookup id = none → stored P operations id key = 0) ∧
    ∀ contract, engine.contracts.lookup id = some contract →
      (∀ early, early <+: operations → InRange (stored P early id key)) →
        (contract.number key).toInt = stored P operations id key

variable {P}

variable {engine : ContractEngine} {operations : List Operation} {code : Bytes}
  {contract : Contract} {owner : Bytes} {texts : Set Bytes}

theorem Named.called
    (named : Named P operations engine) (bindings : Bindings) (id method key : Bytes)
    (value : Int64) :
    Named P (operations ++ [.call bindings id method key value])
      (call engine bindings id method key value).2 := by
  intro tested contract found
  rw [lookup_call, Option.map_eq_some_iff] at found
  obtain ⟨before, held, rfl⟩ := found
  obtain ⟨name, member⟩ := named tested before held
  split
  · simpa using ⟨name, member⟩
  · simpa using ⟨name, member⟩

theorem Named.deployed (named : Named P operations engine) (owner code : Bytes) :
    Named P (operations ++ [.deploy owner code]) (deploy P engine owner code).2 := by
  intro tested contract found
  rw [lookup_deploy] at found
  split at found
  · rename_i own
    obtain rfl := Option.some.inj found
    exact ⟨own, by simp⟩
  · obtain ⟨name, member⟩ := named tested contract found
    exact ⟨name, List.mem_append_left _ member⟩

theorem reached_named (operations : List Operation) :
    Named P operations (reached P operations) := by
  induction operations using List.reverseRecOn with
  | nil =>
    intro id contract found
    simp [ContractEngine.initial] at found
  | append_singleton front operation ih =>
    rw [reached_snoc]
    cases operation with
    | deploy owner code => exact ih.deployed owner code
    | call bindings id method key value => exact ih.called bindings id method key value

/-- Where a deployment finds a contract, the two are one text. -/
theorem same_text (named : Named P operations engine) (injective : Set.InjOn P.sha3 texts)
    (inside : hashed operations ⊆ texts) (member : deployment owner code ∈ texts)
    (found : engine.contracts.lookup (contractId P owner code) = some contract) :
    deployment contract.owner contract.code = deployment owner code := by
  obtain ⟨name, deployed⟩ := named _ contract found
  exact strongHash_injOn P texts injective (inside ⟨_, _, deployed, rfl⟩) member name.symm

/-- A fresh deployment leaves every contract as it is. -/
theorem fresh_deploy (named : Named P operations engine) (injective : Set.InjOn P.sha3 texts)
    (inside : hashed operations ⊆ texts)
    (member : deployment owner code ∈ texts) (fresh : Fresh engine (.deploy owner code))
    {id : Bytes} (found : engine.contracts.lookup id = some contract) :
    (deploy P engine owner code).2.contracts.lookup id = some contract := by
  rw [lookup_deploy]
  split
  · rename_i own
    subst own
    have text := same_text named injective inside member found
    obtain ⟨rfl, rfl, empty⟩ := fresh _ contract found text
    rw [← empty]
  · exact found

theorem deployed_step (there : Deployed P operations engine) (named : Named P operations engine)
    (injective : Set.InjOn P.sha3 texts) (operation : Operation)
    (inside : hashed (operations ++ [operation]) ⊆ texts) (fresh : Fresh engine operation) :
    Deployed P (operations ++ [operation]) (step P engine operation) := by
  have front : hashed operations ⊆ texts := by
    rintro text ⟨owner, code, member, rfl⟩
    exact inside ⟨owner, code, List.mem_append_left _ member, rfl⟩
  intro owner code member
  cases operation with
  | deploy owner' code' =>
    have own : deployment owner' code' ∈ texts := inside ⟨owner', code', by simp, rfl⟩
    rcases List.mem_append.mp member with before | new
    · obtain ⟨contract, found, named'⟩ := there owner code before
      exact ⟨contract, fresh_deploy named injective front own fresh found, named'⟩
    · obtain ⟨rfl, rfl⟩ : owner = owner' ∧ code = code' := by simpa using new
      refine ⟨⟨owner, code, ∅⟩, ?_, rfl, rfl⟩
      rw [step, perform, lookup_deploy, if_pos rfl]
  | call bindings id method key value =>
    have before : .deploy owner code ∈ operations := by simpa using member
    obtain ⟨contract, found, rfl, rfl⟩ := there owner code before
    refine ⟨if contractId P contract.owner contract.code = id then contract.called method key value
      else contract, ?_, ?_, ?_⟩
    · rw [step, perform, lookup_call, found, Option.map_some]
    · split
      · exact called_owner contract method key value
      · rfl
    · split
      · exact called_code contract method key value
      · rfl

theorem tallied_deploy (tallied : Tallied P operations engine)
    (keeps : ∀ id contract, engine.contracts.lookup id = some contract →
      (deploy P engine owner code).2.contracts.lookup id = some contract) :
    Tallied P (operations ++ [.deploy owner code]) (deploy P engine owner code).2 := by
  intro id key
  obtain ⟨absent, present⟩ := tallied id key
  rw [stored_deploy]
  cases held : engine.contracts.lookup id with
  | none =>
    have zero := absent held
    refine ⟨fun _ => zero, ?_⟩
    intro contract found _
    rw [lookup_deploy] at found
    split at found
    · obtain rfl := Option.some.inj found
      rw [zero]
      rfl
    · rw [held] at found
      exact nomatch found
  | some before =>
    have after := keeps id before held
    constructor
    · intro none
      rw [after] at none
      exact nomatch none
    · intro contract found ranged
      obtain rfl : before = contract := Option.some.inj (after.symm.trans found)
      exact present before held (fun early cut => ranged early (cut.trans (List.prefix_append _ _)))

/-- A sum in range does not wrap. -/
theorem toInt_add_ranged {number value : Int64} (ranged : InRange (number.toInt + value.toInt)) :
    (number + value).toInt = number.toInt + value.toInt := by
  rw [Int64.toInt_add]
  obtain ⟨low, high⟩ := ranged
  exact Int.bmod_eq_of_le (by omega) (by omega)

theorem tallied_call (tallied : Tallied P operations (reached P operations)) (bindings : Bindings)
    (id method key : Bytes) (value : Int64) :
    Tallied P (operations ++ [.call bindings id method key value])
      (call (reached P operations) bindings id method key value).2 := by
  intro tested key'
  obtain ⟨absent, present⟩ := tallied tested key'
  rw [lookup_call, stored_call]
  cases held : (reached P operations).contracts.lookup tested with
  | none =>
    have other : ¬ (((reached P operations).contracts.lookup id).isSome ∧ id = tested ∧ key = key') := by
      rintro ⟨some, rfl, _⟩
      simp [held] at some
    rw [if_neg other]
    exact ⟨fun _ => absent held, fun contract found => by simp at found⟩
  | some before =>
    refine ⟨fun none => by simp at none, ?_⟩
    intro contract found ranged
    rw [Option.map_some, Option.some.injEq] at found
    have earlier := present before held
      (fun early cut => ranged early (cut.trans (List.prefix_append _ _)))
    have last := ranged _ (List.prefix_refl _)
    rw [stored_call] at last
    by_cases here : id = tested ∧ key = key'
    · obtain ⟨rfl, rfl⟩ := here
      rw [if_pos rfl] at found
      subst found
      rw [number_called, if_pos rfl]
      simp only [held, Option.isSome_some, and_self, ↓reduceIte] at last ⊢
      split
      · rfl
      · rename_i other
        rw [if_neg other] at last
        split
        · rename_i adds
          rw [if_pos adds, ← earlier] at last
          rw [toInt_add_ranged last, earlier]
        · exact earlier
    · rw [if_neg (fun all => here all.2)]
      split at found
      · rename_i same
        subst found
        rw [number_called, if_neg (fun other => here ⟨same.symm, other.symm⟩)]
        exact earlier
      · subst found
        exact earlier

/-! ### Isolation -/

/-- What a run of fresh deployments keeps. -/
structure Kept (P : Primitives) (operations : List Operation) : Prop where
  deployed : Deployed P operations (reached P operations)
  tallied : Tallied P operations (reached P operations)

theorem kept_of_fresh (operations : List Operation)
    (injective : Set.InjOn P.sha3 (hashed operations))
    (fresh : EachStep (step P) Fresh .initial operations) (front : List Operation)
    (cut : front <+: operations) : Kept P front := by
  induction front using List.reverseRecOn with
  | nil =>
    refine ⟨fun owner code member => absurd member List.not_mem_nil, fun id key => ⟨fun _ => rfl, ?_⟩⟩
    intro contract found
    simp [ContractEngine.initial] at found
  | append_singleton front operation ih =>
    have kept := ih ((List.prefix_append _ _).trans cut)
    have inside : hashed (front ++ [operation]) ⊆ hashed operations := by
      rintro text ⟨owner, code, member, rfl⟩
      exact ⟨owner, code, cut.subset member, rfl⟩
    have new : Fresh (reached P front) operation := by
      obtain ⟨rest, rfl⟩ := cut
      rw [List.append_assoc] at fresh
      exact fresh.before
    have named := reached_named (P := P) front
    constructor
    · rw [reached_snoc]
      exact deployed_step kept.deployed named injective operation inside new
    · rw [reached_snoc]
      cases operation with
      | deploy owner code =>
        apply tallied_deploy kept.tallied
        intro id contract found
        have earlier : hashed front ⊆ hashed operations := by
          rintro text ⟨owner', code', member, rfl⟩
          exact inside ⟨owner', code', List.mem_append_left _ member, rfl⟩
        exact fresh_deploy named injective earlier (inside ⟨owner, code, by simp, rfl⟩) new found
      | call bindings id method key value => exact tallied_call kept.tallied bindings id method key value

/-- Contracts are isolated exactly in the runs whose deployments find no contract whose owner
and code are joined to the same text, unless it is the same one and has no numbers yet. -/
theorem contracts_isolated_iff (P : Primitives) (operations : List Operation)
    (injective : Set.InjOn P.sha3 (hashed operations)) :
    Isolated P operations ↔ EachStep (step P) Fresh .initial operations := by
  constructor
  · intro isolated
    rw [eachStep_iff]
    intro front operation cut
    cases operation with
    | call bindings id method key value => trivial
    | deploy owner code =>
      intro id contract found text
      have name : id = contractId P owner code := by
        rw [(reached_named front id contract found).1, contractId, text]
        rfl
      have after := isolated.kept front owner code cut id contract found
      rw [lookup_deploy, if_pos name] at after
      obtain rfl := Option.some.inj after
      exact ⟨rfl, rfl, rfl⟩
  · intro fresh
    have kept := kept_of_fresh operations injective fresh
    refine ⟨?_, ?_, ?_⟩
    · intro owner code owner' code' member member'
      constructor
      · intro same
        have whole := (kept operations (List.prefix_refl _)).deployed
        obtain ⟨contract, found, rfl, rfl⟩ := whole owner code member
        obtain ⟨contract', found', rfl, rfl⟩ := whole owner' code' member'
        rw [same, found', Option.some.injEq] at found
        exact ⟨by rw [found], by rw [found]⟩
      · rintro ⟨rfl, rfl⟩
        rfl
    · intro front owner code cut id contract found
      have inside : hashed front ⊆ hashed operations := by
        rintro text ⟨owner', code', member, rfl⟩
        exact ⟨owner', code', cut.subset (List.mem_append_left _ member), rfl⟩
      have own : deployment owner code ∈ hashed operations :=
        ⟨owner, code, cut.subset (by simp), rfl⟩
      exact fresh_deploy (reached_named front) injective inside own
        ((eachStep_iff.mp fresh) front _ cut) found
    · intro front cut id there key ranged bindings value
      obtain ⟨contract, found⟩ := Option.isSome_iff_exists.mp there
      rw [call_get _ bindings id key value contract found]
      rw [((kept front cut).tallied id key).2 contract found ranged]

/-! ### Two contracts -/

/-- Neither engine is bound. -/
def unbound : Bindings := ⟨none, none⟩

/-- The names of two contracts with the same code. -/
def firstContract : Bytes := contractId samplePrimitives (ascii "a") (ascii "c")

/-- The second of them. -/
def secondContract : Bytes := contractId samplePrimitives (ascii "b") (ascii "c")

/-- The number of the first contract is set and added to, and then the one of the second is set
under the same key. -/
def counting : List Operation :=
  [.deploy (ascii "a") (ascii "c"), .deploy (ascii "b") (ascii "c"),
    .call unbound firstContract (ascii "set") (ascii "k") 5,
    .call unbound firstContract (ascii "add") (ascii "k") 2,
    .call unbound secondContract (ascii "set") (ascii "k") 9]

theorem counting_hashed {text : Bytes} (member : text ∈ hashed counting) :
    text ∈ [ascii "a|c", ascii "b|c"] := by
  obtain ⟨owner, code, deployed, rfl⟩ := member
  simp only [counting, List.mem_cons, Operation.deploy.injEq, reduceCtorEq, List.not_mem_nil,
    or_false] at deployed
  rcases deployed with ⟨rfl, rfl⟩ | ⟨rfl, rfl⟩
  · exact List.mem_cons_self ..
  · exact List.mem_cons_of_mem _ (List.mem_cons_self ..)

/-- The second deployment finds the first contract under another text. -/
theorem counting_isolated : Isolated samplePrimitives counting := by
  refine (contracts_isolated_iff samplePrimitives counting ?_).mpr
    ⟨?_, ?_, trivial, trivial, trivial, trivial⟩
  · have distinct : ([ascii "a|c", ascii "b|c"].map samplePrimitives.sha3).Nodup := by decide +kernel
    exact fun _ first _ second same =>
      List.inj_on_of_nodup_map distinct (counting_hashed first) (counting_hashed second) same
  · intro id contract found
    simp [ContractEngine.initial] at found
  · intro id contract found text
    have only : contract = ⟨ascii "a", ascii "c", ∅⟩ := by
      change (deploy samplePrimitives .initial (ascii "a") (ascii "c")).2.contracts.lookup id = _ at found
      rw [lookup_deploy] at found
      split at found
      · exact (Option.some.inj found).symm
      · simp [ContractEngine.initial] at found
    rw [only] at text
    exact absurd text (by decide +kernel)

/-- The bar between owner and code may stand in either, and a second deployment clears the numbers
of the first. -/
def joinedAlike : List Operation :=
  [.deploy (ascii "a|b") (ascii "c"), .deploy (ascii "a") (ascii "b|c")]

/-- A contract is deployed again over its own values. -/
def redeployed : List Operation :=
  [.deploy (ascii "a") (ascii "c"), .call unbound firstContract (ascii "set") (ascii "k") 5,
    .deploy (ascii "a") (ascii "c")]

/-- Neither run hashes two texts, and neither is isolated. -/
theorem deployments_collide :
    (Set.InjOn samplePrimitives.sha3 (hashed joinedAlike) ∧ ¬ Isolated samplePrimitives joinedAlike) ∧
      Set.InjOn samplePrimitives.sha3 (hashed redeployed) ∧ ¬ Isolated samplePrimitives redeployed := by
  refine ⟨⟨?_, fun isolated => ?_⟩, ?_, fun isolated => ?_⟩
  · rintro text ⟨owner, code, member, rfl⟩ text' ⟨owner', code', member', rfl⟩ _
    simp only [joinedAlike, List.mem_cons, Operation.deploy.injEq, List.not_mem_nil, or_false]
      at member member'
    rcases member with ⟨rfl, rfl⟩ | ⟨rfl, rfl⟩ <;> rcases member' with ⟨rfl, rfl⟩ | ⟨rfl, rfl⟩ <;> rfl
  · have same := (isolated.names (ascii "a|b") (ascii "c") (ascii "a") (ascii "b|c") (by simp [joinedAlike])
      (by simp [joinedAlike])).mp rfl
    exact absurd same.1 (by decide)
  · rintro text ⟨owner, code, member, rfl⟩ text' ⟨owner', code', member', rfl⟩ _
    simp only [redeployed, List.mem_cons, Operation.deploy.injEq, reduceCtorEq, List.not_mem_nil,
      or_false, false_or, or_self] at member member'
    obtain ⟨rfl, rfl⟩ := member
    obtain ⟨rfl, rfl⟩ := member'
    rfl
  · have kept := isolated.kept (redeployed.take 2) (ascii "a") (ascii "c") (List.prefix_refl _)
      firstContract
    have numbered : ((reached samplePrimitives (redeployed.take 2)).contracts.lookup firstContract).any
        (fun contract => (contract.kv.lookup (ascii "k")).isSome) = true := by
      decide +kernel
    obtain ⟨contract, found, numbered⟩ := (Option.any_eq_true _ _).mp numbered
    have after := kept contract found
    have name : firstContract = contractId samplePrimitives (ascii "a") (ascii "c") := rfl
    rw [lookup_deploy, if_pos name] at after
    obtain rfl := Option.some.inj after
    simp at numbered

end Contracts

end Addition
