import Addition.ContractRuns
import Addition.EngineLines

/-!
# The state file of the contract engine

A contract is written as a line with its name, owner and code, and lines with its name, a key and
a number. A state that deployments and calls reach comes back exactly when no owner and no key has
a bar or the end of a line, and no code the end of a line.
-/

namespace Addition

namespace Contracts

open ByteStrings Checked FiniteTables TextLines Store

/-! ### Writing -/

/-- The line of a contract. -/
def contractLine (id : Bytes) (contract : Contract) : Bytes :=
  tagLine 'C' [id, contract.owner, contract.code]

/-- The line of a value. -/
def keyLine (id : Bytes) (entry : Bytes × Int64) : Bytes :=
  tagLine 'K' [id, entry.1, integer entry.2.toInt]

/-- The contracts, and the keys of each, in the order in which they are enumerated. -/
structure Enumeration where
  contracts : List (Bytes × Contract)
  keys : Bytes → List (Bytes × Int64)

/-- An enumeration has what the engine has. -/
structure Enumerates (order : Enumeration) (engine : ContractEngine) : Prop where
  contracts : Lists order.contracts engine.contracts
  keys : ∀ id contract, engine.contracts.lookup id = some contract →
    Lists (order.keys id) contract.kv

/-- The lines of a contract. -/
def contractLines (order : Enumeration) (entry : Bytes × Contract) : List Bytes :=
  contractLine entry.1 entry.2 :: (order.keys entry.1).map (keyLine entry.1)

/-- `dump_state`, in some order of the containers. -/
def dumpState (order : Enumeration) : Bytes :=
  (order.contracts.flatMap (contractLines order)).flatMap line

/-! ### Reading -/

/-- What a line does, by its tag. A number that cannot be read throws. -/
def loadTagged (engine : ContractEngine) (tag : Bytes) (content : Option Bytes) :
    Except String ContractEngine :=
  if tag = ascii "C" then
    match readFields 2 content with
    | [id, owner, code] =>
      if id.isEmpty then .error "invalid contract state line" else .ok (engine.put id ⟨owner, code, ∅⟩)
    | _ => .ok engine -- never: there are as many fields as were asked for
  else if tag = ascii "K" then
    match readFields 2 content with
    | [id, key, value] =>
      if id.isEmpty then .error "invalid contract kv line"
      else
        match stoll value with
        | none => .error "stoll"
        | some number =>
          .ok (engine.put id (((engine.contracts.lookup id).getD ⟨[], [], ∅⟩).set key number))
    | _ => .ok engine
  else .ok engine

/-- One line of the file. -/
def loadLine (engine : ContractEngine) (text : Bytes) : Except String ContractEngine :=
  if text.isEmpty then .ok engine
  else loadTagged engine (getline bar (some text) []).1 (getline bar (some text) []).2.1

/-- `load_state`. -/
def loadState (state : Bytes) : Except String ContractEngine :=
  readLines loadLine .initial (splitLines state)

/-! ### The same state -/

/-- Contracts that differ in nothing but the order of their keys. -/
structure SameContract (contract other : Contract) : Prop where
  owner : other.owner = contract.owner
  code : other.code = contract.code
  kv : ∀ key, other.kv.lookup key = contract.kv.lookup key

/-- Two engines hold the same contracts, with the same values under their keys. -/
def Same (engine loaded : ContractEngine) : Prop :=
  ∀ id, Option.Rel SameContract (engine.contracts.lookup id) (loaded.contracts.lookup id)

/-- In whatever order it is written, the state comes back. -/
def RoundTrips (engine : ContractEngine) : Prop :=
  ∀ order, Enumerates order engine → ∃ loaded, loadState (dumpState order) = .ok loaded ∧
    Same engine loaded

/-- The texts of a contract do not contain what delimits them. -/
structure PlainContract (contract : Contract) : Prop where
  owner : PlainField contract.owner
  code : newline ∉ contract.code
  keys : ∀ key number, contract.kv.lookup key = some number → PlainField key

/-- The texts of an engine hold no separators. -/
def PlainEngine (engine : ContractEngine) : Prop :=
  ∀ id contract, engine.contracts.lookup id = some contract → PlainContract contract

/-! ### One line -/

theorem lookup_put (engine : ContractEngine) (id tested : Bytes) (contract : Contract) :
    (engine.put id contract).contracts.lookup tested =
      if tested = id then some contract else engine.contracts.lookup tested :=
  lookup_insert engine.contracts id tested contract

theorem put_put (engine : ContractEngine) (id : Bytes) (contract other : Contract) :
    (engine.put id contract).put id other = engine.put id other := by
  simp [ContractEngine.put, AList.insert_insert]

theorem stoll_integer (value : Int64) : stoll (integer value.toInt) = some value := by
  have low := Int64.le_toInt value
  have high := Int64.toInt_lt value
  unfold integer
  split
  · rename_i negative
    rw [stoll_negative _ (by omega), show -((value.toInt.natAbs : Nat) : Int) = value.toInt by omega,
      Int64.ofInt_toInt]
  · rename_i natural
    rw [stoll_natural _ (by omega), show ((value.toInt.natAbs : Nat) : Int) = value.toInt by omega,
      Int64.ofInt_toInt]

theorem integer_plain (value : Int) : PlainField (integer value) := by
  unfold integer
  have plain := plain_decimal value.natAbs
  split
  · exact ⟨by simpa using ⟨by decide, plain.bar⟩, by simpa using ⟨by decide, plain.newline⟩⟩
  · exact plain

theorem loadLine_tagLine (engine : ContractEngine) (tag : Char) (texts : List Bytes)
    (other : byte tag ≠ bar) :
    loadLine engine (tagLine tag texts) = loadTagged engine [byte tag] (some (fields texts)) := by
  have cut : getline bar (some (tagLine tag texts)) [] = ([byte tag], some (fields texts), true) :=
    getline_append bar [byte tag] (fields texts) [] (by simpa using other.symm)
  have filled : (tagLine tag texts).isEmpty = false := rfl
  simp only [loadLine, filled, cut, Bool.false_eq_true, ↓reduceIte]

variable {id : Bytes} {engine : ContractEngine}

theorem loadLine_contract (engine : ContractEngine) (named : PlainField id) (some' : id ≠ [])
    (contract : Contract) (owner : PlainField contract.owner) (code : newline ∉ contract.code) :
    loadLine engine (contractLine id contract) =
      .ok (engine.put id ⟨contract.owner, contract.code, ∅⟩) := by
  have clean : CleanFields [id, contract.owner] contract.code :=
    ⟨by simpa using ⟨named, owner⟩, code⟩
  have read : readFields 2 (some (fields [id, contract.owner, contract.code])) =
    [id, contract.owner, contract.code] := clean.readFields
  rw [contractLine, loadLine_tagLine _ _ _ (by decide), loadTagged, if_pos (by rfl), read]
  simp [some']

theorem loadLine_key (engine : ContractEngine) (named : PlainField id) (some' : id ≠ [])
    (contract : Contract) (entry : Bytes × Int64) (key : PlainField entry.1) :
    loadLine (engine.put id contract) (keyLine id entry) =
      .ok (engine.put id (contract.set entry.1 entry.2)) := by
  have clean : CleanFields [id, entry.1] (integer entry.2.toInt) :=
    ⟨by simpa using ⟨named, key⟩, (integer_plain _).newline⟩
  have read : readFields 2 (some (fields [id, entry.1, integer entry.2.toInt])) =
    [id, entry.1, integer entry.2.toInt] := clean.readFields
  rw [keyLine, loadLine_tagLine _ _ _ (by decide), loadTagged, if_neg (by decide), if_pos (by rfl), read]
  simp [some', stoll_integer, lookup_put, put_put]

/-! ### The whole file -/

/-- What is read of a contract. -/
def restored (order : Enumeration) (entry : Bytes × Contract) : Contract :=
  ⟨entry.2.owner, entry.2.code, putAll ∅ (order.keys entry.1)⟩

theorem readLines_keys (engine : ContractEngine) (named : PlainField id) (some' : id ≠ [])
    (contract : Contract) (keys : List (Bytes × Int64)) (plain : ∀ entry ∈ keys, PlainField entry.1) :
    readLines loadLine (engine.put id contract) (keys.map (keyLine id)) =
      .ok (engine.put id { contract with kv := putAll contract.kv keys }) := by
  induction keys generalizing contract with
  | nil => rfl
  | cons entry rest ih =>
    rw [List.map_cons, readLines_cons, loadLine_key engine named some' contract entry (plain entry (by simp))]
    exact ih _ (fun other member => plain other (by simp [member]))

theorem readLines_contract (order : Enumeration) (engine : ContractEngine) (entry : Bytes × Contract)
    (named : PlainField entry.1) (some' : entry.1 ≠ []) (owner : PlainField entry.2.owner)
    (code : newline ∉ entry.2.code) (plain : ∀ key ∈ order.keys entry.1, PlainField key.1) :
    readLines loadLine engine (contractLines order entry) =
      .ok (engine.put entry.1 (restored order entry)) := by
  rw [contractLines, readLines_cons, loadLine_contract engine named some' entry.2 owner code]
  exact readLines_keys engine named some' _ _ plain

theorem foldl_put (order : Enumeration) (entries : List (Bytes × Contract)) (engine : ContractEngine) :
    (entries.foldl (fun engine entry => engine.put entry.1 (restored order entry)) engine).contracts =
      putAll engine.contracts (entries.map (fun entry => (entry.1, restored order entry))) := by
  induction entries generalizing engine with
  | nil => rfl
  | cons entry rest ih =>
    rw [List.foldl_cons, ih]
    rfl

/-- The names of contracts are not empty and do not contain what delimits them. -/
def NamedPlain (engine : ContractEngine) : Prop :=
  ∀ id contract, engine.contracts.lookup id = some contract → PlainField id ∧ id ≠ []

theorem reached_namedPlain (P : Primitives) (operations : List Operation) :
    NamedPlain (reached P operations) := by
  intro id contract found
  rw [(reached_named (P := P) operations id contract found).1]
  exact ⟨Privacy.strongHash_plain P _, Privacy.strongHash_ne_nil P _⟩

theorem roundTrips_of_plain (named : NamedPlain engine)
    (plain : PlainEngine engine) : RoundTrips engine := by
  intro order lists
  have known : ∀ entry ∈ order.contracts, engine.contracts.lookup entry.1 = some entry.2 :=
    fun entry member => (lists.contracts.entries entry.1 entry.2).mp member
  have keys : ∀ entry ∈ order.contracts, ∀ key ∈ order.keys entry.1, PlainField key.1 := by
    intro entry member key listed
    have found := ((lists.keys entry.1 entry.2 (known entry member)).entries key.1 key.2).mp listed
    exact (plain entry.1 entry.2 (known entry member)).keys key.1 key.2 found
  have whole : ∀ text ∈ order.contracts.flatMap (contractLines order), newline ∉ text := by
    intro text member
    obtain ⟨entry, listed, isLine⟩ := List.mem_flatMap.mp member
    have texts := plain entry.1 entry.2 (known entry listed)
    have name := (named entry.1 entry.2 (known entry listed)).1
    rcases List.mem_cons.mp isLine with rfl | isKey
    · exact CleanFields.whole [entry.1, entry.2.owner] ⟨by simpa using ⟨name, texts.owner⟩,
        texts.code⟩ 'C' (by decide)
    · obtain ⟨key, inside, rfl⟩ := List.mem_map.mp isKey
      exact CleanFields.whole [entry.1, key.1]
        ⟨by simpa using ⟨name, keys entry listed key inside⟩, (integer_plain _).newline⟩ 'K' (by decide)
  have read := readLines_groups loadLine (contractLines order)
    (fun engine entry => engine.put entry.1 (restored order entry)) order.contracts .initial
    (fun between entry member => readLines_contract order between entry
      (named entry.1 entry.2 (known entry member)).1 (named entry.1 entry.2 (known entry member)).2
      (plain entry.1 entry.2 (known entry member)).owner
      (plain entry.1 entry.2 (known entry member)).code (keys entry member))
  refine ⟨_, (congrArg (readLines loadLine .initial) (splitLines_lines _ whole)).trans read, ?_⟩
  intro id
  rw [foldl_put]
  change Option.Rel SameContract _ ((putAll ∅ _).lookup id)
  rw [lists.contracts.lookup_map]
  cases found : engine.contracts.lookup id with
  | none => exact .none
  | some contract => exact .some ⟨rfl, rfl, fun key => (lists.keys id contract found).lookup key⟩

/-- What is loaded does not contain what delimits it. -/
theorem loadLine_plain {left : ContractEngine} (plain : PlainEngine engine) (text : Bytes)
    (whole : newline ∉ text) (loaded : loadLine engine text = .ok left) : PlainEngine left := by
  unfold loadLine at loaded
  split at loaded
  · exact Except.ok.inj loaded ▸ plain
  have rest : Avoids newline (getline bar (some text) []).2.1 :=
    (getline_avoids bar newline (some text) [] (fun other same => Option.some.inj same ▸ whole) (by simp)).2
  unfold loadTagged at loaded
  split at loaded
  · split at loaded
    · rename_i id owner code read
      have clean : CleanFields [id, owner] code := readFields_split _ rest read
      split at loaded
      · exact nomatch loaded
      · obtain rfl := Except.ok.inj loaded
        intro tested contract found
        rw [lookup_put] at found
        split at found
        · obtain rfl := Option.some.inj found
          exact ⟨clean.front owner (by simp), clean.last, fun key number found => by simp at found⟩
        · exact plain tested contract found
    · exact Except.ok.inj loaded ▸ plain
  · split at loaded
    · split at loaded
      · rename_i id key value read
        have clean : CleanFields [id, key] value := readFields_split _ rest read
        split at loaded
        · exact nomatch loaded
        · split at loaded
          · exact nomatch loaded
          · rename_i number _
            obtain rfl := Except.ok.inj loaded
            have before : PlainContract ((engine.contracts.lookup id).getD ⟨[], [], ∅⟩) := by
              cases found : engine.contracts.lookup id with
              | none =>
                exact ⟨⟨by simp, by simp⟩, by simp, fun key number found => by simp at found⟩
              | some contract => exact plain id contract found
            intro tested contract found
            rw [lookup_put] at found
            split at found
            · obtain rfl := Option.some.inj found
              refine ⟨before.owner, before.code, fun other number found => ?_⟩
              rw [Contract.set, lookup_insert] at found
              split at found
              · rename_i same
                exact same ▸ clean.front key (by simp)
              · exact before.keys other number found
            · exact plain tested contract found
      · exact Except.ok.inj loaded ▸ plain
    · exact Except.ok.inj loaded ▸ plain

theorem loadState_plain {state : Bytes} {loaded : ContractEngine} (read : loadState state = .ok loaded) :
    PlainEngine loaded := by
  refine readLines_keeps loadLine PlainEngine (splitLines state) ?_ .initial loaded ?_ read
  · exact fun engine left text member plain done =>
      loadLine_plain plain text (splitLines_absent state text member) done
  · intro id contract found
    simp [ContractEngine.initial] at found

/-- Every engine is enumerated in some order. -/
theorem exists_enumeration (engine : ContractEngine) : ∃ order, Enumerates order engine := by
  let keys : Bytes → List (Bytes × Int64) := fun id =>
    ((engine.contracts.lookup id).getD ⟨[], [], ∅⟩).kv.entries.map (fun entry => (entry.1, entry.2))
  refine ⟨⟨_, keys⟩, lists_entries engine.contracts, fun id contract found => ?_⟩
  have own : keys id = contract.kv.entries.map (fun entry => (entry.1, entry.2)) := by
    simp only [keys, found, Option.getD_some]
  change Lists (keys id) contract.kv
  rw [own]
  exact lists_entries contract.kv

/-- The state of an engine that deployments and calls reach comes back exactly when it is plain. -/
theorem contract_state_restored_iff (P : Primitives) (operations : List Operation) :
    RoundTrips (reached P operations) ↔ PlainEngine (reached P operations) := by
  constructor
  · intro returns
    obtain ⟨order, lists⟩ := exists_enumeration (reached P operations)
    obtain ⟨loaded, read, same⟩ := returns order lists
    have plain := loadState_plain read
    intro id contract found
    have related := same id
    rw [found] at related
    cases there : loaded.contracts.lookup id with
    | none =>
      rw [there] at related
      exact nomatch related
    | some other =>
      rw [there] at related
      cases related with
      | some alike =>
        obtain ⟨owner, code, keys⟩ := plain id other there
        exact ⟨alike.owner ▸ owner, alike.code ▸ code,
          fun key number held => keys key number ((alike.kv key).trans held)⟩
  · exact roundTrips_of_plain (reached_namedPlain P operations)

end Contracts

end Addition
