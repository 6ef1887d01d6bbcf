import Addition.Foundations.Runs
import Addition.PrivacyState
import Addition.Tokens

/-!
# Contracts

A contract lies under the digest of its owner and code and keeps numbers under keys. Deploying
puts a contract without numbers there, whatever was there before. Calls change the numbers of one
contract, or ask the engines that the contracts are bound to. Owner and code are joined by a bar
that either may contain, so different deployments can meet under one digest.

Sums of stored numbers wrap, where the source leaves an overflow undefined.
-/

namespace Addition

namespace Contracts

open ByteStrings Checked FiniteTables Runs

/-- `Contract`: an owner, a code and the values under their keys. -/
structure Contract where
  owner : Bytes
  code : Bytes
  kv : Table Bytes Int64

/-- `ContractEngine`: the deployed contracts. -/
structure ContractEngine where
  contracts : Table Bytes Contract

/-- The engine without contracts. -/
def ContractEngine.initial : ContractEngine := ⟨∅⟩

/-- The engines that `bind_token_engine` and `bind_privacy_pool` named, as they are during a call. -/
structure Bindings where
  tokens : Option Tokens.TokenEngine
  privacy : Option Privacy.PrivacyPool

/-- `std::to_string` of a signed number. -/
def integer (value : Int) : Bytes :=
  if value < 0 then byte '-' :: decimal value.natAbs else decimal value.natAbs

variable (P : Primitives)

/-! ### Deploying -/

/-- What is hashed to the name of a contract. -/
def deployment (owner code : Bytes) : Bytes := owner ++ byte '|' :: code

/-- The name of a contract. -/
def contractId (owner code : Bytes) : Bytes := strongHash P (deployment owner code)

/-- `deploy`. -/
def deploy (engine : ContractEngine) (owner code : Bytes) : Bytes × ContractEngine :=
  (contractId P owner code, ⟨engine.contracts.insert (contractId P owner code) ⟨owner, code, ∅⟩⟩)

/-! ### Calling -/

/-- A contract in its place. -/
def ContractEngine.put (engine : ContractEngine) (id : Bytes) (contract : Contract) : ContractEngine :=
  ⟨engine.contracts.insert id contract⟩

/-- What is stored under a key, or 0. -/
def Contract.number (contract : Contract) (key : Bytes) : Int64 := (contract.kv.lookup key).getD 0

/-- A value is stored under its key. -/
def Contract.set (contract : Contract) (key : Bytes) (value : Int64) : Contract :=
  { contract with kv := contract.kv.insert key value }

/-- A text that is cut at as many colons from the front, when it has them. -/
def colonParts : Nat → Bytes → Option (List Bytes)
  | 0, text => some [text]
  | count + 1, text =>
    match text.span (· != byte ':') with
    | (_, []) => none
    | (front, _ :: rest) => (colonParts count rest).map (front :: ·)

/-- The parts of a text, when there are enough and none is empty. -/
def filledParts (count : Nat) (text : Bytes) : Option (List Bytes) :=
  (colonParts count text).filter (fun parts => parts.all (fun part => !part.isEmpty))

/-- The methods that ask the token engine. -/
def tokenBalance (bindings : Bindings) (key : Bytes) : Except String Bytes :=
  match bindings.tokens with
  | none => .error "token engine not bound"
  | some tokens =>
    match filledParts 1 key with
    | some [symbol, owner] => .ok (decimal (Tokens.balanceOf tokens symbol owner).toNat)
    | _ => .error "token_balance key format: <SYMBOL>:<OWNER>"

/-- The method `swap_quote`. -/
def swapQuote (bindings : Bindings) (key : Bytes) (value : Int64) : Except String Bytes :=
  match bindings.tokens with
  | none => .error "token engine not bound"
  | some tokens =>
    match filledParts 1 key with
    | some [tokenIn, tokenOut] =>
      if value ≤ 0 then .error "swap_quote value must be > 0"
      else (Tokens.quoteExactIn tokens tokenIn tokenOut value.toUInt64).map (fun out => decimal out.toNat)
    | _ => .error "swap_quote key format: <TOKEN_IN>:<TOKEN_OUT>"

/-- The methods that ask the privacy pool. Minting and spending with proofs were removed from it. -/
def zkPrivacyStatus (bindings : Bindings) : Except String Bytes :=
  match bindings.privacy with
  | none => .error "privacy pool not bound"
  | some privacy => .ok (ascii "verifier_configured=true native_verifier_mode=" ++
      Privacy.nativeVerifierModeText privacy.nativeVerifierMode ++
      ascii " privacy_mode=sha3_opening privacy_ok=true privacy_verifier=sha3_opening" ++
      ascii " claim=opening_not_zk privacy_zk_roadmap=zk_pending notes=" ++
      decimal privacy.notes.entries.length ++ ascii " used_nullifiers=" ++
      decimal privacy.usedNullifiers.card)

/-- The method `zk_mint`. -/
def zkMint (bindings : Bindings) (key : Bytes) (value : Int64) : Except String Bytes := do
  ensure bindings.privacy.isSome "privacy pool not bound"
  ensure (filledParts 4 key).isSome
    "zk_mint key format: <OWNER>:<COMMITMENT_HEX>:<NULLIFIER_HEX>:<PROOF_HEX>:<VK_HEX>"
  ensure (decide (0 < value)) "zk_mint value must be > 0"
  .error "mint_zk removed (was not zero-knowledge); use shielded (addz) transactions"

/-- The method `zk_spend`. -/
def zkSpend (bindings : Bindings) (key : Bytes) (value : Int64) : Except String Bytes := do
  ensure bindings.privacy.isSome "privacy pool not bound"
  ensure (filledParts 5 key).isSome
    "zk_spend key format: <OWNER>:<NOTE_ID>:<RECIPIENT>:<NULLIFIER_HEX>:<PROOF_HEX>:<VK_HEX>"
  ensure (decide (0 < value)) "zk_spend value must be > 0"
  .error "spend_zk removed (was not zero-knowledge); use shielded (addz) transactions"

/-- `call`. -/
def call (engine : ContractEngine) (bindings : Bindings) (contractId method key : Bytes)
    (value : Int64) : Except String Bytes × ContractEngine :=
  match engine.contracts.lookup contractId with
  | none => (.error "contract not found", engine)
  | some contract =>
    if method = ascii "set" then (.ok (ascii "ok"), engine.put contractId (contract.set key value))
    else if method = ascii "add" then
      let sum := contract.number key + value
      (.ok (integer sum.toInt), engine.put contractId (contract.set key sum))
    else if method = ascii "get" then (.ok (integer (contract.number key).toInt), engine)
    else if method = ascii "token_balance" then (tokenBalance bindings key, engine)
    else if method = ascii "swap_quote" then (swapQuote bindings key value, engine)
    else if method = ascii "zk_privacy_status" then (zkPrivacyStatus bindings, engine)
    else if method = ascii "zk_mint" then (zkMint bindings key value, engine)
    else if method = ascii "zk_spend" then (zkSpend bindings key value, engine)
    else (.error "unsupported method", engine)

/-! ### Runs -/

/-- The operations of the engine. -/
inductive Operation
  | deploy (owner code : Bytes)
  | call (bindings : Bindings) (contractId method key : Bytes) (value : Int64)

/-- The outcome of an operation, and the engine after it. -/
def perform (engine : ContractEngine) : Operation → Except String Bytes × ContractEngine
  | .deploy owner code => (.ok (deploy P engine owner code).1, (deploy P engine owner code).2)
  | .call bindings contractId method key value => call engine bindings contractId method key value

/-- The engine after an operation. -/
def step (engine : ContractEngine) (operation : Operation) : ContractEngine :=
  (perform P engine operation).2

/-- The engine after operations one after the other. -/
def reached (operations : List Operation) : ContractEngine := operations.foldl (step P) .initial

end Contracts

end Addition
