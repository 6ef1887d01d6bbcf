import Addition.Foundations.FiniteTables
import Addition.Foundations.Runs
import Addition.Primitives

/-!
# The bridge engine

Each registered chain has a pool of locked collateral, balances of wrapped coins, receipts
and the identifiers of the attestations that were used. Minting and releasing come bare and
with the signature of the chain's attestor; the two attested calls differ only in their tags
and in what they carry out. Looking a balance up for writing leaves an empty entry behind,
also in a call that fails.
-/

namespace Addition

namespace Bridge

open ByteStrings Checked FiniteTables

/-- `ChainState`: what one foreign chain holds. -/
structure ChainState where
  lockedPool : UInt64
  attestorPubkey : Bytes
  wrappedBalances : Table Bytes UInt64
  receipts : List Bytes
  usedAttestations : Finset Bytes

/-- `ChainState{}`. -/
def ChainState.empty : ChainState := ⟨0, [], ∅, [], ∅⟩

/-- `BridgeEngine`: the registered chains. -/
structure BridgeEngine where
  chains : Table Bytes ChainState

/-- The engine without chains. -/
def BridgeEngine.initial : BridgeEngine := ⟨∅⟩

/-- The state of a chain is replaced. -/
def BridgeEngine.put (engine : BridgeEngine) (chain : Bytes) (state : ChainState) : BridgeEngine :=
  ⟨engine.chains.insert chain state⟩

/-- What `wrapped_balances[user]` reads. -/
def ChainState.balance (state : ChainState) (user : Bytes) : UInt64 :=
  (state.wrappedBalances.lookup user).getD 0

/-- The wrapped balance of a user is replaced. -/
def ChainState.setBalance (state : ChainState) (user : Bytes) (amount : UInt64) : ChainState :=
  { state with wrappedBalances := state.wrappedBalances.insert user amount }

/-- `register_chain`. -/
def registerChain (engine : BridgeEngine) (chain : Bytes) : Except String Unit × BridgeEngine :=
  if chain.isEmpty then (.error "chain empty", engine)
  else
    match engine.chains.lookup chain with
    | some _ => (.ok (), engine)
    | none => (.ok (), engine.put chain .empty)

/-- `set_attestor_key`. -/
def setAttestorKey (engine : BridgeEngine) (chain pubkeyHex : Bytes) :
    Except String Unit × BridgeEngine :=
  if chain.isEmpty || pubkeyHex.isEmpty then (.error "chain/pubkey empty", engine)
  else
    match engine.chains.lookup chain with
    | none => (.error "chain not registered", engine)
    | some state => (.ok (), engine.put chain { state with attestorPubkey := pubkeyHex })

/-- `chain|user|amount`. -/
def payload (chain user : Bytes) (amount : UInt64) : Bytes :=
  chain ++ ascii "|" ++ user ++ ascii "|" ++ decimal amount.toNat

variable (P : Primitives)

/-- `lock`. -/
def lock (engine : BridgeEngine) (chain user : Bytes) (amount : UInt64) :
    Except String Bytes × BridgeEngine :=
  if amount = 0 ∨ user.isEmpty then (.error "invalid lock params", engine)
  else
    match engine.chains.lookup chain with
    | none => (.error "chain not registered", engine)
    | some state =>
      if overflows state.lockedPool amount then (.error "locked pool overflow", engine)
      else
        let receipt := strongHash P (payload chain user amount)
        (.ok receipt, engine.put chain
          { state with
            lockedPool := state.lockedPool + amount
            receipts := state.receipts ++ [receipt] })

/-- `mint_wrapped`. The amount is compared with the whole pool. -/
def mintWrapped (engine : BridgeEngine) (chain user : Bytes) (amount : UInt64) :
    Except String Unit × BridgeEngine :=
  match engine.chains.lookup chain with
  | none => (.error "chain not registered", engine)
  | some state =>
    if amount = 0 ∨ user.isEmpty then (.error "invalid mint params", engine)
    else if state.lockedPool < amount then
      (.error "insufficient locked collateral for mint", engine)
    else
      let wrapped := state.balance user
      if overflows wrapped amount then
        (.error "wrapped balance overflow", engine.put chain (state.setBalance user wrapped))
      else (.ok (), engine.put chain (state.setBalance user (wrapped + amount)))

/-- `burn_wrapped`. -/
def burnWrapped (engine : BridgeEngine) (chain user : Bytes) (amount : UInt64) :
    Except String Unit × BridgeEngine :=
  match engine.chains.lookup chain with
  | none => (.error "chain not registered", engine)
  | some state =>
    let balance := state.balance user
    if balance < amount ∨ amount = 0 then
      (.error "insufficient wrapped balance", engine.put chain (state.setBalance user balance))
    else (.ok (), engine.put chain (state.setBalance user (balance - amount)))

/-- `release`. -/
def release (engine : BridgeEngine) (chain user : Bytes) (amount : UInt64) :
    Except String Unit × BridgeEngine :=
  match engine.chains.lookup chain with
  | none => (.error "chain not registered", engine)
  | some state =>
    if state.lockedPool < amount ∨ amount = 0 ∨ user.isEmpty then
      (.error "insufficient locked pool", engine)
    else
      let wrapped := state.balance user
      if wrapped < amount then
        (.error "insufficient wrapped balance for release",
          engine.put chain (state.setBalance user wrapped))
      else
        (.ok (), engine.put chain
          { state.setBalance user (wrapped - amount) with
            lockedPool := state.lockedPool - amount })

/-! ### Attested calls -/

/-- The two calls that an attestor signs. -/
inductive Kind
  | mint
  | release
deriving DecidableEq

/-- The tag of the signed message. -/
def Kind.messageTag : Kind → Bytes
  | .mint => ascii "bridge_mint|"
  | .release => ascii "bridge_release|"

/-- The tag of the attestation identifier. -/
def Kind.attestationTag : Kind → Bytes
  | .mint => ascii "mint_att|"
  | .release => ascii "release_att|"

/-- What the call carries out. -/
def Kind.act : Kind → BridgeEngine → Bytes → Bytes → UInt64 → Except String Unit × BridgeEngine
  | .mint => mintWrapped
  | .release => Bridge.release

/-- The identifier under which an attestation is remembered: a digest of its text. -/
def attestationId (kind : Kind) (signed attestation : Bytes) : Bytes :=
  strongHash P (kind.attestationTag ++ signed ++ ascii "|" ++ attestation)

/-- Forget an attestation. -/
def BridgeEngine.forget (engine : BridgeEngine) (chain id : Bytes) : BridgeEngine :=
  match engine.chains.lookup chain with
  | none => engine
  | some state => engine.put chain { state with usedAttestations := state.usedAttestations.erase id }

/-- The body of both attested calls. -/
def attested (kind : Kind) (engine : BridgeEngine) (chain user : Bytes) (amount : UInt64)
    (attestation : Bytes) : Except String Unit × BridgeEngine :=
  match engine.chains.lookup chain with
  | none => (.error "chain not registered", engine)
  | some state =>
    if state.attestorPubkey.isEmpty then (.error "attestor key not configured", engine)
    else if verifyMessageSignatureHybridUncached P state.attestorPubkey
        (kind.messageTag ++ payload chain user amount) attestation = false then
      (.error "invalid attestation signature", engine)
    else
      let id := attestationId P kind (payload chain user amount) attestation
      if id ∈ state.usedAttestations then (.error "attestation replay", engine)
      else
        let remembered := engine.put chain
          { state with usedAttestations := insert id state.usedAttestations }
        match kind.act remembered chain user amount with
        | (.error message, left) => (.error message, left.forget chain id)
        | (.ok (), left) => (.ok (), left)

/-- `mint_wrapped_attested`. -/
def mintWrappedAttested := attested P .mint

/-- `release_attested`. -/
def releaseAttested := attested P .release

/-! ### Runs -/

/-- The operations of the engine. -/
inductive Operation
  | registerChain (chain : Bytes)
  | setAttestorKey (chain pubkeyHex : Bytes)
  | lock (chain user : Bytes) (amount : UInt64)
  | mintWrapped (chain user : Bytes) (amount : UInt64)
  | mintWrappedAttested (chain user : Bytes) (amount : UInt64) (attestation : Bytes)
  | burnWrapped (chain user : Bytes) (amount : UInt64)
  | release (chain user : Bytes) (amount : UInt64)
  | releaseAttested (chain user : Bytes) (amount : UInt64) (attestation : Bytes)
deriving DecidableEq

/-- One attested call that succeeded. -/
structure Use where
  kind : Kind
  chain : Bytes
  user : Bytes
  amount : UInt64
  attestation : Bytes
deriving DecidableEq

/-- The octets of an attestation behind its prefix, however they are spelled. -/
def signatureOctets (attestation : Bytes) : Bytes := fromHex (attestation.drop 3)

/-- What the attestor signed and the signature. -/
def Use.signature (use : Use) : Bytes × Bytes :=
  (use.kind.messageTag ++ payload use.chain use.user use.amount, signatureOctets use.attestation)

/-- The attested call that an operation is. -/
def Operation.use : Operation → Option Use
  | .mintWrappedAttested chain user amount attestation => some ⟨.mint, chain, user, amount, attestation⟩
  | .releaseAttested chain user amount attestation => some ⟨.release, chain, user, amount, attestation⟩
  | _ => none

/-- One call: whether it succeeded, and the engine after it. -/
def perform (engine : BridgeEngine) : Operation → Bool × BridgeEngine
  | .registerChain chain => (registerChain engine chain).map Except.isOk id
  | .setAttestorKey chain pubkeyHex => (setAttestorKey engine chain pubkeyHex).map Except.isOk id
  | .lock chain user amount => (lock P engine chain user amount).map Except.isOk id
  | .mintWrapped chain user amount => (mintWrapped engine chain user amount).map Except.isOk id
  | .mintWrappedAttested chain user amount attestation =>
    (mintWrappedAttested P engine chain user amount attestation).map Except.isOk id
  | .burnWrapped chain user amount => (burnWrapped engine chain user amount).map Except.isOk id
  | .release chain user amount => (release engine chain user amount).map Except.isOk id
  | .releaseAttested chain user amount attestation =>
    (releaseAttested P engine chain user amount attestation).map Except.isOk id

/-- An engine and the attested calls that succeeded on it. -/
structure History where
  engine : BridgeEngine
  uses : List Use

/-- The history before the first operation. -/
def History.initial : History := ⟨.initial, []⟩

/-- An operation is performed and its outcome is noted. -/
def History.step (history : History) (operation : Operation) : History :=
  let outcome := perform P history.engine operation
  ⟨outcome.2, if outcome.1 then operation.use.toList ++ history.uses else history.uses⟩

/-- The wrapped coins of a chain, as an exact sum. -/
def ChainState.outstanding (state : ChainState) : Nat :=
  measure (fun _ amount => amount.toNat) state.wrappedBalances

end Bridge

end Addition
