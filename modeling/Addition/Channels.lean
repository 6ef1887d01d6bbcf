import Addition.Foundations.TextLines
import Addition.Foundations.FiniteTables
import Addition.Scripts

/-!
# Payment channels

One endpoint of a channel as `channel.cpp` keeps it: the agreed state, the state of an
update in flight, what the peer has disclosed about its revocations, and the states
the endpoint has signed for the peer and can punish. Both parties hold commitments
with the number of a state as nonce; the outputs of the holder of a commitment can be
taken by the other party who knows the holder's secret for that number.

A state number is a natural number, since no channel lives through 2^64 updates;
amounts are words and add as words.
-/

namespace Addition.Channels

open ByteStrings Checked FiniteTables TextLines Script

/-- `Htlc`: a conditional payment inside of a channel. -/
structure Htlc where
  id : UInt64
  offeredByA : Bool
  amount : UInt64
  paymentHash : Bytes
  expiry : UInt64
deriving DecidableEq

/-- `State`: the balances and the HTLCs under one number. The number counts the updates one by
one; `Readable`, which every state of a run meets, keeps it below the 2^64 of the source's word. -/
structure State where
  n : Nat
  balA : UInt64
  balB : UInt64
  htlcs : List Htlc
  nextHtlcId : UInt64
deriving DecidableEq

/-- The terms of a channel. Party A funds it and pays the commitment fee. -/
structure Info where
  addrA : Bytes
  addrB : Bytes
  capacity : UInt64
  fundingTxid : Bytes
  fundingVout : UInt32
  toSelfDelay : UInt64
  fee : UInt64
deriving DecidableEq

/-- A wallet. The private key is present as what `sign_message_hybrid` computes with it. -/
structure WalletKeys where
  publicKey : Bytes
  address : Bytes
  signMessageHybrid : Bytes → Bytes

variable (P : Primitives)

/-! ### Scripts and commitments -/

/-- `to_local_script`. -/
def toLocalScript (holder other revHash : Bytes) (delay : UInt64) : Bytes :=
  ascii "or(and(pk(" ++ other ++ ascii "),sha3(" ++ revHash ++ ascii ")),and(pk(" ++ holder ++
    ascii "),older(" ++ decimal delay.toNat ++ ascii ")))"

/-- `htlc_script`. -/
def htlcScript (revoker offerer receiver revHash paymentHash : Bytes) (expiry : UInt64) : Bytes :=
  ascii "or(and(pk(" ++ revoker ++ ascii "),sha3(" ++ revHash ++ ascii ")),or(and(pk(" ++ receiver ++
    ascii "),sha3(" ++ paymentHash ++ ascii ")),and(pk(" ++ offerer ++ ascii "),after(" ++
    decimal expiry.toNat ++ ascii "))))"

/-- `htlc_sum`. -/
def htlcSum (state : State) : UInt64 := state.htlcs.foldl (fun total htlc => total + htlc.amount) 0

/-- The party that offered an HTLC, and the one that receives it. -/
def offererOf (info : Info) (htlc : Htlc) : Bytes := if htlc.offeredByA then info.addrA else info.addrB
/-- The party that an HTLC pays. -/
def receiverOf (info : Info) (htlc : Htlc) : Bytes := if htlc.offeredByA then info.addrB else info.addrA

/-- The output of an HTLC on a commitment whose revocation the other party may use. -/
def htlcOutput (info : Info) (other revHash : Bytes) (htlc : Htlc) : TxOutput :=
  ⟨scriptAddress P (htlcScript other (offererOf info htlc) (receiverOf info htlc) revHash
    htlc.paymentHash htlc.expiry), htlc.amount⟩

/-- The amounts of the holder of a commitment and of the other party. -/
def commitmentAmounts (info : Info) (holderA : Bool) (state : State) : UInt64 × UInt64 :=
  let amountA := state.balA - info.fee
  if holderA then (amountA, state.balB) else (state.balB, amountA)

/-- `commitment_tx`. -/
def commitmentTx (info : Info) (holderA : Bool) (state : State) (revHash : Bytes) : Transaction :=
  let holder := if holderA then info.addrA else info.addrB
  let other := if holderA then info.addrB else info.addrA
  let (holderAmount, otherAmount) := commitmentAmounts info holderA state
  { inputs := [⟨info.fundingTxid, info.fundingVout, []⟩]
    outputs :=
      (if holderAmount ≠ 0 then
        [⟨scriptAddress P (toLocalScript holder other revHash info.toSelfDelay), holderAmount⟩]
      else []) ++
      (if otherAmount ≠ 0 then [⟨other, otherAmount⟩] else []) ++
      state.htlcs.map (htlcOutput P info other revHash)
    signer := []
    signerPubkey := []
    signature := []
    fee := info.fee
    nonce := UInt64.ofNat state.n
    shielded := [] }

/-! ### One endpoint -/

/-- `Revoke`: the secret of a number, and the hash of the number two ahead. A number that is
accepted has a known hash, and each acceptance adds the one two above it, so no run of less than
2^62 steps wraps. -/
structure Revoke where
  revokedN : Nat
  secret : Bytes
  nextHash : Bytes
deriving DecidableEq

/-- The members of `Channel`. The tables from state numbers hold the peer's revocation
hashes, the secrets it has revealed and the states that were agreed before the current
one; the list holds the states that were signed for the peer and rolled back. -/
structure Channel where
  keys : WalletKeys
  remotePub : Bytes
  isA : Bool
  info : Info
  seed : Bytes
  cur : State
  pending : Option State
  remoteSigCur : Bytes
  remoteSigPending : Option Bytes
  remoteHashes : Table Nat Bytes
  remoteSecrets : Table Nat Bytes
  history : Table Nat State
  abandoned : List State

/-- `Channel::rev_secret`. -/
def Channel.revSecret (ch : Channel) (n : Nat) : Bytes :=
  strongHash P (ascii "ADD/chan/rev|" ++ ch.seed ++ ascii "|" ++ decimal n)

/-- `Channel::rev_hash`. -/
def Channel.revHash (ch : Channel) (n : Nat) : Bytes := hashPreimageHex P (ch.revSecret P n)

/-- `Channel::remote_address`. -/
def Channel.remoteAddress (ch : Channel) : Bytes := if ch.isA then ch.info.addrB else ch.info.addrA

/-- `Channel::validate_next`. -/
def validateNext (ch : Channel) (next : State) : Except String Unit := do
  ensure ch.pending.isNone "update already in flight"
  ensure (decide (next.n = ch.cur.n + 1)) "bad state number"
  ensure (ch.remoteHashes.lookup next.n).isSome "awaiting remote revocation"
  ensure (decide (ch.info.fee ≤ next.balA)) "funder cannot pay commitment fee"
  ensure (decide (next.htlcs.length ≤ 16)) "too many htlcs"
  ensure (decide (next.balA + next.balB + htlcSum next = ch.info.capacity))
    "state does not conserve capacity"
  ensure (next.htlcs.all (fun htlc => htlc.amount != 0 && htlc.paymentHash.length == 128)) "bad htlc"

/-- The peer's revocation hash for a number, or 128 zeros when there is none. -/
def Channel.hashFor (ch : Channel) (n : Nat) : Bytes :=
  (ch.remoteHashes.lookup n).getD (List.replicate 128 (byte '0'))

/-- `Channel::sign_remote_commitment`: the signature part. -/
def signRemoteCommitment (ch : Channel) (next : State) : Bytes :=
  ch.keys.signMessageHybrid
    (sighash P (commitmentTx P ch.info (!ch.isA) next (ch.hashFor next.n)))

/-- `Channel::receive_commit_sig`. The first signature makes the initial state current. -/
def receiveCommitSig (ch : Channel) (next : State) (sig : Bytes) : Except String Channel := do
  let initial := decide (next.n = 0) && ch.remoteSigCur.isEmpty
  onlyIf (!initial) (validateNext ch next)
  ensure (verifyMessageSignatureHybridUncached P ch.remotePub
    (sighash P (commitmentTx P ch.info ch.isA next (ch.revHash P next.n))) sig)
    "invalid commitment signature"
  if initial then pure { ch with cur := next, remoteSigCur := sig }
  else pure { ch with pending := some next, remoteSigPending := some sig }

/-- `Channel::revoke_and_advance`, called with a pending state. -/
def revokeAndAdvance (ch : Channel) (pending : State) : Revoke × Channel :=
  (⟨ch.cur.n, ch.revSecret P ch.cur.n, ch.revHash P (ch.cur.n + 2)⟩,
    { ch with
      history := ch.history.insert ch.cur.n ch.cur
      cur := pending
      remoteSigCur := ch.remoteSigPending.getD []
      pending := none
      remoteSigPending := none })

/-- `Channel::last_revoke`. -/
def lastRevoke (ch : Channel) : Revoke :=
  let n := ch.cur.n - 1
  ⟨n, ch.revSecret P n, ch.revHash P (n + 2)⟩

/-- `Channel::drop_pending`. -/
def dropPending (ch : Channel) : Channel :=
  { ch with
    abandoned := ch.abandoned ++ ch.pending.toList
    pending := none
    remoteSigPending := none }

/-- `Channel::receive_revoke`. -/
def receiveRevoke (ch : Channel) (revoke : Revoke) : Except String Channel := do
  ensure (ch.remoteHashes.lookup revoke.revokedN == some (hashPreimageHex P revoke.secret))
    "revocation secret does not match"
  ensure (decide (revoke.nextHash.length = 128)) "bad next hash"
  pure { ch with
    remoteSecrets := ch.remoteSecrets.insert revoke.revokedN revoke.secret
    remoteHashes := ch.remoteHashes.insert (revoke.revokedN + 2) revoke.nextHash }

/-- `Channel::has_remote_secret`. -/
def hasRemoteSecret (ch : Channel) (n : Nat) (secret : Bytes) : Bool :=
  ch.remoteSecrets.lookup n == some secret

/-! ### Punishment -/

/-- The first output of a transaction to an address that is not taken yet. -/
def freeOutput (tx : Transaction) (taken : List Nat) (address : Bytes) : Option Nat :=
  (List.range tx.outputs.length).find? (fun index =>
    !taken.contains index && ((tx.outputs.map TxOutput.recipient)[index]? == some address))

/-- The outputs of a broadcast commitment that its revocation opens, with their scripts:
`find_output` on the holder's output and then one output for each HTLC. -/
def penaltyOutputs (ch : Channel) (broadcast : Transaction) (state : State) (revHash : Bytes) :
    List (Nat × Bytes) :=
  let own := toLocalScript ch.remoteAddress ch.keys.address revHash ch.info.toSelfDelay
  let first := (freeOutput broadcast [] (scriptAddress P own)).toList.map (fun index => (index, own))
  state.htlcs.foldl (fun outs htlc =>
    let script := htlcScript ch.keys.address (offererOf ch.info htlc) (receiverOf ch.info htlc) revHash
      htlc.paymentHash htlc.expiry
    match freeOutput broadcast (outs.map Prod.fst) (scriptAddress P script) with
    | some index => outs ++ [(index, script)]
    | none => outs) first

/-- The agreed state and the rolled-back states of a number. -/
def Channel.candidates (ch : Channel) (n : Nat) : List State :=
  (ch.history.lookup n).toList ++ ch.abandoned.filter (fun state => state.n = n)

/-- The amount of an output, zero when there is no such output. -/
def amountAt (tx : Transaction) (index : Nat) : UInt64 :=
  ((tx.outputs.map TxOutput.amount)[index]?).getD 0

/-- The transaction that spends the opened outputs of a commitment to the endpoint. -/
def justiceTx (ch : Channel) (broadcast : Transaction) (outs : List (Nat × Bytes)) (secret : Bytes)
    (total : UInt64) : Transaction :=
  let txid := hashTransaction P broadcast
  let bare : Transaction :=
    { inputs := outs.map (fun out => ⟨txid, UInt32.ofNat out.1, []⟩)
      outputs := [⟨ch.keys.address, total - ch.info.fee⟩]
      signer := []
      signerPubkey := []
      signature := []
      fee := ch.info.fee
      nonce := ((2 : UInt64) <<< 40) + broadcast.nonce
      shielded := [] }
  let sig := ch.keys.signMessageHybrid (sighash P bare)
  { bare with inputs := outs.map (fun out => ⟨txid, UInt32.ofNat out.1,
      encodeWitness ⟨out.2, [(ch.keys.publicKey, sig)], [secret]⟩⟩) }

/-- `Channel::penalty_for`. -/
def penaltyFor (ch : Channel) (broadcast : Transaction) : Option Transaction := do
  let n := broadcast.nonce.toNat
  let secret ← ch.remoteSecrets.lookup n
  let revHash ← ch.remoteHashes.lookup n
  let state ← (ch.candidates n).find? (fun candidate =>
    hashTransaction P (commitmentTx P ch.info (!ch.isA) candidate revHash) ==
      hashTransaction P broadcast)
  let outs := penaltyOutputs P ch broadcast state revHash
  let total := (outs.map (fun out => amountAt broadcast out.1)).sum
  if outs.isEmpty then none
  else if total ≤ ch.info.fee then none
  else some (justiceTx P ch broadcast outs secret total)

/-! ### States as texts -/

/-- One HTLC of `encode_state`. -/
def encodeHtlc (htlc : Htlc) : Bytes :=
  decimal htlc.id.toNat ++ ascii "," ++ (if htlc.offeredByA then ascii "1" else ascii "0") ++
    ascii "," ++ decimal htlc.amount.toNat ++ ascii "," ++ htlc.paymentHash ++ ascii "," ++
    decimal htlc.expiry.toNat

/-- `encode_state`. -/
def encodeState (state : State) : Bytes :=
  decimal state.n ++ ascii ":" ++ decimal state.balA.toNat ++ ascii ":" ++
    decimal state.balB.toNat ++ ascii ":" ++ decimal state.nextHtlcId.toNat ++ ascii ":" ++
    List.intercalate (ascii ";") (state.htlcs.map encodeHtlc)

/-- One HTLC of `decode_state`. -/
def decodeHtlc (text : Bytes) : Option Htlc := do
  let field := fun stream =>
    let (value, left, present) := getline (byte ',') stream []
    if present then some (value, left) else none
  let (id, stream) ← field (some text)
  let (offered, stream) ← field stream
  let (amount, stream) ← field stream
  let (paymentHash, stream) ← field stream
  let (expiry, _) ← field stream
  let id ← stoull id
  let amount ← stoull amount
  let expiry ← stoull expiry
  pure ⟨id, offered == ascii "1", amount, paymentHash, expiry⟩

/-- `decode_state`. -/
def decodeState (text : Bytes) : Option State := do
  let parts := splitAll (byte ':') text
  let parts := if parts.length = 4 then parts ++ [[]] else parts
  match parts with
  | [n, balA, balB, nextHtlcId, htlcs] =>
    let n ← stoull n
    let balA ← stoull balA
    let balB ← stoull balB
    let nextHtlcId ← stoull nextHtlcId
    let htlcs ← (splitAll (byte ';') htlcs).mapM decodeHtlc
    pure ⟨n.toNat, balA, balB, htlcs, nextHtlcId⟩
  | _ => none

/-! ### Classification of a peer's update -/

/-- What an update of the peer does, as `classify_peer_update` tells it. -/
inductive PeerUpdate
  | pay
  | addHtlc (htlc : Htlc)
  | settleHtlc (htlc : Htlc)
  | failHtlc (htlc : Htlc)
deriving DecidableEq

/-- The HTLC of an identifier. Of several the map keeps the last. -/
def htlcOf (state : State) (id : UInt64) : Option Htlc :=
  (state.htlcs.filter (fun htlc => htlc.id = id)).getLast?

/-- The HTLCs of one state whose identifiers the other does not have. -/
def htlcsBeyond (state other : State) : List Htlc :=
  (((state.htlcs.map Htlc.id).dedup.filter (fun id => (htlcOf other id).isNone)).filterMap (htlcOf state))

/-- The terms of an HTLC that an update must not touch. -/
def sameTerms (htlc htlc' : Htlc) : Bool :=
  htlc.offeredByA == htlc'.offeredByA && htlc.amount == htlc'.amount &&
    htlc.paymentHash == htlc'.paymentHash && htlc.expiry == htlc'.expiry

/-- `classify_peer_update`. -/
def classifyPeerUpdate (ch : Channel) (next : State) (preimage : Bytes) (height : UInt64) :
    Except String PeerUpdate := do
  let cur := ch.cur
  let mine := fun state : State => if ch.isA then state.balA else state.balB
  let theirs := fun state : State => if ch.isA then state.balB else state.balA
  ensure (next.htlcs.all (fun htlc =>
    match htlcOf cur htlc.id, htlcOf next htlc.id with
    | some before, some after => sameTerms before after
    | _, _ => true)) "existing htlc modified"
  match htlcsBeyond next cur, htlcsBeyond cur next with
  | [], [] =>
    ensure (!(next.nextHtlcId != cur.nextHtlcId || decide (mine next < mine cur)))
      "update would lower local balance"
    pure .pay
  | [htlc], [] =>
    ensure (htlc.offeredByA != ch.isA) "peer cannot add an htlc offered by us"
    ensure (htlc.id == cur.nextHtlcId && next.nextHtlcId == cur.nextHtlcId + 1) "bad htlc id"
    ensure (mine next == mine cur && theirs next + htlc.amount == theirs cur)
      "htlc add must be funded by the proposer"
    ensure (!decide (htlc.expiry ≤ height + 1)) "htlc expiry too close"
    pure (.addHtlc htlc)
  | [], [htlc] =>
    ensure (next.nextHtlcId == cur.nextHtlcId) "bad htlc id"
    ensure (htlc.offeredByA == ch.isA)
      "peer cannot remove an htlc it offered (timeout is on-chain only)"
    if mine next == mine cur + htlc.amount && theirs next == theirs cur then pure (.failHtlc htlc)
    else if theirs next == theirs cur + htlc.amount && mine next == mine cur then do
      ensure (hashPreimageHex P preimage == htlc.paymentHash) "bad preimage"
      pure (.settleHtlc htlc)
    else .error "htlc removal does not balance"
  | _, _ => .error "only one htlc change per update"

end Addition.Channels
