import Addition.Channels

/-!
# Channels between nodes

The messages of `rpc_rchannel.cpp` for one open channel: the handlers of the peer's
messages, the outbox that drives this node's own proposals through the two rounds of
an update, and the ways a proposal or a pending state is given up. The peer is not
modelled: its messages and its answers are arbitrary texts.

A handler says besides its reply what it released: the signatures on commitments of
the peer, with the revocation hash they were made under, and the node's own secrets.
A channel is busy while it waits for an answer, so that no handler runs in between.
Retry times, queued actions, invoices and the texts of outgoing requests are left out;
whether the file of the channel could be written is an input.
-/

namespace Addition.Channels

open ByteStrings Checked FiniteTables TextLines Script

variable (P : Primitives)

/-- The status of a channel. -/
inductive Status
  | opened
  | closingCoop
  | closingForce
deriving DecidableEq

/-- `out_phase`: nothing in flight, UPD sent, or our previous state revoked. -/
inductive OutPhase
  | idle
  | upd
  | rev
deriving DecidableEq

/-- The members of `RemoteChannel` that decide what happens to the channel. -/
structure RemoteChannel where
  status : Status
  ch : Channel
  outPhase : OutPhase
  outState : Bytes

/-- What a step makes to hand out: a signature on the peer's commitment of a state under
a revocation hash, the secret of a number in answer to the peer's, and the secret of a
number ahead of the peer's. -/
inductive Released
  | commitment (state : State) (revHash : Bytes)
  | answered (n : Nat)
  | announced (n : Nat)
deriving DecidableEq

/-- The reply or the error text of a handler, what it released and the channel after it. -/
structure Outcome where
  verdict : Except String Bytes
  released : List Released
  after : RemoteChannel

/-- A refusal that changes nothing but the given channel. -/
def refuse (message : String) (after : RemoteChannel) : Outcome := ⟨.error message, [], after⟩

/-- The signature on the peer's commitment of a state, as a released item. -/
def signed (ch : Channel) (state : State) : Released := .commitment state (ch.hashFor state.n)

/-- The text before every positive reply. -/
def chanOk : Bytes := ascii "CHANOK|"

/-- A revocation as the fields of a reply. -/
def revokeText (revoke : Revoke) : Bytes :=
  decimal revoke.revokedN ++ ascii "|" ++ revoke.secret ++ ascii "|" ++ revoke.nextHash

/-- `rchan_abandon_out`: give up our proposal, remembering that it was signed. -/
def rchanAbandonOut (rc : RemoteChannel) : RemoteChannel :=
  if rc.outPhase ≠ .upd then rc
  else
    { rc with
      ch := { rc.ch with abandoned := rc.ch.abandoned ++ (decodeState rc.outState).toList }
      outPhase := .idle
      outState := [] }

/-- `kPacket` of `htlc_onion.hpp`. -/
def kPacket : Nat := 1568 + 4 * (64 + 32 + 1568) + 32

/-- `isalnum` on ASCII. -/
def isAlnum (octet : UInt8) : Bool :=
  isDigit octet || decide (97 ≤ octet.toNat ∧ octet.toNat ≤ 122) ||
    decide (65 ≤ octet.toNat ∧ octet.toNat ≤ 90)

/-- `safe_token`. -/
def safeToken (token : Bytes) : Bool :=
  !token.isEmpty &&
    decide (token.length ≤ if token.head? = some (byte 'O') then 2 * kPacket + 1 else 4096) &&
    token.all (fun octet => isAlnum octet || (ascii ",+-_.").contains octet)

/-! ### The peer's messages -/

/-- The part of UPD behind the conflict rules: classify, verify and sign. -/
def acceptUpd (height : UInt64) (saved : Bool) (rc : RemoteChannel) (next : State)
    (sig kind extra : Bytes) : Outcome :=
  match classifyPeerUpdate P rc.ch next (if kind = ascii "SETTLE" then extra else []) height with
  | .error message => refuse message rc
  | .ok update =>
    if (match update with | .addHtlc _ => !safeToken extra | _ => false) then refuse "bad route" rc
    else
      match receiveCommitSig P rc.ch next sig with
      | .error message => refuse message rc
      | .ok ch =>
        ⟨if saved then .ok (chanOk ++ signRemoteCommitment P ch next)
          else .error "cannot persist channel", [signed ch next], { rc with ch := ch }⟩

/-- UPD with the outbox: our own proposal gives way when the peer is A. -/
def resolveOut (height : UInt64) (saved : Bool) (rc : RemoteChannel) (next : State)
    (sig kind extra : Bytes) : Outcome :=
  match rc.outPhase with
  | .rev => refuse "conflicting update: awaiting revocation" rc
  | .upd =>
    if rc.ch.isA then refuse "conflicting pending update" rc
    else acceptUpd P height saved (rchanAbandonOut rc) next sig kind extra
  | .idle => acceptUpd P height saved rc next sig kind extra

/-- `handle_channel_message`, UPD. -/
def handleUpd (height : UInt64) (saved : Bool) (rc : RemoteChannel) (fields : List Bytes) : Outcome :=
  let text := fields.getD 2 []
  let sig := fields.getD 3 []
  let kind := if fields.length = 6 then fields.getD 4 [] else ascii "PAY"
  let extra := if fields.length = 6 then fields.getD 5 [] else ascii "-"
  match decodeState text with
  | none => refuse "bad UPD" rc
  | some next =>
    if fields.length ≠ 4 ∧ fields.length ≠ 6 then refuse "bad UPD" rc
    else
      match rc.ch.pending with
      | none => resolveOut P height saved rc next sig kind extra
      | some pending =>
        if encodeState pending = text then
          ⟨.ok (chanOk ++ signRemoteCommitment P rc.ch next), [signed rc.ch next], rc⟩
        else if rc.ch.isA then refuse "conflicting pending update" rc
        else resolveOut P height saved { rc with ch := dropPending rc.ch } next sig kind extra

/-- The faults that the test command of the node injects into REV. -/
inductive RevFault
  | none
  | dropRev
  | dropRevReply
deriving DecidableEq

/-- The revocation in the fields of REV. -/
def revokeOf (fields : List Bytes) : Option Revoke :=
  if fields.length ≠ 5 then none
  else (stoull (fields.getD 2 [])).map (fun n => ⟨n.toNat, fields.getD 3 [], fields.getD 4 []⟩)

/-- `handle_channel_message`, REV. -/
def handleRev (saved : Bool) (fault : RevFault) (rc : RemoteChannel) (fields : List Bytes) : Outcome :=
  match revokeOf fields with
  | none => refuse "bad REV" rc
  | some revoke =>
    match rc.ch.pending with
    | none =>
      -- our reply to an earlier REV was lost: answer again
      if revoke.revokedN + 1 = rc.ch.cur.n ∧ hasRemoteSecret rc.ch revoke.revokedN revoke.secret then
        ⟨.ok (chanOk ++ revokeText (lastRevoke P rc.ch)), [.answered (rc.ch.cur.n - 1)], rc⟩
      else refuse "no pending update" rc
    | some pending =>
      if fault = .dropRev then refuse "fault-injected: REV dropped" rc
      else
        match receiveRevoke P rc.ch revoke with
        | .error message => refuse message rc
        | .ok ch =>
          let (mine, advanced) := revokeAndAdvance P ch pending
          let after := { rc with ch := advanced }
          if !saved then refuse "cannot persist channel" after
          else if fault = .dropRevReply then refuse "fault-injected: REV reply dropped" after
          else ⟨.ok (chanOk ++ revokeText mine), [.answered mine.revokedN], after⟩

/-- `handle_channel_message`, ABORT. -/
def handleAbort (saved : Bool) (rc : RemoteChannel) (fields : List Bytes) : Outcome :=
  match fields[2]?.bind stoull with
  | none => refuse "bad ABORT" rc
  | some n =>
    let reply : Except String Bytes := .ok (chanOk ++ decimal rc.ch.cur.n)
    match rc.ch.pending with
    | none => ⟨reply, [], rc⟩
    | some pending =>
      if pending.n = n.toNat then
        ⟨if saved then reply else .error "cannot persist channel", [],
          { rc with ch := dropPending rc.ch }⟩
      else ⟨reply, [], rc⟩

/-- `handle_channel_message`, SYNC. -/
def handleSync (rc : RemoteChannel) : Outcome :=
  let phase := match rc.outPhase with
    | .idle => ascii "-"
    | .upd => ascii "upd"
    | .rev => ascii "rev"
  let pending := match rc.ch.pending with
    | none => ascii "-"
    | some state => decimal state.n
  ⟨.ok (chanOk ++ decimal rc.ch.cur.n ++ ascii "|" ++ phase ++ ascii "|" ++ pending), [], rc⟩

/-- `Channel::coop_close_tx`. -/
def coopCloseTx (ch : Channel) : Transaction :=
  { inputs := [⟨ch.info.fundingTxid, ch.info.fundingVout, []⟩]
    outputs :=
      (if ch.cur.balA > ch.info.fee then [⟨ch.info.addrA, ch.cur.balA - ch.info.fee⟩] else []) ++
      (if ch.cur.balB ≠ 0 then [⟨ch.info.addrB, ch.cur.balB⟩] else [])
    signer := []
    signerPubkey := []
    signature := []
    fee := ch.info.fee
    nonce := ((1 : UInt64) <<< 40) + UInt64.ofNat ch.cur.n
    shielded := [] }

/-- `handle_channel_message`, CLOSE. -/
def handleClose (saved : Bool) (rc : RemoteChannel) : Outcome :=
  if !rc.ch.cur.htlcs.isEmpty || rc.ch.pending.isSome || rc.outPhase ≠ .idle then
    refuse "cannot close now" rc
  else
    ⟨if saved then .ok (chanOk ++ rc.ch.keys.signMessageHybrid (sighash P (coopCloseTx rc.ch)))
      else .error "cannot persist channel", [], { rc with status := .closingCoop }⟩

/-- What a message meets besides the channel: the height of the chain, whether the file
can be written, and an injected fault. -/
structure Circumstances where
  height : UInt64
  saved : Bool
  fault : RevFault

/-- `handle_channel_message` for the messages of an open channel, by fields. -/
def handleChannelMessage (env : Circumstances) (rc : RemoteChannel) (fields : List Bytes) : Outcome :=
  let op := fields.getD 0 []
  if op = ascii "SYNC" then handleSync rc
  else if rc.status ≠ .opened then refuse "channel not open" rc
  else if op = ascii "UPD" then handleUpd P env.height env.saved rc fields
  else if op = ascii "REV" then handleRev P env.saved env.fault rc fields
  else if op = ascii "ABORT" then handleAbort env.saved rc fields
  else if op = ascii "CLOSE" then handleClose P env.saved rc
  else refuse "unknown channel op" rc

/-! ### Our own proposals -/

/-- What the peer answers to the requests of one drive, a text or an error, and whether
the file could be written after the advance and at the end. -/
structure Answers where
  upd : Except Bytes Bytes
  rev : Except Bytes Bytes
  reUpd : Except Bytes Bytes
  revAgain : Except Bytes Bytes
  savedAdvance : Bool
  savedEnd : Bool

/-- `ok_body`. -/
def okBody (response : Bytes) : Option Bytes :=
  if chanOk.isPrefixOf response then some (response.drop 7) else none

/-- A text occurs in an error. -/
def mentions (error text : Bytes) : Bool := decide (text <:+: error)

/-- The answer to REV that is used: when the peer lost the update, it is sent again, and
then REV. Says also whether it was. -/
def Answers.toRev (answers : Answers) : Bool × Except String Bytes :=
  match answers.rev with
  | .ok response => (false, .ok response)
  | .error error =>
    if !mentions error (ascii "no pending update") then
      (false, .error ("peer revoke: " ++ spelled error))
    else
      match answers.reUpd with
      | .error error => (true, .error ("peer re-UPD: " ++ spelled error))
      | .ok _ =>
        match answers.revAgain with
        | .ok response => (true, .ok response)
        | .error error => (true, .error ("peer revoke: " ++ spelled error))

/-- The revocation in the answer to REV. -/
def Answers.revocation (answers : Answers) : Except String Revoke :=
  match answers.toRev.2 with
  | .error message => .error message
  | .ok response =>
    match okBody response with
    | none => .error "bad peer reply"
    | some body =>
      match splitAll (byte '|') body with
      | n :: secret :: nextHash :: _ =>
        match stoull n with
        | some n => .ok ⟨n.toNat, secret, nextHash⟩
        | none => .error "bad peer revoke"
      | _ => .error "bad peer revoke"

/-- The second round of a drive: our revocation is out, the peer's is awaited. -/
def driveRev (answers : Answers) (rc : RemoteChannel) : Outcome :=
  let announced := Released.announced (lastRevoke P rc.ch).revokedN
  let released := if answers.toRev.1 then [announced, signed rc.ch rc.ch.cur] else [announced]
  match answers.revocation with
  | .error message => ⟨.error message, released, rc⟩
  | .ok theirs =>
    match receiveRevoke P rc.ch theirs with
    | .error message => ⟨.error message, released, rc⟩
    | .ok ch =>
      ⟨if answers.savedEnd then .ok [] else .error "cannot persist channel", released,
        { rc with ch := ch, outPhase := .idle, outState := [] }⟩

/-- Both sides have signed: revoke our state and go to the second round. -/
def driveAdvance (answers : Answers) (released : List Released) (rc : RemoteChannel)
    (pending : State) : Outcome :=
  let after := { rc with ch := (revokeAndAdvance P rc.ch pending).2, outPhase := .rev }
  if !answers.savedAdvance then ⟨.error "cannot persist channel", released, after⟩
  else
    let second := driveRev P answers after
    ⟨second.verdict, released ++ second.released, second.after⟩

/-- The first round of a drive without a pending state: send our signature, take theirs. -/
def driveUpd (answers : Answers) (rc : RemoteChannel) (next : State) : Outcome :=
  let released := [signed rc.ch next]
  match answers.upd with
  | .error error =>
    if mentions error (ascii "conflicting pending update") && !rc.ch.isA then
      ⟨.error (spelled error), released, rchanAbandonOut rc⟩
    else ⟨.error ("peer: " ++ spelled error), released, rc⟩
  | .ok response =>
    match okBody response with
    | none => ⟨.error "bad peer reply", released, rc⟩
    | some body =>
      match receiveCommitSig P rc.ch next body with
      | .error message => ⟨.error message, released, rc⟩
      | .ok ch => driveAdvance P answers released { rc with ch := ch } next

/-- `rchan_drive`: advance the outbox as far as the answers allow. -/
def rchanDrive (answers : Answers) (rc : RemoteChannel) : Outcome :=
  match decodeState rc.outState with
  | none => refuse "corrupt outbox" { rc with outPhase := .idle }
  | some next =>
    match rc.outPhase with
    | .idle => ⟨.ok [], [], rc⟩
    | .rev => driveRev P answers rc
    | .upd =>
      if next.n ≠ rc.ch.cur.n + 1 then refuse "proposal superseded" (rchanAbandonOut rc)
      else
        match rc.ch.pending with
        | none => driveUpd P answers rc next
        | some pending =>
          if encodeState pending = rc.outState then driveAdvance P answers [] rc pending
          else if !rc.ch.isA then refuse "conflict: peer update wins" (rchanAbandonOut rc)
          else driveUpd P answers { rc with ch := dropPending rc.ch } next

/-- `rchan_propose`. -/
def rchanPropose (saved : Bool) (answers : Answers) (rc : RemoteChannel) (next : State) : Outcome :=
  if rc.outPhase ≠ .idle then refuse "update in flight (rchan_recover)" rc
  else
    match validateNext rc.ch next with
    | .error message => refuse message rc
    | .ok _ =>
      let proposed := { rc with outPhase := .upd, outState := encodeState next }
      if !saved then refuse "cannot persist channel" { proposed with outPhase := .idle }
      else rchanDrive P answers proposed

/-! ### Giving up -/

/-- The probe of `rchan_tick`: a pending state whose proposer is idle at our number is
dropped. The answer is the peer's reply to SYNC. -/
def rchanProbe (answer : Except Bytes Bytes) (rc : RemoteChannel) : RemoteChannel :=
  if rc.status ≠ .opened ∨ rc.ch.pending = none ∨ rc.outPhase ≠ .idle then rc
  else
    match answer with
    | .error _ => rc
    | .ok response =>
      match okBody response with
      | none => rc
      | some body =>
        match splitAll (byte '|') body with
        | [n, phase, _] =>
          if n = decimal rc.ch.cur.n ∧ phase = ascii "-" then { rc with ch := dropPending rc.ch }
          else rc
        | _ => rc

/-- `rchan_recover`, rollback. -/
def rchanRollback (rc : RemoteChannel) : RemoteChannel :=
  if rc.outPhase = .rev then rc
  else
    let given := rchanAbandonOut rc
    if given.ch.pending.isSome then { given with ch := dropPending given.ch } else given

/-- `rchan_recover`, force, and the forced `rchan_close`. -/
def rchanForce (rc : RemoteChannel) : RemoteChannel :=
  if rc.status ≠ .opened then rc else { rc with status := .closingForce }

end Addition.Channels
