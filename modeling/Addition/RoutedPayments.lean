import Addition.ChannelSpends

/-!
# Payments along a route of channels

The drivers that hold both endpoints of a channel in one process: an update with its
exchange of signatures and revocations, payments and HTLCs over it, and the payment over a
route that adds one HTLC for each hop and settles them from the last hop to the first, or
fails those it has added. Between endpoints that agree an update either changes nothing or
makes the new state current at both, who agree again. Amounts, fees and reserves are added
as words, so that a route pays what it should exactly when none of them wraps around.
-/

namespace Addition.Channels

open ByteStrings Checked FiniteTables TextLines Script

/-! ### The drivers -/

section Drivers

variable (P : Primitives)

/-- `update`: the outcome with both endpoints, as far as the exchange came. -/
def update (p q : Channel) (next : State) : Except String Unit × Channel × Channel :=
  match (do validateNext p next; validateNext q next) with
  | .error err => (.error err, p, q)
  | .ok () =>
    match receiveCommitSig P q next (signRemoteCommitment P p next) with
    | .error err => (.error err, p, q)
    | .ok q =>
      match receiveCommitSig P p next (signRemoteCommitment P q next) with
      | .error err => (.error err, p, q)
      | .ok p =>
        let (revoke, p) := revokeAndAdvance P p (p.pending.getD p.cur)
        match receiveRevoke P q revoke with
        | .error err => (.error err, p, q)
        | .ok q =>
          let (revoke, q) := revokeAndAdvance P q (q.pending.getD q.cur)
          match receiveRevoke P p revoke with
          | .error err => (.error err, p, q)
          | .ok p => (.ok (), p, q)

/-- `bal`. -/
def State.bal (state : State) (a : Bool) : UInt64 := if a then state.balA else state.balB

/-- A change of `bal`. -/
def State.changeBal (state : State) (a : Bool) (change : UInt64 → UInt64) : State :=
  if a then { state with balA := change state.balA } else { state with balB := change state.balB }

/-- What a payer keeps for the commitment fee. -/
def Channel.reserve (payer : Channel) : UInt64 := if payer.isA then payer.info.fee else 0

/-- The state in which a payment has moved. -/
def paidBy (payer payee : Channel) (amount : UInt64) : State :=
  ({ payer.cur with n := payer.cur.n + 1 }.changeBal payer.isA (· - amount)).changeBal payee.isA
    (· + amount)

/-- `pay`. -/
def pay (payer payee : Channel) (amount : UInt64) : Except String Unit × Channel × Channel :=
  if amount = 0 ∨ payer.cur.bal payer.isA < amount + payer.reserve then
    (.error "insufficient channel balance", payer, payee)
  else update P payer payee (paidBy payer payee amount)

/-- The state with one HTLC more. -/
def offeredBy (payer : Channel) (amount : UInt64) (paymentHash : Bytes) (expiry : UInt64) : State :=
  let next := { payer.cur with n := payer.cur.n + 1 }.changeBal payer.isA (· - amount)
  { next with
    nextHtlcId := next.nextHtlcId + 1
    htlcs := next.htlcs ++ [⟨next.nextHtlcId, payer.isA, amount, paymentHash, expiry⟩] }

/-- `add_htlc`, with the identifier of the new HTLC. -/
def addHtlc (payer payee : Channel) (amount : UInt64) (paymentHash : Bytes) (expiry : UInt64) :
    Except String UInt64 × Channel × Channel :=
  if amount = 0 ∨ payer.cur.bal payer.isA < amount + payer.reserve then
    (.error "insufficient channel balance", payer, payee)
  else
    let (outcome, payer', payee') := update P payer payee (offeredBy payer amount paymentHash expiry)
    (outcome.map (fun _ => payer.cur.nextHtlcId), payer', payee')

/-- The state without an HTLC, whose amount went to one of the parties. -/
def withoutHtlc (state : State) (htlc : Htlc) (toReceiver : Bool) : State :=
  let creditA := if toReceiver then !htlc.offeredByA else htlc.offeredByA
  let next := { state with n := state.n + 1 }.changeBal creditA (· + htlc.amount)
  { next with htlcs := next.htlcs.eraseP (fun other => other.id = htlc.id) }

/-- `remove_htlc`. -/
def removeHtlc (proposer peer : Channel) (id : UInt64) (toReceiver : Bool) :
    Except String Unit × Channel × Channel :=
  match findHtlc proposer.cur id with
  | none => (.error "unknown htlc", proposer, peer)
  | some htlc => update P proposer peer (withoutHtlc proposer.cur htlc toReceiver)

/-- `settle_htlc`. -/
def settleHtlc (payee payer : Channel) (id : UInt64) (preimage : Bytes) :
    Except String Unit × Channel × Channel :=
  if (findHtlc payer.cur id).map Htlc.paymentHash = some (hashPreimageHex P preimage) then
    removeHtlc P payee payer id true
  else (.error "bad preimage", payee, payer)

/-- `fail_htlc`. -/
def failHtlc (payee payer : Channel) (id : UInt64) : Except String Unit × Channel × Channel :=
  removeHtlc P payee payer id false

/-- The endpoints of one channel of a route. -/
structure Hop where
  payer : Channel
  payee : Channel

/-- A hop of `route_payment` from which so many hops are left: the word for its amount. -/
def hopAmount (amount fee : UInt64) (left : Nat) : UInt64 := amount + fee * UInt64.ofNat left

/-- The first loop of `route_payment`, from one hop on. When a later hop refuses its HTLC, the
HTLC of this one is failed, whether or not that succeeds. -/
def addHops (amount : UInt64) (paymentHash : Bytes) (finalExpiry delta fee : UInt64) :
    Nat → List Hop → Except String (List UInt64) × List Hop
  | _, [] => (.ok [], [])
  | i, hop :: rest =>
    let expiry := finalExpiry + delta * UInt64.ofNat rest.length
    match addHtlc P hop.payer hop.payee (hopAmount amount fee rest.length) paymentHash expiry with
    | (.error err, payer, payee) =>
      (.error ("hop " ++ toString i ++ ": " ++ err), ⟨payer, payee⟩ :: rest)
    | (.ok id, payer, payee) =>
      match addHops amount paymentHash finalExpiry delta fee (i + 1) rest with
      | (.ok ids, rest) => (.ok (id :: ids), ⟨payer, payee⟩ :: rest)
      | (.error err, rest) =>
        let (_, payee, payer) := failHtlc P payee payer id
        (.error err, ⟨payer, payee⟩ :: rest)

/-- The second loop of `route_payment`, from the last hop back. -/
def settleHops (preimage : Bytes) : Nat → List UInt64 → List Hop → Except String Unit × List Hop
  | i, id :: ids, hop :: rest =>
    match settleHops preimage (i + 1) ids rest with
    | (.error err, rest) => (.error err, hop :: rest)
    | (.ok (), rest) =>
      let (outcome, payee, payer) := settleHtlc P hop.payee hop.payer id preimage
      (outcome.mapError (fun err => "settle hop " ++ toString i ++ ": " ++ err), ⟨payer, payee⟩ :: rest)
  | _, _, hops => (.ok (), hops)

/-- `route_payment`. -/
def routePayment (route : List Hop) (amount : UInt64) (preimage : Bytes)
    (finalExpiry delta fee : UInt64) : Except String Unit × List Hop :=
  let paymentHash := hashPreimageHex P preimage
  if paymentHash.isEmpty then (.error "bad preimage", route)
  else
    match addHops P amount paymentHash finalExpiry delta fee 0 route with
    | (.error err, route) => (.error err, route)
    | (.ok ids, route) => settleHops P preimage 0 ids route

end Drivers

/-! ### Endpoints in agreement -/

/-- What an idle endpoint knows of its peer: its revocation hashes for the current number and
the next, and a key that verifies what it signs. -/
structure Knows (P : Primitives) (p q : Channel) : Prop where
  idle : p.pending = none
  hash : p.remoteHashes.lookup p.cur.n = some (q.revHash P p.cur.n)
  nextHash : p.remoteHashes.lookup (p.cur.n + 1) = some (q.revHash P (p.cur.n + 1))
  signatures : ∀ message,
    verifyMessageSignatureHybridUncached P p.remotePub message (q.keys.signMessageHybrid message) = true

/-- The two endpoints of one channel, idle and with the same state. -/
structure Agree (P : Primitives) (p q : Channel) : Prop where
  info : p.info = q.info
  sides : p.isA = !q.isA
  state : p.cur = q.cur
  left : Knows P p q
  right : Knows P q p

/-- A hop before a payment. Its funder can pay the commitment fee, and the next identifier is
not in use. -/
structure Idle (P : Primitives) (hop : Hop) : Prop where
  agree : Agree P hop.payer hop.payee
  feePaid : hop.payer.info.fee ≤ hop.payer.cur.balA
  fresh : ∀ htlc ∈ hop.payer.cur.htlcs, htlc.id ≠ hop.payer.cur.nextHtlcId

variable {P : Primitives}

variable {p q : Channel} {amount expiry : UInt64} {hop : Hop} {paymentHash : Bytes}
  {payer : Channel}

theorem Agree.symm (agree : Agree P p q) : Agree P q p :=
  ⟨agree.info.symm, by rw [agree.sides, Bool.not_not], agree.state.symm, agree.right, agree.left⟩

/-- Endpoints that agree accept the same states. -/
theorem Agree.validateNext (agree : Agree P p q) (next : State)
    (valid : validateNext p next = .ok ()) : validateNext q next = .ok () := by
  simp only [Channels.validateNext, bind_ok, exists_unit, ensure_ok, decide_eq_true_eq] at valid ⊢
  obtain ⟨_, number, _, checks⟩ := valid
  have later : next.n = q.cur.n + 1 := by rw [number, agree.state]
  refine ⟨by simp [agree.right.idle], later, ?_, ?_⟩
  · rw [later, agree.right.nextHash]
    rfl
  · rw [← agree.info]
    exact checks

/-- A signature of the peer for a valid state is accepted. -/
theorem Knows.receives (knows : Knows P q p) (next : State)
    (info : p.info = q.info) (sides : p.isA = !q.isA)
    (hashed : p.hashFor next.n = q.revHash P next.n) (valid : validateNext q next = .ok ()) :
    receiveCommitSig P q next (signRemoteCommitment P p next) =
      .ok { q with pending := some next, remoteSigPending := some (signRemoteCommitment P p next) } := by
  have number : next.n = q.cur.n + 1 := by
    simp only [validateNext, bind_ok, exists_unit, ensure_ok, decide_eq_true_eq] at valid
    exact valid.2.1
  have later : (decide (next.n = 0) && q.remoteSigCur.isEmpty) = false := by simp [number]
  have verified : verifyMessageSignatureHybridUncached P q.remotePub
      (sighash P (commitmentTx P q.info q.isA next (q.revHash P next.n)))
      (signRemoteCommitment P p next) = true := by
    rw [signRemoteCommitment, info, sides, Bool.not_not, hashed]
    exact knows.signatures _
  simp [receiveCommitSig, later, onlyIf, valid, verified, ensure, bind, Except.bind, pure, Except.pure]

/-- One endpoint after an update with its peer. -/
def advanced (P : Primitives) (p q : Channel) (next : State) : Channel :=
  { p with
    history := p.history.insert p.cur.n p.cur
    cur := next
    remoteSigCur := signRemoteCommitment P q next
    pending := none
    remoteSigPending := none
    remoteSecrets := p.remoteSecrets.insert p.cur.n (q.revSecret P p.cur.n)
    remoteHashes := p.remoteHashes.insert (p.cur.n + 2) (q.revHash P (p.cur.n + 2)) }

/-- Between endpoints that agree a valid state becomes current at both. -/
theorem Agree.update (agree : Agree P p q) (next : State)
    (valid : Channels.validateNext p next = .ok ()) :
    Channels.update P p q next = (.ok (), advanced P p q next, advanced P q p next) := by
  have other := agree.validateNext next valid
  have number : next.n = p.cur.n + 1 := by
    simp only [Channels.validateNext, bind_ok, exists_unit, ensure_ok, decide_eq_true_eq] at valid
    exact valid.2.1
  have same : q.cur.n = p.cur.n := by rw [agree.state]
  have leftHash : p.hashFor next.n = q.revHash P next.n := by
    rw [Channel.hashFor, number, agree.left.nextHash, Option.getD_some]
  have rightHash : q.hashFor next.n = p.revHash P next.n := by
    rw [Channel.hashFor, number, ← same, agree.right.nextHash, Option.getD_some]
  have first := agree.right.receives next agree.info agree.sides leftHash other
  have second : receiveCommitSig P p next (signRemoteCommitment P { q with
      pending := some next, remoteSigPending := some (signRemoteCommitment P p next) } next) =
        .ok { p with pending := some next, remoteSigPending := some (signRemoteCommitment P q next) } :=
    agree.left.receives next agree.info.symm agree.symm.sides rightHash valid
  have accepted : (do Channels.validateNext p next; Channels.validateNext q next) = .ok () := by
    rw [valid]
    exact other
  unfold Channels.update
  rw [accepted]
  dsimp only
  rw [first]
  dsimp only
  rw [second]
  dsimp only [revokeAndAdvance, Option.getD_some]
  rw [← same]
  rw [(receiveRevoke_ok _ _ _).mpr ⟨agree.right.hash, (revHash_lowerDigest p _).1, rfl⟩]
  dsimp only
  rw [(receiveRevoke_ok _ _ _).mpr ⟨same.symm ▸ agree.left.hash, (revHash_lowerDigest q _).1, rfl⟩]
  rw [advanced, advanced, same]
  rfl

/-- What one endpoint knows of the other after an update. -/
theorem Knows.advanced (knows : Knows P p q) (next : State) (number : next.n = p.cur.n + 1) :
    Knows P (advanced P p q next) (Channels.advanced P q p next) := by
  refine ⟨rfl, ?_, ?_, knows.signatures⟩
  · show (p.remoteHashes.insert (p.cur.n + 2) _).lookup next.n = some (q.revHash P next.n)
    rw [lookup_insert, if_neg (by omega), number]
    exact knows.nextHash
  · show (p.remoteHashes.insert (p.cur.n + 2) _).lookup (next.n + 1) = some (q.revHash P (next.n + 1))
    rw [lookup_insert, if_pos (by omega), number]

/-- The endpoints agree again after an update. -/
theorem Agree.advanced (agree : Agree P p q) (next : State) (number : next.n = p.cur.n + 1) :
    Agree P (advanced P p q next) (Channels.advanced P q p next) :=
  ⟨agree.info, agree.sides, rfl, agree.left.advanced next number,
    agree.right.advanced next (by rw [number, agree.state])⟩

/-- An update that is not valid changes nothing. -/
theorem update_refused (next : State) (refused : Channels.validateNext p next ≠ .ok ()) :
    ∃ err, Channels.update P p q next = (.error err, p, q) := by
  cases checked : Channels.validateNext p next with
  | ok _ => exact absurd checked refused
  | error err =>
    refine ⟨err, ?_⟩
    simp [Channels.update, checked, bind, Except.bind]

/-! ### One hop -/

@[simp] theorem bal_changeBal_same (state : State) (a : Bool) (change : UInt64 → UInt64) :
    (state.changeBal a change).bal a = change (state.bal a) := by
  cases a <;> rfl

@[simp] theorem bal_changeBal_other (state : State) (a : Bool) (change : UInt64 → UInt64) :
    (state.changeBal a change).bal (!a) = state.bal (!a) := by
  cases a <;> rfl

/-- A payer puts an amount into a state that is valid and keeps the reserve. -/
structure Accepts (payer : Channel) (amount : UInt64) (next : State) : Prop where
  filled : amount ≠ 0
  covered : amount + payer.reserve ≤ payer.cur.bal payer.isA
  valid : validateNext payer next = .ok ()

/-- The payer takes an HTLC. -/
def Takes (payer : Channel) (amount : UInt64) (paymentHash : Bytes) (expiry : UInt64) : Prop :=
  Accepts payer amount (offeredBy payer amount paymentHash expiry)

/-- The funder of a hop can pay the fee when it has received an amount. -/
def Settles (hop : Hop) (amount : UInt64) : Prop :=
  hop.payee.isA = true → hop.payer.info.fee ≤ hop.payer.cur.balA + amount

/-- What a later hop of the same channel has with an earlier one in common. -/
structure SameChannel (before hop : Hop) : Prop where
  payerSide : hop.payer.isA = before.payer.isA
  payeeSide : hop.payee.isA = before.payee.isA
  info : hop.payer.info = before.payer.info

/-- A hop whose payer offers one HTLC more than before. -/
structure Offers (P : Primitives) (before hop : Hop) (amount : UInt64) (paymentHash : Bytes)
    (expiry : UInt64) : Prop where
  agree : Agree P hop.payer hop.payee
  channel : SameChannel before hop
  state : hop.payer.cur = offeredBy before.payer amount paymentHash expiry

/-- The balances and HTLCs of two states are the same. -/
structure SameFunds (before after : State) : Prop where
  balA : after.balA = before.balA
  balB : after.balB = before.balB
  htlcs : after.htlcs = before.htlcs

/-- The balances and HTLCs of both endpoints are as before. -/
structure Restored (before after : Hop) : Prop where
  channel : SameChannel before after
  payer : SameFunds before.payer.cur after.payer.cur
  payee : SameFunds before.payee.cur after.payee.cur

/-- An amount has left the payer. -/
structure Spent (before after : Hop) (amount : UInt64) : Prop where
  channel : SameChannel before after
  payer : after.payer.cur.bal before.payer.isA = before.payer.cur.bal before.payer.isA - amount

/-- An amount has gone from the payer to the payee, and the HTLCs are as before. -/
structure Paid (before after : Hop) (amount : UInt64) : Prop extends Spent before after amount where
  payee : after.payee.cur.bal before.payee.isA = before.payee.cur.bal before.payee.isA + amount
  payerHtlcs : after.payer.cur.htlcs = before.payer.cur.htlcs
  payeeHtlcs : after.payee.cur.htlcs = before.payee.cur.htlcs

theorem Restored.refl (hop : Hop) : Restored hop hop :=
  ⟨⟨rfl, rfl, rfl⟩, ⟨rfl, rfl, rfl⟩, ⟨rfl, rfl, rfl⟩⟩

theorem addHtlc_taken (agree : Agree P hop.payer hop.payee)
    (takes : Takes hop.payer amount paymentHash expiry) :
    ∃ payer payee, addHtlc P hop.payer hop.payee amount paymentHash expiry =
      (.ok hop.payer.cur.nextHtlcId, payer, payee) ∧
      Offers P hop ⟨payer, payee⟩ amount paymentHash expiry := by
  set next := offeredBy hop.payer amount paymentHash expiry with shape
  have number : next.n = hop.payer.cur.n + 1 := by
    rw [shape, offeredBy, State.changeBal]
    split <;> rfl
  have enough : ¬(amount = 0 ∨ hop.payer.cur.bal hop.payer.isA < amount + hop.payer.reserve) := by
    rw [not_or, UInt64.not_lt]
    exact ⟨takes.filled, takes.covered⟩
  refine ⟨advanced P hop.payer hop.payee next, advanced P hop.payee hop.payer next, ?_,
    agree.advanced next number, ⟨rfl, rfl, rfl⟩, rfl⟩
  rw [addHtlc, if_neg enough, ← shape, agree.update next takes.valid]
  rfl

theorem addHtlc_refused (payer payee : Channel) (refuses : ¬Takes payer amount paymentHash expiry) :
    ∃ err, addHtlc P payer payee amount paymentHash expiry = (.error err, payer, payee) := by
  unfold addHtlc
  split
  · exact ⟨_, rfl⟩
  · rename_i enough
    rw [not_or, UInt64.not_lt] at enough
    have invalid : validateNext payer (offeredBy payer amount paymentHash expiry) ≠ .ok () :=
      fun valid => refuses ⟨enough.1, enough.2, valid⟩
    obtain ⟨err, same⟩ := update_refused (P := P) (q := payee) _ invalid
    exact ⟨err, by rw [same]; rfl⟩

theorem htlcSum_append (state : State) (htlc : Htlc) :
    htlcSum { state with htlcs := state.htlcs ++ [htlc] } = htlcSum state + htlc.amount := by
  simp [htlcSum]

/-- What an idle endpoint checks of a state. -/
theorem Knows.valid_iff (knows : Knows P p q) (next : State) :
    validateNext p next = .ok () ↔ next.n = p.cur.n + 1 ∧ p.info.fee ≤ next.balA ∧
      next.htlcs.length ≤ 16 ∧ next.balA + next.balB + htlcSum next = p.info.capacity ∧
      ∀ htlc ∈ next.htlcs, htlc.amount ≠ 0 ∧ htlc.paymentHash.length = 128 := by
  simp only [validateNext, bind_ok, exists_unit, ensure_ok, decide_eq_true_eq, List.all_eq_true,
    Bool.and_eq_true, bne_iff_ne, beq_iff_eq, knows.idle, Option.isNone_none, true_and]
  constructor
  · rintro ⟨number, _, rest⟩
    exact ⟨number, rest⟩
  · rintro ⟨number, rest⟩
    refine ⟨number, ?_, rest⟩
    rw [number, knows.nextHash]
    rfl

/-- The HTLC that was offered is the one found by its identifier. -/
theorem findHtlc_offered (amount : UInt64) (paymentHash : Bytes) (expiry : UInt64)
    (fresh : ∀ htlc ∈ payer.cur.htlcs, htlc.id ≠ payer.cur.nextHtlcId) :
    findHtlc (offeredBy payer amount paymentHash expiry) payer.cur.nextHtlcId =
      some ⟨payer.cur.nextHtlcId, payer.isA, amount, paymentHash, expiry⟩ := by
  have older : payer.cur.htlcs.find? (fun htlc => htlc.id = payer.cur.nextHtlcId) = none := by
    rw [List.find?_eq_none]
    intro htlc member
    simpa using fresh htlc member
  have shape : (offeredBy payer amount paymentHash expiry).htlcs =
      payer.cur.htlcs ++ [⟨payer.cur.nextHtlcId, payer.isA, amount, paymentHash, expiry⟩] := by
    unfold offeredBy State.changeBal
    split <;> rfl
  rw [findHtlc, shape, List.find?_append, older]
  simp

/-- The state in which an offered HTLC is gone again. -/
def closedBy (payer : Channel) (amount : UInt64) (toReceiver : Bool) : State :=
  ({ payer.cur with n := payer.cur.n + 2, nextHtlcId := payer.cur.nextHtlcId + 1 }.changeBal payer.isA
    (· - amount)).changeBal (toReceiver ^^ payer.isA) (· + amount)

theorem withoutHtlc_offered (amount : UInt64) (paymentHash : Bytes) (expiry : UInt64)
    (toReceiver : Bool) (fresh : ∀ htlc ∈ payer.cur.htlcs, htlc.id ≠ payer.cur.nextHtlcId) :
    withoutHtlc (offeredBy payer amount paymentHash expiry)
      ⟨payer.cur.nextHtlcId, payer.isA, amount, paymentHash, expiry⟩ toReceiver =
        closedBy payer amount toReceiver := by
  have erased : (payer.cur.htlcs ++ [(⟨payer.cur.nextHtlcId, payer.isA, amount, paymentHash, expiry⟩ :
      Htlc)]).eraseP (fun other => other.id = payer.cur.nextHtlcId) = payer.cur.htlcs := by
    rw [List.eraseP_append_right _ (fun htlc member => by simpa using fresh htlc member)]
    simp
  cases side : payer.isA <;> cases toReceiver <;>
    simp [withoutHtlc, offeredBy, closedBy, State.changeBal, side] <;> simpa [side] using erased

/-- An offered HTLC can be removed exactly when the funder can pay the fee after it. -/
theorem closedBy_valid {before : Hop}
    (idle : Idle P before) (takes : Takes before.payer amount paymentHash expiry)
    (offers : Offers P before hop amount paymentHash expiry) (toReceiver : Bool) :
    validateNext hop.payee (closedBy before.payer amount toReceiver) = .ok () ↔
      before.payer.info.fee ≤ (closedBy before.payer amount toReceiver).balA := by
  have known := offers.agree.right.valid_iff (closedBy before.payer amount toReceiver)
  rw [known, ← offers.agree.info, ← offers.agree.state, offers.channel.info, offers.state]
  obtain ⟨_, _, few, conserved, filled⟩ := (idle.agree.left.valid_iff _).mp takes.valid
  have numbers : (closedBy before.payer amount toReceiver).n =
      (offeredBy before.payer amount paymentHash expiry).n + 1 := by
    unfold closedBy offeredBy State.changeBal
    repeat' split
    all_goals rfl
  have kept : (closedBy before.payer amount toReceiver).htlcs = before.payer.cur.htlcs := by
    unfold closedBy State.changeBal
    repeat' split
    all_goals rfl
  have grown : (offeredBy before.payer amount paymentHash expiry).htlcs = before.payer.cur.htlcs ++
      [⟨before.payer.cur.nextHtlcId, before.payer.isA, amount, paymentHash, expiry⟩] := by
    unfold offeredBy State.changeBal
    split <;> rfl
  have sums : htlcSum (offeredBy before.payer amount paymentHash expiry) =
      htlcSum before.payer.cur + amount := by
    rw [htlcSum, grown]
    exact htlcSum_append before.payer.cur _
  have total : (closedBy before.payer amount toReceiver).balA +
      (closedBy before.payer amount toReceiver).balB +
        htlcSum (closedBy before.payer amount toReceiver) = before.payer.info.capacity := by
    have same : htlcSum (closedBy before.payer amount toReceiver) = htlcSum before.payer.cur := by
      rw [htlcSum, kept, htlcSum]
    rw [same, ← conserved, sums]
    cases side : before.payer.isA <;> cases toReceiver <;>
      simp only [closedBy, offeredBy, State.changeBal, side] <;> grind
  rw [grown] at few filled
  rw [List.length_append] at few
  constructor
  · exact fun checks => checks.2.1
  · intro feePaid
    refine ⟨numbers, feePaid, ?_, total, ?_⟩
    · rw [kept]
      omega
    · rw [kept]
      exact fun htlc member => filled htlc (List.mem_append_left _ member)

section Removal

variable {before hop : Hop} {amount : UInt64} {paymentHash : Bytes} {expiry : UInt64}

/-- Removing the offered HTLC is an update to the state without it. -/
theorem removeHtlc_offered (idle : Idle P before)
    (offers : Offers P before hop amount paymentHash expiry) (toReceiver : Bool) :
    removeHtlc P hop.payee hop.payer before.payer.cur.nextHtlcId toReceiver =
      update P hop.payee hop.payer (closedBy before.payer amount toReceiver) := by
  rw [removeHtlc, ← offers.agree.state, offers.state, findHtlc_offered amount paymentHash expiry
    idle.fresh]
  dsimp only
  rw [withoutHtlc_offered amount paymentHash expiry toReceiver idle.fresh]

/-- Both endpoints hold the state without the HTLC. -/
theorem removeHtlc_closes (idle : Idle P before)
    (takes : Takes before.payer amount paymentHash expiry)
    (offers : Offers P before hop amount paymentHash expiry) (toReceiver : Bool)
    (feePaid : before.payer.info.fee ≤ (closedBy before.payer amount toReceiver).balA) :
    ∃ after : Hop, removeHtlc P hop.payee hop.payer before.payer.cur.nextHtlcId toReceiver =
        (.ok (), after.payee, after.payer) ∧ SameChannel before after ∧
      after.payer.cur = closedBy before.payer amount toReceiver ∧
      after.payee.cur = closedBy before.payer amount toReceiver := by
  have valid := (closedBy_valid idle takes offers toReceiver).mpr feePaid
  set closed := closedBy before.payer amount toReceiver with shape
  refine ⟨⟨advanced P hop.payer hop.payee closed, advanced P hop.payee hop.payer closed⟩, ?_, ?_, rfl,
    rfl⟩
  · rw [removeHtlc_offered idle offers toReceiver, ← shape, offers.agree.symm.update _ valid]
  · exact ⟨offers.channel.payerSide, offers.channel.payeeSide, offers.channel.info⟩

/-- Failing an offered HTLC succeeds and restores the balances. -/
theorem failHtlc_restores (idle : Idle P before)
    (takes : Takes before.payer amount paymentHash expiry)
    (offers : Offers P before hop amount paymentHash expiry) :
    ∃ after : Hop, failHtlc P hop.payee hop.payer before.payer.cur.nextHtlcId =
        (.ok (), after.payee, after.payer) ∧ Restored before after := by
  have funds : SameFunds before.payer.cur (closedBy before.payer amount false) := by
    cases side : before.payer.isA <;> constructor <;> simp [closedBy, State.changeBal, side]
  obtain ⟨after, removed, channel, payer, payee⟩ := removeHtlc_closes idle takes offers false (by
    rw [funds.balA]
    exact idle.feePaid)
  refine ⟨after, removed, channel, payer ▸ funds, ?_⟩
  rw [payee, ← idle.agree.state]
  exact funds

/-- Settling an offered HTLC succeeds exactly when the funder can pay the fee then. -/
theorem settleHtlc_pays (idle : Idle P before) {preimage : Bytes}
    (hashed : hashPreimageHex P preimage = paymentHash)
    (takes : Takes before.payer amount paymentHash expiry)
    (offers : Offers P before hop amount paymentHash expiry) :
    (Settles before amount → ∃ after : Hop,
      settleHtlc P hop.payee hop.payer before.payer.cur.nextHtlcId preimage =
        (.ok (), after.payee, after.payer) ∧ Paid before after amount) ∧
    (¬Settles before amount → ∃ err,
      settleHtlc P hop.payee hop.payer before.payer.cur.nextHtlcId preimage =
        (.error err, hop.payee, hop.payer)) := by
  have opens : (findHtlc hop.payer.cur before.payer.cur.nextHtlcId).map Htlc.paymentHash =
      some (hashPreimageHex P preimage) := by
    rw [offers.state, findHtlc_offered amount paymentHash expiry idle.fresh, hashed]
    rfl
  have settles : settleHtlc P hop.payee hop.payer before.payer.cur.nextHtlcId preimage =
      removeHtlc P hop.payee hop.payer before.payer.cur.nextHtlcId true := by
    rw [settleHtlc, if_pos opens]
  have feePaid : before.payer.info.fee ≤ (closedBy before.payer amount true).balA ↔
      Settles before amount := by
    have offered := ((idle.agree.left.valid_iff _).mp takes.valid).2.1
    unfold Settles
    have sides := idle.agree.sides
    cases side : before.payer.isA with
    | true =>
      have other : before.payee.isA = false := by simpa [side] using sides.symm
      simp only [offeredBy, closedBy, State.changeBal, side, other, Bool.true_xor, Bool.not_true,
        Bool.false_eq_true, ↓reduceIte, false_imp_iff, iff_true] at offered ⊢
      exact offered
    | false =>
      have other : before.payee.isA = true := by simpa [side] using sides.symm
      simp [closedBy, State.changeBal, side, other]
  rw [settles]
  constructor
  · intro able
    obtain ⟨after, removed, channel, payer, payee⟩ :=
      removeHtlc_closes idle takes offers true (feePaid.mpr able)
    have other : before.payee.isA = !before.payer.isA := by rw [idle.agree.sides, Bool.not_not]
    refine ⟨after, removed, ⟨channel, ?_⟩, ?_, ?_, ?_⟩
    · rw [payer]
      cases side : before.payer.isA <;> simp [closedBy, State.changeBal, State.bal, side]
    · rw [payee, other, ← idle.agree.state]
      cases side : before.payer.isA <;> simp [closedBy, State.changeBal, State.bal, side]
    · rw [payer]
      cases side : before.payer.isA <;> simp [closedBy, State.changeBal, side]
    · rw [payee, ← idle.agree.state]
      cases side : before.payer.isA <;> simp [closedBy, State.changeBal, side]
  · intro unable
    have invalid : validateNext hop.payee (closedBy before.payer amount true) ≠ .ok () := by
      rw [ne_eq, closedBy_valid idle takes offers true, feePaid]
      exact unable
    rw [removeHtlc_offered idle offers true]
    exact update_refused _ invalid

/-- The amount of an offered HTLC has left the payer. -/
theorem Offers.spent (offers : Offers P before hop amount paymentHash expiry) :
    Spent before hop amount := by
  refine ⟨offers.channel, ?_⟩
  rw [offers.state, offeredBy]
  exact bal_changeBal_same { before.payer.cur with n := before.payer.cur.n + 1 } _ _

end Removal

/-! ### The loops of a route -/

/-- The items of a list, each with the number of those after it. -/
def countdown {α : Type} : List α → List (Nat × α)
  | [] => []
  | item :: rest => (rest.length, item) :: countdown rest

theorem countdown_getElem? {α : Type} (items : List α) (i : Nat) :
    (countdown items)[i]? = items[i]?.map (fun item => (items.length - 1 - i, item)) := by
  induction items generalizing i with
  | nil => simp [countdown]
  | cons item rest ih =>
    cases i with
    | zero => simp [countdown]
    | succ i =>
      simp only [countdown, List.getElem?_cons_succ, ih, List.length_cons]
      congr 2
      funext item
      rw [show rest.length + 1 - 1 - (i + 1) = rest.length - 1 - i by omega]

section Loops

variable {amount fee finalExpiry delta : UInt64} {paymentHash : Bytes}

/-- Every hop of a route takes its HTLC. -/
def AllTake (route : List Hop) (amount : UInt64) (paymentHash : Bytes) (finalExpiry delta fee : UInt64) :
    Prop :=
  ∀ left hop, (left, hop) ∈ countdown route →
    Takes hop.payer (hopAmount amount fee left) paymentHash (finalExpiry + delta * UInt64.ofNat left)

/-- Every hop of a route can settle its HTLC. -/
def AllSettle (route : List Hop) (amount fee : UInt64) : Prop :=
  ∀ left hop, (left, hop) ∈ countdown route → Settles hop (hopAmount amount fee left)

/-- The hops of a route offer their HTLCs. -/
def Offering (P : Primitives) (amount : UInt64) (paymentHash : Bytes) (finalExpiry delta fee : UInt64) :
    List Hop → List Hop → Prop :=
  fun route hops => List.Forall₂ (fun (step : Nat × Hop) hop => Offers P step.2 hop
    (hopAmount amount fee step.1) paymentHash (finalExpiry + delta * UInt64.ofNat step.1))
    (countdown route) hops

theorem allTake_cons (hop : Hop) (rest : List Hop) :
    AllTake (hop :: rest) amount paymentHash finalExpiry delta fee ↔
      Takes hop.payer (hopAmount amount fee rest.length) paymentHash
        (finalExpiry + delta * UInt64.ofNat rest.length) ∧
      AllTake rest amount paymentHash finalExpiry delta fee := by
  constructor
  · exact fun all => ⟨all _ _ (List.mem_cons_self ..),
      fun left next member => all left next (List.mem_cons_of_mem _ member)⟩
  · rintro ⟨first, others⟩ left next member
    rcases List.mem_cons.mp member with same | later
    · obtain ⟨rfl, rfl⟩ := Prod.mk.inj same
      exact first
    · exact others left next later

theorem allSettle_cons (hop : Hop) (rest : List Hop) :
    AllSettle (hop :: rest) amount fee ↔
      Settles hop (hopAmount amount fee rest.length) ∧ AllSettle rest amount fee := by
  constructor
  · exact fun all => ⟨all _ _ (List.mem_cons_self ..),
      fun left next member => all left next (List.mem_cons_of_mem _ member)⟩
  · rintro ⟨first, others⟩ left next member
    rcases List.mem_cons.mp member with same | later
    · obtain ⟨rfl, rfl⟩ := Prod.mk.inj same
      exact first
    · exact others left next later

/-- The first loop offers all HTLCs, or it restores every hop. -/
theorem addHops_spec (route : List Hop) (idle : ∀ hop ∈ route, Idle P hop) (i : Nat) :
    (AllTake route amount paymentHash finalExpiry delta fee → ∃ hops,
      addHops P amount paymentHash finalExpiry delta fee i route =
        (.ok (route.map (fun hop => hop.payer.cur.nextHtlcId)), hops) ∧
      Offering P amount paymentHash finalExpiry delta fee route hops) ∧
    (¬AllTake route amount paymentHash finalExpiry delta fee → ∃ err hops,
      addHops P amount paymentHash finalExpiry delta fee i route = (.error err, hops) ∧
      List.Forall₂ Restored route hops) := by
  induction route generalizing i with
  | nil =>
    refine ⟨fun _ => ⟨[], rfl, .nil⟩, fun refuses => absurd ?_ refuses⟩
    intro left hop member
    simp [countdown] at member
  | cons hop rest ih =>
    have first := idle hop (List.mem_cons_self ..)
    obtain ⟨ahead, behind⟩ := ih
      (fun other member => idle other (List.mem_cons_of_mem _ member)) (i + 1)
    rw [allTake_cons]
    by_cases takes : Takes hop.payer (hopAmount amount fee rest.length) paymentHash
      (finalExpiry + delta * UInt64.ofNat rest.length)
    · obtain ⟨payer, payee, added, offers⟩ := addHtlc_taken first.agree takes
      constructor
      · rintro ⟨_, others⟩
        obtain ⟨hops, same, offering⟩ := ahead others
        refine ⟨⟨payer, payee⟩ :: hops, ?_, .cons offers offering⟩
        rw [addHops, added]
        dsimp only
        rw [same]
        rfl
      · intro refuses
        obtain ⟨err, hops, same, restored⟩ := behind (fun others => refuses ⟨takes, others⟩)
        obtain ⟨after, failed, back⟩ := failHtlc_restores first takes offers
        refine ⟨err, after :: hops, ?_, .cons back restored⟩
        rw [addHops, added]
        dsimp only
        rw [same]
        dsimp only
        rw [failed]
    · refine ⟨fun all => absurd all.1 takes, fun _ => ?_⟩
      obtain ⟨err, refused⟩ := addHtlc_refused (P := P) hop.payer hop.payee takes
      refine ⟨"hop " ++ toString i ++ ": " ++ err, hop :: rest, ?_, ?_⟩
      · rw [addHops, refused]
      · exact List.forall₂_same.mpr (fun other _ => Restored.refl other)

/-- The second loop settles all HTLCs, or stops at one that cannot be settled. -/
theorem settleHops_spec {preimage : Bytes} (hashed : hashPreimageHex P preimage = paymentHash)
    (route hops : List Hop) (idle : ∀ hop ∈ route, Idle P hop)
    (takes : AllTake route amount paymentHash finalExpiry delta fee)
    (offering : Offering P amount paymentHash finalExpiry delta fee route hops) (i : Nat) :
    (AllSettle route amount fee → ∃ after,
      settleHops P preimage i (route.map (fun hop => hop.payer.cur.nextHtlcId)) hops =
        (.ok (), after) ∧
      List.Forall₂ (fun step hop => Paid step.2 hop (hopAmount amount fee step.1)) (countdown route)
        after) ∧
    (¬AllSettle route amount fee → ∃ err after,
      settleHops P preimage i (route.map (fun hop => hop.payer.cur.nextHtlcId)) hops =
        (.error err, after) ∧
      List.Forall₂ (fun step hop => Spent step.2 hop (hopAmount amount fee step.1)) (countdown route)
        after) := by
  induction route generalizing i hops with
  | nil =>
    obtain rfl : hops = [] := by simpa [Offering, countdown] using offering
    refine ⟨fun _ => ⟨[], rfl, .nil⟩, fun refuses => absurd ?_ refuses⟩
    intro left hop member
    simp [countdown] at member
  | cons before rest ih =>
    obtain ⟨taken, others⟩ := (allTake_cons before rest).mp takes
    cases offering with
    | @cons _ hop _ hops offers offering =>
      have first := idle before (List.mem_cons_self ..)
      obtain ⟨ahead, behind⟩ := ih hops
        (fun other member => idle other (List.mem_cons_of_mem _ member)) others offering (i + 1)
      obtain ⟨pays, refuses⟩ := settleHtlc_pays first hashed taken offers
      rw [allSettle_cons]
      by_cases later : AllSettle rest amount fee
      · obtain ⟨after, same, paid⟩ := ahead later
        constructor
        · rintro ⟨able, _⟩
          obtain ⟨settled, success, now⟩ := pays able
          refine ⟨settled :: after, ?_, .cons now paid⟩
          rw [List.map_cons, settleHops, same]
          dsimp only
          rw [success]
          rfl
        · intro unable
          obtain ⟨err, failed⟩ := refuses (fun able => unable ⟨able, later⟩)
          refine ⟨"settle hop " ++ toString i ++ ": " ++ err, hop :: after, ?_,
            .cons offers.spent (paid.imp fun _ _ => Paid.toSpent)⟩
          rw [List.map_cons, settleHops, same]
          dsimp only
          rw [failed]
          rfl
      · refine ⟨fun all => absurd all.2 later, fun _ => ?_⟩
        obtain ⟨err, after, same, spent⟩ := behind later
        refine ⟨err, hop :: after, ?_, .cons offers.spent spent⟩
        rw [List.map_cons, settleHops, same]

end Loops

/-! ### What a payment should do -/

/-- An endpoint's own balance. -/
def Channel.balance (ch : Channel) : Nat := (ch.cur.bal ch.isA).toNat

/-- Over the naturals, the first payer loses the amount with the fees of all hops, the last payee
gains the amount and each party between them the fee; and no HTLC was added or lost. -/
structure PaidExactly (route after : List Hop) (amount fee : UInt64) : Prop where
  first : ∀ before now, route[0]? = some before → after[0]? = some now →
    before.payer.balance = now.payer.balance + (amount.toNat + fee.toNat * (route.length - 1))
  last : ∀ before now, route[route.length - 1]? = some before →
    after[route.length - 1]? = some now →
    now.payee.balance = before.payee.balance + amount.toNat
  between : ∀ i before now before' now', route[i]? = some before → after[i]? = some now →
    route[i + 1]? = some before' → after[i + 1]? = some now' →
    now.payee.balance + now'.payer.balance =
      before.payee.balance + before'.payer.balance + fee.toNat
  htlcs : List.Forall₂ (fun before now => now.payer.cur.htlcs = before.payer.cur.htlcs ∧
    now.payee.cur.htlcs = before.payee.cur.htlcs) route after

/-- A call of `route_payment` pays the route exactly, or changes no balance and no HTLC when it
fails while adding hops; and no payer gains by it. -/
structure PaysAsClaimed (P : Primitives) (route : List Hop) (amount : UInt64) (preimage : Bytes)
    (finalExpiry delta fee : UInt64) : Prop where
  paid : (routePayment P route amount preimage finalExpiry delta fee).1 = .ok () →
    PaidExactly route (routePayment P route amount preimage finalExpiry delta fee).2 amount fee
  restored : (∀ ids, (addHops P amount (hashPreimageHex P preimage) finalExpiry delta fee 0 route).1 ≠
      .ok ids) →
    List.Forall₂ Restored route (routePayment P route amount preimage finalExpiry delta fee).2
  notRaised : List.Forall₂ (fun before now => now.payer.balance ≤ before.payer.balance) route
    (routePayment P route amount preimage finalExpiry delta fee).2

/-- At no payer the amount of the hop and the reserve wrap around. -/
def ReservesFit (route : List Hop) (amount fee : UInt64) : Prop :=
  ∀ left hop, (left, hop) ∈ countdown route →
    (hopAmount amount fee left).toNat + hop.payer.reserve.toNat < 2 ^ 64

/-- At no hop its amount wraps around, or the balance that receives it. -/
def AmountsFit (route : List Hop) (amount fee : UInt64) : Prop :=
  ∀ left hop, (left, hop) ∈ countdown route →
    hop.payee.balance + (amount.toNat + fee.toNat * left) < 2 ^ 64

/-! ### Words that do not wrap -/

/-- A payer that accepts does not gain exactly when the amount and the reserve do not wrap. -/
theorem Accepts.not_raised_iff {next : State} (accepts : Accepts payer amount next)
    (spends : next.bal payer.isA = payer.cur.bal payer.isA - amount) :
    (payer.cur.bal payer.isA - amount).toNat ≤ (payer.cur.bal payer.isA).toNat ↔
      amount.toNat + payer.reserve.toNat < 2 ^ 64 := by
  have covered := UInt64.le_iff_toNat_le.mp accepts.covered
  rw [UInt64.toNat_add] at covered
  have bound := amount.toNat_lt
  have room := (payer.cur.bal payer.isA).toNat_lt
  rw [UInt64.toNat_sub]
  cases side : payer.isA with
  | false =>
    have none : payer.reserve = 0 := by simp [Channel.reserve, side]
    simp only [none, side, UInt64.toNat_zero, Nat.add_zero] at covered room ⊢
    omega
  | true =>
    have fee : payer.reserve = payer.info.fee := by simp [Channel.reserve, side]
    have feePaid := (validateNext_checked payer next accepts.valid).feePaid (by
      have valid := accepts.valid
      simp only [validateNext, bind_ok, exists_unit, ensure_ok, decide_eq_true_eq] at valid
      omega)
    have kept : next.balA = payer.cur.balA - amount := by simpa [State.bal, side] using spends
    rw [kept] at feePaid
    have left := UInt64.le_iff_toNat_le.mp feePaid
    rw [UInt64.toNat_sub] at left
    simp only [fee, State.bal, side, ↓reduceIte] at covered room ⊢
    have small := payer.info.fee.toNat_lt
    omega

theorem offeredBy_bal (payer : Channel) (amount : UInt64) (paymentHash : Bytes) (expiry : UInt64) :
    (offeredBy payer amount paymentHash expiry).bal payer.isA = payer.cur.bal payer.isA - amount :=
  bal_changeBal_same { payer.cur with n := payer.cur.n + 1 } _ _

/-- The amount of a hop as a number. -/
theorem hopAmount_toNat (amount fee : UInt64) (left : Nat)
    (fits : amount.toNat + fee.toNat * left < 2 ^ 64) :
    (hopAmount amount fee left).toNat = amount.toNat + fee.toNat * left := by
  rw [hopAmount, UInt64.toNat_add, UInt64.toNat_mul, UInt64.toNat_ofNat', Nat.mul_mod_mod,
    Nat.add_mod_mod, Nat.mod_eq_of_lt fits]

theorem forall₂_getElem? {α β : Type} {related : α → β → Prop} {items : List α} {others : List β}
    (pairs : List.Forall₂ related items others) (i : Nat) (item : α) (found : items[i]? = some item) :
    ∃ other, others[i]? = some other ∧ related item other := by
  induction pairs generalizing i with
  | nil => simp at found
  | cons first rest ih =>
    cases i with
    | zero =>
      obtain rfl : _ = item := by simpa using found
      exact ⟨_, rfl, first⟩
    | succ i =>
      rw [List.getElem?_cons_succ] at found ⊢
      exact ih i found

section Exactness

variable {route after : List Hop} {amount fee finalExpiry delta : UInt64} {paymentHash : Bytes}

/-- A hop of a route with its place. -/
theorem countdown_of_getElem? {i : Nat} (found : route[i]? = some hop) :
    (countdown route)[i]? = some (route.length - 1 - i, hop) := by
  rw [countdown_getElem?, found]
  rfl

theorem countdown_place {left : Nat} (member : (left, hop) ∈ countdown route) :
    ∃ i, i < route.length ∧ left = route.length - 1 - i ∧ route[i]? = some hop := by
  obtain ⟨i, found⟩ := List.mem_iff_getElem?.mp member
  rw [countdown_getElem?, Option.map_eq_some_iff] at found
  obtain ⟨hop', place, same⟩ := found
  obtain ⟨rfl, rfl⟩ := Prod.mk.inj same
  exact ⟨i, (List.getElem?_eq_some_iff.mp place).1, rfl, place⟩

/-- What holds of the hops with their places holds of the hops. -/
theorem forall₂_places {related : Nat × Hop → Hop → Prop} {related' : Hop → Hop → Prop}
    (pairs : List.Forall₂ related (countdown route) after)
    (weaker : ∀ step ∈ countdown route, ∀ hop, related step hop → related' step.2 hop) :
    List.Forall₂ related' route after := by
  induction route generalizing after with
  | nil =>
    obtain rfl : after = [] := by simpa [countdown] using pairs
    exact .nil
  | cons hop rest ih =>
    cases pairs with
    | cons first others =>
      exact .cons (weaker _ (List.mem_cons_self ..) _ first)
        (ih others fun step member => weaker step (List.mem_cons_of_mem _ member))

/-- Over the naturals, what a hop that was paid has moved as long as no reserve wraps. -/
theorem Paid.moved {before now : Hop} {word : UInt64} (paid : Paid before now word)
    (takes : Takes before.payer word paymentHash expiry)
    (fits : word.toNat + before.payer.reserve.toNat < 2 ^ 64) :
    now.payer.balance + word.toNat = before.payer.balance ∧
      now.payee.balance = (before.payee.balance + word.toNat) % 2 ^ 64 := by
  have covered := UInt64.le_iff_toNat_le.mp takes.covered
  rw [UInt64.toNat_add, Nat.mod_eq_of_lt fits] at covered
  have payer := congrArg UInt64.toNat paid.payer
  rw [UInt64.toNat_sub_of_le _ _ (UInt64.le_iff_toNat_le.mpr (by omega))] at payer
  have payee := congrArg UInt64.toNat paid.payee
  rw [UInt64.toNat_add] at payee
  unfold Channel.balance
  rw [paid.channel.payerSide, paid.channel.payeeSide]
  exact ⟨by omega, payee⟩

/-- A route whose hops were all paid is paid exactly when no amount and no balance wraps. -/
theorem paidExactly_iff (takes : AllTake route amount paymentHash finalExpiry delta fee)
    (reserves : ReservesFit route amount fee)
    (paid : List.Forall₂ (fun step hop => Paid step.2 hop (hopAmount amount fee step.1))
      (countdown route) after) :
    PaidExactly route after amount fee ↔ AmountsFit route amount fee := by
  have moved : ∀ i before, route[i]? = some before → ∃ now, after[i]? = some now ∧
      now.payer.balance + (hopAmount amount fee (route.length - 1 - i)).toNat =
        before.payer.balance ∧
      now.payee.balance = (before.payee.balance +
        (hopAmount amount fee (route.length - 1 - i)).toNat) % 2 ^ 64 := by
    intro i before found
    have step := countdown_of_getElem? found
    obtain ⟨now, there, hop⟩ := forall₂_getElem? paid i _ step
    have member := List.mem_of_getElem? step
    exact ⟨now, there, hop.moved (takes _ _ member) (reserves _ _ member)⟩
  constructor
  · intro exact left hop member
    obtain ⟨i, inside, rfl, found⟩ := countdown_place member
    -- The first payer's loss is a number below 2^64, and the amounts fall along the route.
    have small : ∀ j, amount.toNat + fee.toNat * (route.length - 1 - j) < 2 ^ 64 := by
      intro j
      obtain ⟨first, start⟩ : ∃ first, route[0]? = some first := ⟨_, List.getElem?_eq_getElem (by omega)⟩
      obtain ⟨now, there, lost, _⟩ := moved 0 _ start
      have whole := exact.first _ now start there
      have bound := (hopAmount amount fee (route.length - 1 - 0)).toNat_lt
      have fewer : fee.toNat * (route.length - 1 - j) ≤ fee.toNat * (route.length - 1) :=
        Nat.mul_le_mul_left _ (by omega)
      omega
    obtain ⟨now, there, _, gained⟩ := moved i hop found
    have room : now.payee.balance < 2 ^ 64 := UInt64.toNat_lt _
    by_cases final : i + 1 = route.length
    · have place : i = route.length - 1 := by omega
      have whole := exact.last hop now (place ▸ found) (place ▸ there)
      rw [show route.length - 1 - i = 0 by omega]
      omega
    · obtain ⟨second, following⟩ : ∃ second, route[i + 1]? = some second :=
        ⟨_, List.getElem?_eq_getElem (by omega)⟩
      obtain ⟨now', there', lost, _⟩ := moved (i + 1) _ following
      have whole := exact.between i hop now _ now' found there following there'
      rw [hopAmount_toNat amount fee _ (small (i + 1))] at lost
      have step : route.length - 1 - i = route.length - 1 - (i + 1) + 1 := by omega
      rw [step, Nat.mul_succ]
      omega
  · intro fits
    have whole : ∀ i before, route[i]? = some before → ∃ now, after[i]? = some now ∧
        now.payer.balance + (amount.toNat + fee.toNat * (route.length - 1 - i)) =
          before.payer.balance ∧
        now.payee.balance = before.payee.balance +
          (amount.toNat + fee.toNat * (route.length - 1 - i)) := by
      intro i before found
      have room := fits _ _ (List.mem_of_getElem? (countdown_of_getElem? found))
      obtain ⟨now, there, lost, gained⟩ := moved i before found
      rw [hopAmount_toNat amount fee _ (by omega)] at lost gained
      rw [Nat.mod_eq_of_lt room] at gained
      exact ⟨now, there, lost, gained⟩
    refine ⟨?_, ?_, ?_, ?_⟩
    · intro before now found there
      obtain ⟨_, same, lost, _⟩ := whole 0 before found
      obtain rfl := Option.some.inj (there.symm.trans same)
      rw [Nat.sub_zero] at lost
      exact lost.symm
    · intro before now found there
      obtain ⟨_, same, _, gained⟩ := whole _ before found
      obtain rfl := Option.some.inj (there.symm.trans same)
      rw [Nat.sub_self] at gained
      exact gained
    · intro i before now before' now' found there found' there'
      obtain ⟨_, same, _, gained⟩ := whole i before found
      obtain rfl := Option.some.inj (there.symm.trans same)
      obtain ⟨_, same', lost, _⟩ := whole (i + 1) before' found'
      obtain rfl := Option.some.inj (there'.symm.trans same')
      have inside : i + 1 < route.length := (List.getElem?_eq_some_iff.mp found').1
      have step : route.length - 1 - i = route.length - 1 - (i + 1) + 1 := by omega
      rw [step, Nat.mul_succ] at gained
      omega
    · exact forall₂_places paid fun step _ hop now => ⟨now.payerHtlcs, now.payeeHtlcs⟩

end Exactness

/-! ### No payer gains -/

/-- Accepting a signature for a later state changes neither the side nor the current state. -/
theorem receiveCommitSig_current {ch after : Channel} {next : State} {sig : Bytes}
    (later : next.n ≠ 0) (received : receiveCommitSig P ch next sig = .ok after) :
    after = { ch with pending := some next, remoteSigPending := some sig } := by
  have notFirst : (decide (next.n = 0) && ch.remoteSigCur.isEmpty) = false := by simp [later]
  simp only [receiveCommitSig, notFirst, Bool.not_false, onlyIf_ok, bind_ok, exists_unit, ensure_ok,
    Bool.false_eq_true, ↓reduceIte, pure_ok, forall_const] at received
  exact received.2.2.symm

/-- Whatever becomes of an update, its proposer keeps its state or holds the next one. -/
theorem update_proposer (p q : Channel) (next : State) :
    (update P p q next).2.1.isA = p.isA ∧
      ((update P p q next).2.1.cur = p.cur ∨ (update P p q next).2.1.cur = next) := by
  unfold update
  split
  · exact ⟨rfl, .inl rfl⟩
  · rename_i _ valid
    have later : next.n ≠ 0 := by
      simp only [validateNext, bind_ok, exists_unit, ensure_ok, decide_eq_true_eq] at valid
      omega
    split
    · exact ⟨rfl, .inl rfl⟩
    · split
      · exact ⟨rfl, .inl rfl⟩
      · rename_i p' received
        obtain rfl := receiveCommitSig_current later received
        dsimp only [revokeAndAdvance]
        split
        · exact ⟨rfl, .inr rfl⟩
        · split
          · exact ⟨rfl, .inr rfl⟩
          · rename_i p'' revoked
            obtain ⟨_, _, rfl⟩ := (receiveRevoke_ok _ _ _).mp revoked
            exact ⟨rfl, .inr rfl⟩

/-- A payer whose own balance loses an amount that its balance covers does not gain. -/
theorem less_le {balance reserve : UInt64} (covered : amount + reserve ≤ balance)
    (fits : amount.toNat + reserve.toNat < 2 ^ 64) :
    (balance - amount).toNat ≤ balance.toNat := by
  have words := UInt64.le_iff_toNat_le.mp covered
  rw [UInt64.toNat_add, Nat.mod_eq_of_lt fits] at words
  rw [UInt64.toNat_sub_of_le _ _ (UInt64.le_iff_toNat_le.mpr (by omega))]
  omega

variable {payee : Channel}

/-- The state of a payment between the two sides of a channel. -/
theorem paidBy_bal (sides : payer.isA = !payee.isA) (amount : UInt64) :
    (paidBy payer payee amount).bal payer.isA = payer.cur.bal payer.isA - amount := by
  unfold paidBy
  rw [sides, bal_changeBal_other, ← sides]
  exact bal_changeBal_same { payer.cur with n := payer.cur.n + 1 } _ _

/-- The payer of a payment over one channel does not gain when nothing wraps, in agreement with
the payee or not. -/
theorem pay_not_raised (payer payee : Channel) (sides : payer.isA = !payee.isA) (amount : UInt64)
    (fits : amount.toNat + payer.reserve.toNat < 2 ^ 64) :
    (pay P payer payee amount).2.1.balance ≤ payer.balance := by
  unfold pay
  split
  · exact le_refl _
  · rename_i enough
    rw [not_or, UInt64.not_lt] at enough
    obtain ⟨side, same | moved⟩ := update_proposer (P := P) payer payee (paidBy payer payee amount)
    · rw [Channel.balance, side, same, Channel.balance]
    · rw [Channel.balance, side, moved, paidBy_bal sides]
      exact less_le enough.2 fits

theorem addHtlc_not_raised (payer payee : Channel) (amount : UInt64) (paymentHash : Bytes)
    (expiry : UInt64) (fits : amount.toNat + payer.reserve.toNat < 2 ^ 64) :
    (addHtlc P payer payee amount paymentHash expiry).2.1.balance ≤ payer.balance := by
  unfold addHtlc
  split
  · exact le_refl _
  · rename_i enough
    rw [not_or, UInt64.not_lt] at enough
    obtain ⟨side, same | moved⟩ := update_proposer (P := P) payer payee
      (offeredBy payer amount paymentHash expiry)
    · show (update P payer payee _).2.1.balance ≤ _
      rw [Channel.balance, side, same, Channel.balance]
    · show (update P payer payee _).2.1.balance ≤ _
      rw [Channel.balance, side, moved, offeredBy_bal]
      exact less_le enough.2 fits

/-- Between endpoints that agree the payer of a payment gains exactly when it accepts one that
wraps. -/
theorem pay_not_raised_iff (agree : Agree P payer payee) (amount : UInt64) :
    (pay P payer payee amount).2.1.balance ≤ payer.balance ↔
      (Accepts payer amount (paidBy payer payee amount) →
        amount.toNat + payer.reserve.toNat < 2 ^ 64) := by
  by_cases accepts : Accepts payer amount (paidBy payer payee amount)
  · have moved : (pay P payer payee amount).2.1.balance =
        (payer.cur.bal payer.isA - amount).toNat := by
      have enough : ¬(amount = 0 ∨ payer.cur.bal payer.isA < amount + payer.reserve) := by
        rw [not_or, UInt64.not_lt]
        exact ⟨accepts.filled, accepts.covered⟩
      rw [pay, if_neg enough, agree.update _ accepts.valid, ← paidBy_bal agree.sides]
      rfl
    rw [moved]
    exact (accepts.not_raised_iff (paidBy_bal agree.sides amount)).trans (by simp [accepts])
  · refine ⟨fun _ accepted => absurd accepted accepts, fun _ => ?_⟩
    unfold pay
    split
    · exact le_refl _
    · rename_i enough
      rw [not_or, UInt64.not_lt] at enough
      obtain ⟨err, refused⟩ := update_refused (P := P) (q := payee) (paidBy payer payee amount)
        (fun valid => accepts ⟨enough.1, enough.2, valid⟩)
      rw [refused]

theorem addHtlc_not_raised_iff (agree : Agree P payer payee)
    (amount : UInt64) (paymentHash : Bytes) (expiry : UInt64) :
    (addHtlc P payer payee amount paymentHash expiry).2.1.balance ≤ payer.balance ↔
      (Takes payer amount paymentHash expiry → amount.toNat + payer.reserve.toNat < 2 ^ 64) := by
  by_cases takes : Takes payer amount paymentHash expiry
  · obtain ⟨payer', payee', added, offers⟩ := @addHtlc_taken P amount expiry ⟨payer, payee⟩ paymentHash agree takes
    have moved : payer'.balance = (payer.cur.bal payer.isA - amount).toNat := by
      rw [Channel.balance, offers.channel.payerSide]
      exact congrArg UInt64.toNat offers.spent.payer
    rw [added, moved]
    exact (Accepts.not_raised_iff takes (offeredBy_bal _ _ _ _)).trans (by simp [takes])
  · obtain ⟨err, refused⟩ := addHtlc_refused (P := P) payer payee takes
    rw [refused]
    exact ⟨fun _ taken => absurd taken takes, fun _ => le_refl _⟩

/-! ### Whole routes -/

section Routes

variable {route after : List Hop} {amount fee finalExpiry delta : UInt64} {paymentHash : Bytes}

theorem Restored.not_raised {before now : Hop} (restored : Restored before now) :
    now.payer.balance ≤ before.payer.balance := by
  rw [Channel.balance, Channel.balance, restored.channel.payerSide, State.bal, State.bal,
    restored.payer.balA, restored.payer.balB]

/-- The payers of a route that has taken its HTLCs do not gain exactly when no reserve wraps. -/
theorem spent_not_raised_iff (takes : AllTake route amount paymentHash finalExpiry delta fee)
    (spent : List.Forall₂ (fun step hop => Spent step.2 hop (hopAmount amount fee step.1))
      (countdown route) after) :
    List.Forall₂ (fun before now => now.payer.balance ≤ before.payer.balance) route after ↔
      ReservesFit route amount fee := by
  have one : ∀ left before now, (left, before) ∈ countdown route →
      Spent before now (hopAmount amount fee left) →
      (now.payer.balance ≤ before.payer.balance ↔
        (hopAmount amount fee left).toNat + before.payer.reserve.toNat < 2 ^ 64) := by
    intro left before now member hop
    rw [Channel.balance, hop.channel.payerSide, hop.payer]
    exact Accepts.not_raised_iff (takes left before member) (offeredBy_bal _ _ _ _)
  constructor
  · intro kept left before member
    obtain ⟨i, _, rfl, found⟩ := countdown_place member
    obtain ⟨now, there, hop⟩ := forall₂_getElem? spent i _ (countdown_of_getElem? found)
    obtain ⟨now', there', low⟩ := forall₂_getElem? kept i before found
    obtain rfl := Option.some.inj (there.symm.trans there')
    exact (one _ before now member hop).mp low
  · intro fits
    exact forall₂_places spent fun step member now hop =>
      (one step.1 step.2 now member hop).mpr (fits step.1 step.2 member)

/-- A route does as claimed exactly when, in case that every hop takes its HTLC, no reserve
wraps, and in case that every hop can also settle, no amount and no receiving balance does. -/
theorem routePayment_claimed_iff (route : List Hop) (idle : ∀ hop ∈ route, Idle P hop)
    (amount : UInt64) (preimage : Bytes) (finalExpiry delta fee : UInt64) :
    PaysAsClaimed P route amount preimage finalExpiry delta fee ↔
      (AllTake route amount (hashPreimageHex P preimage) finalExpiry delta fee →
        ReservesFit route amount fee ∧ (AllSettle route amount fee → AmountsFit route amount fee)) := by
  set paymentHash := hashPreimageHex P preimage with hashed
  have unchanged : ∀ err after, routePayment P route amount preimage finalExpiry delta fee =
      (.error err, after) → List.Forall₂ Restored route after →
        PaysAsClaimed P route amount preimage finalExpiry delta fee := by
    intro err after failed restored
    refine ⟨?_, ?_, ?_⟩
    · rw [failed]
      exact fun paid => nomatch paid
    · rw [failed]
      exact fun _ => restored
    · rw [failed]
      exact restored.imp fun _ _ hop => hop.not_raised
  obtain ⟨added, refused⟩ := @addHops_spec P amount fee finalExpiry delta paymentHash route
    idle 0
  by_cases empty : paymentHash = []
  · -- Without a payment hash no hop takes an HTLC, and the route is refused at once.
    have failed : routePayment P route amount preimage finalExpiry delta fee =
        (.error "bad preimage", route) := by
      rw [routePayment, ← hashed, empty]
      rfl
    refine ⟨fun _ takes => ?_, fun _ => unchanged _ _ failed
      (List.forall₂_same.mpr fun hop _ => Restored.refl hop)⟩
    have nothing : route = [] := by
      cases route with
      | nil => rfl
      | cons hop rest =>
        have first := ((allTake_cons hop rest).mp takes).1
        have known := (idle hop (List.mem_cons_self ..)).agree.left
        obtain ⟨_, _, _, _, filled⟩ := (known.valid_iff _).mp first.valid
        have width := (filled ⟨_, _, _, paymentHash, _⟩ (List.mem_append_right _
          (List.mem_singleton.mpr rfl))).2
        simp [empty] at width
    subst nothing
    exact ⟨fun _ _ member => (List.not_mem_nil member).elim,
      fun _ _ _ member => (List.not_mem_nil member).elim⟩
  · have present : paymentHash.isEmpty = false := by simp [empty]
    by_cases takes : AllTake route amount paymentHash finalExpiry delta fee
    · obtain ⟨hops, adds, offering⟩ := added takes
      obtain ⟨pays, stops⟩ := settleHops_spec hashed.symm route hops idle takes offering 0
      have later : routePayment P route amount preimage finalExpiry delta fee =
          settleHops P preimage 0 (route.map (fun hop => hop.payer.cur.nextHtlcId)) hops := by
        simp only [routePayment, ← hashed, present, adds, Bool.false_eq_true, ↓reduceIte]
      have accepted : ¬∀ ids, (addHops P amount paymentHash finalExpiry delta fee 0 route).1 ≠
          .ok ids := by
        rw [adds]
        exact fun none => none _ rfl
      by_cases settle : AllSettle route amount fee
      · obtain ⟨after, settled, paid⟩ := pays settle
        have spent := paid.imp fun _ _ => Paid.toSpent
        have raised := spent_not_raised_iff takes spent
        constructor
        · intro claimed _
          have reserves := raised.mp (by simpa [later, settled] using claimed.notRaised)
          have exact := claimed.paid (by rw [later, settled])
          rw [later, settled] at exact
          exact ⟨reserves, fun _ => (paidExactly_iff takes reserves paid).mp exact⟩
        · intro fits
          obtain ⟨reserves, amounts⟩ := fits takes
          refine ⟨fun _ => ?_, fun refuses => absurd refuses accepted, ?_⟩
          · rw [later, settled]
            exact (paidExactly_iff takes reserves paid).mpr (amounts settle)
          · rw [later, settled]
            exact raised.mpr reserves
      · obtain ⟨err, after, settled, spent⟩ := stops settle
        have raised := spent_not_raised_iff takes spent
        constructor
        · intro claimed _
          exact ⟨raised.mp (by simpa [later, settled] using claimed.notRaised),
            fun able => absurd able settle⟩
        · intro fits
          refine ⟨?_, fun refuses => absurd refuses accepted, ?_⟩
          · rw [later, settled]
            exact fun paid => nomatch paid
          · rw [later, settled]
            exact raised.mpr (fits takes).1
    · obtain ⟨err, hops, fails, restored⟩ := refused takes
      refine ⟨fun _ taken => absurd taken takes, fun _ => unchanged err hops ?_ restored⟩
      simp only [routePayment, ← hashed, present, fails, Bool.false_eq_true, ↓reduceIte]

end Routes

/-- Payments over one channel and over a route do as they should exactly when nothing wraps in
what the endpoints accept. -/
theorem payments_exact (P : Primitives) :
    (∀ payer payee amount, Agree P payer payee →
      ((pay P payer payee amount).2.1.balance ≤ payer.balance ↔
        (Accepts payer amount (paidBy payer payee amount) →
          amount.toNat + payer.reserve.toNat < 2 ^ 64))) ∧
    (∀ payer payee amount paymentHash expiry, Agree P payer payee →
      ((addHtlc P payer payee amount paymentHash expiry).2.1.balance ≤ payer.balance ↔
        (Takes payer amount paymentHash expiry → amount.toNat + payer.reserve.toNat < 2 ^ 64))) ∧
    (∀ payer payee amount, payer.isA = !payee.isA → amount.toNat + payer.reserve.toNat < 2 ^ 64 →
      (pay P payer payee amount).2.1.balance ≤ payer.balance) ∧
    (∀ payer payee amount paymentHash expiry, amount.toNat + payer.reserve.toNat < 2 ^ 64 →
      (addHtlc P payer payee amount paymentHash expiry).2.1.balance ≤ payer.balance) ∧
    ∀ route amount preimage finalExpiry delta fee, (∀ hop ∈ route, Idle P hop) →
      (PaysAsClaimed P route amount preimage finalExpiry delta fee ↔
        (AllTake route amount (hashPreimageHex P preimage) finalExpiry delta fee →
          ReservesFit route amount fee ∧
            (AllSettle route amount fee → AmountsFit route amount fee))) :=
  ⟨fun _ _ amount agree => pay_not_raised_iff agree amount,
    fun _ _ amount paymentHash expiry agree => addHtlc_not_raised_iff agree amount paymentHash expiry,
    fun payer payee amount sides fits => pay_not_raised payer payee sides amount fits,
    fun payer payee amount paymentHash expiry fits =>
      addHtlc_not_raised payer payee amount paymentHash expiry fits,
    fun route amount preimage finalExpiry delta fee idle =>
      routePayment_claimed_iff route idle amount preimage finalExpiry delta fee⟩

/-! ### A route of two channels, and one that wraps -/

/-- An endpoint of a channel of a hundred, between two wallets of the same key and seed. -/
def routeEndpoint (isA : Bool) : Channel where
  keys := sampleKeys
  remotePub := sampleKeys.publicKey
  isA := isA
  info := ⟨sampleAddress 7, sampleAddress 7, 100, ascii "funding", 0, 6, 1⟩
  seed := sampleFunding.seed
  cur := ⟨0, 60, 40, [], 0⟩
  pending := none
  remoteSigCur := ascii "sig"
  remoteSigPending := none
  remoteHashes := ((∅ : Table Nat Bytes).insert 0 (sampleFunding.revHash signingPrimitives 0)).insert 1
    (sampleFunding.revHash signingPrimitives 1)
  remoteSecrets := ∅
  history := ∅
  abandoned := []

/-- The funder pays over the channel. -/
def routeHop : Hop := ⟨routeEndpoint true, routeEndpoint false⟩

theorem routeHop_idle : Idle signingPrimitives routeHop := by
  have knows : ∀ isA, Knows signingPrimitives (routeEndpoint isA) (routeEndpoint (!isA)) := by
    intro isA
    refine ⟨rfl, ?_, ?_, sampleKeys_genuine.verifies⟩
    · show (((∅ : Table Nat Bytes).insert 0 _).insert 1 _).lookup 0 = _
      rw [lookup_insert, if_neg (by decide), lookup_insert, if_pos rfl]
      rfl
    · show (((∅ : Table Nat Bytes).insert 0 _).insert 1 _).lookup 1 = _
      rw [lookup_insert, if_pos rfl]
      rfl
  exact ⟨⟨rfl, rfl, rfl, knows true, knows false⟩, by decide, by simp [routeHop, routeEndpoint]⟩

set_option maxRecDepth 100000 in
/-- Five are paid over two channels with a fee of one for the party between them. -/
theorem two_hops_paid :
    (routePayment signingPrimitives [routeHop, routeHop] 5 (toHex [1]) 50 10 1).1.isOk = true ∧
      PaysAsClaimed signingPrimitives [routeHop, routeHop] 5 (toHex [1]) 50 10 1 := by
  refine ⟨by decide +kernel, ?_⟩
  obtain ⟨_, _, _, _, routes⟩ := payments_exact signingPrimitives
  refine (routes [routeHop, routeHop] 5 (toHex [1]) 50 10 1 ?_).mpr fun _ => ⟨?_, fun _ => ?_⟩
  · intro hop member
    obtain rfl : hop = routeHop := by simpa using member
    exact routeHop_idle
  · intro left hop member
    have place : (left = 1 ∧ hop = routeHop) ∨ (left = 0 ∧ hop = routeHop) := by
      simpa [countdown] using member
    rcases place with ⟨rfl, rfl⟩ | ⟨rfl, rfl⟩ <;> decide
  · intro left hop member
    have place : (left = 1 ∧ hop = routeHop) ∨ (left = 0 ∧ hop = routeHop) := by
      simpa [countdown] using member
    rcases place with ⟨rfl, rfl⟩ | ⟨rfl, rfl⟩ <;> decide

set_option maxRecDepth 100000 in
/-- With the fee as reserve the largest amount wraps to nothing: both a payment and a route of
it succeed, and the payer gains one. -/
theorem largest_amount_gains : Idle signingPrimitives routeHop ∧
    (pay signingPrimitives routeHop.payer routeHop.payee (0 - 1)).1.isOk = true ∧
    routeHop.payer.balance <
      (pay signingPrimitives routeHop.payer routeHop.payee (0 - 1)).2.1.balance ∧
    (routePayment signingPrimitives [routeHop] (0 - 1) (toHex [1]) 50 10 1).1.isOk = true ∧
    ¬PaysAsClaimed signingPrimitives [routeHop] (0 - 1) (toHex [1]) 50 10 1 := by
  -- What the two share is evaluated once.
  have evaluated : (pay signingPrimitives routeHop.payer routeHop.payee (0 - 1)).1.isOk = true ∧
      routeHop.payer.balance <
        (pay signingPrimitives routeHop.payer routeHop.payee (0 - 1)).2.1.balance ∧
      (routePayment signingPrimitives [routeHop] (0 - 1) (toHex [1]) 50 10 1).1.isOk = true ∧
      (routePayment signingPrimitives [routeHop] (0 - 1) (toHex [1]) 50 10 1).2.map
        (fun hop => hop.payer.balance) = [61] := by
    decide +kernel
  obtain ⟨paid, gains, routed, gained⟩ := evaluated
  refine ⟨routeHop_idle, paid, gains, routed, fun claimed => ?_⟩
  have kept := claimed.notRaised
  revert gained kept
  generalize (routePayment signingPrimitives [routeHop] (0 - 1) (toHex [1]) 50 10 1).2 = after
  intro gained kept
  cases kept with
  | @cons _ now _ _ low _ =>
    have high : now.payer.balance = 61 := (List.cons.inj gained).1
    have before : routeHop.payer.balance = 60 := by decide
    omega

end Addition.Channels
