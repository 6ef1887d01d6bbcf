import Addition.Capacity
import Addition.Penalties
import Addition.ScriptTexts

/-!
# Spending the outputs of commitments

The spends that an endpoint builds from its own commitments and from those of its peer:
after the delay, with a preimage, after an expiry, and as a penalty. The peer's address,
its revocation hashes and the payment hashes enter the scripts as they come, and only
their lengths are checked. As long as they are what the parser of scripts accepts, every
script of an accepted state parses, and each spend is authorized when its height has come.
-/

namespace Addition.Channels

open ByteStrings Checked FiniteTables TextLines Script

variable (P : Primitives)

/-! ### The spends -/

/-- The transaction of `Channel::sweep` before it is signed, with the amount of a missing
output as zero. -/
def bareSweep (ch : Channel) (parent : Transaction) (vout : Nat) (nonce : UInt64) : Transaction :=
  { inputs := [⟨hashTransaction P parent, UInt32.ofNat vout, []⟩]
    outputs := [⟨ch.keys.address, amountAt parent vout - ch.info.fee⟩]
    signer := []
    signerPubkey := []
    signature := []
    fee := ch.info.fee
    nonce := nonce
    shielded := [] }

/-- `Channel::sweep`. -/
def sweep (ch : Channel) (parent : Transaction) (vout : Nat) (script : Bytes) (pre : List Bytes)
    (nonce : UInt64) : Transaction :=
  let bare := bareSweep P ch parent vout nonce
  let sig := ch.keys.signMessageHybrid (sighash P bare)
  { bare with inputs := [⟨hashTransaction P parent, UInt32.ofNat vout,
      encodeWitness ⟨script, [(ch.keys.publicKey, sig)], pre⟩⟩] }

/-- `Channel::sweep_to_local`. -/
def sweepToLocal (ch : Channel) (commitment : Transaction) : Option Transaction := do
  let script := toLocalScript ch.keys.address ch.remoteAddress (ch.revHash P commitment.nonce.toNat)
    ch.info.toSelfDelay
  let vout ← freeOutput commitment [] (scriptAddress P script)
  if amountAt commitment vout ≤ ch.info.fee then none
  else some (sweep P ch commitment vout script [] (((3 : UInt64) <<< 40) + commitment.nonce))

/-- `find_htlc`. -/
def findHtlc (state : State) (id : UInt64) : Option Htlc :=
  state.htlcs.find? (fun htlc => htlc.id = id)

/-- The agreed state of a commitment's number. -/
def Channel.agreedState (ch : Channel) (n : Nat) : Option State :=
  if n = ch.cur.n then some ch.cur else ch.history.lookup n

/-- The last position of an identifier. -/
def lastPosition (state : State) (id : UInt64) : Option Nat :=
  ((List.range state.htlcs.length).filter (fun index =>
    (state.htlcs.map Htlc.id)[index]? == some id)).getLast?

/-- The revocation hash of a commitment's number. -/
def Channel.hashOf (ch : Channel) (mine : Bool) (n : Nat) : Option Bytes :=
  if mine then some (ch.revHash P n) else ch.remoteHashes.lookup n

/-- `Channel::sweep_htlc_success`. -/
def sweepHtlcSuccess (ch : Channel) (commitment : Transaction) (mine : Bool) (id : UInt64)
    (preimage : Bytes) : Option Transaction := do
  let n := commitment.nonce.toNat
  let state ← ch.agreedState n
  let htlc ← findHtlc state id
  let revHash ← ch.hashOf P mine n
  let revoker := if mine then ch.remoteAddress else ch.keys.address
  let script := htlcScript revoker (offererOf ch.info htlc) (receiverOf ch.info htlc) revHash
    htlc.paymentHash htlc.expiry
  let expected := commitmentTx P ch.info (if mine then ch.isA else !ch.isA) state revHash
  if hashTransaction P expected ≠ hashTransaction P commitment then none
  else
    let position ← lastPosition state id
    let vout := expected.outputs.length - state.htlcs.length + position
    if (commitment.outputs.map TxOutput.recipient)[vout]? ≠ some (scriptAddress P script) then none
    else some (sweep P ch commitment vout script (if preimage.isEmpty then [] else [preimage])
      (((4 : UInt64) <<< 40) + (commitment.nonce <<< 8) + id))

/-- `Channel::sweep_htlc_timeout`. -/
def sweepHtlcTimeout (ch : Channel) (commitment : Transaction) (mine : Bool) (id : UInt64) :
    Option Transaction :=
  sweepHtlcSuccess P ch commitment mine id []

/-! ### Scripts of a commitment -/

/-- The scripts that are hashed into the outputs of a commitment. -/
def commitmentScripts (info : Info) (holderA : Bool) (state : State) (revHash : Bytes) : List Bytes :=
  let holder := if holderA then info.addrA else info.addrB
  let other := if holderA then info.addrB else info.addrA
  (if (commitmentAmounts info holderA state).1 ≠ 0 then
    [toLocalScript holder other revHash info.toSelfDelay] else []) ++
  state.htlcs.map (fun htlc => htlcScript other (offererOf info htlc) (receiverOf info htlc) revHash
    htlc.paymentHash htlc.expiry)

variable {P}

/-- The tree of `to_local_script`. -/
def toLocalTree (holder other revHash : Bytes) (delay : UInt64) : Node :=
  .or (.and (.pk other) (.sha3 revHash)) (.and (.pk holder) (.older delay.toNat))

/-- The tree of `htlc_script`. -/
def htlcTree (revoker offerer receiver revHash paymentHash : Bytes) (expiry : UInt64) : Node :=
  .or (.and (.pk revoker) (.sha3 revHash))
    (.or (.and (.pk receiver) (.sha3 paymentHash)) (.and (.pk offerer) (.after expiry.toNat)))

theorem toLocalTree_text (holder other revHash : Bytes) (delay : UInt64) :
    (toLocalTree holder other revHash delay).text = toLocalScript holder other revHash delay := by
  simp [toLocalTree, toLocalScript, Node.text, ascii]

theorem htlcTree_text (revoker offerer receiver revHash paymentHash : Bytes) (expiry : UInt64) :
    (htlcTree revoker offerer receiver revHash paymentHash expiry).text =
      htlcScript revoker offerer receiver revHash paymentHash expiry := by
  simp [htlcTree, htlcScript, Node.text, ascii]

/-- An address that fits twice into a script. -/
structure PlainAddress (address : Bytes) : Prop where
  atomic : Atomic address
  short : address.length ≤ 1820

theorem toLocalTree_scriptable (holder other revHash : Bytes) (delay : UInt64)
    (holderPlain : PlainAddress holder) (otherPlain : PlainAddress other)
    (hash : LowerDigest revHash) (short : delay.toNat < 10 ^ 12) :
    (toLocalTree holder other revHash delay).Scriptable := by
  have readable : (toLocalTree holder other revHash delay).Readable :=
    ⟨⟨otherPlain.atomic, hash⟩, holderPlain.atomic, short⟩
  refine ⟨readable, by simp [toLocalTree, Node.levels, kMaxDepth],
    by simp [toLocalTree, Node.size, kMaxNodes], ?_⟩
  have digits := decimal_length_le delay.toNat short
  have first := holderPlain.short
  have second := otherPlain.short
  have width := hash.1
  simp [toLocalTree, Node.text, ascii, width, kMaxScriptBytes]
  omega

theorem htlcTree_scriptable (revoker offerer receiver revHash paymentHash : Bytes) (expiry : UInt64)
    (revokerPlain : Atomic revoker) (offererPlain : Atomic offerer) (receiverPlain : Atomic receiver)
    (fits : revoker.length + offerer.length + receiver.length ≤ 3768)
    (hash : LowerDigest revHash) (payment : LowerDigest paymentHash)
    (short : expiry.toNat < 10 ^ 12) :
    (htlcTree revoker offerer receiver revHash paymentHash expiry).Scriptable := by
  refine ⟨⟨⟨revokerPlain, hash⟩, ⟨receiverPlain, payment⟩, offererPlain, short⟩,
    by simp [htlcTree, Node.levels, kMaxDepth], by simp [htlcTree, Node.size, kMaxNodes], ?_⟩
  have digits := decimal_length_le expiry.toNat short
  have width := hash.1
  have paymentWidth := payment.1
  simp [htlcTree, Node.text, ascii, width, paymentWidth, kMaxScriptBytes]
  omega

/-! ### What the peer sent -/

/-- A key pair of a wallet: the public key is that of the address and verifies what is signed. -/
structure GenuineWallet (P : Primitives) (keys : WalletKeys) : Prop where
  bound : addressBindsPubkey P keys.address (inferSigSchemeFromPubkeyHex P keys.publicKey)
    keys.publicKey = .ok ()
  verifies : ∀ message,
    verifyMessageSignatureHybridUncached P keys.publicKey message (keys.signMessageHybrid message) = true

/-- A state that was accepted at some time: current, in flight, in the history or rolled
back. -/
def Accepted (ch : Channel) (state : State) : Prop :=
  state = ch.cur ∨ ch.pending = some state ∨ (∃ n, ch.history.lookup n = some state) ∨
    state ∈ ch.abandoned

/-- The payment hashes and expiries of a state can be read in a script. -/
def PlainState (state : State) : Prop :=
  ∀ htlc ∈ state.htlcs, LowerDigest htlc.paymentHash ∧ htlc.expiry.toNat < 10 ^ 12

/-- What the peer has sent can be read in scripts and witnesses: its address, its revocation
hashes and the accepted states; and the secret stored for a number is short and opens the
hash stored for it. -/
structure Plain (P : Primitives) (ch : Channel) : Prop where
  address : PlainAddress ch.remoteAddress
  hashes : ∀ n hash, ch.remoteHashes.lookup n = some hash → LowerDigest hash
  secrets : ∀ n secret, ch.remoteSecrets.lookup n = some secret →
    isLowerHexString secret (2 * kMaxPreimageBytes) = true ∧
      ch.remoteHashes.lookup n = some (hashPreimageHex P secret)
  states : ∀ state, Accepted ch state → PlainState state

/-- Every input of a transaction spends an output of its parent and is authorized. -/
def Authorized (P : Primitives) (parent tx : Transaction) (spendHeight utxoHeight : UInt64) : Prop :=
  ∀ input ∈ tx.inputs, input.previousTxid = hashTransaction P parent ∧ ∃ recipient,
    (parent.outputs.map TxOutput.recipient)[input.outputIndex.toNat]? = some recipient ∧
      verifyInput P recipient input.witness ⟨sighash P tx, spendHeight, utxoHeight⟩ = .ok ()

/-- The scripts of accepted states parse, and the spends of an endpoint are authorized when
their preimage and their height are right. -/
structure Spendable (P : Primitives) (ch : Channel) : Prop where
  parse : ∀ state, Accepted ch state →
    ∀ script ∈ commitmentScripts ch.info ch.isA state (ch.revHash P state.n) ++
      commitmentScripts ch.info (!ch.isA) state (ch.hashFor state.n), ∃ tree, parse script = .ok tree
  delayed : ∀ commitment tx spendHeight utxoHeight, commitment.outputs.length < 2 ^ 32 →
    sweepToLocal P ch commitment = some tx → utxoHeight ≤ spendHeight →
    ch.info.toSelfDelay ≤ spendHeight - utxoHeight →
    Authorized P commitment tx spendHeight utxoHeight
  success : ∀ commitment mine id preimage tx state htlc spendHeight utxoHeight,
    commitment.outputs.length < 2 ^ 32 →
    sweepHtlcSuccess P ch commitment mine id preimage = some tx →
    ch.agreedState commitment.nonce.toNat = some state → findHtlc state id = some htlc →
    receiverOf ch.info htlc = ch.keys.address → hashPreimageHex P preimage = htlc.paymentHash →
    isLowerHexString preimage (2 * kMaxPreimageBytes) = true →
    Authorized P commitment tx spendHeight utxoHeight
  timeout : ∀ commitment mine id tx state htlc spendHeight utxoHeight,
    commitment.outputs.length < 2 ^ 32 →
    sweepHtlcTimeout P ch commitment mine id = some tx →
    ch.agreedState commitment.nonce.toNat = some state → findHtlc state id = some htlc →
    offererOf ch.info htlc = ch.keys.address → htlc.expiry ≤ spendHeight →
    Authorized P commitment tx spendHeight utxoHeight
  penalty : ∀ broadcast tx spendHeight utxoHeight, broadcast.outputs.length < 2 ^ 32 →
    penaltyFor P ch broadcast = some tx → Authorized P broadcast tx spendHeight utxoHeight

/-! ### Signatures and hashes of the endpoint -/

variable {keys : WalletKeys} {ch : Channel} {after : RemoteChannel} {event : Event}
  {rc : RemoteChannel}

theorem GenuineWallet.address (wallet : GenuineWallet P keys) :
    PlainAddress keys.address ∧ keys.address.length = 128 := by
  obtain ⟨width, digits, _⟩ := addressBindsPubkey_ok P _ _ _ wallet.bound
  refine ⟨⟨⟨?_, ?_⟩, ?_⟩, width⟩
  · intro empty
    simp [empty] at width
  · intro octet member
    have hex := digits octet member
    simp only [isHex, Bool.or_eq_true, decide_eq_true_eq] at hex
    rcases hex with lower | upper
    · exact isAtomOctet_of_isLowerHex octet lower
    · simp only [isAtomOctet, Bool.or_eq_true, decide_eq_true_eq]
      exact .inl (.inr ⟨upper.1, by omega⟩)
  · omega

/-- The signature of the endpoint on a spend. -/
theorem GenuineWallet.signs (wallet : GenuineWallet P keys) (message : Bytes)
    (spendHeight utxoHeight : UInt64) :
    sigMatches P ⟨message, spendHeight, utxoHeight⟩ keys.address
      (keys.publicKey, keys.signMessageHybrid message) = true := by
  simp [sigMatches, wallet.bound, wallet.verifies message, Except.isOk, Except.toBool]

theorem GenuineWallet.plain (wallet : GenuineWallet P keys) (message : Bytes) :
    byte ':' ∉ keys.publicKey ∧ byte ';' ∉ keys.publicKey ∧
      byte ';' ∉ keys.signMessageHybrid message := by
  obtain ⟨_, _, _, digits⟩ := addressBindsPubkey_ok P _ _ _ wallet.bound
  obtain ⟨hex, spelled, signature⟩ := verifyMessageSignatureHybridUncached_shape P _ _ _
    (wallet.verifies message)
  refine ⟨HexDigits.absent digits _ (by decide), HexDigits.absent digits _ (by decide), ?_⟩
  rw [spelled, List.mem_append, not_or]
  exact ⟨by decide, HexDigits.absent signature _ (by decide)⟩

theorem strongHash_lowerDigest (text : Bytes) : LowerDigest (strongHash P text) :=
  ⟨strongHash_length P text, fun digit member => strongHash_lower P text digit member⟩

/-- The endpoint's own revocation hashes are digests. -/
theorem revHash_lowerDigest (ch : Channel) (n : Nat) : LowerDigest (ch.revHash P n) := by
  have decoded : ∃ octets, hexToBytes (ch.revSecret P n) = .ok octets := by
    have strict : isHexStrict (ch.revSecret P n) 131072 = .ok () := by
      have lower := strongHash_lowerDigest (P := P) (ascii "ADD/chan/rev|" ++ ch.seed ++ ascii "|" ++
        decimal n)
      refine (isHexStrict_ok _ _).mpr ⟨lower.atomic.1, ?_, ?_, ?_⟩
      · show (strongHash P _).length ≤ 131072
        rw [strongHash_length]
        omega
      · show (strongHash P _).length % 2 = 0
        rw [strongHash_length]
      · exact fun digit member => isHex_of_isLowerHex digit (lower.2 digit member)
    exact ⟨_, by simp [hexToBytes, strict]; rfl⟩
  obtain ⟨octets, decoded⟩ := decoded
  rw [Channel.revHash, hashPreimageHex, decoded]
  exact strongHash_lowerDigest octets

/-- The hash for a number of the peer is a digest. -/
theorem Plain.hashFor (plain : Plain P ch) (n : Nat) : LowerDigest (ch.hashFor n) := by
  unfold Channel.hashFor
  cases found : ch.remoteHashes.lookup n with
  | none => exact ⟨by simp, by simp; decide⟩
  | some hash => exact plain.hashes n hash found

/-! ### The terms of a channel -/

/-- The delay of a channel is the default, and the wallet is the endpoint's. -/
def Termed (ch : Channel) : Prop :=
  ch.info.toSelfDelay = 6 ∧ ch.keys.address = if ch.isA then ch.info.addrA else ch.info.addrB

theorem Termed.of_terms {after : Channel} (termed : Termed ch) (same : after.terms = ch.terms) :
    Termed after := by
  obtain ⟨keys, rest⟩ := Prod.mk.inj same
  obtain ⟨side, info⟩ := Prod.mk.inj rest
  unfold Termed
  rw [keys, side, info]
  exact termed

theorem receiveCommitSig_terms (ch after : Channel) (next : State) (sig : Bytes)
    (received : receiveCommitSig P ch next sig = .ok after) : after.terms = ch.terms := by
  simp only [receiveCommitSig, bind_ok, exists_unit] at received
  obtain ⟨_, _, received⟩ := received
  split at received
  · rw [← Except.ok.inj received]
    rfl
  · rw [← Except.ok.inj received]
    rfl

theorem Move.terms (move : Move P event rc after) :
    after.ch.terms = rc.ch.terms := by
  cases move with
  | keeps states _ => exact states.terms
  | proposes next _ shape => rw [shape]
  | receives next sig _ _ ch _ received shape =>
    rw [shape]
    exact receiveCommitSig_terms rc.ch ch next sig received
  | drops shape =>
    rw [shape]
    rfl
  | abandons phase shape =>
    rw [shape, rchanAbandonOut, if_neg (not_not.mpr phase)]
    rfl
  | advances pending _ states _ => exact states.terms
  | countersigned next sig ch _ _ received shape =>
    rw [shape]
    exact receiveCommitSig_terms rc.ch ch next sig received

theorem Moves.terms (moves : Moves P event rc after) :
    after.ch.terms = rc.ch.terms := by
  induction moves with
  | refl => rfl
  | tail _ move ih => exact move.terms.trans ih

/-- Every state of a channel in a run has terms. -/
theorem ChannelRun.termed (run : ChannelRun P rc) : Termed rc.ch := by
  induction run with
  | funded keys seed openFields fundFields taken reply reply' opening ch opens funds =>
    have opened : Termed opening := by
      simp only [handleOpen, bind_ok, exists_unit, ensure_ok] at opens
      obtain ⟨_, opens⟩ := opens
      split at opens
      · simp only [bind_ok, exists_unit, ensure_ok, pure_ok, Prod.mk.injEq] at opens
        obtain ⟨_, _, rfl⟩ := opens
        exact ⟨rfl, rfl⟩
      · simp at opens
    obtain ⟨txid, vout, _, _, _, _, _, received⟩ := handleFund_ok opening ch taken fundFields reply' funds
    have funded : Termed (setFunding opening txid vout) := opened
    exact funded.of_terms (receiveCommitSig_terms _ _ _ _ received)
  | opened keys seed capacity push reply txid vout sig ch opens =>
    simp only [rchanOpen, bind_ok, exists_unit, ensure_ok] at opens
    obtain ⟨_, _, received⟩ := opens
    have started : Termed (openingChannel keys (reply.getD 1 []) true
        ⟨keys.address, reply.getD 0 [], capacity, txid, vout, 6, 1⟩ seed (reply.getD 2 [])
        (reply.getD 3 [])) := ⟨rfl, rfl⟩
    exact started.of_terms (receiveCommitSig_terms _ _ _ _ received)
  | next rc event before ih =>
    exact ih.of_terms (step_moves rc event).terms

/-- The two addresses of a channel are the wallet's and the peer's. -/
theorem Termed.parties (termed : Termed ch) (htlc : Htlc) :
    (offererOf ch.info htlc = ch.keys.address ∧ receiverOf ch.info htlc = ch.remoteAddress) ∨
      offererOf ch.info htlc = ch.remoteAddress ∧ receiverOf ch.info htlc = ch.keys.address := by
  rw [termed.2, Channel.remoteAddress, offererOf, receiverOf]
  cases ch.isA <;> cases htlc.offeredByA <;> simp

/-- The holder and the other party of a commitment. -/
theorem Termed.holders (termed : Termed ch) :
    ((if ch.isA then ch.info.addrA else ch.info.addrB) = ch.keys.address ∧
      (if ch.isA then ch.info.addrB else ch.info.addrA) = ch.remoteAddress) ∧
    (if !ch.isA then ch.info.addrA else ch.info.addrB) = ch.remoteAddress ∧
      (if !ch.isA then ch.info.addrB else ch.info.addrA) = ch.keys.address := by
  rw [termed.2, Channel.remoteAddress]
  cases ch.isA <;> simp

/-! ### Scripts that parse -/

/-- The HTLC scripts of an accepted state. -/
theorem htlc_scriptable (termed : Termed ch) (wallet : GenuineWallet P ch.keys)
    (peer : PlainAddress ch.remoteAddress) (htlc : Htlc) (revoker revHash : Bytes)
    (either : revoker = ch.remoteAddress ∨ revoker = ch.keys.address) (hash : LowerDigest revHash)
    (payment : LowerDigest htlc.paymentHash) (short : htlc.expiry.toNat < 10 ^ 12) :
    (htlcTree revoker (offererOf ch.info htlc) (receiverOf ch.info htlc) revHash htlc.paymentHash
      htlc.expiry).Scriptable := by
  obtain ⟨own, width⟩ := wallet.address
  have bound := peer.short
  have revokerPlain : Atomic revoker ∧ revoker.length ≤ 1820 := by
    rcases either with rfl | rfl
    · exact ⟨peer.atomic, bound⟩
    · exact ⟨own.atomic, own.short⟩
  rcases termed.parties htlc with ⟨offerer, receiver⟩ | ⟨offerer, receiver⟩
  · rw [offerer, receiver]
    exact htlcTree_scriptable _ _ _ _ _ _ revokerPlain.1 own.atomic peer.atomic (by omega) hash payment
      short
  · rw [offerer, receiver]
    exact htlcTree_scriptable _ _ _ _ _ _ revokerPlain.1 peer.atomic own.atomic (by omega) hash payment
      short

/-- The scripts of either commitment of an accepted state parse. -/
theorem scripts_parse (termed : Termed ch) (wallet : GenuineWallet P ch.keys)
    (peer : PlainAddress ch.remoteAddress) (state : State) (plain : PlainState state) (holderA : Bool)
    (revHash script : Bytes) (hash : LowerDigest revHash)
    (member : script ∈ commitmentScripts ch.info holderA state revHash) :
    ∃ tree, parse script = .ok tree := by
  have own := wallet.address.1
  have sides : ((if holderA then ch.info.addrA else ch.info.addrB) = ch.keys.address ∨
        (if holderA then ch.info.addrA else ch.info.addrB) = ch.remoteAddress) ∧
      ((if holderA then ch.info.addrB else ch.info.addrA) = ch.remoteAddress ∨
        (if holderA then ch.info.addrB else ch.info.addrA) = ch.keys.address) := by
    obtain ⟨⟨first, second⟩, third, fourth⟩ := termed.holders
    by_cases same : holderA = ch.isA
    · subst same
      exact ⟨.inl first, .inl second⟩
    · obtain rfl : holderA = !ch.isA := by
        revert same
        cases holderA <;> cases ch.isA <;> simp
      exact ⟨.inr third, .inr fourth⟩
  simp only [commitmentScripts, List.mem_append, List.mem_map] at member
  rcases member with first | ⟨htlc, listed, rfl⟩
  · split at first
    · rw [List.mem_singleton.mp first, ← toLocalTree_text, termed.1]
      refine ⟨_, (toLocalTree_scriptable _ _ revHash 6 ?_ ?_ hash (by decide)).parses⟩
      · rcases sides.1 with same | same
        · exact same ▸ own
        · exact same ▸ peer
      · rcases sides.2 with same | same
        · exact same ▸ peer
        · exact same ▸ own
    · simp at first
  · obtain ⟨payment, short⟩ := plain htlc listed
    rw [← htlcTree_text]
    exact ⟨_, (htlc_scriptable termed wallet peer htlc _ revHash sides.2 hash payment short).parses⟩

/-! ### Spends that are authorized -/

/-- The witnesses are not part of what is signed. -/
theorem sighash_witnesses (tx bare : Transaction)
    (same : tx.inputs.map TxInput.outpoint = bare.inputs.map TxInput.outpoint)
    (rest : { tx with inputs := bare.inputs } = bare) : sighash P tx = sighash P bare := by
  have texts : ∀ list : List TxInput, inputsText list =
      (list.map TxInput.outpoint).flatMap (fun outpoint => item outpoint.1 outpoint.2.toNat) := by
    intro list
    rw [List.flatMap_map]
    rfl
  have front : inputsText tx.inputs = inputsText bare.inputs := by rw [texts, texts, same]
  rw [← rest]
  simp only [sighash, hashTransaction, transactionText, front]

/-- The key of the endpoint and a preimage authorize a spend from an output whose script
they satisfy. -/
theorem spend_authorized (wallet : GenuineWallet P keys) (parent : Transaction)
    (wide : parent.outputs.length < 2 ^ 32) (vout : Nat) (tree : Node) (scriptable : tree.Scriptable)
    (placed : (parent.outputs.map TxOutput.recipient)[vout]? = some (scriptAddress P tree.text))
    (message : Bytes) (preimage : Option Bytes) (spendHeight utxoHeight : UInt64)
    (lower : ∀ known ∈ preimage, isLowerHexString known (2 * kMaxPreimageBytes) = true)
    (satisfied : tree.value P ⟨message, spendHeight, utxoHeight⟩
      (keys.publicKey, keys.signMessageHybrid message) preimage = true)
    (signs : tree.signs P ⟨message, spendHeight, utxoHeight⟩
      (keys.publicKey, keys.signMessageHybrid message) = true)
    (opens : ∀ known ∈ preimage, tree.opens P (some known) = true) :
    ∃ recipient,
      (parent.outputs.map TxOutput.recipient)[(UInt32.ofNat vout).toNat]? = some recipient ∧
      verifyInput P recipient (encodeWitness ⟨tree.text,
        [(keys.publicKey, keys.signMessageHybrid message)], preimage.toList⟩)
        ⟨message, spendHeight, utxoHeight⟩ = .ok () := by
  have inside : vout < parent.outputs.length := by
    simpa using (List.getElem?_eq_some_iff.mp placed).1
  have index : (UInt32.ofNat vout).toNat = vout :=
    UInt32.toNat_ofNat_of_lt' (by rw [UInt32.size]; omega)
  refine ⟨_, index.symm ▸ placed, ?_⟩
  exact verify_single tree scriptable _ _ preimage (wallet.plain message) lower satisfied signs opens

theorem sweep_authorized (wallet : GenuineWallet P ch.keys) (parent : Transaction)
    (wide : parent.outputs.length < 2 ^ 32) (vout : Nat) (tree : Node) (scriptable : tree.Scriptable)
    (placed : (parent.outputs.map TxOutput.recipient)[vout]? = some (scriptAddress P tree.text))
    (preimage : Option Bytes) (nonce spendHeight utxoHeight : UInt64)
    (lower : ∀ known ∈ preimage, isLowerHexString known (2 * kMaxPreimageBytes) = true)
    (satisfied : ∀ message, tree.value P ⟨message, spendHeight, utxoHeight⟩
      (ch.keys.publicKey, ch.keys.signMessageHybrid message) preimage = true)
    (signs : ∀ message, tree.signs P ⟨message, spendHeight, utxoHeight⟩
      (ch.keys.publicKey, ch.keys.signMessageHybrid message) = true)
    (opens : ∀ known ∈ preimage, tree.opens P (some known) = true) :
    Authorized P parent (sweep P ch parent vout tree.text preimage.toList nonce) spendHeight
      utxoHeight := by
  intro input member
  obtain rfl := List.mem_singleton.mp member
  refine ⟨rfl, ?_⟩
  have signed : sighash P (sweep P ch parent vout tree.text preimage.toList nonce) =
      sighash P (bareSweep P ch parent vout nonce) := sighash_witnesses _ _ rfl rfl
  rw [signed]
  exact spend_authorized wallet parent wide vout tree scriptable placed _ preimage spendHeight
    utxoHeight lower (satisfied _) (signs _) opens

/-- An output that is found has the address. -/
theorem freeOutput_recipient (tx : Transaction) (taken : List Nat) (address : Bytes) (index : Nat)
    (found : freeOutput tx taken address = some index) :
    (tx.outputs.map TxOutput.recipient)[index]? = some address := by
  have suits := List.find?_some found
  simp only [Bool.and_eq_true, beq_iff_eq] at suits
  exact suits.2

/-- An output of the broadcast with the address of a script that the penalty spends. -/
def Punishable (ch : Channel) (broadcast : Transaction) (state : State) (revHash : Bytes)
    (out : Nat × Bytes) : Prop :=
  (broadcast.outputs.map TxOutput.recipient)[out.1]? = some (scriptAddress P out.2) ∧
    (out.2 = toLocalScript ch.remoteAddress ch.keys.address revHash ch.info.toSelfDelay ∨
      ∃ htlc ∈ state.htlcs, out.2 = htlcScript ch.keys.address (offererOf ch.info htlc)
        (receiverOf ch.info htlc) revHash htlc.paymentHash htlc.expiry)

/-- The outputs that the penalty spends have the addresses of its scripts. -/
theorem penaltyOutputs_scripts (ch : Channel) (broadcast : Transaction) (state : State)
    (revHash : Bytes) (out : Nat × Bytes)
    (member : out ∈ penaltyOutputs P ch broadcast state revHash) :
    (broadcast.outputs.map TxOutput.recipient)[out.1]? = some (scriptAddress P out.2) ∧
      (out.2 = toLocalScript ch.remoteAddress ch.keys.address revHash ch.info.toSelfDelay ∨
        ∃ htlc ∈ state.htlcs, out.2 = htlcScript ch.keys.address (offererOf ch.info htlc)
          (receiverOf ch.info htlc) revHash htlc.paymentHash htlc.expiry) := by
  refine List.foldlRecOn (motive := fun (outs : List (Nat × Bytes)) =>
    ∀ out ∈ outs, Punishable (P := P) ch broadcast state revHash out) state.htlcs _ ?_ ?_ out member
  · intro first listed
    obtain ⟨index, found, rfl⟩ := List.mem_map.mp listed
    exact ⟨freeOutput_recipient _ _ _ _ (Option.mem_toList.mp found), .inl rfl⟩
  · intro outs known htlc inside
    dsimp only
    split
    · rename_i index found
      intro out listed
      rcases List.mem_append.mp listed with before | new
      · exact known out before
      · obtain rfl := List.mem_singleton.mp new
        exact ⟨freeOutput_recipient _ _ _ _ found, .inr ⟨htlc, inside, rfl⟩⟩
    · exact known

theorem agreedState_accepted (ch : Channel) (n : Nat) (state : State)
    (agreed : ch.agreedState n = some state) : Accepted ch state := by
  unfold Channel.agreedState at agreed
  split at agreed
  · exact .inl (Option.some.inj agreed).symm
  · exact .inr (.inr (.inl ⟨n, agreed⟩))

theorem candidates_accepted (ch : Channel) (n : Nat) (state : State)
    (candidate : state ∈ ch.candidates n) : Accepted ch state := by
  rcases List.mem_append.mp candidate with past | gone
  · exact .inr (.inr (.inl ⟨n, Option.mem_toList.mp past⟩))
  · exact .inr (.inr (.inr (List.mem_filter.mp gone).1))

/-- The delayed spend of the endpoint's own output. -/
theorem delayed_authorized (termed : Termed ch) (wallet : GenuineWallet P ch.keys)
    (peer : PlainAddress ch.remoteAddress) (commitment tx : Transaction)
    (spendHeight utxoHeight : UInt64) (wide : commitment.outputs.length < 2 ^ 32)
    (swept : sweepToLocal P ch commitment = some tx) (later : utxoHeight ≤ spendHeight)
    (delay : ch.info.toSelfDelay ≤ spendHeight - utxoHeight) :
    Authorized P commitment tx spendHeight utxoHeight := by
  simp only [sweepToLocal, Option.bind_eq_bind, Option.bind_eq_some_iff] at swept
  obtain ⟨vout, found, swept⟩ := swept
  split at swept
  · cases swept
  · rw [← Option.some.inj swept]
    rw [← toLocalTree_text] at found ⊢
    refine sweep_authorized wallet commitment wide vout _ ?_ (freeOutput_recipient _ _ _ _ found) none _
      _ _ (by simp) ?_ ?_ (by simp)
    · rw [termed.1]
      exact toLocalTree_scriptable _ _ _ 6 wallet.address.1 peer (revHash_lowerDigest ch _)
        (by decide)
    · intro message
      have old : ch.info.toSelfDelay.toNat ≤ (spendHeight - utxoHeight).toNat :=
        UInt64.le_iff_toNat_le.mp delay
      simp only [toLocalTree, Node.value, wallet.signs, later, old, decide_true, Bool.and_true,
        Bool.or_true]
    · intro message
      simp [toLocalTree, Node.signs, wallet.signs]

/-- What a spend of an HTLC output is made of. -/
theorem sweepHtlcSuccess_some (ch : Channel) (commitment tx : Transaction) (mine : Bool) (id : UInt64)
    (preimage : Bytes) (swept : sweepHtlcSuccess P ch commitment mine id preimage = some tx) :
    ∃ state htlc revHash vout, ch.agreedState commitment.nonce.toNat = some state ∧
      findHtlc state id = some htlc ∧
      ch.hashOf P mine commitment.nonce.toNat = some revHash ∧
      (commitment.outputs.map TxOutput.recipient)[vout]? = some (scriptAddress P
        (htlcScript (if mine then ch.remoteAddress else ch.keys.address) (offererOf ch.info htlc)
          (receiverOf ch.info htlc) revHash htlc.paymentHash htlc.expiry)) ∧
      tx = sweep P ch commitment vout
        (htlcScript (if mine then ch.remoteAddress else ch.keys.address) (offererOf ch.info htlc)
          (receiverOf ch.info htlc) revHash htlc.paymentHash htlc.expiry)
        (if preimage.isEmpty then [] else [preimage])
        (((4 : UInt64) <<< 40) + (commitment.nonce <<< 8) + id) := by
  simp only [sweepHtlcSuccess, Option.bind_eq_bind, Option.bind_eq_some_iff,
    Option.ite_none_left_eq_some, Option.some.injEq] at swept
  obtain ⟨state, agreed, htlc, listed, revHash, hash, _, position, _, placed, swept⟩ := swept
  exact ⟨state, htlc, revHash, _, agreed, listed, hash, not_not.mp placed, swept.symm⟩

/-- The spend of an HTLC output with its preimage, or without one after its expiry. -/
theorem htlc_authorized (termed : Termed ch) (wallet : GenuineWallet P ch.keys)
    (plain : Plain P ch) (commitment tx : Transaction) (mine : Bool) (id : UInt64) (preimage : Bytes)
    (state : State) (htlc : Htlc) (spendHeight utxoHeight : UInt64)
    (wide : commitment.outputs.length < 2 ^ 32)
    (swept : sweepHtlcSuccess P ch commitment mine id preimage = some tx)
    (agreed : ch.agreedState commitment.nonce.toNat = some state)
    (listed : findHtlc state id = some htlc) (right : (receiverOf ch.info htlc = ch.keys.address ∧
        hashPreimageHex P preimage = htlc.paymentHash ∧
        isLowerHexString preimage (2 * kMaxPreimageBytes) = true) ∨
      offererOf ch.info htlc = ch.keys.address ∧ preimage = [] ∧ htlc.expiry ≤ spendHeight) :
    Authorized P commitment tx spendHeight utxoHeight := by
  obtain ⟨state', htlc', revHash, vout, agreed', listed', hash, placed, rfl⟩ :=
    sweepHtlcSuccess_some ch commitment tx mine id preimage swept
  obtain rfl := Option.some.inj (agreed.symm.trans agreed')
  obtain rfl := Option.some.inj (listed.symm.trans listed')
  obtain ⟨payment, short⟩ := plain.states state (agreedState_accepted ch _ _ agreed) htlc
    (List.mem_of_find?_eq_some listed)
  have digest : LowerDigest revHash := by
    cases mine with
    | true =>
      rw [← Option.some.inj hash]
      exact revHash_lowerDigest ch _
    | false => exact plain.hashes _ _ hash
  have either : (if mine then ch.remoteAddress else ch.keys.address) = ch.remoteAddress ∨
      (if mine then ch.remoteAddress else ch.keys.address) = ch.keys.address := by
    cases mine <;> simp
  have scriptable := htlc_scriptable termed wallet plain.address htlc _ revHash either digest payment short
  rw [← htlcTree_text] at placed ⊢
  rcases right with ⟨receiver, opens, lower⟩ | ⟨offerer, rfl, expired⟩
  · have filled : (if preimage.isEmpty then [] else [preimage]) = (some preimage).toList := by
      cases preimage with
      | nil => simp [isLowerHexString] at lower
      | cons => rfl
    rw [filled]
    refine sweep_authorized wallet commitment wide vout _ scriptable placed (some preimage) _ _ _
      (by simpa using lower) ?_ ?_ ?_
    · intro message
      simp [htlcTree, Node.value, receiver, wallet.signs, opens]
    · intro message
      simp [htlcTree, Node.signs, receiver, wallet.signs]
    · simp [htlcTree, Node.opens, opens]
  · refine sweep_authorized wallet commitment wide vout _ scriptable placed none _ _ _ (by simp) ?_ ?_
      (by simp)
    · intro message
      have after := UInt64.le_iff_toNat_le.mp expired
      simp [htlcTree, Node.value, offerer, wallet.signs, after]
    · intro message
      simp [htlcTree, Node.signs, offerer, wallet.signs]

/-- The penalty spends all its inputs. -/
theorem penalty_authorized (termed : Termed ch) (wallet : GenuineWallet P ch.keys)
    (plain : Plain P ch) (broadcast tx : Transaction) (spendHeight utxoHeight : UInt64)
    (wide : broadcast.outputs.length < 2 ^ 32) (penalty : penaltyFor P ch broadcast = some tx) :
    Authorized P broadcast tx spendHeight utxoHeight := by
  simp only [penaltyFor, Option.bind_eq_bind, Option.bind_eq_some_iff] at penalty
  obtain ⟨secret, revealed, revHash, stored, state, found, penalty⟩ := penalty
  obtain ⟨lower, hash⟩ := plain.secrets _ _ revealed
  obtain rfl : revHash = hashPreimageHex P secret := Option.some.inj (stored.symm.trans hash)
  have digest := plain.hashes _ _ stored
  have accepted := candidates_accepted ch _ _ (List.mem_of_find?_eq_some found)
  split at penalty
  · cases penalty
  split at penalty
  · cases penalty
  rw [← Option.some.inj penalty]
  intro input member
  obtain ⟨out, taken, rfl⟩ := List.mem_map.mp member
  refine ⟨rfl, ?_⟩
  obtain ⟨placed, script⟩ := penaltyOutputs_scripts ch broadcast state _ out taken
  -- both kinds of scripts have the same first branch
  obtain ⟨rest, scriptable, text⟩ : ∃ rest : Node,
      (Node.or (.and (.pk ch.keys.address) (.sha3 (hashPreimageHex P secret))) rest).Scriptable ∧
        out.2 = (Node.or (.and (.pk ch.keys.address) (.sha3 (hashPreimageHex P secret))) rest).text := by
    rcases script with own | ⟨htlc, listed, offered⟩
    · rw [termed.1] at own
      exact ⟨_, toLocalTree_scriptable _ _ _ 6 plain.address wallet.address.1 digest (by decide),
        own.trans (toLocalTree_text _ _ _ 6).symm⟩
    · obtain ⟨payment, short⟩ := plain.states state accepted htlc listed
      exact ⟨_, htlc_scriptable termed wallet plain.address htlc _ _ (.inr rfl) digest payment short,
        offered.trans (htlcTree_text _ _ _ _ _ _).symm⟩
  have signed := sighash_witnesses (P := P) (justiceTx P ch broadcast
    (penaltyOutputs P ch broadcast state (hashPreimageHex P secret)) secret
    ((penaltyOutputs P ch broadcast state (hashPreimageHex P secret)).map
      (fun out => amountAt broadcast out.1)).sum)
    { inputs := (penaltyOutputs P ch broadcast state (hashPreimageHex P secret)).map
        (fun out => ⟨hashTransaction P broadcast, UInt32.ofNat out.1, []⟩)
      outputs := [⟨ch.keys.address, ((penaltyOutputs P ch broadcast state
        (hashPreimageHex P secret)).map (fun out => amountAt broadcast out.1)).sum - ch.info.fee⟩]
      signer := []
      signerPubkey := []
      signature := []
      fee := ch.info.fee
      nonce := ((2 : UInt64) <<< 40) + broadcast.nonce
      shielded := [] } (by simp [justiceTx, TxInput.outpoint, Function.comp_def]) rfl
  rw [signed]
  rw [text] at placed ⊢
  refine spend_authorized wallet broadcast wide out.1 _ scriptable placed _ (some secret) spendHeight
    utxoHeight (by simpa using lower) ?_ ?_ ?_
  · simp [Node.value, wallet.signs]
  · simp [Node.signs, wallet.signs]
  · simp [Node.opens]

/-- As long as what the peer has sent can be read in scripts, every script of every accepted
state parses, and the spends of the endpoint are authorized. -/
theorem accepted_scripts_spendable (P : Primitives) (rc : RemoteChannel) (run : ChannelRun P rc)
    (wallet : GenuineWallet P rc.ch.keys) (plain : Plain P rc.ch) : Spendable P rc.ch := by
  have termed := run.termed
  constructor
  · intro state accepted script member
    have readable := plain.states state accepted
    rcases List.mem_append.mp member with own | theirs
    · exact scripts_parse termed wallet plain.address state readable rc.ch.isA _ script
        (revHash_lowerDigest rc.ch state.n) own
    · exact scripts_parse termed wallet plain.address state readable (!rc.ch.isA) _ script
        (plain.hashFor state.n) theirs
  · intro commitment tx spendHeight utxoHeight wide swept later delay
    exact delayed_authorized termed wallet plain.address commitment tx spendHeight utxoHeight wide swept
      later delay
  · intro commitment mine id preimage tx state htlc spendHeight utxoHeight wide swept agreed listed
      receiver opens lower
    exact htlc_authorized termed wallet plain commitment tx mine id preimage state htlc spendHeight
      utxoHeight wide swept agreed listed (.inl ⟨receiver, opens, lower⟩)
  · intro commitment mine id tx state htlc spendHeight utxoHeight wide swept agreed listed offerer
      expired
    exact htlc_authorized termed wallet plain commitment tx mine id [] state htlc spendHeight
      utxoHeight wide swept agreed listed (.inr ⟨offerer, rfl, expired⟩)
  · intro broadcast tx spendHeight utxoHeight wide penalty
    exact penalty_authorized termed wallet plain broadcast tx spendHeight utxoHeight wide penalty

/-! ### A readable and an unreadable payment hash -/

/-- The sample signatures verify. -/
theorem sampleSignature_verifies (key : UInt8) (message : Bytes) :
    verifyMessageSignatureHybridUncached signingPrimitives (toHex [key]) message (sampleSignature key message) =
      true := by
  have width := (sampleDigest 4 ([key] ++ message)).property
  have present : (sampleDigest 4 ([key] ++ message)).val ≠ [] := by
    intro none
    rw [none] at width
    cases width
  have strict : ∀ octets : Bytes, octets ≠ [] → ∀ bound, 2 * octets.length ≤ bound →
      (isHexStrict (toHex octets) bound).isOk = true := by
    intro octets some bound short
    rw [(isHexStrict_ok _ _).mpr (toHex_strict octets some bound short)]
    rfl
  have front : pqPrefix.isPrefixOf (pqPrefix ++ toHex (sampleDigest 4 ([key] ++ message)).val) = true := by
    simp
  have rest : (pqPrefix ++ toHex (sampleDigest 4 ([key] ++ message)).val).drop 3 =
      toHex (sampleDigest 4 ([key] ++ message)).val := rfl
  have scheme : inferSigSchemeFromKeyBytes signingPrimitives 1 = .mlDsa87 := rfl
  have sizes : getSchemeSizes signingPrimitives .mlDsa87 = some ⟨1, 1, 4⟩ := rfl
  have allowed : sigSchemeAllowedStrict signingPrimitives .mlDsa87 = true := rfl
  have verifies : signingPrimitives.oqsVerify .mlDsa87 [key] message
      (sampleDigest 4 ([key] ++ message)).val = true := by
    simp [signingPrimitives]
  simp only [verifyMessageSignatureHybridUncached, sampleSignature, front, rest, toHex_length, List.length_singleton]
  simp only [Nat.reduceMul, Nat.reduceMod, Nat.reduceDiv, scheme, allowed, sizes,
    strict [key] (by simp) 2 (by simp), strict _ present 8 (by omega),
    hexToBytes_toHex [key] (by simp) (by simp), hexToBytes_toHex _ present (by omega), width, verifies]
  simpa using present

/-- The sample wallet signs what it verifies. -/
theorem sampleKeys_genuine : GenuineWallet signingPrimitives sampleKeys := by
  constructor
  · have bound : (addressBindsPubkey signingPrimitives sampleKeys.address
        (inferSigSchemeFromPubkeyHex signingPrimitives sampleKeys.publicKey)
        sampleKeys.publicKey).toOption = some () := by
      decide +kernel
    obtain ⟨_, bound, _⟩ := ok_of_toOption _ id () (by rw [bound]; rfl)
    exact bound
  · exact sampleSignature_verifies 7

/-- The sample wallet is A and funds a channel of a hundred. -/
def fundedInfo : Info := ⟨sampleAddress 7, sampleAddress 9, 100, ascii "funding", 0, 6, 1⟩

/-- A channel of one hundred coins before the first signature. -/
def fundedOpening : Channel :=
  openingChannel sampleKeys (toHex [9]) true fundedInfo (ascii "seed") (peerHash 0) (peerHash 1)

/-- The peer's signature on the commitment of the sample wallet. -/
def peerSigns (state : State) : Bytes :=
  sampleSignature 9 (sighash signingPrimitives (commitmentTx signingPrimitives fundedInfo true state
    (fundedOpening.revHash signingPrimitives state.n)))

/-- The funded channel, with its first state signed. -/
def fundedChannel : Channel :=
  { fundedOpening with cur := ⟨0, 60, 40, [], 0⟩, remoteSigCur := peerSigns ⟨0, 60, 40, [], 0⟩ }

theorem fundedChannel_run : ChannelRun signingPrimitives ⟨.opened, fundedChannel, .idle, []⟩ := by
  refine .opened sampleKeys (ascii "seed") 100 40
    [sampleAddress 9, toHex [9], peerHash 0, peerHash 1, ascii "40"] (ascii "funding") 0
    (peerSigns ⟨0, 60, 40, [], 0⟩) fundedChannel ?_
  have received := (receiveCommitSig_first (P := signingPrimitives) sampleKeys (toHex [9]) true
    fundedInfo (ascii "seed") (peerHash 0) (peerHash 1) ⟨0, 60, 40, [], 0⟩
    (peerSigns ⟨0, 60, 40, [], 0⟩) fundedChannel rfl).mpr ⟨sampleSignature_verifies 9 _, rfl⟩
  simp only [rchanOpen, bind_ok, exists_unit, ensure_ok]
  exact ⟨rfl, rfl, received⟩

/-- The peer's update to a state in which it offers ten for a payment hash. -/
def offered (paymentHash : Bytes) : State := ⟨1, 60, 30, [⟨0, false, 10, paymentHash, 50⟩], 1⟩

/-- The peer proposes a state with an HTLC. -/
def peerOffers (paymentHash : Bytes) : Event :=
  sampleMessage [ascii "UPD", ascii "id", encodeState (offered paymentHash),
    peerSigns (offered paymentHash), ascii "ADD", ascii "-"]

/-- A hash of the right length that is no hexadecimal text. -/
def unreadableHash : Bytes := List.replicate 128 (byte 'g')

/-- A digest in lowercase digits, as a check. -/
def digestChecked (digest : Bytes) : Bool := decide (digest.length = 128) && digest.all isLowerHex

theorem digestChecked_iff (digest : Bytes) : digestChecked digest = true ↔ LowerDigest digest := by
  simp [digestChecked, LowerDigest]

/-- The states that were accepted, in some order. -/
def Channel.accepted (ch : Channel) : List State :=
  ch.cur :: (ch.pending.toList ++ ch.history.entries.map (fun entry => entry.2) ++ ch.abandoned)

/-- Whether the peer's data can be read, one entry after the other. -/
theorem plain_of_checked (address : PlainAddress ch.remoteAddress)
    (hashes : ch.remoteHashes.entries.all (fun entry => digestChecked entry.2) = true)
    (secrets : ch.remoteSecrets.entries.all (fun entry =>
      isLowerHexString entry.2 (2 * kMaxPreimageBytes) &&
        decide (ch.remoteHashes.lookup entry.1 = some (hashPreimageHex P entry.2))) = true)
    (states : ch.accepted.all (fun state => state.htlcs.all (fun htlc =>
      digestChecked htlc.paymentHash && decide (htlc.expiry.toNat < 10 ^ 12))) = true) : Plain P ch where
  address := address
  hashes := by
    intro n hash stored
    have member : (⟨n, hash⟩ : Σ _ : Nat, Bytes) ∈ ch.remoteHashes.entries := List.of_mem_dlookup stored
    exact (digestChecked_iff hash).mp (List.all_eq_true.mp hashes _ member)
  secrets := by
    intro n secret revealed
    have member : (⟨n, secret⟩ : Σ _ : Nat, Bytes) ∈ ch.remoteSecrets.entries :=
      List.of_mem_dlookup revealed
    obtain ⟨lower, opens⟩ := Bool.and_eq_true_iff.mp (List.all_eq_true.mp secrets _ member)
    exact ⟨lower, of_decide_eq_true opens⟩
  states := by
    intro state accepted htlc listed
    have member : state ∈ ch.accepted := by
      rcases accepted with rfl | flight | ⟨n, past⟩ | gone
      · exact List.mem_cons_self
      · simp [Channel.accepted, flight]
      · have entry : (⟨n, state⟩ : Σ _ : Nat, State) ∈ ch.history.entries := List.of_mem_dlookup past
        have listed : state ∈ ch.history.entries.map (fun entry => entry.2) :=
          List.mem_map.mpr ⟨_, entry, rfl⟩
        simp [Channel.accepted, listed]
      · simp [Channel.accepted, gone]
    have readable := List.all_eq_true.mp (List.all_eq_true.mp states state member) htlc listed
    obtain ⟨payment, short⟩ := Bool.and_eq_true_iff.mp readable
    exact ⟨(digestChecked_iff _).mp payment, of_decide_eq_true short⟩

/-- Further steps make a longer run. -/
theorem ChannelRun.play (run : ChannelRun P rc) (events : List Event) :
    ChannelRun P (Channels.play P rc events).2 := by
  induction events generalizing rc with
  | nil => exact run
  | cons event rest ih => exact ih (run.next rc event)

/-- No event changes the keys of the endpoint. -/
theorem play_keys (rc : RemoteChannel) (events : List Event) :
    (Channels.play P rc events).2.ch.keys = rc.ch.keys := by
  induction events generalizing rc with
  | nil => rfl
  | cons event rest ih =>
    exact (ih (step P rc event).2).trans
      (Prod.mk.inj (step_moves (P := P) rc event).terms).1

/-- A further state, in which the peer offers some more for the same hash. -/
def offeredMore (amount : UInt64) : State :=
  ⟨2, 60, 30 - amount, [⟨0, false, 10, peerHash 11, 50⟩, ⟨1, false, amount, peerHash 11, 60⟩], 2⟩

/-- The peer proposes a state with a second HTLC. -/
def peerOffersMore (amount : UInt64) : Event :=
  sampleMessage [ascii "UPD", ascii "id", encodeState (offeredMore amount), peerSigns (offeredMore amount),
    ascii "ADD", ascii "-"]

/-- The peer offers an HTLC and reveals its first secret, takes a further offer back, and makes
another one. -/
def readableRun : List Event :=
  [peerOffers (peerHash 11), sampleMessage [ascii "REV", ascii "id", decimal 0, peerSecret 0, peerHash 2],
    peerOffersMore 10, sampleMessage [ascii "ABORT", ascii "id", decimal 2], peerOffersMore 5]

/-- The endpoint after the readable run. -/
def readableEndpoint : RemoteChannel :=
  (play signingPrimitives ⟨.opened, fundedChannel, .idle, []⟩ readableRun).2

/-- Its channel. -/
def readableChannel : Channel := readableEndpoint.ch

set_option maxRecDepth 100000 in
theorem readableChannel_evaluated :
    (readableChannel.cur = offered (peerHash 11) ∧ readableChannel.pending = some (offeredMore 5) ∧
      readableChannel.history.keys = [0] ∧ readableChannel.remoteSecrets.keys = [0] ∧
      readableChannel.abandoned = [offeredMore 10]) ∧
    (readableChannel.remoteAddress ≠ [] ∧
      readableChannel.remoteAddress.all isAtomOctet = true ∧ readableChannel.remoteAddress.length ≤ 1820) ∧
    readableChannel.remoteHashes.entries.all (fun entry => digestChecked entry.2) = true ∧
    readableChannel.remoteSecrets.entries.all (fun entry =>
      isLowerHexString entry.2 (2 * kMaxPreimageBytes) &&
        decide (readableChannel.remoteHashes.lookup entry.1 =
          some (hashPreimageHex signingPrimitives entry.2))) = true ∧
    readableChannel.accepted.all (fun state => state.htlcs.all (fun htlc =>
      digestChecked htlc.paymentHash && decide (htlc.expiry.toNat < 10 ^ 12))) = true := by
  decide +kernel

/-- The scripts of a channel with an HTLC, a revealed secret, a state in flight and one that was rolled
back are spendable when the peer is readable. -/
theorem readable_peer_spendable :
    (readableChannel.cur = offered (peerHash 11) ∧ readableChannel.pending = some (offeredMore 5) ∧
      readableChannel.history.keys = [0] ∧ readableChannel.remoteSecrets.keys = [0] ∧
      readableChannel.abandoned = [offeredMore 10]) ∧ Spendable signingPrimitives readableChannel := by
  obtain ⟨present, ⟨some, atoms, short⟩, hashes, secrets, states⟩ := readableChannel_evaluated
  have genuine : GenuineWallet signingPrimitives readableEndpoint.ch.keys := by
    rw [readableEndpoint, play_keys]
    exact sampleKeys_genuine
  have plain : Plain signingPrimitives readableChannel :=
    plain_of_checked ⟨⟨some, List.all_eq_true.mp atoms⟩, short⟩ hashes secrets states
  exact ⟨present, accepted_scripts_spendable signingPrimitives readableEndpoint
    (fundedChannel_run.play readableRun) genuine plain⟩

set_option maxRecDepth 100000 in
/-- An offer for the hash is accepted, and its script cannot be parsed. -/
theorem unreadable_offer_accepted :
    ∃ rc, ChannelRun signingPrimitives rc ∧ GenuineWallet signingPrimitives rc.ch.keys ∧
      ¬ Spendable signingPrimitives rc.ch := by
  have accepted : ∀ ch, ch = (step signingPrimitives ⟨.opened, fundedChannel, .idle, []⟩
      (peerOffers unreadableHash)).2.ch → ch.pending = some (offered unreadableHash) ∧
        (commitmentScripts ch.info ch.isA (offered unreadableHash)
          (ch.revHash signingPrimitives 1)).any (fun script => (parse script).toOption.isNone) = true := by
    rintro _ rfl
    decide +kernel
  obtain ⟨flight, unread⟩ := accepted _ rfl
  obtain ⟨script, member, unread⟩ := List.any_eq_true.mp unread
  obtain ⟨keys, _⟩ := Prod.mk.inj (step_moves (P := signingPrimitives)
    ⟨.opened, fundedChannel, .idle, []⟩ (peerOffers unreadableHash)).terms
  refine ⟨_, fundedChannel_run.next _ (peerOffers unreadableHash), keys ▸ sampleKeys_genuine, ?_⟩
  intro spendable
  obtain ⟨tree, parsed⟩ := spendable.parse _ (.inr (.inl flight)) script
    (List.mem_append_left _ member)
  rw [parsed] at unread
  cases unread

end Addition.Channels
