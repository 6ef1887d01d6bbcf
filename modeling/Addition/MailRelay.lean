import Addition.Foundations.Listings
import Addition.Foundations.Runs
import Addition.Foundations.TextLines
import Addition.PqSession
import Addition.Primitives

/-!
# The relay of private messages

A relay keeps sealed envelopes until they expire, gives them to its peers, and forgets what it gave
to whom when neither the envelope nor its deletion is kept any more. A deletion needs the token that
the sender and the recipient of an envelope can derive; it is kept as long as the envelope would have
been, so that the envelope is not taken again. Packages of keys are kept under their index.

The clock is read where the source reads it, and each reading is given with the call. Random octets
and what the libraries make of a key are given with the call as well. The number of bytes is a natural
number: it is never taken below zero.
-/

namespace Addition

open ByteStrings Checked FiniteTables PqSession Runs TextLines

/-- `PmRelay::Env`. -/
structure Envelope where
  id : Bytes
  mailbox : Bytes
  delHash : Bytes
  kemCt : Bytes
  iv : Bytes
  ct : Bytes
  expireAt : UInt64
deriving DecidableEq

/-- `PmRelay::Pkg`. -/
structure StoredPackage where
  hex : Bytes
  lineId : Bytes
  identity : Bytes
  created : UInt64
  expires : UInt64
deriving DecidableEq

/-- `PmRelay::Keys`. -/
structure MailKeys where
  pk : Bytes
  sk : Bytes
  mailbox : Bytes

/-- What the relay keeps, and the files of its keys by directory and wallet. -/
structure PmRelay where
  pkgs : Table Bytes StoredPackage
  keyDir : Bytes
  keyFiles : Table (Bytes × Bytes) (Bytes × Bytes)
  envs : Table Bytes Envelope
  tombstones : Table Bytes UInt64
  delLines : Table Bytes Bytes
  delivered : Table Bytes (Finset Bytes)
  rate : Table Bytes (List UInt64)
  bytes : Nat

/-- The linked libraries. A size is empty when the scheme is not provided. -/
structure MailSuite where
  publicKeySize : Option Nat
  ciphertextSize : Nat
  decaps : Bytes → Bytes → Option Bytes
  aesSeal : Bytes → Bytes → Bytes → Bytes → Option Bytes
  aesOpen : Bytes → Bytes → Bytes → Bytes → Option Bytes

namespace PmRelay

/-- A relay without mail. -/
def initial (keyDir : Bytes) : PmRelay := ⟨∅, keyDir, ∅, ∅, ∅, ∅, ∅, ∅, 0⟩

/-- Seconds that an envelope lives at least. -/
def kMinTtl : UInt64 := 60
/-- Seconds that an envelope lives at most. -/
def kMaxTtl : UInt64 := 604800
/-- Octets of a frame at most. -/
def kMaxFrame : Nat := 32768
/-- Envelopes that are kept at most. -/
def kMaxMessages : Nat := 4096
/-- Octets that are kept at most. -/
def kMaxStoreBytes : Nat := 33554432
/-- Envelopes of one peer in a minute. -/
def kPeerRatePerMin : Nat := 60
/-- Key packages that are kept at most. -/
def kMaxPackages : Nat := 2048

variable (P : Primitives) (S : Suite) (M : MailSuite)

/-! ### Texts -/

/-- `mailbox_of`. -/
def mailboxOf (pk : Bytes) : Bytes := (strongHash P pk).take 32

/-- `derive`. -/
def derive (ss : Bytes) (label : String) : Bytes :=
  (P.sha3 (ascii "ADDITION-PM-v1|" ++ ascii label ++ ascii "|" ++ ss)).val.take 32

/-- What the hash of an envelope is for a token. -/
def tokenHash (token : Bytes) : Bytes := (strongHash P token).take 64

/-- `is_hex`. -/
def isHexOf (text : Bytes) (least most : Nat) : Bool :=
  decide (least ≤ text.length) && decide (text.length ≤ most) && decide (text.length % 2 = 0) &&
    text.all isLowerHex

/-- `aad_of`. -/
def aadOf (mailbox : Bytes) (expiry : UInt64) (delHash id : Bytes) : Bytes :=
  ascii "PMSG|v1|" ++ id ++ ascii "|" ++ mailbox ++ ascii "|" ++ decimal expiry.toNat ++ ascii "|" ++
    delHash

/-- `Env::wire`. -/
def wire (envelope : Envelope) : Bytes :=
  ascii "PMSG|v1|" ++ envelope.id ++ ascii "|" ++ envelope.mailbox ++ ascii "|" ++
    decimal envelope.expireAt.toNat ++ ascii "|" ++ envelope.delHash ++ ascii "|" ++ envelope.kemCt ++
    ascii "|" ++ envelope.iv ++ ascii "|" ++ envelope.ct

/-- The line that deletes an envelope. -/
def deletion (id token : Bytes) : Bytes := ascii "PMDEL|" ++ id ++ ascii "|" ++ token

/-- The marks of an envelope, of a deletion and of a package. -/
def messageMark (id : Bytes) : Bytes := ascii "m:" ++ id
/-- The mark of a deletion. -/
def deletionMark (id : Bytes) : Bytes := ascii "d:" ++ id
/-- The mark of a package, by the digits it is sent with. -/
def packageMark (hex : Bytes) : Bytes := ascii "k:" ++ (strongHash P hex).take 32

/-- What an envelope takes of the store. -/
def size (envelope : Envelope) : Nat := envelope.ct.length + envelope.kemCt.length

/-! ### Changes of one container -/

/-- The marks of a peer. -/
def marks (relay : PmRelay) (peer : Bytes) : Finset Bytes := (relay.delivered.lookup peer).getD ∅

/-- A peer was given a line. -/
def mark (relay : PmRelay) (peer name : Bytes) : PmRelay :=
  { relay with delivered := relay.delivered.insert peer (insert name (relay.marks peer)) }

/-- An envelope or its deletion is kept. -/
def knows (relay : PmRelay) (id : Bytes) : Bool :=
  (relay.envs.lookup id).isSome || (relay.tombstones.lookup id).isSome

/-- An envelope is stored. -/
def add (relay : PmRelay) (envelope : Envelope) : PmRelay :=
  { relay with
    bytes := relay.bytes + size envelope
    envs := relay.envs.insert envelope.id envelope }

/-- Exchange an envelope for its deletion. -/
def bury (relay : PmRelay) (id token : Bytes) (envelope : Envelope) : PmRelay :=
  { relay with
    tombstones := relay.tombstones.insert id envelope.expireAt
    bytes := relay.bytes - size envelope
    envs := relay.envs.erase id
    delLines := relay.delLines.insert id (deletion id token) }

/-! ### Purging -/

/-- The id that a mark is about. -/
def markedId (name : Bytes) : Bytes := if 2 < name.length then name.drop 2 else name

/-- What has expired. -/
def expireAll (relay : PmRelay) (now : UInt64) : PmRelay :=
  { relay with
    pkgs := keep relay.pkgs (fun _ package => decide (now < package.expires))
    envs := keep relay.envs (fun _ envelope => decide (now < envelope.expireAt))
    bytes := relay.bytes -
      measure (fun _ envelope => size envelope)
        (keep relay.envs (fun _ envelope => !decide (now < envelope.expireAt)))
    tombstones := keep relay.tombstones (fun _ expiry => decide (now < expiry))
    delLines := keep relay.delLines (fun id _ =>
      ((relay.tombstones.lookup id).all (fun expiry => decide (now < expiry)))) }

/-- The marks about what is no longer kept. -/
def forgetMarks (relay : PmRelay) : PmRelay :=
  { relay with
    delivered := mapValues relay.delivered (fun names =>
      names.filter (fun name => relay.knows (markedId name) = true)) }

/-- `purge_locked`. -/
def purge (relay : PmRelay) (now : UInt64) : PmRelay := (relay.expireAll now).forgetMarks

/-! ### Taking envelopes -/

/-- `store_locked`: whether the envelope was known already. -/
def store (relay : PmRelay) (now : UInt64) (envelope : Envelope) : Except String Bool × PmRelay :=
  let purged := relay.purge now
  if purged.knows envelope.id then (.ok true, purged)
  else if envelope.expireAt ≤ now then (.error "expired", purged)
  else if now + kMaxTtl + 300 < envelope.expireAt then (.error "ttl too long", purged)
  else if kMaxMessages ≤ purged.envs.entries.length ∨ kMaxStoreBytes < purged.bytes + size envelope then
    (.error "relay store full", purged)
  else (.ok false, purged.add envelope)

/-- `rate_ok_locked`. -/
def rateOk (relay : PmRelay) (now : UInt64) (peer : Bytes) : Bool × PmRelay :=
  let queue := ((relay.rate.lookup peer).getD []).dropWhile (fun time => decide (time + 60 ≤ now))
  if kPeerRatePerMin ≤ queue.length then (false, { relay with rate := relay.rate.insert peer queue })
  else
    let rate := relay.rate.insert peer (queue ++ [now])
    (true, { relay with rate := if 1024 < rate.entries.length then ∅ else rate })

/-- The envelope of a wire line, if it has the form of one. -/
def readEnvelope (body : Bytes) : Option Envelope :=
  match splitAll (byte '|') body with
  | [version, id, mailbox, expiry, delHash, kemCt, iv, ct] =>
    if version ≠ ascii "v1" then none
    else
      match stoull expiry with
      | none => none
      | some expireAt =>
        if isHexOf id 32 32 ∧ isHexOf mailbox 32 32 ∧ isHexOf delHash 64 64 ∧ isHexOf kemCt 3136 3136 ∧
            isHexOf iv 24 24 ∧ isHexOf ct (2 * (256 + 16)) (2 * ((kMaxFrame + 2 + 255) / 256 * 256 + 16)) ∧
            (ct.length / 2 - 16) % 256 = 0 then
          some ⟨id, mailbox, delHash, kemCt, iv, ct, expireAt⟩
        else none
  | _ => none

/-- `accept_wire`. The clock is read for the rate and again for the store. -/
def acceptWire (relay : PmRelay) (asked stored : UInt64) (peer body : Bytes) :
    Except String Bool × PmRelay :=
  match readEnvelope body with
  | none => (.error "bad pm envelope", relay)
  | some envelope =>
    if relay.knows envelope.id then (.ok true, relay)
    else
      match relay.rateOk asked peer with
      | (false, limited) => (.error "pm rate limit", limited)
      | (true, limited) =>
        match limited.store stored envelope with
        | (.error message, left) => (.error message, left)
        | (.ok duplicate, left) => (.ok duplicate, left.mark peer (messageMark envelope.id))

/-! ### Deleting -/

/-- `accept_delete`: whether there was nothing to delete. -/
def acceptDelete (relay : PmRelay) (peer body : Bytes) : Except String Bool × PmRelay :=
  match splitAll (byte '|') body with
  | [id, token] =>
    if isHexOf id 32 32 ∧ isHexOf token 64 64 then
      if (relay.tombstones.lookup id).isSome then (.ok true, relay)
      else
        match relay.envs.lookup id with
        | none => (.ok true, relay)
        | some envelope =>
          match hexToBytes token with
          | .error _ => (.error "pm delete token mismatch", relay)
          | .ok octets =>
            if tokenHash P octets ≠ envelope.delHash then (.error "pm delete token mismatch", relay)
            else (.ok false, (relay.bury id token envelope).mark peer (deletionMark id))
    else (.error "bad pm delete", relay)
  | _ => (.error "bad pm delete", relay)

/-! ### Keys and opening -/

/-- `safe_name`. -/
def safeName (wallet : Bytes) : Bool :=
  !wallet.isEmpty && decide (wallet.length ≤ 64) &&
    wallet.all (fun octet => isDigit octet || decide (65 ≤ octet ∧ octet ≤ 90) ||
      decide (97 ≤ octet ∧ octet ≤ 122) || octet == byte '_' || octet == byte '-' ||
      octet == byte '.') &&
    decide (wallet.headD 0 ≠ byte '.')

/-- `load_key_locked` without the making of a key. -/
def loadKey (relay : PmRelay) (wallet : Bytes) : Except String MailKeys :=
  if !safeName wallet then .error "invalid wallet name"
  else if relay.keyDir.isEmpty then .error "message key dir not configured"
  else
    match relay.keyFiles.lookup (relay.keyDir, wallet) with
    | none => .error "no message key for wallet (run msg_key)"
    | some (pk, sk) => .ok ⟨pk, sk, mailboxOf P pk⟩

/-- `ensure_key`, with the key pair that the library draws, if it draws one. -/
def ensureKey (relay : PmRelay) (wallet : Bytes) (pair : Option (Bytes × Bytes)) :
    Except String MailKeys × PmRelay :=
  match relay.loadKey P wallet with
  | .ok keys => (.ok keys, relay)
  | .error message =>
    if !safeName wallet ∨ relay.keyDir.isEmpty then (.error message, relay)
    else
      match pair with
      | none => (.error "keygen failed", relay)
      | some (pk, sk) =>
        (.ok ⟨pk, sk, mailboxOf P pk⟩,
          { relay with keyFiles := relay.keyFiles.insert (relay.keyDir, wallet) (pk, sk) })

/-- The text that a frame holds behind its length. -/
def unframe (framed : Bytes) : Option Bytes :=
  match framed with
  | high :: low :: rest =>
    let size := 256 * high.toNat + low.toNat
    if rest.length < size then none else some (rest.take size)
  | _ => none

/-- `decrypt_locked`: the text and the token. -/
def decrypt (envelope : Envelope) (keys : MailKeys) : Except String (Bytes × Bytes) :=
  if M.publicKeySize.isNone then .error "ML-KEM-1024 unavailable"
  else
    match (hexToBytes envelope.kemCt).toOption.bind (fun ct =>
        if ct.length = M.ciphertextSize then M.decaps keys.sk ct else none) with
    | none => .error "decapsulation failed"
    | some ss =>
      match (hexToBytes envelope.iv).toOption.bind (fun iv =>
          (hexToBytes envelope.ct).toOption.bind (fun sealedText =>
            (M.aesOpen (derive P ss "key") iv
              (aadOf envelope.mailbox envelope.expireAt envelope.delHash envelope.id) sealedText).bind
              unframe)) with
      | none => .error "decryption failed"
      | some text => .ok (text, toHex (derive P ss "del"))

/-- `remove`. -/
def remove (relay : PmRelay) (wallet id : Bytes) : Except String Unit × PmRelay :=
  match relay.loadKey P wallet with
  | .error message => (.error message, relay)
  | .ok keys =>
    match relay.envs.lookup id with
    | none => (.error "message not found", relay)
    | some envelope =>
      if envelope.mailbox ≠ keys.mailbox then (.error "message not found", relay)
      else
        match decrypt P M envelope keys with
        | .error message => (.error message, relay)
        | .ok (_, token) => (.ok (), relay.bury id token envelope)

/-! ### Sending -/

/-- What is drawn for an envelope: its id, the vector of the cipher, and what the library
encapsulates. -/
structure Draw where
  id : {octets : Bytes // octets.length = 16}
  iv : {octets : Bytes // octets.length = 12}
  capsule : Option (Bytes × Bytes)

/-- A text behind its length, filled up with zeros. -/
def frame (text : Bytes) : Bytes :=
  let framed := UInt8.ofNat (text.length / 256) :: UInt8.ofNat text.length :: text
  framed ++ List.replicate ((framed.length + 255) / 256 * 256 - framed.length) 0

/-- The envelope that is made of a text, with the hash of its token. -/
def sealEnvelope (pk text : Bytes) (expireAt : UInt64) (draw : Draw) : Except String Envelope :=
  match draw.capsule with
  | none => .error "encapsulation failed"
  | some (ct, ss) =>
    let id := toHex draw.id.val
    let mailbox := mailboxOf P pk
    let delHash := tokenHash P (derive P ss "del")
    match M.aesSeal (derive P ss "key") draw.iv.val (aadOf mailbox expireAt delHash id) (frame text) with
    | none => .error "encryption failed"
    | some sealedText =>
      .ok ⟨id, mailbox, delHash, toHex ct, toHex draw.iv.val, toHex sealedText, expireAt⟩

/-- `send_impl`: the id of the message. The clock is read for the expiry and again for the store. -/
def send (relay : PmRelay) (written stored : UInt64) (most : Nat) (recipient text : Bytes) (ttl : UInt64)
    (draw : Draw) : Except String Bytes × PmRelay :=
  if text.isEmpty ∨ most < text.length then
    (.error s!"message must be 1..{most} bytes", relay)
  else
    match hexToBytes recipient with
    | .error _ => (.error "invalid recipient key", relay)
    | .ok pk =>
      match M.publicKeySize with
      | none => (.error "ML-KEM-1024 unavailable", relay)
      | some size =>
        if pk.length ≠ size then (.error "invalid recipient key size", relay)
        else
          match sealEnvelope P M pk text (written + max kMinTtl (min ttl kMaxTtl)) draw with
          | .error message => (.error message, relay)
          | .ok envelope =>
            match relay.store stored envelope with
            | (.error message, left) => (.error message, left)
            | (.ok _, left) => (.ok envelope.id, left)

/-! ### Packages -/

/-- `KeyPackage::from_hex`. -/
def packageFromHex (hex : Bytes) : Except String KeyPackage :=
  let digits := if (ascii "addc1:").isPrefixOf hex then hex.drop 6 else hex
  if 64000 < digits.length then .error "malformed key package"
  else
    match hexToBytes digits with
    | .error _ => .error "malformed key package"
    | .ok octets =>
      match KeyPackage.decode octets with
      | none => .error "malformed key package"
      | some package => .ok package

/-- What is kept of a package. -/
def storedPackage (hex : Bytes) (package : KeyPackage) : StoredPackage :=
  ⟨hex, packageMark P hex, S.fingerprint package.identityPub, package.created, package.expires⟩

/-- A package is stored under an index. -/
def putPackageAt (relay : PmRelay) (index : Bytes) (package : StoredPackage) : PmRelay :=
  { relay with pkgs := relay.pkgs.insert index package }

/-- `put_package_locked`: whether the package was known already. The clock is read for the checks of
the package and again where another one is there. -/
def putPackage (relay : PmRelay) (checked compared : UInt64) (hex : Bytes) :
    Except String Bool × PmRelay :=
  match packageFromHex hex with
  | .error message => (.error message, relay)
  | .ok package =>
    match package.verify S checked with
    | .error message => (.error message, relay)
    | .ok () =>
      if package.index = ascii "-" then (.error "unlisted key package", relay)
      else
        let made := storedPackage P S hex package
        match relay.pkgs.lookup package.index with
        | none =>
          if kMaxPackages ≤ relay.pkgs.entries.length then
            (.error "key-package directory full", relay)
          else (.ok false, relay.putPackageAt package.index made)
        | some there =>
          if compared < there.expires then
            if there.identity ≠ made.identity then
              (.error "index owned by another identity", relay)
            else if made.created ≤ there.created then (.ok true, relay)
            else (.ok false, relay.putPackageAt package.index made)
          else (.ok false, relay.putPackageAt package.index made)

/-- `accept_package`. -/
def acceptPackage (relay : PmRelay) (asked checked compared : UInt64) (peer body : Bytes) :
    Except String Bool × PmRelay :=
  if !(ascii "v1|").isPrefixOf body ∨ 64000 < body.length then (.error "bad key package line", relay)
  else
    match relay.rateOk asked peer with
    | (false, limited) => (.error "pm rate limit", limited)
    | (true, limited) =>
      match limited.putPackage P S checked compared (body.drop 3) with
      | (.error message, left) => (.error message, left)
      | (.ok duplicate, left) => (.ok duplicate, left.mark peer (packageMark P (body.drop 3)))

/-! ### Giving to peers -/

/-- The containers in the order in which they are enumerated. -/
structure Enumeration where
  delLines : List (Bytes × Bytes)
  envs : List (Bytes × Envelope)
  pkgs : List (Bytes × StoredPackage)

/-- An enumeration has what the relay has. -/
structure Enumerates (order : Enumeration) (relay : PmRelay) : Prop where
  delLines : Lists order.delLines relay.delLines
  envs : Lists order.envs relay.envs
  pkgs : Lists order.pkgs relay.pkgs

/-- The lines that a peer was not given. -/
def unmarked (relay : PmRelay) (peer : Bytes) (order : Enumeration) : List Bytes :=
  (order.delLines.filter (fun entry => decide (deletionMark entry.1 ∉ relay.marks peer))).map Prod.snd ++
    ((order.envs.filter (fun entry => decide (messageMark entry.1 ∉ relay.marks peer))).map
        (fun entry => wire entry.2) ++
      (order.pkgs.filter (fun entry => decide (entry.2.lineId ∉ relay.marks peer))).map
        (fun entry => ascii "KPKG|v1|" ++ entry.2.hex))

/-- `undelivered_for`, in some order of what is left after the purge. -/
def undeliveredFor (relay : PmRelay) (now : UInt64) (peer : Bytes) (most : Nat) (order : Enumeration) :
    List Bytes :=
  ((relay.purge now).unmarked peer order).take most

/-- `mark_delivered`. -/
def markDelivered (relay : PmRelay) (peer text : Bytes) : PmRelay :=
  if (ascii "PMSG|v1|").isPrefixOf text then relay.mark peer (messageMark ((text.drop 8).take 32))
  else if (ascii "PMDEL|").isPrefixOf text then relay.mark peer (deletionMark ((text.drop 6).take 32))
  else if (ascii "KPKG|v1|").isPrefixOf text then relay.mark peer (packageMark P (text.drop 8))
  else relay

/-! ### Runs -/

/-- The calls. Those that only read purge first: `inbox`, `read_all`, `fetch_mailbox`,
`undelivered_for`, `purge_expired` and `status`. -/
inductive Call
  | setKeyDir (keyDir : Bytes)
  | ensureKey (wallet : Bytes) (pair : Option (Bytes × Bytes))
  | send (written stored : UInt64) (most : Nat) (recipient text : Bytes) (ttl : UInt64) (draw : Draw)
  | acceptWire (asked stored : UInt64) (peer body : Bytes)
  | acceptDelete (peer body : Bytes)
  | remove (wallet id : Bytes)
  | publishPackage (checked compared : UInt64) (hex : Bytes)
  | acceptPackage (asked checked compared : UInt64) (peer body : Bytes)
  | lookUp (now : UInt64)
  | markDelivered (peer text : Bytes)

/-- The relay after a call. -/
def step (relay : PmRelay) : Call → PmRelay
  | .setKeyDir keyDir => { relay with keyDir := keyDir }
  | .ensureKey wallet pair => (relay.ensureKey P wallet pair).2
  | .send written stored most recipient text ttl draw =>
    (relay.send P M written stored most recipient text ttl draw).2
  | .acceptWire asked stored peer body => (relay.acceptWire asked stored peer body).2
  | .acceptDelete peer body => (relay.acceptDelete P peer body).2
  | .remove wallet id => (relay.remove P M wallet id).2
  | .publishPackage checked compared hex => (relay.putPackage P S checked compared hex).2
  | .acceptPackage asked checked compared peer body =>
    (relay.acceptPackage P S asked checked compared peer body).2
  | .lookUp now => relay.purge now
  | .markDelivered peer text => relay.markDelivered P peer text

/-- The relay after a list of calls. -/
def reached (start : PmRelay) (calls : List Call) : PmRelay := calls.foldl (step P S M) start

end PmRelay

end Addition
