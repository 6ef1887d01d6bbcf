import Addition.Foundations.Checked
import Addition.Foundations.FiniteTables
import Addition.Foundations.TextLines

/-!
# Ratchet sessions

A session starts with a key encapsulated to a published package and a signed first frame.
Each side then sends on a chain of message keys; a side that has learned a new ratchet key
of its peer encapsulates to it before its next message and starts a new chain from a new
root. Keys of messages that were jumped are kept until they come.

The libraries are a record of functions. Derived keys and sealed texts have types of their
own: a key is a string of 32 bytes, and where the source has an empty string there is no
key. A frame is what its reader finds in it. Files are tables; the overwriting of secrets
in memory and the write to a file, which can fail, are left out.
-/

namespace Addition

namespace PqSession

open ByteStrings Checked FiniteTables

/-- A key of the message authentication code: the digest of a transcript, a derived key, or
an empty string. -/
inductive MacKey (Key : Type)
  | digest (transcript : Bytes)
  | derived (key : Key)
  | empty

/-- The linked libraries. `hmac` has the first and the second 32 bytes of its output, `h32`
is the front of a digest in hexadecimal. -/
structure Suite where
  Key : Type
  Box : Type
  Seed : Type
  hmac : MacKey Key → Bytes → Key × Key
  h32 : Bytes → Bytes
  fingerprint : Bytes → Bytes
  keypair : Seed → Option (Bytes × Bytes)
  encaps : Bytes → Seed → Option (Bytes × Bytes)
  decaps : Bytes → Bytes → Option Bytes
  sign : Bytes → Bytes → Option Bytes
  sigVerify : Bytes → Bytes → Bytes → Bool
  aeadSeal : Key → Bytes → Bytes → Bytes → Box
  aeadOpen : Key → Bytes → Bytes → Box → Option Bytes
  boxSize : Box → Nat

variable (S : Suite)

/-! ### Derivations -/

/-- A key of the suite as a key of the code, or the empty one. -/
def Suite.hmacKey (key : Option S.Key) : MacKey S.Key :=
  match key with
  | none => .empty
  | some key => .derived key

/-- `kdf_rk`: the next root and a chain. -/
def Suite.kdfRk (rk : S.Key) (ss : Bytes) : S.Key × S.Key :=
  S.hmac (.derived rk) (ascii "AMLS1 rk" ++ ss)

/-- `kdf_ck`: a message key and the next chain key. -/
def Suite.kdfCk (ck : Option S.Key) : S.Key × S.Key :=
  ((S.hmac (S.hmacKey ck) [1]).1, (S.hmac (S.hmacKey ck) [2]).1)

/-- The root of a transcript. -/
def Suite.initRoot (transcript ss : Bytes) : S.Key :=
  (S.hmac (.digest transcript) (ascii "AMLS1 init" ++ ss)).1

/-- The chain of the first sender. -/
def Suite.initChain (rk : S.Key) : S.Key := (S.hmac (.derived rk) (ascii "AMLS1 chain-i")).1

/-! ### Key packages -/

/-- `KeyPackage`. -/
structure KeyPackage where
  index : Bytes
  identityPub : Bytes
  initPub : Bytes
  relayPub : Bytes
  created : UInt64
  expires : UInt64
  sig : Bytes

/-- `put`. -/
def put (octets : Bytes) : Bytes := (leBytes 4 octets.length).reverse ++ octets

/-- `put64`. -/
def put64 (value : UInt64) : Bytes := (leBytes 8 value.toNat).reverse

/-- `KeyPackage::tbs`. -/
def KeyPackage.tbs (package : KeyPackage) : Bytes :=
  ascii "AKP1|MLKEM1024+AES256GCM+HMAC-SHA3-512/MLDSA87|" ++ package.index ++ ascii "|" ++
    toHex package.identityPub ++ ascii "|" ++ toHex package.initPub ++ ascii "|" ++
    toHex package.relayPub ++ ascii "|" ++ decimal package.created.toNat ++ ascii "|" ++
    decimal package.expires.toNat

/-- `KeyPackage::encode`. -/
def KeyPackage.encode (package : KeyPackage) : Bytes :=
  ascii "AKP1" ++ put package.index ++ put package.identityPub ++ put package.initPub ++
    put package.relayPub ++ put64 package.created ++ put64 package.expires ++ put package.sig

/-- `KeyPackage::hash`. -/
def KeyPackage.hash (package : KeyPackage) : Bytes := S.h32 package.encode

/-- `Reader::get`. -/
def readSized (max : Nat) (input : Bytes) : Option (Bytes × Bytes) :=
  if input.length < 4 then none
  else
    let size := leValue (input.take 4).reverse
    if max < size ∨ input.length < 4 + size then none
    else some ((input.drop 4).take size, input.drop (4 + size))

/-- `Reader::get64`. -/
def readWord (input : Bytes) : Option (UInt64 × Bytes) :=
  if input.length < 8 then none
  else some (UInt64.ofNat (leValue (input.take 8).reverse), input.drop 8)

/-- `KeyPackage::decode`. -/
def KeyPackage.decode (input : Bytes) : Option KeyPackage :=
  if input.take 4 ≠ ascii "AKP1" then none
  else do
    let (index, rest) ← readSized 64 (input.drop 4)
    let (identityPub, rest) ← readSized 4096 rest
    let (initPub, rest) ← readSized 4096 rest
    let (relayPub, rest) ← readSized 4096 rest
    let (created, rest) ← readWord rest
    let (expires, rest) ← readWord rest
    let (sig, rest) ← readSized 8192 rest
    if rest.isEmpty then some ⟨index, identityPub, initPub, relayPub, created, expires, sig⟩ else none

/-- `KeyPackage::verify`. -/
def KeyPackage.verify (package : KeyPackage) (now : UInt64) : Except String Unit := do
  ensure (decide (package.identityPub.length = 2592) && decide (package.initPub.length = 1568) &&
    decide (package.relayPub.length = 1568)) "key package: bad key sizes"
  ensure (package.index == ascii "-" ||
    (decide (package.index.length = 32) && package.index.all isLowerHex)) "key package: bad index"
  ensure (decide (package.created < package.expires) &&
    decide (package.expires - package.created ≤ 30 * 24 * 3600) &&
    decide (package.created ≤ now + 600)) "key package: bad lifetime"
  ensure (decide (now < package.expires)) "key package expired"
  ensure (S.sigVerify package.identityPub package.tbs package.sig)
    "key package: bad ML-DSA-87 signature"

/-! ### Sessions -/

/-- `Session`: the state of the double ratchet. -/
structure Session where
  sid : Bytes
  peerFp : Bytes
  myFp : Bytes
  peerIdentity : Bytes
  peerRelay : Bytes
  rk : S.Key
  cks : Option S.Key
  ckr : Option S.Key
  ns : UInt32
  nr : UInt32
  pn : UInt32
  myPub : Bytes
  mySk : Bytes
  prevPub : Bytes
  prevSk : Bytes
  peerRk : Bytes
  stepCt : Bytes
  stepTo : Bytes
  needStep : Bool
  skipped : Table Bytes S.Key

/-- A frame of a running session. -/
structure MessageFrame where
  sid : Bytes
  rkPub : Bytes
  stepCt : Bytes
  stepTo : Bytes
  pn : UInt64
  n : UInt64
  iv : Bytes
  ct : S.Box

/-- The first frame of a session, with the encoded package of its sender. -/
structure InitFrame where
  sid : Bytes
  kpHash : Bytes
  sender : Bytes
  ct1 : Bytes
  rkPub : Bytes
  sig : Bytes
  iv : Bytes
  ct : S.Box

/-- A frame that starts a session, or one inside of it. -/
inductive Frame
  | init (frame : InitFrame S)
  | message (frame : MessageFrame S)

/-- What one sending draws at random. -/
structure Coins where
  kem : S.Seed
  key : S.Seed
  iv : Bytes

variable {S}

/-- What a message frame authenticates. -/
def MessageFrame.aad (frame : MessageFrame S) : Bytes :=
  ascii "AMLS1|M|" ++ frame.sid ++ ascii "|" ++ S.h32 frame.rkPub ++ ascii "|" ++
    S.h32 frame.stepCt ++ ascii "|" ++ frame.stepTo ++ ascii "|" ++ decimal frame.pn.toNat ++
    ascii "|" ++ decimal frame.n.toNat

/-- The ratchet step before a message, when one is needed. -/
def ratchetStep (s : Session S) (coins : Coins S) : Except String (Session S) :=
  if s.needStep = false then .ok s
  else
    match S.encaps s.peerRk coins.kem, S.keypair coins.key with
    | some (ct, ss), some (pub, sk) =>
      .ok { s with
        stepCt := ct
        stepTo := S.h32 s.peerRk
        prevPub := s.myPub
        prevSk := s.mySk
        myPub := pub
        mySk := sk
        rk := (S.kdfRk s.rk ss).1
        cks := some (S.kdfRk s.rk ss).2
        pn := s.ns
        ns := 0
        needStep := false }
    | _, _ => .error "ratchet step failed"

/-- The frame of a message under the next key of a sending chain. -/
def sealedFrame (s : Session S) (ck : S.Key) (text iv : Bytes) : MessageFrame S :=
  let bare : MessageFrame S :=
    ⟨s.sid, s.myPub, s.stepCt, s.stepTo, s.pn.toUInt64, s.ns.toUInt64, iv,
      S.aeadSeal (S.kdfCk (some ck)).1 iv [] text⟩
  { bare with ct := S.aeadSeal (S.kdfCk (some ck)).1 iv bare.aad text }

/-- `encrypt_locked`. -/
def encryptLocked (s : Session S) (text : Bytes) (coins : Coins S) :
    Except String (MessageFrame S × Session S) := do
  let s ← ratchetStep s coins
  match s.cks with
  | none => .error "session not ready to send"
  | some ck =>
    pure (sealedFrame s ck text coins.iv,
      { s with cks := some (S.kdfCk (some ck)).2, ns := s.ns + 1 })

/-! ### Skipped keys -/

/-- The name of a skipped key. -/
def skipName (rkPub : Bytes) (n : Nat) : Bytes := S.h32 rkPub ++ ascii ":" ++ decimal n

/-- The key of the chain that is left behind is stored. -/
def skipOne (s : Session S) : Session S :=
  { s with
    skipped := s.skipped.insert (skipName (S := S) s.peerRk s.nr.toNat) (S.kdfCk s.ckr).1
    ckr := some (S.kdfCk s.ckr).2
    nr := s.nr + 1 }

/-- Several message keys are skipped, one after the other. -/
def skipMany : Nat → Session S → Session S
  | 0, s => s
  | count + 1, s => skipMany count (skipOne s)

/-- The least of some names. -/
def leastName : List Bytes → Option Bytes
  | [] => none
  | name :: rest =>
    match leastName rest with
    | none => some name
    | some least => if name < least then some name else some least

/-- Erase the least names. -/
def evict : Nat → Table Bytes S.Key → Table Bytes S.Key
  | 0, skipped => skipped
  | excess + 1, skipped =>
    match leastName skipped.keys with
    | none => skipped
    | some least => evict excess (skipped.erase least)

/-- At most 256 skipped keys are kept. -/
def trim (s : Session S) : Session S :=
  { s with skipped := evict (s.skipped.keys.length - 256) s.skipped }

/-- `skip_to`, without a receiving chain nothing to do. -/
def skipTo (s : Session S) (bound : UInt32) : Except String (Session S) :=
  if s.ckr.isNone then .ok s
  else if s.nr.toNat + 512 < bound.toNat then .error "too many skipped messages"
  else .ok (trim (skipMany (bound.toNat - s.nr.toNat) s))

/-! ### Opening -/

/-- The secret key that a step was made for. -/
def stepKey (s : Session S) (stepTo : Bytes) : Option Bytes :=
  if !s.myPub.isEmpty && stepTo == S.h32 s.myPub then some s.mySk
  else if !s.prevPub.isEmpty && stepTo == S.h32 s.prevPub then some s.prevSk
  else none

/-- A new receiving chain: the peer performed a ratchet step. -/
def newChain (s : Session S) (frame : MessageFrame S) : Except String (Session S) := do
  ensure (!frame.stepCt.isEmpty) "out-of-order frame (no ratchet ciphertext)"
  let s ← skipTo s frame.pn.toUInt32
  match (stepKey s frame.stepTo).bind (fun sk => S.decaps sk frame.stepCt) with
  | none => .error "ratchet key unknown"
  | some ss =>
    pure { s with
      rk := (S.kdfRk s.rk ss).1
      ckr := some (S.kdfRk s.rk ss).2
      peerRk := frame.rkPub
      nr := 0
      needStep := true }

/-- The receiving chain of a frame. -/
def chainOf (s : Session S) (frame : MessageFrame S) : Except String (Session S) :=
  if frame.rkPub ≠ s.peerRk then newChain s frame else .ok s

/-- The message key for a frame, and the session once it is used. -/
def chooseKey (s : Session S) (frame : MessageFrame S) : Except String (S.Key × Session S) :=
  match s.skipped.lookup (skipName (S := S) frame.rkPub frame.n.toUInt32.toNat) with
  | some mk =>
    .ok (mk, { s with
      skipped := s.skipped.erase (skipName (S := S) frame.rkPub frame.n.toUInt32.toNat) })
  | none => do
    let s ← chainOf s frame
    ensure (decide (s.nr ≤ frame.n.toUInt32)) "duplicate or replayed message"
    let s ← skipTo s frame.n.toUInt32
    pure ((S.kdfCk s.ckr).1, { s with ckr := some (S.kdfCk s.ckr).2, nr := s.nr + 1 })

/-- `decrypt_locked`. A session changes only when the text is authentic. -/
def decryptLocked (s : Session S) (frame : MessageFrame S) : Except String (Bytes × Session S) := do
  let (mk, s) ← chooseKey s frame
  match S.aeadOpen mk frame.iv frame.aad frame.ct with
  | none => .error "authentication failed"
  | some text => pure (text, s)

/-! ### Wallets -/

/-- An init key that is kept until its package expires. -/
structure InitKey where
  kpHash : Bytes
  expires : UInt64
  sk : Bytes

variable (S) in
/-- What the files of a wallet hold. -/
structure Device where
  identity : Option (Bytes × Bytes)
  package : Option KeyPackage
  initKeys : List InitKey
  sessions : Table Bytes (Session S)

/-- An octet of `safe_name`. -/
def isNameOctet (octet : UInt8) : Bool :=
  isDigit octet || decide (65 ≤ octet.toNat ∧ octet.toNat ≤ 90) ||
    decide (97 ≤ octet.toNat ∧ octet.toNat ≤ 122) || (ascii "_-.").contains octet

/-- `safe_name`. -/
def safeName (name : Bytes) : Bool :=
  !name.isEmpty && decide (name.length ≤ 64) && name.head? != some (byte '.') && name.all isNameOctet

/-- `load_session`. -/
def loadSession (device : Device S) (sid : Bytes) : Except String (Session S) :=
  if !safeName sid then .error "invalid name"
  else
    match device.sessions.lookup sid with
    | none => .error "unknown session"
    | some s => .ok s

/-- `save_session`. -/
def saveSession (device : Device S) (s : Session S) : Device S :=
  { device with sessions := device.sessions.insert s.sid s }

/-- `load_identity`, for a wallet that has one. -/
def loadIdentity (device : Device S) : Except String (Bytes × Bytes) :=
  match device.identity with
  | none => .error "no messaging identity (run msg_kp_publish)"
  | some keys => .ok keys

/-- `load_package`. -/
def loadPackage (device : Device S) (now : UInt64) : Except String KeyPackage :=
  match device.package with
  | none => .error "no key package for wallet (run msg_kp_publish)"
  | some package => do
    package.verify S now
    pure package

/-- `find_init_sk`. -/
def findInitSk (device : Device S) (kpHash : Bytes) (now : UInt64) : Except String Bytes :=
  match device.initKeys.find? (fun key => key.kpHash == kpHash) with
  | none => .error "unknown or expired key package"
  | some key => if key.expires ≤ now then .error "unknown or expired key package" else .ok key.sk

/-- What the parties of a new session sign and hash. -/
def transcriptOf (sid kpHash senderHash ct1 rkPub : Bytes) : Bytes :=
  ascii "AMLS1-INIT|" ++ sid ++ ascii "|" ++ kpHash ++ ascii "|" ++ senderHash ++ ascii "|" ++
    S.h32 ct1 ++ ascii "|" ++ S.h32 rkPub

/-- What an init frame authenticates. -/
def initAad (transcript : Bytes) : Bytes := ascii "AMLS1|I|" ++ S.h32 transcript

/-- The library call's outcome, or the source's message when it fails. -/
def required {α : Type} (outcome : Option α) (message : String) : Except String α :=
  match outcome with
  | none => .error message
  | some value => .ok value

/-- The session of the first sender, and its frame. -/
def firstSession (sid myFp : Bytes) (peer mine : KeyPackage) (ct1 ss1 myPub mySk sig text iv : Bytes) :
    Session S × Frame S :=
  let transcript := transcriptOf (S := S) sid (peer.hash S) (mine.hash S) ct1 myPub
  let rk := S.initRoot transcript ss1
  let (mk, cks) := S.kdfCk (some (S.initChain rk))
  (⟨sid, S.fingerprint peer.identityPub, myFp, peer.identityPub, peer.relayPub, rk, some cks, none,
      1, 0, 0, myPub, mySk, [], [], [], [], ascii "-", false, ∅⟩,
    .init ⟨sid, peer.hash S, mine.encode, ct1, myPub, sig, iv,
      S.aeadSeal mk iv (initAad (S := S) transcript) text⟩)

/-- `start_frame`, with the sixteen random bytes of the session's name. -/
def startFrame (device : Device S) (peer : KeyPackage) (text : Bytes) (now : UInt64) (name : Bytes)
    (coins : Coins S) : Except String (Frame S × Device S) := do
  peer.verify S now
  let (idPk, idSk) ← loadIdentity device
  let mine ← loadPackage device now
  let (ct1, ss1) ← required (S.encaps peer.initPub coins.kem) "handshake keygen failed"
  let (myPub, mySk) ← required (S.keypair coins.key) "handshake keygen failed"
  let sid := toHex name
  let sig ← required (S.sign idSk (transcriptOf (S := S) sid (peer.hash S) (mine.hash S) ct1 myPub))
    "ML-DSA-87 signing failed"
  let (s, frame) := firstSession sid (S.fingerprint idPk) peer mine ct1 ss1 myPub mySk sig text coins.iv
  pure (frame, saveSession device s)

/-- `send_frame`. -/
def sendFrame (device : Device S) (sid text : Bytes) (coins : Coins S) :
    Except String (MessageFrame S × Device S) := do
  let s ← loadSession device sid
  let (frame, s) ← encryptLocked s text coins
  pure (frame, saveSession device s)

/-! ### `open_frame` -/

/-- What an opened frame gives: its session, the fingerprint of its sender and the text. -/
structure Opened where
  sid : Bytes
  fromFp : Bytes
  text : Bytes

/-- The limits of the reader for an init frame. -/
def InitFrame.readable (frame : InitFrame S) : Bool :=
  decide (frame.sid.length ≤ 64) && decide (frame.kpHash.length ≤ 64) &&
    decide (frame.sender.length ≤ 16384) && decide (frame.ct1.length ≤ 4096) &&
    decide (frame.rkPub.length ≤ 4096) && decide (frame.sig.length ≤ 8192) &&
    decide (frame.iv.length = 12) && decide (S.boxSize frame.ct ≤ 40000)

/-- The limits of the reader for a message frame. -/
def MessageFrame.readable (frame : MessageFrame S) : Bool :=
  decide (frame.sid.length ≤ 64) && decide (frame.rkPub.length ≤ 4096) &&
    decide (frame.stepCt.length ≤ 4096) && decide (frame.stepTo.length ≤ 64) &&
    decide (frame.pn ≤ 0xffffffff) && decide (frame.n ≤ 0xffffffff) &&
    decide (frame.iv.length = 12) && decide (S.boxSize frame.ct ≤ 40000)

/-- The session that an init frame starts, with the key of its text. -/
def secondSession (frame : InitFrame S) (transcript ss1 myFp : Bytes) (sender : KeyPackage) :
    S.Key × Session S :=
  let rk := S.initRoot transcript ss1
  let (mk, ckr) := S.kdfCk (some (S.initChain rk))
  (mk, ⟨frame.sid, S.fingerprint sender.identityPub, myFp, sender.identityPub, sender.relayPub, rk,
    none, some ckr, 0, 1, 0, [], [], [], [], frame.rkPub, [], ascii "-", true, ∅⟩)

/-- `open_frame` on an init frame. -/
def openInit (device : Device S) (frame : InitFrame S) (now : UInt64) :
    Except String (Opened × Device S) := do
  ensure (frame.readable && safeName frame.sid) "malformed init frame"
  ensure (device.sessions.lookup frame.sid).isNone "duplicate or replayed message"
  let sender ← required (KeyPackage.decode frame.sender) "malformed key package"
  sender.verify S now
  let transcript := transcriptOf (S := S) frame.sid frame.kpHash (sender.hash S) frame.ct1 frame.rkPub
  ensure (S.sigVerify sender.identityPub transcript frame.sig) "init: bad ML-DSA-87 signature"
  let initSk ← findInitSk device frame.kpHash now
  let ss1 ← required (S.decaps initSk frame.ct1) "decapsulation failed"
  let (idPk, _) ← loadIdentity device
  let (mk, s) := secondSession frame transcript ss1 (S.fingerprint idPk) sender
  let text ← required (S.aeadOpen mk frame.iv (initAad (S := S) transcript) frame.ct)
    "authentication failed"
  pure (⟨frame.sid, s.peerFp, text⟩, saveSession device s)

/-- `open_frame` on a message frame. -/
def openMessage (device : Device S) (frame : MessageFrame S) :
    Except String (Opened × Device S) := do
  ensure frame.readable "malformed frame"
  let s ← loadSession device frame.sid
  let (text, s) ← decryptLocked s frame
  pure (⟨frame.sid, s.peerFp, text⟩, saveSession device s)

/-- `open_frame`: the outcome, and the device after it. -/
def openFrame (device : Device S) (frame : Frame S) (now : UInt64) :
    Except String Opened × Device S :=
  match (match frame with
    | .init frame => openInit device frame now
    | .message frame => openMessage device frame) with
  | .error message => (.error message, device)
  | .ok (opened, left) => (.ok opened, left)

end PqSession

end Addition
