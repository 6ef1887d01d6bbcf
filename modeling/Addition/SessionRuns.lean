import Addition.SessionFiles
import Addition.SymbolicSuite

/-!
# Sessions that a wallet keeps

Every session that starting, sending and opening leave in a wallet can be written to its file:
its names are digests, its keys have their widths, and a key that came in a frame is as short as
the reader of frames allows. So its file gives it back, with empty keys and all skipped ones.
-/

namespace Addition

namespace PqSession

open ByteStrings Checked FiniteTables TextLines StreamWords

variable {S : Suite}

/-- The widths of what the libraries return, and the octets of a derived key. -/
structure Suite.Widths (S : Suite) (octets : S.Key → Bytes) : Prop where
  key : ∀ key, (octets key).length = 32
  digest : ∀ text, (S.h32 text).length = 32 ∧ ∀ digit ∈ S.h32 text, isLowerHex digit = true
  fingerprint : ∀ pub, (S.fingerprint pub).length = 40 ∧
    ∀ digit ∈ S.fingerprint pub, isLowerHex digit = true
  pair : ∀ {seed pub sk}, S.keypair seed = some (pub, sk) → pub.length = 1568 ∧ sk.length = 3168
  capsule : ∀ {pub coins ct ss}, S.encaps pub coins = some (ct, ss) → ct.length = 1568

/-! ### The file of a session -/

/-- The octets of the skipped keys. -/
def skippedOctets (octets : S.Key → Bytes) (skipped : Table Bytes S.Key) : Table Bytes Bytes :=
  putAll ∅ (skipped.entries.map (fun entry => (entry.1, octets entry.2)))

theorem lookup_skippedOctets (octets : S.Key → Bytes) (skipped : Table Bytes S.Key) (id : Bytes) :
    (skippedOctets octets skipped).lookup id = (skipped.lookup id).map octets := by
  have mapped := (lists_entries skipped).lookup_map (fun entry => octets entry.2) id
  rw [List.map_map] at mapped
  exact mapped

/-- The octets of an optional key: none for no key. -/
def keyOctets (octets : S.Key → Bytes) (key : Option S.Key) : Bytes := (key.map octets).getD []

/-- A session as its members are in memory. -/
def Session.file (octets : S.Key → Bytes) (s : Session S) : SessionFile :=
  ⟨s.sid, s.peerFp, s.myFp, s.peerIdentity, s.peerRelay, octets s.rk, keyOctets octets s.cks,
    keyOctets octets s.ckr, s.ns, s.nr, s.pn, s.myPub, s.mySk, s.prevPub, s.prevSk, s.peerRk,
    s.stepCt, s.stepTo, s.needStep, skippedOctets octets s.skipped⟩

/-- What a session that a wallet keeps is like: names of one word, short octets. -/
structure Storable (s : Session S) : Prop where
  sid : OneWord s.sid
  peerFp : OneWord s.peerFp
  myFp : OneWord s.myFp
  stepTo : OneWord s.stepTo
  peerIdentity : Short s.peerIdentity
  peerRelay : Short s.peerRelay
  myPub : Short s.myPub
  mySk : Short s.mySk
  prevPub : Short s.prevPub
  prevSk : Short s.prevSk
  peerRk : Short s.peerRk
  stepCt : Short s.stepCt
  skipped : ∀ name key, s.skipped.lookup name = some key → OneWord name

variable {s : Session S} {text name : Bytes} {coins : Coins S} {left : Session S}
  {frame : MessageFrame S} {now : UInt64} {idPk : Bytes} {peer : KeyPackage} {ss1 : Bytes}
  {device : Device S} {sid : Bytes} {opened : Opened}

theorem Storable.writable {octets : S.Key → Bytes} (widths : S.Widths octets)
    (storable : Storable s) : (s.file octets).Writable := by
  have width : ∀ key, Short (octets key) := by
    intro key
    rw [Short, widths.key]
    decide
  have optional : ∀ key, Short (keyOctets octets key) := by
    intro key
    cases key with
    | none => exact Nat.zero_le _
    | some key => exact width key
  refine ⟨storable.sid, storable.peerFp, storable.myFp, storable.stepTo, storable.peerIdentity,
    storable.peerRelay, widths.key _, optional _, optional _, storable.myPub, storable.mySk,
    storable.prevPub, storable.prevSk, storable.peerRk, storable.stepCt, ?_⟩
  intro id mk found
  obtain ⟨key, stored, rfl⟩ := Option.map_eq_some_iff.mp
    ((lookup_skippedOctets octets s.skipped id).symm.trans found)
  exact ⟨storable.skipped id key stored, width key⟩

/-! ### Words and widths -/

theorem oneWord_lower (some : 0 < text.length)
    (lower : ∀ digit ∈ text, isLowerHex digit = true) : OneWord text :=
  ⟨spaceless_lower lower, List.ne_nil_of_length_pos some⟩

variable {octets : S.Key → Bytes}

theorem Suite.Widths.oneWord_h32 (widths : S.Widths octets) (text : Bytes) : OneWord (S.h32 text) :=
  oneWord_lower (by rw [(widths.digest text).1]; decide) (widths.digest text).2

theorem Suite.Widths.oneWord_fingerprint (widths : S.Widths octets) (pub : Bytes) :
    OneWord (S.fingerprint pub) :=
  oneWord_lower (by rw [(widths.fingerprint pub).1]; decide) (widths.fingerprint pub).2

theorem oneWord_safeName (safe : safeName name = true) : OneWord name := by
  simp only [safeName, Bool.and_eq_true, Bool.not_eq_true', List.isEmpty_eq_false_iff,
    decide_eq_true_eq, List.all_eq_true] at safe
  obtain ⟨⟨⟨some, _⟩, _⟩, each⟩ := safe
  refine ⟨fun octet member => ?_, some⟩
  have allowed := each octet member
  simp only [isNameOctet, isDigit, Bool.or_eq_true, decide_eq_true_eq, List.contains_eq_mem] at allowed
  simp only [isSpace, Bool.or_eq_false_iff, beq_eq_false_iff_ne, decide_eq_false_iff_not]
  rcases allowed with ((digit | upper) | lower) | mark
  · exact ⟨by rintro rfl; exact absurd digit (by decide), by omega⟩
  · exact ⟨by rintro rfl; exact absurd upper (by decide), by omega⟩
  · exact ⟨by rintro rfl; exact absurd lower (by decide), by omega⟩
  · have marks : octet ∈ [byte '_', byte '-', byte '.'] := mark
    simp only [List.mem_cons, List.not_mem_nil, or_false] at marks
    rcases marks with rfl | rfl | rfl <;> decide

theorem oneWord_skipName (widths : S.Widths octets) (rkPub : Bytes) (n : Nat) :
    OneWord (skipName (S := S) rkPub n) := by
  have digest := widths.oneWord_h32 rkPub
  refine ⟨?_, by simp [skipName, digest.2]⟩
  exact (digest.1.append (spaceless_of_all (by decide))).append (decimal_spaceless n)

theorem oneWord_dash : OneWord (ascii "-") := .of_all (by decide) (by decide)

theorem oneWord_toHex (size : name.length = 16) : OneWord (toHex name) :=
  oneWord_lower (by rw [toHex_length, size]; decide) (toHex_lower name)

theorem short_of_le {width : Nat} (narrow : text.length ≤ width) (small : width ≤ 65536) :
    Short text := Nat.le_trans narrow small

theorem short_nil : Short [] := Nat.zero_le _

/-! ### Steps of a session -/

/-- A step of the ratchet can be stored. -/
theorem ratchetStep_storable (widths : S.Widths octets)
    (storable : Storable s) (done : ratchetStep s coins = .ok left) : Storable left := by
  unfold ratchetStep at done
  split at done
  · exact Except.ok.inj done ▸ storable
  split at done
  · rename_i ct ss pub sk capsule pair
    obtain rfl := Except.ok.inj done
    exact { storable with
      stepTo := widths.oneWord_h32 _
      stepCt := short_of_le (Nat.le_of_eq (widths.capsule capsule)) (by decide)
      prevPub := storable.myPub
      prevSk := storable.mySk
      myPub := short_of_le (Nat.le_of_eq (widths.pair pair).1) (by decide)
      mySk := short_of_le (Nat.le_of_eq (widths.pair pair).2) (by decide) }
  · exact absurd done (by simp)

/-- A session that sealed a message can be stored. -/
theorem encryptLocked_storable (widths : S.Widths octets) (storable : Storable s)
    (done : encryptLocked s text coins = .ok (frame, left)) : Storable left := by
  simp only [encryptLocked, bind_ok] at done
  obtain ⟨stepped, step, done⟩ := done
  split at done
  · exact absurd done (by simp)
  · obtain ⟨-, rfl⟩ := Prod.mk.inj (Except.ok.inj done)
    exact { ratchetStep_storable widths storable step with }

theorem skipOne_storable (widths : S.Widths octets) (storable : Storable s) :
    Storable (skipOne s) := by
  refine { storable with skipped := fun name key found => ?_ }
  simp only [skipOne, lookup_insert] at found
  split at found
  · rename_i isName
    exact isName ▸ oneWord_skipName widths _ _
  · exact storable.skipped name key found

theorem skipMany_storable (widths : S.Widths octets) (count : Nat)
    (storable : Storable s) : Storable (skipMany count s) := by
  induction count generalizing s with
  | zero => exact storable
  | succ count ih => exact ih (skipOne_storable widths storable)

theorem trim_storable (storable : Storable s) : Storable (trim s) := by
  generalize kept : evict (s.skipped.keys.length - 256) s.skipped = left
  have names : ∀ name key, left.lookup name = some key → OneWord name := by
    intro name key found
    rw [← kept] at found
    exact storable.skipped name key (evict_subset _ _ name key found)
  have trimmed : trim s = { s with skipped := left } := by rw [trim, kept]
  rw [trimmed]
  exact { storable with skipped := names }

theorem skipTo_storable (widths : S.Widths octets) {bound : UInt32}
    (storable : Storable s) (done : skipTo s bound = .ok left) : Storable left := by
  unfold skipTo at done
  split at done
  · exact Except.ok.inj done ▸ storable
  split at done
  · exact absurd done (by simp)
  · exact Except.ok.inj done ▸ trim_storable (skipMany_storable widths _ storable)

theorem newChain_storable (widths : S.Widths octets)
    (storable : Storable s) (short : Short frame.rkPub) (done : newChain s frame = .ok left) :
    Storable left := by
  obtain ⟨_, jumped, sk, ss, skipped, _, _, rfl⟩ := newChain_ok s left frame done
  exact { skipTo_storable widths storable skipped with peerRk := short }

/-- A session that opened a message can be stored. -/
theorem decryptLocked_storable (widths : S.Widths octets)
    (storable : Storable s) (short : Short frame.rkPub)
    (done : decryptLocked s frame = .ok (text, left)) : Storable left := by
  have advanced : ∀ {between : Session S} {mk : S.Key}, Storable between →
      Advanced between left frame mk → Storable left := by
    rintro between mk storable ⟨_, reached, skipped, _, rfl⟩
    exact { skipTo_storable widths storable skipped with }
  obtain ⟨mk, chosen, _⟩ := decryptLocked_ok s left frame text done
  cases chooseKey_ok s left frame mk chosen with
  | stored found erased =>
    subst erased
    refine { storable with skipped := fun name key listed => ?_ }
    rw [lookup_erase] at listed
    split at listed
    · exact absurd listed (by simp)
    · exact storable.skipped name key listed
  | along _ further => exact advanced storable further
  | fresh between _ turned further =>
    exact advanced (newChain_storable widths storable short turned) further

/-! ### New sessions -/

theorem verify_sizes {package : KeyPackage} (valid : package.verify S now = .ok ()) :
    Short package.identityPub ∧ Short package.relayPub := by
  rw [verify_fields] at valid
  simp only [KeyPackage.fieldChecks, bind_ok, exists_unit, ensure_ok, Bool.and_eq_true,
    decide_eq_true_eq] at valid
  obtain ⟨⟨⟨⟨identity, _⟩, relay⟩, _⟩, _⟩ := valid
  exact ⟨short_of_le (Nat.le_of_eq identity) (by decide), short_of_le (Nat.le_of_eq relay) (by decide)⟩

theorem no_skipped (name : Bytes) (key : S.Key)
    (found : (∅ : Table Bytes S.Key).lookup name = some key) : OneWord name := by
  simp at found

/-- The session of the party that starts can be stored. -/
theorem firstSession_storable (widths : S.Widths octets)
    {ct1 myPub mySk sig iv : Bytes} {mine : KeyPackage} (size : name.length = 16) (identity : Short peer.identityPub)
    (relay : Short peer.relayPub) {seed : S.Seed} (pair : S.keypair seed = some (myPub, mySk)) :
    Storable (firstSession (S := S) (toHex name) (S.fingerprint idPk) peer mine ct1 ss1 myPub mySk sig
      text iv).1 where
  sid := oneWord_toHex size
  peerFp := widths.oneWord_fingerprint _
  myFp := widths.oneWord_fingerprint _
  stepTo := oneWord_dash
  peerIdentity := identity
  peerRelay := relay
  myPub := short_of_le (Nat.le_of_eq (widths.pair pair).1) (by decide)
  mySk := short_of_le (Nat.le_of_eq (widths.pair pair).2) (by decide)
  prevPub := short_nil
  prevSk := short_nil
  peerRk := short_nil
  stepCt := short_nil
  skipped := no_skipped

/-- The session of the party that answers can be stored. -/
theorem secondSession_storable (widths : S.Widths octets) {frame : InitFrame S}
    {transcript : Bytes} {sender : KeyPackage} (named : safeName frame.sid = true)
    (short : Short frame.rkPub) (identity : Short sender.identityPub) (relay : Short sender.relayPub) :
    Storable (secondSession frame transcript ss1 (S.fingerprint idPk) sender).2 where
  sid := oneWord_safeName named
  peerFp := widths.oneWord_fingerprint _
  myFp := widths.oneWord_fingerprint _
  stepTo := oneWord_dash
  peerIdentity := identity
  peerRelay := relay
  myPub := short_nil
  mySk := short_nil
  prevPub := short_nil
  prevSk := short_nil
  peerRk := short
  stepCt := short_nil
  skipped := no_skipped

/-! ### Wallets -/

/-- Every session of a wallet is storable. -/
def Keeps (device : Device S) : Prop :=
  ∀ sid s, device.sessions.lookup sid = some s → Storable s

theorem Keeps.save (keeps : Keeps device) (storable : Storable s) :
    Keeps (saveSession device s) := by
  intro sid found listed
  simp only [saveSession, lookup_insert] at listed
  split at listed
  · exact Option.some.inj listed ▸ storable
  · exact keeps sid found listed

theorem Keeps.load (keeps : Keeps device)
    (loaded : loadSession device sid = .ok s) : Storable s := by
  unfold loadSession at loaded
  split at loaded
  · exact absurd loaded (by simp)
  split at loaded
  · exact absurd loaded (by simp)
  · rename_i found
    exact Except.ok.inj loaded ▸ keeps sid _ found

/-- Starting a session keeps a wallet storable. -/
theorem startFrame_keeps (widths : S.Widths octets) {left : Device S}
    {frame : Frame S} (keeps : Keeps device)
    (size : name.length = 16) (done : startFrame device peer text now name coins = .ok (frame, left)) :
    Keeps left := by
  have valid : peer.verify S now = .ok () := by
    simp only [startFrame, bind_ok, exists_unit] at done
    exact done.1
  obtain ⟨identity, relay⟩ := verify_sizes valid
  obtain ⟨idPk, idSk, mine, ct1, ss1, myPub, mySk, sig, _, _, _, _, pair, _, _, rfl⟩ :=
    startFrame_ok done
  exact keeps.save (firstSession_storable widths size identity relay pair)

/-- Sending keeps a wallet storable. -/
theorem sendFrame_keeps (widths : S.Widths octets) {left : Device S} (keeps : Keeps device)
    (done : sendFrame device sid text coins = .ok (frame, left)) : Keeps left := by
  simp only [sendFrame, bind_ok, pure_ok, Prod.exists, Prod.mk.injEq] at done
  obtain ⟨s, loaded, sent, after, encrypted, _, rfl⟩ := done
  exact keeps.save (encryptLocked_storable widths (keeps.load loaded) encrypted)

/-- Opening a first frame keeps a wallet storable. -/
theorem openInit_keeps (widths : S.Widths octets) {left : Device S} {frame : InitFrame S}
    (keeps : Keeps device)
    (done : openInit device frame now = .ok (opened, left)) : Keeps left := by
  simp only [openInit, bind_ok, exists_unit, ensure_ok, pure_ok, Prod.exists, Prod.mk.injEq,
    Bool.and_eq_true] at done
  obtain ⟨⟨readable, named⟩, _, sender, _, valid, _, initSk, _, ss1, _, idPk, idSk, _, text, _, _, rfl⟩ :=
    done
  simp only [InitFrame.readable, Bool.and_eq_true, decide_eq_true_eq] at readable
  obtain ⟨⟨⟨⟨_, narrow⟩, _⟩, _⟩, _⟩ := readable
  obtain ⟨identity, relay⟩ := verify_sizes valid
  exact keeps.save (secondSession_storable widths named (short_of_le narrow (by decide)) identity relay)

theorem openMessage_keeps (widths : S.Widths octets) {left : Device S} (keeps : Keeps device)
    (done : openMessage device frame = .ok (opened, left)) : Keeps left := by
  simp only [openMessage, bind_ok, exists_unit, ensure_ok, pure_ok, Prod.exists, Prod.mk.injEq] at done
  obtain ⟨readable, s, loaded, text, after, decrypted, _, rfl⟩ := done
  simp only [MessageFrame.readable, Bool.and_eq_true, decide_eq_true_eq] at readable
  obtain ⟨⟨⟨⟨⟨⟨⟨_, narrow⟩, _⟩, _⟩, _⟩, _⟩, _⟩, _⟩ := readable
  exact keeps.save (decryptLocked_storable widths (keeps.load loaded) (short_of_le narrow (by decide))
    decrypted)

theorem openFrame_keeps (widths : S.Widths octets) (keeps : Keeps device)
    (frame : Frame S) (now : UInt64) : Keeps (openFrame device frame now).2 := by
  unfold openFrame
  split
  · exact keeps
  · rename_i opened left done
    cases frame with
    | init frame => exact openInit_keeps widths keeps done
    | message frame => exact openMessage_keeps widths keeps done

/-! ### Runs -/

/-- The wallets that starting, sending and opening frames lead to. The identity, the package and
the init keys change in any way in between. -/
inductive Used : Device S → Prop
  | fresh (device : Device S) (none : device.sessions = ∅) : Used device
  | start {device left : Device S} {peer : KeyPackage} {text name : Bytes} {now : UInt64}
      {coins : Coins S} {frame : Frame S} (used : Used device) (size : name.length = 16)
      (done : startFrame device peer text now name coins = .ok (frame, left)) : Used left
  | send {device left : Device S} {sid text : Bytes} {coins : Coins S} {frame : MessageFrame S}
      (used : Used device) (done : sendFrame device sid text coins = .ok (frame, left)) : Used left
  | opened {device : Device S} (used : Used device) (frame : Frame S) (now : UInt64) :
      Used (openFrame device frame now).2
  | files {device left : Device S} (used : Used device) (same : left.sessions = device.sessions) :
      Used left

theorem Used.keeps (widths : S.Widths octets) (used : Used device) :
    Keeps device := by
  induction used with
  | fresh device none =>
    intro sid s listed
    rw [none] at listed
    simp at listed
  | start _ size done keeps => exact startFrame_keeps widths keeps size done
  | send _ done keeps => exact sendFrame_keeps widths keeps done
  | opened _ frame now keeps => exact openFrame_keeps widths keeps frame now
  | files _ same keeps => exact fun sid s listed => keeps sid s (same ▸ listed)

/-- The codecs of messaging. A package within the limits survives its encoding, and what decodes
to a package is its encoding. Two packages that pass the checks on their fields and sign the same
text have the same fields. A session of a used wallet comes back from its file. -/
theorem messaging_codecs (S : Suite) (octets : S.Key → Bytes) (widths : S.Widths octets) :
    (∀ package : KeyPackage, package.Bounded → KeyPackage.decode package.encode = some package) ∧
    (∀ input package, KeyPackage.decode input = some package →
      package.encode = input ∧ package.hash S = S.h32 input) ∧
    (∀ (package package' : KeyPackage) (now now' : UInt64), package.fieldChecks now = .ok () →
      package'.fieldChecks now' = .ok () → package.tbs = package'.tbs →
        package.index = package'.index ∧ package.identityPub = package'.identityPub ∧
          package.initPub = package'.initPub ∧ package.relayPub = package'.relayPub ∧
          package.created = package'.created ∧ package.expires = package'.expires) ∧
    (∀ device : Device S, Used device → ∀ sid s, device.sessions.lookup sid = some s →
      ∀ order, Lists order (s.file octets).skipped →
        ∃ back, SessionFile.parse ((s.file octets).ser order) = some back ∧
          { back with skipped := (s.file octets).skipped } = s.file octets ∧
          ∀ id, back.skipped.lookup id = (s.file octets).skipped.lookup id) := by
  refine ⟨decode_encode, ?_, ?_, ?_⟩
  · intro input package decoded
    have encoded := (decode_some input package decoded).1
    exact ⟨encoded, congrArg S.h32 encoded⟩
  · intro package package' now now' checked checked' same
    have fields := tbs_fields (index_plain checked) (index_plain checked') same
    rw [← fields]
    exact ⟨rfl, rfl, rfl, rfl, rfl, rfl⟩
  · intro device used sid s listed order lists
    exact parse_ser ((used.keeps widths sid s listed).writable widths) lists

/-! ### A started session -/

/-- The first octets of a text, filled up to a width. -/
def frontOf (width : Nat) (text : Bytes) : Bytes := text.take width ++ List.replicate (width - text.length) 0

theorem frontOf_length (width : Nat) (text : Bytes) : (frontOf width text).length = width := by
  rw [frontOf, List.length_append, List.length_take, List.length_replicate]
  omega

/-- Libraries with the widths of the real ones. -/
def frontSuite : Suite where
  Key := {octets : Bytes // octets.length = 32}
  Box := Bytes
  Seed := UInt8
  hmac _ message := (⟨frontOf 32 message, frontOf_length 32 _⟩, ⟨frontOf 32 message.reverse, frontOf_length 32 _⟩)
  h32 text := toHex (frontOf 16 text)
  fingerprint pub := toHex (frontOf 20 pub)
  keypair seed := some (List.replicate 1568 seed, List.replicate 3168 seed)
  encaps _ seed := some (List.replicate 1568 seed, [seed])
  decaps _ capsule := some (capsule.take 1)
  sign _ _ := some [1]
  sigVerify _ _ sig := sig == [1]
  aeadSeal _ _ _ text := text
  aeadOpen _ _ _ box := some box
  boxSize := List.length

/-- The octets of a key are the key. -/
def frontOctets : frontSuite.Key → Bytes := Subtype.val

theorem frontSuite_widths : frontSuite.Widths frontOctets where
  key key := key.property
  digest text := by
    refine ⟨?_, toHex_lower _⟩
    change (toHex _).length = 32
    rw [toHex_length, frontOf_length]
  fingerprint pub := by
    refine ⟨?_, toHex_lower _⟩
    change (toHex _).length = 40
    rw [toHex_length, frontOf_length]
  pair := by
    intro seed pub sk pair
    obtain ⟨rfl, rfl⟩ := Prod.mk.inj (Option.some.inj pair)
    exact ⟨List.length_replicate, List.length_replicate⟩
  capsule := by
    intro pub coins ct ss capsule
    obtain ⟨rfl, _⟩ := Prod.mk.inj (Option.some.inj capsule)
    exact List.length_replicate

/-- A wallet with an identity and a package. -/
def frontWallet : Device frontSuite := ⟨some ([1], [2]), some initiatorPackage, [], ∅⟩

/-- A session that was started, with no key for receiving and no skipped key, comes back. -/
theorem started_session_returns :
    ∃ (left : Device frontSuite) (s : Session frontSuite),
      left.sessions.lookup (toHex (List.replicate 16 7)) = some s ∧ s.ckr = none ∧
      ∃ back, SessionFile.parse ((s.file frontOctets).ser []) = some back ∧
        { back with skipped := (s.file frontOctets).skipped } = s.file frontOctets := by
  have valid : ∀ index, index = ascii "-" ∨ index.length = 32 ∧ index.all isLowerHex = true →
      (symbolicPackage index).verify frontSuite 500 = .ok () :=
    fun index isIndex => symbolicPackage_valid index isIndex 500 (by decide)
  obtain ⟨frame, s, isStarted, isNamed, noChain⟩ : ∃ frame s,
      startFrame frontWallet responderPackage (ascii "hi") 500 (List.replicate 16 7)
          ⟨(3 : UInt8), (4 : UInt8), List.replicate 12 0⟩ = .ok (frame, saveSession frontWallet s) ∧
        s.sid = toHex (List.replicate 16 7) ∧ s.ckr = none ∧ s.skipped = ∅ := by
    refine ⟨_, _, startFrame_some (valid _ (.inr (by decide))) rfl rfl (valid _ (.inl rfl)) rfl rfl rfl,
      rfl, rfl, rfl⟩
  have kept : (saveSession frontWallet s).sessions.lookup (toHex (List.replicate 16 7)) = some s := by
    rw [← isNamed]
    exact AList.lookup_insert _
  have lists : Lists [] (s.file frontOctets).skipped := by
    refine ⟨List.nodup_nil, fun key value => ?_⟩
    change _ ↔ (skippedOctets frontOctets s.skipped).lookup key = some value
    rw [lookup_skippedOctets, noChain.2, AList.lookup_empty]
    simp
  obtain ⟨back, read, same, _⟩ := (messaging_codecs frontSuite frontOctets frontSuite_widths).2.2.2 _
    (.start (.fresh frontWallet rfl) List.length_replicate isStarted) _ _ kept [] lists
  exact ⟨_, s, kept, noChain.1, back, read, same⟩

end PqSession

end Addition
