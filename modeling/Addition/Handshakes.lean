import Addition.SkippedKeys

/-!
# The first frame of a session

A key package survives its encoding. An init frame made for a published package is opened by
the owner of this package, with the text that was sealed in it.
-/

namespace Addition

namespace PqSession

open ByteStrings Checked FiniteTables

/-! ### Packages -/

theorem readSized_put (max : Nat) (octets rest : Bytes) (short : octets.length ≤ max)
    (narrow : max < 2 ^ 32) : readSized max (put octets ++ rest) = some (octets, rest) := by
  have size : (leBytes 4 octets.length).reverse.length = 4 := by simp
  have value : leValue (leBytes 4 octets.length) = octets.length := by
    rw [leValue_leBytes]
    exact Nat.mod_eq_of_lt (by omega)
  unfold readSized put
  rw [List.append_assoc, List.take_left' size, List.drop_left' size, List.reverse_reverse, value]
  rw [if_neg (by simp), if_neg (by simp; omega), List.take_left' rfl]
  rw [← List.drop_drop, List.drop_left' size, List.drop_left' rfl]

theorem readWord_put (value : UInt64) (rest : Bytes) :
    readWord (put64 value ++ rest) = some (value, rest) := by
  have size : (leBytes 8 value.toNat).reverse.length = 8 := by simp
  have number : leValue (leBytes 8 value.toNat) = value.toNat := by
    rw [leValue_leBytes]
    exact Nat.mod_eq_of_lt value.toNat_lt
  unfold readWord put64
  rw [List.take_left' size, List.drop_left' size, List.reverse_reverse, number, if_neg (by simp),
    UInt64.ofNat_toNat]

/-- The fields of a package are within the limits of its reader. -/
def KeyPackage.Bounded (package : KeyPackage) : Prop :=
  package.index.length ≤ 64 ∧ package.identityPub.length ≤ 4096 ∧ package.initPub.length ≤ 4096 ∧
    package.relayPub.length ≤ 4096 ∧ package.sig.length ≤ 8192

/-- A package survives its encoding. -/
theorem decode_encode (package : KeyPackage) (bounded : package.Bounded) :
    KeyPackage.decode package.encode = some package := by
  obtain ⟨index, identityPub, initPub, relayPub, sig⟩ := bounded
  unfold KeyPackage.decode KeyPackage.encode
  simp only [List.append_assoc]
  have last := readSized_put 8192 package.sig [] sig (by decide)
  rw [List.append_nil] at last
  rw [List.take_left' (by decide), List.drop_left' (by decide), if_neg (by simp),
    readSized_put 64 _ _ index (by decide)]
  simp only [Option.bind_eq_bind, Option.bind_some]
  rw [readSized_put 4096 _ _ identityPub (by decide)]
  simp only [Option.bind_some]
  rw [readSized_put 4096 _ _ initPub (by decide)]
  simp only [Option.bind_some]
  rw [readSized_put 4096 _ _ relayPub (by decide)]
  simp only [Option.bind_some]
  rw [readWord_put]
  simp only [Option.bind_some]
  rw [readWord_put]
  simp only [Option.bind_some]
  rw [last]
  rfl

/-! ### The first frame -/

variable {S : Suite}

theorem required_some {α : Type} {outcome : Option α} {value : α} (message : String)
    (found : outcome = some value) : required outcome message = .ok value := by
  rw [found]
  rfl

theorem required_ok {α : Type} {outcome : Option α} {value : α} {message : String}
    (done : required outcome message = .ok value) : outcome = some value := by
  unfold required at done
  split at done
  · exact absurd done (by simp)
  · exact congrArg some (Except.ok.inj done)

variable {coins : Coins S} {device left : Device S} {name : Bytes} {now : UInt64}
  {peer : KeyPackage} {text ct1 : Bytes} {mine : KeyPackage} {myPub mySk sig ss1 : Bytes}

/-- The sender of an init frame has a valid package, and its frame and session are made from
one encapsulation and one key pair. -/
theorem startFrame_ok
    {frame : Frame S} (done : startFrame device peer text now name coins = .ok (frame, left)) :
    ∃ idPk idSk mine ct1 ss1 myPub mySk sig, device.identity = some (idPk, idSk) ∧
      device.package = some mine ∧ mine.verify S now = .ok () ∧
      S.encaps peer.initPub coins.kem = some (ct1, ss1) ∧
      S.keypair coins.key = some (myPub, mySk) ∧
      S.sign idSk (transcriptOf (S := S) (toHex name) (peer.hash S) (mine.hash S) ct1 myPub) = some sig ∧
      frame = (firstSession (toHex name) (S.fingerprint idPk) peer mine ct1 ss1 myPub mySk sig text
        coins.iv).2 ∧
      left = saveSession device (firstSession (toHex name) (S.fingerprint idPk) peer mine ct1 ss1
        myPub mySk sig text coins.iv).1 := by
  simp only [startFrame, bind_ok, exists_unit, pure_ok, Prod.exists, Prod.mk.injEq] at done
  obtain ⟨-, idPk, idSk, identity, mine, package, ct1, ss1, capsule, myPub, mySk, pair, sig, signed,
    isFrame, isLeft⟩ := done
  have owned : device.identity = some (idPk, idSk) := by
    unfold loadIdentity at identity
    split at identity
    · exact absurd identity (by simp)
    · rename_i found
      exact found.trans (congrArg some (Except.ok.inj identity))
  have published : device.package = some mine ∧ mine.verify S now = .ok () := by
    unfold loadPackage at package
    split at package
    · exact absurd package (by simp)
    · rename_i found
      simp only [bind_ok, exists_unit, pure_ok] at package
      exact ⟨found.trans (congrArg some package.2), package.2 ▸ package.1⟩
  exact ⟨idPk, idSk, mine, ct1, ss1, myPub, mySk, sig, owned, published.1, published.2,
    required_ok capsule, required_ok pair, required_ok signed, isFrame.symm, isLeft.symm⟩

/-- A party with an identity and a package can start a session with a valid package. -/
theorem startFrame_some {idPk idSk : Bytes}
    (peerValid : peer.verify S now = .ok ()) (identity : device.identity = some (idPk, idSk))
    (published : device.package = some mine) (valid : mine.verify S now = .ok ())
    (capsule : S.encaps peer.initPub coins.kem = some (ct1, ss1))
    (pair : S.keypair coins.key = some (myPub, mySk)) (signed : S.sign idSk
      (transcriptOf (S := S) (toHex name) (peer.hash S) (mine.hash S) ct1 myPub) = some sig) :
    startFrame device peer text now name coins =
      .ok ((firstSession (toHex name) (S.fingerprint idPk) peer mine ct1 ss1 myPub mySk sig text
          coins.iv).2,
        saveSession device (firstSession (toHex name) (S.fingerprint idPk) peer mine ct1 ss1 myPub mySk
          sig text coins.iv).1) := by
  simp only [startFrame, bind_ok, exists_unit, pure_ok]
  refine ⟨peerValid, (idPk, idSk), ?_, mine, ?_, (ct1, ss1), required_some _ capsule, (myPub, mySk),
    required_some _ pair, sig, required_some _ signed, rfl⟩
  · unfold loadIdentity
    rw [identity]
  · unfold loadPackage
    rw [published]
    simp only [bind_ok, exists_unit, pure_ok]
    exact ⟨valid, trivial⟩

/-- The reader takes an init frame, when its text is not too long. -/
theorem firstSession_readable (sized : S.Sized) {sid myFp iv : Bytes}
    (name : sid.length ≤ 64) (digest : (peer.hash S).length ≤ 64)
    (sender : mine.encode.length ≤ 16384) (capsule : ct1.length ≤ 4096) (pub : myPub.length ≤ 4096)
    (signature : sig.length ≤ 8192) (drawn : iv.length = 12) (short : text.length ≤ 39984) :
    ∃ first : InitFrame S, (firstSession sid myFp peer mine ct1 ss1 myPub mySk sig text iv).2 = .init first ∧
      first.readable = true := by
  refine ⟨_, rfl, ?_⟩
  unfold InitFrame.readable
  simp only [Bool.and_eq_true, decide_eq_true_eq]
  refine ⟨⟨⟨⟨⟨⟨⟨name, digest⟩, sender⟩, capsule⟩, pub⟩, signature⟩, drawn⟩, ?_⟩
  rw [sized.box]
  omega

/-- The key of a package that has not expired is found. -/
theorem findInitSk_own {hash sk : Bytes} {expires : UInt64} {rest : List InitKey}
    (keys : device.initKeys = ⟨hash, expires, sk⟩ :: rest) (early : now < expires) :
    findInitSk device hash now = .ok sk := by
  have valid : ¬ expires ≤ now := UInt64.not_le.mpr early
  unfold findInitSk
  rw [keys, List.find?_cons_of_pos (by simp)]
  dsimp only
  rw [if_neg valid]

/-- The name of a session is the name of a file. -/
theorem safeName_toHex (name : Bytes) (size : name.length = 16) : safeName (toHex name) = true := by
  have octets : ∀ digit ∈ toHex name, isNameOctet digit = true ∧ digit ≠ byte '.' := by
    intro digit member
    have lower := toHex_lower name digit member
    constructor
    · simp only [isLowerHex, isNameOctet, isDigit, Bool.or_eq_true, decide_eq_true_eq] at lower ⊢
      left
      omega
    · rintro rfl
      exact absurd lower (by decide)
  have long : (toHex name).length = 32 := by rw [toHex_length, size]
  unfold safeName
  cases digits : toHex name with
  | nil => exact absurd (digits ▸ long) (by simp)
  | cons first rest =>
    rw [digits] at octets long
    simp only [Bool.and_eq_true, decide_eq_true_eq, List.all_eq_true, List.isEmpty_cons,
      Bool.not_false, true_and, List.head?_cons, bne_iff_ne, ne_eq, Option.some.injEq]
    exact ⟨⟨by omega, (octets first List.mem_cons_self).2⟩, fun digit member => (octets digit member).1⟩

/-- The owner of a published package opens an init frame made for it. -/
theorem init_opens (ideal : S.Ideal) {other : Device S}
    {initSk otherSk otherPk : Bytes} {later : UInt64}
    {frame : InitFrame S} (done : startFrame device peer text now name coins = .ok (.init frame, left))
    (size : name.length = 16) (readable : frame.readable = true) (published : device.package = some mine) (bounded : mine.Bounded)
    (valid : mine.verify S later = .ok ())
    (signs : ∀ idPk idSk transcript sig, device.identity = some (idPk, idSk) →
      S.sign idSk transcript = some sig → S.sigVerify mine.identityPub transcript sig = true)
    (kept : findInitSk other (peer.hash S) later = .ok initSk)
    (agreed : ∀ ct ss, S.encaps peer.initPub coins.kem = some (ct, ss) → S.decaps initSk ct = some ss)
    (identity : other.identity = some (otherPk, otherSk))
    (absent : other.sessions.lookup (toHex name) = none) :
    ∃ opened left', openInit other frame later = .ok (opened, left') ∧ opened.text = text := by
  obtain ⟨idPk, idSk, mine', ct1, ss1, myPub, mySk, sig, owned, package, -, capsule, -, signed, isFrame,
    -⟩ := startFrame_ok done
  cases Option.some.inj (published.symm.trans package)
  have isFrame := Frame.init.inj isFrame
  subst isFrame
  simp only [openInit, bind_ok, exists_unit, ensure_ok, pure_ok]
  refine ⟨_, _, ⟨?_, ?_, mine, required_some _ (decode_encode mine bounded), valid,
    signs idPk idSk _ sig owned signed, initSk, kept, ss1, required_some _ (agreed ct1 ss1 capsule),
    (otherPk, otherSk), ?_, text,
    required_some _ ((ideal.aead_exact _ _ _ _ _).mpr rfl), rfl⟩, rfl⟩
  · rw [readable]
    exact safeName_toHex name size
  · exact Option.isNone_iff_eq_none.mpr absent
  · unfold loadIdentity
    rw [identity]

end PqSession

end Addition
