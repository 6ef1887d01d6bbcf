import Addition.Foundations.ByteStrings
import Addition.Foundations.Checked

/-!
# Cryptographic primitives and the address layer

SHA3-512, SHA-256, the signature library and the proof verifier are linked
libraries. They enter as one record of functions; nothing about them is assumed
here beyond the widths their types fix. Scheme inference, strict-mode policy,
hexadecimal decoding, address commitments and the signature wrapper follow
`crypto.cpp` on top of that record.

Verification stands in front of a cache of what verified, which belongs to the
whole process. Here is what it does on a miss; the cache is in `SignatureCache`,
with the proof that a signature without a zero octet gets the same answer from it.
Only votes carry free text in what is signed, and the chain and the node are run
with the cache where that matters.
-/

namespace Addition

open ByteStrings Checked

/-- `Hash512`. -/
abbrev Hash512 := {octets : Bytes // octets.length = 64}

/-- `shielded::H32`. -/
abbrev H32 := {octets : Bytes // octets.length = 32}

/-- `H32{}`. -/
def zeroH32 : H32 := ⟨List.replicate 32 0, by simp⟩

/-- `SigScheme`. -/
inductive SigScheme where
  | unknown
  | mlDsa87
  | slhDsaShake256s
deriving DecidableEq

/-- The octets of the keys and signatures of a scheme. -/
structure PqKeySizes where
  publicKey : Nat
  secretKey : Nat
  signature : Nat
deriving DecidableEq

/-- What the proof library reports about a decoded receipt: whether it is of the
succinct kind, the journal it commits to, and whether it verifies for the pinned
guest image. -/
structure Receipt where
  succinct : Bool
  journal : Bytes
  verifies : Bool
deriving DecidableEq

/-- The linked libraries. `oqsSizes` is empty for a scheme the signature library
does not provide; `oqsVerify` includes the fixed context of the second scheme;
`decodeReceipt` is empty in a build without the proof verifier. -/
structure Primitives where
  sha3 : Bytes → Hash512
  sha256 : Bytes → H32
  oqsSizes : SigScheme → Option PqKeySizes
  supportsCtxSign : SigScheme → Bool
  oqsVerify : SigScheme → Bytes → Bytes → Bytes → Bool
  decodeReceipt : Option (Bytes → Option Receipt)
  imageId : H32

variable (P : Primitives)

/-- `strong_hash`: the hexadecimal SHA3-512 digest. -/
def strongHash (text : Bytes) : Bytes := toHex (P.sha3 text).val

@[simp] theorem strongHash_length (text : Bytes) : (strongHash P text).length = 128 := by
  simp [strongHash, (P.sha3 text).property]

theorem strongHash_lower (text : Bytes) (digit : UInt8) (member : digit ∈ strongHash P text) :
    isLowerHex digit = true :=
  toHex_lower _ _ member

/-- On texts without a SHA3-512 collision the hexadecimal digest is injective. -/
theorem strongHash_injOn (texts : Set Bytes) (injective : Set.InjOn P.sha3 texts) :
    Set.InjOn (strongHash P) texts := by
  intro text member text' member' same
  exact injective member member' (Subtype.ext (toHex_injective _ _ same))

/-- `get_scheme_sizes`. -/
def getSchemeSizes : SigScheme → Option PqKeySizes
  | .unknown => none
  | scheme => P.oqsSizes scheme

/-- `sig_scheme_allowed_strict`. -/
def sigSchemeAllowedStrict : SigScheme → Bool
  | .mlDsa87 => (getSchemeSizes P .mlDsa87).isSome
  | .slhDsaShake256s =>
      (getSchemeSizes P .slhDsaShake256s).isSome && P.supportsCtxSign .slhDsaShake256s
  | .unknown => false

/-- The public-key width of a scheme the library provides. -/
def publicKeyWidth (scheme : SigScheme) : Option Nat :=
  (getSchemeSizes P scheme).map PqKeySizes.publicKey

/-- `infer_sig_scheme_from_key_bytes` for public keys. -/
def inferSigSchemeFromKeyBytes (width : Nat) : SigScheme :=
  if publicKeyWidth P .mlDsa87 = some width then .mlDsa87
  else if publicKeyWidth P .slhDsaShake256s = some width then .slhDsaShake256s
  else .unknown

/-- `infer_sig_scheme_from_pubkey_hex`. -/
def inferSigSchemeFromPubkeyHex (pubkeyHex : Bytes) : SigScheme :=
  if pubkeyHex.length % 2 ≠ 0 then .unknown
  else inferSigSchemeFromKeyBytes P (pubkeyHex.length / 2)

/-- `sig_scheme_id`. -/
def sigSchemeId : SigScheme → Bytes
  | .mlDsa87 => ascii "ml-dsa-87"
  | .slhDsaShake256s => ascii "slh-dsa-shake-256s"
  | .unknown => ascii "unknown"

/-- `is_hex_strict`. Both cases of the letters pass. -/
def isHexStrict (hex : Bytes) (maxHexLen : Nat) : Except String Unit := do
  ensure (!hex.isEmpty) "empty hex"
  ensure (decide (hex.length ≤ maxHexLen)) "hex too large"
  ensure (decide (hex.length % 2 = 0)) "invalid hex length"
  ensure (hex.all isHex) "invalid hex data"

/-- `hex_to_bytes`. -/
def hexToBytes (hex : Bytes) : Except String Bytes := do
  isHexStrict hex 131072
  pure (fromHex hex)

/-- `hash_committed_address`: the digest of the scheme identifier, a zero octet
and the key. -/
def hashCommittedAddress (schemeId pubkey : Bytes) : Bytes :=
  if schemeId.isEmpty || pubkey.isEmpty then [] else strongHash P (schemeId ++ [0] ++ pubkey)

/-- `address_binds_pubkey`. -/
def addressBindsPubkey (address : Bytes) (scheme : SigScheme) (pubkeyHex : Bytes) :
    Except String Unit := do
  ensure (decide (scheme ≠ .unknown)) "unknown scheme rejected in strict mode"
  ensure (decide (address.length = 128)) "address is not a 128-hex hash commitment"
  ensure (address.all isHex) "address is not a 128-hex hash commitment"
  match hexToBytes pubkeyHex with
  | .error _ => .error "invalid pubkey hex"
  | .ok key =>
    ensure (!key.isEmpty) "invalid pubkey hex"
    let derived := hashCommittedAddress P (sigSchemeId scheme) key
    ensure (!derived.isEmpty && derived == address) "signer/pubkey hash-address mismatch"

/-- `signer_binds_pubkey` of `chain.cpp`. -/
def signerBindsPubkey (signer pubkeyHex : Bytes) : Except String Unit :=
  let scheme := inferSigSchemeFromPubkeyHex P pubkeyHex
  if scheme = .unknown ∨ sigSchemeAllowedStrict P scheme = false then
    .error "unknown scheme rejected in strict mode"
  else addressBindsPubkey P signer scheme pubkeyHex

/-- The prefix that marks a post-quantum signature. -/
def pqPrefix : Bytes := ascii "pq="

/-- `verify_message_signature_hybrid_uncached`. -/
def verifyMessageSignatureHybridUncached (publicKey message signature : Bytes) : Bool :=
  if !pqPrefix.isPrefixOf signature || publicKey.length % 2 != 0 then false
  else
    let scheme := inferSigSchemeFromKeyBytes P (publicKey.length / 2)
    if scheme = .unknown ∨ sigSchemeAllowedStrict P scheme = false then false
    else
      match getSchemeSizes P scheme with
      | none => false
      | some sizes =>
        let signatureHex := signature.drop 3
        if (isHexStrict publicKey (sizes.publicKey * 2)).isOk &&
            publicKey.length == sizes.publicKey * 2 &&
            (isHexStrict signatureHex (sizes.signature * 2)).isOk then
          match hexToBytes signatureHex, hexToBytes publicKey with
          | .ok signatureBytes, .ok publicKeyBytes =>
            decide (publicKeyBytes.length = sizes.publicKey) &&
              decide (signatureBytes.length ≤ sizes.signature) &&
              !signatureBytes.isEmpty &&
              P.oqsVerify scheme publicKeyBytes message signatureBytes
          | _, _ => false
        else false

/-- A hexadecimal string that passed the strict check. -/
theorem isHexStrict_ok (hex : Bytes) (maxHexLen : Nat) :
    isHexStrict hex maxHexLen = .ok () ↔
      hex ≠ [] ∧ hex.length ≤ maxHexLen ∧ hex.length % 2 = 0 ∧ ∀ digit ∈ hex, isHex digit = true := by
  simp [isHexStrict]

/-- A rendering passes the strict check. -/
theorem toHex_strict (octets : Bytes) (some : octets ≠ []) (bound : Nat)
    (short : 2 * octets.length ≤ bound) :
    toHex octets ≠ [] ∧ (toHex octets).length ≤ bound ∧ (toHex octets).length % 2 = 0 ∧
      ∀ digit ∈ toHex octets, isHex digit = true := by
  refine ⟨?_, ?_, ?_, ?_⟩
  · intro none
    have width := congrArg List.length none
    rw [toHex_length] at width
    exact some (List.length_eq_zero_iff.mp (by simpa using width))
  · rw [toHex_length]
    exact short
  · rw [toHex_length]
    omega
  · exact fun digit member => isHex_of_isLowerHex digit (toHex_lower octets digit member)

theorem hexToBytes_toHex (octets : Bytes) (some : octets ≠ []) (short : octets.length ≤ 65536) :
    hexToBytes (toHex octets) = .ok octets := by
  have strict := (isHexStrict_ok _ _).mpr (toHex_strict octets some 131072 (by omega))
  simp only [hexToBytes, strict, fromHex_toHex]
  rfl

/-- A bound signer is a 128-digit hexadecimal string, and its key is a nonempty
hexadecimal string. -/
theorem addressBindsPubkey_ok (address pubkeyHex : Bytes) (scheme : SigScheme)
    (bound : addressBindsPubkey P address scheme pubkeyHex = .ok ()) :
    address.length = 128 ∧ (∀ digit ∈ address, isHex digit = true) ∧
      pubkeyHex ≠ [] ∧ ∀ digit ∈ pubkeyHex, isHex digit = true := by
  simp only [addressBindsPubkey, bind_ok, ensure_ok, decide_eq_true_eq] at bound
  obtain ⟨_, _, _, width, _, digits, rest⟩ := bound
  cases decoded : hexToBytes pubkeyHex with
  | error refusal => simp [decoded] at rest
  | ok key =>
    simp only [hexToBytes, bind_ok] at decoded
    obtain ⟨_, strict, _⟩ := decoded
    obtain ⟨nonempty, _, _, keyDigits⟩ := (isHexStrict_ok pubkeyHex 131072).mp strict
    exact ⟨width, by simpa using digits, nonempty, keyDigits⟩

/-- A signer that binds a key is a digest of digits. -/
theorem signerBindsPubkey_ok (signer pubkeyHex : Bytes)
    (bound : signerBindsPubkey P signer pubkeyHex = .ok ()) :
    signer.length = 128 ∧ (∀ digit ∈ signer, isHex digit = true) ∧
      pubkeyHex ≠ [] ∧ ∀ digit ∈ pubkeyHex, isHex digit = true := by
  simp only [signerBindsPubkey] at bound
  split at bound
  · simp at bound
  · exact addressBindsPubkey_ok P signer pubkeyHex _ bound

/-- A signature that verifies is the prefix followed by hexadecimal digits. -/
theorem verifyMessageSignatureHybridUncached_shape (publicKey message signature : Bytes)
    (verified : verifyMessageSignatureHybridUncached P publicKey message signature = true) :
    ∃ digits, signature = pqPrefix ++ digits ∧ ∀ digit ∈ digits, isHex digit = true := by
  simp only [verifyMessageSignatureHybridUncached] at verified
  split at verified
  · simp at verified
  · rename_i marked
    simp only [Bool.or_eq_true, Bool.not_eq_true', bne_iff_ne, ne_eq, not_or, Bool.not_eq_false,
      not_not] at marked
    obtain ⟨digits, split⟩ := List.isPrefixOf_iff_prefix.mp marked.1
    have dropped : signature.drop 3 = digits := by
      rw [← split]
      exact List.drop_left' rfl
    split at verified
    · simp at verified
    · split at verified
      · simp at verified
      · split at verified
        · rename_i checked
          simp only [Bool.and_eq_true, dropped, isOk_iff, isHexStrict_ok digits] at checked
          exact ⟨digits, split.symm, checked.2.2.2.2⟩
        · simp at verified

/-- `hash_head64`: the first sixteen hexadecimal digits as a word. -/
def hashHead64 (hexHash : Bytes) : UInt64 :=
  if hexHash.isEmpty then wordMax
  else UInt64.ofNat ((hexHash.take 16).foldl (fun total digit => 16 * total + nibble digit) 0)

/-- `kMemoryHardScratchBytes` and `kMemoryHardRounds`. -/
def kMemoryHardScratchBytes : Nat := 2 ^ 20
/-- The rounds of the memory-hard mix. -/
def kMemoryHardRounds : Nat := 16

/-- One round of the memory-hard mix over the scratch area, in place. -/
def memoryHardRound (scratch : Array UInt8) (round : Nat) : Array UInt8 :=
  let mixed := (List.range scratch.size).foldl (fun area i =>
    let j := ((area.getD i 0).toNat * 1315423911 + i + round) % area.size
    area.setIfInBounds i (area.getD i 0 ^^^ area.getD j 0 ^^^ UInt8.ofNat ((i + round) % 256))) scratch
  let digest := (P.sha3 mixed.toList).val
  (List.range digest.length).foldl (fun area i =>
    let k := (i * 8191 + round) % area.size
    area.setIfInBounds k (area.getD k 0 ^^^ digest.getD i 0)) mixed

/-- `memory_hard_head64`. -/
def memoryHardHead64 (seedHex : Bytes) : UInt64 :=
  let digest := (P.sha3 seedHex).val
  let scratch := ((List.range kMemoryHardScratchBytes).map (fun i =>
    digest.getD (i % digest.length) 0 ^^^ UInt8.ofNat (i % 256))).toArray
  let mixed := (List.range kMemoryHardRounds).foldl (memoryHardRound P) scratch
  hashHead64 (strongHash P mixed.toList)

/-! ### A stand-in for concrete runs -/

/-- A short polynomial digest: it separates the few texts of an example. -/
def sampleDigest (width : Nat) (text : Bytes) : {octets : Bytes // octets.length = width} :=
  ⟨leBytes width (text.foldl (fun total octet => 257 * total + octet.toNat + 1) 7), by simp⟩

/-- The number whose octets are the sample digest. -/
def sampleNumber (text : Bytes) : Nat := text.foldl (fun total octet => 257 * total + octet.toNat + 1) 7

theorem sampleNumber_snoc (front : Bytes) (octet : UInt8) :
    sampleNumber (front ++ [octet]) = 257 * sampleNumber front + octet.toNat + 1 := by
  rw [sampleNumber, List.foldl_append]
  rfl

theorem seven_le_sampleNumber (text : Bytes) : 7 ≤ sampleNumber text := by
  induction text using List.reverseRecOn with
  | nil => exact Nat.le_refl 7
  | append_singleton front octet ih =>
    rw [sampleNumber_snoc]
    omega

variable {text text' : Bytes}

/-- A number has one text: its digits are read from the end. -/
theorem sampleNumber_injective (same : sampleNumber text = sampleNumber text') :
    text = text' := by
  induction text using List.reverseRecOn generalizing text' with
  | nil =>
    rcases List.eq_nil_or_concat text' with rfl | ⟨front, octet, rfl⟩
    · rfl
    · have least := seven_le_sampleNumber front
      rw [List.concat_eq_append, sampleNumber_snoc] at same
      change 7 = _ at same
      omega
  | append_singleton front octet ih =>
    have bound := octet.toNat_lt
    rcases List.eq_nil_or_concat text' with rfl | ⟨front', octet', rfl⟩
    · have least := seven_le_sampleNumber front
      rw [sampleNumber_snoc] at same
      change _ = 7 at same
      omega
    · have bound' := octet'.toNat_lt
      rw [List.concat_eq_append, sampleNumber_snoc, sampleNumber_snoc] at same
      have fronts : sampleNumber front = sampleNumber front' := by omega
      have octets : octet = octet' := UInt8.toNat_inj.mp (by omega)
      rw [ih fronts, octets, List.concat_eq_append]

theorem sampleNumber_lt (text : Bytes) : sampleNumber text < 8 * 257 ^ text.length := by
  suffices bound : sampleNumber text + 1 ≤ 8 * 257 ^ text.length from bound
  induction text using List.reverseRecOn with
  | nil => exact Nat.le_refl 8
  | append_singleton front octet ih =>
    have bound := octet.toNat_lt
    rw [sampleNumber_snoc, List.length_append, List.length_singleton, Nat.pow_succ]
    omega

/-- The sample digest of 64 octets separates all texts of at most 62 octets. -/
theorem sampleDigest_injective (short : text.length ≤ 62) (short' : text'.length ≤ 62)
    (same : sampleDigest 64 text = sampleDigest 64 text') : text = text' := by
  have small : ∀ tested : Bytes, tested.length ≤ 62 → sampleNumber tested < 256 ^ 64 := by
    intro tested few
    calc sampleNumber tested < 8 * 257 ^ tested.length := sampleNumber_lt tested
      _ ≤ 8 * 257 ^ 62 := Nat.mul_le_mul_left 8 (Nat.pow_le_pow_right (by decide) few)
      _ < 256 ^ 64 := by decide
  apply sampleNumber_injective
  have octets := congrArg (fun digest => leValue digest.val) same
  change leValue (leBytes 64 (sampleNumber text)) = leValue (leBytes 64 (sampleNumber text')) at octets
  rwa [leValue_leBytes, leValue_leBytes, Nat.mod_eq_of_lt (small _ short),
    Nat.mod_eq_of_lt (small _ short')] at octets

/-- Finitely many texts are tested for a collision pair by pair. -/
theorem injOn_listed {β : Type} (digest : Bytes → β) (listed : List Bytes) (texts : Set Bytes)
    (inside : ∀ text ∈ texts, text ∈ listed)
    (separate : ∀ text ∈ listed, ∀ text' ∈ listed, digest text = digest text' → text = text') :
    Set.InjOn digest texts := by
  intro text member text' member' same
  exact separate text (inside text member) text' (inside text' member') same

/-- Libraries that hash with the sample digest and provide neither a signature
scheme nor a proof verifier. -/
def samplePrimitives : Primitives where
  sha3 := sampleDigest 64
  sha256 := sampleDigest 32
  oqsSizes := fun _ => none
  supportsCtxSign := fun _ => false
  oqsVerify := fun _ _ _ _ => false
  decodeReceipt := none
  imageId := zeroH32

/-- The sample libraries with one signature scheme: one-octet keys, and the digest
of key and message as the signature. -/
def signingPrimitives : Primitives :=
  { samplePrimitives with
    oqsSizes := fun scheme => if scheme = .mlDsa87 then some ⟨1, 1, 4⟩ else none
    oqsVerify := fun _ key message signature => signature == (sampleDigest 4 (key ++ message)).val }

end Addition
