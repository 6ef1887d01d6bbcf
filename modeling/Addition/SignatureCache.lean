import Mathlib.Data.Finset.Card
import Addition.Primitives
import Addition.Foundations.Asking

/-!
# The cache in front of signature verification

`verify_message_signature_hybrid` remembers what verified in a set that belongs to the whole
process, as the digest of key, message and signature with a zero octet between them. The set is
asked before the digits of the signature are looked at, and nothing keeps a zero octet out of a
message or a signature: one text has several readings, and a reading that never verified is
answered with the success of another.

A key and a signature without a zero octet leave one reading of the text, and then the cache
answers what verification without it would. So does it for a message that no remembered message
continues after a zero octet; this is the case of transactions, whose messages are digests.
-/

namespace Addition

open ByteStrings

/-- The arguments of `verify_message_signature_hybrid`. -/
structure SignatureCheck where
  publicKey : Bytes
  message : Bytes
  signature : Bytes
deriving DecidableEq

/-- What `sigcache_key` hashes. -/
def SignatureCheck.text (check : SignatureCheck) : Bytes :=
  check.publicKey ++ 0 :: (check.message ++ 0 :: check.signature)

variable (P : Primitives)

/-- What a check answers without the cache. -/
def SignatureCheck.truth (check : SignatureCheck) : Bool :=
  verifyMessageSignatureHybridUncached P check.publicKey check.message check.signature

/-- `sigcache_key`. -/
def sigcacheKey (check : SignatureCheck) : Hash512 := P.sha3 check.text

/-- `g_sigcache`. -/
abbrev SigCache := Finset Hash512

/-- `kSigCacheMax`. -/
def kSigCacheMax : Nat := 200000

/-- The tests that are made on every call, also when the cache has the key. -/
def checkAllowed (check : SignatureCheck) : Bool :=
  pqPrefix.isPrefixOf check.signature && check.publicKey.length % 2 == 0 &&
    (let scheme := inferSigSchemeFromKeyBytes P (check.publicKey.length / 2)
    decide (scheme ≠ .unknown) && sigSchemeAllowedStrict P scheme)

/-- `verify_message_signature_hybrid`, with the cache it leaves. The cache is never disabled
outside of benchmarks. -/
def verifyMessageSignatureHybrid (cache : SigCache) (check : SignatureCheck) : Bool × SigCache :=
  if !checkAllowed P check then (false, cache)
  else if sigcacheKey P check ∈ cache then (true, cache)
  else if check.truth P then
    (true, insert (sigcacheKey P check) (if kSigCacheMax ≤ cache.card then ∅ else cache))
  else (false, cache)

/-- The cache together with the checks that the rest of the process will make: a list for each
check of the component that is looked at, of those that come between the check before it and it. -/
structure Verifier where
  cache : SigCache
  others : List (List SignatureCheck)

/-- The cache after checks of which only the cache is kept. -/
def verifyEach (cache : SigCache) (checks : List SignatureCheck) : SigCache :=
  checks.foldl (fun cache check => (verifyMessageSignatureHybrid P cache check).2) cache

/-- A check by the component that is looked at, after the checks that come before it. -/
def Verifier.answer (verifier : Verifier) (check : SignatureCheck) : Bool × Verifier :=
  let (answer, cache) :=
    verifyMessageSignatureHybrid P (verifyEach P verifier.cache (verifier.others.headD [])) check
  (answer, ⟨cache, verifier.others.tail⟩)

variable {P}

/-! ### What a hit says -/

/-- A check that verifies has a key and a signature of digits, and passes the tests of every call. -/
theorem SignatureCheck.truth_shape (check : SignatureCheck) (verified : check.truth P = true) :
    (0 : UInt8) ∉ check.publicKey ∧ (0 : UInt8) ∉ check.signature ∧ checkAllowed P check = true := by
  unfold SignatureCheck.truth at verified
  obtain ⟨digits, spelled, hex⟩ := verifyMessageSignatureHybridUncached_shape P _ _ _ verified
  have signature : (0 : UInt8) ∉ check.signature := by
    rw [spelled, List.mem_append, not_or]
    exact ⟨by decide, fun zero => absurd (hex 0 zero) (by decide)⟩
  simp only [verifyMessageSignatureHybridUncached] at verified
  split at verified
  · simp at verified
  · rename_i marked
    split at verified
    · simp at verified
    · rename_i allowed
      split at verified
      · simp at verified
      · split at verified
        · rename_i checked
          simp only [Bool.and_eq_true, Checked.isOk_iff, isHexStrict_ok check.publicKey] at checked
          refine ⟨fun zero => absurd (checked.1.1.2.2.2 0 zero) (by decide), signature, ?_⟩
          simp only [Bool.or_eq_true, Bool.not_eq_true', bne_iff_ne, ne_eq, not_or, Bool.not_eq_false,
            not_not] at marked allowed
          simp [checkAllowed, marked, allowed]
        · simp at verified

/-- Two checks with one text, of which the second verified and the first has a key without a zero
octet: they are the same, or the message of the second continues that of the first. -/
theorem SignatureCheck.text_determined (check verified : SignatureCheck)
    (plain : (0 : UInt8) ∉ check.publicKey) (truth : verified.truth P = true)
    (same : check.text = verified.text) :
    check = verified ∨
      (0 : UInt8) ∈ check.signature ∧ ∃ rest, verified.message = check.message ++ 0 :: rest := by
  obtain ⟨keyDigits, signatureDigits, _⟩ := verified.truth_shape truth
  obtain ⟨publicKey, rest⟩ := cut_first 0 _ _ _ _ plain keyDigits same
  by_cases zero : (0 : UInt8) ∈ check.signature
  · refine .inr ⟨zero, ?_⟩
    -- the last zero octet of the first reading stands inside its signature
    obtain ⟨back, front, spelled, last⟩ :=
      List.eq_append_cons_of_mem (List.mem_reverse.mpr zero)
    have signature : check.signature = front.reverse ++ 0 :: back.reverse := by
      simpa using congrArg List.reverse spelled
    rw [signature, ← List.cons_append, ← List.append_assoc] at rest
    exact ⟨front.reverse, (cut_last 0 _ _ _ _ (by simpa using last) signatureDigits rest).1.symm⟩
  · obtain ⟨message, signature⟩ := cut_last 0 _ _ _ _ zero signatureDigits rest
    obtain ⟨_, _, _⟩ := check
    obtain ⟨_, _, _⟩ := verified
    simp only [SignatureCheck.mk.injEq]
    exact .inl ⟨publicKey, message, signature⟩

/-! ### Caches of what verified -/

/-- What is remembered is the digest of a check, among given ones, that verifies. -/
def Remembers (P : Primitives) (checks : Set SignatureCheck) (cache : SigCache) : Prop :=
  ∀ key ∈ cache, ∃ check ∈ checks, check.truth P = true ∧ key = sigcacheKey P check

/-- A check leaves one reading of its text: its key has no zero octet, and neither has its
signature, unless no message continues its own after a zero octet. -/
structure Readable (checks : Set SignatureCheck) (check : SignatureCheck) : Prop where
  publicKey : (0 : UInt8) ∉ check.publicKey
  rest : (0 : UInt8) ∉ check.signature ∨
    ∀ other ∈ checks, ∀ rest, other.message ≠ check.message ++ 0 :: rest

variable {checks : Set SignatureCheck}

variable {cache : SigCache}

/-- The cache keeps what verified and nothing else, whatever it is asked. -/
theorem Remembers.verify (remembers : Remembers P checks cache)
    (check : SignatureCheck) (made : check ∈ checks) :
    Remembers P checks (verifyMessageSignatureHybrid P cache check).2 := by
  unfold verifyMessageSignatureHybrid
  split
  · exact remembers
  · split
    · exact remembers
    · split
      · rename_i verified
        intro key member
        rcases Finset.mem_insert.mp member with own | before
        · exact ⟨check, made, verified, own⟩
        · split at before
          · exact absurd before (Finset.notMem_empty key)
          · exact remembers key before
      · exact remembers

theorem Remembers.verifyEach (remembers : Remembers P checks cache)
    (others : List SignatureCheck) (made : ∀ check ∈ others, check ∈ checks) :
    Remembers P checks (verifyEach P cache others) := by
  induction others generalizing cache with
  | nil => exact remembers
  | cons check rest ih =>
    exact ih (remembers.verify check (made check (.head _)))
      fun other member => made other (.tail _ member)

/-- Without a collision among the texts of the checks, a cache of what verified answers a check of
one reading as verification does. -/
theorem Remembers.answers (remembers : Remembers P checks cache)
    (injective : Set.InjOn P.sha3 (SignatureCheck.text '' checks)) (check : SignatureCheck)
    (made : check ∈ checks) (readable : Readable checks check) :
    (verifyMessageSignatureHybrid P cache check).1 = check.truth P := by
  unfold verifyMessageSignatureHybrid
  by_cases verified : check.truth P = true
  · rw [(check.truth_shape verified).2.2]
    simp only [Bool.not_true, Bool.false_eq_true, if_false, verified, if_true]
    split <;> rfl
  · -- a hit would come from a check with the same text, hence from this one
    have missed : sigcacheKey P check ∉ cache := by
      intro hit
      obtain ⟨other, remembered, truth, key⟩ := remembers _ hit
      have text := injective ⟨check, made, rfl⟩ ⟨other, remembered, rfl⟩ key
      rcases check.text_determined other readable.publicKey truth text with rfl | ⟨zero, rest, longer⟩
      · exact verified truth
      · rcases readable.rest with plain | none
        · exact plain zero
        · exact none other remembered rest longer
    rw [if_neg missed, if_neg verified, Bool.eq_false_iff.mpr verified]
    split <;> rfl

/-! ### Verifiers -/

/-- A verifier that remembers what verified, in a process all of whose checks are among given ones. -/
structure Verifier.Sound (P : Primitives) (checks : Set SignatureCheck) (verifier : Verifier) :
    Prop where
  remembers : Remembers P checks verifier.cache
  others : ∀ between ∈ verifier.others, ∀ check ∈ between, check ∈ checks

/-- The cache of a process that just started. -/
theorem Verifier.sound_empty (others : List (List SignatureCheck))
    (made : ∀ between ∈ others, ∀ check ∈ between, check ∈ checks) :
    Verifier.Sound P checks ⟨∅, others⟩ :=
  ⟨fun key member => absurd member (Finset.notMem_empty key), made⟩

/-- One check of one reading: the answer is that of verification, and the cache stays sound. -/
theorem Verifier.Sound.answer {verifier : Verifier} (sound : verifier.Sound P checks)
    (injective : Set.InjOn P.sha3 (SignatureCheck.text '' checks)) (check : SignatureCheck)
    (made : check ∈ checks) (readable : Readable checks check) :
    (verifier.answer P check).1 = check.truth P ∧ (verifier.answer P check).2.Sound P checks := by
  have before : Remembers P checks (verifyEach P verifier.cache (verifier.others.headD [])) := by
    refine sound.remembers.verifyEach _ fun other member => ?_
    cases between : verifier.others with
    | nil => simp [between] at member
    | cons first rest =>
      rw [between] at member
      exact sound.others first (by simp [between]) other member
  exact ⟨before.answers injective check made readable, before.verify check made,
    fun between later => sound.others between (List.mem_of_mem_tail later)⟩

/-- Answered by a sound verifier, a computation gives a value and leaves the verifier sound, as long
as its checks are among given ones. -/
abbrev Faithful {α : Type} (P : Primitives) (checks : Set SignatureCheck)
    (computation : Asking SignatureCheck α) (value : α) : Prop :=
  Asking.Gives (Verifier.answer P) (Verifier.Sound P checks) (· ∈ checks) computation value

/-- A computation that asks checks of one reading gives what it gives without the cache. -/
theorem faithful_of_readable {α : Type}
    (injective : Set.InjOn P.sha3 (SignatureCheck.text '' checks))
    {computation : Asking SignatureCheck α} (asks : computation.Every (Readable checks)) :
    Faithful P checks computation (computation.eval (SignatureCheck.truth P)) :=
  .of_table (fun _ check sound made readable => sound.answer injective check made readable) asks

end Addition
