import Addition.MailRelayRuns

/-!
# What a relay promises

A relay counts what it stores, keeps what was deleted from coming back, and gives no line to a peer
again that was marked as given, while it is stored. It does so in every run in which no line of a stored
package is marked as given. Such a mark is dropped by the purge of the next call, which only looks for
the ids of envelopes and of deletions, so that the package is given again.
-/

namespace Addition

namespace PmRelay

open ByteStrings Checked FiniteTables PqSession Runs TextLines

variable {P : Primitives} {S : Suite} {M : MailSuite}

/-! ### What runs should keep -/

/-- The store is counted and within its limits, and nothing is kept together with its deletion. -/
structure Accounted (relay : PmRelay) : Prop where
  bytes : relay.bytes = measure (fun _ envelope => size envelope) relay.envs
  small : relay.bytes ≤ kMaxStoreBytes
  few : relay.envs.entries.length ≤ kMaxMessages
  apart : ∀ id, (relay.envs.lookup id).isSome → relay.tombstones.lookup id = none

/-- The line of a package. -/
def packageLine (package : StoredPackage) : Bytes := ascii "KPKG|v1|" ++ package.hex

/-- A line belongs to an envelope, a deletion or a package that is stored until this time. -/
def Stored (relay : PmRelay) (text : Bytes) (expiry : UInt64) : Prop :=
  (∃ id, Offers relay id expiry text) ∨ ∃ index package, relay.pkgs.lookup index = some package ∧
    package.expires = expiry ∧ text = packageLine package

/-- The clock was not read later than this. -/
def NotAfter (calls : List Call) (now : UInt64) : Prop :=
  ∀ call ∈ calls, ∀ time ∈ call.readings, time ≤ now

/-- After this run a line is not given to a peer, at any time that the clock may show and in any order,
if it is still stored then. -/
def Withheld (P : Primitives) (S : Suite) (M : MailSuite) (keyDir : Bytes) (calls : List Call)
    (peer text : Bytes) (expiry : UInt64) : Prop :=
  ∀ now, NotAfter calls now → Stored ((reached P S M (initial keyDir) calls).purge now) text expiry →
    ∀ most order, Enumerates order ((reached P S M (initial keyDir) calls).purge now) →
      text ∉ undeliveredFor (reached P S M (initial keyDir) calls) now peer most order

/-- In every state of a run the store is accounted for, what was deleted does not come back before its
expiry, and a peer is not given again what it is marked for or what `mark_delivered` was told. -/
structure Promised (P : Primitives) (S : Suite) (M : MailSuite) (keyDir : Bytes) (calls : List Call) :
    Prop where
  accounted : ∀ front, front <+: calls → Accounted (reached P S M (initial keyDir) front)
  gone : ∀ front call later, front ++ call :: later <+: calls → ∀ id envelope,
    (reached P S M (initial keyDir) front).envs.lookup id = some envelope →
    Deletes P M (reached P S M (initial keyDir) front) call id →
    (∀ other ∈ later, ∀ time ∈ other.readings, time < envelope.expireAt) →
      (reached P S M (initial keyDir) (front ++ call :: later)).envs.lookup id = none
  marked : ∀ front later, front ++ later <+: calls → ∀ peer text expiry,
    Marked (reached P S M (initial keyDir) front) peer text expiry →
      Withheld P S M keyDir (front ++ later) peer text expiry
  given : ∀ front peer text later, front ++ .markDelivered peer text :: later <+: calls → ∀ expiry,
    Stored (reached P S M (initial keyDir) front) text expiry →
      Withheld P S M keyDir (front ++ .markDelivered peer text :: later) peer text expiry

/-- No line of a stored package is marked as given. -/
def SparesPackages (relay : PmRelay) : Call → Prop
  | .markDelivered _ text =>
    ∀ index package, relay.pkgs.lookup index = some package → text ≠ packageLine package
  | _ => True

/-! ### Promises that are kept -/

variable {relay : PmRelay} {expiry now : UInt64} {text : Bytes} {front : List Call} {keyDir : Bytes}

theorem Sound.accounted (sound : Sound P relay) : Accounted relay where
  bytes := sound.bytes
  small := sound.small
  few := sound.few
  apart := by
    intro id there
    obtain ⟨envelope, found⟩ := Option.isSome_iff_exists.mp there
    exact sound.apart id envelope found

/-- A deletion is kept until it expires. -/
theorem reached_buried {start : PmRelay} (later : List Call) {id : Bytes}
    (early : ∀ call ∈ later, ∀ time ∈ call.readings, time < expiry) (buried : Buried start id expiry) :
    Buried (reached P S M start later) id expiry := by
  induction later using List.reverseRecOn with
  | nil => exact buried
  | append_singleton front call ih =>
    rw [reached_snoc]
    exact step_buried call (early call (by simp))
      (ih fun other member => early other (by simp [member]))

/-- What a purge leaves has not expired. -/
theorem Stored.soon (stored : Stored (relay.purge now) text expiry) : now < expiry := by
  rcases stored with ⟨id, ⟨envelope, there, rfl, -⟩ | ⟨dead, -⟩⟩ | ⟨index, package, there, rfl, -⟩
  · rw [lookup_envs_purge, Option.filter_eq_some_iff] at there
    exact of_decide_eq_true there.2
  · rw [lookup_tombstones_purge, Option.filter_eq_some_iff] at dead
    exact of_decide_eq_true dead.2
  · rw [lookup_pkgs_purge, Option.filter_eq_some_iff] at there
    exact of_decide_eq_true there.2

/-- A mark that stands in some state withholds its line in every later one. -/
theorem Marked.withheld {peer : Bytes}
    (marked : Marked (reached P S M (initial keyDir) front) peer text expiry) (later : List Call) :
    Withheld P S M keyDir (front ++ later) peer text expiry := by
  intro now earlier stored most order lists
  have soon := stored.soon
  have sound := reached_sound (P := P) (S := S) (M := M) (sound_initial keyDir) front
  rw [reached_append] at lists ⊢
  refine marked_not_given sound marked later ?_ soon most lists
  intro call member time read
  exact UInt64.lt_of_le_of_lt (earlier call (List.mem_append_right _ member) time read) soon

/-- A relay keeps its promises in every run in which no line of a stored package is marked as given. -/
theorem promises_kept (P : Primitives) (S : Suite) (M : MailSuite) (keyDir : Bytes) (calls : List Call)
    (spares : EachStep (step P S M) SparesPackages (initial keyDir) calls) :
    Promised P S M keyDir calls where
  accounted := fun front _ => (reached_sound (sound_initial keyDir) front).accounted
  gone := by
    intro front call later _ id envelope there deletes early
    have sound := reached_sound (P := P) (S := S) (M := M) (sound_initial keyDir) front
    have buried := deletes.buries (S := S) sound there
    rw [show front ++ call :: later = (front ++ [call]) ++ later by simp, reached_append, reached_snoc]
    exact (reached_buried later early buried).gone
  marked := fun front later _ peer text expiry marked => marked.withheld later
  given := by
    intro front peer text later cut expiry stored
    have sound := reached_sound (P := P) (S := S) (M := M) (sound_initial keyDir) front
    rcases stored with ⟨id, offered⟩ | ⟨index, package, there, -, same⟩
    · rw [show front ++ .markDelivered peer text :: later =
        (front ++ [.markDelivered peer text]) ++ later by simp]
      refine Marked.withheld ?_ later
      rw [reached_snoc]
      exact markDelivered_marked sound peer offered
    · -- the condition leaves packages out
      have spared : SparesPackages (reached P S M (initial keyDir) front) (.markDelivered peer text) := by
        refine (eachStep_iff.mp spares) front _ ?_
        exact (List.prefix_append _ later).trans (by simpa using cut)
      exact absurd same (spared index package there)

/-- A message is sent, given to a peer and deleted with its token, and something is looked up. -/
def sampleRun : List Call :=
  [sampleSend, .markDelivered (ascii "peer") (wire sampleEnvelope), sampleDelete, .lookUp 30]

/-- The promises hold of a run with a message, a deletion and a package. -/
theorem sampleRun_promised : Promised samplePrimitives symbolic sampleMail [] sampleRun := by
  refine promises_kept samplePrimitives symbolic sampleMail [] sampleRun
    ⟨trivial, fun _ package _ => ?_, trivial, trivial, trivial⟩
  exact wire_ne_package sampleEnvelope package.hex

theorem SameStore.knows_purge {left : PmRelay} (same : SameStore relay left) (now : UInt64)
    (id : Bytes) : (left.purge now).knows id = (relay.purge now).knows id := by
  rw [PmRelay.knows, PmRelay.knows, lookup_envs_purge, lookup_envs_purge, lookup_tombstones_purge,
    lookup_tombstones_purge, same.envs, same.tombstones]

/-- A package that is marked as given to a peer is given to it again before it expires, unless its digest
happens to be the id of an envelope or a deletion. -/
theorem marked_given_again {index : Bytes} {package : StoredPackage}
    (there : (reached P S M (initial keyDir) front).pkgs.lookup index = some package)
    (earlier : NotAfter front now) (soon : now < package.expires)
    (unknown : ((reached P S M (initial keyDir) front).purge now).knows
      ((strongHash P package.hex).take 32) = false) (peer : Bytes) :
    ¬ Promised P S M keyDir (front ++ [.markDelivered peer (packageLine package)]) := by
  intro promised
  have withheld := promised.given front peer (packageLine package) [] (List.prefix_refl _) package.expires
    (.inr ⟨index, package, there, rfl, rfl⟩) now
  have same := markDelivered_store (P := P) (reached P S M (initial keyDir) front) peer
    (packageLine package)
  have before := reached_sound (P := P) (S := S) (M := M) (sound_initial keyDir) front
  have sound := step_sound (S := S) (M := M) before (.markDelivered peer (packageLine package))
  have whole : reached P S M (initial keyDir) (front ++ [.markDelivered peer (packageLine package)]) =
      (reached P S M (initial keyDir) front).markDelivered P peer (packageLine package) :=
    reached_snoc _ _ _
  have kept : ((reached P S M (initial keyDir) front).markDelivered P peer
      (packageLine package)).pkgs.lookup index = some package := by
    rw [same.pkgs, there]
  have notAfter : NotAfter (front ++ [.markDelivered peer (packageLine package)]) now := by
    intro call member time read
    rcases List.mem_append.mp member with inside | last
    · exact earlier call inside time read
    · obtain rfl := List.mem_singleton.mp last
      exact absurd read List.not_mem_nil
  have stored : Stored (((reached P S M (initial keyDir) front).markDelivered P peer
      (packageLine package)).purge now) (packageLine package) package.expires := by
    refine .inr ⟨index, package, ?_, rfl, rfl⟩
    rw [lookup_pkgs_purge, kept]
    exact Option.filter_eq_some_iff.mpr ⟨rfl, decide_eq_true soon⟩
  have given := (package_offered_iff sound kept soon peer (listing_enumerates _) (Nat.le_refl _)).mpr <| by
    rintro ⟨-, knows⟩
    have nothing := same.knows_purge now ((strongHash P package.hex).take 32)
    rw [unknown] at nothing
    exact absurd (knows.symm.trans nothing) (by decide)
  rw [whole] at withheld
  exact withheld notAfter stored _ _ (listing_enumerates _) given

/-- A package that is published and marked as given to a peer. -/
def markedPackage : List Call :=
  [.publishPackage 0 0 (toHex responderPackage.encode)] ++
    [.markDelivered (ascii "peer")
      (packageLine (storedPackage samplePrimitives symbolic (toHex responderPackage.encode)
        responderPackage))]

/-- A package that was given and marked is listed again. -/
theorem markedPackage_given_again : ¬ Promised samplePrimitives symbolic sampleMail [] markedPackage := by
  have short := symbolicPackage_length (List.replicate 32 (byte '0')) (by decide)
  have alone : reached samplePrimitives symbolic sampleMail (initial [])
      [.publishPackage 0 0 (toHex responderPackage.encode)] =
        (initial []).putPackageAt responderPackage.index
          (storedPackage samplePrimitives symbolic (toHex responderPackage.encode) responderPackage) :=
    published samplePrimitives symbolic sampleMail []
      (symbolicPackage_bounded (List.replicate 32 (byte '0')) (by decide)) (Nat.le_trans short (by decide))
      (symbolicPackage_valid _ (.inr (by decide)) 0 (by decide)) (by decide)
  have there : (reached samplePrimitives symbolic sampleMail (initial [])
      [.publishPackage 0 0 (toHex responderPackage.encode)]).pkgs.lookup responderPackage.index =
        some (storedPackage samplePrimitives symbolic (toHex responderPackage.encode) responderPackage) := by
    rw [alone]
    exact AList.lookup_insert _
  have earlier : NotAfter [.publishPackage 0 0 (toHex responderPackage.encode)] 1 := by
    intro call member time read
    obtain rfl := List.mem_singleton.mp member
    simp only [Call.readings, List.mem_cons, List.not_mem_nil, or_false, or_self] at read
    rw [read]
    decide
  refine marked_given_again there earlier (by decide) ?_ _
  rw [alone]
  rfl

end PmRelay

end Addition
