import Mathlib.Logic.Relation
import Addition.MailRelay
import Addition.SymbolicSuite

/-!
# The relay of private messages along runs

In every run the store is within its limits and accounted for exactly. An envelope that has not expired
leaves it only by a deletion with its token, or when a wallet whose mailbox it is in opens it and
removes it; until it would have expired it is not taken again. A line that was given to a peer is
not given to it again as long as the envelope or the deletion is kept. Marks about packages are
forgotten at every purge, so packages are given again and again.
-/

namespace Addition

namespace PmRelay

open ByteStrings Checked FiniteTables PqSession Runs TextLines

variable {P : Primitives} {S : Suite} {M : MailSuite}

/-! ### What a call can do -/

/-- Relays that keep the same envelopes, deletions and packages. -/
structure SameStore (relay left : PmRelay) : Prop where
  pkgs : left.pkgs = relay.pkgs
  envs : left.envs = relay.envs
  tombstones : left.tombstones = relay.tombstones
  delLines : left.delLines = relay.delLines
  bytes : left.bytes = relay.bytes

/-- The clock readings of a call. -/
def Call.readings : Call → List UInt64
  | .send written stored _ _ _ _ _ => [written, stored]
  | .acceptWire asked stored _ _ => [asked, stored]
  | .publishPackage checked compared _ => [checked, compared]
  | .acceptPackage asked checked compared _ _ => [asked, checked, compared]
  | .lookUp now => [now]
  | _ => []

/-- A call deletes an envelope with a token whose hash it carries, or removes it for a wallet that has
its mailbox and opens it. -/
def Deletes (P : Primitives) (M : MailSuite) (relay : PmRelay) (call : Call) (id : Bytes) : Prop :=
  match call with
  | .acceptDelete _ body => ∃ token octets envelope, splitAll (byte '|') body = [id, token] ∧
      isHexOf id 32 32 ∧ isHexOf token 64 64 ∧ hexToBytes token = .ok octets ∧
      relay.envs.lookup id = some envelope ∧ tokenHash P octets = envelope.delHash
  | .remove wallet id' => ∃ keys envelope opened, id' = id ∧ relay.loadKey P wallet = .ok keys ∧
      relay.envs.lookup id = some envelope ∧ envelope.mailbox = keys.mailbox ∧
      decrypt P M envelope keys = .ok opened
  | _ => False

/-- A package is kept under an index as `put_package_locked` makes it: its text decodes to a key package
with this very index, whose dates it carries, and its mark is that of the text. -/
structure Filed (P : Primitives) (index : Bytes) (package : StoredPackage) : Prop where
  marked : package.lineId = packageMark P package.hex
  decodes : ∃ decoded, packageFromHex package.hex = .ok decoded ∧ decoded.index = index ∧
    package.created = decoded.created ∧ package.expires = decoded.expires

/-- What a call can do to a relay at a time: change other things and add marks, purge at one of its
readings, take a new envelope that fits, bury an envelope that it deletes, and keep a package. -/
inductive Move (P : Primitives) (readings : List UInt64) (deletes : Bytes → Prop) :
    PmRelay → PmRelay → Prop
  | beside {relay left : PmRelay} (same : SameStore relay left)
      (marked : ∀ peer, relay.marks peer ⊆ left.marks peer) : Move P readings deletes relay left
  | purge {relay : PmRelay} {now : UInt64} (read : now ∈ readings) :
      Move P readings deletes relay (relay.purge now)
  | add {relay : PmRelay} {envelope : Envelope} (new : relay.knows envelope.id = false)
      (name : envelope.id.length = 32) (few : relay.envs.entries.length < kMaxMessages)
      (small : relay.bytes + size envelope ≤ kMaxStoreBytes) :
      Move P readings deletes relay (relay.add envelope)
  | bury {relay : PmRelay} {id token : Bytes} {envelope : Envelope}
      (there : relay.envs.lookup id = some envelope) (deleted : deletes id) :
      Move P readings deletes relay (relay.bury id token envelope)
  | put {relay : PmRelay} {index : Bytes} {package : StoredPackage}
      (filed : Filed P index package)
      (room : (relay.pkgs.lookup index).isSome ∨ relay.pkgs.entries.length < kMaxPackages) :
      Move P readings deletes relay (relay.putPackageAt index package)

/-- One after the other. -/
abbrev Moves (P : Primitives) (readings : List UInt64) (deletes : Bytes → Prop) :
    PmRelay → PmRelay → Prop :=
  Relation.ReflTransGen (Move P readings deletes)

theorem marks_mark (relay : PmRelay) (peer name tested : Bytes) :
    (relay.mark peer name).marks tested =
      if tested = peer then insert name (relay.marks peer) else relay.marks tested := by
  change ((relay.delivered.insert peer _).lookup tested).getD ∅ = _
  rw [lookup_insert]
  split <;> rfl

variable {between : PmRelay} {deletes : Bytes → Prop} {relay : PmRelay} {envelope : Envelope}
  {now : UInt64} {text : Bytes} {left : PmRelay} {id token index : Bytes} {start : PmRelay}
  {expiry : UInt64} {name peer : Bytes} {order : Enumeration} {package : KeyPackage}

/-- A mark moves nothing in the store. -/
theorem Moves.mark {readings : List UInt64}
    (before : Moves P readings deletes relay between) (peer name : Bytes) :
    Moves P readings deletes relay (between.mark peer name) := by
  refine before.tail <| .beside ⟨rfl, rfl, rfl, rfl, rfl⟩ fun tested => ?_
  rw [marks_mark]
  split
  · rename_i same
    rw [same]
    exact Finset.subset_insert _ _
  · exact Finset.Subset.refl _

theorem rateOk_store (relay : PmRelay) (now : UInt64) (peer : Bytes) :
    SameStore relay (relay.rateOk now peer).2 ∧ (relay.rateOk now peer).2.delivered = relay.delivered := by
  unfold rateOk
  dsimp only
  split
  · exact ⟨⟨rfl, rfl, rfl, rfl, rfl⟩, rfl⟩
  · exact ⟨⟨rfl, rfl, rfl, rfl, rfl⟩, rfl⟩

/-- The rate limit moves nothing in the store. -/
theorem Moves.rateOk {readings : List UInt64}
    (before : Moves P readings deletes relay between) (now : UInt64) (peer : Bytes) :
    Moves P readings deletes relay (between.rateOk now peer).2 := by
  obtain ⟨same, delivered⟩ := rateOk_store between now peer
  refine before.tail <| .beside same fun tested => ?_
  rw [marks, marks, delivered]

/-- Storing an envelope is a purge and at most one addition. -/
theorem Moves.store {readings : List UInt64}
    (before : Moves P readings deletes relay between) (read : now ∈ readings)
    (name : envelope.id.length = 32) :
    Moves P readings deletes relay (between.store now envelope).2 := by
  have purged := before.tail (.purge read)
  unfold PmRelay.store
  dsimp only
  split
  · exact purged
  rename_i new
  split
  · exact purged
  split
  · exact purged
  split
  · exact purged
  rename_i full
  rw [not_or, Nat.not_le, Nat.not_lt] at full
  exact purged.tail (.add (Bool.not_eq_true _ ▸ new) name full.1 full.2)

/-- Storing a package is at most one replacement behind a purge. -/
theorem Moves.putPackage {readings : List UInt64}
    (before : Moves P readings deletes relay between) (checked compared : UInt64) (hex : Bytes) :
    Moves P readings deletes relay (between.putPackage P S checked compared hex).2 := by
  unfold PmRelay.putPackage
  split
  · exact before
  rename_i package decoded
  have filed : Filed P package.index (storedPackage P S hex package) :=
    ⟨rfl, package, decoded, rfl, rfl, rfl⟩
  split
  · exact before
  split
  · exact before
  dsimp only
  split
  · split
    · exact before
    · exact before.tail (.put filed (.inr (Nat.not_le.mp ‹_›)))
  · rename_i there found
    have room : (between.pkgs.lookup _).isSome ∨ between.pkgs.entries.length < kMaxPackages :=
      .inl (Option.isSome_iff_exists.mpr ⟨there, found⟩)
    split
    · split
      · exact before
      · split
        · exact before
        · exact before.tail (.put filed room)
    · exact before.tail (.put filed room)

theorem isHexOf_length {length : Nat} (hex : isHexOf text length length = true) :
    text.length = length := by
  simp only [isHexOf, Bool.and_eq_true, decide_eq_true_eq] at hex
  omega

theorem readEnvelope_id {body : Bytes} (read : readEnvelope body = some envelope) :
    envelope.id.length = 32 := by
  unfold readEnvelope at read
  split at read
  · obtain ⟨-, read⟩ := Option.ite_none_left_eq_some.mp read
    split at read
    · exact nomatch read
    · obtain ⟨checks, read⟩ := Option.ite_none_right_eq_some.mp read
      exact Option.some.inj read ▸ isHexOf_length checks.1
  · exact nomatch read

theorem sealEnvelope_id {pk : Bytes} {expireAt : UInt64} {draw : Draw}
    (made : sealEnvelope P M pk text expireAt draw = .ok envelope) : envelope.id.length = 32 := by
  unfold sealEnvelope at made
  split at made
  · exact nomatch made
  · dsimp only at made
    split at made
    · exact nomatch made
    · rw [← Except.ok.inj made]
      simp [draw.id.property]

/-- Every call is a run of such moves. -/
theorem step_moves (relay : PmRelay) (call : Call) :
    Moves P call.readings (Deletes P M relay call) relay (step P S M relay call) := by
  cases call with
  | setKeyDir keyDir => exact .single (.beside ⟨rfl, rfl, rfl, rfl, rfl⟩ fun _ => Finset.Subset.refl _)
  | ensureKey wallet pair =>
    change Moves P _ _ relay (relay.ensureKey P wallet pair).2
    unfold PmRelay.ensureKey
    split
    · exact .refl
    split
    · exact .refl
    split
    · exact .refl
    · exact .single (.beside ⟨rfl, rfl, rfl, rfl, rfl⟩ fun _ => Finset.Subset.refl _)
  | send written stored most recipient text ttl draw =>
    change Moves P _ _ relay (relay.send P M written stored most recipient text ttl draw).2
    unfold PmRelay.send
    split
    · exact .refl
    split
    · exact .refl
    split
    · exact .refl
    split
    · exact .refl
    split
    · exact .refl
    rename_i envelope made
    have moves : ∀ deletes, Moves P [written, stored] deletes relay (relay.store stored envelope).2 :=
      fun deletes => Moves.store .refl (by simp) (sealEnvelope_id made)
    split
    · rename_i message left same
      rw [same] at moves
      exact moves _
    · rename_i known left same
      rw [same] at moves
      exact moves _
  | acceptWire asked stored peer body =>
    change Moves P _ _ relay (relay.acceptWire asked stored peer body).2
    unfold PmRelay.acceptWire
    split
    · exact .refl
    rename_i envelope read
    split
    · exact .refl
    have limited : ∀ deletes, Moves P [asked, stored] deletes relay (relay.rateOk asked peer).2 :=
      fun deletes => Moves.rateOk .refl asked peer
    split
    · rename_i left same
      rw [same] at limited
      exact limited _
    · rename_i left same
      rw [same] at limited
      have moves : ∀ deletes, Moves P [asked, stored] deletes relay (left.store stored envelope).2 :=
        fun deletes => (limited deletes).store (by simp) (readEnvelope_id read)
      split
      · rename_i message last same
        rw [same] at moves
        exact moves _
      · rename_i known last same
        rw [same] at moves
        exact (moves _).mark peer _
  | acceptDelete peer body =>
    change Moves P _ _ relay (relay.acceptDelete P peer body).2
    unfold PmRelay.acceptDelete
    split
    · rename_i id token parts
      split
      · rename_i hex
        split
        · exact .refl
        split
        · exact .refl
        rename_i envelope there
        split
        · exact .refl
        rename_i octets read
        split
        · exact .refl
        rename_i hashed
        have deleted : Deletes P M relay (.acceptDelete peer body) id :=
          ⟨token, octets, envelope, parts, hex.1, hex.2, read, there, not_not.mp hashed⟩
        have buried : Moves P (Call.acceptDelete peer body).readings
            (Deletes P M relay (.acceptDelete peer body)) relay (relay.bury id token envelope) :=
          .single (.bury there deleted)
        exact buried.mark peer _
      · exact .refl
    · exact .refl
  | remove wallet id =>
    change Moves P _ _ relay (relay.remove P M wallet id).2
    unfold PmRelay.remove
    split
    · exact .refl
    rename_i keys loaded
    split
    · exact .refl
    rename_i envelope there
    split
    · exact .refl
    rename_i own
    split
    · exact .refl
    rename_i text token opened
    exact .single (.bury there ⟨keys, envelope, (text, token), rfl, loaded, there, not_not.mp own, opened⟩)
  | publishPackage checked compared hex => exact Moves.putPackage .refl checked compared hex
  | acceptPackage asked checked compared peer body =>
    change Moves P _ _ relay (relay.acceptPackage P S asked checked compared peer body).2
    unfold PmRelay.acceptPackage
    split
    · exact .refl
    have limited : ∀ deletes,
        Moves P [asked, checked, compared] deletes relay (relay.rateOk asked peer).2 :=
      fun deletes => Moves.rateOk .refl asked peer
    split
    · rename_i left same
      rw [same] at limited
      exact limited _
    · rename_i left same
      rw [same] at limited
      have moves : ∀ deletes, Moves P [asked, checked, compared] deletes relay
          (left.putPackage P S checked compared (body.drop 3)).2 :=
        fun deletes => (limited deletes).putPackage checked compared (body.drop 3)
      split
      · rename_i message last same
        rw [same] at moves
        exact moves _
      · rename_i known last same
        rw [same] at moves
        exact (moves _).mark peer _
  | lookUp now => exact .single (.purge (by simp [Call.readings]))
  | markDelivered peer text =>
    change Moves P _ _ relay (relay.markDelivered P peer text)
    unfold PmRelay.markDelivered
    split
    · exact Moves.mark .refl peer _
    split
    · exact Moves.mark .refl peer _
    split
    · exact Moves.mark .refl peer _
    · exact .refl

/-- What every move of a call keeps, the call keeps. -/
theorem step_carries (property : PmRelay → Prop) (call : Call)
    (keeps : ∀ between left, Move P call.readings (Deletes P M relay call) between left →
      property between → property left) (start : property relay) :
    property (step P S M relay call) := by
  have moves := (step_moves relay call : Moves P _ (Deletes P M relay call) relay (step P S M relay call))
  generalize step P S M relay call = last at moves ⊢
  induction moves with
  | refl => exact start
  | tail _ move kept => exact keeps _ _ move kept

/-! ### The store is accounted for -/

/-- What the store of a relay has to do with its limits. -/
structure Sound (P : Primitives) (relay : PmRelay) : Prop where
  bytes : relay.bytes = measure (fun _ envelope => size envelope) relay.envs
  small : relay.bytes ≤ kMaxStoreBytes
  few : relay.envs.entries.length ≤ kMaxMessages
  packages : relay.pkgs.entries.length ≤ kMaxPackages
  apart : ∀ id envelope, relay.envs.lookup id = some envelope → relay.tombstones.lookup id = none
  own : ∀ id envelope, relay.envs.lookup id = some envelope → envelope.id = id ∧ id.length = 32
  lines : ∀ id, (relay.delLines.lookup id).isSome = (relay.tombstones.lookup id).isSome
  texts : ∀ id text, relay.delLines.lookup id = some text →
    id.length = 32 ∧ ∃ token, text = deletion id token
  listed : ∀ index package, relay.pkgs.lookup index = some package → Filed P index package

/-- The relay without mail is sound. -/
theorem sound_initial (keyDir : Bytes) : Sound P (initial keyDir) := by
  constructor <;> simp [initial]

/-- Soundness is a matter of the store. -/
theorem Sound.beside (sound : Sound P relay) (same : SameStore relay left) :
    Sound P left := by
  obtain ⟨pkgs, envs, tombstones, delLines, bytes⟩ := same
  obtain ⟨pkgs', keyDir', keyFiles', envs', tombstones', delLines', delivered', rate', bytes'⟩ := left
  dsimp only at pkgs envs tombstones delLines bytes
  subst pkgs envs tombstones delLines bytes
  exact ⟨sound.bytes, sound.small, sound.few, sound.packages, sound.apart, sound.own, sound.lines,
    sound.texts, sound.listed⟩

theorem lookup_envs_purge (relay : PmRelay) (now : UInt64) (id : Bytes) :
    (relay.purge now).envs.lookup id =
      (relay.envs.lookup id).filter (fun envelope => decide (now < envelope.expireAt)) :=
  lookup_keep relay.envs _ id

theorem lookup_tombstones_purge (relay : PmRelay) (now : UInt64) (id : Bytes) :
    (relay.purge now).tombstones.lookup id =
      (relay.tombstones.lookup id).filter (fun expiry => decide (now < expiry)) :=
  lookup_keep relay.tombstones _ id

theorem lookup_delLines_purge (relay : PmRelay) (now : UInt64) (id : Bytes) :
    (relay.purge now).delLines.lookup id = (relay.delLines.lookup id).filter (fun _ =>
      (relay.tombstones.lookup id).all (fun expiry => decide (now < expiry))) :=
  lookup_keep relay.delLines _ id

theorem lookup_pkgs_purge (relay : PmRelay) (now : UInt64) (index : Bytes) :
    (relay.purge now).pkgs.lookup index =
      (relay.pkgs.lookup index).filter (fun package => decide (now < package.expires)) :=
  lookup_keep relay.pkgs _ index

/-- What is kept after a purge was sound before it. -/
theorem Sound.purge (sound : Sound P relay) (now : UInt64) :
    Sound P (relay.purge now) where
  bytes := by
    have split := measure_keep (fun (_ : Bytes) (envelope : Envelope) => size envelope) relay.envs
      (fun _ envelope => decide (now < envelope.expireAt))
    rw [← sound.bytes] at split
    have left : (relay.purge now).bytes = relay.bytes - measure (fun _ envelope => size envelope)
        (keep relay.envs (fun _ envelope => !decide (now < envelope.expireAt))) := rfl
    have kept : (relay.purge now).envs =
        keep relay.envs (fun _ envelope => decide (now < envelope.expireAt)) := rfl
    rw [left, kept]
    omega
  small := Nat.le_trans (Nat.sub_le _ _) sound.small
  few := Nat.le_trans (keep_few _ _) sound.few
  packages := Nat.le_trans (keep_few _ _) sound.packages
  apart := by
    intro id envelope found
    rw [lookup_envs_purge, Option.filter_eq_some_iff] at found
    rw [lookup_tombstones_purge, sound.apart id envelope found.1]
    rfl
  own := by
    intro id envelope found
    rw [lookup_envs_purge, Option.filter_eq_some_iff] at found
    exact sound.own id envelope found.1
  lines := by
    intro id
    have both := sound.lines id
    rw [lookup_delLines_purge, lookup_tombstones_purge]
    cases dead : relay.tombstones.lookup id with
    | none =>
      rw [dead, Option.isSome_none, Option.isSome_eq_false_iff, Option.isNone_iff_eq_none] at both
      rw [both]
      rfl
    | some expiry =>
      rw [dead, Option.isSome_some, Option.isSome_iff_exists] at both
      obtain ⟨text, found⟩ := both
      rw [found]
      by_cases early : now < expiry
      · simp [Option.filter, early]
      · simp [Option.filter, early]
  texts := by
    intro id text found
    rw [lookup_delLines_purge, Option.filter_eq_some_iff] at found
    exact sound.texts id text found.1
  listed := by
    intro index package found
    rw [lookup_pkgs_purge, Option.filter_eq_some_iff] at found
    exact sound.listed index package found.1

theorem not_knows (unknown : relay.knows id = false) :
    relay.envs.lookup id = none ∧ relay.tombstones.lookup id = none := by
  simpa [knows] using unknown

/-- A new envelope within the limits keeps the store sound. -/
theorem Sound.add (sound : Sound P relay)
    (new : relay.knows envelope.id = false) (name : envelope.id.length = 32)
    (few : relay.envs.entries.length < kMaxMessages)
    (small : relay.bytes + size envelope ≤ kMaxStoreBytes) : Sound P (relay.add envelope) where
  bytes := by
    have exchanged := measure_insert (fun (_ : Bytes) (envelope : Envelope) => size envelope) relay.envs
      envelope.id envelope
    rw [weightAt_none _ _ _ (not_knows new).1, ← sound.bytes] at exchanged
    exact exchanged.symm
  small := small
  few := Nat.le_trans (insert_few _ _ _) few
  packages := sound.packages
  apart := by
    intro id other found
    rw [show (relay.add envelope).envs.lookup id = _ from lookup_insert relay.envs _ _ _] at found
    split at found
    · rename_i same
      exact same ▸ (not_knows new).2
    · exact sound.apart id other found
  own := by
    intro id other found
    rw [show (relay.add envelope).envs.lookup id = _ from lookup_insert relay.envs _ _ _] at found
    split at found
    · rename_i same
      exact ⟨Option.some.inj found ▸ same.symm, same ▸ name⟩
    · exact sound.own id other found
  lines := sound.lines
  texts := sound.texts
  listed := sound.listed

/-- A deletion leaves its tombstone and its line. -/
theorem Sound.bury (sound : Sound P relay)
    (there : relay.envs.lookup id = some envelope) : Sound P (relay.bury id token envelope) where
  bytes := by
    have erased := measure_erase (fun (_ : Bytes) (envelope : Envelope) => size envelope) relay.envs id
    rw [weightAt_some _ _ _ _ there, ← sound.bytes] at erased
    change relay.bytes - size envelope = measure _ (relay.envs.erase id)
    omega
  small := Nat.le_trans (Nat.sub_le _ _) sound.small
  few := Nat.le_trans (erase_few _ _) sound.few
  packages := sound.packages
  apart := by
    intro tested other found
    rw [show (relay.bury id token envelope).envs.lookup tested = _ from lookup_erase relay.envs _ _] at found
    obtain ⟨different, found⟩ := Option.ite_none_left_eq_some.mp found
    refine (lookup_insert relay.tombstones id tested envelope.expireAt).trans ?_
    rw [if_neg different]
    exact sound.apart tested other found
  own := by
    intro tested other found
    rw [show (relay.bury id token envelope).envs.lookup tested = _ from lookup_erase relay.envs _ _] at found
    exact sound.own tested other (Option.ite_none_left_eq_some.mp found).2
  lines := by
    intro tested
    change ((relay.delLines.insert id _).lookup tested).isSome =
      ((relay.tombstones.insert id _).lookup tested).isSome
    rw [lookup_insert, lookup_insert]
    split
    · rfl
    · exact sound.lines tested
  texts := by
    intro tested text found
    rw [show (relay.bury id token envelope).delLines.lookup tested = _ from
      lookup_insert relay.delLines _ _ _] at found
    split at found
    · rename_i same
      subst same
      exact ⟨(sound.own tested envelope there).2, token, (Option.some.inj found).symm⟩
    · exact sound.texts tested text found
  listed := sound.listed

/-- A package that lies under its index keeps the store sound. -/
theorem Sound.put (sound : Sound P relay) {package : StoredPackage} (filed : Filed P index package)
    (room : (relay.pkgs.lookup index).isSome ∨ relay.pkgs.entries.length < kMaxPackages) :
    Sound P (relay.putPackageAt index package) where
  bytes := sound.bytes
  small := sound.small
  few := sound.few
  packages := by
    change (relay.pkgs.insert index package).entries.length ≤ kMaxPackages
    rcases room with there | free
    · obtain ⟨old, found⟩ := Option.isSome_iff_exists.mp there
      rw [insert_same _ _ _ old found]
      exact sound.packages
    · exact Nat.le_trans (insert_few _ _ _) free
  apart := sound.apart
  own := sound.own
  lines := sound.lines
  texts := sound.texts
  listed := by
    intro tested other found
    rw [show (relay.putPackageAt index package).pkgs.lookup tested = _ from
      lookup_insert relay.pkgs _ _ _] at found
    split at found
    · rename_i same
      subst same
      exact Option.some.inj found ▸ filed
    · exact sound.listed tested other found

/-- Every move keeps the store sound. -/
theorem Move.sound {readings : List UInt64}
    (move : Move P readings deletes relay left) (sound : Sound P relay) : Sound P left := by
  cases move with
  | beside same _ => exact sound.beside same
  | purge _ => exact sound.purge _
  | add new name few small => exact sound.add new name few small
  | bury there _ => exact sound.bury there
  | put filed room => exact sound.put filed room

/-- Every call keeps the store sound. -/
theorem step_sound (sound : Sound P relay) (call : Call) :
    Sound P (step P S M relay call) :=
  step_carries (Sound P) call (fun _ _ move kept => move.sound kept) sound

@[simp] theorem reached_snoc (start : PmRelay) (front : List Call) (call : Call) :
    reached P S M start (front ++ [call]) = step P S M (reached P S M start front) call := by
  rw [reached, List.foldl_append]
  rfl

theorem reached_append (start : PmRelay) (front later : List Call) :
    reached P S M start (front ++ later) = reached P S M (reached P S M start front) later :=
  List.foldl_append

/-- Every list of calls keeps the store sound. -/
theorem reached_sound (sound : Sound P start) (calls : List Call) :
    Sound P (reached P S M start calls) := by
  induction calls using List.reverseRecOn with
  | nil => exact sound
  | append_singleton front call kept => exact reached_snoc start front call ▸ step_sound kept call

/-- In every run the number of bytes is that of the envelopes, both are within their limits, each
envelope lies under its own identifier and each package under the index that its text decodes to, no
envelope is kept together with its deletion, and every deletion has its line. -/
theorem store_sound (P : Primitives) (S : Suite) (M : MailSuite) (keyDir : Bytes) (calls : List Call) :
    Sound P (reached P S M (initial keyDir) calls) :=
  reached_sound (sound_initial keyDir) calls

/-! ### How an envelope leaves -/

/-- A deletion is kept, and its envelope is not. -/
structure Buried (relay : PmRelay) (id : Bytes) (expiry : UInt64) : Prop where
  tombstone : relay.tombstones.lookup id = some expiry
  gone : relay.envs.lookup id = none

theorem lookup_envs_add (relay : PmRelay) (envelope : Envelope) (id : Bytes) :
    (relay.add envelope).envs.lookup id =
      if id = envelope.id then some envelope else relay.envs.lookup id :=
  lookup_insert relay.envs _ _ _

theorem lookup_envs_bury (relay : PmRelay) (id token tested : Bytes) (envelope : Envelope) :
    (relay.bury id token envelope).envs.lookup tested =
      if tested = id then none else relay.envs.lookup tested :=
  lookup_erase relay.envs _ _

theorem lookup_tombstones_bury (relay : PmRelay) (id token tested : Bytes) (envelope : Envelope) :
    (relay.bury id token envelope).tombstones.lookup tested =
      if tested = id then some envelope.expireAt else relay.tombstones.lookup tested :=
  lookup_insert relay.tombstones _ _ _

/-- Before it expires, what is buried stays so. -/
theorem Move.buried {readings : List UInt64} (move : Move P readings deletes relay left)
    (early : ∀ now ∈ readings, now < expiry) (buried : Buried relay id expiry) :
    Buried left id expiry := by
  obtain ⟨tombstone, gone⟩ := buried
  cases move with
  | beside same _ => exact ⟨same.tombstones ▸ tombstone, same.envs ▸ gone⟩
  | purge read =>
    constructor
    · rw [lookup_tombstones_purge, tombstone]
      simp [early _ read]
    · rw [lookup_envs_purge, gone]
      rfl
  | add new _ _ _ =>
    refine ⟨tombstone, ?_⟩
    rw [lookup_envs_add, if_neg, gone]
    rintro rfl
    exact nomatch (not_knows new).2.symm.trans tombstone
  | bury there deleted =>
    rename_i id' token envelope
    have different : id ≠ id' := by
      rintro rfl
      exact nomatch gone.symm.trans there
    exact ⟨by rw [lookup_tombstones_bury, if_neg different, tombstone],
      by rw [lookup_envs_bury, if_neg different, gone]⟩
  | put _ _ => exact ⟨tombstone, gone⟩

/-- Before it expires, an envelope stays or is buried by a deletion. -/
theorem Move.kept {readings : List UInt64} (move : Move P readings deletes relay left)
    (early : ∀ now ∈ readings, now < envelope.expireAt)
    (there : relay.envs.lookup id = some envelope) :
    left.envs.lookup id = some envelope ∨ Buried left id envelope.expireAt ∧ deletes id := by
  cases move with
  | beside same _ => exact .inl (same.envs ▸ there)
  | purge read =>
    refine .inl ?_
    rw [lookup_envs_purge, there]
    simp [early _ read]
  | add new _ _ _ =>
    refine .inl ?_
    rw [lookup_envs_add, if_neg, there]
    rintro rfl
    exact nomatch (not_knows new).1.symm.trans there
  | bury found deleted =>
    rename_i id' token other
    by_cases same : id = id'
    · subst same
      obtain rfl := Option.some.inj (there.symm.trans found)
      refine .inr ⟨⟨?_, ?_⟩, deleted⟩
      · rw [lookup_tombstones_bury, if_pos rfl]
      · rw [lookup_envs_bury, if_pos rfl]
    · refine .inl ?_
      rw [lookup_envs_bury, if_neg same, there]
  | put _ _ => exact .inl there

/-- A call before the expiry leaves what is buried. -/
theorem step_buried (call : Call)
    (early : ∀ now ∈ call.readings, now < expiry) (buried : Buried relay id expiry) :
    Buried (step P S M relay call) id expiry :=
  step_carries (fun relay => Buried relay id expiry) call (fun _ _ move kept => move.buried early kept)
    buried

/-- A call leaves an envelope that has not expired, or it deletes it. -/
theorem step_kept (call : Call) (early : ∀ now ∈ call.readings, now < envelope.expireAt)
    (there : relay.envs.lookup id = some envelope) :
    (step P S M relay call).envs.lookup id = some envelope ∨
      Buried (step P S M relay call) id envelope.expireAt ∧ Deletes P M relay call id := by
  refine step_carries (fun left => left.envs.lookup id = some envelope ∨
    Buried left id envelope.expireAt ∧ Deletes P M relay call id) call ?_ (.inl there)
  rintro between left move (kept | ⟨buried, deleted⟩)
  · exact move.kept early kept
  · exact .inr ⟨move.buried early buried, deleted⟩

/-- A call that deletes an envelope buries it. -/
theorem Deletes.buries (sound : Sound P relay) {call : Call}
    (there : relay.envs.lookup id = some envelope) (deletes : Deletes P M relay call id) :
    Buried (step P S M relay call) id envelope.expireAt := by
  have buried : ∀ token, Buried (relay.bury id token envelope) id envelope.expireAt := fun token =>
    ⟨by rw [lookup_tombstones_bury, if_pos rfl], by rw [lookup_envs_bury, if_pos rfl]⟩
  cases call with
  | acceptDelete peer body =>
    obtain ⟨token, octets, other, parts, idHex, tokenHex, read, found, hashed⟩ := deletes
    obtain rfl := Option.some.inj (there.symm.trans found)
    have alive : (relay.tombstones.lookup id).isSome = false := by
      rw [sound.apart id envelope there]
      rfl
    change Buried (relay.acceptDelete P peer body).2 id envelope.expireAt
    unfold PmRelay.acceptDelete
    simp only [parts, idHex, tokenHex, and_self, ↓reduceIte, alive, Bool.false_eq_true, there, read,
      hashed, ne_eq, not_true_eq_false]
    exact ⟨(buried token).tombstone, (buried token).gone⟩
  | remove wallet id' =>
    obtain ⟨keys, other, opened, rfl, loaded, found, own, opens⟩ := deletes
    obtain rfl := Option.some.inj (there.symm.trans found)
    change Buried (relay.remove P M wallet id').2 id' envelope.expireAt
    unfold PmRelay.remove
    simp only [loaded, there, own, ne_eq, not_true_eq_false, ↓reduceIte, opens]
    exact buried opened.2
  | setKeyDir keyDir => exact deletes.elim
  | ensureKey wallet pair => exact deletes.elim
  | send written stored most recipient text ttl draw => exact deletes.elim
  | acceptWire asked stored peer body => exact deletes.elim
  | publishPackage checked compared hex => exact deletes.elim
  | acceptPackage asked checked compared peer body => exact deletes.elim
  | lookUp now => exact deletes.elim
  | markDelivered peer text => exact deletes.elim

/-- Some call of a run deletes an envelope. -/
def Deleted (P : Primitives) (S : Suite) (M : MailSuite) (start : PmRelay) (calls : List Call)
    (id : Bytes) : Prop :=
  Happens (step P S M) (fun relay call => Deletes P M relay call id) start calls

/-- While no reading of the clock is as late as the expiry of an envelope, the envelope stays, and is
buried from the call on that deletes it. -/
theorem envelope_fate (P : Primitives) (S : Suite) (M : MailSuite) (keyDir : Bytes)
    (front later : List Call) (id : Bytes) (envelope : Envelope)
    (there : (reached P S M (initial keyDir) front).envs.lookup id = some envelope)
    (early : ∀ call ∈ later, ∀ now ∈ call.readings, now < envelope.expireAt) :
    (Deleted P S M (reached P S M (initial keyDir) front) later id →
        Buried (reached P S M (initial keyDir) (front ++ later)) id envelope.expireAt) ∧
      (¬ Deleted P S M (reached P S M (initial keyDir) front) later id →
        (reached P S M (initial keyDir) (front ++ later)).envs.lookup id = some envelope) := by
  rw [reached_append]
  have sound := reached_sound (P := P) (S := S) (M := M) (sound_initial keyDir) front
  generalize reached P S M (initial keyDir) front = start at there sound
  induction later using List.reverseRecOn with
  | nil => exact ⟨fun deleted => absurd deleted not_happens_nil, fun _ => there⟩
  | append_singleton before call ih =>
    obtain ⟨buried, kept⟩ := ih fun other member => early other (by simp [member])
    have soon := early call (by simp)
    rw [reached_snoc, Deleted, happens_snoc]
    by_cases deleted : Deleted P S M start before id
    · exact ⟨fun _ => step_buried call soon (buried deleted), fun none' => absurd (.inl deleted) none'⟩
    · have alive := kept deleted
      constructor
      · rintro (earlier | deletes)
        · exact absurd earlier deleted
        · exact deletes.buries (reached_sound sound before) alive
      · intro none'
        exact (step_kept call soon alive).resolve_right fun both => none' (.inr both.2)

/-- A mail suite of short keys. -/
def sampleMail : MailSuite where
  publicKeySize := some 1
  ciphertextSize := 1
  decaps _ _ := some [7]
  aesSeal _ _ _ text := some text
  aesOpen _ _ _ text := some text

/-- The draws of a message. -/
def sampleDraw : Draw := ⟨⟨List.replicate 16 0, rfl⟩, ⟨List.replicate 12 0, rfl⟩, some ([5], [7])⟩

/-- The identifier that is drawn. -/
def sampleId : Bytes := toHex sampleDraw.id.val

/-- A message of the least time to live is sent when the clock shows nothing. -/
def sampleSend : Call := .send 0 0 10 (ascii "00") (ascii "hi") 5 sampleDraw

/-- The deletion with the token of the message. -/
def sampleDelete : Call :=
  .acceptDelete (ascii "peer") (sampleId ++ ascii "|" ++ toHex (derive samplePrimitives [7] "del"))

/-- The envelope that is stored. -/
def sampleEnvelope : Envelope :=
  ((reached samplePrimitives symbolic sampleMail (initial []) [sampleSend]).envs.lookup sampleId).getD
    ⟨[], [], [], [], [], [], 0⟩

theorem sampleEnvelope_there :
    (reached samplePrimitives symbolic sampleMail (initial []) [sampleSend]).envs.lookup sampleId =
      some sampleEnvelope := by
  decide +kernel

theorem sampleEnvelope_expiry : sampleEnvelope.expireAt = 60 := by
  decide +kernel

theorem sampleDelete_deletes :
    Deletes samplePrimitives sampleMail (reached samplePrimitives symbolic sampleMail (initial []) [sampleSend])
      sampleDelete sampleId := by
  refine ⟨toHex (derive samplePrimitives [7] "del"), derive samplePrimitives [7] "del", sampleEnvelope,
    ?_, ?_, ?_, ?_, sampleEnvelope_there, ?_⟩
  · decide +kernel
  · decide +kernel
  · decide +kernel
  · exact hexToBytes_toHex _ (by decide +kernel) (by decide +kernel)
  · decide +kernel

/-- The deleted envelope of the example does not come back. -/
theorem sampleEnvelope_buried :
    Buried (reached samplePrimitives symbolic sampleMail (initial []) ([sampleSend] ++ [sampleDelete]))
      sampleId sampleEnvelope.expireAt := by
  have fate := envelope_fate samplePrimitives symbolic sampleMail [] [sampleSend] [sampleDelete] sampleId
    sampleEnvelope sampleEnvelope_there (by simp [sampleDelete, Call.readings])
  refine fate.1 ⟨[], sampleDelete, [], List.nil_append _, ?_⟩
  rw [List.foldl_nil]
  exact sampleDelete_deletes

/-! ### What is given to a peer -/

/-- An envelope or its deletion is kept until this time. -/
def Held (relay : PmRelay) (id : Bytes) (expiry : UInt64) : Prop :=
  (∃ envelope, relay.envs.lookup id = some envelope ∧ envelope.expireAt = expiry) ∨
    Buried relay id expiry

theorem Held.knows (held : Held relay id expiry) :
    relay.knows id = true := by
  rcases held with ⟨envelope, there, -⟩ | buried
  · simp [PmRelay.knows, there]
  · simp [PmRelay.knows, buried.tombstone]

/-- Before it expires, a name that is held stays held. -/
theorem Move.held {readings : List UInt64} (move : Move P readings deletes relay left)
    (early : ∀ now ∈ readings, now < expiry) (held : Held relay id expiry) : Held left id expiry := by
  rcases held with ⟨envelope, there, rfl⟩ | buried
  · rcases move.kept early there with kept | ⟨buried, -⟩
    · exact .inl ⟨envelope, kept, rfl⟩
    · exact .inr buried
  · exact .inr (move.buried early buried)

theorem marks_purge (relay : PmRelay) (now : UInt64) (peer : Bytes) :
    (relay.purge now).marks peer =
      (relay.marks peer).filter (fun name => (relay.purge now).knows (markedId name) = true) := by
  change ((mapValues relay.delivered _).lookup peer).getD ∅ = _
  rw [lookup_mapValues, marks]
  cases relay.delivered.lookup peer with
  | none => rfl
  | some names => rfl

/-- A mark stays as long as what it is about is held. -/
theorem Move.marked {readings : List UInt64} (move : Move P readings deletes relay left)
    (early : ∀ now ∈ readings, now < expiry) (held : Held relay (markedId name) expiry)
    (marked : name ∈ relay.marks peer) : name ∈ left.marks peer := by
  have after := move.held early held
  cases move with
  | beside _ more => exact more peer marked
  | purge read =>
    rw [marks_purge]
    exact Finset.mem_filter.mpr ⟨marked, after.knows⟩
  | add _ _ _ _ => exact marked
  | bury _ _ => exact marked
  | put _ _ => exact marked

/-- A mark stays as long as the relay knows its name. -/
theorem reached_marked (later : List Call)
    (early : ∀ call ∈ later, ∀ now ∈ call.readings, now < expiry)
    (held : Held start (markedId name) expiry) (marked : name ∈ start.marks peer) :
    Held (reached P S M start later) (markedId name) expiry ∧
      name ∈ (reached P S M start later).marks peer := by
  induction later using List.reverseRecOn with
  | nil => exact ⟨held, marked⟩
  | append_singleton front call ih =>
    obtain ⟨held, marked⟩ := ih fun other member => early other (by simp [member])
    have soon := early call (by simp)
    rw [reached_snoc]
    exact step_carries (fun relay => Held relay (markedId name) expiry ∧ name ∈ relay.marks peer) call
      (fun _ _ move kept => ⟨move.held soon kept.1, move.marked soon kept.1 kept.2⟩) ⟨held, marked⟩

/-- A line that the relay keeps for its peers until this time, under the id of its envelope. -/
def Offers (relay : PmRelay) (id : Bytes) (expiry : UInt64) (text : Bytes) : Prop :=
  (∃ envelope, relay.envs.lookup id = some envelope ∧ envelope.expireAt = expiry ∧ text = wire envelope) ∨
    relay.tombstones.lookup id = some expiry ∧ relay.delLines.lookup id = some text

/-- The line of an envelope says its id, and the line of a deletion too. -/
theorem wire_id (name : envelope.id.length = 32) :
    ((wire envelope).drop 8).take 32 = envelope.id := by
  simp only [wire, List.append_assoc]
  rw [List.drop_left' (by rfl), List.take_left' name]

theorem deletion_id (name : id.length = 32) :
    ((deletion id token).drop 6).take 32 = id := by
  simp only [deletion, List.append_assoc]
  rw [List.drop_left' (by rfl), List.take_left' name]

/-- The three kinds of lines differ in their third octet or before. -/
theorem wire_start (envelope : Envelope) : ∃ rest, wire envelope = ascii "PMSG|v1|" ++ rest := by
  simp only [wire, List.append_assoc]
  exact ⟨_, rfl⟩

theorem deletion_start (id token : Bytes) : ∃ rest, deletion id token = ascii "PMDEL|" ++ rest := by
  simp only [deletion, List.append_assoc]
  exact ⟨_, rfl⟩

theorem wire_ne_deletion (envelope : Envelope) (id token : Bytes) : wire envelope ≠ deletion id token := by
  obtain ⟨rest, same⟩ := wire_start envelope
  obtain ⟨rest', same'⟩ := deletion_start id token
  rw [same, same']
  intro equal
  have third : some (byte 'S') = some (byte 'D') := congrArg (fun text => text[2]?) equal
  exact absurd third (by decide)

theorem wire_ne_package (envelope : Envelope) (hex : Bytes) : wire envelope ≠ ascii "KPKG|v1|" ++ hex := by
  obtain ⟨rest, same⟩ := wire_start envelope
  rw [same]
  intro equal
  have first : some (byte 'P') = some (byte 'K') := congrArg (fun text => text[0]?) equal
  exact absurd first (by decide)

theorem deletion_ne_package (id token hex : Bytes) : deletion id token ≠ ascii "KPKG|v1|" ++ hex := by
  obtain ⟨rest, same⟩ := deletion_start id token
  rw [same]
  intro equal
  have first : some (byte 'P') = some (byte 'K') := congrArg (fun text => text[0]?) equal
  exact absurd first (by decide)

/-- The line of an envelope is marked by its name. -/
theorem markDelivered_wire (relay : PmRelay) (peer : Bytes) (name : envelope.id.length = 32) :
    relay.markDelivered P peer (wire envelope) = relay.mark peer (messageMark envelope.id) := by
  obtain ⟨rest, same⟩ := wire_start envelope
  have starts : (ascii "PMSG|v1|").isPrefixOf (wire envelope) = true := by
    rw [same, List.isPrefixOf_iff_prefix]
    exact List.prefix_append _ _
  rw [markDelivered, if_pos starts, wire_id name]

theorem markDelivered_deletion (relay : PmRelay) (peer : Bytes) (token : Bytes)
    (name : id.length = 32) :
    relay.markDelivered P peer (deletion id token) = relay.mark peer (deletionMark id) := by
  obtain ⟨rest, same⟩ := deletion_start id token
  have starts : (ascii "PMDEL|").isPrefixOf (deletion id token) = true := by
    rw [same, List.isPrefixOf_iff_prefix]
    exact List.prefix_append _ _
  have other : (ascii "PMSG|v1|").isPrefixOf (deletion id token) = false := by
    rw [same]
    rfl
  rw [markDelivered, other, if_neg Bool.false_ne_true, if_pos starts, deletion_id name]

theorem markedId_mark (name : id.length = 32) :
    markedId (messageMark id) = id ∧ markedId (deletionMark id) = id := by
  have long : 2 < (messageMark id).length := by
    rw [messageMark, List.length_append, name]
    decide
  have long' : 2 < (deletionMark id).length := by
    rw [deletionMark, List.length_append, name]
    decide
  exact ⟨if_pos long, if_pos long'⟩

/-- What a peer was not given, by the containers. -/
theorem mem_unmarked (lists : Enumerates order relay)
    (peer text : Bytes) : text ∈ relay.unmarked peer order ↔
      (∃ id, relay.delLines.lookup id = some text ∧ deletionMark id ∉ relay.marks peer) ∨
      (∃ id envelope, relay.envs.lookup id = some envelope ∧ messageMark id ∉ relay.marks peer ∧
        wire envelope = text) ∨
      ∃ index package, relay.pkgs.lookup index = some package ∧ package.lineId ∉ relay.marks peer ∧
        ascii "KPKG|v1|" ++ package.hex = text := by
  simp only [unmarked, List.mem_append, List.mem_map, List.mem_filter, decide_eq_true_eq, Prod.exists]
  constructor
  · rintro (⟨id, line, ⟨member, free⟩, rfl⟩ | ⟨id, envelope, ⟨member, free⟩, same⟩ |
      ⟨index, package, ⟨member, free⟩, same⟩)
    · exact .inl ⟨id, (lists.delLines.entries id line).mp member, free⟩
    · exact .inr (.inl ⟨id, envelope, (lists.envs.entries id envelope).mp member, free, same⟩)
    · exact .inr (.inr ⟨index, package, (lists.pkgs.entries index package).mp member, free, same⟩)
  · rintro (⟨id, found, free⟩ | ⟨id, envelope, found, free, same⟩ | ⟨index, package, found, free, same⟩)
    · exact .inl ⟨id, text, ⟨(lists.delLines.entries id text).mpr found, free⟩, rfl⟩
    · exact .inr (.inl ⟨id, envelope, ⟨(lists.envs.entries id envelope).mpr found, free⟩, same⟩)
    · exact .inr (.inr ⟨index, package, ⟨(lists.pkgs.entries index package).mpr found, free⟩, same⟩)

/-- A line that a peer is marked for: that of an envelope, or of a deletion, which is kept until this
time. -/
inductive Marked (relay : PmRelay) (peer : Bytes) : Bytes → UInt64 → Prop
  | message {id : Bytes} {envelope : Envelope} (there : relay.envs.lookup id = some envelope)
      (marked : messageMark id ∈ relay.marks peer) : Marked relay peer (wire envelope) envelope.expireAt
  | deletion {id text : Bytes} {expiry : UInt64} (dead : relay.tombstones.lookup id = some expiry)
      (line : relay.delLines.lookup id = some text) (marked : deletionMark id ∈ relay.marks peer) :
      Marked relay peer text expiry

/-- `mark_delivered` marks a peer for the line that it is given. -/
theorem markDelivered_marked (sound : Sound P relay) (peer : Bytes)
    (offered : Offers relay id expiry text) :
    Marked (relay.markDelivered P peer text) peer text expiry := by
  rcases offered with ⟨envelope, there, rfl, rfl⟩ | ⟨dead, line⟩
  · obtain ⟨rfl, long⟩ := sound.own id envelope there
    rw [markDelivered_wire relay peer long]
    refine .message there ?_
    rw [marks_mark, if_pos rfl]
    exact Finset.mem_insert_self _ _
  · obtain ⟨long, token, rfl⟩ := sound.texts id text line
    rw [markDelivered_deletion relay peer token long]
    refine .deletion dead line ?_
    rw [marks_mark, if_pos rfl]
    exact Finset.mem_insert_self _ _

/-- What a peer is marked for is not given to it while the clock has not reached the expiry. -/
theorem marked_not_given (sound : Sound P start)
    (isMarked : Marked start peer text expiry) (later : List Call)
    (early : ∀ call ∈ later, ∀ time ∈ call.readings, time < expiry) (soon : now < expiry)
    (most : Nat) (lists : Enumerates order ((reached P S M start later).purge now)) :
    text ∉ undeliveredFor (reached P S M start later) now peer most order := by
  have soundPurged := (reached_sound (P := P) (S := S) (M := M) sound later).purge now
  -- the mark is about what is held, so it lasts
  obtain ⟨name, held, marked, isMark⟩ : ∃ name, Held start (markedId name) expiry ∧
      name ∈ start.marks peer ∧
      ((∃ envelope, name = messageMark envelope.id ∧ text = wire envelope ∧ envelope.id.length = 32) ∨
        ∃ id token, name = deletionMark id ∧ text = deletion id token ∧ id.length = 32) := by
    cases isMarked with
    | @message id envelope there marked =>
      obtain ⟨rfl, long⟩ := sound.own id envelope there
      refine ⟨_, ?_, marked, .inl ⟨envelope, rfl, rfl, long⟩⟩
      rw [(markedId_mark long).1]
      exact .inl ⟨envelope, there, rfl⟩
    | @deletion id _ _ dead line marked =>
      obtain ⟨long, token, rfl⟩ := sound.texts id text line
      refine ⟨_, ?_, marked, .inr ⟨id, token, rfl, rfl, long⟩⟩
      rw [(markedId_mark long).2]
      refine .inr ⟨dead, ?_⟩
      cases alive : start.envs.lookup id with
      | none => rfl
      | some envelope => exact nomatch (sound.apart id envelope alive).symm.trans dead
  have lasting := reached_marked (P := P) (S := S) (M := M) later early held marked
  generalize reached P S M start later = last at *
  have purged : Move P [now] (fun _ => False) last (last.purge now) := .purge (by simp)
  have kept := purged.marked (by simpa using soon) lasting.1 lasting.2
  intro given
  rcases (mem_unmarked lists peer text).mp (List.mem_of_mem_take given) with
    ⟨id, line, free⟩ | ⟨id, envelope, there, free, same⟩ | ⟨index, package, there, free, same⟩
  · obtain ⟨long, token, rfl⟩ := soundPurged.texts id text line
    rcases isMark with ⟨envelope, rfl, same, -⟩ | ⟨id', token', rfl, same, long'⟩
    · exact wire_ne_deletion _ _ _ same.symm
    · rw [show id = id' from (deletion_id long).symm.trans
        ((congrArg (fun text => (text.drop 6).take 32) same).trans (deletion_id long'))] at free
      exact free kept
  · subst same
    obtain ⟨sameId, long⟩ := soundPurged.own id envelope there
    rcases isMark with ⟨other, rfl, same, long'⟩ | ⟨id', token, rfl, same, -⟩
    · have names := congrArg (fun text => (text.drop 8).take 32) same
      rw [wire_id (sameId ▸ long), wire_id long', sameId] at names
      exact free (names ▸ kept)
    · exact wire_ne_deletion _ _ _ same
  · rcases isMark with ⟨other, rfl, isLine, -⟩ | ⟨id', token, rfl, isLine, -⟩
    · exact wire_ne_package _ _ (isLine.symm.trans same.symm)
    · exact deletion_ne_package _ _ _ (isLine.symm.trans same.symm)

/-- A line of a message or of a deletion that was marked for a peer is not given to it again while the
clock has not reached the expiry, whatever happens in between. -/
theorem marked_not_given_again (P : Primitives) (S : Suite) (M : MailSuite) (keyDir : Bytes)
    (front later : List Call) (peer id text : Bytes) (expiry now : UInt64)
    (offered : Offers (reached P S M (initial keyDir) front) id expiry text)
    (early : ∀ call ∈ later, ∀ time ∈ call.readings, time < expiry) (soon : now < expiry)
    (most : Nat) (order : Enumeration)
    (lists : Enumerates order ((reached P S M (initial keyDir)
      (front ++ .markDelivered peer text :: later)).purge now)) :
    text ∉ undeliveredFor (reached P S M (initial keyDir) (front ++ .markDelivered peer text :: later))
      now peer most order := by
  have sound := reached_sound (P := P) (S := S) (M := M) (sound_initial keyDir) front
  have cut : front ++ .markDelivered peer text :: later = (front ++ [.markDelivered peer text]) ++ later := by
    simp
  rw [cut, reached_append, reached_snoc] at lists ⊢
  exact marked_not_given (step_sound sound (.markDelivered peer text)) (markDelivered_marked sound peer offered)
    later early soon most lists

/-- The relay's own order of its containers. -/
def listing (relay : PmRelay) : Enumeration where
  delLines := relay.delLines.entries.map (fun entry => (entry.1, entry.2))
  envs := relay.envs.entries.map (fun entry => (entry.1, entry.2))
  pkgs := relay.pkgs.entries.map (fun entry => (entry.1, entry.2))

theorem listing_enumerates (relay : PmRelay) : Enumerates (listing relay) relay :=
  ⟨lists_entries _, lists_entries _, lists_entries _⟩

/-- The run that gives the sample message to a peer and looks something up later. -/
def sampleGiven : PmRelay := reached samplePrimitives symbolic sampleMail (initial [])
  ([sampleSend] ++ .markDelivered (ascii "peer") (wire sampleEnvelope) :: [.lookUp 30])

/-- The envelope of the example is given to a peer once. -/
theorem sampleEnvelope_given_once :
    wire sampleEnvelope ∉ undeliveredFor sampleGiven 50 (ascii "peer") 10 (listing (sampleGiven.purge 50)) :=
  marked_not_given_again samplePrimitives symbolic sampleMail [] [sampleSend] [.lookUp 30] (ascii "peer")
    sampleId (wire sampleEnvelope) 60 50 (.inl ⟨_, sampleEnvelope_there, sampleEnvelope_expiry, rfl⟩)
    (by simp [Call.readings]) (by decide) 10 _ (listing_enumerates _)

/-- A package is not given to a peer exactly when the peer is marked for it and a purge leaves the mark. -/
theorem package_offered_iff (sound : Sound P relay)
    {package : StoredPackage} (there : relay.pkgs.lookup index = some package)
    (soon : now < package.expires) (peer : Bytes) {most : Nat}
    (lists : Enumerates order (relay.purge now))
    (room : ((relay.purge now).unmarked peer order).length ≤ most) :
    ascii "KPKG|v1|" ++ package.hex ∈ undeliveredFor relay now peer most order ↔
      ¬ (package.lineId ∈ relay.marks peer ∧
        (relay.purge now).knows ((strongHash P package.hex).take 32) = true) := by
  rw [undeliveredFor, List.take_of_length_le room]
  have soundPurged := sound.purge now
  have own := (sound.listed index package there).marked
  have about : markedId package.lineId = (strongHash P package.hex).take 32 := by
    rw [own, packageMark, markedId, if_pos]
    · rfl
    · rw [List.length_append, List.length_take, strongHash_length]
      decide
  have mark : package.lineId ∈ (relay.purge now).marks peer ↔ package.lineId ∈ relay.marks peer ∧
      (relay.purge now).knows ((strongHash P package.hex).take 32) = true := by
    rw [marks_purge, Finset.mem_filter, about]
  rw [← mark, mem_unmarked lists]
  constructor
  · rintro (⟨id, line, -⟩ | ⟨id, envelope, -, -, same⟩ | ⟨index', other, found, free, same⟩)
    · obtain ⟨-, token, same⟩ := soundPurged.texts id _ line
      exact absurd same.symm (deletion_ne_package _ _ _)
    · exact absurd same (wire_ne_package _ _)
    · rw [(soundPurged.listed index' other found).marked, List.append_cancel_left same, ← own] at free
      exact free
  · intro free
    refine .inr (.inr ⟨index, package, ?_, free, rfl⟩)
    rw [lookup_pkgs_purge, there]
    simp [soon]

/-- Where there is room for all that was not given, a package that has not expired is given to a peer
unless the peer is marked for it and its digest happens to be the id of a message or a deletion that is
kept. -/
theorem package_given_iff (P : Primitives) (S : Suite) (M : MailSuite) (keyDir : Bytes)
    (calls : List Call) (peer index : Bytes) (now : UInt64) (package : StoredPackage)
    (there : (reached P S M (initial keyDir) calls).pkgs.lookup index = some package)
    (soon : now < package.expires) (most : Nat) (order : Enumeration)
    (lists : Enumerates order ((reached P S M (initial keyDir) calls).purge now))
    (room : (((reached P S M (initial keyDir) calls).purge now).unmarked peer order).length ≤ most) :
    ascii "KPKG|v1|" ++ package.hex ∈
        undeliveredFor (reached P S M (initial keyDir) calls) now peer most order ↔
      ¬ (package.lineId ∈ (reached P S M (initial keyDir) calls).marks peer ∧
        ((reached P S M (initial keyDir) calls).purge now).knows
          ((strongHash P package.hex).take 32) = true) :=
  package_offered_iff (reached_sound (sound_initial keyDir) calls) there soon peer lists room

/-- A package is read back from its digits. -/
theorem packageFromHex_toHex (bounded : package.Bounded) (short : package.encode.length ≤ 32000) :
    packageFromHex (toHex package.encode) = .ok package := by
  obtain ⟨rest, start⟩ : ∃ rest, package.encode = 65 :: rest := ⟨_, rfl⟩
  have noTag : (ascii "addc1:").isPrefixOf (toHex package.encode) = false := by
    rw [start, toHex_cons]
    rfl
  have digits : ¬ 64000 < (toHex package.encode).length := by
    rw [toHex_length]
    omega
  have octets := hexToBytes_toHex package.encode (by simp [start]) (by omega)
  have decoded := decode_encode package bounded
  simp only [packageFromHex, noTag, Bool.false_eq_true, ↓reduceIte, digits, octets, decoded]

theorem putPackage_new {checked compared : UInt64}
    (bounded : package.Bounded) (short : package.encode.length ≤ 32000)
    (valid : package.verify S checked = .ok ()) (isListed : package.index ≠ ascii "-")
    (new : relay.pkgs.lookup package.index = none) (room : relay.pkgs.entries.length < kMaxPackages) :
    relay.putPackage P S checked compared (toHex package.encode) =
      (.ok false, relay.putPackageAt package.index (storedPackage P S (toHex package.encode) package)) := by
  rw [putPackage, packageFromHex_toHex bounded short]
  dsimp only
  rw [valid]
  dsimp only
  rw [if_neg isListed, new]
  dsimp only
  rw [if_neg (Nat.not_le.mpr room)]

theorem markDelivered_store (relay : PmRelay) (peer text : Bytes) :
    SameStore relay (relay.markDelivered P peer text) := by
  unfold markDelivered
  split
  · exact ⟨rfl, rfl, rfl, rfl, rfl⟩
  split
  · exact ⟨rfl, rfl, rfl, rfl, rfl⟩
  split
  · exact ⟨rfl, rfl, rfl, rfl, rfl⟩
  · exact ⟨rfl, rfl, rfl, rfl, rfl⟩

/-- The first package that is published is kept. -/
theorem published (P : Primitives) (S : Suite) (M : MailSuite) (keyDir : Bytes)
    (bounded : package.Bounded) (short : package.encode.length ≤ 32000)
    (valid : package.verify S now = .ok ()) (isListed : package.index ≠ ascii "-") :
    reached P S M (initial keyDir) [.publishPackage now now (toHex package.encode)] =
      (initial keyDir).putPackageAt package.index (storedPackage P S (toHex package.encode) package) := by
  have room : (initial keyDir).pkgs.entries.length < kMaxPackages := Nat.zero_lt_succ 2047
  exact congrArg Prod.snd (putPackage_new bounded short valid isListed rfl room)

/-- It is kept when it was given to a peer. -/
theorem published_there (P : Primitives) (S : Suite) (M : MailSuite) (keyDir peer text : Bytes)
    (bounded : package.Bounded)
    (short : package.encode.length ≤ 32000) (valid : package.verify S now = .ok ())
    (isListed : package.index ≠ ascii "-") :
    (reached P S M (initial keyDir)
      [.publishPackage now now (toHex package.encode), .markDelivered peer text]).pkgs.lookup
        package.index = some (storedPackage P S (toHex package.encode) package) := by
  have alone := published P S M keyDir bounded short valid isListed
  change ((reached P S M (initial keyDir) [.publishPackage now now (toHex package.encode)]).markDelivered P
    peer text).pkgs.lookup package.index = _
  rw [(markDelivered_store _ peer text).pkgs, alone]
  exact AList.lookup_insert _

/-- The run that publishes a package and gives it to a peer. -/
def samplePublished : PmRelay := reached samplePrimitives symbolic sampleMail (initial [])
  [.publishPackage 0 0 (toHex responderPackage.encode),
    .markDelivered (ascii "peer") (ascii "KPKG|v1|" ++ toHex responderPackage.encode)]

/-- The package of the example is listed exactly while it is live and new to the peer. -/
theorem samplePublished_given :
    ascii "KPKG|v1|" ++ toHex responderPackage.encode ∈ undeliveredFor samplePublished 1 (ascii "peer")
        ((samplePublished.purge 1).unmarked (ascii "peer") (listing (samplePublished.purge 1))).length
        (listing (samplePublished.purge 1)) ↔
      ¬ (packageMark samplePrimitives (toHex responderPackage.encode) ∈
          samplePublished.marks (ascii "peer") ∧
        (samplePublished.purge 1).knows
          ((strongHash samplePrimitives (toHex responderPackage.encode)).take 32) = true) := by
  have short := symbolicPackage_length (List.replicate 32 (byte '0')) (by decide)
  exact package_given_iff samplePrimitives symbolic sampleMail [] _ (ascii "peer") responderPackage.index 1 _
    (published_there samplePrimitives symbolic sampleMail [] _ _
      (symbolicPackage_bounded (List.replicate 32 (byte '0')) (by decide)) (Nat.le_trans short (by decide))
      (symbolicPackage_valid _ (.inr (by decide)) 0 (by decide)) (by decide))
    (by decide) _ _ (listing_enumerates _) (Nat.le_refl _)

end PmRelay

end Addition
