import Addition.Channels
import Mathlib.Data.List.Perm.Basic

/-!
# What a peer's update may change

The classification compares two lists of HTLCs through maps from their identifiers, and
balances by equations of words. When the next state lists no identifier twice and the words do
not wrap, it is sound: a payment does not lower the balance, an added HTLC is the peer's, a
removed one was offered by the endpoint and comes back to it or is paid for a preimage. A state
with an identifier twice is accepted as a payment.
-/

namespace Addition.Channels

open ByteStrings Checked FiniteTables Script

/-! ### Worth -/

/-- The identifiers of a state are distinct and below the next one. -/
structure Ordered (state : State) : Prop where
  distinct : (state.htlcs.map Htlc.id).Nodup
  below : ∀ htlc ∈ state.htlcs, htlc.id < state.nextHtlcId

/-- The balance of an endpoint, and the one of its peer. -/
def Channel.own (ch : Channel) (state : State) : UInt64 := if ch.isA then state.balA else state.balB

/-- What the peer has in a state. -/
def Channel.theirs (ch : Channel) (state : State) : UInt64 := if ch.isA then state.balB else state.balA

/-- What an endpoint has in the HTLCs that it offered. -/
def Channel.offered (ch : Channel) (htlcs : List Htlc) : Nat :=
  (htlcs.map (fun htlc => if htlc.offeredByA = ch.isA then htlc.amount.toNat else 0)).sum

/-- The worth of a state: the balance and the HTLCs that were offered. -/
def Channel.worth (ch : Channel) (state : State) : Nat :=
  (ch.own state).toNat + ch.offered state.htlcs

@[simp] theorem offered_cons (ch : Channel) (htlc : Htlc) (rest : List Htlc) :
    ch.offered (htlc :: rest) =
      (if htlc.offeredByA = ch.isA then htlc.amount.toNat else 0) + ch.offered rest := by
  rw [Channel.offered, List.map_cons, List.sum_cons]
  rfl

theorem offered_perm (ch : Channel) {htlcs htlcs' : List Htlc} (same : htlcs.Perm htlcs') :
    ch.offered htlcs = ch.offered htlcs' := (same.map _).sum_nat

/-- A sound update: the identifiers are in order again, the lists differ by at most one HTLC,
and the worth only falls by an HTLC that is settled against its preimage. -/
structure SoundUpdate (P : Primitives) (ch : Channel) (next : State) (preimage : Bytes)
    (update : PeerUpdate) : Prop where
  ordered : Ordered next
  close : next.htlcs.Perm ch.cur.htlcs ∨
    ∃ htlc, next.htlcs.Perm (htlc :: ch.cur.htlcs) ∨ ch.cur.htlcs.Perm (htlc :: next.htlcs)
  worth : match update with
    | .settleHtlc htlc => ch.cur.htlcs.Perm (htlc :: next.htlcs) ∧
        ch.worth ch.cur = ch.worth next + htlc.amount.toNat ∧
        hashPreimageHex P preimage = htlc.paymentHash
    | _ => ch.worth ch.cur ≤ ch.worth next

/-- What the classification takes for granted: the next state lists no identifier twice, the
counter of the identifiers does not wrap, and neither does a balance that gets an HTLC back. -/
structure PlainUpdate (ch : Channel) (next : State) : Prop where
  distinct : (next.htlcs.map Htlc.id).Nodup
  counter : next.nextHtlcId = ch.cur.nextHtlcId + 1 → ch.cur.nextHtlcId ≠ wordMax
  refund : ∀ htlc ∈ ch.cur.htlcs, htlc.id ∉ next.htlcs.map Htlc.id →
    ch.own next = ch.own ch.cur + htlc.amount → (ch.own ch.cur).toNat + htlc.amount.toNat < 2 ^ 64

/-! ### Lists of distinct HTLCs -/

section Distinct

variable {state other : State} (distinct : (state.htlcs.map Htlc.id).Nodup)
include distinct

variable {htlc : Htlc}

theorem htlc_eq {htlc' : Htlc} (first : htlc ∈ state.htlcs) (second : htlc' ∈ state.htlcs)
    (same : htlc.id = htlc'.id) : htlc = htlc' := List.inj_on_of_nodup_map distinct first second same

theorem htlcOf_some (member : htlc ∈ state.htlcs) : htlcOf state htlc.id = some htlc := by
  have only : ∀ found ∈ state.htlcs.filter (fun tested => tested.id = htlc.id), found = htlc := by
    intro found listed
    obtain ⟨inside, same⟩ := List.mem_filter.mp listed
    exact htlc_eq distinct inside member (of_decide_eq_true same)
  have some : state.htlcs.filter (fun tested => tested.id = htlc.id) ≠ [] :=
    List.ne_nil_of_mem (List.mem_filter.mpr ⟨member, decide_eq_true rfl⟩)
  unfold htlcOf
  rw [List.getLast?_eq_some_getLast some]
  exact congrArg Option.some (only _ (List.getLast_mem some))

omit distinct in
theorem htlcOf_isNone (id : UInt64) : (htlcOf state id).isNone = true ↔ id ∉ state.htlcs.map Htlc.id := by
  unfold htlcOf
  rw [Option.isNone_iff_eq_none, List.getLast?_eq_none_iff, List.filter_eq_nil_iff, List.mem_map]
  simp

/-- The HTLCs that only one state has. -/
theorem htlcsBeyond_eq : htlcsBeyond state other =
    state.htlcs.filter (fun htlc => (htlcOf other htlc.id).isNone) := by
  have general : ∀ htlcs : List Htlc, (∀ htlc ∈ htlcs, htlc ∈ state.htlcs) →
      ((htlcs.map Htlc.id).filter (fun id => (htlcOf other id).isNone)).filterMap (htlcOf state) =
        htlcs.filter (fun htlc => (htlcOf other htlc.id).isNone) := by
    intro htlcs
    induction htlcs with
    | nil => intro _; rfl
    | cons htlc rest ih =>
      intro inside
      have later := ih (fun found member => inside found (List.mem_cons_of_mem _ member))
      rw [List.map_cons, List.filter_cons, List.filter_cons]
      split
      · rw [List.filterMap_cons, htlcOf_some distinct (inside htlc (List.mem_cons_self ..)), later]
      · exact later
  unfold htlcsBeyond
  rw [distinct.dedup]
  exact general state.htlcs (fun _ => id)

end Distinct

theorem sameTerms_eq {htlc htlc' : Htlc} (same : htlc.id = htlc'.id)
    (terms : sameTerms htlc htlc' = true) : htlc = htlc' := by
  simp only [sameTerms, Bool.and_eq_true, beq_iff_eq] at terms
  obtain ⟨⟨⟨offered, amount⟩, hash⟩, expiry⟩ := terms
  cases htlc
  cases htlc'
  simp_all

variable {cur next : State}

/-- When no HTLC was modified, two states are what only one of them has next to a common part. -/
theorem common_htlcs (first : (cur.htlcs.map Htlc.id).Nodup)
    (second : (next.htlcs.map Htlc.id).Nodup)
    (kept : ∀ htlc ∈ next.htlcs, htlc.id ∈ cur.htlcs.map Htlc.id → htlc ∈ cur.htlcs) :
    ∃ common, next.htlcs.Perm (htlcsBeyond next cur ++ common) ∧
      cur.htlcs.Perm (htlcsBeyond cur next ++ common) := by
  have known : ∀ (state : State) (htlc : Htlc), (!(htlcOf state htlc.id).isNone) = true ↔
      htlc.id ∈ state.htlcs.map Htlc.id := by
    intro state htlc
    rw [Bool.not_eq_true', ← Bool.not_eq_true, htlcOf_isNone, not_not]
  refine ⟨next.htlcs.filter (fun htlc => !(htlcOf cur htlc.id).isNone), ?_, ?_⟩
  · rw [htlcsBeyond_eq second]
    exact (List.filter_append_perm _ _).symm
  · rw [htlcsBeyond_eq first]
    refine (List.filter_append_perm (fun htlc => (htlcOf next htlc.id).isNone) _).symm.trans ?_
    refine List.Perm.append_left _ ?_
    -- Both lists have distinct members, and the members are the same.
    refine (List.perm_ext_iff_of_nodup (first.of_map.filter _) (second.of_map.filter _)).mpr ?_
    intro htlc
    rw [List.mem_filter, List.mem_filter, known, known]
    constructor
    · rintro ⟨member, listed⟩
      obtain ⟨other, inside, same⟩ := List.mem_map.mp listed
      have both : other ∈ cur.htlcs :=
        kept other inside (same ▸ List.mem_map.mpr ⟨htlc, member, rfl⟩)
      rw [htlc_eq first member both same.symm]
      exact ⟨inside, List.mem_map.mpr ⟨other, both, rfl⟩⟩
    · rintro ⟨member, listed⟩
      exact ⟨kept htlc member listed, List.mem_map.mpr ⟨htlc, member, rfl⟩⟩

/-! ### The classification -/

/-- What is accepted, by the two lists of HTLCs that only one state has. -/
inductive Classified (P : Primitives) (ch : Channel) (next : State) (preimage : Bytes) :
    PeerUpdate → Prop
  | pay (added : htlcsBeyond next ch.cur = []) (removed : htlcsBeyond ch.cur next = [])
      (counter : next.nextHtlcId = ch.cur.nextHtlcId) (kept : ch.own ch.cur ≤ ch.own next) :
      Classified P ch next preimage .pay
  | addHtlc (htlc : Htlc) (added : htlcsBeyond next ch.cur = [htlc])
      (removed : htlcsBeyond ch.cur next = []) (offered : htlc.offeredByA ≠ ch.isA)
      (id : htlc.id = ch.cur.nextHtlcId) (counter : next.nextHtlcId = ch.cur.nextHtlcId + 1)
      (kept : ch.own next = ch.own ch.cur) : Classified P ch next preimage (.addHtlc htlc)
  | failHtlc (htlc : Htlc) (added : htlcsBeyond next ch.cur = [])
      (removed : htlcsBeyond ch.cur next = [htlc]) (offered : htlc.offeredByA = ch.isA)
      (counter : next.nextHtlcId = ch.cur.nextHtlcId)
      (refunded : ch.own next = ch.own ch.cur + htlc.amount) :
      Classified P ch next preimage (.failHtlc htlc)
  | settleHtlc (htlc : Htlc) (added : htlcsBeyond next ch.cur = [])
      (removed : htlcsBeyond ch.cur next = [htlc]) (offered : htlc.offeredByA = ch.isA)
      (counter : next.nextHtlcId = ch.cur.nextHtlcId) (kept : ch.own next = ch.own ch.cur)
      (received : ch.theirs next = ch.theirs ch.cur + htlc.amount)
      (preserved : ¬(ch.own next = ch.own ch.cur + htlc.amount ∧ ch.theirs next = ch.theirs ch.cur))
      (hashed : hashPreimageHex P preimage = htlc.paymentHash) :
      Classified P ch next preimage (.settleHtlc htlc)

/-- What an accepted update of the peer does. -/
theorem classifyPeerUpdate_cases {P : Primitives} {ch : Channel} {preimage : Bytes}
    {height : UInt64} {update : PeerUpdate}
    (accepted : classifyPeerUpdate P ch next preimage height = .ok update) :
    (∀ htlc ∈ next.htlcs, ∀ before after, htlcOf ch.cur htlc.id = some before →
      htlcOf next htlc.id = some after → sameTerms before after = true) ∧
    Classified P ch next preimage update := by
  simp only [classifyPeerUpdate, bind_ok, exists_unit, ensure_ok, List.all_eq_true] at accepted
  obtain ⟨unmodified, accepted⟩ := accepted
  refine ⟨fun htlc member before after first second => ?_, ?_⟩
  · have same := unmodified htlc member
    rw [first, second] at same
    exact same
  split at accepted
  · rename_i added removed
    simp only [bind_ok, exists_unit, ensure_ok, pure_ok, Bool.not_eq_true', Bool.or_eq_false_iff,
      bne_eq_false_iff_eq, decide_eq_false_iff_not, UInt64.not_lt] at accepted
    obtain ⟨⟨counter, kept⟩, rfl⟩ := accepted
    exact .pay added removed counter kept
  · rename_i htlc added removed
    simp only [bind_ok, exists_unit, ensure_ok, pure_ok, Bool.and_eq_true, beq_iff_eq,
      bne_iff_ne] at accepted
    obtain ⟨offered, ⟨id, counter⟩, ⟨kept, _⟩, _, rfl⟩ := accepted
    exact .addHtlc htlc added removed offered id counter kept
  · rename_i htlc added removed
    simp only [bind_ok, exists_unit, ensure_ok, beq_iff_eq] at accepted
    obtain ⟨counter, offered, accepted⟩ := accepted
    change (if (ch.own next == ch.own ch.cur + htlc.amount &&
        ch.theirs next == ch.theirs ch.cur) = true then _
      else if (ch.theirs next == ch.theirs ch.cur + htlc.amount &&
        ch.own next == ch.own ch.cur) = true then _ else _) = _ at accepted
    by_cases refunded : (ch.own next == ch.own ch.cur + htlc.amount &&
      ch.theirs next == ch.theirs ch.cur) = true
    · rw [if_pos refunded, pure_ok] at accepted
      simp only [Bool.and_eq_true, beq_iff_eq] at refunded
      subst accepted
      exact .failHtlc htlc added removed offered counter refunded.1
    · rw [if_neg refunded] at accepted
      by_cases received : (ch.theirs next == ch.theirs ch.cur + htlc.amount &&
        ch.own next == ch.own ch.cur) = true
      · rw [if_pos received] at accepted
        simp only [Bool.and_eq_true, beq_iff_eq] at received refunded
        simp only [bind_ok, exists_unit, ensure_ok, pure_ok, beq_iff_eq] at accepted
        obtain ⟨hashed, rfl⟩ := accepted
        exact .settleHtlc htlc added removed offered counter received.2 received.1 refunded hashed
      · rw [if_neg received] at accepted
        simp at accepted
  · simp at accepted

/-- The two states of an update that modified no HTLC, by what only one of them has. -/
theorem unmodified_lists (first : (cur.htlcs.map Htlc.id).Nodup)
    (second : (next.htlcs.map Htlc.id).Nodup)
    (unmodified : ∀ htlc ∈ next.htlcs, ∀ before after, htlcOf cur htlc.id = some before →
      htlcOf next htlc.id = some after → sameTerms before after = true) :
    ∃ common, next.htlcs.Perm (htlcsBeyond next cur ++ common) ∧
      cur.htlcs.Perm (htlcsBeyond cur next ++ common) := by
  refine common_htlcs first second (fun htlc member listed => ?_)
  obtain ⟨known, inside, same⟩ := List.mem_map.mp listed
  have found : htlcOf cur htlc.id = some known := by
    rw [← same]
    exact htlcOf_some first inside
  have terms := unmodified htlc member known htlc found (htlcOf_some second member)
  rw [← sameTerms_eq same terms]
  exact inside

/-! ### Soundness -/

section Soundness

variable {P : Primitives} {ch : Channel} {next : State} {preimage : Bytes} {update : PeerUpdate}

variable {state state' : State}

/-- The identifiers of a list that lost or gained an HTLC, or did not change. -/
theorem below_of_perm (ordered : Ordered state)
    (same : state'.htlcs.Perm state.htlcs) (counter : state'.nextHtlcId = state.nextHtlcId) :
    ∀ htlc ∈ state'.htlcs, htlc.id < state'.nextHtlcId := by
  intro htlc member
  rw [counter]
  exact ordered.below htlc (same.mem_iff.mp member)

theorem below_of_fewer {htlc : Htlc} (ordered : Ordered state)
    (fewer : state.htlcs.Perm (htlc :: state'.htlcs)) (counter : state'.nextHtlcId = state.nextHtlcId) :
    ∀ htlc ∈ state'.htlcs, htlc.id < state'.nextHtlcId := by
  intro found listed
  rw [counter]
  exact ordered.below found (fewer.mem_iff.mpr (List.mem_cons_of_mem _ listed))

/-- What an update of the four honest shapes does to the worth, when no refund wraps. -/
theorem classified_worth (distinct : (ch.cur.htlcs.map Htlc.id).Nodup)
    (refund : ∀ htlc ∈ ch.cur.htlcs, htlc.id ∉ next.htlcs.map Htlc.id →
      ch.own next = ch.own ch.cur + htlc.amount → (ch.own ch.cur).toNat + htlc.amount.toNat < 2 ^ 64)
    (lists : ∃ common, next.htlcs.Perm (htlcsBeyond next ch.cur ++ common) ∧
      ch.cur.htlcs.Perm (htlcsBeyond ch.cur next ++ common))
    (classified : Classified P ch next preimage update) :
    match update with
    | .settleHtlc htlc => ch.cur.htlcs.Perm (htlc :: next.htlcs) ∧
        ch.worth ch.cur = ch.worth next + htlc.amount.toNat ∧
        hashPreimageHex P preimage = htlc.paymentHash
    | _ => ch.worth ch.cur ≤ ch.worth next := by
  obtain ⟨common, after, before⟩ := lists
  cases classified with
  | pay added removed counter kept =>
    rw [added, List.nil_append] at after
    rw [removed, List.nil_append] at before
    have same : next.htlcs.Perm ch.cur.htlcs := after.trans before.symm
    have risen : (ch.own ch.cur).toNat ≤ (ch.own next).toNat := UInt64.le_iff_toNat_le.mp kept
    show ch.worth ch.cur ≤ ch.worth next
    rw [Channel.worth, Channel.worth, offered_perm ch same]
    omega
  | addHtlc htlc added removed offered id counter kept =>
    rw [added] at after
    rw [removed, List.nil_append] at before
    have grown : next.htlcs.Perm (htlc :: ch.cur.htlcs) := after.trans (before.symm.cons htlc)
    show ch.worth ch.cur ≤ ch.worth next
    rw [Channel.worth, Channel.worth, offered_perm ch grown, offered_cons, if_neg offered, kept]
    omega
  | failHtlc htlc added removed offered counter refunded =>
    rw [added, List.nil_append] at after
    rw [removed] at before
    have fewer : ch.cur.htlcs.Perm (htlc :: next.htlcs) := before.trans (after.symm.cons htlc)
    have gone : htlc.id ∉ next.htlcs.map Htlc.id := by
      have once := ((fewer.map Htlc.id).nodup_iff).mp distinct
      exact (List.nodup_cons.mp once).1
    have whole := refund htlc (fewer.mem_iff.mpr (List.mem_cons_self ..)) gone refunded
    show ch.worth ch.cur ≤ ch.worth next
    rw [Channel.worth, Channel.worth, offered_perm ch fewer, offered_cons, if_pos offered, refunded,
      UInt64.toNat_add, Nat.mod_eq_of_lt whole]
    omega
  | settleHtlc htlc added removed offered counter kept _ _ hashed =>
    rw [added, List.nil_append] at after
    rw [removed] at before
    have fewer : ch.cur.htlcs.Perm (htlc :: next.htlcs) := before.trans (after.symm.cons htlc)
    refine ⟨fewer, ?_, hashed⟩
    rw [Channel.worth, Channel.worth, offered_perm ch fewer, offered_cons, if_pos offered, kept]
    omega

/-- An update of the four honest shapes is sound when nothing wraps. -/
theorem classified_sound (ordered : Ordered ch.cur) (plain : PlainUpdate ch next)
    (lists : ∃ common, next.htlcs.Perm (htlcsBeyond next ch.cur ++ common) ∧
      ch.cur.htlcs.Perm (htlcsBeyond ch.cur next ++ common))
    (classified : Classified P ch next preimage update) : SoundUpdate P ch next preimage update := by
  have worth := classified_worth ordered.distinct plain.refund lists classified
  obtain ⟨common, after, before⟩ := lists
  cases classified with
  | pay added removed counter _ =>
    rw [added, List.nil_append] at after
    rw [removed, List.nil_append] at before
    have same : next.htlcs.Perm ch.cur.htlcs := after.trans before.symm
    exact ⟨⟨plain.distinct, below_of_perm ordered same counter⟩, .inl same, worth⟩
  | addHtlc htlc added removed offered id counter _ =>
    rw [added] at after
    rw [removed, List.nil_append] at before
    have grown : next.htlcs.Perm (htlc :: ch.cur.htlcs) := after.trans (before.symm.cons htlc)
    have step : next.nextHtlcId.toNat = ch.cur.nextHtlcId.toNat + 1 := by
      have room : ch.cur.nextHtlcId.toNat < 2 ^ 64 - 1 := by
        have bound := ch.cur.nextHtlcId.toNat_lt
        have differs : ch.cur.nextHtlcId.toNat ≠ 2 ^ 64 - 1 :=
          fun same => plain.counter counter (UInt64.toNat_inj.mp same)
        omega
      rw [counter, UInt64.toNat_add, show (1 : UInt64).toNat = 1 from rfl]
      exact Nat.mod_eq_of_lt (by omega)
    refine ⟨⟨plain.distinct, fun found member => ?_⟩, .inr ⟨htlc, .inl grown⟩, worth⟩
    rw [UInt64.lt_iff_toNat_lt, step]
    rcases List.mem_cons.mp (grown.mem_iff.mp member) with rfl | older
    · rw [id]
      omega
    · have lower := UInt64.lt_iff_toNat_lt.mp (ordered.below found older)
      omega
  | failHtlc htlc added removed offered counter _ =>
    rw [added, List.nil_append] at after
    rw [removed] at before
    have fewer : ch.cur.htlcs.Perm (htlc :: next.htlcs) := before.trans (after.symm.cons htlc)
    exact ⟨⟨plain.distinct, below_of_fewer ordered fewer counter⟩, .inr ⟨htlc, .inr fewer⟩, worth⟩
  | settleHtlc htlc _ _ _ counter =>
    have fewer := worth.1
    exact ⟨⟨plain.distinct, below_of_fewer ordered fewer counter⟩, .inr ⟨htlc, .inr fewer⟩, worth⟩

/-- A sound update of the four shapes has nothing that wraps. -/
theorem classified_plain (ordered : Ordered ch.cur)
    (lists : ∃ common, next.htlcs.Perm (htlcsBeyond next ch.cur ++ common) ∧
      ch.cur.htlcs.Perm (htlcsBeyond ch.cur next ++ common))
    (classified : Classified P ch next preimage update)
    (sound : SoundUpdate P ch next preimage update) : PlainUpdate ch next := by
  obtain ⟨common, after, before⟩ := lists
  have unmoved : ∀ id : UInt64, id ≠ id + 1 := by
    intro id same
    have words := congrArg UInt64.toNat same
    rw [UInt64.toNat_add, show (1 : UInt64).toNat = 1 from rfl] at words
    have bound := id.toNat_lt
    omega
  refine ⟨sound.ordered.distinct, fun counter last => ?_, fun htlc member gone refunded => ?_⟩
  · cases classified with
    | pay _ _ same => exact unmoved _ (same.symm.trans counter)
    | failHtlc _ _ _ _ same => exact unmoved _ (same.symm.trans counter)
    | settleHtlc _ _ _ _ same => exact unmoved _ (same.symm.trans counter)
    | addHtlc htlc added _ _ id =>
      rw [added] at after
      have lower := sound.ordered.below htlc (after.mem_iff.mpr (List.mem_cons_self ..))
      rw [counter, id, last, UInt64.lt_iff_toNat_lt] at lower
      exact absurd lower (by decide)
  · have listed : htlc ∈ htlcsBeyond ch.cur next := by
      rw [htlcsBeyond_eq ordered.distinct]
      exact List.mem_filter.mpr ⟨member, (htlcOf_isNone htlc.id).mpr gone⟩
    cases classified with
    | pay _ removed => simp [removed] at listed
    | addHtlc _ _ removed => simp [removed] at listed
    | failHtlc found added removed offered counter _ =>
      obtain rfl : htlc = found := by simpa [removed] using listed
      rw [added, List.nil_append] at after
      rw [removed] at before
      have fewer : ch.cur.htlcs.Perm (htlc :: next.htlcs) := before.trans (after.symm.cons htlc)
      have worth : ch.worth ch.cur ≤ ch.worth next := sound.worth
      rw [Channel.worth, Channel.worth, offered_perm ch fewer, offered_cons, if_pos offered, refunded,
        UInt64.toNat_add] at worth
      omega
    | settleHtlc found _ removed _ _ kept received preserved _ =>
      obtain rfl : htlc = found := by simpa [removed] using listed
      -- The balance did not change, so that the amount would be zero, and then it is a failed HTLC.
      have nothing : htlc.amount = 0 := by
        have same : ch.own ch.cur + htlc.amount = ch.own ch.cur + 0 := by
          rw [← refunded, kept, UInt64.add_zero]
        exact UInt64.add_right_inj _ |>.mp same
      rw [nothing, UInt64.add_zero] at received
      exact absurd ⟨refunded, received⟩ preserved

end Soundness

/-- Of the updates that a peer gets past the classification, whether or not they also pass
`validate_next`, exactly those are sound that list no identifier twice and in which neither the
counter nor a balance wraps. -/
theorem classifyPeerUpdate_exact (P : Primitives) (ch : Channel) (next : State) (preimage : Bytes)
    (height : UInt64) (update : PeerUpdate) (ordered : Ordered ch.cur)
    (accepted : classifyPeerUpdate P ch next preimage height = .ok update) :
    SoundUpdate P ch next preimage update ↔ PlainUpdate ch next := by
  obtain ⟨unmodified, classified⟩ := classifyPeerUpdate_cases accepted
  have lists := fun distinct => unmodified_lists ordered.distinct distinct unmodified
  exact ⟨fun sound => classified_plain ordered (lists sound.ordered.distinct) classified sound,
    fun plain => classified_sound ordered plain (lists plain.distinct) classified⟩

/-! ### An update of each kind -/

/-- An HTLC of ten offered by the peer. -/
def peerHtlc : Htlc := ⟨0, false, 10, List.replicate 128 (byte '0'), 50⟩

/-- The endpoint of the funder, with forty for the peer. -/
def funderEndpoint : Channel where
  keys := ⟨[], [], fun _ => []⟩
  remotePub := []
  isA := true
  info := ⟨[], [], 100, [], 0, 144, 1⟩
  seed := []
  cur := ⟨1, 50, 40, [peerHtlc], 1⟩
  pending := none
  remoteSigCur := []
  remoteSigPending := none
  remoteHashes := AList.insert 2 [] ∅
  remoteSecrets := ∅
  history := ∅
  abandoned := []

/-- The peer pays fifteen. -/
def paidState : State := ⟨2, 65, 25, [peerHtlc], 1⟩

/-- The peer lists its HTLC twice and pays the second one from its balance. -/
def doubledState : State := ⟨2, 50, 30, [peerHtlc, peerHtlc], 1⟩

theorem funderEndpoint_ordered : Ordered funderEndpoint.cur := ⟨by decide, by decide⟩

/-- A payment of the peer is classified as one and bounded. -/
theorem plain_payment_sound : SoundUpdate samplePrimitives funderEndpoint paidState [] .pay :=
  (classifyPeerUpdate_exact samplePrimitives funderEndpoint paidState [] 0 .pay
    funderEndpoint_ordered (by decide +kernel)).mpr ⟨by decide, by decide, by decide⟩

/-- The maps of the classification do not see the second HTLC of the same identifier. -/
theorem doubled_htlc_accepted :
    Ordered funderEndpoint.cur ∧
    classifyPeerUpdate samplePrimitives funderEndpoint doubledState [] 0 = .ok .pay ∧
    validateNext funderEndpoint doubledState = .ok () ∧
    ¬SoundUpdate samplePrimitives funderEndpoint doubledState [] .pay := by
  refine ⟨funderEndpoint_ordered, by decide +kernel, by decide +kernel, fun sound => ?_⟩
  exact absurd sound.ordered.distinct (by decide)

end Addition.Channels
