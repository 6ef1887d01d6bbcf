import Addition.PeerNetwork
import Mathlib.Data.List.Nodup

/-!
# Who leaves a full table of peers

The victim is the peer with the lowest score, the first by name among those, and never a seed. It
does not depend on the order in which the table is read. Eviction takes one victim after the other,
until there is room or nobody is left to go.
-/

namespace Addition

namespace PeerNetwork

open ByteStrings FiniteTables

variable {net : PeerNetwork}

/-! ### The victim -/

/-- The first of two peers leaves before the second one. -/
def Before (net : PeerNetwork) (first second : Bytes) : Prop :=
  net.scoreOf first < net.scoreOf second ∨
    net.scoreOf first = net.scoreOf second ∧ first ≤ second

variable {first second : Bytes}

theorem Before.trans {third : Bytes} (left : net.Before first second)
    (right : net.Before second third) : net.Before first third := by
  obtain less | ⟨same, le⟩ := left <;> obtain less' | ⟨same', le'⟩ := right
  · exact .inl (less.trans less')
  · exact .inl (same' ▸ less)
  · exact .inl (same ▸ less')
  · exact .inr ⟨same.trans same', List.le_trans le le'⟩

theorem Before.antisymm (left : net.Before first second)
    (right : net.Before second first) : first = second := by
  obtain less | ⟨same, le⟩ := left <;> obtain less' | ⟨same', le'⟩ := right
  · exact absurd less (by omega)
  · exact absurd less (by omega)
  · exact absurd less' (by omega)
  · exact List.le_antisymm le le'

/-- What the loop over the peers has found. -/
def Found (net : PeerNetwork) (met : List Bytes) (found : Bytes × Int) : Prop :=
  (∀ peer ∈ met, peer ∈ net.seeds) ∧ found = ([], kMaxScore + 1) ∨
    (found.1 ∈ met ∧ found.1 ∉ net.seeds ∧ found.2 = net.scoreOf found.1 ∧
      ∀ peer ∈ met, peer ∉ net.seeds → net.Before found.1 peer)

theorem Found.lower {met : List Bytes} {found : Bytes × Int} (known : net.Found met found)
    (peer : Bytes) (most : net.scoreOf peer ≤ kMaxScore) :
    net.Found (met ++ [peer]) (net.lower found peer) := by
  unfold PeerNetwork.lower
  by_cases isSeed : peer ∈ net.seeds
  · rw [if_pos isSeed]
    obtain ⟨seeds, rfl⟩ | ⟨inside, plain, score, least⟩ := known
    · refine .inl ⟨fun other member => ?_, rfl⟩
      rcases List.mem_append.mp member with before | new
      · exact seeds other before
      · exact List.mem_singleton.mp new ▸ isSeed
    · refine .inr ⟨List.mem_append_left _ inside, plain, score, fun other member plain' => ?_⟩
      rcases List.mem_append.mp member with before | new
      · exact least other before plain'
      · exact absurd (List.mem_singleton.mp new ▸ isSeed) plain'
  · rw [if_neg isSeed]
    obtain ⟨seeds, rfl⟩ | ⟨inside, plain, score, least⟩ := known
    · rw [if_pos (.inl (by omega))]
      refine .inr ⟨by simp, isSeed, rfl, fun other member plain' => ?_⟩
      rcases List.mem_append.mp member with before | new
      · exact absurd (seeds other before) plain'
      · exact .inr (List.mem_singleton.mp new ▸ ⟨rfl, List.le_refl _⟩)
    · rw [score]
      by_cases first : net.scoreOf peer < net.scoreOf found.1 ∨
          net.scoreOf peer = net.scoreOf found.1 ∧ peer < found.1
      · rw [if_pos first]
        have earlier : net.Before peer found.1 :=
          first.imp_right (fun both => ⟨both.1, List.le_of_lt both.2⟩)
        refine .inr ⟨by simp, isSeed, rfl, fun other member plain' => ?_⟩
        rcases List.mem_append.mp member with before | new
        · exact earlier.trans (least other before plain')
        · exact .inr (List.mem_singleton.mp new ▸ ⟨rfl, List.le_refl _⟩)
      · rw [if_neg first]
        refine .inr ⟨List.mem_append_left _ inside, plain, score, fun other member plain' => ?_⟩
        rcases List.mem_append.mp member with before | new
        · exact least other before plain'
        · rw [List.mem_singleton.mp new]
          rcases lt_trichotomy (net.scoreOf peer) (net.scoreOf found.1) with less | same | more
          · exact absurd (.inl less) first
          · exact .inr ⟨same.symm, fun less => first (.inr ⟨same, less⟩)⟩
          · exact .inl more

theorem found_all (scored : ∀ peer ∈ net.peers, net.scoreOf peer ≤ kMaxScore) :
    net.Found net.peers (net.peers.foldl net.lower ([], kMaxScore + 1)) := by
  have parts : ∀ front, front <+: net.peers →
      net.Found front (front.foldl net.lower ([], kMaxScore + 1)) := by
    intro front cut
    induction front using List.reverseRecOn with
    | nil => exact .inl ⟨by simp, rfl⟩
    | append_singleton front peer ih =>
      rw [List.foldl_append]
      exact (ih ((List.prefix_append _ _).trans cut)).lower peer
        (scored peer (cut.subset (by simp)))
  exact parts _ (List.prefix_refl _)

/-- The peer to leave next does not depend on the order in which the peers are met. -/
theorem victim_perm (scored : ∀ peer ∈ net.peers, net.scoreOf peer ≤ kMaxScore)
    (order : List Bytes) (perm : order.Perm net.peers) :
    victim { net with peers := order } = net.victim := by
  have here := found_all scored
  have there : Found net order (order.foldl net.lower ([], kMaxScore + 1)) :=
    @found_all { net with peers := order } (fun peer member => scored peer (perm.subset member))
  unfold victim
  change (order.foldl net.lower _).1 = _
  obtain ⟨seeds, isNone⟩ | ⟨inside, plain, -, least⟩ := here <;>
    obtain ⟨seeds', isNone'⟩ | ⟨inside', plain', -, least'⟩ := there
  · rw [isNone, isNone']
  · exact absurd (seeds _ (perm.subset inside')) plain'
  · exact absurd (seeds' _ (perm.symm.subset inside)) plain
  · exact (least' _ (perm.symm.subset inside) plain).antisymm (least _ (perm.subset inside') plain')

/-- Who leaves is a peer and no seed. -/
theorem victim_plain (net : PeerNetwork) :
    net.victim = [] ∨ net.victim ∈ net.peers ∧ net.victim ∉ net.seeds := by
  unfold victim
  refine List.foldlRecOn (motive := fun (found : Bytes × Int) =>
    found.1 = [] ∨ found.1 ∈ net.peers ∧ found.1 ∉ net.seeds) net.peers net.lower (.inl rfl) ?_
  intro found known peer member
  unfold PeerNetwork.lower
  split
  · exact known
  · rename_i plain
    split
    · exact .inr ⟨member, plain⟩
    · exact known

/-! ### What eviction does -/

/-- Eviction takes peers that are no seeds away, and some scores with them. -/
theorem evictRounds_spec (rounds : Nat) (net : PeerNetwork) :
    ∃ peers score, evictRounds rounds net = { net with peers := peers, score := score } ∧
      peers.Sublist net.peers ∧ (∀ endpoint ∈ net.seeds, endpoint ∈ net.peers → endpoint ∈ peers) ∧
      ∀ endpoint value, score.lookup endpoint = some value → net.score.lookup endpoint = some value := by
  induction rounds generalizing net with
  | zero => exact ⟨_, _, rfl, List.Sublist.refl _, fun _ _ inside => inside, fun _ _ found => found⟩
  | succ rounds ih =>
    unfold evictRounds
    split
    · exact ⟨_, _, rfl, List.Sublist.refl _, fun _ _ inside => inside, fun _ _ found => found⟩
    · split
      · exact ⟨_, _, rfl, List.Sublist.refl _, fun _ _ inside => inside, fun _ _ found => found⟩
      · rename_i some
        obtain ⟨peers, score, left, sub, seeds, scores⟩ :=
          ih ((net.leave net.victim).dropScore net.victim)
        refine ⟨peers, score, left, sub.trans List.erase_sublist, ?_, ?_⟩
        · intro endpoint isSeed inside
          refine seeds endpoint isSeed (List.mem_erase_of_ne ?_ |>.mpr inside)
          rintro rfl
          obtain none | ⟨-, plain⟩ := victim_plain net
          · exact some (by simp [none])
          · exact plain isSeed
        · intro endpoint value found
          have kept := scores endpoint value found
          rw [dropScore, lookup_erase] at kept
          split at kept
          · exact nomatch kept
          · exact kept

/-- The loop ends with room for a peer, or without anyone to leave. -/
theorem evictRounds_done (rounds : Nat) (net : PeerNetwork) (enough : net.peers.length ≤ rounds)
    (positive : 0 < net.maxPeers) : (evictRounds rounds net).peers.length < net.maxPeers ∨
      (evictRounds rounds net).victim = [] := by
  induction rounds generalizing net with
  | zero => exact .inl (by unfold evictRounds; omega)
  | succ rounds ih =>
    unfold evictRounds
    split
    · exact .inl ‹_›
    · split
      · exact .inr (List.isEmpty_iff.mp ‹_›)
      · rename_i some
        refine ih ((net.leave net.victim).dropScore net.victim) ?_ positive
        obtain none | ⟨inside, -⟩ := victim_plain net
        · exact absurd (by simp [none]) some
        · have shorter : (net.peers.erase net.victim).length = net.peers.length - 1 :=
            List.length_erase_of_mem inside
          have left : ((net.leave net.victim).dropScore net.victim).peers.length =
            (net.peers.erase net.victim).length := rfl
          omega

/-! ### Who stays -/

theorem scoreOf_dropScore {endpoint tested : Bytes} (different : tested ≠ endpoint) :
    ((net.leave endpoint).dropScore endpoint).scoreOf tested = net.scoreOf tested := by
  unfold scoreOf
  change ((net.score.erase endpoint).lookup tested).getD 0 = _
  rw [AList.lookup_erase_ne different]

/-- Who goes is no seed, and goes before everyone who stays and is no seed. -/
theorem evictRounds_before (rounds : Nat) (net : PeerNetwork) (distinct : net.peers.Nodup)
    (scored : ∀ peer ∈ net.peers, net.scoreOf peer ≤ kMaxScore) (gone : Bytes)
    (inside : gone ∈ net.peers) (out : gone ∉ (evictRounds rounds net).peers) :
    gone ∉ net.seeds ∧ ∀ stays ∈ (evictRounds rounds net).peers, stays ∉ net.seeds →
      net.Before gone stays := by
  induction rounds generalizing net with
  | zero => exact absurd inside out
  | succ rounds ih =>
    unfold evictRounds at out ⊢
    split at out
    · exact absurd inside out
    · split at out
      · exact absurd inside out
      · rename_i full some
        rw [if_neg full, if_neg some]
        obtain ⟨peers, score, left, sub, -, -⟩ :=
          evictRounds_spec rounds ((net.leave net.victim).dropScore net.victim)
        have within : ∀ stays ∈ (evictRounds rounds ((net.leave net.victim).dropScore
            net.victim)).peers, stays ≠ net.victim ∧ stays ∈ net.peers := by
          intro stays left'
          rw [left] at left'
          exact (List.Nodup.mem_erase_iff distinct).mp (sub.subset left')
        by_cases same : gone = net.victim
        · obtain none | ⟨-, plain⟩ := victim_plain net
          · exact absurd (by simp [none]) some
          · refine ⟨same ▸ plain, fun stays left' plain' => ?_⟩
            obtain ⟨seeds, -⟩ | ⟨-, -, -, least⟩ := found_all scored
            · exact absurd (seeds stays (within stays left').2) plain'
            · exact same ▸ least stays (within stays left').2 plain'
        · have lower : ∀ peer ∈ (net.peers.erase net.victim),
              ((net.leave net.victim).dropScore net.victim).scoreOf peer ≤ kMaxScore := by
            intro peer left'
            obtain ⟨different, before⟩ := (List.Nodup.mem_erase_iff distinct).mp left'
            exact (scoreOf_dropScore different).trans_le (scored peer before)
          obtain ⟨plain, first⟩ := ih _ (distinct.erase net.victim) lower
            ((List.mem_erase_of_ne same).mpr inside) out
          refine ⟨plain, fun stays left' plain' => ?_⟩
          have before := first stays left' plain'
          unfold Before at before ⊢
          rwa [scoreOf_dropScore same, scoreOf_dropScore (within stays left').1] at before

/-- Read in another order, the table keeps the same peers in another order. -/
theorem evictRounds_perm (rounds : Nat) (net : PeerNetwork) (distinct : net.peers.Nodup)
    (scored : ∀ peer ∈ net.peers, net.scoreOf peer ≤ kMaxScore) (order : List Bytes)
    (perm : order.Perm net.peers) :
    (evictRounds rounds { net with peers := order }).peers.Perm (evictRounds rounds net).peers := by
  induction rounds generalizing net order with
  | zero => exact perm
  | succ rounds ih =>
    unfold evictRounds
    have short : (order.length < net.maxPeers) = (net.peers.length < net.maxPeers) := by
      rw [perm.length_eq]
    simp only [victim_perm scored order perm, short]
    split
    · exact perm
    · split
      · exact perm
      · refine ih ((net.leave net.victim).dropScore net.victim)
          (distinct.erase net.victim) (fun peer left => ?_) _ (perm.erase net.victim)
        obtain ⟨different, before⟩ := (List.Nodup.mem_erase_iff distinct).mp left
        exact (scoreOf_dropScore different).trans_le (scored peer before)

end PeerNetwork

end Addition
