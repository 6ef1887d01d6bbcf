import Addition.Staking

/-!
# The ticket draw

The draw sorts the tickets by their identifiers, so that with distinct identifiers the order
in which a node holds them does not matter. The running total is the sum of the amounts that
remain; a draw below it always falls into the interval of a ticket with a positive amount, and
this ticket leaves the list. So every round finds another ticket until none has an amount.
-/

namespace Addition

open ByteStrings

/-! ### The order of the tickets -/

/-- `bytesLe` is the order of the words. -/
theorem bytesLe_iff (left right : Bytes) : bytesLe left right = true ↔ left ≤ right := by
  induction left generalizing right with
  | nil => simp [bytesLe]
  | cons first rest ih =>
    cases right with
    | nil => simp [bytesLe]
    | cons second rest' =>
      rw [bytesLe, List.cons_le_cons_iff]
      by_cases less : first < second
      · simp [less]
      · rw [if_neg less]
        by_cases more : second < first
        · simp [less, more, (UInt8.ne_of_lt more).symm]
        · have same : first = second := UInt8.le_antisymm (UInt8.not_lt.mp more) (UInt8.not_lt.mp less)
          rw [if_neg more, ih]
          simp [same]

/-- The tickets in the order of the draw. -/
def sortedTickets (eligible : List StakeTicket) : List StakeTicket :=
  eligible.mergeSort (fun left right => bytesLe left.id right.id)

theorem sortedTickets_perm (eligible : List StakeTicket) : (sortedTickets eligible).Perm eligible :=
  List.mergeSort_perm ..

theorem sortedTickets_pairwise (eligible : List StakeTicket) :
    (sortedTickets eligible).Pairwise (fun left right => left.id ≤ right.id) := by
  have sorted := @List.pairwise_mergeSort _ (fun left right : StakeTicket => bytesLe left.id right.id)
    (fun a b c first second => by
      rw [bytesLe_iff] at first second ⊢
      exact List.le_trans first second)
    (fun a b => by
      rw [Bool.or_eq_true, bytesLe_iff, bytesLe_iff]
      exact List.le_total a.id b.id) eligible
  exact sorted.imp (fun ordered => (bytesLe_iff _ _).mp ordered)

variable {eligible : List StakeTicket}

/-- Tickets with the same identifier are the same when identifiers are distinct. -/
theorem ticket_eq_of_id (distinct : (eligible.map StakeTicket.id).Nodup)
    {a b : StakeTicket} (first : a ∈ eligible) (second : b ∈ eligible) (same : a.id = b.id) : a = b :=
  List.inj_on_of_nodup_map distinct first second same

/-- With distinct identifiers only the tickets matter, not the order they come in. -/
theorem sortedTickets_eq {other : List StakeTicket}
    (distinct : (eligible.map StakeTicket.id).Nodup) (same : other.Perm eligible) :
    sortedTickets other = sortedTickets eligible := by
  refine List.Perm.eq_of_pairwise (fun a b first second ordered reversed => ?_)
    (sortedTickets_pairwise other) (sortedTickets_pairwise eligible)
    (((sortedTickets_perm other).trans same).trans (sortedTickets_perm eligible).symm)
  refine ticket_eq_of_id distinct ?_ ((sortedTickets_perm eligible).mem_iff.mp second)
    (List.le_antisymm ordered reversed)
  exact same.mem_iff.mp ((sortedTickets_perm other).mem_iff.mp first)

/-! ### A round -/

/-- A draw below the total finds the interval of a ticket with a positive amount. -/
theorem winner_found (draw total : Nat) (eligible : List StakeTicket) (reached : total ≤ draw)
    (below : draw < total + (eligible.map StakeTicket.weight).sum) :
    ∃ front ticket back, eligible = front ++ ticket :: back ∧ 0 < ticket.weight ∧
      winner draw total eligible = some front.length := by
  induction eligible generalizing total with
  | nil =>
    rw [List.map_nil, List.sum_nil] at below
    omega
  | cons ticket rest ih =>
    rw [List.map_cons, List.sum_cons] at below
    by_cases hit : draw < total + ticket.weight
    · exact ⟨[], ticket, rest, rfl, by omega, by rw [winner]; exact if_pos hit⟩
    · obtain ⟨front, other, back, split, positive, found⟩ :=
        ih (total + ticket.weight) (by omega) (by omega)
      refine ⟨ticket :: front, other, back, by rw [split]; rfl, positive, ?_⟩
      rw [winner]
      refine (if_neg hit).trans ?_
      change (winner draw (total + ticket.weight) rest).map (· + 1) = _
      rw [found]
      rfl

variable (P : Primitives)

/-- One round: a ticket with a positive amount is drawn and leaves the list, its amount the total. -/
theorem drawRounds_step (seed : Bytes) (remaining round : Nat) (eligible : List StakeTicket)
    (some : 0 < (eligible.map StakeTicket.weight).sum) :
    ∃ front ticket back, eligible = front ++ ticket :: back ∧ 0 < ticket.weight ∧
      drawRounds P seed (remaining + 1) round (eligible.map StakeTicket.weight).sum eligible =
        ticket.id :: drawRounds P seed remaining (round + 1)
          ((front ++ back).map StakeTicket.weight).sum (front ++ back) := by
  obtain ⟨front, ticket, back, split, positive, found⟩ :=
    winner_found ((seedU64 P seed (round * 2 % 2 ^ 32) * 2 ^ 64 +
      seedU64 P seed ((round * 2 + 1) % 2 ^ 32)) % (eligible.map StakeTicket.weight).sum) 0 eligible
      (Nat.zero_le _) (by rw [Nat.zero_add]; exact Nat.mod_lt _ some)
  refine ⟨front, ticket, back, split, positive, ?_⟩
  have going : (eligible.isEmpty || (eligible.map StakeTicket.weight).sum == 0) = false := by
    rw [Bool.or_eq_false_iff, beq_eq_false_iff_ne]
    exact ⟨by rw [split]; simp, by omega⟩
  have isId : (eligible.map StakeTicket.id).getD front.length [] = ticket.id := by
    rw [split]
    simp
  have isWeight : (eligible.map StakeTicket.weight).getD front.length 0 = ticket.weight := by
    rw [split]
    simp
  have rest : eligible.eraseIdx front.length = front ++ back := by
    rw [split, List.eraseIdx_append_of_length_le (Nat.le_refl _), Nat.sub_self]
    rfl
  have left : (eligible.map StakeTicket.weight).sum - ticket.weight =
      ((front ++ back).map StakeTicket.weight).sum := by
    rw [split]
    simp only [List.map_append, List.map_cons, List.sum_append, List.sum_cons]
    omega
  rw [drawRounds, going, if_neg (by decide)]
  dsimp only
  rw [found]
  dsimp only
  rw [isId, isWeight, rest, left]

/-- The tickets that can be drawn. -/
def positives (eligible : List StakeTicket) : Nat :=
  eligible.countP (fun ticket => decide (0 < ticket.weight))

theorem positives_eq_zero_iff (eligible : List StakeTicket) :
    positives eligible = 0 ↔ (eligible.map StakeTicket.weight).sum = 0 := by
  unfold positives
  rw [List.countP_eq_zero, List.sum_eq_zero_iff_forall_eq_nat]
  simp

/-- What rounds draw from tickets with distinct identifiers. -/
structure Drawn (remaining : Nat) (eligible : List StakeTicket) (ids : List Bytes) : Prop where
  nodup : ids.Nodup
  positive : ∀ id ∈ ids, ∃ ticket ∈ eligible, ticket.id = id ∧ 0 < ticket.weight
  length : ids.length = min remaining (positives eligible)

/-- Induction on the rounds that are left. -/
theorem drawRounds_drawn (seed : Bytes) (remaining round : Nat) (eligible : List StakeTicket)
    (distinct : (eligible.map StakeTicket.id).Nodup) :
    Drawn remaining eligible
      (drawRounds P seed remaining round (eligible.map StakeTicket.weight).sum eligible) := by
  induction remaining generalizing round eligible with
  | zero =>
    rw [drawRounds]
    exact ⟨List.nodup_nil, by simp, (Nat.zero_min _).symm⟩
  | succ remaining ih =>
    by_cases some : 0 < (eligible.map StakeTicket.weight).sum
    · obtain ⟨front, ticket, back, split, positive, step⟩ :=
        drawRounds_step P seed remaining round eligible some
      rw [step]
      rw [split] at distinct
      have moved : (ticket :: (front ++ back)).Perm (front ++ ticket :: back) := List.perm_middle.symm
      obtain ⟨fresh, fewer⟩ := List.nodup_cons.mp ((moved.map StakeTicket.id).nodup_iff.mpr distinct)
      have later := ih (round + 1) (front ++ back) fewer
      refine ⟨List.nodup_cons.mpr ⟨fun again => ?_, later.nodup⟩, ?_, ?_⟩
      · obtain ⟨other, member, same, -⟩ := later.positive _ again
        exact fresh (List.mem_map.mpr ⟨other, member, same⟩)
      · intro id member
        rw [split]
        obtain rfl | again := List.mem_cons.mp member
        · exact ⟨ticket, by simp, rfl, positive⟩
        · obtain ⟨other, member, same, weighs⟩ := later.positive id again
          exact ⟨other, moved.mem_iff.mp (List.mem_cons_of_mem _ member), same, weighs⟩
      · have counted : positives eligible = positives (front ++ back) + 1 := by
          rw [split]
          unfold positives
          rw [← moved.countP_eq, List.countP_cons, if_pos (by simpa using positive)]
        rw [List.length_cons, later.length, counted]
        omega
    · have none : (eligible.map StakeTicket.weight).sum = 0 := by omega
      have done : drawRounds P seed (remaining + 1) round (eligible.map StakeTicket.weight).sum eligible =
          [] := by
        rw [drawRounds, none]
        simp
      rw [done]
      exact ⟨List.nodup_nil, by simp, by rw [(positives_eq_zero_iff eligible).mpr none]; simp⟩

/-- What a draw does: every node draws the same from the same tickets, the identifiers are distinct
and belong to eligible tickets with an amount, and there are as many as asked for, or as there
are such tickets. -/
theorem selectTickets_exact (seed : Bytes) (count : UInt32) (eligible : List StakeTicket)
    (distinct : (eligible.map StakeTicket.id).Nodup) :
    (∀ other, other.Perm eligible → selectTickets P other seed count = selectTickets P eligible seed count) ∧
      (selectTickets P eligible seed count).Nodup ∧
      (∀ id ∈ selectTickets P eligible seed count,
        ∃ ticket ∈ eligible, ticket.id = id ∧ 0 < ticket.amount) ∧
      (selectTickets P eligible seed count).length =
        min count.toNat (eligible.countP (fun ticket => decide (0 < ticket.amount))) := by
  have perm := sortedTickets_perm eligible
  have drawn := drawRounds_drawn P seed count.toNat 0 (sortedTickets eligible)
    ((perm.map StakeTicket.id).nodup_iff.mpr distinct)
  refine ⟨fun other same => ?_, drawn.nodup, fun id member => ?_, ?_⟩
  · have sorted := sortedTickets_eq distinct same
    exact congrArg (fun tickets =>
      drawRounds P seed count.toNat 0 (tickets.map StakeTicket.weight).sum tickets) sorted
  · obtain ⟨ticket, found, same, positive⟩ := drawn.positive id member
    exact ⟨ticket, perm.mem_iff.mp found, same, UInt64.lt_iff_toNat_lt.mpr positive⟩
  · refine drawn.length.trans (congrArg (min count.toNat) ?_)
    unfold positives
    rw [perm.countP_eq]
    exact List.countP_congr (fun ticket _ => by
      rw [decide_eq_true_eq, decide_eq_true_eq, UInt64.lt_iff_toNat_lt]
      exact Iff.rfl)

/-- Three tickets, of which one has no amount. -/
def drawTickets : List StakeTicket :=
  [⟨ascii "b", [], [], 5, 0⟩, ⟨ascii "c", [], [], 0, 0⟩, ⟨ascii "a", [], [], 7, 0⟩]

/-- The draw from three tickets. -/
theorem drawTickets_selected : (selectTickets samplePrimitives drawTickets [] 3).length = 2 := by
  obtain ⟨-, -, -, length⟩ := selectTickets_exact samplePrimitives [] 3 drawTickets (by decide)
  rw [length]
  decide

end Addition
