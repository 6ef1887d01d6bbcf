import Addition.RouteSearch

/-!
# The best route

The search is defined exactly when no level reads its reference after a longer path has moved
the vector: whenever a path is searched that grew out of its block through one of the tokens of
a level, that token is the last one in the order of the map that the level still has to look
at. A search that is defined has looked at every simple path of at most so many hops that can
be quoted, and the route it keeps has the best score, and with this score the largest output.
-/

namespace Addition

namespace Tokens

open ByteStrings Checked FiniteTables Amounts GrowingVectors ConstantProduct

section Paths

variable (engine : TokenEngine) (allTokens : List Bytes) (tokenOut : Bytes)

/-! ### Paths -/

/-- A path from which the search goes no further. -/
def Arrived (path : List Bytes) : Prop := path.getLastD [] = tokenOut ∧ 2 ≤ path.length

/-- The paths that the search comes to from a path, and the amounts they carry. -/
inductive Extends : Nat → List Bytes → UInt64 → List Bytes → UInt64 → Prop
  | here (hops : Nat) (path : List Bytes) (running : UInt64) : Extends hops path running path running
  | hop {hops : Nat} {path further : List Bytes} {running hopOut amount : UInt64} {next : Bytes}
      (onward : ¬ Arrived tokenOut path) (listed : next ∈ allTokens) (new : next ∉ path)
      (quoted : quoteExactIn engine (path.getLastD []) next running = .ok hopOut)
      (rest : Extends hops (path ++ [next]) hopOut further amount) :
    Extends (hops + 1) path running further amount

/-- The routes that the search comes to from a path. -/
def Completes (hops : Nat) (path : List Bytes) (running : UInt64) (route : List Bytes) (q : UInt64) :
    Prop :=
  Extends engine allTokens tokenOut hops path running route q ∧ Arrived tokenOut route

/-- The search comes to a path with more tokens than there are places. -/
def Outgrows (hops : Nat) (path : List Bytes) (running : UInt64) (places : Nat) : Prop :=
  ∃ further amount, Extends engine allTokens tokenOut hops path running further amount ∧
    places < further.length

/-- One token comes after another in the order of the map. -/
def After (next other : Bytes) : Prop :=
  ∃ front later, allTokens = front ++ next :: later ∧ other ∈ later

/-- No level is left with a token to look at after a path through an earlier token of it has
moved the vector. -/
def SteadyFrom (hops : Nat) (path : List Bytes) (running : UInt64) : Prop :=
  ∀ more next rest amount,
    Extends engine allTokens tokenOut hops path running (path ++ more ++ next :: rest) amount →
    (∃ other, After allTokens next other ∧ other ∉ path ++ more) →
      (path ++ more ++ next :: rest).length ≤ placesFor (path ++ more).length

theorem Extends.prefixed {hops : Nat} {path further : List Bytes} {running amount : UInt64}
    (reached : Extends engine allTokens tokenOut hops path running further amount) :
    ∃ rest, further = path ++ rest ∧ rest.length ≤ hops := by
  induction reached with
  | here hops path running => exact ⟨[], by simp⟩
  | @hop hops path further running hopOut amount next _ _ _ _ _ ih =>
    obtain ⟨rest, isRest, short⟩ := ih
    refine ⟨next :: rest, by rw [isRest, List.append_assoc]; rfl, ?_⟩
    rw [List.length_cons]
    omega

/-! ### One level -/

variable (hops : Nat) (path : List Bytes) (running : UInt64)

/-- A token of a level that can be gone to, and the amount it gives. -/
def Reaches (next : Bytes) (hopOut : UInt64) : Prop :=
  next ∉ path ∧ quoteExactIn engine (path.getLastD []) next running = .ok hopOut

/-- A level is steady on the tokens that it has still to look at. -/
def LevelSteady (later : List Bytes) : Prop :=
  ∀ front next rest hopOut, later = front ++ next :: rest → Reaches engine path running next hopOut →
    SteadyFrom engine allTokens tokenOut hops (path ++ [next]) hopOut ∧
      ((∃ other ∈ rest, other ∉ path) →
        ¬ Outgrows engine allTokens tokenOut hops (path ++ [next]) hopOut (placesFor path.length))

/-- A level still to be searched reaches a hop on which the places run out. -/
def LevelOutgrows (later : List Bytes) (places : Nat) : Prop :=
  ∃ next ∈ later, ∃ hopOut, Reaches engine path running next hopOut ∧
    Outgrows engine allTokens tokenOut hops (path ++ [next]) hopOut places

/-- A level still to be searched reaches the target with a route and its amount. -/
def LevelCompletes (later : List Bytes) (route : List Bytes) (q : UInt64) : Prop :=
  ∃ next ∈ later, ∃ hopOut, Reaches engine path running next hopOut ∧
    Completes engine allTokens tokenOut hops (path ++ [next]) hopOut route q

/-- A search is steady when each level of it is. -/
theorem levelSteady_iff (onward : ¬ Arrived tokenOut path) :
    SteadyFrom engine allTokens tokenOut (hops + 1) path running ↔
      LevelSteady engine allTokens tokenOut hops path running allTokens := by
  constructor
  · intro steady front next rest hopOut split reaches
    have listed : next ∈ allTokens := split ▸ by simp
    constructor
    · intro more further behind amount reached left
      have longer := steady (next :: more) further behind amount
      simp only [List.append_assoc, List.cons_append, List.nil_append] at *
      exact longer (.hop onward listed reaches.1 reaches.2 reached) left
    · rintro ⟨other, later, unused⟩ ⟨further, amount, reached, long⟩
      obtain ⟨behind, rfl, -⟩ := reached.prefixed
      have longer := steady [] next behind amount
      simp only [List.append_nil, List.append_assoc, List.cons_append, List.nil_append] at *
      have bound := longer (.hop onward listed reaches.1 reaches.2 reached)
        ⟨other, ⟨front, rest, split, later⟩, unused⟩
      omega
  · rintro level more next rest amount reached ⟨other, after, unused⟩
    generalize isFurther : path ++ more ++ next :: rest = further at reached
    cases reached with
    | here =>
      have lengths := congrArg List.length isFurther
      simp only [List.length_append, List.length_cons] at lengths
      omega
    | @hop _ _ _ _ hopOut _ first _ listed new quoted deeper =>
      subst isFurther
      obtain ⟨behind, same, -⟩ := deeper.prefixed
      simp only [List.append_assoc, List.append_cancel_left_eq, List.cons_append, List.nil_append]
        at same
      cases more with
      | nil =>
        obtain ⟨isNext, isRest⟩ := List.cons.inj same
        subst isNext
        obtain ⟨front, later, split, member⟩ := after
        have bound := (level front next later hopOut split ⟨new, quoted⟩).2
          ⟨other, member, by simpa using unused⟩
        by_contra long
        refine bound ⟨_, _, deeper, ?_⟩
        simpa using long
      | cons second others =>
        obtain ⟨isSecond, isRest⟩ := List.cons.inj same
        obtain ⟨front, later, split⟩ := List.append_of_mem listed
        have steady := (level front first later hopOut split ⟨new, quoted⟩).1 others next rest amount
        subst isSecond
        simp only [List.append_assoc, List.cons_append, List.nil_append] at *
        exact steady deeper ⟨other, after, unused⟩

end Paths

/-! ### The best of two routes -/

/-- A route with this score and output is not better than the one that is kept. -/
def Best.AtLeast (best : Best) (score q : UInt64) : Prop :=
  score < best.score ∨ score = best.score ∧ q ≤ best.out

/-- The score of a route by its length. -/
def scoreOf (route : List Bytes) (q : UInt64) : UInt64 := routeScore q (.ofNat (route.length - 1))

theorem Best.AtLeast.refl (best : Best) : best.AtLeast best.score best.out :=
  .inr ⟨rfl, UInt64.le_refl _⟩

theorem Best.AtLeast.trans {best next : Best} {score q : UInt64}
    (first : next.AtLeast best.score best.out) (second : best.AtLeast score q) :
    next.AtLeast score q := by
  obtain more | ⟨same, most⟩ := first
  · obtain less | ⟨isScore, -⟩ := second
    · exact .inl (UInt64.lt_trans less more)
    · exact .inl (isScore ▸ more)
  · obtain less | ⟨isScore, below⟩ := second
    · exact .inl (same ▸ less)
    · exact .inr ⟨isScore.trans same, UInt64.le_trans below most⟩

/-- What a part of the search makes of the best route: it is as good as the one before and as
every route of the part, and it is one of them. -/
structure Improves (Complete : List Bytes → UInt64 → Prop) (before after : Best) : Prop where
  keeps : after.AtLeast before.score before.out
  covers : ∀ route q, Complete route q → after.AtLeast (scoreOf route q) q
  chosen : after = before ∨ ∃ route q, Complete route q ∧ after.route = route ∧ after.out = q ∧
    after.score = scoreOf route q

variable {Complete : List Bytes → UInt64 → Prop}

theorem Improves.none (best : Best)
    (nothing : ∀ route q, ¬ Complete route q) : Improves Complete best best :=
  ⟨.refl best, fun route q complete => absurd complete (nothing route q), .inl rfl⟩

theorem Improves.trans {First Second Both : List Bytes → UInt64 → Prop} {before middle after : Best}
    (first : Improves First before middle) (second : Improves Second middle after)
    (both : ∀ route q, Both route q ↔ First route q ∨ Second route q) :
    Improves Both before after := by
  refine ⟨second.keeps.trans first.keeps, fun route q complete => ?_, ?_⟩
  · obtain early | late := (both route q).mp complete
    · exact second.keeps.trans (first.covers route q early)
    · exact second.covers route q late
  · obtain same | ⟨route, q, late, isRoute⟩ := second.chosen
    · obtain same' | ⟨route, q, early, isRoute⟩ := first.chosen
      · exact .inl (same.trans same')
      · exact .inr ⟨route, q, (both route q).mpr (.inl early), same ▸ isRoute⟩
    · exact .inr ⟨route, q, (both route q).mpr (.inr late), isRoute⟩

theorem Improves.consider (best : Best) (engine : TokenEngine) (path : List Bytes) (running : UInt64)
    (only : ∀ route q, Complete route q ↔ route = path ∧ q = running) :
    Improves Complete best (best.consider engine path running) := by
  have complete := (only path running).mpr ⟨rfl, rfl⟩
  unfold Best.consider
  dsimp only
  split
  · rename_i better
    refine ⟨?_, fun route q isRoute => ?_, .inr ⟨path, running, complete, rfl, rfl, rfl⟩⟩
    · obtain more | ⟨same, larger⟩ | ⟨same, equal, -⟩ := better
      · exact .inl more
      · exact .inr ⟨same.symm, UInt64.le_of_lt larger⟩
      · exact .inr ⟨same.symm, UInt64.le_of_eq equal.symm⟩
    · obtain ⟨rfl, rfl⟩ := (only route q).mp isRoute
      exact .inr ⟨rfl, UInt64.le_refl _⟩
  · rename_i worse
    rw [not_or, not_or] at worse
    refine ⟨.refl best, fun route q isRoute => ?_, .inl rfl⟩
    obtain ⟨rfl, rfl⟩ := (only route q).mp isRoute
    rcases UInt64.lt_or_eq_of_le (UInt64.not_lt.mp worse.1) with less | same
    · exact .inl less
    · exact .inr ⟨same, UInt64.not_lt.mp (fun larger => worse.2.1 ⟨same, larger⟩)⟩

/-! ### The search -/

/-- What a part of the search leaves: the path and the marks as they were, the vector moved
exactly when a path grew out of it, and the best route. -/
structure Explored (Grows : Prop) (Complete : List Bytes → UInt64 → Prop) (search final : Search) :
    Prop where
  items : final.current.items = search.current.items
  used : final.used = search.used
  places : search.current.places ≤ final.current.places
  kept_iff : final.current.places = search.current.places ↔ ¬ Grows
  improves : Improves Complete search.best final.best

/-- A part of the search is undefined unless it is steady, and else has explored its paths. -/
def Settles (steady : Prop) (explored : Search → Prop) : Option Search → Prop
  | none => ¬ steady
  | some final => steady ∧ explored final

theorem Settles.congr {steady steady' : Prop} {explored explored' : Search → Prop}
    {outcome : Option Search} (settles : Settles steady explored outcome) (same : steady ↔ steady')
    (imp : ∀ final, steady → explored final → explored' final) : Settles steady' explored' outcome := by
  cases outcome with
  | none => exact mt same.mpr settles
  | some final => exact ⟨same.mp settles.1, imp final settles.1 settles.2⟩

section Level

variable (engine : TokenEngine) (allTokens : List Bytes) (tokenOut : Bytes) (hops : Nat)
  (path : List Bytes) (running : UInt64)

/-- A level at work: its path, its marks and the places of the vector. -/
structure AtWork (search : Search) : Prop where
  items : search.current.items = path
  marked : ∀ token, token ∈ search.used ↔ token ∈ path
  places : search.current.places = placesFor path.length

/-- A token that the level cannot go to changes nothing. -/
theorem level_skip (next : Bytes) (later : List Bytes)
    (blocked : ∀ hopOut, ¬ Reaches engine path running next hopOut) (search final : Search) :
    (LevelSteady engine allTokens tokenOut hops path running later ↔
      LevelSteady engine allTokens tokenOut hops path running (next :: later)) ∧
    (Explored (LevelOutgrows engine allTokens tokenOut hops path running later (placesFor path.length))
        (LevelCompletes engine allTokens tokenOut hops path running later) search final →
      Explored (LevelOutgrows engine allTokens tokenOut hops path running (next :: later)
          (placesFor path.length))
        (LevelCompletes engine allTokens tokenOut hops path running (next :: later)) search final) := by
  constructor
  · constructor
    · intro steady front token rest hopOut split reaches
      cases front with
      | nil =>
        cases (List.cons.inj split).1
        exact absurd reaches (blocked hopOut)
      | cons first front => exact steady front token rest hopOut (List.cons.inj split).2 reaches
    · intro steady front token rest hopOut split reaches
      exact steady (next :: front) token rest hopOut (by rw [split]; rfl) reaches
  · intro explored
    have outgrows : LevelOutgrows engine allTokens tokenOut hops path running (next :: later)
        (placesFor path.length) ↔
        LevelOutgrows engine allTokens tokenOut hops path running later (placesFor path.length) := by
      constructor
      · rintro ⟨token, member, hopOut, reaches, grows⟩
        obtain rfl | other := List.mem_cons.mp member
        · exact absurd reaches (blocked hopOut)
        · exact ⟨token, other, hopOut, reaches, grows⟩
      · rintro ⟨token, member, rest⟩
        exact ⟨token, List.mem_cons_of_mem _ member, rest⟩
    have completes : ∀ route q,
        LevelCompletes engine allTokens tokenOut hops path running (next :: later) route q ↔
          LevelCompletes engine allTokens tokenOut hops path running later route q := by
      intro route q
      constructor
      · rintro ⟨token, member, hopOut, reaches, complete⟩
        obtain rfl | other := List.mem_cons.mp member
        · exact absurd reaches (blocked hopOut)
        · exact ⟨token, other, hopOut, reaches, complete⟩
      · rintro ⟨token, member, rest⟩
        exact ⟨token, List.mem_cons_of_mem _ member, rest⟩
    refine ⟨explored.items, explored.used, explored.places, explored.kept_iff.trans (not_congr
      outgrows.symm), ?_⟩
    exact explored.improves.trans (.none final.best (fun _ _ => id))
      (fun route q => (completes route q).trans (or_false _).symm.to_iff)

/-- A search that one level hands to the next, and gets back from it. -/
def Search.goTo (search : Search) (next : Bytes) : Search :=
  { search with used := insert next search.used, current := search.current.push next }

/-- The last token is taken off the path again and may be used elsewhere. -/
def Search.comeBack (search : Search) (next : Bytes) : Search :=
  { search with current := search.current.pop, used := search.used.erase next }

/-- Once the vector has moved, a further token that is not used makes the level read what is
undefined. -/
theorem visitAll_dangling (deeper : UInt64 → Search → Option Search) (cur : Ref Bytes)
    (later : List Bytes) (search : Search) (moved : search.current.places ≠ cur.places) :
    visitAll engine deeper cur running later search =
      if ∃ other ∈ later, other ∉ search.used then none else some search := by
  induction later with
  | nil => simp [visitAll]
  | cons next rest ih =>
    rw [visitAll, visit]
    by_cases used : next ∈ search.used
    · rw [if_pos used, Option.bind_some, ih]
      simp [used]
    · rw [if_neg used, read_none _ _ moved, Option.bind_none, Option.bind_none, if_pos]
      exact ⟨next, List.mem_cons_self .., used⟩

/-- The next level, and the way back. -/
theorem goTo_settles (search : Search) (next : Bytes) (hopOut : UInt64)
    (atWork : AtWork path search) (new : next ∉ path)
    (below : ∀ search, AtWork (path ++ [next]) search →
      Settles (SteadyFrom engine allTokens tokenOut hops (path ++ [next]) hopOut)
        (Explored (Outgrows engine allTokens tokenOut hops (path ++ [next]) hopOut search.current.places)
          (Completes engine allTokens tokenOut hops (path ++ [next]) hopOut) search)
        (dfs engine allTokens tokenOut hops hopOut search)) :
    Settles (SteadyFrom engine allTokens tokenOut hops (path ++ [next]) hopOut)
      (Explored (Outgrows engine allTokens tokenOut hops (path ++ [next]) hopOut (placesFor path.length))
        (Completes engine allTokens tokenOut hops (path ++ [next]) hopOut) search)
      ((dfs engine allTokens tokenOut hops hopOut (search.goTo next)).map (·.comeBack next)) := by
  have unused : next ∉ search.used := fun used => new ((atWork.marked next).mp used)
  have positive : 0 < search.current.places := atWork.places ▸ placesFor_pos _
  have work : AtWork (path ++ [next]) (search.goTo next) := by
    refine ⟨?_, fun token => ?_, ?_⟩
    · change search.current.items ++ [next] = path ++ [next]
      rw [atWork.items]
    · change token ∈ insert next search.used ↔ _
      rw [Finset.mem_insert, atWork.marked, List.mem_append, List.mem_singleton, or_comm]
    · have grown := push_places search.current next (atWork.items ▸ atWork.places)
      rwa [push_items, atWork.items] at grown
  have settles := below (search.goTo next) work
  cases found : dfs engine allTokens tokenOut hops hopOut (search.goTo next) with
  | none =>
    rw [found] at settles
    exact settles
  | some deeper =>
    rw [found] at settles
    obtain ⟨steady, explored⟩ := settles
    have pushed : (search.goTo next).current.places =
        if search.current.items.length < search.current.places then search.current.places
        else 2 * search.current.places := rfl
    have places := explored.places
    refine ⟨steady, ?_, ?_, ?_, ?_, explored.improves⟩
    · change deeper.current.items.dropLast = search.current.items
      rw [explored.items]
      exact List.dropLast_concat
    · change deeper.used.erase next = search.used
      rw [explored.used]
      exact Finset.erase_insert unused
    · change search.current.places ≤ deeper.current.places
      rw [pushed] at places
      split at places <;> omega
    · change deeper.current.places = search.current.places ↔ _
      by_cases room : search.current.items.length < search.current.places
      · rw [if_pos room] at pushed
        have same := explored.kept_iff
        rw [pushed] at same
        rw [same, atWork.places]
      · -- the push itself has moved the vector
        rw [if_neg room] at pushed
        rw [pushed] at places
        have grows : Outgrows engine allTokens tokenOut hops (path ++ [next]) hopOut
            (placesFor path.length) := by
          refine ⟨_, _, .here hops _ _, ?_⟩
          rw [List.length_append, List.length_singleton, ← atWork.places, ← atWork.items]
          omega
        constructor
        · intro same
          omega
        · exact fun kept => absurd grows kept

/-- A level that looks at a token, comes back with the vector in its place, and goes on. -/
theorem level_onward (next : Bytes) (later : List Bytes) (hopOut : UInt64) (search left final : Search)
    (reaches : Reaches engine path running next hopOut)
    (steady : SteadyFrom engine allTokens tokenOut hops (path ++ [next]) hopOut)
    (first : Explored (Outgrows engine allTokens tokenOut hops (path ++ [next]) hopOut
      (placesFor path.length)) (Completes engine allTokens tokenOut hops (path ++ [next]) hopOut) search left)
    (stayed : left.current.places = search.current.places) :
    (LevelSteady engine allTokens tokenOut hops path running later ↔
      LevelSteady engine allTokens tokenOut hops path running (next :: later)) ∧
    (Explored (LevelOutgrows engine allTokens tokenOut hops path running later (placesFor path.length))
        (LevelCompletes engine allTokens tokenOut hops path running later) left final →
      Explored (LevelOutgrows engine allTokens tokenOut hops path running (next :: later)
          (placesFor path.length))
        (LevelCompletes engine allTokens tokenOut hops path running (next :: later)) search final) := by
  have small := first.kept_iff.mp stayed
  have only : ∀ amount, Reaches engine path running next amount → amount = hopOut := fun amount other =>
    Except.ok.inj (other.2.symm.trans reaches.2)
  constructor
  · constructor
    · intro level front token rest amount split goes
      cases front with
      | nil =>
        cases (List.cons.inj split).1
        cases only amount goes
        exact ⟨steady, fun _ => small⟩
      | cons _ front => exact level front token rest amount (List.cons.inj split).2 goes
    · intro level front token rest amount split goes
      exact level (next :: front) token rest amount (by rw [split]; rfl) goes
  · intro explored
    refine ⟨explored.items.trans first.items, explored.used.trans first.used,
      first.places.trans explored.places, ?_, first.improves.trans explored.improves ?_⟩
    · rw [← stayed, explored.kept_iff]
      apply not_congr
      constructor
      · rintro ⟨token, member, rest⟩
        exact ⟨token, List.mem_cons_of_mem _ member, rest⟩
      · rintro ⟨token, member, amount, goes, grows⟩
        obtain rfl | other := List.mem_cons.mp member
        · cases only amount goes
          exact absurd grows small
        · exact ⟨token, other, amount, goes, grows⟩
    · intro route q
      constructor
      · rintro ⟨token, member, amount, goes, complete⟩
        obtain rfl | other := List.mem_cons.mp member
        · cases only amount goes
          exact .inl complete
        · exact .inr ⟨token, other, amount, goes, complete⟩
      · rintro (complete | ⟨token, member, rest⟩)
        · exact ⟨next, List.mem_cons_self .., hopOut, reaches, complete⟩
        · exact ⟨token, List.mem_cons_of_mem _ member, rest⟩

/-- A level whose vector has moved, and which has no token left to look at. -/
theorem level_last (next : Bytes) (later : List Bytes) (hopOut : UInt64) (search left : Search)
    (reaches : Reaches engine path running next hopOut)
    (steady : SteadyFrom engine allTokens tokenOut hops (path ++ [next]) hopOut)
    (first : Explored (Outgrows engine allTokens tokenOut hops (path ++ [next]) hopOut
      (placesFor path.length)) (Completes engine allTokens tokenOut hops (path ++ [next]) hopOut) search left)
    (moved : left.current.places ≠ search.current.places) (done : ∀ other ∈ later, other ∈ path) :
    LevelSteady engine allTokens tokenOut hops path running (next :: later) ∧
      Explored (LevelOutgrows engine allTokens tokenOut hops path running (next :: later)
          (placesFor path.length))
        (LevelCompletes engine allTokens tokenOut hops path running (next :: later)) search left := by
  have grows : Outgrows engine allTokens tokenOut hops (path ++ [next]) hopOut (placesFor path.length) :=
    by_contra fun small => moved (first.kept_iff.mpr small)
  have only : ∀ token ∈ next :: later, ∀ amount, Reaches engine path running token amount →
      token = next ∧ amount = hopOut := by
    intro token member amount goes
    obtain rfl | other := List.mem_cons.mp member
    · exact ⟨rfl, Except.ok.inj (goes.2.symm.trans reaches.2)⟩
    · exact absurd (done token other) goes.1
  refine ⟨fun front token rest amount split goes => ?_, first.items, first.used, first.places, ?_, ?_⟩
  · obtain ⟨rfl, rfl⟩ := only token (split ▸ by simp) amount goes
    refine ⟨steady, fun ⟨other, member, unused⟩ => absurd (done other ?_) unused⟩
    cases front with
    | nil => exact (List.cons.inj split).2 ▸ member
    | cons _ front => exact (List.cons.inj split).2 ▸ by simp [member]
  · exact iff_of_false moved (not_not.mpr ⟨next, List.mem_cons_self .., hopOut, reaches, grows⟩)
  · refine first.improves.trans (.none left.best (fun _ _ => id)) (fun route q => ?_)
    rw [or_false]
    constructor
    · rintro ⟨token, member, amount, goes, complete⟩
      obtain ⟨rfl, rfl⟩ := only token member amount goes
      exact complete
    · exact fun complete => ⟨next, List.mem_cons_self .., hopOut, reaches, complete⟩

/-- Induction on the tokens that the level has still to look at. -/
theorem visitAll_settles
    (below : ∀ next hopOut search, AtWork (path ++ [next]) search →
      Settles (SteadyFrom engine allTokens tokenOut hops (path ++ [next]) hopOut)
        (Explored (Outgrows engine allTokens tokenOut hops (path ++ [next]) hopOut search.current.places)
          (Completes engine allTokens tokenOut hops (path ++ [next]) hopOut) search)
        (dfs engine allTokens tokenOut hops hopOut search))
    (later : List Bytes) (search : Search) (atWork : AtWork path search) :
    Settles (LevelSteady engine allTokens tokenOut hops path running later)
      (Explored (LevelOutgrows engine allTokens tokenOut hops path running later (placesFor path.length))
        (LevelCompletes engine allTokens tokenOut hops path running later) search)
      (visitAll engine (dfs engine allTokens tokenOut hops) ⟨path.getLastD [], placesFor path.length⟩
        running later search) := by
  induction later generalizing search with
  | nil =>
    refine ⟨fun front token rest _ split => absurd split (by simp), rfl, rfl, Nat.le_refl _, ?_,
      .none search.best ?_⟩
    · exact iff_of_true rfl (fun ⟨_, member, _⟩ => absurd member (by simp))
    · exact fun _ _ ⟨_, member, _⟩ => absurd member (by simp)
  | cons next rest ih =>
    have skip : (∀ hopOut, ¬ Reaches engine path running next hopOut) →
        Settles (LevelSteady engine allTokens tokenOut hops path running (next :: rest))
          (Explored (LevelOutgrows engine allTokens tokenOut hops path running (next :: rest)
              (placesFor path.length))
            (LevelCompletes engine allTokens tokenOut hops path running (next :: rest)) search)
          (visitAll engine (dfs engine allTokens tokenOut hops)
            ⟨path.getLastD [], placesFor path.length⟩ running rest search) := by
      intro blocked
      refine (ih search atWork).congr
        (level_skip engine allTokens tokenOut hops path running next rest blocked search search).1
        (fun final _ explored => ?_)
      exact (level_skip engine allTokens tokenOut hops path running next rest blocked search final).2
        explored
    rw [visitAll, visit]
    by_cases used : next ∈ search.used
    · rw [if_pos used, Option.bind_some]
      exact skip (fun hopOut reaches => reaches.1 ((atWork.marked next).mp used))
    · have new : next ∉ path := fun member => used ((atWork.marked next).mpr member)
      rw [if_neg used, read_some _ _ atWork.places, Option.bind_some]
      dsimp only
      cases quoted : quoteExactIn engine (path.getLastD []) next running with
      | error message =>
        exact skip (fun hopOut reaches => absurd (quoted.symm.trans reaches.2) (by simp))
      | ok hopOut =>
        have reaches : Reaches engine path running next hopOut := ⟨new, quoted⟩
        have settles := goTo_settles engine allTokens tokenOut hops path search next hopOut atWork new
          (below next hopOut)
        change Settles _ _ (((dfs engine allTokens tokenOut hops hopOut (search.goTo next)).map
          (·.comeBack next)).bind _)
        cases outcome : (dfs engine allTokens tokenOut hops hopOut (search.goTo next)).map
            (·.comeBack next) with
        | none =>
          rw [outcome] at settles
          exact fun level => settles (level [] next rest hopOut rfl reaches).1
        | some left =>
          rw [outcome] at settles
          obtain ⟨steady, first⟩ := settles
          rw [Option.bind_some]
          by_cases stayed : left.current.places = search.current.places
          · have work : AtWork path left := ⟨first.items.trans atWork.items,
              fun token => first.used ▸ atWork.marked token, stayed.trans atWork.places⟩
            refine (ih left work).congr
              (level_onward engine allTokens tokenOut hops path running next rest hopOut search left left
                reaches steady first stayed).1 (fun final _ explored => ?_)
            exact (level_onward engine allTokens tokenOut hops path running next rest hopOut search left
              final reaches steady first stayed).2 explored
          · have moved : left.current.places ≠ placesFor path.length := fun same =>
              stayed (same.trans atWork.places.symm)
            rw [visitAll_dangling engine running _ _ rest left moved]
            by_cases remains : ∃ other ∈ rest, other ∉ left.used
            · rw [if_pos remains]
              obtain ⟨other, member, unused⟩ := remains
              have fresh : other ∉ path := fun onPath =>
                unused (first.used ▸ (atWork.marked other).mpr onPath)
              exact fun level => stayed (first.kept_iff.mpr
                ((level [] next rest hopOut rfl reaches).2 ⟨other, member, fresh⟩))
            · rw [if_neg remains]
              refine level_last engine allTokens tokenOut hops path running next rest hopOut search left
                reaches steady first stayed (fun other member => ?_)
              by_contra fresh
              exact remains ⟨other, member, fun marked =>
                fresh ((atWork.marked other).mp (first.used ▸ marked))⟩

/-- A path that is not gone on from. -/
theorem Extends.ended {further : List Bytes} {amount : UInt64}
    (reached : Extends engine allTokens tokenOut hops path running further amount)
    (ended : Arrived tokenOut path ∨ hops = 0) : further = path ∧ amount = running := by
  cases reached with
  | here => exact ⟨rfl, rfl⟩
  | hop onward => exact absurd ended (by simp [onward])

theorem SteadyFrom.ended (ended : Arrived tokenOut path ∨ hops = 0) :
    SteadyFrom engine allTokens tokenOut hops path running := by
  intro more next rest amount reached
  have lengths := congrArg List.length (reached.ended engine allTokens tokenOut hops path running ended).1
  simp only [List.length_append, List.length_cons] at lengths
  omega

theorem not_outgrows_ended (ended : Arrived tokenOut path ∨ hops = 0) :
    ¬ Outgrows engine allTokens tokenOut hops path running (placesFor path.length) := by
  rintro ⟨further, amount, reached, long⟩
  obtain ⟨rfl, -⟩ := reached.ended engine allTokens tokenOut hops path running ended
  have room := length_le_placesFor further.length
  omega

/-- A path that is gone on from, by its next tokens. -/
theorem outgrows_level (onward : ¬ Arrived tokenOut path) :
    Outgrows engine allTokens tokenOut (hops + 1) path running (placesFor path.length) ↔
      LevelOutgrows engine allTokens tokenOut hops path running allTokens (placesFor path.length) := by
  constructor
  · rintro ⟨further, amount, reached, long⟩
    cases reached with
    | here =>
      have room := length_le_placesFor path.length
      omega
    | @hop _ _ _ _ hopOut _ next _ listed new quoted deeper =>
      exact ⟨next, listed, hopOut, ⟨new, quoted⟩, further, amount, deeper, long⟩
  · rintro ⟨next, listed, hopOut, reaches, further, amount, deeper, long⟩
    exact ⟨further, amount, .hop onward listed reaches.1 reaches.2 deeper, long⟩

theorem completes_level (onward : ¬ Arrived tokenOut path) (route : List Bytes) (q : UInt64) :
    Completes engine allTokens tokenOut (hops + 1) path running route q ↔
      LevelCompletes engine allTokens tokenOut hops path running allTokens route q := by
  constructor
  · rintro ⟨reached, arrived⟩
    cases reached with
    | here => exact absurd arrived onward
    | @hop _ _ _ _ hopOut _ next _ listed new quoted deeper =>
      exact ⟨next, listed, hopOut, ⟨new, quoted⟩, deeper, arrived⟩
  · rintro ⟨next, listed, hopOut, reaches, deeper, arrived⟩
    exact ⟨.hop onward listed reaches.1 reaches.2 deeper, arrived⟩

end Level

/-- A level that goes on to no token, with the best route it leaves. -/
theorem ended_explored (engine : TokenEngine) (allTokens : List Bytes) (tokenOut : Bytes) (hops : Nat)
    (path : List Bytes) (running : UInt64) (search : Search) (best : Best)
    (ended : Arrived tokenOut path ∨ hops = 0)
    (improves : Improves (Completes engine allTokens tokenOut hops path running) search.best best) :
    Settles (SteadyFrom engine allTokens tokenOut hops path running)
      (Explored (Outgrows engine allTokens tokenOut hops path running (placesFor path.length))
        (Completes engine allTokens tokenOut hops path running) search)
      (some { search with best := best }) :=
  ⟨.ended engine allTokens tokenOut hops path running ended, rfl, rfl, Nat.le_refl _,
    iff_of_true rfl (not_outgrows_ended engine allTokens tokenOut hops path running ended), improves⟩

/-- Induction on the number of hops that are left. -/
theorem dfs_settles (engine : TokenEngine) (allTokens : List Bytes) (tokenOut : Bytes) (hops : Nat)
    (path : List Bytes) (running : UInt64) (search : Search) (atWork : AtWork path search) :
    Settles (SteadyFrom engine allTokens tokenOut hops path running)
      (Explored (Outgrows engine allTokens tokenOut hops path running search.current.places)
        (Completes engine allTokens tokenOut hops path running) search)
      (dfs engine allTokens tokenOut hops running search) := by
  induction hops generalizing path running search with
  | zero =>
    rw [dfs, Vec.back, atWork.items, atWork.places]
    dsimp only
    split
    · rename_i arrived
      refine ended_explored engine allTokens tokenOut 0 path running search _ (.inr rfl)
        (.consider _ _ _ _ fun route q => ⟨fun complete => ?_, ?_⟩)
      · exact complete.1.ended engine allTokens tokenOut 0 path running (.inr rfl)
      · rintro ⟨rfl, rfl⟩
        exact ⟨.here 0 _ _, arrived⟩
    · rename_i onward
      refine ended_explored engine allTokens tokenOut 0 path running search _ (.inr rfl) (.none _ ?_)
      rintro route q ⟨reached, arrived⟩
      obtain ⟨rfl, -⟩ := reached.ended engine allTokens tokenOut 0 path running (.inr rfl)
      exact onward arrived
  | succ hops ih =>
    rw [dfs, Vec.back, atWork.items, atWork.places]
    dsimp only
    split
    · rename_i arrived
      refine ended_explored engine allTokens tokenOut (hops + 1) path running search _ (.inl arrived)
        (.consider _ _ _ _ fun route q => ⟨fun complete => ?_, ?_⟩)
      · exact complete.1.ended engine allTokens tokenOut (hops + 1) path running (.inl arrived)
      · rintro ⟨rfl, rfl⟩
        exact ⟨.here _ _ _, arrived⟩
    · rename_i onward
      refine (visitAll_settles engine allTokens tokenOut hops path running
        (fun next hopOut search => ih (path ++ [next]) hopOut search) allTokens search
        atWork).congr (levelSteady_iff engine allTokens tokenOut hops path running onward).symm
        (fun final _ explored => ⟨explored.items, explored.used, explored.places, ?_, ?_⟩)
      · exact explored.kept_iff.trans (not_congr
          (outgrows_level engine allTokens tokenOut hops path running onward).symm)
      · exact explored.improves.trans (.none final.best (fun _ _ => id)) (fun route q =>
          (completes_level engine allTokens tokenOut hops path running onward route q).trans
            (or_false _).symm.to_iff)

end Tokens

end Addition
