import Addition.Foundations.Listings
import Addition.Persistence

/-!
# Lines of the engines' state files

The engines keep their state in lines of a tag and separated fields. A loader reads a fixed
number of fields from a line, the last one up to the end of the line, and changes the state
line by line. Fields come back when only the last one contains the separator and none
contains the end of a line; written items come back when each of their lines does.
-/

namespace Addition.Store

open ByteStrings FiniteTables TextLines

/-- A number of separated fields and, behind them, what is left of the line. -/
def readFields : Nat → Option Bytes → List Bytes
  | 0, stream => [(getline newline stream []).1]
  | count + 1, stream =>
    (getline bar stream []).1 :: readFields count (getline bar stream []).2.1

/-- Fields before the last without separators are read back. -/
theorem readFields_fields (texts : List Bytes) (last : Bytes) (plain : ∀ text ∈ texts, bar ∉ text)
    (whole : newline ∉ last) :
    readFields texts.length (some (fields (texts ++ [last]))) = texts ++ [last] := by
  induction texts with
  | nil => simp [readFields, fields_one, getline_last newline last [] whole]
  | cons text rest ih =>
    have first := plain text (by simp)
    have later := ih (fun other member => plain other (by simp [member]))
    obtain ⟨second, others, split⟩ : ∃ second others, rest ++ [last] = second :: others :=
      List.exists_cons_of_ne_nil (by simp)
    rw [split] at later
    rw [List.length_cons, List.cons_append, split, readFields,
      getline_fields text second others [] first, later]

/-- Change a state line by line. -/
def readLines {σ ε : Type} (step : σ → Bytes → Except ε σ) (state : σ) (lines : List Bytes) :
    Except ε σ :=
  lines.foldlM step state

variable {σ ε α : Type} (step : σ → Bytes → Except ε σ)

theorem readLines_nil (state : σ) : readLines step state [] = .ok state := rfl

theorem readLines_cons (state : σ) (text : Bytes) (rest : List Bytes) :
    readLines step state (text :: rest) = (step state text >>= fun next => readLines step next rest) := by
  simp [readLines]

theorem readLines_append (state : σ) (front rest : List Bytes) :
    readLines step state (front ++ rest) =
      (readLines step state front >>= fun next => readLines step next rest) := by
  simp [readLines, List.foldlM_append]

/-- Items whose lines are read back one by one are read back together. -/
theorem readLines_items (write : α → Bytes) (put : σ → α → σ) (items : List α) (state : σ)
    (each : ∀ state, ∀ item ∈ items, step state (write item) = .ok (put state item)) :
    readLines step state (items.map write) = .ok (items.foldl put state) := by
  induction items generalizing state with
  | nil => rfl
  | cons item rest ih =>
    rw [List.map_cons, readLines_cons, each state item (by simp)]
    exact ih _ (fun state other member => each state other (by simp [member]))

/-- Items of which each brings lines of its own. -/
theorem readLines_groups (write : α → List Bytes) (put : σ → α → σ) (items : List α) (state : σ)
    (each : ∀ state, ∀ item ∈ items, readLines step state (write item) = .ok (put state item)) :
    readLines step state (items.flatMap write) = .ok (items.foldl put state) := by
  induction items generalizing state with
  | nil => rfl
  | cons item rest ih =>
    rw [List.flatMap_cons, readLines_append, each state item (by simp)]
    exact ih _ (fun state other member => each state other (by simp [member]))

/-- What every line keeps, lines together keep. -/
theorem readLines_keeps (kept : σ → Prop) (lines : List Bytes)
    (each : ∀ state left, ∀ text ∈ lines, kept state → step state text = .ok left → kept left)
    (state left : σ) (start : kept state) (read : readLines step state lines = .ok left) :
    kept left := by
  induction lines generalizing state with
  | nil => exact Except.ok.inj read ▸ start
  | cons text rest ih =>
    rw [readLines_cons, Checked.bind_ok] at read
    obtain ⟨next, first, later⟩ := read
    refine ih (fun state left other member => each state left other (by simp [member]))
      next ?_ later
    exact each state next text (by simp) start first

end Addition.Store
