import Mathlib.Data.List.TakeWhile
import Addition.Foundations.ByteStrings

/-!
# Lines and separated fields

Reading a text line by line and a line field by field, as stream extraction does it:
a field ends at its separator or at the end of the stream, a stream whose end was
hit yields nothing more, and numbers are read from the front of a field. What was
written with separators comes back exactly when the separators do not occur in what
was written; and whatever is read never contains them.

The formats are composed from these pieces by the modules that own them.
-/

namespace TextLines

open ByteStrings

/-- The octet that ends a line. -/
def newline : UInt8 := 10

/-- A line and its end. -/
def line (text : Bytes) : Bytes := text ++ [newline]

/-- The octets before the separator, and what follows it if it occurs. -/
def cutAt (separator : UInt8) : Bytes → Bytes × Option Bytes
  | [] => ([], none)
  | octet :: rest =>
    if octet = separator then ([], some rest)
    else (octet :: (cutAt separator rest).1, (cutAt separator rest).2)

/-- The next field of a stream, what is left of the stream, and whether there was one.
A stream without content left is `none`; it leaves the old value. -/
def getline (separator : UInt8) (stream : Option Bytes) (old : Bytes) :
    Bytes × Option Bytes × Bool :=
  match stream with
  | none => (old, none, false)
  | some left =>
    ((cutAt separator left).1, (cutAt separator left).2,
      (cutAt separator left).2.isSome || !left.isEmpty)

/-- The parts of a text that a separator ends. Text after the last one is a part when
there is any. -/
def splitAll (separator : UInt8) : Bytes → List Bytes
  | [] => []
  | octet :: rest =>
    if octet = separator then [] :: splitAll separator rest
    else
      match splitAll separator rest with
      | [] => [[octet]]
      | first :: others => (octet :: first) :: others

/-- The lines of a text. -/
def splitLines (text : Bytes) : List Bytes := splitAll newline text

/-- White space in the classic locale. -/
def isSpace (octet : UInt8) : Bool := octet == 32 || decide (9 ≤ octet.toNat ∧ octet.toNat ≤ 13)

/-- The number at the front of a field, as `strtoull` reads it in base ten: white space
and a sign are skipped, and the first octet that is no digit ends it. There is none
without digits or beyond 64 bits. -/
def stoull (text : Bytes) : Option UInt64 :=
  let trimmed := text.dropWhile isSpace
  let negative := trimmed.head? == some (byte '-')
  let unsigned := if negative || trimmed.head? == some (byte '+') then trimmed.tail else trimmed
  let digits := unsigned.takeWhile isDigit
  if digits.isEmpty then none
  else if 2 ^ 64 ≤ decimalValue digits then none
  else if negative then some (0 - UInt64.ofNat (decimalValue digits))
  else some (UInt64.ofNat (decimalValue digits))

/-- Octets as the characters of a message. -/
def spelled (octets : Bytes) : String :=
  String.ofList (octets.map (fun octet => Char.ofNat octet.toNat))

/-! ### Fields -/

/-- A separator that the field does not contain ends it. -/
theorem cutAt_append (separator : UInt8) (field rest : Bytes) (absent : separator ∉ field) :
    cutAt separator (field ++ separator :: rest) = (field, some rest) := by
  induction field with
  | nil => simp [cutAt]
  | cons octet others ih =>
    have other : octet ≠ separator := fun same => absent (by simp [same])
    have later := ih (fun member => absent (by simp [member]))
    rw [List.cons_append, cutAt, if_neg other, later]

/-- A field without a separator behind it is all that is left. -/
theorem cutAt_last (separator : UInt8) (field : Bytes) (absent : separator ∉ field) :
    cutAt separator field = (field, none) := by
  induction field with
  | nil => rfl
  | cons octet others ih =>
    have other : octet ≠ separator := fun same => absent (by simp [same])
    have later := ih (fun member => absent (by simp [member]))
    rw [cutAt, if_neg other, later]

/-- No field contains its separator. -/
theorem cutAt_absent (separator : UInt8) (text : Bytes) : separator ∉ (cutAt separator text).1 := by
  induction text with
  | nil => simp [cutAt]
  | cons octet rest ih =>
    unfold cutAt
    split
    · simp
    · rename_i other
      simp only [List.mem_cons, not_or]
      exact ⟨fun same => other same.symm, ih⟩

/-- What was cut off came from the text. -/
theorem cutAt_subset (separator : UInt8) (text : Bytes) :
    (∀ octet ∈ (cutAt separator text).1, octet ∈ text) ∧
      ∀ rest, (cutAt separator text).2 = some rest → ∀ octet ∈ rest, octet ∈ text := by
  induction text with
  | nil => simp [cutAt]
  | cons head tail ih =>
    obtain ⟨field, left⟩ := ih
    unfold cutAt
    split
    · simp only [List.not_mem_nil, false_implies, implies_true, Option.some.injEq, true_and]
      rintro rest rfl octet member
      exact List.mem_cons_of_mem _ member
    · refine ⟨fun octet member => ?_, fun rest found octet member => ?_⟩
      · rcases List.mem_cons.mp member with rfl | inside
        · exact List.mem_cons_self
        · exact List.mem_cons_of_mem _ (field octet inside)
      · exact List.mem_cons_of_mem _ (left rest found octet member)

theorem getline_append (separator : UInt8) (field rest old : Bytes) (absent : separator ∉ field) :
    getline separator (some (field ++ separator :: rest)) old = (field, some rest, true) := by
  simp [getline, cutAt_append separator field rest absent]

theorem getline_last (separator : UInt8) (field old : Bytes) (absent : separator ∉ field) :
    getline separator (some field) old = (field, none, !field.isEmpty) := by
  simp [getline, cutAt_last separator field absent]

/-- The octets of a stream avoid a separator. -/
def Avoids (separator : UInt8) (stream : Option Bytes) : Prop :=
  ∀ left, stream = some left → separator ∉ left

/-- Neither the field nor what is left has an octet that the stream and the old value
did not have, and the field does not have its separator. -/
theorem getline_absent (separator : UInt8) (stream : Option Bytes) (old : Bytes)
    (absent : separator ∉ old) : separator ∉ (getline separator stream old).1 := by
  cases stream with
  | none => exact absent
  | some left => exact cutAt_absent separator left

theorem getline_avoids (separator other : UInt8) (stream : Option Bytes) (old : Bytes)
    (avoids : Avoids other stream) (absent : other ∉ old) :
    other ∉ (getline separator stream old).1 ∧ Avoids other (getline separator stream old).2.1 := by
  cases stream with
  | none => exact ⟨absent, avoids⟩
  | some left =>
    have outside := avoids left rfl
    obtain ⟨field, rest⟩ := cutAt_subset separator left
    exact ⟨fun member => outside (field other member),
      fun others found member => outside (rest others found other member)⟩

/-! ### Parts and lines -/

/-- A part is split off at its separator. -/
theorem splitAll_append (separator : UInt8) (text rest : Bytes) (absent : separator ∉ text) :
    splitAll separator (text ++ separator :: rest) = text :: splitAll separator rest := by
  induction text with
  | nil => simp [splitAll]
  | cons octet others ih =>
    have other : octet ≠ separator := fun same => absent (by simp [same])
    have later := ih (fun member => absent (by simp [member]))
    rw [List.cons_append, splitAll, if_neg other, later]

/-- A text without separators is its only part. -/
theorem splitAll_last (separator : UInt8) (text : Bytes) (some : text ≠ [])
    (absent : separator ∉ text) : splitAll separator text = [text] := by
  induction text with
  | nil => exact absurd rfl some
  | cons octet rest ih =>
    have other : octet ≠ separator := fun same => absent (by simp [same])
    rw [splitAll, if_neg other]
    by_cases last : rest = []
    · rw [last, splitAll]
    · rw [ih last (fun member => absent (by simp [member]))]

/-- No part contains the separator. -/
theorem splitAll_absent (separator : UInt8) (text : Bytes) :
    ∀ found ∈ splitAll separator text, separator ∉ found := by
  induction text with
  | nil => simp [splitAll]
  | cons octet rest ih =>
    unfold splitAll
    split
    · intro found member
      rcases List.mem_cons.mp member with rfl | inside
      · simp
      · exact ih found inside
    · rename_i other
      have fresh : separator ≠ octet := fun same => other same.symm
      cases others : splitAll separator rest with
      | nil => simp [fresh]
      | cons first later =>
        rw [others] at ih
        intro found member
        rcases List.mem_cons.mp member with rfl | inside
        · simp only [List.mem_cons, not_or]
          exact ⟨fresh, ih first (by simp)⟩
        · exact ih found (by simp [inside])

/-- The parts of a text consist of its octets. -/
theorem splitAll_subset (separator : UInt8) (text : Bytes) :
    ∀ found ∈ splitAll separator text, ∀ octet ∈ found, octet ∈ text := by
  induction text with
  | nil => simp [splitAll]
  | cons head rest ih =>
    unfold splitAll
    split
    · intro found member octet inside
      rcases List.mem_cons.mp member with rfl | later
      · simp at inside
      · exact List.mem_cons_of_mem _ (ih found later octet inside)
    · cases others : splitAll separator rest with
      | nil => simp
      | cons first later =>
        rw [others] at ih
        intro found member octet inside
        rcases List.mem_cons.mp member with rfl | behind
        · rcases List.mem_cons.mp inside with rfl | within
          · exact List.mem_cons_self
          · exact List.mem_cons_of_mem _ (ih first (by simp) octet within)
        · exact List.mem_cons_of_mem _ (ih found (by simp [behind]) octet inside)

/-- Parts that are joined with the separator come back, when none is empty or contains
it. -/
theorem splitAll_intercalate (separator : UInt8) (parts : List Bytes)
    (plain : ∀ part ∈ parts, part ≠ [] ∧ separator ∉ part) :
    splitAll separator (List.intercalate [separator] parts) = parts := by
  induction parts with
  | nil => rfl
  | cons first rest ih =>
    have later := ih (fun part member => plain part (by simp [member]))
    obtain ⟨some, absent⟩ := plain first (by simp)
    cases rest with
    | nil => simpa [List.intercalate] using splitAll_last separator first some absent
    | cons second others =>
      have shape : List.intercalate [separator] (first :: second :: others) =
          first ++ separator :: List.intercalate [separator] (second :: others) := by
        simp [List.intercalate]
      rw [shape, splitAll_append separator first _ absent, later]

/-- Lines come back when none contains an end. -/
theorem splitLines_lines (lines : List Bytes) (absent : ∀ text ∈ lines, newline ∉ text) :
    splitLines (lines.flatMap line) = lines := by
  unfold splitLines
  induction lines with
  | nil => rfl
  | cons text rest ih =>
    rw [List.flatMap_cons, line, List.append_assoc, List.singleton_append,
      splitAll_append newline text _ (absent text (by simp)),
      ih (fun other member => absent other (by simp [member]))]

theorem splitLines_absent (text : Bytes) : ∀ found ∈ splitLines text, newline ∉ found :=
  splitAll_absent newline text

/-- What a text starts with starts its first line, when it contains no end. -/
theorem splitLines_starts (front rest : Bytes) (some : front ≠ []) (absent : newline ∉ front) :
    ∃ tail others, splitLines (front ++ rest) = (front ++ tail) :: others := by
  unfold splitLines
  induction front with
  | nil => exact absurd rfl some
  | cons octet front ih =>
    have other : octet ≠ newline := fun same => absent (by simp [same])
    by_cases last : front = []
    · subst last
      rw [List.singleton_append, splitAll, if_neg other]
      cases splitAll newline rest with
      | nil => exact ⟨[], [], rfl⟩
      | cons first others => exact ⟨first, others, rfl⟩
    · obtain ⟨tail, others, found⟩ :=
        ih last (fun member => absent (by simp [member]))
      refine ⟨tail, others, ?_⟩
      rw [List.cons_append, splitAll, if_neg other, found]
      rfl

/-! ### Numbers -/

theorem isSpace_of_isDigit (octet : UInt8) (digit : isDigit octet = true) : isSpace octet = false := by
  simp only [isDigit, decide_eq_true_eq] at digit
  have other : octet ≠ 32 := by
    rintro rfl
    exact absurd digit.1 (by decide)
  simp only [isSpace, Bool.or_eq_false_iff, beq_eq_false_iff_ne, ne_eq, other, not_false_eq_true,
    decide_eq_false_iff_not, true_and]
  omega

/-- What reading a decimal rendering gives. -/
theorem stoull_rendered (value : Nat) :
    stoull (decimal value) = if 2 ^ 64 ≤ value then none else some (UInt64.ofNat value) := by
  have digits := decimal_digits value
  have nonempty := decimal_ne_nil value
  have read := decimalValue_decimal value
  generalize decimal value = text at digits nonempty read
  obtain ⟨first, rest, rfl⟩ := List.exists_cons_of_ne_nil nonempty
  have front := digits first (by simp)
  have trimmed : (first :: rest).dropWhile isSpace = first :: rest := by
    simp [List.dropWhile, isSpace_of_isDigit first front]
  have whole : (first :: rest).takeWhile isDigit = first :: rest :=
    List.takeWhile_eq_self_iff.mpr digits
  have unsigned : ∀ sign, isDigit sign = false → (some first == some sign) = false := by
    intro sign other
    rw [beq_eq_false_iff_ne]
    rintro same
    rw [Option.some.inj same, other] at front
    exact Bool.noConfusion front
  have plus := unsigned (byte '+') (by decide)
  have minus := unsigned (byte '-') (by decide)
  simp only [stoull, trimmed, List.head?_cons, plus, minus, Bool.or_self, Bool.false_eq_true,
    ↓reduceIte, whole, List.isEmpty_cons, read]

/-- A decimal rendering is read back. -/
theorem stoull_decimal (value : UInt64) : stoull (decimal value.toNat) = some value := by
  have bound := value.toNat_lt
  rw [stoull_rendered, if_neg (by omega), UInt64.ofNat_toNat]

/-- A number that is read from its rendering is the number. -/
theorem stoull_decimal_some (value : Nat) (found : UInt64) (read : stoull (decimal value) = some found) :
    found.toNat = value := by
  rw [stoull_rendered] at read
  split at read
  · simp at read
  · rename_i small
    rw [← Option.some.inj read, UInt64.toNat_ofNat_of_lt' (by rw [UInt64.size]; omega)]

end TextLines
