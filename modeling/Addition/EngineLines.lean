import Addition.PrivacyState

/-!
# Records in the state files of the engines

An engine writes each record as a line of a tag and fields, and reads the fields back at their
places. A record comes back when none of its fields but the last contains a bar and none has the end
of a line, and nothing else is ever read: what a loader takes from a line is of that form again.
-/

namespace Addition.Store

open ByteStrings TextLines

/-- Fields that a line can hold at their places. -/
structure CleanFields (texts : List Bytes) (last : Bytes) : Prop where
  front : ∀ text ∈ texts, PlainField text
  last : newline ∉ last

variable {last : Bytes} {texts : List Bytes}

/-- A record whose fields are clean is read back. -/
theorem CleanFields.readFields (clean : CleanFields texts last) :
    readFields texts.length (some (fields (texts ++ [last]))) = texts ++ [last] :=
  readFields_fields texts last (fun text member => (clean.front text member).bar) clean.last

/-- The line of a record whose fields are clean is one line. -/
theorem CleanFields.whole (texts : List Bytes) (clean : CleanFields texts last)
    (tag : Char) (other : byte tag ≠ newline) : newline ∉ tagLine tag (texts ++ [last]) := by
  refine tagLine_whole tag _ other fun text member => ?_
  rcases List.mem_append.mp member with inside | isLast
  · exact (clean.front text inside).newline
  · exact List.mem_singleton.mp isLast ▸ clean.last

/-- What is read from a line is clean. -/
theorem readFields_clean (count : Nat) (stream : Option Bytes) (whole : Avoids newline stream) :
    ∃ texts last, texts.length = count ∧ readFields count stream = texts ++ [last] ∧
      CleanFields texts last := by
  induction count generalizing stream with
  | zero =>
    refine ⟨[], (getline newline stream []).1, rfl, rfl, ⟨by simp, ?_⟩⟩
    exact (getline_avoids newline newline stream [] whole (by simp)).1
  | succ count ih =>
    obtain ⟨first, rest⟩ := getline_avoids bar newline stream [] whole (by simp)
    obtain ⟨texts, last, length, read, clean⟩ := ih _ rest
    refine ⟨(getline bar stream []).1 :: texts, last, by simp [length], by simp [readFields, read], ?_⟩
    refine ⟨fun text member => ?_, clean.last⟩
    rcases List.mem_cons.mp member with rfl | inside
    · exact ⟨getline_absent bar stream [] (by simp), first⟩
    · exact clean.front text inside

/-- The fields that a loader takes apart, when it takes as many as there are. -/
theorem readFields_split (texts : List Bytes) {stream : Option Bytes}
    (whole : Avoids newline stream) (read : readFields texts.length stream = texts ++ [last]) :
    CleanFields texts last := by
  obtain ⟨texts', last', -, read', clean⟩ := readFields_clean texts.length stream whole
  rw [read] at read'
  obtain ⟨rfl, same⟩ := List.append_inj' read' rfl
  exact List.singleton_injective same ▸ clean

/-! ### Tags of one character -/

/-- A line is a tag, a bar and what is loaded; any other line is passed over. -/
def readTagged {σ ε : Type} (load : σ → UInt8 → Bytes → Except ε σ) (state : σ) (text : Bytes) :
    Except ε σ :=
  match text with
  | tag :: separator :: content => if separator = bar then load state tag content else .ok state
  | _ => .ok state

theorem readTagged_tagLine {σ ε : Type} (load : σ → UInt8 → Bytes → Except ε σ) (state : σ) (tag : Char)
    (texts : List Bytes) :
    readTagged load state (tagLine tag texts) = load state (byte tag) (fields texts) := by
  simp [readTagged, tagLine]

/-- What the content of a line keeps, the line keeps. -/
theorem readTagged_keeps {σ ε : Type} {load : σ → UInt8 → Bytes → Except ε σ} {kept : σ → Prop}
    (keeps : ∀ state left tag content, newline ∉ content → kept state →
      load state tag content = .ok left → kept left) {state left : σ} {text : Bytes}
    (whole : newline ∉ text) (start : kept state) (read : readTagged load state text = .ok left) :
    kept left := by
  unfold readTagged at read
  split at read
  · rename_i tag separator content
    split at read
    · exact keeps state left tag content (fun inside => whole (by simp [inside])) start read
    · exact Except.ok.inj read ▸ start
  · exact Except.ok.inj read ▸ start

theorem avoids_whole {content : Bytes} (whole : newline ∉ content) : Avoids newline (some content) :=
  fun _ same => Option.some.inj same ▸ whole

/-- What is left of a stream behind some fields. -/
def behindFields : Nat → Option Bytes → Option Bytes
  | 0, stream => stream
  | count + 1, stream => behindFields count (getline bar stream []).2.1

/-- The last field, which keeps its old value when nothing is left to be read. -/
def lastOr (count : Nat) (stream : Option Bytes) (old last : Bytes) : Bytes :=
  if (behindFields count stream).isSome then last else old

theorem CleanFields.lastOr (clean : CleanFields texts last) (old : Bytes) :
    lastOr texts.length (some (fields (texts ++ [last]))) old last = last := by
  have left : behindFields texts.length (some (fields (texts ++ [last]))) = some last := by
    obtain ⟨front, -⟩ := clean
    induction texts with
    | nil => simp [behindFields, fields_one]
    | cons text rest ih =>
      have later := ih (fun other member => front other (by simp [member]))
      obtain ⟨second, others, split⟩ : ∃ second others, rest ++ [last] = second :: others :=
        List.exists_cons_of_ne_nil (by simp)
      rw [split] at later
      rw [List.length_cons, List.cons_append, split, behindFields,
        getline_fields text second others [] (front text (by simp)).bar, later]
  rw [Store.lastOr, left]
  rfl

/-- A number that cannot be read throws. -/
def readNumber (text : Bytes) : Except String UInt64 :=
  match stoull text with
  | none => .error "stoull"
  | some value => .ok value

@[simp] theorem readNumber_number (value : UInt64) : readNumber (number value) = .ok value := by
  rw [readNumber, number, stoull_decimal]

theorem plain_number (value : UInt64) : PlainField (number value) := plain_decimal _

/-! ### Signed numbers -/

/-- `std::stoll`. -/
def stoll (text : Bytes) : Option Int64 :=
  let trimmed := text.dropWhile isSpace
  let negative := trimmed.head? == some (byte '-')
  let unsigned := if negative || trimmed.head? == some (byte '+') then trimmed.tail else trimmed
  let digits := unsigned.takeWhile isDigit
  if digits.isEmpty then none
  else if negative then
    if 2 ^ 63 < decimalValue digits then none else some (Int64.ofInt (-decimalValue digits))
  else if 2 ^ 63 ≤ decimalValue digits then none
  else some (Int64.ofInt (decimalValue digits))

theorem takeWhile_decimal (value : Nat) : (decimal value).takeWhile isDigit = decimal value :=
  List.takeWhile_eq_self_iff.mpr (decimal_digits value)

/-- The first digit of a number is neither a space nor a sign. -/
theorem decimal_head (value : Nat) : ∃ first rest, decimal value = first :: rest ∧
    isDigit first = true := by
  obtain ⟨first, rest, shape⟩ := List.exists_cons_of_ne_nil (decimal_ne_nil value)
  exact ⟨first, rest, shape, decimal_digits value first (by simp [shape])⟩

theorem stoll_natural (value : Nat) (small : value < 2 ^ 63) :
    stoll (decimal value) = some (Int64.ofInt value) := by
  obtain ⟨first, rest, shape, digit⟩ := decimal_head value
  have trimmed : (decimal value).dropWhile isSpace = decimal value := by
    rw [shape]
    simp [List.dropWhile, isSpace_of_isDigit first digit]
  have unsigned : ∀ sign, isDigit sign = false → ((decimal value).head? == some sign) = false := by
    intro sign other
    rw [shape, List.head?_cons, beq_eq_false_iff_ne]
    rintro same
    rw [Option.some.inj same, other] at digit
    exact nomatch digit
  unfold stoll
  simp only [trimmed, unsigned (byte '-') (by decide), unsigned (byte '+') (by decide), Bool.or_self,
    Bool.false_eq_true, ↓reduceIte, takeWhile_decimal, decimalValue_decimal]
  rw [if_neg (by simpa using decimal_ne_nil value), if_neg (by omega)]

theorem stoll_negative (value : Nat) (small : value ≤ 2 ^ 63) :
    stoll (byte '-' :: decimal value) = some (Int64.ofInt (-value)) := by
  have trimmed : (byte '-' :: decimal value).dropWhile isSpace = byte '-' :: decimal value := by
    simp [List.dropWhile, show isSpace (byte '-') = false by decide]
  unfold stoll
  simp only [trimmed, List.head?_cons, BEq.rfl, Bool.true_or, ↓reduceIte, List.tail_cons,
    takeWhile_decimal, decimalValue_decimal]
  rw [if_neg (by simpa using decimal_ne_nil value), if_neg (by omega)]

end Addition.Store
