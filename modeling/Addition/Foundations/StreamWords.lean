import Addition.Foundations.TextLines

/-!
# Words and numbers of a stream

Formatted extraction skips white space and takes the octets of a word up to the next white
space, or the digits of a number. A stream without a word fails and leaves the variable alone; a
number without digits is zero, and one beyond the width of its type is the greatest of the type,
and both fail. Spaceless words and numbers that fit are read back from what was written.
-/

namespace StreamWords

open ByteStrings TextLines

/-- A text without white space. -/
def Spaceless (text : Bytes) : Prop := ∀ octet ∈ text, isSpace octet = false

/-- The next word of a stream and what follows it. -/
def word (stream : Bytes) : Option (Bytes × Bytes) :=
  let trimmed := stream.dropWhile isSpace
  if trimmed.isEmpty then none
  else some (trimmed.takeWhile (fun octet => !isSpace octet),
    trimmed.dropWhile (fun octet => !isSpace octet))

/-- All words of a stream. -/
def words : Bytes → List Bytes
  | [] => []
  | octet :: rest =>
    if isSpace octet then words rest
    else if (rest.head?.map isSpace).getD true then [octet] :: words rest
    else
      match words rest with
      | [] => [[octet]]
      | first :: others => (octet :: first) :: others

/-- A number that was extracted, whether the stream is still good, and what follows. -/
structure Extracted where
  value : Nat
  good : Bool
  rest : Bytes

/-- The number in the digits at the front of a text, behind a sign. -/
def magnitude (bits : Nat) (negative : Bool) (text : Bytes) : Extracted :=
  let digits := text.takeWhile isDigit
  let rest := text.dropWhile isDigit
  if digits.isEmpty then ⟨0, false, rest⟩
  else if 2 ^ bits ≤ decimalValue digits then ⟨2 ^ bits - 1, false, rest⟩
  else if negative then ⟨(2 ^ bits - decimalValue digits) % 2 ^ bits, true, rest⟩
  else ⟨decimalValue digits, true, rest⟩

/-- The next unsigned number of some bits. A stream without one leaves what was there. -/
def number (bits : Nat) (stream : Bytes) (old : Nat) : Extracted :=
  match stream.dropWhile isSpace with
  | [] => ⟨old, false, []⟩
  | first :: rest =>
    if first = byte '-' then magnitude bits true rest
    else if first = byte '+' then magnitude bits false rest
    else magnitude bits false (first :: rest)

/-- The next word, or what was there. -/
def wordOr (stream old : Bytes) : Bytes := ((word stream).map Prod.fst).getD old

/-! ### Spaceless texts -/

theorem spaceless_nil : Spaceless [] := by simp [Spaceless]

variable {text : Bytes}

/-- A text whose octets were checked one by one. -/
theorem spaceless_of_all (checked : text.all (fun octet => !isSpace octet) = true) :
    Spaceless text := by
  simpa [Spaceless] using checked

theorem Spaceless.append {left right : Bytes} (first : Spaceless left) (second : Spaceless right) :
    Spaceless (left ++ right) := by
  intro octet member
  rcases List.mem_append.mp member with front | back
  · exact first octet front
  · exact second octet back

theorem newline_of_spaceless (plain : Spaceless text) : newline ∉ text := by
  intro member
  exact absurd (plain newline member) (by decide)

/-! ### What is read -/

theorem word_spaceless (stream found rest : Bytes) (read : word stream = some (found, rest)) :
    Spaceless found ∧ found ≠ [] := by
  simp only [word, Option.ite_none_left_eq_some, Option.some.injEq, Prod.mk.injEq] at read
  obtain ⟨some, rfl, _⟩ := read
  refine ⟨fun octet member => ?_, ?_⟩
  · have passes := List.mem_takeWhile_imp member
    simpa using passes
  · cases trimmed : stream.dropWhile isSpace with
    | nil => simp [trimmed] at some
    | cons octet rest =>
      have first : isSpace octet = false := by
        have head := List.head_dropWhile_not isSpace (l := stream) (by simp [trimmed])
        simpa [trimmed] using head
      simp [first]

theorem wordOr_spaceless (stream old : Bytes) (plain : Spaceless old) :
    Spaceless (wordOr stream old) := by
  unfold wordOr
  cases read : word stream with
  | none => exact plain
  | some found => exact (word_spaceless stream found.1 found.2 read).1

theorem magnitude_lt (bits : Nat) (negative : Bool) (text : Bytes) :
    (magnitude bits negative text).value < 2 ^ bits := by
  have positive : 0 < 2 ^ bits := Nat.two_pow_pos bits
  simp only [magnitude]
  split
  · exact positive
  split
  · exact Nat.sub_lt positive Nat.one_pos
  split
  · exact Nat.mod_lt _ positive
  · rename_i fits _
    exact Nat.not_le.mp fits

theorem number_lt (bits : Nat) (stream : Bytes) (old : Nat) (small : old < 2 ^ bits) :
    (number bits stream old).value < 2 ^ bits := by
  unfold number
  split
  · exact small
  split
  · exact magnitude_lt ..
  split
  · exact magnitude_lt ..
  · exact magnitude_lt ..

/-! ### What was written -/

theorem word_skip (octet : UInt8) (stream : Bytes) (space : isSpace octet = true) :
    word (octet :: stream) = word stream := by
  simp [word, space]

theorem number_skip (bits : Nat) (octet : UInt8) (stream : Bytes) (old : Nat)
    (space : isSpace octet = true) : number bits (octet :: stream) old = number bits stream old := by
  simp [number, space]

theorem dropWhile_spaceless (plain : Spaceless text) (some : text ≠ [])
    (rest : Bytes) : (text ++ rest).dropWhile isSpace = text ++ rest := by
  obtain ⟨octet, tail, rfl⟩ := List.exists_cons_of_ne_nil some
  have first := plain octet (List.mem_cons_self ..)
  simp [first]

/-- A word ends at white space. -/
theorem word_space (plain : Spaceless text) (some : text ≠ []) (octet : UInt8)
    (space : isSpace octet = true) (rest : Bytes) :
    word (text ++ octet :: rest) = .some (text, octet :: rest) := by
  have passes : ∀ tested ∈ text, (!isSpace tested) = true := by
    intro tested member
    rw [plain tested member]
    rfl
  have stops : (!isSpace octet) = false := by rw [space]; rfl
  simp only [word, dropWhile_spaceless plain some]
  rw [List.takeWhile_append_of_pos passes, List.dropWhile_append_of_pos passes,
    List.takeWhile_cons, List.dropWhile_cons, stops]
  simp [some]

/-- A word ends at the end of the stream. -/
theorem word_last (plain : Spaceless text) (some : text ≠ []) :
    word text = .some (text, []) := by
  have passes : ∀ tested ∈ text, (!isSpace tested) = true := by
    intro tested member
    rw [plain tested member]
    rfl
  have whole := dropWhile_spaceless plain some []
  rw [List.append_nil] at whole
  simp only [word, whole]
  rw [List.takeWhile_eq_self_iff.mpr passes, List.dropWhile_eq_nil_iff.mpr passes]
  simp [some]

/-- The words of a stream are extracted one after the other. -/
theorem words_eq (stream : Bytes) :
    words stream = match word stream with
      | none => []
      | some (found, rest) => found :: words rest := by
  induction stream with
  | nil => rfl
  | cons octet rest ih =>
    by_cases space : isSpace octet = true
    · rw [word_skip octet rest space, ← ih]
      simp [words, space]
    · have plain : isSpace octet = false := by simpa using space
      cases rest with
      | nil => simp [words, word, plain]
      | cons next later =>
        by_cases ends : isSpace next = true
        · simp [words, word, plain, ends]
        · have goes : isSpace next = false := by simpa using ends
          simp only [word, goes, List.dropWhile_cons, List.takeWhile_cons, Bool.not_false,
            Bool.false_eq_true, ↓reduceIte, List.isEmpty_cons] at ih
          simp only [words, word, plain, goes, List.head?_cons, Option.map_some, Option.getD_some,
            List.dropWhile_cons, List.takeWhile_cons, Bool.not_false, Bool.false_eq_true,
            ↓reduceIte, List.isEmpty_cons] at ih ⊢
          rw [ih]

theorem words_skip (octet : UInt8) (stream : Bytes) (space : isSpace octet = true) :
    words (octet :: stream) = words stream := by
  simp [words, space]

/-- A spaceless text before white space is a word. -/
theorem words_text (plain : Spaceless text) (some : text ≠ []) (octet : UInt8)
    (space : isSpace octet = true) (rest : Bytes) :
    words (text ++ octet :: rest) = text :: words rest := by
  rw [words_eq, word_space plain some octet space]
  exact congrArg (text :: ·) (words_skip octet rest space)

/-- A word behind a space, also when it is empty. -/
theorem wordOr_space (plain : Spaceless text) (old : Bytes) (octet : UInt8)
    (space : isSpace octet = true) :
    wordOr (octet :: text) old = if text = [] then old else text := by
  unfold wordOr
  rw [word_skip octet text space]
  split
  · rename_i empty
    rw [empty]
    rfl
  · rename_i some
    rw [word_last plain some]
    rfl

theorem decimal_spaceless (value : Nat) : Spaceless (decimal value) :=
  fun octet member => isSpace_of_isDigit octet (decimal_digits value octet member)

/-- A number that fits comes back, and what follows its digits is left. -/
theorem number_decimal (bits value : Nat) (small : value < 2 ^ bits) (rest : Bytes) (old : Nat)
    (ends : rest = [] ∨ ∃ octet tail, rest = octet :: tail ∧ isDigit octet = false) :
    number bits (decimal value ++ rest) old = ⟨value, true, rest⟩ := by
  have some := decimal_ne_nil value
  obtain ⟨first, others, shape⟩ := List.exists_cons_of_ne_nil some
  have digit : isDigit first = true := decimal_digits value first (by simp [shape])
  have sign : first ≠ byte '-' ∧ first ≠ byte '+' := by
    constructor <;> rintro rfl <;> exact absurd digit (by decide)
  have stops : rest.takeWhile isDigit = [] ∧ rest.dropWhile isDigit = rest := by
    rcases ends with rfl | ⟨octet, tail, rfl, other⟩
    · exact ⟨rfl, rfl⟩
    · simp [other]
  have digits : (decimal value ++ rest).takeWhile isDigit = decimal value := by
    rw [List.takeWhile_append_of_pos (decimal_digits value), stops.1, List.append_nil]
  have left : (decimal value ++ rest).dropWhile isDigit = rest := by
    rw [List.dropWhile_append_of_pos (decimal_digits value), stops.2]
  have read : magnitude bits false (decimal value ++ rest) = ⟨value, true, rest⟩ := by
    simp [magnitude, digits, left, some, decimalValue_decimal, Nat.not_le.mpr small]
  have whole := dropWhile_spaceless (decimal_spaceless value) some rest
  rw [shape, List.cons_append] at read whole ⊢
  simp only [number, whole, sign.1, sign.2, if_false, read]

end StreamWords
