import Mathlib.Data.List.Basic
import Mathlib.Tactic.IntervalCases

/-!
# Byte strings and their textual renderings

A byte string is a list of octets, as in a language whose strings carry no
encoding. Decimal, hexadecimal and little-endian renderings are total functions
on natural numbers and byte strings; each has a left inverse and a statement of
the octets it can produce. The cutting laws recover the parts of a concatenation
from a separator that one side cannot contain.

Nothing here fixes a format: the formats are composed from these pieces by the
modules that own them.
-/

namespace ByteStrings

/-- Octets without an encoding. -/
abbrev Bytes := List UInt8

/-- Under a name of its own, so that tests of membership are the same terms in all modules. -/
instance : LawfulBEq Bytes := inferInstance

/-- One octet of a character below 256. -/
def byte (character : Char) : UInt8 := UInt8.ofNat character.toNat

/-- A literal, octet by octet. -/
def ascii (text : String) : Bytes := text.toList.map byte

/-- The octets '0' to '9'. -/
def isDigit (octet : UInt8) : Bool := decide (48 ≤ octet.toNat ∧ octet.toNat ≤ 57)

/-- The octets '0' to '9' and 'a' to 'f'. -/
def isLowerHex (octet : UInt8) : Bool :=
  isDigit octet || decide (97 ≤ octet.toNat ∧ octet.toNat ≤ 102)

/-- The octets '0' to '9', 'a' to 'f' and 'A' to 'F'. -/
def isHex (octet : UInt8) : Bool :=
  isLowerHex octet || decide (65 ≤ octet.toNat ∧ octet.toNat ≤ 70)

theorem isLowerHex_of_isDigit (octet : UInt8) (digit : isDigit octet = true) :
    isLowerHex octet = true := by
  simp [isLowerHex, digit]

theorem isHex_of_isLowerHex (octet : UInt8) (lower : isLowerHex octet = true) :
    isHex octet = true := by
  simp [isHex, lower]

/-! ### Cutting a concatenation -/

/-- A separator absent from both left parts cuts a concatenation at one place. -/
theorem cut_first {α : Type} (separator : α) (left left' right right' : List α)
    (absent : separator ∉ left) (absent' : separator ∉ left')
    (same : left ++ separator :: right = left' ++ separator :: right') :
    left = left' ∧ right = right' := by
  induction left generalizing left' with
  | nil =>
    cases left' with
    | nil => simpa using same
    | cons first rest =>
      have equal : separator = first := (List.cons.inj same).1
      exact absurd (by simp [equal]) absent'
  | cons head tail ih =>
    cases left' with
    | nil =>
      have equal : head = separator := (List.cons.inj same).1
      exact absurd (by simp [equal]) absent
    | cons first rest =>
      obtain ⟨equal, remaining⟩ := List.cons.inj same
      have tailAbsent : separator ∉ tail := fun member => absent (by simp [member])
      have restAbsent : separator ∉ rest := fun member => absent' (by simp [member])
      obtain ⟨sameTail, sameRight⟩ := ih rest tailAbsent restAbsent remaining
      exact ⟨by rw [equal, sameTail], sameRight⟩

/-- The mirror image: a separator absent from both right parts. -/
theorem cut_last {α : Type} (separator : α) (left left' right right' : List α)
    (absent : separator ∉ right) (absent' : separator ∉ right')
    (same : left ++ separator :: right = left' ++ separator :: right') :
    left = left' ∧ right = right' := by
  have reversed : right.reverse ++ separator :: left.reverse =
      right'.reverse ++ separator :: left'.reverse := by
    simpa using congrArg List.reverse same
  obtain ⟨sameRight, sameLeft⟩ := cut_first separator _ _ _ _ (by simpa using absent)
    (by simpa using absent') reversed
  exact ⟨List.reverse_injective sameLeft, List.reverse_injective sameRight⟩

/-- Parts of known equal width are equal. -/
theorem cut_width {α : Type} (left left' right right' : List α)
    (width : left.length = left'.length) (same : left ++ right = left' ++ right') :
    left = left' ∧ right = right' :=
  List.append_inj same width

/-- Blocks of one width, none of which starts with the closing octet, are read off
one by one up to it. -/
theorem cut_blocks {α β : Type} (render : α → List β) (width : Nat) (close : β)
    (positive : 0 < width) (sized : ∀ item, (render item).length = width)
    (opens : ∀ item, (render item).head? ≠ some close) (items items' : List α)
    (right right' : List β)
    (same : items.flatMap render ++ close :: right = items'.flatMap render ++ close :: right') :
    items.map render = items'.map render ∧ right = right' := by
  have apart : ∀ item (rest rest' : List β), close :: rest ≠ render item ++ rest' := by
    intro item rest rest' equal
    obtain ⟨first, others, spelled⟩ := List.exists_cons_of_length_pos (sized item ▸ positive)
    rw [spelled] at equal
    exact opens item (by simp [spelled, (List.cons.inj equal).1])
  induction items generalizing items' with
  | nil =>
    cases items' with
    | nil => exact ⟨rfl, by simpa using same⟩
    | cons item rest =>
      rw [List.flatMap_nil, List.nil_append, List.flatMap_cons, List.append_assoc] at same
      exact absurd same (apart item _ _)
  | cons item rest ih =>
    cases items' with
    | nil =>
      rw [List.flatMap_nil, List.nil_append, List.flatMap_cons, List.append_assoc] at same
      exact absurd same.symm (apart item _ _)
    | cons item' rest' =>
      rw [List.flatMap_cons, List.flatMap_cons, List.append_assoc, List.append_assoc] at same
      obtain ⟨head, tail⟩ := cut_width _ _ _ _ ((sized item).trans (sized item').symm) same
      obtain ⟨others, rights⟩ := ih rest' tail
      exact ⟨by rw [List.map_cons, List.map_cons, head, others], rights⟩

/-- As many blocks on both sides, each of which is read off the front, are equal. -/
theorem cut_counted {α β : Type} (render : α → List β) (items items' : List α)
    (count : items.length = items'.length)
    (cuts : ∀ item ∈ items, ∀ item' ∈ items', ∀ rest rest',
      render item ++ rest = render item' ++ rest' → item = item' ∧ rest = rest')
    (right right' : List β)
    (same : items.flatMap render ++ right = items'.flatMap render ++ right') :
    items = items' ∧ right = right' := by
  induction items generalizing items' with
  | nil =>
    obtain rfl : items' = [] := List.length_eq_zero_iff.mp count.symm
    exact ⟨rfl, same⟩
  | cons item rest ih =>
    cases items' with
    | nil => simp at count
    | cons item' rest' =>
      rw [List.flatMap_cons, List.flatMap_cons, List.append_assoc, List.append_assoc] at same
      obtain ⟨head, tail⟩ := cuts item (by simp) item' (by simp) _ _ same
      obtain ⟨others, rights⟩ := ih rest' (by simpa using count)
        (fun first member other member' => cuts first (by simp [member]) other (by simp [member']))
        tail
      exact ⟨by rw [head, others], rights⟩

/-! ### Decimal numbers -/

/-- The decimal rendering without leading zeros. -/
def decimal (value : Nat) : Bytes := (Nat.toDigits 10 value).map byte

/-- Read a digit string, most significant digit first. -/
def decimalValue (digits : Bytes) : Nat :=
  digits.foldl (fun total digit => 10 * total + (digit.toNat - 48)) 0

theorem byte_toNat (character : Char) (digit : character.isDigit = true) :
    (byte character).toNat = character.toNat := by
  have bound : character.toNat ≤ 57 := (Char.isDigit_iff_toNat.mp digit).2
  simp only [byte, UInt8.toNat_ofNat']
  omega

/-- A decimal rendering has digits only. -/
theorem decimal_digits (value : Nat) (octet : UInt8) (member : octet ∈ decimal value) :
    isDigit octet = true := by
  obtain ⟨character, present, rfl⟩ := List.mem_map.mp member
  have digit : character.isDigit = true :=
    Nat.isDigit_of_mem_toDigits (by decide) (by decide) present
  have bounds : 48 ≤ character.toNat ∧ character.toNat ≤ 57 := Char.isDigit_iff_toNat.mp digit
  simpa [isDigit, byte_toNat character digit] using bounds

theorem decimal_ne_nil (value : Nat) : decimal value ≠ [] := by
  simp [decimal]

/-- Reading a rendering gives the number back. -/
theorem decimalValue_decimal (value : Nat) : decimalValue (decimal value) = value := by
  have agree : ∀ (characters : List Char) (start : Nat),
      (∀ character ∈ characters, character.isDigit = true) →
      (characters.map byte).foldl (fun total digit => 10 * total + (digit.toNat - 48)) start =
        Nat.ofDigitChars 10 characters start := by
    intro characters
    induction characters with
    | nil => intro start _; simp
    | cons first rest ih =>
      intro start digits
      have value := byte_toNat first (digits first (by simp))
      have tail : ∀ character ∈ rest, character.isDigit = true := fun character member =>
        digits character (by simp [member])
      rw [List.map_cons, List.foldl_cons, value, ih _ tail,
        Nat.ofDigitChars_cons]
      rfl
  have digits : ∀ character ∈ Nat.toDigits 10 value, character.isDigit = true :=
    fun character member => Nat.isDigit_of_mem_toDigits (by decide) (by decide) member
  rw [decimalValue, decimal, agree _ 0 digits, Nat.ofDigitChars_ten_toDigits]

theorem decimal_injective (value value' : Nat) (same : decimal value = decimal value') :
    value = value' := by
  rw [← decimalValue_decimal value, same, decimalValue_decimal]

/-- A separator that is no digit does not occur in a rendering. -/
theorem not_mem_decimal (value : Nat) (separator : UInt8) (other : isDigit separator = false) :
    separator ∉ decimal value := by
  intro member
  have digit := decimal_digits value separator member
  simp [other] at digit

/-- A number followed by a separator that is no digit is read in one way. -/
theorem cut_decimal (separator : UInt8) (value value' : Nat) (right right' : Bytes)
    (other : isDigit separator = false)
    (same : decimal value ++ separator :: right = decimal value' ++ separator :: right') :
    value = value' ∧ right = right' := by
  obtain ⟨sameDigits, sameRight⟩ := cut_first separator _ _ _ _
    (not_mem_decimal value separator other) (not_mem_decimal value' separator other) same
  exact ⟨decimal_injective _ _ sameDigits, sameRight⟩

/-! ### Hexadecimal strings -/

/-- The lowercase digit of a value below sixteen. -/
def hexDigit (value : Nat) : UInt8 :=
  UInt8.ofNat (if value < 10 then 48 + value else 87 + value)

/-- Two lowercase digits per octet, high nibble first. -/
def toHex (octets : Bytes) : Bytes :=
  octets.flatMap (fun octet => [hexDigit (octet.toNat / 16), hexDigit (octet.toNat % 16)])

/-- The value of a hexadecimal digit of either case. -/
def nibble (digit : UInt8) : Nat :=
  if digit.toNat ≤ 57 then digit.toNat - 48
  else if digit.toNat ≤ 70 then digit.toNat - 55
  else digit.toNat - 87

/-- Join digit pairs; an odd last digit is dropped. -/
def fromHex : Bytes → Bytes
  | high :: low :: rest => UInt8.ofNat (16 * nibble high + nibble low) :: fromHex rest
  | _ => []

@[simp] theorem toHex_nil : toHex [] = [] := rfl

@[simp] theorem toHex_cons (octet : UInt8) (rest : Bytes) :
    toHex (octet :: rest) =
      hexDigit (octet.toNat / 16) :: hexDigit (octet.toNat % 16) :: toHex rest := rfl

theorem hexDigit_toNat (value : Nat) (bound : value < 16) :
    (hexDigit value).toNat = if value < 10 then 48 + value else 87 + value := by
  simp only [hexDigit, UInt8.toNat_ofNat']
  split <;> omega

theorem hexDigit_lower (value : Nat) (bound : value < 16) :
    isLowerHex (hexDigit value) = true := by
  simp only [isLowerHex, isDigit, hexDigit_toNat value bound, Bool.or_eq_true, decide_eq_true_eq]
  split <;> omega

theorem nibble_hexDigit (value : Nat) (bound : value < 16) : nibble (hexDigit value) = value := by
  simp only [nibble, hexDigit_toNat value bound]
  split <;> split <;> (try split) <;> omega

@[simp] theorem toHex_length (octets : Bytes) : (toHex octets).length = 2 * octets.length := by
  induction octets with
  | nil => rfl
  | cons octet rest ih => simp [ih]; omega

theorem toHex_lower (octets : Bytes) (digit : UInt8) (member : digit ∈ toHex octets) :
    isLowerHex digit = true := by
  obtain ⟨octet, _, pair⟩ := List.mem_flatMap.mp member
  have bound := octet.toNat_lt
  simp only [List.mem_cons, List.not_mem_nil, or_false] at pair
  rcases pair with rfl | rfl
  · exact hexDigit_lower _ (by omega)
  · exact hexDigit_lower _ (by omega)

/-- Joining the digit pairs of a rendering gives the octets back. -/
theorem fromHex_toHex (octets : Bytes) : fromHex (toHex octets) = octets := by
  induction octets with
  | nil => rfl
  | cons octet rest ih =>
    have bound := octet.toNat_lt
    have joined : 16 * (octet.toNat / 16) + octet.toNat % 16 = octet.toNat := by omega
    rw [toHex_cons, fromHex, nibble_hexDigit _ (by omega), nibble_hexDigit _ (by omega),
      joined, ih, UInt8.ofNat_toNat]

theorem toHex_injective (octets octets' : Bytes) (same : toHex octets = toHex octets') :
    octets = octets' := by
  rw [← fromHex_toHex octets, same, fromHex_toHex]

theorem hexDigit_nibble (digit : UInt8) (lower : isLowerHex digit = true) :
    hexDigit (nibble digit) = digit ∧ nibble digit < 16 := by
  simp only [isLowerHex, isDigit, Bool.or_eq_true, decide_eq_true_eq] at lower
  have bound : nibble digit < 16 := by
    simp only [nibble]
    split <;> (try split) <;> omega
  refine ⟨?_, bound⟩
  apply UInt8.toNat_inj.mp
  rw [hexDigit_toNat _ bound]
  simp only [nibble]
  split <;> split <;> (try split) <;> omega

/-- An even lowercase string is the rendering of its joined digits. -/
theorem toHex_fromHex (digits : Bytes) (even : digits.length % 2 = 0)
    (lower : ∀ digit ∈ digits, isLowerHex digit = true) : toHex (fromHex digits) = digits := by
  induction digits using fromHex.induct with
  | case1 high low rest ih =>
    obtain ⟨sameHigh, highBound⟩ := hexDigit_nibble high (lower high (by simp))
    obtain ⟨sameLow, lowBound⟩ := hexDigit_nibble low (lower low (by simp))
    have tail := ih (by simp only [List.length_cons] at even; omega)
      (fun digit member => lower digit (by simp [member]))
    have value : (UInt8.ofNat (16 * nibble high + nibble low)).toNat =
        16 * nibble high + nibble low := by
      simp only [UInt8.toNat_ofNat']
      omega
    have quotient : (16 * nibble high + nibble low) / 16 = nibble high := by omega
    have remainder : (16 * nibble high + nibble low) % 16 = nibble low := by omega
    rw [fromHex, toHex_cons, value, quotient, remainder, sameHigh, sameLow, tail]
  | case2 digits short =>
    match digits with
    | [] => rfl
    | [_] => simp at even
    | high :: low :: rest => exact absurd rfl (short high low rest)

theorem fromHex_length (digits : Bytes) : (fromHex digits).length = digits.length / 2 := by
  induction digits using fromHex.induct with
  | case1 high low rest ih =>
    simp only [fromHex, List.length_cons, ih]
    omega
  | case2 digits short =>
    match digits with
    | [] => rfl
    | [_] => simp [fromHex]
    | high :: low :: rest => exact absurd rfl (short high low rest)

/-! ### Little-endian words -/

/-- The low octets of a number, least significant first. -/
def leBytes : Nat → Nat → Bytes
  | 0, _ => []
  | width + 1, value => UInt8.ofNat (value % 256) :: leBytes width (value / 256)

/-- The number a little-endian string denotes. -/
def leValue : Bytes → Nat
  | [] => 0
  | octet :: rest => octet.toNat + 256 * leValue rest

@[simp] theorem leBytes_length (width value : Nat) : (leBytes width value).length = width := by
  induction width generalizing value with
  | zero => rfl
  | succ width ih => simp [leBytes, ih]

/-- Reading the octets of a number gives it back modulo the width. -/
theorem leValue_leBytes (width value : Nat) :
    leValue (leBytes width value) = value % 256 ^ width := by
  induction width generalizing value with
  | zero => simp [leBytes, leValue, Nat.mod_one]
  | succ width ih =>
    have octet : (UInt8.ofNat (value % 256)).toNat = value % 256 := by
      simp only [UInt8.toNat_ofNat']
      omega
    rw [leBytes, leValue, octet, ih, Nat.pow_succ, Nat.mul_comm (256 ^ width) 256,
      Nat.mod_mul]

/-- A string of one width is the rendering of its value. -/
theorem leBytes_leValue (octets : Bytes) : leBytes octets.length (leValue octets) = octets := by
  induction octets with
  | nil => rfl
  | cons octet rest ih =>
    have bound := octet.toNat_lt
    have low : (octet.toNat + 256 * leValue rest) % 256 = octet.toNat := by omega
    have high : (octet.toNat + 256 * leValue rest) / 256 = leValue rest := by omega
    rw [List.length_cons, leBytes, leValue, low, high, ih, UInt8.ofNat_toNat]

theorem leValue_lt (octets : Bytes) : leValue octets < 256 ^ octets.length := by
  induction octets with
  | nil => simp [leValue]
  | cons octet rest ih =>
    have bound := octet.toNat_lt
    simp only [leValue, List.length_cons, Nat.pow_succ]
    omega

end ByteStrings
