import Addition.Scripts
import Addition.Foundations.TextLines

/-!
# Texts of scripts and of witnesses

The text of a syntax tree and what makes it readable: the parser gives the tree back, and
a decoder gives back the witness of one signature that carries the text. A witness
authorizes a spend when its script evaluates to true and each of its items was used.
-/

namespace Addition.Script

open ByteStrings Checked

/-! ### The text of a tree -/

/-- The text of a tree. -/
def Node.text : Node → Bytes
  | .pk address => ascii "pk" ++ byte '(' :: (address ++ [byte ')'])
  | .sha3 digest => ascii "sha3" ++ byte '(' :: (digest ++ [byte ')'])
  | .after height => ascii "after" ++ byte '(' :: (decimal height ++ [byte ')'])
  | .older blocks => ascii "older" ++ byte '(' :: (decimal blocks ++ [byte ')'])
  | .and a b => ascii "and" ++ byte '(' :: (a.text ++ byte ',' :: (b.text ++ [byte ')']))
  | .or a b => ascii "or" ++ byte '(' :: (a.text ++ byte ',' :: (b.text ++ [byte ')']))

/-- The nodes of a tree. -/
def Node.size : Node → Nat
  | .and a b => 1 + a.size + b.size
  | .or a b => 1 + a.size + b.size
  | _ => 1

/-- The levels of a tree. -/
def Node.levels : Node → Nat
  | .and a b => 1 + max a.levels b.levels
  | .or a b => 1 + max a.levels b.levels
  | _ => 1

/-- An argument that the parser reads as one atom. -/
def Atomic (name : Bytes) : Prop := name ≠ [] ∧ ∀ octet ∈ name, isAtomOctet octet = true

/-- The digests of scripts: 128 lowercase digits. -/
def LowerDigest (digest : Bytes) : Prop :=
  digest.length = 128 ∧ ∀ digit ∈ digest, isLowerHex digit = true

/-- The leaves of a tree have arguments that the parser accepts. -/
def Node.Readable : Node → Prop
  | .pk address => Atomic address
  | .sha3 digest => LowerDigest digest
  | .after height => height < 10 ^ 12
  | .older blocks => blocks < 10 ^ 12
  | .and a b => a.Readable ∧ b.Readable
  | .or a b => a.Readable ∧ b.Readable

/-! ### Atoms -/

theorem isAtomOctet_of_isLowerHex (octet : UInt8) (lower : isLowerHex octet = true) :
    isAtomOctet octet = true := by
  simp only [isLowerHex, Bool.or_eq_true, decide_eq_true_eq] at lower
  simp only [isAtomOctet, Bool.or_eq_true, decide_eq_true_eq]
  rcases lower with digit | letter
  · exact .inl (.inl (.inl digit))
  · exact .inl (.inl (.inr ⟨letter.1, by omega⟩))

theorem LowerDigest.atomic {digest : Bytes} (lower : LowerDigest digest) : Atomic digest := by
  refine ⟨?_, fun octet member => isAtomOctet_of_isLowerHex octet (lower.2 octet member)⟩
  rintro rfl
  simp [LowerDigest] at lower

theorem Atomic.of_all {text : Bytes} (some : text ≠ []) (octets : text.all isAtomOctet = true) :
    Atomic text :=
  ⟨some, List.all_eq_true.mp octets⟩

theorem decimal_atomic (value : Nat) : Atomic (decimal value) :=
  ⟨decimal_ne_nil value, fun octet member =>
    isAtomOctet_of_isLowerHex octet (isLowerHex_of_isDigit octet (decimal_digits value octet member))⟩

theorem Atomic.absent {name : Bytes} (atomic : Atomic name) (separator : UInt8)
    (other : isAtomOctet separator = false) : separator ∉ name := by
  intro member
  have octet := atomic.2 separator member
  simp [other] at octet

/-- An atom ends at the first octet that belongs to none. -/
theorem atom_reads (name : Bytes) (separator : UInt8) (rest : Bytes) (position nodes : Nat)
    (atomic : Atomic name) (ends : isAtomOctet separator = false) :
    atom ⟨name ++ separator :: rest, position, nodes⟩ =
      .ok (name, ⟨separator :: rest, position + name.length, nodes⟩) := by
  have taken : (name ++ separator :: rest).takeWhile isAtomOctet = name := by
    rw [List.takeWhile_append_of_pos atomic.2, List.takeWhile_cons_of_neg (by simp [ends]),
      List.append_nil]
  have dropped : (name ++ separator :: rest).dropWhile isAtomOctet = separator :: rest := by
    rw [List.dropWhile_append_of_pos atomic.2, List.dropWhile_cons_of_neg (by simp [ends])]
  simp [atom, taken, dropped, atomic.1]

theorem expect_reads (character : Char) (rest : Bytes) (position nodes : Nat) :
    expect character ⟨byte character :: rest, position, nodes⟩ =
      .ok ⟨rest, position + 1, nodes⟩ := by
  simp [expect]

/-- The text of a readable tree has no semicolon. -/
theorem readable_plain (tree : Node) (readable : tree.Readable) : byte ';' ∉ tree.text := by
  induction tree with
  | pk address =>
    have absent := Atomic.absent readable (byte ';') (by decide)
    simp only [Node.text, List.mem_append, List.mem_cons, not_or]
    exact ⟨by decide, by decide, absent, by decide, by simp⟩
  | sha3 digest =>
    have absent := Atomic.absent (LowerDigest.atomic readable) (byte ';') (by decide)
    simp only [Node.text, List.mem_append, List.mem_cons, not_or]
    exact ⟨by decide, by decide, absent, by decide, by simp⟩
  | after height =>
    have absent := Atomic.absent (decimal_atomic height) (byte ';') (by decide)
    simp only [Node.text, List.mem_append, List.mem_cons, not_or]
    exact ⟨by decide, by decide, absent, by decide, by simp⟩
  | older blocks =>
    have absent := Atomic.absent (decimal_atomic blocks) (byte ';') (by decide)
    simp only [Node.text, List.mem_append, List.mem_cons, not_or]
    exact ⟨by decide, by decide, absent, by decide, by simp⟩
  | and a b left right =>
    simp only [Node.text, List.mem_append, List.mem_cons, not_or]
    exact ⟨by decide, by decide, left readable.1, by decide, right readable.2, by decide, by simp⟩
  | or a b left right =>
    simp only [Node.text, List.mem_append, List.mem_cons, not_or]
    exact ⟨by decide, by decide, left readable.1, by decide, right readable.2, by decide, by simp⟩

/-! ### Numbers -/

/-- A rendering of more than one digit does not start with a zero. -/
theorem decimal_head (value : Nat) (positive : 0 < value) :
    (decimal value).head? ≠ some (byte '0') := by
  have digits : ∀ value, 0 < value → (Nat.toDigits 10 value).head? ≠ some '0' := by
    intro value
    induction value using Nat.strongRecOn with
    | ind value ih =>
      intro positive
      rw [Nat.toDigits_eq_if (by decide)]
      split
      · rename_i small
        interval_cases value <;> decide
      · rw [List.head?_append_of_ne_nil _ Nat.toDigits_ne_nil]
        exact ih (value / 10) (by omega) (by omega)
  intro first
  rw [decimal, List.head?_map] at first
  obtain ⟨character, found, same⟩ := Option.map_eq_some_iff.mp first
  have digit : character.isDigit = true := Nat.isDigit_of_mem_toDigits (by decide) (by decide)
    (List.mem_of_head? found)
  have value' := congrArg UInt8.toNat same
  rw [byte_toNat character digit, byte_toNat '0' (by decide)] at value'
  exact digits value positive (found.trans (congrArg some (Char.ext (UInt32.toNat_inj.mp value'))))

theorem decimal_length_le (value : Nat) (small : value < 10 ^ 12) : (decimal value).length ≤ 12 := by
  rw [decimal, List.length_map]
  exact (Nat.length_toDigits_le_iff (by decide) (by decide)).mpr small

/-- A rendering passes the checks on numbers. -/
theorem decimal_number (value : Nat) (small : value < 10 ^ 12) :
    (decide ((decimal value).length ≤ 12) &&
      !(decide (1 < (decimal value).length) && (decimal value).head? == some (byte '0'))) = true := by
  have short := decimal_length_le value small
  have start : ¬ (1 < (decimal value).length ∧ (decimal value).head? = some (byte '0')) := by
    rintro ⟨long, zero⟩
    rcases Nat.eq_zero_or_pos value with rfl | positive
    · exact absurd long (by decide)
    · exact decimal_head value positive zero
  simp only [not_and] at start
  simp only [Bool.and_eq_true, decide_eq_true_eq, Bool.not_eq_true', Bool.and_eq_false_iff,
    decide_eq_false_iff_not, beq_eq_false_iff_ne, ne_eq]
  refine ⟨short, ?_⟩
  by_cases long : 1 < (decimal value).length
  · exact .inr (start long)
  · exact .inl long

/-! ### Parsing a text -/

/-- The parser reads a tree off the front of a text, whatever follows it. -/
def Parses (fuel : Nat) (text : Bytes) (tree : Node) (size : Nat) : Prop :=
  ∀ rest position nodes, nodes + size ≤ kMaxNodes → ∃ position',
    node fuel ⟨text ++ rest, position, nodes⟩ = .ok (tree, ⟨rest, position', nodes + size⟩)

theorem Parses.leaf (fuel : Nat) (name arg : Bytes) (tree : Node) (atomic : Atomic name)
    (argument : Atomic arg) (other : name ≠ ascii "and" ∧ name ≠ ascii "or")
    (denotes : Script.leaf name arg = .ok tree) :
    Parses (fuel + 1) (name ++ byte '(' :: (arg ++ [byte ')'])) tree 1 := by
  intro rest position nodes room
  have opened : isAtomOctet (byte '(') = false := by decide
  have closed : isAtomOctet (byte ')') = false := by decide
  refine ⟨position + name.length + 1 + arg.length + 1, ?_⟩
  simp only [node, decide_eq_true room, ensure, if_true, List.append_assoc, List.cons_append,
    List.nil_append, bind, Except.bind, atom_reads name _ _ _ _ atomic opened, expect_reads,
    other.1, other.2, or_self, if_false, atom_reads arg _ _ _ _ argument closed, denotes, pure,
    Except.pure]

theorem Parses.connective (fuel : Nat) (name left right : Bytes) (a b : Node) (size size' : Nat)
    (either : name = ascii "and" ∨ name = ascii "or") (first : Parses fuel left a size)
    (second : Parses fuel right b size') :
    Parses (fuel + 1) (name ++ byte '(' :: (left ++ byte ',' :: (right ++ [byte ')'])))
      (if name = ascii "and" then .and a b else .or a b) (1 + size + size') := by
  intro rest position nodes room
  have opened : isAtomOctet (byte '(') = false := by decide
  have atomic : Atomic name := by
    rcases either with rfl | rfl
    · exact .of_all (by decide) (by decide)
    · exact .of_all (by decide) (by decide)
  have counted : nodes + 1 ≤ kMaxNodes := by omega
  obtain ⟨middle, readLeft⟩ := first (byte ',' :: (right ++ byte ')' :: rest))
    (position + name.length + 1) (nodes + 1) (by omega)
  obtain ⟨final, readRight⟩ := second (byte ')' :: rest) (middle + 1) (nodes + 1 + size) (by omega)
  refine ⟨final + 1, ?_⟩
  simp only [node, decide_eq_true counted, ensure, if_true, List.append_assoc, List.cons_append,
    List.nil_append, bind, Except.bind, atom_reads name _ _ _ _ atomic opened, expect_reads, either,
    readLeft, readRight, pure, Except.pure]
  rw [show nodes + 1 + size + size' = nodes + (1 + size + size') by omega]

/-- The parser reads a readable tree off its text. -/
theorem node_text (tree : Node) (readable : tree.Readable) (fuel : Nat) (deep : tree.levels ≤ fuel) :
    Parses fuel tree.text tree tree.size := by
  induction tree generalizing fuel with
  | pk address =>
    obtain ⟨fuel, rfl⟩ := Nat.exists_eq_add_of_le' deep
    exact .leaf fuel (ascii "pk") address _ (.of_all (by decide) (by decide)) readable
      ⟨by decide, by decide⟩ rfl
  | sha3 digest =>
    obtain ⟨fuel, rfl⟩ := Nat.exists_eq_add_of_le' deep
    refine .leaf fuel (ascii "sha3") digest _ (.of_all (by decide) (by decide))
      (LowerDigest.atomic readable) ⟨by decide, by decide⟩ ?_
    have lower : digest.all isLowerHex = true := List.all_eq_true.mpr readable.2
    have other : ascii "sha3" ≠ ascii "pk" := by decide
    simp only [leaf, other, if_false, if_true, ensure, readable.1, decide_true, lower, bind,
      Except.bind, pure, Except.pure]
  | after height =>
    obtain ⟨fuel, rfl⟩ := Nat.exists_eq_add_of_le' deep
    refine .leaf fuel (ascii "after") (decimal height) _ (.of_all (by decide) (by decide))
      (decimal_atomic height) ⟨by decide, by decide⟩ ?_
    have digits : (decimal height).all isDigit = true := List.all_eq_true.mpr (decimal_digits height)
    have others : ascii "after" ≠ ascii "pk" ∧ ascii "after" ≠ ascii "sha3" := by decide
    simp only [leaf, others.1, others.2, if_false, if_true, true_or, ensure,
      decimal_number height readable, digits, decimalValue_decimal, bind, Except.bind, pure, Except.pure]
  | older blocks =>
    obtain ⟨fuel, rfl⟩ := Nat.exists_eq_add_of_le' deep
    refine .leaf fuel (ascii "older") (decimal blocks) _ (.of_all (by decide) (by decide))
      (decimal_atomic blocks) ⟨by decide, by decide⟩ ?_
    have digits : (decimal blocks).all isDigit = true := List.all_eq_true.mpr (decimal_digits blocks)
    have others : ascii "older" ≠ ascii "pk" ∧ ascii "older" ≠ ascii "sha3" ∧
        ascii "older" ≠ ascii "after" := by decide
    simp only [leaf, others.1, others.2.1, others.2.2, if_false, if_true, or_true, ensure,
      decimal_number blocks readable, digits, decimalValue_decimal, bind, Except.bind, pure, Except.pure]
  | and a b left right =>
    obtain ⟨fuel, rfl⟩ := Nat.exists_eq_add_of_le' (le_trans (Nat.le_add_right 1 _) deep)
    simp only [Node.levels] at deep
    exact .connective fuel (ascii "and") a.text b.text a b _ _ (.inl rfl)
      (left readable.1 fuel (by omega)) (right readable.2 fuel (by omega))
  | or a b left right =>
    obtain ⟨fuel, rfl⟩ := Nat.exists_eq_add_of_le' (le_trans (Nat.le_add_right 1 _) deep)
    simp only [Node.levels] at deep
    exact .connective fuel (ascii "or") a.text b.text a b _ _ (.inr rfl)
      (left readable.1 fuel (by omega)) (right readable.2 fuel (by omega))

/-- The text of a readable tree within the bounds parses to the tree. -/
theorem parse_text (tree : Node) (readable : tree.Readable) (deep : tree.levels ≤ kMaxDepth + 1)
    (few : tree.size ≤ kMaxNodes) (short : tree.text.length ≤ kMaxScriptBytes) :
    parse tree.text = .ok tree := by
  obtain ⟨position, parsed⟩ := node_text tree readable (kMaxDepth + 1) deep [] 0 0 (by omega)
  have some : tree.text ≠ [] := by
    cases tree <;> simp [Node.text]
  rw [List.append_nil] at parsed
  simp [parse, ensure, some, short, parsed, bind, Except.bind, pure, Except.pure]

/-! ### Witnesses -/

/-- The parts of an encoded witness, each of which ends in a semicolon. -/
def Witness.parts (witness : Witness) : List Bytes :=
  witness.script :: decimal witness.sigs.length ::
    (witness.sigs.map (fun sig => sig.1 ++ byte ':' :: sig.2) ++
      decimal witness.preimages.length :: witness.preimages)

/-- What a decoder needs to find the parts again. -/
structure Witness.Plain (witness : Witness) : Prop where
  script : byte ';' ∉ witness.script
  sigs : ∀ sig ∈ witness.sigs, byte ':' ∉ sig.1 ∧ byte ';' ∉ sig.1 ∧ byte ';' ∉ sig.2
  sigCount : witness.sigs.length ≤ kMaxSigs
  preimages : ∀ preimage ∈ witness.preimages,
    isLowerHexString preimage (2 * kMaxPreimageBytes) = true
  preimageCount : witness.preimages.length ≤ kMaxPreimages

theorem isLowerHexString_digits (hex : Bytes) (bound : Nat)
    (lower : isLowerHexString hex bound = true) : ∀ digit ∈ hex, isLowerHex digit = true := by
  simp only [isLowerHexString, Bool.and_eq_true, List.all_eq_true] at lower
  exact lower.2

theorem lowerHex_absent (text : Bytes) (separator : UInt8) (other : isLowerHex separator = false)
    (lower : ∀ digit ∈ text, isLowerHex digit = true) : separator ∉ text := by
  intro member
  have digit := lower separator member
  simp [other] at digit

/-- The encoding is the parts with a semicolon after each. -/
theorem encodeWitness_parts (witness : Witness) :
    encodeWitness witness = [byte ';'].intercalate (witness.parts ++ [[]]) := by
  have ended : ∀ parts : List Bytes, parts.flatMap (fun part => part ++ [byte ';']) =
      [byte ';'].intercalate (parts ++ [[]]) := by
    intro parts
    induction parts with
    | nil => rfl
    | cons part rest ih =>
      rw [List.flatMap_cons, ih]
      cases rest with
      | nil => simp [List.intercalate]
      | cons next others => simp [List.intercalate]
  rw [← ended]
  have semicolon : ascii ";" = [byte ';'] := rfl
  have colon : ascii ":" = [byte ':'] := rfl
  simp [encodeWitness, Witness.parts, semicolon, colon, List.flatMap_map]

theorem semicolonParts_encode (witness : Witness) (plain : witness.Plain) :
    semicolonParts (encodeWitness witness) = some witness.parts := by
  have absent : ∀ part ∈ witness.parts ++ [[]], byte ';' ∉ part := by
    intro part member
    simp only [Witness.parts, List.mem_append, List.mem_cons, List.mem_map, List.not_mem_nil,
      or_false] at member
    rcases member with (rfl | rfl | ⟨sig, listed, rfl⟩ | rfl | listed) | rfl
    · exact plain.script
    · exact not_mem_decimal _ _ (by decide)
    · obtain ⟨_, key, signature⟩ := plain.sigs sig listed
      simp only [List.mem_append, List.mem_cons, not_or]
      exact ⟨key, by decide, signature⟩
    · exact not_mem_decimal _ _ (by decide)
    · exact lowerHex_absent part _ (by decide)
        (isLowerHexString_digits part _ (plain.preimages part listed))
    · simp
  have pieces : ([byte ';'].intercalate (witness.parts ++ [[]])).splitOn (byte ';') =
      witness.parts ++ [[]] := List.splitOn_intercalate _ absent (by simp)
  unfold semicolonParts
  rw [encodeWitness_parts, pieces]
  simp

theorem takeCount_decimal (count : Nat) (rest : List Bytes) (few : count ≤ 4) :
    takeCount 4 (decimal count :: rest) = some (count, rest) := by
  interval_cases count <;> rfl

theorem splitColon_joined (key signature : Bytes) (absent : byte ':' ∉ key) :
    splitColon (key ++ byte ':' :: signature) = some (key, signature) := by
  have before : ∀ octet ∈ key, decide (octet ≠ byte ':') = true := by
    intro octet member
    refine decide_eq_true ?_
    rintro rfl
    exact absent member
  have dropped : (key ++ byte ':' :: signature).dropWhile (· ≠ byte ':') =
      byte ':' :: signature := by
    rw [List.dropWhile_append_of_pos before, List.dropWhile_cons_of_neg (by simp)]
  have taken : (key ++ byte ':' :: signature).takeWhile (· ≠ byte ':') = key := by
    rw [List.takeWhile_append_of_pos before, List.takeWhile_cons_of_neg (by simp), List.append_nil]
  simp only [splitColon, dropped, taken]

theorem takeSigs_joined (sigs : List (Bytes × Bytes)) (rest : List Bytes)
    (absent : ∀ sig ∈ sigs, byte ':' ∉ sig.1) :
    takeSigs sigs.length (sigs.map (fun sig => sig.1 ++ byte ':' :: sig.2) ++ rest) =
      .ok (sigs, rest) := by
  induction sigs with
  | nil => rfl
  | cons sig others ih =>
    have later := ih (fun other member => absent other (by simp [member]))
    simp only [List.length_cons, List.map_cons, List.cons_append, takeSigs,
      splitColon_joined sig.1 sig.2 (absent sig (by simp)), later, bind, Except.bind, pure, Except.pure]

theorem takePreimages_listed (preimages rest : List Bytes)
    (lower : ∀ preimage ∈ preimages, isLowerHexString preimage (2 * kMaxPreimageBytes) = true) :
    takePreimages preimages.length (preimages ++ rest) = .ok (preimages, rest) := by
  induction preimages with
  | nil => rfl
  | cons preimage others ih =>
    have later := ih (fun other member => lower other (by simp [member]))
    simp only [List.length_cons, List.cons_append, takePreimages, lower preimage (by simp), if_true,
      later, bind, Except.bind, pure, Except.pure]

/-- A plain witness is decoded from its encoding. -/
theorem decode_encode (witness : Witness) (plain : witness.Plain) :
    decodeWitness (encodeWitness witness) = .ok witness := by
  have enough : decide (3 ≤ witness.parts.length) = true := by
    simp only [Witness.parts, List.length_cons, List.length_append, decide_eq_true_eq]
    omega
  have sigs := takeSigs_joined witness.sigs (decimal witness.preimages.length :: witness.preimages)
    (fun sig member => (plain.sigs sig member).1)
  have preimages := takePreimages_listed witness.preimages [] plain.preimages
  rw [List.append_nil] at preimages
  unfold decodeWitness
  rw [semicolonParts_encode witness plain]
  dsimp only
  rw [enough]
  simp only [ensure, if_true, bind, Except.bind, Witness.parts, List.tail_cons,
    kMaxSigs, kMaxPreimages, takeCount_decimal _ _ plain.sigCount, sigs,
    takeCount_decimal _ _ plain.preimageCount, preimages, List.isEmpty_nil, List.headD_cons, pure,
    Except.pure]

/-! ### Spends with one signature -/

variable (P : Primitives)

/-- The value of a tree for one signature and at most one preimage. -/
def Node.value (context : SpendContext) (sig : Bytes × Bytes) (preimage : Option Bytes) : Node → Bool
  | .pk address => sigMatches P context address sig
  | .sha3 digest => preimage.any (fun known => hashPreimageHex P known == digest)
  | .after height => decide (height ≤ context.spendHeight.toNat)
  | .older blocks => decide (context.utxoHeight ≤ context.spendHeight) &&
      decide (blocks ≤ (context.spendHeight - context.utxoHeight).toNat)
  | .and a b => a.value context sig preimage && b.value context sig preimage
  | .or a b => a.value context sig preimage || b.value context sig preimage

/-- Some leaf of the tree uses the signature. -/
def Node.signs (context : SpendContext) (sig : Bytes × Bytes) : Node → Bool
  | .pk address => sigMatches P context address sig
  | .and a b => a.signs context sig || b.signs context sig
  | .or a b => a.signs context sig || b.signs context sig
  | _ => false

/-- Some leaf of the tree uses the preimage. -/
def Node.opens (preimage : Option Bytes) : Node → Bool
  | .sha3 digest => preimage.any (fun known => hashPreimageHex P known == digest)
  | .and a b => a.opens preimage || b.opens preimage
  | .or a b => a.opens preimage || b.opens preimage
  | _ => false

variable {P}

/-- What evaluating a tree gives and marks. -/
theorem eval_single (context : SpendContext) (script : Bytes) (sig : Bytes × Bytes)
    (preimage : Option Bytes) (tree : Node) (signed : Bool) (opened : List Bool)
    (width : opened.length = preimage.toList.length) :
    eval P context ⟨script, [sig], preimage.toList⟩ tree ⟨[signed], opened⟩ =
      (tree.value P context sig preimage, ⟨[signed || tree.signs P context sig],
        opened.map (fun mark => mark || tree.opens P preimage)⟩) := by
  induction tree generalizing signed opened with
  | pk address =>
    by_cases own : sigMatches P context address sig = true
    · simp [eval, Node.value, Node.signs, Node.opens, own, List.findIdx?_cons]
    · simp [eval, Node.value, Node.signs, Node.opens, own, List.findIdx?_cons]
  | sha3 digest =>
    cases preimage with
    | none =>
      obtain rfl : opened = [] := List.length_eq_zero_iff.mp width
      simp [eval, Node.value, Node.signs]
    | some known =>
      obtain ⟨mark, rfl⟩ := List.length_eq_one_iff.mp width
      by_cases own : hashPreimageHex P known = digest
      · simp [eval, Node.value, Node.signs, Node.opens, own, List.findIdx?_cons]
      · simp [eval, Node.value, Node.signs, Node.opens, own, List.findIdx?_cons]
  | after height => simp [eval, Node.value, Node.signs, Node.opens]
  | older blocks => simp [eval, Node.value, Node.signs, Node.opens]
  | and a b left right =>
    simp only [eval, left signed opened width]
    rw [right _ _ (by rw [List.length_map, width])]
    simp [Node.value, Node.signs, Node.opens, Bool.or_assoc, Function.comp_def]
  | or a b left right =>
    simp only [eval, left signed opened width]
    rw [right _ _ (by rw [List.length_map, width])]
    simp [Node.value, Node.signs, Node.opens, Bool.or_assoc, Function.comp_def]

theorem isScriptAddress_scriptAddress (script : Bytes) :
    isScriptAddress (scriptAddress P script) = true := by
  have width : (scriptAddress P script).length = 3 + 128 := by
    simp [scriptAddress, ascii]
  rw [isScriptAddress, width]
  simp [scriptAddress]

/-- A tree that the parser can read in a script. -/
structure Node.Scriptable (tree : Node) : Prop where
  readable : tree.Readable
  levels : tree.levels ≤ kMaxDepth + 1
  size : tree.size ≤ kMaxNodes
  length : tree.text.length ≤ kMaxScriptBytes

theorem Node.Scriptable.parses {tree : Node} (scriptable : tree.Scriptable) :
    parse tree.text = .ok tree :=
  parse_text tree scriptable.readable scriptable.levels scriptable.size scriptable.length

/-- A signature and at most one preimage authorize a spend of a script's output if the
tree is true and both are used. -/
theorem verify_single (tree : Node) (scriptable : tree.Scriptable) (context : SpendContext)
    (sig : Bytes × Bytes) (preimage : Option Bytes)
    (plain : byte ':' ∉ sig.1 ∧ byte ';' ∉ sig.1 ∧ byte ';' ∉ sig.2)
    (lower : ∀ known ∈ preimage, isLowerHexString known (2 * kMaxPreimageBytes) = true)
    (satisfied : tree.value P context sig preimage = true)
    (signs : tree.signs P context sig = true)
    (opens : ∀ known ∈ preimage, tree.opens P (some known) = true) :
    verifyInput P (scriptAddress P tree.text)
      (encodeWitness ⟨tree.text, [sig], preimage.toList⟩) context = .ok () := by
  have decoded := decode_encode ⟨tree.text, [sig], preimage.toList⟩
    ⟨readable_plain tree scriptable.readable, by simpa using plain, by simp [kMaxSigs],
      by simpa using lower, by
      cases preimage <;> simp [kMaxPreimages]⟩
  have parsed := parse_text tree scriptable.readable scriptable.levels scriptable.size
    scriptable.length
  have evaluated := eval_single (P := P) context tree.text sig preimage tree false
    (preimage.toList.map (fun _ => false)) (by simp)
  have marked : ((preimage.toList.map (fun _ => false)).map
      (fun mark => mark || tree.opens P preimage)).all id = true := by
    cases preimage with
    | none => rfl
    | some known => simp [opens known rfl]
  unfold verifyInput
  simp only [isScriptAddress_scriptAddress, ensure, if_true, bind, Except.bind, decoded,
    beq_self_eq_true, parsed, List.map_cons, List.map_nil, evaluated, satisfied, signs, Bool.false_or,
    List.all_cons, List.all_nil, id, Bool.and_true, marked]

end Addition.Script
