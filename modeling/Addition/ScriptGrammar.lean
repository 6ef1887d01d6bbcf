import Addition.ScriptTexts
import Addition.Foundations.DecimalTexts

/-!
# The grammar of scripts

The parser accepts exactly the texts of trees: what it reads is the text of the tree it gives
back, a tree within the bounds is given back from its text, and so a text has one tree and a
tree one text.
-/

namespace Addition.Script

open ByteStrings Checked

variable {cursor left : Cursor} {name : Bytes}

/-- An atom is the run of octets in front. -/
theorem atom_ok (read : atom cursor = .ok (name, left)) :
    cursor.rest = name ++ left.rest ∧ Atomic name ∧ left.nodes = cursor.nodes := by
  unfold atom at read
  dsimp only at read
  split at read
  · exact absurd read (by simp)
  · rename_i some
    obtain ⟨rfl, rfl⟩ := Prod.mk.inj (Except.ok.inj read)
    refine ⟨List.takeWhile_append_dropWhile.symm, .of_all (by simpa using some) ?_, rfl⟩
    exact List.all_takeWhile

theorem expect_ok {character : Char} (read : expect character cursor = .ok left) :
    cursor.rest = byte character :: left.rest ∧ left.nodes = cursor.nodes := by
  unfold expect at read
  split at read
  · exact absurd read (by simp)
  · rename_i octet rest isRest
    split at read
    · rename_i same
      cases Except.ok.inj read
      exact ⟨by rw [isRest, same], rfl⟩
    · exact absurd read (by simp)

/-- A leaf is the leaf of its text. -/
theorem leaf_ok {arg : Bytes} {tree : Node} (argument : Atomic arg)
    (denotes : leaf name arg = .ok tree) :
    name ++ byte '(' :: (arg ++ [byte ')']) = tree.text ∧ tree.Readable ∧ tree.levels = 1 ∧
      tree.size = 1 := by
  have number : (decide (arg.length ≤ 12) &&
      !(decide (1 < arg.length) && arg.head? == some (byte '0'))) = true → arg.all isDigit = true →
        PlainNumber arg ∧ arg.length ≤ 12 := by
    intro checked digits
    simp only [Bool.and_eq_true, decide_eq_true_eq, Bool.not_eq_true', Bool.and_eq_false_iff,
      decide_eq_false_iff_not, beq_eq_false_iff_ne, ne_eq] at checked
    refine ⟨⟨argument.1, List.all_eq_true.mp digits, ?_⟩, checked.1⟩
    obtain few | start := checked.2
    · exact .inl (by omega)
    · exact .inr start
  unfold leaf at denotes
  split at denotes
  · rename_i isName
    cases denotes
    exact ⟨by rw [isName]; rfl, argument, rfl, rfl⟩
  · split at denotes
    · rename_i isName
      simp only [bind_ok, exists_unit, ensure_ok, pure_ok, decide_eq_true_eq] at denotes
      obtain ⟨length, lower, rfl⟩ := denotes
      exact ⟨by rw [isName]; rfl, ⟨length, List.all_eq_true.mp lower⟩, rfl, rfl⟩
    · split at denotes
      · rename_i isName
        simp only [bind_ok, exists_unit, ensure_ok, pure_ok] at denotes
        obtain ⟨checked, digits, rfl⟩ := denotes
        obtain ⟨plain, short⟩ := number checked digits
        have rendered := decimal_decimalValue arg plain
        have small := decimalValue_lt arg plain 12 (by decide) short
        split
        · rename_i isAfter
          exact ⟨by rw [isAfter, Node.text, rendered], small, rfl, rfl⟩
        · rename_i notAfter
          rw [isName.resolve_left notAfter]
          exact ⟨by rw [Node.text, rendered], small, rfl, rfl⟩
      · exact absurd denotes (by simp)

/-- Induction on the levels that are left: what is read is the text of the tree. -/
theorem node_ok (fuel : Nat) (cursor left : Cursor) (tree : Node)
    (read : node fuel cursor = .ok (tree, left)) :
    cursor.rest = tree.text ++ left.rest ∧ tree.Readable ∧ tree.levels ≤ fuel ∧
      left.nodes = cursor.nodes + tree.size ∧ left.nodes ≤ kMaxNodes := by
  induction fuel generalizing cursor left tree with
  | zero => exact absurd read (by simp [node])
  | succ fuel ih =>
    rw [node] at read
    simp only [bind_ok, exists_unit, ensure_ok, decide_eq_true_eq, Prod.exists] at read
    obtain ⟨few, name, named, readName, opened, readOpen, rest⟩ := read
    obtain ⟨isName, atomic, sameName⟩ := atom_ok readName
    obtain ⟨isOpen, sameOpen⟩ := expect_ok readOpen
    dsimp only at isName sameName
    split at rest
    · rename_i connective
      simp only [bind_ok, pure_ok, Prod.exists] at rest
      obtain ⟨a, afterA, readA, comma, readComma, b, afterB, readB, closed, readClose, isTree⟩ := rest
      obtain ⟨isA, readableA, levelsA, sizeA, -⟩ := ih opened afterA a readA
      obtain ⟨isB, readableB, levelsB, sizeB, roomB⟩ := ih comma afterB b readB
      obtain ⟨isComma, sameComma⟩ := expect_ok readComma
      obtain ⟨isClose, sameClose⟩ := expect_ok readClose
      obtain ⟨rfl, rfl⟩ := Prod.mk.inj isTree
      have text : cursor.rest = name ++ byte '(' :: (a.text ++ byte ',' :: (b.text ++ [byte ')'])) ++
          closed.rest := by
        rw [isName, isOpen, isA, isComma, isB, isClose]
        simp
      split
      · rename_i isAnd
        rw [isAnd] at text
        exact ⟨text, ⟨readableA, readableB⟩, by simp only [Node.levels]; omega,
          by simp only [Node.size]; omega, by omega⟩
      · rename_i notAnd
        rw [connective.resolve_left notAnd] at text
        exact ⟨text, ⟨readableA, readableB⟩, by simp only [Node.levels]; omega,
          by simp only [Node.size]; omega, by omega⟩
    · simp only [bind_ok, pure_ok, Prod.exists] at rest
      obtain ⟨arg, afterArg, readArg, closed, readClose, parsed, denotes, isTree⟩ := rest
      obtain ⟨isArg, argument, sameArg⟩ := atom_ok readArg
      obtain ⟨isClose, sameClose⟩ := expect_ok readClose
      obtain ⟨rfl, rfl⟩ := Prod.mk.inj isTree
      obtain ⟨text, readable, levels, size⟩ := leaf_ok argument denotes
      refine ⟨?_, readable, by omega, by omega, by omega⟩
      rw [isName, isOpen, isArg, isClose, ← text]
      simp

/-- A text is read as a tree exactly when the tree is within the bounds and this is its text. -/
theorem parse_ok_iff (text : Bytes) (tree : Node) :
    parse text = .ok tree ↔ tree.Scriptable ∧ text = tree.text := by
  constructor
  · intro parsed
    simp only [parse, bind_ok, exists_unit, ensure_ok, pure_ok, Prod.exists, Bool.and_eq_true,
      decide_eq_true_eq] at parsed
    obtain ⟨⟨-, short⟩, root, left, read, done, rfl⟩ := parsed
    obtain ⟨isText, readable, levels, size, room⟩ := node_ok _ _ _ _ read
    dsimp only at isText size
    rw [List.isEmpty_iff.mp done, List.append_nil] at isText
    exact ⟨⟨readable, levels, by omega, isText ▸ short⟩, isText⟩
  · rintro ⟨scriptable, rfl⟩
    exact scriptable.parses

/-- The parser accepts exactly the texts of trees within the bounds, the text of the tree it
gives back is the text it read, and no two texts have the same tree. -/
theorem parse_exact :
    (∀ text, (∃ tree, parse text = .ok tree) ↔ ∃ tree : Node, tree.Scriptable ∧ tree.text = text) ∧
    (∀ text tree, parse text = .ok tree → tree.Scriptable ∧ tree.text = text) ∧
    (∀ text text' tree tree', parse text = .ok tree → parse text' = .ok tree' → text ≠ text' →
      tree ≠ tree') := by
  refine ⟨fun text => ⟨?_, ?_⟩, fun text tree parsed => ?_, fun text text' tree tree' first second
    different same => ?_⟩
  · rintro ⟨tree, parsed⟩
    obtain ⟨scriptable, isText⟩ := (parse_ok_iff text tree).mp parsed
    exact ⟨tree, scriptable, isText.symm⟩
  · rintro ⟨tree, scriptable, rfl⟩
    exact ⟨tree, scriptable.parses⟩
  · obtain ⟨scriptable, isText⟩ := (parse_ok_iff text tree).mp parsed
    exact ⟨scriptable, isText.symm⟩
  · subst same
    exact different (((parse_ok_iff text tree).mp first).2.trans ((parse_ok_iff text' tree).mp second).2.symm)

/-- The script of one key is parsed to itself. -/
theorem pk_text_exact : (Node.pk (ascii "a_1")).Scriptable ∧ (Node.pk (ascii "a_1")).text = ascii "pk(a_1)" :=
  parse_exact.2.1 (ascii "pk(a_1)") (.pk (ascii "a_1")) (by decide +kernel)

end Addition.Script
