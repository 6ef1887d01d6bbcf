import Addition.Foundations.Listings
import Addition.Foundations.StreamWords
import Addition.PackageCodec
import Addition.Primitives

/-!
# Session files

A session is kept in a file of its own: a name and a value on each line, octets in hexadecimal
and a dash for an empty string, and one line for each skipped key. The file is read back word by
word. It gives the session that was written when its texts are single words and its octet
strings are not longer than the decoder takes.

The skipped keys are written in any order; the source writes them by their names.
-/

namespace Addition

namespace PqSession

open ByteStrings Checked FiniteTables TextLines StreamWords

/-- `Messenger::Session` as it is written and read: every member is a string or a number. -/
structure SessionFile where
  sid : Bytes
  peerFp : Bytes
  myFp : Bytes
  peerIdentity : Bytes
  peerRelay : Bytes
  rk : Bytes
  cks : Bytes
  ckr : Bytes
  ns : UInt32
  nr : UInt32
  pn : UInt32
  myPub : Bytes
  mySk : Bytes
  prevPub : Bytes
  prevSk : Bytes
  peerRk : Bytes
  stepCt : Bytes
  stepTo : Bytes
  needStep : Bool
  skipped : Table Bytes Bytes

/-- A fresh session. -/
def SessionFile.fresh : SessionFile :=
  ⟨[], [], [], [], [], [], [], [], 0, 0, 0, [], [], [], [], [], [], ascii "-", false, ∅⟩

/-- The members that have a line of their own. -/
inductive Member
  | sid | peerFp | myFp | peerId | peerRelay | rk | cks | ckr | ns | nr | pn | myPub | mySk
  | prevPub | prevSk | peerRk | stepCt | stepTo | needStep
deriving DecidableEq

/-- The lines of a file, in order. -/
def Member.all : List Member :=
  [.sid, .peerFp, .myFp, .peerId, .peerRelay, .rk, .cks, .ckr, .ns, .nr, .pn, .myPub, .mySk,
    .prevPub, .prevSk, .peerRk, .stepCt, .stepTo, .needStep]

/-- The name at the front of a line. -/
def Member.key : Member → Bytes
  | .sid => ascii "sid"
  | .peerFp => ascii "peer_fp"
  | .myFp => ascii "my_fp"
  | .peerId => ascii "peer_id"
  | .peerRelay => ascii "peer_relay"
  | .rk => ascii "rk"
  | .cks => ascii "cks"
  | .ckr => ascii "ckr"
  | .ns => ascii "ns"
  | .nr => ascii "nr"
  | .pn => ascii "pn"
  | .myPub => ascii "my_pub"
  | .mySk => ascii "my_sk"
  | .prevPub => ascii "prev_pub"
  | .prevSk => ascii "prev_sk"
  | .peerRk => ascii "peer_rk"
  | .stepCt => ascii "step_ct"
  | .stepTo => ascii "step_to"
  | .needStep => ascii "need_step"

/-- `hx`. -/
def hx (octets : Bytes) : Bytes := if octets.isEmpty then ascii "-" else toHex octets

/-- `unhex`. -/
def unhex (text : Bytes) : Option Bytes :=
  if text = ascii "-" then some [] else (hexToBytes text).toOption

/-- What `ser` writes for a member. -/
def SessionFile.text (file : SessionFile) : Member → Bytes
  | .sid => file.sid
  | .peerFp => file.peerFp
  | .myFp => file.myFp
  | .peerId => hx file.peerIdentity
  | .peerRelay => hx file.peerRelay
  | .rk => hx file.rk
  | .cks => hx file.cks
  | .ckr => hx file.ckr
  | .ns => decimal file.ns.toNat
  | .nr => decimal file.nr.toNat
  | .pn => decimal file.pn.toNat
  | .myPub => hx file.myPub
  | .mySk => hx file.mySk
  | .prevPub => hx file.prevPub
  | .prevSk => hx file.prevSk
  | .peerRk => hx file.peerRk
  | .stepCt => hx file.stepCt
  | .stepTo => file.stepTo
  | .needStep => if file.needStep then ascii "1" else ascii "0"

/-- A line of two words. -/
def pairLine (key value : Bytes) : Bytes := key ++ byte ' ' :: (value ++ [newline])

/-- The line of a skipped key. -/
def skipLine (entry : Bytes × Bytes) : Bytes := ascii "skip" ++ byte ' ' :: pairLine entry.1 (hx entry.2)

/-- `Session::ser`, with the skipped keys in some order. -/
def SessionFile.ser (file : SessionFile) (order : List (Bytes × Bytes)) : Bytes :=
  Member.all.flatMap (fun member => pairLine member.key (file.text member)) ++ order.flatMap skipLine

/-- `stoul` and the cast to the width of a counter. -/
def readCounter (text : Bytes) : Option UInt32 := (stoull text).map UInt64.toUInt32

/-- What `parse` does with the value of a member. -/
def SessionFile.read (file : SessionFile) (value : Bytes) : Member → Option SessionFile
  | .sid => some { file with sid := value }
  | .peerFp => some { file with peerFp := value }
  | .myFp => some { file with myFp := value }
  | .peerId => (unhex value).map (fun octets => { file with peerIdentity := octets })
  | .peerRelay => (unhex value).map (fun octets => { file with peerRelay := octets })
  | .rk => (unhex value).map (fun octets => { file with rk := octets })
  | .cks => (unhex value).map (fun octets => { file with cks := octets })
  | .ckr => (unhex value).map (fun octets => { file with ckr := octets })
  | .ns => (readCounter value).map (fun count => { file with ns := count })
  | .nr => (readCounter value).map (fun count => { file with nr := count })
  | .pn => (readCounter value).map (fun count => { file with pn := count })
  | .myPub => (unhex value).map (fun octets => { file with myPub := octets })
  | .mySk => (unhex value).map (fun octets => { file with mySk := octets })
  | .prevPub => (unhex value).map (fun octets => { file with prevPub := octets })
  | .prevSk => (unhex value).map (fun octets => { file with prevSk := octets })
  | .peerRk => (unhex value).map (fun octets => { file with peerRk := octets })
  | .stepCt => (unhex value).map (fun octets => { file with stepCt := octets })
  | .stepTo => some { file with stepTo := value }
  | .needStep => some { file with needStep := value == ascii "1" }

/-- The member that a word names. -/
def Member.named (key : Bytes) : Option Member := Member.all.find? (fun member => member.key == key)

/-- The loop of `parse` over the words of the stream. A word that names nothing is passed over
with its value. -/
def SessionFile.readWords : SessionFile → List Bytes → Option SessionFile
  | file, [] => some file
  | _, [_] => none
  | file, key :: value :: rest =>
    if key = ascii "skip" then
      match rest with
      | [] => none
      | octets :: rest => do
        let mk ← unhex octets
        readWords { file with skipped := file.skipped.insert value mk } rest
    else
      match Member.named key with
      | none => readWords file rest
      | some member => do
        let file ← file.read value member
        readWords file rest

/-- `Session::parse` into a fresh session. A number that does not convert throws; that and a
refusal are both nothing here. -/
def SessionFile.parse (input : Bytes) : Option SessionFile := do
  let file ← SessionFile.fresh.readWords (words input)
  if !file.sid.isEmpty && decide (file.rk.length = 32) then some file else none

/-! ### What can be written -/

/-- A text that is one word of a stream. -/
def OneWord (text : Bytes) : Prop := Spaceless text ∧ text ≠ []

/-- Octets that the decoder takes. -/
def Short (octets : Bytes) : Prop := octets.length ≤ 65536

/-- The texts of a session are single words, its octets are short, and its root is a key. -/
structure SessionFile.Writable (file : SessionFile) : Prop where
  sid : OneWord file.sid
  peerFp : OneWord file.peerFp
  myFp : OneWord file.myFp
  stepTo : OneWord file.stepTo
  peerIdentity : Short file.peerIdentity
  peerRelay : Short file.peerRelay
  rk : file.rk.length = 32
  cks : Short file.cks
  ckr : Short file.ckr
  myPub : Short file.myPub
  mySk : Short file.mySk
  prevPub : Short file.prevPub
  prevSk : Short file.prevSk
  peerRk : Short file.peerRk
  stepCt : Short file.stepCt
  skipped : ∀ id mk, file.skipped.lookup id = some mk → OneWord id ∧ Short mk

theorem OneWord.of_all {text : Bytes} (checked : text.all (fun octet => !isSpace octet) = true)
    (some : text ≠ []) : OneWord text := ⟨spaceless_of_all checked, some⟩

theorem oneWord_decimal (value : Nat) : OneWord (decimal value) :=
  ⟨decimal_spaceless value, decimal_ne_nil value⟩

theorem spaceless_lower {text : Bytes} (lower : ∀ digit ∈ text, isLowerHex digit = true) :
    Spaceless text := by
  intro octet member
  have hex := lower octet member
  simp only [isLowerHex, isDigit, Bool.or_eq_true, decide_eq_true_eq] at hex
  simp only [isSpace, Bool.or_eq_false_iff, beq_eq_false_iff_ne, decide_eq_false_iff_not]
  refine ⟨?_, by omega⟩
  rintro rfl
  exact absurd hex (by decide)

theorem oneWord_hx (octets : Bytes) : OneWord (hx octets) := by
  unfold hx
  split
  · exact .of_all (by decide) (by decide)
  · rename_i some
    refine ⟨spaceless_lower (toHex_lower octets), fun none => ?_⟩
    have width := congrArg List.length none
    rw [toHex_length, List.length_nil] at width
    exact some (List.isEmpty_iff.mpr (List.eq_nil_of_length_eq_zero (by omega)))

/-- Octets come back, also when there are none. -/
theorem unhex_hx (octets : Bytes) (short : Short octets) : unhex (hx octets) = some octets := by
  unfold hx
  split
  · rename_i none
    rw [List.isEmpty_iff.mp none]
    rfl
  · rename_i some
    have present : octets ≠ [] := fun none => some (List.isEmpty_iff.mpr none)
    have notDash : toHex octets ≠ ascii "-" := by
      intro same
      have width := congrArg List.length same
      rw [toHex_length] at width
      have one : (ascii "-").length = 1 := rfl
      omega
    rw [unhex, if_neg notDash, hexToBytes_toHex octets present short]
    rfl

theorem readCounter_decimal (count : UInt32) : readCounter (decimal count.toNat) = some count := by
  have small := count.toNat_lt
  rw [readCounter, stoull_rendered, if_neg (by omega), Option.map_some, UInt64.toUInt32_ofNat',
    UInt32.ofNat_toNat]

/-! ### One line -/

/-- A session with one member of another. -/
def SessionFile.copy (file other : SessionFile) : Member → SessionFile
  | .sid => { file with sid := other.sid }
  | .peerFp => { file with peerFp := other.peerFp }
  | .myFp => { file with myFp := other.myFp }
  | .peerId => { file with peerIdentity := other.peerIdentity }
  | .peerRelay => { file with peerRelay := other.peerRelay }
  | .rk => { file with rk := other.rk }
  | .cks => { file with cks := other.cks }
  | .ckr => { file with ckr := other.ckr }
  | .ns => { file with ns := other.ns }
  | .nr => { file with nr := other.nr }
  | .pn => { file with pn := other.pn }
  | .myPub => { file with myPub := other.myPub }
  | .mySk => { file with mySk := other.mySk }
  | .prevPub => { file with prevPub := other.prevPub }
  | .prevSk => { file with prevSk := other.prevSk }
  | .peerRk => { file with peerRk := other.peerRk }
  | .stepCt => { file with stepCt := other.stepCt }
  | .stepTo => { file with stepTo := other.stepTo }
  | .needStep => { file with needStep := other.needStep }

variable {other file : SessionFile}

theorem read_text (writable : other.Writable) (file : SessionFile)
    (member : Member) : file.read (other.text member) member = some (file.copy other member) := by
  have short : Short other.rk := by
    rw [Short, writable.rk]
    decide
  cases member with
  | sid | peerFp | myFp | stepTo => rfl
  | ns | nr | pn =>
    simp only [SessionFile.read, SessionFile.text, readCounter_decimal, Option.map_some]
    rfl
  | needStep =>
    cases flag : other.needStep <;> simp only [SessionFile.read, SessionFile.text,
      SessionFile.copy, flag] <;> rfl
  | peerId => simp only [SessionFile.read, SessionFile.text, unhex_hx _ writable.peerIdentity]; rfl
  | peerRelay => simp only [SessionFile.read, SessionFile.text, unhex_hx _ writable.peerRelay]; rfl
  | rk => simp only [SessionFile.read, SessionFile.text, unhex_hx _ short]; rfl
  | cks => simp only [SessionFile.read, SessionFile.text, unhex_hx _ writable.cks]; rfl
  | ckr => simp only [SessionFile.read, SessionFile.text, unhex_hx _ writable.ckr]; rfl
  | myPub => simp only [SessionFile.read, SessionFile.text, unhex_hx _ writable.myPub]; rfl
  | mySk => simp only [SessionFile.read, SessionFile.text, unhex_hx _ writable.mySk]; rfl
  | prevPub => simp only [SessionFile.read, SessionFile.text, unhex_hx _ writable.prevPub]; rfl
  | prevSk => simp only [SessionFile.read, SessionFile.text, unhex_hx _ writable.prevSk]; rfl
  | peerRk => simp only [SessionFile.read, SessionFile.text, unhex_hx _ writable.peerRk]; rfl
  | stepCt => simp only [SessionFile.read, SessionFile.text, unhex_hx _ writable.stepCt]; rfl

theorem text_oneWord (writable : file.Writable) (member : Member) :
    OneWord (file.text member) := by
  cases member with
  | sid => exact writable.sid
  | peerFp => exact writable.peerFp
  | myFp => exact writable.myFp
  | stepTo => exact writable.stepTo
  | ns | nr | pn => exact oneWord_decimal _
  | needStep =>
    change OneWord (if file.needStep then ascii "1" else ascii "0")
    split <;> exact .of_all (by decide) (by decide)
  | peerId | peerRelay | rk | cks | ckr | myPub | mySk | prevPub | prevSk | peerRk | stepCt =>
    exact oneWord_hx _

theorem key_word (member : Member) :
    OneWord member.key ∧ member.key ≠ ascii "skip" ∧ Member.named member.key = some member := by
  cases member <;> exact ⟨.of_all (by decide) (by decide), by decide, by decide⟩

/-! ### The whole file -/

theorem words_pairLine {key value : Bytes} (first : OneWord key) (second : OneWord value)
    (rest : Bytes) : words (pairLine key value ++ rest) = key :: value :: words rest := by
  rw [pairLine, List.append_assoc, List.cons_append, words_text first.1 first.2 _ (by decide),
    List.append_assoc, List.singleton_append, words_text second.1 second.2 _ (by decide)]

/-- The lines of some members, read into any session. -/
theorem readWords_members (writable : other.Writable) (members : List Member)
    (file : SessionFile) (rest : Bytes) :
    file.readWords (words
        (members.flatMap (fun member => pairLine member.key (other.text member)) ++ rest)) =
      (members.foldl (fun file member => file.copy other member) file).readWords (words rest) := by
  induction members generalizing file with
  | nil => rfl
  | cons member members ih =>
    obtain ⟨word, notSkip, named⟩ := key_word member
    rw [List.flatMap_cons, List.append_assoc,
      words_pairLine word (text_oneWord writable member), SessionFile.readWords.eq_def]
    simp only [if_neg notSkip, named, read_text writable, Option.bind_eq_bind, Option.bind_some]
    exact ih _

theorem words_skipLine {entry : Bytes × Bytes} (id : OneWord entry.1) (rest : Bytes) :
    words (skipLine entry ++ rest) = ascii "skip" :: entry.1 :: hx entry.2 :: words rest := by
  have skip : OneWord (ascii "skip") := .of_all (by decide) (by decide)
  rw [skipLine, List.append_assoc, List.cons_append, words_text skip.1 skip.2 _ (by decide),
    words_pairLine id (oneWord_hx _)]

/-- The lines of some skipped keys. -/
theorem readWords_skipped (order : List (Bytes × Bytes))
    (plain : ∀ entry ∈ order, OneWord entry.1 ∧ Short entry.2) (file : SessionFile) :
    file.readWords (words (order.flatMap skipLine)) =
      some { file with skipped := putAll file.skipped order } := by
  induction order generalizing file with
  | nil => rfl
  | cons entry order ih =>
    obtain ⟨id, short⟩ := plain entry (by simp)
    rw [List.flatMap_cons, words_skipLine id, SessionFile.readWords.eq_def]
    simp only [↓reduceIte, unhex_hx _ short, Option.bind_eq_bind, Option.bind_some]
    exact ih (fun other member => plain other (by simp [member])) _

theorem copy_all (file other : SessionFile) :
    Member.all.foldl (fun file member => file.copy other member) file =
      { other with skipped := file.skipped } := by
  simp only [Member.all, List.foldl_cons, List.foldl_nil, SessionFile.copy]

/-- The file of a session gives the session back: the same members, and the same key under every
name. -/
theorem parse_ser (writable : file.Writable) {order : List (Bytes × Bytes)}
    (lists : Lists order file.skipped) :
    ∃ back, SessionFile.parse (file.ser order) = some back ∧
      { back with skipped := file.skipped } = file ∧
      ∀ id, back.skipped.lookup id = file.skipped.lookup id := by
  have plain : ∀ entry ∈ order, OneWord entry.1 ∧ Short entry.2 := fun entry member =>
    writable.skipped entry.1 entry.2 ((lists.entries entry.1 entry.2).mp member)
  refine ⟨{ file with skipped := putAll ∅ order }, ?_, rfl, lists.lookup⟩
  have read : SessionFile.fresh.readWords (words (file.ser order)) =
      some { file with skipped := putAll ∅ order } := by
    rw [SessionFile.ser, readWords_members writable, copy_all, readWords_skipped order plain]
    rfl
  simp [SessionFile.parse, read, writable.sid.2, writable.rk]

end PqSession

end Addition
