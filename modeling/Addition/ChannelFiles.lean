import Addition.ChannelTexts
import Addition.Foundations.Listings
import Addition.Foundations.StreamWords

/-!
# The files of channels

A channel is written line by line, a key and its values with spaces between them, and read back
by stream extraction. What is read never contains white space. A channel comes back from its file
exactly when none of its texts does, the required ones are not empty, and no other text is the
dash that stands for an empty one.

The tables and the states that were rolled back are written in any order; the source writes them
by their numbers.
-/

namespace Addition.Channels

open ByteStrings Checked FiniteTables TextLines StreamWords

/-! ### Writing -/

/-- The order in which the tables and the states that were rolled back are written. -/
structure FileOrder where
  remoteHashes : List (Nat × Bytes)
  remoteSecrets : List (Nat × Bytes)
  history : List (Nat × State)
  abandoned : List State

/-- The tables of a channel are listed in the order of a file. -/
structure FileOrder.Of (order : FileOrder) (ch : Channel) : Prop where
  remoteHashes : Lists order.remoteHashes ch.remoteHashes
  remoteSecrets : Lists order.remoteSecrets ch.remoteSecrets
  history : Lists order.history ch.history
  abandoned : order.abandoned.Perm ch.abandoned

/-- A text, or the dash for an empty one. -/
def dashed (text : Bytes) : Bytes := if text.isEmpty then ascii "-" else text

/-- A line with a number and a text. -/
def numbered (key : Bytes) (number : Nat) (text : Bytes) : Bytes :=
  key ++ decimal number ++ ascii " " ++ text

/-- The lines that every file has. -/
def frontLines (ch : Channel) : List Bytes :=
  [ascii "v 1",
    ascii "is_a " ++ (if ch.isA then ascii "1" else ascii "0"),
    ascii "addr_a " ++ ch.info.addrA,
    ascii "addr_b " ++ ch.info.addrB,
    ascii "capacity " ++ decimal ch.info.capacity.toNat,
    ascii "funding " ++ dashed ch.info.fundingTxid ++ ascii " " ++ decimal ch.info.fundingVout.toNat,
    ascii "delay " ++ decimal ch.info.toSelfDelay.toNat,
    ascii "fee " ++ decimal ch.info.fee.toNat,
    ascii "remote_pub " ++ ch.remotePub,
    ascii "seed " ++ ch.seed,
    ascii "cur " ++ encodeState ch.cur,
    ascii "remote_sig_cur " ++ dashed ch.remoteSigCur]

/-- The lines of the file. -/
def fileLines (ch : Channel) (order : FileOrder) : List Bytes :=
  frontLines ch ++
  ch.pending.toList.map (fun state => ascii "pending " ++ encodeState state) ++
  ch.remoteSigPending.toList.map (fun sig => ascii "remote_sig_pending " ++ sig) ++
  order.remoteHashes.map (fun entry => numbered (ascii "rhash ") entry.1 entry.2) ++
  order.remoteSecrets.map (fun entry => numbered (ascii "rsecret ") entry.1 entry.2) ++
  order.history.map (fun entry => numbered (ascii "hist ") entry.1 (encodeState entry.2)) ++
  order.abandoned.map (fun state => numbered (ascii "aband ") state.n (encodeState state))

/-- `Channel::serialize`. -/
def serialize (ch : Channel) (order : FileOrder) : Bytes := (fileLines ch order).flatMap line

/-! ### Reading -/

/-- The variables of `Channel::deserialize`. -/
structure Draft where
  isA : Bool
  info : Info
  remotePub : Bytes
  seed : Bytes
  cur : State
  pending : Option State
  remoteSigCur : Bytes
  remoteSigPending : Option Bytes
  remoteHashes : Table Nat Bytes
  remoteSecrets : Table Nat Bytes
  history : Table Nat State
  abandoned : List (Nat × State)

/-- What the reader starts with. -/
def Draft.empty : Draft where
  isA := false
  info := ⟨[], [], 0, [], 0, 6, 1⟩
  remotePub := []
  seed := []
  cur := ⟨0, 0, 0, [], 0⟩
  pending := none
  remoteSigCur := []
  remoteSigPending := none
  remoteHashes := ∅
  remoteSecrets := ∅
  history := ∅
  abandoned := []

/-- What variables without an initial value hold: an `int` that is one or not, and a word. -/
structure Unset where
  isOne : Bool
  number : UInt64

/-- An `int` is extracted that is one. -/
def extractsOne (stream : Bytes) (unset : Bool) : Bool :=
  match stream.dropWhile isSpace with
  | [] => unset
  | first :: rest =>
    if first = byte '-' then false
    else decide ((magnitude 31 false (if first = byte '+' then rest else first :: rest)).value = 1)

/-- A word of 64 bits is extracted. -/
def extractWord (stream : Bytes) (old : UInt64) : UInt64 :=
  UInt64.ofNat (number 64 stream old.toNat).value

/-- A text is extracted, and the dash is cleared. -/
def extractDashed (stream old : Bytes) : Bytes :=
  if wordOr stream old = ascii "-" then [] else wordOr stream old

/-- A number and a text are extracted. -/
def extractNumbered (stream : Bytes) (unset : Unset) : Nat × Bytes :=
  let found := number 64 stream unset.number.toNat
  (found.value, if found.good then wordOr found.rest [] else [])

/-- The values of a key of `Channel::deserialize`. It fails when a state cannot be read. -/
def readField (unset : Unset) (draft : Draft) (key rest : Bytes) : Option Draft :=
  if key = ascii "is_a" then some { draft with isA := extractsOne rest unset.isOne }
  else if key = ascii "addr_a" then
    some { draft with info := { draft.info with addrA := wordOr rest draft.info.addrA } }
  else if key = ascii "addr_b" then
    some { draft with info := { draft.info with addrB := wordOr rest draft.info.addrB } }
  else if key = ascii "capacity" then
    some { draft with info := { draft.info with capacity := extractWord rest draft.info.capacity } }
  else if key = ascii "funding" then
    match word rest with
    | none =>
      some { draft with info := { draft.info with
        fundingTxid := extractDashed rest draft.info.fundingTxid } }
    | some (_, left) =>
      some { draft with info := { draft.info with
        fundingTxid := extractDashed rest draft.info.fundingTxid
        fundingVout := UInt32.ofNat (number 32 left draft.info.fundingVout.toNat).value } }
  else if key = ascii "delay" then
    some { draft with info :=
      { draft.info with toSelfDelay := extractWord rest draft.info.toSelfDelay } }
  else if key = ascii "fee" then
    some { draft with info := { draft.info with fee := extractWord rest draft.info.fee } }
  else if key = ascii "remote_pub" then
    some { draft with remotePub := wordOr rest draft.remotePub }
  else if key = ascii "seed" then some { draft with seed := wordOr rest draft.seed }
  else if key = ascii "cur" then
    (decodeState (wordOr rest [])).map (fun state => { draft with cur := state })
  else if key = ascii "pending" then
    (decodeState (wordOr rest [])).map (fun state => { draft with pending := some state })
  else if key = ascii "remote_sig_cur" then
    some { draft with remoteSigCur := extractDashed rest draft.remoteSigCur }
  else if key = ascii "remote_sig_pending" then
    some { draft with remoteSigPending := some (wordOr rest []) }
  else if key = ascii "rhash" then
    let (n, hash) := extractNumbered rest unset
    some { draft with remoteHashes := draft.remoteHashes.insert n hash }
  else if key = ascii "rsecret" then
    let (n, secret) := extractNumbered rest unset
    some { draft with remoteSecrets := draft.remoteSecrets.insert n secret }
  else if key = ascii "hist" then
    let (n, text) := extractNumbered rest unset
    (decodeState text).map (fun state => { draft with history := draft.history.insert n state })
  else if key = ascii "aband" then
    let (n, text) := extractNumbered rest unset
    (decodeState text).map (fun state =>
      { draft with abandoned := draft.abandoned ++ [(n, state)] })
  else some draft

/-- One line of `Channel::deserialize`. -/
def readLine (unset : Unset) (draft : Draft) (text : Bytes) : Option Draft :=
  match word text with
  | none => some draft
  | some (key, rest) => readField unset draft key rest

/-- `Channel::deserialize`. -/
def deserialize (data : Bytes) (keys : WalletKeys) (unset : Unset) : Except String Draft :=
  match (splitLines data).foldlM (readLine unset) Draft.empty with
  | none => .error "corrupt channel file"
  | some draft => do
    ensure (!draft.remotePub.isEmpty && !draft.seed.isEmpty && !draft.info.addrA.isEmpty &&
      !draft.info.addrB.isEmpty) "corrupt channel file"
    ensure (decide (keys.address = if draft.isA then draft.info.addrA else draft.info.addrB))
      "channel file does not belong to this wallet"
    pure draft

/-- What was read is a channel in all fields. The states that were rolled back come with the
numbers that they are kept under. -/
structure Restores (draft : Draft) (ch : Channel) : Prop where
  isA : draft.isA = ch.isA
  info : draft.info = ch.info
  remotePub : draft.remotePub = ch.remotePub
  seed : draft.seed = ch.seed
  cur : draft.cur = ch.cur
  pending : draft.pending = ch.pending
  remoteSigCur : draft.remoteSigCur = ch.remoteSigCur
  remoteSigPending : draft.remoteSigPending = ch.remoteSigPending
  remoteHashes : ∀ n, draft.remoteHashes.lookup n = ch.remoteHashes.lookup n
  remoteSecrets : ∀ n, draft.remoteSecrets.lookup n = ch.remoteSecrets.lookup n
  history : ∀ n, draft.history.lookup n = ch.history.lookup n
  abandoned : draft.abandoned.Perm (ch.abandoned.map (fun state => (state.n, state)))

/-- A channel comes back from its file, whatever the order. -/
def RoundTrips (ch : Channel) : Prop :=
  ∀ order, FileOrder.Of order ch → ∀ unset,
    ∃ draft, deserialize (serialize ch order) ch.keys unset = .ok draft ∧ Restores draft ch

/-! ### Plain texts -/

/-- A state that comes back from its text, and whose text is one word. -/
structure StoredState (state : State) : Prop where
  readable : Readable state
  hashes : ∀ htlc ∈ state.htlcs, Spaceless htlc.paymentHash

/-- No text contains white space, and none that may be empty is a dash. -/
structure PlainDraft (draft : Draft) : Prop where
  addrA : Spaceless draft.info.addrA
  addrB : Spaceless draft.info.addrB
  funding : Spaceless draft.info.fundingTxid ∧ draft.info.fundingTxid ≠ ascii "-"
  remotePub : Spaceless draft.remotePub
  seed : Spaceless draft.seed
  cur : StoredState draft.cur
  pending : ∀ state, draft.pending = some state → StoredState state
  remoteSigCur : Spaceless draft.remoteSigCur ∧ draft.remoteSigCur ≠ ascii "-"
  remoteSigPending : ∀ sig, draft.remoteSigPending = some sig → Spaceless sig
  remoteHashes : ∀ n hash, draft.remoteHashes.lookup n = some hash → n < 2 ^ 64 ∧ Spaceless hash
  remoteSecrets : ∀ n secret, draft.remoteSecrets.lookup n = some secret →
    n < 2 ^ 64 ∧ Spaceless secret
  history : ∀ n state, draft.history.lookup n = some state → n < 2 ^ 64 ∧ StoredState state
  abandoned : ∀ entry ∈ draft.abandoned, entry.1 < 2 ^ 64 ∧ StoredState entry.2

/-- The variables that hold a channel. -/
def Channel.draft (ch : Channel) : Draft where
  isA := ch.isA
  info := ch.info
  remotePub := ch.remotePub
  seed := ch.seed
  cur := ch.cur
  pending := ch.pending
  remoteSigCur := ch.remoteSigCur
  remoteSigPending := ch.remoteSigPending
  remoteHashes := ch.remoteHashes
  remoteSecrets := ch.remoteSecrets
  history := ch.history
  abandoned := ch.abandoned.map (fun state => (state.n, state))

/-- A channel of plain texts, with its keys, addresses and seed, that belongs to its wallet. -/
structure Storable (ch : Channel) : Prop where
  plain : PlainDraft ch.draft
  filled : ch.remotePub ≠ [] ∧ ch.seed ≠ [] ∧ ch.info.addrA ≠ [] ∧ ch.info.addrB ≠ []
  own : ch.keys.address = if ch.isA then ch.info.addrA else ch.info.addrB

/-! ### What is read is plain -/

theorem decodeState_stored (text : Bytes) (state : State) (plain : Spaceless text)
    (read : decodeState text = some state) : StoredState state := by
  refine ⟨decodeState_readable text state read, fun htlc member octet inside => ?_⟩
  by_contra space
  refine decodeState_absent octet text state (fun listed => ?_) read htlc member inside
  exact space (plain octet listed)

theorem extractDashed_plain (stream old : Bytes) (plain : Spaceless old) :
    Spaceless (extractDashed stream old) ∧ extractDashed stream old ≠ ascii "-" := by
  unfold extractDashed
  split
  · exact ⟨spaceless_nil, by decide⟩
  · rename_i other
    exact ⟨wordOr_spaceless stream old plain, other⟩

theorem extractNumbered_plain (stream : Bytes) (unset : Unset) :
    (extractNumbered stream unset).1 < 2 ^ 64 ∧ Spaceless (extractNumbered stream unset).2 := by
  refine ⟨number_lt 64 stream _ unset.number.toNat_lt, ?_⟩
  unfold extractNumbered
  dsimp only
  split
  · exact wordOr_spaceless _ _ spaceless_nil
  · exact spaceless_nil

/-- A table with one more entry. -/
theorem insert_all {ν : Type} {table : Table Nat ν} {property : Nat → ν → Prop}
    (all : ∀ n value, table.lookup n = some value → property n value) (n : Nat) (value : ν)
    (added : property n value) (tested : Nat) (found : ν)
    (looked : (table.insert n value).lookup tested = some found) : property tested found := by
  rw [lookup_insert] at looked
  split at looked
  · rename_i same
    rw [same, ← Option.some.inj looked]
    exact added
  · exact all tested found looked

/-- Either branch of a choice. -/
theorem of_ite {α : Type} {condition : Prop} [Decidable condition] {first second found : α}
    (chosen : (if condition then first else second) = found) : first = found ∨ second = found := by
  split at chosen
  · exact .inl chosen
  · exact .inr chosen

theorem readField_plain (unset : Unset) (draft after : Draft) (key rest : Bytes)
    (read : readField unset draft key rest = some after) (plain : PlainDraft draft) :
    PlainDraft after := by
  have stored : ∀ {stream : Bytes} {state : State}, decodeState (wordOr stream []) = some state →
      StoredState state := fun found =>
    decodeState_stored _ _ (wordOr_spaceless _ _ spaceless_nil) found
  unfold readField at read
  rcases of_ite read with read | read
  · rw [← Option.some.inj read]
    exact { plain with }
  rcases of_ite read with read | read
  · rw [← Option.some.inj read]
    exact { plain with addrA := wordOr_spaceless _ _ plain.addrA }
  rcases of_ite read with read | read
  · rw [← Option.some.inj read]
    exact { plain with addrB := wordOr_spaceless _ _ plain.addrB }
  rcases of_ite read with read | read
  · rw [← Option.some.inj read]
    exact { plain with }
  rcases of_ite read with read | read
  · split at read
    · rw [← Option.some.inj read]
      exact { plain with funding := extractDashed_plain _ _ plain.funding.1 }
    · rw [← Option.some.inj read]
      exact { plain with funding := extractDashed_plain _ _ plain.funding.1 }
  rcases of_ite read with read | read
  · rw [← Option.some.inj read]
    exact { plain with }
  rcases of_ite read with read | read
  · rw [← Option.some.inj read]
    exact { plain with }
  rcases of_ite read with read | read
  · rw [← Option.some.inj read]
    exact { plain with remotePub := wordOr_spaceless _ _ plain.remotePub }
  rcases of_ite read with read | read
  · rw [← Option.some.inj read]
    exact { plain with seed := wordOr_spaceless _ _ plain.seed }
  rcases of_ite read with read | read
  · obtain ⟨state, found, rfl⟩ := Option.map_eq_some_iff.mp read
    exact { plain with cur := stored found }
  rcases of_ite read with read | read
  · obtain ⟨state, found, rfl⟩ := Option.map_eq_some_iff.mp read
    exact { plain with pending := fun _ same => Option.some.inj same ▸ stored found }
  rcases of_ite read with read | read
  · rw [← Option.some.inj read]
    exact { plain with remoteSigCur := extractDashed_plain _ _ plain.remoteSigCur.1 }
  rcases of_ite read with read | read
  · rw [← Option.some.inj read]
    exact { plain with
      remoteSigPending := fun _ same => Option.some.inj same ▸ wordOr_spaceless _ _ spaceless_nil }
  rcases of_ite read with read | read
  · rw [← Option.some.inj read]
    exact { plain with
      remoteHashes := insert_all plain.remoteHashes _ _ (extractNumbered_plain rest unset) }
  rcases of_ite read with read | read
  · rw [← Option.some.inj read]
    exact { plain with
      remoteSecrets := insert_all plain.remoteSecrets _ _ (extractNumbered_plain rest unset) }
  have numbered := extractNumbered_plain rest unset
  rcases of_ite read with read | read
  · obtain ⟨state, found, rfl⟩ := Option.map_eq_some_iff.mp read
    exact { plain with
      history := insert_all plain.history _ _ ⟨numbered.1, decodeState_stored _ _ numbered.2 found⟩ }
  rcases of_ite read with read | read
  · obtain ⟨state, found, rfl⟩ := Option.map_eq_some_iff.mp read
    refine { plain with abandoned := fun entry member => ?_ }
    rcases List.mem_append.mp member with before | new
    · exact plain.abandoned entry before
    · rw [List.mem_singleton.mp new]
      exact ⟨numbered.1, decodeState_stored _ _ numbered.2 found⟩
  · rw [← Option.some.inj read]
    exact plain

theorem readLine_plain (unset : Unset) (draft after : Draft) (text : Bytes)
    (read : readLine unset draft text = some after) (plain : PlainDraft draft) : PlainDraft after := by
  unfold readLine at read
  split at read
  · rw [← Option.some.inj read]
    exact plain
  · exact readField_plain unset draft after _ _ read plain

theorem readLines_plain (unset : Unset) (lines : List Bytes) (draft after : Draft)
    (read : lines.foldlM (readLine unset) draft = some after) (plain : PlainDraft draft) :
    PlainDraft after := by
  induction lines generalizing draft with
  | nil => exact Option.some.inj read ▸ plain
  | cons text rest ih =>
    rw [List.foldlM_cons] at read
    obtain ⟨between, first, later⟩ := Option.bind_eq_some_iff.mp read
    exact ih between later (readLine_plain unset draft between text first plain)

/-- What was read as a channel is as plain as the channel. -/
theorem PlainDraft.same {draft : Draft} {ch : Channel} (plain : PlainDraft draft)
    (restores : Restores draft ch) : PlainDraft ch.draft where
  addrA := by
    rw [show ch.draft.info = draft.info from restores.info.symm]
    exact plain.addrA
  addrB := by
    rw [show ch.draft.info = draft.info from restores.info.symm]
    exact plain.addrB
  funding := by
    rw [show ch.draft.info = draft.info from restores.info.symm]
    exact plain.funding
  remotePub := by
    rw [show ch.draft.remotePub = draft.remotePub from restores.remotePub.symm]
    exact plain.remotePub
  seed := by
    rw [show ch.draft.seed = draft.seed from restores.seed.symm]
    exact plain.seed
  cur := by
    rw [show ch.draft.cur = draft.cur from restores.cur.symm]
    exact plain.cur
  pending := fun state flight => plain.pending state (restores.pending.trans flight)
  remoteSigCur := by
    rw [show ch.draft.remoteSigCur = draft.remoteSigCur from restores.remoteSigCur.symm]
    exact plain.remoteSigCur
  remoteSigPending := fun sig held => plain.remoteSigPending sig (restores.remoteSigPending.trans held)
  remoteHashes := fun n hash looked =>
    plain.remoteHashes n hash ((restores.remoteHashes n).trans looked)
  remoteSecrets := fun n secret looked =>
    plain.remoteSecrets n secret ((restores.remoteSecrets n).trans looked)
  history := fun n state looked => plain.history n state ((restores.history n).trans looked)
  abandoned := fun entry member => plain.abandoned entry (restores.abandoned.mem_iff.mpr member)

theorem plain_empty : PlainDraft Draft.empty where
  addrA := spaceless_nil
  addrB := spaceless_nil
  funding := ⟨spaceless_nil, by decide⟩
  remotePub := spaceless_nil
  seed := spaceless_nil
  cur := ⟨⟨by decide, by simp [Draft.empty]⟩, by simp [Draft.empty]⟩
  pending := by simp [Draft.empty]
  remoteSigCur := ⟨spaceless_nil, by decide⟩
  remoteSigPending := by simp [Draft.empty]
  remoteHashes := by simp [Draft.empty]
  remoteSecrets := by simp [Draft.empty]
  history := by simp [Draft.empty]
  abandoned := by simp [Draft.empty]

/-- A channel that comes back from any data is storable. -/
theorem restored_storable (ch : Channel) (data : Bytes) (unset : Unset) (draft : Draft)
    (read : deserialize data ch.keys unset = .ok draft) (restores : Restores draft ch) :
    Storable ch := by
  unfold deserialize at read
  split at read
  · simp at read
  · rename_i found lines
    have plain := readLines_plain unset _ _ _ lines plain_empty
    simp only [bind_ok, exists_unit, ensure_ok, pure_ok, Bool.and_eq_true, Bool.not_eq_true',
      List.isEmpty_eq_false_iff, decide_eq_true_eq] at read
    obtain ⟨⟨⟨⟨remotePub, seed⟩, addrA⟩, addrB⟩, own, rfl⟩ := read
    rw [restores.remotePub] at remotePub
    rw [restores.seed] at seed
    rw [restores.info] at addrA addrB own
    rw [restores.isA] at own
    exact ⟨plain.same restores, ⟨remotePub, seed, addrA, addrB⟩, own⟩

/-! ### What was written is one word each -/

theorem StoredState.word {state : State} (stored : StoredState state) :
    Spaceless (encodeState state) ∧ encodeState state ≠ [] := by
  have digits := decimal_spaceless
  have colon : Spaceless (ascii ":") := spaceless_of_all (by decide)
  have comma : Spaceless (ascii ",") := spaceless_of_all (by decide)
  have semicolon : Spaceless (ascii ";") := spaceless_of_all (by decide)
  constructor
  · have htlcs : Spaceless (List.intercalate (ascii ";") (state.htlcs.map encodeHtlc)) := by
      intro octet member
      rcases mem_intercalate _ _ member with separator | ⟨part, listed, inside⟩
      · exact semicolon octet separator
      · obtain ⟨htlc, among, rfl⟩ := List.mem_map.mp listed
        have flag : Spaceless (if htlc.offeredByA then ascii "1" else ascii "0") := by
          cases htlc.offeredByA <;> exact spaceless_of_all (by decide)
        have plain : Spaceless (encodeHtlc htlc) :=
          ((((((((digits _).append comma).append flag).append comma).append (digits _)).append
            comma).append (stored.hashes htlc among)).append comma).append (digits _)
        exact plain octet inside
    exact ((((((((digits _).append colon).append (digits _)).append colon).append (digits _)).append
      colon).append (digits _)).append colon).append htlcs
  · intro none
    have width := congrArg List.length none
    simp [encodeState, ascii] at width

variable {text : Bytes}

theorem dashed_word (plain : Spaceless text) :
    Spaceless (dashed text) ∧ dashed text ≠ [] := by
  unfold dashed
  split
  · exact ⟨spaceless_of_all (by decide), by decide⟩
  · rename_i some
    exact ⟨plain, fun none => some (by simp [none])⟩

/-! ### Reading what was written -/

theorem wordOr_word (plain : Spaceless text) (some : text ≠ []) (old : Bytes) :
    wordOr (byte ' ' :: text) old = text := by
  rw [wordOr_space plain old (byte ' ') (by decide), if_neg some]

/-- An empty text is the initial value of its variable. -/
theorem wordOr_nil (plain : Spaceless text) : wordOr (byte ' ' :: text) [] = text := by
  rw [wordOr_space plain [] (byte ' ') (by decide)]
  split
  · rename_i none
    exact none.symm
  · rfl

theorem extractWord_decimal (value old : UInt64) :
    extractWord (byte ' ' :: decimal value.toNat) old = value := by
  have read := number_decimal 64 value.toNat value.toNat_lt [] old.toNat (.inl rfl)
  rw [List.append_nil] at read
  rw [extractWord, number_skip 64 (byte ' ') _ _ (by decide), read, UInt64.ofNat_toNat]

theorem extractDashed_dashed (plain : Spaceless text) (other : text ≠ ascii "-")
    (old : Bytes) : extractDashed (byte ' ' :: dashed text) old = text := by
  obtain ⟨spaceless, some⟩ := dashed_word plain
  rw [extractDashed, wordOr_word spaceless some]
  unfold dashed
  by_cases none : text = []
  · simp [none]
  · simp [none, other]

theorem extractNumbered_numbered (n : Nat) (small : n < 2 ^ 64) (plain : Spaceless text)
    (unset : Unset) :
    extractNumbered (byte ' ' :: (decimal n ++ byte ' ' :: text)) unset = (n, text) := by
  have read := number_decimal 64 n small (byte ' ' :: text) unset.number.toNat
    (.inr ⟨_, _, rfl, by decide⟩)
  simp only [extractNumbered, number_skip 64 (byte ' ') _ _ (show isSpace (byte ' ') = true by decide),
    read, if_true, wordOr_nil plain]

theorem readLine_key (unset : Unset) (draft : Draft) (key value : Bytes) (plain : Spaceless key)
    (some : key ≠ []) :
    readLine unset draft (key ++ byte ' ' :: value) =
      readField unset draft key (byte ' ' :: value) := by
  rw [readLine, word_space plain some (byte ' ') (by decide) value]

/-! ### The lines -/

/-- What is read from the lines that every file has. -/
def Channel.front (ch : Channel) : Draft :=
  { Draft.empty with
    isA := ch.isA
    info := ch.info
    remotePub := ch.remotePub
    seed := ch.seed
    cur := ch.cur
    remoteSigCur := ch.remoteSigCur }

theorem read_front (unset : Unset) (ch : Channel) (storable : Storable ch) :
    (frontLines ch).foldlM (readLine unset) Draft.empty = some ch.front := by
  obtain ⟨plain, ⟨remotePub, seed, addrA, addrB⟩, _⟩ := storable
  -- what each key sets, for any value
  have key : ∀ (draft : Draft) (name value : Bytes), name.all (fun octet => !isSpace octet) = true →
      name ≠ [] → readLine unset draft (name ++ byte ' ' :: value) =
        readField unset draft name (byte ' ' :: value) :=
    fun draft name value plain => readLine_key unset draft name value (spaceless_of_all plain)
  have version : ∀ draft, readLine unset draft (ascii "v 1") = some draft := fun draft =>
    key draft (ascii "v") (ascii "1") (by decide) (by decide)
  have isALine : ∀ draft value, readLine unset draft (ascii "is_a " ++ value) =
      some { draft with isA := extractsOne (byte ' ' :: value) unset.isOne } := fun draft value =>
    key draft (ascii "is_a") value (by decide) (by decide)
  have addrALine : ∀ draft value, readLine unset draft (ascii "addr_a " ++ value) =
      some { draft with info := { draft.info with addrA := wordOr (byte ' ' :: value) draft.info.addrA } } := fun draft value =>
    key draft (ascii "addr_a") value (by decide) (by decide)
  have addrBLine : ∀ draft value, readLine unset draft (ascii "addr_b " ++ value) =
      some { draft with info := { draft.info with addrB := wordOr (byte ' ' :: value) draft.info.addrB } } := fun draft value =>
    key draft (ascii "addr_b") value (by decide) (by decide)
  have capacityLine : ∀ draft value, readLine unset draft (ascii "capacity " ++ value) =
      some { draft with info := { draft.info with capacity := extractWord (byte ' ' :: value) draft.info.capacity } } := fun draft value =>
    key draft (ascii "capacity") value (by decide) (by decide)
  have delayLine : ∀ draft value, readLine unset draft (ascii "delay " ++ value) =
      some { draft with info := { draft.info with toSelfDelay := extractWord (byte ' ' :: value) draft.info.toSelfDelay } } := fun draft value =>
    key draft (ascii "delay") value (by decide) (by decide)
  have feeLine : ∀ draft value, readLine unset draft (ascii "fee " ++ value) =
      some { draft with info := { draft.info with fee := extractWord (byte ' ' :: value) draft.info.fee } } := fun draft value =>
    key draft (ascii "fee") value (by decide) (by decide)
  have remotePubLine : ∀ draft value, readLine unset draft (ascii "remote_pub " ++ value) =
      some { draft with remotePub := wordOr (byte ' ' :: value) draft.remotePub } := fun draft value =>
    key draft (ascii "remote_pub") value (by decide) (by decide)
  have seedLine : ∀ draft value, readLine unset draft (ascii "seed " ++ value) =
      some { draft with seed := wordOr (byte ' ' :: value) draft.seed } := fun draft value =>
    key draft (ascii "seed") value (by decide) (by decide)
  have curLine : ∀ draft value, readLine unset draft (ascii "cur " ++ value) =
      (decodeState (wordOr (byte ' ' :: value) [])).map (fun state => { draft with cur := state }) := fun draft value =>
    key draft (ascii "cur") value (by decide) (by decide)
  have sigCurLine : ∀ draft value, readLine unset draft (ascii "remote_sig_cur " ++ value) =
      some { draft with remoteSigCur := extractDashed (byte ' ' :: value) draft.remoteSigCur } := fun draft value =>
    key draft (ascii "remote_sig_cur") value (by decide) (by decide)
  have fundingLine : ∀ draft value, readLine unset draft (ascii "funding " ++ value) =
      match word (byte ' ' :: value) with
      | none =>
        some { draft with info := { draft.info with
          fundingTxid := extractDashed (byte ' ' :: value) draft.info.fundingTxid } }
      | some (_, left) =>
        some { draft with info := { draft.info with
          fundingTxid := extractDashed (byte ' ' :: value) draft.info.fundingTxid
          fundingVout := UInt32.ofNat (number 32 left draft.info.fundingVout.toNat).value } } :=
    fun draft value => key draft (ascii "funding") value (by decide) (by decide)
  -- what the values of this channel give
  have flag : extractsOne (byte ' ' :: (if ch.isA then ascii "1" else ascii "0")) unset.isOne =
      ch.isA := by
    cases ch.isA <;> rfl
  have vout : ∀ old, (number 32 (byte ' ' :: decimal ch.info.fundingVout.toNat) old).value =
      ch.info.fundingVout.toNat := by
    intro old
    have read := number_decimal 32 ch.info.fundingVout.toNat ch.info.fundingVout.toNat_lt [] old (.inl rfl)
    rw [List.append_nil] at read
    rw [number_skip 32 (byte ' ') _ _ (by decide), read]
  have addrAText : ∀ old, wordOr (byte ' ' :: ch.info.addrA) old = ch.info.addrA :=
    wordOr_word plain.addrA addrA
  have addrBText : ∀ old, wordOr (byte ' ' :: ch.info.addrB) old = ch.info.addrB :=
    wordOr_word plain.addrB addrB
  have remotePubText : ∀ old, wordOr (byte ' ' :: ch.remotePub) old = ch.remotePub :=
    wordOr_word plain.remotePub remotePub
  have seedText : ∀ old, wordOr (byte ' ' :: ch.seed) old = ch.seed := wordOr_word plain.seed seed
  have sigText : ∀ old, extractDashed (byte ' ' :: dashed ch.remoteSigCur) old = ch.remoteSigCur :=
    extractDashed_dashed plain.remoteSigCur.1 plain.remoteSigCur.2
  have fundingText : ∀ old, extractDashed (byte ' ' :: dashed ch.info.fundingTxid) old =
      ch.info.fundingTxid := extractDashed_dashed plain.funding.1 plain.funding.2
  obtain ⟨txidPlain, txidFilled⟩ : Spaceless (dashed ch.info.fundingTxid) ∧
      dashed ch.info.fundingTxid ≠ [] := dashed_word plain.funding.1
  have txid : word (byte ' ' :: (dashed ch.info.fundingTxid ++
      byte ' ' :: decimal ch.info.fundingVout.toNat)) =
        some (dashed ch.info.fundingTxid, byte ' ' :: decimal ch.info.fundingVout.toNat) := by
    rw [word_skip (byte ' ') _ (by decide)]
    exact word_space txidPlain txidFilled (byte ' ') (by decide) _
  have txidText : ∀ old, extractDashed (byte ' ' :: (dashed ch.info.fundingTxid ++
      byte ' ' :: decimal ch.info.fundingVout.toNat)) old = ch.info.fundingTxid := by
    intro old
    have whole := fundingText old
    rw [extractDashed, wordOr_word txidPlain txidFilled] at whole
    rw [extractDashed, wordOr, txid]
    exact whole
  obtain ⟨statePlain, stateFilled⟩ : Spaceless (encodeState ch.cur) ∧ encodeState ch.cur ≠ [] :=
    plain.cur.word
  have decoded : decodeState (wordOr (byte ' ' :: encodeState ch.cur) []) = some ch.cur := by
    rw [wordOr_word statePlain stateFilled]
    exact decodeState_encodeState _ plain.cur.readable
  simp only [frontLines, List.foldlM_cons, List.foldlM_nil, List.append_assoc,
    show ascii " " = [byte ' '] from rfl, List.cons_append, List.nil_append, version, isALine,
    addrALine, addrBLine, capacityLine, fundingLine, delayLine, feeLine, remotePubLine, seedLine, curLine,
    sigCurLine, Option.bind_eq_bind, Option.bind_some, Option.pure_def, flag, txid, txidText, vout,
    addrAText, addrBText, extractWord_decimal, remotePubText, seedText, decoded, Option.map_some, sigText,
    UInt32.ofNat_toNat]
  rfl

theorem numbered_key (key : Bytes) (n : Nat) (text : Bytes) :
    numbered (key ++ ascii " ") n text = key ++ byte ' ' :: (decimal n ++ byte ' ' :: text) := by
  simp [numbered, ascii]

/-- The lines of a list of numbered texts, when each of them sets what it should. -/
theorem read_numbered {α : Type} (unset : Unset) (write : α → Bytes) (set : Draft → α → Draft)
    (items : List α) (each : ∀ draft, ∀ item ∈ items, readLine unset draft (write item) =
      some (set draft item)) (draft : Draft) :
    (items.map write).foldlM (readLine unset) draft = some (items.foldl set draft) := by
  induction items generalizing draft with
  | nil => rfl
  | cons item rest ih =>
    rw [List.map_cons, List.foldlM_cons, each draft item (List.mem_cons_self ..)]
    exact ih (fun draft other member => each draft other (List.mem_cons_of_mem _ member))
      (set draft item)

theorem readLine_numbered (unset : Unset) (draft : Draft) (key : Bytes) (plain : Spaceless key)
    (filled : key ≠ []) (n : Nat) (text : Bytes) :
    readLine unset draft (numbered (key ++ ascii " ") n text) =
      readField unset draft key (byte ' ' :: (decimal n ++ byte ' ' :: text)) := by
  rw [numbered_key]
  exact readLine_key unset draft key _ plain filled

section Tables

variable (unset : Unset) (draft : Draft)

theorem read_hashes (entries : List (Nat × Bytes))
    (plain : ∀ entry ∈ entries, entry.1 < 2 ^ 64 ∧ Spaceless entry.2) :
    (entries.map (fun entry => numbered (ascii "rhash ") entry.1 entry.2)).foldlM
      (readLine unset) draft = some { draft with remoteHashes := putAll draft.remoteHashes entries } := by
  rw [read_numbered unset _ (fun draft entry => { draft with remoteHashes := draft.remoteHashes.insert entry.1 entry.2 })]
  · congr 1
    induction entries generalizing draft with
    | nil => rfl
    | cons entry rest ih =>
      exact ih _ (fun other member => plain other (List.mem_cons_of_mem _ member))
  · intro draft entry member
    obtain ⟨small, spaceless⟩ := plain entry member
    have read := extractNumbered_numbered entry.1 small spaceless unset
    refine (readLine_numbered unset draft (ascii "rhash") (spaceless_of_all (by decide)) (by decide)
      entry.1 entry.2).trans ?_
    have shape : ∀ stream, readField unset draft (ascii "rhash") stream = some { draft with
        remoteHashes := draft.remoteHashes.insert (extractNumbered stream unset).1
          (extractNumbered stream unset).2 } := fun _ => rfl
    rw [shape, read]

theorem read_secrets (entries : List (Nat × Bytes))
    (plain : ∀ entry ∈ entries, entry.1 < 2 ^ 64 ∧ Spaceless entry.2) :
    (entries.map (fun entry => numbered (ascii "rsecret ") entry.1 entry.2)).foldlM
      (readLine unset) draft = some { draft with remoteSecrets := putAll draft.remoteSecrets entries } := by
  rw [read_numbered unset _ (fun draft entry => { draft with remoteSecrets := draft.remoteSecrets.insert entry.1 entry.2 })]
  · congr 1
    induction entries generalizing draft with
    | nil => rfl
    | cons entry rest ih =>
      exact ih _ (fun other member => plain other (List.mem_cons_of_mem _ member))
  · intro draft entry member
    obtain ⟨small, spaceless⟩ := plain entry member
    have read := extractNumbered_numbered entry.1 small spaceless unset
    refine (readLine_numbered unset draft (ascii "rsecret") (spaceless_of_all (by decide)) (by decide)
      entry.1 entry.2).trans ?_
    have shape : ∀ stream, readField unset draft (ascii "rsecret") stream = some { draft with
        remoteSecrets := draft.remoteSecrets.insert (extractNumbered stream unset).1
          (extractNumbered stream unset).2 } := fun _ => rfl
    rw [shape, read]

theorem read_history (entries : List (Nat × State))
    (plain : ∀ entry ∈ entries, entry.1 < 2 ^ 64 ∧ StoredState entry.2) :
    (entries.map (fun entry => numbered (ascii "hist ") entry.1 (encodeState entry.2))).foldlM
      (readLine unset) draft = some { draft with history := putAll draft.history entries } := by
  rw [read_numbered unset _ (fun draft entry => { draft with history := draft.history.insert entry.1 entry.2 })]
  · congr 1
    induction entries generalizing draft with
    | nil => rfl
    | cons entry rest ih =>
      exact ih _ (fun other member => plain other (List.mem_cons_of_mem _ member))
  · intro draft entry member
    obtain ⟨small, stored⟩ := plain entry member
    have read := extractNumbered_numbered entry.1 small (stored.word.1) unset
    refine (readLine_numbered unset draft (ascii "hist") (spaceless_of_all (by decide)) (by decide)
      entry.1 (encodeState entry.2)).trans ?_
    have shape : ∀ stream, readField unset draft (ascii "hist") stream =
        (decodeState (extractNumbered stream unset).2).map (fun state =>
          { draft with history := draft.history.insert (extractNumbered stream unset).1 state }) :=
      fun _ => rfl
    rw [shape, read, decodeState_encodeState _ stored.readable]
    rfl

theorem read_abandoned (states : List State)
    (plain : ∀ state ∈ states, state.n < 2 ^ 64 ∧ StoredState state) :
    (states.map (fun state => numbered (ascii "aband ") state.n (encodeState state))).foldlM
      (readLine unset) draft =
        some { draft with abandoned := draft.abandoned ++ states.map (fun state => (state.n, state)) } := by
  rw [read_numbered unset _ (fun draft state =>
    { draft with abandoned := draft.abandoned ++ [(state.n, state)] })]
  · congr 1
    induction states generalizing draft with
    | nil => simp
    | cons state rest ih =>
      rw [List.foldl_cons,
        ih _ (fun other member => plain other (List.mem_cons_of_mem _ member))]
      simp
  · intro draft state member
    obtain ⟨small, stored⟩ := plain state member
    have read := extractNumbered_numbered state.n small stored.word.1 unset
    refine (readLine_numbered unset draft (ascii "aband") (spaceless_of_all (by decide)) (by decide)
      state.n (encodeState state)).trans ?_
    have shape : ∀ stream, readField unset draft (ascii "aband") stream =
        (decodeState (extractNumbered stream unset).2).map (fun state =>
          { draft with abandoned := draft.abandoned ++ [((extractNumbered stream unset).1, state)] }) :=
      fun _ => rfl
    rw [shape, read, decodeState_encodeState _ stored.readable]
    rfl

theorem read_pending (pending : Option State) (plain : ∀ state, pending = some state → StoredState state)
    (idle : draft.pending = none) :
    (pending.toList.map (fun state => ascii "pending " ++ encodeState state)).foldlM (readLine unset)
      draft = some { draft with pending := pending } := by
  cases pending with
  | none =>
    show some draft = some { draft with pending := none }
    rw [← idle]
  | some state =>
    obtain stored := plain state rfl
    have line : readLine unset draft (ascii "pending " ++ encodeState state) =
        (decodeState (wordOr (byte ' ' :: encodeState state) [])).map
          (fun state => { draft with pending := some state }) :=
      readLine_key unset draft (ascii "pending") (encodeState state) (spaceless_of_all (by decide))
        (by decide)
    rw [wordOr_word stored.word.1 stored.word.2, decodeState_encodeState _ stored.readable] at line
    simp only [Option.toList_some, List.map_cons, List.map_nil, List.foldlM_cons, line, Option.map_some]
    rfl

theorem read_sigPending (sig : Option Bytes) (plain : ∀ text, sig = some text → Spaceless text)
    (idle : draft.remoteSigPending = none) :
    (sig.toList.map (fun sig => ascii "remote_sig_pending " ++ sig)).foldlM (readLine unset) draft =
      some { draft with remoteSigPending := sig } := by
  cases sig with
  | none =>
    show some draft = some { draft with remoteSigPending := none }
    rw [← idle]
  | some text =>
    have line : readLine unset draft (ascii "remote_sig_pending " ++ text) =
        some { draft with remoteSigPending := some (wordOr (byte ' ' :: text) []) } :=
      readLine_key unset draft (ascii "remote_sig_pending") text (spaceless_of_all (by decide)) (by decide)
    rw [wordOr_nil (plain text rfl)] at line
    simp only [Option.toList_some, List.map_cons, List.map_nil, List.foldlM_cons, line]
    rfl

end Tables

/-! ### Coming back -/

theorem lines_plain (ch : Channel) (order : FileOrder) (listed : FileOrder.Of order ch)
    (storable : Storable ch) : ∀ text ∈ fileLines ch order, newline ∉ text := by
  obtain ⟨plain, _, _⟩ := storable
  have digits : ∀ value, newline ∉ decimal value :=
    fun value => newline_of_spaceless (decimal_spaceless value)
  have join : ∀ {left right : Bytes}, newline ∉ left → newline ∉ right → newline ∉ left ++ right :=
    fun first second member => (List.mem_append.mp member).elim first second
  have numbers : ∀ (key : Bytes) (n : Nat) (text : Bytes), newline ∉ key → Spaceless text →
      newline ∉ numbered key n text := fun key n text first last =>
    join (join (join first (digits n)) (by decide)) (newline_of_spaceless last)
  have flag : newline ∉ (if ch.isA then ascii "1" else ascii "0") := by
    cases ch.isA <;> decide
  intro text member
  simp only [fileLines, List.mem_append, List.mem_map, Option.mem_toList] at member
  rcases member with (((((front | ⟨state, flight, rfl⟩) | ⟨sig, held, rfl⟩) | ⟨entry, inside, rfl⟩) |
    ⟨entry, inside, rfl⟩) | ⟨entry, inside, rfl⟩) | ⟨state, inside, rfl⟩
  · simp only [frontLines, List.mem_cons, List.not_mem_nil, or_false] at front
    rcases front with rfl | rfl | rfl | rfl | rfl | rfl | rfl | rfl | rfl | rfl | rfl | rfl
    · decide
    · exact join (by decide) flag
    · exact join (by decide) (newline_of_spaceless plain.addrA)
    · exact join (by decide) (newline_of_spaceless plain.addrB)
    · exact join (by decide) (digits _)
    · exact join (join (join (by decide) (newline_of_spaceless (dashed_word plain.funding.1).1))
        (by decide)) (digits _)
    · exact join (by decide) (digits _)
    · exact join (by decide) (digits _)
    · exact join (by decide) (newline_of_spaceless plain.remotePub)
    · exact join (by decide) (newline_of_spaceless plain.seed)
    · exact join (by decide) (newline_of_spaceless plain.cur.word.1)
    · exact join (by decide) (newline_of_spaceless (dashed_word plain.remoteSigCur.1).1)
  · exact join (by decide) (newline_of_spaceless (plain.pending state flight).word.1)
  · exact join (by decide) (newline_of_spaceless (plain.remoteSigPending sig held))
  · exact numbers _ _ _ (by decide)
      (plain.remoteHashes _ _ ((listed.remoteHashes.entries _ _).mp inside)).2
  · exact numbers _ _ _ (by decide)
      (plain.remoteSecrets _ _ ((listed.remoteSecrets.entries _ _).mp inside)).2
  · exact numbers _ _ _ (by decide)
      (plain.history _ _ ((listed.history.entries _ _).mp inside)).2.word.1
  · have stored := plain.abandoned (state.n, state)
      (List.mem_map.mpr ⟨state, listed.abandoned.mem_iff.mp inside, rfl⟩)
    exact numbers _ _ _ (by decide) stored.2.word.1

/-- A storable channel comes back from its file. -/
theorem storable_roundTrips (ch : Channel) (storable : Storable ch) : RoundTrips ch := by
  intro order listed unset
  have lines : splitLines (serialize ch order) = fileLines ch order :=
    splitLines_lines _ (lines_plain ch order listed storable)
  have front := read_front unset ch storable
  obtain ⟨plain, ⟨remotePub, seed, addrA, addrB⟩, own⟩ := storable
  have hashes : ∀ entry ∈ order.remoteHashes, entry.1 < 2 ^ 64 ∧ Spaceless entry.2 :=
    fun entry inside => plain.remoteHashes _ _ ((listed.remoteHashes.entries _ _).mp inside)
  have secrets : ∀ entry ∈ order.remoteSecrets, entry.1 < 2 ^ 64 ∧ Spaceless entry.2 :=
    fun entry inside => plain.remoteSecrets _ _ ((listed.remoteSecrets.entries _ _).mp inside)
  have history : ∀ entry ∈ order.history, entry.1 < 2 ^ 64 ∧ StoredState entry.2 :=
    fun entry inside => plain.history _ _ ((listed.history.entries _ _).mp inside)
  have abandoned : ∀ state ∈ order.abandoned, state.n < 2 ^ 64 ∧ StoredState state :=
    fun state inside => plain.abandoned (state.n, state)
      (List.mem_map.mpr ⟨state, listed.abandoned.mem_iff.mp inside, rfl⟩)
  have read : (fileLines ch order).foldlM (readLine unset) Draft.empty =
      some { ch.front with
        pending := ch.pending
        remoteSigPending := ch.remoteSigPending
        remoteHashes := putAll ∅ order.remoteHashes
        remoteSecrets := putAll ∅ order.remoteSecrets
        history := putAll ∅ order.history
        abandoned := order.abandoned.map (fun state => (state.n, state)) } := by
    simp only [fileLines, List.foldlM_append, front, Option.bind_eq_bind, Option.bind_some,
      read_pending unset ch.front ch.pending plain.pending rfl]
    rw [read_sigPending unset _ ch.remoteSigPending plain.remoteSigPending rfl, Option.bind_some,
      read_hashes unset _ _ hashes, Option.bind_some, read_secrets unset _ _ secrets, Option.bind_some,
      read_history unset _ _ history, Option.bind_some, read_abandoned unset _ _ abandoned]
    rfl
  have found : deserialize (serialize ch order) ch.keys unset = .ok { ch.front with
      pending := ch.pending
      remoteSigPending := ch.remoteSigPending
      remoteHashes := putAll ∅ order.remoteHashes
      remoteSecrets := putAll ∅ order.remoteSecrets
      history := putAll ∅ order.history
      abandoned := order.abandoned.map (fun state => (state.n, state)) } := by
    unfold deserialize
    rw [lines, read]
    simp only [bind_ok, exists_unit, ensure_ok, pure_ok, Bool.and_eq_true, Bool.not_eq_true',
      List.isEmpty_eq_false_iff, decide_eq_true_eq]
    exact ⟨⟨⟨⟨remotePub, seed⟩, addrA⟩, addrB⟩, own, trivial⟩
  exact ⟨_, found, rfl, rfl, rfl, rfl, rfl, rfl, rfl, rfl, listed.remoteHashes.lookup,
    listed.remoteSecrets.lookup, listed.history.lookup, listed.abandoned.map _⟩

/-- The order in which the model keeps the tables. -/
def Channel.ownOrder (ch : Channel) : FileOrder :=
  ⟨ch.remoteHashes.entries.map (fun entry => (entry.1, entry.2)),
    ch.remoteSecrets.entries.map (fun entry => (entry.1, entry.2)),
    ch.history.entries.map (fun entry => (entry.1, entry.2)), ch.abandoned⟩

theorem Channel.ownOrder_of (ch : Channel) : FileOrder.Of ch.ownOrder ch :=
  ⟨lists_entries _, lists_entries _, lists_entries _, List.Perm.refl _⟩

/-- A channel comes back from its file exactly when it is storable. -/
theorem roundTrips_iff (ch : Channel) : RoundTrips ch ↔ Storable ch := by
  constructor
  · intro roundTrips
    obtain ⟨draft, read, restores⟩ := roundTrips _ ch.ownOrder_of ⟨false, 0⟩
    exact restored_storable ch _ _ draft read restores
  · exact storable_roundTrips ch

end Addition.Channels
