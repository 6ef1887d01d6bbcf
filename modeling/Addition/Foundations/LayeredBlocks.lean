import Mathlib.Data.List.Basic

/-!
# Blocks in layers

A block of fixed width is wrapped in layers, one for each reader. A layer puts an entry in
front of the block, masks both with a stream and cuts the end off. Its reader extends the
block by blanks to the width of the stream and unmasks: the entry comes out in front, and
behind it a block of the old width.

What was cut off must come back from the blanks. So the innermost block ends in a filler,
which each layer extends by one entry: the end of a block under a stream is then the filler
of that layer, and the blanks give the rest.
-/

namespace LayeredBlocks

variable {α : Type} (mask : α → α → α) (blank : α)

/-- A text under a stream, place by place. -/
def under (text stream : List α) : List α := List.zipWith mask text stream

@[simp] theorem under_length (text stream : List α) (covered : text.length ≤ stream.length) :
    (under mask text stream).length = text.length := by
  rw [under, List.length_zipWith, Nat.min_eq_left covered]

/-- Two texts one behind the other, each under its part of the stream. -/
theorem under_append (text text' stream stream' : List α) (width : text.length = stream.length) :
    under mask (text ++ text') (stream ++ stream') =
      under mask text stream ++ under mask text' stream' :=
  List.zipWith_append width

/-- Behind the last place of the text the stream does not matter. -/
theorem under_more (text stream more : List α) (width : text.length = stream.length) :
    under mask text (stream ++ more) = under mask text stream := by
  have parts := under_append mask text [] stream more width
  rwa [List.append_nil, show under mask [] more = [] from rfl, List.append_nil] at parts

/-- A text under the same stream twice. -/
theorem under_under (undoes : ∀ value key, mask (mask value key) key = value) (text stream : List α)
    (covered : text.length ≤ stream.length) : under mask (under mask text stream) stream = text := by
  induction text generalizing stream with
  | nil => rfl
  | cons first rest ih =>
    cases stream with
    | nil => simp at covered
    | cons key keys =>
      have later := ih keys (by simpa using covered)
      rw [under, under, List.zipWith_cons_cons, List.zipWith_cons_cons, undoes]
      exact congrArg (first :: ·) later

/-! ### One layer -/

/-- The filler of the next layer. -/
def fill (entry routing : Nat) (stream filler : List α) : List α :=
  under mask (filler ++ List.replicate entry blank) (stream.drop (routing - filler.length))

/-- An entry and a block under a stream, cut to the width of the block. -/
def wrap (routing : Nat) (stream front block : List α) : List α :=
  (under mask (front ++ block) stream).take routing

/-- What the reader of a layer sees. -/
def unwrap (entry : Nat) (stream block : List α) : List α :=
  under mask (block ++ List.replicate entry blank) stream

variable {entry : Nat} {filler : List α} {routing : Nat} {stream : List α}

/-- Where the stream of a layer is cut. -/
theorem stream_parts (room : filler.length ≤ routing) (width : stream.length = routing + entry) :
    ∃ front middle last, stream = front ++ middle ++ last ∧
      front.length = routing - filler.length ∧ middle.length = filler.length ∧
      last.length = entry ∧ stream.drop (routing - filler.length) = middle ++ last := by
  refine ⟨stream.take (routing - filler.length),
    (stream.drop (routing - filler.length)).take filler.length,
    (stream.drop (routing - filler.length)).drop filler.length, ?_, ?_, ?_, ?_, ?_⟩
  · rw [List.append_assoc, List.take_append_drop, List.take_append_drop]
  · rw [List.length_take]
    omega
  · rw [List.length_take, List.length_drop]
    omega
  · rw [List.length_drop, List.length_drop]
    omega
  · rw [List.take_append_drop]

theorem fill_length (room : filler.length ≤ routing) (width : stream.length = routing + entry) :
    (fill mask blank entry routing stream filler).length = filler.length + entry := by
  obtain ⟨_, middle, last, _, _, middleWidth, lastWidth, rest⟩ := stream_parts room width
  have covered : (filler ++ List.replicate entry blank).length = (middle ++ last).length := by
    rw [List.length_append, List.length_append, List.length_replicate, middleWidth, lastWidth]
  rw [fill, rest, under_length mask _ _ (Nat.le_of_eq covered), List.length_append,
    List.length_replicate]

/-- A layer over a block that ends in the extended filler: the new block ends in the filler,
and its reader finds the entry and the block. -/
theorem wrap_unwraps (undoes : ∀ value key, mask (mask value key) key = value)
    {front block : List α}
    (room : filler.length + entry ≤ routing) (width : stream.length = routing + entry)
    (frontWidth : front.length = entry) (blockWidth : block.length = routing)
    (ends : block.drop (routing - (filler.length + entry)) =
      fill mask blank entry routing stream filler) :
    (wrap mask routing stream front block).length = routing ∧
      (wrap mask routing stream front block).drop (routing - filler.length) = filler ∧
      unwrap mask blank entry stream (wrap mask routing stream front block) = front ++ block := by
  obtain ⟨first, middle, last, parts, firstWidth, middleWidth, lastWidth, rest⟩ :=
    stream_parts (Nat.le_trans (Nat.le_add_right _ _) room) width
  let body := block.take (routing - (filler.length + entry))
  have bodyWidth : (front ++ body).length = first.length := by
    rw [List.length_append, List.length_take, frontWidth, firstWidth]
    omega
  have filled : fill mask blank entry routing stream filler =
      under mask filler middle ++ under mask (List.replicate entry blank) last := by
    rw [fill, rest, under_append mask _ _ _ _ middleWidth.symm]
  have whole : front ++ block = (front ++ body) ++
      (under mask filler middle ++ under mask (List.replicate entry blank) last) := by
    rw [List.append_assoc, ← filled, ← ends, List.take_append_drop]
  have middleCovers : filler.length ≤ middle.length := Nat.le_of_eq middleWidth.symm
  have lastCovers : (List.replicate entry blank).length ≤ last.length :=
    Nat.le_of_eq (by rw [List.length_replicate, lastWidth])
  have masked : under mask (front ++ block) stream =
      under mask (front ++ body) first ++ filler ++ List.replicate entry blank := by
    rw [whole, parts, List.append_assoc first, under_append mask _ _ _ _ bodyWidth,
      under_append mask _ _ _ _ (by rw [under_length mask _ _ middleCovers, middleWidth]),
      under_under mask undoes _ _ middleCovers, under_under mask undoes _ _ lastCovers,
      List.append_assoc]
  have headWidth : (under mask (front ++ body) first).length = routing - filler.length := by
    rw [under_length mask _ _ (Nat.le_of_eq bodyWidth), bodyWidth, firstWidth]
  have kept : wrap mask routing stream front block =
      under mask (front ++ body) first ++ filler := by
    rw [wrap, masked]
    refine List.take_left' ?_
    rw [List.length_append, headWidth]
    omega
  refine ⟨?_, ?_, ?_⟩
  · rw [kept, List.length_append, headWidth]
    omega
  · rw [kept]
    exact List.drop_left' headWidth
  · rw [unwrap, kept, ← masked]
    refine under_under mask undoes _ _ (Nat.le_of_eq ?_)
    rw [List.length_append, frontWidth, blockWidth, width, Nat.add_comm]

/-- The reader of the innermost layer finds its text in front. -/
theorem innermost_unwraps (undoes : ∀ value key, mask (mask value key) key = value)
    (entry : Nat) (stream text filler : List α) (covered : text.length ≤ stream.length) :
    (unwrap mask blank entry stream (under mask text stream ++ filler)).take text.length = text := by
  obtain ⟨front, back, parts, width⟩ : ∃ front back, stream = front ++ back ∧
      text.length = front.length := by
    refine ⟨stream.take text.length, stream.drop text.length, ?_, ?_⟩
    · exact (List.take_append_drop _ _).symm
    · rw [List.length_take, Nat.min_eq_left covered]
  have masked : under mask text stream = under mask text front := by
    rw [parts, under_more mask _ _ _ width]
  have cut : (under mask text front).length = front.length := by
    rw [under_length mask _ _ (Nat.le_of_eq width), width]
  rw [masked, unwrap, parts, List.append_assoc, under_append mask _ _ _ _ cut,
    under_under mask undoes _ _ (Nat.le_of_eq width)]
  exact List.take_left

end LayeredBlocks
