import Addition.Persistence
import Addition.StakingRules
import Addition.Sequential
import Addition.Replay

/-!
# Restarting from the block file

Loading what a chain saved is a replay of its blocks when their texts are free of
separators, and nothing the reader produces contains a separator. So a chain comes
back from its file exactly when no text in it contains one, and every block but the
first has a height other than zero.
-/

namespace Addition.Store

open ByteStrings Checked FiniteTables TextLines

variable {P : Primitives}

/-! ### Whole lines -/

theorem inputLines_whole (input : TxInput) (txid : PlainField input.previousTxid)
    (witness : newline ∉ input.witness) : ∀ text ∈ inputLines input, newline ∉ text := by
  intro text member
  unfold inputLines at member
  rcases List.mem_cons.mp member with rfl | inside
  · refine tagLine_whole _ _ (by decide) ?_
    simp [txid.newline, (plain_decimal input.outputIndex.toNat).newline]
  · split at inside
    · simp at inside
    · rw [List.mem_singleton.mp inside]
      exact tagLine_whole _ _ (by decide) (by simpa using witness)

theorem txLines_whole (tx : Transaction) (storable : StorableTx tx) :
    ∀ text ∈ txLines tx, newline ∉ text := by
  intro text member
  simp only [txLines, txInnerLines, List.mem_cons, List.mem_append, List.mem_flatMap, List.mem_map,
    List.not_mem_nil, or_false] at member
  rcases member with rfl | ((⟨input, listed, inside⟩ | ⟨output, listed, rfl⟩) | inside) | rfl
  · refine tagLine_whole _ _ (by decide) ?_
    simp [storable.signer.newline, storable.signerPubkey.newline, storable.signature.newline,
      (number_absent tx.fee).2, (number_absent tx.nonce).2]
  · exact inputLines_whole input (storable.txids input listed) (storable.witnesses input listed) text
      inside
  · refine tagLine_whole _ _ (by decide) ?_
    simp [(storable.recipients output listed).newline, (number_absent output.amount).2]
  · split at inside
    · simp at inside
    · rw [List.mem_singleton.mp inside]
      exact tagLine_whole _ _ (by decide) (by simpa using storable.shielded)
  · decide

theorem voteFields_whole (vote : StakeVote) (storable : StorableVote vote) :
    ∀ text ∈ voteFields vote, newline ∉ text := by
  have flag : newline ∉ (if vote.approve then ascii "1" else ascii "0") := by
    cases vote.approve <;> decide
  simp [voteFields, storable.ticketId.newline, (number_absent vote.votedHeight).2,
    storable.votedHash.newline, flag, storable.signature.newline]

/-- The lines of a storable block contain no line end. -/
theorem blockLines_whole (block : Block) (storable : StorableBlock block) :
    ∀ text ∈ blockLines block, newline ∉ text := by
  intro text member
  simp only [blockLines, List.mem_cons, List.mem_append, List.mem_flatMap, List.mem_map,
    List.not_mem_nil, or_false] at member
  rcases member with rfl | ((⟨tx, listed, inside⟩ | ⟨vote, listed, rfl⟩) | ⟨slash, listed, rfl⟩) | rfl
  · refine tagLine_whole _ _ (by decide) ?_
    simp [(number_absent _).2, storable.previousHash.newline, storable.merkleRoot]
  · exact txLines_whole tx (storable.transactions tx listed) text inside
  · exact tagLine_whole _ _ (by decide) (voteFields_whole vote (storable.votes vote listed))
  · obtain ⟨a, b⟩ := storable.slashes slash listed
    refine tagLine_whole _ _ (by decide) fun field inside => ?_
    rcases List.mem_append.mp inside with first | second
    · exact voteFields_whole _ a field first
    · exact voteFields_whole _ b field second
  · decide

/-! ### Loading what was written -/

/-- One written block is read back and added. -/
theorem loadLines_block (clock : Nat → Time) (position : Nat) (chain : Chain) (block : Block)
    (rest : List Bytes) (storable : StorableBlock block) (signed : SignedVotes block) :
    loadLines P clock position chain (blockLines block ++ rest) =
      match addBlock P (clock position) chain block with
      | (.error refusal, reached) =>
        (.error (.refused ("chain load failed: failed to replay block: " ++ refusal)), reached)
      | (.ok _, reached) => loadLines P clock (position + 1) reached rest := by
  have body := readBlock_blockLines block rest storable signed
  have filled : (headerLine block.header).isEmpty = false := rfl
  have notNetwork : hasTag 'N' (headerLine block.header) = false := hasTag_tagLine _ _ _
  have isBlock : hasTag 'B' (headerLine block.header) = true := hasTag_tagLine _ _ _
  rw [blockLines, List.cons_append, loadLines]
  simp only [filled, notNetwork, isBlock, Bool.false_eq_true, ↓reduceIte, Bool.not_true]
  split
  · rename_i failure failed
    rw [body] at failed
    exact absurd failed (by simp)
  · rename_i found left read
    rw [body] at read
    obtain ⟨rfl, rfl⟩ := Prod.mk.inj (Except.ok.inj read)
    rfl

/-- Loading written blocks succeeds exactly when replaying them does, with the same
result. -/
theorem loadLines_written (clock : Nat → Time) (position : Nat) (chain reached : Chain)
    (blocks : List Block) (storable : ∀ block ∈ blocks, StorableBlock block)
    (signed : ∀ block ∈ blocks, SignedVotes block) :
    loadLines P clock position chain (blocks.flatMap blockLines) = (.ok (), reached) ↔
      Addition.replay P clock position chain blocks = (.ok (), reached) := by
  induction blocks generalizing position chain with
  | nil => simp [loadLines, Addition.replay]
  | cons block rest ih =>
    rw [List.flatMap_cons, loadLines_block clock position chain block _ (storable block (by simp))
      (signed block (by simp)), Addition.replay]
    cases addBlock P (clock position) chain block with
    | mk verdict next =>
      cases verdict with
      | error refusal => simp
      | ok _ =>
        exact ih (position + 1) next
          (fun other member => storable other (by simp [member]))
          (fun other member => signed other (by simp [member]))

/-! ### What is read has no separators -/

/-- A field read from a stream without line ends is plain. -/
theorem getline_plain (stream : Option Bytes) (old : Bytes) (whole : Avoids newline stream)
    (plain : PlainField old) :
    PlainField (getline bar stream old).1 ∧ Avoids newline (getline bar stream old).2.1 := by
  obtain ⟨inside, left⟩ := getline_avoids bar newline stream old whole plain.newline
  exact ⟨⟨getline_absent bar stream old plain.bar, inside⟩, left⟩

theorem avoids_some (text : Bytes) (whole : newline ∉ text) : Avoids newline (some text) := by
  rintro left same
  exact Option.some.inj same ▸ whole

theorem wanted_plain (message : String) (stream left : Option Bytes) (field : Bytes)
    (whole : Avoids newline stream) (read : wanted message stream = .ok (field, left)) :
    PlainField field ∧ Avoids newline left := by
  have plain := getline_plain stream [] whole plain_nil
  unfold wanted at read
  dsimp only at read
  split at read
  · obtain ⟨rfl, rfl⟩ := Prod.mk.inj (Except.ok.inj read)
    exact plain
  · simp at read

theorem parseVote_storable (message : String) (stream left : Option Bytes) (vote : StakeVote)
    (whole : Avoids newline stream) (read : parseVoteFields message stream = .ok (vote, left)) :
    StorableVote vote ∧ Avoids newline left := by
  simp only [parseVoteFields, bind_ok, pure_ok] at read
  obtain ⟨⟨ticketId, _⟩, first, ⟨height, _⟩, second, ⟨votedHash, _⟩, third, ⟨approve, _⟩, fourth,
    ⟨signature, _⟩, fifth, _, _, same⟩ := read
  obtain ⟨rfl, rfl⟩ := Prod.mk.inj same
  obtain ⟨plainId, whole⟩ := wanted_plain message _ _ _ whole first
  obtain ⟨_, whole⟩ := wanted_plain message _ _ _ whole second
  obtain ⟨plainHash, whole⟩ := wanted_plain message _ _ _ whole third
  obtain ⟨_, whole⟩ := wanted_plain message _ _ _ whole fourth
  obtain ⟨plainSignature, whole⟩ := wanted_plain message _ _ _ whole fifth
  exact ⟨⟨plainId, plainHash, plainSignature⟩, whole⟩

/-- An input that got its witness was there before. -/
theorem mem_attachWitness (inputs : List TxInput) (witness : Bytes) (input : TxInput)
    (member : input ∈ attachWitness inputs witness) :
    input ∈ inputs ∨ ∃ bare ∈ inputs, input = { bare with witness := witness } := by
  fun_induction attachWitness inputs witness with
  | case1 => simp at member
  | case2 bare => exact .inr ⟨bare, by simp, List.mem_singleton.mp member⟩
  | case3 first rest witness _ ih =>
    rcases List.mem_cons.mp member with rfl | inside
    · exact .inl (by simp)
    · rcases ih inside with before | ⟨bare, listed, same⟩
      · exact .inl (by simp [before])
      · exact .inr ⟨bare, by simp [listed], same⟩

theorem parseTxField_storable (tx after : Transaction) (tag : UInt8) (content : Bytes)
    (storable : StorableTx tx) (whole : newline ∉ content)
    (read : parseTxField tx tag content = .ok after) : StorableTx after := by
  have stream := avoids_some content whole
  have front := getline_plain (some content) [] stream plain_nil
  unfold parseTxField at read
  split at read
  · simp only [bind_ok, pure_ok] at read
    obtain ⟨value, _, rfl⟩ := read
    refine { storable with txids := fun input member => ?_, witnesses := fun input member => ?_ }
    · rcases List.mem_append.mp member with before | new
      · exact storable.txids input before
      · rw [List.mem_singleton.mp new]
        exact front.1
    · rcases List.mem_append.mp member with before | new
      · exact storable.witnesses input before
      · rw [List.mem_singleton.mp new]
        simp
  · split at read
    · split at read
      · simp at read
      · obtain rfl := Except.ok.inj read
        refine { storable with txids := fun input member => ?_, witnesses := fun input member => ?_ }
        · rcases mem_attachWitness _ _ _ member with before | ⟨bare, listed, rfl⟩
          · exact storable.txids input before
          · exact storable.txids bare listed
        · rcases mem_attachWitness _ _ _ member with before | ⟨bare, listed, rfl⟩
          · exact storable.witnesses input before
          · exact whole
    · split at read
      · simp only [bind_ok, pure_ok] at read
        obtain ⟨value, _, rfl⟩ := read
        refine { storable with recipients := fun output member => ?_ }
        rcases List.mem_append.mp member with before | new
        · exact storable.recipients output before
        · rw [List.mem_singleton.mp new]
          exact front.1
      · split at read
        · simp only [bind_ok, pure_ok] at read
          obtain ⟨fee, _, nonce, _, rfl⟩ := read
          have signer := getline_plain (some content) tx.signer stream storable.signer
          have signerPubkey := getline_plain _ tx.signerPubkey signer.2 storable.signerPubkey
          have signature := getline_plain _ tx.signature signerPubkey.2 storable.signature
          exact { storable with
            signer := signer.1, signerPubkey := signerPubkey.1, signature := signature.1 }
        · split at read
          · obtain rfl := Except.ok.inj read
            exact { storable with shielded := cutAt_absent newline content }
          · simp at read

theorem parseTxLines_storable (tx after : Transaction) (lines : List Bytes) (storable : StorableTx tx)
    (whole : ∀ text ∈ lines, newline ∉ text) (read : parseTxLines tx lines = .ok after) :
    StorableTx after := by
  induction lines generalizing tx with
  | nil => simp [parseTxLines] at read
  | cons text rest ih =>
    have front := whole text (by simp)
    unfold parseTxLines at read
    split at read
    · exact Except.ok.inj read ▸ storable
    · split at read
      · rename_i tag second content _
        split at read
        · obtain ⟨between, field, later⟩ := (bind_ok _ _ _).mp read
          have kept := parseTxField_storable tx between tag content storable
            (fun member => front (by simp [member])) field
          exact ih between kept (fun other member => whole other (by simp [member]))
            later
        · simp at read
      · simp at read

theorem storable_emptyTx : StorableTx emptyTx :=
  ⟨plain_nil, plain_nil, plain_nil, by simp [emptyTx], by simp [emptyTx], by simp [emptyTx],
    by simp [emptyTx]⟩

theorem takeTx_subset (lines : List Bytes) :
    (∀ text ∈ (takeTx lines).1, text ∈ lines) ∧ ∀ text ∈ (takeTx lines).2, text ∈ lines := by
  induction lines with
  | nil => simp [takeTx]
  | cons text rest ih =>
    unfold takeTx
    split
    · refine ⟨fun other member => ?_, fun other member => List.mem_cons_of_mem _ member⟩
      rw [List.mem_singleton.mp member]
      exact List.mem_cons_self
    · refine ⟨fun other member => ?_, fun other member => ?_⟩
      · rcases List.mem_cons.mp member with rfl | inside
        · exact List.mem_cons_self
        · exact List.mem_cons_of_mem _ (ih.1 other inside)
      · exact List.mem_cons_of_mem _ (ih.2 other member)

theorem loadTx_storable (first : Bytes) (rest : List Bytes) (tx : Transaction)
    (whole : ∀ text ∈ first :: rest, newline ∉ text) (read : loadTx first rest = .ok tx) :
    StorableTx tx := by
  unfold loadTx at read
  split at read
  · rename_i found parsed
    obtain rfl := Except.ok.inj read
    refine parseTxLines_storable emptyTx found _ storable_emptyTx (fun text member => ?_) parsed
    rcases List.mem_cons.mp member with rfl | inside
    · exact whole text (by simp)
    · exact whole text (by simp [(takeTx_subset rest).1 text inside])
  · simp at read

theorem contentOf_whole (text : Bytes) (whole : newline ∉ text) : newline ∉ contentOf text :=
  fun member => whole (List.mem_of_mem_drop member)

theorem readBody_storable (block found : Block) (lines left : List Bytes)
    (storable : StorableBlock block) (whole : ∀ text ∈ lines, newline ∉ text)
    (read : readBody block lines = .ok (found, left)) :
    StorableBlock found ∧ ∀ text ∈ left, newline ∉ text := by
  fun_induction readBody block lines generalizing found left with
  | case1 block =>
    obtain ⟨rfl, rfl⟩ := Prod.mk.inj (Except.ok.inj read)
    exact ⟨storable, whole⟩
  | case2 block rest =>
    obtain ⟨rfl, rfl⟩ := Prod.mk.inj (Except.ok.inj read)
    exact ⟨storable, fun text member => whole text (by simp [member])⟩
  | case3 block text rest _ _ ih =>
    obtain ⟨⟨vote, _⟩, field, later⟩ := (bind_ok _ _ _).mp read
    have content := avoids_some _ (contentOf_whole text (whole text (by simp)))
    obtain ⟨plain, _⟩ := parseVote_storable _ _ _ _ content field
    refine ih vote found left { storable with votes := fun other member => ?_ }
      (fun other member => whole other (by simp [member])) later
    rcases List.mem_append.mp member with before | new
    · exact storable.votes other before
    · rw [List.mem_singleton.mp new]
      exact plain
  | case4 block text rest _ _ _ ih =>
    obtain ⟨⟨a, stream⟩, first, read⟩ := (bind_ok _ _ _).mp read
    obtain ⟨⟨b, _⟩, second, later⟩ := (bind_ok _ _ _).mp read
    have content := avoids_some _ (contentOf_whole text (whole text (by simp)))
    obtain ⟨plainA, between⟩ := parseVote_storable _ _ _ _ content first
    obtain ⟨plainB, _⟩ := parseVote_storable _ _ _ _ between second
    refine ih a b found left { storable with slashes := fun other member => ?_ }
      (fun other member => whole other (by simp [member])) later
    rcases List.mem_append.mp member with before | new
    · exact storable.slashes other before
    · rw [List.mem_singleton.mp new]
      exact ⟨plainA, plainB⟩
  | case5 block text rest _ _ _ _ ih =>
    obtain ⟨tx, loaded, later⟩ := (bind_ok _ _ _).mp read
    have plain := loadTx_storable text rest tx whole loaded
    refine ih tx found left { storable with transactions := fun other member => ?_ }
      (fun other member => whole other (by simp [(takeTx_subset rest).2 other member])) later
    rcases List.mem_append.mp member with before | new
    · exact storable.transactions other before
    · rw [List.mem_singleton.mp new]
      exact plain
  | case6 block text rest _ _ _ _ ih =>
    exact ih found left storable (fun other member => whole other (by simp [member]))
      read

theorem readBlock_storable (text : Bytes) (rest left : List Bytes) (block : Block)
    (whole : ∀ line ∈ text :: rest, newline ∉ line) (read : readBlock text rest = .ok (block, left)) :
    StorableBlock block ∧ ∀ line ∈ left, newline ∉ line := by
  obtain ⟨header, fields, body⟩ := (bind_ok _ _ _).mp read
  have content := avoids_some _ (contentOf_whole text (whole text (by simp)))
  simp only [readHeader, bind_ok, pure_ok] at fields
  obtain ⟨height, _, timestamp, _, nonce, _, difficultyTarget, _, rfl⟩ := fields
  have first := getline_plain (some (contentOf text)) [] content plain_nil
  have previousHash := getline_plain _ [] first.2 plain_nil
  refine readBody_storable _ block rest left ⟨previousHash.1, ?_, by simp, by simp, by simp⟩
    (fun line member => whole line (by simp [member])) body
  exact getline_absent newline _ _ (by simp)

/-- Whatever is loaded is a replay of blocks whose texts have no separators. -/
theorem loadLines_storable (clock : Nat → Time) (position : Nat) (chain reached : Chain)
    (lines : List Bytes) (whole : ∀ text ∈ lines, newline ∉ text)
    (loaded : loadLines P clock position chain lines = (.ok (), reached)) :
    ∃ blocks, (∀ block ∈ blocks, StorableBlock block) ∧
      Addition.replay P clock position chain blocks = (.ok (), reached) := by
  fun_induction loadLines P clock position chain lines with
  | case1 position chain =>
    refine ⟨[], by simp, ?_⟩
    rw [Addition.replay, (Prod.mk.inj loaded).2]
  | case2 position chain text rest _ ih =>
    exact ih (fun other member => whole other (by simp [member])) loaded
  | case3 position chain text rest => simp at loaded
  | case4 position chain text rest _ _ _ _ ih =>
    exact ih (fun other member => whole other (by simp [member])) loaded
  | case5 position chain text rest _ _ _ ih =>
    exact ih (fun other member => whole other (by simp [member])) loaded
  | case6 => simp at loaded
  | case7 => simp at loaded
  | case8 position chain text rest _ _ _ block left read _ next accepted ih =>
    obtain ⟨storable, later⟩ := readBlock_storable text rest left block whole read
    obtain ⟨blocks, others, replayed⟩ := ih later loaded
    refine ⟨block :: blocks, ?_, ?_⟩
    · intro other member
      rcases List.mem_cons.mp member with rfl | inside
      · exact storable
      · exact others other inside
    · rw [Addition.replay, accepted]
      exact replayed

/-! ### Restarting -/

/-- The blocks of a grown chain after the first, which has height zero, carry signed
votes. -/
theorem Grown.blocks {condition : StepCondition} {cfg : ChainConfig} {chain : Chain}
    (grown : Grown P condition cfg chain) :
    chain.blocks = makeGenesis P cfg cfg.initialDifficultyTarget :: chain.blocks.tail ∧
      ∀ block ∈ chain.blocks.tail, SignedVotes block := by
  refine grown.carries (fun chain => chain.blocks =
    makeGenesis P cfg cfg.initialDifficultyTarget :: chain.blocks.tail ∧
      ∀ block ∈ chain.blocks.tail, SignedVotes block) ⟨rfl, by simp [Chain.new]⟩ ?_
  rintro now chain block reached _ ⟨front, signed⟩ _ accepted
  have extended := addBlock_blocks now chain reached block accepted
  rw [front, List.cons_append] at extended
  refine ⟨by rw [extended, List.tail_cons], fun other member => ?_⟩
  rw [extended, List.tail_cons] at member
  rcases List.mem_append.mp member with before | new
  · exact signed other before
  · rw [List.mem_singleton.mp new]
    obtain ⟨_, _, _, _, _, _, _, went, _⟩ := addBlock_ok P now chain block reached accepted
    obtain ⟨slashes, _, votes⟩ := validateBlockStaking_ok chain block went.valid.staking
    have marked : ∀ ticket vote, voteSignatureOk P ticket chain.cfg.networkId vote = true →
        vote.signature ≠ [] := by
      intro ticket vote verified none
      simp [voteSignatureOk, none, pqPrefix, ascii] at verified
    refine ⟨fun vote listed => ?_, fun slash listed => ?_⟩
    · obtain ⟨ticket, _, verified⟩ := votes vote listed
      exact marked _ vote verified
    · obtain ⟨ticket, valid⟩ := slashes slash listed
      exact marked _ slash.b valid.signedB

/-- The blocks written are those after the first whose height is not zero. -/
theorem written_tail (chain : Chain) (genesis : Block) (first : chain.blocks = genesis :: chain.blocks.tail)
    (zero : genesis.header.height = 0) :
    written chain = chain.blocks.tail.filter (fun block => block.header.height ≠ 0) := by
  rw [written, first]
  simp [zero]

/-- The name of the network can be read back from its line, or has none. -/
def StorableName (cfg : ChainConfig) : Prop :=
  cfg.networkId = kTestnetNetworkId ∨ PlainField cfg.networkId

theorem loadLines_network (clock : Nat → Time) (position : Nat) (chain : Chain) (saved : Chain)
    (rest : List Bytes) (same : chain.cfg = saved.cfg) (named : StorableName chain.cfg) :
    loadLines P clock position chain (networkLines P saved ++ rest) =
      loadLines P clock position chain rest := by
  unfold networkLines
  split
  · rename_i other
    have plain : PlainField chain.cfg.networkId := named.resolve_left (same ▸ other)
    have filled : (tagLine 'N' [saved.cfg.networkId, saved.cfg.networkMode,
        hashBlockHeader P (saved.blocks.headD default).header]).isEmpty = false := rfl
    rw [List.singleton_append, loadLines]
    rw [same] at plain ⊢
    simp only [filled, Bool.false_eq_true, ↓reduceIte, hasTag_tagLine, contentOf_tagLine,
      getline_fields _ _ _ _ plain.bar]
    simp
  · rfl

/-- The lines of a file come back when no text cuts them. -/
theorem splitLines_saveChain (chain : Chain) (named : StorableName chain.cfg)
    (mode : newline ∉ chain.cfg.networkMode)
    (storable : ∀ block ∈ written chain, StorableBlock block) :
    splitLines (saveChain P chain) =
      networkLines P chain ++ (written chain).flatMap blockLines := by
  refine splitLines_lines _ fun text member => ?_
  rcases List.mem_append.mp member with network | inside
  · unfold networkLines at network
    split at network
    · rename_i other
      rw [List.mem_singleton.mp network]
      refine tagLine_whole _ _ (by decide) ?_
      have hash : ∀ text, newline ∉ strongHash P text := fun text =>
        HexDigits.absent (strongHash_hexDigits P text) newline (by decide)
      simp [(named.resolve_left other).newline, mode, hashBlockHeader, hash]
    · simp at network
  · obtain ⟨block, listed, inside⟩ := List.mem_flatMap.mp inside
    exact blockLines_whole block (storable block listed) text inside

/-- Loading a file succeeds exactly when loading its lines does. -/
theorem loadChain_ok (clock : Nat → Time) (chain reached : Chain) (content : Bytes) :
    loadChain P clock chain (some content) = (.ok (), reached) ↔
      loadLines P clock 1 chain (splitLines content) = (.ok (), reached) := by
  unfold loadChain
  dsimp only
  generalize loadLines P clock 1 chain (splitLines content) = outcome
  rcases outcome with ⟨_ | _, final⟩
  · rename_i failure
    cases failure <;> simp
  · simp

/-- A file that loads names the network without a separator. -/
theorem storableName_of_loaded (clock : Nat → Time) (chain saved reached : Chain)
    (same : chain.cfg = saved.cfg)
    (loaded : loadLines P clock 1 chain (splitLines (saveChain P saved)) = (.ok (), reached)) :
    StorableName chain.cfg := by
  by_cases test : chain.cfg.networkId = kTestnetNetworkId
  · exact .inl test
  refine .inr ?_
  have opens : saveChain P saved = [byte 'N', bar] ++ (saveChain P saved).drop 2 := by
    unfold saveChain networkLines
    rw [if_pos (same ▸ test)]
    rfl
  obtain ⟨tail, others, lines⟩ := splitLines_starts [byte 'N', bar] ((saveChain P saved).drop 2)
    (by simp) (by decide)
  rw [← opens] at lines
  have whole : newline ∉ tail := by
    have first := splitLines_absent (saveChain P saved) ([byte 'N', bar] ++ tail) (by simp [lines])
    exact fun member => first (by simp [member])
  have tagged : hasTag 'N' ([byte 'N', bar] ++ tail) = true := by
    simp [hasTag, List.isPrefixOf]
  have filled : ([byte 'N', bar] ++ tail).isEmpty = false := rfl
  have content : contentOf ([byte 'N', bar] ++ tail) = tail := rfl
  rw [lines, loadLines] at loaded
  simp only [filled, tagged, content, Bool.false_eq_true, ↓reduceIte] at loaded
  have plain := (getline_plain (some tail) [] (avoids_some tail whole) plain_nil).1
  split at loaded
  · simp at loaded
  · rename_i agrees
    exact (not_not.mp agrees) ▸ plain

/-- Whatever happened on the way, a chain comes back from its file in every member
exactly when its network name can be read back and every block after the first has a
height other than zero and texts without the separators that delimit them. -/
theorem saved_chain_loads_iff (P : Primitives) (cfg : ChainConfig) (chain : Chain) (bound : Time)
    (mode : newline ∉ cfg.networkMode) (reachable : ReachableWith P (NotAfter bound) cfg chain)
    (clock : Nat → Time) (later : ∀ position, bound.val ≤ (clock position).val) :
    loadChain P clock (Chain.new P cfg) (some (saveChain P chain)) = (.ok (), chain) ↔
      StorableName cfg ∧ ∀ block ∈ chain.blocks.tail, block.header.height ≠ 0 ∧
        StorableBlock block := by
  have grown := reachable.grown
  have config := grown.idle.2
  obtain ⟨front, signed⟩ := Grown.blocks grown
  have listed := written_tail chain _ front rfl
  have replays := (grown.replays clock later).2
  have signedWritten : ∀ block ∈ written chain, SignedVotes block := by
    intro block member
    rw [listed] at member
    exact signed block (List.mem_filter.mp member).1
  -- once the texts are storable, loading is a replay of the blocks that were written
  have loads : StorableName cfg → (∀ block ∈ chain.blocks.tail, StorableBlock block) →
      (loadChain P clock (Chain.new P cfg) (some (saveChain P chain)) = (.ok (), chain) ↔
        replay P clock 1 (Chain.new P cfg) (written chain) = (.ok (), chain)) := by
    intro named storable
    have storableWritten : ∀ block ∈ written chain, StorableBlock block := by
      intro block member
      rw [listed] at member
      exact storable block (List.mem_filter.mp member).1
    rw [loadChain_ok, splitLines_saveChain chain (config ▸ named) (config ▸ mode) storableWritten,
      loadLines_network clock 1 _ chain _ config.symm named,
      loadLines_written clock 1 _ _ _ storableWritten signedWritten]
  constructor
  · intro loaded
    have lines := (loadChain_ok clock _ _ _).mp loaded
    have named := storableName_of_loaded clock (Chain.new P cfg) chain chain config.symm lines
    obtain ⟨blocks, storable, replayed⟩ := loadLines_storable clock 1 _ _ _
      (splitLines_absent _) lines
    have blocksTail : blocks = chain.blocks.tail := by
      rw [replay_blocks clock 1 _ _ _ replayed]
      rfl
    rw [blocksTail] at storable
    refine ⟨named, fun block member => ⟨?_, storable block member⟩⟩
    have again := (loads named storable).mp loaded
    have writtenTail : written chain = chain.blocks.tail := by
      conv_rhs => rw [replay_blocks clock 1 _ _ _ again]
      rfl
    rw [listed, List.filter_eq_self] at writtenTail
    simpa using writtenTail block member
  · rintro ⟨named, plain⟩
    refine (loads named fun block member => (plain block member).2).mpr ?_
    have whole : written chain = chain.blocks.tail := by
      rw [listed, List.filter_eq_self]
      intro block member
      simpa using (plain block member).1
    rw [whole]
    exact replays

/-- The digests in the header of a template contain no separators. -/
theorem blockOn_plain (P : Primitives) (chain : Chain) (transactions : List Transaction) :
    PlainField (blockOn P chain transactions).header.previousHash ∧
      newline ∉ (blockOn P chain transactions).header.merkleRoot := by
  have digest : ∀ text separator, isHex separator = false → separator ∉ strongHash P text :=
    fun text separator other => HexDigits.absent (strongHash_hexDigits P text) separator other
  obtain ⟨text, root⟩ :=
    computeBlockCommitment_digest P ⟨⟨0, [], 0, 0, 0, []⟩, transactions, [], []⟩
  have digests : newline ∉ strongHash P text := digest text newline (by decide)
  rw [← root] at digests
  exact ⟨⟨digest _ _ (by decide), digest _ _ (by decide)⟩, digests⟩

/-- The chain with the script spend comes back from its file. -/
theorem scriptSpent_restarts :
    loadChain samplePrimitives (fun _ => epoch) (Chain.new samplePrimitives regtestChainConfig)
      (some (saveChain samplePrimitives scriptSpent)) = (.ok (), scriptSpent) := by
  have first : ReachableWith samplePrimitives (NotAfter epoch) regtestChainConfig scriptTip :=
    ReachableWith.new.step epoch scriptFirst scriptTip (UInt64.le_refl _) scriptFirst_accepted
  have second := first.step epoch scriptSecond scriptSpent (UInt64.le_refl _) scriptSecond_accepted
  have blocks : scriptSpent.blocks.tail = [scriptFirst, scriptSecond] := by
    rw [addBlock_blocks epoch _ _ _ scriptSecond_accepted,
      addBlock_blocks epoch _ _ _ scriptFirst_accepted]
    rfl
  have coinbase : StorableTx scriptCoinbase :=
    ⟨plain_nil, plain_nil, plain_nil, by simp [scriptCoinbase, coinbaseOf],
      by simp [scriptCoinbase, coinbaseOf], by
        intro output member
        rw [List.mem_singleton.mp member]
        exact ⟨by decide +kernel, by decide +kernel⟩, by simp [scriptCoinbase, coinbaseOf]⟩
  have reward : StorableTx (coinbaseOf [⟨ascii "miner", 50⟩] 1) :=
    ⟨plain_nil, plain_nil, plain_nil, by simp [coinbaseOf], by simp [coinbaseOf], by
        intro output member
        rw [List.mem_singleton.mp member]
        exact ⟨by decide, by decide⟩, by simp [coinbaseOf]⟩
  have spend : StorableTx scriptSpend :=
    ⟨plain_nil, plain_nil, plain_nil, by
        intro input member
        rw [List.mem_singleton.mp member]
        exact ⟨by decide +kernel, by decide +kernel⟩, by
        intro input member
        rw [List.mem_singleton.mp member]
        decide +kernel, by
        intro output member
        rw [List.mem_singleton.mp member]
        exact ⟨by decide, by decide⟩, by simp [scriptSpend]⟩
  refine (saved_chain_loads_iff samplePrimitives regtestChainConfig scriptSpent epoch (by decide) second
    (fun _ => epoch) (fun _ => UInt64.le_refl _)).mpr ⟨.inr ⟨by decide, by decide⟩, ?_⟩
  rw [blocks]
  intro block member
  simp only [List.mem_cons, List.not_mem_nil, or_false] at member
  rcases member with rfl | rfl
  · have digests := blockOn_plain samplePrimitives (Chain.new samplePrimitives regtestChainConfig)
      [scriptCoinbase]
    refine ⟨by decide +kernel, digests.1, digests.2, ?_, by simp [scriptFirst, blockOn],
      by simp [scriptFirst, blockOn]⟩
    intro tx listed
    rw [List.mem_singleton.mp listed]
    exact coinbase
  · have digests := blockOn_plain samplePrimitives scriptTip
      [coinbaseOf [⟨ascii "miner", 50⟩] 1, scriptSpend]
    refine ⟨by decide +kernel, digests.1, digests.2, ?_, by simp [scriptSecond, blockOn],
      by simp [scriptSecond, blockOn]⟩
    intro tx listed
    rcases List.mem_cons.mp listed with rfl | last
    · exact reward
    · rw [List.mem_singleton.mp last]
      exact spend

/-- A coinbase whose recipient contains the separator of fields. -/
def barredCoinbase : Transaction := coinbaseOf [⟨ascii "a|b", 1⟩] 0

/-- Whatever the hash functions are, a chain whose miner chose such a recipient does not
come back from its file. -/
theorem barred_recipient_lost :
    ¬ ∃ P : Primitives, ∀ (chain : Chain) (bound : Time) (clock : Nat → Time),
      ReachableWith P (NotAfter bound) regtestChainConfig chain →
      (∀ position, bound.val ≤ (clock position).val) →
        loadChain P clock (Chain.new P regtestChainConfig) (some (saveChain P chain)) =
          (.ok (), chain) := by
  rintro ⟨P, loads⟩
  obtain ⟨created, total, _, _, accepted⟩ := regtest_accepts_first P epoch barredCoinbase
    ⟨rfl, rfl, rfl, rfl, by decide⟩ (by decide) (by decide) (by decide)
  have fresh : ReachableWith P (NotAfter epoch) regtestChainConfig (Chain.new P regtestChainConfig) :=
    ReachableWith.new
  have reachable := fresh.step epoch _ _ (UInt64.le_refl _) accepted
  have loaded := loads _ epoch (fun _ => epoch) reachable (fun _ => UInt64.le_refl _)
  obtain ⟨blocks, storable, replayed⟩ := loadLines_storable (fun _ => epoch) 1 _ _ _
    (splitLines_absent _) ((loadChain_ok _ _ _ _).mp loaded)
  have listed := replay_blocks _ 1 _ _ _ replayed
  rw [addBlock_blocks epoch _ _ _ accepted] at listed
  have same : [blockOn P (Chain.new P regtestChainConfig) [barredCoinbase]] = blocks :=
    List.append_cancel_left listed
  have coinbase := (storable (blockOn P (Chain.new P regtestChainConfig) [barredCoinbase]) (by
    simp [← same])).transactions barredCoinbase (by simp [blockOn])
  have recipient := coinbase.recipients ⟨ascii "a|b", 1⟩ (by simp [barredCoinbase, coinbaseOf])
  exact recipient.bar (by decide)

end Addition.Store
