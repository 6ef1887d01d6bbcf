import Addition.CachedRuns
import Addition.CommitmentTexts
import Addition.Outpoints

/-!
# Header hashes and block bodies

Two blocks accepted on one state with one header hash agree on everything their
commitments cover: the texts and the script witnesses of their transactions, and the
texts of their votes. Not covered are the signatures of signed transactions; the
texts leave open where one recipient ends and the next begins, and where the
signature of a vote begins when a forged one contains bars. With these in agreement
the bodies are equal, whatever the signature cache answered on the way.

The transaction tree repeats an odd last node, so it identifies a body only if no
segment of leaves is followed by its copy. In an accepted block none is: each
transaction of the copy would spend an output that the segment itself creates
again, and the transaction of the segment that came first in the whole chain has
its source before all of them.
-/

namespace Addition

open ByteStrings Checked FiniteTables

variable {P : Primitives}

/-! ### No doubled segment -/

/-- A key that is unspent after a list of transactions was unspent before or was
created by one of them. -/
theorem applyLoop_holds (transactions : List Transaction) (chain reached : Chain) (key : Bytes)
    (loop : each (applyNext P) chain transactions = (.ok (), reached)) (held : reached.holds key) :
    chain.holds key ∨ ∃ tx ∈ transactions, key ∈ createdKeys P tx := by
  induction transactions generalizing chain with
  | nil =>
    rw [each_nil_ok] at loop
    exact .inl (loop ▸ held)
  | cons tx rest ih =>
    obtain ⟨next, step, later⟩ := (each_cons_ok _ _ _ _ _).mp loop
    rcases ih next later with before | ⟨other, inside, created⟩
    · obtain ⟨_, _, _, applied, _⟩ := applyNext_ok P chain tx next step
      rcases (applied.holds key).mp before with own | ⟨earlier, _⟩
      · exact .inr ⟨tx, by simp, own⟩
      · exact .inl earlier
    · exact .inr ⟨other, by simp [inside], created⟩

theorem createdKeys_id (tx : Transaction) (input : TxInput) (created : input.key ∈ createdKeys P tx) :
    input.previousTxid = hashTransaction P tx := by
  obtain ⟨placed, _, same⟩ := List.mem_map.mp created
  exact (outpointKey_injective _ _ _ _ same).1.symm

/-- When a segment with the identifiers of an earlier one follows it, each of its
transactions spends an output of the segment. -/
theorem doubled_sources (chain applied : Chain) (done before first second after : List Transaction)
    (texts : Set Bytes) (injective : Set.InjOn P.sha3 texts)
    (inside : ∀ tx ∈ done ++ (before ++ (first ++ second) ++ after), hashedTexts P tx ⊆ texts)
    (ledger : Ledger P done chain) (ids : first.map (hashTransaction P) = second.map (hashTransaction P))
    (funded : ∀ tx ∈ second, tx.inputs ≠ [] ∨ tx.shielded ≠ [])
    (loop : each (applyNext P) chain (before ++ (first ++ second) ++ after) = (.ok (), applied))
    (tx : Transaction) (member : tx ∈ first) :
    ∃ input ∈ tx.inputs, ∃ source ∈ first, input.previousTxid = hashTransaction P source := by
  obtain ⟨left, right, rfl⟩ := List.append_of_mem member
  -- the copy of the transaction, at the same place of the second segment
  rw [List.map_append, List.map_cons] at ids
  obtain ⟨left', rest', rfl, leftIds, restIds⟩ := List.map_eq_append_iff.mp ids.symm
  obtain ⟨copy, right', rfl, sameId, _⟩ := List.map_eq_cons_iff.mp restIds
  have arranged : before ++ ((left ++ tx :: right) ++ (left' ++ copy :: right')) ++ after =
      (before ++ left) ++ (tx :: ((right ++ left') ++ (copy :: (right' ++ after)))) := by
    simp
  rw [arranged] at loop inside
  obtain ⟨start, toStart, loop⟩ := (each_append_ok _ _ _ _ _).mp loop
  obtain ⟨spent, stepTx, loop⟩ := (each_cons_ok _ _ _ _ _).mp loop
  obtain ⟨middle, toMiddle, loop⟩ := (each_append_ok _ _ _ _ _).mp loop
  obtain ⟨next, stepCopy, _⟩ := (each_cons_ok _ _ _ _ _).mp loop
  have explained := (((ledger.applyLoop toStart).apply stepTx).applyLoop toMiddle)
  obtain ⟨_, _, _, appliedCopy, _⟩ := applyNext_ok P middle copy next stepCopy
  obtain ⟨_, _, _, appliedTx, _⟩ := applyNext_ok P start tx spent stepTx
  have within : ∀ other ∈ (done ++ (before ++ left) ++ [tx] ++ (right ++ left')) ++ [copy],
      hashedTexts P other ⊆ texts := by
    intro other listed
    refine inside other ?_
    simp only [List.mem_append, List.mem_cons, List.not_mem_nil, or_false] at listed ⊢
    tauto
  have spends := appliedCopy.repeated explained texts injective within
    (funded copy (by simp)) tx (by simp) sameId.symm
  have inputs := (explained.apply stepCopy).same_inputs texts injective within copy tx (by simp)
    (by simp) spends sameId.symm
  obtain ⟨inputCopy, listedCopy⟩ := List.exists_mem_of_ne_nil _ spends
  have shared : inputCopy.outpoint ∈ tx.inputs.map TxInput.outpoint :=
    inputs ▸ List.mem_map_of_mem listedCopy
  obtain ⟨input, listed, outpoint⟩ := List.mem_map.mp shared
  refine ⟨input, listed, ?_⟩
  obtain ⟨utxo, unspent, _⟩ := appliedCopy.inputs.present inputCopy listedCopy
  have held : middle.holds input.key := by
    simp [Chain.holds, key_of_outpoint outpoint, unspent]
  rcases applyLoop_holds _ spent middle input.key toMiddle held with early | ⟨other, between, made⟩
  · -- the transaction spends the key itself, so it must have created it again
    rcases (appliedTx.holds input.key).mp early with own | ⟨_, kept⟩
    · exact ⟨tx, by simp, createdKeys_id tx input own⟩
    · exact absurd (List.mem_map_of_mem listed) kept
  · have named := createdKeys_id other input made
    rcases List.mem_append.mp between with inRight | inLeft
    · exact ⟨other, by simp [inRight], named⟩
    · have listedId : hashTransaction P other ∈ left.map (hashTransaction P) :=
        leftIds ▸ List.mem_map_of_mem inLeft
      obtain ⟨twin, inTwin, sameTwin⟩ := List.mem_map.mp listedId
      exact ⟨twin, by simp [inTwin], named.trans sameTwin.symm⟩

/-- The first element of a list with a property. -/
theorem first_with {α : Type} (property : α → Prop) (items : List α) (item : α) (member : item ∈ items)
    (holds : property item) :
    ∃ earlier first later, items = earlier ++ first :: later ∧ property first ∧
      ∀ other ∈ earlier, ¬ property other := by
  classical
  have found : (items.find? (fun item => decide (property item))).isSome = true := by
    simp only [List.find?_isSome, decide_eq_true_eq]
    exact ⟨item, member, holds⟩
  obtain ⟨first, located⟩ := Option.isSome_iff_exists.mp found
  obtain ⟨has, earlier, later, split, none⟩ := List.find?_eq_some_iff_append.mp located
  exact ⟨earlier, first, later, split, by simpa using has, by simpa using none⟩

/-- The leaves of an applied block have no doubled segment. -/
theorem leaves_squareFree (chain applied : Chain) (done transactions : List Transaction)
    (coinbase : Transaction) (others : List Transaction) (listed : transactions = coinbase :: others)
    (texts : Set Bytes) (injective : Set.InjOn P.sha3 texts)
    (inside : ∀ tx ∈ done ++ transactions, hashedTexts P tx ⊆ texts)
    (leaves : ∀ tx ∈ transactions, leafTexts P tx ⊆ texts) (ledger : Ledger P done chain)
    (funded : ∀ tx ∈ others, tx.inputs ≠ [] ∨ tx.shielded ≠ [])
    (loop : each (applyNext P) chain transactions = (.ok (), applied)) :
    PairedLayers.SquareFreeWord (leavesOf P transactions) := by
  rintro word nonempty ⟨before', after', split⟩
  obtain ⟨front, after, rfl, frontImage, _⟩ := List.map_eq_append_iff.mp split.symm
  obtain ⟨before, doubled, rfl, _, doubledImage⟩ := List.map_eq_append_iff.mp frontImage
  obtain ⟨first, second, rfl, firstImage, secondImage⟩ := List.map_eq_append_iff.mp doubledImage
  have ids : first.map (hashTransaction P) = second.map (hashTransaction P) := by
    refine PairedLayers.map_transfer (hashTransactionWithWitness P) (hashTransaction P) first second
      ?_ (firstImage.trans secondImage.symm)
    intro tx member tx' member' same
    have text := (leaf_determined P texts injective tx tx' (leaves tx (by simp [member]))
      (leaves tx' (by simp [member'])) same).1
    exact congrArg (strongHash P) text
  obtain ⟨some, present⟩ : ∃ tx, tx ∈ first := by
    refine List.exists_mem_of_ne_nil first ?_
    rintro rfl
    exact nonempty (by simpa using firstImage.symm)
  -- the second segment starts after the coinbase
  have fundedSecond : ∀ tx ∈ second, tx.inputs ≠ [] ∨ tx.shielded ≠ [] := by
    intro tx member
    refine funded tx ?_
    have tail := congrArg List.tail listed
    rw [List.tail_cons] at tail
    rw [← tail]
    cases before with
    | nil =>
      cases first with
      | nil => simp at present
      | cons head rest => simp [member]
    | cons head rest => simp [member]
  have sources := doubled_sources chain applied done before first second after texts injective inside
    ledger ids fundedSecond loop
  have explained := ledger.applyLoop loop
  obtain ⟨earlier, earliest, later, order, ⟨tx, member, sameId⟩, none⟩ := first_with
    (fun other => ∃ tx ∈ first, hashTransaction P tx = hashTransaction P other)
    (done ++ (before ++ (first ++ second) ++ after)) some (by simp [present]) ⟨some, present, rfl⟩
  obtain ⟨input, listedInput, source, inFirst, named⟩ := sources tx member
  have inputs := explained.same_inputs texts injective inside tx earliest (by simp [member])
    (by rw [order]; simp) (List.ne_nil_of_mem listedInput) sameId.symm
  have shared : input.outpoint ∈ earliest.inputs.map TxInput.outpoint :=
    inputs ▸ List.mem_map_of_mem listedInput
  obtain ⟨input', listed', outpoint⟩ := List.mem_map.mp shared
  obtain ⟨origin, beforeAll, originNamed⟩ := explained.sources earlier earliest later order input'
    listed'
  have sameName : input'.previousTxid = input.previousTxid := (Prod.mk.inj outpoint).1
  exact none origin beforeAll ⟨source, inFirst, by rw [← named, ← sameName, originNamed]⟩

/-! ### One transaction from its leaf -/

/-- Inputs are determined by their outpoints and their witnesses. -/
theorem inputs_determined (inputs inputs' : List TxInput)
    (outpoints : inputs.map TxInput.outpoint = inputs'.map TxInput.outpoint)
    (witnesses : inputs.map TxInput.witness = inputs'.map TxInput.witness) : inputs = inputs' := by
  have both : inputs.map (fun input => (input.outpoint, input.witness)) =
      inputs'.map (fun input => (input.outpoint, input.witness)) := by
    have zipped := congrArg₂ List.zip outpoints witnesses
    simpa [List.zip_map', Function.comp_def] using zipped
  refine PairedLayers.map_separated _ inputs inputs' ?_ both
  rintro ⟨txid, index, witness⟩ _ ⟨txid', index', witness'⟩ _ same
  simpa [TxInput.outpoint, and_assoc] using same

theorem witnesses_absent (inputs inputs' : List TxInput)
    (outpoints : inputs.map TxInput.outpoint = inputs'.map TxInput.outpoint)
    (none : inputs.any (fun input => !input.witness.isEmpty) = false)
    (none' : inputs'.any (fun input => !input.witness.isEmpty) = false) :
    inputs.map TxInput.witness = inputs'.map TxInput.witness := by
  refine PairedLayers.map_transfer TxInput.outpoint TxInput.witness inputs inputs' ?_ outpoints
  intro input member input' member' _
  have empty := List.any_eq_false.mp none input member
  have empty' := List.any_eq_false.mp none' input' member'
  simp only [Bool.not_eq_true', Bool.not_eq_false, List.isEmpty_iff] at empty empty'
  rw [empty, empty']

variable {chain applied : Chain} {block : Block} {coinbase : Transaction}
  {coinbaseTotal fees : UInt64} {now : Time} {others : List Transaction}

/-- A transaction of an explained list is determined by its leaf, its signature and
the lengths of its recipients. -/
theorem transaction_determined (texts : Set Bytes) (injective : Set.InjOn P.sha3 texts)
    {done done' : List Transaction} {chain' : Chain} (ledger : Ledger P done chain)
    (ledger' : Ledger P done' chain') (tx tx' : Transaction) (member : tx ∈ done)
    (member' : tx' ∈ done') (inside : leafTexts P tx ⊆ texts) (inside' : leafTexts P tx' ⊆ texts)
    (leaf : hashTransactionWithWitness P tx = hashTransactionWithWitness P tx')
    (signature : tx.signature = tx'.signature)
    (recipients : tx.outputs.map (fun output => output.recipient.length) =
      tx'.outputs.map (fun output => output.recipient.length)) : tx = tx' := by
  obtain ⟨text, witnesses⟩ := leaf_determined P texts injective tx tx' inside inside' leaf
  obtain ⟨front, fee, nonce, digests⟩ := text_tail_determined P tx tx' text
  have shielded := shieldedText_injOn P texts injective tx.shielded tx'.shielded
    (inside (by simp [leafTexts, hashedTexts])) (inside' (by simp [leafTexts, hashedTexts])) digests
  have shape : SameShape tx tx' := by
    by_cases noInputs : tx.inputs = [] <;> by_cases noInputs' : tx'.inputs = []
    · refine ⟨by rw [noInputs, noInputs'], recipients, ?_⟩
      rw [ledger.unsigned tx member noInputs, ledger'.unsigned tx' member' noInputs']
    · exact absurd front (front_inputs_separated tx tx' noInputs noInputs'
        (ledger'.names tx' member' noInputs').inputs)
    · exact absurd front.symm (front_inputs_separated tx' tx noInputs' noInputs
        (ledger.names tx member noInputs).inputs)
    · obtain ⟨inputs, _, signer, _⟩ := hex_front_determined tx tx'
        (ledger.names tx member noInputs) (ledger'.names tx' member' noInputs') front
      refine ⟨?_, recipients, by rw [signer]⟩
      have lengths := congrArg (List.map (fun outpoint : Bytes × UInt32 => outpoint.1.length)) inputs
      simpa [TxInput.outpoint, Function.comp_def] using lengths
  obtain ⟨outpoints, outputs, signer, signerPubkey⟩ := front_determined tx tx' shape front
  have sameWitnesses : tx.inputs.map TxInput.witness = tx'.inputs.map TxInput.witness := by
    rcases witnesses with ⟨none, none'⟩ | same
    · exact witnesses_absent _ _ outpoints none none'
    · exact same
  have inputs := inputs_determined _ _ outpoints sameWitnesses
  obtain ⟨_, _, _, _, _, _, _, _⟩ := tx
  obtain ⟨_, _, _, _, _, _, _, _⟩ := tx'
  simp only [Transaction.mk.injEq]
  exact ⟨inputs, outputs, signer, signerPubkey, signature, fee, nonce, shielded⟩

/-! ### Accepted blocks -/

open Cached in
/-- The votes of an accepted block name tickets without bars. -/
theorem accepted_votes_plain (ledger : Ledger P chain.confirmed chain)
    (taken : Taken P now chain block coinbase others coinbaseTotal fees applied) :
    ∀ vote ∈ votesOf block, byte '|' ∉ vote.ticketId := by
  intro vote member
  obtain ⟨ticket, live⟩ := Option.isSome_iff_exists.mp (taken.live vote member)
  exact ledger.ticket_plain _ ticket live

open Cached in
/-- The commitment in the header of an accepted block. -/
theorem accepted_root (taken : Taken P now chain block coinbase others coinbaseTotal fees applied) :
    block.header.merkleRoot = computeBlockCommitment P block := by
  have header := taken.header
  simp only [validateBlockHeader, bind_ok, exists_unit, ensure_ok, decide_eq_true_eq] at header
  exact header.2.2.1

theorem leafTexts_block (block : Block) (tx : Transaction) (member : tx ∈ block.transactions) :
    leafTexts P tx ⊆ blockTexts P block :=
  fun _ text => .inl (.inl (.inr ⟨tx, member, text⟩))

open Cached in
theorem accepted_leaves_squareFree (ledger : Ledger P chain.confirmed chain)
    (taken : Taken P now chain block coinbase others coinbaseTotal fees applied) (texts : Set Bytes)
    (injective : Set.InjOn P.sha3 texts) (history : textsOf P chain.confirmed ⊆ texts)
    (own : blockTexts P block ⊆ texts) :
    PairedLayers.SquareFreeWord (leavesOf P block.transactions) := by
  refine leaves_squareFree (chain.entering block) applied chain.confirmed block.transactions coinbase
    others taken.transactions texts injective ?_ ?_ (ledger.entering block)
    taken.claim.funded taken.applied
  · intro tx member text hashed
    rcases List.mem_append.mp member with before | new
    · exact history ⟨tx, before, hashed⟩
    · exact own (leafTexts_block block tx new (.inl (.inl hashed)))
  · intro tx member
    exact (leafTexts_block block tx member).trans own

/-- The signatures of two blocks agree, of transactions and of votes, and their recipients have the
same lengths output by output. -/
structure SameUncovered (block block' : Block) : Prop where
  signatures : block.transactions.map Transaction.signature =
    block'.transactions.map Transaction.signature
  votes : SameVoteSignatures block block'
  recipients :
    block.transactions.map (fun tx => tx.outputs.map (fun output => output.recipient.length)) =
      block'.transactions.map (fun tx => tx.outputs.map (fun output => output.recipient.length))

open Cached in
/-- Two blocks that a process accepts in one state, with one header hash, and no SHA3-512 collision
among the texts hashed for them and for the chain, have equal bodies exactly when their signatures
agree and their recipients have the same lengths. Nothing is assumed of what the signature cache
holds. -/
theorem header_binds_body_iff (P : Primitives) (cfg : ChainConfig)
    (others : List (List SignatureCheck)) (calls : List ChainCall) (process after after' : Process)
    (run : process = Process.run P (.new P cfg others) calls) (now now' : Time) (block block' : Block)
    (accepted : process.call P (.addBlock now block) = (.ok (), after))
    (accepted' : process.call P (.addBlock now' block') = (.ok (), after'))
    (injective : Set.InjOn P.sha3
      (textsOf P process.chain.confirmed ∪ blockTexts P block ∪ blockTexts P block'))
    (same : hashBlockHeader P block.header = hashBlockHeader P block'.header) :
    (block.transactions = block'.transactions ∧ block.votes = block'.votes ∧
        block.slashes = block'.slashes) ↔ SameUncovered block block' := by
  constructor
  · rintro ⟨transactions, votes, slashes⟩
    exact ⟨by rw [transactions], ⟨by rw [votes], by rw [slashes], by rw [slashes]⟩,
      by rw [transactions]⟩
  · rintro ⟨signatures, voteSignatures, recipients⟩
    have ledger : Ledger P process.chain.confirmed process.chain := by
      rw [run]
      exact (Process.grownSomehow cfg others calls).ledger
    obtain ⟨coinbase, rest, coinbaseTotal, fees, applied, taken⟩ := call_taken accepted
    obtain ⟨coinbase', rest', coinbaseTotal', fees', applied', taken'⟩ := call_taken accepted'
    have history : textsOf P process.chain.confirmed ⊆
        textsOf P process.chain.confirmed ∪ blockTexts P block ∪ blockTexts P block' :=
      fun _ text => .inl (.inl text)
    have own : blockTexts P block ⊆
        textsOf P process.chain.confirmed ∪ blockTexts P block ∪ blockTexts P block' :=
      fun _ text => .inl (.inr text)
    have own' : blockTexts P block' ⊆
        textsOf P process.chain.confirmed ∪ blockTexts P block ∪ blockTexts P block' :=
      fun _ text => .inr text
    have nonempty : block.transactions ≠ [] := by
      simp [taken.transactions]
    have nonempty' : block'.transactions ≠ [] := by
      simp [taken'.transactions]
    have roots := header_root_determined P _ injective block block'
      (own (by simp [blockTexts])) (own' (by simp [blockTexts])) (accepted_root taken)
      (accepted_root taken') same
    obtain ⟨root, votes, slashes⟩ := commitment_determined P _ injective block block'
      nonempty nonempty' own own' (accepted_votes_plain ledger taken)
      (accepted_votes_plain ledger taken') voteSignatures roots
    have leaves := leaves_determined P _ injective block.transactions block'.transactions
      nonempty nonempty'
      (fun tx member => (leafTexts_block block tx member).trans own)
      (fun tx member => (leafTexts_block block' tx member).trans own')
      (fun _ text => own (.inl (.inr text))) (fun _ text => own' (.inl (.inr text)))
      (accepted_leaves_squareFree ledger taken _ injective history own)
      (accepted_leaves_squareFree ledger taken' _ injective history own') root
    refine ⟨?_, votes, slashes⟩
    have together : block.transactions.map (fun tx => (hashTransactionWithWitness P tx, tx.signature,
          tx.outputs.map (fun output => output.recipient.length))) =
        block'.transactions.map (fun tx => (hashTransactionWithWitness P tx, tx.signature,
          tx.outputs.map (fun output => output.recipient.length))) := by
      have zipped := congrArg₂ List.zip leaves (congrArg₂ List.zip signatures recipients)
      simpa [leavesOf, List.zip_map', Function.comp_def] using zipped
    have explained := (ledger.entering block).applyLoop taken.applied
    have explained' := (ledger.entering block').applyLoop taken'.applied
    refine PairedLayers.map_separated _ _ _ ?_ together
    intro tx member tx' member' equal
    simp only [Prod.mk.injEq] at equal
    exact transaction_determined _ injective explained explained' tx tx' (by simp [member])
      (by simp [member']) ((leafTexts_block block tx member).trans own)
      ((leafTexts_block block' tx' member').trans own') equal.1 equal.2.1 equal.2.2

/-- Lone transactions without inputs and with one identifier give one header. -/
theorem blockOn_header_congr (chain : Chain) (tx tx' : Transaction) (noInputs : tx.inputs = [])
    (noInputs' : tx'.inputs = []) (same : hashTransaction P tx = hashTransaction P tx') :
    (blockOn P chain [tx]).header = (blockOn P chain [tx']).header := by
  have root : ∀ tx : Transaction, tx.inputs = [] →
      computeBlockCommitment P ⟨⟨0, [], 0, 0, 0, []⟩, [tx], [], []⟩ = hashTransaction P tx := by
    intro tx noInputs
    simp [computeBlockCommitment, computeMerkleRoot, PairedLayers.reduce,
      hashTransactionWithWitness, hasWitness, noInputs]
  simp only [blockOn, root tx noInputs, root tx' noInputs', same]

/-- One output to a recipient whose name contains separators. -/
def joinedCoinbase : Transaction := coinbaseOf [⟨ascii "a:5;b", 7⟩] 0

/-- Two outputs with the same text. -/
def separateCoinbase : Transaction := coinbaseOf [⟨ascii "a", 5⟩, ⟨ascii "b", 7⟩] 0

open Cached in
/-- Whatever the hash functions are, the two coinbases give blocks that a fresh process
accepts, with one header hash. -/
theorem separators_accepted (P : Primitives) (verifier : Verifier) :
    (∃ reached, Process.call P ⟨Chain.new P regtestChainConfig, verifier⟩
        (.addBlock epoch (blockOn P (Chain.new P regtestChainConfig) [joinedCoinbase])) =
          (.ok (), ⟨reached, verifier⟩)) ∧
      (∃ reached, Process.call P ⟨Chain.new P regtestChainConfig, verifier⟩
        (.addBlock epoch (blockOn P (Chain.new P regtestChainConfig) [separateCoinbase])) =
          (.ok (), ⟨reached, verifier⟩)) ∧
      (blockOn P (Chain.new P regtestChainConfig) [joinedCoinbase]).header =
        (blockOn P (Chain.new P regtestChainConfig) [separateCoinbase]).header := by
  obtain ⟨_, _, _, _, accepted⟩ := regtest_accepts_first P epoch joinedCoinbase
    ⟨rfl, rfl, rfl, rfl, by decide⟩ (by decide) (by decide) (by decide)
  obtain ⟨_, _, _, _, accepted'⟩ := regtest_accepts_first P epoch separateCoinbase
    ⟨rfl, rfl, rfl, rfl, by decide⟩ (by decide) (by decide) (by decide)
  have ids : hashTransaction P joinedCoinbase = hashTransaction P separateCoinbase :=
    congrArg (strongHash P) rfl
  exact ⟨⟨_, Process.call_bare _ _ verifier epoch _ rfl accepted⟩,
    ⟨_, Process.call_bare _ _ verifier epoch _ rfl accepted'⟩,
    blockOn_header_congr (Chain.new P regtestChainConfig) _ _ rfl rfl ids⟩

open Cached in
/-- Whatever the hash functions are, two blocks with different outputs share a
header: the separators may stand inside a recipient's name. -/
theorem one_header_two_bodies :
    ¬ ∃ P : Primitives, ∀ (others : List (List SignatureCheck)) (calls : List ChainCall)
        (process after after' : Process), process = Process.run P (.new P regtestChainConfig others)
          calls → ∀ now block block',
      process.call P (.addBlock now block) = (.ok (), after) →
      process.call P (.addBlock now block') = (.ok (), after') →
      hashBlockHeader P block.header = hashBlockHeader P block'.header →
      block.transactions = block'.transactions := by
  rintro ⟨P, binds⟩
  obtain ⟨⟨_, accepted⟩, ⟨_, accepted'⟩, headers⟩ := separators_accepted P ⟨∅, []⟩
  have bodies := binds [] [] _ _ _ rfl epoch _ _ accepted accepted'
    (congrArg (hashBlockHeader P) headers)
  exact absurd (List.cons.inj bodies).1 (by decide)

/-! ### Blocks with one header -/

/-- The texts of a block, as a list. -/
def blockTextList (P : Primitives) (block : Block) : List Bytes :=
  [headerText block.header, commitmentText P block] ++
    block.transactions.flatMap (fun tx =>
      [transactionText P tx, tx.shielded, witnessText P tx] ++ tx.inputs.map TxInput.witness) ++
    (PairedLayers.joined (merkleNode P) (leavesOf P block.transactions).length
      (leavesOf P block.transactions)).map (fun pair => pair.1 ++ pair.2) ++
    (votesOf block).map voteText

theorem blockTexts_listed (block : Block) :
    ∀ text ∈ blockTexts P block, text ∈ blockTextList P block := by
  rintro text ((((rfl | rfl) | ⟨tx, member, hashed⟩) | ⟨pair, member, rfl⟩) | ⟨vote, member, rfl⟩)
  · simp [blockTextList]
  · simp [blockTextList]
  · simp only [blockTextList, List.mem_append, List.mem_flatMap]
    refine .inl (.inl (.inr ⟨tx, member, ?_⟩))
    rcases hashed with ((rfl | rfl) | rfl) | ⟨input, listed, rfl⟩
    · simp
    · simp
    · simp
    · exact .inr (List.mem_map_of_mem listed)
  · simp only [blockTextList, List.mem_append]
    exact .inl (.inr (List.mem_map.mpr ⟨pair, member, rfl⟩))
  · simp only [blockTextList, List.mem_append]
    exact .inr (List.mem_map_of_mem member)

/-- The texts hashed for a history and two blocks. -/
def listedTexts (P : Primitives) (transactions : List Transaction) (block block' : Block) :
    List Bytes :=
  transactions.flatMap (fun tx => [transactionText P tx, tx.shielded]) ++ blockTextList P block ++
    blockTextList P block'

/-- Finitely many texts are tested for a collision. -/
theorem texts_injective (transactions : List Transaction) (block block' : Block)
    (separate : ∀ text ∈ listedTexts P transactions block block',
      ∀ text' ∈ listedTexts P transactions block block', P.sha3 text = P.sha3 text' → text = text') :
    Set.InjOn P.sha3 (textsOf P transactions ∪ blockTexts P block ∪ blockTexts P block') := by
  refine injOn_listed _ _ _ ?_ separate
  rintro text ((⟨tx, member, hashed⟩ | own) | own)
  · refine List.mem_append_left _ (List.mem_append_left _ (List.mem_flatMap.mpr ⟨tx, member, ?_⟩))
    rcases hashed with rfl | rfl
    · exact .head _
    · exact .tail _ (.head _)
  · exact List.mem_append_left _ (List.mem_append_right _ (blockTexts_listed block text own))
  · exact List.mem_append_right _ (blockTexts_listed block' text own)

/-- A hexadecimal digit in capitals. -/
def upperDigit (digit : UInt8) : UInt8 := if 97 ≤ digit ∧ digit ≤ 102 then digit - 32 else digit

/-- The block with an unlock and evidence, with the signatures of its transactions in capitals. -/
def respelledBlock : Block :=
  { escapeBlock with
    transactions := escapeBlock.transactions.map fun tx =>
      { tx with signature := tx.signature.map upperDigit } }

/-- The block of one coinbase on a fresh chain. -/
def soloBlock (tx : Transaction) : Block :=
  blockOn samplePrimitives (Chain.new samplePrimitives regtestChainConfig) [tx]

open Cached in
set_option maxRecDepth 100000 in
/-- What is needed of the blocks, evaluated together. -/
theorem bodies_evaluated :
    (lockedProcess.call signingPrimitives (.addBlock epoch escapeBlock)).1.isOk = true ∧
    (lockedProcess.call signingPrimitives (.addBlock epoch respelledBlock)).1.isOk = true ∧
    escapeBlock.transactions.map Transaction.signature ≠
      respelledBlock.transactions.map Transaction.signature ∧
    (∀ text ∈ listedTexts signingPrimitives stakeLocked.confirmed escapeBlock respelledBlock,
      ∀ text' ∈ listedTexts signingPrimitives stakeLocked.confirmed escapeBlock respelledBlock,
        signingPrimitives.sha3 text = signingPrimitives.sha3 text' → text = text') ∧
    (∀ text ∈ listedTexts samplePrimitives [] (soloBlock joinedCoinbase) (soloBlock separateCoinbase),
      ∀ text' ∈ listedTexts samplePrimitives [] (soloBlock joinedCoinbase)
        (soloBlock separateCoinbase),
        samplePrimitives.sha3 text = samplePrimitives.sha3 text' → text = text') := by
  decide +kernel

open Cached in
/-- Blocks with one header and different bodies: they differ where the commitment does not reach, in
the spelling of a signature, or in where a recipient ends. -/
theorem bodies_apart :
    (¬ (escapeBlock.transactions = respelledBlock.transactions ∧
        escapeBlock.votes = respelledBlock.votes ∧ escapeBlock.slashes = respelledBlock.slashes) ∧
      ¬ SameUncovered escapeBlock respelledBlock) ∧
    ¬ ((soloBlock joinedCoinbase).transactions = (soloBlock separateCoinbase).transactions ∧
        (soloBlock joinedCoinbase).votes = (soloBlock separateCoinbase).votes ∧
        (soloBlock joinedCoinbase).slashes = (soloBlock separateCoinbase).slashes) := by
  obtain ⟨accepted, accepted', different, separate, separate'⟩ := bodies_evaluated
  constructor
  · have held : lockedProcess.chain.confirmed = stakeLocked.confirmed := by
      simp only [lockedProcess]
    have bound := header_binds_body_iff signingPrimitives stakingRegtest [] (sampleCalls [])
      lockedProcess _ _ (sampleCalls_run []).symm epoch epoch escapeBlock respelledBlock
      (accepted_of_isOk accepted) (accepted_of_isOk accepted') (by
        rw [held]
        exact texts_injective _ _ _ separate) rfl
    have apart : ¬ SameUncovered escapeBlock respelledBlock :=
      fun same => different same.signatures
    exact ⟨fun bodies => apart (bound.mp bodies), apart⟩
  · obtain ⟨⟨_, first⟩, ⟨_, second⟩, headers⟩ := separators_accepted samplePrimitives ⟨∅, []⟩
    have bound := header_binds_body_iff samplePrimitives regtestChainConfig [] []
      (.new samplePrimitives regtestChainConfig []) _ _ rfl epoch epoch (soloBlock joinedCoinbase)
      (soloBlock separateCoinbase) first second (texts_injective [] _ _ separate')
      (congrArg (hashBlockHeader samplePrimitives) headers)
    intro bodies
    have recipients := (bound.mp bodies).recipients
    exact absurd recipients (by decide)

end Addition
