import Addition.Balances
import Addition.Ledger

/-!
# Transaction identifiers and outpoints along a chain

No rule compares an identifier with the identifiers seen before. A spend cannot
be repeated as long as the outputs it spent stay spent, and a fully shielded
transaction cannot be repeated because its nullifiers are in the pool. Both
arguments rest on the coinbase: a coinbase that repeats an earlier one makes
spent outputs unspent again, and then the spends that follow from it repeat too.
When every accepted coinbase has a new identifier, all identifiers of the chain
are distinct and what was spent stays spent.

The texts that were hashed are assumed free of SHA3-512 collisions.
-/

namespace Addition

open ByteStrings Checked FiniteTables

variable (P : Primitives)

/-- The texts hashed for a list of transactions. -/
def textsOf (transactions : List Transaction) : Set Bytes :=
  {text | ∃ tx ∈ transactions, text ∈ hashedTexts P tx}

/-- The coinbase of a block has an identifier that is not in the chain. -/
def FreshCoinbase : StepCondition := fun _ chain block =>
  ∀ coinbase ∈ block.transactions.head?, hashTransaction P coinbase ∉ chain.seenTransactions

/-- No identifier occurs twice, and the outputs that were spent are not unspent. -/
structure Unrepeated (done : List Transaction) (chain : Chain) : Prop where
  distinct : (done.map (hashTransaction P)).Nodup
  spent : ∀ tx ∈ done, ∀ input ∈ tx.inputs, ¬ chain.holds input.key

/-- An entry that is marked spent. -/
def Chain.usedUp (chain : Chain) (key : Bytes) : Prop :=
  ∃ utxo, chain.utxoSet.lookup key = some utxo ∧ utxo.spent = true

variable {P}

variable {chain : Chain} {done : List Transaction} {created reached spent : Chain}
  {tx : Transaction} {unlocking : Bool} {now : Time}

theorem Chain.usedUp.not_holds {key : Bytes} (used : chain.usedUp key) :
    ¬ chain.holds key := by
  obtain ⟨utxo, found, spent⟩ := used
  simp [Chain.holds, unspentAt, found, spent]

theorem not_holds_iff (chain : Chain) (key : Bytes) :
    ¬ chain.holds key ↔ unspentAt chain.utxoSet key = none := by
  simp [Chain.holds]

/-! ### One transaction -/

/-- Explained transactions with one identifier spend the same outpoints. -/
theorem Ledger.same_inputs (ledger : Ledger P done chain)
    (texts : Set Bytes) (injective : Set.InjOn P.sha3 texts)
    (inside : ∀ other ∈ done, hashedTexts P other ⊆ texts) (tx other : Transaction)
    (member : tx ∈ done) (member' : other ∈ done) (spends : tx.inputs ≠ [])
    (same : hashTransaction P other = hashTransaction P tx) :
    other.inputs.map TxInput.outpoint = tx.inputs.map TxInput.outpoint := by
  have text := hashTransaction_injOn P texts injective other tx
    (inside other member' (by simp [hashedTexts])) (inside tx member (by simp [hashedTexts])) same
  have front := (text_tail_determined P other tx text).1
  have names := ledger.names tx member spends
  by_cases noInputs : other.inputs = []
  · exact absurd front (front_inputs_separated other tx noInputs spends names.inputs)
  · exact (hex_front_determined other tx (ledger.names other member' noInputs) names front).1

/-- A transaction after the coinbase that repeats an explained identifier has
inputs: a bundle without inputs cannot repeat. -/
theorem AppliedTransaction.repeated
    (applied : AppliedTransaction P chain tx spent unlocking created reached)
    (ledger : Ledger P done chain) (texts : Set Bytes) (injective : Set.InjOn P.sha3 texts)
    (inside : ∀ other ∈ done ++ [tx], hashedTexts P other ⊆ texts)
    (funded : tx.inputs ≠ [] ∨ tx.shielded ≠ []) (other : Transaction) (member : other ∈ done)
    (same : hashTransaction P other = hashTransaction P tx) : tx.inputs ≠ [] := by
  intro noInputs
  have otherTexts := inside other (by simp [member])
  have ownTexts := inside tx (by simp)
  have text := hashTransaction_injOn P texts injective other tx
    (otherTexts (by simp [hashedTexts])) (ownTexts (by simp [hashedTexts])) same
  obtain ⟨_, _, _, digests⟩ := text_tail_determined P other tx text
  have carries := funded.resolve_left (fun spends => spends noInputs)
  have field := shieldedText_injOn P texts injective other.shielded tx.shielded
    (otherTexts (by simp [hashedTexts])) (ownTexts (by simp [hashedTexts])) digests
  obtain ⟨_, coinbase | ⟨bundle, form⟩ | ⟨_, spend⟩⟩ :=
    validateTransaction_forms P chain tx applied.valid
  · exact carries coinbase.transparent
  · -- the nullifiers of the earlier transaction are already in the pool
    obtain ⟨nullifier, listed⟩ := List.exists_mem_of_ne_nil _ form.spendsNote
    have carried : bundleOf other = some bundle :=
      bundleOf_decoded other bundle (field ▸ form.shielded.decoded)
    have unspent := (Shielded.State.check_ok _ _ _ form.shielded.checked).unspent nullifier listed
    exact unspent.1 (ledger.nullifiers other member bundle carried nullifier listed)
  · exact spend.hasInputs noInputs

/-- Inputs with the same outpoints spend the same keys. -/
theorem key_of_outpoint {input input' : TxInput} (same : input.outpoint = input'.outpoint) :
    input.key = input'.key := by
  obtain ⟨txid, index⟩ := Prod.mk.inj same
  rw [TxInput.key, TxInput.key, txid, index]

/-- A spend or a fully shielded transaction that applies repeats no explained one. -/
theorem fresh_application (step : applyNext P chain tx = (.ok (), reached))
    (ledger : Ledger P done chain) (unrepeated : Unrepeated P done chain)
    (texts : Set Bytes) (injective : Set.InjOn P.sha3 texts)
    (inside : ∀ other ∈ done ++ [tx], hashedTexts P other ⊆ texts)
    (funded : tx.inputs ≠ [] ∨ tx.shielded ≠ []) :
    ∀ other ∈ done, hashTransaction P other ≠ hashTransaction P tx := by
  intro other member same
  obtain ⟨_, _, _, applied, _⟩ := applyNext_ok P chain tx reached step
  have spends := applied.repeated ledger texts injective inside funded other member same
  have inputs := (ledger.apply step).same_inputs texts injective inside tx other (by simp)
    (by simp [member]) spends same
  -- both spend the same outputs, which the earlier one has used up
  obtain ⟨input, listed⟩ := List.exists_mem_of_ne_nil _ spends
  have shared : input.outpoint ∈ other.inputs.map TxInput.outpoint :=
    inputs ▸ List.mem_map_of_mem listed
  obtain ⟨input', listed', outpoint⟩ := List.mem_map.mp shared
  obtain ⟨utxo, unspent, _⟩ := applied.inputs.present input listed
  refine unrepeated.spent other member input' listed' ?_
  simp [Chain.holds, key_of_outpoint outpoint, unspent]

/-- The outputs of a transaction with a new identifier stand under new keys. -/
theorem Ledger.new_keys (ledger : Ledger P done chain)
    (tx : Transaction) (fresh : ∀ other ∈ done, hashTransaction P other ≠ hashTransaction P tx)
    (key : Bytes) (utxo : Utxo) (found : chain.utxoSet.lookup key = some utxo) :
    key ∉ createdKeys P tx := by
  intro created
  obtain ⟨placed, _, same⟩ := List.mem_map.mp created
  obtain ⟨source, member, position, named⟩ := ledger.entries key utxo found
  exact fresh source member (outpointKey_injective _ _ _ _ (named.symm.trans same.symm)).1

/-- A new transaction keeps what was spent as it was. -/
theorem AppliedTransaction.usedUp
    (applied : AppliedTransaction P chain tx spent unlocking created reached)
    (ledger : Ledger P done chain)
    (fresh : ∀ other ∈ done, hashTransaction P other ≠ hashTransaction P tx) (key : Bytes)
    (used : chain.usedUp key) : reached.usedUp key := by
  obtain ⟨utxo, found, gone⟩ := used
  refine ⟨utxo, ?_, gone⟩
  have new := ledger.new_keys tx fresh key utxo found
  rw [applied.utxoSet.1, applied.outputs.others key
    (fun placed inside same => new (List.mem_map.mpr ⟨placed, inside, same.symm⟩)),
    applied.inputs.others key, found]
  intro spends
  obtain ⟨input, inside, rfl⟩ := List.mem_map.mp spends
  obtain ⟨before, unspent, _⟩ := applied.inputs.present input inside
  obtain ⟨entry, live⟩ := (unspentAt_some _ _ _).mp unspent
  obtain rfl : before = utxo := Option.some.inj (entry.symm.trans found)
  simp [live] at gone

/-- A new transaction keeps identifiers distinct and spent outputs spent. -/
theorem Unrepeated.apply (unrepeated : Unrepeated P done chain) (ledger : Ledger P done chain)
    (fresh : ∀ other ∈ done, hashTransaction P other ≠ hashTransaction P tx)
    (step : applyNext P chain tx = (.ok (), reached)) : Unrepeated P (done ++ [tx]) reached := by
  obtain ⟨spent, unlocking, created, applied, _⟩ := applyNext_ok P chain tx reached step
  constructor
  · rw [List.map_append, List.map_singleton]
    refine List.nodup_append.mpr ⟨unrepeated.distinct, by simp, ?_⟩
    rintro id listed new member rfl
    obtain ⟨other, inside, rfl⟩ := List.mem_map.mp listed
    exact fresh other inside (by simpa using member)
  · intro other member input inside held
    -- a key that an output of the new transaction could revive is one of its own
    have source : ∃ source ∈ done, input.previousTxid = hashTransaction P source := by
      rcases List.mem_append.mp member with before | new
      · exact ledger.source other before input inside
      · obtain rfl : other = tx := by simpa using new
        exact applied.source ledger input inside
    obtain ⟨source, explained, named⟩ := source
    rcases (applied.holds input.key).mp held with own | ⟨before, kept⟩
    · obtain ⟨placed, _, same⟩ := List.mem_map.mp own
      have ids := (outpointKey_injective _ _ _ _ same).1
      exact fresh source explained (named.symm.trans ids.symm)
    · rcases List.mem_append.mp member with earlier | new
      · exact unrepeated.spent other earlier input inside before
      · obtain rfl : other = tx := by simpa using new
        exact kept (List.mem_map_of_mem inside)

/-! ### Blocks and runs -/

/-- A coinbase that differs from every explained transaction is new. -/
theorem Ledger.freshCoinbase (ledger : Ledger P done chain) {block : Block} {coinbase : Transaction}
    {others : List Transaction} (now : Time) (listed : block.transactions = coinbase :: others)
    (new : ∀ tx ∈ done, hashTransaction P tx ≠ hashTransaction P coinbase) :
    FreshCoinbase P now chain block := by
  intro first head seen
  obtain rfl : coinbase = first := by simpa [listed] using head
  obtain ⟨tx, member, same⟩ := (ledger.seen _).mp seen
  exact new tx member same

/-- The transactions after the coinbase keep identifiers distinct and spent outputs
spent. -/
theorem unrepeated_applyLoop (texts : Set Bytes) (injective : Set.InjOn P.sha3 texts)
    (transactions done : List Transaction) (chain applied : Chain)
    (inside : ∀ tx ∈ done ++ transactions, hashedTexts P tx ⊆ texts)
    (funded : ∀ tx ∈ transactions, tx.inputs ≠ [] ∨ tx.shielded ≠ [])
    (ledger : Ledger P done chain) (unrepeated : Unrepeated P done chain)
    (loop : each (applyNext P) chain transactions = (.ok (), applied)) :
    Unrepeated P (done ++ transactions) applied ∧
      ∀ key, chain.usedUp key → applied.usedUp key := by
  induction transactions generalizing done chain with
  | nil =>
    rw [each_nil_ok] at loop
    subst loop
    exact ⟨by simpa using unrepeated, fun key used => used⟩
  | cons tx rest ih =>
    obtain ⟨next, step, later⟩ := (each_cons_ok _ _ _ _ _).mp loop
    obtain ⟨_, _, _, parts, _⟩ := applyNext_ok P chain tx next step
    have fresh := fresh_application step ledger unrepeated texts injective
      (fun other member => inside other (by
        rcases List.mem_append.mp member with before | new
        · simp [before]
        · simp [show other = tx by simpa using new]))
      (funded tx (by simp))
    obtain ⟨distinct, kept⟩ := ih (done ++ [tx]) next
      (by simpa using inside) (fun other member => funded other (by simp [member]))
      (ledger.apply step) (unrepeated.apply ledger fresh step) later
    refine ⟨by simpa using distinct, fun key used => kept key (parts.usedUp ledger fresh key used)⟩

theorem slashTicket_usedUp (chain : Chain) (slash : SlashEvidence) (key : Bytes)
    (used : chain.usedUp key) : (chain.slashTicket slash).usedUp key := by
  rcases slashTicket_entry chain slash key with same | ⟨utxo, _, marked⟩
  · obtain ⟨utxo, found, gone⟩ := used
    exact ⟨utxo, same.trans found, gone⟩
  · exact ⟨_, marked, rfl⟩

theorem slashTicket_holds (chain : Chain) (slash : SlashEvidence) (key : Bytes)
    (held : (chain.slashTicket slash).holds key) : chain.holds key := by
  rcases slashTicket_entry chain slash key with same | ⟨utxo, _, marked⟩
  · unfold Chain.holds unspentAt at held ⊢
    rwa [same] at held
  · simp [Chain.holds, unspentAt, marked] at held

theorem slashTickets_usedUp (slashes : List SlashEvidence) (chain : Chain) (key : Bytes)
    (used : chain.usedUp key) : (slashes.foldl Chain.slashTicket chain).usedUp key := by
  induction slashes generalizing chain with
  | nil => exact used
  | cons slash rest ih =>
    exact ih _ (slashTicket_usedUp chain slash key used)

theorem slashTickets_holds (slashes : List SlashEvidence) (chain : Chain) (key : Bytes)
    (held : (slashes.foldl Chain.slashTicket chain).holds key) : chain.holds key := by
  induction slashes generalizing chain with
  | nil => exact held
  | cons slash rest ih =>
    exact slashTicket_holds chain slash key (ih _ held)

/-- A block with a new coinbase keeps identifiers distinct and spent outputs spent. -/
theorem Unrepeated.block {block : Block}
    (unrepeated : Unrepeated P chain.confirmed chain) (ledger : Ledger P chain.confirmed chain)
    (accepted : addBlock P now chain block = (.ok (), reached))
    (new : FreshCoinbase P now chain block)
    (injective : Set.InjOn P.sha3 (textsOf P reached.confirmed)) :
    Unrepeated P reached.confirmed reached ∧ ∀ key, chain.usedUp key → reached.usedUp key := by
  rw [addBlock_confirmed now chain reached block accepted] at injective ⊢
  obtain ⟨coinbase, others, coinbaseTotal, fees, _, _, applied, went, rfl⟩ :=
    addBlock_ok P now chain block reached accepted
  have listed := went.valid.transactions
  have loop := went.applied
  rw [listed] at loop injective ⊢
  obtain ⟨started, first, later⟩ := (each_cons_ok _ _ _ _ _).mp loop
  have entered := ledger.entering block
  have start : Unrepeated P chain.confirmed (chain.entering block) :=
    ⟨unrepeated.distinct, unrepeated.spent⟩
  have freshCoinbase : ∀ other ∈ chain.confirmed,
      hashTransaction P other ≠ hashTransaction P coinbase := by
    intro other member same
    exact new coinbase (by simp [listed]) ((ledger.seen _).mpr ⟨other, member, same⟩)
  obtain ⟨_, _, _, parts, _⟩ := applyNext_ok P _ coinbase started first
  obtain ⟨distinct, kept⟩ := unrepeated_applyLoop _ injective others (chain.confirmed ++ [coinbase])
    started applied (fun tx member text listed => ⟨tx, by simpa using member, listed⟩)
    went.valid.claim.funded (entered.apply first) (start.apply entered freshCoinbase first) later
  rw [List.append_assoc, List.singleton_append] at distinct
  refine ⟨⟨distinct.distinct, ?_⟩, ?_⟩
  · intro tx member input inside held
    exact distinct.spent tx member input inside
      (slashTickets_holds block.slashes { applied with totalFeesLastBlock := fees } _ held)
  · intro key used
    have afterLoop := kept key (parts.usedUp entered freshCoinbase key used)
    exact slashTickets_usedUp block.slashes { applied with totalFeesLastBlock := fees } key afterLoop

theorem textsOf_mono {transactions transactions' : List Transaction}
    (listed : ∀ tx ∈ transactions, tx ∈ transactions') :
    textsOf P transactions ⊆ textsOf P transactions' := by
  rintro text ⟨tx, member, hashed⟩
  exact ⟨tx, listed tx member, hashed⟩

/-- The texts of a chain are among those of the chain one block later. -/
theorem textsOf_accepted {block : Block}
    (accepted : addBlock P now chain block = (.ok (), reached)) :
    textsOf P chain.confirmed ⊆ textsOf P reached.confirmed := by
  refine textsOf_mono (fun tx member => ?_)
  simp [addBlock_confirmed now chain reached block accepted, member]

theorem Grown.unrepeated {cfg : ChainConfig} (grown : Grown P (FreshCoinbase P) cfg chain)
    (injective : Set.InjOn P.sha3 (textsOf P chain.confirmed)) :
    Unrepeated P chain.confirmed chain := by
  revert injective
  refine grown.carries (fun chain => Set.InjOn P.sha3 (textsOf P chain.confirmed) →
    Unrepeated P chain.confirmed chain) ?_ ?_
  · intro _
    constructor <;> simp [Chain.confirmed, Chain.new, makeGenesis]
  · intro now chain block reached before unrepeated new accepted injective
    have earlier := unrepeated (injective.mono (textsOf_accepted accepted))
    exact (earlier.block before.ledger accepted new injective).1

/-- In every run whose accepted coinbases are new, all transaction identifiers of
the chain are distinct, the outputs that its transactions spent are not unspent,
and an output that was marked spent in some state is unspent in no later state of
the same chain. -/
theorem ids_and_outpoints_unrepeated (P : Primitives) (cfg : ChainConfig) (earlier later : Chain)
    (reachable : ReachableWith P (FreshCoinbase P) cfg earlier)
    (extended : Extends P (FreshCoinbase P) earlier later)
    (injective : Set.InjOn P.sha3 (textsOf P later.confirmed)) :
    (later.confirmed.map (hashTransaction P)).Nodup ∧
      (∀ tx ∈ later.confirmed, ∀ input ∈ tx.inputs, unspentAt later.utxoSet input.key = none) ∧
      ∀ key, earlier.usedUp key → unspentAt later.utxoSet key = none := by
  have carried : Grown P (FreshCoinbase P) cfg later ∧
      (Set.InjOn P.sha3 (textsOf P later.confirmed) →
        ∀ key, earlier.usedUp key → later.usedUp key) := by
    clear injective
    induction extended with
    | refl => exact ⟨reachable.grown, fun _ key used => used⟩
    | tail _ step ih =>
      obtain ⟨grown, kept⟩ := ih
      obtain ⟨now, block, new, accepted⟩ := step
      refine ⟨.add now _ block _ grown new accepted, fun injective key used => ?_⟩
      have before := injective.mono (textsOf_accepted accepted)
      exact ((grown.unrepeated before).block grown.ledger accepted new injective).2 key
        (kept before key used)
  have unrepeated := carried.1.unrepeated injective
  refine ⟨unrepeated.distinct, ?_, ?_⟩
  · intro tx member input inside
    exact (not_holds_iff later input.key).mp (unrepeated.spent tx member input inside)
  · intro key used
    exact (not_holds_iff later key).mp (carried.2 injective key used).not_holds

theorem scriptSecond_listed :
    scriptSecond.transactions = [coinbaseOf [⟨ascii "miner", 50⟩] 1, scriptSpend] := rfl

theorem scriptTip_confirmed : scriptTip.confirmed = [scriptCoinbase] := by
  rw [addBlock_confirmed epoch _ _ _ scriptFirst_accepted]
  rfl

theorem scriptSpent_confirmed :
    scriptSpent.confirmed = [scriptCoinbase, coinbaseOf [⟨ascii "miner", 50⟩] 1, scriptSpend] := by
  rw [addBlock_confirmed epoch _ _ _ scriptSecond_accepted, scriptTip_confirmed]
  rfl

/-- Transactions without a bundle are tested for a collision text by text. -/
theorem injOn_bare (P : Primitives) (transactions : List Transaction)
    (bare : ∀ tx ∈ transactions, tx.shielded = [])
    (separate : ∀ text ∈ [] :: transactions.map (transactionText P),
      ∀ text' ∈ [] :: transactions.map (transactionText P),
      P.sha3 text = P.sha3 text' → text = text') :
    Set.InjOn P.sha3 (textsOf P transactions) := by
  refine injOn_listed _ _ _ ?_ separate
  rintro text ⟨tx, member, hashed⟩
  rcases hashed with rfl | rfl
  · exact .tail _ (List.mem_map_of_mem member)
  · rw [bare tx member]
    exact .head _

theorem scriptSpent_injective :
    Set.InjOn samplePrimitives.sha3 (textsOf samplePrimitives scriptSpent.confirmed) := by
  rw [scriptSpent_confirmed]
  exact injOn_bare _ _ (by decide +kernel) (by decide +kernel)

/-- A run with a spend: what it spent is not unspent afterwards. -/
theorem script_coinbase_used :
    (scriptSpent.confirmed.map (hashTransaction samplePrimitives)).Nodup ∧
      ∀ input ∈ scriptSpend.inputs, unspentAt scriptSpent.utxoSet input.key = none := by
  have first : ReachableWith samplePrimitives (FreshCoinbase samplePrimitives) regtestChainConfig
      scriptTip :=
    ReachableWith.new.step epoch scriptFirst scriptTip
      (fun _ _ seen => Finset.notMem_empty _ seen) scriptFirst_accepted
  have ledger := first.grown.ledger
  rw [scriptTip_confirmed] at ledger
  have new : FreshCoinbase samplePrimitives epoch scriptTip scriptSecond := by
    refine ledger.freshCoinbase epoch scriptSecond_listed ?_
    rintro tx member
    rw [List.mem_singleton.mp member]
    decide +kernel
  have run := ids_and_outpoints_unrepeated samplePrimitives regtestChainConfig scriptTip scriptSpent
    first (.single ⟨epoch, scriptSecond, new, scriptSecond_accepted⟩) scriptSpent_injective
  refine ⟨run.1, run.2.1 scriptSpend ?_⟩
  rw [scriptSpent_confirmed]
  exact .tail _ (.tail _ (.head _))

/-- No hash functions save the plain statement: the same coinbase can be mined
twice in a row. -/
theorem coinbase_id_repeats :
    ¬ ∃ P : Primitives, ∀ chain, Reachable P regtestChainConfig chain →
      (chain.confirmed.map (hashTransaction P)).Nodup := by
  rintro ⟨P, distinct⟩
  obtain ⟨first, second, chain, _, reachable, firstListed, secondListed, blocks, _⟩ :=
    coinbase_mined_twice P epoch
  have ids := distinct chain reachable
  simp [Chain.confirmed, blocks, firstListed, secondListed, makeGenesis] at ids

end Addition
