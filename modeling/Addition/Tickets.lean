import Addition.Outpoints
import Addition.StakingRules

/-!
# Stake tickets and staked outputs

An output to the stake address opens a ticket under its own key, and spending the
output closes it. The two stay in step as long as the key is not written again. A
signed transaction cannot repeat, because its nonce is recorded, so the key of a
ticket with an owner is written once; such a ticket stands beside an unspent
output of its amount, and its owner has a registered key.

A ticket without an owner comes from a transaction that pays the stake address
without a signer. Nothing can unlock it.
-/

namespace Addition

open ByteStrings Checked FiniteTables

variable {P : Primitives}

/-! ### Signed transactions do not repeat -/

variable {chain : Chain} {done : List Transaction} {reached : Chain} {tx : Transaction}
  {key : Bytes} {applied : Chain} {transactions : List Transaction} {cfg : ChainConfig}

/-- A transaction that applies has another identifier than every signed spend
before it. -/
theorem signed_id_unique
    (ledger : Ledger P done chain) (texts : Set Bytes) (injective : Set.InjOn P.sha3 texts)
    (inside : ∀ other ∈ done ++ [tx], hashedTexts P other ⊆ texts)
    (step : applyNext P chain tx = (.ok (), reached)) (source : Transaction) (member : source ∈ done)
    (spends : source.inputs ≠ []) (signed : source.signer ≠ []) :
    hashTransaction P source ≠ hashTransaction P tx := by
  intro same
  obtain ⟨_, _, _, applied, _⟩ := applyNext_ok P chain tx reached step
  have text := hashTransaction_injOn P texts injective source tx
    (inside source (by simp [member]) (by simp [hashedTexts]))
    (inside tx (by simp) (by simp [hashedTexts])) same
  obtain ⟨front, _, nonce, _⟩ := text_tail_determined P source tx text
  have sourceNames := ledger.names source member spends
  by_cases noInputs : tx.inputs = []
  · exact front_inputs_separated tx source noInputs spends sourceNames.inputs front.symm
  · obtain ⟨_, _, signer, _⟩ := hex_front_determined source tx sourceNames
      (applied.names ledger noInputs) front
    obtain ⟨last, recorded, bound⟩ := ledger.nonces source member spends signed
    obtain ⟨_, form⟩ := spend_authorized chain tx applied.valid noInputs
    have larger := (validateAuthority_ok chain tx ledger.registry form.authority).nonce last
      (signer ▸ signed) (signer ▸ recorded)
    rw [← nonce, UInt64.lt_iff_toNat_lt] at larger
    rw [UInt64.le_iff_toNat_le] at bound
    omega

/-- An entry under a key that a transaction neither spends nor creates stays. -/
theorem AppliedTransaction.untouched {spent created : Chain}
    {unlocking : Bool} (applied : AppliedTransaction P chain tx spent unlocking created reached)
    (key : Bytes) (notCreated : key ∉ createdKeys P tx)
    (notSpent : key ∉ tx.inputs.map TxInput.key) :
    reached.utxoSet.lookup key = chain.utxoSet.lookup key := by
  rw [applied.utxoSet.1, applied.outputs.others key
    (fun placed inside same => notCreated (List.mem_map.mpr ⟨placed, inside, same.symm⟩)),
    applied.inputs.others key notSpent]

/-- A key of an output of a signed spend. -/
def SignedKey (P : Primitives) (done : List Transaction) (key : Bytes) : Prop :=
  ∃ tx ∈ done, tx.inputs ≠ [] ∧ tx.signer ≠ [] ∧
    ∃ position, key = outpointKey (hashTransaction P tx) position

theorem SignedKey.mono (signed : SignedKey P done key)
    (later : List Transaction) : SignedKey P (done ++ later) key := by
  obtain ⟨tx, member, form⟩ := signed
  exact ⟨tx, by simp [member], form⟩

/-- A key of a signed spend is not written again. -/
theorem SignedKey.notCreated (signed : SignedKey P done key) (ledger : Ledger P done chain)
    (texts : Set Bytes) (injective : Set.InjOn P.sha3 texts)
    (inside : ∀ other ∈ done ++ [tx], hashedTexts P other ⊆ texts)
    (step : applyNext P chain tx = (.ok (), reached)) : key ∉ createdKeys P tx := by
  obtain ⟨source, member, spends, signer, position, named⟩ := signed
  intro own
  obtain ⟨placed, _, same⟩ := List.mem_map.mp own
  exact signed_id_unique ledger texts injective inside step source member spends signer
    (outpointKey_injective _ _ _ _ (named.symm.trans same.symm)).1

/-- The texts of the front of a list of transactions. -/
theorem inside_front {rest : List Transaction} {texts : Set Bytes}
    (inside : ∀ other ∈ done ++ tx :: rest, hashedTexts P other ⊆ texts) :
    ∀ other ∈ done ++ [tx], hashedTexts P other ⊆ texts := by
  intro other member
  refine inside other ?_
  rcases List.mem_append.mp member with before | new
  · simp [before]
  · simp [show other = tx by simpa using new]

/-! ### The invariant -/

/-- A ticket with an owner: opened by a signed spend, beside an unspent output. -/
structure SignedStake (P : Primitives) (done : List Transaction) (chain : Chain) (key : Bytes)
    (ticket : StakeTicket) : Prop where
  source : SignedKey P done key
  entry : ∃ utxo, unspentAt chain.utxoSet key = some utxo ∧ utxo.owner = kStakeAddress ∧
    utxo.amount = ticket.amount
  positive : ticket.amount ≠ 0
  minimum : chain.cfg.stakeMinAmount ≤ ticket.amount
  bound : ∃ pubkey, chain.pubkeyRegistry.lookup ticket.owner = some pubkey

/-- Tickets with an owner are sound, and every staked output has a ticket. -/
structure Stakes (P : Primitives) (done : List Transaction) (chain : Chain) : Prop where
  sound : ∀ key ticket, chain.tickets.lookup key = some ticket → ticket.owner ≠ [] →
    SignedStake P done chain key ticket
  complete : ∀ key utxo, unspentAt chain.utxoSet key = some utxo → utxo.owner = kStakeAddress →
    ∃ ticket, chain.tickets.lookup key = some ticket

/-- After a signed spend its signer has a registered key. -/
theorem recordSigner_registered (chain : Chain) (tx : Transaction) (authority : Authority P chain tx)
    (spends : tx.inputs ≠ []) (signed : tx.signer ≠ []) :
    ∃ pubkey, (chain.recordSigner tx).pubkeyRegistry.lookup tx.signer = some pubkey := by
  rw [recordSigner_registry]
  by_cases noPubkey : tx.signerPubkey = []
  · obtain ⟨pubkey, known⟩ := authority.registered signed noPubkey
    exact ⟨pubkey, by simp [noPubkey, known]⟩
  · rw [if_neg (by simp [spends, signed, noPubkey]), lookup_emplace]
    cases known : chain.pubkeyRegistry.lookup tx.signer with
    | some pubkey => exact ⟨pubkey, by simp⟩
    | none => exact ⟨tx.signerPubkey, by simp⟩

/-- Registered keys stay. -/
theorem recordSigner_keeps (chain : Chain) (tx : Transaction) (signer pubkey : Bytes)
    (known : chain.pubkeyRegistry.lookup signer = some pubkey) :
    (chain.recordSigner tx).pubkeyRegistry.lookup signer = some pubkey := by
  rw [recordSigner_registry]
  split
  · exact known
  · rw [lookup_emplace, known]
    rfl

/-- A stake output passed the stake rules. -/
theorem checkStakeOutput_ok (chain : Chain) (spendsTicket : Bool) (output : TxOutput)
    (stake : output.recipient = kStakeAddress)
    (valid : checkStakeOutput chain spendsTicket output = .ok ()) :
    spendsTicket = false ∧ chain.stakingActiveAt chain.contextHeight = true ∧
      chain.cfg.stakeMinAmount ≤ output.amount := by
  simpa [checkStakeOutput, stake] using valid

theorem zipIdx_member {placed : TxOutput × Nat} {outputs : List TxOutput}
    (inside : placed ∈ outputs.zipIdx) : placed.1 ∈ outputs := by
  obtain ⟨output, position⟩ := placed
  exact List.fst_mem_of_mem_zipIdx inside

/-- Application keeps tickets and outputs in step. -/
theorem Stakes.apply
    (stakes : Stakes P done chain) (ledger : Ledger P done chain) (texts : Set Bytes)
    (injective : Set.InjOn P.sha3 texts)
    (inside : ∀ other ∈ done ++ [tx], hashedTexts P other ⊆ texts)
    (step : applyNext P chain tx = (.ok (), reached)) : Stakes P (done ++ [tx]) reached := by
  obtain ⟨spent, unlocking, created, applied, _⟩ := applyNext_ok P chain tx reached step
  have members := applied.members
  have frame := applyLoop_frame P [tx] chain
  rw [(each_cons_ok _ _ _ _ _).mpr ⟨reached, step, rfl⟩] at frame
  constructor
  · intro key ticket found owned
    rcases applied.ticket key ticket found with ⟨output, placed, stake, rfl, rfl⟩ | ⟨before, kept⟩
    · have signed : tx.signer ≠ [] := owned
      have spends : tx.inputs ≠ [] := fun noInputs =>
        signed ((ledger.apply step).unsigned tx (by simp) noInputs)
      obtain ⟨_, form⟩ := spend_authorized chain tx applied.valid spends
      have authority := validateAuthority_ok chain tx ledger.registry form.authority
      have listed := zipIdx_member placed
      refine ⟨⟨tx, by simp, spends, signed, output.2, rfl⟩, ?_, ?_, ?_, ?_⟩
      · refine ⟨newUtxo spent unlocking output.1, ?_, stake, rfl⟩
        rw [unspentAt_some, applied.utxoSet.1]
        exact ⟨applied.outputs.entries output placed, rfl⟩
      · exact ((validateTransaction_forms P chain tx applied.valid).1 output.1 listed).2
      · rw [frame.cfg]
        exact (checkStakeOutput_ok chain _ output.1 stake (form.stake output.1 listed)).2.2
      · rw [members.pubkeyRegistry]
        exact recordSigner_registered chain tx authority spends signed
    · have earlier := stakes.sound key ticket before owned
      have notCreated := earlier.source.notCreated ledger texts injective inside step
      obtain ⟨utxo, unspent, owner, amount⟩ := earlier.entry
      obtain ⟨pubkey, known⟩ := earlier.bound
      refine ⟨earlier.source.mono [tx], ⟨utxo, ?_, owner, amount⟩, earlier.positive, ?_, pubkey, ?_⟩
      · unfold unspentAt at unspent ⊢
        rwa [applied.untouched key notCreated kept]
      · rw [frame.cfg]
        exact earlier.minimum
      · rw [members.pubkeyRegistry]
        exact recordSigner_keeps chain tx ticket.owner pubkey known
  · intro key utxo unspent owner
    rw [applied.tickets]
    by_cases own : ∃ placed ∈ tx.outputs.zipIdx, key = outpointKey (hashTransaction P tx) placed.2
    · obtain ⟨placed, listed, rfl⟩ := own
      have entry := applied.outputs.entries placed listed
      rw [← applied.utxoSet.1] at entry
      have stake : placed.1.recipient = kStakeAddress := by
        have same := ((unspentAt_some _ _ _).mp unspent).1
        rw [entry, Option.some.injEq] at same
        rw [← same] at owner
        exact owner
      exact ⟨_, applied.outputs.stakes placed listed stake⟩
    · have held : reached.holds key := by simp [Chain.holds, unspent]
      have notCreated : key ∉ createdKeys P tx := by
        intro made
        obtain ⟨placed, listed, same⟩ := List.mem_map.mp made
        exact own ⟨placed, listed, same.symm⟩
      obtain ⟨_, kept⟩ := ((applied.holds key).mp held).resolve_left notCreated
      have before : unspentAt chain.utxoSet key = some utxo := by
        unfold unspentAt at unspent ⊢
        rwa [applied.untouched key notCreated kept] at unspent
      obtain ⟨ticket, found⟩ := stakes.complete key utxo before owner
      refine ⟨ticket, ?_⟩
      rw [applied.outputs.otherTickets key (fun placed listed _ same => own ⟨placed, listed, same⟩),
        applied.inputs.tickets key, if_neg kept, found]

/-- A loop of applications keeps tickets and outputs in step. -/
theorem Stakes.applyLoop
    (stakes : Stakes P done chain) (ledger : Ledger P done chain) (texts : Set Bytes)
    (injective : Set.InjOn P.sha3 texts)
    (inside : ∀ tx ∈ done ++ transactions, hashedTexts P tx ⊆ texts)
    (loop : each (applyNext P) chain transactions = (.ok (), applied)) :
    Stakes P (done ++ transactions) applied := by
  induction transactions generalizing done chain with
  | nil =>
    rw [each_nil_ok] at loop
    simpa [loop] using stakes
  | cons tx rest ih =>
    obtain ⟨next, step, later⟩ := (each_cons_ok _ _ _ _ _).mp loop
    have within := inside_front inside
    simpa using ih (stakes.apply ledger texts injective within step)
      (ledger.apply step) (by simpa using inside) later

/-- The entries that a slash leaves alone. -/
theorem slashTicket_others (chain : Chain) (slash : SlashEvidence) (key : Bytes)
    (other : key ≠ slash.a.ticketId) :
    (chain.slashTicket slash).utxoSet.lookup key = chain.utxoSet.lookup key := by
  unfold Chain.slashTicket
  split
  · rfl
  · rfl
  · exact AList.lookup_insert_ne other

/-- A slash closes the ticket with its output. -/
theorem Stakes.slash (stakes : Stakes P done chain)
    (slash : SlashEvidence) : Stakes P done (chain.slashTicket slash) := by
  obtain ⟨_, registry, _, _⟩ := slashTicket_members chain slash
  constructor
  · intro key ticket found owned
    rw [slashTicket_tickets] at found
    split at found
    · simp at found
    · rename_i other
      have before := stakes.sound key ticket found owned
      obtain ⟨utxo, unspent, owner, amount⟩ := before.entry
      refine ⟨before.source, ⟨utxo, ?_, owner, amount⟩, before.positive, ?_, ?_⟩
      · unfold unspentAt at unspent ⊢
        rwa [slashTicket_others chain slash key other]
      · rw [(slashTicket_frame chain slash).1]
        exact before.minimum
      · rw [registry]
        exact before.bound
  · intro key utxo unspent owner
    rcases slashTicket_entry chain slash key with same | ⟨_, _, marked⟩
    · have before : unspentAt chain.utxoSet key = some utxo := by
        unfold unspentAt at unspent ⊢
        rwa [same] at unspent
      obtain ⟨ticket, found⟩ := stakes.complete key utxo before owner
      rw [slashTicket_tickets]
      by_cases burned : key = slash.a.ticketId
      · -- the slashed output would be marked spent
        exfalso
        subst burned
        unfold Chain.slashTicket at unspent
        rw [found, before] at unspent
        dsimp only at unspent
        rw [unspentAt_spent, if_pos rfl] at unspent
        simp at unspent
      · exact ⟨ticket, by rw [if_neg burned, found]⟩
    · obtain ⟨entry, live⟩ := (unspentAt_some _ _ _).mp unspent
      rw [← Option.some.inj (marked.symm.trans entry)] at live
      simp at live

theorem Stakes.slashes (stakes : Stakes P done chain)
    (slashes : List SlashEvidence) : Stakes P done (slashes.foldl Chain.slashTicket chain) := by
  induction slashes generalizing chain with
  | nil => exact stakes
  | cons slash rest ih => exact ih (stakes.slash slash)

/-- The invariant reads the tickets, the outputs, the registry and the
configuration only. -/
theorem Stakes.congr {chain' : Chain} (stakes : Stakes P done chain)
    (cfg : chain'.cfg = chain.cfg) (utxoSet : chain'.utxoSet = chain.utxoSet)
    (tickets : chain'.tickets = chain.tickets)
    (registry : chain'.pubkeyRegistry = chain.pubkeyRegistry) : Stakes P done chain' := by
  constructor
  · intro key ticket found owned
    rw [tickets] at found
    have before := stakes.sound key ticket found owned
    exact ⟨before.source, utxoSet ▸ before.entry, before.positive, cfg ▸ before.minimum,
      registry ▸ before.bound⟩
  · rw [utxoSet, tickets]
    exact stakes.complete

theorem Stakes.commit (stakes : Stakes P done applied)
    (block : Block) (coinbaseTotal fees : UInt64) :
    Stakes P done (committed applied block coinbaseTotal fees) := by
  have charged : Stakes P done { applied with totalFeesLastBlock := fees } :=
    stakes.congr rfl rfl rfl rfl
  exact (charged.slashes block.slashes).congr rfl rfl rfl rfl

/-- In every run tickets with an owner are sound and staked outputs have tickets. -/
theorem Grown.stakes {condition : StepCondition} (grown : Grown P condition cfg chain)
    (injective : Set.InjOn P.sha3 (textsOf P chain.confirmed)) :
    Stakes P chain.confirmed chain := by
  revert injective
  refine grown.carries (fun chain => Set.InjOn P.sha3 (textsOf P chain.confirmed) →
    Stakes P chain.confirmed chain) ?_ ?_
  · intro _
    constructor <;> simp [Chain.new, unspentAt]
  · intro now chain block reached before stakes _ accepted injective
    have earlier := stakes (injective.mono (textsOf_accepted accepted))
    rw [addBlock_confirmed now chain reached block accepted] at injective ⊢
    obtain ⟨_, _, _, _, _, _, applied, went, rfl⟩ := addBlock_ok P now chain block reached accepted
    have entered : Stakes P chain.confirmed (chain.entering block) := earlier.congr rfl rfl rfl rfl
    exact (entered.applyLoop (before.ledger.entering block) _ injective
      (fun tx member text hashed => ⟨tx, member, hashed⟩) went.applied).commit block _ _

/-! ### Runs in which only signed transactions stake -/

/-- No transaction of a block without a signer pays the stake address. -/
def SignedStaking : StepCondition := fun _ _ block =>
  ∀ tx ∈ block.transactions, tx.signer = [] → ∀ output ∈ tx.outputs,
    output.recipient ≠ kStakeAddress

/-- Every ticket has an owner, and the balance of the stake address is exact. -/
structure OwnedStakes (chain : Chain) : Prop where
  owners : ∀ key ticket, chain.tickets.lookup key = some ticket → ticket.owner ≠ []
  balance : AgreesAt kStakeAddress chain.utxoSet chain.addressIndex

theorem OwnedStakes.apply
    (owned : OwnedStakes chain) (stakes : Stakes P done chain) (ledger : Ledger P done chain)
    (texts : Set Bytes) (injective : Set.InjOn P.sha3 texts)
    (inside : ∀ other ∈ done ++ [tx], hashedTexts P other ⊆ texts)
    (signed : tx.signer = [] → ∀ output ∈ tx.outputs, output.recipient ≠ kStakeAddress)
    (step : applyNext P chain tx = (.ok (), reached)) : OwnedStakes reached := by
  obtain ⟨spent, unlocking, created, applied, _⟩ := applyNext_ok P chain tx reached step
  constructor
  · intro key ticket found
    rcases applied.ticket key ticket found with ⟨output, placed, stake, _, rfl⟩ | ⟨before, _⟩
    · exact fun unsigned => signed unsigned output.1 (zipIdx_member placed) stake
    · exact owned.owners key ticket before
  · refine agreesAt_applyNext kStakeAddress chain reached tx owned.balance ?_ step
    -- a staked output under the key would come from a signed transaction with this identifier
    intro key own utxo unspent owner
    obtain ⟨ticket, found⟩ := stakes.complete key utxo unspent owner
    have source := (stakes.sound key ticket found (owned.owners key ticket found)).source
    exact absurd own (source.notCreated ledger texts injective inside step)

/-- The transactions of a block leave every stake its owner. -/
theorem OwnedStakes.applyLoop
    (owned : OwnedStakes chain) (stakes : Stakes P done chain) (ledger : Ledger P done chain)
    (texts : Set Bytes) (injective : Set.InjOn P.sha3 texts)
    (inside : ∀ tx ∈ done ++ transactions, hashedTexts P tx ⊆ texts)
    (signed : ∀ tx ∈ transactions, tx.signer = [] → ∀ output ∈ tx.outputs,
      output.recipient ≠ kStakeAddress)
    (loop : each (applyNext P) chain transactions = (.ok (), applied)) : OwnedStakes applied := by
  induction transactions generalizing done chain with
  | nil =>
    rw [each_nil_ok] at loop
    exact loop ▸ owned
  | cons tx rest ih =>
    obtain ⟨next, step, later⟩ := (each_cons_ok _ _ _ _ _).mp loop
    have within := inside_front inside
    exact ih
      (owned.apply stakes ledger texts injective within (signed tx (by simp)) step)
      (stakes.apply ledger texts injective within step) (ledger.apply step) (by simpa using inside)
      (fun other member => signed other (by simp [member])) later

theorem OwnedStakes.slashes (owned : OwnedStakes chain)
    (slashes : List SlashEvidence) : OwnedStakes (slashes.foldl Chain.slashTicket chain) := by
  induction slashes generalizing chain with
  | nil => exact owned
  | cons slash rest ih =>
    refine ih ⟨?_, agreesAt_slashTicket kStakeAddress chain slash owned.balance⟩
    intro key ticket found
    rw [slashTicket_tickets] at found
    split at found
    · simp at found
    · exact owned.owners key ticket found

theorem Grown.ownedStakes (grown : Grown P SignedStaking cfg chain)
    (injective : Set.InjOn P.sha3 (textsOf P chain.confirmed)) : OwnedStakes chain := by
  revert injective
  refine grown.carries (fun chain => Set.InjOn P.sha3 (textsOf P chain.confirmed) →
    OwnedStakes chain) ?_ ?_
  · intro _
    exact ⟨by simp [Chain.new], rfl⟩
  · intro now chain block reached before owned signed accepted injective
    have earlier := injective.mono (textsOf_accepted accepted)
    have started := owned earlier
    have stakes := before.stakes earlier
    rw [addBlock_confirmed now chain reached block accepted] at injective
    obtain ⟨_, _, _, fees, _, _, applied, went, rfl⟩ :=
      addBlock_ok P now chain block reached accepted
    have entered : OwnedStakes (chain.entering block) := ⟨started.owners, started.balance⟩
    have enteredStakes : Stakes P chain.confirmed (chain.entering block) :=
      stakes.congr rfl rfl rfl rfl
    have after := entered.applyLoop enteredStakes (before.ledger.entering block) _ injective
      (fun tx member text hashed => ⟨tx, member, hashed⟩) signed went.applied
    have charged : OwnedStakes { applied with totalFeesLastBlock := fees } :=
      ⟨after.owners, after.balance⟩
    have burned := charged.slashes block.slashes
    exact ⟨burned.owners, burned.balance⟩

/-- The unchecked sum of ticket amounts is their sum modulo the word size. -/
theorem totalStaked_toNat (chain : Chain) :
    chain.totalStaked.toNat =
      FiniteTables.measure (fun _ ticket => ticket.amount.toNat) chain.tickets % 2 ^ 64 := by
  have folded : ∀ (entries : List (Sigma fun _ : Bytes => StakeTicket)) (start : UInt64),
      (entries.foldl (fun sum entry => sum + entry.2.amount) start).toNat =
        (start.toNat + (entries.map (fun entry => entry.2.amount.toNat)).sum) % 2 ^ 64 := by
    intro entries
    induction entries with
    | nil =>
      intro start
      have bound := start.toNat_lt
      simp only [List.foldl_nil, List.map_nil, List.sum_nil, Nat.add_zero]
      omega
    | cons entry rest ih =>
      intro start
      rw [List.foldl_cons, ih, UInt64.toNat_add, List.map_cons, List.sum_cons]
      omega
  unfold Chain.totalStaked FiniteTables.measure
  rw [folded]
  simp

/-- In every run in which only signed transactions pay the stake address, the
tickets are exactly the unspent staked outputs; each has its output's amount, at
least the minimum, and an owner with a registered key who controls it; and the
staked total is the balance of the stake address. -/
theorem stake_tickets_exact (P : Primitives) (cfg : ChainConfig) (chain : Chain)
    (reachable : ReachableWith P SignedStaking cfg chain)
    (injective : Set.InjOn P.sha3 (textsOf P chain.confirmed)) :
    (∀ key, (∃ ticket, chain.tickets.lookup key = some ticket) ↔
      ∃ utxo, unspentAt chain.utxoSet key = some utxo ∧ utxo.owner = kStakeAddress) ∧
    (∀ key ticket, chain.tickets.lookup key = some ticket →
      ticket.id = key ∧
      (∃ utxo, unspentAt chain.utxoSet key = some utxo ∧ utxo.amount = ticket.amount) ∧
      cfg.stakeMinAmount ≤ ticket.amount ∧ ticket.owner ≠ [] ∧
      (∃ pubkey, chain.pubkeyRegistry.lookup ticket.owner = some pubkey ∧
        signerBindsPubkey P ticket.owner pubkey = .ok ()) ∧
      ∀ input : TxInput, input.key = key → chain.controls ticket.owner input = true) ∧
    chain.totalStaked = chain.balanceOf kStakeAddress := by
  have grown := reachable.grown
  have ledger := grown.ledger
  have stakes := grown.stakes injective
  have ownedStakes := grown.ownedStakes injective
  have sound : ∀ key ticket, chain.tickets.lookup key = some ticket →
      SignedStake P chain.confirmed chain key ticket :=
    fun key ticket found => stakes.sound key ticket found (ownedStakes.owners key ticket found)
  refine ⟨?_, ?_, ?_⟩
  · intro key
    constructor
    · rintro ⟨ticket, found⟩
      obtain ⟨utxo, unspent, owner, _⟩ := (sound key ticket found).entry
      exact ⟨utxo, unspent, owner⟩
    · rintro ⟨utxo, unspent, owner⟩
      exact stakes.complete key utxo unspent owner
  · intro key ticket found
    have stake := sound key ticket found
    obtain ⟨utxo, unspent, owner, amount⟩ := stake.entry
    obtain ⟨pubkey, known⟩ := stake.bound
    refine ⟨(ledger.tickets key ticket found).1, ⟨utxo, unspent, amount⟩,
      grown.idle.2 ▸ stake.minimum, ownedStakes.owners key ticket found,
      ⟨pubkey, known, ledger.registry _ _ known⟩, ?_⟩
    rintro input rfl
    simp [Chain.controls, unspent, owner, found]
  · -- both sides add the same weight under every key
    have same : FiniteTables.measure (fun _ ticket => ticket.amount.toNat) chain.tickets =
        FiniteTables.measure (owned kStakeAddress) chain.utxoSet := by
      refine measure_congr _ _ _ _ fun key => ?_
      cases found : chain.tickets.lookup key with
      | some ticket =>
        obtain ⟨utxo, unspent, owner, amount⟩ := (sound key ticket found).entry
        obtain ⟨entry, live⟩ := (unspentAt_some _ _ _).mp unspent
        rw [weightAt_some _ _ _ ticket found, weightAt_some _ _ _ utxo entry]
        simp [owned, live, owner, amount]
      | none =>
        rw [weightAt_none _ _ _ found]
        refine (weightAt_owned_zero kStakeAddress chain.utxoSet key fun utxo unspent owner => ?_).symm
        obtain ⟨ticket, present⟩ := stakes.complete key utxo unspent owner
        simp [found] at present
    have balance : (chain.balanceOf kStakeAddress).toNat =
        FiniteTables.measure (owned kStakeAddress) chain.utxoSet := ownedStakes.balance
    rw [← UInt64.toNat_inj, totalStaked_toNat, same, ← balance]
    exact Nat.mod_eq_of_lt (UInt64.toNat_lt _)

/-! ### Runs with stakes -/

/-- The regression network with staking from the first block on. -/
def stakingRegtest : ChainConfig :=
  { regtestChainConfig with stakingActivationHeight := 1, stakeMinAmount := 10 }

/-- The key of the staker. -/
def stakerKey : Bytes := [7]

/-- The address of the staker. -/
def stakerAddress : Bytes :=
  hashCommittedAddress signingPrimitives (sigSchemeId .mlDsa87) stakerKey

/-- The signature of the staker on a message. -/
def stakerSignature (message : Bytes) : Bytes :=
  pqPrefix ++ toHex (sampleDigest 4 (stakerKey ++ message)).val

/-- A transaction of the staker with its signature. -/
def stakerSigned (tx : Transaction) : Transaction :=
  { tx with signature := stakerSignature (signedMessage signingPrimitives tx) }

/-- The coinbase that pays the staker. -/
def stakerCoinbase : Transaction := coinbaseOf [⟨stakerAddress, 50⟩] 0

/-- The staker locks forty coins. -/
def stakeLock : Transaction := stakerSigned
  ⟨[⟨hashTransaction signingPrimitives stakerCoinbase, 0, []⟩],
    [⟨kStakeAddress, 40⟩, ⟨stakerAddress, 10⟩], stakerAddress, toHex stakerKey, [], 0, 1, []⟩

/-- The block that pays the staker. -/
def stakerFirst : Block :=
  blockOn signingPrimitives (Chain.new signingPrimitives stakingRegtest) [stakerCoinbase]

/-- The state after the coinbase to the staker. -/
def stakerTip : Chain :=
  stateAfter signingPrimitives (Chain.new signingPrimitives stakingRegtest) stakerFirst

/-- The block of the stake. -/
def stakerSecond : Block :=
  blockOn signingPrimitives stakerTip [coinbaseOf [⟨ascii "miner", 50⟩] 1, stakeLock]

/-- The state after the lock. -/
def stakeLocked : Chain := stateAfter signingPrimitives stakerTip stakerSecond

/-- Both blocks of the staker, evaluated together: the first state is evaluated once. -/
theorem staker_evaluated :
    (addBlock signingPrimitives epoch (Chain.new signingPrimitives stakingRegtest)
      stakerFirst).1.isOk = true ∧
    (addBlock signingPrimitives epoch stakerTip stakerSecond).1.isOk = true := by
  decide +kernel

theorem stakerFirst_accepted :
    addBlock signingPrimitives epoch (Chain.new signingPrimitives stakingRegtest) stakerFirst =
      (.ok (), stakerTip) :=
  stateAfter_accepted staker_evaluated.1

theorem stakerSecond_accepted :
    addBlock signingPrimitives epoch stakerTip stakerSecond = (.ok (), stakeLocked) :=
  stateAfter_accepted staker_evaluated.2

/-- The signed lock is a job of the batch, and passes the full validation, its signature
included, after the coinbase of its block. -/
theorem stakeLock_passes :
    hasJob stakeLock = true ∧
      ∃ middle, each (applyNext signingPrimitives) (stakerTip.entering stakerSecond)
          [coinbaseOf [⟨ascii "miner", 50⟩] 1] = (.ok (), middle) ∧
        validateTransaction signingPrimitives middle stakeLock true = .ok () :=
  ⟨by decide +kernel, batch_agrees_with_sequential signingPrimitives epoch stakerTip stakerSecond
    stakeLocked stakerSecond_accepted [coinbaseOf [⟨ascii "miner", 50⟩] 1] [] stakeLock rfl (by simp)⟩

theorem stakerTip_confirmed : stakerTip.confirmed = [stakerCoinbase] := by
  rw [addBlock_confirmed epoch _ _ _ stakerFirst_accepted]
  rfl

theorem stakeLocked_confirmed :
    stakeLocked.confirmed = [stakerCoinbase, coinbaseOf [⟨ascii "miner", 50⟩] 1, stakeLock] := by
  rw [addBlock_confirmed epoch _ _ _ stakerSecond_accepted, stakerTip_confirmed]
  rfl

theorem stakeLocked_signed :
    ReachableWith signingPrimitives SignedStaking stakingRegtest stakeLocked := by
  have first : ReachableWith signingPrimitives SignedStaking stakingRegtest stakerTip :=
    ReachableWith.new.step epoch stakerFirst stakerTip
      (by unfold SignedStaking; decide +kernel) stakerFirst_accepted
  exact first.step epoch stakerSecond stakeLocked
    (by unfold SignedStaking; decide +kernel) stakerSecond_accepted

/-- After a signed lock the ticket has its owner and the staked total is exact. -/
theorem stakeLocked_exact :
    (∀ key ticket, stakeLocked.tickets.lookup key = some ticket → ticket.owner ≠ []) ∧
      stakeLocked.totalStaked = stakeLocked.balanceOf kStakeAddress := by
  have exactly := stake_tickets_exact signingPrimitives stakingRegtest stakeLocked
    stakeLocked_signed (by
      rw [stakeLocked_confirmed]
      exact injOn_bare _ _ (by decide +kernel) (by decide +kernel))
  exact ⟨fun key ticket found => (exactly.2.1 key ticket found).2.2.2.1, exactly.2.2⟩

/-- A spend by a script that pays the stake address. -/
def scriptStake : Transaction :=
  ⟨[⟨hashTransaction samplePrimitives scriptCoinbase, 0, ascii "after(0);0;0;"⟩],
    [⟨kStakeAddress, 49⟩], [], [], [], 1, 0, []⟩

/-- The block that pays the script. -/
def ownerlessFirst : Block :=
  blockOn samplePrimitives (Chain.new samplePrimitives stakingRegtest) [scriptCoinbase]

/-- The state after it. -/
def ownerlessTip : Chain :=
  stateAfter samplePrimitives (Chain.new samplePrimitives stakingRegtest) ownerlessFirst

/-- The block in which the script locks a stake. -/
def ownerlessSecond : Block :=
  blockOn samplePrimitives ownerlessTip [coinbaseOf [⟨ascii "miner", 50⟩] 1, scriptStake]

/-- The state after a script paid the stake address. -/
def ownerlessStaked : Chain := stateAfter samplePrimitives ownerlessTip ownerlessSecond

set_option maxRecDepth 100000 in
/-- Both blocks, evaluated together: the first state is evaluated once. -/
theorem ownerless_evaluated :
    (addBlock samplePrimitives epoch (Chain.new samplePrimitives stakingRegtest)
      ownerlessFirst).1.isOk = true ∧
    (addBlock samplePrimitives epoch ownerlessTip ownerlessSecond).1.isOk = true ∧
    (ownerlessStaked.tickets.lookup
      (outpointKey (hashTransaction samplePrimitives scriptStake) 0)).map StakeTicket.owner =
        some [] := by
  decide +kernel

theorem ownerlessFirst_accepted :
    addBlock samplePrimitives epoch (Chain.new samplePrimitives stakingRegtest) ownerlessFirst =
      (.ok (), ownerlessTip) :=
  stateAfter_accepted ownerless_evaluated.1

theorem ownerlessSecond_accepted :
    addBlock samplePrimitives epoch ownerlessTip ownerlessSecond = (.ok (), ownerlessStaked) :=
  stateAfter_accepted ownerless_evaluated.2.1

theorem ownerlessStaked_confirmed : ownerlessStaked.confirmed =
    [scriptCoinbase, coinbaseOf [⟨ascii "miner", 50⟩] 1, scriptStake] := by
  rw [addBlock_confirmed epoch _ _ _ ownerlessSecond_accepted,
    addBlock_confirmed epoch _ _ _ ownerlessFirst_accepted]
  rfl

set_option maxRecDepth 100000 in
/-- A script without a signer may stake, and its ticket has no owner. -/
theorem ownerless_ticket :
    ¬ ∀ (P : Primitives) (cfg : ChainConfig) (chain : Chain), Reachable P cfg chain →
      Set.InjOn P.sha3 (textsOf P chain.confirmed) →
      ∀ key ticket, chain.tickets.lookup key = some ticket → ticket.owner ≠ [] := by
  intro owners
  have reachable : Reachable samplePrimitives stakingRegtest ownerlessStaked :=
    ((Reachable.start samplePrimitives stakingRegtest).step epoch ownerlessFirst ownerlessTip
      ownerlessFirst_accepted).step epoch ownerlessSecond ownerlessStaked ownerlessSecond_accepted
  have injective : Set.InjOn samplePrimitives.sha3
      (textsOf samplePrimitives ownerlessStaked.confirmed) := by
    rw [ownerlessStaked_confirmed]
    exact injOn_bare _ _ (by decide +kernel) (by decide +kernel)
  obtain ⟨ticket, found, unowned⟩ := Option.map_eq_some_iff.mp ownerless_evaluated.2.2
  exact owners samplePrimitives stakingRegtest ownerlessStaked reachable injective _ ticket found
    unowned

end Addition
