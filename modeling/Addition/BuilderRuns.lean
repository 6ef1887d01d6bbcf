import Addition.Builders
import Addition.Relay
import Addition.Tickets

/-!
# Builders and validation in every run

Validation agrees with the builders while every ticket stands beside the staked
output that opened it. Application writes an output over whatever its key holds,
and it closes no ticket there, so the agreement is lost when an output to another
address is written over a live ticket. Such a key repeats only when a transaction
has the text of an earlier one.
-/

namespace Addition

open ByteStrings Checked FiniteTables
open Store (Failure)

variable (P : Primitives)

/-! ### Keys that fit an input -/

/-- Every entry has a key that an input can name. -/
def NarrowKeys (utxoSet : Table Bytes Utxo) : Prop :=
  ∀ key utxo, utxoSet.lookup key = some utxo → NarrowKey key

variable {P}

theorem narrowKeys_applyNext (chain reached : Chain) (tx : Transaction)
    (narrow : NarrowKeys chain.utxoSet) (few : tx.outputs.length < 2 ^ 32)
    (step : applyNext P chain tx = (.ok (), reached)) : NarrowKeys reached.utxoSet := by
  obtain ⟨spent, unlocking, created, applied, _⟩ := applyNext_ok P chain tx reached step
  intro key utxo found
  by_cases own : ∃ placed ∈ tx.outputs.zipIdx, key = outpointKey (hashTransaction P tx) placed.2
  · obtain ⟨placed, listed, same⟩ := own
    have place : placed.2 < tx.outputs.length := (List.mem_zipIdx' listed).1
    exact ⟨hashTransaction P tx, placed.2, place.trans few, same⟩
  · rw [applied.utxoSet.1, applied.outputs.others key
      (fun placed listed same => own ⟨placed, listed, same⟩)] at found
    by_cases spends : key ∈ tx.inputs.map TxInput.key
    · obtain ⟨input, member, rfl⟩ := List.mem_map.mp spends
      obtain ⟨before, unspent, _⟩ := applied.inputs.present input member
      exact narrow input.key before ((unspentAt_some _ _ _).mp unspent).1
    · rw [applied.inputs.others key spends] at found
      exact narrow key utxo found

theorem narrowKeys_slashes (slashes : List SlashEvidence) (chain : Chain)
    (narrow : NarrowKeys chain.utxoSet) :
    NarrowKeys (slashes.foldl Chain.slashTicket chain).utxoSet := by
  induction slashes generalizing chain with
  | nil => exact narrow
  | cons slash rest ih =>
    apply ih
    intro key utxo found
    rcases slashTicket_entry chain slash key with same | ⟨before, unspent, _⟩
    · exact narrow key utxo (same ▸ found)
    · exact narrow key before ((unspentAt_some _ _ _).mp unspent).1

variable {cfg : ChainConfig} {chain : Chain} {tx : Transaction} {unlocking : Bool}

/-- The weight of a block bounds the positions of its outputs. -/
theorem Grown.narrowKeys {condition : StepCondition}
    (grown : Grown P condition cfg chain) (cap : cfg.maxBlockWeight.toNat < 2 ^ 32) :
    NarrowKeys chain.utxoSet := by
  refine grown.carries (fun chain => NarrowKeys chain.utxoSet) ?_ ?_
  · intro key utxo found
    simp [Chain.new] at found
  · intro now chain block reached before narrow _ accepted
    obtain ⟨_, _, _, fees, _, _, applied, went, rfl⟩ :=
      addBlock_ok P now chain block reached accepted
    have weight := went.valid.weight
    rw [before.idle.2] at weight
    have within := txs_within block _ weight
    have after := each_induct (applyNext P) (fun state rest => NarrowKeys state.utxoSet ∧
      ∀ tx ∈ rest, tx.outputs.length < 2 ^ 32) (by
        rintro state tx rest next ⟨holds, few⟩ step
        obtain ⟨first, later⟩ := List.forall_mem_cons.mp few
        exact ⟨narrowKeys_applyNext state next tx holds first step, later⟩) block.transactions
      (chain.entering block) applied
      ⟨narrow, fun tx member => (within tx member).outputs.trans_lt cap⟩ went.applied
    exact narrowKeys_slashes block.slashes { applied with totalFeesLastBlock := fees } after.1

/-! ### Tickets that stay beside their outputs -/

/-- Whether a key holds a live ticket. -/
def Chain.ticketed (chain : Chain) (key : Bytes) : Prop :=
  ∃ ticket, chain.tickets.lookup key = some ticket

variable (P)

/-- The keys that hold a live ticket once a transaction is applied. -/
def ticketedAfter (tx : Transaction) (ticketed : Bytes → Prop) (key : Bytes) : Prop :=
  (∃ placed ∈ tx.outputs.zipIdx, placed.1.recipient = kStakeAddress ∧
    key = outpointKey (hashTransaction P tx) placed.2) ∨
  (ticketed key ∧ key ∉ tx.inputs.map TxInput.key)

/-- No transaction of a list writes an output to another address than that of the stakes
under a key with a live ticket, once the tickets that it spends itself are closed. -/
def TicketsUncovered : (Bytes → Prop) → List Transaction → Prop
  | _, [] => True
  | ticketed, tx :: rest =>
    (∀ placed ∈ tx.outputs.zipIdx, placed.1.recipient ≠ kStakeAddress →
      ticketed (outpointKey (hashTransaction P tx) placed.2) →
        outpointKey (hashTransaction P tx) placed.2 ∈ tx.inputs.map TxInput.key) ∧
      TicketsUncovered (ticketedAfter P tx ticketed) rest

variable {P}

variable {created reached spent : Chain}

theorem AppliedTransaction.ticketed
    (applied : AppliedTransaction P chain tx spent unlocking created reached) :
    reached.ticketed = ticketedAfter P tx chain.ticketed := by
  funext key
  rw [eq_iff_iff]
  constructor
  · rintro ⟨ticket, found⟩
    rcases applied.ticket key ticket found with ⟨placed, listed, stake, same, _⟩ | ⟨before, kept⟩
    · exact .inl ⟨placed, listed, stake, same⟩
    · exact .inr ⟨⟨ticket, before⟩, kept⟩
  · intro after
    rw [Chain.ticketed, applied.tickets]
    by_cases own : ∃ placed ∈ tx.outputs.zipIdx, placed.1.recipient = kStakeAddress ∧
        key = outpointKey (hashTransaction P tx) placed.2
    · obtain ⟨placed, listed, stake, rfl⟩ := own
      exact ⟨_, applied.outputs.stakes placed listed stake⟩
    · obtain ⟨⟨ticket, before⟩, kept⟩ := after.resolve_left own
      refine ⟨ticket, ?_⟩
      rw [applied.outputs.otherTickets key
        (fun placed listed stake same => own ⟨placed, listed, stake, same⟩),
        applied.inputs.tickets key, if_neg kept, before]

/-- A transaction that pays the stake address unlocks no ticket. -/
theorem AppliedTransaction.locks
    (applied : AppliedTransaction P chain tx spent unlocking created reached)
    (output : TxOutput) (listed : output ∈ tx.outputs) (stake : output.recipient = kStakeAddress) :
    unlocking = false := by
  rw [applied.unlocks]
  obtain ⟨_, coinbase | ⟨_, shielded⟩ | ⟨_, spend⟩⟩ :=
    validateTransaction_forms P chain tx applied.valid
  · exact absurd stake (coinbase.noStake output listed)
  · simp [Chain.spendsTicket, shielded.noInputs]
  · exact (checkStakeOutput_ok chain _ output stake (spend.stake output listed)).1

/-- An applied transaction that writes over no ticket keeps the tickets backed. -/
theorem StakesBacked.apply (backed : StakesBacked chain)
    (uncovered : ∀ placed ∈ tx.outputs.zipIdx, placed.1.recipient ≠ kStakeAddress →
      chain.ticketed (outpointKey (hashTransaction P tx) placed.2) →
        outpointKey (hashTransaction P tx) placed.2 ∈ tx.inputs.map TxInput.key)
    (step : applyNext P chain tx = (.ok (), reached)) : StakesBacked reached := by
  obtain ⟨spent, unlocking, created, applied, _⟩ := applyNext_ok P chain tx reached step
  constructor
  · intro key ticket found
    rcases applied.ticket key ticket found with ⟨placed, listed, stake, rfl, rfl⟩ | ⟨before, kept⟩
    · refine ⟨newUtxo spent unlocking placed.1, ?_, stake, rfl⟩
      rw [unspentAt_some, applied.utxoSet.1]
      exact ⟨applied.outputs.entries placed listed, rfl⟩
    · by_cases own : ∃ placed ∈ tx.outputs.zipIdx,
          key = outpointKey (hashTransaction P tx) placed.2
      · obtain ⟨placed, listed, rfl⟩ := own
        by_cases stake : placed.1.recipient = kStakeAddress
        · -- the ticket is the one that this output opened
          have opened := applied.outputs.stakes placed listed stake
          rw [applied.tickets, opened] at found
          obtain rfl := Option.some.inj found
          refine ⟨newUtxo spent unlocking placed.1, ?_, stake, rfl⟩
          rw [unspentAt_some, applied.utxoSet.1]
          exact ⟨applied.outputs.entries placed listed, rfl⟩
        · exact absurd (uncovered placed listed stake ⟨ticket, before⟩) kept
      · obtain ⟨utxo, unspent, owner, amount⟩ := backed.entry key ticket before
        have notCreated : key ∉ createdKeys P tx := by
          intro made
          obtain ⟨placed, listed, same⟩ := List.mem_map.mp made
          exact own ⟨placed, listed, same.symm⟩
        refine ⟨utxo, ?_, owner, amount⟩
        rw [unspentAt, applied.untouched key notCreated kept]
        exact unspent
  · intro key utxo found owner
    rw [applied.utxoSet.1] at found
    by_cases own : ∃ placed ∈ tx.outputs.zipIdx, key = outpointKey (hashTransaction P tx) placed.2
    · obtain ⟨placed, listed, rfl⟩ := own
      rw [applied.outputs.entries placed listed] at found
      obtain rfl := Option.some.inj found
      have locks := applied.locks placed.1 (zipIdx_member listed) owner
      simp [newUtxo, locks]
    · rw [applied.outputs.others key
        (fun placed listed same => own ⟨placed, listed, same⟩)] at found
      by_cases spends : key ∈ tx.inputs.map TxInput.key
      · obtain ⟨input, member, rfl⟩ := List.mem_map.mp spends
        obtain ⟨before, unspent, marked⟩ := applied.inputs.present input member
        obtain rfl := Option.some.inj (marked.symm.trans found)
        exact backed.mature input.key before ((unspentAt_some _ _ _).mp unspent).1 owner
      · rw [applied.inputs.others key spends] at found
        exact backed.mature key utxo found owner

theorem StakesBacked.slash (backed : StakesBacked chain) (slash : SlashEvidence) :
    StakesBacked (chain.slashTicket slash) := by
  constructor
  · intro key ticket found
    rw [slashTicket_tickets] at found
    split at found
    · simp at found
    · rename_i other
      obtain ⟨utxo, unspent, owner, amount⟩ := backed.entry key ticket found
      refine ⟨utxo, ?_, owner, amount⟩
      rw [unspentAt, slashTicket_others chain slash key other]
      exact unspent
  · intro key utxo found owner
    rcases slashTicket_entry chain slash key with same | ⟨before, unspent, marked⟩
    · exact backed.mature key utxo (same ▸ found) owner
    · obtain rfl := Option.some.inj (marked.symm.trans found)
      exact backed.mature key before ((unspentAt_some _ _ _).mp unspent).1 owner

theorem StakesBacked.slashes (backed : StakesBacked chain)
    (slashes : List SlashEvidence) : StakesBacked (slashes.foldl Chain.slashTicket chain) := by
  induction slashes generalizing chain with
  | nil => exact backed
  | cons slash rest ih => exact ih (backed.slash slash)

/-- Runs that write over no live ticket. -/
def UncoveredStaking (P : Primitives) : StepCondition := fun _ chain block =>
  TicketsUncovered P chain.ticketed block.transactions

/-- In every run that writes over no live ticket the tickets are backed. -/
theorem Grown.stakesBacked
    (grown : Grown P (UncoveredStaking P) cfg chain) : StakesBacked chain := by
  refine grown.carries StakesBacked ?_ ?_
  · constructor <;> simp [Chain.new]
  · intro now chain block reached _ backed uncovered accepted
    obtain ⟨_, _, _, fees, _, _, applied, went, rfl⟩ :=
      addBlock_ok P now chain block reached accepted
    have after := each_induct (applyNext P) (fun state rest => StakesBacked state ∧
      TicketsUncovered P state.ticketed rest) (by
        rintro state tx rest next ⟨holds, first, later⟩ step
        obtain ⟨_, _, _, applied, _⟩ := applyNext_ok P state tx next step
        exact ⟨holds.apply first step, applied.ticketed ▸ later⟩) block.transactions
      (chain.entering block) applied ⟨⟨backed.entry, backed.mature⟩, uncovered⟩ went.applied
    have charged : StakesBacked { applied with totalFeesLastBlock := fees } :=
      ⟨after.1.entry, after.1.mature⟩
    have burned := charged.slashes block.slashes
    exact ⟨burned.entry, burned.mature⟩

/-! ### The builders in every run -/

/-- Validation agrees with the three builders: what they build for an account with a
bound key is funded, and it passes once that account has completed it. -/
structure BuildersAgree (P : Primitives) (chain : Chain) (pending : Bytes → Bool)
    (order : List (Bytes × Utxo)) (sender pubkey : Bytes) : Prop where
  payment : ∀ recipient amount fee nonce tx, recipient ≠ kStakeAddress →
    buildTransaction chain pending order sender recipient amount fee nonce = .ok tx →
    Agrees P chain sender pubkey tx
  lock : ∀ amount fee nonce tx,
    buildStakeLock chain pending order sender amount fee nonce = .ok tx →
    Agrees P chain sender pubkey tx
  unlock : ∀ ticketId ticket fee nonce tx, chain.tickets.lookup ticketId = some ticket →
    ticket.owner = sender → buildStakeUnlock chain ticketId fee nonce = .ok tx →
    Agrees P chain sender pubkey tx

/-- In every run that writes over no live ticket, validation agrees with the builders, in
every order of the table and under every view of the pending pool. -/
theorem builders_agree (P : Primitives) (cfg : ChainConfig)
    (cap : cfg.maxBlockWeight.toNat < 2 ^ 32) (chain : Chain)
    (reachable : ReachableWith P (UncoveredStaking P) cfg chain) (pending : Bytes → Bool)
    (order : List (Bytes × Utxo)) (lists : Lists order chain.utxoSet) (sender pubkey : Bytes)
    (bound : signerBindsPubkey P sender pubkey = .ok ()) :
    BuildersAgree P chain pending order sender pubkey := by
  have grown := reachable.grown
  have idle := grown.idle.1
  have narrow := grown.narrowKeys cap
  have covers := grown.coversAt sender
  constructor
  · intro recipient amount fee nonce tx plain built
    exact buildTransaction_agrees idle lists narrow covers bound plain built
  · intro amount fee nonce tx built
    exact buildStakeLock_agrees idle lists narrow grown.stakesBacked covers bound built
  · rintro ticketId ticket fee nonce tx live rfl built
    exact buildStakeUnlock_agrees idle narrow grown.stakesBacked live bound built

/-! ### Runs of a staker -/

set_option maxRecDepth 100000 in
theorem stakerTip_ticketless (key : Bytes) : ¬ stakerTip.ticketed key := by
  rintro ⟨ticket, found⟩
  have empty : stakerTip.tickets = ∅ := by rfl
  rw [empty] at found
  simp at found

/-- The staker's run writes over no ticket. -/
theorem stakeLocked_uncovered :
    ReachableWith signingPrimitives (UncoveredStaking signingPrimitives) stakingRegtest
      stakeLocked := by
  have first : ReachableWith signingPrimitives (UncoveredStaking signingPrimitives) stakingRegtest
      stakerTip := by
    refine ReachableWith.new.step epoch stakerFirst stakerTip ⟨?_, trivial⟩ stakerFirst_accepted
    rintro placed _ _ ⟨ticket, found⟩
    simp [Chain.new] at found
  refine first.step epoch stakerSecond stakeLocked ⟨?_, ?_, trivial⟩ stakerSecond_accepted
  · intro placed _ _ held
    exact absurd held (stakerTip_ticketless _)
  · intro placed _ _ held
    rcases held with ⟨mined, listed, stake, _⟩ | ⟨before, _⟩
    · have paid : mined.1 ∈ [⟨ascii "miner", 50⟩] := zipIdx_member listed
      rw [List.mem_singleton.mp paid] at stake
      exact absurd stake (by decide)
    · exact absurd before (stakerTip_ticketless _)

set_option maxRecDepth 100000 in
/-- After its lock, validation agrees with what the builders make for the staker, and
the unlock of its ticket is one of these. -/
theorem stakeLocked_builders_agree :
    BuildersAgree signingPrimitives stakeLocked (fun _ => false)
        (stakeLocked.utxoSet.entries.map (fun entry => (entry.1, entry.2))) stakerAddress
        (toHex stakerKey) ∧
      ∃ tx, buildStakeUnlock stakeLocked
          (outpointKey (hashTransaction signingPrimitives stakeLock) 0) 1 2 = .ok tx ∧
        Agrees signingPrimitives stakeLocked stakerAddress (toHex stakerKey) tx := by
  have bound : signerBindsPubkey signingPrimitives stakerAddress (toHex stakerKey) = .ok () := by
    rfl
  have agree := builders_agree signingPrimitives stakingRegtest (by decide) stakeLocked
    stakeLocked_uncovered (fun _ => false) _ (lists_entries _) stakerAddress (toHex stakerKey) bound
  refine ⟨agree, ?_⟩
  obtain ⟨ticket, live, owner⟩ : ∃ ticket, stakeLocked.tickets.lookup
      (outpointKey (hashTransaction signingPrimitives stakeLock) 0) = some ticket ∧
        ticket.owner = stakerAddress := ⟨_, rfl, rfl⟩
  have built : ∃ tx, buildStakeUnlock stakeLocked
      (outpointKey (hashTransaction signingPrimitives stakeLock) 0) 1 2 = .ok tx := ⟨_, rfl⟩
  obtain ⟨tx, unlocks⟩ := built
  exact ⟨tx, unlocks, agree.unlock _ ticket 1 2 tx live owner unlocks⟩

/-! ### A ticket that was written over -/

/-- A spend by a script of the coinbase to it. -/
def scriptPayment (outputs : List TxOutput) : Transaction :=
  ⟨[⟨hashTransaction signingPrimitives scriptCoinbase, 0, ascii "after(0);0;0;"⟩], outputs,
    [], [], [], 1, 0, []⟩

/-- Two payments of one text: the first name of one is two outputs of the other. -/
def coveringStake : Transaction :=
  scriptPayment [⟨ascii "x:5;" ++ stakerAddress, 15⟩, ⟨kStakeAddress, 20⟩]

/-- The payment that spends the stake of the example. -/
def coveringPayment : Transaction :=
  scriptPayment [⟨ascii "x", 5⟩, ⟨stakerAddress, 15⟩, ⟨kStakeAddress, 20⟩]

/-- The block that pays the script. -/
def coveredFirst : Block :=
  blockOn signingPrimitives (Chain.new signingPrimitives stakingRegtest)
    [scriptCoinbase, coveringStake]

/-- The state in which the ticket stands beside its output. -/
def coveredTip : Chain :=
  stateAfter signingPrimitives (Chain.new signingPrimitives stakingRegtest) coveredFirst

/-- The block of the covering payment. -/
def coveredSecond : Block :=
  blockOn signingPrimitives coveredTip [scriptCoinbase, coveringPayment]

/-- The state in which an output of the staker stands in its place. -/
def coveredOver : Chain := stateAfter signingPrimitives coveredTip coveredSecond

/-- The lock that the builder makes of that output. -/
def coveredLock : Transaction :=
  unsignedTransaction [⟨hashTransaction signingPrimitives coveringPayment, 1, []⟩]
    [⟨kStakeAddress, 10⟩, ⟨stakerAddress, 4⟩] 1 1

/-- The signature of the staker that completes it. -/
def lockSignature : Bytes :=
  stakerSignature (signedMessage signingPrimitives
    (completed coveredLock stakerAddress (toHex stakerKey) []))

/-- The blocks and the lock, evaluated together: the states are evaluated once. -/
theorem covered_evaluated :
    (addBlock signingPrimitives epoch (Chain.new signingPrimitives stakingRegtest)
      coveredFirst).1.isOk = true ∧
    (addBlock signingPrimitives epoch coveredTip coveredSecond).1.isOk = true ∧
    buildStakeLock coveredOver (fun _ => false)
      (coveredOver.utxoSet.entries.map (fun entry => (entry.1, entry.2))) stakerAddress 10 1 1 =
        .ok coveredLock ∧
    verifyMessageSignatureHybridUncached signingPrimitives (toHex stakerKey)
      (signedMessage signingPrimitives
        (completed coveredLock stakerAddress (toHex stakerKey) lockSignature)) lockSignature =
          true ∧
    validateTransaction signingPrimitives coveredOver
      (completed coveredLock stakerAddress (toHex stakerKey) lockSignature) true =
        .error "stake unlock cannot create new stake" ∧
    coveredOver.signerLastNonce.lookup stakerAddress = none := by
  decide +kernel

theorem coveredFirst_accepted :
    addBlock signingPrimitives epoch (Chain.new signingPrimitives stakingRegtest) coveredFirst =
      (.ok (), coveredTip) :=
  stateAfter_accepted covered_evaluated.1

theorem coveredSecond_accepted :
    addBlock signingPrimitives epoch coveredTip coveredSecond = (.ok (), coveredOver) :=
  stateAfter_accepted covered_evaluated.2.1

theorem coveredOver_confirmed : coveredOver.confirmed =
    [scriptCoinbase, coveringStake, scriptCoinbase, coveringPayment] := by
  rw [addBlock_confirmed epoch _ _ _ coveredSecond_accepted,
    addBlock_confirmed epoch _ _ _ coveredFirst_accepted]
  rfl

theorem coveredLock_built :
    buildStakeLock coveredOver (fun _ => false)
      (coveredOver.utxoSet.entries.map (fun entry => (entry.1, entry.2))) stakerAddress 10 1 1 =
        .ok coveredLock :=
  covered_evaluated.2.2.1

theorem lockSignature_verifies :
    verifyMessageSignatureHybridUncached signingPrimitives (toHex stakerKey)
      (signedMessage signingPrimitives
        (completed coveredLock stakerAddress (toHex stakerKey) lockSignature)) lockSignature =
          true :=
  covered_evaluated.2.2.2.1

theorem coveredLock_refused :
    validateTransaction signingPrimitives coveredOver
      (completed coveredLock stakerAddress (toHex stakerKey) lockSignature) true =
        .error "stake unlock cannot create new stake" :=
  covered_evaluated.2.2.2.2.1

set_option maxRecDepth 100000 in
/-- Validation refuses a built lock whose input lies under a ticket of another. -/
theorem built_lock_refused :
    ¬ ∀ (P : Primitives) (cfg : ChainConfig), cfg.maxBlockWeight.toNat < 2 ^ 32 →
      ∀ chain, Reachable P cfg chain → Set.InjOn P.sha3 (textsOf P chain.confirmed) →
      ∀ (pending : Bytes → Bool) (order : List (Bytes × Utxo)), Lists order chain.utxoSet →
      ∀ sender pubkey, signerBindsPubkey P sender pubkey = .ok () →
      BuildersAgree P chain pending order sender pubkey := by
  intro agree
  have reachable : Reachable signingPrimitives stakingRegtest coveredOver :=
    ((Reachable.start signingPrimitives stakingRegtest).step epoch coveredFirst coveredTip
      coveredFirst_accepted).step epoch coveredSecond coveredOver coveredSecond_accepted
  have injective : Set.InjOn signingPrimitives.sha3
      (textsOf signingPrimitives coveredOver.confirmed) := by
    rw [coveredOver_confirmed]
    exact injOn_bare _ _ (by decide +kernel) (by decide +kernel)
  have unused : coveredOver.signerLastNonce.lookup stakerAddress = none := covered_evaluated.2.2.2.2.2
  have builders := agree signingPrimitives stakingRegtest (by decide) coveredOver reachable
    injective (fun _ => false) _ (lists_entries _) stakerAddress (toHex stakerKey) rfl
  have passes := (builders.lock 10 1 1 coveredLock coveredLock_built).passes lockSignature
    lockSignature_verifies (by decide +kernel) (by simp [unused])
  rw [coveredLock_refused] at passes
  simp at passes

end Addition
