import Addition.Tickets
import Mathlib.Algebra.Order.BigOperators.Group.List

/-!
# Slashing

Evidence is checked against the state before the block and executed after the
block's transactions. A slashed ticket has an owner, because evidence carries
signatures under its key, so its outpoint was written by a signed spend and is
not written again. What becomes of it depends on one thing: whether a transaction
of the same block unlocks it first. If none does, the output is burned and its
amount counted; if one does, nothing is left to burn.
-/

namespace Addition

open ByteStrings Checked FiniteTables

variable {P : Primitives}

/-! ### Outpoints of signed spends -/

variable {chain reached : Chain} {tx : Transaction} {done : List Transaction} {key : Bytes}
  {transactions : List Transaction} {cfg : ChainConfig} {condition : StepCondition}

/-- What an applied transaction does to the ticket under a key of a signed spend. -/
theorem AppliedTransaction.signedTicket {spent created : Chain}
    {unlocking : Bool} (applied : AppliedTransaction P chain tx spent unlocking created reached)
    (key : Bytes) (notCreated : key ∉ createdKeys P tx) :
    reached.tickets.lookup key =
      if key ∈ tx.inputs.map TxInput.key then none else chain.tickets.lookup key := by
  rw [applied.tickets, applied.outputs.otherTickets key
    (fun placed inside _ same => notCreated (List.mem_map.mpr ⟨placed, inside, same.symm⟩)),
    applied.inputs.tickets key]

/-- A key without a ticket and without an unspent output. -/
structure Gone (chain : Chain) (key : Bytes) : Prop where
  ticket : chain.tickets.lookup key = none
  output : ¬ chain.holds key

variable {applied : Chain}

/-- Transactions that do not spend a key of a signed spend leave it alone. -/
theorem SignedKey.untouched (signed : SignedKey P done key) (ledger : Ledger P done chain)
    (texts : Set Bytes) (injective : Set.InjOn P.sha3 texts)
    (inside : ∀ tx ∈ done ++ transactions, hashedTexts P tx ⊆ texts)
    (kept : ∀ tx ∈ transactions, key ∉ tx.inputs.map TxInput.key)
    (loop : each (applyNext P) chain transactions = (.ok (), applied)) :
    applied.utxoSet.lookup key = chain.utxoSet.lookup key ∧
      applied.tickets.lookup key = chain.tickets.lookup key := by
  induction transactions generalizing done chain with
  | nil =>
    rw [each_nil_ok] at loop
    exact loop ▸ ⟨rfl, rfl⟩
  | cons tx rest ih =>
    obtain ⟨next, step, later⟩ := (each_cons_ok _ _ _ _ _).mp loop
    obtain ⟨_, _, _, parts, _⟩ := applyNext_ok P chain tx next step
    have notCreated := signed.notCreated ledger texts injective (inside_front inside) step
    have notSpent := kept tx (by simp)
    obtain ⟨entry, ticket⟩ := ih (signed.mono [tx]) (ledger.apply step)
      (by simpa using inside) (fun other member => kept other (by simp [member])) later
    refine ⟨entry.trans (parts.untouched key notCreated notSpent), ?_⟩
    rw [ticket, parts.signedTicket key notCreated, if_neg notSpent]

/-- A key of a signed spend that is gone stays gone, and no transaction spends it. -/
theorem SignedKey.stays_gone (signed : SignedKey P done key) (gone : Gone chain key)
    (ledger : Ledger P done chain) (texts : Set Bytes) (injective : Set.InjOn P.sha3 texts)
    (inside : ∀ tx ∈ done ++ transactions, hashedTexts P tx ⊆ texts)
    (loop : each (applyNext P) chain transactions = (.ok (), applied)) :
    Gone applied key ∧ ∀ tx ∈ transactions, key ∉ tx.inputs.map TxInput.key := by
  induction transactions generalizing done chain with
  | nil =>
    rw [each_nil_ok] at loop
    exact loop ▸ ⟨gone, by simp⟩
  | cons tx rest ih =>
    obtain ⟨next, step, later⟩ := (each_cons_ok _ _ _ _ _).mp loop
    obtain ⟨_, _, _, parts, _⟩ := applyNext_ok P chain tx next step
    have notCreated := signed.notCreated ledger texts injective (inside_front inside) step
    have notSpent : key ∉ tx.inputs.map TxInput.key := by
      intro spends
      obtain ⟨input, listed, rfl⟩ := List.mem_map.mp spends
      obtain ⟨utxo, unspent, _⟩ := parts.inputs.present input listed
      exact gone.output (by simp [Chain.holds, unspent])
    have still : Gone next key := by
      constructor
      · rw [parts.signedTicket key notCreated, if_neg notSpent, gone.ticket]
      · intro held
        rcases (parts.holds key).mp held with own | ⟨before, _⟩
        · exact notCreated own
        · exact gone.output before
    obtain ⟨after, others⟩ := ih (signed.mono [tx]) still (ledger.apply step)
      (by simpa using inside) later
    refine ⟨after, fun other member => ?_⟩
    rcases List.mem_cons.mp member with rfl | listed
    · exact notSpent
    · exact others other listed

/-- Once one of the transactions spends a key of a signed spend, it is gone. -/
theorem SignedKey.gone_of_spent (signed : SignedKey P done key) (ledger : Ledger P done chain)
    (texts : Set Bytes) (injective : Set.InjOn P.sha3 texts)
    (inside : ∀ tx ∈ done ++ transactions, hashedTexts P tx ⊆ texts)
    (spends : ∃ tx ∈ transactions, key ∈ tx.inputs.map TxInput.key)
    (loop : each (applyNext P) chain transactions = (.ok (), applied)) : Gone applied key := by
  induction transactions generalizing done chain with
  | nil => simp at spends
  | cons tx rest ih =>
    obtain ⟨next, step, later⟩ := (each_cons_ok _ _ _ _ _).mp loop
    obtain ⟨_, _, _, parts, _⟩ := applyNext_ok P chain tx next step
    have notCreated := signed.notCreated ledger texts injective (inside_front inside) step
    by_cases first : key ∈ tx.inputs.map TxInput.key
    · have gone : Gone next key := by
        constructor
        · rw [parts.signedTicket key notCreated, if_pos first]
        · intro held
          rcases (parts.holds key).mp held with own | ⟨_, kept⟩
          · exact notCreated own
          · exact kept first
      exact ((signed.mono [tx]).stays_gone gone (ledger.apply step) texts injective
        (by simpa using inside) later).1
    · refine ih (signed.mono [tx]) (ledger.apply step) (by simpa using inside) ?_
        later
      obtain ⟨other, member, found⟩ := spends
      rcases List.mem_cons.mp member with rfl | listed
      · exact absurd found first
      · exact ⟨other, listed, found⟩

theorem Gone.slashes (gone : Gone chain key)
    (slashes : List SlashEvidence) : Gone (slashes.foldl Chain.slashTicket chain) key := by
  induction slashes generalizing chain with
  | nil => exact gone
  | cons slash rest ih =>
    refine ih ⟨?_, fun held => gone.output (slashTicket_holds chain slash key held)⟩
    rw [slashTicket_tickets, gone.ticket]
    split <;> rfl

/-! ### Keys of tickets -/

/-- A ticket without an owner has no key. -/
def Keyless (chain : Chain) : Prop :=
  ∀ key ticket, chain.tickets.lookup key = some ticket → ticket.owner = [] → ticket.ownerPubkey = []

/-- No key is registered for the empty address. -/
theorem Ledger.unregistered (ledger : Ledger P done chain) (signer : Bytes) (empty : signer = []) :
    chain.pubkeyRegistry.lookup signer = none := by
  cases known : chain.pubkeyRegistry.lookup signer with
  | none => rfl
  | some pubkey =>
    have width := (signerBindsPubkey_ok P signer pubkey (ledger.registry signer pubkey known)).1
    simp [empty] at width

/-- A transaction without a signer carries no key, if it pays the stake address. -/
theorem unsigned_keyless (chain : Chain) (tx : Transaction)
    (valid : validateTransaction P chain tx false = .ok ()) (unsigned : tx.signer = [])
    (output : TxOutput) (listed : output ∈ tx.outputs) (stake : output.recipient = kStakeAddress) :
    tx.signerPubkey = [] := by
  obtain ⟨_, coinbase | ⟨_, form⟩ | ⟨_, spend⟩⟩ := validateTransaction_forms P chain tx valid
  · exact absurd stake (coinbase.noStake output listed)
  · exact form.noPubkey
  · have authority := spend.authority
    simp only [validateAuthority, unsigned, List.isEmpty_nil, ↓reduceIte, bind_ok, exists_unit,
      ensure_ok, Bool.and_eq_true, List.isEmpty_iff] at authority
    exact authority.1.2

theorem Keyless.apply (keyless : Keyless chain) (ledger : Ledger P done chain)
    (step : applyNext P chain tx = (.ok (), reached)) : Keyless reached := by
  obtain ⟨_, _, _, applied, _⟩ := applyNext_ok P chain tx reached step
  intro key ticket found unowned
  rcases applied.ticket key ticket found with ⟨output, placed, stake, _, rfl⟩ | ⟨before, _⟩
  · have unsigned : tx.signer = [] := unowned
    have noPubkey := unsigned_keyless chain tx applied.valid unsigned output.1
      (zipIdx_member placed) stake
    simp [newTicket, noPubkey, Chain.registeredPubkey, ledger.unregistered tx.signer unsigned]
  · exact keyless key ticket before unowned

theorem Keyless.slashes (keyless : Keyless chain) (slashes : List SlashEvidence) :
    Keyless (slashes.foldl Chain.slashTicket chain) := by
  induction slashes generalizing chain with
  | nil => exact keyless
  | cons slash rest ih =>
    refine ih fun key ticket found => ?_
    rw [slashTicket_tickets] at found
    split at found
    · simp at found
    · exact keyless key ticket found

/-- No transaction of a block gives a keyless staker a key. -/
theorem Keyless.applyLoop (keyless : Keyless chain) (ledger : Ledger P done chain)
    (loop : each (applyNext P) chain transactions = (.ok (), applied)) : Keyless applied := by
  induction transactions generalizing done chain with
  | nil =>
    rw [each_nil_ok] at loop
    exact loop ▸ keyless
  | cons tx rest ih =>
    obtain ⟨next, step, later⟩ := (each_cons_ok _ _ _ _ _).mp loop
    exact ih (keyless.apply ledger step) (ledger.apply step) later

theorem Grown.keyless (grown : Grown P condition cfg chain) : Keyless chain := by
  refine grown.carries Keyless (by simp [Keyless, Chain.new]) ?_
  intro now chain block reached before keyless _ accepted
  obtain ⟨_, _, _, fees, _, _, applied, went, rfl⟩ := addBlock_ok P now chain block reached accepted
  have entered : Keyless (chain.entering block) := keyless
  have after := entered.applyLoop (before.ledger.entering block) went.applied
  have charged : Keyless { applied with totalFeesLastBlock := fees } := after
  exact charged.slashes block.slashes

/-- A key that verifies a signature is not empty. -/
theorem verified_key_nonempty (publicKey message signature : Bytes)
    (verified : verifyMessageSignatureHybridUncached P publicKey message signature = true) :
    publicKey ≠ [] := by
  rintro rfl
  simp only [verifyMessageSignatureHybridUncached] at verified
  split at verified
  · simp at verified
  · split at verified
    · simp at verified
    · split at verified
      · simp at verified
      · simp [isHexStrict, Except.isOk, Except.toBool, ensure, bind, Except.bind] at verified

/-- Valid evidence names a ticket with an owner. -/
theorem ValidSlash.owned {slash : SlashEvidence}
    {ticket : StakeTicket} (valid : ValidSlash P chain slash ticket) (keyless : Keyless chain)
    (ledger : Ledger P done chain) : ticket.owner ≠ [] := by
  intro unowned
  have noKey := keyless _ ticket valid.live unowned
  have verified := valid.signedA
  simp only [voteSignatureOk, Bool.and_eq_true] at verified
  refine verified_key_nonempty _ _ _ verified.2 ?_
  simp [Chain.ticketWithKey, noKey, ledger.unregistered ticket.owner unowned]

/-! ### Burning -/

/-- What burning one ticket adds to the burned total. -/
theorem slashTicket_total (chain : Chain) (slash : SlashEvidence) :
    (chain.slashTicket slash).totalSlashed = chain.totalSlashed + chain.slashedAmount slash := by
  unfold Chain.slashTicket Chain.slashedAmount
  cases chain.tickets.lookup slash.a.ticketId with
  | none => simp
  | some ticket =>
    cases unspentAt chain.utxoSet slash.a.ticketId with
    | none => simp
    | some utxo => rfl

/-- Burning one ticket changes what another piece of evidence burns only if both
name the same ticket. -/
theorem slashedAmount_other (chain : Chain) (slash other : SlashEvidence)
    (different : other.a.ticketId ≠ slash.a.ticketId) :
    (chain.slashTicket slash).slashedAmount other = chain.slashedAmount other := by
  unfold Chain.slashedAmount
  have entry : unspentAt (chain.slashTicket slash).utxoSet other.a.ticketId =
      unspentAt chain.utxoSet other.a.ticketId := by
    unfold unspentAt
    rw [slashTicket_others chain slash _ different]
  rw [entry, slashTicket_tickets, if_neg different]

/-- Evidence on distinct tickets burns what each piece burns alone. -/
theorem slashTickets_total (slashes : List SlashEvidence) (chain : Chain)
    (distinct : (slashes.map (fun slash => slash.a.ticketId)).Nodup) :
    (slashes.foldl Chain.slashTicket chain).totalSlashed.toNat =
      (chain.totalSlashed.toNat +
        (slashes.map (fun slash => (chain.slashedAmount slash).toNat)).sum) % 2 ^ 64 := by
  induction slashes generalizing chain with
  | nil =>
    have bound := chain.totalSlashed.toNat_lt
    simp only [List.foldl_nil, List.map_nil, List.sum_nil, Nat.add_zero]
    omega
  | cons slash rest ih =>
    simp only [List.map_cons, List.nodup_cons, List.mem_map, not_exists, not_and] at distinct
    have unchanged : rest.map (fun other => ((chain.slashTicket slash).slashedAmount other).toNat) =
        rest.map (fun other => (chain.slashedAmount other).toNat) := by
      refine List.map_congr_left fun other member => ?_
      rw [slashedAmount_other chain slash other (distinct.1 other member)]
    rw [List.foldl_cons, ih _ distinct.2, unchanged, slashTicket_total,
      UInt64.toNat_add, List.map_cons, List.sum_cons]
    omega

/-- A ticket with an unspent output is burned. -/
theorem slashTickets_burned (slashes : List SlashEvidence) (chain : Chain) (slash : SlashEvidence)
    (member : slash ∈ slashes) (ticket : StakeTicket) (utxo : Utxo)
    (live : chain.tickets.lookup slash.a.ticketId = some ticket)
    (unspent : unspentAt chain.utxoSet slash.a.ticketId = some utxo) :
    (slashes.foldl Chain.slashTicket chain).usedUp slash.a.ticketId ∧
      (slashes.foldl Chain.slashTicket chain).tickets.lookup slash.a.ticketId = none := by
  induction slashes generalizing chain with
  | nil => simp at member
  | cons first rest ih =>
    by_cases same : slash.a.ticketId = first.a.ticketId
    · have used : (chain.slashTicket first).usedUp slash.a.ticketId := by
        rw [same] at live unspent
        refine ⟨{ utxo with spent := true }, ?_, rfl⟩
        unfold Chain.slashTicket
        rw [live, unspent]
        dsimp only
        rw [same, lookup_insert, if_pos rfl]
      have closed : (chain.slashTicket first).tickets.lookup slash.a.ticketId = none := by
        rw [slashTicket_tickets, if_pos same]
      exact ⟨slashTickets_usedUp rest _ _ used, (Gone.slashes ⟨closed, used.not_holds⟩ rest).ticket⟩
    · refine ih (chain.slashTicket first) ?_ ?_ ?_
      · rcases List.mem_cons.mp member with rfl | later
        · exact absurd rfl same
        · exact later
      · rw [slashTicket_tickets, if_neg same, live]
      · unfold unspentAt at unspent ⊢
        rwa [slashTicket_others chain first _ same]

/-! ### Slashed tickets of an accepted block -/

/-- The amount of the ticket under a key, zero when there is none. -/
def Chain.ticketAmount (chain : Chain) (key : Bytes) : Nat :=
  weightAt (fun _ (ticket : StakeTicket) => ticket.amount.toNat) chain.tickets key

/-- What makes the slashes of an accepted block effective: each slashed output is
spent and its ticket is closed, the burned total has grown by the amounts the
tickets had before the block, no transaction of the block brings a slashed output
to the owner of its ticket, and no transaction of a later block spends one. -/
structure SlashingEffective (P : Primitives) (chain : Chain) (block : Block) (reached : Chain) :
    Prop where
  spent : ∀ slash ∈ block.slashes, reached.usedUp slash.a.ticketId
  closed : ∀ slash ∈ block.slashes, reached.tickets.lookup slash.a.ticketId = none
  counted : (reached.totalSlashed - chain.totalSlashed).toNat =
    (block.slashes.map (fun slash => chain.ticketAmount slash.a.ticketId)).sum
  unpaid : ∀ slash ∈ block.slashes, ∀ ticket,
    chain.tickets.lookup slash.a.ticketId = some ticket →
    ∀ tx ∈ block.transactions, slash.a.ticketId ∈ tx.inputs.map TxInput.key →
    ∀ output ∈ tx.outputs, output.recipient ≠ ticket.owner
  final : ∀ slash ∈ block.slashes, ∀ later next now nextBlock,
    Extends P (fun _ _ _ => True) reached later →
    addBlock P now later nextBlock = (.ok (), next) →
    Set.InjOn P.sha3 (textsOf P next.confirmed) →
    ∀ tx ∈ nextBlock.transactions, slash.a.ticketId ∉ tx.inputs.map TxInput.key

/-- The evidence of an accepted block names staked outputs of signed spends, each
ticket once. -/
theorem slashed_stakes (grown : Grown P condition cfg chain)
    (injective : Set.InjOn P.sha3 (textsOf P chain.confirmed)) (block : Block)
    (valid : validateBlockStaking P chain block = .ok ()) :
    (block.slashes.map (fun slash => slash.a.ticketId)).Nodup ∧
      ∀ slash ∈ block.slashes, ∃ ticket, chain.tickets.lookup slash.a.ticketId = some ticket ∧
        SignedStake P chain.confirmed chain slash.a.ticketId ticket := by
  obtain ⟨evidence, distinct, _⟩ := validateBlockStaking_ok chain block valid
  refine ⟨distinct, fun slash member => ?_⟩
  obtain ⟨ticket, checked⟩ := evidence slash member
  exact ⟨ticket, checked.live, (grown.stakes injective).sound _ ticket checked.live
    (checked.owned grown.keyless grown.ledger)⟩

/-- The tickets that a block slashes hold together less than 2^64 coins. -/
theorem slashed_amounts_lt (grown : Grown P condition cfg chain) (slashes : List SlashEvidence)
    (distinct : (slashes.map (fun slash => slash.a.ticketId)).Nodup)
    (staked : ∀ slash ∈ slashes, ∃ ticket, chain.tickets.lookup slash.a.ticketId = some ticket ∧
      SignedStake P chain.confirmed chain slash.a.ticketId ticket) :
    (slashes.map (fun slash => chain.ticketAmount slash.a.ticketId)).sum < 2 ^ 64 := by
  have outputs : slashes.map (fun slash => chain.ticketAmount slash.a.ticketId) =
      (slashes.map (fun slash => slash.a.ticketId)).map
        (weightAt (owned kStakeAddress) chain.utxoSet) := by
    rw [List.map_map]
    refine List.map_congr_left fun slash member => ?_
    obtain ⟨ticket, live, stake⟩ := staked slash member
    obtain ⟨utxo, unspent, owner, amount⟩ := stake.entry
    obtain ⟨entry, unused⟩ := (unspentAt_some _ _ _).mp unspent
    rw [Chain.ticketAmount, weightAt_some _ _ _ ticket live, Function.comp_apply,
      weightAt_some _ _ _ utxo entry]
    simp [owned, unused, owner, amount]
  rw [outputs]
  calc ((slashes.map (fun slash => slash.a.ticketId)).map
        (weightAt (owned kStakeAddress) chain.utxoSet)).sum
      ≤ FiniteTables.measure (owned kStakeAddress) chain.utxoSet :=
        weights_le_measure _ _ _ distinct
    _ ≤ (balanceIn chain.addressIndex kStakeAddress).toNat := grown.coversAt kStakeAddress
    _ < 2 ^ 64 := UInt64.toNat_lt _

/-- What a piece of evidence burns after the transactions of its block: everything,
or nothing if one of them spent the output. -/
theorem slashedAmount_applied
    (ledger : Ledger P done chain) (texts : Set Bytes) (injective : Set.InjOn P.sha3 texts)
    (inside : ∀ tx ∈ done ++ transactions, hashedTexts P tx ⊆ texts)
    (loop : each (applyNext P) chain transactions = (.ok (), applied)) (slash : SlashEvidence)
    (ticket : StakeTicket) (live : chain.tickets.lookup slash.a.ticketId = some ticket)
    (stake : SignedStake P done chain slash.a.ticketId ticket) :
    (applied.slashedAmount slash).toNat =
      if ∃ tx ∈ transactions, slash.a.ticketId ∈ tx.inputs.map TxInput.key then 0
      else ticket.amount.toNat := by
  split
  · rename_i spends
    have gone := stake.source.gone_of_spent ledger texts injective inside spends loop
    simp [Chain.slashedAmount, gone.ticket]
  · rename_i kept
    obtain ⟨entry, still⟩ := stake.source.untouched ledger texts injective inside
      (fun tx member spends => kept ⟨tx, member, spends⟩) loop
    obtain ⟨utxo, unspent, _, amount⟩ := stake.entry
    have after : unspentAt applied.utxoSet slash.a.ticketId = some utxo := by
      unfold unspentAt at unspent ⊢
      rwa [entry]
    simp [Chain.slashedAmount, still, live, after, amount]

/-- A signed outpoint that is gone is spent by no later block of the chain. -/
theorem SignedKey.gone_forever {later : Chain} (grown : Grown P condition cfg reached)
    (signed : SignedKey P reached.confirmed key) (gone : Gone reached key)
    (extended : Extends P condition reached later)
    (injective : Set.InjOn P.sha3 (textsOf P later.confirmed)) :
    Grown P condition cfg later ∧ SignedKey P later.confirmed key ∧ Gone later key := by
  induction extended with
  | refl => exact ⟨grown, signed, gone⟩
  | tail _ step ih =>
    obtain ⟨now, block, meets, accepted⟩ := step
    obtain ⟨before, known, absent⟩ :=
      ih (injective.mono (textsOf_accepted accepted))
    have confirmed := addBlock_confirmed now _ _ block accepted
    refine ⟨.add now _ block _ before meets accepted, confirmed ▸ known.mono _, ?_⟩
    rw [confirmed] at injective
    obtain ⟨_, _, _, fees, _, _, applied, went, rfl⟩ := addBlock_ok P now _ block _ accepted
    have entered : Gone (Chain.entering _ block) key := ⟨absent.ticket, absent.output⟩
    obtain ⟨after, _⟩ := known.stays_gone entered (before.ledger.entering block) _ injective
      (fun tx member text hashed => ⟨tx, member, hashed⟩) went.applied
    have charged : Gone { applied with totalFeesLastBlock := fees } key := ⟨after.ticket, after.output⟩
    have burned := charged.slashes block.slashes
    exact ⟨burned.ticket, burned.output⟩

/-- The growth of the burned total over an accepted block. -/
theorem slashed_growth {now : Time} {block : Block} {coinbase : Transaction}
    {others : List Transaction} {coinbaseTotal fees : UInt64}
    {bundles : List (Option Shielded.Bundle)} {jobs : List PqVerifyItem}
    (went : AcceptedBlock P now chain block coinbase others coinbaseTotal fees bundles jobs applied)
    (settled : reached = committed applied block coinbaseTotal fees)
    (distinct : (block.slashes.map (fun slash => slash.a.ticketId)).Nodup)
    (narrow : (block.slashes.map (fun slash => (applied.slashedAmount slash).toNat)).sum < 2 ^ 64) :
    (reached.totalSlashed - chain.totalSlashed).toNat =
      (block.slashes.map (fun slash => (applied.slashedAmount slash).toNat)).sum := by
  have frame := (applyLoop_frame P block.transactions (chain.entering block)).totalSlashed
  rw [went.applied] at frame
  have start : applied.totalSlashed = chain.totalSlashed := frame
  have total : reached.totalSlashed.toNat = (chain.totalSlashed.toNat +
      (block.slashes.map (fun slash => (applied.slashedAmount slash).toNat)).sum) % 2 ^ 64 := by
    rw [settled, ← start]
    exact slashTickets_total block.slashes { applied with totalFeesLastBlock := fees } distinct
  have bound := chain.totalSlashed.toNat_lt
  rw [UInt64.toNat_sub, total]
  omega

/-- The slashes of an accepted block are effective if and only if no transaction of
the same block spends the output of a ticket that the block slashes. -/
theorem slashing_effective_iff (P : Primitives) (cfg : ChainConfig) (chain reached : Chain)
    (now : Time) (block : Block) (reachable : Reachable P cfg chain)
    (accepted : addBlock P now chain block = (.ok (), reached))
    (injective : Set.InjOn P.sha3 (textsOf P reached.confirmed)) :
    SlashingEffective P chain block reached ↔
      ∀ slash ∈ block.slashes, ∀ tx ∈ block.transactions,
        slash.a.ticketId ∉ tx.inputs.map TxInput.key := by
  have grown := reachable.grown
  have confirmed := addBlock_confirmed now chain reached block accepted
  have earlier := injective.mono (textsOf_accepted accepted)
  have grownAfter : Grown P (fun _ _ _ => True) cfg reached :=
    .add now chain block reached grown trivial accepted
  obtain ⟨coinbase, others, coinbaseTotal, fees, bundles, jobs, applied, went, settled⟩ :=
    addBlock_ok P now chain block reached accepted
  obtain ⟨distinct, staked⟩ := slashed_stakes grown earlier block went.valid.staking
  have entered := grown.ledger.entering block
  have texts : ∀ tx ∈ chain.confirmed ++ block.transactions,
      hashedTexts P tx ⊆ textsOf P reached.confirmed := by
    intro tx member text hashed
    exact ⟨tx, confirmed ▸ member, hashed⟩
  -- a slash burns the ticket's amount, or nothing if a transaction came first
  have burns : ∀ slash ∈ block.slashes, (applied.slashedAmount slash).toNat =
      if ∃ tx ∈ block.transactions, slash.a.ticketId ∈ tx.inputs.map TxInput.key then 0
      else chain.ticketAmount slash.a.ticketId := by
    intro slash member
    obtain ⟨ticket, live, stake⟩ := staked slash member
    rw [Chain.ticketAmount, weightAt_some _ _ _ ticket live]
    exact slashedAmount_applied entered _ injective texts went.applied slash ticket live
      ⟨stake.source, stake.entry, stake.positive, stake.minimum, stake.bound⟩
  have atMost : ∀ slash ∈ block.slashes,
      (applied.slashedAmount slash).toNat ≤ chain.ticketAmount slash.a.ticketId := by
    intro slash member
    rw [burns slash member]
    split <;> omega
  have growth := slashed_growth went settled distinct (lt_of_le_of_lt (List.sum_le_sum atMost)
    (slashed_amounts_lt grown block.slashes distinct staked))
  constructor
  · intro effective slash member tx listed spends
    have counted := growth.symm.trans effective.counted
    obtain ⟨ticket, live, stake⟩ := staked slash member
    refine absurd counted (ne_of_lt (List.sum_lt_sum _ _ atMost ⟨slash, member, ?_⟩))
    rw [burns slash member, if_pos ⟨tx, listed, spends⟩, Chain.ticketAmount,
      weightAt_some _ _ _ ticket live]
    exact Nat.pos_of_ne_zero fun zero => stake.positive (UInt64.toNat_inj.mp zero)
  · intro kept
    have burned : ∀ slash ∈ block.slashes,
        reached.usedUp slash.a.ticketId ∧ reached.tickets.lookup slash.a.ticketId = none := by
      intro slash member
      obtain ⟨ticket, live, stake⟩ := staked slash member
      obtain ⟨entry, still⟩ := stake.source.untouched entered _ injective texts
        (kept slash member) went.applied
      obtain ⟨utxo, unspent, _⟩ := stake.entry
      rw [settled]
      refine slashTickets_burned block.slashes { applied with totalFeesLastBlock := fees } slash
        member ticket utxo (still.trans live) ?_
      unfold unspentAt at unspent ⊢
      rwa [show ({ applied with totalFeesLastBlock := fees } : Chain).utxoSet.lookup
        slash.a.ticketId = chain.utxoSet.lookup slash.a.ticketId from entry]
    refine ⟨fun slash member => (burned slash member).1, fun slash member => (burned slash member).2,
      ?_, ?_, ?_⟩
    · rw [growth]
      refine congrArg List.sum (List.map_congr_left fun slash member => ?_)
      rw [burns slash member, if_neg]
      rintro ⟨tx, listed, spends⟩
      exact kept slash member tx listed spends
    · intro slash member ticket _ tx listed spends
      exact absurd spends (kept slash member tx listed)
    · intro slash member later next clock nextBlock extended grows laterInjective tx listed
      obtain ⟨_, _, stake⟩ := staked slash member
      have signed : SignedKey P reached.confirmed slash.a.ticketId :=
        confirmed ▸ stake.source.mono block.transactions
      obtain ⟨used, closed⟩ := burned slash member
      obtain ⟨before, known, absent⟩ := signed.gone_forever grownAfter ⟨closed, used.not_holds⟩
        extended (laterInjective.mono (textsOf_accepted grows))
      rw [addBlock_confirmed clock later next nextBlock grows] at laterInjective
      obtain ⟨_, _, _, _, _, _, _, through, _⟩ := addBlock_ok P clock later nextBlock next grows
      have start : Gone (later.entering nextBlock) slash.a.ticketId :=
        ⟨absent.ticket, absent.output⟩
      exact (known.stays_gone start (before.ledger.entering nextBlock) _ laterInjective
        (fun other inside text hashed => ⟨other, inside, hashed⟩) through.applied).2 tx listed

/-! ### A slash with and without an unlock before it -/

/-- The block of transactions and evidence on the tip. -/
def slashingOn (P : Primitives) (chain : Chain) (transactions : List Transaction)
    (slashes : List SlashEvidence) : Block :=
  let body : Block := ⟨⟨0, [], 0, 0, 0, []⟩, transactions, [], slashes⟩
  { body with
    header := { (blockOn P chain transactions).header with
      merkleRoot := computeBlockCommitment P body } }

/-- The outpoint of the stake. -/
def stakeKey : Bytes := outpointKey (hashTransaction signingPrimitives stakeLock) 0

/-- A vote of the staker's ticket on a block hash at height two. -/
def stakerVote (votedHash : Bytes) : StakeVote :=
  ⟨stakeKey, 2, votedHash, true, stakerSignature
    (stakeVoteMessage stakingRegtest.networkId 2 votedHash stakeKey true)⟩

/-- The staker voted for two blocks of one height. -/
def equivocation : SlashEvidence := ⟨stakerVote (ascii "a"), stakerVote (ascii "b")⟩

/-- A block with the evidence. -/
def slashBlock : Block :=
  slashingOn signingPrimitives stakeLocked [coinbaseOf [⟨ascii "miner", 50⟩] 2] [equivocation]

/-- The state after the slash. -/
def stakeSlashed : Chain := stateAfter signingPrimitives stakeLocked slashBlock

/-- The staker unlocks the ticket. -/
def stakeUnlock : Transaction := stakerSigned
  ⟨[⟨hashTransaction signingPrimitives stakeLock, 0, []⟩], [⟨stakerAddress, 40⟩], stakerAddress, [],
    [], 0, 2, []⟩

/-- A block that also unlocks the stake. -/
def escapeBlock : Block :=
  slashingOn signingPrimitives stakeLocked [coinbaseOf [⟨ascii "miner", 50⟩] 2, stakeUnlock]
    [equivocation]

/-- The state after a block that unlocks the ticket and carries the evidence. -/
def stakeEscaped : Chain := stateAfter signingPrimitives stakeLocked escapeBlock

/-- Both blocks, evaluated together: the state before them is evaluated once. -/
theorem slashes_evaluated :
    (addBlock signingPrimitives epoch stakeLocked slashBlock).1.isOk = true ∧
    (∀ slash ∈ slashBlock.slashes, ∀ tx ∈ slashBlock.transactions,
      slash.a.ticketId ∉ tx.inputs.map TxInput.key) ∧
    (addBlock signingPrimitives epoch stakeLocked escapeBlock).1.isOk = true ∧
    (stakeEscaped.totalSlashed - stakeLocked.totalSlashed).toNat = 0 ∧
    (escapeBlock.slashes.map (fun slash => stakeLocked.ticketAmount slash.a.ticketId)).sum = 40 := by
  decide +kernel

theorem slashBlock_accepted :
    addBlock signingPrimitives epoch stakeLocked slashBlock = (.ok (), stakeSlashed) :=
  stateAfter_accepted slashes_evaluated.1

theorem escapeBlock_accepted :
    addBlock signingPrimitives epoch stakeLocked escapeBlock = (.ok (), stakeEscaped) :=
  stateAfter_accepted slashes_evaluated.2.2.1

theorem stakeLocked_reachable : Reachable signingPrimitives stakingRegtest stakeLocked :=
  ((Reachable.start signingPrimitives stakingRegtest).step epoch stakerFirst stakerTip
    stakerFirst_accepted).step epoch stakerSecond stakeLocked stakerSecond_accepted

/-- A slash alone in its block is effective. -/
theorem lone_slash_effective :
    SlashingEffective signingPrimitives stakeLocked slashBlock stakeSlashed := by
  refine (slashing_effective_iff signingPrimitives stakingRegtest stakeLocked stakeSlashed epoch
    slashBlock stakeLocked_reachable slashBlock_accepted ?_).mpr slashes_evaluated.2.1
  rw [addBlock_confirmed epoch _ _ _ slashBlock_accepted, stakeLocked_confirmed]
  exact injOn_bare _ _ (by decide +kernel) (by decide +kernel)

set_option maxRecDepth 100000 in
/-- An unlock in the same block saves the stake: nothing is burned. -/
theorem unlock_escapes_slash :
    ¬ ∀ (P : Primitives) (cfg : ChainConfig) (chain reached : Chain) (now : Time) (block : Block),
      Reachable P cfg chain → addBlock P now chain block = (.ok (), reached) →
      Set.InjOn P.sha3 (textsOf P reached.confirmed) → SlashingEffective P chain block reached := by
  intro always
  have injective : Set.InjOn signingPrimitives.sha3
      (textsOf signingPrimitives stakeEscaped.confirmed) := by
    rw [addBlock_confirmed epoch _ _ _ escapeBlock_accepted, stakeLocked_confirmed]
    exact injOn_bare _ _ (by decide +kernel) (by decide +kernel)
  have effective := always signingPrimitives stakingRegtest stakeLocked stakeEscaped epoch
    escapeBlock stakeLocked_reachable escapeBlock_accepted injective
  obtain ⟨_, _, _, burned, staked⟩ := slashes_evaluated
  have counted := effective.counted
  rw [burned, staked] at counted
  simp at counted

end Addition
