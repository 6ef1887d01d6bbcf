import Addition.Slashing
import Addition.Voting

/-!
# The keys that tickets vote with

A ticket is named by the transaction that opened it and belongs to its signer. The key
that it stores was sent with that transaction or stood in the registry, and either way it
is bound to the owner: its text is the hexadecimal text of a known key, so that a vote is
never verified under a key with a zero octet in it.
-/

namespace Addition

open ByteStrings Checked FiniteTables

variable {P : Primitives}

/-- A key that a ticket stores is bound to the owner of the ticket. -/
def TicketKeys (P : Primitives) (chain : Chain) : Prop :=
  ∀ key ticket, chain.tickets.lookup key = some ticket → ticket.ownerPubkey ≠ [] →
    signerBindsPubkey P ticket.owner ticket.ownerPubkey = .ok ()

variable {chain : Chain} {done : List Transaction} {cfg : ChainConfig}

/-- The key that a new ticket stores is bound to the signer. -/
theorem newTicket_bound (ledger : Ledger P done chain)
    (tx : Transaction) (valid : validateTransaction P chain tx false = .ok ()) (output : TxOutput)
    (listed : output ∈ tx.outputs) (stake : output.recipient = kStakeAddress) (key : Bytes)
    (keyed : (newTicket chain tx key output.amount).ownerPubkey ≠ []) :
    signerBindsPubkey P tx.signer (newTicket chain tx key output.amount).ownerPubkey = .ok () := by
  unfold newTicket at keyed ⊢
  dsimp only at keyed ⊢
  by_cases carried : tx.signerPubkey = []
  · simp only [carried, List.isEmpty_nil, if_true] at keyed ⊢
    cases known : chain.registeredPubkey tx.signer with
    | none => simp [known] at keyed
    | some pubkey => exact ledger.registry tx.signer pubkey known
  · simp only [List.isEmpty_iff, carried, if_false] at keyed ⊢
    have signed : tx.signer ≠ [] :=
      fun unsigned => carried (unsigned_keyless chain tx valid unsigned output listed stake)
    obtain ⟨_, coinbase | ⟨_, form⟩ | ⟨_, spend⟩⟩ := validateTransaction_forms P chain tx valid
    · exact absurd stake (coinbase.noStake output listed)
    · exact absurd form.noPubkey carried
    · exact (validateAuthority_ok chain tx ledger.registry spend.authority).binds signed carried

theorem TicketKeys.apply {reached : Chain} {tx : Transaction}
    (keys : TicketKeys P chain) (ledger : Ledger P done chain)
    (step : applyNext P chain tx = (.ok (), reached)) : TicketKeys P reached := by
  obtain ⟨_, _, _, applied, _⟩ := applyNext_ok P chain tx reached step
  intro key ticket found keyed
  rcases applied.ticket key ticket found with ⟨output, placed, stake, _, rfl⟩ | ⟨before, _⟩
  · exact newTicket_bound ledger tx applied.valid output.1 (zipIdx_member placed) stake key keyed
  · exact keys key ticket before keyed

/-- The transactions of a block leave every ticket its key. -/
theorem TicketKeys.applyLoop {transactions : List Transaction} {applied : Chain}
    (keys : TicketKeys P chain) (ledger : Ledger P done chain)
    (loop : each (applyNext P) chain transactions = (.ok (), applied)) : TicketKeys P applied := by
  induction transactions generalizing done chain with
  | nil =>
    rw [each_nil_ok] at loop
    exact loop ▸ keys
  | cons tx rest ih =>
    obtain ⟨next, step, later⟩ := (each_cons_ok _ _ _ _ _).mp loop
    exact ih (keys.apply ledger step) (ledger.apply step) later

theorem TicketKeys.slashes (keys : TicketKeys P chain) (slashes : List SlashEvidence) :
    TicketKeys P (slashes.foldl Chain.slashTicket chain) := by
  induction slashes generalizing chain with
  | nil => exact keys
  | cons slash rest ih =>
    refine ih fun key ticket found => keys key ticket ?_
    rw [slashTicket_tickets] at found
    split at found
    · simp at found
    · exact found

/-- The keys that the tickets of a chain store are bound to their owners. -/
theorem Grown.ticketKeys {condition : StepCondition}
    (grown : Grown P condition cfg chain) : TicketKeys P chain := by
  refine grown.carries (TicketKeys P) ?_ ?_
  · simp [TicketKeys, Chain.new]
  · intro now chain block reached before keys _ accepted
    obtain ⟨_, _, _, fees, _, _, applied, went, rfl⟩ := addBlock_ok P now chain block reached accepted
    have entered : TicketKeys P (chain.entering block) := keys
    have after := entered.applyLoop (before.ledger.entering block) went.applied
    have charged : TicketKeys P { applied with totalFeesLastBlock := fees } := after
    exact charged.slashes block.slashes

end Addition
