import Addition.Application
import Addition.History
import Addition.TransactionTexts

/-!
# The transactions behind a state

A state is explained by the list of transactions that led to it: every output
entry was created by one of them, every input names the identifier of an earlier
one, nonces are bounded by the recorded ones, and every nullifier of a bundle is
in the pool. Application of a transaction extends the list by it; slashes leave
the explanation as it is. So the transactions of a chain's blocks explain its
state in every run.

Input names are therefore digests, and registered signers are strings of digits,
so the text of a confirmed spend can be taken apart.
-/

namespace Addition

open ByteStrings Checked FiniteTables

variable (P : Primitives)

/-- The transactions of a chain's blocks, in order. -/
def Chain.confirmed (chain : Chain) : List Transaction := chain.blocks.flatMap Block.transactions

/-- A list of transactions explains a state. -/
structure Ledger (done : List Transaction) (chain : Chain) : Prop where
  seen : ∀ id, id ∈ chain.seenTransactions ↔ ∃ tx ∈ done, hashTransaction P tx = id
  entries : ∀ key utxo, chain.utxoSet.lookup key = some utxo →
    ∃ tx ∈ done, ∃ position, key = outpointKey (hashTransaction P tx) position
  sources : ∀ earlier tx later, done = earlier ++ tx :: later → ∀ input ∈ tx.inputs,
    ∃ source ∈ earlier, input.previousTxid = hashTransaction P source
  signers : ∀ tx ∈ done, tx.inputs ≠ [] → HexDigits tx.signer ∧ HexDigits tx.signerPubkey
  registry : ∀ signer pubkey, chain.pubkeyRegistry.lookup signer = some pubkey →
    signerBindsPubkey P signer pubkey = .ok ()
  nonces : ∀ tx ∈ done, tx.inputs ≠ [] → tx.signer ≠ [] →
    ∃ last, chain.signerLastNonce.lookup tx.signer = some last ∧ tx.nonce ≤ last
  nullifiers : ∀ tx ∈ done, ∀ bundle, bundleOf tx = some bundle →
    ∀ nullifier ∈ bundle.nullifiers, Shielded.hex32 nullifier ∈ chain.shielded.nfs
  unsigned : ∀ tx ∈ done, tx.inputs = [] → tx.signer = []
  tickets : ∀ key ticket, chain.tickets.lookup key = some ticket →
    ticket.id = key ∧ ∃ tx ∈ done, ∃ position, key = outpointKey (hashTransaction P tx) position

variable {P}

variable {chain : Chain} {done : List Transaction} {created reached spent : Chain}
  {tx : Transaction} {unlocking : Bool} {applied : Chain}

/-- The inputs of an explained transaction name explained transactions. -/
theorem Ledger.source (ledger : Ledger P done chain)
    (tx : Transaction) (member : tx ∈ done) (input : TxInput) (inside : input ∈ tx.inputs) :
    ∃ source ∈ done, input.previousTxid = hashTransaction P source := by
  obtain ⟨earlier, later, rfl⟩ := List.append_of_mem member
  obtain ⟨source, before, named⟩ := ledger.sources earlier tx later rfl input inside
  exact ⟨source, by simp [before], named⟩

/-- The names of an explained spend are digits. -/
theorem Ledger.names (ledger : Ledger P done chain)
    (tx : Transaction) (member : tx ∈ done) (spends : tx.inputs ≠ []) : HexNames tx := by
  obtain ⟨signer, signerPubkey⟩ := ledger.signers tx member spends
  refine ⟨?_, signer, signerPubkey⟩
  intro input inside
  obtain ⟨source, _, named⟩ := ledger.source tx member input inside
  rw [named]
  exact ⟨hashTransaction_ne_nil P source, strongHash_hexDigits P _⟩

/-! ### What authorizes a spend -/

/-- A signer's key is the one the transaction carries, bound to the signer, or a
recorded one. -/
theorem resolveSignerPubkey_ok (registry overlay : Table Bytes Bytes) (tx : Transaction)
    (pubkey : Bytes) (resolved : resolveSignerPubkey P registry overlay tx = .ok pubkey) :
    (signerBindsPubkey P tx.signer tx.signerPubkey = .ok () ∧ pubkey = tx.signerPubkey) ∨
      (tx.signerPubkey = [] ∧
        (overlay.lookup tx.signer = some pubkey ∨ registry.lookup tx.signer = some pubkey)) := by
  unfold resolveSignerPubkey at resolved
  split at resolved
  · simp only [bind_ok, exists_unit, pure_ok] at resolved
    exact .inl ⟨resolved.1, resolved.2.symm⟩
  · rename_i noPubkey
    refine .inr ⟨by simpa using noPubkey, ?_⟩
    split at resolved
    · rename_i found
      exact .inl (by simpa [found] using resolved)
    · rename_i found
      exact .inr (by simpa [found] using resolved)
    · simp at resolved

/-- What authorizes a spend: a signed one carries a key bound to its signer or has a
registered one, and a larger nonce than the recorded one; its signer and its key
are digits. -/
structure Authority (P : Primitives) (chain : Chain) (tx : Transaction) : Prop where
  signer : HexDigits tx.signer
  signerPubkey : HexDigits tx.signerPubkey
  nonce : ∀ last, tx.signer ≠ [] → chain.signerLastNonce.lookup tx.signer = some last →
    last < tx.nonce
  binds : tx.signer ≠ [] → tx.signerPubkey ≠ [] →
    signerBindsPubkey P tx.signer tx.signerPubkey = .ok ()
  registered : tx.signer ≠ [] → tx.signerPubkey = [] →
    ∃ pubkey, chain.pubkeyRegistry.lookup tx.signer = some pubkey

/-- What the authority over a transaction consists of. -/
theorem validateAuthority_ok (chain : Chain) (tx : Transaction)
    (registry : ∀ signer pubkey, chain.pubkeyRegistry.lookup signer = some pubkey →
      signerBindsPubkey P signer pubkey = .ok ())
    (authorized : validateAuthority P chain tx false = .ok ()) : Authority P chain tx := by
  unfold validateAuthority at authorized
  by_cases unsigned : tx.signer = []
  · simp only [unsigned, List.isEmpty_nil, ↓reduceIte, bind_ok, exists_unit, ensure_ok,
      Bool.and_eq_true, List.isEmpty_iff] at authorized
    refine ⟨?_, ?_, fun _ signed => absurd unsigned signed, fun signed => absurd unsigned signed,
      fun signed => absurd unsigned signed⟩
    · simp [unsigned, HexDigits]
    · simp [authorized.1.2, HexDigits]
  · simp only [List.isEmpty_iff, unsigned, ↓reduceIte, validateTransactionSignature, bind_ok,
      exists_unit, ensure_ok] at authorized
    obtain ⟨_, ⟨_, _, _, pubkey, resolved, _⟩, nonce⟩ := authorized
    have later : ∀ last, tx.signer ≠ [] → chain.signerLastNonce.lookup tx.signer = some last →
        last < tx.nonce := by
      intro last _ recorded
      simpa [recorded] using nonce
    rcases resolveSignerPubkey_ok _ _ tx pubkey resolved with ⟨bound, _⟩ | ⟨noPubkey, known⟩
    · obtain ⟨_, signer, nonempty, key⟩ := signerBindsPubkey_ok P tx.signer tx.signerPubkey bound
      exact ⟨signer, key, later, fun _ _ => bound, fun _ absent => absurd absent nonempty⟩
    · have recorded := known.resolve_left (by simp)
      obtain ⟨_, signer, _⟩ := signerBindsPubkey_ok P _ _ (registry tx.signer pubkey recorded)
      exact ⟨signer, by simp [noPubkey, HexDigits], later, fun _ carried => absurd noPubkey carried,
        fun _ _ => ⟨pubkey, recorded⟩⟩

/-! ### One transaction -/

theorem poolAfter_nfs (chain : Chain) (tx : Transaction) (key : Bytes) :
    key ∈ (poolAfter P chain tx).nfs ↔ key ∈ chain.shielded.nfs ∨
      ∃ bundle, bundleOf tx = some bundle ∧
        ∃ nullifier ∈ bundle.nullifiers, Shielded.hex32 nullifier = key := by
  unfold poolAfter
  cases bundleOf tx with
  | none => simp
  | some bundle => simp [Shielded.State.apply_nfs]

/-- The entries after an applied transaction: those of its outputs and, as keys,
those before it. -/
theorem AppliedTransaction.entry
    (applied : AppliedTransaction P chain tx spent unlocking created reached)
    (key : Bytes) (utxo : Utxo) (found : reached.utxoSet.lookup key = some utxo) :
    (∃ position, key = outpointKey (hashTransaction P tx) position) ∨
      ∃ before, chain.utxoSet.lookup key = some before := by
  rw [applied.utxoSet.1] at found
  by_cases own : ∃ output ∈ tx.outputs.zipIdx, key = outpointKey (hashTransaction P tx) output.2
  · obtain ⟨output, _, same⟩ := own
    exact .inl ⟨output.2, same⟩
  · right
    rw [applied.outputs.others key (fun output inside same => own ⟨output, inside, same⟩)] at found
    by_cases spends : key ∈ tx.inputs.map TxInput.key
    · obtain ⟨input, inside, rfl⟩ := List.mem_map.mp spends
      obtain ⟨before, unspent, _⟩ := applied.inputs.present input inside
      exact ⟨before, ((unspentAt_some _ _ _).mp unspent).1⟩
    · rw [applied.inputs.others key spends] at found
      exact ⟨utxo, found⟩

/-- The tickets after an applied transaction: those of its stake outputs and those
before it. -/
theorem AppliedTransaction.ticket
    (applied : AppliedTransaction P chain tx spent unlocking created reached)
    (key : Bytes) (ticket : StakeTicket) (found : reached.tickets.lookup key = some ticket) :
    (∃ output ∈ tx.outputs.zipIdx, output.1.recipient = kStakeAddress ∧
      key = outpointKey (hashTransaction P tx) output.2 ∧
      ticket = newTicket chain tx key output.1.amount) ∨
      (chain.tickets.lookup key = some ticket ∧ key ∉ tx.inputs.map TxInput.key) := by
  rw [applied.tickets] at found
  by_cases own : ∃ output ∈ tx.outputs.zipIdx, output.1.recipient = kStakeAddress ∧
      key = outpointKey (hashTransaction P tx) output.2
  · obtain ⟨output, inside, stake, rfl⟩ := own
    rw [applied.outputs.stakes output inside stake, newTicket_sameRest applied.inputs.rest] at found
    exact .inl ⟨output, inside, stake, rfl, (Option.some.inj found).symm⟩
  · right
    rw [applied.outputs.otherTickets key
      (fun output inside stake same => own ⟨output, inside, stake, same⟩),
      applied.inputs.tickets key] at found
    split at found
    · simp at found
    · rename_i kept
      exact ⟨found, kept⟩

/-- The inputs of an applied transaction name explained transactions. -/
theorem AppliedTransaction.source
    (applied : AppliedTransaction P chain tx spent unlocking created reached)
    (ledger : Ledger P done chain) (input : TxInput) (inside : input ∈ tx.inputs) :
    ∃ source ∈ done, input.previousTxid = hashTransaction P source := by
  obtain ⟨utxo, unspent, _⟩ := applied.inputs.present input inside
  obtain ⟨source, member, position, same⟩ :=
    ledger.entries input.key utxo ((unspentAt_some _ _ _).mp unspent).1
  exact ⟨source, member, (outpointKey_injective _ _ _ _ same).1⟩

/-- A valid spend was authorized. -/
theorem spend_authorized (chain : Chain) (tx : Transaction)
    (valid : validateTransaction P chain tx false = .ok ()) (spends : tx.inputs ≠ []) :
    ∃ inputsTotal, SpendForm P chain tx inputsTotal := by
  obtain ⟨_, coinbase | ⟨_, shielded⟩ | spend⟩ := validateTransaction_forms P chain tx valid
  · exact absurd coinbase.noInputs spends
  · exact absurd shielded.noInputs spends
  · exact spend

/-- The signer of an applied spend and its key are digits. -/
theorem AppliedTransaction.names
    (applied : AppliedTransaction P chain tx spent unlocking created reached)
    (ledger : Ledger P done chain) (spends : tx.inputs ≠ []) :
    HexNames tx := by
  obtain ⟨_, form⟩ := spend_authorized chain tx applied.valid spends
  have authority := validateAuthority_ok chain tx ledger.registry form.authority
  refine ⟨?_, authority.signer, authority.signerPubkey⟩
  intro input inside
  obtain ⟨source, _, named⟩ := applied.source ledger input inside
  rw [named]
  exact ⟨hashTransaction_ne_nil P source, strongHash_hexDigits P _⟩

/-- The recorded nonce of a signer after a transaction. -/
theorem recordSigner_nonces (chain : Chain) (tx : Transaction) (signer : Bytes) :
    (chain.recordSigner tx).signerLastNonce.lookup signer =
      if tx.inputs ≠ [] ∧ tx.signer ≠ [] ∧ signer = tx.signer then some tx.nonce
      else chain.signerLastNonce.lookup signer := by
  unfold Chain.recordSigner
  by_cases noInputs : tx.inputs = []
  · simp [noInputs]
  · by_cases unsigned : tx.signer = []
    · simp [unsigned]
    · simp [noInputs, unsigned, lookup_insert]

theorem recordSigner_registers (chain : Chain) (tx : Transaction) (signer pubkey : Bytes)
    (found : (chain.recordSigner tx).pubkeyRegistry.lookup signer = some pubkey) :
    chain.pubkeyRegistry.lookup signer = some pubkey ∨
      (tx.inputs ≠ [] ∧ tx.signer ≠ [] ∧ tx.signerPubkey ≠ [] ∧ signer = tx.signer ∧
        pubkey = tx.signerPubkey) := by
  rw [recordSigner_registry] at found
  split at found
  · exact .inl found
  · rename_i recorded
    simp only [not_or] at recorded
    rw [lookup_emplace] at found
    cases known : chain.pubkeyRegistry.lookup signer with
    | some before =>
      left
      simpa [known] using found
    | none =>
      right
      by_cases same : signer = tx.signer
      · exact ⟨recorded.1, recorded.2.1, recorded.2.2, same, by simpa [known, same] using found.symm⟩
      · simp [known, same] at found

/-- Application extends the explanation by the transaction. -/
theorem Ledger.apply
    (ledger : Ledger P done chain) (step : applyNext P chain tx = (.ok (), reached)) :
    Ledger P (done ++ [tx]) reached := by
  obtain ⟨spent, unlocking, created, applied, _⟩ := applyNext_ok P chain tx reached step
  have members := applied.members
  constructor
  · intro id
    rw [members.seenTransactions, Finset.mem_insert, ledger.seen]
    simp [or_and_right, exists_or, eq_comm, or_comm]
  · intro key utxo found
    rcases applied.entry key utxo found with ⟨position, same⟩ | ⟨before, earlier⟩
    · exact ⟨tx, by simp, position, same⟩
    · obtain ⟨source, member, position, same⟩ := ledger.entries key before earlier
      exact ⟨source, by simp [member], position, same⟩
  · intro earlier other later split input inside
    rcases List.eq_nil_or_concat' later with rfl | ⟨front, last, rfl⟩
    · -- the new transaction itself
      obtain ⟨rfl, same⟩ := List.append_inj' split rfl
      obtain rfl : tx = other := by simpa using same
      exact applied.source ledger input inside
    · rw [← List.cons_append, ← List.append_assoc] at split
      obtain ⟨rfl, _⟩ := List.append_inj' split rfl
      exact ledger.sources earlier other front rfl input inside
  · intro other member spends
    rcases List.mem_append.mp member with before | new
    · exact ledger.signers other before spends
    · obtain rfl : other = tx := by simpa using new
      have names := applied.names ledger spends
      exact ⟨names.signer, names.signerPubkey⟩
  · intro signer pubkey found
    rw [members.pubkeyRegistry] at found
    rcases recordSigner_registers chain tx signer pubkey found with
      before | ⟨spends, signed, carried, rfl, rfl⟩
    · exact ledger.registry signer pubkey before
    · obtain ⟨_, form⟩ := spend_authorized chain tx applied.valid spends
      exact (validateAuthority_ok chain tx ledger.registry form.authority).binds signed carried
  · intro other member spends signed
    rw [members.signerLastNonce, recordSigner_nonces]
    by_cases now : tx.inputs ≠ [] ∧ tx.signer ≠ [] ∧ other.signer = tx.signer
    · rw [if_pos now]
      refine ⟨tx.nonce, rfl, ?_⟩
      rcases List.mem_append.mp member with before | new
      · obtain ⟨last, recorded, bound⟩ := ledger.nonces other before spends signed
        obtain ⟨_, form⟩ := spend_authorized chain tx applied.valid now.1
        have larger := (validateAuthority_ok chain tx ledger.registry form.authority).nonce last
          now.2.1 (now.2.2 ▸ recorded)
        rw [UInt64.le_iff_toNat_le] at bound ⊢
        rw [UInt64.lt_iff_toNat_lt] at larger
        omega
      · obtain rfl : other = tx := by simpa using new
        exact UInt64.le_refl _
    · rw [if_neg now]
      rcases List.mem_append.mp member with before | new
      · exact ledger.nonces other before spends signed
      · obtain rfl : other = tx := by simpa using new
        exact absurd ⟨spends, signed, rfl⟩ now
  · intro other member bundle carried nullifier inside
    rw [members.shielded, poolAfter_nfs]
    rcases List.mem_append.mp member with before | new
    · exact .inl (ledger.nullifiers other before bundle carried nullifier inside)
    · obtain rfl : other = tx := by simpa using new
      exact .inr ⟨bundle, carried, nullifier, inside, rfl⟩
  · intro other member noInputs
    rcases List.mem_append.mp member with before | new
    · exact ledger.unsigned other before noInputs
    · obtain rfl : other = tx := by simpa using new
      obtain ⟨_, coinbase | ⟨_, shielded⟩ | ⟨_, spend⟩⟩ :=
        validateTransaction_forms P chain other applied.valid
      · exact coinbase.noSigner
      · exact shielded.noSigner
      · exact absurd noInputs spend.hasInputs
  · intro key ticket found
    rcases applied.ticket key ticket found with ⟨output, _, _, same, rfl⟩ | ⟨before, _⟩
    · exact ⟨rfl, tx, by simp, output.2, same⟩
    · obtain ⟨id, source, member, position, same⟩ := ledger.tickets key ticket before
      exact ⟨id, source, by simp [member], position, same⟩

/-- A loop of applications extends the explanation by its transactions. -/
theorem Ledger.applyLoop {transactions : List Transaction} (ledger : Ledger P done chain)
    (loop : each (applyNext P) chain transactions = (.ok (), applied)) :
    Ledger P (done ++ transactions) applied := by
  induction transactions generalizing done chain with
  | nil =>
    rw [each_nil_ok] at loop
    simpa [loop] using ledger
  | cons tx rest ih =>
    obtain ⟨next, step, later⟩ := (each_cons_ok _ _ _ _ _).mp loop
    simpa using ih (ledger.apply step) later

/-! ### Blocks and runs -/

/-- What a slash does to the entries: at most it marks one as spent. -/
theorem slashTicket_entry (chain : Chain) (slash : SlashEvidence) (key : Bytes) :
    (chain.slashTicket slash).utxoSet.lookup key = chain.utxoSet.lookup key ∨
      ∃ utxo, unspentAt chain.utxoSet key = some utxo ∧
        (chain.slashTicket slash).utxoSet.lookup key = some { utxo with spent := true } := by
  unfold Chain.slashTicket
  split
  · exact .inl rfl
  · exact .inl rfl
  · rename_i utxo _ found
    by_cases same : key = slash.a.ticketId
    · subst same
      exact .inr ⟨utxo, found, by simp⟩
    · left
      simp [AList.lookup_insert_ne same]

/-- The tickets after a slash. -/
theorem slashTicket_tickets (chain : Chain) (slash : SlashEvidence) (key : Bytes) :
    (chain.slashTicket slash).tickets.lookup key =
      if key = slash.a.ticketId then none else chain.tickets.lookup key := by
  unfold Chain.slashTicket
  split
  · rename_i missing
    split
    · rename_i same
      rw [same, missing]
    · rfl
  · rw [lookup_erase]
  · rw [lookup_erase]

/-- The members a slash leaves alone. -/
theorem slashTicket_members (chain : Chain) (slash : SlashEvidence) :
    (chain.slashTicket slash).seenTransactions = chain.seenTransactions ∧
      (chain.slashTicket slash).pubkeyRegistry = chain.pubkeyRegistry ∧
      (chain.slashTicket slash).signerLastNonce = chain.signerLastNonce ∧
      (chain.slashTicket slash).shielded = chain.shielded := by
  unfold Chain.slashTicket
  split <;> exact ⟨rfl, rfl, rfl, rfl⟩

theorem Ledger.slash (ledger : Ledger P done chain)
    (slash : SlashEvidence) : Ledger P done (chain.slashTicket slash) := by
  obtain ⟨seen, registry, nonces, shielded⟩ := slashTicket_members chain slash
  refine ⟨?_, ?_, ledger.sources, ledger.signers, ?_, ?_, ?_, ledger.unsigned, ?_⟩
  · rw [seen]
    exact ledger.seen
  · intro key utxo found
    rcases slashTicket_entry chain slash key with same | ⟨before, unspent, _⟩
    · exact ledger.entries key utxo (same ▸ found)
    · exact ledger.entries key before ((unspentAt_some _ _ _).mp unspent).1
  · rw [registry]
    exact ledger.registry
  · rw [nonces]
    exact ledger.nonces
  · rw [shielded]
    exact ledger.nullifiers
  · intro key ticket found
    rw [slashTicket_tickets] at found
    split at found
    · simp at found
    · exact ledger.tickets key ticket found

theorem Ledger.slashes (ledger : Ledger P done chain)
    (slashes : List SlashEvidence) : Ledger P done (slashes.foldl Chain.slashTicket chain) := by
  induction slashes generalizing chain with
  | nil => exact ledger
  | cons slash rest ih => exact ih (ledger.slash slash)

/-- An explanation does not read the height, the sums and the blocks. -/
theorem Ledger.congr {chain' : Chain} (ledger : Ledger P done chain)
    (seen : chain'.seenTransactions = chain.seenTransactions)
    (utxoSet : chain'.utxoSet = chain.utxoSet)
    (registry : chain'.pubkeyRegistry = chain.pubkeyRegistry)
    (nonces : chain'.signerLastNonce = chain.signerLastNonce)
    (shielded : chain'.shielded = chain.shielded) (tickets : chain'.tickets = chain.tickets) :
    Ledger P done chain' where
  seen := seen ▸ ledger.seen
  entries := utxoSet ▸ ledger.entries
  sources := ledger.sources
  signers := ledger.signers
  registry := registry ▸ ledger.registry
  nonces := nonces ▸ ledger.nonces
  nullifiers := shielded ▸ ledger.nullifiers
  unsigned := ledger.unsigned
  tickets := tickets ▸ ledger.tickets

theorem Ledger.entering (ledger : Ledger P done chain)
    (block : Block) : Ledger P done (chain.entering block) :=
  ledger.congr rfl rfl rfl rfl rfl rfl

theorem Ledger.commit (ledger : Ledger P done applied)
    (block : Block) (coinbaseTotal fees : UInt64) :
    Ledger P done (committed applied block coinbaseTotal fees) := by
  have charged : Ledger P done { applied with totalFeesLastBlock := fees } :=
    ledger.congr rfl rfl rfl rfl rfl rfl
  exact (charged.slashes block.slashes).congr rfl rfl rfl rfl rfl rfl

theorem committed_blocks (applied : Chain) (block : Block) (coinbaseTotal fees : UInt64) :
    (committed applied block coinbaseTotal fees).blocks = applied.blocks ++ [block] := by
  have frame := (slashTickets_frame block.slashes { applied with totalFeesLastBlock := fees }).2.1
  exact congrArg (· ++ [block]) frame

/-- The blocks after an accepted one. -/
theorem addBlock_blocks (now : Time) (chain reached : Chain) (block : Block)
    (accepted : addBlock P now chain block = (.ok (), reached)) :
    reached.blocks = chain.blocks ++ [block] := by
  obtain ⟨_, _, _, _, _, _, applied, went, rfl⟩ := addBlock_ok P now chain block reached accepted
  have frame := applyLoop_frame P block.transactions (chain.entering block)
  rw [went.applied] at frame
  rw [committed_blocks, frame.blocks]
  rfl

theorem addBlock_confirmed (now : Time) (chain reached : Chain) (block : Block)
    (accepted : addBlock P now chain block = (.ok (), reached)) :
    reached.confirmed = chain.confirmed ++ block.transactions := by
  simp [Chain.confirmed, addBlock_blocks now chain reached block accepted]

/-- In every run the transactions of the blocks explain the state. -/
theorem Grown.ledger {condition : StepCondition} {cfg : ChainConfig}
    (grown : Grown P condition cfg chain) : Ledger P chain.confirmed chain := by
  refine grown.carries (fun chain => Ledger P chain.confirmed chain) ?_ ?_
  · constructor <;> simp [Chain.confirmed, Chain.new, makeGenesis]
  · intro now chain block reached _ ledger _ accepted
    rw [addBlock_confirmed now chain reached block accepted]
    obtain ⟨_, _, _, _, _, _, applied, went, rfl⟩ := addBlock_ok P now chain block reached accepted
    exact ((ledger.entering block).applyLoop went.applied).commit block _ _

end Addition
