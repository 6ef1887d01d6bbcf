import Addition.CommitmentTexts
import Addition.SignatureCache
import Addition.StakingRules

/-!
# Blocks with the signature cache

The checks of `add_block` and `replace_with_chain` that verify stake votes, as computations that
ask. Votes carry free text in what is signed, so here the answer of the cache need not be that of
verification; the signatures of transactions and scripts are over digests and are checked as in
`Blocks`.

Evaluated on what verification says, the computations are those of `Blocks`. They ask about the
votes of the block only, under keys of live tickets, which are digits.
-/

namespace Addition.Cached

open ByteStrings Checked Asking

variable (P : Primitives)

/-! ### Validation -/

/-- What is verified of a vote under the key of a ticket. -/
def voteCheck (ticket : StakeTicket) (networkId : Bytes) (vote : StakeVote) : SignatureCheck :=
  ⟨ticket.ownerPubkey,
    stakeVoteMessage networkId vote.votedHeight vote.votedHash vote.ticketId vote.approve,
    vote.signature⟩

/-- `vote_signature_ok`. -/
def voteSignatureOk (ticket : StakeTicket) (networkId : Bytes) (vote : StakeVote) :
    Asking SignatureCheck Bool :=
  if pqPrefix.isPrefixOf vote.signature then .ask (voteCheck ticket networkId vote) .done
  else .done false

/-- `Chain::validate_slash`. The second vote is looked at when the first is signed. -/
def validateSlash (chain : Chain) (slash : SlashEvidence) : Checking SignatureCheck Unit := do
  let a := slash.a
  let b := slash.b
  ensure (decide (a.ticketId = b.ticketId ∧ a.votedHeight = b.votedHeight))
    "slash: votes are not from the same ticket/height"
  ensure (!decide (a.votedHash = b.votedHash ∧ a.approve = b.approve)) "slash: votes do not conflict"
  match chain.tickets.lookup a.ticketId with
  | none => throw "slash: unknown or spent ticket"
  | some ticket =>
    require (both (voteSignatureOk (chain.ticketWithKey ticket) chain.cfg.networkId a)
      (voteSignatureOk (chain.ticketWithKey ticket) chain.cfg.networkId b))
      "slash: invalid vote signature"

/-- The slash loop of `Chain::validate_block_staking`. -/
def validateSlashes (chain : Chain) : Finset Bytes → List SlashEvidence →
    Checking SignatureCheck Unit
  | _, [] => pure ()
  | slashed, slash :: rest => do
    validateSlash chain slash
    ensure (decide (slash.a.ticketId ∉ slashed)) "duplicate slash evidence"
    validateSlashes chain (insert slash.a.ticketId slashed) rest

/-- The vote loop, returning the owners of the approving tickets in vote order. -/
def validateVotes (chain : Chain) (votedHeight : UInt64) (votedHash : Bytes)
    (selected : List Bytes) : Finset Bytes → List StakeVote → Checking SignatureCheck (List Bytes)
  | _, [] => pure []
  | seen, vote :: rest => do
    ensure (decide (vote.votedHeight = votedHeight ∧ vote.votedHash = votedHash))
      "vote not on parent block"
    ensure (decide (vote.ticketId ∈ selected)) "vote from unselected ticket"
    ensure (decide (vote.ticketId ∉ seen)) "duplicate vote"
    match chain.tickets.lookup vote.ticketId with
    | none => throw "invalid stake vote signature"
    | some ticket =>
      require (voteSignatureOk (chain.ticketWithKey ticket) chain.cfg.networkId vote)
        "invalid stake vote signature"
      let later ← validateVotes chain votedHeight votedHash selected
        (insert vote.ticketId seen) rest
      pure (if vote.approve then ticket.owner :: later else later)

/-- `Chain::validate_block_staking`. -/
def validateBlockStaking (chain : Chain) (candidate : Block) : Checking SignatureCheck Unit :=
  let height := candidate.header.height
  if !chain.stakingActiveAt height then
    liftM (ensure (candidate.votes.isEmpty && candidate.slashes.isEmpty)
      "votes/slashes before staking activation")
  else do
    validateSlashes chain ∅ candidate.slashes
    let votedHeight := height - 1
    let votedHash := candidate.header.previousHash
    let eligible := chain.eligibleTicketsAt votedHeight
    let selected := selectTickets P eligible votedHash chain.cfg.stakeVotesPerBlock
    ensure (decide (candidate.votes.length ≤ selected.length)) "too many votes"
    let approvingOwners ← validateVotes chain votedHeight votedHash selected ∅ candidate.votes
    ensure (!(decide (chain.cfg.stakeMinLiveTickets.toNat ≤ eligible.length) &&
      decide (approvingOwners.length < chain.cfg.stakeVoteQuorum.toNat))) "insufficient stake votes"
    validateStakerRewards chain candidate approvingOwners

/-- `Chain::validate_block_transactions`. -/
def validateBlockTransactions (chain : Chain) (candidate : Block) : Checking SignatureCheck Unit :=
  match candidate.transactions with
  | [] => throw "block must include coinbase"
  | coinbase :: others => do
    ensure (decide (Wire.blockWeight P candidate ≤ chain.cfg.maxBlockWeight.toNat))
      "block weight exceeds max_block_weight"
    let height := candidate.header.height
    let coinbaseTotal ← validateCoinbaseClaim chain height coinbase others
    let bundles ← shieldedPass P chain ∅ ∅ others
    checkAll (checkProof P) (others.zip bundles)
    let first ← snapshotTransaction P height (coinbaseTotal == 0) none
      ⟨chain.utxoSet, chain.addressIndex⟩ coinbase
    let _ ← snapshotTransactions P height first (others.zip bundles)
    let jobs ← signatureJobs P chain.pubkeyRegistry ∅ others
    pqVerifyMessagesParallel P jobs
    validateBlockStaking P chain candidate

/-- The checks of `add_block` on the unchanged state. -/
def validateBlock (now : Time) (chain : Chain) (block : Block) : Checking SignatureCheck Unit := do
  ensure (decide (Wire.blockWeight P block ≤ chain.cfg.maxBlockWeight.toNat))
    "block weight exceeds max_block_weight"
  validateBlockHeader P now chain block
  validateBlockTransactions P chain block

/-! ### Calls -/

/-- What `add_block` does after the verdict of the validation. -/
def afterValidation (chain : Chain) (block : Block) : Except String Unit →
    Except String Unit × Chain
  | .error refusal => (.error refusal, chain)
  | .ok _ =>
    let (verdict, reached) := applyBlock P chain block
    (verdict, { reached with applyingHeight := 0 })

/-- `Chain::add_block`. -/
def addBlock (now : Time) (chain : Chain) (block : Block) :
    Asking SignatureCheck (Except String Unit × Chain) := do
  let verdict ← ExceptT.run (validateBlock P now chain block)
  pure (afterValidation P chain block verdict)

/-- The replay loop of `replace_with_chain`, with the clock at each block. -/
def replay (clock : Nat → Time) : Nat → Chain → List Block →
    Asking SignatureCheck (Except String Unit × Chain)
  | _, chain, [] => pure (.ok (), chain)
  | position, chain, block :: rest => do
    match ← addBlock P (clock position) chain block with
    | (.error refusal, reached) =>
      pure (.error ("invalid candidate at height " ++ toString position ++ ": " ++ refusal), reached)
    | (.ok _, reached) => replay clock (position + 1) reached rest

/-- What `replace_with_chain` does after the replay. -/
def afterReplay (chain : Chain) : Except String Unit × Chain → Except String Unit × Chain
  | (.error refusal, reached) => (.error refusal, reached.restore chain)
  | (.ok _, reached) =>
    if reached.cumulativeWork ≤ chain.cumulativeWork then
      (.error "candidate work not higher", reached.restore chain)
    else (.ok (), reached)

/-- `Chain::replace_with_chain`. -/
def replaceWithChain (clock : Nat → Time) (chain : Chain) (candidate : List Block) :
    Asking SignatureCheck (Except String Unit × Chain) :=
  match candidate with
  | [] => pure (.error "candidate chain empty", chain)
  | first :: rest =>
    if hashBlockHeader P first.header ≠
        hashBlockHeader P (chain.blocks.headD default).header then
      pure (.error "genesis mismatch", chain)
    else do
      let outcome ← replay P clock 1 (chain.reset P) rest
      pure (afterReplay chain outcome)

/-! ### Evaluated on what verification says -/

variable {P}

@[simp] theorem voteSignatureOk_eval (ticket : StakeTicket) (networkId : Bytes) (vote : StakeVote) :
    (voteSignatureOk ticket networkId vote).eval (SignatureCheck.truth P) =
      Addition.voteSignatureOk P ticket networkId vote := by
  unfold voteSignatureOk Addition.voteSignatureOk
  split
  · rename_i marked
    rw [marked, Bool.true_and]
    rfl
  · rename_i unmarked
    rw [Bool.eq_false_iff.mpr unmarked, Bool.false_and]
    rfl

@[simp] theorem validateSlash_outcome (chain : Chain) (slash : SlashEvidence) :
    outcome (SignatureCheck.truth P) (validateSlash chain slash) =
      Addition.validateSlash P chain slash := by
  unfold validateSlash Addition.validateSlash
  simp only [outcome_bind, outcome_lift]
  cases chain.tickets.lookup slash.a.ticketId with
  | none => rfl
  | some ticket => simp only [outcome_require, eval_both, voteSignatureOk_eval]

@[simp] theorem validateSlashes_outcome (chain : Chain) (slashed : Finset Bytes)
    (slashes : List SlashEvidence) :
    outcome (SignatureCheck.truth P) (validateSlashes chain slashed slashes) =
      Addition.validateSlashes P chain slashed slashes := by
  induction slashes generalizing slashed with
  | nil => rfl
  | cons slash rest ih =>
    simp only [validateSlashes, Addition.validateSlashes, outcome_bind, outcome_lift,
      validateSlash_outcome, ih]

@[simp] theorem validateVotes_outcome (chain : Chain) (votedHeight : UInt64) (votedHash : Bytes)
    (selected : List Bytes) (seen : Finset Bytes) (votes : List StakeVote) :
    outcome (SignatureCheck.truth P)
        (validateVotes chain votedHeight votedHash selected seen votes) =
      Addition.validateVotes P chain votedHeight votedHash selected seen votes := by
  induction votes generalizing seen with
  | nil => rfl
  | cons vote rest ih =>
    simp only [validateVotes, Addition.validateVotes, outcome_bind, outcome_lift]
    cases chain.tickets.lookup vote.ticketId with
    | none => rfl
    | some ticket =>
      simp only [outcome_bind, outcome_require, voteSignatureOk_eval, ih]
      rfl

@[simp] theorem validateBlockStaking_outcome (chain : Chain) (candidate : Block) :
    outcome (SignatureCheck.truth P) (validateBlockStaking P chain candidate) =
      Addition.validateBlockStaking P chain candidate := by
  unfold validateBlockStaking Addition.validateBlockStaking
  simp only [outcome_ite, outcome_bind, outcome_lift, validateSlashes_outcome,
    validateVotes_outcome]

@[simp] theorem validateBlock_outcome (now : Time) (chain : Chain) (block : Block) :
    outcome (SignatureCheck.truth P) (validateBlock P now chain block) =
      Addition.validateBlock P now chain block := by
  unfold validateBlock Addition.validateBlock validateBlockTransactions
    Addition.validateBlockTransactions
  simp only [outcome_bind, outcome_lift]
  cases block.transactions with
  | nil => rfl
  | cons coinbase others => simp only [outcome_bind, outcome_lift, validateBlockStaking_outcome]

/-- On the answers of verification, a call is the one of `Blocks`. -/
theorem addBlock_eval (now : Time) (chain : Chain) (block : Block) :
    (addBlock P now chain block).eval (SignatureCheck.truth P) =
      Addition.addBlock P now chain block := by
  have verdict := validateBlock_outcome (P := P) now chain block
  unfold outcome at verdict
  unfold addBlock Addition.addBlock
  rw [eval_bind, verdict, eval_pure]
  cases Addition.validateBlock P now chain block <;> rfl

/-! ### What is asked -/

theorem voteSignatureOk_asks {property : SignatureCheck → Prop} (ticket : StakeTicket)
    (networkId : Bytes) (vote : StakeVote) (asked : property (voteCheck ticket networkId vote)) :
    (voteSignatureOk ticket networkId vote).Every property := by
  unfold voteSignatureOk
  split
  · exact ⟨asked, fun _ => trivial⟩
  · trivial

/-- Whichever ticket's key the votes are verified under, the checks have a property. -/
def AskedOf (property : SignatureCheck → Prop) (chain : Chain) (votes : List StakeVote) : Prop :=
  ∀ vote ∈ votes, ∀ key ticket, chain.tickets.lookup key = some ticket →
    property (voteCheck (chain.ticketWithKey ticket) chain.cfg.networkId vote)

variable {property : SignatureCheck → Prop} {chain : Chain}

theorem validateSlash_asks (slash : SlashEvidence)
    (asked : AskedOf property chain [slash.a, slash.b]) : Asks property (validateSlash chain slash) := by
  unfold validateSlash
  refine (asks_lift _ _).bind fun _ => (asks_lift _ _).bind fun _ => ?_
  cases live : chain.tickets.lookup slash.a.ticketId with
  | none => trivial
  | some ticket =>
    exact .require ((voteSignatureOk_asks _ _ _ (asked _ (.head _) _ ticket live)).both
      (voteSignatureOk_asks _ _ _ (asked _ (.tail _ (.head _)) _ ticket live))) _

theorem validateSlashes_asks (slashed : Finset Bytes) (slashes : List SlashEvidence)
    (asked : ∀ slash ∈ slashes, AskedOf property chain [slash.a, slash.b]) :
    Asks property (validateSlashes chain slashed slashes) := by
  induction slashes generalizing slashed with
  | nil => trivial
  | cons slash rest ih =>
    exact (validateSlash_asks slash (asked slash (.head _))).bind fun _ =>
      (asks_lift _ _).bind fun _ =>
        ih _ fun other member => asked other (.tail _ member)

theorem validateVotes_asks (votedHeight : UInt64) (votedHash : Bytes) (selected : List Bytes)
    (seen : Finset Bytes) (votes : List StakeVote) (asked : AskedOf property chain votes) :
    Asks property (validateVotes chain votedHeight votedHash selected seen votes) := by
  induction votes generalizing seen with
  | nil => trivial
  | cons vote rest ih =>
    refine (asks_lift _ _).bind fun _ => (asks_lift _ _).bind fun _ => (asks_lift _ _).bind fun _ => ?_
    cases live : chain.tickets.lookup vote.ticketId with
    | none => trivial
    | some ticket =>
      exact (Asks.require (voteSignatureOk_asks _ _ _ (asked vote (.head _) _ ticket live))
        _).bind fun _ =>
          (ih _ fun other member => asked other (.tail _ member)).bind fun _ =>
            asks_pure _ _

theorem validateBlockStaking_asks (block : Block) (asked : AskedOf property chain (votesOf block)) :
    Asks property (validateBlockStaking P chain block) := by
  unfold validateBlockStaking
  dsimp only
  split
  · exact asks_lift _ _
  · have evidence : ∀ slash ∈ block.slashes, AskedOf property chain [slash.a, slash.b] := by
      intro slash member vote listed
      exact asked vote (List.mem_append_right _ (List.mem_flatMap.mpr ⟨slash, member, listed⟩))
    exact (validateSlashes_asks _ _ evidence).bind fun _ => (asks_lift _ _).bind fun _ =>
      (validateVotes_asks _ _ _ _ _ fun vote member =>
        asked vote (List.mem_append_left _ member)).bind fun _ =>
          (asks_lift _ _).bind fun _ => asks_lift _ _

/-- A block gives rise to checks of its votes only, whatever is answered on the way. -/
theorem addBlock_asks (now : Time) (block : Block) (asked : AskedOf property chain (votesOf block)) :
    (addBlock P now chain block).Every property := by
  have validated : Asks property (validateBlock P now chain block) := by
    refine (asks_lift _ _).bind fun _ => (asks_lift _ _).bind fun _ => ?_
    unfold validateBlockTransactions
    split
    · trivial
    · exact (asks_lift _ _).bind fun _ => (asks_lift _ _).bind fun _ => (asks_lift _ _).bind fun _ =>
        (asks_lift _ _).bind fun _ => (asks_lift _ _).bind fun _ => (asks_lift _ _).bind fun _ =>
          (asks_lift _ _).bind fun _ => (asks_lift _ _).bind fun _ =>
            validateBlockStaking_asks block asked
  exact Every.bind validated fun _ => trivial

/-- A block without votes and evidence gives rise to no check. -/
theorem addBlock_bare (now : Time) (chain : Chain) (block : Block) (bare : votesOf block = [])
    (verifier : Verifier) :
    (addBlock P now chain block).run (Verifier.answer P) verifier =
      (Addition.addBlock P now chain block, verifier) := by
  rw [← addBlock_eval]
  refine Every.idle (addBlock_asks now block fun vote member => ?_) _ _ _
  rw [bare] at member
  exact absurd member List.not_mem_nil

/-! ### Accepted blocks, whatever was answered -/

theorem validateSlashes_live (chain : Chain) (slashed : Finset Bytes) (slashes : List SlashEvidence)
    (passes : Passes (validateSlashes chain slashed slashes) ()) :
    ∀ slash ∈ slashes, slash.a.ticketId = slash.b.ticketId ∧
      (chain.tickets.lookup slash.a.ticketId).isSome := by
  induction slashes generalizing slashed with
  | nil => simp
  | cons slash rest ih =>
    simp only [validateSlashes, passes_bind, exists_unit, passes_lift] at passes
    obtain ⟨first, _, later⟩ := passes
    intro other member
    rcases List.mem_cons.mp member with rfl | inside
    · simp only [validateSlash, passes_bind, exists_unit, passes_lift, ensure_ok,
        decide_eq_true_eq] at first
      obtain ⟨⟨sameTicket, _⟩, _, signed⟩ := first
      cases live : chain.tickets.lookup other.a.ticketId with
      | none => simp [live] at signed
      | some ticket => exact ⟨sameTicket, rfl⟩
    · exact ih _ later other inside

theorem validateVotes_live (chain : Chain) (votedHeight : UInt64) (votedHash : Bytes)
    (selected : List Bytes) (seen : Finset Bytes) (votes : List StakeVote) (owners : List Bytes)
    (passes : Passes (validateVotes chain votedHeight votedHash selected seen votes) owners) :
    ∀ vote ∈ votes, (chain.tickets.lookup vote.ticketId).isSome := by
  induction votes generalizing seen owners with
  | nil => simp
  | cons vote rest ih =>
    simp only [validateVotes, passes_bind, exists_unit, passes_lift] at passes
    obtain ⟨_, _, _, signed⟩ := passes
    cases live : chain.tickets.lookup vote.ticketId with
    | none => simp [live] at signed
    | some ticket =>
      rw [live] at signed
      simp only [passes_bind, exists_unit] at signed
      obtain ⟨_, later, others, _⟩ := signed
      intro other member
      rcases List.mem_cons.mp member with rfl | inside
      · rw [live]
        rfl
      · exact ih _ later others other inside

/-- The votes and the evidence of a block that passed the staking rules name live tickets. -/
theorem validateBlockStaking_live (chain : Chain) (block : Block)
    (passes : Passes (validateBlockStaking P chain block) ()) :
    ∀ vote ∈ votesOf block, (chain.tickets.lookup vote.ticketId).isSome := by
  unfold validateBlockStaking at passes
  dsimp only at passes
  split at passes
  · simp only [passes_lift, ensure_ok, Bool.and_eq_true, List.isEmpty_iff] at passes
    simp [votesOf, passes.1, passes.2]
  · simp only [passes_bind, exists_unit, passes_lift] at passes
    obtain ⟨slashes, _, owners, votes, _⟩ := passes
    have evidence := validateSlashes_live chain ∅ block.slashes slashes
    intro vote member
    rcases List.mem_append.mp member with voted | pair
    · exact validateVotes_live chain _ _ _ _ _ _ votes vote voted
    · obtain ⟨slash, inside, listed⟩ := List.mem_flatMap.mp pair
      obtain ⟨sameTicket, live⟩ := evidence slash inside
      simp only [List.mem_cons, List.not_mem_nil, or_false] at listed
      rcases listed with rfl | rfl
      · exact live
      · exact sameTicket ▸ live

/-- What an accepted block went through when nothing is known of the answers. -/
structure Taken (P : Primitives) (now : Time) (chain : Chain) (block : Block)
    (coinbase : Transaction) (others : List Transaction) (coinbaseTotal fees : UInt64)
    (applied : Chain) : Prop where
  header : validateBlockHeader P now chain block = .ok ()
  transactions : block.transactions = coinbase :: others
  claim : CoinbaseClaim chain block.header.height coinbase others coinbaseTotal fees
  live : ∀ vote ∈ votesOf block, (chain.tickets.lookup vote.ticketId).isSome
  applied : each (applyNext P) (chain.entering block) block.transactions = (.ok (), applied)

theorem validateBlock_passes (now : Time) (chain : Chain) (block : Block)
    (passes : Passes (validateBlock P now chain block) ()) :
    validateBlockHeader P now chain block = .ok () ∧ ∃ coinbase others coinbaseTotal fees,
      block.transactions = coinbase :: others ∧
      CoinbaseClaim chain block.header.height coinbase others coinbaseTotal fees ∧
      ∀ vote ∈ votesOf block, (chain.tickets.lookup vote.ticketId).isSome := by
  simp only [validateBlock, validateBlockTransactions, passes_bind, exists_unit, passes_lift] at passes
  obtain ⟨_, header, rest⟩ := passes
  refine ⟨header, ?_⟩
  cases transactions : block.transactions with
  | nil => simp [transactions] at rest
  | cons coinbase others =>
    simp only [transactions, passes_bind, exists_unit, passes_lift] at rest
    obtain ⟨_, coinbaseTotal, claim, _, _, _, _, _, _, _, _, _, _, staking⟩ := rest
    obtain ⟨fees, claim⟩ := validateCoinbaseClaim_ok chain _ coinbase others coinbaseTotal claim
    exact ⟨coinbase, others, coinbaseTotal, fees, rfl, claim,
      validateBlockStaking_live chain block staking⟩

/-- A refused block leaves the chain, except that the applying height is zero; an accepted one
leaves the committed state. -/
theorem addBlock_may (now : Time) (chain : Chain) (block : Block)
    (result : Except String Unit × Chain) (may : (addBlock P now chain block).May result) :
    (∃ refusal, result = (.error refusal, chain)) ∨
    (∃ refusal, result = (.error refusal, { chain with applyingHeight := 0 })) ∨
    ∃ coinbase others coinbaseTotal fees applied,
      Taken P now chain block coinbase others coinbaseTotal fees applied ∧
      result = (.ok (), committed applied block coinbaseTotal fees) := by
  obtain ⟨verdict, validated, rfl⟩ := (may_bind _ _ _).mp may
  cases verdict with
  | error refusal => exact .inl ⟨refusal, rfl⟩
  | ok _ =>
    right
    obtain ⟨header, coinbase, others, coinbaseTotal, fees, transactions, claim, live⟩ :=
      validateBlock_passes now chain block validated
    have frame := applyLoop_frame P block.transactions (chain.entering block)
    unfold afterValidation applyBlock
    rw [show ({ chain with applyingHeight := block.header.height } : Chain) =
      chain.entering block from rfl]
    cases loop : each (applyNext P) (chain.entering block) block.transactions with
    | mk verdict reached =>
      rw [loop] at frame
      cases verdict with
      | error refusal =>
        have sameBlocks : reached.blocks = chain.blocks := frame.blocks
        have sameCfg : reached.cfg = chain.cfg := frame.cfg
        exact .inl ⟨refusal, by simp [Chain.rollBack, sameBlocks, sameCfg]⟩
      | ok _ =>
        obtain ⟨feesSum, final, commit, settled⟩ := commitBlock_valid chain reached block coinbase
          others coinbaseTotal fees transactions claim frame.cfg frame.totalEmitted
        refine .inr ⟨coinbase, others, coinbaseTotal, fees, reached,
          ⟨header, transactions, claim, live, loop⟩, ?_⟩
        simp only [feesSum, commit, settled]

end Addition.Cached
