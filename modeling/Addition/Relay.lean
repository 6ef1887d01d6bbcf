import Mathlib.Algebra.Order.BigOperators.Group.List
import Addition.Codec
import Addition.StakingRules
import Addition.Sequential

/-!
# Relaying accepted blocks

The weight cap of the network profiles bounds every width and every count that the
decoder of the wire format caps, except four: a transaction may have no output and no
bundle, more than ten thousand inputs or outputs, and a block more than 256 votes or
slashes. Where an accepted block has none of these, it comes back from the wire
unchanged; otherwise no node decodes it.
-/

namespace Addition

open ByteStrings Checked FiniteTables

variable {P : Primitives}

/-! ### Lengths -/

theorem weight_le_sum {α : Type} (weigh : α → Nat) (items : List α) (item : α)
    (member : item ∈ items) : weigh item ≤ (items.map weigh).sum :=
  List.single_le_sum (fun _ _ => Nat.zero_le _) _ (List.mem_map.mpr ⟨item, member, rfl⟩)

theorem length_le_flatMap {α : Type} (render : α → Bytes) (items : List α) (item : α)
    (member : item ∈ items) : (render item).length ≤ (items.flatMap render).length := by
  rw [List.length_flatMap]
  exact weight_le_sum (fun item => (render item).length) items item member

/-- A list is no longer than its rendering, when every item takes some octets. -/
theorem count_le_flatMap {α : Type} (render : α → Bytes) (width : Nat) (items : List α)
    (wide : ∀ item ∈ items, width ≤ (render item).length) :
    items.length * width ≤ (items.flatMap render).length := by
  induction items with
  | nil => simp
  | cons item rest ih =>
    have first := wide item (by simp)
    have others := ih (fun other member => wide other (by simp [member]))
    rw [List.length_cons, Nat.succ_mul, List.flatMap_cons, List.length_append]
    omega

theorem decimal_length_le (value width : Nat) (positive : 0 < width) (small : value < 10 ^ width) :
    (decimal value).length ≤ width := by
  rw [decimal, List.length_map]
  exact (Nat.length_toDigits_le_iff (by decide) positive).mpr small

/-! ### Transactions -/

/-- Every part of a transaction is within its weight. -/
structure TxWithin (P : Primitives) (tx : Transaction) (cap : Nat) : Prop where
  encoded : (Wire.encodeTxV3 P tx).length + 4 ≤ cap
  strings : ∀ text ∈ [tx.signer, tx.signerPubkey, tx.signature, tx.shielded],
    (Wire.writeTagged text).length ≤ cap
  txids : ∀ input ∈ tx.inputs, (Wire.writeTagged input.previousTxid).length ≤ cap
  witnesses : ∀ input ∈ tx.inputs, input.witness.length ≤ cap
  recipients : ∀ output ∈ tx.outputs, (Wire.writeTagged output.recipient).length ≤ cap
  outputs : tx.outputs.length ≤ cap

/-- A witness is within the witness section. -/
theorem witness_le_section (inputs : List TxInput) (input : TxInput) (member : input ∈ inputs) :
    input.witness.length ≤ (Wire.witnessSection inputs).length := by
  unfold Wire.witnessSection
  split
  · have within := length_le_flatMap
      (fun input : TxInput => Wire.putU32 input.witness.length ++ input.witness) inputs input member
    rw [List.length_append] at within
    rw [List.length_cons]
    omega
  · rename_i none
    have empty : input.witness = [] := by
      by_contra some
      exact none (List.any_eq_true.mpr ⟨input, member, by simpa using some⟩)
    simp [empty]

theorem tx_within (tx : Transaction) (cap : Nat) (weight : Wire.txWeight P tx ≤ cap) :
    TxWithin P tx cap := by
  have split := congrArg List.length (Wire.encodeTx_split P tx)
  simp only [Wire.txOctets, List.length_append] at split
  unfold Wire.txWeight at weight
  refine ⟨by omega, ?_, ?_, ?_, ?_, ?_⟩
  · intro text member
    simp only [List.mem_cons, List.not_mem_nil, or_false] at member
    rcases member with rfl | rfl | rfl | rfl <;> omega
  · intro input member
    have within := length_le_flatMap (fun input : TxInput =>
      Wire.writeTagged input.previousTxid ++ Wire.putU32 input.outputIndex.toNat) tx.inputs input member
    rw [List.length_append] at within
    omega
  · intro input member
    have within := witness_le_section tx.inputs input member
    omega
  · intro output member
    have within := length_le_flatMap (fun output : TxOutput =>
      Wire.writeTagged output.recipient ++ Wire.putU64 output.amount) tx.outputs output member
    rw [List.length_append] at within
    omega
  · have count := count_le_flatMap (fun output : TxOutput =>
      Wire.writeTagged output.recipient ++ Wire.putU64 output.amount) 1 tx.outputs (by
        intro output _
        rw [List.length_append, Wire.writeTagged_length]
        omega)
    omega

/-- A string whose tagged form is within two MiB is within the cap of a field. -/
theorem narrow_of_tagged (text : Bytes) (within : (Wire.writeTagged text).length ≤ kMaxBlockWeight) :
    Wire.Narrow text := by
  rw [Wire.writeTagged_length] at within
  unfold kMaxBlockWeight at within
  unfold Wire.Narrow Wire.kMaxFieldBytes
  omega

theorem narrow_of_length (text : Bytes) (within : text.length ≤ Wire.kMaxFieldBytes) :
    Wire.Narrow text :=
  (Wire.tagged_length_le text).trans within

theorem TxWithin.fits {tx : Transaction} (within : TxWithin P tx kMaxBlockWeight) :
    Wire.TxFits tx ∧ (Wire.encodeTxV3 P tx).length < 2 ^ 32 := by
  refine ⟨⟨?_, ?_, ?_, ?_, ?_, ?_, ?_⟩, ?_⟩
  · exact narrow_of_tagged _ (within.strings _ (by simp))
  · exact narrow_of_tagged _ (within.strings _ (by simp))
  · exact narrow_of_tagged _ (within.strings _ (by simp))
  · exact narrow_of_tagged _ (within.strings _ (by simp))
  · exact fun input member => narrow_of_tagged _ (within.txids input member)
  · intro input member
    have width := within.witnesses input member
    unfold kMaxBlockWeight at width
    unfold Wire.kMaxFieldBytes
    omega
  · exact fun output member => narrow_of_tagged _ (within.recipients output member)
  · have encoded := within.encoded
    unfold kMaxBlockWeight at encoded
    omega

/-- The transactions of a block are within its weight. -/
theorem txs_within (block : Block) (cap : Nat) (weight : Wire.blockWeight P block ≤ cap) :
    ∀ tx ∈ block.transactions, TxWithin P tx cap := by
  intro tx member
  refine tx_within tx cap ?_
  have single := weight_le_sum (Wire.txWeight P) block.transactions tx member
  unfold Wire.blockWeight at weight
  omega

/-! ### Tickets -/

/-- Every ticket has a short name. -/
def ShortTickets (tickets : Table Bytes StakeTicket) : Prop :=
  ∀ key ticket, tickets.lookup key = some ticket → key.length ≤ 136

theorem shortTickets_applyNext (chain reached : Chain) (tx : Transaction)
    (short : ShortTickets chain.tickets) (few : tx.outputs.length ≤ kMaxBlockWeight)
    (step : applyNext P chain tx = (.ok (), reached)) : ShortTickets reached.tickets := by
  obtain ⟨_, _, _, applied, _⟩ := applyNext_ok P chain tx reached step
  intro key ticket found
  rcases applied.ticket key ticket found with ⟨output, listed, _, rfl, _⟩ | ⟨before, _⟩
  · have place : output.2 < tx.outputs.length := (List.mem_zipIdx' listed).1
    have digits := decimal_length_le output.2 7 (by decide) (by
      unfold kMaxBlockWeight at few
      omega)
    have width : (hashTransaction P tx).length = 128 := strongHash_length P _
    rw [outpointKey, List.length_append, List.length_cons, width]
    omega
  · exact short key ticket before

theorem shortTickets_slashes (slashes : List SlashEvidence) (chain : Chain)
    (short : ShortTickets chain.tickets) :
    ShortTickets (slashes.foldl Chain.slashTicket chain).tickets := by
  induction slashes generalizing chain with
  | nil => exact short
  | cons slash rest ih =>
    refine ih _ fun key ticket found => ?_
    rw [slashTicket_tickets] at found
    split at found
    · simp at found
    · exact short key ticket found

variable {chain : Chain}

theorem Grown.shortTickets {condition : StepCondition} {cfg : ChainConfig}
    (grown : Grown P condition cfg chain) (cap : cfg.maxBlockWeight.toNat ≤ kMaxBlockWeight) :
    ShortTickets chain.tickets := by
  refine grown.carries (fun chain => ShortTickets chain.tickets) (fun key ticket found => ?_) ?_
  · simp [Chain.new] at found
  · intro now chain block reached before short _ accepted
    obtain ⟨_, _, _, fees, _, _, applied, went, rfl⟩ := addBlock_ok P now chain block reached accepted
    have weight := went.valid.weight
    rw [before.idle.2] at weight
    have within := txs_within block _ (weight.trans cap)
    have after := each_induct (applyNext P) (fun state rest => ShortTickets state.tickets ∧
      ∀ tx ∈ rest, tx.outputs.length ≤ kMaxBlockWeight) (by
        rintro state tx rest next ⟨holds, few⟩ step
        exact ⟨shortTickets_applyNext state next tx holds (few tx (by simp)) step,
          fun other member => few other (by simp [member])⟩) block.transactions (chain.entering block)
      applied ⟨short, fun tx member => (within tx member).outputs⟩ went.applied
    exact shortTickets_slashes block.slashes { applied with totalFeesLastBlock := fees } after.1

/-! ### Votes and slashes -/

/-- Renderings that exceed twice the weights by a fixed width are together that wide. -/
theorem flatMap_length_le {α : Type} (render : α → Bytes) (weigh : α → Nat) (spare : Nat)
    (items : List α) (each : ∀ item ∈ items, (render item).length ≤ 2 * weigh item + spare) :
    (items.flatMap render).length ≤ 2 * (items.map weigh).sum + items.length * spare := by
  induction items with
  | nil => simp
  | cons item rest ih =>
    have first := each item (by simp)
    have others := ih (fun other member => each other (by simp [member]))
    rw [List.flatMap_cons, List.length_append, List.map_cons, List.sum_cons, List.length_cons,
      Nat.add_mul, Nat.one_mul]
    omega

/-- A vote on a short ticket is at most twice its weight wide. -/
theorem putVote_length_le (vote : StakeVote) (short : vote.ticketId.length ≤ 136) :
    (Wire.putVote vote).length ≤ 2 * Wire.stakeVoteWeight vote + 136 := by
  have ticket := Wire.tagged_length_le vote.ticketId
  have votedHash := Wire.tagged_length_le vote.votedHash
  have signature := Wire.tagged_length_le vote.signature
  simp only [Wire.putVote, Wire.putU64, Wire.stakeVoteWeight, Wire.binWeight, List.length_append,
    List.length_cons, Wire.writeTagged_length, leBytes_length]
  omega

/-- A vote on a short ticket within the block cap fits. -/
theorem vote_fits (vote : StakeVote) (short : vote.ticketId.length ≤ 136)
    (within : Wire.stakeVoteWeight vote ≤ kMaxBlockWeight) : Wire.VoteFits vote := by
  simp only [Wire.stakeVoteWeight, Wire.binWeight, kMaxBlockWeight] at within
  refine ⟨narrow_of_length _ ?_, narrow_of_length _ ?_, narrow_of_length _ ?_⟩ <;>
    (unfold Wire.kMaxFieldBytes; omega)

/-- The items of a section within the block cap fill less than four GiB. -/
theorem section_narrow {α : Type} (put : α → Bytes) (weigh : α → Nat) (items : List α)
    (each : ∀ item ∈ items, (put item).length ≤ 2 * weigh item + 272)
    (few : items.length ≤ Wire.kMaxExtItems) (within : (items.map weigh).sum ≤ kMaxBlockWeight) :
    (Wire.sectionContent put items).length < 2 ^ 32 := by
  have total := flatMap_length_le put weigh 272 items each
  simp only [Wire.sectionContent, Wire.putU32, List.length_append, leBytes_length]
  unfold Wire.kMaxExtItems at few
  unfold kMaxBlockWeight at within
  omega

/-- The parts of a block that its weight counts. -/
theorem block_within (block : Block) (cap : Nat) (weight : Wire.blockWeight P block ≤ cap) :
    (Wire.writeTagged block.header.previousHash).length ≤ cap ∧
      (Wire.writeTagged block.header.merkleRoot).length ≤ cap ∧
      (block.transactions.map (Wire.txWeight P)).sum ≤ cap ∧
      Wire.stakeExtensionWeight block ≤ cap := by
  simp only [Wire.blockWeight, List.length_append] at weight
  omega

/-- The votes and the evidence of a block weigh no more than its extension. -/
theorem extension_within (block : Block) :
    (block.votes.map Wire.stakeVoteWeight).sum ≤ Wire.stakeExtensionWeight block ∧
      (block.slashes.map (fun slash =>
        Wire.stakeVoteWeight slash.a + Wire.stakeVoteWeight slash.b)).sum ≤
          Wire.stakeExtensionWeight block := by
  unfold Wire.stakeExtensionWeight
  split
  · rename_i none
    simp only [Bool.and_eq_true, List.isEmpty_iff] at none
    simp [none.1, none.2]
  · omega

/-- A transaction weighs at least forty octets. -/
theorem count_le_weights (txs : List Transaction) :
    txs.length * 40 ≤ (txs.map (Wire.txWeight P)).sum := by
  induction txs with
  | nil => simp
  | cons tx rest ih =>
    have split := congrArg List.length (Wire.encodeTx_split P tx)
    have signer := Wire.writeTagged_length tx.signer
    have pubkey := Wire.writeTagged_length tx.signerPubkey
    have signature := Wire.writeTagged_length tx.signature
    simp only [Wire.txOctets, Wire.putU64, Wire.putU32, List.length_append, leBytes_length,
      ascii] at split
    simp only [List.length_cons, List.map_cons, List.sum_cons, Wire.txWeight, Nat.add_mul,
      Nat.one_mul]
    omega

/-! ### Blocks -/

/-- The configurations a node can be started with. -/
def networkProfiles : List ChainConfig :=
  [testnetChainConfig, regtestChainConfig, mainnetChainConfig, fastChainConfig]

theorem networkProfiles_weight (cfg : ChainConfig) (profile : cfg ∈ networkProfiles) :
    cfg.maxBlockWeight.toNat ≤ kMaxBlockWeight := by
  simp only [networkProfiles, List.mem_cons, List.not_mem_nil, or_false] at profile
  rcases profile with rfl | rfl | rfl | rfl <;> exact Nat.le_refl 2097152

/-- The votes and the evidence of an accepted block name tickets of the state. -/
theorem short_votes (chain : Chain) (block : Block) (short : ShortTickets chain.tickets)
    (staking : validateBlockStaking P chain block = .ok ()) :
    (∀ vote ∈ block.votes, vote.ticketId.length ≤ 136) ∧
      ∀ slash ∈ block.slashes, slash.a.ticketId.length ≤ 136 ∧ slash.b.ticketId.length ≤ 136 := by
  obtain ⟨evidence, _, votes⟩ := validateBlockStaking_ok chain block staking
  refine ⟨fun vote member => ?_, fun slash member => ?_⟩
  · obtain ⟨ticket, live, _⟩ := votes vote member
    exact short _ ticket live
  · obtain ⟨ticket, valid⟩ := evidence slash member
    have first := short _ ticket valid.live
    exact ⟨first, valid.sameTicket ▸ first⟩

/-- The widths of an accepted block are within the caps of the decoder, and so are its
counts when it has few votes and slashes. -/
theorem accepted_fits {now : Time} {reached : Chain} {block : Block}
    (cap : chain.cfg.maxBlockWeight.toNat ≤ kMaxBlockWeight)
    (short : ShortTickets chain.tickets) (capped : Wire.BlockCapped block)
    (accepted : addBlock P now chain block = (.ok (), reached)) : Wire.BlockFits P block := by
  obtain ⟨coinbase, others, _, _, _, _, _, went, _⟩ := addBlock_ok P now chain block reached accepted
  have weight := went.valid.weight.trans cap
  obtain ⟨previousHash, merkleRoot, transactions, extension⟩ := block_within block _ weight
  obtain ⟨voteWeights, slashWeights⟩ := extension_within block
  obtain ⟨shortVotes, shortSlashes⟩ := short_votes chain block short went.valid.staking
  have weighs : ∀ vote ∈ block.votes, Wire.stakeVoteWeight vote ≤ kMaxBlockWeight := by
    intro vote member
    have single := weight_le_sum Wire.stakeVoteWeight block.votes vote member
    omega
  have slashWeighs : ∀ slash ∈ block.slashes,
      Wire.stakeVoteWeight slash.a + Wire.stakeVoteWeight slash.b ≤ kMaxBlockWeight := by
    intro slash member
    have single := weight_le_sum (fun slash : SlashEvidence =>
      Wire.stakeVoteWeight slash.a + Wire.stakeVoteWeight slash.b) block.slashes slash member
    exact single.trans (slashWeights.trans extension)
  refine ⟨narrow_of_tagged _ previousHash, narrow_of_tagged _ merkleRoot,
    fun tx member => (txs_within block _ weight tx member).fits, ?_, ?_, ?_, ?_, ?_, ?_⟩
  · have count := count_le_weights (P := P) block.transactions
    unfold kMaxBlockWeight at transactions
    unfold Wire.kMaxBlockTxs
    omega
  · exact fun vote member => vote_fits vote (shortVotes vote member) (weighs vote member)
  · intro slash member
    obtain ⟨first, second⟩ := shortSlashes slash member
    have both := slashWeighs slash member
    exact ⟨vote_fits _ first (by omega), vote_fits _ second (by omega)⟩
  · refine section_narrow _ Wire.stakeVoteWeight _ (fun vote member => ?_) capped.votes
      (voteWeights.trans extension)
    have width := putVote_length_le vote (shortVotes vote member)
    omega
  · refine section_narrow _ (fun slash : SlashEvidence =>
      Wire.stakeVoteWeight slash.a + Wire.stakeVoteWeight slash.b) _ (fun slash member => ?_)
      capped.slashes (slashWeights.trans extension)
    obtain ⟨first, second⟩ := shortSlashes slash member
    have widthA := putVote_length_le slash.a first
    have widthB := putVote_length_le slash.b second
    rw [List.length_append]
    omega
  · rw [went.valid.transactions]
    simp

/-- A block that a reachable chain accepts comes back from the wire unchanged exactly
when each of its transactions has an output or a bundle and at most ten thousand
inputs and outputs, and it has at most 256 votes and 256 slashes; otherwise it does
not come back. -/
theorem accepted_block_relayed_iff (P : Primitives) (cfg : ChainConfig) (chain reached : Chain)
    (now : Time) (block : Block) (profile : cfg ∈ networkProfiles) (reachable : Reachable P cfg chain)
    (accepted : addBlock P now chain block = (.ok (), reached)) :
    Wire.decodeBlockV3 P (Wire.encodeBlockV3 P block) = .ok block ↔ Wire.BlockCapped block := by
  have cap := networkProfiles_weight cfg profile
  have grown := ReachableWith.grown reachable
  refine ⟨Wire.decodeBlock_capped P _ block, fun capped => ?_⟩
  have fits := accepted_fits (grown.idle.2 ▸ cap) (grown.shortTickets cap) capped accepted
  exact Wire.decodeBlock_encodeBlock P block fits capped

/-- The block of the miner's coinbase on a fresh chain comes back from the wire. -/
theorem miner_block_relayed :
    Wire.decodeBlockV3 samplePrimitives (Wire.encodeBlockV3 samplePrimitives
        (blockOn samplePrimitives (Chain.new samplePrimitives regtestChainConfig) [minerCoinbase])) =
      .ok (blockOn samplePrimitives (Chain.new samplePrimitives regtestChainConfig)
        [minerCoinbase]) := by
  obtain ⟨created, total, _, _, accepted⟩ := regtest_accepts_first samplePrimitives epoch minerCoinbase
    minerCoinbase_form (by decide) (by decide) (by decide)
  refine (accepted_block_relayed_iff samplePrimitives regtestChainConfig _ _ epoch _
    (by simp [networkProfiles]) (Reachable.start _ _) accepted).mpr ⟨?_, ?_, ?_⟩
  · intro tx member
    rw [List.mem_singleton.mp member]
    exact ⟨by decide, by decide, by decide⟩
  · exact Nat.zero_le _
  · exact Nat.zero_le _

/-- Whatever the hash functions are, a coinbase without outputs is accepted on a fresh
chain and does not come back from the wire. -/
theorem empty_coinbase_not_relayed :
    ¬ ∃ P : Primitives, ∀ cfg ∈ networkProfiles, ∀ (chain reached : Chain) (now : Time) (block : Block),
      Reachable P cfg chain → addBlock P now chain block = (.ok (), reached) →
        Wire.decodeBlockV3 P (Wire.encodeBlockV3 P block) = .ok block := by
  rintro ⟨P, relayed⟩
  obtain ⟨created, total, _, _, accepted⟩ := regtest_accepts_first P epoch (coinbaseOf [] 1)
    ⟨rfl, rfl, rfl, rfl, by simp [coinbaseOf]⟩ (by simp [coinbaseOf]) (by decide) (by decide)
  have back := relayed regtestChainConfig (by simp [networkProfiles]) _ _ epoch _
    (Reachable.start P regtestChainConfig) accepted
  have paid := ((Wire.decodeBlock_capped P _ _ back).transactions (coinbaseOf [] 1) (by
    simp [blockOn])).pays
  simp [coinbaseOf] at paid

end Addition
