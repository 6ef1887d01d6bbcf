import Addition.Solvency

/-!
# Supply

What the unspent outputs, the pool and the burned tickets hold together never
exceeds what was emitted, and that never exceeds the cap. One transaction moves
value and pays its fee out of it; the coinbase of a block adds its total; what the
total exceeds the fees by is what the block emits.

The sums of a block are exact as well. For the burned total that needs a solvent
pool, since value forged in the pool could be staked and burned over and over.
-/

namespace Addition

open ByteStrings Checked FiniteTables

variable {P : Primitives}

/-- The amount of an unspent entry. -/
def live (_ : Bytes) (utxo : Utxo) : Nat := if utxo.spent then 0 else utxo.amount.toNat

/-- The sum of all unspent entries. -/
def unspentValue (utxoSet : Table Bytes Utxo) : Nat := FiniteTables.measure live utxoSet

/-- The public value that the bundles of some transactions move into the pool. -/
def pooledIn (transactions : List Transaction) : Nat :=
  ((bundlesOf transactions).map (fun bundle => bundle.vpubIn.toNat)).sum

/-- The public value that the bundles of some transactions take out of the pool. -/
def pooledOut (transactions : List Transaction) : Nat :=
  ((bundlesOf transactions).map (fun bundle => bundle.vpubOut.toNat)).sum

theorem pooledIn_append (done later : List Transaction) :
    pooledIn (done ++ later) = pooledIn done + pooledIn later := by
  simp [pooledIn, bundlesOf_append]

theorem pooledOut_append (done later : List Transaction) :
    pooledOut (done ++ later) = pooledOut done + pooledOut later := by
  simp [pooledOut, bundlesOf_append]

theorem pooledIn_cons (tx : Transaction) (rest : List Transaction) :
    pooledIn (tx :: rest) = vpubInOf tx + pooledIn rest := by
  rw [← List.singleton_append, pooledIn_append]
  cases carried : bundleOf tx <;> simp [pooledIn, bundlesOf_singleton, vpubInOf, carried]

theorem pooledOut_cons (tx : Transaction) (rest : List Transaction) :
    pooledOut (tx :: rest) = vpubOutOf tx + pooledOut rest := by
  rw [← List.singleton_append, pooledOut_append]
  cases carried : bundleOf tx <;> simp [pooledOut, bundlesOf_singleton, vpubOutOf, carried]

/-! ### Entries -/

/-- Spending an entry takes its amount out of the sum. -/
theorem unspentValue_spend (utxoSet : Table Bytes Utxo) (key : Bytes) (utxo : Utxo)
    (found : unspentAt utxoSet key = some utxo) :
    unspentValue (utxoSet.insert key { utxo with spent := true }) + utxo.amount.toNat =
      unspentValue utxoSet := by
  obtain ⟨entry, unspent⟩ := (unspentAt_some utxoSet key utxo).mp found
  have exchanged := measure_insert_found live utxoSet key utxo { utxo with spent := true } entry
  unfold unspentValue
  simpa [live, unspent] using exchanged

/-- Creating an entry adds no more than its amount. -/
theorem unspentValue_create (utxoSet : Table Bytes Utxo) (key : Bytes) (utxo : Utxo) :
    unspentValue (utxoSet.insert key utxo) ≤ unspentValue utxoSet + utxo.amount.toNat := by
  have exchanged := measure_insert live utxoSet key utxo
  have single : live key utxo ≤ utxo.amount.toNat := by
    unfold live
    split <;> omega
  unfold unspentValue
  omega

/-! ### Transactions -/

/-- The amounts that validation adds up are what spending the inputs takes out. -/
theorem unspentValue_inputs (chain state spent : Chain) (flag flag' : Bool) (seen : Finset Bytes)
    (total result : UInt64) (inputs : List TxInput)
    (same : ∀ key, key ∉ seen → state.utxoSet.lookup key = chain.utxoSet.lookup key)
    (summed : sumInputs chain seen total inputs = .ok result)
    (loop : each spendInput (state, flag) inputs = (.ok (), (spent, flag'))) :
    unspentValue spent.utxoSet + result.toNat = unspentValue state.utxoSet + total.toNat := by
  induction inputs generalizing state flag seen total with
  | nil =>
    rw [each_nil_ok] at loop
    obtain rfl := (Prod.mk.inj loop).1
    rw [Except.ok.inj summed]
  | cons input rest ih =>
    simp only [sumInputs, bind_ok, exists_unit, ensure_ok, decide_eq_true_eq] at summed
    obtain ⟨fresh, summed⟩ := summed
    obtain ⟨⟨next, flag''⟩, step, later⟩ := (each_cons_ok _ _ _ _ _).mp loop
    obtain ⟨utxo, found, reached⟩ := (spendInput_ok state flag input (next, flag'')).mp step
    have here : unspentAt chain.utxoSet input.key = some utxo := by
      unfold unspentAt at found ⊢
      rwa [same input.key fresh] at found
    rw [here] at summed
    simp only [bind_ok, exists_unit, ensure_ok, addOr_ok] at summed
    obtain ⟨_, next', added, summed⟩ := summed
    obtain rfl := (Prod.mk.inj reached).1
    have kept : ∀ key, key ∉ insert input.key seen →
        (state.utxoSet.insert input.key { utxo with spent := true }).lookup key =
          chain.utxoSet.lookup key := by
      intro key outside
      simp only [Finset.mem_insert, not_or] at outside
      rw [lookup_insert, if_neg outside.1, same key outside.2]
    have taken := unspentValue_spend state.utxoSet input.key utxo found
    have others : unspentValue spent.utxoSet + result.toNat =
        unspentValue (state.utxoSet.insert input.key { utxo with spent := true }) + next'.toNat :=
      ih _ flag'' (insert input.key seen) next' kept summed later
    omega

/-- Creating outputs adds no more than their value. -/
theorem unspentValue_outputs (tx : Transaction) (txid : Bytes) (unlocking : Bool)
    (chain created : Chain) (placed : List (TxOutput × Nat))
    (loop : each (createOutput tx txid unlocking) chain placed = (.ok (), created)) :
    unspentValue created.utxoSet ≤
      unspentValue chain.utxoSet + outputsValue (placed.map Prod.fst) := by
  induction placed generalizing chain with
  | nil =>
    rw [each_nil_ok] at loop
    simp [loop]
  | cons output rest ih =>
    obtain ⟨next, step, later⟩ := (each_cons_ok _ _ _ _ _).mp loop
    obtain ⟨_, rfl⟩ := (createOutput_ok tx txid unlocking chain output next).mp step
    have others := ih _ later
    have single := unspentValue_create chain.utxoSet (outpointKey txid output.2)
      (newUtxo chain unlocking output.1)
    simp only [outputsValue, List.map_cons, List.sum_cons] at others ⊢
    dsimp only [newUtxo] at single others
    omega

/-- A coinbase adds no more than its outputs; any other transaction pays its fee and
what it moves into the pool out of what it spends. -/
theorem unspentValue_applyNext (chain reached : Chain) (tx : Transaction)
    (step : applyNext P chain tx = (.ok (), reached)) :
    if tx.inputs = [] ∧ tx.shielded = [] then
      unspentValue reached.utxoSet ≤ unspentValue chain.utxoSet + outputsValue tx.outputs
    else unspentValue reached.utxoSet + vpubInOf tx + tx.fee.toNat ≤
      unspentValue chain.utxoSet + vpubOutOf tx := by
  obtain ⟨spent, unlocking, created, applied, inputs, outputs⟩ := applyNext_ok P chain tx reached step
  have made := unspentValue_outputs tx _ unlocking spent created tx.outputs.zipIdx outputs
  rw [List.zipIdx_map_fst] at made
  rw [applied.utxoSet.1]
  obtain ⟨_, coinbase | ⟨bundle, form⟩ | ⟨inputsTotal, spend⟩⟩ :=
    validateTransaction_forms P chain tx applied.valid
  · rw [if_pos ⟨coinbase.noInputs, coinbase.transparent⟩]
    rw [coinbase.noInputs, each_nil_ok] at inputs
    obtain rfl := (Prod.mk.inj inputs).1
    exact made
  · rw [if_neg fun lone => form.shielded.carries lone.2]
    have untouched := inputs
    rw [form.noInputs, each_nil_ok] at untouched
    obtain rfl := (Prod.mk.inj untouched).1
    have carried := bundleOf_decoded tx bundle form.shielded.decoded
    have balance := form.balance
    have noVpubIn : vpubInOf tx = 0 := by simp [vpubInOf, carried, form.noVpubIn]
    have vpubOut : vpubOutOf tx = bundle.vpubOut.toNat := by simp [vpubOutOf, carried]
    omega
  · rw [if_neg fun lone => spend.hasInputs lone.1]
    have taken := unspentValue_inputs chain chain spent false unlocking ∅ 0 inputsTotal tx.inputs
      (fun _ _ => rfl) spend.summed inputs
    have balance := spend.balance
    rw [UInt64.toNat_zero] at taken
    omega

/-- The transactions after the coinbase pay their fees out of what they spend. -/
theorem unspentValue_others (others : List Transaction) (chain applied : Chain)
    (funded : ∀ tx ∈ others, tx.inputs ≠ [] ∨ tx.shielded ≠ [])
    (loop : each (applyNext P) chain others = (.ok (), applied)) :
    unspentValue applied.utxoSet + pooledIn others + feesValue others ≤
      unspentValue chain.utxoSet + pooledOut others := by
  induction others generalizing chain with
  | nil =>
    rw [each_nil_ok] at loop
    simp [loop, pooledIn, pooledOut, bundlesOf, shieldedOf, feesValue]
  | cons tx rest ih =>
    obtain ⟨next, step, later⟩ := (each_cons_ok _ _ _ _ _).mp loop
    have rest' := ih next (fun other member => funded other (by simp [member])) later
    have first := unspentValue_applyNext chain next tx step
    have other : ¬ (tx.inputs = [] ∧ tx.shielded = []) := by
      rintro ⟨noInputs, transparent⟩
      exact (funded tx (by simp)).elim (fun spends => spends noInputs)
        (fun carries => carries transparent)
    rw [if_neg other] at first
    rw [pooledIn_cons, pooledOut_cons]
    simp only [feesValue, List.map_cons, List.sum_cons] at rest' ⊢
    omega

/-- The transactions of an accepted block add no more than it mints. -/
theorem unspentValue_block (now : Time) (chain applied : Chain) (block : Block)
    (coinbase : Transaction) (others : List Transaction) (coinbaseTotal fees : UInt64)
    (bundles : List (Option Shielded.Bundle)) (jobs : List PqVerifyItem)
    (went : AcceptedBlock P now chain block coinbase others coinbaseTotal fees bundles jobs applied) :
    unspentValue applied.utxoSet + pooledIn block.transactions + fees.toNat ≤
      unspentValue chain.utxoSet + pooledOut block.transactions + coinbaseTotal.toNat := by
  have claim := went.valid.claim
  have loop := went.applied
  rw [went.valid.transactions] at loop
  obtain ⟨next, step, later⟩ := (each_cons_ok _ _ _ _ _).mp loop
  have first := unspentValue_applyNext (chain.entering block) next coinbase step
  rw [if_pos ⟨claim.noInputs, claim.transparent⟩] at first
  have rest := unspentValue_others others next applied claim.funded later
  have none := bundleOf_transparent coinbase claim.transparent
  have noIn : vpubInOf coinbase = 0 := by simp [vpubInOf, none]
  have noOut : vpubOutOf coinbase = 0 := by simp [vpubOutOf, none]
  rw [went.valid.transactions, pooledIn_cons, pooledOut_cons, noIn, noOut, claim.total,
    claim.feesTotal]
  rw [entering_utxoSet] at first
  omega

/-! ### Burning -/

/-- The exact sum that burning a list of tickets destroys. -/
def burned : Chain → List SlashEvidence → Nat
  | _, [] => 0
  | chain, slash :: rest => (chain.slashedAmount slash).toNat + burned (chain.slashTicket slash) rest

theorem slashTicket_value (chain : Chain) (slash : SlashEvidence) :
    unspentValue (chain.slashTicket slash).utxoSet + (chain.slashedAmount slash).toNat =
        unspentValue chain.utxoSet ∧
      (chain.slashTicket slash).totalSlashed = chain.totalSlashed + chain.slashedAmount slash := by
  unfold Chain.slashTicket Chain.slashedAmount
  cases ticket : chain.tickets.lookup slash.a.ticketId with
  | none => simp
  | some found =>
    cases entry : unspentAt chain.utxoSet slash.a.ticketId with
    | none => simp
    | some utxo => exact ⟨unspentValue_spend chain.utxoSet slash.a.ticketId utxo entry, rfl⟩

theorem slashTickets_value (slashes : List SlashEvidence) (chain : Chain) :
    unspentValue (slashes.foldl Chain.slashTicket chain).utxoSet + burned chain slashes =
        unspentValue chain.utxoSet ∧
      (slashes.foldl Chain.slashTicket chain).totalSlashed.toNat =
        (chain.totalSlashed.toNat + burned chain slashes) % 2 ^ 64 := by
  induction slashes generalizing chain with
  | nil =>
    have bound := chain.totalSlashed.toNat_lt
    exact ⟨rfl, (Nat.mod_eq_of_lt bound).symm⟩
  | cons slash rest ih =>
    obtain ⟨single, total⟩ := slashTicket_value chain slash
    obtain ⟨others, totals⟩ := ih (chain.slashTicket slash)
    rw [List.foldl_cons, burned]
    refine ⟨by omega, ?_⟩
    rw [totals, total, UInt64.toNat_add, Nat.mod_add_mod, Nat.add_assoc]

/-- The fees of a block are no part of what burning reads. -/
theorem burned_fees (slashes : List SlashEvidence) (chain : Chain) (fees : UInt64) :
    burned { chain with totalFeesLastBlock := fees } slashes = burned chain slashes := by
  induction slashes generalizing chain with
  | nil => rfl
  | cons slash rest ih =>
    have moved : ({ chain with totalFeesLastBlock := fees } : Chain).slashTicket slash =
        { chain.slashTicket slash with totalFeesLastBlock := fees } := by
      unfold Chain.slashTicket
      dsimp only
      split <;> rfl
    rw [burned, moved, ih, burned]
    rfl

/-! ### Blocks -/

theorem mintedOf_toNat (coinbaseTotal fees : UInt64) :
    (mintedOf coinbaseTotal fees).toNat = coinbaseTotal.toNat - fees.toNat := by
  unfold mintedOf
  split
  · rename_i more
    exact UInt64.toNat_sub_of_le _ _ (UInt64.le_iff_toNat_le.mpr
      (Nat.le_of_lt (UInt64.lt_iff_toNat_lt.mp more)))
  · rename_i enough
    have le := Nat.le_of_not_lt (fun more => enough (UInt64.lt_iff_toNat_lt.mpr more))
    rw [UInt64.toNat_zero, Nat.sub_eq_zero_of_le le]

theorem fees_foldl (start : UInt64) (transactions : List Transaction) :
    (transactions.foldl (fun sum tx => sum + tx.fee) start).toNat =
      (start.toNat + feesValue transactions) % 2 ^ 64 := by
  induction transactions generalizing start with
  | nil => exact (Nat.mod_eq_of_lt start.toNat_lt).symm
  | cons tx rest ih =>
    rw [List.foldl_cons, ih, UInt64.toNat_add, Nat.mod_add_mod, Nat.add_assoc]
    rfl

/-- What a chain holds and has burned, against what it emitted. -/
structure Conserved (chain : Chain) : Prop where
  held : unspentValue chain.utxoSet + pooledIn chain.confirmed + chain.totalSlashed.toNat ≤
    chain.totalEmitted.toNat + pooledOut chain.confirmed
  capped : chain.totalEmitted.toNat ≤ chain.cfg.maxSupply.toNat

/-- The sums over a block, over exact integers: the fees, the coinbase outputs, the
pot that staker rewards are paid from, and the emission after the block. -/
structure SumsExact (chain : Chain) (block : Block) (coinbase : Transaction)
    (others : List Transaction) (reached : Chain) : Prop where
  transactions : block.transactions = coinbase :: others
  fees : (wrappingFees block.transactions).toNat = feesValue others
  claimed : outputsValue coinbase.outputs < 2 ^ 64
  pot : (chain.maxMintableAt block.header.height + wrappingFees block.transactions).toNat =
    (chain.maxMintableAt block.header.height).toNat + feesValue others
  emitted : reached.totalEmitted.toNat =
    chain.totalEmitted.toNat + (outputsValue coinbase.outputs - feesValue others)

/-- The tickets a block burns are taken from the state its transactions leave; their
amounts add to the burned total over exact integers. -/
def BurnsExact (P : Primitives) (chain : Chain) (block : Block) (reached : Chain) : Prop :=
  reached.totalSlashed.toNat = chain.totalSlashed.toNat +
    burned (each (applyNext P) (chain.entering block) block.transactions).2 block.slashes

/-- The members of a committed block that the sums read. -/
theorem committed_members (now : Time) (chain applied : Chain) (block : Block)
    (coinbase : Transaction) (others : List Transaction) (coinbaseTotal fees : UInt64)
    (bundles : List (Option Shielded.Bundle)) (jobs : List PqVerifyItem)
    (went : AcceptedBlock P now chain block coinbase others coinbaseTotal fees bundles jobs applied) :
    (committed applied block coinbaseTotal fees).cfg = chain.cfg ∧
      (committed applied block coinbaseTotal fees).totalEmitted =
        chain.totalEmitted + mintedOf coinbaseTotal fees ∧
      applied.totalSlashed = chain.totalSlashed := by
  have frame := applyLoop_frame P block.transactions (chain.entering block)
  rw [went.applied] at frame
  obtain ⟨cfg, _, emitted⟩ :=
    slashTickets_frame block.slashes { applied with totalFeesLastBlock := fees }
  refine ⟨cfg.trans frame.cfg, ?_, frame.totalSlashed⟩
  show (slashed applied block fees).totalEmitted + mintedOf coinbaseTotal fees = _
  rw [slashed, emitted]
  exact congrArg (· + mintedOf coinbaseTotal fees) frame.totalEmitted

/-- An accepted block emits exactly what its coinbase claims beyond the fees. -/
theorem sums_exact (now : Time) (chain applied : Chain) (block : Block)
    (coinbase : Transaction) (others : List Transaction) (coinbaseTotal fees : UInt64)
    (bundles : List (Option Shielded.Bundle)) (jobs : List PqVerifyItem)
    (capped : chain.totalEmitted.toNat ≤ chain.cfg.maxSupply.toNat)
    (went : AcceptedBlock P now chain block coinbase others coinbaseTotal fees bundles jobs applied) :
    SumsExact chain block coinbase others (committed applied block coinbaseTotal fees) := by
  have claim := went.valid.claim
  have feesBound := fees.toNat_lt
  have totalBound := coinbaseTotal.toNat_lt
  have capBound := chain.cfg.maxSupply.toNat_lt
  obtain ⟨_, emitted, _⟩ := committed_members now chain applied block coinbase others coinbaseTotal
    fees bundles jobs went
  have mintable : (chain.maxMintableAt block.header.height).toNat ≤
      (chain.computeBlockReward block.header.height).toNat ∧
      (chain.maxMintableAt block.header.height).toNat ≤
        chain.cfg.maxSupply.toNat - chain.totalEmitted.toNat := maxMintableSubsidy_le _ _ _ _ _ _
  have minted := claim.minted
  have summed : (wrappingFees block.transactions).toNat = feesValue others := by
    rw [wrappingFees, fees_foldl, went.valid.transactions, List.drop_one, List.tail_cons,
      UInt64.toNat_zero, Nat.zero_add, ← claim.feesTotal, Nat.mod_eq_of_lt feesBound]
  refine ⟨went.valid.transactions, summed, by rw [← claim.total]; exact totalBound, ?_, ?_⟩
  · have reward := claim.reward
    rw [UInt64.toNat_add, summed, ← claim.feesTotal]
    exact Nat.mod_eq_of_lt (by omega)
  · rw [emitted, UInt64.toNat_add, ← claim.total, ← claim.feesTotal, ← mintedOf_toNat]
    exact Nat.mod_eq_of_lt (by omega)

/-- What an accepted block does to the value held and burned. -/
theorem held_after (now : Time) (chain applied : Chain) (block : Block)
    (coinbase : Transaction) (others : List Transaction) (coinbaseTotal fees : UInt64)
    (bundles : List (Option Shielded.Bundle)) (jobs : List PqVerifyItem)
    (went : AcceptedBlock P now chain block coinbase others coinbaseTotal fees bundles jobs applied) :
    unspentValue (committed applied block coinbaseTotal fees).utxoSet + burned applied block.slashes +
        pooledIn block.transactions + fees.toNat ≤
      unspentValue chain.utxoSet + pooledOut block.transactions + coinbaseTotal.toNat ∧
    (committed applied block coinbaseTotal fees).totalSlashed.toNat =
      (chain.totalSlashed.toNat + burned applied block.slashes) % 2 ^ 64 := by
  have moved := unspentValue_block now chain applied block coinbase others coinbaseTotal fees bundles
    jobs went
  obtain ⟨_, _, before⟩ := committed_members now chain applied block coinbase others coinbaseTotal
    fees bundles jobs went
  obtain ⟨value, total⟩ :=
    slashTickets_value block.slashes { applied with totalFeesLastBlock := fees }
  rw [burned_fees] at value total
  have kept : unspentValue (committed applied block coinbaseTotal fees).utxoSet +
      burned applied block.slashes = unspentValue applied.utxoSet := value
  refine ⟨by omega, ?_⟩
  rw [← before]
  exact total

variable {cfg : ChainConfig} {chain : Chain} {condition : StepCondition}

theorem Grown.conserved (grown : Grown P condition cfg chain) : Conserved chain := by
  refine grown.carries Conserved ⟨?_, Nat.zero_le _⟩ ?_
  · exact Nat.zero_le _
  · intro now chain block reached _ before _ accepted
    have confirmed := addBlock_confirmed now chain reached block accepted
    obtain ⟨coinbase, others, coinbaseTotal, fees, bundles, jobs, applied, went, rfl⟩ :=
      addBlock_ok P now chain block reached accepted
    have exact := sums_exact now chain applied block coinbase others coinbaseTotal fees bundles jobs
      before.capped went
    obtain ⟨moved, total⟩ := held_after now chain applied block coinbase others coinbaseTotal fees
      bundles jobs went
    have emitted := exact.emitted
    rw [← went.valid.claim.total, ← went.valid.claim.feesTotal] at emitted
    have held := before.held
    have reduced := Nat.mod_le (chain.totalSlashed.toNat + burned applied block.slashes) (2 ^ 64)
    refine ⟨?_, ?_⟩
    · rw [confirmed, pooledIn_append, pooledOut_append, emitted, total]
      omega
    · have mintable : (chain.maxMintableAt block.header.height).toNat ≤
          chain.cfg.maxSupply.toNat - chain.totalEmitted.toNat := (maxMintableSubsidy_le _ _ _ _ _ _).2
      have minted := went.valid.claim.minted
      rw [mintedOf_toNat] at minted
      obtain ⟨cfg, _, _⟩ := committed_members now chain applied block coinbase others coinbaseTotal
        fees bundles jobs went
      have capped := before.capped
      rw [cfg, emitted]
      omega

/-- With a solvent pool the burned total is exact. -/
theorem Grown.burns {reached : Chain}
    (grown : Grown P condition cfg chain) (now : Time) (block : Block)
    (accepted : addBlock P now chain block = (.ok (), reached))
    (solvent : pooledOut reached.confirmed ≤ pooledIn reached.confirmed) :
    BurnsExact P chain block reached := by
  have before := grown.conserved
  have confirmed := addBlock_confirmed now chain reached block accepted
  rw [confirmed, pooledIn_append, pooledOut_append] at solvent
  obtain ⟨coinbase, others, coinbaseTotal, fees, bundles, jobs, applied, went, rfl⟩ :=
    addBlock_ok P now chain block reached accepted
  obtain ⟨moved, total⟩ := held_after now chain applied block coinbase others coinbaseTotal fees
    bundles jobs went
  have mintable : (chain.maxMintableAt block.header.height).toNat ≤
      chain.cfg.maxSupply.toNat - chain.totalEmitted.toNat := (maxMintableSubsidy_le _ _ _ _ _ _).2
  have minted := went.valid.claim.minted
  rw [mintedOf_toNat] at minted
  have held := before.held
  have capped := before.capped
  have capBound := chain.cfg.maxSupply.toNat_lt
  unfold BurnsExact
  rw [total, went.applied]
  exact Nat.mod_eq_of_lt (by omega)

/-- In every run the unspent outputs, the value in the pool and the burned tickets
stay within the emission, and the emission within the cap. In every accepted block
the sums of fees, coinbase, pot and emission are exact, and so is the burned total
when the linked libraries make the pool solvent. -/
theorem supply_conserved (P : Primitives) (cfg : ChainConfig) (chain : Chain)
    (reachable : Reachable P cfg chain) :
    (unspentValue chain.utxoSet : Int) + pooledIn chain.confirmed - pooledOut chain.confirmed +
        chain.totalSlashed.toNat ≤ chain.totalEmitted.toNat ∧
      chain.totalEmitted ≤ cfg.maxSupply ∧
      ∀ now block reached, addBlock P now chain block = (.ok (), reached) →
        (∃ coinbase others, SumsExact chain block coinbase others reached) ∧
          ∀ texts, PoolAssumptions P reached texts → BurnsExact P chain block reached := by
  have grown := reachable.grown
  have conserved := grown.conserved
  refine ⟨?_, ?_, ?_⟩
  · have held := conserved.held
    omega
  · rw [UInt64.le_iff_toNat_le, ← grown.idle.2]
    exact conserved.capped
  · intro now block reached accepted
    refine ⟨?_, ?_⟩
    · obtain ⟨coinbase, others, coinbaseTotal, fees, bundles, jobs, applied, went, rfl⟩ :=
        addBlock_ok P now chain block reached accepted
      exact ⟨coinbase, others, sums_exact now chain applied block coinbase others coinbaseTotal fees
        bundles jobs conserved.capped went⟩
    · intro texts assumed
      have extended : Grown P (fun _ _ _ => True) cfg reached :=
        .add now chain block reached grown trivial accepted
      exact grown.burns now block accepted (extended.solvent assumed)

/-- The supply before and in the block of the sample deposit. -/
theorem deposit_supply :
    depositTip.totalEmitted ≤ shieldedRegtest.maxSupply ∧
      BurnsExact depositPrimitives depositTip depositSecond deposited := by
  obtain ⟨_, capped, exact⟩ := supply_conserved depositPrimitives shieldedRegtest depositTip
    ((Reachable.start _ _).step epoch _ _ depositFirst_accepted)
  exact ⟨capped, (exact epoch depositSecond deposited depositSecond_accepted).2 _
    deposited_assumptions⟩

end Addition
