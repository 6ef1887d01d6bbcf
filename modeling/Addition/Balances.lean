import Addition.Sequential

/-!
# The balance index and the set of outputs

The index is kept up by a saturating decrement when an output is spent or burned
and by a checked increment when one is created. The decrement never saturates
while the index is exact, and the index stays exact as long as no output is
written over an entry that is still unspent. Nothing in the code rules that out
for a coinbase, whose contents and nonce are not tied to its height.
-/

namespace Addition

open ByteStrings Checked FiniteTables

variable (P : Primitives)

/-- The amount of an entry that is unspent and owned by an address. -/
def owned (address : Bytes) (_ : Bytes) (utxo : Utxo) : Nat :=
  if utxo.spent = false ∧ utxo.owner = address then utxo.amount.toNat else 0

/-- The balance of an address is the exact sum of its unspent outputs. -/
def AgreesAt (address : Bytes) (utxoSet : Table Bytes Utxo) (index : Table Bytes UInt64) : Prop :=
  (balanceIn index address).toNat = measure (owned address) utxoSet

/-- Every balance is the exact sum of the unspent outputs of its address. -/
def IndexAgrees (utxoSet : Table Bytes Utxo) (index : Table Bytes UInt64) : Prop :=
  ∀ address, AgreesAt address utxoSet index

/-! ### Single entries -/

/-- What spending an unspent entry does to the outputs of an address. -/
theorem measure_spend (address : Bytes) (utxoSet : Table Bytes Utxo) (key : Bytes) (utxo : Utxo)
    (found : unspentAt utxoSet key = some utxo) :
    measure (owned address) (utxoSet.insert key { utxo with spent := true }) +
        (if utxo.owner = address then utxo.amount.toNat else 0) =
      measure (owned address) utxoSet := by
  obtain ⟨entry, live⟩ := (unspentAt_some utxoSet key utxo).mp found
  have exchanged := measure_insert_found (owned address) utxoSet key utxo
    { utxo with spent := true } entry
  simpa [owned, live] using exchanged

/-- What creating an entry does to the outputs of an address. -/
theorem measure_create (address : Bytes) (utxoSet : Table Bytes Utxo) (key : Bytes) (utxo : Utxo)
    (live : utxo.spent = false) :
    measure (owned address) (utxoSet.insert key utxo) + weightAt (owned address) utxoSet key =
      measure (owned address) utxoSet +
        (if utxo.owner = address then utxo.amount.toNat else 0) := by
  have exchanged := measure_insert (owned address) utxoSet key utxo
  simpa [owned, live] using exchanged

theorem debit_toNat (index : Table Bytes UInt64) (owner : Bytes) (amount : UInt64)
    (address : Bytes) :
    (balanceIn (debit index owner amount) address).toNat =
      (balanceIn index address).toNat - (if owner = address then amount.toNat else 0) := by
  rw [debit, balanceIn_insert]
  by_cases same : address = owner
  · rw [if_pos same, if_pos same.symm, saturatingSub_toNat, same]
  · rw [if_neg same, if_neg (Ne.symm same), Nat.sub_zero]

theorem credit_toNat (index : Table Bytes UInt64) (owner : Bytes) (amount : UInt64)
    (address : Bytes) (room : (balanceIn index owner).toNat + amount.toNat < 2 ^ 64) :
    (balanceIn (index.insert owner (balanceIn index owner + amount)) address).toNat =
      (balanceIn index address).toNat + (if owner = address then amount.toNat else 0) := by
  rw [balanceIn_insert]
  by_cases same : address = owner
  · rw [if_pos same, if_pos same.symm, UInt64.toNat_add, Nat.mod_eq_of_lt room, same]
  · rw [if_neg same, if_neg (Ne.symm same), Nat.add_zero]

/-- Spending an unspent entry and debiting its owner keep the agreement. -/
theorem agreesAt_spend (address : Bytes) (utxoSet : Table Bytes Utxo) (index : Table Bytes UInt64)
    (key : Bytes) (utxo : Utxo) (found : unspentAt utxoSet key = some utxo)
    (agrees : AgreesAt address utxoSet index) :
    AgreesAt address (utxoSet.insert key { utxo with spent := true })
      (debit index utxo.owner utxo.amount) := by
  have exchanged := measure_spend address utxoSet key utxo found
  unfold AgreesAt at agrees ⊢
  rw [debit_toNat, agrees]
  omega

/-- An address has no unspent output under a key. -/
theorem weightAt_owned_zero (address : Bytes) (utxoSet : Table Bytes Utxo) (key : Bytes)
    (absent : ∀ utxo, unspentAt utxoSet key = some utxo → utxo.owner ≠ address) :
    weightAt (owned address) utxoSet key = 0 := by
  cases entry : utxoSet.lookup key with
  | none => exact weightAt_none _ _ _ entry
  | some before =>
    rw [weightAt_some _ _ _ before entry]
    unfold owned
    by_cases spent : before.spent = false
    · have other := absent before ((unspentAt_some _ _ _).mpr ⟨entry, spent⟩)
      simp [other]
    · simp [spent]

/-- Creating an entry over none of the address and crediting its owner keep the
agreement. -/
theorem agreesAt_create (address : Bytes) (utxoSet : Table Bytes Utxo) (index : Table Bytes UInt64)
    (key : Bytes) (utxo : Utxo)
    (absent : ∀ before, unspentAt utxoSet key = some before → before.owner ≠ address)
    (live : utxo.spent = false)
    (room : (balanceIn index utxo.owner).toNat + utxo.amount.toNat < 2 ^ 64)
    (agrees : AgreesAt address utxoSet index) :
    AgreesAt address (utxoSet.insert key utxo)
      (index.insert utxo.owner (balanceIn index utxo.owner + utxo.amount)) := by
  have exchanged := measure_create address utxoSet key utxo live
  rw [weightAt_owned_zero address utxoSet key absent, Nat.add_zero] at exchanged
  unfold AgreesAt at agrees ⊢
  rw [credit_toNat _ _ _ _ room, agrees, exchanged]

/-! ### Transactions -/

/-- No transaction of a list creates an output under a key that is unspent once
its own inputs are spent. -/
def NoOverwrite : (Bytes → Prop) → List Transaction → Prop
  | _, [] => True
  | unspent, tx :: rest =>
    (∀ key ∈ createdKeys P tx, unspent key → key ∈ tx.inputs.map TxInput.key) ∧
      NoOverwrite (keysAfter P tx unspent) rest

variable {P}

/-- Spending a list of inputs keeps the agreement. -/
theorem agreesAt_spendInputs (address : Bytes) (chain spent : Chain) (flag flag' : Bool)
    (inputs : List TxInput) (agrees : AgreesAt address chain.utxoSet chain.addressIndex)
    (loop : each spendInput (chain, flag) inputs = (.ok (), (spent, flag'))) :
    AgreesAt address spent.utxoSet spent.addressIndex := by
  refine each_induct spendInput
    (fun state _ => AgreesAt address state.1.utxoSet state.1.addressIndex) ?_ inputs (chain, flag)
    (spent, flag') agrees loop
  rintro ⟨state, flag⟩ input _ next holds step
  obtain ⟨utxo, found, rfl⟩ := (spendInput_ok state flag input next).mp step
  exact agreesAt_spend address state.utxoSet state.addressIndex input.key utxo found holds

/-- Creating outputs over none of the address keeps the agreement. -/
theorem agreesAt_createOutputs (address : Bytes) (tx : Transaction) (txid : Bytes)
    (unlocking : Bool) (chain created : Chain) (placed : List (TxOutput × Nat))
    (distinct : (placed.map Prod.snd).Nodup)
    (absent : ∀ output ∈ placed, ∀ utxo,
      unspentAt chain.utxoSet (outpointKey txid output.2) = some utxo → utxo.owner ≠ address)
    (agrees : AgreesAt address chain.utxoSet chain.addressIndex)
    (loop : each (createOutput tx txid unlocking) chain placed = (.ok (), created)) :
    AgreesAt address created.utxoSet created.addressIndex := by
  induction placed generalizing chain with
  | nil =>
    rw [each_nil_ok] at loop
    exact loop ▸ agrees
  | cons output rest ih =>
    obtain ⟨next, step, later⟩ := (each_cons_ok _ _ _ _ _).mp loop
    obtain ⟨room, rfl⟩ := (createOutput_ok tx txid unlocking chain output next).mp step
    simp only [List.map_cons, List.nodup_cons, List.mem_map, not_exists, not_and] at distinct
    refine ih _ distinct.2 ?_ ?_ later
    · intro other inside utxo held
      have different : outpointKey txid other.2 ≠ outpointKey txid output.2 :=
        fun same => distinct.1 other inside (outpointKey_injective _ _ _ _ same).2
      have before : unspentAt chain.utxoSet (outpointKey txid other.2) = some utxo := by
        unfold unspentAt at held ⊢
        rwa [lookup_insert, if_neg different] at held
      exact absent other (by simp [inside]) utxo before
    · exact agreesAt_create address chain.utxoSet chain.addressIndex (outpointKey txid output.2)
        (newUtxo chain unlocking output.1) (absent output (by simp)) rfl room agrees

/-- An applied transaction that overwrites nothing of an address keeps its
agreement. -/
theorem agreesAt_applyNext (address : Bytes) (chain reached : Chain) (tx : Transaction)
    (agrees : AgreesAt address chain.utxoSet chain.addressIndex)
    (fresh : ∀ key ∈ createdKeys P tx, ∀ utxo, unspentAt chain.utxoSet key = some utxo →
      utxo.owner = address → key ∈ tx.inputs.map TxInput.key)
    (step : applyNext P chain tx = (.ok (), reached)) :
    AgreesAt address reached.utxoSet reached.addressIndex := by
  obtain ⟨spent, unlocking, created, applied, inputs, outputs⟩ := applyNext_ok P chain tx reached step
  have afterInputs := agreesAt_spendInputs address chain spent false unlocking tx.inputs agrees inputs
  have absent : ∀ output ∈ tx.outputs.zipIdx, ∀ utxo,
      unspentAt spent.utxoSet (outpointKey (hashTransaction P tx) output.2) = some utxo →
        utxo.owner ≠ address := by
    intro output inside utxo held owner
    have present : spent.holds (outpointKey (hashTransaction P tx) output.2) := by
      simp [Chain.holds, held]
    obtain ⟨_, kept⟩ := (applied.inputs.holds _).mp present
    have before : unspentAt chain.utxoSet (outpointKey (hashTransaction P tx) output.2) =
        some utxo := by
      unfold unspentAt at held ⊢
      rwa [applied.inputs.others _ kept] at held
    exact kept (fresh _ (List.mem_map.mpr ⟨output, inside, rfl⟩) utxo before owner)
  have afterOutputs := agreesAt_createOutputs address tx _ unlocking spent created tx.outputs.zipIdx
    (zipIdx_positions tx.outputs) absent afterInputs outputs
  rw [applied.utxoSet.1, applied.utxoSet.2]
  exact afterOutputs

/-- An applied transaction that overwrites nothing keeps the agreement. -/
theorem agrees_applyNext (chain reached : Chain) (tx : Transaction)
    (agrees : IndexAgrees chain.utxoSet chain.addressIndex)
    (fresh : ∀ key ∈ createdKeys P tx, chain.holds key → key ∈ tx.inputs.map TxInput.key)
    (step : applyNext P chain tx = (.ok (), reached)) :
    IndexAgrees reached.utxoSet reached.addressIndex := by
  intro address
  refine agreesAt_applyNext address chain reached tx (agrees address) ?_ step
  intro key created utxo held _
  exact fresh key created (by simp [Chain.holds, held])

/-- The condition reads only which keys are unspent. -/
theorem noOverwrite_congr (transactions : List Transaction) (unspent unspent' : Bytes → Prop)
    (same : ∀ key, unspent key ↔ unspent' key) (holds : NoOverwrite P unspent transactions) :
    NoOverwrite P unspent' transactions := by
  have equal : unspent = unspent' := funext fun key => propext (same key)
  exact equal ▸ holds

/-! ### Blocks and runs -/

/-- Burning a ticket keeps the agreement. -/
theorem agreesAt_slashTicket (address : Bytes) (chain : Chain) (slash : SlashEvidence)
    (agrees : AgreesAt address chain.utxoSet chain.addressIndex) :
    AgreesAt address (chain.slashTicket slash).utxoSet (chain.slashTicket slash).addressIndex := by
  unfold Chain.slashTicket
  split
  · exact agrees
  · exact agrees
  · rename_i utxo _ found
    exact agreesAt_spend address chain.utxoSet chain.addressIndex slash.a.ticketId utxo found agrees

theorem agreesAt_slashTickets (address : Bytes) (slashes : List SlashEvidence) (chain : Chain)
    (agrees : AgreesAt address chain.utxoSet chain.addressIndex) :
    AgreesAt address (slashes.foldl Chain.slashTicket chain).utxoSet
      (slashes.foldl Chain.slashTicket chain).addressIndex := by
  induction slashes generalizing chain with
  | nil => exact agrees
  | cons slash rest ih =>
    exact ih (chain.slashTicket slash) (agreesAt_slashTicket address chain slash agrees)

/-! ### A bound that needs no condition -/

/-- The unspent outputs of an address sum to no more than its balance. -/
def CoversAt (address : Bytes) (utxoSet : Table Bytes Utxo) (index : Table Bytes UInt64) : Prop :=
  measure (owned address) utxoSet ≤ (balanceIn index address).toNat

theorem coversAt_spend (address : Bytes) (utxoSet : Table Bytes Utxo) (index : Table Bytes UInt64)
    (key : Bytes) (utxo : Utxo) (found : unspentAt utxoSet key = some utxo)
    (covers : CoversAt address utxoSet index) :
    CoversAt address (utxoSet.insert key { utxo with spent := true })
      (debit index utxo.owner utxo.amount) := by
  have exchanged := measure_spend address utxoSet key utxo found
  unfold CoversAt at covers ⊢
  rw [debit_toNat]
  omega

/-- Creating an entry covers it, whatever it is written over. -/
theorem coversAt_create (address : Bytes) (utxoSet : Table Bytes Utxo) (index : Table Bytes UInt64)
    (key : Bytes) (utxo : Utxo) (live : utxo.spent = false)
    (room : (balanceIn index utxo.owner).toNat + utxo.amount.toNat < 2 ^ 64)
    (covers : CoversAt address utxoSet index) :
    CoversAt address (utxoSet.insert key utxo)
      (index.insert utxo.owner (balanceIn index utxo.owner + utxo.amount)) := by
  have exchanged := measure_create address utxoSet key utxo live
  unfold CoversAt at covers ⊢
  rw [credit_toNat _ _ _ _ room]
  omega

theorem coversAt_applyNext (address : Bytes) (chain reached : Chain) (tx : Transaction)
    (covers : CoversAt address chain.utxoSet chain.addressIndex)
    (step : applyNext P chain tx = (.ok (), reached)) :
    CoversAt address reached.utxoSet reached.addressIndex := by
  obtain ⟨spent, unlocking, created, applied, inputs, outputs⟩ := applyNext_ok P chain tx reached step
  have afterInputs : CoversAt address spent.utxoSet spent.addressIndex := by
    refine each_induct spendInput
      (fun state _ => CoversAt address state.1.utxoSet state.1.addressIndex) ?_ tx.inputs
      (chain, false) (spent, unlocking) covers inputs
    rintro ⟨state, flag⟩ input _ next holds taken
    obtain ⟨utxo, found, rfl⟩ := (spendInput_ok state flag input next).mp taken
    exact coversAt_spend address state.utxoSet state.addressIndex input.key utxo found holds
  rw [applied.utxoSet.1, applied.utxoSet.2]
  refine each_induct (createOutput tx (hashTransaction P tx) unlocking)
    (fun state _ => CoversAt address state.utxoSet state.addressIndex) ?_ tx.outputs.zipIdx
    spent created afterInputs outputs
  intro state output _ next holds placed
  obtain ⟨room, rfl⟩ := (createOutput_ok _ _ _ _ _ _).mp placed
  exact coversAt_create address state.utxoSet state.addressIndex _
    (newUtxo state unlocking output.1) rfl room holds

theorem coversAt_slashTickets (address : Bytes) (slashes : List SlashEvidence) (chain : Chain)
    (covers : CoversAt address chain.utxoSet chain.addressIndex) :
    CoversAt address (slashes.foldl Chain.slashTicket chain).utxoSet
      (slashes.foldl Chain.slashTicket chain).addressIndex := by
  induction slashes generalizing chain with
  | nil => exact covers
  | cons slash rest ih =>
    refine ih (chain.slashTicket slash) ?_
    unfold Chain.slashTicket
    split
    · exact covers
    · exact covers
    · rename_i utxo _ found
      exact coversAt_spend address chain.utxoSet chain.addressIndex slash.a.ticketId utxo found covers

/-- In every run the balance of an address covers its unspent outputs. -/
theorem Grown.coversAt {condition : StepCondition} {cfg : ChainConfig} {chain : Chain}
    (grown : Grown P condition cfg chain) (address : Bytes) :
    CoversAt address chain.utxoSet chain.addressIndex := by
  refine grown.carries (fun chain => CoversAt address chain.utxoSet chain.addressIndex)
    (Nat.le_refl 0) ?_
  intro now chain block reached _ covers _ accepted
  obtain ⟨_, _, _, fees, _, _, applied, went, rfl⟩ := addBlock_ok P now chain block reached accepted
  have afterTransactions := each_induct (applyNext P)
    (fun state _ => CoversAt address state.utxoSet state.addressIndex)
    (fun state tx _ next holds step => coversAt_applyNext address state next tx holds step)
    block.transactions (chain.entering block) applied covers went.applied
  exact coversAt_slashTickets address block.slashes { applied with totalFeesLastBlock := fees }
    afterTransactions

/-! ### Runs without overwriting -/

/-- The application loop keeps the agreement while nothing is overwritten. -/
theorem agrees_applyLoop (transactions : List Transaction) (chain applied : Chain)
    (agrees : IndexAgrees chain.utxoSet chain.addressIndex)
    (fresh : NoOverwrite P chain.holds transactions)
    (loop : each (applyNext P) chain transactions = (.ok (), applied)) :
    IndexAgrees applied.utxoSet applied.addressIndex := by
  refine (each_induct (applyNext P) (fun state rest =>
    IndexAgrees state.utxoSet state.addressIndex ∧ NoOverwrite P state.holds rest) ?_ transactions
    chain applied ⟨agrees, fresh⟩ loop).1
  rintro state tx rest next ⟨holds, first, later⟩ step
  refine ⟨agrees_applyNext state next tx holds first step, ?_⟩
  obtain ⟨_, _, _, applied, _⟩ := applyNext_ok P state tx next step
  exact noOverwrite_congr rest _ _ (fun key => (applied.holds key).symm) later

/-- In every run whose accepted blocks write no output over an unspent one, every
balance is the exact sum of the unspent outputs of its address. -/
theorem balance_index_exact (P : Primitives) (cfg : ChainConfig) (chain : Chain)
    (reachable : ReachableWith P
      (fun _ chain block => NoOverwrite P chain.holds block.transactions) cfg chain)
    (address : Bytes) :
    (chain.balanceOf address).toNat = measure (owned address) chain.utxoSet := by
  have agrees : IndexAgrees chain.utxoSet chain.addressIndex := by
    refine reachable.grown.carries
      (fun chain => IndexAgrees chain.utxoSet chain.addressIndex) (fun _ => rfl) ?_
    intro now chain block reached _ holds fresh accepted
    obtain ⟨_, _, _, fees, _, _, applied, went, rfl⟩ :=
      addBlock_ok P now chain block reached accepted
    have afterTransactions := agrees_applyLoop block.transactions (chain.entering block) applied
      holds fresh went.applied
    exact fun address => agreesAt_slashTickets address block.slashes
      { applied with totalFeesLastBlock := fees } (afterTransactions address)
  exact agrees address

/-- A list of transactions whose outputs have keys of their own, none of them unspent
before, writes over nothing. -/
theorem noOverwrite_fresh (transactions : List Transaction) (unspent : Bytes → Prop)
    (distinct : (transactions.flatMap (createdKeys P)).Nodup)
    (new : ∀ key ∈ transactions.flatMap (createdKeys P), ¬ unspent key) :
    NoOverwrite P unspent transactions := by
  induction transactions generalizing unspent with
  | nil => trivial
  | cons tx rest ih =>
    rw [List.flatMap_cons] at distinct new
    obtain ⟨_, later, apart⟩ := List.nodup_append.mp distinct
    refine ⟨fun key created held => absurd held (new key (by simp [created])), ?_⟩
    refine ih _ later fun key created held => ?_
    rcases held with own | ⟨before, _⟩
    · exact apart key own key created rfl
    · exact new key (List.mem_append_right _ created) before

set_option maxRecDepth 100000 in
theorem scriptBlocks_fresh :
    (scriptFirst.transactions.flatMap (createdKeys samplePrimitives)).Nodup ∧
      (scriptSecond.transactions.flatMap (createdKeys samplePrimitives)).Nodup ∧
      ∀ key ∈ scriptSecond.transactions.flatMap (createdKeys samplePrimitives),
        scriptTip.utxoSet.lookup key = none := by
  decide +kernel

/-- The script is paid and spent from, and no block writes over an unspent output. -/
theorem scriptSpent_reachable :
    ReachableWith samplePrimitives
      (fun _ chain block => NoOverwrite samplePrimitives chain.holds block.transactions)
      regtestChainConfig scriptSpent := by
  obtain ⟨distinct, distinct', new⟩ := scriptBlocks_fresh
  have first : ReachableWith samplePrimitives
      (fun _ chain block => NoOverwrite samplePrimitives chain.holds block.transactions)
      regtestChainConfig scriptTip := by
    refine ReachableWith.new.step epoch scriptFirst scriptTip ?_ scriptFirst_accepted
    exact noOverwrite_fresh _ _ distinct fun key _ held => by
      simp [Chain.holds, unspentAt, Chain.new] at held
  refine first.step epoch scriptSecond scriptSpent ?_ scriptSecond_accepted
  exact noOverwrite_fresh _ _ distinct' fun key created held => by
    simp [Chain.holds, unspentAt, new key created] at held

/-- After a script was paid and spent from, the balances of the script, of the miner and of
the payee are the sums of their outputs. -/
theorem script_balance_exact :
    (scriptSpent.balanceOf (Script.scriptAddress samplePrimitives openScript)).toNat =
        measure (owned (Script.scriptAddress samplePrimitives openScript)) scriptSpent.utxoSet ∧
      (scriptSpent.balanceOf (ascii "miner")).toNat =
        measure (owned (ascii "miner")) scriptSpent.utxoSet ∧
      (scriptSpent.balanceOf (ascii "payee")).toNat =
        measure (owned (ascii "payee")) scriptSpent.utxoSet :=
  have exact := balance_index_exact samplePrimitives regtestChainConfig scriptSpent scriptSpent_reachable
  ⟨exact _, exact _, exact _⟩

/-- No hash functions save the plain statement: after the same coinbase was mined
twice the index says a hundred where the outputs say fifty. -/
theorem balance_index_drifts :
    ¬ ∃ P : Primitives, ∀ chain, Reachable P regtestChainConfig chain → ∀ address,
      (chain.balanceOf address).toNat = measure (owned address) chain.utxoSet := by
  rintro ⟨P, exact⟩
  obtain ⟨_, _, chain, height, reachable, _, _, _, utxoSet, balance⟩ :=
    coinbase_mined_twice P ⟨0, by decide⟩
  have claimed := exact chain reachable (ascii "miner")
  have exchanged := measure_insert_found (owned (ascii "miner"))
    (AList.insert (outpointKey (hashTransaction P minerCoinbase) 0)
      ⟨ascii "miner", 50, false, 0, 1⟩ ∅)
    (outpointKey (hashTransaction P minerCoinbase) 0) _ ⟨ascii "miner", 50, false, 0, height⟩
    (AList.lookup_insert _)
  have first := measure_insert (owned (ascii "miner")) ∅
    (outpointKey (hashTransaction P minerCoinbase) 0) ⟨ascii "miner", 50, false, 0, 1⟩
  have empty : weightAt (owned (ascii "miner")) ∅
      (outpointKey (hashTransaction P minerCoinbase) 0) = 0 :=
    weightAt_none _ _ _ (AList.lookup_empty _)
  rw [balance, utxoSet] at claimed
  simp only [owned, and_self, ↓reduceIte, UInt64.reduceToNat, measure_empty] at exchanged first
  simp only [UInt64.reduceToNat] at claimed
  omega

end Addition
