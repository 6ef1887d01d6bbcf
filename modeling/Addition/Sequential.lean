import Addition.CoinbaseBlocks

/-!
# Batch validation and one-by-one validation

`add_block` checks signatures and proofs once, against the state before the
block, and applies transactions with those checks turned off. The key that the
batch uses for a signer comes from an overlay on the registry; at the state a
transaction is applied on, the registry itself holds the same key, because both
keep the first key of an address. Proofs do not depend on the state. So each
transaction of an accepted block passes the full validation where it is applied.
-/

namespace Addition

open ByteStrings Checked FiniteTables

variable (P : Primitives)

/-! ### The registry and its overlay -/

/-- A registry holds what an overlay on an earlier registry holds. -/
def Overlays (current overlay registry : Table Bytes Bytes) : Prop :=
  ∀ address, current.lookup address = (overlay.lookup address).or (registry.lookup address)

/-- Under an overlay the two ways to find a signer's key agree. -/
theorem resolveSignerPubkey_overlay (current overlay registry : Table Bytes Bytes)
    (tx : Transaction) (overlays : Overlays current overlay registry) :
    resolveSignerPubkey P current ∅ tx = resolveSignerPubkey P registry overlay tx := by
  unfold resolveSignerPubkey
  rw [overlays tx.signer]
  split
  · rfl
  · cases overlay.lookup tx.signer <;> cases registry.lookup tx.signer <;> simp

/-- Recording a signer and updating the overlay keep the two in step. -/
theorem recordSigner_overlays (chain : Chain) (overlay registry : Table Bytes Bytes)
    (tx : Transaction) (signed : tx.signer ≠ [])
    (overlays : Overlays chain.pubkeyRegistry overlay registry) :
    Overlays (chain.recordSigner tx).pubkeyRegistry (overlayAfter registry overlay tx) registry := by
  intro address
  have before := overlays address
  have atSigner := overlays tx.signer
  rw [recordSigner_registry]
  unfold overlayAfter
  by_cases noInputs : tx.inputs = []
  · simpa [noInputs] using before
  · by_cases noPubkey : tx.signerPubkey = []
    · simpa [noInputs, noPubkey] using before
    · cases known : registry.lookup tx.signer with
      | some pubkey =>
        -- the address is registered already: neither side takes the new key
        have present : (chain.pubkeyRegistry.lookup tx.signer).isSome = true := by
          rw [atSigner, known]
          cases overlay.lookup tx.signer <;> rfl
        simpa [noInputs, noPubkey, signed, emplace, present] using before
      | none =>
        by_cases same : address = tx.signer
        · subst same
          simp [noInputs, noPubkey, signed, lookup_emplace, before, known]
        · simp [noInputs, noPubkey, signed, lookup_emplace, before, same]

/-- An applied transaction registers what its signer part registers. -/
theorem applyNext_registry (chain reached : Chain) (tx : Transaction)
    (applied : applyNext P chain tx = (.ok (), reached)) :
    reached.pubkeyRegistry = (chain.recordSigner tx).pubkeyRegistry := by
  obtain ⟨_, _, _, parts, _⟩ := applyNext_ok P chain tx reached applied
  exact parts.members.pubkeyRegistry

/-- Whether the batch has a signature job for a transaction. -/
def hasJob (tx : Transaction) : Bool :=
  !(tx.inputs.isEmpty && !tx.shielded.isEmpty) &&
    !(tx.signer.isEmpty && tx.signature.isEmpty && tx.signerPubkey.isEmpty)

/-- The overlay at the position of a transaction without a job does not change, and
the application registers nothing for it either. -/
theorem recordSigner_without_job (chain : Chain) (tx : Transaction) (without : hasJob tx = false) :
    chain.recordSigner tx = chain := by
  unfold Chain.recordSigner
  rw [if_pos]
  unfold hasJob at without
  cases empty : tx.inputs.isEmpty <;> cases unsigned : tx.signer.isEmpty <;> simp_all

theorem signatureJobs_cons (registry overlay : Table Bytes Bytes) (tx : Transaction)
    (rest : List Transaction) (jobs : List PqVerifyItem)
    (listed : signatureJobs P registry overlay (tx :: rest) = .ok jobs) :
    (hasJob tx = false ∧ signatureJobs P registry overlay rest = .ok jobs) ∨
    (hasJob tx = true ∧ tx.signer ≠ [] ∧ ∃ pubkey later,
      resolveSignerPubkey P registry overlay tx = .ok pubkey ∧
      signatureJobs P registry (overlayAfter registry overlay tx) rest = .ok later ∧
      jobs = ⟨pubkey, signedMessage P tx, tx.signature⟩ :: later) := by
  unfold signatureJobs at listed
  split at listed
  · rename_i lone
    exact .inl ⟨by simp [hasJob, lone], listed⟩
  · rename_i spending
    split at listed
    · rename_i script
      exact .inl ⟨by simp [hasJob, script], listed⟩
    · rename_i signing
      right
      simp only [bind_ok, exists_unit, ensure_ok, pure_ok, Bool.and_eq_true, Bool.not_eq_true',
        List.isEmpty_eq_false_iff] at listed
      obtain ⟨⟨signed, _⟩, pubkey, resolved, later, rest, rfl⟩ := listed
      refine ⟨?_, signed, pubkey, later, resolved, rest, rfl⟩
      simp only [Bool.not_eq_true] at spending signing
      simp [hasJob, spending, signing]

/-- The batch accepts exactly when every signature verifies. -/
theorem pqVerifyMessagesParallel_ok (items : List PqVerifyItem)
    (accepted : pqVerifyMessagesParallel P items = .ok ()) (item : PqVerifyItem)
    (member : item ∈ items) :
    verifyMessageSignatureHybridUncached P item.publicKeyHex item.message item.signature = true := by
  unfold pqVerifyMessagesParallel at accepted
  split at accepted
  · rename_i none
    simpa using List.findIdx?_eq_none_iff.mp none item member
  · simp at accepted

/-- At the state a transaction is applied on, the registry gives the key that the
batch used, and the signature verifies with it. -/
theorem job_at_application (registry overlay : Table Bytes Bytes) (chain middle : Chain)
    (before after : List Transaction) (tx : Transaction) (jobs : List PqVerifyItem)
    (overlays : Overlays chain.pubkeyRegistry overlay registry)
    (listed : signatureJobs P registry overlay (before ++ tx :: after) = .ok jobs)
    (verified : ∀ job ∈ jobs,
      verifyMessageSignatureHybridUncached P job.publicKeyHex job.message job.signature = true)
    (applied : each (applyNext P) chain before = (.ok (), middle)) (job : hasJob tx = true) :
    ∃ pubkey, resolveSignerPubkey P middle.pubkeyRegistry ∅ tx = .ok pubkey ∧
      verifyMessageSignatureHybridUncached P pubkey (signedMessage P tx) tx.signature = true := by
  induction before generalizing chain overlay jobs with
  | nil =>
    rw [each_nil_ok] at applied
    subst applied
    rcases signatureJobs_cons P registry overlay tx after jobs listed with
      ⟨without, _⟩ | ⟨_, _, pubkey, later, resolved, _, rfl⟩
    · simp [without] at job
    · refine ⟨pubkey, ?_, verified ⟨pubkey, signedMessage P tx, tx.signature⟩ (by simp)⟩
      rw [resolveSignerPubkey_overlay P _ overlay registry tx overlays, resolved]
  | cons earlier rest ih =>
    obtain ⟨reached, first, loop⟩ := (each_cons_ok _ _ _ _ _).mp applied
    have registered := applyNext_registry P chain reached earlier first
    rcases signatureJobs_cons P registry overlay earlier (rest ++ tx :: after) jobs listed with
      ⟨without, listed'⟩ | ⟨_, signed, pubkey, later, _, listed', rfl⟩
    · rw [recordSigner_without_job chain earlier without] at registered
      exact ih overlay reached jobs (registered ▸ overlays) listed' verified loop
    · have overlays' := recordSigner_overlays chain overlay registry earlier signed overlays
      rw [← registered] at overlays'
      exact ih (overlayAfter registry overlay earlier) reached later overlays'
        listed' (fun item member => verified item (by simp [member])) loop

/-! ### Proofs -/

/-- The shielded pass decodes the bundle of each transaction, in place. -/
theorem shieldedPass_bundle (chain : Chain) (blockNfs blockCms : Finset Bytes)
    (transactions : List Transaction) (bundles : List (Option Shielded.Bundle)) (tx : Transaction)
    (passed : shieldedPass P chain blockNfs blockCms transactions = .ok bundles)
    (member : tx ∈ transactions) (carries : tx.shielded ≠ []) :
    ∃ bundle, Shielded.fromTxField tx.shielded = .ok bundle ∧
      (tx, some bundle) ∈ transactions.zip bundles := by
  induction transactions generalizing blockNfs blockCms bundles with
  | nil => simp at member
  | cons first rest ih =>
    unfold shieldedPass at passed
    by_cases transparent : first.shielded = []
    · simp only [transparent, List.isEmpty_nil, ↓reduceIte, bind_ok, pure_ok] at passed
      obtain ⟨later, rest', rfl⟩ := passed
      rcases List.mem_cons.mp member with rfl | inside
      · exact absurd transparent carries
      · obtain ⟨bundle, decoded, found⟩ := ih _ _ later rest' inside
        exact ⟨bundle, decoded, by simp [found]⟩
    · simp only [List.isEmpty_iff, transparent, ↓reduceIte, bind_ok, pure_ok] at passed
      obtain ⟨bundle, part, cms, _, later, rest', rfl⟩ := passed
      obtain ⟨_, decoded, _⟩ := (validateShieldedPart_ok P chain first blockNfs false bundle).mp part
      rcases List.mem_cons.mp member with rfl | inside
      · exact ⟨bundle, decoded, by simp⟩
      · obtain ⟨bundle', decoded', found⟩ := ih _ _ later rest' inside
        exact ⟨bundle', decoded', by simp [found]⟩

/-! ### Full validation -/

/-- The checks that `check_signature` adds are the proof of the bundle and the
signature of the signer. -/
theorem validateTransaction_full (chain : Chain) (tx : Transaction)
    (valid : validateTransaction P chain tx false = .ok ())
    (proof : ∀ bundle, tx.shielded ≠ [] → Shielded.fromTxField tx.shielded = .ok bundle →
      Shielded.verifyBundleProof P tx bundle = .ok ())
    (signature : tx.inputs ≠ [] → tx.signer ≠ [] → ∃ pubkey,
      resolveSignerPubkey P chain.pubkeyRegistry ∅ tx = .ok pubkey ∧
      verifyMessageSignatureHybridUncached P pubkey (signedMessage P tx) tx.signature = true) :
    validateTransaction P chain tx true = .ok () := by
  simp only [validateTransaction, bind_ok, exists_unit] at valid ⊢
  obtain ⟨bundle, carried, hasOutputs, outputsTotal, summed, rule⟩ := valid
  refine ⟨bundle, ?_, hasOutputs, outputsTotal, summed, ?_⟩
  · rw [shieldedBundle_ok] at carried ⊢
    refine carried.imp id ?_
    rintro ⟨carries, decoded, rfl, passed⟩
    refine ⟨carries, decoded, rfl, ?_⟩
    rw [validateShieldedPart_ok] at passed ⊢
    obtain ⟨enabled, field, lone, checked, _⟩ := passed
    exact ⟨enabled, field, lone, checked, fun _ => proof decoded carries field⟩
  · by_cases noInputs : tx.inputs = []
    · simpa only [noInputs, List.isEmpty_nil, ↓reduceIte] using rule
    · simp only [List.isEmpty_iff, noInputs, ↓reduceIte, validateSpend, bind_ok, exists_unit]
        at rule ⊢
      obtain ⟨fee, authority, values⟩ := rule
      refine ⟨fee, ?_, values⟩
      unfold validateAuthority at authority ⊢
      by_cases script : tx.signer = []
      · simpa only [script, List.isEmpty_nil, ↓reduceIte] using authority
      · simp only [List.isEmpty_iff, script, ↓reduceIte, bind_ok, exists_unit,
          validateTransactionSignature, onlyIf_ok, Bool.false_eq_true, false_implies] at authority ⊢
        obtain ⟨witnesses, ⟨scheme, named, signed, pubkey, resolved, controlled, _⟩, nonce⟩ :=
          authority
        obtain ⟨pubkey', resolved', verified⟩ := signature noInputs script
        have same : pubkey = pubkey' := by
          rw [resolved] at resolved'
          exact Except.ok.inj resolved'
        refine ⟨witnesses, ⟨scheme, named, signed, pubkey, resolved, controlled, ?_⟩, nonce⟩
        intro _
        rw [ensure_ok, same]
        exact verified

/-- Each transaction after the coinbase of an accepted block passes the full
validation, signature and proof included, at the state it is applied on. -/
theorem batch_agrees_with_sequential (now : Time) (chain : Chain) (block : Block) (reached : Chain)
    (accepted : addBlock P now chain block = (.ok (), reached))
    (before after : List Transaction) (tx : Transaction)
    (position : block.transactions = before ++ tx :: after) (notCoinbase : before ≠ []) :
    ∃ middle, each (applyNext P) (chain.entering block) before = (.ok (), middle) ∧
      validateTransaction P middle tx true = .ok () := by
  obtain ⟨coinbase, others, _, _, bundles, jobs, applied, went, _⟩ :=
    addBlock_ok P now chain block reached accepted
  obtain ⟨before', rfl⟩ : ∃ rest, before = coinbase :: rest := by
    cases before with
    | nil => exact absurd rfl notCoinbase
    | cons first rest =>
      have head := went.valid.transactions.symm.trans position
      exact ⟨rest, by rw [(List.cons.inj head).1]⟩
  have tail : others = before' ++ tx :: after :=
    (List.cons.inj (went.valid.transactions.symm.trans position)).2
  have loop := went.applied
  rw [position] at loop
  obtain ⟨middle, front, later⟩ := (each_append_ok _ _ _ _ _).mp loop
  obtain ⟨next, last, _⟩ := (each_cons_ok _ _ _ _ _).mp later
  refine ⟨middle, front, ?_⟩
  obtain ⟨_, _, _, valid, _⟩ := applyTransaction_ok P middle tx _ false next last
  refine validateTransaction_full P middle tx valid ?_ ?_
  · intro bundle carries decoded
    obtain ⟨bundle', decoded', member⟩ := shieldedPass_bundle P chain ∅ ∅ others bundles tx
      went.valid.shielded (by simp [tail]) carries
    have same : bundle' = bundle := Except.ok.inj (decoded'.symm.trans decoded)
    have proved := went.valid.proofs _ member
    rwa [checkProof, same] at proved
  · intro hasInputs signed
    obtain ⟨started, first, rest⟩ := (each_cons_ok _ _ _ _ _).mp front
    -- the coinbase registers no key, so the overlay starts empty
    have registered := applyNext_registry P _ started coinbase first
    rw [recordSigner_registry, if_pos (.inl went.valid.claim.noInputs)] at registered
    have overlays : Overlays started.pubkeyRegistry ∅ chain.pubkeyRegistry := by
      intro address
      rw [registered]
      simp [Chain.entering]
    have job : hasJob tx = true := by
      simp [hasJob, hasInputs, signed]
    exact job_at_application P chain.pubkeyRegistry ∅ started middle before' after tx jobs overlays
      (tail ▸ went.valid.listed) (pqVerifyMessagesParallel_ok P jobs went.valid.signatures) rest job

/-! ### A run with a script spend -/

/-- A script that holds at every height. -/
def openScript : Bytes := ascii "after(0)"

/-- A coinbase to that script. -/
def scriptCoinbase : Transaction :=
  coinbaseOf [⟨Script.scriptAddress samplePrimitives openScript, 50⟩] 0

/-- A spend of that coinbase by its script. -/
def scriptSpend : Transaction :=
  ⟨[⟨hashTransaction samplePrimitives scriptCoinbase, 0, ascii "after(0);0;0;"⟩],
    [⟨ascii "payee", 49⟩], [], [], [], 1, 0, []⟩

/-- A clock that shows zero. -/
def epoch : Time := ⟨0, by decide⟩

/-- The state that one more block leaves. -/
def stateAfter (P : Primitives) (chain : Chain) (block : Block) : Chain :=
  (addBlock P epoch chain block).2

theorem stateAfter_accepted {P : Primitives} {chain : Chain} {block : Block}
    (accepted : (addBlock P epoch chain block).1.isOk = true) :
    addBlock P epoch chain block = (.ok (), stateAfter P chain block) :=
  accepted_of_isOk accepted

/-- The block that pays the script. -/
def scriptFirst : Block :=
  blockOn samplePrimitives (Chain.new samplePrimitives regtestChainConfig) [scriptCoinbase]

/-- The state after the coinbase to the script. -/
def scriptTip : Chain :=
  stateAfter samplePrimitives (Chain.new samplePrimitives regtestChainConfig) scriptFirst

/-- The block that spends from it. -/
def scriptSecond : Block :=
  blockOn samplePrimitives scriptTip [coinbaseOf [⟨ascii "miner", 50⟩] 1, scriptSpend]

/-- The state after the spend. -/
def scriptSpent : Chain := stateAfter samplePrimitives scriptTip scriptSecond

theorem scriptFirst_accepted :
    addBlock samplePrimitives epoch (Chain.new samplePrimitives regtestChainConfig) scriptFirst =
      (.ok (), scriptTip) :=
  stateAfter_accepted (by decide +kernel)

theorem scriptSecond_accepted :
    addBlock samplePrimitives epoch scriptTip scriptSecond = (.ok (), scriptSpent) :=
  stateAfter_accepted (by decide +kernel)

/-! ### Calls that are refused midway -/

/-- A spend of what the script spend pays, by nobody's authority. -/
def unauthorizedSpend : Transaction :=
  ⟨[⟨hashTransaction samplePrimitives scriptSpend, 0, []⟩], [⟨ascii "thief", 48⟩], [], [], [], 1, 0, []⟩

/-- The second block with that spend at its end. Its values add up and nothing in it is
signed, so only its application finds the missing authority. -/
def unauthorizedSecond : Block :=
  blockOn samplePrimitives scriptTip
    [coinbaseOf [⟨ascii "miner", 50⟩] 1, scriptSpend, unauthorizedSpend]

/-- The first blocks of the run, as a candidate chain begins. -/
def scriptFront : List Block :=
  [makeGenesis samplePrimitives regtestChainConfig kRegtestMinDifficultyTarget, scriptFirst]

/-- The block passes validation and its first two transactions are applied, the spend
among them; a replay of the candidate chain accepts the block before it. -/
theorem unauthorized_evaluated :
    (validateBlock samplePrimitives epoch scriptTip unauthorizedSecond).isOk = true ∧
      (each (applyNext samplePrimitives) (scriptTip.entering unauthorizedSecond)
        [coinbaseOf [⟨ascii "miner", 50⟩] 1, scriptSpend]).1.isOk = true ∧
      (addBlock samplePrimitives epoch scriptTip unauthorizedSecond).1.isOk = false ∧
      (replay samplePrimitives (fun _ => epoch) 1 (scriptSpent.reset samplePrimitives)
        scriptFront.tail).1.isOk = true ∧
      (replaceWithChain samplePrimitives (fun _ => epoch) scriptSpent
        (scriptFront ++ [unauthorizedSecond])).1.isOk = false ∧
      (replaceWithChain samplePrimitives (fun _ => epoch) scriptSpent scriptFront).1.isOk = false := by
  decide +kernel

theorem refused_of_isOk {outcome : Except String Unit × Chain} (refused : outcome.1.isOk = false) :
    ∃ refusal, outcome = (.error refusal, outcome.2) := by
  obtain ⟨verdict, reached⟩ := outcome
  cases verdict with
  | error refusal => exact ⟨refusal, rfl⟩
  | ok _ => simp [Except.isOk, Except.toBool] at refused

/-- A validated block whose last transaction is refused after the others were applied, a
candidate chain whose last block is refused after the first was replayed, and one of less
work leave the state as it was. -/
theorem unauthorized_calls_unchanged :
    ((validateBlock samplePrimitives epoch scriptTip unauthorizedSecond).isOk = true ∧
        (addBlock samplePrimitives epoch scriptTip unauthorizedSecond).1.isOk = false ∧
        (addBlock samplePrimitives epoch scriptTip unauthorizedSecond).2 = scriptTip) ∧
      ((replaceWithChain samplePrimitives (fun _ => epoch) scriptSpent
          (scriptFront ++ [unauthorizedSecond])).1.isOk = false ∧
        (replaceWithChain samplePrimitives (fun _ => epoch) scriptSpent
          (scriptFront ++ [unauthorizedSecond])).2 = scriptSpent) ∧
      (replaceWithChain samplePrimitives (fun _ => epoch) scriptSpent scriptFront).1.isOk = false ∧
        (replaceWithChain samplePrimitives (fun _ => epoch) scriptSpent scriptFront).2 =
          scriptSpent := by
  have first : Reachable samplePrimitives regtestChainConfig scriptTip :=
    (Reachable.start _ _).step epoch _ _ scriptFirst_accepted
  have second : Reachable samplePrimitives regtestChainConfig scriptSpent :=
    first.step epoch _ _ scriptSecond_accepted
  obtain ⟨valid, _, block, _, candidate, shorter⟩ := unauthorized_evaluated
  obtain ⟨_, refused⟩ := refused_of_isOk block
  obtain ⟨_, refused'⟩ := refused_of_isOk candidate
  obtain ⟨_, refused''⟩ := refused_of_isOk shorter
  have tip := refused_calls_change_nothing samplePrimitives regtestChainConfig scriptTip first
  have spent := refused_calls_change_nothing samplePrimitives regtestChainConfig scriptSpent second
  exact ⟨⟨valid, block, tip.1 _ _ _ _ refused⟩, ⟨candidate, spent.2 _ _ _ _ refused'⟩, shorter,
    spent.2 _ _ _ _ refused''⟩

end Addition
