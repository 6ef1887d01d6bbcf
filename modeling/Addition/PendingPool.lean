import Addition.NodeRuns
import Addition.Outpoints

/-!
# The pending pool against the chain

A transaction enters the pool after it was validated on the tip, and a block that extends
the chain takes out what it confirms and what it conflicts with. So the pool stays clear
of the chain as long as nothing else changes either of them. A reorganization changes the
chain and leaves the pool alone, and so does a block that is mined while others submit.
-/

namespace Addition

open ByteStrings Checked FiniteTables KeyIndexes Runs

variable {P : Primitives}

/-- A transaction is not a confirmed one and spends nothing that it spends. -/
structure Clear (tx done : Transaction) : Prop where
  different : tx ≠ done
  outpoints : ∀ input ∈ tx.inputs, ∀ input' ∈ done.inputs, input.key ≠ input'.key
  nullifiers : ∀ key ∈ nullifierKeys tx, key ∉ nullifierKeys done
  nonces : tx.signer ≠ [] → done.signer = tx.signer → tx.nonce ≠ done.nonce

/-! ### Validated transactions -/

/-- A transaction that passes with its signature and its proof passes without them. -/
theorem validateTransaction_weaken (chain : Chain) (tx : Transaction)
    (valid : validateTransaction P chain tx true = .ok ()) :
    validateTransaction P chain tx false = .ok () := by
  simp only [validateTransaction, bind_ok, exists_unit] at valid ⊢
  obtain ⟨bundle, carried, hasOutputs, outputsTotal, summed, rule⟩ := valid
  refine ⟨bundle, ?_, hasOutputs, outputsTotal, summed, ?_⟩
  · rw [shieldedBundle_ok] at carried ⊢
    refine carried.imp id ?_
    rintro ⟨carries, decoded, rfl, passed⟩
    refine ⟨carries, decoded, rfl, ?_⟩
    rw [validateShieldedPart_ok] at passed ⊢
    obtain ⟨enabled, field, lone, checked, _⟩ := passed
    exact ⟨enabled, field, lone, checked, by simp⟩
  · by_cases noInputs : tx.inputs = []
    · simpa only [noInputs, List.isEmpty_nil, ↓reduceIte] using rule
    · simp only [List.isEmpty_iff, noInputs, ↓reduceIte, validateSpend, bind_ok, exists_unit]
        at rule ⊢
      obtain ⟨fee, authority, values⟩ := rule
      refine ⟨fee, ?_, values⟩
      unfold validateAuthority at authority ⊢
      by_cases script : tx.signer = []
      · simpa only [script, List.isEmpty_nil, ↓reduceIte] using authority
      · simp only [List.isEmpty_iff, script, ↓reduceIte, bind_ok, exists_unit,
          validateTransactionSignature, onlyIf_ok, Bool.false_eq_true, false_implies] at authority ⊢
        obtain ⟨witnesses, ⟨scheme, named, signed, pubkey, resolved, controlled, _⟩, nonce⟩ :=
          authority
        exact ⟨witnesses, ⟨scheme, named, signed, pubkey, resolved, controlled, trivial⟩, nonce⟩

/-- The inputs that were summed are unspent. -/
theorem sumInputs_holds (chain : Chain) (seen : Finset Bytes) (total result : UInt64)
    (inputs : List TxInput) (summed : sumInputs chain seen total inputs = .ok result) :
    ∀ input ∈ inputs, chain.holds input.key := by
  induction inputs generalizing seen total with
  | nil => simp
  | cons input rest ih =>
    simp only [sumInputs, bind_ok, exists_unit, ensure_ok] at summed
    obtain ⟨_, summed⟩ := summed
    cases found : unspentAt chain.utxoSet input.key with
    | none => simp [found] at summed
    | some utxo =>
      rw [found] at summed
      simp only [bind_ok, exists_unit, ensure_ok] at summed
      obtain ⟨_, next, _, later⟩ := summed
      intro other member
      rcases List.mem_cons.mp member with rfl | inside
      · simp [Chain.holds, found]
      · exact ih _ _ later other inside

/-- The nullifier keys of a transaction are those of its bundle. -/
theorem mem_nullifierKeys (tx : Transaction) (key : Bytes) (member : key ∈ nullifierKeys tx) :
    ∃ bundle, bundleOf tx = some bundle ∧
      ∃ nullifier ∈ bundle.nullifiers, key = ascii "nf:" ++ Shielded.hex32 nullifier := by
  unfold nullifierKeys shieldedNullifierKeys at member
  split at member
  · simp at member
  · cases decoded : bundleOf tx with
    | none => simp [decoded] at member
    | some bundle =>
      simp only [decoded, Option.map_some, Option.getD_some, List.mem_map] at member
      obtain ⟨nullifier, listed, same⟩ := member
      exact ⟨bundle, rfl, nullifier, listed, same.symm⟩

theorem nullifierKeys_transparent (tx : Transaction) (transparent : tx.shielded = []) :
    nullifierKeys tx = [] := by
  simp [nullifierKeys, shieldedNullifierKeys, transparent]

/-- A pending transaction has inputs, or it has nullifiers and no signer. -/
theorem looksSpendable_cases (tx : Transaction) (spendable : looksSpendable tx = true) :
    tx.inputs ≠ [] ∨ nullifierKeys tx ≠ [] ∧ tx.signer = [] := by
  by_cases noInputs : tx.inputs = []
  · right
    simp only [looksSpendable, noInputs, List.isEmpty_nil, Bool.true_and, Bool.not_eq_true',
      List.isEmpty_eq_false_iff, ne_eq, Bool.true_or, ↓reduceIte] at spendable
    split at spendable
    · split at spendable
      · simp at spendable
      · rename_i unsigned
        simp only [Bool.or_eq_true, Bool.not_eq_true', List.isEmpty_eq_false_iff, ne_eq, not_or,
          Decidable.not_not] at unsigned
        refine ⟨?_, unsigned.1⟩
        split at spendable
        · simp at spendable
        · rename_i keys found
          rw [nullifierKeys, found]
          simpa using spendable
    · simp at spendable
  · exact .inl noInputs

/-- A transaction with inputs or nullifiers is clear of one that has neither. -/
theorem clear_of_coinbase (tx done : Transaction) (spendable : looksSpendable tx = true)
    (noInputs : done.inputs = []) (transparent : done.shielded = []) (unsigned : done.signer = []) :
    Clear tx done where
  different := by
    rintro rfl
    rcases looksSpendable_cases tx spendable with inputs | ⟨keys, _⟩
    · exact inputs noInputs
    · exact keys (nullifierKeys_transparent tx transparent)
  outpoints := fun _ _ _ inside => by simp [noInputs] at inside
  nullifiers := fun _ _ known => by simp [nullifierKeys_transparent done transparent] at known
  nonces := fun signed same => absurd (same ▸ unsigned) signed

/-- A transaction that is valid on the tip is clear of every confirmed one. -/
theorem valid_clear {chain : Chain} (ledger : Ledger P chain.confirmed chain)
    (unrepeated : Unrepeated P chain.confirmed chain) (tx done : Transaction)
    (spendable : looksSpendable tx = true) (valid : validateTransaction P chain tx false = .ok ())
    (confirmed : done ∈ chain.confirmed) : Clear tx done := by
  obtain ⟨_, forms⟩ := validateTransaction_forms P chain tx valid
  -- what the pool has checked was not recorded before
  have nullifiers : ∀ key ∈ nullifierKeys tx, key ∉ nullifierKeys done := by
    intro key member known
    obtain ⟨bundle, carried, nullifier, listed, rfl⟩ := mem_nullifierKeys tx key member
    obtain ⟨bundle', carried', nullifier', listed', same⟩ := mem_nullifierKeys done _ known
    have recorded := ledger.nullifiers done confirmed bundle' carried' nullifier' listed'
    have admitted : ∃ form : ShieldedForm chain tx bundle, True := by
      have decode : ∀ decoded, ShieldedForm chain tx decoded → ShieldedForm chain tx bundle := by
        intro decoded form
        rw [bundleOf_decoded tx decoded form.decoded] at carried
        exact Option.some.inj carried ▸ form
      rcases forms with coinbase | ⟨decoded, form⟩ | ⟨_, form⟩
      · simp [bundleOf_transparent tx coinbase.transparent] at carried
      · exact ⟨decode decoded form.shielded, trivial⟩
      · rcases form.shielded with transparent | ⟨decoded, shielded⟩
        · simp [bundleOf_transparent tx transparent] at carried
        · exact ⟨decode decoded shielded, trivial⟩
    obtain ⟨form, _⟩ := admitted
    have unspent := ((Shielded.State.check_ok _ _ _ form.checked).unspent nullifier listed).1
    rw [List.append_cancel_left same] at unspent
    exact unspent recorded
  have outpoints : ∀ input ∈ tx.inputs, ∀ input' ∈ done.inputs, input.key ≠ input'.key := by
    intro input inside input' inside' same
    obtain ⟨_, form⟩ := spend_authorized chain tx valid (List.ne_nil_of_mem inside)
    have held := sumInputs_holds chain ∅ 0 _ tx.inputs form.summed input inside
    exact unrepeated.spent done confirmed input' inside' (same ▸ held)
  refine ⟨?_, outpoints, nullifiers, ?_⟩
  · rintro rfl
    rcases looksSpendable_cases tx spendable with inputs | ⟨keys, _⟩
    · obtain ⟨input, inside⟩ := List.exists_mem_of_ne_nil _ inputs
      exact outpoints input inside input inside rfl
    · obtain ⟨key, member⟩ := List.exists_mem_of_ne_nil _ keys
      exact nullifiers key member member
  · intro signed same repeated
    have inputs : tx.inputs ≠ [] := by
      rcases looksSpendable_cases tx spendable with inputs | ⟨_, unsigned⟩
      · exact inputs
      · exact absurd unsigned signed
    obtain ⟨_, form⟩ := spend_authorized chain tx valid inputs
    have authority := validateAuthority_ok chain tx ledger.registry form.authority
    have spends : done.inputs ≠ [] :=
      fun noInputs => signed (same ▸ ledger.unsigned done confirmed noInputs)
    obtain ⟨last, recorded, bound⟩ := ledger.nonces done confirmed spends (same ▸ signed)
    have later := authority.nonce last signed (same ▸ recorded)
    rw [repeated] at later
    rw [UInt64.lt_iff_toNat_lt] at later
    rw [UInt64.le_iff_toNat_le] at bound
    omega

/-! ### What the operations of the pool leave pending -/

/-- A submission is refused, or the transaction is pushed. -/
theorem submit_cases (pool : Mempool) (tx : Transaction) :
    (pool.submit P tx).1 = false ∧ (pool.submit P tx).2.pending = pool.pending ∨
      (pool.submit P tx).1 = true ∧ (pool.submit P tx).2.pending = pool.pending ++ [tx] ∧
        looksSpendable tx = true := by
  unfold Mempool.submit
  split
  · exact .inl ⟨rfl, rfl⟩
  · rename_i spendable
    split
    · exact .inl ⟨rfl, rfl⟩
    · dsimp only
      split
      · exact .inl ⟨rfl, rfl⟩
      · split
        · exact .inl ⟨rfl, rfl⟩
        · exact .inr ⟨rfl, rfl, by simpa using spendable⟩

/-- What is pending after some submissions. -/
theorem submitAll_pending (txs : List Transaction) (pool : Mempool) (tx : Transaction)
    (pending : tx ∈ (submitAll P pool txs).pending) :
    tx ∈ pool.pending ∨ tx ∈ txs ∧ looksSpendable tx = true := by
  induction txs generalizing pool with
  | nil => exact .inl pending
  | cons first rest ih =>
    rcases ih (pool.submit P first).2 pending with before | ⟨later, spendable⟩
    · rcases submit_cases (P := P) pool first with ⟨_, same⟩ | ⟨_, pushed, spendable⟩
      · exact .inl (same ▸ before)
      · rw [pushed, List.mem_append, List.mem_singleton] at before
        rcases before with old | rfl
        · exact .inl old
        · exact .inr ⟨by simp, spendable⟩
    · exact .inr ⟨by simp [later], spendable⟩

/-- Fetching divides the pending transactions. -/
theorem fetchForBlock_perm (sort : List Transaction → List Transaction) (library : StdSort sort)
    (pool : Mempool) (maxCount : Nat) :
    ((pool.fetchForBlock P sort maxCount).1 ++
      (pool.fetchForBlock P sort maxCount).2.pending).Perm pool.pending := by
  unfold Mempool.fetchForBlock
  dsimp only
  rw [List.take_append_drop]
  exact (chainNonces_perm _).trans (library.arranged pool.pending)

/-- The keys of the transactions of a block are gathered. -/
theorem gather_member (blockTxs : List Transaction) (done : Transaction) (member : done ∈ blockTxs) :
    hashTransaction P done ∈ (Confirmed.gather P blockTxs).ids ∧
      (∀ key ∈ reservedKeys done, key ∈ (Confirmed.gather P blockTxs).spent) ∧
      ∀ key ∈ nonceKeys done, key ∈ (Confirmed.gather P blockTxs).nonces := by
  have folded : ∀ (txs : List Transaction) (start : Confirmed),
      (hashTransaction P done ∈ start.ids ∧ (∀ key ∈ reservedKeys done, key ∈ start.spent) ∧
        (∀ key ∈ nonceKeys done, key ∈ start.nonces)) ∨ done ∈ txs →
      let final := txs.foldl (fun confirmed tx =>
        (⟨insert (hashTransaction P tx) confirmed.ids, insertKeys confirmed.spent (reservedKeys tx),
          insertKeys confirmed.nonces (nonceKeys tx)⟩ : Confirmed)) start
      hashTransaction P done ∈ final.ids ∧ (∀ key ∈ reservedKeys done, key ∈ final.spent) ∧
        ∀ key ∈ nonceKeys done, key ∈ final.nonces := by
    intro txs
    induction txs with
    | nil => exact fun start known => known.resolve_right (by simp)
    | cons tx rest ih =>
      intro start known
      refine ih _ ?_
      rcases known with ⟨id, spent, nonces⟩ | listed
      · refine .inl ⟨Finset.mem_insert_of_mem id, fun key own => ?_, fun key own => ?_⟩
        · exact (mem_insertKeys _ _ _).mpr (.inl (spent key own))
        · exact (mem_insertKeys _ _ _).mpr (.inl (nonces key own))
      · rcases List.mem_cons.mp listed with rfl | later
        · refine .inl ⟨Finset.mem_insert_self _ _, fun key own => ?_, fun key own => ?_⟩
          · exact (mem_insertKeys _ _ _).mpr (.inr own)
          · exact (mem_insertKeys _ _ _).mpr (.inr own)
        · exact .inr later
  exact folded blockTxs ⟨∅, ∅, ∅⟩ (.inr member)

/-- The sweep keeps what it does not drop. -/
theorem sweep_kept (drops : Transaction → Bool) (pool : Mempool) (txs : List Transaction) :
    (Mempool.sweep P drops pool txs).1.1 = txs.filter (fun tx => !drops tx) := by
  induction txs generalizing pool with
  | nil => rfl
  | cons tx rest ih =>
    unfold Mempool.sweep
    by_cases dropped : drops tx = true
    · simp [dropped, ih]
    · simp [dropped, ih]

/-- What stays pending was pending. -/
theorem removeConfirmed_member (pool : Mempool) (blockTxs : List Transaction) (tx : Transaction)
    (pending : tx ∈ (pool.removeConfirmed P blockTxs).2.pending) : tx ∈ pool.pending := by
  unfold Mempool.removeConfirmed at pending
  split at pending
  · exact pending
  · have kept : tx ∈ (Mempool.sweep P _ pool pool.pending).1.1 := pending
    rw [sweep_kept] at kept
    exact (List.mem_filter.mp kept).1

/-- What a block does not drop stays pending. -/
theorem removeConfirmed_stays (pool : Mempool) (blockTxs : List Transaction) (tx : Transaction)
    (pending : tx ∈ pool.pending) (kept : (Confirmed.gather P blockTxs).drops P tx = false) :
    tx ∈ (pool.removeConfirmed P blockTxs).2.pending := by
  unfold Mempool.removeConfirmed
  split
  · exact pending
  · show tx ∈ (Mempool.sweep P _ pool pool.pending).1.1
    rw [sweep_kept]
    exact List.mem_filter.mpr ⟨pending, by simp [kept]⟩

/-- The nonce key of a signed transaction with inputs. -/
theorem nonceKeys_signed (tx : Transaction) (signed : tx.signer ≠ []) (inputs : tx.inputs ≠ []) :
    nonceKeys tx = [tx.signer ++ ascii "#" ++ decimal tx.nonce.toNat] := by
  simp [nonceKeys, signerNonceKey, signed, inputs]

/-- What stays pending after a block was confirmed is clear of its transactions. -/
theorem removeConfirmed_clear (pool : Mempool) (blockTxs : List Transaction) (tx : Transaction)
    (spendable : looksSpendable tx = true)
    (unsigned : ∀ done ∈ blockTxs, done.inputs = [] → done.signer = [])
    (pending : tx ∈ (pool.removeConfirmed P blockTxs).2.pending) :
    ∀ done ∈ blockTxs, Clear tx done := by
  unfold Mempool.removeConfirmed at pending
  split at pending
  · rename_i idle
    simp only [Bool.or_eq_true, List.isEmpty_iff] at idle
    rcases idle with nothing | nothing
    · simp [nothing] at pending
    · simp [nothing]
  · have kept : tx ∈ pool.pending.filter
        (fun tx => !(Confirmed.gather P blockTxs).drops P tx) := by
      rw [← sweep_kept (P := P)]
      exact pending
    obtain ⟨_, stays⟩ := List.mem_filter.mp kept
    intro done listed
    simp only [Confirmed.drops, Bool.not_eq_true', Bool.or_eq_false_iff, decide_eq_false_iff_not,
      List.any_eq_false, decide_eq_true_eq] at stays
    obtain ⟨⟨id, nonces⟩, spent⟩ := stays
    obtain ⟨ids, keys, nonceKeysOf⟩ := gather_member (P := P) blockTxs done listed
    refine ⟨?_, ?_, ?_, ?_⟩
    · rintro rfl
      exact id ids
    · intro input inside input' inside' same
      refine spent input.key (List.mem_append_left _ (List.mem_map_of_mem inside)) (keys _ ?_)
      exact List.mem_append_left _ (same ▸ List.mem_map_of_mem inside')
    · intro key own known
      exact spent key (List.mem_append_right _ own) (keys key (List.mem_append_right _ known))
    · intro signed same repeated
      have inputs : tx.inputs ≠ [] := by
        rcases looksSpendable_cases tx spendable with inputs | ⟨_, unsigned⟩
        · exact inputs
        · exact absurd unsigned signed
      have spends : done.inputs ≠ [] := fun noInputs => signed (same ▸ unsigned done listed noInputs)
      have own := nonceKeys_signed tx signed inputs
      have known := nonceKeys_signed done (same ▸ signed) spends
      rw [same, ← repeated, ← own] at known
      refine nonces (tx.signer ++ ascii "#" ++ decimal tx.nonce.toNat) (by simp [own]) ?_
      exact nonceKeysOf _ (by simp [known, own])

end Addition
