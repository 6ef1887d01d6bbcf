import Addition.PoolConsistency

/-!
# The order of a fetched block

Fetching sorts the pending transactions by fee and then gives each signer's transactions
their slots back in ascending nonce order. A slot keeps its signer, so the fee order decides
which signers come first, and the nonces decide which of a signer's transactions go there.

Pending transactions of one signer have different nonces, because their nonce keys differ.
Transactions without a signer have no nonce key and stay in fee order.
-/

namespace Addition

open ByteStrings Checked KeyIndexes DecentralizedNode

variable {P : Primitives}

/-- The transactions of one signer, in the order of the list. -/
def signedBy (signer : Bytes) (txs : List Transaction) : List Transaction :=
  txs.filter (fun tx => decide (tx.signer = signer))

@[simp] theorem mem_signedBy (signer : Bytes) (txs : List Transaction) (tx : Transaction) :
    tx ∈ signedBy signer txs ↔ tx ∈ txs ∧ tx.signer = signer := by
  simp [signedBy]

@[simp] theorem signedBy_append (signer : Bytes) (front back : List Transaction) :
    signedBy signer (front ++ back) = signedBy signer front ++ signedBy signer back :=
  List.filter_append _ _

/-! ### Refilled slots -/

/-- What refilling the slots of one signer does: every slot keeps its signer, the signer's
slots hold the queue, and the transactions of the others stay as they were. -/
structure Refilled (signer : Bytes) (queue slots filled : List Transaction) : Prop where
  signers : filled.map Transaction.signer = slots.map Transaction.signer
  own : signedBy signer filled = queue
  others : ∀ other, other ≠ signer → signedBy other filled = signedBy other slots

theorem refillSlots_refilled (signer : Bytes) (queue slots : List Transaction)
    (width : queue.length = (signedBy signer slots).length)
    (owned : ∀ tx ∈ queue, tx.signer = signer) :
    Refilled signer queue slots (refillSlots signer queue slots) := by
  induction slots generalizing queue with
  | nil =>
    obtain rfl : queue = [] := List.eq_nil_of_length_eq_zero width
    exact ⟨rfl, rfl, fun _ _ => rfl⟩
  | cons tx rest ih =>
    by_cases own : tx.signer = signer
    · cases queue with
      | nil => simp [signedBy, own] at width
      | cons next queue =>
        have shorter : queue.length = (signedBy signer rest).length := by
          simpa [signedBy, own] using width
        have first : next.signer = signer := owned next (by simp)
        have later := ih queue shorter
          (fun other member => owned other (by simp [member]))
        simp only [refillSlots, own, ↓reduceIte]
        refine ⟨?_, ?_, ?_⟩
        · simp [later.signers, first, own]
        · have filled := later.own
          unfold signedBy at filled ⊢
          rw [List.filter_cons_of_pos (by simpa using first), filled]
        · intro other different
          have kept := later.others other different
          unfold signedBy at kept ⊢
          rw [List.filter_cons_of_neg (by simpa [first] using different.symm),
            List.filter_cons_of_neg (by simpa [own] using different.symm), kept]
    · have same : queue.length = (signedBy signer rest).length := by
        simpa [signedBy, own] using width
      have later := ih queue same owned
      simp only [refillSlots, own, ↓reduceIte]
      refine ⟨by simp [later.signers], ?_, ?_⟩
      · have filled := later.own
        unfold signedBy at filled ⊢
        rw [List.filter_cons_of_neg (by simpa using own), filled]
      · intro other different
        have kept := later.others other different
        unfold signedBy at kept ⊢
        rw [List.filter_cons, List.filter_cons, kept]

/-- A signer's transactions in ascending nonce order. -/
def byNonce (txs : List Transaction) : List Transaction :=
  txs.mergeSort (fun a b => decide (a.nonce ≤ b.nonce))

theorem byNonce_perm (txs : List Transaction) : (byNonce txs).Perm txs := List.mergeSort_perm txs _

theorem byNonce_ascends (txs : List Transaction) :
    (byNonce txs).Pairwise (fun earlier later => earlier.nonce ≤ later.nonce) := by
  have sorted : (byNonce txs).Pairwise (fun a b => decide (a.nonce ≤ b.nonce) = true) := by
    refine List.pairwise_mergeSort ?_ ?_ txs
    · intro a b c first second
      simp only [decide_eq_true_eq, UInt64.le_iff_toNat_le] at *
      omega
    · intro a b
      simp only [Bool.or_eq_true, decide_eq_true_eq, UInt64.le_iff_toNat_le]
      omega
  exact sorted.imp (fun before => by simpa using before)

theorem chainSigner_refilled (txs : List Transaction) (signer : Bytes) :
    Refilled signer (byNonce (signedBy signer txs)) txs (chainSigner txs signer) := by
  have arranged := byNonce_perm (signedBy signer txs)
  refine refillSlots_refilled signer _ txs arranged.length_eq fun tx member => ?_
  exact ((mem_signedBy signer txs tx).mp (arranged.mem_iff.mp member)).2

/-- Chaining some signers one after another: the slots keep their signers, and the
transactions of each of these signers come in ascending nonce order. -/
theorem chainSigners_spec (signers : List Bytes) (distinct : signers.Nodup) (txs : List Transaction) :
    (signers.foldl chainSigner txs).map Transaction.signer = txs.map Transaction.signer ∧
      ∀ signer, signedBy signer (signers.foldl chainSigner txs) =
        if signer ∈ signers then byNonce (signedBy signer txs) else signedBy signer txs := by
  induction signers generalizing txs with
  | nil => simp
  | cons first rest ih =>
    obtain ⟨new, distinct⟩ := List.nodup_cons.mp distinct
    obtain ⟨signers, chained⟩ := ih distinct (chainSigner txs first)
    have step := chainSigner_refilled txs first
    refine ⟨signers.trans step.signers, fun signer => ?_⟩
    rw [List.foldl_cons, chained signer]
    by_cases same : signer = first
    · subst same
      rw [if_neg new, if_pos (by simp), step.own]
    · rw [step.others signer same]
      simp [same]

/-- Chaining the nonces leaves every slot its signer. -/
theorem chainNonces_signers (txs : List Transaction) :
    (chainNonces txs).map Transaction.signer = txs.map Transaction.signer :=
  (chainSigners_spec _ (List.nodup_dedup _) txs).1

/-- The transactions of a signer come in ascending nonce order. -/
theorem chainNonces_ascends (txs : List Transaction) (signer : Bytes) (signed : signer ≠ []) :
    (signedBy signer (chainNonces txs)).Pairwise
      (fun earlier later => earlier.nonce ≤ later.nonce) := by
  unfold chainNonces
  rw [(chainSigners_spec _ (List.nodup_dedup _) txs).2 signer]
  split
  · exact byNonce_ascends _
  · rename_i absent
    -- a signer that has a transaction is among those that are chained
    have none : signedBy signer txs = [] := by
      refine List.eq_nil_iff_forall_not_mem.mpr fun tx member => absent ?_
      obtain ⟨listed, rfl⟩ := (mem_signedBy signer txs tx).mp member
      rw [List.mem_dedup, List.mem_filter]
      exact ⟨List.mem_map_of_mem listed, by simpa using signed⟩
    rw [none]
    exact List.Pairwise.nil

/-! ### Nonces of a sound pool -/

/-- The invariant of the pool: exact sets of distinct keys, and only transactions that look
spendable. -/
structure Mempool.Sound (P : Primitives) (pool : Mempool) : Prop where
  valid : pool.Valid P
  spendable : ∀ tx ∈ pool.pending, looksSpendable tx = true

variable {pool : Mempool}

/-- A signed transaction of a sound pool has inputs. -/
theorem Mempool.Sound.inputs (sound : pool.Sound P) (tx : Transaction)
    (pending : tx ∈ pool.pending) (signed : tx.signer ≠ []) : tx.inputs ≠ [] :=
  (looksSpendable_cases tx (sound.spendable tx pending)).resolve_right
    (fun unsigned => signed unsigned.2)

/-- Two pending transactions of a signer at different places have different nonces. -/
theorem Mempool.Sound.nonces (sound : pool.Sound P) {txs : List Transaction}
    (arranged : txs.Perm pool.pending) (signer : Bytes) (signed : signer ≠ []) :
    (signedBy signer txs).Pairwise (fun earlier later => earlier.nonce ≠ later.nonce) := by
  have apart := (sound.valid.signerNonces.perm arranged).apart
  refine List.Pairwise.imp_of_mem ?_ (apart.sublist List.filter_sublist)
  intro earlier later first second differ same
  obtain ⟨listed, own⟩ := (mem_signedBy signer txs earlier).mp first
  obtain ⟨listed', own'⟩ := (mem_signedBy signer txs later).mp second
  have key := nonceKeys_signed earlier (own ▸ signed)
    (sound.inputs earlier (arranged.mem_iff.mp listed) (own ▸ signed))
  have key' := nonceKeys_signed later (own' ▸ signed)
    (sound.inputs later (arranged.mem_iff.mp listed') (own' ▸ signed))
  refine differ (signer ++ ascii "#" ++ decimal earlier.nonce.toNat) ?_ ?_
  · simp [key, own]
  · simp [key', own', same]

/-- In a sound pool the chained transactions of a signer come in strictly ascending nonce
order. -/
theorem Mempool.Sound.ascends (sound : pool.Sound P)
    (sort : List Transaction → List Transaction) (library : StdSort sort) (signer : Bytes)
    (signed : signer ≠ []) :
    (signedBy signer (chainNonces (sort pool.pending))).Pairwise
      (fun earlier later => earlier.nonce < later.nonce) := by
  have arranged : (chainNonces (sort pool.pending)).Perm pool.pending :=
    (chainNonces_perm _).trans (library.arranged pool.pending)
  have both := (chainNonces_ascends (sort pool.pending) signer signed).and
    (sound.nonces arranged signer signed)
  exact both.imp fun order => UInt64.lt_of_le_of_ne order.1 order.2

/-- What is pending in a run looks spendable. -/
theorem run_spendable (sort : List Transaction → List Transaction) (library : StdSort sort)
    (calls : List MempoolCall) :
    ∀ tx ∈ (Mempool.run P sort calls).pending, looksSpendable tx = true := by
  induction calls using List.reverseRecOn with
  | nil => exact fun tx pending => absurd pending (List.not_mem_nil)
  | append_singleton calls last before =>
    rw [run_snoc]
    intro tx pending
    cases last with
    | submit next =>
      rcases submit_cases (P := P) (Mempool.run P sort calls) next with
        ⟨_, same⟩ | ⟨_, pushed, spendable⟩
      · exact before tx (same ▸ pending)
      · have listed : tx ∈ (Mempool.run P sort calls).pending ++ [next] := pushed ▸ pending
        rcases List.mem_append.mp listed with old | new
        · exact before tx old
        · exact List.mem_singleton.mp new ▸ spendable
    | fetchForBlock maxCount =>
      have divided := fetchForBlock_perm (P := P) sort library (Mempool.run P sort calls) maxCount
      exact before tx (divided.mem_iff.mp (List.mem_append_right _ pending))
    | replace txs =>
      exact ((restore_member txs .empty tx pending).resolve_left List.not_mem_nil).2
    | removeConfirmed blockTxs => exact before tx (removeConfirmed_member _ blockTxs tx pending)

/-- A run is sound while its replacements are free of nullifier conflicts. -/
theorem run_sound (sort : List Transaction → List Transaction) (library : StdSort sort)
    (calls : List MempoolCall)
    (free : ∀ txs, MempoolCall.replace txs ∈ calls → NullifiersFree P .empty txs) :
    (Mempool.run P sort calls).Sound P :=
  ⟨run_valid sort library calls free, run_spendable sort library calls⟩

/-! ### What is fetched -/

/-- What fetching returns and what it leaves pending are the chained transactions. -/
theorem fetchForBlock_append (sort : List Transaction → List Transaction) (pool : Mempool)
    (maxCount : Nat) :
    (pool.fetchForBlock P sort maxCount).1 ++ (pool.fetchForBlock P sort maxCount).2.pending =
      chainNonces (sort pool.pending) :=
  List.take_append_drop _ _

theorem fetchForBlock_length (sort : List Transaction → List Transaction) (library : StdSort sort)
    (pool : Mempool) (maxCount : Nat) :
    (pool.fetchForBlock P sort maxCount).1.length = min maxCount pool.pending.length := by
  have arranged : (chainNonces (sort pool.pending)).Perm pool.pending :=
    (chainNonces_perm _).trans (library.arranged pool.pending)
  unfold Mempool.fetchForBlock
  dsimp only
  rw [List.length_take, arranged.length_eq, Nat.min_assoc, Nat.min_self]

/-- A fetched block has as many transactions as were asked for, or all of them. What is
fetched and what stays are the pending transactions. The transactions of a signer come in
strictly ascending nonce order, those that stay behind those that are fetched, and every slot
of the new order has the signer that it had in fee order. -/
theorem fetch_ordered (P : Primitives) (sort : List Transaction → List Transaction)
    (library : StdSort sort) (pool : Mempool) (sound : pool.Sound P) (maxCount : Nat) :
    (pool.fetchForBlock P sort maxCount).1.length = min maxCount pool.pending.length ∧
    ((pool.fetchForBlock P sort maxCount).1 ++
      (pool.fetchForBlock P sort maxCount).2.pending).Perm pool.pending ∧
    (∀ signer, signer ≠ [] → (signedBy signer (pool.fetchForBlock P sort maxCount).1).Pairwise
      (fun earlier later => earlier.nonce < later.nonce)) ∧
    (∀ sent ∈ (pool.fetchForBlock P sort maxCount).1,
      ∀ kept ∈ (pool.fetchForBlock P sort maxCount).2.pending,
        sent.signer ≠ [] → kept.signer = sent.signer → ¬ kept.nonce < sent.nonce) ∧
    ((pool.fetchForBlock P sort maxCount).1 ++
      (pool.fetchForBlock P sort maxCount).2.pending).map Transaction.signer =
        (sort pool.pending).map Transaction.signer := by
  have ordered := fun signer signed => sound.ascends sort library signer signed
  rw [← fetchForBlock_append (P := P) sort pool maxCount] at ordered
  simp only [signedBy_append, List.pairwise_append] at ordered
  refine ⟨fetchForBlock_length sort library pool maxCount,
    fetchForBlock_perm sort library pool maxCount, fun signer signed => (ordered signer signed).1,
    ?_, ?_⟩
  · intro sent fetched kept left signed same behind
    have before := (ordered sent.signer signed).2.2 sent ((mem_signedBy _ _ _).mpr ⟨fetched, rfl⟩)
      kept ((mem_signedBy _ _ _).mpr ⟨left, same⟩)
    rw [UInt64.lt_iff_toNat_lt] at before behind
    omega
  · rw [fetchForBlock_append, chainNonces_signers]

/-! ### Two pools -/

/-- A spend of one output, signed by a name or by a script's witness. -/
def plainSpend (index : UInt32) (signer witness signature : Bytes) (fee nonce : UInt64) :
    Transaction :=
  ⟨[⟨ascii "parent", index, witness⟩], [⟨ascii "shop", 1⟩], signer, [], signature, fee, nonce, []⟩

/-- Two payments of one signer. The later one pays the higher fee. -/
def chainedPool : Mempool := Mempool.run samplePrimitives sampleSort
  [.submit (plainSpend 0 (ascii "payer") [] pqPrefix 9 2),
    .submit (plainSpend 1 (ascii "payer") [] pqPrefix 3 1)]

set_option maxRecDepth 100000 in
/-- The payment that is fetched first is not behind the one that stays. -/
theorem chained_payments_fetched :
    (chainedPool.fetchForBlock samplePrimitives sampleSort 1).1.length = 1 ∧
      ∀ sent ∈ (chainedPool.fetchForBlock samplePrimitives sampleSort 1).1,
        ∀ kept ∈ (chainedPool.fetchForBlock samplePrimitives sampleSort 1).2.pending,
          sent.signer ≠ [] → kept.signer = sent.signer → ¬ kept.nonce < sent.nonce := by
  have ordered := fetch_ordered samplePrimitives sampleSort sampleSort_std chainedPool
    (run_sound sampleSort sampleSort_std _ (by simp)) 1
  have two : chainedPool.pending.length = 2 := by decide +kernel
  refine ⟨ordered.1.trans (by rw [two]; rfl), ordered.2.2.2.1⟩

/-- Two spends by scripts. Neither has a signer, and the first one pays the higher fee. -/
def scriptPool : Mempool := Mempool.run samplePrimitives sampleSort
  [.submit (plainSpend 0 [] (ascii "opened") [] 9 2),
    .submit (plainSpend 1 [] (ascii "opened") [] 3 1)]

/-- Without signers there is nothing to chain. -/
theorem chainNonces_unsigned (txs : List Transaction) (unsigned : ∀ tx ∈ txs, tx.signer = []) :
    chainNonces txs = txs := by
  have none : (txs.map Transaction.signer).filter (fun signer => !signer.isEmpty) = [] := by
    refine List.filter_eq_nil_iff.mpr fun signer member => ?_
    obtain ⟨tx, listed, rfl⟩ := List.mem_map.mp member
    simp [unsigned tx listed]
  rw [chainNonces, none]
  rfl

set_option maxRecDepth 100000 in
theorem scriptPool_pending : scriptPool.pending =
    [plainSpend 0 [] (ascii "opened") [] 9 2, plainSpend 1 [] (ascii "opened") [] 3 1] := by
  decide +kernel

theorem scriptPool_arranged : chainNonces (sampleSort scriptPool.pending) =
    [plainSpend 0 [] (ascii "opened") [] 9 2, plainSpend 1 [] (ascii "opened") [] 3 1] := by
  have sorted : sampleSort scriptPool.pending = scriptPool.pending := by
    rw [scriptPool_pending]
    exact List.mergeSort_of_pairwise (by decide +kernel)
  rw [sorted, scriptPool_pending]
  exact chainNonces_unsigned _ (by simp [plainSpend])

/-- The spends of scripts, which all have the empty signer, are fetched by their fees
alone. -/
theorem script_spends_by_fee :
    ¬ ∀ (P : Primitives) (sort : List Transaction → List Transaction), StdSort sort →
      ∀ pool : Mempool, pool.Sound P → ∀ maxCount,
        ∀ sent ∈ (pool.fetchForBlock P sort maxCount).1,
          ∀ kept ∈ (pool.fetchForBlock P sort maxCount).2.pending,
            kept.signer = sent.signer → ¬ kept.nonce < sent.nonce := by
  intro claimed
  have sent : plainSpend 0 [] (ascii "opened") [] 9 2 ∈
      (scriptPool.fetchForBlock samplePrimitives sampleSort 1).1 := by
    simp [Mempool.fetchForBlock, scriptPool_arranged]
  have kept : plainSpend 1 [] (ascii "opened") [] 3 1 ∈
      (scriptPool.fetchForBlock samplePrimitives sampleSort 1).2.pending := by
    simp [Mempool.fetchForBlock, scriptPool_arranged]
  exact claimed samplePrimitives sampleSort sampleSort_std scriptPool
    (run_sound sampleSort sampleSort_std _ (by simp)) 1 _ sent _ kept rfl (by decide)

end Addition
