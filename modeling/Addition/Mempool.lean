import Addition.Application
import Addition.Foundations.KeyIndexes
import Mathlib.Data.List.Dedup

/-!
# The pending pool

`mempool.cpp`: pending transactions beside three sets of their keys, under which the
four operations look for conflicts. Submission tests all keys. A replacement from a
saved list tests txids, input outpoints and nonce keys but never nullifiers, so it
can keep two transactions that spend the same note.

The order that `std::sort` leaves among equals is not fixed, so the sort is a
parameter. Locking is left out: each operation holds the lock throughout.
-/

namespace Addition

open ByteStrings Checked KeyIndexes

variable (P : Primitives)

/-- `Mempool`: the pending transactions and the keys by which they are found. -/
structure Mempool where
  pending : List Transaction
  txids : Finset Bytes
  signerNonces : Finset Bytes
  reservedOutpoints : Finset Bytes

/-- The empty pool. -/
def Mempool.empty : Mempool := ⟨[], ∅, ∅, ∅⟩

/-! ### Keys -/

/-- `shielded_nullifier_keys`; a bundle that does not parse gives nothing. -/
def shieldedNullifierKeys (tx : Transaction) : Option (List Bytes) :=
  if tx.shielded.isEmpty then some []
  else (bundleOf tx).map (fun bundle =>
    bundle.nullifiers.map (fun nullifier => ascii "nf:" ++ Shielded.hex32 nullifier))

/-- The nullifier keys that are indexed. -/
def nullifierKeys (tx : Transaction) : List Bytes := (shieldedNullifierKeys tx).getD []

/-- The keys that a transaction reserves. -/
def reservedKeys (tx : Transaction) : List Bytes := tx.inputs.map TxInput.key ++ nullifierKeys tx

/-- `Mempool::signer_nonce_key`. -/
def signerNonceKey (tx : Transaction) : Bytes :=
  if tx.inputs.isEmpty || tx.signer.isEmpty then []
  else tx.signer ++ ascii "#" ++ decimal tx.nonce.toNat

/-- The nonce key of a transaction as a list, empty when it has none. -/
def nonceKeys (tx : Transaction) : List Bytes :=
  if (signerNonceKey tx).isEmpty then [] else [signerNonceKey tx]

/-- `Mempool::looks_spendable`. -/
def looksSpendable (tx : Transaction) : Bool :=
  if tx.inputs.isEmpty && !tx.shielded.isEmpty then
    if !tx.signer.isEmpty || !tx.signature.isEmpty then false
    else
      match shieldedNullifierKeys tx with
      | none => false
      | some keys => !keys.isEmpty
  else if tx.inputs.isEmpty || tx.outputs.isEmpty then false
  else if tx.signer.isEmpty && tx.signerPubkey.isEmpty && tx.signature.isEmpty &&
      !tx.inputs.isEmpty then
    tx.inputs.all (fun input => !input.witness.isEmpty)
  else if tx.signer.isEmpty then false
  else pqPrefix.isPrefixOf tx.signature

/-! ### Operations -/

/-- A transaction added with its keys. -/
def Mempool.push (pool : Mempool) (tx : Transaction) : Mempool where
  pending := pool.pending ++ [tx]
  txids := insert (hashTransaction P tx) pool.txids
  signerNonces := insertKeys pool.signerNonces (nonceKeys tx)
  reservedOutpoints := insertKeys pool.reservedOutpoints (reservedKeys tx)

/-- The keys of a transaction taken out of the sets. -/
def Mempool.release (pool : Mempool) (tx : Transaction) : Mempool :=
  { pool with
    txids := pool.txids.erase (hashTransaction P tx)
    signerNonces := eraseKeys pool.signerNonces (nonceKeys tx)
    reservedOutpoints := eraseKeys pool.reservedOutpoints (reservedKeys tx) }

/-- `Mempool::submit`. What it inserted before a refusal it erases again. -/
def Mempool.submit (pool : Mempool) (tx : Transaction) : Bool × Mempool :=
  if !looksSpendable tx then (false, pool)
  else if hashTransaction P tx ∈ pool.txids then (false, pool)
  else
    let txids := insert (hashTransaction P tx) pool.txids
    if (nonceKeys tx).any (· ∈ pool.signerNonces) then
      (false, { pool with txids := txids.erase (hashTransaction P tx) })
    else
      let signerNonces := insertKeys pool.signerNonces (nonceKeys tx)
      if (reservedKeys tx).any (· ∈ pool.reservedOutpoints) then
        (false, { pool with
          txids := txids.erase (hashTransaction P tx)
          signerNonces := eraseKeys signerNonces (nonceKeys tx) })
      else (true, pool.push P tx)

/-- The order of `fetch_for_block`: higher fees first, then fewer outputs, then lower
nonces. -/
def fetchesBefore (a b : Transaction) : Bool :=
  if a.fee ≠ b.fee then decide (a.fee > b.fee)
  else if a.outputs.length ≠ b.outputs.length then decide (a.outputs.length < b.outputs.length)
  else decide (a.nonce < b.nonce)

/-- What `std::sort` does with that order. -/
structure StdSort (sort : List Transaction → List Transaction) : Prop where
  arranged : ∀ txs, (sort txs).Perm txs
  ordered : ∀ txs, (sort txs).Pairwise (fun a b => fetchesBefore b a = false)

/-- Put a signer's transactions, in the order of a queue, into the slots it has. -/
def refillSlots (signer : Bytes) : List Transaction → List Transaction → List Transaction
  | _, [] => []
  | queue, tx :: rest =>
    if tx.signer = signer then
      match queue with
      | [] => tx :: refillSlots signer [] rest
      | next :: queue => next :: refillSlots signer queue rest
    else tx :: refillSlots signer queue rest

/-- One signer's transactions in ascending nonce order within its slots. -/
def chainSigner (txs : List Transaction) (signer : Bytes) : List Transaction :=
  refillSlots signer ((txs.filter (fun tx => decide (tx.signer = signer))).mergeSort
    (fun a b => decide (a.nonce ≤ b.nonce))) txs

/-- The nonce chaining of `fetch_for_block`. -/
def chainNonces (txs : List Transaction) : List Transaction :=
  (((txs.map Transaction.signer).filter (fun signer => !signer.isEmpty)).dedup).foldl chainSigner txs

variable (sort : List Transaction → List Transaction)

/-- `Mempool::fetch_for_block`. -/
def Mempool.fetchForBlock (pool : Mempool) (maxCount : Nat) : List Transaction × Mempool :=
  let arranged := chainNonces (sort pool.pending)
  let count := min maxCount arranged.length
  let released := (arranged.take count).foldl (Mempool.release P) pool
  (arranged.take count, { released with pending := arranged.drop count })

/-- The tests of one round of `Mempool::replace`. -/
def Mempool.keeps (pool : Mempool) (tx : Transaction) : Bool :=
  looksSpendable tx && decide (hashTransaction P tx ∉ pool.txids) &&
    !(tx.inputs.map TxInput.key).any (· ∈ pool.reservedOutpoints) &&
    !(nonceKeys tx).any (· ∈ pool.signerNonces)

/-- One round of `Mempool::replace`; a transaction that is not kept leaves no key. -/
def Mempool.restoreNext (pool : Mempool) (tx : Transaction) : Mempool :=
  if pool.keeps P tx then pool.push P tx else pool

/-- `Mempool::replace`. -/
def Mempool.replace (txs : List Transaction) : Mempool :=
  txs.foldl (Mempool.restoreNext P) Mempool.empty

/-- What `remove_confirmed` gathers from the transactions of a block. -/
structure Confirmed where
  ids : Finset Bytes
  spent : Finset Bytes
  nonces : Finset Bytes

/-- What a block confirms: its names, its outpoints and its nonces. -/
def Confirmed.gather (blockTxs : List Transaction) : Confirmed :=
  blockTxs.foldl (fun confirmed tx =>
    ⟨insert (hashTransaction P tx) confirmed.ids, insertKeys confirmed.spent (reservedKeys tx),
      insertKeys confirmed.nonces (nonceKeys tx)⟩) ⟨∅, ∅, ∅⟩

/-- Whether a pending transaction is dropped. -/
def Confirmed.drops (confirmed : Confirmed) (tx : Transaction) : Bool :=
  decide (hashTransaction P tx ∈ confirmed.ids) || (nonceKeys tx).any (· ∈ confirmed.nonces) ||
    (reservedKeys tx).any (· ∈ confirmed.spent)

/-- The sweep of `remove_confirmed`: what is kept, how many were removed, and the
sets. -/
def Mempool.sweep (drops : Transaction → Bool) :
    Mempool → List Transaction → (List Transaction × Nat) × Mempool
  | pool, [] => (([], 0), pool)
  | pool, tx :: rest =>
    if drops tx then
      let ((keep, removed), pool) := Mempool.sweep drops (pool.release P tx) rest
      ((keep, removed + 1), pool)
    else
      let ((keep, removed), pool) := Mempool.sweep drops pool rest
      ((tx :: keep, removed), pool)

/-- `Mempool::remove_confirmed`. -/
def Mempool.removeConfirmed (pool : Mempool) (blockTxs : List Transaction) : Nat × Mempool :=
  if pool.pending.isEmpty || blockTxs.isEmpty then (0, pool)
  else
    let ((keep, removed), pool) :=
      Mempool.sweep P ((Confirmed.gather P blockTxs).drops P) pool pool.pending
    (removed, { pool with pending := keep })

/-! ### Runs -/

/-- The calls of the pool. -/
inductive MempoolCall where
  | submit (tx : Transaction)
  | fetchForBlock (maxCount : Nat)
  | replace (txs : List Transaction)
  | removeConfirmed (blockTxs : List Transaction)

/-- The pool after a call. -/
def Mempool.call (pool : Mempool) : MempoolCall → Mempool
  | .submit tx => (pool.submit P tx).2
  | .fetchForBlock maxCount => (pool.fetchForBlock P sort maxCount).2
  | .replace txs => Mempool.replace P txs
  | .removeConfirmed blockTxs => (pool.removeConfirmed P blockTxs).2

/-- The pool after some calls. -/
def Mempool.run (calls : List MempoolCall) : Mempool := calls.foldl (Mempool.call P sort) Mempool.empty

/-! ### The invariant -/

/-- The three sets are exactly the keys of some transactions: txids, nonce keys, and
the outpoint and nullifier keys. No two of the transactions share any. -/
structure Represents (txs : List Transaction) (pool : Mempool) : Prop where
  txids : Indexes (fun tx => [hashTransaction P tx]) txs pool.txids
  signerNonces : Indexes nonceKeys txs pool.signerNonces
  reservedOutpoints : Indexes reservedKeys txs pool.reservedOutpoints

/-- The sets of a pool are those of its pending transactions. -/
def Mempool.Valid (pool : Mempool) : Prop := Represents P pool.pending pool

/-- Whenever a transaction passes the tests of `replace`, its nullifiers are not yet
reserved by those kept before it. -/
def NullifiersFree : Mempool → List Transaction → Prop
  | _, [] => True
  | pool, tx :: rest =>
    (pool.keeps P tx = true → ∀ key ∈ nullifierKeys tx, key ∉ pool.reservedOutpoints) ∧
      NullifiersFree (pool.restoreNext P tx) rest

variable {P}

theorem valid_empty : Mempool.empty.Valid P :=
  ⟨indexes_nil _, indexes_nil _, indexes_nil _⟩

variable {pool : Mempool} {txs : List Transaction}

theorem Represents.perm {txs' : List Transaction}
    (represents : Represents P txs pool) (arranged : txs'.Perm txs) : Represents P txs' pool :=
  ⟨represents.txids.perm arranged, represents.signerNonces.perm arranged,
    represents.reservedOutpoints.perm arranged⟩

/-- Releasing the first transaction leaves the sets of the others. -/
theorem Represents.release {tx : Transaction}
    (represents : Represents P (tx :: txs) pool) : Represents P txs (pool.release P tx) :=
  ⟨represents.txids.tail, represents.signerNonces.tail, represents.reservedOutpoints.tail⟩

/-- The keys of a transaction are in none of the sets. -/
structure Fresh (P : Primitives) (pool : Mempool) (tx : Transaction) : Prop where
  txid : hashTransaction P tx ∉ pool.txids
  nonce : ∀ key ∈ nonceKeys tx, key ∉ pool.signerNonces
  reserved : ∀ key ∈ reservedKeys tx, key ∉ pool.reservedOutpoints

theorem push_reserved (pool : Mempool) (tx : Transaction) (key : Bytes) :
    key ∈ (pool.push P tx).reservedOutpoints ↔
      key ∈ pool.reservedOutpoints ∨ key ∈ reservedKeys tx :=
  mem_insertKeys _ _ _

/-- A valid pool stays valid when a transaction is pushed exactly when its keys are
new. -/
theorem push_valid_iff (pool : Mempool) (tx : Transaction) (valid : pool.Valid P) :
    (pool.push P tx).Valid P ↔ Fresh P pool tx := by
  have txids : (pool.push P tx).txids =
      insertKeys pool.txids ((fun tx => [hashTransaction P tx]) tx) := rfl
  have first := indexes_snoc (fun tx => [hashTransaction P tx]) pool.pending pool.txids tx valid.txids
  have second := indexes_snoc nonceKeys pool.pending pool.signerNonces tx valid.signerNonces
  have third := indexes_snoc reservedKeys pool.pending pool.reservedOutpoints tx
    valid.reservedOutpoints
  rw [← txids] at first
  constructor
  · intro pushed
    exact ⟨first.mp pushed.txids _ (by simp), second.mp pushed.signerNonces,
      third.mp pushed.reservedOutpoints⟩
  · intro fresh
    exact ⟨first.mpr (by simpa using fresh.txid), second.mpr fresh.nonce, third.mpr fresh.reserved⟩

theorem submit_valid (pool : Mempool) (tx : Transaction) (valid : pool.Valid P) :
    (pool.submit P tx).2.Valid P := by
  unfold Mempool.submit
  split
  · exact valid
  · split
    · exact valid
    · rename_i txid
      dsimp only
      split
      · rw [Finset.erase_insert txid]
        exact valid
      · rename_i noncesFree
        have nonce : ∀ key ∈ nonceKeys tx, key ∉ pool.signerNonces := by simpa using noncesFree
        split
        · have restored : eraseKeys (insertKeys pool.signerNonces (nonceKeys tx)) (nonceKeys tx) =
              pool.signerNonces := by
            ext key
            rw [mem_eraseKeys, mem_insertKeys]
            constructor
            · rintro ⟨known | own, absent⟩
              · exact known
              · exact absurd own absent
            · exact fun known => ⟨.inl known, fun own => nonce key own known⟩
          rw [Finset.erase_insert txid, restored]
          exact valid
        · rename_i keysFree
          have reserved : ∀ key ∈ reservedKeys tx, key ∉ pool.reservedOutpoints := by
            simpa using keysFree
          exact (push_valid_iff pool tx valid).mpr ⟨txid, nonce, reserved⟩

/-! ### Fetching -/

/-- Refilling the slots of a signer with its own transactions is a rearrangement. -/
theorem refillSlots_perm (signer : Bytes) (queue slots : List Transaction)
    (width : queue.length = (slots.filter (fun tx => decide (tx.signer = signer))).length) :
    (refillSlots signer queue slots).Perm
      (queue ++ slots.filter (fun tx => !decide (tx.signer = signer))) := by
  induction slots generalizing queue with
  | nil =>
    obtain rfl : queue = [] := List.eq_nil_of_length_eq_zero width
    exact List.Perm.refl _
  | cons tx rest ih =>
    by_cases own : tx.signer = signer
    · cases queue with
      | nil => simp [own] at width
      | cons next queue =>
        have shorter : queue.length =
            (rest.filter (fun tx => decide (tx.signer = signer))).length := by
          simpa [own] using width
        simpa [refillSlots, own] using (ih queue shorter).cons next
    · have same : queue.length =
          (rest.filter (fun tx => decide (tx.signer = signer))).length := by
        simpa [own] using width
      have moved := (ih queue same).cons tx
      simpa [refillSlots, own] using moved.trans List.perm_middle.symm

theorem chainSigner_perm (txs : List Transaction) (signer : Bytes) :
    (chainSigner txs signer).Perm txs := by
  have sorted := List.mergeSort_perm (txs.filter (fun tx => decide (tx.signer = signer)))
    (fun a b => decide (a.nonce ≤ b.nonce))
  have refilled := refillSlots_perm signer _ txs sorted.length_eq
  exact refilled.trans ((sorted.append_right _).trans
    (List.filter_append_perm (fun tx => decide (tx.signer = signer)) txs))

theorem chainNonces_perm (txs : List Transaction) : (chainNonces txs).Perm txs := by
  have folded : ∀ signers start, (List.foldl chainSigner start signers).Perm start := by
    intro signers
    induction signers with
    | nil => exact fun start => List.Perm.refl start
    | cons signer rest ih =>
      exact fun start => (ih _).trans (chainSigner_perm start signer)
  exact folded _ txs

/-- Releasing the front of a list leaves the sets of its back. -/
theorem Represents.releaseAll {front back : List Transaction}
    (represents : Represents P (front ++ back) pool) :
    Represents P back (front.foldl (Mempool.release P) pool) := by
  induction front generalizing pool with
  | nil => exact represents
  | cons tx rest ih => exact ih represents.release

theorem fetchForBlock_valid (sort : List Transaction → List Transaction) (library : StdSort sort)
    (pool : Mempool) (maxCount : Nat) (valid : pool.Valid P) :
    (pool.fetchForBlock P sort maxCount).2.Valid P := by
  have arranged : (chainNonces (sort pool.pending)).Perm pool.pending :=
    (chainNonces_perm _).trans (library.arranged pool.pending)
  have represents := Represents.perm valid arranged
  rw [← List.take_append_drop (min maxCount (chainNonces (sort pool.pending)).length)
    (chainNonces (sort pool.pending))] at represents
  have left := represents.releaseAll
  exact ⟨left.txids, left.signerNonces, left.reservedOutpoints⟩

/-! ### Sweeping -/

/-- The sweep leaves the sets of what it keeps. -/
theorem sweep_represents (drops : Transaction → Bool) (pool : Mempool)
    (kept rest : List Transaction) (represents : Represents P (kept ++ rest) pool) :
    Represents P (kept ++ (Mempool.sweep P drops pool rest).1.1)
      (Mempool.sweep P drops pool rest).2 := by
  induction rest generalizing pool kept with
  | nil => exact represents
  | cons tx rest ih =>
    unfold Mempool.sweep
    split
    · exact ih _ kept (represents.perm List.perm_middle.symm).release
    · have later := ih pool (kept ++ [tx]) (by simpa using represents)
      simpa using later

theorem removeConfirmed_valid (pool : Mempool) (blockTxs : List Transaction)
    (valid : pool.Valid P) : (pool.removeConfirmed P blockTxs).2.Valid P := by
  unfold Mempool.removeConfirmed
  split
  · exact valid
  · have swept := sweep_represents ((Confirmed.gather P blockTxs).drops P) pool [] pool.pending valid
    exact ⟨swept.txids, swept.signerNonces, swept.reservedOutpoints⟩

/-! ### Replacing -/

/-- The pool keeps a transaction that is spendable, new and free of conflicts. -/
theorem keeps_iff (pool : Mempool) (tx : Transaction) :
    pool.keeps P tx = true ↔ looksSpendable tx = true ∧ hashTransaction P tx ∉ pool.txids ∧
      (∀ key ∈ tx.inputs.map TxInput.key, key ∉ pool.reservedOutpoints) ∧
      ∀ key ∈ nonceKeys tx, key ∉ pool.signerNonces := by
  simp only [Mempool.keeps, Bool.and_eq_true, decide_eq_true_eq, Bool.not_eq_true',
    List.any_eq_false, and_assoc]

/-- A kept transaction is fresh exactly when its nullifiers are not reserved. -/
theorem restoreNext_valid_iff (pool : Mempool) (tx : Transaction) (valid : pool.Valid P) :
    (pool.restoreNext P tx).Valid P ↔
      (pool.keeps P tx = true → ∀ key ∈ nullifierKeys tx, key ∉ pool.reservedOutpoints) := by
  unfold Mempool.restoreNext
  by_cases kept : pool.keeps P tx = true
  · rw [if_pos kept, push_valid_iff pool tx valid]
    obtain ⟨_, txid, inputs, nonce⟩ := (keeps_iff pool tx).mp kept
    constructor
    · intro fresh _ key member
      exact fresh.reserved key (List.mem_append_right _ member)
    · intro free
      refine ⟨txid, nonce, fun key member => ?_⟩
      rcases List.mem_append.mp member with input | nullifier
      · exact inputs key input
      · exact free kept key nullifier
  · rw [if_neg kept]
    exact ⟨fun _ keeps => absurd keeps kept, fun _ => valid⟩

/-- What replacing has kept stays pending. -/
theorem restore_pending (txs : List Transaction) (pool : Mempool) :
    pool.pending <+: (txs.foldl (Mempool.restoreNext P) pool).pending := by
  induction txs generalizing pool with
  | nil => exact List.prefix_refl _
  | cons tx rest ih =>
    refine List.IsPrefix.trans ?_ (ih (pool.restoreNext P tx))
    unfold Mempool.restoreNext
    split
    · exact List.prefix_append _ _
    · exact List.prefix_refl _

/-- Replacing from a valid pool stays valid exactly while the nullifiers are free. A
conflict that was kept stays pending. -/
theorem restore_valid_iff (txs : List Transaction) (pool : Mempool) (valid : pool.Valid P) :
    (txs.foldl (Mempool.restoreNext P) pool).Valid P ↔ NullifiersFree P pool txs := by
  induction txs generalizing pool with
  | nil => exact ⟨fun _ => trivial, fun _ => valid⟩
  | cons tx rest ih =>
    by_cases free : pool.keeps P tx = true → ∀ key ∈ nullifierKeys tx, key ∉ pool.reservedOutpoints
    · have next := (restoreNext_valid_iff pool tx valid).mpr free
      rw [List.foldl_cons, ih _ next, NullifiersFree]
      exact ⟨fun later => ⟨free, later⟩, fun both => both.2⟩
    · refine ⟨fun final => absurd ?_ free, fun both => absurd both.1 free⟩
      intro kept key member known
      obtain ⟨earlier, listed, shared⟩ := (valid.reservedOutpoints.exact key).mp known
      have pending : (pool.restoreNext P tx).pending = pool.pending ++ [tx] := by
        rw [Mempool.restoreNext, if_pos kept]
        rfl
      have front := restore_pending (P := P) rest (pool.restoreNext P tx)
      rw [pending] at front
      have apart := final.reservedOutpoints.apart.sublist front.sublist
      exact (List.pairwise_append.mp apart).2.2 earlier listed tx (by simp) key shared
        (List.mem_append_right _ member)

/-! ### Runs -/

theorem run_snoc (sort : List Transaction → List Transaction) (calls : List MempoolCall)
    (last : MempoolCall) :
    Mempool.run P sort (calls ++ [last]) = (Mempool.run P sort calls).call P sort last := by
  simp [Mempool.run, List.foldl_append]

/-- While every replacement is free of nullifier conflicts, the pool is valid. -/
theorem run_valid (sort : List Transaction → List Transaction) (library : StdSort sort)
    (calls : List MempoolCall)
    (free : ∀ txs, MempoolCall.replace txs ∈ calls → NullifiersFree P .empty txs) :
    (Mempool.run P sort calls).Valid P := by
  induction calls using List.reverseRecOn with
  | nil => exact valid_empty
  | append_singleton calls last ih =>
    have before := ih (fun txs member => free txs (by simp [member]))
    rw [run_snoc]
    cases last with
    | submit tx => exact submit_valid _ tx before
    | fetchForBlock maxCount => exact fetchForBlock_valid sort library _ maxCount before
    | replace txs => exact (restore_valid_iff txs .empty valid_empty).mpr (free txs (by simp))
    | removeConfirmed blockTxs => exact removeConfirmed_valid _ blockTxs before

/-- In a run of the pool the sets are exact and the keys distinct after every call
exactly when every list given to `replace` is free of nullifier conflicts. -/
theorem pool_valid_iff (P : Primitives) (sort : List Transaction → List Transaction)
    (library : StdSort sort) (calls : List MempoolCall) :
    (∀ front, front <+: calls → (Mempool.run P sort front).Valid P) ↔
      ∀ txs, MempoolCall.replace txs ∈ calls → NullifiersFree P .empty txs := by
  constructor
  · intro valid txs member
    obtain ⟨before, after, rfl⟩ := List.append_of_mem member
    have reached := valid (before ++ [.replace txs]) ⟨after, by simp⟩
    rw [run_snoc] at reached
    exact (restore_valid_iff txs .empty valid_empty).mp reached
  · intro free front inside
    exact run_valid sort library front (fun txs member => free txs (inside.subset member))

/-! ### Two runs -/

/-- One order that the standard library's sort may leave. -/
def sampleSort (txs : List Transaction) : List Transaction :=
  txs.mergeSort (fun a b => !fetchesBefore b a)

theorem fetchesBefore_asymm (a b : Transaction) :
    (!fetchesBefore b a || !fetchesBefore a b) = true := by
  unfold fetchesBefore
  grind

theorem fetchesBefore_trans (a b c : Transaction) (first : (!fetchesBefore b a) = true)
    (second : (!fetchesBefore c b) = true) : (!fetchesBefore c a) = true := by
  unfold fetchesBefore at *
  grind

theorem sampleSort_std : StdSort sampleSort where
  arranged := fun txs => List.mergeSort_perm txs _
  ordered := fun txs => by
    have sorted := List.pairwise_mergeSort fetchesBefore_trans fetchesBefore_asymm txs
    exact sorted.imp (fun before => by simpa using before)

/-- A fully shielded transaction that spends the zero nullifier for its fee. -/
def noteSpend (fee : UInt64) : Transaction :=
  ⟨[], [], [], [], [], fee, 0, Shielded.toTxField ⟨0, fee, zeroH32, [zeroH32], [], [], []⟩⟩

set_option maxRecDepth 100000 in
theorem noteSpend_keys (fee : UInt64) (listed : fee = 1 ∨ fee = 2) :
    looksSpendable (noteSpend fee) = true ∧
      nullifierKeys (noteSpend fee) = [ascii "nf:" ++ Shielded.hex32 zeroH32] := by
  rcases listed with rfl | rfl <;> decide +kernel

set_option maxRecDepth 100000 in
theorem noteSpend_distinct :
    hashTransaction samplePrimitives (noteSpend 1) ≠ hashTransaction samplePrimitives (noteSpend 2) := by
  decide +kernel

/-- Without inputs and signer there is no nonce key. -/
theorem noteSpend_plain (fee : UInt64) :
    (noteSpend fee).inputs.map TxInput.key = [] ∧ nonceKeys (noteSpend fee) = [] := ⟨rfl, rfl⟩

theorem run_replace (sort : List Transaction → List Transaction) (txs : List Transaction) :
    Mempool.run P sort [.replace txs] = txs.foldl (Mempool.restoreNext P) .empty := rfl

/-- Replacing with two spends of one note keeps both. -/
theorem replace_keeps_conflict :
    ¬ ∀ calls : List MempoolCall, (Mempool.run samplePrimitives sampleSort calls).Valid
      samplePrimitives := by
  intro always
  have claimed := always [.replace [noteSpend 1, noteSpend 2]]
  rw [run_replace] at claimed
  have free := (restore_valid_iff _ _ valid_empty).mp claimed
  obtain ⟨spendable, keys⟩ := noteSpend_keys 1 (.inl rfl)
  obtain ⟨spendable', keys'⟩ := noteSpend_keys 2 (.inr rfl)
  have first : Mempool.empty.keeps samplePrimitives (noteSpend 1) = true := by
    rw [keeps_iff, (noteSpend_plain 1).1, (noteSpend_plain 1).2]
    exact ⟨spendable, Finset.notMem_empty _, List.forall_mem_nil _, List.forall_mem_nil _⟩
  obtain ⟨_, conflict, _⟩ := free
  rw [Mempool.restoreNext, if_pos first] at conflict
  have second : (Mempool.empty.push samplePrimitives (noteSpend 1)).keeps samplePrimitives
      (noteSpend 2) = true := by
    rw [keeps_iff, (noteSpend_plain 2).1, (noteSpend_plain 2).2]
    refine ⟨spendable', fun known => ?_, List.forall_mem_nil _, List.forall_mem_nil _⟩
    rcases Finset.mem_insert.mp known with same | none
    · exact noteSpend_distinct same.symm
    · exact Finset.notMem_empty _ none
  refine conflict second (ascii "nf:" ++ Shielded.hex32 zeroH32) ?_ ?_
  · rw [keys']
    exact List.mem_singleton_self _
  · rw [push_reserved, reservedKeys, keys]
    exact .inr (List.mem_append_right _ (List.mem_singleton_self _))

/-- A run that restores one spend, is offered its rival and fetches is valid at its end. -/
theorem restored_valid :
    (Mempool.run samplePrimitives sampleSort
      [.replace [noteSpend 1], .submit (noteSpend 2), .fetchForBlock 5]).Valid samplePrimitives := by
  refine (pool_valid_iff samplePrimitives sampleSort sampleSort_std _).mpr ?_ _ List.prefix_rfl
  intro txs member
  simp only [List.mem_cons, MempoolCall.replace.injEq, reduceCtorEq, List.not_mem_nil, or_false] at member
  rw [member]
  exact ⟨fun _ _ _ => Finset.notMem_empty _, trivial⟩

end Addition
