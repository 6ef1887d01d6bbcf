import Addition.ChannelSpends
import Addition.PeerUpdates
import Mathlib.Algebra.Order.BigOperators.Group.List

/-!
# What the resolution transactions are worth

A commitment of an accepted state is resolved by transactions that spend its outputs. The
penalty and the delayed spend compare their outputs with the fee before they subtract it; the
spends of HTLCs do not, and pay a positive amount exactly when the HTLC is worth more than the
fee. They spend the output of the requested HTLC by its position. The cooperative close pays the
whole capacity exactly when no HTLC is open.
-/

namespace Addition.Channels

open ByteStrings Checked FiniteTables TextLines Script FreePlaces

variable {P : Primitives}

/-! ### Values -/

/-- What `validate_next` lets through of a state whose amounts do not wrap. A first state has no
HTLCs and is not compared with the fee. -/
structure AcceptedState (info : Info) (state : State) : Prop where
  conserved : state.total = info.capacity.toNat
  filled : ∀ htlc ∈ state.htlcs, htlc.amount ≠ 0
  few : state.htlcs.length ≤ 16
  feePaid : state.htlcs ≠ [] → info.fee ≤ state.balA

/-- Every output pays something, and the outputs and the fee are what the inputs spend: distinct
outputs of the parent. -/
structure ValueValid (P : Primitives) (parent tx : Transaction) : Prop where
  spends : ∀ input ∈ tx.inputs, input.previousTxid = hashTransaction P parent ∧
    input.outputIndex.toNat < parent.outputs.length
  once : (tx.inputs.map TxInput.outpoint).Nodup
  positive : ∀ output ∈ tx.outputs, output.amount ≠ 0
  balanced : (tx.outputs.map (fun output => output.amount.toNat)).sum + tx.fee.toNat =
    (tx.inputs.map (fun input => (amountAt parent input.outputIndex.toNat).toNat)).sum

/-- The only input is the output of an HTLC with the identifier. -/
def SpendsHtlc (P : Primitives) (ch : Channel) (commitment : Transaction) (mine : Bool) (state : State)
    (revHash : Bytes) (id : UInt64) (tx : Transaction) : Prop :=
  ∃ position htlc, state.htlcs[position]? = some htlc ∧ htlc.id = id ∧
    htlcOf state id = some htlc ∧
    commitment.outputs[commitment.outputs.length - state.htlcs.length + position]? =
      some (htlcOutput P ch.info
        (if (if mine then ch.isA else !ch.isA) then ch.info.addrB else ch.info.addrA) revHash htlc) ∧
    tx.inputs.map TxInput.outpoint = [(hashTransaction P commitment,
      UInt32.ofNat (commitment.outputs.length - state.htlcs.length + position))]

/-- A close spends the funding output, pays something in every output, and all of the capacity. -/
structure CloseValid (ch : Channel) (tx : Transaction) : Prop where
  spends : tx.inputs.map TxInput.outpoint = [(ch.info.fundingTxid, ch.info.fundingVout)]
  positive : ∀ output ∈ tx.outputs, output.amount ≠ 0
  balanced : (tx.outputs.map (fun output => output.amount.toNat)).sum + tx.fee.toNat =
    ch.info.capacity.toNat

/-! ### Accepted states -/

theorem commitment_few (info : Info) (holderA : Bool) (state : State) (revHash : Bytes)
    (few : state.htlcs.length ≤ 16) :
    (commitmentTx P info holderA state revHash).outputs.length ≤ 18 := by
  have one : ∀ (recipient : Bytes) (amount : UInt64),
      (if amount ≠ 0 then [(⟨recipient, amount⟩ : TxOutput)] else []).length ≤ 1 := by
    intro recipient amount
    split
    · exact le_rfl
    · exact Nat.zero_le _
  have first := one (scriptAddress P (toLocalScript (if holderA then info.addrA else info.addrB)
    (if holderA then info.addrB else info.addrA) revHash info.toSelfDelay))
    (commitmentAmounts info holderA state).1
  have second := one (if holderA then info.addrB else info.addrA)
    (commitmentAmounts info holderA state).2
  simp only [commitmentTx, List.length_append, List.length_map]
  omega

/-- All outputs of a commitment are worth less than a word when the fee can be paid. -/
theorem AcceptedState.narrow {info : Info} {state : State} (accepted : AcceptedState info state)
    (feePaid : info.fee ≤ state.balA) (holderA : Bool) (revHash : Bytes) :
    ((commitmentTx P info holderA state revHash).outputs.map
      (fun output => output.amount.toNat)).sum < 2 ^ 64 := by
  have total : state.total < 2 ^ 64 := by
    rw [accepted.conserved]
    exact info.capacity.toNat_lt
  have sum : state.balA + state.balB + htlcSum state = info.capacity := by
    rw [← UInt64.toNat_inj, UInt64.toNat_add, UInt64.toNat_add, htlcSum_toNat, ← accepted.conserved]
    unfold State.total at total ⊢
    omega
  have checked : CheckedState info state := ⟨sum, fun _ => feePaid, accepted.filled⟩
  have exact := ((checked.exact (P := P) total feePaid).commitments holderA revHash).1
  have bound := info.capacity.toNat_lt
  omega

/-! ### Amounts of outputs -/

theorem amountAt_output (tx : Transaction) (place : Nat) (output : TxOutput)
    (placed : tx.outputs[place]? = some output) : amountAt tx place = output.amount := by
  rw [amountAt, List.getElem?_map, placed]
  rfl

/-- The amounts of distinct outputs add up to no more than those of all outputs. -/
theorem amounts_le (tx : Transaction) (places : List Nat) (once : places.Nodup)
    (inside : ∀ place ∈ places, place < tx.outputs.length) :
    (places.map (fun place => (amountAt tx place).toNat)).sum ≤
      (tx.outputs.map (fun output => output.amount.toNat)).sum := by
  have all : (List.range tx.outputs.length).map (fun place => (amountAt tx place).toNat) =
      tx.outputs.map (fun output => output.amount.toNat) := by
    refine List.ext_getElem (by simp) (fun place first second => ?_)
    have listed : place < tx.outputs.length := by simpa using second
    rw [List.getElem_map, List.getElem_map, List.getElem_range,
      amountAt_output tx place _ (List.getElem?_eq_getElem listed)]
  rw [← all]
  have among : places ⊆ List.range tx.outputs.length :=
    fun place member => List.mem_range.mpr (inside place member)
  obtain ⟨sorted, same, sublist⟩ := List.subperm_of_subset once among
  rw [← (same.map _).sum_nat]
  exact (sublist.map _).sum_le_sum (fun _ _ => Nat.zero_le _)

/-- Words that add up to less than a word add as numbers. -/
theorem sum_words (words : List UInt64) (narrow : (words.map UInt64.toNat).sum < 2 ^ 64) :
    words.sum.toNat = (words.map UInt64.toNat).sum := by
  induction words with
  | nil => rfl
  | cons word rest ih =>
    rw [List.map_cons, List.sum_cons] at narrow ⊢
    rw [List.sum_cons, UInt64.toNat_add, ih (by omega)]
    exact Nat.mod_eq_of_lt narrow

/-! ### The spends -/

/-- What is left after the fee is positive and adds up exactly when the fee is smaller. -/
theorem less_fee_iff (amount fee : UInt64) :
    amount - fee ≠ 0 ∧ (amount - fee).toNat + fee.toNat = amount.toNat ↔ fee < amount := by
  constructor
  · rintro ⟨some, sum⟩
    rw [UInt64.lt_iff_toNat_lt]
    have positive : (amount - fee).toNat ≠ 0 := fun none => some (UInt64.toNat_inj.mp none)
    omega
  · intro less
    have room := UInt64.lt_iff_toNat_lt.mp less
    have rest : (amount - fee).toNat = amount.toNat - fee.toNat :=
      UInt64.toNat_sub_of_le _ _ (UInt64.le_iff_toNat_le.mpr (Nat.le_of_lt room))
    refine ⟨fun none => ?_, by omega⟩
    rw [none] at rest
    simp at rest
    omega

theorem sweep_valid_iff (ch : Channel) (parent : Transaction) (vout : Nat) (script : Bytes)
    (pre : List Bytes) (nonce : UInt64) (inside : vout < parent.outputs.length)
    (few : parent.outputs.length ≤ 18) :
    ValueValid P parent (sweep P ch parent vout script pre nonce) ↔
      ch.info.fee < amountAt parent vout := by
  have index : (UInt32.ofNat vout).toNat = vout :=
    UInt32.toNat_ofNat_of_lt' (show vout < 2 ^ 32 by omega)
  rw [← less_fee_iff]
  constructor
  · intro valid
    have positive := valid.positive ⟨ch.keys.address, amountAt parent vout - ch.info.fee⟩
      (List.mem_singleton.mpr rfl)
    have balanced := valid.balanced
    simp only [sweep, bareSweep, List.map_cons, List.map_nil, List.sum_cons, List.sum_nil,
      Nat.add_zero, index] at balanced
    exact ⟨positive, balanced⟩
  · rintro ⟨positive, balanced⟩
    refine ⟨?_, List.nodup_singleton _, ?_, ?_⟩
    · intro input member
      rw [List.mem_singleton.mp member]
      exact ⟨rfl, by rw [index]; exact inside⟩
    · intro output member
      rw [List.mem_singleton.mp member]
      exact positive
    · simp only [sweep, bareSweep, List.map_cons, List.map_nil, List.sum_cons, List.sum_nil,
        Nat.add_zero, index]
      exact balanced

theorem freeOutput_inside (tx : Transaction) (taken : List Nat) (address : Bytes) (index : Nat)
    (found : freeOutput tx taken address = some index) : index < tx.outputs.length := by
  have placed := freeOutput_recipient tx taken address index found
  simpa using (List.getElem?_eq_some_iff.mp placed).1

theorem sweepToLocal_valid (ch : Channel) (commitment tx : Transaction)
    (few : commitment.outputs.length ≤ 18) (swept : sweepToLocal P ch commitment = some tx) :
    ValueValid P commitment tx := by
  simp only [sweepToLocal, Option.bind_eq_bind, Option.bind_eq_some_iff] at swept
  obtain ⟨vout, found, swept⟩ := swept
  split at swept
  · cases swept
  · rename_i worth
    rw [← Option.some.inj swept]
    exact (sweep_valid_iff ch commitment vout _ _ _ (freeOutput_inside _ _ _ _ found) few).mpr
      (UInt64.not_le.mp worth)

/-- The penalty takes each output once, and its total does not wrap. -/
theorem penaltyFor_valid (ch : Channel) (broadcast tx : Transaction)
    (few : broadcast.outputs.length ≤ 18)
    (narrow : (broadcast.outputs.map (fun output => output.amount.toNat)).sum < 2 ^ 64)
    (penalty : penaltyFor P ch broadcast = some tx) : ValueValid P broadcast tx := by
  simp only [penaltyFor, Option.bind_eq_bind, Option.bind_eq_some_iff] at penalty
  obtain ⟨secret, _, revHash, _, state, _, penalty⟩ := penalty
  split at penalty
  · cases penalty
  split at penalty
  · cases penalty
  rename_i worth
  rw [← Option.some.inj penalty]
  set outs := penaltyOutputs P ch broadcast state revHash with shape
  obtain ⟨once, sound⟩ := takePlaces_sound (broadcast.outputs.map TxOutput.recipient)
    (searchedAddresses P ch state revHash) [] List.nodup_nil
  rw [← penaltyOutputs_places, ← shape] at once sound
  have inside : ∀ place ∈ outs.map Prod.fst, place < broadcast.outputs.length := by
    intro place taken
    rcases sound place taken with none | ⟨_, _, named⟩
    · simp at none
    · simpa using (List.getElem?_eq_some_iff.mp named).1
  have index : ∀ out ∈ outs, (UInt32.ofNat out.1).toNat = out.1 := by
    intro out listed
    have bound := inside out.1 (List.mem_map.mpr ⟨out, listed, rfl⟩)
    exact UInt32.toNat_ofNat_of_lt' (show out.1 < 2 ^ 32 by omega)
  have spent : ((outs.map (fun out => amountAt broadcast out.1)).map UInt64.toNat).sum =
      ((outs.map Prod.fst).map (fun place => (amountAt broadcast place).toNat)).sum := by
    rw [List.map_map, List.map_map]
    rfl
  have bounded := amounts_le broadcast _ once inside
  have total := sum_words (outs.map (fun out => amountAt broadcast out.1)) (by omega)
  obtain ⟨positive, balanced⟩ := (less_fee_iff _ _).mpr (UInt64.not_le.mp worth)
  refine ⟨?_, ?_, ?_, ?_⟩
  · intro input member
    obtain ⟨out, listed, rfl⟩ := List.mem_map.mp member
    refine ⟨rfl, ?_⟩
    rw [index out listed]
    exact inside out.1 (List.mem_map.mpr ⟨out, listed, rfl⟩)
  · rw [justiceTx, List.map_map]
    have pairs := List.Nodup.of_map Prod.fst once
    refine pairs.map_on (fun out listed out' listed' same => ?_)
    have places : out.1 = out'.1 := by
      rw [← index out listed, ← index out' listed']
      exact congrArg UInt32.toNat (Prod.mk.inj same).2
    exact List.inj_on_of_nodup_map once listed listed' places
  · intro output member
    rw [List.mem_singleton.mp member]
    exact positive
  · have inputs : (justiceTx P ch broadcast outs secret
        (outs.map (fun out => amountAt broadcast out.1)).sum).inputs.map
          (fun input => (amountAt broadcast input.outputIndex.toNat).toNat) =
        (outs.map (fun out => amountAt broadcast out.1)).map UInt64.toNat := by
      rw [justiceTx, List.map_map, List.map_map]
      refine List.map_congr_left (fun out listed => ?_)
      show (amountAt broadcast (UInt32.ofNat out.1).toNat).toNat = _
      rw [index out listed]
      rfl
    rw [inputs, ← total, ← balanced]
    simp [justiceTx]

/-! ### Positions of HTLCs -/

/-- The last place of the items that pass a test holds the last such item. -/
theorem last_place {α : Type} (test : α → Bool) (items : List α) :
    ((List.range items.length).filter (fun index => (items[index]?).any test)).getLast?.bind
      (fun index => items[index]?) = (items.filter test).getLast? := by
  induction items using List.reverseRecOn with
  | nil => rfl
  | append_singleton items item ih =>
    have earlier : (List.range items.length).filter
        (fun index => ((items ++ [item])[index]?).any test) =
        (List.range items.length).filter (fun index => (items[index]?).any test) := by
      refine List.filter_congr (fun index member => ?_)
      rw [List.getElem?_append_left (List.mem_range.mp member)]
    rw [List.length_append, List.length_singleton, List.range_succ, List.filter_append, earlier,
      List.filter_append]
    by_cases passes : test item = true
    · simp [passes]
    · simp only [passes, List.getElem?_concat_length, Option.any_some, List.filter_singleton,
        cond_false, List.append_nil, ← ih]
      refine Option.bind_congr (fun index found => ?_)
      have inside := List.mem_range.mp (List.mem_filter.mp (List.mem_of_getLast? found)).1
      exact List.getElem?_append_left inside

theorem lastPosition_htlc (state : State) (id : UInt64) (position : Nat)
    (last : lastPosition state id = some position) :
    ∃ htlc, state.htlcs[position]? = some htlc ∧ htlc.id = id ∧ htlcOf state id = some htlc := by
  have tests : ∀ index : Nat, ((state.htlcs.map Htlc.id)[index]? == some id) =
      (state.htlcs[index]?).any (fun htlc => decide (htlc.id = id)) := by
    intro index
    rw [List.getElem?_map]
    cases state.htlcs[index]? with
    | none => rfl
    | some htlc => simp [Bool.beq_eq_decide_eq]
  simp only [lastPosition, tests] at last
  have found := last_place (fun htlc : Htlc => decide (htlc.id = id)) state.htlcs
  rw [last, Option.bind_some] at found
  obtain ⟨htlc, placed, same⟩ :=
    (Option.any_eq_true _ _).mp (List.mem_filter.mp (List.mem_of_getLast? last)).2
  rw [placed] at found
  exact ⟨htlc, placed, of_decide_eq_true same, found.symm⟩

/-- The outputs of the HTLCs are the last ones of a commitment. -/
theorem htlc_output_placed (info : Info) (holderA : Bool) (state : State) (revHash : Bytes)
    (position : Nat) (htlc : Htlc) (listed : state.htlcs[position]? = some htlc) :
    (commitmentTx P info holderA state revHash).outputs[
      (commitmentTx P info holderA state revHash).outputs.length - state.htlcs.length + position]? =
      some (htlcOutput P info (if holderA then info.addrB else info.addrA) revHash htlc) := by
  generalize parties : (commitmentTx P info holderA state revHash).outputs = outputs
  obtain ⟨front, shape⟩ : ∃ front, outputs = front ++
      state.htlcs.map (htlcOutput P info (if holderA then info.addrB else info.addrA) revHash) :=
    ⟨_, parties.symm⟩
  have base : outputs.length - state.htlcs.length = front.length := by
    rw [shape, List.length_append, List.length_map]
    omega
  rw [base, shape, List.getElem?_append_right (Nat.le_add_right ..), Nat.add_sub_cancel_left,
    List.getElem?_map, listed]
  rfl

/-! ### Spends of HTLCs -/

/-- A spend of an HTLC takes the output of the requested one, and its value is valid exactly when
the HTLC is worth more than the fee. -/
theorem sweepHtlcSuccess_exact (ch : Channel) (state : State) (mine : Bool) (revHash : Bytes)
    (accepted : AcceptedState ch.info state) (commitment : Transaction)
    (built : commitment = commitmentTx P ch.info (if mine then ch.isA else !ch.isA) state revHash)
    (agreed : ch.agreedState commitment.nonce.toNat = some state)
    (hash : ch.hashOf P mine commitment.nonce.toNat = some revHash) (id : UInt64) (preimage : Bytes)
    (tx : Transaction) (swept : sweepHtlcSuccess P ch commitment mine id preimage = some tx) :
    SpendsHtlc P ch commitment mine state revHash id tx ∧
      (ValueValid P commitment tx ↔
        ∀ htlc, htlcOf state id = some htlc → ch.info.fee < htlc.amount) := by
  simp only [sweepHtlcSuccess, agreed, hash, Option.bind_eq_bind, Option.bind_some,
    Option.bind_eq_some_iff, Option.ite_none_left_eq_some, Option.some.injEq] at swept
  obtain ⟨_, _, _, position, last, _, rfl⟩ := swept
  obtain ⟨htlc, listed, same, found⟩ := lastPosition_htlc state id position last
  have placed := htlc_output_placed (P := P) ch.info (if mine then ch.isA else !ch.isA) state revHash
    position htlc listed
  rw [← built] at placed ⊢
  refine ⟨⟨position, htlc, listed, same, found, placed, rfl⟩, ?_⟩
  have few : commitment.outputs.length ≤ 18 := by
    rw [built]
    exact commitment_few _ _ _ _ accepted.few
  rw [sweep_valid_iff ch commitment _ _ _ _ (List.getElem?_eq_some_iff.mp placed).1 few,
    amountAt_output commitment _ _ placed]
  constructor
  · intro worth other found'
    rw [← Option.some.inj (found.symm.trans found')]
    exact worth
  · exact fun worth => worth htlc found

/-! ### The cooperative close -/

theorem coopCloseTx_valid_iff (ch : Channel) (accepted : AcceptedState ch.info ch.cur) :
    CloseValid ch (coopCloseTx ch) ↔ ch.cur.htlcs = [] ∧ ch.info.fee ≤ ch.cur.balA := by
  have paid : (((coopCloseTx ch).outputs.map (fun output => output.amount.toNat)).sum =
      (if ch.info.fee < ch.cur.balA then (ch.cur.balA - ch.info.fee).toNat else 0) +
        ch.cur.balB.toNat) := by
    rw [coopCloseTx, List.map_append, List.sum_append, filled_sum]
    split <;> simp
  have positive : ∀ output ∈ (coopCloseTx ch).outputs, output.amount ≠ 0 := by
    intro output member
    rcases List.mem_append.mp member with first | second
    · split at first
      · rename_i worth
        rw [List.mem_singleton.mp first]
        exact ((less_fee_iff _ _).mpr worth).1
      · simp at first
    · split at second
      · rename_i some
        rw [List.mem_singleton.mp second]
        exact some
      · simp at second
  -- what A keeps, also when it is nothing and has no output
  have kept : ch.info.fee.toNat ≤ ch.cur.balA.toNat →
      (if ch.info.fee < ch.cur.balA then (ch.cur.balA - ch.info.fee).toNat else 0) =
        ch.cur.balA.toNat - ch.info.fee.toNat := by
    intro covered
    split
    · exact UInt64.toNat_sub_of_le _ _ (UInt64.le_iff_toNat_le.mpr covered)
    · rename_i less
      rw [UInt64.lt_iff_toNat_lt] at less
      omega
  have total := accepted.conserved
  rw [State.total] at total
  constructor
  · intro valid
    have balanced := valid.balanced
    rw [paid, show (coopCloseTx ch).fee = ch.info.fee from rfl, ← total] at balanced
    have none : ch.cur.htlcs = [] := by
      by_contra some
      have feePaid := UInt64.le_iff_toNat_le.mp (accepted.feePaid some)
      obtain ⟨htlc, listed⟩ := List.exists_mem_of_ne_nil _ some
      have worth := positive_of_ne_zero (accepted.filled htlc listed)
      have member : htlc.amount.toNat ∈ ch.cur.htlcs.map (fun htlc => htlc.amount.toNat) :=
        List.mem_map.mpr ⟨htlc, listed, rfl⟩
      have part := List.single_le_sum (fun _ _ => Nat.zero_le _) _ member
      rw [kept feePaid] at balanced
      omega
    refine ⟨none, UInt64.le_iff_toNat_le.mpr ?_⟩
    by_contra less
    rw [if_neg (fun worth => less (Nat.le_of_lt (UInt64.lt_iff_toNat_lt.mp worth))), none] at balanced
    simp only [List.map_nil, List.sum_nil] at balanced
    omega
  · rintro ⟨none, feePaid⟩
    refine ⟨rfl, positive, ?_⟩
    have covered := UInt64.le_iff_toNat_le.mp feePaid
    rw [paid, show (coopCloseTx ch).fee = ch.info.fee from rfl, ← total, none, kept covered]
    simp only [List.map_nil, List.sum_nil]
    omega

/-! ### Every resolution -/

/-- The delayed spend is valid; so is the penalty when the funder can pay the fee; a spend of an
HTLC takes the requested one and is valid exactly when it is worth more than the fee; and the
close is valid exactly when no HTLC is open and the funder can pay the fee. Spends of HTLCs answer
only to the commitments that the endpoint expects. -/
theorem resolutions_exact (P : Primitives) (ch : Channel) (state : State)
    (accepted : AcceptedState ch.info state) :
    (∀ holderA revHash tx,
      sweepToLocal P ch (commitmentTx P ch.info holderA state revHash) = some tx →
      ValueValid P (commitmentTx P ch.info holderA state revHash) tx) ∧
    (∀ holderA revHash tx, ch.info.fee ≤ state.balA →
      penaltyFor P ch (commitmentTx P ch.info holderA state revHash) = some tx →
      ValueValid P (commitmentTx P ch.info holderA state revHash) tx) ∧
    (∀ mine revHash commitment id preimage tx,
      commitment = commitmentTx P ch.info (if mine then ch.isA else !ch.isA) state revHash →
      ch.agreedState commitment.nonce.toNat = some state →
      ch.hashOf P mine commitment.nonce.toNat = some revHash →
      sweepHtlcSuccess P ch commitment mine id preimage = some tx ∨
        sweepHtlcTimeout P ch commitment mine id = some tx →
      SpendsHtlc P ch commitment mine state revHash id tx ∧
        (ValueValid P commitment tx ↔
          ∀ htlc, htlcOf state id = some htlc → ch.info.fee < htlc.amount)) ∧
    (∀ commitment mine id preimage tx,
      sweepHtlcSuccess P ch commitment mine id preimage = some tx →
      ∃ agreed revHash, ch.agreedState commitment.nonce.toNat = some agreed ∧
        ch.hashOf P mine commitment.nonce.toNat = some revHash ∧
        hashTransaction P (commitmentTx P ch.info (if mine then ch.isA else !ch.isA) agreed revHash) =
          hashTransaction P commitment) ∧
    (state = ch.cur →
      (CloseValid ch (coopCloseTx ch) ↔ state.htlcs = [] ∧ ch.info.fee ≤ state.balA)) := by
  refine ⟨?_, ?_, ?_, ?_, ?_⟩
  · intro holderA revHash tx swept
    exact sweepToLocal_valid ch _ tx (commitment_few _ _ _ _ accepted.few) swept
  · intro holderA revHash tx feePaid penalty
    exact penaltyFor_valid ch _ tx (commitment_few _ _ _ _ accepted.few)
      (accepted.narrow feePaid holderA revHash) penalty
  · intro mine revHash commitment id preimage tx built agreed hash swept
    rcases swept with success | timeout
    · exact sweepHtlcSuccess_exact ch state mine revHash accepted commitment built agreed hash id
        preimage tx success
    · exact sweepHtlcSuccess_exact ch state mine revHash accepted commitment built agreed hash id [] tx
        timeout
  · intro commitment mine id preimage tx swept
    simp only [sweepHtlcSuccess, Option.bind_eq_bind, Option.bind_eq_some_iff,
      Option.ite_none_left_eq_some] at swept
    obtain ⟨agreed, current, _, _, revHash, hash, same, _⟩ := swept
    exact ⟨agreed, revHash, current, hash, not_not.mp same⟩
  · rintro rfl
    exact coopCloseTx_valid_iff ch accepted

/-! ### HTLCs of ten and of one -/

/-- The commitment of the endpoint for its current state. -/
def ownCommitment (ch : Channel) : Transaction :=
  commitmentTx samplePrimitives ch.info ch.isA ch.cur (ch.revHash samplePrimitives ch.cur.n)

set_option maxRecDepth 100000 in
/-- The HTLC of ten is spent for nine. -/
theorem ten_swept : ∃ tx,
    sweepHtlcTimeout samplePrimitives funderEndpoint (ownCommitment funderEndpoint) true 0 = some tx ∧
      ValueValid samplePrimitives (ownCommitment funderEndpoint) tx := by
  obtain ⟨tx, swept⟩ : ∃ tx, sweepHtlcTimeout samplePrimitives funderEndpoint
      (ownCommitment funderEndpoint) true 0 = some tx := Option.isSome_iff_exists.mp (by decide +kernel)
  have accepted : AcceptedState funderEndpoint.info funderEndpoint.cur :=
    ⟨by decide, by decide, by decide, fun _ => by decide⟩
  obtain ⟨_, _, htlcs, _⟩ := resolutions_exact samplePrimitives funderEndpoint _ accepted
  have exact := (htlcs true _ (ownCommitment funderEndpoint) 0 [] tx rfl (by decide +kernel) rfl
    (.inr swept)).2
  exact ⟨tx, swept, exact.mpr (by decide)⟩

/-- The endpoint with an HTLC of one. -/
def smallEndpoint : Channel :=
  { funderEndpoint with cur := ⟨1, 50, 49, [{ peerHtlc with amount := 1 }], 1⟩ }

set_option maxRecDepth 100000 in
/-- The HTLC of one is worth the fee, and its spend pays nothing. -/
theorem one_swept_for_nothing : AcceptedState smallEndpoint.info smallEndpoint.cur ∧
    ∃ tx, sweepHtlcTimeout samplePrimitives smallEndpoint (ownCommitment smallEndpoint) true 0 =
      some tx ∧ ¬ValueValid samplePrimitives (ownCommitment smallEndpoint) tx := by
  refine ⟨⟨by decide, by decide, by decide, fun _ => by decide⟩, ?_⟩
  have reading : (sweepHtlcTimeout samplePrimitives smallEndpoint (ownCommitment smallEndpoint) true
      0).map Transaction.outputs = some [⟨[], 0⟩] := by decide +kernel
  obtain ⟨tx, swept, outputs⟩ := Option.map_eq_some_iff.mp reading
  refine ⟨tx, swept, fun valid => ?_⟩
  exact valid.positive ⟨[], 0⟩ (outputs ▸ List.mem_singleton.mpr rfl) rfl

end Addition.Channels
