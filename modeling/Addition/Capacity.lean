import Addition.ChannelFunding
import Addition.Revocations

/-!
# The capacity of a channel

A state is checked against the capacity with words that wrap around, and the state of the
funding message also without the fee. A state that is current or pending divides the
capacity exactly, with both commitments worth the capacity less the fee, when its
amounts do not wrap and its funder can pay the fee; only the first state can fail the
latter.
-/

namespace Addition.Channels

open ByteStrings Checked FiniteTables TextLines Script

variable {P : Primitives}

/-- What a state gives to both parties and to its HTLCs. -/
def State.total (state : State) : Nat :=
  state.balA.toNat + state.balB.toNat + (state.htlcs.map (fun htlc => htlc.amount.toNat)).sum

/-- A state divides the capacity exactly, and both of its commitments are worth the capacity
less the fee in outputs that are not empty. -/
structure ExactState (P : Primitives) (info : Info) (state : State) : Prop where
  conserved : state.total = info.capacity.toNat
  feePaid : info.fee ≤ state.balA
  commitments : ∀ holderA revHash,
    ((commitmentTx P info holderA state revHash).outputs.map (fun output => output.amount.toNat)).sum +
      (commitmentTx P info holderA state revHash).fee.toNat = info.capacity.toNat ∧
    ∀ output ∈ (commitmentTx P info holderA state revHash).outputs, output.amount ≠ 0

/-- What is checked of every accepted state. -/
structure CheckedState (info : Info) (state : State) : Prop where
  sum : state.balA + state.balB + htlcSum state = info.capacity
  feePaid : state.n ≠ 0 → info.fee ≤ state.balA
  filled : ∀ htlc ∈ state.htlcs, htlc.amount ≠ 0

theorem htlcSum_toNat (state : State) :
    (htlcSum state).toNat = (state.htlcs.map (fun htlc => htlc.amount.toNat)).sum % 2 ^ 64 := by
  have loop : ∀ (htlcs : List Htlc) (start : UInt64),
      (htlcs.foldl (fun total htlc => total + htlc.amount) start).toNat =
        (start.toNat + (htlcs.map (fun htlc => htlc.amount.toNat)).sum) % 2 ^ 64 := by
    intro htlcs
    induction htlcs with
    | nil =>
      intro start
      have bound := start.toNat_lt
      simp only [List.foldl_nil, List.map_nil, List.sum_nil, Nat.add_zero]
      omega
    | cons htlc rest ih =>
      intro start
      rw [List.foldl_cons, ih, List.map_cons, List.sum_cons, UInt64.toNat_add]
      omega
  rw [htlcSum, loop]
  simp

variable {info : Info} {state : State}

/-- The check compares the total modulo the size of a word. -/
theorem CheckedState.total (checked : CheckedState info state) :
    state.total % 2 ^ 64 = info.capacity.toNat := by
  rw [← checked.sum, UInt64.toNat_add, UInt64.toNat_add, htlcSum_toNat, State.total]
  omega

theorem validateNext_checked (ch : Channel) (next : State) (valid : validateNext ch next = .ok ()) :
    CheckedState ch.info next := by
  simp only [validateNext, bind_ok, exists_unit, ensure_ok, decide_eq_true_eq, List.all_eq_true,
    Bool.and_eq_true, bne_iff_ne, beq_iff_eq] at valid
  obtain ⟨_, _, _, feePaid, _, sum, htlcs⟩ := valid
  exact ⟨sum, fun _ => feePaid, fun htlc member => (htlcs htlc member).1⟩

/-- The amounts of a party in its outputs. -/
theorem filled_sum (recipient : Bytes) (amount : UInt64) :
    ((if amount ≠ 0 then [(⟨recipient, amount⟩ : TxOutput)] else []).map
      (fun output => output.amount.toNat)).sum = amount.toNat := by
  by_cases none : amount = 0
  · simp [none]
  · simp [none]

/-- A checked state whose amounts do not wrap is exact when the fee can be paid. -/
theorem CheckedState.exact (checked : CheckedState info state)
    (narrow : state.total < 2 ^ 64) (feePaid : info.fee ≤ state.balA) : ExactState P info state := by
  have whole := checked.total
  rw [Nat.mod_eq_of_lt narrow] at whole
  have remaining : (state.balA - info.fee).toNat = state.balA.toNat - info.fee.toNat :=
    UInt64.toNat_sub_of_le _ _ feePaid
  have enough : info.fee.toNat ≤ state.balA.toNat := UInt64.le_iff_toNat_le.mp feePaid
  refine ⟨whole, feePaid, fun holderA revHash => ⟨?_, ?_⟩⟩
  · have htlcs : ∀ other, ((state.htlcs.map (htlcOutput P info other revHash)).map
        (fun output => output.amount.toNat)).sum =
          (state.htlcs.map (fun htlc => htlc.amount.toNat)).sum := by
      intro other
      rw [List.map_map]
      rfl
    have parties : (commitmentAmounts info holderA state).1.toNat +
        (commitmentAmounts info holderA state).2.toNat =
          state.balA.toNat - info.fee.toNat + state.balB.toNat := by
      unfold commitmentAmounts
      cases holderA
      · show state.balB.toNat + (state.balA - info.fee).toNat = _
        omega
      · show (state.balA - info.fee).toNat + state.balB.toNat = _
        omega
    simp only [commitmentTx, List.map_append, List.sum_append, filled_sum, htlcs]
    rw [← whole, State.total]
    omega
  · intro output member
    simp only [commitmentTx, List.mem_append, List.mem_map] at member
    rcases member with (first | second) | ⟨htlc, listed, rfl⟩
    · split at first
      · rename_i some
        rw [List.mem_singleton.mp first]
        exact some
      · simp at first
    · split at second
      · rename_i some
        rw [List.mem_singleton.mp second]
        exact some
      · simp at second
    · exact checked.filled htlc listed

/-- A checked state is exact exactly when its amounts do not wrap and the fee can be paid. -/
theorem CheckedState.exact_iff (checked : CheckedState info state) :
    ExactState P info state ↔ state.total < 2 ^ 64 ∧ (state.n = 0 → info.fee ≤ state.balA) := by
  constructor
  · intro exact
    refine ⟨?_, fun _ => exact.feePaid⟩
    rw [exact.conserved]
    exact info.capacity.toNat_lt
  · rintro ⟨narrow, first⟩
    refine checked.exact narrow ?_
    by_cases initial : state.n = 0
    · exact first initial
    · exact checked.feePaid initial

/-! ### Accepted states -/

/-- A first state is current once its signature was accepted. -/
theorem first_holds (keys : WalletKeys) (remotePub : Bytes) (isA : Bool) (info : Info)
    (seed h0 h1 : Bytes) (initial : State) (sig : Bytes) (ch : Channel) (first : initial.n = 0)
    (received : receiveCommitSig P (openingChannel keys remotePub isA info seed h0 h1) initial sig =
      .ok ch) (property : Info → State → Prop) (holds : property info initial) :
    Holds property ch := by
  obtain ⟨verified, rfl⟩ := (receiveCommitSig_first keys remotePub isA info seed h0 h1 initial sig ch
    first).mp received
  exact ⟨holds, by simp [openingChannel], signature_ne_nil verified, by simp [openingChannel]⟩

/-- A first state without HTLCs that adds up to the capacity. -/
theorem first_checked (info : Info) (initial : State) (first : initial.n = 0)
    (noHtlcs : initial.htlcs = []) (sum : initial.balA + initial.balB = info.capacity) :
    CheckedState info initial := by
  refine ⟨?_, fun later => absurd first later, by simp [noHtlcs]⟩
  rw [htlcSum, noHtlcs, List.foldl_nil, UInt64.add_zero, sum]

theorem funded_holds (keys : WalletKeys) (seed : Bytes) (openFields fundFields : List Bytes)
    (taken : Bytes → Bool) (reply reply' : Bytes) (opening ch : Channel)
    (opens : handleOpen P (some keys) seed openFields = .ok (reply, opening))
    (funds : handleFund P (some opening) taken fundFields = .ok (reply', ch)) :
    Holds CheckedState ch := by
  obtain ⟨remotePub, info, h0, h1, _, rfl⟩ := handleOpen_ok keys seed openFields reply opening opens
  obtain ⟨txid, vout, initial, sig, first, noHtlcs, sum, received⟩ :=
    handleFund_ok _ ch taken fundFields reply' funds
  exact first_holds keys remotePub false { info with fundingTxid := txid, fundingVout := vout } seed h0
    h1 initial sig ch first received CheckedState (first_checked _ initial first noHtlcs sum)

theorem opened_holds (keys : WalletKeys) (seed : Bytes) (capacity push : UInt64) (reply : List Bytes)
    (txid : Bytes) (vout : UInt32) (sig : Bytes) (ch : Channel)
    (opens : rchanOpen P keys seed capacity push reply txid vout sig = .ok ch) :
    Holds CheckedState ch := by
  obtain ⟨_, _, remotePub, info, h0, h1, _, total, _, received⟩ :=
    rchanOpen_ok keys seed capacity push reply txid vout sig ch opens
  refine first_holds keys remotePub true info seed h0 h1 _ sig ch rfl received CheckedState
    (first_checked _ _ rfl rfl ?_)
  rw [total]
  exact UInt64.sub_add_cancel capacity push

/-- Every state of a channel in a run was checked. -/
theorem ChannelRun.checked {rc : RemoteChannel} (run : ChannelRun P rc) :
    Holds CheckedState rc.ch := by
  induction run with
  | funded keys seed openFields fundFields taken reply reply' opening ch opens funds =>
    exact funded_holds keys seed openFields fundFields taken reply reply' opening ch opens funds
  | opened keys seed capacity push reply txid vout sig ch opens =>
    exact opened_holds keys seed capacity push reply txid vout sig ch opens
  | next rc event _ ih =>
    exact (step_moves rc event).holds validateNext_checked ih

/-- A state that `validate_next` lets through is exact exactly when its amounts do not wrap;
and so is one that is current or pending, where the first state must also cover the fee. -/
theorem accepted_state_exact_iff (P : Primitives) :
    (∀ ch next, validateNext ch next = .ok () →
      (ExactState P ch.info next ↔ next.total < 2 ^ 64)) ∧
    ∀ rc, ChannelRun P rc → ∀ state, state = rc.ch.cur ∨ rc.ch.pending = some state →
      (ExactState P rc.ch.info state ↔
        state.total < 2 ^ 64 ∧ (state.n = 0 → rc.ch.info.fee ≤ state.balA)) := by
  refine ⟨fun ch next valid => ?_, fun rc run state accepted => ?_⟩
  · have checked := validateNext_checked ch next valid
    have later : next.n ≠ 0 := by
      simp only [validateNext, bind_ok, exists_unit, ensure_ok, decide_eq_true_eq] at valid
      omega
    rw [checked.exact_iff]
    exact ⟨And.left, fun narrow => ⟨narrow, fun first => absurd first later⟩⟩
  · rcases accepted with rfl | flight
    · exact run.checked.current.exact_iff
    · exact (run.checked.pending state flight).exact_iff

/-! ### Two fundings -/

/-- The peer opens a channel of a hundred with the sample wallet. -/
def sampleOpen : List Bytes :=
  [ascii "OPEN", ascii "0a", ascii "w", ascii "peer", sampleAddress 9, toHex [9], ascii "100",
    ascii "40", peerHash 0, peerHash 1]

/-- The channel that the peer opened. -/
def sampleFunding : Channel :=
  openingChannel sampleKeys (toHex [9]) false ⟨sampleAddress 9, sampleAddress 7, 100, [], 0, 6, 1⟩
    (ascii "seed") (peerHash 0) (peerHash 1)

/-- The peer funds it with a first state. -/
def fundMessage (initial : State) : List Bytes :=
  [ascii "FUND", ascii "0a", ascii "0b", ascii "0b", ascii "0",
    encodeState initial ++ ascii "#" ++ sampleSignature 9 (sighash signingPrimitives
      (commitmentTx signingPrimitives
        ⟨sampleAddress 9, sampleAddress 7, 100, ascii "0b", 0, 6, 1⟩ false initial
        (sampleFunding.revHash signingPrimitives 0)))]

set_option maxRecDepth 100000 in
theorem sampleOpen_opens :
    ∃ reply, handleOpen signingPrimitives (some sampleKeys) (ascii "seed") sampleOpen =
      .ok (reply, sampleFunding) :=
  ⟨_, rfl⟩

theorem ok_of_toOption {α β : Type} (outcome : Except String α) (read : α → β) (value : β)
    (found : outcome.toOption.map read = some value) :
    ∃ result, outcome = .ok result ∧ read result = value := by
  cases outcome with
  | error message => simp [Except.toOption] at found
  | ok result => exact ⟨result, rfl, by simpa [Except.toOption] using found⟩

set_option maxRecDepth 100000 in
/-- The funding is accepted with forty for the endpoint, and with a hundred and fifty. -/
theorem sampleFund_funds (amount : UInt64) (either : amount = 40 ∨ amount = 150) :
    ∃ rc, ChannelRun signingPrimitives rc ∧ rc.ch.cur = sampleState 0 amount ∧
      rc.ch.info.capacity = 100 ∧ rc.ch.info.fee = 1 := by
  have accepted : (handleFund signingPrimitives (some sampleFunding) (fun _ => false)
      (fundMessage (sampleState 0 amount))).toOption.map
        (fun funded => (funded.2.cur, funded.2.info.capacity, funded.2.info.fee)) =
      some (sampleState 0 amount, 100, 1) := by
    rcases either with rfl | rfl <;> decide +kernel
  obtain ⟨⟨reply', ch⟩, funds, read⟩ := ok_of_toOption _ _ _ accepted
  obtain ⟨reply, opens⟩ := sampleOpen_opens
  simp only [Prod.mk.injEq] at read
  exact ⟨⟨.opened, ch, .idle, []⟩,
    .funded sampleKeys (ascii "seed") sampleOpen _ (fun _ => false) reply reply' sampleFunding ch opens
      funds, read⟩

/-- A first state of sixty and forty divides the capacity of a hundred exactly. -/
theorem plain_funding_exact :
    ∃ rc, ChannelRun signingPrimitives rc ∧ ExactState signingPrimitives rc.ch.info rc.ch.cur := by
  obtain ⟨rc, run, current, capacity, fee⟩ := sampleFund_funds 40 (.inl rfl)
  refine ⟨rc, run, ((accepted_state_exact_iff signingPrimitives).2 rc run rc.ch.cur (.inl rfl)).mpr ?_⟩
  rw [current, fee]
  decide

/-- A first state whose amounts wrap is accepted for the same capacity. -/
theorem wrapped_funding_accepted :
    ∃ rc, ChannelRun signingPrimitives rc ∧ rc.ch.info.capacity.toNat < rc.ch.cur.total := by
  obtain ⟨rc, run, current, capacity, _⟩ := sampleFund_funds 150 (.inr rfl)
  refine ⟨rc, run, ?_⟩
  rw [current, capacity]
  decide

end Addition.Channels
