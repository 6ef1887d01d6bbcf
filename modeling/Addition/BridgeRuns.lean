import Addition.Bridge

/-!
# Collateral and attestations along runs of the bridge

The wrapped coins of a chain are covered by its locked pool as long as no mint goes beyond
what is locked and not yet wrapped; a release takes the same amount from both sides and a
burn takes from one. An attestation is remembered under the digest of its text, so its
signature is used once as long as no chain remembers another spelling of it.
-/

namespace Addition

namespace Bridge

open ByteStrings Checked FiniteTables Runs

variable {P : Primitives}

/-! ### Engines -/

theorem lookup_put (engine : BridgeEngine) (chain tested : Bytes) (state : ChainState) :
    (engine.put chain state).chains.lookup tested =
      if tested = chain then some state else engine.chains.lookup tested :=
  lookup_insert engine.chains chain tested state

/-- No chain has more wrapped coins than locked ones. -/
def Backed (engine : BridgeEngine) : Prop :=
  ∀ chain state, engine.chains.lookup chain = some state →
    state.outstanding ≤ state.lockedPool.toNat

variable {engine left : BridgeEngine} {chain : Bytes} {state : ChainState} {history : History}

theorem Backed.put (backed : Backed engine) (chain : Bytes)
    (state : ChainState) (covered : state.outstanding ≤ state.lockedPool.toNat) :
    Backed (engine.put chain state) := by
  intro tested found listed
  rw [lookup_put] at listed
  split at listed
  · exact Option.some.inj listed ▸ covered
  · exact backed tested found listed

/-- Attestations of one engine are remembered by another. -/
def Remembers (engine left : BridgeEngine) : Prop :=
  ∀ chain state, engine.chains.lookup chain = some state →
    ∃ state', left.chains.lookup chain = some state' ∧
      state.usedAttestations ⊆ state'.usedAttestations

theorem Remembers.refl (engine : BridgeEngine) : Remembers engine engine :=
  fun _ state found => ⟨state, found, Finset.Subset.refl _⟩

theorem Remembers.trans {between : BridgeEngine} (first : Remembers engine between)
    (second : Remembers between left) : Remembers engine left := by
  intro chain state found
  obtain ⟨middle, listed, fewer⟩ := first chain state found
  obtain ⟨last, listed', fewer'⟩ := second chain middle listed
  exact ⟨last, listed', fewer.trans fewer'⟩

theorem Remembers.put (found : engine.chains.lookup chain = some state) (state' : ChainState)
    (more : state.usedAttestations ⊆ state'.usedAttestations) :
    Remembers engine (engine.put chain state') := by
  intro tested other listed
  rw [lookup_put]
  split
  · rename_i same
    rw [same, found] at listed
    exact ⟨state', rfl, Option.some.inj listed ▸ more⟩
  · exact ⟨other, listed, Finset.Subset.refl _⟩

/-! ### Balances -/

/-- Setting a balance exchanges it in the sum. -/
theorem outstanding_setBalance (state : ChainState) (user : Bytes) (amount : UInt64) :
    (state.setBalance user amount).outstanding + (state.balance user).toNat =
      state.outstanding + amount.toNat := by
  have exchanged := measure_insert (fun _ (amount : UInt64) => amount.toNat)
    state.wrappedBalances user amount
  have held : weightAt (fun _ (amount : UInt64) => amount.toNat) state.wrappedBalances user =
      (state.balance user).toNat := by
    unfold weightAt ChainState.balance
    cases state.wrappedBalances.lookup user
    · rfl
    · rfl
  rw [held] at exchanged
  exact exchanged

/-- Writing a balance back leaves the sum. -/
theorem outstanding_touched (state : ChainState) (user : Bytes) :
    (state.setBalance user (state.balance user)).outstanding = state.outstanding := by
  have exchanged := outstanding_setBalance state user (state.balance user)
  omega

/-! ### What the calls keep -/

/-- A mint of an amount that the pool covers is covered together with what is wrapped. -/
def Covers (engine : BridgeEngine) (chain : Bytes) (amount : UInt64) : Prop :=
  ∀ state, engine.chains.lookup chain = some state → amount ≤ state.lockedPool →
    state.outstanding + amount.toNat ≤ state.lockedPool.toNat

theorem registerChain_keeps (engine : BridgeEngine) (chain : Bytes) (backed : Backed engine) :
    Backed (registerChain engine chain).2 ∧ Remembers engine (registerChain engine chain).2 := by
  unfold registerChain
  split
  · exact ⟨backed, .refl _⟩
  · cases found : engine.chains.lookup chain with
    | some state => exact ⟨backed, .refl _⟩
    | none =>
      refine ⟨backed.put chain _ (Nat.zero_le _), ?_⟩
      intro tested state listed
      refine ⟨state, ?_, Finset.Subset.refl _⟩
      rw [lookup_put, if_neg, listed]
      rintro rfl
      rw [found] at listed
      exact absurd listed (by simp)

theorem setAttestorKey_keeps (engine : BridgeEngine) (chain pubkeyHex : Bytes)
    (backed : Backed engine) :
    Backed (setAttestorKey engine chain pubkeyHex).2 ∧
      Remembers engine (setAttestorKey engine chain pubkeyHex).2 := by
  unfold setAttestorKey
  split
  · exact ⟨backed, .refl _⟩
  · cases found : engine.chains.lookup chain with
    | none => exact ⟨backed, .refl _⟩
    | some state =>
      exact ⟨backed.put chain _ (backed chain state found), .put found _ (Finset.Subset.refl _)⟩

theorem lock_keeps (engine : BridgeEngine) (chain user : Bytes) (amount : UInt64)
    (backed : Backed engine) :
    Backed (lock P engine chain user amount).2 ∧
      Remembers engine (lock P engine chain user amount).2 := by
  unfold lock
  split
  · exact ⟨backed, .refl _⟩
  · cases found : engine.chains.lookup chain with
    | none => exact ⟨backed, .refl _⟩
    | some state =>
      dsimp only
      split
      · exact ⟨backed, .refl _⟩
      · rename_i room
        have covered := backed chain state found
        have more := toNat_add_of_not_overflows state.lockedPool amount (by simpa using room)
        refine ⟨backed.put chain _ ?_, .put found _ (Finset.Subset.refl _)⟩
        change state.outstanding ≤ (state.lockedPool + amount).toNat
        omega

theorem mintWrapped_keeps (engine : BridgeEngine) (chain user : Bytes) (amount : UInt64)
    (backed : Backed engine) (covers : Covers engine chain amount) :
    Backed (mintWrapped engine chain user amount).2 ∧
      Remembers engine (mintWrapped engine chain user amount).2 := by
  unfold mintWrapped
  cases found : engine.chains.lookup chain with
  | none => exact ⟨backed, .refl _⟩
  | some state =>
    have covered := backed chain state found
    dsimp only
    split
    · exact ⟨backed, .refl _⟩
    · split
      · exact ⟨backed, .refl _⟩
      · rename_i enough
        split
        · refine ⟨backed.put chain _ ?_, .put found _ (Finset.Subset.refl _)⟩
          rw [outstanding_touched]
          exact covered
        · rename_i room
          have exchanged := outstanding_setBalance state user (state.balance user + amount)
          have more := toNat_add_of_not_overflows (state.balance user) amount (by simpa using room)
          have free := covers state found (UInt64.not_lt.mp enough)
          refine ⟨backed.put chain _ ?_, .put found _ (Finset.Subset.refl _)⟩
          change (state.setBalance user (state.balance user + amount)).outstanding ≤ state.lockedPool.toNat
          omega

theorem burnWrapped_keeps (engine : BridgeEngine) (chain user : Bytes) (amount : UInt64)
    (backed : Backed engine) :
    Backed (burnWrapped engine chain user amount).2 ∧
      Remembers engine (burnWrapped engine chain user amount).2 := by
  unfold burnWrapped
  cases found : engine.chains.lookup chain with
  | none => exact ⟨backed, .refl _⟩
  | some state =>
    have covered := backed chain state found
    dsimp only
    split
    · refine ⟨backed.put chain _ ?_, .put found _ (Finset.Subset.refl _)⟩
      rw [outstanding_touched]
      exact covered
    · rename_i held
      have enough := UInt64.not_lt.mp (not_or.mp held).1
      have exchanged := outstanding_setBalance state user (state.balance user - amount)
      have less := UInt64.toNat_sub_of_le _ _ enough
      refine ⟨backed.put chain _ ?_, .put found _ (Finset.Subset.refl _)⟩
      change (state.setBalance user (state.balance user - amount)).outstanding ≤ state.lockedPool.toNat
      omega

theorem release_keeps (engine : BridgeEngine) (chain user : Bytes) (amount : UInt64)
    (backed : Backed engine) :
    Backed (release engine chain user amount).2 ∧
      Remembers engine (release engine chain user amount).2 := by
  unfold release
  cases found : engine.chains.lookup chain with
  | none => exact ⟨backed, .refl _⟩
  | some state =>
    have covered := backed chain state found
    dsimp only
    split
    · exact ⟨backed, .refl _⟩
    · rename_i pooled
      split
      · refine ⟨backed.put chain _ ?_, .put found _ (Finset.Subset.refl _)⟩
        rw [outstanding_touched]
        exact covered
      · rename_i held
        have enough := UInt64.not_lt.mp held
        have locked := UInt64.not_lt.mp (not_or.mp pooled).1
        have exchanged := outstanding_setBalance state user (state.balance user - amount)
        have less := UInt64.toNat_sub_of_le _ _ enough
        have lessLocked := UInt64.toNat_sub_of_le _ _ locked
        have small := UInt64.le_iff_toNat_le.mp enough
        refine ⟨backed.put chain _ ?_, .put found _ (Finset.Subset.refl _)⟩
        change (state.setBalance user (state.balance user - amount)).outstanding ≤
          (state.lockedPool - amount).toNat
        omega

/-- What an attested call asks of the state for what it carries out. -/
def Kind.Allows : Kind → BridgeEngine → Bytes → UInt64 → Prop
  | .mint, engine, chain, amount => Covers engine chain amount
  | .release, _, _, _ => True

theorem act_keeps (kind : Kind) (engine : BridgeEngine) (chain user : Bytes) (amount : UInt64)
    (backed : Backed engine) (allows : kind.Allows engine chain amount) :
    Backed (kind.act engine chain user amount).2 ∧
      Remembers engine (kind.act engine chain user amount).2 := by
  cases kind with
  | mint => exact mintWrapped_keeps engine chain user amount backed allows
  | release => exact release_keeps engine chain user amount backed

theorem Backed.forget (backed : Backed engine) (chain id : Bytes) :
    Backed (engine.forget chain id) := by
  unfold BridgeEngine.forget
  cases found : engine.chains.lookup chain with
  | none => exact backed
  | some state => exact backed.put chain _ (backed chain state found)

/-- Forgetting an attestation that was remembered for one call. -/
theorem remembers_forget {id : Bytes}
    (found : engine.chains.lookup chain = some state) (unused : id ∉ state.usedAttestations)
    (remembers : Remembers (engine.put chain
      { state with usedAttestations := insert id state.usedAttestations }) left) :
    Remembers engine (left.forget chain id) := by
  have kept : Remembers engine left :=
    (Remembers.put found _ (Finset.subset_insert _ _)).trans remembers
  intro tested other listed
  obtain ⟨after, listed', fewer⟩ := kept tested other listed
  unfold BridgeEngine.forget
  cases again : left.chains.lookup chain with
  | none => exact ⟨after, listed', fewer⟩
  | some last =>
    rw [lookup_put]
    split
    · rename_i same
      rw [same] at listed listed'
      rw [found] at listed
      rw [again] at listed'
      obtain rfl := Option.some.inj listed
      obtain rfl := Option.some.inj listed'
      exact ⟨_, rfl, Finset.subset_erase.mpr ⟨fewer, unused⟩⟩
    · exact ⟨after, listed', fewer⟩

/-- What an attested call keeps; when it succeeds, its attestation was new to the chain and
is remembered by it. -/
theorem attested_keeps (kind : Kind) (engine : BridgeEngine) (chain user : Bytes)
    (amount : UInt64) (attestation : Bytes) (backed : Backed engine)
    (allows : kind.Allows engine chain amount) :
    Backed (attested P kind engine chain user amount attestation).2 ∧
    Remembers engine (attested P kind engine chain user amount attestation).2 ∧
    ((attested P kind engine chain user amount attestation).1.isOk = true →
      (∃ state, engine.chains.lookup chain = some state ∧
        attestationId P kind (payload chain user amount) attestation ∉ state.usedAttestations) ∧
      ∃ state, (attested P kind engine chain user amount attestation).2.chains.lookup chain =
        some state ∧
        attestationId P kind (payload chain user amount) attestation ∈ state.usedAttestations) := by
  unfold attested
  cases found : engine.chains.lookup chain with
  | none => exact ⟨backed, .refl _, by simp [Except.isOk, Except.toBool]⟩
  | some state =>
    dsimp only
    split
    · exact ⟨backed, .refl _, by simp [Except.isOk, Except.toBool]⟩
    · split
      · exact ⟨backed, .refl _, by simp [Except.isOk, Except.toBool]⟩
      · split
        · exact ⟨backed, .refl _, by simp [Except.isOk, Except.toBool]⟩
        · rename_i unused
          generalize attestationId P kind (payload chain user amount) attestation = id at unused ⊢
          have remembered : Backed (engine.put chain
              { state with usedAttestations := insert id state.usedAttestations }) :=
            backed.put chain _ (backed chain state found)
          have allowed : kind.Allows (engine.put chain
              { state with usedAttestations := insert id state.usedAttestations }) chain amount := by
            cases kind with
            | release => trivial
            | mint =>
              intro other listed small
              rw [lookup_put, if_pos rfl] at listed
              obtain rfl := Option.some.inj listed
              exact allows state found small
          obtain ⟨backedLeft, remembersLeft⟩ := act_keeps kind _ chain user amount remembered allowed
          split
          · rename_i message left acted
            rw [acted] at backedLeft remembersLeft
            exact ⟨backedLeft.forget chain id, remembers_forget found unused remembersLeft,
              by simp [Except.isOk, Except.toBool]⟩
          · rename_i left acted
            rw [acted] at backedLeft remembersLeft
            refine ⟨backedLeft, (Remembers.put found _ (Finset.subset_insert _ _)).trans
              remembersLeft, fun _ => ⟨⟨state, rfl, unused⟩, ?_⟩⟩
            obtain ⟨after, listed, more⟩ := remembersLeft chain _ (by rw [lookup_put, if_pos rfl])
            exact ⟨after, listed, more (Finset.mem_insert_self _ _)⟩

/-! ### Signatures -/

/-- The text under which an attested call is remembered. -/
def Use.id (P : Primitives) (use : Use) : Bytes :=
  attestationId P use.kind (payload use.chain use.user use.amount) use.attestation

/-- No chain remembers the signature of an attested call for the same message, except that
the call's own chain may remember this very attestation. -/
def Unclaimed (P : Primitives) (engine : BridgeEngine) (use : Use) : Prop :=
  ∀ chain state attestation, engine.chains.lookup chain = some state →
    signatureOctets attestation = signatureOctets use.attestation →
    attestationId P use.kind (payload use.chain use.user use.amount) attestation ∈
      state.usedAttestations →
    chain = use.chain ∧ attestation = use.attestation

/-- Messages of one text are of one kind and have one payload. -/
theorem message_parts (kind kind' : Kind) (text text' : Bytes)
    (same : kind.messageTag ++ text = kind'.messageTag ++ text') : kind = kind' ∧ text = text' := by
  have separate : ∀ left right, Kind.mint.messageTag ++ left ≠ Kind.release.messageTag ++ right := by
    intro left right joined
    have octet := congrArg (fun octets => octets[7]?) joined
    simp [Kind.messageTag, ascii] at octet
    exact absurd octet (by decide)
  cases kind <;> cases kind'
  · exact ⟨rfl, List.append_cancel_left same⟩
  · exact absurd same (separate _ _)
  · exact absurd same.symm (separate _ _)
  · exact ⟨rfl, List.append_cancel_left same⟩

/-- What holds of an engine and of the attested calls that succeeded on it. -/
structure Kept (P : Primitives) (history : History) : Prop where
  backed : Backed history.engine
  remembered : ∀ use ∈ history.uses, ∃ state,
    history.engine.chains.lookup use.chain = some state ∧ use.id P ∈ state.usedAttestations
  once : (history.uses.map Use.signature).Nodup

theorem kept_initial : Kept P .initial where
  backed := by
    intro chain state found
    exact absurd found (by simp [History.initial, BridgeEngine.initial])
  remembered := by simp [History.initial]
  once := List.nodup_nil

/-- What every call of a run has to meet: a mint is covered by what is locked and not yet
wrapped, and no chain remembers the signature of an attested call in another spelling. -/
def Careful (P : Primitives) (history : History) : Operation → Prop
  | .mintWrapped chain _ amount => Covers history.engine chain amount
  | .mintWrappedAttested chain user amount attestation =>
    Covers history.engine chain amount ∧
      Unclaimed P history.engine ⟨.mint, chain, user, amount, attestation⟩
  | .releaseAttested chain user amount attestation =>
    Unclaimed P history.engine ⟨.release, chain, user, amount, attestation⟩
  | _ => True

/-- A call that is not attested. -/
theorem Kept.bare (kept : Kept P history) (left : BridgeEngine)
    (backed : Backed left) (remembers : Remembers history.engine left) :
    Kept P ⟨left, history.uses⟩ where
  backed := backed
  remembered := by
    intro use member
    obtain ⟨state, found, used⟩ := kept.remembered use member
    obtain ⟨after, listed, more⟩ := remembers _ state found
    exact ⟨after, listed, more used⟩
  once := kept.once

/-- An attested call of an unclaimed signature. -/
theorem Kept.attest (kept : Kept P history) (use : Use)
    (allows : use.kind.Allows history.engine use.chain use.amount)
    (unclaimed : Unclaimed P history.engine use) :
    Kept P
      ⟨(attested P use.kind history.engine use.chain use.user use.amount use.attestation).2,
        if (attested P use.kind history.engine use.chain use.user use.amount use.attestation).1.isOk
        then use :: history.uses else history.uses⟩ := by
  obtain ⟨backed, remembers, success⟩ := attested_keeps (P := P) use.kind history.engine use.chain
    use.user use.amount use.attestation kept.backed allows
  have bare := kept.bare _ backed remembers
  split
  · rename_i done
    obtain ⟨⟨state, found, unused⟩, after, listed, used⟩ := success done
    refine ⟨bare.backed, List.forall_mem_cons.mpr ⟨⟨after, listed, used⟩, bare.remembered⟩, ?_⟩
    rw [List.map_cons]
    refine List.nodup_cons.mpr ⟨?_, kept.once⟩
    intro member
    obtain ⟨earlier, inside, same⟩ := List.mem_map.mp member
    obtain ⟨messages, octets⟩ := Prod.mk.inj same
    obtain ⟨kinds, payloads⟩ := message_parts _ _ _ _ messages
    obtain ⟨state', found', used'⟩ := kept.remembered earlier inside
    unfold Use.id at used'
    rw [kinds, payloads] at used'
    obtain ⟨chains, spelled⟩ := unclaimed earlier.chain state' earlier.attestation found' octets used'
    rw [chains, found] at found'
    rw [spelled, ← Option.some.inj found'] at used'
    exact unused used'
  · exact bare

/-- A careful call keeps the invariant. -/
theorem Kept.step (kept : Kept P history) (operation : Operation)
    (careful : Careful P history operation) : Kept P (history.step P operation) := by
  have bare : ∀ left, operation.use = none → (perform P history.engine operation).2 = left →
      Backed left → Remembers history.engine left → Kept P (history.step P operation) := by
    intro left unattested after backed remembers
    unfold History.step
    simp only [unattested, after, Option.toList_none, List.nil_append, ite_self]
    exact kept.bare left backed remembers
  cases operation with
  | registerChain chain =>
    obtain ⟨backed, remembers⟩ := registerChain_keeps history.engine chain kept.backed
    exact bare _ rfl rfl backed remembers
  | setAttestorKey chain pubkeyHex =>
    obtain ⟨backed, remembers⟩ := setAttestorKey_keeps history.engine chain pubkeyHex kept.backed
    exact bare _ rfl rfl backed remembers
  | lock chain user amount =>
    obtain ⟨backed, remembers⟩ := lock_keeps (P := P) history.engine chain user amount kept.backed
    exact bare _ rfl rfl backed remembers
  | mintWrapped chain user amount =>
    obtain ⟨backed, remembers⟩ := mintWrapped_keeps history.engine chain user amount kept.backed careful
    exact bare _ rfl rfl backed remembers
  | mintWrappedAttested chain user amount attestation =>
    exact kept.attest ⟨.mint, chain, user, amount, attestation⟩ careful.1 careful.2
  | burnWrapped chain user amount =>
    obtain ⟨backed, remembers⟩ := burnWrapped_keeps history.engine chain user amount kept.backed
    exact bare _ rfl rfl backed remembers
  | release chain user amount =>
    obtain ⟨backed, remembers⟩ := release_keeps history.engine chain user amount kept.backed
    exact bare _ rfl rfl backed remembers
  | releaseAttested chain user amount attestation =>
    exact kept.attest ⟨.release, chain, user, amount, attestation⟩ trivial careful

/-- In every state that a run of careful calls on a new engine reaches, the wrapped coins of
each chain are covered by its locked pool, and no signature of an attestor was used for its
message in two successful calls. -/
theorem collateral_covers (P : Primitives) (operations : List Operation)
    (careful : EachStep (History.step P) (Careful P) .initial operations)
    (front : List Operation) (cut : front <+: operations) :
    (∀ chain state, (front.foldl (History.step P) .initial).engine.chains.lookup chain = some state →
      state.outstanding ≤ state.lockedPool.toNat) ∧
    ((front.foldl (History.step P) .initial).uses.map Use.signature).Nodup := by
  have kept := careful.carries (Kept P) (fun _ operation kept meets => kept.step operation meets)
    kept_initial front cut
  exact ⟨kept.backed, kept.once⟩

/-! ### Two runs -/

theorem unclaimed_unused (engine : BridgeEngine) (use : Use)
    (unused : engine.chains.entries.all (fun entry => decide (entry.2.usedAttestations = ∅)) = true) :
    Unclaimed P engine use := by
  intro chain state attestation found _ used
  have member : (⟨chain, state⟩ : Σ _ : Bytes, ChainState) ∈ engine.chains.entries :=
    List.of_mem_dlookup found
  have none : state.usedAttestations = ∅ := of_decide_eq_true (List.all_eq_true.mp unused _ member)
  rw [none] at used
  exact absurd used (Finset.notMem_empty _)

theorem covers_checked (engine : BridgeEngine) (chain : Bytes) (amount : UInt64)
    (checked : engine.chains.entries.all (fun entry =>
      decide (entry.2.outstanding + amount.toNat ≤ entry.2.lockedPool.toNat)) = true) :
    Covers engine chain amount := by
  intro state found _
  have member : (⟨chain, state⟩ : Σ _ : Bytes, ChainState) ∈ engine.chains.entries :=
    List.of_mem_dlookup found
  exact of_decide_eq_true (List.all_eq_true.mp checked _ member)

/-- The attestor's signature of a mint, in lowercase. -/
def sampleAttestation (amount : UInt64) : Bytes :=
  ascii "pq=" ++ toHex (sampleDigest 4
    ([1] ++ (Kind.mint.messageTag ++ payload (ascii "btc") (ascii "alice") amount))).val

/-- The same octets with the letters in uppercase. -/
def shouted (attestation : Bytes) : Bytes :=
  attestation.take 3 ++ (attestation.drop 3).map (fun octet =>
    if 97 ≤ octet ∧ octet ≤ 102 then octet - 32 else octet)

/-- A chain with an attestor and ten locked coins. -/
def sampleStart : List Operation :=
  [.registerChain (ascii "btc"), .setAttestorKey (ascii "btc") (ascii "01"),
    .lock (ascii "btc") (ascii "alice") 10]

/-- The identifier under which the sample mint is remembered. -/
def sampleMintId : Bytes :=
  attestationId signingPrimitives .mint (payload (ascii "btc") (ascii "alice") 4) (sampleAttestation 4)

/-- The attestor's signature of a release of a part of it. -/
def sampleReturn : Bytes :=
  ascii "pq=" ++ toHex (sampleDigest 4
    ([1] ++ (Kind.release.messageTag ++ payload (ascii "btc") (ascii "alice") 1))).val

set_option maxRecDepth 100000 in
theorem sampleStart_state :
    let engine := (sampleStart.foldl (History.step signingPrimitives) .initial).engine
    engine.chains.entries.all (fun entry => decide (entry.2.usedAttestations = ∅)) = true ∧
      engine.chains.entries.all (fun entry =>
        decide (entry.2.outstanding + (4 : UInt64).toNat ≤ entry.2.lockedPool.toNat)) = true := by
  decide +kernel

/-- The run with one attested mint and one attested release. -/
def sampleMint : List Operation :=
  sampleStart ++ [.mintWrappedAttested (ascii "btc") (ascii "alice") 4 (sampleAttestation 4),
    .releaseAttested (ascii "btc") (ascii "alice") 1 sampleReturn]

set_option maxRecDepth 100000 in
/-- Both attested calls go through, and the first is what is remembered before the second. -/
theorem sampleMint_state :
    (sampleMint.foldl (History.step signingPrimitives) .initial).uses.map Use.kind = [.release, .mint] ∧
      ((sampleMint.take 4).foldl (History.step signingPrimitives) .initial).engine.chains.entries.all
        (fun entry => decide (entry.2.usedAttestations = {sampleMintId})) = true := by
  decide +kernel

/-- No spelling of the second signature is remembered as the first one was. -/
theorem sampleReturn_apart {attestation : Bytes}
    (spelled : signatureOctets attestation = signatureOctets sampleReturn) :
    attestationId signingPrimitives .release (payload (ascii "btc") (ascii "alice") 1) attestation ≠
      sampleMintId := by
  intro same
  have width : (attestation.drop 3).length / 2 = 4 := by
    have octets := congrArg List.length spelled
    rw [signatureOctets, fromHex_length] at octets
    exact octets.trans (by decide +kernel)
  rw [List.length_drop] at width
  have front : (Kind.release.attestationTag ++ payload (ascii "btc") (ascii "alice") 1 ++
      ascii "|").length = 24 := by decide +kernel
  have short : (Kind.release.attestationTag ++ payload (ascii "btc") (ascii "alice") 1 ++ ascii "|" ++
      attestation).length ≤ 62 := by
    rw [List.length_append, front]
    omega
  have short' : (Kind.mint.attestationTag ++ payload (ascii "btc") (ascii "alice") 4 ++ ascii "|" ++
      sampleAttestation 4).length ≤ 62 := by decide +kernel
  have texts := sampleDigest_injective short short' (Subtype.ext (toHex_injective _ _ same))
  have first : some (byte 'r') = some (byte 'm') := congrArg (fun text : Bytes => text[0]?) texts
  exact absurd first (by decide)

/-- An attested mint and an attested release are covered, and their signatures differ. -/
theorem covered_mint :
    (sampleMint.foldl (History.step signingPrimitives) .initial).uses.length = 2 ∧
    (∀ chain state, (sampleMint.foldl (History.step signingPrimitives) .initial).engine.chains.lookup
      chain = some state → state.outstanding ≤ state.lockedPool.toNat) ∧
    ((sampleMint.foldl (History.step signingPrimitives) .initial).uses.map Use.signature).Nodup := by
  obtain ⟨unused, free⟩ := sampleStart_state
  obtain ⟨kinds, remembered⟩ := sampleMint_state
  refine ⟨by simpa using congrArg List.length kinds, collateral_covers signingPrimitives sampleMint ?_
    sampleMint (List.prefix_refl _)⟩
  refine ⟨trivial, trivial, trivial,
    ⟨covers_checked _ (ascii "btc") 4 free, unclaimed_unused _ _ unused⟩, ?_, trivial⟩
  intro chain state attestation found spelled used
  have member := List.of_mem_dlookup found
  have only : state.usedAttestations = {sampleMintId} :=
    of_decide_eq_true (List.all_eq_true.mp remembered _ member)
  rw [only, Finset.mem_singleton] at used
  exact absurd used (sampleReturn_apart spelled)

/-- Two mints of the whole pool. -/
def doubleMint : List Operation :=
  sampleStart ++ [.mintWrapped (ascii "btc") (ascii "alice") 10, .mintWrapped (ascii "btc") (ascii "bob") 10]

/-- One signature in two spellings. -/
def doubleUse : List Operation :=
  sampleStart ++ [.mintWrappedAttested (ascii "btc") (ascii "alice") 4 (sampleAttestation 4),
    .mintWrappedAttested (ascii "btc") (ascii "alice") 4 (shouted (sampleAttestation 4))]

set_option maxRecDepth 100000 in
/-- Twenty coins are wrapped on ten locked ones, and one signature is used twice. -/
theorem collateral_exceeded :
    ((doubleMint.foldl (History.step signingPrimitives) .initial).engine.chains.lookup
      (ascii "btc")).map (fun state => (state.outstanding, state.lockedPool)) = some (20, 10) ∧
    (doubleUse.foldl (History.step signingPrimitives) .initial).uses.length = 2 ∧
    ¬ ((doubleUse.foldl (History.step signingPrimitives) .initial).uses.map Use.signature).Nodup := by
  decide +kernel

end Bridge

end Addition
