import Addition.Revocations
import Addition.TransactionTexts
import Addition.Foundations.FreePlaces

/-!
# Penalties for revoked states

A commitment of the peer whose number it has revoked is rebuilt from the hash of the
number and one of the remembered states. While revocations come in order, the hash is the
one that was signed under and the state is among the remembered ones, so the penalty is
found; and its search for outputs finds all but the endpoint's own.

A revocation of another number can replace a hash that was signed under, and the
commitment is not recognised any more.
-/

namespace Addition.Channels

open ByteStrings Checked FiniteTables TextLines Script FreePlaces

variable {P : Primitives}

/-- The texts that the identifiers of the remembered commitments of a number are digests
of. -/
def commitmentTexts (P : Primitives) (ch : Channel) (n : Nat) (revHash : Bytes) : Set Bytes :=
  {text | ∃ state ∈ ch.candidates n,
    text = transactionText P (commitmentTx P ch.info (!ch.isA) state revHash)}

/-- The outputs that a revocation opens: all but the endpoint's own. -/
def revocable (ch : Channel) (tx : Transaction) : List Nat :=
  (List.range tx.outputs.length).filter (fun index =>
    (tx.outputs.map TxOutput.recipient)[index]? != some ch.keys.address)

/-- What they are worth, added as amounts are. -/
def revocableTotal (ch : Channel) (tx : Transaction) : UInt64 :=
  ((revocable ch tx).map (amountAt tx)).sum

/-! ### The outputs that are found -/

/-- The addresses that the penalty looks for. -/
def searchedAddresses (P : Primitives) (ch : Channel) (state : State) (revHash : Bytes) : List Bytes :=
  scriptAddress P (toLocalScript ch.remoteAddress ch.keys.address revHash ch.info.toSelfDelay) ::
    state.htlcs.map (fun htlc => (htlcOutput P ch.info ch.keys.address revHash htlc).recipient)

theorem freeOutput_place (tx : Transaction) (taken : List Nat) (address : Bytes) :
    freeOutput tx taken address = freePlace (tx.outputs.map TxOutput.recipient) taken address := by
  rw [freeOutput, freePlace, freePlaces, List.head?_filter, List.length_map]

/-- One search adds at most one output. -/
theorem freeOutput_taken (tx : Transaction) (outs : List (Nat × Bytes)) (address script : Bytes) :
    (match freeOutput tx (outs.map Prod.fst) address with
      | some index => outs ++ [(index, script)]
      | none => outs).map Prod.fst =
    takePlace (tx.outputs.map TxOutput.recipient) (outs.map Prod.fst) address := by
  rw [takePlace, ← freeOutput_place]
  cases freeOutput tx (outs.map Prod.fst) address with
  | some index => simp
  | none => simp

theorem penaltyOutputs_places (ch : Channel) (broadcast : Transaction) (state : State)
    (revHash : Bytes) :
    (penaltyOutputs P ch broadcast state revHash).map Prod.fst =
      takePlaces (broadcast.outputs.map TxOutput.recipient) (searchedAddresses P ch state revHash) [] := by
  have first : ∀ script, ((freeOutput broadcast [] (scriptAddress P script)).toList.map
      (fun index => (index, script))).map Prod.fst =
        takePlace (broadcast.outputs.map TxOutput.recipient) [] (scriptAddress P script) := by
    intro script
    rw [takePlace, ← freeOutput_place, List.map_map]
    simp [Function.comp_def]
  unfold penaltyOutputs
  refine (takePlaces_foldl (broadcast.outputs.map TxOutput.recipient) _ Prod.fst
    (fun htlc => (htlcOutput P ch.info ch.keys.address revHash htlc).recipient) ?_ _ _).trans ?_
  · intro outs htlc
    exact freeOutput_taken broadcast outs _ _
  · rw [first]
    rfl

/-- The recipients of a commitment of the peer. -/
theorem commitment_recipients (ch : Channel) (state : State) (revHash : Bytes)
    (own : ch.keys.address = if ch.isA then ch.info.addrA else ch.info.addrB) (address : Bytes)
    (other : address ≠ ch.keys.address) :
    ((commitmentTx P ch.info (!ch.isA) state revHash).outputs.map TxOutput.recipient).count address ≤
      (searchedAddresses P ch state revHash).count address := by
  have side : (if !ch.isA then ch.info.addrB else ch.info.addrA) = ch.keys.address ∧
      (if !ch.isA then ch.info.addrA else ch.info.addrB) = ch.remoteAddress := by
    rw [own, Channel.remoteAddress]
    cases ch.isA <;> exact ⟨rfl, rfl⟩
  simp only [commitmentTx, side, List.map_append, List.map_map, Function.comp_def,
    List.count_append, searchedAddresses, List.count_cons]
  have first : (List.map TxOutput.recipient
      (if (commitmentAmounts ch.info (!ch.isA) state).1 ≠ 0 then
        [⟨scriptAddress P (toLocalScript ch.remoteAddress ch.keys.address revHash ch.info.toSelfDelay),
          (commitmentAmounts ch.info (!ch.isA) state).1⟩] else [])).count address ≤
      if (scriptAddress P (toLocalScript ch.remoteAddress ch.keys.address revHash
        ch.info.toSelfDelay) == address) = true then 1 else 0 := by
    split
    · simp [List.count_cons]
    · simp
  have second : (List.map TxOutput.recipient
      (if (commitmentAmounts ch.info (!ch.isA) state).2 ≠ 0 then
        [⟨ch.keys.address, (commitmentAmounts ch.info (!ch.isA) state).2⟩] else [])).count address = 0 := by
    split
    · simp [Ne.symm other]
    · simp
  omega

/-- The addresses that are looked for are those of scripts. -/
theorem searched_script (ch : Channel) (state : State) (revHash address : Bytes)
    (searched : address ∈ searchedAddresses P ch state revHash) :
    ∃ script, address = scriptAddress P script := by
  rcases List.mem_cons.mp searched with rfl | listed
  · exact ⟨_, rfl⟩
  · obtain ⟨htlc, _, rfl⟩ := List.mem_map.mp listed
    exact ⟨_, rfl⟩

theorem scriptAddress_length (script : Bytes) : (scriptAddress P script).length = 131 := by
  simp [scriptAddress, ascii]

/-- The search finds every output of the commitment but the endpoint's own, and each once. -/
theorem penaltyOutputs_perm (ch : Channel) (state : State) (revHash : Bytes)
    (own : ch.keys.address = if ch.isA then ch.info.addrA else ch.info.addrB)
    (short : ch.keys.address.length ≤ 128) (broadcast : Transaction)
    (same : broadcast.outputs = (commitmentTx P ch.info (!ch.isA) state revHash).outputs) :
    ((penaltyOutputs P ch broadcast state revHash).map Prod.fst).Perm (revocable ch broadcast) := by
  rw [penaltyOutputs_places]
  obtain ⟨once, sound⟩ := takePlaces_sound (broadcast.outputs.map TxOutput.recipient)
    (searchedAddresses P ch state revHash) [] List.nodup_nil
  refine (List.perm_ext_iff_of_nodup once (List.nodup_range.filter _)).mpr fun place => ?_
  rw [List.mem_filter, List.mem_range, bne_iff_ne]
  constructor
  · intro taken
    rcases sound place taken with none | ⟨address, searched, named⟩
    · simp at none
    · refine ⟨by simpa using (List.getElem?_eq_some_iff.mp named).1, ?_⟩
      rw [named]
      intro ours
      obtain ⟨script, rfl⟩ := searched_script ch state revHash address searched
      have width := scriptAddress_length (P := P) script
      rw [Option.some.inj ours] at width
      omega
  · rintro ⟨inside, notOurs⟩
    obtain ⟨address, named⟩ : ∃ address,
        (broadcast.outputs.map TxOutput.recipient)[place]? = some address :=
      ⟨_, List.getElem?_eq_getElem (by simpa using inside)⟩
    refine searched_taken _ _ address place named ?_
    rw [same]
    refine commitment_recipients ch state revHash own address fun ours => notOurs ?_
    rw [named, ours]

/-! ### The state that is found -/

/-- Streamed names without colons can be read off one by one. -/
theorem plainItems_determined (items items' : List (Bytes × Nat))
    (plain : ∀ entry ∈ items, byte ':' ∉ entry.1) (plain' : ∀ entry ∈ items', byte ':' ∉ entry.1)
    (same : itemsText items = itemsText items') : items = items' := by
  have split : ∀ (entry : Bytes × Nat) (rest : List (Bytes × Nat)),
      itemsText (entry :: rest) =
        entry.1 ++ byte ':' :: (decimal entry.2 ++ byte ';' :: itemsText rest) := by
    intro entry rest
    simp [itemsText, item]
  induction items generalizing items' with
  | nil =>
    cases items' with
    | nil => rfl
    | cons entry rest =>
      rw [split] at same
      simp [itemsText] at same
  | cons entry rest ih =>
    cases items' with
    | nil =>
      rw [split] at same
      simp [itemsText] at same
    | cons entry' rest' =>
      rw [split, split] at same
      obtain ⟨names, numbers⟩ := cut_first (byte ':') _ _ _ _ (plain entry (by simp))
        (plain' entry' (by simp)) same
      obtain ⟨value, remaining⟩ := cut_decimal (byte ';') _ _ _ _ (by decide) numbers
      have tail := ih rest' (fun other member => plain other (by simp [member]))
        (fun other member => plain' other (by simp [member])) remaining
      rw [Prod.ext names value, tail]

/-- No recipient of a commitment contains a colon. -/
theorem commitment_plain (ch : Channel) (state : State) (revHash : Bytes)
    (own : ch.keys.address = if ch.isA then ch.info.addrA else ch.info.addrB)
    (digits : HexDigits ch.keys.address) (output : TxOutput)
    (member : output ∈ (commitmentTx P ch.info (!ch.isA) state revHash).outputs) :
    byte ':' ∉ output.recipient := by
  have script : ∀ text, byte ':' ∉ scriptAddress P text := by
    intro text
    rw [scriptAddress, List.mem_append, not_or]
    exact ⟨by decide, (strongHash_hexDigits P _).absent (byte ':') (by decide)⟩
  have side : (if !ch.isA then ch.info.addrB else ch.info.addrA) = ch.keys.address := by
    rw [own]
    cases ch.isA <;> rfl
  simp only [commitmentTx, side, List.mem_append, List.mem_map] at member
  rcases member with (first | second) | ⟨htlc, _, rfl⟩
  · split at first
    · rw [List.mem_singleton.mp first]
      exact script _
    · simp at first
  · split at second
    · rw [List.mem_singleton.mp second]
      exact digits.absent (byte ':') (by decide)
    · simp at second
  · exact script _

/-- Two commitments of one channel with the same text have the same outputs. -/
theorem commitment_outputs (ch : Channel) (state state' : State) (revHash : Bytes)
    (own : ch.keys.address = if ch.isA then ch.info.addrA else ch.info.addrB)
    (digits : HexDigits ch.keys.address)
    (same : transactionText P (commitmentTx P ch.info (!ch.isA) state revHash) =
      transactionText P (commitmentTx P ch.info (!ch.isA) state' revHash)) :
    (commitmentTx P ch.info (!ch.isA) state revHash).outputs =
      (commitmentTx P ch.info (!ch.isA) state' revHash).outputs := by
  obtain ⟨front, _⟩ := text_tail_determined P _ _ same
  have texts : outputsText (commitmentTx P ch.info (!ch.isA) state revHash).outputs =
      outputsText (commitmentTx P ch.info (!ch.isA) state' revHash).outputs := by
    have shape : ∀ state, frontText (commitmentTx P ch.info (!ch.isA) state revHash) =
        (ascii "in[" ++ inputsText [⟨ch.info.fundingTxid, ch.info.fundingVout, []⟩] ++ ascii "]out[") ++
          (outputsText (commitmentTx P ch.info (!ch.isA) state revHash).outputs ++
            ascii "]signer=|pub=") := by
      intro state
      simp [frontText, commitmentTx, ascii]
    rw [shape, shape] at front
    exact List.append_cancel_right (List.append_cancel_left front)
  refine outputs_of_items _ _ (plainItems_determined _ _ ?_ ?_ ?_)
  · intro entry member
    obtain ⟨output, inside, rfl⟩ := List.mem_map.mp member
    exact commitment_plain ch state revHash own digits output inside
  · intro entry member
    obtain ⟨output, inside, rfl⟩ := List.mem_map.mp member
    exact commitment_plain ch state' revHash own digits output inside
  · simpa [itemsText, outputsText, List.flatMap_map] using texts

/-! ### The penalty -/

/-- A state that was signed for a number the peer has revoked is remembered. -/
theorem Run.remembered {rc : RemoteChannel} {log : List Released}
    (run : Run P (RevokesInOrder P) rc log) (state : State) (revHash secret : Bytes)
    (released : Released.commitment state revHash ∈ log)
    (revealed : rc.ch.remoteSecrets.lookup state.n = some secret) :
    rc.ch.history.lookup state.n = some state ∨ state ∈ rc.ch.abandoned := by
  obtain ⟨sound, accounted⟩ := run.sound
  obtain ⟨_, _, kept⟩ := accounted _ released
  have early := sound.notYet state.n secret revealed
  have bound := sound.due_le
  rcases kept with gone | ⟨_, past⟩ | current | ⟨next, _⟩
  · exact .inr gone
  · exact .inl past
  · rw [current] at early
    omega
  · omega

theorem perm_total (amounts amounts' : List UInt64) (perm : amounts.Perm amounts') :
    amounts.sum = amounts'.sum := by
  induction perm with
  | nil => rfl
  | cons amount _ ih => rw [List.sum_cons, List.sum_cons, ih]
  | swap first second rest =>
    simp only [List.sum_cons]
    rw [← UInt64.add_assoc, ← UInt64.add_assoc, UInt64.add_comm second first]
  | trans _ _ left right => exact left.trans right

/-- The penalty against a commitment that a remembered state rebuilds. -/
theorem penaltyFor_found (ch : Channel) (state : State) (revHash secret : Bytes)
    (own : ch.keys.address = if ch.isA then ch.info.addrA else ch.info.addrB)
    (digits : HexDigits ch.keys.address) (short : ch.keys.address.length ≤ 128)
    (small : state.n < 2 ^ 64) (revealed : ch.remoteSecrets.lookup state.n = some secret)
    (hash : ch.remoteHashes.lookup state.n = some revHash)
    (remembered : ch.history.lookup state.n = some state ∨ state ∈ ch.abandoned)
    (injective : Set.InjOn P.sha3 (commitmentTexts P ch state.n revHash))
    (worth : ch.info.fee <
      revocableTotal ch (commitmentTx P ch.info (!ch.isA) state revHash)) :
    ∃ tx, penaltyFor P ch (commitmentTx P ch.info (!ch.isA) state revHash) = some tx ∧
      ∀ index ∈ revocable ch (commitmentTx P ch.info (!ch.isA) state revHash),
        (hashTransaction P (commitmentTx P ch.info (!ch.isA) state revHash), UInt32.ofNat index) ∈
          tx.inputs.map TxInput.outpoint := by
  set broadcast := commitmentTx P ch.info (!ch.isA) state revHash with shape
  have number : broadcast.nonce.toNat = state.n :=
    UInt64.toNat_ofNat_of_lt' (by rw [UInt64.size]; exact small)
  have member : state ∈ ch.candidates state.n := by
    rw [Channel.candidates, List.mem_append, List.mem_filter]
    rcases remembered with past | gone
    · exact .inl (by simp [past])
    · exact .inr ⟨gone, by simp⟩
  -- the candidate that is found may be another one with the same outputs
  obtain ⟨found, matched⟩ : ∃ found, (ch.candidates state.n).find? (fun candidate =>
      hashTransaction P (commitmentTx P ch.info (!ch.isA) candidate revHash) ==
        hashTransaction P broadcast) = some found := by
    refine Option.isSome_iff_exists.mp (List.find?_isSome.mpr ⟨state, member, ?_⟩)
    rw [← shape, beq_self_eq_true]
  have listed := List.mem_of_find?_eq_some matched
  have equal := List.find?_some matched
  have texts := hashTransaction_injOn P _ injective _ _ ⟨found, listed, rfl⟩ ⟨state, member, rfl⟩
    (beq_iff_eq.mp equal)
  have outputs := commitment_outputs ch found state revHash own digits texts
  have places := penaltyOutputs_perm ch found revHash own short broadcast outputs.symm
  have total : ((penaltyOutputs P ch broadcast found revHash).map
      (fun out => amountAt broadcast out.1)).sum = revocableTotal ch broadcast := by
    rw [revocableTotal, ← perm_total _ _ (places.map (amountAt broadcast)), List.map_map]
    rfl
  have some : (penaltyOutputs P ch broadcast found revHash).isEmpty = false := by
    by_contra none
    rw [Bool.not_eq_false, List.isEmpty_iff] at none
    rw [none] at total
    rw [← total] at worth
    exact absurd worth (by simp)
  refine ⟨justiceTx P ch broadcast (penaltyOutputs P ch broadcast found revHash) secret
    (revocableTotal ch broadcast), ?_, ?_⟩
  · have stored : ch.remoteSecrets.lookup broadcast.nonce.toNat = Option.some secret := by
      rw [number]
      exact revealed
    have under : ch.remoteHashes.lookup broadcast.nonce.toNat = Option.some revHash := by
      rw [number]
      exact hash
    unfold penaltyFor
    simp only [stored, under, number, Option.bind_eq_bind, Option.bind_some, matched, total, some,
      Bool.false_eq_true, ↓reduceIte, UInt64.not_le.mpr worth]
  · intro index inside
    obtain ⟨out, taken, rfl⟩ := List.mem_map.mp (places.mem_iff.mpr inside)
    simp only [justiceTx, List.map_map, List.mem_map]
    exact ⟨out, taken, rfl⟩

/-- The hash that a signature was made under stays, a signed state is remembered when its
number is revoked, and the penalty against its commitment spends everything in it but
the endpoint's own output. -/
theorem signed_state_punishable {rc : RemoteChannel} {log : List Released}
    (run : Run P (RevokesInOrder P) rc log) (state : State) (revHash : Bytes)
    (released : Released.commitment state revHash ∈ log) :
    rc.ch.remoteHashes.lookup state.n = some revHash ∧ Kept rc state ∧
      ∀ secret, rc.ch.remoteSecrets.lookup state.n = some secret →
        (rc.ch.history.lookup state.n = some state ∨ state ∈ rc.ch.abandoned) ∧
        (HexDigits rc.ch.keys.address → rc.ch.keys.address.length ≤ 128 →
          Set.InjOn P.sha3 (commitmentTexts P rc.ch state.n revHash) →
          rc.ch.info.fee < revocableTotal rc.ch
            (commitmentTx P rc.ch.info (!rc.ch.isA) state revHash) →
          ∃ tx, penaltyFor P rc.ch (commitmentTx P rc.ch.info (!rc.ch.isA) state revHash) = some tx ∧
            ∀ index ∈ revocable rc.ch (commitmentTx P rc.ch.info (!rc.ch.isA) state revHash),
              (hashTransaction P (commitmentTx P rc.ch.info (!rc.ch.isA) state revHash),
                UInt32.ofNat index) ∈ tx.inputs.map TxInput.outpoint) := by
  obtain ⟨hash, readable, kept⟩ := run.sound.2 _ released
  refine ⟨hash, kept, fun secret revealed => ?_⟩
  have remembered := run.remembered state revHash secret released revealed
  refine ⟨remembered, fun digits short injective worth => ?_⟩
  exact penaltyFor_found rc.ch state revHash secret run.own_address digits short readable.small
    revealed hash remembered injective worth

/-- The endpoint after the sample revocation. -/
def sampleRevoked : RemoteChannel := (play signingPrimitives sampleOpened revocation).2

/-- What the endpoint of the example released. -/
def sampleLog : List Released :=
  [.commitment (sampleState 0 40) (peerHash 0)] ++ (play signingPrimitives sampleOpened revocation).1

/-- The peer's commitment of the revoked state. -/
def revokedCommitment : Transaction :=
  commitmentTx signingPrimitives sampleInfo true (sampleState 0 40) (peerHash 0)

set_option maxRecDepth 100000 in
/-- The revoked state of the sample run is punished. -/
theorem revoked_state_punished :
    ∃ tx, penaltyFor signingPrimitives sampleRevoked.ch revokedCommitment = some tx ∧
      ∀ index ∈ revocable sampleRevoked.ch revokedCommitment,
        (hashTransaction signingPrimitives revokedCommitment, UInt32.ofNat index) ∈
          tx.inputs.map TxInput.outpoint := by
  have run : Run signingPrimitives (RevokesInOrder signingPrimitives) sampleRevoked sampleLog :=
    (sampleOpened_run _).play revocation revocation_inOrder
  have terms : sampleRevoked.ch.info = sampleInfo ∧ sampleRevoked.ch.isA = false ∧
      sampleRevoked.ch.keys.address = sampleAddress 7 ∧
      sampleRevoked.ch.candidates 0 = [sampleState 0 40] ∧
      sampleRevoked.ch.remoteSecrets.lookup 0 = some (peerSecret 0) ∧
      Released.commitment (sampleState 0 40) (peerHash 0) ∈ sampleLog := by
    decide +kernel
  obtain ⟨info, isA, address, candidates, revealed, released⟩ := terms
  have punishable := signed_state_punishable run (sampleState 0 40) (peerHash 0) released
  obtain ⟨_, spends⟩ := punishable.2.2 (peerSecret 0) revealed
  rw [info, isA] at spends
  refine spends ?_ ?_ ?_ ?_
  · rw [address]
    exact strongHash_hexDigits _ _
  · rw [address]
    exact Nat.le_of_eq (strongHash_length _ _)
  · rintro text ⟨state, member, rfl⟩ text' ⟨state', member', rfl⟩ _
    have only : state = state' := by
      rw [show (sampleState 0 40).n = 0 from rfl, candidates, List.mem_singleton] at member member'
      rw [member, member']
    rw [only]
  · decide +kernel

/-! ### A hash that is replaced -/

/-- Three updates with their revocations, and then a revocation of the first state again
with another hash for the third. -/
def replacement : List Event :=
  [peerUpdates (sampleState 1 50), peerRevokes 0 (peerSecret 0) (peerHash 2),
    peerUpdates (sampleState 2 51), peerRevokes 1 (peerSecret 1) (peerHash 3),
    peerUpdates (sampleState 3 52), peerRevokes 2 (peerSecret 2) (peerHash 4),
    peerUpdates (sampleState 4 53), peerRevokes 0 (peerSecret 0) (peerHash 9)]

set_option maxRecDepth 100000 in
/-- The commitment of state two was signed and its secret is stored, but the hash is another
and no penalty is found. -/
theorem replaced_hash_unpunished :
    ∃ rc log state revHash, Run signingPrimitives (fun _ _ => True) rc log ∧
      Released.commitment state revHash ∈ log ∧
      (rc.ch.remoteSecrets.lookup state.n).isSome = true ∧
      rc.ch.remoteHashes.lookup state.n ≠ some revHash ∧
      rc.ch.info.fee < revocableTotal rc.ch
        (commitmentTx signingPrimitives rc.ch.info (!rc.ch.isA) state revHash) ∧
      penaltyFor signingPrimitives rc.ch
        (commitmentTx signingPrimitives rc.ch.info (!rc.ch.isA) state revHash) = none := by
  refine ⟨_, _, sampleState 2 51, peerHash 2,
    (sampleOpened_run _).play replacement ⟨trivial, trivial, trivial, trivial, trivial, trivial, trivial,
      trivial, trivial⟩, ?_⟩
  decide +kernel

end Addition.Channels
