import Addition.Ledger

/-!
# What the staking rules establish

Inversions of `validate_slash` and `validate_block_staking`: the votes and the
evidence of an accepted block name live tickets and carry signatures that verify
under the tickets' keys, and no ticket is slashed twice in one block.
-/

namespace Addition

open ByteStrings Checked FiniteTables

variable {P : Primitives}

/-- What valid evidence says about the state it was checked against. -/
structure ValidSlash (P : Primitives) (chain : Chain) (slash : SlashEvidence) (ticket : StakeTicket) :
    Prop where
  sameTicket : slash.a.ticketId = slash.b.ticketId
  sameHeight : slash.a.votedHeight = slash.b.votedHeight
  conflict : ¬ (slash.a.votedHash = slash.b.votedHash ∧ slash.a.approve = slash.b.approve)
  live : chain.tickets.lookup slash.a.ticketId = some ticket
  signedA : voteSignatureOk P (chain.ticketWithKey ticket) chain.cfg.networkId slash.a = true
  signedB : voteSignatureOk P (chain.ticketWithKey ticket) chain.cfg.networkId slash.b = true

/-- Valid evidence names a ticket. -/
theorem validateSlash_ok (chain : Chain) (slash : SlashEvidence)
    (valid : validateSlash P chain slash = .ok ()) : ∃ ticket, ValidSlash P chain slash ticket := by
  simp only [validateSlash, bind_ok, exists_unit, ensure_ok, decide_eq_true_eq, Bool.not_eq_true',
    decide_eq_false_iff_not] at valid
  obtain ⟨⟨sameTicket, sameHeight⟩, conflict, signed⟩ := valid
  cases live : chain.tickets.lookup slash.a.ticketId with
  | none => simp [live] at signed
  | some ticket =>
    rw [live] at signed
    simp only [ensure_ok, Bool.and_eq_true] at signed
    exact ⟨ticket, sameTicket, sameHeight, conflict, live, signed.1, signed.2⟩

/-- Each piece of evidence is valid, and no ticket is named twice. -/
theorem validateSlashes_ok (chain : Chain) (slashed : Finset Bytes) (slashes : List SlashEvidence)
    (valid : validateSlashes P chain slashed slashes = .ok ()) :
    (∀ slash ∈ slashes, ∃ ticket, ValidSlash P chain slash ticket) ∧
      (∀ slash ∈ slashes, slash.a.ticketId ∉ slashed) ∧
      (slashes.map (fun slash => slash.a.ticketId)).Nodup := by
  induction slashes generalizing slashed with
  | nil => simp
  | cons slash rest ih =>
    simp only [validateSlashes, bind_ok, exists_unit, ensure_ok, decide_eq_true_eq] at valid
    obtain ⟨first, new, later⟩ := valid
    obtain ⟨others, fresh, distinct⟩ := ih _ later
    refine ⟨?_, ?_, ?_⟩
    · intro other member
      rcases List.mem_cons.mp member with rfl | inside
      · exact validateSlash_ok chain other first
      · exact others other inside
    · intro other member
      rcases List.mem_cons.mp member with rfl | inside
      · exact new
      · exact fun before => fresh other inside (by simp [before])
    · rw [List.map_cons, List.nodup_cons]
      refine ⟨fun member => ?_, distinct⟩
      obtain ⟨other, inside, same⟩ := List.mem_map.mp member
      exact fresh other inside (by simp [same])

/-- Each vote names a live ticket and verifies under its key. -/
theorem validateVotes_ok (chain : Chain) (votedHeight : UInt64) (votedHash : Bytes)
    (selected : List Bytes) (seen : Finset Bytes) (votes : List StakeVote) (owners : List Bytes)
    (valid : validateVotes P chain votedHeight votedHash selected seen votes = .ok owners) :
    ∀ vote ∈ votes, ∃ ticket, chain.tickets.lookup vote.ticketId = some ticket ∧
      voteSignatureOk P (chain.ticketWithKey ticket) chain.cfg.networkId vote = true := by
  induction votes generalizing seen owners with
  | nil => simp
  | cons vote rest ih =>
    simp only [validateVotes, bind_ok, exists_unit, ensure_ok] at valid
    obtain ⟨_, _, _, signed⟩ := valid
    cases live : chain.tickets.lookup vote.ticketId with
    | none => simp [live] at signed
    | some ticket =>
      rw [live] at signed
      simp only [bind_ok, exists_unit, ensure_ok] at signed
      obtain ⟨verified, later, others, _⟩ := signed
      intro other member
      rcases List.mem_cons.mp member with rfl | inside
      · exact ⟨ticket, live, verified⟩
      · exact ih _ _ others other inside

/-- The votes and the evidence of a block that passed the staking rules. -/
theorem validateBlockStaking_ok (chain : Chain) (block : Block)
    (valid : validateBlockStaking P chain block = .ok ()) :
    (∀ slash ∈ block.slashes, ∃ ticket, ValidSlash P chain slash ticket) ∧
      (block.slashes.map (fun slash => slash.a.ticketId)).Nodup ∧
      ∀ vote ∈ block.votes, ∃ ticket, chain.tickets.lookup vote.ticketId = some ticket ∧
        voteSignatureOk P (chain.ticketWithKey ticket) chain.cfg.networkId vote = true := by
  unfold validateBlockStaking at valid
  dsimp only at valid
  split at valid
  · simp only [ensure_ok, Bool.and_eq_true, List.isEmpty_iff] at valid
    simp [valid.1, valid.2]
  · simp only [bind_ok, exists_unit, ensure_ok] at valid
    obtain ⟨slashes, _, owners, votes, _⟩ := valid
    obtain ⟨evidence, _, distinct⟩ := validateSlashes_ok chain ∅ block.slashes slashes
    exact ⟨evidence, distinct, validateVotes_ok chain _ _ _ _ _ _ votes⟩

/-- The key of a live ticket is an outpoint of an explained transaction, so it
contains no bar. -/
theorem Ledger.ticket_plain {done : List Transaction} {chain : Chain} (ledger : Ledger P done chain)
    (key : Bytes) (ticket : StakeTicket) (live : chain.tickets.lookup key = some ticket) :
    byte '|' ∉ key := by
  obtain ⟨_, tx, _, position, rfl⟩ := ledger.tickets key ticket live
  unfold outpointKey
  simp only [List.mem_append, List.mem_cons, not_or]
  exact ⟨strongHash_no_bar P _, by decide, decimal_no_bar _⟩

end Addition
