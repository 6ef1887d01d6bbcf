import Mathlib.Data.Finset.Card
import Addition.Foundations.ByteStrings
import Addition.Foundations.FiniteTables
import Addition.Foundations.Runs

/-!
# Votes of peers on blocks

The votes on a block are kept as the set of the peers that gave them, and a block has a quorum when
more than two thirds of a number of peers voted for it. Nothing keeps a peer from voting for several
blocks of one height. Two blocks of one height can both have had a quorum, at whatever moments, only
if more than a third of the voters voted for both.
-/

namespace Addition

open ByteStrings FiniteTables Runs

/-- `ConsensusEngine`. -/
structure ConsensusEngine where
  votes : Table UInt64 (Table Bytes (Finset Bytes))

namespace ConsensusEngine

/-- The engine without votes. -/
def new : ConsensusEngine := ⟨∅⟩

/-- The voters that an entry of the votes of a height holds. -/
def ballot (table : Table Bytes (Finset Bytes)) (blockHash : Bytes) : Finset Bytes :=
  (table.lookup blockHash).getD ∅

/-- The votes of a height. -/
def ballots (engine : ConsensusEngine) (height : UInt64) : Table Bytes (Finset Bytes) :=
  (engine.votes.lookup height).getD ∅

/-- `submit_vote`. -/
def submitVote (engine : ConsensusEngine) (peer : Bytes) (height : UInt64) (blockHash : Bytes) :
    ConsensusEngine :=
  if peer.isEmpty ∨ blockHash.isEmpty then engine
  else
    let table := engine.ballots height
    ⟨engine.votes.insert height (table.insert blockHash (insert peer (ballot table blockHash)))⟩

/-- `vote_count`. -/
def voteCount (engine : ConsensusEngine) (height : UInt64) (blockHash : Bytes) : Nat :=
  match engine.votes.lookup height with
  | none => 0
  | some table =>
    match table.lookup blockHash with
    | none => 0
    | some voters => voters.card

/-- `has_quorum`. Twice the number of peers wraps from `2 ^ 63` on, as `std::size_t` does. -/
def hasQuorum (engine : ConsensusEngine) (height : UInt64) (blockHash : Bytes) (totalPeers : UInt64) :
    Bool :=
  if totalPeers = 0 then false
  else decide ((2 * totalPeers / 3 + 1).toNat ≤ engine.voteCount height blockHash)

/-! ### What is counted -/

/-- A call of `submit_vote`. -/
structure Vote where
  peer : Bytes
  height : UInt64
  blockHash : Bytes
deriving DecidableEq

/-- The engine after a vote. -/
def step (engine : ConsensusEngine) (vote : Vote) : ConsensusEngine :=
  engine.submitVote vote.peer vote.height vote.blockHash

/-- The engine after a list of votes. -/
def reached (votes : List Vote) : ConsensusEngine := votes.foldl step new

/-- The voters of a block. -/
def voters (engine : ConsensusEngine) (height : UInt64) (blockHash : Bytes) : Finset Bytes :=
  ballot (engine.ballots height) blockHash

theorem voteCount_eq (engine : ConsensusEngine) (height : UInt64) (blockHash : Bytes) :
    engine.voteCount height blockHash = (engine.voters height blockHash).card := by
  unfold voteCount voters ballots
  cases engine.votes.lookup height with
  | none => rfl
  | some table =>
    simp only [Option.getD_some]
    unfold ballot
    cases table.lookup blockHash with
    | none => rfl
    | some voters => rfl

theorem mem_submitVote (engine : ConsensusEngine) (vote : Vote) (height : UInt64) (blockHash peer : Bytes) :
    peer ∈ (engine.step vote).voters height blockHash ↔
      peer ∈ engine.voters height blockHash ∨
        vote = ⟨peer, height, blockHash⟩ ∧ peer ≠ [] ∧ blockHash ≠ [] := by
  unfold step submitVote
  by_cases blank : vote.peer.isEmpty ∨ vote.blockHash.isEmpty
  · rw [if_pos blank]
    refine ⟨.inl, fun either => either.resolve_right ?_⟩
    rintro ⟨rfl, named, hashed⟩
    exact blank.elim (fun empty => named (List.isEmpty_iff.mp empty))
      (fun empty => hashed (List.isEmpty_iff.mp empty))
  · rw [if_neg blank]
    push Not at blank
    rw [Ne, Ne, List.isEmpty_iff, List.isEmpty_iff] at blank
    obtain ⟨voter, voteHeight, voteHash⟩ := vote
    unfold voters ballots
    dsimp only
    rw [lookup_insert]
    by_cases sameHeight : height = voteHeight
    · subst sameHeight
      rw [if_pos rfl, Option.getD_some]
      unfold ballot
      rw [lookup_insert]
      by_cases sameHash : blockHash = voteHash
      · subst sameHash
        rw [if_pos rfl, Option.getD_some, Finset.mem_insert]
        constructor
        · rintro (rfl | before)
          · exact .inr ⟨rfl, blank⟩
          · exact .inl before
        · rintro (before | ⟨same, -⟩)
          · exact .inr before
          · exact .inl (Vote.mk.inj same).1.symm
      · rw [if_neg sameHash]
        exact ⟨.inl, fun either => either.resolve_right fun own => sameHash (Vote.mk.inj own.1).2.2.symm⟩
    · rw [if_neg sameHeight]
      exact ⟨.inl, fun either => either.resolve_right fun own => sameHeight (Vote.mk.inj own.1).2.1.symm⟩

/-- The voters of a block are exactly the named peers that voted for it in the run, each once. -/
theorem mem_reached (votes : List Vote) (height : UInt64) (blockHash peer : Bytes) :
    peer ∈ (reached votes).voters height blockHash ↔
      ⟨peer, height, blockHash⟩ ∈ votes ∧ peer ≠ [] ∧ blockHash ≠ [] := by
  induction votes using List.reverseRecOn with
  | nil => simp [reached, new, voters, ballots, ballot]
  | append_singleton votes vote ih =>
    have last : reached (votes ++ [vote]) = (reached votes).step vote := by
      rw [reached, List.foldl_append]
      rfl
    rw [last, mem_submitVote, ih, List.mem_append, List.mem_singleton]
    constructor
    · rintro (⟨before, named⟩ | ⟨rfl, named⟩)
      · exact ⟨.inl before, named⟩
      · exact ⟨.inr rfl, named⟩
    · rintro ⟨before | rfl, named⟩
      · exact .inl ⟨before, named⟩
      · exact .inr ⟨rfl, named⟩

variable {total : UInt64}

/-- The votes that a quorum needs, where twice the number of peers does not wrap. -/
theorem needed_toNat (narrow : total.toNat < 2 ^ 63) :
    (2 * total / 3 + 1).toNat = 2 * total.toNat / 3 + 1 := by
  have doubled : (2 * total).toNat = 2 * total.toNat := by
    rw [UInt64.toNat_mul, Nat.mod_eq_of_lt]
    · rfl
    · change 2 * total.toNat < 2 ^ 64
      omega
  have third : (2 * total / 3).toNat = 2 * total.toNat / 3 := by
    rw [UInt64.toNat_div, doubled]
    rfl
  rw [UInt64.toNat_add, third, Nat.mod_eq_of_lt]
  · rfl
  · change 2 * total.toNat / 3 + 1 < 2 ^ 64
    omega

/-- A quorum of voters is more than two thirds, where twice the number of peers does not wrap. -/
theorem hasQuorum_many {engine : ConsensusEngine} {height : UInt64} {blockHash : Bytes}
    (narrow : total.toNat < 2 ^ 63) (quorum : engine.hasQuorum height blockHash total = true) :
    2 * total.toNat < 3 * (engine.voters height blockHash).card := by
  unfold hasQuorum at quorum
  split at quorum
  · exact absurd quorum (by simp)
  · have enough := of_decide_eq_true quorum
    rw [voteCount_eq, needed_toNat narrow] at enough
    omega

set_option maxRecDepth 2000 in
/-- From `2 ^ 63` peers on a single vote can be a quorum: twice their number wraps to nothing. -/
example : (submitVote new (ascii "a") 7 (ascii "x")).hasQuorum 7 (ascii "x") (2 ^ 63) = true := by
  decide

/-! ### Two quorums -/

/-- The peers that voted for both of two blocks. -/
def votedTwice (votes : List Vote) (peers : Finset Bytes) (height : UInt64) (first second : Bytes) :
    Finset Bytes :=
  peers.filter (fun peer => ⟨peer, height, first⟩ ∈ votes ∧ ⟨peer, height, second⟩ ∈ votes)

/-- When two blocks of one height each had a quorum at some moment of a run, counted over no fewer
peers than may vote and over totals whose double is a word, more than a third of these peers voted for
both blocks. -/
theorem quorums_share_voters (votes front later : List Vote) (cutFirst : front <+: votes)
    (cutSecond : later <+: votes) (peers : Finset Bytes) (height : UInt64)
    (within : ∀ vote ∈ votes, vote.height = height → vote.peer ∈ peers) (first second : Bytes)
    (total otherTotal : UInt64) (narrow : total.toNat < 2 ^ 63) (narrowOther : otherTotal.toNat < 2 ^ 63)
    (few : peers.card ≤ total.toNat) (fewOther : peers.card ≤ otherTotal.toNat)
    (quorum : (reached front).hasQuorum height first total = true)
    (otherQuorum : (reached later).hasQuorum height second otherTotal = true) :
    peers.card < 3 * (votedTwice votes peers height first second).card := by
  have manyFirst := hasQuorum_many narrow quorum
  have manySecond := hasQuorum_many narrowOther otherQuorum
  -- votes are only added, so both quorums are among the votes of the whole run
  have inside : ∀ (part : List Vote) (blockHash peer : Bytes), part <+: votes →
      peer ∈ (reached part).voters height blockHash → ⟨peer, height, blockHash⟩ ∈ votes := by
    intro part blockHash peer cut member
    exact cut.subset ((mem_reached part height blockHash peer).mp member).1
  have united : (reached front).voters height first ∪ (reached later).voters height second ⊆ peers := by
    intro peer member
    rcases Finset.mem_union.mp member with voted | voted
    · exact within _ (inside front first peer cutFirst voted) rfl
    · exact within _ (inside later second peer cutSecond voted) rfl
  have shared : (reached front).voters height first ∩ (reached later).voters height second ⊆
      votedTwice votes peers height first second := by
    intro peer member
    obtain ⟨left, right⟩ := Finset.mem_inter.mp member
    refine Finset.mem_filter.mpr ⟨united (Finset.mem_union_left _ left), ?_, ?_⟩
    · exact inside front first peer cutFirst left
    · exact inside later second peer cutSecond right
  have counted := Finset.card_union_add_card_inter ((reached front).voters height first)
    ((reached later).voters height second)
  have atMost := Finset.card_le_card united
  have atLeast := Finset.card_le_card shared
  omega

/-- Three peers vote for two blocks of height 7. -/
def sampleVotes : List Vote :=
  [⟨ascii "a", 7, ascii "x"⟩, ⟨ascii "b", 7, ascii "x"⟩, ⟨ascii "c", 7, ascii "x"⟩,
    ⟨ascii "a", 7, ascii "y"⟩, ⟨ascii "b", 7, ascii "y"⟩, ⟨ascii "c", 7, ascii "y"⟩]

/-- Three peers. -/
def samplePeers : Finset Bytes := {ascii "a", ascii "b", ascii "c"}

/-- Two certificates of three peers share a voter. -/
theorem sampleVotes_shared :
    samplePeers.card < 3 * (votedTwice sampleVotes samplePeers 7 (ascii "x") (ascii "y")).card :=
  quorums_share_voters sampleVotes (sampleVotes.take 3) sampleVotes (List.take_prefix _ _)
    (List.prefix_refl _) samplePeers 7 (by decide) (ascii "x") (ascii "y") 3 3 (by decide) (by decide)
    (by decide) (by decide) (by decide) (by decide)

end ConsensusEngine

end Addition
