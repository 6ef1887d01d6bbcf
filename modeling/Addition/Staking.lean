import Addition.Config

/-!
# Stake tickets, vote messages and the ticket draw

`staking.cpp`: the message a ticket signs, the deterministic stake-weighted draw
without replacement, and the stakers' share of a block's reward. The draw's
running total is 128-bit in the source; a sum of fewer than 2^64 64-bit amounts
stays below that width, so it is a plain natural.
-/

namespace Addition

open ByteStrings Checked

/-- `kStakeAddress`. -/
def kStakeAddress : Bytes := ascii "@stake"

/-- `StakeTicket`. -/
structure StakeTicket where
  id : Bytes
  owner : Bytes
  ownerPubkey : Bytes
  amount : UInt64
  lockHeight : UInt64
deriving DecidableEq

/-- `stake_vote_message`. -/
def stakeVoteMessage (networkId : Bytes) (votedHeight : UInt64) (votedHash ticketId : Bytes)
    (approve : Bool) : Bytes :=
  ascii "ADDITION_STAKE_VOTE_V1|" ++ networkId ++ ascii "|" ++ decimal votedHeight.toNat ++
    ascii "|" ++ votedHash ++ ascii "|" ++ ticketId ++ ascii "|" ++
    ascii (if approve then "approve" else "reject")

variable (P : Primitives)

/-- `seed_u64`: the first eight octets of the draw's digest, big-endian. -/
def seedU64 (seed : Bytes) (round : Nat) : Nat :=
  let digest := (P.sha3 (ascii "ADDITION_TICKET_DRAW_V1|" ++ seed ++ ascii "|" ++
    decimal round)).val
  (digest.take 8).foldl (fun total octet => 256 * total + octet.toNat) 0

/-- The index of the ticket whose cumulative interval holds the draw. -/
def winner (draw : Nat) : Nat → List StakeTicket → Option Nat
  | _, [] => none
  | total, ticket :: rest =>
    if draw < total + ticket.amount.toNat then some 0
    else (winner draw (total + ticket.amount.toNat) rest).map (· + 1)

/-- The weight of a ticket in the draw. -/
def StakeTicket.weight (ticket : StakeTicket) : Nat := ticket.amount.toNat

/-- The rounds of the draw that are left, with the running total. Round numbers are 32-bit words. -/
def drawRounds (seed : Bytes) : Nat → Nat → Nat → List StakeTicket → List Bytes
  | 0, _, _, _ => []
  | remaining + 1, round, total, eligible =>
    if eligible.isEmpty || total == 0 then []
    else
      let draw := (seedU64 P seed (round * 2 % 2 ^ 32) * 2 ^ 64 +
        seedU64 P seed ((round * 2 + 1) % 2 ^ 32)) % total
      match winner draw 0 eligible with
      | none => drawRounds seed remaining (round + 1) total eligible
      | some index =>
        (eligible.map StakeTicket.id).getD index [] ::
          drawRounds seed remaining (round + 1) (total - (eligible.map StakeTicket.weight).getD index 0)
            (eligible.eraseIdx index)

/-- Lexicographic order of octets, as `std::string` compares. -/
def bytesLe : Bytes → Bytes → Bool
  | [], _ => true
  | _ :: _, [] => false
  | left :: rest, right :: rest' =>
    if left < right then true else if right < left then false else bytesLe rest rest'

/-- `select_tickets`. -/
def selectTickets (eligible : List StakeTicket) (seed : Bytes) (count : UInt32) : List Bytes :=
  let sorted := eligible.mergeSort (fun left right => bytesLe left.id right.id)
  drawRounds P seed count.toNat 0 (sorted.map StakeTicket.weight).sum sorted

/-- `stake_reward_pool`. -/
def stakeRewardPool (subsidyPlusFees : UInt64) (bps : UInt32) : UInt64 :=
  UInt64.ofNat (subsidyPlusFees.toNat * min bps.toNat 10000 / 10000)

/-- `stake_reward_per_vote`. -/
def stakeRewardPerVote (subsidyPlusFees : UInt64) (bps : UInt32) (votes : Nat) : UInt64 :=
  if votes = 0 then 0
  else UInt64.ofNat ((stakeRewardPool subsidyPlusFees bps).toNat / votes)

end Addition
