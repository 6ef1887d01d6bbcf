import Addition.Transactions

/-!
# Chain configuration and consensus arithmetic

The `ChainConfig` fields that consensus reads, the network profiles, the LWMA
retarget and the emission schedule. 128-bit intermediates of the retarget are
natural numbers reduced modulo 2^128 where the source's type would wrap.
-/

namespace Addition

open ByteStrings Checked

/-- `PowAlgorithm`. -/
inductive PowAlgorithm where
  | sha3_512
  | memoryHard
deriving DecidableEq

/-- The fields of `ChainConfig` that consensus and persistence read. -/
structure ChainConfig where
  networkMode : Bytes
  networkId : Bytes
  genesisTimestamp : UInt64
  maxSupply : UInt64
  blockReward : UInt64
  targetBlockTimeSec : UInt32
  powAlgorithm : PowAlgorithm
  initialDifficultyTarget : UInt64
  minDifficultyTarget : UInt64
  maxDifficultyTarget : UInt64
  retargetWindow : UInt32
  difficultyForkHeight : UInt64
  lwmaWindow : UInt32
  legacyMinDifficultyTarget : UInt64
  halvingInterval : UInt32
  subsidyFloor : UInt64
  requirePqSignatures : Bool
  allowZeroRewardBlocks : Bool
  minFee : UInt64
  stakingActivationHeight : UInt64
  stakeMinAmount : UInt64
  stakeMaturity : UInt64
  stakeUnbondDelay : UInt64
  stakeVotesPerBlock : UInt32
  stakeVoteQuorum : UInt32
  stakeMinLiveTickets : UInt64
  stakeRewardBps : UInt32
  maxBlockWeight : UInt64
  shieldedEnabled : Bool
deriving DecidableEq

/-- The easiest target of the test network. -/
def kTestnetEasyDifficultyTarget : UInt64 := 0x0000FFFFFFFFFFFF
/-- The hardest target of the test network. -/
def kTestnetHardDifficultyTarget : UInt64 := 0x000000FFFFFFFFFF
/-- The easiest target of the main network. -/
def kMainnetMinDifficultyTarget : UInt64 := 0x0000000000FFFFFF
/-- The target of the regression network, which every digest meets. -/
def kRegtestMinDifficultyTarget : UInt64 := 0xFFFFFFFFFFFFFFFF
/-- The name of the test network. -/
def kTestnetNetworkId : Bytes := ascii "ADDITION_TESTNET_V1"
/-- The name of the main network. -/
def kMainnetNetworkId : Bytes := ascii "ADDITION_MAINNET_V1"
/-- The name of the regression network. -/
def kRegtestNetworkId : Bytes := ascii "ADDITION_REGTEST_V1"
/-- The name of the fast network. -/
def kFastNetworkId : Bytes := ascii "ADDITION_FAST_V1"

/-- `kMaxBlockWeight` of `block.hpp`. -/
def kMaxBlockWeight : Nat := 2 * 1024 * 1024

/-- `testnet_chain_config`: the default member values. -/
def testnetChainConfig : ChainConfig where
  networkMode := ascii "testnet"
  networkId := kTestnetNetworkId
  genesisTimestamp := 1763000000
  maxSupply := 50000000
  blockReward := 50
  targetBlockTimeSec := 60
  powAlgorithm := .sha3_512
  initialDifficultyTarget := kTestnetEasyDifficultyTarget
  minDifficultyTarget := kTestnetHardDifficultyTarget
  maxDifficultyTarget := kTestnetEasyDifficultyTarget
  retargetWindow := 30
  difficultyForkHeight := wordMax
  lwmaWindow := 60
  legacyMinDifficultyTarget := 0
  halvingInterval := 210000
  subsidyFloor := 0
  requirePqSignatures := true
  allowZeroRewardBlocks := true
  minFee := 0
  stakingActivationHeight := wordMax
  stakeMinAmount := 1000
  stakeMaturity := 256
  stakeUnbondDelay := 1440
  stakeVotesPerBlock := 5
  stakeVoteQuorum := 3
  stakeMinLiveTickets := 5
  stakeRewardBps := 3000
  maxBlockWeight := 2097152
  shieldedEnabled := false

/-- `regtest_chain_config`. -/
def regtestChainConfig : ChainConfig :=
  { testnetChainConfig with
    networkMode := ascii "regtest"
    networkId := kRegtestNetworkId
    genesisTimestamp := 1765000000
    initialDifficultyTarget := kRegtestMinDifficultyTarget
    minDifficultyTarget := kRegtestMinDifficultyTarget
    maxDifficultyTarget := kRegtestMinDifficultyTarget }

/-- `mainnet_chain_config`. -/
def mainnetChainConfig : ChainConfig :=
  { testnetChainConfig with
    networkMode := ascii "mainnet"
    networkId := kMainnetNetworkId
    genesisTimestamp := 1770000000
    blockReward := 4
    targetBlockTimeSec := 20
    powAlgorithm := .memoryHard
    initialDifficultyTarget := kTestnetHardDifficultyTarget
    minDifficultyTarget := kMainnetMinDifficultyTarget
    maxDifficultyTarget := kTestnetHardDifficultyTarget
    legacyMinDifficultyTarget := kTestnetHardDifficultyTarget
    difficultyForkHeight := 0
    lwmaWindow := 180
    halvingInterval := 5681819
    subsidyFloor := 1
    stakeMaturity := 768
    stakeUnbondDelay := 4320
    stakingActivationHeight := 14772727
    minFee := 1 }

/-- `fast_chain_config`. -/
def fastChainConfig : ChainConfig :=
  { testnetChainConfig with
    networkMode := ascii "fast"
    networkId := kFastNetworkId
    genesisTimestamp := 1780000000
    targetBlockTimeSec := 1 }

/-! ### Consensus arithmetic -/

/-- A solve time counts for at most so many targets of time. -/
def kLwmaMaxSolvetimeMultiple : Nat := 6
/-- A block may be so many block times ahead of the clock. -/
def kFutureTimeLimitBlocks : UInt64 := 15

/-- An unsigned 128-bit result. -/
def wrap128 (value : Nat) : Nat := value % 2 ^ 128

/-- `clamp_u64`; crossed bounds are exchanged. -/
def clampU64 (value : Nat) (low high : UInt64) : UInt64 :=
  let (low, high) := if low > high then (high, low) else (low, high)
  if value < low.toNat then low
  else if value > high.toNat then high
  else UInt64.ofNat value

/-- One step of the retarget loop: weighted solvetimes and the target sum. -/
def lwmaStep (maxSolvetime : Nat) (state : Nat × Nat × Nat) (pair : (UInt64 × UInt64) × UInt64) :
    Nat × Nat × Nat :=
  let (j, weighted, sumTarget) := state
  let ((previous, current), target) := pair
  let solvetime := if current > previous then (current - previous).toNat else 0
  let solvetime := if solvetime > maxSolvetime then maxSolvetime else solvetime
  (j + 1, wrap128 (weighted + wrap128 (solvetime * j)), wrap128 (sumTarget + target.toNat))

/-- `lwma_next_target`. -/
def lwmaNextTarget (timestamps targets : List UInt64) (targetBlockTimeSec minTarget maxTarget
    fallback : UInt64) : UInt64 :=
  let count := min timestamps.length targets.length
  if count < 2 ∨ targetBlockTimeSec = 0 then clampU64 fallback.toNat minTarget maxTarget
  else
    let times := timestamps.drop (timestamps.length - count)
    let goals := targets.drop (targets.length - count)
    let T := targetBlockTimeSec.toNat
    let n := count - 1
    let (_, weighted, sumTarget) :=
      ((times.zip times.tail).zip goals.tail).foldl
        (lwmaStep (wrap128 (T * kLwmaMaxSolvetimeMultiple))) (1, 0, 0)
    let k := wrap128 (n * (n + 1)) / 2
    let weighted := max weighted (wrap128 (k * T) / 10)
    let next := wrap128 (sumTarget / n * weighted) / wrap128 (k * T)
    let previous := targets.getLastD 0
    let next := max next (previous.toNat / 2)
    let next := min next (previous.toNat * 2)
    clampU64 (if next = 0 then 1 else next) minTarget maxTarget

/-- `scheduled_block_subsidy`. -/
def scheduledBlockSubsidy (height blockReward halvingInterval subsidyFloor : UInt64) : UInt64 :=
  if halvingInterval = 0 then blockReward
  else
    let halvings := height / halvingInterval
    let reward := if halvings ≥ 64 then 0 else blockReward >>> halvings
    max reward (min subsidyFloor blockReward)

/-- `max_mintable_subsidy`. -/
def maxMintableSubsidy (height totalEmitted maxSupply blockReward halvingInterval
    subsidyFloor : UInt64) : UInt64 :=
  let scheduled := scheduledBlockSubsidy height blockReward halvingInterval subsidyFloor
  let left := if maxSupply > totalEmitted then maxSupply - totalEmitted else 0
  min scheduled left

/-- A block may mint no more than is scheduled, and no more than the cap leaves. -/
theorem maxMintableSubsidy_le (height totalEmitted maxSupply blockReward halvingInterval
    subsidyFloor : UInt64) :
    (maxMintableSubsidy height totalEmitted maxSupply blockReward halvingInterval
        subsidyFloor).toNat ≤
      (scheduledBlockSubsidy height blockReward halvingInterval subsidyFloor).toNat ∧
    (maxMintableSubsidy height totalEmitted maxSupply blockReward halvingInterval
        subsidyFloor).toNat ≤ maxSupply.toNat - totalEmitted.toNat := by
  unfold maxMintableSubsidy
  dsimp only
  refine ⟨UInt64.le_iff_toNat_le.mp Std.min_le_left, ?_⟩
  refine le_trans (UInt64.le_iff_toNat_le.mp Std.min_le_right) ?_
  have bound := maxSupply.toNat_lt
  by_cases room : maxSupply > totalEmitted
  · have ordered : totalEmitted.toNat < maxSupply.toNat := UInt64.lt_iff_toNat_lt.mp room
    rw [if_pos room, UInt64.toNat_sub]
    omega
  · rw [if_neg room]
    exact Nat.zero_le _

end Addition
