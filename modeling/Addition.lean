import Addition.Foundations.ByteStrings
import Addition.Foundations.Checked
import Addition.Foundations.FiniteTables
import Addition.Foundations.PairedLayers
import Addition.Primitives
import Addition.Transactions
import Addition.TransactionTexts
import Addition.Scripts
import Addition.Wire
import Addition.Config
import Addition.Staking
import Addition.TicketDraws
import Addition.Emission
import Addition.Retarget
import Addition.Shielded
import Addition.Chain
import Addition.Blocks
import Addition.Atomicity
import Addition.History
import Addition.Application
import Addition.CoinbaseBlocks
import Addition.Sequential
import Addition.Balances
import Addition.Ledger
import Addition.Outpoints
import Addition.CommitmentTexts
import Addition.StakingRules
import Addition.Foundations.Asking
import Addition.SignatureCache
import Addition.CachedBlocks
import Addition.CachedRuns
import Addition.Commitments
import Addition.Tickets
import Addition.Slashing
import Addition.Replay
import Addition.Work
import Addition.Foundations.PaddedTrees
import Addition.Pool
import Addition.Readers
import Addition.Statement
import Addition.Solvency
import Addition.Nullifiers
import Addition.Prover
import Addition.Supply
import Addition.Foundations.KeyIndexes
import Addition.Mempool
import Addition.Codec
import Addition.Relay
import Addition.Canonical
import Addition.Foundations.TextLines
import Addition.Store
import Addition.Persistence
import Addition.Restart
import Addition.Voting
import Addition.Miner
import Addition.DecentralizedNode
import Addition.Foundations.Runs
import Addition.NodeRuns
import Addition.PendingPool
import Addition.PoolConsistency
import Addition.Submissions
import Addition.TicketKeys
import Addition.Channels
import Addition.ChannelNode
import Addition.ChannelTexts
import Addition.ChannelRuns
import Addition.Revocations
import Addition.Foundations.FreePlaces
import Addition.Penalties
import Addition.ChannelFunding
import Addition.Capacity
import Addition.Rollbacks
import Addition.PeerUpdates
import Addition.ResolutionValues
import Addition.ScriptTexts
import Addition.ScriptGrammar
import Addition.ScriptSpends
import Addition.ChannelSpends
import Addition.PrivacyRuns
import Addition.StateLines
import Addition.PrivacyState
import Addition.Bridge
import Addition.BridgeRuns
import Addition.Contracts
import Addition.ContractRuns
import Addition.EngineLines
import Addition.ContractFiles
import Addition.IdentityRotation
import Addition.RotationRuns
import Addition.Tokens
import Addition.TokenSums
import Addition.TokenCalls
import Addition.PoolSteps
import Addition.TokenRuns
import Addition.TokenStates
import Addition.TokenFiles
import Addition.TokenDumps
import Addition.TokenStoring
import Addition.TokenRoundTrips
import Addition.Swaps
import Addition.Routes
import Addition.TransferFees
import Addition.LiquidityShares
import Addition.Foundations.StreamWords
import Addition.ChannelFiles
import Addition.StoredRuns
import Addition.RoutedPayments
import Addition.Foundations.GrowingVectors
import Addition.RouteSearch
import Addition.BestRoutes
import Addition.OptimalRoutes
import Addition.Foundations.ConstantProduct
import Addition.Foundations.NewtonRoots
import Addition.SquareRoots
import Addition.Foundations.KeySchedules
import Addition.PqSession
import Addition.SkippedKeys
import Addition.Handshakes
import Addition.SymbolicSuite
import Addition.Ratchet
import Addition.RatchetRuns
import Addition.RatchetDelivery
import Addition.RatchetForgeries
import Addition.FetchOrder
import Addition.TreePaths
import Addition.BundleCodec
import Addition.Foundations.LayeredBlocks
import Addition.Onion
import Addition.OnionRoutes
import Addition.PackageCodec
import Addition.SessionFiles
import Addition.SessionRuns
import Addition.Builders
import Addition.BuilderRuns
import Addition.PeerNetwork
import Addition.PeerEviction
import Addition.PeerRuns
import Addition.ComputeJobs
import Addition.ComputeRuns
import Addition.ComputeFiles
import Addition.StorageDeals
import Addition.StorageRuns
import Addition.StorageFiles
import Addition.MailRelay
import Addition.MailRelayRuns
import Addition.MailPromises
import Addition.PeerSessions
import Addition.PeerSessionRuns
import Addition.StemRouting
import Addition.StemRelays
import Addition.StemRuns
import Addition.ConsensusEngine
import Addition.DownConversion
import Addition.OlderForms
import Addition.RpcAccess
import Addition.RpcCommands
import Addition.RpcTexts
