import RifRelay.Machine.Program
import RifRelay.Machine.Rules
import RifRelay.Basic.Bytes
import RifRelay.Basic.Abi
import RifRelay.Basic.Ledger
import RifRelay.Contracts.World
import RifRelay.Contracts.Eip712Library
import RifRelay.Contracts.RelayHub
import RifRelay.Contracts.Proxy
import RifRelay.Contracts.SmartWallet
import RifRelay.Contracts.CustomSmartWallet
import RifRelay.Contracts.CustomSmartWalletFactory
import RifRelay.Contracts.Penalizer
import RifRelay.Contracts.Chain
import RifRelay.Contracts.Frames
import RifRelay.Contracts.ProofRules
import RifRelay.Machine.EventPath
import RifRelay.Stakes.StakeBook
import RifRelay.Contracts.HubSpec
import RifRelay.Contracts.HubHistory
import RifRelay.Contracts.StakeSafety
import RifRelay.Basic.Rlp
import RifRelay.Contracts.RLPRoundTrip
import RifRelay.Contracts.PenalizerChecks
import RifRelay.Contracts.Guard
import RifRelay.Contracts.Penalties
import RifRelay.Contracts.WalletHistory
import RifRelay.Contracts.WalletAuthenticity
import RifRelay.Contracts.HubEffects
import RifRelay.Tasks.Rules
import RifRelay.Workers.Roster
import RifRelay.Contracts.WorkerAccounts
import RifRelay.Contracts.StakeOwners
import RifRelay.Contracts.PenaltyCount
import RifRelay.Basic.Hex
import RifRelay.Client.WalletAddress
import RifRelay.Contracts.FactorySpec
import RifRelay.Contracts.WalletAddresses
import RifRelay.Contracts.CustomWalletSpec
import RifRelay.Contracts.Orders
import RifRelay.Contracts.Unless
import RifRelay.Contracts.Initialisation
import RifRelay.Contracts.WalletPlans
import RifRelay.Contracts.Counterfactual
import RifRelay.Contracts.CounterfactualOwnership
import RifRelay.Server.Transactions
import RifRelay.Server.Store
import RifRelay.Server.Readiness
import RifRelay.Client.KnownRelays
import RifRelay.Server.RegistrationManager
import RifRelay.Server.HubChain
import RifRelay.Server.Scanner
import RifRelay.Server.StakeScans
import RifRelay.Server.Scans
import RifRelay.Server.Rounds
import RifRelay.Server.StakeBeliefs
import RifRelay.Server.EventScans
import RifRelay.Server.HubEvents
import RifRelay.Tasks.Visitors
import RifRelay.Server.HttpServer
import RifRelay.Server.RootEndpoint
import RifRelay.Contracts.Registrations
import RifRelay.Client.BlockWindows
import RifRelay.Client.PingRaces
import RifRelay.Client.RelaySelection
import RifRelay.Tasks.Threads
import RifRelay.Server.Threads
import RifRelay.Server.Replenishing
import RifRelay.Server.Documents
import RifRelay.Server.Boosts
import RifRelay.Server.Confirmations
import RifRelay.Server.Books
import RifRelay.Server.Bookkeeping
import RifRelay.Server.BookedRuns
import RifRelay.Server.NonceGaps
import RifRelay.Server.WorkerEvents
import RifRelay.Basic.Utf8
import RifRelay.Common.VersionRegistry
import RifRelay.Basic.FirstOccurrences
import RifRelay.Cli.CommandsLogic
import RifRelay.Contracts.ForwardedGas
import RifRelay.Basic.Loops
import RifRelay.Basic.GapScans
import RifRelay.Client.SmartWalletDiscovery
import RifRelay.Client.GapRule
import RifRelay.Basic.Doubles
import RifRelay.Basic.Numerals
import RifRelay.Basic.JsObjects
import RifRelay.Server.ServerConfigParams
import RifRelay.Server.ConfigSources
import RifRelay.Machine.CallForest
import RifRelay.Contracts.CoinFlow
import RifRelay.Contracts.WalletCoins
import RifRelay.Contracts.EmptiedWallets
import RifRelay.Basic.TypedData
import RifRelay.Common.TypedRequestData
import RifRelay.Contracts.SignedRequests
import RifRelay.Machine.Outcomes
import RifRelay.Contracts.RelayedCalls
import RifRelay.Server.Conflicts
import RifRelay.Contracts.FactoryHistory
import RifRelay.Contracts.DeployAuthenticity
import RifRelay.Contracts.DeployCalls
import RifRelay.Tasks.Projections
import RifRelay.Server.VerifiedRelays
import RifRelay.Client.RelayClient
import RifRelay.Tasks.Triples
import RifRelay.Client.RelayedTransactions
