import RifRelay.Client.KnownRelays
import RifRelay.Server.Transactions
import RifRelay.Tasks.Async

set_option autoImplicit false

/-! # The memory of the relay server, and what it waits for

`Memory` is everything the handlers of the server share, with `node : ν` for what is outside.
Its part `record` is written and never read by the handlers: it says what they have done.

Every `await` of the source is a `Question`: to the node, to the mutex, to the database, or to
an async function of the server itself (`settled`). The documents of the database are
`txstore`; what the database answers and does is in `Server/Process.lean`.
-/

namespace RifRelay.Server

open EventLoop KnownRelaysManager

/-! ## The record -/

/-- A signature that a key manager has made, and whether `resendTransaction` asked for it. -/
structure Signature where
  resent : Bool
  signedTx : SignedTransaction
deriving DecidableEq

/-- The flags after the alert that an event has raised. -/
structure Alert where
  event : EventData
  alerted : Bool
  alertedBlock : Nat
deriving DecidableEq

/-- A transfer of `withdrawAllFunds`, the event that it was called for, and the stakes that the
node had told the process by then. -/
structure Payout where
  event : EventData
  details : SendTransactionDetails
  stakes : List StakeInfo
deriving DecidableEq

/-- A round of the worker that is past the semaphore: the last scanned block when it began,
its block, the events handed to `handlePastEvents` or fetched by it, those that
`withdrawAllFunds` was called for, whether the server was registered when `handlePastEvents`
was through and when the round has stored its block as the last scanned one, and the alerts
it has raised. -/
structure Round where
  lastScannedBlock : Nat
  blockNumber : Nat
  passed : List EventData
  withdrawn : List EventData
  scanned : Option Bool
  stored : Option Bool
  alerts : List Alert
deriving DecidableEq

/-- How rounds went. -/
inductive Outcome
  | completed
  | failed
  | timedOut
deriving DecidableEq

/-- What a refresh of the state has found, as far as it came: the balance of the manager,
whether the server is registered, the balance of the worker. -/
structure Findings where
  managerBalance : Nat
  isRegistered : Option Bool
  workerBalance : Option Nat
deriving DecidableEq

/-- What the handlers have done since the process was started; `rounds` has the latest first. -/
structure Record where
  signatures : List Signature
  rounds : List Round
  outcomes : List Outcome
  refreshes : List Findings
  stakes : List StakeInfo
  payouts : List Payout
deriving DecidableEq

/-! ## The memory -/

/-- The fields of `RegistrationManager`; `balance` and `stake` are the current values of the
amounts it requires. -/
structure RegistrationManager where
  balance : Nat
  stake : Nat
  isStakeLocked : Bool
  isInitialized : Bool
  ownerAddress : Option Address
  lastMinedRegisterTransaction : Option EventData
  lastWorkerAddedTransaction : Option EventData
  delayedEvents : List (Nat × EventData)
deriving DecidableEq

/-- What the constructor leaves. -/
def RegistrationManager.new : RegistrationManager :=
  ⟨0, 0, false, false, none, none, none, []⟩

/-- What the handlers of a server share. `nonceMutex` and `workerSemaphoreOn` name the thread
that has set them, `workerBalance` is the current value of `workerBalanceRequired`, `polling`
says that the worker is called again and again, and `exited` that the process is over. -/
structure Memory (ν : Type) where
  nonces : Address → Option Nat
  nonceMutex : Option ℕ
  txstore : List StoredTransaction
  lastScannedBlock : Nat
  lastRefreshBlock : Nat
  ready : Bool
  lastSuccessfulRounds : Nat
  gasPrice : Nat
  workerSemaphoreOn : Option ℕ
  alerted : Bool
  alertedBlock : Nat
  initialized : Bool
  polling : Bool
  exited : Bool
  trustedVerifiers : List Address
  workerBalance : Nat
  lastMinedActiveTransaction : Option EventData
  registrationManager : RegistrationManager
  record : Record
  node : ν

/-! ## Requests and questions -/

structure RelayMetadata where
  relayHubAddress : Address
  relayMaxNonce : Int
  signature : Bytes
deriving DecidableEq

/-- A request of a client: to relay a call, or to deploy a wallet. -/
inductive RelayTransactionRequest
  | relay (relayRequest : EnvelopingTypes.RelayRequest) (metadata : RelayMetadata)
  | deploy (relayRequest : EnvelopingTypes.DeployRequest) (metadata : RelayMetadata)
deriving DecidableEq

/-- A mined transaction as the node reports it. -/
structure Receipt where
  blockNumber : Option Nat
  «from» : Address
  nonce : Nat
deriving DecidableEq

/-- The events the server asks the node for. -/
inductive EventName
  | RelayServerRegistered
  | RelayWorkersAdded
  | TransactionRelayed
  | TransactionRejectedByRecipient
  | StakeAdded
  | StakeUnlocked
  | StakeWithdrawn
deriving DecidableEq

def ActiveManagerEvents : List EventName :=
  [.RelayServerRegistered, .RelayWorkersAdded, .TransactionRelayed,
    .TransactionRejectedByRecipient]

def stakeEvents : List EventName := [.StakeAdded, .StakeUnlocked, .StakeWithdrawn]

/-- The name of an event, if the server ever asks for it. `TransactionRejectedByRecipient`
stands for `TransactionRelayedButRevertedByRecipient`. -/
def eventName (e : Event) : Option EventName :=
  match e with
  | .RelayServerRegistered _ _ => some .RelayServerRegistered
  | .RelayWorkersAdded _ _ _ => some .RelayWorkersAdded
  | .TransactionRelayed _ _ _ _ => some .TransactionRelayed
  | .TransactionRelayedButRevertedByRecipient _ _ _ _ => some .TransactionRejectedByRecipient
  | .StakeAdded _ _ _ _ => some .StakeAdded
  | .StakeUnlocked _ _ _ => some .StakeUnlocked
  | .StakeWithdrawn _ _ _ => some .StakeWithdrawn
  | _ => none

/-- The async functions that are awaited, with what `pollNonce` resolves to. -/
inductive AsyncFunction
  | getAll
  | getAllBySigner
  | removeTxsUntilNonce
  | isActionPending
  | putTx
  | pollNonce (signer : Address) (nonce : Except String (Option Nat))
  | updateTransactionWithMinedBlock
  | updateTransactionWithAttempt
  | resendTransaction
  | sendTransaction
  | attemptEstimateGas
  | removeConfirmedTransactions
  | boostUnderpricedPendingTransactionsForSigner
  | getContractMethod
  | queryLatestEvent
  | registrationManagerInit
  | refreshBalance
  | refreshStake
  | handleStakeEvent
  | withdrawAllFunds
  | sendBalanceToOwner
  | isRegistrationCorrect
  | isRegistered
  | addRelayWorker
  | attemptRegistration
  | handlePastEvents
  | validateMaxNonce
  | validateRequestWithVerifier
  | validateViewCallSucceeds
  | getManagerBalance
  | getWorkerBalance
  | defaultReplenishFunction
  | replenishStrategy
  | replenishServer
  | initTrustedVerifiers
  | init
  | refreshGasPrice
  | getAllHubEventsSinceLastScan
  | updateLatestTxBlockNumber
  | shouldRegisterAgain
  | boostStuckTransactions
  | handlePastHubEvents
  | handleHubEvent
  | handleChanges
  | worker
  | workerSemaphore

/-- `getBalance` is asked for the latest block, or for the pending one. -/
inductive Question
  | acquire
  | findOne (key : NonceSigner)
  | find
  | findBySigner (signer : Address)
  | insert (tx : StoredTransaction)
  | update (txId : Word) (tx : StoredTransaction)
  | remove (key : NonceSigner)
  | getGasPrice
  | getTransactionCount (addr : Address)
  | getBalance (addr : Address) (pending : Bool)
  | getBlock
  | getBlockNumber
  | getCode (addr : Address)
  | getTransaction (txId : Word)
  | getPastEvents (names : List EventName) (fromBlock : Nat)
  | getStakeInfo
  | broadcastTransaction (signedTx : SignedTransaction)
  | createVerifier (addr : Address)
  | createTokenHandler (addr : Address)
  | getAcceptedTokens (addr : Address)
  | estimateGas (req : RelayTransactionRequest)
  | estimateMethodGas (method : CallData) («from» : Address)
  | estimateDestinationGas (request : EnvelopingTypes.RelayRequest)
  | verifyRelayedCall (req : RelayTransactionRequest)
  | viewCall (method : CallData) (gasPrice gas : Nat)
  | sleep
  | exit
  | settled (f : AsyncFunction)

abbrev Answer : Question → Type
  | .findOne _ => Option StoredTransaction
  | .find | .findBySigner _ => List StoredTransaction
  | .getGasPrice | .getTransactionCount _ | .getBalance _ _ | .getBlock | .getBlockNumber => Nat
  | .getCode _ => Nat
  | .getTransaction _ => Option Receipt
  | .getPastEvents _ _ => List EventData
  | .getStakeInfo => StakeInfo
  | .getAcceptedTokens _ => List Address
  | .broadcastTransaction _ => Word
  | .estimateGas _ | .estimateMethodGas _ _ | .estimateDestinationGas _ => Nat
  | _ => Unit

abbrev Handler (ν α : Type) : Type := Async (Memory ν) Question Answer α

variable {ν α : Type}

/-- Wait for the answer to a question. -/
def ask (q : Question) : Handler ν (Answer q) := Async.await q

/-- Wait for the async function `f`. -/
def awaiting (f : AsyncFunction) (p : Handler ν α) : Handler ν α :=
  p.call fun _ => .settled f

/-! ## Writing the record -/

/-- Write the record. -/
def note (f : Record → Record) (m : Memory ν) : Memory ν := { m with record := f m.record }

/-- Write the round that is going on. -/
def inLatest (f : Round → Round) : List Round → List Round
  | [] => []
  | round :: past => f round :: past

def Record.inRound (f : Round → Round) (r : Record) : Record :=
  { r with rounds := inLatest f r.rounds }

end RifRelay.Server
