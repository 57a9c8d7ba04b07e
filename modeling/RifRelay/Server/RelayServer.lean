import RifRelay.Server.RegistrationManager
import RifRelay.Server.ReplenishFunction

set_option autoImplicit false

/-! # `RelayServer`

`createRelayTransaction` serves a request of a client. `intervalHandler` is called again and
again: it runs a round of the worker (`worker`) unless one is going on.
-/

namespace RifRelay.Server

open EventLoop KnownRelaysManager TransactionManager TxStoreManager

variable {ν : Type} (cfg : Config)

/-! ## Requests -/

namespace RelayTransactionRequest

variable (req : RelayTransactionRequest)

def isDeployRequest : Bool :=
  match req with
  | .relay _ _ => false
  | .deploy _ _ => true

def metadata : RelayMetadata :=
  match req with
  | .relay _ metadata => metadata
  | .deploy _ metadata => metadata

def relayData : EnvelopingTypes.RelayData :=
  match req with
  | .relay relayRequest _ => relayRequest.relayData
  | .deploy relayRequest _ => relayRequest.relayData

/-- The call of the hub that relays the request. -/
def method : CallData :=
  match req with
  | .relay relayRequest metadata => .relayCall relayRequest metadata.signature
  | .deploy relayRequest metadata => .deployCall relayRequest metadata.signature

end RelayTransactionRequest

namespace RelayServer

/-! ## State -/

def isReady (m : Memory ν) : Bool :=
  if m.lastSuccessfulRounds < cfg.successfulRoundsForReady then false else m.ready

def isTrustedVerifier (m : Memory ν) (verifier : Address) : Bool :=
  m.trustedVerifiers.contains verifier

def shouldRefreshState (m : Memory ν) (currentBlock : Nat) : Bool :=
  (currentBlock : Int) - m.lastRefreshBlock ≥ cfg.refreshStateTimeoutBlocks || !isReady cfg m

/-- `setReadyState`, noting what the refresh has found. -/
def setReadyState (ready : Bool) (found : Findings) (m : Memory ν) : Memory ν :=
  { m with ready := ready, record := { m.record with refreshes := m.record.refreshes ++ [found] } }

/-- `this.lastSuccessfulRounds++` of a JavaScript number. -/
def countRound (lastSuccessfulRounds : Nat) : Nat := min (lastSuccessfulRounds + 1) (2 ^ 53)

/-- Note how a round has gone. -/
def noteOutcome (outcome : Outcome) (m : Memory ν) : Memory ν :=
  note (fun r => { r with outcomes := r.outcomes ++ [outcome] }) m

/-! ## `createRelayTransaction` -/

def includes (text part : String) : Bool := (text.splitOn part).length > 1

def validateInput (req : RelayTransactionRequest) : Handler ν Unit := do
  Async.assert (req.metadata.relayHubAddress = cfg.relayHubAddress)
    ("Wrong hub address.\nRelay server's hub address: " ++ addressText cfg.relayHubAddress ++
      ", request's hub address: " ++ addressText req.metadata.relayHubAddress ++ "\n")
  Async.assert (req.relayData.relayWorker = cfg.workerAddress)
    ("Wrong worker address: " ++ addressText req.relayData.relayWorker ++ "\n")
  let m ← Async.get
  Async.assert (¬ m.gasPrice > req.relayData.gasPrice.toNat)
    ("Unacceptable gasPrice: relayServer's gasPrice:" ++ toString m.gasPrice ++
      " request's gasPrice: " ++ toString req.relayData.gasPrice.toNat)

def validateMaxNonce (relayMaxNonce : Int) : Handler ν Unit := do
  let nonce ← polled cfg.workerAddress
  Async.assert (¬ nonce.any fun n => (n : Int) > relayMaxNonce)
    ("Unacceptable relayMaxNonce: " ++ toString relayMaxNonce ++ ". current nonce: " ++
      toString (nonce.getD 0))

/-- The gas that a request may need at most. -/
def maxPossibleGas (req : RelayTransactionRequest) : Handler ν Nat :=
  match req with
  | .deploy _ _ => ask (.estimateGas req)
  | .relay relayRequest _ => do
      let estimatedDesinationGasCost ← ask (.estimateDestinationGas relayRequest)
      let gasFromRequestMaxAgreed := cfg.maxAgreedGas relayRequest.request.gas.toNat
      Async.assert (¬ estimatedDesinationGasCost > gasFromRequestMaxAgreed)
        ("Request payload's gas parameters deviate too much fom the estimated gas for this" ++
          " transaction")
      ask (.estimateGas req)

/-- The error for a verifier contract that cannot be created. -/
def verifierError (verifier : Address) (message : String) : String :=
  if includes message "Returned values aren't valid, did it run Out of Gas?" then
    "incompatible verifier contract: " ++ addressText verifier
  else if includes message "no code at address" then
    "'non-existent verifier contract: " ++ addressText verifier
  else "unknown verifier error: " ++ message

def validateRequestWithVerifier (req : RelayTransactionRequest) : Handler ν Nat := do
  let verifier := req.relayData.callVerifier
  let m ← Async.get
  Async.assert (isTrustedVerifier m verifier = true) "Invalid verifier"
  Async.recover (ask (.createVerifier verifier)) fun e => Async.throw (verifierError verifier e)
  let gas ← maxPossibleGas cfg req
  Async.recover (ask (.verifyRelayedCall req)) fun e =>
    Async.throw ("Verification by verifier failed: " ++ e)
  return gas

def validateViewCallSucceeds (req : RelayTransactionRequest) (gas : Nat) : Handler ν Unit :=
  Async.recover (ask (.viewCall req.method req.relayData.gasPrice.toNat gas)) fun e =>
    Async.throw ("relayCall (local call) reverted in server: " ++ e)

/-- The transaction that relays the request. -/
def relayDetails (req : RelayTransactionRequest) (gas currentBlock : Nat) :
    SendTransactionDetails where
  signer := cfg.workerAddress
  serverAction := .RELAY_CALL
  method := some req.method
  destination := some req.metadata.relayHubAddress
  value := none
  gasLimit := gas
  gasPrice := some req.relayData.gasPrice.toNat
  creationBlockNumber := currentBlock

def createRelayTransaction (req : RelayTransactionRequest) :
    Handler ν SignedTransactionDetails := do
  let m ← Async.get
  Async.assert (isReady cfg m = true) "relay not ready"
  Async.whenever (m.alerted = true) (ask .sleep)
  validateInput cfg req
  awaiting .validateMaxNonce (validateMaxNonce cfg req.metadata.relayMaxNonce)
  let gas ← awaiting .validateRequestWithVerifier (validateRequestWithVerifier cfg req)
  awaiting .validateViewCallSucceeds (validateViewCallSucceeds req gas)
  let currentBlock ← ask .getBlockNumber
  let txDetails ← awaiting .sendTransaction
    (sendTransaction cfg (relayDetails cfg req gas currentBlock))
  let _ ← awaiting .replenishServer (replenishServer cfg currentBlock)
  return txDetails

/-! ## Starting -/

def initTrustedVerifiers (m : Memory ν) : Memory ν :=
  let own := [cfg.relayVerifierAddress, cfg.deployVerifierAddress].filter (· ≠ 0)
  { m with trustedVerifiers := (cfg.trustedVerifiers ++ own).dedup }

/-- The process ends: nothing comes back. -/
def fatal : Handler ν Unit := do
  Async.modify fun m => { m with exited := true }
  ask .exit

def init : Handler ν Unit := do
  let m ← Async.get
  Async.assert (m.initialized = false) "_init was already called"
  Async.modify (initTrustedVerifiers cfg)
  ask (.settled .initTrustedVerifiers)
  let codeLength ← ask (.getCode cfg.relayHubAddress)
  -- the text of an account without code is `0x`
  Async.whenever (codeLength < 10) fatal
  Async.modify (RegistrationManager.modify fun _ => .new)
  awaiting .registrationManagerInit RegistrationManager.init
  let _latestBlock ← ask .getBlock
  Async.modify fun m => { m with initialized := true }

/-! ## Rounds of the worker -/

def refreshGasPrice : Handler ν Unit := do
  let gasPriceString ← ask .getGasPrice
  Async.modify fun m => { m with gasPrice := cfg.factoredGasPrice gasPriceString }
  let m ← Async.get
  Async.assert (m.gasPrice ≠ 0) "Could not get gasPrice from node"

def getAllHubEventsSinceLastScan : Handler ν (List EventData) := do
  let m ← Async.get
  ask (.getPastEvents ActiveManagerEvents (m.lastScannedBlock + 1))

def queryLatestActiveEvent : Handler ν (Option EventData) := do
  let events ← ask (.getPastEvents ActiveManagerEvents 1)
  return getLatestEventData events

/-- `_updateLatestTxBlockNumber`; it returns its argument, which it has sorted. -/
def updateLatestTxBlockNumber (eventsSinceLastScan : List EventData) :
    Handler ν (List EventData) := do
  let latestTransactionSinceLastScan := getLatestEventData eventsSinceLastScan
  Async.whenever (latestTransactionSinceLastScan ≠ none)
    (Async.modify fun m => { m with lastMinedActiveTransaction := latestTransactionSinceLastScan })
  let m ← Async.get
  Async.whenever (m.lastMinedActiveTransaction = none) do
    let event ← awaiting .queryLatestEvent queryLatestActiveEvent
    Async.modify fun m => { m with lastMinedActiveTransaction := event }
  return sortLatestFirst eventsSinceLastScan

def getLatestTxBlockNumber (m : Memory ν) : Int :=
  match m.lastMinedActiveTransaction with
  | some event => event.blockNumber
  | none => -1

def shouldRegisterAgain (currentBlock : Nat) : Handler ν Bool := do
  let relayPending ← awaiting .isActionPending (isActionPending .RELAY_CALL none)
  let isPendingActivityTransaction ← (if relayPending then pure true else
    awaiting .isActionPending (isActionPending .REGISTER_SERVER none))
  if cfg.registrationBlockRate = 0 ∨ isPendingActivityTransaction = true then
    return false
  let m ← Async.get
  return (currentBlock : Int) - getLatestTxBlockNumber m ≥ cfg.registrationBlockRate

/-- The manager and the one worker. -/
def boostStuckPendingTransactions (blockNumber : Nat) :
    Handler ν (List (Word × SignedTransactionDetails)) := do
  let manager ← awaiting .boostUnderpricedPendingTransactionsForSigner
    (boostUnderpricedPendingTransactionsForSigner cfg cfg.managerAddress blockNumber)
  let worker ← awaiting .boostUnderpricedPendingTransactionsForSigner
    (boostUnderpricedPendingTransactionsForSigner cfg cfg.workerAddress blockNumber)
  return manager ++ worker

/-- `this.lastScannedBlock = currentBlockNumber`, noted with the registration status. -/
def storeScan (currentBlockNumber : Nat) (m : Memory ν) : Memory ν :=
  { m with
    lastScannedBlock := currentBlockNumber
    record := m.record.inRound fun r =>
      { r with stored := some (m.registrationManager.isRegistered cfg) } }

/-- The two flags. -/
def setAlert (blockNumber : Nat) (m : Memory ν) : Memory ν :=
  { m with alerted := true, alertedBlock := blockNumber }

def noteAlert (event : EventData) (m : Memory ν) : Memory ν :=
  note (·.inRound fun r => { r with alerts := r.alerts ++ [⟨event, m.alerted, m.alertedBlock⟩] }) m

/-- One turn of the loop of `handlePastHubEvents`. -/
def handlePastHubEvent (currentBlockNumber : Nat) (event : EventData) : Handler ν Unit :=
  match eventName event.event with
  | some .TransactionRejectedByRecipient => do
      Async.modify (setAlert currentBlockNumber)
      Async.modify (noteAlert event)
      ask (.settled .handleHubEvent)
  | some .TransactionRelayed => ask (.settled .handleHubEvent)
  | _ => return

def handlePastHubEvents (currentBlockNumber : Nat) (hubEventsSinceLastScan : List EventData) :
    Handler ν Unit :=
  Async.each (handlePastHubEvent currentBlockNumber) hubEventsSinceLastScan

def leaveAlert (currentBlockNumber : Nat) (m : Memory ν) : Memory ν :=
  if m.alerted && m.alertedBlock + cfg.alertedBlockDelay < currentBlockNumber then
    { m with alerted := false }
  else m

/-- The end of `_handleChanges`, once the server is registered. -/
def serveRegistered (currentBlockNumber managerBalance : Nat) (isRegistered : Bool)
    (hubEventsSinceLastScan : List EventData) : Handler ν (List Word) := do
  awaiting .handlePastHubEvents (handlePastHubEvents currentBlockNumber hubEventsSinceLastScan)
  let replenished ← awaiting .replenishServer (replenishServer cfg currentBlockNumber)
  let workerBalance ← awaiting .getWorkerBalance (getWorkerBalance cfg)
  if workerBalance < cfg.workerMinBalance then
    Async.modify (setReadyState false ⟨managerBalance, some isRegistered, some workerBalance⟩)
    return replenished
  Async.modify (setReadyState true ⟨managerBalance, some isRegistered, some workerBalance⟩)
  Async.modify (leaveAlert cfg currentBlockNumber)
  return replenished

/-- `_handleChanges`; `managerBalance` is what the round has found before, for the record. -/
def handleChanges (currentBlockNumber managerBalance : Nat) : Handler ν (List Word) := do
  let hubEventsSinceLastScan ← awaiting .getAllHubEventsSinceLastScan getAllHubEventsSinceLastScan
  let hubEventsSinceLastScan ← awaiting .updateLatestTxBlockNumber
    (updateLatestTxBlockNumber hubEventsSinceLastScan)
  let again ← awaiting .shouldRegisterAgain (shouldRegisterAgain cfg currentBlockNumber)
  let m ← Async.get
  let transactionHashes ← awaiting .handlePastEvents
    (RegistrationManager.handlePastEvents cfg hubEventsSinceLastScan m.lastScannedBlock
      currentBlockNumber again)
  awaiting .removeConfirmedTransactions (removeConfirmedTransactions cfg currentBlockNumber)
  let _ ← awaiting .boostStuckTransactions (boostStuckPendingTransactions cfg currentBlockNumber)
  -- the block that was read when the round began
  Async.modify (storeScan cfg currentBlockNumber)
  let isRegistered ← awaiting .isRegistered (do
    let m ← Async.get
    return m.registrationManager.isRegistered cfg)
  if !isRegistered then
    Async.modify (setReadyState false ⟨managerBalance, some isRegistered, none⟩)
    return transactionHashes
  let replenished ← serveRegistered cfg currentBlockNumber managerBalance isRegistered
    hubEventsSinceLastScan
  return transactionHashes ++ replenished

def worker (blockNumber : Nat) : Handler ν (List Word) := do
  let m ← Async.get
  Async.whenever (m.initialized = false) (awaiting .init (init cfg))
  let m ← Async.get
  Async.assert (¬ blockNumber ≤ m.lastScannedBlock) "Attempt to scan older block, aborting"
  if !shouldRefreshState cfg m blockNumber then
    return []
  Async.modify fun m => { m with lastRefreshBlock := blockNumber }
  awaiting .refreshGasPrice (refreshGasPrice cfg)
  awaiting .refreshBalance (RegistrationManager.refreshBalance cfg)
  let m ← Async.get
  if !m.registrationManager.isBalanceSatisfied cfg then
    Async.modify (setReadyState false ⟨m.registrationManager.balance, none, none⟩)
    return []
  awaiting .handleChanges (handleChanges cfg blockNumber m.registrationManager.balance)

/-- A round begins. -/
def beginRound (i : ℕ) (blockNumber : Nat) (m : Memory ν) : Memory ν :=
  { m with
    workerSemaphoreOn := some i
    record := { m.record with
      rounds := ⟨m.lastScannedBlock, blockNumber, [], [], none, none, []⟩ :: m.record.rounds } }

def releaseSemaphore (m : Memory ν) : Memory ν := { m with workerSemaphoreOn := none }

def completeRound (m : Memory ν) : Memory ν :=
  noteOutcome .completed { m with lastSuccessfulRounds := countRound m.lastSuccessfulRounds }

/-- `_workerSemaphore`, run by thread `i`. -/
def workerSemaphore (i : ℕ) (blockNumber : Nat) : Handler ν Unit := do
  let m ← Async.get
  if m.workerSemaphoreOn.isSome then
    return
  Async.modify (beginRound i blockNumber)
  Async.ensuring
    (do
      let _transactions ← awaiting .worker (worker cfg blockNumber)
      Async.modify completeRound)
    releaseSemaphore

/-- `this.lastSuccessfulRounds = 0`, after a failure or when the time is over. -/
def resetRounds (outcome : Outcome) (m : Memory ν) : Memory ν :=
  noteOutcome outcome { m with lastSuccessfulRounds := 0 }

/-- `intervalHandler`, run by thread `i`. The http server listens to the event `error`, so that
emitting it does not throw. -/
def intervalHandler (i : ℕ) : Handler ν Unit :=
  Async.recover
    (do
      let blockNumber ← ask .getBlock
      let m ← Async.get
      Async.whenever (blockNumber > m.lastScannedBlock)
        (awaiting .workerSemaphore (workerSemaphore cfg i blockNumber)))
    fun _ => Async.modify (resetRounds .failed)

/-- The callback of the timer that `intervalHandler` sets. -/
def readyTimeout : Handler ν Unit := Async.modify (resetRounds .timedOut)

end RelayServer

end RifRelay.Server
