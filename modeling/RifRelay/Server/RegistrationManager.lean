import RifRelay.Server.TransactionManager

set_option autoImplicit false

/-! # `RegistrationManager`

What the server knows of its stake, its registration and its owner, and what it does about
them: `handlePastEvents` follows the events of the hub, withdraws the funds when the stake is
gone, and registers.
-/

namespace RifRelay.Server

open EventLoop KnownRelaysManager TransactionManager TxStoreManager

/-! ## Utilities -/

/-- `isSecondEventLater`: the place of an event in its transaction is not looked at. -/
def isSecondEventLater (a b : EventData) : Bool :=
  if a.blockNumber = b.blockNumber then b.transactionIndex > a.transactionIndex
  else b.blockNumber > a.blockNumber

/-- The comparison of `getLatestEventData` is not positive. -/
def notEarlier (a b : EventData) : Prop :=
  (if a.blockNumber = b.blockNumber then (b.transactionIndex : Int) - a.transactionIndex
    else (b.blockNumber : Int) - a.blockNumber) ≤ 0

instance : DecidableRel notEarlier := fun _ _ => Int.decLe _ _

/-- What `getLatestEventData` makes of its argument: it sorts it in place. -/
def sortLatestFirst (events : List EventData) : List EventData :=
  events.insertionSort notEarlier

def getLatestEventData (events : List EventData) : Option EventData :=
  (sortLatestFirst events).head?

variable {ν : Type} (cfg : Config)

/-- The url that the server registers. -/
def Config.registerUrl : String :=
  let portIncluded := (cfg.url.toList.findIdx? (· == ':')).any fun index => index > 0
  cfg.url ++ if !portIncluded && cfg.port > 0 then ":" ++ toString cfg.port else ""

def isRegistrationValid (registerEvent : Option EventData) : Bool :=
  match registerEvent.map EventData.event with
  | some (.RelayServerRegistered relayManager relayUrl) =>
      relayManager == cfg.managerAddress && relayUrl == cfg.registerUrl
  | _ => false

/-! ## The state of the manager -/

namespace RegistrationManager

variable (r : RegistrationManager)

/-- `balanceRequired.isSatisfied` -/
def isBalanceSatisfied : Bool := cfg.managerMinBalance ≤ r.balance

/-- `stakeRequired.isSatisfied` -/
def isStakeSatisfied : Bool := cfg.managerMinStake ≤ r.stake

def isRegistrationCorrect : Bool := isRegistrationValid cfg r.lastMinedRegisterTransaction

def isRegistered : Bool :=
  r.isStakeSatisfied cfg && r.isStakeLocked && r.isRegistrationCorrect cfg

def isWorkerValid : Bool :=
  match r.lastWorkerAddedTransaction.map EventData.event with
  | some (.RelayWorkersAdded _ newRelayWorkers _) => newRelayWorkers.contains cfg.workerAddress
  | _ => false

/-- What `refreshStake` makes of the answer of the node: nothing when there is no stake. -/
def refreshed (stakeInfo : StakeInfo) : RegistrationManager :=
  if stakeInfo.stake = 0 then r
  else
    { r with
      isStakeLocked := stakeInfo.withdrawBlock == 0
      stake := stakeInfo.stake.toNat
      ownerAddress := r.ownerAddress.or (some stakeInfo.owner) }

/-- `this.delayedEvents.push` -/
def delay (withdrawBlock : Word) (eventData : EventData) : RegistrationManager :=
  { r with delayedEvents := r.delayedEvents ++ [(withdrawBlock.toNat, eventData)] }

/-- The events that `_extractDuePendingEvents` returns. -/
def duePendingEvents (currentBlock : Nat) : List EventData :=
  (r.delayedEvents.filter fun e => e.1 ≤ currentBlock).map (·.2)

/-- What `_extractDuePendingEvents` leaves. -/
def withoutDueEvents (currentBlock : Nat) : RegistrationManager :=
  { r with delayedEvents := r.delayedEvents.filter fun e => e.1 > currentBlock }

/-- One turn of the loop over the events of the hub. -/
def noteHubEvent (eventData : EventData) : RegistrationManager :=
  match eventName eventData.event with
  | some .RelayServerRegistered =>
      if r.lastMinedRegisterTransaction.all fun last => isSecondEventLater last eventData then
        { r with lastMinedRegisterTransaction := some eventData }
      else r
  | some .RelayWorkersAdded =>
      if r.lastWorkerAddedTransaction.all fun last => isSecondEventLater last eventData then
        { r with lastWorkerAddedTransaction := some eventData }
      else r
  | _ => r

/-- Write the registration manager. -/
def modify (f : RegistrationManager → RegistrationManager) (m : Memory ν) : Memory ν :=
  { m with registrationManager := f m.registrationManager }

/-! ## What it asks the node -/

def refreshBalance : Handler ν Unit := do
  let currentBalance ← ask (.getBalance cfg.managerAddress false)
  Async.modify (modify fun r => { r with balance := currentBalance })

def refreshStake : Handler ν Unit := do
  let stakeInfo ← ask .getStakeInfo
  Async.modify (note fun r => { r with stakes := r.stakes ++ [stakeInfo] })
  Async.modify (modify (·.refreshed stakeInfo))

/-- `_queryLatestWorkerAddedEvent` and `_queryLatestRegistrationEvent` -/
def queryLatestEvent (name : EventName) : Handler ν (Option EventData) := do
  let events ← ask (.getPastEvents [name] 1)
  return getLatestEventData events

def init : Handler ν Unit := do
  let m ← Async.get
  Async.whenever (m.registrationManager.lastWorkerAddedTransaction = none) do
    let event ← awaiting .queryLatestEvent (queryLatestEvent .RelayWorkersAdded)
    Async.modify (modify fun r => { r with lastWorkerAddedTransaction := event })
  let m ← Async.get
  Async.whenever (m.registrationManager.lastMinedRegisterTransaction = none) do
    let event ← awaiting .queryLatestEvent (queryLatestEvent .RelayServerRegistered)
    Async.modify (modify fun r => { r with lastMinedRegisterTransaction := event })
  Async.modify (modify fun r => { r with isInitialized := true })

/-! ## Withdrawing the funds -/

/-- Note a transfer for the event that was last handled. -/
def notePayout (details : SendTransactionDetails) (r : Record) : Record :=
  match r.rounds.head?.bind (·.withdrawn.getLast?) with
  | some event => { r with payouts := r.payouts ++ [⟨event, details, r.stakes⟩] }
  | none => r

/-- `_sendManagerEthBalanceToOwner` and `_sendWorkersEthBalancesToOwner` -/
def sendBalanceToOwner (signer : Address) (currentBlock : Nat) : Handler ν (List Word) := do
  let gasPrice ← ask .getGasPrice
  let txCost := mintxgascost * gasPrice
  let balance ← ask (.getBalance signer false)
  -- what does not pay for a transfer stays
  if balance ≥ txCost then
    let m ← Async.get
    let details : SendTransactionDetails :=
      { signer := signer
        serverAction := .VALUE_TRANSFER
        method := none
        destination := m.registrationManager.ownerAddress
        value := some (balance - txCost : Nat)
        gasLimit := mintxgascost
        gasPrice := some gasPrice
        creationBlockNumber := currentBlock }
    Async.modify (note (notePayout details))
    let sent ← awaiting .sendTransaction (sendTransaction cfg details)
    return [sent.transactionHash]
  else return []

def sendManagerEthBalanceToOwner (currentBlock : Nat) : Handler ν (List Word) :=
  sendBalanceToOwner cfg cfg.managerAddress currentBlock

def sendWorkersEthBalancesToOwner (currentBlock : Nat) : Handler ν (List Word) :=
  sendBalanceToOwner cfg cfg.workerAddress currentBlock

/-- The event `unstaked` stops the worker: the http server listens to it. -/
def withdrawAllFunds (withdrawManager : Bool) (currentBlock : Nat) : Handler ν (List Word) := do
  let workers ← awaiting .sendBalanceToOwner (sendWorkersEthBalancesToOwner cfg currentBlock)
  let manager ← (if withdrawManager then
      awaiting .sendBalanceToOwner (sendManagerEthBalanceToOwner cfg currentBlock)
    else pure [])
  Async.modify fun m => { m with polling := false }
  return workers ++ manager

/-- `_handleStakeWithdrawnEvent` and `_handleStakeUnlockedEvent` -/
def handleStakeEvent (dlog : EventData) (withdrawManager : Bool) (currentBlock : Nat) :
    Handler ν (List Word) := do
  Async.modify (note (·.inRound fun r => { r with withdrawn := r.withdrawn ++ [dlog] }))
  awaiting .withdrawAllFunds (withdrawAllFunds cfg withdrawManager currentBlock)

def handleStakeWithdrawnEvent (dlog : EventData) (currentBlock : Nat) : Handler ν (List Word) :=
  handleStakeEvent cfg dlog true currentBlock

def handleStakeUnlockedEvent (dlog : EventData) (currentBlock : Nat) : Handler ν (List Word) :=
  handleStakeEvent cfg dlog false currentBlock

/-! ## Registering -/

def addRelayWorker (currentBlock : Nat) : Handler ν Word := do
  let addRelayWorkerMethod := CallData.addRelayWorkers [cfg.workerAddress]
  ask (.settled .getContractMethod)
  let gasLimit ← awaiting .attemptEstimateGas
    (attemptEstimateGas cfg addRelayWorkerMethod cfg.managerAddress)
  let details : SendTransactionDetails :=
    { signer := cfg.managerAddress
      serverAction := .ADD_WORKER
      method := some addRelayWorkerMethod
      destination := some cfg.relayHubAddress
      value := none
      gasLimit := gasLimit
      gasPrice := none
      creationBlockNumber := currentBlock }
  let sent ← awaiting .sendTransaction (sendTransaction cfg details)
  return sent.transactionHash

/-- The transaction that registers the server. -/
def registerRelay (currentBlock : Nat) : Handler ν Word := do
  let registerMethod := CallData.registerRelayServer cfg.registerUrl
  ask (.settled .getContractMethod)
  let gasLimit ← awaiting .attemptEstimateGas
    (attemptEstimateGas cfg registerMethod cfg.managerAddress)
  let details : SendTransactionDetails :=
    { signer := cfg.managerAddress
      serverAction := .REGISTER_SERVER
      method := some registerMethod
      destination := some cfg.relayHubAddress
      value := none
      gasLimit := gasLimit
      gasPrice := none
      creationBlockNumber := currentBlock }
  let sent ← awaiting .sendTransaction (sendTransaction cfg details)
  return sent.transactionHash

def attemptRegistration (currentBlock : Nat) : Handler ν (List Word) := do
  let m ← Async.get
  let r := m.registrationManager
  let allPrerequisitesOk := r.isStakeLocked && r.isStakeSatisfied cfg && r.isBalanceSatisfied cfg
  if !allPrerequisitesOk then
    return []
  let workersAdded := r.isWorkerValid cfg
  let addWorkersPending ← awaiting .isActionPending (isActionPending .ADD_WORKER none)
  let added ← (if !(workersAdded || addWorkersPending) then do
      let txHash ← awaiting .addRelayWorker (addRelayWorker cfg currentBlock)
      return [txHash]
    else pure [])
  let transactionHash ← registerRelay cfg currentBlock
  return added ++ [transactionHash]

/-! ## `handlePastEvents` -/

/-- Note that events have come to `handlePastEvents`. -/
def notePassed (events : List EventData) (m : Memory ν) : Memory ν :=
  note (·.inRound fun r => { r with passed := r.passed ++ events }) m

/-- Note that `handlePastEvents` is through. -/
def noteScanned (m : Memory ν) : Memory ν :=
  note (·.inRound fun r => { r with scanned := some (m.registrationManager.isRegistered cfg) }) m

/-- One turn of the loop over the events of the stake. -/
def handlePastEvent (currentBlock : Nat) (eventData : EventData) : Handler ν (List Word) := do
  match eventData.event with
  | .StakeAdded _ _ _ _ => do
      awaiting .refreshStake refreshStake
      return []
  | .StakeUnlocked _ _ withdrawBlock => do
      awaiting .refreshStake refreshStake
      Async.modify (modify (·.delay withdrawBlock eventData))
      return []
  | .StakeWithdrawn _ _ _ => do
      awaiting .refreshStake refreshStake
      awaiting .handleStakeEvent (handleStakeWithdrawnEvent cfg eventData currentBlock)
  | _ => return []

/-- One turn of the loop over the events that are due. -/
def handleDueEvent (currentBlock : Nat) (eventData : EventData) : Handler ν (List Word) :=
  match eventData.event with
  | .StakeUnlocked _ _ _ =>
      awaiting .handleStakeEvent (handleStakeUnlockedEvent cfg eventData currentBlock)
  | _ => return []

/-- A loop that collects transaction hashes. -/
def collect (f : EventData → Handler ν (List Word)) : List EventData → Handler ν (List Word)
  | [] => return []
  | eventData :: rest => do
      let transactionHashes ← f eventData
      let others ← collect f rest
      return transactionHashes ++ others

/-- The registration at the end of `handlePastEvents`. -/
def registerIfNeeded (currentBlock : Nat) (forceRegistration : Bool) : Handler ν (List Word) := do
  let isRegistrationCorrect ← awaiting .isRegistrationCorrect (do
    let m ← Async.get
    return m.registrationManager.isRegistrationCorrect cfg)
  let isRegistrationPending ← awaiting .isActionPending (isActionPending .REGISTER_SERVER none)
  -- `&&` binds before `||`: to force a registration is enough
  if !(isRegistrationPending || isRegistrationCorrect) || forceRegistration then
    awaiting .attemptRegistration (attemptRegistration cfg currentBlock)
  else return []

def handlePastEvents (hubEventsSinceLastScan : List EventData)
    (lastScannedBlock currentBlock : Nat) (forceRegistration : Bool) :
    Handler ν (List Word) := do
  let m ← Async.get
  Async.assert (m.registrationManager.isInitialized = true) "RegistrationManager not initialized"
  Async.modify (notePassed hubEventsSinceLastScan)
  let decodedEvents ← ask (.getPastEvents stakeEvents (lastScannedBlock + 1))
  Async.modify (notePassed decodedEvents)
  let withdrawn ← collect (handlePastEvent cfg currentBlock) decodedEvents
  Async.modify (modify fun r => hubEventsSinceLastScan.foldl noteHubEvent r)
  let m ← Async.get
  let dueEvents := m.registrationManager.duePendingEvents currentBlock
  -- taken out before they are handled
  Async.modify (modify (·.withoutDueEvents currentBlock))
  let unlocked ← collect (handleDueEvent cfg currentBlock) dueEvents
  let registered ← registerIfNeeded cfg currentBlock forceRegistration
  Async.modify (noteScanned cfg)
  return withdrawn ++ unlocked ++ registered

end RegistrationManager

end RifRelay.Server
