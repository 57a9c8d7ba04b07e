import RifRelay.Contracts.Eip712Library

set_option autoImplicit false

/-! # `RelayHub`

The functions of the hub in the order of the source. The entry of a worker in
`workerToManager` packs the manager and the enabled flag in one word: the manager is
shifted left by four bits and the last nibble is `1` while the worker is enabled.

A failed `require` fails the frame, and a failed frame is rolled back as a whole, so a
write that precedes a failing check (the worker counts are written first) has no effect.
-/

namespace RifRelay

open CallMachine

namespace RelayHub

open EnvelopingTypes

/-- The storage left by the constructor; `none` where it reverts. -/
def construct (_penalizer : Address)
    (_maxWorkerCount _minimumEntryDepositValue _minimumUnstakeDelay _minimumStake : Word) :
    Option RelayHub :=
  if 0 < _maxWorkerCount ∧ 0 < _minimumStake ∧ 0 < _minimumEntryDepositValue ∧
      0 < _minimumUnstakeDelay then
    some
      { minimumStake := _minimumStake
        minimumUnstakeDelay := _minimumUnstakeDelay
        minimumEntryDepositValue := _minimumEntryDepositValue
        maxWorkerCount := _maxWorkerCount
        penalizer := _penalizer
        workerToManager := fun _ => 0
        workerCount := fun _ => 0
        stakes := fun _ => StakeInfo.zero }
  else none

/-! ## Entries of workers -/

/-- `bytes32(uint256(manager) << 4) | 0x1`. -/
def enabledWorker (manager : Address) : Word := (addressWord manager <<< 4) ||| 1

/-- `bytes32(uint256(manager) << 4)`. -/
def disabledWorker (manager : Address) : Word := addressWord manager <<< 4

/-- `managerEntry & 0x1 == 0x1`. -/
def isWorkerEnabled (managerEntry : Word) : Bool := managerEntry &&& 1 == 1

/-- `address(uint160(uint256(managerEntry >> 4)))`. -/
def entryManager (managerEntry : Word) : Address := wordAddress (managerEntry >>> 4)

/-! ## Stakes -/

/-- What `requireManagerStaked` requires. -/
def isRelayManagerStaked (hub : RelayHub) (relayManager : Address) : Bool :=
  let info := hub.stakes relayManager
  hub.minimumStake ≤ info.stake && hub.minimumUnstakeDelay ≤ info.unstakeDelay &&
    info.withdrawBlock == 0

def setStake (hub : RelayHub) (relayManager : Address) (info : StakeInfo) : RelayHub :=
  { hub with stakes := Function.update hub.stakes relayManager info }

def setWorker (hub : RelayHub) (relayWorker : Address) (entry : Word) : RelayHub :=
  { hub with workerToManager := Function.update hub.workerToManager relayWorker entry }

def setWorkerCount (hub : RelayHub) (relayManager : Address) (count : Word) : RelayHub :=
  { hub with workerCount := Function.update hub.workerCount relayManager count }

/-! ## Functions -/

section Functions

variable {χ : Type}

/-- The storage of the running hub. -/
def storage (msg : Msg) : Sol χ RelayHub := Prog.get.bind fun w => .ret (w.hubs msg.self)

/-- Write to the storage of the running hub. -/
def modifyStorage (msg : Msg) (f : RelayHub → RelayHub) : Sol χ Unit :=
  Prog.modify fun w =>
    { w with hubs := Function.update w.hubs msg.self (f (w.hubs msg.self)) }

def requireManagerStaked (msg : Msg) (relayManager : Address) : Sol χ Unit := do
  let hub ← storage msg
  require (hub.isRelayManagerStaked relayManager) "RelayManager not staked"

def registerRelayServer (msg : Msg) (url : String) : Sol χ Unit := do
  requireManagerStaked msg msg.sender
  let hub ← storage msg
  require (0 < hub.workerCount msg.sender) "no relay workers"
  emit msg.self (.RelayServerRegistered msg.sender url)

/-- The loop of `disableRelayWorkers`. -/
def disableWorkers (msg : Msg) : List Address → Sol χ Unit
  | [] => return ()
  | relayWorker :: rest => do
      let hub ← storage msg
      require (hub.workerToManager relayWorker = enabledWorker msg.sender) "Incorrect Manager"
      modifyStorage msg (·.setWorker relayWorker (disabledWorker msg.sender))
      disableWorkers msg rest

def disableRelayWorkers (msg : Msg) (relayWorkers : List Address) : Sol χ Unit := do
  let hub ← storage msg
  let actualWorkerCount := hub.workerCount msg.sender
  require (BitVec.ofNat 256 relayWorkers.length ≤ actualWorkerCount)
    "invalid quantity of workers"
  modifyStorage msg
    (·.setWorkerCount msg.sender (actualWorkerCount - BitVec.ofNat 256 relayWorkers.length))
  -- the entries are written after the count and after this check
  requireManagerStaked msg msg.sender
  disableWorkers msg relayWorkers
  let hub ← storage msg
  emit msg.self (.RelayWorkersDisabled msg.sender relayWorkers (hub.workerCount msg.sender))

/-- The loop of `addRelayWorkers`. -/
def addWorkers (msg : Msg) : List Address → Sol χ Unit
  | [] => return ()
  | newRelayWorker :: rest => do
      let hub ← storage msg
      require (hub.workerToManager newRelayWorker = 0) "this worker has a manager"
      modifyStorage msg (·.setWorker newRelayWorker (enabledWorker msg.sender))
      addWorkers msg rest

def addRelayWorkers (msg : Msg) (newRelayWorkers : List Address) : Sol χ Unit := do
  let hub ← storage msg
  modifyStorage msg (·.setWorkerCount msg.sender
    (hub.workerCount msg.sender + BitVec.ofNat 256 newRelayWorkers.length))
  let hub ← storage msg
  require (hub.workerCount msg.sender ≤ hub.maxWorkerCount) "too many workers"
  requireManagerStaked msg msg.sender
  addWorkers msg newRelayWorkers
  let hub ← storage msg
  emit msg.self (.RelayWorkersAdded msg.sender newRelayWorkers (hub.workerCount msg.sender))

def deployCall (E : Env) (msg : Msg) (deployRequest : DeployRequest) (signature : Bytes) :
    Sol χ Unit := do
  let hub ← storage msg
  let managerEntry := hub.workerToManager msg.sender
  require (isWorkerEnabled managerEntry) "Not an enabled worker"
  let manager := entryManager managerEntry
  require (msg.sender = msg.tx.origin) "RelayWorker cannot be a contract"
  require (msg.sender = deployRequest.relayData.relayWorker) "Not a right worker"
  requireManagerStaked msg manager
  require (deployRequest.relayData.gasPrice ≤ msg.tx.gasPrice) "Invalid gas price"
  let (deploySuccess, ret) ← Eip712Library.deploy E msg deployRequest signature
  -- the error of the factory is handed on
  if deploySuccess then return () else .revert (.data ret)

def relayCall (E : Env) (msg : Msg) (relayRequest : RelayRequest) (signature : Bytes) :
    Sol χ Bool := do
  require (msg.sender = msg.tx.origin) "RelayWorker cannot be a contract"
  require (msg.sender = relayRequest.relayData.relayWorker) "Not a right worker"
  require (relayRequest.relayData.gasPrice ≤ msg.tx.gasPrice) "Invalid gas price"
  let hub ← storage msg
  let managerEntry := hub.workerToManager msg.sender
  require (isWorkerEnabled managerEntry) "Not an enabled worker"
  let manager := entryManager managerEntry
  requireManagerStaked msg manager
  let (forwarderSuccess, destinationCallSuccess, relayedCallReturnValue) ←
    Eip712Library.execute E msg relayRequest signature
  if forwarderSuccess then
    -- a destination that fails does not fail the relaying
    if destinationCallSuccess then
      emit msg.self (.TransactionRelayed manager msg.sender (E.keccak256 signature)
        relayedCallReturnValue)
      return destinationCallSuccess
    else
      emit msg.self (.TransactionRelayedButRevertedByRecipient manager msg.sender
        (E.keccak256 signature) relayedCallReturnValue)
      return destinationCallSuccess
  else .revert (.data relayedCallReturnValue)

/-- The amounts burned and given to the beneficiary when `amount` is slashed. -/
def penalty (amount : Word) : Word × Word :=
  let toBurn := amount / 2
  (toBurn, amount - toBurn)

def penalize (msg : Msg) (relayWorker beneficiary : Address) : Sol χ Unit := do
  let hub ← storage msg
  require (msg.sender = hub.penalizer) "Not penalizer"
  let relayManager := entryManager (hub.workerToManager relayWorker)
  require (relayManager ≠ 0) "Unknown relay worker"
  let stakeInfo := hub.stakes relayManager
  let amount := stakeInfo.stake
  require (0 < amount) "Unstaked relay manager"
  modifyStorage msg (·.setStake relayManager { stakeInfo with stake := 0 })
  let (toBurn, reward) := penalty amount
  -- burned
  transferTo msg 0 toBurn
  transferTo msg beneficiary reward
  emit msg.self (.StakePenalized relayManager beneficiary reward)

def stakeForAddress (msg : Msg) (relayManager : Address) (unstakeDelay : Word) :
    Sol χ Unit := do
  let hub ← storage msg
  let stakeInfo := hub.stakes relayManager
  require (stakeInfo.owner = 0 ∨ stakeInfo.owner = msg.sender) "not owner"
  require (stakeInfo.unstakeDelay ≤ unstakeDelay) "unstakeDelay cannot be decreased"
  require (msg.sender ≠ relayManager) "caller is the relayManager"
  require ((hub.stakes msg.sender).owner = 0) "sender is a relayManager itself"
  whenever (stakeInfo.owner = 0)
    (require (hub.minimumEntryDepositValue ≤ msg.value) "Insufficient intitial stake")
  let stakeInfo := { stakeInfo with
    owner := msg.sender, stake := stakeInfo.stake + msg.value, unstakeDelay := unstakeDelay }
  modifyStorage msg (·.setStake relayManager stakeInfo)
  emit msg.self (.StakeAdded relayManager stakeInfo.owner stakeInfo.stake stakeInfo.unstakeDelay)

/-- `block.number.add(info.unstakeDelay)` of SafeMath: an overflow reverts. -/
def safeAdd (a b : Word) : Sol χ Word :=
  if a ≤ a + b then return a + b else .revert (.error "SafeMath: addition overflow")

def unlockStake (msg : Msg) (relayManager : Address) : Sol χ Unit := do
  let hub ← storage msg
  let info := hub.stakes relayManager
  require (info.owner = msg.sender) "not owner"
  require (info.withdrawBlock = 0) "already pending"
  let withdrawBlock ← safeAdd msg.tx.blockNumber info.unstakeDelay
  modifyStorage msg (·.setStake relayManager { info with withdrawBlock := withdrawBlock })
  emit msg.self (.StakeUnlocked relayManager msg.sender withdrawBlock)

def withdrawStake (msg : Msg) (relayManager : Address) : Sol χ Unit := do
  let hub ← storage msg
  let info := hub.stakes relayManager
  require (info.owner = msg.sender) "not owner"
  require (0 < info.withdrawBlock) "Withdrawal is not scheduled"
  require (info.withdrawBlock ≤ msg.tx.blockNumber) "Withdrawal is not due"
  let amount := info.stake
  -- cleared before the transfer, so that a call back finds no stake
  modifyStorage msg (·.setStake relayManager StakeInfo.zero)
  transferTo msg msg.sender amount
  emit msg.self (.StakeWithdrawn relayManager msg.sender amount)

/-- The function the calldata selects. Only `stakeForAddress` is payable. -/
def code (E : Env) (msg : Msg) : Sol χ Bytes :=
  match msg.data with
  | .registerRelayServer url => do
      nonPayable msg
      registerRelayServer msg url
      return []
  | .disableRelayWorkers relayWorkers => do
      nonPayable msg
      disableRelayWorkers msg relayWorkers
      return []
  | .addRelayWorkers newRelayWorkers => do
      nonPayable msg
      addRelayWorkers msg newRelayWorkers
      return []
  | .deployCall deployRequest signature => do
      nonPayable msg
      deployCall E msg deployRequest signature
      return []
  | .relayCall relayRequest signature => do
      nonPayable msg
      let destinationCallSuccess ← relayCall E msg relayRequest signature
      return Abi.encodeBool destinationCallSuccess
  | .penalize relayWorker beneficiary => do
      nonPayable msg
      penalize msg relayWorker beneficiary
      return []
  | .stakeForAddress relayManager unstakeDelay => do
      stakeForAddress msg relayManager unstakeDelay
      return []
  | .unlockStake relayManager => do
      nonPayable msg
      unlockStake msg relayManager
      return []
  | .withdrawStake relayManager => do
      nonPayable msg
      withdrawStake msg relayManager
      return []
  | .isRelayManagerStaked relayManager => do
      nonPayable msg
      let hub ← storage msg
      return Abi.encodeBool (hub.isRelayManagerStaked relayManager)
  | _ => .revert (.data [])

end Functions

end RelayHub

end RifRelay
