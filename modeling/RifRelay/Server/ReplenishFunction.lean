import RifRelay.Server.TransactionManager

set_option autoImplicit false

/-! # `ReplenishFunction` -/

namespace RifRelay.Server

open EventLoop TransactionManager TxStoreManager

variable {ν : Type} (cfg : Config)

namespace RelayServer

def getManagerBalance : Handler ν Nat := ask (.getBalance cfg.managerAddress true)

def getWorkerBalance : Handler ν Nat := ask (.getBalance cfg.workerAddress true)

/-- `workerBalanceRequired.isSatisfied` -/
def isWorkerBalanceSatisfied (m : Memory ν) : Bool := cfg.workerMinBalance ≤ m.workerBalance

end RelayServer

open RelayServer

/-- The transfer that refills the worker. -/
def refillDetails (refill : Int) (currentBlock : Nat) : SendTransactionDetails where
  signer := cfg.managerAddress
  serverAction := .VALUE_TRANSFER
  method := none
  destination := some cfg.workerAddress
  value := some refill
  gasLimit := mintxgascost
  gasPrice := none
  creationBlockNumber := currentBlock

def defaultReplenishFunction (currentBlock : Nat) : Handler ν (List Word) := do
  let managerEthBalance ← awaiting .getManagerBalance (getManagerBalance cfg)
  let workerBalance ← awaiting .getWorkerBalance (getWorkerBalance cfg)
  Async.modify fun m => { m with workerBalance := workerBalance }
  let m ← Async.get
  if managerEthBalance ≥ cfg.managerTargetBalance ∧ isWorkerBalanceSatisfied cfg m = true then
    return []
  let managerEthBalance ← awaiting .getManagerBalance (getManagerBalance cfg)
  let m ← Async.get
  let mustReplenishWorker := !isWorkerBalanceSatisfied cfg m
  let isReplenishPendingForWorker ← awaiting .isActionPending
    (isActionPending .VALUE_TRANSFER (some cfg.workerAddress))
  if mustReplenishWorker && !isReplenishPendingForWorker then
    let m ← Async.get
    let refill : Int := (cfg.workerTargetBalance : Int) - m.workerBalance
    -- the gas of the transfer is not counted
    if refill < (managerEthBalance : Int) - cfg.managerMinBalance then
      let sent ← awaiting .sendTransaction
        (sendTransaction cfg (refillDetails cfg refill currentBlock))
      return [sent.transactionHash]
    else return []
  else return []

def replenishStrategy (currentBlock : Nat) : Handler ν (List Word) :=
  if cfg.customReplenish then
    Async.throw ("No custom replenish function found, to remove this error please add the" ++
      " custom replenish implementation here deleting this line.")
  else awaiting .defaultReplenishFunction (defaultReplenishFunction cfg currentBlock)

namespace RelayServer

/-- The worker index is not used. -/
def replenishServer (currentBlock : Nat) : Handler ν (List Word) :=
  awaiting .replenishStrategy (replenishStrategy cfg currentBlock)

end RelayServer

end RifRelay.Server
