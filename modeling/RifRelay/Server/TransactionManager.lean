import RifRelay.Server.Store

set_option autoImplicit false

/-! # `TransactionManager`

The handlers that sign and broadcast: `sendTransaction` assigns nonces under a mutex,
`resendTransaction` signs a stored transaction again with another gas price.
-/

namespace RifRelay.Server

open EventLoop

namespace TransactionManager

open TxStoreManager

variable {ν : Type} (cfg : Config)

/-- `this.nonces[signer] = nonce` -/
def setNonce (signer : Address) (nonce : Nat) (m : Memory ν) : Memory ν :=
  { m with nonces := Function.update m.nonces signer (some nonce) }

/-- `this.nonces[signer]++` -/
def countNonce (signer : Address) (m : Memory ν) : Memory ν :=
  { m with nonces := Function.update m.nonces signer ((m.nonces signer).map (· + 1)) }

/-- The counter after the node has answered with `nonce`. -/
def liftNonce (signer : Address) (nonce : Nat) (m : Memory ν) : Memory ν :=
  match m.nonces signer with
  | some own => if nonce > own then setNonce signer nonce m else m
  | none => m

def pollNonce (signer : Address) : Handler ν (Option Nat) := do
  let nonce ← ask (.getTransactionCount signer)
  Async.modify (liftNonce signer nonce)
  let m ← Async.get
  return m.nonces signer

/-- The gas of a method, or the default where the estimate fails. -/
def attemptEstimateGas (method : CallData) («from» : Address) : Handler ν Nat :=
  Async.recover
    (do
      let estimateGas ← ask (.estimateMethodGas method «from»)
      return cfg.factoredGas estimateGas)
    fun _ => return cfg.defaultGasLimit

/-- Wait for `pollNonce`. -/
def polled (signer : Address) : Handler ν (Option Nat) :=
  (pollNonce signer).call fun result => .settled (.pollNonce signer result)

/-- The value of a new transaction: a negative number has no encoding. -/
def encodeValue (value : Int) : Handler ν Nat :=
  match value with
  | .ofNat n => return n
  | .negSucc n =>
      Async.throw
        ("Cannot convert string to buffer. toBuffer only supports 0x-prefixed hex strings" ++
        " and this string was given: -0x" ++ String.ofList (Nat.toDigits 16 (n + 1)))

/-- `signTransaction` of the key manager that has the key of `signer`. -/
def signTransaction (signer : Address) (txToSign : Transaction) (resent : Bool) :
    Handler ν SignedTransaction := do
  Async.assert (cfg.isSigner signer)
    ("Can't sign: signer=" ++ addressText signer ++ " is not managed")
  Async.modify (note fun r =>
    { r with signatures := r.signatures ++ [⟨resent, ⟨signer, txToSign⟩⟩] })
  return ⟨signer, txToSign⟩

def encodedCall (method : Option CallData) : Bytes :=
  match method with
  | some m => cfg.encodeABI m
  | none => []

/-- The node returns the hash of the transaction it was given. -/
def broadcast (signedTx : SignedTransaction) (storedTx : StoredTransaction) :
    Handler ν SignedTransactionDetails := do
  let transactionHash ← ask (.broadcastTransaction signedTx)
  Async.assert (transactionHash = storedTx.txId)
    ("txhash mismatch: from receipt: " ++ hashText transactionHash ++ " from txstore:" ++
      hashText storedTx.txId)
  return ⟨transactionHash, signedTx⟩

def releaseMutex (m : Memory ν) : Memory ν := { m with nonceMutex := none }

/-- What `sendTransaction` does while it holds the mutex. -/
def assignNonce (d : SendTransactionDetails) (gasPrice : Nat) :
    Handler ν (SignedTransaction × StoredTransaction) := do
  let nonce ← polled d.signer
  let value ← encodeValue (d.value.getD 0)
  let txToSign : Transaction :=
    ⟨nonce.getD 0, gasPrice, d.gasLimit, d.destination, value, encodedCall cfg d.method⟩
  let signedTx ← signTransaction cfg d.signer txToSign false
  let storedTx := createStoredTransaction cfg signedTx
    ⟨d.signer, 1, d.serverAction, d.creationBlockNumber, none, none⟩
  -- counted before the document is stored, and not taken back if that fails
  Async.modify (countNonce d.signer)
  awaiting .putTx (putTx cfg storedTx false)
  return (signedTx, storedTx)

/-- The gas price of a new transaction: the node is asked where none is given. -/
def chooseGasPrice (d : SendTransactionDetails) : Handler ν Nat :=
  match d.gasPrice with
  | some gasPrice => return gasPrice
  | none => ask .getGasPrice

def sendTransaction (d : SendTransactionDetails) : Handler ν SignedTransactionDetails := do
  let gasPrice ← chooseGasPrice d
  ask .acquire
  let (signedTx, storedTx) ← (assignNonce cfg d gasPrice).ensuring releaseMutex
  broadcast signedTx storedTx

def updateTransactionWithMinedBlock (tx : StoredTransaction) (minedBlockNumber : Nat) :
    Handler ν Unit :=
  awaiting .putTx (putTx cfg { tx with minedBlockNumber := some minedBlockNumber } true)

def updateTransactionWithAttempt (txToSign : SignedTransaction) (tx : StoredTransaction)
    (currentBlock : Nat) : Handler ν StoredTransaction := do
  let storedTx := createStoredTransaction cfg txToSign
    ⟨tx.from, tx.attempts + 1, tx.serverAction, tx.creationBlockNumber, some currentBlock,
      tx.minedBlockNumber⟩
  awaiting .putTx (putTx cfg storedTx true)
  return storedTx

/-- The transaction that is signed again: it is given no value. -/
def repriced (tx : StoredTransaction) (newGasPrice : Nat) : Transaction :=
  ⟨tx.nonce, newGasPrice, tx.gas, tx.to, 0, tx.data⟩

/-- The gas price of a transaction that is made with the number `gasPrice`. -/
def encodeGasPrice (gasPrice : Doubles.Number) : Except String Nat :=
  match gasPrice with
  | .finite q => if q.den = 1 then .ok q.num.toNat else cfg.encodeFraction (.finite q)
  | .infinite negative => cfg.encodeFraction (.infinite negative)

def resendTransaction (tx : StoredTransaction) (currentBlock : Nat)
    (newGasPrice : Doubles.Number) : Handler ν SignedTransactionDetails := do
  let gasPrice ← Async.done (encodeGasPrice cfg newGasPrice)
  let signedTx ← signTransaction cfg tx.from (repriced tx gasPrice) true
  let storedTx ← awaiting .updateTransactionWithAttempt
    (updateTransactionWithAttempt cfg signedTx tx currentBlock)
  -- for a log line
  let _currentNonce ← ask (.getTransactionCount tx.from)
  broadcast signedTx storedTx

/-- `_resolveNewGasPrice`: the new gas price, capped. It need not be an integer. -/
def resolveNewGasPrice (oldGasPrice : Nat) : Doubles.Number :=
  let newGasPrice := cfg.arithmetic.round (oldGasPrice * cfg.retryGasPriceFactor)
  if newGasPrice > .finite cfg.maxGasPrice then .finite cfg.maxGasPrice else newGasPrice

/-- One turn of the loop of `removeConfirmedTransactions`. -/
def removeIfConfirmed (blockNumber : Nat) (tx : StoredTransaction) : Handler ν Unit :=
  let shouldRecheck := tx.minedBlockNumber.all fun mined =>
    (blockNumber : Int) - mined ≥ cfg.confirmationsNeeded
  if shouldRecheck then do
    let receipt ← ask (.getTransaction tx.txId)
    match receipt with
    | none => return
    | some receipt =>
        match receipt.blockNumber with
        | none => return
        | some minedBlock =>
            -- newly mined, with too few confirmations
            if some minedBlock ≠ tx.minedBlockNumber ∧
                (blockNumber : Int) - minedBlock < cfg.confirmationsNeeded then
              awaiting .updateTransactionWithMinedBlock
                (updateTransactionWithMinedBlock cfg tx minedBlock)
            else
              awaiting .removeTxsUntilNonce (removeTxsUntilNonce receipt.from receipt.nonce)
  else return

def removeConfirmedTransactions (blockNumber : Nat) : Handler ν Unit := do
  let sortedTxs ← awaiting .getAll getAll
  Async.each (removeIfConfirmed cfg blockNumber) sortedTxs

/-- The loop of `boostUnderpricedPendingTransactionsForSigner`. -/
def resendAll (currentBlockHeight : Nat) (newGasPrice : Doubles.Number) :
    List StoredTransaction → Handler ν (List (Word × SignedTransactionDetails))
  | [] => return []
  | tx :: rest => do
      let details ← awaiting .resendTransaction
        (resendTransaction cfg tx currentBlockHeight newGasPrice)
      let boosted ← resendAll currentBlockHeight newGasPrice rest
      return (tx.txId, details) :: boosted

/-- The boosted transactions, with the ids they had before. -/
def boostUnderpricedPendingTransactionsForSigner (signer : Address) (currentBlockHeight : Nat) :
    Handler ν (List (Word × SignedTransactionDetails)) := do
  let sortedTxs ← awaiting .getAllBySigner (getAllBySigner signer)
  match sortedTxs with
  | [] => return []
  | oldestPendingTx :: _ => do
      let nonce ← ask (.getTransactionCount signer)
      -- mined already, so the node does not count it as pending
      if oldestPendingTx.nonce < nonce then
        return []
      let lastSentAtBlockHeight :=
        oldestPendingTx.boostBlockNumber.getD oldestPendingTx.creationBlockNumber
      if (currentBlockHeight : Int) - lastSentAtBlockHeight <
          cfg.pendingTransactionTimeoutBlocks then
        return []
      let newGasPrice := resolveNewGasPrice cfg oldestPendingTx.gasPrice
      -- one price for all, that of the oldest one
      let underpricedTransactions := sortedTxs.filter fun tx => .finite tx.gasPrice < newGasPrice
      resendAll cfg currentBlockHeight newGasPrice underpricedTransactions

end TransactionManager

end RifRelay.Server
