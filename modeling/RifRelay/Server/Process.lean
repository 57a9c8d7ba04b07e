import RifRelay.Server.RelayServer
import RifRelay.Tasks.Families

set_option autoImplicit false

/-! # The server as a process

`server cfg N` is the event loop of the server: its handlers, the database and the mutex as
they answer, and a node `N`. A handler is started by a request of a client, by the timer that
calls the worker, by the timeout of a round, or directly, as the transaction manager may be by
any part of the server. A restart leaves the database and loses the rest.
-/

namespace RifRelay.Server

open EventLoop

/-! ## Calls -/

inductive Call
  | createRelayTransaction (req : RelayTransactionRequest)
  | intervalHandler
  | readyTimeout (i : ℕ)
  | sendTransaction (d : SendTransactionDetails)
  | pollNonce (signer : Address)
  | resendTransaction (tx : StoredTransaction) (currentBlock : Nat) (newGasPrice : Doubles.Number)
  | boostUnderpricedPendingTransactionsForSigner (signer : Address) (currentBlockHeight : Nat)
  | replenishServer (currentBlock : Nat)
deriving DecidableEq

/-- What a handler resolves to. -/
inductive Reply
  | nothing
  | nonce (nonce : Option Nat)
  | sent (details : SignedTransactionDetails)
  | boosted (details : List (Word × SignedTransactionDetails))
  | hashes (transactionHashes : List Word)

abbrev Log : Type := List (EventLoop.Event Call Question Answer Reply)

abbrev State (ν : Type) : Type := Shared Call (Memory ν) Question Answer Reply

variable {ν : Type} (cfg : Config)

/-- The handler of a call, run by thread `i`. -/
def handler (i : ℕ) (c : Call) : Handler ν Reply :=
  match c with
  | .createRelayTransaction req => do
      let details ← RelayServer.createRelayTransaction cfg req
      return .sent details
  | .intervalHandler => do
      RelayServer.intervalHandler cfg i
      return .nothing
  | .readyTimeout _ => do
      RelayServer.readyTimeout
      return .nothing
  | .sendTransaction d => do
      let details ← TransactionManager.sendTransaction cfg d
      return .sent details
  | .pollNonce signer => do
      let nonce ← TransactionManager.polled signer
      return .nonce nonce
  | .resendTransaction tx currentBlock newGasPrice => do
      let details ← TransactionManager.resendTransaction cfg tx currentBlock newGasPrice
      return .sent details
  | .boostUnderpricedPendingTransactionsForSigner signer currentBlockHeight => do
      let details ← TransactionManager.boostUnderpricedPendingTransactionsForSigner cfg signer
        currentBlockHeight
      return .boosted details
  | .replenishServer currentBlock => do
      let transactionHashes ← RelayServer.replenishServer cfg currentBlock
      return .hashes transactionHashes

/-- The threads that have been called and have not ended, with their calls. -/
def running (log : Log) : List (ℕ × Call) :=
  log.foldl (fun threads e =>
    match e with
    | .called i c => (i, c) :: threads
    | .ended i _ => threads.filter (·.1 ≠ i)
    | .restarted => []
    | _ => threads) []

/-- The calls that have been made. -/
def calls (log : Log) : List Call :=
  log.filterMap fun e =>
    match e with
    | .called _ c => some c
    | _ => none

/-- The calls that may come: the worker is called as long as the process polls, and a round
times out once, while it is going on. -/
def mayCall (x : State ν) (c : Call) : Prop :=
  match c with
  | .intervalHandler => x.memory.polling = true
  | .readyTimeout i =>
      cfg.devMode = false ∧ (i, .intervalHandler) ∈ running x.log ∧
        .readyTimeout i ∉ calls x.log
  | _ => True

/-! ## The database -/

/-- The documents of `signer` with nonces up to `nonce`. -/
def NonceSigner.covers (key : NonceSigner) (tx : StoredTransaction) : Bool :=
  tx.from == key.signer && tx.nonce ≤ key.nonce

/-- A document has the id or the nonce of `tx`. -/
def clashes (tx doc : StoredTransaction) : Bool :=
  doc.txId == tx.txId || doc.nonceSigner == tx.nonceSigner

/-- What the database, the mutex and the promises answer. An operation of the database may
fail, and then it changes nothing. -/
def ownReply (m : Memory ν) : (q : Question) → Answer q → Bool
  | .acquire, _ => m.nonceMutex.isNone
  | .findOne key, doc => doc == m.txstore.find? (·.nonceSigner == key)
  | .find, docs => docs == m.txstore
  | .findBySigner signer, docs => docs == m.txstore.filter (·.from == signer)
  | .insert tx, _ => !m.txstore.any (clashes tx)
  | .update txId tx, _ => !(m.txstore.filter (·.txId != txId)).any (clashes tx)
  | .exit, _ => false
  | _, _ => true

/-- These questions are never answered by an error. -/
def cannotFail (q : Question) : Bool :=
  match q with
  | .acquire | .settled _ | .sleep | .exit => true
  | _ => false

/-- The questions that the node answers. -/
def forNode (q : Question) : Bool :=
  match q with
  | .acquire | .findOne _ | .find | .findBySigner _ | .insert _ | .update _ _ | .remove _
  | .sleep | .exit | .settled _ => false
  | _ => true

/-! ## The process -/

/-- A node: what it may answer, what becomes of it when it is given a transaction, and how it
may move by itself. -/
structure Node (ν ω : Type) where
  answers : Memory ν → (q : Question) → Answer q → Prop
  accept : ν → SignedTransaction → ν
  moves : State ν → ω → Option ν

variable {ω : Type} (N : Node ν ω)

/-- Write the node. -/
def Memory.setNode (m : Memory ν) (node : ν) : Memory ν := { m with node := node }

/-- The answers that the server may get. -/
def mayReply (m : Memory ν) (q : Question) (answer : Except String (Answer q)) : Prop :=
  match answer with
  | .ok a => ownReply m q a = true ∧ (forNode q = true → N.answers m q a)
  | .error _ => cannotFail q = false

/-- What an answer does. A transaction that the node was given may also reach it although the
answer was an error: that is a move of the node. -/
def effect (m : Memory ν) (i : ℕ) (q : Question) (answer : Except String (Answer q)) : Memory ν :=
  match q, answer with
  | .acquire, .ok _ => { m with nonceMutex := some i }
  | .insert tx, .ok _ => { m with txstore := m.txstore ++ [tx] }
  | .update txId tx, .ok _ =>
      { m with txstore := m.txstore.map fun doc => if doc.txId = txId then tx else doc }
  | .remove key, .ok _ => { m with txstore := m.txstore.filter fun doc => !key.covers doc }
  | .broadcastTransaction signedTx, .ok _ => m.setNode (N.accept m.node signedTx)
  | _, _ => m

def Record.empty : Record := ⟨[], [], [], [], [], []⟩

/-- A new process with the given database. The signatures that earlier ones have made remain. -/
def Memory.fresh (txstore : List StoredTransaction) (signatures : List Signature) (node : ν) :
    Memory ν where
  nonces addr := if addr = cfg.managerAddress ∨ addr = cfg.workerAddress then some 0 else none
  nonceMutex := none
  txstore := txstore
  lastScannedBlock := 0
  lastRefreshBlock := 0
  ready := false
  lastSuccessfulRounds := 2 ^ 53 - 1
  gasPrice := 0
  workerSemaphoreOn := none
  alerted := false
  alertedBlock := 0
  initialized := false
  polling := true
  exited := false
  trustedVerifiers := []
  workerBalance := 0
  lastMinedActiveTransaction := none
  registrationManager := .new
  record := { Record.empty with signatures := signatures }
  node := node

/-- What a restart leaves. -/
def Memory.restarted (m : Memory ν) : Memory ν :=
  .fresh cfg m.txstore m.record.signatures m.node

def server : System Call (Memory ν) Question Answer Reply ω where
  calls := mayCall cfg
  body := handler cfg
  replies x := mayReply N x.memory
  effect := effect N
  moves x w := (N.moves x w).map x.memory.setNode
  restart x := some (x.memory.restarted cfg)

/-! ## Deciding what may happen -/

instance (x : State ν) (c : Call) : Decidable (mayCall cfg x c) :=
  match c with
  | .intervalHandler => inferInstanceAs (Decidable (_ = true))
  | .readyTimeout _ => inferInstanceAs (Decidable (_ ∧ _ ∧ _))
  | .createRelayTransaction _ | .sendTransaction _ | .pollNonce _ | .resendTransaction _ _ _
  | .boostUnderpricedPendingTransactionsForSigner _ _ | .replenishServer _ => isTrue trivial

instance (x : State ν) (c : Call) : Decidable ((server cfg N).calls x c) :=
  inferInstanceAs (Decidable (mayCall cfg x c))

instance (x : State ν) (q : Question) (answer : Except String (Answer q))
    [∀ m q a, Decidable (N.answers m q a)] :
    Decidable ((server cfg N).replies x q answer) :=
  match answer with
  | .ok _ => inferInstanceAs (Decidable (_ ∧ (_ → _)))
  | .error _ => inferInstanceAs (Decidable (_ = _))

/-! ## A server with few settings -/

def plainConfig : Config where
  url := "http://localhost:8090"
  port := 0
  managerAddress := 0x11
  workerAddress := 0x22
  relayHubAddress := 0x33
  relayVerifierAddress := 0x44
  deployVerifierAddress := 0
  trustedVerifiers := []
  chainId := 33
  devMode := false
  customReplenish := false
  registrationBlockRate := 0
  alertedBlockDelay := 0
  workerMinBalance := 10
  workerTargetBalance := 30
  managerMinBalance := 10
  managerMinStake := 1
  managerTargetBalance := 30
  refreshStateTimeoutBlocks := 5
  pendingTransactionTimeoutBlocks := 30
  successfulRoundsForReady := 1
  confirmationsNeeded := 12
  maxGasPrice := 1000
  -- the number nearest to 1.2
  retryGasPriceFactor := 5404319552844595 / 4503599627370496
  arithmetic := .doubles
  defaultGasLimit := 500000
  hash tx := BitVec.ofNat 256 (tx.transaction.nonce + 1000 * tx.transaction.gasPrice)
  encodeABI _ := []
  stringify _ := ""
  encodeFraction
    | .finite gasPrice => .ok gasPrice.floor.toNat
    | .infinite _ => .ok 0
  factoredGasPrice gasPrice := gasPrice
  factoredGas gas := gas + gas / 5
  maxAgreedGas gas := gas + gas / 5

/-- A node that may answer anything. -/
def anyNode : Node Unit Unit where
  answers _ _ _ := True
  accept _ _ := ()
  moves _ _ := none

instance (m : Memory Unit) (q : Question) (a : Answer q) : Decidable (anyNode.answers m q a) :=
  isTrue trivial

end RifRelay.Server
