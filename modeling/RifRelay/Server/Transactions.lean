import RifRelay.Basic.Doubles
import RifRelay.Basic.Hex
import RifRelay.Contracts.RLPRoundTrip
import RifRelay.Contracts.World
import Mathlib.Algebra.Order.Ring.Rat

set_option autoImplicit false

/-! # Transactions of the relay server

What the server signs (`Transaction`), what it keeps of it (`StoredTransaction`), and the
settings of a server. A stored transaction has no value: `createStoredTransaction` copies the
other fields only.
-/

namespace RifRelay.Server

/-- A transaction before it is signed. One without a destination creates a contract. -/
structure Transaction where
  nonce : Nat
  gasPrice : Nat
  gasLimit : Nat
  «to» : Option Address
  value : Nat
  data : Bytes
deriving DecidableEq

/-- A transaction and the address whose key has signed it. -/
structure SignedTransaction where
  signer : Address
  transaction : Transaction
deriving DecidableEq

inductive ServerAction
  | REGISTER_SERVER
  | ADD_WORKER
  | RELAY_CALL
  | VALUE_TRANSFER
  | DEPOSIT_WITHDRAWAL
  | PENALIZATION
deriving DecidableEq

structure StoredTransactionMetadata where
  «from» : Address
  attempts : Nat
  serverAction : ServerAction
  creationBlockNumber : Nat
  boostBlockNumber : Option Nat
  minedBlockNumber : Option Nat
deriving DecidableEq

structure StoredTransactionSerialized where
  «to» : Option Address
  gas : Nat
  gasPrice : Nat
  data : Bytes
  nonce : Nat
  txId : Word
deriving DecidableEq

structure NonceSigner where
  nonce : Nat
  signer : Address
deriving DecidableEq

structure StoredTransaction extends StoredTransactionSerialized, StoredTransactionMetadata
deriving DecidableEq

/-- The field `nonceSigner` that `putTx` adds. -/
def StoredTransaction.nonceSigner (tx : StoredTransaction) : NonceSigner := ⟨tx.nonce, tx.from⟩

/-- The settings of a server, its keys, and what it computes with the libraries it uses: the
hash of a signed transaction, the ABI encoding of a call, `JSON.stringify`, what becomes of a
gas price that is no integer when a transaction is made of it, the rounded products of a gas
price with `gasPriceFactor` and of an amount of gas with `estimateGasFactor`, and `Math.ceil`
of the product of an amount of gas with `1 + MAX_ESTIMATED_GAS_DEVIATION`. The `arithmetic` of
its numbers is `doubles`; statements on exact rationals are about `exact`. -/
structure Config where
  url : String
  port : Nat
  managerAddress : Address
  workerAddress : Address
  relayHubAddress : Address
  relayVerifierAddress : Address
  deployVerifierAddress : Address
  trustedVerifiers : List Address
  chainId : Word
  devMode : Bool
  customReplenish : Bool
  registrationBlockRate : Nat
  alertedBlockDelay : Nat
  workerMinBalance : Nat
  workerTargetBalance : Nat
  managerMinBalance : Nat
  managerMinStake : Nat
  managerTargetBalance : Nat
  refreshStateTimeoutBlocks : Nat
  pendingTransactionTimeoutBlocks : Nat
  successfulRoundsForReady : Nat
  confirmationsNeeded : Nat
  maxGasPrice : Nat
  retryGasPriceFactor : ℚ
  arithmetic : Doubles.Arithmetic
  defaultGasLimit : Nat
  hash : SignedTransaction → Word
  encodeABI : CallData → Bytes
  stringify : StoredTransaction → String
  encodeFraction : Doubles.Number → Except String Nat
  factoredGasPrice : Nat → Nat
  factoredGas : Nat → Nat
  maxAgreedGas : Nat → Nat

/-- The smallest transaction cost of `defaultEnvironment`. -/
def mintxgascost : Nat := 21000

/-- `toHex` of a hash. -/
def hashText (h : Word) : String := String.ofList (Hex.text (wordBytes h))

def addressText (a : Address) : String := String.ofList (Hex.text (addressBytes a))

variable (cfg : Config)

/-- One of the key managers has the key of `signer`: each has the key of one address. -/
def Config.isSigner (signer : Address) : Prop :=
  signer = cfg.managerAddress ∨ signer = cfg.workerAddress

instance (signer : Address) : Decidable (cfg.isSigner signer) :=
  inferInstanceAs (Decidable (_ ∨ _))

def createStoredTransaction (tx : SignedTransaction) (metadata : StoredTransactionMetadata) :
    StoredTransaction where
  «to» := tx.transaction.to
  gas := tx.transaction.gasLimit
  gasPrice := tx.transaction.gasPrice
  data := tx.transaction.data
  nonce := tx.transaction.nonce
  txId := cfg.hash tx
  toStoredTransactionMetadata := metadata

/-- What the signature of a transaction with the destination `dest` is over. -/
def Transaction.unsigned (tx : Transaction) (dest : Address) : RLPReader.UnsignedTx :=
  ⟨⟨BitVec.ofNat 256 tx.nonce, BitVec.ofNat 256 tx.gasPrice, BitVec.ofNat 256 tx.gasLimit, dest,
    BitVec.ofNat 256 tx.value, tx.data⟩, some cfg.chainId⟩

/-- Two transactions agree in everything but the nonce and the gas price. -/
def Transaction.Agrees (t t' : Transaction) : Prop :=
  t.to = t'.to ∧ t.data = t'.data ∧ t.gasLimit = t'.gasLimit ∧ t.value = t'.value

instance (t t' : Transaction) : Decidable (t.Agrees t') :=
  inferInstanceAs (Decidable (_ ∧ _))

/-- The argument of `sendTransaction`. The owner that the server sends its funds to may be
unknown, so a destination may be missing. -/
structure SendTransactionDetails where
  signer : Address
  serverAction : ServerAction
  method : Option CallData
  destination : Option Address
  value : Option Int
  gasLimit : Nat
  gasPrice : Option Nat
  creationBlockNumber : Nat
deriving DecidableEq

structure SignedTransactionDetails where
  transactionHash : Word
  signedTx : SignedTransaction
deriving DecidableEq

end RifRelay.Server
