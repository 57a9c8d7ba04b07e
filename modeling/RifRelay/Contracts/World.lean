import RifRelay.Basic.Abi
import RifRelay.Basic.Ledger
import RifRelay.Contracts.RLPReader
import RifRelay.Machine.Rules
import Mathlib.Data.FinEnum

set_option autoImplicit false

/-! # The chain the contracts live on

Messages, accounts and the primitives the contracts use.

* A *message* (`Msg`) is a call frame: who sent it, in whose account it runs (`self`), whose
  code runs there (`codeAddress`, different from `self` only for a `delegatecall`), the coins
  it carries and its calldata, together with the transaction it belongs to. Calldata is
  kept decoded (`CallData`); raw bytes, such as the `data` of a relayed request, are
  decoded by `Env.abiDecode` when they are sent.
* The *world* holds the coin balances, the code of the accounts and the storage of the
  contracts of this repository. Everything else, the storage of tokens and destination
  contracts, is the opaque `ext`.
* `Env` is what the chain computes for the contracts: the hash, signature recovery, the
  chain id.

The contracts themselves are programs (`Sol`) over this world.
-/

namespace RifRelay

open CallMachine

/-! ## Requests -/

namespace IForwarder

structure ForwardRequest where
  relayHub : Address
  «from» : Address
  «to» : Address
  tokenContract : Address
  value : Word
  gas : Word
  nonce : Word
  tokenAmount : Word
  tokenGas : Word
  data : Bytes
deriving DecidableEq

/-- `to` is an optional logic contract; `recoverer` and `index` go into the address of the
new wallet. -/
structure DeployRequest where
  relayHub : Address
  «from» : Address
  «to» : Address
  tokenContract : Address
  recoverer : Address
  value : Word
  nonce : Word
  tokenAmount : Word
  tokenGas : Word
  index : Word
  data : Bytes
deriving DecidableEq

end IForwarder

namespace EnvelopingTypes

structure RelayData where
  gasPrice : Word
  domainSeparator : Word
  relayWorker : Address
  callForwarder : Address
  callVerifier : Address
deriving DecidableEq

structure RelayRequest where
  request : IForwarder.ForwardRequest
  relayData : RelayData
deriving DecidableEq

structure DeployRequest where
  request : IForwarder.DeployRequest
  relayData : RelayData
deriving DecidableEq

end EnvelopingTypes

/-! ## Messages -/

/-- Calldata, decoded: empty, a function of one of the contracts, or anything else. The
two wallets and the two factories give some functions different arguments, and with them
different selectors. -/
inductive CallData
  | empty
  | other (data : Bytes)
  | registerRelayServer (url : String)
  | disableRelayWorkers (relayWorkers : List Address)
  | addRelayWorkers (newRelayWorkers : List Address)
  | deployCall (deployRequest : EnvelopingTypes.DeployRequest) (signature : Bytes)
  | relayCall (relayRequest : EnvelopingTypes.RelayRequest) (signature : Bytes)
  | penalize (relayWorker beneficiary : Address)
  | stakeForAddress (relayManager : Address) (unstakeDelay : Word)
  | unlockStake (relayManager : Address)
  | withdrawStake (relayManager : Address)
  | isRelayManagerStaked (relayManager : Address)
  | penalizeRepeatedNonce (unsignedTx1 signature1 unsignedTx2 signature2 : Bytes)
      (hub : Address)
  | execute (domainSeparator suffixData : Word) (req : IForwarder.ForwardRequest)
      (sig : Bytes)
  | verify (domainSeparator suffixData : Word) (req : IForwarder.ForwardRequest)
      (sig : Bytes)
  | directExecute («to» : Address) (data : Bytes)
  | recover (owner factory swTemplate destinationContract : Address) (index : Word)
      (data : Bytes)
  | recoverCustom (owner factory swTemplate destinationContract logic : Address)
      (index initParamsHash : Word) (data : Bytes)
  | initializeWallet (owner tokenAddr tokenRecipient : Address) (tokenAmount tokenGas : Word)
  | initializeCustomWallet (owner logic tokenAddr tokenRecipient : Address)
      (tokenAmount tokenGas : Word) (initParams : Bytes)
  | initializeLogic (initParams : Bytes)
  | createUserSmartWallet (owner recoverer : Address) (index : Word) (sig : Bytes)
  | createCustomUserSmartWallet (owner recoverer logic : Address) (index : Word)
      (initParams sig : Bytes)
  | relayedUserSmartWalletCreation (req : IForwarder.DeployRequest)
      (domainSeparator suffixData : Word) (sig : Bytes)
  | transfer (recipient : Address) (amount : Word)
deriving DecidableEq

inductive CallKind
  | call
  | staticcall
  | delegatecall
deriving DecidableEq

/-- The transaction a message belongs to: `tx.origin`, `tx.gasprice`, `block.number`. -/
structure TxContext where
  origin : Address
  gasPrice : Word
  blockNumber : Word
deriving DecidableEq

structure Msg where
  kind : CallKind
  sender : Address
  self : Address
  codeAddress : Address
  value : Word
  data : CallData
  tx : TxContext
deriving DecidableEq

/-! ## Storage -/

structure StakeInfo where
  stake : Word
  unstakeDelay : Word
  withdrawBlock : Word
  owner : Address
deriving DecidableEq

/-- An entry that was never written or was deleted. -/
def StakeInfo.zero : StakeInfo := ⟨0, 0, 0, 0⟩

/-- The storage of a `RelayHub`. -/
structure RelayHub where
  minimumStake : Word
  minimumUnstakeDelay : Word
  minimumEntryDepositValue : Word
  maxWorkerCount : Word
  penalizer : Address
  workerToManager : Address → Word
  workerCount : Address → Word
  stakes : Address → StakeInfo

/-- The storage of a `Penalizer`. -/
structure Penalizer where
  penalizedTransactions : Word → Bool

/-- The storage of an account that runs wallet code: the nonce, the owner slot and the slot
of the custom logic. -/
structure Wallet where
  nonce : Word
  owner : Word
  logic : Word
deriving DecidableEq

def Wallet.zero : Wallet := ⟨0, 0, 0⟩

/-- The storage of a wallet factory. -/
structure Factory where
  masterCopy : Address
  nonces : Address → Word

/-! ## Accounts -/

/-- The code of an account. `proxy` is the runtime code both factories install; `other` is
any contract that is not part of this repository. -/
inductive Code
  | relayHub
  | penalizer
  | smartWallet
  | customSmartWallet
  | smartWalletFactory
  | customSmartWalletFactory
  | proxy (masterCopy : Address)
  | other
deriving DecidableEq

/-- A contract account: its code and the string its address is the hash of. -/
structure Contract where
  code : Code
  creation : Bytes
deriving DecidableEq

inductive Event
  | RelayServerRegistered (relayManager : Address) (relayUrl : String)
  | RelayWorkersAdded (relayManager : Address) (newRelayWorkers : List Address)
      (workersCount : Word)
  | RelayWorkersDisabled (relayManager : Address) (relayWorkers : List Address)
      (workersCount : Word)
  | TransactionRelayed (relayManager relayWorker : Address) (relayRequestSigHash : Word)
      (relayedCallReturnValue : Bytes)
  | TransactionRelayedButRevertedByRecipient (relayManager relayWorker : Address)
      (relayRequestSigHash : Word) (reason : Bytes)
  | StakeAdded (relayManager owner : Address) (stake unstakeDelay : Word)
  | StakeUnlocked (relayManager owner : Address) (withdrawBlock : Word)
  | StakeWithdrawn (relayManager owner : Address) (amount : Word)
  | StakePenalized (relayManager beneficiary : Address) (reward : Word)
  | Deployed (addr : Address) (salt : Word)
  | other (data : Bytes)
deriving DecidableEq

/-- The state of the chain. `forced` counts the coins that reached an account without its
code running. -/
structure World (χ : Type) where
  balance : Address → Nat
  forced : Address → Nat
  code : Address → Option Contract
  hubs : Address → RelayHub
  penalizers : Address → Penalizer
  wallets : Address → Wallet
  factories : Address → Factory
  logs : List (Address × Event)
  ext : χ

/-- All coins there are. -/
def World.supply {χ : Type} (w : World χ) : Nat := ∑ a, w.balance a

/-- A new contract without storage. -/
def World.install {χ : Type} (w : World χ) (addr : Address) (contract : Contract) : World χ :=
  { w with
    code := Function.update w.code addr (some contract)
    wallets := Function.update w.wallets addr Wallet.zero }

/-- What the chain computes for the contracts. `recover` is `ECDSA.recover`, an error where
it reverts. `stored` says where in memory an argument is kept and what surrounds it.
`codeless` marks the addresses at which no contract can come to exist: those of key pairs,
and the zero address. -/
structure Env where
  keccak256 : Bytes → Word
  recover : Word → Bytes → Except String Address
  chainId : Word
  abiDecode : Bytes → CallData
  stored : (raw : Bytes) → RLPReader.Stored raw
  codeless : Address → Bool
  codeless_zero : codeless 0 = true

/-- The address of a contract created from `creation`. -/
def Env.createdAddress (E : Env) (creation : Bytes) : Address := wordAddress (E.keccak256 creation)

/-- Nothing stands at `addr`, and a contract may come to stand there. -/
def World.Vacant {χ : Type} (E : Env) (w : World χ) (addr : Address) : Prop :=
  w.code addr = none ∧ E.codeless addr = false

instance {χ : Type} (E : Env) (w : World χ) (addr : Address) : Decidable (w.Vacant E addr) :=
  inferInstanceAs (Decidable (_ ∧ _))

/-! ## Programs -/

/-- Why a frame failed. -/
inductive Revert
  | error (reason : String)
  | data (ret : Bytes)
  | halt
deriving DecidableEq

/-- The revert data a caller sees. -/
def Revert.toBytes : Revert → Bytes
  | .error reason => Abi.encodeError reason
  | .data ret => ret
  | .halt => []

/-- Contract code. -/
abbrev Sol (χ α : Type) : Type := Prog (World χ) Msg Revert Bytes α

section Primitives

variable {χ : Type}

/-- `require(p, reason)`. -/
def require (p : Prop) [Decidable p] (reason : String) : Sol χ Unit :=
  Prog.assert p (.error reason)

/-- The check the compiler puts in front of a function that is not `payable`. -/
def nonPayable (msg : Msg) : Sol χ Unit := Prog.assert (msg.value = 0) (.data [])

/-- `if (p) { body }`. -/
def whenever (p : Prop) [Decidable p] (body : Sol χ Unit) : Sol χ Unit :=
  if p then body else .ret ()

/-- `emit e` in the account `self`. -/
def emit (self : Address) (e : Event) : Sol χ Unit :=
  Prog.modify fun w => { w with logs := w.logs ++ [(self, e)] }

/-- A value that has to be there, or the frame fails without a reason. -/
def orRevert {α : Type} : Option α → Sol χ α
  | some a => .ret a
  | none => .revert (.data [])

/-- `digest.recover(sig)`. -/
def recoverSigner (E : Env) (digest : Word) (sig : Bytes) : Sol χ Address :=
  match E.recover digest sig with
  | .ok signer => .ret signer
  | .error reason => .revert (.error reason)

/-- A call from the running frame. -/
def Msg.callTo (msg : Msg) (dest : Address) (value : Word) (data : CallData) : Msg :=
  ⟨.call, msg.self, dest, dest, value, data, msg.tx⟩

/-- A static call from the running frame. -/
def Msg.staticcallTo (msg : Msg) (dest : Address) (data : CallData) : Msg :=
  ⟨.staticcall, msg.self, dest, dest, 0, data, msg.tx⟩

/-- A delegate call of the running frame: the same account, sender and value, other code. -/
def Msg.delegatecallTo (msg : Msg) (codeAddress : Address) (data : CallData) : Msg :=
  ⟨.delegatecall, msg.sender, msg.self, codeAddress, msg.value, data, msg.tx⟩

/-- The pair `(bool success, bytes memory ret)` of a low-level call. -/
def callResult : Except Revert Bytes → Bool × Bytes
  | .ok ret => (true, ret)
  | .error e => (false, e.toBytes)

/-- `dest.call{gas: limit, value: value}(data)`. -/
def lowLevelCall (msg : Msg) (limit : Option Nat) (dest : Address) (value : Word)
    (data : CallData) : Sol χ (Bool × Bytes) :=
  (Prog.send limit (msg.callTo dest value data)).bind fun r => .ret (callResult r)

/-- `codeAddress.delegatecall(data)`. -/
def lowLevelDelegatecall (msg : Msg) (codeAddress : Address) (data : CallData) :
    Sol χ (Bool × Bytes) :=
  (Prog.send none (msg.delegatecallTo codeAddress data)).bind fun r => .ret (callResult r)

/-- Hand a failure on to the caller. -/
def bubble : Except Revert Bytes → Sol χ Bytes
  | .ok ret => .ret ret
  | .error e => .revert (.data e.toBytes)

/-- `dest.transfer(amount)`: a call with nothing but the 2300 gas of the stipend, which for
no coins at all is given explicitly. -/
def transferTo (msg : Msg) (dest : Address) (amount : Word) : Sol χ Unit :=
  (Prog.send (some (if amount = 0 then 2300 else 0)) (msg.callTo dest amount .empty)).bind
    fun r => (bubble r).bind fun _ => .ret ()

/-- `address(this).balance`. -/
def selfBalance (msg : Msg) : Sol χ Word :=
  Prog.get.bind fun w => .ret (BitVec.ofNat 256 (w.balance msg.self))

end Primitives

end RifRelay
