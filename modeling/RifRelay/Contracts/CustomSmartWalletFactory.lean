import RifRelay.Contracts.SmartWalletFactory
import RifRelay.Contracts.CustomSmartWallet

set_option autoImplicit false

/-! # `CustomSmartWalletFactory`

As `SmartWalletFactory`, for wallets with a custom logic: the logic and the parameters it
is initialised with go into what is signed and into the address. In a deploy request the
logic is `to` and its parameters are `data`.
-/

namespace RifRelay

open CallMachine

namespace CustomSmartWalletFactory

open Factory IForwarder

section Functions

variable {χ : Type}

/-- The string an owner signs for `createUserSmartWallet`. -/
def creationString (owner recoverer logic : Address) (index : Word) (initParams : Bytes) :
    Bytes :=
  0x19 :: 0x10 :: (addressBytes owner ++ (addressBytes recoverer ++ (addressBytes logic ++
    (wordBytes index ++ initParams))))

def createUserSmartWallet (E : Env) (msg : Msg) (owner recoverer logic : Address)
    (index : Word) (initParams sig : Bytes) : Sol χ Unit := do
  let signer ← recoverSigner E
    (E.keccak256 (creationString owner recoverer logic index initParams)) sig
  require (RSKAddrValidator.safeEquals signer owner) "Invalid signature"
  let initData := CallData.initializeCustomWallet owner logic 0 0 0 0 initParams
  let _ ← deploy E msg
    (CustomSmartWallet.salt E owner recoverer logic (E.keccak256 initParams) index) initData
  return ()

def relayedUserSmartWalletCreation (E : Env) (msg : Msg) (req : DeployRequest)
    (domainSeparator suffixData : Word) (sig : Bytes) : Sol χ Unit := do
  require (msg.sender = req.relayHub) "Invalid caller"
  verifySig E msg req domainSeparator suffixData sig
  modifyStorage msg fun factory => factory.setNonce req.from (factory.nonces req.from + 1)
  let initData := CallData.initializeCustomWallet req.from req.to req.tokenContract
    msg.tx.origin req.tokenAmount req.tokenGas req.data
  let _ ← deploy E msg
    (CustomSmartWallet.salt E req.from req.recoverer req.to (E.keccak256 req.data) req.index)
    initData
  return ()

/-- `getSmartWalletAddress` of the factory at `self`. -/
def getSmartWalletAddress (E : Env) (factory : Factory)
    (self owner recoverer logic : Address) (initParamsHash index : Word) : Address :=
  proxyAddress E self factory.masterCopy
    (CustomSmartWallet.salt E owner recoverer logic initParamsHash index)

def code (E : Env) (msg : Msg) : Sol χ Bytes :=
  match msg.data with
  | .createCustomUserSmartWallet owner recoverer logic index initParams sig => do
      nonPayable msg
      createUserSmartWallet E msg owner recoverer logic index initParams sig
      return []
  | .relayedUserSmartWalletCreation req domainSeparator suffixData sig => do
      nonPayable msg
      relayedUserSmartWalletCreation E msg req domainSeparator suffixData sig
      return []
  | _ => .revert (.data [])

end Functions

end CustomSmartWalletFactory

end RifRelay
