import RifRelay.Contracts.SmartWallet

set_option autoImplicit false

/-! # `CustomSmartWallet`

A wallet with an optional custom logic, fixed when the wallet is initialised. Where there
is one, `execute` and `directExecute` hand their own calldata to it by a delegate call
instead of calling the destination, and everything the wallet does not know itself is
delegated too.
-/

namespace RifRelay

open CallMachine IForwarder

namespace CustomSmartWallet

open Wallet

section Functions

variable {χ : Type}

def verify (E : Env) (msg : Msg) (domainSeparator suffixData : Word) (req : ForwardRequest)
    (sig : Bytes) : Sol χ Unit :=
  verifySig E msg domainSeparator suffixData req sig

/-- `keccak256(abi.encodePacked(owner, recoverer, logic, initParamsHash, index))`. -/
def salt (E : Env) (owner recoverer logic : Address) (initParamsHash index : Word) : Word :=
  E.keccak256 (addressBytes owner ++ (addressBytes recoverer ++ (addressBytes logic ++
    (wordBytes initParamsHash ++ wordBytes index))))

def recover (E : Env) (msg : Msg)
    (owner factory swTemplate destinationContract logic : Address)
    (index initParamsHash : Word) (data : Bytes) : Sol χ (Bool × Bytes) := do
  require (rebuiltAddress E factory swTemplate
    (salt E owner msg.sender logic initParamsHash index) = msg.self) "Invalid recoverer"
  recoverCall E msg destinationContract data

def directExecute (E : Env) (msg : Msg) (dest : Address) (data : Bytes) :
    Sol χ (Bool × Bytes) := do
  let wallet ← storage msg
  require (wallet.owner = ownerCell E msg.sender) "Not the owner of the SmartWallet"
  let logicStrg := wallet.logic
  -- a logic runs in the place of the destination, with the whole calldata
  let result ←
    if logicStrg = 0 then lowLevelCall msg none dest msg.value (E.abiDecode data)
    else lowLevelDelegatecall msg (wordAddress logicStrg) msg.data
  sweep msg msg.sender
  return result

def execute (E : Env) (msg : Msg) (domainSeparator suffixData : Word) (req : ForwardRequest)
    (sig : Bytes) : Sol χ (Bool × Bytes) := do
  require (msg.sender = req.relayHub) "Invalid caller"
  verifySig E msg domainSeparator suffixData req sig
  modifyStorage msg fun wallet => { wallet with nonce := wallet.nonce + 1 }
  whenever (0 < req.tokenAmount)
    (payToken msg req.tokenContract req.tokenGas msg.tx.origin req.tokenAmount
      "Unable to pay for relay")
  let wallet ← storage msg
  let logicStrg := wallet.logic
  let gasleft ← Prog.gas
  require (req.gas.toNat < gasleft) "Not enough gas left"
  let result ←
    if logicStrg = 0 then
      lowLevelCall msg (some req.gas.toNat) req.to req.value (E.abiDecode req.data)
    else lowLevelDelegatecall msg (wordAddress logicStrg) msg.data
  sweep msg req.from
  return result

/-- The custom logic is initialised with `initialize(bytes)` before its address is stored. -/
def initializeCustomWallet (E : Env) (msg : Msg)
    (owner logic tokenAddr tokenRecipient : Address) (tokenAmount tokenGas : Word)
    (initParams : Bytes) : Sol χ Unit := do
  let wallet ← storage msg
  require (wallet.owner = 0) "already initialized"
  modifyStorage msg fun wallet => { wallet with owner := ownerCell E owner }
  whenever (0 < tokenAmount)
    (payToken msg tokenAddr tokenGas tokenRecipient tokenAmount "Unable to pay for deployment")
  whenever (logic ≠ 0) do
    -- it runs in the storage of the wallet, and its address is stored after it
    let (success, _) ← lowLevelDelegatecall msg logic (.initializeLogic initParams)
    require success "initialize call in logic failed"
    modifyStorage msg fun wallet => { wallet with logic := addressWord logic }

/-- `_fallback`: delegate to the custom logic, if any. -/
def fallback (msg : Msg) : Sol χ Bytes := do
  let wallet ← storage msg
  let logicStrg := wallet.logic
  if logicStrg ≠ 0 then
    let r ← Prog.send none (msg.delegatecallTo (wordAddress logicStrg) msg.data)
    bubble r
  else return []

/-- The function the calldata selects; plain transfers and unknown selectors fall back. -/
def code (E : Env) (msg : Msg) : Sol χ Bytes :=
  match msg.data with
  | .verify domainSeparator suffixData req sig => do
      nonPayable msg
      verify E msg domainSeparator suffixData req sig
      return []
  | .recoverCustom owner factory swTemplate destinationContract logic index initParamsHash
      data => do
      let (success, ret) ← recover E msg owner factory swTemplate destinationContract logic
        index initParamsHash data
      return Abi.encodeBoolBytes success ret
  | .directExecute dest data => do
      let (success, ret) ← directExecute E msg dest data
      return Abi.encodeBoolBytes success ret
  | .execute domainSeparator suffixData req sig => do
      let (success, ret) ← execute E msg domainSeparator suffixData req sig
      return Abi.encodeBoolBytes success ret
  | .initializeCustomWallet owner logic tokenAddr tokenRecipient tokenAmount tokenGas
      initParams => do
      nonPayable msg
      initializeCustomWallet E msg owner logic tokenAddr tokenRecipient tokenAmount tokenGas
        initParams
      return []
  | _ => fallback msg

end Functions

end CustomSmartWallet

end RifRelay
