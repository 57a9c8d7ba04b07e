import RifRelay.Contracts.Proxy

set_option autoImplicit false

/-! # `SmartWallet`

The code runs in the account of a proxy (`msg.self`), by a delegate call, or in the account
of the master copy itself. `execute` verifies a request the owner signed, pays the relay
worker in tokens, calls the destination and hands what coins are left to the owner;
`directExecute` does the call for the owner in person, `recover` for the recoverer that was
fixed when the wallet was created.
-/

namespace RifRelay

open CallMachine IForwarder

/-! ## Storage and signatures, common to both wallets -/

namespace Wallet

variable {χ : Type}

def storage (msg : Msg) : Sol χ Wallet := Prog.get.bind fun w => .ret (w.wallets msg.self)

def modifyStorage (msg : Msg) (f : Wallet → Wallet) : Sol χ Unit :=
  Prog.modify fun w =>
    { w with wallets := Function.update w.wallets msg.self (f (w.wallets msg.self)) }

/-- `keccak256(abi.encodePacked(owner))`. -/
def ownerCell (E : Env) (owner : Address) : Word := E.keccak256 (addressBytes owner)

def REQUEST_TYPE : String :=
  "RelayRequest(address relayHub,address from,address to,address tokenContract,uint256 value," ++
    "uint256 gas,uint256 nonce,uint256 tokenAmount,uint256 tokenGas,bytes data," ++
    "RelayData relayData)RelayData(uint256 gasPrice,bytes32 domainSeparator,address relayWorker," ++
    "address callForwarder,address callVerifier)"

def getEncoded (E : Env) (suffixData : Word) (req : ForwardRequest) : Bytes :=
  wordBytes (E.keccak256 (textBytes REQUEST_TYPE)) ++
    (wordBytes (addressWord req.relayHub) ++
      (wordBytes (addressWord req.from) ++
        (wordBytes (addressWord req.to) ++
          (wordBytes (addressWord req.tokenContract) ++
            (wordBytes req.value ++
              (wordBytes req.gas ++
                (wordBytes req.nonce ++
                  (wordBytes req.tokenAmount ++
                    (wordBytes req.tokenGas ++
                      (wordBytes (E.keccak256 req.data) ++ wordBytes suffixData))))))))))

def verifySig (E : Env) (msg : Msg) (domainSeparator suffixData : Word) (req : ForwardRequest)
    (sig : Bytes) : Sol χ Unit := do
  let wallet ← storage msg
  require (wallet.owner = ownerCell E req.from) "Not the owner of the SmartWallet"
  require (wallet.nonce = req.nonce) "nonce mismatch"
  Eip712.checkSignature E msg domainSeparator (getEncoded E suffixData req) sig req.from

/-- The address that a factory gives to the wallet with this salt, as `recover` rebuilds it. -/
def rebuiltAddress (E : Env) (factory swTemplate : Address) (salt : Word) : Address :=
  E.createdAddress (Proxy.create2String factory salt
    (E.keccak256 (Proxy.creationBytecode swTemplate)))

/-- `if (address(this).balance > 0) payable(dest).transfer(address(this).balance)`. -/
def sweep (msg : Msg) (dest : Address) : Sol χ Unit := do
  let balanceToTransfer ← selfBalance msg
  whenever (0 < balanceToTransfer) (transferTo msg dest balanceToTransfer)

/-- The part of `recover` after the address check. -/
def recoverCall (E : Env) (msg : Msg) (destinationContract : Address) (data : Bytes) :
    Sol χ (Bool × Bytes) := do
  let result ←
    if destinationContract ≠ 0 then
      lowLevelCall msg none destinationContract msg.value (E.abiDecode data)
    else .ret (false, [])
  sweep msg msg.sender
  return result

end Wallet

/-! ## Functions -/

namespace SmartWallet

open Wallet

section Functions

variable {χ : Type}

def verify (E : Env) (msg : Msg) (domainSeparator suffixData : Word) (req : ForwardRequest)
    (sig : Bytes) : Sol χ Unit :=
  verifySig E msg domainSeparator suffixData req sig

/-- `keccak256(abi.encodePacked(owner, recoverer, index))`. -/
def salt (E : Env) (owner recoverer : Address) (index : Word) : Word :=
  E.keccak256 (addressBytes owner ++ (addressBytes recoverer ++ wordBytes index))

def recover (E : Env) (msg : Msg) (owner factory swTemplate destinationContract : Address)
    (index : Word) (data : Bytes) : Sol χ (Bool × Bytes) := do
  require (rebuiltAddress E factory swTemplate (salt E owner msg.sender index) = msg.self)
    "Invalid recoverer"
  recoverCall E msg destinationContract data

def directExecute (E : Env) (msg : Msg) (dest : Address) (data : Bytes) :
    Sol χ (Bool × Bytes) := do
  let wallet ← storage msg
  require (wallet.owner = ownerCell E msg.sender) "Not the owner of the SmartWallet"
  let result ← lowLevelCall msg none dest msg.value (E.abiDecode data)
  sweep msg msg.sender
  return result

def execute (E : Env) (msg : Msg) (domainSeparator suffixData : Word) (req : ForwardRequest)
    (sig : Bytes) : Sol χ (Bool × Bytes) := do
  require (msg.sender = req.relayHub) "Invalid caller"
  verifySig E msg domainSeparator suffixData req sig
  -- spent before anything is called
  modifyStorage msg fun wallet => { wallet with nonce := wallet.nonce + 1 }
  whenever (0 < req.tokenAmount)
    (payToken msg req.tokenContract req.tokenGas msg.tx.origin req.tokenAmount
      "Unable to pay for relay")
  -- what the call itself costs is not counted
  let gasleft ← Prog.gas
  require (req.gas.toNat < gasleft) "Not enough gas left"
  let result ← lowLevelCall msg (some req.gas.toNat) req.to req.value (E.abiDecode req.data)
  sweep msg req.from
  return result

def initializeWallet (E : Env) (msg : Msg) (owner tokenAddr tokenRecipient : Address)
    (tokenAmount tokenGas : Word) : Sol χ Unit := do
  let wallet ← storage msg
  require (wallet.owner = 0) "already initialized"
  modifyStorage msg fun wallet => { wallet with owner := ownerCell E owner }
  whenever (0 < tokenAmount)
    (payToken msg tokenAddr tokenGas tokenRecipient tokenAmount "Unable to pay for deployment")

/-- The function the calldata selects. Plain transfers are received; there is no fallback. -/
def code (E : Env) (msg : Msg) : Sol χ Bytes :=
  match msg.data with
  | .empty => return []
  | .verify domainSeparator suffixData req sig => do
      nonPayable msg
      verify E msg domainSeparator suffixData req sig
      return []
  | .recover owner factory swTemplate destinationContract index data => do
      let (success, ret) ← recover E msg owner factory swTemplate destinationContract index data
      return Abi.encodeBoolBytes success ret
  | .directExecute dest data => do
      let (success, ret) ← directExecute E msg dest data
      return Abi.encodeBoolBytes success ret
  | .execute domainSeparator suffixData req sig => do
      let (success, ret) ← execute E msg domainSeparator suffixData req sig
      return Abi.encodeBoolBytes success ret
  | .initializeWallet owner tokenAddr tokenRecipient tokenAmount tokenGas => do
      nonPayable msg
      initializeWallet E msg owner tokenAddr tokenRecipient tokenAmount tokenGas
      return []
  | _ => .revert (.data [])

end Functions

end SmartWallet

end RifRelay
