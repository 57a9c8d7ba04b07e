import RifRelay.Contracts.SmartWallet

set_option autoImplicit false

/-! # `SmartWalletFactory`

The factory installs a proxy at an address that depends on the owner, the recoverer and an
index, and initialises it in the same call. It does so for anybody who brings the owner's
signature over these parameters (`createUserSmartWallet`), or for the relay hub named in a
deploy request the owner signed (`relayedUserSmartWalletCreation`). The namespace `Factory`
holds what the custom factory has word for word as well.
-/

namespace RifRelay

open CallMachine

/-! ## Storage, signatures and deployment, common to both factories -/

namespace Factory

open IForwarder

variable {χ : Type}

def storage (msg : Msg) : Sol χ Factory := Prog.get.bind fun w => .ret (w.factories msg.self)

def modifyStorage (msg : Msg) (f : Factory → Factory) : Sol χ Unit :=
  Prog.modify fun w =>
    { w with factories := Function.update w.factories msg.self (f (w.factories msg.self)) }

def setNonce (factory : Factory) («from» : Address) (nonce : Word) : Factory :=
  { factory with nonces := Function.update factory.nonces «from» nonce }

def REQUEST_TYPE : String :=
  "RelayRequest(address relayHub,address from,address to,address tokenContract," ++
    "address recoverer,uint256 value,uint256 nonce,uint256 tokenAmount,uint256 tokenGas," ++
    "uint256 index,bytes data,RelayData relayData)" ++
    "RelayData(uint256 gasPrice,bytes32 domainSeparator,address relayWorker," ++
    "address callForwarder,address callVerifier)"

def getEncoded (E : Env) (req : DeployRequest) (suffixData : Word) : Bytes :=
  wordBytes (E.keccak256 (textBytes REQUEST_TYPE)) ++
    (wordBytes (addressWord req.relayHub) ++
      (wordBytes (addressWord req.from) ++
        (wordBytes (addressWord req.to) ++
          (wordBytes (addressWord req.tokenContract) ++
            (wordBytes (addressWord req.recoverer) ++
              (wordBytes req.value ++
                (wordBytes req.nonce ++
                  (wordBytes req.tokenAmount ++
                    (wordBytes req.tokenGas ++
                      (wordBytes req.index ++
                        (wordBytes (E.keccak256 req.data) ++ wordBytes suffixData)))))))))))

def verifySig (E : Env) (msg : Msg) (req : DeployRequest) (domainSeparator suffixData : Word)
    (sig : Bytes) : Sol χ Unit := do
  let factory ← storage msg
  require (factory.nonces req.from = req.nonce) "nonce mismatch"
  Eip712.checkSignature E msg domainSeparator (getEncoded E req suffixData) sig req.from

/-- The address of the proxy with this salt. -/
def proxyAddress (E : Env) (self masterCopy : Address) (salt : Word) : Address :=
  E.createdAddress (Proxy.create2String self salt
    (E.keccak256 (Proxy.creationBytecode masterCopy)))

/-- `create2(0, code, salt)` of the creation bytecode: the address of the new proxy, or `0`
where there is a contract already. -/
def create2 (E : Env) (msg : Msg) (masterCopy : Address) (salt : Word) : Sol χ Address := do
  let w ← Prog.get
  let creation := Proxy.create2String msg.self salt
    (E.keccak256 (Proxy.creationBytecode masterCopy))
  let addr := E.createdAddress creation
  Prog.modify fun w =>
    if w.Vacant E addr then w.install addr ⟨.proxy masterCopy, creation⟩ else w
  return if w.Vacant E addr then addr else 0

/-- Create the proxy and initialise it. -/
def deploy (E : Env) (msg : Msg) (salt : Word) (initdata : CallData) : Sol χ Address := do
  let factory ← storage msg
  let addr ← create2 E msg factory.masterCopy salt
  let w ← Prog.get
  -- `if iszero(extcodesize(addr))`
  Prog.assert (w.code addr ≠ none) (.data [])
  let (success, _) ← lowLevelCall msg none addr 0 initdata
  require success "Unable to initialize SW"
  emit msg.self (.Deployed addr salt)
  return addr

end Factory

/-! ## Functions -/

namespace SmartWalletFactory

open Factory IForwarder

section Functions

variable {χ : Type}

/-- The string an owner signs for `createUserSmartWallet`. -/
def creationString (owner recoverer : Address) (index : Word) : Bytes :=
  0x19 :: 0x10 :: (addressBytes owner ++ (addressBytes recoverer ++ wordBytes index))

def createUserSmartWallet (E : Env) (msg : Msg) (owner recoverer : Address) (index : Word)
    (sig : Bytes) : Sol χ Unit := do
  let signer ← recoverSigner E (E.keccak256 (creationString owner recoverer index)) sig
  require (RSKAddrValidator.safeEquals signer owner) "Invalid signature"
  -- without a payment
  let initData := CallData.initializeWallet owner 0 0 0 0
  let _ ← deploy E msg (SmartWallet.salt E owner recoverer index) initData
  return ()

def relayedUserSmartWalletCreation (E : Env) (msg : Msg) (req : DeployRequest)
    (domainSeparator suffixData : Word) (sig : Bytes) : Sol χ Unit := do
  require (msg.sender = req.relayHub) "Invalid caller"
  verifySig E msg req domainSeparator suffixData sig
  modifyStorage msg fun factory => factory.setNonce req.from (factory.nonces req.from + 1)
  let initData := CallData.initializeWallet req.from req.tokenContract msg.tx.origin
    req.tokenAmount req.tokenGas
  let _ ← deploy E msg (SmartWallet.salt E req.from req.recoverer req.index) initData
  return ()

/-- `getSmartWalletAddress` of the factory at `self`. -/
def getSmartWalletAddress (E : Env) (factory : Factory) (self owner recoverer : Address)
    (index : Word) : Address :=
  proxyAddress E self factory.masterCopy (SmartWallet.salt E owner recoverer index)

def code (E : Env) (msg : Msg) : Sol χ Bytes :=
  match msg.data with
  | .createUserSmartWallet owner recoverer index sig => do
      nonPayable msg
      createUserSmartWallet E msg owner recoverer index sig
      return []
  | .relayedUserSmartWalletCreation req domainSeparator suffixData sig => do
      nonPayable msg
      relayedUserSmartWalletCreation E msg req domainSeparator suffixData sig
      return []
  | _ => .revert (.data [])

end Functions

end SmartWalletFactory

end RifRelay
