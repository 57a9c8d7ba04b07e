import RifRelay.Contracts.Eip712Library

set_option autoImplicit false

/-! # Proxies and signed data

What the wallets and the factories of both kinds have in common: the creation bytecode of
the proxies and the addresses `create2` gives them, the EIP-712 domain and the digest that
is signed, and the token payment.
-/

namespace RifRelay

open CallMachine

/-! ## Creation bytecode and addresses -/

namespace Proxy

/-- `hex"602D3D8160093D39F3"`, the constructor. -/
def CONSTRUCTOR : Bytes := [0x60, 0x2D, 0x3D, 0x81, 0x60, 0x09, 0x3D, 0x39, 0xF3]

/-- `hex"363D3D373D3D3D3D363D73"`. -/
def RUNTIME_START : Bytes :=
  [0x36, 0x3D, 0x3D, 0x37, 0x3D, 0x3D, 0x3D, 0x3D, 0x36, 0x3D, 0x73]

/-- `hex"5AF43D923D90803E602B57FD5BF3"`. -/
def RUNTIME_END : Bytes :=
  [0x5A, 0xF4, 0x3D, 0x92, 0x3D, 0x90, 0x80, 0x3E, 0x60, 0x2B, 0x57, 0xFD, 0x5B, 0xF3]

/-- Constructor, runtime start, master copy, runtime end. -/
def creationBytecode (masterCopy : Address) : Bytes :=
  CONSTRUCTOR ++ (RUNTIME_START ++ (addressBytes masterCopy ++ RUNTIME_END))

/-- The string whose hash is the address `create2` gives: `0xff`, the creator, the salt and
the hash of the creation bytecode. -/
def create2String (creator : Address) (salt codeHash : Word) : Bytes :=
  0xff :: (addressBytes creator ++ (wordBytes salt ++ wordBytes codeHash))

/-- The runtime code of a proxy: everything is delegated to the master copy. -/
def code {χ : Type} (masterCopy : Address) (msg : Msg) : Sol χ Bytes :=
  (Prog.send none (msg.delegatecallTo masterCopy msg.data)).bind bubble

end Proxy

/-! ## Signed data -/

namespace Eip712

def DOMAIN_TYPE : String :=
  "EIP712Domain(string name,string version,uint256 chainId,address verifyingContract)"

def DOMAIN_NAME : String := "RSK Enveloping Transaction"

def DATA_VERSION : String := "2"

/-- The string the contracts hash for their domain separator. -/
def encodeDomain (E : Env) (chainId : Word) (verifyingContract : Address) : Bytes :=
  wordBytes (E.keccak256 (textBytes DOMAIN_TYPE)) ++
    (wordBytes (E.keccak256 (textBytes DOMAIN_NAME)) ++
      (wordBytes (E.keccak256 (textBytes DATA_VERSION)) ++
        (wordBytes chainId ++ wordBytes (addressWord verifyingContract))))

/-- `"\x19\x01"`, the domain separator and the hash of the encoded structure. -/
def signedBytes (E : Env) (domainSeparator : Word) (encoded : Bytes) : Bytes :=
  0x19 :: 0x01 :: (wordBytes domainSeparator ++ wordBytes (E.keccak256 encoded))

variable {χ : Type}

/-- The checks of the domain separator and of the signature, shared by all `_verifySig`. -/
def checkSignature (E : Env) (msg : Msg) (domainSeparator : Word) (encoded sig : Bytes)
    («from» : Address) : Sol χ Unit := do
  require (E.keccak256 (encodeDomain E E.chainId msg.self) = domainSeparator)
    "Invalid domain separator"
  let signer ← recoverSigner E (E.keccak256 (signedBytes E domainSeparator encoded)) sig
  require (RSKAddrValidator.safeEquals signer «from») "signature mismatch"

end Eip712

/-! ## Token payments -/

/-- Call `transfer(recipient, amount)` of the token and require that it worked: the call
succeeded and returned nothing or `true`. -/
def payToken {χ : Type} (msg : Msg) (token : Address) (tokenGas : Word) (recipient : Address)
    (amount : Word) (reason : String) : Sol χ Unit := do
  let (success, ret) ← lowLevelCall msg (some tokenGas.toNat) token 0 (.transfer recipient amount)
  require success reason
  whenever (ret.length ≠ 0) ((orRevert (Abi.decodeBool ret)).bind fun ok => require ok reason)

end RifRelay
