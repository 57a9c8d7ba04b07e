import RifRelay.Basic.TypedData
import RifRelay.Contracts.World

set_option autoImplicit false

/-! # The typed data of a request

What the client signs for a relay or a deploy request: the fields of the request with the
relay data as a struct inside, in the domain of the contract that verifies the signature.
Both kinds of request go by the type name `RelayRequest`.
-/

namespace RifRelay

open TypedData

/-! ## Types -/

namespace TypedRequestData

def EIP712DomainType : List Member :=
  [⟨"name", "string"⟩,
    ⟨"version", "string"⟩,
    ⟨"chainId", "uint256"⟩,
    ⟨"verifyingContract", "address"⟩]

def RelayDataType : List Member :=
  [⟨"gasPrice", "uint256"⟩,
    ⟨"domainSeparator", "bytes32"⟩,
    ⟨"relayWorker", "address"⟩,
    ⟨"callForwarder", "address"⟩,
    ⟨"callVerifier", "address"⟩]

def ForwardRequestType : List Member :=
  [⟨"relayHub", "address"⟩,
    ⟨"from", "address"⟩,
    ⟨"to", "address"⟩,
    ⟨"tokenContract", "address"⟩,
    ⟨"value", "uint256"⟩,
    ⟨"gas", "uint256"⟩,
    ⟨"nonce", "uint256"⟩,
    ⟨"tokenAmount", "uint256"⟩,
    ⟨"tokenGas", "uint256"⟩,
    ⟨"data", "bytes"⟩]

def DeployRequestDataType : List Member :=
  [⟨"relayHub", "address"⟩,
    ⟨"from", "address"⟩,
    ⟨"to", "address"⟩,
    ⟨"tokenContract", "address"⟩,
    ⟨"recoverer", "address"⟩,
    ⟨"value", "uint256"⟩,
    ⟨"nonce", "uint256"⟩,
    ⟨"tokenAmount", "uint256"⟩,
    ⟨"tokenGas", "uint256"⟩,
    ⟨"index", "uint256"⟩,
    ⟨"data", "bytes"⟩]

def RelayRequestType : List Member := ForwardRequestType ++ [⟨"relayData", "RelayData"⟩]

def DeployRequestType : List Member := DeployRequestDataType ++ [⟨"relayData", "RelayData"⟩]

/-! ## Domains -/

def DomainSeparatorType.name : String := "RSK Enveloping Transaction"

def DomainSeparatorType.version : String := "2"

def getDomainSeparator (verifyingContract : Address) (chainId : Word) : Object :=
  [("name", .string DomainSeparatorType.name),
    ("version", .string DomainSeparatorType.version),
    ("chainId", .word chainId),
    ("verifyingContract", .address verifyingContract)]

/-- `H` is the hash function of the library that hashes typed data. -/
def getDomainSeparatorHash (H : Bytes → Word) (verifier : Address) (chainId : Word) : Option Word :=
  hashStruct H [("EIP712Domain", EIP712DomainType)] 1 "EIP712Domain"
    (getDomainSeparator verifier chainId)

/-! ## Requests as objects -/

def relayDataObject (relayData : EnvelopingTypes.RelayData) : Object :=
  [("gasPrice", .word relayData.gasPrice),
    ("domainSeparator", .word relayData.domainSeparator),
    ("relayWorker", .address relayData.relayWorker),
    ("callForwarder", .address relayData.callForwarder),
    ("callVerifier", .address relayData.callVerifier)]

def forwardRequestObject (request : IForwarder.ForwardRequest) : Object :=
  [("relayHub", .address request.relayHub),
    ("from", .address request.from),
    ("to", .address request.to),
    ("tokenContract", .address request.tokenContract),
    ("value", .word request.value),
    ("gas", .word request.gas),
    ("nonce", .word request.nonce),
    ("tokenAmount", .word request.tokenAmount),
    ("tokenGas", .word request.tokenGas),
    ("data", .bytes request.data)]

def deployRequestObject (request : IForwarder.DeployRequest) : Object :=
  [("relayHub", .address request.relayHub),
    ("from", .address request.from),
    ("to", .address request.to),
    ("tokenContract", .address request.tokenContract),
    ("recoverer", .address request.recoverer),
    ("value", .word request.value),
    ("nonce", .word request.nonce),
    ("tokenAmount", .word request.tokenAmount),
    ("tokenGas", .word request.tokenGas),
    ("index", .word request.index),
    ("data", .bytes request.data)]

/-- `{ ...request, relayData }`. -/
def flattened (request : Object) (relayData : EnvelopingTypes.RelayData) : Object :=
  request ++ [("relayData", .struct (relayDataObject relayData))]

end TypedRequestData

open TypedRequestData

/-! ## What is signed -/

/-- `new TypedRequestData(chainId, verifier, relayRequest)`. -/
def typedRequestData (chainId : Word) (verifier : Address)
    (relayRequest : EnvelopingTypes.RelayRequest) : TypedMessage where
  types :=
    [("EIP712Domain", EIP712DomainType),
      ("RelayRequest", RelayRequestType),
      ("RelayData", RelayDataType)]
  domain := getDomainSeparator verifier chainId
  primaryType := "RelayRequest"
  message := flattened (forwardRequestObject relayRequest.request) relayRequest.relayData

/-- `new TypedDeployRequestData(chainId, verifier, relayRequest)`. -/
def typedDeployRequestData (chainId : Word) (verifier : Address)
    (relayRequest : EnvelopingTypes.DeployRequest) : TypedMessage where
  types :=
    [("EIP712Domain", EIP712DomainType),
      ("RelayRequest", DeployRequestType),
      ("RelayData", RelayDataType)]
  domain := getDomainSeparator verifier chainId
  primaryType := "RelayRequest"
  message := flattened (deployRequestObject relayRequest.request) relayRequest.relayData

end RifRelay
