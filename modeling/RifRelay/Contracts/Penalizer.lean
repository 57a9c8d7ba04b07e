import RifRelay.Contracts.Eip712Library

set_option autoImplicit false

/-! # `Penalizer`

Two transactions of one signer with one nonce that differ in more than the gas price are
an offence; whoever reports it names the hub whose manager is to be slashed. The record of
reported transactions is kept by transaction hash alone.
-/

namespace RifRelay

open CallMachine

namespace Penalizer

open RLPReader

section Functions

variable {χ : Type}

def storage (msg : Msg) : Sol χ Penalizer := Prog.get.bind fun w => .ret (w.penalizers msg.self)

/-- Record a transaction hash as penalized. -/
def record (penalizer : Penalizer) (txHash : Word) : Penalizer :=
  ⟨Function.update penalizer.penalizedTransactions txHash true⟩

def modifyStorage (msg : Msg) (f : Penalizer → Penalizer) : Sol χ Unit :=
  Prog.modify fun w =>
    { w with penalizers := Function.update w.penalizers msg.self (f (w.penalizers msg.self)) }

/-- How a failure of the reader fails the frame. -/
def readerRevert : Failure → Revert
  | .require reason => .error reason
  | .invalid => .halt

def decodeTransaction (E : Env) (rawTransaction : Bytes) : Sol χ Transaction :=
  match RLPReader.decodeTransaction (E.stored rawTransaction) with
  | .ok transaction => .ret transaction
  | .error failure => .revert (readerRevert failure)

/-- `abi.encodePacked(data, gasLimit, to, value)`. -/
def dataToCheck (decodedTx : Transaction) : Bytes :=
  decodedTx.data ++ (wordBytes decodedTx.gasLimit ++
    (addressBytes decodedTx.to ++ wordBytes decodedTx.value))

/-- A call of a function without return value: the callee must have code, and a failure is
handed on. -/
def callFunction (msg : Msg) (dest : Address) (data : CallData) : Sol χ Bytes := do
  let w ← Prog.get
  Prog.assert (w.code dest ≠ none) (.data [])
  let r ← Prog.send none (msg.callTo dest 0 data)
  bubble r

/-- `hub.isRelayManagerStaked(msg.sender)`: a view function, so the call is static. -/
def callIsRelayManagerStaked (msg : Msg) (hub : Address) : Sol χ Bool := do
  let w ← Prog.get
  Prog.assert (w.code hub ≠ none) (.data [])
  let r ← Prog.send none (msg.staticcallTo hub (.isRelayManagerStaked msg.sender))
  let ret ← bubble r
  orRevert (Abi.decodeBool ret)

/-- The modifier `relayManagerOnly(hub)`. -/
def relayManagerOnly (msg : Msg) (hub : Address) : Sol χ Unit := do
  let staked ← callIsRelayManagerStaked msg hub
  require staked "Unknown relay manager"

/-- The checks of the pair of transactions; the result is the address that signed both. -/
def checkOffence (E : Env) (msg : Msg) (unsignedTx1 signature1 unsignedTx2 signature2 : Bytes) :
    Sol χ Address := do
  let txHash1 := E.keccak256 unsignedTx1
  let txHash2 := E.keccak256 unsignedTx2
  let penalizer ← storage msg
  -- one of the two may have been reported before
  require (penalizer.penalizedTransactions txHash1 = false ∨
    penalizer.penalizedTransactions txHash2 = false) "Transactions already penalized"
  let addr1 ← recoverSigner E txHash1 signature1
  let addr2 ← recoverSigner E txHash2 signature2
  require (addr1 = addr2) "Different signer"
  require (RSKAddrValidator.checkPKNotZero addr1) "ecrecover failed"
  let decodedTx1 ← decodeTransaction E unsignedTx1
  let decodedTx2 ← decodeTransaction E unsignedTx2
  require (decodedTx1.nonce = decodedTx2.nonce) "Different nonce"
  require (E.keccak256 (dataToCheck decodedTx1) ≠ E.keccak256 (dataToCheck decodedTx2))
    "tx is equal"
  return addr1

def penalizeRepeatedNonce (E : Env) (msg : Msg)
    (unsignedTx1 signature1 unsignedTx2 signature2 : Bytes) (hub : Address) : Sol χ Unit := do
  relayManagerOnly msg hub
  let addr1 ← checkOffence E msg unsignedTx1 signature1 unsignedTx2 signature2
  -- recorded before the hub is called
  modifyStorage msg (·.record (E.keccak256 unsignedTx1))
  modifyStorage msg (·.record (E.keccak256 unsignedTx2))
  let _ ← callFunction msg hub (.penalize addr1 msg.sender)
  return ()

def code (E : Env) (msg : Msg) : Sol χ Bytes :=
  match msg.data with
  | .penalizeRepeatedNonce unsignedTx1 signature1 unsignedTx2 signature2 hub => do
      nonPayable msg
      penalizeRepeatedNonce E msg unsignedTx1 signature1 unsignedTx2 signature2 hub
      return []
  | _ => .revert (.data [])

end Functions

end Penalizer

end RifRelay
