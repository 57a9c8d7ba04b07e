import RifRelay.Contracts.World

set_option autoImplicit false

/-! # `Eip712Library` and `RSKAddrValidator`

The bridge between the hub and the wallets or factories it calls: the relay data is hashed
here and passed on as `suffixData`, next to the request itself. The type strings of the
signed structures are the ones the contracts spell out.
-/

namespace RifRelay

open CallMachine

namespace RSKAddrValidator

/-- The address RSK recovers for a zero private key. -/
def ZERO_PK_ADDR : Address := 0xdcc703c0E500B653Ca82273B7BFAd8045D85a470

def checkPKNotZero (addr : Address) : Bool := addr != ZERO_PK_ADDR && addr != 0

def safeEquals (addr1 addr2 : Address) : Bool :=
  addr1 == addr2 && addr1 != ZERO_PK_ADDR && addr1 != 0

theorem safeEquals_iff (a b : Address) :
    safeEquals a b = true ↔ a = b ∧ a ≠ ZERO_PK_ADDR ∧ a ≠ 0 := by
  simp [safeEquals, and_assoc]

end RSKAddrValidator

namespace Eip712Library

open EnvelopingTypes

def RELAYDATA_TYPE : String :=
  "RelayData(uint256 gasPrice,bytes32 domainSeparator,address relayWorker,address callForwarder," ++
    "address callVerifier)"

/-- The string `hashRelayData` hashes. -/
def encodeRelayData (E : Env) (req : RelayData) : Bytes :=
  wordBytes (E.keccak256 (textBytes RELAYDATA_TYPE)) ++
    (wordBytes req.gasPrice ++
      (wordBytes req.domainSeparator ++
        (wordBytes (addressWord req.relayWorker) ++
          (wordBytes (addressWord req.callForwarder) ++
            wordBytes (addressWord req.callVerifier)))))

def hashRelayData (E : Env) (req : RelayData) : Word := E.keccak256 (encodeRelayData E req)

variable {χ : Type}

/-- `MinLibBytes.truncateInPlace`. -/
def truncateInPlace (data : Bytes) (maxlen : Nat) : Bytes := data.take maxlen

/-- `(deploySuccess, ret)` of the call into the factory. -/
def deploy (E : Env) (msg : Msg) (relayRequest : DeployRequest) (signature : Bytes) :
    Sol χ (Bool × Bytes) :=
  lowLevelCall msg none relayRequest.relayData.callForwarder 0
    (.relayedUserSmartWalletCreation relayRequest.request
      relayRequest.relayData.domainSeparator (hashRelayData E relayRequest.relayData) signature)

/-- `(forwarderSuccess, relaySuccess, ret)`: whether the call into the wallet reverted,
whether the call of the destination reverted, and the return or revert data of the
innermost of these that was reached. -/
def execute (E : Env) (msg : Msg) (relayRequest : RelayRequest) (signature : Bytes) :
    Sol χ (Bool × Bool × Bytes) := do
  let (forwarderSuccess, ret) ← lowLevelCall msg none relayRequest.relayData.callForwarder 0
    (.execute relayRequest.relayData.domainSeparator (hashRelayData E relayRequest.relayData)
      relayRequest.request signature)
  if forwarderSuccess then
    let (relaySuccess, ret) ← orRevert (Abi.decodeBoolBytes ret)
    return (forwarderSuccess, relaySuccess, truncateInPlace ret 1024)
  else
    return (forwarderSuccess, false, truncateInPlace ret 1024)

end Eip712Library

end RifRelay
