import RifRelay.Basic.Numerals
import RifRelay.Client.RelaySelection
import RifRelay.Common.TypedRequestData
import RifRelay.Server.RelayServer
import RifRelay.Tasks.Pool

set_option autoImplicit false

/-! # `RelayClient`

`relayTransaction` has a transaction relayed: it takes one relay after the other from the
selection, makes and signs a request for it, tries the request in a local call, sends it to the
relay and validates the transaction that comes back. The first relay that gives a valid transaction
ends the loop.

The outside is the node, the relays, and the provider that signs where the client has no key. The
races of pings are those of `RelaySelectionManager`.
-/

namespace RifRelay.RelayClient

open EventLoop Numerals RelaySelectionManager
open Server (RelayMetadata RelayTransactionRequest SignedTransaction)

/-! ## Data -/

/-- The numbers are those that the texts of the source write, but for the gas and the gas prices,
which the client parses. -/
structure EnvelopingTransactionDetails where
  «from» : Address
  «to» : Address
  data : Bytes
  tokenContract : Option Address
  tokenAmount : Option Word
  tokenGas : Option Word
  recoverer : Option Address
  index : Option Word
  value : Option Word
  gas : Option Text
  gasPrice : Option Text
  relayHub : Option Address
  callForwarder : Option Address
  callVerifier : Option Address
  isSmartWalletDeploy : Option Bool
  smartWalletAddress : Option Address
  forceGasPrice : Option Text
  onlyPreferredRelays : Option Bool
deriving DecidableEq

/-- The configuration, and what the client computes with the libraries it uses: the hash of the
typed data, the number that a text is read as, `signTypedData_v4`, `recoverTypedSignature_v4`, the
transaction that a text encodes, its hash, the ABI encoding of a call, the address of a key, and
the network's gas price with `gasPriceFactorPercent`. -/
structure EnvelopingConfig where
  relayHubAddress : Address
  relayVerifierAddress : Address
  deployVerifierAddress : Address
  chainId : Word
  maxRelayNonceGap : Nat
  sliceSize : Nat
  minGasPrice : Option Nat
  factoredGasPrice : Nat → Nat
  keccak256 : Bytes → Word
  uint256 : Text → Word
  signTypedData : Bytes → TypedData.TypedMessage → Except String Bytes
  recoverTypedSignature : TypedData.TypedMessage → Bytes → Except String Address
  decodeTransaction : Bytes → Except String SignedTransaction
  hash : SignedTransaction → Word
  encodeABI : CallData → Bytes
  privateToAddress : Bytes → Address

structure AccountKeypair where
  privateKey : Bytes
  address : Address
deriving DecidableEq

/-- What the calls of one client share. -/
structure Memory where
  initialized : Bool
  accounts : List AccountKeypair
  relayFailures : List (Address × String)

/-- An active relay: what its ping has answered, and its registration. -/
structure Relay where
  relayWorkerAddress : Address
  relayInfo : KnownRelaysManager.RelayRegisteredEventInfo
deriving DecidableEq

/-- How the races of one call have gone, and the worker that the winner has named. -/
structure Races where
  pings : List Pings
  relayWorkerAddress : Address

/-- What a relay answers to a request. -/
structure RelayResponse where
  signedTx : Option Bytes
  error : Option String
deriving DecidableEq

structure RelayingAttempt where
  transaction : Option SignedTransaction
  error : Option String

structure RelayingResult where
  transaction : Option SignedTransaction
  pingErrors : Errors
  relayingErrors : List (String × String)

/-- `EstimateGasParams`. -/
structure EstimateGasParams where
  «from» : Address
  «to» : Address
  gasPrice : Option Text
  data : Bytes

/-- What the client asks the outside. -/
inductive Question
  | init
  | refresh
  | getGasPrice
  | estimateGas (params : EstimateGasParams)
  | getRelaysSortedForTransaction
  | pingRelays (selection : RelaySelectionManager.Config) (manager : Manager)
  | getFactoryNonce (factoryAddr «from» : Address)
  | getSenderNonce (sWallet : Address)
  | signWithProvider (signedData : TypedData.TypedMessage)
  | getTransactionCount (addr : Address)
  | estimateHubCall (hub «from» : Address) (gasPrice : Word) (method : CallData)
  | getBalance (addr : Address)
  | verifyRelayedCall (verifier : Address) (req : RelayTransactionRequest)
  | viewCall (req : RelayTransactionRequest) (gas : Nat)
  | sendPromise (relayUrl : String) (req : RelayTransactionRequest)
  | isAlreadySubmitted (txHash : Word)
  | sendSignedTransaction (tx : SignedTransaction)

/-- The answer to a view call says whether the destination has answered; for a deployment nothing
looks at it. -/
abbrev Answer : Question → Type
  | .getGasPrice | .estimateGas _ | .getTransactionCount _ | .estimateHubCall _ _ _ _
  | .getBalance _ => Nat
  | .getRelaysSortedForTransaction => List RelayInfoUrl × List RelayInfoUrl
  | .pingRelays _ _ => Races
  | .getFactoryNonce _ _ | .getSenderNonce _ => Word
  | .signWithProvider _ => Bytes
  | .viewCall _ _ | .isAlreadySubmitted _ => Bool
  | .sendPromise _ _ => RelayResponse
  | _ => Unit

abbrev Handler (α : Type) : Type := Async Memory Question Answer α

def ask (q : Question) : Handler (Answer q) := Async.await q

variable (cfg : EnvelopingConfig)

/-! ## Texts of numbers -/

/-- `toHex` of a number. -/
def toHex (n : Nat) : Text := '0' :: 'x' :: Nat.toDigits 16 n

/-- `parseInt(t).toString()`. -/
def parsedText (t : Text) : Text := ((parseInt t).map numberText).getD "NaN".toList

/-- `a > b` for numbers, of which `none` is `NaN`. -/
def exceeds (a b : Option Doubles.Number) : Bool :=
  match a, b with
  | some (.finite p), some (.finite q) => decide (q < p)
  | some (.infinite false), some n => n != .infinite false
  | some (.finite _), some (.infinite true) => true
  | _, _ => false

/-- Whether `t.indexOf('0x') === 0`. -/
def isPrefixedHex (t : Text) : Bool := t.take 2 == ['0', 'x']

/-! ## Gas -/

namespace Constants

def ESTIMATED_GAS_CORRECTION_FACTOR : Nat := 2

def INTERNAL_TRANSACTION_ESTIMATE_CORRECTION : Nat := 20000

def ZERO_ADDRESS : Address := 0

end Constants

/-- The cost of a call inside a transaction, from the estimate for a transaction. -/
def internalCallCost (estimated : Nat) : Nat :=
  let cost := if estimated > Constants.INTERNAL_TRANSACTION_ESTIMATE_CORRECTION then
    estimated - Constants.INTERNAL_TRANSACTION_ESTIMATE_CORRECTION else estimated
  cost * Constants.ESTIMATED_GAS_CORRECTION_FACTOR

def calculateGasPrice : Handler Text := do
  let networkGasPrice ← ask .getGasPrice
  let gasPrice := cfg.factoredGasPrice networkGasPrice
  return toHex (max gasPrice (cfg.minGasPrice.getD 0))

/-- The ping filter of a transaction. -/
def GasPricePingFilter (gasPrice : Option Text) : PingFilter := fun pingResponse =>
  match gasPrice with
  | none => .ok ()
  | some gasPrice =>
      if exceeds (parseInt pingResponse.minGasPrice.toList) (parseInt gasPrice) then
        .error ("Proposed gas price: " ++ String.ofList gasPrice ++ "; relay's MinGasPrice: " ++
          pingResponse.minGasPrice)
      else .ok ()

section Details

variable (details : EnvelopingTransactionDetails)

def isDeploy : Bool := details.isSmartWalletDeploy.getD false

def resolveForwarder : Handler Address := do
  let forwarderAddress := details.callForwarder.getD Constants.ZERO_ADDRESS
  Async.assert (forwarderAddress ≠ Constants.ZERO_ADDRESS) "No callForwarder address configured"
  return forwarderAddress

def estimateDestinationContractCallGas : Handler Nat := do
  let forwarderAddress ← resolveForwarder details
  let estimated ← ask (.estimateGas ⟨forwarderAddress, details.to, details.gasPrice, details.data⟩)
  return internalCallCost estimated

/-- The account that pays in tokens. -/
def tokenOrigin : Handler Address :=
  if isDeploy details then do
    let smartWalletAddress := details.smartWalletAddress.getD Constants.ZERO_ADDRESS
    Async.assert (smartWalletAddress ≠ Constants.ZERO_ADDRESS)
      ("In a deploy, if tokenGas is not defined, then the calculated SmartWallet address is " ++
        "needed to estimate the tokenGas value")
    return smartWalletAddress
  else resolveForwarder details

def estimateTokenTransferGas (relayWorker : Address) : Handler Nat := do
  let tokenContract := details.tokenContract.getD Constants.ZERO_ADDRESS
  let amount := details.tokenAmount.getD 0
  if tokenContract ≠ Constants.ZERO_ADDRESS ∧ amount ≠ 0 then do
    let origin ← tokenOrigin details
    let gasCost ← ask (.estimateGas ⟨origin, tokenContract, details.gasPrice,
      cfg.encodeABI (.transfer relayWorker amount)⟩)
    return internalCallCost gasCost
  else return internalCallCost 0

end Details

/-! ## `AccountManager` -/

def addAccount (keypair : AccountKeypair) : Handler Unit := do
  Async.assert (cfg.privateToAddress keypair.privateKey = keypair.address) "invalid keypair"
  Async.modify fun m => { m with accounts := m.accounts ++ [keypair] }

/-- The signature of a key that the client has, or of the provider. -/
def makeSignature («from» : Address) (signedData : TypedData.TypedMessage) : Handler Bytes := do
  let m ← Async.get
  match m.accounts.find? (·.address = «from») with
  | some keypair => .done (cfg.signTypedData keypair.privateKey signedData)
  | none => ask (.signWithProvider signedData)

def sign («from» : Address) (signedData : TypedData.TypedMessage) : Handler Bytes := do
  let signed ← Async.recover
    (do
      let signature ← makeSignature cfg «from» signedData
      let recovered ← (.done (cfg.recoverTypedSignature signedData signature) : Handler Address)
      return (signature, recovered))
    fun e => Async.throw
      ("Failed to sign relayed transaction for " ++ Server.addressText «from» ++ ": " ++ e)
  Async.assert («from» = signed.2)
    ("Internal RelayClient exception: signature is not correct: sender=" ++
      Server.addressText «from» ++ ", recovered=" ++ Server.addressText signed.2)
  return signed.1

/-! ## Requests -/

section Requests

variable (relay : Relay) (details : EnvelopingTransactionDetails)

/-- The text of gas or a gas price as it goes into a request. -/
def checkedNumber (name : String) (missing : String) (t : Option Text) : Handler Word :=
  match t with
  | none => Async.throw missing
  | some t => do
      Async.assert (isPrefixedHex t = true)
        ("Invalid " ++ name ++ " hex string: " ++ String.ofList t)
      return cfg.uint256 (parsedText t)

def relayDataOf (forwarderAddress : Address) (callVerifier : Address) (gasPrice : Word) :
    EnvelopingTypes.RelayData where
  gasPrice := gasPrice
  -- the hash of a domain is always there (`getDomainSeparatorHash_eq`)
  domainSeparator :=
    (TypedRequestData.getDomainSeparatorHash cfg.keccak256 forwarderAddress cfg.chainId).getD 0
  relayWorker := relay.relayWorkerAddress
  callForwarder := forwarderAddress
  callVerifier := callVerifier

/-- The metadata of a signed request. -/
def metadataOf (signature : Bytes) : Handler RelayMetadata := do
  let transactionCount ← ask (.getTransactionCount relay.relayWorkerAddress)
  let relayMaxNonce : Int := transactionCount + cfg.maxRelayNonceGap
  return ⟨cfg.relayHubAddress, relayMaxNonce, signature⟩

def prepareDeployHttpRequest : Handler RelayTransactionRequest := do
  let forwarderAddress ← resolveForwarder details
  let senderNonce ← ask (.getFactoryNonce forwarderAddress details.from)
  let gasPrice ← checkedNumber cfg "gasPrice"
    "RelayClient internal exception. Gas price not calculated. Cannot happen." details.gasPrice
  let request : IForwarder.DeployRequest := {
    relayHub := details.relayHub.getD Constants.ZERO_ADDRESS
    «from» := details.from
    «to» := details.to
    tokenContract := details.tokenContract.getD Constants.ZERO_ADDRESS
    recoverer := details.recoverer.getD Constants.ZERO_ADDRESS
    value := details.value.getD 0
    nonce := senderNonce
    tokenAmount := details.tokenAmount.getD 0
    tokenGas := details.tokenGas.getD 0
    index := details.index.getD 0
    data := details.data }
  let relayRequest : EnvelopingTypes.DeployRequest := {
    request := request
    relayData := relayDataOf cfg relay forwarderAddress
      (details.callVerifier.getD cfg.deployVerifierAddress) gasPrice }
  let signature ← sign cfg details.from
    (typedDeployRequestData cfg.chainId forwarderAddress relayRequest)
  let metadata ← metadataOf cfg relay signature
  return .deploy relayRequest metadata

def prepareRelayHttpRequest : Handler RelayTransactionRequest := do
  let forwarderAddress ← resolveForwarder details
  let senderNonce ← ask (.getSenderNonce forwarderAddress)
  Async.assert (details.gasPrice ≠ none ∧ details.gas ≠ none)
    "RelayClient internal exception. Gas price or gas limit still not calculated. Cannot happen."
  let gasPrice ← checkedNumber cfg "gasPrice" "" details.gasPrice
  let gasLimit ← checkedNumber cfg "gasLimit" "" details.gas
  let request : IForwarder.ForwardRequest := {
    relayHub := details.relayHub.getD Constants.ZERO_ADDRESS
    «from» := details.from
    «to» := details.to
    tokenContract := details.tokenContract.getD Constants.ZERO_ADDRESS
    value := details.value.getD 0
    gas := gasLimit
    nonce := senderNonce
    tokenAmount := details.tokenAmount.getD 0
    tokenGas := details.tokenGas.getD 0
    data := details.data }
  let relayRequest : EnvelopingTypes.RelayRequest := {
    request := request
    relayData := relayDataOf cfg relay forwarderAddress
      (details.callVerifier.getD cfg.relayVerifierAddress) gasPrice }
  let signature ← sign cfg details.from (typedRequestData cfg.chainId forwarderAddress relayRequest)
  let metadata ← metadataOf cfg relay signature
  return .relay relayRequest metadata

end Requests

/-! ## The local call -/

/-- What a local call has shown. -/
structure AcceptResult where
  verifierAccepted : Bool
  returnValue : String
  reverted : Bool
  revertedInDestination : Bool

/-- The hub that is asked for the gas of a request: the one of the request itself for a call, the
configured one for a deployment. -/
def estimatedHub (req : RelayTransactionRequest) : Address :=
  match req with
  | .relay relayRequest _ => relayRequest.request.relayHub
  | .deploy _ metadata => metadata.relayHubAddress

/-- The estimate of the gas, with the correction that calls get. -/
def maxEstimatedGas (req : RelayTransactionRequest) : Handler Nat := do
  Async.assert (¬ (req.isDeployRequest = true ∧ estimatedHub req = Constants.ZERO_ADDRESS))
    "calculateDeployCallGas: RelayHub must be defined"
  let estimated ← ask (.estimateHubCall (estimatedHub req) req.relayData.relayWorker
    req.relayData.gasPrice req.method)
  return if req.isDeployRequest then estimated
    else estimated * Constants.ESTIMATED_GAS_CORRECTION_FACTOR

/-- `getMaxViewableRelayGasLimit` and `getMaxViewableDeployGasLimit`. -/
def getMaxViewableGasLimit (req : RelayTransactionRequest) : Handler Nat :=
  let gasPrice := req.relayData.gasPrice.toNat
  -- a limit of 0 stands for a worker that cannot pay
  if gasPrice = 0 then return 0
  else do
    let maxEstimatedGas ← maxEstimatedGas req
    let balance ← ask (.getBalance req.relayData.relayWorker)
    return if balance / gasPrice ≥ maxEstimatedGas then maxEstimatedGas else 0

/-- `validateAcceptRelayCall` and `validateAcceptDeployCall`. -/
def validateAccept (req : RelayTransactionRequest) : Handler AcceptResult := do
  let externalGasLimit ← getMaxViewableGasLimit req
  if externalGasLimit = 0 then
    return ⟨false, "relayWorker " ++ Server.addressText req.relayData.relayWorker ++
      " does not have enough balance to cover the maximum possible gas for this transaction",
      false, false⟩
  else
    let verifier :=
      if req.isDeployRequest then cfg.deployVerifierAddress else cfg.relayVerifierAddress
    let call := if req.isDeployRequest then "deploy call" else "relayCall"
    let method := if req.isDeployRequest then "deployCall" else "relayCall"
    Async.handle (ask (.verifyRelayedCall verifier req)) fun
      | .error e => return ⟨false, "view call to '" ++ call ++ "' reverted in verifier: " ++ e,
          false, false⟩
      | .ok _ =>
          Async.handle (ask (.viewCall req externalGasLimit)) fun
            | .error e => return ⟨true, "view call to '" ++ method ++ "' reverted in client: " ++ e,
                true, false⟩
            | .ok success => return ⟨true, "", false, !req.isDeployRequest && !success⟩

/-! ## `RelayedTransactionValidator` -/

/-- `readUIntBE` reads at most 6 bytes. -/
def readNonce (nonce : Nat) : Except String Nat :=
  if nonce < 256 ^ 6 then .ok nonce
  else .error "The value of \"byteLength\" is out of range. It must be >= 1 and <= 6."

def validateRelayResponse (req : RelayTransactionRequest) (transaction : SignedTransaction) :
    Except String Bool :=
  if transaction.transaction.to = some cfg.relayHubAddress ∧
      cfg.encodeABI req.method = transaction.transaction.data ∧
      req.relayData.relayWorker = transaction.signer then
    match readNonce transaction.transaction.nonce with
    | .error e => .error e
    | .ok receivedNonce =>
        if (receivedNonce : Int) > req.metadata.relayMaxNonce then
          .error ("Relay used a tx nonce higher than requested. Requested " ++
            toString req.metadata.relayMaxNonce ++ " got " ++ toString receivedNonce)
        else .ok true
  else .ok false

/-! ## Relaying -/

/-- `HttpClient.relayTransaction`. -/
def httpRelayTransaction (relayUrl : String) (req : RelayTransactionRequest) : Handler Bytes := do
  let response ← ask (.sendPromise relayUrl req)
  Async.whenever (response.error ≠ none)
    (Async.throw ("Got error response from relay: " ++ response.error.getD ""))
  match response.signedTx with
  | none => Async.throw "body.signedTx field missing."
  | some signedTx => return signedTx

def saveRelayFailure (relay : Relay) : Handler Unit :=
  Async.modify fun m => { m with relayFailures :=
    m.relayFailures ++ [(relay.relayInfo.relayManager, relay.relayInfo.relayUrl)] }

/-- The client sends the transaction itself unless the node knows it. What comes of it is only
logged. -/
def broadcastRawTx (transaction : SignedTransaction) : Handler Unit :=
  Async.recover
    (do
      let submitted ← ask (.isAlreadySubmitted (cfg.hash transaction))
      Async.whenever (submitted = false) (ask (.sendSignedTransaction transaction)))
    fun _ => return

/-- The part of `attemptRelay` before the request is sent: the request, or why it is not sent. -/
def prepareRequest (relay : Relay) (details : EnvelopingTransactionDetails) :
    Handler (RelayTransactionRequest × Option String) := do
  let req ← (if isDeploy details then prepareDeployHttpRequest cfg relay details
    else prepareRelayHttpRequest cfg relay details)
  let acceptCallResult ← validateAccept cfg req
  -- `decodeRevertReason` keeps texts that are no encoded reasons
  return (req,
    if acceptCallResult.revertedInDestination then
      some ("Destination contract method reverted in local view call : " ++
        acceptCallResult.returnValue)
    else if acceptCallResult.reverted then
      some ("local view call reverted: " ++ acceptCallResult.returnValue)
    else if !acceptCallResult.verifierAccepted then
      some ("verifier rejected in local view call : " ++ acceptCallResult.returnValue)
    else none)

/-- The part of `attemptRelay` after the relay has answered. -/
def takeResponse (relay : Relay) (req : RelayTransactionRequest) (signedTx : Bytes) :
    Handler RelayingAttempt := do
  let transaction ← (.done (cfg.decodeTransaction signedTx) : Handler SignedTransaction)
  let valid ← (.done (validateRelayResponse cfg req transaction) : Handler Bool)
  if !valid then do
    saveRelayFailure relay
    return ⟨none, some "Returned transaction did not pass validation"⟩
  else do
    broadcastRawTx cfg transaction
    return ⟨some transaction, none⟩

def attemptRelay (relay : Relay) (details : EnvelopingTransactionDetails) :
    Handler RelayingAttempt := do
  let prepared ← prepareRequest cfg relay details
  match prepared.2 with
  | some e => return ⟨none, some e⟩
  | none =>
      Async.handle (httpRelayTransaction relay.relayInfo.relayUrl prepared.1) fun
        | .error e => do
            -- other errors are not held against the relay
            Async.whenever (Server.RelayServer.includes e "timeout" = true) (saveRelayFailure relay)
            return ⟨none, some e⟩
        | .ok signedTx => takeResponse cfg relay prepared.1 signedTx

/-- The selection of a transaction. -/
def selection (details : EnvelopingTransactionDetails) : RelaySelectionManager.Config where
  sliceSize := cfg.sliceSize
  onlyPreferredRelays := details.onlyPreferredRelays.getD false
  pingFilter := GasPricePingFilter details.gasPrice

/-- `selectNextRelay`, with the manager afterwards. -/
def selectNext (details : EnvelopingTransactionDetails) (manager : Manager) :
    Handler (Option Relay × Manager) := do
  let races ← ask (.pingRelays (selection cfg details) manager)
  match selectNextRelay (selection cfg details) races.pings manager with
  | none => Async.throw ""
  | some (.error e, _) => Async.throw e
  | some (.ok relayInfo, manager) =>
      return (relayInfo.map fun info => ⟨races.relayWorkerAddress, info.relayInfo⟩, manager)

/-- `set` of a `Map` from URLs to errors. -/
def setError (errors : List (String × String)) (relayUrl e : String) : List (String × String) :=
  if relayUrl ∈ errors.map Prod.fst then
    errors.map fun entry => if entry.1 = relayUrl then (relayUrl, e) else entry
  else errors ++ [(relayUrl, e)]

/-- The details for the next relay. -/
def withTokenGas (estimateTokenGas : Bool) (relay : Relay)
    (details : EnvelopingTransactionDetails) :
    Handler EnvelopingTransactionDetails :=
  if estimateTokenGas then do
    let tokenGas ← estimateTokenTransferGas cfg details relay.relayWorkerAddress
    return { details with tokenGas := some (BitVec.ofNat 256 tokenGas) }
  else return details

/-- The loop of `relayTransaction`. Every turn takes away a relay that is left, so it needs no more
turns than there are relays, and one. -/
def relayLoop (estimateTokenGas : Bool) : ℕ → EnvelopingTransactionDetails → Manager →
    List (String × String) → Handler RelayingResult
  | 0, _, _, _ => Async.throw "more turns than relays"
  | turns + 1, details, manager, relayingErrors => do
      let next ← selectNext cfg details manager
      match next.1 with
      | none => return ⟨none, next.2.errors, relayingErrors⟩
      | some activeRelay => do
          let details ← withTokenGas cfg estimateTokenGas activeRelay details
          -- an error before the request is sent does not end the loop
          let relayingAttempt ← Async.recover (attemptRelay cfg activeRelay details)
            fun e => return ⟨none, some e⟩
          match relayingAttempt.transaction with
          | none =>
              relayLoop estimateTokenGas turns details next.2
                (setError relayingErrors activeRelay.relayInfo.relayUrl
                  (relayingAttempt.error.getD "No error reason was given"))
          | some transaction => return ⟨some transaction, next.2.errors, relayingErrors⟩

def init : Handler Unit := do
  let m ← Async.get
  Async.whenever (m.initialized = false) do
    ask .init
    Async.modify fun m => { m with initialized := true }

/-- The details with gas and gas price. -/
def priced (details : EnvelopingTransactionDetails) : Handler EnvelopingTransactionDetails := do
  let gasPrice ← (match details.forceGasPrice with
    | some gasPrice => return gasPrice
    | none => calculateGasPrice cfg)
  let details := { details with gasPrice := some gasPrice }
  if isDeploy details then
    return { details with gas := some "0x00".toList }
  else if details.gas = none then do
    let internalCallCost ← estimateDestinationContractCallGas details
    return { details with gas := some (toHex internalCallCost) }
  else return details

def relaysLeft (manager : Manager) : List RelayInfoUrl := manager.remainingRelays.flatten

def relayTransaction (details : EnvelopingTransactionDetails) : Handler RelayingResult := do
  init
  ask .refresh
  let estimateTokenGas := details.tokenGas.isNone && decide (details.tokenAmount.getD 0 ≠ 0)
  let details ← priced cfg details
  let relays ← ask .getRelaysSortedForTransaction
  let manager := RelaySelectionManager.init relays.1 relays.2
  Async.assert ((relaysLeft manager).length ≠ 0) "no registered relayers"
  relayLoop cfg estimateTokenGas ((relaysLeft manager).length + 1) details manager []

/-! ## The client as a process -/

inductive Call
  | relayTransaction (details : EnvelopingTransactionDetails)
  | addAccount (keypair : AccountKeypair)

inductive Reply
  | relayed (result : RelayingResult)
  | added

def handler (c : Call) : Handler Reply :=
  match c with
  | .relayTransaction details => do
      let result ← relayTransaction cfg details
      return .relayed result
  | .addAccount keypair => do
      addAccount cfg keypair
      return .added

/-- What the outside may answer: anything, but the pings of a race are those of the relays that are
raced. -/
def mayReply (q : Question) (answer : Except String (Answer q)) : Bool :=
  match q, answer with
  | .pingRelays selection manager, .ok races =>
      (selectNextRelay selection races.pings manager).isSome
  | .pingRelays _ _, .error _ => false
  | _, _ => true

/-- A client, whose calls run beside each other. -/
def client : System Call Memory Question Answer Reply Unit where
  calls _ _ := True
  body _ := handler cfg
  replies _ q answer := mayReply q answer = true
  effect m _ _ _ := m
  moves _ _ := none
  restart _ := none

def Memory.new : Memory := ⟨false, [], []⟩

end RifRelay.RelayClient
