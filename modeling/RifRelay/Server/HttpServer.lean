import RifRelay.Server.Process
import RifRelay.Tasks.Visitors
import Mathlib.Data.Rat.Defs

set_option autoImplicit false

/-! # `HttpServer`: the root endpoint

`rootHandler` calls the property of the server that a body names, with the parameters of the body
as the only argument. So every function of `RelayServer` and of what it inherits from is
reachable: those that only read are `views`, the others `controls`. An argument may be any JSON
value, or missing.
-/

namespace RifRelay.Server

open EventLoop KnownRelaysManager TransactionManager TxStoreManager

/-! ## Values -/

inductive Json
  | null
  | bool (b : Bool)
  | number (x : ℚ)
  | string (s : String)
  | array (l : List Json)
  | object (fields : List (String × Json))

/-- A JSON value or `undefined`. -/
abbrev Value : Type := Option Json

namespace Value

def cannotRead (name what : String) : String :=
  "Cannot read property '" ++ name ++ "' of " ++ what

/-- `v[name]`, for a name that only objects of the body may have. -/
def member (v : Value) (name : String) : Except String Value :=
  match v with
  | none => .error (cannotRead name "undefined")
  | some .null => .error (cannotRead name "null")
  | some (.object fields) => .ok (fields.lookup name)
  | some _ => .ok none

def path (v : Value) (names : List String) : Except String Value := names.foldlM member v

def toLowerCase (v : Value) : Except String String :=
  match v with
  | some (.string s) => .ok s.toLower
  | none => .error (cannotRead "toLowerCase" "undefined")
  | some .null => .error (cannotRead "toLowerCase" "null")
  | some _ => .error "toLowerCase is not a function"

/-- What an `if` takes the value for. -/
def truthy (v : Value) : Bool :=
  match v with
  | none | some .null => false
  | some (.bool b) => b
  | some (.number x) => x ≠ 0
  | some (.string s) => s ≠ ""
  | some (.array _) | some (.object _) => true

/-- The value as a block number that the memory can hold. -/
def blockNumber (v : Value) : Option Nat :=
  match v with
  | some (.number x) => if x.den = 1 ∧ 0 ≤ x.num then some x.num.toNat else none
  | _ => none

end Value

/-- What the endpoint takes from the language and from libraries: `Number` and `parseInt`, with
`none` for `NaN`, the text of a value, the request that the contract calls read from a value, if
all of them can; and the network. -/
structure Environment where
  networkId : Nat
  toNumber : Value → Option ℚ
  parseInt : Value → Option Int
  toText : Value → String
  read : Json → Option RelayTransactionRequest

/-- The body of a request to the root endpoint. The id is only copied into the response. -/
structure Body where
  id : Value
  method : String
  params : Value

def VERSION : String := "2.0.1"

structure PingResponse where
  relayWorkerAddress : Address
  relayManagerAddress : Address
  relayHubAddress : Option Address
  minGasPrice : Nat
  chainId : Word
  networkId : Nat
  ready : Bool
  version : String
deriving DecidableEq

/-- What a function of the server resolves to. `inherited` is what functions of `EventEmitter`
and `Object` say about the server as an object, `itself` is the server. -/
inductive Result
  | undefined
  | code (n : Nat)
  | number (x : Int)
  | flag (b : Bool)
  | ping (response : PingResponse)
  | tokens (response : List (Address × List Address))
  | verifiers (trustedVerifiers : List Address)
  | events (events : List EventData)
  | event (event : EventData)
  | hashes (transactionHashes : List Word)
  | boosted (details : List (Word × SignedTransactionDetails))
  | sent (details : SignedTransactionDetails)
  | inherited
  | itself
deriving DecidableEq

namespace HttpServer

variable {ν : Type} (cfg : Config) (env : Environment)

/-- A function of the server that does not wait. -/
def sync (f : Memory ν → Except String Result) : Handler ν Result := do
  let m ← Async.get
  .done (f m)

/-! ## Requests in bodies -/

/-- `ow.object.exactShape` -/
def exactShape (shape : List (String × (Json → Bool))) (v : Json) : Bool :=
  match v with
  | .object fields =>
      fields.all (fun field => (shape.lookup field.1).any fun check => check field.2) &&
        shape.all fun field => (fields.lookup field.1).isSome
  | _ => false

def isString (v : Json) : Bool :=
  match v with
  | .string _ => true
  | _ => false

def isNumber (v : Json) : Bool :=
  match v with
  | .number _ => true
  | _ => false

def strings (names : List String) : List (String × (Json → Bool)) :=
  names.map fun name => (name, isString)

/-- The shape of a request whose part `request` has the given fields. -/
def requestShape (request : List String) : Json → Bool :=
  exactShape
    [("relayRequest", exactShape
        [("request", exactShape (strings request)),
         ("relayData", exactShape (strings
            ["gasPrice", "domainSeparator", "relayWorker", "callForwarder", "callVerifier"]))]),
     ("metadata", exactShape
        [("relayHubAddress", isString), ("relayMaxNonce", isNumber), ("signature", isString)])]

def DeployTransactionRequestShape : Json → Bool :=
  requestShape ["relayHub", "from", "to", "value", "nonce", "data", "tokenContract",
    "tokenAmount", "tokenGas", "recoverer", "index"]

def RelayTransactionRequestShape : Json → Bool :=
  requestShape ["relayHub", "from", "to", "value", "gas", "nonce", "data", "tokenContract",
    "tokenAmount", "tokenGas"]

def isDeployRequest (req : Value) : Except String Bool := do
  let recoverer ← req.path ["relayRequest", "request", "recoverer"]
  return recoverer.isSome

def validateInputTypes (req : Value) : Except String Unit := do
  let isDeploy ← isDeployRequest req
  if req.any (if isDeploy then DeployTransactionRequestShape else RelayTransactionRequestShape) then
    return
  else .error "ArgumentError"

/-- `validateInput`. The hub contract is there once the server is initialized. -/
def validateInput (req : Value) (m : Memory ν) : Except String Unit := do
  let hubAddress ← req.path ["metadata", "relayHubAddress"]
  let hub ← hubAddress.toLowerCase
  if m.initialized = false then .error (Value.cannotRead "address" "undefined")
  else if hub ≠ addressText cfg.relayHubAddress then
    .error ("Wrong hub address.\nRelay server's hub address: " ++ addressText cfg.relayHubAddress ++
      ", request's hub address: " ++ env.toText hubAddress ++ "\n")
  else
    let relayWorker ← req.path ["relayRequest", "relayData", "relayWorker"]
    let worker ← relayWorker.toLowerCase
    if worker ≠ addressText cfg.workerAddress then
      .error ("Wrong worker address: " ++ env.toText relayWorker ++ "\n")
    else
      let gasPrice ← req.path ["relayRequest", "relayData", "gasPrice"]
      if (env.parseInt gasPrice).any fun n => (m.gasPrice : Int) > n then
        .error ("Unacceptable gasPrice: relayServer's gasPrice:" ++ toString m.gasPrice ++
          " request's gasPrice: " ++ env.toText gasPrice)
      else return

/-- The trusted verifier that a value names. -/
def trustedVerifier (verifier : Value) (m : Memory ν) : Except String (Option Address) := do
  let text ← verifier.toLowerCase
  return m.trustedVerifiers.find? fun a => addressText a = text

def validateVerifier (req : Value) (m : Memory ν) : Except String Unit := do
  let verifier ← req.path ["relayRequest", "relayData", "callVerifier"]
  let trusted ← trustedVerifier verifier m
  if trusted.isSome then return else .error ("Invalid verifier: " ++ env.toText verifier)

/-! ## Functions that only read -/

/-- `pingHandler`. The chain and the hub are known once the server is initialized. -/
def pingHandler (m : Memory ν) : Except String Result :=
  if m.initialized then
    .ok (.ping
      { relayWorkerAddress := cfg.workerAddress
        relayManagerAddress := cfg.managerAddress
        relayHubAddress := some cfg.relayHubAddress
        minGasPrice := m.gasPrice
        chainId := cfg.chainId
        networkId := env.networkId
        ready := RelayServer.isReady cfg m
        version := VERSION })
  else .error (Value.cannotRead "toString" "undefined")

/-- The loop of `tokenHandler`. -/
def acceptedTokens (verifiersToQuery : List Address) :
    Handler ν (List (Address × List Address)) :=
  match verifiersToQuery with
  | [] => return []
  | verifier :: rest => do
      ask (.createTokenHandler verifier)
      let tokens ← ask (.getAcceptedTokens verifier)
      let res ← acceptedTokens rest
      return (verifier, tokens) :: res

def tokenHandler (verifier : Value) : Handler ν Result := do
  let m ← Async.get
  match verifier with
  | none => do
      let res ← acceptedTokens m.trustedVerifiers
      return .tokens res
  | some _ => do
      let trusted ← Async.done (trustedVerifier verifier m)
      match trusted with
      | none => Async.throw "supplied verifier is not trusted"
      | some a => do
          let res ← acceptedTokens [a]
          return .tokens res

/-- `validateRequestWithVerifier`. What a contract call cannot read fails once the verifier is
created. -/
def validateRequestWithVerifier (req : Value) : Handler ν Result := do
  let verifier ← Async.done (req.path ["relayRequest", "relayData", "callVerifier"])
  let m ← Async.get
  let trusted ← Async.done (trustedVerifier verifier m)
  match trusted, req.bind env.read with
  | none, _ => Async.throw "Invalid verifier"
  | some _, some relayReq => do
      let gas ← RelayServer.validateRequestWithVerifier cfg relayReq
      return .number gas
  | some a, none => do
      let _isDeploy ← Async.done (isDeployRequest req)
      Async.recover (ask (.createVerifier a)) fun e => Async.throw (RelayServer.verifierError a e)
      Async.throw "invalid request"

/-- `validateViewCallSucceeds`. The request is the second argument, and missing. -/
def validateViewCallSucceeds (method : Value) : Handler ν Result :=
  let message := match method.member "call" with
    | .error e => e
    | .ok _ => Value.cannotRead "relayRequest" "undefined"
  Async.throw ("relayCall (local call) reverted in server: " ++ message)

/-- `_shouldRegisterAgain` -/
def shouldRegisterAgain (currentBlock : Value) : Handler ν Result := do
  let relayPending ← awaiting .isActionPending (isActionPending .RELAY_CALL none)
  let isPendingActivityTransaction ← (if relayPending then pure true else
    awaiting .isActionPending (isActionPending .REGISTER_SERVER none))
  if cfg.registrationBlockRate = 0 ∨ isPendingActivityTransaction = true then
    return .flag false
  let m ← Async.get
  return .flag ((env.toNumber currentBlock).any fun n =>
    n - (RelayServer.getLatestTxBlockNumber m : ℚ) ≥ (cfg.registrationBlockRate : ℚ))

/-- `_shouldRefreshState` -/
def shouldRefreshState (currentBlock : Value) (m : Memory ν) : Bool :=
  ((env.toNumber currentBlock).any fun n =>
      n - (m.lastRefreshBlock : ℚ) ≥ (cfg.refreshStateTimeoutBlocks : ℚ)) ||
    !RelayServer.isReady cfg m

/-- A function that takes a listener, which the endpoint never passes. -/
def withListener : Handler ν Result :=
  Async.throw "The \"listener\" argument must be of type Function. Received type undefined"

/-- `setMaxListeners`: how many listeners there may be before a warning is written. -/
def setMaxListeners (n : Value) : Handler ν Result :=
  match n with
  | some (.number x) => if 0 ≤ x then return .itself else Async.throw "RangeError"
  | _ => Async.throw "RangeError"

/-- The functions that only read. -/
def views : List (String × (Value → Handler ν Result)) :=
  [("printServerAddresses", fun _ => return .undefined),
   ("getMinGasPrice", fun _ => sync fun m => .ok (.number m.gasPrice)),
   ("isCustomReplenish", fun _ => return .flag cfg.customReplenish),
   ("pingHandler", fun _ => sync (pingHandler cfg env)),
   ("tokenHandler", tokenHandler),
   ("verifierHandler", fun _ => sync fun m => .ok (.verifiers m.trustedVerifiers)),
   ("isDeployRequest", fun req => .done ((isDeployRequest req).map .flag)),
   ("validateInputTypes", fun req => .done ((validateInputTypes req).map fun _ => .undefined)),
   ("validateInput", fun req =>
      sync fun m => (validateInput cfg env req m).map fun _ => .undefined),
   ("validateVerifier", fun req =>
      sync fun m => (validateVerifier env req m).map fun _ => .undefined),
   ("validateRequestWithVerifier", validateRequestWithVerifier cfg env),
   ("validateViewCallSucceeds", validateViewCallSucceeds),
   ("getManagerBalance", fun _ => do
      let balance ← RelayServer.getManagerBalance cfg
      return .number balance),
   ("getWorkerBalance", fun _ => do
      let balance ← RelayServer.getWorkerBalance cfg
      return .number balance),
   ("_shouldRegisterAgain", shouldRegisterAgain cfg env),
   ("_shouldRefreshState", fun currentBlock =>
      sync fun m => .ok (.flag (shouldRefreshState cfg env currentBlock m))),
   -- the events are the second argument
   ("handlePastHubEvents", fun _ => Async.throw "hubEventsSinceLastScan is not iterable"),
   ("getAllHubEventsSinceLastScan", fun _ => do
      let events ← RelayServer.getAllHubEventsSinceLastScan
      return .events events),
   ("_handleTransactionRelayedEvent", fun _ => return .undefined),
   ("_getLatestTxBlockNumber", fun _ =>
      sync fun m => .ok (.number (RelayServer.getLatestTxBlockNumber m))),
   ("_queryLatestActiveEvent", fun _ => do
      let event ← RelayServer.queryLatestActiveEvent
      return event.elim .undefined .event),
   ("isTrustedVerifier", fun verifier =>
      sync fun m => (trustedVerifier verifier m).map fun trusted => .flag trusted.isSome),
   ("isReady", fun _ => sync fun m => .ok (.flag (RelayServer.isReady cfg m))),
   -- `EventEmitter`
   ("on", fun _ => withListener),
   ("addListener", fun _ => withListener),
   ("prependListener", fun _ => withListener),
   ("once", fun _ => withListener),
   ("prependOnceListener", fun _ => withListener),
   ("off", fun _ => withListener),
   ("removeListener", fun _ => withListener),
   ("listeners", fun _ => return .inherited),
   ("rawListeners", fun _ => return .inherited),
   ("listenerCount", fun _ => return .inherited),
   ("eventNames", fun _ => return .inherited),
   ("getMaxListeners", fun _ => return .inherited),
   ("setMaxListeners", setMaxListeners),
   -- `Object`
   ("constructor", fun _ =>
      Async.throw "Class constructor RelayServer cannot be invoked without 'new'"),
   ("hasOwnProperty", fun _ => return .inherited),
   ("isPrototypeOf", fun _ => return .inherited),
   ("propertyIsEnumerable", fun _ => return .inherited),
   ("toString", fun _ => return .inherited),
   ("toLocaleString", fun _ => return .inherited),
   ("valueOf", fun _ => return .itself),
   ("__lookupGetter__", fun _ => return .inherited),
   ("__lookupSetter__", fun _ => return .inherited),
   ("__defineGetter__", fun _ =>
      Async.throw "Object.prototype.__defineGetter__: Expecting function"),
   ("__defineSetter__", fun _ =>
      Async.throw "Object.prototype.__defineSetter__: Expecting function")]

/-! ## Functions that do more -/

/-- `setReadyState` -/
def setReadyState (isReady : Value) : Handler ν Result := do
  Async.modify fun m => { m with ready := isReady.truthy }
  return .undefined

/-- `stop` -/
def stop : Handler ν Result := do
  Async.modify fun m => { m with polling := false }
  return .undefined

def validateMaxNonce (relayMaxNonce : Value) : Handler ν Result := do
  let nonce ← polled cfg.workerAddress
  Async.assert (¬ nonce.any fun n => (env.toNumber relayMaxNonce).any fun x => (n : ℚ) > x)
    ("Unacceptable relayMaxNonce: " ++ env.toText relayMaxNonce ++ ". current nonce: " ++
      toString (nonce.getD 0))
  return .undefined

/-- A function of a block number. -/
def atBlock (f : Nat → Handler ν Result) (blockNumber : Value) : Option (Handler ν Result) :=
  blockNumber.blockNumber.map f

/-- The functions that do more than to read, run by thread `i`; `none` where the memory has no
place for what they would do: for block numbers that are none, a second timer, the listeners,
trusted verifiers or events that are anything, and a replenishment without a block. -/
def controls (i : ℕ) : List (String × (Value → Option (Handler ν Result))) :=
  [("validateMaxNonce", fun relayMaxNonce => some (validateMaxNonce cfg env relayMaxNonce)),
   ("intervalHandler", fun _ => none),
   ("start", fun _ => none),
   ("stop", fun _ => some stop),
   ("_workerSemaphore", atBlock fun blockNumber => do
      RelayServer.workerSemaphore cfg i blockNumber
      return .undefined),
   ("fatal", fun _ => some do
      RelayServer.fatal
      return .undefined),
   ("_initTrustedVerifiers", fun _ => none),
   ("init", fun _ => some do
      RelayServer.init cfg
      return .undefined),
   ("replenishServer", fun _ => none),
   ("_worker", atBlock fun blockNumber => do
      let transactionHashes ← RelayServer.worker cfg blockNumber
      return .hashes transactionHashes),
   ("_refreshGasPrice", fun _ => some do
      RelayServer.refreshGasPrice cfg
      return .undefined),
   ("_handleChanges", atBlock fun blockNumber => do
      let m ← Async.get
      let managerBalance := m.registrationManager.balance
      let transactionHashes ← RelayServer.handleChanges cfg blockNumber managerBalance
      return .hashes transactionHashes),
   ("_handleTransactionRejectedByRecipientEvent", atBlock fun blockNumber => do
      Async.modify (RelayServer.setAlert blockNumber)
      return .undefined),
   ("_updateLatestTxBlockNumber", fun _ => none),
   ("_boostStuckPendingTransactions", atBlock fun blockNumber => do
      let details ← RelayServer.boostStuckPendingTransactions cfg blockNumber
      return .boosted details),
   ("_boostStuckTransactionsForManager", atBlock fun blockNumber => do
      let details ← boostUnderpricedPendingTransactionsForSigner cfg cfg.managerAddress blockNumber
      return .boosted details),
   ("_boostStuckTransactionsForWorker", atBlock fun blockNumber => do
      let details ← boostUnderpricedPendingTransactionsForSigner cfg cfg.workerAddress blockNumber
      return .boosted details),
   ("setReadyState", fun isReady => some (setReadyState isReady)),
   ("emit", fun _ => none),
   ("removeAllListeners", fun _ => none)]

/-! ## `createRelayTransaction` -/

/-- The request that `createRelayTransaction` can serve: the value has the shape of one, and the
contract calls can read it. -/
def request (params : Value) : Option RelayTransactionRequest :=
  match validateInputTypes params with
  | .ok () => params.bind env.read
  | .error _ => none

/-- `createRelayTransaction` for what it cannot serve. What has the shape of a request comes to the
calls of contracts, after the nonce was polled, and fails there. -/
def refuse (params : Value) : Handler ν Result := do
  let m ← Async.get
  Async.assert (RelayServer.isReady cfg m = true) "relay not ready"
  Async.done (validateInputTypes params)
  Async.whenever (m.alerted = true) (ask .sleep)
  let m ← Async.get
  Async.done (validateInput cfg env params m)
  let relayMaxNonce ← Async.done (params.path ["metadata", "relayMaxNonce"])
  let _ ← awaiting .validateMaxNonce (validateMaxNonce cfg env relayMaxNonce)
  awaiting .validateRequestWithVerifier (validateRequestWithVerifier cfg env params)

def createRelayTransaction (params : Value) : Handler ν Result :=
  match request env params with
  | some req => do
      let details ← RelayServer.createRelayTransaction cfg req
      return .sent details
  | none => refuse cfg env params

/-! ## The endpoint -/

/-- The properties of the server that are no functions. Some are missing until `init` sets them;
to call one is an error either way. -/
def fields : List String :=
  ["lastScannedBlock", "lastRefreshBlock", "ready", "lastSuccessfulRounds", "managerAddress",
    "workerAddress", "gasPrice", "_workerSemaphoreOn", "alerted", "alertedBlock", "initialized",
    "contractInteractor", "versionManager", "workerTask", "config", "transactionManager",
    "txStoreManager", "lastMinedActiveTransaction", "registrationManager", "chainId", "networkId",
    "relayHubContract", "trustedVerifiers", "workerBalanceRequired", "customReplenish", "_events",
    "_eventsCount", "_maxListeners", "__proto__"]

/-- `func.apply(this.backend, [params])` for `func = this.backend[method]`, run by thread `i`. -/
def apply (i : ℕ) (method : String) (params : Value) : Option (Handler ν Result) :=
  if method = "createRelayTransaction" then some (createRelayTransaction cfg env params)
  else
    match (views cfg env).lookup method, (controls cfg env i).lookup method with
    | some f, _ => some (f params)
    | none, some f => f params
    | none, none => some (Async.throw (if method ∈ fields then "func.apply is not a function"
        else "Implementation of method " ++ env.toText params ++ " not found on backend!"))

/-- `rootHandler`: what is awaited, or `{ code: 200 }` for nothing. -/
def rootHandler (i : ℕ) (body : Body) : Option (Handler ν Result) :=
  (apply cfg env i body.method body.params).map fun func => do
    let res ← func
    return if res = .undefined then .code 200 else res

/-- What is handed to `createRelayTransaction`, as visits: a request that can be served is a call of
the server. -/
def relayRequests : Visitors Call Value (Memory ν) Question Answer Result where
  amounts params := (request env params).map .createRelayTransaction
  admits _ := True
  body _ params := refuse cfg env params

/-- The bodies as visits. A body that names `createRelayTransaction` amounts to handing it the
parameters; a body may come if the memory has a place for what its function does. -/
def visitors : Visitors (Call ⊕ Value) Body (Memory ν) Question Answer Result where
  amounts body :=
    if body.method = "createRelayTransaction" then some (.inr body.params) else none
  admits body := (rootHandler cfg env 0 body : Option (Handler ν Result)).isSome = true
  body i body := (rootHandler cfg env i body).getD (Async.throw "not admitted")

end HttpServer

variable {ν ω : Type} (cfg : Config) (env : Environment) (N : Node ν ω)

/-- The server without the root endpoint. Anything may be handed to `createRelayTransaction`, as the
endpoint `/relay` does. -/
def relayServer : System (Call ⊕ Value) (Memory ν) Question Answer (Reply ⊕ Result) ω :=
  (server cfg N).opened (HttpServer.relayRequests cfg env)

/-- The server with the root endpoint. -/
def httpServer :
    System ((Call ⊕ Value) ⊕ Body) (Memory ν) Question Answer ((Reply ⊕ Result) ⊕ Result) ω :=
  (relayServer cfg env N).opened (HttpServer.visitors cfg env)

end RifRelay.Server
