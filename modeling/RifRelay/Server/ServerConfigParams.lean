import RifRelay.Basic.JsObjects
import RifRelay.Basic.Numerals

set_option autoImplicit false

/-! # The configuration of the server

`parseServerConfig` merges the command line, the environment and the configuration file and
converts every value to the type of its key. `Minimist` is what it uses of the library that reads
the command line, and the configuration files are a function from their names.
-/

namespace RifRelay

open Doubles Numerals

namespace ServerConfigParams

/-! ## Values -/

/-- A value: a text, a number, a boolean, or something else (`null`, an array or an object), of
which only its text is used. -/
inductive Value
  | text (t : Text)
  | number (x : Number)
  | boolean (b : Bool)
  | other (shown : Text)
deriving DecidableEq

/-- The conversion to a text. -/
def Value.shown : Value → Text
  | .text t => t
  | .number x => numberText x
  | .boolean true => "true".toList
  | .boolean false => "false".toList
  | .other shown => shown

/-- A value of a configuration file; a number is given by its literal. -/
inductive JsonValue
  | text (t : Text)
  | number (q : ℚ)
  | boolean (b : Bool)
  | other (shown : Text)

/-- What `JSON.parse` makes of it. -/
def JsonValue.value : JsonValue → Value
  | .text t => .text t
  | .number q => .number (ofRat q)
  | .boolean b => .boolean b
  | .other shown => .other shown

/-! ## The types of the keys -/

inductive ParamType
  | string
  | number
  | boolean
deriving DecidableEq

def ParamType.text : ParamType → Text
  | .string => "string".toList
  | .number => "number".toList
  | .boolean => "boolean".toList

def ConfigParamsTypes : List (Text × ParamType) :=
  [("config".toList, .string),
    ("url".toList, .string),
    ("port".toList, .number),
    ("versionRegistryAddress".toList, .string),
    ("versionRegistryDelayPeriod".toList, .number),
    ("relayHubId".toList, .string),
    ("relayHubAddress".toList, .string),
    ("gasPriceFactor".toList, .number),
    ("rskNodeUrl".toList, .string),
    ("workdir".toList, .string),
    ("checkInterval".toList, .number),
    ("readyTimeout".toList, .number),
    ("devMode".toList, .boolean),
    ("customReplenish".toList, .boolean),
    ("logLevel".toList, .number),
    ("registrationBlockRate".toList, .number),
    ("alertedBlockDelay".toList, .number),
    ("workerMinBalance".toList, .number),
    ("workerTargetBalance".toList, .number),
    ("managerMinBalance".toList, .number),
    ("managerTargetBalance".toList, .number),
    ("minHubWithdrawalBalance".toList, .number),
    ("defaultGasLimit".toList, .number),
    ("trustedVerifiers".toList, .string),
    ("relayVerifierAddress".toList, .string),
    ("deployVerifierAddress".toList, .string)]

/-- The names that every object has: `ConfigParamsTypes[key]` is no type there, and not `undefined`
either. -/
def prototypeMembers : List Text :=
  ["__defineGetter__".toList, "__defineSetter__".toList, "__lookupGetter__".toList,
    "__lookupSetter__".toList, "__proto__".toList, "constructor".toList, "hasOwnProperty".toList,
    "isPrototypeOf".toList, "propertyIsEnumerable".toList, "toLocaleString".toList,
    "toString".toList, "valueOf".toList]

inductive Member
  | declared (type : ParamType)
  | inherited

/-- `ConfigParamsTypes[key]`; `none` is `undefined`. -/
def memberType (key : Text) : Option Member :=
  match ConfigParamsTypes.lookup key with
  | some type => some (.declared type)
  | none => if key ∈ prototypeMembers then some .inherited else none

/-- The keys of a type. -/
def filterType (config : List (Text × ParamType)) (type : ParamType) : List Text :=
  config.flatMap fun e => if e.2 = type then [e.1] else []

/-- Only the members that appear in `ConfigParamsTypes`. -/
def filterMembers (env : JsObject Text) : JsObject Text :=
  JsObject.ofEntries (env.members.filter fun e => (memberType e.1).isSome)

def invalid (type : ParamType) (key : Text) (val : Value) : Text :=
  "Invalid ".toList ++ type.text ++ ": ".toList ++ key ++ " = ".toList ++ val.shown

/-- From a value to one of the type of its key. -/
def explicitType : Text × Value → Except Text (Text × Value)
  | (key, val) =>
      match memberType key with
      | none => .error ("unexpected param ".toList ++ key ++ "=".toList ++ val.shown)
      | some (.declared .boolean) =>
          if val = .text "true".toList ∨ val = .boolean true then .ok (key, .boolean true)
          else if val = .text "false".toList ∨ val = .boolean false then .ok (key, .boolean false)
          else .error (invalid .boolean key val)
      | some (.declared .number) =>
          match parseInt val.shown with
          | some v => .ok (key, .number v)
          | none => .error (invalid .number key val)
      | some _ => .ok (key, val)

/-! ## The command line -/

/-- `argv`: what has no option, and the options. -/
structure Argv where
  positional : List Text
  members : JsObject Value

/-- The library: which texts look like numbers, and the options of a command line, given the keys
of texts and the default values. -/
structure Minimist where
  isNumber : Text → Bool
  parseArgs : List Text → List Text → JsObject Value → Argv

/-- The files: `none` where there is no file, an error where its text is not read. -/
abbrev Files : Type := Text → Option (Except Text (JsObject JsonValue))

def join (separator : Text) : List Text → Text
  | [] => []
  | [t] => t
  | t :: rest => t ++ separator ++ join separator rest

variable (lib : Minimist) (files : Files)

/-- The content of the configuration file, where one is named. -/
def readConfigFile : Option Value → Except Text (JsObject Value)
  | none => .ok .empty
  | some configFileName =>
      match files configFileName.shown with
      | none =>
          .error ("unable to read config file \"".toList ++ configFileName.shown ++ "\"".toList)
      | some (.error message) => .error message
      | some (.ok configFile) => .ok (configFile.map JsonValue.value)

def parseServerConfig (args : List Text) (env : JsObject Text) : Except Text (JsObject Value) :=
  let envDefaults := (filterMembers env).map Value.text
  let argv := lib.parseArgs args (filterType ConfigParamsTypes .string) envDefaults
  if 0 < argv.positional.length then
    .error ("unexpected param(s) ".toList ++ join ",".toList argv.positional)
  else
    match readConfigFile files (argv.members.get "config".toList) with
    | .error message => .error message
    | .ok configFile => (JsObject.spread configFile argv.members).mapEntries explicitType

end ServerConfigParams

end RifRelay
