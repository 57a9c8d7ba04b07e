import RifRelay.Server.ServerConfigParams

set_option autoImplicit false

/-! # Where the configuration comes from

A command line gives texts for some of the keys, and so do the environment and a configuration
file. What is given for a key is what the first of them has.

* `explicitType_number_iff` — when a number is read as it was given;
* `parseServerConfig_iff` — every key has what is given for it, and the numbers are those that are
  given if and only if each of them is read so.
-/

namespace RifRelay

open Doubles Numerals

namespace ServerConfigParams

/-! ## The sources -/

def IsKey (key : Text) : Prop := (ConfigParamsTypes.lookup key).isSome = true

/-- `--key=text`, or `--key text`. -/
structure CommandOption where
  key : Text
  text : Text
  joined : Bool

def CommandOption.args (o : CommandOption) : List Text :=
  if o.joined then ["--".toList ++ o.key ++ "=".toList ++ o.text]
  else ["--".toList ++ o.key, o.text]

/-- A command line over the known keys: each at most once. A text on its own that starts with a
minus would be another option. -/
structure CommandLine where
  options : List CommandOption
  nodup : (options.map CommandOption.key).Nodup
  known : ∀ o ∈ options, IsKey o.key
  separate : ∀ o ∈ options, o.joined = false → o.text.head? ≠ some '-'

def CommandLine.args (commandLine : CommandLine) : List Text :=
  commandLine.options.flatMap CommandOption.args

def CommandLine.text (commandLine : CommandLine) (key : Text) : Option Text :=
  (commandLine.options.find? fun o => decide (o.key = key)).map CommandOption.text

/-- `Number(t)`, where `t` is a numeral. -/
def toNumber (t : Text) : Number := ((readNumeral t).map fun m => ofRat m.value).getD (.finite 0)

/-- What the library makes of the text of an option. -/
def Minimist.argument (lib : Minimist) (key t : Text) : Value :=
  if lib.isNumber t ∧ key ∉ filterType ConfigParamsTypes .string then .number (toNumber t)
  else .text t

/-- What the library promises for a command line: texts that look like numbers are numbers, unless
the key is one of texts, and the default values stand in for the options that are not there. -/
structure Minimist.Documented (lib : Minimist) (commandLine : CommandLine)
    (default : JsObject Value) : Prop where
  numeral : ∀ t, lib.isNumber t = true → (readNumeral t).isSome = true
  positional : (lib.parseArgs commandLine.args (filterType ConfigParamsTypes .string)
    default).positional = []
  options : ∀ key t, commandLine.text key = some t →
    (lib.parseArgs commandLine.args (filterType ConfigParamsTypes .string) default).members.get
      key = some (lib.argument key t)
  defaults : ∀ key, IsKey key → commandLine.text key = none →
    (lib.parseArgs commandLine.args (filterType ConfigParamsTypes .string) default).members.get
      key = default.get key

inductive Given
  | argument (t : Text)
  | variable (t : Text)
  | file (j : JsonValue)

variable (lib : Minimist) (files : Files) (commandLine : CommandLine) (env : JsObject Text)

/-- The file that the command line or the environment names. -/
def configFile : Option (JsObject JsonValue) :=
  match (commandLine.text "config".toList).or (env.get "config".toList) with
  | none => none
  | some configFileName =>
      match files configFileName with
      | some (.ok file) => some file
      | _ => none

/-- What is given for a key. -/
def given (key : Text) : Option Given :=
  ((commandLine.text key).map Given.argument).or (((env.get key).map Given.variable).or
    (((configFile files commandLine env).bind fun file => file.get key).map Given.file))

def Given.value (key : Text) : Given → Value
  | .argument t => lib.argument key t
  | .variable t => .text t
  | .file j => j.value

/-- The number that is given, where it is one. -/
def Given.number : Given → Option ℚ
  | .argument t => (readNumeral t).map Numeral.value
  | .variable t => (readNumeral t).map Numeral.value
  | .file (.text t) => (readNumeral t).map Numeral.value
  | .file (.number q) => some q
  | .file (.boolean _) => none
  | .file (.other _) => none

/-! ## What is read as it was given -/

/-- A numeral without fraction and exponent, of an integer with 53 bits. -/
def ExactText (t : Text) : Prop :=
  ∃ m, readNumeral t = some m ∧ m.Plain ∧ Representable m.integer

/-- An integer with 53 bits below `10 ^ 21`. -/
def ExactNumber (q : ℚ) : Prop := ∃ z : ℤ, q = z ∧ Representable q ∧ z.natAbs < 10 ^ 21

def Given.Exact : Given → Prop
  | .argument t =>
      if lib.isNumber t then ∃ m, readNumeral t = some m ∧ ExactNumber m.value else ExactText t
  | .variable t => ExactText t
  | .file (.text t) => ExactText t
  | .file (.number q) => ExactNumber q
  | .file (.boolean _) => False
  | .file (.other _) => False

variable {lib files commandLine env} {key t : Text} {q : ℚ} {r : Number}

/-- A text is read as the number it says if and only if it is exact. -/
theorem parseInt_text_iff (h : parseInt t = some r) :
    (∃ q, (readNumeral t).map Numeral.value = some q ∧ r = .finite q) ↔ ExactText t := by
  have hr : r = ofRat (leadingInteger t).value := by
    simp only [parseInt] at h
    split at h
    · cases h
    · exact (Option.some.inj h).symm
  constructor
  · rintro ⟨q, hq, hfinite⟩
    obtain ⟨m, hm, rfl⟩ := Option.map_eq_some_iff.mp hq
    rw [hr, readNumeral_leading hm] at hfinite
    exact ⟨m, hm, (rounded_value_iff m).mp hfinite⟩
  · rintro ⟨m, hm, hexact⟩
    refine ⟨m.value, by rw [hm]; rfl, ?_⟩
    rw [hr, readNumeral_leading hm]
    exact (rounded_value_iff m).mpr hexact

/-- A number is read as it is if and only if it is exact. -/
theorem parseInt_number_iff (h : parseInt (numberText (ofRat q)) = some r) :
    r = .finite q ↔ ExactNumber q := by
  constructor
  · rintro rfl
    obtain ⟨z, hz⟩ := parseInt_int h
    have hrep : Representable q := by
      simp only [parseInt] at h
      split at h
      · cases h
      · exact representable_of_ofRat (Option.some.inj h)
    refine ⟨z, hz, hrep, ?_⟩
    by_contra hlarge
    rw [ofRat_of_representable hrep, hz] at h
    exact parseInt_text_large (not_lt.mp hlarge) h
  · rintro ⟨z, rfl, hrep, hlt⟩
    rw [ofRat_of_representable hrep, parseInt_text hrep hlt] at h
    exact (Option.some.inj h).symm

theorem keys_nodup : (ConfigParamsTypes.map Prod.fst).Nodup := by decide +kernel

theorem memberType_of_lookup {type : ParamType} (h : ConfigParamsTypes.lookup key = some type) :
    memberType key = some (.declared type) := by
  rw [memberType, h]

theorem not_string_of_number (h : ConfigParamsTypes.lookup key = some .number) :
    key ∉ filterType ConfigParamsTypes .string := by
  intro hmem
  obtain ⟨e, he, hkey⟩ := List.mem_flatMap.mp hmem
  split at hkey
  · next htype =>
      obtain rfl := List.mem_singleton.mp hkey
      have hlookup := JsObject.lookup_of_mem keys_nodup he
      rw [h, htype] at hlookup
      cases hlookup
  · cases hkey

/-- What is made of a value of a number. -/
theorem explicitType_number (h : ConfigParamsTypes.lookup key = some .number) {val v : Value}
    (hv : explicitType (key, val) = .ok (key, v)) :
    ∃ r, parseInt val.shown = some r ∧ v = .number r := by
  simp only [explicitType, memberType_of_lookup h] at hv
  split at hv
  · next r hr =>
      obtain rfl := (Prod.mk.inj (Except.ok.inj hv)).2
      exact ⟨r, hr, rfl⟩
  · cases hv

/-- **When a number is read as it was given.** -/
theorem explicitType_number_iff (hlib : ∀ t, lib.isNumber t = true → (readNumeral t).isSome = true)
    (h : ConfigParamsTypes.lookup key = some .number) {g : Given} {v : Value}
    (hv : explicitType (key, g.value lib key) = .ok (key, v)) :
    (∃ q, g.number = some q ∧ v = .number (.finite q)) ↔ g.Exact lib := by
  obtain ⟨r, hr, rfl⟩ := explicitType_number h hv
  simp only [Value.number.injEq]
  cases g with
  | «variable» t => exact parseInt_text_iff hr
  | argument t =>
      by_cases hnumber : lib.isNumber t = true
      · obtain ⟨m, hm⟩ := Option.isSome_iff_exists.mp (hlib t hnumber)
        have hvalue : (Given.argument t).value lib key = .number (ofRat m.value) := by
          rw [Given.value, Minimist.argument, if_pos ⟨hnumber, not_string_of_number h⟩, toNumber,
            hm]
          rfl
        rw [hvalue] at hr
        simp only [Given.number, Given.Exact, if_pos hnumber, hm, Option.map_some,
          Option.some.injEq, exists_eq_left']
        exact parseInt_number_iff hr
      · have hvalue : (Given.argument t).value lib key = .text t := by
          rw [Given.value, Minimist.argument, if_neg fun hboth => hnumber hboth.1]
        rw [hvalue] at hr
        rw [Given.Exact, if_neg hnumber]
        exact parseInt_text_iff hr
  | file j =>
      cases j with
      | text t => exact parseInt_text_iff hr
      | number q =>
          simp only [Given.number, Given.Exact, Option.some.injEq, exists_eq_left']
          exact parseInt_number_iff hr
      | boolean b =>
          refine iff_of_false ?_ id
          rintro ⟨q, hq, -⟩
          cases hq
      | other shown =>
          refine iff_of_false ?_ id
          rintro ⟨q, hq, -⟩
          cases hq

/-! ## What every key has -/

theorem explicitType_key (e e' : Text × Value) (h : explicitType e = .ok e') : e'.1 = e.1 := by
  obtain ⟨key, val⟩ := e
  simp only [explicitType] at h
  split at h
  · cases h
  · split at h
    · rw [← Except.ok.inj h]
    · split at h
      · rw [← Except.ok.inj h]
      · cases h
  · split at h
    · rw [← Except.ok.inj h]
    · cases h
  · rw [← Except.ok.inj h]

theorem memberType_isSome (h : IsKey key) : (memberType key).isSome = true := by
  obtain ⟨type, htype⟩ := Option.isSome_iff_exists.mp h
  rw [memberType_of_lookup htype]
  rfl

/-- What the command line and the environment have for a key. -/
theorem get_argv (hlib : lib.Documented commandLine ((filterMembers env).map Value.text))
    (hkey : IsKey key) :
    (lib.parseArgs commandLine.args (filterType ConfigParamsTypes .string)
      ((filterMembers env).map Value.text)).members.get key =
      ((commandLine.text key).map (lib.argument key)).or ((env.get key).map Value.text) := by
  cases htext : commandLine.text key with
  | some t => exact hlib.options key t htext
  | none =>
      have hfilter := JsObject.get_filter env (fun key => (memberType key).isSome)
        (memberType_isSome hkey)
      rw [hlib.defaults key hkey htext, JsObject.get_map, filterMembers, hfilter]
      rfl

theorem argument_config (t : Text) : lib.argument "config".toList t = .text t := by
  have hstring : "config".toList ∈ filterType ConfigParamsTypes .string :=
    List.mem_flatMap.mpr ⟨("config".toList, .string), List.mem_cons_self, List.mem_cons_self⟩
  rw [Minimist.argument, if_neg fun hboth => hboth.2 hstring]

/-- The configuration file is the one that is named. -/
theorem get_readConfigFile {file : JsObject Value}
    (hlib : lib.Documented commandLine ((filterMembers env).map Value.text))
    (h : readConfigFile files ((lib.parseArgs commandLine.args
      (filterType ConfigParamsTypes .string) ((filterMembers env).map Value.text)).members.get
        "config".toList) = .ok file) (key : Text) :
    file.get key = ((configFile files commandLine env).bind fun file => file.get key).map
      JsonValue.value := by
  have hconfig : IsKey "config".toList := by
    have hlookup := JsObject.lookup_of_mem keys_nodup (e := ("config".toList, .string))
      List.mem_cons_self
    rw [IsKey, hlookup]
    rfl
  have hname : ((commandLine.text "config".toList).map (lib.argument "config".toList)).or
      ((env.get "config".toList).map Value.text) =
        ((commandLine.text "config".toList).or (env.get "config".toList)).map Value.text := by
    cases commandLine.text "config".toList with
    | none => rfl
    | some t => exact congrArg some (argument_config t)
  rw [get_argv hlib hconfig, hname] at h
  unfold configFile
  cases hsource : (commandLine.text "config".toList).or (env.get "config".toList) with
  | none =>
      rw [hsource] at h
      obtain rfl := Except.ok.inj h
      rfl
  | some name =>
      rw [hsource, Option.map_some, readConfigFile] at h
      have hshown : (Value.text name).shown = name := rfl
      rw [hshown] at h
      cases hfile : files name with
      | none =>
          rw [hfile] at h
          cases h
      | some content =>
          rw [hfile] at h
          cases content with
          | error message => cases h
          | ok members =>
              obtain rfl := Except.ok.inj h
              simp only [hfile, Option.bind_some]
              exact JsObject.get_map _ _ _

/-- What is given for a key is what is converted. -/
theorem parseServerConfig_get {config : JsObject Value}
    (hlib : lib.Documented commandLine ((filterMembers env).map Value.text))
    (h : parseServerConfig lib files commandLine.args env = .ok config) (hkey : IsKey key) :
    (given files commandLine env key = none ∧ config.get key = none) ∨
      ∃ g v, given files commandLine env key = some g ∧ config.get key = some v ∧
        explicitType (key, g.value lib key) = .ok (key, v) := by
  simp only [parseServerConfig] at h
  split at h
  · cases h
  · split at h
    · cases h
    · next file hfile =>
        have hfileget := get_readConfigFile hlib hfile key
        have hget := JsObject.get_spread file (lib.parseArgs commandLine.args
          (filterType ConfigParamsTypes .string) ((filterMembers env).map Value.text)).members key
        rw [get_argv hlib hkey, hfileget] at hget
        have hgiven : (given files commandLine env key).map (Given.value lib key) =
            (JsObject.spread file (lib.parseArgs commandLine.args (filterType ConfigParamsTypes
              .string) ((filterMembers env).map Value.text)).members).get key := by
          rw [hget, given]
          cases commandLine.text key with
          | some t => rfl
          | none =>
              cases env.get key with
              | some t => rfl
              | none =>
                  cases (configFile files commandLine env).bind fun file => file.get key with
                  | some j => rfl
                  | none => rfl
        rcases JsObject.get_mapEntries explicitType_key h key with ⟨hnone, hout⟩ |
          ⟨val, v, hval, hout, hconvert⟩
        · rw [← hgiven, Option.map_eq_none_iff] at hnone
          exact .inl ⟨hnone, hout⟩
        · rw [← hgiven] at hval
          obtain ⟨g, hg, rfl⟩ := Option.map_eq_some_iff.mp hval
          exact .inr ⟨g, v, hg, hout, hconvert⟩

/-- **Configuration** that is accepted: every key has what is given for it, by the command line if
it has the key, else by the environment, else by the file, and every number is the one that is given
if and only if all the numbers that are given are exact. -/
theorem parseServerConfig_iff {config : JsObject Value}
    (hlib : lib.Documented commandLine ((filterMembers env).map Value.text))
    (h : parseServerConfig lib files commandLine.args env = .ok config) :
    (∀ key, IsKey key →
      (given files commandLine env key = none → config.get key = none) ∧
      ∀ g, given files commandLine env key = some g →
        ∃ v, explicitType (key, g.value lib key) = .ok (key, v) ∧ config.get key = some v) ∧
    ((∀ key, ConfigParamsTypes.lookup key = some .number →
        ∀ g, given files commandLine env key = some g →
          ∃ q, g.number = some q ∧ config.get key = some (.number (.finite q))) ↔
      ∀ key, ConfigParamsTypes.lookup key = some .number →
        ∀ g, given files commandLine env key = some g → g.Exact lib) := by
  have hsources : ∀ key, IsKey key → ∀ g, given files commandLine env key = some g →
      ∃ v, explicitType (key, g.value lib key) = .ok (key, v) ∧ config.get key = some v := by
    intro key hkey g hg
    rcases parseServerConfig_get hlib h hkey with ⟨hnone, -⟩ | ⟨g', v, hg', hv, hconvert⟩
    · rw [hg] at hnone
      cases hnone
    · obtain rfl : g = g' := Option.some.inj (hg.symm.trans hg')
      exact ⟨v, hconvert, hv⟩
  refine ⟨fun key hkey => ⟨fun hnone => ?_, hsources key hkey⟩, ?_⟩
  · rcases parseServerConfig_get hlib h hkey with ⟨-, hout⟩ | ⟨g, v, hg, -, -⟩
    · exact hout
    · rw [hg] at hnone
      cases hnone
  · refine forall₂_congr fun key hkey => forall₂_congr fun g hg => ?_
    have hknown : IsKey key := by
      rw [IsKey, hkey]
      rfl
    obtain ⟨v, hconvert, hv⟩ := hsources key hknown g hg
    rw [← explicitType_number_iff hlib.numeral hkey hconvert, hv]
    simp only [Option.some.injEq]

/-! ## A server -/

def splitOption : Text → Option (Text × Text)
  | '-' :: '-' :: rest =>
      if '=' ∈ rest then
        some (rest.takeWhile fun c => c != '=', (rest.dropWhile fun c => c != '=').drop 1)
      else none
  | _ => none

/-- A library for options of the form `--key=text`. -/
def joinedOptions : Minimist where
  isNumber t := (readNumeral t).isSome && !t.any isSpace
  parseArgs args strings default :=
    { positional := args.filter fun arg => (splitOption arg).isNone
      members := default.spread (.ofEntries ((args.filterMap splitOption).map fun o =>
        (o.1, if ((readNumeral o.2).isSome && !o.2.any isSpace) = true ∧ o.1 ∉ strings then
            .number (toNumber o.2)
          else .text o.2))) }

def serverOptions : CommandLine where
  options := [⟨"config".toList, "server.json".toList, true⟩, ⟨"port".toList, "8090".toList, true⟩]
  nodup := by decide +kernel
  known := by
    have hkeys : (ConfigParamsTypes.lookup "config".toList).isSome = true ∧
        (ConfigParamsTypes.lookup "port".toList).isSome = true := by decide +kernel
    intro o ho
    rcases List.mem_cons.mp ho with rfl | ho
    · exact hkeys.1
    · obtain rfl := List.mem_singleton.mp ho
      exact hkeys.2
  separate := by
    intro o ho hjoined
    rcases List.mem_cons.mp ho with rfl | ho
    · cases hjoined
    · obtain rfl := List.mem_singleton.mp ho
      cases hjoined

def serverEnv : JsObject Text :=
  .ofEntries [("workerMinBalance".toList, "1000000000000000".toList), ("HOME".toList, "/".toList)]

def serverFiles : Files := fun name =>
  if name = "server.json".toList then
    some (.ok (.ofEntries [("port".toList, .number 1), ("checkInterval".toList, .number 5000)]))
  else none

def serverTexts : List (Text × Text) :=
  [("config".toList, "server.json".toList), ("port".toList, "8090".toList)]

theorem CommandLine.text_eq_lookup (commandLine : CommandLine) (key : Text) :
    commandLine.text key = (commandLine.options.map fun o => (o.key, o.text)).lookup key := by
  unfold CommandLine.text
  induction commandLine.options with
  | nil => rfl
  | cons o rest ih =>
      rw [List.find?_cons, List.map_cons, List.lookup_cons]
      by_cases hkey : o.key = key
      · rw [decide_eq_true hkey, hkey, beq_self_eq_true]
        rfl
      · rw [decide_eq_false hkey, beq_false_of_ne (Ne.symm hkey)]
        exact ih

theorem serverOptions_text (key : Text) : serverOptions.text key = serverTexts.lookup key :=
  serverOptions.text_eq_lookup key

theorem serverOptions_split : serverOptions.args.filterMap splitOption = serverTexts ∧
    serverOptions.args.filter (fun arg => (splitOption arg).isNone) = [] := by
  decide +kernel

/-- The library reads the command line as it promises. -/
theorem serverOptions_documented (default : JsObject Value) :
    joinedOptions.Documented serverOptions default := by
  have hget : ∀ key, (joinedOptions.parseArgs serverOptions.args
      (filterType ConfigParamsTypes .string) default).members.get key =
      ((serverOptions.text key).map (joinedOptions.argument key)).or (default.get key) := by
    intro key
    have hmembers : (joinedOptions.parseArgs serverOptions.args
        (filterType ConfigParamsTypes .string) default).members = default.spread
          (.ofEntries (serverTexts.map fun o => (o.1, joinedOptions.argument o.1 o.2))) := by
      rw [← serverOptions_split.1]
      rfl
    have hkeys : ((serverTexts.map fun o => (o.1, joinedOptions.argument o.1 o.2)).map
        Prod.fst).Nodup := by
      show ["config".toList, "port".toList].Nodup
      decide +kernel
    have hlookup : (serverTexts.map fun o => (o.1, joinedOptions.argument o.1 o.2)).lookup key =
        (serverTexts.lookup key).map (joinedOptions.argument key) := by
      induction serverTexts with
      | nil => rfl
      | cons o rest ih =>
          rw [List.map_cons, List.lookup_cons, List.lookup_cons]
          by_cases hkey : key = o.1
          · rw [hkey, beq_self_eq_true]
            rfl
          · rw [beq_false_of_ne hkey]
            exact ih
    rw [hmembers, JsObject.get_spread, JsObject.get_ofEntries hkeys, hlookup, serverOptions_text]
  refine ⟨fun t ht => ?_, serverOptions_split.2, fun key t ht => ?_, fun key _ ht => ?_⟩
  · exact (Bool.and_eq_true_iff.mp ht).1
  · rw [hget, ht]
    rfl
  · rw [hget, ht]
    rfl

/-- A configuration from all three sources. -/
theorem parseServerConfig_iff_server : ∃ config,
    parseServerConfig joinedOptions serverFiles serverOptions.args serverEnv = .ok config ∧
      (∀ key, IsKey key →
        (given serverFiles serverOptions serverEnv key = none → config.get key = none) ∧
        ∀ g, given serverFiles serverOptions serverEnv key = some g →
          ∃ v, explicitType (key, g.value joinedOptions key) = .ok (key, v) ∧
            config.get key = some v) ∧
      ((∀ key, ConfigParamsTypes.lookup key = some .number →
          ∀ g, given serverFiles serverOptions serverEnv key = some g →
            ∃ q, g.number = some q ∧ config.get key = some (.number (.finite q))) ↔
        ∀ key, ConfigParamsTypes.lookup key = some .number →
          ∀ g, given serverFiles serverOptions serverEnv key = some g →
            g.Exact joinedOptions) := by
  have hok : (parseServerConfig joinedOptions serverFiles serverOptions.args serverEnv).toBool =
      true := by decide +kernel
  cases h : parseServerConfig joinedOptions serverFiles serverOptions.args serverEnv with
  | error message =>
      rw [h] at hok
      cases hok
  | ok config =>
      exact ⟨config, rfl, parseServerConfig_iff (serverOptions_documented _) h⟩

/-! ## A balance that is cut off -/

def noOptions : CommandLine where
  options := []
  nodup := List.nodup_nil
  known o ho := by cases ho
  separate o ho := by cases ho

theorem noOptions_documented (default : JsObject Value) :
    joinedOptions.Documented noOptions default := by
  refine ⟨fun t ht => (Bool.and_eq_true_iff.mp ht).1, rfl, fun key t ht => ?_, fun key _ _ => ?_⟩
  · cases ht
  · exact JsObject.get_spread default .empty key

def scientificEnv : JsObject Text := .ofEntries [("workerMinBalance".toList, "1e15".toList)]

/-- From the environment, `1e15` is read as one. -/
theorem scientific_balance :
    ¬ ∀ (lib : Minimist) (files : Files) (commandLine : CommandLine) (env : JsObject Text)
      (config : JsObject Value),
      lib.Documented commandLine ((filterMembers env).map Value.text) →
      parseServerConfig lib files commandLine.args env = .ok config →
      ∀ key, ConfigParamsTypes.lookup key = some .number →
        ∀ g, given files commandLine env key = some g →
          ∃ q, g.number = some q ∧ config.get key = some (.number (.finite q)) := by
  intro hclaim
  have hread : ((parseServerConfig joinedOptions (fun _ => none) noOptions.args
      scientificEnv).toOption.bind fun config => config.get "workerMinBalance".toList) =
        some (.number (.finite 1)) := by decide +kernel
  have htype : ConfigParamsTypes.lookup "workerMinBalance".toList = some .number := by
    decide +kernel
  have hgiven : given (fun _ => none) noOptions scientificEnv "workerMinBalance".toList =
      some (.variable "1e15".toList) := by
    have hget : scientificEnv.get "workerMinBalance".toList = some "1e15".toList := by
      decide +kernel
    have htext : noOptions.text "workerMinBalance".toList = none := rfl
    rw [given, htext, hget]
    rfl
  have hnumber : (readNumeral "1e15".toList).map Numeral.value = some (10 ^ 15) := by
    decide +kernel
  cases h : parseServerConfig joinedOptions (fun _ => none) noOptions.args scientificEnv with
  | error message =>
      rw [h] at hread
      cases hread
  | ok config =>
      rw [h] at hread
      obtain ⟨q, hq, hconfig⟩ := hclaim joinedOptions (fun _ => none) noOptions scientificEnv config
        (noOptions_documented _) h "workerMinBalance".toList htype _ hgiven
      obtain rfl : 10 ^ 15 = q := Option.some.inj (hnumber.symm.trans hq)
      have hone : config.get "workerMinBalance".toList = some (.number (.finite 1)) := hread
      rw [hone] at hconfig
      have hvalue := Number.finite.inj (Value.number.inj (Option.some.inj hconfig))
      norm_num at hvalue

end ServerConfigParams

end RifRelay
