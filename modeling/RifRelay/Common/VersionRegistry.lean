import RifRelay.Basic.FirstOccurrences
import RifRelay.Basic.Utf8
import Mathlib.Data.Set.Function
import Mathlib.Data.Rat.Defs
import Mathlib.Algebra.Order.Ring.Rat

set_option autoImplicit false

/-! # `VersionRegistry`

The accessor of the on-chain registry of versions. Identifiers and versions are texts of at most
32 bytes, padded with zeros on the chain (`string32`) and stripped of them again
(`bytes32toString`); the versions of an identifier are read off the events of the contract.
-/

namespace RifRelay

/-! ## `string32` and `bytes32toString` -/

/-- `padEnd` -/
def padEnd (length : Nat) (c : Char) (t : Text) : Text := t ++ List.replicate (length - t.length) c

def string32 (s : Text) : Text := padEnd 66 '0' (Hex.text (Utf8.encode s))

/-- The characters that `.` does not match. -/
def isLineTerminator (c : Char) : Bool := c.toNat ∈ [0x0A, 0x0D, 0x2028, 0x2029]

/-- The text matches `(00)*$`. -/
def zeroPairs : Text → Bool
  | [] => true
  | '0' :: '0' :: rest => zeroPairs rest
  | _ => false

/-- What `(.*?)(00)*$` captures first: it takes as little as it can. -/
def beforeZeroPairs : Text → Text
  | [] => []
  | c :: rest => if zeroPairs (c :: rest) then [] else c :: beforeZeroPairs rest

/-- `s.replace(/^(?:0x)?(.*?)(00)*$/, '$1')` -/
def withoutZeroPairs (s : Text) : Text :=
  if s.any isLineTerminator then s
  else
    match s with
    | '0' :: 'x' :: rest => beforeZeroPairs rest
    | _ => beforeZeroPairs s

/-- `Buffer.from(s, 'hex')` stops where no byte is written. -/
def bufferFromHex : Text → Bytes
  | c :: d :: rest =>
      match Hex.value c, Hex.value d with
      | some x, some y => UInt8.ofNat (x * 16 + y) :: bufferFromHex rest
      | _, _ => []
  | _ => []

def bytes32toString (s : Text) : Text := Utf8.decode (bufferFromHex (withoutZeroPairs s))

/-! ## The round trip -/

theorem bufferFromHex_write (b : Bytes) : bufferFromHex (Hex.write b) = b := by
  induction b with
  | nil => rfl
  | cons x rest ih =>
      have hx : x.toNat < 256 := x.toNat_lt
      have hhigh := Hex.value_digit (x.toNat / 16) (by omega)
      have hlow := Hex.value_digit (x.toNat % 16) (by omega)
      have hbyte : x.toNat / 16 * 16 + x.toNat % 16 = x.toNat := by omega
      show bufferFromHex (Hex.digit _ :: Hex.digit _ :: Hex.write rest) = _
      simp only [bufferFromHex, hhigh, hlow, ih, hbyte, UInt8.ofNat_toNat]

theorem digit_eq_zero : ∀ n, n < 16 → (Hex.digit n = '0' ↔ n = 0) := by decide

theorem zeroPairs_cons_cons (c d : Char) (t : Text) :
    zeroPairs (c :: d :: t) = true ↔ c = '0' ∧ d = '0' ∧ zeroPairs t = true := by
  constructor
  · intro h
    unfold zeroPairs at h
    split at h
    next heq => cases heq
    next heq =>
      simp only [List.cons.injEq] at heq
      obtain ⟨rfl, rfl, rfl⟩ := heq
      exact ⟨rfl, rfl, h⟩
    next => cases h
  · rintro ⟨rfl, rfl, h⟩
    exact h

/-- Pairs have an even length. -/
theorem zeroPairs_even : ∀ {t : Text}, zeroPairs t = true → Even t.length
  | [], _ => ⟨0, rfl⟩
  | [c], h => by
      unfold zeroPairs at h
      split at h
      next heq => cases heq
      next heq => cases heq
      next => cases h
  | c :: d :: rest, h => by
      obtain ⟨-, -, hrest⟩ := (zeroPairs_cons_cons c d rest).mp h
      obtain ⟨k, hk⟩ := zeroPairs_even hrest
      exact ⟨k + 1, by simp only [List.length_cons]; omega⟩

theorem zeroPairs_zeros (k : Nat) : zeroPairs (List.replicate (2 * k) '0') = true := by
  induction k with
  | zero => rfl
  | succ k ih => exact ih

/-- The digits of bytes are pairs of zeros if all the bytes are zero. -/
theorem zeroPairs_write {b : Bytes} {t : Text} (h : zeroPairs (Hex.write b ++ t) = true) :
    ∀ x ∈ b, x = 0 := by
  induction b with
  | nil => exact List.forall_mem_nil _
  | cons x rest ih =>
      have hx : x.toNat < 256 := x.toNat_lt
      obtain ⟨hhigh, hlow, hrest⟩ := (zeroPairs_cons_cons (Hex.digit (x.toNat / 16))
        (Hex.digit (x.toNat % 16)) (Hex.write rest ++ t)).mp h
      rw [digit_eq_zero _ (by omega)] at hhigh hlow
      refine List.forall_mem_cons.mpr ⟨UInt8.toNat_inj.mp ?_, ih hrest⟩
      show x.toNat = 0
      omega

/-- **The match is aligned to bytes.** Zeros after bytes that do not end with a zero byte are all
that is cut off. -/
theorem beforeZeroPairs_write {b : Bytes} (h : b.getLast? ≠ some 0) (k : Nat) :
    beforeZeroPairs (Hex.write b ++ List.replicate (2 * k) '0') = Hex.write b := by
  induction b with
  | nil =>
      show beforeZeroPairs (List.replicate (2 * k) '0') = []
      cases k with
      | zero => rfl
      | succ k =>
          show (if zeroPairs (List.replicate (2 * (k + 1)) '0') then _ else _) = ([] : Text)
          rw [if_pos (zeroPairs_zeros (k + 1))]
  | cons x rest ih =>
      have hbytes : ¬ zeroPairs (Hex.write (x :: rest) ++ List.replicate (2 * k) '0') = true := by
        intro hzero
        have hall := zeroPairs_write hzero
        obtain ⟨last, hlast⟩ := Option.isSome_iff_exists.mp
          (show ((x :: rest).getLast?).isSome = true by simp)
        exact h (hlast.trans (congrArg some (hall last (List.mem_of_getLast? hlast))))
      -- behind the first digit an odd number of characters is left
      have hodd : ¬ zeroPairs (Hex.digit (x.toNat % 16) ::
          (Hex.write rest ++ List.replicate (2 * k) '0')) = true := by
        intro hzero
        obtain ⟨j, hj⟩ := zeroPairs_even hzero
        rw [List.length_cons, List.length_append, Hex.length_write, List.length_replicate] at hj
        omega
      have hrest : rest.getLast? ≠ some 0 := by
        intro hlast
        refine h ?_
        rw [List.getLast?_cons, hlast]
        rfl
      show (if zeroPairs (Hex.write (x :: rest) ++ List.replicate (2 * k) '0') then [] else
        Hex.digit (x.toNat / 16) :: (if zeroPairs (Hex.digit (x.toNat % 16) ::
          (Hex.write rest ++ List.replicate (2 * k) '0')) then [] else
            Hex.digit (x.toNat % 16) ::
              beforeZeroPairs (Hex.write rest ++ List.replicate (2 * k) '0'))) = _
      rw [if_neg hbytes, if_neg hodd, ih hrest]
      rfl

theorem no_lineTerminator : ∀ n, n < 16 → isLineTerminator (Hex.digit n) = false := by decide

/-- A text that fits into 32 bytes, with no zero byte at its end. -/
structure Label where
  text : Text
  short : (Utf8.encode text).length ≤ 32
  trimmed : (Utf8.encode text).getLast? ≠ some 0

/-- What is on the chain. -/
def Label.identifier (l : Label) : Option Word := Hex.word (string32 l.text)

theorem string32_eq (l : Label) : string32 l.text = '0' :: 'x' :: (Hex.write (Utf8.encode l.text) ++
    List.replicate (2 * (32 - (Utf8.encode l.text).length)) '0') := by
  have hshort := l.short
  have hlength : (Hex.text (Utf8.encode l.text)).length = 2 * (Utf8.encode l.text).length + 2 := by
    show (Hex.write (Utf8.encode l.text)).length + 2 = _
    rw [Hex.length_write]
  unfold string32 padEnd
  rw [hlength, show 66 - (2 * (Utf8.encode l.text).length + 2) =
    2 * (32 - (Utf8.encode l.text).length) by omega]
  rfl

theorem withoutZeroPairs_string32 (l : Label) :
    withoutZeroPairs (string32 l.text) = Hex.write (Utf8.encode l.text) := by
  have hlines : (string32 l.text).any isLineTerminator = false := by
    rw [string32_eq, List.any_eq_false]
    intro c hc
    rw [Bool.not_eq_true]
    rcases List.mem_cons.mp hc with rfl | hc
    · rfl
    rcases List.mem_cons.mp hc with rfl | hc
    · rfl
    rcases List.mem_append.mp hc with hc | hc
    · obtain ⟨n, hn, rfl⟩ := Hex.digits_write hc
      exact no_lineTerminator n hn
    · obtain rfl := List.eq_of_mem_replicate hc
      rfl
  unfold withoutZeroPairs
  rw [hlines, string32_eq]
  exact beforeZeroPairs_write l.trimmed _

theorem bytes32toString_string32 (l : Label) : bytes32toString (string32 l.text) = l.text := by
  unfold bytes32toString
  rw [withoutZeroPairs_string32, bufferFromHex_write, Utf8.decode_encode]

/-- The bytes on the chain. -/
def Label.bytes (l : Label) : Bytes :=
  Utf8.encode l.text ++ List.replicate (32 - (Utf8.encode l.text).length) 0

theorem Label.length_bytes (l : Label) : l.bytes.length = 32 := by
  have hshort := l.short
  rw [Label.bytes, List.length_append, List.length_replicate]
  omega

theorem write_zeros (n : Nat) : Hex.write (List.replicate n 0) = List.replicate (2 * n) '0' := by
  induction n with
  | zero => rfl
  | succ n ih =>
      show '0' :: '0' :: Hex.write (List.replicate n 0) = _
      rw [ih]
      rfl

theorem string32_eq_text (l : Label) : string32 l.text = Hex.text l.bytes := by
  rw [string32_eq, ← write_zeros]
  unfold Hex.text Label.bytes Hex.write
  rw [List.flatMap_append]

theorem Label.identifier_eq (l : Label) :
    l.identifier = some (BitVec.ofNat 256 (BigEndian.ofBE l.bytes)) := by
  have h := Hex.number_text l.bytes
  rw [l.length_bytes] at h
  unfold Label.identifier Hex.word
  rw [string32_eq_text, h]
  rfl

theorem Label.ext_text {l l' : Label} (h : l.text = l'.text) : l = l' := by
  cases l
  cases l'
  cases h
  rfl

theorem string32_inj {l l' : Label} (h : string32 l.text = string32 l'.text) : l = l' :=
  Label.ext_text <| by
    calc l.text = bytes32toString (string32 l.text) := (bytes32toString_string32 l).symm
      _ = bytes32toString (string32 l'.text) := by rw [h]
      _ = l'.text := bytes32toString_string32 l'

theorem Label.identifier_inj {l l' : Label} (h : l.identifier = l'.identifier) : l = l' := by
  rw [l.identifier_eq, l'.identifier_eq] at h
  have hwords := congrArg BitVec.toNat (Option.some.inj h)
  have hpow : (256 : Nat) ^ 32 = 2 ^ 256 := by norm_num
  have hlt : ∀ k : Label, BigEndian.ofBE k.bytes < 2 ^ 256 := by
    intro k
    have hlt := BigEndian.ofBE_lt k.bytes
    rwa [k.length_bytes, hpow] at hlt
  rw [BitVec.toNat_ofNat, BitVec.toNat_ofNat, Nat.mod_eq_of_lt (hlt l), Nat.mod_eq_of_lt (hlt l')]
    at hwords
  have hbytes := BigEndian.ofBE_inj (l.length_bytes.trans l'.length_bytes.symm) hwords
  refine string32_inj ?_
  rw [string32_eq_text, string32_eq_text, hbytes]

/-- **Version strings round-trip**, so `string32` is injective on them, and so is what it puts on
the chain. -/
theorem labels_round_trip :
    (∀ l : Label, bytes32toString (string32 l.text) = l.text) ∧
      Set.InjOn string32 (Set.range Label.text) ∧
      (∀ l : Label, ∃ w, l.identifier = some w) ∧ Function.Injective Label.identifier := by
  refine ⟨bytes32toString_string32, ?_, fun l => ⟨_, l.identifier_eq⟩,
    fun l l' h => Label.identifier_inj h⟩
  rintro _ ⟨l, rfl⟩ _ ⟨l', rfl⟩ h
  exact congrArg Label.text (string32_inj h)

-- a low digit of zero stays
example : bytes32toString (string32 ['0', 'p']) = ['0', 'p'] := by decide +kernel

/-! ## The versions of an identifier -/

namespace VersionRegistry

/-- The events of the registry. -/
inductive RegistryEvent
  | VersionAdded (id version : Word) (value : Text) (time : Nat)
  | VersionCanceled (id version : Word) (reason : Text)
deriving DecidableEq

structure VersionInfo where
  value : Text
  version : Text
  time : Nat
  canceled : Bool
  cancelReason : Option Text
deriving DecidableEq

/-- A word as it is returned. -/
def bytes32 (w : Word) : Text := Hex.text (wordBytes w)

def RegistryEvent.id : RegistryEvent → Word
  | .VersionAdded id _ _ _ | .VersionCanceled id _ _ => id

def RegistryEvent.version : RegistryEvent → Word
  | .VersionAdded _ version _ _ | .VersionCanceled _ version _ => version

/-- `getPastEvents` with the topic of an identifier. -/
def getPastEvents (log : List RegistryEvent) (id : Text) : List RegistryEvent :=
  log.filter fun e => bytes32 e.id = string32 id

/-- One turn of the loop that collects the reasons. -/
def noteCanceled (set : Text → Option Text) (e : RegistryEvent) : Text → Option Text :=
  match e with
  | .VersionCanceled _ version reason => Function.update set (bytes32 version) (some reason)
  | .VersionAdded _ _ _ _ => set

def cancelReasons (events : List RegistryEvent) : Text → Option Text :=
  events.foldl noteCanceled fun _ => none

/-- What is made of an event that a version was added. -/
def versionInfo (reasons : Text → Option Text) (e : RegistryEvent) : Option VersionInfo :=
  match e with
  | .VersionAdded _ version value time =>
      some
        { version := bytes32toString (bytes32 version)
          canceled := (reasons (bytes32 version)).isSome
          cancelReason := reasons (bytes32 version)
          value := value
          time := time }
  | .VersionCanceled _ _ _ => none

def getAllVersions (log : List RegistryEvent) (id : Text) : List VersionInfo :=
  let events := getPastEvents log id
  (FirstOccurrences.firsts VersionInfo.version
    (events.filterMap (versionInfo (cancelReasons events)))).reverse

/-- What `getVersion` looks for. -/
def VersionInfo.isUsable (now : Nat) (delayPeriod : ℚ) (optInVersion : Text) (v : VersionInfo) :
    Bool :=
  !v.canceled && (decide (v.time + delayPeriod ≤ now) || v.version == optInVersion)

def getVersion (log : List RegistryEvent) (now : Nat) (id : Text) (delayPeriod : ℚ)
    (optInVersion : Text) : Except String VersionInfo :=
  match (getAllVersions log id).find? (VersionInfo.isUsable now delayPeriod optInVersion) with
  | none => .error ("getVersion(" ++ String.ofList id ++ ") - no version found")
  | some ver => .ok ver

/-! ### What the events say -/

/-- An event that a version was added. -/
structure Addition where
  version : Word
  value : Text
  time : Nat
deriving DecidableEq

def RegistryEvent.addition : RegistryEvent → Option Addition
  | .VersionAdded _ version value time => some ⟨version, value, time⟩
  | .VersionCanceled _ _ _ => none

def additions (events : List RegistryEvent) : List Addition :=
  events.filterMap RegistryEvent.addition

def Canceled (events : List RegistryEvent) (version : Word) : Prop :=
  ∃ id reason, RegistryEvent.VersionCanceled id version reason ∈ events

/-- The word stands for the text. -/
def Names (w : Word) (t : Text) : Prop := ∃ l : Label, l.text = t ∧ l.identifier = some w

/-- The version may be used: it is not cancelled, and it is old enough or was opted in to. -/
def Eligible (events : List RegistryEvent) (now : Nat) (delayPeriod : ℚ) (optInVersion : Text)
    (a : Addition) : Prop :=
  ¬ Canceled events a.version ∧ (a.time + delayPeriod ≤ now ∨ Names a.version optInVersion)

section Resolution

variable {log events : List RegistryEvent} {now : Nat} {id optInVersion t : Text} {delayPeriod : ℚ}
  {w w' : Word}

theorem bytes32_inj (h : bytes32 w = bytes32 w') : w = w' := by
  have hdigits : Hex.write (wordBytes w) = Hex.write (wordBytes w') := by
    have hdrop := congrArg (List.drop 2) h
    rwa [bytes32, bytes32, Hex.drop_text, Hex.drop_text] at hdrop
  refine wordBytes_inj ?_
  calc wordBytes w = bufferFromHex (Hex.write (wordBytes w)) := (bufferFromHex_write _).symm
    _ = bufferFromHex (Hex.write (wordBytes w')) := by rw [hdigits]
    _ = wordBytes w' := bufferFromHex_write _

theorem bytes32_of_identifier {l : Label} (h : l.identifier = some w) :
    bytes32 w = string32 l.text := by
  rw [l.identifier_eq] at h
  obtain rfl := Option.some.inj h
  have hlt : BigEndian.ofBE l.bytes < 2 ^ 256 := by
    have hlt := BigEndian.ofBE_lt l.bytes
    rw [l.length_bytes] at hlt
    exact hlt.trans_eq (by norm_num)
  have hbytes := BigEndian.toBE_ofBE l.bytes
  rw [l.length_bytes] at hbytes
  rw [string32_eq_text]
  unfold bytes32 wordBytes
  rw [BitVec.toNat_ofNat, Nat.mod_eq_of_lt hlt, hbytes]

theorem Names.toString_eq (h : Names w t) : bytes32toString (bytes32 w) = t := by
  obtain ⟨l, rfl, hid⟩ := h
  rw [bytes32_of_identifier hid, bytes32toString_string32]

theorem Names.word_inj (h : Names w t) (h' : Names w' t) : w = w' := by
  obtain ⟨l, rfl, hid⟩ := h
  obtain ⟨l', htext, hid'⟩ := h'
  obtain rfl := Label.ext_text htext
  exact Option.some.inj (hid.symm.trans hid')

theorem foldl_noteCanceled (set : Text → Option Text) :
    (events.foldl noteCanceled set (bytes32 w)).isSome = true ↔
      (set (bytes32 w)).isSome = true ∨ Canceled events w := by
  unfold Canceled
  induction events generalizing set with
  | nil => simp
  | cons e rest ih =>
      rw [List.foldl_cons, ih]
      cases e with
      | VersionAdded id version value time => simp [noteCanceled]
      | VersionCanceled id version reason =>
          by_cases hw : w = version
          · subst hw
            have hset : (noteCanceled set (.VersionCanceled id w reason) (bytes32 w)).isSome =
                true := by simp [noteCanceled]
            exact iff_of_true (Or.inl hset) (Or.inr ⟨id, reason, List.mem_cons_self⟩)
          · have hne : bytes32 w ≠ bytes32 version := fun h => hw (bytes32_inj h)
            simp [noteCanceled, Function.update_of_ne hne, hw]

/-- A reason was found exactly if there is an event that cancels. -/
theorem cancelReasons_isSome :
    (cancelReasons events (bytes32 w)).isSome = true ↔ Canceled events w := by
  unfold cancelReasons
  rw [foldl_noteCanceled]
  exact or_iff_right fun h => by cases h

/-- What is made of an addition. -/
def Addition.info (reasons : Text → Option Text) (a : Addition) : VersionInfo :=
  { version := bytes32toString (bytes32 a.version)
    canceled := (reasons (bytes32 a.version)).isSome
    cancelReason := reasons (bytes32 a.version)
    value := a.value
    time := a.time }

theorem Names.info_version {a : Addition} (h : Names a.version t) (reasons : Text → Option Text) :
    (a.info reasons).version = t := by
  dsimp only [Addition.info]
  exact h.toString_eq

theorem infos_eq (reasons : Text → Option Text) :
    events.filterMap (versionInfo reasons) = (additions events).map (Addition.info reasons) := by
  unfold additions
  rw [List.map_filterMap]
  refine congrArg (fun f => events.filterMap f) (funext fun e => ?_)
  cases e with
  | VersionAdded id version value time => rfl
  | VersionCanceled id version reason => rfl

theorem mem_additions {a : Addition} (h : a ∈ additions events) :
    ∃ e ∈ events, e.version = a.version := by
  obtain ⟨e, he, heq⟩ := List.mem_filterMap.mp h
  cases e with
  | VersionAdded id version value time =>
      obtain rfl := Option.some.inj heq
      exact ⟨_, he, rfl⟩
  | VersionCanceled id version reason => cases heq

/-- All versions, the newest first: the first additions. -/
theorem getAllVersions_eq (hnames : ∀ e ∈ getPastEvents log id, ∃ t, Names e.version t) :
    getAllVersions log id = ((FirstOccurrences.firsts Addition.version
      (additions (getPastEvents log id))).reverse).map
        (Addition.info (cancelReasons (getPastEvents log id))) := by
  show (FirstOccurrences.firsts VersionInfo.version ((getPastEvents log id).filterMap
    (versionInfo (cancelReasons (getPastEvents log id))))).reverse = _
  rw [infos_eq, List.map_reverse]
  refine congrArg List.reverse (FirstOccurrences.firsts_map fun a ha b hb => ?_)
  obtain ⟨e, he, hversion⟩ := mem_additions ha
  obtain ⟨e', he', hversion'⟩ := mem_additions hb
  obtain ⟨t, ht⟩ := hnames e he
  obtain ⟨t', ht'⟩ := hnames e' he'
  rw [hversion] at ht
  rw [hversion'] at ht'
  rw [ht.info_version, ht'.info_version]
  constructor
  · rintro rfl
    exact ht.word_inj ht'
  · intro h
    rw [h] at ht
    calc t = bytes32toString (bytes32 b.version) := ht.toString_eq.symm
      _ = t' := ht'.toString_eq

theorem isUsable_iff (hnames : ∀ e ∈ getPastEvents log id, ∃ t, Names e.version t) {a : Addition}
    (ha : a ∈ additions (getPastEvents log id)) :
    (a.info (cancelReasons (getPastEvents log id))).isUsable now delayPeriod optInVersion = true ↔
      Eligible (getPastEvents log id) now delayPeriod optInVersion a := by
  obtain ⟨e, he, hversion⟩ := mem_additions ha
  obtain ⟨t, ht⟩ := hnames e he
  rw [hversion] at ht
  have hopt : t = optInVersion ↔ Names a.version optInVersion := by
    constructor
    · rintro rfl
      exact ht
    · exact fun h => ht.toString_eq.symm.trans h.toString_eq
  rw [VersionInfo.isUsable, Bool.and_eq_true, Bool.not_eq_true', Bool.or_eq_true,
    decide_eq_true_iff, beq_iff_eq, ht.info_version, hopt, Eligible, ← cancelReasons_isSome,
    ← Bool.not_eq_true]
  rfl

/-- The search of `getVersion`, on the additions. -/
theorem find?_getAllVersions (hnames : ∀ e ∈ getPastEvents log id, ∃ t, Names e.version t) :
    (getAllVersions log id).find? (VersionInfo.isUsable now delayPeriod optInVersion) =
      ((FirstOccurrences.firsts Addition.version (additions (getPastEvents log id))).reverse.find?
        (VersionInfo.isUsable now delayPeriod optInVersion ∘
          Addition.info (cancelReasons (getPastEvents log id)))).map
        (Addition.info (cancelReasons (getPastEvents log id))) := by
  rw [getAllVersions_eq hnames, List.find?_map]

theorem getVersion_eq_ok {info : VersionInfo}
    (hnames : ∀ e ∈ getPastEvents log id, ∃ t, Names e.version t) :
    getVersion log now id delayPeriod optInVersion = .ok info ↔
      ∃ n a, FirstOccurrences.IsNewest Addition.version
        (Eligible (getPastEvents log id) now delayPeriod optInVersion)
        (additions (getPastEvents log id)) n a ∧
          info = a.info (cancelReasons (getPastEvents log id)) := by
  unfold getVersion
  rw [find?_getAllVersions hnames]
  constructor
  · intro h
    split at h
    next => cases h
    next ver hfind =>
      obtain rfl := Except.ok.inj h
      obtain ⟨a, ha, rfl⟩ := Option.map_eq_some_iff.mp hfind
      obtain ⟨n, hn⟩ := FirstOccurrences.find?_reverse_firsts.mp ha
      exact ⟨n, a, hn.congr fun b hb => isUsable_iff hnames hb, rfl⟩
  · rintro ⟨n, a, hn, rfl⟩
    have hfind := FirstOccurrences.find?_reverse_firsts.mpr
      ⟨n, hn.congr fun b hb => (isUsable_iff hnames hb).symm⟩
    rw [Function.comp_def, hfind]
    rfl

theorem getVersion_eq_error (hnames : ∀ e ∈ getPastEvents log id, ∃ t, Names e.version t) :
    (∃ e, getVersion log now id delayPeriod optInVersion = .error e) ↔
      ∀ n a, FirstOccurrences.IsFirst Addition.version (additions (getPastEvents log id)) n a →
        ¬ Eligible (getPastEvents log id) now delayPeriod optInVersion a := by
  unfold getVersion
  rw [find?_getAllVersions hnames]
  constructor
  · rintro ⟨e, h⟩ n a hfirst heligible
    split at h
    next hnone =>
      rw [Option.map_eq_none_iff] at hnone
      exact FirstOccurrences.find?_eq_none.mp hnone n a hfirst
        ((isUsable_iff hnames hfirst.mem).mpr heligible)
    next => cases h
  · intro h
    have hnone := FirstOccurrences.find?_eq_none.mpr fun n a hfirst =>
      mt (isUsable_iff hnames hfirst.mem).mp (h n a hfirst)
    rw [Function.comp_def, hnone]
    exact ⟨_, rfl⟩

/-- A version that was added before is not added again. -/
theorem getAllVersions_readded {l₁ l₂ : List RegistryEvent} {i version : Word} {value value' : Text}
    {time time' : Nat} (h : .VersionAdded i version value time ∈ l₁) :
    getAllVersions (l₁ ++ .VersionAdded i version value' time' :: l₂) id =
      getAllVersions (l₁ ++ l₂) id := by
  unfold getAllVersions getPastEvents
  by_cases hid : bytes32 i = string32 id
  · have hmem : RegistryEvent.VersionAdded i version value time ∈
        l₁.filter fun e => bytes32 e.id = string32 id :=
      List.mem_filter.mpr ⟨h, decide_eq_true hid⟩
    have hreasons (l l' : List RegistryEvent) :
        cancelReasons (l ++ .VersionAdded i version value' time' :: l') =
          cancelReasons (l ++ l') := by
      unfold cancelReasons
      rw [List.foldl_append, List.foldl_append, List.foldl_cons]
      rfl
    have hquery : decide (bytes32 (RegistryEvent.VersionAdded i version value' time').id =
        string32 id) = true := decide_eq_true hid
    dsimp only
    rw [List.filter_append, List.filter_append, List.filter_cons, if_pos hquery, hreasons,
      List.filterMap_append, List.filterMap_append]
    refine congrArg List.reverse (FirstOccurrences.firsts_insert ?_)
    exact List.mem_map.mpr ⟨_, List.mem_filterMap.mpr ⟨_, hmem, rfl⟩, rfl⟩
  · rw [List.filter_append, List.filter_append, List.filter_cons_of_neg]
    exact fun heq => hid (of_decide_eq_true heq)

end Resolution

/-! ### A log -/

def idWord : Word := 0x6964 <<< 240

def verWord (n : Nat) : Word := BitVec.ofNat 256 (0x7600 + n) <<< 240

/-- Three versions, the third cancelled and the first added again. -/
def someLog : List RegistryEvent :=
  [.VersionAdded idWord (verWord 0x31) ['a'] 100, .VersionAdded idWord (verWord 0x32) ['b'] 200,
    .VersionAdded idWord (verWord 0x33) ['c'] 300, .VersionAdded idWord (verWord 0x31) ['d'] 400,
    .VersionCanceled idWord (verWord 0x33) []]

def verLabel (c : Char) (h : (Utf8.encode ['v', c]).length ≤ 32 ∧
    (Utf8.encode ['v', c]).getLast? ≠ some 0) : Label := ⟨['v', c], h.1, h.2⟩

theorem someLog_names : ∀ e ∈ getPastEvents someLog ['i', 'd'], ∃ t, Names e.version t := by
  intro e he
  have hmem : e ∈ someLog := (List.mem_filter.mp he).1
  have hversion : ∀ e ∈ someLog, e.version = verWord 0x31 ∨ e.version = verWord 0x32 ∨
      e.version = verWord 0x33 := by decide +kernel
  rcases hversion e hmem with h | h | h
  · exact ⟨_, verLabel '1' (by decide +kernel), rfl, by rw [h]; decide +kernel⟩
  · exact ⟨_, verLabel '2' (by decide +kernel), rfl, by rw [h]; decide +kernel⟩
  · exact ⟨_, verLabel '3' (by decide +kernel), rfl, by rw [h]; decide +kernel⟩

end VersionRegistry

end RifRelay
