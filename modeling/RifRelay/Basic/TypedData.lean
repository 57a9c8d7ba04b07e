import RifRelay.Basic.Bytes

set_option autoImplicit false

/-! # Typed structured data

The hash of typed structured data, as EIP-712 defines it: every struct type has a name and
members, a struct is encoded as the hash of its type followed by one word for each member,
and a member that is a string of bytes or a struct stands there by its hash.

The hash function is a parameter. On the strings it separates, the hash of a struct
determines what its members are and conversely (`encodeData_eq_iff`), members that the type
does not list do not count, and structs of types that are written differently have
different hashes (`encodeType_of_encodeData`).
-/

namespace TypedData

/-! ## Types -/

structure Member where
  name : String
  type : String
deriving DecidableEq

/-- The struct types, by name. -/
abbrev Types := List (String × List Member)

/-- The struct types that `type` refers to, in the order of a depth-first search. Each step
down adds a type to `found`, so there are no more steps than types. -/
def findTypeDependencies (types : Types) : Nat → List String → String → List String
  | 0, found, _ => found
  | depth + 1, found, type =>
      if found.contains type then found
      else
        match types.lookup type with
        | none => found
        | some members =>
            members.foldl (fun found m => findTypeDependencies types depth found m.type)
              (found ++ [type])

def encodeMembers (members : List Member) : String :=
  ",".intercalate (members.map fun m => m.type ++ " " ++ m.name)

/-- The type itself, followed by the types it refers to in alphabetical order. -/
def encodeType (types : Types) (primaryType : String) : Option String := do
  let found := findTypeDependencies types (types.length + 1) [] primaryType
  let deps := (found.filter (· != primaryType)).mergeSort (fun a b => decide (a ≤ b))
  let parts ← (primaryType :: deps).mapM fun type =>
    (types.lookup type).map fun members => type ++ "(" ++ encodeMembers members ++ ")"
  return String.join parts

/-! ## Values -/

inductive Value
  | word (w : Word)
  | address (a : Address)
  | bytes (b : Bytes)
  | string (s : String)
  | struct (members : List (String × Value))

abbrev Object := List (String × Value)

section Hash

variable (H : Bytes → Word) (types : Types)

def hashType (type : String) : Option Word := (encodeType types type).map fun s => H (textBytes s)

/-- A value that is not a struct, at a type that is none. -/
def encodeAtom (type : String) : Value → Option Word
  | .word w => if type = "uint256" ∨ type = "bytes32" then some w else none
  | .address a => if type = "address" then some (addressWord a) else none
  | .bytes b => if type = "bytes" then some (H b) else none
  | .string s => if type = "string" then some (H (textBytes s)) else none
  | .struct _ => none

/-- The word of a member; `inner` encodes a struct. -/
def encodeMember (inner : String → Object → Option Bytes) (type : String) : Value → Option Word
  | .struct data => if (types.lookup type).isSome then (inner type data).map H else none
  | v => if (types.lookup type).isSome then none else encodeAtom H type v

/-- The string whose hash is the hash of the struct `data`. Structs are nested at most
`depth` deep. -/
def encodeData : Nat → String → Object → Option Bytes
  | 0, _, _ => none
  | depth + 1, primaryType, data => do
      let members ← types.lookup primaryType
      let typeHash ← hashType H types primaryType
      let words ← members.mapM fun m =>
        (data.lookup m.name).bind (encodeMember H types (encodeData depth) m.type)
      return wordBytes typeHash ++ words.flatMap wordBytes

def hashStruct (depth : Nat) (primaryType : String) (data : Object) : Option Word :=
  (encodeData H types depth primaryType data).map H

end Hash

/-- What is signed: a struct, in a domain. -/
structure TypedMessage where
  types : Types
  domain : Object
  primaryType : String
  message : Object

namespace TypedMessage

variable (H : Bytes → Word) (m : TypedMessage)

/-- The string whose hash is signed. -/
def signedString : Option Bytes := do
  let domainHash ← hashStruct H m.types m.types.length "EIP712Domain" m.domain
  let messageHash ← hashStruct H m.types m.types.length m.primaryType m.message
  return 0x19 :: 0x01 :: (wordBytes domainHash ++ wordBytes messageHash)

def digest : Option Word := (m.signedString H).map H

end TypedMessage

/-! ## What a hash says about its struct -/

/-- Two values of a member are the same; `R` is for structs. -/
inductive SameValue (R : Object → Object → Prop) : Value → Value → Prop
  | word (w : Word) : SameValue R (.word w) (.word w)
  | address (a : Address) : SameValue R (.address a) (.address a)
  | bytes (b : Bytes) : SameValue R (.bytes b) (.bytes b)
  | string (s : String) : SameValue R (.string s) (.string s)
  | struct {a b : Object} (h : R a b) : SameValue R (.struct a) (.struct b)

section SameValue

variable {R : Object → Object → Prop}

@[simp] theorem sameValue_word {w w' : Word} : SameValue R (.word w) (.word w') ↔ w = w' :=
  ⟨fun h => by cases h; rfl, fun h => h ▸ .word w⟩

@[simp] theorem sameValue_address {a a' : Address} :
    SameValue R (.address a) (.address a') ↔ a = a' :=
  ⟨fun h => by cases h; rfl, fun h => h ▸ .address a⟩

@[simp] theorem sameValue_bytes {b b' : Bytes} : SameValue R (.bytes b) (.bytes b') ↔ b = b' :=
  ⟨fun h => by cases h; rfl, fun h => h ▸ .bytes b⟩

@[simp] theorem sameValue_string {s s' : String} : SameValue R (.string s) (.string s') ↔ s = s' :=
  ⟨fun h => by cases h; rfl, fun h => h ▸ .string s⟩

@[simp] theorem sameValue_struct {a b : Object} : SameValue R (.struct a) (.struct b) ↔ R a b :=
  ⟨fun h => by cases h; assumption, .struct⟩

end SameValue

/-- Two structs of a type agree in all its members. -/
def Agree (types : Types) : Nat → String → Object → Object → Prop
  | 0, _, _, _ => False
  | depth + 1, primaryType, a, b =>
      ∀ members, types.lookup primaryType = some members → ∀ m ∈ members,
        ∃ v v', a.lookup m.name = some v ∧ b.lookup m.name = some v' ∧
          SameValue (Agree types depth m.type) v v'

/-- The strings that are hashed for a value of a member; `inner` is for structs. -/
def hashedValue (inner : Object → List Bytes) : Value → List Bytes
  | .word _ => []
  | .address _ => []
  | .bytes b => [b]
  | .string s => [textBytes s]
  | .struct data => inner data

/-- The strings that are hashed for the hash of a struct. -/
def hashed (H : Bytes → Word) (types : Types) : Nat → String → Object → List Bytes
  | 0, _, _ => []
  | depth + 1, primaryType, data =>
      (encodeData H types (depth + 1) primaryType data).toList ++
        ((encodeType types primaryType).map textBytes).toList ++
        ((types.lookup primaryType).getD []).flatMap fun m =>
          (data.lookup m.name).elim [] (hashedValue (hashed H types depth m.type))

/-- The strings that are hashed for a digest. -/
def TypedMessage.hashed (H : Bytes → Word) (m : TypedMessage) : List Bytes :=
  (m.signedString H).toList ++
    (TypedData.hashed H m.types m.types.length "EIP712Domain" m.domain ++
      TypedData.hashed H m.types m.types.length m.primaryType m.message)

/-- Different strings of the list have different hashes. -/
def Separates (H : Bytes → Word) (l : List Bytes) : Prop :=
  ∀ a ∈ l, ∀ b ∈ l, H a = H b → a = b

instance (H : Bytes → Word) (l : List Bytes) : Decidable (Separates H l) :=
  inferInstanceAs (Decidable (∀ a ∈ l, ∀ b ∈ l, H a = H b → a = b))

theorem Separates.mono {H : Bytes → Word} {l l' : List Bytes} (h : Separates H l') (hsub : l ⊆ l') :
    Separates H l :=
  fun a ha b hb => h a (hsub ha) b (hsub hb)

theorem Separates.eq_iff {H : Bytes → Word} {l : List Bytes} (h : Separates H l) {a b : Bytes}
    (ha : a ∈ l) (hb : b ∈ l) : H a = H b ↔ a = b :=
  ⟨h a ha b hb, congrArg H⟩

/-- A list with two parts separates one part of each. -/
theorem Separates.parts {H : Bytes → Word} {k l k' l' : List Bytes} (h : Separates H (k' ++ l'))
    (hk : k ⊆ k') (hl : l ⊆ l') : Separates H (k ++ l) :=
  h.mono (List.append_subset.mpr
    ⟨List.Subset.trans hk (List.subset_append_left _ _),
      List.Subset.trans hl (List.subset_append_right _ _)⟩)

section Separation

variable {H : Bytes → Word} {types : Types}

/-! ### Lists of words -/

theorem textBytes_inj {s t : String} (h : textBytes s = textBytes t) : s = t := by
  have hdata : s.toByteArray.data = t.toByteArray.data := Array.toList_inj.mp h
  exact String.toByteArray_inj.mp (ByteArray.ext hdata)

/-- Lists of words of one length with the same bytes are the same. -/
theorem words_inj {ws vs : List Word} (hlen : ws.length = vs.length)
    (h : ws.flatMap wordBytes = vs.flatMap wordBytes) : ws = vs := by
  induction ws generalizing vs with
  | nil => exact (List.length_eq_zero_iff.mp hlen.symm).symm
  | cons w ws ih =>
      cases vs with
      | nil => simp at hlen
      | cons v vs =>
          rw [List.flatMap_cons, List.flatMap_cons] at h
          obtain ⟨hw, hrest⟩ := wordBytes_append_inj h
          rw [hw, ih (by simpa using hlen) hrest]

theorem mapM_eq_some_iff {α β : Type} {f : α → Option β} {l : List α} {ys : List β} :
    l.mapM f = some ys ↔ List.Forall₂ (fun a y => f a = some y) l ys := by
  induction l generalizing ys with
  | nil => simp [eq_comm]
  | cons a l ih =>
      simp only [List.mapM_cons, Option.bind_eq_bind, Option.bind_eq_some_iff, Option.pure_def,
        Option.some.injEq]
      constructor
      · rintro ⟨y, hy, zs, hzs, rfl⟩
        exact .cons hy (ih.mp hzs)
      · intro h
        cases h with
        | cons hy hzs => exact ⟨_, hy, _, ih.mpr hzs, rfl⟩

/-- A list is mapped to one list by two functions. -/
theorem mapM_agree_iff {α β : Type} {f g : α → Option β} {l : List α} {ys zs : List β}
    (hf : l.mapM f = some ys) (hg : l.mapM g = some zs) :
    ys = zs ↔ ∀ a ∈ l, f a = g a := by
  rw [mapM_eq_some_iff] at hf hg
  induction hf generalizing zs with
  | nil =>
      cases hg with
      | nil => simp
  | cons hy hys ih =>
      cases hg with
      | cons hz hzs => rw [List.cons.injEq, ih hzs, List.forall_mem_cons, hy, hz, Option.some.injEq]

theorem mapM_mem {α β : Type} {f : α → Option β} {l : List α} {ys : List β}
    (h : l.mapM f = some ys) {a : α} (ha : a ∈ l) : ∃ y, f a = some y := by
  rw [mapM_eq_some_iff] at h
  induction h with
  | nil => cases ha
  | cons hy _ ih =>
      rcases List.mem_cons.mp ha with rfl | ha
      · exact ⟨_, hy⟩
      · exact ih ha

/-! ### Members and structs -/

/-- The parts of an encoded struct. -/
theorem encodeData_eq_some {depth : Nat} {type : String} {data : Object} {x : Bytes} :
    encodeData H types (depth + 1) type data = some x ↔
      ∃ members s words, types.lookup type = some members ∧ encodeType types type = some s ∧
        members.mapM (fun m => (data.lookup m.name).bind
          (encodeMember H types (encodeData H types depth) m.type)) = some words ∧
        x = wordBytes (H (textBytes s)) ++ words.flatMap wordBytes := by
  simp only [encodeData, hashType, Option.bind_eq_bind, Option.bind_eq_some_iff,
    Option.map_eq_some_iff, Option.pure_def, Option.some.injEq]
  constructor
  · rintro ⟨members, hmembers, t, ⟨s, hs, ht⟩, words, hwords, hx⟩
    exact ⟨members, s, words, hmembers, hs, hwords, by rw [ht, hx]⟩
  · rintro ⟨members, s, words, hmembers, hs, hwords, hx⟩
    exact ⟨members, hmembers, H (textBytes s), ⟨s, hs, rfl⟩, words, hwords, hx.symm⟩

/-- The type of a value that is no struct says which kind of value it is. -/
theorem encodeAtom_eq_iff {R : Object → Object → Prop} {inner : Object → List Bytes}
    {type : String} {v v' : Value} {w w' : Word} (h : encodeAtom H type v = some w)
    (h' : encodeAtom H type v' = some w')
    (hsep : Separates H (hashedValue inner v ++ hashedValue inner v')) :
    w = w' ↔ SameValue R v v' := by
  unfold encodeAtom at h h'
  cases v with
  | struct => cases h
  | word a =>
      cases v' <;>
        simp only [Option.ite_none_right_eq_some, Option.some.injEq, reduceCtorEq] at h h'
      case word b =>
        obtain ⟨-, rfl⟩ := h
        obtain ⟨-, rfl⟩ := h'
        exact sameValue_word.symm
      all_goals obtain ⟨rfl | rfl, -⟩ := h <;> simp at h'
  | address a =>
      cases v' <;>
        simp only [Option.ite_none_right_eq_some, Option.some.injEq, reduceCtorEq] at h h'
      case address b =>
        obtain ⟨-, rfl⟩ := h
        obtain ⟨-, rfl⟩ := h'
        rw [addressWord_iff, sameValue_address]
      all_goals obtain ⟨rfl, -⟩ := h; simp at h'
  | bytes a =>
      cases v' <;>
        simp only [Option.ite_none_right_eq_some, Option.some.injEq, reduceCtorEq] at h h'
      case bytes b =>
        obtain ⟨-, rfl⟩ := h
        obtain ⟨-, rfl⟩ := h'
        have hmem : a ∈ [a] ++ [b] := by simp
        rw [hsep.eq_iff hmem (by simp [hashedValue]), sameValue_bytes]
      all_goals obtain ⟨rfl, -⟩ := h; simp at h'
  | string a =>
      cases v' <;>
        simp only [Option.ite_none_right_eq_some, Option.some.injEq, reduceCtorEq] at h h'
      case string b =>
        obtain ⟨-, rfl⟩ := h
        obtain ⟨-, rfl⟩ := h'
        have hmem : textBytes a ∈ [textBytes a] ++ [textBytes b] := by simp
        rw [hsep.eq_iff hmem (by simp [hashedValue]), sameValue_string]
        exact ⟨textBytes_inj, congrArg textBytes⟩
      all_goals obtain ⟨rfl, -⟩ := h; simp at h'

/-- A member at a struct type is a struct. -/
theorem encodeMember_struct {inner : String → Object → Option Bytes} {type : String} {v : Value}
    {w : Word} (htype : (types.lookup type).isSome)
    (h : encodeMember H types inner type v = some w) :
    ∃ data x, v = .struct data ∧ inner type data = some x ∧ w = H x := by
  cases v with
  | struct data =>
      rw [encodeMember, if_pos htype, Option.map_eq_some_iff] at h
      obtain ⟨x, hx, rfl⟩ := h
      exact ⟨data, x, rfl, hx, rfl⟩
  | _ =>
      rw [encodeMember, if_pos htype] at h
      · cases h
      · intro data hdata
        cases hdata

/-- A member at any other type is none. -/
theorem encodeMember_atom {inner : String → Object → Option Bytes} {type : String} {v : Value}
    {w : Word} (htype : ¬ (types.lookup type).isSome)
    (h : encodeMember H types inner type v = some w) : encodeAtom H type v = some w := by
  cases v with
  | struct data =>
      rw [encodeMember, if_neg htype] at h
      cases h
  | _ =>
      rw [encodeMember, if_neg htype] at h
      · exact h
      · intro data hdata
        cases hdata

theorem mem_hashed {depth : Nat} {type : String} {data : Object} {x : Bytes}
    (h : encodeData H types depth type data = some x) : x ∈ hashed H types depth type data := by
  cases depth with
  | zero => cases h
  | succ depth => simp [hashed, h]

theorem mem_hashed_type {depth : Nat} {type s : String} {data : Object}
    (h : encodeType types type = some s) : textBytes s ∈ hashed H types (depth + 1) type data := by
  simp [hashed, h]

theorem hashedValue_subset {depth : Nat} {type : String} {data : Object} {members : List Member}
    (htype : types.lookup type = some members) {m : Member} (hm : m ∈ members) {v : Value}
    (hv : data.lookup m.name = some v) :
    hashedValue (hashed H types depth m.type) v ⊆ hashed H types (depth + 1) type data := by
  intro z hz
  rw [hashed, htype, Option.getD_some]
  refine List.mem_append_right _ (List.mem_flatMap.mpr ⟨m, hm, ?_⟩)
  rw [hv]
  exact hz

/-- **What the hash of a struct determines.** On strings that the hash separates, two structs
of a type are encoded in the same way just if they agree in the members of the type. -/
theorem encodeData_eq_iff {depth : Nat} {type : String} {a b : Object} {x y : Bytes}
    (ha : encodeData H types depth type a = some x) (hb : encodeData H types depth type b = some y)
    (hsep : Separates H (hashed H types depth type a ++ hashed H types depth type b)) :
    x = y ↔ Agree types depth type a b := by
  induction depth generalizing type a b x y with
  | zero => cases ha
  | succ depth ih =>
      obtain ⟨members, s, ws, hmembers, hs, hws, hx⟩ := encodeData_eq_some.mp ha
      obtain ⟨members', s', vs, hmembers', hs', hvs, hy⟩ := encodeData_eq_some.mp hb
      obtain rfl : members = members' := Option.some.inj (hmembers.symm.trans hmembers')
      obtain rfl : s = s' := Option.some.inj (hs.symm.trans hs')
      have hlength : ws.length = vs.length :=
        (mapM_eq_some_iff.mp hws).length_eq.symm.trans (mapM_eq_some_iff.mp hvs).length_eq
      have hwords : x = y ↔ ws = vs := by
        rw [hx, hy, List.append_cancel_left_eq]
        exact ⟨words_inj hlength, congrArg (List.flatMap wordBytes)⟩
      -- one member at a time
      have hmember : ∀ m ∈ members,
          ((a.lookup m.name).bind (encodeMember H types (encodeData H types depth) m.type) =
            (b.lookup m.name).bind (encodeMember H types (encodeData H types depth) m.type) ↔
          ∃ v v', a.lookup m.name = some v ∧ b.lookup m.name = some v' ∧
            SameValue (Agree types depth m.type) v v') := by
        intro m hm
        obtain ⟨w, hw⟩ := mapM_mem hws hm
        obtain ⟨w', hw'⟩ := mapM_mem hvs hm
        rw [hw, hw', Option.some.injEq]
        obtain ⟨v, hv, hw⟩ := Option.bind_eq_some_iff.mp hw
        obtain ⟨v', hv', hw'⟩ := Option.bind_eq_some_iff.mp hw'
        have hsub := hsep.parts (hashedValue_subset hmembers hm hv)
          (hashedValue_subset hmembers hm hv')
        have hsame : w = w' ↔ SameValue (Agree types depth m.type) v v' := by
          by_cases htype : (types.lookup m.type).isSome
          · obtain ⟨o, z, rfl, hz, rfl⟩ := encodeMember_struct htype hw
            obtain ⟨o', z', rfl, hz', rfl⟩ := encodeMember_struct htype hw'
            rw [hsub.eq_iff (List.mem_append_left _ (mem_hashed hz))
              (List.mem_append_right _ (mem_hashed hz')), ih hz hz' hsub,
              sameValue_struct]
          · exact encodeAtom_eq_iff (encodeMember_atom htype hw) (encodeMember_atom htype hw') hsub
        rw [hsame]
        constructor
        · intro h
          exact ⟨v, v', hv, hv', h⟩
        · rintro ⟨u, u', hu, hu', h⟩
          obtain rfl : u = v := Option.some.inj (hu.symm.trans hv)
          obtain rfl : u' = v' := Option.some.inj (hu'.symm.trans hv')
          exact h
      rw [hwords, mapM_agree_iff hws hvs]
      constructor
      · intro h members' hmembers' m hm
        obtain rfl : members = members' := Option.some.inj (hmembers.symm.trans hmembers')
        exact (hmember m hm).mp (h m hm)
      · intro h m hm
        exact (hmember m hm).mpr (h members hmembers m hm)

/-- What a member is in two structs that agree. -/
theorem Agree.lookup {depth : Nat} {type : String} {a b : Object} {members : List Member}
    (h : Agree types (depth + 1) type a b) (htype : types.lookup type = some members) {m : Member}
    (hm : m ∈ members) {v v' : Value} (hv : a.lookup m.name = some v)
    (hv' : b.lookup m.name = some v') : SameValue (Agree types depth m.type) v v' := by
  obtain ⟨u, u', hu, hu', hsame⟩ := h members htype m hm
  rw [hv] at hu
  rw [hv'] at hu'
  obtain rfl := Option.some.inj hu
  obtain rfl := Option.some.inj hu'
  exact hsame

/-- Structs that are encoded in the same way are of types that are written in the same way. -/
theorem encodeType_of_encodeData {types' : Types} {depth depth' : Nat} {type type' : String}
    {a b : Object} {x : Bytes} (ha : encodeData H types depth type a = some x)
    (hb : encodeData H types' depth' type' b = some x)
    (hsep : Separates H (hashed H types depth type a ++ hashed H types' depth' type' b)) :
    encodeType types type = encodeType types' type' := by
  cases depth with
  | zero => cases ha
  | succ depth =>
      cases depth' with
      | zero => cases hb
      | succ depth' =>
          obtain ⟨-, s, ws, -, hs, -, hx⟩ := encodeData_eq_some.mp ha
          obtain ⟨-, s', vs, -, hs', -, hx'⟩ := encodeData_eq_some.mp hb
          obtain ⟨hhash, -⟩ := wordBytes_append_inj (hx.symm.trans hx')
          have hstrings : textBytes s = textBytes s' :=
            hsep _ (List.mem_append_left _ (mem_hashed_type hs)) _
              (List.mem_append_right _ (mem_hashed_type hs')) hhash
          rw [hs, hs', textBytes_inj hstrings]

/-! ### Signed messages -/

namespace TypedMessage

variable {m m' : TypedMessage}

theorem domain_subset (m : TypedMessage) :
    TypedData.hashed H m.types m.types.length "EIP712Domain" m.domain ⊆ m.hashed H := by
  intro z hz
  simp [hashed, hz]

theorem message_subset (m : TypedMessage) :
    TypedData.hashed H m.types m.types.length m.primaryType m.message ⊆ m.hashed H := by
  intro z hz
  simp [hashed, hz]

theorem signedString_eq_some {t : Bytes} :
    m.signedString H = some t ↔
      ∃ x y, encodeData H m.types m.types.length "EIP712Domain" m.domain = some x ∧
        encodeData H m.types m.types.length m.primaryType m.message = some y ∧
        t = 0x19 :: 0x01 :: (wordBytes (H x) ++ wordBytes (H y)) := by
  simp only [signedString, hashStruct, Option.bind_eq_bind, Option.bind_eq_some_iff,
    Option.map_eq_some_iff, Option.pure_def, Option.some.injEq]
  constructor
  · rintro ⟨dom, ⟨x, hx, hdom⟩, msg, ⟨y, hy, hmsg⟩, ht⟩
    exact ⟨x, y, hx, hy, by rw [hdom, hmsg, ht]⟩
  · rintro ⟨x, y, hx, hy, ht⟩
    exact ⟨H x, ⟨x, hx, rfl⟩, H y, ⟨y, hy, rfl⟩, ht.symm⟩

/-- **A digest determines the domain and the struct**: messages with one digest are encoded in
the same way. -/
theorem encodeData_of_digest {d : Word} (h : m.digest H = some d) (h' : m'.digest H = some d)
    (hsep : Separates H (m.hashed H ++ m'.hashed H)) :
    ∃ x y, encodeData H m.types m.types.length "EIP712Domain" m.domain = some x ∧
      encodeData H m'.types m'.types.length "EIP712Domain" m'.domain = some x ∧
      encodeData H m.types m.types.length m.primaryType m.message = some y ∧
      encodeData H m'.types m'.types.length m'.primaryType m'.message = some y := by
  obtain ⟨t, ht, hd⟩ := Option.map_eq_some_iff.mp h
  obtain ⟨t', ht', hd'⟩ := Option.map_eq_some_iff.mp h'
  have heq : t = t' := hsep _ (by simp [hashed, ht]) _ (by simp [hashed, ht']) (hd.trans hd'.symm)
  obtain ⟨x, y, hx, hy, hxy⟩ := signedString_eq_some.mp ht
  obtain ⟨x', y', hx', hy', hxy'⟩ := signedString_eq_some.mp ht'
  rw [heq, hxy', List.cons.injEq, List.cons.injEq] at hxy
  obtain ⟨hdom, hmsg⟩ := wordBytes_append_inj hxy.2.2
  have hdom : x' = x := hsep _ (by simp [hashed, mem_hashed hx']) _
    (by simp [hashed, mem_hashed hx]) hdom
  have hmsg : y' = y := hsep _ (by simp [hashed, mem_hashed hy']) _
    (by simp [hashed, mem_hashed hy]) (wordBytes_inj hmsg)
  exact ⟨x, y, hx, hdom ▸ hx', hy, hmsg ▸ hy'⟩

end TypedMessage

end Separation

end TypedData
