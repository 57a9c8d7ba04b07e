import Mathlib.Data.List.Basic
import RifRelay.Basic.Hex

set_option autoImplicit false

/-! # Objects with texts as keys

The members of a JavaScript object, in their order. A member is replaced where it stands.

* `get_set`, `get_spread`, `get_map` — what an object has after each operation;
* `get_mapEntries` — after a conversion of its members that may fail.
-/

namespace RifRelay

/-- The members of a JavaScript object, in their order. -/
structure JsObject (α : Type) where
  members : List (Text × α)
  nodup : (members.map Prod.fst).Nodup

namespace JsObject

variable {α β : Type}

def empty : JsObject α := ⟨[], List.nodup_nil⟩

def get (o : JsObject α) (key : Text) : Option α := o.members.lookup key

def setMembers (key : Text) (value : α) : List (Text × α) → List (Text × α)
  | [] => [(key, value)]
  | e :: rest => if e.1 = key then (key, value) :: rest else e :: setMembers key value rest

theorem keys_setMembers (key : Text) (value : α) (l : List (Text × α)) :
    (setMembers key value l).map Prod.fst =
      if key ∈ l.map Prod.fst then l.map Prod.fst else l.map Prod.fst ++ [key] := by
  induction l with
  | nil => rfl
  | cons e rest ih =>
      rw [setMembers]
      by_cases he : e.1 = key
      · rw [if_pos he, if_pos (by rw [List.map_cons, he]; exact List.mem_cons_self), List.map_cons,
          List.map_cons, he]
      · rw [if_neg he, List.map_cons, ih, List.map_cons]
        by_cases hmem : key ∈ rest.map Prod.fst
        · rw [if_pos hmem, if_pos (List.mem_cons_of_mem _ hmem)]
        · have hout : key ∉ e.1 :: rest.map Prod.fst := by
            rw [List.mem_cons]
            rintro (rfl | h)
            · exact he rfl
            · exact hmem h
          rw [if_neg hmem, if_neg hout, List.cons_append]

theorem lookup_setMembers (key key' : Text) (value : α) (l : List (Text × α)) :
    (setMembers key value l).lookup key' = if key' = key then some value else l.lookup key' := by
  induction l with
  | nil =>
      rw [setMembers, List.lookup_cons]
      by_cases h : key' = key
      · rw [if_pos h, h, beq_self_eq_true]
      · rw [if_neg h, beq_false_of_ne h]
  | cons e rest ih =>
      rw [setMembers]
      by_cases he : e.1 = key
      · rw [if_pos he, List.lookup_cons, List.lookup_cons]
        by_cases h : key' = key
        · rw [if_pos h, h, beq_self_eq_true]
        · rw [if_neg h, beq_false_of_ne h, beq_false_of_ne (fun heq => h (heq.trans he))]
      · rw [if_neg he, List.lookup_cons, ih, List.lookup_cons]
        by_cases h : key' = key
        · rw [beq_false_of_ne (fun heq => he (heq.symm.trans h)), if_pos h]
        · simp only [if_neg h]

/-- `{ ...o, [key]: value }`. -/
def set (o : JsObject α) (key : Text) (value : α) : JsObject α where
  members := setMembers key value o.members
  nodup := by
    rw [keys_setMembers]
    split
    · exact o.nodup
    · next h =>
        rw [List.nodup_append]
        refine ⟨o.nodup, List.nodup_singleton _, fun a ha b hb hab => ?_⟩
        obtain rfl := List.mem_singleton.mp hb
        exact h (hab ▸ ha)

@[simp] theorem get_set (o : JsObject α) (key key' : Text) (value : α) :
    (o.set key value).get key' = if key' = key then some value else o.get key' :=
  lookup_setMembers key key' value o.members

def setAll (o : JsObject α) (entries : List (Text × α)) : JsObject α :=
  entries.foldl (fun o e => o.set e.1 e.2) o

theorem get_setAll {entries : List (Text × α)} (h : (entries.map Prod.fst).Nodup) (o : JsObject α)
    (key : Text) : (o.setAll entries).get key = (entries.lookup key).or (o.get key) := by
  induction entries generalizing o with
  | nil => rfl
  | cons e rest ih =>
      rw [List.map_cons, List.nodup_cons] at h
      rw [setAll, List.foldl_cons, ← setAll, ih h.2, get_set, List.lookup_cons]
      by_cases hkey : key = e.1
      · have hnone : rest.lookup e.1 = none := by
          rw [List.lookup_eq_none_iff]
          intro p hp
          exact bne_iff_ne.mpr fun heq => h.1 (heq ▸ List.mem_map_of_mem hp)
        rw [if_pos hkey, hkey, hnone, beq_self_eq_true]
        rfl
      · rw [if_neg hkey, beq_false_of_ne hkey]

/-- `{ ...a, ...b }`. -/
def spread (a b : JsObject α) : JsObject α := a.setAll b.members

theorem get_spread (a b : JsObject α) (key : Text) :
    (spread a b).get key = (b.get key).or (a.get key) :=
  get_setAll b.nodup a key

def map (f : α → β) (o : JsObject α) : JsObject β where
  members := o.members.map fun e => (e.1, f e.2)
  nodup := by
    rw [List.map_map]
    exact o.nodup

theorem lookup_map (f : α → β) (l : List (Text × α)) (key : Text) :
    (l.map fun e => (e.1, f e.2)).lookup key = (l.lookup key).map f := by
  induction l with
  | nil => rfl
  | cons e rest ih =>
      rw [List.map_cons, List.lookup_cons, List.lookup_cons]
      by_cases hkey : key = e.1
      · rw [hkey, beq_self_eq_true]
        rfl
      · rw [beq_false_of_ne hkey]
        exact ih

theorem get_map (f : α → β) (o : JsObject α) (key : Text) :
    (o.map f).get key = (o.get key).map f :=
  lookup_map f o.members key

/-! ## From entries -/

def ofEntries (entries : List (Text × α)) : JsObject α := empty.setAll entries

theorem get_ofEntries {entries : List (Text × α)} (h : (entries.map Prod.fst).Nodup) (key : Text) :
    (ofEntries entries).get key = entries.lookup key := by
  rw [ofEntries, get_setAll h]
  exact Option.or_none

theorem lookup_of_mem {l : List (Text × α)} (h : (l.map Prod.fst).Nodup) {e : Text × α}
    (he : e ∈ l) : l.lookup e.1 = some e.2 := by
  induction l with
  | nil => cases he
  | cons d rest ih =>
      rw [List.map_cons, List.nodup_cons] at h
      rw [List.lookup_cons]
      rcases List.mem_cons.mp he with rfl | hrest
      · rw [beq_self_eq_true]
      · have hne : e.1 ≠ d.1 := fun heq => h.1 (heq ▸ List.mem_map_of_mem hrest)
        rw [beq_false_of_ne hne]
        exact ih h.2 hrest

/-- A selection by keys. -/
theorem get_filter (o : JsObject α) (p : Text → Bool) {key : Text} (h : p key = true) :
    (ofEntries (o.members.filter fun e => p e.1)).get key = o.get key := by
  have hsub := (List.filter_sublist (p := fun e => p e.1) (l := o.members)).map Prod.fst
  rw [get_ofEntries (o.nodup.sublist hsub), get]
  induction o.members with
  | nil => rfl
  | cons e rest ih =>
      rw [List.lookup_cons]
      by_cases hkey : key = e.1
      · rw [List.filter_cons_of_pos (p := fun e : Text × α => p e.1) (hkey ▸ h), List.lookup_cons,
          hkey, beq_self_eq_true]
      · rw [beq_false_of_ne hkey, ← ih]
        by_cases he : p e.1 = true
        · rw [List.filter_cons_of_pos (p := fun e : Text × α => p e.1) he, List.lookup_cons,
            beq_false_of_ne hkey]
        · rw [List.filter_cons_of_neg (p := fun e : Text × α => p e.1) he]

/-! ## Conversions that may fail -/

variable {ε : Type}

/-- The entries of the object, each converted; the first error is the result. -/
def mapEntries (f : Text × α → Except ε (Text × β)) (o : JsObject α) : Except ε (JsObject β) :=
  (o.members.mapM f).map ofEntries

theorem mapM_entries {f : Text × α → Except ε (Text × β)}
    (hf : ∀ e e', f e = .ok e' → e'.1 = e.1) {l : List (Text × α)} {l' : List (Text × β)}
    (h : l.mapM f = .ok l') : l'.map Prod.fst = l.map Prod.fst ∧ ∀ key,
      (l.lookup key = none ∧ l'.lookup key = none) ∨
        ∃ value value', l.lookup key = some value ∧ l'.lookup key = some value' ∧
          f (key, value) = .ok (key, value') := by
  induction l generalizing l' with
  | nil =>
      obtain rfl : [] = l' := Except.ok.inj h
      exact ⟨rfl, fun key => .inl ⟨rfl, rfl⟩⟩
  | cons e rest ih =>
      rw [List.mapM_cons] at h
      cases he : f e with
      | error x =>
          rw [he] at h
          cases h
      | ok e' =>
          cases hrest : rest.mapM f with
          | error x =>
              rw [he, hrest] at h
              cases h
          | ok rest' =>
              rw [he, hrest] at h
              obtain rfl : e' :: rest' = l' := Except.ok.inj h
              obtain ⟨hkeys, hvalues⟩ := ih hrest
              have hkey := hf e e' he
              refine ⟨by rw [List.map_cons, List.map_cons, hkey, hkeys], fun key => ?_⟩
              rw [List.lookup_cons, List.lookup_cons, hkey]
              by_cases heq : key = e.1
              · rw [heq, beq_self_eq_true]
                have hpair : f (e.1, e.2) = .ok (e.1, e'.2) := he.trans (by rw [← hkey])
                exact .inr ⟨e.2, e'.2, rfl, rfl, hpair⟩
              · rw [beq_false_of_ne heq]
                exact hvalues key

/-- **What a converted object has**: the converted members, under their keys. -/
theorem get_mapEntries {f : Text × α → Except ε (Text × β)}
    (hf : ∀ e e', f e = .ok e' → e'.1 = e.1) {o : JsObject α} {o' : JsObject β}
    (h : o.mapEntries f = .ok o') (key : Text) :
    (o.get key = none ∧ o'.get key = none) ∨
      ∃ value value', o.get key = some value ∧ o'.get key = some value' ∧
        f (key, value) = .ok (key, value') := by
  unfold mapEntries at h
  cases hentries : o.members.mapM f with
  | error x =>
      rw [hentries] at h
      cases h
  | ok entries =>
      rw [hentries] at h
      obtain rfl : ofEntries entries = o' := Except.ok.inj h
      obtain ⟨hkeys, hvalues⟩ := mapM_entries hf hentries
      rw [get_ofEntries (hkeys ▸ o.nodup)]
      exact hvalues key

end JsObject

end RifRelay
