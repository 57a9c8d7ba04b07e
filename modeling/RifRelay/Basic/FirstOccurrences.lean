import Mathlib.Data.List.Basic
import Mathlib.Data.List.Induction
import Mathlib.Tactic.Common

set_option autoImplicit false

/-! # First occurrences

`firsts key l` keeps the first of the elements of `l` with each key, as a filter does that
remembers the keys it has found. Searched from its end, it gives the element that came first with
its key latest (`find?_reverse_firsts`).
-/

namespace FirstOccurrences

variable {α β κ κ' : Type}

section Occurrences

variable {key : α → κ} {l : List α} {a x : α} {n : ℕ}

/-- The `n`-th element is `a`, and no earlier one has its key. -/
structure IsFirst (key : α → κ) (l : List α) (n : ℕ) (a : α) : Prop where
  get : l[n]? = some a
  first : ∀ m < n, ∀ b, l[m]? = some b → key b ≠ key a

theorem isFirst_snoc : IsFirst key (l ++ [x]) n a ↔
    IsFirst key l n a ∨ (n = l.length ∧ a = x ∧ key x ∉ l.map key) := by
  have hold : ∀ m < l.length, (l ++ [x])[m]? = l[m]? := fun m hm => List.getElem?_append_left hm
  constructor
  · intro h
    have hlt := (List.getElem?_eq_some_iff.mp h.get).1
    rw [List.length_append, List.length_singleton] at hlt
    by_cases hn : n < l.length
    · refine Or.inl ⟨(hold n hn).symm.trans h.get, fun m hm b hb => ?_⟩
      exact h.first m hm b ((hold m (Nat.lt_trans hm hn)).trans hb)
    · obtain rfl : n = l.length := by omega
      have ha : x = a := by
        have hget := h.get
        rw [List.getElem?_concat_length] at hget
        exact Option.some.inj hget
      subst ha
      refine Or.inr ⟨rfl, rfl, fun hmem => ?_⟩
      obtain ⟨b, hb, hkey⟩ := List.mem_map.mp hmem
      obtain ⟨m, hm, rfl⟩ := List.getElem_of_mem hb
      exact h.first m hm _ ((hold m hm).trans (List.getElem?_eq_getElem hm)) hkey
  · rintro (h | ⟨rfl, rfl, hnew⟩)
    · have hn := (List.getElem?_eq_some_iff.mp h.get).1
      refine ⟨(hold n hn).trans h.get, fun m hm b hb => ?_⟩
      exact h.first m hm b ((hold m (Nat.lt_trans hm hn)).symm.trans hb)
    · refine ⟨List.getElem?_concat_length, fun m hm b hb hkey => hnew ?_⟩
      rw [hold m hm] at hb
      exact List.mem_map.mpr ⟨b, List.mem_of_getElem? hb, hkey⟩

theorem IsFirst.lt_length (h : IsFirst key l n a) : n < l.length :=
  (List.getElem?_eq_some_iff.mp h.get).1

theorem IsFirst.mem (h : IsFirst key l n a) : a ∈ l := List.mem_of_getElem? h.get

/-- The last of the first occurrences that satisfy `p`. -/
structure IsNewest (key : α → κ) (p : α → Prop) (l : List α) (n : ℕ) (a : α) : Prop where
  first : IsFirst key l n a
  holds : p a
  newest : ∀ m b, IsFirst key l m b → p b → m ≤ n

theorem IsNewest.congr {p q : α → Prop} (h : IsNewest key p l n a) (hpq : ∀ b ∈ l, p b ↔ q b) :
    IsNewest key q l n a where
  first := h.first
  holds := (hpq a h.first.mem).mp h.holds
  newest m b hb hq := h.newest m b hb ((hpq b hb.mem).mpr hq)

end Occurrences

/-! ## The filter -/

variable [DecidableEq κ] [DecidableEq κ'] (key : α → κ)

/-- The elements whose keys have not been found. -/
def firstsFrom (found : List κ) : List α → List α
  | [] => []
  | a :: rest =>
      if key a ∈ found then firstsFrom found rest else a :: firstsFrom (key a :: found) rest

def firsts (l : List α) : List α := firstsFrom key [] l

variable {key} {found found' : List κ} {l l₁ l₂ : List α} {a x : α}

theorem firstsFrom_congr (h : ∀ k, k ∈ found ↔ k ∈ found') :
    firstsFrom key found l = firstsFrom key found' l := by
  induction l generalizing found found' with
  | nil => rfl
  | cons a rest ih =>
      have hcons : ∀ k, k ∈ key a :: found ↔ k ∈ key a :: found' := by
        intro k
        rw [List.mem_cons, List.mem_cons, h k]
      rw [firstsFrom, firstsFrom, ih h, ih hcons]
      simp only [h (key a)]

theorem firstsFrom_append : firstsFrom key found (l₁ ++ l₂) =
    firstsFrom key found l₁ ++ firstsFrom key (l₁.map key ++ found) l₂ := by
  induction l₁ generalizing found with
  | nil => rfl
  | cons a rest ih =>
      rw [List.cons_append, firstsFrom, firstsFrom]
      by_cases ha : key a ∈ found
      · rw [if_pos ha, if_pos ha, ih]
        refine congrArg _ (firstsFrom_congr fun k => ?_)
        constructor
        · exact fun hk => List.mem_cons_of_mem _ hk
        · intro hk
          rcases List.mem_cons.mp hk with rfl | hk
          · exact List.mem_append_right _ ha
          · exact hk
      · rw [if_neg ha, if_neg ha, ih, List.cons_append]
        refine congrArg _ (congrArg _ (firstsFrom_congr fun k => ?_))
        simp only [List.mem_append, List.mem_cons, List.map_cons]
        tauto

theorem firsts_append :
    firsts key (l₁ ++ l₂) = firsts key l₁ ++ firstsFrom key (l₁.map key) l₂ := by
  unfold firsts
  rw [firstsFrom_append, List.append_nil]

/-- A key that was there makes no difference. -/
theorem firsts_insert (h : key x ∈ l₁.map key) :
    firsts key (l₁ ++ x :: l₂) = firsts key (l₁ ++ l₂) := by
  rw [firsts_append, firsts_append, firstsFrom, if_pos h]

theorem firsts_snoc : firsts key (l ++ [x]) =
    firsts key l ++ if key x ∈ l.map key then [] else [x] := by
  rw [firsts_append, firstsFrom, firstsFrom, firstsFrom]

theorem firstsFrom_map {key' : β → κ'} {f : α → β} {found' : List κ'}
    (h : ∀ a ∈ l, ∀ b ∈ l, key' (f a) = key' (f b) ↔ key a = key b)
    (hfound : ∀ a ∈ l, key' (f a) ∈ found' ↔ key a ∈ found) :
    firstsFrom key' found' (l.map f) = (firstsFrom key found l).map f := by
  induction l generalizing found found' with
  | nil => rfl
  | cons a rest ih =>
      have hrest : ∀ b ∈ rest, ∀ c ∈ rest, key' (f b) = key' (f c) ↔ key b = key c :=
        fun b hb c hc => h b (List.mem_cons_of_mem _ hb) c (List.mem_cons_of_mem _ hc)
      have hsame := ih hrest fun b hb => hfound b (List.mem_cons_of_mem _ hb)
      have hmore : firstsFrom key' (key' (f a) :: found') (rest.map f) =
          (firstsFrom key (key a :: found) rest).map f := by
        refine ih hrest fun b hb => ?_
        rw [List.mem_cons, List.mem_cons, hfound b (List.mem_cons_of_mem _ hb),
          h b (List.mem_cons_of_mem _ hb) a List.mem_cons_self]
      rw [List.map_cons, firstsFrom, firstsFrom, hsame, hmore]
      by_cases ha : key a ∈ found
      · rw [if_pos ha, if_pos ((hfound a List.mem_cons_self).mpr ha)]
      · rw [if_neg ha, if_neg (mt (hfound a List.mem_cons_self).mp ha), List.map_cons]

/-- Keys that tell the same elements apart keep the same ones. -/
theorem firsts_map {key' : β → κ'} {f : α → β}
    (h : ∀ a ∈ l, ∀ b ∈ l, key' (f a) = key' (f b) ↔ key a = key b) :
    firsts key' (l.map f) = (firsts key l).map f :=
  firstsFrom_map h fun _ _ => iff_of_false List.not_mem_nil List.not_mem_nil

/-! ## Searching -/

variable {p : α → Bool}

theorem find?_eq_none : (firsts key l).reverse.find? p = none ↔
    ∀ n a, IsFirst key l n a → ¬ p a = true := by
  induction l using List.reverseRecOn with
  | nil => simp only [firsts, firstsFrom, List.reverse_nil, List.find?_nil, true_iff]
           intro n a h
           exact (Nat.not_lt_zero n h.lt_length).elim
  | append_singleton l x ih =>
      rw [firsts_snoc, List.reverse_append, List.find?_append, Option.or_eq_none_iff, ih]
      constructor
      · rintro ⟨hx, hl⟩ n a h
        rcases isFirst_snoc.mp h with h | ⟨-, rfl, hnew⟩
        · exact hl n a h
        · rw [if_neg hnew] at hx
          exact List.find?_eq_none.mp hx a (List.mem_singleton_self a)
      · intro h
        refine ⟨?_, fun n a hl => h n a (isFirst_snoc.mpr (Or.inl hl))⟩
        by_cases hx : key x ∈ l.map key
        · rw [if_pos hx]
          rfl
        · rw [if_neg hx]
          refine List.find?_eq_none.mpr fun b hb => ?_
          obtain rfl := List.mem_singleton.mp hb
          exact h l.length b (isFirst_snoc.mpr (Or.inr ⟨rfl, rfl, hx⟩))

/-- **Searched from its end**, the filter gives the newest of the first occurrences. -/
theorem find?_reverse_firsts : (firsts key l).reverse.find? p = some a ↔
    ∃ n, IsNewest key (fun b => p b = true) l n a := by
  induction l using List.reverseRecOn with
  | nil =>
      constructor
      · intro h
        cases h
      · rintro ⟨n, h⟩
        exact (Nat.not_lt_zero n h.first.lt_length).elim
  | append_singleton l x ih =>
      rw [firsts_snoc, List.reverse_append, List.find?_append]
      by_cases hx : key x ∉ l.map key ∧ p x = true
      · -- the new element is the newest
        have hfirst : IsFirst key (l ++ [x]) l.length x :=
          isFirst_snoc.mpr (Or.inr ⟨rfl, rfl, hx.1⟩)
        have hfind : ([x].reverse.find? p) = some x := List.find?_cons_of_pos hx.2
        rw [if_neg hx.1, hfind, Option.some_or]
        constructor
        · intro h
          obtain rfl := Option.some.inj h
          refine ⟨l.length, hfirst, hx.2, fun m b hb _ => ?_⟩
          have hlt := hb.lt_length
          rw [List.length_append, List.length_singleton] at hlt
          omega
        · rintro ⟨n, h⟩
          have hle := h.newest _ x hfirst hx.2
          rcases isFirst_snoc.mp h.first with hold | ⟨-, rfl, -⟩
          · have hlt := hold.lt_length
            omega
          · rfl
      · -- the new element is not found
        have hnone : (if key x ∈ l.map key then [] else [x]).reverse.find? p = none := by
          by_cases hkey : key x ∈ l.map key
          · rw [if_pos hkey]
            rfl
          · rw [if_neg hkey]
            exact List.find?_cons_of_neg fun hpx => hx ⟨hkey, hpx⟩
        have hiff : ∀ m b, p b = true → (IsFirst key (l ++ [x]) m b ↔ IsFirst key l m b) := by
          intro m b hb
          rw [isFirst_snoc]
          refine or_iff_left ?_
          rintro ⟨-, rfl, hnew⟩
          exact hx ⟨hnew, hb⟩
        rw [hnone, Option.none_or, ih]
        constructor
        · rintro ⟨n, h⟩
          exact ⟨n, (hiff n a h.holds).mpr h.first, h.holds,
            fun m b hm hb => h.newest m b ((hiff m b hb).mp hm) hb⟩
        · rintro ⟨n, h⟩
          exact ⟨n, (hiff n a h.holds).mp h.first, h.holds,
            fun m b hm hb => h.newest m b ((hiff m b hb).mpr hm) hb⟩

end FirstOccurrences
