import Mathlib.Data.List.Basic
import Mathlib.Tactic.Common

set_option autoImplicit false

/-! # Properties of histories

A history grows at its end. Two kinds of properties are kept by growing:

* `Each R` — every element is related to the elements before it;
* `Followed A B` — every element with the property `A` is followed at once by one that `B`
  relates it to. Between such an element and its follower the property does not hold;
  `Followed.settle` is the step from before the one to after the other.
-/

namespace CallMachine

variable {α : Type}

/-- A list with one more element, cut before one of its elements. -/
theorem snoc_eq_append_cons {l l₁ l₂ : List α} {a b : α} (h : l ++ [b] = l₁ ++ a :: l₂) :
    (l₁ = l ∧ a = b ∧ l₂ = []) ∨ ∃ l₃, l₂ = l₃ ++ [b] ∧ l = l₁ ++ a :: l₃ := by
  rcases List.eq_nil_or_concat l₂ with rfl | ⟨l₃, x, rfl⟩
  · obtain ⟨hl, hb⟩ := List.append_inj' h rfl
    exact Or.inl ⟨hl.symm, (List.cons.inj hb).1.symm, rfl⟩
  · have hassoc : l ++ [b] = (l₁ ++ a :: l₃) ++ [x] := by
      rw [h, List.append_assoc, List.cons_append, List.concat_eq_append]
    obtain ⟨hl, hb⟩ := List.append_inj' hassoc rfl
    obtain rfl : b = x := (List.cons.inj hb).1
    exact Or.inr ⟨l₃, List.concat_eq_append, hl⟩

/-! ## What comes before -/

/-- Every element is related to the elements before it. -/
def Each (R : List α → α → Prop) (l : List α) : Prop :=
  ∀ l₁ a l₂, l = l₁ ++ a :: l₂ → R l₁ a

section Each

variable {R : List α → α → Prop} {l : List α} {a : α}

theorem Each.nil : Each R [] := by
  intro l₁ a l₂ h
  simp at h

theorem Each.snoc (h : Each R l) (ha : R l a) : Each R (l ++ [a]) := by
  intro l₁ b l₂ hcut
  rcases snoc_eq_append_cons hcut with ⟨rfl, rfl, -⟩ | ⟨l₃, -, hl⟩
  · exact ha
  · exact h l₁ b l₃ hl

end Each

/-! ## What comes next -/

/-- Every element with the property `A` is followed by one that `B` relates it to. -/
def Followed (A : α → Prop) (B : α → α → Prop) (l : List α) : Prop :=
  ∀ l₁ a l₂, l = l₁ ++ a :: l₂ → A a → ∃ b l₃, l₂ = b :: l₃ ∧ B a b

section Followed

variable {A : α → Prop} {B : α → α → Prop} {l : List α} {a b : α}

theorem Followed.nil : Followed A B [] := by
  intro l₁ a l₂ h
  simp at h

theorem Followed.snoc (h : Followed A B l) (ha : ¬ A a) : Followed A B (l ++ [a]) := by
  intro l₁ x l₂ hcut hx
  rcases snoc_eq_append_cons hcut with ⟨-, rfl, -⟩ | ⟨l₃, rfl, hl⟩
  · exact absurd hx ha
  · obtain ⟨y, l₄, rfl, hy⟩ := h l₁ x l₃ hl hx
    exact ⟨y, l₄ ++ [a], rfl, hy⟩

/-- An element and its follower. -/
theorem Followed.settle (h : Followed A B l) (hab : B a b) (hb : ¬ A b) :
    Followed A B (l ++ [a] ++ [b]) := by
  intro l₁ x l₂ hcut hx
  rcases snoc_eq_append_cons hcut with ⟨-, rfl, -⟩ | ⟨l₃, rfl, hl⟩
  · exact absurd hx hb
  · rcases snoc_eq_append_cons hl with ⟨-, rfl, rfl⟩ | ⟨l₄, rfl, hl'⟩
    · exact ⟨b, [], rfl, hab⟩
    · obtain ⟨y, l₅, rfl, hy⟩ := h l₁ x l₄ hl' hx
      exact ⟨y, l₅ ++ [a] ++ [b], rfl, hy⟩

end Followed

end CallMachine
