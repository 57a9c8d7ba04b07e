import Mathlib.Algebra.BigOperators.Group.Finset.Basic
import Mathlib.Algebra.BigOperators.Pi
import Mathlib.Algebra.Order.BigOperators.Group.Finset
import Mathlib.Tactic.Common
import Mathlib.Tactic.Ring

set_option autoImplicit false

/-! # Ledgers

Coins held by the members of a finite type of accounts. Moving coins keeps their total;
setting one entry changes a total by the difference of that entry.
-/

namespace Ledger

variable {A : Type} [DecidableEq A]

/-- Move `v` coins from `x` to `y`; a move the balance does not cover leaves `x` with `0`. -/
def move (b : A → Nat) (x y : A) (v : Nat) : A → Nat :=
  let b₁ := Function.update b x (b x - v)
  Function.update b₁ y (b₁ y + v)

theorem move_self (b : A → Nat) (x : A) (v : Nat) (h : v ≤ b x) : move b x x v = b := by
  funext a
  by_cases ha : a = x
  · subst ha
    simp [move, Nat.sub_add_cancel h]
  · simp [move, ha]

theorem move_zero (b : A → Nat) (x y : A) : move b x y 0 = b := by
  funext a
  by_cases hy : a = y
  · subst hy
    simp [move]
  · by_cases hx : a = x
    · subst hx
      simp [move]
    · rw [move, Function.update_of_ne hy, Function.update_of_ne hx]

theorem move_to (b : A → Nat) {x y : A} (v : Nat) (h : y ≠ x) : move b x y v y = b y + v := by
  simp [move, h]

theorem move_from (b : A → Nat) {x y : A} (v : Nat) (h : x ≠ y) : move b x y v x = b x - v := by
  simp [move, h]

theorem move_other (b : A → Nat) {x y a : A} (v : Nat) (hx : a ≠ x) (hy : a ≠ y) :
    move b x y v a = b a := by
  simp [move, hx, hy]

variable [Fintype A]

/-- Setting one entry of a ledger. -/
theorem sum_update (b : A → Nat) (x : A) (v : Nat) :
    (∑ a, Function.update b x v a) + b x = (∑ a, b a) + v := by
  rw [Finset.sum_update_of_mem (Finset.mem_univ x), ← Finset.add_sum_erase _ b (Finset.mem_univ x),
    Finset.sdiff_singleton_eq_erase]
  ring

/-- **Moving coins keeps their total.** -/
theorem sum_move (b : A → Nat) (x y : A) (v : Nat) (h : v ≤ b x) :
    ∑ a, move b x y v a = ∑ a, b a := by
  have h₁ := sum_update b x (b x - v)
  have h₂ := sum_update (Function.update b x (b x - v)) y
    (Function.update b x (b x - v) y + v)
  simp only [move]
  omega

omit [DecidableEq A] in
/-- One account holds at most the total. -/
theorem le_sum (b : A → Nat) (x : A) : b x ≤ ∑ a, b a :=
  Finset.single_le_sum (fun _ _ => Nat.zero_le _) (Finset.mem_univ x)

end Ledger
