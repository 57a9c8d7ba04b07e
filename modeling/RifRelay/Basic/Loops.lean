import Mathlib.Data.Nat.Basic
import Mathlib.Tactic.Common

set_option autoImplicit false

/-! # Loops that may not end

A computation gets an amount of fuel and may run out of it. It *ends* with a value if it has that
value with every amount of fuel that is large enough. `whileLoop` spends its fuel on the turns and
gives every turn as much again.

* `LoopEnds.step`, `LoopEnds.stop` — the two ways of a loop;
* `while_ends` — total correctness: an invariant, and a measure that goes down.
-/

namespace Loops

variable {α β σ : Type}

/-- A computation that needs fuel. -/
abbrev Fueled (α : Type) : Type := ℕ → Option α

/-- With enough fuel, the value is `a`. -/
def Ends (p : Fueled α) (a : α) : Prop := ∃ n, ∀ fuel ≥ n, p fuel = some a

theorem ends_pure (a : α) : Ends (fun _ => some a) a := ⟨0, fun _ _ => rfl⟩

theorem Ends.bind {p : Fueled α} {f : α → Fueled β} {a : α} {b : β} (hp : Ends p a)
    (hf : Ends (f a) b) : Ends (fun fuel => (p fuel).bind fun a => f a fuel) b := by
  obtain ⟨n, hn⟩ := hp
  obtain ⟨k, hk⟩ := hf
  refine ⟨max n k, fun fuel hfuel => ?_⟩
  show (p fuel).bind (fun a => f a fuel) = some b
  rw [hn fuel (Nat.le_trans (Nat.le_max_left n k) hfuel), Option.bind_some,
    hk fuel (Nat.le_trans (Nat.le_max_right n k) hfuel)]

/-- What a computation ends with. -/
theorem Ends.unique {p : Fueled α} {a b : α} (ha : Ends p a) (hb : Ends p b) : a = b := by
  obtain ⟨n, hn⟩ := ha
  obtain ⟨k, hk⟩ := hb
  have hsame := (hn _ (Nat.le_max_left n k)).symm.trans (hk _ (Nat.le_max_right n k))
  exact Option.some.inj hsame

/-! ## `while` -/

variable (cond : σ → Bool) (body : σ → Fueled σ)

def iterations (fuel : ℕ) : ℕ → σ → Option σ
  | 0, _ => none
  | n + 1, s => if cond s then (body s fuel).bind (iterations fuel n) else some s

def whileLoop (s : σ) : Fueled σ := fun fuel => iterations cond body fuel fuel s

/-- The loop ends, whatever is left of the fuel for the turns. -/
def LoopEnds (s s' : σ) : Prop :=
  ∃ n, ∀ fuel ≥ n, ∀ turns ≥ n, iterations cond body fuel turns s = some s'

variable {cond body} {s s' t : σ}

theorem LoopEnds.ends (h : LoopEnds cond body s s') : Ends (whileLoop cond body s) s' := by
  obtain ⟨n, hn⟩ := h
  exact ⟨n, fun fuel hfuel => hn fuel hfuel fuel hfuel⟩

theorem LoopEnds.stop (h : cond s = false) : LoopEnds cond body s s := by
  refine ⟨1, fun fuel _ turns hturns => ?_⟩
  obtain ⟨n, rfl⟩ : ∃ n, turns = n + 1 := ⟨turns - 1, by omega⟩
  rw [iterations, h]
  rfl

theorem LoopEnds.step (h : cond s = true) (hbody : Ends (body s) t)
    (hrest : LoopEnds cond body t s') : LoopEnds cond body s s' := by
  obtain ⟨n, hn⟩ := hbody
  obtain ⟨k, hk⟩ := hrest
  refine ⟨max n k + 1, fun fuel hfuel turns hturns => ?_⟩
  have hleft := Nat.le_max_left n k
  have hright := Nat.le_max_right n k
  obtain ⟨m, rfl⟩ : ∃ m, turns = m + 1 := ⟨turns - 1, by omega⟩
  rw [iterations, if_pos h, hn fuel (by omega), Option.bind_some]
  exact hk fuel (by omega) m (by omega)

theorem loop_ends (I : σ → Prop) (measure : σ → ℕ)
    (hturn : ∀ s, I s → cond s = true → ∃ t, Ends (body s) t ∧ I t ∧ measure t < measure s)
    (h : I s) : ∃ s', LoopEnds cond body s s' ∧ I s' ∧ cond s' = false := by
  induction hm : measure s using Nat.strong_induction_on generalizing s with
  | _ m ih =>
      cases hcond : cond s with
      | false => exact ⟨s, .stop hcond, h, hcond⟩
      | true =>
          obtain ⟨t, hbody, ht, hlt⟩ := hturn s h hcond
          obtain ⟨s', hrest, hs', hend⟩ := ih (measure t) (hm ▸ hlt) ht rfl
          exact ⟨s', .step hcond hbody hrest, hs', hend⟩

/-- **Total correctness of a loop.** -/
theorem while_ends (I : σ → Prop) (measure : σ → ℕ)
    (hturn : ∀ s, I s → cond s = true → ∃ t, Ends (body s) t ∧ I t ∧ measure t < measure s)
    (h : I s) : ∃ s', Ends (whileLoop cond body s) s' ∧ I s' ∧ cond s' = false := by
  obtain ⟨s', hloop, hs', hend⟩ := loop_ends I measure hturn h
  exact ⟨s', hloop.ends, hs', hend⟩

end Loops
