import Mathlib.Algebra.BigOperators.Group.List.Basic
import Mathlib.Tactic.Common
import Mathlib.Tactic.Abel

set_option autoImplicit false

/-! # Labelled paths

A relation `step e s s'` says how the event `e` moves the state `s` to `s'`. `EventPath step`
follows a list of events. Three ways to use a path:

* `EventPath.invariant` — what every step keeps holds at the end;
* `EventPath.or_exceptional` — as long as no exceptional event occurs, the steps keep a property and
  have another one themselves;
* `EventPath.sum` — what the steps add to and take from a quantity adds up over the path.

`EventPath.simulate` carries a path over to another relation, with other labels.
-/

/-- The events lead from the first state to the second. -/
def EventPath {S E : Type*} (step : E → S → S → Prop) : S → List E → S → Prop
  | s, [], s' => s = s'
  | s, e :: rest, s' => ∃ t, step e s t ∧ EventPath step t rest s'

namespace EventPath

variable {S E : Type*} {step : E → S → S → Prop}

theorem append_iff (s u : S) (l₁ l₂ : List E) :
    EventPath step s (l₁ ++ l₂) u ↔ ∃ t, EventPath step s l₁ t ∧ EventPath step t l₂ u := by
  induction l₁ generalizing s with
  | nil =>
      constructor
      · intro h
        exact ⟨s, rfl, h⟩
      · rintro ⟨t, rfl, h⟩
        exact h
  | cons e rest ih =>
      constructor
      · rintro ⟨t, hstep, h⟩
        obtain ⟨v, h₁, h₂⟩ := (ih t).mp h
        exact ⟨v, ⟨t, hstep, h₁⟩, h₂⟩
      · rintro ⟨v, ⟨t, hstep, h₁⟩, h₂⟩
        exact ⟨t, hstep, (ih t).mpr ⟨v, h₁, h₂⟩⟩

/-- One more event. -/
theorem snoc {s t u : S} {l : List E} {e : E} (h : EventPath step s l t) (hstep : step e t u) :
    EventPath step s (l ++ [e]) u :=
  (append_iff s u l [e]).mpr ⟨t, h, u, hstep, rfl⟩

theorem invariant {P : S → Prop} (hstep : ∀ e s s', step e s s' → P s → P s')
    {s s' : S} {l : List E} (h : EventPath step s l s') (hs : P s) : P s' := by
  induction l generalizing s with
  | nil =>
      obtain rfl : s = s' := h
      exact hs
  | cons e rest ih =>
      obtain ⟨t, ht, hrest⟩ := h
      exact ih hrest (hstep e s t ht hs)

/-- Unless an exceptional event occurs, `P` is kept and every event has the property `Q`. -/
theorem or_exceptional {P : S → Prop} {X Q : E → Prop} {s s' : S} {l : List E}
    (hstep : ∀ e ∈ l, ∀ s s', step e s s' → P s → X e ∨ (P s' ∧ Q e))
    (h : EventPath step s l s') (hs : P s) : (∃ e ∈ l, X e) ∨ (P s' ∧ ∀ e ∈ l, Q e) := by
  induction l generalizing s with
  | nil =>
      obtain rfl : s = s' := h
      exact Or.inr ⟨hs, by simp⟩
  | cons e rest ih =>
      obtain ⟨t, ht, hrest⟩ := h
      rcases hstep e (by simp) s t ht hs with hx | ⟨hP, hQ⟩
      · exact Or.inl ⟨e, by simp, hx⟩
      · rcases ih (fun d hd => hstep d (by simp [hd])) hrest hP with ⟨d, hd, hX⟩ | ⟨hP', hQ'⟩
        · exact Or.inl ⟨d, by simp [hd], hX⟩
        · refine Or.inr ⟨hP', ?_⟩
          rintro d (_ | ⟨_, hd⟩)
          · exact hQ
          · exact hQ' d hd

/-- A path whose steps another relation can follow is a path of that relation. -/
theorem simulate {T F : Type*} {step' : F → T → T → Prop} {R : S → T → Prop} (label : E → F)
    {s s' : S} {t : T} {l : List E}
    (hstep : ∀ e ∈ l, ∀ s s' t, step e s s' → R s t → ∃ t', step' (label e) t t' ∧ R s' t')
    (h : EventPath step s l s') (hR : R s t) :
    ∃ t', EventPath step' t (l.map label) t' ∧ R s' t' := by
  induction l generalizing s t with
  | nil =>
      obtain rfl : s = s' := h
      exact ⟨t, rfl, hR⟩
  | cons e rest ih =>
      obtain ⟨u, hu, hrest⟩ := h
      obtain ⟨v, hv, hRv⟩ := hstep e (by simp) s u t hu hR
      obtain ⟨t', ht', hR'⟩ := ih (fun d hd => hstep d (by simp [hd])) hrest hRv
      exact ⟨t', ⟨v, hv, ht'⟩, hR'⟩

/-- A quantity that every step changes by what flows in and what flows out. -/
theorem sum {M : Type*} [AddCommMonoid M] (f : S → M) (inflow outflow : E → M)
    (hstep : ∀ e s s', step e s s' → f s' + outflow e = f s + inflow e)
    {s s' : S} {l : List E} (h : EventPath step s l s') :
    f s' + (l.map outflow).sum = f s + (l.map inflow).sum := by
  induction l generalizing s with
  | nil =>
      obtain rfl : s = s' := h
      simp
  | cons e rest ih =>
      obtain ⟨t, ht, hrest⟩ := h
      calc f s' + ((e :: rest).map outflow).sum
          = (f s' + (rest.map outflow).sum) + outflow e := by
            rw [List.map_cons, List.sum_cons]
            abel
        _ = (f t + outflow e) + (rest.map inflow).sum := by
            rw [ih hrest]
            abel
        _ = f s + ((e :: rest).map inflow).sum := by
            rw [hstep e s t ht, List.map_cons, List.sum_cons]
            abel

end EventPath
