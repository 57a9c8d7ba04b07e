import RifRelay.Machine.Program

set_option autoImplicit false

/-! # Running a program forward

The interpreter on sequences, and what it does when the gas is enough: if no access of the
state costs more than `B`, then a frame that has `B` to spend gets past its next access.
-/

namespace CallMachine

variable {σ ι ε ρ α β : Type} (M : Machine σ ι ε ρ) (callee : Callee σ ι ε ρ) (static : Bool)

/-! ## Sequences -/

/-- What comes after a first part. -/
def Outcome.andThen (r : Outcome σ ι ε ρ α)
    (next : α → Nat → Conf σ ι ε ρ → Outcome σ ι ε ρ β) : Outcome σ ι ε ρ β :=
  match r.value with
  | .ok a => next a r.gas r.conf
  | .error e => ⟨.error e, r.conf, r.gas⟩

theorem run_bind (p : Prog σ ι ε ρ α) (f : α → Prog σ ι ε ρ β) (g : Nat) (c : Conf σ ι ε ρ) :
    run M callee static (p.bind f) g c =
      (run M callee static p g c).andThen fun a g' c' => run M callee static (f a) g' c' := by
  induction p generalizing g c with
  | ret a => rfl
  | revert e => rfl
  | read k ih =>
      simp only [Prog.bind, run]
      split
      · rfl
      · exact ih _ _ _
  | update h k ih =>
      simp only [Prog.bind, run]
      split
      · rfl
      · exact ih _ _
  | gasleft k ih =>
      simp only [Prog.bind, run]
      split
      · rfl
      · exact ih _ _ _
  | call limit m k ih =>
      simp only [Prog.bind, run]
      split
      · rfl
      · exact ih _ _ _

theorem run_bind_of_ok {p : Prog σ ι ε ρ α} {g : Nat} {c : Conf σ ι ε ρ} {a : α}
    (h : (run M callee static p g c).value = .ok a) (f : α → Prog σ ι ε ρ β) :
    run M callee static (p.bind f) g c =
      run M callee static (f a) (run M callee static p g c).gas
        (run M callee static p g c).conf := by
  rw [run_bind, Outcome.andThen, h]

/-- A sequence that ends well did so in both parts. -/
theorem run_bind_ok {p : Prog σ ι ε ρ α} {f : α → Prog σ ι ε ρ β} {g : Nat} {c : Conf σ ι ε ρ}
    {b : β} (h : (run M callee static (p.bind f) g c).value = .ok b) :
    ∃ a, (run M callee static p g c).value = .ok a ∧
      (run M callee static (f a) (run M callee static p g c).gas
        (run M callee static p g c).conf).value = .ok b := by
  rw [run_bind] at h
  unfold Outcome.andThen at h
  split at h
  · next a ha => exact ⟨a, ha, h⟩
  · cases h

/-- A call that a frame gets through with, and what the callee got. -/
theorem run_send_ok {limit : Option Nat} {m : ι} {f : Except ε ρ → Prog σ ι ε ρ β} {g : Nat}
    {c : Conf σ ι ε ρ} {b : β}
    (h : (run M callee static ((Prog.send limit m).bind f) g c).value = .ok b) :
    ∃ left kept, run M callee static ((Prog.send limit m).bind f) g c =
      run M callee static
        (f (callee (static || M.isStatic m) (forwarded limit left + M.stipend m) m c).value) kept
        (callee (static || M.isStatic m) (forwarded limit left + M.stipend m) m c).conf := by
  have hrun : run M callee static ((Prog.send limit m).bind f) g c =
      run M callee static (.call limit m f) g c := rfl
  rw [hrun] at h ⊢
  simp only [run] at h ⊢
  split at h
  · cases h
  · next hcost =>
      rw [if_neg hcost]
      exact ⟨g - M.cost c.state g, _, rfl⟩

/-- A message of a sequence is sent by one of its parts. -/
theorem sends_bind {reached : Bool → Nat → ι → Conf σ ι ε ρ → Prop} {p : Prog σ ι ε ρ α}
    {f : α → Prog σ ι ε ρ β} {g : Nat} {c : Conf σ ι ε ρ} :
    Sends M callee static reached (p.bind f) g c ↔
      Sends M callee static reached p g c ∨
        ∃ a, (run M callee static p g c).value = .ok a ∧
          Sends M callee static reached (f a) (run M callee static p g c).gas
            (run M callee static p g c).conf := by
  induction p generalizing g c with
  | ret a => simp [Prog.bind, Sends, run]
  | revert e => simp [Prog.bind, Sends, run]
  | read k ih =>
      simp only [Prog.bind, Sends, run]
      split
      · next hcost => simp [stop, Nat.not_le.mpr hcost]
      · next hcost =>
          rw [ih]
          simp [Nat.not_lt.mp hcost]
  | update h k ih =>
      simp only [Prog.bind, Sends, run]
      split
      · next hcost => 
          rcases hcost with hcost | hcost
          · simp [stop, Nat.not_le.mpr hcost]
          · simp [stop, hcost]
      · next hcost =>
          rw [not_or] at hcost
          rw [ih]
          simp [Nat.not_lt.mp hcost.1, hcost.2]
  | gasleft k ih =>
      simp only [Prog.bind, Sends, run]
      split
      · next hcost => simp [stop, Nat.not_le.mpr hcost]
      · next hcost =>
          rw [ih]
          simp [Nat.not_lt.mp hcost]
  | call limit m k ih =>
      simp only [Prog.bind, Sends, run]
      split
      · next hcost =>
          rcases hcost with hcost | hcost
          · simp [stop, Nat.not_le.mpr hcost]
          · simp [stop, hcost]
      · next hcost =>
          rw [not_or] at hcost
          rw [ih]
          simp only [Nat.not_lt.mp hcost.1, hcost.2, not_false_eq_true, true_and, or_assoc]

/-! ## Enough gas -/

/-- The program ends well with the value `a`, in `c'` and with `g'` gas left. -/
def Passes (p : Prog σ ι ε ρ α) (g : Nat) (c : Conf σ ι ε ρ) (a : α) (g' : Nat)
    (c' : Conf σ ι ε ρ) : Prop :=
  run M callee static p g c = ⟨.ok a, c', g'⟩

section Passes

variable {M callee static} {p : Prog σ ι ε ρ α} {f : α → Prog σ ι ε ρ β} {g g' : Nat}
  {c c' : Conf σ ι ε ρ} {a : α}

theorem Passes.bind (h : Passes M callee static p g c a g' c') :
    run M callee static (p.bind f) g c = run M callee static (f a) g' c' := by
  rw [run_bind, show run M callee static p g c = _ from h]
  rfl

theorem Passes.sends_iff {reached : Bool → Nat → ι → Conf σ ι ε ρ → Prop}
    (h : Passes M callee static p g c a g' c') :
    Sends M callee static reached (p.bind f) g c ↔
      Sends M callee static reached p g c ∨ Sends M callee static reached (f a) g' c' := by
  rw [sends_bind, show run M callee static p g c = _ from h]
  refine or_congr Iff.rfl ⟨?_, fun hs => ⟨a, rfl, hs⟩⟩
  rintro ⟨a', ha, hs⟩
  cases ha
  exact hs

theorem Passes.sends {reached : Bool → Nat → ι → Conf σ ι ε ρ → Prop}
    (h : Passes M callee static p g c a g' c')
    (hs : Sends M callee static reached (f a) g' c') :
    Sends M callee static reached (p.bind f) g c :=
  h.sends_iff.mpr (Or.inr hs)

theorem Passes.trans {b : β} {g'' : Nat} {c'' : Conf σ ι ε ρ}
    (h : Passes M callee static p g c a g' c')
    (hf : Passes M callee static (f a) g' c' b g'' c'') :
    Passes M callee static (p.bind f) g c b g'' c'' :=
  h.bind.trans hf

theorem passes_ret (a : α) : Passes M callee static (.ret a) g c a g c := rfl

theorem passes_assert {q : Prop} [Decidable q] (hq : q) (e : ε) :
    Passes M callee static (Prog.assert q e) g c () g c := by
  rw [Prog.assert, if_pos hq]
  rfl

variable {B : Nat}

theorem passes_get (hB : ∀ s g, M.cost s g ≤ B) (hg : B ≤ g) :
    ∃ g', g ≤ g' + B ∧ Passes M callee static .get g c c.state g' c := by
  have hcost := hB c.state g
  refine ⟨g - M.cost c.state g, by omega, ?_⟩
  show run M callee static (.read .ret) g c = _
  rw [run, if_neg (by omega)]
  rfl

theorem passes_modify (hB : ∀ s g, M.cost s g ≤ B) (hg : B ≤ g) (hs : static = false)
    (u : σ → σ) :
    ∃ g', g ≤ g' + B ∧
      Passes M callee static (.modify u) g c () g' (c.put (u c.state)) := by
  have hcost := hB c.state g
  subst hs
  refine ⟨g - M.cost c.state g, by omega, ?_⟩
  show run M callee false (.update u (.ret ())) g c = _
  rw [run, if_neg (by simp; omega)]
  rfl

/-- A call gets at least half of the gas, and one 64th stays with the caller. -/
theorem passes_send (hB : ∀ s g, M.cost s g ≤ B) (hg : B ≤ g) (limit : Option Nat) (m : ι)
    (hs : static = false ∨ M.isPaying m = false) :
    ∃ gas kept, (limit = none → g ≤ B + 2 * gas) ∧ g ≤ B + 64 * kept + 63 ∧
      Passes M callee static (.send limit m) g c
        (callee (static || M.isStatic m) gas m c).value
        (kept + (callee (static || M.isStatic m) gas m c).gas)
        (callee (static || M.isStatic m) gas m c).conf ∧
      ∀ reached : Bool → Nat → ι → Conf σ ι ε ρ → Prop,
        reached (static || M.isStatic m) gas m c →
          Sends M callee static reached (.send limit m) g c := by
  have hcost := hB c.state g
  have hfree : ¬ (static = true ∧ M.isPaying m = true) := by
    rcases hs with hs | hs <;> simp [hs]
  refine ⟨forwarded limit (g - M.cost c.state g) + M.stipend m,
    g - M.cost c.state g - forwarded limit (g - M.cost c.state g), ?_, ?_, ?_, ?_⟩
  · rintro rfl
    simp only [forwarded]
    omega
  · cases limit with
    | none =>
        simp only [forwarded]
        omega
    | some x =>
        simp only [forwarded]
        omega
  · show run M callee static (.call limit m .ret) g c = _
    rw [run, if_neg (by rw [not_or]; exact ⟨by omega, hfree⟩)]
    rfl
  · intro reached hr
    exact ⟨by omega, hfree, Or.inl hr⟩

/-- A message whose code ends well is answered. -/
theorem exec_passes {depth : Nat} {m : ι} {s : σ} {r : ρ}
    (henter : M.enter m c.state = some s)
    (h : Passes M (exec M depth) static (M.code m s) g (c.entered m s) r g' c') :
    exec M (depth + 1) static g m c = ⟨.ok r, c'.answered m (.ok r), g'⟩ := by
  simp only [exec, henter]
  rw [show run M (exec M depth) static (M.code m s) g (c.entered m s) = _ from h]

end Passes

end CallMachine
