import RifRelay.Machine.Program

set_option autoImplicit false

/-! # Proof rules for programs that call each other

A *specification* says of every message in which configurations it may be sent
(`pre`) and what has happened when its outcome comes back (`post`). `wp S p Q` is the
weakest precondition of the program `p` for the postcondition `Q` when all its calls are
answered by `S`; failing is always allowed, because a failed frame is rolled back.

* `exec_spec` — if every code meets the specification with its calls answered by the
  specification, then the interpreter meets it, at every depth and with every amount of
  gas. This is the rule for recursive, re-entrant calls: the induction on the depth is
  done here once. `visits_spec` says the same of every message that is sent on the way.
* `Prog.Within R C` — a syntactic bound on unknown code: its writes stay in `R` and its
  messages in `C`. `wp_within` turns the bound into a weakest precondition for any
  property that `R` and the answers to `C` preserve.
-/

namespace CallMachine

variable {σ ι ε ρ α β : Type}

/-! ## Weakest preconditions -/

/-- What may be assumed and what is promised about messages. -/
structure Spec (σ ι ε ρ : Type) where
  pre : ι → Conf σ ι ε ρ → Prop
  post : ι → Except ε ρ → Conf σ ι ε ρ → Conf σ ι ε ρ → Prop

/-- The weakest precondition of a program whose calls are answered by `S`. -/
def wp (S : Spec σ ι ε ρ) : Prog σ ι ε ρ α → (α → Conf σ ι ε ρ → Prop) → Conf σ ι ε ρ → Prop
  | .ret a, Q, c => Q a c
  | .revert _, _, _ => True
  | .read k, Q, c => wp S (k c.state) Q c
  | .update f k, Q, c => wp S k Q (c.put (f c.state))
  | .gasleft k, Q, c => ∀ g, wp S (k g) Q c
  | .call _ m k, Q, c => S.pre m c ∧ ∀ r c', S.post m r c c' → wp S (k r) Q c'

section Wp

variable (S : Spec σ ι ε ρ) (Q : α → Conf σ ι ε ρ → Prop) (c : Conf σ ι ε ρ)

@[simp] theorem wp_ret (a : α) : wp S (.ret a) Q c ↔ Q a c := Iff.rfl

@[simp] theorem wp_revert (e : ε) : wp S (.revert e) Q c ↔ True := Iff.rfl

@[simp] theorem wp_get (Q : σ → Conf σ ι ε ρ → Prop) :
    wp S Prog.get Q c ↔ Q c.state c := Iff.rfl

@[simp] theorem wp_modify (f : σ → σ) (Q : Unit → Conf σ ι ε ρ → Prop) :
    wp S (Prog.modify f) Q c ↔ Q () (c.put (f c.state)) := Iff.rfl

@[simp] theorem wp_gas (Q : Nat → Conf σ ι ε ρ → Prop) :
    wp S Prog.gas Q c ↔ ∀ g, Q g c := Iff.rfl

@[simp] theorem wp_send (limit : Option Nat) (m : ι) (Q : Except ε ρ → Conf σ ι ε ρ → Prop) :
    wp S (Prog.send limit m) Q c ↔ S.pre m c ∧ ∀ r c', S.post m r c c' → Q r c' := Iff.rfl

@[simp] theorem wp_assert (p : Prop) [Decidable p] (e : ε) (Q : Unit → Conf σ ι ε ρ → Prop) :
    wp S (Prog.assert p e) Q c ↔ (p → Q () c) := by
  unfold Prog.assert
  by_cases hp : p <;> simp [hp]

theorem wp_ite (p : Prop) [Decidable p] (x y : Prog σ ι ε ρ α) :
    wp S (if p then x else y) Q c ↔ (p → wp S x Q c) ∧ (¬ p → wp S y Q c) := by
  by_cases hp : p <;> simp [hp]

@[simp] theorem wp_bind (p : Prog σ ι ε ρ α) (f : α → Prog σ ι ε ρ β)
    (Q : β → Conf σ ι ε ρ → Prop) (c : Conf σ ι ε ρ) :
    wp S (p.bind f) Q c ↔ wp S p (fun a c' => wp S (f a) Q c') c := by
  induction p generalizing c with
  | ret a => exact Iff.rfl
  | revert e => exact Iff.rfl
  | read k ih => exact ih c.state c
  | update g k ih => exact ih (c.put (g c.state))
  | gasleft k ih => exact forall_congr' fun g => ih g c
  | call limit m k ih =>
      refine and_congr Iff.rfl (forall_congr' fun r => forall_congr' fun c' => ?_)
      exact imp_congr Iff.rfl (ih r c')

theorem wp_mono {Q Q' : α → Conf σ ι ε ρ → Prop} (hQ : ∀ a c, Q a c → Q' a c)
    (p : Prog σ ι ε ρ α) (c : Conf σ ι ε ρ) (h : wp S p Q c) : wp S p Q' c := by
  induction p generalizing c with
  | ret a => exact hQ a c h
  | revert e => exact trivial
  | read k ih => exact ih c.state c h
  | update g k ih => exact ih (c.put (g c.state)) h
  | gasleft k ih => exact fun g => ih g c (h g)
  | call limit m k ih => exact ⟨h.1, fun r c' hr => ih r c' (h.2 r c' hr)⟩

end Wp

/-- The same specification, with one more promise. -/
def Spec.also (S : Spec σ ι ε ρ)
    (promise : ι → Except ε ρ → Conf σ ι ε ρ → Conf σ ι ε ρ → Prop) : Spec σ ι ε ρ where
  pre := S.pre
  post m r c c' := S.post m r c c' ∧ promise m r c c'

/-- The specification that demands nothing. -/
def Spec.promising (promise : ι → Except ε ρ → Conf σ ι ε ρ → Conf σ ι ε ρ → Prop) :
    Spec σ ι ε ρ where
  pre _ _ := True
  post := promise

/-- What is promised of the calls is shown once, and one more promise on top of it: it may be
shown as if the calls demanded nothing. -/
theorem wp_also {S : Spec σ ι ε ρ}
    {promise : ι → Except ε ρ → Conf σ ι ε ρ → Conf σ ι ε ρ → Prop}
    {Q Q' : α → Conf σ ι ε ρ → Prop} {p : Prog σ ι ε ρ α} {c : Conf σ ι ε ρ}
    (h : wp S p Q c) (h' : wp (.promising promise) p Q' c) :
    wp (S.also promise) p (fun a c' => Q a c' ∧ Q' a c') c := by
  induction p generalizing c with
  | ret a => exact ⟨h, h'⟩
  | revert e => exact trivial
  | read k ih => exact ih c.state h h'
  | update f k ih => exact ih h h'
  | gasleft k ih => exact fun g => ih g (h g) (h' g)
  | call limit m k ih =>
      exact ⟨h.1, fun r c' hr => ih r (h.2 r c' hr.1) (h'.2 r c' hr.2)⟩

/-! ## Soundness -/

section Sound

variable (M : Machine σ ι ε ρ) (S : Spec σ ι ε ρ)

/-- A callee that answers messages as the specification says. -/
def Answers (callee : Callee σ ι ε ρ) : Prop :=
  ∀ static g m c, S.pre m c →
    S.post m (callee static g m c).value c (callee static g m c).conf

/-- The specification that neither demands nor promises anything. -/
def Spec.any : Spec σ ι ε ρ := ⟨fun _ _ => True, fun _ _ _ _ => True⟩

theorem answers_any (callee : Callee σ ι ε ρ) : Answers Spec.any callee :=
  fun _ _ _ _ _ => trivial

/-- One frame: a program that meets its weakest precondition ends as promised. -/
theorem run_spec {callee : Callee σ ι ε ρ} (hcallee : Answers S callee) (static : Bool)
    (p : Prog σ ι ε ρ α) (Q : α → Conf σ ι ε ρ → Prop) (g : Nat) (c : Conf σ ι ε ρ)
    (h : wp S p Q c) (a : α) (ha : (run M callee static p g c).value = .ok a) :
    Q a (run M callee static p g c).conf := by
  induction p generalizing g c with
  | ret b =>
      cases ha
      exact h
  | revert e => cases ha
  | read k ih =>
      simp only [run] at ha ⊢
      split at ha
      · cases ha
      · rename_i hcost
        rw [if_neg hcost]
        exact ih c.state _ c h ha
  | update f k ih =>
      simp only [run] at ha ⊢
      split at ha
      · cases ha
      · rename_i hcost
        rw [if_neg hcost]
        exact ih _ _ h ha
  | gasleft k ih =>
      simp only [run] at ha ⊢
      split at ha
      · cases ha
      · rename_i hcost
        rw [if_neg hcost]
        exact ih _ _ c (h _) ha
  | call limit m k ih =>
      simp only [run] at ha ⊢
      split at ha
      · cases ha
      · rename_i hcost
        rw [if_neg hcost]
        exact ih _ _ _ (h.2 _ _ (hcallee _ _ m c h.1)) ha

/-- One frame: every message it sends is sent as the specification demands. -/
theorem sends_spec {callee : Callee σ ι ε ρ} (hcallee : Answers S callee) (static : Bool)
    {reached : Bool → Nat → ι → Conf σ ι ε ρ → Prop} {B : Prop}
    (hreached : ∀ static g m c, S.pre m c → reached static g m c → B)
    (p : Prog σ ι ε ρ α) (Q : α → Conf σ ι ε ρ → Prop) (g : Nat) (c : Conf σ ι ε ρ)
    (h : wp S p Q c) (hs : Sends M callee static reached p g c) : B := by
  induction p generalizing g c with
  | ret a => exact hs.elim
  | revert e => exact hs.elim
  | read k ih => exact ih c.state _ c h hs.2
  | update f k ih => exact ih _ _ h hs.2.2
  | gasleft k ih => exact ih _ _ c (h _) hs.2
  | call limit m k ih =>
      rcases hs with ⟨-, -, hm | hk⟩
      · exact hreached _ _ m c h.1 hm
      · exact ih _ _ _ (h.2 _ _ (hcallee _ _ m c h.1)) hk

/-- Every code meets the specification of its message when its own calls are answered by
the specification, and nothing is promised about a failed message beyond what an unchanged
state gives. -/
structure Meets : Prop where
  fail : ∀ m e c, S.pre m c → S.post m (.error e) c (c.answered m (.error e))
  code : ∀ m c s, S.pre m c → M.enter m c.state = some s →
    wp S (M.code m s) (fun r c' => S.post m (.ok r) c (c'.answered m (.ok r)))
      (c.entered m s)

variable {M S}

/-- **The rule for re-entrant calls.** If every code meets the specification, then sending
a message does, whatever the depth, the gas and the static flag. -/
theorem exec_spec (h : Meets M S) (depth : Nat) : Answers S (exec M depth) := by
  induction depth with
  | zero =>
      intro static g m c hpre
      exact h.fail m _ c hpre
  | succ depth ih =>
      intro static g m c hpre
      simp only [exec]
      cases henter : M.enter m c.state with
      | none => exact h.fail m _ c hpre
      | some s =>
          have hrun := run_spec M S ih static (M.code m s) _ g _ (h.code m c s hpre henter)
          simp only
          split
          next r c' g' heq =>
            rw [heq] at hrun
            exact hrun r rfl
          next e c' g' heq => exact h.fail m e c hpre

/-- The same for the points in between: every message an execution comes to is sent as the
specification demands. -/
theorem visits_spec (h : Meets M S) (depth : Nat) (static : Bool) (g : Nat) (m : ι)
    (c : Conf σ ι ε ρ) (hpre : S.pre m c) (m' : ι) (c' : Conf σ ι ε ρ)
    (hv : Visits M m' c' depth static g m c) : S.pre m' c' := by
  induction depth generalizing static g m c with
  | zero =>
      obtain ⟨rfl, rfl⟩ := hv
      exact hpre
  | succ depth ih =>
      rcases hv with ⟨rfl, rfl⟩ | ⟨s, henter, hsends⟩
      · exact hpre
      · exact sends_spec M S (exec_spec h depth) static ih (M.code m s) _ g _
          (h.code m c s hpre henter) hsends

end Sound

/-! ## History -/

/-- What a message does to the history, whatever the machine: a message that goes through is
in the trace and gets its answer, one that fails leaves nothing but its answer. -/
def Follows (m : ι) (r : Except ε ρ) (c c' : Conf σ ι ε ρ) : Prop :=
  match r with
  | .ok _ => (∃ l, c'.trace = c.trace ++ ⟨m, c.state⟩ :: l) ∧
      ∃ l, c'.answers = c.answers ++ l ++ [(m, r)]
  | .error _ => c' = c.answered m r

/-- The same specification, and what is said of the history as well. -/
def Spec.tracked (S : Spec σ ι ε ρ) : Spec σ ι ε ρ where
  pre := S.pre
  post m r c c' := S.post m r c c' ∧ Follows m r c c'

/-- The history of a conf goes on in another. -/
def Conf.Continues (c c' : Conf σ ι ε ρ) : Prop :=
  c.trace <+: c'.trace ∧ c.answers <+: c'.answers

theorem Follows.continues {m : ι} {r : Except ε ρ} {c c' : Conf σ ι ε ρ}
    (h : Follows m r c c') : c.Continues c' := by
  cases r with
  | ok a =>
      obtain ⟨⟨l, htrace⟩, k, hanswers⟩ := h
      refine ⟨⟨_, htrace.symm⟩, ⟨k ++ [(m, .ok a)], ?_⟩⟩
      rw [hanswers, List.append_assoc]
  | error e =>
      obtain rfl : c' = c.answered m (.error e) := h
      exact ⟨List.prefix_refl _, List.prefix_append _ _⟩

theorem wp_tracked {S : Spec σ ι ε ρ} {p : Prog σ ι ε ρ α} {Q : α → Conf σ ι ε ρ → Prop}
    {c₀ c : Conf σ ι ε ρ} (hc : c₀.Continues c) (h : wp S.tracked p Q c) :
    wp S.tracked p (fun a c' => Q a c' ∧ c₀.Continues c') c := by
  induction p generalizing c with
  | ret a => exact ⟨h, hc⟩
  | revert e => exact trivial
  | read k ih => exact ih c.state hc h
  | update f k ih => exact ih hc h
  | gasleft k ih => exact fun g => ih g hc (h g)
  | call limit m k ih =>
      refine ⟨h.1, fun r c' hr => ih r ?_ (h.2 r c' hr)⟩
      have hnext := hr.2.continues
      exact ⟨hc.1.trans hnext.1, hc.2.trans hnext.2⟩

/-- To meet the tracked specification it is enough to meet the promises that are not about
the history. -/
theorem Meets.tracked {M : Machine σ ι ε ρ} {S : Spec σ ι ε ρ}
    (fail : ∀ m e c, S.pre m c → S.post m (.error e) c (c.answered m (.error e)))
    (code : ∀ m c s, S.pre m c → M.enter m c.state = some s →
      wp S.tracked (M.code m s) (fun r c' => S.post m (.ok r) c (c'.answered m (.ok r)))
        (c.entered m s)) : Meets M S.tracked where
  fail := fun m e c hpre => ⟨fail m e c hpre, rfl⟩
  code := by
    intro m c s hpre henter
    refine wp_mono _ ?_ _ _
      (wp_tracked ⟨List.prefix_refl _, List.prefix_refl _⟩ (code m c s hpre henter))
    rintro r c' ⟨hpost, ⟨l, htrace⟩, ⟨k, hanswers⟩⟩
    refine ⟨hpost, ⟨l, ?_⟩, ⟨k, ?_⟩⟩
    · rw [Conf.answered_trace, ← htrace, Conf.entered_trace, List.append_assoc]
      rfl
    · rw [Conf.answered_answers, ← hanswers, Conf.entered_answers]

/-- Whatever the machine, messages follow the rules of the history. -/
theorem exec_follows (M : Machine σ ι ε ρ) (depth : Nat) (static : Bool) (g : Nat) (m : ι)
    (c : Conf σ ι ε ρ) :
    Follows m (exec M depth static g m c).value c (exec M depth static g m c).conf := by
  have hwp : ∀ {α : Type} (p : Prog σ ι ε ρ α) (c : Conf σ ι ε ρ),
      wp Spec.any.tracked p (fun _ _ => True) c := by
    intro α p
    induction p with
    | ret a => exact fun _ => trivial
    | revert e => exact fun _ => trivial
    | read k ih => exact fun c => ih c.state c
    | update f k ih => exact fun c => ih _
    | gasleft k ih => exact fun c g => ih g c
    | call limit m k ih => exact fun c => ⟨trivial, fun r c' _ => ih r c'⟩
  have hmeets : Meets M Spec.any.tracked :=
    Meets.tracked (fun _ _ _ _ => trivial) fun m c s _ _ => hwp _ _
  exact (exec_spec hmeets depth static g m c trivial).2

/-- A message that fails leaves nothing but its answer. -/
theorem exec_error {M : Machine σ ι ε ρ} {depth : Nat} {static : Bool} {g : Nat} {m : ι}
    {c : Conf σ ι ε ρ} {e : ε} (h : (exec M depth static g m c).value = .error e) :
    (exec M depth static g m c).conf = c.answered m (.error e) := by
  have hfollows := exec_follows M depth static g m c
  rw [h] at hfollows
  exact hfollows

/-- Every callee of the interpreter tracks the history. -/
theorem answers_tracked (M : Machine σ ι ε ρ) (depth : Nat) :
    Answers Spec.any.tracked (exec M depth) :=
  fun static g m c _ => ⟨trivial, exec_follows M depth static g m c⟩

/-- What a message that goes through has done, told by the weakest precondition of its
frame. -/
theorem exec_ok {M : Machine σ ι ε ρ} {S : Spec σ ι ε ρ} (hS : ∀ depth, Answers S (exec M depth))
    {depth : Nat} {static : Bool} {g : Nat} {m : ι} {c : Conf σ ι ε ρ} {r : ρ}
    {Q : ρ → Conf σ ι ε ρ → Prop} (hok : (exec M depth static g m c).value = .ok r)
    (hwp : ∀ s, M.enter m c.state = some s → wp S (M.code m s) Q (c.entered m s)) :
    ∃ c', (exec M depth static g m c).conf = c'.answered m (.ok r) ∧ Q r c' := by
  cases depth with
  | zero => cases hok
  | succ depth =>
      simp only [exec] at hok ⊢
      cases henter : M.enter m c.state with
      | none =>
          rw [henter] at hok
          cases hok
      | some s =>
          have hrun := run_spec M S (hS depth) static (M.code m s) Q g _ (hwp s henter)
          rw [henter] at hok
          simp only at hok ⊢
          split at hok
          next r' c' g' heq =>
            rw [heq] at hrun
            obtain rfl : r' = r := Except.ok.inj hok
            exact ⟨c', rfl, hrun r' rfl⟩
          next => cases hok

/-! ## Bounded programs -/

namespace Prog

/-- Every write of the program stays in `R`, every message it sends is in `C`. -/
def Within (R : σ → σ → Prop) (C : ι → Prop) : Prog σ ι ε ρ α → Prop
  | .ret _ => True
  | .revert _ => True
  | .read k => ∀ s, (k s).Within R C
  | .update f k => (∀ s, R s (f s)) ∧ k.Within R C
  | .gasleft k => ∀ g, (k g).Within R C
  | .call _ m k => C m ∧ ∀ r, (k r).Within R C

section Within

variable (R : σ → σ → Prop) (C : ι → Prop)

@[simp] theorem within_ret (a : α) : (Prog.ret a : Prog σ ι ε ρ α).Within R C := trivial

@[simp] theorem within_revert (e : ε) : (Prog.revert e : Prog σ ι ε ρ α).Within R C := trivial

@[simp] theorem within_get : (Prog.get : Prog σ ι ε ρ σ).Within R C := fun _ => trivial

@[simp] theorem within_gas : (Prog.gas : Prog σ ι ε ρ Nat).Within R C := fun _ => trivial

@[simp] theorem within_modify (f : σ → σ) :
    (Prog.modify f : Prog σ ι ε ρ Unit).Within R C ↔ ∀ s, R s (f s) :=
  ⟨fun h => h.1, fun h => ⟨h, trivial⟩⟩

@[simp] theorem within_send (limit : Option Nat) (m : ι) :
    (Prog.send limit m : Prog σ ι ε ρ (Except ε ρ)).Within R C ↔ C m :=
  ⟨fun h => h.1, fun h => ⟨h, fun _ => trivial⟩⟩

@[simp] theorem within_assert (p : Prop) [Decidable p] (e : ε) :
    (Prog.assert p e : Prog σ ι ε ρ Unit).Within R C := by
  unfold Prog.assert
  by_cases hp : p <;> simp [hp]

theorem Within.ite {p : Prop} [Decidable p] {x y : Prog σ ι ε ρ α}
    (hx : x.Within R C) (hy : y.Within R C) : (if p then x else y).Within R C := by
  by_cases hp : p <;> simp [hp, hx, hy]

variable {R C}

theorem Within.bind {p : Prog σ ι ε ρ α} {f : α → Prog σ ι ε ρ β}
    (hp : p.Within R C) (hf : ∀ a, (f a).Within R C) : (p.bind f).Within R C := by
  induction p with
  | ret a => exact hf a
  | revert e => exact trivial
  | read k ih => exact fun s => ih s (hp s)
  | update g k ih => exact ⟨hp.1, ih hp.2⟩
  | gasleft k ih => exact fun g => ih g (hp g)
  | call limit m k ih => exact ⟨hp.1, fun r => ih r (hp.2 r)⟩

/-- The first part of a bounded program. -/
theorem Within.of_bind {p : Prog σ ι ε ρ α} {f : α → Prog σ ι ε ρ β}
    (h : (p.bind f).Within R C) : p.Within R C := by
  induction p with
  | ret a => exact trivial
  | revert e => exact trivial
  | read k ih => exact fun s => ih s (h s)
  | update g k ih => exact ⟨h.1, ih h.2⟩
  | gasleft k ih => exact fun g => ih g (h g)
  | call limit m k ih => exact ⟨h.1, fun r => ih r (h.2 r)⟩

theorem Within.mono {R' : σ → σ → Prop} {C' : ι → Prop} (hR : ∀ s t, R s t → R' s t)
    (hC : ∀ m, C m → C' m) {p : Prog σ ι ε ρ α} (hp : p.Within R C) : p.Within R' C' := by
  induction p with
  | ret a => exact trivial
  | revert e => exact trivial
  | read k ih => exact fun s => ih s (hp s)
  | update g k ih => exact ⟨fun s => hR _ _ (hp.1 s), ih hp.2⟩
  | gasleft k ih => exact fun g => ih g (hp g)
  | call limit m k ih => exact ⟨hC m hp.1, fun r => ih r (hp.2 r)⟩

/-- Two bounds at once. -/
theorem Within.and {R' : σ → σ → Prop} {C' : ι → Prop} {p : Prog σ ι ε ρ α}
    (hp : p.Within R C) (hp' : p.Within R' C') :
    p.Within (fun s t => R s t ∧ R' s t) (fun m => C m ∧ C' m) := by
  induction p with
  | ret a => exact trivial
  | revert e => exact trivial
  | read k ih => exact fun s => ih s (hp s) (hp' s)
  | update f k ih => exact ⟨fun s => ⟨hp.1 s, hp'.1 s⟩, ih hp.2 hp'.2⟩
  | gasleft k ih => exact fun g => ih g (hp g) (hp' g)
  | call limit m k ih => exact ⟨⟨hp.1, hp'.1⟩, fun r => ih r (hp.2 r) (hp'.2 r)⟩

end Within

end Prog

/-- **Bounded programs keep what their bounds keep.** If `J` survives every write in `R`,
allows every message in `C` and survives its outcome, then a program within these bounds
keeps `J`. -/
theorem wp_within {S : Spec σ ι ε ρ} {R : σ → σ → Prop} {C : ι → Prop}
    {J : Conf σ ι ε ρ → Prop}
    (hwrite : ∀ c s, J c → R c.state s → J (c.put s))
    (hsend : ∀ m c, C m → J c → S.pre m c)
    (hback : ∀ m r c c', C m → J c → S.post m r c c' → J c')
    {p : Prog σ ι ε ρ α} (hp : p.Within R C) (c : Conf σ ι ε ρ) (hc : J c) :
    wp S p (fun _ c' => J c') c := by
  induction p generalizing c with
  | ret a => exact hc
  | revert e => exact trivial
  | read k ih => exact ih c.state (hp c.state) c hc
  | update f k ih => exact ih hp.2 _ (hwrite _ _ hc (hp.1 _))
  | gasleft k ih => exact fun g => ih g (hp g) c hc
  | call limit m k ih =>
      exact ⟨hsend m c hp.1 hc,
        fun r c' hr => ih r (hp.2 r) c' (hback m r c c' hp.1 hc hr)⟩

end CallMachine
