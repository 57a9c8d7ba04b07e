import RifRelay.Machine.Rules

set_option autoImplicit false

/-! # Going into a message

What a message that went through has done, frame by frame from the outside: `Spec.ran` promises
of every message that it did what the interpreter does, and nothing else. The weakest
precondition of a frame under it tells which messages the frame has sent, in which
configurations, and what they were answered; `ran_frame` then goes into one of these.
-/

namespace CallMachine

variable {σ ι ε ρ : Type}

/-- Messages do what the interpreter does with some depth and some gas. -/
def Spec.ran (M : Machine σ ι ε ρ) : Spec σ ι ε ρ where
  pre _ _ := True
  post m r c c' := ∃ depth static g,
    (exec M depth static g m c).value = r ∧ (exec M depth static g m c).conf = c'

variable {M : Machine σ ι ε ρ} {m : ι} {r : ρ} {c c' : Conf σ ι ε ρ}

theorem answers_ran (depth : Nat) : Answers (Spec.ran M) (exec M depth) :=
  fun static g _ _ _ => ⟨depth, static, g, rfl, rfl⟩

theorem ran_follows {x : Except ε ρ} (h : (Spec.ran M).post m x c c') : Follows m x c c' := by
  obtain ⟨depth, static, g, hvalue, hconf⟩ := h
  have hfollows := exec_follows M depth static g m c
  rwa [hvalue, hconf] at hfollows

/-- What every message does, this one has done. -/
theorem ran_spec {S : Spec σ ι ε ρ} (hS : Meets M S) {x : Except ε ρ}
    (h : (Spec.ran M).post m x c c') (hpre : S.pre m c) : S.post m x c c' := by
  obtain ⟨depth, static, g, rfl, rfl⟩ := h
  exact exec_spec hS depth static g m c hpre

/-! ## Answers on the way -/

theorem Conf.Continues.refl (c : Conf σ ι ε ρ) : c.Continues c :=
  ⟨List.prefix_refl _, List.prefix_refl _⟩

theorem Conf.Continues.trans {c'' : Conf σ ι ε ρ} (h : c.Continues c') (h' : c'.Continues c'') :
    c.Continues c'' :=
  ⟨h.1.trans h'.1, h.2.trans h'.2⟩

theorem Conf.continues_entered (c : Conf σ ι ε ρ) (m : ι) (s : σ) : c.Continues (c.entered m s) :=
  ⟨List.prefix_append _ _, List.prefix_refl _⟩

theorem Conf.continues_answered (c : Conf σ ι ε ρ) (m : ι) (x : Except ε ρ) :
    c.Continues (c.answered m x) :=
  ⟨List.prefix_refl _, List.prefix_append _ _⟩

theorem Conf.continues_put (c : Conf σ ι ε ρ) (s : σ) : c.Continues (c.put s) :=
  ⟨List.prefix_refl _, List.prefix_refl _⟩

theorem ran_continues {x : Except ε ρ} (h : (Spec.ran M).post m x c c') : c.Continues c' :=
  (ran_follows h).continues

/-- Between two configurations a message got an answer. -/
def NewAnswer (c c' : Conf σ ι ε ρ) (m : ι) (x : Except ε ρ) : Prop :=
  ∃ k, c'.answers = c.answers ++ k ∧ (m, x) ∈ k

theorem NewAnswer.mono {c₁ c₂ : Conf σ ι ε ρ} {x : Except ε ρ} (h : NewAnswer c₁ c₂ m x)
    (hbefore : c.Continues c₁) (hafter : c₂.Continues c') : NewAnswer c c' m x := by
  obtain ⟨k, hk, hmem⟩ := h
  obtain ⟨k₁, hk₁⟩ := hbefore.2
  obtain ⟨k₂, hk₂⟩ := hafter.2
  refine ⟨k₁ ++ k ++ k₂, ?_, by simp [hmem]⟩
  rw [← hk₂, hk, ← hk₁]
  simp only [List.append_assoc]

/-- The answer stays if the message is sent on the way from one to the other. -/
theorem newAnswer_of_ran {c₁ c₂ : Conf σ ι ε ρ} {x : Except ε ρ} (hbefore : c.Continues c₁)
    (h : (Spec.ran M).post m x c₁ c₂) (hafter : c₂.Continues c') : NewAnswer c c' m x := by
  have hanswered : NewAnswer c₁ c₂ m x := by
    have hfollows := ran_follows h
    cases x with
    | ok r =>
        obtain ⟨-, k, hk⟩ := hfollows
        exact ⟨k ++ [(m, .ok r)], by rw [hk, List.append_assoc], by simp⟩
    | error e =>
        obtain rfl : c₂ = c₁.answered m (.error e) := hfollows
        exact ⟨[(m, .error e)], rfl, by simp⟩
  exact hanswered.mono hbefore hafter

/-! ## The frame of a message -/

/-- **Going in.** A message that went through was entered, and its frame ended as its weakest
precondition says, with a history that goes on from there. -/
theorem ran_frame (h : (Spec.ran M).post m (.ok r) c c') {Q : σ → ρ → Conf σ ι ε ρ → Prop}
    (hwp : ∀ s, M.enter m c.state = some s →
      wp (Spec.ran M) (M.code m s) (Q s) (c.entered m s)) :
    ∃ s c'', M.enter m c.state = some s ∧ Q s r c'' ∧ c' = c''.answered m (.ok r) ∧
      (c.entered m s).Continues c'' := by
  obtain ⟨⟨l, htrace⟩, ⟨k, hanswers⟩⟩ := ran_follows h
  obtain ⟨depth, static, g, hvalue, rfl⟩ := h
  obtain ⟨c'', hconf, s, henter, hQ⟩ := exec_ok (Q := fun r c'' =>
      ∃ s, M.enter m c.state = some s ∧ Q s r c'') answers_ran hvalue
    fun s henter => wp_mono _ (fun _ _ hQ => ⟨s, henter, hQ⟩) _ _ (hwp s henter)
  refine ⟨s, c'', henter, hQ, hconf, ?_, ?_⟩
  · rw [hconf, Conf.answered_trace] at htrace
    rw [htrace, Conf.entered_trace]
    exact ⟨l, by rw [List.append_assoc, List.singleton_append]⟩
  · rw [hconf, Conf.answered_answers] at hanswers
    rw [(List.append_inj' hanswers rfl).1]
    exact List.prefix_append _ _

end CallMachine
