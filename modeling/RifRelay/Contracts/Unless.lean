import RifRelay.Contracts.Guard

set_option autoImplicit false

/-! # Invariants that an event can end

The rule for properties that hold at every point of every run unless the history shows that
something has happened: a call nobody should make, or two strings with one hash. Once it has
happened nothing has to be proved any more, because a history is taken back only together
with the state.

Unlike in `Guarded`, every frame is treated by the code it runs. For frames that run code the
property is not about, `wp_frame` gives the writes that this code can do.
-/

namespace RifRelay

open CallMachine

variable {χ : Type}

/-- The specification of all messages: those that go through establish `I`, unless `X` has
happened. -/
abbrev unlessSpec (X : List (Entry (World χ) Msg) → Prop) (P : Msg → ChainConf χ → Prop)
    (I : ChainConf χ → Prop) (t : TxContext) : Spec (World χ) Msg Revert Bytes :=
  guardSpec (fun m c => X c.trace ∨ P m c) (fun _ c => X c.trace ∨ I c) t

/-- What it takes for `I` to hold at every point of every run unless `X` has happened. -/
structure KeptUnless (E : Env) (O : Outside E χ) (w₀ : World χ)
    (X : List (Entry (World χ) Msg) → Prop) (P : Msg → ChainConf χ → Prop)
    (I : ChainConf χ → Prop) : Prop where
  grow : ∀ l l', X l → X (l ++ l')
  start : I (Conf.start w₀)
  answered : ∀ c m r, I c → I (c.answered m r)
  write : ∀ c (msg : Msg) s, I c → E.codeless msg.self = true → OutsideStep E msg c.state s →
    I (c.put s)
  tx : ∀ c (tx : Tx), I c → E.codeless tx.origin = true → P tx.msg c
  frame : ∀ c (msg : Msg) s, P msg c → enter msg c.state = some s →
    wp (unlessSpec X P I msg.tx).tracked (codeOf E O msg s)
      (fun _ c' => X c'.trace ∨ I c') (c.entered msg s)

namespace KeptUnless

variable {E : Env} {O : Outside E χ} {w₀ : World χ} {X : List (Entry (World χ) Msg) → Prop}
  {P : Msg → ChainConf χ → Prop} {I : ChainConf χ → Prop}

/-- Whatever a message does, the history grows. -/
theorem grows (hgrow : ∀ l l', X l → X (l ++ l')) {c c' : ChainConf χ} (h : c.Continues c')
    (hx : X c.trace) : X c'.trace := by
  obtain ⟨l, hl⟩ := h.1
  rw [← hl]
  exact hgrow _ _ hx

/-- After a message sent under the invariant the invariant holds. -/
theorem back (hanswered : ∀ c m r, I c → I (c.answered m r)) {t : TxContext} {m : Msg}
    {r : Except Revert Bytes} {c c' : ChainConf χ} (hi : X c.trace ∨ I c)
    (hpost : (unlessSpec X P I t).tracked.post m r c c') : X c'.trace ∨ I c' := by
  refine guardSpec_back (I := fun _ c => X c.trace ∨ I c) (fun _ c m r h => ?_) hi hpost
  exact h.imp id (hanswered c m r)

theorem meets (h : KeptUnless E O w₀ X P I) (t : TxContext) :
    Meets (machine E O) (unlessSpec X P I t).tracked := by
  refine Meets.tracked ?_ ?_
  · rintro m e c - ⟨ret, hret⟩
    cases hret
  · rintro msg c s ⟨rfl, hp⟩ henter
    have hend : ∀ (r : Bytes) (c' : ChainConf χ), (X c'.trace ∨ I c') →
        (unlessSpec X P I msg.tx).post msg (.ok r) c (c'.answered msg (.ok r)) :=
      fun r c' hc' _ => hc'.imp id (h.answered c' _ _)
    refine wp_mono _ hend _ _ ?_
    rcases hp with hx | hp
    · -- it has happened: all that is left to say is that the history grows
      have hentered : X (c.entered msg s).trace := h.grow _ _ hx
      refine wp_mono _ (fun r c' hc' => Or.inl hc') _ _ ?_
      refine wp_foreign (J := fun c' => X c'.trace) (fun _ _ hj _ => hj) ?_ ?_ _ hentered
      · intro m c' hm hj
        exact ⟨hm.1, Or.inl hj⟩
      · intro m r c₁ c₂ _ hj hpost
        exact grows h.grow hpost.2.continues hj
    · exact h.frame c msg s hp henter

theorem settled (h : KeptUnless E O w₀ X P I) {b : Word} {c : ChainConf χ}
    (hc : Settled E O w₀ b c) : X c.trace ∨ I c := by
  induction hc with
  | start b => exact Or.inr h.start
  | wait _ b' hb ih => exact ih
  | @call b c _ tx depth hb horigin ih =>
      have hpre : (unlessSpec X P I tx.msg.tx).tracked.pre tx.msg c :=
        ⟨rfl, ih.imp id fun hi => h.tx c tx hi horigin⟩
      exact back h.answered ih (exec_spec (h.meets _) depth _ _ _ _ hpre)
  | create _ origin creation horigin hcr hvacant ih =>
      refine ih.imp id fun hi => ?_
      exact h.write _ (Msg.ofAccount origin) _ hi horigin (.create creation hcr hvacant)
  | fee _ payer dest v hpayer hne hv ih =>
      refine ih.imp id fun hi => ?_
      exact h.write _ (Msg.ofAccount payer) _ hi hpayer (.force dest v hne hv)

/-- **The rule.** At every point of every run, either `X` has happened, or the invariant
holds, or a message is sent under its precondition. -/
theorem point (h : KeptUnless E O w₀ X P I) {b : Word} {point : Option Msg} {c : ChainConf χ}
    (hc : Point E O w₀ b point c) :
    X c.trace ∨ (point = none ∧ I c) ∨ ∃ m, point = some m ∧ P m c := by
  cases hc with
  | settled hset => exact (h.settled hset).imp id fun hi => Or.inl ⟨rfl, hi⟩
  | @inside b c hset tx depth hb horigin m c' hv =>
      have hpre : (unlessSpec X P I tx.msg.tx).tracked.pre tx.msg c :=
        ⟨rfl, (h.settled hset).imp id fun hi => h.tx c tx hi horigin⟩
      have hm := visits_spec (h.meets _) depth _ _ _ _ hpre _ _ hv
      exact hm.2.imp id fun hp => Or.inr ⟨m, rfl, hp⟩

end KeptUnless

/-! ## Frames by their code -/

section Frames

variable {E : Env} {O : Outside E χ} {S : Spec (World χ) Msg Revert Bytes}
  {J : ChainConf χ → Prop} {msg : Msg} {w : World χ}

/-- A frame keeps what the writes of its code, the messages it can send and their answers
keep. -/
theorem wp_frame {k : Code} (hk : (w.code msg.codeAddress).map Contract.code = some k)
    (hwrite : ∀ c s, J c → FrameStep E msg c.state k s → J (c.put s))
    (hsend : ∀ m c, LocalCall msg m → J c → S.pre m c)
    (hback : ∀ m r c c', LocalCall msg m → J c → S.post m r c c' → J c')
    (c : ChainConf χ) (hc : J c) : wp S (codeOf E O msg w) (fun _ c' => J c') c :=
  wp_within hwrite hsend hback (local_codeOf E msg O w hk) c hc

/-- The frame of an account without a contract does nothing. -/
theorem wp_nothing (hk : w.code msg.codeAddress = none) (c : ChainConf χ) (hc : J c) :
    wp S (codeOf E O msg w) (fun _ c' => J c') c := by
  rw [codeOf_none E msg O hk]
  exact hc

end Frames

end RifRelay
