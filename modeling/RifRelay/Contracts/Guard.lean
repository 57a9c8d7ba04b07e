import RifRelay.Contracts.ProofRules

set_option autoImplicit false

/-! # Guarded accounts

The rule for invariants that hang on the code of a few accounts, the *guarded* ones, and
survive whatever all the others do. What is left to prove about the guarded accounts is that
their own code keeps the invariant up to each message it sends and from each answer on;
re-entrant calls are covered, since the invariant holds where they start.

A message is sent under a precondition `P`. For messages of accounts that are not guarded it
has to follow from the invariant; a guarded account may send a message while the invariant
does not hold, if `P` says how the message restores it.
-/

namespace RifRelay

open CallMachine

variable {χ : Type}

/-- The specification of all messages: those that go through establish the invariant. -/
def guardSpec (P : Msg → ChainConf χ → Prop) (I : Word → ChainConf χ → Prop) (t : TxContext) :
    Spec (World χ) Msg Revert Bytes where
  pre msg c := msg.tx = t ∧ P msg c
  post _ r _ c' := (∃ ret, r = .ok ret) → I t.blockNumber c'

/-- After a message sent under the invariant the invariant holds, whether it went through or
not. -/
theorem guardSpec_back {P : Msg → ChainConf χ → Prop} {I : Word → ChainConf χ → Prop}
    (hanswered : ∀ b c m r, I b c → I b (c.answered m r)) {t : TxContext} {m : Msg}
    {r : Except Revert Bytes} {c c' : ChainConf χ} (hi : I t.blockNumber c)
    (hpost : (guardSpec P I t).tracked.post m r c c') : I t.blockNumber c' := by
  cases r with
  | ok ret => exact hpost.1 ⟨ret, rfl⟩
  | error e =>
      obtain rfl : c' = c.answered m (.error e) := hpost.2
      exact hanswered _ _ _ _ hi

/-- What it takes for `I` to hold at every point of every run. -/
structure Guarded (E : Env) (O : Outside E χ) (w₀ : World χ) (G : Address → Prop)
    (P : Msg → ChainConf χ → Prop) (I : Word → ChainConf χ → Prop) : Prop where
  start : ∀ b, I b (Conf.start w₀)
  wait : ∀ b b' c, b ≤ b' → I b c → I b' c
  answered : ∀ b c m r, I b c → I b (c.answered m r)
  codeless : ∀ b c a, I b c → E.codeless a = true → ¬ G a
  write : ∀ b c (msg : Msg) s, I b c → ¬ G msg.self → LocalStep E msg c.state s → I b (c.put s)
  sends : ∀ c (msg m : Msg), I m.tx.blockNumber c → ¬ G msg.self → LocalCall msg m → P m c
  enter : ∀ c (msg : Msg) s, P msg c → ¬ G msg.self → enter msg c.state = some s →
    I msg.tx.blockNumber (c.entered msg s)
  own : ∀ c (msg : Msg) s, P msg c → G msg.self → RifRelay.enter msg c.state = some s →
    wp (guardSpec P I msg.tx).tracked (codeOf E O msg s)
      (fun _ c' => I msg.tx.blockNumber c') (c.entered msg s)

namespace Guarded

variable {E : Env} {O : Outside E χ} {w₀ : World χ} {G : Address → Prop}
  {P : Msg → ChainConf χ → Prop} {I : Word → ChainConf χ → Prop}

theorem meets (h : Guarded E O w₀ G P I) (t : TxContext) :
    Meets (machine E O) (guardSpec P I t).tracked := by
  refine Meets.tracked ?_ ?_
  · rintro m e c - ⟨ret, hret⟩
    cases hret
  · rintro msg c s ⟨rfl, hp⟩ henter
    refine wp_mono _ (fun r c' hc' _ => h.answered _ _ _ _ hc') _ _ ?_
    by_cases hg : G msg.self
    · exact h.own c msg s hp hg henter
    · -- the frame of an account that is not guarded
      refine wp_foreign ?_ ?_ ?_ _ (h.enter c msg s hp hg henter)
      · intro c₁ w hi₁ hw
        exact h.write _ _ msg w hi₁ hg hw
      · intro m c₁ hm hi₁
        refine ⟨hm.1, h.sends _ msg m ?_ hg hm⟩
        rwa [hm.1]
      · intro m r c₁ c₂ hm hi₁ hpost
        exact guardSpec_back h.answered hi₁ hpost

/-- The message of a transaction is one its origin can send. -/
theorem sends_tx (h : Guarded E O w₀ G P I) {b : Word} {c : ChainConf χ} (tx : Tx)
    (hi : I b c) (hb : b ≤ tx.blockNumber) (horigin : E.codeless tx.origin = true) :
    P tx.msg c := by
  have hg := h.codeless b c tx.origin hi horigin
  exact h.sends c ⟨.call, tx.origin, tx.origin, tx.origin, 0, .empty, tx.msg.tx⟩ tx.msg
    (h.wait _ _ _ hb hi) hg
    ⟨rfl, Or.inr ⟨CallKind.noConfusion, rfl, rfl, CallKind.noConfusion⟩⟩

theorem keeps (h : Guarded E O w₀ G P I) :
    Keeps E O w₀ (fun t => (guardSpec P I t).tracked) I where
  meets := h.meets
  start := h.start
  wait := h.wait
  write := fun b c msg s hi hcodeless hw =>
    h.write b c msg s hi (h.codeless b c _ hi hcodeless) hw
  call := fun _ _ tx hi hb horigin => ⟨rfl, h.sends_tx tx hi hb horigin⟩
  back := fun _ _ _ _ _ hi hb _ hpost => guardSpec_back h.answered (h.wait _ _ _ hb hi) hpost

/-- Between two transactions of a run the invariant holds. -/
theorem settled (h : Guarded E O w₀ G P I) {b : Word} {c : ChainConf χ}
    (hc : Settled E O w₀ b c) : I b c := hc.of_keeps h.keeps

/-- **Guarded invariants hold everywhere.** At every point of every run the invariant holds
or a message is sent under its precondition. -/
theorem point (h : Guarded E O w₀ G P I) {b : Word} {point : Option Msg} {c : ChainConf χ}
    (hc : Point E O w₀ b point c) :
    (point = none ∧ I b c) ∨ ∃ m, point = some m ∧ m.tx.blockNumber = b ∧ P m c := by
  rcases hc.of_keeps h.keeps with hnone | ⟨m, t, hm, hb, ht, hp⟩
  · exact Or.inl hnone
  · exact Or.inr ⟨m, hm, by rw [ht, hb], hp⟩

/-- What a message of a run does: the history goes on, and what goes through establishes the
invariant. -/
theorem answers (h : Guarded E O w₀ G P I) (t : TxContext) (depth : Nat) :
    Answers (guardSpec P I t).tracked (exec (machine E O) depth) :=
  exec_spec (h.meets t) depth

end Guarded

/-! ## Accounts that run their own code only -/

/-- Messages to accounts in `G` run the code of the account, except for delegate calls. -/
def Addressed (G : Address → Prop) (msg : Msg) : Prop :=
  (msg.kind ≠ .delegatecall → msg.codeAddress = msg.self) ∧
    (G msg.self → msg.kind ≠ .delegatecall)

theorem Addressed.codeAddress {G : Address → Prop} {msg : Msg} (h : Addressed G msg)
    (hg : G msg.self) : msg.codeAddress = msg.self := h.1 (h.2 hg)

theorem Addressed.of_local {G : Address → Prop} {msg m : Msg} (hg : ¬ G msg.self)
    (hm : LocalCall msg m) : Addressed G m := by
  rcases hm.2 with ⟨hkind, hself, -⟩ | ⟨hkind, -, haddress, -⟩
  · exact ⟨fun h => absurd hkind h, fun h => absurd (hself ▸ h) hg⟩
  · exact ⟨fun _ => haddress, fun _ => hkind⟩

theorem Addressed.callTo (G : Address → Prop) (msg : Msg) (dest : Address) (value : Word)
    (data : CallData) : Addressed G (msg.callTo dest value data) :=
  ⟨fun _ => rfl, fun _ => CallKind.noConfusion⟩

theorem Addressed.staticcallTo (G : Address → Prop) (msg : Msg) (dest : Address)
    (data : CallData) : Addressed G (msg.staticcallTo dest data) :=
  ⟨fun _ => rfl, fun _ => CallKind.noConfusion⟩

/-- The accounts of key pairs have no code, and those in `G` still have the code of `w₀`. -/
structure CodeKept (E : Env) (w₀ : World χ) (G : Address → Prop) (w : World χ) : Prop where
  code : ∀ a, G a → w.code a = w₀.code a
  codeless : ∀ a, E.codeless a = true → w.code a = none

namespace CodeKept

variable {E : Env} {w₀ w w' : World χ} {G : Address → Prop}

theorem congr (h : CodeKept E w₀ G w) (hcode : w'.code = w.code) : CodeKept E w₀ G w' where
  code := by rw [hcode]; exact h.code
  codeless := by rw [hcode]; exact h.codeless

theorem enter {msg : Msg} (h : CodeKept E w₀ G w) (henter : RifRelay.enter msg w = some w') :
    CodeKept E w₀ G w' := by
  obtain ⟨b, rfl, -⟩ := enter_frame henter
  exact h.congr rfl

/-- No frame removes the code of another account, or puts code where code is. -/
theorem write {msg : Msg} (h : CodeKept E w₀ G w) (hcode : ∀ a, G a → w₀.code a ≠ none)
    (hself : G msg.self → w'.code msg.self = w.code msg.self)
    (hw : LocalStep E msg w w') : CodeKept E w₀ G w' where
  code := by
    intro a ha
    rcases hw.code a with heq | ⟨rfl, -⟩ | ⟨hvacant, -⟩
    · exact heq.trans (h.code a ha)
    · exact (hself ha).trans (h.code _ ha)
    · exact absurd ((h.code a ha).symm.trans hvacant.1) (hcode a ha)
  codeless := by
    intro a ha
    rcases hw.code a with heq | ⟨-, hnone⟩ | ⟨hvacant, -⟩
    · exact heq.trans (h.codeless a ha)
    · exact hnone
    · have hfalse := hvacant.2
      rw [ha] at hfalse
      cases hfalse

theorem not_codeless (h : CodeKept E w₀ G w) (hcode : ∀ a, G a → w₀.code a ≠ none)
    {a : Address} (ha : E.codeless a = true) : ¬ G a := by
  intro hg
  exact hcode a hg ((h.code a hg).symm.trans (h.codeless a ha))

end CodeKept

end RifRelay
