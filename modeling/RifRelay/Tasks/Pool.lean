import RifRelay.Tasks.Async
import Mathlib.Logic.Function.Basic

set_option autoImplicit false

/-! # An event loop

A *pool* is a memory, a log of what has happened, and numbered threads. It moves in these
steps, in any order:

* a thread is started by a call (`Step.call`);
* a thread that is ready runs up to its next question or its end (`Step.resume`);
* the outside answers the question of a waiting thread (`Step.reply`), which is then ready;
* the outside does something else to the memory (`Step.outside`);
* the process stops with all its threads and is started again (`Step.restart`).

So answers come late, in any order, and may be stale when the thread goes on.
-/

namespace EventLoop

variable {ι σ Q : Type} {A : Q → Type} {ρ ω : Type}

/-- An entry of the log. -/
inductive Event (ι Q : Type) (A : Q → Type) (ρ : Type) : Type
  | called (i : ℕ) (c : ι)
  | asked (i : ℕ) (q : Q)
  | answered (i : ℕ) (q : Q) (answer : Except String (A q))
  | ended (i : ℕ) (result : Except String ρ)
  | restarted

/-- The thread that an entry is about. -/
def Event.thread : Event ι Q A ρ → Option ℕ
  | .called i _ => some i
  | .asked i _ => some i
  | .answered i _ _ => some i
  | .ended i _ => some i
  | .restarted => none

/-- What all threads see: the memory. The log is what an observer has seen. -/
structure Shared (ι σ Q : Type) (A : Q → Type) (ρ : Type) where
  memory : σ
  log : List (Event ι Q A ρ)

namespace Shared

variable (x : Shared ι σ Q A ρ)

/-- A new memory and one more entry. -/
def snoc (s : σ) (e : Event ι Q A ρ) : Shared ι σ Q A ρ := ⟨s, x.log ++ [e]⟩

/-- A new memory, the same log. -/
def put (s : σ) : Shared ι σ Q A ρ := ⟨s, x.log⟩

@[simp] theorem snoc_memory (s : σ) (e : Event ι Q A ρ) : (x.snoc s e).memory = s := rfl

@[simp] theorem snoc_log (s : σ) (e : Event ι Q A ρ) : (x.snoc s e).log = x.log ++ [e] := rfl

@[simp] theorem put_memory (s : σ) : (x.put s).memory = s := rfl

@[simp] theorem put_log (s : σ) : (x.put s).log = x.log := rfl

end Shared

/-- The programs of a process and the outside it runs in: when a call may be made and what
thread `i` runs for it, when a question may be answered and what the answer does to the memory,
what else may happen to the memory (`ω` names these moves), and what a restart leaves of it. -/
structure System (ι σ Q : Type) (A : Q → Type) (ρ ω : Type) where
  calls : Shared ι σ Q A ρ → ι → Prop
  body : ℕ → ι → Async σ Q A ρ
  replies : Shared ι σ Q A ρ → (q : Q) → Except String (A q) → Prop
  effect : σ → ℕ → (q : Q) → Except String (A q) → σ
  moves : Shared ι σ Q A ρ → ω → Option σ
  restart : Shared ι σ Q A ρ → Option σ

/-- The shared part and the threads, each with the call that started it. -/
structure Pool (ι σ Q : Type) (A : Q → Type) (ρ : Type) where
  shared : Shared ι σ Q A ρ
  threads : ℕ → Option (ι × Status σ Q A ρ)

namespace Pool

/-- No thread has been started. -/
def start (s : σ) : Pool ι σ Q A ρ := ⟨⟨s, []⟩, fun _ => none⟩

variable (S : System ι σ Q A ρ ω) (p : Pool ι σ Q A ρ) (i : ℕ) (c : ι)

/-- The entry that a thread leaves when it stops running. -/
def leaves : Status σ Q A ρ → Option (Event ι Q A ρ)
  | .ready _ => none
  | .waiting q _ => some (.asked i q)
  | .ended result => some (.ended i result)
  | .stopped => none

/-- Thread `i`, started by `c`, is in the status `t` from now on. -/
def setThread (x : Shared ι σ Q A ρ) (t : Status σ Q A ρ) : Pool ι σ Q A ρ :=
  ⟨x, Function.update p.threads i (some (c, t))⟩

variable {p i} in
theorem setThread_self (x : Shared ι σ Q A ρ) (c : ι) (t : Status σ Q A ρ) :
    (p.setThread i c x t).threads i = some (c, t) := Function.update_self ..

variable {p i} in
theorem setThread_other (x : Shared ι σ Q A ρ) {j : ℕ} (h : j ≠ i) (c : ι) (t : Status σ Q A ρ) :
    (p.setThread i c x t).threads j = p.threads j := Function.update_of_ne h ..

def call : Pool ι σ Q A ρ :=
  p.setThread i c (p.shared.snoc p.shared.memory (.called i c)) (.ready (S.body i c))

def reply (q : Q) (answer : Except String (A q)) (k : Except String (A q) → Async σ Q A ρ) :
    Pool ι σ Q A ρ :=
  p.setThread i c
    (p.shared.snoc (S.effect p.shared.memory i q answer) (.answered i q answer))
    (.ready (k answer))

def resume (t : Async σ Q A ρ) : Pool ι σ Q A ρ :=
  match t.advance p.shared.memory with
  | (s, t') => p.setThread i c ⟨s, p.shared.log ++ (leaves i t').toList⟩ t'

def outside (s : σ) : Pool ι σ Q A ρ := { p with shared := p.shared.put s }

/-- Every thread is gone. -/
def restart (s : σ) : Pool ι σ Q A ρ :=
  ⟨p.shared.snoc s .restarted, fun i => (p.threads i).map fun t => (t.1, .stopped)⟩

end Pool

/-- One step of the loop. -/
inductive Step (S : System ι σ Q A ρ ω) (p : Pool ι σ Q A ρ) : Pool ι σ Q A ρ → Prop
  | call (i : ℕ) (c : ι) (hfree : p.threads i = none) (hcalls : S.calls p.shared c) :
      Step S p (p.call S i c)
  | reply (i : ℕ) (c : ι) (q : Q) (k : Except String (A q) → Async σ Q A ρ)
      (answer : Except String (A q)) (hthread : p.threads i = some (c, .waiting q k))
      (hreplies : S.replies p.shared q answer) : Step S p (p.reply S i c q answer k)
  | resume (i : ℕ) (c : ι) (t : Async σ Q A ρ) (hthread : p.threads i = some (c, .ready t)) :
      Step S p (p.resume i c t)
  | outside (w : ω) (s : σ) (hmoves : S.moves p.shared w = some s) : Step S p (p.outside s)
  | restart (s : σ) (hrestart : S.restart p.shared = some s) : Step S p (p.restart s)

/-- The pools that the loop reaches from the memory `s₀`, every step meeting `C`. -/
inductive Run (S : System ι σ Q A ρ ω) (C : Shared ι σ Q A ρ → Shared ι σ Q A ρ → Prop) (s₀ : σ) :
    Pool ι σ Q A ρ → Prop
  | start : Run S C s₀ (.start s₀)
  | step {p p' : Pool ι σ Q A ρ} (hrun : Run S C s₀ p) (hstep : Step S p p')
      (hmeets : C p.shared p'.shared) : Run S C s₀ p'

theorem Run.mono {C C' : Shared ι σ Q A ρ → Shared ι σ Q A ρ → Prop} {S : System ι σ Q A ρ ω}
    {s₀ : σ} {p : Pool ι σ Q A ρ} (hC : ∀ x y, C x y → C' x y) (h : Run S C s₀ p) :
    Run S C' s₀ p := by
  induction h with
  | start => exact .start
  | step _ hstep hmeets ih => exact .step ih hstep (hC _ _ hmeets)

/-- Every step is fine. -/
def Anyhow (_ _ : Shared ι σ Q A ρ) : Prop := True

instance (x y : Shared ι σ Q A ρ) : Decidable (Anyhow x y) := inferInstanceAs (Decidable True)

/-! ## Running a schedule -/

/-- What a scheduler may do next. An answer is given to whatever the thread has asked. -/
inductive Move (ι Q : Type) (A : Q → Type) (ω : Type) : Type
  | call (i : ℕ) (c : ι)
  | reply (i : ℕ) (answer : (q : Q) → Except String (A q))
  | resume (i : ℕ)
  | outside (w : ω)
  | restart

section Play

variable (S : System ι σ Q A ρ ω) [∀ x c, Decidable (S.calls x c)]
  [∀ x q a, Decidable (S.replies x q a)]

/-- The pool after a move, if the move is possible. -/
def Pool.move (p : Pool ι σ Q A ρ) : Move ι Q A ω → Option (Pool ι σ Q A ρ)
  | .call i c =>
      match p.threads i with
      | none => if S.calls p.shared c then some (p.call S i c) else none
      | some _ => none
  | .reply i answer =>
      match p.threads i with
      | some (c, .waiting q k) =>
          if S.replies p.shared q (answer q) then some (p.reply S i c q (answer q) k) else none
      | _ => none
  | .resume i =>
      match p.threads i with
      | some (c, .ready t) => some (p.resume i c t)
      | _ => none
  | .outside w => (S.moves p.shared w).map p.outside
  | .restart => (S.restart p.shared).map p.restart

variable {S}

theorem Step.of_move {p p' : Pool ι σ Q A ρ} {m : Move ι Q A ω} (h : p.move S m = some p') :
    Step S p p' := by
  cases m with
  | call i c =>
      simp only [Pool.move] at h
      split at h
      next hfree =>
        obtain ⟨hcalls, heq⟩ := Option.ite_none_right_eq_some.mp h
        obtain rfl := Option.some.inj heq
        exact .call i c hfree hcalls
      next => cases h
  | reply i answer =>
      simp only [Pool.move] at h
      split at h
      next c q k hthread =>
        obtain ⟨hreplies, heq⟩ := Option.ite_none_right_eq_some.mp h
        obtain rfl := Option.some.inj heq
        exact .reply i c q k (answer q) hthread hreplies
      next => cases h
  | resume i =>
      simp only [Pool.move] at h
      split at h
      next c t hthread =>
        obtain rfl := Option.some.inj h
        exact .resume i c t hthread
      next => cases h
  | outside w =>
      obtain ⟨s, hmoves, rfl⟩ := Option.map_eq_some_iff.mp h
      exact .outside w s hmoves
  | restart =>
      obtain ⟨s, hrestart, rfl⟩ := Option.map_eq_some_iff.mp h
      exact .restart s hrestart

variable (S) (C : Shared ι σ Q A ρ → Shared ι σ Q A ρ → Prop) [∀ x y, Decidable (C x y)]

/-- The pool after a schedule whose steps all meet `C`. -/
def Pool.play (p : Pool ι σ Q A ρ) : List (Move ι Q A ω) → Option (Pool ι σ Q A ρ)
  | [] => some p
  | m :: l =>
      match p.move S m with
      | some p' => if C p.shared p'.shared then p'.play l else none
      | none => none

variable {S C}

/-- A schedule that can be played is a run. -/
theorem Run.of_play {s₀ : σ} {p p' : Pool ι σ Q A ρ} {l : List (Move ι Q A ω)}
    (hrun : Run S C s₀ p) (h : p.play S C l = some p') : Run S C s₀ p' := by
  induction l generalizing p with
  | nil =>
      obtain rfl := Option.some.inj h
      exact hrun
  | cons m l ih =>
      simp only [Pool.play] at h
      split at h
      next p₁ hmove =>
        obtain ⟨hmeets, hplay⟩ := Option.ite_none_right_eq_some.mp h
        exact ih (hrun.step (.of_move hmove) hmeets) hplay
      next => cases h

/-- A schedule that can be played to its end is a run. -/
theorem Run.of_isSome {s₀ : σ} {l : List (Move ι Q A ω)}
    (h : ((Pool.start s₀).play S C l).isSome = true) :
    Run S C s₀ (((Pool.start s₀).play S C l).get h) :=
  Run.start.of_play (Option.some_get h).symm

end Play

/-- Thread `i` runs, and is answered `n` times. -/
def Move.turns (i : ℕ) (answer : (q : Q) → Except String (A q)) (n : ℕ) : List (Move ι Q A ω) :=
  .resume i :: (List.replicate n [.reply i answer, .resume i]).flatten

end EventLoop
