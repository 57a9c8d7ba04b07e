import Mathlib.Data.List.Basic
import Mathlib.Tactic.Common

set_option autoImplicit false

/-! # Programs that call each other

A machine holds a state `σ` and is entered by messages of type `ι`. The code a message
runs is a *program*: a tree of storage reads, storage writes, reads of the remaining gas
and calls of further messages. A call that fails takes back everything it did and hands
its error to the caller, which goes on from there.

The semantics below is a big-step interpreter. It counts call depth and gas, forwards at
most all but one 64th of the gas to a callee, forbids writes below a static call, and
keeps a history that is rolled back like the state:

* the *trace*, every message that was entered, in order of entry, with the state in which
  it was sent;
* the *answers*, every message that was answered, in order of the answers, with the
  answer. A failed message stays here when its sender goes on.

Nothing is assumed about the code of a machine. In particular a callee may call its
caller again before the first call has returned.
-/

namespace CallMachine

/-! ## Programs -/

/-- A program over the states `σ` that sends messages `ι`, fails with an `ε`, receives
`ρ` from a successful call and returns an `α`. -/
inductive Prog (σ ι ε ρ α : Type) : Type
  | ret (a : α)
  | revert (e : ε)
  | read (k : σ → Prog σ ι ε ρ α)
  | update (f : σ → σ) (k : Prog σ ι ε ρ α)
  | gasleft (k : Nat → Prog σ ι ε ρ α)
  | call (limit : Option Nat) (m : ι) (k : Except ε ρ → Prog σ ι ε ρ α)

namespace Prog

variable {σ ι ε ρ α β : Type}

/-- Sequencing: run the first program and continue with its result. -/
def bind : Prog σ ι ε ρ α → (α → Prog σ ι ε ρ β) → Prog σ ι ε ρ β
  | .ret a, f => f a
  | .revert e, _ => .revert e
  | .read k, f => .read fun s => (k s).bind f
  | .update g k, f => .update g (k.bind f)
  | .gasleft k, f => .gasleft fun g => (k g).bind f
  | .call limit m k, f => .call limit m fun r => (k r).bind f

instance : Monad (Prog σ ι ε ρ) where
  pure := Prog.ret
  bind := Prog.bind

@[simp] theorem pure_eq (a : α) : (pure a : Prog σ ι ε ρ α) = .ret a := rfl

@[simp] theorem bind_eq (p : Prog σ ι ε ρ α) (f : α → Prog σ ι ε ρ β) :
    (p >>= f) = p.bind f := rfl

@[simp] theorem ret_bind (a : α) (f : α → Prog σ ι ε ρ β) :
    (Prog.ret a : Prog σ ι ε ρ α).bind f = f a := rfl

@[simp] theorem map_eq (f : α → β) (p : Prog σ ι ε ρ α) :
    (f <$> p) = p.bind (fun a => .ret (f a)) := rfl

theorem bind_assoc {γ : Type} (p : Prog σ ι ε ρ α) (f : α → Prog σ ι ε ρ β)
    (g : β → Prog σ ι ε ρ γ) : (p.bind f).bind g = p.bind fun a => (f a).bind g := by
  induction p with
  | ret a => rfl
  | revert e => rfl
  | read k ih => exact congrArg Prog.read (funext ih)
  | update f k ih => exact congrArg (Prog.update f) ih
  | gasleft k ih => exact congrArg Prog.gasleft (funext ih)
  | call limit m k ih => exact congrArg (Prog.call limit m) (funext ih)

/-- The current state. -/
def get : Prog σ ι ε ρ σ := .read .ret

/-- Apply `f` to the state. -/
def modify (f : σ → σ) : Prog σ ι ε ρ Unit := .update f (.ret ())

/-- The remaining gas of the running frame. -/
def gas : Prog σ ι ε ρ Nat := .gasleft .ret

/-- Send a message; the outcome is handed back, failures included. -/
def send (limit : Option Nat) (m : ι) : Prog σ ι ε ρ (Except ε ρ) := .call limit m .ret

/-- Fail with `e` unless `p` holds. -/
def assert (p : Prop) [Decidable p] (e : ε) : Prog σ ι ε ρ Unit :=
  if p then .ret () else .revert e

end Prog

/-! ## Machines and their configurations -/

/-- A machine: how a message moves the state before its code runs (`none` when the call
cannot start), the code it runs, whether it and everything below it is static, whether it
moves something itself, the gas stipend it adds, and the gas the code uses up to its next
access of the state. `halt` is the error of a frame that stops exceptionally. -/
structure Machine (σ ι ε ρ : Type) where
  enter : ι → σ → Option σ
  code : ι → σ → Prog σ ι ε ρ ρ
  isStatic : ι → Bool
  isPaying : ι → Bool
  stipend : ι → Nat
  cost : σ → Nat → Nat
  halt : ε

/-- A message that was entered, with the state in which it was sent. -/
structure Entry (σ ι : Type) where
  msg : ι
  pre : σ

/-- The state of a machine and its history. -/
structure Conf (σ ι ε ρ : Type) where
  state : σ
  trace : List (Entry σ ι)
  answers : List (ι × Except ε ρ)

/-- What a frame leaves behind: its value or error, the configuration and the gas left. -/
structure Outcome (σ ι ε ρ α : Type) where
  value : Except ε α
  conf : Conf σ ι ε ρ
  gas : Nat

namespace Conf

variable {σ ι ε ρ : Type}

/-- No history yet. -/
def start (s : σ) : Conf σ ι ε ρ := ⟨s, [], []⟩

/-- A new state, the same history. -/
def put (c : Conf σ ι ε ρ) (s : σ) : Conf σ ι ε ρ := { c with state := s }

/-- The message `m` was entered and moved the state to `s`. -/
def entered (c : Conf σ ι ε ρ) (m : ι) (s : σ) : Conf σ ι ε ρ :=
  { c with state := s, trace := c.trace ++ [⟨m, c.state⟩] }

/-- The message `m` was answered by `r`. -/
def answered (c : Conf σ ι ε ρ) (m : ι) (r : Except ε ρ) : Conf σ ι ε ρ :=
  { c with answers := c.answers ++ [(m, r)] }

@[simp] theorem start_state (s : σ) : (start s : Conf σ ι ε ρ).state = s := rfl

@[simp] theorem start_trace (s : σ) : (start s : Conf σ ι ε ρ).trace = [] := rfl

@[simp] theorem start_answers (s : σ) : (start s : Conf σ ι ε ρ).answers = [] := rfl

variable (c : Conf σ ι ε ρ) (m : ι) (s : σ) (r : Except ε ρ)

@[simp] theorem put_state : (c.put s).state = s := rfl

@[simp] theorem put_trace : (c.put s).trace = c.trace := rfl

@[simp] theorem put_answers : (c.put s).answers = c.answers := rfl

@[simp] theorem put_put (s' : σ) : (c.put s).put s' = c.put s' := rfl

@[simp] theorem put_self : c.put c.state = c := rfl

@[simp] theorem entered_state : (c.entered m s).state = s := rfl

@[simp] theorem entered_trace : (c.entered m s).trace = c.trace ++ [⟨m, c.state⟩] := rfl

@[simp] theorem entered_answers : (c.entered m s).answers = c.answers := rfl

@[simp] theorem answered_state : (c.answered m r).state = c.state := rfl

@[simp] theorem answered_trace : (c.answered m r).trace = c.trace := rfl

@[simp] theorem answered_answers : (c.answered m r).answers = c.answers ++ [(m, r)] := rfl

end Conf

/-! ## The interpreter -/

section Exec

variable {σ ι ε ρ α : Type} (M : Machine σ ι ε ρ)

/-- What sending a message does, given whether it is sent from a static frame, the gas it
gets and the configuration. -/
abbrev Callee (σ ι ε ρ : Type) : Type :=
  Bool → Nat → ι → Conf σ ι ε ρ → Outcome σ ι ε ρ ρ

/-- The frame stops exceptionally and its gas is gone. -/
def stop (c : Conf σ ι ε ρ) : Outcome σ ι ε ρ α := ⟨.error M.halt, c, 0⟩

/-- The gas a callee gets out of `g`: what was asked for, at most all but one 64th. -/
def forwarded (limit : Option Nat) (g : Nat) : Nat :=
  match limit with
  | none => g - g / 64
  | some x => min x (g - g / 64)

/-- The answer to the message `m` a frame with `g` gas sends. -/
def answer (callee : Callee σ ι ε ρ) (static : Bool) (limit : Option Nat) (m : ι) (g : Nat)
    (c : Conf σ ι ε ρ) : Outcome σ ι ε ρ ρ :=
  callee (static || M.isStatic m) (forwarded limit (g - M.cost c.state g) + M.stipend m) m c

/-- Run a program in one frame; `callee` says what the calls do. -/
def run (callee : Callee σ ι ε ρ) (static : Bool) :
    Prog σ ι ε ρ α → Nat → Conf σ ι ε ρ → Outcome σ ι ε ρ α
  | .ret a, g, c => ⟨.ok a, c, g⟩
  | .revert e, g, c => ⟨.error e, c, g⟩
  | .read k, g, c =>
      if g < M.cost c.state g then stop M c
      else run callee static (k c.state) (g - M.cost c.state g) c
  | .update f k, g, c =>
      if g < M.cost c.state g ∨ static = true then stop M c
      else run callee static k (g - M.cost c.state g) (c.put (f c.state))
  | .gasleft k, g, c =>
      if g < M.cost c.state g then stop M c
      else run callee static (k (g - M.cost c.state g)) (g - M.cost c.state g) c
  | .call limit m k, g, c =>
      if g < M.cost c.state g ∨ (static = true ∧ M.isPaying m = true) then stop M c
      else
        let r := answer M callee static limit m g c
        let kept := g - M.cost c.state g - forwarded limit (g - M.cost c.state g)
        run callee static (k r.value) (kept + r.gas) r.conf

/-- Send a message with `depth` further levels of calls available. A frame that fails
leaves the state and the trace as they were before the message. -/
def exec : Nat → Callee σ ι ε ρ
  | 0, _, g, m, c => ⟨.error M.halt, c.answered m (.error M.halt), g⟩
  | depth + 1, static, g, m, c =>
      match M.enter m c.state with
      | none => ⟨.error M.halt, c.answered m (.error M.halt), g⟩
      | some s =>
          match run M (exec depth) static (M.code m s) g (c.entered m s) with
          | ⟨.ok r, c', g'⟩ => ⟨.ok r, c'.answered m (.ok r), g'⟩
          | ⟨.error e, _, g'⟩ => ⟨.error e, c.answered m (.error e), g'⟩

/-! ## Points of an execution -/

/-- Running the program sends a message that gets to the point `reached`. -/
def Sends (callee : Callee σ ι ε ρ) (static : Bool)
    (reached : Bool → Nat → ι → Conf σ ι ε ρ → Prop) :
    Prog σ ι ε ρ α → Nat → Conf σ ι ε ρ → Prop
  | .ret _, _, _ => False
  | .revert _, _, _ => False
  | .read k, g, c =>
      M.cost c.state g ≤ g ∧ Sends callee static reached (k c.state) (g - M.cost c.state g) c
  | .update f k, g, c =>
      M.cost c.state g ≤ g ∧ static = false ∧
        Sends callee static reached k (g - M.cost c.state g) (c.put (f c.state))
  | .gasleft k, g, c =>
      M.cost c.state g ≤ g ∧
        Sends callee static reached (k (g - M.cost c.state g)) (g - M.cost c.state g) c
  | .call limit m k, g, c =>
      M.cost c.state g ≤ g ∧ ¬ (static = true ∧ M.isPaying m = true) ∧
        (reached (static || M.isStatic m)
            (forwarded limit (g - M.cost c.state g) + M.stipend m) m c ∨
          let r := answer M callee static limit m g c
          let kept := g - M.cost c.state g - forwarded limit (g - M.cost c.state g)
          Sends callee static reached (k r.value) (kept + r.gas) r.conf)

/-- Executing a message comes to the point where `m'` is sent in the configuration `c'`:
directly, or in the frame of a message that it sends, whether that frame fails later or
not. -/
def Visits (m' : ι) (c' : Conf σ ι ε ρ) :
    Nat → Bool → Nat → ι → Conf σ ι ε ρ → Prop
  | 0, _, _, m, c => m = m' ∧ c = c'
  | depth + 1, static, g, m, c =>
      (m = m' ∧ c = c') ∨
        ∃ s, M.enter m c.state = some s ∧
          Sends M (exec M depth) static (Visits m' c' depth) (M.code m s) g (c.entered m s)

end Exec

end CallMachine
