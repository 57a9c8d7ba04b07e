import Mathlib.Data.List.Basic
import Mathlib.Tactic.Common

set_option autoImplicit false

/-! # Programs of an event loop

An event loop runs many *threads* over one memory `σ`. A thread runs alone until it asks the
outside for something (`ask`), and is resumed with the answer later; meanwhile other threads
run. Between two questions nothing interferes with it. A question of type `q : Q` is answered
by an `A q` or by an error, and an error that nobody handles ends the thread.

This file has the programs, `Async`; the loop that runs them is in `Tasks/Pool.lean`.
-/

namespace EventLoop

/-- A program that asks questions `q : Q`, is answered by `A q`, and returns an `α` or throws
an error. -/
inductive Async (σ Q : Type) (A : Q → Type) (α : Type) : Type
  | done (result : Except String α)
  | read (k : σ → Async σ Q A α)
  | update (f : σ → σ) (k : Async σ Q A α)
  | ask (q : Q) (k : Except String (A q) → Async σ Q A α)

namespace Async

variable {σ Q : Type} {A : Q → Type} {α β : Type}

/-- Run the first program, then the second on whatever came of the first. -/
def handle : Async σ Q A α → (Except String α → Async σ Q A β) → Async σ Q A β
  | .done result, f => f result
  | .read k, f => .read fun s => (k s).handle f
  | .update g k, f => .update g (k.handle f)
  | .ask q k, f => .ask q fun answer => (k answer).handle f

/-- Continue with the value of a program; an error is passed on. -/
def next (f : α → Async σ Q A β) : Except String α → Async σ Q A β
  | .ok a => f a
  | .error e => .done (.error e)

instance : Monad (Async σ Q A) where
  pure a := .done (.ok a)
  bind p f := p.handle (next f)

@[simp] theorem pure_eq (a : α) : (pure a : Async σ Q A α) = .done (.ok a) := rfl

@[simp] theorem bind_eq (p : Async σ Q A α) (f : α → Async σ Q A β) :
    (p >>= f) = p.handle (next f) := rfl

@[simp] theorem next_ok (f : α → Async σ Q A β) (a : α) : next f (.ok a) = f a := rfl

@[simp] theorem next_error (f : α → Async σ Q A β) (e : String) :
    next f (.error e) = .done (.error e) := rfl

@[simp] theorem done_handle (r : Except String α) (f : Except String α → Async σ Q A β) :
    (Async.done r : Async σ Q A α).handle f = f r := rfl

/-- The memory. -/
def get : Async σ Q A σ := .read fun s => .done (.ok s)

/-- Apply `f` to the memory. -/
def modify (f : σ → σ) : Async σ Q A Unit := .update f (.done (.ok ()))

/-- Throw the error `e`. -/
def throw (e : String) : Async σ Q A α := .done (.error e)

/-- Ask `q` and wait for the answer. -/
def await (q : Q) : Async σ Q A (A q) := .ask q .done

/-- Throw the error `e` unless `p` holds. -/
def assert (p : Prop) [Decidable p] (e : String) : Async σ Q A Unit :=
  if p then .done (.ok ()) else .done (.error e)

/-- Run `t` if `p` holds. -/
def whenever (p : Prop) [Decidable p] (t : Async σ Q A Unit) : Async σ Q A Unit :=
  if p then t else .done (.ok ())

/-- Run `p` and then, whatever came of it, apply `f` to the memory. -/
def ensuring (p : Async σ Q A α) (f : σ → σ) : Async σ Q A α :=
  p.handle fun result => .update f (.done result)

/-- Run `p`, and `f` on its error if it throws one. -/
def recover (p : Async σ Q A α) (f : String → Async σ Q A α) : Async σ Q A α :=
  p.handle fun
    | .ok a => .done (.ok a)
    | .error e => f e

/-- Wait for another program. Its result is handed over by a question of its own, so that
other threads may run before the caller goes on. -/
def call (p : Async σ Q A α) (q : Except String α → Q) : Async σ Q A α :=
  p.handle fun result => .ask (q result) fun _ => .done result

/-- Run `f` on the members of a list, one after the other. -/
def each {ι : Type} (f : ι → Async σ Q A Unit) : List ι → Async σ Q A Unit
  | [] => .done (.ok ())
  | a :: l => (f a).handle (next fun _ => each f l)

end Async

/-! ## Threads -/

/-- What a thread is doing. -/
inductive Status (σ Q : Type) (A : Q → Type) (ρ : Type) : Type
  | ready (p : Async σ Q A ρ)
  | waiting (q : Q) (k : Except String (A q) → Async σ Q A ρ)
  | ended (result : Except String ρ)
  | stopped

namespace Async

variable {σ Q : Type} {A : Q → Type} {ρ : Type}

/-- Run a program up to its next question. -/
def advance : Async σ Q A ρ → σ → σ × Status σ Q A ρ
  | .done result, s => (s, .ended result)
  | .read k, s => (k s).advance s
  | .update f k, s => k.advance (f s)
  | .ask q k, s => (s, .waiting q k)

end Async

end EventLoop
