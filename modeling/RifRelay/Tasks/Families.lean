import RifRelay.Tasks.Rules

set_option autoImplicit false

/-! # Families of programs

A *family* is a predicate on programs that is closed under sequencing. What a large program
does harmlessly is shown by walking over it once, for any family that has its parts
(`Family.next`, `Family.call`, …); the families at hand are then

* `Family.confined` — the programs with harmless questions and writes only;
* `Family.upholding` — the programs that keep an assertion of their thread.

A thread that was started with a confined program stays confined (`run_confined`).
-/

namespace EventLoop

variable {ι σ Q : Type} {A : Q → Type} {ρ ω : Type}

/-- A predicate on programs that is closed under sequencing. -/
structure Family (σ Q : Type) (A : Q → Type) where
  has : {α : Type} → Async σ Q A α → Prop
  done : ∀ {α : Type} (r : Except String α), has (.done r : Async σ Q A α)
  get : has (Async.get : Async σ Q A σ)
  handle : ∀ {α β : Type} {p : Async σ Q A α} {f : Except String α → Async σ Q A β}, has p →
    (∀ r, has (f r)) → has (p.handle f)

namespace Family

variable (K : Family σ Q A) {α β : Type}

/-- The question `q` may be asked. -/
def asks (q : Q) : Prop := K.has (Async.await q : Async σ Q A (A q))

/-- The memory may be written by `f`. -/
def writes (f : σ → σ) : Prop := K.has (Async.modify f : Async σ Q A Unit)

variable {K}

theorem next {p : Async σ Q A α} {f : α → Async σ Q A β} (hp : K.has p) (hf : ∀ a, K.has (f a)) :
    K.has (p.handle (Async.next f)) := by
  apply K.handle hp
  intro r
  cases r with
  | ok a => exact hf a
  | error e => exact K.done (.error e)

theorem throw (e : String) : K.has (Async.throw e : Async σ Q A α) := K.done (.error e)

theorem assert (p : Prop) [Decidable p] (e : String) :
    K.has (Async.assert p e : Async σ Q A Unit) := by
  unfold Async.assert
  split <;> exact K.done _

theorem whenever {p : Prop} [Decidable p] {t : Async σ Q A Unit} (ht : p → K.has t) :
    K.has (Async.whenever p t) := by
  unfold Async.whenever
  split
  next hp => exact ht hp
  next => exact K.done _

theorem ite {p : Prop} [Decidable p] {t t' : Async σ Q A α} (ht : p → K.has t)
    (ht' : ¬ p → K.has t') : K.has (if p then t else t') := by
  split
  next hp => exact ht hp
  next hp => exact ht' hp

theorem call {p : Async σ Q A α} {q : Except String α → Q} (hp : K.has p)
    (hq : ∀ r, K.asks (q r)) : K.has (p.call q) :=
  K.handle hp fun r => K.handle (hq r) fun _ => K.done r

theorem ensuring {p : Async σ Q A α} {f : σ → σ} (hp : K.has p) (hf : K.writes f) :
    K.has (p.ensuring f) :=
  K.handle hp fun r => K.handle hf fun _ => K.done r

theorem recover {p : Async σ Q A α} {f : String → Async σ Q A α} (hp : K.has p)
    (hf : ∀ e, K.has (f e)) : K.has (p.recover f) := by
  apply K.handle hp
  intro r
  cases r with
  | ok a => exact K.done (.ok a)
  | error e => exact hf e

theorem each {τ : Type} {f : τ → Async σ Q A Unit} (hf : ∀ a, K.has (f a)) (l : List τ) :
    K.has (Async.each f l) := by
  induction l with
  | nil => exact K.done (.ok ())
  | cons a l ih => exact next (hf a) fun _ => ih

/-! ## Two families -/

/-- The programs with questions in `ask` and writes in `write`. -/
def confined (ask : Q → Prop) (write : (σ → σ) → Prop) : Family σ Q A where
  has p := p.Confined ask write
  done _ := trivial
  get _ := trivial
  handle := Async.Confined.handle

theorem confined_asks {ask : Q → Prop} {write : (σ → σ) → Prop} {q : Q} :
    (confined ask write : Family σ Q A).asks q ↔ ask q := Async.confined_await q

theorem confined_writes {ask : Q → Prop} {write : (σ → σ) → Prop} {f : σ → σ} :
    (confined ask write : Family σ Q A).writes f ↔ write f := Async.confined_modify f

variable (S : System ι σ Q A ρ ω) (D : Discipline ι σ Q A ρ) (i : ℕ)

/-- The programs that uphold `B`, where `B x s` speaks of the state `x` in which thread `i` was
resumed and the memory `s` it has made of it. -/
def upholding (B : Shared ι σ Q A ρ → σ → Prop) : Family σ Q A where
  has p := ∀ x s, B x s → wp S D i p (fun _ => B) x s
  done _ _ _ h := h
  get _ _ h := h
  handle := by
    intro α β p f hp hf x s hB
    rw [wp_handle]
    exact wp_mono (fun r y t h => hf r y t h) p (hp x s hB)

variable {S D i} {B : Shared ι σ Q A ρ → σ → Prop}

theorem upholding_writes {f : σ → σ} :
    (upholding S D i B).writes f ↔ ∀ x s, B x s → B x (f s) := Iff.rfl

end Family

/-! ## Confined threads -/

section Threads

variable {S : System ι σ Q A ρ ω} {ask : Q → Prop} {write : (σ → σ) → Prop} {s : σ}

/-- What is left of the program of a thread is confined. -/
def Status.Confined (ask : Q → Prop) (write : (σ → σ) → Prop) : Status σ Q A ρ → Prop
  | .ready t => t.Confined ask write
  | .waiting _ k => ∀ a, (k a).Confined ask write
  | .ended _ | .stopped => True

/-- Running up to the next question. -/
theorem Async.Confined.advance {I : σ → Prop} (hI : ∀ f, write f → ∀ s, I s → I (f s))
    {t : Async σ Q A ρ} (ht : t.Confined ask write) (hs : I s) :
    I (t.advance s).1 ∧ (t.advance s).2.Confined ask write := by
  induction t generalizing s with
  | done r => exact ⟨hs, trivial⟩
  | read k ih => exact ih s (ht s) hs
  | update f k ih => exact ih ht.2 (hI f ht.1 s hs)
  | ask q k ih => exact ⟨hs, ht.2⟩

/-- The threads of confined programs stay confined. -/
theorem run_confined {P : ι → Prop} (hbody : ∀ i c, P c → (S.body i c).Confined ask write)
    {C : Shared ι σ Q A ρ → Shared ι σ Q A ρ → Prop} {s₀ : σ} {p : Pool ι σ Q A ρ}
    (h : Run S C s₀ p) :
    ∀ i c t, p.threads i = some (c, t) → P c → t.Confined ask write := by
  induction h with
  | start => exact fun i c t hi => by cases hi
  | @step p p' _ hstep _ ih =>
      -- one thread moves, and the others stay as they are
      have hmoved {i : ℕ} {c : ι} {x : Shared ι σ Q A ρ} {t : Status σ Q A ρ}
          (ht : P c → t.Confined ask write) : ∀ j c' t', (p.setThread i c x t).threads j =
            some (c', t') → P c' → t'.Confined ask write := by
        intro j c' t' hj hP
        by_cases hji : j = i
        · rw [hji, Pool.setThread_self] at hj
          obtain ⟨rfl, rfl⟩ := Prod.mk.inj (Option.some.inj hj)
          exact ht hP
        · rw [Pool.setThread_other _ hji] at hj
          exact ih j c' t' hj hP
      cases hstep with
      | call i c hfree hcalls => exact hmoved (hbody i c)
      | reply i c q k answer hthread hreplies =>
          exact hmoved fun hP => ih i c _ hthread hP answer
      | resume i c t hthread =>
          exact hmoved fun hP =>
            (Async.Confined.advance (I := fun _ => True) (fun _ _ _ _ => trivial)
              (ih i c _ hthread hP) trivial).2
      | outside w s hmoves => exact ih
      | restart s hrestart =>
          intro j c t hj _
          obtain ⟨_, -, heq⟩ := Option.map_eq_some_iff.mp hj
          obtain ⟨-, rfl⟩ := Prod.mk.inj heq
          trivial

end Threads

end EventLoop
