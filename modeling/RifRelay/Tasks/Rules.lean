import RifRelay.Tasks.Pool

set_option autoImplicit false

/-! # Rely and guarantee for an event loop

A *discipline* says what holds of the memory and the log at all times (`inv`), what one step
of a thread may do to them (`acts`), and what a thread that was started by a call may end with
(`ends`). `wp S D i p Φ` is the weakest precondition of the program `p` of thread `i`: each
time the thread stops it has kept to the discipline, and it is resumed in a state that the
steps of others (`Later`) have led to.

* `run_sound` — if the programs of all calls meet the discipline, then so does every run.
  The induction on the run and the interleaving of the threads are dealt with here, once.
* `wp_ask` — one question, with an assertion that the steps of others do not disturb
  (`Stable`) while the question is open and another one when it is answered.
* `wp_confined` — programs that ask only harmless questions and make only harmless writes.
* `run_keeps` — an invariant of the memory that every single write keeps.
-/

namespace EventLoop

variable {ι σ Q : Type} {A : Q → Type} {ρ ω : Type}

/-- What is to be shown of a system: the steps considered, an invariant, what one step of a
thread may do, and what may come of a call. -/
structure Discipline (ι σ Q : Type) (A : Q → Type) (ρ : Type) where
  meets : Shared ι σ Q A ρ → Shared ι σ Q A ρ → Prop
  inv : Shared ι σ Q A ρ → Prop
  acts : ℕ → Shared ι σ Q A ρ → Shared ι σ Q A ρ → Prop
  ends : ι → Except String ρ → Prop

section Others

variable (S : System ι σ Q A ρ ω) (D : Discipline ι σ Q A ρ) (i : ℕ)

/-- A step that is not thread `i`'s. -/
inductive Interferes (x : Shared ι σ Q A ρ) : Shared ι σ Q A ρ → Prop
  | thread (j : ℕ) (s : σ) (e : Event ι Q A ρ) (hne : j ≠ i) (hthread : e.thread = some j)
      (hacts : D.acts j x (x.snoc s e)) : Interferes x (x.snoc s e)
  | outside (w : ω) (s : σ) (hmoves : S.moves x w = some s) : Interferes x (x.put s)

/-- What the steps of others lead to. -/
inductive Later (x : Shared ι σ Q A ρ) : Shared ι σ Q A ρ → Prop
  | refl : Later x x
  | step {y z : Shared ι σ Q A ρ} (hlater : Later x y) (hy : D.inv y) (hz : D.inv z)
      (hmeets : D.meets y z) (hstep : Interferes S D i y z) : Later x z

/-- An assertion that the steps of others do not disturb. -/
def Stable (P : Shared ι σ Q A ρ → Prop) : Prop :=
  ∀ x y, P x → D.inv x → D.inv y → D.meets x y → Interferes S D i x y → P y

variable {S D i}

theorem Later.head {x y z : Shared ι σ Q A ρ} (hx : D.inv x) (hy : D.inv y)
    (hmeets : D.meets x y) (hstep : Interferes S D i x y) (h : Later S D i y z) :
    Later S D i x z := by
  induction h with
  | refl => exact .step .refl hx hy hmeets hstep
  | step _ hy' hz' hmeets' hstep' ih => exact .step ih hy' hz' hmeets' hstep'

theorem Stable.later {P : Shared ι σ Q A ρ → Prop} (hP : Stable S D i P)
    {x y : Shared ι σ Q A ρ} (h : Later S D i x y) (hx : P x) : P y := by
  induction h with
  | refl => exact hx
  | step _ hy hz hmeets hstep ih => exact hP _ _ ih hy hz hmeets hstep

theorem Stable.and {P P' : Shared ι σ Q A ρ → Prop} (hP : Stable S D i P)
    (hP' : Stable S D i P') : Stable S D i fun x => P x ∧ P' x :=
  fun x y h hx hy hmeets hstep =>
    ⟨hP x y h.1 hx hy hmeets hstep, hP' x y h.2 hx hy hmeets hstep⟩

theorem Stable.const (p : Prop) : Stable S D i fun _ => p := fun _ _ h _ _ _ _ => h

/-- The entries of thread `i`. -/
def own (i : ℕ) (log : List (Event ι Q A ρ)) : List (Event ι Q A ρ) :=
  log.filter fun e => e.thread = some i

@[simp] theorem own_nil : own i ([] : List (Event ι Q A ρ)) = [] := rfl

theorem own_append (l l' : List (Event ι Q A ρ)) : own i (l ++ l') = own i l ++ own i l' :=
  List.filter_append ..

theorem own_snoc_self {l : List (Event ι Q A ρ)} {e : Event ι Q A ρ} (h : e.thread = some i) :
    own i (l ++ [e]) = own i l ++ [e] := by
  rw [own_append]
  simp [own, h]

theorem own_snoc_other {l : List (Event ι Q A ρ)} {e : Event ι Q A ρ} (h : e.thread ≠ some i) :
    own i (l ++ [e]) = own i l := by
  rw [own_append]
  simp [own, h]

/-- Nobody else adds entries under the name of thread `i`. -/
theorem Interferes.own {x y : Shared ι σ Q A ρ} (h : Interferes S D i x y) :
    own i y.log = own i x.log := by
  cases h with
  | thread j s e hne hthread _ =>
      apply own_snoc_other
      rw [hthread]
      exact fun h => hne (Option.some.inj h)
  | outside w s _ => rfl

end Others

/-! ## Weakest preconditions -/

section Wp

variable (S : System ι σ Q A ρ ω) (D : Discipline ι σ Q A ρ) (i : ℕ) {α β : Type}

/-- The step from `x` to `y` is one that thread `i` may make. -/
def Keeps (x y : Shared ι σ Q A ρ) : Prop := D.inv y ∧ D.acts i x y

/-- The weakest precondition of a program of thread `i`. The thread was resumed in `x`, and
the memory is `s` by now. -/
def wp : Async σ Q A α → (Except String α → Shared ι σ Q A ρ → σ → Prop) →
    Shared ι σ Q A ρ → σ → Prop
  | .done r, Φ, x, s => Φ r x s
  | .read k, Φ, x, s => wp (k s) Φ x s
  | .update f k, Φ, x, s => wp k Φ x (f s)
  | .ask q k, Φ, x, s =>
      D.meets x (x.snoc s (.asked i q)) → Keeps D i x (x.snoc s (.asked i q)) ∧
        ∀ y a, Later S D i (x.snoc s (.asked i q)) y → D.inv y → S.replies y q a →
          D.meets y (y.snoc (S.effect y.memory i q a) (.answered i q a)) →
            Keeps D i y (y.snoc (S.effect y.memory i q a) (.answered i q a)) ∧
              ∀ z, Later S D i (y.snoc (S.effect y.memory i q a) (.answered i q a)) z →
                D.inv z → wp (k a) Φ z z.memory

variable {S D i} {x : Shared ι σ Q A ρ} {s : σ}

@[simp] theorem wp_done (r : Except String α)
    (Φ : Except String α → Shared ι σ Q A ρ → σ → Prop) :
    wp S D i (.done r) Φ x s ↔ Φ r x s := Iff.rfl

@[simp] theorem wp_get (Φ : Except String σ → Shared ι σ Q A ρ → σ → Prop) :
    wp S D i Async.get Φ x s ↔ Φ (.ok s) x s := Iff.rfl

@[simp] theorem wp_modify (f : σ → σ) (Φ : Except String Unit → Shared ι σ Q A ρ → σ → Prop) :
    wp S D i (Async.modify f) Φ x s ↔ Φ (.ok ()) x (f s) := Iff.rfl

@[simp] theorem wp_update (f : σ → σ) (k : Async σ Q A α)
    (Φ : Except String α → Shared ι σ Q A ρ → σ → Prop) :
    wp S D i (.update f k) Φ x s ↔ wp S D i k Φ x (f s) := Iff.rfl

@[simp] theorem wp_throw (e : String) (Φ : Except String α → Shared ι σ Q A ρ → σ → Prop) :
    wp S D i (Async.throw e) Φ x s ↔ Φ (.error e) x s := Iff.rfl

theorem wp_ite (p : Prop) [Decidable p] (t t' : Async σ Q A α)
    (Φ : Except String α → Shared ι σ Q A ρ → σ → Prop) :
    wp S D i (if p then t else t') Φ x s ↔
      (p → wp S D i t Φ x s) ∧ (¬ p → wp S D i t' Φ x s) := by
  by_cases hp : p <;> simp [hp]

theorem wp_assert (p : Prop) [Decidable p] (e : String)
    (Φ : Except String Unit → Shared ι σ Q A ρ → σ → Prop) :
    wp S D i (Async.assert p e) Φ x s ↔
      (p → Φ (.ok ()) x s) ∧ (¬ p → Φ (.error e) x s) := by
  unfold Async.assert
  exact wp_ite p _ _ Φ

theorem wp_whenever (p : Prop) [Decidable p] (t : Async σ Q A Unit)
    (Φ : Except String Unit → Shared ι σ Q A ρ → σ → Prop) :
    wp S D i (Async.whenever p t) Φ x s ↔
      (p → wp S D i t Φ x s) ∧ (¬ p → Φ (.ok ()) x s) := by
  unfold Async.whenever
  exact wp_ite p _ _ Φ

@[simp] theorem wp_handle (p : Async σ Q A α) (f : Except String α → Async σ Q A β)
    (Φ : Except String β → Shared ι σ Q A ρ → σ → Prop) :
    wp S D i (p.handle f) Φ x s ↔ wp S D i p (fun r x' s' => wp S D i (f r) Φ x' s') x s := by
  induction p generalizing x s with
  | done r => exact Iff.rfl
  | read k ih => exact ih s
  | update g k ih => exact ih
  | ask q k ih =>
      refine imp_congr Iff.rfl (and_congr Iff.rfl
        (forall_congr' fun y => forall_congr' fun a => ?_))
      refine imp_congr Iff.rfl (imp_congr Iff.rfl (imp_congr Iff.rfl (imp_congr Iff.rfl ?_)))
      refine and_congr Iff.rfl (forall_congr' fun z => ?_)
      exact imp_congr Iff.rfl (imp_congr Iff.rfl (ih a))

theorem wp_mono {Φ Φ' : Except String α → Shared ι σ Q A ρ → σ → Prop}
    (hΦ : ∀ r x s, Φ r x s → Φ' r x s) (p : Async σ Q A α) (h : wp S D i p Φ x s) :
    wp S D i p Φ' x s := by
  induction p generalizing x s with
  | done r => exact hΦ r x s h
  | read k ih => exact ih s h
  | update g k ih => exact ih h
  | ask q k ih =>
      intro hmeets
      obtain ⟨hkeeps, hreply⟩ := h hmeets
      refine ⟨hkeeps, fun y a hlater hy hreplies hmeets' => ?_⟩
      obtain ⟨hkeeps', hnext⟩ := hreply y a hlater hy hreplies hmeets'
      exact ⟨hkeeps', fun z hlater' hz => ih a (hnext z hlater' hz)⟩

/-- One question: `P` holds while it is open, `P' a` once it is answered by `a`. -/
theorem wp_ask {q : Q} {k : Except String (A q) → Async σ Q A α}
    {Φ : Except String α → Shared ι σ Q A ρ → σ → Prop} (P : Shared ι σ Q A ρ → Prop)
    (P' : Except String (A q) → Shared ι σ Q A ρ → Prop) (hP : Stable S D i P)
    (hP' : ∀ a, Stable S D i (P' a))
    (hask : D.meets x (x.snoc s (.asked i q)) →
      Keeps D i x (x.snoc s (.asked i q)) ∧ P (x.snoc s (.asked i q)))
    (hreply : ∀ y a, P y → D.inv y → S.replies y q a →
      D.meets y (y.snoc (S.effect y.memory i q a) (.answered i q a)) →
        Keeps D i y (y.snoc (S.effect y.memory i q a) (.answered i q a)) ∧
          P' a (y.snoc (S.effect y.memory i q a) (.answered i q a)))
    (hnext : ∀ z a, P' a z → D.inv z → wp S D i (k a) Φ z z.memory) :
    wp S D i (.ask q k) Φ x s := by
  intro hmeets
  obtain ⟨hkeeps, hopen⟩ := hask hmeets
  refine ⟨hkeeps, fun y a hlater hy hreplies hmeets' => ?_⟩
  obtain ⟨hkeeps', hanswered⟩ := hreply y a (hP.later hlater hopen) hy hreplies hmeets'
  exact ⟨hkeeps', fun z hlater' hz => hnext z a ((hP' a).later hlater' hanswered) hz⟩

end Wp

/-! ## Confined programs -/

namespace Async

variable {σ Q : Type} {A : Q → Type} {α β : Type}

/-- A program that asks only questions in `asks` and writes only by functions in `writes`. -/
def Confined (asks : Q → Prop) (writes : (σ → σ) → Prop) : Async σ Q A α → Prop
  | .done _ => True
  | .read k => ∀ s, (k s).Confined asks writes
  | .update f k => writes f ∧ k.Confined asks writes
  | .ask q k => asks q ∧ ∀ a, (k a).Confined asks writes

variable {asks : Q → Prop} {writes : (σ → σ) → Prop}

@[simp] theorem confined_done (r : Except String α) :
    (Async.done r : Async σ Q A α).Confined asks writes := trivial

@[simp] theorem confined_get : (Async.get : Async σ Q A σ).Confined asks writes :=
  fun _ => trivial

@[simp] theorem confined_throw (e : String) :
    (Async.throw e : Async σ Q A α).Confined asks writes := trivial

@[simp] theorem confined_modify (f : σ → σ) :
    (Async.modify f : Async σ Q A Unit).Confined asks writes ↔ writes f :=
  ⟨fun h => h.1, fun h => ⟨h, trivial⟩⟩

@[simp] theorem confined_await (q : Q) :
    (Async.await q : Async σ Q A (A q)).Confined asks writes ↔ asks q :=
  ⟨fun h => h.1, fun h => ⟨h, fun _ => trivial⟩⟩

@[simp] theorem confined_assert (p : Prop) [Decidable p] (e : String) :
    (Async.assert p e : Async σ Q A Unit).Confined asks writes := by
  unfold Async.assert
  split <;> trivial

theorem Confined.whenever {p : Prop} [Decidable p] {t : Async σ Q A Unit}
    (ht : t.Confined asks writes) : (Async.whenever p t).Confined asks writes := by
  unfold Async.whenever
  split
  · exact ht
  · trivial

theorem Confined.handle {p : Async σ Q A α} {f : Except String α → Async σ Q A β}
    (hp : p.Confined asks writes) (hf : ∀ r, (f r).Confined asks writes) :
    (p.handle f).Confined asks writes := by
  induction p with
  | done r => exact hf r
  | read k ih => exact fun s => ih s (hp s)
  | update g k ih => exact ⟨hp.1, ih hp.2⟩
  | ask q k ih => exact ⟨hp.1, fun a => ih a (hp.2 a)⟩

theorem Confined.next {p : Async σ Q A α} {f : α → Async σ Q A β}
    (hp : p.Confined asks writes) (hf : ∀ a, (f a).Confined asks writes) :
    (p.handle (next f)).Confined asks writes := by
  apply hp.handle
  intro r
  cases r with
  | ok a => exact hf a
  | error e => trivial

theorem Confined.call {p : Async σ Q A α} {q : Except String α → Q}
    (hp : p.Confined asks writes) (hq : ∀ r, asks (q r)) : (p.call q).Confined asks writes :=
  hp.handle fun r => ⟨hq r, fun _ => trivial⟩

theorem Confined.ensuring {p : Async σ Q A α} {f : σ → σ} (hp : p.Confined asks writes)
    (hf : writes f) : (p.ensuring f).Confined asks writes :=
  hp.handle fun _ => ⟨hf, trivial⟩

theorem Confined.recover {p : Async σ Q A α} {f : String → Async σ Q A α}
    (hp : p.Confined asks writes) (hf : ∀ e, (f e).Confined asks writes) :
    (p.recover f).Confined asks writes := by
  apply hp.handle
  intro r
  cases r with
  | ok a => trivial
  | error e => exact hf e

theorem Confined.each {ι : Type} {f : ι → Async σ Q A Unit}
    (hf : ∀ a, (f a).Confined asks writes) (l : List ι) :
    (Async.each f l).Confined asks writes := by
  induction l with
  | nil => trivial
  | cons a l ih => exact (hf a).next fun _ => ih

theorem Confined.mono {asks' : Q → Prop} {writes' : (σ → σ) → Prop} {p : Async σ Q A α}
    (hp : p.Confined asks writes) (hasks : ∀ q, asks q → asks' q)
    (hwrites : ∀ f, writes f → writes' f) : p.Confined asks' writes' := by
  induction p with
  | done r => trivial
  | read k ih => exact fun s => ih s (hp s)
  | update g k ih => exact ⟨hwrites g hp.1, ih hp.2⟩
  | ask q k ih => exact ⟨hasks q hp.1, fun a => ih a (hp.2 a)⟩

end Async

section Confined

variable {S : System ι σ Q A ρ ω} {D : Discipline ι σ Q A ρ} {i : ℕ} {α : Type}

/-- The questions in `asks` and the writes in `writes` do no harm to thread `i`: `P` holds
whenever it waits, and `B` between two questions, where `B x s` speaks of the state `x` in
which the thread was resumed and the memory `s` it has made of it. -/
structure Harmless (S : System ι σ Q A ρ ω) (D : Discipline ι σ Q A ρ) (i : ℕ) (asks : Q → Prop)
    (writes : (σ → σ) → Prop) (P : Shared ι σ Q A ρ → Prop)
    (B : Shared ι σ Q A ρ → σ → Prop) : Prop where
  stable : Stable S D i P
  resumed : ∀ x, P x → D.inv x → B x x.memory
  written : ∀ x s f, B x s → writes f → B x (f s)
  asked : ∀ x s q, B x s → asks q → D.meets x (x.snoc s (.asked i q)) →
    Keeps D i x (x.snoc s (.asked i q)) ∧ P (x.snoc s (.asked i q))
  answered : ∀ x q a, P x → D.inv x → asks q → S.replies x q a →
    D.meets x (x.snoc (S.effect x.memory i q a) (.answered i q a)) →
      Keeps D i x (x.snoc (S.effect x.memory i q a) (.answered i q a)) ∧
        P (x.snoc (S.effect x.memory i q a) (.answered i q a))

theorem wp_confined {asks : Q → Prop} {writes : (σ → σ) → Prop}
    {P : Shared ι σ Q A ρ → Prop} {B : Shared ι σ Q A ρ → σ → Prop}
    (h : Harmless S D i asks writes P B) {p : Async σ Q A α} (hp : p.Confined asks writes)
    {Φ : Except String α → Shared ι σ Q A ρ → σ → Prop} (hΦ : ∀ r x s, B x s → Φ r x s)
    {x : Shared ι σ Q A ρ} {s : σ} (hx : B x s) : wp S D i p Φ x s := by
  induction p generalizing x s with
  | done r => exact hΦ r x s hx
  | read k ih => exact ih s (hp s) hx
  | update g k ih => exact ih hp.2 (h.written x s g hx hp.1)
  | ask q k ih =>
      refine wp_ask P (fun _ => P) h.stable (fun _ => h.stable) (h.asked x s q hx hp.1) ?_ ?_
      · exact fun y a hy hinv hreplies hmeets => h.answered y q a hy hinv hp.1 hreplies hmeets
      · exact fun z a hz hinv => ih a (hp.2 a) (h.resumed z hz hinv)

end Confined

/-! ## Soundness -/

section Sound

variable (S : System ι σ Q A ρ ω) (D : Discipline ι σ Q A ρ)

/-- How the program of a call has to end. -/
def Ending (i : ℕ) (c : ι) (r : Except String ρ) (x : Shared ι σ Q A ρ) (s : σ) : Prop :=
  D.meets x (x.snoc s (.ended i r)) → Keeps D i x (x.snoc s (.ended i r)) ∧ D.ends c r

/-- The programs of all calls, and the outside, keep to the discipline. -/
structure Sound : Prop where
  call : ∀ x i c, D.inv x → own i x.log = [] → S.calls x c →
    D.meets x (x.snoc x.memory (.called i c)) →
      Keeps D i x (x.snoc x.memory (.called i c)) ∧
        ∀ y, Later S D i (x.snoc x.memory (.called i c)) y → D.inv y →
          wp S D i (S.body i c) (Ending D i c) y y.memory
  outside : ∀ x w s, D.inv x → S.moves x w = some s → D.meets x (x.put s) → D.inv (x.put s)
  restart : ∀ x s, D.inv x → S.restart x = some s → D.meets x (x.snoc s .restarted) →
    D.inv (x.snoc s .restarted)

variable {S D}

/-- What is known of a thread: the rest of its program meets its precondition. -/
def Fits (S : System ι σ Q A ρ ω) (D : Discipline ι σ Q A ρ) (i : ℕ) (c : ι) :
    Status σ Q A ρ → Shared ι σ Q A ρ → Prop
  | .ready t, x => ∀ y, Later S D i x y → D.inv y → wp S D i t (Ending D i c) y y.memory
  | .waiting q k, x => ∀ y a, Later S D i x y → D.inv y → S.replies y q a →
      D.meets y (y.snoc (S.effect y.memory i q a) (.answered i q a)) →
        Keeps D i y (y.snoc (S.effect y.memory i q a) (.answered i q a)) ∧
          ∀ z, Later S D i (y.snoc (S.effect y.memory i q a) (.answered i q a)) z →
            D.inv z → wp S D i (k a) (Ending D i c) z z.memory
  | .ended r, _ => D.ends c r
  | .stopped, _ => True

/-- The steps of others do not change that. -/
theorem Fits.interferes {i : ℕ} {c : ι} {t : Status σ Q A ρ} {x y : Shared ι σ Q A ρ}
    (h : Fits S D i c t x) (hx : D.inv x) (hy : D.inv y) (hmeets : D.meets x y)
    (hstep : Interferes S D i x y) : Fits S D i c t y := by
  cases t with
  | ready t => exact fun z hlater hz => h z (.head hx hy hmeets hstep hlater) hz
  | waiting q k => exact fun z a hlater hz => h z a (.head hx hy hmeets hstep hlater) hz
  | ended r => exact h
  | stopped => trivial

/-- Running up to the next question. -/
theorem wp_advance {i : ℕ} {c : ι} {t : Async σ Q A ρ} {x : Shared ι σ Q A ρ} {s : σ}
    (h : wp S D i t (Ending D i c) x s) :
    ∃ e, Pool.leaves i (t.advance s).2 = some e ∧ Event.thread (ι := ι) e = some i ∧
      (D.meets x (x.snoc (t.advance s).1 e) → Keeps D i x (x.snoc (t.advance s).1 e) ∧
        Fits S D i c (t.advance s).2 (x.snoc (t.advance s).1 e)) := by
  induction t generalizing s with
  | done r => exact ⟨_, rfl, rfl, h⟩
  | read k ih => exact ih s h
  | update f k ih => exact ih h
  | ask q k ih => exact ⟨_, rfl, rfl, h⟩

/-- What holds of a pool at all times. -/
structure Good (S : System ι σ Q A ρ ω) (D : Discipline ι σ Q A ρ) (p : Pool ι σ Q A ρ) : Prop where
  inv : D.inv p.shared
  fresh : ∀ i, p.threads i = none → own i p.shared.log = []
  fits : ∀ i c t, p.threads i = some (c, t) → Fits S D i c t p.shared

/-- One step of thread `i`. -/
theorem Good.thread {p : Pool ι σ Q A ρ} (h : Good S D p) {i : ℕ} {c : ι} {s : σ}
    {e : Event ι Q A ρ} {t : Status σ Q A ρ} (he : e.thread = some i)
    (hmeets : D.meets p.shared (p.shared.snoc s e))
    (hkeeps : Keeps D i p.shared (p.shared.snoc s e))
    (ht : Fits S D i c t (p.shared.snoc s e)) :
    Good S D (p.setThread i c (p.shared.snoc s e) t) where
  inv := hkeeps.1
  fresh := by
    intro j hj
    have hne : j ≠ i := by
      rintro rfl
      simp [Pool.setThread] at hj
    have hfree : p.threads j = none := by
      simpa [Pool.setThread, hne] using hj
    calc own j (p.shared.log ++ [e]) = own j p.shared.log :=
          own_snoc_other (by rw [he]; exact fun h => hne (Option.some.inj h).symm)
      _ = [] := h.fresh j hfree
  fits := by
    intro j c' t' hj
    by_cases hne : j = i
    · subst hne
      simp only [Pool.setThread, Function.update_self, Option.some.injEq, Prod.mk.injEq] at hj
      obtain ⟨rfl, rfl⟩ := hj
      exact ht
    · have hthread : p.threads j = some (c', t') := by
        simpa [Pool.setThread, hne] using hj
      have hstep : Interferes S D j p.shared (p.shared.snoc s e) :=
        .thread i s e (fun h => hne h.symm) he hkeeps.2
      exact (h.fits j c' t' hthread).interferes h.inv hkeeps.1 hmeets hstep

theorem Good.step (hsound : Sound S D) {p p' : Pool ι σ Q A ρ} (h : Good S D p)
    (hstep : Step S p p') (hmeets : D.meets p.shared p'.shared) : Good S D p' := by
  cases hstep with
  | call i c hfree hcalls =>
      obtain ⟨hkeeps, hbody⟩ := hsound.call p.shared i c h.inv (h.fresh i hfree) hcalls hmeets
      exact h.thread rfl hmeets hkeeps hbody
  | reply i c q k answer hthread hreplies =>
      have hfits := h.fits i c _ hthread
      obtain ⟨hkeeps, hnext⟩ := hfits p.shared answer .refl h.inv hreplies hmeets
      exact h.thread rfl hmeets hkeeps hnext
  | resume i c t hthread =>
      have hwp := h.fits i c _ hthread p.shared .refl h.inv
      obtain ⟨e, hleaves, he, hland⟩ := wp_advance hwp
      have hshared : p.resume i c t =
          p.setThread i c (p.shared.snoc (t.advance p.shared.memory).1 e)
            (t.advance p.shared.memory).2 := by
        calc p.resume i c t =
              p.setThread i c ⟨_, p.shared.log ++ (Pool.leaves i _).toList⟩ _ := rfl
          _ = _ := by rw [hleaves]; rfl
      rw [hshared] at hmeets ⊢
      obtain ⟨hkeeps, ht⟩ := hland hmeets
      exact h.thread he hmeets hkeeps ht
  | outside w s hmoves =>
      have hinv := hsound.outside p.shared w s h.inv hmoves hmeets
      refine ⟨hinv, h.fresh, fun i c t hthread => ?_⟩
      exact (h.fits i c t hthread).interferes h.inv hinv hmeets (.outside w s hmoves)
  | restart s hrestart =>
      refine ⟨hsound.restart p.shared s h.inv hrestart hmeets, fun i hi => ?_, fun i c t hi => ?_⟩
      · calc own i (p.shared.log ++ [.restarted]) = own i p.shared.log :=
              own_snoc_other (by simp [Event.thread])
          _ = [] := h.fresh i (by simpa [Pool.restart] using hi)
      · obtain ⟨t', -, heq⟩ := Option.map_eq_some_iff.mp hi
        obtain ⟨-, rfl⟩ := Prod.mk.inj heq
        trivial

/-- **Every run keeps to the discipline** if the programs of all calls do. -/
theorem run_sound (hsound : Sound S D) {s₀ : σ} (hstart : D.inv ⟨s₀, []⟩) {p : Pool ι σ Q A ρ}
    (h : Run S D.meets s₀ p) : Good S D p := by
  induction h with
  | start => exact ⟨hstart, fun _ _ => rfl, fun i c t hi => by cases hi⟩
  | step _ hstep hmeets ih => exact ih.step hsound hstep hmeets

end Sound

/-! ## Invariants of the memory -/

section Keeps

variable (S : System ι σ Q A ρ ω) (I : σ → Prop)

/-- The discipline that asks for nothing but an invariant of the memory. -/
def always : Discipline ι σ Q A ρ where
  meets := Anyhow
  inv x := I x.memory
  acts _ _ _ := True
  ends _ _ := True

/-- Every write of the programs, every answer and every step of the outside keeps `I`. -/
structure KeepsAll : Prop where
  body : ∀ i c, (S.body i c).Confined (fun _ => True) fun f => ∀ s, I s → I (f s)
  effect : ∀ x i q a, S.replies x q a → I x.memory → I (S.effect x.memory i q a)
  outside : ∀ x w s, S.moves x w = some s → I x.memory → I s
  restart : ∀ x s, S.restart x = some s → I x.memory → I s

variable {S I}

theorem KeepsAll.harmless (h : KeepsAll S I) (i : ℕ) :
    Harmless S (always I) i (fun _ => True) (fun f => ∀ s, I s → I (f s)) (fun _ => True)
      fun _ s => I s where
  stable := .const True
  resumed _ _ hinv := hinv
  written _ s _ hs hf := hf s hs
  asked _ _ _ hs _ _ := ⟨⟨hs, trivial⟩, trivial⟩
  answered x q a _ hinv _ hreplies _ := ⟨⟨h.effect x i q a hreplies hinv, trivial⟩, trivial⟩

theorem KeepsAll.sound (h : KeepsAll S I) : Sound S (always I) where
  call _ i c hinv _ _ _ := by
    refine ⟨⟨hinv, trivial⟩, fun y _ hy => ?_⟩
    exact wp_confined (h.harmless i) (h.body i c) (fun _ _ _ hs _ => ⟨⟨hs, trivial⟩, trivial⟩) hy
  outside x w s hinv hmoves _ := h.outside x w s hmoves hinv
  restart x s hinv hrestart _ := h.restart x s hrestart hinv

/-- **An invariant that every single write keeps** holds in every run, whatever the threads
do in between. -/
theorem run_keeps (h : KeepsAll S I) {s₀ : σ} (hstart : I s₀) {p : Pool ι σ Q A ρ}
    (hrun : Run S Anyhow s₀ p) : I p.shared.memory :=
  (run_sound h.sound hstart hrun).inv

end Keeps

end EventLoop
