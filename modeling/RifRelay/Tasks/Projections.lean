import RifRelay.Machine.History
import RifRelay.Tasks.Threads

set_option autoImplicit false

/-! # From the loop to its threads

A thread of an event loop runs its own program, whatever the others do. `Partly W p s l t s'` is a
run of one thread that has not come to an end; `run_projects` says that the log of every run of
the loop has, for each thread, the questions and the end of such a run (`Own`), in which the others
leave a memory that is reachable.

So what a program asks only after certain exchanges (`AsksOnly`), it asks only after them in every
run of every loop that has it.
-/

namespace EventLoop

open CallMachine (Each Each.nil Each.snoc)

variable {ι σ Q : Type} {A : Q → Type} {ρ ω α β : Type}

/-! ## Runs that go on -/

/-- The program has become `t`, which goes on in `s'`, after the exchanges `l`. -/
inductive Partly (W : Surroundings σ Q A) :
    Async σ Q A α → σ → List (Exchange Q A) → Async σ Q A α → σ → Prop
  | here (t : Async σ Q A α) (s : σ) : Partly W t s [] t s
  | read {k : σ → Async σ Q A α} {s s' : σ} {l : List (Exchange Q A)} {t : Async σ Q A α}
      (h : Partly W (k s) s l t s') : Partly W (.read k) s l t s'
  | update {f : σ → σ} {k t : Async σ Q A α} {s s' : σ} {l : List (Exchange Q A)}
      (h : Partly W k (f s) l t s') : Partly W (.update f k) s l t s'
  | ask {q : Q} {k : Except String (A q) → Async σ Q A α} {s s₁ s₂ s' : σ}
      {a : Except String (A q)} {l : List (Exchange Q A)} {t : Async σ Q A α}
      (hasked : W.others s s₁) (hreplies : W.replies s₁ q a)
      (hresumed : W.others (W.effect s₁ q a) s₂) (h : Partly W (k a) s₂ l t s') :
      Partly W (.ask q k) s (⟨q, a⟩ :: l) t s'

/-- The program asks `q` after the exchanges `l`. -/
def AsksAfter (W : Surroundings σ Q A) (p : Async σ Q A α) (s : σ) (l : List (Exchange Q A))
    (q : Q) : Prop :=
  ∃ k s', Partly W p s l (.ask q k) s'

variable {W : Surroundings σ Q A}

section Partly

variable {p t u : Async σ Q A α} {s s' s'' : σ} {l l' : List (Exchange Q A)}

theorem Partly.trans (h : Partly W p s l t s') (h' : Partly W t s' l' u s'') :
    Partly W p s (l ++ l') u s'' := by
  induction h with
  | here => exact h'
  | read _ ih => exact .read (ih h')
  | update _ ih => exact .update (ih h')
  | ask hasked hreplies hresumed _ ih => exact .ask hasked hreplies hresumed (ih h')

theorem Partly.runs {r : Except String α} (h : Partly W p s l t s') (h' : Runs W t s' l' r s'') :
    Runs W p s (l ++ l') r s'' := by
  induction h with
  | here => exact h'
  | read _ ih => exact .read (ih h')
  | update _ ih => exact .update (ih h')
  | ask hasked hreplies hresumed _ ih => exact .ask hasked hreplies hresumed (ih h')

/-- The answer to the question that is open. -/
theorem Partly.answered {q : Q} {k : Except String (A q) → Async σ Q A α}
    (h : Partly W p s l (.ask q k) s') {a : Except String (A q)} {s₁ s₂ : σ}
    (hasked : W.others s' s₁) (hreplies : W.replies s₁ q a)
    (hresumed : W.others (W.effect s₁ q a) s₂) : Partly W p s (l ++ [⟨q, a⟩]) (k a) s₂ :=
  h.trans (.ask hasked hreplies hresumed (.here _ _))

/-- Running up to the next question leads to that question. -/
theorem partly_advance {q : Q} {k : Except String (A q) → Async σ Q A α}
    (h : t.advance s = (s', .waiting q k)) : Partly W t s [] (.ask q k) s' := by
  induction t generalizing s with
  | done r => cases h
  | read k ih => exact .read (ih s h)
  | update f k ih => exact .update (ih h)
  | ask q' k' ih =>
      obtain ⟨rfl, heq⟩ := Prod.mk.inj h
      injection heq with hq hk
      subst hq
      obtain rfl := eq_of_heq hk
      exact .here _ _

/-- Running up to the end is a run. -/
theorem runs_advance {r : Except String α} (h : t.advance s = (s', .ended r)) :
    Runs W t s [] r s' := by
  induction t generalizing s with
  | done r' =>
      obtain ⟨rfl, heq⟩ := Prod.mk.inj h
      injection heq with hr
      subst hr
      exact .done _ _
  | read k ih => exact .read (ih s h)
  | update f k ih => exact .update (ih h)
  | ask q' k' ih => cases h

/-- A thread that has run is not ready. -/
theorem advance_ne_ready : t.advance s ≠ (s', .ready u) := by
  induction t generalizing s with
  | done r =>
      intro h
      cases h
  | read k ih => exact ih s
  | update f k ih => exact ih
  | ask q k ih =>
      intro h
      cases h

theorem advance_ne_stopped : t.advance s ≠ (s', .stopped) := by
  induction t generalizing s with
  | done r =>
      intro h
      cases h
  | read k ih => exact ih s
  | update f k ih => exact ih
  | ask q k ih =>
      intro h
      cases h

end Partly

/-! ## Two more rules for runs -/

section Ensures

variable {s : σ}

theorem ensures_question {q : Q} :
    Ensures W (Async.await q) s fun l r _ => l = [⟨q, r⟩] := by
  refine (ensures_ask q _).mpr fun s₁ a s₂ _ _ _ => ?_
  rw [ensures_done]

/-- A question whose failure is thrown again. -/
theorem ensures_rethrow {q : Q} {e : String → String} :
    Ensures W (Async.recover (Async.await q) fun x => Async.throw (e x)) s
      fun l r _ => ∀ a, r = .ok a → l = [⟨q, .ok a⟩] := by
  refine (ensures_handle _ _).mpr (ensures_question.mono fun l r s₁ hl => ?_)
  cases r with
  | ok a =>
      refine (ensures_done _).mpr ?_
      rintro _ ⟨⟩
      rw [List.append_nil]
      exact hl
  | error x =>
      refine (ensures_done _).mpr ?_
      rintro _ ⟨⟩

/-- Waiting for another program: its result is handed over by the last exchange. -/
theorem Ensures.call {p : Async σ Q A α} {q : Except String α → Q}
    {Φ Ψ : List (Exchange Q A) → Except String α → σ → Prop} (hp : Ensures W p s Φ)
    (h : ∀ l r s₁ a s₂, Φ l r s₁ → Ψ (l ++ [⟨q r, a⟩]) r s₂) : Ensures W (p.call q) s Ψ := by
  refine (ensures_handle _ _).mpr (hp.mono fun l r s₁ hr => ?_)
  refine (ensures_ask _ _).mpr fun s₂ a s₃ _ _ _ => ?_
  exact (ensures_done _).mpr (h l r s₁ a s₃ hr)

/-- Waiting for another program ends in a memory that the others have left. -/
theorem ensures_resumed {I : σ → Prop} (hI : ∀ s s', W.others s s' → I s') {p : Async σ Q A α}
    {q : Except String α → Q} : Ensures W (p.call q) s fun _ _ s' => I s' := by
  refine (ensures_handle _ _).mpr ((ensures_true p).mono fun l r s₁ _ => ?_)
  refine (ensures_ask _ _).mpr fun s₂ a s₃ _ _ hresumed => ?_
  exact (ensures_done _).mpr (hI _ _ hresumed)

end Ensures

/-! ## What a program asks -/

/-- Whenever the program asks `q`, after the exchanges `l`, then `P l q` holds. -/
def AsksOnly (W : Surroundings σ Q A) (p : Async σ Q A α) (s : σ)
    (P : List (Exchange Q A) → Q → Prop) : Prop :=
  ∀ l q, AsksAfter W p s l q → P l q

section AsksOnly

variable {P P' : List (Exchange Q A) → Q → Prop} {s : σ}

theorem AsksOnly.mono {p : Async σ Q A α} (h : AsksOnly W p s P) (hP : ∀ l q, P l q → P' l q) :
    AsksOnly W p s P' :=
  fun l q hasks => hP l q (h l q hasks)

theorem asks_done (r : Except String α) : AsksOnly W (.done r) s P := by
  rintro l q ⟨k, s', h⟩
  cases h

theorem asks_read {k : σ → Async σ Q A α} (h : AsksOnly W (k s) s P) :
    AsksOnly W (.read k) s P := by
  rintro l q ⟨k', s', hp⟩
  cases hp with
  | read hp => exact h l q ⟨k', s', hp⟩

theorem asks_update {f : σ → σ} {k : Async σ Q A α} (h : AsksOnly W k (f s) P) :
    AsksOnly W (.update f k) s P := by
  rintro l q ⟨k', s', hp⟩
  cases hp with
  | update hp => exact h l q ⟨k', s', hp⟩

theorem asks_ask {q : Q} {k : Except String (A q) → Async σ Q A α} (hq : P [] q)
    (h : ∀ s₁ a s₂, W.others s s₁ → W.replies s₁ q a → W.others (W.effect s₁ q a) s₂ →
      AsksOnly W (k a) s₂ fun l => P (⟨q, a⟩ :: l)) : AsksOnly W (.ask q k) s P := by
  rintro l q' ⟨k', s', hp⟩
  cases hp with
  | here => exact hq
  | ask hasked hreplies hresumed hp => exact h _ _ _ hasked hreplies hresumed _ q' ⟨k', s', hp⟩

theorem asks_await {q : Q} (hq : P [] q) : AsksOnly W (Async.await q) s P :=
  asks_ask hq fun _ a _ _ _ _ => asks_done a

/-- A composed program asks what its first part asks, and its second part after that. -/
theorem asks_handle {p : Async σ Q A α} {f : Except String α → Async σ Q A β}
    (hp : AsksOnly W p s P)
    (hf : Ensures W p s fun l r s₁ => AsksOnly W (f r) s₁ fun l' => P (l ++ l')) :
    AsksOnly W (p.handle f) s P := by
  induction p generalizing s P with
  | done r => exact (ensures_done r).mp hf
  | read k ih =>
      refine asks_read (ih s ?_ ((ensures_read k).mp hf))
      rintro l q ⟨k', s', h⟩
      exact hp l q ⟨k', s', .read h⟩
  | update g k ih =>
      refine asks_update (ih ?_ ((ensures_update g k).mp hf))
      rintro l q ⟨k', s', h⟩
      exact hp l q ⟨k', s', .update h⟩
  | ask q k ih =>
      refine asks_ask (hp [] q ⟨k, s, .here _ _⟩) fun s₁ a s₂ hasked hreplies hresumed => ?_
      refine ih a ?_ ((ensures_ask q k).mp hf s₁ a s₂ hasked hreplies hresumed)
      rintro l q' ⟨k', s', h⟩
      exact hp _ q' ⟨k', s', .ask hasked hreplies hresumed h⟩

/-- Sequencing, with what the first program ensures. -/
theorem AsksOnly.next {p : Async σ Q A α} {f : α → Async σ Q A β}
    {Φ : List (Exchange Q A) → Except String α → σ → Prop} (hp : AsksOnly W p s P)
    (hend : Ensures W p s Φ)
    (hf : ∀ l a s₁, Φ l (.ok a) s₁ → AsksOnly W (f a) s₁ fun l' => P (l ++ l')) :
    AsksOnly W (p.handle (Async.next f)) s P := by
  refine asks_handle hp (hend.mono fun l r s₁ h => ?_)
  cases r with
  | ok a => exact hf l a s₁ h
  | error e => exact asks_done _

/-- Sequencing, for the questions and the end at once. -/
theorem AsksOnly.next_ensures {p : Async σ Q A α} {f : α → Async σ Q A β}
    {Φ : List (Exchange Q A) → Except String α → σ → Prop}
    {Ψ : List (Exchange Q A) → Except String β → σ → Prop} (hp : AsksOnly W p s P)
    (hend : Ensures W p s Φ)
    (hf : ∀ l a s₁, Φ l (.ok a) s₁ →
      AsksOnly W (f a) s₁ (fun l' => P (l ++ l')) ∧ Ensures W (f a) s₁ fun l' => Ψ (l ++ l'))
    (herror : ∀ l e s₁, Ψ l (.error e) s₁) :
    AsksOnly W (p.handle (Async.next f)) s P ∧ Ensures W (p.handle (Async.next f)) s Ψ := by
  constructor
  · exact hp.next hend fun l a s₁ h => (hf l a s₁ h).1
  · exact hend.next (fun l a s₁ h => (hf l a s₁ h).2) fun l e s₁ _ => herror l e s₁

theorem asks_get {k : σ → Async σ Q A β} (h : AsksOnly W (k s) s P) :
    AsksOnly W (Async.get.handle (Async.next k)) s P := asks_read h

theorem asks_modify {f : σ → σ} {k : Unit → Async σ Q A β} (h : AsksOnly W (k ()) (f s) P) :
    AsksOnly W ((Async.modify f).handle (Async.next k)) s P := asks_update h

theorem asks_assert {p : Prop} [Decidable p] {e : String} {k : Unit → Async σ Q A β}
    (h : p → AsksOnly W (k ()) s P) :
    AsksOnly W ((Async.assert p e).handle (Async.next k)) s P := by
  unfold Async.assert
  split
  next hp => exact h hp
  next => exact asks_done _

theorem asks_ite {p : Prop} [Decidable p] {t t' : Async σ Q A α} (ht : p → AsksOnly W t s P)
    (ht' : ¬ p → AsksOnly W t' s P) : AsksOnly W (if p then t else t') s P := by
  split
  next hp => exact ht hp
  next hp => exact ht' hp

/-- Waiting for another program asks what it asks, and then for its end. -/
theorem AsksOnly.call {p : Async σ Q A α} {q : Except String α → Q} (hp : AsksOnly W p s P)
    (hq : ∀ l r, P l (q r)) : AsksOnly W (p.call q) s P := by
  refine asks_handle hp fun l r s₁ _ => asks_ask ?_ fun _ _ _ _ _ _ => asks_done r
  rw [List.append_nil]
  exact hq l r

/-- The questions of a confined program. -/
theorem asks_confined {asks : Q → Prop} {writes : (σ → σ) → Prop} {p : Async σ Q A α}
    (hp : p.Confined asks writes) (h : ∀ l q, asks q → P l q) : AsksOnly W p s P := by
  induction p generalizing s P with
  | done r => exact asks_done r
  | read k ih => exact asks_read (ih s (hp s) h)
  | update f k ih => exact asks_update (ih hp.2 h)
  | ask q k ih =>
      exact asks_ask (h [] q hp.1) fun s₁ a s₂ _ _ _ => ih a (hp.2 a) fun l q' hq' => h _ q' hq'

end AsksOnly

/-! ## Threads of a loop -/

section Loop

variable (S : System ι σ Q A ρ ω) (I : σ → Prop) (i : ℕ)

/-- The outside of thread `i`, in a loop whose memory is always in `I`. -/
def System.surroundings : Surroundings σ Q A where
  replies s q a := ∃ x : Shared ι σ Q A ρ, x.memory = s ∧ S.replies x q a
  effect s := S.effect s i
  others _ s' := I s'

/-- What thread `i` was answered. -/
def exchanges (log : List (Event ι Q A ρ)) : List (Exchange Q A) :=
  log.filterMap fun e =>
    match e with
    | .answered j q a => if j = i then some ⟨q, a⟩ else none
    | _ => none

/-- Entries that are no answers to thread `i`. -/
theorem exchanges_append {l : List (Event ι Q A ρ)} (h : ∀ e ∈ l, ∀ q a, e ≠ .answered i q a)
    (log : List (Event ι Q A ρ)) : exchanges i (log ++ l) = exchanges i log := by
  have hnil : exchanges i l = [] := by
    refine List.filterMap_eq_nil_iff.mpr fun e he => ?_
    cases e with
    | answered j q a =>
        have hne : j ≠ i := by
          rintro rfl
          exact h _ he q a rfl
        exact if_neg hne
    | _ => rfl
  unfold exchanges at hnil ⊢
  rw [List.filterMap_append, hnil, List.append_nil]

theorem exchanges_answered (log : List (Event ι Q A ρ)) (q : Q) (a : Except String (A q)) :
    exchanges i (log ++ [.answered i q a]) = exchanges i log ++ [⟨q, a⟩] := by
  simp [exchanges]

/-- The entry `e`, after the history `log`, is a question or the end of a run of its thread. -/
def Own (log : List (Event ι Q A ρ)) (e : Event ι Q A ρ) : Prop :=
  match e with
  | .asked i q => ∃ c s, .called i c ∈ log ∧ I s ∧
      AsksAfter (S.surroundings I i) (S.body i c) s (exchanges i log) q
  | .ended i r => ∃ c s s', .called i c ∈ log ∧ I s ∧
      Runs (S.surroundings I i) (S.body i c) s (exchanges i log) r s'
  | _ => True

/-- What a thread that was started by `c` has become. -/
def Led (log : List (Event ι Q A ρ)) (c : ι) : Status σ Q A ρ → Prop
  | .ready t => ∀ s', I s' → ∃ s, I s ∧
      Partly (S.surroundings I i) (S.body i c) s (exchanges i log) t s'
  | .waiting q k => ∃ s s', I s ∧
      Partly (S.surroundings I i) (S.body i c) s (exchanges i log) (.ask q k) s'
  | .ended _ | .stopped => True

structure Projected (p : Pool ι σ Q A ρ) : Prop where
  entries : Each (Own S I) p.shared.log
  threads : ∀ i c t, p.threads i = some (c, t) → .called i c ∈ p.shared.log ∧
    (∀ c', .called i c' ∈ p.shared.log → c' = c) ∧ Led S I i p.shared.log c t
  fresh : ∀ i, p.threads i = none → ∀ e ∈ p.shared.log, e.thread ≠ some i

variable {S I i}

/-- Nothing happens to a thread while its exchanges stay the same. -/
theorem Led.congr {log log' : List (Event ι Q A ρ)} {c : ι} {t : Status σ Q A ρ}
    (h : Led S I i log c t) (heq : exchanges i log' = exchanges i log) : Led S I i log' c t := by
  cases t with
  | ready t =>
      intro s' hs'
      rw [heq]
      exact h s' hs'
  | waiting q k =>
      show ∃ s s', I s ∧ Partly _ _ s (exchanges i log') _ s'
      rw [heq]
      exact h
  | ended r => trivial
  | stopped => trivial

variable {p p' : Pool ι σ Q A ρ}

theorem exchanges_foreign {l : List (Event ι Q A ρ)} (h : ∀ e ∈ l, e.thread ≠ some i)
    (log : List (Event ι Q A ρ)) : exchanges i (log ++ l) = exchanges i log := by
  refine exchanges_append i (fun e he q a heq => ?_) log
  exact h e he (heq ▸ rfl)

/-- Thread `i` has moved, and has left the entries `l`. -/
theorem Projected.moved (h : Projected S I p) {i : ℕ} {c : ι} {t : Status σ Q A ρ}
    {l : List (Event ι Q A ρ)} {s : σ} (hl : ∀ e ∈ l, e.thread = some i)
    (hentries : Each (Own S I) (p.shared.log ++ l)) (hcalled : .called i c ∈ p.shared.log ++ l)
    (honce : ∀ c', .called i c' ∈ p.shared.log ++ l → c' = c)
    (hled : Led S I i (p.shared.log ++ l) c t) :
    Projected S I (p.setThread i c ⟨s, p.shared.log ++ l⟩ t) where
  entries := hentries
  threads := by
    intro j c' t' hj
    by_cases hji : j = i
    · subst hji
      rw [Pool.setThread_self] at hj
      obtain ⟨rfl, rfl⟩ := Prod.mk.inj (Option.some.inj hj)
      exact ⟨hcalled, honce, hled⟩
    · rw [Pool.setThread_other _ hji] at hj
      obtain ⟨hmem, honce', hled'⟩ := h.threads j c' t' hj
      have hforeign : ∀ e ∈ l, e.thread ≠ some j :=
        fun e he heq => hji (Option.some.inj (heq.symm.trans (hl e he)))
      refine ⟨List.mem_append_left _ hmem, fun c₁ hc₁ => ?_, ?_⟩
      · rcases List.mem_append.mp hc₁ with hold | hnew
        · exact honce' c₁ hold
        · exact absurd rfl (hforeign _ hnew)
      · exact hled'.congr (exchanges_foreign hforeign _)
  fresh := by
    intro j hj e he
    have hji : j ≠ i := by
      rintro rfl
      rw [Pool.setThread_self] at hj
      cases hj
    rw [Pool.setThread_other _ hji] at hj
    rcases List.mem_append.mp he with hold | hnew
    · exact h.fresh j hj e hold
    · intro heq
      exact hji (Option.some.inj (heq.symm.trans (hl e hnew)))

/-- A thread that was started before is started by the same call. -/
theorem Projected.once (h : Projected S I p) {i : ℕ} {c : ι} {t : Status σ Q A ρ}
    (hthread : p.threads i = some (c, t)) {l : List (Event ι Q A ρ)}
    (hl : ∀ e ∈ l, ∀ c', e ≠ .called i c') (c' : ι) (hc' : .called i c' ∈ p.shared.log ++ l) :
    c' = c := by
  rcases List.mem_append.mp hc' with hold | hnew
  · exact (h.threads i c t hthread).2.1 c' hold
  · exact absurd rfl (hl _ hnew c')

theorem Projected.step (h : Projected S I p) (hI : I p.shared.memory) (hI' : I p'.shared.memory)
    (hstep : Step S p p') : Projected S I p' := by
  cases hstep with
  | call i c hfree hcalls =>
      refine h.moved (by simp [Event.thread]) (h.entries.snoc trivial) (by simp) ?_ ?_
      · intro c' hc'
        rcases List.mem_append.mp hc' with hold | hnew
        · exact absurd rfl (h.fresh i hfree _ hold)
        · injection List.mem_singleton.mp hnew
      -- the thread is new, so it has exchanged nothing yet
      · intro s' hs'
        have hnil : exchanges i (p.shared.log ++ [.called i c]) = [] := by
          rw [exchanges_append i (by simp)]
          have hfresh : ∀ e ∈ p.shared.log, e.thread ≠ some i := h.fresh i hfree
          exact exchanges_foreign hfresh []
        refine ⟨s', hs', ?_⟩
        rw [hnil]
        exact .here _ _
  | reply i c q k answer hthread hreplies =>
      obtain ⟨hcalled, -, s, s₁, hs, hpartly⟩ := h.threads i c _ hthread
      refine h.moved (by simp [Event.thread]) (h.entries.snoc trivial)
        (List.mem_append_left _ hcalled) (h.once hthread (by simp)) ?_
      intro s' hs'
      refine ⟨s, hs, ?_⟩
      rw [exchanges_answered]
      exact hpartly.answered hI ⟨p.shared, rfl, hreplies⟩ hs'
  | resume i c t hthread =>
      obtain ⟨hcalled, -, hready⟩ := h.threads i c _ hthread
      obtain ⟨s, hs, hpartly⟩ := hready p.shared.memory hI
      -- a thread that goes on waits for its next answer or ends
      unfold Pool.resume
      generalize hadvance : t.advance p.shared.memory = x
      obtain ⟨s', t'⟩ := x
      cases t' with
      | ready u => exact absurd hadvance advance_ne_ready
      | stopped => exact absurd hadvance advance_ne_stopped
      | waiting q k =>
          have hreached := hpartly.trans (partly_advance hadvance)
          rw [List.append_nil] at hreached
          refine h.moved (by simp [Pool.leaves, Event.thread])
            (h.entries.snoc ⟨c, s, hcalled, hs, k, s', hreached⟩) (List.mem_append_left _ hcalled)
            (h.once hthread (by simp [Pool.leaves])) ⟨s, s', hs, ?_⟩
          rw [exchanges_append i (by simp [Pool.leaves])]
          exact hreached
      | ended r =>
          have hended := hpartly.runs (runs_advance hadvance)
          rw [List.append_nil] at hended
          exact h.moved (by simp [Pool.leaves, Event.thread])
            (h.entries.snoc ⟨c, s, s', hcalled, hs, hended⟩) (List.mem_append_left _ hcalled)
            (h.once hthread (by simp [Pool.leaves])) trivial
  | outside w s hmoves => exact ⟨h.entries, h.threads, h.fresh⟩
  | restart s hrestart =>
      refine ⟨h.entries.snoc trivial, ?_, ?_⟩
      -- no thread goes on after a restart
      · intro j c t hj
        obtain ⟨t', ht', heq⟩ := Option.map_eq_some_iff.mp hj
        obtain ⟨rfl, rfl⟩ := Prod.mk.inj heq
        exact ⟨List.mem_append_left _ (h.threads j _ _ ht').1, h.once ht' (by simp), trivial⟩
      · intro j hj e he
        rcases List.mem_append.mp he with hold | hnew
        · exact h.fresh j (by simpa [Pool.restart] using hj) e hold
        · rw [List.mem_singleton.mp hnew]
          exact (Option.some_ne_none j).symm

/-- **Every thread of a run is a run of its program.** -/
theorem run_projects {C : Shared ι σ Q A ρ → Shared ι σ Q A ρ → Prop} {s₀ : σ}
    (hI : ∀ p, Run S C s₀ p → I p.shared.memory) (h : Run S C s₀ p) : Projected S I p := by
  induction h with
  | start => exact ⟨Each.nil, fun i c t hi => (by cases hi), fun _ _ _ he => (by cases he)⟩
  | step hrun hstep hmeets ih => exact ih.step (hI _ hrun) (hI _ (hrun.step hstep hmeets)) hstep

/-- The call of a thread. -/
theorem Projected.call_unique (h : Projected S I p) {i : ℕ} {c c' : ι}
    (hc : .called i c ∈ p.shared.log) (hc' : .called i c' ∈ p.shared.log) : c' = c := by
  cases hthread : p.threads i with
  | none => exact absurd rfl (h.fresh i hthread _ hc)
  | some x =>
      obtain ⟨-, honce, -⟩ := h.threads i x.1 x.2 hthread
      exact (honce c' hc').trans (honce c hc).symm

/-- What a thread has asked, its program asks. -/
theorem Projected.asked (h : Projected S I p) {i : ℕ} {c : ι} {q : Q}
    {l₁ l₂ : List (Event ι Q A ρ)} (hc : .called i c ∈ p.shared.log)
    (hlog : p.shared.log = l₁ ++ .asked i q :: l₂) :
    ∃ s, I s ∧ AsksAfter (S.surroundings I i) (S.body i c) s (exchanges i l₁) q := by
  obtain ⟨c', s, hc', hs, hasks⟩ := h.entries l₁ _ l₂ hlog
  obtain rfl := h.call_unique hc (hlog ▸ List.mem_append_left _ hc')
  exact ⟨s, hs, hasks⟩

/-- What a thread has ended with, a run of its program ends with. -/
theorem Projected.ended (h : Projected S I p) {i : ℕ} {c : ι} {r : Except String ρ}
    {l₁ l₂ : List (Event ι Q A ρ)} (hc : .called i c ∈ p.shared.log)
    (hlog : p.shared.log = l₁ ++ .ended i r :: l₂) :
    ∃ s s', I s ∧ Runs (S.surroundings I i) (S.body i c) s (exchanges i l₁) r s' := by
  obtain ⟨c', s, s', hc', hs, hruns⟩ := h.entries l₁ _ l₂ hlog
  obtain rfl := h.call_unique hc (hlog ▸ List.mem_append_left _ hc')
  exact ⟨s, s', hs, hruns⟩

end Loop

end EventLoop
