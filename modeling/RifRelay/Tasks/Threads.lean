import RifRelay.Tasks.Rules

set_option autoImplicit false

/-! # One thread by itself

`Runs W p s l r s'` follows one thread from its first step to its end, and leaves the others to
a relation `W.others`: what they may have made of the memory whenever the thread goes on. The
list `l` has the questions of the thread with the answers it got.

* `runs_handle` — the runs of composed programs.
* `Ensures` and `Does`, with their rules — what holds of every run, for showing it piece by
  piece.
* `follow` computes a run.
-/

namespace EventLoop

variable {ι σ Q : Type} {A : Q → Type} {ρ ω α β : Type}

/-- A question and what it was answered. -/
abbrev Exchange (Q : Type) (A : Q → Type) : Type := (q : Q) × Except String (A q)

/-- The outside of one thread: what it may be answered, what an answer does, and what others do
while it waits. -/
structure Surroundings (σ Q : Type) (A : Q → Type) where
  replies : σ → (q : Q) → Except String (A q) → Prop
  effect : σ → (q : Q) → Except String (A q) → σ
  others : σ → σ → Prop

/-- The program is started in `s`, gets the answers in `l`, ends with `r` and leaves `s'`. -/
inductive Runs (W : Surroundings σ Q A) :
    Async σ Q A α → σ → List (Exchange Q A) → Except String α → σ → Prop
  | done (r : Except String α) (s : σ) : Runs W (.done r) s [] r s
  | read {k : σ → Async σ Q A α} {s s' : σ} {l : List (Exchange Q A)} {r : Except String α}
      (h : Runs W (k s) s l r s') : Runs W (.read k) s l r s'
  | update {f : σ → σ} {k : Async σ Q A α} {s s' : σ} {l : List (Exchange Q A)}
      {r : Except String α} (h : Runs W k (f s) l r s') : Runs W (.update f k) s l r s'
  | ask {q : Q} {k : Except String (A q) → Async σ Q A α} {s s₁ s₂ s' : σ}
      {a : Except String (A q)} {l : List (Exchange Q A)} {r : Except String α}
      (hasked : W.others s s₁) (hreplies : W.replies s₁ q a)
      (hresumed : W.others (W.effect s₁ q a) s₂) (h : Runs W (k a) s₂ l r s') :
      Runs W (.ask q k) s (⟨q, a⟩ :: l) r s'

variable {W : Surroundings σ Q A} {s s' : σ} {l : List (Exchange Q A)}

/-! ## Composed programs -/

section Runs

variable {r : Except String α}

theorem runs_done {r₀ : Except String α} :
    Runs W (.done r₀) s l r s' ↔ l = [] ∧ r = r₀ ∧ s' = s := by
  constructor
  · intro h
    cases h
    exact ⟨rfl, rfl, rfl⟩
  · rintro ⟨rfl, rfl, rfl⟩
    exact .done _ _

theorem runs_read {k : σ → Async σ Q A α} :
    Runs W (.read k) s l r s' ↔ Runs W (k s) s l r s' := by
  constructor
  · intro h
    cases h with
    | read h => exact h
  · exact .read

theorem runs_update {f : σ → σ} {k : Async σ Q A α} :
    Runs W (.update f k) s l r s' ↔ Runs W k (f s) l r s' := by
  constructor
  · intro h
    cases h with
    | update h => exact h
  · exact .update

theorem runs_ask {q : Q} {k : Except String (A q) → Async σ Q A α} :
    Runs W (.ask q k) s l r s' ↔ ∃ s₁ a s₂ l', l = ⟨q, a⟩ :: l' ∧ W.others s s₁ ∧
      W.replies s₁ q a ∧ W.others (W.effect s₁ q a) s₂ ∧ Runs W (k a) s₂ l' r s' := by
  constructor
  · intro h
    cases h with
    | ask hasked hreplies hresumed h => exact ⟨_, _, _, _, rfl, hasked, hreplies, hresumed, h⟩
  · rintro ⟨s₁, a, s₂, l', rfl, hasked, hreplies, hresumed, h⟩
    exact .ask hasked hreplies hresumed h

theorem Runs.handle {p : Async σ Q A α} {f : Except String α → Async σ Q A β} {s₁ : σ}
    {l₁ l₂ : List (Exchange Q A)} {r' : Except String β} (hp : Runs W p s l₁ r s₁)
    (hf : Runs W (f r) s₁ l₂ r' s') : Runs W (p.handle f) s (l₁ ++ l₂) r' s' := by
  induction hp with
  | done r s => exact hf
  | read _ ih => exact .read (ih hf)
  | update _ ih => exact .update (ih hf)
  | ask hasked hreplies hresumed _ ih => exact .ask hasked hreplies hresumed (ih hf)

/-- A run of two programs is a run of the first, and then one of the second. -/
theorem runs_handle {p : Async σ Q A α} {f : Except String α → Async σ Q A β}
    {r' : Except String β} :
    Runs W (p.handle f) s l r' s' ↔ ∃ l₁ r s₁ l₂, l = l₁ ++ l₂ ∧ Runs W p s l₁ r s₁ ∧
      Runs W (f r) s₁ l₂ r' s' := by
  constructor
  · intro h
    induction p generalizing s l with
    | done r => exact ⟨[], r, s, l, rfl, .done r s, h⟩
    | read k ih =>
        obtain ⟨l₁, r, s₁, l₂, hl, hp, hf⟩ := ih s (runs_read.mp h)
        exact ⟨l₁, r, s₁, l₂, hl, .read hp, hf⟩
    | update g k ih =>
        obtain ⟨l₁, r, s₁, l₂, hl, hp, hf⟩ := ih (runs_update.mp h)
        exact ⟨l₁, r, s₁, l₂, hl, .update hp, hf⟩
    | ask q k ih =>
        obtain ⟨t, a, t', l', rfl, hasked, hreplies, hresumed, hk⟩ := runs_ask.mp h
        obtain ⟨l₁, r, s₁, l₂, rfl, hp, hf⟩ := ih a hk
        exact ⟨⟨q, a⟩ :: l₁, r, s₁, l₂, rfl, .ask hasked hreplies hresumed hp, hf⟩
  · rintro ⟨l₁, r, s₁, l₂, rfl, hp, hf⟩
    exact hp.handle hf

end Runs

/-! ## What holds of every run -/

/-- Whatever the answers are, the program ends with `Φ`. -/
def Ensures (W : Surroundings σ Q A) (p : Async σ Q A α) (s : σ)
    (Φ : List (Exchange Q A) → Except String α → σ → Prop) : Prop :=
  ∀ l r s', Runs W p s l r s' → Φ l r s'

section Ensures

variable {Φ Φ' : List (Exchange Q A) → Except String α → σ → Prop}
  {Ψ : List (Exchange Q A) → Except String β → σ → Prop}

theorem Ensures.mono {p : Async σ Q A α} (h : Ensures W p s Φ)
    (hΦ : ∀ l r s', Φ l r s' → Φ' l r s') : Ensures W p s Φ' :=
  fun l r s' hrun => hΦ l r s' (h l r s' hrun)

theorem Ensures.and {p : Async σ Q A α} (h : Ensures W p s Φ) (h' : Ensures W p s Φ') :
    Ensures W p s fun l r s' => Φ l r s' ∧ Φ' l r s' :=
  fun l r s' hrun => ⟨h l r s' hrun, h' l r s' hrun⟩

theorem ensures_true (p : Async σ Q A α) : Ensures W p s fun _ _ _ => True :=
  fun _ _ _ _ => trivial

@[simp] theorem ensures_done (r : Except String α) : Ensures W (.done r) s Φ ↔ Φ [] r s := by
  constructor
  · exact fun h => h [] r s (.done r s)
  · intro h l r' s' hrun
    obtain ⟨rfl, rfl, rfl⟩ := runs_done.mp hrun
    exact h

@[simp] theorem ensures_read (k : σ → Async σ Q A α) :
    Ensures W (.read k) s Φ ↔ Ensures W (k s) s Φ :=
  forall₃_congr fun _ _ _ => by rw [runs_read]

@[simp] theorem ensures_update (f : σ → σ) (k : Async σ Q A α) :
    Ensures W (.update f k) s Φ ↔ Ensures W k (f s) Φ :=
  forall₃_congr fun _ _ _ => by rw [runs_update]

theorem ensures_ask (q : Q) (k : Except String (A q) → Async σ Q A α) :
    Ensures W (.ask q k) s Φ ↔ ∀ s₁ a s₂, W.others s s₁ → W.replies s₁ q a →
      W.others (W.effect s₁ q a) s₂ → Ensures W (k a) s₂ fun l => Φ (⟨q, a⟩ :: l) := by
  constructor
  · intro h s₁ a s₂ hasked hreplies hresumed l r s' hrun
    exact h _ r s' (.ask hasked hreplies hresumed hrun)
  · intro h l r s' hrun
    obtain ⟨s₁, a, s₂, l', rfl, hasked, hreplies, hresumed, hk⟩ := runs_ask.mp hrun
    exact h s₁ a s₂ hasked hreplies hresumed l' r s' hk

theorem ensures_handle (p : Async σ Q A α) (f : Except String α → Async σ Q A β) :
    Ensures W (p.handle f) s Ψ ↔
      Ensures W p s fun l r s₁ => Ensures W (f r) s₁ fun l' => Ψ (l ++ l') := by
  constructor
  · exact fun h l r s₁ hp l' r' s' hf => h _ r' s' (hp.handle hf)
  · intro h l r' s' hrun
    obtain ⟨l₁, r, s₁, l₂, rfl, hp, hf⟩ := runs_handle.mp hrun
    exact h l₁ r s₁ hp l₂ r' s' hf

/-- Sequencing: what the first program ensures, also when it fails. -/
theorem Ensures.next {p : Async σ Q A α} {f : α → Async σ Q A β} (hp : Ensures W p s Φ)
    (hf : ∀ l a s₁, Φ l (.ok a) s₁ → Ensures W (f a) s₁ fun l' => Ψ (l ++ l'))
    (herror : ∀ l e s₁, Φ l (.error e) s₁ → Ψ l (.error e) s₁) :
    Ensures W (p.handle (Async.next f)) s Ψ := by
  rw [ensures_handle]
  refine hp.mono fun l r s₁ h => ?_
  cases r with
  | ok a => exact hf l a s₁ h
  | error e =>
      rw [Async.next_error, ensures_done, List.append_nil]
      exact herror l e s₁ h

theorem ensures_modify {f : σ → σ} {k : Unit → Async σ Q A β} :
    Ensures W ((Async.modify f).handle (Async.next k)) s Ψ ↔ Ensures W (k ()) (f s) Ψ :=
  ensures_update f (k ())

theorem ensures_get {k : σ → Async σ Q A β} :
    Ensures W (Async.get.handle (Async.next k)) s Ψ ↔ Ensures W (k s) s Ψ :=
  ensures_read k

theorem ensures_assert {p : Prop} [Decidable p] {e : String} {k : Unit → Async σ Q A β} :
    Ensures W ((Async.assert p e).handle (Async.next k)) s Ψ ↔
      (p → Ensures W (k ()) s Ψ) ∧ (¬ p → Ψ [] (.error e) s) := by
  unfold Async.assert
  split
  next hp => simp [hp]
  next hp => simp [hp]

theorem ensures_ite {p : Prop} [Decidable p] {t t' : Async σ Q A α} :
    Ensures W (if p then t else t') s Φ ↔
      (p → Ensures W t s Φ) ∧ (¬ p → Ensures W t' s Φ) := by
  split
  next hp => simp [hp]
  next hp => simp [hp]

theorem ensures_await {q : Q} {k : A q → Async σ Q A β} :
    Ensures W ((Async.await q).handle (Async.next k)) s Ψ ↔ ∀ s₁ a s₂, W.others s s₁ →
      W.replies s₁ q a → W.others (W.effect s₁ q a) s₂ →
        Ensures W (Async.next k a) s₂ fun l => Ψ (⟨q, a⟩ :: l) :=
  ensures_ask q _

end Ensures

/-- The questions of a confined program. -/
theorem ensures_asks {asks : Q → Prop} {writes : (σ → σ) → Prop} {p : Async σ Q A α}
    (hp : p.Confined asks writes) : Ensures W p s fun l _ _ => ∀ x ∈ l, asks x.1 := by
  intro l r s' hrun
  induction hrun with
  | done r s => exact List.forall_mem_nil _
  | @read _ s _ _ _ _ ih => exact ih (hp s)
  | update _ ih => exact ih hp.2
  | ask _ _ _ _ ih => exact List.forall_mem_cons.mpr ⟨hp.1, ih (hp.2 _)⟩

/-! ## What a thread does on its way -/

/-- Every exchange of the program satisfies `P`, and it ends with `Φ`. -/
def Does (W : Surroundings σ Q A) (p : Async σ Q A α) (s : σ) (P : Exchange Q A → Prop)
    (Φ : Except String α → σ → Prop) : Prop :=
  Ensures W p s fun l r s' => (∀ x ∈ l, P x) ∧ Φ r s'

section Does

variable {P : Exchange Q A → Prop} {Φ Φ' : Except String α → σ → Prop}
  {Ψ : Except String β → σ → Prop}

theorem Does.mono {p : Async σ Q A α} (h : Does W p s P Φ) (hΦ : ∀ r s', Φ r s' → Φ' r s') :
    Does W p s P Φ' :=
  Ensures.mono h fun _ r s' hl => ⟨hl.1, hΦ r s' hl.2⟩

theorem Does.and {p : Async σ Q A α} (h : Does W p s P Φ) (h' : Does W p s P Φ') :
    Does W p s P fun r s' => Φ r s' ∧ Φ' r s' :=
  fun l r s' hrun => ⟨(h l r s' hrun).1, (h l r s' hrun).2, (h' l r s' hrun).2⟩

theorem does_done {r : Except String α} : Does W (.done r) s P Φ ↔ Φ r s := by
  refine (ensures_done r).trans ⟨fun h => h.2, fun h => ⟨List.forall_mem_nil _, h⟩⟩

theorem does_update {f : σ → σ} {k : Async σ Q A α} :
    Does W (.update f k) s P Φ ↔ Does W k (f s) P Φ :=
  ensures_update f k

theorem does_handle {p : Async σ Q A α} {f : Except String α → Async σ Q A β}
    (h : Does W p s P fun r s₁ => Does W (f r) s₁ P Ψ) : Does W (p.handle f) s P Ψ := by
  refine (ensures_handle p f).mpr (Ensures.mono h fun l r s₁ hl => ?_)
  refine Ensures.mono hl.2 fun l' r' s' hl' => ⟨?_, hl'.2⟩
  exact List.forall_mem_append.mpr ⟨hl.1, hl'.1⟩

theorem Does.next {p : Async σ Q A α} {f : α → Async σ Q A β} (hp : Does W p s P Φ)
    (hf : ∀ a s₁, Φ (.ok a) s₁ → Does W (f a) s₁ P Ψ)
    (herror : ∀ e s₁, Φ (.error e) s₁ → Ψ (.error e) s₁) :
    Does W (p.handle (Async.next f)) s P Ψ := by
  refine does_handle (hp.mono fun r s₁ h => ?_)
  cases r with
  | ok a => exact hf a s₁ h
  | error e => exact does_done.mpr (herror e s₁ h)

theorem does_modify {f : σ → σ} {k : Unit → Async σ Q A β} :
    Does W ((Async.modify f).handle (Async.next k)) s P Ψ ↔ Does W (k ()) (f s) P Ψ :=
  ensures_modify

theorem does_get {k : σ → Async σ Q A β} :
    Does W (Async.get.handle (Async.next k)) s P Ψ ↔ Does W (k s) s P Ψ :=
  ensures_get

theorem does_ite {p : Prop} [Decidable p] {t t' : Async σ Q A α} (ht : p → Does W t s P Φ)
    (ht' : ¬ p → Does W t' s P Φ) : Does W (if p then t else t') s P Φ :=
  ensures_ite.mpr ⟨ht, ht'⟩

theorem does_assert {p : Prop} [Decidable p] {e : String} {k : Unit → Async σ Q A β}
    (hk : p → Does W (k ()) s P Ψ) (herror : ¬ p → Ψ (.error e) s) :
    Does W ((Async.assert p e).handle (Async.next k)) s P Ψ :=
  ensures_assert.mpr ⟨hk, fun hp => ⟨List.forall_mem_nil _, herror hp⟩⟩

theorem does_ask {q : Q} {k : Except String (A q) → Async σ Q A α}
    (h : ∀ s₁ a s₂, W.others s s₁ → W.replies s₁ q a → W.others (W.effect s₁ q a) s₂ →
      P ⟨q, a⟩ ∧ Does W (k a) s₂ P Φ) : Does W (.ask q k) s P Φ := by
  refine (ensures_ask q k).mpr fun s₁ a s₂ hasked hreplies hresumed => ?_
  obtain ⟨hP, hk⟩ := h s₁ a s₂ hasked hreplies hresumed
  exact Ensures.mono hk fun l r s' hl => ⟨List.forall_mem_cons.mpr ⟨hP, hl.1⟩, hl.2⟩

theorem does_await {q : Q} {Φ : Except String (A q) → σ → Prop}
    (h : ∀ s₁ a s₂, W.others s s₁ → W.replies s₁ q a → W.others (W.effect s₁ q a) s₂ →
      P ⟨q, a⟩ ∧ Φ a s₂) : Does W (Async.await q) s P Φ :=
  does_ask fun s₁ a s₂ hasked hreplies hresumed =>
    have hend := h s₁ a s₂ hasked hreplies hresumed
    ⟨hend.1, does_done.mpr hend.2⟩

/-- Waiting for another program, if what it ends with outlasts the others. -/
theorem Does.call {p : Async σ Q A α} {q : Except String α → Q} (hp : Does W p s P Φ)
    (h : ∀ r s₁ s₂ a s₃, Φ r s₁ → W.others s₁ s₂ → W.replies s₂ (q r) a →
      W.others (W.effect s₂ (q r) a) s₃ → P ⟨q r, a⟩ ∧ Φ r s₃) :
    Does W (p.call q) s P Φ :=
  does_handle <| hp.mono fun r s₁ hr => does_ask fun s₂ a s₃ hasked hreplies hresumed =>
    have hend := h r s₁ s₂ a s₃ hr hasked hreplies hresumed
    ⟨hend.1, does_done.mpr hend.2⟩

/-- A loop whose turns all keep an assertion about what remains to be done. -/
theorem Does.each {τ : Type} {f : τ → Async σ Q A Unit} {Φ : Except String Unit → σ → Prop}
    (I : List τ → σ → Prop)
    (hturn : ∀ a rest s, I (a :: rest) s → Does W (f a) s P fun r s' =>
      match r with
      | .ok _ => I rest s'
      | .error e => Φ (.error e) s')
    (hend : ∀ s, I [] s → Φ (.ok ()) s) (l : List τ) (h : I l s) :
    Does W (Async.each f l) s P Φ := by
  induction l generalizing s with
  | nil => exact does_done.mpr (hend s h)
  | cons a rest ih => exact (hturn a rest s h).next (fun _ _ hI => ih hI) fun _ _ herror => herror

/-- A confined program whose writes, answers and others keep an assertion. -/
theorem does_confined {asks : Q → Prop} {I : σ → Prop} {p : Async σ Q A α}
    (hp : p.Confined asks fun f => ∀ s, I s → I (f s))
    (hask : ∀ s q a, asks q → W.replies s q a → I s → P ⟨q, a⟩ ∧ I (W.effect s q a))
    (hothers : ∀ s s', W.others s s' → I s → I s') (h : I s) : Does W p s P fun _ s' => I s' := by
  induction p generalizing s with
  | done r => exact does_done.mpr h
  | read k ih => exact (ensures_read k).mpr (ih s (hp s) h)
  | update f k ih => exact does_update.mpr (ih hp.2 (hp.1 s h))
  | ask q k ih =>
      refine does_ask fun s₁ a s₂ hasked hreplies hresumed => ?_
      obtain ⟨hP, hI⟩ := hask s₁ q a hp.1 hreplies (hothers s s₁ hasked h)
      exact ⟨hP, ih a (hp.2 a) (hothers _ s₂ hresumed hI)⟩

end Does

/-! ## Computing a run -/

section Follow

variable (W) [∀ s q a, Decidable (W.replies s q a)]

/-- The run in which nobody else does anything and the answers are those of `answer`, if they
may be given. -/
def follow (answer : σ → (q : Q) → Except String (A q)) :
    Async σ Q A α → σ → Option (List (Exchange Q A) × Except String α × σ)
  | .done r, s => some ([], r, s)
  | .read k, s => follow answer (k s) s
  | .update f k, s => follow answer k (f s)
  | .ask q k, s =>
      if W.replies s q (answer s q) then
        (follow answer (k (answer s q)) (W.effect s q (answer s q))).map fun x =>
          (⟨q, answer s q⟩ :: x.1, x.2)
      else none

variable {W}

theorem Runs.of_follow (hothers : ∀ s, W.others s s) {answer : σ → (q : Q) → Except String (A q)}
    {p : Async σ Q A α} {x : List (Exchange Q A) × Except String α × σ}
    (h : follow W answer p s = some x) : Runs W p s x.1 x.2.1 x.2.2 := by
  induction p generalizing s x with
  | done r =>
      obtain rfl := Option.some.inj h
      exact .done r s
  | read k ih => exact .read (ih s h)
  | update f k ih => exact .update (ih h)
  | ask q k ih =>
      obtain ⟨hreplies, hmap⟩ := Option.ite_none_right_eq_some.mp h
      obtain ⟨y, hy, rfl⟩ := Option.map_eq_some_iff.mp hmap
      exact .ask (hothers s) hreplies (hothers _) (ih _ hy)

theorem Runs.of_isSome (hothers : ∀ s, W.others s s)
    {answer : σ → (q : Q) → Except String (A q)} {p : Async σ Q A α}
    (h : (follow W answer p s).isSome = true) :
    Runs W p s ((follow W answer p s).get h).1 ((follow W answer p s).get h).2.1
      ((follow W answer p s).get h).2.2 :=
  .of_follow hothers (Option.some_get h).symm

end Follow

end EventLoop
