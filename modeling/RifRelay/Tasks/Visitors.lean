import RifRelay.Tasks.Rules

set_option autoImplicit false

/-! # Visitors of an event loop

A system with the calls `κ` is opened to visits `β`. A visit may amount to a call of the system
(`Visitors.amounts`), and then it is that call; every other visit runs a program of its own over
the memory of the system.

`run_without` is the noninterference of quiet visits: if the visits of a run that amount to no
call only read, then the system has a run without them that reaches the same memory, the same log
(`Visitors.without`) and the same threads, apart from those of the visits. So whatever the
visitors ask for, and whenever they do, the system could have come there by itself.
-/

namespace EventLoop

variable {κ β σ Q : Type} {A : Q → Type} {τ γ ω α : Type}

/-! ## Renaming results -/

namespace Async

/-- Apply a function to the result of a program. -/
def map {δ : Type} (f : α → δ) (p : Async σ Q A α) : Async σ Q A δ :=
  p.handle fun r => .done (r.map f)

end Async

namespace Status

def map (f : τ → α) : Status σ Q A τ → Status σ Q A α
  | .ready p => .ready (p.map f)
  | .waiting q k => .waiting q fun answer => (k answer).map f
  | .ended r => .ended (r.map f)
  | .stopped => .stopped

end Status

theorem advance_map (f : τ → α) (p : Async σ Q A τ) (s : σ) :
    (p.map f).advance s = ((p.advance s).1, (p.advance s).2.map f) := by
  induction p generalizing s with
  | done r => rfl
  | read k ih => exact ih s s
  | update g k ih => exact ih (g s)
  | ask q k _ => rfl

/-! ## Programs that only read -/

/-- A program that asks only questions in `reads` and writes nothing. -/
def Async.Quiet (reads : Q → Prop) (p : Async σ Q A α) : Prop := p.Confined reads fun _ => False

/-- A thread that will only ask questions in `reads`. -/
def Status.Quiet (reads : Q → Prop) : Status σ Q A α → Prop
  | .ready p => p.Quiet reads
  | .waiting q k => reads q ∧ ∀ answer, (k answer).Quiet reads
  | .ended _ => True
  | .stopped => True

/-- A quiet program leaves the memory as it is up to its next question, and after it. -/
theorem Async.Quiet.advance {reads : Q → Prop} {p : Async σ Q A α} (h : p.Quiet reads) (s : σ) :
    (p.advance s).1 = s ∧ (p.advance s).2.Quiet reads := by
  induction p with
  | done r => exact ⟨rfl, trivial⟩
  | read k ih => exact ih s (h s)
  | update g k _ => exact h.1.elim
  | ask q k _ => exact ⟨rfl, h⟩

/-! ## Visits -/

/-- What visits are: which of them amount to a call of the system, which of them may come, and
what the others run. -/
structure Visitors (κ β σ Q : Type) (A : Q → Type) (γ : Type) where
  amounts : β → Option κ
  admits : β → Prop
  body : ℕ → β → Async σ Q A γ

/-- The threads that have been left out of a log so far, and the entries that are left. -/
structure Seen (κ Q : Type) (A : Q → Type) (τ : Type) where
  hidden : List ℕ
  log : List (Event κ Q A τ)

namespace Visitors

variable (V : Visitors κ β σ Q A γ)

/-- The call of the system that a call is. -/
def own : κ ⊕ β → Option κ
  | .inl c => some c
  | .inr b => V.amounts b

/-- The entry of thread `i` is left out if its call has been. -/
def entry (v : Seen κ Q A τ) (i : ℕ) (e : Event κ Q A τ) : Seen κ Q A τ :=
  if i ∈ v.hidden then v else { v with log := v.log ++ [e] }

/-- One more entry. -/
def see (v : Seen κ Q A τ) : Event (κ ⊕ β) Q A (τ ⊕ γ) → Seen κ Q A τ
  | .called i c =>
      match V.own c with
      | some c => { v with log := v.log ++ [.called i c] }
      | none => { v with hidden := i :: v.hidden }
  | .asked i q => entry v i (.asked i q)
  | .answered i q answer => entry v i (.answered i q answer)
  | .ended i (.ok (.inl r)) => entry v i (.ended i (.ok r))
  | .ended _ (.ok (.inr _)) => v
  | .ended i (.error e) => entry v i (.ended i (.error e))
  | .restarted => { v with log := v.log ++ [.restarted] }

def seen (log : List (Event (κ ⊕ β) Q A (τ ⊕ γ))) : Seen κ Q A τ := log.foldl V.see ⟨[], []⟩

theorem seen_snoc (log : List (Event (κ ⊕ β) Q A (τ ⊕ γ))) (e : Event (κ ⊕ β) Q A (τ ⊕ γ)) :
    V.seen (log ++ [e]) = V.see (V.seen log) e := List.foldl_concat ..

/-- The memory, and the log without the visits that amount to no call. -/
def without (x : Shared (κ ⊕ β) σ Q A (τ ⊕ γ)) : Shared κ σ Q A τ := ⟨x.memory, (V.seen x.log).log⟩

/-- The visits in a log. -/
def visits (log : List (Event (κ ⊕ β) Q A (τ ⊕ γ))) : List β :=
  log.filterMap fun e =>
    match e with
    | .called _ (.inr b) => some b
    | _ => none

end Visitors

variable (T : System κ σ Q A τ ω) (V : Visitors κ β σ Q A γ)

/-- The system, opened to visitors. What its own calls and the outside may do depends on the
visits only through the memory. -/
def System.opened : System (κ ⊕ β) σ Q A (τ ⊕ γ) ω where
  calls x c :=
    match c with
    | .inl c => T.calls (V.without x) c
    | .inr b => V.admits b ∧ ∀ c ∈ V.amounts b, T.calls (V.without x) c
  body i c :=
    match c with
    | .inl c => (T.body i c).map .inl
    | .inr b =>
        match V.amounts b with
        | some c => (T.body i c).map .inl
        | none => (V.body i b).map .inr
  replies x := T.replies (V.without x)
  effect := T.effect
  moves x := T.moves (V.without x)
  restart x := T.restart (V.without x)

instance [∀ x c, Decidable (T.calls x c)] [∀ b, Decidable (V.admits b)]
    (x : Shared (κ ⊕ β) σ Q A (τ ⊕ γ)) (c : κ ⊕ β) : Decidable ((T.opened V).calls x c) :=
  match c with
  | .inl c => inferInstanceAs (Decidable (T.calls (V.without x) c))
  | .inr b => inferInstanceAs (Decidable (V.admits b ∧ ∀ c ∈ V.amounts b, T.calls (V.without x) c))

instance [∀ x q answer, Decidable (T.replies x q answer)] (x : Shared (κ ⊕ β) σ Q A (τ ⊕ γ))
    (q : Q) (answer : Except String (A q)) : Decidable ((T.opened V).replies x q answer) :=
  inferInstanceAs (Decidable (T.replies (V.without x) q answer))

section Opened

variable {T V} {c : κ ⊕ β} {c' : κ}

/-- A call or visit that is a call of the system runs the program of that call. -/
theorem opened_body (hown : V.own c = some c') (i : ℕ) :
    (T.opened V).body i c = (T.body i c').map .inl := by
  cases c with
  | inl c =>
      obtain rfl := Option.some.inj hown
      rfl
  | inr b =>
      have hamounts : V.amounts b = some c' := hown
      show (match V.amounts b with | some c => _ | none => _) = _
      rw [hamounts]

theorem opened_calls (hown : V.own c = some c') {x : Shared (κ ⊕ β) σ Q A (τ ⊕ γ)}
    (hcalls : (T.opened V).calls x c) : T.calls (V.without x) c' := by
  cases c with
  | inl c =>
      obtain rfl := Option.some.inj hown
      exact hcalls
  | inr b => exact hcalls.2 c' hown

end Opened

/-! ## Runs without the visits -/

section Without

variable (reads : Q → Prop)

/-- What thread `i` is without the visits: the same if it was started by a call, and nothing if it
was started by a visit, which must be quiet then. -/
inductive ThreadWithout :
    Option ((κ ⊕ β) × Status σ Q A (τ ⊕ γ)) → Option (κ × Status σ Q A τ) → Prop
  | free : ThreadWithout none none
  | own (c : κ ⊕ β) (c' : κ) (t : Status σ Q A τ) (hown : V.own c = some c') :
      ThreadWithout (some (c, t.map .inl)) (some (c', t))
  | visit (c : κ ⊕ β) (t : Status σ Q A (τ ⊕ γ)) (hown : V.own c = none) (hquiet : t.Quiet reads) :
      ThreadWithout (some (c, t)) none

/-- `p'` is `p` without the visits. -/
structure Without (p : Pool (κ ⊕ β) σ Q A (τ ⊕ γ)) (p' : Pool κ σ Q A τ) : Prop where
  shared : p'.shared = V.without p.shared
  thread : ∀ i, ThreadWithout V reads (p.threads i) (p'.threads i)
  hidden : ∀ i, i ∈ (V.seen p.shared.log).hidden ↔ ∃ t ∈ p.threads i, V.own t.1 = none

variable {T V reads} {p q : Pool (κ ⊕ β) σ Q A (τ ⊕ γ)} {p' : Pool κ σ Q A τ} {i : ℕ}

section Inversion

variable {c : κ ⊕ β} {c' : κ} {t : Status σ Q A (τ ⊕ γ)} {t' : Option (κ × Status σ Q A τ)}

theorem ThreadWithout.of_none (h : ThreadWithout V reads none t') : t' = none := by
  cases h
  rfl

theorem ThreadWithout.of_own (h : ThreadWithout V reads (some (c, t)) t')
    (hown : V.own c = some c') : ∃ s, t = s.map .inl ∧ t' = some (c', s) := by
  cases h with
  | own _ c₁ s hown₁ =>
      obtain rfl : c₁ = c' := Option.some.inj (hown₁.symm.trans hown)
      exact ⟨s, rfl, rfl⟩
  | visit _ _ hnone _ => cases hnone.symm.trans hown

theorem ThreadWithout.of_visit (h : ThreadWithout V reads (some (c, t)) t')
    (hown : V.own c = none) : t.Quiet reads ∧ t' = none := by
  cases h with
  | own _ _ _ hsome => cases hsome.symm.trans hown
  | visit _ _ _ hquiet => exact ⟨hquiet, rfl⟩

end Inversion

theorem Without.start (s₀ : σ) :
    Without V reads (Pool.start s₀ : Pool (κ ⊕ β) σ Q A (τ ⊕ γ)) (.start s₀ : Pool κ σ Q A τ) where
  shared := rfl
  thread _ := .free
  hidden _ := ⟨fun h => (List.not_mem_nil h).elim, fun ⟨_, h, _⟩ => (Option.not_mem_none _ h).elim⟩

/-- A thread of the system goes on to `t`, and what is seen goes on to `x'`. -/
theorem Without.set_own (h : Without V reads p p') {c : κ ⊕ β} {c' : κ} (hown : V.own c = some c')
    {x : Shared (κ ⊕ β) σ Q A (τ ⊕ γ)} {x' : Shared κ σ Q A τ} (hx : x' = V.without x)
    (hhidden : (V.seen x.log).hidden = (V.seen p.shared.log).hidden)
    (hi : i ∉ (V.seen p.shared.log).hidden) (t : Status σ Q A τ) :
    Without V reads (p.setThread i c x (t.map .inl)) (p'.setThread i c' x' t) where
  shared := hx
  thread j := by
    by_cases hj : j = i
    · subst hj
      simpa [Pool.setThread] using ThreadWithout.own c c' t hown
    · simpa [Pool.setThread, hj] using h.thread j
  hidden j := by
    by_cases hj : j = i
    · subst hj
      simp [Pool.setThread, hhidden, hi, hown]
    · simpa [Pool.setThread, hj, hhidden] using h.hidden j

/-- The thread of a visit goes on to `t`, and nothing of that is seen. -/
theorem Without.set_visit (h : Without V reads p p') {c : κ ⊕ β} (hown : V.own c = none)
    {x : Shared (κ ⊕ β) σ Q A (τ ⊕ γ)} (hx : p'.shared = V.without x)
    (hhidden : ∀ j, j ∈ (V.seen x.log).hidden ↔ j = i ∨ j ∈ (V.seen p.shared.log).hidden)
    (hi : p'.threads i = none) {t : Status σ Q A (τ ⊕ γ)} (ht : t.Quiet reads) :
    Without V reads (p.setThread i c x t) p' where
  shared := hx
  thread j := by
    by_cases hj : j = i
    · subst hj
      simpa [Pool.setThread, hi] using ThreadWithout.visit c t hown ht
    · simpa [Pool.setThread, hj] using h.thread j
  hidden j := by
    by_cases hj : j = i
    · subst hj
      simp [Pool.setThread, hhidden, hown]
    · simpa [Pool.setThread, hj, hhidden] using h.hidden j

/-- The entry that a thread of the system leaves is seen. -/
theorem seen_leaves {log : List (Event (κ ⊕ β) Q A (τ ⊕ γ))} (hi : i ∉ (V.seen log).hidden)
    (t : Status σ Q A τ) :
    V.seen (log ++ (Pool.leaves i (t.map (.inl : τ → τ ⊕ γ))).toList) =
      ⟨(V.seen log).hidden, (V.seen log).log ++ (Pool.leaves i t).toList⟩ := by
  cases t with
  | ready p => simp [Status.map, Pool.leaves]
  | waiting q k => simp [Status.map, Pool.leaves, V.seen_snoc, Visitors.see, Visitors.entry, hi]
  | ended r =>
      cases r <;>
        simp [Status.map, Pool.leaves, V.seen_snoc, Visitors.see, Visitors.entry, hi, Except.map]
  | stopped => simp [Status.map, Pool.leaves]

/-- The entry that the thread of a visit leaves is not seen. -/
theorem seen_leaves_visit {log : List (Event (κ ⊕ β) Q A (τ ⊕ γ))} (hi : i ∈ (V.seen log).hidden)
    (t : Status σ Q A (τ ⊕ γ)) : V.seen (log ++ (Pool.leaves i t).toList) = V.seen log := by
  cases t with
  | ready p => simp [Pool.leaves]
  | waiting q k => simp [Pool.leaves, V.seen_snoc, Visitors.see, Visitors.entry, hi]
  | ended r =>
      rcases r with e | r | r <;>
        simp [Pool.leaves, V.seen_snoc, Visitors.see, Visitors.entry, hi]
  | stopped => simp [Pool.leaves]

theorem Async.Quiet.map {δ : Type} {p : Async σ Q A α} (h : p.Quiet reads) (f : α → δ) :
    (p.map f).Quiet reads := Async.Confined.handle h fun _ => trivial

/-- What becomes of `p'` when `p` makes a step to `q`: the same step, or nothing. -/
def Follows (T : System κ σ Q A τ ω) (V : Visitors κ β σ Q A γ) (reads : Q → Prop)
    (p' : Pool κ σ Q A τ) (q : Pool (κ ⊕ β) σ Q A (τ ⊕ γ)) : Prop :=
  Without V reads q p' ∨ ∃ q', Step T p' q' ∧ Without V reads q q'

theorem Without.call (h : Without V reads p p') {c : κ ⊕ β} (hfree : p.threads i = none)
    (hcalls : (T.opened V).calls p.shared c)
    (hquiet : ∀ b, c = .inr b → V.amounts b = none → (V.body i b).Quiet reads) :
    Follows T V reads p' (p.call (T.opened V) i c) := by
  have hi : i ∉ (V.seen p.shared.log).hidden := by
    rw [h.hidden i, hfree]
    exact fun ⟨_, ht, _⟩ => Option.not_mem_none _ ht
  have hfree' : p'.threads i = none := (hfree ▸ h.thread i).of_none
  cases hown : V.own c with
  | some c' =>
      right
      refine ⟨p'.call T i c', .call i c' hfree' ?_, ?_⟩
      · rw [h.shared]
        exact opened_calls hown hcalls
      · unfold Pool.call
        rw [opened_body hown]
        refine h.set_own hown ?_ ?_ hi (.ready (T.body i c'))
        · rw [h.shared]
          simp [Visitors.without, Shared.snoc, V.seen_snoc, Visitors.see, hown]
        · simp [V.seen_snoc, Visitors.see, hown]
  | none =>
      left
      cases c with
      | inl c => cases hown
      | inr b =>
          have hamounts : V.amounts b = none := hown
          have hbody : (T.opened V).body i (.inr b) = (V.body i b).map .inr := by
            show (match V.amounts b with | some c => _ | none => _) = _
            rw [hamounts]
          unfold Pool.call
          rw [hbody]
          have hbodyQuiet : ((V.body i b).map (.inr : γ → τ ⊕ γ)).Quiet reads :=
            (hquiet b rfl hamounts).map _
          refine h.set_visit hown ?_ (fun j => ?_) hfree' (t := .ready _) hbodyQuiet
          · rw [h.shared]
            simp [Visitors.without, Shared.snoc, V.seen_snoc, Visitors.see, hown]
          · simp [V.seen_snoc, Visitors.see, hown]

/-- A thread is a visit's if what started it is left out. -/
theorem Without.mem_hidden (h : Without V reads p p') {c : κ ⊕ β} {t : Status σ Q A (τ ⊕ γ)}
    (hthread : p.threads i = some (c, t)) :
    i ∈ (V.seen p.shared.log).hidden ↔ V.own c = none := by
  rw [h.hidden i, hthread]
  simp

theorem Without.reply (h : Without V reads p p')
    (hreads : ∀ s i q answer, reads q → T.effect s i q answer = s) {c : κ ⊕ β} {q : Q}
    {k : Except String (A q) → Async σ Q A (τ ⊕ γ)} {answer : Except String (A q)}
    (hthread : p.threads i = some (c, .waiting q k))
    (hreplies : (T.opened V).replies p.shared q answer) :
    Follows T V reads p' (p.reply (T.opened V) i c q answer k) := by
  have hrel : ThreadWithout V reads (some (c, .waiting q k)) (p'.threads i) :=
    hthread ▸ h.thread i
  cases hown : V.own c with
  | some c' =>
      right
      have hi : i ∉ (V.seen p.shared.log).hidden := by
        rw [h.mem_hidden hthread, hown]
        exact Option.some_ne_none c'
      obtain ⟨s, hs, hthread'⟩ := hrel.of_own hown
      cases s with
      | waiting q₁ k₁ =>
          cases hs
          refine ⟨p'.reply T i c' q answer k₁, .reply i c' q k₁ answer hthread' ?_, ?_⟩
          · rw [h.shared]
            exact hreplies
          · refine h.set_own hown ?_ ?_ hi (.ready (k₁ answer))
            · rw [h.shared]
              simp [Visitors.without, Shared.snoc, V.seen_snoc, Visitors.see, Visitors.entry, hi,
                System.opened]
            · simp [V.seen_snoc, Visitors.see, Visitors.entry, hi]
      | ready _ => cases hs
      | ended _ => cases hs
      | stopped => cases hs
  | none =>
      left
      have hi : i ∈ (V.seen p.shared.log).hidden := (h.mem_hidden hthread).mpr hown
      obtain ⟨hquiet, hthread'⟩ := hrel.of_visit hown
      have hkept : (T.opened V).effect p.shared.memory i q answer = p.shared.memory :=
        hreads _ i q answer hquiet.1
      refine h.set_visit hown ?_ (fun j => ?_) hthread' (t := .ready _) (hquiet.2 answer)
      · rw [h.shared]
        simp [Visitors.without, Shared.snoc, V.seen_snoc, Visitors.see, Visitors.entry, hi, hkept]
      · simp only [Shared.snoc_log, V.seen_snoc, Visitors.see, Visitors.entry, hi, if_pos]
        exact ⟨.inr, fun hj => hj.elim (fun hj => hj ▸ hi) id⟩

theorem Without.resume (h : Without V reads p p') {c : κ ⊕ β} {t : Async σ Q A (τ ⊕ γ)}
    (hthread : p.threads i = some (c, .ready t)) : Follows T V reads p' (p.resume i c t) := by
  have hrel : ThreadWithout V reads (some (c, .ready t)) (p'.threads i) := hthread ▸ h.thread i
  cases hown : V.own c with
  | some c' =>
      right
      have hi : i ∉ (V.seen p.shared.log).hidden := by
        rw [h.mem_hidden hthread, hown]
        exact Option.some_ne_none c'
      obtain ⟨s, hs, hthread'⟩ := hrel.of_own hown
      cases s with
      | ready t₁ =>
          cases hs
          refine ⟨p'.resume i c' t₁, .resume i c' t₁ hthread', ?_⟩
          simp only [Pool.resume, advance_map, h.shared]
          refine h.set_own hown ?_ ?_ hi _
          · simp [Visitors.without, seen_leaves hi]
          · simp [seen_leaves hi]
      | waiting _ _ => cases hs
      | ended _ => cases hs
      | stopped => cases hs
  | none =>
      left
      have hi : i ∈ (V.seen p.shared.log).hidden := (h.mem_hidden hthread).mpr hown
      obtain ⟨hquiet, hthread'⟩ := hrel.of_visit hown
      obtain ⟨hkept, hafter⟩ := Async.Quiet.advance hquiet p.shared.memory
      refine h.set_visit hown ?_ (fun j => ?_) hthread' hafter
      · rw [h.shared]
        simp [Visitors.without, hkept, seen_leaves_visit hi]
      · rw [seen_leaves_visit hi]
        exact ⟨.inr, fun hj => hj.elim (fun hj => hj ▸ hi) id⟩

theorem Without.outside (h : Without V reads p p') {w : ω} {s : σ}
    (hmoves : (T.opened V).moves p.shared w = some s) : Follows T V reads p' (p.outside s) := by
  right
  refine ⟨p'.outside s, .outside w s ?_, ?_⟩
  · rw [h.shared]
    exact hmoves
  · refine ⟨?_, h.thread, h.hidden⟩
    simp [Pool.outside, h.shared, Visitors.without, Shared.put]

theorem Without.restart (h : Without V reads p p') {s : σ}
    (hrestart : (T.opened V).restart p.shared = some s) :
    Follows T V reads p' (p.restart s) := by
  right
  refine ⟨p'.restart s, .restart s ?_, ?_, fun i => ?_, fun i => ?_⟩
  · rw [h.shared]
    exact hrestart
  · simp [Pool.restart, h.shared, Visitors.without, Shared.snoc, V.seen_snoc, Visitors.see]
  · have hrel := h.thread i
    simp only [Pool.restart]
    cases hthread : p.threads i with
    | none =>
        rw [hthread] at hrel
        rw [hrel.of_none]
        exact .free
    | some t =>
        rw [hthread] at hrel
        cases hown : V.own t.1 with
        | some c' =>
            obtain ⟨s', _, hthread'⟩ := hrel.of_own hown
            rw [hthread']
            exact .own t.1 c' .stopped hown
        | none =>
            rw [(hrel.of_visit hown).2]
            exact .visit t.1 .stopped hown trivial
  · simpa [Pool.restart, V.seen_snoc, Visitors.see] using h.hidden i

/-- A step of the opened system is a step of the system, or a visit's, which nobody sees. -/
theorem Without.step (h : Without V reads p p')
    (hreads : ∀ s i q answer, reads q → T.effect s i q answer = s)
    (hquiet : ∀ i b, b ∈ Visitors.visits q.shared.log → V.amounts b = none →
      (V.body i b).Quiet reads)
    (hstep : Step (T.opened V) p q) : Follows T V reads p' q := by
  cases hstep with
  | call i c hfree hcalls =>
      refine h.call hfree hcalls fun b hc => hquiet i b ?_
      simp [Visitors.visits, Pool.call, Pool.setThread, hc]
  | reply i c q k answer hthread hreplies => exact h.reply hreads hthread hreplies
  | resume i c t hthread => exact h.resume hthread
  | outside w s hmoves => exact h.outside hmoves
  | restart s hrestart => exact h.restart hrestart

/-- The log only grows. -/
theorem Step.log_prefix {ι ρ : Type} {S : System ι σ Q A ρ ω} {p q : Pool ι σ Q A ρ}
    (h : Step S p q) : p.shared.log <+: q.shared.log := by
  cases h with
  | call i c _ _ => exact List.prefix_append _ _
  | reply i c q k answer _ _ => exact List.prefix_append _ _
  | resume i c t _ => exact List.prefix_append _ _
  | outside w s _ => exact List.prefix_refl _
  | restart s _ => exact List.prefix_append _ _

variable (T V reads)

/-- **Quiet visits leave no trace.** If the visits of a run that amount to no call only read, then
the system has a run without them, to the same memory. -/
theorem run_without (hreads : ∀ s i q answer, reads q → T.effect s i q answer = s)
    {s₀ : σ} {p : Pool (κ ⊕ β) σ Q A (τ ⊕ γ)} (hrun : Run (T.opened V) Anyhow s₀ p)
    (hquiet : ∀ i b, b ∈ Visitors.visits p.shared.log → V.amounts b = none →
      (V.body i b).Quiet reads) :
    ∃ p', Run T Anyhow s₀ p' ∧ Without V reads p p' := by
  induction hrun with
  | start => exact ⟨.start s₀, .start, .start s₀⟩
  | @step p q _ hstep _ ih =>
      have hbefore : ∀ b, b ∈ Visitors.visits p.shared.log → b ∈ Visitors.visits q.shared.log :=
        fun b hb => (hstep.log_prefix.sublist.filterMap _).subset hb
      obtain ⟨p', hrun', hwithout⟩ := ih fun i b hb => hquiet i b (hbefore b hb)
      cases hwithout.step hreads hquiet hstep with
      | inl hsame => exact ⟨p', hrun', hsame⟩
      | inr hfollows =>
          obtain ⟨q', hstep', hwithout'⟩ := hfollows
          exact ⟨q', hrun'.step hstep' trivial, hwithout'⟩

end Without

end EventLoop
