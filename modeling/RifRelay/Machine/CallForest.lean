import RifRelay.Machine.Rules

set_option autoImplicit false

/-! # The frames of an execution

The trace of an execution lists the messages that went through, in the order in which they
were entered. It does not say which message was sent by which frame. A `Forest` does: each of
its messages comes with the forest of what went through in its own frame.

`framed P A` is the specification that messages grow the trace by such a forest, in which
every frame has the property `P`, and that `A` relates the forest to what became of the state.
`framed_meets` is the rule to show it: one frame at a time.
-/

namespace CallMachine

/-- Messages that went through one after the other, each with what went through in its
frame. -/
inductive Forest (σ ι : Type) : Type
  | nil
  | cons (e : Entry σ ι) (sub rest : Forest σ ι)

namespace Forest

variable {σ ι : Type}

def append : Forest σ ι → Forest σ ι → Forest σ ι
  | nil, g => g
  | cons e sub rest, g => cons e sub (rest.append g)

/-- One message and its frame. -/
def tree (e : Entry σ ι) (sub : Forest σ ι) : Forest σ ι := cons e sub nil

/-- The messages in the order in which they were entered. -/
def entries : Forest σ ι → List (Entry σ ι)
  | nil => []
  | cons e sub rest => e :: (sub.entries ++ rest.entries)

/-- The messages that were not sent by another of the forest. -/
def roots : Forest σ ι → List (Entry σ ι)
  | nil => []
  | cons e _ rest => e :: rest.roots

/-- Every frame has the property. -/
def Forall (P : Entry σ ι → Forest σ ι → Prop) : Forest σ ι → Prop
  | nil => True
  | cons e sub rest => P e sub ∧ sub.Forall P ∧ rest.Forall P

variable (f g : Forest σ ι) (e : Entry σ ι)

@[simp] theorem nil_append : nil.append g = g := rfl

@[simp] theorem append_nil : f.append nil = f := by
  induction f with
  | nil => rfl
  | cons e sub rest _ ih => exact congrArg (cons e sub) ih

@[simp] theorem entries_nil : (nil : Forest σ ι).entries = [] := rfl

@[simp] theorem entries_tree : (tree e f).entries = e :: f.entries := by
  show e :: (f.entries ++ []) = e :: f.entries
  rw [List.append_nil]

@[simp] theorem entries_append : (f.append g).entries = f.entries ++ g.entries := by
  induction f with
  | nil => rfl
  | cons e sub rest _ ih =>
      show e :: (sub.entries ++ (rest.append g).entries) = e :: (sub.entries ++ rest.entries) ++ _
      rw [ih, List.cons_append, List.append_assoc]

@[simp] theorem roots_nil : (nil : Forest σ ι).roots = [] := rfl

@[simp] theorem roots_tree : (tree e f).roots = [e] := rfl

@[simp] theorem roots_append : (f.append g).roots = f.roots ++ g.roots := by
  induction f with
  | nil => rfl
  | cons e sub rest _ ih => exact congrArg (e :: ·) ih

variable {P : Entry σ ι → Forest σ ι → Prop} {f g e}

@[simp] theorem forall_append : (f.append g).Forall P ↔ f.Forall P ∧ g.Forall P := by
  induction f with
  | nil => exact (true_and _).symm ▸ Iff.rfl
  | cons e sub rest _ ih =>
      show P e sub ∧ sub.Forall P ∧ (rest.append g).Forall P ↔ _
      rw [ih]
      constructor
      · rintro ⟨he, hsub, hrest, hg⟩
        exact ⟨⟨he, hsub, hrest⟩, hg⟩
      · rintro ⟨⟨he, hsub, hrest⟩, hg⟩
        exact ⟨he, hsub, hrest, hg⟩

@[simp] theorem forall_tree : (tree e f).Forall P ↔ P e f ∧ f.Forall P := by
  show P e f ∧ f.Forall P ∧ True ↔ _
  rw [and_true]

end Forest

open Forest

variable {σ ι ε ρ : Type}

/-! ## Growing -/

/-- The forest went through between two configurations, and its frames have the property. -/
structure Grew (P : Entry σ ι → Forest σ ι → Prop) (c : Conf σ ι ε ρ) (f : Forest σ ι)
    (c' : Conf σ ι ε ρ) : Prop where
  trace : c'.trace = c.trace ++ f.entries
  frames : f.Forall P

section Grew

variable {P : Entry σ ι → Forest σ ι → Prop} {c c' c'' : Conf σ ι ε ρ} {f g : Forest σ ι}

theorem Grew.refl : Grew P c nil c := ⟨(List.append_nil _).symm, trivial⟩

theorem Grew.trans (h : Grew P c f c') (h' : Grew P c' g c'') : Grew P c (f.append g) c'' where
  trace := by rw [h'.trace, h.trace, entries_append, List.append_assoc]
  frames := forall_append.mpr ⟨h.frames, h'.frames⟩

theorem Grew.put (h : Grew P c f c') (s : σ) : Grew P c f (c'.put s) := ⟨h.trace, h.frames⟩

theorem Grew.answered (h : Grew P c f c') (m : ι) (r : Except ε ρ) :
    Grew P c f (c'.answered m r) := ⟨h.trace, h.frames⟩

/-- A frame that has ended. -/
theorem Grew.close {m : ι} {s : σ} (h : Grew P (c.entered m s) f c') (hP : P ⟨m, c.state⟩ f) :
    Grew P c (tree ⟨m, c.state⟩ f) c' where
  trace := by rw [h.trace, Conf.entered_trace, entries_tree, List.append_assoc,
    List.singleton_append]
  frames := forall_tree.mpr ⟨hP, h.frames⟩

end Grew

/-! ## Frame by frame -/

/-- A relation between two states and what went through between them that can be taken step
by step. -/
structure Additive (A : σ → σ → Forest σ ι → Prop) : Prop where
  refl : ∀ s, A s s nil
  trans : ∀ {s s' s'' : σ} {f g : Forest σ ι}, A s s' f → A s' s'' g → A s s'' (f.append g)

/-- What goes through is one frame more; `A` relates it to the states before and after. -/
def framed (P : Entry σ ι → Forest σ ι → Prop) (A : σ → σ → Forest σ ι → Prop) :
    Spec σ ι ε ρ where
  pre _ _ := True
  post m r c c' :=
    match r with
    | .ok _ => ∃ sub, Grew P c (tree ⟨m, c.state⟩ sub) c' ∧
        A c.state c'.state (tree ⟨m, c.state⟩ sub)
    | .error _ => c' = c.answered m r

section Framed

variable {P : Entry σ ι → Forest σ ι → Prop} {A : σ → σ → Forest σ ι → Prop}
  {c c' : Conf σ ι ε ρ} {m : ι} {r : Except ε ρ}

/-- What comes back from a message, whether it went through or not. -/
theorem framed_grew (hA : Additive A) (h : (framed P A).post m r c c') :
    ∃ f, Grew P c f c' ∧ A c.state c'.state f ∧ (f.roots = [] ∨ f.roots = [⟨m, c.state⟩]) := by
  cases r with
  | ok a =>
      obtain ⟨sub, hgrew, hstate⟩ := h
      exact ⟨_, hgrew, hstate, Or.inr rfl⟩
  | error e =>
      obtain rfl : c' = c.answered m (.error e) := h
      exact ⟨nil, Grew.refl.answered m _, hA.refl _, Or.inl rfl⟩

/-- **Frame by frame.** If every frame has `P` and keeps to `A` when those of its own messages
do, then all messages do. -/
theorem framed_meets {M : Machine σ ι ε ρ}
    (hframe : ∀ m (c : Conf σ ι ε ρ) s, M.enter m c.state = some s →
      wp (framed P A) (M.code m s) (fun _ c' => ∃ sub, Grew P (c.entered m s) sub c' ∧
        P ⟨m, c.state⟩ sub ∧ A c.state c'.state (tree ⟨m, c.state⟩ sub)) (c.entered m s)) :
    Meets M (framed P A) where
  fail _ _ _ _ := rfl
  code := by
    intro m c s _ henter
    refine wp_mono _ ?_ _ _ (hframe m c s henter)
    rintro r c' ⟨sub, hgrew, hP, hA⟩
    exact ⟨sub, (hgrew.close hP).answered m _, hA⟩

end Framed

end CallMachine
