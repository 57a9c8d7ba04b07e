import RifRelay.Machine.EventPath
import Mathlib.Data.Fintype.Card
import Mathlib.Data.Finset.Card
import Mathlib.Tactic.Common

set_option autoImplicit false

/-! # A roster of workers

Managers enroll workers and dismiss them. A worker belongs to the first manager that enrolls
it, for ever, and is not enrolled again after it was dismissed. What a roster promises, over
every history of moves:

* `Status.Later` — a worker's status only moves on, from free to enabled to disabled, and its
  manager stays;
* `manager_of_enrolls`, `enrolled_of_manager`, `disabled_of_dismisses` — the status tells what
  has happened to the worker;
* `Step.card_staff` — the staff of a manager grows and shrinks by the lengths of the lists,
  since no list that goes through has a worker twice.
-/

namespace Roster

variable {A M : Type*}

inductive Status (M : Type*)
  | free
  | enabled (manager : M)
  | disabled (manager : M)
deriving DecidableEq

/-- The manager a worker belongs to. -/
def Status.manager : Status M → Option M
  | .free => none
  | .enabled m => some m
  | .disabled m => some m

/-- The second status can come after the first. -/
inductive Status.Later : Status M → Status M → Prop
  | refl (s : Status M) : Later s s
  | enabled (m : M) : Later .free (.enabled m)
  | disabled (m : M) : Later (.enabled m) (.disabled m)
  | both (m : M) : Later .free (.disabled m)

namespace Status.Later

variable {s t u : Status M}

theorem trans (h : Later s t) (h' : Later t u) : Later s u := by
  cases h with
  | refl s => exact h'
  | enabled m =>
      cases h' with
      | refl s => exact .enabled m
      | disabled m => exact .both m
  | disabled m =>
      cases h'
      exact .disabled m
  | both m =>
      cases h'
      exact .both m

theorem manager (h : Later s t) {m : M} (hm : s.manager = some m) : t.manager = some m := by
  cases h with
  | refl s => exact hm
  | enabled m => cases hm
  | disabled m => exact hm
  | both m => cases hm

theorem of_disabled {m : M} (h : Later (.disabled m) t) : t = .disabled m := by
  cases h
  rfl

end Status.Later

/-! ## Moves -/

inductive Move (A M : Type*)
  | idle
  | enroll (manager : M) (workers : List A)
  | dismiss (manager : M) (workers : List A)

def Move.Enrolls (m : M) (w : A) : Move A M → Prop
  | .enroll m' workers => m' = m ∧ w ∈ workers
  | _ => False

def Move.Dismisses (m : M) (w : A) : Move A M → Prop
  | .dismiss m' workers => m' = m ∧ w ∈ workers
  | _ => False

variable [DecidableEq A] [DecidableEq M]

/-- The workers on the list change from the status `s` to `t`, one after the other. -/
def changeAll (s t : Status M) : (A → Status M) → List A → Option (A → Status M)
  | roster, [] => some roster
  | roster, w :: rest =>
      if roster w = s then changeAll s t (Function.update roster w t) rest else none

inductive Step : Move A M → (A → Status M) → (A → Status M) → Prop
  | idle (roster : A → Status M) : Step .idle roster roster
  | enroll (m : M) (workers : List A) {roster roster' : A → Status M}
      (h : changeAll .free (.enabled m) roster workers = some roster') :
      Step (.enroll m workers) roster roster'
  | dismiss (m : M) (workers : List A) {roster roster' : A → Status M}
      (h : changeAll (.enabled m) (.disabled m) roster workers = some roster') :
      Step (.dismiss m workers) roster roster'

/-- What a list of changes does: no worker is on it twice, all have the old status before and
the new one after, and the others keep theirs. -/
theorem changeAll_spec {s t : Status M} (hst : s ≠ t) {roster roster' : A → Status M}
    {workers : List A} (h : changeAll s t roster workers = some roster') :
    workers.Nodup ∧ (∀ w ∈ workers, roster w = s ∧ roster' w = t) ∧
      ∀ w, w ∉ workers → roster' w = roster w := by
  induction workers generalizing roster with
  | nil =>
      obtain rfl : roster = roster' := Option.some.inj h
      simp
  | cons w rest ih =>
      rw [changeAll] at h
      split at h
      · next hs =>
          obtain ⟨hnodup, hin, hout⟩ := ih h
          have hw : w ∉ rest := by
            intro hmem
            have hchanged := (hin w hmem).1
            rw [Function.update_self] at hchanged
            exact hst hchanged.symm
          refine ⟨List.nodup_cons.mpr ⟨hw, hnodup⟩, ?_, ?_⟩
          · rintro v (_ | ⟨_, hv⟩)
            · exact ⟨hs, by rw [hout w hw, Function.update_self]⟩
            · obtain ⟨hbefore, hafter⟩ := hin v hv
              have hne : v ≠ w := by
                rintro rfl
                exact hw hv
              rw [Function.update_of_ne hne] at hbefore
              exact ⟨hbefore, hafter⟩
          · intro v hv
            rw [List.mem_cons, not_or] at hv
            rw [hout v hv.2, Function.update_of_ne hv.1]
      · cases h

namespace Step

variable {move : Move A M} {roster roster' : A → Status M}

theorem later (h : Step move roster roster') (w : A) : (roster w).Later (roster' w) := by
  cases h with
  | idle => exact .refl _
  | enroll m workers h =>
      obtain ⟨-, hin, hout⟩ := changeAll_spec (by simp) h
      by_cases hw : w ∈ workers
      · obtain ⟨hfree, henabled⟩ := hin w hw
        rw [hfree, henabled]
        exact .enabled m
      · rw [hout w hw]
        exact .refl _
  | dismiss m workers h =>
      obtain ⟨-, hin, hout⟩ := changeAll_spec (by simp) h
      by_cases hw : w ∈ workers
      · obtain ⟨henabled, hdisabled⟩ := hin w hw
        rw [henabled, hdisabled]
        exact .disabled m
      · rw [hout w hw]
        exact .refl _

theorem of_enrolls {m : M} {w : A} (h : Step move roster roster') (hm : move.Enrolls m w) :
    roster' w = .enabled m := by
  cases h with
  | idle => exact hm.elim
  | enroll m' workers h =>
      obtain ⟨rfl, hw⟩ := hm
      obtain ⟨-, hin, -⟩ := changeAll_spec (by simp) h
      exact (hin w hw).2
  | dismiss m' workers h => exact hm.elim

theorem of_dismisses {m : M} {w : A} (h : Step move roster roster') (hm : move.Dismisses m w) :
    roster w = .enabled m ∧ roster' w = .disabled m := by
  cases h with
  | idle => exact hm.elim
  | enroll m' workers h => exact hm.elim
  | dismiss m' workers h =>
      obtain ⟨rfl, hw⟩ := hm
      obtain ⟨-, hin, -⟩ := changeAll_spec (by simp) h
      exact hin w hw

/-- A worker gets a manager only by being enrolled. -/
theorem enrolls_of_new {m : M} {w : A} (h : Step move roster roster')
    (hbefore : (roster w).manager ≠ some m) (hafter : (roster' w).manager = some m) :
    move.Enrolls m w := by
  cases h with
  | idle => exact absurd hafter hbefore
  | enroll m' workers h =>
      obtain ⟨-, hin, hout⟩ := changeAll_spec (by simp) h
      by_cases hw : w ∈ workers
      · rw [(hin w hw).2] at hafter
        exact ⟨Option.some.inj hafter, hw⟩
      · rw [hout w hw] at hafter
        exact absurd hafter hbefore
  | dismiss m' workers h =>
      obtain ⟨-, hin, hout⟩ := changeAll_spec (by simp) h
      by_cases hw : w ∈ workers
      · obtain ⟨henabled, hdisabled⟩ := hin w hw
        rw [hdisabled] at hafter
        rw [henabled] at hbefore
        exact absurd hafter hbefore
      · rw [hout w hw] at hafter
        exact absurd hafter hbefore

/-- A worker is disabled only by being dismissed. -/
theorem dismisses_of_new {m : M} {w : A} (h : Step move roster roster')
    (hbefore : roster w ≠ .disabled m) (hafter : roster' w = .disabled m) :
    move.Dismisses m w := by
  cases h with
  | idle => exact absurd hafter hbefore
  | enroll m' workers h =>
      obtain ⟨-, hin, hout⟩ := changeAll_spec (by simp) h
      by_cases hw : w ∈ workers
      · cases (hin w hw).2.symm.trans hafter
      · exact absurd ((hout w hw).symm.trans hafter) hbefore
  | dismiss m' workers h =>
      obtain ⟨-, hin, hout⟩ := changeAll_spec (by simp) h
      by_cases hw : w ∈ workers
      · exact ⟨Status.disabled.inj ((hin w hw).2.symm.trans hafter), hw⟩
      · exact absurd ((hout w hw).symm.trans hafter) hbefore

end Step

/-! ## Histories -/

section Histories

variable {l : List (Move A M)} {roster roster' : A → Status M} {w : A} {m : M}

theorem path_later (h : EventPath Step roster l roster') (w : A) :
    (roster w).Later (roster' w) :=
  h.invariant (P := fun r => (roster w).Later (r w))
    (fun _ _ _ hstep hlater => hlater.trans (hstep.later w)) (.refl _)

/-- Whoever has enrolled a worker is its manager. -/
theorem manager_of_enrolls (h : EventPath Step roster l roster') {move : Move A M}
    (hmove : move ∈ l) (hm : move.Enrolls m w) : (roster' w).manager = some m := by
  obtain ⟨l₁, l₂, rfl⟩ := List.append_of_mem hmove
  obtain ⟨r, -, t, hstep, hrest⟩ := (EventPath.append_iff _ _ _ _).mp h
  have ht : (t w).manager = some m := by
    rw [hstep.of_enrolls hm]
    rfl
  exact (path_later hrest w).manager ht

/-- A worker that was free has been enrolled by its manager. -/
theorem enrolled_of_manager (h : EventPath Step roster l roster') (hfree : roster w = .free)
    (hm : (roster' w).manager = some m) : ∃ move ∈ l, move.Enrolls m w := by
  have hnot : (roster w).manager ≠ some m := by
    rw [hfree]
    intro hnone
    cases hnone
  clear hfree
  induction l generalizing roster with
  | nil =>
      obtain rfl : roster = roster' := h
      exact absurd hm hnot
  | cons move rest ih =>
      obtain ⟨t, hstep, hrest⟩ := h
      by_cases ht : (t w).manager = some m
      · exact ⟨move, by simp, hstep.enrolls_of_new hnot ht⟩
      · obtain ⟨move', hmem, henrolls⟩ := ih hrest ht
        exact ⟨move', by simp [hmem], henrolls⟩

/-- A worker that has been dismissed stays disabled. -/
theorem disabled_of_dismisses (h : EventPath Step roster l roster') {move : Move A M}
    (hmove : move ∈ l) (hm : move.Dismisses m w) : roster' w = .disabled m := by
  obtain ⟨l₁, l₂, rfl⟩ := List.append_of_mem hmove
  obtain ⟨r, -, t, hstep, hrest⟩ := (EventPath.append_iff _ _ _ _).mp h
  have hlater := path_later hrest w
  rw [(hstep.of_dismisses hm).2] at hlater
  exact hlater.of_disabled

/-- A worker that is disabled in the end has been dismissed. -/
theorem dismissed_of_disabled (h : EventPath Step roster l roster') (hfree : roster w = .free)
    (hm : roster' w = .disabled m) : ∃ move ∈ l, move.Dismisses m w := by
  have hnot : roster w ≠ .disabled m := by
    rw [hfree]
    intro heq
    cases heq
  clear hfree
  induction l generalizing roster with
  | nil =>
      obtain rfl : roster = roster' := h
      exact absurd hm hnot
  | cons move rest ih =>
      obtain ⟨t, hstep, hrest⟩ := h
      by_cases ht : t w = .disabled m
      · exact ⟨move, by simp, hstep.dismisses_of_new hnot ht⟩
      · obtain ⟨move', hmem, hdismisses⟩ := ih hrest ht
        exact ⟨move', by simp [hmem], hdismisses⟩

/-- A worker is enabled exactly if it was enrolled and never dismissed. -/
theorem enabled_iff (h : EventPath Step roster l roster') (hfree : roster w = .free) :
    roster' w = .enabled m ↔
      (∃ move ∈ l, move.Enrolls m w) ∧ ¬ ∃ move ∈ l, move.Dismisses m w := by
  constructor
  · intro henabled
    refine ⟨enrolled_of_manager h hfree (by rw [henabled]; rfl), ?_⟩
    rintro ⟨move, hmove, hdismisses⟩
    cases henabled.symm.trans (disabled_of_dismisses h hmove hdismisses)
  · rintro ⟨⟨move, hmove, henrolls⟩, hnot⟩
    have hmanager := manager_of_enrolls h hmove henrolls
    cases hstatus : roster' w with
    | free => rw [hstatus] at hmanager; cases hmanager
    | enabled m' =>
        rw [hstatus] at hmanager
        rw [Option.some.inj hmanager]
    | disabled m' =>
        rw [hstatus] at hmanager
        obtain rfl : m' = m := Option.some.inj hmanager
        exact absurd (dismissed_of_disabled h hfree hstatus) hnot

end Histories

/-! ## Staff -/

/-- A list without repetitions that is not part of a finite set adds its length. -/
theorem card_union_list {s : Finset A} {l : List A} (hnodup : l.Nodup) (hnew : ∀ w ∈ l, w ∉ s) :
    (s ∪ l.toFinset).card = s.card + l.length := by
  have hdisjoint : Disjoint s l.toFinset := by
    rw [Finset.disjoint_right]
    intro w hw
    exact hnew w (List.mem_toFinset.mp hw)
  rw [Finset.card_union_of_disjoint hdisjoint, List.toFinset_card_of_nodup hnodup]

variable [Fintype A]

/-- The workers with a status. -/
def having (roster : A → Status M) (s : Status M) : Finset A :=
  Finset.univ.filter fun w => roster w = s

omit [DecidableEq A] in
theorem mem_having {roster : A → Status M} {s : Status M} {w : A} :
    w ∈ having roster s ↔ roster w = s := by
  simp [having]

/-- A list of changes moves as many workers as it is long, and none between other statuses. -/
theorem card_changeAll {s t : Status M} (hst : s ≠ t) {roster roster' : A → Status M}
    {workers : List A} (h : changeAll s t roster workers = some roster') :
    (having roster' t).card = (having roster t).card + workers.length ∧
      (having roster s).card = (having roster' s).card + workers.length ∧
      ∀ u, u ≠ s → u ≠ t → having roster' u = having roster u := by
  obtain ⟨hnodup, hin, hout⟩ := changeAll_spec hst h
  refine ⟨?_, ?_, ?_⟩
  · have hadded : having roster' t = having roster t ∪ workers.toFinset := by
      ext w
      rw [Finset.mem_union, mem_having, mem_having, List.mem_toFinset]
      by_cases hw : w ∈ workers
      · simp [hw, hin w hw]
      · simp [hw, hout w hw]
    rw [hadded]
    refine card_union_list hnodup fun w hw hmem => hst ?_
    rw [← (hin w hw).1, mem_having.mp hmem]
  · have hremoved : having roster s = having roster' s ∪ workers.toFinset := by
      ext w
      rw [Finset.mem_union, mem_having, mem_having, List.mem_toFinset]
      by_cases hw : w ∈ workers
      · simp [hw, hin w hw]
      · simp [hw, hout w hw]
    rw [hremoved]
    refine card_union_list hnodup fun w hw hmem => hst ?_
    rw [← (hin w hw).2, mem_having.mp hmem]
  · intro u hus hut
    ext w
    rw [mem_having, mem_having]
    by_cases hw : w ∈ workers
    · rw [(hin w hw).1, (hin w hw).2]
      exact ⟨fun hu => absurd hu.symm hut, fun hu => absurd hu.symm hus⟩
    · rw [hout w hw]

/-- The enabled workers of a manager. -/
def staff (roster : A → Status M) (m : M) : Finset A := having roster (.enabled m)

/-- How many workers a move adds to the staff of a manager. -/
def Move.hired (m : M) : Move A M → Nat
  | .enroll m' workers => if m' = m then workers.length else 0
  | _ => 0

/-- How many it takes away. -/
def Move.fired (m : M) : Move A M → Nat
  | .dismiss m' workers => if m' = m then workers.length else 0
  | _ => 0

/-- The staff of a manager grows by those it enrolls and shrinks by those it dismisses. -/
theorem Step.card_staff {move : Move A M} {roster roster' : A → Status M}
    (h : Step move roster roster') (m : M) :
    (staff roster' m).card + move.fired m = (staff roster m).card + move.hired m := by
  unfold staff
  cases h with
  | idle => rfl
  | enroll m' workers h =>
      obtain ⟨hadded, -, hother⟩ := card_changeAll (by simp) h
      by_cases hm : m' = m
      · subst hm
        simp only [Move.fired, Move.hired, if_true]
        exact hadded
      · simp only [Move.fired, Move.hired, if_neg hm]
        rw [hother _ (by simp) (by simpa using Ne.symm hm)]
  | dismiss m' workers h =>
      obtain ⟨-, hremoved, hother⟩ := card_changeAll (by simp) h
      by_cases hm : m' = m
      · subst hm
        simp only [Move.fired, Move.hired, if_true]
        exact hremoved.symm
      · simp only [Move.fired, Move.hired, if_neg hm]
        rw [hother _ (by simpa using Ne.symm hm) (by simp)]

end Roster
