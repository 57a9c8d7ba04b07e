import Mathlib.Data.Finset.Sort
import Mathlib.Data.Set.Finite.Lattice
import Mathlib.Tactic.Common

set_option autoImplicit false

/-! # Scans with a gap limit

Indices are visited one after the other, until more than `limit` of them in a row were inactive.
What is found are the active indices that can be reached without crossing such a run
(`Scanned.found`), and the scan comes to its end if few of the first indices are active
(`Scanned.inside`).
-/

namespace GapScans

variable (limit : ℕ) (active : ℕ → Bool)

/-- There is no run of more than `limit` inactive indices before `n`. -/
def Reachable (n : ℕ) : Prop := ∀ i, i + limit < n → ∃ j, i ≤ j ∧ j ≤ i + limit ∧ active j = true

/-- The active indices that can be reached, in order. -/
noncomputable def reachable : List ℕ :=
  haveI := Classical.propDecidable {n | active n = true ∧ Reachable limit active n}.Finite
  if h : {n | active n = true ∧ Reachable limit active n}.Finite then
    h.toFinset.sort (· ≤ ·)
  else []

/-- At most `m` indices are active among those that a scan visits if at most `m` are. -/
def Few (m : ℕ) : Prop := ((List.range ((m + 1) * (limit + 1))).filter active).length ≤ m

variable {limit active} {m n gap index : ℕ} {l l' : List ℕ}

/-- A list in order is given by its members. -/
theorem eq_of_sorted_mem (h : l.Pairwise (· < ·)) (h' : l'.Pairwise (· < ·))
    (hmem : ∀ n, n ∈ l ↔ n ∈ l') : l = l' := by
  have hperm := (List.perm_ext_iff_of_nodup (h.imp Nat.ne_of_lt) (h'.imp Nat.ne_of_lt)).mpr hmem
  refine hperm.eq_of_pairwise (fun a b _ _ hab hba => ?_) h h'
  exact (Nat.lt_asymm hab hba).elim

theorem mem_reachable (h : {n | active n = true ∧ Reachable limit active n}.Finite) :
    n ∈ reachable limit active ↔ active n = true ∧ Reachable limit active n := by
  unfold reachable
  rw [dif_pos h, Finset.mem_sort, Set.Finite.mem_toFinset]
  exact Iff.rfl

theorem active_of_mem (h : n ∈ reachable limit active) : active n = true := by
  unfold reachable at h
  split at h
  · next hfinite =>
      rw [Finset.mem_sort, Set.Finite.mem_toFinset] at h
      exact h.1
  · cases h

theorem sorted_reachable : (reachable limit active).Pairwise (· < ·) := by
  unfold reachable
  split
  · exact (Finset.sortedLT_sort _).pairwise
  · exact List.Pairwise.nil

/-- Few indices are active if each has a member of a finite set of its own. -/
theorem few_of_injOn {β : Type} {f : ℕ → β} {S : Finset β}
    (hinj : Set.InjOn f {n | n < (S.card + 1) * (limit + 1) ∧ active n = true})
    (hmem : ∀ n < (S.card + 1) * (limit + 1), active n = true → f n ∈ S) :
    Few limit active S.card := by
  have hcard :
      ((List.range ((S.card + 1) * (limit + 1))).filter active).toFinset.card ≤ S.card := by
    refine Finset.card_le_card_of_injOn f (fun n hn => ?_) fun n hn k hk heq => ?_
    · have hn' := List.mem_filter.mp (List.mem_toFinset.mp hn)
      exact hmem n (List.mem_range.mp hn'.1) hn'.2
    · have hn' := List.mem_filter.mp (List.mem_toFinset.mp hn)
      have hk' := List.mem_filter.mp (List.mem_toFinset.mp hk)
      exact hinj ⟨List.mem_range.mp hn'.1, hn'.2⟩ ⟨List.mem_range.mp hk'.1, hk'.2⟩ heq
  rwa [List.toFinset_card_of_nodup (List.nodup_range.filter _)] at hcard

/-! ## A scan on its way -/

/-- The indices below `index` have been visited, the last `gap` of them were inactive, and all of
them can be reached. -/
structure Scanned (limit : ℕ) (active : ℕ → Bool) (gap index : ℕ) : Prop where
  le : gap ≤ index
  quiet : ∀ j, index ≤ j + gap → j < index → active j = false
  last : gap < index → active (index - gap - 1) = true
  bounded : gap ≤ limit + 1
  reached : ∀ n < index, Reachable limit active n
  within : index ≤ ((List.range index).filter active).length * (limit + 1) + gap

theorem range_succ_filter (n : ℕ) : (List.range (n + 1)).filter active =
    (List.range n).filter active ++ if active n = true then [n] else [] := by
  rw [List.range_succ, List.filter_append]
  cases hn : active n <;> simp [hn]

theorem Scanned.start : Scanned limit active 0 0 where
  le := le_rfl
  quiet j _ h := (Nat.not_lt_zero j h).elim
  last h := (Nat.not_lt_zero 0 h).elim
  bounded := Nat.zero_le _
  reached n h := (Nat.not_lt_zero n h).elim
  within := Nat.zero_le _

/-- As long as the gap does not exceed the limit, the next index can be reached. -/
theorem Scanned.next (h : Scanned limit active gap index) (hgap : gap ≤ limit) :
    Reachable limit active index := by
  intro i hi
  have hle := h.le
  have hactive := h.last (by omega)
  by_cases hlast : index - gap - 1 ≤ i + limit
  · exact ⟨index - gap - 1, by omega, hlast, hactive⟩
  · -- the run would lie before the last active index
    exact h.reached (index - gap - 1) (by omega) i (by omega)

theorem Scanned.step (h : Scanned limit active gap index) (hgap : gap ≤ limit) :
    Scanned limit active (if active index = true then 0 else gap + 1) (index + 1) := by
  have hle := h.le
  have hwithin := h.within
  have hreached : ∀ n < index + 1, Reachable limit active n := by
    intro n hn
    by_cases hlt : n < index
    · exact h.reached n hlt
    · obtain rfl : n = index := by omega
      exact h.next hgap
  by_cases hactive : active index = true
  · rw [if_pos hactive]
    refine ⟨Nat.zero_le _, fun j hj hlt => ?_, fun _ => ?_, Nat.zero_le _, hreached, ?_⟩
    · omega
    · exact hactive
    · rw [range_succ_filter, if_pos hactive, List.length_append, List.length_singleton,
        Nat.add_mul]
      omega
  · rw [if_neg hactive]
    refine ⟨by omega, fun j hj hlt => ?_, fun hlt => ?_, by omega, hreached, ?_⟩
    · by_cases hlast : j < index
      · exact h.quiet j (by omega) hlast
      · obtain rfl : j = index := by omega
        exact eq_false_of_ne_true hactive
    · have hold := h.last (by omega)
      rwa [show index + 1 - (gap + 1) - 1 = index - gap - 1 by omega]
    · rw [range_succ_filter, if_neg hactive, List.append_nil]
      omega

/-- **What a scan finds** when its gap exceeds the limit. -/
theorem Scanned.found (h : Scanned limit active gap index) (hgap : limit < gap) :
    (List.range index).filter active = reachable limit active := by
  have hle := h.le
  have hbounded := h.bounded
  have hbelow : ∀ n, active n = true → Reachable limit active n → n < index := by
    intro n hactive hreach
    by_contra hn
    obtain ⟨j, hij, hj, hrun⟩ := hreach (index - gap) (by omega)
    rw [h.quiet j (by omega) (by omega)] at hrun
    cases hrun
  have hfinite : {n | active n = true ∧ Reachable limit active n}.Finite :=
    (Set.finite_lt_nat index).subset fun n hn => hbelow n hn.1 hn.2
  refine eq_of_sorted_mem (List.pairwise_lt_range.filter _) sorted_reachable fun n => ?_
  rw [List.mem_filter, List.mem_range, mem_reachable hfinite]
  constructor
  · rintro ⟨hlt, hactive⟩
    exact ⟨hactive, h.reached n hlt⟩
  · rintro ⟨hactive, hreach⟩
    exact ⟨hbelow n hactive hreach, hactive⟩

/-- A scan that goes on is still among the first indices. -/
theorem Scanned.inside (h : Scanned limit active gap index) (hgap : gap ≤ limit)
    (hfew : Few limit active m) (hindex : index ≤ (m + 1) * (limit + 1)) :
    index < (m + 1) * (limit + 1) := by
  have hwithin := h.within
  have hcount : ((List.range index).filter active).length ≤ m :=
    Nat.le_trans (((List.range_sublist.mpr hindex).filter _).length_le) hfew
  have hmul := Nat.mul_le_mul_right (limit + 1) hcount
  rw [Nat.add_mul]
  omega

theorem Reachable.mono (h : Reachable limit active n) (hle : m ≤ n) : Reachable limit active m :=
  fun i hi => h i (Nat.lt_of_lt_of_le hi hle)

/-- Where an index can be reached, a scan gets there. -/
theorem Reachable.scanned (h : Reachable limit active n) :
    ∃ gap ≤ limit, Scanned limit active gap n := by
  induction n with
  | zero => exact ⟨0, Nat.zero_le _, .start⟩
  | succ n ih =>
      obtain ⟨gap, hgap, hscan⟩ := ih (h.mono (Nat.le_succ n))
      refine ⟨_, ?_, hscan.step hgap⟩
      by_cases hactive : active n = true
      · rw [if_pos hactive]
        exact Nat.zero_le _
      · rw [if_neg hactive]
        by_contra hlimit
        have hle := hscan.le
        obtain ⟨j, hij, hj, hrun⟩ := h (n - limit) (by omega)
        by_cases hlast : j = n
        · exact hactive (hlast ▸ hrun)
        · rw [hscan.quiet j (by omega) (by omega)] at hrun
          cases hrun

theorem Reachable.inside (h : Reachable limit active n) (hfew : Few limit active m) :
    n < (m + 1) * (limit + 1) := by
  by_contra hn
  obtain ⟨gap, hgap, hscan⟩ := (h.mono (Nat.le_of_not_lt hn)).scanned
  exact Nat.lt_irrefl _ (hscan.inside hgap hfew le_rfl)

/-- What can be reached is among the first indices. -/
theorem lt_of_mem_reachable (hfew : Few limit active m) (h : n ∈ reachable limit active) :
    n < (m + 1) * (limit + 1) := by
  have hfinite : {n | active n = true ∧ Reachable limit active n}.Finite :=
    (Set.finite_lt_nat _).subset fun n hn => hn.2.inside hfew
  exact ((mem_reachable hfinite).mp h).2.inside hfew

end GapScans
