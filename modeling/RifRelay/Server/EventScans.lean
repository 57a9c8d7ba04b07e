import RifRelay.Server.Scanner

set_option autoImplicit false

/-! # Which events a scanner sees

A round fetches all events after the last scanned block, up to a block that is not before its
own, and its own block becomes the last scanned one if it comes that far (`Linked`). So no
event is skipped (`Linked.passed`), and none is fetched twice if nothing later than the blocks of
the rounds is fetched and no round fails after it has fetched something (`Linked.once`). A
round raises alerts exactly for the rejections among its events, if the server was registered
when the round stored its block (`Alerts`).
-/

namespace RifRelay.Server

open EventLoop KnownRelaysManager

variable {cfg : Config} {steady : Bool}

/-! ## Events that are asked for -/

/-- The server asks for events of this name. -/
def isAsked (e : EventData) : Bool := (eventName e.event).isSome

theorem isAsked_iff {e : EventData} :
    isAsked e = true ↔
      (eventName e.event).any ActiveManagerEvents.contains = true ∨ isStakeEvent e = true := by
  unfold isAsked isStakeEvent
  cases eventName e.event with
  | none => simp
  | some name => cases name <;> simp [ActiveManagerEvents, stakeEvents]

theorem not_active_of_isStakeEvent {e : EventData} (h : isStakeEvent e = true) :
    (eventName e.event).any ActiveManagerEvents.contains = false := by
  unfold isStakeEvent at h
  cases heq : eventName e.event with
  | none => rfl
  | some name =>
      rw [heq] at h
      cases name with
      | StakeAdded => rfl
      | StakeUnlocked => rfl
      | StakeWithdrawn => rfl
      | _ => simp [stakeEvents] at h

theorem not_rejection_of_isStakeEvent {e : EventData} (h : isStakeEvent e = true) :
    isRejection e = false := by
  unfold isRejection
  cases heq : eventName e.event with
  | none => rfl
  | some name =>
      cases name with
      | TransactionRejectedByRecipient =>
          unfold isStakeEvent at h
          rw [heq] at h
          simp [stakeEvents] at h
      | _ => rfl

theorem isAsked_of_rejection {e : EventData} (h : isRejection e = true) : isAsked e = true := by
  have heq : eventName e.event = some .TransactionRejectedByRecipient := eq_of_beq h
  unfold isAsked
  rw [heq]
  rfl

/-! ## Rounds -/

/-- All events after `lo` up to the block `b` are there. -/
def Complete (c : Chain) (lo b : Nat) (passed : List EventData) : Prop :=
  ∀ e ∈ c.log, isAsked e = true → lo < e.blockNumber → e.blockNumber ≤ b → e ∈ passed

/-- What a round has fetched is on the chain, nothing twice, and all of it once the round has
stored its block. -/
structure Fetches (c : Chain) (r : Round) : Prop where
  block : r.blockNumber ≤ c.blockNumber
  nodup : r.passed.Nodup
  sound : ∀ e ∈ r.passed, e ∈ c.log ∧ isAsked e = true ∧ r.lastScannedBlock < e.blockNumber
  complete : r.stored ≠ none → Complete c r.lastScannedBlock r.blockNumber r.passed

/-- What a round has raised alerts for. -/
def Alerts (r : Round) : Prop :=
  ∀ a ∈ r.alerts, a.alerted = true ∧ a.alertedBlock = r.blockNumber ∧ a.event ∈ r.passed ∧
    isRejection a.event = true ∧ r.stored = some true

/-- The round has raised all its alerts. -/
def Alerted (r : Round) : Prop :=
  r.stored = some true → ∀ e ∈ r.passed, isRejection e = true → ∃ a ∈ r.alerts, a.event = e

/-- The last scanned block is that of the latest round that has stored its block. -/
def Linked : Nat → List Round → Prop
  | last, [] => last = 0
  | last, r :: past =>
      last = (if r.stored.isSome then r.blockNumber else r.lastScannedBlock) ∧
        r.lastScannedBlock < r.blockNumber ∧ Linked r.lastScannedBlock past

/-- No event up to the last scanned block is skipped. -/
theorem Linked.passed {c : Chain} {last : Nat} {rounds : List Round} (h : Linked last rounds)
    (hrounds : ∀ r ∈ rounds, Fetches c r) {e : EventData} (hlog : e ∈ c.log)
    (hasked : isAsked e = true) (hpos : 0 < e.blockNumber) (hlast : e.blockNumber ≤ last) :
    ∃ r ∈ rounds, e ∈ r.passed := by
  induction rounds generalizing last with
  | nil =>
      have hzero : last = 0 := h
      omega
  | cons r past ih =>
      obtain ⟨hlast', hlt, hpast⟩ := h
      by_cases hold : e.blockNumber ≤ r.lastScannedBlock
      · obtain ⟨r', hr', hmem⟩ :=
          ih hpast (fun r' hr' => hrounds r' (List.mem_cons_of_mem _ hr')) hold
        exact ⟨r', List.mem_cons_of_mem _ hr', hmem⟩
      · -- a later block was scanned by the round itself, which has stored it
        have hstored : r.stored.isSome = true := by
          by_contra hnone
          rw [if_neg hnone] at hlast'
          omega
        rw [if_pos hstored] at hlast'
        have hcomplete := (hrounds r List.mem_cons_self).complete
          (Option.isSome_iff_ne_none.mp hstored)
        exact ⟨r, List.mem_cons_self, hcomplete e hlog hasked (by omega) (by omega)⟩

/-- Nothing later than its block has been fetched by a round. -/
def Punctual (r : Round) : Prop := ∀ e ∈ r.passed, e.blockNumber ≤ r.blockNumber

/-- A round that has fetched events has stored its block. -/
def Durable (r : Round) : Prop := r.passed ≠ [] → r.stored ≠ none

theorem Linked.le {last : Nat} {rounds : List Round} (h : Linked last rounds)
    (hpunctual : ∀ r ∈ rounds, Punctual r) (hstored : ∀ r ∈ rounds, Durable r) :
    ∀ r ∈ rounds, ∀ e ∈ r.passed, e.blockNumber ≤ last := by
  induction rounds generalizing last with
  | nil => exact fun r hr => (List.not_mem_nil hr).elim
  | cons r past ih =>
      obtain ⟨hlast, hlt, hpast⟩ := h
      intro r' hr' e he
      rcases List.mem_cons.mp hr' with rfl | hr'
      · have hsome := hstored r' List.mem_cons_self (List.ne_nil_of_mem he)
        rw [if_pos (Option.isSome_iff_ne_none.mpr hsome)] at hlast
        rw [hlast]
        exact hpunctual r' List.mem_cons_self e he
      · have hle := ih hpast (fun r hr => hpunctual r (List.mem_cons_of_mem _ hr))
          (fun r hr => hstored r (List.mem_cons_of_mem _ hr)) r' hr' e he
        have hmono : r.lastScannedBlock ≤ last := by
          rw [hlast]
          split <;> omega
        omega

/-- No event is fetched twice. -/
theorem Linked.once {c : Chain} {last : Nat} {rounds : List Round} (h : Linked last rounds)
    (hrounds : ∀ r ∈ rounds, Fetches c r) (hpunctual : ∀ r ∈ rounds.tail, Punctual r)
    (hstored : ∀ r ∈ rounds.tail, Durable r) : (rounds.flatMap (·.passed)).Nodup := by
  induction rounds generalizing last with
  | nil => exact List.nodup_nil
  | cons r past ih =>
      obtain ⟨-, -, hpast⟩ := h
      rw [List.flatMap_cons]
      refine List.nodup_append.mpr ⟨(hrounds r List.mem_cons_self).nodup, ?_, ?_⟩
      · exact ih hpast (fun r hr => hrounds r (List.mem_cons_of_mem _ hr))
          (fun r hr => hpunctual r (List.mem_of_mem_tail hr))
          fun r hr => hstored r (List.mem_of_mem_tail hr)
      · intro e he e' he' heq
        subst heq
        obtain ⟨r', hr', hmem⟩ := List.mem_flatMap.mp he'
        have hle := hpast.le hpunctual hstored r' hr' e hmem
        have hlt := ((hrounds r List.mem_cons_self).sound e he).2.2
        omega

/-! ## The round that is going on -/

/-- The events of the hub that a round has fetched after `lo`. -/
def Fetched (c : Chain) (lo b : Nat) (events : List EventData) : Prop :=
  ∃ h, Answered c b h ∧ events.Perm ((c.back h).query ActiveManagerEvents (lo + 1))

/-- A round has all events, and those that are not of the stake are `events`. -/
structure FetchedAll (c : Chain) (b : Nat) (events : List EventData) (r : Round) : Prop where
  pending : r.stored = none
  complete : Complete c r.lastScannedBlock b r.passed
  events : ∀ e, isRejection e = true → (e ∈ r.passed ↔ e ∈ events)

/-- What the record of the round that is going on holds. -/
def Phase.Has (cfg : Config) (w : Watch) (r : Round) : Phase → Prop
  | .idle => True
  | .begun _ | .started _ => r.passed = [] ∧ r.stored = none
  | .fetched b events => r.passed = [] ∧ r.stored = none ∧
      Fetched w.chain r.lastScannedBlock b events
  | .passed b events => r.passed = events ∧ r.stored = none ∧
      Fetched w.chain r.lastScannedBlock b events
  | .handling b events _ | .refreshed b events _ _ | .due b events _ | .scanned b events =>
      FetchedAll w.chain b events r
  | .paying _ next => next.Has cfg w r
  | .stored _ events => r.stored = some (w.registrationManager.isRegistered cfg) ∧
      ∀ e, isRejection e = true → (e ∈ r.passed ↔ e ∈ events)
  | .alerting _ rest => r.stored = some true ∧ (∀ e ∈ rest, isRejection e = true → e ∈ r.passed) ∧
      ∀ e ∈ r.passed, isRejection e = true → e ∈ rest ∨ ∃ a ∈ r.alerts, a.event = e

/-- What a scanner has seen of the events. -/
structure Fetcher (cfg : Config) (w : Watch) (φ : Phase) : Prop where
  linked : Linked w.lastScannedBlock w.rounds
  rounds : ∀ r ∈ w.rounds, Fetches w.chain r ∧ Alerts r
  past : ∀ r ∈ w.rounds.tail, Alerted r
  idle : φ = .idle → ∀ r ∈ w.rounds, Alerted r
  current : ∀ b, φ.block = some b → ∀ r past, w.rounds = r :: past → φ.Has cfg w r

theorem Complete.mine {c c' : Chain} {events : List EventData} {lo b : Nat}
    {passed : List EventData} (h : Complete c lo b passed)
    (hmine : c.mine cfg.managerAddress events = some c') (hb : b ≤ c.blockNumber) :
    Complete c' lo b passed := by
  obtain ⟨-, hlog, hnew, -⟩ := Chain.mine_eq _ hmine
  intro e he hasked hlo hle
  rw [hlog] at he
  rcases List.mem_append.mp he with hold | hmem
  · exact h e hold hasked hlo hle
  · have hblock := hnew e hmem
    omega

theorem Fetched.mine {c c' : Chain} {events : List EventData} {lo b : Nat}
    {fetched : List EventData} (h : Fetched c lo b fetched)
    (hmine : c.mine cfg.managerAddress events = some c') : Fetched c' lo b fetched := by
  obtain ⟨n, ⟨hb, hn⟩, hperm⟩ := h
  refine ⟨n, ⟨hb, ?_⟩, ?_⟩
  · rw [(Chain.mine_eq _ hmine).1]
    exact Nat.le_succ_of_le hn
  · rwa [Chain.back_mine hmine hn]

theorem FetchedAll.mine {c c' : Chain} {events fetched : List EventData} {b : Nat} {r : Round}
    (h : FetchedAll c b fetched r) (hmine : c.mine cfg.managerAddress events = some c')
    (hb : b ≤ c.blockNumber) : FetchedAll c' b fetched r :=
  ⟨h.pending, h.complete.mine hmine hb, h.events⟩

theorem Phase.Has.mine {w : Watch} {c : Chain} {events : List EventData} {r : Round} {φ : Phase}
    (h : φ.Has cfg w r) (hmine : w.chain.mine cfg.managerAddress events = some c)
    (hb : ∀ b, φ.block = some b → b ≤ w.chain.blockNumber) : φ.Has cfg { w with chain := c } r := by
  induction φ with
  | fetched b fetched => exact ⟨h.1, h.2.1, h.2.2.mine hmine⟩
  | passed b fetched => exact ⟨h.1, h.2.1, h.2.2.mine hmine⟩
  | handling b fetched rest => exact FetchedAll.mine h hmine (hb b rfl)
  | refreshed b fetched e rest => exact FetchedAll.mine h hmine (hb b rfl)
  | due b fetched rest => exact FetchedAll.mine h hmine (hb b rfl)
  | scanned b fetched => exact FetchedAll.mine h hmine (hb b rfl)
  | paying e next ih => exact ih h hb
  | _ => exact h

theorem Fetches.mine {c c' : Chain} {events : List EventData} {r : Round} (h : Fetches c r)
    (hmine : c.mine cfg.managerAddress events = some c') : Fetches c' r where
  block := by
    rw [(Chain.mine_eq _ hmine).1]
    exact Nat.le_succ_of_le h.block
  nodup := h.nodup
  sound e he := by
    rw [(Chain.mine_eq _ hmine).2.1]
    exact ⟨List.mem_append_left _ (h.sound e he).1, (h.sound e he).2⟩
  complete hstored := (h.complete hstored).mine hmine h.block

/-- A round that may fail has not stored its block. -/
theorem Phase.Has.pending {w : Watch} {r : Round} {φ : Phase} (h : φ.Has cfg w r)
    (hfail : φ.canFail = true) : r.stored = none := by
  induction φ with
  | idle => cases hfail
  | begun b => exact h.2
  | started b => exact h.2
  | fetched b events => exact h.2.1
  | passed b events => exact h.2.1
  | paying e next ih => exact ih h hfail
  | stored b events => cases hfail
  | alerting b rest => cases hfail
  | _ => exact FetchedAll.pending h

theorem Phase.block_of_canFail {φ : Phase} (h : φ.canFail = true) : ∃ b, φ.block = some b := by
  induction φ with
  | idle => cases h
  | paying e next ih => exact ih h
  | stored b events => cases h
  | alerting b rest => cases h
  | _ => exact ⟨_, rfl⟩

theorem Linked.pending {last : Nat} {r : Round} {past : List Round} (h : Linked last (r :: past))
    (hstored : r.stored = none) : r.lastScannedBlock = last := by
  have hlast := h.1
  rw [hstored] at hlast
  exact hlast.symm

/-- Alerts are raised after the block has been stored. -/
theorem Alerts.pending {r : Round} (h : Alerts r) (hstored : r.stored ≠ some true) :
    r.alerts = [] :=
  List.eq_nil_iff_forall_not_mem.mpr fun a ha => hstored (h a ha).2.2.2.2

/-! ## Steps -/

/-- Another phase, with nothing new in the record. -/
theorem Fetcher.next {w w' : Watch} {φ φ' : Phase} (ih : Fetcher cfg w φ)
    (hrounds : w'.rounds = w.rounds) (hlast : w'.lastScannedBlock = w.lastScannedBlock)
    (hchain : w'.chain = w.chain) (hblock : φ'.block = φ.block) (hidle : φ' = .idle → φ = .idle)
    (hhas : ∀ r past, w.rounds = r :: past → φ.Has cfg w r → φ'.Has cfg w' r) :
    Fetcher cfg w' φ' where
  linked := by
    rw [hlast, hrounds]
    exact ih.linked
  rounds := by
    rw [hrounds, hchain]
    exact ih.rounds
  past := by
    rw [hrounds]
    exact ih.past
  idle h := by
    rw [hrounds]
    exact ih.idle (hidle h)
  current b hb r past hr := by
    rw [hrounds] at hr
    exact hhas r past hr (ih.current b (hblock ▸ hb) r past hr)

/-- A write into the record of the round that is going on. -/
theorem Fetcher.write {w w' : Watch} {φ φ' : Phase} {f : Round → Round} {b : Nat}
    (ih : Fetcher cfg w φ) (hcurrent : Current steady w φ) (hb : φ.block = some b)
    (hidle : φ' ≠ .idle) (hrounds : w'.rounds = inLatest f w.rounds) (hchain : w'.chain = w.chain)
    (hf : ∀ r past, w.rounds = r :: past → r.blockNumber = b → φ.Has cfg w r → Fetches w.chain r →
      Alerts r → Linked w'.lastScannedBlock (f r :: past) ∧ Fetches w.chain (f r) ∧
        Alerts (f r) ∧ φ'.Has cfg w' (f r)) :
    Fetcher cfg w' φ' := by
  obtain ⟨-, -, r, past, hr, hblock⟩ := hcurrent b hb
  have hold := ih.rounds r (by rw [hr]; exact List.mem_cons_self)
  obtain ⟨hlinked, hfetches, halerts, hhas⟩ :=
    hf r past hr hblock (ih.current b hb r past hr) hold.1 hold.2
  rw [hr] at hrounds
  have hpast := ih.past
  rw [hr] at hpast
  refine ⟨?_, fun r' hr' => ?_, ?_, fun h => absurd h hidle, fun b' _ r' past' hr' => ?_⟩
  · rw [hrounds]
    exact hlinked
  · rw [hrounds] at hr'
    rw [hchain]
    rcases List.mem_cons.mp hr' with rfl | hmem
    · exact ⟨hfetches, halerts⟩
    · exact ih.rounds r' (by rw [hr]; exact List.mem_cons_of_mem _ hmem)
  · rw [hrounds]
    exact hpast
  · rw [hrounds] at hr'
    obtain ⟨rfl, -⟩ := List.cons.inj hr'
    exact hhas

/-- A write that touches neither the events nor the alerts. -/
theorem Fetcher.write_other {w : Watch} {φ φ' : Phase} {f : Round → Round} {b : Nat}
    (ih : Fetcher cfg w φ) (hcurrent : Current steady w φ) (hb : φ.block = some b)
    (hidle : φ' ≠ .idle)
    (hf : ∀ r, (f r).lastScannedBlock = r.lastScannedBlock ∧ (f r).blockNumber = r.blockNumber ∧
      (f r).passed = r.passed ∧ (f r).stored = r.stored ∧ (f r).alerts = r.alerts)
    (hhas : ∀ r, φ.Has cfg w r → φ'.Has cfg (w.inRound f) (f r)) :
    Fetcher cfg (w.inRound f) φ' := by
  refine ih.write hcurrent hb hidle rfl rfl fun r past hr _ hphase hfetches halerts => ?_
  obtain ⟨hlast, hblock, hpassed, hstored, halerts'⟩ := hf r
  refine ⟨?_, ⟨?_, ?_, ?_, ?_⟩, ?_, hhas r hphase⟩
  · have hlinked := ih.linked
    rw [hr] at hlinked
    unfold Linked
    rw [hstored, hblock, hlast]
    exact hlinked
  · rw [hblock]
    exact hfetches.block
  · rw [hpassed]
    exact hfetches.nodup
  · rw [hpassed, hlast]
    exact hfetches.sound
  · rw [hstored, hlast, hblock, hpassed]
    exact hfetches.complete
  · unfold Alerts
    rw [halerts', hblock, hpassed, hstored]
    exact halerts

/-- The round passes on the events of the hub. -/
theorem Fetcher.pass {w : Watch} {b : Nat} {events : List EventData}
    (ih : Fetcher cfg w (.fetched b events)) (hcurrent : Current steady w (.fetched b events))
    (hsound : w.chain.Sound cfg.managerAddress) :
    Fetcher cfg (w.pass events) (.passed b events) := by
  refine ih.write hcurrent rfl (fun h => Phase.noConfusion h) rfl rfl ?_
  rintro r past hr - ⟨hnone, hpending, h, hh, hperm⟩ hfetches halerts
  have hlinked := ih.linked
  rw [hr] at hlinked
  have hempty : r.alerts = [] := halerts.pending (by rw [hpending]; exact fun h => by cases h)
  have hpassed : r.passed ++ events = events := by rw [hnone, List.nil_append]
  refine ⟨hlinked, ⟨hfetches.block, ?_, fun e he => ?_, fun hstored => absurd hpending hstored⟩, ?_,
    hpassed, hpending, h, hh, hperm⟩
  · rw [hpassed]
    exact hperm.nodup_iff.mpr ((hsound.nodup.filter _).filter _)
  · rw [hpassed] at he
    obtain ⟨hlog, hname, hlt, -⟩ := Chain.mem_query.mp (hperm.mem_iff.mp he)
    exact ⟨hlog, isAsked_iff.mpr (Or.inl hname), hlt⟩
  · unfold Alerts
    rw [show (_ : List Alert) = [] from hempty]
    exact fun a ha => (List.not_mem_nil ha).elim

/-- With the events of the stake the round has all events. -/
theorem Fetcher.scanStakes {w : Watch} {b n : Nat} {events found : List EventData}
    (ih : Fetcher cfg w (.passed b events)) (hcurrent : Current steady w (.passed b events))
    (hsound : w.chain.Sound cfg.managerAddress) (hn : Answered w.chain b n)
    (hfound : found = (w.chain.back n).query stakeEvents (w.lastScannedBlock + 1)) :
    Fetcher cfg (w.pass found) (.handling b events found) := by
  refine ih.write hcurrent rfl (fun h => Phase.noConfusion h) rfl rfl ?_
  rintro r past hr - ⟨hpassed, hpending, h, hh, hperm⟩ hfetches halerts
  have hlinked := ih.linked
  rw [hr] at hlinked
  have hlast := hlinked.pending hpending
  have hempty : r.alerts = [] := halerts.pending (by rw [hpending]; exact fun h => by cases h)
  have hmem : ∀ e, e ∈ found ↔ e ∈ w.chain.log ∧ isStakeEvent e = true ∧
      r.lastScannedBlock < e.blockNumber ∧ e.blockNumber ≤ n := by
    intro e
    rw [hfound, ← hlast]
    exact Chain.mem_query
  refine ⟨hlinked, ⟨hfetches.block, ?_, fun e he => ?_, fun hstored => absurd hpending hstored⟩, ?_,
    hpending, ?_, fun e hrejection => ?_⟩
  · refine List.nodup_append.mpr ⟨hfetches.nodup, ?_, fun e he e' he' heq => ?_⟩
    · rw [hfound]
      exact (hsound.nodup.filter _).filter _
    · subst heq
      rw [hpassed] at he
      have hactive := (Chain.mem_query.mp (hperm.mem_iff.mp he)).2.1
      rw [not_active_of_isStakeEvent ((hmem e).mp he').2.1] at hactive
      cases hactive
  · rcases List.mem_append.mp he with hold | hnew
    · exact hfetches.sound e hold
    · obtain ⟨hlog, hstake, hlt, -⟩ := (hmem e).mp hnew
      exact ⟨hlog, isAsked_iff.mpr (Or.inr hstake), hlt⟩
  · unfold Alerts
    rw [show (_ : List Alert) = [] from hempty]
    exact fun a ha => (List.not_mem_nil ha).elim
  · intro e hlog hasked hlt hle
    rcases isAsked_iff.mp hasked with hactive | hstake
    · refine List.mem_append_left _ ?_
      rw [hpassed]
      exact hperm.mem_iff.mpr (Chain.mem_query.mpr ⟨hlog, hactive, hlt, Nat.le_trans hle hh.1⟩)
    · exact List.mem_append_right _ ((hmem e).mpr ⟨hlog, hstake, hlt, Nat.le_trans hle hn.1⟩)
  · -- the events of the stake hold no rejection
    have hnot : e ∉ found := by
      intro he
      rw [not_rejection_of_isStakeEvent ((hmem e).mp he).2.1] at hrejection
      cases hrejection
    change e ∈ r.passed ++ found ↔ e ∈ events
    rw [hpassed, List.mem_append]
    tauto

theorem Fetcher.store {w : Watch} {b : Nat} {events : List EventData}
    (ih : Fetcher cfg w (.scanned b events)) (hcurrent : Current steady w (.scanned b events)) :
    Fetcher cfg (w.store cfg b) (.stored b events) := by
  refine ih.write hcurrent rfl (fun h => Phase.noConfusion h) rfl rfl ?_
  rintro r past hr hb ⟨hpending, hcomplete, hevents⟩ hfetches halerts
  have hlinked := ih.linked
  rw [hr] at hlinked
  have hempty : r.alerts = [] := halerts.pending (by rw [hpending]; exact fun h => by cases h)
  refine ⟨⟨?_, hlinked.2.1, hlinked.2.2⟩,
    ⟨hfetches.block, hfetches.nodup, hfetches.sound, fun _ => ?_⟩, ?_, rfl, hevents⟩
  · exact hb.symm
  · rw [← hb] at hcomplete
    exact hcomplete
  · unfold Alerts
    rw [show (_ : List Alert) = [] from hempty]
    exact fun a ha => (List.not_mem_nil ha).elim

theorem Fetcher.alert {w : Watch} {b : Nat} {e : EventData} {rest : List EventData}
    (ih : Fetcher cfg w (.alerting b (e :: rest)))
    (hcurrent : Current steady w (.alerting b (e :: rest))) (he : isRejection e = true) :
    Fetcher cfg (w.alert b e) (.alerting b rest) := by
  refine ih.write hcurrent rfl (fun h => Phase.noConfusion h) rfl rfl ?_
  rintro r past hr hb ⟨hstored, hrest, hpassed⟩ hfetches halerts
  have hlinked := ih.linked
  rw [hr] at hlinked
  refine ⟨hlinked, ⟨hfetches.block, hfetches.nodup, hfetches.sound, hfetches.complete⟩,
    fun a ha => ?_, hstored, fun e' he' => hrest e' (List.mem_cons_of_mem _ he'),
    fun e' he' hrejection => ?_⟩
  · rcases List.mem_append.mp ha with hold | hnew
    · exact halerts a hold
    · obtain rfl := List.mem_singleton.mp hnew
      exact ⟨rfl, hb.symm, hrest e List.mem_cons_self he, he, hstored⟩
  · rcases hpassed e' he' hrejection with hmem | ⟨a, ha, haevent⟩
    · rcases List.mem_cons.mp hmem with rfl | hmem
      · exact Or.inr ⟨_, List.mem_append_right _ (List.mem_singleton.mpr rfl), rfl⟩
      · exact Or.inl hmem
    · exact Or.inr ⟨a, List.mem_append_left _ ha, haevent⟩

/-- At its end the round has raised its alerts. -/
theorem Fetcher.finish {w : Watch} {φ : Phase} (ih : Fetcher cfg w φ)
    (hcurrent : Current steady w φ) (hend : w.mayEnd cfg φ) : Fetcher cfg w .idle := by
  refine ⟨ih.linked, ih.rounds, ih.past, fun _ r hr => ?_, fun b hb => by cases hb⟩
  by_cases hmem : r ∈ w.rounds.tail
  · exact ih.past r hmem
  have hhas : φ.Has cfg w r ∧ φ ≠ .idle := by
    have hblock : ∃ b, φ.block = some b := by
      cases φ with
      | stored b events => exact ⟨b, rfl⟩
      | alerting b rest => exact ⟨b, rfl⟩
      | _ => exact Phase.block_of_canFail hend
    obtain ⟨b, hb⟩ := hblock
    obtain ⟨-, -, r', past, hrounds, -⟩ := hcurrent b hb
    rw [hrounds] at hr hmem
    rcases List.mem_cons.mp hr with rfl | hpast
    · exact ⟨ih.current b hb r past hrounds, fun h => by rw [h] at hb; cases hb⟩
    · exact absurd hpast hmem
  intro hstored
  cases φ with
  | stored b events =>
      have hnot : w.registrationManager.isRegistered cfg = false := hend
      rw [hhas.1.1, hnot] at hstored
      cases hstored
  | alerting b rest =>
      obtain rfl : rest = [] := hend
      intro e he hrejection
      exact (hhas.1.2.2 e he hrejection).resolve_left (List.not_mem_nil)
  | idle => exact absurd rfl hhas.2
  | _ =>
      rw [hhas.1.pending hend] at hstored
      cases hstored

/-- What a round holds is about the chain, and about the registration once it is stored. -/
theorem Phase.Has.congr {w w' : Watch} {r : Round} {φ : Phase} (h : φ.Has cfg w r)
    (hchain : w'.chain = w.chain)
    (hreg : φ.canFail = true ∨ w'.registrationManager = w.registrationManager) :
    φ.Has cfg w' r := by
  induction φ with
  | paying e next ih => exact ih h hreg
  | stored b events =>
      rcases hreg with hfail | hreg
      · cases hfail
      · unfold Phase.Has
        rw [hreg]
        exact h
  | fetched b events | passed b events | handling b events rest | refreshed b events e rest
  | due b events rest | scanned b events => simpa only [Phase.Has, hchain] using h
  | _ => exact h

/-- One step of a scanner. -/
theorem Fetcher.step {w w' : Watch} {φ φ' : Phase} (ih : Fetcher cfg w φ)
    (hscanned : Scanned cfg steady w φ) (hstep : Scan cfg steady w φ w' φ') :
    Fetcher cfg w' φ' := by
  have hsound := hscanned.sound
  have hcurrent := hscanned.current
  cases hstep with
  | mine _ events c hidle hmine =>
      refine ⟨ih.linked, fun r hr => ⟨(ih.rounds r hr).1.mine hmine, (ih.rounds r hr).2⟩, ih.past,
        ih.idle, fun b hb r past hr => ?_⟩
      exact (ih.current b hb r past hr).mine hmine fun b hb => (hcurrent b hb).1
  | begin b hlt hb hsteady =>
      refine ⟨⟨rfl, hlt, ih.linked⟩, fun r hr => ?_, ih.idle rfl, fun h => Phase.noConfusion h,
        fun b' _ r past hr => ?_⟩
      · rcases List.mem_cons.mp hr with rfl | hold
        · exact ⟨⟨hb, List.nodup_nil, fun e he => (List.not_mem_nil he).elim,
            fun h => absurd rfl h⟩,
            fun a ha => (List.not_mem_nil ha).elim⟩
        · exact ih.rounds r hold
      · obtain ⟨rfl, -⟩ := List.cons.inj hr
        exact ⟨rfl, rfl⟩
  | renew b r hinit hblank => exact ih.next rfl rfl rfl rfl id fun _ _ _ h => h
  | initialized b => exact ih.next rfl rfl rfl rfl id fun _ _ _ h => h
  | start b hinit => exact ih.next rfl rfl rfl rfl (fun h => Phase.noConfusion h) fun _ _ _ h => h
  | other _ r hfail hsame =>
      exact ih.next rfl rfl rfl rfl id fun _ _ _ h => h.congr rfl (Or.inl hfail)
  | fetch b h events hh hevents =>
      refine ih.next rfl rfl rfl rfl (fun h => Phase.noConfusion h) fun r past hr hhas => ?_
      -- the query of the round begins after the last block that was stored
      have hlinked := ih.linked
      rw [hr] at hlinked
      refine ⟨hhas.1, hhas.2, h, hh, ?_⟩
      rw [hlinked.pending hhas.2]
      exact hevents
  | pass b events => exact ih.pass hcurrent hsound
  | scanStakes b h events found hh hfound => exact ih.scanStakes hcurrent hsound hh hfound
  | refresh b h events e rest hh =>
      exact ih.next rfl rfl rfl rfl (fun h => Phase.noConfusion h) fun _ _ _ h => h
  | added b events e rest he =>
      exact ih.next rfl rfl rfl rfl (fun h => Phase.noConfusion h) fun _ _ _ h => h
  | delay b events e rest relayManager owner withdrawBlock he =>
      exact ih.next rfl rfl rfl rfl (fun h => Phase.noConfusion h) fun _ _ _ h => h
  | withdraw b events e rest he =>
      exact ih.write_other hcurrent rfl (fun h => Phase.noConfusion h)
        (fun _ => ⟨rfl, rfl, rfl, rfl, rfl⟩) fun _ h => ⟨h.1, h.2, h.3⟩
  | pay e φ d hd =>
      exact ih.next rfl rfl rfl rfl (fun h => Phase.noConfusion h)
        fun _ _ _ h => h.congr rfl (Or.inr rfl)
  | paid e φ =>
      refine ih.next rfl rfl rfl rfl (fun h => ?_) fun _ _ _ h => h
      -- a payment is made in a round, so it does not lead to the idle phase
      obtain ⟨b, hb⟩ := hscanned.paysLast.2.1
      rw [h] at hb
      cases hb
  | skip b events e rest he =>
      exact ih.next rfl rfl rfl rfl (fun h => Phase.noConfusion h) fun _ _ _ h => h
  | extract b events =>
      exact ih.next rfl rfl rfl rfl (fun h => Phase.noConfusion h) fun _ _ _ h => h
  | unlock b events e rest he =>
      exact ih.write_other hcurrent rfl (fun h => Phase.noConfusion h)
        (fun _ => ⟨rfl, rfl, rfl, rfl, rfl⟩) fun _ h => ⟨h.1, h.2, h.3⟩
  | skipDue b events e rest he =>
      exact ih.next rfl rfl rfl rfl (fun h => Phase.noConfusion h) fun _ _ _ h => h
  | scanned b events =>
      exact ih.write_other hcurrent rfl (fun h => Phase.noConfusion h)
        (fun _ => ⟨rfl, rfl, rfl, rfl, rfl⟩) fun _ h => ⟨h.1, h.2, h.3⟩
  | store b events => exact ih.store hcurrent
  | registered b events hr =>
      refine ih.next rfl rfl rfl rfl (fun h => Phase.noConfusion h) fun r past _ hhas => ?_
      obtain ⟨hstored, hevents⟩ := hhas
      rw [hr] at hstored
      exact ⟨hstored, fun e he hrejection => (hevents e hrejection).mpr he,
        fun e he hrejection => Or.inl ((hevents e hrejection).mp he)⟩
  | alert b e rest he => exact ih.alert hcurrent he
  | skipAlert b e rest he =>
      refine ih.next rfl rfl rfl rfl (fun h => Phase.noConfusion h) fun r past _ hhas => ?_
      obtain ⟨hstored, hrest, hpassed⟩ := hhas
      refine ⟨hstored, fun e' he' => hrest e' (List.mem_cons_of_mem _ he'), fun e' he' hrej => ?_⟩
      -- what is skipped is no rejection
      refine (hpassed e' he' hrej).imp_left fun hmem => ?_
      rcases List.mem_cons.mp hmem with rfl | hmem
      · rw [he] at hrej
        cases hrej
      · exact hmem
  | finish _ hend => exact ih.finish hcurrent hend

theorem Scanned.fetcher {w : Watch} {φ : Phase} (h : Scanned cfg steady w φ) : Fetcher cfg w φ := by
  have hnew : ∀ c, Fetcher cfg (.fresh c) .idle := fun c =>
    ⟨rfl, fun _ hr => (List.not_mem_nil hr).elim, fun _ hr => (List.not_mem_nil hr).elim,
      fun _ _ hr => (List.not_mem_nil hr).elim, fun b hb => by cases hb⟩
  exact Scanned.induct (hnew _) (fun w _ _ => hnew _)
    (fun _ _ _ _ hw ih hstep => ih.step hw hstep) h

end RifRelay.Server
