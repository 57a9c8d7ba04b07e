import RifRelay.Server.Scanner

set_option autoImplicit false

/-! # What the scanner knows of the stake

Three properties of every scanner: the events it withdraws the funds for are exits that the hub
has emitted and that are due; the owner it pays is the one of the first stake the node has told
it of (`Payer`); and its flags about the stake are those of the entry at the scanned block,
unless nothing is staked any more (`Reflects`).
-/

namespace RifRelay.Server

open EventLoop KnownRelaysManager

variable {cfg : Config} {steady : Bool}

/-! ## Exits -/

/-- What a round holds comes from the chain. -/
def Phase.Knows (c : Chain) : Phase → Prop
  | .handling _ _ rest => ∀ e ∈ rest, e ∈ c.log ∧ isStakeEvent e = true
  | .refreshed _ _ e rest => ∀ e' ∈ e :: rest, e' ∈ c.log ∧ isStakeEvent e' = true
  | .due b _ rest => ∀ e ∈ rest, e ∈ c.log ∧ exitDue b e = true
  | .paying e next => next.Knows c ∧ e ∈ c.log ∧ ∃ b, exitDue b e = true
  | _ => True

/-- The events that wait for their withdraw block are unlocks of the chain. -/
def DelayedSound (c : Chain) (r : RegistrationManager) : Prop :=
  ∀ d ∈ r.delayedEvents, d.2 ∈ c.log ∧
    ∃ relayManager owner withdrawBlock,
      d.2.event = .StakeUnlocked relayManager owner withdrawBlock ∧ d.1 = withdrawBlock.toNat

/-- The events that a round has withdrawn the funds for were due exits of the chain. A steady
scanner has not scanned further than its block. -/
def WithdrawnSound (steady : Bool) (c : Chain) (r : Round) : Prop :=
  ∀ e ∈ r.withdrawn, e ∈ c.log ∧ (steady = true → e.blockNumber ≤ r.blockNumber) ∧
    exitDue r.blockNumber e = true

/-- What a scanner has withdrawn the funds for, and what it is about to. -/
structure Withdrawer (steady : Bool) (w : Watch) (φ : Phase) : Prop where
  knows : φ.Knows w.chain
  delayed : DelayedSound w.chain w.registrationManager
  withdrawn : ∀ r ∈ w.rounds, WithdrawnSound steady w.chain r
  payouts : ∀ p ∈ w.payouts, p.event ∈ w.chain.log ∧ ∃ b, exitDue b p.event = true

theorem Phase.Knows.mine {c c' : Chain} {events : List EventData}
    (hmine : c.mine cfg.managerAddress events = some c') {φ : Phase} (h : φ.Knows c) :
    φ.Knows c' := by
  have hlog : ∀ e ∈ c.log, e ∈ c'.log := by
    intro e he
    rw [(Chain.mine_eq _ hmine).2.1]
    exact List.mem_append_left _ he
  induction φ with
  | handling b events' rest => exact fun e he => ⟨hlog e (h e he).1, (h e he).2⟩
  | refreshed b events' e rest => exact fun e' he => ⟨hlog e' (h e' he).1, (h e' he).2⟩
  | due b events' rest => exact fun e he => ⟨hlog e (h e he).1, (h e he).2⟩
  | paying e next ih => exact ⟨ih h.1, hlog e h.2.1, h.2.2⟩
  | _ => trivial

/-! ## What the funds are withdrawn for -/

theorem DelayedSound.of_eq {c : Chain} {r r' : RegistrationManager} (h : DelayedSound c r)
    (heq : r'.delayedEvents = r.delayedEvents) : DelayedSound c r' := by
  unfold DelayedSound
  rw [heq]
  exact h

theorem DelayedSound.due {c : Chain} {r : RegistrationManager} (h : DelayedSound c r) {b : Nat}
    {e : EventData} (he : e ∈ r.duePendingEvents b) : e ∈ c.log ∧ exitDue b e = true := by
  obtain ⟨d, hd, rfl⟩ := List.mem_map.mp he
  obtain ⟨hmem, hdue⟩ := List.mem_filter.mp hd
  obtain ⟨hlog, relayManager, owner, withdrawBlock, hevent, hblock⟩ := h d hmem
  refine ⟨hlog, ?_⟩
  unfold exitDue
  simp only [hevent, ← hblock]
  exact hdue

theorem refreshed_delayedEvents (r : RegistrationManager) (info : StakeInfo) :
    (r.refreshed info).delayedEvents = r.delayedEvents := by
  unfold RegistrationManager.refreshed
  split <;> rfl

theorem Withdrawer.withdraw {w : Watch} {φ φ' : Phase} {e : EventData}
    (h : Withdrawer steady w φ) (hcurrent : Current steady w φ) {b : Nat}
    (hsound : w.chain.Sound cfg.managerAddress) (hb : φ.block = some b)
    (hlog : e ∈ w.chain.log) (hdue : exitDue b e = true) (hknows : φ'.Knows w.chain) :
    Withdrawer steady (w.withdraw e) (.paying e φ') where
  knows := ⟨hknows, hlog, b, hdue⟩
  delayed := h.delayed
  payouts := h.payouts
  withdrawn := by
    refine forall_inLatest h.withdrawn fun r past hrounds hr => ?_
    obtain ⟨-, hsteady, r', past', hrounds', hblock⟩ := hcurrent b hb
    obtain ⟨rfl, -⟩ := List.cons.inj (hrounds.symm.trans hrounds')
    intro e' he'
    rcases List.mem_append.mp he' with hold | hnew
    · exact hr e' hold
    · obtain rfl := List.mem_singleton.mp hnew
      refine ⟨hlog, fun hs => ?_, by rw [← hblock] at hdue; exact hdue⟩
      calc e'.blockNumber ≤ w.chain.blockNumber := (hsound.mined e' hlog).2
        _ = r.blockNumber := by rw [hblock, hsteady hs]

theorem Scanned.withdrawer {w : Watch} {φ : Phase} (h : Scanned cfg steady w φ) :
    Withdrawer steady w φ := by
  have hnew : ∀ c, Withdrawer steady (.fresh c) .idle := fun c =>
    ⟨trivial, fun _ hd => (List.not_mem_nil hd).elim, fun _ hr => (List.not_mem_nil hr).elim,
      fun _ hp => (List.not_mem_nil hp).elim⟩
  refine Scanned.induct (P := Withdrawer steady) (hnew _) (fun w _ _ => hnew _) ?_ h
  intro w φ w' φ' hscanned ih hstep
  -- a step that writes another part of the latest round leaves its withdrawals as they are
  have hround : ∀ (f : Round → Round), (∀ r, (f r).withdrawn = r.withdrawn) →
      (∀ r, (f r).blockNumber = r.blockNumber) →
        ∀ r ∈ inLatest f w.rounds, WithdrawnSound steady w.chain r := by
    intro f hf hb
    refine forall_inLatest ih.withdrawn fun r _ _ hr => ?_
    unfold WithdrawnSound
    rw [hf, hb]
    exact hr
  cases hstep with
  | mine _ events c hidle hmine =>
      have hlog : ∀ e ∈ w.chain.log, e ∈ c.log := by
        intro e he
        rw [(Chain.mine_eq _ hmine).2.1]
        exact List.mem_append_left _ he
      exact ⟨ih.knows.mine hmine, fun d hd => ⟨hlog _ (ih.delayed d hd).1, (ih.delayed d hd).2⟩,
        fun r hr e he => ⟨hlog e (ih.withdrawn r hr e he).1, (ih.withdrawn r hr e he).2⟩,
        fun p hp => ⟨hlog _ (ih.payouts p hp).1, (ih.payouts p hp).2⟩⟩
  | begin b hlt hb hsteady =>
      refine ⟨trivial, ih.delayed, fun r hr => ?_, ih.payouts⟩
      rcases List.mem_cons.mp hr with rfl | hr
      · exact fun e he => (List.not_mem_nil he).elim
      · exact ih.withdrawn r hr
  | renew b r hinit hblank =>
      -- a manager that begins anew has delayed nothing
      refine ⟨trivial, fun d hd => ?_, ih.withdrawn, ih.payouts⟩
      rw [show (w.registration fun _ => r).registrationManager.delayedEvents = [] from
        hblank.2.2.2] at hd
      exact (List.not_mem_nil hd).elim
  | initialized b => exact ⟨trivial, ih.delayed, ih.withdrawn, ih.payouts⟩
  | start b hinit => exact ⟨trivial, ih.delayed, ih.withdrawn, ih.payouts⟩
  | other _ r hfail hsame =>
      exact ⟨ih.knows, ih.delayed.of_eq hsame.2.2.2, ih.withdrawn, ih.payouts⟩
  | fetch b h events hh hevents => exact ⟨trivial, ih.delayed, ih.withdrawn, ih.payouts⟩
  | pass b events =>
      exact ⟨trivial, ih.delayed, hround _ (fun _ => rfl) fun _ => rfl, ih.payouts⟩
  | scanStakes b h events found hh hfound =>
      refine ⟨fun e he => ?_, ih.delayed, hround _ (fun _ => rfl) fun _ => rfl, ih.payouts⟩
      rw [hfound] at he
      obtain ⟨hlog, hname, -, -⟩ := Chain.mem_query.mp he
      exact ⟨hlog, hname⟩
  | refresh b h events e rest hh =>
      refine ⟨ih.knows, ?_, ih.withdrawn, ih.payouts⟩
      exact ih.delayed.of_eq (refreshed_delayedEvents _ _)
  | added b events e rest he =>
      exact ⟨fun e' he' => ih.knows e' (List.mem_cons_of_mem _ he'), ih.delayed, ih.withdrawn,
        ih.payouts⟩
  | delay b events e rest relayManager owner withdrawBlock he =>
      refine ⟨fun e' he' => ih.knows e' (List.mem_cons_of_mem _ he'), fun d hd => ?_,
        ih.withdrawn, ih.payouts⟩
      rcases List.mem_append.mp hd with hold | hnew
      · exact ih.delayed d hold
      · obtain rfl := List.mem_singleton.mp hnew
        exact ⟨(ih.knows e List.mem_cons_self).1, relayManager, owner, withdrawBlock, he, rfl⟩
  | withdraw b events e rest he =>
      -- a stake that was withdrawn is paid out at once
      exact ih.withdraw hscanned.current hscanned.sound rfl
        (ih.knows e List.mem_cons_self).1 (exitDue_of_withdrawn he)
        fun e' he' => ih.knows e' (List.mem_cons_of_mem _ he')
  | pay e φ d hd =>
      refine ⟨ih.knows, ih.delayed, ih.withdrawn, fun p hp => ?_⟩
      rcases List.mem_append.mp hp with hold | hnew
      · exact ih.payouts p hold
      · obtain rfl := List.mem_singleton.mp hnew
        exact ih.knows.2
  | paid e φ => exact ⟨ih.knows.1, ih.delayed, ih.withdrawn, ih.payouts⟩
  | skip b events e rest he =>
      exact ⟨fun e' he' => ih.knows e' (List.mem_cons_of_mem _ he'), ih.delayed, ih.withdrawn,
        ih.payouts⟩
  | extract b events =>
      refine ⟨fun e he => ih.delayed.due he, fun d hd => ?_, ih.withdrawn, ih.payouts⟩
      exact ih.delayed d (List.mem_filter.mp hd).1
  | unlock b events e rest he =>
      -- an unlock that was delayed is handled only when it is due
      exact ih.withdraw hscanned.current hscanned.sound rfl
        (ih.knows e List.mem_cons_self).1 (ih.knows e List.mem_cons_self).2
        fun e' he' => ih.knows e' (List.mem_cons_of_mem _ he')
  | skipDue b events e rest he =>
      exact ⟨fun e' he' => ih.knows e' (List.mem_cons_of_mem _ he'), ih.delayed, ih.withdrawn,
        ih.payouts⟩
  | scanned b events =>
      exact ⟨trivial, ih.delayed, hround _ (fun _ => rfl) fun _ => rfl, ih.payouts⟩
  | store b events =>
      exact ⟨trivial, ih.delayed, hround _ (fun _ => rfl) fun _ => rfl, ih.payouts⟩
  | registered b events hr => exact ⟨trivial, ih.delayed, ih.withdrawn, ih.payouts⟩
  | alert b e rest he =>
      exact ⟨trivial, ih.delayed, hround _ (fun _ => rfl) fun _ => rfl, ih.payouts⟩
  | skipAlert b e rest he => exact ⟨trivial, ih.delayed, ih.withdrawn, ih.payouts⟩
  | finish _ hend => exact ⟨trivial, ih.delayed, ih.withdrawn, ih.payouts⟩

/-! ## The owner -/

/-- The owner of the first stake among those the node has told. -/
def toldOwner (stakes : List StakeInfo) : Option Address :=
  (stakes.find? (·.stake ≠ 0)).map (·.owner)

/-- The round goes on with an initialised process. -/
def Phase.isStarted : Phase → Bool
  | .idle | .begun _ => false
  | .paying _ next => next.isStarted
  | _ => true

/-- The owner whom a scanner pays is the first one that the node has told it of. -/
structure Payer (w : Watch) (φ : Phase) : Prop where
  blank : w.initialized = false → w.stakes = []
  initialized : φ.isStarted = true → w.initialized = true
  owner : w.registrationManager.ownerAddress = toldOwner w.stakes
  payouts : ∀ p ∈ w.payouts, p.details.destination = toldOwner p.stakes

theorem refreshed_ownerAddress (r : RegistrationManager) (info : StakeInfo)
    {stakes : List StakeInfo} (h : r.ownerAddress = toldOwner stakes) :
    (r.refreshed info).ownerAddress = toldOwner (stakes ++ [info]) := by
  unfold toldOwner RegistrationManager.refreshed
  rw [List.find?_append]
  by_cases hzero : info.stake = 0
  · simp [hzero, h, toldOwner]
  · rw [if_neg hzero]
    simp only [h, toldOwner]
    cases stakes.find? (·.stake ≠ 0) with
    | none =>
        have hsome : decide (info.stake ≠ 0) = true := decide_eq_true hzero
        simp only [List.find?_cons, hsome]
        rfl
    | some first => rfl

theorem Scanned.payer {w : Watch} {φ : Phase} (h : Scanned cfg steady w φ) : Payer w φ := by
  have hnew : ∀ c, Payer (.fresh c) .idle := fun c =>
    ⟨fun _ => rfl, fun h => (by cases h), rfl, fun _ hp => (List.not_mem_nil hp).elim⟩
  refine Scanned.induct (P := Payer) (hnew _) (fun w _ _ => hnew _) ?_ h
  intro w φ w' φ' _ ih hstep
  cases hstep with
  | mine _ events c hidle hmine => exact ⟨ih.blank, ih.initialized, ih.owner, ih.payouts⟩
  | begin b hlt hb hsteady => exact ⟨ih.blank, fun h => (by cases h), ih.owner, ih.payouts⟩
  | renew b r hinit hblank =>
      refine ⟨ih.blank, ih.initialized, ?_, ih.payouts⟩
      calc r.ownerAddress = none := hblank.2.2.1
        _ = toldOwner w.stakes := by rw [ih.blank hinit]; rfl
  | start b hinit => exact ⟨ih.blank, fun _ => hinit, ih.owner, ih.payouts⟩
  | initialized b => exact ⟨fun h => (by cases h), fun h => (by cases h), ih.owner, ih.payouts⟩
  | other _ r hfail hsame =>
      exact ⟨ih.blank, ih.initialized, hsame.2.2.1.trans ih.owner, ih.payouts⟩
  | refresh b h events e rest hh =>
      have hinit := ih.initialized rfl
      refine ⟨fun hnot => ?_, ih.initialized, ?_, ih.payouts⟩
      · rw [show w.initialized = false from hnot] at hinit
        cases hinit
      · exact refreshed_ownerAddress _ _ ih.owner
  | pay e φ d hd =>
      refine ⟨ih.blank, ih.initialized, ih.owner, fun p hp => ?_⟩
      rcases List.mem_append.mp hp with hold | hnew
      · exact ih.payouts p hold
      · obtain rfl := List.mem_singleton.mp hnew
        exact hd.trans ih.owner
  | finish _ hend => exact ⟨ih.blank, fun h => (by cases h), ih.owner, ih.payouts⟩
  | _ => exact ⟨ih.blank, ih.initialized, ih.owner, ih.payouts⟩

/-! ## The flags -/

/-- The flags about the stake are those of the entry, unless nothing is staked. -/
def Reflects (r : RegistrationManager) (info : StakeInfo) : Prop :=
  info.stake ≠ 0 → r.stake = info.stake.toNat ∧ r.isStakeLocked = (info.withdrawBlock == 0)

/-- How far a round has come with the flags. -/
def Phase.Believes (manager : Address) (w : Watch) : Phase → Prop
  | .idle | .begun _ | .started _ | .fetched _ _ | .passed _ _ => True
  | .handling b _ rest =>
      (∀ e ∈ rest, w.lastScannedBlock < e.blockNumber) ∧
        (rest ≠ [] ∨ Reflects w.registrationManager (w.chain.stakeAt manager b))
  | .refreshed b _ e rest =>
      (∀ e' ∈ e :: rest, w.lastScannedBlock < e'.blockNumber) ∧
        Reflects w.registrationManager (w.chain.stakeAt manager b)
  | .paying _ next => next.Believes manager w
  | .due b _ _ | .scanned b _ | .stored b _ | .alerting b _ =>
      Reflects w.registrationManager (w.chain.stakeAt manager b)

/-- A round whose events have been handled has not taken the server for registered without the
stake, unless nothing was staked. -/
def BelievedRightly (cfg : Config) (c : Chain) (r : Round) : Prop :=
  r.scanned = some true → (c.stakeAt cfg.managerAddress r.blockNumber).stake ≠ 0 →
    cfg.managerMinStake ≤ (c.stakeAt cfg.managerAddress r.blockNumber).stake.toNat ∧
      (c.stakeAt cfg.managerAddress r.blockNumber).withdrawBlock = 0

/-- What the flags of a steady scanner tell. -/
structure Believer (cfg : Config) (w : Watch) (φ : Phase) : Prop where
  scanned : w.lastScannedBlock ≤ w.chain.blockNumber
  blank : w.initialized = false → w.lastScannedBlock = 0
  last : (∃ e ∈ w.chain.log, isStakeEvent e = true ∧ w.lastScannedBlock < e.blockNumber) ∨
    Reflects w.registrationManager (w.chain.stakeAt cfg.managerAddress w.lastScannedBlock)
  phase : φ.Believes cfg.managerAddress w
  rounds : ∀ r ∈ w.rounds, r.blockNumber ≤ w.chain.blockNumber ∧ BelievedRightly cfg w.chain r

/-- Writing the round that is going on keeps what holds of all rounds but the flags. -/
theorem Believer.of_inLatest {w : Watch} {φ φ' : Phase} {f : Round → Round} (h : Believer cfg w φ)
    (hblock : ∀ r, (f r).blockNumber = r.blockNumber) (hscanned : ∀ r, (f r).scanned = r.scanned)
    (hphase : φ'.Believes cfg.managerAddress w) : Believer cfg (w.inRound f) φ' where
  scanned := h.scanned
  blank := h.blank
  last := h.last
  phase := by
    induction φ' with
    | paying e next ih => exact ih hphase
    | _ => exact hphase
  rounds := by
    refine forall_inLatest h.rounds fun r _ _ hr => ?_
    unfold BelievedRightly
    rw [hblock, hscanned]
    exact hr

theorem stakeAt_zero {c : Chain} (hsound : c.Sound cfg.managerAddress) :
    c.stakeAt cfg.managerAddress 0 = StakeInfo.zero := by
  have hnone : c.upTo 0 = [] := by
    apply List.filter_eq_nil_iff.mpr
    intro e he
    have hpos := (hsound.mined e he).1
    simp only [decide_eq_true_eq]
    omega
  unfold Chain.stakeAt
  rw [hnone]
  rfl

/-- A process without a scan knows nothing, and there is nothing to know. -/
theorem reflects_zero {c : Chain} (hsound : c.Sound cfg.managerAddress)
    (r : RegistrationManager) : Reflects r (c.stakeAt cfg.managerAddress 0) := by
  rw [stakeAt_zero hsound]
  exact fun h => absurd rfl h

theorem Reflects.of_same {r r' : RegistrationManager} {info : StakeInfo} (h : Reflects r info)
    (hstake : r'.stake = r.stake) (hlocked : r'.isStakeLocked = r.isStakeLocked) :
    Reflects r' info := by
  intro hne
  rw [hstake, hlocked]
  exact h hne

theorem reflects_refreshed (r : RegistrationManager) (info : StakeInfo) :
    Reflects (r.refreshed info) info := by
  intro hne
  unfold RegistrationManager.refreshed
  rw [if_neg hne]
  exact ⟨rfl, rfl⟩

/-- Without new events of the stake the flags stay right. -/
theorem Reflects.quiet {c : Chain} (hsound : c.Sound cfg.managerAddress)
    {r : RegistrationManager} {a b : Nat} (hab : a ≤ b)
    (hquiet : ∀ e ∈ c.between a b, isStakeEvent e = false)
    (h : Reflects r (c.stakeAt cfg.managerAddress a)) :
    Reflects r (c.stakeAt cfg.managerAddress b) := by
  intro hne
  have heq := Chain.stakeAt_quiet hsound hab hquiet hne
  rw [heq] at hne ⊢
  exact h hne

theorem Phase.Believes.of_same {w w' : Watch} {φ : Phase} (h : φ.Believes cfg.managerAddress w)
    (hchain : w'.chain = w.chain) (hlast : w'.lastScannedBlock = w.lastScannedBlock)
    (hstake : w'.registrationManager.stake = w.registrationManager.stake)
    (hlocked : w'.registrationManager.isStakeLocked = w.registrationManager.isStakeLocked) :
    φ.Believes cfg.managerAddress w' := by
  induction φ with
  | handling b events rest =>
      refine ⟨?_, h.2.imp id fun hr => ?_⟩
      · rw [hlast]
        exact h.1
      · rw [hchain]
        exact hr.of_same hstake hlocked
  | refreshed b events e rest =>
      refine ⟨?_, ?_⟩
      · rw [hlast]
        exact h.1
      · rw [hchain]
        exact h.2.of_same hstake hlocked
  | paying e next ih => exact ih h
  | due b events rest | scanned b events | stored b events | alerting b rest =>
      unfold Phase.Believes
      rw [hchain]
      exact Reflects.of_same h hstake hlocked
  | _ => trivial

/-- Writing fields of the registration manager that are not flags. -/
theorem Believer.of_registration {w : Watch} {φ φ' : Phase} {r : RegistrationManager}
    (h : Believer cfg w φ) (hphase : φ'.Believes cfg.managerAddress w)
    (hstake : r.stake = w.registrationManager.stake)
    (hlocked : r.isStakeLocked = w.registrationManager.isStakeLocked) :
    Believer cfg (w.registration fun _ => r) φ' where
  scanned := h.scanned
  blank := h.blank
  last := h.last.imp id fun hr => hr.of_same hstake hlocked
  phase := hphase.of_same rfl rfl hstake hlocked
  rounds := h.rounds

/-- One step of a steady scanner. -/
theorem Believer.step {w w' : Watch} {φ φ' : Phase} (ih : Believer cfg w φ)
    (hscanned : Scanned cfg true w φ) (hstep : Scan cfg true w φ w' φ') : Believer cfg w' φ' := by
  have hsound := hscanned.sound
  have hcurrent := hscanned.current
  have hknows := hscanned.withdrawer.knows
  cases hstep with
  | mine _ events c hidle hmine =>
      obtain rfl := hidle rfl
      obtain ⟨hnumber, hlog, -⟩ := Chain.mine_eq _ hmine
      refine ⟨?_, ih.blank, ?_, trivial, fun r hr => ⟨?_, ?_⟩⟩
      · exact Nat.le_trans ih.scanned (by rw [hnumber]; exact Nat.le_succ _)
      · rcases ih.last with ⟨e, he, hnew⟩ | hlast
        · exact Or.inl ⟨e, by rw [hlog]; exact List.mem_append_left _ he, hnew⟩
        · exact Or.inr (by rw [Chain.stakeAt_mine hmine ih.scanned]; exact hlast)
      · exact Nat.le_trans (ih.rounds r hr).1 (by rw [hnumber]; exact Nat.le_succ _)
      · unfold BelievedRightly
        rw [Chain.stakeAt_mine hmine (ih.rounds r hr).1]
        exact (ih.rounds r hr).2
  | begin b hlt hb hsteady =>
      refine ⟨ih.scanned, ih.blank, ih.last, trivial, fun r hr => ?_⟩
      rcases List.mem_cons.mp hr with rfl | hr
      · exact ⟨hb, fun h => by cases h⟩
      · exact ih.rounds r hr
  | renew b r hinit hblank =>
      refine ⟨ih.scanned, ih.blank, Or.inr ?_, trivial, ih.rounds⟩
      change Reflects _ (w.chain.stakeAt cfg.managerAddress w.lastScannedBlock)
      rw [ih.blank hinit]
      exact reflects_zero hsound _
  | initialized b => exact ⟨ih.scanned, fun h => (by cases h), ih.last, trivial, ih.rounds⟩
  | start b hinit => exact ⟨ih.scanned, ih.blank, ih.last, trivial, ih.rounds⟩
  | other _ r hfail hsame => exact ih.of_registration ih.phase hsame.1 hsame.2.1
  | fetch b h events hh hevents =>
      exact ⟨ih.scanned, ih.blank, ih.last, trivial, ih.rounds⟩
  | pass b events => exact ih.of_inLatest (fun _ => rfl) (fun _ => rfl) trivial
  | scanStakes b h events found hh hfound =>
      obtain ⟨-, hb, -⟩ := hcurrent b rfl
      -- no block is mined during a round of a steady run, so the query ends at its block
      have hnow : h = w.chain.blockNumber := by
        have hb' := hb rfl
        have hle := hh.1
        have hle' := hh.2
        omega
      refine ih.of_inLatest (fun _ => rfl) (fun _ => rfl) ⟨fun e he => ?_, ?_⟩
      · rw [hfound] at he
        exact (Chain.mem_query.mp he).2.2.1
      -- without a stake event since the last scan the stake is what it was then
      · by_cases hfound' : found = []
        · refine Or.inr ?_
          have hquiet : ∀ e ∈ w.chain.log, isStakeEvent e = true →
              ¬ w.lastScannedBlock < e.blockNumber := by
            intro e he hevent hlt
            have hmem : e ∈ found := by
              rw [hfound, hnow]
              exact Chain.mem_query.mpr ⟨he, hevent, hlt, (hsound.mined e he).2⟩
            rw [hfound'] at hmem
            exact List.not_mem_nil hmem
          rcases ih.last with ⟨e, he, hevent, hlt⟩ | hlast
          · exact absurd hlt (hquiet e he hevent)
          · refine Reflects.quiet hsound (hb rfl ▸ ih.scanned) (fun e he => ?_) hlast
            obtain ⟨hlog, hlt, -⟩ := Chain.mem_between.mp he
            exact eq_false_of_ne_true fun hevent => hquiet e hlog hevent hlt
        · exact Or.inl hfound'
  | refresh b h events e rest hh =>
      obtain ⟨-, hb, -⟩ := hcurrent b rfl
      -- the stake is read in the block of the round
      have hnow : h = b := by
        have hb' := hb rfl
        have hle := hh.1
        have hle' := hh.2
        omega
      have hnew := hknows e List.mem_cons_self
      refine ⟨ih.scanned, ih.blank, Or.inl ⟨e, hnew.1, hnew.2, ?_⟩, ⟨ih.phase.1, ?_⟩, ih.rounds⟩
      · exact ih.phase.1 e List.mem_cons_self
      · rw [hnow]
        exact reflects_refreshed _ _
  | added b events e rest he =>
      exact ⟨ih.scanned, ih.blank, ih.last,
        ⟨fun e' he' => ih.phase.1 e' (List.mem_cons_of_mem _ he'), Or.inr ih.phase.2⟩, ih.rounds⟩
  | delay b events e rest relayManager owner withdrawBlock he =>
      exact ih.of_registration
        ⟨fun e' he' => ih.phase.1 e' (List.mem_cons_of_mem _ he'), Or.inr ih.phase.2⟩ rfl rfl
  | withdraw b events e rest he =>
      exact ih.of_inLatest (fun _ => rfl) (fun _ => rfl)
        ⟨fun e' he' => ih.phase.1 e' (List.mem_cons_of_mem _ he'), Or.inr ih.phase.2⟩
  | pay e φ d hd =>
      have hphase : φ.Believes cfg.managerAddress w := ih.phase
      exact ⟨ih.scanned, ih.blank, ih.last, hphase.of_same rfl rfl rfl rfl, ih.rounds⟩
  | paid e φ => exact ⟨ih.scanned, ih.blank, ih.last, ih.phase, ih.rounds⟩
  | skip b events e rest he =>
      have hevent := (hknows e List.mem_cons_self).2
      rw [he] at hevent
      cases hevent
  | extract b events =>
      have hreflects : Reflects w.registrationManager (w.chain.stakeAt cfg.managerAddress b) :=
        ih.phase.2.resolve_left fun h => h rfl
      exact ih.of_registration hreflects rfl rfl
  | unlock b events e rest he => exact ih.of_inLatest (fun _ => rfl) (fun _ => rfl) ih.phase
  | skipDue b events e rest he => exact ⟨ih.scanned, ih.blank, ih.last, ih.phase, ih.rounds⟩
  | scanned b events =>
      refine ⟨ih.scanned, ih.blank, ih.last, ih.phase, ?_⟩
      refine forall_inLatest ih.rounds fun r past hrounds hr => ⟨hr.1, fun hreg hne => ?_⟩
      obtain ⟨-, -, r', past', hrounds', hblock⟩ := hcurrent b rfl
      obtain ⟨rfl, -⟩ := List.cons.inj (hrounds.symm.trans hrounds')
      have hregistered := Option.some.inj hreg
      -- what `isRegistered` reads is the stake of the block of the round
      unfold RegistrationManager.isRegistered at hregistered
      obtain ⟨⟨hstake, hlocked⟩, -⟩ : (_ ∧ _) ∧ _ := by
        simpa only [Bool.and_eq_true] using hregistered
      obtain ⟨hstake', hlocked'⟩ := ih.phase (by rw [← hblock]; exact hne)
      change cfg.managerMinStake ≤
          (w.chain.stakeAt cfg.managerAddress r.blockNumber).stake.toNat ∧
        (w.chain.stakeAt cfg.managerAddress r.blockNumber).withdrawBlock = 0
      rw [hblock]
      constructor
      · rw [← hstake']
        exact of_decide_eq_true hstake
      · rw [hlocked] at hlocked'
        exact eq_of_beq hlocked'.symm
  | store b events =>
      obtain ⟨hb, -, -⟩ := hcurrent b rfl
      refine ⟨hb, fun h => ?_, Or.inr ih.phase, ih.phase, ?_⟩
      · have hinit := hscanned.payer.initialized rfl
        rw [show w.initialized = false from h] at hinit
        cases hinit
      · exact forall_inLatest ih.rounds fun r _ _ hr => hr
  | registered b events hr => exact ⟨ih.scanned, ih.blank, ih.last, ih.phase, ih.rounds⟩
  | alert b e rest he => exact ih.of_inLatest (fun _ => rfl) (fun _ => rfl) ih.phase
  | skipAlert b e rest he => exact ⟨ih.scanned, ih.blank, ih.last, ih.phase, ih.rounds⟩
  | finish _ hend => exact ⟨ih.scanned, ih.blank, ih.last, trivial, ih.rounds⟩

theorem Scanned.believer {w : Watch} {φ : Phase} (h : Scanned cfg true w φ) :
    Believer cfg w φ := by
  have hnew : ∀ c : Chain, c.Sound cfg.managerAddress → Believer cfg (.fresh c) .idle := fun c hc =>
    ⟨Nat.zero_le _, fun _ => rfl, Or.inr (reflects_zero hc _), trivial,
      fun _ hr => (List.not_mem_nil hr).elim⟩
  induction h with
  | start => exact hnew _ (Chain.genesis_sound _)
  | restart w φ hw _ => exact hnew _ hw.sound
  | step w φ w' φ' hw hstep ih => exact ih.step hw hstep

end RifRelay.Server
