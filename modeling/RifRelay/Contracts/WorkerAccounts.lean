import RifRelay.Contracts.HubEffects
import RifRelay.Contracts.StakeSafety
import RifRelay.Workers.Roster

set_option autoImplicit false

/-! # Workers and their managers

The entries of `workerToManager` are a roster: a free worker has the entry `0`, an enabled or
disabled one that of its manager (`encode`). Every message that goes through moves the roster
as its rules allow (`Effect.roster`), so what holds of rosters holds of the hub:

* `worker_accounting` — the counter of a manager counts its enabled workers;
* `worker_assignment` — a worker keeps its manager, and what is relayed or penalized is on
  account of that manager.

The zero address sends nothing: there is no key for it.
-/

namespace RifRelay

open CallMachine

namespace RelayHub

open EnvelopingTypes

/-! ## Entries -/

theorem entryManager_enabledWorker (m : Address) : entryManager (enabledWorker m) = m := by
  unfold entryManager enabledWorker wordAddress addressWord
  ext i hi
  have h₁ : 4 + i < 256 := by omega
  have h₂ : i < 256 := by omega
  simp [h₁, h₂, BitVec.getLsbD_eq_getElem hi]

theorem entryManager_disabledWorker (m : Address) : entryManager (disabledWorker m) = m := by
  unfold entryManager disabledWorker wordAddress addressWord
  ext i hi
  have h₁ : 4 + i < 256 := by omega
  have h₂ : i < 256 := by omega
  simp [h₁, h₂, BitVec.getLsbD_eq_getElem hi]

theorem isWorkerEnabled_enabledWorker (m : Address) : isWorkerEnabled (enabledWorker m) = true := by
  unfold isWorkerEnabled enabledWorker
  rw [beq_iff_eq]
  ext i hi
  simp
  omega

theorem isWorkerEnabled_disabledWorker (m : Address) :
    isWorkerEnabled (disabledWorker m) = false := by
  unfold isWorkerEnabled disabledWorker
  rw [beq_eq_false_iff_ne]
  intro h
  have hbit := congrArg (BitVec.getLsbD · 0) h
  simp at hbit

/-- The entry of a worker with a status. -/
def encode : Roster.Status Address → Word
  | .free => 0
  | .enabled m => enabledWorker m
  | .disabled m => disabledWorker m

/-- A status the entry tells: a worker of the zero address would look free when disabled. -/
def Proper (s : Roster.Status Address) : Prop := s ≠ .disabled 0

theorem proper_enabled (m : Address) : Proper (.enabled m) := by
  intro h
  cases h

theorem proper_free : Proper .free := by
  intro h
  cases h

theorem enabledWorker_ne_zero (m : Address) : enabledWorker m ≠ 0 := by
  intro h
  have henabled := isWorkerEnabled_enabledWorker m
  rw [h] at henabled
  exact absurd henabled (by decide)

theorem disabledWorker_ne_zero {m : Address} (hm : m ≠ 0) : disabledWorker m ≠ 0 := by
  intro h
  have hmanager := entryManager_disabledWorker m
  rw [h] at hmanager
  exact hm (hmanager.symm.trans (by decide))

theorem encode_eq_zero {s : Roster.Status Address} (hs : Proper s) : encode s = 0 ↔ s = .free := by
  constructor
  · intro h
    cases s with
    | free => rfl
    | enabled m => exact absurd h (enabledWorker_ne_zero m)
    | disabled m =>
        refine absurd h (disabledWorker_ne_zero ?_)
        rintro rfl
        exact hs rfl
  · rintro rfl
    rfl

theorem encode_eq_enabled {s : Roster.Status Address} {m : Address} :
    encode s = enabledWorker m ↔ s = .enabled m := by
  constructor
  · intro h
    have henabled := isWorkerEnabled_enabledWorker m
    rw [← h] at henabled
    cases s with
    | free => exact absurd henabled (by decide)
    | enabled m' =>
        have hm := congrArg entryManager h
        rw [encode, entryManager_enabledWorker, entryManager_enabledWorker] at hm
        rw [hm]
    | disabled m' =>
        rw [encode, isWorkerEnabled_disabledWorker] at henabled
        cases henabled
  · rintro rfl
    rfl

theorem encode_enabled {s : Roster.Status Address} (h : isWorkerEnabled (encode s) = true) :
    s = .enabled (entryManager (encode s)) := by
  cases s with
  | free => exact absurd h (by decide)
  | enabled m => rw [encode, entryManager_enabledWorker]
  | disabled m =>
      rw [encode, isWorkerEnabled_disabledWorker] at h
      cases h

/-- The manager of an entry is that of the status. -/
theorem encode_manager {s : Roster.Status Address} {m : Address} (h : s.manager = some m) :
    entryManager (encode s) = m := by
  cases s with
  | free => cases h
  | enabled m' =>
      rw [encode, entryManager_enabledWorker]
      exact Option.some.inj h
  | disabled m' =>
      rw [encode, entryManager_disabledWorker]
      exact Option.some.inj h

theorem encode_ne_zero {s : Roster.Status Address} (h : encode s ≠ 0) :
    s.manager = some (entryManager (encode s)) := by
  cases s with
  | free => exact absurd rfl h
  | enabled m => rw [encode, entryManager_enabledWorker]; rfl
  | disabled m => rw [encode, entryManager_disabledWorker]; rfl

/-! ## The roster of a hub -/

/-- The entries of the hub are those of the roster. -/
def Represents (hub : RelayHub) (roster : Address → Roster.Status Address) : Prop :=
  ∀ w, hub.workerToManager w = encode (roster w) ∧ Proper (roster w)

theorem represents_update {entries : Address → Word} {roster : Address → Roster.Status Address}
    (h : ∀ w, entries w = encode (roster w) ∧ Proper (roster w)) (v : Address)
    {t : Roster.Status Address} (ht : Proper t) (w : Address) :
    Function.update entries v (encode t) w = encode (Function.update roster v t w) ∧
      Proper (Function.update roster v t w) := by
  by_cases hw : w = v
  · subst hw
    rw [Function.update_self, Function.update_self]
    exact ⟨rfl, ht⟩
  · rw [Function.update_of_ne hw, Function.update_of_ne hw]
    exact h w

theorem addAll_roster {manager : Address} {workers : List Address}
    {entries entries' : Address → Word}
    {roster : Address → Roster.Status Address}
    (h : ∀ w, entries w = encode (roster w) ∧ Proper (roster w))
    (hadd : addAll manager entries workers = some entries') :
    ∃ roster', Roster.changeAll .free (.enabled manager) roster workers = some roster' ∧
      ∀ w, entries' w = encode (roster' w) ∧ Proper (roster' w) := by
  induction workers generalizing entries roster with
  | nil =>
      obtain rfl : entries = entries' := Option.some.inj hadd
      exact ⟨roster, rfl, h⟩
  | cons w rest ih =>
      rw [addAll] at hadd
      split at hadd
      · next hfree =>
          rw [(h w).1, encode_eq_zero (h w).2] at hfree
          obtain ⟨roster', hchange, hrep⟩ :=
            ih (represents_update h w (proper_enabled manager)) hadd
          exact ⟨roster', by rw [Roster.changeAll, if_pos hfree, hchange], hrep⟩
      · cases hadd

theorem disableAll_roster {manager : Address} (hmanager : manager ≠ 0) {workers : List Address}
    {entries entries' : Address → Word} {roster : Address → Roster.Status Address}
    (h : ∀ w, entries w = encode (roster w) ∧ Proper (roster w))
    (hdisable : disableAll manager entries workers = some entries') :
    ∃ roster', Roster.changeAll (.enabled manager) (.disabled manager) roster workers =
        some roster' ∧
      ∀ w, entries' w = encode (roster' w) ∧ Proper (roster' w) := by
  induction workers generalizing entries roster with
  | nil =>
      obtain rfl : entries = entries' := Option.some.inj hdisable
      exact ⟨roster, rfl, h⟩
  | cons w rest ih =>
      rw [disableAll] at hdisable
      split at hdisable
      · next henabled =>
          rw [(h w).1, encode_eq_enabled] at henabled
          have hproper : Proper (.disabled manager) := by
            intro heq
            injection heq with hzero
            exact hmanager hzero
          obtain ⟨roster', hchange, hrep⟩ := ih (represents_update h w hproper) hdisable
          exact ⟨roster', by rw [Roster.changeAll, if_pos henabled, hchange], hrep⟩
      · cases hdisable

/-- How a message moves the roster. -/
def workerMove (msg : Msg) : Roster.Move Address Address :=
  match msg.data with
  | .addRelayWorkers newRelayWorkers => .enroll msg.sender newRelayWorkers
  | .disableRelayWorkers relayWorkers => .dismiss msg.sender relayWorkers
  | _ => .idle

/-- **A message moves the roster as its rules allow.** -/
theorem Effect.roster {msg : Msg} {hub hub' : RelayHub} {r : Address → Roster.Status Address}
    (h : Effect msg hub hub') (hsender : msg.sender ≠ 0) (hrep : Represents hub r) :
    ∃ r', Roster.Step (workerMove msg) r r' ∧ Represents hub' r' := by
  unfold workerMove
  cases h with
  | disableRelayWorkers relayWorkers entries hdata hvalue hcount hstaked hentries =>
      obtain ⟨r', hchange, hrep'⟩ := disableAll_roster hsender hrep hentries
      rw [hdata]
      exact ⟨r', .dismiss _ _ hchange, hrep'⟩
  | addRelayWorkers newRelayWorkers entries hdata hvalue hcount hstaked hentries =>
      obtain ⟨r', hchange, hrep'⟩ := addAll_roster hrep hentries
      rw [hdata]
      exact ⟨r', .enroll _ _ hchange, hrep'⟩
  | registerRelayServer url hdata => rw [hdata]; exact ⟨r, .idle r, hrep⟩
  | deployCall request signature hdata => rw [hdata]; exact ⟨r, .idle r, hrep⟩
  | relayCall request signature hdata => rw [hdata]; exact ⟨r, .idle r, hrep⟩
  | penalize w b m hdata => rw [hdata]; exact ⟨r, .idle r, hrep⟩
  | stakeForAddress m delay hdata => rw [hdata]; exact ⟨r, .idle r, hrep⟩
  | unlockStake m hdata => rw [hdata]; exact ⟨r, .idle r, hrep⟩
  | withdrawStake m hdata => rw [hdata]; exact ⟨r, .idle r, hrep⟩
  | isRelayManagerStaked m hdata => rw [hdata]; exact ⟨r, .idle r, hrep⟩

/-! ## Histories -/

variable {χ : Type} {E : Env} {O : Outside E χ} {w₀ : World χ} {H : Address}

/-- How an entry of the history moves the roster of the hub at `H`. -/
def hubMove (H : Address) (e : Entry (World χ) Msg) : Roster.Move Address Address :=
  if e.msg.self = H then workerMove e.msg else .idle

/-- The manager `m` adds the worker `w`. -/
def Adds (H m w : Address) (e : Entry (World χ) Msg) : Prop :=
  e.msg.self = H ∧ e.msg.sender = m ∧ ∃ workers, e.msg.data = .addRelayWorkers workers ∧ w ∈ workers

/-- The manager `m` disables the worker `w`. -/
def Disables (H m w : Address) (e : Entry (World χ) Msg) : Prop :=
  e.msg.self = H ∧ e.msg.sender = m ∧
    ∃ workers, e.msg.data = .disableRelayWorkers workers ∧ w ∈ workers

theorem enrolls_iff {e : Entry (World χ) Msg} {m w : Address} :
    (hubMove H e).Enrolls m w ↔ Adds H m w e := by
  unfold hubMove workerMove Adds
  split
  · next hself =>
      split
      · next workers hdata => simp [Roster.Move.Enrolls, hself, hdata]
      · next workers hdata => simp [Roster.Move.Enrolls, hdata]
      · next hadd hdisable =>
          refine ⟨False.elim, ?_⟩
          rintro ⟨-, -, workers, hdata, -⟩
          exact hadd workers hdata
  · next hself => simp [Roster.Move.Enrolls, hself]

theorem dismisses_iff {e : Entry (World χ) Msg} {m w : Address} :
    (hubMove H e).Dismisses m w ↔ Disables H m w e := by
  unfold hubMove workerMove Disables
  split
  · next hself =>
      split
      · next workers hdata => simp [Roster.Move.Dismisses, hdata]
      · next workers hdata => simp [Roster.Move.Dismisses, hself, hdata]
      · next hadd hdisable =>
          refine ⟨False.elim, ?_⟩
          rintro ⟨-, -, workers, hdata, -⟩
          exact hdisable workers hdata
  · next hself => simp [Roster.Move.Dismisses, hself]

/-! ## Counting workers -/

/-- How a message changes the counters, in words that may wrap. -/
theorem Effect.counts {msg : Msg} {hub hub' : RelayHub} (h : Effect msg hub hub') (m : Address) :
    hub'.workerCount m + BitVec.ofNat 256 ((workerMove msg).fired m) =
      hub.workerCount m + BitVec.ofNat 256 ((workerMove msg).hired m) := by
  unfold workerMove
  cases h with
  | disableRelayWorkers relayWorkers entries hdata =>
      rw [hdata]
      by_cases hm : msg.sender = m
      · subst hm
        simp [Roster.Move.fired, Roster.Move.hired]
      · simp [Roster.Move.fired, Roster.Move.hired, hm, Ne.symm hm]
  | addRelayWorkers newRelayWorkers entries hdata =>
      rw [hdata]
      by_cases hm : msg.sender = m
      · subst hm
        simp [Roster.Move.fired, Roster.Move.hired]
      · simp [Roster.Move.fired, Roster.Move.hired, hm, Ne.symm hm]
  | registerRelayServer url hdata => rw [hdata]; rfl
  | deployCall request signature hdata => rw [hdata]; rfl
  | relayCall request signature hdata => rw [hdata]; rfl
  | penalize w b m hdata => rw [hdata]; rfl
  | stakeForAddress m delay hdata => rw [hdata]; rfl
  | unlockStake m hdata => rw [hdata]; rfl
  | withdrawStake m hdata => rw [hdata]; rfl
  | isRelayManagerStaked m hdata => rw [hdata]; rfl

/-- No message lifts a counter over the maximum. -/
theorem Effect.capped {msg : Msg} {hub hub' : RelayHub} (h : Effect msg hub hub')
    (hcap : ∀ m, hub.workerCount m ≤ hub.maxWorkerCount) (m : Address) :
    hub'.workerCount m ≤ hub'.maxWorkerCount := by
  cases h with
  | disableRelayWorkers relayWorkers entries hdata hvalue hcount =>
      by_cases hm : m = msg.sender
      · subst hm
        refine BitVec.le_trans ?_ (hcap msg.sender)
        simp only [setWorkerCount_workerCount, Function.update_self]
        rw [BitVec.le_def] at hcount ⊢
        rw [BitVec.toNat_sub_of_le (BitVec.le_def.mpr hcount)]
        exact Nat.sub_le _ _
      · simpa [hm] using hcap m
  | addRelayWorkers newRelayWorkers entries hdata hvalue hcount =>
      by_cases hm : m = msg.sender
      · subst hm
        simpa using hcount
      · simpa [hm] using hcap m
  | registerRelayServer url hdata => exact hcap m
  | deployCall request signature hdata => exact hcap m
  | relayCall request signature hdata => exact hcap m
  | penalize w b m hdata => exact hcap _
  | stakeForAddress m delay hdata => exact hcap _
  | unlockStake m hdata => exact hcap _
  | withdrawStake m hdata => exact hcap _
  | isRelayManagerStaked m hdata => exact hcap _

/-- The counters count the enabled workers. -/
def Counted (hub : RelayHub) (r : Address → Roster.Status Address) : Prop :=
  ∀ m, (hub.workerCount m).toNat = (Roster.staff r m).card ∧
    hub.workerCount m ≤ hub.maxWorkerCount

theorem card_staff_lt (r : Address → Roster.Status Address) (m : Address) :
    (Roster.staff r m).card < 2 ^ 256 := by
  have hle := Finset.card_le_univ (Roster.staff r m)
  have hcard : Fintype.card Address = 2 ^ 160 := by
    rw [Fintype.card_congr BitVec.equivFin.toEquiv, Fintype.card_fin]
  rw [hcard] at hle
  exact Nat.lt_of_le_of_lt hle (Nat.pow_lt_pow_right (by decide) (by decide))

theorem Effect.counted {msg : Msg} {hub hub' : RelayHub} {r r' : Address → Roster.Status Address}
    (h : Effect msg hub hub') (hstep : Roster.Step (workerMove msg) r r') (hcount : Counted hub r) :
    Counted hub' r' := by
  intro m
  refine ⟨?_, h.capped (fun m => (hcount m).2) m⟩
  have hwords := congrArg BitVec.toNat (h.counts m)
  rw [BitVec.toNat_add, BitVec.toNat_add, BitVec.toNat_ofNat, BitVec.toNat_ofNat,
    (hcount m).1] at hwords
  have hcard := hstep.card_staff m
  have hlt := card_staff_lt r' m
  have hlt' := (hub'.workerCount m).isLt
  omega

/-! ## Runs -/

/-- The roster tells the entries and the counters of the hub. -/
structure OnRoster (hub : RelayHub) (r : Address → Roster.Status Address) : Prop where
  entries : Represents hub r
  counted : Counted hub r

theorem Acts.roster {e : Entry (World χ) Msg} {hub hub' : RelayHub}
    {r : Address → Roster.Status Address} (h : Acts H e hub hub') (hsender : e.msg.sender ≠ 0)
    (hr : OnRoster hub r) : ∃ r', Roster.Step (hubMove H e) r r' ∧ OnRoster hub' r' := by
  unfold hubMove
  split
  · next hself =>
      obtain ⟨r', hstep, hentries⟩ := (h.own hself).roster hsender hr.entries
      exact ⟨r', hstep, hentries, (h.own hself).counted hstep hr.counted⟩
  · next hself =>
      rw [h.other hself]
      exact ⟨r, .idle r, hr⟩

/-- A history of the hub is a history of its roster. -/
theorem roster_path {l : List (Entry (World χ) Msg)} {hub hub' : RelayHub}
    {r : Address → Roster.Status Address} (h : EventPath (Acts H) hub l hub')
    (hsender : ∀ e ∈ l, e.msg.sender ≠ 0) (hr : OnRoster hub r) :
    ∃ r', EventPath Roster.Step r (l.map (hubMove H)) r' ∧ OnRoster hub' r' :=
  h.simulate (hubMove H) (fun e he _ _ _ hacts hr => hacts.roster (hsender e he) hr) hr

/-- A fresh hub has no workers. -/
theorem Fresh.roster (h : Fresh E w₀ H) : OnRoster (w₀.hubs H) (fun _ => .free) := by
  obtain ⟨a₁, a₂, a₃, a₄, a₅, hc⟩ := h.construct
  unfold RelayHub.construct at hc
  split at hc
  · rw [← Option.some.inj hc]
    refine ⟨fun w => ⟨rfl, proper_free⟩, fun m => ⟨?_, BitVec.le_def.mpr (Nat.zero_le _)⟩⟩
    simp [Roster.staff, Roster.having]
  · cases hc

/-- **Worker accounting.** At every point of every run the counter of each manager is the
number of its enabled workers and at most the maximum, and a message that fails changes
nothing. -/
theorem worker_accounting (hfresh : Fresh E w₀ H) {b : Word} {point : Option Msg}
    {c : ChainConf χ} (hc : Point E O w₀ b point c) (hsender : ∀ e ∈ c.trace, e.msg.sender ≠ 0) :
    (∀ m, ((c.state.hubs H).workerCount m).toNat =
        (Finset.univ.filter fun w => (c.state.hubs H).workerToManager w = enabledWorker m).card ∧
      (c.state.hubs H).workerCount m ≤ (c.state.hubs H).maxWorkerCount) ∧
    ∀ depth static g msg reason,
      (exec (machine E O) depth static g msg c).value = .error reason →
      (exec (machine E O) depth static g msg c).conf.state = c.state := by
  obtain ⟨creation, hcode⟩ := hfresh.code
  have hinv := effects_point hcode hfresh.codeless hc
  obtain ⟨r, -, hentries, hcounted⟩ := roster_path hinv.path hsender hfresh.roster
  refine ⟨fun m => ⟨?_, (hcounted m).2⟩, ?_⟩
  · rw [(hcounted m).1]
    refine congrArg Finset.card (Finset.ext fun w => ?_)
    rw [Roster.staff, Roster.mem_having, Finset.mem_filter, (hentries w).1, encode_eq_enabled]
    simp
  · intro depth static g msg reason herror
    rw [exec_error herror]
    rfl

/-! A run in which the manager `0x0c`, staked by `0x0a`, adds three workers and disables one. -/

def staffTx (origin : Address) (value : Word) (data : CallData) : Tx :=
  ⟨origin, 1, 10, 0xaa, value, data, 100000⟩

def staffRun : ChainConf Unit :=
  (staffTx 0x0c 0 (.disableRelayWorkers [0x02])).run smallEnv (Outside.silent smallEnv) 8
    ((staffTx 0x0c 0 (.addRelayWorkers [0x01, 0x02, 0x03])).run smallEnv
      (Outside.silent smallEnv) 8
      ((staffTx 0x0a 2000 (.stakeForAddress 0x0c 1000)).run smallEnv (Outside.silent smallEnv) 8
        (Conf.start smallWorld)))

theorem staffRun_settled : Settled smallEnv (Outside.silent smallEnv) smallWorld 10 staffRun :=
  .call (.call (.call (.start 10) (staffTx 0x0a 2000 (.stakeForAddress 0x0c 1000)) 8 (by decide)
        (by decide))
      (staffTx 0x0c 0 (.addRelayWorkers [0x01, 0x02, 0x03])) 8 (by decide) (by decide))
    (staffTx 0x0c 0 (.disableRelayWorkers [0x02])) 8 (by decide) (by decide)

theorem staffRun_senders : ∀ e ∈ staffRun.trace, e.msg.sender ≠ 0 := by
  decide +kernel

/-- Two workers are left. -/
theorem worker_accounting_run :
    ((staffRun.state.hubs 0xaa).workerCount 0x0c).toNat =
      (Finset.univ.filter fun w =>
        (staffRun.state.hubs 0xaa).workerToManager w = enabledWorker 0x0c).card ∧
    (staffRun.state.hubs 0xaa).workerCount 0x0c = 2 :=
  ⟨((worker_accounting smallWorld_fresh (Point.settled staffRun_settled) staffRun_senders).1
    0x0c).1, by decide +kernel⟩

/-! ## Assignment -/

/-- The worker `w` has something relayed by the hub at `H`. -/
def RelaysFor (H w : Address) (e : Entry (World χ) Msg) : Prop :=
  e.msg.self = H ∧ e.msg.sender = w ∧
    ((∃ request signature, e.msg.data = .relayCall request signature) ∨
    ∃ request signature, e.msg.data = .deployCall request signature)

/-- What relaying requires of the worker. -/
theorem Effect.relayed {e : Entry (World χ) Msg} {hub hub' : RelayHub} {w : Address}
    (h : Effect e.msg hub hub') (he : RelaysFor H w e) :
    isWorkerEnabled (hub.workerToManager w) = true ∧
      hub.isRelayManagerStaked (entryManager (hub.workerToManager w)) = true := by
  obtain ⟨-, rfl, ⟨request, signature, hdata⟩ | ⟨request, signature, hdata⟩⟩ := he
  · have hguard : ∃ relayData, RelayGuard e.msg hub relayData := by
      cases h with
      | relayCall request' signature' hdata' hguard => exact ⟨_, hguard⟩
      | _ => simp_all
    obtain ⟨relayData, hguard⟩ := hguard
    exact ⟨hguard.enabled, hguard.staked⟩
  · have hguard : ∃ relayData, RelayGuard e.msg hub relayData := by
      cases h with
      | deployCall request' signature' hdata' hguard => exact ⟨_, hguard⟩
      | _ => simp_all
    obtain ⟨relayData, hguard⟩ := hguard
    exact ⟨hguard.enabled, hguard.staked⟩

/-- What a penalty of a worker does. -/
theorem Effect.penalized {msg : Msg} {hub hub' : RelayHub} {w beneficiary : Address}
    (h : Effect msg hub hub') (hdata : msg.data = .penalize w beneficiary) :
    entryManager (hub.workerToManager w) ≠ 0 ∧
      hub' = hub.setStake (entryManager (hub.workerToManager w))
        { hub.stakes (entryManager (hub.workerToManager w)) with stake := 0 } := by
  cases h with
  | penalize w' b m hdata' hvalue hsender hmanager hknown hstake =>
      rw [hdata] at hdata'
      injection hdata' with hw
      subst hw hmanager
      exact ⟨hknown, rfl⟩
  | _ => simp_all

theorem entry_ne_zero {entry : Word} (h : entryManager entry ≠ 0) : entry ≠ 0 := by
  rintro rfl
  exact h (by decide)

/-- The roster at the `i`-th moment, and the one now. -/
theorem roster_at {hub : RelayHub} {c : ChainConf χ} {r : Address → Roster.Status Address}
    (h : EventPath (Acts H) hub c.trace (c.state.hubs H))
    (hsender : ∀ e ∈ c.trace, e.msg.sender ≠ 0) (hr : OnRoster hub r) (i : Nat) :
    ∃ s t, EventPath Roster.Step r ((c.trace.take i).map (hubMove H)) s ∧
      OnRoster (hubAt H c i) s ∧
      EventPath Roster.Step s ((c.trace.drop i).map (hubMove H)) t ∧
      OnRoster (c.state.hubs H) t := by
  obtain ⟨hbefore, hafter⟩ := path_drop (fun _ _ _ hacts => hacts.pre) h i
  obtain ⟨s, hs, hthen⟩ :=
    roster_path hbefore (fun e he => hsender e (List.mem_of_mem_take he)) hr
  obtain ⟨t, ht, hnow⟩ :=
    roster_path hafter (fun e he => hsender e (List.mem_of_mem_drop he)) hthen
  exact ⟨s, t, hs, hthen, ht, hnow⟩

/-- The worker `w` was added before the `i`-th moment by `m` and by nobody else at any time. -/
def AddedBy (H m w : Address) (c : ChainConf χ) (i : Nat) : Prop :=
  (∃ a ∈ c.trace.take i, Adds H m w a) ∧ ∀ a ∈ c.trace, ∀ m', Adds H m' w a → m' = m

/-- An entry that is not zero tells who has added the worker. -/
theorem addedBy_of_entry {hub : RelayHub} {c : ChainConf χ}
    (h : EventPath (Acts H) hub c.trace (c.state.hubs H))
    (hsender : ∀ e ∈ c.trace, e.msg.sender ≠ 0) (hr : OnRoster hub (fun _ => .free)) {i : Nat}
    {w : Address} (hentry : (hubAt H c i).workerToManager w ≠ 0) :
    AddedBy H (entryManager ((hubAt H c i).workerToManager w)) w c i := by
  obtain ⟨s, t, hbefore, hthen, hafter, -⟩ := roster_at h hsender hr i
  rw [(hthen.entries w).1] at hentry ⊢
  have hmanager := encode_ne_zero hentry
  refine ⟨?_, ?_⟩
  · obtain ⟨move, hmove, henrolls⟩ := Roster.enrolled_of_manager hbefore rfl hmanager
    obtain ⟨a, ha, rfl⟩ := List.mem_map.mp hmove
    exact ⟨a, ha, enrolls_iff.mp henrolls⟩
  · intro a ha m' hadds
    -- whoever adds the worker is its manager in the end, and so is the manager of now
    have hall := (EventPath.append_iff _ _ _ _).mpr ⟨s, hbefore, hafter⟩
    rw [← List.map_append, List.take_append_drop] at hall
    have hlast := Roster.manager_of_enrolls hall (List.mem_map_of_mem ha) (enrolls_iff.mpr hadds)
    rw [(Roster.path_later hafter w).manager hmanager] at hlast
    exact (Option.some.inj hlast).symm

/-- **Worker assignment is permanent.** In every run:

* the entry of a worker, once it is not zero, names the same manager at every later point,
  and once it is disabled it stays as it is;
* whatever a worker has relayed, it was added before by exactly one manager, it has not been
  disabled since, and that manager is staked;
* a penalty of a worker takes the stake of that manager. -/
theorem worker_assignment (hfresh : Fresh E w₀ H) {b : Word} {point : Option Msg}
    {c : ChainConf χ} (hc : Point E O w₀ b point c) (hsender : ∀ e ∈ c.trace, e.msg.sender ≠ 0)
    (w : Address) :
    (∀ i, (hubAt H c i).workerToManager w ≠ 0 →
      (c.state.hubs H).workerToManager w ≠ 0 ∧
        entryManager ((c.state.hubs H).workerToManager w) =
          entryManager ((hubAt H c i).workerToManager w) ∧
        (isWorkerEnabled ((hubAt H c i).workerToManager w) = false →
          (c.state.hubs H).workerToManager w = (hubAt H c i).workerToManager w)) ∧
    (∀ i e, c.trace[i]? = some e → RelaysFor H w e → ∃ m, AddedBy H m w c i ∧
      (∀ d ∈ c.trace.take i, ∀ m', ¬ Disables H m' w d) ∧
      (hubAt H c i).minimumStake ≤ ((hubAt H c i).stakes m).stake ∧
      (hubAt H c i).minimumUnstakeDelay ≤ ((hubAt H c i).stakes m).unstakeDelay ∧
      ((hubAt H c i).stakes m).withdrawBlock = 0) ∧
    ∀ i e beneficiary, c.trace[i]? = some e → e.msg.self = H →
      e.msg.data = .penalize w beneficiary → ∃ m, AddedBy H m w c i ∧
        hubAt H c (i + 1) =
          (hubAt H c i).setStake m { (hubAt H c i).stakes m with stake := 0 } := by
  obtain ⟨creation, hcode⟩ := hfresh.code
  have hpath := (effects_point hcode hfresh.codeless hc).path
  refine ⟨?_, ?_, ?_⟩
  · intro i hentry
    obtain ⟨s, t, -, hthen, hafter, hnow⟩ := roster_at hpath hsender hfresh.roster i
    have hlater := Roster.path_later hafter w
    rw [(hthen.entries w).1] at hentry ⊢
    rw [(hnow.entries w).1]
    have hmanager := encode_ne_zero hentry
    refine ⟨?_, encode_manager (hlater.manager hmanager), ?_⟩
    · intro hzero
      have hsome := hlater.manager hmanager
      rw [(encode_eq_zero (hnow.entries w).2).mp hzero] at hsome
      cases hsome
    · intro hdisabled
      -- an entry that is not enabled stays what it is
      cases hs : s w with
      | free => exact absurd (by rw [hs]; rfl) hentry
      | enabled m =>
          rw [hs, encode, isWorkerEnabled_enabledWorker] at hdisabled
          cases hdisabled
      | disabled m =>
          rw [hs] at hlater
          rw [hlater.of_disabled]
  · intro i e he hrelays
    have hacts := path_at (fun _ _ _ hacts => hacts.pre) hpath he
    obtain ⟨henabled, hstaked⟩ := (hacts.own hrelays.1).relayed hrelays
    obtain ⟨s, t, hbefore, hthen, -, -⟩ := roster_at hpath hsender hfresh.roster i
    have hstatus : s w = .enabled (entryManager ((hubAt H c i).workerToManager w)) := by
      rw [(hthen.entries w).1] at henabled ⊢
      exact encode_enabled henabled
    have hentry : (hubAt H c i).workerToManager w ≠ 0 := by
      rw [(hthen.entries w).1, hstatus]
      exact enabledWorker_ne_zero _
    refine ⟨_, addedBy_of_entry hpath hsender hfresh.roster hentry, ?_, ?_⟩
    -- a worker that was dismissed before would not be enabled
    · intro d hd m' hdisables
      have hdismissed := Roster.disabled_of_dismisses hbefore (List.mem_map_of_mem hd)
        (dismisses_iff.mpr hdisables)
      rw [hstatus] at hdismissed
      cases hdismissed
    · simpa [isRelayManagerStaked, and_assoc] using hstaked
  · intro i e beneficiary he hself hdata
    obtain ⟨hknown, hnext⟩ :=
      ((path_at (fun _ _ _ hacts => hacts.pre) hpath he).own hself).penalized hdata
    exact ⟨_, addedBy_of_entry hpath hsender hfresh.roster (entry_ne_zero hknown), hnext⟩

/-- The disabled worker still belongs to its manager. -/
theorem worker_assignment_run :
    entryManager ((staffRun.state.hubs 0xaa).workerToManager 0x02) = 0x0c ∧
      isWorkerEnabled ((staffRun.state.hubs 0xaa).workerToManager 0x02) = false := by
  have hentry : (hubAt 0xaa staffRun 2).workerToManager 0x02 = enabledWorker 0x0c := by
    decide +kernel
  have h := (worker_assignment smallWorld_fresh (Point.settled staffRun_settled)
    staffRun_senders 0x02).1 2 (by rw [hentry]; exact enabledWorker_ne_zero _)
  rw [hentry, entryManager_enabledWorker] at h
  exact ⟨h.2.1, by decide +kernel⟩

end RelayHub

end RifRelay
