import RifRelay.Contracts.WorkerAccounts
import RifRelay.Server.Threads

set_option autoImplicit false

/-! # What the server knows of its worker

`RegistrationManager` keeps the latest `RelayWorkersAdded` event and looks for the worker there.
The hub adds and disables workers for good: an event that adds others says nothing of those that
were added before, and the events of `disableRelayWorkers` are not asked for. So the server and
the hub agree on the worker exactly if, once it was added, it is on the last list that was added
or it is disabled, and not both (`LastListTells`).
-/

namespace RifRelay.Server

open EventLoop KnownRelaysManager

/-! ## The history of the hub -/

/-- A message that went through the hub, with its place in the chain and its events. -/
structure HubCall where
  blockNumber : Nat
  transactionIndex : Nat
  logIndex : Nat
  msg : Msg
  events : List Event

/-- The message has its effect, and the events are those that it emits. -/
def HubCall.Takes (x : HubCall) (hub hub' : RelayHub) : Prop :=
  RelayHub.Effect x.msg hub hub' ∧ x.events = RelayHub.quietEvents x.msg hub'

/-- The workers that the manager adds. -/
def HubCall.added (manager : Address) (x : HubCall) : Option (List Address) :=
  match RelayHub.workerMove x.msg with
  | .enroll sender workers => if sender = manager then some workers else none
  | _ => none

/-- The workers that the manager disables. -/
def HubCall.disabled (manager : Address) (x : HubCall) : Option (List Address) :=
  match RelayHub.workerMove x.msg with
  | .dismiss sender workers => if sender = manager then some workers else none
  | _ => none

/-- The place of the transaction. -/
def HubCall.place (x : HubCall) : Nat ×ₗ Nat := toLex (x.blockNumber, x.transactionIndex)

/-- The manager is an account with a key: each of its calls is a transaction. -/
def InTransactions (manager : Address) (l : List HubCall) : Prop :=
  (l.filter fun x => x.msg.sender = manager).Pairwise fun x y => x.place < y.place

/-- An event as the node reports it. -/
def HubCall.report (x : HubCall) (e : Event) : EventData :=
  ⟨x.blockNumber, x.transactionIndex, x.logIndex, e⟩

/-- The event says that the manager has added workers. -/
def addsFor (manager : Address) (e : Event) : Bool :=
  match e with
  | .RelayWorkersAdded relayManager _ _ => relayManager == manager
  | _ => false

/-- The events that the node reports when it is asked for the workers that were added. -/
def reports (manager : Address) (l : List HubCall) : List EventData :=
  l.flatMap fun x => (x.events.filter (addsFor manager)).map x.report

/-- Once it was added, the worker is on the last list that was added exactly if it is not
disabled. -/
def LastListTells (manager worker : Address) (l : List HubCall) : Prop :=
  (∃ ws ∈ l.filterMap (HubCall.added manager), worker ∈ ws) →
    (worker ∈ (l.filterMap (HubCall.added manager)).getLast?.getD [] ↔
      ¬ ∃ ws ∈ l.filterMap (HubCall.disabled manager), worker ∈ ws)

/-! ## The hub -/

section Hub

variable {manager worker : Address} {hub hub' : RelayHub} {l : List HubCall} {x : HubCall}

theorem enrolls_iff_added : (RelayHub.workerMove x.msg).Enrolls manager worker ↔
    ∃ ws, x.added manager = some ws ∧ worker ∈ ws := by
  unfold HubCall.added
  cases RelayHub.workerMove x.msg with
  | enroll sender workers => by_cases hs : sender = manager <;> simp [Roster.Move.Enrolls, hs]
  | idle | dismiss sender workers => simp [Roster.Move.Enrolls]

theorem dismisses_iff_disabled : (RelayHub.workerMove x.msg).Dismisses manager worker ↔
    ∃ ws, x.disabled manager = some ws ∧ worker ∈ ws := by
  unfold HubCall.disabled
  cases RelayHub.workerMove x.msg with
  | dismiss sender workers => by_cases hs : sender = manager <;> simp [Roster.Move.Dismisses, hs]
  | idle | enroll sender workers => simp [Roster.Move.Dismisses]

theorem exists_named_iff {f : HubCall → Option (List Address)} :
    (∃ ws ∈ l.filterMap f, worker ∈ ws) ↔ ∃ x ∈ l, ∃ ws, f x = some ws ∧ worker ∈ ws := by
  constructor
  · rintro ⟨ws, hws, hworker⟩
    obtain ⟨x, hx, heq⟩ := List.mem_filterMap.mp hws
    exact ⟨x, hx, ws, heq, hworker⟩
  · rintro ⟨x, hx, ws, heq, hworker⟩
    exact ⟨ws, List.mem_filterMap.mpr ⟨x, hx, heq⟩, hworker⟩

/-- **The hub.** The entry of the worker is the enabled one of the manager exactly if the manager
has added it and has not disabled it. -/
theorem entry_enabled_iff (hnew : ∀ w, hub.workerToManager w = 0)
    (hpath : EventPath HubCall.Takes hub l hub') (hsenders : ∀ x ∈ l, x.msg.sender ≠ 0) :
    hub'.workerToManager worker = RelayHub.enabledWorker manager ↔
      (∃ ws ∈ l.filterMap (HubCall.added manager), worker ∈ ws) ∧
        ¬ ∃ ws ∈ l.filterMap (HubCall.disabled manager), worker ∈ ws := by
  have hfree : RelayHub.Represents hub fun _ => .free := fun w => ⟨hnew w, RelayHub.proper_free⟩
  have hsimulated : ∃ roster, EventPath Roster.Step (fun _ => .free)
      (l.map fun x : HubCall => RelayHub.workerMove x.msg) roster ∧
        RelayHub.Represents hub' roster :=
    hpath.simulate _ (fun x hx _ _ r htakes hr => htakes.1.roster (hsenders x hx) hr) hfree
  obtain ⟨roster, hroster, hrep⟩ := hsimulated
  rw [(hrep worker).1, RelayHub.encode_eq_enabled, Roster.enabled_iff hroster rfl]
  simp only [List.mem_map, exists_exists_and_eq_and, enrolls_iff_added, dismisses_iff_disabled,
    exists_named_iff]

/-! ### What is reported -/

theorem added_eq_some {ws : List Address} : x.added manager = some ws ↔
    x.msg.data = .addRelayWorkers ws ∧ x.msg.sender = manager := by
  unfold HubCall.added RelayHub.workerMove
  cases x.msg.data with
  | addRelayWorkers ws' =>
      by_cases hs : x.msg.sender = manager <;> simp [hs]
  | _ => simp

theorem addsFor_iff {e : Event} :
    addsFor manager e = true ↔ ∃ ws count, e = .RelayWorkersAdded manager ws count := by
  constructor
  · intro h
    cases e with
    | RelayWorkersAdded relayManager ws count =>
        obtain rfl : relayManager = manager := eq_of_beq h
        exact ⟨ws, count, rfl⟩
    | _ => cases h
  · rintro ⟨ws, count, rfl⟩
    exact beq_self_eq_true manager

/-- The hub says that the manager has added workers when it has. -/
theorem mem_events_iff (h : x.Takes hub hub') {ws : List Address} {count : Word} :
    .RelayWorkersAdded manager ws count ∈ x.events ↔
      x.added manager = some ws ∧ count = hub'.workerCount manager := by
  rw [h.2, added_eq_some]
  unfold RelayHub.quietEvents
  cases x.msg.data with
  | addRelayWorkers ws' =>
      simp only [List.mem_singleton, Event.RelayWorkersAdded.injEq, CallData.addRelayWorkers.injEq]
      constructor
      · rintro ⟨rfl, rfl, rfl⟩
        exact ⟨⟨rfl, rfl⟩, rfl⟩
      · rintro ⟨⟨rfl, rfl⟩, rfl⟩
        exact ⟨rfl, rfl, rfl⟩
  | _ => simp

theorem takes_of_mem (hpath : EventPath HubCall.Takes hub l hub') (hx : x ∈ l) :
    ∃ h h', x.Takes h h' := by
  obtain ⟨l₁, l₂, rfl⟩ := List.append_of_mem hx
  obtain ⟨h, -, h', htakes, -⟩ := (EventPath.append_iff _ _ _ _).mp hpath
  exact ⟨h, h', htakes⟩

/-- What is reported was added. -/
theorem added_of_reports (hpath : EventPath HubCall.Takes hub l hub') {e : EventData}
    (he : e ∈ reports manager l) : ∃ x ∈ l, ∃ ws count, x.added manager = some ws ∧
      e = x.report (.RelayWorkersAdded manager ws count) := by
  obtain ⟨x, hx, hmem⟩ := List.mem_flatMap.mp he
  obtain ⟨ev, hev, rfl⟩ := List.mem_map.mp hmem
  obtain ⟨hev, hadds⟩ := List.mem_filter.mp hev
  obtain ⟨ws, count, rfl⟩ := addsFor_iff.mp hadds
  obtain ⟨h, h', htakes⟩ := takes_of_mem hpath hx
  exact ⟨x, hx, ws, count, ((mem_events_iff htakes).mp hev).1, rfl⟩

/-- What was added is reported. -/
theorem reports_of_added (hpath : EventPath HubCall.Takes hub l hub') (hx : x ∈ l)
    {ws : List Address} (hadded : x.added manager = some ws) :
    ∃ count, x.report (.RelayWorkersAdded manager ws count) ∈ reports manager l := by
  obtain ⟨h, h', htakes⟩ := takes_of_mem hpath hx
  refine ⟨h'.workerCount manager, List.mem_flatMap.mpr ⟨x, hx, List.mem_map.mpr ⟨_, ?_, rfl⟩⟩⟩
  exact List.mem_filter.mpr ⟨(mem_events_iff htakes).mpr ⟨hadded, rfl⟩, addsFor_iff.mpr ⟨_, _, rfl⟩⟩

end Hub

/-! ## The server -/

/-- The place of the transaction of an event. -/
def transactionPlace (e : EventData) : Nat ×ₗ Nat := toLex (e.blockNumber, e.transactionIndex)

theorem isSecondEventLater_iff {a b : EventData} :
    isSecondEventLater a b = true ↔ transactionPlace a < transactionPlace b := by
  unfold isSecondEventLater transactionPlace
  rw [Prod.Lex.toLex_lt_toLex]
  by_cases h : a.blockNumber = b.blockNumber
  · simp [h]
  · simp [h]

/-- The latest event that workers were added, after one more event. -/
def latestAdded (last : Option EventData) (e : EventData) : Option EventData :=
  if eventName e.event = some .RelayWorkersAdded ∧ last.all (isSecondEventLater · e) = true then
    some e
  else last

theorem noteHubEvent_added (r : RegistrationManager) (e : EventData) :
    (r.noteHubEvent e).lastWorkerAddedTransaction = latestAdded r.lastWorkerAddedTransaction e := by
  unfold RegistrationManager.noteHubEvent latestAdded
  split
  next hname => split <;> simp [hname]
  next hname =>
    split
    next hlater => rw [if_pos ⟨hname, hlater⟩]
    next hlater => rw [if_neg fun h => hlater h.2]
  next hname => rw [if_neg fun h => hname h.1]

theorem noteHubEvents_added (events : List EventData) (r : RegistrationManager) :
    (events.foldl RegistrationManager.noteHubEvent r).lastWorkerAddedTransaction =
      events.foldl latestAdded r.lastWorkerAddedTransaction := by
  induction events generalizing r with
  | nil => rfl
  | cons e rest ih =>
      rw [List.foldl_cons, List.foldl_cons, ih, noteHubEvent_added]

/-- `last` is one of the known events, and none of those in `seen` is later. -/
structure Latest (known : List EventData) (seen : EventData → Prop) (last : Option EventData) :
    Prop where
  mem : ∀ a ∈ last, a ∈ known
  later : ∀ e, seen e → ∃ a ∈ last, transactionPlace e ≤ transactionPlace a

theorem Latest.step {known : List EventData} {seen : EventData → Prop} {last : Option EventData}
    {e : EventData} (h : Latest known seen last)
    (he : eventName e.event = some .RelayWorkersAdded → e ∈ known) :
    Latest known (fun d => seen d ∨ (d = e ∧ eventName e.event = some .RelayWorkersAdded))
      (latestAdded last e) := by
  unfold latestAdded
  split
  next hnew =>
    refine ⟨fun a ha => ?_, fun d hd => ⟨e, rfl, ?_⟩⟩
    · obtain rfl := Option.some.inj ha
      exact he hnew.1
    · rcases hd with hd | ⟨rfl, -⟩
      · obtain ⟨a, ha, hle⟩ := h.later d hd
        have hlt : isSecondEventLater a e = true := by
          have hall := hnew.2
          rw [Option.mem_def.mp ha] at hall
          exact hall
        exact hle.trans (isSecondEventLater_iff.mp hlt).le
      · exact le_rfl
  next hold =>
    refine ⟨h.mem, fun d hd => ?_⟩
    rcases hd with hd | ⟨rfl, hname⟩
    · exact h.later d hd
    · -- the event that is kept is not earlier
      cases last with
      | none => exact (hold ⟨hname, rfl⟩).elim
      | some a =>
          refine ⟨a, rfl, not_lt.mp fun hlt => hold ⟨hname, ?_⟩⟩
          exact isSecondEventLater_iff.mpr hlt

theorem Latest.mono {known : List EventData} {seen seen' : EventData → Prop}
    {last : Option EventData} (h : Latest known seen last) (hseen : ∀ e, seen' e → seen e) :
    Latest known seen' last := ⟨h.mem, fun e he => h.later e (hseen e he)⟩

theorem Latest.foldl {known : List EventData} {seen : EventData → Prop} {last : Option EventData}
    {events : List EventData} (h : Latest known seen last)
    (hevents : ∀ e ∈ events, eventName e.event = some .RelayWorkersAdded → e ∈ known) :
    Latest known (fun d => seen d ∨ (d ∈ events ∧ eventName d.event = some .RelayWorkersAdded))
      (events.foldl latestAdded last) := by
  induction events generalizing seen last with
  | nil => exact h.mono fun e he => he.resolve_right fun hmem => List.not_mem_nil hmem.1
  | cons e rest ih =>
      obtain ⟨he, hrest⟩ := List.forall_mem_cons.mp hevents
      refine (ih (h.step he) hrest).mono ?_
      rintro d (hd | ⟨hd, hname⟩)
      · exact Or.inl (Or.inl hd)
      · rcases List.mem_cons.mp hd with rfl | hd
        · exact Or.inl (Or.inr ⟨rfl, hname⟩)
        · exact Or.inr ⟨hd, hname⟩

/-! ### `handlePastEvents` -/

variable {ν ω : Type} {cfg : Config} {N : Node ν ω} {i : ℕ} {m m' : Memory ν}

/-- The latest event that workers were added, as the server knows it. -/
def lastAdded (m : Memory ν) : Option EventData :=
  m.registrationManager.lastWorkerAddedTransaction

/-- A write that leaves it alone. -/
def LeavesAdded (f : Memory ν → Memory ν) : Prop := ∀ m, lastAdded (f m) = lastAdded m

/-- The programs that leave it alone. -/
def leavingAdded : Family (Memory ν) Question Answer := .confined (fun _ => True) LeavesAdded

theorem managerWrite_leavesAdded {f : Memory ν → Memory ν} (hf : ManagerWrite f) :
    LeavesAdded f := by
  intro m
  obtain ⟨nonces, mutex, signatures, heq⟩ := hf.shape m
  rw [heq]
  rfl

theorem quiet_leavingAdded : Quiet cfg (leavingAdded : Family (Memory ν) Question Answer) :=
  .of_asks cfg (fun _ => Family.confined_asks.mpr trivial)
    (fun _ hf => Family.confined_writes.mpr (managerWrite_leavesAdded hf))
    fun f hf => Family.confined_writes.mpr fun m => by cases hf <;> rfl

theorem leavingAdded_asks (q : Question) :
    (leavingAdded : Family (Memory ν) Question Answer).asks q :=
  Family.confined_asks.mpr trivial

theorem leavingAdded_writes {f : Memory ν → Memory ν} (hf : ∀ m, lastAdded (f m) = lastAdded m) :
    leavingAdded.writes f := Family.confined_writes.mpr hf

/-- **The requests leave it alone**, and so does whatever else is not a round. -/
theorem requests_leavingAdded (c : Call) (hc : c ≠ .intervalHandler) (i : ℕ) :
    leavingAdded.has (handler cfg i c : Handler ν Reply) := by
  have h : Quiet cfg (leavingAdded : Family (Memory ν) Question Answer) := quiet_leavingAdded
  have hresend (tx : StoredTransaction) (n : Nat) (p : Doubles.Number) :
      leavingAdded.has (TransactionManager.resendTransaction cfg tx n p : Handler ν _) :=
    resendTransaction_has cfg leavingAdded_asks
      (fun _ hf => leavingAdded_writes (managerWrite_leavesAdded hf)) tx n p
  cases c with
  | createRelayTransaction req =>
      exact Family.next (h.createRelayTransaction h.replenishServer req) fun _ => Family.done _ _
  | intervalHandler => exact (hc rfl).elim
  | readyTimeout j => exact Family.next (leavingAdded_writes fun _ => rfl) fun _ => Family.done _ _
  | sendTransaction d => exact Family.next (h.send d) fun _ => Family.done _ _
  | pollNonce signer => exact Family.next (h.poll signer) fun _ => Family.done _ _
  | resendTransaction tx n p => exact Family.next (hresend tx n p) fun _ => Family.done _ _
  | boostUnderpricedPendingTransactionsForSigner signer n =>
      exact Family.next (h.boost signer n) fun _ => Family.done _ _
  | replenishServer n => exact Family.next (h.replenishServer n) fun _ => Family.done _ _

section Registration

open RegistrationManager

theorem refreshStake_leavingAdded : leavingAdded.has (refreshStake : Handler ν Unit) := by
  apply Family.next (leavingAdded_asks _)
  intro stakeInfo
  refine Family.next (leavingAdded_writes fun _ => rfl) fun _ => leavingAdded_writes fun m => ?_
  show (m.registrationManager.refreshed stakeInfo).lastWorkerAddedTransaction = _
  unfold RegistrationManager.refreshed
  split <;> rfl

theorem sendBalanceToOwner_leavingAdded (signer : Address) (n : Nat) :
    leavingAdded.has (sendBalanceToOwner cfg signer n : Handler ν _) := by
  apply Family.next (leavingAdded_asks _)
  intro gasPrice
  apply Family.next (leavingAdded_asks _)
  intro balance
  apply Family.ite
  · intro _
    apply Family.next leavingAdded.get
    intro m
    apply Family.next (leavingAdded_writes fun _ => rfl)
    intro _
    exact Family.next (awaiting_has (leavingAdded_asks _) (quiet_leavingAdded.send _))
      fun _ => Family.done _ _
  · exact fun _ => Family.done _ _

theorem handleStakeEvent_leavingAdded (e : EventData) (withdrawManager : Bool) (n : Nat) :
    leavingAdded.has (handleStakeEvent cfg e withdrawManager n : Handler ν _) := by
  apply Family.next (leavingAdded_writes fun _ => rfl)
  intro _
  apply awaiting_has (leavingAdded_asks _)
  apply Family.next (awaiting_has (leavingAdded_asks _) (sendBalanceToOwner_leavingAdded _ _))
  intro workers
  refine Family.next (Family.ite (fun _ => ?_) fun _ => Family.done _ _) fun manager => ?_
  · exact awaiting_has (leavingAdded_asks _) (sendBalanceToOwner_leavingAdded _ _)
  · exact Family.next (leavingAdded_writes fun _ => rfl) fun _ => Family.done _ _

theorem handlePastEvent_leavingAdded (n : Nat) (e : EventData) :
    leavingAdded.has (handlePastEvent cfg n e : Handler ν _) := by
  have hrefresh : leavingAdded.has (awaiting .refreshStake refreshStake : Handler ν Unit) :=
    awaiting_has (leavingAdded_asks _) refreshStake_leavingAdded
  unfold handlePastEvent
  split
  · exact Family.next hrefresh fun _ => Family.done _ _
  · refine Family.next hrefresh fun _ => ?_
    exact Family.next (leavingAdded_writes fun _ => rfl) fun _ => Family.done _ _
  · refine Family.next hrefresh fun _ => ?_
    exact awaiting_has (leavingAdded_asks _) (handleStakeEvent_leavingAdded _ _ _)
  · exact Family.done _ _

theorem handleDueEvent_leavingAdded (n : Nat) (e : EventData) :
    leavingAdded.has (handleDueEvent cfg n e : Handler ν _) := by
  unfold handleDueEvent
  split
  · exact awaiting_has (leavingAdded_asks _) (handleStakeEvent_leavingAdded _ _ _)
  · exact Family.done _ _

end Registration

/-- The latest event is the same. -/
def SameAdded (m m' : Memory ν) : Prop := lastAdded m' = lastAdded m

theorem lastAdded_effect (m : Memory ν) (i : ℕ) (q : Question) (a : Except String (Answer q)) :
    lastAdded (effect N m i q a) = lastAdded m := by
  obtain ⟨mutex, txstore, node, heq⟩ := effect_shape N m i q a
  rw [heq]
  rfl

/-- **Others leave it alone.** While a round waits and there is no other, whatever happens in a
run of the server leaves the latest event as it is. -/
theorem others_sameAdded {C : State ν → State ν → Prop} {m₀ : Memory ν}
    {p p' : Pool Call (Memory ν) Question Answer Reply} (hrun : Run (server cfg N) C m₀ p)
    (hstep : Step (server cfg N) p p') {q : Question}
    {k : Except String (Answer q) → Handler ν Reply}
    (hround : p.threads i = some (.intervalHandler, .waiting q k))
    (honly : ∀ j t, p.threads j = some (.intervalHandler, t) → j = i)
    (hwaits : p'.threads i = p.threads i) : SameAdded p.shared.memory p'.shared.memory := by
  cases hstep with
  | call j c hfree hcalls => exact rfl
  | reply j c q' k' answer hthread hreplies => exact lastAdded_effect _ j q' answer
  | resume j c t hthread =>
      have hrequest : c ≠ .intervalHandler := by
        rintro rfl
        obtain rfl := honly j _ hthread
        cases hround.symm.trans hthread
      have hbody (j : ℕ) (c : Call) (hc : c ≠ .intervalHandler) :
          ((server cfg N).body j c).Confined (fun _ => True) LeavesAdded :=
        requests_leavingAdded c hc j
      have hconfined : t.Confined (fun _ => True) LeavesAdded :=
        run_confined hbody hrun j c _ hthread hrequest
      exact (hconfined.advance (I := fun s => lastAdded s = lastAdded p.shared.memory)
        (fun f hf s hs => (hf s).trans hs) rfl).1
  | outside w s hmoves =>
      obtain ⟨node, -, rfl⟩ := Option.map_eq_some_iff.mp hmoves
      exact rfl
  | restart s hrestart =>
      have hstopped : (p.restart s).threads i = some (.intervalHandler, .stopped) := by
        show (p.threads i).map _ = _
        rw [hround]
        rfl
      rw [hstopped, hround] at hwaits
      cases hwaits

theorem leavingAdded_does {α : Type} {p : Handler ν α} (hp : leavingAdded.has p) :
    Does (outside N i SameAdded) p m (fun _ => True) fun _ m' => lastAdded m' = lastAdded m := by
  refine does_confined (I := fun s => lastAdded s = lastAdded m) (Async.Confined.mono hp
    (fun _ _ => trivial) fun f hf s hs => (hf s).trans hs) (fun s q a _ _ hs => ⟨trivial, ?_⟩)
    (fun s s' hothers hs => Eq.trans hothers hs) rfl
  exact (lastAdded_effect s i q a).trans hs

/-- What a scan makes of the latest event: it may fail before it has come to the new ones. -/
def Notes {α : Type} (events : List EventData) (last : Option EventData) (r : Except String α)
    (m' : Memory ν) : Prop :=
  (lastAdded m' = last ∧ r.isOk = false) ∨ lastAdded m' = events.foldl latestAdded last

section Registration

open RegistrationManager

theorem handlePastEvents_does (events : List EventData) (lastScannedBlock n : Nat) (force : Bool) :
    Does (outside N i SameAdded) (handlePastEvents cfg events lastScannedBlock n force) m
      (fun _ => True) (Notes events (lastAdded m)) := by
  have hfail {α : Type} {s : Memory ν} {e : String} (hs : lastAdded s = lastAdded m) :
      Notes events (lastAdded m) (.error e : Except String α) s := Or.inl ⟨hs, rfl⟩
  refine does_get.mpr (does_assert (fun _ => ?_) fun _ => hfail rfl)
  refine does_modify.mpr (Does.next (leavingAdded_does (leavingAdded_asks _)) ?_ fun _ _ => hfail)
  intro decodedEvents m₁ h₁
  refine does_modify.mpr (Does.next (leavingAdded_does
    (collect_has (handlePastEvent_leavingAdded n) decodedEvents)) ?_ fun _ _ h₂ => ?_)
  · intro withdrawn m₂ h₂
    have hnoted : lastAdded (modify (fun r => events.foldl noteHubEvent r) m₂) =
        events.foldl latestAdded (lastAdded m) := by
      refine (noteHubEvents_added events m₂.registrationManager).trans ?_
      exact congrArg (events.foldl latestAdded) (h₂.trans h₁)
    refine does_modify.mpr (does_get.mpr (does_modify.mpr ?_))
    -- what follows leaves the latest event alone
    refine Does.mono (leavingAdded_does ?_) fun r m₃ h₃ => Or.inr (h₃.trans hnoted)
    refine Family.next (collect_has (handleDueEvent_leavingAdded n) _) fun unlocked => ?_
    refine Family.next (quiet_leavingAdded.registerIfNeeded n force) fun registered => ?_
    exact Family.next (leavingAdded_writes fun _ => rfl) fun _ => Family.done _ _
  · exact hfail (h₂.trans h₁)

end Registration

/-! ### Scans -/

/-- The batches of events that went through `handlePastEvents`, and if it came to its end. The
requests go on meanwhile and in between. -/
inductive Scans (cfg : Config) (N : Node ν ω) (i : ℕ) :
    Memory ν → List (List EventData × Bool) → Memory ν → Prop
  | start (m : Memory ν) : Scans cfg N i m [] m
  | scan {m m₁ m₂ : Memory ν} {batches : List (List EventData × Bool)}
      (h : Scans cfg N i m batches m₁) (events : List EventData) (lastScannedBlock n : Nat)
      (force : Bool) {x : Exchanges} {r : Except String (List Word)}
      (hrun : Runs (outside N i SameAdded)
        (RegistrationManager.handlePastEvents cfg events lastScannedBlock n force) m₁ x r m₂) :
      Scans cfg N i m (batches ++ [(events, r.isOk)]) m₂
  | wait {m m₁ m₂ : Memory ν} {batches : List (List EventData × Bool)}
      (h : Scans cfg N i m batches m₁) (hsame : SameAdded m₁ m₂) : Scans cfg N i m batches m₂

/-- In a run of the server the scans of a round are not disturbed while it waits. -/
theorem Scans.waits {C : State ν → State ν → Prop} {m₀ : Memory ν}
    {p p' : Pool Call (Memory ν) Question Answer Reply} {batches : List (List EventData × Bool)}
    (h : Scans cfg N i m batches p.shared.memory) (hrun : Run (server cfg N) C m₀ p)
    (hstep : Step (server cfg N) p p') {q : Question}
    {k : Except String (Answer q) → Handler ν Reply}
    (hround : p.threads i = some (.intervalHandler, .waiting q k))
    (honly : ∀ j t, p.threads j = some (.intervalHandler, t) → j = i)
    (hwaits : p'.threads i = p.threads i) : Scans cfg N i m batches p'.shared.memory :=
  .wait h (others_sameAdded hrun hstep hround honly hwaits)

/-- The event was in a batch that was handled to the end. -/
def ScannedThrough (batches : List (List EventData × Bool)) (e : EventData) : Prop :=
  ∃ b ∈ batches, b.2 = true ∧ e ∈ b.1

/-- **What the scans know.** The latest event is one of those that came, and no event that was
handled is later. -/
theorem Scans.latest {known : List EventData} {batches : List (List EventData × Bool)}
    (h : Scans cfg N i m batches m') (hinit : ∀ a ∈ lastAdded m, a ∈ known)
    (hknown : ∀ b ∈ batches, ∀ e ∈ b.1, eventName e.event = some .RelayWorkersAdded → e ∈ known) :
    Latest known (fun e => ScannedThrough batches e ∧ eventName e.event = some .RelayWorkersAdded)
      (lastAdded m') := by
  induction h with
  | start =>
      refine ⟨hinit, ?_⟩
      rintro e ⟨⟨b, hb, -⟩, -⟩
      exact (List.not_mem_nil hb).elim
  | @scan m₁ m₂ batches _ events _ _ _ x r hrun ih =>
      obtain ⟨hold, hnew⟩ := List.forall_mem_append.mp hknown
      have hlast := ih hold
      rcases (handlePastEvents_does events _ _ _ x r m₂ hrun).2 with ⟨hsame, hfailed⟩ | hnoted
      · -- the batch does not count
        rw [hsame]
        refine hlast.mono fun e => And.imp_left ?_
        rintro ⟨b, hb, hdone, he⟩
        rcases List.mem_append.mp hb with hb | hb
        · exact ⟨b, hb, hdone, he⟩
        · obtain rfl := List.mem_singleton.mp hb
          rw [show r.isOk = true from hdone] at hfailed
          cases hfailed
      · rw [hnoted]
        refine (hlast.foldl (hnew _ (List.mem_singleton_self _))).mono ?_
        rintro e ⟨⟨b, hb, hdone, he⟩, hname⟩
        rcases List.mem_append.mp hb with hb | hb
        · exact Or.inl ⟨⟨b, hb, hdone, he⟩, hname⟩
        · obtain rfl := List.mem_singleton.mp hb
          exact Or.inr ⟨he, hname⟩
  | wait _ hsame ih =>
      rw [show lastAdded _ = lastAdded _ from hsame]
      exact ih hknown

/-! ## The worker -/

/-- The last that is picked from a list is the last one after which nothing is picked. -/
theorem getLast?_filterMap_of_last {α β : Type} {f : α → Option β} {l₁ l₂ : List α} {a : α} {b : β}
    (ha : f a = some b) (hlast : ∀ a' ∈ l₂, f a' = none) :
    ((l₁ ++ a :: l₂).filterMap f).getLast? = some b := by
  have hrest : l₂.filterMap f = [] := List.filterMap_eq_nil_iff.mpr hlast
  rw [List.filterMap_append, List.filterMap_cons_some ha, hrest, List.getLast?_concat]

/-- The workers that the event says were added. -/
def newRelayWorkers (e : EventData) : Option (List Address) :=
  match e.event with
  | .RelayWorkersAdded _ workers _ => some workers
  | _ => none

/-- The latest event has the last list of workers that was added. -/
theorem Latest.getLast {manager : Address} {l : List HubCall} {hub hub' : RelayHub}
    {seen : EventData → Prop} {last : Option EventData}
    (h : Latest (reports manager l) seen last) (hpath : EventPath HubCall.Takes hub l hub')
    (hplaces : InTransactions manager l) (hseen : ∀ e ∈ reports manager l, seen e) :
    (l.filterMap (HubCall.added manager)).getLast? = last.bind newRelayWorkers := by
  cases last with
  | none =>
      have hnone : ∀ x ∈ l, x.added manager = none := by
        intro x hx
        cases hadded : x.added manager with
        | none => rfl
        | some ws =>
            obtain ⟨count, he⟩ := reports_of_added hpath hx hadded
            obtain ⟨a, ha, -⟩ := h.later _ (hseen _ he)
            cases ha
      rw [List.filterMap_eq_nil_iff.mpr hnone]
      rfl
  | some a =>
      obtain ⟨x, hx, ws, count, hadded, rfl⟩ := added_of_reports hpath (h.mem a rfl)
      obtain ⟨l₁, l₂, rfl⟩ := List.append_of_mem hx
      refine getLast?_filterMap_of_last hadded fun y hy => ?_
      cases hadded' : y.added manager with
      | none => rfl
      | some ws' =>
          -- the report of `y` would be later than the latest
          have hmem : y ∈ l₁ ++ x :: l₂ := List.mem_append_right _ (List.mem_cons_of_mem _ hy)
          obtain ⟨count', he⟩ := reports_of_added hpath hmem hadded'
          obtain ⟨a, ha, hle⟩ := h.later _ (hseen _ he)
          obtain rfl := Option.some.inj ha
          have hlt : x.place < y.place := by
            have hpairs := hplaces.sublist ((List.sublist_append_right l₁ (x :: l₂)).filter _)
            rw [List.filter_cons, if_pos (decide_eq_true (added_eq_some.mp hadded).2)] at hpairs
            refine List.rel_of_pairwise_cons hpairs ?_
            exact List.mem_filter.mpr ⟨hy, decide_eq_true (added_eq_some.mp hadded').2⟩
          exact (not_lt_of_ge hle hlt).elim

theorem isWorkerValid_iff : m.registrationManager.isWorkerValid cfg = true ↔
    ∃ ws, (lastAdded m).bind newRelayWorkers = some ws ∧ cfg.workerAddress ∈ ws := by
  unfold RegistrationManager.isWorkerValid lastAdded
  cases m.registrationManager.lastWorkerAddedTransaction with
  | none => simp
  | some a => cases h : a.event <;> simp [newRelayWorkers, h]

/-- **What the server knows of its worker.** Once every event that workers were added has been
handled, the server and the hub agree on whether the worker is enabled if and only if the last
list told so. -/
theorem worker_known_iff {hub hub' : RelayHub} {l : List HubCall}
    {batches : List (List EventData × Bool)} (hnew : ∀ w, hub.workerToManager w = 0)
    (hpath : EventPath HubCall.Takes hub l hub') (hsenders : ∀ x ∈ l, x.msg.sender ≠ 0)
    (hplaces : InTransactions cfg.managerAddress l) (hscans : Scans cfg N i m batches m')
    (hinit : ∀ a ∈ lastAdded m, a ∈ reports cfg.managerAddress l)
    (hreported : ∀ b ∈ batches, ∀ e ∈ b.1, eventName e.event = some .RelayWorkersAdded →
      e ∈ reports cfg.managerAddress l)
    (hhandled : ∀ e ∈ reports cfg.managerAddress l, ScannedThrough batches e) :
    (m'.registrationManager.isWorkerValid cfg = true ↔
      hub'.workerToManager cfg.workerAddress = RelayHub.enabledWorker cfg.managerAddress) ↔
    LastListTells cfg.managerAddress cfg.workerAddress l := by
  have hname : ∀ e ∈ reports cfg.managerAddress l,
      eventName e.event = some .RelayWorkersAdded := by
    intro e he
    obtain ⟨x, -, ws, count, -, rfl⟩ := added_of_reports hpath he
    rfl
  have hlast := (hscans.latest hinit hreported).getLast hpath hplaces fun e he =>
    ⟨hhandled e he, hname e he⟩
  have hvalid : m'.registrationManager.isWorkerValid cfg = true ↔
      cfg.workerAddress ∈ (l.filterMap (HubCall.added cfg.managerAddress)).getLast?.getD [] := by
    rw [isWorkerValid_iff, ← hlast]
    cases (l.filterMap (HubCall.added cfg.managerAddress)).getLast? with
    | none => simp
    | some ws => simp
  have hadded : cfg.workerAddress ∈
        (l.filterMap (HubCall.added cfg.managerAddress)).getLast?.getD [] →
      ∃ ws ∈ l.filterMap (HubCall.added cfg.managerAddress), cfg.workerAddress ∈ ws := by
    intro h
    cases hws : (l.filterMap (HubCall.added cfg.managerAddress)).getLast? with
    | none =>
        rw [hws] at h
        exact (List.not_mem_nil h).elim
    | some ws =>
        rw [hws] at h
        exact ⟨ws, List.mem_of_getLast? hws, h⟩
  rw [hvalid, entry_enabled_iff hnew hpath hsenders]
  unfold LastListTells
  constructor
  · intro h hadd
    exact h.trans (and_iff_right hadd)
  · intro h
    constructor
    · exact fun hmem => ⟨hadded hmem, (h (hadded hmem)).mp hmem⟩
    · exact fun hboth => (h hboth.1).mpr hboth.2

/-! ## A worker that was disabled -/

/-- A hub with no workers, and no stake to ask for. -/
abbrev openHub : RelayHub := ⟨0, 0, 0, 10, 0, fun _ => 0, fun _ => 0, fun _ => StakeInfo.zero⟩

def managerMsg (data : CallData) : Msg := ⟨.call, 0x11, 0x33, 0x33, 0, data, ⟨0x11, 1, 5⟩⟩

abbrev openHubAdded : RelayHub :=
  { openHub.setWorkerCount 0x11 (0 + 1) with
    workerToManager := Function.update (fun _ => 0) 0x22 (RelayHub.enabledWorker 0x11) }

abbrev openHubDisabled : RelayHub :=
  { openHubAdded.setWorkerCount 0x11 (1 - 1) with
    workerToManager := Function.update openHubAdded.workerToManager 0x22
      (RelayHub.disabledWorker 0x11) }

/-- The manager adds the worker. -/
def addCall : HubCall :=
  ⟨5, 0, 0, managerMsg (.addRelayWorkers [0x22]), [.RelayWorkersAdded 0x11 [0x22] 1]⟩

/-- The manager disables it. -/
def disableCall : HubCall :=
  ⟨6, 0, 0, managerMsg (.disableRelayWorkers [0x22]), [.RelayWorkersDisabled 0x11 [0x22] 0]⟩

theorem addCall_takes : addCall.Takes openHub openHubAdded :=
  ⟨.addRelayWorkers [0x22] _ rfl rfl (by decide) (by decide) rfl, rfl⟩

theorem disableCall_takes : disableCall.Takes openHubAdded openHubDisabled :=
  ⟨.disableRelayWorkers [0x22] _ rfl rfl (by decide) (by decide) rfl, rfl⟩

/-- A server that has been started, and whose stake has not changed. -/
def startedMemory : Memory Unit :=
  RegistrationManager.modify (fun r => { r with isInitialized := true })
    (.fresh plainConfig [] [] ())

abbrev quietNode : Node Unit Unit := fixedNode fun
  | .getPastEvents _ _, events => events.isEmpty
  | _, _ => true

def quietAnswer : (q : Question) → Except String (Answer q)
  | .getPastEvents _ _ => .ok []
  | _ => .error "no answer"

/-- A scan that nobody disturbs. -/
def scanOf (events : List EventData) (lastScannedBlock n : Nat) (m : Memory Unit) :
    Option (Exchanges × Except String (List Word) × Memory Unit) :=
  follow (outside quietNode 0 SameAdded) (answering quietAnswer)
    (RegistrationManager.handlePastEvents plainConfig events lastScannedBlock n false) m

theorem Scans.scanOf {m m₁ m' : Memory Unit} {batches : List (List EventData × Bool)}
    {events : List EventData} {lastScannedBlock n : Nat} {x : Exchanges}
    {r : Except String (List Word)} (h : Scans plainConfig quietNode 0 m batches m₁)
    (hrun : scanOf events lastScannedBlock n m₁ = some (x, r, m')) (hr : r.isOk = true) :
    Scans plainConfig quietNode 0 m (batches ++ [(events, true)]) m' := by
  have hscan := h.scan events lastScannedBlock n false (Runs.of_follow (fun _ => rfl) hrun)
  rwa [show Except.isOk _ = true from hr] at hscan

/-- The scan of the event that the worker was added leaves the server with a valid worker. -/
theorem addScan_scans : ∃ m', Scans plainConfig quietNode 0 startedMemory
    [(reports 0x11 [addCall], true)] m' ∧
      m'.registrationManager.isWorkerValid plainConfig = true := by
  have hend : (scanOf (reports 0x11 [addCall]) 4 6 startedMemory).map (fun x =>
      (x.2.1.isOk, x.2.2.registrationManager.isWorkerValid plainConfig)) = some (true, true) := by
    decide +kernel
  obtain ⟨⟨x, r, m'⟩, hrun, heq⟩ := Option.map_eq_some_iff.mp hend
  obtain ⟨hr, hvalid⟩ := Prod.mk.inj heq
  exact ⟨m', (Scans.start startedMemory).scanOf hrun hr, hvalid⟩

/-- The server still takes its worker for valid when it has been disabled. -/
theorem disabled_worker_valid :
    EventPath HubCall.Takes openHub [addCall, disableCall] openHubDisabled ∧
    InTransactions plainConfig.managerAddress [addCall, disableCall] ∧
    (∃ m', Scans plainConfig quietNode 0 startedMemory
      [(reports plainConfig.managerAddress [addCall, disableCall], true)] m' ∧
        m'.registrationManager.isWorkerValid plainConfig = true) ∧
    openHubDisabled.workerToManager plainConfig.workerAddress ≠
      RelayHub.enabledWorker plainConfig.managerAddress :=
  ⟨⟨_, addCall_takes, _, disableCall_takes, rfl⟩, by unfold InTransactions; decide, addScan_scans,
    by decide⟩

/-! ### Several workers -/

/-- The manager adds another worker. -/
def otherCall : HubCall :=
  ⟨4, 0, 0, managerMsg (.addRelayWorkers [0x44]), [.RelayWorkersAdded 0x11 [0x44] 1]⟩

/-- It adds its own worker with a third one. -/
def bothCall : HubCall :=
  ⟨5, 0, 0, managerMsg (.addRelayWorkers [0x22, 0x55]), [.RelayWorkersAdded 0x11 [0x22, 0x55] 3]⟩

/-- It disables the first one. -/
def dropCall : HubCall :=
  ⟨6, 0, 0, managerMsg (.disableRelayWorkers [0x44]), [.RelayWorkersDisabled 0x11 [0x44] 2]⟩

abbrev hubOther : RelayHub :=
  { openHub.setWorkerCount 0x11 (0 + 1) with
    workerToManager := Function.update (fun _ => 0) 0x44 (RelayHub.enabledWorker 0x11) }

abbrev hubBoth : RelayHub :=
  { hubOther.setWorkerCount 0x11 (1 + 2) with
    workerToManager := Function.update (Function.update hubOther.workerToManager 0x22
      (RelayHub.enabledWorker 0x11)) 0x55 (RelayHub.enabledWorker 0x11) }

abbrev hubDropped : RelayHub :=
  { hubBoth.setWorkerCount 0x11 (3 - 1) with
    workerToManager := Function.update hubBoth.workerToManager 0x44
      (RelayHub.disabledWorker 0x11) }

theorem staffed_path :
    EventPath HubCall.Takes openHub [otherCall, bothCall, dropCall] hubDropped :=
  ⟨hubOther, ⟨.addRelayWorkers [0x44] _ rfl rfl (by decide) (by decide) rfl, rfl⟩,
    hubBoth, ⟨.addRelayWorkers [0x22, 0x55] _ rfl rfl (by decide) (by decide) rfl, rfl⟩,
    hubDropped, ⟨.disableRelayWorkers [0x44] _ rfl rfl (by decide) (by decide) rfl, rfl⟩, rfl⟩

/-- The batches of the blocks 4 and 5 to 6. -/
def staffBatches : List (List EventData × Bool) :=
  [(reports 0x11 [otherCall], true), (reports 0x11 [bothCall, dropCall], true)]

theorem staffed_scans :
    ∃ m', Scans plainConfig quietNode 0 startedMemory staffBatches m' := by
  have hend : ((scanOf (reports 0x11 [otherCall]) 3 4 startedMemory).bind fun x =>
      (scanOf (reports 0x11 [bothCall, dropCall]) 4 6 x.2.2).map fun y =>
        (x.2.1.isOk, y.2.1.isOk)) = some (true, true) := by decide +kernel
  obtain ⟨⟨x, r, m₁⟩, hfirst, hrest⟩ := Option.bind_eq_some_iff.mp hend
  obtain ⟨⟨y, r', m'⟩, hsecond, heq⟩ := Option.map_eq_some_iff.mp hrest
  obtain ⟨hr, hr'⟩ := Prod.mk.inj heq
  exact ⟨m', ((Scans.start startedMemory).scanOf hfirst hr).scanOf hsecond hr'⟩

/-- After two additions in two batches, and with another worker disabled, the worker on the last
list is valid. -/
theorem worker_known_iff_added : ∃ m' : Memory Unit,
    Scans plainConfig quietNode 0 startedMemory staffBatches m' ∧
      (m'.registrationManager.isWorkerValid plainConfig = true ↔
        hubDropped.workerToManager plainConfig.workerAddress =
          RelayHub.enabledWorker plainConfig.managerAddress) := by
  obtain ⟨m', hscans⟩ := staffed_scans
  have hsplit : reports 0x11 [otherCall, bothCall, dropCall] =
      reports 0x11 [otherCall] ++ reports 0x11 [bothCall, dropCall] := rfl
  refine ⟨m', hscans, (@worker_known_iff _ _ _ _ _ _ _ openHub _ [otherCall, bothCall, dropCall] _
    (fun _ => rfl) staffed_path (by decide) (by unfold InTransactions; decide) hscans ?_ ?_ ?_).mpr
      ?_⟩
  · rintro _ ⟨⟩
  · intro b hb e he _
    show e ∈ reports 0x11 _
    rw [hsplit, List.mem_append]
    rcases List.mem_cons.mp hb with rfl | hb
    · exact Or.inl he
    · obtain rfl := List.mem_singleton.mp hb
      exact Or.inr he
  · intro e he
    rcases List.mem_append.mp (show e ∈ _ ++ _ from hsplit ▸ he) with he | he
    · exact ⟨_, List.mem_cons_self, rfl, he⟩
    · exact ⟨_, List.mem_cons_of_mem _ (List.mem_singleton_self _), rfl, he⟩
  · unfold LastListTells
    decide

end RifRelay.Server
