import RifRelay.Server.EventScans
import RifRelay.Server.Rounds

set_option autoImplicit false

/-! # What becomes of the events of the hub

The chain may grow at any time, also while a round is going on, and rounds may fail anywhere.

* `events_passed`, `events_once` — no event that the server asks for is skipped, and each comes to
  `handlePastEvents` once, unless a round fetches events of later blocks than its own or fails
  after it has fetched some.
* `alert_iff` — a rejection raises an alert exactly if the server is registered when it stores
  the scan.
-/

namespace RifRelay.Server

open EventLoop KnownRelaysManager

variable {cfg : Config} {steady : Bool} {txstore : List StoredTransaction}
  {signatures : List Signature} {p : Pool Call (Memory Chain) Question Answer Reply}

/-- The events that have come to `handlePastEvents`. -/
def passedEvents (m : Memory Chain) : List EventData := m.record.rounds.flatMap (·.passed)

/-- No event up to the last scanned block is skipped. -/
theorem events_passed
    (hrun : Run (chainServer cfg steady) Anyhow (.fresh cfg txstore signatures .genesis) p)
    {e : EventData} (hlog : e ∈ p.shared.memory.node.log) (hasked : isAsked e = true)
    (hlast : e.blockNumber ≤ p.shared.memory.lastScannedBlock) :
    e ∈ passedEvents p.shared.memory := by
  obtain ⟨φ, hscanned, -⟩ := run_scans hrun
  obtain ⟨r, hr, hmem⟩ := hscanned.fetcher.linked.passed
    (fun r hr => (hscanned.fetcher.rounds r hr).1) hlog hasked (hscanned.sound.mined e hlog).1 hlast
  exact List.mem_flatMap.mpr ⟨r, hr, hmem⟩

/-- **Each event comes once**: if no round but the latest has fetched events of later blocks than
its own, and each of them that has fetched events has stored its block, then an event that the
server asks for has come at most once, and exactly once if its block has been scanned. -/
theorem events_once
    (hrun : Run (chainServer cfg steady) Anyhow (.fresh cfg txstore signatures .genesis) p)
    (hpunctual : ∀ r ∈ p.shared.memory.record.rounds.tail, Punctual r)
    (hstored : ∀ r ∈ p.shared.memory.record.rounds.tail, Durable r)
    {e : EventData} (hlog : e ∈ p.shared.memory.node.log) (hasked : isAsked e = true) :
    (passedEvents p.shared.memory).count e ≤ 1 ∧
      (e.blockNumber ≤ p.shared.memory.lastScannedBlock →
        (passedEvents p.shared.memory).count e = 1) := by
  obtain ⟨φ, hscanned, -⟩ := run_scans hrun
  have hnodup : (passedEvents p.shared.memory).Nodup :=
    hscanned.fetcher.linked.once (fun r hr => (hscanned.fetcher.rounds r hr).1) hpunctual hstored
  refine ⟨List.nodup_iff_count_le_one.mp hnodup e, fun hlast => ?_⟩
  exact List.count_eq_one_of_mem hnodup (events_passed hrun hlog hasked hlast)

/-- A manager that is staked, and unlocks. -/
def addedEvent : EventData := ⟨1, 0, 0, .StakeAdded 0x11 0x55 20 1000⟩

def unlockedEvent : EventData := ⟨2, 0, 0, .StakeUnlocked 0x11 0x55 1002⟩

/-- The first round learns the number of its block, then the manager unlocks, and the second
round comes another block later. -/
def lateSchedule : List (Move Call Question Answer (List EventData)) :=
  .outside [addedEvent] :: .call 0 .intervalHandler ::
    Move.turns 0 (chainAnswer 0x11 ⟨1, [addedEvent]⟩ 100) 1 ++
      .outside [unlockedEvent] ::
        (Move.turns 0 (chainAnswer 0x11 ⟨2, [addedEvent, unlockedEvent]⟩ 100) 50).tail ++
          .outside [] :: .call 1 .intervalHandler ::
            Move.turns 1 (chainAnswer 0x11 ⟨3, [addedEvent, unlockedEvent]⟩ 100) 30

theorem lateSchedule_plays :
    ((Pool.start (.fresh plainConfig [] [] .genesis)).play (chainServer plainConfig false) Anyhow
      lateSchedule).isSome = true := by
  decide +kernel

def lateServer : Pool Call (Memory Chain) Question Answer Reply := Option.get _ lateSchedule_plays

theorem lateServer_run :
    Run (chainServer plainConfig false) Anyhow (.fresh plainConfig [] [] .genesis) lateServer :=
  Run.of_isSome lateSchedule_plays

/-- The event comes twice. -/
theorem unlockedEvent_twice :
    Run (chainServer plainConfig false) Anyhow (.fresh plainConfig [] [] .genesis) lateServer ∧
      unlockedEvent ∈ lateServer.shared.memory.node.log ∧
        (passedEvents lateServer.shared.memory).count unlockedEvent = 2 :=
  ⟨lateServer_run, by decide +kernel, by decide +kernel⟩

/-- A rejection of a relayed call, in block 6. -/
def alertedEvent : EventData := ⟨6, 0, 0, .TransactionRelayedButRevertedByRecipient 0x11 0x22 0 []⟩

/-- A round after the first block, and one after the rejection. -/
def alertedSchedule : List (Move Call Question Answer (List EventData)) :=
  .outside registeredBlock :: .call 0 .intervalHandler ::
    Move.turns 0 (chainAnswer 0x11 ⟨1, registeredBlock⟩ 100) 56 ++
    [[], [], [], [], [alertedEvent]].map .outside ++
      .call 1 .intervalHandler ::
        Move.turns 1 (chainAnswer 0x11 ⟨6, registeredBlock ++ [alertedEvent]⟩ 100) 46

theorem alertedSchedule_plays :
    ((Pool.start (.fresh plainConfig [] [] .genesis)).play (chainServer plainConfig false) Anyhow
      alertedSchedule).isSome = true := by
  decide +kernel

def alertedServer : Pool Call (Memory Chain) Question Answer Reply :=
  Option.get _ alertedSchedule_plays

theorem alertedServer_run :
    Run (chainServer plainConfig false) Anyhow (.fresh plainConfig [] [] .genesis) alertedServer :=
  Run.of_isSome alertedSchedule_plays

/-- The round in which the server registers. -/
def registeredRound : Round := ⟨0, 1, registeredBlock.reverse, [], some true, some true, []⟩

/-- The round that raises the alert. -/
def alertedRound : Round :=
  ⟨1, 6, [alertedEvent], [], some true, some true, [⟨alertedEvent, true, 6⟩]⟩

theorem alertedServer_rounds :
    alertedServer.shared.memory.record.rounds = [] ++ alertedRound :: [registeredRound] ∧
      alertedServer.shared.memory.workerSemaphoreOn = none ∧
        alertedEvent ∈ alertedServer.shared.memory.node.log := by
  decide +kernel

/-- Both rounds have fetched events; the rejection has come once. -/
theorem events_once_alertedServer :
    (passedEvents alertedServer.shared.memory).count alertedEvent ≤ 1 ∧
      (alertedEvent.blockNumber ≤ alertedServer.shared.memory.lastScannedBlock →
        (passedEvents alertedServer.shared.memory).count alertedEvent = 1) := by
  obtain ⟨hrounds, -, hlog⟩ := alertedServer_rounds
  have htail : alertedServer.shared.memory.record.rounds.tail = [registeredRound] := by
    rw [hrounds]
    rfl
  have hpunctual : Punctual registeredRound := by
    intro e he
    have hall : ∀ e ∈ registeredBlock.reverse, e.blockNumber ≤ 1 := by decide
    exact hall e he
  have hdurable : Durable registeredRound := fun _ => by decide
  refine events_once alertedServer_run ?_ ?_ hlog (by decide)
  · rw [htail]
    exact List.forall_mem_singleton.mpr hpunctual
  · rw [htail]
    exact List.forall_mem_singleton.mpr hdurable

/-! ## Alerts -/

/-- **A rejection raises an alert if the server is registered when it stores the scan**: the round
that moves the last scanned block past the event, or one before it, has raised the alert exactly
if it was registered then, or if an earlier one that had fetched the event was. -/
theorem alert_iff
    (hrun : Run (chainServer cfg steady) Anyhow (.fresh cfg txstore signatures .genesis) p)
    {later before : List Round} {r : Round}
    (hrounds : p.shared.memory.record.rounds = later ++ r :: before)
    (hover : later ≠ [] ∨ p.shared.memory.workerSemaphoreOn = none) (hstored : r.stored ≠ none)
    {e : EventData} (hlog : e ∈ p.shared.memory.node.log) (hrejection : isRejection e = true)
    (hlast : r.lastScannedBlock < e.blockNumber) (hblock : e.blockNumber ≤ r.blockNumber) :
    (∃ r' ∈ r :: before, ∃ a ∈ r'.alerts, a.event = e ∧ a.alerted = true ∧
        a.alertedBlock = r'.blockNumber) ↔
      r.stored = some true ∨ ∃ r' ∈ before, e ∈ r'.passed ∧ r'.stored = some true := by
  obtain ⟨φ, hscanned, hidle⟩ := run_scans hrun
  have hfetcher := hscanned.fetcher
  have hmem : ∀ r' ∈ r :: before, r' ∈ p.shared.memory.record.rounds := by
    intro r' hr'
    rw [hrounds]
    exact List.mem_append_right _ hr'
  have hall : ∀ r' ∈ r :: before, (Fetches p.shared.memory.node r' ∧ Alerts r') ∧ Alerted r' := by
    intro r' hr'
    refine ⟨hfetcher.rounds r' (hmem r' hr'), ?_⟩
    rcases hover with hlater | hfree
    · have htail : (watch p.shared.memory).rounds.tail = later.tail ++ r :: before := by
        change p.shared.memory.record.rounds.tail = _
        rw [hrounds, List.tail_append_of_ne_nil hlater]
      exact hfetcher.past r' (by rw [htail]; exact List.mem_append_right _ hr')
    · exact hfetcher.idle (hidle hfree) r' (hmem r' hr')
  have hpassed : e ∈ r.passed :=
    (hall r List.mem_cons_self).1.1.complete hstored e hlog (isAsked_of_rejection hrejection)
      hlast hblock
  have hraised : ∀ r' ∈ r :: before, (∃ a ∈ r'.alerts, a.event = e ∧ a.alerted = true ∧
      a.alertedBlock = r'.blockNumber) ↔ e ∈ r'.passed ∧ r'.stored = some true := by
    intro r' hr'
    obtain ⟨⟨-, halerts⟩, halerted⟩ := hall r' hr'
    constructor
    · rintro ⟨a, ha, rfl, -, -⟩
      obtain ⟨-, -, hmem', -, hstored'⟩ := halerts a ha
      exact ⟨hmem', hstored'⟩
    · rintro ⟨hmem', hstored'⟩
      obtain ⟨a, ha, rfl⟩ := halerted hstored' e hmem' hrejection
      obtain ⟨halert, halertedBlock, -⟩ := halerts a ha
      exact ⟨a, ha, rfl, halert, halertedBlock⟩
  constructor
  · rintro ⟨r', hr', ha⟩
    have h := (hraised r' hr').mp ha
    rcases List.mem_cons.mp hr' with rfl | hbefore
    · exact Or.inl h.2
    · exact Or.inr ⟨r', hbefore, h⟩
  · rintro (hregistered | ⟨r', hbefore, h⟩)
    · exact ⟨r, List.mem_cons_self, (hraised r List.mem_cons_self).mpr ⟨hpassed, hregistered⟩⟩
    · have hr' := List.mem_cons_of_mem r hbefore
      exact ⟨r', hr', (hraised r' hr').mpr h⟩

/-- The round that stores the scan with the rejection is registered, and raises the alert. -/
theorem alert_iff_alertedRound :
    (∃ r' ∈ [alertedRound, registeredRound], ∃ a ∈ r'.alerts, a.event = alertedEvent ∧
        a.alerted = true ∧ a.alertedBlock = r'.blockNumber) ↔
      alertedRound.stored = some true ∨
        ∃ r' ∈ [registeredRound], alertedEvent ∈ r'.passed ∧ r'.stored = some true := by
  obtain ⟨hrounds, hover, hlog⟩ := alertedServer_rounds
  exact alert_iff alertedServer_run hrounds (Or.inr hover) (by decide) hlog (by decide) (by decide)
    (by decide)

/-- A manager that is staked, relays a call that is rejected, and unlocks. -/
def rejectedBlocks : List (List EventData) :=
  [[⟨1, 0, 0, .StakeAdded 0x11 0x55 20 1000⟩, ⟨1, 1, 0, .RelayWorkersAdded 0x11 [0x22] 1⟩],
    [⟨2, 0, 0, .TransactionRelayedButRevertedByRecipient 0x11 0x22 0 []⟩,
      ⟨2, 1, 0, .StakeUnlocked 0x11 0x55 1002⟩]]

def rejectedEvent : EventData := ⟨2, 0, 0, .TransactionRelayedButRevertedByRecipient 0x11 0x22 0 []⟩

def rejectedSchedule : List (Move Call Question Answer (List EventData)) :=
  rejectedBlocks.map .outside ++ .call 0 .intervalHandler ::
    Move.turns 0 (chainAnswer 0x11 ⟨2, rejectedBlocks.flatten⟩ 100) 49

theorem rejectedSchedule_plays :
    ((Pool.start (.fresh plainConfig [] [] .genesis)).play (chainServer plainConfig false) Anyhow
      rejectedSchedule).isSome = true := by
  decide +kernel

/-- A server that is first started when the stake is unlocked. -/
def rejectedServer : Pool Call (Memory Chain) Question Answer Reply :=
  Option.get _ rejectedSchedule_plays

theorem rejectedServer_run :
    Run (chainServer plainConfig false) Anyhow (.fresh plainConfig [] [] .genesis) rejectedServer :=
  Run.of_isSome rejectedSchedule_plays

/-- The alert of the rejection is lost: its block has been scanned without it. -/
theorem rejectedEvent_without_alert :
    Run (chainServer plainConfig false) Anyhow (.fresh plainConfig [] [] .genesis) rejectedServer ∧
      rejectedServer.shared.memory.workerSemaphoreOn = none ∧
        rejectedEvent ∈ rejectedServer.shared.memory.node.log ∧
          rejectedEvent.blockNumber ≤ rejectedServer.shared.memory.lastScannedBlock ∧
            rejectedServer.shared.memory.alerted = false ∧
              rejectedServer.shared.memory.record.rounds.flatMap (·.alerts) = [] := by
  refine ⟨rejectedServer_run, ?_⟩
  decide +kernel

end RifRelay.Server
