import RifRelay.Server.Scans

set_option autoImplicit false

/-! # The rounds of the worker, part by part

Each part of a round takes the scanner from one phase to the next: `handlePastEvents` from
`fetched` to `scanned`, `handleChanges` from `started` to the end. What is silent on the way
is dealt with by `wp_silent`.
-/

namespace RifRelay.Server

open EventLoop KnownRelaysManager TransactionManager

variable {cfg : Config} {steady : Bool} {i : ℕ} {φ : Phase} {x : State Chain} {s : Memory Chain}

/-- The weakest precondition of a part of the round of thread `i`. -/
abbrev part {α : Type} (cfg : Config) (steady : Bool) (i : ℕ) (p : Handler Chain α)
    (Ψ : α → State Chain → Memory Chain → Prop) (x : State Chain) (s : Memory Chain) : Prop :=
  wp (chainServer cfg steady) (scanning cfg steady) i p (After cfg steady i Ψ) x s

/-! ## The stake -/

/-- An answer that came after the round has begun. -/
theorem Holding.answered (h : Holding i φ cfg steady x s) {b : Nat} (hb : φ.block = some b)
    {c : Chain} {n : Nat} (hn : s.node.blockNumber ≤ n) (hc : n ≤ c.blockNumber) :
    Answered c b n :=
  ⟨Nat.le_trans (h.scanned.current b hb).1 hn, hc⟩

theorem refreshStake_part {b : Nat} {events rest : List EventData} {e : EventData}
    (h : Holding i (.handling b events (e :: rest)) cfg steady x s) :
    part cfg steady i RegistrationManager.refreshStake
      (fun _ => Holding i (.refreshed b events e rest) cfg steady) x s := by
  have hasked : part cfg steady i (ask .getStakeInfo)
      (fun info y t => Holding i (.handling b events (e :: rest)) cfg steady y t ∧
        ∃ n, Answered t.node b n ∧ info = t.node.stakeAt cfg.managerAddress n) x s := by
    refine wp_question h (fun _ => rfl) fun z v hz _ htold => ?_
    obtain ⟨n, hn, hc, hanswer⟩ := htold rfl
    refine ⟨hz, n, h.answered rfl hn hc, ?_⟩
    calc v = (z.memory.node.back n).stakeAt cfg.managerAddress n := hanswer
      _ = z.memory.node.stakeAt cfg.managerAddress n := Chain.stakeAt_back (Nat.le_refl n)
  refine wp_next hasked ?_
  rintro info y t ⟨hholding, n, hn, rfl⟩
  exact hholding.step rfl rfl (.refresh (watch t) b n events e rest hn)

/-! ## Withdrawing the funds -/

/-- A transfer is noted for the event that the round is paying for. -/
theorem Holding.notePayout {e : EventData} {next : Phase}
    (h : Holding i (.paying e next) cfg steady x s) {d : SendTransactionDetails}
    (hd : d.destination = s.registrationManager.ownerAddress) :
    Holding i (.paying e next) cfg steady x (note (RegistrationManager.notePayout d) s) := by
  have hlast : s.record.rounds.head?.bind (·.withdrawn.getLast?) = some e := h.scanned.paysLast.2.2
  have hwatch : watch (note (RegistrationManager.notePayout d) s) = (watch s).pay e d := by
    unfold note RegistrationManager.notePayout
    simp only [hlast]
    rfl
  refine h.step rfl rfl ?_
  rw [hwatch]
  exact .pay (watch s) e next d hd

theorem sendBalanceToOwner_part {e : EventData} {next : Phase} (hfail : next.canFail = true)
    (h : Holding i (.paying e next) cfg steady x s) (signer : Address) (n : Nat) :
    part cfg steady i (RegistrationManager.sendBalanceToOwner cfg signer n)
      (fun _ => Holding i (.paying e next) cfg steady) x s := by
  have hend : ∀ w : Watch, w.mayEnd cfg (.paying e next) := fun _ => hfail
  have hread : ∀ {q : Question} {y : State Chain} {t : Memory Chain},
      Holding i (.paying e next) cfg steady y t →
        part cfg steady i (ask q) (fun _ => Holding i (.paying e next) cfg steady) y t :=
    fun hy => wp_question hy (fun _ => hfail) fun _ _ hz _ _ => hz
  refine wp_next (hread h) fun gasPrice y t hy => ?_
  refine wp_next (hread hy) fun balance y t hy => ?_
  rw [wp_ite]
  refine ⟨fun _ => ?_, fun _ => hy⟩
  -- the details name the owner whom the manager knows now
  refine wp_get_next.mpr (wp_modify_next.mpr ?_)
  refine wp_next (wp_silent ?_ hend (hy.notePayout rfl)) fun _ _ _ hz => hz
  exact awaiting_has ((silent_quiet cfg).read _ rfl) ((silent_quiet cfg).send _)

theorem withdrawAllFunds_part {e : EventData} {next : Phase} (hfail : next.canFail = true)
    (h : Holding i (.paying e next) cfg steady x s) (withdrawManager : Bool) (n : Nat) :
    part cfg steady i (RegistrationManager.withdrawAllFunds cfg withdrawManager n)
      (fun _ => Holding i (.paying e next) cfg steady) x s := by
  have hsend : ∀ {signer : Address} {y : State Chain} {t : Memory Chain},
      Holding i (.paying e next) cfg steady y t →
        part cfg steady i (awaiting .sendBalanceToOwner
          (RegistrationManager.sendBalanceToOwner cfg signer n))
          (fun _ => Holding i (.paying e next) cfg steady) y t :=
    fun hy => wp_awaiting (sendBalanceToOwner_part hfail hy _ n) fun _ => holding_persists
  refine wp_next (hsend h) fun workers y t hy => ?_
  have hmanager : part cfg steady i (if withdrawManager then
      awaiting .sendBalanceToOwner (RegistrationManager.sendManagerEthBalanceToOwner cfg n)
      else pure []) (fun _ => Holding i (.paying e next) cfg steady) y t := by
    exact (wp_ite _ _ _ _).mpr ⟨fun _ => hsend hy, fun _ => hy⟩
  refine wp_next hmanager fun manager y t hy => ?_
  exact ⟨hy.others, hy.semaphore, hy.node, hy.scanned, hy.running⟩

/-- Withdrawing the funds for an event takes a round to the phase in which it goes on. -/
theorem handleStakeEvent_part {e : EventData} (next : Phase) (hfail : next.canFail = true)
    (h : Holding i φ cfg steady x s)
    (hstep : ∀ w : Watch, Scan cfg steady w φ (w.withdraw e) (.paying e next))
    (withdrawManager : Bool) (n : Nat) :
    part cfg steady i (RegistrationManager.handleStakeEvent cfg e withdrawManager n)
      (fun _ => Holding i next cfg steady) x s := by
  have hpaying : Holding i (.paying e next) cfg steady x
      (note (·.inRound fun r => { r with withdrawn := r.withdrawn ++ [e] }) s) :=
    h.step rfl rfl (hstep (watch s))
  refine wp_modify_next.mpr ?_
  refine wp_awaiting ?_ fun _ => holding_persists
  refine wp_mono (fun r y t hr => ?_) _ (withdrawAllFunds_part hfail hpaying withdrawManager n)
  cases r with
  | ok hashes => exact hr.step rfl rfl (.paid (watch t) e next)
  | error message => exact hr

/-! ## `handlePastEvents` -/

theorem handlePastEvent_part {b : Nat} {events rest : List EventData} {e : EventData}
    (h : Holding i (.handling b events (e :: rest)) cfg steady x s) :
    part cfg steady i (RegistrationManager.handlePastEvent cfg b e)
      (fun _ => Holding i (.handling b events rest) cfg steady) x s := by
  have hrefreshed : part cfg steady i (awaiting .refreshStake RegistrationManager.refreshStake)
      (fun _ => Holding i (.refreshed b events e rest) cfg steady) x s :=
    wp_awaiting (refreshStake_part h) fun _ => holding_persists
  unfold RegistrationManager.handlePastEvent
  split
  next heq =>
    have hadded : isStakeAdded e = true := by simp [isStakeAdded, heq, eventName]
    refine wp_next hrefreshed fun _ y t hy => ?_
    exact hy.step rfl rfl (.added (watch t) b events e rest hadded)
  next relayManager owner withdrawBlock heq =>
    refine wp_next hrefreshed fun _ y t hy => ?_
    exact hy.step rfl rfl (.delay (watch t) b events e rest relayManager owner withdrawBlock heq)
  next heq =>
    have hwithdrawn : isStakeWithdrawn e = true := by simp [isStakeWithdrawn, heq, eventName]
    refine wp_next hrefreshed fun _ y t hy => ?_
    refine wp_awaiting ?_ fun _ => holding_persists
    exact handleStakeEvent_part (.handling b events rest) rfl hy
      (fun w => .withdraw w b events e rest hwithdrawn) true b
  next hadded hunlocked hwithdrawn =>
    have hskip : isStakeEvent e = false := by
      unfold isStakeEvent
      cases hevent : e.event with
      | StakeAdded relayManager owner stake unstakeDelay => exact absurd hevent (hadded _ _ _ _)
      | StakeUnlocked relayManager owner withdrawBlock => exact absurd hevent (hunlocked _ _ _)
      | StakeWithdrawn relayManager owner amount => exact absurd hevent (hwithdrawn _ _ _)
      | _ => rfl
    exact h.step rfl rfl (.skip (watch s) b events e rest hskip)

theorem handleDueEvent_part {b : Nat} {events rest : List EventData} {e : EventData}
    (h : Holding i (.due b events (e :: rest)) cfg steady x s) :
    part cfg steady i (RegistrationManager.handleDueEvent cfg b e)
      (fun _ => Holding i (.due b events rest) cfg steady) x s := by
  unfold RegistrationManager.handleDueEvent
  split
  next heq =>
    have hunlocked : eventName e.event = some .StakeUnlocked := by rw [heq]; rfl
    refine wp_awaiting ?_ fun _ => holding_persists
    exact handleStakeEvent_part (.due b events rest) rfl h
      (fun w => .unlock w b events e rest hunlocked) false b
  next hnot =>
    have hskip : eventName e.event ≠ some .StakeUnlocked := by
      cases hevent : e.event with
      | StakeUnlocked relayManager owner withdrawBlock => exact absurd hevent (hnot _ _ _)
      | _ => exact fun h => by cases h
    exact h.step rfl rfl (.skipDue (watch s) b events e rest hskip)

/-- A loop whose phases are `P` of the events that are left. -/
theorem collect_part {f : EventData → Handler Chain (List Word)} (P : List EventData → Phase)
    (hf : ∀ e rest y t, Holding i (P (e :: rest)) cfg steady y t →
      part cfg steady i (f e) (fun _ => Holding i (P rest) cfg steady) y t)
    (events : List EventData) (h : Holding i (P events) cfg steady x s) :
    part cfg steady i (RegistrationManager.collect f events)
      (fun _ => Holding i (P []) cfg steady) x s := by
  induction events generalizing x s with
  | nil => exact h
  | cons e rest ih =>
      refine wp_next (hf e rest x s h) fun hashes y t hy => ?_
      exact wp_next (ih hy) fun others z u hz => hz

/-- Looking at the events of the hub does not touch the stake. -/
theorem noteHubEvents_sameStake (events : List EventData) (r : RegistrationManager) :
    r.SameStake (events.foldl RegistrationManager.noteHubEvent r) := by
  induction events generalizing r with
  | nil => exact ⟨rfl, rfl, rfl, rfl⟩
  | cons e rest ih =>
      have hfirst : r.SameStake (r.noteHubEvent e) := by
        unfold RegistrationManager.noteHubEvent
        split
        · split <;> exact ⟨rfl, rfl, rfl, rfl⟩
        · split <;> exact ⟨rfl, rfl, rfl, rfl⟩
        · exact ⟨rfl, rfl, rfl, rfl⟩
      obtain ⟨hstake, hlocked, howner, hdelayed⟩ := ih (r.noteHubEvent e)
      exact ⟨hstake.trans hfirst.1, hlocked.trans hfirst.2.1, howner.trans hfirst.2.2.1,
        hdelayed.trans hfirst.2.2.2⟩

/-- **`handlePastEvents`** fetches the events of the stake, handles them and those that are due,
and registers. -/
theorem handlePastEvents_part {b : Nat} {events : List EventData}
    (h : Holding i (.fetched b events) cfg steady x s) (force : Bool) :
    part cfg steady i
      (RegistrationManager.handlePastEvents cfg events s.lastScannedBlock b force)
      (fun _ => Holding i (.scanned b events) cfg steady) x s := by
  refine wp_get_next.mpr ?_
  have hassert : part cfg steady i
      (Async.assert (s.registrationManager.isInitialized = true)
        "RegistrationManager not initialized")
      (fun _ y t => y = x ∧ t = s) x s :=
    (wp_assert _ _ _).mpr ⟨fun _ => ⟨rfl, rfl⟩, fun _ => ⟨_, h, rfl⟩⟩
  refine wp_next hassert ?_
  rintro _ y t ⟨hy, ht⟩
  rw [hy, ht]
  have hpassed : Holding i (.passed b events) cfg steady x
      (RegistrationManager.notePassed events s) := h.step rfl rfl (.pass (watch s) b events)
  refine wp_modify_next.mpr ?_
  have hasked : part cfg steady i (ask (.getPastEvents stakeEvents (s.lastScannedBlock + 1)))
      (fun found y t => Holding i (.passed b events) cfg steady y t ∧ ∃ n, Answered t.node b n ∧
        found = (t.node.back n).query stakeEvents (t.lastScannedBlock + 1)) x
      (RegistrationManager.notePassed events s) := by
    refine wp_question hpassed (fun _ => rfl) fun z v hz hsame htold => ?_
    obtain ⟨n, hn, hc, hanswer⟩ := htold rfl
    have hlast : z.memory.lastScannedBlock = s.lastScannedBlock :=
      congrArg Watch.lastScannedBlock hsame
    refine ⟨hz, n, hpassed.answered rfl hn hc, ?_⟩
    rw [hlast]
    exact hanswer
  refine wp_next hasked ?_
  rintro found y t ⟨hpassed, n, hn, hfound⟩
  have hhandling : Holding i (.handling b events found) cfg steady y
      (RegistrationManager.notePassed found t) :=
    hpassed.step rfl rfl (.scanStakes (watch t) b n events found hn hfound)
  refine wp_modify_next.mpr ?_
  have hwithdrawn : part cfg steady i
      (RegistrationManager.collect (RegistrationManager.handlePastEvent cfg b) found)
      (fun _ => Holding i (.handling b events []) cfg steady) y
      (RegistrationManager.notePassed found t) :=
    collect_part (.handling b events) (fun e rest y t hy => handlePastEvent_part hy) found
      hhandling
  refine wp_next hwithdrawn fun withdrawn y t hy => ?_
  have hnoted : Holding i (.handling b events []) cfg steady y
      (RegistrationManager.modify (fun r => events.foldl RegistrationManager.noteHubEvent r) t) :=
    hy.step rfl rfl (.other (watch t) _ _ rfl (noteHubEvents_sameStake events _))
  refine wp_modify_next.mpr (wp_get_next.mpr (wp_modify_next.mpr ?_))
  refine wp_next (collect_part (.due b events) (fun e rest y t hy => handleDueEvent_part hy) _
    (hnoted.step rfl rfl (.extract _ b events))) fun unlocked y t hy => ?_
  have hend : ∀ w : Watch, w.mayEnd cfg (.due b events []) := fun _ => rfl
  refine wp_next (wp_silent ((silent_quiet cfg).registerIfNeeded b force) hend hy)
    fun registered y t hy => ?_
  exact hy.step rfl rfl (.scanned (watch t) b events)

/-! ## `_handleChanges` -/

/-- The events of the hub come sorted. -/
theorem getAllHubEventsSinceLastScan_part {b : Nat}
    (h : Holding i (.started b) cfg steady x s) :
    part cfg steady i RelayServer.getAllHubEventsSinceLastScan
      (fun events => Holding i (.fetched b (sortLatestFirst events)) cfg steady) x s := by
  refine wp_get_next.mpr (wp_question h (fun _ => rfl) fun z events hz hsame htold => ?_)
  obtain ⟨n, hn, hc, hanswer⟩ := htold rfl
  have hlast : z.memory.lastScannedBlock = s.lastScannedBlock :=
    congrArg Watch.lastScannedBlock hsame
  refine hz.step rfl rfl (.fetch (watch z.memory) b n _ (h.answered rfl hn hc) ?_)
  have heq : events = (z.memory.node.back n).query ActiveManagerEvents (s.lastScannedBlock + 1) :=
    hanswer
  rw [show (watch z.memory).lastScannedBlock = s.lastScannedBlock from hlast]
  exact heq ▸ List.perm_insertionSort notEarlier events

theorem updateLatestTxBlockNumber_part {b : Nat} {events : List EventData}
    (h : Holding i (.fetched b (sortLatestFirst events)) cfg steady x s) :
    part cfg steady i (RelayServer.updateLatestTxBlockNumber events)
      (fun sorted => Holding i (.fetched b sorted) cfg steady) x s := by
  have hend : ∀ w : Watch, w.mayEnd cfg (.fetched b (sortLatestFirst events)) := fun _ => rfl
  have hquiet := silent_quiet cfg
  refine wp_next (wp_silent (Family.whenever fun _ => hquiet.quiet _ (.lastMined _)) hend h)
    fun _ y t hy => ?_
  refine wp_get_next.mpr (wp_next (wp_silent (Family.whenever fun _ => ?_) hend hy)
    fun _ y t hy => hy)
  refine Family.next (awaiting_has (hquiet.read _ rfl) ?_) fun event =>
    hquiet.quiet _ (.lastMined _)
  exact Family.next (hquiet.read _ rfl) fun _ => Family.done _ _

/-- One turn of the loop over the events of the hub: a rejection raises an alert. -/
theorem handlePastHubEvent_part {b : Nat} {rest : List EventData} {e : EventData}
    (h : Holding i (.alerting b (e :: rest)) cfg steady x s) :
    part cfg steady i (RelayServer.handlePastHubEvent b e)
      (fun _ => Holding i (.alerting b rest) cfg steady) x s := by
  unfold RelayServer.handlePastHubEvent
  split
  next heq =>
    have hrejection : isRejection e = true := by simp [isRejection, heq]
    refine wp_modify_next.mpr (wp_modify_next.mpr ?_)
    have halerting : Holding i (.alerting b rest) cfg steady x
        (RelayServer.noteAlert e (RelayServer.setAlert b s)) :=
      h.step rfl rfl (.alert (watch s) b e rest hrejection)
    exact wp_question halerting (fun hfail => by cases hfail) fun _ _ hz _ _ => hz
  next heq =>
    have hskip : isRejection e = false := by simp [isRejection, heq]
    have halerting : Holding i (.alerting b rest) cfg steady x s :=
      h.step rfl rfl (.skipAlert (watch s) b e rest hskip)
    exact wp_question halerting (fun hfail => by cases hfail) fun _ _ hz _ _ => hz
  next hnot _ =>
    have hskip : isRejection e = false := by
      unfold isRejection
      simpa using hnot
    exact h.step rfl rfl (.skipAlert (watch s) b e rest hskip)

theorem handlePastHubEvents_part {b : Nat} (events : List EventData)
    (h : Holding i (.alerting b events) cfg steady x s) :
    part cfg steady i (RelayServer.handlePastHubEvents b events)
      (fun _ => Holding i (.alerting b []) cfg steady) x s := by
  unfold RelayServer.handlePastHubEvents
  induction events generalizing x s with
  | nil => exact h
  | cons e rest ih => exact wp_next (handlePastHubEvent_part h) fun _ y t hy => ih hy

/-- What is left to do once the server is registered. -/
theorem serveRegistered_part {b : Nat} {events : List EventData}
    (h : Holding i (.alerting b events) cfg steady x s) (managerBalance : Nat)
    (isRegistered : Bool) :
    part cfg steady i (RelayServer.serveRegistered cfg b managerBalance isRegistered events)
      (fun _ => Holding i (.alerting b []) cfg steady) x s := by
  have hend : ∀ w : Watch, w.mayEnd cfg (.alerting b []) := fun _ => rfl
  have hquiet := silent_quiet cfg
  refine wp_next (wp_awaiting (handlePastHubEvents_part events h) fun _ => holding_persists)
    fun _ y t hy => ?_
  refine wp_next (wp_silent (awaiting_has (hquiet.read _ rfl) (hquiet.replenishServer b)) hend hy)
    fun replenished y t hy => ?_
  refine wp_next (wp_silent (awaiting_has (hquiet.read _ rfl) (hquiet.read _ rfl)) hend hy)
    fun workerBalance y t hy => ?_
  refine (wp_ite _ _ _ _).mpr ⟨fun _ => wp_modify_next.mpr (hy.silent rfl rfl), fun _ => ?_⟩
  have hready : Holding i (.alerting b []) cfg steady y
      (RelayServer.setReadyState true ⟨managerBalance, some isRegistered, some workerBalance⟩ t) :=
    hy.silent rfl rfl
  refine wp_modify_next.mpr (wp_modify_next.mpr ?_)
  unfold RelayServer.leaveAlert
  split
  · exact hready.silent rfl rfl
  · exact hready

/-- The round has stored its block and goes on with the events, or it ends because the server is
not registered. -/
def Registered (cfg : Config) (steady : Bool) (i b : ℕ) (events : List EventData)
    (isRegistered : Bool) (x : State Chain) (s : Memory Chain) : Prop :=
  if isRegistered then Holding i (.alerting b events) cfg steady x s
  else Holding i (.stored b events) cfg steady x s ∧ s.registrationManager.isRegistered cfg = false

theorem isRegistered_part {b : Nat} {events : List EventData}
    (h : Holding i (.stored b events) cfg steady x s) :
    part cfg steady i (awaiting .isRegistered (do
        let m ← Async.get
        return m.registrationManager.isRegistered cfg))
      (Registered cfg steady i b events) x s := by
  refine wp_awaiting (wp_get_next.mpr ?_) fun isRegistered => ?_
  · change Registered cfg steady i b events (s.registrationManager.isRegistered cfg) x s
    unfold Registered
    split
    next hreg => exact h.step rfl rfl (.registered (watch s) b events hreg)
    next hreg => exact ⟨h, eq_false_of_ne_true hreg⟩
  · unfold Registered
    split
    · exact holding_persists
    · rintro y t ⟨hy, hreg⟩
      refine ⟨_, hy, fun z hz hsame => ⟨hz, ?_⟩⟩
      have heq : z.memory.registrationManager = t.registrationManager :=
        congrArg Watch.registrationManager hsame
      rwa [heq]

/-- **`_handleChanges`** takes a round from its start to a phase in which it may end. -/
theorem handleChanges_part {b : Nat} (h : Holding i (.started b) cfg steady x s)
    (managerBalance : Nat) :
    part cfg steady i (RelayServer.handleChanges cfg b managerBalance)
      (fun _ => MayEnd cfg steady i) x s := by
  have hquiet := silent_quiet cfg
  refine wp_next (wp_awaiting (getAllHubEventsSinceLastScan_part h) fun _ => holding_persists)
    fun events y t hy => ?_
  refine wp_next (wp_awaiting (updateLatestTxBlockNumber_part hy) fun _ => holding_persists)
    fun events y t hy => ?_
  have hend : ∀ w : Watch, w.mayEnd cfg (.fetched b events) := fun _ => rfl
  refine wp_next (wp_silent (awaiting_has (hquiet.read _ rfl) (hquiet.shouldRegisterAgain b)) hend
    hy) fun again y t hy => ?_
  refine wp_get_next.mpr (wp_next (wp_awaiting (handlePastEvents_part hy again)
    fun _ => holding_persists) fun transactionHashes y t hy => ?_)
  have hend : ∀ w : Watch, w.mayEnd cfg (.scanned b events) := fun _ => rfl
  refine wp_next (wp_silent (awaiting_has (hquiet.read _ rfl) (hquiet.remove b)) hend hy)
    fun _ y t hy => ?_
  refine wp_next (wp_silent (awaiting_has (hquiet.read _ rfl)
    (hquiet.boostStuckPendingTransactions b)) hend hy) fun _ y t hy => ?_
  have hstored : Holding i (.stored b events) cfg steady y (RelayServer.storeScan cfg b t) :=
    hy.step rfl rfl (.store (watch t) b events)
  refine wp_modify_next.mpr (wp_next (isRegistered_part hstored) fun isRegistered y t hy => ?_)
  unfold Registered at hy
  cases isRegistered with
  | false =>
      obtain ⟨hy, hreg⟩ : Holding i (.stored b events) cfg steady y t ∧ _ := hy
      exact wp_modify_next.mpr ⟨.stored b events, hy.silent rfl rfl, hreg⟩
  | true =>
      refine wp_next (serveRegistered_part hy managerBalance true) fun replenished y t hy => ?_
      exact ⟨.alerting b [], hy, rfl⟩

/-! ## `_worker` -/

theorem registrationInit_part {b : Nat} (h : Holding i (.begun b) cfg steady x s) :
    part cfg steady i RegistrationManager.init
      (fun _ => Holding i (.begun b) cfg steady) x s := by
  have hend : ∀ w : Watch, w.mayEnd cfg (.begun b) := fun _ => rfl
  have hquiet := silent_quiet cfg
  have hquery : ∀ {name : EventName}
      {f : Option EventData → RegistrationManager → RegistrationManager}
      {p : Prop} [Decidable p] {y : State Chain} {t : Memory Chain},
      (∀ event (r : RegistrationManager), r.SameStake (f event r)) →
      Holding i (.begun b) cfg steady y t →
        part cfg steady i (Async.whenever p (do
          let event ← awaiting .queryLatestEvent (RegistrationManager.queryLatestEvent name)
          Async.modify (RegistrationManager.modify (f event))))
          (fun _ => Holding i (.begun b) cfg steady) y t := by
    intro name f p _ y t hf hy
    refine (EventLoop.wp_whenever _ _ _).mpr ⟨fun _ => ?_, fun _ => hy⟩
    refine wp_next (wp_silent (awaiting_has (hquiet.read _ rfl) (hquiet.queryLatestEvent name)) hend
      hy) fun event y t hy => ?_
    exact hy.step rfl rfl (.other (watch t) _ _ rfl (hf event _))
  refine wp_get_next.mpr (wp_next (hquery (fun _ _ => ⟨rfl, rfl, rfl, rfl⟩) h) fun _ y t hy => ?_)
  refine wp_get_next.mpr (wp_next (hquery (fun _ _ => ⟨rfl, rfl, rfl, rfl⟩) hy) fun _ y t hy => ?_)
  exact hy.step rfl rfl (.other (watch t) _ _ rfl ⟨rfl, rfl, rfl, rfl⟩)

theorem init_part {b : Nat} (h : Holding i (.begun b) cfg steady x s)
    (hinit : s.initialized = false) :
    part cfg steady i (RelayServer.init cfg)
      (fun _ => Holding i (.started b) cfg steady) x s := by
  have hask : ∀ {q : Question} {y : State Chain} {t : Memory Chain},
      Holding i (.begun b) cfg steady y t → t.initialized = false →
        part cfg steady i (ask q)
          (fun _ y t => Holding i (.begun b) cfg steady y t ∧ t.initialized = false) y t := by
    intro q y t hy ht
    refine wp_question hy (fun _ => rfl) fun z _ hz hsame _ => ⟨hz, ?_⟩
    exact (congrArg Watch.initialized hsame).trans ht
  refine wp_get_next.mpr ?_
  have hassert : part cfg steady i (Async.assert (s.initialized = false) "_init was already called")
      (fun _ y t => Holding i (.begun b) cfg steady y t ∧ t.initialized = false) x s :=
    (wp_assert _ _ _).mpr ⟨fun _ => ⟨h, hinit⟩, fun _ => ⟨_, h, rfl⟩⟩
  refine wp_next hassert ?_
  rintro _ y t ⟨hy, ht⟩
  refine wp_modify_next.mpr (wp_next (hask (hy.silent rfl rfl) ht) ?_)
  rintro _ y t ⟨hy, ht⟩
  refine wp_next (hask hy ht) ?_
  rintro codeLength y t ⟨hy, ht⟩
  -- without the hub there is no answer any more
  have hfatal : part cfg steady i (Async.whenever (codeLength < 10) RelayServer.fatal)
      (fun _ y t => Holding i (.begun b) cfg steady y t ∧ t.initialized = false) y t := by
    refine (EventLoop.wp_whenever _ _ _).mpr ⟨fun _ => wp_modify_next.mpr ?_, fun _ => ⟨hy, ht⟩⟩
    exact hask (hy.silent rfl rfl) ht
  refine wp_next hfatal ?_
  rintro _ y t ⟨hy, ht⟩
  refine wp_modify_next.mpr ?_
  have hnew : Holding i (.begun b) cfg steady y (RegistrationManager.modify (fun _ => .new) t) :=
    hy.step rfl rfl (.renew (watch t) b .new ht ⟨rfl, rfl, rfl, rfl⟩)
  refine wp_next (wp_awaiting (registrationInit_part hnew) fun _ => holding_persists)
    fun _ y t hy => ?_
  refine wp_next (wp_question hy (fun _ => rfl) fun _ _ hz _ _ => hz) fun _ y t hy => ?_
  have hinitialized : Holding i (.begun b) cfg steady y { t with initialized := true } :=
    hy.step rfl rfl (.initialized (watch t) b)
  exact hinitialized.step rfl rfl (.start _ b rfl)

theorem refreshBalance_part {b : Nat} (h : Holding i (.started b) cfg steady x s) :
    part cfg steady i (RegistrationManager.refreshBalance cfg)
      (fun _ => Holding i (.started b) cfg steady) x s := by
  refine wp_next (wp_question h (fun _ => rfl) fun _ _ hz _ _ => hz) fun balance y t hy => ?_
  exact hy.step rfl rfl (.other (watch t) _ _ rfl ⟨rfl, rfl, rfl, rfl⟩)

/-- **`_worker`** takes a round from its beginning to a phase in which it may end. -/
theorem worker_part {b : Nat} (h : Holding i (.begun b) cfg steady x s) :
    part cfg steady i (RelayServer.worker cfg b) (fun _ => MayEnd cfg steady i) x s := by
  have hend : ∀ w : Watch, w.mayEnd cfg (.started b) := fun _ => rfl
  have hstarted : part cfg steady i (Async.whenever (s.initialized = false)
      (awaiting .init (RelayServer.init cfg)))
      (fun _ => Holding i (.started b) cfg steady) x s := by
    refine (EventLoop.wp_whenever _ _ _).mpr ⟨fun hinit => ?_, fun hinit => ?_⟩
    · exact wp_awaiting (init_part h hinit) fun _ => holding_persists
    · exact h.step rfl rfl (.start (watch s) b (eq_true_of_ne_false hinit))
  refine wp_get_next.mpr (wp_next hstarted fun _ y t hy => wp_get_next.mpr ?_)
  have hassert : part cfg steady i (Async.assert (¬ b ≤ t.lastScannedBlock)
      "Attempt to scan older block, aborting") (fun _ => Holding i (.started b) cfg steady) y t :=
    (wp_assert _ _ _).mpr ⟨fun _ => hy, fun _ => ⟨_, hy, rfl⟩⟩
  refine wp_next hassert fun _ y t hy => (wp_ite _ _ _ _).mpr ⟨fun _ => ⟨_, hy, rfl⟩, fun _ => ?_⟩
  have hquiet := silent_quiet cfg
  refine wp_modify_next.mpr (wp_next (wp_silent (awaiting_has (hquiet.read _ rfl)
    hquiet.refreshGasPrice) hend (hy.silent rfl rfl)) fun _ y t hy => ?_)
  refine wp_next (wp_awaiting (refreshBalance_part hy) fun _ => holding_persists)
    fun _ y t hy => wp_get_next.mpr ?_
  refine (wp_ite _ _ _ _).mpr ⟨fun _ => ?_, fun _ => ?_⟩
  · exact wp_modify_next.mpr ⟨.started b, hy.silent rfl rfl, rfl⟩
  · exact wp_awaiting (handleChanges_part hy _) fun _ => mayEnd_persists

/-! ## `_workerSemaphore` -/

/-- At the end of its round the thread gives the semaphore back. -/
theorem MayEnd.loose (h : MayEnd cfg steady i x s) :
    Loose cfg steady i x (RelayServer.releaseSemaphore s) := by
  obtain ⟨φ, hholding, hend⟩ := h
  refine ⟨fun heq => (by cases heq),
    fun e _ => ⟨⟨.idle, ?_, fun _ => rfl, fun j hj => (by cases hj)⟩,
    hholding.node, fun j hj => ⟨fun hother => ?_, fun hother => (by cases hother)⟩⟩⟩
  · exact hholding.scanned.step _ _ _ _ (.finish (watch s) φ hend)
  · exact absurd hother (hholding.others j hj)

/-- A thread without the semaphore that waits. -/
theorem wp_loose_awaiting {α : Type} {f : AsyncFunction} {p : Handler Chain α}
    (hp : wp (chainServer cfg steady) (scanning cfg steady) i p
      (fun _ => Loose cfg steady i) x s) :
    wp (chainServer cfg steady) (scanning cfg steady) i (awaiting f p)
      (fun _ => Loose cfg steady i) x s := by
  unfold awaiting Async.call
  rw [wp_handle]
  refine wp_mono (fun r y t hy => ?_) p hp
  have hwait : (Async.ask (Question.settled f) fun _ => Async.done r : Handler Chain α).Confined
      (fun _ => True) Silent := ⟨trivial, fun _ => trivial⟩
  exact wp_confined (loose_harmless i) hwait (fun _ _ _ h => h) hy

/-- The thread runs the worker, and knows the block of the round it may begin. -/
structure Ready (cfg : Config) (steady : Bool) (i b : ℕ) (x : State Chain) : Prop where
  semaphore : x.memory.workerSemaphoreOn ≠ some i
  running : (i, .intervalHandler) ∈ Server.running x.log
  block : b ≤ x.memory.node.blockNumber
  steady : steady = true → b = x.memory.node.blockNumber

theorem workerSemaphore_loose {b : ℕ} (hready : Ready cfg steady i b x)
    (hinv : (scanning cfg steady).inv x) (hlt : x.memory.lastScannedBlock < b) :
    wp (chainServer cfg steady) (scanning cfg steady) i (RelayServer.workerSemaphore cfg i b)
      (fun _ => Loose cfg steady i) x x.memory := by
  refine wp_get_next.mpr ((wp_ite _ _ _ _).mpr ⟨fun _ => .of_inv hinv hready.semaphore,
    fun hfree => wp_modify_next.mpr ?_⟩)
  have hnone : x.memory.workerSemaphoreOn = none := Option.not_isSome_iff_eq_none.mp hfree
  obtain ⟨φ, hscanned, hidle, -⟩ := hinv
  obtain rfl := hidle hnone
  have hbegun : Holding i (.begun b) cfg steady x (RelayServer.beginRound i b x.memory) := by
    refine ⟨fun j _ heq => ?_, rfl, rfl, ?_, hready.running⟩
    · rw [hnone] at heq
      cases heq
    · exact hscanned.step _ _ _ _ (.begin (watch x.memory) b hlt hready.block hready.steady)
  unfold Async.ensuring
  rw [wp_handle]
  have hworker : part cfg steady i (do
      let _transactions ← awaiting .worker (RelayServer.worker cfg b)
      Async.modify RelayServer.completeRound) (fun _ => MayEnd cfg steady i) x
      (RelayServer.beginRound i b x.memory) := by
    refine wp_next (wp_awaiting (worker_part hbegun) fun _ => mayEnd_persists) ?_
    rintro _ y t ⟨φ, hy, hend⟩
    exact ⟨φ, hy.silent rfl rfl, hend⟩
  refine wp_mono (fun r y t hr => ?_) _ hworker
  cases r with
  | ok _ => exact hr.loose
  | error e => exact MayEnd.loose hr

/-! ## `intervalHandler` -/

/-- What a thread that runs the worker knows while it waits for the number of the block. -/
theorem ready_stable (i : ℕ) (a : Except String ℕ) :
    Stable (chainServer cfg steady) (scanning cfg steady) i fun x =>
      (x.memory.workerSemaphoreOn ≠ some i ∧ (i, .intervalHandler) ∈ running x.log) ∧
        ∀ b, a = .ok b → b ≤ x.memory.node.blockNumber ∧
          (steady = true → b = x.memory.node.blockNumber) := by
  rintro x y ⟨⟨hsem, hrunning⟩, hblock⟩ hinv hinv' hmeets hstep
  refine ⟨⟨loose_stable i x y hsem hinv hinv' hmeets hstep, ?_⟩, fun b hb => ?_⟩
  · cases hstep with
    | thread j s e hne hthread hacts => exact mem_running_snoc hrunning hthread hne
    | outside events s hmoves => exact hrunning
  · obtain ⟨hle, hsteady⟩ := hblock b hb
    cases hstep with
    | thread j s e hne hthread hacts =>
        rw [show (x.snoc s e).memory.node = x.memory.node from hacts.1]
        exact ⟨hle, hsteady⟩
    | outside events s hmoves =>
        obtain ⟨c, hmine, rfl, hidle⟩ := chainServer_moves hmoves
        refine ⟨?_, fun hs => absurd hrunning (hidle hs i)⟩
        calc b ≤ x.memory.node.blockNumber := hle
          _ ≤ c.blockNumber := by rw [(Chain.mine_eq _ hmine).1]; exact Nat.le_succ _

theorem intervalHandler_loose (hinv : (scanning cfg steady).inv x)
    (hnot : x.memory.workerSemaphoreOn ≠ some i)
    (hrunning : (i, .intervalHandler) ∈ running x.log) :
    wp (chainServer cfg steady) (scanning cfg steady) i (RelayServer.intervalHandler cfg i)
      (fun _ => Loose cfg steady i) x x.memory := by
  unfold RelayServer.intervalHandler Async.recover
  rw [wp_handle]
  have hround : wp (chainServer cfg steady) (scanning cfg steady) i (do
      let blockNumber ← ask .getBlock
      let m ← Async.get
      Async.whenever (blockNumber > m.lastScannedBlock)
        (awaiting .workerSemaphore (RelayServer.workerSemaphore cfg i blockNumber)))
      (fun _ => Loose cfg steady i) x x.memory := by
    refine wp_ask _ _ (ready_stable i (.error "")) (ready_stable i) ?_ ?_ ?_
    · intro _
      refine ⟨(Loose.of_inv hinv hnot).keeps _ rfl, ⟨hnot, ?_⟩, fun b hb => by cases hb⟩
      rw [Shared.snoc_log, running_snoc]
      exact hrunning
    · rintro y a ⟨⟨hsem, hrunning⟩, -⟩ hinv hreplies _
      refine ⟨(Loose.of_inv hinv hsem).keeps _ rfl, ⟨hsem, ?_⟩, fun b hb => ?_⟩
      · rw [Shared.snoc_log, running_snoc]
        exact hrunning
      · subst hb
        have heq : b = y.memory.node.blockNumber := hreplies.2 rfl
        exact ⟨Nat.le_of_eq heq, fun _ => heq⟩
    · rintro z a ⟨⟨hsem, hrunning⟩, hblock⟩ hinv
      cases a with
      | error e => exact .of_inv hinv hsem
      | ok b =>
          obtain ⟨hle, hsteady⟩ := hblock b rfl
          refine wp_get_next.mpr ((EventLoop.wp_whenever _ _ _).mpr
            ⟨fun hlt => ?_, fun _ => .of_inv hinv hsem⟩)
          exact wp_loose_awaiting (workerSemaphore_loose ⟨hsem, hrunning, hle, hsteady⟩ hinv hlt)
  refine wp_mono (fun r y t hy => ?_) _ hround
  cases r with
  | ok _ => exact hy
  | error e => exact hy.silent rfl rfl

/-! ## The server is a scanner -/

/-- The handlers that do not run the worker are silent. -/
theorem handler_silent (i : ℕ) (c : Call) (hc : c ≠ .intervalHandler) :
    (handler cfg i c : Handler Chain Reply).Confined (fun _ => True) Silent := by
  let K : Family (Memory Chain) Question Answer := .confined (fun _ => True) Silent
  have hquiet : Quiet cfg K := silent_quiet cfg
  have hask : ∀ q, K.asks q := fun _ => Family.confined_asks.mpr trivial
  have hwrite : ∀ f, ManagerWrite f → K.writes f := fun _ hf => Family.confined_writes.mpr hf.silent
  have hhas : K.has (handler cfg i c : Handler Chain Reply) := by
    cases c with
    | createRelayTransaction req =>
        exact Family.next (hquiet.createRelayTransaction hquiet.replenishServer req) fun _ =>
          K.done _
    | intervalHandler => exact absurd rfl hc
    | readyTimeout j =>
        refine Family.next (Family.confined_writes.mpr ?_) fun _ => K.done _
        exact fun _ => ⟨rfl, rfl⟩
    | sendTransaction d => exact Family.next (hquiet.send d) fun _ => K.done _
    | pollNonce signer => exact Family.next (hquiet.poll signer) fun _ => K.done _
    | resendTransaction tx n gasPrice =>
        exact Family.next (resendTransaction_has cfg hask hwrite tx n gasPrice) fun _ => K.done _
    | boostUnderpricedPendingTransactionsForSigner signer n =>
        exact Family.next (hquiet.boost signer n) fun _ => K.done _
    | replenishServer n => exact Family.next (hquiet.replenishServer n) fun _ => K.done _
  exact hhas

theorem scanning_sound : Sound (chainServer cfg steady) (scanning cfg steady) where
  call x i c hinv hown _ _ := by
    have hnot : x.memory.workerSemaphoreOn ≠ some i := by
      obtain ⟨φ, -, -, hrunning⟩ := hinv
      exact fun heq => own_of_mem_running (hrunning i heq) hown
    refine ⟨(Loose.of_inv hinv hnot).keeps _ rfl, fun y hlater hy => ?_⟩
    by_cases hc : c = .intervalHandler
    · subst hc
      have hstart :
          (i, Call.intervalHandler) ∈ running (x.log ++ [.called i .intervalHandler]) := by
        rw [running_snoc]
        exact List.mem_cons_self
      obtain ⟨⟨hsem, hrunning⟩, -⟩ := (ready_stable i (.error "")).later hlater
        ⟨⟨hnot, hstart⟩, fun b hb => by cases hb⟩
      change wp _ _ i ((RelayServer.intervalHandler cfg i).handle
        (Async.next fun _ => .done (.ok Reply.nothing))) _ y y.memory
      rw [wp_handle]
      refine wp_mono (fun r z s hs => ?_) _ (intervalHandler_loose hy hsem hrunning)
      cases r with
      | ok _ => exact fun _ => ⟨hs.keeps _ rfl, trivial⟩
      | error e => exact fun _ => ⟨hs.keeps _ rfl, trivial⟩
    · have hsem := (loose_stable i).later hlater hnot
      refine wp_confined (loose_harmless i) (handler_silent i c hc) (fun r z s hs _ => ?_)
        (Loose.of_inv hy hsem)
      exact ⟨hs.keeps _ rfl, trivial⟩
  outside x events s hinv hmoves _ := by
    obtain ⟨c, hmine, rfl, hidle⟩ := chainServer_moves hmoves
    obtain ⟨φ, hscanned, hfree, hrunning⟩ := hinv
    refine ⟨φ, hscanned.step _ _ _ _ (.mine _ _ events c (fun hs => ?_) hmine), hfree, hrunning⟩
    cases hsem : x.memory.workerSemaphoreOn with
    | none => exact hfree hsem
    | some j => exact absurd (hrunning j hsem) (hidle hs j)
  restart x s hinv hrestart _ := by
    obtain rfl := Option.some.inj hrestart
    obtain ⟨φ, hscanned, -⟩ := hinv
    exact ⟨.idle, .restart _ φ hscanned, fun _ => rfl, fun j hj => by cases hj⟩

/-- **The server is a scanner**: in every run on a chain, whatever else the server does, what it
knows of the hub and has done about it is what a scanner has reached. -/
theorem run_scans {txstore : List StoredTransaction} {signatures : List Signature}
    {p : Pool Call (Memory Chain) Question Answer Reply}
    (hrun : Run (chainServer cfg steady) Anyhow (.fresh cfg txstore signatures .genesis) p) :
    ∃ φ, Scanned cfg steady (watch p.shared.memory) φ ∧
      (p.shared.memory.workerSemaphoreOn = none → φ = .idle) := by
  have hstart : (scanning cfg steady).inv ⟨.fresh cfg txstore signatures .genesis, []⟩ :=
    ⟨.idle, .start, fun _ => rfl, fun i hi => by cases hi⟩
  obtain ⟨φ, hscanned, hidle, -⟩ := (run_sound scanning_sound hstart hrun).inv
  exact ⟨φ, hscanned, hidle⟩

end RifRelay.Server
