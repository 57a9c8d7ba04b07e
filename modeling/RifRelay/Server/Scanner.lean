import RifRelay.Server.HubChain

set_option autoImplicit false

/-! # The rounds as a scanner of the chain

What a round of the worker does with the events of the hub, apart from everything else: it
fetches the events since the last scanned block (`Scan.fetch`, `Scan.scanStakes`), looks at the
stake (`Scan.refresh`), withdraws the funds (`Scan.withdraw`, `Scan.unlock`, `Scan.pay`), moves
the last scanned block (`Scan.store`), raises alerts (`Scan.alert`), and ends, or fails where it
may fail (`Scan.finish`). The chain grows at any time, or between rounds only if it is `steady`.

`Server/Scans.lean` shows that the server does nothing else.
-/

namespace RifRelay.Server

open EventLoop KnownRelaysManager

/-! ## States -/

/-- What the scanner is about. -/
structure Watch where
  chain : Chain
  lastScannedBlock : Nat
  initialized : Bool
  registrationManager : RegistrationManager
  rounds : List Round
  stakes : List StakeInfo
  payouts : List Payout

/-- Where a round is, and what it holds: its block, the events of the hub it has fetched, and
the events that are still to be handled. -/
inductive Phase
  | idle
  | begun (b : Nat)
  | started (b : Nat)
  | fetched (b : Nat) (events : List EventData)
  | passed (b : Nat) (events : List EventData)
  | handling (b : Nat) (events rest : List EventData)
  | refreshed (b : Nat) (events : List EventData) (e : EventData) (rest : List EventData)
  | paying (e : EventData) (next : Phase)
  | due (b : Nat) (events rest : List EventData)
  | scanned (b : Nat) (events : List EventData)
  | stored (b : Nat) (events : List EventData)
  | alerting (b : Nat) (rest : List EventData)

namespace Phase

/-- The block of the round. -/
def block : Phase → Option Nat
  | .idle => none
  | .begun b | .started b | .fetched b _ | .passed b _ | .handling b _ _ | .refreshed b _ _ _
  | .due b _ _ | .scanned b _ | .stored b _ | .alerting b _ => some b
  | .paying _ next => next.block

/-- A round may fail here: it is under way and has not stored its block. -/
def canFail : Phase → Bool
  | .idle | .stored _ _ | .alerting _ _ => false
  | .begun _ | .started _ | .fetched _ _ | .passed _ _ | .handling _ _ _ | .refreshed _ _ _ _
  | .due _ _ _ | .scanned _ _ => true
  | .paying _ next => next.canFail

end Phase

/-- A state of the registration manager as the constructor leaves it, as far as the stake is
concerned. -/
def RegistrationManager.Blank (r : RegistrationManager) : Prop :=
  r.stake = 0 ∧ r.isStakeLocked = false ∧ r.ownerAddress = none ∧ r.delayedEvents = []

/-- Two states of the registration manager agree about the stake. -/
def RegistrationManager.SameStake (r r' : RegistrationManager) : Prop :=
  r'.stake = r.stake ∧ r'.isStakeLocked = r.isStakeLocked ∧ r'.ownerAddress = r.ownerAddress ∧
    r'.delayedEvents = r.delayedEvents

/-- An event that raises an alert. -/
def isRejection (e : EventData) : Bool :=
  eventName e.event == some .TransactionRejectedByRecipient

/-- A round may end here. -/
def Watch.mayEnd (cfg : Config) (w : Watch) (φ : Phase) : Prop :=
  match φ with
  | .stored _ _ => w.registrationManager.isRegistered cfg = false
  | .alerting _ rest => rest = []
  | _ => φ.canFail = true

namespace Watch

def inRound (f : Round → Round) (w : Watch) : Watch := { w with rounds := inLatest f w.rounds }

/-- A new process on a chain. -/
def fresh (c : Chain) : Watch := ⟨c, 0, false, .new, [], [], []⟩

def pass (events : List EventData) (w : Watch) : Watch :=
  w.inRound fun r => { r with passed := r.passed ++ events }

def withdraw (e : EventData) (w : Watch) : Watch :=
  w.inRound fun r => { r with withdrawn := r.withdrawn ++ [e] }

def registration (f : RegistrationManager → RegistrationManager) (w : Watch) : Watch :=
  { w with registrationManager := f w.registrationManager }

def learn (info : StakeInfo) (w : Watch) : Watch :=
  { w with
    stakes := w.stakes ++ [info]
    registrationManager := w.registrationManager.refreshed info }

def pay (e : EventData) (d : SendTransactionDetails) (w : Watch) : Watch :=
  { w with payouts := w.payouts ++ [⟨e, d, w.stakes⟩] }

def beginRound (b : Nat) (w : Watch) : Watch :=
  { w with rounds := ⟨w.lastScannedBlock, b, [], [], none, none, []⟩ :: w.rounds }

def markScanned (cfg : Config) (w : Watch) : Watch :=
  w.inRound fun r => { r with scanned := some (w.registrationManager.isRegistered cfg) }

def store (cfg : Config) (b : Nat) (w : Watch) : Watch :=
  { w.inRound fun r => { r with stored := some (w.registrationManager.isRegistered cfg) } with
    lastScannedBlock := b }

def alert (b : Nat) (e : EventData) (w : Watch) : Watch :=
  w.inRound fun r => { r with alerts := r.alerts ++ [⟨e, true, b⟩] }

end Watch

/-! ## Steps -/

variable (cfg : Config) (steady : Bool)

/-- The answer to a query that was given when the block `h` was the latest one, with `h` no
earlier than the block of the round. -/
def Answered (c : Chain) (b h : Nat) : Prop := b ≤ h ∧ h ≤ c.blockNumber

inductive Scan : Watch → Phase → Watch → Phase → Prop
  | mine (w : Watch) (φ : Phase) (events : List EventData) (c : Chain)
      (hsteady : steady = true → φ = .idle)
      (hmine : w.chain.mine cfg.managerAddress events = some c) :
      Scan w φ { w with chain := c } φ
  | begin (w : Watch) (b : Nat) (hlt : w.lastScannedBlock < b) (hb : b ≤ w.chain.blockNumber)
      (hsteady : steady = true → b = w.chain.blockNumber) :
      Scan w .idle (w.beginRound b) (.begun b)
  | renew (w : Watch) (b : Nat) (r : RegistrationManager) (hinit : w.initialized = false)
      (hblank : r.Blank) : Scan w (.begun b) (w.registration fun _ => r) (.begun b)
  | initialized (w : Watch) (b : Nat) : Scan w (.begun b) { w with initialized := true } (.begun b)
  | start (w : Watch) (b : Nat) (hinit : w.initialized = true) : Scan w (.begun b) w (.started b)
  | other (w : Watch) (φ : Phase) (r : RegistrationManager)
      (hfail : φ.canFail = true) (hsame : w.registrationManager.SameStake r) :
      Scan w φ (w.registration fun _ => r) φ
  | fetch (w : Watch) (b h : Nat) (events : List EventData) (hh : Answered w.chain b h)
      (hevents : events.Perm
        ((w.chain.back h).query ActiveManagerEvents (w.lastScannedBlock + 1))) :
      Scan w (.started b) w (.fetched b events)
  | pass (w : Watch) (b : Nat) (events : List EventData) :
      Scan w (.fetched b events) (w.pass events) (.passed b events)
  | scanStakes (w : Watch) (b h : Nat) (events found : List EventData)
      (hh : Answered w.chain b h)
      (hfound : found = (w.chain.back h).query stakeEvents (w.lastScannedBlock + 1)) :
      Scan w (.passed b events) (w.pass found) (.handling b events found)
  | refresh (w : Watch) (b h : Nat) (events : List EventData) (e : EventData)
      (rest : List EventData) (hh : Answered w.chain b h) :
      Scan w (.handling b events (e :: rest))
        (w.learn (w.chain.stakeAt cfg.managerAddress h)) (.refreshed b events e rest)
  | added (w : Watch) (b : Nat) (events : List EventData) (e : EventData)
      (rest : List EventData) (he : isStakeAdded e = true) :
      Scan w (.refreshed b events e rest) w (.handling b events rest)
  | delay (w : Watch) (b : Nat) (events : List EventData) (e : EventData)
      (rest : List EventData) (relayManager owner : Address) (withdrawBlock : Word)
      (he : e.event = .StakeUnlocked relayManager owner withdrawBlock) :
      Scan w (.refreshed b events e rest) (w.registration (·.delay withdrawBlock e))
        (.handling b events rest)
  | withdraw (w : Watch) (b : Nat) (events : List EventData) (e : EventData)
      (rest : List EventData) (he : isStakeWithdrawn e = true) :
      Scan w (.refreshed b events e rest) (w.withdraw e) (.paying e (.handling b events rest))
  | pay (w : Watch) (e : EventData) (φ : Phase) (d : SendTransactionDetails)
      (hd : d.destination = w.registrationManager.ownerAddress) :
      Scan w (.paying e φ) (w.pay e d) (.paying e φ)
  | paid (w : Watch) (e : EventData) (φ : Phase) : Scan w (.paying e φ) w φ
  | skip (w : Watch) (b : Nat) (events : List EventData) (e : EventData)
      (rest : List EventData) (he : isStakeEvent e = false) :
      Scan w (.handling b events (e :: rest)) w (.handling b events rest)
  | extract (w : Watch) (b : Nat) (events : List EventData) :
      Scan w (.handling b events []) (w.registration (·.withoutDueEvents b))
        (.due b events (w.registrationManager.duePendingEvents b))
  | unlock (w : Watch) (b : Nat) (events : List EventData) (e : EventData)
      (rest : List EventData) (he : eventName e.event = some .StakeUnlocked) :
      Scan w (.due b events (e :: rest)) (w.withdraw e) (.paying e (.due b events rest))
  | skipDue (w : Watch) (b : Nat) (events : List EventData) (e : EventData)
      (rest : List EventData) (he : eventName e.event ≠ some .StakeUnlocked) :
      Scan w (.due b events (e :: rest)) w (.due b events rest)
  | scanned (w : Watch) (b : Nat) (events : List EventData) :
      Scan w (.due b events []) (w.markScanned cfg) (.scanned b events)
  | store (w : Watch) (b : Nat) (events : List EventData) :
      Scan w (.scanned b events) (w.store cfg b) (.stored b events)
  | registered (w : Watch) (b : Nat) (events : List EventData)
      (h : w.registrationManager.isRegistered cfg = true) :
      Scan w (.stored b events) w (.alerting b events)
  | alert (w : Watch) (b : Nat) (e : EventData) (rest : List EventData)
      (he : isRejection e = true) :
      Scan w (.alerting b (e :: rest)) (w.alert b e) (.alerting b rest)
  | skipAlert (w : Watch) (b : Nat) (e : EventData) (rest : List EventData)
      (he : isRejection e = false) :
      Scan w (.alerting b (e :: rest)) w (.alerting b rest)
  | finish (w : Watch) (φ : Phase) (h : w.mayEnd cfg φ) : Scan w φ w .idle

/-- What is reached from a new process on the empty chain; the process may be started again at
any time. -/
inductive Scanned : Watch → Phase → Prop
  | start : Scanned (.fresh .genesis) .idle
  | restart (w : Watch) (φ : Phase) (h : Scanned w φ) : Scanned (.fresh w.chain) .idle
  | step (w : Watch) (φ : Phase) (w' : Watch) (φ' : Phase) (h : Scanned w φ)
      (hstep : Scan cfg steady w φ w' φ') : Scanned w' φ'

variable {cfg steady}

/-! ## What holds of every scanner -/

/-- A property of states that every step keeps, and that a new process has, holds always. -/
theorem Scanned.induct {P : Watch → Phase → Prop} (hstart : P (.fresh .genesis) .idle)
    (hrestart : ∀ w φ, P w φ → P (.fresh w.chain) .idle)
    (hstep : ∀ w φ w' φ', Scanned cfg steady w φ → P w φ → Scan cfg steady w φ w' φ' → P w' φ')
    {w : Watch} {φ : Phase} (h : Scanned cfg steady w φ) : P w φ := by
  induction h with
  | start => exact hstart
  | restart w φ _ ih => exact hrestart w φ ih
  | step w φ w' φ' h hs ih => exact hstep w φ w' φ' h ih hs

/-- A step mines a block or leaves the chain alone. -/
theorem Scan.chain {w w' : Watch} {φ φ' : Phase} (h : Scan cfg steady w φ w' φ') :
    w'.chain = w.chain ∨ ∃ events, w.chain.mine cfg.managerAddress events = some w'.chain := by
  cases h with
  | mine _ events c hsteady hmine => exact Or.inr ⟨events, hmine⟩
  | _ => exact Or.inl rfl

theorem Scanned.sound {w : Watch} {φ : Phase} (h : Scanned cfg steady w φ) :
    w.chain.Sound cfg.managerAddress := by
  refine Scanned.induct (P := fun w _ => w.chain.Sound cfg.managerAddress)
    (Chain.genesis_sound _) (fun _ _ hw => hw) ?_ h
  intro w φ w' φ' _ hsound hstep
  rcases hstep.chain with heq | ⟨events, hmine⟩
  · rwa [heq]
  · exact Chain.Sound.mine _ hsound hmine

/-! ## The round that is going on -/

/-- The round that is going on is the latest one, and its block is in the chain. -/
def Current (steady : Bool) (w : Watch) (φ : Phase) : Prop :=
  ∀ b, φ.block = some b → b ≤ w.chain.blockNumber ∧
    (steady = true → b = w.chain.blockNumber) ∧ ∃ r past, w.rounds = r :: past ∧ r.blockNumber = b

theorem mem_inLatest {f : Round → Round} {rounds : List Round} {r' : Round}
    (h : r' ∈ inLatest f rounds) : r' ∈ rounds ∨ ∃ r past, rounds = r :: past ∧ r' = f r := by
  cases rounds with
  | nil => exact Or.inl h
  | cons r past =>
      rcases List.mem_cons.mp h with heq | hmem
      · exact Or.inr ⟨r, past, rfl, heq⟩
      · exact Or.inl (List.mem_cons_of_mem _ hmem)

/-- Writing the round that is going on keeps what holds of all rounds. -/
theorem forall_inLatest {P : Round → Prop} {f : Round → Round} {rounds : List Round}
    (h : ∀ r ∈ rounds, P r) (hf : ∀ r past, rounds = r :: past → P r → P (f r)) :
    ∀ r ∈ inLatest f rounds, P r := by
  intro r' hr'
  rcases mem_inLatest hr' with hmem | ⟨r, past, hrounds, rfl⟩
  · exact h r' hmem
  · exact hf r past hrounds (h r (by rw [hrounds]; exact List.mem_cons_self))

theorem Current.of_inLatest {w : Watch} {φ φ' : Phase} {f : Round → Round}
    (h : Current steady w φ) (hblock : φ'.block = φ.block)
    (hf : ∀ r, (f r).blockNumber = r.blockNumber) : Current steady (w.inRound f) φ' := by
  intro b hb
  obtain ⟨hle, hsteady, r, past, hrounds, hr⟩ := h b (hblock ▸ hb)
  refine ⟨hle, hsteady, f r, past, ?_, (hf r).trans hr⟩
  simp only [Watch.inRound, hrounds, inLatest]

theorem Scanned.current {w : Watch} {φ : Phase} (h : Scanned cfg steady w φ) :
    Current steady w φ := by
  refine Scanned.induct (P := Current steady) (fun b hb => by cases hb)
    (fun _ _ _ b hb => by cases hb) ?_ h
  intro w φ w' φ' _ ih hstep
  cases hstep with
  | mine _ events c hidle hmine =>
      intro b hb
      obtain ⟨hle, -, hround⟩ := ih b hb
      refine ⟨?_, fun hs => ?_, hround⟩
      · rw [(Chain.mine_eq _ hmine).1]
        exact Nat.le_succ_of_le hle
      · rw [hidle hs] at hb
        cases hb
  | begin b hlt hb hsteady =>
      intro b' hb'
      obtain rfl := Option.some.inj hb'
      exact ⟨hb, hsteady, _, _, rfl, rfl⟩
  | pass b events => exact ih.of_inLatest rfl fun _ => rfl
  | scanStakes b h events found hh hfound => exact ih.of_inLatest rfl fun _ => rfl
  | withdraw b events e rest he => exact ih.of_inLatest rfl fun _ => rfl
  | unlock b events e rest he => exact ih.of_inLatest rfl fun _ => rfl
  | scanned b events => exact ih.of_inLatest rfl fun _ => rfl
  | store b events =>
      have hround : Current steady (w.inRound fun r =>
          { r with stored := some (w.registrationManager.isRegistered cfg) }) (.stored b events) :=
        ih.of_inLatest rfl fun _ => rfl
      exact hround
  | alert b e rest he => exact ih.of_inLatest rfl fun _ => rfl
  | finish _ hend =>
      intro b hb
      cases hb
  | _ => exact ih

/-- A round pays for one event at a time, and this event is the last one that the round has
withdrawn the funds for. -/
def Phase.PaysLast (rounds : List Round) : Phase → Prop
  | .paying e next => (∀ e' next', next ≠ .paying e' next') ∧ (∃ b, next.block = some b) ∧
      rounds.head?.bind (·.withdrawn.getLast?) = some e
  | _ => True

theorem Watch.withdraw_last {w : Watch} {e : EventData} {φ : Phase} {b : Nat}
    (h : Current steady w φ) (hb : φ.block = some b) :
    (w.withdraw e).rounds.head?.bind (·.withdrawn.getLast?) = some e := by
  obtain ⟨-, -, r, past, hrounds, -⟩ := h b hb
  simp only [Watch.withdraw, Watch.inRound, hrounds, inLatest, List.head?_cons, Option.bind_some,
    List.getLast?_concat]

theorem Scanned.paysLast {w : Watch} {φ : Phase} (h : Scanned cfg steady w φ) :
    φ.PaysLast w.rounds := by
  refine Scanned.induct (P := fun w φ => φ.PaysLast w.rounds) trivial (fun _ _ _ => trivial) ?_ h
  intro w φ w' φ' hscanned ih hstep
  cases hstep with
  | mine _ events c hidle hmine => exact ih
  | other _ r hfail hsame => exact ih
  | withdraw b events e rest he =>
      exact ⟨fun _ _ h => Phase.noConfusion h, ⟨b, rfl⟩, Watch.withdraw_last hscanned.current rfl⟩
  | unlock b events e rest he =>
      exact ⟨fun _ _ h => Phase.noConfusion h, ⟨b, rfl⟩, Watch.withdraw_last hscanned.current rfl⟩
  | pay e φ d hd => exact ih
  | paid e =>
      cases φ' with
      | paying e' next => exact absurd rfl (ih.1 e' next)
      | _ => trivial
  | _ => trivial

end RifRelay.Server
