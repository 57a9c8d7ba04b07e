import RifRelay.Server.Footprints

set_option autoImplicit false

/-! # Readiness

Two things decide whether the server is ready: the flag `ready`, which the refreshes of the
state set, and the number of rounds since the last failure, which is set back by a failing
round and by the timer. Both keep up with what has happened in every interleaving, because
each single write does (`Justified`).
-/

namespace RifRelay.Server

open EventLoop TransactionManager

variable {ν ω : Type} (cfg : Config) (N : Node ν ω)

@[simp] theorem notePayout_outcomes (d : SendTransactionDetails) (r : Record) :
    (RegistrationManager.notePayout d r).outcomes = r.outcomes := by
  unfold RegistrationManager.notePayout
  split <;> rfl

@[simp] theorem notePayout_refreshes (d : SendTransactionDetails) (r : Record) :
    (RegistrationManager.notePayout d r).refreshes = r.refreshes := by
  unfold RegistrationManager.notePayout
  split <;> rfl

/-! ## The invariant -/

/-- Some round has failed or has timed out. -/
def HasFailed (outcomes : List Outcome) : Prop := ∃ outcome ∈ outcomes, outcome ≠ .completed

/-- The rounds completed since the last failure. -/
def completedSinceFailure (outcomes : List Outcome) : Nat :=
  (outcomes.reverse.takeWhile (· = .completed)).length

theorem completedSinceFailure_completed (outcomes : List Outcome) :
    completedSinceFailure (outcomes ++ [.completed]) = completedSinceFailure outcomes + 1 := by
  simp [completedSinceFailure]

theorem hasFailed_completed (outcomes : List Outcome) :
    HasFailed (outcomes ++ [.completed]) ↔ HasFailed outcomes := by
  simp [HasFailed, or_and_right]

/-- The flag `ready` goes back to what the last refresh has found, and the counter of rounds
counts only rounds since the last failure. -/
structure Justified (m : Memory ν) : Prop where
  ready : m.ready = true →
    ∃ found, m.record.refreshes.getLast? = some found ∧ found.Sufficient cfg
  rounds : HasFailed m.record.outcomes →
    m.lastSuccessfulRounds ≤ completedSinceFailure m.record.outcomes

variable {cfg N}

theorem Justified.congr {m m' : Memory ν} (h : Justified cfg m) (hready : m'.ready = m.ready)
    (hrefreshes : m'.record.refreshes = m.record.refreshes)
    (hrounds : m'.lastSuccessfulRounds = m.lastSuccessfulRounds)
    (houtcomes : m'.record.outcomes = m.record.outcomes) : Justified cfg m' := by
  refine ⟨fun hr => ?_, fun hf => ?_⟩
  · rw [hrefreshes]
    exact h.ready (hready ▸ hr)
  · rw [houtcomes] at hf ⊢
    rw [hrounds]
    exact h.rounds hf

theorem Justified.managerWrite {f : Memory ν → Memory ν} (hf : ManagerWrite f) (m : Memory ν)
    (h : Justified cfg m) : Justified cfg (f m) := by
  obtain ⟨nonces, mutex, signatures, heq⟩ := hf.shape m
  rw [heq]
  exact h.congr rfl rfl rfl rfl

theorem Justified.quietWrite {f : Memory ν → Memory ν} (hf : QuietWrite f) (m : Memory ν)
    (h : Justified cfg m) : Justified cfg (f m) := by
  cases hf <;> exact h.congr rfl rfl rfl rfl

theorem Justified.completeRound {m : Memory ν} (h : Justified cfg m) :
    Justified cfg (RelayServer.completeRound m) where
  ready := h.ready
  rounds := by
    intro hf
    have hbefore : HasFailed m.record.outcomes := (hasFailed_completed _).mp hf
    calc RelayServer.countRound m.lastSuccessfulRounds ≤ m.lastSuccessfulRounds + 1 :=
          Nat.min_le_left _ _
      _ ≤ completedSinceFailure m.record.outcomes + 1 := Nat.succ_le_succ (h.rounds hbefore)
      _ = completedSinceFailure (m.record.outcomes ++ [.completed]) :=
          (completedSinceFailure_completed _).symm

theorem Justified.roundWrite {f : Memory ν → Memory ν} (hf : RoundWrite cfg f) (m : Memory ν)
    (h : Justified cfg m) : Justified cfg (f m) := by
  cases hf with
  | payout d => exact h.congr rfl (notePayout_refreshes d _) rfl (notePayout_outcomes d _)
  | inRound g => exact h.congr rfl rfl rfl rfl
  | noteScanned => exact h.congr rfl rfl rfl rfl
  | storeScan n => exact h.congr rfl rfl rfl rfl
  | noteAlert e => exact h.congr rfl rfl rfl rfl
  | leaveAlert n =>
      unfold RelayServer.leaveAlert
      split <;> exact h.congr rfl rfl rfl rfl
  | notReady found => exact ⟨fun hr => (Bool.false_ne_true hr).elim, h.rounds⟩
  | ready found hfound => exact ⟨fun _ => ⟨found, List.getLast?_concat, hfound⟩, h.rounds⟩
  | complete => exact h.completeRound
  | reset outcome _ => exact ⟨h.ready, fun _ => Nat.zero_le _⟩
  | _ => exact h.congr rfl rfl rfl rfl

theorem Justified.fresh (txstore : List StoredTransaction) (signatures : List Signature)
    (node : ν) : Justified cfg (.fresh cfg txstore signatures node) :=
  ⟨fun hr => (Bool.false_ne_true hr).elim, fun ⟨_, hmem, _⟩ => (List.not_mem_nil hmem).elim⟩

theorem justified_keepsAll : KeepsAll (server cfg N) (Justified cfg) where
  body := handler_has cfg
    (K := .confined (fun _ => True) fun f => ∀ m, Justified cfg m → Justified cfg (f m))
    (fun _ => Family.confined_asks.mpr trivial)
    (fun _ hf => Family.confined_writes.mpr (Justified.managerWrite hf))
    (fun _ hf => Family.confined_writes.mpr (Justified.quietWrite hf))
    (fun _ hf => Family.confined_writes.mpr (Justified.roundWrite hf))
  effect x i q a _ h := by
    obtain ⟨mutex, txstore, node, heq⟩ := effect_shape N x.memory i q a
    have hkept : Justified cfg (effect N x.memory i q a) := by
      rw [heq]
      exact h.congr rfl rfl rfl rfl
    exact hkept
  outside x w m hmoves h := by
    obtain ⟨node, _, rfl⟩ := Option.map_eq_some_iff.mp hmoves
    exact h.congr rfl rfl rfl rfl
  restart x m hrestart _ := by
    obtain rfl := Option.some.inj hrestart
    exact .fresh _ _ _

/-- **Readiness is justified.** In every run, when the server is ready, the last refresh of the
state has found the balance of the manager and of the worker sufficient and the server
registered, and if a round has ever failed or timed out, enough rounds have been completed
since. -/
theorem isReady_justified {txstore : List StoredTransaction} {signatures : List Signature}
    {node : ν} {p : Pool Call (Memory ν) Question Answer Reply}
    (hrun : Run (server cfg N) Anyhow (.fresh cfg txstore signatures node) p)
    (hready : RelayServer.isReady cfg p.shared.memory = true) :
    (∃ found, p.shared.memory.record.refreshes.getLast? = some found ∧ found.Sufficient cfg) ∧
      (HasFailed p.shared.memory.record.outcomes →
        cfg.successfulRoundsForReady ≤
          completedSinceFailure p.shared.memory.record.outcomes) := by
  have h : Justified cfg p.shared.memory :=
    run_keeps justified_keepsAll (.fresh txstore signatures node) hrun
  have hboth : cfg.successfulRoundsForReady ≤ p.shared.memory.lastSuccessfulRounds ∧
      p.shared.memory.ready = true := by
    unfold RelayServer.isReady at hready
    split at hready
    · cases hready
    · exact ⟨Nat.le_of_not_lt ‹_›, hready⟩
  constructor
  · exact h.ready hboth.2
  · intro hfailed
    calc cfg.successfulRoundsForReady ≤ p.shared.memory.lastSuccessfulRounds := hboth.1
      _ ≤ completedSinceFailure p.shared.memory.record.outcomes := h.rounds hfailed

/-- Answers to a server that is staked and has registered. -/
def registeredAnswer : (q : Question) → Except String (Answer q)
  | .getBlock => .ok 7
  | .getCode _ => .ok 100
  | .getPastEvents names _ =>
      .ok (if names = [.RelayServerRegistered] then
          [⟨5, 0, 0, .RelayServerRegistered 0x11 "http://localhost:8090"⟩]
        else if names = stakeEvents then [⟨4, 0, 0, .StakeAdded 0x11 0x55 20 1000⟩]
        else [])
  | .getStakeInfo => .ok ⟨20, 1000, 0, 0x55⟩
  | .getGasPrice => .ok 1
  | .getBalance _ _ => .ok 100
  | .find => .ok []
  | .findBySigner _ => .ok []
  | .settled _ => .ok ()
  | _ => .error "no answer"

/-- A round that fails at once, and one that is completed. -/
def twoRounds : List (Move Call Question Answer Unit) :=
  .call 0 .intervalHandler :: Move.turns 0 (fun _ => .error "no answer") 1 ++
    .call 1 .intervalHandler :: Move.turns 1 registeredAnswer 58

theorem twoRounds_plays :
    ((Pool.start (.fresh plainConfig [] [] ())).play (server plainConfig anyNode) Anyhow
      twoRounds).isSome = true := by
  decide +kernel

def readyServer : Pool Call (Memory Unit) Question Answer Reply := Option.get _ twoRounds_plays

theorem isReady_justified_readyServer :
    (∃ found, readyServer.shared.memory.record.refreshes.getLast? = some found ∧
      found.Sufficient plainConfig) ∧
      1 ≤ completedSinceFailure readyServer.shared.memory.record.outcomes :=
  have h := isReady_justified (Run.of_isSome twoRounds_plays)
    (show RelayServer.isReady plainConfig readyServer.shared.memory = true by decide +kernel)
  ⟨h.1, h.2 ⟨.failed, by decide +kernel, by decide⟩⟩

end RifRelay.Server
