import RifRelay.Server.Rounds
import RifRelay.Server.StakeScans

set_option autoImplicit false

/-! # What the server believes about its stake, and what it does about it

The hub may emit the events of the stake in any order it can, and a steady server cuts their
history into scans in any way, with restarts.

* `scanned_staked_iff` — when the server takes itself for registered it is staked, unless its
  stake is gone: then the flags are those of a stake of the past.
* `withdrawn_gone_iff` — when the server withdraws its funds the stake is gone, unless it was
  staked anew since the event.
* `payout_owner_iff` — the funds go to the owner of the stake that is given up if it is the first
  owner that the process has heard of.
-/

namespace RifRelay.Server

open EventLoop KnownRelaysManager

variable {cfg : Config} {txstore : List StoredTransaction} {signatures : List Signature}
  {p : Pool Call (Memory Chain) Question Answer Reply}

/-! ## Being registered -/

/-- **A registered server is staked, unless nothing is.** -/
theorem scanned_staked_iff
    (hrun : Run (chainServer cfg true) Anyhow (.fresh cfg txstore signatures .genesis) p)
    {r : Round} (hr : r ∈ p.shared.memory.record.rounds) (hregistered : r.scanned = some true) :
    (cfg.managerMinStake ≤
        (p.shared.memory.node.stakeAt cfg.managerAddress r.blockNumber).stake.toNat ∧
      (p.shared.memory.node.stakeAt cfg.managerAddress r.blockNumber).withdrawBlock = 0) ↔
      (p.shared.memory.node.stakeAt cfg.managerAddress r.blockNumber).stake ≠ 0 ∨
        cfg.managerMinStake = 0 ∧
          (p.shared.memory.node.stakeAt cfg.managerAddress r.blockNumber).withdrawBlock = 0 := by
  obtain ⟨φ, hscanned, -⟩ := run_scans hrun
  obtain ⟨-, hbelieved⟩ := hscanned.believer.rounds r hr
  constructor
  · rintro ⟨hstake, hlocked⟩
    by_cases hzero : (p.shared.memory.node.stakeAt cfg.managerAddress r.blockNumber).stake = 0
    · rw [hzero] at hstake
      exact Or.inr ⟨Nat.le_zero.mp hstake, hlocked⟩
    · exact Or.inl hzero
  · rintro (hstake | ⟨hnone, hlocked⟩)
    · exact hbelieved hregistered hstake
    · exact ⟨by rw [hnone]; exact Nat.zero_le _, hlocked⟩

/-- The stake of the manager is slashed. -/
def slashedBlock : List EventData := [⟨2, 0, 0, .StakePenalized 0x11 0x77 10⟩]

/-- A round after the first block, and one after the second and some more. -/
def slashedSchedule : List (Move Call Question Answer (List EventData)) :=
  .outside registeredBlock :: .call 0 .intervalHandler ::
    Move.turns 0 (chainAnswer 0x11 ⟨1, registeredBlock⟩ 100) 56 ++
    [slashedBlock, [], [], [], []].map .outside ++
      .call 1 .intervalHandler ::
        Move.turns 1 (chainAnswer 0x11 ⟨6, registeredBlock ++ slashedBlock⟩ 100) 45

theorem slashedSchedule_plays :
    ((Pool.start (.fresh plainConfig [] [] .genesis)).play (chainServer plainConfig true) Anyhow
      slashedSchedule).isSome = true := by
  decide +kernel

def slashedServer : Pool Call (Memory Chain) Question Answer Reply :=
  Option.get _ slashedSchedule_plays

theorem slashedServer_run :
    Run (chainServer plainConfig true) Anyhow (.fresh plainConfig [] [] .genesis) slashedServer :=
  Run.of_isSome slashedSchedule_plays

/-- The first of its rounds. -/
def stakedRound : Round :=
  slashedServer.shared.memory.record.rounds.get ⟨1, by decide +kernel⟩

/-- The round after the slashing. -/
def slashedRound : Round :=
  slashedServer.shared.memory.record.rounds.get ⟨0, by decide +kernel⟩

theorem scanned_staked_stakedRound :
    (plainConfig.managerMinStake ≤
        (slashedServer.shared.memory.node.stakeAt plainConfig.managerAddress
          stakedRound.blockNumber).stake.toNat ∧
      (slashedServer.shared.memory.node.stakeAt plainConfig.managerAddress
        stakedRound.blockNumber).withdrawBlock = 0) ↔
      (slashedServer.shared.memory.node.stakeAt plainConfig.managerAddress
          stakedRound.blockNumber).stake ≠ 0 ∨
        plainConfig.managerMinStake = 0 ∧
          (slashedServer.shared.memory.node.stakeAt plainConfig.managerAddress
            stakedRound.blockNumber).withdrawBlock = 0 :=
  scanned_staked_iff slashedServer_run (List.get_mem _ _) (by decide +kernel)

/-- The slashed server takes itself for registered although it has no stake. -/
theorem slashedRound_not_staked :
    Run (chainServer plainConfig true) Anyhow (.fresh plainConfig [] [] .genesis) slashedServer ∧
      slashedRound ∈ slashedServer.shared.memory.record.rounds ∧
        slashedRound.scanned = some true ∧
          ¬ plainConfig.managerMinStake ≤
            (slashedServer.shared.memory.node.stakeAt plainConfig.managerAddress
              slashedRound.blockNumber).stake.toNat :=
  ⟨slashedServer_run, List.get_mem _ _, by decide +kernel, by decide +kernel⟩

/-! ## Withdrawing the funds -/

/-- **The funds are withdrawn when the stake is gone, unless it was staked anew**: an event that
a round withdraws the funds for has a place in the log up to the block of the round. -/
theorem withdrawn_gone_iff
    (hrun : Run (chainServer cfg true) Anyhow (.fresh cfg txstore signatures .genesis) p)
    {r : Round} (hr : r ∈ p.shared.memory.record.rounds) {e : EventData} (he : e ∈ r.withdrawn) :
    ∃ before rest, p.shared.memory.node.upTo r.blockNumber = before ++ e :: rest ∧
      (Gone r.blockNumber (p.shared.memory.node.stakeAt cfg.managerAddress r.blockNumber) ↔
        RestakesExited r.blockNumber (e :: rest)) := by
  obtain ⟨φ, hscanned, -⟩ := run_scans hrun
  have hsound : p.shared.memory.node.Sound cfg.managerAddress := hscanned.sound
  obtain ⟨hlog, hblock, hdue⟩ := hscanned.withdrawer.withdrawn r hr e he
  have hmem : e ∈ p.shared.memory.node.upTo r.blockNumber :=
    List.mem_filter.mpr ⟨hlog, decide_eq_true (hblock rfl)⟩
  obtain ⟨before, rest, hsplit⟩ := List.append_of_mem hmem
  refine ⟨before, rest, hsplit, ?_⟩
  have hreplay := Chain.replay_upTo hsound r.blockNumber
  rw [hsplit, replay, replayFrom_append] at hreplay
  obtain ⟨info, -, hrest⟩ := Option.bind_eq_some_iff.mp hreplay
  refine gone_iff_restakesExited _ (fun e' he' => ?_) hdue hrest
  have hmem' : e' ∈ p.shared.memory.node.upTo r.blockNumber := by
    rw [hsplit]
    exact List.mem_append_right _ he'
  exact (hsound.mined e' (List.mem_filter.mp hmem').1).1

/-- A manager that stakes and gives up its stake. -/
def exitBlocks : List (List EventData) :=
  [[⟨1, 0, 0, .StakeAdded 0x11 0x55 20 1⟩], [⟨2, 0, 0, .StakeUnlocked 0x11 0x55 3⟩],
    [⟨3, 0, 0, .StakeWithdrawn 0x11 0x55 20⟩]]

/-- Somebody else stakes for it. -/
def restakeBlock : List EventData := [⟨4, 0, 0, .StakeAdded 0x11 0x66 20 1⟩]

/-- The first round of a server on a chain of some blocks, up to its answer number `n`. -/
def firstRound (blocks : List (List EventData)) (balance n : Nat) :
    List (Move Call Question Answer (List EventData)) :=
  blocks.map .outside ++ .call 0 .intervalHandler ::
    Move.turns 0 (chainAnswer 0x11 ⟨blocks.length, blocks.flatten⟩ balance) n

theorem restaked_plays :
    ((Pool.start (.fresh plainConfig [] [] .genesis)).play (chainServer plainConfig true) Anyhow
      (firstRound (exitBlocks ++ [restakeBlock]) 100 33)).isSome = true := by
  decide +kernel

/-- A server whose manager was staked anew before its first round. -/
def restakedServer : Pool Call (Memory Chain) Question Answer Reply := Option.get _ restaked_plays

theorem restakedServer_run :
    Run (chainServer plainConfig true) Anyhow (.fresh plainConfig [] [] .genesis) restakedServer :=
  Run.of_isSome restaked_plays

def restakedRound : Round := restakedServer.shared.memory.record.rounds.get ⟨0, by decide +kernel⟩

theorem withdrawn_gone_restakedRound :
    ∃ before rest, restakedServer.shared.memory.node.upTo restakedRound.blockNumber =
        before ++ ⟨3, 0, 0, .StakeWithdrawn 0x11 0x55 20⟩ :: rest ∧
      (Gone restakedRound.blockNumber
          (restakedServer.shared.memory.node.stakeAt plainConfig.managerAddress
            restakedRound.blockNumber) ↔
        RestakesExited restakedRound.blockNumber
          (⟨3, 0, 0, .StakeWithdrawn 0x11 0x55 20⟩ :: rest)) :=
  withdrawn_gone_iff restakedServer_run (List.get_mem _ _) (by decide +kernel)

/-- The funds are withdrawn for the old event although the manager is staked. -/
theorem restakedRound_not_gone :
    Run (chainServer plainConfig true) Anyhow (.fresh plainConfig [] [] .genesis) restakedServer ∧
      restakedRound ∈ restakedServer.shared.memory.record.rounds ∧
        ⟨3, 0, 0, .StakeWithdrawn 0x11 0x55 20⟩ ∈ restakedRound.withdrawn ∧
          restakedServer.shared.memory.node.stakeAt plainConfig.managerAddress
            restakedRound.blockNumber =
              ⟨20, 1, 0, 0x66⟩ ∧
            ¬ Gone restakedRound.blockNumber
              (restakedServer.shared.memory.node.stakeAt plainConfig.managerAddress
            restakedRound.blockNumber) :=
  ⟨restakedServer_run, List.get_mem _ _, by decide +kernel, by decide +kernel, by
    have hstake : restakedServer.shared.memory.node.stakeAt plainConfig.managerAddress
            restakedRound.blockNumber =
        ⟨20, 1, 0, 0x66⟩ := by decide +kernel
    rw [hstake]
    rintro (hzero | ⟨hunlocked, -⟩)
    · exact absurd hzero (by decide)
    · exact hunlocked rfl⟩

/-! ## The owner -/

/-- **The funds go to the owner of the stake if the process has heard of this owner first**: each
transfer is for an event with a place in the log, and the entry before this event has an owner. -/
theorem payout_owner_iff {steady : Bool}
    (hrun : Run (chainServer cfg steady) Anyhow (.fresh cfg txstore signatures .genesis) p)
    {payout : Payout} (hpayout : payout ∈ p.shared.memory.record.payouts) :
    ∃ before rest info, p.shared.memory.node.log = before ++ payout.event :: rest ∧
      replay cfg.managerAddress before = some info ∧ info.owner ≠ 0 ∧
        (payout.details.destination = some info.owner ↔
          ∃ first, payout.stakes.find? (·.stake ≠ 0) = some first ∧ first.owner = info.owner) := by
  obtain ⟨φ, hscanned, -⟩ := run_scans hrun
  have hsound : p.shared.memory.node.Sound cfg.managerAddress := hscanned.sound
  obtain ⟨hlog, b, hdue⟩ : payout.event ∈ p.shared.memory.node.log ∧ ∃ b, _ :=
    hscanned.withdrawer.payouts payout hpayout
  have hpaid : payout.details.destination = toldOwner payout.stakes :=
    hscanned.payer.payouts payout hpayout
  obtain ⟨before, rest, hsplit⟩ := List.append_of_mem hlog
  obtain ⟨last, hlast⟩ := Option.isSome_iff_exists.mp hsound.legal
  rw [hsplit, replay, replayFrom_append] at hlast
  obtain ⟨info, hinfo, hrest⟩ := Option.bind_eq_some_iff.mp hlast
  obtain ⟨next, hstep, -⟩ := (replayFrom_cons_some _).mp hrest
  refine ⟨before, rest, info, hsplit, hinfo, stakeStep_exit_owner _ hdue hstep, ?_⟩
  rw [hpaid]
  exact Option.map_eq_some_iff

theorem exited_plays :
    ((Pool.start (.fresh plainConfig [] [] .genesis)).play (chainServer plainConfig true) Anyhow
      (firstRound exitBlocks 100000 35)).isSome = true := by
  decide +kernel

/-- A server whose manager had given up its stake before the first round. -/
def exitedServer : Pool Call (Memory Chain) Question Answer Reply := Option.get _ exited_plays

theorem exitedServer_run :
    Run (chainServer plainConfig true) Anyhow (.fresh plainConfig [] [] .genesis) exitedServer :=
  Run.of_isSome exited_plays

def exitedPayout : Payout := exitedServer.shared.memory.record.payouts.get ⟨0, by decide +kernel⟩

theorem payout_owner_exitedServer :
    ∃ before rest info, exitedServer.shared.memory.node.log = before ++ exitedPayout.event :: rest ∧
      replay plainConfig.managerAddress before = some info ∧ info.owner ≠ 0 ∧
        (exitedPayout.details.destination = some info.owner ↔
          ∃ first, exitedPayout.stakes.find? (·.stake ≠ 0) = some first ∧
            first.owner = info.owner) :=
  payout_owner_iff exitedServer_run (List.get_mem _ _)

/-- The funds are sent without a destination although the stake had an owner. -/
theorem exitedPayout_no_destination :
    Run (chainServer plainConfig true) Anyhow (.fresh plainConfig [] [] .genesis) exitedServer ∧
      exitedPayout ∈ exitedServer.shared.memory.record.payouts ∧
        exitedPayout.event.event = .StakeWithdrawn 0x11 0x55 20 ∧
          exitedPayout.details.destination = none :=
  ⟨exitedServer_run, List.get_mem _ _, by decide +kernel, by decide +kernel⟩

end RifRelay.Server
