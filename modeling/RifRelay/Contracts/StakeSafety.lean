import RifRelay.Contracts.HubHistory

set_option autoImplicit false

/-! # Stakes are locked up and conserved

The two promises of `RelayHub` to those who stake and to those who rely on stakes, for every
point of every run: a manager that was staked at a block stays staked for the minimum
unstake delay unless it is penalized (`stake_lockup`), and no coin of a stake gets lost or
is paid twice (`stake_conservation`). The first comes from the lock-up of the book of
stakes, the second from its conservation law and from `Funded`.
-/

namespace RifRelay

open CallMachine

namespace RelayHub

variable {χ : Type} {E : Env} {O : Outside E χ} {w₀ : World χ} {H : Address}

/-! ## Lock-up -/

/-- The hub at `H` at the `i`-th moment of the history: before the `i`-th message, or now
where there are not that many. -/
def hubAt (H : Address) (c : ChainConf χ) (i : Nat) : RelayHub :=
  match c.trace[i]? with
  | some e => e.pre.hubs H
  | none => c.state.hubs H

/-- The message slashes the manager `m`: it penalizes one of its workers. -/
def Penalizes (H m : Address) (e : Entry (World χ) Msg) : Prop :=
  e.msg.self = H ∧ ∃ relayWorker beneficiary, e.msg.data = .penalize relayWorker beneficiary ∧
    entryManager ((e.pre.hubs H).workerToManager relayWorker) = m

/-- The message withdraws the stake of the manager `m`. -/
def Withdraws (H m : Address) (e : Entry (World χ) Msg) : Prop :=
  e.msg.self = H ∧ e.msg.data = .withdrawStake m

theorem penalizes_of_move {m b : Address} {e : Entry (World χ) Msg}
    (h : moveOf H e.msg (e.pre.hubs H) = .slash m b) : Penalizes H m e := by
  unfold moveOf at h
  split at h
  · next hself =>
      split at h
      all_goals cases h
      next w hdata => exact ⟨hself, w, b, hdata, rfl⟩
  · cases h

theorem move_of_withdraws {m : Address} {e : Entry (World χ) Msg} (h : Withdraws H m e) :
    moveOf H e.msg (e.pre.hubs H) = .withdraw m e.msg.sender := by
  rw [moveOf, if_pos h.1, h.2]

/-- The history from the `i`-th moment on leads from the hub at that moment to the hub now. -/
theorem path_drop {step : Entry (World χ) Msg → RelayHub → RelayHub → Prop}
    (hpre : ∀ e hub hub', step e hub hub' → e.pre.hubs H = hub) {hub₀ : RelayHub}
    {c : ChainConf χ} (h : EventPath step hub₀ c.trace (c.state.hubs H)) (i : Nat) :
    EventPath step hub₀ (c.trace.take i) (hubAt H c i) ∧
      EventPath step (hubAt H c i) (c.trace.drop i) (c.state.hubs H) := by
  rw [← List.take_append_drop i c.trace] at h
  obtain ⟨hub, h₁, h₂⟩ := (EventPath.append_iff _ _ _ _).mp h
  have hhub : hubAt H c i = hub := by
    unfold hubAt
    rcases Nat.lt_or_ge i c.trace.length with hi | hi
    · rw [List.getElem?_eq_getElem hi]
      rw [List.drop_eq_getElem_cons hi] at h₂
      obtain ⟨hub', hstep, -⟩ := h₂
      exact hpre _ _ _ hstep
    · rw [List.getElem?_eq_none hi]
      rw [List.drop_eq_nil_of_le hi] at h₂
      exact h₂.symm
  rw [hhub]
  exact ⟨h₁, h₂⟩

/-- The `i`-th message leads from the hub at that moment to the hub at the next. -/
theorem path_at {step : Entry (World χ) Msg → RelayHub → RelayHub → Prop}
    (hpre : ∀ e hub hub', step e hub hub' → e.pre.hubs H = hub) {hub₀ : RelayHub}
    {c : ChainConf χ} (h : EventPath step hub₀ c.trace (c.state.hubs H)) {i : Nat}
    {e : Entry (World χ) Msg} (he : c.trace[i]? = some e) :
    step e (hubAt H c i) (hubAt H c (i + 1)) := by
  obtain ⟨-, hrest⟩ := path_drop hpre h i
  obtain ⟨hi, rfl⟩ := List.getElem?_eq_some_iff.mp he
  rw [List.drop_eq_getElem_cons hi] at hrest
  obtain ⟨next, hstep, hnext⟩ := hrest
  have hat : hubAt H c (i + 1) = next := by
    unfold hubAt
    rcases Nat.lt_or_ge (i + 1) c.trace.length with hlt | hge
    · rw [List.getElem?_eq_getElem hlt]
      rw [List.drop_eq_getElem_cons hlt] at hnext
      obtain ⟨_, hstep', -⟩ := hnext
      exact hpre _ _ _ hstep'
    · rw [List.getElem?_eq_none hge]
      rw [List.drop_eq_nil_of_le hge] at hnext
      exact hnext.symm
  rw [hat]
  exact hstep

/-- What every step of a history keeps holds at every moment. -/
theorem hubAt_invariant {step : Entry (World χ) Msg → RelayHub → RelayHub → Prop}
    (hpre : ∀ e hub hub', step e hub hub' → e.pre.hubs H = hub) {hub₀ : RelayHub}
    {c : ChainConf χ} (h : EventPath step hub₀ c.trace (c.state.hubs H)) {P : RelayHub → Prop}
    (hkeep : ∀ e ∈ c.trace, ∀ hub hub', step e hub hub' → P hub → P hub') (hstart : P hub₀)
    (i : Nat) : P (hubAt H c i) := by
  induction i with
  | zero =>
      obtain ⟨hnil, -⟩ := path_drop hpre h 0
      obtain rfl : hub₀ = hubAt H c 0 := hnil
      exact hstart
  | succ i ih =>
      cases he : c.trace[i]? with
      | some e => exact hkeep e (List.mem_of_getElem? he) _ _ (path_at hpre h he) ih
      | none =>
          have hlate := List.getElem?_eq_none_iff.mp he
          have hsame : hubAt H c (i + 1) = hubAt H c i := by
            unfold hubAt
            rw [he, List.getElem?_eq_none (by omega)]
          rw [hsame]
          exact ih

/-- The terms of the hub never change. -/
theorem path_terms {l : List (Entry (World χ) Msg)} {hub hub' : RelayHub}
    (h : EventPath (HubStep H) hub l hub') : hub'.terms = hub.terms :=
  h.invariant (P := fun x => x.terms = hub.terms) (fun _ _ _ hstep hx => hstep.terms.trans hx)
    rfl

theorem block_le_of_drop {c : ChainConf χ}
    (hsorted : c.trace.Pairwise fun e e' => e.msg.tx.blockNumber ≤ e'.msg.tx.blockNumber)
    {i : Nat} {b : Word} (hb : ∀ e, c.trace[i]? = some e → b ≤ e.msg.tx.blockNumber)
    {e : Entry (World χ) Msg} (he : e ∈ c.trace.drop i) : b ≤ e.msg.tx.blockNumber := by
  rcases Nat.lt_or_ge i c.trace.length with hi | hi
  · have hfirst := hb _ (List.getElem?_eq_getElem hi)
    have hdrop := hsorted.sublist (List.drop_sublist i c.trace)
    rw [List.drop_eq_getElem_cons hi] at he hdrop
    rcases List.mem_cons.mp he with rfl | he
    · exact hfirst
    · exact BitVec.le_trans hfirst ((List.pairwise_cons.mp hdrop).1 e he)
  · rw [List.drop_eq_nil_of_le hi] at he
    cases he

/-- **Stake lock-up.** Suppose that at the `i`-th moment of a run, not later than block `b`,
`requireManagerStaked(m)` passes. Then at every later point at a block
`b' < b + minimumUnstakeDelay`, a worker of `m` has been penalized in between, or the stake
of `m` is still sufficient and no withdrawal of it has gone through. -/
theorem stake_lockup (hfresh : Fresh E w₀ H) (hsupply : w₀.supply < 2 ^ 256) {b' : Word}
    {point : Option Msg} {c : ChainConf χ} (hc : Point E O w₀ b' point c) (m : Address)
    (i : Nat) (b : Word) (hb : ∀ e, c.trace[i]? = some e → b ≤ e.msg.tx.blockNumber)
    (hstaked : (hubAt H c i).isRelayManagerStaked m = true)
    (hlate : b'.toNat < b.toNat + (hubAt H c i).minimumUnstakeDelay.toNat) :
    (∃ e ∈ c.trace.drop i, Penalizes H m e) ∨
      ((c.state.hubs H).minimumStake ≤ ((c.state.hubs H).stakes m).stake ∧
        ∀ e ∈ c.trace.drop i, ¬ Withdraws H m e) := by
  obtain ⟨hinv, -⟩ := hfresh.point hsupply hc
  obtain ⟨-, hpath⟩ := path_drop (fun _ _ _ hs => hs.pre) hinv.path i
  have hterms := path_terms hpath
  have hlocked := ((staked_iff _ _).mp hstaked).locked
    (b.toNat + (hubAt H c i).minimumUnstakeDelay.toNat)
  -- as long as nobody penalizes a worker of `m`, every step keeps the stake locked
  have hstep : ∀ e ∈ c.trace.drop i, ∀ hub hub', HubStep H e hub hub' →
      (StakeBook.Locked (hubAt H c i).terms (b.toNat + (hubAt H c i).minimumUnstakeDelay.toNat) m
        hub.book) →
      Penalizes H m e ∨ (StakeBook.Locked (hubAt H c i).terms
        (b.toNat + (hubAt H c i).minimumUnstakeDelay.toNat) m hub'.book ∧ ¬ Withdraws H m e) := by
    intro e he hub hub' hs hl
    have hafter := BitVec.le_def.mp (block_le_of_drop hinv.sorted hb he)
    have hbefore := BitVec.le_def.mp (hinv.blocks e (List.mem_of_mem_drop he))
    have hpre := hs.pre
    subst hpre
    rcases hs.step.locked hl (by omega) (by simp only [terms]; omega) with
      ⟨beneficiary, hslash⟩ | ⟨hl', hno⟩
    · exact Or.inl (penalizes_of_move hslash)
    · exact Or.inr ⟨hl', fun hw => hno _ (move_of_withdraws hw)⟩
  rcases hpath.or_exceptional hstep hlocked with hpen | ⟨hl, hno⟩
  · exact Or.inl hpen
  · refine Or.inr ⟨?_, hno⟩
    have hstake := hl.stake
    rw [← hterms] at hstake
    exact BitVec.le_def.mpr hstake

/-! A run of a small chain: 2000 coins are staked at block 10 with a delay of 1000 blocks,
the withdrawal is announced at block 11 and goes through at block 2000. -/

def smallEnv : Env := Env.ofKeys (fun _ => 0) (fun _ _ => .error "") .other [0x0a, 0x0c]

def smallCode (a : Address) : Option Contract :=
  if a = 0xaa then some ⟨.relayHub, []⟩ else none

def smallWorld : World Unit :=
  { World.ofContracts 0x0a 5000 smallCode with
    hubs := fun _ =>
      { minimumStake := 1000
        minimumUnstakeDelay := 1000
        minimumEntryDepositValue := 1000
        maxWorkerCount := 10
        penalizer := 0xbb
        workerToManager := fun _ => 0
        workerCount := fun _ => 0
        stakes := fun _ => StakeInfo.zero } }

def smallTx (blockNumber value : Word) (data : CallData) : Tx :=
  ⟨0x0a, 1, blockNumber, 0xaa, value, data, 100000⟩

def stakeTx : Tx := smallTx 10 2000 (.stakeForAddress 0x0c 1000)

def unlockTx : Tx := smallTx 11 0 (.unlockStake 0x0c)

def withdrawTx : Tx := smallTx 2000 0 (.withdrawStake 0x0c)

def unlockedRun : ChainConf Unit :=
  unlockTx.run smallEnv (Outside.silent smallEnv) 8
    (stakeTx.run smallEnv (Outside.silent smallEnv) 8 (Conf.start smallWorld))

theorem unlockedRun_settled :
    Settled smallEnv (Outside.silent smallEnv) smallWorld 11 unlockedRun :=
  .call (.call (.start 10) stakeTx 8 (by decide) (by decide)) unlockTx 8 (by decide) (by decide)

theorem smallWorld_fresh : Fresh smallEnv smallWorld 0xaa where
  code := ⟨[], rfl⟩
  construct := ⟨0xbb, 10, 1000, 1000, 1000, rfl⟩
  coins := rfl
  codeless := by
    have hkeys : ∀ a ∈ [0, 0x0a, 0x0c], smallCode a = none := by simp [smallCode]
    exact World.codeless_ofKeys hkeys

theorem smallWorld_supply : smallWorld.supply < 2 ^ 256 := by
  have h : smallWorld.supply = 5000 := World.supply_ofContracts 0x0a 5000 smallCode
  omega

/-- At block 500, within the delay, the announced stake is still there. -/
theorem stake_lockup_run :
    (∃ e ∈ unlockedRun.trace.drop 1, Penalizes 0xaa 0x0c e) ∨
      ((unlockedRun.state.hubs 0xaa).minimumStake ≤
          ((unlockedRun.state.hubs 0xaa).stakes 0x0c).stake ∧
        ∀ e ∈ unlockedRun.trace.drop 1, ¬ Withdraws 0xaa 0x0c e) := by
  have hblock : (unlockedRun.trace[1]?).map (fun e => e.msg.tx.blockNumber) = some 11 := by
    decide
  refine stake_lockup smallWorld_fresh smallWorld_supply
    (Point.settled (unlockedRun_settled.wait 500 (by decide))) 0x0c 1 10 ?_ (by decide)
    (by decide)
  intro e he
  rw [he] at hblock
  have hb : e.msg.tx.blockNumber = 11 := Option.some.inj hblock
  rw [hb]
  decide

/-! ## Conservation -/

/-- All that was ever deposited for `m`. -/
def deposits (H m : Address) (trace : List (Entry (World χ) Msg)) : Nat :=
  (trace.map fun e => StakeBook.deposited m (moveOf H e.msg (e.pre.hubs H))).sum

/-- All that was paid back to owners of the stake of `m`. -/
def withdrawals (H m : Address) (trace : List (Entry (World χ) Msg)) : Nat :=
  (trace.map fun e =>
    StakeBook.withdrawn (e.pre.hubs H).book m (moveOf H e.msg (e.pre.hubs H))).sum

/-- All that was burned in penalties of `m`, `s / 2` for a stake `s`. -/
def burns (H m : Address) (trace : List (Entry (World χ) Msg)) : Nat :=
  (trace.map fun e =>
    StakeBook.burned (e.pre.hubs H).book m (moveOf H e.msg (e.pre.hubs H))).sum

/-- All that was given to beneficiaries in penalties of `m`, `s - s / 2` for a stake `s`. -/
def rewards (H m : Address) (trace : List (Entry (World χ) Msg)) : Nat :=
  (trace.map fun e =>
    StakeBook.rewarded (e.pre.hubs H).book m (moveOf H e.msg (e.pre.hubs H))).sum

/-- Conservation over a whole history. -/
theorem path_conserved {l : List (Entry (World χ) Msg)} {hub hub' : RelayHub}
    (h : EventPath (HubStep H) hub l hub') (m : Address) :
    (hub'.stakes m).stake.toNat + (withdrawals H m l + (burns H m l + rewards H m l)) =
      (hub.stakes m).stake.toNat + deposits H m l := by
  have hsum := h.sum (fun x => (x.stakes m).stake.toNat)
    (fun e => StakeBook.deposited m (moveOf H e.msg (e.pre.hubs H)))
    (fun e =>
      StakeBook.withdrawn (e.pre.hubs H).book m (moveOf H e.msg (e.pre.hubs H)) +
        (StakeBook.burned (e.pre.hubs H).book m (moveOf H e.msg (e.pre.hubs H)) +
          StakeBook.rewarded (e.pre.hubs H).book m (moveOf H e.msg (e.pre.hubs H))))
    (by
      intro e s s' hs
      have hpre := hs.pre
      subst hpre
      exact hs.step.conserved m)
  rw [List.sum_map_add, List.sum_map_add] at hsum
  exact hsum

/-- **Stake conservation and solvency.** At every point of every run, re-entrant calls of the
recipients included:

* the hub has the sum of all stakes and the forced coins, and except where it is about to
  pay it has exactly that;
* what was ever deposited for a manager is its stake, plus what its owners got back, plus
  what was burned and what beneficiaries got in penalties;
* what the hub has paid is exactly what these operations say, to whom they say;
* a payment of the hub never lacks the coins. -/
theorem stake_conservation (hfresh : Fresh E w₀ H) (hsupply : w₀.supply < 2 ^ 256) {b : Word}
    {point : Option Msg} {c : ChainConf χ} (hc : Point E O w₀ b point c) :
    (∑ m, ((c.state.hubs H).stakes m).stake.toNat) + c.state.forced H ≤ c.state.balance H ∧
    ((∀ msg, point = some msg → paid H msg = 0) →
      c.state.balance H =
          (∑ m, ((c.state.hubs H).stakes m).stake.toNat) + c.state.forced H ∧
        (c.trace.map fun e => paid H e.msg).sum = (c.trace.map (due H)).sum) ∧
    (∀ m, deposits H m c.trace = ((c.state.hubs H).stakes m).stake.toNat +
      (withdrawals H m c.trace + (burns H m c.trace + rewards H m c.trace))) ∧
    (∀ msg, point = some msg → msg.sender = H → msg.kind = .call → msg.data = .empty →
      msg.value.toNat + ∑ m, ((c.state.hubs H).stakes m).stake.toNat ≤ c.state.balance H) := by
  obtain ⟨hinv, owed, hfunded, hpaid, hzero⟩ := hfresh.point hsupply hc
  have hcoins := hfunded.coins
  have htotal : StakeBook.total (c.state.hubs H).book =
      ∑ m, ((c.state.hubs H).stakes m).stake.toNat := rfl
  rw [htotal] at hcoins
  refine ⟨by omega, ?_, ?_, ?_⟩
  · intro hquiet
    obtain rfl := hzero hquiet
    have hpay := hfunded.payments
    rw [add_zero] at hpay
    exact ⟨by simpa using hcoins, hpay.symm⟩
  · intro m
    have h := path_conserved hinv.path m
    rw [hfresh.stakes m] at h
    simpa [StakeInfo.zero] using h.symm
  · intro msg hpoint hsender hkind hdata
    have hle := hpaid msg hpoint
    rw [paid, if_pos ⟨hsender, hkind, hdata⟩] at hle
    have hmem : (msg.self, msg.value.toNat) ∈ owed := Multiset.singleton_le.mp hle
    have hvalue : msg.value.toNat ≤ (owed.map Prod.snd).sum :=
      Multiset.single_le_sum (fun _ _ => Nat.zero_le _) _
        (Multiset.mem_map_of_mem Prod.snd hmem)
    omega

def withdrawnRun : ChainConf Unit :=
  withdrawTx.run smallEnv (Outside.silent smallEnv) 8 unlockedRun

/-- After the withdrawal the deposit is accounted for as paid back. -/
theorem stake_conservation_run :
    (∑ m, ((withdrawnRun.state.hubs 0xaa).stakes m).stake.toNat) +
        withdrawnRun.state.forced 0xaa ≤ withdrawnRun.state.balance 0xaa ∧
    ((∀ msg, (none : Option Msg) = some msg → paid 0xaa msg = 0) →
      withdrawnRun.state.balance 0xaa =
          (∑ m, ((withdrawnRun.state.hubs 0xaa).stakes m).stake.toNat) +
            withdrawnRun.state.forced 0xaa ∧
        (withdrawnRun.trace.map fun e => paid 0xaa e.msg).sum =
          (withdrawnRun.trace.map (due 0xaa)).sum) ∧
    (∀ m, deposits 0xaa m withdrawnRun.trace =
      ((withdrawnRun.state.hubs 0xaa).stakes m).stake.toNat +
        (withdrawals 0xaa m withdrawnRun.trace +
          (burns 0xaa m withdrawnRun.trace + rewards 0xaa m withdrawnRun.trace))) ∧
    (∀ msg, (none : Option Msg) = some msg → msg.sender = 0xaa → msg.kind = .call →
      msg.data = .empty →
      msg.value.toNat + ∑ m, ((withdrawnRun.state.hubs 0xaa).stakes m).stake.toNat ≤
        withdrawnRun.state.balance 0xaa) :=
  stake_conservation smallWorld_fresh smallWorld_supply
    (Point.settled (unlockedRun_settled.call withdrawTx 8 (by decide) (by decide)))

/-- The 2000 coins are paid back. -/
example : deposits 0xaa 0x0c withdrawnRun.trace = 2000 ∧
    withdrawals 0xaa 0x0c withdrawnRun.trace = 2000 ∧
    withdrawnRun.state.balance 0x0a = 5000 := by
  decide

end RelayHub

end RifRelay
