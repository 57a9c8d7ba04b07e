import RifRelay.Contracts.HubEffects
import RifRelay.Contracts.StakeSafety
import RifRelay.Machine.Forward

set_option autoImplicit false

/-! # Owners of stakes and managers

Whoever stakes for a manager must not be a manager, so that stakes do not form chains. The
hub checks this of the sender of a deposit, but not of the manager it opens an entry for:
an address that owns a stake becomes a manager when somebody else stakes for it.

* `owners_separate_iff` — owners and managers are separate at every moment of a run exactly
  when no deposit of it opens an entry for an owner; then an owner can always add to its
  stake;
* `owners_not_separate` — a run with such a deposit, after which the owner is shut out.
-/

namespace RifRelay

open CallMachine

namespace RelayHub

/-! ## Owners -/

/-- No owner of a stake is a manager. -/
def Separate (hub : RelayHub) : Prop :=
  ∀ m o, (hub.stakes m).owner = o → o ≠ 0 → (hub.stakes o).owner = 0

/-- The message is a deposit with which an address that owns a stake gets an owner. -/
def OpensForOwner (msg : Msg) (hub : RelayHub) : Prop :=
  ∃ m delay, msg.data = .stakeForAddress m delay ∧ msg.sender ≠ 0 ∧ (hub.stakes m).owner = 0 ∧
    m ≠ 0 ∧ ∃ x, (hub.stakes x).owner = m

/-- What a message does to the owner of a stake: nothing, or it removes it, or it is a deposit
of the owner. -/
theorem Effect.owner {msg : Msg} {hub hub' : RelayHub} (h : Effect msg hub hub') (a : Address) :
    (hub'.stakes a).owner = (hub.stakes a).owner ∨ (hub'.stakes a).owner = 0 ∨
      ((hub'.stakes a).owner = msg.sender ∧ (∃ delay, msg.data = .stakeForAddress a delay) ∧
        ((hub.stakes a).owner = 0 ∨ (hub.stakes a).owner = msg.sender) ∧ msg.sender ≠ a ∧
        (hub.stakes msg.sender).owner = 0) := by
  cases h with
  | registerRelayServer url hdata => exact Or.inl rfl
  | disableRelayWorkers relayWorkers entries hdata => exact Or.inl rfl
  | addRelayWorkers newRelayWorkers entries hdata => exact Or.inl rfl
  | deployCall request signature hdata => exact Or.inl rfl
  | relayCall request signature hdata => exact Or.inl rfl
  | isRelayManagerStaked m hdata => exact Or.inl rfl
  | penalize w b m hdata =>
      left
      by_cases ha : a = m
      · subst ha
        simp [setStake]
      · simp [setStake, ha]
  | unlockStake m hdata =>
      left
      by_cases ha : a = m
      · subst ha
        simp [setStake]
      · simp [setStake, ha]
  | withdrawStake m hdata =>
      by_cases ha : a = m
      · subst ha
        right; left
        simp [setStake, StakeInfo.zero]
      · left
        simp [setStake, ha]
  | stakeForAddress m delay hdata howner hdelay hself hmanager =>
      by_cases ha : a = m
      · subst ha
        right; right
        exact ⟨by simp [setStake], ⟨delay, hdata⟩, howner, hself, hmanager⟩
      · left
        simp [setStake, ha]

/-- A deposit sets the owner. -/
theorem Effect.deposit_owner {msg : Msg} {hub hub' : RelayHub} {m : Address} {delay : Word}
    (h : Effect msg hub hub') (hdata : msg.data = .stakeForAddress m delay) :
    (hub'.stakes m).owner = msg.sender ∧
      ∀ a, a ≠ m → (hub'.stakes a).owner = (hub.stakes a).owner := by
  cases h with
  | stakeForAddress m' delay' hdata' =>
      rw [hdata] at hdata'
      injection hdata' with hm
      subst hm
      refine ⟨by simp [setStake], fun a ha => by simp [setStake, ha]⟩
  | _ => simp_all

/-- A message keeps owners and managers separate unless it opens an entry for an owner. -/
theorem Effect.separate {msg : Msg} {hub hub' : RelayHub} (h : Effect msg hub hub')
    (hsep : Separate hub) (hopen : ¬ OpensForOwner msg hub) : Separate hub' := by
  intro m o hm ho
  rcases h.owner o with hsame | hzero | ⟨hsender, ⟨delay, hdata⟩, hbefore, hne, hfree⟩
  · rw [hsame]
    rcases h.owner m with hsame' | hzero' | ⟨hsender', -, -, -, hfree'⟩
    · exact hsep m o (hsame'.symm.trans hm) ho
    · exact absurd (hm.symm.trans hzero') ho
    · rw [← hm, hsender']
      exact hfree'
  · exact hzero
  · -- a deposit for `o` gives it the sender as owner, while `o` owns the stake of `m`
    by_cases hs : msg.sender = 0
    · exact hsender.trans hs
    · exfalso
      obtain ⟨-, hothers⟩ := h.deposit_owner hdata
      have hmo : m ≠ o := by
        rintro rfl
        exact hne (hsender.symm.trans hm)
      have howns : (hub.stakes m).owner = o := (hothers m hmo).symm.trans hm
      have hnone := hsep m o howns ho
      exact hopen ⟨o, delay, hdata, hs, hnone, ho, m, howns⟩

/-- A deposit that opens an entry for an owner breaks the separation. -/
theorem Effect.not_separate {msg : Msg} {hub hub' : RelayHub} (h : Effect msg hub hub')
    (hopen : OpensForOwner msg hub) : ¬ Separate hub' := by
  obtain ⟨m, delay, hdata, hs, hnone, hm, x, hx⟩ := hopen
  obtain ⟨howner, hothers⟩ := h.deposit_owner hdata
  intro hsep
  have hxm : x ≠ m := by
    rintro rfl
    exact hm (hx.symm.trans hnone)
  have hzero := hsep x m ((hothers x hxm).trans hx) hm
  exact hs (howner.symm.trans hzero)

/-! ## Deposits of owners -/

section Deposits

variable {χ : Type} {E : Env} {O : Outside E χ} {B : Nat} {creation : Bytes}

/-- The storage of a hub after a deposit of the owner `o` for `m`. -/
def deposited (hub : RelayHub) (m o : Address) (value unstakeDelay : Word) : RelayHub :=
  hub.setStake m
    { hub.stakes m with
      owner := o, stake := (hub.stakes m).stake + value, unstakeDelay := unstakeDelay }

/-- A deposit that passes the checks goes through. -/
theorem passes_stakeForAddress (hB : ∀ s g, O.cost s g ≤ B) {depth g : Nat} (hg : 3 * B ≤ g)
    {msg : Msg} {c : ChainConf χ} {m : Address} {unstakeDelay : Word}
    (howner : ((c.state.hubs msg.self).stakes m).owner = msg.sender) (hsender : msg.sender ≠ 0)
    (hdelay : ((c.state.hubs msg.self).stakes m).unstakeDelay ≤ unstakeDelay)
    (hself : msg.sender ≠ m) (hmanager : ((c.state.hubs msg.self).stakes msg.sender).owner = 0) :
    ∃ g' c', Passes (machine E O) (exec (machine E O) depth) false
        (stakeForAddress msg m unstakeDelay) g c () g' c' ∧
      c'.state.hubs msg.self =
        deposited (c.state.hubs msg.self) m msg.sender msg.value unstakeDelay := by
  let info := (c.state.hubs msg.self).stakes m
  obtain ⟨g₁, hg₁, hget⟩ := @passes_get _ _ _ _ (machine E O) (exec (machine E O) depth)
    false g c B hB (by omega)
  obtain ⟨g₂, hg₂, hmodify⟩ := @passes_modify _ _ _ _ (machine E O)
    (exec (machine E O) depth) false g₁ c B hB (by omega) rfl (fun w =>
      { w with hubs := Function.update w.hubs msg.self ((w.hubs msg.self).setStake m
        { info with owner := msg.sender, stake := info.stake + msg.value,
                    unstakeDelay := unstakeDelay }) })
  obtain ⟨g₃, -, hlog⟩ := @passes_modify _ _ _ _ (machine E O)
    (exec (machine E O) depth) false g₂ (c.put _) B hB (by omega) rfl (fun w =>
      { w with logs := w.logs ++
        [(msg.self, .StakeAdded m msg.sender (info.stake + msg.value) unstakeDelay)] })
  have hopened : info.owner ≠ 0 := by
    rw [show info.owner = msg.sender from howner]
    exact hsender
  have hentry : Passes (machine E O) (exec (machine E O) depth) false
      (whenever (info.owner = 0) (require ((c.state.hubs msg.self).minimumEntryDepositValue ≤
        msg.value) "Insufficient intitial stake")) g₁ c () g₁ c := by
    rw [whenever, if_neg hopened]
    exact passes_ret ()
  refine ⟨g₃, _, (hget.trans (passes_ret _)).trans ((passes_assert (Or.inr howner) _).trans
    ((passes_assert hdelay _).trans ((passes_assert hself _).trans
      ((passes_assert hmanager _).trans (hentry.trans (hmodify.trans hlog)))))), ?_⟩
  simp [deposited, info]

/-- An owner that is not a manager adds to its stake. -/
theorem exec_stakeForAddress (hB : ∀ s g, O.cost s g ≤ B) {depth g : Nat} (hg : 3 * B ≤ g)
    {msg : Msg} {c : ChainConf χ} {m : Address} {unstakeDelay : Word} (hkind : msg.kind = .call)
    (hdata : msg.data = .stakeForAddress m unstakeDelay)
    (hcode : c.state.code msg.self = some ⟨.relayHub, creation⟩)
    (haddress : msg.codeAddress = msg.self)
    (hcoins : msg.value.toNat ≤ c.state.balance msg.sender)
    (howner : ((c.state.hubs msg.self).stakes m).owner = msg.sender) (hsender : msg.sender ≠ 0)
    (hdelay : ((c.state.hubs msg.self).stakes m).unstakeDelay ≤ unstakeDelay)
    (hself : msg.sender ≠ m) (hmanager : ((c.state.hubs msg.self).stakes msg.sender).owner = 0) :
    (exec (machine E O) (depth + 1) false g msg c).value = .ok [] ∧
      (exec (machine E O) (depth + 1) false g msg c).conf.state.hubs msg.self =
        deposited (c.state.hubs msg.self) m msg.sender msg.value unstakeDelay := by
  let s : World χ :=
    { c.state with balance := Ledger.move c.state.balance msg.sender msg.self msg.value.toNat }
  have henter : (machine E O).enter msg c.state = some s := by
    show enter msg c.state = some s
    rw [enter, if_pos hkind, if_pos hcoins]
  obtain ⟨g', c', hpasses, hhub⟩ := @passes_stakeForAddress _ E O B hB depth g hg msg
    (c.entered msg s) m unstakeDelay howner hsender hdelay hself hmanager
  have hrun : (machine E O).code msg s = code E msg := by
    show codeOf E O msg s = _
    unfold codeOf
    rw [haddress, show s.code msg.self = _ from hcode]
    rfl
  have hframe : Passes (machine E O) (exec (machine E O) depth) false
      ((machine E O).code msg s) g (c.entered msg s) [] g' c' := by
    rw [hrun, code, hdata]
    exact hpasses.trans (passes_ret [])
  rw [exec_passes henter hframe]
  exact ⟨rfl, hhub⟩

end Deposits

/-! ## Runs -/

variable {χ : Type} {E : Env} {O : Outside E χ} {w₀ : World χ} {H : Address}

/-- **Owners and managers.** They are separate at every moment of a run exactly when no
deposit opens an entry for an address that owns a stake. In such a run an owner can add to
its stake at any point, with a delay that is not shorter. -/
theorem owners_separate_iff (hfresh : Fresh E w₀ H) {b : Word} {point : Option Msg}
    {c : ChainConf χ} (hc : Point E O w₀ b point c) :
    ((∀ i, Separate (hubAt H c i)) ↔
      ∀ e ∈ c.trace, e.msg.self = H → ¬ OpensForOwner e.msg (e.pre.hubs H)) ∧
    ((∀ e ∈ c.trace, e.msg.self = H → ¬ OpensForOwner e.msg (e.pre.hubs H)) →
      ∀ B, (∀ s g, O.cost s g ≤ B) → ∀ depth g msg m unstakeDelay, 3 * B ≤ g →
        msg.kind = .call → msg.self = H → msg.codeAddress = H →
        msg.data = .stakeForAddress m unstakeDelay → msg.sender ≠ 0 →
        ((c.state.hubs H).stakes m).owner = msg.sender →
        ((c.state.hubs H).stakes m).unstakeDelay ≤ unstakeDelay →
        msg.value.toNat ≤ c.state.balance msg.sender →
        (exec (machine E O) (depth + 1) false g msg c).value = .ok [] ∧
          (exec (machine E O) (depth + 1) false g msg c).conf.state.hubs H =
            deposited (c.state.hubs H) m msg.sender msg.value unstakeDelay) := by
  obtain ⟨creation, hcode⟩ := hfresh.code
  have hinv := effects_point hcode hfresh.codeless hc
  have hpre : ∀ (e : Entry (World χ) Msg) hub hub', Acts H e hub hub' → e.pre.hubs H = hub :=
    fun _ _ _ hacts => hacts.pre
  have hstart : Separate (w₀.hubs H) := by
    intro m o hm ho
    rw [hfresh.stakes m] at hm
    exact absurd hm.symm ho
  have hkeep : (∀ e ∈ c.trace, e.msg.self = H → ¬ OpensForOwner e.msg (e.pre.hubs H)) →
      ∀ i, Separate (hubAt H c i) := by
    intro hno
    refine hubAt_invariant hpre hinv.path ?_ hstart
    intro e he hub hub' hacts hsep
    by_cases hself : e.msg.self = H
    · refine (hacts.own hself).separate hsep ?_
      rw [← hacts.pre]
      exact hno e he hself
    · rw [hacts.other hself]
      exact hsep
  refine ⟨⟨?_, hkeep⟩, ?_⟩
  · intro hsep e he hself hopen
    obtain ⟨i, hi⟩ := List.getElem?_of_mem he
    have hacts := path_at hpre hinv.path hi
    -- the message that opens the entry of an owner breaks the separation
    rw [hacts.pre] at hopen
    exact (hacts.own hself).not_separate hopen (hsep (i + 1))
  · rintro hno B hB depth g msg m unstakeDelay hg hkind rfl haddress hdata hsender howner hdelay
      hcoins
    -- a run in which no owner became a manager is separate at its end
    have hsep : Separate (c.state.hubs msg.self) := by
      have hnow := hkeep hno c.trace.length
      unfold hubAt at hnow
      rw [List.getElem?_eq_none (Nat.le_refl _)] at hnow
      exact hnow
    have hmanager := hsep m msg.sender howner hsender
    have hself : msg.sender ≠ m := by
      intro h
      rw [h] at howner hsender hmanager
      exact hsender (howner.symm.trans hmanager)
    exact exec_stakeForAddress hB hg hkind hdata ((hinv.kept.code _ rfl).trans hcode) haddress
      hcoins howner hsender hdelay hself hmanager

/-! The run with the stake of `0x0a` for `0x0c`, and a further deposit. -/

def addMsg : Msg := (smallTx 11 500 (.stakeForAddress 0x0c 1000)).msg

theorem unlockedRun_no_chain : ∀ e ∈ unlockedRun.trace, e.msg.self = 0xaa →
    ¬ OpensForOwner e.msg (e.pre.hubs 0xaa) := by
  have htrace : unlockedRun.trace = [⟨stakeTx.msg, smallWorld⟩, ⟨unlockTx.msg,
      (stakeTx.run smallEnv (Outside.silent smallEnv) 8 (Conf.start smallWorld)).state⟩] := rfl
  intro e he _
  rw [htrace] at he
  rintro ⟨m, delay, hdata, -, -, hm, x, hx⟩
  rcases List.mem_cons.mp he with rfl | he
  · exact hm hx.symm
  · obtain rfl := List.mem_singleton.mp he
    cases hdata

/-- The owner adds to its stake. -/
theorem owners_separate_iff_run :
    (exec (machine smallEnv (Outside.silent smallEnv)) 8 false 100000 addMsg unlockedRun).value =
      .ok [] := by
  refine ((owners_separate_iff smallWorld_fresh (Point.settled unlockedRun_settled)).2
    unlockedRun_no_chain 0 (fun _ _ => Nat.le_refl 0) 7 100000 addMsg 0x0c 1000 (by decide) rfl
    rfl rfl rfl (by decide) (by decide) (by decide) ?_).1
  decide

/-! The run in which `0x0a` stakes for `0x0c` and gives `0x0b` the coins to stake for `0x0a`. -/

def chainEnv : Env := Env.ofKeys (fun _ => 0) (fun _ _ => .error "") .other [0x0a, 0x0b, 0x0c]

def chainTx (origin dest : Address) (value : Word) (data : CallData) : Tx :=
  ⟨origin, 1, 10, dest, value, data, 100000⟩

def chainRun : ChainConf Unit :=
  (chainTx 0x0b 0xaa 1000 (.stakeForAddress 0x0a 1000)).run chainEnv (Outside.silent chainEnv) 8
    ((chainTx 0x0a 0x0b 1000 .empty).run chainEnv (Outside.silent chainEnv) 8
      ((chainTx 0x0a 0xaa 1000 (.stakeForAddress 0x0c 1000)).run chainEnv
        (Outside.silent chainEnv) 8 (Conf.start smallWorld)))

theorem chainRun_settled : Settled chainEnv (Outside.silent chainEnv) smallWorld 10 chainRun :=
  .call (.call (.call (.start 10) (chainTx 0x0a 0xaa 1000 (.stakeForAddress 0x0c 1000)) 8
        (by decide) (by decide))
      (chainTx 0x0a 0x0b 1000 .empty) 8 (by decide) (by decide))
    (chainTx 0x0b 0xaa 1000 (.stakeForAddress 0x0a 1000)) 8 (by decide) (by decide)

theorem smallWorld_fresh_chain : Fresh chainEnv smallWorld 0xaa where
  code := ⟨[], rfl⟩
  construct := ⟨0xbb, 10, 1000, 1000, 1000, rfl⟩
  coins := rfl
  codeless := by
    have hkeys : ∀ a ∈ [0, 0x0a, 0x0b, 0x0c], smallCode a = none := by simp [smallCode]
    exact World.codeless_ofKeys hkeys

/-- **An owner becomes a manager.** After the run `0x0a` owns the stake of `0x0c` and is
itself the manager of a stake of `0x0b`, and it cannot add to its own stake any more. -/
theorem owners_not_separate :
    Fresh chainEnv smallWorld 0xaa ∧
    Settled chainEnv (Outside.silent chainEnv) smallWorld 10 chainRun ∧
    ((chainRun.state.hubs 0xaa).stakes 0x0c).owner = 0x0a ∧
    ((chainRun.state.hubs 0xaa).stakes 0x0a).owner = 0x0b ∧
    (exec (machine chainEnv (Outside.silent chainEnv)) 8 false 100000
      (chainTx 0x0a 0xaa 1000 (.stakeForAddress 0x0c 1000)).msg chainRun).value =
        .error (.error "sender is a relayManager itself") :=
  ⟨smallWorld_fresh_chain, chainRun_settled, by decide, by decide, rfl⟩

end RelayHub

end RifRelay
