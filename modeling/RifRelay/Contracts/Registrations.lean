import RifRelay.Contracts.StakeSafety

set_option autoImplicit false

/-! # The log of the hub tells who is active

A manager is announced by a log if, among its registrations and exits, the last event is a
registration. Between transactions of any run an announced manager is staked
(`announced_staked`), so a client that follows the log keeps none that has left.

Within a transaction this need not hold: `penalize` and `withdrawStake` take the stake away
before they transfer coins, and log the exit only after that. `Told` leaves out the managers of
which an exit is still to be logged. Whatever happens in between, every message keeps `Told` for
every such set of managers.
-/

namespace RifRelay

open CallMachine

namespace RelayHub

variable {χ : Type} {E : Env} {O : Outside E χ} {w₀ : World χ} {H : Address}

/-! ## Announcements -/

/-- The event is a registration or an exit of the manager `m`. -/
def marks (m : Address) (e : Event) : Bool :=
  match e with
  | .RelayServerRegistered relayManager _ => relayManager == m
  | .StakeUnlocked relayManager _ _ => relayManager == m
  | .StakeWithdrawn relayManager _ _ => relayManager == m
  | .StakePenalized relayManager _ _ => relayManager == m
  | _ => false

/-- The last registration or exit of `m` in the log of the hub at `H`. -/
def lastMark (H m : Address) (logs : List (Address × Event)) : Option Event :=
  ((logs.filter fun x => x.1 == H && marks m x.2).getLast?).map Prod.snd

/-- The last mark of `m` is a registration. -/
def Announced (H m : Address) (logs : List (Address × Event)) : Prop :=
  ∃ url, lastMark H m logs = some (.RelayServerRegistered m url)

/-- One more event, as a client takes it that keeps the managers that have registered until they
leave. -/
def follow (H : Address) (managers : List Address) (x : Address × Event) : List Address :=
  if x.1 = H then
    match x.2 with
    | .RelayServerRegistered relayManager _ => relayManager :: managers
    | .StakeUnlocked relayManager _ _ => managers.filter (· ≠ relayManager)
    | .StakeWithdrawn relayManager _ _ => managers.filter (· ≠ relayManager)
    | .StakePenalized relayManager _ _ => managers.filter (· ≠ relayManager)
    | _ => managers
  else managers

/-- The managers that a client keeps which has read the log in order. -/
def keptManagers (H : Address) (logs : List (Address × Event)) : List Address :=
  logs.foldl (follow H) []

section Logs

variable {m : Address} {logs : List (Address × Event)}

theorem lastMark_append_other {l : List (Address × Event)}
    (hl : ∀ x ∈ l, ¬ (x.1 = H ∧ marks m x.2 = true)) :
    lastMark H m (logs ++ l) = lastMark H m logs := by
  have hnil : l.filter (fun x => x.1 == H && marks m x.2) = [] := by
    rw [List.filter_eq_nil_iff]
    intro x hx h
    rw [Bool.and_eq_true, beq_iff_eq] at h
    exact hl x hx h
  rw [lastMark, List.filter_append, hnil, List.append_nil, lastMark]

theorem lastMark_snoc {e : Event} (he : marks m e = true) :
    lastMark H m (logs ++ [(H, e)]) = some e := by
  simp [lastMark, List.filter_append, he]

theorem announced_append_other {l : List (Address × Event)}
    (hl : ∀ x ∈ l, ¬ (x.1 = H ∧ marks m x.2 = true)) :
    Announced H m (logs ++ l) ↔ Announced H m logs := by
  rw [Announced, lastMark_append_other hl, Announced]

/-- The client keeps the managers that the log announces. -/
theorem mem_keptManagers : m ∈ keptManagers H logs ↔ Announced H m logs := by
  induction logs using List.reverseRecOn with
  | nil => simp [keptManagers, Announced, lastMark]
  | append_singleton logs x ih =>
      obtain ⟨a, e⟩ := x
      have hfold : keptManagers H (logs ++ [(a, e)]) = follow H (keptManagers H logs) (a, e) :=
        List.foldl_concat ..
      rw [hfold]
      by_cases hmarks : a = H ∧ marks m e = true
      · obtain ⟨rfl, hmarks⟩ := hmarks
        rw [Announced, lastMark_snoc hmarks]
        cases e <;> simp_all [follow, marks]
      · rw [announced_append_other (by simpa using hmarks), ← ih]
        by_cases ha : a = H
        · -- the event is about another manager, or neither a registration nor an exit
          have hother : marks m e ≠ true := fun h => hmarks ⟨ha, h⟩
          subst ha
          cases e with
          | RelayServerRegistered a _ => 
              have hne : a ≠ m := by simpa [marks] using hother
              simp [follow, Ne.symm hne]
          | StakeUnlocked a _ _ | StakeWithdrawn a _ _ | StakePenalized a _ _ =>
              have hne : a ≠ m := by simpa [marks] using hother
              simp [follow, Ne.symm hne]
          | _ => simp [follow]
        · simp [follow, ha]

end Logs

/-! ## What the log tells -/

/-- The managers that the log announces are staked, apart from those in `X`. -/
def Told (H : Address) (X : Address → Prop) (c : ChainConf χ) : Prop :=
  ∀ m, ¬ X m → Announced H m c.state.logs → (c.state.hubs H).isRelayManagerStaked m = true

/-- What every message keeps. -/
def KeepsTold (H : Address) (c c' : ChainConf χ) : Prop := ∀ X, Told H X c → Told H X c'

section Told

variable {X : Address → Prop} {c c' : ChainConf χ}

theorem Told.congr (h : Told H X c) (hhub : c'.state.hubs H = c.state.hubs H)
    (hlogs : c'.state.logs = c.state.logs) : Told H X c' := by
  intro m hm hannounced
  rw [hlogs] at hannounced
  rw [hhub]
  exact h m hm hannounced

/-- More events, none of which is a mark. -/
theorem Told.log (h : Told H X c) {l : List (Address × Event)}
    (hl : ∀ m, ∀ x ∈ l, ¬ (x.1 = H ∧ marks m x.2 = true))
    (hstaked : ∀ m, (c.state.hubs H).isRelayManagerStaked m = true →
      (c'.state.hubs H).isRelayManagerStaked m = true)
    (hlogs : c'.state.logs = c.state.logs ++ l) : Told H X c' := by
  intro m hm hannounced
  rw [hlogs, announced_append_other (hl m)] at hannounced
  exact hstaked m (h m hm hannounced)

/-- The stake of `m` is touched, and its exit is still to be logged. -/
theorem Told.pend (h : Told H X c) {m : Address} {hub' : RelayHub}
    (hothers : ∀ a, a ≠ m →
      hub'.isRelayManagerStaked a = (c.state.hubs H).isRelayManagerStaked a)
    (hhub : c'.state.hubs H = hub') (hlogs : c'.state.logs = c.state.logs) :
    Told H (fun a => X a ∨ a = m) c' := by
  intro a ha hannounced
  rw [hlogs] at hannounced
  rw [hhub, hothers a fun heq => ha (Or.inr heq)]
  exact h a (fun hX => ha (Or.inl hX)) hannounced

/-- The exit of `m` is logged. -/
theorem Told.exit {m : Address} (h : Told H (fun a => X a ∨ a = m) c) {e : Event}
    (he : ∀ a, marks a e = true ↔ m = a) (hexit : ∀ url, e ≠ .RelayServerRegistered m url)
    (hhub : c'.state.hubs H = c.state.hubs H) (hlogs : c'.state.logs = c.state.logs ++ [(H, e)]) :
    Told H X c' := by
  intro a ha hannounced
  rw [hlogs] at hannounced
  by_cases heq : a = m
  · subst heq
    obtain ⟨url, hlast⟩ := hannounced
    rw [lastMark_snoc ((he a).mpr rfl)] at hlast
    exact absurd (Option.some.inj hlast) (hexit url)
  · have hother : ∀ x ∈ [(H, e)], ¬ (x.1 = H ∧ marks a x.2 = true) := by
      intro x hx hmarks
      obtain rfl := List.mem_singleton.mp hx
      exact heq ((he a).mp hmarks.2).symm
    rw [announced_append_other hother] at hannounced
    rw [hhub]
    exact h a (fun hX => hX.elim ha heq) hannounced

/-- A staked manager registers. -/
theorem Told.register (h : Told H X c) {m : Address} {url : String}
    (hstaked : (c.state.hubs H).isRelayManagerStaked m = true)
    (hhub : c'.state.hubs H = c.state.hubs H)
    (hlogs : c'.state.logs = c.state.logs ++ [(H, .RelayServerRegistered m url)]) :
    Told H X c' := by
  intro a ha hannounced
  rw [hlogs] at hannounced
  rw [hhub]
  by_cases heq : a = m
  · rw [heq]
    exact hstaked
  · have hother : ∀ x ∈ [(H, Event.RelayServerRegistered m url)],
        ¬ (x.1 = H ∧ marks a x.2 = true) := by
      intro x hx hmarks
      obtain rfl := List.mem_singleton.mp hx
      exact heq (by simpa [marks] using hmarks.2 : m = a).symm
    rw [announced_append_other hother] at hannounced
    exact h a ha hannounced

end Told

/-! ## Stakes -/

section Stakes

variable {hub : RelayHub} {m a : Address}

theorem isRelayManagerStaked_setStake_other (info : StakeInfo) (hne : a ≠ m) :
    (hub.setStake m info).isRelayManagerStaked a = hub.isRelayManagerStaked a := by
  simp [isRelayManagerStaked, setStake, hne]

/-- More stake and a longer delay leave a staked manager staked. -/
theorem isRelayManagerStaked_deposit {owner : Address} {value unstakeDelay : Word}
    (hdelay : (hub.stakes m).unstakeDelay ≤ unstakeDelay)
    (hsum : (hub.stakes m).stake.toNat + value.toNat < 2 ^ 256)
    (hstaked : hub.isRelayManagerStaked a = true) :
    (hub.setStake m { hub.stakes m with
        owner := owner
        stake := (hub.stakes m).stake + value
        unstakeDelay := unstakeDelay }).isRelayManagerStaked a = true := by
  by_cases heq : a = m
  · subst heq
    simp only [isRelayManagerStaked, Bool.and_eq_true, decide_eq_true_eq, beq_iff_eq] at hstaked
    obtain ⟨⟨hstake, hdelay₀⟩, hpending⟩ := hstaked
    have hmore : hub.minimumStake ≤ (hub.stakes a).stake + value := by
      rw [BitVec.le_def, toNat_add_of_lt hsum]
      have hle := BitVec.le_def.mp hstake
      omega
    have hlonger : hub.minimumUnstakeDelay ≤ unstakeDelay := BitVec.le_trans hdelay₀ hdelay
    simp [isRelayManagerStaked, setStake, hmore, hlonger, hpending]
  · rw [isRelayManagerStaked_setStake_other _ heq]
    exact hstaked

end Stakes

/-! ## Frames -/

section Frames

variable {creation : Bytes} {msg : Msg} {c : ChainConf χ} {s : World χ}

theorem keepsTold_entered (henter : enter msg c.state = some s) :
    KeepsTold H c (c.entered msg s) := by
  intro X h
  obtain ⟨b, rfl, -⟩ := enter_frame henter
  exact h.congr rfl rfl

/-- The events of another account are no marks. -/
theorem Told.write {X : Address → Prop} (h : Told H X c) (hself : msg.self ≠ H)
    (hw : LocalStep E msg c.state s) : Told H X (c.put s) := by
  obtain ⟨l, hlogs, hl⟩ := hw.logs
  refine h.log (fun m x hx hmarks => hself ((hl x hx).symm.trans hmarks.1)) ?_ hlogs
  intro m hstaked
  rwa [Conf.put_state, hw.hubs H (Ne.symm hself)]

/-- An event that is no mark, logged by the hub. -/
theorem Told.logged {X : Address → Prop} (h : Told H X c) {hub' : RelayHub} {e : Event}
    (he : ∀ m, marks m e = false)
    (hstaked : ∀ m, (c.state.hubs H).isRelayManagerStaked m = true →
      hub'.isRelayManagerStaked m = true) :
    Told H X (c.put (after c.state H hub' [e])) := by
  refine h.log (l := [(H, e)]) ?_ ?_ rfl
  · intro m x hx hmarks
    obtain rfl := List.mem_singleton.mp hx
    exact Bool.false_ne_true ((he m).symm.trans hmarks.2)
  · intro m hm
    simpa [after, World.setHub] using hstaked m hm

/-- The stake of `m` is touched. -/
theorem Told.touched {X : Address → Prop} (h : Told H X c) {m : Address} (info : StakeInfo) :
    Told H (fun a => X a ∨ a = m)
      (c.put (after c.state H ((c.state.hubs H).setStake m info) [])) := by
  have hhub : (after c.state H ((c.state.hubs H).setStake m info) []).hubs H =
      (c.state.hubs H).setStake m info := by
    simp [after, World.setHub]
  refine h.pend (fun a hne => ?_) hhub ?_
  · exact isRelayManagerStaked_setStake_other info hne
  · simp [after, World.setHub]

/-- The exit of `m` is logged by the hub. -/
theorem Told.exited {X : Address → Prop} {m : Address} (h : Told H (fun a => X a ∨ a = m) c)
    {e : Event} (he : ∀ a, marks a e = true ↔ m = a)
    (hexit : ∀ url, e ≠ .RelayServerRegistered m url) :
    Told H X (c.put (after c.state H (c.state.hubs H) [e])) :=
  h.exit he hexit (by simp [after, World.setHub]) rfl

/-- A message that makes no calls. Deposits must not overflow. -/
theorem Effect.keepsTold {hub' : RelayHub} (h : Effect msg (c.state.hubs H) hub')
    (hwithdraw : ∀ m, msg.data ≠ .withdrawStake m) (hpenalize : ∀ w b, msg.data ≠ .penalize w b)
    (hrelay : ∀ r s, msg.data ≠ .relayCall r s) (hdeploy : ∀ r s, msg.data ≠ .deployCall r s)
    (hsum : ∀ m, ((c.state.hubs H).stakes m).stake.toNat + msg.value.toNat < 2 ^ 256) :
    KeepsTold H c (c.put (after c.state H hub' (quietEvents msg hub'))) := by
  intro X hX
  cases h with
  | registerRelayServer url hdata hvalue hstaked hworkers =>
      rw [quietEvents, hdata]
      exact hX.register hstaked (by simp [after, World.setHub]) rfl
  | disableRelayWorkers ws entries hdata =>
      rw [quietEvents, hdata]
      exact hX.logged (fun _ => rfl) fun _ hm => hm
  | addRelayWorkers ws entries hdata =>
      rw [quietEvents, hdata]
      exact hX.logged (fun _ => rfl) fun _ hm => hm
  | deployCall request signature hdata => exact absurd hdata (hdeploy _ _)
  | relayCall request signature hdata => exact absurd hdata (hrelay _ _)
  | penalize w b m hdata => exact absurd hdata (hpenalize _ _)
  | withdrawStake m hdata => exact absurd hdata (hwithdraw _)
  | stakeForAddress m delay hdata howner hdelay =>
      rw [quietEvents, hdata]
      exact hX.logged (fun _ => rfl) fun _ hm => isRelayManagerStaked_deposit hdelay (hsum m) hm
  | unlockStake m hdata =>
      rw [quietEvents, hdata]
      have hpending := hX.touched (m := m) { (c.state.hubs H).stakes m with
        withdrawBlock := msg.tx.blockNumber + ((c.state.hubs H).stakes m).unstakeDelay }
      have hexit := hpending.exited (e := .StakeUnlocked m msg.sender
          (msg.tx.blockNumber + ((c.state.hubs H).stakes m).unstakeDelay))
        (fun a => by simp [marks]) fun _ => Event.noConfusion
      refine hexit.congr ?_ ?_
      · simp [after, World.setHub]
      · simp [after, World.setHub, setStake]
  | isRelayManagerStaked m hdata =>
      rw [quietEvents, hdata, after_self]
      exact hX

/-- **The frame of the hub** keeps what the log tells, if its calls do. -/
theorem told_hub_frame (hself : msg.self = H) (henter : enter msg c.state = some s)
    (hsum : ∀ m, ((c.state.hubs H).stakes m).stake.toNat + msg.value.toNat < 2 ^ 256) :
    wp (.promising fun _ _ c c' => KeepsTold H c c') (code E msg)
      (fun _ c' => KeepsTold H c c') (c.entered msg s) := by
  have hentered : KeepsTold H c (c.entered msg s) := keepsTold_entered henter
  have hhub : (c.entered msg s).state.hubs H = c.state.hubs H := by
    obtain ⟨b, rfl, -⟩ := enter_frame henter
    rfl
  rw [← hhub] at hsum
  subst hself
  refine wp_code ((c.entered msg s).state.hubs msg.self) rfl ?_ ?_ ?_ ?_ ?_
  · rintro hub' events ret heffect hwithdraw hpenalize hrelay hdeploy rfl X hX
    exact heffect.keepsTold hwithdraw hpenalize hrelay hdeploy hsum X (hentered X hX)
  · intro relayRequest signature hdata hguard
    refine ⟨trivial, fun ret c' hback success data _ X hX => ?_⟩
    exact (hback X (hentered X hX)).logged (fun _ => by cases success <;> rfl) fun _ hm => hm
  · intro deployRequest signature hdata hguard
    exact ⟨trivial, fun ret c' hback X hX => hback X (hentered X hX)⟩
  · intro relayManager hdata heffect
    refine ⟨trivial, fun ret c' hback X hX => ?_⟩
    exact (hback _ ((hentered X hX).touched StakeInfo.zero)).exited
      (fun a => by simp [marks]) fun _ => Event.noConfusion
  · intro relayWorker beneficiary relayManager hdata hmanager heffect
    refine ⟨trivial, fun ret₁ c₂ hback₁ => ⟨trivial, fun ret₂ c₃ hback₂ X hX => ?_⟩⟩
    have hpending := (hentered X hX).touched (m := relayManager)
      { ((c.entered msg s).state.hubs msg.self).stakes relayManager with stake := 0 }
    exact (hback₂ _ (hback₁ _ hpending)).exited (fun a => by simp [marks])
      fun _ => Event.noConfusion

/-- The frame of another account keeps what the log tells, if its calls do. -/
theorem told_foreign_frame (hself : msg.self ≠ H) (henter : enter msg c.state = some s) :
    wp (.promising fun _ _ c c' => KeepsTold H c c') (codeOf E O msg s)
      (fun _ c' => KeepsTold H c c') (c.entered msg s) := by
  refine wp_foreign ?_ (fun _ _ _ _ => trivial) ?_ _ (keepsTold_entered henter)
  · exact fun c₁ w hkeeps hw X hX => (hkeeps X hX).write hself hw
  · exact fun m r c₁ c₂ _ hkeeps hback X hX => hback X (hkeeps X hX)

end Frames

/-! ## Runs -/

/-- The specification of all messages: that of the coins of the hub, and that what the log
tells is kept. -/
def toldSpec (E : Env) (w₀ : World χ) (H : Address) (t : TxContext) :
    Spec (World χ) Msg Revert Bytes :=
  (spec E w₀ H t).also fun _ _ c c' => KeepsTold H c c'

theorem told_meets {creation : Bytes} (hcode : w₀.code H = some ⟨.relayHub, creation⟩)
    (hsupply : w₀.supply < 2 ^ 256) (t : TxContext) :
    Meets (machine E O) (toldSpec E w₀ H t) where
  fail m e c hpre :=
    ⟨(meets (O := O) hcode hsupply t).fail m e c hpre, fun _ hX => hX.congr rfl rfl⟩
  code msg c s hpre henter := by
    have htold : wp (.promising fun _ _ c c' => KeepsTold H c c') ((machine E O).code msg s)
        (fun _ c' => KeepsTold H c c') (c.entered msg s) := by
      obtain ⟨-, hdisc, hinv, rest, hfunded, hrest⟩ := hpre
      by_cases hself : msg.self = H
      · subst hself
        have hrun : codeOf E O msg s = code E msg := by
          obtain ⟨b, rfl, -⟩ := enter_frame henter
          rw [codeOf, hdisc.address (hdisc.own rfl), hinv.code, hcode]
          rfl
        rw [show (machine E O).code msg s = codeOf E O msg s from rfl, hrun]
        by_cases hne : msg.sender = msg.self
        · rw [code_of_self hdisc hne]
          exact trivial
        · obtain rfl : rest = 0 := hrest.resolve_right fun h => hne h.1
          rw [paid_other hne, zero_add] at hfunded
          exact told_hub_frame rfl henter (stake_add_lt hsupply hne hdisc hinv hfunded henter)
      · exact told_foreign_frame hself henter
    refine wp_mono _ ?_ _ _
      (wp_also ((meets (O := O) hcode hsupply t).code msg c s hpre henter) htold)
    rintro ret c' ⟨hpost, hkeeps⟩
    exact ⟨hpost, fun X hX => (hkeeps X hX).congr rfl rfl⟩

/-- Between two transactions the log tells who is staked. -/
theorem told_settled (hfresh : Fresh E w₀ H) (hlogs : ∀ x ∈ w₀.logs, x.1 ≠ H)
    (hsupply : w₀.supply < 2 ^ 256) {b : Word} {c : ChainConf χ} (hc : Settled E O w₀ b c) :
    Told H (fun _ => False) c := by
  have hkeeps := hfresh.keeps (O := O) hsupply
  obtain ⟨creation, hcode⟩ := hfresh.code
  refine (hc.of_keeps (S := toldSpec E w₀ H)
    (I := fun b c => (Inv E w₀ H b c ∧ Funded H 0 c) ∧ Told H (fun _ => False) c) ?_).2
  refine
    { meets := told_meets hcode hsupply
      start := ?_
      wait := fun b b' c hb h => ⟨hkeeps.wait b b' c hb h.1, h.2⟩
      write := ?_
      call := fun b c tx h hb horigin => hkeeps.call b c tx h.1 hb horigin
      back := ?_ }
  · intro b
    refine ⟨hkeeps.start b, fun m _ hannounced => ?_⟩
    have hnone : Announced H m ([] ++ w₀.logs) := hannounced
    rw [announced_append_other fun x hx hmarks => hlogs x hx hmarks.1] at hnone
    obtain ⟨url, hlast⟩ := hnone
    cases hlast
  · intro b c msg s h hcodeless hw
    have hself : msg.self ≠ H := h.1.1.ne_of_codeless hcode hcodeless
    exact ⟨hkeeps.write b c msg s h.1 hcodeless hw, h.2.write hself hw⟩
  · intro b c tx r c' h hb horigin hpost
    exact ⟨hkeeps.back b c tx r c' h.1 hb horigin hpost.1, hpost.2 _ h.2⟩

/-- **The log of the hub tells who is active.** In every run from the construction of the hub,
between two transactions, a manager is staked whose last registration or exit in the log is a
registration; so a client that reads the log in order keeps staked managers only. -/
theorem announced_staked (hfresh : Fresh E w₀ H) (hlogs : ∀ x ∈ w₀.logs, x.1 ≠ H)
    (hsupply : w₀.supply < 2 ^ 256) {b : Word} {c : ChainConf χ} (hc : Settled E O w₀ b c)
    (m : Address) :
    (Announced H m c.state.logs → (c.state.hubs H).isRelayManagerStaked m = true) ∧
      (m ∈ keptManagers H c.state.logs → (c.state.hubs H).isRelayManagerStaked m = true) := by
  have htold := told_settled hfresh hlogs hsupply hc m not_false
  exact ⟨htold, fun hmem => htold (mem_keptManagers.mp hmem)⟩

/-! A run in which the manager `0x0c`, staked by `0x0a`, adds a worker and registers. -/

def hubTx (origin : Address) (value : Word) (data : CallData) : Tx :=
  ⟨origin, 1, 10, 0xaa, value, data, 100000⟩

def registeredRun : ChainConf Unit :=
  (hubTx 0x0c 0 (.registerRelayServer "http://localhost:8090")).run smallEnv
    (Outside.silent smallEnv) 8
    ((hubTx 0x0c 0 (.addRelayWorkers [0x01])).run smallEnv (Outside.silent smallEnv) 8
      ((hubTx 0x0a 2000 (.stakeForAddress 0x0c 1000)).run smallEnv (Outside.silent smallEnv) 8
        (Conf.start smallWorld)))

theorem registeredRun_settled :
    Settled smallEnv (Outside.silent smallEnv) smallWorld 10 registeredRun :=
  .call (.call (.call (.start 10) (hubTx 0x0a 2000 (.stakeForAddress 0x0c 1000)) 8 (by decide)
        (by decide))
      (hubTx 0x0c 0 (.addRelayWorkers [0x01])) 8 (by decide) (by decide))
    (hubTx 0x0c 0 (.registerRelayServer "http://localhost:8090")) 8 (by decide) (by decide)

/-- The manager that the log announces is staked. -/
theorem announced_staked_run :
    lastMark 0xaa 0x0c registeredRun.state.logs =
        some (.RelayServerRegistered 0x0c "http://localhost:8090") ∧
      (registeredRun.state.hubs 0xaa).isRelayManagerStaked 0x0c = true := by
  have hlast : lastMark 0xaa 0x0c registeredRun.state.logs =
      some (.RelayServerRegistered 0x0c "http://localhost:8090") := by
    decide +kernel
  have hlogs : ∀ x ∈ smallWorld.logs, x.1 ≠ (0xaa : Address) := by
    intro x hx
    exact absurd hx List.not_mem_nil
  exact ⟨hlast, (announced_staked smallWorld_fresh hlogs smallWorld_supply registeredRun_settled
    0x0c).1 ⟨_, hlast⟩⟩

end RelayHub

end RifRelay
