import RifRelay.Contracts.ProofRules

set_option autoImplicit false

/-! # What the functions of the hub do

`Effect` says once, for every function, under which conditions a call goes through and how
it changes the storage of the hub. `wp_code` is the specification of the whole contract:
every function has its effect before it makes its first call, and no write after that, so a
re-entrant call always finds the storage it would find after the outer call.
-/

namespace RifRelay

open CallMachine

namespace RelayHub

open EnvelopingTypes

/-! ## Workers -/

section Fields

variable (hub : RelayHub) (a : Address) (count : Word)

@[simp] theorem isRelayManagerStaked_setWorkerCount (m : Address) :
    (hub.setWorkerCount a count).isRelayManagerStaked m = hub.isRelayManagerStaked m := rfl

@[simp] theorem setWorkerCount_workerToManager :
    (hub.setWorkerCount a count).workerToManager = hub.workerToManager := rfl

@[simp] theorem setWorkerCount_maxWorkerCount :
    (hub.setWorkerCount a count).maxWorkerCount = hub.maxWorkerCount := rfl

@[simp] theorem setWorkerCount_workerCount :
    (hub.setWorkerCount a count).workerCount = Function.update hub.workerCount a count := rfl

end Fields

/-- Disable the workers one after the other; `none` where one is not an enabled worker of
the manager. -/
def disableAll (manager : Address) : (Address → Word) → List Address → Option (Address → Word)
  | entries, [] => some entries
  | entries, w :: rest =>
      if entries w = enabledWorker manager then
        disableAll manager (Function.update entries w (disabledWorker manager)) rest
      else none

/-- Add the workers one after the other; `none` where one has a manager. -/
def addAll (manager : Address) : (Address → Word) → List Address → Option (Address → Word)
  | entries, [] => some entries
  | entries, w :: rest =>
      if entries w = 0 then addAll manager (Function.update entries w (enabledWorker manager)) rest
      else none

/-- What `relayCall` and `deployCall` check of the worker that sends them. -/
structure RelayGuard (msg : Msg) (hub : RelayHub) (relayData : RelayData) : Prop where
  value : msg.value = 0
  origin : msg.sender = msg.tx.origin
  worker : msg.sender = relayData.relayWorker
  gasPrice : relayData.gasPrice ≤ msg.tx.gasPrice
  enabled : isWorkerEnabled (hub.workerToManager msg.sender) = true
  staked : hub.isRelayManagerStaked (entryManager (hub.workerToManager msg.sender)) = true

/-- The effect of a message that goes through on the storage of the hub. -/
inductive Effect (msg : Msg) (hub : RelayHub) : RelayHub → Prop
  | registerRelayServer (url : String) (hdata : msg.data = .registerRelayServer url)
      (hvalue : msg.value = 0) (hstaked : hub.isRelayManagerStaked msg.sender = true)
      (hworkers : 0 < hub.workerCount msg.sender) : Effect msg hub hub
  | disableRelayWorkers (relayWorkers : List Address) (entries : Address → Word)
      (hdata : msg.data = .disableRelayWorkers relayWorkers) (hvalue : msg.value = 0)
      (hcount : BitVec.ofNat 256 relayWorkers.length ≤ hub.workerCount msg.sender)
      (hstaked : hub.isRelayManagerStaked msg.sender = true)
      (hentries : disableAll msg.sender hub.workerToManager relayWorkers = some entries) :
      Effect msg hub
        { hub.setWorkerCount msg.sender
            (hub.workerCount msg.sender - BitVec.ofNat 256 relayWorkers.length) with
          workerToManager := entries }
  | addRelayWorkers (newRelayWorkers : List Address) (entries : Address → Word)
      (hdata : msg.data = .addRelayWorkers newRelayWorkers) (hvalue : msg.value = 0)
      (hcount : hub.workerCount msg.sender + BitVec.ofNat 256 newRelayWorkers.length ≤
        hub.maxWorkerCount)
      (hstaked : hub.isRelayManagerStaked msg.sender = true)
      (hentries : addAll msg.sender hub.workerToManager newRelayWorkers = some entries) :
      Effect msg hub
        { hub.setWorkerCount msg.sender
            (hub.workerCount msg.sender + BitVec.ofNat 256 newRelayWorkers.length) with
          workerToManager := entries }
  | deployCall (deployRequest : DeployRequest) (signature : Bytes)
      (hdata : msg.data = .deployCall deployRequest signature)
      (hguard : RelayGuard msg hub deployRequest.relayData) : Effect msg hub hub
  | relayCall (relayRequest : RelayRequest) (signature : Bytes)
      (hdata : msg.data = .relayCall relayRequest signature)
      (hguard : RelayGuard msg hub relayRequest.relayData) : Effect msg hub hub
  | penalize (relayWorker beneficiary relayManager : Address)
      (hdata : msg.data = .penalize relayWorker beneficiary) (hvalue : msg.value = 0)
      (hsender : msg.sender = hub.penalizer)
      (hmanager : relayManager = entryManager (hub.workerToManager relayWorker))
      (hknown : relayManager ≠ 0) (hstake : 0 < (hub.stakes relayManager).stake) :
      Effect msg hub (hub.setStake relayManager { hub.stakes relayManager with stake := 0 })
  | stakeForAddress (relayManager : Address) (unstakeDelay : Word)
      (hdata : msg.data = .stakeForAddress relayManager unstakeDelay)
      (howner : (hub.stakes relayManager).owner = 0 ∨
        (hub.stakes relayManager).owner = msg.sender)
      (hdelay : (hub.stakes relayManager).unstakeDelay ≤ unstakeDelay)
      (hself : msg.sender ≠ relayManager) (hmanager : (hub.stakes msg.sender).owner = 0)
      (hentry : (hub.stakes relayManager).owner = 0 →
        hub.minimumEntryDepositValue ≤ msg.value) :
      Effect msg hub (hub.setStake relayManager
        { hub.stakes relayManager with
          owner := msg.sender
          stake := (hub.stakes relayManager).stake + msg.value
          unstakeDelay := unstakeDelay })
  | unlockStake (relayManager : Address) (hdata : msg.data = .unlockStake relayManager)
      (hvalue : msg.value = 0) (howner : (hub.stakes relayManager).owner = msg.sender)
      (hpending : (hub.stakes relayManager).withdrawBlock = 0)
      (hsafe : msg.tx.blockNumber ≤
        msg.tx.blockNumber + (hub.stakes relayManager).unstakeDelay) :
      Effect msg hub (hub.setStake relayManager
        { hub.stakes relayManager with
          withdrawBlock := msg.tx.blockNumber + (hub.stakes relayManager).unstakeDelay })
  | withdrawStake (relayManager : Address) (hdata : msg.data = .withdrawStake relayManager)
      (hvalue : msg.value = 0) (howner : (hub.stakes relayManager).owner = msg.sender)
      (hpending : 0 < (hub.stakes relayManager).withdrawBlock)
      (hdue : (hub.stakes relayManager).withdrawBlock ≤ msg.tx.blockNumber) :
      Effect msg hub (hub.setStake relayManager StakeInfo.zero)
  | isRelayManagerStaked (relayManager : Address)
      (hdata : msg.data = .isRelayManagerStaked relayManager) (hvalue : msg.value = 0) :
      Effect msg hub hub

/-! ## The specification of the contract -/

section Spec

variable {χ : Type} {E : Env} {S : Spec (World χ) Msg Revert Bytes} {msg : Msg}

theorem wp_disableWorkers (relayWorkers : List Address) (Q : Unit → ChainConf χ → Prop)
    (c : ChainConf χ)
    (h : ∀ entries, disableAll msg.sender (c.state.hubs msg.self).workerToManager relayWorkers =
        some entries →
      Q () (c.put (c.state.setHub msg.self
        { c.state.hubs msg.self with workerToManager := entries }))) :
    wp S (disableWorkers msg relayWorkers) Q c := by
  induction relayWorkers generalizing c with
  | nil =>
      have hnil := h _ rfl
      rwa [World.setHub_self] at hnil
  | cons relayWorker rest ih =>
      simp only [disableWorkers, Prog.bind_eq, wp_bind, wp_hub_storage, wp_require,
        wp_hub_modifyStorage]
      intro hworker
      refine ih _ fun entries hentries => ?_
      simp only [Conf.put_state, World.setHub, Function.update_self, setWorker] at hentries
      have hQ := h entries (by rw [disableAll, if_pos hworker, hentries])
      simpa [World.setHub, setWorker] using hQ

theorem wp_addWorkers (newRelayWorkers : List Address) (Q : Unit → ChainConf χ → Prop)
    (c : ChainConf χ)
    (h : ∀ entries, addAll msg.sender (c.state.hubs msg.self).workerToManager newRelayWorkers =
        some entries →
      Q () (c.put (c.state.setHub msg.self
        { c.state.hubs msg.self with workerToManager := entries }))) :
    wp S (addWorkers msg newRelayWorkers) Q c := by
  induction newRelayWorkers generalizing c with
  | nil =>
      have hnil := h _ rfl
      rwa [World.setHub_self] at hnil
  | cons newRelayWorker rest ih =>
      simp only [addWorkers, Prog.bind_eq, wp_bind, wp_hub_storage, wp_require,
        wp_hub_modifyStorage]
      intro hworker
      refine ih _ fun entries hentries => ?_
      simp only [Conf.put_state, World.setHub, Function.update_self, setWorker] at hentries
      have hQ := h entries (by rw [addAll, if_pos hworker, hentries])
      simpa [World.setHub, setWorker] using hQ

/-- The message `Eip712Library.execute` sends. -/
def executeMsg (E : Env) (msg : Msg) (relayRequest : RelayRequest) (signature : Bytes) : Msg :=
  msg.callTo relayRequest.relayData.callForwarder 0
    (.execute relayRequest.relayData.domainSeparator
      (Eip712Library.hashRelayData E relayRequest.relayData) relayRequest.request signature)

/-- The message `Eip712Library.deploy` sends. -/
def deployMsg (E : Env) (msg : Msg) (deployRequest : DeployRequest) (signature : Bytes) : Msg :=
  msg.callTo deployRequest.relayData.callForwarder 0
    (.relayedUserSmartWalletCreation deployRequest.request
      deployRequest.relayData.domainSeparator
      (Eip712Library.hashRelayData E deployRequest.relayData) signature)

/-- The world after the hub at `addr` got the storage `hub` and logged the events. -/
def after (w : World χ) (addr : Address) (hub : RelayHub) (events : List Event) : World χ :=
  { w.setHub addr hub with logs := w.logs ++ events.map fun e => (addr, e) }

@[simp] theorem after_self (w : World χ) (addr : Address) : after w addr (w.hubs addr) [] = w := by
  simp only [after, World.setHub_self, List.map_nil, List.append_nil]

/-- The events of a message that makes no calls, for the storage it leaves. -/
def quietEvents (msg : Msg) (hub' : RelayHub) : List Event :=
  match msg.data with
  | .registerRelayServer url => [.RelayServerRegistered msg.sender url]
  | .disableRelayWorkers relayWorkers =>
      [.RelayWorkersDisabled msg.sender relayWorkers (hub'.workerCount msg.sender)]
  | .addRelayWorkers newRelayWorkers =>
      [.RelayWorkersAdded msg.sender newRelayWorkers (hub'.workerCount msg.sender)]
  | .stakeForAddress relayManager unstakeDelay =>
      [.StakeAdded relayManager msg.sender (hub'.stakes relayManager).stake unstakeDelay]
  | .unlockStake relayManager =>
      [.StakeUnlocked relayManager msg.sender (hub'.stakes relayManager).withdrawBlock]
  | _ => []

/-- The event `relayCall` ends with. -/
def relayedEvent (E : Env) (msg : Msg) (hub : RelayHub) (signature : Bytes)
    (destinationCallSuccess : Bool) (ret : Bytes) : Event :=
  if destinationCallSuccess then
    .TransactionRelayed (entryManager (hub.workerToManager msg.sender)) msg.sender
      (E.keccak256 signature) ret
  else
    .TransactionRelayedButRevertedByRecipient
      (entryManager (hub.workerToManager msg.sender)) msg.sender (E.keccak256 signature) ret

/-- **The specification of the hub.** A message either has its effect and no more, or it has
its effect and then makes its calls: `relayCall` to the wallet, `deployCall` to the factory,
`withdrawStake` to the owner, `penalize` to the zero address and to the beneficiary. -/
theorem wp_code {Q : Bytes → ChainConf χ → Prop} {c : ChainConf χ} (hub : RelayHub)
    (hhub : c.state.hubs msg.self = hub)
    (hquiet : ∀ hub' events ret, Effect msg hub hub' →
      (∀ m, msg.data ≠ .withdrawStake m) → (∀ w b, msg.data ≠ .penalize w b) →
      (∀ r s, msg.data ≠ .relayCall r s) → (∀ r s, msg.data ≠ .deployCall r s) →
      events = quietEvents msg hub' → Q ret (c.put (after c.state msg.self hub' events)))
    (hrelay : ∀ relayRequest signature, msg.data = .relayCall relayRequest signature →
      RelayGuard msg hub relayRequest.relayData →
      S.pre (executeMsg E msg relayRequest signature) c ∧
        ∀ ret c', S.post (executeMsg E msg relayRequest signature) (.ok ret) c c' →
          ∀ success data, Abi.decodeBoolBytes ret = some (success, data) →
            Q (Abi.encodeBool success) (c'.put (after c'.state msg.self (c'.state.hubs msg.self)
              [relayedEvent E msg hub signature success
                (Eip712Library.truncateInPlace data 1024)])))
    (hdeploy : ∀ deployRequest signature, msg.data = .deployCall deployRequest signature →
      RelayGuard msg hub deployRequest.relayData →
      S.pre (deployMsg E msg deployRequest signature) c ∧
        ∀ ret c', S.post (deployMsg E msg deployRequest signature) (.ok ret) c c' → Q [] c')
    (hwithdraw : ∀ relayManager, msg.data = .withdrawStake relayManager →
      Effect msg hub (hub.setStake relayManager StakeInfo.zero) →
      let c₁ := c.put (after c.state msg.self (hub.setStake relayManager StakeInfo.zero) [])
      let m := msg.callTo msg.sender (hub.stakes relayManager).stake .empty
      S.pre m c₁ ∧ ∀ ret c', S.post m (.ok ret) c₁ c' →
        Q [] (c'.put (after c'.state msg.self (c'.state.hubs msg.self)
          [.StakeWithdrawn relayManager msg.sender (hub.stakes relayManager).stake])))
    (hpenalize : ∀ relayWorker beneficiary relayManager,
      msg.data = .penalize relayWorker beneficiary →
      relayManager = entryManager (hub.workerToManager relayWorker) →
      Effect msg hub (hub.setStake relayManager { hub.stakes relayManager with stake := 0 }) →
      let amounts := penalty (hub.stakes relayManager).stake
      let c₁ := c.put (after c.state msg.self
        (hub.setStake relayManager { hub.stakes relayManager with stake := 0 }) [])
      let m₁ := msg.callTo 0 amounts.1 .empty
      let m₂ := msg.callTo beneficiary amounts.2 .empty
      S.pre m₁ c₁ ∧ ∀ ret₁ c₂, S.post m₁ (.ok ret₁) c₁ c₂ →
        S.pre m₂ c₂ ∧ ∀ ret₂ c₃, S.post m₂ (.ok ret₂) c₂ c₃ →
          Q [] (c₃.put (after c₃.state msg.self (c₃.state.hubs msg.self)
            [.StakePenalized relayManager beneficiary amounts.2]))) :
    wp S (code E msg) Q c := by
  subst hhub
  unfold code
  split
  next url hdata =>
    simp only [registerRelayServer, Prog.bind_eq, Prog.pure_eq, wp_bind, wp_nonPayable,
      wp_requireManagerStaked, wp_hub_storage, wp_require, wp_emit, wp_ret]
    intro hvalue hstaked hworkers
    have hQ := hquiet _ [.RelayServerRegistered msg.sender url] []
      (.registerRelayServer url hdata hvalue hstaked hworkers)
      (by simp [hdata]) (by simp [hdata]) (by simp [hdata]) (by simp [hdata])
      (by simp [hdata, quietEvents])
    simpa [after, World.setHub] using hQ
  next relayWorkers hdata =>
    simp only [disableRelayWorkers, Prog.bind_eq, Prog.pure_eq, wp_bind, wp_nonPayable,
      wp_requireManagerStaked, wp_hub_storage, wp_require, wp_emit, wp_ret,
      wp_hub_modifyStorage]
    intro hvalue hcount hstaked
    refine wp_disableWorkers _ _ _ fun entries hentries => ?_
    have hQ := hquiet _ [.RelayWorkersDisabled msg.sender relayWorkers
        ((c.state.hubs msg.self).workerCount msg.sender -
          BitVec.ofNat 256 relayWorkers.length)] []
      (.disableRelayWorkers relayWorkers entries hdata hvalue hcount
        (by simpa [World.setHub] using hstaked) (by simpa [World.setHub] using hentries))
      (by simp [hdata]) (by simp [hdata]) (by simp [hdata]) (by simp [hdata])
      (by simp [hdata, quietEvents, setWorkerCount])
    simpa [after, World.setHub] using hQ
  next newRelayWorkers hdata =>
    simp only [addRelayWorkers, Prog.bind_eq, Prog.pure_eq, wp_bind, wp_nonPayable,
      wp_requireManagerStaked, wp_hub_storage, wp_require, wp_emit, wp_ret,
      wp_hub_modifyStorage]
    intro hvalue hcount hstaked
    refine wp_addWorkers _ _ _ fun entries hentries => ?_
    have hQ := hquiet _ [.RelayWorkersAdded msg.sender newRelayWorkers
        ((c.state.hubs msg.self).workerCount msg.sender +
          BitVec.ofNat 256 newRelayWorkers.length)] []
      (.addRelayWorkers newRelayWorkers entries hdata hvalue
        (by simpa [World.setHub, setWorkerCount] using hcount)
        (by simpa [World.setHub] using hstaked) (by simpa [World.setHub] using hentries))
      (by simp [hdata]) (by simp [hdata]) (by simp [hdata]) (by simp [hdata])
      (by simp [hdata, quietEvents, setWorkerCount])
    simpa [after, World.setHub] using hQ
  next deployRequest signature hdata =>
    simp only [deployCall, Eip712Library.deploy, Prog.bind_eq, Prog.pure_eq, wp_bind,
      wp_nonPayable, wp_requireManagerStaked, wp_hub_storage, wp_require, wp_lowLevelCall]
    intro hvalue henabled horigin hworker hstaked hgas
    have hguard : RelayGuard msg (c.state.hubs msg.self) deployRequest.relayData :=
      ⟨hvalue, horigin, hworker, hgas, henabled, hstaked⟩
    obtain ⟨hpre, hpost⟩ := hdeploy deployRequest signature hdata hguard
    refine ⟨hpre, fun r c' hr => ?_⟩
    -- a failed call of the factory reverts the hub as well
    cases r with
    | error e => simp [callResult]
    | ok ret => simpa [callResult] using hpost ret c' hr
  next relayRequest signature hdata =>
    simp only [relayCall, Eip712Library.execute, Prog.bind_eq, Prog.pure_eq, wp_bind,
      wp_nonPayable, wp_requireManagerStaked, wp_hub_storage, wp_require, wp_lowLevelCall]
    intro hvalue horigin hworker hgas henabled hstaked
    have hguard : RelayGuard msg (c.state.hubs msg.self) relayRequest.relayData :=
      ⟨hvalue, horigin, hworker, hgas, henabled, hstaked⟩
    obtain ⟨hpre, hpost⟩ := hrelay relayRequest signature hdata hguard
    refine ⟨hpre, fun r c' hr => ?_⟩
    cases r with
    | error e => simp [callResult]
    | ok ret =>
        simp only [callResult, if_true, wp_bind, wp_orRevert, wp_ret]
        -- the answer of the wallet says whether the destination was called with success
        rintro ⟨success, data⟩ hdecode
        have hQ := hpost ret c' hr success data hdecode
        cases success <;> simpa [after, World.setHub, relayedEvent] using hQ
  next relayWorker beneficiary hdata =>
    simp only [penalize, Prog.bind_eq, Prog.pure_eq, wp_bind, wp_nonPayable, wp_hub_storage,
      wp_require, wp_hub_modifyStorage, wp_transferTo, wp_emit, wp_ret]
    intro hvalue hsender hknown hstake
    have hQ := hpenalize relayWorker beneficiary _ hdata rfl
      (.penalize relayWorker beneficiary _ hdata hvalue hsender rfl hknown hstake)
    simpa [after, World.setHub] using hQ
  next relayManager unstakeDelay hdata =>
    simp only [stakeForAddress, Prog.bind_eq, Prog.pure_eq, wp_bind, wp_hub_storage,
      wp_require, wp_whenever, wp_hub_modifyStorage, wp_emit, wp_ret]
    intro howner hdelay hself hmanager
    have hQ := fun hentry => hquiet _ [.StakeAdded relayManager msg.sender
        (((c.state.hubs msg.self).stakes relayManager).stake + msg.value) unstakeDelay] []
      (.stakeForAddress relayManager unstakeDelay hdata howner hdelay hself hmanager hentry)
      (by simp [hdata]) (by simp [hdata]) (by simp [hdata]) (by simp [hdata])
      (by simp [hdata, quietEvents, setStake])
    -- only a new entry asks for the minimum stake
    constructor
    · intro _ hvalue
      simpa [after, World.setHub] using hQ fun _ => hvalue
    · intro hne
      simpa [after, World.setHub] using hQ fun h => absurd h hne
  next relayManager hdata =>
    simp only [unlockStake, safeAdd, Prog.bind_eq, Prog.pure_eq, wp_bind, wp_nonPayable,
      wp_hub_storage, wp_require, wp_ite, wp_hub_modifyStorage, wp_emit, wp_ret, wp_revert]
    intro hvalue howner hpending
    -- SafeMath reverts where the block of the withdrawal would overflow
    refine ⟨fun hsafe => ?_, fun _ => trivial⟩
    have hQ := hquiet _ [.StakeUnlocked relayManager msg.sender
        (msg.tx.blockNumber + ((c.state.hubs msg.self).stakes relayManager).unstakeDelay)] []
      (.unlockStake relayManager hdata hvalue howner hpending hsafe)
      (by simp [hdata]) (by simp [hdata]) (by simp [hdata]) (by simp [hdata])
      (by simp [hdata, quietEvents, setStake])
    simpa [after, World.setHub] using hQ
  next relayManager hdata =>
    simp only [withdrawStake, Prog.bind_eq, Prog.pure_eq, wp_bind, wp_nonPayable,
      wp_hub_storage, wp_require, wp_hub_modifyStorage, wp_transferTo, wp_emit, wp_ret]
    intro hvalue howner hpending hdue
    have hQ := hwithdraw relayManager hdata
      (.withdrawStake relayManager hdata hvalue howner hpending hdue)
    simpa [after, World.setHub] using hQ
  next relayManager hdata =>
    simp only [Prog.bind_eq, Prog.pure_eq, wp_bind, wp_nonPayable, wp_hub_storage, wp_ret]
    intro hvalue
    have hQ := hquiet _ [] (Abi.encodeBool ((c.state.hubs msg.self).isRelayManagerStaked
        relayManager)) (.isRelayManagerStaked relayManager hdata hvalue)
      (by simp [hdata]) (by simp [hdata]) (by simp [hdata]) (by simp [hdata])
      (by simp [hdata, quietEvents])
    simpa only [after_self, Conf.put_self] using hQ
  next => exact trivial

end Spec

end RelayHub

end RifRelay
