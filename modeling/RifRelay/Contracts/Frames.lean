import RifRelay.Contracts.Chain

set_option autoImplicit false

/-! # Frames stay in their account

What every frame on the chain keeps to, whichever code it runs: it writes the storage of
its own account, it can only give coins to others, it creates contracts where none stand,
at addresses that carry its own address in their hash, and it can remove no code but its
own. The proofs about one contract use this for all the others.
-/

namespace RifRelay

open CallMachine

variable {χ : Type}

/-- One write of the frame `msg`. -/
structure LocalStep (E : Env) (msg : Msg) (w w' : World χ) : Prop where
  hubs : ∀ a, a ≠ msg.self → w'.hubs a = w.hubs a
  penalizers : ∀ a, a ≠ msg.self → w'.penalizers a = w.penalizers a
  factories : ∀ a, a ≠ msg.self → w'.factories a = w.factories a
  wallets : ∀ a, a ≠ msg.self →
    w'.wallets a = w.wallets a ∨ (w.Vacant E a ∧ w'.wallets a = Wallet.zero)
  balance : ∀ a, a ≠ msg.self →
    ∃ v, w'.balance a = w.balance a + v ∧ w'.forced a = w.forced a + v
  supply : w'.supply ≤ w.supply
  code : ∀ a, w'.code a = w.code a ∨ (a = msg.self ∧ w'.code a = none) ∨
    (w.Vacant E a ∧ ∃ k, w'.code a = some k ∧ Creation msg.self k.creation ∧
      a = E.createdAddress k.creation)
  logs : ∃ l, w'.logs = w.logs ++ l ∧ ∀ x ∈ l, x.1 = msg.self

namespace LocalStep

variable {E : Env} {msg : Msg} {w w' : World χ}

/-- A write that leaves coins and code alone and stays in its own account. -/
theorem of_own (hubs : ∀ a, a ≠ msg.self → w'.hubs a = w.hubs a)
    (penalizers : ∀ a, a ≠ msg.self → w'.penalizers a = w.penalizers a)
    (factories : ∀ a, a ≠ msg.self → w'.factories a = w.factories a)
    (wallets : ∀ a, a ≠ msg.self → w'.wallets a = w.wallets a)
    (hbalance : w'.balance = w.balance) (hforced : w'.forced = w.forced)
    (hcode : w'.code = w.code)
    (hlogs : ∃ l, w'.logs = w.logs ++ l ∧ ∀ x ∈ l, x.1 = msg.self) : LocalStep E msg w w' where
  hubs := hubs
  penalizers := penalizers
  factories := factories
  wallets := fun a ha => Or.inl (wallets a ha)
  balance := fun a _ => ⟨0, by simp [hbalance], by simp [hforced]⟩
  supply := by simp [World.supply, hbalance]
  code := fun a => Or.inl (by rw [hcode])
  logs := hlogs

theorem refl : LocalStep E msg w w :=
  of_own (fun _ _ => rfl) (fun _ _ => rfl) (fun _ _ => rfl) (fun _ _ => rfl) rfl rfl rfl
    ⟨[], by simp, by simp⟩

theorem log (e : Event) : LocalStep E msg w { w with logs := w.logs ++ [(msg.self, e)] } :=
  of_own (fun _ _ => rfl) (fun _ _ => rfl) (fun _ _ => rfl) (fun _ _ => rfl) rfl rfl rfl
    ⟨[(msg.self, e)], rfl, by simp⟩

theorem force (dest : Address) (v : Nat) (hne : dest ≠ msg.self)
    (hv : v ≤ w.balance msg.self) : LocalStep E msg w (w.force msg.self dest v) where
  hubs := fun _ _ => rfl
  penalizers := fun _ _ => rfl
  factories := fun _ _ => rfl
  wallets := fun _ _ => Or.inl rfl
  balance := by
    intro a ha
    rcases eq_or_ne a dest with rfl | hdest
    · exact ⟨v, Ledger.move_to w.balance v hne, by simp [World.force]⟩
    · exact ⟨0, Ledger.move_other w.balance v ha hdest, by simp [World.force, hdest]⟩
  supply := le_of_eq (Ledger.sum_move w.balance msg.self dest v hv)
  code := fun _ => Or.inl rfl
  logs := ⟨[], by simp [World.force], by simp⟩

theorem burn (v : Nat) :
    LocalStep E msg w
      { w with balance := Function.update w.balance msg.self (w.balance msg.self - v) } where
  hubs := fun _ _ => rfl
  penalizers := fun _ _ => rfl
  factories := fun _ _ => rfl
  wallets := fun _ _ => Or.inl rfl
  balance := fun a ha => ⟨0, by simp [ha], rfl⟩
  supply := by
    have h := Ledger.sum_update w.balance msg.self (w.balance msg.self - v)
    simp only [World.supply]
    omega
  code := fun _ => Or.inl rfl
  logs := ⟨[], by simp, by simp⟩

theorem install (contract : Contract) (h : Creation msg.self contract.creation)
    (hvacant : w.Vacant E (E.createdAddress contract.creation)) :
    LocalStep E msg w (w.install (E.createdAddress contract.creation) contract) where
  hubs := fun _ _ => rfl
  penalizers := fun _ _ => rfl
  factories := fun _ _ => rfl
  wallets := by
    intro a _
    rcases eq_or_ne a (E.createdAddress contract.creation) with rfl | ha
    · exact Or.inr ⟨hvacant, by simp [World.install]⟩
    · exact Or.inl (by simp [World.install, ha])
  balance := fun a _ => ⟨0, rfl, rfl⟩
  supply := le_refl _
  code := by
    intro a
    rcases eq_or_ne a (E.createdAddress contract.creation) with rfl | ha
    · exact Or.inr (Or.inr ⟨hvacant, contract, by simp [World.install], h, rfl⟩)
    · exact Or.inl (by simp [World.install, ha])
  logs := ⟨[], by simp [World.install], by simp⟩

theorem destroy :
    LocalStep E msg w { w with code := Function.update w.code msg.self none } where
  hubs := fun _ _ => rfl
  penalizers := fun _ _ => rfl
  factories := fun _ _ => rfl
  wallets := fun _ _ => Or.inl rfl
  balance := fun a _ => ⟨0, rfl, rfl⟩
  supply := le_refl _
  code := by
    intro a
    rcases eq_or_ne a msg.self with rfl | ha
    · exact Or.inr (Or.inl ⟨rfl, by simp⟩)
    · exact Or.inl (by simp [ha])
  logs := ⟨[], by simp, by simp⟩

theorem of_outside (h : OutsideStep E msg w w') : LocalStep E msg w w' := by
  cases h with
  | idle => exact refl
  | store x =>
      exact of_own (fun _ _ => rfl) (fun _ _ => rfl) (fun _ _ => rfl) (fun _ _ => rfl)
        rfl rfl rfl ⟨[], by simp, by simp⟩
  | log e => exact log e
  | own hub penalizer wallet factory =>
      exact of_own (fun a ha => by simp [ha]) (fun a ha => by simp [ha])
        (fun a ha => by simp [ha]) (fun a ha => by simp [ha]) rfl rfl rfl
        ⟨[], by simp, by simp⟩
  | force dest v hne hv => exact force dest v hne hv
  | burn v => exact burn v
  | create creation hc hvacant => exact install ⟨.other, creation⟩ hc hvacant
  | destroy => exact destroy

end LocalStep

/-! ## The writes of a code -/

/-- The code is that of a wallet. -/
def Code.isWallet : Code → Bool
  | .smartWallet | .customSmartWallet => true
  | _ => false

/-- The code is that of a factory. -/
def Code.isFactory : Code → Bool
  | .smartWalletFactory | .customSmartWalletFactory => true
  | _ => false

section FrameStep

variable (E : Env) (msg : Msg)

/-- One write of the code `k` that runs in the frame of `msg`: a contract of the repository
logs, writes its own kind of storage, and creates proxies if it is a factory. -/
inductive FrameStep (w : World χ) : Code → World χ → Prop
  | idle (k : Code) : FrameStep w k w
  | log (k : Code) (e : Event) : FrameStep w k { w with logs := w.logs ++ [(msg.self, e)] }
  | hub (hub : RelayHub) :
      FrameStep w .relayHub { w with hubs := Function.update w.hubs msg.self hub }
  | penalizer (penalizer : Penalizer) :
      FrameStep w .penalizer
        { w with penalizers := Function.update w.penalizers msg.self penalizer }
  | wallet (k : Code) (wallet : Wallet) (hk : k.isWallet = true) :
      FrameStep w k { w with wallets := Function.update w.wallets msg.self wallet }
  | factory (k : Code) (factory : Factory) (hk : k.isFactory = true) :
      FrameStep w k { w with factories := Function.update w.factories msg.self factory }
  | create (k : Code) (masterCopy : Address) (creation : Bytes) (hk : k.isFactory = true)
      (h : Creation msg.self creation) (hvacant : w.Vacant E (E.createdAddress creation)) :
      FrameStep w k (w.install (E.createdAddress creation) ⟨.proxy masterCopy, creation⟩)
  | outside {w' : World χ} (h : OutsideStep E msg w w') : FrameStep w .other w'

end FrameStep

/-- Whatever code it runs, a frame stays in its account. -/
theorem FrameStep.localStep {E : Env} {msg : Msg} {w w' : World χ} {k : Code}
    (h : FrameStep E msg w k w') : LocalStep E msg w w' := by
  cases h with
  | idle => exact .refl
  | log k e => exact .log e
  | hub hub =>
      exact .of_own (fun a ha => by simp [ha]) (fun _ _ => rfl) (fun _ _ => rfl)
        (fun _ _ => rfl) rfl rfl rfl ⟨[], by simp, by simp⟩
  | penalizer penalizer =>
      exact .of_own (fun _ _ => rfl) (fun a ha => by simp [ha]) (fun _ _ => rfl)
        (fun _ _ => rfl) rfl rfl rfl ⟨[], by simp, by simp⟩
  | wallet k wallet hk =>
      exact .of_own (fun _ _ => rfl) (fun _ _ => rfl) (fun _ _ => rfl)
        (fun a ha => by simp [ha]) rfl rfl rfl ⟨[], by simp, by simp⟩
  | factory k factory hk =>
      exact .of_own (fun _ _ => rfl) (fun _ _ => rfl) (fun a ha => by simp [ha])
        (fun _ _ => rfl) rfl rfl rfl ⟨[], by simp, by simp⟩
  | create k masterCopy creation hk hc hvacant => exact .install ⟨_, creation⟩ hc hvacant
  | outside ho => exact .of_outside ho

/-! ## Entering a frame -/

/-- How entering a message moves the coins. -/
theorem enter_cases {msg : Msg} {w s : World χ} (h : enter msg w = some s) :
    (msg.kind = .call ∧ msg.value.toNat ≤ w.balance msg.sender ∧
      s = { w with balance := Ledger.move w.balance msg.sender msg.self msg.value.toNat }) ∨
    (msg.kind ≠ .call ∧ s = w) := by
  unfold enter at h
  split at h
  · next hkind =>
      split at h
      · next hvalue => exact Or.inl ⟨hkind, hvalue, (Option.some.inj h).symm⟩
      · cases h
  · next hkind => exact Or.inr ⟨hkind, (Option.some.inj h).symm⟩

/-- Entering a message changes nothing but balances, and not their sum. -/
theorem enter_frame {msg : Msg} {w s : World χ} (h : enter msg w = some s) :
    ∃ b, s = { w with balance := b } ∧ ∑ a, b a = w.supply := by
  rcases enter_cases h with ⟨-, hvalue, rfl⟩ | ⟨-, rfl⟩
  · exact ⟨_, rfl, Ledger.sum_move w.balance msg.sender msg.self _ hvalue⟩
  · exact ⟨_, rfl, rfl⟩

/-! ## The primitives -/

section Primitives

variable (E : Env) (msg : Msg)

/-- The program keeps to what the code `k` may do in the frame of `msg`. -/
abbrev Local (k : Code) {α : Type} (p : Sol χ α) : Prop :=
  p.Within (fun w w' => FrameStep E msg w k w') (LocalCall msg)

variable {k : Code}

theorem local_require (p : Prop) [Decidable p] (reason : String) :
    Local E msg k (require p reason : Sol χ Unit) := Prog.within_assert _ _ p _

theorem local_nonPayable : Local E msg k (nonPayable msg : Sol χ Unit) :=
  Prog.within_assert _ _ _ _

theorem local_whenever {p : Prop} [Decidable p] {body : Sol χ Unit} (h : Local E msg k body) :
    Local E msg k (whenever p body) := Prog.Within.ite _ _ h trivial

theorem local_emit (e : Event) : Local E msg k (emit msg.self e : Sol χ Unit) :=
  (Prog.within_modify _ _ _).mpr fun _ => FrameStep.log k e

theorem local_orRevert {α : Type} (o : Option α) : Local E msg k (orRevert o : Sol χ α) := by
  cases o <;> exact trivial

theorem local_recoverSigner (digest : Word) (sig : Bytes) :
    Local E msg k (recoverSigner E digest sig : Sol χ Address) := by
  unfold recoverSigner
  split <;> exact trivial

theorem localCall_callTo (dest : Address) (value : Word) (data : CallData) :
    LocalCall msg (msg.callTo dest value data) :=
  ⟨rfl, Or.inr ⟨by simp [Msg.callTo], rfl, rfl, by simp [Msg.callTo]⟩⟩

theorem localCall_staticcallTo (dest : Address) (data : CallData) :
    LocalCall msg (msg.staticcallTo dest data) :=
  ⟨rfl, Or.inr ⟨by simp [Msg.staticcallTo], rfl, rfl, fun _ => rfl⟩⟩

theorem localCall_delegatecallTo (codeAddress : Address) (data : CallData) :
    LocalCall msg (msg.delegatecallTo codeAddress data) :=
  ⟨rfl, Or.inl ⟨rfl, rfl, rfl, rfl⟩⟩

theorem local_lowLevelCall (limit : Option Nat) (dest : Address) (value : Word)
    (data : CallData) :
    Local E msg k (lowLevelCall msg limit dest value data : Sol χ (Bool × Bytes)) :=
  Prog.Within.bind ((Prog.within_send _ _ _ _).mpr (localCall_callTo msg dest value data))
    fun _ => trivial

theorem local_lowLevelDelegatecall (codeAddress : Address) (data : CallData) :
    Local E msg k (lowLevelDelegatecall msg codeAddress data : Sol χ (Bool × Bytes)) :=
  Prog.Within.bind
    ((Prog.within_send _ _ _ _).mpr (localCall_delegatecallTo msg codeAddress data))
    fun _ => trivial

theorem local_bubble (r : Except Revert Bytes) : Local E msg k (bubble r : Sol χ Bytes) := by
  cases r <;> exact trivial

theorem local_transferTo (dest : Address) (amount : Word) :
    Local E msg k (transferTo msg dest amount : Sol χ Unit) :=
  Prog.Within.bind ((Prog.within_send _ _ _ _).mpr (localCall_callTo msg dest amount .empty))
    fun r => (local_bubble E msg r).bind fun _ => trivial

theorem local_selfBalance : Local E msg k (selfBalance msg : Sol χ Word) :=
  fun _ => trivial

end Primitives

/-! ## The contracts -/

section Contracts

variable (E : Env) (msg : Msg) {k : Code}

theorem local_hub_storage : Local E msg .relayHub (RelayHub.storage msg : Sol χ RelayHub) :=
  fun _ => trivial

theorem local_hub_modifyStorage (f : RelayHub → RelayHub) :
    Local E msg .relayHub (RelayHub.modifyStorage msg f : Sol χ Unit) :=
  (Prog.within_modify _ _ _).mpr fun _ => FrameStep.hub _

theorem local_requireManagerStaked (relayManager : Address) :
    Local E msg .relayHub (RelayHub.requireManagerStaked msg relayManager : Sol χ Unit) :=
  (local_hub_storage E msg).bind fun _ => local_require E msg _ _

theorem local_disableWorkers (relayWorkers : List Address) :
    Local E msg .relayHub (RelayHub.disableWorkers msg relayWorkers : Sol χ Unit) := by
  induction relayWorkers with
  | nil => exact trivial
  | cons relayWorker rest ih =>
      refine (local_hub_storage E msg).bind fun _ => ?_
      refine (local_require E msg _ _).bind fun _ => ?_
      exact (local_hub_modifyStorage E msg _).bind fun _ => ih

theorem local_addWorkers (newRelayWorkers : List Address) :
    Local E msg .relayHub (RelayHub.addWorkers msg newRelayWorkers : Sol χ Unit) := by
  induction newRelayWorkers with
  | nil => exact trivial
  | cons newRelayWorker rest ih =>
      refine (local_hub_storage E msg).bind fun _ => ?_
      refine (local_require E msg _ _).bind fun _ => ?_
      exact (local_hub_modifyStorage E msg _).bind fun _ => ih

theorem local_registerRelayServer (url : String) :
    Local E msg .relayHub (RelayHub.registerRelayServer msg url : Sol χ Unit) := by
  refine (local_requireManagerStaked E msg _).bind fun _ => ?_
  refine (local_hub_storage E msg).bind fun _ => ?_
  exact (local_require E msg _ _).bind fun _ => local_emit E msg _

theorem local_disableRelayWorkers (relayWorkers : List Address) :
    Local E msg .relayHub (RelayHub.disableRelayWorkers msg relayWorkers : Sol χ Unit) := by
  refine (local_hub_storage E msg).bind fun _ => ?_
  refine (local_require E msg _ _).bind fun _ => ?_
  refine (local_hub_modifyStorage E msg _).bind fun _ => ?_
  refine (local_requireManagerStaked E msg _).bind fun _ => ?_
  refine (local_disableWorkers E msg _).bind fun _ => ?_
  exact (local_hub_storage E msg).bind fun _ => local_emit E msg _

theorem local_addRelayWorkers (newRelayWorkers : List Address) :
    Local E msg .relayHub (RelayHub.addRelayWorkers msg newRelayWorkers : Sol χ Unit) := by
  refine (local_hub_storage E msg).bind fun _ => ?_
  refine (local_hub_modifyStorage E msg _).bind fun _ => ?_
  refine (local_hub_storage E msg).bind fun _ => ?_
  refine (local_require E msg _ _).bind fun _ => ?_
  refine (local_requireManagerStaked E msg _).bind fun _ => ?_
  refine (local_addWorkers E msg _).bind fun _ => ?_
  exact (local_hub_storage E msg).bind fun _ => local_emit E msg _

theorem local_deployCall (deployRequest : EnvelopingTypes.DeployRequest) (signature : Bytes) :
    Local E msg .relayHub (RelayHub.deployCall E msg deployRequest signature : Sol χ Unit) := by
  refine (local_hub_storage E msg).bind fun _ => ?_
  refine (local_require E msg _ _).bind fun _ => ?_
  refine (local_require E msg _ _).bind fun _ => ?_
  refine (local_require E msg _ _).bind fun _ => ?_
  refine (local_requireManagerStaked E msg _).bind fun _ => ?_
  refine (local_require E msg _ _).bind fun _ => ?_
  exact (local_lowLevelCall E msg _ _ _ _).bind fun _ => Prog.Within.ite _ _ trivial trivial

theorem local_hub_execute (relayRequest : EnvelopingTypes.RelayRequest) (signature : Bytes) :
    Local E msg .relayHub (Eip712Library.execute E msg relayRequest signature : Sol χ _) := by
  refine (local_lowLevelCall E msg _ _ _ _).bind fun r => ?_
  refine Prog.Within.ite _ _ ?_ trivial
  exact (local_orRevert E msg _).bind fun _ => trivial

theorem local_relayCall (relayRequest : EnvelopingTypes.RelayRequest) (signature : Bytes) :
    Local E msg .relayHub (RelayHub.relayCall E msg relayRequest signature : Sol χ Bool) := by
  refine (local_require E msg _ _).bind fun _ => ?_
  refine (local_require E msg _ _).bind fun _ => ?_
  refine (local_require E msg _ _).bind fun _ => ?_
  refine (local_hub_storage E msg).bind fun _ => ?_
  refine (local_require E msg _ _).bind fun _ => ?_
  refine (local_requireManagerStaked E msg _).bind fun _ => ?_
  refine (local_hub_execute E msg _ _).bind fun _ => ?_
  refine Prog.Within.ite _ _ (Prog.Within.ite _ _ ?_ ?_) trivial
  · exact (local_emit E msg _).bind fun _ => trivial
  · exact (local_emit E msg _).bind fun _ => trivial

theorem local_penalize (relayWorker beneficiary : Address) :
    Local E msg .relayHub (RelayHub.penalize msg relayWorker beneficiary : Sol χ Unit) := by
  refine (local_hub_storage E msg).bind fun _ => ?_
  refine (local_require E msg _ _).bind fun _ => ?_
  refine (local_require E msg _ _).bind fun _ => ?_
  refine (local_require E msg _ _).bind fun _ => ?_
  refine (local_hub_modifyStorage E msg _).bind fun _ => ?_
  refine (local_transferTo E msg _ _).bind fun _ => ?_
  exact (local_transferTo E msg _ _).bind fun _ => local_emit E msg _

theorem local_stakeForAddress (relayManager : Address) (unstakeDelay : Word) :
    Local E msg .relayHub
      (RelayHub.stakeForAddress msg relayManager unstakeDelay : Sol χ Unit) := by
  refine (local_hub_storage E msg).bind fun _ => ?_
  refine (local_require E msg _ _).bind fun _ => ?_
  refine (local_require E msg _ _).bind fun _ => ?_
  refine (local_require E msg _ _).bind fun _ => ?_
  refine (local_require E msg _ _).bind fun _ => ?_
  refine (local_whenever E msg (local_require E msg _ _)).bind fun _ => ?_
  exact (local_hub_modifyStorage E msg _).bind fun _ => local_emit E msg _

theorem local_unlockStake (relayManager : Address) :
    Local E msg .relayHub (RelayHub.unlockStake msg relayManager : Sol χ Unit) := by
  refine (local_hub_storage E msg).bind fun _ => ?_
  refine (local_require E msg _ _).bind fun _ => ?_
  refine (local_require E msg _ _).bind fun _ => ?_
  refine Prog.Within.bind (Prog.Within.ite _ _ trivial trivial) fun _ => ?_
  exact (local_hub_modifyStorage E msg _).bind fun _ => local_emit E msg _

theorem local_withdrawStake (relayManager : Address) :
    Local E msg .relayHub (RelayHub.withdrawStake msg relayManager : Sol χ Unit) := by
  refine (local_hub_storage E msg).bind fun _ => ?_
  refine (local_require E msg _ _).bind fun _ => ?_
  refine (local_require E msg _ _).bind fun _ => ?_
  refine (local_require E msg _ _).bind fun _ => ?_
  refine (local_hub_modifyStorage E msg _).bind fun _ => ?_
  exact (local_transferTo E msg _ _).bind fun _ => local_emit E msg _

/-- A function behind the check for coins, and what it returns. -/
theorem local_unpaid {α : Type} {p : Sol χ α} (hp : Local E msg k p) (f : α → Bytes) :
    Local E msg k ((nonPayable msg : Sol χ Unit).bind fun _ => p.bind fun a => .ret (f a)) :=
  (local_nonPayable E msg).bind fun _ => hp.bind fun _ => trivial

theorem local_hub_code : Local E msg .relayHub (RelayHub.code E msg : Sol χ Bytes) := by
  unfold RelayHub.code
  split
  · exact local_unpaid E msg (local_registerRelayServer E msg _) _
  · exact local_unpaid E msg (local_disableRelayWorkers E msg _) _
  · exact local_unpaid E msg (local_addRelayWorkers E msg _) _
  · exact local_unpaid E msg (local_deployCall E msg _ _) _
  · exact local_unpaid E msg (local_relayCall E msg _ _) _
  · exact local_unpaid E msg (local_penalize E msg _ _) _
  · exact (local_stakeForAddress E msg _ _).bind fun _ => trivial
  · exact local_unpaid E msg (local_unlockStake E msg _) _
  · exact local_unpaid E msg (local_withdrawStake E msg _) _
  · exact local_unpaid E msg (local_hub_storage E msg) _
  · exact trivial

theorem local_penalizer_modifyStorage (f : Penalizer → Penalizer) :
    Local E msg .penalizer (Penalizer.modifyStorage msg f : Sol χ Unit) :=
  (Prog.within_modify _ _ _).mpr fun _ => FrameStep.penalizer _

theorem local_relayManagerOnly (hub : Address) :
    Local E msg .penalizer (Penalizer.relayManagerOnly msg hub : Sol χ Unit) := by
  refine Prog.Within.bind ?_ fun _ => local_require E msg _ _
  refine (Prog.within_get _ _).bind fun _ => ?_
  refine (Prog.within_assert _ _ _ _).bind fun _ => ?_
  refine ((Prog.within_send _ _ _ _).mpr (localCall_staticcallTo msg _ _)).bind fun r => ?_
  exact (local_bubble E msg r).bind fun _ => local_orRevert E msg _

theorem local_decodeTransaction (rawTransaction : Bytes) :
    Local E msg .penalizer (Penalizer.decodeTransaction E rawTransaction : Sol χ _) := by
  unfold Penalizer.decodeTransaction
  split <;> exact trivial

theorem local_checkOffence (unsignedTx1 signature1 unsignedTx2 signature2 : Bytes) :
    Local E msg .penalizer
      (Penalizer.checkOffence E msg unsignedTx1 signature1 unsignedTx2 signature2 :
      Sol χ Address) := by
  refine Prog.Within.bind (fun _ => trivial) fun _ => ?_
  refine (local_require E msg _ _).bind fun _ => ?_
  refine (local_recoverSigner E msg _ _).bind fun _ => ?_
  refine (local_recoverSigner E msg _ _).bind fun _ => ?_
  refine (local_require E msg _ _).bind fun _ => ?_
  refine (local_require E msg _ _).bind fun _ => ?_
  refine (local_decodeTransaction E msg _).bind fun _ => ?_
  refine (local_decodeTransaction E msg _).bind fun _ => ?_
  refine (local_require E msg _ _).bind fun _ => ?_
  exact (local_require E msg _ _).bind fun _ => trivial

theorem local_callFunction (dest : Address) (data : CallData) :
    Local E msg .penalizer (Penalizer.callFunction msg dest data : Sol χ Bytes) := by
  refine (Prog.within_get _ _).bind fun _ => ?_
  refine (Prog.within_assert _ _ _ _).bind fun _ => ?_
  exact ((Prog.within_send _ _ _ _).mpr (localCall_callTo msg _ _ _)).bind fun r =>
    local_bubble E msg r

theorem local_penalizer_code : Local E msg .penalizer (Penalizer.code E msg : Sol χ Bytes) := by
  unfold Penalizer.code
  split
  · refine (local_nonPayable E msg).bind fun _ => Prog.Within.bind ?_ fun _ => trivial
    refine (local_relayManagerOnly E msg _).bind fun _ => ?_
    refine (local_checkOffence E msg _ _ _ _).bind fun _ => ?_
    refine (local_penalizer_modifyStorage E msg _).bind fun _ => ?_
    refine (local_penalizer_modifyStorage E msg _).bind fun _ => ?_
    exact (local_callFunction E msg _ _).bind fun _ => trivial
  · exact trivial

theorem local_wallet_storage : Local E msg k (Wallet.storage msg : Sol χ Wallet) :=
  fun _ => trivial

theorem local_wallet_modifyStorage (hk : k.isWallet = true) (f : Wallet → Wallet) :
    Local E msg k (Wallet.modifyStorage msg f : Sol χ Unit) :=
  (Prog.within_modify _ _ _).mpr fun _ => FrameStep.wallet k _ hk

theorem local_checkSignature (domainSeparator : Word) (encoded sig : Bytes) («from» : Address) :
    Local E msg k (Eip712.checkSignature E msg domainSeparator encoded sig «from» : Sol χ Unit) :=
  (local_require E msg _ _).bind fun _ =>
    (local_recoverSigner E msg _ _).bind fun _ => local_require E msg _ _

theorem local_wallet_verifySig (domainSeparator suffixData : Word)
    (req : IForwarder.ForwardRequest) (sig : Bytes) :
    Local E msg k (Wallet.verifySig E msg domainSeparator suffixData req sig : Sol χ Unit) := by
  refine (local_wallet_storage E msg).bind fun _ => ?_
  refine (local_require E msg _ _).bind fun _ => ?_
  exact (local_require E msg _ _).bind fun _ => local_checkSignature E msg _ _ _ _

theorem local_payToken (token : Address) (tokenGas : Word) (recipient : Address)
    (amount : Word) (reason : String) :
    Local E msg k (payToken msg token tokenGas recipient amount reason : Sol χ Unit) := by
  refine (local_lowLevelCall E msg _ _ _ _).bind fun r => ?_
  refine (local_require E msg _ _).bind fun _ => local_whenever E msg ?_
  exact (local_orRevert E msg _).bind fun _ => local_require E msg _ _

theorem local_sweep (dest : Address) : Local E msg k (Wallet.sweep msg dest : Sol χ Unit) :=
  (local_selfBalance E msg).bind fun _ => local_whenever E msg (local_transferTo E msg _ _)

theorem local_recoverCall (destinationContract : Address) (data : Bytes) :
    Local E msg k (Wallet.recoverCall E msg destinationContract data : Sol χ _) := by
  have hsweep : ∀ result : Bool × Bytes,
      Local E msg k ((Wallet.sweep msg msg.sender : Sol χ Unit).bind fun _ => .ret result) :=
    fun _ => (local_sweep E msg _).bind fun _ => trivial
  refine Prog.Within.ite _ _ ?_ (hsweep _)
  exact (local_lowLevelCall E msg _ _ _ _).bind hsweep

theorem local_smartWallet_execute (domainSeparator suffixData : Word)
    (req : IForwarder.ForwardRequest) (sig : Bytes) :
    Local E msg .smartWallet
      (SmartWallet.execute E msg domainSeparator suffixData req sig : Sol χ _) := by
  refine (local_require E msg _ _).bind fun _ => ?_
  refine (local_wallet_verifySig E msg _ _ _ _).bind fun _ => ?_
  refine (local_wallet_modifyStorage E msg rfl _).bind fun _ => ?_
  refine (local_whenever E msg (local_payToken E msg _ _ _ _ _)).bind fun _ => ?_
  refine (Prog.within_gas _ _).bind fun _ => ?_
  refine (local_require E msg _ _).bind fun _ => ?_
  refine (local_lowLevelCall E msg _ _ _ _).bind fun _ => ?_
  exact (local_sweep E msg _).bind fun _ => trivial

theorem local_smartWallet_directExecute (dest : Address) (data : Bytes) :
    Local E msg .smartWallet (SmartWallet.directExecute E msg dest data : Sol χ _) := by
  refine (local_wallet_storage E msg).bind fun _ => ?_
  refine (local_require E msg _ _).bind fun _ => ?_
  refine (local_lowLevelCall E msg _ _ _ _).bind fun _ => ?_
  exact (local_sweep E msg _).bind fun _ => trivial

theorem local_initializeWallet (owner tokenAddr tokenRecipient : Address)
    (tokenAmount tokenGas : Word) :
    Local E msg .smartWallet
      (SmartWallet.initializeWallet E msg owner tokenAddr tokenRecipient tokenAmount
      tokenGas : Sol χ Unit) := by
  refine (local_wallet_storage E msg).bind fun _ => ?_
  refine (local_require E msg _ _).bind fun _ => ?_
  refine (local_wallet_modifyStorage E msg rfl _).bind fun _ => ?_
  exact local_whenever E msg (local_payToken E msg _ _ _ _ _)

theorem local_smartWallet_code :
    Local E msg .smartWallet (SmartWallet.code E msg : Sol χ Bytes) := by
  unfold SmartWallet.code
  split
  · exact trivial
  · exact local_unpaid E msg (local_wallet_verifySig E msg _ _ _ _) _
  · refine Prog.Within.bind ?_ fun _ => trivial
    exact (local_require E msg _ _).bind fun _ => local_recoverCall E msg _ _
  · exact (local_smartWallet_directExecute E msg _ _).bind fun _ => trivial
  · exact (local_smartWallet_execute E msg _ _ _ _).bind fun _ => trivial
  · exact local_unpaid E msg (local_initializeWallet E msg _ _ _ _ _) _
  · exact trivial

theorem local_customSmartWallet_execute (domainSeparator suffixData : Word)
    (req : IForwarder.ForwardRequest) (sig : Bytes) :
    Local E msg .customSmartWallet
      (CustomSmartWallet.execute E msg domainSeparator suffixData req sig :
      Sol χ _) := by
  refine (local_require E msg _ _).bind fun _ => ?_
  refine (local_wallet_verifySig E msg _ _ _ _).bind fun _ => ?_
  refine (local_wallet_modifyStorage E msg rfl _).bind fun _ => ?_
  refine (local_whenever E msg (local_payToken E msg _ _ _ _ _)).bind fun _ => ?_
  refine (local_wallet_storage E msg).bind fun _ => ?_
  refine (Prog.within_gas _ _).bind fun _ => ?_
  refine (local_require E msg _ _).bind fun _ => ?_
  refine Prog.Within.ite _ _ ?_ ?_
  · refine (local_lowLevelCall E msg _ _ _ _).bind fun _ => ?_
    exact (local_sweep E msg _).bind fun _ => trivial
  · refine (local_lowLevelDelegatecall E msg _ _).bind fun _ => ?_
    exact (local_sweep E msg _).bind fun _ => trivial

theorem local_customSmartWallet_directExecute (dest : Address) (data : Bytes) :
    Local E msg .customSmartWallet (CustomSmartWallet.directExecute E msg dest data : Sol χ _) := by
  refine (local_wallet_storage E msg).bind fun _ => ?_
  refine (local_require E msg _ _).bind fun _ => ?_
  refine Prog.Within.ite _ _ ?_ ?_
  · refine (local_lowLevelCall E msg _ _ _ _).bind fun _ => ?_
    exact (local_sweep E msg _).bind fun _ => trivial
  · refine (local_lowLevelDelegatecall E msg _ _).bind fun _ => ?_
    exact (local_sweep E msg _).bind fun _ => trivial

theorem local_initializeCustomWallet (owner logic tokenAddr tokenRecipient : Address)
    (tokenAmount tokenGas : Word) (initParams : Bytes) :
    Local E msg .customSmartWallet
      (CustomSmartWallet.initializeCustomWallet E msg owner logic tokenAddr
      tokenRecipient tokenAmount tokenGas initParams : Sol χ Unit) := by
  refine (local_wallet_storage E msg).bind fun _ => ?_
  refine (local_require E msg _ _).bind fun _ => ?_
  refine (local_wallet_modifyStorage E msg rfl _).bind fun _ => ?_
  refine (local_whenever E msg (local_payToken E msg _ _ _ _ _)).bind fun _ => ?_
  refine local_whenever E msg ((local_lowLevelDelegatecall E msg _ _).bind fun _ => ?_)
  exact (local_require E msg _ _).bind fun _ => local_wallet_modifyStorage E msg rfl _

theorem local_fallback :
    Local E msg .customSmartWallet (CustomSmartWallet.fallback msg : Sol χ Bytes) := by
  refine (local_wallet_storage E msg).bind fun _ => ?_
  refine Prog.Within.ite _ _ ?_ (Prog.within_ret _ _ _)
  exact ((Prog.within_send _ _ _ _).mpr (localCall_delegatecallTo msg _ _)).bind fun r =>
    local_bubble E msg r

theorem local_customSmartWallet_code :
    Local E msg .customSmartWallet (CustomSmartWallet.code E msg : Sol χ Bytes) := by
  unfold CustomSmartWallet.code
  split
  · exact local_unpaid E msg (local_wallet_verifySig E msg _ _ _ _) _
  · refine Prog.Within.bind ?_ fun _ => trivial
    exact (local_require E msg _ _).bind fun _ => local_recoverCall E msg _ _
  · exact (local_customSmartWallet_directExecute E msg _ _).bind fun _ => trivial
  · exact (local_customSmartWallet_execute E msg _ _ _ _).bind fun _ => trivial
  · exact local_unpaid E msg (local_initializeCustomWallet E msg _ _ _ _ _ _ _) _
  · exact local_fallback E msg

theorem local_proxy_code (masterCopy : Address) :
    Local E msg (.proxy masterCopy) (Proxy.code masterCopy msg : Sol χ Bytes) :=
  ((Prog.within_send _ _ _ _).mpr (localCall_delegatecallTo msg _ _)).bind fun r =>
    local_bubble E msg r

theorem local_factory_storage : Local E msg k (Factory.storage msg : Sol χ Factory) :=
  fun _ => trivial

theorem local_factory_modifyStorage (hk : k.isFactory = true) (f : Factory → Factory) :
    Local E msg k (Factory.modifyStorage msg f : Sol χ Unit) :=
  (Prog.within_modify _ _ _).mpr fun _ => FrameStep.factory k _ hk

theorem local_factory_verifySig (req : IForwarder.DeployRequest)
    (domainSeparator suffixData : Word) (sig : Bytes) :
    Local E msg k (Factory.verifySig E msg req domainSeparator suffixData sig : Sol χ Unit) :=
  (local_factory_storage E msg).bind fun _ =>
    (local_require E msg _ _).bind fun _ => local_checkSignature E msg _ _ _ _

theorem local_create2 (hk : k.isFactory = true) (masterCopy : Address) (salt : Word) :
    Local E msg k (Factory.create2 E msg masterCopy salt : Sol χ Address) := by
  refine (Prog.within_get _ _).bind fun _ => Prog.Within.bind ?_ fun _ => trivial
  refine (Prog.within_modify _ _ _).mpr fun w => ?_
  split
  next hvacant =>
    exact FrameStep.create k masterCopy _ hk (Creation.create2 _ _) hvacant
  next => exact FrameStep.idle k

theorem local_deploy (hk : k.isFactory = true) (salt : Word) (initdata : CallData) :
    Local E msg k (Factory.deploy E msg salt initdata : Sol χ Address) := by
  refine (local_factory_storage E msg).bind fun _ => ?_
  refine (local_create2 E msg hk _ _).bind fun _ => ?_
  refine (Prog.within_get _ _).bind fun _ => ?_
  refine (Prog.within_assert _ _ _ _).bind fun _ => ?_
  refine (local_lowLevelCall E msg _ _ _ _).bind fun r => ?_
  refine (local_require E msg _ _).bind fun _ => ?_
  exact (local_emit E msg _).bind fun _ => trivial

theorem local_createUserSmartWallet (owner recoverer : Address) (index : Word) (sig : Bytes) :
    Local E msg .smartWalletFactory
      (SmartWalletFactory.createUserSmartWallet E msg owner recoverer index sig :
      Sol χ Unit) := by
  refine (local_recoverSigner E msg _ _).bind fun _ => ?_
  refine (local_require E msg _ _).bind fun _ => ?_
  exact (local_deploy E msg rfl _ _).bind fun _ => trivial

theorem local_createCustomUserSmartWallet (owner recoverer logic : Address) (index : Word)
    (initParams sig : Bytes) :
    Local E msg .customSmartWalletFactory
      (CustomSmartWalletFactory.createUserSmartWallet E msg owner recoverer logic
      index initParams sig : Sol χ Unit) := by
  refine (local_recoverSigner E msg _ _).bind fun _ => ?_
  refine (local_require E msg _ _).bind fun _ => ?_
  exact (local_deploy E msg rfl _ _).bind fun _ => trivial

/-- What both factories do for a deploy request, for any salt and initialisation. -/
theorem local_relayedCreation (hk : k.isFactory = true) (req : IForwarder.DeployRequest)
    (domainSeparator suffixData : Word) (sig : Bytes) (f : Factory → Factory) (salt : Word)
    (initdata : CallData) :
    Local E msg k ((require (msg.sender = req.relayHub) "Invalid caller" : Sol χ Unit).bind
      fun _ => (Factory.verifySig E msg req domainSeparator suffixData sig).bind
        fun _ => (Factory.modifyStorage msg f).bind
          fun _ => (Factory.deploy E msg salt initdata).bind fun _ => .ret ()) := by
  refine (local_require E msg _ _).bind fun _ => ?_
  refine (local_factory_verifySig E msg _ _ _ _).bind fun _ => ?_
  refine (local_factory_modifyStorage E msg hk _).bind fun _ => ?_
  exact (local_deploy E msg hk _ _).bind fun _ => trivial

theorem local_smartWalletFactory_code :
    Local E msg .smartWalletFactory (SmartWalletFactory.code E msg : Sol χ Bytes) := by
  unfold SmartWalletFactory.code
  split
  · exact local_unpaid E msg (local_createUserSmartWallet E msg _ _ _ _) _
  · exact local_unpaid E msg (local_relayedCreation E msg rfl _ _ _ _ _ _ _) _
  · exact trivial

theorem local_customSmartWalletFactory_code :
    Local E msg .customSmartWalletFactory (CustomSmartWalletFactory.code E msg : Sol χ Bytes) := by
  unfold CustomSmartWalletFactory.code
  split
  · exact local_unpaid E msg (local_createCustomUserSmartWallet E msg _ _ _ _ _ _) _
  · exact local_unpaid E msg (local_relayedCreation E msg rfl _ _ _ _ _ _ _) _
  · exact trivial

/-- **Every frame does what its code may do**, in its own account. -/
theorem local_codeOf (O : Outside E χ) (w : World χ) {k : Code}
    (hk : (w.code msg.codeAddress).map Contract.code = some k) :
    Local E msg k (codeOf E O msg w) := by
  unfold codeOf
  rw [hk]
  cases k with
  | relayHub => exact local_hub_code E msg
  | penalizer => exact local_penalizer_code E msg
  | smartWallet => exact local_smartWallet_code E msg
  | customSmartWallet => exact local_customSmartWallet_code E msg
  | smartWalletFactory => exact local_smartWalletFactory_code E msg
  | customSmartWalletFactory => exact local_customSmartWalletFactory_code E msg
  | proxy masterCopy => exact local_proxy_code E msg masterCopy
  | other => exact (O.within msg w).mono (fun _ _ h => FrameStep.outside h) fun _ h => h

/-- Where no contract stands nothing runs. -/
theorem codeOf_none (O : Outside E χ) {w : World χ} (h : w.code msg.codeAddress = none) :
    codeOf E O msg w = .ret [] := by
  unfold codeOf
  rw [h]
  rfl

/-- **Every frame keeps to its account**, whatever code it runs. -/
theorem within_codeOf (O : Outside E χ) (w : World χ) :
    (codeOf E O msg w).Within (LocalStep E msg) (LocalCall msg) := by
  cases hk : w.code msg.codeAddress with
  | none =>
      rw [codeOf_none E msg O hk]
      exact trivial
  | some contract =>
      exact (local_codeOf E msg O w (by rw [hk]; rfl)).mono (fun _ _ h => h.localStep) fun _ h => h

end Contracts

end RifRelay
