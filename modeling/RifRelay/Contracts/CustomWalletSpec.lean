import RifRelay.Contracts.WalletSpec

set_option autoImplicit false

/-! # What custom wallets do

The specification of the code of a `CustomSmartWallet`, in the form of that of a
`SmartWallet`. What is new are the delegate calls to the custom logic: with the calldata of
the wallet itself where a logic is stored, and with `initialize(bytes)` before it is stored.
-/

namespace RifRelay

open CallMachine IForwarder

variable {χ : Type}

namespace CustomSmartWallet

open Wallet SmartWallet

/-- `J` survives the delegate calls of the frame `msg` to the logic that is stored. -/
def LogicKeeps (S : Spec (World χ) Msg Revert Bytes) (msg : Msg) (J : ChainConf χ → Prop) :
    Prop :=
  ∀ c, J c → (c.state.wallets msg.self).logic ≠ 0 →
    S.pre (msg.delegatecallTo (wordAddress (c.state.wallets msg.self).logic) msg.data) c ∧
      ∀ r c', S.post (msg.delegatecallTo (wordAddress (c.state.wallets msg.self).logic) msg.data)
        r c c' → J c'

/-- The storage with the address of the logic. -/
def withLogic (wallet : Wallet) (logic : Address) : Wallet :=
  { wallet with logic := addressWord logic }

section

variable {S : Spec (World χ) Msg Revert Bytes} {E : Env} {msg : Msg} {c : ChainConf χ}
  {J : ChainConf χ → Prop}

/-- What `execute` and `directExecute` end with: the destination or the logic is called, and
what is left goes to the owner. -/
theorem wp_dispatch (hcalls : CallsKeep S msg J) (hlogic : LogicKeeps S msg J) (hc : J c)
    (limit : Option Nat) (dest owner : Address) (value : Word) (data : CallData) :
    wp S (if (c.state.wallets msg.self).logic = 0 then
        (lowLevelCall msg limit dest value data : Sol χ (Bool × Bytes)).bind fun result =>
          (sweep msg owner).bind fun _ => .ret result
      else
        (lowLevelDelegatecall msg (wordAddress (c.state.wallets msg.self).logic) msg.data).bind
          fun result => (sweep msg owner).bind fun _ => .ret result)
      (fun _ c' => J c') c := by
  have hsweep : ∀ (result : Bool × Bytes) c', J c' →
      wp S ((sweep msg owner : Sol χ Unit).bind fun _ => .ret result) (fun _ c'' => J c'') c' := by
    intro result c' hc'
    rw [wp_bind]
    exact hcalls.sweep_rule hc' _ fun _ h => h
  rw [wp_ite]
  constructor
  · intro _
    rw [wp_bind]
    exact hcalls.call_rule hc _ _ _ _ fun result c' hc' => hsweep result c' hc'
  · intro hne
    obtain ⟨hpre, hpost⟩ := hlogic c hc hne
    rw [wp_bind, wp_lowLevelDelegatecall]
    exact ⟨hpre, fun r c' hr => hsweep _ c' (hpost r c' hr)⟩

/-- `_fallback`. -/
theorem wp_fallback (hlogic : LogicKeeps S msg J) (hc : J c) :
    wp S (fallback msg) (fun _ c' => J c') c := by
  simp only [fallback, Prog.bind_eq, Prog.pure_eq, wp_bind, wp_wallet_storage, wp_ite, wp_send,
    wp_bubble, wp_ret]
  constructor
  · intro hne
    obtain ⟨hpre, hpost⟩ := hlogic c hc hne
    exact ⟨hpre, fun r c' hr _ _ => hpost r c' hr⟩
  · intro _
    exact hc

/-- **What the code of a custom smart wallet does.** `J` holds at the end if it survives calls
and the delegate calls to the logic, and holds at the start of a function that does not
write, and from the first call on, or at the end, of one that does. -/
theorem wp_customSmartWallet_code (hcalls : CallsKeep S msg J) (hlogic : LogicKeeps S msg J)
    (hquiet : (∀ dom suffix req sig, msg.data ≠ .execute dom suffix req sig) →
      (∀ owner logic token recipient amount gas params,
        msg.data ≠ .initializeCustomWallet owner logic token recipient amount gas params) → J c)
    (hexecute : ∀ dom suffix req sig, msg.data = .execute dom suffix req sig →
      Accepts E msg (c.state.wallets msg.self) dom suffix req sig →
      (0 < req.tokenAmount → S.pre (payment msg req) (written msg nextNonce c) ∧
        ∀ ret c', S.post (payment msg req) (.ok ret) (written msg nextNonce c) c' → J c') ∧
      (¬ 0 < req.tokenAmount → J (written msg nextNonce c)))
    (hinit : ∀ owner logic token recipient amount gas params,
      msg.data = .initializeCustomWallet owner logic token recipient amount gas params →
      (c.state.wallets msg.self).owner = 0 →
      ((0 < amount → S.pre (payMsg msg token recipient amount)
          (written msg (withOwner E · owner) c) ∧
        ∀ ret c', S.post (payMsg msg token recipient amount) (.ok ret)
          (written msg (withOwner E · owner) c) c' → J c') ∧
      (¬ 0 < amount → J (written msg (withOwner E · owner) c))) ∧
      ∀ c', J c' → S.pre (msg.delegatecallTo logic (.initializeLogic params)) c' ∧
        ∀ ret c'', S.post (msg.delegatecallTo logic (.initializeLogic params)) (.ok ret) c' c'' →
          J (written msg (withLogic · logic) c'')) :
    wp S (code E msg) (fun _ c' => J c') c := by
  unfold code
  split
  next dom suffix req sig hdata =>
    simp only [verify, Prog.bind_eq, Prog.pure_eq, wp_bind, wp_nonPayable, wp_ret]
    intro _
    exact wp_verifySig fun _ _ _ => hquiet (by simp [hdata]) (by simp [hdata])
  next owner factory swTemplate destinationContract logic index hash data hdata =>
    simp only [recover, Prog.bind_eq, Prog.pure_eq, wp_bind, wp_require, wp_ret]
    intro _
    exact hcalls.recover_rule E (hquiet (by simp [hdata]) (by simp [hdata])) _ _
  next dest data hdata =>
    simp only [directExecute, Prog.bind_eq, Prog.pure_eq, wp_bind, wp_wallet_storage, wp_require,
      wp_ret]
    intro _
    have hc := hquiet (by simp [hdata]) (by simp [hdata])
    exact wp_dispatch hcalls hlogic hc none dest msg.sender msg.value (E.abiDecode data)
  next dom suffix req sig hdata =>
    simp only [execute, Prog.bind_eq, Prog.pure_eq, wp_bind, wp_require, wp_wallet_modifyStorage,
      wp_whenever, wp_payToken, wp_wallet_storage, wp_gas, wp_ret]
    intro hcaller
    refine wp_verifySig fun howner hnonce hsigned => ?_
    obtain ⟨hpay, hfree⟩ := hexecute dom suffix req sig hdata ⟨hcaller, howner, hnonce, hsigned⟩
    -- the token is paid before the destination is called, if there is anything to pay
    constructor
    · intro hamount
      obtain ⟨hpre, hpost⟩ := hpay hamount
      refine ⟨hpre, fun ret c' hr _ g _ => ?_⟩
      exact wp_dispatch hcalls hlogic (hpost ret c' hr) _ _ _ _ _
    · intro hamount g _
      exact wp_dispatch hcalls hlogic (hfree hamount) _ _ _ _ _
  next owner logic token recipient amount gas params hdata =>
    simp only [initializeCustomWallet, Prog.bind_eq, Prog.pure_eq, wp_bind, wp_nonPayable,
      wp_wallet_storage, wp_require, wp_wallet_modifyStorage, wp_whenever, wp_payToken,
      wp_lowLevelDelegatecall, wp_ret]
    intro _ howner
    obtain ⟨⟨hpay, hfree⟩, hstart⟩ :=
      hinit owner logic token recipient amount gas params hdata howner
    -- the logic is initialised and stored
    have hrest : ∀ c', J c' →
        (logic ≠ 0 → S.pre (msg.delegatecallTo logic (.initializeLogic params)) c' ∧
          ∀ r c'', S.post (msg.delegatecallTo logic (.initializeLogic params)) r c' c'' →
            (callResult r).1 = true → J (written msg (withLogic · logic) c'')) ∧
        (¬ logic ≠ 0 → J c') := by
      intro c' hc'
      refine ⟨fun _ => ?_, fun _ => hc'⟩
      obtain ⟨hpre, hpost⟩ := hstart c' hc'
      refine ⟨hpre, fun r c'' hr hsuccess => ?_⟩
      cases r with
      | error e => cases hsuccess
      | ok ret => exact hpost ret c'' hr
    constructor
    · intro hamount
      obtain ⟨hpre, hpost⟩ := hpay hamount
      exact ⟨hpre, fun ret c' hr _ => hrest c' (hpost ret c' hr)⟩
    · intro hamount
      exact hrest _ (hfree hamount)
  next hverify hrecover hdirect hexec hinitialise =>
    refine wp_fallback hlogic (hquiet ?_ ?_)
    · intro dom suffix req sig hdata
      exact hexec _ _ _ _ hdata
    · intro owner logic token recipient amount gas params hdata
      exact hinitialise _ _ _ _ _ _ _ hdata

end

end CustomSmartWallet

end RifRelay
