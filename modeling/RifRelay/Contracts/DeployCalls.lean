import RifRelay.Contracts.DeployAuthenticity
import RifRelay.Contracts.RelayedCalls

set_option autoImplicit false

/-! # Deploy calls are all or nothing

A deploy transaction goes from the hub to a factory, from there to the proxy that it has just
placed, and on to the code of the wallet, which pays for the deployment and, if it is a custom
wallet, initialises its logic. A failure anywhere is handed on all the way out.
`deployCall_all_or_nothing` says what comes out, for both kinds of factories: either nothing has
changed, or the request was carried out with the owner's next nonce, the wallet stands and belongs
to the owner, the token has confirmed the payment and the logic its initialisation.
-/

namespace RifRelay

open CallMachine IForwarder
open EnvelopingTypes (RelayData)

variable {χ : Type}

/-! ## In the frame of the wallet -/

/-- Between `c` and `c'` the token has confirmed the payment that the frame `msg` makes. -/
def PaymentAnswered (msg : Msg) (token recipient : Address) (amount : Word) (c c' : ChainConf χ) :
    Prop :=
  0 < amount → ∃ ret, TokenOk ret ∧ NewAnswer c c' (payMsg msg token recipient amount) (.ok ret)

/-- Between `c` and `c'` the custom logic, if there is one, was initialised. -/
def LogicAnswered (msg : Msg) (logic : Address) (params : Bytes) (c c' : ChainConf χ) : Prop :=
  logic ≠ 0 → ∃ ret, NewAnswer c c' (msg.delegatecallTo logic (.initializeLogic params)) (.ok ret)

/-- What has been answered when the frame `msg` has initialised a wallet with `data`. -/
def InitAnswered (msg : Msg) (data : CallData) (c c' : ChainConf χ) : Prop :=
  match data with
  | .initializeWallet _ token recipient amount _ => PaymentAnswered msg token recipient amount c c'
  | .initializeCustomWallet _ logic token recipient amount _ params =>
      PaymentAnswered msg token recipient amount c c' ∧ LogicAnswered msg logic params c c'
  | _ => True

section Wallets

variable {M : Machine (World χ) Msg Revert Bytes} {E : Env} {msg : Msg} {c c₁ c₂ c' : ChainConf χ}
  {data : CallData} {token recipient logic : Address} {amount : Word} {params : Bytes}

theorem PaymentAnswered.mono (h : PaymentAnswered msg token recipient amount c₁ c₂)
    (hbefore : c.Continues c₁) (hafter : c₂.Continues c') :
    PaymentAnswered msg token recipient amount c c' := by
  intro hamount
  obtain ⟨ret, hok, hanswer⟩ := h hamount
  exact ⟨ret, hok, hanswer.mono hbefore hafter⟩

theorem LogicAnswered.mono (h : LogicAnswered msg logic params c₁ c₂)
    (hbefore : c.Continues c₁) (hafter : c₂.Continues c') :
    LogicAnswered msg logic params c c' := by
  intro hlogic
  obtain ⟨ret, hanswer⟩ := h hlogic
  exact ⟨ret, hanswer.mono hbefore hafter⟩

theorem InitAnswered.mono (h : InitAnswered msg data c₁ c₂) (hbefore : c.Continues c₁)
    (hafter : c₂.Continues c') : InitAnswered msg data c c' := by
  unfold InitAnswered at h ⊢
  split
  · exact PaymentAnswered.mono h hbefore hafter
  · exact ⟨PaymentAnswered.mono h.1 hbefore hafter, LogicAnswered.mono h.2 hbefore hafter⟩
  · trivial

/-- The payment of a wallet that was written before. -/
theorem paymentAnswered_of_ran {s : World χ} {ret : Bytes}
    (h : (Spec.ran M).post (payMsg msg token recipient amount) (.ok ret) (c.put s) c')
    (hok : TokenOk ret) : PaymentAnswered msg token recipient amount c c' :=
  fun _ => ⟨ret, hok, newAnswer_of_ran (c.continues_put s) h (Conf.Continues.refl _)⟩

namespace SmartWallet

open Wallet

theorem wp_code_initialize (hinit : msg.data.initialises .smartWallet = true) :
    wp (Spec.ran M) (code E msg) (fun _ c' => InitAnswered msg msg.data c c') c := by
  unfold CallData.initialises at hinit
  split at hinit
  next owner token recipient amount gas _ hdata =>
    unfold code
    rw [hdata]
    simp only [initializeWallet, Prog.bind_eq, Prog.pure_eq, wp_bind, wp_nonPayable,
      wp_wallet_storage, wp_require, wp_wallet_modifyStorage, wp_whenever, wp_payToken, wp_ret]
    intro _ _
    refine ⟨fun _ => ⟨trivial, fun ret c' hpost hok => ?_⟩, fun hfree hamount => ?_⟩
    · exact paymentAnswered_of_ran hpost hok
    · exact absurd hamount hfree
  next hkind _ => cases hkind
  next => cases hinit

end SmartWallet

namespace CustomSmartWallet

open Wallet SmartWallet

theorem wp_code_initialize (hinit : msg.data.initialises .customSmartWallet = true) :
    wp (Spec.ran M) (code E msg) (fun _ c' => InitAnswered msg msg.data c c') c := by
  unfold CallData.initialises at hinit
  split at hinit
  next hkind _ => cases hkind
  next owner logic token recipient amount gas params _ hdata =>
    unfold code
    rw [hdata]
    simp only [initializeCustomWallet, Prog.bind_eq, Prog.pure_eq, wp_bind, wp_nonPayable,
      wp_wallet_storage, wp_require, wp_wallet_modifyStorage, wp_whenever, wp_payToken,
      wp_lowLevelDelegatecall, wp_ret]
    intro _ _
    -- the logic is initialised once the deployment is paid
    have hrest : ∀ c₁ : ChainConf χ, c.Continues c₁ →
        PaymentAnswered msg token recipient amount c c₁ →
        (logic ≠ 0 → (Spec.ran M).pre (msg.delegatecallTo logic (.initializeLogic params)) c₁ ∧
          ∀ r c₂, (Spec.ran M).post (msg.delegatecallTo logic (.initializeLogic params)) r c₁ c₂ →
            (callResult r).1 = true →
              PaymentAnswered msg token recipient amount c (written msg (withLogic · logic) c₂) ∧
              LogicAnswered msg logic params c (written msg (withLogic · logic) c₂)) ∧
        (¬ logic ≠ 0 → PaymentAnswered msg token recipient amount c c₁ ∧
          LogicAnswered msg logic params c c₁) := by
      intro c₁ hopening hpaid
      refine ⟨fun _ => ⟨trivial, fun r c₂ hpost hsuccess => ?_⟩, fun hnone => ?_⟩
      · cases r with
        | error e => cases hsuccess
        | ok ret =>
            have hclosing : c₁.Continues (written msg (withLogic · logic) c₂) :=
              (ran_continues hpost).trans (Conf.continues_put _ _)
            exact ⟨hpaid.mono (Conf.Continues.refl _) hclosing, fun _ =>
              ⟨ret, newAnswer_of_ran hopening hpost (Conf.continues_put _ _)⟩⟩
      · exact ⟨hpaid, fun hlogic => absurd hlogic hnone⟩
    refine ⟨fun _ => ⟨trivial, fun ret c₁ hpost hok => ?_⟩, fun hfree => ?_⟩
    · exact hrest c₁ ((Conf.continues_put _ _).trans (ran_continues hpost))
        (paymentAnswered_of_ran hpost hok)
    · exact hrest _ (c.continues_put _) fun hamount => absurd hamount hfree
  next => cases hinit

end CustomSmartWallet

end Wallets

/-! ## In the frames of the proxy, the factory and the hub -/

section Frames

variable {E : Env} {O : Outside E χ} {msg m : Msg} {c c' : ChainConf χ} {ret : Bytes}
  {t k : Code} {creation : Bytes} {mc : Address}

theorem wp_codeOf_initialize {M : Machine (World χ) Msg Revert Bytes} {s : World χ}
    (hcode : s.code m.codeAddress = some ⟨t, creation⟩) (hinit : m.data.initialises t = true) :
    wp (Spec.ran M) (codeOf E O m s) (fun _ c' => InitAnswered m m.data c c') c := by
  unfold codeOf
  rw [hcode]
  cases t with
  | smartWallet => exact SmartWallet.wp_code_initialize hinit
  | customSmartWallet => exact CustomSmartWallet.wp_code_initialize hinit
  | _ => cases hinit

/-- A proxy was initialised in the code of its master copy. -/
theorem ran_initialised {kmc : Bytes} (h : (Spec.ran (machine E O)).post m (.ok ret) c c')
    (hproxy : c.state.code m.codeAddress = some ⟨.proxy mc, creation⟩)
    (hmc : c.state.code mc = some ⟨t, kmc⟩) (hinit : m.data.initialises t = true) :
    InitAnswered (m.delegatecallTo mc m.data) m.data c c' := by
  obtain ⟨s, c₁, henter, rfl, hran⟩ := ran_proxy h hproxy
  have hs : s.code = c.state.code := by
    obtain ⟨b, rfl, -⟩ := enter_frame henter
    rfl
  obtain ⟨s', c₂, -, hanswered, rfl, -⟩ := ran_frame (Q := fun s' _ c₂ =>
      InitAnswered (m.delegatecallTo mc m.data) m.data
        ((c.entered m s).entered (m.delegatecallTo mc m.data) s') c₂) hran fun s' henter' => by
    have hs' : s'.code = s.code := by
      obtain ⟨b, rfl, -⟩ :=
        enter_frame (show enter (m.delegatecallTo mc m.data) (c.entered m s).state = some s'
          from henter')
      rfl
    have hcode : s'.code (m.delegatecallTo mc m.data).codeAddress = some ⟨t, kmc⟩ := by
      rw [hs', hs]
      exact hmc
    exact wp_codeOf_initialize hcode hinit
  exact hanswered.mono ((Conf.continues_entered _ _ _).trans (Conf.continues_entered _ _ _))
    ((Conf.continues_answered _ _ _).trans (Conf.continues_answered _ _ _))

/-- A call of a factory went through: it was a permitted order for an address where nothing
stood, and the proxy there was initialised. -/
theorem ran_factory (hk : k.isFactory = true)
    (h : (Spec.ran (machine E O)).post m (.ok ret) c c')
    (hcode : c.state.code m.codeAddress = some ⟨k, creation⟩) (hzero : c.state.code 0 = none)
    (hmc : (c.state.factories m.self).masterCopy = mc) :
    ∃ s o ret₁ c₁, s.code = c.state.code ∧ Order.parse E k m = some o ∧
      o.Permitted E m (c.state.factories m.self) ∧
      c.state.Vacant E (Factory.proxyAddress E m.self mc o.salt) ∧
      (Spec.ran (machine E O)).post (Factory.initMsg E m mc o.salt o.initdata) (.ok ret₁)
        ((c.entered m s).put (o.placed E m.self mc s)) c₁ ∧
      c' = (c₁.put (Factory.announced E m mc o.salt c₁.state)).answered m (.ok ret) := by
  obtain ⟨s, c₂, henter, ⟨o, ret₁, c₁, ho, hpermitted, hvacant, hran, rfl⟩, rfl, -⟩ :=
    ran_frame (Q := fun s _ c₂ => ∃ o ret₁ c₁, Order.parse E k m = some o ∧
      o.Permitted E m (s.factories m.self) ∧
      s.Vacant E (Factory.proxyAddress E m.self mc o.salt) ∧
      (Spec.ran (machine E O)).post (Factory.initMsg E m mc o.salt o.initdata) (.ok ret₁)
        ((c.entered m s).put (o.placed E m.self mc s)) c₁ ∧
      c₂ = c₁.put (Factory.announced E m mc o.salt c₁.state)) h fun s henter => by
    obtain ⟨b, rfl, -⟩ := enter_frame henter
    have hruns : (c.state.code m.codeAddress).map Contract.code = some k := by
      rw [hcode]
      rfl
    refine Factory.wp_codeOf_factory hk hruns hzero fun o ho hpermitted hvacant => ?_
    rw [show ((c.entered m { c.state with balance := b }).state.factories m.self).masterCopy = mc
      from hmc] at hvacant ⊢
    exact ⟨trivial, fun ret₁ c₁ hpost =>
      ⟨o, ret₁, c₁, ho, hpermitted, hvacant, hpost, rfl⟩⟩
  obtain ⟨b, rfl, -⟩ := enter_frame henter
  exact ⟨{ c.state with balance := b }, o, ret₁, c₁, rfl, ho, hpermitted, hvacant, hran, rfl⟩

/-- A deploy call of a hub went through: the factory was called. -/
theorem ran_deployCall {deployRequest : EnvelopingTypes.DeployRequest} {signature : Bytes}
    (h : (Spec.ran (machine E O)).post msg (.ok ret) c c')
    (hcode : c.state.code msg.codeAddress = some ⟨.relayHub, creation⟩)
    (hdata : msg.data = .deployCall deployRequest signature) :
    ∃ s ret₁ c₁, s.code = c.state.code ∧ s.factories = c.state.factories ∧
      RelayHub.RelayGuard msg (c.state.hubs msg.self) deployRequest.relayData ∧
      (Spec.ran (machine E O)).post (RelayHub.deployMsg E msg deployRequest signature) (.ok ret₁)
        (c.entered msg s) c₁ ∧
      ret = [] ∧ c' = c₁.answered msg (.ok ret) := by
  obtain ⟨s, c₂, henter, ⟨ret₁, hguard, hran, hret⟩, hc', -⟩ :=
    ran_frame (Q := fun s ret c₂ => ∃ ret₁,
      RelayHub.RelayGuard msg (c.state.hubs msg.self) deployRequest.relayData ∧
      (Spec.ran (machine E O)).post (RelayHub.deployMsg E msg deployRequest signature) (.ok ret₁)
        (c.entered msg s) c₂ ∧ ret = []) h fun s henter => by
    obtain ⟨b, rfl, -⟩ := enter_frame henter
    have hrun : codeOf E O msg { c.state with balance := b } = RelayHub.code E msg := by
      unfold codeOf
      rw [show ({ c.state with balance := b } : World χ).code = c.state.code from rfl, hcode]
      rfl
    show wp _ (codeOf E O msg _) _ _
    rw [hrun]
    refine RelayHub.wp_code (c.state.hubs msg.self) rfl ?_ ?_ ?_ ?_ ?_
    · intro _ _ _ _ _ _ _ hdeploy
      exact absurd hdata (hdeploy _ _)
    · intro _ _ hdata'
      rw [hdata] at hdata'
      cases hdata'
    · intro dr sig hdata' hguard
      obtain ⟨rfl, rfl⟩ := CallData.deployCall.inj (hdata.symm.trans hdata')
      exact ⟨trivial, fun ret₁ c₁ hpost => ⟨ret₁, hguard, hpost, rfl⟩⟩
    · intro _ hdata'
      rw [hdata] at hdata'
      cases hdata'
    · intro _ _ _ hdata'
      rw [hdata] at hdata'
      cases hdata'
  obtain ⟨b, rfl, -⟩ := enter_frame henter
  exact ⟨{ c.state with balance := b }, ret₁, c₂, rfl, rfl, hguard, hran, hret, hc'⟩

end Frames

/-! ## The whole call -/

open Counterfactual (Prepared)

/-- What the deploy call `msg` of the hub at `H` has done when it returns. -/
structure DeployedCall (E : Env) (H : Address) (T : Site) (req : DeployRequest)
    (relayData : RelayData) (msg : Msg) (c c' : ChainConf χ) : Prop where
  guard : RelayHub.RelayGuard msg (c.state.hubs H) relayData
  created : ∃ e rest, c'.trace = c.trace ++ (⟨msg, c.state⟩ :: e :: rest) ∧
    Factory.creationOf T.factory e =
      some ⟨relayData.domainSeparator, Eip712Library.hashRelayData E relayData, req⟩ ∧
    (c.state.factories T.factory).nonces req.from = req.nonce ∧
    (c'.state.factories T.factory).nonces req.from =
      req.nonce + 1 + BitVec.ofNat 256 (Factory.creations T.factory req.from rest).length
  vacant : c.state.code (T.address E) = none
  wallet : c'.state.code (T.address E) = some (T.proxy E)
  owner : (c'.state.wallets (T.address E)).owner = Wallet.ownerCell E req.from
  initialised : ∃ m : Msg, m.self = T.address E ∧ m.sender = T.factory ∧ m.tx = msg.tx ∧
    PaymentAnswered m req.tokenContract msg.tx.origin req.tokenAmount c c' ∧
    (T.plan.kind = .customSmartWalletFactory → LogicAnswered m req.to req.data c c')
  announced : c'.state.logs.getLast? =
    some (T.factory, .Deployed (T.address E) (E.keccak256 T.plan.saltBytes))

section Whole

variable {E : Env} {O : Outside E χ} {w₀ : World χ} {H : Address} {T : Site} {b : Word}
  {c c' : ChainConf χ} {m : Msg} {k : Code} {o : Order} {req : DeployRequest}
  {dom suffix : Word} {sig : Bytes}

/-- The order that a deploy request is. -/
theorem parse_creation (hdata : m.data = .relayedUserSmartWalletCreation req dom suffix sig)
    (ho : Order.parse E k m = some o) :
    o.permit = .request req dom suffix sig ∧ o.owner = req.from ∧
      (k = .smartWalletFactory ∧ o.initdata = .initializeWallet req.from req.tokenContract
          m.tx.origin req.tokenAmount req.tokenGas ∨
        k = .customSmartWalletFactory ∧ o.initdata = .initializeCustomWallet req.from req.to
          req.tokenContract m.tx.origin req.tokenAmount req.tokenGas req.data) := by
  unfold Order.parse at ho
  rw [hdata] at ho
  cases k with
  | smartWalletFactory =>
      obtain rfl := Option.some.inj ho
      exact ⟨rfl, rfl, Or.inl ⟨rfl, rfl⟩⟩
  | customSmartWalletFactory =>
      obtain rfl := Option.some.inj ho
      exact ⟨rfl, rfl, Or.inr ⟨rfl, rfl⟩⟩
  | _ => cases ho

/-- The nonce of the owner counts the deploy requests, of which the call made one of its own. -/
theorem creations_counted {e₀ e : Entry (World χ) Msg} {rest : List (Entry (World χ) Msg)}
    {x : Factory.Creation} (hi : Factory.FactoryInv E w₀ H T.factory c)
    (hi' : Factory.FactoryInv E w₀ H T.factory c')
    (htrace : c'.trace = c.trace ++ (e₀ :: e :: rest))
    (h₀ : Factory.creationOf T.factory e₀ = none) (hx : Factory.creationOf T.factory e = some x)
    (hnonce : (c.state.factories T.factory).nonces x.req.from = x.req.nonce) :
    (c'.state.factories T.factory).nonces x.req.from = x.req.nonce + 1 +
      BitVec.ofNat 256 (Factory.creations T.factory x.req.from rest).length := by
  have hcount : (Factory.creations T.factory x.req.from c'.trace).length =
      (Factory.creations T.factory x.req.from c.trace).length + 1 +
        (Factory.creations T.factory x.req.from rest).length := by
    rw [htrace, List.append_cons, List.append_cons, Factory.creations_append, List.length_append,
      Factory.creations_snoc_some _ hx, Factory.creations_snoc_none _ h₀, if_pos rfl]
  calc (c'.state.factories T.factory).nonces x.req.from
      = (w₀.factories T.factory).nonces x.req.from +
          BitVec.ofNat 256 (Factory.creations T.factory x.req.from c'.trace).length :=
        hi'.nonces _
    _ = (w₀.factories T.factory).nonces x.req.from +
          BitVec.ofNat 256 (Factory.creations T.factory x.req.from c.trace).length + 1 +
          BitVec.ofNat 256 (Factory.creations T.factory x.req.from rest).length := by
        rw [hcount, BitVec.ofNat_add, BitVec.ofNat_add, ← BitVec.add_assoc, ← BitVec.add_assoc]
        rfl
    _ = _ := by rw [← hi.nonces, hnonce]

/-- The frame of the wallet that a factory initialises, when the factory has done so. -/
theorem initialised_of_ran (hp : Prepared E w₀ T) {msg : Msg} {ret : Bytes} {s : World χ}
    (hplan : o.salt = E.keccak256 T.plan.saltBytes)
    (hinit : ∃ t, T.plan.kind.template = some t ∧ o.initdata.initialises t = true)
    (hself : msg.self = T.factory) (hbase : s.code T.masterCopy = w₀.code T.masterCopy)
    (hvacant : s.code (T.address E) = none)
    (h : (Spec.ran (machine E O)).post (Factory.initMsg E msg T.masterCopy o.salt o.initdata)
      (.ok ret) ((c.entered msg s).put (o.placed E msg.self T.masterCopy s)) c') :
    ∃ m : Msg, m.self = T.address E ∧ m.sender = T.factory ∧ m.tx = msg.tx ∧
      InitAnswered m o.initdata c c' := by
  obtain ⟨t, htemplate, hinit⟩ := hinit
  obtain ⟨t', creation, htemplate', hmc⟩ := hp.template
  obtain rfl : t = t' := Option.some.inj (htemplate.symm.trans htemplate')
  have haddress : Factory.proxyAddress E msg.self T.masterCopy o.salt = T.address E := by
    rw [hplan, hself]
    rfl
  have hne : T.masterCopy ≠ T.address E := by
    intro heq
    rw [← heq, hbase, hmc] at hvacant
    cases hvacant
  have hother : ∀ a, (o.placed E msg.self T.masterCopy s).code a =
      Function.update s.code (T.address E)
        (some ⟨.proxy T.masterCopy, Factory.proxyString E msg.self T.masterCopy o.salt⟩) a := by
    intro a
    rw [← haddress]
    rfl
  have hanswered := ran_initialised h
    (by
      rw [Conf.put_state, hother]
      show Function.update s.code _ _ (Factory.proxyAddress E msg.self T.masterCopy o.salt) = _
      rw [haddress, Function.update_self])
    (by rw [Conf.put_state, hother, Function.update_of_ne hne, hbase]; exact hmc) hinit
  refine ⟨_, ?_, ?_, ?_, hanswered.mono
    ((Conf.continues_entered _ _ _).trans (Conf.continues_put _ _)) (Conf.Continues.refl _)⟩
  · exact haddress
  · exact hself
  · rfl

/-- A deploy call that went through, frame by frame: the hub calls the factory with `m` in the state
`s`, the factory initialises the proxy of the order `o`, which leads to `back`. -/
structure UnwoundDeploy (E : Env) (O : Outside E χ) (k : Code) (mc : Address)
    (relayData : RelayData) (msg m : Msg) (c : ChainConf χ) (s s₁ : World χ) (o : Order)
    (back c' : ChainConf χ) : Prop where
  guard : RelayHub.RelayGuard msg (c.state.hubs msg.self) relayData
  entered : s₁.code = c.state.code
  order : Order.parse E k m = some o
  permitted : o.Permitted E m (c.state.factories m.self)
  vacant : c.state.code (Factory.proxyAddress E m.self mc o.salt) = none
  initialised : ∃ ret, (Spec.ran (machine E O)).post (Factory.initMsg E m mc o.salt o.initdata)
    (.ok ret) (((c.entered msg s).entered m s₁).put (o.placed E m.self mc s₁)) back
  trace : ∃ rest, c'.trace = c.trace ++ (⟨msg, c.state⟩ :: ⟨m, s⟩ :: rest)
  closing : back.Continues c'
  final : c'.state = Factory.announced E m mc o.salt back.state

/-- Going in, from the frame of the hub to that of the proxy. -/
theorem deployCall_unwound {relayData : RelayData} {msg : Msg} {ret kH kF : Bytes} {mc : Address}
    (h : (Spec.ran (machine E O)).post msg (.ok ret) c c')
    (hdata : msg.data = .deployCall ⟨req, relayData⟩ sig)
    (hm : m = RelayHub.deployMsg E msg ⟨req, relayData⟩ sig) (hk : k.isFactory = true)
    (hH : c.state.code msg.codeAddress = some ⟨.relayHub, kH⟩)
    (hF : c.state.code relayData.callForwarder = some ⟨k, kF⟩)
    (hmc : (c.state.factories relayData.callForwarder).masterCopy = mc)
    (hzero : c.state.code 0 = none) :
    ret = [] ∧ ∃ s s₁ o back, UnwoundDeploy E O k mc relayData msg m c s s₁ o back c' := by
  obtain ⟨s, ret₁, c₁, hs, hfactories, hguard, hcall, hret, hfinal⟩ := ran_deployCall h hH hdata
  rw [← hm] at hcall
  have hself : m.self = relayData.callForwarder ∧ m.codeAddress = relayData.callForwarder := by
    rw [hm]
    exact ⟨rfl, rfl⟩
  have hstate : (c.entered msg s).state.code = c.state.code ∧
      (c.entered msg s).state.factories = c.state.factories := ⟨hs, hfactories⟩
  have hmasterCopy : ((c.entered msg s).state.factories m.self).masterCopy = mc := by
    rw [hself.1, hstate.2]
    exact hmc
  obtain ⟨s₁, o, ret₂, back, hs₁, ho, hpermitted, hvacant, hinit, hback⟩ :=
    ran_factory hk hcall (by rw [hself.2, hstate.1]; exact hF) (by rw [hstate.1]; exact hzero)
      hmasterCopy
  obtain ⟨⟨rest, hrest⟩, -⟩ := ran_follows hcall
  rw [hstate.2] at hpermitted
  refine ⟨hret, s, s₁, o, back, hguard, hs₁.trans hstate.1, ho, hpermitted, ?_, ⟨ret₂, hinit⟩,
    ⟨rest, ?_⟩, ?_, ?_⟩
  · rw [← hstate.1]
    exact hvacant.1
  · rw [hfinal, Conf.answered_trace, hrest, Conf.entered_trace, List.append_assoc]
    rfl
  · rw [hfinal, hback]
    exact (Conf.continues_put _ _).trans
      ((Conf.continues_answered _ _ _).trans (Conf.continues_answered _ _ _))
  · rw [hfinal, hback]
    rfl

/-- **All or nothing.** In every run of the chain, with any behaviour of the token and of everybody
else, a transaction with a deploy request for a wallet that does not exist at the start of the run
either changes nothing but its answer, or it has created, initialised and paid for the wallet that
was asked for. Hashes separate the strings of the run, and a custom logic, which may do anything
else, leaves the owner and the code of the wallet alone. -/
theorem deployCall_all_or_nothing (hd : Factory.Deployment E w₀ H T.factory T.plan.kind)
    (hp : Prepared E w₀ T) (hlogic : LogicKeeps O (T.address E) T.masterCopy)
    (hcell : Wallet.ownerCell E T.plan.owner ≠ 0) (hc : Settled E O w₀ b c) {tx : Tx}
    (hb : b ≤ tx.blockNumber) (horigin : E.codeless tx.origin = true) (hdest : tx.dest = H)
    {relayData : RelayData} (hdata : tx.data = .deployCall ⟨req, relayData⟩ sig)
    (hforwarder : relayData.callForwarder = T.factory)
    (hplan :
      WalletPlan.parse E T.plan.kind (RelayHub.deployMsg E tx.msg ⟨req, relayData⟩ sig).data =
      some T.plan) (depth : Nat)
    (hinj : Set.InjOn E.createdAddress (Counterfactual.hashed E T ∅ (tx.run E O depth c))) :
    (∃ e, (exec (machine E O) depth false tx.gas tx.msg c).value = .error e ∧
      tx.run E O depth c = c.answered tx.msg (.error e)) ∨
    (exec (machine E O) depth false tx.gas tx.msg c).value = .ok [] ∧
      DeployedCall E H T req relayData tx.msg c (tx.run E O depth c) := by
  cases hvalue : (exec (machine E O) depth false tx.gas tx.msg c).value with
  | error e => exact Or.inl ⟨e, rfl, exec_error hvalue⟩
  | ok ret =>
      right
      subst hdest
      have hc' : Settled E O w₀ tx.blockNumber (tx.run E O depth c) := .call hc tx depth hb horigin
      have hran : (Spec.ran (machine E O)).post tx.msg (.ok ret) c (tx.run E O depth c) :=
        ⟨depth, false, tx.gas, hvalue, rfl⟩
      generalize tx.run E O depth c = c' at hc' hran hinj ⊢
      -- the invariants of the factory and of the planned address, before and after
      have hi : Factory.FactoryInv E w₀ tx.dest T.factory c :=
        (Factory.factory_guarded hd).settled hc
      have hi' : Factory.FactoryInv E w₀ tx.dest T.factory c' :=
        (Factory.factory_guarded hd).settled hc'
      have hunless := Counterfactual.kept_unless hp hlogic hcell
      have hfree : ¬ Counterfactual.Collided E T c'.trace := Counterfactual.not_collided hinj
      have hkept' : Counterfactual.Kept E w₀ T c' := (hunless.settled hc').resolve_left hfree
      have hkept : Counterfactual.Kept E w₀ T c := by
        refine (hunless.settled hc).resolve_left fun hcollided => hfree ?_
        obtain ⟨l, hl⟩ := (ran_continues hran).1
        exact hl ▸ hcollided.grow c.trace l
      obtain ⟨kH, hH⟩ := hd.hub
      obtain ⟨kF, hF⟩ := hd.factory
      have hmc : (c.state.factories relayData.callForwarder).masterCopy = T.masterCopy := by
        rw [hforwarder]
        exact hkept.masterCopy
      -- what has happened inside, from the hub to the wallet
      obtain ⟨rfl, s, s₁, o, back, h⟩ := deployCall_unwound hran hdata rfl hd.kind
        ((hi.kept.code _ (Or.inl rfl)).trans hH)
        (by rw [hforwarder]; exact (hi.kept.code _ (Or.inr rfl)).trans hF) hmc
        (hi.kept.codeless 0 E.codeless_zero)
      have hself : (RelayHub.deployMsg E tx.msg ⟨req, relayData⟩ sig).self = T.factory := hforwarder
      -- the order that the factory has taken is the planned one
      obtain ⟨p, hp', hsalt, howner, -⟩ := Order.parse_plan h.order
      obtain rfl : p = T.plan := Option.some.inj (hp'.symm.trans hplan)
      obtain ⟨hpermit, hfrom, hinitdata⟩ := parse_creation rfl h.order
      have haddress : Factory.proxyAddress E
          (RelayHub.deployMsg E tx.msg ⟨req, relayData⟩ sig).self T.masterCopy o.salt =
            T.address E := by
        rw [hsalt, hself]
        rfl
      have hpermitted := h.permitted
      unfold Order.Permitted at hpermitted
      rw [hpermit, hself] at hpermitted
      obtain ⟨-, hnonce, -, -⟩ := hpermitted
      obtain ⟨rest, hrest⟩ := h.trace
      have hcreates : Counterfactual.Creates E T
          (⟨RelayHub.deployMsg E tx.msg ⟨req, relayData⟩ sig, s⟩ : Entry (World χ) Msg) :=
        ⟨hself, hplan⟩
      have hstanding := hkept'.standing ⟨_, by rw [hrest]; simp, hcreates⟩
      have hvacant : c.state.code (T.address E) = none := by
        rw [← haddress]
        exact h.vacant
      have hx : Factory.creationOf T.factory
          (⟨RelayHub.deployMsg E tx.msg ⟨req, relayData⟩ sig, s⟩ : Entry (World χ) Msg) =
            some ⟨relayData.domainSeparator, Eip712Library.hashRelayData E relayData, req⟩ :=
        Factory.creationOf_eq_some.mpr ⟨hself, sig, rfl⟩
      have h₀ : Factory.creationOf T.factory (⟨tx.msg, c.state⟩ : Entry (World χ) Msg) = none := by
        refine Factory.creationOf_eq_none fun _ _ _ _ _ heq => ?_
        cases hdata.symm.trans heq
      refine ⟨rfl, h.guard, ⟨_, rest, hrest, hx, hnonce,
        creations_counted hi hi' hrest h₀ hx hnonce⟩,
        hvacant, hstanding.code, ?_, ?_, ?_⟩
      · rw [hstanding.owner, ← howner, hfrom]
      · obtain ⟨ret₂, hinit⟩ := h.initialised
        obtain ⟨m, hm, hsender, htx, hanswered⟩ := initialised_of_ran hp hsalt
          (Order.parse_initialises h.order) hself
          ((congrFun h.entered _).trans (hkept.code.code _ (Or.inr rfl)))
          ((congrFun h.entered _).trans hvacant) hinit
        have hanswered' := hanswered.mono (Conf.continues_entered _ _ _) h.closing
        refine ⟨m, hm, hsender, htx, ?_⟩
        rcases hinitdata with ⟨hkind, heq⟩ | ⟨hkind, heq⟩
        · rw [heq] at hanswered'
          refine ⟨hanswered', fun hcustom => ?_⟩
          cases hkind.symm.trans hcustom
        · rw [heq] at hanswered'
          exact ⟨hanswered'.1, fun _ => hanswered'.2⟩
      · rw [h.final]
        show (_ ++ [_]).getLast? = _
        rw [List.getLast?_concat, haddress, hsalt, hself]

/-! The wallet of `deployTx`. -/

open Counterfactual (newSite newString)
open Factory Initialisation

/-- What the evaluation of `deployRun` comes to. -/
theorem deployRun_evaluated :
    (deployWorld.code (newSite.address deployEnv) = none ∧
      newSite.string deployEnv = newString ∧ newSite.address deployEnv = newWallet) ∧
    (∀ e ∈ deployRun.trace, e.msg.self = 0xfa → e.msg.data =
      .relayedUserSmartWalletCreation deployRequest deployDomain deploySuffix deploySignature) ∧
    (deployRun.state.code newWallet = some ⟨.proxy 0xc0, newString⟩ ∧
      ∀ e ∈ deployRun.trace, e.pre.code newWallet = none ∨
        e.pre.code newWallet = some ⟨.proxy 0xc0, newString⟩) ∧
    (exec (machine deployEnv (Outside.silent deployEnv)) 8 false deployTx.gas deployTx.msg
      (Conf.start deployWorld)).value = .ok [] := by
  decide +kernel

theorem deployWorld_prepared : Prepared deployEnv deployWorld newSite where
  factory := ⟨[], rfl⟩
  template := ⟨.smartWallet, [], rfl, rfl⟩
  masterCopy := rfl
  vacant := deployRun_evaluated.1.1
  codeless := deployWorld_deployment.codeless

theorem deployed_string : newSite.string deployEnv = newString := deployRun_evaluated.1.2.1

theorem deployed_address : newSite.address deployEnv = newWallet := deployRun_evaluated.1.2.2

theorem deployRun_factory : ∀ e ∈ deployRun.trace, e.msg.self = 0xfa → e.msg.data =
    .relayedUserSmartWalletCreation deployRequest deployDomain deploySuffix deploySignature :=
  deployRun_evaluated.2.1

theorem deployRun_code : deployRun.state.code newWallet = some ⟨.proxy 0xc0, newString⟩ ∧
    ∀ e ∈ deployRun.trace, e.pre.code newWallet = none ∨
      e.pre.code newWallet = some ⟨.proxy 0xc0, newString⟩ :=
  deployRun_evaluated.2.2.1

theorem deployRun_value :
    (exec (machine deployEnv (Outside.silent deployEnv)) 8 false deployTx.gas deployTx.msg
      (Conf.start deployWorld)).value = .ok [] := deployRun_evaluated.2.2.2

theorem deployed_injOn : Set.InjOn deployEnv.createdAddress
    (Counterfactual.hashed deployEnv newSite ∅ deployRun) := by
  refine injOn_list [SmartWallet.saltBytes keyOwner 0x0b 7, newString, deployEncoded,
    deploySigned] ?_ (by decide +kernel)
  rintro b ((((rfl | rfl) | hnone) | ⟨e, he, hself, hb⟩) | hb)
  · exact List.mem_cons_self
  · rw [deployed_string]
    simp
  · exact hnone.elim
  · rw [deployRun_factory e he hself] at hb
    rcases hb with ⟨p, hp, rfl⟩ | hb
    · obtain rfl := Option.some.inj hp
      exact List.mem_cons_self
    · have hsigned : signedRequest deployEnv deployRequest deployDomain deploySuffix =
          deploySigned := deployCreation_signed
      have hencoded : Factory.getEncoded deployEnv deployRequest deploySuffix = deployEncoded :=
        deployCreation_encoded
      rcases hb with hb | hb
      · rw [hb, hencoded]
        simp
      · rw [Set.mem_singleton_iff.mp hb, hsigned]
        simp
  · have hproxy : b = newString := by
      rw [deployed_address] at hb
      rcases hb with ⟨k, hk⟩ | ⟨e, he, k, hk⟩
      · rw [deployRun_code.1] at hk
        exact (Contract.mk.inj (Option.some.inj hk)).2.symm
      · rcases deployRun_code.2 e he with hnone | hsome
        · rw [hnone] at hk
          cases hk
        · rw [hsome] at hk
          exact (Contract.mk.inj (Option.some.inj hk)).2.symm
    rw [hproxy]
    simp

/-- The wallet of `keyOwner` is deployed, and paid for. -/
theorem deployCall_all_or_nothing_paid :
    (exec (machine deployEnv (Outside.silent deployEnv)) 8 false deployTx.gas deployTx.msg
      (Conf.start deployWorld)).value = .ok [] ∧
    DeployedCall deployEnv 0xaa newSite deployRequest deployData deployTx.msg
      (Conf.start deployWorld) deployRun := by
  have hvalue := deployRun_value
  have hplan : WalletPlan.parse deployEnv newSite.plan.kind (RelayHub.deployMsg deployEnv
      deployTx.msg ⟨deployRequest, deployData⟩ deploySignature).data = some newSite.plan := rfl
  rcases deployCall_all_or_nothing deployWorld_deployment deployWorld_prepared
    (Counterfactual.silent_logicKeeps _ _ _) (by decide +kernel) (.start 10)
    (show (10 : Word) ≤ deployTx.blockNumber by decide) (by decide) rfl rfl rfl hplan 8
    deployed_injOn with ⟨e, herror, -⟩ | hdeployed
  · rw [hvalue] at herror
    cases herror
  · exact hdeployed

end Whole

end RifRelay
