import RifRelay.Contracts.Guard
import RifRelay.Contracts.HubSpec
import RifRelay.Contracts.Orders
import RifRelay.Machine.History

set_option autoImplicit false

/-! # The history of a factory

A factory counts, for every owner, the deploy requests that it has carried out, and it takes a
request only with the nonce that comes next. The invariant `FactoryInv` says so of the trace, for
both kinds of factories; `factory_guarded` shows that it survives everything that anybody does.
Two more things are in it that the hub is in charge of: a creation which a hub has asked for goes
back to a call of `deployCall`.
-/

namespace RifRelay

open CallMachine IForwarder
open EnvelopingTypes (RelayData)

variable {χ : Type}

namespace Factory

/-! ## Creations -/

/-- What a call of `relayedUserSmartWalletCreation` is about. -/
structure Creation where
  domainSeparator : Word
  suffixData : Word
  req : DeployRequest
deriving DecidableEq

/-- The creation that an entry starts. -/
def creationOf (F : Address) (e : Entry (World χ) Msg) : Option Creation :=
  match e.msg.data with
  | .relayedUserSmartWalletCreation req domainSeparator suffixData _ =>
      if e.msg.self = F then some ⟨domainSeparator, suffixData, req⟩ else none
  | _ => none

/-- The creations of a history for `owner`. -/
def creations (F owner : Address) (trace : List (Entry (World χ) Msg)) : List Creation :=
  (trace.filterMap (creationOf F)).filter fun x => x.req.from = owner

section Creations

variable {F owner : Address} {e : Entry (World χ) Msg} {x : Creation}

theorem creationOf_eq_some : creationOf F e = some x ↔
    e.msg.self = F ∧ ∃ sig, e.msg.data =
      .relayedUserSmartWalletCreation x.req x.domainSeparator x.suffixData sig := by
  unfold creationOf
  split
  next req dom suffix sig hdata =>
    rw [Option.ite_none_right_eq_some, Option.some_inj, hdata]
    constructor
    · rintro ⟨hself, rfl⟩
      exact ⟨hself, sig, rfl⟩
    · rintro ⟨hself, sig', heq⟩
      injection heq with hreq hdom hsuffix
      exact ⟨hself, by rw [hdom, hsuffix, hreq]⟩
  next hdata =>
    constructor
    · intro h
      cases h
    · rintro ⟨-, sig, heq⟩
      exact absurd heq (hdata _ _ _ sig)

theorem creationOf_eq_none (h : e.msg.self = F → ∀ req dom suffix sig,
    e.msg.data ≠ .relayedUserSmartWalletCreation req dom suffix sig) : creationOf F e = none := by
  rw [Option.eq_none_iff_forall_ne_some]
  intro x hx
  obtain ⟨hself, sig, hdata⟩ := creationOf_eq_some.mp hx
  exact h hself _ _ _ sig hdata

theorem creations_append (l l' : List (Entry (World χ) Msg)) :
    creations F owner (l ++ l') = creations F owner l ++ creations F owner l' := by
  simp only [creations, List.filterMap_append, List.filter_append]

theorem creations_snoc_none (l : List (Entry (World χ) Msg)) (h : creationOf F e = none) :
    creations F owner (l ++ [e]) = creations F owner l := by
  simp [creations, h]

theorem creations_snoc_some (l : List (Entry (World χ) Msg)) (h : creationOf F e = some x) :
    (creations F owner (l ++ [e])).length =
      (creations F owner l).length + if x.req.from = owner then 1 else 0 := by
  by_cases howner : x.req.from = owner <;> simp [creations, h, howner]

theorem mem_creations {trace : List (Entry (World χ) Msg)} (he : e ∈ trace)
    (hx : creationOf F e = some x) : x ∈ creations F x.req.from trace :=
  List.mem_filter.mpr ⟨List.mem_filterMap.mpr ⟨e, he, hx⟩, by simp⟩

end Creations

/-! ## Deploy requests -/

/-- The call `r` of the hub at `H` is a deploy request that sends the factory of `msg` the
creation `x`. -/
structure Deploying (E : Env) (H : Address) (r : Entry (World χ) Msg) (relayData : RelayData)
    (msg : Msg) (x : Creation) : Prop where
  self : r.msg.self = H
  data : ∃ signature, r.msg.data = .deployCall ⟨x.req, relayData⟩ signature
  guard : RelayHub.RelayGuard r.msg (r.pre.hubs H) relayData
  tx : msg.tx = r.msg.tx
  factory : relayData.callForwarder = msg.self
  domain : x.domainSeparator = relayData.domainSeparator
  suffix : x.suffixData = Eip712Library.hashRelayData E relayData

def DeployedBy (E : Env) (H : Address) (trace : List (Entry (World χ) Msg)) (msg : Msg)
    (x : Creation) : Prop :=
  ∃ r ∈ trace, ∃ relayData, Deploying E H r relayData msg x

/-! ## The invariant -/

/-- A hub at `H` and a factory at `F` with the code `k`. -/
structure Deployment (E : Env) (w₀ : World χ) (H F : Address) (k : Code) : Prop where
  hub : ∃ creation, w₀.code H = some ⟨.relayHub, creation⟩
  factory : ∃ creation, w₀.code F = some ⟨k, creation⟩
  kind : k.isFactory = true
  codeless : ∀ a, E.codeless a = true → w₀.code a = none

/-- The accounts whose code the history of a factory hangs on. -/
def Parts (H F a : Address) : Prop := a = H ∨ a = F

/-- The checks that a factory with the nonces of `factory` makes of a creation. -/
structure Accepts (E : Env) (msg : Msg) (factory : Factory) (x : Creation) (sig : Bytes) :
    Prop where
  caller : msg.sender = x.req.relayHub
  nonce : factory.nonces x.req.from = x.req.nonce
  signed : Eip712.Signs E msg.self x.domainSeparator (getEncoded E x.req x.suffixData) sig
    x.req.from

/-- The creation of an entry was accepted with the nonce that counts the earlier ones of its
owner, and when it comes from the hub there is a deploy request for it. -/
structure Checked (E : Env) (w₀ : World χ) (H F : Address) (l : List (Entry (World χ) Msg))
    (e : Entry (World χ) Msg) (x : Creation) : Prop where
  count : (e.pre.factories F).nonces x.req.from = (w₀.factories F).nonces x.req.from +
    BitVec.ofNat 256 (creations F x.req.from l).length
  accepted : ∃ sig, Accepts E e.msg (e.pre.factories F) x sig
  deployed : e.msg.sender = H → DeployedBy E H l e.msg x

structure FactoryInv (E : Env) (w₀ : World χ) (H F : Address) (c : ChainConf χ) : Prop where
  kept : CodeKept E w₀ (Parts H F) c.state
  masterCopy : (c.state.factories F).masterCopy = (w₀.factories F).masterCopy
  nonces : ∀ owner, (c.state.factories F).nonces owner = (w₀.factories F).nonces owner +
    BitVec.ofNat 256 (creations F owner c.trace).length
  checked : Each (fun l e => ∀ x, creationOf F e = some x → Checked E w₀ H F l e x) c.trace

/-- How messages reach the hub and the factory. -/
structure Proper (E : Env) (H F : Address) (msg : Msg) (trace : List (Entry (World χ) Msg)) :
    Prop where
  addressed : Addressed (Parts H F) msg
  deployed : msg.self = F → msg.sender = H → ∀ req dom suffix sig,
    msg.data = .relayedUserSmartWalletCreation req dom suffix sig →
      DeployedBy E H trace msg ⟨dom, suffix, req⟩

/-- What every message is sent under. -/
def Sendable (E : Env) (w₀ : World χ) (H F : Address) (msg : Msg) (c : ChainConf χ) : Prop :=
  Proper E H F msg c.trace ∧ FactoryInv E w₀ H F c

section Invariant

variable {E : Env} {w₀ : World χ} {H F : Address} {c : ChainConf χ} {msg : Msg} {s w : World χ}
  {k : Code}

theorem Deployment.code_ne_none (hd : Deployment E w₀ H F k) (a : Address) (ha : Parts H F a) :
    w₀.code a ≠ none := by
  obtain ⟨kH, hH⟩ := hd.hub
  obtain ⟨kF, hF⟩ := hd.factory
  rcases ha with rfl | rfl
  · simp [hH]
  · simp [hF]

theorem Deployment.ne (hd : Deployment E w₀ H F k) : F ≠ H := by
  obtain ⟨kH, hH⟩ := hd.hub
  obtain ⟨kF, hF⟩ := hd.factory
  rintro rfl
  rw [hF] at hH
  obtain rfl : k = .relayHub := congrArg Contract.code (Option.some.inj hH)
  cases hd.kind

theorem FactoryInv.congr (h : FactoryInv E w₀ H F c) (hcode : w.code = c.state.code)
    (hfactory : w.factories F = c.state.factories F) : FactoryInv E w₀ H F (c.put w) where
  kept := h.kept.congr hcode
  masterCopy := by rw [Conf.put_state, hfactory]; exact h.masterCopy
  nonces := by rw [Conf.put_state, hfactory]; exact h.nonces
  checked := h.checked

theorem FactoryInv.answered (h : FactoryInv E w₀ H F c) (m : Msg) (r : Except Revert Bytes) :
    FactoryInv E w₀ H F (c.answered m r) := ⟨h.kept, h.masterCopy, h.nonces, h.checked⟩

/-- Entering a message that is no creation. -/
theorem FactoryInv.entered (h : FactoryInv E w₀ H F c) (henter : enter msg c.state = some s)
    (hnone : creationOf F (⟨msg, c.state⟩ : Entry (World χ) Msg) = none) :
    FactoryInv E w₀ H F (c.entered msg s) := by
  have hfactories : s.factories = c.state.factories := by
    obtain ⟨b, rfl, -⟩ := enter_frame henter
    rfl
  refine ⟨h.kept.enter henter, ?_, fun owner => ?_, ?_⟩
  · rw [Conf.entered_state, hfactories]
    exact h.masterCopy
  · rw [Conf.entered_state, hfactories, Conf.entered_trace, creations_snoc_none _ hnone]
    exact h.nonces owner
  · rw [Conf.entered_trace]
    refine h.checked.snoc fun x hx => ?_
    rw [hnone] at hx
    cases hx

/-- Placing a wallet keeps the code of the hub and of the factory. -/
theorem placed_kept (hd : Deployment E w₀ H F k) {o : Order} {mc : Address}
    (h : CodeKept E w₀ (Parts H F) w) (hvacant : w.Vacant E (proxyAddress E F mc o.salt)) :
    CodeKept E w₀ (Parts H F) (o.placed E F mc w) := by
  have hother : ∀ a, a ≠ proxyAddress E F mc o.salt → (o.placed E F mc w).code a = w.code a :=
    fun a ha => Function.update_of_ne ha _ _
  constructor
  · intro a ha
    rw [hother]
    · exact h.code a ha
    · rintro rfl
      exact hd.code_ne_none _ ha ((h.code _ ha).symm.trans hvacant.1)
  · intro a ha
    rw [hother]
    · exact h.codeless a ha
    · rintro rfl
      rw [hvacant.2] at ha
      cases ha

/-- The storage of the factory once it has placed an order. -/
theorem placed_factories {o : Order} {mc : Address} :
    (o.placed E F mc w).factories F = o.charge (w.factories F) := by
  show Function.update w.factories F _ F = _
  rw [Function.update_self]

theorem charge_nonces {o : Order} {req : DeployRequest} {dom suffix : Word} {sig : Bytes}
    (hpermit : o.permit = .request req dom suffix sig) (factory : Factory) (owner : Address) :
    (o.charge factory).nonces owner =
      if req.from = owner then factory.nonces owner + 1 else factory.nonces owner := by
  unfold Order.charge
  rw [hpermit]
  show Function.update factory.nonces req.from (factory.nonces req.from + 1) owner = _
  by_cases howner : req.from = owner
  · rw [if_pos howner, ← howner, Function.update_self]
  · rw [if_neg howner, Function.update_of_ne (Ne.symm howner)]

/-- An order that is permitted by a signature is no creation, and any other one is. -/
theorem parse_permit {o : Order} (ho : Order.parse E k msg = some o) :
    (∃ message sig, o.permit = .signature message sig ∧
      ∀ req dom suffix sig', msg.data ≠ .relayedUserSmartWalletCreation req dom suffix sig') ∨
    ∃ req dom suffix sig, o.permit = .request req dom suffix sig ∧
      msg.data = .relayedUserSmartWalletCreation req dom suffix sig := by
  unfold Order.parse at ho
  split at ho
  next hdata =>
    obtain rfl := Option.some.inj ho
    exact Or.inl ⟨_, _, rfl, fun _ _ _ _ heq => by rw [hdata] at heq; cases heq⟩
  next hdata =>
    obtain rfl := Option.some.inj ho
    exact Or.inr ⟨_, _, _, _, rfl, hdata⟩
  next hdata =>
    obtain rfl := Option.some.inj ho
    exact Or.inl ⟨_, _, rfl, fun _ _ _ _ heq => by rw [hdata] at heq; cases heq⟩
  next hdata =>
    obtain rfl := Option.some.inj ho
    exact Or.inr ⟨_, _, _, _, rfl, hdata⟩
  next => cases ho

/-- A permitted order leaves the invariant in place: a creation is counted. -/
theorem Sendable.placed (hd : Deployment E w₀ H F k) (hp : Sendable E w₀ H F msg c)
    (hself : msg.self = F) (henter : enter msg c.state = some s) {o : Order}
    (ho : Order.parse E k msg = some o) (hpermitted : o.Permitted E msg (s.factories F))
    {mc : Address} (hvacant : s.Vacant E (proxyAddress E F mc o.salt)) :
    FactoryInv E w₀ H F ((c.entered msg s).put (o.placed E F mc s)) := by
  have hi := hp.2
  have hfactories : s.factories = c.state.factories := by
    obtain ⟨b, rfl, -⟩ := enter_frame henter
    rfl
  have hkept : CodeKept E w₀ (Parts H F) (o.placed E F mc s) :=
    placed_kept hd (hi.kept.enter henter) hvacant
  have hmasterCopy : ((o.placed E F mc s).factories F).masterCopy =
      (w₀.factories F).masterCopy := by
    rw [placed_factories, Order.charge_masterCopy, hfactories]
    exact hi.masterCopy
  rcases parse_permit ho with
    ⟨message, sig, hpermit, hdata⟩ | ⟨req, dom, suffix, sig, hpermit, hdata⟩
  · have hnone : creationOf F (⟨msg, c.state⟩ : Entry (World χ) Msg) = none :=
      creationOf_eq_none fun _ => hdata
    obtain ⟨-, -, hnonces, hchecked⟩ := hi.entered henter hnone
    refine ⟨hkept, hmasterCopy, fun owner => ?_, hchecked⟩
    have hcharge : o.charge (s.factories F) = s.factories F := by
      unfold Order.charge
      rw [hpermit]
    rw [Conf.put_state, placed_factories, hcharge]
    exact hnonces owner
  · have hx : creationOf F (⟨msg, c.state⟩ : Entry (World χ) Msg) = some ⟨dom, suffix, req⟩ :=
      creationOf_eq_some.mpr ⟨hself, sig, hdata⟩
    unfold Order.Permitted at hpermitted
    rw [hpermit, hfactories] at hpermitted
    obtain ⟨hcaller, hnonce, -, hsigned⟩ := hpermitted
    refine ⟨hkept, hmasterCopy, fun owner => ?_, ?_⟩
    · rw [Conf.put_state, placed_factories, charge_nonces hpermit, hfactories, Conf.put_trace,
        Conf.entered_trace, creations_snoc_some _ hx, hi.nonces owner]
      by_cases howner : req.from = owner
      · rw [if_pos howner, if_pos howner, BitVec.ofNat_add, BitVec.add_assoc]
        rfl
      · rw [if_neg howner, if_neg howner, Nat.add_zero]
    · rw [Conf.put_trace, Conf.entered_trace]
      refine hi.checked.snoc fun y hy => ?_
      obtain rfl : _ = y := Option.some.inj (hx.symm.trans hy)
      exact ⟨hi.nonces _, ⟨sig, hcaller, hnonce, hsigned⟩,
        fun hsender => hp.1.deployed hself hsender _ _ _ sig hdata⟩

end Invariant

/-! ## The frames -/

/-- The specification of all messages of a transaction. -/
abbrev factorySpec (E : Env) (w₀ : World χ) (H F : Address) (t : TxContext) :
    Spec (World χ) Msg Revert Bytes :=
  (guardSpec (Sendable E w₀ H F) (fun _ c => FactoryInv E w₀ H F c) t).tracked

section Frames

variable {E : Env} {O : Outside E χ} {w₀ : World χ} {H F : Address} {c : ChainConf χ}
  {msg : Msg} {s : World χ} {k : Code}

/-- A call that is not a deploy request of the hub. -/
theorem Proper.callTo {trace : List (Entry (World χ) Msg)} {dest : Address} {value : Word}
    {data : CallData} (hquiet : msg.self = H → ∀ req dom suffix sig,
      data ≠ .relayedUserSmartWalletCreation req dom suffix sig) :
    Proper E H F (msg.callTo dest value data) trace where
  addressed := Addressed.callTo _ msg dest value data
  deployed := fun _ hsender _ _ _ _ hdata => absurd hdata (hquiet hsender _ _ _ _)

/-- **The frame of the hub.** It calls a factory only with the request it was called with. -/
theorem hub_frame (hd : Deployment E w₀ H F k) (hp : Sendable E w₀ H F msg c)
    (hself : msg.self = H) (henter : enter msg c.state = some s) :
    wp (factorySpec E w₀ H F msg.tx) (RelayHub.code E msg)
      (fun _ c' => FactoryInv E w₀ H F c') (c.entered msg s) := by
  have hhubs : s.hubs = c.state.hubs := by
    obtain ⟨b, rfl, -⟩ := enter_frame henter
    rfl
  have hi := hp.2.entered henter
    (creationOf_eq_none fun hF => absurd (hF.symm.trans hself) hd.ne)
  have hafter : ∀ (c' : ChainConf χ) hub events, FactoryInv E w₀ H F c' →
      FactoryInv E w₀ H F (c'.put (RelayHub.after c'.state msg.self hub events)) :=
    fun c' hub events h => h.congr rfl rfl
  have hsend : ∀ (c' : ChainConf χ) dest value data,
      (∀ req dom suffix sig,
        data ≠ CallData.relayedUserSmartWalletCreation req dom suffix sig) →
      FactoryInv E w₀ H F c' → (factorySpec E w₀ H F msg.tx).pre (msg.callTo dest value data) c' :=
    fun c' dest value data hdata h => ⟨rfl, Proper.callTo fun _ => hdata, h⟩
  refine RelayHub.wp_code (c.state.hubs msg.self) (by rw [Conf.entered_state, hhubs])
    ?_ ?_ ?_ ?_ ?_
  · intro hub' events ret _ _ _ _ _ _
    exact hafter _ _ _ hi
  · intro relayRequest signature hdata hguard
    refine ⟨hsend _ _ _ _ (fun _ _ _ _ heq => by cases heq) hi, ?_⟩
    rintro ret c' ⟨hok, -⟩ success data -
    exact hafter _ _ _ (hok ⟨ret, rfl⟩)
  · intro deployRequest signature hdata hguard
    refine ⟨⟨rfl, ⟨Addressed.callTo _ _ _ _ _, ?_⟩, hi⟩, ?_⟩
    · intro hfactory _ req dom suffix sig hcreation
      injection hcreation with hreq hdom hsuffix
      refine ⟨⟨msg, c.state⟩, by simp, deployRequest.relayData, hself, ⟨signature, ?_⟩, ?_, rfl,
        rfl, hdom.symm, hsuffix.symm⟩
      · rw [← hreq]
        exact hdata
      · rw [← hself]
        exact hguard
    · rintro ret c' ⟨hok, -⟩
      exact hok ⟨ret, rfl⟩
  · intro relayManager hdata heffect
    refine ⟨hsend _ _ _ _ (fun _ _ _ _ heq => by cases heq) (hafter _ _ _ hi), ?_⟩
    rintro ret c' ⟨hok, -⟩
    exact hafter _ _ _ (hok ⟨ret, rfl⟩)
  · intro relayWorker beneficiary relayManager hdata hmanager heffect
    refine ⟨hsend _ _ _ _ (fun _ _ _ _ heq => by cases heq) (hafter _ _ _ hi), ?_⟩
    rintro ret₁ c₂ ⟨hok₁, -⟩
    refine ⟨hsend _ _ _ _ (fun _ _ _ _ heq => by cases heq) (hok₁ ⟨ret₁, rfl⟩), ?_⟩
    rintro ret₂ c₃ ⟨hok₂, -⟩
    exact hafter _ _ _ (hok₂ ⟨ret₂, rfl⟩)

/-- What a factory does, of whichever kind it is. -/
theorem wp_codeOf_factory {S : Spec (World χ) Msg Revert Bytes}
    {Q : Bytes → ChainConf χ → Prop} (hk : k.isFactory = true)
    (hruns : (s.code msg.codeAddress).map Contract.code = some k)
    (hzero : c.state.code 0 = none)
    (h : Order.Served S E k msg (c.state.factories msg.self).masterCopy Q c) :
    wp S (codeOf E O msg s) Q c := by
  unfold codeOf
  rw [hruns]
  cases k with
  | smartWalletFactory => exact Order.wp_smartWalletFactory_code rfl hzero h
  | customSmartWalletFactory => exact Order.wp_customSmartWalletFactory_code rfl hzero h
  | _ => cases hk

/-- **The frame of the factory.** It counts a creation before it makes the wallet. -/
theorem factory_frame (hd : Deployment E w₀ H F k) (hp : Sendable E w₀ H F msg c)
    (hself : msg.self = F) (henter : enter msg c.state = some s) :
    wp (factorySpec E w₀ H F msg.tx) (codeOf E O msg s)
      (fun _ c' => FactoryInv E w₀ H F c') (c.entered msg s) := by
  have hcode : s.code = c.state.code := by
    obtain ⟨b, rfl, -⟩ := enter_frame henter
    rfl
  obtain ⟨creation, hF⟩ := hd.factory
  have hruns : (s.code msg.codeAddress).map Contract.code = some k := by
    rw [hp.1.addressed.codeAddress (Or.inr hself), hself, hcode, hp.2.kept.code F (Or.inr rfl), hF]
    rfl
  have hzero : (c.entered msg s).state.code 0 = none := by
    rw [Conf.entered_state, hcode]
    exact hp.2.kept.codeless 0 E.codeless_zero
  refine wp_codeOf_factory hd.kind hruns hzero fun o ho hpermitted hvacant => ?_
  rw [Conf.entered_state, hself] at hpermitted hvacant ⊢
  have hi := hp.placed hd hself henter ho hpermitted hvacant
  refine ⟨⟨rfl, Proper.callTo fun hH => absurd (hself.symm.trans hH) hd.ne, hi⟩, ?_⟩
  rintro ret c' ⟨hok, -⟩
  exact (hok ⟨ret, rfl⟩).congr rfl rfl

/-- The invariant survives everything that anybody does. -/
theorem factory_guarded (hd : Deployment E w₀ H F k) :
    Guarded E O w₀ (Parts H F) (Sendable E w₀ H F) (fun _ c => FactoryInv E w₀ H F c) where
  start := fun _ => ⟨⟨fun _ _ => rfl, hd.codeless⟩, rfl,
    fun owner => by simp [creations], Each.nil⟩
  wait := fun _ _ _ _ hi => hi
  answered := fun _ _ m r hi => hi.answered m r
  codeless := fun _ _ _ hi ha => hi.kept.not_codeless hd.code_ne_none ha
  write := by
    intro b c msg s hi hself hw
    have hfactory : s.factories F = c.state.factories F :=
      hw.factories F fun hF => hself (Or.inr hF.symm)
    refine ⟨hi.kept.write hd.code_ne_none (fun h => absurd h hself) hw, ?_, ?_, hi.checked⟩
    · rw [Conf.put_state, hfactory]
      exact hi.masterCopy
    · rw [Conf.put_state, hfactory]
      exact hi.nonces
  sends := by
    intro c msg m hi hself hm
    refine ⟨⟨Addressed.of_local hself hm, fun hF hH => ?_⟩, hi⟩
    rcases hm.2 with ⟨-, heq, -⟩ | ⟨-, heq, -⟩
    · exact absurd (Or.inr (heq.symm.trans hF)) hself
    · exact absurd (Or.inl (heq.symm.trans hH)) hself
  enter := by
    intro c msg s hp hself henter
    exact hp.2.entered henter (creationOf_eq_none fun hF => absurd (Or.inr hF) hself)
  own := by
    intro c msg s hp hparts henter
    by_cases hself : msg.self = F
    · exact factory_frame hd hp hself henter
    · have hH : msg.self = H := hparts.resolve_right hself
      have hcode : s.code = c.state.code := by
        obtain ⟨b, rfl, -⟩ := enter_frame henter
        rfl
      obtain ⟨creation, hhub⟩ := hd.hub
      have hruns : codeOf E O msg s = RelayHub.code E msg := by
        unfold codeOf
        rw [hp.1.addressed.codeAddress (Or.inl hH), hH, hcode, hp.2.kept.code H (Or.inl rfl), hhub]
        rfl
      rw [hruns]
      exact hub_frame hd hp hH henter

end Frames

end Factory

end RifRelay
