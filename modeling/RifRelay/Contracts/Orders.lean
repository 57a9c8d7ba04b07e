import RifRelay.Contracts.FactorySpec
import RifRelay.Contracts.CustomSmartWalletFactory

set_option autoImplicit false

/-! # Orders

The two factories and their two ways to create a wallet do the same thing: they check that
the owner permits it, and create and initialise a proxy. What differs is the *order*: the
salt, the message that initialises the proxy, and what permits it. `wp_smartWalletFactory_code`
and `wp_customSmartWalletFactory_code` are the specifications of the factories in terms of
orders.
-/

namespace RifRelay

open CallMachine IForwarder

variable {χ : Type}

/-- What permits the creation of a wallet: a signature over a message that describes it, or a
deploy request. -/
inductive Permit
  | signature (message sig : Bytes)
  | request (req : DeployRequest) (domainSeparator suffixData : Word) (sig : Bytes)
deriving DecidableEq

structure Order where
  owner : Address
  salt : Word
  initdata : CallData
  permit : Permit
deriving DecidableEq

/-- `createUserSmartWallet`. -/
def SmartWalletFactory.createOrder (E : Env) (owner recoverer : Address) (index : Word)
    (sig : Bytes) : Order where
  owner := owner
  salt := SmartWallet.salt E owner recoverer index
  initdata := .initializeWallet owner 0 0 0 0
  permit := .signature (SmartWalletFactory.creationString owner recoverer index) sig

/-- `relayedUserSmartWalletCreation`. -/
def SmartWalletFactory.relayedOrder (E : Env) (origin : Address) (req : DeployRequest)
    (domainSeparator suffixData : Word) (sig : Bytes) : Order where
  owner := req.from
  salt := SmartWallet.salt E req.from req.recoverer req.index
  initdata := .initializeWallet req.from req.tokenContract origin req.tokenAmount req.tokenGas
  permit := .request req domainSeparator suffixData sig

def CustomSmartWalletFactory.createOrder (E : Env) (owner recoverer logic : Address)
    (index : Word) (initParams sig : Bytes) : Order where
  owner := owner
  salt := CustomSmartWallet.salt E owner recoverer logic (E.keccak256 initParams) index
  initdata := .initializeCustomWallet owner logic 0 0 0 0 initParams
  permit := .signature
    (CustomSmartWalletFactory.creationString owner recoverer logic index initParams) sig

def CustomSmartWalletFactory.relayedOrder (E : Env) (origin : Address) (req : DeployRequest)
    (domainSeparator suffixData : Word) (sig : Bytes) : Order where
  owner := req.from
  salt := CustomSmartWallet.salt E req.from req.recoverer req.to (E.keccak256 req.data) req.index
  initdata := .initializeCustomWallet req.from req.to req.tokenContract origin req.tokenAmount
    req.tokenGas req.data
  permit := .request req domainSeparator suffixData sig

namespace Order

/-- The order that the calldata of a factory with the code `k` is. -/
def parse (E : Env) (k : Code) (msg : Msg) : Option Order :=
  match k, msg.data with
  | .smartWalletFactory, .createUserSmartWallet owner recoverer index sig =>
      some (SmartWalletFactory.createOrder E owner recoverer index sig)
  | .smartWalletFactory, .relayedUserSmartWalletCreation req domainSeparator suffixData sig =>
      some (SmartWalletFactory.relayedOrder E msg.tx.origin req domainSeparator suffixData sig)
  | .customSmartWalletFactory,
      .createCustomUserSmartWallet owner recoverer logic index initParams sig =>
      some (CustomSmartWalletFactory.createOrder E owner recoverer logic index initParams sig)
  | .customSmartWalletFactory,
      .relayedUserSmartWalletCreation req domainSeparator suffixData sig =>
      some (CustomSmartWalletFactory.relayedOrder E msg.tx.origin req domainSeparator suffixData
        sig)
  | _, _ => none

/-- The checks that a factory with the storage `factory` makes. -/
def Permitted (E : Env) (msg : Msg) (factory : Factory) (o : Order) : Prop :=
  match o.permit with
  | .signature message sig => E.recover (E.keccak256 message) sig = .ok o.owner
  | .request req domainSeparator suffixData sig =>
      msg.sender = req.relayHub ∧ factory.nonces req.from = req.nonce ∧ req.from = o.owner ∧
        Eip712.Signs E msg.self domainSeparator (Factory.getEncoded E req suffixData) sig req.from

/-- The storage of the factory afterwards: a deploy request uses up a nonce. -/
def charge (o : Order) (factory : Factory) : Factory :=
  match o.permit with
  | .signature _ _ => factory
  | .request req _ _ _ => factory.setNonce req.from (factory.nonces req.from + 1)

/-- The state in which the proxy is initialised. -/
def placed (E : Env) (self masterCopy : Address) (o : Order) (w : World χ) : World χ :=
  Factory.installed E self masterCopy o.salt (w.setFactory self (o.charge (w.factories self)))

@[simp] theorem charge_masterCopy (o : Order) (factory : Factory) :
    (o.charge factory).masterCopy = factory.masterCopy := by
  unfold charge
  cases o.permit <;> rfl

section Rules

variable {S : Spec (World χ) Msg Revert Bytes} {E : Env} {msg : Msg} {c : ChainConf χ}
  {mc : Address} {Q : Bytes → ChainConf χ → Prop}

/-- The order can be carried out: if nothing stands at its place, the message that initialises
the new proxy may be sent, and `Q` holds when the factory has announced it. -/
def Placeable (S : Spec (World χ) Msg Revert Bytes) (E : Env) (msg : Msg) (mc : Address)
    (Q : Bytes → ChainConf χ → Prop) (c : ChainConf χ) (o : Order) : Prop :=
  c.state.Vacant E (Factory.proxyAddress E msg.self mc o.salt) →
    S.pre (Factory.initMsg E msg mc o.salt o.initdata) (c.put (o.placed E msg.self mc c.state)) ∧
      ∀ ret c', S.post (Factory.initMsg E msg mc o.salt o.initdata) (.ok ret)
          (c.put (o.placed E msg.self mc c.state)) c' →
        Q [] (c'.put (Factory.announced E msg mc o.salt c'.state))

/-- The factory with the code `k` can carry out what it is asked for, if it is permitted. -/
def Served (S : Spec (World χ) Msg Revert Bytes) (E : Env) (k : Code) (msg : Msg) (mc : Address)
    (Q : Bytes → ChainConf χ → Prop) (c : ChainConf χ) : Prop :=
  ∀ o, parse E k msg = some o → o.Permitted E msg (c.state.factories msg.self) →
    Placeable S E msg mc Q c o

theorem setFactory_self (w : World χ) (addr : Address) :
    w.setFactory addr (w.factories addr) = w := by
  simp only [World.setFactory, Function.update_eq_self]

/-- `deploy` for an order that is permitted. -/
theorem wp_placed {o : Order} (hmc : (c.state.factories msg.self).masterCopy = mc)
    (hzero : c.state.code 0 = none)
    (h : Placeable S E msg mc Q c o) :
    wp S (Factory.deploy E msg o.salt o.initdata) (fun _ c' => Q [] c')
      (c.put (c.state.setFactory msg.self (o.charge (c.state.factories msg.self)))) := by
  refine Factory.wp_deploy ?_ hzero h
  show (Function.update c.state.factories msg.self _ msg.self).masterCopy = mc
  rw [Function.update_self, charge_masterCopy]
  exact hmc

/-- The check of the owner's signature in `createUserSmartWallet`. -/
theorem safeEquals_owner {signer owner : Address}
    (h : RSKAddrValidator.safeEquals signer owner = true) : signer = owner :=
  ((RSKAddrValidator.safeEquals_iff _ _).mp h).1

theorem wp_createUserSmartWallet {o : Order} {message sig : Bytes}
    (hpermit : o.permit = .signature message sig)
    (hmc : (c.state.factories msg.self).masterCopy = mc) (hzero : c.state.code 0 = none)
    (h : o.Permitted E msg (c.state.factories msg.self) → Placeable S E msg mc Q c o) :
    wp S (recoverSigner E (E.keccak256 message) sig) (fun signer c' =>
      wp S (require (RSKAddrValidator.safeEquals signer o.owner) "Invalid signature")
        (fun _ c' => wp S (Factory.deploy E msg o.salt o.initdata) (fun _ c' => Q [] c') c') c')
      c := by
  rw [wp_recoverSigner]
  intro signer hrecovered
  rw [wp_require]
  intro hsigner
  have hpermitted : o.Permitted E msg (c.state.factories msg.self) := by
    unfold Permitted
    rw [hpermit]
    exact safeEquals_owner hsigner ▸ hrecovered
  have hstate :
      c.put (c.state.setFactory msg.self (o.charge (c.state.factories msg.self))) = c := by
    have hcharge : o.charge (c.state.factories msg.self) = c.state.factories msg.self := by
      unfold charge
      rw [hpermit]
    rw [hcharge, setFactory_self, Conf.put_self]
  have hdeploy := wp_placed hmc hzero (h hpermitted)
  rwa [hstate] at hdeploy

theorem wp_relayedUserSmartWalletCreation {o : Order} {req : DeployRequest}
    {domainSeparator suffixData : Word} {sig : Bytes}
    (hpermit : o.permit = .request req domainSeparator suffixData sig) (howner : req.from = o.owner)
    (hmc : (c.state.factories msg.self).masterCopy = mc) (hzero : c.state.code 0 = none)
    (h : o.Permitted E msg (c.state.factories msg.self) → Placeable S E msg mc Q c o) :
    wp S (require (msg.sender = req.relayHub) "Invalid caller") (fun _ c' =>
      wp S (Factory.verifySig E msg req domainSeparator suffixData sig) (fun _ c' =>
        wp S (Factory.modifyStorage msg
            fun factory => factory.setNonce req.from (factory.nonces req.from + 1))
          (fun _ c' => wp S (Factory.deploy E msg o.salt o.initdata) (fun _ c' => Q [] c') c') c')
        c') c := by
  rw [wp_require]
  intro hcaller
  unfold Factory.verifySig
  simp only [Prog.bind_eq, wp_bind, Factory.wp_factory_storage, wp_require, wp_checkSignature,
    Factory.wp_factory_modifyStorage]
  intro hnonce hsigned
  have hpermitted : o.Permitted E msg (c.state.factories msg.self) := by
    unfold Permitted
    rw [hpermit]
    exact ⟨hcaller, hnonce, howner, hsigned⟩
  have hcharge : o.charge (c.state.factories msg.self) =
      (c.state.factories msg.self).setNonce req.from
        ((c.state.factories msg.self).nonces req.from + 1) := by
    unfold charge
    rw [hpermit]
  have hdeploy := wp_placed hmc hzero (h hpermitted)
  rw [hcharge] at hdeploy
  exact hdeploy

/-- **What a `SmartWalletFactory` does.** -/
theorem wp_smartWalletFactory_code (hmc : (c.state.factories msg.self).masterCopy = mc)
    (hzero : c.state.code 0 = none) (h : Served S E .smartWalletFactory msg mc Q c) :
    wp S (SmartWalletFactory.code E msg) Q c := by
  unfold SmartWalletFactory.code
  split
  next owner recoverer index sig hdata =>
    have horder : parse E .smartWalletFactory msg =
        some (SmartWalletFactory.createOrder E owner recoverer index sig) := by
      unfold parse
      rw [hdata]
    simp only [SmartWalletFactory.createUserSmartWallet, Prog.bind_eq, Prog.pure_eq, wp_bind,
      wp_nonPayable, wp_ret]
    intro _
    have hcreate := wp_createUserSmartWallet rfl hmc hzero (h _ horder)
    exact hcreate
  next req domainSeparator suffixData sig hdata =>
    have horder : parse E .smartWalletFactory msg = some
        (SmartWalletFactory.relayedOrder E msg.tx.origin req domainSeparator suffixData sig) := by
      unfold parse
      rw [hdata]
    simp only [SmartWalletFactory.relayedUserSmartWalletCreation, Prog.bind_eq, Prog.pure_eq,
      wp_bind, wp_nonPayable, wp_ret]
    intro _
    have hrelayed := wp_relayedUserSmartWalletCreation rfl rfl hmc hzero (h _ horder)
    exact hrelayed
  next => exact trivial

/-- **What a `CustomSmartWalletFactory` does.** -/
theorem wp_customSmartWalletFactory_code (hmc : (c.state.factories msg.self).masterCopy = mc)
    (hzero : c.state.code 0 = none) (h : Served S E .customSmartWalletFactory msg mc Q c) :
    wp S (CustomSmartWalletFactory.code E msg) Q c := by
  unfold CustomSmartWalletFactory.code
  split
  next owner recoverer logic index initParams sig hdata =>
    have horder : parse E .customSmartWalletFactory msg = some
        (CustomSmartWalletFactory.createOrder E owner recoverer logic index initParams sig) := by
      unfold parse
      rw [hdata]
    simp only [CustomSmartWalletFactory.createUserSmartWallet, Prog.bind_eq, Prog.pure_eq,
      wp_bind, wp_nonPayable, wp_ret]
    intro _
    have hcreate := wp_createUserSmartWallet rfl hmc hzero (h _ horder)
    exact hcreate
  next req domainSeparator suffixData sig hdata =>
    have horder : parse E .customSmartWalletFactory msg = some
        (CustomSmartWalletFactory.relayedOrder E msg.tx.origin req domainSeparator suffixData
          sig) := by
      unfold parse
      rw [hdata]
    simp only [CustomSmartWalletFactory.relayedUserSmartWalletCreation, Prog.bind_eq,
      Prog.pure_eq, wp_bind, wp_nonPayable, wp_ret]
    intro _
    have hrelayed := wp_relayedUserSmartWalletCreation rfl rfl hmc hzero (h _ horder)
    exact hrelayed
  next => exact trivial

end Rules

end Order

end RifRelay
