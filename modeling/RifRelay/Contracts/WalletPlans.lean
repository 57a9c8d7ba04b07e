import RifRelay.Contracts.Orders
import RifRelay.Contracts.WalletAddresses

set_option autoImplicit false

/-! # Wallets that may come to exist

A wallet is planned before it exists: its owner, its recoverer, its index and, for a custom
wallet, its logic and the hash of the parameters determine its address. Every order of a
factory carries out one plan (`Order.parse_plan`).
-/

namespace RifRelay

open CallMachine IForwarder

/-- What the address of a wallet depends on, besides the factory. -/
inductive WalletPlan
  | plain (owner recoverer : Address) (index : Word)
  | custom (owner recoverer logic : Address) (initParamsHash index : Word)
deriving DecidableEq

namespace WalletPlan

/-- The code of the factory that carries it out. -/
def kind : WalletPlan → Code
  | .plain _ _ _ => .smartWalletFactory
  | .custom _ _ _ _ _ => .customSmartWalletFactory

def owner : WalletPlan → Address
  | .plain owner _ _ => owner
  | .custom owner _ _ _ _ => owner

def saltBytes : WalletPlan → Bytes
  | .plain owner recoverer index => SmartWallet.saltBytes owner recoverer index
  | .custom owner recoverer logic initParamsHash index =>
      CustomSmartWallet.saltBytes owner recoverer logic initParamsHash index

/-- `getSmartWalletAddress` of the factory at `self`. -/
def address (E : Env) (factory : Factory) (self : Address) : WalletPlan → Address
  | .plain owner recoverer index =>
      SmartWalletFactory.getSmartWalletAddress E factory self owner recoverer index
  | .custom owner recoverer logic initParamsHash index =>
      CustomSmartWalletFactory.getSmartWalletAddress E factory self owner recoverer logic
        initParamsHash index

theorem saltBytes_inj {p q : WalletPlan} (hkind : p.kind = q.kind)
    (h : p.saltBytes = q.saltBytes) : p = q := by
  cases p with
  | plain owner recoverer index =>
      cases q with
      | plain owner' recoverer' index' =>
          obtain ⟨rfl, rfl, rfl⟩ := SmartWallet.saltBytes_iff.mp h
          rfl
      | custom => cases hkind
  | custom owner recoverer logic initParamsHash index =>
      cases q with
      | plain => cases hkind
      | custom owner' recoverer' logic' initParamsHash' index' =>
          obtain ⟨rfl, rfl, rfl, rfl, rfl⟩ := CustomSmartWallet.saltBytes_iff.mp h
          rfl

/-- The plan that calldata for a factory with the code `k` carries out. -/
def parse (E : Env) (k : Code) (data : CallData) : Option WalletPlan :=
  match k, data with
  | .smartWalletFactory, .createUserSmartWallet owner recoverer index _ =>
      some (.plain owner recoverer index)
  | .smartWalletFactory, .relayedUserSmartWalletCreation req _ _ _ =>
      some (.plain req.from req.recoverer req.index)
  | .customSmartWalletFactory,
      .createCustomUserSmartWallet owner recoverer logic index initParams _ =>
      some (.custom owner recoverer logic (E.keccak256 initParams) index)
  | .customSmartWalletFactory, .relayedUserSmartWalletCreation req _ _ _ =>
      some (.custom req.from req.recoverer req.to (E.keccak256 req.data) req.index)
  | _, _ => none

theorem parse_kind {E : Env} {k : Code} {data : CallData} {p : WalletPlan}
    (h : parse E k data = some p) : p.kind = k := by
  unfold parse at h
  split at h
  · obtain rfl := Option.some.inj h
    rfl
  · obtain rfl := Option.some.inj h
    rfl
  · obtain rfl := Option.some.inj h
    rfl
  · obtain rfl := Option.some.inj h
    rfl
  · cases h

end WalletPlan

/-- The message that initialises a wallet of the plan `p`. -/
def WalletPlan.InitData (p : WalletPlan) (data : CallData) : Prop :=
  match p with
  | .plain owner _ _ => ∃ token recipient amount gas,
      data = .initializeWallet owner token recipient amount gas
  | .custom owner _ logic _ _ => ∃ token recipient amount gas initParams,
      data = .initializeCustomWallet owner logic token recipient amount gas initParams

/-- Every order carries out a plan. -/
theorem Order.parse_plan {E : Env} {k : Code} {msg : Msg} {o : Order}
    (h : Order.parse E k msg = some o) :
    ∃ p, WalletPlan.parse E k msg.data = some p ∧ o.salt = E.keccak256 p.saltBytes ∧
      o.owner = p.owner ∧ p.InitData o.initdata := by
  unfold Order.parse at h
  split at h
  next hkind hdata =>
    obtain rfl := Option.some.inj h
    rw [hdata]
    exact ⟨_, rfl, rfl, rfl, _, _, _, _, rfl⟩
  next hkind hdata =>
    obtain rfl := Option.some.inj h
    rw [hdata]
    exact ⟨_, rfl, rfl, rfl, _, _, _, _, rfl⟩
  next hkind hdata =>
    obtain rfl := Option.some.inj h
    rw [hdata]
    exact ⟨_, rfl, rfl, rfl, _, _, _, _, _, rfl⟩
  next hkind hdata =>
    obtain rfl := Option.some.inj h
    rw [hdata]
    exact ⟨_, rfl, rfl, rfl, _, _, _, _, _, rfl⟩
  next => cases h

/-- A factory over a master copy, and a plan for a wallet. -/
structure Site where
  factory : Address
  masterCopy : Address
  plan : WalletPlan

namespace Site

variable (E : Env) (T : Site)

/-- The string that the address is the hash of. -/
def string : Bytes := Factory.proxyString E T.factory T.masterCopy (E.keccak256 T.plan.saltBytes)

def address : Address := E.createdAddress (T.string E)

/-- What stands at the address once the factory has created the wallet. -/
def proxy : Contract := ⟨.proxy T.masterCopy, T.string E⟩

theorem address_eq {factory : Factory} (h : factory.masterCopy = T.masterCopy) :
    T.plan.address E factory T.factory = T.address E := by
  unfold WalletPlan.address address string
  rw [← h]
  cases T.plan with
  | plain => rfl
  | custom => rfl

/-- Nobody but the factory can create something from the string. -/
theorem creation_ne {creator : Address} {creation : Bytes} (hc : Creation creator creation)
    (hne : creator ≠ T.factory) : creation ≠ T.string E := by
  rintro rfl
  generalize hs : T.string E = s at hc
  cases hc with
  | create hd nonce h => exact h (List.cons.inj hs).1.symm
  | create2 salt codeHash => exact hne (Factory.create2String_inj hs).1.symm

end Site

end RifRelay
