import RifRelay.Contracts.Guard
import RifRelay.Contracts.WalletSpec

set_option autoImplicit false

/-! # What the functions of the factories do

`wp_deploy` is the specification of `deploy`, which both kinds of factories and both ways to
create a wallet end with: the proxy is installed where nothing stood, and the first message it
gets is the one that initialises it.
-/

namespace RifRelay

open CallMachine

variable {χ : Type}

/-- The world with another storage of the factory at `addr`. -/
def World.setFactory (w : World χ) (addr : Address) (factory : Factory) : World χ :=
  { w with factories := Function.update w.factories addr factory }

/-- At every point of a run the accounts of key pairs, and the zero address, have no code. -/
theorem Point.codeless {E : Env} {O : Outside E χ} {w₀ : World χ}
    (hcodeless : ∀ a, E.codeless a = true → w₀.code a = none) {b : Word} {point : Option Msg}
    {c : ChainConf χ} (hc : Point E O w₀ b point c) (a : Address) (ha : E.codeless a = true) :
    c.state.code a = none := by
  have hguarded : Guarded E O w₀ (fun _ => False)
      (fun _ c => CodeKept E w₀ (fun _ => False) c.state)
      (fun _ c => CodeKept E w₀ (fun _ => False) c.state) :=
    { start := fun _ => ⟨fun _ h => h.elim, hcodeless⟩
      wait := fun _ _ _ _ hi => hi
      answered := fun _ _ _ _ hi => hi
      codeless := fun _ _ _ _ _ h => h
      write := fun _ _ _ _ hi _ hw => hi.write (fun _ h => h.elim) (fun h => h.elim) hw
      sends := fun _ _ _ hi _ _ => hi
      enter := fun _ _ _ hi _ henter => hi.enter henter
      own := fun _ _ _ _ h _ => h.elim }
  rcases hguarded.point hc with ⟨-, hi⟩ | ⟨-, -, -, hi⟩
  · exact hi.codeless a ha
  · exact hi.codeless a ha

namespace Factory

section Rules

variable (S : Spec (World χ) Msg Revert Bytes) (c : ChainConf χ) (msg : Msg)

@[simp] theorem wp_factory_storage (Q : Factory → ChainConf χ → Prop) :
    wp S (storage msg) Q c ↔ Q (c.state.factories msg.self) c := Iff.rfl

@[simp] theorem wp_factory_modifyStorage (f : Factory → Factory)
    (Q : Unit → ChainConf χ → Prop) :
    wp S (modifyStorage msg f) Q c ↔
      Q () (c.put (c.state.setFactory msg.self (f (c.state.factories msg.self)))) := Iff.rfl

end Rules

/-- The string that the address of a proxy is the hash of. -/
def proxyString (E : Env) (self masterCopy : Address) (salt : Word) : Bytes :=
  Proxy.create2String self salt (E.keccak256 (Proxy.creationBytecode masterCopy))

/-- The state after the proxy with this salt was installed. -/
def installed (E : Env) (self masterCopy : Address) (salt : Word) (w : World χ) : World χ :=
  w.install (proxyAddress E self masterCopy salt)
    ⟨.proxy masterCopy, proxyString E self masterCopy salt⟩

/-- The message that initialises a new proxy. -/
def initMsg (E : Env) (msg : Msg) (masterCopy : Address) (salt : Word) (initdata : CallData) :
    Msg :=
  msg.callTo (proxyAddress E msg.self masterCopy salt) 0 initdata

/-- The state after the event of a deployment. -/
def announced (E : Env) (msg : Msg) (masterCopy : Address) (salt : Word) (w : World χ) : World χ :=
  { w with logs := w.logs ++
      [(msg.self, .Deployed (proxyAddress E msg.self masterCopy salt) salt)] }

/-- **Deployment.** Where something stands already there is nothing to initialise, and the
frame fails. -/
theorem wp_deploy {S : Spec (World χ) Msg Revert Bytes} {E : Env} {msg : Msg} {salt : Word}
    {initdata : CallData} {Q : Address → ChainConf χ → Prop} {c : ChainConf χ} {mc : Address}
    (hmc : (c.state.factories msg.self).masterCopy = mc) (hzero : c.state.code 0 = none)
    (h : c.state.Vacant E (proxyAddress E msg.self mc salt) →
      S.pre (initMsg E msg mc salt initdata) (c.put (installed E msg.self mc salt c.state)) ∧
        ∀ ret c', S.post (initMsg E msg mc salt initdata) (.ok ret)
            (c.put (installed E msg.self mc salt c.state)) c' →
          Q (proxyAddress E msg.self mc salt) (c'.put (announced E msg mc salt c'.state))) :
    wp S (deploy E msg salt initdata) Q c := by
  subst hmc
  simp only [deploy, create2, Prog.bind_eq, Prog.pure_eq, wp_bind, wp_factory_storage, wp_get,
    wp_modify, wp_ret, wp_assert, wp_lowLevelCall, wp_require, wp_emit]
  by_cases hvacant : c.state.Vacant E
      (proxyAddress E msg.self (c.state.factories msg.self).masterCopy salt)
  · obtain ⟨hpre, hpost⟩ := h hvacant
    unfold proxyAddress at hvacant
    rw [if_pos hvacant, if_pos hvacant]
    intro _
    refine ⟨hpre, ?_⟩
    intro r c' hr hsuccess
    cases r with
    | error e => cases hsuccess
    | ok ret => exact hpost ret c' hr
  · unfold proxyAddress at hvacant
    rw [if_neg hvacant, if_neg hvacant]
    exact fun hcode => absurd hzero hcode

end Factory

end RifRelay
