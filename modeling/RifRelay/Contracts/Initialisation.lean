import RifRelay.Contracts.CustomWalletSpec
import RifRelay.Contracts.Orders
import RifRelay.Contracts.Unless

set_option autoImplicit false

/-! # Who initialises wallets

A factory is deployed over a master copy, and its proxies run the code of the master copy.
`initialize` of both kinds of wallets only checks that there is no owner yet. A proxy is
initialised by the call that creates it (`CreatedByFactory`), but the master copy itself is
initialised by nobody, and whoever calls its `initialize` first becomes its owner and, for a
custom wallet, has it run code of his choice (`masterCopy_taken`). `initialised_by_factory`
says that in every run in which nobody does this all is well.
-/

namespace RifRelay

open CallMachine IForwarder

variable {χ : Type}

/-! ## Deployments -/

/-- The calldata initialises a wallet with the code `k`. -/
def CallData.initialises (data : CallData) (k : Code) : Bool :=
  match k, data with
  | .smartWallet, .initializeWallet _ _ _ _ _ => true
  | .customSmartWallet, .initializeCustomWallet _ _ _ _ _ _ _ => true
  | _, _ => false

/-- The code of the wallets of a factory. -/
def Code.template : Code → Option Code
  | .smartWalletFactory => some .smartWallet
  | .customSmartWalletFactory => some .customSmartWallet
  | _ => none

def IsFactory (w₀ : World χ) (a : Address) : Prop :=
  ∃ k creation, w₀.code a = some ⟨k, creation⟩ ∧ k.isFactory = true

def IsMasterCopy (w₀ : World χ) (a : Address) : Prop :=
  ∃ k creation, w₀.code a = some ⟨k, creation⟩ ∧ k.isWallet = true

/-- Factories deployed over their master copies, which nobody has called yet. -/
structure FactoryDeployment (E : Env) (w₀ : World χ) : Prop where
  masterCopy : ∀ F k creation, w₀.code F = some ⟨k, creation⟩ → k.isFactory = true →
    ∃ t creation', k.template = some t ∧
      w₀.code (w₀.factories F).masterCopy = some ⟨t, creation'⟩
  unused : ∀ a, IsMasterCopy w₀ a → w₀.wallets a = Wallet.zero
  noProxy : ∀ a mc creation, w₀.code a ≠ some ⟨.proxy mc, creation⟩
  codeless : ∀ a, E.codeless a = true → w₀.code a = none

/-- The message `initialize` for wallets that run the code at `mc`. -/
def Initialises (w₀ : World χ) (mc : Address) (data : CallData) : Prop :=
  ∃ k creation, w₀.code mc = some ⟨k, creation⟩ ∧ data.initialises k = true

/-- The proxy at `a` was created by a factory and initialised at once: in the history, the
call of the factory, at the start of which nothing stood at `a`, is followed by its call of
the proxy and by the delegate call that initialises the proxy, which still had no storage. -/
def CreatedByFactory (E : Env) (w₀ : World χ) (trace : List (Entry (World χ) Msg)) (a mc : Address)
    (creation : Bytes) : Prop :=
  ∃ l₁ d e i l₂ salt, trace = l₁ ++ d :: e :: i :: l₂ ∧ IsFactory w₀ d.msg.self ∧
    mc = (w₀.factories d.msg.self).masterCopy ∧
    creation = Factory.proxyString E d.msg.self mc salt ∧ d.pre.code a = none ∧
    e.msg = d.msg.callTo a 0 i.msg.data ∧ i.msg = e.msg.delegatecallTo mc i.msg.data ∧
    i.pre.wallets a = Wallet.zero ∧ Initialises w₀ mc i.msg.data

/-- Wallets are initialised only by their factory. -/
structure InitialisedByFactory (E : Env) (w₀ : World χ) (point : Option Msg) (c : ChainConf χ) :
    Prop where
  wallets : ∀ a k creation, c.state.code a = some ⟨k, creation⟩ →
    (k.isWallet = true ∨ ∃ mc, k = .proxy mc) → (c.state.wallets a).owner ≠ 0 →
    ∃ mc, k = .proxy mc ∧ CreatedByFactory E w₀ c.trace a mc creation
  masterCopies : ∀ mc, IsMasterCopy w₀ mc → c.state.code mc = w₀.code mc ∧
    (c.state.wallets mc).owner = 0 ∧ (c.state.wallets mc).logic = 0
  delegates : ∀ mc, IsMasterCopy w₀ mc →
    (∀ e ∈ c.trace, e.msg.kind = .delegatecall → e.msg.self ≠ mc) ∧
      ∀ m, point = some m → m.kind = .delegatecall → m.self ≠ mc

/-- A message that is sent in the account of a master copy and initialises it. -/
def InitialisesMasterCopy (w₀ : World χ) (e : Entry (World χ) Msg) : Prop :=
  Initialises w₀ e.msg.self e.msg.data

/-- A delegate call that runs the code of a factory in another account. -/
def BorrowsFactory (w₀ : World χ) (e : Entry (World χ) Msg) : Prop :=
  e.msg.kind = .delegatecall ∧ IsFactory w₀ e.msg.codeAddress

theorem CreatedByFactory.append {E : Env} {w₀ : World χ} {trace : List (Entry (World χ) Msg)}
    {a mc : Address} {creation : Bytes} (h : CreatedByFactory E w₀ trace a mc creation)
    (l : List (Entry (World χ) Msg)) : CreatedByFactory E w₀ (trace ++ l) a mc creation := by
  obtain ⟨l₁, d, e, i, l₂, salt, rfl, hrest⟩ := h
  exact ⟨l₁, d, e, i, l₂ ++ l, salt, by simp, hrest⟩

/-- An order asks for the initialisation of the kind of wallet that the factory creates. -/
theorem Order.parse_initialises {E : Env} {k : Code} {msg : Msg} {o : Order}
    (h : Order.parse E k msg = some o) :
    ∃ t, k.template = some t ∧ o.initdata.initialises t = true := by
  unfold Order.parse at h
  split at h
  · obtain rfl := Option.some.inj h
    exact ⟨_, rfl, rfl⟩
  · obtain rfl := Option.some.inj h
    exact ⟨_, rfl, rfl⟩
  · obtain rfl := Option.some.inj h
    exact ⟨_, rfl, rfl⟩
  · obtain rfl := Option.some.inj h
    exact ⟨_, rfl, rfl⟩
  · cases h

/-- Code that is not a factory's creates no proxies. -/
theorem FrameStep.code_cases {E : Env} {msg : Msg} {w w' : World χ} {k : Code}
    (h : FrameStep E msg w k w') (hk : k.isFactory = false) (a : Address) :
    w'.code a = w.code a ∨ w'.code a = none ∨
      ∃ creation, w'.code a = some ⟨.other, creation⟩ := by
  cases h with
  | idle | log | hub | penalizer | wallet => exact Or.inl rfl
  | factory _ _ hfactory | create _ _ _ hfactory =>
      rw [hk] at hfactory
      cases hfactory
  | outside ho =>
      cases ho with
      | idle | store | log | own | force | burn => exact Or.inl rfl
      | create creation =>
          rcases eq_or_ne a (E.createdAddress creation) with rfl | ha
          · exact Or.inr (Or.inr ⟨creation, by simp [World.install]⟩)
          · exact Or.inl (by simp [World.install, ha])
      | destroy =>
          rcases eq_or_ne a msg.self with rfl | ha
          · exact Or.inr (Or.inl (by simp))
          · exact Or.inl (by simp [ha])

/-! ## The invariant -/

namespace Initialisation

/-- The accounts with the code of the deployment. -/
def Deployed (w₀ : World χ) (a : Address) : Prop := IsFactory w₀ a ∨ IsMasterCopy w₀ a

/-- How an account came to the code `k`. -/
def Accounted (E : Env) (w₀ : World χ) (trace : List (Entry (World χ) Msg)) (a : Address)
    (k : Code) (creation : Bytes) : Prop :=
  (k.isFactory = true → IsFactory w₀ a) ∧ (k.isWallet = true → IsMasterCopy w₀ a) ∧
    ∀ mc, k = .proxy mc → CreatedByFactory E w₀ trace a mc creation

/-- The invariant, up to accounts that are just being created. -/
structure Kept (E : Env) (w₀ : World χ) (young : Address → Prop) (c : ChainConf χ) : Prop where
  code : CodeKept E w₀ (Deployed w₀) c.state
  factories : ∀ F, IsFactory w₀ F →
    (c.state.factories F).masterCopy = (w₀.factories F).masterCopy
  unowned : ∀ mc, IsMasterCopy w₀ mc →
    (c.state.wallets mc).owner = 0 ∧ (c.state.wallets mc).logic = 0
  delegates : ∀ e ∈ c.trace, e.msg.kind = .delegatecall → ¬ IsMasterCopy w₀ e.msg.self
  accounted : ∀ a k creation, c.state.code a = some ⟨k, creation⟩ → ¬ young a →
    Accounted E w₀ c.trace a k creation

abbrev AllKept (E : Env) (w₀ : World χ) (c : ChainConf χ) : Prop := Kept E w₀ (fun _ => False) c

/-- A proxy at `a` that the call `d` of a factory has placed, and that is still to be
initialised with `data`. -/
structure Young (E : Env) (w₀ : World χ) (d : Entry (World χ) Msg) (a mc : Address)
    (data : CallData) (c : ChainConf χ) : Prop where
  factory : IsFactory w₀ d.msg.self
  masterCopy : mc = (w₀.factories d.msg.self).masterCopy
  vacant : d.pre.code a = none
  code : ∃ salt, c.state.code a = some ⟨.proxy mc, Factory.proxyString E d.msg.self mc salt⟩
  storage : c.state.wallets a = Wallet.zero
  initialises : Initialises w₀ mc data
  kept : Kept E w₀ (fun b => b = a) c

/-- The call of a proxy that was just placed. -/
def Placing (E : Env) (w₀ : World χ) (msg : Msg) (c : ChainConf χ) : Prop :=
  ∃ l d a mc data, c.trace = l ++ [d] ∧ msg = d.msg.callTo a 0 data ∧ Young E w₀ d a mc data c

/-- The delegate call with which that proxy hands the call on. -/
def Starting (E : Env) (w₀ : World χ) (msg : Msg) (c : ChainConf χ) : Prop :=
  ∃ l d e a mc data, c.trace = l ++ [d, e] ∧ e.msg = d.msg.callTo a 0 data ∧
    msg = e.msg.delegatecallTo mc data ∧ Young E w₀ d a mc data c

/-- What every message is sent under. -/
def Sendable (E : Env) (w₀ : World χ) (msg : Msg) (c : ChainConf χ) : Prop :=
  Addressed (Deployed w₀) msg ∧
    (AllKept E w₀ c ∨ Placing E w₀ msg c ∨ Starting E w₀ msg c)

/-- A master copy was initialised, or the code of a factory borrowed. -/
def Misused (w₀ : World χ) (trace : List (Entry (World χ) Msg)) : Prop :=
  ∃ e ∈ trace, InitialisesMasterCopy w₀ e ∨ BorrowsFactory w₀ e

section Invariant

variable {E : Env} {w₀ : World χ} {young : Address → Prop} {c : ChainConf χ} {msg : Msg}
  {s w : World χ} {a mc : Address}

theorem Misused.grow (l l' : List (Entry (World χ) Msg)) (h : Misused w₀ l) :
    Misused w₀ (l ++ l') := by
  obtain ⟨e, he, hmisuse⟩ := h
  exact ⟨e, List.mem_append_left _ he, hmisuse⟩

theorem code_ne_none (a : Address) (ha : Deployed w₀ a) : w₀.code a ≠ none := by
  rcases ha with ⟨k, creation, hk, -⟩ | ⟨k, creation, hk, -⟩
  · simp [hk]
  · simp [hk]

theorem Accounted.append {trace : List (Entry (World χ) Msg)} {k : Code} {creation : Bytes}
    (h : Accounted E w₀ trace a k creation) (l : List (Entry (World χ) Msg)) :
    Accounted E w₀ (trace ++ l) a k creation :=
  ⟨h.1, h.2.1, fun mc hmc => (h.2.2 mc hmc).append l⟩

/-- A write that leaves code, master copies and their storage alone. -/
theorem Kept.put (h : Kept E w₀ young c) (hcode : w.code = c.state.code)
    (hfactories : ∀ F, IsFactory w₀ F →
      (w.factories F).masterCopy = (c.state.factories F).masterCopy)
    (hwallets : ∀ mc, IsMasterCopy w₀ mc →
      (w.wallets mc).owner = (c.state.wallets mc).owner ∧
        (w.wallets mc).logic = (c.state.wallets mc).logic) : Kept E w₀ young (c.put w) where
  code := h.code.congr hcode
  factories := fun F hF => (hfactories F hF).trans (h.factories F hF)
  unowned := by
    intro mc hmc
    rw [Conf.put_state, (hwallets mc hmc).1, (hwallets mc hmc).2]
    exact h.unowned mc hmc
  delegates := h.delegates
  accounted := by
    rw [Conf.put_state, hcode]
    exact h.accounted

theorem Kept.entered (h : Kept E w₀ young c) (henter : enter msg c.state = some s)
    (hmsg : msg.kind = .delegatecall → ¬ IsMasterCopy w₀ msg.self) :
    Kept E w₀ young (c.entered msg s) := by
  obtain ⟨b, rfl, -⟩ := enter_frame henter
  refine ⟨h.code.congr rfl, h.factories, h.unowned, ?_, ?_⟩
  · intro e he
    rcases List.mem_append.mp he with he | he
    · exact h.delegates e he
    · obtain rfl := List.mem_singleton.mp he
      exact hmsg
  · intro a k creation hk hyoung
    exact (h.accounted a k creation hk hyoung).append _

/-- Code that is not a factory's, in an account that does not belong to the deployment. -/
theorem Kept.frameStep {k : Code} (h : AllKept E w₀ c) (hk : k.isFactory = false)
    (hself : ¬ Deployed w₀ msg.self) (hstep : FrameStep E msg c.state k w) :
    AllKept E w₀ (c.put w) := by
  have hw := hstep.localStep
  refine ⟨h.code.write code_ne_none (fun hd => absurd hd hself) hw, ?_, ?_, h.delegates, ?_⟩
  · intro F hF
    have hne : F ≠ msg.self := fun heq => hself (heq ▸ Or.inl hF)
    rw [Conf.put_state, hw.factories F hne]
    exact h.factories F hF
  · intro mc hmc
    have hne : mc ≠ msg.self := fun heq => hself (heq ▸ Or.inr hmc)
    rcases hw.wallets mc hne with heq | ⟨hvacant, -⟩
    · rw [Conf.put_state, heq]
      exact h.unowned mc hmc
    · have hcode := h.code.code mc (Or.inr hmc)
      exact absurd (hcode.symm.trans hvacant.1) (code_ne_none mc (Or.inr hmc))
  · intro a k' creation hcode hyoung
    rcases hstep.code_cases hk a with heq | hnone | ⟨creation', hother⟩
    · exact h.accounted a k' creation (heq.symm.trans hcode) hyoung
    · rw [Conf.put_state, hnone] at hcode
      cases hcode
    · rw [Conf.put_state, hother] at hcode
      obtain ⟨rfl, -⟩ := Contract.mk.inj (Option.some.inj hcode)
      refine ⟨?_, ?_, ?_⟩
      · intro hfactory
        cases hfactory
      · intro hwallet
        cases hwallet
      · intro mc hproxy
        cases hproxy

/-- An account that is just being created is not of the deployment. -/
theorem Young.not_deployed {d : Entry (World χ) Msg} {data : CallData}
    (h : Young E w₀ d a mc data c) : ¬ Deployed w₀ a := by
  obtain ⟨salt, hcode⟩ := h.code
  rintro (hd | hd)
  · have hkept := h.kept.code.code a (Or.inl hd)
    obtain ⟨k, creation, hk, hfactory⟩ := hd
    rw [hcode, hk] at hkept
    obtain ⟨rfl, -⟩ := Contract.mk.inj (Option.some.inj hkept)
    cases hfactory
  · have hkept := h.kept.code.code a (Or.inr hd)
    obtain ⟨k, creation, hk, hwallet⟩ := hd
    rw [hcode, hk] at hkept
    obtain ⟨rfl, -⟩ := Contract.mk.inj (Option.some.inj hkept)
    cases hwallet

theorem Young.entered {d : Entry (World χ) Msg} {data : CallData}
    (h : Young E w₀ d a mc data c) (henter : enter msg c.state = some s)
    (hmsg : msg.kind = .delegatecall → ¬ IsMasterCopy w₀ msg.self) :
    Young E w₀ d a mc data (c.entered msg s) := by
  have hkept := h.kept.entered henter hmsg
  obtain ⟨b, rfl, -⟩ := enter_frame henter
  exact ⟨h.factory, h.masterCopy, h.vacant, h.code, h.storage, h.initialises, hkept⟩

/-- With the delegate call that initialises it, the proxy is accounted for. -/
theorem Starting.entered (h : Starting E w₀ msg c) (henter : enter msg c.state = some s)
    (hmsg : msg.kind = .delegatecall → ¬ IsMasterCopy w₀ msg.self) :
    AllKept E w₀ (c.entered msg s) := by
  obtain ⟨l, d, e, a, mc, data, htrace, he, rfl, hyoung⟩ := h
  have hkept := hyoung.kept.entered henter hmsg
  refine ⟨hkept.code, hkept.factories, hkept.unowned, hkept.delegates, ?_⟩
  intro b k creation hcode _
  by_cases hb : b = a
  · subst hb
    obtain ⟨salt, hproxy⟩ := hyoung.code
    have hsame : (c.entered (e.msg.delegatecallTo mc data) s).state.code b = c.state.code b := by
      obtain ⟨coins, rfl, -⟩ := enter_frame henter
      rfl
    rw [hsame, hproxy] at hcode
    obtain ⟨rfl, rfl⟩ := Contract.mk.inj (Option.some.inj hcode)
    refine ⟨?_, ?_, ?_⟩
    · intro hfactory
      cases hfactory
    · intro hwallet
      cases hwallet
    · intro mc' hmc'
      obtain rfl : mc = mc' := Code.proxy.inj hmc'
      refine ⟨l, d, e, ⟨e.msg.delegatecallTo mc data, c.state⟩, [], salt, ?_, hyoung.factory,
        hyoung.masterCopy, rfl, hyoung.vacant, he, rfl, hyoung.storage, hyoung.initialises⟩
      rw [Conf.entered_trace, htrace, List.append_assoc]
      rfl
  · exact hkept.accounted b k creation hcode hb

end Invariant

/-! ## The frames -/

/-- The specification of all messages of a transaction. -/
abbrev initSpec (E : Env) (w₀ : World χ) (t : TxContext) : Spec (World χ) Msg Revert Bytes :=
  (unlessSpec (Misused w₀) (Sendable E w₀) (AllKept E w₀) t).tracked

/-- What holds between the messages of a frame. -/
def Resting (E : Env) (w₀ : World χ) (c : ChainConf χ) : Prop :=
  Misused w₀ c.trace ∨ AllKept E w₀ c

section Frames

variable {E : Env} {O : Outside E χ} {w₀ : World χ} {c : ChainConf χ} {msg : Msg} {s : World χ}

theorem AllKept.answered (h : AllKept E w₀ c) (m : Msg) (r : Except Revert Bytes) :
    AllKept E w₀ (c.answered m r) :=
  ⟨h.code, h.factories, h.unowned, h.delegates, h.accounted⟩

theorem Resting.back {m : Msg} {r : Except Revert Bytes} {c' : ChainConf χ} {t : TxContext}
    (h : Resting E w₀ c) (hpost : (initSpec E w₀ t).post m r c c') : Resting E w₀ c' :=
  KeptUnless.back (fun _ m r hi => hi.answered m r) h hpost

/-- Once the deployment was misused nothing is claimed any more. -/
theorem wp_misused (h : Misused w₀ c.trace) (w : World χ) :
    wp (initSpec E w₀ msg.tx) (codeOf E O msg w) (fun _ c' => Resting E w₀ c') c := by
  refine wp_mono _ (fun _ _ hx => Or.inl hx) _ _
    (wp_foreign (J := fun c' => Misused w₀ c'.trace) (fun _ _ hj _ => hj) ?_ ?_ _ h)
  · intro m c' hm hj
    exact ⟨hm.1, Or.inl hj⟩
  · intro m r c₁ c₂ _ hj hpost
    exact KeptUnless.grows Misused.grow hpost.2.continues hj

/-- Accounts that do not belong to the deployment, unless they borrow the code of a factory. -/
theorem wp_stranger {k : Code} (hk : (s.code msg.codeAddress).map Contract.code = some k)
    (hfactory : k.isFactory = false) (hself : ¬ Deployed w₀ msg.self) (hc : Resting E w₀ c) :
    wp (initSpec E w₀ msg.tx) (codeOf E O msg s) (fun _ c' => Resting E w₀ c') c := by
  refine wp_frame hk ?_ ?_ ?_ c hc
  · intro c' w hj hstep
    exact hj.imp id fun hkept => hkept.frameStep hfactory hself hstep
  · intro m c' hm hj
    exact ⟨hm.1, hj.imp id fun hkept => ⟨Addressed.of_local hself hm, Or.inl hkept⟩⟩
  · intro m r c' c'' _ hj hpost
    exact hj.back hpost

/-- Messages of accounts that make no delegate calls. -/
theorem Resting.callTo (h : Resting E w₀ c) (dest : Address) (value : Word) (data : CallData) :
    (initSpec E w₀ msg.tx).pre (msg.callTo dest value data) c :=
  ⟨rfl, h.imp id fun hkept => ⟨Addressed.callTo _ msg dest value data, Or.inl hkept⟩⟩

theorem callsKeep : CallsKeep (initSpec E w₀ msg.tx) msg (Resting E w₀) :=
  fun _ dest value data h => ⟨h.callTo dest value data, fun _ _ hpost => h.back hpost⟩

/-- The new proxy, as the factory leaves it when it sends the message that initialises it. -/
theorem young_placed (hd : FactoryDeployment E w₀) {k : Code} {creation : Bytes} {o : Order}
    {mc : Address} (hkept : AllKept E w₀ (c.entered msg s))
    (henter : enter msg c.state = some s) (hcode : w₀.code msg.self = some ⟨k, creation⟩)
    (hk : k.isFactory = true) (hmc : mc = (w₀.factories msg.self).masterCopy)
    (ho : Order.parse E k msg = some o)
    (hvacant : s.Vacant E (Factory.proxyAddress E msg.self mc o.salt)) :
    Young E w₀ ⟨msg, c.state⟩ (Factory.proxyAddress E msg.self mc o.salt) mc o.initdata
      ((c.entered msg s).put (o.placed E msg.self mc s)) := by
  obtain ⟨t, ht, hinit⟩ := Order.parse_initialises ho
  obtain ⟨t', creation', ht', htemplate⟩ := hd.masterCopy _ _ _ hcode hk
  obtain rfl : t = t' := Option.some.inj (ht.symm.trans ht')
  have hnew : ∀ b, b ≠ Factory.proxyAddress E msg.self mc o.salt →
      (o.placed E msg.self mc s).code b = s.code b ∧
        (o.placed E msg.self mc s).wallets b = s.wallets b := by
    intro b hb
    exact ⟨Function.update_of_ne hb _ _, Function.update_of_ne hb _ _⟩
  have hold : ∀ b, Deployed w₀ b → b ≠ Factory.proxyAddress E msg.self mc o.salt := by
    rintro b hb rfl
    exact code_ne_none _ hb ((hkept.code.code _ hb).symm.trans hvacant.1)
  refine ⟨⟨k, creation, hcode, hk⟩, hmc, ?_, ⟨o.salt, Function.update_self _ _ _⟩,
    Function.update_self _ _ _, ⟨t, creation', by rw [hmc]; exact htemplate, hinit⟩, ?_⟩
  · obtain ⟨b, rfl, -⟩ := enter_frame henter
    exact hvacant.1
  · refine ⟨⟨?_, ?_⟩, ?_, ?_, hkept.delegates, ?_⟩
    · intro b hb
      rw [Conf.put_state, (hnew b (hold b hb)).1]
      exact hkept.code.code b hb
    · intro b hb
      have hne : b ≠ Factory.proxyAddress E msg.self mc o.salt := by
        rintro rfl
        rw [hvacant.2] at hb
        cases hb
      rw [Conf.put_state, (hnew b hne).1]
      exact hkept.code.codeless b hb
    · intro F hF
      show (Function.update s.factories msg.self (o.charge (s.factories msg.self)) F).masterCopy = _
      by_cases hself : F = msg.self
      · subst hself
        rw [Function.update_self, Order.charge_masterCopy]
        exact hkept.factories _ hF
      · rw [Function.update_of_ne hself]
        exact hkept.factories F hF
    · intro m hm
      rw [Conf.put_state, (hnew m (hold m (Or.inr hm))).2]
      exact hkept.unowned m hm
    · intro b k' creation' hb hyoung
      rw [Conf.put_state, (hnew b hyoung).1] at hb
      exact hkept.accounted b k' creation' hb fun h => h

/-- **The frame of a factory.** -/
theorem factory_frame (hd : FactoryDeployment E w₀) {k : Code} {creation : Bytes}
    (hkept : AllKept E w₀ (c.entered msg s)) (henter : enter msg c.state = some s)
    (hcode : w₀.code msg.self = some ⟨k, creation⟩) (hk : k.isFactory = true)
    (haddress : msg.codeAddress = msg.self) :
    wp (initSpec E w₀ msg.tx) (codeOf E O msg s) (fun _ c' => Resting E w₀ c')
      (c.entered msg s) := by
  have hF : IsFactory w₀ msg.self := ⟨k, creation, hcode, hk⟩
  have hmc := hkept.factories _ hF
  have hzero := hkept.code.codeless 0 E.codeless_zero
  have hruns : (s.code msg.codeAddress).map Contract.code = some k := by
    have hs := hkept.code.code _ (Or.inl hF)
    rw [haddress, show s.code msg.self = w₀.code msg.self from hs, hcode]
    rfl
  have hserved : Order.Served (initSpec E w₀ msg.tx) E k msg (w₀.factories msg.self).masterCopy
      (fun _ c' => Resting E w₀ c') (c.entered msg s) := by
    intro o ho _ hvacant
    have hyoung := young_placed hd hkept henter hcode hk rfl ho hvacant
    refine ⟨⟨rfl, Or.inr ⟨Addressed.callTo _ _ _ _ _, Or.inr (Or.inl ?_)⟩⟩, ?_⟩
    · exact ⟨c.trace, ⟨msg, c.state⟩, _, _, o.initdata, rfl, rfl, hyoung⟩
    · intro ret c' hpost
      have hrest : Resting E w₀ c' := hpost.1 ⟨ret, rfl⟩
      exact hrest.imp id fun h => h.put rfl (fun _ _ => rfl) fun _ _ => ⟨rfl, rfl⟩
  unfold codeOf
  rw [hruns]
  cases k with
  | smartWalletFactory => exact Order.wp_smartWalletFactory_code hmc hzero hserved
  | customSmartWalletFactory => exact Order.wp_customSmartWalletFactory_code hmc hzero hserved
  | relayHub | penalizer | smartWallet | customSmartWallet | proxy | other => cases hk

/-- Writes of a master copy that leave its owner and its logic alone. -/
theorem AllKept.written {f : Wallet → Wallet} (h : AllKept E w₀ c)
    (hf : ∀ wallet, (f wallet).owner = wallet.owner ∧ (f wallet).logic = wallet.logic) :
    AllKept E w₀ (SmartWallet.written msg f c) := by
  have hstored : ∀ mc,
      (Function.update c.state.wallets msg.self (f (c.state.wallets msg.self)) mc).owner =
          (c.state.wallets mc).owner ∧
        (Function.update c.state.wallets msg.self (f (c.state.wallets msg.self)) mc).logic =
          (c.state.wallets mc).logic := by
    intro mc
    by_cases hmc : mc = msg.self
    · subst hmc
      rw [Function.update_self]
      exact hf _
    · rw [Function.update_of_ne hmc]
      exact ⟨rfl, rfl⟩
  exact h.put rfl (fun _ _ => rfl) fun mc _ => hstored mc

/-- **The frame of a master copy** that nobody initialises. -/
theorem masterCopy_frame {k : Code} {creation : Bytes} (hkept : AllKept E w₀ (c.entered msg s))
    (hcode : w₀.code msg.self = some ⟨k, creation⟩) (hk : k.isWallet = true)
    (haddress : msg.codeAddress = msg.self) (hinit : ¬ msg.data.initialises k = true) :
    wp (initSpec E w₀ msg.tx) (codeOf E O msg s) (fun _ c' => Resting E w₀ c')
      (c.entered msg s) := by
  have hM : IsMasterCopy w₀ msg.self := ⟨k, creation, hcode, hk⟩
  have hruns : (s.code msg.codeAddress).map Contract.code = some k := by
    have hs := hkept.code.code _ (Or.inr hM)
    rw [haddress, show s.code msg.self = w₀.code msg.self from hs, hcode]
    rfl
  have hexecuted : Resting E w₀ (SmartWallet.written msg SmartWallet.nextNonce (c.entered msg s)) :=
    Or.inr (hkept.written fun _ => ⟨rfl, rfl⟩)
  have hpay : ∀ req : ForwardRequest,
      (0 < req.tokenAmount → (initSpec E w₀ msg.tx).pre (Wallet.payment msg req)
          (SmartWallet.written msg SmartWallet.nextNonce (c.entered msg s)) ∧
        ∀ ret c', (initSpec E w₀ msg.tx).post (Wallet.payment msg req) (.ok ret)
          (SmartWallet.written msg SmartWallet.nextNonce (c.entered msg s)) c' →
            Resting E w₀ c') ∧
      (¬ 0 < req.tokenAmount →
        Resting E w₀ (SmartWallet.written msg SmartWallet.nextNonce (c.entered msg s))) := by
    intro req
    refine ⟨fun _ => ⟨hexecuted.callTo _ _ _, fun ret c' hpost => ?_⟩, fun _ => hexecuted⟩
    exact hexecuted.back hpost
  unfold codeOf
  rw [hruns]
  cases k with
  | smartWallet =>
      refine SmartWallet.wp_smartWallet_code callsKeep (fun _ _ => Or.inr hkept)
        (fun _ _ req _ _ _ => hpay req) ?_
      intro owner token recipient amount gas hdata
      exact absurd (by rw [hdata]; rfl) hinit
  | customSmartWallet =>
      refine CustomSmartWallet.wp_customSmartWallet_code callsKeep ?_ (fun _ _ => Or.inr hkept)
        (fun _ _ req _ _ _ => hpay req) ?_
      · -- no logic is stored, so nothing is delegated
        intro c' hj hlogic
        rcases hj with hx | hi
        · exact ⟨⟨rfl, Or.inl hx⟩, fun r c'' hpost =>
            Or.inl (KeptUnless.grows Misused.grow hpost.2.continues hx)⟩
        · exact absurd (hi.unowned _ hM).2 hlogic
      · intro owner logic token recipient amount gas params hdata
        exact absurd (by rw [hdata]; rfl) hinit
  | relayHub | penalizer | smartWalletFactory | customSmartWalletFactory | proxy | other =>
      cases hk

/-- **The frame of a new proxy** hands the first call on. -/
theorem placing_frame (h : Placing E w₀ msg c) (henter : enter msg c.state = some s) :
    wp (initSpec E w₀ msg.tx) (codeOf E O msg s) (fun _ c' => Resting E w₀ c')
      (c.entered msg s) := by
  obtain ⟨l, d, a, mc, data, htrace, rfl, hyoung⟩ := h
  have hentered : Young E w₀ d a mc data (c.entered (d.msg.callTo a 0 data) s) :=
    hyoung.entered henter fun hkind => by cases hkind
  have hruns : (s.code a).map Contract.code = some (.proxy mc) := by
    obtain ⟨salt, hcode⟩ := hentered.code
    rw [show s.code a = _ from hcode]
    rfl
  unfold codeOf
  rw [show (d.msg.callTo a 0 data).codeAddress = a from rfl, hruns]
  show wp _ (Proxy.code mc (d.msg.callTo a 0 data)) _ _
  simp only [Proxy.code, wp_bind, wp_send, wp_bubble]
  refine ⟨⟨rfl, Or.inr ⟨⟨?_, ?_⟩, Or.inr (Or.inr ?_)⟩⟩, ?_⟩
  · intro hkind
    exact absurd rfl hkind
  · intro hdeployed
    exact absurd hdeployed hyoung.not_deployed
  · refine ⟨l, d, ⟨d.msg.callTo a 0 data, c.state⟩, a, mc, data, ?_, rfl, rfl, hentered⟩
    rw [Conf.entered_trace, htrace, List.append_assoc]
    rfl
  · rintro r c' ⟨hok, -⟩ ret rfl
    exact hok ⟨ret, rfl⟩

/-- The invariant survives everything that anybody does, short of misuse. -/
theorem kept_unless (hd : FactoryDeployment E w₀) :
    KeptUnless E O w₀ (Misused w₀) (Sendable E w₀) (AllKept E w₀) where
  grow := Misused.grow
  start := by
    refine ⟨⟨fun _ _ => rfl, hd.codeless⟩, fun _ _ => rfl, ?_, by simp, ?_⟩
    · intro mc hmc
      rw [Conf.start_state, hd.unused mc hmc]
      exact ⟨rfl, rfl⟩
    · intro a k creation hk _
      refine ⟨fun hfactory => ⟨k, creation, hk, hfactory⟩,
        fun hwallet => ⟨k, creation, hk, hwallet⟩, ?_⟩
      rintro mc rfl
      exact absurd hk (hd.noProxy a mc creation)
  answered := fun _ m r hi => hi.answered m r
  write := fun c msg s hi hcodeless hw =>
    hi.frameStep rfl (hi.code.not_codeless code_ne_none hcodeless) (FrameStep.outside hw)
  tx := by
    intro _ _ hi _
    exact ⟨⟨fun _ => rfl, fun _ => CallKind.noConfusion⟩, Or.inl hi⟩
  frame := by
    intro c msg s ⟨haddressed, hsend⟩ henter
    have hmsg : msg.kind = .delegatecall → ¬ IsMasterCopy w₀ msg.self :=
      fun hkind hM => haddressed.2 (Or.inr hM) hkind
    by_cases hmisuse : Misused w₀ (c.entered msg s).trace
    · exact wp_misused hmisuse s
    have hlast : ¬ (InitialisesMasterCopy w₀ ⟨msg, c.state⟩ ∨ BorrowsFactory w₀ ⟨msg, c.state⟩) :=
      fun h => hmisuse ⟨⟨msg, c.state⟩, by simp, h⟩
    -- the message finds all wallets settled, or one of them just placed or in its first message
    rcases hsend with hkept | hplacing | hstarting
    · have hentered := hkept.entered henter hmsg
      by_cases hdeployed : Deployed w₀ msg.self
      · have haddress := haddressed.codeAddress hdeployed
        rcases hdeployed with ⟨k, creation, hcode, hk⟩ | ⟨k, creation, hcode, hk⟩
        · exact factory_frame hd hentered henter hcode hk haddress
        · refine masterCopy_frame hentered hcode hk haddress fun hinit => hlast (Or.inl ?_)
          exact ⟨k, creation, hcode, hinit⟩
      · cases hcode : s.code msg.codeAddress with
        | none => exact wp_nothing hcode _ (Or.inr hentered)
        | some contract =>
            -- a factory runs as itself only, unless its code was borrowed
            have hfactory : contract.code.isFactory = false := by
              by_contra hne
              have haccounted := hentered.accounted msg.codeAddress contract.code contract.creation
                hcode fun h => h
              have hF := haccounted.1 (by simpa using hne)
              by_cases hkind : msg.kind = .delegatecall
              · exact hlast (Or.inr ⟨hkind, hF⟩)
              · rw [haddressed.1 hkind] at hF
                exact hdeployed (Or.inl hF)
            exact wp_stranger (by rw [hcode]; rfl) hfactory hdeployed (Or.inr hentered)
    · exact placing_frame hplacing henter
    · have hentered := hstarting.entered henter hmsg
      obtain ⟨l, d, e, a, mc, data, htrace, he, rfl, hyoung⟩ := hstarting
      obtain ⟨k, creation, hcode, hinit⟩ := hyoung.initialises
      have hM : IsMasterCopy w₀ mc := by
        refine ⟨k, creation, hcode, ?_⟩
        cases k with
        | smartWallet | customSmartWallet => rfl
        | relayHub | penalizer | smartWalletFactory | customSmartWalletFactory | proxy | other =>
            cases hinit
      have hruns : (s.code mc).map Contract.code = some k := by
        have hs := hentered.code.code mc (Or.inr hM)
        rw [show s.code mc = w₀.code mc from hs, hcode]
        rfl
      have hself : (e.msg.delegatecallTo mc data).self = a := by
        show e.msg.self = a
        rw [he]
        rfl
      refine wp_stranger hruns ?_ (by rw [hself]; exact hyoung.not_deployed) (Or.inr hentered)
      cases k with
      | smartWallet | customSmartWallet => rfl
      | relayHub | penalizer | smartWalletFactory | customSmartWalletFactory | proxy | other =>
          cases hinit

end Frames

/-- What the invariant says of the wallets. -/
theorem Kept.initialised {E : Env} {w₀ : World χ} {young : Address → Prop} {c : ChainConf χ}
    {point : Option Msg} (h : Kept E w₀ young c)
    (hyoung : ∀ a, young a → (c.state.wallets a).owner = 0)
    (hpoint : ∀ m, point = some m → m.kind = .delegatecall → ¬ IsMasterCopy w₀ m.self) :
    InitialisedByFactory E w₀ point c where
  wallets := by
    intro a k creation hcode hk howner
    obtain ⟨-, hwallet, hproxy⟩ := h.accounted a k creation hcode fun ha => howner (hyoung a ha)
    rcases hk with hk | ⟨mc, rfl⟩
    · exact absurd (h.unowned a (hwallet hk)).1 howner
    · exact ⟨mc, rfl, hproxy mc rfl⟩
  masterCopies := fun mc hmc => ⟨h.code.code mc (Or.inr hmc), h.unowned mc hmc⟩
  delegates := by
    intro mc hmc
    constructor
    · rintro e he hkind rfl
      exact h.delegates e he hkind hmc
    · rintro m hm hkind rfl
      exact hpoint m hm hkind hmc

end Initialisation

section Main

open Initialisation

/-- **Wallets are initialised only by their factory, if nobody initialises a master copy.** At
every point of every run in which no master copy has received the message `initialize`, and
the code of the factories has only run in their own accounts. -/
theorem initialised_by_factory {E : Env} {O : Outside E χ} {w₀ : World χ}
    (hd : FactoryDeployment E w₀) {b : Word} {point : Option Msg} {c : ChainConf χ}
    (hc : Point E O w₀ b point c) (hborrowed : ∀ e ∈ c.trace, ¬ BorrowsFactory w₀ e)
    (hmasterCopies : ∀ e ∈ c.trace, ¬ InitialisesMasterCopy w₀ e) :
    InitialisedByFactory E w₀ point c := by
  rcases (kept_unless hd).point hc with
    ⟨e, he, hmisuse | hmisuse⟩ | ⟨rfl, hkept⟩ | ⟨m, rfl, hm, hsend⟩
  · exact absurd hmisuse (hmasterCopies e he)
  · exact absurd hmisuse (hborrowed e he)
  · exact hkept.initialised (fun _ h => h.elim) fun m hm => by cases hm
  · have hpoint : ∀ m', some m = some m' → m'.kind = .delegatecall → ¬ IsMasterCopy w₀ m'.self := by
      rintro m' heq hkind hM
      obtain rfl := Option.some.inj heq
      exact hm.2 (Or.inr hM) hkind
    have hyoung : ∀ d a mc data, Young E w₀ d a mc data c →
        InitialisedByFactory E w₀ (some m) c := by
      intro d a mc data hy
      refine hy.kept.initialised (fun b hb => ?_) hpoint
      rw [hb, hy.storage]
      rfl
    rcases hsend with hkept | ⟨_, d, a, mc, data, _, _, hy⟩ | ⟨_, d, _, a, mc, data, _, _, _, hy⟩
    · exact hkept.initialised (fun _ h => h.elim) hpoint
    · exact hyoung d a mc data hy
    · exact hyoung d a mc data hy

end Main

/-! A factory at `0xfa` over the wallet at `0xc0`, which creates a wallet for `keyOwner`. -/

namespace Initialisation

def keyOwner : Address := 0x2b5ad5c4795c026514f8317c7a215e218dccd6cf

def creationHash : Word := 0xe72ced55e623f6850a5bdddfbea3a9e156dfdf037b526f10eb607b51c2c0e203

def creationSignature : Bytes :=
  wordBytes 0xb568319ac8ab9bfe3efd6036bccdd47bd6b9b967feeeee20f77bbc997d96de9b ++
    wordBytes 0x3f34aabb6f719bcec0d9725c44fdda987e3b12d00cd75c15193de4acd0049073 ++ [0x1c]

def newSalt : Word := 0x339a007c262adb45985c89df9c238c0eadd0ae5c1b1ad7cab6204128200a8253

def newCode : Word := 0xe6127f803aa661397c0713b850388eb0a90906323219a0cc8e6bd3ae5566664b

def newWallet : Address := 0xf30d37f28e5fd0bdb599c7a2e7b7633ee55ee972

def creationHashes : List (Bytes × Word) :=
  [(addressBytes keyOwner, 0x94a6fc29a44456b36232638a7042431c9c91b910df1c52187179085fac1560e9),
    (SmartWalletFactory.creationString keyOwner 0x0b 7, creationHash),
    (addressBytes keyOwner ++ (addressBytes 0x0b ++ wordBytes 7), newSalt),
    (Proxy.creationBytecode 0xc0, newCode),
    (Proxy.create2String 0xfa newSalt newCode,
      0xdbcf6beea0ee8080e21e4777f30d37f28e5fd0bdb599c7a2e7b7633ee55ee972)]

def creationEnv : Env :=
  Env.ofKeys (hashTable creationHashes)
    (recoverTable [((creationHash, creationSignature), keyOwner)]) .other [0x0a]

def creationCode (a : Address) : Option Contract :=
  if a = 0xfa then some ⟨.smartWalletFactory, []⟩
  else if a = 0xc0 then some ⟨.smartWallet, []⟩
  else none

def creationWorld : World Unit :=
  { World.ofContracts 0x0a 0 creationCode with factories := fun _ => ⟨0xc0, fun _ => 0⟩ }

def creationTx : Tx :=
  ⟨0x0a, 1, 10, 0xfa, 0, .createUserSmartWallet keyOwner 0x0b 7 creationSignature, 100000⟩

def createdRun : ChainConf Unit :=
  creationTx.run creationEnv (Outside.silent creationEnv) 8 (Conf.start creationWorld)

theorem createdRun_settled :
    Settled creationEnv (Outside.silent creationEnv) creationWorld 10 createdRun :=
  .call (.start 10) creationTx 8 (by decide) (by decide)

/-- The contracts of a chain with one factory and one master copy. -/
theorem creationCode_cases {a : Address} {k : Code} {creation : Bytes}
    (h : creationCode a = some ⟨k, creation⟩) :
    (a = 0xfa ∧ k = .smartWalletFactory) ∨ (a = 0xc0 ∧ k = .smartWallet) := by
  unfold creationCode at h
  split at h
  next ha => exact Or.inl ⟨ha, (Contract.mk.inj (Option.some.inj h)).1.symm⟩
  next =>
    split at h
    next ha => exact Or.inr ⟨ha, (Contract.mk.inj (Option.some.inj h)).1.symm⟩
    next => cases h

theorem creationWorld_deployment : FactoryDeployment creationEnv creationWorld where
  masterCopy := by
    intro F k creation hcode hk
    rcases creationCode_cases hcode with ⟨-, rfl⟩ | ⟨-, rfl⟩
    · exact ⟨.smartWallet, [], rfl, rfl⟩
    · cases hk
  unused := fun _ _ => rfl
  noProxy := by
    intro a mc creation hcode
    rcases creationCode_cases hcode with ⟨-, h⟩ | ⟨-, h⟩
    · cases h
    · cases h
  codeless := by
    have hkeys : ∀ a ∈ [0, 0x0a], creationCode a = none := by simp [creationCode]
    exact World.codeless_ofKeys hkeys

theorem createdRun_calls : ∀ e ∈ createdRun.trace, e.msg.self ≠ 0xc0 ∧
    (e.msg.kind = .delegatecall → e.msg.codeAddress ≠ 0xfa) := by
  decide +kernel

end Initialisation

section Created

open Initialisation

/-- The new wallet has an owner. -/
theorem initialised_by_factory_created :
    InitialisedByFactory creationEnv creationWorld none createdRun ∧
      (createdRun.state.wallets newWallet).owner ≠ 0 := by
  refine ⟨initialised_by_factory creationWorld_deployment (Point.settled createdRun_settled) ?_ ?_,
    by decide +kernel⟩
  · rintro e he ⟨hkind, k, creation, hcode, hk⟩
    rcases creationCode_cases hcode with ⟨haddress, -⟩ | ⟨-, rfl⟩
    · exact (createdRun_calls e he).2 hkind haddress
    · cases hk
  · rintro e he ⟨k, creation, hcode, hinit⟩
    rcases creationCode_cases hcode with ⟨-, rfl⟩ | ⟨hself, -⟩
    · cases hinit
    · exact (createdRun_calls e he).1 hself

end Created

/-! The same with a custom factory at `0xfb` over the wallet at `0xc1`. Somebody calls
`initialize` of the master copy with a logic that destroys the account it runs in. -/

namespace Initialisation

def takenEnv : Env :=
  Env.ofKeys (hashTable [(addressBytes 0x0a,
    0xd9ed35852650f28d7a8f73c7ba49bcd72d97edf8d731797e5a2728559b865552)]) (fun _ _ => .error "")
    .other [0x0a]

/-- Contracts from outside destroy every account they run in by a delegate call. -/
def destroyer : Outside takenEnv Unit where
  code := fun msg _ =>
    if msg.kind = .delegatecall then
      .update (fun w => { w with code := Function.update w.code msg.self none }) (.ret [])
    else .ret []
  cost := fun _ _ => 0
  within := by
    intro msg _
    exact Prog.Within.ite _ _ ⟨fun _ => OutsideStep.destroy, trivial⟩ trivial

def takenCode (a : Address) : Option Contract :=
  if a = 0xfb then some ⟨.customSmartWalletFactory, []⟩
  else if a = 0xc1 then some ⟨.customSmartWallet, []⟩
  else if a = 0x66 then some ⟨.other, []⟩
  else none

def takenWorld : World Unit :=
  { World.ofContracts 0x0a 0 takenCode with factories := fun _ => ⟨0xc1, fun _ => 0⟩ }

def takenTx : Tx :=
  ⟨0x0a, 1, 10, 0xc1, 0, .initializeCustomWallet 0x0a 0x66 0 0 0 0 [], 100000⟩

def takenRun : ChainConf Unit := takenTx.run takenEnv destroyer 8 (Conf.start takenWorld)

theorem takenCode_cases {a : Address} {k : Code} {creation : Bytes}
    (h : takenCode a = some ⟨k, creation⟩) :
    (a = 0xfb ∧ k = .customSmartWalletFactory) ∨ (a = 0xc1 ∧ k = .customSmartWallet) ∨
      (a = 0x66 ∧ k = .other) := by
  unfold takenCode at h
  split at h
  next ha => exact Or.inl ⟨ha, (Contract.mk.inj (Option.some.inj h)).1.symm⟩
  next =>
    split at h
    next ha => exact Or.inr (Or.inl ⟨ha, (Contract.mk.inj (Option.some.inj h)).1.symm⟩)
    next =>
      split at h
      next ha => exact Or.inr (Or.inr ⟨ha, (Contract.mk.inj (Option.some.inj h)).1.symm⟩)
      next => cases h

theorem takenWorld_deployment : FactoryDeployment takenEnv takenWorld where
  masterCopy := by
    intro F k creation hcode hk
    rcases takenCode_cases hcode with ⟨-, rfl⟩ | ⟨-, rfl⟩ | ⟨-, rfl⟩
    · exact ⟨.customSmartWallet, [], rfl, rfl⟩
    · cases hk
    · cases hk
  unused := fun _ _ => rfl
  noProxy := by
    intro a mc creation hcode
    rcases takenCode_cases hcode with ⟨-, h⟩ | ⟨-, h⟩ | ⟨-, h⟩
    · cases h
    · cases h
    · cases h
  codeless := by
    have hkeys : ∀ a ∈ [0, 0x0a], takenCode a = none := by simp [takenCode]
    exact World.codeless_ofKeys hkeys

theorem takenRun_calls : ∀ e ∈ takenRun.trace,
    e.msg.kind = .delegatecall → e.msg.codeAddress ≠ 0xfb := by
  decide +kernel

end Initialisation

section Taken

open Initialisation

/-- **Anybody can take over a master copy.** A single transaction gives the master copy an
owner and a logic, has it run that logic by a delegate call, and leaves it without code. -/
theorem masterCopy_taken :
    FactoryDeployment takenEnv takenWorld ∧
      Point takenEnv destroyer takenWorld 10 none takenRun ∧
      (∀ e ∈ takenRun.trace, ¬ BorrowsFactory takenWorld e) ∧
      takenRun.state.wallets 0xc1 =
        ⟨0, 0xd9ed35852650f28d7a8f73c7ba49bcd72d97edf8d731797e5a2728559b865552, 0x66⟩ ∧
      (∃ e ∈ takenRun.trace, e.msg.kind = .delegatecall ∧ e.msg.self = 0xc1 ∧
        e.msg.codeAddress = 0x66) ∧
      takenRun.state.code 0xc1 = none ∧
      ¬ InitialisedByFactory takenEnv takenWorld none takenRun := by
  have hcode : takenRun.state.code 0xc1 = none := by decide +kernel
  refine ⟨takenWorld_deployment,
    Point.settled (.call (.start 10) takenTx 8 (by decide) (by decide)), ?_, by decide +kernel,
    by decide +kernel, hcode, ?_⟩
  · rintro e he ⟨hkind, k, creation, hk, hfactory⟩
    rcases takenCode_cases hk with ⟨haddress, -⟩ | ⟨-, rfl⟩ | ⟨-, rfl⟩
    · exact takenRun_calls e he hkind haddress
    · cases hfactory
    · cases hfactory
  · intro h
    have hkept := (h.masterCopies 0xc1 ⟨.customSmartWallet, [], rfl, rfl⟩).1
    rw [hcode] at hkept
    cases hkept

end Taken

end RifRelay
