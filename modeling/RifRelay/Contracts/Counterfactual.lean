import RifRelay.Contracts.CustomWalletSpec
import RifRelay.Contracts.Initialisation
import RifRelay.Contracts.Unless
import RifRelay.Contracts.WalletPlans

set_option autoImplicit false

/-! # Wallets belong to their owner before they exist

For every run of a factory, and every plan of a wallet: what stands at its address was put
there by the factory, in a call that the owner has permitted, and belongs to the owner from
the moment it is initialised on (`counterfactual_ownership`).

The hash, cut to an address, is assumed to separate the strings of the wallet and of the run
(`hashed`); as long as it does, nothing else can stand at the address (`Collided`). Code from
outside that runs in the account of the wallet or of the master copy by a delegate call is
assumed to leave the owner and the code there alone (`LogicKeeps`).
-/

namespace RifRelay

open CallMachine IForwarder

variable {χ : Type}

/-- Outside code that runs in the wallet by a delegate call, a custom logic, does not write
the owner slot and does not destroy the wallet, and none destroys the master copy. -/
structure LogicKeeps {E : Env} (O : Outside E χ) (wallet masterCopy : Address) : Prop where
  wallet : ∀ msg w, msg.kind = .delegatecall → msg.self = wallet →
    (O.code msg w).Within (fun w w' => (w'.wallets wallet).owner = (w.wallets wallet).owner ∧
      w'.code wallet = w.code wallet) (fun _ => True)
  masterCopy : ∀ msg w, msg.kind = .delegatecall → msg.self = masterCopy →
    (O.code msg w).Within (fun w w' => w'.code masterCopy = w.code masterCopy) (fun _ => True)

namespace Counterfactual

/-- The factory and its master copy stand, and the wallet does not exist yet. -/
structure Prepared (E : Env) (w₀ : World χ) (T : Site) : Prop where
  factory : ∃ creation, w₀.code T.factory = some ⟨T.plan.kind, creation⟩
  template : ∃ t creation, T.plan.kind.template = some t ∧
    w₀.code T.masterCopy = some ⟨t, creation⟩
  masterCopy : (w₀.factories T.factory).masterCopy = T.masterCopy
  vacant : w₀.code (T.address E) = none
  codeless : ∀ a, E.codeless a = true → w₀.code a = none

/-! ## Foundings -/

/-- The entry is a call of the factory for this wallet. -/
def Creates (E : Env) (T : Site) (e : Entry (World χ) Msg) : Prop :=
  e.msg.self = T.factory ∧ WalletPlan.parse E T.plan.kind e.msg.data = some T.plan

/-- The call creates the wallet: it was permitted, and nothing stood at the address. -/
structure Founding (E : Env) (T : Site) (e : Entry (World χ) Msg) : Prop where
  creates : Creates E T e
  vacant : e.pre.code (T.address E) = none
  permitted : ∃ o, Order.parse E T.plan.kind e.msg = some o ∧
    o.Permitted E e.msg (e.pre.factories T.factory)

/-- The history has one call for this wallet. -/
def Founded (E : Env) (T : Site) (trace : List (Entry (World χ) Msg)) : Prop :=
  ∃ l₁ d l₂, trace = l₁ ++ d :: l₂ ∧ Founding E T d ∧ ∀ e ∈ l₁ ++ l₂, ¬ Creates E T e

/-- A contract that stands at the address of the wallet, but is not the wallet. -/
def Foreign (E : Env) (T : Site) (contract : Contract) : Prop :=
  contract.creation ≠ T.string E ∧ T.address E = E.createdAddress contract.creation

/-- The wallet does not exist. -/
structure Awaited (E : Env) (T : Site) (c : ChainConf χ) : Prop where
  unfounded : ∀ e ∈ c.trace, ¬ Creates E T e
  code : ∀ contract, c.state.code (T.address E) = some contract → Foreign E T contract

/-- The wallet exists and belongs to its owner. -/
structure Standing (E : Env) (T : Site) (c : ChainConf χ) : Prop where
  code : c.state.code (T.address E) = some (T.proxy E)
  owner : (c.state.wallets (T.address E)).owner = Wallet.ownerCell E T.plan.owner
  founded : Founded E T c.trace

/-- The accounts of the factory and of its master copy. -/
def Base (T : Site) (a : Address) : Prop := a = T.factory ∨ a = T.masterCopy

/-- The invariant. -/
structure Kept (E : Env) (w₀ : World χ) (T : Site) (c : ChainConf χ) : Prop where
  code : CodeKept E w₀ (Base T) c.state
  masterCopy : (c.state.factories T.factory).masterCopy = T.masterCopy
  wallet : Awaited E T c ∨ Standing E T c

/-- Two strings of the run have one hash: at the address of the wallet stood something else,
or the factory was called for another wallet with this address. -/
def Collided (E : Env) (T : Site) (trace : List (Entry (World χ) Msg)) : Prop :=
  ∃ e ∈ trace,
    (∃ contract, e.pre.code (T.address E) = some contract ∧ Foreign E T contract) ∨
    (e.msg.self = T.factory ∧ ∃ p, WalletPlan.parse E T.plan.kind e.msg.data = some p ∧
      p ≠ T.plan ∧ ({ T with plan := p } : Site).string E = T.string E)

/-- The proxy was created in the call `d` and is still to be initialised with `data`. -/
structure Young (E : Env) (w₀ : World χ) (T : Site) (d : Entry (World χ) Msg) (data : CallData)
    (c : ChainConf χ) : Prop where
  code : CodeKept E w₀ (Base T) c.state
  masterCopy : (c.state.factories T.factory).masterCopy = T.masterCopy
  proxy : c.state.code (T.address E) = some (T.proxy E)
  storage : c.state.wallets (T.address E) = Wallet.zero
  founding : Founding E T d
  init : T.plan.InitData data

/-- The factory calls the new proxy. -/
def Placing (E : Env) (w₀ : World χ) (T : Site) (msg : Msg) (c : ChainConf χ) : Prop :=
  ∃ l d data, c.trace = l ++ [d] ∧ (∀ e ∈ l, ¬ Creates E T e) ∧
    msg = d.msg.callTo (T.address E) 0 data ∧ Young E w₀ T d data c

/-- The proxy hands this call on to the code of the master copy. -/
def Starting (E : Env) (w₀ : World χ) (T : Site) (msg : Msg) (c : ChainConf χ) : Prop :=
  ∃ l d e data, c.trace = l ++ [d, e] ∧ (∀ e ∈ l, ¬ Creates E T e) ∧
    e.msg = d.msg.callTo (T.address E) 0 data ∧ msg = e.msg.delegatecallTo T.masterCopy data ∧
    Young E w₀ T d data c

/-- How messages reach the factory and the wallet. -/
structure Proper (E : Env) (T : Site) (msg : Msg) (trace : List (Entry (World χ) Msg)) : Prop where
  addressed : Addressed (· = T.factory) msg
  founded : msg.self = T.address E → msg.kind = .delegatecall → ∃ e ∈ trace, Creates E T e

/-- What every message is sent under. -/
def Sendable (E : Env) (w₀ : World χ) (T : Site) (msg : Msg) (c : ChainConf χ) : Prop :=
  Proper E T msg c.trace ∧ (Kept E w₀ T c ∨ Placing E w₀ T msg c ∨ Starting E w₀ T msg c)

section Invariant

variable {E : Env} {w₀ : World χ} {T : Site} {c : ChainConf χ} {msg : Msg} {s w : World χ}

theorem Collided.grow (l l' : List (Entry (World χ) Msg)) (h : Collided E T l) :
    Collided E T (l ++ l') := by
  obtain ⟨e, he, hcollision⟩ := h
  exact ⟨e, List.mem_append_left _ he, hcollision⟩

theorem Founded.creates {trace : List (Entry (World χ) Msg)} (h : Founded E T trace) :
    ∃ e ∈ trace, Creates E T e := by
  obtain ⟨l₁, d, l₂, rfl, hd, -⟩ := h
  exact ⟨d, by simp, hd.creates⟩

theorem Founded.snoc {trace : List (Entry (World χ) Msg)} (h : Founded E T trace)
    {e : Entry (World χ) Msg} (he : ¬ Creates E T e) : Founded E T (trace ++ [e]) := by
  obtain ⟨l₁, d, l₂, rfl, hd, hothers⟩ := h
  refine ⟨l₁, d, l₂ ++ [e], by simp, hd, ?_⟩
  intro x hx
  rw [← List.append_assoc] at hx
  rcases List.mem_append.mp hx with hx | hx
  · exact hothers x hx
  · obtain rfl := List.mem_singleton.mp hx
    exact he

/-- A wallet that was founded stands. -/
theorem Kept.standing (h : Kept E w₀ T c) (hfounded : ∃ e ∈ c.trace, Creates E T e) :
    Standing E T c := by
  rcases h.wallet with hawaited | hstanding
  · obtain ⟨e, he, hcreates⟩ := hfounded
    exact absurd hcreates (hawaited.unfounded e he)
  · exact hstanding

theorem base_ne_none (hp : Prepared E w₀ T) (a : Address) (ha : Base T a) : w₀.code a ≠ none := by
  obtain ⟨creation, hF⟩ := hp.factory
  obtain ⟨t, creation', -, hmc⟩ := hp.template
  rcases ha with rfl | rfl
  · simp [hF]
  · simp [hmc]

/-- The factory, its master copy and the wallet are three accounts. -/
theorem Prepared.distinct (hp : Prepared E w₀ T) :
    T.masterCopy ≠ T.factory ∧ T.address E ≠ T.factory ∧ T.address E ≠ T.masterCopy := by
  refine ⟨?_, ?_, ?_⟩
  · intro heq
    obtain ⟨creation, hF⟩ := hp.factory
    obtain ⟨t, creation', ht, hmc⟩ := hp.template
    rw [heq, hF] at hmc
    obtain ⟨rfl, -⟩ := Contract.mk.inj (Option.some.inj hmc)
    cases hplan : T.plan with
    | plain => rw [hplan] at ht; cases ht
    | custom => rw [hplan] at ht; cases ht
  · intro heq
    exact base_ne_none hp _ (Or.inl rfl) (heq ▸ hp.vacant)
  · intro heq
    exact base_ne_none hp _ (Or.inr rfl) (heq ▸ hp.vacant)

/-- Writes that leave the base and the wallet alone. -/
theorem Kept.put (h : Kept E w₀ T c) (hcode : w.code = c.state.code)
    (hfactory : (w.factories T.factory).masterCopy = (c.state.factories T.factory).masterCopy)
    (howner : (w.wallets (T.address E)).owner = (c.state.wallets (T.address E)).owner) :
    Kept E w₀ T (c.put w) where
  code := h.code.congr hcode
  masterCopy := hfactory.trans h.masterCopy
  wallet := by
    rcases h.wallet with hawaited | hstanding
    · exact Or.inl ⟨hawaited.unfounded, by rw [Conf.put_state, hcode]; exact hawaited.code⟩
    · refine Or.inr ⟨?_, howner.trans hstanding.owner, hstanding.founded⟩
      rw [Conf.put_state, hcode]
      exact hstanding.code

theorem Kept.entered (h : Kept E w₀ T c) (henter : enter msg c.state = some s)
    (hmsg : ¬ Creates E T (⟨msg, c.state⟩ : Entry (World χ) Msg)) :
    Kept E w₀ T (c.entered msg s) := by
  obtain ⟨b, rfl, -⟩ := enter_frame henter
  refine ⟨h.code.congr rfl, h.masterCopy, ?_⟩
  rcases h.wallet with hawaited | hstanding
  · refine Or.inl ⟨?_, hawaited.code⟩
    intro e he
    rcases List.mem_append.mp he with he | he
    · exact hawaited.unfounded e he
    · obtain rfl := List.mem_singleton.mp he
      exact hmsg
  · exact Or.inr ⟨hstanding.code, hstanding.owner, hstanding.founded.snoc hmsg⟩

theorem Kept.answered (h : Kept E w₀ T c) (m : Msg) (r : Except Revert Bytes) :
    Kept E w₀ T (c.answered m r) := by
  refine ⟨h.code, h.masterCopy, ?_⟩
  rcases h.wallet with hawaited | hstanding
  · exact Or.inl ⟨hawaited.unfounded, hawaited.code⟩
  · exact Or.inr ⟨hstanding.code, hstanding.owner, hstanding.founded⟩

/-- A write in an account other than the factory. In its own account the master copy keeps its
code, and the wallet its code and owner. -/
theorem Kept.write (hp : Prepared E w₀ T) (h : Kept E w₀ T c) (hw : LocalStep E msg c.state w)
    (hfactory : msg.self ≠ T.factory)
    (hmasterCopy : msg.self = T.masterCopy → w.code T.masterCopy = c.state.code T.masterCopy)
    (hawaited : msg.self = T.address E → Awaited E T c →
      ∀ contract, w.code (T.address E) = some contract → Foreign E T contract)
    (hstanding : msg.self = T.address E → Standing E T c →
      w.code (T.address E) = c.state.code (T.address E) ∧
        (w.wallets (T.address E)).owner = (c.state.wallets (T.address E)).owner) :
    Kept E w₀ T (c.put w) := by
  refine ⟨h.code.write (base_ne_none hp) ?_ hw, ?_, ?_⟩
  · rintro (hself | hself)
    · exact absurd hself hfactory
    · rw [hself]
      exact hmasterCopy hself
  · rw [Conf.put_state, hw.factories _ (Ne.symm hfactory)]
    exact h.masterCopy
  · by_cases hself : msg.self = T.address E
    · rcases h.wallet with ha | hs
      · exact Or.inl ⟨ha.unfounded, hawaited hself ha⟩
      · obtain ⟨hcode, howner⟩ := hstanding hself hs
        exact Or.inr ⟨hcode.trans hs.code, howner.trans hs.owner, hs.founded⟩
    · rcases h.wallet with ha | hs
      · refine Or.inl ⟨ha.unfounded, fun contract hcontract => ?_⟩
        rcases hw.code (T.address E) with heq | ⟨heq, -⟩ | ⟨-, k, hk, hcreation, haddress⟩
        · exact ha.code contract (heq.symm.trans hcontract)
        · exact absurd heq.symm hself
        · obtain rfl : k = contract := Option.some.inj (hk.symm.trans hcontract)
          exact ⟨T.creation_ne E hcreation hfactory, haddress⟩
      · have hne : ¬ c.state.Vacant E (T.address E) := by
          rintro ⟨hnone, -⟩
          rw [hs.code] at hnone
          cases hnone
        refine Or.inr ⟨?_, ?_, hs.founded⟩
        · rcases hw.code (T.address E) with heq | ⟨heq, -⟩ | ⟨hvacant, -⟩
          · exact heq.trans hs.code
          · exact absurd heq.symm hself
          · exact absurd hvacant hne
        · rcases hw.wallets _ (Ne.symm hself) with heq | ⟨hvacant, -⟩
          · rw [Conf.put_state, heq]
            exact hs.owner
          · exact absurd hvacant hne

/-- The code of the repository does not remove the code of the account it runs in, and only
the code of wallets writes its wallet storage. -/
theorem frameStep_self {k : Code} (h : FrameStep E msg w k s) (hk : k ≠ .other)
    (hcode : w.code msg.self ≠ none) : s.code msg.self = w.code msg.self ∧
      (k.isWallet = false → s.wallets msg.self = w.wallets msg.self) := by
  cases h with
  | idle | log | hub | penalizer | factory => exact ⟨rfl, fun _ => rfl⟩
  | wallet _ _ hwallet =>
      refine ⟨rfl, fun hfalse => ?_⟩
      rw [hwallet] at hfalse
      cases hfalse
  | create _ _ creation _ _ hvacant =>
      have hne : msg.self ≠ E.createdAddress creation := by
        intro heq
        exact hcode (heq ▸ hvacant.1)
      exact ⟨Function.update_of_ne hne _ _, fun _ => Function.update_of_ne hne _ _⟩
  | outside => exact absurd rfl hk

/-- The account of the wallet does not belong to the base, and its proxy is no contract from
outside. -/
theorem Young.entered {d : Entry (World χ) Msg} {data : CallData} (h : Young E w₀ T d data c)
    (henter : enter msg c.state = some s) : Young E w₀ T d data (c.entered msg s) := by
  obtain ⟨b, rfl, -⟩ := enter_frame henter
  exact ⟨h.code.congr rfl, h.masterCopy, h.proxy, h.storage, h.founding, h.init⟩

end Invariant

/-! ## The frames -/

/-- The specification of all messages of a transaction. -/
abbrev ownerSpec (E : Env) (w₀ : World χ) (T : Site) (t : TxContext) :
    Spec (World χ) Msg Revert Bytes :=
  (unlessSpec (Collided E T) (Sendable E w₀ T) (Kept E w₀ T) t).tracked

/-- What holds between the messages of a frame of any account. -/
def Resting (E : Env) (w₀ : World χ) (T : Site) (c : ChainConf χ) : Prop :=
  Collided E T c.trace ∨ Kept E w₀ T c

/-- What holds between the messages of a frame of the wallet. -/
def Owned (E : Env) (w₀ : World χ) (T : Site) (c : ChainConf χ) : Prop :=
  Collided E T c.trace ∨ (Kept E w₀ T c ∧ ∃ e ∈ c.trace, Creates E T e)

section Frames

variable {E : Env} {O : Outside E χ} {w₀ : World χ} {T : Site} {c : ChainConf χ} {msg : Msg}
  {s : World χ}

theorem Owned.resting (h : Owned E w₀ T c) : Resting E w₀ T c := h.imp id And.left

theorem Resting.back {m : Msg} {r : Except Revert Bytes} {c' : ChainConf χ} {t : TxContext}
    (h : Resting E w₀ T c) (hpost : (ownerSpec E w₀ T t).post m r c c') : Resting E w₀ T c' :=
  KeptUnless.back (fun _ m r hi => hi.answered m r) h hpost

theorem Owned.back {m : Msg} {r : Except Revert Bytes} {c' : ChainConf χ} {t : TxContext}
    (h : Owned E w₀ T c) (hpost : (ownerSpec E w₀ T t).post m r c c') : Owned E w₀ T c' := by
  rcases h with hx | ⟨hkept, e, he, hcreates⟩
  · exact Or.inl (KeptUnless.grows Collided.grow hpost.2.continues hx)
  · refine (Resting.back (Or.inr hkept) hpost).imp id fun hkept' => ⟨hkept', e, ?_, hcreates⟩
    exact hpost.2.continues.1.subset he

/-- After a collision nothing is claimed any more. -/
theorem wp_collided (h : Collided E T c.trace) (w : World χ) :
    wp (ownerSpec E w₀ T msg.tx) (codeOf E O msg w) (fun _ c' => Resting E w₀ T c') c := by
  refine wp_mono _ (fun _ _ hx => Or.inl hx) _ _
    (wp_foreign (J := fun c' => Collided E T c'.trace) (fun _ _ hj _ => hj) ?_ ?_ _ h)
  · intro m c' hm hj
    exact ⟨hm.1, Or.inl hj⟩
  · intro m r c₁ c₂ _ hj hpost
    exact KeptUnless.grows Collided.grow hpost.2.continues hj

/-! ### Accounts other than the factory and the wallet -/

/-- The rule for these frames: what is left to show is that the code in the frame keeps the
code of the master copy, should it run there. -/
theorem wp_stranger (hp : Prepared E w₀ T) {R : World χ → World χ → Prop} {p : Sol χ Bytes}
    (hbound : p.Within R (LocalCall msg))
    (hlocal : ∀ w w', R w w' → LocalStep E msg w w')
    (hmasterCopy : ∀ w w', msg.self = T.masterCopy → w.code T.masterCopy ≠ none → R w w' →
      w'.code T.masterCopy = w.code T.masterCopy)
    (hfactory : msg.self ≠ T.factory) (hwallet : msg.self ≠ T.address E)
    (hc : Resting E w₀ T c) :
    wp (ownerSpec E w₀ T msg.tx) p (fun _ c' => Resting E w₀ T c') c := by
  refine wp_within ?_ ?_ ?_ hbound c hc
  · intro c' w hj hstep
    refine hj.imp id fun hkept => hkept.write hp (hlocal _ _ hstep) hfactory ?_
      (fun hself => absurd hself hwallet) (fun hself => absurd hself hwallet)
    intro hself
    refine hmasterCopy _ _ hself ?_ hstep
    rw [hkept.code.code _ (Or.inr rfl)]
    exact base_ne_none hp _ (Or.inr rfl)
  · intro m c' hm hj
    refine ⟨hm.1, hj.imp id fun hkept => ⟨⟨Addressed.of_local hfactory hm, ?_⟩, Or.inl hkept⟩⟩
    intro hself hkind
    rcases hm.2 with ⟨-, heq, -⟩ | ⟨hne, -⟩
    · exact absurd (heq.symm.trans hself) hwallet
    · exact absurd hkind hne
  · intro m r c' c'' _ hj hpost
    exact hj.back hpost

theorem stranger_frame (hp : Prepared E w₀ T) (hlogic : LogicKeeps O (T.address E) T.masterCopy)
    (haddressed : Addressed (· = T.factory) msg) (hfactory : msg.self ≠ T.factory)
    (hwallet : msg.self ≠ T.address E) (hkept : Kept E w₀ T (c.entered msg s)) :
    wp (ownerSpec E w₀ T msg.tx) (codeOf E O msg s) (fun _ c' => Resting E w₀ T c')
      (c.entered msg s) := by
  cases hcode : s.code msg.codeAddress with
  | none => exact wp_nothing hcode _ (Or.inr hkept)
  | some contract =>
      have hk : (s.code msg.codeAddress).map Contract.code = some contract.code := by
        rw [hcode]
        rfl
      by_cases hother : contract.code = .other ∧ msg.self = T.masterCopy
      · -- outside code in the account of the master copy: a delegate call
        obtain ⟨hout, hself⟩ := hother
        have hkind : msg.kind = .delegatecall := by
          by_contra hkind
          obtain ⟨t, creation, ht, htemplate⟩ := hp.template
          have hmc := hkept.code.code T.masterCopy (Or.inr rfl)
          rw [haddressed.1 hkind, hself, show s.code T.masterCopy = _ from hmc, htemplate] at hcode
          obtain rfl := Option.some.inj hcode
          obtain rfl : t = .other := hout
          cases hplan : T.plan with
          | plain => rw [hplan] at ht; cases ht
          | custom => rw [hplan] at ht; cases ht
        have hruns : codeOf E O msg s = O.code msg s := by
          unfold codeOf
          rw [hk, hout]
        rw [hruns]
        have hbound := (O.within msg s).and (hlogic.masterCopy msg s hkind hself)
        refine wp_stranger hp (hbound.mono (fun _ _ h => h) fun _ h => h.1) ?_ ?_ hfactory
          hwallet (Or.inr hkept)
        · intro w w' h
          exact LocalStep.of_outside h.1
        · intro w w' _ _ h
          exact h.2
      · refine wp_stranger hp (local_codeOf E msg O s hk) (fun _ _ h => h.localStep) ?_ hfactory
          hwallet (Or.inr hkept)
        intro w w' hself hne hstep
        rw [← hself] at hne ⊢
        exact (frameStep_self hstep (fun hout => hother ⟨hout, hself⟩) hne).1

/-! ### The wallet -/

/-- Messages from the wallet. -/
theorem Owned.local_call (hwallet : msg.self ≠ T.factory) (h : Owned E w₀ T c) {m : Msg}
    (hm : LocalCall msg m) : (ownerSpec E w₀ T msg.tx).pre m c := by
  refine ⟨hm.1, h.imp id fun hj => ⟨⟨Addressed.of_local hwallet hm, ?_⟩, Or.inl hj.1⟩⟩
  intro _ _
  exact hj.2

theorem owned_callsKeep (hwallet : msg.self ≠ T.factory) :
    CallsKeep (ownerSpec E w₀ T msg.tx) msg (Owned E w₀ T) :=
  fun _ dest value data h => ⟨h.local_call hwallet (localCall_callTo msg dest value data),
    fun _ _ hpost => h.back hpost⟩

theorem owned_logicKeeps (hwallet : msg.self ≠ T.factory) :
    CustomSmartWallet.LogicKeeps (ownerSpec E w₀ T msg.tx) msg (Owned E w₀ T) :=
  fun _ h _ => ⟨h.local_call hwallet (localCall_delegatecallTo msg _ _),
    fun _ _ hpost => h.back hpost⟩

/-- The rule for code that leaves the owner and the code of the wallet alone. -/
theorem wp_owned (hp : Prepared E w₀ T) {R : World χ → World χ → Prop} {p : Sol χ Bytes}
    (hbound : p.Within R (LocalCall msg)) (hlocal : ∀ w w', R w w' → LocalStep E msg w w')
    (hkeeps : ∀ w w', w.code msg.self ≠ none → R w w' → w'.code msg.self = w.code msg.self ∧
      (w'.wallets msg.self).owner = (w.wallets msg.self).owner)
    (hself : msg.self = T.address E) (hc : Owned E w₀ T c) :
    wp (ownerSpec E w₀ T msg.tx) p (fun _ c' => Owned E w₀ T c') c := by
  obtain ⟨-, hAF, hAmc⟩ := hp.distinct
  refine wp_within ?_ ?_ ?_ hbound c hc
  · intro c' w hj hstep
    refine hj.imp id fun ⟨hkept, hfounded⟩ => ⟨?_, hfounded⟩
    have hs := hkept.standing hfounded
    have hne : c'.state.code msg.self ≠ none := by
      rw [hself, hs.code]
      simp
    refine hkept.write hp (hlocal _ _ hstep) (hself.trans_ne hAF)
      (fun heq => absurd (hself.symm.trans heq) hAmc) ?_ ?_
    · intro _ ha
      obtain ⟨e, he, hcreates⟩ := hfounded
      exact absurd hcreates (ha.unfounded e he)
    · intro _ _
      rw [← hself]
      exact hkeeps _ _ hne hstep
  · intro m c' hm hj
    exact hj.local_call (hself.trans_ne hAF) hm
  · intro m r c' c'' _ hj hpost
    exact hj.back hpost

/-- The wallet pays somebody. -/
theorem Owned.pay (hwallet : msg.self ≠ T.factory) (h : Owned E w₀ T c)
    (token recipient : Address) (amount : Word) :
    (0 < amount → (ownerSpec E w₀ T msg.tx).pre (payMsg msg token recipient amount) c ∧
      ∀ ret c', (ownerSpec E w₀ T msg.tx).post (payMsg msg token recipient amount) (.ok ret) c c' →
        Owned E w₀ T c') ∧
      (¬ 0 < amount → Owned E w₀ T c) := by
  refine ⟨fun _ => ⟨h.local_call hwallet (localCall_callTo msg _ _ _), ?_⟩, fun _ => h⟩
  intro ret c' hpost
  exact h.back hpost

/-- A write to the storage of the wallet that keeps the owner. -/
theorem Owned.written {f : Wallet → Wallet} (h : Owned E w₀ T c)
    (hself : msg.self = T.address E) (hf : ∀ wallet, (f wallet).owner = wallet.owner) :
    Owned E w₀ T (SmartWallet.written msg f c) := by
  refine h.imp id fun ⟨hkept, hfounded⟩ => ⟨hkept.put rfl rfl ?_, hfounded⟩
  show (Function.update c.state.wallets msg.self _ (T.address E)).owner = _
  rw [← hself, Function.update_self]
  exact hf _

/-- The frame of the wallet, once it stands. -/
theorem wallet_frame (hp : Prepared E w₀ T) (hlogic : LogicKeeps O (T.address E) T.masterCopy)
    (hcell : Wallet.ownerCell E T.plan.owner ≠ 0) (hself : msg.self = T.address E)
    (hkinds : msg.kind ≠ .delegatecall → msg.codeAddress = msg.self)
    (hkept : Kept E w₀ T (c.entered msg s))
    (hfounded : ∃ e ∈ (c.entered msg s).trace, Creates E T e) :
    wp (ownerSpec E w₀ T msg.tx) (codeOf E O msg s) (fun _ c' => Owned E w₀ T c')
      (c.entered msg s) := by
  obtain ⟨-, hAF, -⟩ := hp.distinct
  have hstanding := hkept.standing hfounded
  have howned : Owned E w₀ T (c.entered msg s) := Or.inr ⟨hkept, hfounded⟩
  have hne : msg.self ≠ T.factory := hself.trans_ne hAF
  have hexecuted : Owned E w₀ T
      (SmartWallet.written msg SmartWallet.nextNonce (c.entered msg s)) :=
    howned.written hself fun _ => rfl
  -- nobody initialises the wallet again
  have hinit : ((c.entered msg s).state.wallets msg.self).owner ≠ 0 := by
    rw [hself, hstanding.owner]
    exact hcell
  cases hcode : s.code msg.codeAddress with
  | none => exact wp_nothing hcode _ howned
  | some contract =>
      have hk : (s.code msg.codeAddress).map Contract.code = some contract.code := by
        rw [hcode]
        rfl
      by_cases hwallet : contract.code.isWallet = true
      · unfold codeOf
        rw [hk]
        cases hcontract : contract.code with
        | smartWallet =>
            refine SmartWallet.wp_smartWallet_code (owned_callsKeep hne) (fun _ _ => howned)
              (fun _ _ _ _ _ _ => hexecuted.pay hne _ _ _) ?_
            intro _ _ _ _ _ _ howner
            exact absurd howner hinit
        | customSmartWallet =>
            refine CustomSmartWallet.wp_customSmartWallet_code (owned_callsKeep hne)
              (owned_logicKeeps hne) (fun _ _ => howned)
              (fun _ _ _ _ _ _ => hexecuted.pay hne _ _ _) ?_
            intro _ _ _ _ _ _ _ _ howner
            exact absurd howner hinit
        | relayHub | penalizer | smartWalletFactory | customSmartWalletFactory | proxy | other =>
            rw [hcontract] at hwallet
            cases hwallet
      · by_cases hother : contract.code = .other
        · -- a custom logic
          -- the wallet is a proxy, so other code runs in it by a delegate call only
          have hkind : msg.kind = .delegatecall := by
            by_contra hkind
            have hA := hstanding.code
            rw [hkinds hkind, hself, show s.code (T.address E) = _ from hA] at hcode
            obtain rfl := Option.some.inj hcode
            cases hother
          have hruns : codeOf E O msg s = O.code msg s := by
            unfold codeOf
            rw [hk, hother]
          rw [hruns]
          have hbound := (O.within msg s).and (hlogic.wallet msg s hkind hself)
          refine wp_owned hp (hbound.mono (fun _ _ h => h) fun _ h => h.1) ?_ ?_ hself howned
          · intro w w' h
            exact LocalStep.of_outside h.1
          · intro w w' _ h
            rw [hself]
            exact ⟨h.2.2, h.2.1⟩
        -- code of this repository that is no wallet writes nothing into the slots of one
        · refine wp_owned hp (local_codeOf E msg O s hk) (fun _ _ h => h.localStep) ?_ hself howned
          intro w w' hcodeself hstep
          obtain ⟨hsame, hwallets⟩ := frameStep_self hstep hother hcodeself
          exact ⟨hsame, by rw [hwallets (by simpa using hwallet)]⟩

/-! ### The first messages of the wallet -/

/-- The new proxy hands on the call that initialises it. -/
theorem placing_frame (hp : Prepared E w₀ T) (h : Placing E w₀ T msg c)
    (henter : enter msg c.state = some s) :
    wp (ownerSpec E w₀ T msg.tx) (codeOf E O msg s) (fun _ c' => Resting E w₀ T c')
      (c.entered msg s) := by
  obtain ⟨-, hAF, -⟩ := hp.distinct
  obtain ⟨l, d, data, htrace, hl, rfl, hyoung⟩ := h
  have hentered := hyoung.entered henter
  have hruns : (s.code (T.address E)).map Contract.code = some (.proxy T.masterCopy) := by
    rw [show s.code (T.address E) = _ from hentered.proxy]
    rfl
  unfold codeOf
  rw [show (d.msg.callTo (T.address E) 0 data).codeAddress = T.address E from rfl, hruns]
  show wp _ (Proxy.code T.masterCopy (d.msg.callTo (T.address E) 0 data)) _ _
  simp only [Proxy.code, wp_bind, wp_send, wp_bubble]
  refine ⟨⟨rfl, Or.inr ⟨⟨⟨fun hkind => absurd rfl hkind, ?_⟩, ?_⟩, Or.inr (Or.inr ?_)⟩⟩, ?_⟩
  · intro hfactory
    exact absurd hfactory hAF
  · intro _ _
    refine ⟨d, ?_, hyoung.founding.creates⟩
    rw [Conf.entered_trace, htrace]
    simp
  · refine ⟨l, d, ⟨d.msg.callTo (T.address E) 0 data, c.state⟩, data, ?_, hl, rfl, rfl, hentered⟩
    rw [Conf.entered_trace, htrace, List.append_assoc]
    rfl
  · rintro r c' ⟨hok, -⟩ ret rfl
    exact hok ⟨ret, rfl⟩

/-- With the owner in its slot the wallet stands. -/
theorem Young.owned {l : List (Entry (World χ) Msg)} {d e i : Entry (World χ) Msg}
    {data : CallData} (h : Young E w₀ T d data c) (hp : Prepared E w₀ T)
    (htrace : c.trace = l ++ [d, e, i]) (hl : ∀ x ∈ l, ¬ Creates E T x)
    (he : e.msg.self = T.address E) (hi : i.msg.self = T.address E)
    (hself : msg.self = T.address E) :
    Owned E w₀ T (SmartWallet.written msg (SmartWallet.withOwner E · T.plan.owner) c) := by
  obtain ⟨-, hAF, -⟩ := hp.distinct
  have hfounded : Founded E T c.trace := by
    refine ⟨l, d, [e, i], htrace, h.founding, ?_⟩
    intro x hx
    rcases List.mem_append.mp hx with hx | hx
    · exact hl x hx
    · intro hcreates
      have hx' : x.msg.self = T.address E := by
        rcases List.mem_pair.mp hx with rfl | rfl
        · exact he
        · exact hi
      exact hAF (hx'.symm.trans hcreates.1)
  refine Or.inr ⟨⟨h.code.congr rfl, h.masterCopy, Or.inr ⟨h.proxy, ?_, hfounded⟩⟩,
    hfounded.creates⟩
  show (Function.update c.state.wallets msg.self _ (T.address E)).owner = _
  rw [← hself, Function.update_self]
  rfl

/-- **The frame that initialises the wallet.** -/
theorem starting_frame (hp : Prepared E w₀ T) (h : Starting E w₀ T msg c)
    (henter : enter msg c.state = some s) :
    wp (ownerSpec E w₀ T msg.tx) (codeOf E O msg s) (fun _ c' => Owned E w₀ T c')
      (c.entered msg s) := by
  obtain ⟨-, hAF, -⟩ := hp.distinct
  obtain ⟨l, d, e, data, htrace, hl, he, rfl, hyoung⟩ := h
  have hentered := hyoung.entered henter
  have heself : e.msg.self = T.address E := by
    rw [he]
    rfl
  have hself : (e.msg.delegatecallTo T.masterCopy data).self = T.address E := heself
  have hne : (e.msg.delegatecallTo T.masterCopy data).self ≠ T.factory := hself.trans_ne hAF
  have howned : Owned E w₀ T (SmartWallet.written (e.msg.delegatecallTo T.masterCopy data)
      (SmartWallet.withOwner E · T.plan.owner)
      (c.entered (e.msg.delegatecallTo T.masterCopy data) s)) := by
    -- the history ends with the creation, the call of the proxy and this delegate call
    refine hentered.owned (e := e) (i := ⟨e.msg.delegatecallTo T.masterCopy data, c.state⟩) hp ?_
      hl heself hself hself
    rw [Conf.entered_trace, htrace, List.append_assoc]
    rfl
  obtain ⟨t, creation, ht, htemplate⟩ := hp.template
  have hruns : (s.code T.masterCopy).map Contract.code = some t := by
    have hmc := hentered.code.code T.masterCopy (Or.inr rfl)
    rw [show s.code T.masterCopy = _ from hmc, htemplate]
    rfl
  have hinit := hyoung.init
  unfold codeOf
  rw [show (e.msg.delegatecallTo T.masterCopy data).codeAddress = T.masterCopy from rfl, hruns]
  -- in its first message the wallet is initialised, whatever its kind
  cases hplan : T.plan with
  | plain owner recoverer index =>
      rw [hplan] at ht hinit
      obtain rfl : Code.smartWallet = t := Option.some.inj ht
      obtain ⟨token, recipient, amount, gas, rfl⟩ := hinit
      refine SmartWallet.wp_smartWallet_code (owned_callsKeep hne) ?_ ?_ ?_
      · intro _ hquiet
        exact absurd rfl (hquiet _ _ _ _ _)
      · intro dom suffix req sig hdata
        cases hdata
      · intro owner' token' recipient' amount' gas' hdata _
        cases hdata
        rw [hplan] at howned
        exact howned.pay hne token recipient amount
  | custom owner recoverer logic initParamsHash index =>
      rw [hplan] at ht hinit
      obtain rfl : Code.customSmartWallet = t := Option.some.inj ht
      obtain ⟨token, recipient, amount, gas, initParams, rfl⟩ := hinit
      refine CustomSmartWallet.wp_customSmartWallet_code (owned_callsKeep hne)
        (owned_logicKeeps hne) ?_ ?_ ?_
      · intro _ hquiet
        exact absurd rfl (hquiet _ _ _ _ _ _ _)
      · intro dom suffix req sig hdata
        cases hdata
      · intro owner' logic' token' recipient' amount' gas' params' hdata _
        cases hdata
        rw [hplan] at howned
        refine ⟨howned.pay hne token recipient amount, fun c' hc' => ?_⟩
        refine ⟨hc'.local_call hne (localCall_delegatecallTo _ _ _), fun ret c'' hpost => ?_⟩
        exact (hc'.back hpost).written hself fun _ => rfl

/-! ### The factory -/

/-- What placing an order leaves alone. -/
theorem placed_other {F mc a : Address} {o : Order} {w : World χ}
    (ha : a ≠ Factory.proxyAddress E F mc o.salt) :
    (o.placed E F mc w).code a = w.code a ∧ (o.placed E F mc w).wallets a = w.wallets a :=
  ⟨Function.update_of_ne ha _ _, Function.update_of_ne ha _ _⟩

theorem placed_factory {F mc : Address} {o : Order} {w : World χ} :
    ((o.placed E F mc w).factories F).masterCopy = (w.factories F).masterCopy := by
  show (Function.update w.factories F (o.charge (w.factories F)) F).masterCopy = _
  rw [Function.update_self, Order.charge_masterCopy]

/-- The base after an order was placed. -/
theorem placed_code (hp : Prepared E w₀ T) {o : Order} {w : World χ}
    (h : CodeKept E w₀ (Base T) w)
    (hvacant : w.Vacant E (Factory.proxyAddress E T.factory T.masterCopy o.salt)) :
    CodeKept E w₀ (Base T) (o.placed E T.factory T.masterCopy w) where
  code := by
    intro a ha
    have hne : a ≠ Factory.proxyAddress E T.factory T.masterCopy o.salt := by
      rintro rfl
      exact base_ne_none hp _ ha ((h.code _ ha).symm.trans hvacant.1)
    rw [(placed_other hne).1]
    exact h.code a ha
  codeless := by
    intro a ha
    have hne : a ≠ Factory.proxyAddress E T.factory T.masterCopy o.salt := by
      rintro rfl
      rw [hvacant.2] at ha
      cases ha
    rw [(placed_other hne).1]
    exact h.codeless a ha

/-- Placing another wallet leaves this one alone. -/
theorem Kept.placed (hp : Prepared E w₀ T) (h : Kept E w₀ T c) {o : Order}
    (hstring : Factory.proxyString E T.factory T.masterCopy o.salt ≠ T.string E)
    (hvacant : c.state.Vacant E (Factory.proxyAddress E T.factory T.masterCopy o.salt)) :
    Kept E w₀ T (c.put (o.placed E T.factory T.masterCopy c.state)) where
  code := placed_code hp h.code hvacant
  masterCopy := placed_factory.trans h.masterCopy
  wallet := by
    by_cases hA : T.address E = Factory.proxyAddress E T.factory T.masterCopy o.salt
    · -- another string with this address
      rcases h.wallet with ha | hs
      · refine Or.inl ⟨ha.unfounded, fun contract hcontract => ?_⟩
        rw [Conf.put_state, hA] at hcontract
        have hnew : (o.placed E T.factory T.masterCopy c.state).code
            (Factory.proxyAddress E T.factory T.masterCopy o.salt) =
              some ⟨.proxy T.masterCopy, Factory.proxyString E T.factory T.masterCopy o.salt⟩ :=
          Function.update_self _ _ _
        obtain rfl := Option.some.inj (hnew.symm.trans hcontract)
        exact ⟨hstring, hA⟩
      · rw [← hA] at hvacant
        have hcode := hs.code
        rw [hvacant.1] at hcode
        cases hcode
    · rcases h.wallet with ha | hs
      · refine Or.inl ⟨ha.unfounded, ?_⟩
        rw [Conf.put_state, (placed_other hA).1]
        exact ha.code
      · refine Or.inr ⟨?_, ?_, hs.founded⟩
        · rw [Conf.put_state, (placed_other hA).1]
          exact hs.code
        · rw [Conf.put_state, (placed_other hA).2]
          exact hs.owner

/-- A call of the factory for the wallet, where nothing stands. -/
theorem young_placed (hp : Prepared E w₀ T) (h : Kept E w₀ T c)
    (henter : enter msg c.state = some s) {o : Order}
    (ho : Order.parse E T.plan.kind msg = some o)
    (hcreates : Creates E T (⟨msg, c.state⟩ : Entry (World χ) Msg))
    (hpermitted : o.Permitted E msg (s.factories T.factory))
    (hsalt : o.salt = E.keccak256 T.plan.saltBytes) (hinit : T.plan.InitData o.initdata)
    (hvacant : s.Vacant E (T.address E)) :
    Young E w₀ T ⟨msg, c.state⟩ o.initdata
      ((c.entered msg s).put (o.placed E T.factory T.masterCopy s)) := by
  obtain ⟨b, rfl, -⟩ := enter_frame henter
  have haddress : Factory.proxyAddress E T.factory T.masterCopy o.salt = T.address E := by
    rw [hsalt]
    rfl
  refine ⟨?_, placed_factory.trans h.masterCopy, ?_, ?_, ⟨hcreates, hvacant.1, o, ho, ?_⟩, hinit⟩
  · refine placed_code hp (h.code.congr rfl) ?_
    rw [haddress]
    exact hvacant
  · rw [← haddress, Conf.put_state]
    show Function.update _ _ _ _ = _
    rw [Function.update_self, hsalt]
    rfl
  · rw [← haddress, Conf.put_state]
    exact Function.update_self _ _ _
  · exact hpermitted

/-- **The frame of the factory.** -/
theorem factory_frame (hp : Prepared E w₀ T) (hsend : Kept E w₀ T c)
    (hcollided : ¬ Collided E T (c.entered msg s).trace)
    (henter : enter msg c.state = some s) (hself : msg.self = T.factory)
    (haddress : msg.codeAddress = msg.self) :
    wp (ownerSpec E w₀ T msg.tx) (codeOf E O msg s) (fun _ c' => Resting E w₀ T c')
      (c.entered msg s) := by
  obtain ⟨creation, hF⟩ := hp.factory
  have hstate : s.code = c.state.code ∧ s.factories = c.state.factories := by
    obtain ⟨b, rfl, -⟩ := enter_frame henter
    exact ⟨rfl, rfl⟩
  have hruns : (s.code msg.codeAddress).map Contract.code = some T.plan.kind := by
    rw [haddress, hself, hstate.1, hsend.code.code _ (Or.inl rfl), hF]
    rfl
  have hmc : ((c.entered msg s).state.factories msg.self).masterCopy = T.masterCopy := by
    rw [Conf.entered_state, hstate.2, hself]
    exact hsend.masterCopy
  have hzero : (c.entered msg s).state.code 0 = none := by
    rw [Conf.entered_state, hstate.1]
    exact hsend.code.codeless 0 E.codeless_zero
  have hserved : Order.Served (ownerSpec E w₀ T msg.tx) E T.plan.kind msg T.masterCopy
      (fun _ c' => Resting E w₀ T c') (c.entered msg s) := by
    intro o ho hpermitted hvacant
    obtain ⟨p, hparse, hsalt, -, hinit⟩ := Order.parse_plan ho
    rw [hself] at hvacant hpermitted ⊢
    have hback : ∀ ret c', (ownerSpec E w₀ T msg.tx).post
        (Factory.initMsg E msg T.masterCopy o.salt o.initdata) (.ok ret)
        ((c.entered msg s).put (o.placed E T.factory T.masterCopy (c.entered msg s).state)) c' →
        Resting E w₀ T (c'.put (Factory.announced E msg T.masterCopy o.salt c'.state)) := by
      intro ret c' hpost
      have hrest : Resting E w₀ T c' := hpost.1 ⟨ret, rfl⟩
      exact hrest.imp id fun h => h.put rfl rfl rfl
    refine ⟨?_, hback⟩
    have hcall : Proper E T (Factory.initMsg E msg T.masterCopy o.salt o.initdata)
        (c.entered msg s).trace :=
      ⟨Addressed.callTo _ _ _ _ _, fun _ hkind => by cases hkind⟩
    refine ⟨rfl, Or.inr ⟨hcall, ?_⟩⟩
    by_cases hplan : p = T.plan
    · -- this wallet
      rw [hplan] at hparse hsalt hinit
      have hcreates : Creates E T (⟨msg, c.state⟩ : Entry (World χ) Msg) := ⟨hself, hparse⟩
      have hplace : Factory.proxyAddress E T.factory T.masterCopy o.salt = T.address E := by
        rw [hsalt]
        rfl
      rw [hplace] at hvacant
      have hawaited : Awaited E T c := by
        rcases hsend.wallet with ha | hs
        · exact ha
        · have hcode := hs.code
          rw [← hstate.1, show s.code (T.address E) = none from hvacant.1] at hcode
          cases hcode
      refine Or.inr (Or.inl ⟨c.trace, ⟨msg, c.state⟩, o.initdata, rfl, hawaited.unfounded, ?_, ?_⟩)
      · show msg.callTo (Factory.proxyAddress E msg.self T.masterCopy o.salt) 0 o.initdata = _
        rw [hself, hplace]
      · exact young_placed hp hsend henter ho hcreates hpermitted hsalt hinit hvacant
    · -- another wallet
      have hother : ¬ Creates E T (⟨msg, c.state⟩ : Entry (World χ) Msg) := by
        rintro ⟨-, hthis⟩
        exact hplan (Option.some.inj (hparse.symm.trans hthis))
      have hstring : Factory.proxyString E T.factory T.masterCopy o.salt ≠ T.string E := by
        intro hsame
        rw [hsalt] at hsame
        exact hcollided ⟨⟨msg, c.state⟩, by simp, Or.inr ⟨hself, p, hparse, hplan, hsame⟩⟩
      exact Or.inl ((hsend.entered henter hother).placed hp hstring hvacant)
  unfold codeOf
  rw [hruns]
  cases hplan : T.plan with
  | plain =>
      rw [hplan] at hserved
      exact Order.wp_smartWalletFactory_code hmc hzero hserved
  | custom =>
      rw [hplan] at hserved
      exact Order.wp_customSmartWalletFactory_code hmc hzero hserved

/-! ### All frames -/

/-- The invariant survives everything that anybody does, short of a collision. -/
theorem kept_unless (hp : Prepared E w₀ T) (hlogic : LogicKeeps O (T.address E) T.masterCopy)
    (hcell : Wallet.ownerCell E T.plan.owner ≠ 0) :
    KeptUnless E O w₀ (Collided E T) (Sendable E w₀ T) (Kept E w₀ T) where
  grow := Collided.grow
  start := by
    refine ⟨⟨fun _ _ => rfl, hp.codeless⟩, hp.masterCopy, Or.inl ⟨by simp, ?_⟩⟩
    intro contract hcontract
    rw [Conf.start_state, hp.vacant] at hcontract
    cases hcontract
  answered := fun _ m r hi => hi.answered m r
  write := by
    intro c msg s hi hcodeless hw
    have hbase : ¬ Base T msg.self := hi.code.not_codeless (base_ne_none hp) hcodeless
    have hkept := hi.code.write (base_ne_none hp) (fun h => absurd h hbase) (.of_outside hw)
    refine hi.write hp (.of_outside hw) (fun h => hbase (Or.inl h))
      (fun h => absurd (Or.inr h) hbase) ?_ ?_
    · intro hself _ contract hcontract
      rw [← hself, hkept.codeless _ hcodeless] at hcontract
      cases hcontract
    · intro hself hs
      have hcode := hs.code
      rw [← hself, hi.code.codeless _ hcodeless] at hcode
      cases hcode
  tx := by
    intro c tx hi _
    exact ⟨⟨⟨fun _ => rfl, fun _ => CallKind.noConfusion⟩, fun _ hkind => by cases hkind⟩,
      Or.inl hi⟩
  frame := by
    intro c msg s ⟨hproper, hsend⟩ henter
    obtain ⟨-, hAF, -⟩ := hp.distinct
    by_cases hcollided : Collided E T (c.entered msg s).trace
    · exact wp_collided hcollided s
    -- the message finds the wallet settled, just placed, or in its first message
    rcases hsend with hkept | hplacing | hstarting
    · by_cases hfactory : msg.self = T.factory
      · exact factory_frame hp hkept hcollided henter hfactory
          (hproper.addressed.codeAddress hfactory)
      have hother : ¬ Creates E T (⟨msg, c.state⟩ : Entry (World χ) Msg) :=
        fun h => hfactory h.1
      have hentered := hkept.entered henter hother
      by_cases hwallet : msg.self = T.address E
      · have hgrown : (∃ e ∈ c.trace, Creates E T e) →
            ∃ e ∈ (c.entered msg s).trace, Creates E T e := by
          rintro ⟨e, he, hcreates⟩
          exact ⟨e, List.mem_append_left _ he, hcreates⟩
        by_cases hfounded : ∃ e ∈ c.trace, Creates E T e
        · exact wp_mono _ (fun _ _ h => Owned.resting h) _ _
            (wallet_frame hp hlogic hcell hwallet hproper.addressed.1 hentered (hgrown hfounded))
        · -- nothing stands there yet, so nothing runs
          have hkind : msg.kind ≠ .delegatecall :=
            fun hkind => hfounded (hproper.founded hwallet hkind)
          have hnone : s.code msg.codeAddress = none := by
            rw [hproper.addressed.1 hkind, hwallet]
            rcases hkept.wallet with ha | hs
            · cases hcode : c.state.code (T.address E) with
              | none =>
                  obtain ⟨b, rfl, -⟩ := enter_frame henter
                  exact hcode
              | some contract =>
                  exact absurd ⟨⟨msg, c.state⟩, by simp,
                    Or.inl ⟨contract, hcode, ha.code contract hcode⟩⟩ hcollided
            · exact absurd hs.founded.creates hfounded
          exact wp_nothing hnone _ (Or.inr hentered)
      · exact stranger_frame hp hlogic hproper.addressed hfactory hwallet hentered
    · exact placing_frame hp hplacing henter
    · exact wp_mono _ (fun _ _ h => Owned.resting h) _ _ (starting_frame hp hstarting henter)

end Frames

end Counterfactual

end RifRelay
