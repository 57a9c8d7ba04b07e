import RifRelay.Contracts.CoinFlow
import RifRelay.Contracts.CustomWalletSpec

set_option autoImplicit false

/-! # What wallets spend

Which calls with coins the frames of wallets make: none, unless the owner has signed the
request or is the caller, or the caller is the recoverer; then at most the call that was asked
for, followed at most by one transfer of everything that is left.
-/

namespace RifRelay

open CallMachine IForwarder Wallet

namespace Coins

variable {χ : Type}

/-! ## Spending -/

/-- The calls with coins that a frame has made itself. -/
def paid (f : Frames χ) : List (Entry (World χ) Msg) := f.roots.filter fun e => isPaying e.msg

@[simp] theorem paid_append (f g : Frames χ) : paid (f.append g) = paid f ++ paid g := by
  simp [paid]

@[simp] theorem paid_nil : paid (.nil : Frames χ) = [] := rfl

/-- What one message adds. -/
theorem paid_of_roots {f : Frames χ} {x : Entry (World χ) Msg} (h : f.roots = [] ∨ f.roots = [x]) :
    ∃ o : Option (Entry (World χ) Msg), paid f = o.toList ∧ ∀ y ∈ o, y = x := by
  unfold paid
  rcases h with hnil | hone
  · exact ⟨none, by rw [hnil]; rfl, fun y hy => by cases hy⟩
  · rw [hone]
    by_cases hpays : isPaying x.msg = true
    · exact ⟨some x, List.filter_cons_of_pos hpays, fun y hy => (Option.some.inj hy).symm⟩
    · exact ⟨none, List.filter_cons_of_neg hpays, fun y hy => by cases hy⟩

theorem paid_of_free {f : Frames χ} {x : Entry (World χ) Msg} (h : f.roots = [] ∨ f.roots = [x])
    (hfree : isPaying x.msg = false) : paid f = [] := by
  refine List.filter_eq_nil_iff.mpr fun y hy => ?_
  rcases h with hnil | hone
  · rw [hnil] at hy
    cases hy
  · rw [hone, List.mem_singleton] at hy
    rw [hy, hfree]
    exact Bool.false_ne_true

/-- The calls that the owner or the recoverer of a wallet has authorised: the call that is
asked for, and who gets what is left. -/
inductive Authorises (E : Env) (msg : Msg) (wallet : Wallet) : Code → Msg → Address → Prop
  | execute (k : Code) {domainSeparator suffixData : Word} {req : ForwardRequest} {sig : Bytes}
      (hdata : msg.data = .execute domainSeparator suffixData req sig)
      (h : Accepts E msg wallet domainSeparator suffixData req sig) :
      Authorises E msg wallet k (msg.callTo req.to req.value (E.abiDecode req.data)) req.from
  | directExecute (k : Code) {dest : Address} {data : Bytes}
      (hdata : msg.data = .directExecute dest data) (h : wallet.owner = ownerCell E msg.sender) :
      Authorises E msg wallet k (msg.callTo dest msg.value (E.abiDecode data)) msg.sender
  | recover {owner factory swTemplate destinationContract : Address} {index : Word} {data : Bytes}
      (hdata : msg.data = .recover owner factory swTemplate destinationContract index data)
      (h : rebuiltAddress E factory swTemplate (SmartWallet.salt E owner msg.sender index) =
        msg.self) :
      Authorises E msg wallet .smartWallet
        (msg.callTo destinationContract msg.value (E.abiDecode data)) msg.sender
  | recoverCustom {owner factory swTemplate destinationContract logic : Address}
      {index initParamsHash : Word} {data : Bytes}
      (hdata : msg.data = .recoverCustom owner factory swTemplate destinationContract logic index
        initParamsHash data)
      (h : rebuiltAddress E factory swTemplate
        (CustomSmartWallet.salt E owner msg.sender logic initParamsHash index) = msg.self) :
      Authorises E msg wallet .customSmartWallet
        (msg.callTo destinationContract msg.value (E.abiDecode data)) msg.sender

/-- At most the requested call, and after it at most one transfer of all that is left. -/
def SpentOn (msg request : Msg) (dest : Address) (l : List (Entry (World χ) Msg)) : Prop :=
  ∃ requested swept : Option (Entry (World χ) Msg), l = requested.toList ++ swept.toList ∧
    (∀ x ∈ requested, x.msg = request) ∧
    ∀ x ∈ swept, x.msg = msg.callTo dest (BitVec.ofNat 256 (x.pre.balance msg.self)) .empty

/-- A frame of the wallet code `k` spends nothing, or what was authorised. -/
def Spends (E : Env) (k : Code) (e : Entry (World χ) Msg) (sub : Frames χ) : Prop :=
  paid sub = [] ∨ ∃ request dest,
    Authorises E e.msg (e.pre.wallets e.msg.self) k request dest ∧
      SpentOn e.msg request dest (paid sub)

/-- What all frames keep to: they send messages for their own account only, wallets spend what was
authorised, and proxies do nothing but hand on their message. -/
structure Thrifty (E : Env) (e : Entry (World χ) Msg) (sub : Frames χ) : Prop where
  own : ∀ x ∈ sub.roots, LocalCall e.msg x.msg
  wallet : ∀ k, codeAt e = some k → k.isWallet = true → Spends E k e sub
  proxy : ∀ masterCopy, codeAt e = some (.proxy masterCopy) →
    ∀ x ∈ sub.roots, x.msg = e.msg.delegatecallTo masterCopy e.msg.data

/-- The specification of all messages, with the books of the account `W`. -/
abbrev coinSpec (E : Env) (W : Address) : Spec (World χ) Msg Revert Bytes :=
  framed (Thrifty E) (Accounted True W)

/-! ## In the frame of a wallet -/

section Frame

variable {exact : Prop} {E : Env} {W : Address} {msg : Msg} {c₀ c c' : ChainConf χ} {f : Frames χ}

/-- The frame of `msg` has got from `c₀` to `c`. -/
structure Tracked (exact : Prop) (E : Env) (W : Address) (msg : Msg) (c₀ : ChainConf χ)
    (f : Frames χ) (c : ChainConf χ) : Prop where
  grew : Grew (Thrifty E) c₀ f c
  books : Accounted exact W c₀.state c.state f
  own : ∀ x ∈ f.roots, LocalCall msg x.msg

theorem Tracked.start : Tracked exact E W msg c₀ .nil c₀ :=
  ⟨.refl, .of_same le_rfl rfl, fun _ hx => by cases hx⟩

theorem Tracked.put (h : Tracked exact E W msg c₀ f c) {s : World χ}
    (hs : Accounted exact W c.state s .nil) : Tracked exact E W msg c₀ f (c.put s) where
  grew := h.grew.put s
  books := by simpa using h.books.trans hs
  own := h.own

/-- A message and its answer. -/
theorem Tracked.send (h : Tracked exact E W msg c₀ f c) {m : Msg} (hm : LocalCall msg m)
    {r : Except Revert Bytes} (hpost : (coinSpec E W).post m r c c') :
    ∃ g : Frames χ, Tracked exact E W msg c₀ (f.append g) c' ∧
      (g.roots = [] ∨ g.roots = [⟨m, c.state⟩]) := by
  obtain ⟨g, hgrew, hbooks, hroots⟩ := framed_grew (Accounted.additive True W) hpost
  refine ⟨g, ⟨h.grew.trans hgrew, h.books.trans (hbooks.weaken fun _ => trivial), ?_⟩, hroots⟩
  intro x hx
  rw [Forest.roots_append, List.mem_append] at hx
  rcases hx with hx | hx
  · exact h.own x hx
  · rcases hroots with hnil | hone
    · rw [hnil] at hx
      cases hx
    · rw [hone, List.mem_singleton] at hx
      subst hx
      exact hm

/-- Nothing was spent yet. -/
def Unspent (E : Env) (W : Address) (msg : Msg) (c₀ c : ChainConf χ) : Prop :=
  ∃ f : Frames χ, Tracked True E W msg c₀ f c ∧ paid f = []

/-- At most the requested call was made. -/
def Requested (E : Env) (W : Address) (msg request : Msg) (c₀ c : ChainConf χ) : Prop :=
  ∃ f : Frames χ, Tracked True E W msg c₀ f c ∧
    ∃ requested : Option (Entry (World χ) Msg), paid f = requested.toList ∧
      ∀ x ∈ requested, x.msg = request

/-- What the frame of a wallet comes to. -/
def Spent (E : Env) (W : Address) (msg request : Msg) (dest : Address) (c₀ c : ChainConf χ) :
    Prop :=
  ∃ f : Frames χ, Tracked True E W msg c₀ f c ∧ SpentOn msg request dest (paid f)

theorem Unspent.start : Unspent E W msg c₀ c₀ := ⟨_, .start, rfl⟩

theorem Unspent.setWallet (h : Unspent E W msg c₀ c) (wallet : Wallet) :
    Unspent E W msg c₀ (c.put (c.state.setWallet msg.self wallet)) := by
  obtain ⟨f, htracked, hpaid⟩ := h
  exact ⟨f, htracked.put (.of_same le_rfl rfl), hpaid⟩

/-- A message without coins. -/
theorem Unspent.send (h : Unspent E W msg c₀ c) {m : Msg} (hm : LocalCall msg m)
    (hfree : isPaying m = false) {r : Except Revert Bytes}
    (hpost : (coinSpec E W).post m r c c') : Unspent E W msg c₀ c' := by
  obtain ⟨f, htracked, hpaid⟩ := h
  obtain ⟨g, hnext, hroots⟩ := htracked.send hm hpost
  exact ⟨_, hnext, by rw [paid_append, hpaid, paid_of_free hroots hfree]; rfl⟩

/-- The requested call. -/
theorem Unspent.request (h : Unspent E W msg c₀ c) {m : Msg} (hm : LocalCall msg m)
    {r : Except Revert Bytes} (hpost : (coinSpec E W).post m r c c') :
    Requested E W msg m c₀ c' := by
  obtain ⟨f, htracked, hpaid⟩ := h
  obtain ⟨g, hnext, hroots⟩ := htracked.send hm hpost
  obtain ⟨o, ho, hmem⟩ := paid_of_roots hroots
  refine ⟨_, hnext, o, by rw [paid_append, hpaid, ho]; rfl, fun x hx => ?_⟩
  rw [hmem x hx]

theorem Unspent.requested (h : Unspent E W msg c₀ c) (request : Msg) :
    Requested E W msg request c₀ c := by
  obtain ⟨f, htracked, hpaid⟩ := h
  exact ⟨f, htracked, none, hpaid, fun x hx => by cases hx⟩

/-- The last step of the three functions. -/
theorem Requested.sweep_rule {request : Msg} (h : Requested E W msg request c₀ c) (dest : Address) :
    wp (coinSpec E W) (sweep msg dest) (fun _ c' => Spent E W msg request dest c₀ c') c := by
  obtain ⟨f, htracked, requested, hpaid, hrequest⟩ := h
  rw [wp_sweep]
  constructor
  · intro _
    refine ⟨trivial, fun ret c' hpost => ?_⟩
    obtain ⟨g, hnext, hroots⟩ := htracked.send (localCall_callTo msg dest _ .empty) hpost
    obtain ⟨swept, hswept, hmem⟩ := paid_of_roots hroots
    refine ⟨_, hnext, requested, swept, by rw [paid_append, hpaid, hswept], hrequest, ?_⟩
    intro x hx
    rw [hmem x hx]
  · intro _
    exact ⟨f, htracked, requested, none, by rw [hpaid]; exact (List.append_nil _).symm, hrequest,
      fun x hx => by cases hx⟩

end Frame

/-! ## The code of the wallets -/

section Code

variable {E : Env} {W : Address} {msg : Msg} {c₀ c c' : ChainConf χ}

/-- What the frame of the wallet code `k` has come to. -/
def Thriftily (E : Env) (W : Address) (k : Code) (msg : Msg) (c₀ c : ChainConf χ) : Prop :=
  ∃ f : Frames χ, Tracked True E W msg c₀ f c ∧
    (paid f = [] ∨ ∃ request dest,
      Authorises E msg (c₀.state.wallets msg.self) k request dest ∧
        SpentOn msg request dest (paid f))

theorem Unspent.thriftily (h : Unspent E W msg c₀ c) (k : Code) : Thriftily E W k msg c₀ c := by
  obtain ⟨f, htracked, hpaid⟩ := h
  exact ⟨f, htracked, Or.inl hpaid⟩

theorem Spent.thriftily {request : Msg} {dest : Address} {k : Code}
    (h : Spent E W msg request dest c₀ c)
    (hauth : Authorises E msg (c₀.state.wallets msg.self) k request dest) :
    Thriftily E W k msg c₀ c := by
  obtain ⟨f, htracked, hspent⟩ := h
  exact ⟨f, htracked, Or.inr ⟨request, dest, hauth, hspent⟩⟩

/-- A requested call, and what is left goes to the owner or the recoverer. -/
theorem Unspent.call_rule (h : Unspent E W msg c₀ c) (limit : Option Nat) {k : Code}
    {target dest : Address} {value : Word} {data : CallData}
    (hauth : Authorises E msg (c₀.state.wallets msg.self) k (msg.callTo target value data) dest) :
    wp (coinSpec E W) (lowLevelCall msg limit target value data)
      (fun _ c' => wp (coinSpec E W) (sweep msg dest)
        (fun _ c'' => Thriftily E W k msg c₀ c'') c') c := by
  rw [wp_lowLevelCall]
  refine ⟨trivial, fun r c' hpost => ?_⟩
  have hrequested := h.request (localCall_callTo msg target value data) hpost
  exact wp_mono _ (fun _ _ hspent => hspent.thriftily hauth) _ _ (hrequested.sweep_rule dest)

/-- The custom logic runs in place of the requested call. -/
theorem Unspent.logic_rule (h : Unspent E W msg c₀ c) (logic : Address) {k : Code}
    {request : Msg} {dest : Address}
    (hauth : Authorises E msg (c₀.state.wallets msg.self) k request dest) :
    wp (coinSpec E W) (lowLevelDelegatecall msg logic msg.data)
      (fun _ c' => wp (coinSpec E W) (sweep msg dest)
        (fun _ c'' => Thriftily E W k msg c₀ c'') c') c := by
  rw [wp_lowLevelDelegatecall]
  refine ⟨trivial, fun r c' hpost => ?_⟩
  have hunspent := h.send (localCall_delegatecallTo msg logic msg.data) rfl hpost
  exact wp_mono _ (fun _ _ hspent => hspent.thriftily hauth) _ _
    ((hunspent.requested request).sweep_rule dest)

theorem recoverCall_spends (destinationContract : Address) (data : Bytes) {k : Code}
    (hauth : Authorises E msg (c₀.state.wallets msg.self) k
      (msg.callTo destinationContract msg.value (E.abiDecode data)) msg.sender) :
    wp (coinSpec E W) (recoverCall E msg destinationContract data)
      (fun _ c' => Thriftily E W k msg c₀ c') c₀ := by
  have hstart : Unspent E W msg c₀ c₀ := .start
  unfold recoverCall
  by_cases hdest : destinationContract ≠ 0
  · simp only [if_pos hdest, Prog.bind_eq, Prog.pure_eq, wp_bind, wp_ret]
    exact hstart.call_rule none hauth
  · simp only [if_neg hdest, Prog.bind_eq, Prog.pure_eq, wp_bind, wp_ret]
    exact wp_mono _ (fun _ _ hspent => Spent.thriftily hspent hauth) _ _
      ((hstart.requested _).sweep_rule msg.sender)

/-- A payment in tokens. -/
theorem Unspent.pay (h : Unspent E W msg c₀ c) {token recipient : Address} {amount : Word}
    {r : Except Revert Bytes}
    (hpost : (coinSpec E W).post (payMsg msg token recipient amount) r c c') :
    Unspent E W msg c₀ c' :=
  h.send (localCall_callTo msg token 0 (.transfer recipient amount)) rfl hpost

/-- **What a smart wallet spends.** -/
theorem smartWallet_spends :
    wp (coinSpec E W) (SmartWallet.code E msg)
      (fun _ c' => Thriftily E W .smartWallet msg c₀ c') c₀ := by
  have hstart : Unspent E W msg c₀ c₀ := .start
  unfold SmartWallet.code
  split
  next => exact hstart.thriftily _
  next dom suffix req sig hdata =>
    simp only [SmartWallet.verify, Prog.bind_eq, Prog.pure_eq, wp_bind, wp_nonPayable, wp_ret]
    exact fun _ => wp_verifySig fun _ _ _ => hstart.thriftily _
  next owner factory swTemplate destinationContract index data hdata =>
    simp only [SmartWallet.recover, Prog.bind_eq, Prog.pure_eq, wp_bind, wp_require, wp_ret]
    exact fun hself => recoverCall_spends _ _ (.recover hdata hself)
  next dest data hdata =>
    simp only [SmartWallet.directExecute, Prog.bind_eq, Prog.pure_eq, wp_bind, wp_wallet_storage,
      wp_require, wp_ret]
    exact fun howner => hstart.call_rule none (.directExecute _ hdata howner)
  next dom suffix req sig hdata =>
    simp only [SmartWallet.execute, Prog.bind_eq, Prog.pure_eq, wp_bind, wp_require,
      wp_wallet_modifyStorage, wp_whenever, wp_payToken, wp_gas, wp_ret]
    intro hcaller
    refine wp_verifySig fun howner hnonce hsigned => ?_
    have hauth := Authorises.execute .smartWallet hdata ⟨hcaller, howner, hnonce, hsigned⟩
    have hcounted := hstart.setWallet (SmartWallet.nextNonce (c₀.state.wallets msg.self))
    constructor
    · intro _
      exact ⟨trivial, fun ret c' hpost _ g _ => (hcounted.pay hpost).call_rule _ hauth⟩
    · exact fun _ g _ => hcounted.call_rule _ hauth
  next owner token recipient amount gas hdata =>
    simp only [SmartWallet.initializeWallet, Prog.bind_eq, Prog.pure_eq, wp_bind, wp_nonPayable,
      wp_wallet_storage, wp_require, wp_wallet_modifyStorage, wp_whenever, wp_payToken, wp_ret]
    intro _ howner
    have hnamed := hstart.setWallet (SmartWallet.withOwner E (c₀.state.wallets msg.self) owner)
    constructor
    · intro _
      exact ⟨trivial, fun ret c' hpost _ => (hnamed.pay hpost).thriftily _⟩
    · exact fun _ => hnamed.thriftily _
  next => exact trivial

/-- The end of `execute` and `directExecute` of a custom smart wallet. -/
theorem Unspent.dispatch_rule (h : Unspent E W msg c₀ c) (logicStrg : Word) (limit : Option Nat)
    {target dest : Address} {value : Word} {data : CallData}
    (hauth : Authorises E msg (c₀.state.wallets msg.self) .customSmartWallet
      (msg.callTo target value data) dest) :
    wp (coinSpec E W) (if logicStrg = 0 then
        (lowLevelCall msg limit target value data : Sol χ (Bool × Bytes)).bind fun result =>
          (sweep msg dest).bind fun _ => .ret result
      else
        (lowLevelDelegatecall msg (wordAddress logicStrg) msg.data).bind fun result =>
          (sweep msg dest).bind fun _ => .ret result)
      (fun _ c' => Thriftily E W .customSmartWallet msg c₀ c') c := by
  simp only [wp_ite, wp_bind, wp_ret]
  exact ⟨fun _ => h.call_rule limit hauth, fun _ => h.logic_rule _ hauth⟩

/-- **What a custom smart wallet spends.** -/
theorem customSmartWallet_spends :
    wp (coinSpec E W) (CustomSmartWallet.code E msg)
      (fun _ c' => Thriftily E W .customSmartWallet msg c₀ c') c₀ := by
  have hstart : Unspent E W msg c₀ c₀ := .start
  unfold CustomSmartWallet.code
  split
  next dom suffix req sig hdata =>
    simp only [CustomSmartWallet.verify, Prog.bind_eq, Prog.pure_eq, wp_bind, wp_nonPayable, wp_ret]
    exact fun _ => wp_verifySig fun _ _ _ => hstart.thriftily _
  next owner factory swTemplate destinationContract logic index hash data hdata =>
    simp only [CustomSmartWallet.recover, Prog.bind_eq, Prog.pure_eq, wp_bind, wp_require, wp_ret]
    exact fun hself => recoverCall_spends _ _ (.recoverCustom hdata hself)
  next dest data hdata =>
    simp only [CustomSmartWallet.directExecute, Prog.bind_eq, Prog.pure_eq, wp_bind,
      wp_wallet_storage, wp_require, wp_ret]
    exact fun howner => hstart.dispatch_rule _ none (.directExecute _ hdata howner)
  next dom suffix req sig hdata =>
    simp only [CustomSmartWallet.execute, Prog.bind_eq, Prog.pure_eq, wp_bind, wp_require,
      wp_wallet_modifyStorage, wp_whenever, wp_payToken, wp_wallet_storage, wp_gas, wp_ret]
    intro hcaller
    refine wp_verifySig fun howner hnonce hsigned => ?_
    have hauth := Authorises.execute .customSmartWallet hdata ⟨hcaller, howner, hnonce, hsigned⟩
    have hcounted := hstart.setWallet (SmartWallet.nextNonce (c₀.state.wallets msg.self))
    constructor
    · intro _
      exact ⟨trivial, fun ret c' hpost _ g _ => (hcounted.pay hpost).dispatch_rule _ _ hauth⟩
    · exact fun _ g _ => hcounted.dispatch_rule _ _ hauth
  next owner logic token recipient amount gas params hdata =>
    simp only [CustomSmartWallet.initializeCustomWallet, Prog.bind_eq, Prog.pure_eq, wp_bind,
      wp_nonPayable, wp_wallet_storage, wp_require, wp_wallet_modifyStorage, wp_whenever,
      wp_payToken, wp_lowLevelDelegatecall, wp_ret]
    intro _ howner
    have hnamed := hstart.setWallet (SmartWallet.withOwner E (c₀.state.wallets msg.self) owner)
    -- the logic is initialised and stored
    have hlogic : ∀ c', Unspent E W msg c₀ c' →
        (logic ≠ 0 → True ∧
          ∀ r c'',
            (coinSpec E W).post (msg.delegatecallTo logic (.initializeLogic params)) r c' c'' →
            (callResult r).1 = true → Thriftily E W .customSmartWallet msg c₀
              (c''.put (c''.state.setWallet msg.self
                (CustomSmartWallet.withLogic (c''.state.wallets msg.self) logic)))) ∧
        (¬ logic ≠ 0 → Thriftily E W .customSmartWallet msg c₀ c') := by
      refine fun c' h => ⟨fun _ => ⟨trivial, fun r c'' hpost _ => ?_⟩, fun _ => h.thriftily _⟩
      have hrun := h.send (localCall_delegatecallTo msg logic (.initializeLogic params)) rfl hpost
      exact (hrun.setWallet _).thriftily _
    constructor
    · intro _
      exact ⟨trivial, fun ret c' hpost _ => hlogic c' (hnamed.pay hpost)⟩
    · exact fun _ => hlogic _ hnamed
  next =>
    simp only [CustomSmartWallet.fallback, Prog.bind_eq, Prog.pure_eq, wp_bind, wp_wallet_storage,
      wp_ite, wp_send, wp_bubble, wp_ret]
    constructor
    · intro _
      refine ⟨trivial, fun r c' hpost _ _ => ?_⟩
      exact (hstart.send (localCall_delegatecallTo msg _ msg.data) rfl hpost).thriftily _
    · exact fun _ => hstart.thriftily _

/-- What a proxy sends. -/
theorem proxy_sends (masterCopy : Address) :
    wp (coinSpec E W) (Proxy.code masterCopy msg) (fun _ c' => ∃ f, Tracked True E W msg c₀ f c' ∧
      ∀ x ∈ f.roots, x.msg = msg.delegatecallTo masterCopy msg.data) c₀ := by
  unfold Proxy.code
  rw [wp_bind, wp_send]
  refine ⟨trivial, fun r c' hpost => (wp_bubble _ _ _ _).mpr fun _ _ => ?_⟩
  have hstart : Tracked True E W msg c₀ .nil c₀ := .start
  obtain ⟨f, hnext, hroots⟩ :=
    hstart.send (localCall_delegatecallTo msg masterCopy msg.data) hpost
  refine ⟨f, hnext, fun x hx => ?_⟩
  rcases hroots with hnil | hone
  · rw [hnil] at hx
    cases hx
  · rw [hone, List.mem_singleton] at hx
    rw [hx]

end Code

/-! ## All frames -/

section Meets

variable {E : Env} {W : Address} {msg : Msg} {c c' : ChainConf χ} {s : World χ} {k : Code}

/-- What is left to show of a frame. -/
def Ends (E : Env) (W : Address) (msg : Msg) (c : ChainConf χ) (s : World χ) (c' : ChainConf χ) :
    Prop :=
  ∃ sub, Grew (Thrifty E) (c.entered msg s) sub c' ∧ Thrifty E ⟨msg, c.state⟩ sub ∧
    Accounted True W c.state c'.state (.tree ⟨msg, c.state⟩ sub)

/-- A frame of a wallet. -/
theorem Thriftily.ends (h : Thriftily E W k msg (c.entered msg s) c')
    (henter : enter msg c.state = some s)
    (hcode : codeAt (⟨msg, c.state⟩ : Entry (World χ) Msg) = some k) (hk : k.isWallet = true) :
    Ends E W msg c s c' := by
  obtain ⟨b, rfl, -⟩ := enter_frame henter
  obtain ⟨sub, htracked, hspends⟩ := h
  refine ⟨sub, htracked.grew, ⟨htracked.own, ?_, ?_⟩, htracked.books.close henter (Or.inl trivial)⟩
  · intro k' hk' _
    obtain rfl := Option.some.inj (hcode.symm.trans hk')
    exact hspends
  · intro masterCopy hproxy
    obtain rfl := Option.some.inj (hcode.symm.trans hproxy)
    cases hk

/-- A frame of a proxy. -/
theorem Tracked.proxy_ends {masterCopy : Address} {sub : Frames χ}
    (h : Tracked True E W msg (c.entered msg s) sub c') (henter : enter msg c.state = some s)
    (hcode : codeAt (⟨msg, c.state⟩ : Entry (World χ) Msg) = some (.proxy masterCopy))
    (hsub : ∀ x ∈ sub.roots, x.msg = msg.delegatecallTo masterCopy msg.data) :
    Ends E W msg c s c' := by
  refine ⟨sub, h.grew, ⟨h.own, ?_, ?_⟩, h.books.close henter (Or.inl trivial)⟩
  · intro k' hk' hwallet
    obtain rfl := Option.some.inj (hcode.symm.trans hk')
    cases hwallet
  · intro masterCopy' hproxy
    obtain rfl := Code.proxy.inj (Option.some.inj (hcode.symm.trans hproxy))
    exact hsub

/-- A frame of other code. -/
theorem Tracked.ends {exact : Prop} {sub : Frames χ}
    (h : Tracked exact E W msg (c.entered msg s) sub c') (henter : enter msg c.state = some s)
    (hcode : ∀ k, codeAt (⟨msg, c.state⟩ : Entry (World χ) Msg) = some k → k.isForeign = true)
    (hexact : exact ∨ Foreign W (⟨msg, c.state⟩ : Entry (World χ) Msg)) : Ends E W msg c s c' := by
  refine ⟨sub, h.grew, ⟨h.own, ?_, ?_⟩, h.books.close henter hexact⟩
  · intro k hk hwallet
    have hforeign := hcode k hk
    rw [Code.isForeign_of_isWallet hwallet] at hforeign
    cases hforeign
  · intro masterCopy hproxy
    cases hcode _ hproxy

/-- Other code keeps the books of its account at most, and those of the others exactly. -/
theorem foreign_ends {O : Outside E χ} (henter : enter msg c.state = some s)
    (hcode : codeAt (⟨msg, c.state⟩ : Entry (World χ) Msg) = some k)
    (hkept : (s.code msg.codeAddress).map Contract.code = some k) (hforeign : k.isForeign = true) :
    wp (coinSpec E W) (codeOf E O msg s) (fun _ c' => Ends E W msg c s c') (c.entered msg s) := by
  have hall : ∀ k', codeAt (⟨msg, c.state⟩ : Entry (World χ) Msg) = some k' →
      k'.isForeign = true := by
    intro k' hk'
    obtain rfl := Option.some.inj (hcode.symm.trans hk')
    exact hforeign
  have hback : ∀ {exact : Prop} (m : Msg) (r : Except Revert Bytes) (c₁ c₂ : ChainConf χ),
      LocalCall msg m → (∃ f, Tracked exact E W msg (c.entered msg s) f c₁) →
        (coinSpec E W).post m r c₁ c₂ → ∃ f, Tracked exact E W msg (c.entered msg s) f c₂ := by
    rintro exact m r c₁ c₂ hm ⟨f, htracked⟩ hpost
    obtain ⟨g, hnext, -⟩ := htracked.send hm hpost
    exact ⟨_, hnext⟩
  by_cases hself : msg.self = W
  · have hwrite : ∀ (c₁ : ChainConf χ) w, (∃ f, Tracked False E W msg (c.entered msg s) f c₁) →
        FrameStep E msg c₁.state k w →
          ∃ f, Tracked False E W msg (c.entered msg s) f (c₁.put w) := by
      rintro c₁ w ⟨f, htracked⟩ hw
      exact ⟨f, htracked.put (hself ▸ Accounted.of_frame hw)⟩
    have hwp := wp_within hwrite (fun _ _ _ _ => trivial) hback (local_codeOf E msg O s hkept)
      (c.entered msg s) ⟨_, Tracked.start⟩
    refine wp_mono _ ?_ _ _ hwp
    rintro _ c' ⟨f, htracked⟩
    exact htracked.ends henter hall (Or.inr ⟨hself, k, hcode, hforeign⟩)
  · have hwrite : ∀ (c₁ : ChainConf χ) w, (∃ f, Tracked True E W msg (c.entered msg s) f c₁) →
        LocalStep E msg c₁.state w → ∃ f, Tracked True E W msg (c.entered msg s) f (c₁.put w) := by
      rintro c₁ w ⟨f, htracked⟩ hw
      exact ⟨f, htracked.put (Accounted.of_local hw hself)⟩
    refine wp_mono _ ?_ _ _
      (wp_foreign hwrite (fun _ _ _ _ => trivial) hback (c.entered msg s) ⟨_, Tracked.start⟩)
    rintro _ c' ⟨f, htracked⟩
    exact htracked.ends henter hall (Or.inl trivial)

end Meets

/-- **Who spends what.** -/
theorem coins_meet (E : Env) (O : Outside E χ) (W : Address) :
    Meets (machine E O) (coinSpec E W) := by
  refine framed_meets fun msg c s henter => ?_
  have hsame : codeAt (⟨msg, c.state⟩ : Entry (World χ) Msg) =
      (s.code msg.codeAddress).map Contract.code := by
    obtain ⟨b, rfl, -⟩ := enter_frame henter
    rfl
  show wp (coinSpec E W) (codeOf E O msg s) (fun _ c' => Ends E W msg c s c') (c.entered msg s)
  cases hk : (s.code msg.codeAddress).map Contract.code with
  | none =>
      have hnone : codeOf E O msg s = .ret [] := codeOf_none E msg O (Option.map_eq_none_iff.mp hk)
      rw [hnone]
      refine Tracked.ends Tracked.start henter (fun k h => ?_) (Or.inl trivial)
      rw [hsame, hk] at h
      cases h
  | some k =>
      rw [hk] at hsame
      cases k with
      | smartWallet =>
          unfold codeOf
          rw [hk]
          exact wp_mono _ (fun _ _ h => Thriftily.ends h henter hsame rfl) _ _ smartWallet_spends
      | customSmartWallet =>
          unfold codeOf
          rw [hk]
          exact wp_mono _ (fun _ _ h => Thriftily.ends h henter hsame rfl) _ _
            customSmartWallet_spends
      | proxy masterCopy =>
          unfold codeOf
          rw [hk]
          refine wp_mono _ ?_ _ _ (proxy_sends masterCopy)
          rintro _ c' ⟨sub, htracked, hsub⟩
          exact htracked.proxy_ends henter hsame hsub
      | _ => exact foreign_ends henter hsame hk rfl

end Coins

end RifRelay
