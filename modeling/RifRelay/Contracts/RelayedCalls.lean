import RifRelay.Contracts.ForwardedGas
import RifRelay.Contracts.WalletAuthenticity
import RifRelay.Machine.Outcomes

set_option autoImplicit false

/-! # Relayed calls are all or nothing

Four frames lie between a relay transaction and the contract it is for: the hub, the proxy, the
code of the wallet, the destination. Each turns a failure into something else: the hub reverts
if the wallet has, the wallet hands on whether the destination has reverted, the token is asked
for its answer. `relayCall_all_or_nothing` says what comes out: either nothing has changed, or
the wallet has executed the request with its next nonce, the token has confirmed the payment,
and the one event that the hub logs and the flag that it returns tell how the destination
answered.
-/

namespace RifRelay

open CallMachine IForwarder EnvelopingTypes

variable {χ : Type}

/-! ## In the frame of the wallet -/

namespace SmartWallet

open Wallet

/-- What `execute` has done when it returns `result`, for messages that do what `S` promises. -/
structure Executes (S : Spec (World χ) Msg Revert Bytes) (E : Env) (msg : Msg)
    (dom suffix : Word) (req : ForwardRequest) (sig : Bytes) (c : ChainConf χ)
    (result : Bool × Bytes) (c' : ChainConf χ) : Prop where
  accepted : Accepts E msg (c.state.wallets msg.self) dom suffix req sig
  calls : ∃ c₁ r c₂,
    (¬ 0 < req.tokenAmount ∧ c₁ = written msg nextNonce c ∨
      0 < req.tokenAmount ∧ ∃ ret,
        S.post (payment msg req) (.ok ret) (written msg nextNonce c) c₁ ∧ TokenOk ret) ∧
    S.post (destinationCall E msg req) r c₁ c₂ ∧ result = callResult r ∧
    (c' = c₂ ∨ ∃ value ret, S.post (msg.callTo req.from value .empty) (.ok ret) c₂ c')

section Execute

variable {M : Machine (World χ) Msg Revert Bytes} {E : Env} {msg : Msg} {c : ChainConf χ}

theorem wp_execute (dom suffix : Word) (req : ForwardRequest) (sig : Bytes) :
    wp (Spec.ran M) (execute E msg dom suffix req sig)
      (Executes (Spec.ran M) E msg dom suffix req sig c) c := by
  simp only [execute, Prog.bind_eq, Prog.pure_eq, wp_bind, wp_require, wp_wallet_modifyStorage,
    wp_whenever, wp_payToken, wp_gas, wp_ret]
  intro hcaller
  refine wp_verifySig fun howner hnonce hsigned => ?_
  have haccepted : Accepts E msg (c.state.wallets msg.self) dom suffix req sig :=
    ⟨hcaller, howner, hnonce, hsigned⟩
  -- the destination and the last transfer, once the worker is paid
  have hrest : ∀ c₁ : ChainConf χ,
      (¬ 0 < req.tokenAmount ∧ c₁ = written msg nextNonce c ∨
        0 < req.tokenAmount ∧ ∃ ret, (Spec.ran M).post (payment msg req) (.ok ret)
          (written msg nextNonce c) c₁ ∧ TokenOk ret) →
      wp (Spec.ran M) (lowLevelCall msg (some req.gas.toNat) req.to req.value
          (E.abiDecode req.data))
        (fun result c₂ => wp (Spec.ran M) (sweep msg req.from)
          (fun _ c' => Executes (Spec.ran M) E msg dom suffix req sig c result c') c₂) c₁ := by
    intro c₁ hpaid
    rw [wp_lowLevelCall]
    refine ⟨trivial, fun r c₂ hdest => ?_⟩
    rw [wp_sweep]
    refine ⟨fun _ => ⟨trivial, fun ret c' hswept => ?_⟩, fun _ => ?_⟩
    · exact ⟨haccepted, c₁, r, c₂, hpaid, hdest, rfl, Or.inr ⟨_, ret, hswept⟩⟩
    · exact ⟨haccepted, c₁, r, c₂, hpaid, hdest, rfl, Or.inl rfl⟩
  refine ⟨fun hamount => ⟨trivial, fun ret c₁ hpost hok g _ => ?_⟩, fun hfree g _ => ?_⟩
  · exact hrest c₁ (Or.inr ⟨hamount, ret, hpost, hok⟩)
  · exact hrest _ (Or.inl ⟨hfree, rfl⟩)

/-- What a call of `execute` returns. -/
theorem wp_code_execute {dom suffix : Word} {req : ForwardRequest} {sig : Bytes}
    (hdata : msg.data = .execute dom suffix req sig) :
    wp (Spec.ran M) (code E msg) (fun ret c' => ∃ success data,
      ret = Abi.encodeBoolBytes success data ∧
        Executes (Spec.ran M) E msg dom suffix req sig c (success, data) c') c := by
  unfold code
  rw [hdata]
  simp only [Prog.bind_eq, Prog.pure_eq, wp_bind, wp_ret]
  refine wp_mono _ ?_ _ _ (wp_execute dom suffix req sig)
  rintro ⟨success, data⟩ c' h
  exact ⟨success, data, rfl, h⟩

end Execute

end SmartWallet

/-! ## In the frames of the proxy and of the hub -/

section Frames

variable {E : Env} {O : Outside E χ} {msg m : Msg} {c c' : ChainConf χ} {ret : Bytes}

/-- A message to a proxy went through in the code of the master copy. -/
theorem ran_proxy {masterCopy : Address} {creation : Bytes}
    (h : (Spec.ran (machine E O)).post m (.ok ret) c c')
    (hcode : c.state.code m.codeAddress = some ⟨.proxy masterCopy, creation⟩) :
    ∃ s c₁, enter m c.state = some s ∧ c' = c₁.answered m (.ok ret) ∧
      (Spec.ran (machine E O)).post (m.delegatecallTo masterCopy m.data) (.ok ret)
        (c.entered m s) c₁ := by
  obtain ⟨s, c₁, henter, hran, hc', -⟩ := ran_frame (Q := fun s ret c₁ =>
      (Spec.ran (machine E O)).post (m.delegatecallTo masterCopy m.data) (.ok ret)
        (c.entered m s) c₁) h fun s henter => by
    obtain ⟨b, rfl, -⟩ := enter_frame henter
    have hrun : codeOf E O m { c.state with balance := b } = Proxy.code masterCopy m := by
      unfold codeOf
      rw [show ({ c.state with balance := b } : World χ).code = c.state.code from rfl, hcode]
      rfl
    show wp _ (codeOf E O m _) _ _
    rw [hrun, Proxy.code, wp_bind, wp_send]
    refine ⟨trivial, fun r c₁ hpost => ?_⟩
    rw [wp_bubble]
    rintro ret rfl
    exact hpost
  exact ⟨s, c₁, henter, hc', hran⟩

/-- A relay call of a hub went through: the wallet was called, and the hub returns and logs what
the wallet has returned. -/
theorem ran_relayCall {relayRequest : RelayRequest} {signature creation : Bytes}
    (h : (Spec.ran (machine E O)).post msg (.ok ret) c c')
    (hcode : c.state.code msg.codeAddress = some ⟨.relayHub, creation⟩)
    (hdata : msg.data = .relayCall relayRequest signature) :
    ∃ s ret₁ c₁ success data, enter msg c.state = some s ∧
      RelayHub.RelayGuard msg (c.state.hubs msg.self) relayRequest.relayData ∧
      (Spec.ran (machine E O)).post (RelayHub.executeMsg E msg relayRequest signature) (.ok ret₁)
        (c.entered msg s) c₁ ∧
      Abi.decodeBoolBytes ret₁ = some (success, data) ∧ ret = Abi.encodeBool success ∧
      c' = (c₁.put (RelayHub.after c₁.state msg.self (c₁.state.hubs msg.self)
        [RelayHub.relayedEvent E msg (c.state.hubs msg.self) signature success
          (Eip712Library.truncateInPlace data 1024)])).answered msg (.ok ret) := by
  obtain ⟨s, c₂, henter, ⟨ret₁, c₁, success, data, hguard, hran, hdecode, hret, rfl⟩, hc', -⟩ :=
    ran_frame (Q := fun s ret c₂ => ∃ ret₁ c₁ success data,
      RelayHub.RelayGuard msg (c.state.hubs msg.self) relayRequest.relayData ∧
      (Spec.ran (machine E O)).post (RelayHub.executeMsg E msg relayRequest signature) (.ok ret₁)
        (c.entered msg s) c₁ ∧
      Abi.decodeBoolBytes ret₁ = some (success, data) ∧ ret = Abi.encodeBool success ∧
      c₂ = c₁.put (RelayHub.after c₁.state msg.self (c₁.state.hubs msg.self)
        [RelayHub.relayedEvent E msg (c.state.hubs msg.self) signature success
          (Eip712Library.truncateInPlace data 1024)])) h fun s henter => by
    obtain ⟨b, rfl, -⟩ := enter_frame henter
    have hrun : codeOf E O msg { c.state with balance := b } = RelayHub.code E msg := by
      unfold codeOf
      rw [show ({ c.state with balance := b } : World χ).code = c.state.code from rfl, hcode]
      rfl
    show wp _ (codeOf E O msg _) _ _
    rw [hrun]
    refine RelayHub.wp_code (c.state.hubs msg.self) rfl ?_ ?_ ?_ ?_ ?_
    · intro _ _ _ _ _ _ hrelay
      exact absurd hdata (hrelay _ _)
    · intro rr sig hdata' hguard
      obtain ⟨rfl, rfl⟩ := CallData.relayCall.inj (hdata.symm.trans hdata')
      refine ⟨trivial, fun ret₁ c₁ hpost success data hdecode => ?_⟩
      exact ⟨ret₁, c₁, success, data, hguard, hpost, hdecode, rfl, rfl⟩
    · intro _ _ hdata'
      rw [hdata] at hdata'
      cases hdata'
    · intro _ hdata'
      rw [hdata] at hdata'
      cases hdata'
    · intro _ _ _ hdata'
      rw [hdata] at hdata'
      cases hdata'
  exact ⟨s, ret₁, c₁, success, data, henter, hguard, hran, hdecode, hret, hc'⟩

end Frames

/-! ## The events of the hub -/

namespace RelayHub

/-- The event tells of a relayed call. -/
def isRelayed : Event → Bool
  | .TransactionRelayed _ _ _ _ => true
  | .TransactionRelayedButRevertedByRecipient _ _ _ _ => true
  | _ => false

/-- What the hub at `H` has logged about relayed calls. -/
def relayedLogs (H : Address) (logs : List (Address × Event)) : List (Address × Event) :=
  logs.filter fun x => x.1 == H && isRelayed x.2

section Logs

variable {H : Address} {logs l : List (Address × Event)}

theorem relayedLogs_append_other (hl : ∀ x ∈ l, x.1 = H → isRelayed x.2 = false) :
    relayedLogs H (logs ++ l) = relayedLogs H logs := by
  have hnil : l.filter (fun x => x.1 == H && isRelayed x.2) = [] := by
    rw [List.filter_eq_nil_iff]
    intro x hx h
    rw [Bool.and_eq_true, beq_iff_eq] at h
    exact Bool.false_ne_true ((hl x hx h.1).symm.trans h.2)
  rw [relayedLogs, List.filter_append, hnil, List.append_nil, relayedLogs]

theorem isRelayed_relayedEvent (E : Env) (msg : Msg) (hub : RelayHub) (signature : Bytes)
    (success : Bool) (ret : Bytes) :
    isRelayed (relayedEvent E msg hub signature success ret) = true := by
  cases success <;> rfl

theorem relayedLogs_snoc {e : Event} (he : isRelayed e = true) :
    relayedLogs H (logs ++ [(H, e)]) = relayedLogs H logs ++ [(H, e)] := by
  simp [relayedLogs, List.filter_append, he]

end Logs

section Inner

variable {E : Env} {O : Outside E χ} {w₀ : World χ} {H : Address} {creation : Bytes}
  {t : TxContext} {msg m : Msg} {c c' : ChainConf χ} {s : World χ}

/-- The hub has its code, and has logged no more relayed calls than in `c`. -/
def Unlogged (E : Env) (w₀ : World χ) (H : Address) (c c' : ChainConf χ) : Prop :=
  CodeKept E w₀ (· = H) c'.state ∧
    relayedLogs H c'.state.logs = relayedLogs H c.state.logs

/-- How messages reach the hub from within a transaction: the sender is a contract. -/
structure Inner (E : Env) (w₀ : World χ) (H : Address) (t : TxContext) (m : Msg)
    (c : ChainConf χ) : Prop where
  tx : m.tx = t
  kept : CodeKept E w₀ (· = H) c.state
  addressed : Addressed (· = H) m
  sender : m.self = H → m.sender ≠ t.origin
  delegated : m.kind = .delegatecall → m.self ≠ t.origin

/-- No message from within a transaction makes the hub log a relayed call. -/
def innerSpec (E : Env) (w₀ : World χ) (H : Address) (t : TxContext) :
    Spec (World χ) Msg Revert Bytes where
  pre := Inner E w₀ H t
  post _ _ c c' := Unlogged E w₀ H c c'

theorem Unlogged.put (h : Unlogged E w₀ H c c') (hcode : s.code = c'.state.code)
    {l : List (Address × Event)} (hlogs : s.logs = c'.state.logs ++ l)
    (hl : ∀ x ∈ l, x.1 = H → isRelayed x.2 = false) : Unlogged E w₀ H c (c'.put s) := by
  refine ⟨h.1.congr hcode, ?_⟩
  rw [Conf.put_state, hlogs, relayedLogs_append_other hl]
  exact h.2

/-- A write of another account. -/
theorem Unlogged.write (h : Unlogged E w₀ H c c') (hcode : w₀.code H ≠ none)
    (hself : msg.self ≠ H) (hw : LocalStep E msg c'.state s) : Unlogged E w₀ H c (c'.put s) := by
  refine ⟨h.1.write (fun a ha => ha ▸ hcode) (fun ha => absurd ha hself) hw, ?_⟩
  obtain ⟨l, hlogs, hl⟩ := hw.logs
  rw [Conf.put_state, hlogs, relayedLogs_append_other fun x hx hH =>
    absurd ((hl x hx).symm.trans hH) hself]
  exact h.2

/-- What the hub sends. -/
theorem Inner.callTo (hkept : CodeKept E w₀ (· = H) c.state) (htx : msg.tx = t)
    (hself : msg.self ≠ t.origin) (dest : Address) (value : Word) (data : CallData) :
    Inner E w₀ H t (msg.callTo dest value data) c where
  tx := htx
  kept := hkept
  addressed := Addressed.callTo _ msg dest value data
  sender := fun _ => hself
  delegated := fun h => by cases h

theorem inner_hub_frame (hcode : w₀.code H = some ⟨.relayHub, creation⟩)
    (horigin : E.codeless t.origin = true) (hself : msg.self = H) (hp : Inner E w₀ H t msg c)
    (hentered : Unlogged E w₀ H c (c.entered msg s)) :
    wp (innerSpec E w₀ H t) (code E msg) (fun _ c' => Unlogged E w₀ H c c')
      (c.entered msg s) := by
  have hne : msg.self ≠ t.origin := by
    rw [hself]
    rintro rfl
    have hnone := hp.kept.codeless _ horigin
    rw [hp.kept.code _ rfl, hcode] at hnone
    cases hnone
  have hafter : ∀ (c' : ChainConf χ) hub events, Unlogged E w₀ H c c' →
      (∀ e ∈ events, isRelayed e = false) →
      Unlogged E w₀ H c (c'.put (after c'.state msg.self hub events)) := by
    intro c' hub events h hevents
    refine h.put rfl rfl ?_
    intro x hx _
    obtain ⟨e, he, rfl⟩ := List.mem_map.mp hx
    exact hevents e he
  have hsends : ∀ (c' : ChainConf χ) dest value data, Unlogged E w₀ H c c' →
      Inner E w₀ H t (msg.callTo dest value data) c' :=
    fun c' dest value data h => Inner.callTo h.1 hp.tx hne dest value data
  -- a relay or a deploy call has to come from the sender of the transaction
  have hguarded : ∀ hub relayData, ¬ RelayGuard msg hub relayData := by
    intro hub relayData hguard
    exact hp.sender hself (hguard.origin.trans (congrArg TxContext.origin hp.tx))
  refine wp_code ((c.entered msg s).state.hubs msg.self) rfl ?_ ?_ ?_ ?_ ?_
  · rintro hub' events ret - hwithdraw hpenalize hrelay hdeploy rfl
    refine hafter _ _ _ hentered ?_
    intro e he
    unfold quietEvents at he
    split at he <;> simp only [List.mem_singleton, List.not_mem_nil] at he <;> subst he <;> rfl
  · intro relayRequest signature hdata hguard
    exact absurd hguard (hguarded _ _)
  · intro deployRequest signature hdata hguard
    exact absurd hguard (hguarded _ _)
  · intro relayManager hdata heffect
    have hwritten := hafter _ (((c.entered msg s).state.hubs msg.self).setStake relayManager
      StakeInfo.zero) [] hentered (by simp)
    refine ⟨hsends _ _ _ _ hwritten, fun ret c' hback => ?_⟩
    exact hafter _ _ _ ⟨hback.1, hback.2.trans hwritten.2⟩ (by simp [isRelayed])
  · intro relayWorker beneficiary relayManager hdata hmanager heffect
    have hwritten := hafter _ (((c.entered msg s).state.hubs msg.self).setStake relayManager
      { ((c.entered msg s).state.hubs msg.self).stakes relayManager with stake := 0 }) [] hentered
      (by simp)
    refine ⟨hsends _ _ _ _ hwritten, fun ret₁ c₂ hback₁ => ?_⟩
    have hburnt : Unlogged E w₀ H c c₂ := ⟨hback₁.1, hback₁.2.trans hwritten.2⟩
    refine ⟨hsends _ _ _ _ hburnt, fun ret₂ c₃ hback₂ => ?_⟩
    exact hafter _ _ _ ⟨hback₂.1, hback₂.2.trans hburnt.2⟩ (by simp [isRelayed])

theorem inner_foreign_frame (hcode : w₀.code H ≠ none) (horigin : E.codeless t.origin = true)
    (hself : msg.self ≠ H) (hp : Inner E w₀ H t msg c)
    (hentered : Unlogged E w₀ H c (c.entered msg s)) (hs : s.code = c.state.code) :
    wp (innerSpec E w₀ H t) (codeOf E O msg s) (fun _ c' => Unlogged E w₀ H c c')
      (c.entered msg s) := by
  cases hcontract : s.code msg.codeAddress with
  | none =>
      rw [codeOf_none E msg O hcontract]
      exact hentered
  | some contract =>
      have hne : msg.self ≠ t.origin := by
        by_cases hkind : msg.kind = .delegatecall
        · exact hp.delegated hkind
        · intro heq
          have hnone := hp.kept.codeless _ horigin
          rw [hs, hp.addressed.1 hkind, heq, hnone] at hcontract
          cases hcontract
      refine wp_foreign ?_ ?_ ?_ _ hentered
      · exact fun c₁ w h hw => h.write hcode hself hw
      · intro m c₁ hm h
        refine ⟨hm.1.trans hp.tx, h.1, Addressed.of_local hself hm, ?_, ?_⟩
        · intro hH
          rcases hm.2 with ⟨-, heq, -⟩ | ⟨-, heq, -⟩
          · exact absurd (heq.symm.trans hH) hself
          · rw [heq]
            exact hne
        · intro hkind
          rcases hm.2 with ⟨-, heq, -⟩ | ⟨hcall, -⟩
          · rw [heq]
            exact hne
          · exact absurd hkind hcall
      · intro m r c₁ c₂ _ h hback
        exact ⟨hback.1, hback.2.trans h.2⟩

theorem inner_meets (hcode : w₀.code H = some ⟨.relayHub, creation⟩)
    (horigin : E.codeless t.origin = true) : Meets (machine E O) (innerSpec E w₀ H t) where
  fail _ _ _ hp := ⟨hp.kept.congr rfl, rfl⟩
  code msg c s hp henter := by
    have hs : s.code = c.state.code ∧ s.logs = c.state.logs := by
      obtain ⟨b, rfl, -⟩ := enter_frame henter
      exact ⟨rfl, rfl⟩
    have hentered : Unlogged E w₀ H c (c.entered msg s) :=
      ⟨hp.kept.enter henter, congrArg (relayedLogs H) hs.2⟩
    suffices h : wp (innerSpec E w₀ H t) (codeOf E O msg s) (fun _ c' => Unlogged E w₀ H c c')
        (c.entered msg s) from wp_mono _ (fun _ _ h => ⟨h.1.congr rfl, h.2⟩) _ _ h
    by_cases hself : msg.self = H
    · have hrun : codeOf E O msg s = code E msg := by
        rw [codeOf, hp.addressed.codeAddress hself, hself, hs.1, hp.kept.code _ rfl, hcode]
        rfl
      rw [hrun]
      exact inner_hub_frame hcode horigin hself hp hentered
    · exact inner_foreign_frame (by rw [hcode]; exact Option.some_ne_none _) horigin hself hp
        hentered hs.1

end Inner

end RelayHub

/-! ## The whole call -/

open SmartWallet Wallet

/-- What the relay call `msg` of the hub at `H` has done when it returns `success`. -/
structure RelayedCall (E : Env) (H W mc : Address) (relayRequest : RelayRequest)
    (signature : Bytes) (msg : Msg) (c : ChainConf χ) (success : Bool) (c' : ChainConf χ) :
    Prop where
  guard : RelayHub.RelayGuard msg (c.state.hubs H) relayRequest.relayData
  executed : ∃ e₁ e₂ rest, c'.trace = c.trace ++ (⟨msg, c.state⟩ :: e₁ :: e₂ :: rest) ∧
    executionOf W mc e₂ = some ⟨relayRequest.relayData.domainSeparator,
      Eip712Library.hashRelayData E relayRequest.relayData, relayRequest.request⟩ ∧
    (c.state.wallets W).nonce = relayRequest.request.nonce ∧
    (c'.state.wallets W).nonce =
      relayRequest.request.nonce + 1 + BitVec.ofNat 256 (executions W mc rest).length
  paid : 0 < relayRequest.request.tokenAmount → ∃ ret, TokenOk ret ∧
    NewAnswer c c' (payment (RelayHub.executeMsg E msg relayRequest signature)
      relayRequest.request) (.ok ret)
  told : ∃ r data,
    NewAnswer c c' (destinationCall E (RelayHub.executeMsg E msg relayRequest signature)
      relayRequest.request) r ∧
    success = (callResult r).1 ∧
    RelayHub.relayedLogs H c'.state.logs = RelayHub.relayedLogs H c.state.logs ++
      [(H, RelayHub.relayedEvent E msg (c.state.hubs H) signature success data)] ∧
    ((callResult r).2.length < 2 ^ 64 → data = (callResult r).2.take 1024)

section Relayed

variable {E : Env} {O : Outside E χ} {w₀ : World χ} {H W mc : Address} {b : Word}
  {c c' : ChainConf χ} {m : Msg} {ret : Bytes}

/-- A call of `execute` that a proxy handed on went through: it has done what `execute` does in
the code of the wallet, and nothing else has changed. -/
theorem ran_forwarded {kW kmc : Bytes} (h : (Spec.ran (machine E O)).post m (.ok ret) c c')
    (hcode : c.state.code m.codeAddress = some ⟨.proxy mc, kW⟩)
    (hmaster : c.state.code mc = some ⟨.smartWallet, kmc⟩) {dom suffix : Word}
    {req : ForwardRequest} {sig : Bytes} (hdata : m.data = .execute dom suffix req sig) :
    ∃ s c₁ success data, s.wallets = c.state.wallets ∧
      ret = Abi.encodeBoolBytes success data ∧
      Executes (Spec.ran (machine E O)) E (m.delegatecallTo mc m.data) dom suffix req sig
        ((c.entered m s).entered (m.delegatecallTo mc m.data) s) (success, data) c₁ ∧
      ((c.entered m s).entered (m.delegatecallTo mc m.data) s).Continues c₁ ∧
      c' = (c₁.answered (m.delegatecallTo mc m.data) (.ok ret)).answered m (.ok ret) := by
  obtain ⟨s, c₂, henter, rfl, hran⟩ := ran_proxy h hcode
  have hs : s.wallets = c.state.wallets ∧ s.code = c.state.code := by
    obtain ⟨b, rfl, -⟩ := enter_frame henter
    exact ⟨rfl, rfl⟩
  obtain ⟨s', c₁, henter', ⟨success, data, hret, hexecutes⟩, rfl, hcontinues⟩ :=
    ran_frame (Q := fun _ ret c₁ => ∃ success data, ret = Abi.encodeBoolBytes success data ∧
      Executes (Spec.ran (machine E O)) E (m.delegatecallTo mc m.data) dom suffix req sig
        ((c.entered m s).entered (m.delegatecallTo mc m.data) s) (success, data) c₁) hran
      fun s' henter' => by
    obtain rfl : s = s' := Option.some.inj henter'
    have hrun : codeOf E O (m.delegatecallTo mc m.data) s =
        SmartWallet.code E (m.delegatecallTo mc m.data) := by
      unfold codeOf
      rw [hs.2, show (m.delegatecallTo mc m.data).codeAddress = mc from rfl, hmaster]
      rfl
    show wp _ (codeOf E O _ _) _ _
    rw [hrun]
    exact wp_code_execute hdata
  obtain rfl : s = s' := Option.some.inj henter'
  exact ⟨s, c₁, success, data, hs.1, hret, hexecutes, hcontinues, rfl⟩

/-- A relay call that went through, frame by frame: the hub calls the wallet in the state `s`, the
proxy hands the call on in `s₁`, the call of the destination leads from `before` to `beyond`, and
the hub goes on in `back`. -/
structure Unwound (E : Env) (O : Outside E χ) (mc : Address) (relayRequest : RelayRequest)
    (signature : Bytes) (msg : Msg) (c : ChainConf χ) (s s₁ : World χ)
    (before beyond back : ChainConf χ) (r : Except Revert Bytes) (success : Bool) (data : Bytes)
    (c' : ChainConf χ) : Prop where
  guard : RelayHub.RelayGuard msg (c.state.hubs msg.self) relayRequest.relayData
  entered : s.code = c.state.code ∧ s.logs = c.state.logs
  accepted : Accepts E
    ((RelayHub.executeMsg E msg relayRequest signature).delegatecallTo mc
      (RelayHub.executeMsg E msg relayRequest signature).data)
    (c.state.wallets relayRequest.relayData.callForwarder) relayRequest.relayData.domainSeparator
    (Eip712Library.hashRelayData E relayRequest.relayData) relayRequest.request signature
  called : ∃ ret, (Spec.ran (machine E O)).post (RelayHub.executeMsg E msg relayRequest signature)
    (.ok ret) (c.entered msg s) back
  trace : ∃ rest, c'.trace = c.trace ++ (⟨msg, c.state⟩ ::
    ⟨RelayHub.executeMsg E msg relayRequest signature, s⟩ ::
    ⟨(RelayHub.executeMsg E msg relayRequest signature).delegatecallTo mc
      (RelayHub.executeMsg E msg relayRequest signature).data, s₁⟩ :: rest)
  paid : ∃ c₁, c.Continues c₁ ∧ (¬ 0 < relayRequest.request.tokenAmount ∧ before = c₁ ∨
    0 < relayRequest.request.tokenAmount ∧ ∃ ret, (Spec.ran (machine E O)).post
      (payment (RelayHub.executeMsg E msg relayRequest signature) relayRequest.request) (.ok ret)
      c₁ before ∧ TokenOk ret)
  destination : (Spec.ran (machine E O)).post
    (destinationCall E (RelayHub.executeMsg E msg relayRequest signature) relayRequest.request) r
    before beyond
  closing : beyond.Continues c'
  result : success = (callResult r).1
  answer : (callResult r).2.length < 2 ^ 64 → data = (callResult r).2.take 1024
  logs : c'.state.logs = back.state.logs ++
    [(msg.self, RelayHub.relayedEvent E msg (c.state.hubs msg.self) signature success data)]

/-- Going in, from the frame of the hub to that of the wallet. -/
theorem relayCall_unwound {msg : Msg} {relayRequest : RelayRequest} {signature kH kW kmc : Bytes}
    (h : (Spec.ran (machine E O)).post msg (.ok ret) c c')
    (hH : c.state.code msg.codeAddress = some ⟨.relayHub, kH⟩)
    (hW : c.state.code relayRequest.relayData.callForwarder = some ⟨.proxy mc, kW⟩)
    (hmc : c.state.code mc = some ⟨.smartWallet, kmc⟩)
    (hdata : msg.data = .relayCall relayRequest signature) :
    ∃ s s₁ before beyond back r success data, ret = Abi.encodeBool success ∧
      Unwound E O mc relayRequest signature msg c s s₁ before beyond back r success data c' := by
  obtain ⟨s, ret₁, c₁, success, data, henter, hguard, hran, hdecode, hret, hfinal⟩ :=
    ran_relayCall h hH hdata
  have hs : s.wallets = c.state.wallets ∧ s.code = c.state.code ∧ s.logs = c.state.logs := by
    obtain ⟨balance, rfl, -⟩ := enter_frame henter
    exact ⟨rfl, rfl, rfl⟩
  rw [← hs.2.1] at hW hmc
  obtain ⟨s₁, c₂, success₁, data₁, hs₁, hret₁, hexecutes, hinside, hc₁⟩ :=
    ran_forwarded hran hW hmc rfl
  rw [hret₁] at hdecode
  obtain rfl : success = success₁ := Abi.decodeBoolBytes_flag hdecode
  obtain ⟨haccepted, c₃, r, c₄, hpaid, hdestination, hresult, hswept⟩ := hexecutes
  refine ⟨s, s₁, c₃, c₄, c₁, r, success, Eip712Library.truncateInPlace data 1024, hret, ?_⟩
  refine ⟨hguard, hs.2, ?_, ⟨ret₁, hran⟩, ?_, ⟨_, ?_, hpaid⟩, hdestination, ?_,
    congrArg Prod.fst hresult, ?_, ?_⟩
  · have hwallets : s₁.wallets = c.state.wallets := hs₁.trans hs.1
    rw [← hwallets]
    exact haccepted
  · obtain ⟨⟨rest, hrest⟩, -⟩ := hinside
    refine ⟨rest, ?_⟩
    rw [hfinal, hc₁]
    show c₂.trace = _
    rw [← hrest]
    simp only [Conf.entered_trace, Conf.entered_state, List.append_assoc, List.cons_append,
      List.nil_append]
  · exact ((c.continues_entered _ _).trans (Conf.continues_entered _ _ _)).trans
      ((Conf.continues_entered _ _ _).trans (Conf.continues_put _ _))
  · have hswept' : c₄.Continues c₂ := by
      rcases hswept with hdone | ⟨value, ret₃, hsweep⟩
      · rw [hdone]
        exact Conf.Continues.refl _
      · exact ran_continues hsweep
    rw [hfinal, hc₁]
    exact hswept'.trans ((Conf.continues_answered _ _ _).trans
      ((Conf.continues_answered _ _ _).trans
        ((Conf.continues_put _ _).trans (Conf.continues_answered _ _ _))))
  · intro hlength
    obtain rfl : data₁ = (callResult r).2 := congrArg Prod.snd hresult
    rw [Abi.decodeBoolBytes_encodeBoolBytes success _ hlength] at hdecode
    obtain rfl : (callResult r).2 = data := congrArg Prod.snd (Option.some.inj hdecode)
    rfl
  · rw [hfinal]
    rfl

namespace Unwound

variable {mc : Address} {relayRequest : RelayRequest} {signature : Bytes} {msg : Msg}
  {s s₁ : World χ} {before beyond back : ChainConf χ} {r : Except Revert Bytes} {success : Bool}
  {data : Bytes}

/-- The nonces of the wallet count the executions, of which the call made one of its own. -/
theorem executed (h : Unwound E O mc relayRequest signature msg c s s₁ before beyond back r
      success data c') (hkind : msg.kind = .call)
    (hforwarder : relayRequest.relayData.callForwarder = W) (hi : Closed E w₀ H W mc c)
    (hi' : Closed E w₀ H W mc c') :
    ∃ e₁ e₂ rest, c'.trace = c.trace ++ (⟨msg, c.state⟩ :: e₁ :: e₂ :: rest) ∧
      executionOf W mc e₂ = some ⟨relayRequest.relayData.domainSeparator,
        Eip712Library.hashRelayData E relayRequest.relayData, relayRequest.request⟩ ∧
      (c.state.wallets W).nonce = relayRequest.request.nonce ∧
      (c'.state.wallets W).nonce =
        relayRequest.request.nonce + 1 + BitVec.ofNat 256 (executions W mc rest).length := by
  obtain ⟨rest, hrest⟩ := h.trace
  have hnonce : (c.state.wallets W).nonce = relayRequest.request.nonce := by
    rw [← hforwarder]
    exact h.accepted.nonce
  have hcall : ∀ e : Entry (World χ) Msg, e.msg.kind = .call → executionOf W mc e = none := by
    intro e hcall
    refine executionOf_eq_none fun hdelegate => ?_
    rw [hcall] at hdelegate
    cases hdelegate
  have hexecution : executionOf W mc (⟨(RelayHub.executeMsg E msg relayRequest
        signature).delegatecallTo mc (RelayHub.executeMsg E msg relayRequest signature).data, s₁⟩ :
      Entry (World χ) Msg) = some ⟨relayRequest.relayData.domainSeparator,
        Eip712Library.hashRelayData E relayRequest.relayData, relayRequest.request⟩ :=
    executionOf_eq_some.mpr ⟨rfl, hforwarder, rfl, signature, rfl⟩
  refine ⟨_, _, rest, hrest, hexecution, hnonce, ?_⟩
  have hcount : (executions W mc c'.trace).length =
      (executions W mc c.trace).length + 1 + (executions W mc rest).length := by
    rw [hrest, executions_append, List.length_append, executions, executions, executions,
      List.filterMap_cons_none (hcall _ hkind), List.filterMap_cons_none (hcall _ rfl),
      List.filterMap_cons_some hexecution, List.length_cons]
    omega
  calc (c'.state.wallets W).nonce
      = (w₀.wallets W).nonce + BitVec.ofNat 256 (executions W mc c'.trace).length := hi'.nonce
    _ = (w₀.wallets W).nonce + BitVec.ofNat 256 (executions W mc c.trace).length + 1 +
          BitVec.ofNat 256 (executions W mc rest).length := by
        rw [hcount, BitVec.ofNat_add, BitVec.ofNat_add, ← BitVec.add_assoc, ← BitVec.add_assoc]
        rfl
    _ = _ := by rw [← hi.nonce, hnonce]

theorem payment_answered (h : Unwound E O mc relayRequest signature msg c s s₁ before beyond back
      r success data c') (hamount : 0 < relayRequest.request.tokenAmount) :
    ∃ ret, TokenOk ret ∧ NewAnswer c c'
      (payment (RelayHub.executeMsg E msg relayRequest signature) relayRequest.request)
      (.ok ret) := by
  obtain ⟨c₁, hopening, ⟨hfree, -⟩ | ⟨-, ret, hpayment, hok⟩⟩ := h.paid
  · exact absurd hamount hfree
  · exact ⟨ret, hok, newAnswer_of_ran hopening hpayment
      ((ran_continues h.destination).trans h.closing)⟩

theorem destination_answered (h : Unwound E O mc relayRequest signature msg c s s₁ before beyond
      back r success data c') :
    NewAnswer c c' (destinationCall E (RelayHub.executeMsg E msg relayRequest signature)
      relayRequest.request) r := by
  obtain ⟨c₁, hopening, hpaid⟩ := h.paid
  have hbefore : c.Continues before := by
    rcases hpaid with ⟨-, hfree⟩ | ⟨-, ret, hpayment, -⟩
    · rw [hfree]
      exact hopening
    · exact hopening.trans (ran_continues hpayment)
  exact newAnswer_of_ran hbefore h.destination h.closing

/-- The hub has logged the relayed call, and no other on the way. -/
theorem logged (h : Unwound E O mc relayRequest signature msg c s s₁ before beyond back r success
      data c') {kH : Bytes} (hH : w₀.code msg.self = some ⟨.relayHub, kH⟩)
    (hforwarder : relayRequest.relayData.callForwarder ≠ msg.self)
    (horigin : E.codeless msg.tx.origin = true) (hkept : CodeKept E w₀ (· = msg.self) c.state) :
    RelayHub.relayedLogs msg.self c'.state.logs = RelayHub.relayedLogs msg.self c.state.logs ++
      [(msg.self, RelayHub.relayedEvent E msg (c.state.hubs msg.self) signature success data)] := by
  obtain ⟨ret, hran⟩ := h.called
  have hinner : RelayHub.Inner E w₀ msg.self msg.tx
      (RelayHub.executeMsg E msg relayRequest signature) (c.entered msg s) :=
    ⟨rfl, hkept.congr h.entered.1, Addressed.callTo _ _ _ _ _,
      fun hself => absurd hself hforwarder, fun hkind => by cases hkind⟩
  have hunlogged := ran_spec (RelayHub.inner_meets hH horigin) hran hinner
  rw [h.logs, RelayHub.relayedLogs_snoc (RelayHub.isRelayed_relayedEvent _ _ _ _ _ _),
    hunlogged.2, Conf.entered_state, h.entered.2]

end Unwound

/-- **All or nothing.** In every run of the chain, with any behaviour of the token, of the
destination and of everybody else, a transaction with a relay request for an initialised smart
wallet either changes nothing but its answer, or it has executed and paid for the request, and
the hub has told how the destination answered. -/
theorem relayCall_all_or_nothing (hd : Deployment E w₀ H W mc) (hc : Settled E O w₀ b c)
    {tx : Tx} (hb : b ≤ tx.blockNumber) (horigin : E.codeless tx.origin = true)
    (hdest : tx.dest = H) {relayRequest : RelayRequest} {signature : Bytes}
    (hdata : tx.data = .relayCall relayRequest signature)
    (hforwarder : relayRequest.relayData.callForwarder = W) (depth : Nat) :
    (∃ e, (exec (machine E O) depth false tx.gas tx.msg c).value = .error e ∧
      tx.run E O depth c = c.answered tx.msg (.error e)) ∨
    ∃ success, (exec (machine E O) depth false tx.gas tx.msg c).value =
        .ok (Abi.encodeBool success) ∧
      RelayedCall E H W mc relayRequest signature tx.msg c success (tx.run E O depth c) := by
  cases hvalue : (exec (machine E O) depth false tx.gas tx.msg c).value with
  | error e => exact Or.inl ⟨e, rfl, exec_error hvalue⟩
  | ok ret =>
      right
      subst hdest
      have hi : Closed E w₀ tx.dest W mc c := (wallet_guarded hd).settled hc
      have hi' : Closed E w₀ tx.dest W mc (tx.run E O depth c) :=
        (wallet_guarded hd).settled (.call hc tx depth hb horigin)
      obtain ⟨hWH, -, -⟩ := hd.distinct
      obtain ⟨kH, hH⟩ := hd.hub
      obtain ⟨kW, hW⟩ := hd.wallet
      obtain ⟨kmc, hmc⟩ := hd.masterCopy
      have hran : (Spec.ran (machine E O)).post tx.msg (.ok ret) c (tx.run E O depth c) :=
        ⟨depth, false, tx.gas, hvalue, rfl⟩
      obtain ⟨s, s₁, before, beyond, back, r, success, data, hret, h⟩ :=
        relayCall_unwound hran ((hi.kept.code _ (Or.inl rfl)).trans hH)
          ((hi.kept.code _ (Or.inr (Or.inl hforwarder))).trans (hforwarder ▸ hW))
          ((hi.kept.code _ (Or.inr (Or.inr rfl))).trans hmc) hdata
      have hlogged := h.logged hH (fun heq => hWH (hforwarder.symm.trans heq)) horigin
        ⟨fun a ha => hi.kept.code a (Or.inl ha), hi.kept.codeless⟩
      exact ⟨success, congrArg Except.ok hret, h.guard,
        h.executed rfl hforwarder hi hi', h.payment_answered,
        r, data, h.destination_answered, h.result, hlogged, h.answer⟩

/-- The paid request of `relayTx` goes through, and the hub tells of its success. -/
theorem relayCall_all_or_nothing_paid :
    (exec (machine walletEnv (Outside.silent walletEnv)) 8 false relayTx.gas relayTx.msg
      (Conf.start walletWorld)).value = .ok (Abi.encodeBool true) ∧
    RelayedCall walletEnv 0xaa 0xcc 0xdd ⟨paidRequest, paidData⟩ requestSignature relayTx.msg
      (Conf.start walletWorld) true relayedRun := by
  have hvalue : (exec (machine walletEnv (Outside.silent walletEnv)) 8 false relayTx.gas
      relayTx.msg (Conf.start walletWorld)).value = .ok (Abi.encodeBool true) := by
    decide +kernel
  refine ⟨hvalue, ?_⟩
  rcases relayCall_all_or_nothing walletWorld_deployment (.start 10)
    (show (10 : Word) ≤ relayTx.blockNumber by decide) (by decide) rfl rfl rfl 8 with
    ⟨e, herror, -⟩ | ⟨success, hsuccess, hcall⟩
  · rw [hvalue] at herror
    cases herror
  · rw [hvalue] at hsuccess
    cases success with
    | true => exact hcall
    | false => exact absurd (Except.ok.inj hsuccess) (by decide)

end Relayed

end RifRelay
