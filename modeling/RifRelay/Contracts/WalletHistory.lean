import RifRelay.Contracts.Guard
import RifRelay.Contracts.HubSpec
import RifRelay.Contracts.WalletSpec
import RifRelay.Machine.History

set_option autoImplicit false

/-! # The history of a wallet

Every run of a hub with a wallet keeps the invariant `WalletInv`: the nonce counts the calls
of `execute`, each of them was accepted by the wallet, and those that come from the hub answer
a relay request the hub has checked. A call that owes the worker a payment is followed at once
by the transfer; the message that makes the transfer is sent while the invariant is still open
(`Owing`).
-/

namespace RifRelay

open CallMachine IForwarder EnvelopingTypes

namespace SmartWallet

open Wallet

variable {χ : Type}

/-! ## Executions -/

/-- What a call of `execute` is about. -/
structure Execution where
  domainSeparator : Word
  suffixData : Word
  req : ForwardRequest
deriving DecidableEq

/-- The execution that an entry starts: the proxy at `W` hands a call of `execute` on to the
code at `mc`. -/
def executionOf (W mc : Address) (e : Entry (World χ) Msg) : Option Execution :=
  match e.msg.data with
  | .execute domainSeparator suffixData req _ =>
      if e.msg.kind = .delegatecall ∧ e.msg.self = W ∧ e.msg.codeAddress = mc then
        some ⟨domainSeparator, suffixData, req⟩
      else none
  | _ => none

/-- All executions of a history. -/
def executions (W mc : Address) (trace : List (Entry (World χ) Msg)) : List Execution :=
  trace.filterMap (executionOf W mc)

section Executions

variable {W mc : Address} {e : Entry (World χ) Msg} {x : Execution}

theorem executionOf_eq_some : executionOf W mc e = some x ↔
    e.msg.kind = .delegatecall ∧ e.msg.self = W ∧ e.msg.codeAddress = mc ∧
      ∃ sig, e.msg.data = .execute x.domainSeparator x.suffixData x.req sig := by
  unfold executionOf
  split
  next dom suffix req sig hdata =>
    rw [Option.ite_none_right_eq_some, Option.some_inj, hdata]
    constructor
    · rintro ⟨⟨hkind, hself, haddress⟩, rfl⟩
      exact ⟨hkind, hself, haddress, sig, rfl⟩
    · rintro ⟨hkind, hself, haddress, sig', heq⟩
      injection heq with hdom hsuffix hreq
      exact ⟨⟨hkind, hself, haddress⟩, by rw [hdom, hsuffix, hreq]⟩
  next hdata =>
    constructor
    · intro h
      cases h
    · rintro ⟨-, -, -, sig, heq⟩
      exact absurd heq (hdata _ _ _ sig)

theorem executionOf_eq_none (h : e.msg.kind = .delegatecall → e.msg.self = W →
    ∀ dom suffix req sig, e.msg.data ≠ .execute dom suffix req sig) :
    executionOf W mc e = none := by
  rw [Option.eq_none_iff_forall_ne_some]
  intro x hx
  obtain ⟨hkind, hself, -, sig, hdata⟩ := executionOf_eq_some.mp hx
  exact h hkind hself _ _ _ sig hdata

theorem executions_append (l l' : List (Entry (World χ) Msg)) :
    executions W mc (l ++ l') = executions W mc l ++ executions W mc l' :=
  List.filterMap_append

theorem executions_snoc (l : List (Entry (World χ) Msg)) :
    executions W mc (l ++ [e]) = executions W mc l ++ (executionOf W mc e).toList := by
  rw [executions_append]
  unfold executions
  cases h : executionOf W mc e <;> simp [h]

/-- The execution owes its worker a payment. -/
def Owes (W mc : Address) (e : Entry (World χ) Msg) : Prop :=
  ∃ x, executionOf W mc e = some x ∧ 0 < x.req.tokenAmount

/-- The entry pays for an execution. -/
def Pays (W mc : Address) (e p : Entry (World χ) Msg) : Prop :=
  ∃ x, executionOf W mc e = some x ∧ p.msg = payment e.msg x.req

end Executions

/-! ## Relay requests -/

/-- The call `r` of the hub at `H` is a relay request that sends the wallet of `msg` the
execution `x`. -/
structure Relays (E : Env) (H : Address) (r : Entry (World χ) Msg) (relayData : RelayData)
    (msg : Msg) (x : Execution) : Prop where
  self : r.msg.self = H
  data : ∃ signature, r.msg.data = .relayCall ⟨x.req, relayData⟩ signature
  guard : RelayHub.RelayGuard r.msg (r.pre.hubs H) relayData
  tx : msg.tx = r.msg.tx
  forwarder : relayData.callForwarder = msg.self
  domain : x.domainSeparator = relayData.domainSeparator
  suffix : x.suffixData = Eip712Library.hashRelayData E relayData

def RelayedBy (E : Env) (H : Address) (trace : List (Entry (World χ) Msg)) (msg : Msg)
    (x : Execution) : Prop :=
  ∃ r ∈ trace, ∃ relayData, Relays E H r relayData msg x

theorem RelayedBy.append {E : Env} {H : Address} {l l' : List (Entry (World χ) Msg)} {msg : Msg}
    {x : Execution} (h : RelayedBy E H l msg x) : RelayedBy E H (l ++ l') msg x := by
  obtain ⟨r, hr, hrelays⟩ := h
  exact ⟨r, List.mem_append_left _ hr, hrelays⟩

/-! ## The invariant -/

/-- A hub at `H` and an initialised wallet at `W`, a proxy of the code at `mc`. -/
structure Deployment (E : Env) (w₀ : World χ) (H W mc : Address) : Prop where
  hub : ∃ creation, w₀.code H = some ⟨.relayHub, creation⟩
  masterCopy : ∃ creation, w₀.code mc = some ⟨.smartWallet, creation⟩
  wallet : ∃ creation, w₀.code W = some ⟨.proxy mc, creation⟩
  initialised : (w₀.wallets W).owner ≠ 0
  codeless : ∀ a, E.codeless a = true → w₀.code a = none

/-- The accounts whose code the history of a wallet hangs on. -/
def Parts (H W mc a : Address) : Prop := a = H ∨ a = W ∨ a = mc

/-- The execution of an entry was accepted with the nonce that counts the earlier ones, and
when it comes from the hub there is a relay request for it. -/
structure Checked (E : Env) (w₀ : World χ) (H W mc : Address) (l : List (Entry (World χ) Msg))
    (e : Entry (World χ) Msg) (x : Execution) : Prop where
  owner : (e.pre.wallets W).owner = (w₀.wallets W).owner
  count : (e.pre.wallets W).nonce =
    (w₀.wallets W).nonce + BitVec.ofNat 256 (executions W mc l).length
  accepted : ∃ sig, Accepts E e.msg (e.pre.wallets W) x.domainSeparator x.suffixData x.req sig
  relayed : e.msg.sender = H → RelayedBy E H l e.msg x

/-- The invariant, in which the executions of `settled` are known to be paid for. -/
structure WalletInv (E : Env) (w₀ : World χ) (H W mc : Address)
    (settled : List (Entry (World χ) Msg)) (c : ChainConf χ) : Prop where
  kept : CodeKept E w₀ (Parts H W mc) c.state
  owner : (c.state.wallets W).owner = (w₀.wallets W).owner
  nonce : (c.state.wallets W).nonce =
    (w₀.wallets W).nonce + BitVec.ofNat 256 (executions W mc c.trace).length
  checked : Each (fun l e => ∀ x, executionOf W mc e = some x → Checked E w₀ H W mc l e x)
    c.trace
  paid : Followed (Owes W mc) (Pays W mc) settled

/-- The invariant with all executions paid for. -/
abbrev Closed (E : Env) (w₀ : World χ) (H W mc : Address) (c : ChainConf χ) : Prop :=
  WalletInv E w₀ H W mc c.trace c

/-- The message pays for the last entry. -/
def Owing (E : Env) (w₀ : World χ) (H W mc : Address) (msg : Msg) (c : ChainConf χ) : Prop :=
  ∃ l e x, c.trace = l ++ [e] ∧ executionOf W mc e = some x ∧ msg = payment e.msg x.req ∧
    WalletInv E w₀ H W mc l c

/-- How messages reach the hub, the wallet and its code. -/
structure Proper (E : Env) (H W mc : Address) (msg : Msg) (trace : List (Entry (World χ) Msg)) :
    Prop where
  addressed : Addressed (fun a => a = H ∨ a = mc) msg
  delegated : msg.self = W → msg.kind = .delegatecall → msg.codeAddress = mc
  relayed : msg.self = W → msg.sender = H → ∀ dom suffix req sig,
    msg.data = .execute dom suffix req sig → RelayedBy E H trace msg ⟨dom, suffix, req⟩

/-- What every message is sent under. -/
def Sendable (E : Env) (w₀ : World χ) (H W mc : Address) (msg : Msg) (c : ChainConf χ) : Prop :=
  Proper E H W mc msg c.trace ∧
    (Closed E w₀ H W mc c ∨ Owing E w₀ H W mc msg c)

section Invariant

variable {E : Env} {w₀ : World χ} {H W mc : Address} {c : ChainConf χ} {msg : Msg}
  {s : World χ}

theorem WalletInv.congr {settled : List (Entry (World χ) Msg)} {w : World χ}
    (h : WalletInv E w₀ H W mc settled c) (hcode : w.code = c.state.code)
    (hwallet : w.wallets W = c.state.wallets W) : WalletInv E w₀ H W mc settled (c.put w) where
  kept := h.kept.congr hcode
  owner := by rw [Conf.put_state, hwallet]; exact h.owner
  nonce := by rw [Conf.put_state, hwallet]; exact h.nonce
  checked := h.checked
  paid := h.paid

/-- Entering a message that is no execution. -/
theorem WalletInv.entered {settled settled' : List (Entry (World χ) Msg)}
    (h : WalletInv E w₀ H W mc settled c) (henter : enter msg c.state = some s)
    (hnone : executionOf W mc (⟨msg, c.state⟩ : Entry (World χ) Msg) = none)
    (hpaid : Followed (Owes W mc) (Pays W mc) settled') :
    WalletInv E w₀ H W mc settled' (c.entered msg s) := by
  have hwallets : s.wallets = c.state.wallets := by
    obtain ⟨b, rfl, -⟩ := enter_frame henter
    rfl
  refine ⟨h.kept.enter henter, ?_, ?_, ?_, hpaid⟩
  · rw [Conf.entered_state, hwallets]
    exact h.owner
  · rw [Conf.entered_state, hwallets, Conf.entered_trace, executions_snoc, hnone,
      Option.toList_none, List.append_nil]
    exact h.nonce
  · rw [Conf.entered_trace]
    refine h.checked.snoc fun x hx => ?_
    rw [hnone] at hx
    cases hx

theorem not_owes (hnone : executionOf W mc (⟨msg, c.state⟩ : Entry (World χ) Msg) = none) :
    ¬ Owes W mc (⟨msg, c.state⟩ : Entry (World χ) Msg) := by
  rintro ⟨x, hx, -⟩
  rw [hnone] at hx
  cases hx

/-- A message that is no execution restores the invariant, by paying if that is its task. -/
theorem Sendable.entered (h : Sendable E w₀ H W mc msg c) (henter : enter msg c.state = some s)
    (hnone : executionOf W mc (⟨msg, c.state⟩ : Entry (World χ) Msg) = none) :
    Closed E w₀ H W mc (c.entered msg s) := by
  rcases h.2 with hi | ⟨l, e, x, htrace, hx, hmsg, hi⟩
  · exact hi.entered henter hnone (hi.paid.snoc (not_owes hnone))
  · refine hi.entered henter hnone ?_
    rw [Conf.entered_trace, htrace]
    exact hi.paid.settle ⟨x, hx, hmsg⟩ (not_owes hnone)

/-- An execution does not pay for another one. -/
theorem Sendable.inv {x : Execution} (h : Sendable E w₀ H W mc msg c)
    (hx : executionOf W mc (⟨msg, c.state⟩ : Entry (World χ) Msg) = some x) :
    Closed E w₀ H W mc c := by
  rcases h.2 with hi | ⟨l, e, y, -, -, rfl, -⟩
  · exact hi
  · obtain ⟨hkind, -⟩ := executionOf_eq_some.mp hx
    cases hkind

end Invariant

/-! ## The frames -/

namespace Deployment

variable {E : Env} {w₀ : World χ} {H W mc : Address}

theorem code_ne_none (hd : Deployment E w₀ H W mc) (a : Address) (ha : Parts H W mc a) :
    w₀.code a ≠ none := by
  obtain ⟨kH, hH⟩ := hd.hub
  obtain ⟨kW, hW⟩ := hd.wallet
  obtain ⟨kmc, hmc⟩ := hd.masterCopy
  rcases ha with rfl | rfl | rfl
  · simp [hH]
  · simp [hW]
  · simp [hmc]

/-- Three contracts with three different codes. -/
theorem distinct (hd : Deployment E w₀ H W mc) : W ≠ H ∧ mc ≠ H ∧ mc ≠ W := by
  obtain ⟨kH, hH⟩ := hd.hub
  obtain ⟨kW, hW⟩ := hd.wallet
  obtain ⟨kmc, hmc⟩ := hd.masterCopy
  refine ⟨?_, ?_, ?_⟩
  · rintro rfl
    simp [hH] at hW
  · rintro rfl
    simp [hH] at hmc
  · rintro rfl
    simp [hW] at hmc

end Deployment

/-- The specification of all messages of a transaction. -/
abbrev walletSpec (E : Env) (w₀ : World χ) (H W mc : Address) (t : TxContext) :
    Spec (World χ) Msg Revert Bytes :=
  (guardSpec (Sendable E w₀ H W mc)
    (fun _ c => Closed E w₀ H W mc c) t).tracked

section Frames

variable {E : Env} {O : Outside E χ} {w₀ : World χ} {H W mc : Address} {c : ChainConf χ}
  {msg : Msg} {s : World χ}

theorem Closed.answered (h : Closed E w₀ H W mc c) (m : Msg) (r : Except Revert Bytes) :
    Closed E w₀ H W mc (c.answered m r) :=
  ⟨h.kept, h.owner, h.nonce, h.checked, h.paid⟩

/-- A call that is not a request of the hub. -/
theorem Proper.callTo {trace : List (Entry (World χ) Msg)} {dest : Address}
    {value : Word} {data : CallData}
    (hquiet : msg.self = H → ∀ dom suffix req sig, data ≠ .execute dom suffix req sig) :
    Proper E H W mc (msg.callTo dest value data) trace where
  addressed := Addressed.callTo _ msg dest value data
  delegated := fun _ hkind => by cases hkind
  relayed := fun _ hsender _ _ _ _ hdata => absurd hdata (hquiet hsender _ _ _ _)

theorem callsKeep (hself : msg.self ≠ H) :
    CallsKeep (walletSpec E w₀ H W mc msg.tx) msg
      (Closed E w₀ H W mc) := by
  intro c dest value data hi
  refine ⟨⟨rfl, Proper.callTo fun h => absurd h hself, Or.inl hi⟩, fun r c' hpost => ?_⟩
  exact guardSpec_back (I := fun _ c => Closed E w₀ H W mc c)
    (fun _ _ m r h => Closed.answered h m r) hi hpost

/-- **The frame of the hub.** It calls a wallet only with the request it was called with. -/
theorem hub_frame (hd : Deployment E w₀ H W mc) (hp : Sendable E w₀ H W mc msg c)
    (hself : msg.self = H) (henter : enter msg c.state = some s) :
    wp (walletSpec E w₀ H W mc msg.tx) (RelayHub.code E msg)
      (fun _ c' => Closed E w₀ H W mc c') (c.entered msg s) := by
  obtain ⟨hWH, -, -⟩ := hd.distinct
  have hhubs : s.hubs = c.state.hubs := by
    obtain ⟨b, rfl, -⟩ := enter_frame henter
    rfl
  have hi := hp.entered henter (executionOf_eq_none fun _ h => absurd (h.symm.trans hself) hWH)
  have hafter : ∀ (c' : ChainConf χ) hub events, Closed E w₀ H W mc c' →
      Closed E w₀ H W mc (c'.put (RelayHub.after c'.state msg.self hub events)) :=
    fun c' hub events h => h.congr rfl rfl
  -- a message without a request, from a hub that has written to its storage
  have hsend : ∀ (c' : ChainConf χ) dest value data,
      (∀ dom suffix req sig, data ≠ CallData.execute dom suffix req sig) →
      Closed E w₀ H W mc c' →
      (walletSpec E w₀ H W mc msg.tx).pre (msg.callTo dest value data) c' :=
    fun c' dest value data hdata h => ⟨rfl, Proper.callTo fun _ => hdata, Or.inl h⟩
  refine RelayHub.wp_code (c.state.hubs msg.self) (by rw [Conf.entered_state, hhubs])
    ?_ ?_ ?_ ?_ ?_
  · intro hub' events ret _ _ _ _ _ _
    exact hafter _ _ _ hi
  · intro relayRequest signature hdata hguard
    refine ⟨⟨rfl, ⟨Addressed.callTo _ _ _ _ _, fun _ => (nomatch ·), ?_⟩, Or.inl hi⟩, ?_⟩
    · intro hforwarder _ dom suffix req sig hexecute
      injection hexecute with hdom hsuffix hreq
      refine ⟨⟨msg, c.state⟩, by simp, relayRequest.relayData, hself, ⟨signature, ?_⟩, ?_, rfl,
        rfl, hdom.symm, hsuffix.symm⟩
      · rw [← hreq]
        exact hdata
      · rw [← hself]
        exact hguard
    · rintro ret c' ⟨hok, -⟩ success data -
      exact hafter _ _ _ (hok ⟨ret, rfl⟩)
  · intro deployRequest signature hdata hguard
    refine ⟨hsend _ _ _ _ (fun _ _ _ _ => CallData.noConfusion) hi, ?_⟩
    rintro ret c' ⟨hok, -⟩
    exact hok ⟨ret, rfl⟩
  · intro relayManager hdata heffect
    refine ⟨hsend _ _ _ _ (fun _ _ _ _ => CallData.noConfusion) (hafter _ _ _ hi), ?_⟩
    rintro ret c' ⟨hok, -⟩
    exact hafter _ _ _ (hok ⟨ret, rfl⟩)
  · intro relayWorker beneficiary relayManager hdata hmanager heffect
    refine ⟨hsend _ _ _ _ (fun _ _ _ _ => CallData.noConfusion) (hafter _ _ _ hi), ?_⟩
    rintro ret₁ c₂ ⟨hok₁, -⟩
    refine ⟨hsend _ _ _ _ (fun _ _ _ _ => CallData.noConfusion) (hok₁ ⟨ret₁, rfl⟩), ?_⟩
    rintro ret₂ c₃ ⟨hok₂, -⟩
    exact hafter _ _ _ (hok₂ ⟨ret₂, rfl⟩)

/-- The frame of the proxy: the same call, with the code of the master copy. -/
theorem proxy_frame (hd : Deployment E w₀ H W mc) (hp : Sendable E w₀ H W mc msg c)
    (hself : msg.self = W) (hkind : msg.kind ≠ .delegatecall)
    (henter : enter msg c.state = some s) :
    wp (walletSpec E w₀ H W mc msg.tx) (Proxy.code mc msg)
      (fun _ c' => Closed E w₀ H W mc c') (c.entered msg s) := by
  obtain ⟨hWH, -, hmcW⟩ := hd.distinct
  have hi := hp.entered henter (executionOf_eq_none fun h => absurd h hkind)
  unfold Proxy.code
  simp only [wp_bind, wp_send, wp_bubble]
  refine ⟨⟨rfl, ⟨⟨fun h => absurd rfl h, ?_⟩, fun _ _ => rfl, ?_⟩, Or.inl hi⟩, ?_⟩
  · rintro (hH | hmc)
    · exact absurd (hself.symm.trans hH) hWH
    · exact absurd (hmc.symm.trans hself) hmcW
  · intro _ hsender dom suffix req sig hdata
    obtain ⟨r, hr, relayData, hrelays⟩ := hp.1.relayed hself hsender dom suffix req sig hdata
    exact ⟨r, List.mem_append_left _ hr, relayData, hrelays.self, hrelays.data, hrelays.guard,
      hrelays.tx, hrelays.forwarder, hrelays.domain, hrelays.suffix⟩
  · rintro r c' ⟨hok, -⟩ ret rfl
    exact hok ⟨ret, rfl⟩

/-- The frame of the master copy itself: its storage is not that of the wallet. -/
theorem masterCopy_frame (hd : Deployment E w₀ H W mc) (hp : Sendable E w₀ H W mc msg c)
    (hself : msg.self = mc) (henter : enter msg c.state = some s) :
    wp (walletSpec E w₀ H W mc msg.tx) (code E msg)
      (fun _ c' => Closed E w₀ H W mc c') (c.entered msg s) := by
  obtain ⟨hWH, hmcH, hmcW⟩ := hd.distinct
  have hi := hp.entered henter
    (executionOf_eq_none fun _ h => absurd (hself.symm.trans h) hmcW)
  have hkeep := @callsKeep _ E w₀ H W mc msg (hself.trans_ne hmcH)
  have hwritten : ∀ f, Closed E w₀ H W mc (written msg f (c.entered msg s)) := by
    intro f
    refine hi.congr rfl ?_
    show Function.update _ _ _ W = _
    rw [Function.update_of_ne (by rw [hself]; exact Ne.symm hmcW)]
  refine wp_smartWallet_code hkeep (fun _ _ => hi) ?_ ?_
  · intro dom suffix req sig hdata haccepts
    refine ⟨fun _ => ?_, fun _ => hwritten _⟩
    obtain ⟨hpre, hpost⟩ := hkeep _ req.tokenContract 0 (.transfer msg.tx.origin req.tokenAmount)
      (hwritten nextNonce)
    exact ⟨hpre, fun ret c' hr => hpost _ c' hr⟩
  · intro owner token recipient amount gas hdata howner
    refine ⟨fun _ => ?_, fun _ => hwritten _⟩
    obtain ⟨hpre, hpost⟩ := hkeep _ token 0 (.transfer recipient amount)
      (hwritten (withOwner E · owner))
    exact ⟨hpre, fun ret c' hr => hpost _ c' hr⟩

/-- What is known of an execution once the wallet has accepted it and counted it. -/
theorem WalletInv.executed {x : Execution} {sig : Bytes} (h : Closed E w₀ H W mc c)
    (henter : enter msg c.state = some s)
    (hx : executionOf W mc (⟨msg, c.state⟩ : Entry (World χ) Msg) = some x)
    (haccepts : Accepts E msg (s.wallets msg.self) x.domainSeparator x.suffixData x.req sig)
    (hrelayed : msg.sender = H → RelayedBy E H c.trace msg x) :
    WalletInv E w₀ H W mc c.trace (written msg nextNonce (c.entered msg s)) := by
  obtain ⟨-, hself, -, -⟩ := executionOf_eq_some.mp hx
  have hwallets : s.wallets = c.state.wallets := by
    obtain ⟨b, rfl, -⟩ := enter_frame henter
    rfl
  have hstored : (written msg nextNonce (c.entered msg s)).state.wallets W =
      nextNonce (c.state.wallets W) := by
    show Function.update _ _ _ W = _
    rw [Conf.entered_state, hself, Function.update_self, hwallets]
  rw [hself, hwallets] at haccepts
  refine ⟨(h.kept.enter henter).congr rfl, ?_, ?_, ?_, h.paid⟩
  · rw [hstored]
    exact h.owner
  · rw [hstored]
    show (c.state.wallets W).nonce + 1 =
      (w₀.wallets W).nonce + BitVec.ofNat 256 (executions W mc (c.trace ++ [⟨msg, c.state⟩])).length
    rw [executions_snoc, hx, Option.toList_some, List.length_append, h.nonce, BitVec.ofNat_add,
      BitVec.add_assoc]
    rfl
  · show Each _ (c.trace ++ [⟨msg, c.state⟩])
    refine h.checked.snoc fun y hy => ?_
    obtain rfl : x = y := Option.some.inj (hx.symm.trans hy)
    exact ⟨h.owner, h.nonce, ⟨sig, haccepts⟩, hrelayed⟩

/-- **The frame of the wallet.** An execution is counted and paid for, everything else leaves
the storage of the wallet alone. -/
theorem wallet_frame (hd : Deployment E w₀ H W mc) (hp : Sendable E w₀ H W mc msg c)
    (hself : msg.self = W) (hkind : msg.kind = .delegatecall)
    (henter : enter msg c.state = some s) :
    wp (walletSpec E w₀ H W mc msg.tx) (code E msg)
      (fun _ c' => Closed E w₀ H W mc c') (c.entered msg s) := by
  obtain ⟨hWH, -, hmcW⟩ := hd.distinct
  have hkeep := @callsKeep _ E w₀ H W mc msg (hself.trans_ne hWH)
  refine wp_smartWallet_code hkeep ?_ ?_ ?_
  · intro hexecute hinit
    exact hp.entered henter (executionOf_eq_none fun _ _ => hexecute)
  · intro dom suffix req sig hdata haccepts
    have hx : executionOf W mc (⟨msg, c.state⟩ : Entry (World χ) Msg) = some ⟨dom, suffix, req⟩ :=
      executionOf_eq_some.mpr ⟨hkind, hself, hp.1.delegated hself hkind, sig, hdata⟩
    have hclosed := hp.inv hx
    have hopen := hclosed.executed henter hx haccepts
      fun hsender => hp.1.relayed hself hsender dom suffix req sig hdata
    constructor
    · intro hamount
      refine ⟨⟨rfl, Proper.callTo fun h => absurd (hself.symm.trans h) hWH, Or.inr ?_⟩, ?_⟩
      · exact ⟨c.trace, ⟨msg, c.state⟩, _, rfl, hx, rfl, hopen⟩
      · rintro ret c' ⟨hok, -⟩
        exact hok ⟨ret, rfl⟩
    · intro hfree
      refine ⟨hopen.kept, hopen.owner, hopen.nonce, hopen.checked, ?_⟩
      refine hclosed.paid.snoc ?_
      rintro ⟨y, hy, hamount⟩
      obtain rfl := Option.some.inj (hx.symm.trans hy)
      exact hfree hamount
  · -- the owner slot is set, so nobody initialises the wallet again
    intro owner token recipient amount gas hdata howner
    exfalso
    have hi := hp.entered henter
      (executionOf_eq_none fun _ _ dom suffix req sig h => by rw [hdata] at h; cases h)
    refine hd.initialised ?_
    rw [← hi.owner, ← hself]
    exact howner

/-- The invariant survives everything that anybody does. -/
theorem wallet_guarded (hd : Deployment E w₀ H W mc) :
    Guarded E O w₀ (Parts H W mc) (Sendable E w₀ H W mc) (fun _ c => Closed E w₀ H W mc c) where
  start := fun _ => ⟨⟨fun _ _ => rfl, hd.codeless⟩, rfl, by simp [executions], Each.nil,
    Followed.nil⟩
  wait := fun _ _ _ _ hi => hi
  answered := fun _ _ m r hi => hi.answered m r
  codeless := fun _ _ _ hi ha => hi.kept.not_codeless hd.code_ne_none ha
  write := by
    intro b c msg s hi hself hw
    have hW : W ≠ msg.self := fun h => hself (Or.inr (Or.inl h.symm))
    have hwallet : s.wallets W = c.state.wallets W := by
      -- other accounts write the record of a wallet only where no code stands
      rcases hw.wallets W hW with heq | ⟨hvacant, -⟩
      · exact heq
      · have hcode := hi.kept.code W (Or.inr (Or.inl rfl))
        exact absurd (hcode.symm.trans hvacant.1) (hd.code_ne_none W (Or.inr (Or.inl rfl)))
    refine ⟨hi.kept.write hd.code_ne_none (fun h => absurd h hself) hw, ?_, ?_, hi.checked, hi.paid⟩
    · rw [Conf.put_state, hwallet]
      exact hi.owner
    · rw [Conf.put_state, hwallet]
      exact hi.nonce
  sends := by
    intro c msg m hi hself hm
    refine ⟨⟨Addressed.of_local ?_ hm, ?_, ?_⟩, Or.inl hi⟩
    · rintro (hH | hmc)
      · exact hself (Or.inl hH)
      · exact hself (Or.inr (Or.inr hmc))
    · intro hW hkind
      rcases hm.2 with ⟨-, heq, -⟩ | ⟨hne, -⟩
      · exact absurd (Or.inr (Or.inl (heq.symm.trans hW))) hself
      · exact absurd hkind hne
    · intro hW hH
      rcases hm.2 with ⟨-, heq, -⟩ | ⟨-, heq, -⟩
      · exact absurd (Or.inr (Or.inl (heq.symm.trans hW))) hself
      · exact absurd (Or.inl (heq.symm.trans hH)) hself
  enter := by
    intro c msg s hp hself henter
    exact hp.entered henter
      (executionOf_eq_none fun _ h => absurd (Or.inr (Or.inl h)) hself)
  own := by
    intro c msg s hp hparts henter
    obtain ⟨b, rfl, -⟩ := enter_frame henter
    have hcode : ∀ a, Parts H W mc a → c.state.code a = w₀.code a := by
      rcases hp.2 with hi | ⟨l, e, x, -, -, -, hi⟩
      · exact hi.kept.code
      · exact hi.kept.code
    -- the code that runs is the one the account was deployed with
    have hruns : ∀ a k creation, Parts H W mc a → msg.codeAddress = a →
        w₀.code a = some ⟨k, creation⟩ →
        (({ c.state with balance := b } : World χ).code msg.codeAddress).map Contract.code =
          some k := by
      rintro a k creation ha rfl hk
      show (c.state.code msg.codeAddress).map _ = _
      rw [hcode _ ha, hk]
      rfl
    obtain ⟨kH, hH⟩ := hd.hub
    obtain ⟨kW, hW⟩ := hd.wallet
    obtain ⟨kmc, hmc⟩ := hd.masterCopy
    unfold codeOf
    -- the wallet, itself or through its proxy; else the hub or the master copy
    by_cases hself : msg.self = W
    · by_cases hkind : msg.kind = .delegatecall
      · rw [hruns mc _ _ (Or.inr (Or.inr rfl)) (hp.1.delegated hself hkind) hmc]
        exact wallet_frame hd hp hself hkind henter
      · rw [hruns W _ _ (Or.inr (Or.inl rfl)) ((hp.1.addressed.1 hkind).trans hself) hW]
        exact proxy_frame hd hp hself hkind henter
    · rcases hparts with hpart | hpart | hpart
      · have haddress := hp.1.addressed.codeAddress (Or.inl hpart)
        rw [hruns H _ _ (Or.inl rfl) (haddress.trans hpart) hH]
        exact hub_frame hd hp hpart henter
      · exact absurd hpart hself
      · have haddress := hp.1.addressed.codeAddress (Or.inr hpart)
        rw [hruns mc _ _ (Or.inr (Or.inr rfl)) (haddress.trans hpart) hmc]
        exact masterCopy_frame hd hp hpart henter

end Frames

end SmartWallet

end RifRelay
