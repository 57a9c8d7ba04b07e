import RifRelay.Contracts.HubSpec
import RifRelay.Machine.EventPath
import RifRelay.Stakes.StakeBook

set_option autoImplicit false

/-! # The history of a hub

The storage of a hub refines a book of stakes (`StakeBook`): every message in the history of
a run moves the book as the book's own rules allow, and every message to another account
leaves it alone (`HubStep`). Next to the book the history determines which coins the hub has
paid out and which it still has to pay in the calls that are running (`Funded`).

Both are invariants of every run, whatever the callers and the recipients of the hub's
transfers do; `points_funded` says so for every point of a run.
-/

namespace RifRelay

open CallMachine

namespace RelayHub

variable {χ : Type}

/-! ## The book of a hub -/

/-- The stake of one manager, in naturals. -/
def entry (info : StakeInfo) : StakeBook.Stake Address :=
  ⟨info.stake.toNat, info.unstakeDelay.toNat, info.withdrawBlock.toNat, info.owner⟩

def book (hub : RelayHub) : StakeBook.Book Address := fun m => entry (hub.stakes m)

def terms (hub : RelayHub) : StakeBook.Terms :=
  ⟨hub.minimumStake.toNat, hub.minimumUnstakeDelay.toNat⟩

theorem book_setStake (hub : RelayHub) (m : Address) (info : StakeInfo) :
    (hub.setStake m info).book = Function.update hub.book m (entry info) := by
  funext a
  rcases eq_or_ne a m with rfl | hne
  · simp [book, setStake]
  · simp [book, setStake, hne]

theorem staked_iff (hub : RelayHub) (m : Address) :
    hub.isRelayManagerStaked m = true ↔ StakeBook.Staked hub.terms hub.book m := by
  simp only [isRelayManagerStaked, StakeBook.Staked, terms, book, entry, Bool.and_eq_true,
    decide_eq_true_eq, beq_iff_eq, BitVec.le_def, and_assoc]
  refine and_congr Iff.rfl (and_congr Iff.rfl ?_)
  constructor
  · intro h
    rw [h]
    rfl
  · intro h
    exact BitVec.eq_of_toNat_eq h

/-- The move of the book that a message to the hub at `H` stands for. -/
def moveOf (H : Address) (msg : Msg) (hub : RelayHub) : StakeBook.Move Address :=
  if msg.self = H then
    match msg.data with
    | .stakeForAddress m delay => .deposit m msg.sender msg.value.toNat delay.toNat
    | .unlockStake m => .unlock m msg.sender
    | .withdrawStake m => .withdraw m msg.sender
    | .penalize w b => .slash (entryManager (hub.workerToManager w)) b
    | _ => .idle
  else .idle

theorem moveOf_other {H : Address} {msg : Msg} (h : msg.self ≠ H) (hub : RelayHub) :
    moveOf H msg hub = .idle := by
  rw [moveOf, if_neg h]

/-! ## Arithmetic of words -/

theorem toNat_add_of_le {a b : Word} (h : a ≤ a + b) : (a + b).toNat = a.toNat + b.toNat := by
  rw [BitVec.le_def, BitVec.toNat_add] at h
  rw [BitVec.toNat_add]
  have ha := a.isLt
  have hb := b.isLt
  omega

theorem toNat_add_of_lt {a b : Word} (h : a.toNat + b.toNat < 2 ^ 256) :
    (a + b).toNat = a.toNat + b.toNat := by
  rw [BitVec.toNat_add, Nat.mod_eq_of_lt h]

theorem penalty_fst (amount : Word) : (penalty amount).1.toNat = amount.toNat / 2 := by
  simp [penalty]

theorem penalty_snd (amount : Word) :
    (penalty amount).2.toNat = amount.toNat - amount.toNat / 2 := by
  have h := amount.isLt
  have h2 : (2 : Word).toNat = 2 := rfl
  simp only [penalty, BitVec.toNat_sub, BitVec.toNat_udiv, h2]
  omega

/-! ## One message -/

/-- A message that goes through moves the book as its rules allow. The sum of a deposit must
not overflow, which is what the coin supply guarantees. -/
theorem Effect.step {msg : Msg} {hub hub' : RelayHub} (h : Effect msg hub hub')
    (hsum : ∀ m, (hub.stakes m).stake.toNat + msg.value.toNat < 2 ^ 256) :
    StakeBook.Step msg.tx.blockNumber.toNat hub.book (moveOf msg.self msg hub) hub'.book := by
  cases h with
  | registerRelayServer url hdata =>
      rw [moveOf, if_pos rfl, hdata]
      exact .idle
  | disableRelayWorkers ws entries hdata =>
      rw [moveOf, if_pos rfl, hdata]
      exact .idle
  | addRelayWorkers ws entries hdata =>
      rw [moveOf, if_pos rfl, hdata]
      exact .idle
  | deployCall request signature hdata =>
      rw [moveOf, if_pos rfl, hdata]
      exact .idle
  | relayCall request signature hdata =>
      rw [moveOf, if_pos rfl, hdata]
      exact .idle
  | isRelayManagerStaked m hdata =>
      rw [moveOf, if_pos rfl, hdata]
      exact .idle
  | penalize w b m hdata hvalue hsender hmanager hknown hstake =>
      subst hmanager
      rw [moveOf, if_pos rfl, hdata, book_setStake]
      exact .slash _ b (by simpa [book, entry, BitVec.lt_def] using hstake)
  | stakeForAddress m delay hdata howner hdelay hself hmanager hentry =>
      rw [moveOf, if_pos rfl, hdata, book_setStake]
      have hentries : entry { hub.stakes m with
            owner := msg.sender
            stake := (hub.stakes m).stake + msg.value
            unstakeDelay := delay } =
          ⟨(hub.book m).amount + msg.value.toNat, delay.toNat, (hub.book m).withdrawBlock,
            msg.sender⟩ := by
        simp only [entry, book, toNat_add_of_lt (hsum m)]
      rw [hentries]
      exact .deposit m msg.sender msg.value.toNat delay.toNat howner (BitVec.le_def.mp hdelay)
  | unlockStake m hdata hvalue howner hpending hsafe =>
      rw [moveOf, if_pos rfl, hdata, book_setStake]
      have hentries : entry { hub.stakes m with
            withdrawBlock := msg.tx.blockNumber + (hub.stakes m).unstakeDelay } =
          { hub.book m with
            withdrawBlock := msg.tx.blockNumber.toNat + (hub.book m).delay } := by
        simp only [entry, book, toNat_add_of_le hsafe]
      rw [hentries]
      exact .unlock m msg.sender howner (by simp [book, entry, hpending])
  | withdrawStake m hdata hvalue howner hpending hdue =>
      rw [moveOf, if_pos rfl, hdata, book_setStake]
      exact .withdraw m msg.sender howner
        (by simpa [book, entry, BitVec.lt_def] using hpending) (BitVec.le_def.mp hdue)

/-- Only a deposit brings coins. -/
theorem Effect.income {msg : Msg} {hub hub' : RelayHub} (h : Effect msg hub hub') :
    StakeBook.income (moveOf msg.self msg hub) = msg.value.toNat := by
  have hzero : msg.value = 0 → msg.value.toNat = 0 := fun h => by rw [h]; rfl
  cases h with
  | stakeForAddress m delay hdata =>
      rw [moveOf, if_pos rfl, hdata]
      rfl
  | registerRelayServer url hdata hvalue => rw [moveOf, if_pos rfl, hdata, hzero hvalue]; rfl
  | disableRelayWorkers ws entries hdata hvalue =>
      rw [moveOf, if_pos rfl, hdata, hzero hvalue]
      rfl
  | addRelayWorkers ws entries hdata hvalue =>
      rw [moveOf, if_pos rfl, hdata, hzero hvalue]
      rfl
  | deployCall request signature hdata hguard =>
      rw [moveOf, if_pos rfl, hdata, hzero hguard.value]
      rfl
  | relayCall request signature hdata hguard =>
      rw [moveOf, if_pos rfl, hdata, hzero hguard.value]
      rfl
  | isRelayManagerStaked m hdata hvalue => rw [moveOf, if_pos rfl, hdata, hzero hvalue]; rfl
  | penalize w b m hdata hvalue => rw [moveOf, if_pos rfl, hdata, hzero hvalue]; rfl
  | unlockStake m hdata hvalue => rw [moveOf, if_pos rfl, hdata, hzero hvalue]; rfl
  | withdrawStake m hdata hvalue => rw [moveOf, if_pos rfl, hdata, hzero hvalue]; rfl

/-- No message changes the terms of the hub. -/
theorem Effect.terms {msg : Msg} {hub hub' : RelayHub} (h : Effect msg hub hub') :
    hub'.terms = hub.terms := by
  cases h <;> rfl

/-- Nor its penalizer. -/
theorem Effect.penalizer {msg : Msg} {hub hub' : RelayHub} (h : Effect msg hub hub') :
    hub'.penalizer = hub.penalizer := by
  cases h <;> rfl

/-- What an entry of the history does to the hub at `H`. -/
structure HubStep (H : Address) (e : Entry (World χ) Msg) (hub hub' : RelayHub) : Prop where
  pre : e.pre.hubs H = hub
  terms : hub'.terms = hub.terms
  penalizer : hub'.penalizer = hub.penalizer
  step : StakeBook.Step e.msg.tx.blockNumber.toNat hub.book (moveOf H e.msg hub) hub'.book

/-- A message to another account. -/
theorem HubStep.other {H : Address} {msg : Msg} {w : World χ} (h : msg.self ≠ H) :
    HubStep H ⟨msg, w⟩ (w.hubs H) (w.hubs H) := by
  refine ⟨rfl, rfl, rfl, ?_⟩
  rw [moveOf_other h]
  exact .idle

/-! ## Coins of the hub -/

/-- What an entry obliges the hub to pay. -/
def due (H : Address) (e : Entry (World χ) Msg) : Multiset (Address × Nat) :=
  StakeBook.payments (e.pre.hubs H).book (moveOf H e.msg (e.pre.hubs H))

/-- What a message pays out of the hub. -/
def paid (H : Address) (msg : Msg) : Multiset (Address × Nat) :=
  if msg.sender = H ∧ msg.kind = .call ∧ msg.data = .empty then {(msg.self, msg.value.toNat)}
  else 0

/-- The hub at `H` still owes `owed`: its coins are the stakes, the coins that were forced on
it and what it owes, and together with what was paid that is all it ever had to pay. -/
structure Funded (H : Address) (owed : Multiset (Address × Nat)) (c : ChainConf χ) : Prop where
  coins : c.state.balance H =
    StakeBook.total (c.state.hubs H).book + c.state.forced H + (owed.map Prod.snd).sum
  payments : (c.trace.map (due H)).sum = (c.trace.map fun e => paid H e.msg).sum + owed

/-- What is owed is determined by the history. -/
theorem Funded.unique {H : Address} {o o' : Multiset (Address × Nat)} {c : ChainConf χ}
    (h : Funded H o c) (h' : Funded H o' c) : o = o' :=
  add_left_cancel (h.payments.symm.trans h'.payments)

theorem Funded.congr {H : Address} {o : Multiset (Address × Nat)} {c c' : ChainConf χ}
    (h : Funded H o c) (hhub : c'.state.hubs H = c.state.hubs H)
    (hcoins : ∃ v, c'.state.balance H = c.state.balance H + v ∧
      c'.state.forced H = c.state.forced H + v) (htrace : c'.trace = c.trace) :
    Funded H o c' := by
  obtain ⟨v, hb, hf⟩ := hcoins
  refine ⟨?_, by rw [htrace, h.payments]⟩
  have hc := h.coins
  rw [hhub, hb, hf]
  omega

/-! ## The invariant -/

/-- What holds of the hub at `H` in every configuration of a run from `w₀`, up to block `b`. -/
structure Inv (E : Env) (w₀ : World χ) (H : Address) (b : Word) (c : ChainConf χ) : Prop where
  code : c.state.code H = w₀.code H
  codeless : ∀ a, E.codeless a = true → c.state.code a = none
  supply : c.state.supply ≤ w₀.supply
  path : EventPath (HubStep H) (w₀.hubs H) c.trace (c.state.hubs H)
  blocks : ∀ e ∈ c.trace, e.msg.tx.blockNumber ≤ b
  sorted : c.trace.Pairwise fun e e' => e.msg.tx.blockNumber ≤ e'.msg.tx.blockNumber

/-- Calldata of the calls the hub makes into wallets and factories. -/
def isForward : CallData → Bool
  | .execute .. => true
  | .relayedUserSmartWalletCreation .. => true
  | _ => false

/-- Messages to and from the hub at `H`: it runs its own code only, and it sends nothing but
plain transfers and the requests it relays. -/
structure Disciplined (H : Address) (msg : Msg) : Prop where
  address : msg.kind ≠ .delegatecall → msg.codeAddress = msg.self
  own : msg.self = H → msg.kind ≠ .delegatecall
  static : msg.kind = .staticcall → msg.value = 0
  sent : msg.sender = H → msg.kind ≠ .delegatecall →
    msg.kind = .call ∧ (msg.data = .empty ∨ (msg.value = 0 ∧ isForward msg.data = true))

/-- The specification of all messages. A message that pays `p` for the hub is sent when the
hub owes `p`; more than that is owed only where the zero address gets its half of a
penalty. -/
def spec (E : Env) (w₀ : World χ) (H : Address) (t : TxContext) :
    Spec (World χ) Msg Revert Bytes where
  pre msg c := msg.tx = t ∧ Disciplined H msg ∧ Inv E w₀ H t.blockNumber c ∧
    ∃ rest, Funded H (paid H msg + rest) c ∧ (rest = 0 ∨ (msg.sender = H ∧ msg.self = 0 ∧
      msg.kind = .call ∧ msg.data = .empty))
  post msg r c c' := Inv E w₀ H t.blockNumber c' ∧
    ∀ rest, Funded H (paid H msg + rest) c →
      Funded H (match r with | .ok _ => rest | .error _ => paid H msg + rest) c'

section Proofs

variable {E : Env} {w₀ : World χ} {H : Address} {creation : Bytes}

theorem paid_other {msg : Msg} (h : msg.sender ≠ H) : paid H msg = 0 := by
  rw [paid, if_neg (fun hp => h hp.1)]

theorem paid_delegatecall {msg : Msg} (h : msg.kind = .delegatecall) : paid H msg = 0 := by
  rw [paid, if_neg]
  rintro ⟨-, hkind, -⟩
  rw [h] at hkind
  cases hkind

theorem Inv.congr {b : Word} {c c' : ChainConf χ} (h : Inv E w₀ H b c)
    (hcode : c'.state.code = c.state.code) (hbalance : c'.state.balance = c.state.balance)
    (hhub : c'.state.hubs H = c.state.hubs H) (htrace : c'.trace = c.trace) :
    Inv E w₀ H b c' where
  code := by rw [hcode, h.code]
  codeless := by rw [hcode]; exact h.codeless
  supply := by simpa only [World.supply, hbalance] using h.supply
  path := by rw [htrace, hhub]; exact h.path
  blocks := by rw [htrace]; exact h.blocks
  sorted := by rw [htrace]; exact h.sorted

/-- The hub has code, so no key pair has its address. -/
theorem Inv.ne_of_codeless {b : Word} {c : ChainConf χ} {a : Address} (h : Inv E w₀ H b c)
    (hcode : w₀.code H = some ⟨.relayHub, creation⟩) (ha : E.codeless a = true) : a ≠ H := by
  rintro rfl
  have hnone := h.codeless a ha
  rw [h.code, hcode] at hnone
  cases hnone

theorem Inv.wait {b b' : Word} {c : ChainConf χ} (h : Inv E w₀ H b c) (hb : b ≤ b') :
    Inv E w₀ H b' c :=
  { h with blocks := fun e he => BitVec.le_trans (h.blocks e he) hb }

/-! ## Frames of other accounts -/

/-- A write of another frame keeps the invariant. -/
theorem Inv.write {b : Word} {c : ChainConf χ} {msg : Msg} {s : World χ}
    (hcode : w₀.code H = some ⟨.relayHub, creation⟩) (h : Inv E w₀ H b c) (hself : msg.self ≠ H)
    (hw : LocalStep E msg c.state s) : Inv E w₀ H b (c.put s) where
  code := by
    rcases hw.code H with heq | ⟨rfl, -⟩ | ⟨hvacant, -⟩
    · exact heq.trans h.code
    · exact absurd rfl hself
    · have hnone := hvacant.1
      rw [h.code, hcode] at hnone
      cases hnone
  codeless := by
    intro a ha
    rcases hw.code a with heq | ⟨-, hnone⟩ | ⟨hvacant, -⟩
    · exact heq.trans (h.codeless a ha)
    · exact hnone
    · have hfalse := hvacant.2
      rw [ha] at hfalse
      cases hfalse
  supply := Nat.le_trans hw.supply h.supply
  path := by
    rw [Conf.put_trace, Conf.put_state, hw.hubs H (Ne.symm hself)]
    exact h.path
  blocks := h.blocks
  sorted := h.sorted

theorem Funded.write {o : Multiset (Address × Nat)} {c : ChainConf χ} {msg : Msg} {s : World χ}
    (h : Funded H o c) (hself : msg.self ≠ H) (hw : LocalStep E msg c.state s) :
    Funded H o (c.put s) :=
  h.congr (hw.hubs H (Ne.symm hself)) (hw.balance H (Ne.symm hself)) rfl

theorem Inv.entered {t : TxContext} {c : ChainConf χ} {msg : Msg} {s : World χ} {hub : RelayHub}
    (h : Inv E w₀ H t.blockNumber c) (ht : msg.tx = t) (henter : enter msg c.state = some s)
    (hstep : HubStep H ⟨msg, c.state⟩ (c.state.hubs H) hub)
    {w : World χ} (hcode : w.code = s.code) (hbalance : w.balance = s.balance)
    (hhub : w.hubs H = hub) : Inv E w₀ H t.blockNumber ((c.entered msg s).put w) := by
  obtain ⟨b, rfl, hsum⟩ := enter_frame henter
  refine ⟨?_, ?_, ?_, ?_, ?_, ?_⟩
  · rw [Conf.put_state, hcode]
    exact h.code
  · rw [Conf.put_state, hcode]
    exact h.codeless
  · have hs := h.supply
    rw [Conf.put_state, World.supply, hbalance]
    exact hsum.trans_le hs
  · rw [Conf.put_state, hhub]
    exact h.path.snoc hstep
  · intro e he
    rcases List.mem_append.mp he with he | he
    · exact h.blocks e he
    · obtain rfl := List.mem_singleton.mp he
      exact BitVec.le_of_eq (congrArg TxContext.blockNumber ht)
  · refine List.pairwise_append.mpr ⟨h.sorted, List.pairwise_singleton _ _, ?_⟩
    intro e he e' he'
    obtain rfl := List.mem_singleton.mp he'
    exact BitVec.le_trans (h.blocks e he) (BitVec.le_of_eq (congrArg TxContext.blockNumber ht.symm))

/-- Entering a frame of another account: what the message pays is paid. -/
theorem Funded.entered {c : ChainConf χ} {msg : Msg} {s : World χ}
    (hdisc : Disciplined H msg) (hself : msg.self ≠ H) (henter : enter msg c.state = some s)
    (rest : Multiset (Address × Nat)) (h : Funded H (paid H msg + rest) c) :
    Funded H rest (c.entered msg s) := by
  have hdue : due H ⟨msg, c.state⟩ = 0 := by
    rw [due, moveOf_other hself]
    rfl
  constructor
  · have hcoins := h.coins
    rw [Conf.entered_state]
    rcases enter_cases henter with ⟨hkind, hvalue, rfl⟩ | ⟨hkind, rfl⟩
    · by_cases hsender : msg.sender = H
      · -- the hub pays: a plain transfer, or a forwarded request without coins
        subst hsender
        show Ledger.move c.state.balance msg.sender msg.self msg.value.toNat msg.sender =
          StakeBook.total (c.state.hubs msg.sender).book + c.state.forced msg.sender +
            (rest.map Prod.snd).sum
        rw [Ledger.move_from c.state.balance _ (Ne.symm hself)]
        rcases (hdisc.sent rfl (by simp [hkind])).2 with hdata | ⟨hzero, hforward⟩
        · rw [paid, if_pos ⟨rfl, hkind, hdata⟩] at hcoins
          simp only [Multiset.map_add, Multiset.map_singleton, Multiset.sum_add,
            Multiset.sum_singleton] at hcoins
          omega
        · rw [paid, if_neg (by rintro ⟨-, -, hd⟩; rw [hd] at hforward; cases hforward)] at hcoins
          rw [zero_add] at hcoins
          have hnone : msg.value.toNat = 0 := by
            rw [hzero]
            rfl
          omega
      · rw [paid_other hsender, zero_add] at hcoins
        show Ledger.move c.state.balance msg.sender msg.self msg.value.toNat H = _
        rw [Ledger.move_other c.state.balance _ (Ne.symm hsender) (Ne.symm hself)]
        exact hcoins
    · have hzero : paid H msg = 0 := by
        rw [paid, if_neg (fun hp => hkind hp.2.1)]
      rw [hzero, zero_add] at hcoins
      exact hcoins
  · have hpay := h.payments
    simp only [Conf.entered_trace, List.map_append, List.sum_append, List.map_cons,
      List.map_nil, List.sum_cons, List.sum_nil, hdue, add_zero]
    rw [hpay, add_assoc]

/-- A frame that ends with nothing owed has answered as specified. -/
theorem post_of_settled {t : TxContext} {msg : Msg} {ret : Bytes} {c c' : ChainConf χ}
    (hstart : Funded H (paid H msg + 0) c) (hinv : Inv E w₀ H t.blockNumber c')
    (hfunded : Funded H 0 c') :
    (spec E w₀ H t).post msg (.ok ret) c (c'.answered msg (.ok ret)) := by
  refine ⟨hinv.congr rfl rfl rfl rfl, fun rest hrest => ?_⟩
  obtain rfl : rest = 0 := add_left_cancel (hrest.unique hstart)
  exact hfunded.congr rfl ⟨0, rfl, rfl⟩ rfl

/-- A message that a frame of another account can send meets the precondition. -/
theorem pre_of_local {t : TxContext} {msg m : Msg} {c : ChainConf χ} (ht : msg.tx = t)
    (hself : msg.self ≠ H) (hm : LocalCall msg m) (hinv : Inv E w₀ H t.blockNumber c)
    (hfunded : Funded H 0 c) : paid H m = 0 ∧ (spec E w₀ H t).pre m c := by
  obtain ⟨htx, hcases⟩ := hm
  have hpaid : paid H m = 0 := by
    rcases hcases with ⟨hkind, -⟩ | ⟨-, hsender, -⟩
    · exact paid_delegatecall hkind
    · exact paid_other (hsender ▸ hself)
  refine ⟨hpaid, htx.trans ht, ?_, hinv, 0, by rwa [hpaid, add_zero], Or.inl rfl⟩
  rcases hcases with ⟨hkind, hms, -⟩ | ⟨hkind, hsender, haddress, hstatic⟩
  · refine ⟨fun h => absurd hkind h, fun h => absurd (hms.symm.trans h) hself, ?_,
      fun _ h => absurd hkind h⟩
    intro h
    rw [hkind] at h
    cases h
  · exact ⟨fun _ => haddress, fun _ => hkind, hstatic,
      fun h => absurd (hsender.symm.trans h) hself⟩

theorem wp_other {O : Outside E χ} {t : TxContext} {msg : Msg} {c : ChainConf χ}
    {s : World χ} (hcode : w₀.code H = some ⟨.relayHub, creation⟩) (hself : msg.self ≠ H)
    (hpre : (spec E w₀ H t).pre msg c) (henter : enter msg c.state = some s) :
    wp (spec E w₀ H t) (codeOf E O msg s)
      (fun r c' => (spec E w₀ H t).post msg (.ok r) c (c'.answered msg (.ok r)))
      (c.entered msg s) := by
  obtain ⟨ht, hdisc, hinv, rest, hfunded, hrest⟩ := hpre
  have hhub : s.hubs H = c.state.hubs H := by
    obtain ⟨b, rfl, -⟩ := enter_frame henter
    rfl
  have hinv₁ : Inv E w₀ H t.blockNumber (c.entered msg s) :=
    hinv.entered ht henter (HubStep.other hself) rfl rfl hhub
  rcases hrest with rfl | ⟨hsender, hzero, hkind, -⟩
  · refine wp_mono (spec E w₀ H t) (fun r c' hc' => post_of_settled hfunded hc'.1 hc'.2) _ _
      (wp_foreign (J := fun c' => Inv E w₀ H t.blockNumber c' ∧ Funded H 0 c') ?_ ?_ ?_
        (c.entered msg s) ⟨hinv₁, Funded.entered hdisc hself henter 0 hfunded⟩)
    · rintro c₁ w ⟨hi, hf⟩ hw
      exact ⟨hi.write hcode hself hw, hf.write hself hw⟩
    · rintro m c₁ hm ⟨hi, hf⟩
      exact (pre_of_local ht hself hm hi hf).2
    · rintro m r c₁ c₂ hm ⟨hi, hf⟩ ⟨hi₂, hf₂⟩
      obtain ⟨hpaid, -⟩ := pre_of_local ht hself hm hi hf
      have hf₂' := hf₂ 0 (by rwa [hpaid, add_zero])
      rw [hpaid] at hf₂'
      cases r <;> exact ⟨hi₂, by simpa using hf₂'⟩
  · -- the zero address has no code, so nothing runs while the rest is owed
    have hnone : s.code msg.codeAddress = none := by
      obtain ⟨b, rfl, -⟩ := enter_frame henter
      rw [hdisc.address (by simp [hkind]), hzero]
      exact hinv.codeless 0 E.codeless_zero
    rw [codeOf, hnone]
    exact ⟨hinv₁.congr rfl rfl rfl rfl,
      fun rest' h' => (Funded.entered hdisc hself henter rest' h').congr rfl ⟨0, rfl, rfl⟩ rfl⟩

/-! ## Frames of the hub -/

/-- A call brings its coins to the hub. -/
theorem balance_entered {msg : Msg} {w s : World χ} (hdisc : Disciplined msg.self msg)
    (hne : msg.sender ≠ msg.self) (henter : enter msg w = some s) :
    s.balance msg.self = w.balance msg.self + msg.value.toNat := by
  rcases enter_cases henter with ⟨-, -, rfl⟩ | ⟨hkind, rfl⟩
  · exact Ledger.move_to w.balance msg.value.toNat (Ne.symm hne)
  · have hown := hdisc.own rfl
    have hstatic : msg.kind = .staticcall := by
      cases hk : msg.kind with
      | call => exact absurd hk hkind
      | staticcall => rfl
      | delegatecall => exact absurd hk hown
    rw [hdisc.static hstatic]
    rfl

/-- No deposit overflows: all coins of the hub are part of the supply. -/
theorem stake_add_lt {b : Word} {msg : Msg} {c : ChainConf χ} {s : World χ}
    (hsupply : w₀.supply < 2 ^ 256) (hne : msg.sender ≠ msg.self)
    (hdisc : Disciplined msg.self msg) (hinv : Inv E w₀ msg.self b c)
    (hfunded : Funded msg.self 0 c) (henter : enter msg c.state = some s) (m : Address) :
    ((c.state.hubs msg.self).stakes m).stake.toNat + msg.value.toNat < 2 ^ 256 := by
  have hm : ((c.state.hubs msg.self).stakes m).stake.toNat ≤
      StakeBook.total (c.state.hubs msg.self).book :=
    StakeBook.amount_le_total (c.state.hubs msg.self).book m
  have hcoins := hfunded.coins
  have hbalance := balance_entered hdisc hne henter
  obtain ⟨bal, rfl, hsum⟩ := enter_frame henter
  have hle : bal msg.self ≤ ∑ a, bal a := Ledger.le_sum bal msg.self
  have hinvs := hinv.supply
  simp only at hbalance
  omega

/-- The configuration of a running hub after its effect: the book has moved, and what the
move pays is owed. -/
theorem after_effect {t : TxContext} {msg : Msg} {c : ChainConf χ} {s : World χ}
    {hub' : RelayHub} {events : List Event} (hsupply : w₀.supply < 2 ^ 256)
    (hne : msg.sender ≠ msg.self) (ht : msg.tx = t) (hdisc : Disciplined msg.self msg)
    (hinv : Inv E w₀ msg.self t.blockNumber c) (hfunded : Funded msg.self 0 c)
    (henter : enter msg c.state = some s) (heffect : Effect msg (c.state.hubs msg.self) hub') :
    Inv E w₀ msg.self t.blockNumber ((c.entered msg s).put (after s msg.self hub' events)) ∧
      Funded msg.self (StakeBook.payments (c.state.hubs msg.self).book
          (moveOf msg.self msg (c.state.hubs msg.self)))
        ((c.entered msg s).put (after s msg.self hub' events)) := by
  have hstep := heffect.step (stake_add_lt hsupply hne hdisc hinv hfunded henter)
  have hhub : (after s msg.self hub' events).hubs msg.self = hub' := by
    simp [after, World.setHub]
  refine ⟨hinv.entered ht henter ⟨rfl, heffect.terms, heffect.penalizer, hstep⟩ rfl rfl hhub,
    ?_, ?_⟩
  · have htotal := hstep.total
    have hincome := heffect.income
    have hcoins := hfunded.coins
    have hbalance : (after s msg.self hub' events).balance msg.self =
        c.state.balance msg.self + msg.value.toNat := by
      rw [← balance_entered hdisc hne henter]
      rfl
    have hforced : (after s msg.self hub' events).forced = c.state.forced := by
      obtain ⟨b, rfl, -⟩ := enter_frame henter
      rfl
    simp only [Multiset.map_zero, Multiset.sum_zero] at hcoins
    simp only [Conf.put_state, hhub, hbalance, hforced]
    omega
  · have hpay := hfunded.payments
    simp only [Conf.put_trace, Conf.entered_trace, List.map_append, List.sum_append,
      List.map_cons, List.map_nil, List.sum_cons, List.sum_nil, add_zero,
      paid_other hne] at hpay ⊢
    rw [hpay]
    rfl

/-- The frame of the hub after all its calls, which logs an event and returns. -/
theorem settled_log {b : Word} {c : ChainConf χ} {o : Multiset (Address × Nat)} {w : World χ}
    {events : List Event} (hw : w = after c.state H (c.state.hubs H) events)
    (hinv : Inv E w₀ H b c) (hfunded : Funded H o c) :
    Inv E w₀ H b (c.put w) ∧ Funded H o (c.put w) := by
  subst hw
  have hhub : (after c.state H (c.state.hubs H) events).hubs H = c.state.hubs H := by
    simp [after, World.setHub]
  exact ⟨hinv.congr rfl rfl hhub rfl, hfunded.congr hhub ⟨0, rfl, rfl⟩ rfl⟩

/-- The hub may send a message that pays what it owes. -/
theorem pre_of_hub {t : TxContext} {msg : Msg} {c : ChainConf χ} {dest : Address} {value : Word}
    {data : CallData} (rest : Multiset (Address × Nat)) (ht : msg.tx = t)
    (hdata : data = .empty ∨ (value = 0 ∧ isForward data = true))
    (hinv : Inv E w₀ msg.self t.blockNumber c)
    (hfunded : Funded msg.self (paid msg.self (msg.callTo dest value data) + rest) c)
    (hrest : rest = 0 ∨ (dest = 0 ∧ data = .empty)) :
    (spec E w₀ msg.self t).pre (msg.callTo dest value data) c := by
  have hdisc : Disciplined msg.self (msg.callTo dest value data) :=
    { address := fun _ => rfl
      own := fun _ => CallKind.noConfusion
      static := CallKind.noConfusion
      sent := fun _ _ => ⟨rfl, hdata⟩ }
  refine ⟨ht, hdisc, hinv, rest, hfunded, ?_⟩
  rcases hrest with h | ⟨hdest, hempty⟩
  · exact Or.inl h
  · exact Or.inr ⟨rfl, hdest, rfl, hempty⟩

/-- A plain transfer pays. -/
theorem paid_transfer (msg : Msg) (dest : Address) (value : Word) :
    paid msg.self (msg.callTo dest value .empty) = {(dest, value.toNat)} := by
  rw [paid, if_pos ⟨rfl, rfl, rfl⟩]
  rfl

/-- A forwarded request does not. -/
theorem paid_forward (msg : Msg) (dest : Address) (data : CallData)
    (h : isForward data = true) : paid msg.self (msg.callTo dest 0 data) = 0 := by
  rw [paid, if_neg]
  rintro ⟨-, -, hdata⟩
  rw [show data = .empty from hdata] at h
  cases h

/-- Functions other than `withdrawStake` and `penalize` pay nothing. -/
theorem payments_quiet {msg : Msg} (hub : RelayHub) (hwithdraw : ∀ m, msg.data ≠ .withdrawStake m)
    (hpenalize : ∀ w b, msg.data ≠ .penalize w b) :
    StakeBook.payments hub.book (moveOf msg.self msg hub) = 0 := by
  rw [moveOf, if_pos rfl]
  split
  · rfl
  · rfl
  · next m hdata => exact absurd hdata (hwithdraw m)
  · next w b hdata => exact absurd hdata (hpenalize w b)
  · rfl

/-- The hub calls itself only with calldata it has no function for. -/
theorem code_of_self {msg : Msg} (hdisc : Disciplined msg.self msg)
    (hself : msg.sender = msg.self) : code E msg = (.revert (.data []) : Sol χ Bytes) := by
  have hdata := (hdisc.sent hself (hdisc.own rfl)).2
  unfold code
  split <;> simp_all [isForward]

theorem wp_hub {t : TxContext} {msg : Msg} {c : ChainConf χ} {s : World χ}
    (hsupply : w₀.supply < 2 ^ 256) (hpre : (spec E w₀ msg.self t).pre msg c)
    (henter : enter msg c.state = some s) :
    wp (spec E w₀ msg.self t) (code E msg)
      (fun r c' => (spec E w₀ msg.self t).post msg (.ok r) c (c'.answered msg (.ok r)))
      (c.entered msg s) := by
  obtain ⟨ht, hdisc, hinv, rest, hfunded, hrest⟩ := hpre
  by_cases hne : msg.sender = msg.self
  · rw [code_of_self hdisc hne]
    exact trivial
  · have hpaid : paid msg.self msg = 0 := paid_other hne
    obtain rfl : rest = 0 := by
      rcases hrest with h | ⟨h, -⟩
      · exact h
      · exact absurd h hne
    have hstart := hfunded
    rw [hpaid, zero_add] at hfunded
    have hhub : s.hubs msg.self = c.state.hubs msg.self := by
      obtain ⟨b, rfl, -⟩ := enter_frame henter
      rfl
    have heffects := fun hub' events heffect =>
      @after_effect χ E w₀ t msg c s hub' events hsupply hne ht hdisc hinv hfunded henter heffect
    have hunchanged : (∀ m, msg.data ≠ .withdrawStake m) → (∀ w b, msg.data ≠ .penalize w b) →
        Effect msg (c.state.hubs msg.self) (c.state.hubs msg.self) →
        Inv E w₀ msg.self t.blockNumber (c.entered msg s) ∧
          Funded msg.self 0 (c.entered msg s) := by
      intro hwithdraw hpenalize heffect
      have h := heffects _ [] heffect
      rwa [payments_quiet _ hwithdraw hpenalize, ← hhub, after_self] at h
    refine wp_code (c.state.hubs msg.self) hhub ?_ ?_ ?_ ?_ ?_
    -- messages that send no coins
    · intro hub' events ret heffect hwithdraw hpenalize hrelay hdeploy _
      obtain ⟨hi, hf⟩ := heffects hub' events heffect
      rw [payments_quiet _ hwithdraw hpenalize] at hf
      exact post_of_settled hstart hi hf
    -- `relayCall` and `deployCall` call with the hub as it stands
    · intro request signature hdata hguard
      obtain ⟨hi, hf⟩ := hunchanged (by simp [hdata]) (by simp [hdata])
        (.relayCall request signature hdata hguard)
      have hpaid' : paid msg.self (executeMsg E msg request signature) = 0 :=
        paid_forward msg _ _ rfl
      have hf' : Funded msg.self (paid msg.self (executeMsg E msg request signature) + 0)
          (c.entered msg s) := by
        rwa [hpaid', add_zero]
      refine ⟨pre_of_hub 0 ht (Or.inr ⟨rfl, rfl⟩) hi hf' (Or.inl rfl), ?_⟩
      rintro ret c' ⟨hi₂, hf₂⟩ success data hdecode
      obtain ⟨hi₃, hf₃⟩ := settled_log rfl hi₂ (hf₂ 0 hf')
      exact post_of_settled hstart hi₃ hf₃
    · intro request signature hdata hguard
      obtain ⟨hi, hf⟩ := hunchanged (by simp [hdata]) (by simp [hdata])
        (.deployCall request signature hdata hguard)
      have hpaid' : paid msg.self (deployMsg E msg request signature) = 0 :=
        paid_forward msg _ _ rfl
      have hf' : Funded msg.self (paid msg.self (deployMsg E msg request signature) + 0)
          (c.entered msg s) := by
        rwa [hpaid', add_zero]
      refine ⟨pre_of_hub 0 ht (Or.inr ⟨rfl, rfl⟩) hi hf' (Or.inl rfl), ?_⟩
      rintro ret c' ⟨hi₂, hf₂⟩
      exact post_of_settled hstart hi₂ (hf₂ 0 hf')
    -- `withdrawStake`: the books owe the one transfer
    · intro relayManager hdata heffect
      obtain ⟨hi, hf⟩ := heffects _ [] heffect
      have howed : StakeBook.payments (c.state.hubs msg.self).book
            (moveOf msg.self msg (c.state.hubs msg.self)) =
          paid msg.self (msg.callTo msg.sender
            ((c.state.hubs msg.self).stakes relayManager).stake .empty) + 0 := by
        rw [moveOf, if_pos rfl, hdata, paid_transfer, add_zero]
        rfl
      rw [howed] at hf
      refine ⟨pre_of_hub 0 ht (Or.inl rfl) hi hf (Or.inl rfl), ?_⟩
      rintro ret c' ⟨hi₂, hf₂⟩
      obtain ⟨hi₃, hf₃⟩ := settled_log rfl hi₂ (hf₂ 0 hf)
      exact post_of_settled hstart hi₃ hf₃
    -- `penalize`: the books owe two transfers, of which the first leaves the second
    · intro relayWorker beneficiary relayManager hdata hmanager heffect
      obtain ⟨hi, hf⟩ := heffects _ [] heffect
      have howed : StakeBook.payments (c.state.hubs msg.self).book
            (moveOf msg.self msg (c.state.hubs msg.self)) =
          paid msg.self (msg.callTo 0
              (penalty ((c.state.hubs msg.self).stakes relayManager).stake).1 .empty) +
            paid msg.self (msg.callTo beneficiary
              (penalty ((c.state.hubs msg.self).stakes relayManager).stake).2 .empty) := by
        rw [moveOf, if_pos rfl, hdata, paid_transfer, paid_transfer, penalty_fst, penalty_snd,
          hmanager]
        rfl
      rw [howed] at hf
      refine ⟨pre_of_hub _ ht (Or.inl rfl) hi hf (Or.inr ⟨rfl, rfl⟩), ?_⟩
      rintro ret₁ c₂ ⟨hi₂, hf₂⟩
      have hf₂' := hf₂ _ hf
      refine ⟨pre_of_hub 0 ht (Or.inl rfl) hi₂ (by rwa [add_zero]) (Or.inl rfl), ?_⟩
      rintro ret₂ c₃ ⟨hi₃, hf₃⟩
      obtain ⟨hi₄, hf₄⟩ := settled_log rfl hi₃ (hf₃ 0 (by rwa [add_zero]))
      exact post_of_settled hstart hi₄ hf₄

/-! ## Runs -/

theorem meets {O : Outside E χ} (hcode : w₀.code H = some ⟨.relayHub, creation⟩)
    (hsupply : w₀.supply < 2 ^ 256) (t : TxContext) :
    Meets (machine E O) (spec E w₀ H t) where
  fail := by
    rintro msg e c ⟨-, -, hinv, -⟩
    exact ⟨hinv.congr rfl rfl rfl rfl, fun rest h => h.congr rfl ⟨0, rfl, rfl⟩ rfl⟩
  code := by
    intro msg c s hpre henter
    by_cases hself : msg.self = H
    · subst hself
      have hrun : codeOf E O msg s = code E msg := by
        obtain ⟨-, hdisc, hinv, -⟩ := hpre
        obtain ⟨b, rfl, -⟩ := enter_frame henter
        rw [codeOf, hdisc.address (hdisc.own rfl), hinv.code, hcode]
        rfl
      rw [show (machine E O).code msg s = codeOf E O msg s from rfl, hrun]
      exact wp_hub hsupply hpre henter
    · exact wp_other hcode hself hpre henter

/-- A world in which the hub at `H` has just been constructed: it has its code, nothing is
staked, and the coins it already has were forced on it. -/
structure Fresh (E : Env) (w₀ : World χ) (H : Address) : Prop where
  code : ∃ creation, w₀.code H = some ⟨.relayHub, creation⟩
  construct : ∃ a₁ a₂ a₃ a₄ a₅, construct a₁ a₂ a₃ a₄ a₅ = some (w₀.hubs H)
  coins : w₀.balance H = w₀.forced H
  codeless : ∀ a, E.codeless a = true → w₀.code a = none

theorem Fresh.stakes (h : Fresh E w₀ H) (m : Address) : (w₀.hubs H).stakes m = StakeInfo.zero := by
  obtain ⟨a₁, a₂, a₃, a₄, a₅, hc⟩ := h.construct
  unfold RelayHub.construct at hc
  split at hc
  · rw [← Option.some.inj hc]
  · cases hc

theorem Fresh.keeps {O : Outside E χ} (h : Fresh E w₀ H) (hsupply : w₀.supply < 2 ^ 256) :
    Keeps E O w₀ (spec E w₀ H) (fun b c => Inv E w₀ H b c ∧ Funded H 0 c) := by
  obtain ⟨creation, hcode⟩ := h.code
  refine
    { meets := meets hcode hsupply
      start := ?_
      wait := ?_
      write := ?_
      call := ?_
      back := ?_ }
  · intro b
    refine ⟨⟨rfl, h.codeless, le_refl _, rfl, by simp, by simp⟩, ?_, rfl⟩
    have htotal : StakeBook.total (w₀.hubs H).book = 0 := by
      simp only [StakeBook.total, book, entry, h.stakes, StakeInfo.zero]
      exact Finset.sum_const_zero
    simp [htotal, h.coins]
  · rintro b b' c hb ⟨hi, hf⟩
    exact ⟨hi.wait hb, hf⟩
  · rintro b c msg s ⟨hi, hf⟩ hcodeless hw
    have hself : msg.self ≠ H := hi.ne_of_codeless hcode hcodeless
    exact ⟨hi.write hcode hself hw, hf.write hself hw⟩
  · rintro b c tx ⟨hi, hf⟩ hb horigin
    have hsender : tx.msg.sender ≠ H := hi.ne_of_codeless hcode horigin
    have hdisc : Disciplined H tx.msg :=
      { address := fun _ => rfl
        own := fun _ => CallKind.noConfusion
        static := CallKind.noConfusion
        sent := fun h => absurd h hsender }
    exact ⟨rfl, hdisc, hi.wait hb, 0, by rwa [paid_other hsender, add_zero], Or.inl rfl⟩
  · rintro b c tx r c' ⟨hi, hf⟩ hb horigin ⟨hi', hf'⟩
    have hsender : tx.msg.sender ≠ H := hi.ne_of_codeless hcode horigin
    have hf₀ := hf' 0 (by rwa [paid_other hsender, add_zero])
    rw [paid_other hsender] at hf₀
    cases r <;> exact ⟨hi', by simpa using hf₀⟩

/-- The penalizer of a hub never changes. -/
theorem Inv.penalizer {b : Word} {c : ChainConf χ} (h : Inv E w₀ H b c) :
    (c.state.hubs H).penalizer = (w₀.hubs H).penalizer :=
  h.path.invariant (P := fun x => x.penalizer = (w₀.hubs H).penalizer)
    (fun _ _ _ hstep hx => hstep.penalizer.trans hx) rfl

/-- Every point of a run: the invariant holds, and the hub owes what the message pays. -/
theorem Fresh.point {O : Outside E χ} (h : Fresh E w₀ H) (hsupply : w₀.supply < 2 ^ 256)
    {b : Word} {point : Option Msg} {c : ChainConf χ} (hc : Point E O w₀ b point c) :
    Inv E w₀ H b c ∧ ∃ owed, Funded H owed c ∧
      (∀ msg, point = some msg → paid H msg ≤ owed) ∧
      ((∀ msg, point = some msg → paid H msg = 0) → owed = 0) := by
  rcases hc.of_keeps (h.keeps hsupply) with ⟨rfl, hi, hf⟩ | ⟨msg, t, rfl, rfl, hpre⟩
  · exact ⟨hi, 0, hf, by simp, fun _ => rfl⟩
  · obtain ⟨-, hdisc, hi, rest, hf, hrest⟩ := hpre
    refine ⟨hi, _, hf, ?_, ?_⟩
    · rintro m ⟨⟩
      exact Multiset.le_add_right _ _
    · intro hzero
      rcases hrest with rfl | ⟨hsender, -, hkind, hdata⟩
      · rw [hzero msg rfl, add_zero]
      · have hpaid := hzero msg rfl
        rw [paid, if_pos ⟨hsender, hkind, hdata⟩] at hpaid
        exact absurd hpaid (Multiset.singleton_ne_zero _)

end Proofs

end RelayHub

end RifRelay
