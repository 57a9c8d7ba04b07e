import RifRelay.Contracts.WalletCoins
import RifRelay.Machine.Forward

set_option autoImplicit false

/-! # No coin stays in a wallet

`execute`, `directExecute` and `recover` end with the transfer of all that is left (`Sweeps`), so
that a call that goes through leaves the account of the wallet empty. What the wallet had and got
went to the calls that were asked for, and otherwise to the owner or the recoverer (`Emptied`).
-/

namespace RifRelay

open CallMachine IForwarder Wallet

namespace Coins

variable {χ : Type}

/-! ## The last step -/

/-- What is left goes to the owner after `execute` and `directExecute`, and to the recoverer after
`recover`. -/
def beneficiary (k : Code) (msg : Msg) : Option Address :=
  match k, msg.data with
  | .smartWallet, .execute _ _ req _ => some req.from
  | .smartWallet, .directExecute _ _ => some msg.sender
  | .smartWallet, .recover _ _ _ _ _ _ => some msg.sender
  | .customSmartWallet, .execute _ _ req _ => some req.from
  | .customSmartWallet, .directExecute _ _ => some msg.sender
  | .customSmartWallet, .recoverCustom _ _ _ _ _ _ _ _ => some msg.sender
  | _, _ => none

/-- The program ends with the transfer of what is left. -/
def Sweeps (msg : Msg) (dest : Address) (p : Sol χ (Bool × Bytes)) : Prop :=
  ∃ first : Sol χ (Bool × Bytes),
    p = first.bind fun result => (sweep msg dest).bind fun _ => .ret result

section Sweeps

variable {α : Type} {E : Env} {msg : Msg} {dest : Address}

theorem Sweeps.last (first : Sol χ (Bool × Bytes)) : Sweeps msg dest
    (first.bind fun result => (sweep msg dest).bind fun _ => .ret result) := ⟨first, rfl⟩

theorem Sweeps.after (p : Sol χ α) {f : α → Sol χ (Bool × Bytes)}
    (h : ∀ a, Sweeps msg dest (f a)) : Sweeps msg dest (p.bind f) := by
  choose first hfirst using h
  refine ⟨p.bind first, ?_⟩
  rw [Prog.bind_assoc]
  exact congrArg _ (funext hfirst)

theorem Sweeps.ite {q : Prop} [Decidable q] {x y : Sol χ (Bool × Bytes)}
    (hx : Sweeps msg dest x) (hy : Sweeps msg dest y) : Sweeps msg dest (if q then x else y) := by
  by_cases hq : q
  · rwa [if_pos hq]
  · rwa [if_neg hq]

/-- The result is encoded after the transfer. -/
theorem Sweeps.encoded {p : Sol χ (Bool × Bytes)} (h : Sweeps msg dest p) {q : Sol χ Bytes}
    (hq : q = p.bind fun result => .ret (Abi.encodeBoolBytes result.1 result.2)) :
    ∃ first : Sol χ (Bool × Bytes), q = first.bind fun result =>
      (sweep msg dest).bind fun _ => .ret (Abi.encodeBoolBytes result.1 result.2) := by
  obtain ⟨first, rfl⟩ := h
  refine ⟨first, ?_⟩
  rw [hq, Prog.bind_assoc]
  refine congrArg _ (funext fun result => ?_)
  rw [Prog.bind_assoc]
  rfl

theorem recoverCall_sweeps (destinationContract : Address) (data : Bytes) :
    Sweeps msg msg.sender (recoverCall E msg destinationContract data : Sol χ (Bool × Bytes)) :=
  .ite (.last _) (.last (.ret (false, [])))

theorem smartWallet_execute_sweeps (dom suffix : Word) (req : ForwardRequest) (sig : Bytes) :
    Sweeps msg req.from (SmartWallet.execute E msg dom suffix req sig : Sol χ (Bool × Bytes)) :=
  .after _ fun _ => .after _ fun _ => .after _ fun _ => .after _ fun _ => .after _ fun _ =>
    .after _ fun _ => .last _

theorem customSmartWallet_execute_sweeps (dom suffix : Word) (req : ForwardRequest) (sig : Bytes) :
    Sweeps msg req.from
      (CustomSmartWallet.execute E msg dom suffix req sig : Sol χ (Bool × Bytes)) :=
  .after _ fun _ => .after _ fun _ => .after _ fun _ => .after _ fun _ => .after _ fun _ =>
    .after _ fun _ => .after _ fun _ => .ite (.last _) (.last _)

/-- The three functions of both wallets end with the transfer. -/
theorem code_sweeps {O : Outside E χ} {w : World χ} {k : Code}
    (hcode : (w.code msg.codeAddress).map Contract.code = some k)
    (hdest : beneficiary k msg = some dest) :
    ∃ first : Sol χ (Bool × Bytes), codeOf E O msg w = first.bind fun result =>
      (sweep msg dest).bind fun _ => .ret (Abi.encodeBoolBytes result.1 result.2) := by
  unfold codeOf
  rw [hcode]
  cases k with
  | smartWallet =>
      cases hdata : msg.data <;> simp only [beneficiary, hdata] at hdest <;> cases hdest <;>
        refine Sweeps.encoded ?_ (by simp only [SmartWallet.code, hdata]; rfl)
      · exact smartWallet_execute_sweeps _ _ _ _
      · exact .after _ fun _ => .after _ fun _ => .last _
      · exact .after _ fun _ => recoverCall_sweeps _ _
  | customSmartWallet =>
      cases hdata : msg.data <;> simp only [beneficiary, hdata] at hdest <;> cases hdest <;>
        refine Sweeps.encoded ?_ (by simp only [CustomSmartWallet.code, hdata]; rfl)
      · exact customSmartWallet_execute_sweeps _ _ _ _
      · exact .after _ fun _ => .after _ fun _ => .ite (.last _) (.last _)
      · exact .after _ fun _ => recoverCall_sweeps _ _
  | _ => cases hdest

end Sweeps

/-! ## What the transfer does -/

/-- The stipend pays for no transfer: a plain transfer that gets no more gas than the stipend
moves its own coins and no others. -/
def Stipend {E : Env} (O : Outside E χ) : Prop :=
  ∀ depth static g (m : Msg) (c : ChainConf χ) ret, m.kind = .call → m.data = .empty → g ≤ 2300 →
    (exec (machine E O) depth static g m c).value = .ok ret →
      (exec (machine E O) depth static g m c).conf.state.balance =
        Ledger.move c.state.balance m.sender m.self m.value.toNat

/-- The last step of the frame `msg`, from `before` to `after`: all that is left is transferred to
`dest`, by a message if there is anything. -/
structure LastStep (msg : Msg) (dest : Address) (before after : ChainConf χ) : Prop where
  moved : after.state.balance =
    Ledger.move before.state.balance msg.self dest (before.state.balance msg.self)
  none : before.state.balance msg.self = 0 → after.trace = before.trace
  transfer : 0 < before.state.balance msg.self → ∃ l, after.trace = before.trace ++
    ⟨msg.callTo dest (BitVec.ofNat 256 (before.state.balance msg.self)) .empty, before.state⟩ :: l

theorem LastStep.empty {msg : Msg} {dest : Address} {before after : ChainConf χ}
    (h : LastStep msg dest before after) (hne : dest ≠ msg.self) :
    after.state.balance msg.self = 0 := by
  rw [h.moved, Ledger.move_from _ _ hne.symm, Nat.sub_self]

theorem LastStep.congr {msg : Msg} {dest : Address} {before after after' : ChainConf χ}
    (h : LastStep msg dest before after) (hstate : after'.state = after.state)
    (htrace : after'.trace = after.trace) : LastStep msg dest before after' where
  moved := by rw [hstate, h.moved]
  none hzero := by rw [htrace, h.none hzero]
  transfer hpos := by rw [htrace]; exact h.transfer hpos

/-- The frame that runs the code of the wallet when `m` is sent in `c`: that of `m`, or of the
delegate call of a proxy. -/
inductive WalletFrame (mc : Address) (m : Msg) (c : ChainConf χ) : Msg → ChainConf χ → Prop
  | own : WalletFrame mc m c m c
  | proxied (s : World χ)
      (hcode : codeAt (⟨m, c.state⟩ : Entry (World χ) Msg) = some (.proxy mc))
      (henter : enter m c.state = some s) :
      WalletFrame mc m c (m.delegatecallTo mc m.data) (c.entered m s)

/-- The frame `msg`, which is sent in `c` and leaves `after`, takes its last step in `before`. -/
def ComesTo {E : Env} (O : Outside E χ) (dest : Address) (msg : Msg)
    (c before after : ChainConf χ) : Prop :=
  ∃ (depth : Nat) (static : Bool) (g left : Nat) (s : World χ) (first : Sol χ (Bool × Bytes))
    (result : Bool × Bytes),
    enter msg c.state = some s ∧
    codeOf E O msg s = (first.bind fun result => (sweep msg dest).bind fun _ =>
      .ret (Abi.encodeBoolBytes result.1 result.2)) ∧
    run (machine E O) (exec (machine E O) depth) static first g (c.entered msg s) =
      ⟨.ok result, before, left⟩ ∧
    (exec (machine E O) (depth + 1) static g msg c).conf.state = after.state ∧
    (exec (machine E O) (depth + 1) static g msg c).conf.trace = after.trace

/-- The last thing that the wallet does for the message `m` is the transfer of all that is left to
`dest`. -/
def SweptTo {E : Env} (O : Outside E χ) (mc dest : Address) (m : Msg) (c after : ChainConf χ) :
    Prop :=
  ∃ msg c₁ before, WalletFrame mc m c msg c₁ ∧ ComesTo O dest msg c₁ before after ∧
    LastStep msg dest before after

theorem ComesTo.congr {E : Env} {O : Outside E χ} {dest : Address} {msg : Msg}
    {c before after after' : ChainConf χ} (h : ComesTo O dest msg c before after)
    (hstate : after'.state = after.state) (htrace : after'.trace = after.trace) :
    ComesTo O dest msg c before after' := by
  obtain ⟨depth, static, g, left, s, first, result, henter, hcode, hfirst, hends⟩ := h
  rw [← hstate, ← htrace] at hends
  exact ⟨depth, static, g, left, s, first, result, henter, hcode, hfirst, hends⟩

theorem WalletFrame.self {mc : Address} {m msg : Msg} {c c₁ : ChainConf χ}
    (h : WalletFrame mc m c msg c₁) : msg.self = m.self := by
  cases h with
  | own => rfl
  | proxied s hcode henter => rfl

theorem SweptTo.empty {E : Env} {O : Outside E χ} {mc dest : Address} {m : Msg}
    {c after : ChainConf χ} (h : SweptTo O mc dest m c after) (hne : dest ≠ m.self) :
    after.state.balance m.self = 0 := by
  obtain ⟨msg, c₁, before, hframe, -, hlast⟩ := h
  rw [← hframe.self] at hne ⊢
  exact hlast.empty hne

section Run

variable {E : Env} {O : Outside E χ} {static : Bool} {depth g : Nat} {c : ChainConf χ}
  {msg m : Msg} {dest : Address} {s : World χ} {k : Code}

theorem word_pos_iff {n : Nat} (hn : n < 2 ^ 256) : 0 < BitVec.ofNat 256 n ↔ 0 < n := by
  rw [BitVec.lt_def, BitVec.toNat_ofNat, Nat.mod_eq_of_lt hn]
  exact Iff.rfl

/-- A transfer that goes through. -/
theorem run_transferTo (hO : Stipend O) {amount : Word} (hamount : 0 < amount.toNat)
    (hok : (run (machine E O) (exec (machine E O) depth) static
      (transferTo msg dest amount) g c).value = .ok ()) :
    (run (machine E O) (exec (machine E O) depth) static
      (transferTo msg dest amount) g c).conf.state.balance =
        Ledger.move c.state.balance msg.self dest amount.toNat ∧
    ∃ l, (run (machine E O) (exec (machine E O) depth) static
      (transferTo msg dest amount) g c).conf.trace =
        c.trace ++ ⟨msg.callTo dest amount .empty, c.state⟩ :: l := by
  have hne : amount ≠ 0 := by
    rintro rfl
    exact absurd hamount (Nat.lt_irrefl 0)
  unfold transferTo at hok ⊢
  rw [if_neg hne] at hok ⊢
  obtain ⟨left, kept, heq⟩ := run_send_ok _ _ _ hok
  rw [heq] at hok ⊢
  generalize hx : exec (machine E O) depth _ _ _ c = x at hok ⊢
  cases hvalue : x.value with
  | error e =>
      rw [hvalue] at hok
      cases hok
  | ok ret =>
      -- no gas is forwarded but the stipend
      have hgas : forwarded (some 0) left +
          (machine E O).stipend (msg.callTo dest amount .empty) ≤ 2300 := by
        have hzero : forwarded (some 0) left = 0 := Nat.zero_min _
        have hstipend : (machine E O).stipend (msg.callTo dest amount .empty) ≤ 2300 := by
          show (if isPaying _ then 2300 else 0) ≤ 2300
          split <;> omega
        omega
      have hfollows := exec_follows (machine E O) depth
        (static || (machine E O).isStatic (msg.callTo dest amount .empty))
        (forwarded (some 0) left + (machine E O).stipend (msg.callTo dest amount .empty))
        (msg.callTo dest amount .empty) c
      show x.conf.state.balance = _ ∧ ∃ l, x.conf.trace = _
      rw [← hx] at hvalue ⊢
      rw [hvalue] at hfollows
      exact ⟨hO _ _ _ _ _ _ rfl rfl hgas hvalue, hfollows.1⟩

/-- The last step leaves nothing. -/
theorem run_sweep (hO : Stipend O) (hsupply : c.state.supply < 2 ^ 256)
    (hok : (run (machine E O) (exec (machine E O) depth) static (sweep msg dest) g c).value =
      .ok ()) :
    LastStep msg dest c
      (run (machine E O) (exec (machine E O) depth) static (sweep msg dest) g c).conf := by
  have hlt : c.state.balance msg.self < 2 ^ 256 :=
    lt_of_le_of_lt (Ledger.le_sum c.state.balance msg.self) hsupply
  have hbalance : (BitVec.ofNat 256 (c.state.balance msg.self)).toNat =
      c.state.balance msg.self := by
    rw [BitVec.toNat_ofNat, Nat.mod_eq_of_lt hlt]
  simp only [sweep, selfBalance, Prog.get, Prog.bind_eq, Prog.bind, run] at hok ⊢
  split at hok
  · cases hok
  next hcost =>
    rw [if_neg hcost]
    by_cases hpos : 0 < c.state.balance msg.self
    · have hword := (word_pos_iff hlt).mpr hpos
      simp only [whenever, if_pos hword] at hok ⊢
      obtain ⟨hmoved, htrace⟩ := run_transferTo hO (by rw [hbalance]; exact hpos) hok
      rw [hbalance] at hmoved
      exact ⟨hmoved, fun hzero => absurd hpos (hzero ▸ Nat.lt_irrefl 0), fun _ => htrace⟩
    · have hword := (word_pos_iff hlt).not.mpr hpos
      have hzero : c.state.balance msg.self = 0 := Nat.eq_zero_of_not_pos hpos
      simp only [whenever, if_neg hword, run]
      refine ⟨?_, fun _ => rfl, fun h => absurd h hpos⟩
      rw [hzero, Ledger.move_zero]

/-- Coins are not made in a bounded program. -/
theorem supply_run {α : Type} {p : Sol χ α}
    (hp : p.Within (LocalStep E msg) (LocalCall msg)) {a : α}
    (hok : (run (machine E O) (exec (machine E O) depth) static p g c).value = .ok a) :
    (run (machine E O) (exec (machine E O) depth) static p g c).conf.state.supply ≤
      c.state.supply := by
  have hback : ∀ (m : Msg) r (c₁ c₂ : ChainConf χ), LocalCall msg m →
      c₁.state.supply ≤ c.state.supply → (coinSpec E msg.self).post m r c₁ c₂ →
        c₂.state.supply ≤ c.state.supply := by
    intro m r c₁ c₂ _ hle hpost
    obtain ⟨f, -, hbooks, -⟩ := framed_grew (Accounted.additive True msg.self) hpost
    exact hbooks.supply.trans hle
  have hwp := wp_within (S := coinSpec E msg.self) (J := fun c₁ => c₁.state.supply ≤ c.state.supply)
    (fun c₁ w hle hw => hw.supply.trans hle) (fun _ _ _ _ => trivial) hback hp c le_rfl
  exact run_spec _ _ (exec_spec (coins_meet E O msg.self) depth) static p _ g c hwp a hok

/-- **The frame of a wallet leaves nothing.** -/
theorem frame_swept (hO : Stipend O) (hcode : codeAt (⟨m, c.state⟩ : Entry (World χ) Msg) = some k)
    (hdest : beneficiary k m = some dest) (hsupply : c.state.supply < 2 ^ 256) {ret : Bytes}
    (hok : (exec (machine E O) depth static g m c).value = .ok ret) :
    ∃ before, ComesTo O dest m c before (exec (machine E O) depth static g m c).conf ∧
      LastStep m dest before (exec (machine E O) depth static g m c).conf := by
  cases depth with
  | zero => cases hok
  | succ depth =>
      obtain ⟨x, hx⟩ : ∃ x, exec (machine E O) (depth + 1) static g m c = x := ⟨_, rfl⟩
      have hends := hx
      rw [hx] at hok ⊢
      simp only [exec] at hx
      cases henter : (machine E O).enter m c.state with
      | none =>
          rw [henter] at hx
          subst hx
          cases hok
      | some s =>
          obtain ⟨b, hs, hsum⟩ := enter_frame henter
          have hkept : (s.code m.codeAddress).map Contract.code = some k := by
            rw [hs]
            exact hcode
          have hlt : (c.entered m s).state.supply < 2 ^ 256 := by
            rw [Conf.entered_state, hs]
            exact lt_of_eq_of_lt hsum hsupply
          obtain ⟨first, hp⟩ := code_sweeps (E := E) (O := O) hkept hdest
          have hwithin : first.Within (LocalStep E m) (LocalCall m) := by
            have hall := within_codeOf E m O s
            rw [hp] at hall
            exact hall.of_bind
          rw [henter] at hx
          simp only at hx
          split at hx
          next r c' g' heq =>
            subst hx
            have heq' : run (machine E O) (exec (machine E O) depth) static (codeOf E O m s) g
                (c.entered m s) = ⟨.ok r, c', g'⟩ := heq
            have hrun := congrArg Outcome.value heq'
            rw [hp] at hrun heq'
            -- the frame is a first part, the transfer, and what is returned
            obtain ⟨result, hbefore, hlast⟩ := run_bind_ok _ _ _ hrun
            obtain ⟨⟨⟩, hsweep, -⟩ := run_bind_ok _ _ _ hlast
            have hstep := run_sweep hO (lt_of_le_of_lt (supply_run hwithin hbefore) hlt) hsweep
            rw [run_bind_of_ok _ _ _ hbefore, run_bind_of_ok _ _ _ hsweep] at heq'
            generalize hfirst : run (machine E O) (exec (machine E O) depth) static first g
              (c.entered m s) = y at hbefore hstep heq'
            obtain ⟨value, before, left⟩ := y
            obtain rfl : value = .ok result := hbefore
            have hconf := congrArg Outcome.conf heq'
            refine ⟨before, ⟨depth, static, g, left, s, first, result, henter, hp, hfirst, ?_⟩,
              hstep.congr (congrArg Conf.state hconf).symm (congrArg Conf.trace hconf).symm⟩
            rw [hends]
            exact ⟨rfl, rfl⟩
          next =>
            subst hx
            cases hok

/-- A message to a proxy is a message to the code behind it. -/
theorem proxy_exec {masterCopy : Address} {ret : Bytes}
    (hcode : codeAt (⟨m, c.state⟩ : Entry (World χ) Msg) = some (.proxy masterCopy))
    (hok : (exec (machine E O) depth static g m c).value = .ok ret) :
    ∃ depth' static' g' s, enter m c.state = some s ∧
      (exec (machine E O) depth' static' g' (m.delegatecallTo masterCopy m.data)
        (c.entered m s)).value = .ok ret ∧
      (exec (machine E O) depth static g m c).conf.state =
        (exec (machine E O) depth' static' g' (m.delegatecallTo masterCopy m.data)
          (c.entered m s)).conf.state ∧
      (exec (machine E O) depth static g m c).conf.trace =
        (exec (machine E O) depth' static' g' (m.delegatecallTo masterCopy m.data)
          (c.entered m s)).conf.trace := by
  cases depth with
  | zero => cases hok
  | succ depth =>
      simp only [exec] at hok ⊢
      cases henter : (machine E O).enter m c.state with
      | none =>
          rw [henter] at hok
          cases hok
      | some s =>
          have hkept : codeOf E O m s = Proxy.code masterCopy m := by
            obtain ⟨b, hs, -⟩ := enter_frame henter
            have hproxy : (s.code m.codeAddress).map Contract.code = some (.proxy masterCopy) := by
              rw [hs]
              exact hcode
            unfold codeOf
            rw [hproxy]
          rw [henter] at hok
          simp only at hok ⊢
          split at hok
          next r c' g' heq =>
            have heq' : run (machine E O) (exec (machine E O) depth) static (codeOf E O m s) g
                (c.entered m s) = ⟨.ok r, c', g'⟩ := heq
            rw [hkept] at heq'
            have hrun := congrArg Outcome.value heq'
            obtain ⟨left, kept, hsend⟩ := run_send_ok _ _ _ hrun
            have hbubble := hsend.symm.trans heq'
            cases hvalue : (exec (machine E O) depth
                (static || (machine E O).isStatic (m.delegatecallTo masterCopy m.data))
                (forwarded none left + (machine E O).stipend (m.delegatecallTo masterCopy m.data))
                (m.delegatecallTo masterCopy m.data) (c.entered m s)).value with
            | error e =>
                rw [hvalue] at hbubble
                cases hbubble
            | ok ret' =>
                rw [hvalue] at hbubble
                obtain ⟨hret, hconf, -⟩ := Outcome.mk.inj hbubble
                have hstate : c'.state = _ := (congrArg Conf.state hconf).symm
                have htrace : c'.trace = _ := (congrArg Conf.trace hconf).symm
                exact ⟨depth, _, _, s, henter, hvalue.trans (hret.trans hok), hstate, htrace⟩
          next => cases hok

end Run

/-! ## Wallets without a logic -/

/-- The account `W` runs the wallet code `k` of the account `mc`, its own or behind a proxy. -/
structure Runs (w : World χ) (W mc : Address) (k : Code) : Prop where
  wallet : k.isWallet = true
  masterCopy : (w.code mc).map Contract.code = some k
  proxy : W = mc ∨ (w.code W).map Contract.code = some (.proxy mc)

/-- The accounts whose code and storage a wallet depends on. -/
def Relies (W mc a : Address) : Prop := a = W ∨ a = mc

/-- A wallet whose code will delegate to no other: a smart wallet, or a custom smart wallet that
was initialised without a logic, as was the master copy. -/
structure Plain (w : World χ) (W mc : Address) (k : Code) : Prop extends Runs w W mc k where
  logicless : k = .customSmartWallet → ∀ a, Relies W mc a →
    (w.wallets a).owner ≠ 0 ∧ (w.wallets a).logic = 0

/-- Messages to a wallet run its own code, or that of the master copy. -/
def Fits (W mc : Address) (m : Msg) : Prop :=
  Relies W mc m.self → m.codeAddress = m.self ∨ m.codeAddress = mc

section Plain

variable {E : Env} {O : Outside E χ} {W mc : Address} {k : Code} {w w' : World χ} {msg m : Msg}
  {c c' : ChainConf χ} {s : World χ}

theorem Runs.code_ne_none (h : Runs w W mc k) {a : Address} (ha : Relies W mc a) :
    w.code a ≠ none := by
  have hmc : w.code mc ≠ none := by
    intro hnone
    have hsome := h.masterCopy
    rw [hnone] at hsome
    cases hsome
  rcases ha with rfl | rfl
  · rcases h.proxy with rfl | hproxy
    · exact hmc
    · intro hnone
      rw [hnone] at hproxy
      cases hproxy
  · exact hmc

theorem Plain.congr (h : Plain w W mc k) (hcode : ∀ a, Relies W mc a → w'.code a = w.code a)
    (hwallets : k = .customSmartWallet → ∀ a, Relies W mc a →
      (w'.wallets a).owner ≠ 0 ∧ (w'.wallets a).logic = 0) : Plain w' W mc k where
  wallet := h.wallet
  masterCopy := by
    rw [hcode mc (Or.inr rfl)]
    exact h.masterCopy
  proxy := by
    rw [hcode W (Or.inl rfl)]
    exact h.proxy
  logicless := hwallets

theorem Plain.enter (h : Plain w W mc k) (henter : enter msg w = some s) : Plain s W mc k := by
  obtain ⟨b, rfl, -⟩ := enter_frame henter
  exact h.congr (fun _ _ => rfl) h.logicless

/-- No other account changes the code or the storage of a wallet. -/
theorem Plain.write (h : Plain w W mc k) (hself : ¬ Relies W mc msg.self)
    (hw : LocalStep E msg w w') : Plain w' W mc k := by
  have hvacant : ∀ a, Relies W mc a → ¬ w.Vacant E a := fun a ha hv => h.code_ne_none ha hv.1
  refine h.congr (fun a ha => ?_) fun hk a ha => ?_
  · rcases hw.code a with heq | ⟨rfl, -⟩ | ⟨hv, -⟩
    · exact heq
    · exact absurd ha hself
    · exact absurd hv (hvacant a ha)
  · have hne : a ≠ msg.self := by
      rintro rfl
      exact hself ha
    rcases hw.wallets a hne with heq | ⟨hv, -⟩
    · rw [heq]
      exact h.logicless hk a ha
    · exact absurd hv (hvacant a ha)

/-- A write of the running wallet that keeps it without a logic. -/
theorem Plain.setWallet (h : Plain w W mc k) (a : Address) (wallet : Wallet)
    (hwallet : k = .customSmartWallet → Relies W mc a → wallet.owner ≠ 0 ∧ wallet.logic = 0) :
    Plain (w.setWallet a wallet) W mc k := by
  refine h.congr (fun _ _ => rfl) fun hk b hb => ?_
  by_cases hba : b = a
  · subst hba
    have hset : (w.setWallet b wallet).wallets b = wallet := Function.update_self _ _ _
    rw [hset]
    exact hwallet hk hb
  · have hset : (w.setWallet a wallet).wallets b = w.wallets b := Function.update_of_ne hba _ _
    rw [hset]
    exact h.logicless hk b hb

/-- What a message to a wallet runs. -/
theorem Plain.codeAt (h : Plain c.state W mc k) (hself : Relies W mc msg.self)
    (hfits : Fits W mc msg) :
    codeAt (⟨msg, c.state⟩ : Entry (World χ) Msg) = some k ∨
      codeAt (⟨msg, c.state⟩ : Entry (World χ) Msg) = some (.proxy mc) := by
  have hmc : msg.codeAddress = mc →
      Coins.codeAt (⟨msg, c.state⟩ : Entry (World χ) Msg) = some k := by
    intro haddress
    rw [Coins.codeAt, haddress]
    exact h.masterCopy
  rcases hfits hself with haddress | haddress
  · rcases hself with hW | hW
    · rcases h.proxy with hsame | hproxy
      · exact Or.inl (hmc (haddress.trans (hW.trans hsame)))
      · refine Or.inr ?_
        rw [Coins.codeAt, haddress, hW]
        exact hproxy
    · exact Or.inl (hmc (haddress.trans hW))
  · exact Or.inl (hmc haddress)

theorem Plain.not_foreign (h : Plain c.state W mc k) (hfits : Fits W mc msg) :
    ¬ Foreign W (⟨msg, c.state⟩ : Entry (World χ) Msg) := by
  rintro ⟨hself, k', hk', hforeign⟩
  rcases h.codeAt (Or.inl hself) hfits with hk | hk
  · obtain rfl := Option.some.inj (hk.symm.trans hk')
    rw [Code.isForeign_of_isWallet h.wallet] at hforeign
    cases hforeign
  · obtain rfl := Option.some.inj (hk.symm.trans hk')
    cases hforeign

/-- The wallet is as it was, and no other code has run in its account. -/
def StaysPlain (W mc : Address) (k : Code) (c c' : ChainConf χ) : Prop :=
  Plain c'.state W mc k ∧ ∃ l, c'.trace = c.trace ++ l ∧ ∀ e ∈ l, ¬ Foreign W e

theorem StaysPlain.trans {c'' : ChainConf χ} (h : StaysPlain W mc k c c')
    (h' : StaysPlain W mc k c' c'') : StaysPlain W mc k c c'' := by
  obtain ⟨-, l, htrace, hnone⟩ := h
  obtain ⟨hplain, l', htrace', hnone'⟩ := h'
  refine ⟨hplain, l ++ l', by rw [htrace', htrace, List.append_assoc], fun e he => ?_⟩
  rcases List.mem_append.mp he with he | he
  · exact hnone e he
  · exact hnone' e he

theorem StaysPlain.put (h : StaysPlain W mc k c c') (hw : Plain w W mc k) :
    StaysPlain W mc k c (c'.put w) := ⟨hw, h.2⟩

/-- The specification of all messages. -/
def plainSpec (W mc : Address) (k : Code) : Spec (World χ) Msg Revert Bytes where
  pre m c := Plain c.state W mc k ∧ Fits W mc m
  post _ _ c c' := StaysPlain W mc k c c'

theorem fits_callTo (dest : Address) (value : Word) (data : CallData) :
    Fits W mc (msg.callTo dest value data) := fun _ => Or.inl rfl

theorem plain_calls (c : ChainConf χ) :
    CallsKeep (plainSpec W mc k) msg (StaysPlain W mc k c) :=
  fun _ _ _ _ h => ⟨⟨h.1, fits_callTo _ _ _⟩, fun _ _ hpost => h.trans hpost⟩

/-- A frame of a wallet. -/
theorem plain_own (hself : Relies W mc msg.self)
    (hcode : (s.code msg.codeAddress).map Contract.code = some k ∨
      (s.code msg.codeAddress).map Contract.code = some (.proxy mc))
    (h : StaysPlain W mc k c c') :
    wp (plainSpec W mc k) (codeOf E O msg s) (fun _ c'' => StaysPlain W mc k c c'') c' := by
  rcases hcode with hcode | hcode
  · have hwallet := h.1.wallet
    cases k with
    | smartWallet =>
        have hwritten (f : Wallet → Wallet) :
            StaysPlain W mc .smartWallet c (SmartWallet.written msg f c') :=
          h.put (h.1.setWallet _ _ fun hk => by cases hk)
        have hpay (token recipient : Address) (amount : Word) (f : Wallet → Wallet) :
            (plainSpec W mc .smartWallet).pre (payMsg msg token recipient amount)
              (SmartWallet.written msg f c') ∧
            ∀ ret c'', (plainSpec W mc .smartWallet).post (payMsg msg token recipient amount)
              (.ok ret) (SmartWallet.written msg f c') c'' → StaysPlain W mc .smartWallet c c'' :=
          ⟨⟨(hwritten f).1, fits_callTo _ _ _⟩, fun _ _ hpost => (hwritten f).trans hpost⟩
        unfold codeOf
        rw [hcode]
        exact SmartWallet.wp_smartWallet_code (plain_calls c) (fun _ _ => h)
          (fun _ _ _ _ _ _ => ⟨fun _ => hpay _ _ _ _, fun _ => hwritten _⟩)
          (fun _ _ _ _ _ _ _ => ⟨fun _ => hpay _ _ _ _, fun _ => hwritten _⟩)
    | customSmartWallet =>
        have hsealed := h.1.logicless rfl msg.self hself
        have hcounted : StaysPlain W mc .customSmartWallet c
            (SmartWallet.written msg SmartWallet.nextNonce c') :=
          h.put (h.1.setWallet _ _ fun _ _ => hsealed)
        unfold codeOf
        rw [hcode]
        refine CustomSmartWallet.wp_customSmartWallet_code (plain_calls c) ?_ (fun _ _ => h) ?_ ?_
        · -- no logic is stored
          intro c'' hc'' hlogic
          exact absurd (hc''.1.logicless rfl msg.self hself).2 hlogic
        · intro _ _ req _ _ _
          exact ⟨fun _ => ⟨⟨hcounted.1, fits_callTo _ _ _⟩, fun _ _ hpost => hcounted.trans hpost⟩,
            fun _ => hcounted⟩
        · -- the wallet is initialised
          intro _ _ _ _ _ _ _ _ howner
          exact absurd howner hsealed.1
    | _ => cases hwallet
  · unfold codeOf
    rw [hcode]
    show wp _ (Proxy.code mc msg) _ c'
    unfold Proxy.code
    rw [wp_bind, wp_send]
    refine ⟨⟨h.1, fun _ => Or.inr rfl⟩, fun r c'' hpost => ?_⟩
    exact (wp_bubble _ _ _ _).mpr fun _ _ => h.trans hpost

/-- **A wallet without a logic runs no other code.** -/
theorem plain_meets (E : Env) (O : Outside E χ) (W mc : Address) (k : Code) :
    Meets (machine E O) (plainSpec W mc k) where
  fail m e c hpre := ⟨hpre.1, [], (List.append_nil _).symm, fun e he => by cases he⟩
  code := by
    rintro msg c s ⟨hplain, hfits⟩ henter
    have hstart : StaysPlain W mc k c (c.entered msg s) := by
      refine ⟨hplain.enter henter, [⟨msg, c.state⟩], rfl, fun e he => ?_⟩
      rw [List.mem_singleton.mp he]
      exact hplain.not_foreign hfits
    have hsame : codeAt (⟨msg, c.state⟩ : Entry (World χ) Msg) =
        (s.code msg.codeAddress).map Contract.code := by
      obtain ⟨b, rfl, -⟩ := enter_frame henter
      rfl
    show wp _ (codeOf E O msg s) (fun _ c' => StaysPlain W mc k c c') _
    by_cases hself : Relies W mc msg.self
    · have hcode := hplain.codeAt hself hfits
      rw [hsame] at hcode
      exact plain_own hself hcode hstart
    · refine wp_foreign ?_ ?_ ?_ _ hstart
      · exact fun c₁ w h hw => h.put (h.1.write hself hw)
      · intro m c₁ hm h
        refine ⟨h.1, fun hrelies => ?_⟩
        rcases hm.2 with ⟨-, hsame, -⟩ | ⟨-, -, haddress, -⟩
        · exact absurd (hsame ▸ hrelies) hself
        · exact Or.inl haddress
      · exact fun m r c₁ c₂ _ h hpost => h.trans hpost

end Plain

/-! ## The call -/

/-- What the message `m` that goes through leaves in the account of a wallet: nothing. What was left
at the end went to `dest`; the coins that were there or came in are accounted for by those that
went out, and these by what the owner or the recoverer has authorised. -/
structure Emptied {E : Env} (O : Outside E χ) (mc dest : Address) (m : Msg) (c c' : ChainConf χ)
    (f : Frames χ) : Prop where
  empty : c'.state.balance m.self = 0
  swept : SweptTo O mc dest m c c'
  accounted : Accounted True m.self c.state c'.state f
  thrifty : f.Forall (Thrifty E)

/-- **No coin stays in a wallet.** After `execute`, `directExecute` or `recover` the account is
empty. Where the wallet has no custom logic no other code has run in it, so that the books are
exact. -/
theorem wallet_emptied {E : Env} {O : Outside E χ} (hO : Stipend O) {depth : Nat} {static : Bool}
    {g : Nat} {m : Msg} {c : ChainConf χ} {k : Code} {mc dest : Address} {ret : Bytes}
    (haddress : m.codeAddress = m.self) (hruns : Runs c.state m.self mc k)
    (hdest : beneficiary k m = some dest) (hne : dest ≠ m.self)
    (hsupply : c.state.supply < 2 ^ 256)
    (hok : (exec (machine E O) depth static g m c).value = .ok ret) :
    ∃ sub : Frames χ,
      (exec (machine E O) depth static g m c).conf.trace =
        c.trace ++ (Forest.tree ⟨m, c.state⟩ sub).entries ∧
      Emptied O mc dest m c (exec (machine E O) depth static g m c).conf
        (.tree ⟨m, c.state⟩ sub) ∧
      (Plain c.state m.self mc k →
        ∀ e ∈ (Forest.tree ⟨m, c.state⟩ sub).entries, ¬ Foreign m.self e) := by
  have hswept : SweptTo O mc dest m c (exec (machine E O) depth static g m c).conf := by
    rcases hruns.proxy with hself | hproxy
    · have hcode : codeAt (⟨m, c.state⟩ : Entry (World χ) Msg) = some k := by
        rw [codeAt, haddress, hself]
        exact hruns.masterCopy
      obtain ⟨before, hcomes, hlast⟩ := frame_swept hO hcode hdest hsupply hok
      exact ⟨m, c, before, .own, hcomes, hlast⟩
    · have hcode : codeAt (⟨m, c.state⟩ : Entry (World χ) Msg) = some (.proxy mc) := by
        rw [codeAt, haddress]
        exact hproxy
      obtain ⟨depth', static', g', s, henter, hinner, hstate, htrace⟩ := proxy_exec hcode hok
      have hframe : WalletFrame mc m c _ _ := .proxied s hcode henter
      obtain ⟨b, rfl, hsum⟩ := enter_frame henter
      have hlt : (c.entered m { c.state with balance := b }).state.supply < 2 ^ 256 :=
        lt_of_le_of_lt (b := c.state.supply) hsum.le hsupply
      have hinherits : beneficiary k (m.delegatecallTo mc m.data) = some dest := hdest
      have hbehind : codeAt (⟨m.delegatecallTo mc m.data,
          (c.entered m { c.state with balance := b }).state⟩ : Entry (World χ) Msg) = some k :=
        hruns.masterCopy
      obtain ⟨before, hcomes, hlast⟩ := frame_swept hO hbehind hinherits hlt hinner
      exact ⟨_, _, before, hframe, hcomes.congr hstate htrace, hlast.congr hstate htrace⟩
  have hpost := exec_spec (coins_meet E O m.self) depth static g m c trivial
  rw [hok] at hpost
  obtain ⟨sub, hgrew, hbooks⟩ := hpost
  refine ⟨sub, hgrew.trace, ⟨hswept.empty hne, hswept, hbooks, hgrew.frames⟩, fun hplain => ?_⟩
  have hfits : Fits m.self mc m := fun _ => Or.inl haddress
  obtain ⟨-, l, htrace, hnone⟩ :=
    exec_spec (plain_meets E O m.self mc k) depth static g m c ⟨hplain, hfits⟩
  rw [hgrew.trace] at htrace
  rw [List.append_cancel_left htrace]
  exact hnone

/-! ## A wallet with coins -/

/-- Where the stipend pays for no access of the state, it pays for no transfer. -/
theorem stipend_of_cost {E : Env} {O : Outside E χ}
    (hcost : ∀ w g, g ≤ 2300 → g < O.cost w g) : Stipend O := by
  intro depth static g m c ret hkind _ hgas hok
  cases depth with
  | zero => cases hok
  | succ depth =>
      simp only [exec] at hok ⊢
      cases henter : (machine E O).enter m c.state with
      | none =>
          rw [henter] at hok
          cases hok
      | some s =>
          rw [henter] at hok
          simp only at hok ⊢
          have hbroke (p : Sol χ Bytes) (c₁ : ChainConf χ)
              (hp : ∃ r,
                (run (machine E O) (exec (machine E O) depth) static p g c₁).value = .ok r) :
              (run (machine E O) (exec (machine E O) depth) static p g c₁).conf = c₁ := by
            obtain ⟨r, hp⟩ := hp
            have hlt : g < (machine E O).cost c₁.state g := hcost _ _ hgas
            cases p with
            | ret a => rfl
            | revert e => cases hp
            | read k => simp only [run, if_pos hlt] at hp; cases hp
            | update f k => simp only [run, if_pos (Or.inl hlt)] at hp; cases hp
            | gasleft k => simp only [run, if_pos hlt] at hp; cases hp
            | call limit m' k => simp only [run, if_pos (Or.inl hlt)] at hp; cases hp
          split at hok
          next r c' g' heq =>
            have hconf := hbroke _ _ ⟨r, congrArg Outcome.value heq⟩
            obtain rfl : c' = c.entered m s := (congrArg Outcome.conf heq).symm.trans hconf
            rcases enter_cases henter with ⟨-, -, rfl⟩ | ⟨hne, -⟩
            · rfl
            · exact absurd hkind hne
          next => cases hok

/-- The hash of the address `0x0a`. -/
def ownerHash0a : Word := 0xd9ed35852650f28d7a8f73c7ba49bcd72d97edf8d731797e5a2728559b865552

def ownerEnv : Env :=
  Env.ofKeys (hashTable [(addressBytes 0x0a, ownerHash0a)]) (recoverTable []) (fun _ => .empty)
    [0xe0]

/-- Every access of the state costs more than the stipend. -/
def dearOutside : Outside ownerEnv Unit :=
  { Outside.silent ownerEnv with cost := fun _ _ => 2301 }

/-- A smart wallet with 7 coins. -/
def fullWorld : World Unit :=
  { World.ofContracts 0xcc 7 fun a =>
      if a = 0xcc then some ⟨.proxy 0xdd, []⟩
      else if a = 0xdd then some ⟨.smartWallet, []⟩
      else none with
    wallets := fun a => if a = 0xcc then ⟨0, ownerHash0a, 0⟩ else Wallet.zero }

/-- The owner calls an address without code. -/
def ownerMsg : Msg := ⟨.call, 0x0a, 0xcc, 0xcc, 0, .directExecute 0x0b [], ⟨0x0a, 1, 5⟩⟩

/-- The 7 coins go to the owner. -/
theorem wallet_emptied_owner : ∃ sub : Frames Unit,
    (exec (machine ownerEnv dearOutside) 4 false 100000 ownerMsg
      (Conf.start fullWorld)).conf.trace =
        [] ++ (Forest.tree ⟨ownerMsg, fullWorld⟩ sub).entries ∧
    Emptied dearOutside 0xdd 0x0a ownerMsg (Conf.start fullWorld)
      (exec (machine ownerEnv dearOutside) 4 false 100000 ownerMsg (Conf.start fullWorld)).conf
      (.tree ⟨ownerMsg, fullWorld⟩ sub) ∧
    (Plain fullWorld 0xcc 0xdd .smartWallet →
      ∀ e ∈ (Forest.tree ⟨ownerMsg, fullWorld⟩ sub).entries, ¬ Foreign 0xcc e) := by
  have hruns : Runs fullWorld 0xcc 0xdd .smartWallet := ⟨rfl, by decide, Or.inr (by decide)⟩
  have hsupply : fullWorld.supply < 2 ^ 256 := by
    have hseven : fullWorld.supply = 7 := World.supply_ofContracts 0xcc 7 fun _ => none
    rw [hseven]
    decide
  have hok : (exec (machine ownerEnv dearOutside) 4 false 100000 ownerMsg
      (Conf.start fullWorld)).value = .ok (Abi.encodeBoolBytes true []) := by decide +kernel
  exact wallet_emptied (stipend_of_cost fun _ g hg => Nat.lt_succ_of_le hg) rfl hruns rfl
    (by decide) hsupply hok

/-! ## A wallet that owns itself -/

/-- A logic that lets the wallet call itself. -/
def selfLogic : Outside ownerEnv Unit where
  code := fun msg _ =>
    if msg.data = .other [1] then
      (Prog.send none (msg.callTo 0x0a 0 (.directExecute 0x0b []))).bind fun _ => .ret []
    else .ret []
  cost := fun _ _ => 700
  within := by
    intro msg w
    refine Prog.Within.ite _ _ ?_ trivial
    exact ((Prog.within_send _ _ _ _).mpr (localCall_callTo msg _ _ _)).bind fun _ => trivial

/-- A custom smart wallet that was initialised with itself as its owner. -/
def selfWorld : World Unit :=
  { World.ofContracts 0x0a 7 fun a =>
      if a = 0x0a then some ⟨.customSmartWallet, []⟩
      else if a = 0x1c then some ⟨.other, []⟩
      else none with
    wallets := fun a => if a = 0x0a then ⟨0, ownerHash0a, addressWord 0x1c⟩ else Wallet.zero }

def selfTx : Tx := ⟨0xe0, 1, 5, 0x0a, 0, .other [1], 1000000⟩

def selfMsg : Msg := ⟨.call, 0x0a, 0x0a, 0x0a, 0, .directExecute 0x0b [], ⟨0xe0, 1, 5⟩⟩

/-- The wallet sends what is left to itself: the 7 coins stay. The transaction of a stranger makes
it do so. -/
theorem self_owned_keeps :
    Runs selfWorld 0x0a 0x0a .customSmartWallet ∧
    beneficiary .customSmartWallet selfMsg = some 0x0a ∧
    (exec (machine ownerEnv selfLogic) 9 false 100000 selfMsg (Conf.start selfWorld)).value =
      .ok (Abi.encodeBoolBytes true []) ∧
    (exec (machine ownerEnv selfLogic) 9 false 100000 selfMsg
      (Conf.start selfWorld)).conf.state.balance 0x0a = 7 ∧
    (selfMsg, .ok (Abi.encodeBoolBytes true [])) ∈
      (selfTx.run ownerEnv selfLogic 9 (Conf.start selfWorld)).answers :=
  ⟨⟨rfl, by decide, Or.inl rfl⟩, rfl, by decide +kernel, by decide +kernel, by decide +kernel⟩

end Coins

end RifRelay
