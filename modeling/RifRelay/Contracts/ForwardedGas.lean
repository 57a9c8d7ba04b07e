import RifRelay.Contracts.Chain

set_option autoImplicit false

/-! # The gas of the destination

`execute` checks that more gas is left than the user has signed, and then calls the destination
with the gas that was signed. Between the check and the call some gas is spent, and the call
forwards at most all but one 64th of what is left: the check does not ask for either.
-/

namespace RifRelay

open CallMachine IForwarder

/-! ## All but one 64th -/

/-- Some `g` gas can be forwarded if this much is left. -/
def needed (g : Nat) : Nat := g + (g - 1) / 63

theorem forwardable_iff {g left : Nat} : g ≤ left - left / 64 ↔ needed g ≤ left := by
  unfold needed
  omega

/-- A call is asked to forward at least `g` gas. -/
def Asks (g : Nat) (limit : Option Nat) : Prop := ∀ l ∈ limit, g ≤ l

theorem le_forwarded_iff {g left : Nat} {limit : Option Nat} (h : Asks g limit) :
    g ≤ forwarded limit left ↔ needed g ≤ left := by
  rw [← forwardable_iff]
  cases limit with
  | none => exact Iff.rfl
  | some l => exact ⟨fun hle => hle.trans (min_le_right _ _), fun hle => le_min (h l rfl) hle⟩

/-! ## The check and the call -/

section Execute

variable {χ : Type} (E : Env) (msg : Msg) (req : ForwardRequest)

/-- The check, and the call that follows it. -/
def checkedSend (limit : Option Nat) (m : Msg) : Sol χ (Except Revert Bytes) := do
  let gasleft ← Prog.gas
  require (req.gas.toNat < gasleft) "Not enough gas left"
  Prog.send limit m

def destinationCall : Msg := msg.callTo req.to req.value (E.abiDecode req.data)

def logicCall (logicStrg : Word) : Msg := msg.delegatecallTo (wordAddress logicStrg) msg.data

/-- What both wallets call with the gas that was signed: the destination, or the custom logic. -/
inductive Checked : Option Nat → Msg → Prop
  | destination : Checked (some req.gas.toNat) (destinationCall E msg req)
  | logic (logicStrg : Word) : Checked none (logicCall msg logicStrg)

/-- The part of `execute` before the check. -/
def beforeCheck (domainSeparator suffixData : Word) (sig : Bytes) : Sol χ Unit := do
  require (msg.sender = req.relayHub) "Invalid caller"
  Wallet.verifySig E msg domainSeparator suffixData req sig
  Wallet.modifyStorage msg fun wallet => { wallet with nonce := wallet.nonce + 1 }
  whenever (0 < req.tokenAmount)
    (payToken msg req.tokenContract req.tokenGas msg.tx.origin req.tokenAmount
      "Unable to pay for relay")

/-- The part of `execute` after the call. -/
def afterCall (r : Except Revert Bytes) : Sol χ (Bool × Bytes) := do
  Wallet.sweep msg req.from
  return callResult r

variable {E msg req} {domainSeparator suffixData : Word} {sig : Bytes}

theorem SmartWallet.execute_eq :
    (SmartWallet.execute E msg domainSeparator suffixData req sig : Sol χ (Bool × Bytes)) =
      (beforeCheck E msg req domainSeparator suffixData sig).bind fun _ =>
        (checkedSend req (some req.gas.toNat) (destinationCall E msg req)).bind
          (afterCall msg req) := by
  unfold SmartWallet.execute beforeCheck checkedSend afterCall lowLevelCall destinationCall
  simp only [Prog.bind_eq, Prog.bind_assoc, Prog.pure_eq, Prog.ret_bind]

/-- The custom wallet checks before it looks at the logic. -/
theorem CustomSmartWallet.execute_eq :
    (CustomSmartWallet.execute E msg domainSeparator suffixData req sig : Sol χ (Bool × Bytes)) =
      (beforeCheck E msg req domainSeparator suffixData sig).bind fun _ =>
        (Wallet.storage msg).bind fun wallet =>
          (if wallet.logic = 0 then
            checkedSend req (some req.gas.toNat) (destinationCall E msg req)
          else checkedSend req none (logicCall msg wallet.logic)).bind (afterCall msg req) := by
  unfold CustomSmartWallet.execute beforeCheck checkedSend afterCall lowLevelCall
    lowLevelDelegatecall destinationCall logicCall
  simp only [Prog.bind_eq, Prog.bind_assoc, Prog.pure_eq, Prog.ret_bind]
  refine congrArg _ (funext fun _ => congrArg _ (funext fun _ => congrArg _ (funext fun _ =>
    congrArg _ (funext fun _ => congrArg _ (funext fun wallet => ?_)))))
  by_cases hlogic : wallet.logic = 0
  · simp only [hlogic, if_true, Prog.bind_assoc]
  · simp only [hlogic, if_false, Prog.bind_assoc]

/-! ## The gas it starts with -/

variable {O : Outside E χ} {callee : Callee (World χ) Msg Revert Bytes} {static : Bool}
  {g x : Nat} {c : ChainConf χ} {limit : Option Nat} {m : Msg}

theorem Checked.asks (h : Checked E msg req limit m) : Asks req.gas.toNat limit := by
  cases h with
  | destination =>
      intro l hl
      exact (Option.some.inj hl).le
  | logic logicStrg =>
      intro l hl
      cases hl

/-- The call starts if the check passes and its costs can be paid, with what is forwarded of the
gas that is left then, and the stipend. -/
theorem starts_iff : Sends (machine E O) callee static (fun _ y _ _ => y = x)
    (checkedSend req limit m) g c ↔
      O.cost c.state g ≤ g ∧ req.gas.toNat < g - O.cost c.state g ∧
        O.cost c.state (g - O.cost c.state g) ≤ g - O.cost c.state g ∧
        ¬ (static = true ∧ isPaying m = true) ∧
        x = forwarded limit (g - O.cost c.state g - O.cost c.state (g - O.cost c.state g)) +
          (if isPaying m then 2300 else 0) := by
  have hsends : ∀ y, Sends (machine E O) callee static (fun _ y _ _ => y = x)
      ((require (req.gas.toNat < y) "Not enough gas left").bind fun _ => Prog.send limit m) y c ↔
        req.gas.toNat < y ∧ O.cost c.state y ≤ y ∧ ¬ (static = true ∧ isPaying m = true) ∧
          x = forwarded limit (y - O.cost c.state y) + (if isPaying m then 2300 else 0) := by
    intro y
    unfold require Prog.assert
    by_cases hgas : req.gas.toNat < y
    · rw [if_pos hgas]
      constructor
      · rintro ⟨hcost, hpaying, hx | hret⟩
        · exact ⟨hgas, hcost, hpaying, hx.symm⟩
        · exact hret.elim
      · rintro ⟨-, hcost, hpaying, hx⟩
        exact ⟨hcost, hpaying, Or.inl hx.symm⟩
    · rw [if_neg hgas]
      exact iff_of_false (fun h => h) fun h => hgas h.1
  exact and_congr Iff.rfl ((hsends _).trans (by tauto))

/-- **The gas that was signed.** When the check has passed and the call starts, it starts with the
gas that was signed if and only if what was left at the check covers the cost of the call and, up
to the stipend, that gas and a 63rd of it. -/
theorem signed_gas_iff (hcall : Checked E msg req limit m)
    (hstarts : Sends (machine E O) callee static (fun _ y _ _ => y = x)
      (checkedSend req limit m) g c) :
    req.gas.toNat ≤ x ↔
      needed (req.gas.toNat - if isPaying m then 2300 else 0) +
        O.cost c.state (g - O.cost c.state g) ≤ g - O.cost c.state g := by
  obtain ⟨-, hgas, hcost, -, rfl⟩ := starts_iff.mp hstarts
  have hasks : Asks (req.gas.toNat - if isPaying m then 2300 else 0) limit :=
    fun l hl => (Nat.sub_le _ _).trans (hcall.asks l hl)
  rw [← Nat.sub_le_iff_le_add, le_forwarded_iff hasks]
  omega

end Execute

/-! ## A starved call -/

/-- A request for 64000 gas. -/
def gasRequest : ForwardRequest := ⟨0, 0, 0x22, 0, 0, 64000, 0, 0, 0, []⟩

def someEnv : Env := Env.ofKeys (fun _ => 0) (fun _ _ => .error "") (fun _ => .empty) []

/-- Every step costs 700 gas. -/
def steadyOutside : Outside someEnv Unit := { Outside.silent someEnv with cost := fun _ _ => 700 }

def emptyConf : ChainConf Unit := .start (World.ofContracts 0x11 100 fun _ => none)

def walletMsg : Msg := ⟨.call, 0x44, 0x33, 0x33, 0, .empty, ⟨0x11, 1, 5⟩⟩

/-- The call to the destination gets this gas. -/
def StartsWith (g x : Nat) : Prop :=
  Sends (machine someEnv steadyOutside) (exec (machine someEnv steadyOutside) 0) false
    (fun _ y _ _ => y = x)
    (checkedSend gasRequest (some 64000) (destinationCall someEnv walletMsg gasRequest)) g emptyConf

theorem startsWith_of {g x : Nat} (hgas : 64700 < g) (hx : forwarded (some 64000) (g - 1400) = x) :
    StartsWith g x := by
  refine starts_iff.mpr ⟨?_, ?_, ?_, fun h => (by cases h.1), ?_⟩
  · show 700 ≤ g
    omega
  · show 64000 < g - 700
    omega
  · show 700 ≤ g - 700
    omega
  · show x = forwarded (some 64000) (g - 700 - 700) + 0
    rw [Nat.sub_sub, hx, Nat.add_zero]

/-- With 64001 gas left the check passes, and the call starts with 62312 gas. -/
theorem starved_call : StartsWith 64701 62312 ∧
    Checked someEnv walletMsg gasRequest (some 64000)
      (destinationCall someEnv walletMsg gasRequest) ∧
    gasRequest.gas.toNat < 64701 - 700 ∧ ¬ gasRequest.gas.toNat ≤ 62312 :=
  ⟨startsWith_of (by decide) (by decide), .destination, by decide, by decide⟩

/-- With 66416 gas left the call starts with what was signed. -/
theorem signed_gas_iff_enough : StartsWith 67116 64000 ∧ gasRequest.gas.toNat ≤ 64000 :=
  ⟨startsWith_of (by decide) (by decide),
    (signed_gas_iff (Checked.destination : Checked someEnv walletMsg gasRequest _ _)
      (startsWith_of (g := 67116) (by decide) (by decide))).mpr (by decide)⟩

end RifRelay
