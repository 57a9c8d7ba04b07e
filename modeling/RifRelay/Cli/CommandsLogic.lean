import RifRelay.Contracts.HubSpec
import RifRelay.Basic.Hex

set_option autoImplicit false

/-! # `CommandsLogic`

`registerRelay` stakes for the manager of a relay, funds it and waits until it is ready. The stake
and the delay of the manager's entry are compared together, but the hub has a rule for each: it
adds to the stake, and it does not let the delay go down. It takes no stake from an account that
is a manager itself, which is not looked at before.
-/

namespace RifRelay.CommandsLogic

/-! ## `registerRelay` -/

/-- The amounts are those that `toBN` reads. -/
structure RegisterOptions where
  «from» : Address
  gasPrice : Word
  stake : Word
  funds : Word
  relayUrl : String
  unstakeDelay : Word

/-- The answer to a ping. -/
structure PingResponse where
  ready : Bool
  chainId : String
  relayManagerAddress : Address
  relayHubAddress : Address

/-- A transaction that is sent from `options.from`. -/
inductive Sent
  | stakeForAddress (relayHub relayManager : Address) (unstakeDelay : Word) (value : ℤ)
      (gasPrice : Word)
  | fund (relayManager : Address) (value gasPrice : Word)
deriving DecidableEq

structure RegistrationResult where
  success : Bool
  transactions : Option (List String)
  error : Option String
deriving DecidableEq

/-- What `registerRelay` is told by the relay and the node. -/
structure Answers where
  ping : Option PingResponse
  chainId : Nat
  relayHubAddress : Option Address
  getStakeInfo : Address → Address → StakeInfo
  stakeTx : Except String String
  balance : Nat
  fundTx : Except String (Option String)
  receipt : String
  waitForRelay : Except String Unit

/-- An address in a message, in lower case. -/
def addressText (a : Address) : String := String.ofList (Hex.text (addressBytes a))

/-- The staking step: what is sent, if anything. -/
def stakingStep (options : RegisterOptions) (relayHub relayAddress : Address) (info : StakeInfo) :
    Except String (Option Sent) :=
  if info.owner ≠ 0 ∧ info.owner ≠ options.from then
    .error ("Error: Already owned by " ++ addressText info.owner ++ ", our account=" ++
      addressText options.from)
  else if options.unstakeDelay ≤ info.unstakeDelay ∧ options.stake ≤ info.stake then .ok none
  else
    let stakeValue := (options.stake.toNat : ℤ) - info.stake.toNat
    .ok (some (.stakeForAddress relayHub relayAddress options.unstakeDelay stakeValue
      options.gasPrice))

/-- A failure after `transactions` were sent. -/
def failed (transactions : List String) (error : String) : RegistrationResult :=
  ⟨false, some transactions, some ("Failed to fund relay: '" ++ error ++ "'")⟩

/-- The funding step and what follows it. -/
def fundAndWait (options : RegisterOptions) (answers : Answers) (relayAddress : Address)
    (transactions : List String) (sent : List Sent) : List Sent × RegistrationResult :=
  if options.funds.toNat < answers.balance then
    match answers.waitForRelay with
    | .ok _ => (sent, ⟨true, some transactions, none⟩)
    | .error e => (sent, failed transactions e)
  else
    let sent := sent ++ [.fund relayAddress options.funds options.gasPrice]
    match answers.fundTx with
    | .error e => (sent, failed transactions e)
    | .ok none => (sent, ⟨false, none, some ("Fund transaction reverted: " ++ answers.receipt)⟩)
    | .ok (some transactionHash) =>
        match answers.waitForRelay with
        | .ok _ => (sent, ⟨true, some (transactions ++ [transactionHash]), none⟩)
        | .error e => (sent, failed (transactions ++ [transactionHash]) e)

/-- The transactions that are sent, and the result. -/
def registerRelay (options : RegisterOptions) (answers : Answers) :
    List Sent × RegistrationResult :=
  match answers.ping with
  | none => ([], failed [] "Error: could contact not relayer, is it running?")
  | some response =>
      if response.ready then ([], ⟨false, none, some "Already registered"⟩)
      else if response.chainId ≠ toString answers.chainId then
        ([], failed [] ("Error: wrong chain-id: Relayer on (" ++ response.chainId ++
          ") but our provider is on (" ++ toString answers.chainId ++ ")"))
      else
        let relayAddress := response.relayManagerAddress
        let relayHub := answers.relayHubAddress.getD response.relayHubAddress
        match stakingStep options relayHub relayAddress
            (answers.getStakeInfo relayHub relayAddress) with
        | .error e => ([], failed [] e)
        | .ok none => fundAndWait options answers relayAddress [] []
        | .ok (some stake) =>
            match answers.stakeTx with
            | .error e => ([stake], failed [] e)
            | .ok tx => fundAndWait options answers relayAddress [tx] [stake]

/-! ## The stake of the manager -/

/-- The message with which the hub is called. -/
def Sent.msg (caller : Address) (tx : TxContext) : Sent → Msg
  | .stakeForAddress relayHub relayManager unstakeDelay value _ =>
      ⟨.call, caller, relayHub, relayHub, BitVec.ofInt 256 value,
        .stakeForAddress relayManager unstakeDelay, tx⟩
  | .fund relayManager value _ =>
      ⟨.call, caller, relayManager, relayManager, value, .empty, tx⟩

/-- The entry has what is asked for. -/
def Reached (options : RegisterOptions) (info : StakeInfo) : Prop :=
  options.stake ≤ info.stake ∧ options.unstakeDelay ≤ info.unstakeDelay

/-- The hub lets the caller stake for the manager: he is not the manager, and nobody has staked
for him. -/
def MayStake (hub : RelayHub) (caller relayManager : Address) : Prop :=
  caller ≠ relayManager ∧ (hub.stakes caller).owner = 0

/-- Nothing has to be sent; or what is sent has a value that is not negative and a delay that the
hub accepts, the hub takes it, and then the entry has what is asked for. -/
def Registers (options : RegisterOptions) (hub : RelayHub) (relayHub relayManager : Address) :
    Prop :=
  match stakingStep options relayHub relayManager (hub.stakes relayManager) with
  | .ok none => Reached options (hub.stakes relayManager)
  | .ok (some (.stakeForAddress hubAddress manager unstakeDelay value gasPrice)) =>
      0 ≤ value ∧ (hub.stakes relayManager).unstakeDelay ≤ unstakeDelay ∧
        ∀ tx, ∃ hub',
          RelayHub.Effect ((Sent.stakeForAddress hubAddress manager unstakeDelay value gasPrice).msg
            options.from tx) hub hub' ∧ Reached options (hub'.stakes relayManager)
  | _ => False

variable {options : RegisterOptions} {hub : RelayHub} {relayHub relayManager : Address}

theorem stakingStep_owned (howner : (hub.stakes relayManager).owner = options.from) :
    stakingStep options relayHub relayManager (hub.stakes relayManager) =
      if options.unstakeDelay ≤ (hub.stakes relayManager).unstakeDelay ∧
          options.stake ≤ (hub.stakes relayManager).stake then .ok none
      else .ok (some (.stakeForAddress relayHub relayManager options.unstakeDelay
        ((options.stake.toNat : ℤ) - (hub.stakes relayManager).stake.toNat) options.gasPrice)) := by
  unfold stakingStep
  rw [if_neg fun h => h.2 howner]

/-- The value makes up for what is missing, also modulo the word size. -/
theorem stake_add_value (stake wanted : Word) :
    stake + BitVec.ofInt 256 ((wanted.toNat : ℤ) - stake.toNat) = wanted := by
  have hstake := stake.isLt
  have hwanted := wanted.isLt
  refine BitVec.eq_of_toNat_eq ?_
  rw [BitVec.toNat_add, BitVec.toNat_ofInt]
  omega

/-- The hub takes the call of one who may stake if it does not lower the delay, and sets the entry
as asked. -/
theorem effect_of_delay (howner : (hub.stakes relayManager).owner = options.from)
    (howned : options.from ≠ 0) (hmay : MayStake hub options.from relayManager)
    (hdelay : (hub.stakes relayManager).unstakeDelay ≤ options.unstakeDelay) (tx : TxContext) :
    ∃ hub', RelayHub.Effect ((Sent.stakeForAddress relayHub relayManager options.unstakeDelay
        ((options.stake.toNat : ℤ) - (hub.stakes relayManager).stake.toNat) options.gasPrice).msg
          options.from tx) hub hub' ∧ Reached options (hub'.stakes relayManager) := by
  obtain ⟨hne, hfree⟩ := hmay
  refine ⟨_, .stakeForAddress relayManager options.unstakeDelay rfl (Or.inr howner) hdelay hne hfree
    fun hempty => (howned (howner.symm.trans hempty)).elim, ?_⟩
  unfold Reached RelayHub.setStake
  dsimp only
  rw [Function.update_self]
  exact ⟨BitVec.le_of_eq (stake_add_value _ _).symm, BitVec.le_refl _⟩

/-- The hub takes a stake only from one who may stake. -/
theorem mayStake_of_effect {hub' : RelayHub} {hubAddress : Address} {unstakeDelay gasPrice : Word}
    {value : ℤ} {caller : Address} {tx : TxContext}
    (h : RelayHub.Effect ((Sent.stakeForAddress hubAddress relayManager unstakeDelay value
      gasPrice).msg caller tx) hub hub') :
    MayStake hub caller relayManager := by
  generalize hmsg : (Sent.stakeForAddress hubAddress relayManager unstakeDelay value gasPrice).msg
    caller tx = msg at h
  have hsender : msg.sender = caller := by
    rw [← hmsg]
    rfl
  have hdata : msg.data = .stakeForAddress relayManager unstakeDelay := by
    rw [← hmsg]
    rfl
  cases h with
  | stakeForAddress manager delay hread howner hdelay hself hmanager hentry =>
      rw [hdata] at hread
      cases hread
      rw [← hsender]
      exact ⟨hself, hmanager⟩
  -- the other effects are those of other messages
  | _ => simp_all

/-- **Registering a relay.** The staking step does what it is for if and only if the stake and the
delay that are asked for are both reached, or neither is exceeded and the caller, who has staked
before, may still stake. -/
theorem registers_iff (howner : (hub.stakes relayManager).owner = options.from)
    (howned : options.from ≠ 0) :
    Registers options hub relayHub relayManager ↔
      Reached options (hub.stakes relayManager) ∨
        ((hub.stakes relayManager).stake ≤ options.stake ∧
          (hub.stakes relayManager).unstakeDelay ≤ options.unstakeDelay ∧
          MayStake hub options.from relayManager) := by
  unfold Registers
  rw [stakingStep_owned howner]
  by_cases hreached : Reached options (hub.stakes relayManager)
  · rw [if_pos hreached.symm]
    exact iff_of_true hreached (Or.inl hreached)
  · rw [if_neg fun h => hreached h.symm]
    constructor
    · rintro ⟨hvalue, hdelay, htaken⟩
      obtain ⟨hub', heffect, -⟩ := htaken ⟨0, 0, 0⟩
      refine Or.inr ⟨?_, hdelay, mayStake_of_effect heffect⟩
      rw [BitVec.le_def]
      omega
    · intro h
      obtain ⟨hstake, hdelay, hmay⟩ := h.resolve_left hreached
      rw [BitVec.le_def] at hstake
      exact ⟨by omega, hdelay, fun tx => effect_of_delay howner howned hmay hdelay tx⟩

/-! ## Two entries -/

/-- Ask for this stake and delay. -/
def asking (stake unstakeDelay : Word) : RegisterOptions :=
  ⟨0x11, 1, stake, 0, "http://localhost:8090", unstakeDelay⟩

/-- A hub that has an entry of the account `0x11` for the manager `0x22`. -/
def stakedHub (stake unstakeDelay : Word) : RelayHub :=
  ⟨0, 0, 0, 10, 0, fun _ => 0, fun _ => 0,
    fun a => if a = 0x22 then ⟨stake, unstakeDelay, 0, 0x11⟩ else StakeInfo.zero⟩

/-- A longer delay than the entry has is paid with a negative value if its stake is larger; a
shorter delay is not accepted if its stake is smaller. -/
theorem stake_and_delay_apart :
    ((stakedHub 2 1).stakes 0x22).owner = (asking 1 2).from ∧
    stakingStep (asking 1 2) 0x33 0x22 ((stakedHub 2 1).stakes 0x22) =
      .ok (some (.stakeForAddress 0x33 0x22 2 (-1) 1)) ∧
    ¬ Registers (asking 1 2) (stakedHub 2 1) 0x33 0x22 ∧
    stakingStep (asking 2 1) 0x33 0x22 ((stakedHub 1 2).stakes 0x22) =
      .ok (some (.stakeForAddress 0x33 0x22 1 1 1)) ∧
    ¬ Registers (asking 2 1) (stakedHub 1 2) 0x33 0x22 := by
  refine ⟨rfl, by decide, fun h => ?_, by decide, fun h => ?_⟩
  · exact absurd h.1 (by decide)
  · exact absurd h.2.1 (by decide)

/-- An entry that has less of both gets what is asked for. -/
theorem registers_iff_raised : Registers (asking 2 2) (stakedHub 1 1) 0x33 0x22 :=
  (registers_iff rfl (by decide)).mpr (Or.inr ⟨by decide, by decide, by decide, rfl⟩)

end RifRelay.CommandsLogic
