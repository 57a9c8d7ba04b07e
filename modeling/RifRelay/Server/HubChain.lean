import RifRelay.Contracts.RelayHub
import RifRelay.Server.Process

set_option autoImplicit false

/-! # The chain as the server's node sees it

`Chain` is the number of the latest block and the log of the hub, as far as it is about the
manager of the server. Each event of the stake is one that the hub can emit in the block it is
in (`stakeStep`), and the stake entry is what the events have made of it (`replay`).

* `gone_iff_restakesExited` — after an exit the stake is gone exactly if the manager has left
  each new stake again.
* `Chain.stakeAt_quiet` — between two blocks without a new stake, an unlock or a withdrawal the
  entry only changes by being slashed.
-/

namespace RifRelay.Server

open EventLoop KnownRelaysManager

/-! ## Stake entries -/

variable (manager : Address)

/-- The entry of the manager after an event of the hub, if the hub can emit it there. -/
def stakeStep (info : StakeInfo) (e : EventData) : Option StakeInfo :=
  match e.event with
  | .StakeAdded relayManager owner stake unstakeDelay =>
      if relayManager = manager ∧ owner ≠ 0 ∧ owner ≠ manager ∧
          (info.owner = owner ∨ info.owner = 0) ∧ info.unstakeDelay ≤ unstakeDelay then
        some { info with owner := owner, stake := stake, unstakeDelay := unstakeDelay }
      else none
  | .StakeUnlocked relayManager owner withdrawBlock =>
      if relayManager = manager ∧ owner ≠ 0 ∧ info.owner = owner ∧ info.withdrawBlock = 0 ∧
          withdrawBlock.toNat = e.blockNumber + info.unstakeDelay.toNat then
        some { info with withdrawBlock := withdrawBlock }
      else none
  | .StakeWithdrawn relayManager owner amount =>
      if relayManager = manager ∧ owner ≠ 0 ∧ info.owner = owner ∧ info.withdrawBlock ≠ 0 ∧
          info.withdrawBlock.toNat ≤ e.blockNumber ∧ amount = info.stake then
        some StakeInfo.zero
      else none
  | .StakePenalized relayManager _ reward =>
      if relayManager = manager ∧ info.stake ≠ 0 ∧ reward = (RelayHub.penalty info.stake).2 then
        some { info with stake := 0 }
      else none
  | _ => some info

/-- What a log makes of an entry. -/
def replayFrom (info : StakeInfo) : List EventData → Option StakeInfo
  | [] => some info
  | e :: rest => (stakeStep manager info e).bind fun info' => replayFrom info' rest

/-- The entry after a log, if the hub can write this log. -/
def replay (log : List EventData) : Option StakeInfo := replayFrom manager StakeInfo.zero log

theorem replayFrom_append (info : StakeInfo) (l l' : List EventData) :
    replayFrom manager info (l ++ l') =
      (replayFrom manager info l).bind fun info' => replayFrom manager info' l' := by
  induction l generalizing info with
  | nil => rfl
  | cons e rest ih =>
      simp only [List.cons_append, replayFrom]
      cases stakeStep manager info e with
      | none => rfl
      | some info' => exact ih info'

theorem replayFrom_cons_some {info info' : StakeInfo} {e : EventData} {l : List EventData} :
    replayFrom manager info (e :: l) = some info' ↔
      ∃ next, stakeStep manager info e = some next ∧ replayFrom manager next l = some info' :=
  Option.bind_eq_some_iff

/-! ## Exits -/

/-- The manager is staked. -/
def isStakeAdded (e : EventData) : Bool := eventName e.event == some .StakeAdded

def isStakeWithdrawn (e : EventData) : Bool := eventName e.event == some .StakeWithdrawn

/-- One of the events of the stake that the server asks for. -/
def isStakeEvent (e : EventData) : Bool := (eventName e.event).any stakeEvents.contains

/-- An event by which the stake is gone in the block `b`: a withdrawal, or an unlock whose
withdraw block has been reached. -/
def exitDue (b : Nat) (e : EventData) : Bool :=
  match e.event with
  | .StakeWithdrawn _ _ _ => true
  | .StakeUnlocked _ _ withdrawBlock => withdrawBlock.toNat ≤ b
  | _ => false

/-- The first new stake has been left again by the block `b`. -/
def FirstStakeExits (b : Nat) : List EventData → Prop
  | [] => True
  | e :: rest => if isStakeAdded e then rest.any (exitDue b) = true else FirstStakeExits b rest

/-- Each stake that is new after a withdrawal has been left again by the block `b`. -/
def RestakesExited (b : Nat) : List EventData → Prop
  | [] => True
  | e :: rest => (isStakeWithdrawn e = true → FirstStakeExits b rest) ∧ RestakesExited b rest

/-- The stake is withdrawn, or it is unlocked and may be withdrawn in the block `b`. -/
def Gone (b : Nat) (info : StakeInfo) : Prop :=
  info = StakeInfo.zero ∨ info.withdrawBlock ≠ 0 ∧ info.withdrawBlock.toNat ≤ b

/-- Without an entry the hub emits no other event of the stake than a new stake. -/
theorem stakeStep_zero {e : EventData} {info : StakeInfo} (hadded : isStakeAdded e = false)
    (h : stakeStep manager StakeInfo.zero e = some info) : info = StakeInfo.zero := by
  unfold stakeStep at h
  split at h
  next heq => simp [isStakeAdded, heq, eventName] at hadded
  next =>
    obtain ⟨hguard, -⟩ := Option.ite_none_right_eq_some.mp h
    exact absurd hguard.2.2.1.symm hguard.2.1
  next =>
    obtain ⟨hguard, -⟩ := Option.ite_none_right_eq_some.mp h
    exact absurd rfl hguard.2.2.2.1
  next =>
    obtain ⟨hguard, -⟩ := Option.ite_none_right_eq_some.mp h
    exact absurd rfl hguard.2.1
  next => exact (Option.some.inj h).symm

/-- A withdrawal deletes the entry, whose owner it names. -/
theorem stakeStep_withdrawn {info info' : StakeInfo} {e : EventData} {owner : Address}
    {amount : Word} {relayManager : Address}
    (he : e.event = .StakeWithdrawn relayManager owner amount)
    (h : stakeStep manager info e = some info') : info' = StakeInfo.zero ∧ info.owner = owner := by
  simp only [stakeStep, he] at h
  obtain ⟨hguard, heq⟩ := Option.ite_none_right_eq_some.mp h
  exact ⟨(Option.some.inj heq).symm, hguard.2.2.1⟩

theorem stakeStep_isWithdrawn {info info' : StakeInfo} {e : EventData}
    (he : isStakeWithdrawn e = true) (h : stakeStep manager info e = some info') :
    info' = StakeInfo.zero := by
  unfold isStakeWithdrawn at he
  cases hevent : e.event with
  | StakeWithdrawn relayManager owner amount => exact (stakeStep_withdrawn manager hevent h).1
  | _ => simp [hevent, eventName] at he

/-- An unlock sets the withdraw block of the entry, whose owner it names. -/
theorem stakeStep_unlocked {info info' : StakeInfo} {e : EventData} {owner : Address}
    {withdrawBlock : Word} {relayManager : Address}
    (he : e.event = .StakeUnlocked relayManager owner withdrawBlock)
    (h : stakeStep manager info e = some info') :
    info'.withdrawBlock = withdrawBlock ∧ info.owner = owner ∧
      e.blockNumber ≤ withdrawBlock.toNat := by
  simp only [stakeStep, he] at h
  obtain ⟨hguard, heq⟩ := Option.ite_none_right_eq_some.mp h
  obtain rfl := Option.some.inj heq
  refine ⟨rfl, hguard.2.2.1, ?_⟩
  have hdue := hguard.2.2.2.2
  omega

/-- A step on an entry that is unlocked leaves it unlocked or deletes it. -/
theorem stakeStep_keeps_withdrawBlock {info info' : StakeInfo} {e : EventData}
    (hunlocked : info.withdrawBlock ≠ 0) (h : stakeStep manager info e = some info') :
    isStakeWithdrawn e = true ∧ info' = StakeInfo.zero ∨
      info'.withdrawBlock = info.withdrawBlock := by
  unfold stakeStep at h
  split at h
  next =>
    obtain ⟨-, heq⟩ := Option.ite_none_right_eq_some.mp h
    exact Or.inr (by rw [← Option.some.inj heq])
  next =>
    obtain ⟨hguard, -⟩ := Option.ite_none_right_eq_some.mp h
    exact absurd hguard.2.2.2.1 hunlocked
  next heq =>
    obtain ⟨-, hzero⟩ := Option.ite_none_right_eq_some.mp h
    exact Or.inl ⟨by simp [isStakeWithdrawn, heq, eventName], (Option.some.inj hzero).symm⟩
  next =>
    obtain ⟨-, heq⟩ := Option.ite_none_right_eq_some.mp h
    exact Or.inr (by rw [← Option.some.inj heq])
  next => exact Or.inr (by rw [Option.some.inj h])

theorem exitDue_of_withdrawn {b : Nat} {e : EventData} (h : isStakeWithdrawn e = true) :
    exitDue b e = true := by
  unfold isStakeWithdrawn at h
  unfold exitDue
  cases hevent : e.event with
  | StakeWithdrawn relayManager owner amount => rfl
  | _ => simp [hevent, eventName] at h

/-- After an exit that is due the entry is gone. -/
theorem stakeStep_exit {b : Nat} {info info' : StakeInfo} {e : EventData}
    (hdue : exitDue b e = true) (hb : 0 < e.blockNumber)
    (h : stakeStep manager info e = some info') :
    isStakeWithdrawn e = true ∧ info' = StakeInfo.zero ∨
      info'.withdrawBlock ≠ 0 ∧ info'.withdrawBlock.toNat ≤ b := by
  unfold exitDue at hdue
  split at hdue
  next heq =>
    obtain ⟨hzero, -⟩ := stakeStep_withdrawn manager heq h
    exact Or.inl ⟨by simp [isStakeWithdrawn, heq, eventName], hzero⟩
  next heq =>
    obtain ⟨hblock, -, hle⟩ := stakeStep_unlocked manager heq h
    have hpos : info'.withdrawBlock.toNat ≠ 0 := by rw [hblock]; omega
    refine Or.inr ⟨fun h0 => hpos (by rw [h0]; rfl), ?_⟩
    rw [hblock]
    exact of_decide_eq_true hdue
  next => cases hdue

/-- What is given up has an owner. -/
theorem stakeStep_exit_owner {b : Nat} {info info' : StakeInfo} {e : EventData}
    (hdue : exitDue b e = true) (h : stakeStep manager info e = some info') : info.owner ≠ 0 := by
  unfold exitDue at hdue
  split at hdue
  next heq =>
    simp only [stakeStep, heq] at h
    obtain ⟨hguard, -⟩ := Option.ite_none_right_eq_some.mp h
    rw [hguard.2.2.1]
    exact hguard.2.1
  next heq =>
    simp only [stakeStep, heq] at h
    obtain ⟨hguard, -⟩ := Option.ite_none_right_eq_some.mp h
    rw [hguard.2.2.1]
    exact hguard.2.1
  next => cases hdue

/-- An entry that is gone, or goes, is gone in the end if nobody is staked anew for good. -/
theorem replayFrom_gone {b : Nat} {l : List EventData} {info info' : StakeInfo}
    (hpos : ∀ e ∈ l, 0 < e.blockNumber)
    (hgone : info = StakeInfo.zero ∧ FirstStakeExits b l ∨
      info.withdrawBlock ≠ 0 ∧ info.withdrawBlock.toNat ≤ b ∨ l.any (exitDue b) = true)
    (hexited : RestakesExited b l) (h : replayFrom manager info l = some info') :
    Gone b info' := by
  induction l generalizing info with
  | nil =>
      obtain rfl := Option.some.inj h
      rcases hgone with ⟨hzero, -⟩ | hunlocked | hany
      · exact Or.inl hzero
      · exact Or.inr hunlocked
      · cases hany
  | cons e rest ih =>
      obtain ⟨next, hstep, hrest⟩ := (replayFrom_cons_some manager).mp h
      refine ih (fun e' he' => hpos e' (List.mem_cons_of_mem _ he')) ?_ hexited.2 hrest
      rcases hgone with ⟨rfl, hfirst⟩ | hunlocked | hany
      · by_cases hadded : isStakeAdded e = true
        · exact Or.inr (Or.inr (by simpa [FirstStakeExits, hadded] using hfirst))
        · have hzero := stakeStep_zero manager (eq_false_of_ne_true hadded) hstep
          exact Or.inl ⟨hzero, by simpa [FirstStakeExits, hadded] using hfirst⟩
      · rcases stakeStep_keeps_withdrawBlock manager hunlocked.1 hstep with ⟨hw, hzero⟩ | hkept
        · exact Or.inl ⟨hzero, hexited.1 hw⟩
        · exact Or.inr (Or.inl (by rwa [hkept]))
      · by_cases hdue : exitDue b e = true
        · rcases stakeStep_exit manager hdue (hpos e List.mem_cons_self) hstep with
            ⟨hw, hzero⟩ | hunlocked
          · exact Or.inl ⟨hzero, hexited.1 hw⟩
          · exact Or.inr (Or.inl hunlocked)
        · exact Or.inr (Or.inr (by simpa [hdue] using hany))

/-- The entry is staked, and not unlocked by the block `b`. -/
def Lasting (b : Nat) (info : StakeInfo) : Prop :=
  info.owner ≠ 0 ∧ (info.withdrawBlock ≠ 0 → b < info.withdrawBlock.toNat)

theorem Lasting.not_gone {b : Nat} {info : StakeInfo} (h : Lasting b info) :
    ¬ Gone b info := by
  rintro (rfl | ⟨hunlocked, hle⟩)
  · exact h.1 rfl
  · exact Nat.not_le.mpr (h.2 hunlocked) hle

/-- Without an exit that is due the entry lasts. -/
theorem replayFrom_lasting {b : Nat} {l : List EventData} {info info' : StakeInfo}
    (hlasting : Lasting b info) (hnone : l.any (exitDue b) = false)
    (h : replayFrom manager info l = some info') : Lasting b info' := by
  induction l generalizing info with
  | nil => rwa [← Option.some.inj h]
  | cons e rest ih =>
      obtain ⟨next, hstep, hrest⟩ := (replayFrom_cons_some manager).mp h
      obtain ⟨hdue, hnone'⟩ := Bool.or_eq_false_iff.mp hnone
      refine ih ?_ hnone' hrest
      unfold stakeStep at hstep
      split at hstep
      next =>
        obtain ⟨hguard, heq⟩ := Option.ite_none_right_eq_some.mp hstep
        rw [← Option.some.inj heq]
        exact ⟨hguard.2.1, hlasting.2⟩
      next heq =>
        obtain ⟨hguard, heq'⟩ := Option.ite_none_right_eq_some.mp hstep
        rw [← Option.some.inj heq']
        refine ⟨hlasting.1, fun _ => ?_⟩
        simpa [exitDue, heq] using hdue
      next heq => simp [exitDue, heq] at hdue
      next =>
        obtain ⟨-, heq⟩ := Option.ite_none_right_eq_some.mp hstep
        rwa [← Option.some.inj heq]
      next => rwa [← Option.some.inj hstep]

/-- After a new stake on no entry the entry lasts. -/
theorem stakeStep_added {b : Nat} {info : StakeInfo} {e : EventData}
    (hadded : isStakeAdded e = true) (h : stakeStep manager StakeInfo.zero e = some info) :
    Lasting b info := by
  unfold isStakeAdded at hadded
  cases hevent : e.event with
  | StakeAdded relayManager owner stake unstakeDelay =>
      simp only [stakeStep, hevent] at h
      obtain ⟨hguard, heq⟩ := Option.ite_none_right_eq_some.mp h
      rw [← Option.some.inj heq]
      exact ⟨hguard.2.1, fun hne => absurd rfl hne⟩
  | _ => simp [hevent, eventName] at hadded

theorem firstStakeExits_of_gone {b : Nat} {l : List EventData} {info : StakeInfo}
    (h : replayFrom manager StakeInfo.zero l = some info) (hgone : Gone b info) :
    FirstStakeExits b l := by
  induction l with
  | nil => trivial
  | cons e rest ih =>
      obtain ⟨next, hstep, hrest⟩ := (replayFrom_cons_some manager).mp h
      unfold FirstStakeExits
      by_cases hadded : isStakeAdded e = true
      · rw [if_pos hadded]
        by_contra hnone
        have hlasting := stakeStep_added manager (b := b) hadded hstep
        exact (replayFrom_lasting manager hlasting (eq_false_of_ne_true hnone) hrest).not_gone hgone
      · rw [if_neg hadded]
        obtain rfl := stakeStep_zero manager (eq_false_of_ne_true hadded) hstep
        exact ih hrest

theorem restakesExited_of_gone {b : Nat} {l : List EventData} {info info' : StakeInfo}
    (h : replayFrom manager info l = some info') (hgone : Gone b info') : RestakesExited b l := by
  induction l generalizing info with
  | nil => trivial
  | cons e rest ih =>
      obtain ⟨next, hstep, hrest⟩ := (replayFrom_cons_some manager).mp h
      refine ⟨fun hw => ?_, ih hrest⟩
      obtain rfl := stakeStep_isWithdrawn manager hw hstep
      exact firstStakeExits_of_gone manager hrest hgone

/-- **After an exit that is due** the stake is gone exactly if each stake that is new after a
withdrawal has been left again. -/
theorem gone_iff_restakesExited {b : Nat} {e : EventData} {rest : List EventData}
    {info info' : StakeInfo} (hpos : ∀ e' ∈ e :: rest, 0 < e'.blockNumber)
    (hdue : exitDue b e = true) (h : replayFrom manager info (e :: rest) = some info') :
    Gone b info' ↔ RestakesExited b (e :: rest) := by
  constructor
  · exact restakesExited_of_gone manager h
  · intro hexited
    refine replayFrom_gone manager hpos (Or.inr (Or.inr ?_)) hexited h
    simp [hdue]

/-! ## Quiet stretches -/

/-- An event that the server does not ask for changes at most the amount: it may be slashed. -/
theorem stakeStep_quiet {info info' : StakeInfo} {e : EventData} (hquiet : isStakeEvent e = false)
    (h : stakeStep manager info e = some info') :
    info' = info ∨ info' = { info with stake := 0 } := by
  unfold stakeStep at h
  split at h
  next heq => simp [isStakeEvent, heq, eventName, stakeEvents] at hquiet
  next heq => simp [isStakeEvent, heq, eventName, stakeEvents] at hquiet
  next heq => simp [isStakeEvent, heq, eventName, stakeEvents] at hquiet
  next =>
    obtain ⟨-, heq⟩ := Option.ite_none_right_eq_some.mp h
    exact Or.inr (Option.some.inj heq).symm
  next => exact Or.inl (Option.some.inj h).symm

/-- Without a new stake, an unlock or a withdrawal, an entry with a stake is as it was. -/
theorem replayFrom_quiet {l : List EventData} {info info' : StakeInfo}
    (hquiet : ∀ e ∈ l, isStakeEvent e = false) (h : replayFrom manager info l = some info') :
    info' = info ∨ info' = { info with stake := 0 } := by
  induction l generalizing info with
  | nil => exact Or.inl (Option.some.inj h).symm
  | cons e rest ih =>
      obtain ⟨next, hstep, hrest⟩ := (replayFrom_cons_some manager).mp h
      have hrest' := ih (fun e he => hquiet e (List.mem_cons_of_mem _ he)) hrest
      rcases stakeStep_quiet manager (hquiet e List.mem_cons_self) hstep with rfl | rfl
      · exact hrest'
      · exact Or.inr (by rcases hrest' with rfl | rfl <;> rfl)

/-! ## The chain -/

structure Chain where
  blockNumber : Nat
  log : List EventData
deriving DecidableEq

namespace Chain

variable (c : Chain)

def genesis : Chain := ⟨0, []⟩

/-- The events up to the end of a block. -/
def upTo (blockNumber : Nat) : List EventData := c.log.filter (·.blockNumber ≤ blockNumber)

/-- The entry at the end of a block. -/
def stakeAt (blockNumber : Nat) : StakeInfo :=
  (replay manager (c.upTo blockNumber)).getD StakeInfo.zero

/-- The events with one of the names, from the block `fromBlock` on. -/
def query (names : List EventName) (fromBlock : Nat) : List EventData :=
  c.log.filter fun e => (eventName e.event).any names.contains && fromBlock ≤ e.blockNumber

/-- A new block with the given events, if the hub can emit them there. -/
def mine (events : List EventData) : Option Chain :=
  if (∀ e ∈ events, e.blockNumber = c.blockNumber + 1) ∧ InOrder events ∧
      (replay manager (c.log ++ events)).isSome = true then
    some ⟨c.blockNumber + 1, c.log ++ events⟩
  else none

/-- What the node answers about the chain. Nothing is assumed of its other answers. -/
def answers : (q : Question) → Answer q → Prop
  | .getBlock, n => n = c.blockNumber
  | .getBlockNumber, n => n = c.blockNumber
  | .getPastEvents names fromBlock, events => events = c.query names fromBlock
  | .getStakeInfo, info => info = c.stakeAt manager c.blockNumber
  | _, _ => True

instance (q : Question) (a : Answer q) : Decidable (c.answers manager q a) :=
  match q with
  | .getBlock | .getBlockNumber => inferInstanceAs (Decidable (a = c.blockNumber))
  | .getPastEvents names fromBlock => inferInstanceAs (Decidable (a = c.query names fromBlock))
  | .getStakeInfo => inferInstanceAs (Decidable (a = c.stakeAt manager c.blockNumber))
  | .acquire | .findOne _ | .find | .findBySigner _ | .insert _ | .update _ _ | .remove _
  | .getGasPrice | .getTransactionCount _ | .getBalance _ _ | .getCode _ | .getTransaction _
  | .broadcastTransaction _ | .createVerifier _ | .createTokenHandler _ | .getAcceptedTokens _
  | .estimateGas _ | .estimateMethodGas _ _
  | .estimateDestinationGas _ | .verifyRelayedCall _ | .viewCall _ _ _ | .sleep | .exit
  | .settled _ => isTrue trivial

end Chain

/-! ## Sound chains -/

/-- A log that the hub can write, in order. -/
structure Chain.Sound (c : Chain) : Prop where
  inOrder : InOrder c.log
  mined : ∀ e ∈ c.log, 0 < e.blockNumber ∧ e.blockNumber ≤ c.blockNumber
  legal : (replay manager c.log).isSome = true

namespace Chain

theorem genesis_sound : genesis.Sound manager :=
  ⟨List.Pairwise.nil, fun _ h => (List.not_mem_nil h).elim, rfl⟩

/-- The events that were added to the log are of the new block. -/
theorem mine_eq {c c' : Chain} {events : List EventData} (h : c.mine manager events = some c') :
    c'.blockNumber = c.blockNumber + 1 ∧ c'.log = c.log ++ events ∧
      (∀ e ∈ events, e.blockNumber = c.blockNumber + 1) ∧ InOrder events ∧
        (replay manager (c.log ++ events)).isSome = true := by
  obtain ⟨⟨hblock, horder, hlegal⟩, heq⟩ := Option.ite_none_right_eq_some.mp h
  obtain rfl := Option.some.inj heq
  exact ⟨rfl, rfl, hblock, horder, hlegal⟩

theorem place_lt_of_block {a b : EventData} (h : a.blockNumber < b.blockNumber) :
    a.place < b.place := Prod.Lex.toLex_lt_toLex.mpr (Or.inl h)

theorem block_le_of_place {a b : EventData} (h : a.place < b.place) :
    a.blockNumber ≤ b.blockNumber := by
  rcases Prod.Lex.toLex_lt_toLex.mp h with hlt | ⟨heq, -⟩
  · exact Nat.le_of_lt hlt
  · exact Nat.le_of_eq heq

theorem Sound.mine {c c' : Chain} {events : List EventData} (hc : c.Sound manager)
    (h : c.mine manager events = some c') : c'.Sound manager := by
  obtain ⟨hnumber, hlog, hblock, horder, hlegal⟩ := mine_eq manager h
  refine ⟨?_, fun e he => ?_, by rw [hlog]; exact hlegal⟩
  · rw [hlog]
    refine List.pairwise_append.mpr ⟨hc.inOrder, horder, fun a ha b hb => ?_⟩
    apply place_lt_of_block
    have hle := (hc.mined a ha).2
    have heq := hblock b hb
    omega
  · rw [hlog] at he
    rcases List.mem_append.mp he with he | he
    · have hold := hc.mined e he
      omega
    · have hnew := hblock e he
      omega

variable {manager} {c c' : Chain}

theorem Sound.nodup (hc : c.Sound manager) : c.log.Nodup :=
  hc.inOrder.imp fun h heq => by simp [heq] at h

/-! ### The chain at an earlier block -/

/-- The chain when the block was the latest one. -/
def back (c : Chain) (blockNumber : Nat) : Chain := ⟨blockNumber, c.upTo blockNumber⟩

theorem upTo_of_le {b : Nat} (hc : c.Sound manager) (h : c.blockNumber ≤ b) : c.upTo b = c.log := by
  apply List.filter_eq_self.mpr
  intro e he
  have hle := (hc.mined e he).2
  exact decide_eq_true (Nat.le_trans hle h)

theorem back_self (hc : c.Sound manager) : c.back c.blockNumber = c := by
  unfold back
  rw [upTo_of_le hc (Nat.le_refl _)]

/-- A new block changes nothing about earlier ones. -/
theorem upTo_mine {b : Nat} {events : List EventData} (h : c.mine manager events = some c')
    (hb : b ≤ c.blockNumber) : c'.upTo b = c.upTo b := by
  obtain ⟨-, hlog, hblock, -, -⟩ := mine_eq manager h
  have hnew : events.filter (·.blockNumber ≤ b) = [] := by
    apply List.filter_eq_nil_iff.mpr
    intro e he
    have heq := hblock e he
    simp only [decide_eq_true_eq]
    omega
  calc c'.upTo b = c.upTo b ++ events.filter (·.blockNumber ≤ b) := by
        unfold upTo
        rw [hlog, List.filter_append]
    _ = c.upTo b := by rw [hnew, List.append_nil]

theorem back_mine {b : Nat} {events : List EventData} (h : c.mine manager events = some c')
    (hb : b ≤ c.blockNumber) : c'.back b = c.back b := by
  unfold back
  rw [upTo_mine h hb]

theorem stakeAt_mine {b : Nat} {events : List EventData} (h : c.mine manager events = some c')
    (hb : b ≤ c.blockNumber) : c'.stakeAt manager b = c.stakeAt manager b := by
  unfold stakeAt
  rw [upTo_mine h hb]

theorem upTo_upTo {a b : Nat} (h : a ≤ b) : (c.back b).upTo a = c.upTo a := by
  unfold back upTo
  rw [List.filter_filter]
  apply List.filter_congr
  intro e _
  by_cases ha : e.blockNumber ≤ a
  · simp [ha, Nat.le_trans ha h]
  · simp [ha]

theorem stakeAt_back {a b : Nat} (h : a ≤ b) :
    (c.back b).stakeAt manager a = c.stakeAt manager a := by
  unfold stakeAt
  rw [upTo_upTo h]

/-! ### Queries -/

/-- The events that a query returns. -/
theorem mem_query {c : Chain} {h lo : Nat} {names : List EventName} {e : EventData} :
    e ∈ (c.back h).query names (lo + 1) ↔
      e ∈ c.log ∧ (eventName e.event).any names.contains = true ∧ lo < e.blockNumber ∧
        e.blockNumber ≤ h := by
  unfold Chain.query Chain.back Chain.upTo
  rw [List.filter_filter, List.mem_filter]
  simp only [Bool.and_eq_true, decide_eq_true_eq, Nat.succ_le_iff]
  tauto

/-! ### Stretches of the log -/

/-- The events of the blocks after `lo` up to `hi`. -/
def between (c : Chain) (lo hi : Nat) : List EventData :=
  c.log.filter fun e => lo < e.blockNumber && e.blockNumber ≤ hi

theorem mem_between {e : EventData} {lo hi : Nat} :
    e ∈ c.between lo hi ↔ e ∈ c.log ∧ lo < e.blockNumber ∧ e.blockNumber ≤ hi := by
  simp [between]

theorem filter_split {log : List EventData} (h : InOrder log) {a b : Nat} (hab : a ≤ b) :
    log.filter (·.blockNumber ≤ b) =
      log.filter (·.blockNumber ≤ a) ++
        log.filter fun e => a < e.blockNumber && e.blockNumber ≤ b := by
  induction log with
  | nil => rfl
  | cons e rest ih =>
      obtain ⟨hfirst, hrest⟩ := List.pairwise_cons.mp h
      by_cases ha : e.blockNumber ≤ a
      · have hb : e.blockNumber ≤ b := Nat.le_trans ha hab
        have hna : ¬ a < e.blockNumber := Nat.not_lt.mpr ha
        simp [ha, hb, hna, ih hrest]
      · -- nothing of a block up to `a` comes after `e`
        have hnone : rest.filter (·.blockNumber ≤ a) = [] := by
          apply List.filter_eq_nil_iff.mpr
          intro e' he'
          have hle := block_le_of_place (hfirst e' he')
          simp only [decide_eq_true_eq]
          omega
        have ih' := ih hrest
        rw [hnone, List.nil_append] at ih'
        have hlt : a < e.blockNumber := Nat.lt_of_not_le ha
        by_cases hb : e.blockNumber ≤ b <;> simp [ha, hb, hlt, hnone, ih']

theorem upTo_eq_append (hc : c.Sound manager) {a b : Nat} (hab : a ≤ b) :
    c.upTo b = c.upTo a ++ c.between a b := filter_split hc.inOrder hab

theorem replay_upTo (hc : c.Sound manager) (b : Nat) :
    replay manager (c.upTo b) = some (c.stakeAt manager b) := by
  have hsome : (replay manager (c.upTo b)).isSome = true := by
    by_cases hb : c.blockNumber ≤ b
    · rw [upTo_of_le hc hb]
      exact hc.legal
    · have hlog := upTo_eq_append hc (Nat.le_of_lt (Nat.lt_of_not_le hb))
      have hlegal := hc.legal
      rw [← upTo_of_le hc (Nat.le_refl _), hlog, replay, replayFrom_append] at hlegal
      exact Option.isSome_of_isSome_bind hlegal
  obtain ⟨info, hinfo⟩ := Option.isSome_iff_exists.mp hsome
  unfold stakeAt
  rw [hinfo, Option.getD_some]

/-- The entry at a later block, from the events in between. -/
theorem stakeAt_replay (hc : c.Sound manager) {a b : Nat} (hab : a ≤ b) :
    replayFrom manager (c.stakeAt manager a) (c.between a b) = some (c.stakeAt manager b) := by
  have h := replay_upTo hc b
  rw [upTo_eq_append hc hab, replay, replayFrom_append] at h
  obtain ⟨info, hinfo, hrest⟩ := Option.bind_eq_some_iff.mp h
  have ha := replay_upTo hc a
  rw [replay, hinfo] at ha
  rwa [← Option.some.inj ha]

/-- Without new events of the stake, an entry that still has a stake is as it was. -/
theorem stakeAt_quiet (hc : c.Sound manager) {a b : Nat} (hab : a ≤ b)
    (hquiet : ∀ e ∈ c.between a b, isStakeEvent e = false)
    (hstake : (c.stakeAt manager b).stake ≠ 0) : c.stakeAt manager b = c.stakeAt manager a := by
  rcases replayFrom_quiet manager hquiet (stakeAt_replay hc hab) with heq | heq
  · exact heq
  · rw [heq] at hstake
    exact absurd rfl hstake

end Chain

/-- A call of the worker that has not ended. -/
def isInterval (thread : ℕ × Call) : Bool := thread.2 == .intervalHandler

/-- A node on the chain. If it is `steady`, no block is mined while a call of the worker is
going on: the rounds then cut the history of the hub into scans. -/
def chainNode (steady : Bool) : Node Chain (List EventData) where
  answers m := m.node.answers manager
  accept c _ := c
  moves x events :=
    if steady && (running x.log).any isInterval then none else x.memory.node.mine manager events

instance (steady : Bool) (m : Memory Chain) (q : Question) (a : Answer q) :
    Decidable ((chainNode manager steady).answers m q a) :=
  inferInstanceAs (Decidable (m.node.answers manager q a))

/-- The answers of a node on the chain, to a server without documents in its database. -/
def chainAnswer (c : Chain) (balance : Nat) : (q : Question) → Except String (Answer q)
  | .getBlock => .ok c.blockNumber
  | .getBlockNumber => .ok c.blockNumber
  | .getPastEvents names fromBlock => .ok (c.query names fromBlock)
  | .getStakeInfo => .ok (c.stakeAt manager c.blockNumber)
  | .getGasPrice => .ok 1
  | .getBalance _ _ => .ok balance
  | .getCode _ => .ok 100
  | .find => .ok []
  | .findBySigner _ => .ok []
  | .findOne _ => .ok none
  | .acquire => .ok ()
  | .insert _ => .ok ()
  | .settled _ => .ok ()
  | _ => .error "no answer"

/-- A manager that is staked, adds its worker and registers. -/
def registeredBlock : List EventData :=
  [⟨1, 0, 0, .StakeAdded 0x11 0x55 20 1000⟩, ⟨1, 1, 0, .RelayWorkersAdded 0x11 [0x22] 1⟩,
    ⟨1, 2, 0, .RelayServerRegistered 0x11 "http://localhost:8090"⟩]

end RifRelay.Server
