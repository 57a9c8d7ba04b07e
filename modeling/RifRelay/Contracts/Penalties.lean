import RifRelay.Contracts.Guard
import RifRelay.Contracts.PenalizerChecks
import RifRelay.Contracts.StakeSafety

set_option autoImplicit false

/-! # When an offence can be punished

A staked manager reports two conflicting transactions of a worker of the hub. With enough gas
the report reaches `penalize` of the hub, and the stake of the worker's manager is slashed,
exactly when the penalizer has not recorded both transactions (`offence_penalizable_iff`).

The record is kept by transaction alone, and whoever calls the penalizer names the hub. So a
contract that pretends to be a hub is enough to have both transactions recorded with no
penalty at all (`offence_shielded`).
-/

namespace RifRelay

open CallMachine

namespace Penalizer

open RLPReader

variable {χ : Type} {E : Env} {O : Outside E χ}

/-! ## The record -/

/-- Some call of the penalizer at `P` was about a transaction with the hash `txHash`. -/
def Reported (E : Env) (P : Address) (trace : List (Entry (World χ) Msg)) (txHash : Word) :
    Prop :=
  ∃ e ∈ trace, e.msg.self = P ∧ ∃ unsignedTx1 signature1 unsignedTx2 signature2 hub,
    e.msg.data = .penalizeRepeatedNonce unsignedTx1 signature1 unsignedTx2 signature2 hub ∧
      (txHash = E.keccak256 unsignedTx1 ∨ txHash = E.keccak256 unsignedTx2)

theorem Reported.append {P : Address} {l l' : List (Entry (World χ) Msg)} {txHash : Word}
    (h : Reported E P l txHash) : Reported E P (l ++ l') txHash := by
  obtain ⟨e, he, hcall⟩ := h
  exact ⟨e, List.mem_append_left _ he, hcall⟩

/-- The penalizer at `P` has its code, and all that it has recorded was reported. -/
structure RecordInv (E : Env) (w₀ : World χ) (P : Address) (c : ChainConf χ) : Prop where
  kept : CodeKept E w₀ (· = P) c.state
  record : ∀ txHash, (c.state.penalizers P).penalizedTransactions txHash = true →
    Reported E P c.trace txHash

section Record

variable {w₀ : World χ} {P : Address} {creation : Bytes}

/-- The checks read the record and change nothing. They stop at a pair that is recorded, and
at a transaction that is reported twice. -/
theorem wp_checkOffence {S : Spec (World χ) Msg Revert Bytes} {msg : Msg}
    {unsignedTx1 signature1 unsignedTx2 signature2 : Bytes} {Q : Address → ChainConf χ → Prop}
    {c : ChainConf χ}
    (h : ∀ a, ((c.state.penalizers msg.self).penalizedTransactions (E.keccak256 unsignedTx1) =
          false ∨
        (c.state.penalizers msg.self).penalizedTransactions (E.keccak256 unsignedTx2) = false) →
      unsignedTx1 ≠ unsignedTx2 → Q a c) :
    wp S (checkOffence E msg unsignedTx1 signature1 unsignedTx2 signature2) Q c := by
  have hdecode : ∀ (raw : Bytes) (Q : Transaction → ChainConf χ → Prop),
      (∀ t, RLPReader.decodeTransaction (E.stored raw) = .ok t → Q t c) →
        wp S (decodeTransaction E raw) Q c := by
    intro raw Q hQ
    unfold decodeTransaction
    split
    · next t ht => exact hQ t ht
    · exact trivial
  unfold checkOffence
  simp only [Prog.bind_eq, Prog.pure_eq, wp_bind, wp_require, wp_recoverSigner, wp_ret,
    wp_penalizer_storage]
  intro hfree a _ _ _ _ _
  refine hdecode _ _ fun t ht => hdecode _ _ fun t' ht' => ?_
  intro _ hdiffer
  refine h a hfree ?_
  rintro rfl
  obtain rfl : t = t' := Except.ok.inj (ht.symm.trans ht')
  exact hdiffer rfl

theorem RecordInv.entered {c : ChainConf χ} {msg : Msg} {s : World χ} (h : RecordInv E w₀ P c)
    (henter : enter msg c.state = some s) : RecordInv E w₀ P (c.entered msg s) := by
  refine ⟨h.kept.enter henter, fun txHash hrecorded => ?_⟩
  obtain ⟨b, rfl, -⟩ := enter_frame henter
  exact (h.record txHash hrecorded).append

theorem record_guarded (hcode : w₀.code P = some ⟨.penalizer, creation⟩)
    (hcodeless : ∀ a, E.codeless a = true → w₀.code a = none)
    (hrecord : ∀ txHash, (w₀.penalizers P).penalizedTransactions txHash = false) :
    Guarded E O w₀ (· = P) (fun msg c => Addressed (· = P) msg ∧ RecordInv E w₀ P c)
      (fun _ c => RecordInv E w₀ P c) where
  start := by
    intro b
    refine ⟨⟨fun _ _ => rfl, hcodeless⟩, fun txHash h => ?_⟩
    rw [Conf.start_state, hrecord] at h
    cases h
  wait := fun _ _ _ _ hi => hi
  answered := fun _ _ _ _ hi => ⟨hi.kept, hi.record⟩
  codeless := by
    intro b c a hi ha
    refine hi.kept.not_codeless ?_ ha
    rintro a rfl
    simp [hcode]
  write := by
    intro b c msg s hi hself hw
    refine ⟨hi.kept.write ?_ (fun h => absurd h hself) hw, fun txHash h => ?_⟩
    · rintro a rfl
      simp [hcode]
    · rw [Conf.put_state, hw.penalizers P (Ne.symm hself)] at h
      exact hi.record txHash h
  sends := fun _ _ _ hi hself hm => ⟨Addressed.of_local hself hm, hi⟩
  enter := fun _ _ _ hp _ henter => hp.2.entered henter
  own := by
    rintro c msg s ⟨haddr, hi⟩ rfl henter
    have hrun : codeOf E O msg s = code E msg := by
      obtain ⟨b, rfl, -⟩ := enter_frame henter
      rw [codeOf, haddr.codeAddress rfl, hi.kept.code _ rfl, hcode]
      rfl
    have hentered : RecordInv E w₀ msg.self (c.entered msg s) := hi.entered henter
    have hlast : (⟨msg, c.state⟩ : Entry (World χ) Msg) ∈ (c.entered msg s).trace := by
      simp
    rw [hrun]
    unfold code
    split
    · next unsignedTx1 signature1 unsignedTx2 signature2 hub hdata =>
        simp only [penalizeRepeatedNonce, relayManagerOnly, callIsRelayManagerStaked, callFunction,
          Prog.bind_eq, Prog.pure_eq, wp_bind, wp_nonPayable, wp_require, wp_bubble, wp_orRevert,
          wp_get, wp_assert, wp_send, wp_ret, wp_penalizer_modifyStorage]
        intro _ _
        refine ⟨⟨rfl, Addressed.staticcallTo _ msg hub _, hentered⟩, ?_⟩
        rintro r c₁ ⟨hi₁, hfollows⟩ ret rfl staked _ _
        replace hi₁ := hi₁ ⟨ret, rfl⟩
        obtain ⟨l, htrace⟩ := hfollows.continues.1
        refine wp_checkOffence fun a _ _ => ?_
        -- both hashes are recorded, and the history has the call that is running
        have hreported : ∀ txHash, txHash = E.keccak256 unsignedTx1 ∨
            txHash = E.keccak256 unsignedTx2 → Reported E msg.self c₁.trace txHash := by
          intro txHash h
          rw [← htrace]
          exact ⟨_, List.mem_append_left _ hlast, rfl, _, _, _, _, _, hdata, h⟩
        have hrecorded : RecordInv E w₀ msg.self
            ((c₁.put (c₁.state.setPenalizer msg.self
              ((c₁.state.penalizers msg.self).record (E.keccak256 unsignedTx1)))).put
                ((c₁.state.setPenalizer msg.self ((c₁.state.penalizers msg.self).record
                    (E.keccak256 unsignedTx1))).setPenalizer msg.self
                  (((c₁.state.penalizers msg.self).record (E.keccak256 unsignedTx1)).record
                    (E.keccak256 unsignedTx2)))) := by
          refine ⟨hi₁.kept.congr rfl, fun txHash h => ?_⟩
          simp only [Conf.put_put, Conf.put_state, World.setPenalizer, Function.update_self,
            record] at h
          by_cases h₂ : txHash = E.keccak256 unsignedTx2
          · exact hreported _ (Or.inr h₂)
          · by_cases h₁ : txHash = E.keccak256 unsignedTx1
            · exact hreported _ (Or.inl h₁)
            · rw [Function.update_of_ne h₂, Function.update_of_ne h₁] at h
              exact hi₁.record txHash h
        intro _
        refine ⟨⟨rfl, Addressed.callTo _ msg hub 0 _, ?_⟩, ?_⟩
        · simpa [World.setPenalizer] using hrecorded
        · rintro r c₂ ⟨hi₂, -⟩ ret rfl
          exact hi₂ ⟨ret, rfl⟩
    · exact trivial

/-- At every point of a run the invariant holds. -/
theorem record_point (hcode : w₀.code P = some ⟨.penalizer, creation⟩)
    (hcodeless : ∀ a, E.codeless a = true → w₀.code a = none)
    (hrecord : ∀ txHash, (w₀.penalizers P).penalizedTransactions txHash = false) {b : Word}
    {point : Option Msg} {c : ChainConf χ} (hc : Point E O w₀ b point c) :
    RecordInv E w₀ P c := by
  rcases (record_guarded hcode hcodeless hrecord).point hc with ⟨-, hi⟩ | ⟨-, -, -, -, hi⟩
  · exact hi
  · exact hi

end Record

/-! ## A report that has enough gas -/

section Reach

variable {B : Nat} {H : Address} {creation : Bytes}

/-- The question whether the sender of `msg` is staked at the hub `H`. -/
def stakedMsg (H : Address) (msg : Msg) : Msg :=
  msg.staticcallTo H (.isRelayManagerStaked msg.sender)

/-- The configuration after the hub has answered it. -/
def answeredStaked (H : Address) (msg : Msg) (c : ChainConf χ) : ChainConf χ :=
  (c.entered (stakedMsg H msg) c.state).answered (stakedMsg H msg)
    (.ok (Abi.encodeBool ((c.state.hubs H).isRelayManagerStaked msg.sender)))

@[simp] theorem answeredStaked_state (H : Address) (msg : Msg) (c : ChainConf χ) :
    (answeredStaked H msg c).state = c.state := rfl

theorem codeOf_stakedMsg {msg : Msg} {w : World χ}
    (hcode : w.code H = some ⟨.relayHub, creation⟩) :
    codeOf E O (stakedMsg H msg) w = RelayHub.code E (stakedMsg H msg) := by
  unfold codeOf
  rw [show (stakedMsg H msg).codeAddress = H from rfl, hcode]
  rfl

/-- The hub answers whether a manager is staked. -/
theorem exec_stakedMsg (hB : ∀ s g, O.cost s g ≤ B) {depth g : Nat} {static : Bool}
    (hg : B ≤ g) {msg : Msg} {c : ChainConf χ}
    (hcode : c.state.code H = some ⟨.relayHub, creation⟩) :
    ∃ g', exec (machine E O) (depth + 1) static g (stakedMsg H msg) c =
      ⟨.ok (Abi.encodeBool ((c.state.hubs H).isRelayManagerStaked msg.sender)),
        answeredStaked H msg c, g'⟩ := by
  obtain ⟨g', -, hget⟩ := @passes_get _ _ _ _ (machine E O) (exec (machine E O) depth) static g
    (c.entered (stakedMsg H msg) c.state) B hB hg
  refine ⟨g', exec_passes (s := c.state) rfl ?_⟩
  rw [show (machine E O).code (stakedMsg H msg) c.state = _ from codeOf_stakedMsg hcode]
  show Passes _ _ _ ((nonPayable _).bind fun _ => (RelayHub.storage _).bind _) _ _ _ _ _
  exact (passes_assert rfl _).trans ((hget.trans (passes_ret _)).trans (passes_ret _))

theorem passes_relayManagerOnly (hB : ∀ s g, O.cost s g ≤ B) {depth g : Nat} {static : Bool}
    (hg : 4 * B ≤ g) {msg : Msg} {c : ChainConf χ}
    (hcode : c.state.code H = some ⟨.relayHub, creation⟩)
    (hstaked : (c.state.hubs H).isRelayManagerStaked msg.sender = true) :
    ∃ g', g ≤ 2 * B + 64 * g' + 63 ∧
      Passes (machine E O) (exec (machine E O) (depth + 1)) static (relayManagerOnly msg H) g c
        () g' (answeredStaked H msg c) := by
  obtain ⟨g₁, hg₁, hget⟩ := @passes_get _ _ _ _ (machine E O) (exec (machine E O) (depth + 1))
    static g c B hB (by omega)
  obtain ⟨gas, kept, hgas, hkept, hsend, -⟩ := @passes_send _ _ _ _ (machine E O)
    (exec (machine E O) (depth + 1)) static g₁ c B hB (by omega) none (stakedMsg H msg)
    (Or.inr rfl)
  have hle := hgas rfl
  obtain ⟨g₂, hexec⟩ := @exec_stakedMsg _ E O B H creation hB depth gas
    (static || (machine E O).isStatic (stakedMsg H msg)) (by omega) msg c hcode
  rw [hexec, hstaked] at hsend
  have hcall : Passes (machine E O) (exec (machine E O) (depth + 1)) static
      (callIsRelayManagerStaked msg H) g c true (kept + g₂) (answeredStaked H msg c) := by
    refine hget.trans ((passes_assert (by simp [hcode]) _).trans (hsend.trans ?_))
    refine (passes_ret _).trans ?_
    rw [Abi.decodeBool_encodeBool]
    exact passes_ret true
  exact ⟨kept + g₂, by omega, hcall.trans (passes_assert rfl _)⟩

/-- The checks let an offence pass that is not recorded yet. -/
theorem passes_checkOffence (hB : ∀ s g, O.cost s g ≤ B) {depth g : Nat} {static : Bool}
    (hg : B ≤ g) {msg : Msg} {c : ChainConf χ} {tx₁ tx₂ : UnsignedTx} (h₁ : tx₁.Encodable)
    (h₂ : tx₂.Encodable) {signature1 signature2 : Bytes} {signer : Address}
    (hsigned : SignedPair E tx₁ tx₂ signature1 signature2 signer)
    (hhash : HashSeparates E tx₁.transaction tx₂.transaction)
    (hnonce : tx₁.transaction.nonce = tx₂.transaction.nonce)
    (hdiffer : ¬ SameAction tx₁.transaction tx₂.transaction)
    (hfree : ¬ ((c.state.penalizers msg.self).penalizedTransactions
        (E.keccak256 tx₁.encode) = true ∧
      (c.state.penalizers msg.self).penalizedTransactions (E.keccak256 tx₂.encode) = true)) :
    ∃ g', g ≤ g' + B ∧ Passes (machine E O) (exec (machine E O) depth) static
      (checkOffence E msg tx₁.encode signature1 tx₂.encode signature2) g c signer g' c := by
  obtain ⟨g', hg', hget⟩ := @passes_get _ _ _ _ (machine E O) (exec (machine E O) depth)
    static g c B hB hg
  refine ⟨g', hg', ?_⟩
  rw [checkOffence_encode h₁ h₂ hsigned hhash]
  refine (hget.trans (passes_ret _)).trans ?_
  dsimp only
  rw [if_neg hfree, verdict_ok.mpr ⟨hnonce, hdiffer, rfl⟩]
  exact passes_ret signer

/-- A pair that is recorded does not pass. -/
theorem checkOffence_recorded {callee : Callee (World χ) Msg Revert Bytes} {g : Nat}
    {static : Bool} {msg : Msg} {c : ChainConf χ}
    {unsignedTx1 signature1 unsignedTx2 signature2 : Bytes}
    (h₁ : (c.state.penalizers msg.self).penalizedTransactions (E.keccak256 unsignedTx1) = true)
    (h₂ : (c.state.penalizers msg.self).penalizedTransactions (E.keccak256 unsignedTx2) = true) :
    (∀ a, (run (machine E O) callee static
        (checkOffence E msg unsignedTx1 signature1 unsignedTx2 signature2) g c).value ≠ .ok a) ∧
      ∀ reached, ¬ Sends (machine E O) callee static reached
        (checkOffence E msg unsignedTx1 signature1 unsignedTx2 signature2) g c := by
  unfold checkOffence
  dsimp only
  simp only [Prog.bind_eq, storage, Prog.get, Prog.bind, require, Prog.assert]
  constructor
  · intro a h
    simp only [run] at h
    split at h
    · cases h
    · simp [h₁, h₂, Prog.bind, run] at h
  · intro reached h
    simp [h₁, h₂, Prog.bind, Sends] at h

/-! ## The penalty -/

/-- The configuration after coins were sent to an account without code. -/
def paidOut (msg : Msg) (dest : Address) (amount : Word) (c : ChainConf χ) : ChainConf χ :=
  (c.entered (msg.callTo dest amount .empty)
      { c.state with balance := Ledger.move c.state.balance msg.self dest amount.toNat }).answered
    (msg.callTo dest amount .empty) (.ok [])

/-- A transfer to an account without code goes through when the coins are there. -/
theorem passes_transferTo (hB : ∀ s g, O.cost s g ≤ B) {depth g : Nat} (hg : B ≤ g) {msg : Msg}
    {c : ChainConf χ} {dest : Address} {amount : Word} (hcode : c.state.code dest = none)
    (hcoins : amount.toNat ≤ c.state.balance msg.self) :
    ∃ g', g ≤ B + 64 * g' + 63 ∧
      Passes (machine E O) (exec (machine E O) (depth + 1)) false (transferTo msg dest amount) g
        c () g' (paidOut msg dest amount c) := by
  obtain ⟨gas, kept, -, hkept, hsend, -⟩ := @passes_send _ _ _ _ (machine E O)
    (exec (machine E O) (depth + 1)) false g c B hB hg (some (if amount = 0 then 2300 else 0))
    (msg.callTo dest amount .empty) (Or.inl rfl)
  have henter : (machine E O).enter (msg.callTo dest amount .empty) c.state =
      some { c.state with
        balance := Ledger.move c.state.balance msg.self dest amount.toNat } := by
    show enter (msg.callTo dest amount .empty) c.state = _
    unfold enter
    rw [if_pos (show (msg.callTo dest amount .empty).kind = .call from rfl)]
    exact if_pos hcoins
  have hexec : ∀ static, exec (machine E O) (depth + 1) static gas
      (msg.callTo dest amount .empty) c = ⟨.ok [], paidOut msg dest amount c, gas⟩ := by
    intro static
    refine exec_passes henter ?_
    have hrun : (machine E O).code (msg.callTo dest amount .empty)
        { c.state with balance := Ledger.move c.state.balance msg.self dest amount.toNat } =
          .ret [] := by
      show codeOf E O _ _ = _
      unfold codeOf
      rw [show (msg.callTo dest amount .empty).codeAddress = dest from rfl, hcode]
      rfl
    rw [hrun]
    exact passes_ret []
  rw [hexec] at hsend
  exact ⟨kept + gas, by omega, hsend.trans ((passes_ret []).trans (passes_ret ()))⟩

/-- The storage of a hub that has slashed the manager `m`. -/
def slashed (hub : RelayHub) (m : Address) : RelayHub :=
  hub.setStake m { hub.stakes m with stake := 0 }

theorem slashed_stake (hub : RelayHub) (m : Address) : ((slashed hub m).stakes m).stake = 0 := by
  simp [slashed, RelayHub.setStake]

/-- **The penalty.** Called by its penalizer for a worker of a manager with a stake, the hub
takes the stake, as long as it has the coins and the beneficiary has no code. -/
theorem passes_penalize (hB : ∀ s g, O.cost s g ≤ B) {depth g : Nat} (hg : 5000 * (B + 1) ≤ g)
    {msg : Msg} {c : ChainConf χ} {relayWorker beneficiary m : Address}
    (hpenalizer : msg.sender = (c.state.hubs msg.self).penalizer)
    (hworker : RelayHub.entryManager ((c.state.hubs msg.self).workerToManager relayWorker) = m)
    (hm : m ≠ 0) (hstake : 0 < ((c.state.hubs msg.self).stakes m).stake)
    (hcoins : ((c.state.hubs msg.self).stakes m).stake.toNat ≤ c.state.balance msg.self)
    (hzero : c.state.code 0 = none) (hbeneficiary : c.state.code beneficiary = none)
    (hself : c.state.code msg.self ≠ none) :
    ∃ g' c', Passes (machine E O) (exec (machine E O) (depth + 1)) false
        (RelayHub.penalize msg relayWorker beneficiary) g c () g' c' ∧
      ((c'.state.hubs msg.self).stakes m).stake = 0 := by
  subst hworker
  let m := RelayHub.entryManager ((c.state.hubs msg.self).workerToManager relayWorker)
  let amount := ((c.state.hubs msg.self).stakes m).stake
  let c₁ := c.put (c.state.setHub msg.self (slashed (c.state.hubs msg.self) m))
  let c₂ := paidOut msg 0 (RelayHub.penalty amount).1 c₁
  let c₃ := paidOut msg beneficiary (RelayHub.penalty amount).2 c₂
  have hamount : amount.toNat ≤ c.state.balance msg.self := hcoins
  have hburn : (RelayHub.penalty amount).1.toNat = amount.toNat / 2 := RelayHub.penalty_fst amount
  have hreward := RelayHub.penalty_snd amount
  have hne : msg.self ≠ 0 := by
    intro h
    rw [h] at hself
    exact hself hzero
  -- the storage is read and written, the two halves are paid, and the event is logged
  obtain ⟨g₁, hg₁, hget⟩ := @passes_get _ _ _ _ (machine E O) (exec (machine E O) (depth + 1))
    false g c B hB (by omega)
  obtain ⟨g₂, hg₂, hmodify⟩ := @passes_modify _ _ _ _ (machine E O)
    (exec (machine E O) (depth + 1)) false g₁ c B hB (by omega) rfl (fun w =>
      { w with hubs := Function.update w.hubs msg.self ((w.hubs msg.self).setStake m
        { (c.state.hubs msg.self).stakes m with stake := 0 }) })
  obtain ⟨g₃, hg₃, hfirst⟩ := @passes_transferTo _ E O B hB depth g₂ (by omega) msg c₁ 0
    (RelayHub.penalty amount).1 hzero (by
      show _ ≤ c.state.balance msg.self
      omega)
  have hleft : (RelayHub.penalty amount).2.toNat ≤ c₂.state.balance msg.self := by
    show _ ≤ Ledger.move c.state.balance msg.self 0 _ msg.self
    rw [Ledger.move_from _ _ hne]
    omega
  obtain ⟨g₄, hg₄, hsecond⟩ := @passes_transferTo _ E O B hB depth g₃ (by omega) msg c₂
    beneficiary (RelayHub.penalty amount).2 hbeneficiary hleft
  obtain ⟨g₅, -, hlog⟩ := @passes_modify _ _ _ _ (machine E O)
    (exec (machine E O) (depth + 1)) false g₄ c₃ B hB (by omega) rfl (fun w =>
      { w with logs := w.logs ++
        [(msg.self, .StakePenalized m beneficiary (RelayHub.penalty amount).2)] })
  refine ⟨g₅, _, (hget.trans (passes_ret _)).trans ((passes_assert hpenalizer _).trans
    ((passes_assert hm _).trans ((passes_assert hstake _).trans (hmodify.trans
      (hfirst.trans (hsecond.trans hlog)))))), ?_⟩
  show ((Function.update c.state.hubs msg.self (slashed (c.state.hubs msg.self) m)
    msg.self).stakes m).stake = 0
  rw [Function.update_self, slashed_stake]

theorem enter_unpaid {msg : Msg} {w : World χ} (h : msg.value = 0) : enter msg w = some w := by
  unfold enter
  rw [h]
  split
  · rw [if_pos (show (0 : Word).toNat ≤ w.balance msg.sender from Nat.zero_le _)]
    show some { w with balance := Ledger.move w.balance msg.sender msg.self 0 } = some w
    rw [Ledger.move_zero]
  · rfl

/-- The hub slashes the manager of a worker when its penalizer says so. -/
theorem exec_penalize (hB : ∀ s g, O.cost s g ≤ B) {depth g : Nat} (hg : 5000 * (B + 1) ≤ g)
    {msg : Msg} {c : ChainConf χ} {relayWorker beneficiary m : Address}
    (hdata : msg.data = .penalize relayWorker beneficiary) (hvalue : msg.value = 0)
    (hcode : c.state.code msg.self = some ⟨.relayHub, creation⟩)
    (haddress : msg.codeAddress = msg.self)
    (hpenalizer : msg.sender = (c.state.hubs msg.self).penalizer)
    (hworker : RelayHub.entryManager ((c.state.hubs msg.self).workerToManager relayWorker) = m)
    (hm : m ≠ 0) (hstake : 0 < ((c.state.hubs msg.self).stakes m).stake)
    (hcoins : ((c.state.hubs msg.self).stakes m).stake.toNat ≤ c.state.balance msg.self)
    (hzero : c.state.code 0 = none) (hbeneficiary : c.state.code beneficiary = none) :
    ∃ (g' : Nat) (c' : ChainConf χ), exec (machine E O) (depth + 2) false g msg c =
        ⟨.ok [], c'.answered msg (.ok []), g'⟩ ∧
      ((c'.state.hubs msg.self).stakes m).stake = 0 := by
  obtain ⟨g', c', hpasses, hslashed⟩ := @passes_penalize _ E O B hB depth g hg msg
    (c.entered msg c.state) relayWorker beneficiary m hpenalizer hworker hm hstake hcoins hzero
    hbeneficiary (by rw [Conf.entered_state, hcode]; simp)
  refine ⟨g', c', exec_passes (enter_unpaid hvalue) ?_, hslashed⟩
  have hrun : (machine E O).code msg c.state = RelayHub.code E msg := by
    show codeOf E O msg c.state = _
    unfold codeOf
    rw [haddress, hcode]
    rfl
  rw [hrun]
  unfold RelayHub.code
  rw [hdata]
  exact (passes_assert hvalue _).trans (hpasses.trans (passes_ret []))

end Reach

/-! ## Reports -/

section Reports

variable {B : Nat} {w₀ : World χ} {H P : Address} {creation : Bytes}

/-- The message with which the penalizer has the hub slash the manager of `signer`. -/
def penalizeMsg (H signer : Address) (msg : Msg) : Msg :=
  msg.callTo H 0 (.penalize signer msg.sender)

/-- The state after both transactions are recorded. -/
def recorded (E : Env) (tx₁ tx₂ : UnsignedTx) (P : Address) (w : World χ) : World χ :=
  w.setPenalizer P (((w.penalizers P).record (E.keccak256 tx₁.encode)).record
    (E.keccak256 tx₂.encode))

/-- The configuration after the hash `txHash` is recorded. -/
def withRecord (msg : Msg) (txHash : Word) (c : ChainConf χ) : ChainConf χ :=
  c.put (c.state.setPenalizer msg.self ((c.state.penalizers msg.self).record txHash))

theorem passes_record (hB : ∀ s g, O.cost s g ≤ B) {depth g : Nat} (hg : B ≤ g) {msg : Msg}
    {c : ChainConf χ} {txHash : Word} :
    ∃ g', g ≤ g' + B ∧ Passes (machine E O) (exec (machine E O) depth) false
      (modifyStorage msg (·.record txHash)) g c () g' (withRecord msg txHash c) :=
  passes_modify hB hg rfl _

/-- An offence that is not recorded gets to the call of the hub, with both transactions
recorded and gas left. -/
theorem report_front (hB : ∀ s g, O.cost s g ≤ B) {depth g : Nat}
    (hg : 1000000 * (B + 1) ≤ g) {msg : Msg} {c : ChainConf χ}
    (hcode : c.state.code H = some ⟨.relayHub, creation⟩)
    (hstaked : (c.state.hubs H).isRelayManagerStaked msg.sender = true)
    {tx₁ tx₂ : UnsignedTx} (h₁ : tx₁.Encodable) (h₂ : tx₂.Encodable)
    {signature1 signature2 : Bytes} {signer : Address}
    (hsigned : SignedPair E tx₁ tx₂ signature1 signature2 signer)
    (hhash : HashSeparates E tx₁.transaction tx₂.transaction)
    (hnonce : tx₁.transaction.nonce = tx₂.transaction.nonce)
    (hdiffer : ¬ SameAction tx₁.transaction tx₂.transaction)
    (hfree : ¬ ((c.state.penalizers msg.self).penalizedTransactions
        (E.keccak256 tx₁.encode) = true ∧
      (c.state.penalizers msg.self).penalizedTransactions (E.keccak256 tx₂.encode) = true)) :
    ∃ gas kept c', 5000 * (B + 1) ≤ gas ∧
      c'.state = recorded E tx₁ tx₂ msg.self c.state ∧
      let r := exec (machine E O) (depth + 1) false gas (penalizeMsg H signer msg) c'
      run (machine E O) (exec (machine E O) (depth + 1)) false
          (penalizeRepeatedNonce E msg tx₁.encode signature1 tx₂.encode signature2 H) g c =
        run (machine E O) (exec (machine E O) (depth + 1)) false
          ((bubble r.value).bind fun _ => .ret ()) (kept + r.gas) r.conf ∧
      ∀ reached : Bool → Nat → Msg → ChainConf χ → Prop,
        reached false gas (penalizeMsg H signer msg) c' →
          Sends (machine E O) (exec (machine E O) (depth + 1)) false reached
            (penalizeRepeatedNonce E msg tx₁.encode signature1 tx₂.encode signature2 H) g c := by
  -- step by step: the caller, the checks, the two records and the call of the hub
  obtain ⟨g₁, hg₁, hmanager⟩ := @passes_relayManagerOnly _ E O B H creation hB depth g false
    (by omega) msg c hcode hstaked
  obtain ⟨g₂, hg₂, hcheck⟩ := @passes_checkOffence _ E O B hB (depth + 1) g₁ false (by omega) msg
    (answeredStaked H msg c) tx₁ tx₂ h₁ h₂ signature1 signature2 signer hsigned hhash hnonce
    hdiffer hfree
  let c₁ := withRecord msg (E.keccak256 tx₁.encode) (answeredStaked H msg c)
  let c₂ := withRecord msg (E.keccak256 tx₂.encode) c₁
  obtain ⟨g₃, hg₃, hrecord₁⟩ := @passes_record _ E O B hB (depth + 1) g₂ (by omega) msg
    (answeredStaked H msg c) (E.keccak256 tx₁.encode)
  obtain ⟨g₄, hg₄, hrecord₂⟩ := @passes_record _ E O B hB (depth + 1) g₃ (by omega) msg c₁
    (E.keccak256 tx₂.encode)
  obtain ⟨g₅, hg₅, hget⟩ := @passes_get _ _ _ _ (machine E O) (exec (machine E O) (depth + 1))
    false g₄ c₂ B hB (by omega)
  obtain ⟨gas, kept, hgas, -, hsend, hsends⟩ := @passes_send _ _ _ _ (machine E O)
    (exec (machine E O) (depth + 1)) false g₅ c₂ B hB (by omega) none
    (penalizeMsg H signer msg) (Or.inl rfl)
  have hle := hgas rfl
  have hhub : c₂.state.code H ≠ none := by
    show c.state.code H ≠ none
    rw [hcode]
    simp
  refine ⟨gas, kept, c₂, by omega, by simp [c₂, c₁, withRecord, recorded, World.setPenalizer],
    ?_, ?_⟩
  · refine hmanager.bind.trans (hcheck.bind.trans (hrecord₁.bind.trans (hrecord₂.bind.trans ?_)))
    have hcall : run (machine E O) (exec (machine E O) (depth + 1)) false
        (callFunction msg H (.penalize signer msg.sender)) g₄ c₂ = _ :=
      hget.bind.trans ((passes_assert hhub _).bind.trans hsend.bind)
    show run _ _ _ ((callFunction msg H (.penalize signer msg.sender)).bind fun _ => .ret ())
      g₄ c₂ = _
    rw [run_bind, hcall, run_bind]
    rfl
  · intro reached hreached
    refine hmanager.sends (hcheck.sends (hrecord₁.sends (hrecord₂.sends ?_)))
    refine (sends_bind _ _ _).mpr (Or.inl ?_)
    refine hget.sends ((passes_assert hhub _).sends ?_)
    exact (sends_bind _ _ _).mpr (Or.inl (hsends _ hreached))

/-- What the hub runs to answer: one read. -/
theorem code_stakedMsg (msg : Msg) :
    (RelayHub.code E (stakedMsg H msg) : Sol χ Bytes) =
      .read fun w => .ret (Abi.encodeBool ((w.hubs H).isRelayManagerStaked msg.sender)) := rfl

/-- The question changes nothing, also when the gas runs out. -/
theorem exec_stakedMsg_state (depth g : Nat) (static : Bool) (msg : Msg) (c : ChainConf χ)
    (hcode : c.state.code H = some ⟨.relayHub, creation⟩) :
    (exec (machine E O) depth static g (stakedMsg H msg) c).conf.state = c.state := by
  cases depth with
  | zero => rfl
  | succ depth =>
      have henter : (machine E O).enter (stakedMsg H msg) c.state = some c.state := rfl
      have hrun : (machine E O).code (stakedMsg H msg) c.state = _ := codeOf_stakedMsg hcode
      simp only [exec, henter, hrun, code_stakedMsg, run]
      by_cases hcost : g < (machine E O).cost (c.entered (stakedMsg H msg) c.state).state g
      · rw [if_pos hcost]
        rfl
      · rw [if_neg hcost]
        rfl

theorem not_visits_stakedMsg {depth g : Nat} {static : Bool} {msg m : Msg} {c c' : ChainConf χ}
    (hcode : c.state.code H = some ⟨.relayHub, creation⟩) (hm : stakedMsg H msg ≠ m) :
    ¬ Visits (machine E O) m c' depth static g (stakedMsg H msg) c := by
  cases depth with
  | zero => exact fun h => hm h.1
  | succ depth =>
      rintro (h | ⟨s, henter, hsends⟩)
      · exact hm h.1
      · obtain rfl : c.state = s := Option.some.inj henter
        rw [show (machine E O).code (stakedMsg H msg) c.state = _ from codeOf_stakedMsg hcode,
          code_stakedMsg] at hsends
        exact hsends.2

/-- What the modifier makes of the answer. -/
def onStaked (r : Except Revert Bytes) : Sol χ Unit :=
  ((bubble r).bind fun ret => orRevert (Abi.decodeBool ret)).bind fun staked =>
    require (staked = true) "Unknown relay manager"

theorem onStaked_eq (r : Except Revert Bytes) :
    (onStaked r : Sol χ Unit) = .ret () ∨ ∃ e, (onStaked r : Sol χ Unit) = .revert e := by
  unfold onStaked
  cases r with
  | error e => exact Or.inr ⟨_, rfl⟩
  | ok ret =>
      simp only [bubble, Prog.ret_bind]
      cases Abi.decodeBool ret with
      | none => exact Or.inr ⟨_, rfl⟩
      | some staked =>
          cases staked with
          | false => exact Or.inr ⟨_, rfl⟩
          | true => exact Or.inl rfl

theorem relayManagerOnly_eq (msg : Msg) :
    (relayManagerOnly msg H : Sol χ Unit) = .read fun w =>
      if w.code H ≠ none then .call none (stakedMsg H msg) onStaked else .revert (.data []) := by
  show Prog.read _ = _
  congr 1
  funext w
  show ((Prog.assert (w.code H ≠ none) _).bind _).bind _ = _
  by_cases hw : w.code H ≠ none
  · rw [if_pos hw, show Prog.assert (w.code H ≠ none) _ = _ from if_pos hw]
    rfl
  · rw [if_neg hw, show Prog.assert (w.code H ≠ none) _ = _ from if_neg hw]
    rfl

/-- The modifier sends nothing but the question. -/
theorem relayManagerOnly_sends {depth g : Nat} {static : Bool} {msg m : Msg} {c c' : ChainConf χ}
    (hcode : c.state.code H = some ⟨.relayHub, creation⟩) (hm : stakedMsg H msg ≠ m) :
    ¬ Sends (machine E O) (exec (machine E O) depth) static (Visits (machine E O) m c' depth)
      (relayManagerOnly msg H) g c := by
  rw [relayManagerOnly_eq]
  rintro ⟨-, h⟩
  dsimp only at h
  rw [if_pos (by simp [hcode])] at h
  obtain ⟨-, -, h | h⟩ := h
  · exact not_visits_stakedMsg hcode hm h
  · dsimp only at h
    rcases @onStaked_eq χ (answer (machine E O) (exec (machine E O) depth) static none
      (stakedMsg H msg) (g - (machine E O).cost c.state g) c).value with heq | ⟨e, heq⟩
    · rw [heq] at h
      exact h
    · rw [heq] at h
      exact h

/-- And it changes nothing. -/
theorem relayManagerOnly_state {depth g : Nat} {static : Bool} {msg : Msg} {c : ChainConf χ}
    (hcode : c.state.code H = some ⟨.relayHub, creation⟩) :
    (run (machine E O) (exec (machine E O) depth) static (relayManagerOnly msg H) g c).conf.state =
      c.state := by
  have hfinal : ∀ r g' (c' : ChainConf χ),
      (run (machine E O) (exec (machine E O) depth) static (onStaked r) g' c').conf = c' := by
    intro r g' c'
    rcases @onStaked_eq χ r with heq | ⟨e, heq⟩ <;> rw [heq] <;> rfl
  rw [relayManagerOnly_eq]
  simp only [run]
  split
  · rfl
  · rw [if_pos (by simp [hcode])]
    simp only [run]
    split
    · rfl
    · rw [hfinal]
      exact exec_stakedMsg_state depth _ _ msg c hcode

/-- Both recorded, the report does not get to the hub. -/
theorem report_recorded {depth g : Nat} {msg : Msg} {c c' : ChainConf χ}
    {unsignedTx1 signature1 unsignedTx2 signature2 : Bytes} {signer : Address}
    (hcode : c.state.code H = some ⟨.relayHub, creation⟩)
    (hpenalizer : ∃ k, c.state.code msg.self = some ⟨.penalizer, k⟩)
    (haddress : msg.codeAddress = msg.self) (hvalue : msg.value = 0)
    (hdata : msg.data = .penalizeRepeatedNonce unsignedTx1 signature1 unsignedTx2 signature2 H)
    (h₁ : (c.state.penalizers msg.self).penalizedTransactions (E.keccak256 unsignedTx1) = true)
    (h₂ : (c.state.penalizers msg.self).penalizedTransactions (E.keccak256 unsignedTx2) = true) :
    ¬ Visits (machine E O) (penalizeMsg H signer msg) c' depth false g msg c := by
  have hne : msg ≠ penalizeMsg H signer msg := by
    intro h
    rw [h] at hdata
    cases hdata
  cases depth with
  | zero => exact fun h => hne h.1
  | succ depth =>
      rintro (h | ⟨s, henter, hsends⟩)
      · exact hne h.1
      · obtain rfl : c.state = s := Option.some.inj ((enter_unpaid hvalue).symm.trans henter)
        obtain ⟨k, hk⟩ := hpenalizer
        have hrun : (machine E O).code msg c.state = (nonPayable msg).bind fun _ =>
            (penalizeRepeatedNonce E msg unsignedTx1 signature1 unsignedTx2 signature2 H).bind
              fun _ => .ret [] := by
          show codeOf E O msg c.state = _
          unfold codeOf
          rw [haddress, hk]
          show code E msg = _
          unfold code
          rw [hdata]
          rfl
        rw [hrun] at hsends
        have hpaid : Passes (machine E O) (exec (machine E O) depth) false
            (nonPayable msg : Sol χ Unit) g (c.entered msg c.state) () g
            (c.entered msg c.state) := passes_assert hvalue _
        rcases hpaid.sends_iff.mp hsends with h | h
        · unfold nonPayable Prog.assert at h
          rw [if_pos hvalue] at h
          exact h
        -- neither the question to the hub nor the checks, which fail, make the call
        · rcases (sends_bind _ _ _).mp h with h | ⟨-, -, h⟩
          · rcases (sends_bind _ _ _).mp h with h | ⟨u, hu, h⟩
            · exact @relayManagerOnly_sends _ E O H creation depth g false msg _
                (c.entered msg c.state) c' hcode
                (fun heq => CallKind.noConfusion (congrArg Msg.kind heq)) h
            · have hstate := @relayManagerOnly_state _ E O H creation depth g false msg
                (c.entered msg c.state) hcode
              obtain ⟨hfails, hsilent⟩ := @checkOffence_recorded _ E O
                (exec (machine E O) depth) (run (machine E O) (exec (machine E O) depth) false
                  (relayManagerOnly msg H) g (c.entered msg c.state)).gas false msg
                (run (machine E O) (exec (machine E O) depth) false
                  (relayManagerOnly msg H) g (c.entered msg c.state)).conf
                unsignedTx1 signature1 unsignedTx2 signature2 (by rw [hstate]; exact h₁)
                (by rw [hstate]; exact h₂)
              rcases (sends_bind _ _ _).mp h with h | ⟨a, ha, -⟩
              · exact hsilent _ h
              · exact hfails a ha
          · exact h

/-- What a report runs. -/
theorem codeOf_report {msg : Msg} {w : World χ} {k : Bytes}
    {unsignedTx1 signature1 unsignedTx2 signature2 : Bytes}
    (hcode : w.code msg.self = some ⟨.penalizer, k⟩) (haddress : msg.codeAddress = msg.self)
    (hdata : msg.data = .penalizeRepeatedNonce unsignedTx1 signature1 unsignedTx2 signature2 H) :
    codeOf E O msg w = (nonPayable msg).bind fun _ =>
      (penalizeRepeatedNonce E msg unsignedTx1 signature1 unsignedTx2 signature2 H).bind
        fun _ => .ret [] := by
  unfold codeOf
  rw [haddress, hcode]
  show code E msg = _
  unfold code
  rw [hdata]
  rfl

end Reports

/-- A penalizer that has just been constructed. -/
structure Fresh (w₀ : World χ) (P : Address) : Prop where
  code : ∃ creation, w₀.code P = some ⟨.penalizer, creation⟩
  record : ∀ txHash, (w₀.penalizers P).penalizedTransactions txHash = false

/-- The call of the penalizer at `P` by which `caller` reports two transactions to the hub
at `H`. -/
def reportMsg (caller P H : Address) (tx₁ : UnsignedTx) (signature1 : Bytes) (tx₂ : UnsignedTx)
    (signature2 : Bytes) (t : TxContext) : Msg :=
  ⟨.call, caller, P, P, 0,
    .penalizeRepeatedNonce tx₁.encode signature1 tx₂.encode signature2 H, t⟩

/-- The penalizer at `P` has recorded both transactions. -/
def BothRecorded (E : Env) (tx₁ tx₂ : UnsignedTx) (P : Address) (w : World χ) : Prop :=
  (w.penalizers P).penalizedTransactions (E.keccak256 tx₁.encode) = true ∧
    (w.penalizers P).penalizedTransactions (E.keccak256 tx₂.encode) = true

instance (E : Env) (tx₁ tx₂ : UnsignedTx) (P : Address) (w : World χ) :
    Decidable (BothRecorded E tx₁ tx₂ P w) :=
  inferInstanceAs (Decidable (_ ∧ _))

/-- The report `msg` is punished: it gets to the call by which the hub at `H` penalizes
`signer`, and that takes the stake of `m`, if there is one. (The beneficiary gets its half in
this call; that it takes coins is certain where it has no code.) -/
def Punished (O : Outside E χ) (H signer m : Address) (depth g : Nat) (msg : Msg)
    (c : ChainConf χ) : Prop :=
  (∃ c', Visits (machine E O) (penalizeMsg H signer msg) c' depth false g msg c) ∧
    (0 < ((c.state.hubs H).stakes m).stake → E.codeless msg.sender = true →
      (exec (machine E O) depth false g msg c).value = .ok [] ∧
        (((exec (machine E O) depth false g msg c).conf.state.hubs H).stakes m).stake = 0)

/-- **When an offence is punished.** At any point of any run of the chain, let two
transactions of one worker of the manager `m` be in conflict, and let a manager that is
staked in the genuine hub `H` report them with enough gas (`B` bounds the cost of a step).
Then the report passes all checks, reaches `penalize` of the hub and has `m` slashed if and
only if the penalizer has not recorded both transactions before. -/
theorem offence_penalizable_iff {w₀ : World χ} {H P : Address}
    (hhub : RelayHub.Fresh E w₀ H) (hsupply : w₀.supply < 2 ^ 256) (hfresh : Fresh w₀ P)
    (hgenuine : (w₀.hubs H).penalizer = P) {b : Word} {point : Option Msg} {c : ChainConf χ}
    (hc : Point E O w₀ b point c) {tx₁ tx₂ : UnsignedTx} (h₁ : tx₁.Encodable)
    (h₂ : tx₂.Encodable) {signature1 signature2 : Bytes} {signer : Address}
    (hsigned : SignedPair E tx₁ tx₂ signature1 signature2 signer)
    (hhash : HashSeparates E tx₁.transaction tx₂.transaction)
    (hnonce : tx₁.transaction.nonce = tx₂.transaction.nonce)
    (hdiffer : ¬ SameAction tx₁.transaction tx₂.transaction) {m caller : Address}
    (hworker : RelayHub.entryManager ((c.state.hubs H).workerToManager signer) = m) (hm : m ≠ 0)
    (hstaked : (c.state.hubs H).isRelayManagerStaked caller = true) (t : TxContext) {B : Nat}
    (hB : ∀ s g, O.cost s g ≤ B) {depth g : Nat} (hdepth : 3 ≤ depth)
    (hg : 1000000 * (B + 1) ≤ g) :
    Punished O H signer m depth g (reportMsg caller P H tx₁ signature1 tx₂ signature2 t) c ↔
      ¬ BothRecorded E tx₁ tx₂ P c.state := by
  obtain ⟨hinv, owed, hfunded, -, -⟩ := hhub.point hsupply hc
  obtain ⟨creation, hcode₀⟩ := hhub.code
  obtain ⟨k, hpenalizer₀⟩ := hfresh.code
  have hcode : c.state.code H = some ⟨.relayHub, creation⟩ := hinv.code.trans hcode₀
  obtain ⟨hkept, -⟩ := record_point hpenalizer₀ hhub.codeless hfresh.record hc
  have hpenalizer : c.state.code P = some ⟨.penalizer, k⟩ := (hkept.code P rfl).trans hpenalizer₀
  constructor
  · rintro ⟨⟨c', hvisits⟩, -⟩ ⟨hrecorded₁, hrecorded₂⟩
    exact report_recorded hcode ⟨k, hpenalizer⟩ rfl rfl rfl hrecorded₁ hrecorded₂ hvisits
  · intro hfree
    obtain ⟨d, rfl⟩ : ∃ d, depth = d + 3 := ⟨depth - 3, by omega⟩
    let msg := reportMsg caller P H tx₁ signature1 tx₂ signature2 t
    obtain ⟨gas, kept, c₁, hgas, hstate, hrun, hsends⟩ := @report_front _ E O B H creation hB
      (d + 1) g hg msg (c.entered msg c.state) hcode hstaked tx₁ tx₂ h₁ h₂ signature1 signature2
      signer hsigned hhash hnonce hdiffer hfree
    have hpaid : Passes (machine E O) (exec (machine E O) (d + 2)) false
        (nonPayable msg : Sol χ Unit) g (c.entered msg c.state) () g (c.entered msg c.state) :=
      passes_assert rfl _
    have henter : (machine E O).enter msg c.state = some c.state :=
      @enter_unpaid χ msg c.state rfl
    have hcodeOf : (machine E O).code msg c.state = _ :=
      @codeOf_report _ E O H msg c.state k _ _ _ _ hpenalizer rfl rfl
    constructor
    -- the report comes so far as to call the hub
    · refine ⟨c₁, Or.inr ⟨c.state, henter, ?_⟩⟩
      rw [hcodeOf]
      refine hpaid.sends ((sends_bind _ _ _).mpr (Or.inl (hsends _ ?_)))
      exact Or.inl ⟨rfl, rfl⟩
    · intro hstake hcaller
      -- the hub has the coins of every stake
      have hcoins : ((c.state.hubs H).stakes m).stake.toNat ≤ c.state.balance H := by
        have hle : ((c.state.hubs H).stakes m).stake.toNat ≤
            StakeBook.total (c.state.hubs H).book :=
          StakeBook.amount_le_total (c.state.hubs H).book m
        have hbalance := hfunded.coins
        omega
      have hstate' : c₁.state = recorded E tx₁ tx₂ P c.state := hstate
      obtain ⟨g', c₂, hexec, hslashed⟩ := @exec_penalize _ E O B creation hB d gas hgas
        (penalizeMsg H signer msg) c₁ signer caller m rfl rfl (by rw [hstate']; exact hcode) rfl
        (by rw [hstate']; exact (hinv.penalizer.trans hgenuine).symm)
        (by rw [hstate']; exact hworker) hm (by rw [hstate']; exact hstake)
        (by rw [hstate']; exact hcoins)
        (by rw [hstate']; exact hinv.codeless 0 E.codeless_zero)
        (by rw [hstate']; exact hinv.codeless caller hcaller)
      rw [hexec] at hrun
      have hpasses : Passes (machine E O) (exec (machine E O) (d + 2)) false
          ((machine E O).code msg c.state) g (c.entered msg c.state) [] (kept + g')
          (c₂.answered (penalizeMsg H signer msg) (.ok [])) := by
        rw [hcodeOf]
        refine hpaid.trans (Passes.trans (a := ()) hrun (passes_ret []))
      rw [exec_passes henter hpasses]
      exact ⟨rfl, hslashed⟩

/-! A chain with a contract at `0xff` that tells everybody they are staked. The managers
`0x0c` and `0x0d` are staked, `worker` works for `0x0c`. -/

def pretender : Outside pairEnv Unit where
  code := fun msg _ =>
    match msg.data with
    | .isRelayManagerStaked _ => .ret (Abi.encodeBool true)
    | _ => .ret []
  cost := fun _ _ => 0
  within := by
    intro msg w
    split <;> exact trivial

def pairCode (a : Address) : Option Contract :=
  if a = 0xaa then some ⟨.relayHub, []⟩
  else if a = 0xbb then some ⟨.penalizer, []⟩
  else if a = 0xff then some ⟨.other, []⟩
  else none

def pairWorld : World Unit :=
  { World.ofContracts 0x0a 5000 pairCode with hubs := RelayHub.smallWorld.hubs }

def pairTx (origin : Address) (blockNumber : Word) (dest : Address) (value : Word)
    (data : CallData) : Tx :=
  ⟨origin, 1, blockNumber, dest, value, data, 1000000⟩

def staked : ChainConf Unit :=
  (pairTx 0x0c 11 0xaa 0 (.addRelayWorkers [worker])).run pairEnv pretender 8
    ((pairTx 0x0a 10 0xaa 2000 (.stakeForAddress 0x0d 1000)).run pairEnv pretender 8
      ((pairTx 0x0a 10 0xaa 2000 (.stakeForAddress 0x0c 1000)).run pairEnv pretender 8
        (Conf.start pairWorld)))

theorem staked_settled : Settled pairEnv pretender pairWorld 11 staked :=
  .call (.call (.call (.start 10) (pairTx 0x0a 10 0xaa 2000 (.stakeForAddress 0x0c 1000)) 8
        (by decide) (by decide))
      (pairTx 0x0a 10 0xaa 2000 (.stakeForAddress 0x0d 1000)) 8 (by decide) (by decide))
    (pairTx 0x0c 11 0xaa 0 (.addRelayWorkers [worker])) 8 (by decide) (by decide)

theorem pairWorld_hub : RelayHub.Fresh pairEnv pairWorld 0xaa where
  code := ⟨[], rfl⟩
  construct := ⟨0xbb, 10, 1000, 1000, 1000, rfl⟩
  coins := rfl
  codeless := by
    have hkeys : ∀ a ∈ [0, worker, 0x0a, 0x0c, 0x0d], pairCode a = none := by
      simp [pairCode, worker]
    exact World.codeless_ofKeys hkeys

theorem pairWorld_penalizer : Fresh pairWorld 0xbb where
  code := ⟨[], rfl⟩
  record := fun _ => rfl

theorem pairWorld_supply : pairWorld.supply < 2 ^ 256 := by
  have h : pairWorld.supply = 5000 := World.supply_ofContracts 0x0a 5000 pairCode
  omega

def report (hub : Address) (caller : Address) : Msg :=
  reportMsg caller 0xbb hub plainTx plainSignature dataTx dataSignature ⟨caller, 1, 12⟩

/-- Reported by `0x0d`, the conflicting transactions cost `0x0c` its stake. -/
theorem offence_penalizable_staked :
    Punished pretender 0xaa worker 0x0c 8 1000000 (report 0xaa 0x0d) staked :=
  (offence_penalizable_iff pairWorld_hub pairWorld_supply pairWorld_penalizer rfl
      (Point.settled staked_settled) plainTx_encodable dataTx_encodable pair_signed pair_separated
      rfl (by decide) (by decide) (by decide) (by decide) _ (B := 0) (fun _ _ => le_refl 0)
      (by decide) (by decide)).mpr (by decide)

/-- The hub a report names. -/
def reportedHub : CallData → Option Address
  | .penalizeRepeatedNonce _ _ _ _ hub => some hub
  | _ => none

def shielded : ChainConf Unit :=
  (pairTx 0x0c 12 0xbb 0 (report 0xff 0x0c).data).run pairEnv pretender 8 staked

/-- The state of the chain after the pretended report. -/
theorem shielded_state :
    BothRecorded pairEnv plainTx dataTx 0xbb shielded.state ∧
    shielded.state.code 0xaa = some ⟨.relayHub, []⟩ ∧
    shielded.state.code 0xbb = some ⟨.penalizer, []⟩ ∧
    RelayHub.entryManager ((shielded.state.hubs 0xaa).workerToManager worker) = 0x0c ∧
    (shielded.state.hubs 0xaa).isRelayManagerStaked 0x0c = true ∧
    (shielded.state.hubs 0xaa).isRelayManagerStaked 0x0d = true ∧
    ∀ e ∈ shielded.trace, reportedHub e.msg.data ≠ some 0xaa := by
  decide +kernel

/-- **A pretended hub shields an offence.** After `0x0c` has reported its own worker's
transactions to the contract at `0xff`, no report of them to the genuine hub gets through,
although none was ever made before. -/
theorem offence_shielded :
    Settled pairEnv pretender pairWorld 12 shielded ∧
    RelayHub.Fresh pairEnv pairWorld 0xaa ∧ Fresh pairWorld 0xbb ∧
    SignedPair pairEnv plainTx dataTx plainSignature dataSignature worker ∧
    plainTx.transaction.nonce = dataTx.transaction.nonce ∧
    ¬ SameAction plainTx.transaction dataTx.transaction ∧
    RelayHub.entryManager ((shielded.state.hubs 0xaa).workerToManager worker) = 0x0c ∧
    (shielded.state.hubs 0xaa).isRelayManagerStaked 0x0c = true ∧
    (shielded.state.hubs 0xaa).isRelayManagerStaked 0x0d = true ∧
    (∀ e ∈ shielded.trace, reportedHub e.msg.data ≠ some 0xaa) ∧
    ∀ depth g, ¬ Punished pretender 0xaa worker 0x0c depth g (report 0xaa 0x0d) shielded := by
  have hsettled : Settled pairEnv pretender pairWorld 12 shielded :=
    staked_settled.call (pairTx 0x0c 12 0xbb 0 (report 0xff 0x0c).data) 8 (by decide) (by decide)
  obtain ⟨hrecorded, hhub, hpenalizer, hworker, hoffender, hreporter, hnone⟩ := shielded_state
  refine ⟨hsettled, pairWorld_hub, pairWorld_penalizer, pair_signed, rfl, by decide, hworker,
    hoffender, hreporter, hnone, ?_⟩
  rintro depth g ⟨⟨c', hvisits⟩, -⟩
  exact report_recorded hhub ⟨[], hpenalizer⟩ rfl rfl rfl hrecorded.1 hrecorded.2 hvisits

end Penalizer

end RifRelay
