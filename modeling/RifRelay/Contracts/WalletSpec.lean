import RifRelay.Contracts.ProofRules

set_option autoImplicit false

/-! # What wallets do

The specification of the code of a `SmartWallet`, in the account it runs in. Two functions
write to the storage: `initialize`, once, and `execute`, which increments the nonce after it
has checked the request (`Accepts`) and before it calls anybody; its first call is the
payment. All other functions only call (`wp_smartWallet_code`).
-/

namespace RifRelay

open CallMachine IForwarder

variable {χ : Type}

/-! ## Signatures and payments -/

/-- A signature of `signer` over a structure, for the domain of a verifying contract. -/
structure Eip712.Signs (E : Env) (verifyingContract : Address) (domainSeparator : Word)
    (encoded sig : Bytes) (signer : Address) : Prop where
  domain : E.keccak256 (encodeDomain E E.chainId verifyingContract) = domainSeparator
  recovered : E.recover (E.keccak256 (signedBytes E domainSeparator encoded)) sig = .ok signer
  key : RSKAddrValidator.checkPKNotZero signer = true

/-- What a token call may return for the payment to count. -/
def TokenOk (ret : Bytes) : Prop := ret = [] ∨ Abi.decodeBool ret = some true

/-- The call that pays. -/
def payMsg (msg : Msg) (token recipient : Address) (amount : Word) : Msg :=
  msg.callTo token 0 (.transfer recipient amount)

/-- The signed string determines the domain and the hash of the structure. -/
theorem Eip712.signedBytes_inj {E : Env} {d d' : Word} {encoded encoded' : Bytes}
    (h : signedBytes E d encoded = signedBytes E d' encoded') :
    d = d' ∧ E.keccak256 encoded = E.keccak256 encoded' := by
  unfold signedBytes at h
  injection h with _ h
  injection h with _ h
  simpa using h

/-- The encoding of a request determines its fields, the data up to its hash. -/
theorem Wallet.getEncoded_inj {E : Env} {suffix suffix' : Word} {req req' : ForwardRequest}
    (h : getEncoded E suffix req = getEncoded E suffix' req') :
    suffix = suffix' ∧ E.keccak256 req.data = E.keccak256 req'.data ∧
      { req with data := [] } = { req' with data := [] } := by
  simp only [getEncoded, wordBytes_append_iff, wordBytes_iff, addressWord_iff] at h
  obtain ⟨-, hhub, hfrom, hto, htoken, hvalue, hgas, hnonce, hamount, htokenGas, hdata,
    hsuffix⟩ := h
  refine ⟨hsuffix, hdata, ?_⟩
  rw [hhub, hfrom, hto, htoken, hvalue, hgas, hnonce, hamount, htokenGas]

section Rules

variable (S : Spec (World χ) Msg Revert Bytes) (c : ChainConf χ) (msg : Msg)

@[simp] theorem wp_checkSignature (E : Env) (domainSeparator : Word) (encoded sig : Bytes)
    (signer : Address) (Q : Unit → ChainConf χ → Prop) :
    wp S (Eip712.checkSignature E msg domainSeparator encoded sig signer) Q c ↔
      (Eip712.Signs E msg.self domainSeparator encoded sig signer → Q () c) := by
  unfold Eip712.checkSignature
  simp only [Prog.bind_eq, wp_bind, wp_require, wp_recoverSigner]
  constructor
  · rintro h ⟨hdomain, hrecovered, hkey⟩
    refine h hdomain signer hrecovered ?_
    unfold RSKAddrValidator.safeEquals
    unfold RSKAddrValidator.checkPKNotZero at hkey
    rw [beq_self_eq_true, Bool.true_and]
    exact hkey
  · intro h hdomain signer' hrecovered hequal
    obtain ⟨rfl, hne, hzero⟩ := (RSKAddrValidator.safeEquals_iff _ _).mp hequal
    refine h ⟨hdomain, hrecovered, ?_⟩
    simp only [RSKAddrValidator.checkPKNotZero, Bool.and_eq_true, bne_iff_ne, ne_eq]
    exact ⟨hne, hzero⟩

@[simp] theorem wp_payToken (token : Address) (tokenGas : Word) (recipient : Address)
    (amount : Word) (reason : String) (Q : Unit → ChainConf χ → Prop) :
    wp S (payToken msg token tokenGas recipient amount reason) Q c ↔
      S.pre (payMsg msg token recipient amount) c ∧
        ∀ ret c', S.post (payMsg msg token recipient amount) (.ok ret) c c' →
          TokenOk ret → Q () c' := by
  unfold payToken
  simp only [Prog.bind_eq, wp_bind, wp_lowLevelCall, wp_require, wp_whenever, wp_orRevert]
  refine and_congr Iff.rfl ⟨fun h ret c' hpost hok => ?_, fun h r c' hpost => ?_⟩
  · have hret := h (.ok ret) c' hpost rfl
    rcases hok with rfl | hok
    · exact hret.2 (by simp [callResult])
    · by_cases hlen : ret.length = 0
      · exact hret.2 (by simpa [callResult] using hlen)
      · exact hret.1 (by simpa [callResult] using hlen) true hok rfl
  · cases r with
    | error e => intro hfail; cases hfail
    | ok ret =>
        intro _
        constructor
        · intro _ ok hdecode hok
          exact h ret c' hpost (Or.inr (hok ▸ hdecode))
        · intro hlen
          refine h ret c' hpost (Or.inl ?_)
          simpa [callResult] using hlen

@[simp] theorem wp_sweep (dest : Address) (Q : Unit → ChainConf χ → Prop) :
    wp S (Wallet.sweep msg dest) Q c ↔
      (0 < BitVec.ofNat 256 (c.state.balance msg.self) →
        S.pre (msg.callTo dest (BitVec.ofNat 256 (c.state.balance msg.self)) .empty) c ∧
          ∀ ret c', S.post (msg.callTo dest (BitVec.ofNat 256 (c.state.balance msg.self)) .empty)
            (.ok ret) c c' → Q () c') ∧
      (¬ 0 < BitVec.ofNat 256 (c.state.balance msg.self) → Q () c) := by
  unfold Wallet.sweep
  simp only [Prog.bind_eq, wp_bind, wp_selfBalance, wp_whenever, wp_transferTo]

end Rules

/-! ## Calls -/

/-- `J` survives the calls of the frame `msg`. -/
def CallsKeep (S : Spec (World χ) Msg Revert Bytes) (msg : Msg) (J : ChainConf χ → Prop) : Prop :=
  ∀ c dest value data, J c → S.pre (msg.callTo dest value data) c ∧
    ∀ r c', S.post (msg.callTo dest value data) r c c' → J c'

section Calls

variable {S : Spec (World χ) Msg Revert Bytes} {msg : Msg} {J : ChainConf χ → Prop}

theorem CallsKeep.call_rule (h : CallsKeep S msg J) {c : ChainConf χ} (hc : J c)
    (limit : Option Nat) (dest : Address) (value : Word) (data : CallData)
    {Q : Bool × Bytes → ChainConf χ → Prop} (hQ : ∀ r c', J c' → Q r c') :
    wp S (lowLevelCall msg limit dest value data) Q c := by
  obtain ⟨hpre, hpost⟩ := h c dest value data hc
  exact (wp_lowLevelCall S c msg limit dest value data Q).mpr
    ⟨hpre, fun r c' hr => hQ _ _ (hpost r c' hr)⟩

theorem CallsKeep.sweep_rule (h : CallsKeep S msg J) {c : ChainConf χ} (hc : J c) (dest : Address)
    {Q : Unit → ChainConf χ → Prop} (hQ : ∀ c', J c' → Q () c') :
    wp S (Wallet.sweep msg dest) Q c := by
  rw [wp_sweep]
  obtain ⟨hpre, hpost⟩ := h c dest (BitVec.ofNat 256 (c.state.balance msg.self)) .empty hc
  exact ⟨fun _ => ⟨hpre, fun ret c' hr => hQ _ (hpost _ _ hr)⟩, fun _ => hQ _ hc⟩

theorem CallsKeep.recover_rule (h : CallsKeep S msg J) (E : Env) {c : ChainConf χ} (hc : J c)
    (destinationContract : Address) (data : Bytes) :
    wp S (Wallet.recoverCall E msg destinationContract data) (fun _ c' => J c') c := by
  have hsweep : ∀ (result : Bool × Bytes) c', J c' →
      wp S ((Wallet.sweep msg msg.sender : Sol χ Unit).bind fun _ => .ret result)
        (fun _ c' => J c') c' := by
    intro result c' hc'
    rw [wp_bind]
    exact h.sweep_rule hc' _ fun _ hc'' => hc''
  by_cases hdest : destinationContract ≠ 0
  · have heq : (Wallet.recoverCall E msg destinationContract data : Sol χ (Bool × Bytes)) =
        (lowLevelCall msg none destinationContract msg.value (E.abiDecode data)).bind fun result =>
          (Wallet.sweep msg msg.sender).bind fun _ => .ret result := by
      unfold Wallet.recoverCall
      rw [if_pos hdest]
      rfl
    rw [heq, wp_bind]
    exact h.call_rule hc _ _ _ _ fun r c' hc' => hsweep r c' hc'
  · have heq : (Wallet.recoverCall E msg destinationContract data : Sol χ (Bool × Bytes)) =
        (Wallet.sweep msg msg.sender).bind fun _ => .ret (false, []) := by
      unfold Wallet.recoverCall
      rw [if_neg hdest]
      rfl
    rw [heq]
    exact hsweep _ c hc

end Calls

/-! ## The functions -/

namespace Wallet

/-- The checks that `execute` makes in the wallet with the storage `wallet`. -/
structure Accepts (E : Env) (msg : Msg) (wallet : Wallet) (domainSeparator suffixData : Word)
    (req : ForwardRequest) (sig : Bytes) : Prop where
  caller : msg.sender = req.relayHub
  owner : wallet.owner = ownerCell E req.from
  nonce : wallet.nonce = req.nonce
  signed : Eip712.Signs E msg.self domainSeparator (getEncoded E suffixData req) sig req.from

/-- The payment of the relay worker for a request. -/
def payment (msg : Msg) (req : ForwardRequest) : Msg :=
  payMsg msg req.tokenContract msg.tx.origin req.tokenAmount

variable {S : Spec (World χ) Msg Revert Bytes} {E : Env} {msg : Msg} {c : ChainConf χ}

theorem wp_verifySig {domainSeparator suffixData : Word} {req : ForwardRequest} {sig : Bytes}
    {Q : Unit → ChainConf χ → Prop}
    (h : (c.state.wallets msg.self).owner = ownerCell E req.from →
      (c.state.wallets msg.self).nonce = req.nonce →
      Eip712.Signs E msg.self domainSeparator (getEncoded E suffixData req) sig req.from →
        Q () c) :
    wp S (verifySig E msg domainSeparator suffixData req sig) Q c := by
  unfold verifySig
  simp only [Prog.bind_eq, wp_bind, wp_wallet_storage, wp_require, wp_checkSignature]
  exact h

end Wallet

namespace SmartWallet

open Wallet

variable {S : Spec (World χ) Msg Revert Bytes} {E : Env} {msg : Msg} {c : ChainConf χ}
  {J : ChainConf χ → Prop}

/-- The storage with the next nonce. -/
def nextNonce (wallet : Wallet) : Wallet := { wallet with nonce := wallet.nonce + 1 }

/-- The storage of an initialised wallet. -/
def withOwner (E : Env) (wallet : Wallet) (owner : Address) : Wallet :=
  { wallet with owner := ownerCell E owner }

/-- The state after a write to the storage of the running wallet. -/
def written (msg : Msg) (f : Wallet → Wallet) (c : ChainConf χ) : ChainConf χ :=
  c.put (c.state.setWallet msg.self (f (c.state.wallets msg.self)))

/-- **What the code of a smart wallet does.** `J` holds at the end if it survives calls and
holds at the start of a function that does not write, and from the first call on, or at the
end, of one that does. -/
theorem wp_smartWallet_code (hcalls : CallsKeep S msg J)
    (hquiet : (∀ dom suffix req sig, msg.data ≠ .execute dom suffix req sig) →
      (∀ owner token recipient amount gas,
        msg.data ≠ .initializeWallet owner token recipient amount gas) → J c)
    (hexecute : ∀ dom suffix req sig, msg.data = .execute dom suffix req sig →
      Accepts E msg (c.state.wallets msg.self) dom suffix req sig →
      (0 < req.tokenAmount → S.pre (payment msg req) (written msg nextNonce c) ∧
        ∀ ret c', S.post (payment msg req) (.ok ret) (written msg nextNonce c) c' → J c') ∧
      (¬ 0 < req.tokenAmount → J (written msg nextNonce c)))
    (hinit : ∀ owner token recipient amount gas,
      msg.data = .initializeWallet owner token recipient amount gas →
      (c.state.wallets msg.self).owner = 0 →
      (0 < amount → S.pre (payMsg msg token recipient amount)
          (written msg (withOwner E · owner) c) ∧
        ∀ ret c', S.post (payMsg msg token recipient amount) (.ok ret)
          (written msg (withOwner E · owner) c) c' → J c') ∧
      (¬ 0 < amount → J (written msg (withOwner E · owner) c))) :
    wp S (code E msg) (fun _ c' => J c') c := by
  unfold code
  split
  next hdata => exact hquiet (by simp [hdata]) (by simp [hdata])
  next dom suffix req sig hdata =>
    simp only [verify, Prog.bind_eq, Prog.pure_eq, wp_bind, wp_nonPayable, wp_ret]
    intro _
    exact wp_verifySig fun _ _ _ => hquiet (by simp [hdata]) (by simp [hdata])
  next owner factory swTemplate destinationContract index data hdata =>
    simp only [recover, Prog.bind_eq, Prog.pure_eq, wp_bind, wp_require, wp_ret]
    intro _
    exact hcalls.recover_rule E (hquiet (by simp [hdata]) (by simp [hdata])) _ _
  next dest data hdata =>
    simp only [directExecute, Prog.bind_eq, Prog.pure_eq, wp_bind, wp_wallet_storage, wp_require,
      wp_ret]
    intro _
    refine hcalls.call_rule (hquiet (by simp [hdata]) (by simp [hdata])) _ _ _ _ ?_
    exact fun _ c' hc' => hcalls.sweep_rule hc' _ fun _ hc'' => hc''
  next dom suffix req sig hdata =>
    simp only [execute, Prog.bind_eq, Prog.pure_eq, wp_bind, wp_require, wp_wallet_modifyStorage,
      wp_whenever, wp_payToken, wp_gas, wp_ret]
    intro hcaller
    refine wp_verifySig fun howner hnonce hsigned => ?_
    obtain ⟨hpay, hfree⟩ := hexecute dom suffix req sig hdata ⟨hcaller, howner, hnonce, hsigned⟩
    -- the rest of the function: the destination, then what is left goes to the owner
    have hrest : ∀ c', J c' → ∀ g : Nat, req.gas.toNat < g →
        wp S (lowLevelCall msg (some req.gas.toNat) req.to req.value (E.abiDecode req.data))
          (fun _ c'' => wp S (sweep msg req.from) (fun _ c₃ => J c₃) c'') c' := by
      intro c' hc' g _
      exact hcalls.call_rule hc' _ _ _ _ fun _ c'' hc'' => hcalls.sweep_rule hc'' _ fun _ h => h
    constructor
    · intro hamount
      obtain ⟨hpre, hpost⟩ := hpay hamount
      exact ⟨hpre, fun ret c' hr _ => hrest c' (hpost ret c' hr)⟩
    · intro hamount
      exact hrest _ (hfree hamount)
  next owner token recipient amount gas hdata =>
    simp only [initializeWallet, Prog.bind_eq, Prog.pure_eq, wp_bind, wp_nonPayable,
      wp_wallet_storage, wp_require, wp_wallet_modifyStorage, wp_whenever, wp_payToken, wp_ret]
    intro _ howner
    obtain ⟨hpay, hfree⟩ := hinit owner token recipient amount gas hdata howner
    refine ⟨fun hamount => ?_, hfree⟩
    obtain ⟨hpre, hpost⟩ := hpay hamount
    exact ⟨hpre, fun ret c' hr _ => hpost ret c' hr⟩
  next => exact trivial

end SmartWallet

end RifRelay
