import RifRelay.Contracts.Frames

set_option autoImplicit false

/-! # Proof rules for contracts and for runs

The weakest preconditions of the primitives, so that a proof about a contract never unfolds
them, and the two rules every result about runs is proved with:

* `wp_foreign` — a frame of an account that a property is not about keeps the property;
* `Settled.of_meets`, `Point.of_meets` — a specification that all code meets holds at every
  point of every run.
-/

namespace RifRelay

open CallMachine

variable {χ : Type}

/-! ## Primitives -/

section Primitives

variable (S : Spec (World χ) Msg Revert Bytes) (c : ChainConf χ) (msg : Msg)

@[simp] theorem wp_require (p : Prop) [Decidable p] (reason : String)
    (Q : Unit → ChainConf χ → Prop) : wp S (require p reason) Q c ↔ (p → Q () c) :=
  wp_assert S c p _ Q

@[simp] theorem wp_nonPayable (Q : Unit → ChainConf χ → Prop) :
    wp S (nonPayable msg) Q c ↔ (msg.value = 0 → Q () c) := wp_assert S c _ _ Q

@[simp] theorem wp_whenever (p : Prop) [Decidable p] (body : Sol χ Unit)
    (Q : Unit → ChainConf χ → Prop) :
    wp S (whenever p body) Q c ↔ (p → wp S body Q c) ∧ (¬ p → Q () c) := by
  unfold whenever
  by_cases hp : p <;> simp [hp]

@[simp] theorem wp_emit (self : Address) (e : Event) (Q : Unit → ChainConf χ → Prop) :
    wp S (emit self e) Q c ↔
      Q () (c.put { c.state with logs := c.state.logs ++ [(self, e)] }) := Iff.rfl

@[simp] theorem wp_orRevert {α : Type} (o : Option α) (Q : α → ChainConf χ → Prop) :
    wp S (orRevert o) Q c ↔ ∀ a, o = some a → Q a c := by
  cases o <;> simp [orRevert]

@[simp] theorem wp_recoverSigner (E : Env) (digest : Word) (sig : Bytes)
    (Q : Address → ChainConf χ → Prop) :
    wp S (recoverSigner E digest sig) Q c ↔
      ∀ signer, E.recover digest sig = .ok signer → Q signer c := by
  unfold recoverSigner
  cases E.recover digest sig <;> simp

@[simp] theorem wp_bubble (r : Except Revert Bytes) (Q : Bytes → ChainConf χ → Prop) :
    wp S (bubble r) Q c ↔ ∀ ret, r = .ok ret → Q ret c := by
  cases r <;> simp [bubble]

@[simp] theorem wp_lowLevelCall (limit : Option Nat) (dest : Address) (value : Word)
    (data : CallData) (Q : Bool × Bytes → ChainConf χ → Prop) :
    wp S (lowLevelCall msg limit dest value data) Q c ↔
      S.pre (msg.callTo dest value data) c ∧
        ∀ r c', S.post (msg.callTo dest value data) r c c' → Q (callResult r) c' := Iff.rfl

@[simp] theorem wp_lowLevelDelegatecall (codeAddress : Address) (data : CallData)
    (Q : Bool × Bytes → ChainConf χ → Prop) :
    wp S (lowLevelDelegatecall msg codeAddress data) Q c ↔
      S.pre (msg.delegatecallTo codeAddress data) c ∧
        ∀ r c', S.post (msg.delegatecallTo codeAddress data) r c c' →
          Q (callResult r) c' := Iff.rfl

@[simp] theorem wp_transferTo (dest : Address) (amount : Word)
    (Q : Unit → ChainConf χ → Prop) :
    wp S (transferTo msg dest amount) Q c ↔
      S.pre (msg.callTo dest amount .empty) c ∧
        ∀ ret c', S.post (msg.callTo dest amount .empty) (.ok ret) c c' → Q () c' := by
  unfold transferTo
  simp only [wp_bind, wp_send, wp_bubble, wp_ret]
  refine and_congr Iff.rfl ?_
  constructor
  · intro h ret c' hpost
    exact h (.ok ret) c' hpost ret rfl
  · rintro h r c' hpost ret rfl
    exact h ret c' hpost

@[simp] theorem wp_selfBalance (Q : Word → ChainConf χ → Prop) :
    wp S (selfBalance msg) Q c ↔ Q (BitVec.ofNat 256 (c.state.balance msg.self)) c := Iff.rfl

@[simp] theorem wp_hub_storage (Q : RelayHub → ChainConf χ → Prop) :
    wp S (RelayHub.storage msg) Q c ↔ Q (c.state.hubs msg.self) c := Iff.rfl

/-- The world with another storage of the hub at `addr`. -/
def World.setHub (w : World χ) (addr : Address) (hub : RelayHub) : World χ :=
  { w with hubs := Function.update w.hubs addr hub }

@[simp] theorem World.setHub_self (w : World χ) (addr : Address) :
    w.setHub addr (w.hubs addr) = w := by
  simp only [World.setHub, Function.update_eq_self]

@[simp] theorem wp_hub_modifyStorage (f : RelayHub → RelayHub)
    (Q : Unit → ChainConf χ → Prop) :
    wp S (RelayHub.modifyStorage msg f) Q c ↔
      Q () (c.put (c.state.setHub msg.self (f (c.state.hubs msg.self)))) := Iff.rfl

@[simp] theorem wp_requireManagerStaked (relayManager : Address)
    (Q : Unit → ChainConf χ → Prop) :
    wp S (RelayHub.requireManagerStaked msg relayManager) Q c ↔
      ((c.state.hubs msg.self).isRelayManagerStaked relayManager = true → Q () c) := by
  unfold RelayHub.requireManagerStaked
  simp only [Prog.bind_eq, wp_bind, wp_hub_storage, wp_require]

/-- The world with another storage of the wallet at `addr`. -/
def World.setWallet (w : World χ) (addr : Address) (wallet : Wallet) : World χ :=
  { w with wallets := Function.update w.wallets addr wallet }

@[simp] theorem World.setWallet_self (w : World χ) (addr : Address) :
    w.setWallet addr (w.wallets addr) = w := by
  simp only [World.setWallet, Function.update_eq_self]

@[simp] theorem wp_wallet_storage (Q : Wallet → ChainConf χ → Prop) :
    wp S (Wallet.storage msg) Q c ↔ Q (c.state.wallets msg.self) c := Iff.rfl

@[simp] theorem wp_wallet_modifyStorage (f : Wallet → Wallet)
    (Q : Unit → ChainConf χ → Prop) :
    wp S (Wallet.modifyStorage msg f) Q c ↔
      Q () (c.put (c.state.setWallet msg.self (f (c.state.wallets msg.self)))) := Iff.rfl

@[simp] theorem wp_penalizer_storage (Q : Penalizer → ChainConf χ → Prop) :
    wp S (Penalizer.storage msg) Q c ↔ Q (c.state.penalizers msg.self) c := Iff.rfl

/-- The world with another storage of the penalizer at `addr`. -/
def World.setPenalizer (w : World χ) (addr : Address) (penalizer : Penalizer) : World χ :=
  { w with penalizers := Function.update w.penalizers addr penalizer }

@[simp] theorem wp_penalizer_modifyStorage (f : Penalizer → Penalizer)
    (Q : Unit → ChainConf χ → Prop) :
    wp S (Penalizer.modifyStorage msg f) Q c ↔
      Q () (c.put (c.state.setPenalizer msg.self (f (c.state.penalizers msg.self)))) := Iff.rfl

end Primitives

/-! ## Frames of other accounts -/

/-- A frame keeps what its own writes, the messages it can send and their answers keep. -/
theorem wp_foreign {E : Env} {O : Outside E χ} {S : Spec (World χ) Msg Revert Bytes}
    {J : ChainConf χ → Prop} {msg : Msg} {w : World χ}
    (hwrite : ∀ c s, J c → LocalStep E msg c.state s → J (c.put s))
    (hsend : ∀ m c, LocalCall msg m → J c → S.pre m c)
    (hback : ∀ m r c c', LocalCall msg m → J c → S.post m r c c' → J c')
    (c : ChainConf χ) (hc : J c) : wp S (codeOf E O msg w) (fun _ c' => J c') c :=
  wp_within hwrite hsend hback (within_codeOf E msg O w) c hc

/-! ## Runs -/

section Runs

variable {E : Env} {O : Outside E χ} {w : World χ}
  {S : TxContext → Spec (World χ) Msg Revert Bytes} {I : Word → ChainConf χ → Prop}

/-- What it takes for `I` to hold between all transactions: it holds at the start, time and
the accounts without code keep it, and transactions keep it when their code meets `S`. -/
structure Keeps (E : Env) (O : Outside E χ) (w : World χ)
    (S : TxContext → Spec (World χ) Msg Revert Bytes) (I : Word → ChainConf χ → Prop) :
    Prop where
  meets : ∀ t, Meets (machine E O) (S t)
  start : ∀ b, I b (Conf.start w)
  wait : ∀ b b' c, b ≤ b' → I b c → I b' c
  write : ∀ b c (msg : Msg) s, I b c → E.codeless msg.self = true →
    LocalStep E msg c.state s → I b (c.put s)
  call : ∀ b c (tx : Tx), I b c → b ≤ tx.blockNumber → E.codeless tx.origin = true →
    (S tx.msg.tx).pre tx.msg c
  back : ∀ b c (tx : Tx) r c', I b c → b ≤ tx.blockNumber → E.codeless tx.origin = true →
    (S tx.msg.tx).post tx.msg r c c' → I tx.blockNumber c'

/-- A message of an account without code, to say which writes are its own. -/
def Msg.ofAccount (a : Address) : Msg := ⟨.call, a, a, a, 0, .empty, ⟨a, 0, 0⟩⟩

theorem Settled.of_keeps (h : Keeps E O w S I) {b : Word} {c : ChainConf χ}
    (hc : Settled E O w b c) : I b c := by
  induction hc with
  | start b => exact h.start b
  | wait _ b' hb ih => exact h.wait _ b' _ hb ih
  | call _ tx depth hb horigin ih =>
      have hpre := h.call _ _ tx ih hb horigin
      exact h.back _ _ tx _ _ ih hb horigin (exec_spec (h.meets _) depth _ _ _ _ hpre)
  | create _ origin creation horigin hcr hvacant ih =>
      exact h.write _ _ (Msg.ofAccount origin) _ ih horigin
        (@LocalStep.install χ E (Msg.ofAccount origin) _ ⟨.other, creation⟩ hcr hvacant)
  | fee _ payer dest v hpayer hne hv ih =>
      exact h.write _ _ (Msg.ofAccount payer) _ ih hpayer
        (@LocalStep.force χ E (Msg.ofAccount payer) _ dest v hne hv)

/-- The points of a run: `I` holds between transactions, and every message is sent as the
specification demands. -/
theorem Point.of_keeps (h : Keeps E O w S I) {b : Word} {point : Option Msg} {c : ChainConf χ}
    (hc : Point E O w b point c) :
    (point = none ∧ I b c) ∨ ∃ m t, point = some m ∧ t.blockNumber = b ∧ (S t).pre m c := by
  cases hc with
  | settled hset => exact Or.inl ⟨rfl, hset.of_keeps h⟩
  | inside hset tx depth hb horigin hv =>
      have hpre := h.call _ _ tx (hset.of_keeps h) hb horigin
      exact Or.inr ⟨_, tx.msg.tx, rfl, rfl, visits_spec (h.meets _) depth _ _ _ _ hpre _ _ hv⟩

end Runs

end RifRelay
