import RifRelay.Contracts.PenalizerChecks
import RifRelay.Server.NonceGaps

set_option autoImplicit false

/-! # Which transactions of the server conflict

The penalizer takes two transactions of one worker with one nonce for an offence when they differ
in more than the gas price. A process of the server gives no nonce to two transactions, and a
stored transaction that is signed again keeps its destination, its data and its gas
(`Booked.candid`). But it loses its value. So the server is in danger just where it boosts a
transfer of value (`conflicts_iff`).
-/

namespace RifRelay.Server

open EventLoop TransactionManager CallMachine

/-! ## Signatures with one key -/

/-- Two signatures are for the same account and nonce. -/
def Signature.SameKey (s s' : Signature) : Prop :=
  s.signedTx.signer = s'.signedTx.signer ∧
    s.signedTx.transaction.nonce = s'.signedTx.transaction.nonce

/-- One of them is a transfer of value, and the other one has signed it again. -/
def Signature.Conflicts (s s' : Signature) : Prop :=
  s.resent ≠ s'.resent ∧ (s.signedTx.transaction.value ≠ 0 ∨ s'.signedTx.transaction.value ≠ 0)

instance (s s' : Signature) : Decidable (s.SameKey s') := inferInstanceAs (Decidable (_ ∧ _))

instance (s s' : Signature) : Decidable (s.Conflicts s') := inferInstanceAs (Decidable (_ ∧ _))

/-- They agree in everything but the gas price and the value, and altogether if both are new. -/
structure Signature.Agrees (s s' : Signature) : Prop where
  dest : s.signedTx.transaction.to = s'.signedTx.transaction.to
  data : s.signedTx.transaction.data = s'.signedTx.transaction.data
  gasLimit : s.signedTx.transaction.gasLimit = s'.signedTx.transaction.gasLimit
  once : s.resent = false → s'.resent = false → s.signedTx = s'.signedTx

section Agreement

variable {s s' : Signature}

theorem Signature.Agrees.refl (s : Signature) : s.Agrees s := ⟨rfl, rfl, rfl, fun _ _ => rfl⟩

theorem Signature.Agrees.symm (h : s.Agrees s') : s'.Agrees s :=
  ⟨h.dest.symm, h.data.symm, h.gasLimit.symm, fun hs hs' => (h.once hs' hs).symm⟩

theorem Signature.SameKey.symm (h : s.SameKey s') : s'.SameKey s := ⟨h.1.symm, h.2.symm⟩

/-- If what is signed again has no value, two signatures that agree conflict when their values
differ, and then only. -/
theorem Signature.Agrees.conflict_of_values (h : s.Agrees s')
    (hs : s.resent = true → s.signedTx.transaction.value = 0)
    (hs' : s'.resent = true → s'.signedTx.transaction.value = 0) :
    s.Conflicts s' ↔ s.signedTx.transaction.value ≠ s'.signedTx.transaction.value := by
  unfold Signature.Conflicts
  cases hr : s.resent <;> cases hr' : s'.resent
  · have heq := h.once hr hr'
    simp [heq]
  · simp [hs' hr']
  · simp [hs hr, eq_comm]
  · simp [hs hr, hs' hr']

end Agreement

/-! ## The invariant -/

/-- The process is not started again, and `resendTransaction` is called for documents only. -/
def Candidly (b : Books) (e : LogEntry) : Prop :=
  match e with
  | .called _ (.resendTransaction tx _ _) => tx ∈ b.txstore
  | .restarted => False
  | _ => True

instance (b : Books) (e : LogEntry) : Decidable (Candidly b e) :=
  match e with
  | .called _ (.resendTransaction _ _ _) => inferInstanceAs (Decidable (_ ∈ _))
  | .called _ (.createRelayTransaction _) | .called _ .intervalHandler
  | .called _ (.readyTimeout _) | .called _ (.sendTransaction _) | .called _ (.pollNonce _)
  | .called _ (.boostUnderpricedPendingTransactionsForSigner _ _)
  | .called _ (.replenishServer _) => isTrue trivial
  | .restarted => isFalse id
  | .asked _ _ | .answered _ _ _ | .ended _ _ => isTrue trivial

/-- The counters are above what was signed, also the nonce that is about to be assigned, and
signatures with one key agree. -/
structure Candid (cfg : Config) (b : Books) (φ : Stage) : Prop where
  counters : ∀ signer, cfg.isSigner signer → ∃ own, b.nonces signer = some own
  below : ∀ s ∈ b.signatures, cfg.isSigner s.signedTx.signer ∧
    ∀ own, b.nonces s.signedTx.signer = some own → s.signedTx.transaction.nonce < own
  polled : ∀ signer nonce, φ = .polled signer nonce →
    (∀ s ∈ b.signatures, s.signedTx.signer = signer → s.signedTx.transaction.nonce < nonce.getD 0) ∧
    ∀ own, b.nonces signer = some own → nonce.getD 0 ≤ own
  valueless : ∀ s ∈ b.signatures, s.resent = true → s.signedTx.transaction.value = 0
  agree : ∀ s ∈ b.signatures, ∀ s' ∈ b.signatures, s.SameKey s' → s.Agrees s'
  called : ∀ i tx n p, .called i (.resendTransaction tx n p) ∈ b.log → Traced cfg b.signatures tx

variable {cfg : Config} {b b' : Books} {φ φ' : Stage}

theorem Candid.new : Candid cfg (.new cfg) .idle where
  counters _ h := ⟨0, if_pos h⟩
  below _ hs := (List.not_mem_nil hs).elim
  polled _ _ h := Stage.noConfusion h
  valueless _ hs := (List.not_mem_nil hs).elim
  agree _ hs := (List.not_mem_nil hs).elim
  called _ _ _ _ h := (List.not_mem_nil h).elim

/-- Neither counters nor signatures change, and nothing is about to be assigned. -/
theorem Candid.same (h : Candid cfg b φ) (hnonces : b'.nonces = b.nonces)
    (hsignatures : b'.signatures = b.signatures)
    (hstage : φ' = φ ∨ ∀ signer nonce, φ' ≠ .polled signer nonce)
    (hlog : ∀ i tx n p, .called i (.resendTransaction tx n p) ∈ b'.log →
      .called i (.resendTransaction tx n p) ∈ b.log) : Candid cfg b' φ' where
  counters := hnonces ▸ h.counters
  below := hsignatures ▸ hnonces ▸ h.below
  polled signer nonce hφ := by
    rcases hstage with rfl | hnone
    · exact hsignatures ▸ hnonces ▸ h.polled signer nonce hφ
    · exact (hnone signer nonce hφ).elim
  valueless := hsignatures ▸ h.valueless
  agree := hsignatures ▸ h.agree
  called i tx n p hcall := hsignatures ▸ h.called i tx n p (hlog i tx n p hcall)

/-- An entry that is no call. -/
theorem called_snoc {log : Log} {e : LogEntry} (he : ∀ i c, e ≠ .called i c) (i : ℕ)
    (tx : StoredTransaction) (n : Nat) (p : Doubles.Number)
    (h : .called i (.resendTransaction tx n p) ∈ log ++ [e]) :
    .called i (.resendTransaction tx n p) ∈ log := by
  rcases List.mem_append.mp h with h | h
  · exact h
  · exact (he i _ (List.mem_singleton.mp h).symm).elim

theorem answered_ne_called {j : ℕ} {q : Question} {a : Except String (Answer q)} (i : ℕ)
    (c : Call) :
    (.answered j q a : LogEntry) ≠ .called i c := by
  intro h
  cases h

/-- A counter that is lifted only gets larger. -/
theorem lift_nonces (signer : Address) (nonce : Nat) (s : Address) :
    (b.lift signer nonce).nonces s = b.nonces s ∨ ∃ own, b.nonces s = some own ∧
      (b.lift signer nonce).nonces s = some nonce ∧ own < nonce := by
  unfold Books.lift
  split
  next own hown =>
    split
    next hlt =>
      by_cases hs : s = signer
      · subst hs
        exact Or.inr ⟨own, hown, Function.update_self _ _ _, hlt⟩
      · exact Or.inl (Function.update_of_ne hs _ _)
    next => exact Or.inl rfl
  next => exact Or.inl rfl

theorem Candid.lift (h : Candid cfg b φ) (signer : Address) (nonce : Nat) :
    Candid cfg (b.lift signer nonce) φ where
  counters s hs := by
    rcases lift_nonces signer nonce s with hsame | ⟨own, -, hlifted, -⟩
    · rw [hsame]
      exact h.counters s hs
    · exact ⟨nonce, hlifted⟩
  below s hs := by
    rw [lift_signatures] at hs
    obtain ⟨hsigner, hbelow⟩ := h.below s hs
    refine ⟨hsigner, fun own' hown' => ?_⟩
    rcases lift_nonces signer nonce s.signedTx.signer with hsame | ⟨own, hown, hlifted, hlt⟩
    · exact hbelow own' (hsame ▸ hown')
    · rw [hlifted] at hown'
      obtain rfl := Option.some.inj hown'
      exact (hbelow own hown).trans hlt
  polled s n hφ := by
    obtain ⟨hbelow, hle⟩ := h.polled s n hφ
    rw [lift_signatures]
    refine ⟨hbelow, fun own' hown' => ?_⟩
    rcases lift_nonces signer nonce s with hsame | ⟨own, hown, hlifted, hlt⟩
    · exact hle own' (hsame ▸ hown')
    · rw [hlifted] at hown'
      obtain rfl := Option.some.inj hown'
      exact (hle own hown).trans hlt.le
  valueless := by
    rw [lift_signatures]
    exact h.valueless
  agree := by
    rw [lift_signatures]
    exact h.agree
  called := by
    rw [lift_log, lift_signatures]
    exact h.called

/-- A document that is signed again keeps its key, and what is signed agrees with what was. -/
theorem Candid.resign (h : Candid cfg b φ) {tx : StoredTransaction} (gasPrice : Nat)
    (htx : Traced cfg b.signatures tx) :
    Candid cfg (b.resign ⟨tx.from, repriced tx gasPrice⟩) φ := by
  obtain ⟨s₀, hs₀, hrecords, hfrom⟩ := htx
  have hnonce : tx.nonce = s₀.signedTx.transaction.nonce := congrArg (·.nonce) hrecords
  have hdest : tx.to = s₀.signedTx.transaction.to := congrArg (·.to) hrecords
  have hdata : tx.data = s₀.signedTx.transaction.data := congrArg (·.data) hrecords
  have hgas : tx.gas = s₀.signedTx.transaction.gasLimit := congrArg (·.gas) hrecords
  have hold {s : Signature} (hs : s ∈ b.signatures)
      (hkey : s.SameKey ⟨true, tx.from, repriced tx gasPrice⟩) :
      s.Agrees ⟨true, tx.from, repriced tx gasPrice⟩ := by
    have hagree := h.agree s hs s₀ hs₀ ⟨hkey.1.trans hfrom, hkey.2.trans hnonce⟩
    exact ⟨hagree.dest.trans hdest.symm, hagree.data.trans hdata.symm,
      hagree.gasLimit.trans hgas.symm, fun _ hresent => Bool.noConfusion hresent⟩
  refine ⟨h.counters, fun s hs => ?_, fun signer nonce hφ => ?_, fun s hs => ?_,
    fun s hs s' hs' hkey => ?_, fun i tx' n p hcall => (h.called i tx' n p hcall).mono
      (List.subset_append_left _ _)⟩
  · rcases List.mem_append.mp hs with hs | hs
    · exact h.below s hs
    · obtain rfl := List.mem_singleton.mp hs
      obtain ⟨hsigner, hbelow⟩ := h.below s₀ hs₀
      exact ⟨hfrom ▸ hsigner, fun own hown => hnonce.trans_lt (hbelow own (hfrom ▸ hown))⟩
  · obtain ⟨hbelow, hle⟩ := h.polled signer nonce hφ
    refine ⟨fun s hs hsigner => ?_, hle⟩
    rcases List.mem_append.mp hs with hs | hs
    · exact hbelow s hs hsigner
    · obtain rfl := List.mem_singleton.mp hs
      exact hnonce.trans_lt (hbelow s₀ hs₀ (hfrom.symm.trans hsigner))
  · rcases List.mem_append.mp hs with hs | hs
    · exact h.valueless s hs
    · obtain rfl := List.mem_singleton.mp hs
      exact fun _ => rfl
  · rcases List.mem_append.mp hs with hs | hs <;> rcases List.mem_append.mp hs' with hs' | hs'
    · exact h.agree s hs s' hs' hkey
    · obtain rfl := List.mem_singleton.mp hs'
      exact hold hs hkey
    · obtain rfl := List.mem_singleton.mp hs
      exact (hold hs' hkey.symm).symm
    · obtain rfl := List.mem_singleton.mp hs
      obtain rfl := List.mem_singleton.mp hs'
      exact .refl _

/-- A new transaction gets a nonce that was not signed before. -/
theorem Candid.assign {nonce : Option Nat} {signedTx : SignedTransaction} {doc : StoredTransaction}
    (h : Candid cfg b (.polled signedTx.signer nonce)) (hsigner : cfg.isSigner signedTx.signer)
    (hnonce : signedTx.transaction.nonce = nonce.getD 0) :
    Candid cfg (b.assign signedTx) (.assigned doc) := by
  obtain ⟨hbelow, hle⟩ := h.polled _ _ rfl
  obtain ⟨own, hown⟩ := h.counters _ hsigner
  have hcounter (s : Address) : (b.assign signedTx).nonces s =
      if s = signedTx.signer then some (own + 1) else b.nonces s := by
    by_cases hs : s = signedTx.signer
    · rw [if_pos hs, hs]
      exact (Function.update_self _ _ _).trans (congrArg (Option.map (· + 1)) hown)
    · rw [if_neg hs]
      exact Function.update_of_ne hs _ _
  have hfresh {s : Signature} (hs : s ∈ b.signatures)
      (hkey : s.SameKey ⟨false, signedTx⟩) : False := by
    have hlt := hbelow s hs hkey.1
    have heq : s.signedTx.transaction.nonce = nonce.getD 0 := hkey.2.trans hnonce
    omega
  -- the new signature has the nonce above all others, so it agrees with itself only
  refine ⟨fun s hs => ?_, fun s hs => ?_, fun _ _ hφ => Stage.noConfusion hφ, fun s hs => ?_,
    fun s hs s' hs' hkey => ?_, fun i tx' n p hcall => (h.called i tx' n p hcall).mono
      (List.subset_append_left _ _)⟩
  · rw [hcounter]
    split
    · exact ⟨_, rfl⟩
    · exact h.counters s hs
  · rcases List.mem_append.mp hs with hs | hs
    · obtain ⟨hmanaged, hlt⟩ := h.below s hs
      refine ⟨hmanaged, fun own' hown' => ?_⟩
      rw [hcounter] at hown'
      split at hown'
      next heq =>
        obtain rfl := Option.some.inj hown'
        exact Nat.lt_succ_of_lt (hlt own (heq ▸ hown))
      next => exact hlt own' hown'
    · obtain rfl := List.mem_singleton.mp hs
      refine ⟨hsigner, fun own' hown' => ?_⟩
      rw [hcounter, if_pos rfl] at hown'
      obtain rfl := Option.some.inj hown'
      exact Nat.lt_succ_of_le (hnonce ▸ hle own hown)
  · rcases List.mem_append.mp hs with hs | hs
    · exact h.valueless s hs
    · obtain rfl := List.mem_singleton.mp hs
      exact fun hresent => Bool.noConfusion hresent
  · rcases List.mem_append.mp hs with hs | hs <;> rcases List.mem_append.mp hs' with hs' | hs'
    · exact h.agree s hs s' hs' hkey
    · obtain rfl := List.mem_singleton.mp hs'
      exact (hfresh hs hkey).elim
    · obtain rfl := List.mem_singleton.mp hs
      exact (hfresh hs' hkey.symm).elim
    · obtain rfl := List.mem_singleton.mp hs
      obtain rfl := List.mem_singleton.mp hs'
      exact .refl _

theorem Candid.step (h : Candid cfg b φ) (hdoc : Documented cfg b φ)
    (hstep : Booking cfg Candidly b φ b' φ') : Candid cfg b' φ' := by
  cases hstep with
  | mark e he =>
      refine h.same rfl rfl (.inl rfl) (called_snoc fun i c hcall => ?_)
      rw [hcall] at he
      cases he
  | call i c hR =>
      refine ⟨h.counters, h.below, h.polled, h.valueless, h.agree, fun j tx n p hcall => ?_⟩
      rcases List.mem_append.mp hcall with hcall | hcall
      · exact h.called j tx n p hcall
      · obtain ⟨-, rfl⟩ := EventLoop.Event.called.inj (List.mem_singleton.mp hcall)
        exact hdoc.store tx hR
  | answer i q a hq hcount hR =>
      exact h.same rfl rfl (.inl rfl) (called_snoc answered_ne_called)
  | lift signer nonce hn => exact h.lift signer nonce
  | remove i key hR =>
      exact h.same rfl rfl (.inl rfl) (called_snoc answered_ne_called)
  | update i txId tx htraced hkey hR =>
      exact h.same rfl rfl (.inl rfl) (called_snoc answered_ne_called)
  | putBack i tx hmutex htraced hfree hR =>
      exact h.same rfl rfl (.inl rfl) (called_snoc answered_ne_called)
  | resign tx gasPrice htx =>
      refine h.resign gasPrice ?_
      rcases htx with htraced | ⟨i, n, p, hcall⟩
      · exact htraced
      · exact h.called i tx n p hcall
  | acquire i hfree hR =>
      exact h.same rfl rfl (.inr fun _ _ => Stage.noConfusion)
        (called_snoc answered_ne_called)
  | count i signer n hmutex hR =>
      exact h.same rfl rfl (.inr fun _ _ => Stage.noConfusion) (called_snoc answered_ne_called)
  | poll signer n hle =>
      refine ⟨h.counters, h.below, fun signer' nonce hφ => ?_, h.valueless, h.agree, h.called⟩
      obtain ⟨rfl, rfl⟩ := Stage.polled.inj hφ
      refine ⟨fun s hs hsigner => ?_, fun own hown => by rw [hown]; exact le_rfl⟩
      obtain ⟨hmanaged, hlt⟩ := h.below s hs
      obtain ⟨own, hown⟩ := h.counters _ hmanaged
      have hpolled : b.nonces signer = some own := hsigner ▸ hown
      rw [hpolled]
      exact hlt own hown
  | assign nonce signedTx doc hsigner hnonce hdoc' => exact h.assign hsigner hnonce
  | insert i doc hmutex hfree hR =>
      exact h.same rfl rfl (.inr fun _ _ => Stage.noConfusion)
        (called_snoc answered_ne_called)
  | lose i doc q e hmutex hq hR =>
      exact h.same rfl rfl (.inr fun _ _ => Stage.noConfusion)
        (called_snoc answered_ne_called)
  | giveUp hφ => exact h.same rfl rfl (.inr fun _ _ => Stage.noConfusion) fun _ _ _ _ hcall => hcall
  | release => exact h.same rfl rfl (.inr fun _ _ => Stage.noConfusion) fun _ _ _ _ hcall => hcall
  | restart hR => exact hR.elim

/-- In every books that are kept candidly, signatures with one key agree. -/
theorem Booked.candid (h : Booked cfg Candidly b φ) : Candid cfg b φ := by
  induction h with
  | new => exact .new
  | step h hstep ih => exact ih.step h.documented hstep

/-! ## The result -/

variable {ν ω χ : Type} {N : Node ν ω} {node : ν}
  {p : Pool Call (Memory ν) Question Answer Reply} {s s' : Signature}

/-- What is signed does the same exactly if the values are equal. -/
theorem Signature.Agrees.sameAction_iff (h : s.Agrees s') (dest : Address)
    (hvalue : s.signedTx.transaction.value < 2 ^ 256)
    (hvalue' : s'.signedTx.transaction.value < 2 ^ 256) :
    Penalizer.SameAction (s.signedTx.transaction.unsigned cfg dest).transaction
        (s'.signedTx.transaction.unsigned cfg dest).transaction ↔
      s.signedTx.transaction.value = s'.signedTx.transaction.value := by
  have hword : BitVec.ofNat 256 s.signedTx.transaction.value =
      BitVec.ofNat 256 s'.signedTx.transaction.value ↔
      s.signedTx.transaction.value = s'.signedTx.transaction.value := by
    rw [← BitVec.toNat_inj, BitVec.toNat_ofNat, BitVec.toNat_ofNat, Nat.mod_eq_of_lt hvalue,
      Nat.mod_eq_of_lt hvalue']
  rw [← hword]
  constructor
  · exact fun hsame => hsame.2.2.2
  · exact fun heq => ⟨h.data, congrArg (BitVec.ofNat 256) h.gasLimit, rfl, heq⟩

/-- A server whose worker has the first of all keys. -/
def keyConfig : Config := { plainConfig with workerAddress := Penalizer.worker }

/-- The worker sends its funds to the owner. -/
abbrev payout : SendTransactionDetails :=
  ⟨Penalizer.worker, .VALUE_TRANSFER, none, some 0x0d, some 10, mintxgascost, some 10, 0⟩

abbrev paid : Transaction := ⟨0, 10, mintxgascost, some 0x0d, 10, []⟩

abbrev boosted : Transaction := ⟨0, 12, mintxgascost, some 0x0d, 0, []⟩

/-- What is stored of the transfer. -/
abbrev payoutDocument : StoredTransaction :=
  createStoredTransaction keyConfig ⟨Penalizer.worker, paid⟩
    ⟨Penalizer.worker, 1, .VALUE_TRANSFER, 0, none, none⟩

/-- Everything goes well, and the document is found when it is stored again. -/
def payingAnswer (existing : Option StoredTransaction) (q : Question) : Except String (Answer q) :=
  match q with
  | .acquire | .insert _ | .update _ _ | .settled _ => .ok ()
  | .findOne _ => .ok existing
  | .getTransactionCount _ => .ok 0
  | .broadcastTransaction signedTx => .ok (keyConfig.hash signedTx)
  | _ => .error "no answer"

/-- The transfer is sent, and then boosted. -/
def boosting : List (Move Call Question Answer Unit) :=
  .call 0 (.sendTransaction payout) :: Move.turns 0 (payingAnswer none) 7 ++
    .call 1 (.resendTransaction payoutDocument 50 (.finite 12)) ::
      Move.turns 1 (payingAnswer (some payoutDocument)) 5

theorem boosting_plays :
    ((Pool.start (.fresh keyConfig [] [] ())).play (server keyConfig anyNode) (Accounted Candidly)
      boosting).isSome = true := by
  decide +kernel

def boostedServer : Pool Call (Memory Unit) Question Answer Reply := Option.get _ boosting_plays

theorem boostedServer_signatures : boostedServer.shared.memory.record.signatures =
    [⟨false, Penalizer.worker, paid⟩, ⟨true, Penalizer.worker, boosted⟩] := by
  decide +kernel

def paidSignature : Bytes :=
  wordBytes 0xd47644539acec3da5e3ecf5fe8863c628a9c97e8b71e9ea9167a6f4f83c03c32 ++
    wordBytes 0x64321a116c67af8781e6517cf62225cc7855e875e0032e377c28a631295d5a05 ++ [0x1b]

def boostedSignature : Bytes :=
  wordBytes 0x795eeb6658e2ddb7acb7143461d18aef2d6286f72804ee05216fc6ef35edf118 ++
    wordBytes 0x6906afaa81ff24df01a4fe099fd7b8c8bf2964ae281d5504258c5564de438596 ++ [0x1b]

def paidHash : Word := 0x9e8724c37c410a7c9a6e710f4b64bd3d7bbf20f048231e1ea6d6a42bc8e031b5

def boostedHash : Word := 0x88412a28008bbc9bd3d9d4d380a53717b863480554c87b400d8f82b95a43fe95

def transferEnv : Env :=
  Env.ofKeys
    (hashTable
      [((paid.unsigned keyConfig 0x0d).encode, paidHash),
        ((boosted.unsigned keyConfig 0x0d).encode, boostedHash),
        (Penalizer.dataToCheck (paid.unsigned keyConfig 0x0d).transaction,
          0xbf46885ac6664e148d1579467cae9ec8d89a22f71fb189855f26a165f1a29f99),
        (Penalizer.dataToCheck (boosted.unsigned keyConfig 0x0d).transaction,
          0x38083298d8ee42d971705aa5e3cda840c6c9f421417d6968ce65fd4accf431a4)])
    (recoverTable [((paidHash, paidSignature), Penalizer.worker),
      ((boostedHash, boostedSignature), Penalizer.worker)])
    .other [Penalizer.worker, 0x0d]

theorem transfer_signed : Penalizer.SignedPair transferEnv (paid.unsigned keyConfig 0x0d)
    (boosted.unsigned keyConfig 0x0d) paidSignature boostedSignature Penalizer.worker where
  first := by decide +kernel
  second := by decide +kernel
  key := by decide

theorem transfer_separated : Penalizer.HashSeparates transferEnv
    (paid.unsigned keyConfig 0x0d).transaction (boosted.unsigned keyConfig 0x0d).transaction := by
  have hne : transferEnv.keccak256
        (Penalizer.dataToCheck (paid.unsigned keyConfig 0x0d).transaction) ≠
      transferEnv.keccak256
        (Penalizer.dataToCheck (boosted.unsigned keyConfig 0x0d).transaction) := by
    decide +kernel
  exact Set.injOn_pair.mpr fun h => absurd h hne

end RifRelay.Server
