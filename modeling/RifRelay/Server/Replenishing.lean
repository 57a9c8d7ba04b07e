import RifRelay.Server.Threads

set_option autoImplicit false

/-! # What a replenishment leaves

`defaultReplenishFunction` sends the worker what it lacks, if the manager keeps more than
`managerMinBalance` then. The gas of the transfer is not looked at: whether the reserve is kept
depends on it (`reserve_kept_iff`).
-/

namespace RifRelay.Server

open EventLoop TransactionManager TxStoreManager

variable {ν ω : Type} {N : Node ν ω} {i : ℕ} {others : Memory ν → Memory ν → Prop} {m : Memory ν}

/-! ## What `sendTransaction` broadcasts -/

/-- `signedTx` is made of `d` and `gasPrice`. -/
def SendTransactionDetails.Makes (cfg : Config) (d : SendTransactionDetails) (gasPrice : Nat)
    (signedTx : SignedTransaction) : Prop :=
  ∃ nonce value : Nat, (value : Int) = d.value.getD 0 ∧ signedTx =
    ⟨d.signer, ⟨nonce, gasPrice, d.gasLimit, d.destination, value, encodedCall cfg d.method⟩⟩

variable (cfg : Config) {Good : SignedTransaction → Prop}

theorem encodeValue_does (value : Int) :
    Does (outside N i others) (encodeValue value) m (Gives Good)
      fun r _ => ∀ n, r = .ok n → (n : Int) = value := by
  cases value with
  | ofNat n =>
      refine does_done.mpr ?_
      rintro _ ⟨⟩
      rfl
  | negSucc n =>
      refine does_done.mpr ?_
      rintro _ ⟨⟩

/-- What is signed while the mutex is held. -/
theorem assignNonce_does (d : SendTransactionDetails) (gasPrice : Nat) :
    Does (outside N i others) (assignNonce cfg d gasPrice) m (Gives Good)
      fun r _ => ∀ x, r = .ok x → d.Makes cfg gasPrice x.1 := by
  have hpoll : Does (outside N i others) (polled d.signer) m (Gives Good) fun _ _ => True :=
    does_silent (polled_has (fun q hq => Family.confined_asks.mpr (Question.isSilent_of_isRead hq))
      (fun _ _ => Family.confined_writes.mpr trivial) d.signer)
  refine hpoll.next ?_ (by rintro _ _ _ _ ⟨⟩)
  intro nonce m₁ _
  refine (encodeValue_does _).next ?_ (by rintro _ _ _ _ ⟨⟩)
  intro value m₂ hvalue
  refine (signTransaction_does cfg _ _ _).next ?_ (by rintro _ _ _ _ ⟨⟩)
  rintro signedTx m₃ ⟨hsigned, -⟩
  obtain rfl := hsigned signedTx rfl
  have hput (tx : StoredTransaction) (m₄ : Memory ν) : Does (outside N i others)
      (awaiting .putTx (putTx cfg tx false)) m₄ (Gives Good) fun _ _ => True :=
    does_silent (awaiting_has (Family.confined_asks.mpr rfl)
      (putTx_has cfg (fun q hq => Family.confined_asks.mpr hq) tx false))
  refine does_modify.mpr ((hput _ _).next ?_ (by rintro _ _ _ _ ⟨⟩))
  intro _ m₅ _
  refine does_done.mpr ?_
  rintro _ ⟨⟩
  exact ⟨nonce.getD 0, value, hvalue value rfl, rfl⟩

/-- The gas price is one that the node answers, if none is given. -/
theorem chooseGasPrice_does (d : SendTransactionDetails) (hprice : d.gasPrice = none) :
    Does (outside N i others) (chooseGasPrice d) m (Gives Good)
      fun r _ => ∀ n, r = .ok n → ∃ m₁, mayReply N m₁ .getGasPrice (.ok n) := by
  unfold chooseGasPrice
  rw [hprice]
  refine does_await fun m₁ a m₂ _ hreply _ => ⟨trivial, ?_⟩
  rintro n rfl
  exact ⟨m₁, hreply⟩

/-- A call of `sendTransaction` broadcasts only what it makes of its argument and of a gas price
that the node has answered. -/
theorem sendTransaction_does (d : SendTransactionDetails) (hprice : d.gasPrice = none)
    (hgood : ∀ m₁ gasPrice signedTx, mayReply N m₁ .getGasPrice (.ok gasPrice) →
      d.Makes cfg gasPrice signedTx → Good signedTx) :
    Does (outside N i others) (sendTransaction cfg d) m (Gives Good) fun _ _ => True := by
  refine (chooseGasPrice_does d hprice).next ?_ fun _ _ _ => trivial
  intro gasPrice m₁ hgas
  obtain ⟨m', hreply⟩ := hgas gasPrice rfl
  refine Does.next (does_await fun _ _ _ _ _ _ => ⟨trivial, trivial⟩) ?_ fun _ _ _ => trivial
  intro _ m₂ _
  have hassigned : Does (outside N i others)
      ((assignNonce cfg d gasPrice).ensuring releaseMutex) m₂ (Gives Good)
      fun r _ => ∀ x, r = .ok x → d.Makes cfg gasPrice x.1 :=
    does_handle <| (assignNonce_does cfg d gasPrice).mono fun r m₃ hr =>
      does_update.mpr (does_done.mpr hr)
  refine hassigned.next ?_ fun _ _ _ => trivial
  · intro x m₃ hx
    refine Does.next (does_await fun _ _ _ _ _ _ => ⟨?_, trivial⟩) ?_ fun _ _ _ => trivial
    · exact hgood m' gasPrice x.1 hreply (hx x rfl)
    · intro transactionHash m₄ _
      exact does_assert (fun _ => does_done.mpr trivial) fun _ => trivial

/-! ## What is left -/

/-- The balance of `addr` after a transaction is mined that uses `gas`. -/
def SignedTransaction.leaves (tx : SignedTransaction) (gas : Nat) (balance : Address → Nat)
    (addr : Address) : Int :=
  balance addr + (if tx.transaction.to = some addr then (tx.transaction.value : Int) else 0) -
    (if tx.signer = addr then (tx.transaction.value + gas * tx.transaction.gasPrice : Nat) else 0)

/-- No other transaction touches the two accounts, and the gas price stays: the node answers the
same all the time, and the other handlers note the same balance of the worker. -/
structure Steady (N : Node ν ω) (others : Memory ν → Memory ν → Prop) (balance : Address → Nat)
    (gasPrice : Nat) : Prop where
  manager : ∀ m n, N.answers m (.getBalance cfg.managerAddress true) n →
    n = balance cfg.managerAddress
  worker : ∀ m n, N.answers m (.getBalance cfg.workerAddress true) n →
    n = balance cfg.workerAddress
  price : ∀ m n, N.answers m .getGasPrice n → n = gasPrice
  noted : ∀ m m', others m m' →
    m'.workerBalance = m.workerBalance ∨ m'.workerBalance = balance cfg.workerAddress

variable {cfg} {balance : Address → Nat} {gasPrice : Nat}

/-- A balance that the node always answers with. -/
theorem getBalance_does {f : AsyncFunction} {addr : Address}
    (h : ∀ m n, N.answers m (.getBalance addr true) n → n = balance addr) :
    Does (outside N i others) (awaiting f (ask (.getBalance addr true))) m (Gives Good)
      fun r _ => ∀ n, r = .ok n → n = balance addr := by
  refine does_awaiting (does_await fun m₁ a m₂ _ hreply _ => ⟨trivial, ?_⟩) (fun _ => trivial) ?_
  · rintro n rfl
    exact h m₁ n (hreply.2 rfl)
  · exact fun _ _ _ hr _ => hr

/-- What the transfer of a replenishment is. -/
def Refills (cfg : Config) (balance : Address → Nat) (gasPrice : Nat) (tx : SignedTransaction) :
    Prop :=
  ∃ nonce value : Nat, (value : Int) = cfg.workerTargetBalance - balance cfg.workerAddress ∧
    (value : Int) < balance cfg.managerAddress - cfg.managerMinBalance ∧
    tx = ⟨cfg.managerAddress, ⟨nonce, gasPrice, mintxgascost, some cfg.workerAddress, value, []⟩⟩

/-- The noted balance of the worker stays right while a program only reads. -/
theorem noted_does (h : Steady cfg N others balance gasPrice) {α : Type} {p : Handler ν α}
    (hp : (Family.confined (fun q : Question => q.isRead = true) fun _ => False).has p)
    (hm : m.workerBalance = balance cfg.workerAddress) :
    Does (outside N i others) p m (Gives Good)
      fun _ m' => m'.workerBalance = balance cfg.workerAddress := by
  refine does_confined (hp.mono (fun _ hq => hq) fun _ hf => hf.elim) ?_ ?_ hm
  · intro m₁ q a hq _ hm₁
    refine ⟨.of_silent (Question.isSilent_of_isRead hq) a, ?_⟩
    rwa [show (outside N i others).effect m₁ q a = m₁ from effect_of_isRead N hq m₁ i a]
  · intro m₁ m₂ hothers hm₁
    rcases h.noted m₁ m₂ hothers with heq | heq
    · exact heq.trans hm₁
    · exact heq

theorem replenish_does (h : Steady cfg N others balance gasPrice) (currentBlock : Nat) :
    Does (outside N i others) (defaultReplenishFunction cfg currentBlock) m
      (Gives (Refills cfg balance gasPrice)) fun _ _ => True := by
  have hread (q : Question) (hq : q.isRead = true) :
      (Family.confined (fun q : Question => q.isRead = true) fun _ => False :
        Family (Memory ν) Question Answer).asks q := Family.confined_asks.mpr hq
  refine (getBalance_does h.manager).next ?_ fun _ _ _ => trivial
  intro _ m₁ _
  refine (getBalance_does h.worker).next ?_ fun _ _ _ => trivial
  intro workerBalance m₂ hworker
  refine does_modify.mpr (does_get.mpr (does_ite (fun _ => does_done.mpr trivial) fun _ => ?_))
  refine ((getBalance_does h.manager).and (noted_does h (awaiting_has (hread _ rfl) (hread _ rfl))
    (hworker workerBalance rfl))).next ?_ fun _ _ _ => trivial
  rintro managerEthBalance m₃ ⟨hmanager, hm₃⟩
  obtain rfl := hmanager managerEthBalance rfl
  refine does_get.mpr ?_
  refine (noted_does h (awaiting_has (hread _ rfl) (isActionPending_has hread _ _)) hm₃).next ?_
    fun _ _ _ => trivial
  intro isReplenishPendingForWorker m₄ hm₄
  refine does_ite (fun _ => ?_) fun _ => does_done.mpr trivial
  refine does_get.mpr (does_ite (fun hlow => ?_) fun _ => does_done.mpr trivial)
  refine (does_awaiting (sendTransaction_does cfg _ rfl ?_) (fun _ => trivial)
    fun _ _ _ _ _ => trivial).next (fun _ _ _ => does_done.mpr trivial) fun _ _ _ => trivial
  -- what is sent is the difference to the target, and the manager can spare it
  rintro m₅ price tx hreply ⟨nonce, value, hvalue, rfl⟩
  obtain rfl := h.price m₅ price (hreply.2 rfl)
  rw [hm₄] at hlow
  have hrefill : (value : Int) = cfg.workerTargetBalance - balance cfg.workerAddress := by
    calc (value : Int) = cfg.workerTargetBalance - m₄.workerBalance := hvalue
      _ = cfg.workerTargetBalance - balance cfg.workerAddress := by rw [hm₄]
  exact ⟨nonce, value, hrefill, hrefill ▸ hlow, rfl⟩

/-- **The reserve of the manager.** Once the transfer of a replenishment is mined, the worker has
exactly its target, and the manager has its minimum if and only if what it had covers that, the
refill and the gas. -/
theorem reserve_kept_iff (hne : cfg.managerAddress ≠ cfg.workerAddress)
    (h : Steady cfg N others balance gasPrice) {currentBlock : Nat} {l : Exchanges}
    {r : Except String (List Word)} {m' : Memory ν}
    (hrun : Runs (outside N i others) (defaultReplenishFunction cfg currentBlock) m l r m')
    {tx : SignedTransaction} (htx : tx ∈ broadcasts l) :
    (tx.leaves mintxgascost balance cfg.workerAddress = cfg.workerTargetBalance ∧
      cfg.managerMinBalance ≤ tx.leaves mintxgascost balance cfg.managerAddress) ↔
    cfg.managerMinBalance + cfg.workerTargetBalance + mintxgascost * gasPrice ≤
      balance cfg.managerAddress + balance cfg.workerAddress := by
  obtain ⟨nonce, value, hvalue, -, rfl⟩ :=
    Gives.broadcasts (replenish_does h currentBlock l r m' hrun).1 tx htx
  have hne' : cfg.workerAddress ≠ cfg.managerAddress := hne.symm
  simp only [SignedTransaction.leaves, Option.some.injEq, hne, hne', if_true, if_false]
  constructor
  · rintro ⟨-, hmin⟩
    push_cast at hmin
    omega
  · intro hmin
    push_cast
    constructor
    · omega
    · omega

/-! ## Two transfers -/

/-- The node knows the balance of the manager and the gas price; the worker has nothing. -/
abbrev managerNode (managerBalance gasPrice : Nat) : Node Unit Unit :=
  fixedNode fun
    | .getBalance addr _, n =>
        n == if addr = plainConfig.managerAddress then managerBalance else 0
    | .getGasPrice, n => n == gasPrice
    | _, _ => true

def managerAnswer (managerBalance gasPrice : Nat) : (q : Question) → Except String (Answer q)
  | .getBalance addr _ => .ok (if addr = plainConfig.managerAddress then managerBalance else 0)
  | .getGasPrice => .ok gasPrice
  | .getTransactionCount _ => .ok 0
  | .broadcastTransaction signedTx => .ok (plainConfig.hash signedTx)
  | _ => .error "no answer"

/-- The transfer of thirty coins. -/
def refillTx (gasPrice : Nat) : SignedTransaction :=
  ⟨0x11, ⟨0, gasPrice, mintxgascost, some 0x22, 30, []⟩⟩

def managerBalances (managerBalance : Nat) (addr : Address) : Nat :=
  if addr = plainConfig.managerAddress then managerBalance else 0

/-- A replenishment at these balances, answered at once. -/
def managerRun (managerBalance : Nat) :
    Option (Exchanges × Except String (List Word) × Memory Unit) :=
  follow (outside (managerNode managerBalance 1) 0 Eq) (answering (managerAnswer managerBalance 1))
    (defaultReplenishFunction plainConfig 7) (.fresh plainConfig [] [] ())

theorem managerRun_runs (managerBalance : Nat)
    (h : (managerRun managerBalance).map (fun x => broadcasts x.1) = some [refillTx 1]) :
    ∃ l r m', Runs (outside (managerNode managerBalance 1) 0 Eq)
      (defaultReplenishFunction plainConfig 7) (.fresh plainConfig [] [] ()) l r m' ∧
      refillTx 1 ∈ broadcasts l := by
  obtain ⟨⟨l, r, m'⟩, hrun, hl⟩ := Option.map_eq_some_iff.mp h
  exact ⟨l, r, m', Runs.of_follow (fun _ => rfl) hrun, hl ▸ List.mem_singleton_self _⟩

theorem managerNode_steady (managerBalance gasPrice : Nat) :
    Steady plainConfig (managerNode managerBalance gasPrice) Eq (managerBalances managerBalance)
      gasPrice where
  manager _ _ h := beq_iff_eq.mp h
  worker _ _ h := beq_iff_eq.mp h
  price _ _ h := beq_iff_eq.mp h
  noted m m' h := by
    subst h
    exact Or.inl rfl

/-- The manager can pay the thirty coins and the gas, but then it has five coins, not ten. -/
theorem reserve_spent :
    (∃ l r m', Runs (outside (managerNode 21035 1) 0 Eq) (defaultReplenishFunction plainConfig 7)
      (.fresh plainConfig [] [] ()) l r m' ∧ refillTx 1 ∈ broadcasts l) ∧
    Steady plainConfig (managerNode 21035 1) Eq (managerBalances 21035) 1 ∧
    plainConfig.workerMinBalance ≤ plainConfig.workerTargetBalance ∧
    30 + mintxgascost * 1 ≤ managerBalances 21035 plainConfig.managerAddress ∧
    ¬ (plainConfig.managerMinBalance : Int) ≤
      (refillTx 1).leaves mintxgascost (managerBalances 21035) plainConfig.managerAddress :=
  ⟨managerRun_runs 21035 (by decide +kernel), managerNode_steady 21035 1, by decide, by decide,
    by decide⟩

/-- With enough for the gas it keeps more than its minimum. -/
theorem reserve_kept_iff_rich :
    (refillTx 1).leaves mintxgascost (managerBalances 30000) 0x22 = 30 ∧
      10 ≤ (refillTx 1).leaves mintxgascost (managerBalances 30000) 0x11 := by
  obtain ⟨l, r, m', hrun, htx⟩ := managerRun_runs 30000 (by decide +kernel)
  exact (reserve_kept_iff (by decide) (managerNode_steady 30000 1) hrun htx).mpr (by decide)

end RifRelay.Server
