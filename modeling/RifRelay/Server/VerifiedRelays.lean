import RifRelay.Server.Readiness
import RifRelay.Server.Replenishing
import RifRelay.Tasks.Projections

set_option autoImplicit false

/-! # Nothing is relayed before it is verified

A request of a client makes the server pay for gas, so `createRelayTransaction` checks it first:
the hub, the worker and the nonce, the verifier contract, the estimates, and a local call of the
hub. In between it waits again and again, and other handlers run. `relayed_verified` says that in
every run of the server, whatever the node answers and however the handlers interleave, a request
gives one transaction of the worker to the node: the call of the hub for this very request, with
the gas for which all of the checks have gone well before.
-/

namespace RifRelay.Server

open EventLoop TransactionManager TxStoreManager RelayServer

variable {ν ω : Type} {cfg : Config} {N : Node ν ω}

/-! ## Trusted verifiers -/

/-- The verifiers in the settings. -/
def Config.trusts (cfg : Config) (verifier : Address) : Prop :=
  verifier ∈ cfg.trustedVerifiers ∨
    verifier ≠ 0 ∧ (verifier = cfg.relayVerifierAddress ∨ verifier = cfg.deployVerifierAddress)

/-- The server trusts only verifiers of its settings. -/
def Trusting (cfg : Config) (m : Memory ν) : Prop := ∀ v ∈ m.trustedVerifiers, cfg.trusts v

theorem Trusting.congr {m m' : Memory ν} (h : Trusting cfg m)
    (heq : m'.trustedVerifiers = m.trustedVerifiers) : Trusting cfg m' := by
  unfold Trusting
  rw [heq]
  exact h

theorem trusting_initTrustedVerifiers (m : Memory ν) :
    Trusting cfg (initTrustedVerifiers cfg m) := by
  intro v hv
  rcases List.mem_append.mp (List.mem_dedup.mp hv) with hconfigured | hown
  · exact Or.inl hconfigured
  · obtain ⟨hmem, hne⟩ := List.mem_filter.mp hown
    have hcases : v = cfg.relayVerifierAddress ∨ v = cfg.deployVerifierAddress := by
      simpa using hmem
    exact Or.inr ⟨by simpa using hne, hcases⟩

theorem trusting_keepsAll : KeepsAll (server cfg N) (Trusting cfg) where
  body := handler_has cfg
    (K := .confined (fun _ => True) fun f => ∀ m, Trusting cfg m → Trusting cfg (f m))
    (fun _ => Family.confined_asks.mpr trivial)
    (fun _ hf => Family.confined_writes.mpr fun m h => by
      obtain ⟨nonces, mutex, signatures, heq⟩ := hf.shape m
      rw [heq]
      exact h.congr rfl)
    (fun _ hf => Family.confined_writes.mpr fun m h => by
      cases hf <;> exact h.congr rfl)
    (fun _ hf => Family.confined_writes.mpr fun m h => by
      cases hf with
      | trusted => exact trusting_initTrustedVerifiers m
      | leaveAlert n =>
          unfold leaveAlert
          split <;> exact h.congr rfl
      | _ => exact h.congr rfl)
  effect x i q a _ h := by
    obtain ⟨mutex, txstore, node, heq⟩ := effect_shape N x.memory i q a
    have hkept : Trusting cfg (effect N x.memory i q a) := by
      rw [heq]
      exact h.congr rfl
    exact hkept
  outside x w m hmoves h := by
    obtain ⟨node, _, rfl⟩ := Option.map_eq_some_iff.mp hmoves
    exact h.congr rfl
  restart x m hrestart _ := by
    obtain rfl := Option.some.inj hrestart
    exact fun _ hv => (List.not_mem_nil hv).elim

/-! ## The checks -/

/-- The transaction that relays the request. -/
def relayTransaction (cfg : Config) (req : RelayTransactionRequest) (gas nonce : Nat) :
    SignedTransaction :=
  ⟨cfg.workerAddress, ⟨nonce, req.relayData.gasPrice.toNat, gas, some cfg.relayHubAddress, 0,
    cfg.encodeABI req.method⟩⟩

/-- What the exchanges `l` have shown of a request that is to be relayed with `gas`. -/
structure Verified (cfg : Config) (req : RelayTransactionRequest) (gas : Nat) (l : Exchanges) :
    Prop where
  hub : req.metadata.relayHubAddress = cfg.relayHubAddress
  worker : req.relayData.relayWorker = cfg.workerAddress
  maxNonce : ∃ nonce a, ⟨.settled (.pollNonce cfg.workerAddress (.ok nonce)), a⟩ ∈ l ∧
    ∀ n : Nat, nonce = some n → (n : Int) ≤ req.metadata.relayMaxNonce
  trusted : cfg.trusts req.relayData.callVerifier
  created : ⟨.createVerifier req.relayData.callVerifier, .ok ()⟩ ∈ l
  agreed : ∀ relayRequest metadata, req = .relay relayRequest metadata → ∃ estimate,
    ⟨.estimateDestinationGas relayRequest, .ok estimate⟩ ∈ l ∧
      estimate ≤ cfg.maxAgreedGas relayRequest.request.gas.toNat
  estimated : ⟨.estimateGas req, .ok gas⟩ ∈ l
  verified : ⟨.verifyRelayedCall req, .ok ()⟩ ∈ l
  viewed : ⟨.viewCall req.method req.relayData.gasPrice.toNat gas, .ok ()⟩ ∈ l

theorem Verified.mono {req : RelayTransactionRequest} {gas : Nat} {l l' : Exchanges}
    (h : Verified cfg req gas l) (hl : l ⊆ l') : Verified cfg req gas l' where
  hub := h.hub
  worker := h.worker
  maxNonce := by
    obtain ⟨nonce, a, hmem, hle⟩ := h.maxNonce
    exact ⟨nonce, a, hl hmem, hle⟩
  trusted := h.trusted
  created := hl h.created
  agreed := by
    intro relayRequest metadata hreq
    obtain ⟨estimate, hmem, hle⟩ := h.agreed relayRequest metadata hreq
    exact ⟨estimate, hl hmem, hle⟩
  estimated := hl h.estimated
  verified := hl h.verified
  viewed := hl h.viewed

/-- The node has taken the transaction of `details`, which relays the verified request. -/
structure Relayed (cfg : Config) (req : RelayTransactionRequest) (l : Exchanges)
    (details : SignedTransactionDetails) : Prop where
  hash : details.transactionHash = cfg.hash details.signedTx
  taken : ⟨.broadcastTransaction details.signedTx, .ok details.transactionHash⟩ ∈ l
  verified : ∃ gas nonce, Verified cfg req gas l ∧
    details.signedTx = relayTransaction cfg req gas nonce

theorem Relayed.mono {req : RelayTransactionRequest} {l l' : Exchanges}
    {details : SignedTransactionDetails} (h : Relayed cfg req l details) (hl : l ⊆ l') :
    Relayed cfg req l' details where
  hash := h.hash
  taken := hl h.taken
  verified := by
    obtain ⟨gas, nonce, hverified, htx⟩ := h.verified
    exact ⟨gas, nonce, hverified.mono hl, htx⟩

/-- A transfer from the manager to the worker. -/
def IsRefill (cfg : Config) (tx : SignedTransaction) : Prop :=
  tx.signer = cfg.managerAddress ∧ tx.transaction.to = some cfg.workerAddress ∧
    tx.transaction.data = [] ∧ tx.transaction.gasLimit = mintxgascost

/-- What a request may give to the node after the exchanges `l`: first the transaction that relays
it, once it is verified, and then a transfer that refills the worker. -/
def Backed (cfg : Config) (req : RelayTransactionRequest) (l : Exchanges) (q : Question) : Prop :=
  ∀ tx, q = .broadcastTransaction tx →
    (broadcasts l = [] ∧
      ∃ gas nonce, Verified cfg req gas l ∧ tx = relayTransaction cfg req gas nonce) ∨
    (∃ details, Relayed cfg req l details) ∧ IsRefill cfg tx

/-! ## The parts of the handler -/

section Parts

variable {i : ℕ} {others : Memory ν → Memory ν → Prop} {m : Memory ν} {α : Type}
  {P : Exchanges → Question → Prop}

/-- The programs that give nothing to the node. -/
def silent : Family (Memory ν) Question Answer :=
  .confined (fun q => q.isSilent = true) fun _ => True

theorem silent_asks {q : Question} (hq : q.isSilent = true) :
    (silent : Family (Memory ν) Question Answer).asks q := Family.confined_asks.mpr hq

theorem silent_read {q : Question} (hq : q.isRead = true) :
    (silent : Family (Memory ν) Question Answer).asks q :=
  silent_asks (Question.isSilent_of_isRead hq)

theorem silent_writes (f : Memory ν → Memory ν) :
    (silent : Family (Memory ν) Question Answer).writes f := Family.confined_writes.mpr trivial

theorem asks_silent {p : Handler ν α} (hp : silent.has p)
    (hP : ∀ l q, q.isSilent = true → P l q) : AsksOnly (outside N i others) p m P :=
  asks_confined hp hP

theorem ensures_silent {p : Handler ν α} (hp : silent.has p) :
    Ensures (outside N i others) p m fun l _ _ => broadcasts l = [] := by
  refine (ensures_asks hp).mono fun l _ _ hl => ?_
  refine List.filterMap_eq_nil_iff.mpr fun x hx => ?_
  obtain ⟨q, a⟩ := x
  have hq := hl _ hx
  cases q with
  | broadcastTransaction tx => cases hq
  | _ => rfl

theorem backed_silent (req : RelayTransactionRequest) (l : Exchanges) (q : Question)
    (hq : q.isSilent = true) : Backed cfg req l q := by
  rintro tx rfl
  cases hq

theorem validateInput_ensures (req : RelayTransactionRequest) :
    Ensures (outside N i others) (validateInput cfg req) m fun _ r _ => r = .ok () →
      req.metadata.relayHubAddress = cfg.relayHubAddress ∧
        req.relayData.relayWorker = cfg.workerAddress := by
  unfold validateInput
  refine ensures_assert.mpr ⟨fun hhub => ?_, by rintro _ ⟨⟩⟩
  refine ensures_assert.mpr ⟨fun hworker => ?_, by rintro _ ⟨⟩⟩
  exact ensures_get.mpr ((ensures_true _).mono fun _ _ _ _ _ => ⟨hhub, hworker⟩)

/-- A nonce that was polled has been handed over. -/
theorem polled_settled (signer : Address) :
    Ensures (outside N i others) (polled signer) m fun l r _ =>
      ∃ a, ⟨.settled (.pollNonce signer r), a⟩ ∈ l :=
  (ensures_true (pollNonce signer)).call fun _ _ _ a _ _ => ⟨a, by simp⟩

theorem validateMaxNonce_ensures (relayMaxNonce : Int) :
    Ensures (outside N i others) (awaiting .validateMaxNonce (validateMaxNonce cfg relayMaxNonce))
      m fun l r _ => r = .ok () → ∃ nonce a,
        ⟨.settled (.pollNonce cfg.workerAddress (.ok nonce)), a⟩ ∈ l ∧
          ∀ n : Nat, nonce = some n → (n : Int) ≤ relayMaxNonce := by
  have hcheck : Ensures (outside N i others) (validateMaxNonce cfg relayMaxNonce) m
      fun l r _ => r = .ok () → ∃ nonce a,
        ⟨.settled (.pollNonce cfg.workerAddress (.ok nonce)), a⟩ ∈ l ∧
          ∀ n : Nat, nonce = some n → (n : Int) ≤ relayMaxNonce := by
    refine (polled_settled cfg.workerAddress).next ?_ (by rintro _ _ _ _ ⟨⟩)
    rintro l nonce m₁ ⟨a, hmem⟩
    unfold Async.assert
    split
    next hle =>
      refine (ensures_done _).mpr fun _ => ⟨nonce, a, ?_, fun n hn => ?_⟩
      · rw [List.append_nil]
        exact hmem
      · simp only [Option.any_eq_true, decide_eq_true_eq, not_exists, not_and, not_lt] at hle
        exact hle n (by rw [hn]; rfl)
    next =>
      refine (ensures_done _).mpr ?_
      rintro ⟨⟩
  refine hcheck.call fun l r _ b _ h hr => ?_
  obtain ⟨nonce, a, hmem, hle⟩ := h hr
  exact ⟨nonce, a, List.mem_append_left _ hmem, hle⟩

/-- What the verifier and the estimates say of a request. -/
structure Estimated (cfg : Config) (req : RelayTransactionRequest) (gas : Nat) (l : Exchanges) :
    Prop where
  trusted : cfg.trusts req.relayData.callVerifier
  created : ⟨.createVerifier req.relayData.callVerifier, .ok ()⟩ ∈ l
  agreed : ∀ relayRequest metadata, req = .relay relayRequest metadata → ∃ estimate,
    ⟨.estimateDestinationGas relayRequest, .ok estimate⟩ ∈ l ∧
      estimate ≤ cfg.maxAgreedGas relayRequest.request.gas.toNat
  estimated : ⟨.estimateGas req, .ok gas⟩ ∈ l
  verified : ⟨.verifyRelayedCall req, .ok ()⟩ ∈ l

theorem maxPossibleGas_ensures (req : RelayTransactionRequest) :
    Ensures (outside N i others) (maxPossibleGas cfg req) m fun l r _ => ∀ gas, r = .ok gas →
      ⟨.estimateGas req, .ok gas⟩ ∈ l ∧
      ∀ relayRequest metadata, req = .relay relayRequest metadata → ∃ estimate,
        ⟨.estimateDestinationGas relayRequest, .ok estimate⟩ ∈ l ∧
          estimate ≤ cfg.maxAgreedGas relayRequest.request.gas.toNat := by
  cases req with
  | deploy deployRequest metadata =>
      refine ensures_question.mono fun l r _ hl gas hr => ?_
      subst hr
      refine ⟨hl ▸ List.mem_singleton_self _, ?_⟩
      rintro _ _ ⟨⟩
  | relay relayRequest metadata =>
      refine ensures_question.next ?_ (by rintro _ _ _ _ _ ⟨⟩)
      rintro l estimate m₁ rfl
      refine ensures_assert.mpr ⟨fun hagreed => ?_, by rintro _ _ ⟨⟩⟩
      refine ensures_question.mono fun l r _ hl gas hr => ?_
      subst hr
      rw [hl]
      refine ⟨by simp, ?_⟩
      rintro _ _ ⟨⟩
      exact ⟨estimate, by simp, Nat.le_of_not_lt hagreed⟩

theorem validateRequestWithVerifier_ensures (hm : Trusting cfg m) (req : RelayTransactionRequest) :
    Ensures (outside N i others)
      (awaiting .validateRequestWithVerifier (validateRequestWithVerifier cfg req)) m
      fun l r _ => ∀ gas, r = .ok gas → Estimated cfg req gas l := by
  have hcheck : Ensures (outside N i others) (validateRequestWithVerifier cfg req) m
      fun l r _ => ∀ gas, r = .ok gas → Estimated cfg req gas l := by
    unfold validateRequestWithVerifier
    refine ensures_get.mpr (ensures_assert.mpr ⟨fun htrusted => ?_, by rintro _ _ ⟨⟩⟩)
    have htrusts : cfg.trusts req.relayData.callVerifier :=
      hm _ (List.contains_iff_mem.mp htrusted)
    refine ensures_rethrow.next ?_ (by rintro _ _ _ _ _ ⟨⟩)
    intro l₁ u m₁ hl₁
    obtain rfl := hl₁ u rfl
    refine (maxPossibleGas_ensures req).next ?_ (by rintro _ _ _ _ _ ⟨⟩)
    intro l₂ gas m₂ hgas
    obtain ⟨hestimated, hagreed⟩ := hgas gas rfl
    refine ensures_rethrow.next ?_ (by rintro _ _ _ _ _ ⟨⟩)
    intro l₃ u' m₃ hl₃
    obtain rfl := hl₃ u' rfl
    refine (ensures_done _).mpr ?_
    rintro _ ⟨⟩
    refine ⟨htrusts, by simp, ?_, by simp [hestimated], by simp⟩
    intro relayRequest metadata hreq
    obtain ⟨estimate, hmem, hle⟩ := hagreed relayRequest metadata hreq
    exact ⟨estimate, by simp [hmem], hle⟩
  refine hcheck.call fun l r _ a _ h gas hr => ?_
  obtain ⟨htrusted, hcreated, hagreed, hestimated, hverified⟩ := h gas hr
  refine ⟨htrusted, List.mem_append_left _ hcreated, ?_, List.mem_append_left _ hestimated,
    List.mem_append_left _ hverified⟩
  intro relayRequest metadata hreq
  obtain ⟨estimate, hmem, hle⟩ := hagreed relayRequest metadata hreq
  exact ⟨estimate, List.mem_append_left _ hmem, hle⟩

theorem validateViewCallSucceeds_ensures (req : RelayTransactionRequest) (gas : Nat) :
    Ensures (outside N i others)
      (awaiting .validateViewCallSucceeds (validateViewCallSucceeds req gas)) m
      fun l r _ => r = .ok () →
        ⟨.viewCall req.method req.relayData.gasPrice.toNat gas, .ok ()⟩ ∈ l :=
  ensures_rethrow.call fun l r _ a _ h hr => by
    rw [h () hr]
    simp

/-! ### Sending -/

/-- What `sendTransaction` may give to the node. -/
def SendTransactionDetails.Gives (cfg : Config) (d : SendTransactionDetails) (l : Exchanges)
    (q : Question) : Prop :=
  ∀ tx, q = .broadcastTransaction tx → broadcasts l = [] ∧
    ∃ gasPrice, (∀ n, d.gasPrice = some n → gasPrice = n) ∧ d.Makes cfg gasPrice tx

/-- The id of the stored transaction is the hash of the signed one. -/
theorem assignNonce_prepares (d : SendTransactionDetails) (gasPrice : Nat) :
    Ensures (outside N i others) ((assignNonce cfg d gasPrice).ensuring releaseMutex) m
      fun l r _ => broadcasts l = [] ∧
        ∀ x, r = .ok x → d.Makes cfg gasPrice x.1 ∧ x.2.txId = cfg.hash x.1 := by
  have hmakes : Ensures (outside N i others) (assignNonce cfg d gasPrice) m
      fun _ r _ => ∀ x, r = .ok x → d.Makes cfg gasPrice x.1 := by
    have hdoes : Does (outside N i others) (assignNonce cfg d gasPrice) m (Gives fun _ => True)
        fun r _ => ∀ x, r = .ok x → d.Makes cfg gasPrice x.1 := assignNonce_does cfg d gasPrice
    exact Ensures.mono hdoes fun _ _ _ h => h.2
  have hid : Ensures (outside N i others) (assignNonce cfg d gasPrice) m
      fun _ r _ => ∀ x, r = .ok x → x.2.txId = cfg.hash x.1 := by
    refine (ensures_true _).next ?_ (by rintro _ _ _ _ _ ⟨⟩)
    intro _ nonce m₁ _
    refine (ensures_true _).next ?_ (by rintro _ _ _ _ _ ⟨⟩)
    intro _ value m₂ _
    refine (ensures_true _).next ?_ (by rintro _ _ _ _ _ ⟨⟩)
    intro _ signedTx m₃ _
    refine ensures_modify.mpr ((ensures_true _).next ?_ (by rintro _ _ _ _ _ ⟨⟩))
    intro _ _ m₄ _
    refine (ensures_done _).mpr ?_
    rintro _ ⟨⟩
    rfl
  have hquiet : Ensures (outside N i others) (assignNonce cfg d gasPrice) m
      fun l _ _ => broadcasts l = [] :=
    ensures_silent (assignNonce_has cfg (fun _ => silent_asks) (fun f _ => silent_writes f) d
      gasPrice)
  refine (ensures_handle _ _).mpr (((hmakes.and hid).and hquiet).mono ?_)
  rintro l r m₁ ⟨⟨hmakes, hid⟩, hquiet⟩
  refine (ensures_update _ _).mpr ((ensures_done _).mpr ⟨?_, fun x hx => ?_⟩)
  · rw [List.append_nil]
    exact hquiet
  · exact ⟨hmakes x hx, hid x hx⟩

/-- The gas price that was chosen. -/
theorem chooseGasPrice_chosen (d : SendTransactionDetails) :
    Ensures (outside N i others) (chooseGasPrice d) m fun l r _ => broadcasts l = [] ∧
      ∀ gasPrice, r = .ok gasPrice → ∀ n, d.gasPrice = some n → gasPrice = n := by
  have hquiet : Ensures (outside N i others) (chooseGasPrice d) m fun l _ _ => broadcasts l = [] :=
    ensures_silent (chooseGasPrice_has (fun _ => silent_read) d)
  refine hquiet.and ?_
  unfold chooseGasPrice
  split
  next n hprice =>
    refine (ensures_done _).mpr ?_
    rintro _ ⟨⟩ n' hn'
    exact Option.some.inj (hprice.symm.trans hn')
  next hprice =>
    refine (ensures_true _).mono fun _ _ _ _ _ _ n hn => ?_
    cases hprice.symm.trans hn

/-- `sendTransaction` gives one transaction to the node, and resolves to it when the node has
taken it. -/
theorem sendTransaction_sends (d : SendTransactionDetails) :
    AsksOnly (outside N i others) (sendTransaction cfg d) m (d.Gives cfg) ∧
      Ensures (outside N i others) (sendTransaction cfg d) m fun l r _ => ∀ details,
        r = .ok details → details.transactionHash = cfg.hash details.signedTx ∧
          ⟨.broadcastTransaction details.signedTx, .ok details.transactionHash⟩ ∈ l ∧
          ∃ gasPrice, (∀ n, d.gasPrice = some n → gasPrice = n) ∧
            d.Makes cfg gasPrice details.signedTx := by
  have hsilent : ∀ (l₀ l : Exchanges) q, q.isSilent = true → d.Gives cfg (l₀ ++ l) q := by
    rintro l₀ l q hq tx rfl
    cases hq
  have hacquire : Ensures (outside N i others) (ask .acquire) m fun l _ _ => broadcasts l = [] :=
    ensures_silent (silent_asks rfl)
  constructor
  · refine AsksOnly.next (asks_silent (chooseGasPrice_has (fun _ => silent_read) d)
      (hsilent [])) (chooseGasPrice_chosen d) ?_
    rintro l₁ gasPrice m₁ ⟨hl₁, hprice⟩
    refine AsksOnly.next (asks_silent (silent_asks rfl) (hsilent l₁))
      (ensures_silent (silent_asks rfl)) ?_
    rintro l₂ _ m₂ hl₂
    refine AsksOnly.next ?_ (assignNonce_prepares d gasPrice) ?_
    · refine asks_silent (Family.ensuring (assignNonce_has cfg (fun _ => silent_asks)
        (fun f _ => silent_writes f) d gasPrice) (silent_writes _)) fun l q hq => ?_
      exact hsilent l₁ (l₂ ++ l) q hq
    · rintro l₃ x m₃ ⟨hl₃, hx⟩
      refine asks_handle (asks_await ?_) ?_
      · rintro tx ⟨⟩
        refine ⟨by simp [hl₁, hl₂, hl₃], gasPrice, hprice gasPrice rfl, (hx x rfl).1⟩
      · refine ensures_question.mono fun l₄ r m₄ _ => ?_
        cases r with
        | ok h => exact asks_assert fun _ => asks_done _
        | error e => exact asks_done _
  · refine (chooseGasPrice_chosen d).next ?_ (by rintro _ _ _ _ _ ⟨⟩)
    rintro l₁ gasPrice m₁ ⟨-, hprice⟩
    refine (ensures_true _).next ?_ (by rintro _ _ _ _ _ ⟨⟩)
    intro l₂ _ m₂ _
    refine (assignNonce_prepares d gasPrice).next ?_ (by rintro _ _ _ _ _ ⟨⟩)
    rintro l₃ x m₃ ⟨-, hx⟩
    obtain ⟨hmakes, hid⟩ := hx x rfl
    refine ensures_question.next ?_ (by rintro _ _ _ _ _ ⟨⟩)
    rintro l₄ transactionHash m₄ rfl
    refine ensures_assert.mpr ⟨fun hhash => ?_, by rintro _ _ ⟨⟩⟩
    refine (ensures_done _).mpr ?_
    rintro _ ⟨⟩
    exact ⟨hhash.trans hid, by simp, gasPrice, hprice gasPrice rfl, hmakes⟩

/-- A replenishment gives nothing but a refill to the node. -/
theorem replenishServer_asks (n : Nat) :
    AsksOnly (outside N i others) (awaiting .replenishServer (replenishServer cfg n)) m
      fun _ q => ∀ tx, q = .broadcastTransaction tx → IsRefill cfg tx := by
  have hsilent : ∀ (l : Exchanges) (q : Question), q.isSilent = true →
      ∀ tx, q = .broadcastTransaction tx → IsRefill cfg tx := by
    rintro l q hq tx rfl
    cases hq
  have hsettled : ∀ (f : AsyncFunction) tx,
      (.settled f : Question) = .broadcastTransaction tx → IsRefill cfg tx := by
    rintro f tx ⟨⟩
  have hread : ∀ (q : Question), q.isRead = true → ∀ tx,
      q = .broadcastTransaction tx → IsRefill cfg tx :=
    fun q hq => hsilent [] q (Question.isSilent_of_isRead hq)
  refine AsksOnly.call (AsksOnly.call ?_ fun _ _ => hsettled _) fun _ _ => hsettled _
  unfold replenishStrategy
  refine asks_ite (fun _ => asks_done _) fun _ => AsksOnly.call ?_ fun _ _ => hsettled _
  unfold defaultReplenishFunction
  refine AsksOnly.next (asks_silent (awaiting_has (silent_asks rfl) (silent_asks rfl)) hsilent)
    (ensures_true _) fun _ _ _ _ => ?_
  refine AsksOnly.next (asks_silent (awaiting_has (silent_asks rfl) (silent_asks rfl)) hsilent)
    (ensures_true _) fun _ _ _ _ => ?_
  refine asks_modify (asks_get (asks_ite (fun _ => asks_done _) fun _ => ?_))
  refine AsksOnly.next (asks_silent (awaiting_has (silent_asks rfl) (silent_asks rfl)) hsilent)
    (ensures_true _) fun _ _ _ _ => asks_get ?_
  refine AsksOnly.next (asks_silent (awaiting_has (silent_asks rfl)
    (isActionPending_has (fun _ => silent_read) _ _)) hsilent) (ensures_true _) fun _ _ _ _ => ?_
  refine asks_ite (fun _ => asks_get (asks_ite (fun _ => ?_) fun _ => asks_done _))
    fun _ => asks_done _
  refine AsksOnly.next (AsksOnly.call ?_ fun _ _ => hsettled _) (ensures_true _)
    fun _ _ _ _ => asks_done _
  refine (sendTransaction_sends _).1.mono fun l q hgives tx htx => ?_
  obtain ⟨-, gasPrice, -, nonce, value, -, rfl⟩ := hgives tx htx
  exact ⟨rfl, rfl, rfl, rfl⟩

/-! ### The whole handler -/

/-- What is sent for a verified request relays it. -/
theorem relayDetails_relays {req : RelayTransactionRequest} {gas currentBlock gasPrice : Nat}
    {tx : SignedTransaction} (hhub : req.metadata.relayHubAddress = cfg.relayHubAddress)
    (hprice : ∀ n, (relayDetails cfg req gas currentBlock).gasPrice = some n → gasPrice = n)
    (hmakes : (relayDetails cfg req gas currentBlock).Makes cfg gasPrice tx) :
    ∃ nonce, tx = relayTransaction cfg req gas nonce := by
  obtain ⟨nonce, value, hvalue, rfl⟩ := hmakes
  have hgasPrice : gasPrice = req.relayData.gasPrice.toNat := hprice _ rfl
  have hzero : value = 0 := by
    have hvalue' : (value : Int) = 0 := hvalue
    omega
  have hto : (relayDetails cfg req gas currentBlock).destination = some cfg.relayHubAddress := by
    rw [← hhub]
    rfl
  refine ⟨nonce, ?_⟩
  rw [hgasPrice, hzero, hto]
  rfl

/-- A part of the handler, after the exchanges `l₀`: it gives nothing to the node that is not
verified, and resolves to what the node has taken. -/
def Safe (cfg : Config) (N : Node ν ω) (i : ℕ) (others : Memory ν → Memory ν → Prop)
    (req : RelayTransactionRequest) (l₀ : Exchanges) (p : Handler ν SignedTransactionDetails)
    (m : Memory ν) : Prop :=
  AsksOnly (outside N i others) p m (fun l => Backed cfg req (l₀ ++ l)) ∧
    Ensures (outside N i others) p m fun l r _ => ∀ details, r = .ok details →
      Relayed cfg req (l₀ ++ l) details

/-- A silent part of the handler, before the rest of it. -/
theorem Safe.after_silent {req : RelayTransactionRequest} {l₀ : Exchanges} {p : Handler ν α}
    {f : α → Handler ν SignedTransactionDetails} {Φ : Exchanges → Except String α → Memory ν → Prop}
    (hp : silent.has p) (hend : Ensures (outside N i others) p m Φ)
    (hf : ∀ l a m₁, broadcasts l = [] → Φ l (.ok a) m₁ →
      Safe cfg N i others req (l₀ ++ l) (f a) m₁) :
    Safe cfg N i others req l₀ (p.handle (Async.next f)) m := by
  refine AsksOnly.next_ensures (asks_silent hp fun l q hq => backed_silent req _ q hq)
    ((ensures_silent hp).and hend) ?_ (by rintro _ _ _ _ ⟨⟩)
  rintro l a m₁ ⟨hquiet, h⟩
  have hrest := hf l a m₁ hquiet h
  unfold Safe at hrest
  simp only [List.append_assoc] at hrest
  exact hrest

/-- The end of the handler, once the exchanges `l₀` have verified the request. -/
theorem Safe.sending {req : RelayTransactionRequest} {gas : Nat} {l₀ : Exchanges}
    (hquiet : broadcasts l₀ = []) (hverified : Verified cfg req gas l₀) (currentBlock : Nat) :
    Safe cfg N i others req l₀ (do
      let txDetails ← awaiting .sendTransaction
        (sendTransaction cfg (relayDetails cfg req gas currentBlock))
      let _ ← awaiting .replenishServer (replenishServer cfg currentBlock)
      return txDetails) m := by
  have hgives := (@sendTransaction_sends _ _ cfg N i others m
    (relayDetails cfg req gas currentBlock)).1
  have hsends := (@sendTransaction_sends _ _ cfg N i others m
    (relayDetails cfg req gas currentBlock)).2
  have hsent : Ensures (outside N i others) (awaiting .sendTransaction
      (sendTransaction cfg (relayDetails cfg req gas currentBlock))) m fun l r _ =>
        ∀ details, r = .ok details → Relayed cfg req (l₀ ++ l) details := by
    refine hsends.call fun l r m₁ a m₂ h details hdetails => ?_
    obtain ⟨hhash, htaken, gasPrice, hprice, hmakes⟩ := h details hdetails
    obtain ⟨nonce, htx⟩ := relayDetails_relays hverified.hub hprice hmakes
    refine ⟨hhash, ?_, gas, nonce, hverified.mono (List.subset_append_left _ _), htx⟩
    exact List.mem_append_right _ (List.mem_append_left _ htaken)
  refine AsksOnly.next_ensures (AsksOnly.call (hgives.mono ?_) ?_) hsent ?_ (by rintro _ _ _ _ ⟨⟩)
  · intro l q hq tx htx
    obtain ⟨hnone, gasPrice, hprice, hmakes⟩ := hq tx htx
    obtain ⟨nonce, htx⟩ := relayDetails_relays hverified.hub hprice hmakes
    refine .inl ⟨by simp [hquiet, hnone], gas, nonce, hverified.mono ?_, htx⟩
    exact List.subset_append_left _ _
  · exact fun l r => backed_silent req _ _ rfl
  · intro l details m₁ h
    -- only a refill is left, and the request has been relayed
    have hstays : ∀ l', Relayed cfg req (l₀ ++ (l ++ l')) details := by
      intro l'
      rw [← List.append_assoc]
      exact (h details rfl).mono (List.subset_append_left _ _)
    refine AsksOnly.next_ensures ((replenishServer_asks currentBlock).mono ?_) (ensures_true _) ?_
      (by rintro _ _ _ _ ⟨⟩)
    · exact fun l' q hq tx htx => .inr ⟨⟨_, hstays l'⟩, hq tx htx⟩
    · intro l' _ m₂ _
      refine ⟨asks_done _, (ensures_done _).mpr ?_⟩
      rintro _ ⟨⟩
      exact hstays _

theorem createRelayTransaction_safe (hothers : ∀ m m', others m m' → Trusting cfg m')
    (req : RelayTransactionRequest) :
    Safe cfg N i others req [] (createRelayTransaction cfg req) m := by
  refine Safe.after_silent silent.get (ensures_true _) fun l₀ _ m hl₀ _ => ?_
  refine Safe.after_silent (Family.assert _ _) (ensures_true _) fun l₁ _ m hl₁ _ => ?_
  refine Safe.after_silent (Family.whenever fun _ => silent_read rfl) (ensures_true _)
    fun l₂ _ m hl₂ _ => ?_
  refine Safe.after_silent (validateInput_has cfg req) (validateInput_ensures req)
    fun l₃ _ m hl₃ hinput => ?_
  obtain ⟨hhub, hworker⟩ := hinput rfl
  have hpolled : silent.has (validateMaxNonce cfg req.metadata.relayMaxNonce : Handler ν Unit) :=
    Family.next (polled_has (fun _ => silent_read) (fun f _ => silent_writes f) _)
      fun _ => Family.assert _ _
  -- the memory in which the verifier is looked up is one that the other threads have left
  refine Safe.after_silent (awaiting_has (silent_read rfl) hpolled)
    ((validateMaxNonce_ensures req.metadata.relayMaxNonce).and (ensures_resumed hothers))
    fun l₄ _ m hl₄ h₄ => ?_
  obtain ⟨nonce, a, hsettled, hnonce⟩ := h₄.1 rfl
  refine Safe.after_silent (awaiting_has (silent_read rfl)
    (validateRequestWithVerifier_has cfg (fun _ => silent_read) req))
    (validateRequestWithVerifier_ensures h₄.2 req) fun l₅ gas m hl₅ hestimated => ?_
  obtain ⟨htrusted, hcreated, hagreed, hestimate, hverified⟩ := hestimated gas rfl
  refine Safe.after_silent (awaiting_has (silent_read rfl)
    (Family.recover (silent_read rfl) fun _ => Family.throw _))
    (validateViewCallSucceeds_ensures req gas) fun l₆ _ m hl₆ hviewed => ?_
  refine Safe.after_silent (silent_read rfl) (ensures_true _) fun l₇ currentBlock m hl₇ _ => ?_
  refine Safe.sending (by simp [hl₀, hl₁, hl₂, hl₃, hl₄, hl₅, hl₆, hl₇]) ?_ currentBlock
  refine ⟨hhub, hworker, ⟨nonce, a, by simp [hsettled], hnonce⟩, htrusted, by simp [hcreated], ?_,
    by simp [hestimate], by simp [hverified], by simp [hviewed rfl]⟩
  intro relayRequest metadata hreq
  obtain ⟨estimate, hmem, hle⟩ := hagreed relayRequest metadata hreq
  exact ⟨estimate, by simp [hmem], hle⟩

end Parts

/-! ## Runs of the server -/

/-- What the threads of a server see of each other is that its memory trusts no other verifier. -/
theorem surroundings_server (i : ℕ) :
    (server cfg N).surroundings (Trusting cfg) i = outside N i fun _ m => Trusting cfg m := by
  have hreplies : ∀ (m : Memory ν) (q : Question) (a : Except String (Answer q)),
      (∃ x : State ν, x.memory = m ∧ mayReply N x.memory q a) ↔ mayReply N m q a := by
    intro m q a
    constructor
    · rintro ⟨x, rfl, h⟩
      exact h
    · exact fun h => ⟨⟨m, []⟩, rfl, h⟩
  unfold System.surroundings outside
  congr 1
  funext m q a
  exact propext (hreplies m q a)

/-- **Nothing is relayed before it is verified.** Whatever the node answers and whatever the other
handlers do, the handling of a request gives nothing to the node but, once, the call of the hub that
relays it, after all checks have gone well for its gas, and then a refill of the worker; and what it
resolves to is the call of the hub, which the node has taken. What a later round resends with a
higher gas price is given to the node by the round. -/
theorem relayed_verified {txstore : List StoredTransaction} {signatures : List Signature}
    {node : ν} {p : Pool Call (Memory ν) Question Answer Reply}
    (hrun : Run (server cfg N) Anyhow (.fresh cfg txstore signatures node) p) {i : ℕ}
    {req : RelayTransactionRequest}
    (hcalled : .called i (.createRelayTransaction req) ∈ p.shared.log) :
    (∀ l₁ q l₂, p.shared.log = l₁ ++ .asked i q :: l₂ → Backed cfg req (exchanges i l₁) q) ∧
      ∀ l₁ details l₂, p.shared.log = l₁ ++ .ended i (.ok (.sent details)) :: l₂ →
        Relayed cfg req (exchanges i l₁) details := by
  have htrusting : ∀ p, Run (server cfg N) Anyhow (.fresh cfg txstore signatures node) p →
      Trusting cfg p.shared.memory :=
    fun p hp => run_keeps trusting_keepsAll (fun _ hv => (List.not_mem_nil hv).elim) hp
  have hprojected := run_projects htrusting hrun
  have hsafe : ∀ m, Safe cfg N i (fun _ m => Trusting cfg m) req []
      (createRelayTransaction cfg req) m :=
    fun m => createRelayTransaction_safe (fun _ _ h => h) req
  constructor
  · intro l₁ q l₂ hlog
    obtain ⟨m, -, hasked⟩ := hprojected.asked hcalled hlog
    rw [surroundings_server] at hasked
    have hasks : AsksOnly (outside N i fun _ m => Trusting cfg m)
        (handler cfg i (.createRelayTransaction req)) m (Backed cfg req) :=
      (hsafe m).1.next (ensures_true _) fun _ _ _ _ => asks_done _
    exact hasks _ q hasked
  · intro l₁ details l₂ hlog
    obtain ⟨m, m', -, hruns⟩ := hprojected.ended hcalled hlog
    rw [surroundings_server] at hruns
    have hends : Ensures (outside N i fun _ m => Trusting cfg m)
        (handler cfg i (.createRelayTransaction req)) m fun l r _ =>
          ∀ details, r = .ok (.sent details) → Relayed cfg req l details := by
      refine (hsafe m).2.next ?_ (by rintro _ _ _ _ _ ⟨⟩)
      intro l details m₁ h
      refine (ensures_done _).mpr ?_
      rintro _ ⟨⟩
      rw [List.append_nil]
      exact h details rfl
    exact hends _ _ _ hruns details rfl

/-! ## A relayed request -/

def walletRequest : RelayTransactionRequest :=
  .relay ⟨⟨0x33, 0x66, 0x77, 0, 0, 1000, 0, 0, 0, []⟩, ⟨2, 0, 0x22, 0x88, 0x44⟩⟩ ⟨0x33, 5, []⟩

/-- Answers to a server that relays a request, and then refills its worker. -/
def relayingAnswer : (q : Question) → Except String (Answer q)
  | .acquire => .ok ()
  | .findOne _ => .ok none
  | .insert _ => .ok ()
  | .getTransactionCount _ => .ok 0
  | .createVerifier _ => .ok ()
  | .estimateDestinationGas _ => .ok 900
  | .estimateGas _ => .ok 40000
  | .verifyRelayedCall _ => .ok ()
  | .viewCall _ _ _ => .ok ()
  | .getBlockNumber => .ok 7
  | .broadcastTransaction tx => .ok (plainConfig.hash tx)
  | q => registeredAnswer q

def relaying : List (Move Call Question Answer Unit) :=
  twoRounds ++ .call 2 (.createRelayTransaction walletRequest) :: Move.turns 2 relayingAnswer 26

theorem relaying_plays :
    ((Pool.start (.fresh plainConfig [] [] ())).play (server plainConfig anyNode) Anyhow
      relaying).isSome = true := by
  decide +kernel

def relayingServer : Pool Call (Memory Unit) Question Answer Reply := Option.get _ relaying_plays

/-- The thread that has ended last, with what it has sent. -/
def lastSent (log : Log) : Option (ℕ × SignedTransactionDetails) :=
  log.getLast?.bind fun e =>
    match e with
    | .ended i (.ok (.sent details)) => some (i, details)
    | _ => none

theorem eq_append_of_lastSent {log : Log} {i : ℕ} {details : SignedTransactionDetails}
    (h : lastSent log = some (i, details)) : ∃ l, log = l ++ [.ended i (.ok (.sent details))] := by
  obtain ⟨e, hlast, he⟩ := Option.bind_eq_some_iff.mp h
  obtain ⟨l, hl⟩ := List.getLast?_eq_some_iff.mp hlast
  refine ⟨l, ?_⟩
  split at he
  · obtain ⟨rfl, rfl⟩ := Prod.mk.inj (Option.some.inj he)
    exact hl
  · cases he

def hasCalled (log : Log) (i : ℕ) (c : Call) : Bool :=
  log.any fun e =>
    match e with
    | .called j c' => j == i && c' == c
    | _ => false

theorem called_of_hasCalled {log : Log} {i : ℕ} {c : Call} (h : hasCalled log i c = true) :
    .called i c ∈ log := by
  obtain ⟨e, hmem, he⟩ := List.any_eq_true.mp h
  split at he
  · simp only [Bool.and_eq_true, beq_iff_eq] at he
    obtain ⟨rfl, rfl⟩ := he
    exact hmem
  · cases he

def walletRelay : SignedTransactionDetails :=
  let tx := relayTransaction plainConfig walletRequest 40000 0
  ⟨plainConfig.hash tx, tx⟩

theorem relayed_verified_relaying : ∃ l, Relayed plainConfig walletRequest l walletRelay := by
  have hrun : Run (server plainConfig anyNode) Anyhow (.fresh plainConfig [] [] ())
      relayingServer := Run.of_isSome relaying_plays
  have hcalled : hasCalled relayingServer.shared.log 2 (.createRelayTransaction walletRequest) =
      true := by decide +kernel
  have hsent : lastSent relayingServer.shared.log = some (2, walletRelay) := by decide +kernel
  obtain ⟨l, hlog⟩ := eq_append_of_lastSent hsent
  exact ⟨_, (relayed_verified hrun (called_of_hasCalled hcalled)).2 l _ [] hlog⟩

end RifRelay.Server
