import RifRelay.Client.RelayClient
import RifRelay.Tasks.Triples

set_option autoImplicit false

/-! # What a client sends, and what it takes

A client that sends a request to a relay pays for it, and so it should send only what its user has
asked for, has signed, and has seen to go through in a local call; to no relay twice; and to nobody
any more once a relay has given it a transaction that it takes. `relaying_safe` says so of every run
of a client, whatever the node and the relays answer.
-/

namespace RifRelay.RelayClient

open EventLoop RelaySelectionManager
open Server (RelayTransactionRequest SignedTransaction)

variable {cfg : EnvelopingConfig} {details : EnvelopingTransactionDetails}

abbrev History : Type := List (Exchange Question Answer)

/-! ## Requests -/

/-- The request is what the details ask for. -/
def Fits (details : EnvelopingTransactionDetails) : RelayTransactionRequest → Prop
  | .relay ⟨request, _⟩ _ =>
      isDeploy details = false ∧ request.from = details.from ∧ request.to = details.to ∧
        request.data = details.data ∧ request.value = details.value.getD 0 ∧
        request.relayHub = details.relayHub.getD 0 ∧
        request.tokenContract = details.tokenContract.getD 0 ∧
        request.tokenAmount = details.tokenAmount.getD 0 ∧
        ∀ tokenGas, details.tokenGas = some tokenGas → request.tokenGas = tokenGas
  | .deploy ⟨request, _⟩ _ =>
      isDeploy details = true ∧ request.from = details.from ∧ request.to = details.to ∧
        request.data = details.data ∧ request.value = details.value.getD 0 ∧
        request.relayHub = details.relayHub.getD 0 ∧
        request.tokenContract = details.tokenContract.getD 0 ∧
        request.tokenAmount = details.tokenAmount.getD 0 ∧
        (∀ tokenGas, details.tokenGas = some tokenGas → request.tokenGas = tokenGas) ∧
        request.recoverer = details.recoverer.getD 0 ∧ request.index = details.index.getD 0

/-- The typed data of a request. -/
def typed (cfg : EnvelopingConfig) : RelayTransactionRequest → TypedData.TypedMessage
  | .relay r _ => typedRequestData cfg.chainId r.relayData.callForwarder r
  | .deploy r _ => typedDeployRequestData cfg.chainId r.relayData.callForwarder r

/-- The nonce of the request was read from the contract that will check it. -/
def NonceRead (details : EnvelopingTransactionDetails) (l : History) :
    RelayTransactionRequest → Prop
  | .relay r _ => ⟨.getSenderNonce r.relayData.callForwarder, .ok r.request.nonce⟩ ∈ l
  | .deploy r _ =>
      ⟨.getFactoryNonce r.relayData.callForwarder details.from, .ok r.request.nonce⟩ ∈ l

/-- The verifier that the client asks. -/
def ownVerifier (cfg : EnvelopingConfig) (req : RelayTransactionRequest) : Address :=
  if req.isDeployRequest then cfg.deployVerifierAddress else cfg.relayVerifierAddress

/-- The request is made for the details and the relay, and signed. -/
structure Made (cfg : EnvelopingConfig) (details : EnvelopingTransactionDetails) (relay : Relay)
    (l : History) (req : RelayTransactionRequest) : Prop where
  fits : Fits details req
  forwarder : req.relayData.callForwarder = details.callForwarder.getD 0 ∧
    req.relayData.callForwarder ≠ 0
  verifier : req.relayData.callVerifier = details.callVerifier.getD (ownVerifier cfg req)
  worker : req.relayData.relayWorker = relay.relayWorkerAddress
  domain : req.relayData.domainSeparator = (TypedRequestData.getDomainSeparatorHash cfg.keccak256
    req.relayData.callForwarder cfg.chainId).getD 0
  price : ∃ gasPrice, details.gasPrice = some gasPrice ∧
    req.relayData.gasPrice = cfg.uint256 (parsedText gasPrice)
  gas : ∀ relayRequest metadata, req = .relay relayRequest metadata → ∃ gas,
    details.gas = some gas ∧ relayRequest.request.gas = cfg.uint256 (parsedText gas)
  nonce : NonceRead details l req
  signed : cfg.recoverTypedSignature (typed cfg req) req.metadata.signature = .ok details.from
  hub : req.metadata.relayHubAddress = cfg.relayHubAddress
  maxNonce : ∃ n : Nat, ⟨.getTransactionCount relay.relayWorkerAddress, .ok n⟩ ∈ l ∧
    req.metadata.relayMaxNonce = n + cfg.maxRelayNonceGap

theorem Made.mono {relay : Relay} {l l' : History} {req : RelayTransactionRequest}
    (h : Made cfg details relay l req) (hl : l ⊆ l') : Made cfg details relay l' req where
  fits := h.fits
  forwarder := h.forwarder
  verifier := h.verifier
  worker := h.worker
  domain := h.domain
  price := h.price
  gas := h.gas
  nonce := by
    cases req with
    | relay r metadata => exact hl h.nonce
    | deploy r metadata => exact hl h.nonce
  signed := h.signed
  hub := h.hub
  maxNonce := by
    obtain ⟨n, hn, hmax⟩ := h.maxNonce
    exact ⟨n, hl hn, hmax⟩

/-- The request has gone through locally, with gas for which the worker can pay. -/
structure Tried (cfg : EnvelopingConfig) (l : History) (req : RelayTransactionRequest) : Prop where
  verified : ⟨.verifyRelayedCall (ownVerifier cfg req) req, .ok ()⟩ ∈ l
  viewed : ∃ gas success balance, 0 < gas ∧ ⟨.viewCall req gas, .ok success⟩ ∈ l ∧
    (req.isDeployRequest = false → success = true) ∧
    ⟨.getBalance req.relayData.relayWorker, .ok balance⟩ ∈ l ∧
    gas * req.relayData.gasPrice.toNat ≤ balance

/-- The relay has won a race of pings. -/
def Won (l : History) (relay : Relay) : Prop :=
  ∃ selection manager races info next, ⟨.pingRelays selection manager, .ok races⟩ ∈ l ∧
    selectNextRelay selection races.pings manager = some (.ok (some info), next) ∧
    relay = ⟨races.relayWorkerAddress, info.relayInfo⟩

/-- A request may be sent to the relay. -/
structure Prepared (cfg : EnvelopingConfig) (details : EnvelopingTransactionDetails) (relay : Relay)
    (l : History) (req : RelayTransactionRequest) : Prop where
  won : Won l relay
  made : Made cfg details relay l req
  tried : Tried cfg l req

theorem Tried.mono {l l' : History} {req : RelayTransactionRequest} (h : Tried cfg l req)
    (hl : l ⊆ l') : Tried cfg l' req where
  verified := hl h.verified
  viewed := by
    obtain ⟨gas, success, balance, hpos, hviewed, hsuccess, hbalance, hle⟩ := h.viewed
    exact ⟨gas, success, balance, hpos, hl hviewed, hsuccess, hl hbalance, hle⟩

theorem Won.mono {l l' : History} {relay : Relay} (h : Won l relay) (hl : l ⊆ l') :
    Won l' relay := by
  obtain ⟨selection, manager, races, info, next, hmem, hselected, hrelay⟩ := h
  exact ⟨selection, manager, races, info, next, hl hmem, hselected, hrelay⟩

theorem Prepared.mono {relay : Relay} {l l' : History} {req : RelayTransactionRequest}
    (h : Prepared cfg details relay l req) (hl : l ⊆ l') : Prepared cfg details relay l' req :=
  ⟨h.won.mono hl, h.made.mono hl, h.tried.mono hl⟩

/-- The client takes this transaction when the relay answers `a` to the request. -/
def Takes (cfg : EnvelopingConfig) (req : RelayTransactionRequest) (a : Except String RelayResponse)
    (tx : SignedTransaction) : Prop :=
  ∃ response signedTx, a = .ok response ∧ response.error = none ∧
    response.signedTx = some signedTx ∧
    cfg.decodeTransaction signedTx = .ok tx ∧ validateRelayResponse cfg req tx = .ok true

/-- The transaction calls the hub for the request, by the worker and with a nonce that the client
has allowed. -/
structure Valid (cfg : EnvelopingConfig) (req : RelayTransactionRequest) (tx : SignedTransaction) :
    Prop where
  signer : tx.signer = req.relayData.relayWorker
  «to» : tx.transaction.to = some cfg.relayHubAddress
  data : tx.transaction.data = cfg.encodeABI req.method
  nonce : (tx.transaction.nonce : Int) ≤ req.metadata.relayMaxNonce
  short : tx.transaction.nonce < 256 ^ 6

/-- What the validator accepts. -/
theorem validateRelayResponse_iff {req : RelayTransactionRequest} {tx : SignedTransaction} :
    validateRelayResponse cfg req tx = .ok true ↔ Valid cfg req tx := by
  unfold validateRelayResponse readNonce
  constructor
  · intro h
    split at h
    next hsame =>
      split at h
      next e hread => cases h
      next receivedNonce hread =>
        split at hread
        next hshort =>
          obtain rfl := Except.ok.inj hread
          split at h
          next hhigh => cases h
          next hlow => exact ⟨hsame.2.2.symm, hsame.1, hsame.2.1.symm, by omega, hshort⟩
        next => cases hread
    next => cases h
  · rintro ⟨hsigner, hto, hdata, hnonce, hshort⟩
    rw [if_pos ⟨hto, hdata.symm, hsigner.symm⟩, if_pos hshort]
    exact if_neg (by omega)

theorem Takes.valid {req : RelayTransactionRequest} {a : Except String RelayResponse}
    {tx : SignedTransaction} (h : Takes cfg req a tx) : Valid cfg req tx := by
  obtain ⟨_, _, -, -, -, -, hvalid⟩ := h
  exact validateRelayResponse_iff.mp hvalid

/-! ## Histories -/

/-- The question sends a request. -/
def Question.sends : Question → Bool
  | .sendPromise _ _ => true
  | _ => false

/-- Nothing was sent between `l₀` and `l`. -/
structure Later (l₀ l : History) : Prop where
  subset : l₀ ⊆ l
  same : ∀ url req a, ⟨.sendPromise url req, a⟩ ∈ l → ⟨.sendPromise url req, a⟩ ∈ l₀

theorem Later.refl (l : History) : Later l l := ⟨List.Subset.refl l, fun _ _ _ h => h⟩

theorem Later.trans {l₀ l₁ l₂ : History} (h : Later l₀ l₁) (h' : Later l₁ l₂) : Later l₀ l₂ :=
  ⟨List.Subset.trans h.subset h'.subset,
    fun url req a hmem => h.same url req a (h'.same url req a hmem)⟩

theorem Later.ask {q : Question} (hq : q.sends = false) (a : Except String (Answer q))
    (l : History) :
    Later l (l ++ [⟨q, a⟩]) := by
  refine ⟨List.subset_append_left _ _, fun url req b hmem => ?_⟩
  rcases List.mem_append.mp hmem with hold | hnew
  · exact hold
  · cases List.mem_singleton.mp hnew
    cases hq

/-- A program that sends nothing ends with an `a` such that `F`, or throws an `e` such that `E`. -/
def Ends {α : Type} (l₀ : History) (F : α → History → Prop) (E : String → History → Prop) :
    Post Memory Question Answer α :=
  fun l r _ => Later l₀ l ∧
    match r with
    | .ok a => F a l
    | .error e => E e l

section Rules

variable {W : Surroundings Memory Question Answer} {l₀ : History} {m : Memory} {α β : Type}
  {P : History → Question → Prop} {F : α → History → Prop} {G : β → History → Prop}
  {E : String → History → Prop}

theorem ends_ok {a : α} (h : F a l₀) : Triple W l₀ (.done (.ok a)) m P (Ends l₀ F E) :=
  triple_done ⟨Later.refl l₀, h⟩

theorem ends_throw {e : String} (h : E e l₀) : Triple W l₀ (Async.throw e) m P (Ends l₀ F E) :=
  triple_done ⟨Later.refl l₀, h⟩

theorem ends_done {r : Except String α} (hok : ∀ a, r = .ok a → F a l₀)
    (herror : ∀ e, r = .error e → E e l₀) : Triple W l₀ (.done r) m P (Ends l₀ F E) := by
  cases r with
  | ok a => exact ends_ok (hok a rfl)
  | error e => exact ends_throw (herror e rfl)

theorem Ends.handle {E' : String → History → Prop} {p : Handler α} {f : Except String α → Handler β}
    (hp : Triple W l₀ p m P (Ends l₀ F E))
    (hok : ∀ l a m₁, Later l₀ l → F a l → Triple W l (f (.ok a)) m₁ P (Ends l G E'))
    (herror : ∀ l e m₁, Later l₀ l → E e l → Triple W l (f (.error e)) m₁ P (Ends l G E')) :
    Triple W l₀ (p.handle f) m P (Ends l₀ G E') := by
  refine Triple.handle hp fun l r m₁ h => ?_
  have hrest : Triple W l (f r) m₁ P (Ends l G E') := by
    cases r with
    | ok a => exact hok l a m₁ h.1 h.2
    | error e => exact herror l e m₁ h.1 h.2
  exact hrest.mono fun l' r' _ h' => ⟨h.1.trans h'.1, h'.2⟩

theorem Ends.next {p : Handler α} {f : α → Handler β} (hp : Triple W l₀ p m P (Ends l₀ F E))
    (hf : ∀ l a m₁, Later l₀ l → F a l → Triple W l (f a) m₁ P (Ends l G E)) :
    Triple W l₀ (p.handle (Async.next f)) m P (Ends l₀ G E) :=
  Ends.handle hp hf fun _ _ _ _ he => ends_throw he

theorem Ends.recover {E' : String → History → Prop} {p : Handler α} {f : String → Handler α}
    (hp : Triple W l₀ p m P (Ends l₀ F E))
    (hkept : ∀ a l l', Later l l' → F a l → F a l')
    (hf : ∀ l e m₁, Later l₀ l → E e l → Triple W l (f e) m₁ P (Ends l F E')) :
    Triple W l₀ (p.recover f) m P (Ends l₀ F E') :=
  Ends.handle hp (fun l a _ _ h => ends_ok (hkept a l l (Later.refl l) h)) hf

/-- Nothing but requests is restricted. -/
def Allows (P : History → Question → Prop) : Prop := ∀ l q, q.sends = false → P l q

theorem ends_ask (hP : Allows P) {q : Question} (hq : q.sends = false)
    (hE : ∀ e l, ⟨q, .error e⟩ ∈ l → E e l) : Triple W l₀ (ask q) m P
      (Ends l₀ (fun a l => ⟨q, .ok a⟩ ∈ l) E) := by
  refine triple_await (hP l₀ q hq) fun _ a _ _ => ⟨Later.ask hq a l₀, ?_⟩
  cases a with
  | ok a => exact List.mem_append_right _ (List.mem_singleton_self _)
  | error e => exact hE e _ (List.mem_append_right _ (List.mem_singleton_self _))

theorem ends_assert {p : Prop} [Decidable p] {e : String} {k : Unit → Handler β}
    (h : p → Triple W l₀ (k ()) m P (Ends l₀ G E)) (herror : ¬ p → E e l₀) :
    Triple W l₀ ((Async.assert p e).handle (Async.next k)) m P (Ends l₀ G E) :=
  triple_assert h fun hp => ⟨Later.refl l₀, herror hp⟩

theorem Ends.mono {F' : α → History → Prop} {p : Handler α} (h : Triple W l₀ p m P (Ends l₀ F E))
    (hF : ∀ a l, Later l₀ l → F a l → F' a l) : Triple W l₀ p m P (Ends l₀ F' E) := by
  refine h.mono fun l r _ h' => ⟨h'.1, ?_⟩
  cases r with
  | ok a => exact hF a l h'.1 h'.2
  | error e => exact h'.2

/-! ## Making a request -/

/-- Any error. -/
def anyError (_ : String) (_ : History) : Prop := True

variable {relay : Relay}

theorem resolveForwarder_ends (hE : ∀ l, E "No callForwarder address configured" l) :
    Triple W l₀ (resolveForwarder details) m P
      (Ends l₀ (fun a _ => a = details.callForwarder.getD 0 ∧ a ≠ 0) E) := by
  unfold resolveForwarder
  exact ends_assert (fun h => ends_ok ⟨rfl, h⟩) fun _ => hE l₀

theorem checkedNumber_ends {name missing : String} {t : Option Text} :
    Triple W l₀ (checkedNumber cfg name missing t) m P
      (Ends l₀ (fun a _ => ∃ t', t = some t' ∧ a = cfg.uint256 (parsedText t')) anyError) := by
  unfold checkedNumber
  cases t with
  | none => exact ends_throw trivial
  | some t => exact ends_assert (fun _ => ends_ok ⟨t, rfl, rfl⟩) fun _ => trivial

/-- A signature that is handed on was recovered to the address of the user. -/
theorem sign_ends (hP : Allows P) {owner : Address} {signedData : TypedData.TypedMessage} :
    Triple W l₀ (sign cfg owner signedData) m P
      (Ends l₀ (fun a _ => cfg.recoverTypedSignature signedData a = .ok owner) anyError) := by
  have hmake : ∀ l m, Triple W l (makeSignature cfg owner signedData) m P
      (Ends l (fun _ _ => True) anyError) := by
    intro l m
    refine triple_get ?_
    cases m.accounts.find? (·.address = owner) with
    | some keypair => exact ends_done (fun _ _ => trivial) fun _ _ => trivial
    | none => exact Ends.mono (ends_ask hP rfl fun _ _ _ => trivial) fun _ _ _ _ => trivial
  have hboth : Triple W l₀ (do
      let signature ← makeSignature cfg owner signedData
      let recovered ← (.done (cfg.recoverTypedSignature signedData signature) : Handler Address)
      return (signature, recovered)) m P
      (Ends l₀ (fun x _ => cfg.recoverTypedSignature signedData x.1 = .ok x.2) anyError) := by
    refine Ends.next (hmake l₀ m) fun l signature m₁ _ _ => ?_
    refine Ends.next (ends_done
      (F := fun a _ => cfg.recoverTypedSignature signedData signature = .ok a)
      (fun _ h => h) fun _ _ => trivial) fun l recovered m₂ _ h => ?_
    exact ends_ok h
  unfold sign
  refine Ends.next (Ends.recover hboth (fun _ _ _ _ h => h) fun _ _ _ _ _ => ends_throw trivial)
    fun l signed m₁ _ h => ?_
  refine ends_assert (fun hsame => ends_ok ?_) fun _ => trivial
  rw [h, hsame]

theorem metadataOf_ends (hP : Allows P) {signature : Bytes} :
    Triple W l₀ (metadataOf cfg relay signature) m P (Ends l₀ (fun a l =>
      a.relayHubAddress = cfg.relayHubAddress ∧ a.signature = signature ∧ ∃ n : Nat,
        ⟨.getTransactionCount relay.relayWorkerAddress, .ok n⟩ ∈ l ∧
          a.relayMaxNonce = n + cfg.maxRelayNonceGap) anyError) := by
  unfold metadataOf
  refine Ends.next (ends_ask hP rfl fun _ _ _ => trivial) fun l n m₁ _ hn => ?_
  exact ends_ok ⟨rfl, rfl, n, hn, rfl⟩

theorem prepareRelayHttpRequest_ends (hP : Allows P) (hcall : isDeploy details = false) :
    Triple W l₀ (prepareRelayHttpRequest cfg relay details) m P
      (Ends l₀ (fun req l => Made cfg details relay l req) anyError) := by
  unfold prepareRelayHttpRequest
  refine Ends.next (resolveForwarder_ends fun _ => trivial) fun l forwarder m _ hforwarder => ?_
  refine Ends.next (ends_ask hP rfl fun _ _ _ => trivial) fun l nonce m _ hnonce => ?_
  refine ends_assert (fun _ => ?_) fun _ => trivial
  refine Ends.next checkedNumber_ends fun l gasPrice m hl₁ hprice => ?_
  refine Ends.next checkedNumber_ends fun l gasLimit m hl₂ hgas => ?_
  refine Ends.next (sign_ends hP) fun l signature m hl₃ hsigned => ?_
  refine Ends.next (metadataOf_ends hP) fun l metadata m hl₄ hmetadata => ?_
  obtain ⟨hhub, rfl, hmax⟩ := hmetadata
  refine ends_ok ⟨?_, hforwarder, rfl, rfl, rfl, hprice, ?_, ?_, hsigned, hhub, hmax⟩
  · refine ⟨hcall, rfl, rfl, rfl, rfl, rfl, rfl, rfl, fun tokenGas h => ?_⟩
    show details.tokenGas.getD 0 = tokenGas
    rw [h]
    rfl
  · rintro _ _ ⟨⟩
    exact hgas
  · exact hl₄.subset (hl₃.subset (hl₂.subset (hl₁.subset hnonce)))

theorem prepareDeployHttpRequest_ends (hP : Allows P) (hdeploy : isDeploy details = true) :
    Triple W l₀ (prepareDeployHttpRequest cfg relay details) m P
      (Ends l₀ (fun req l => Made cfg details relay l req) anyError) := by
  unfold prepareDeployHttpRequest
  refine Ends.next (resolveForwarder_ends fun _ => trivial) fun l forwarder m _ hforwarder => ?_
  refine Ends.next (ends_ask hP rfl fun _ _ _ => trivial) fun l nonce m _ hnonce => ?_
  refine Ends.next checkedNumber_ends fun l gasPrice m hl₁ hprice => ?_
  refine Ends.next (sign_ends hP) fun l signature m hl₂ hsigned => ?_
  refine Ends.next (metadataOf_ends hP) fun l metadata m hl₃ hmetadata => ?_
  obtain ⟨hhub, rfl, hmax⟩ := hmetadata
  refine ends_ok ⟨?_, hforwarder, rfl, rfl, rfl, hprice, ?_, ?_, hsigned, hhub, hmax⟩
  · refine ⟨hdeploy, rfl, rfl, rfl, rfl, rfl, rfl, rfl, fun tokenGas h => ?_, rfl, rfl⟩
    show details.tokenGas.getD 0 = tokenGas
    rw [h]
    rfl
  · rintro _ _ ⟨⟩
  · exact hl₃.subset (hl₂.subset (hl₁.subset hnonce))

/-! ## Trying a request -/

theorem getMaxViewableGasLimit_ends (hP : Allows P) {req : RelayTransactionRequest} :
    Triple W l₀ (getMaxViewableGasLimit req) m P (Ends l₀ (fun gas l => 0 < gas → ∃ balance,
      ⟨.getBalance req.relayData.relayWorker, .ok balance⟩ ∈ l ∧
        gas * req.relayData.gasPrice.toNat ≤ balance) anyError) := by
  unfold getMaxViewableGasLimit
  refine triple_ite (fun _ => ends_ok fun h => absurd h (Nat.lt_irrefl 0)) fun hprice => ?_
  have hestimate : Triple W l₀ (maxEstimatedGas req) m P (Ends l₀ (fun _ _ => True) anyError) := by
    unfold maxEstimatedGas
    refine ends_assert (fun _ => ?_) fun _ => trivial
    exact Ends.next (ends_ask hP rfl fun _ _ _ => trivial) fun _ _ _ _ _ => ends_ok trivial
  refine Ends.next hestimate fun l maxEstimatedGas m _ _ => ?_
  refine Ends.next (ends_ask hP rfl fun _ _ _ => trivial) fun l balance m _ hbalance => ?_
  refine ends_ok fun hpos => ⟨balance, hbalance, ?_⟩
  split at hpos
  next hle =>
    rw [if_pos hle]
    calc maxEstimatedGas * req.relayData.gasPrice.toNat
        ≤ balance / req.relayData.gasPrice.toNat * req.relayData.gasPrice.toNat :=
          Nat.mul_le_mul_right _ hle
      _ ≤ balance := Nat.div_mul_le_self _ _
  next => exact absurd hpos (Nat.lt_irrefl 0)

/-- What the result of `validateAccept` must be for the request to be sent. -/
def AcceptResult.Passes (result : AcceptResult) : Prop :=
  result.revertedInDestination = false ∧ result.reverted = false ∧ result.verifierAccepted = true

theorem validateAccept_ends (hP : Allows P) {req : RelayTransactionRequest} :
    Triple W l₀ (validateAccept cfg req) m P
      (Ends l₀ (fun result l => result.Passes → Tried cfg l req) anyError) := by
  unfold validateAccept
  refine Ends.next (getMaxViewableGasLimit_ends hP) fun l gas m _ hgas => ?_
  refine triple_ite (fun _ => ends_ok ?_) fun hpos => ?_
  · rintro ⟨-, -, ⟨⟩⟩
  · refine Ends.handle (ends_ask (E := anyError) hP rfl fun _ _ _ => trivial) ?_ ?_
    · intro l' u m hl' hverified
      obtain ⟨balance, hbalance, hle⟩ := hgas (Nat.pos_of_ne_zero hpos)
      refine Ends.handle (ends_ask (E := anyError) hP rfl fun _ _ _ => trivial) ?_ ?_
      · intro l'' success m hl'' hviewed
        refine ends_ok fun hpasses => ⟨hl''.subset hverified, gas, success, balance,
          Nat.pos_of_ne_zero hpos, hviewed, ?_, hl''.subset (hl'.subset hbalance), hle⟩
        intro hcall
        have hnot : (!req.isDeployRequest && !success) = false := hpasses.1
        rw [hcall] at hnot
        simpa using hnot
      · intro l'' e m _ _
        refine ends_ok ?_
        rintro ⟨-, ⟨⟩, -⟩
    · intro l' e m _ _
      refine ends_ok ?_
      rintro ⟨-, -, ⟨⟩⟩

theorem prepareRequest_ends (hP : Allows P) :
    Triple W l₀ (prepareRequest cfg relay details) m P (Ends l₀ (fun x l =>
      x.2 = none → Made cfg details relay l x.1 ∧ Tried cfg l x.1) anyError) := by
  have hmake : Triple W l₀ (if isDeploy details then prepareDeployHttpRequest cfg relay details
      else prepareRelayHttpRequest cfg relay details) m P
      (Ends l₀ (fun req l => Made cfg details relay l req) anyError) := by
    refine triple_ite (fun h => prepareDeployHttpRequest_ends hP h) fun h => ?_
    exact prepareRelayHttpRequest_ends hP (by simpa using h)
  unfold prepareRequest
  refine Ends.next hmake fun l req m _ hmade => ?_
  refine Ends.next (validateAccept_ends hP) fun l' result m hl' htried => ?_
  refine ends_ok fun hnone => ⟨hmade.mono hl'.subset, htried ?_⟩
  unfold AcceptResult.Passes
  cases hdestination : result.revertedInDestination with
  | true => simp [hdestination] at hnone
  | false =>
      cases hreverted : result.reverted with
      | true => simp [hdestination, hreverted] at hnone
      | false =>
          cases haccepted : result.verifierAccepted with
          | false => simp [hdestination, hreverted, haccepted] at hnone
          | true => exact ⟨rfl, rfl, rfl⟩

end Rules

/-! ## Attempts -/

/-- The details with what the client has estimated. -/
structure Completed (details current : EnvelopingTransactionDetails) : Prop where
  same : ∃ gas gasPrice tokenGas,
    current = { details with gas := gas, gasPrice := gasPrice, tokenGas := tokenGas }
  price : ∀ gasPrice, details.forceGasPrice = some gasPrice → current.gasPrice = some gasPrice
  gas : isDeploy details = false → ∀ gas, details.gas = some gas → current.gas = some gas
  tokenGas : ∀ tokenGas, details.tokenGas = some tokenGas → current.tokenGas = some tokenGas

/-- Nothing that the client was sent has been taken. -/
def NothingTaken (cfg : EnvelopingConfig) (l : History) : Prop :=
  ∀ url req a, ⟨.sendPromise url req, a⟩ ∈ l → ∀ tx, ¬ Takes cfg req a tx

/-- A request is sent only if it is prepared, nothing was sent to its relay before, and nothing was
taken. -/
def Justified (cfg : EnvelopingConfig) (details : EnvelopingTransactionDetails) (l : History)
    (q : Question) : Prop :=
  ∀ url req, q = .sendPromise url req →
    (∃ relay current, relay.relayInfo.relayUrl = url ∧ Completed details current ∧
      Prepared cfg current relay l req) ∧
    NothingTaken cfg l ∧ ∀ req' a, ⟨.sendPromise url req', a⟩ ∉ l

theorem allows_justified : Allows (Justified cfg details) := by
  rintro l q hq url req rfl
  cases hq

/-- The client has asked whether the node knows the transaction, and has sent it if the node said
no. An error of this question is swallowed, and then nothing is sent. -/
def Offered (cfg : EnvelopingConfig) (l : History) (tx : SignedTransaction) : Prop :=
  ∃ a, ⟨.isAlreadySubmitted (cfg.hash tx), a⟩ ∈ l ∧
    (a = .ok false → ∃ b, ⟨.sendSignedTransaction tx, b⟩ ∈ l)

/-- The transaction came back for a request that was prepared. -/
def Brought (cfg : EnvelopingConfig) (details : EnvelopingTransactionDetails) (relay : Relay)
    (l : History) (tx : SignedTransaction) : Prop :=
  ∃ req a, ⟨.sendPromise relay.relayInfo.relayUrl req, a⟩ ∈ l ∧
    Prepared cfg details relay l req ∧ Takes cfg req a tx ∧ Valid cfg req tx ∧ Offered cfg l tx

/-- What an attempt with `relay` adds to the history `l₀`. -/
structure Attempted (cfg : EnvelopingConfig) (details : EnvelopingTransactionDetails)
    (relay : Relay)
    (l₀ l : History) (transaction : Option SignedTransaction) : Prop where
  subset : l₀ ⊆ l
  sends : ∀ url req a, ⟨.sendPromise url req, a⟩ ∈ l → ⟨.sendPromise url req, a⟩ ∈ l₀ ∨
    url = relay.relayInfo.relayUrl ∧ ∀ tx, Takes cfg req a tx → transaction = some tx
  brought : ∀ tx, transaction = some tx → Brought cfg details relay l tx

/-- An attempt that has sent nothing. -/
theorem Attempted.of_later {relay : Relay} {l₀ l : History} (h : Later l₀ l) :
    Attempted cfg details relay l₀ l none where
  subset := h.subset
  sends url req a hmem := .inl (h.same url req a hmem)
  brought := by rintro tx ⟨⟩

/-- The transaction of an attempt, which may have thrown. -/
def transactionOf (r : Except String RelayingAttempt) : Option SignedTransaction :=
  match r with
  | .ok attempt => attempt.transaction
  | .error _ => none

section Attempt

variable {W : Surroundings Memory Question Answer} {l₀ : History} {m : Memory}
  {P : History → Question → Prop} {relay : Relay}

theorem broadcastRawTx_ends (hP : Allows P) {E : String → History → Prop}
    {tx : SignedTransaction} :
    Triple W l₀ (broadcastRawTx cfg tx) m P (Ends l₀ (fun _ l => Offered cfg l tx) E) := by
  have hasked : Triple W l₀ (do
      let submitted ← ask (.isAlreadySubmitted (cfg.hash tx))
      Async.whenever (submitted = false) (ask (.sendSignedTransaction tx))) m P
      (Ends l₀ (fun _ l => Offered cfg l tx) fun _ l => Offered cfg l tx) := by
    refine Ends.handle (ends_ask (E := fun e l => ⟨.isAlreadySubmitted (cfg.hash tx), .error e⟩ ∈ l)
      hP rfl fun _ _ h => h) (fun l submitted m₁ _ hsubmitted => ?_) fun l e m₁ _ he => ?_
    · refine triple_whenever (fun _ => ?_)
        fun hsent => ⟨Later.refl l, .ok submitted, hsubmitted, ?_⟩
      · refine triple_await (hP _ _ rfl) fun _ b _ _ => ⟨Later.ask rfl b l, ?_⟩
        have hoffered : Offered cfg (l ++ [⟨.sendSignedTransaction tx, b⟩]) tx :=
          ⟨.ok submitted, List.mem_append_left _ hsubmitted, fun _ => ⟨b, by simp⟩⟩
        cases b with
        | ok u => exact hoffered
        | error e => exact hoffered
      · rintro heq
        exact absurd (Except.ok.inj heq) hsent
    · refine ends_throw ⟨.error e, he, ?_⟩
      rintro ⟨⟩
  refine Ends.handle hasked (fun l _ m₁ _ h => ends_ok h) fun l e m₁ _ h => ends_ok h

/-- What comes of an answer. -/
theorem takeResponse_ends (hP : Allows P) {req : RelayTransactionRequest} {signedTx : Bytes} :
    Triple W l₀ (takeResponse cfg relay req signedTx) m P (Ends l₀
      (fun attempt l =>
        (∀ tx, Takes cfg req (.ok ⟨some signedTx, none⟩) tx → attempt.transaction = some tx) ∧
        ∀ tx, attempt.transaction = some tx →
          Takes cfg req (.ok ⟨some signedTx, none⟩) tx ∧ Offered cfg l tx)
      fun _ _ => ∀ tx, ¬ Takes cfg req (.ok ⟨some signedTx, none⟩) tx) := by
  have htakes : ∀ tx, Takes cfg req (.ok ⟨some signedTx, none⟩) tx ↔
      cfg.decodeTransaction signedTx = .ok tx ∧ validateRelayResponse cfg req tx = .ok true := by
    intro tx
    constructor
    · rintro ⟨response, signedTx', heq, -, hsigned, h⟩
      obtain rfl := Except.ok.inj heq
      obtain rfl := Option.some.inj hsigned
      exact h
    · exact fun h => ⟨_, signedTx, rfl, rfl, rfl, h⟩
  unfold takeResponse
  simp only [htakes]
  refine Ends.next (ends_done (F := fun tx _ => cfg.decodeTransaction signedTx = .ok tx)
    (fun _ h => h) fun e he tx htx => ?_) fun l tx m₁ _ hdecoded => ?_
  · rw [he] at htx
    cases htx.1
  · refine Ends.next (ends_done (F := fun valid _ => validateRelayResponse cfg req tx = .ok valid)
      (fun _ h => h) fun e he tx' htx' => ?_) fun l' valid m₂ _ hvalid => ?_
    · obtain rfl := Except.ok.inj (hdecoded.symm.trans htx'.1)
      rw [he] at htx'
      cases htx'.2
    · refine triple_ite (fun hnot => ?_) fun hyes => ?_
      · refine triple_modify (ends_ok ⟨fun tx' htx' => ?_, by rintro tx' ⟨⟩⟩)
        obtain rfl := Except.ok.inj (hdecoded.symm.trans htx'.1)
        rw [Except.ok.inj (hvalid.symm.trans htx'.2)] at hnot
        cases hnot
      · have htrue : valid = true := by simpa using hyes
        rw [htrue] at hvalid
        refine Ends.next (broadcastRawTx_ends hP) fun l'' _ m₃ _ hoffered => ?_
        refine ends_ok ⟨fun tx' htx' => ?_, fun tx' htx' => ?_⟩
        · exact congrArg some (Except.ok.inj (hdecoded.symm.trans htx'.1))
        · obtain rfl := Option.some.inj htx'
          exact ⟨⟨hdecoded, hvalid⟩, hoffered⟩

/-- An attempt that has sent the request `req`. -/
theorem Attempted.of_sent {l₁ l : History} {req : RelayTransactionRequest}
    {a : Except String RelayResponse} {transaction : Option SignedTransaction}
    (hbefore : Later l₀ l₁)
    (hafter : Later (l₁ ++ [⟨.sendPromise relay.relayInfo.relayUrl req, a⟩]) l)
    (htakes : ∀ tx, Takes cfg req a tx → transaction = some tx)
    (hbrought : ∀ tx, transaction = some tx →
      Prepared cfg details relay l₁ req ∧ Takes cfg req a tx ∧ Offered cfg l tx) :
    Attempted cfg details relay l₀ l transaction where
  subset := List.Subset.trans hbefore.subset
    (List.Subset.trans (List.subset_append_left _ _) hafter.subset)
  sends := by
    intro url req' b hmem
    rcases List.mem_append.mp (hafter.same url req' b hmem) with hold | hnew
    · exact .inl (hbefore.same url req' b hold)
    · cases List.mem_singleton.mp hnew
      exact .inr ⟨rfl, htakes⟩
  brought := by
    intro tx htx
    obtain ⟨hprepared, htaken, hoffered⟩ := hbrought tx htx
    have hl : l₁ ⊆ l := List.Subset.trans (List.subset_append_left _ _) hafter.subset
    exact ⟨req, a, hafter.subset (by simp), hprepared.mono hl, htaken, htaken.valid, hoffered⟩

/-- The one request of an attempt. -/
theorem httpRelayTransaction_sends (cfg : EnvelopingConfig) {req : RelayTransactionRequest}
    {url : String} (hP : P l₀ (.sendPromise url req)) :
    Triple W l₀ (httpRelayTransaction url req) m P fun l r _ => ∃ a,
      l = l₀ ++ [⟨.sendPromise url req, a⟩] ∧
        match r with
        | .ok signedTx => a = .ok ⟨some signedTx, none⟩
        | .error _ => ∀ tx, ¬ Takes cfg req a tx := by
  unfold httpRelayTransaction
  refine Triple.next (triple_await hP (Φ := fun l r _ => l = l₀ ++ [⟨.sendPromise url req, r⟩])
    fun _ _ _ _ => rfl) ?_ ?_
  · rintro l ⟨signedTx, error⟩ m₁ rfl
    cases error with
    | some e =>
        refine triple_done ⟨_, rfl, ?_⟩
        rintro tx ⟨response, _, heq, hnone, -⟩
        obtain rfl := Except.ok.inj heq
        cases hnone
    | none =>
        cases signedTx with
        | some signedTx => exact triple_done ⟨_, rfl, rfl⟩
        | none =>
            refine triple_done ⟨_, rfl, ?_⟩
            rintro tx ⟨response, _, heq, -, hsome, -⟩
            obtain rfl := Except.ok.inj heq
            cases hsome
  · rintro l e m₁ rfl
    refine ⟨_, rfl, ?_⟩
    rintro tx ⟨response, _, heq, -⟩
    cases heq

theorem attemptRelay_attempts {current : EnvelopingTransactionDetails}
    (hcompleted : Completed details current) (hwon : Won l₀ relay) (hnothing : NothingTaken cfg l₀)
    (hnew : ∀ req a, ⟨.sendPromise relay.relayInfo.relayUrl req, a⟩ ∉ l₀) :
    Triple W l₀ (attemptRelay cfg relay current) m (Justified cfg details)
      fun l r _ => Attempted cfg current relay l₀ l (transactionOf r) := by
  unfold attemptRelay
  refine Triple.next (prepareRequest_ends allows_justified) (fun l₁ prepared m₁ hprepared => ?_)
    fun l e _ h => Attempted.of_later h.1
  obtain ⟨req, reason⟩ := prepared
  obtain ⟨hlater, hready⟩ := hprepared
  cases reason with
  | some e => exact triple_done (Attempted.of_later hlater)
  | none =>
      obtain ⟨hmade, htried⟩ := hready rfl
      have hreq : Prepared cfg current relay l₁ req := ⟨hwon.mono hlater.subset, hmade, htried⟩
      have hjustified : Justified cfg details l₁ (.sendPromise relay.relayInfo.relayUrl req) := by
        rintro _ _ ⟨⟩
        refine ⟨⟨relay, current, rfl, hcompleted, hreq⟩, fun url req' a hmem => ?_,
          fun req' a hmem => ?_⟩
        · exact hnothing url req' a (hlater.same url req' a hmem)
        · exact hnew req' a (hlater.same _ req' a hmem)
      refine Triple.handle (httpRelayTransaction_sends cfg hjustified) fun l r m₂ h => ?_
      obtain ⟨a, rfl, hr⟩ := h
      cases r with
      | error e =>
          refine Triple.next (triple_whenever (Φ := fun l' _ _ => l' = l₁ ++ [_])
            (fun _ => triple_update (triple_done rfl)) fun _ => rfl) ?_ ?_
          · rintro l _ m₃ rfl
            refine triple_done (Attempted.of_sent hlater (Later.refl _) ?_ ?_)
            · exact fun tx htx => absurd htx (hr tx)
            · rintro tx ⟨⟩
          · rintro l e' m₃ rfl
            refine Attempted.of_sent hlater (Later.refl _) ?_ ?_
            · exact fun tx htx => absurd htx (hr tx)
            · rintro tx ⟨⟩
      | ok signedTx =>
          obtain rfl := hr
          refine (takeResponse_ends allows_justified).mono fun l r m₃ h => ?_
          cases r with
          | ok attempt =>
              refine Attempted.of_sent hlater h.1 h.2.1 fun tx htx => ?_
              obtain ⟨htaken, hoffered⟩ := h.2.2 tx htx
              exact ⟨hreq, htaken, hoffered⟩
          | error e =>
              refine Attempted.of_sent hlater h.1 (fun tx htx => absurd htx (h.2 tx)) ?_
              rintro tx ⟨⟩

end Attempt

/-! ## Turns -/

/-- A ping of the URL has failed. -/
def PingFailed (l : History) (url : String) : Prop :=
  ∃ selection manager races, ⟨.pingRelays selection manager, .ok races⟩ ∈ l ∧
    FailedIn selection races.pings url

theorem PingFailed.mono {l l' : History} {url : String} (h : PingFailed l url) (hl : l ⊆ l') :
    PingFailed l' url := by
  obtain ⟨selection, manager, races, hmem, hfailed⟩ := h
  exact ⟨selection, manager, races, hl hmem, hfailed⟩

/-- The questions whose errors nobody catches: those that are asked outside the attempts. -/
def Question.isUncaught : Question → Bool
  | .init | .refresh | .getGasPrice | .estimateGas _ | .getRelaysSortedForTransaction => true
  | _ => false

/-- Why a call may fail: an error of the node outside the attempts, no relays, missing addresses, or
a preferred relay that wins a race and of which no registration is found. -/
inductive Rejected (l : History) : String → Prop
  | outside {q : Question} {e : String} (hq : q.isUncaught = true) (h : ⟨q, .error e⟩ ∈ l) :
      Rejected l e
  | noRelays : Rejected l "no registered relayers"
  | noForwarder : Rejected l "No callForwarder address configured"
  | noWallet : Rejected l ("In a deploy, if tokenGas is not defined, then the calculated " ++
      "SmartWallet address is needed to estimate the tokenGas value")
  | unregistered {selection : RelaySelectionManager.Config} {manager next : Manager} {races : Races}
      {e : String} (h : ⟨.pingRelays selection manager, .ok races⟩ ∈ l)
      (hselected : selectNextRelay selection races.pings manager = some (.error e, next)) :
      Rejected l e

/-- Between two turns: nothing was taken, and the relays that are gone have failed. -/
structure Turn (cfg : EnvelopingConfig) (initial manager : Manager)
    (relayingErrors : List (String × String)) (l : History) (out : String → Bool) : Prop where
  initialized : manager.isInitialized = true
  nothing : NothingTaken cfg l
  keeps : initial.Keeps manager out
  sent : ∀ url req a, ⟨.sendPromise url req, a⟩ ∈ l → out url = true
  failed : ∀ url, out url = true → url ∈ relayingErrors.map Prod.fst ∨ PingFailed l url

/-- What a call returns. -/
structure Returned (cfg : EnvelopingConfig) (details : EnvelopingTransactionDetails)
    (initial : Manager) (l : History) (result : RelayingResult) : Prop where
  brought : ∀ tx, result.transaction = some tx → ∃ relay current, Completed details current ∧
    Brought cfg current relay l tx
  taken : ∀ url req a, ⟨.sendPromise url req, a⟩ ∈ l → ∀ tx, Takes cfg req a tx →
    result.transaction = some tx
  exhausted : result.transaction = none → 1 ≤ cfg.sliceSize →
    details.onlyPreferredRelays.getD false = false → ∀ relays ∈ initial.remainingRelays,
      ∀ relay ∈ relays, relay.relayUrl ∈ result.relayingErrors.map Prod.fst ∨
        PingFailed l relay.relayUrl

theorem relaysLeft_lt {manager next : Manager} {gone : String → Bool} (h : manager.Keeps next gone)
    {relays : List RelayInfoUrl} (hrelays : relays ∈ manager.remainingRelays) {relay : RelayInfoUrl}
    (hrelay : relay ∈ relays) (hgone : gone relay.relayUrl = true) :
    (relaysLeft next).length < (relaysLeft manager).length := by
  unfold relaysLeft
  rw [h.2, ← List.filter_flatten]
  refine List.length_filter_lt_length_iff_exists.mpr ⟨relay, ?_, by simp [hgone]⟩
  exact List.mem_flatten.mpr ⟨relays, hrelays, hrelay⟩

theorem mem_setError {errors : List (String × String)} {relayUrl e url : String} :
    url ∈ (setError errors relayUrl e).map Prod.fst ↔
      url ∈ errors.map Prod.fst ∨ url = relayUrl := by
  unfold setError
  split
  next hold =>
    have hkeys : (errors.map fun entry => if entry.1 = relayUrl then (relayUrl, e) else entry).map
        Prod.fst = errors.map Prod.fst := by
      rw [List.map_map]
      refine List.map_congr_left fun entry _ => ?_
      show (if entry.1 = relayUrl then (relayUrl, e) else entry).1 = entry.1
      split
      next heq => exact heq.symm
      next => rfl
    rw [hkeys]
    constructor
    · exact Or.inl
    · rintro (h | rfl)
      · exact h
      · exact hold
  next => simp

/-- The relay that is selected is one that is left, and is left no more. -/
theorem Turn.selected {initial manager next : Manager} {relayingErrors : List (String × String)}
    {l : History} {out out' : String → Bool} {selection : RelaySelectionManager.Config}
    {pings : List Pings} {info : RelayInfo} (h : Turn cfg initial manager relayingErrors l out)
    (hselected : Selected selection (sliceOf selection) manager pings (.ok (some info)) next out') :
    out info.relayInfo.relayUrl = false ∧ out' info.relayInfo.relayUrl = true ∧
      (relaysLeft next).length < (relaysLeft manager).length := by
  have hcall : (⟨manager, pings, .ok (some info)⟩ : RelaySelectionManager.Call).returned =
      some info.relayInfo.relayUrl := rfl
  obtain ⟨hgone, relays, hrelays, relay, hrelay, hurl⟩ := Selected.returned hselected hcall
  refine ⟨?_, hgone, relaysLeft_lt hselected.kept hrelays hrelay (hurl ▸ hgone)⟩
  have hleft : relays ∈ manager.remainingRelays := hrelays
  rw [h.keeps.2] at hleft
  obtain ⟨all, -, rfl⟩ := List.mem_map.mp hleft
  rw [← hurl]
  simpa using (List.mem_filter.mp hrelay).2

/-- Who is gone after the next selection, and why. -/
theorem Turn.gone {initial manager next : Manager} {relayingErrors : List (String × String)}
    {l l' : History} {out out' : String → Bool} {selection : RelaySelectionManager.Config}
    {races : Races} {result : Option RelayInfo} (h : Turn cfg initial manager relayingErrors l out)
    (hl : l ⊆ l') (hraced : ⟨.pingRelays selection manager, .ok races⟩ ∈ l')
    (hselected : Selected selection (sliceOf selection) manager races.pings (.ok result) next out')
    {url : String} (hgone : (out url || out' url) = true) :
    url ∈ relayingErrors.map Prod.fst ∨ PingFailed l' url ∨
      ∃ info, result = some info ∧ url = info.relayInfo.relayUrl := by
  rcases Bool.or_eq_true_iff.mp hgone with hold | hnew
  · rcases h.failed url hold with herror | hfailed
    · exact .inl herror
    · exact .inr (.inl (hfailed.mono hl))
  · rcases hselected.spent url hnew with
      hfailed | ⟨relay, hurl, hin⟩
    · exact .inr (.inl ⟨selection, manager, races, hraced, hfailed⟩)
    · cases result with
      | none => exact absurd rfl hin.ne_none
      | some info =>
          obtain ⟨p, -, ping, -, winner, rfl, hwon, -, hres⟩ := hin
          refine .inr (.inr ⟨info, rfl, ?_⟩)
          rw [(winnerInfo_ok hres.symm).1, (success_eq hwon).1]
          exact hurl.symm

/-! ## The loop -/

section Loop

variable {W : Surroundings Memory Question Answer} {l₀ : History} {m : Memory}
  {P : History → Question → Prop} {current : EnvelopingTransactionDetails} {manager : Manager}

/-- The pings of a race settle. -/
def Answers (W : Surroundings Memory Question Answer) : Prop :=
  ∀ s q a, W.replies s q a → mayReply q a = true

theorem selectNext_ends (hW : Answers W) (hP : Allows P) :
    Triple W l₀ (selectNext cfg current manager) m P (Ends l₀ (fun x l => ∃ races result,
      ⟨.pingRelays (selection cfg current) manager, .ok races⟩ ∈ l ∧
        selectNextRelay (selection cfg current) races.pings manager = some (.ok result, x.2) ∧
        x.1 = result.map fun info => ⟨races.relayWorkerAddress, info.relayInfo⟩)
      fun e l => Rejected l e) := by
  have hasked : Triple W l₀ (ask (.pingRelays (selection cfg current) manager)) m P
      (Ends l₀ (fun races l => ⟨.pingRelays (selection cfg current) manager, .ok races⟩ ∈ l ∧
        (selectNextRelay (selection cfg current) races.pings manager).isSome = true)
        fun e l => Rejected l e) := by
    refine triple_await (hP _ _ rfl) fun s₁ a s₂ hreplies => ⟨Later.ask rfl a l₀, ?_⟩
    have hmay := hW _ _ _ hreplies
    cases a with
    | ok races => exact ⟨List.mem_append_right _ (List.mem_singleton_self _), hmay⟩
    | error e => cases hmay
  unfold selectNext
  refine Ends.next hasked fun l races m₁ _ h => ?_
  obtain ⟨hmem, hsome⟩ := h
  cases hselected : selectNextRelay (selection cfg current) races.pings manager with
  | none =>
      rw [hselected] at hsome
      cases hsome
  | some x =>
      obtain ⟨result, next⟩ := x
      cases result with
      | error e => exact ends_throw (.unregistered hmem hselected)
      | ok result => exact ends_ok ⟨races, result, hmem, hselected, rfl⟩

theorem estimateTokenTransferGas_ends (hP : Allows P) {relayWorker : Address} :
    Triple W l₀ (estimateTokenTransferGas cfg current relayWorker) m P
      (Ends l₀ (fun _ _ => True) fun e l => Rejected l e) := by
  have horigin : Triple W l₀ (tokenOrigin current) m P
      (Ends l₀ (fun _ _ => True) fun e l => Rejected l e) := by
    unfold tokenOrigin
    refine triple_ite (fun _ => ?_) fun _ => ?_
    · exact ends_assert (fun _ => ends_ok trivial) fun _ => .noWallet
    · exact Ends.mono (resolveForwarder_ends fun _ => .noForwarder) fun _ _ _ _ => trivial
  unfold estimateTokenTransferGas
  refine triple_ite (fun _ => ?_) fun _ => ends_ok trivial
  refine Ends.next horigin fun l origin m₁ _ _ => ?_
  exact Ends.next (ends_ask hP rfl fun _ _ h => .outside rfl h) fun _ _ _ _ _ => ends_ok trivial

theorem withTokenGas_ends (hP : Allows P) {estimateTokenGas : Bool} {relay : Relay}
    (hestimate : estimateTokenGas = true → details.tokenGas = none)
    (hcompleted : Completed details current) :
    Triple W l₀ (withTokenGas cfg estimateTokenGas relay current) m P
      (Ends l₀ (fun next _ => Completed details next) fun e l => Rejected l e) := by
  unfold withTokenGas
  refine triple_ite (fun htrue => ?_) fun _ => ends_ok hcompleted
  refine Ends.next (estimateTokenTransferGas_ends hP) fun l tokenGas m₁ _ _ => ends_ok ?_
  obtain ⟨gas, gasPrice, _, rfl⟩ := hcompleted.same
  refine ⟨⟨gas, gasPrice, _, rfl⟩, hcompleted.price, hcompleted.gas, fun given hgiven => ?_⟩
  rw [hestimate htrue] at hgiven
  cases hgiven

/-- How the loop ends. -/
def LoopEnds (cfg : EnvelopingConfig) (details : EnvelopingTransactionDetails) (initial : Manager)
    (l₀ : History) : Post Memory Question Answer RelayingResult :=
  fun l r _ => l₀ ⊆ l ∧
    match r with
    | .ok result => Returned cfg details initial l result
    | .error e => Rejected l e ∧ NothingTaken cfg l

theorem NothingTaken.later {l : History} (h : NothingTaken cfg l₀) (hl : Later l₀ l) :
    NothingTaken cfg l :=
  fun url req a hmem => h url req a (hl.same url req a hmem)

/-- **The loop**, by induction on the turns: each takes away a relay that is left. -/
theorem relayLoop_ends (hW : Answers W) {estimateTokenGas : Bool}
    (hestimate : estimateTokenGas = true → details.tokenGas = none) {initial : Manager} {turns : ℕ}
    {relayingErrors : List (String × String)} {out : String → Bool}
    (hcompleted : Completed details current) (hturns : (relaysLeft manager).length < turns)
    (hturn : Turn cfg initial manager relayingErrors l₀ out) :
    Triple W l₀ (relayLoop cfg estimateTokenGas turns current manager relayingErrors) m
      (Justified cfg details) (LoopEnds cfg details initial l₀) := by
  -- one turn for each relay that the selection returns; what was gone before stays gone
  induction turns generalizing l₀ m current manager relayingErrors out with
  | zero => exact absurd hturns (Nat.not_lt_zero _)
  | succ turns ih =>
      unfold relayLoop
      refine Triple.next (selectNext_ends hW allows_justified) (fun l₁ next m₁ hnext => ?_)
        fun l e _ h => ⟨h.1.subset, h.2, hturn.nothing.later h.1⟩
      obtain ⟨hl₁, races, result, hraced, hselect, hnext⟩ := hnext
      obtain ⟨out', hselected⟩ := selectNextRelay_spec hturn.initialized hselect
      cases result with
      | none =>
          rw [hnext]
          refine triple_done ⟨hl₁.subset, ?_, ?_, ?_⟩
          · rintro tx ⟨⟩
          · intro url req a hmem tx htx
            exact absurd htx (hturn.nothing.later hl₁ url req a hmem tx)
          · -- no relay is left, so all of them are gone
            intro _ hsize hmode relays hrelays relay hrelay
            have hmode' : (selection cfg current).onlyPreferredRelays = false := by
              obtain ⟨_, _, _, rfl⟩ := hcompleted.same
              exact hmode
            have hempty := all_exhausted hsize hmode' hselected
            rw [(hturn.keeps.trans hselected.kept).2, List.forall_mem_map] at hempty
            have hgone : (out relay.relayUrl || out' relay.relayUrl) = true := by
              have hnot := List.filter_eq_nil_iff.mp (hempty relays hrelays) relay hrelay
              simpa only [Bool.not_eq_true, Bool.not_eq_false'] using hnot
            rcases hturn.gone hl₁.subset hraced hselected hgone with h | h | ⟨info, hinfo, -⟩
            · exact .inl h
            · exact .inr h
            · cases hinfo
      | some info =>
          rw [hnext]
          -- a relay is left: it was sent nothing before, and the attempt cannot fail the call
          obtain ⟨hfresh, hout, hfewer⟩ := hturn.selected hselected
          refine Triple.next (withTokenGas_ends allows_justified hestimate hcompleted)
            (fun l₂ current' m₂ h => ?_)
            fun l e _ h => ⟨List.Subset.trans hl₁.subset h.1.subset, h.2,
              hturn.nothing.later (hl₁.trans h.1)⟩
          obtain ⟨hl₂, hcompleted'⟩ := h
          have hlater : Later l₀ l₂ := hl₁.trans hl₂
          have hnothing : NothingTaken cfg l₂ := hturn.nothing.later hlater
          have hwon : Won l₂ ⟨races.relayWorkerAddress, info.relayInfo⟩ :=
            ⟨_, _, _, _, _, hl₂.subset hraced, hselect, rfl⟩
          have hattempt := @attemptRelay_attempts cfg details W l₂ m₂ _ _ hcompleted' hwon hnothing
            fun req a hmem => by
              have hsent := hturn.sent _ req a (hlater.same _ req a hmem)
              exact absurd (hfresh.symm.trans hsent) Bool.false_ne_true
          refine Triple.next (Triple.recover (T := fun l r _ => ∃ attempt, r = .ok attempt ∧
              Attempted cfg current' ⟨races.relayWorkerAddress, info.relayInfo⟩ l₂ l
                attempt.transaction)
            hattempt (fun l attempt _ h => ⟨attempt, rfl, h⟩)
            fun l e _ h => triple_done ⟨_, rfl, h⟩) (fun l₃ attempt m₃ h => ?_) ?_
          · obtain ⟨_, hok, hattempted⟩ := h
            obtain rfl := Except.ok.inj hok
            obtain ⟨transaction, error⟩ := attempt
            have hsubset : l₀ ⊆ l₃ := List.Subset.trans hlater.subset hattempted.subset
            cases transaction with
            | some tx =>
                -- its transaction is returned
                refine triple_done ⟨hsubset, fun tx' htx' => ?_,
                  fun url req a hmem tx' htaken => ?_, ?_⟩
                · exact ⟨_, current', hcompleted', hattempted.brought tx' htx'⟩
                · rcases hattempted.sends url req a hmem with hold | ⟨-, hnew⟩
                  · exact absurd htaken (hnothing url req a hold tx')
                  · exact hnew tx' htaken
                · rintro ⟨⟩
            | none =>
                -- its error is recorded, and the loop goes on without it
                have hnext : Turn cfg initial next.2 (setError relayingErrors
                    info.relayInfo.relayUrl (error.getD "No error reason was given")) l₃
                    fun url => out url || out' url := by
                  refine ⟨hselected.kept.1.trans hturn.initialized, ?_,
                    hturn.keeps.trans hselected.kept, ?_, ?_⟩
                  · intro url req a hmem tx htaken
                    rcases hattempted.sends url req a hmem with hold | ⟨-, hnew⟩
                    · exact hnothing url req a hold tx htaken
                    · cases hnew tx htaken
                  · intro url req a hmem
                    rcases hattempted.sends url req a hmem with hold | ⟨rfl, -⟩
                    · rw [hturn.sent url req a (hlater.same url req a hold), Bool.true_or]
                    · rw [hout, Bool.or_true]
                  · intro url hgone
                    rcases hturn.gone hsubset (hattempted.subset (hl₂.subset hraced)) hselected
                      hgone with h | h | ⟨_, hinfo, rfl⟩
                    · exact .inl (mem_setError.mpr (.inl h))
                    · exact .inr h
                    · obtain rfl := Option.some.inj hinfo
                      exact .inl (mem_setError.mpr (.inr rfl))
                refine (ih hcompleted' (by omega) hnext).mono fun l r _ h => ?_
                exact ⟨List.Subset.trans hsubset h.1, h.2⟩
          · rintro l e m₃ ⟨_, ⟨⟩, -⟩

/-! ## The whole call -/

theorem init_ends (hP : Allows P) :
    Triple W l₀ init m P (Ends l₀ (fun _ _ => True) fun e l => Rejected l e) := by
  unfold init
  refine triple_get (triple_whenever (fun _ => ?_) fun _ => ⟨Later.refl l₀, trivial⟩)
  refine Ends.next (ends_ask hP rfl fun _ _ h => .outside rfl h) fun l _ m₁ _ _ => ?_
  exact triple_update (ends_ok trivial)

theorem priced_ends (hP : Allows P) :
    Triple W l₀ (priced cfg details) m P
      (Ends l₀ (fun current _ => Completed details current) fun e l => Rejected l e) := by
  unfold priced
  refine Ends.next
    (F := fun gasPrice _ => ∀ forced, details.forceGasPrice = some forced → gasPrice = forced)
    ?_ fun l gasPrice m₁ _ hforced => ?_
  · cases details.forceGasPrice with
    | some gasPrice => exact ends_ok fun forced h => Option.some.inj h
    | none =>
        refine Ends.next (ends_ask hP rfl fun _ _ h => .outside rfl h) fun l _ m₁ _ _ => ends_ok ?_
        rintro forced ⟨⟩
  have hsame : ∀ forced, details.forceGasPrice = some forced → some gasPrice = some forced :=
    fun forced h => congrArg some (hforced forced h)
  refine triple_ite (fun hdeploy => ends_ok ?_) fun _ => triple_ite (fun hnone => ?_) fun _ => ?_
  · refine ⟨⟨_, _, _, rfl⟩, hsame, fun hcall => ?_, fun _ h => h⟩
    exact absurd (hcall.symm.trans hdeploy) Bool.false_ne_true
  · have hestimate : Triple W l (estimateDestinationContractCallGas
        { details with gasPrice := some gasPrice }) m₁ P
        (Ends l (fun _ _ => True) fun e l => Rejected l e) := by
      unfold estimateDestinationContractCallGas
      refine Ends.next (resolveForwarder_ends fun _ => .noForwarder) fun l' _ m₂ _ _ => ?_
      exact Ends.next (ends_ask hP rfl fun _ _ h => .outside rfl h) fun _ _ _ _ _ => ends_ok trivial
    refine Ends.next hestimate fun l' cost m₂ _ _ => ends_ok ?_
    refine ⟨⟨_, _, _, rfl⟩, hsame, fun _ gas hgas => ?_, fun _ h => h⟩
    exact absurd (hnone.symm.trans hgas) (Option.some_ne_none gas).symm
  · exact ends_ok ⟨⟨_, _, _, rfl⟩, hsame, fun _ _ h => h, fun _ h => h⟩

/-- How a call ends. -/
def CallEnds (cfg : EnvelopingConfig) (details : EnvelopingTransactionDetails) (l : History)
    (r : Except String RelayingResult) : Prop :=
  match r with
  | .ok result => ∃ relays, ⟨.getRelaysSortedForTransaction, .ok relays⟩ ∈ l ∧
      Returned cfg details (RelaySelectionManager.init relays.1 relays.2) l result
  | .error e => Rejected l e ∧ NothingTaken cfg l

theorem relayTransaction_ends (hW : Answers W) :
    Triple W [] (relayTransaction cfg details) m (Justified cfg details)
      fun l r _ => CallEnds cfg details l r := by
  have hbegin : NothingTaken cfg [] := fun _ _ _ hmem => (List.not_mem_nil hmem).elim
  have hfails : ∀ {l : History} {e : String}, Later [] l → Rejected l e →
      CallEnds cfg details l (.error e) := fun hl he => ⟨he, hbegin.later hl⟩
  unfold relayTransaction
  refine Triple.next (init_ends allows_justified) (fun l₁ _ m₁ h₁ => ?_)
    fun l e _ h => hfails h.1 h.2
  refine Triple.next (ends_ask (E := fun e l => Rejected l e) allows_justified rfl
    fun _ _ h => .outside rfl h) (fun l₂ _ m₂ h₂ => ?_) fun l e _ h => hfails (h₁.1.trans h.1) h.2
  have hl₂ : Later [] l₂ := h₁.1.trans h₂.1
  refine Triple.next (priced_ends allows_justified) (fun l₃ current m₃ h₃ => ?_)
    fun l e _ h => hfails (hl₂.trans h.1) h.2
  have hl₃ : Later [] l₃ := hl₂.trans h₃.1
  refine Triple.next (ends_ask (E := fun e l => Rejected l e) allows_justified rfl
    fun _ _ h => .outside rfl h) (fun l₄ relays m₄ h₄ => ?_)
    fun l e _ h => hfails (hl₃.trans h.1) h.2
  have hl₄ : Later [] l₄ := hl₃.trans h₄.1
  refine triple_assert (fun _ => ?_) fun _ => hfails hl₄ .noRelays
  have hestimate : (details.tokenGas.isNone && decide (details.tokenAmount.getD 0 ≠ 0)) = true →
      details.tokenGas = none := by
    intro h
    exact Option.isNone_iff_eq_none.mp (Bool.and_eq_true_iff.mp h).1
  have hnobody : Turn cfg (RelaySelectionManager.init relays.1 relays.2)
      (RelaySelectionManager.init relays.1 relays.2) [] l₄ fun _ => false := by
    refine ⟨rfl, hbegin.later hl₄, ⟨rfl, by simp [RelaySelectionManager.init]⟩, ?_, ?_⟩
    · exact fun url req a hmem => (List.not_mem_nil (hl₄.same url req a hmem)).elim
    · rintro url ⟨⟩
  refine (relayLoop_ends hW hestimate h₃.2 (Nat.lt_succ_self _) hnobody).mono fun l r _ h => ?_
  cases r with
  | ok result => exact ⟨relays, h.1 h₄.2, h.2⟩
  | error e => exact h.2

end Loop

/-! ## Runs of a client -/

theorem answers_client (I : Memory → Prop) (i : ℕ) : Answers ((client cfg).surroundings I i) := by
  rintro s q a ⟨x, rfl, h⟩
  exact h

instance (x : Shared Call Memory Question Answer Reply) (c : Call) :
    Decidable ((client cfg).calls x c) := isTrue trivial

instance (x : Shared Call Memory Question Answer Reply) (q : Question)
    (answer : Except String (Answer q)) : Decidable ((client cfg).replies x q answer) :=
  inferInstanceAs (Decidable (mayReply q answer = true))

def walletDetails : EnvelopingTransactionDetails where
  «from» := 0x66
  «to» := 0x77
  data := []
  tokenContract := none
  tokenAmount := none
  tokenGas := none
  recoverer := none
  index := none
  value := none
  gas := some "0x3e8".toList
  gasPrice := none
  relayHub := some 0x33
  callForwarder := some 0x88
  callVerifier := none
  isSmartWalletDeploy := none
  smartWalletAddress := none
  forceGasPrice := some "0x2".toList
  onlyPreferredRelays := none

def walletTransaction : SignedTransaction := ⟨0x22, ⟨4, 2, 40000, some 0x33, 0, [1, 2, 3, 4]⟩⟩

/-- Libraries that know one signature and one transaction. -/
def plainClient : EnvelopingConfig where
  relayHubAddress := 0x33
  relayVerifierAddress := 0x44
  deployVerifierAddress := 0x45
  chainId := 33
  maxRelayNonceGap := 3
  sliceSize := 3
  minGasPrice := none
  factoredGasPrice n := n
  keccak256 b := BitVec.ofNat 256 b.length
  uint256 t := BitVec.ofNat 256 (Numerals.ofDigits 10 t)
  signTypedData _ _ := .error "no key"
  recoverTypedSignature _ sig := if sig = [1] then .ok 0x66 else .error "Invalid signature"
  decodeTransaction b := if b = [7] then .ok walletTransaction else .error "invalid remainder"
  hash tx := BitVec.ofNat 256 tx.transaction.nonce
  encodeABI _ := [1, 2, 3, 4]
  privateToAddress _ := 0

/-- Answers of a node and of two relays, of which the first one sends no transaction. -/
def relayingAnswer : (q : Question) → Except String (Answer q)
  | .init => .ok ()
  | .refresh => .ok ()
  | .getRelaysSortedForTransaction =>
      .ok ([], [⟨"http://localhost:8090", some 0x11⟩, ⟨"http://localhost:8091", some 0x12⟩])
  | .pingRelays _ manager =>
      let relay := (relaysLeft manager).headD ⟨"", none⟩
      .ok ⟨[⟨[(relay, .ok ⟨0x11, "1", true⟩)], fun _ => .ok []⟩], 0x22⟩
  | .getSenderNonce _ => .ok 9
  | .signWithProvider _ => .ok [1]
  | .getTransactionCount _ => .ok 4
  | .estimateHubCall _ _ _ _ => .ok 20000
  | .getBalance _ => .ok 100000
  | .verifyRelayedCall _ _ => .ok ()
  | .viewCall _ _ => .ok true
  | .sendPromise relayUrl _ =>
      if relayUrl = "http://localhost:8090" then .ok ⟨some [6], none⟩ else .ok ⟨some [7], none⟩
  | .isAlreadySubmitted _ => .ok true
  | _ => .error "no answer"

def relaying : List (Move Call Question Answer Unit) :=
  .call 0 (.relayTransaction walletDetails) :: Move.turns 0 relayingAnswer 22

theorem relaying_plays :
    ((Pool.start Memory.new).play (client plainClient) Anyhow relaying).isSome = true := by
  decide +kernel

def relayingClient : Pool Call Memory Question Answer Reply := Option.get _ relaying_plays

/-- The thread that has ended last, with the transaction that it has returned. -/
def lastRelayed (log : List (EventLoop.Event Call Question Answer Reply)) :
    Option (ℕ × SignedTransaction) :=
  log.getLast?.bind fun e =>
    match e with
    | .ended i (.ok (.relayed result)) => result.transaction.map fun tx => (i, tx)
    | _ => none

theorem eq_append_of_lastRelayed {log : List (EventLoop.Event Call Question Answer Reply)} {i : ℕ}
    {tx : SignedTransaction} (h : lastRelayed log = some (i, tx)) :
    ∃ l result, log = l ++ [.ended i (.ok (.relayed result))] ∧ result.transaction = some tx := by
  obtain ⟨e, hlast, he⟩ := Option.bind_eq_some_iff.mp h
  obtain ⟨l, hl⟩ := List.getLast?_eq_some_iff.mp hlast
  split at he
  · obtain ⟨_, htx, hpair⟩ := Option.map_eq_some_iff.mp he
    obtain ⟨rfl, rfl⟩ := Prod.mk.inj hpair
    exact ⟨l, _, hl, htx⟩
  · cases he

def firstCall (log : List (EventLoop.Event Call Question Answer Reply)) :
    Option (ℕ × EnvelopingTransactionDetails) :=
  log.head?.bind fun e =>
    match e with
    | .called i (.relayTransaction details) => some (i, details)
    | _ => none

theorem called_of_firstCall {log : List (EventLoop.Event Call Question Answer Reply)} {i : ℕ}
    (h : firstCall log = some (i, details)) : .called i (.relayTransaction details) ∈ log := by
  obtain ⟨e, hfirst, he⟩ := Option.bind_eq_some_iff.mp h
  split at he
  · obtain ⟨rfl, rfl⟩ := Prod.mk.inj (Option.some.inj he)
    exact List.mem_of_head? hfirst
  · cases he

end RifRelay.RelayClient
