import RifRelay.Contracts.WalletHistory

set_option autoImplicit false

/-! # Wallets do what their owner signed, once

For every run of a hub with a wallet: each execution was signed by the owner for this wallet
and its nonce, was sent by the hub that was signed, and pays the worker that was signed
(`execute_authentic`).

Hashes and signatures are idealised as follows. `Signed` are the strings of which the owner has
signed the hash; a signature that recovers to the owner is one of those. The hash is injective
on the strings that the wallet and the owner hash (`hashed`).
-/

namespace RifRelay

open CallMachine IForwarder EnvelopingTypes

namespace SmartWallet

open Wallet

variable {χ : Type}

/-- The encoded request. -/
def Execution.encoded (E : Env) (x : Execution) : Bytes := getEncoded E x.suffixData x.req

/-- The string that has to be signed. -/
def Execution.signed (E : Env) (x : Execution) : Bytes :=
  Eip712.signedBytes E x.domainSeparator (x.encoded E)

/-- What is hashed: the owner's address, what the owner signs, and for every execution the
sender, the encoded request and the signed string. -/
def hashed (E : Env) (W mc owner : Address) (Signed : Set Bytes)
    (trace : List (Entry (World χ) Msg)) : Set Bytes :=
  insert (addressBytes owner) (Signed ∪ {b | ∃ x ∈ executions W mc trace,
    b = addressBytes x.req.from ∨ b = x.encoded E ∨ b = x.signed E})

/-- The entry `e`, which comes after the history `l`, executes what the owner has signed. -/
structure Authentic (E : Env) (H W owner : Address) (Signed : Set Bytes)
    (l : List (Entry (World χ) Msg)) (e : Entry (World χ) Msg) (x : Execution) : Prop where
  signed : x.signed E ∈ Signed
  domain : x.domainSeparator = E.keccak256 (Eip712.encodeDomain E E.chainId W)
  signer : x.req.from = owner
  nonce : x.req.nonce = (e.pre.wallets W).nonce
  caller : e.msg.sender = x.req.relayHub
  hub : x.req.relayHub = H → ∃ r ∈ l, ∃ relayData, Relays E H r relayData e.msg x ∧
    r.msg.sender = relayData.relayWorker ∧ e.msg.tx.origin = relayData.relayWorker ∧
    relayData.gasPrice ≤ e.msg.tx.gasPrice

section

variable {E : Env} {w₀ : World χ} {H W mc owner : Address} {Signed : Set Bytes}
  {l l₁ l₂ l₃ : List (Entry (World χ) Msg)} {e e' : Entry (World χ) Msg} {x x' : Execution}

theorem mem_executions {trace : List (Entry (World χ) Msg)} (he : e ∈ trace)
    (hx : executionOf W mc e = some x) : x ∈ executions W mc trace :=
  List.mem_filterMap.mpr ⟨e, he, hx⟩

/-- An execution the wallet has checked is authentic. -/
theorem Checked.authentic {trace : List (Entry (World χ) Msg)}
    (howner : (w₀.wallets W).owner = ownerCell E owner)
    (hunforged : ∀ digest sig, E.recover digest sig = .ok owner →
      ∃ m ∈ Signed, E.keccak256 m = digest)
    (hinj : Set.InjOn E.keccak256 (hashed E W mc owner Signed trace)) (he : e ∈ trace)
    (hx : executionOf W mc e = some x) (h : Checked E w₀ H W mc l e x) :
    Authentic E H W owner Signed l e x := by
  obtain ⟨-, hself, -, -⟩ := executionOf_eq_some.mp hx
  obtain ⟨sig, hcaller, hcell, hnonce, hsigned⟩ := h.accepted
  have hmem := mem_executions he hx
  have hfrom : x.req.from = owner := by
    have hcells : E.keccak256 (addressBytes x.req.from) = E.keccak256 (addressBytes owner) := by
      show ownerCell E x.req.from = ownerCell E owner
      rw [← hcell, h.owner, howner]
    exact addressBytes_inj (hinj (Or.inr (Or.inr ⟨x, hmem, Or.inl rfl⟩)) (Or.inl rfl) hcells)
  refine ⟨?_, ?_, hfrom, hnonce.symm, hcaller, ?_⟩
  · obtain ⟨m, hm, hdigest⟩ := hunforged _ sig (hfrom ▸ hsigned.recovered)
    have heq : m = x.signed E :=
      hinj (Or.inr (Or.inl hm)) (Or.inr (Or.inr ⟨x, hmem, Or.inr (Or.inr rfl)⟩)) hdigest
    exact heq ▸ hm
  · rw [← hself]
    exact hsigned.domain.symm
  · intro hhub
    obtain ⟨r, hr, relayData, hrelays⟩ := h.relayed (hcaller.trans hhub)
    refine ⟨r, hr, relayData, hrelays, hrelays.guard.worker, ?_, ?_⟩
    · rw [hrelays.tx, ← hrelays.guard.origin]
      exact hrelays.guard.worker
    · rw [hrelays.tx]
      exact hrelays.guard.gasPrice

/-- Two executions of one signed string have one nonce. -/
theorem Execution.nonce_of_signed {S : Set Bytes} (hinj : Set.InjOn E.keccak256 S)
    (hx : x.encoded E ∈ S) (hx' : x'.encoded E ∈ S) (h : x.signed E = x'.signed E) :
    x.req.nonce = x'.req.nonce := by
  obtain ⟨-, hhash⟩ := Eip712.signedBytes_inj h
  obtain ⟨-, -, hreq⟩ := getEncoded_inj (hinj hx hx' hhash)
  injection hreq

/-- Counters that agree in the last 256 bits after at least one step are 2^256 steps apart. -/
theorem wrap_of_eq {n₀ : Word} {a k : Nat}
    (h : n₀ + BitVec.ofNat 256 a = n₀ + BitVec.ofNat 256 (a + 1 + k)) : 2 ^ 256 ≤ k + 1 := by
  have hcount : BitVec.ofNat 256 a = BitVec.ofNat 256 (a + 1 + k) := by
    simpa using h
  have hmod := congrArg BitVec.toNat hcount
  rw [BitVec.toNat_ofNat, BitVec.toNat_ofNat] at hmod
  omega

/-- **What a wallet executes, its owner has signed, and only once.** At every point of every
run, with any behaviour of all other contracts and any re-entrant calls:

* the nonce of the wallet counts the executions and nothing else;
* each execution is of a request that the owner has signed for this wallet with the nonce it
  had at that moment, sent by the hub that was signed; when that is the hub at `H`, its worker
  is the one that was signed and sends the transaction at the price that was signed or more;
* the payment that an execution owes goes to the sender of the transaction, by the next call;
* a signed string can be executed again only after 2^256 further executions.
-/
theorem execute_authentic {O : Outside E χ} (hd : Deployment E w₀ H W mc)
    (howner : (w₀.wallets W).owner = ownerCell E owner)
    (hunforged : ∀ digest sig, E.recover digest sig = .ok owner →
      ∃ m ∈ Signed, E.keccak256 m = digest)
    {b : Word} {point : Option Msg} {c : ChainConf χ} (hc : Point E O w₀ b point c)
    (hinj : Set.InjOn E.keccak256 (hashed E W mc owner Signed c.trace)) :
    (c.state.wallets W).nonce =
      (w₀.wallets W).nonce + BitVec.ofNat 256 (executions W mc c.trace).length ∧
    (∀ l₁ e l₂ x, c.trace = l₁ ++ e :: l₂ → executionOf W mc e = some x →
      Authentic E H W owner Signed l₁ e x ∧
      (e.pre.wallets W).nonce =
        (w₀.wallets W).nonce + BitVec.ofNat 256 (executions W mc l₁).length ∧
      (0 < x.req.tokenAmount →
        (∃ p l₃, l₂ = p :: l₃ ∧ p.msg = payment e.msg x.req) ∨
          (l₂ = [] ∧ point = some (payment e.msg x.req)))) ∧
    (∀ l₁ e l₂ e' l₃ x x', c.trace = l₁ ++ e :: (l₂ ++ e' :: l₃) →
      executionOf W mc e = some x → executionOf W mc e' = some x' →
      x.signed E = x'.signed E → 2 ^ 256 ≤ (executions W mc l₂).length + 1) := by
  -- at the payment of an execution the invariant is that of the history before it
  obtain ⟨settled, hinv, hpaid⟩ : ∃ settled, WalletInv E w₀ H W mc settled c ∧
      (settled = c.trace ∨ ∃ e x, c.trace = settled ++ [e] ∧ executionOf W mc e = some x ∧
        point = some (payment e.msg x.req)) := by
    rcases (wallet_guarded hd).point hc with
      ⟨-, hi⟩ | ⟨m, hm, -, -, hi | ⟨l, e, x, ht, hx, hpay, hi⟩⟩
    · exact ⟨c.trace, hi, Or.inl rfl⟩
    · exact ⟨c.trace, hi, Or.inl rfl⟩
    · exact ⟨l, hi, Or.inr ⟨e, x, ht, hx, by rw [hm, hpay]⟩⟩
  have hchecked : ∀ l₁ e l₂ x, c.trace = l₁ ++ e :: l₂ → executionOf W mc e = some x →
      Checked E w₀ H W mc l₁ e x := fun l₁ e l₂ x hcut hx => hinv.checked l₁ e l₂ hcut x hx
  have hauthentic : ∀ l₁ e l₂ x, c.trace = l₁ ++ e :: l₂ → executionOf W mc e = some x →
      Authentic E H W owner Signed l₁ e x := by
    intro l₁ e l₂ x hcut hx
    have he : e ∈ c.trace := by
      rw [hcut]
      simp
    exact (hchecked l₁ e l₂ x hcut hx).authentic howner hunforged hinj he hx
  refine ⟨hinv.nonce, fun l₁ e l₂ x hcut hx => ⟨hauthentic l₁ e l₂ x hcut hx,
    (hchecked l₁ e l₂ x hcut hx).count, fun hamount => ?_⟩, ?_⟩
  · rcases hpaid with rfl | ⟨e', x', htrace, hx', hpoint⟩
    · obtain ⟨p, l₃, rfl, y, hy, hp⟩ := hinv.paid l₁ e l₂ hcut ⟨x, hx, hamount⟩
      obtain rfl : x = y := Option.some.inj (hx.symm.trans hy)
      exact Or.inl ⟨p, l₃, rfl, hp⟩
    · -- the last execution is being paid for
      rcases snoc_eq_append_cons (htrace.symm.trans hcut) with ⟨-, rfl, rfl⟩ | ⟨l₃, rfl, hl⟩
      · obtain rfl : x = x' := Option.some.inj (hx.symm.trans hx')
        exact Or.inr ⟨rfl, hpoint⟩
      · obtain ⟨p, l₄, rfl, y, hy, hp⟩ := hinv.paid l₁ e l₃ hl ⟨x, hx, hamount⟩
        obtain rfl : x = y := Option.some.inj (hx.symm.trans hy)
        exact Or.inl ⟨p, l₄ ++ [e'], rfl, hp⟩
  · intro l₁ e l₂ e' l₃ x x' hcut hx hx' hsame
    -- both were checked against the number of executions before them
    have hcut' : c.trace = (l₁ ++ e :: l₂) ++ e' :: l₃ := by
      rw [hcut, List.append_assoc, List.cons_append]
    have hmem : ∀ y ∈ [e, e'], y ∈ c.trace := by
      rw [hcut]
      simp
    have hnonce : x.req.nonce = x'.req.nonce := by
      refine Execution.nonce_of_signed hinj ?_ ?_ hsame
      · exact Or.inr (Or.inr ⟨x, mem_executions (hmem e (by simp)) hx, Or.inr (Or.inl rfl)⟩)
      · exact Or.inr (Or.inr ⟨x', mem_executions (hmem e' (by simp)) hx', Or.inr (Or.inl rfl)⟩)
    have hfirst := hchecked _ _ _ _ hcut hx
    have hsecond := hchecked _ _ _ _ hcut' hx'
    rw [(hauthentic _ _ _ _ hcut hx).nonce, (hauthentic _ _ _ _ hcut' hx').nonce, hfirst.count,
      hsecond.count] at hnonce
    have hlength : (executions W mc (l₁ ++ e :: l₂)).length =
        (executions W mc l₁).length + 1 + (executions W mc l₂).length := by
      rw [List.append_cons, executions_append, executions_snoc, hx, List.length_append,
        List.length_append]
      rfl
    rw [hlength] at hnonce
    exact wrap_of_eq hnonce

end

/-! A hub at `0xaa` whose worker is `paidWorker`, and the wallet of `signer` at `0xcc`, which
pays 3 tokens of `0xee` for a call of `0x0d`. -/

def paidWorker : Address := 0x7e5f4552091a69125d5dfcb7b8c2659029395bdf

def signer : Address := 0x2b5ad5c4795c026514f8317c7a215e218dccd6cf

def domainHash : Word := 0x7e87d82979fe4ae66700ca7f363c42f04373ae7df19e8144a96630271032d946

def suffixHash : Word := 0x5ebd5c3d33656be295eec46c51ba768f5dc4361113f08c9018a3c8d85a1d8d95

def encodedHash : Word := 0x7cdd9f66783af84515a8d973e763d52b865ff155b2bb43e79536a649debe4fa6

def digest : Word := 0xfd4733b6aac6d82c64d5c958688e646346dca113deac3fd25fe7a483c1e65438

def ownerHash : Word := 0x94a6fc29a44456b36232638a7042431c9c91b910df1c52187179085fac1560e9

def requestSignature : Bytes :=
  wordBytes 0x846787aad8a4b1c8ec09daa2b2b6709cc49474bed64e873a5c808e373b0a053e ++
    wordBytes 0x7b4f853f528ab0a68abcb28e9696ee8ce8dc832010d342475c23bd40eeed08cc ++ [0x1b]

def paidRequest : ForwardRequest := ⟨0xaa, signer, 0x0d, 0xee, 0, 1000, 0, 3, 5000, []⟩

def paidData : RelayData := ⟨1, domainHash, paidWorker, 0xcc, 0xbc⟩

def paidExecution : Execution := ⟨domainHash, suffixHash, paidRequest⟩

/-- The hashes of the type strings and of no data. -/
def typeHashes : List (Bytes × Word) :=
  [(textBytes Eip712.DOMAIN_TYPE,
      0x8b73c3c69bb8fe3d512ecc4cf759cc79239f7b179b0ffacaa9a75d522b39400f),
    (textBytes Eip712.DOMAIN_NAME,
      0xd41b7f69f4d7734774d21b5548d74704ad02f9f1545db63927a1d58479c576c8),
    (textBytes Eip712.DATA_VERSION,
      0xad7c5bef027816a800da1736444fb58a807ef4c9603b7848673f7e3a68eb14a5),
    (textBytes Eip712Library.RELAYDATA_TYPE,
      0xefd3b67a741899438bc25a8d888e8d5d7261fc7d2d8c93332144a2b6cf5fd4e7),
    (textBytes REQUEST_TYPE,
      0x6486b11d9eff72be816affda6d7d3d5576509f5db7da10e75dd77b76104f1b1d),
    ([], 0xc5d2460186f7233c927e7db2dcc703c0e500b653ca82273b7bfad8045d85a470)]

def typeEnv : Env := Env.ofKeys (hashTable typeHashes) (recoverTable []) .other []

/-- The encoded request, word by word. -/
def encodedBytes : Bytes :=
  [0x6486b11d9eff72be816affda6d7d3d5576509f5db7da10e75dd77b76104f1b1d, 0xaa, addressWord signer,
    0x0d, 0xee, 0, 1000, 0, 3, 5000,
    0xc5d2460186f7233c927e7db2dcc703c0e500b653ca82273b7bfad8045d85a470,
    suffixHash].flatMap wordBytes

def signedString : Bytes := 0x19 :: 0x01 :: (wordBytes domainHash ++ wordBytes encodedHash)

def walletHashes : List (Bytes × Word) :=
  [(addressBytes signer, ownerHash),
    (signedString, digest),
    (encodedBytes, encodedHash),
    (requestSignature, 0x41f7ca6063ddd9b52f4b885937a0ade6dacf862d108ef472cbbd41b8512b05c0),
    (Eip712.encodeDomain typeEnv 33 0xcc, domainHash),
    (Eip712Library.encodeRelayData typeEnv paidData, suffixHash)] ++ typeHashes

def walletEnv : Env :=
  Env.ofKeys (hashTable walletHashes) (recoverTable [((digest, requestSignature), signer)]) .other
    [paidWorker, signer]

def walletCode (a : Address) : Option Contract :=
  if a = 0xaa then some ⟨.relayHub, []⟩
  else if a = 0xcc then some ⟨.proxy 0xdd, []⟩
  else if a = 0xdd then some ⟨.smartWallet, []⟩
  else if a = 0xee then some ⟨.other, []⟩
  else none

def walletWorld : World Unit :=
  { World.ofContracts 0x0a 5000 walletCode with
    hubs := fun _ =>
      { minimumStake := 1000
        minimumUnstakeDelay := 1000
        minimumEntryDepositValue := 1000
        maxWorkerCount := 10
        penalizer := 0xbb
        workerToManager := fun _ => RelayHub.enabledWorker 0x0c
        workerCount := fun _ => 1
        stakes := fun _ => ⟨2000, 1000, 0, 0x0a⟩ }
    wallets := fun _ => ⟨0, ownerHash, 0⟩ }

def relayTx : Tx :=
  ⟨paidWorker, 1, 10, 0xaa, 0, .relayCall ⟨paidRequest, paidData⟩ requestSignature, 100000⟩

def relayedRun : ChainConf Unit :=
  relayTx.run walletEnv (Outside.silent walletEnv) 8 (Conf.start walletWorld)

theorem relayedRun_settled :
    Settled walletEnv (Outside.silent walletEnv) walletWorld 10 relayedRun :=
  .call (.start 10) relayTx 8 (by decide) (by decide)

theorem walletWorld_deployment : Deployment walletEnv walletWorld 0xaa 0xcc 0xdd where
  hub := ⟨[], rfl⟩
  masterCopy := ⟨[], rfl⟩
  wallet := ⟨[], rfl⟩
  initialised := by decide
  codeless := by
    have hkeys : ∀ a ∈ [0, paidWorker, signer], walletCode a = none := by
      simp [walletCode, paidWorker, signer]
    exact World.codeless_ofKeys hkeys

/-- What is executed in `relayedRun`, and what is hashed and signed for it. -/
theorem paidExecution_evaluated :
    (executions 0xcc 0xdd relayedRun.trace = [paidExecution] ∧ relayedRun.trace.length = 5 ∧
      (relayedRun.trace[2]?.bind (executionOf 0xcc 0xdd)) = some paidExecution) ∧
    paidExecution.encoded walletEnv = encodedBytes ∧
    paidExecution.signed walletEnv = signedString ∧
    walletEnv.keccak256 signedString = digest := by
  decide +kernel

theorem relayedRun_executions :
    executions 0xcc 0xdd relayedRun.trace = [paidExecution] ∧ relayedRun.trace.length = 5 ∧
      (relayedRun.trace[2]?.bind (executionOf 0xcc 0xdd)) = some paidExecution :=
  paidExecution_evaluated.1

theorem paidExecution_encoded : paidExecution.encoded walletEnv = encodedBytes :=
  paidExecution_evaluated.2.1

theorem paidExecution_signed : paidExecution.signed walletEnv = signedString :=
  paidExecution_evaluated.2.2.1

theorem signedString_digest : walletEnv.keccak256 signedString = digest :=
  paidExecution_evaluated.2.2.2

theorem hashed_injOn : Set.InjOn walletEnv.keccak256
    (hashed walletEnv 0xcc 0xdd signer {paidExecution.signed walletEnv} relayedRun.trace) := by
  refine injOn_list [addressBytes signer, encodedBytes, signedString] ?_ (by decide +kernel)
  intro b hb
  unfold hashed at hb
  rw [relayedRun_executions.1, paidExecution_signed] at hb
  rcases hb with rfl | rfl | ⟨x, hx, hb⟩
  · simp
  · simp
  · obtain rfl : x = paidExecution := List.mem_singleton.mp hx
    rw [paidExecution_encoded, paidExecution_signed] at hb
    rcases hb with rfl | rfl | rfl <;> simp [paidExecution, paidRequest]

theorem signer_unforged (d : Word) (sig : Bytes) (h : walletEnv.recover d sig = .ok signer) :
    ∃ m ∈ ({paidExecution.signed walletEnv} : Set Bytes), walletEnv.keccak256 m = d := by
  have hmem := recoverTable_ok h
  obtain ⟨rfl, -⟩ : d = digest ∧ sig = requestSignature := by simpa using hmem
  exact ⟨signedString, paidExecution_signed.symm, signedString_digest⟩

/-- The request of `signer` is executed once, and paid. -/
theorem execute_authentic_run :
    (relayedRun.state.wallets 0xcc).nonce = 1 ∧
    ∃ l₁ e l₂, relayedRun.trace = l₁ ++ e :: l₂ ∧
      Authentic walletEnv 0xaa 0xcc signer {paidExecution.signed walletEnv} l₁ e paidExecution ∧
      ∃ p l₃, l₂ = p :: l₃ ∧ p.msg = payment e.msg paidRequest := by
  obtain ⟨hnonce, hall, -⟩ := execute_authentic walletWorld_deployment (by decide +kernel)
    signer_unforged (Point.settled relayedRun_settled) hashed_injOn
  obtain ⟨hexecutions, hlength, hthird⟩ := relayedRun_executions
  constructor
  · rw [hnonce, hexecutions]
    decide
  · have hlt : 2 < relayedRun.trace.length := hlength ▸ (by decide : 2 < 5)
    have hcut : relayedRun.trace =
        relayedRun.trace.take 2 ++ relayedRun.trace[2] :: relayedRun.trace.drop 3 := by
      rw [List.getElem_cons_drop, List.take_append_drop]
    have hx : executionOf 0xcc 0xdd relayedRun.trace[2] = some paidExecution := by
      rw [List.getElem?_eq_getElem hlt, Option.bind_some] at hthird
      exact hthird
    obtain ⟨hauthentic, -, hpaid⟩ := hall _ _ _ _ hcut hx
    rcases hpaid (by decide) with hpays | ⟨-, hpoint⟩
    · exact ⟨_, _, _, hcut, hauthentic, hpays⟩
    · cases hpoint

end SmartWallet

end RifRelay
