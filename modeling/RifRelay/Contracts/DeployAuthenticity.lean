import RifRelay.Contracts.CounterfactualOwnership
import RifRelay.Contracts.FactoryHistory
import RifRelay.Contracts.WalletAuthenticity

set_option autoImplicit false

/-! # Factories deploy what an owner signed, once

For every run of a hub with a factory of either kind: the nonce of an owner counts the deploy
requests that were carried out for him, each of them was signed by him for this factory and this
nonce, and none is carried out twice (`deploy_authentic`). Hashes and signatures are idealised as
for wallets.
-/

namespace RifRelay

open CallMachine IForwarder
open EnvelopingTypes (RelayData)

namespace Factory

variable {χ : Type}

/-- The encoded request. -/
def Creation.encoded (E : Env) (x : Creation) : Bytes := getEncoded E x.req x.suffixData

/-- The string that has to be signed. -/
def Creation.signed (E : Env) (x : Creation) : Bytes :=
  signedRequest E x.req x.domainSeparator x.suffixData

/-- What is hashed: what the owner signs, and for every creation of his the encoded request and
the signed string. -/
def hashed (E : Env) (F owner : Address) (Signed : Set Bytes)
    (trace : List (Entry (World χ) Msg)) : Set Bytes :=
  Signed ∪ {b | ∃ x ∈ creations F owner trace, b = x.encoded E ∨ b = x.signed E}

/-- The entry `e`, which comes after the history `l`, creates what the owner has signed. -/
structure Authentic (E : Env) (H F : Address) (Signed : Set Bytes)
    (l : List (Entry (World χ) Msg)) (e : Entry (World χ) Msg) (x : Creation) : Prop where
  signed : x.signed E ∈ Signed
  domain : x.domainSeparator = E.keccak256 (Eip712.encodeDomain E E.chainId F)
  nonce : x.req.nonce = (e.pre.factories F).nonces x.req.from
  caller : e.msg.sender = x.req.relayHub
  hub : x.req.relayHub = H → ∃ r ∈ l, ∃ relayData, Deploying E H r relayData e.msg x ∧
    r.msg.sender = relayData.relayWorker ∧ e.msg.tx.origin = relayData.relayWorker ∧
    relayData.gasPrice ≤ e.msg.tx.gasPrice

variable {E : Env} {w₀ : World χ} {H F owner : Address} {Signed : Set Bytes} {k : Code}
  {l l₁ l₂ l₃ : List (Entry (World χ) Msg)} {e e' : Entry (World χ) Msg} {x x' : Creation}

/-- A creation the factory has checked is authentic. -/
theorem Checked.authentic {trace : List (Entry (World χ) Msg)}
    (hunforged : ∀ digest sig, E.recover digest sig = .ok owner →
      ∃ m ∈ Signed, E.keccak256 m = digest)
    (hinj : Set.InjOn E.keccak256 (hashed E F owner Signed trace)) (he : e ∈ trace)
    (hx : creationOf F e = some x) (howner : x.req.from = owner)
    (h : Checked E w₀ H F l e x) : Authentic E H F Signed l e x := by
  obtain ⟨hself, -, -⟩ := creationOf_eq_some.mp hx
  obtain ⟨sig, hcaller, hnonce, hsigned⟩ := h.accepted
  have hmem : x ∈ creations F owner trace := howner ▸ mem_creations he hx
  refine ⟨?_, ?_, hnonce.symm, hcaller, ?_⟩
  · obtain ⟨m, hm, hdigest⟩ := hunforged _ sig (howner ▸ hsigned.recovered)
    have heq : m = x.signed E :=
      hinj (Or.inl hm) (Or.inr ⟨x, hmem, Or.inr rfl⟩) hdigest
    exact heq ▸ hm
  · rw [← hself]
    exact hsigned.domain.symm
  · intro hhub
    obtain ⟨r, hr, relayData, hdeploying⟩ := h.deployed (hcaller.trans hhub)
    refine ⟨r, hr, relayData, hdeploying, hdeploying.guard.worker, ?_, ?_⟩
    · rw [hdeploying.tx, ← hdeploying.guard.origin]
      exact hdeploying.guard.worker
    · rw [hdeploying.tx]
      exact hdeploying.guard.gasPrice

/-- Two creations of one signed string have one nonce. -/
theorem Creation.nonce_of_signed {S : Set Bytes} (hinj : Set.InjOn E.keccak256 S)
    (hx : x.encoded E ∈ S) (hx' : x'.encoded E ∈ S) (h : x.signed E = x'.signed E) :
    x.req.nonce = x'.req.nonce := by
  obtain ⟨-, hhash⟩ := Eip712.signedBytes_inj h
  obtain ⟨-, -, hreq⟩ := getEncoded_inj (hinj hx hx' hhash)
  injection hreq

/-- **What a factory deploys on request, the owner has signed, and only once.** At every point of
every run, with any behaviour of all other contracts and any re-entrant calls:

* the nonce of an owner counts the deploy requests that were carried out for him and nothing else;
* each of them he has signed for this factory with the nonce he had at that moment, and the relay
  hub that was signed has sent it; when that is the hub at `H`, its worker is the one that was
  signed and sends the transaction at the price that was signed or more;
* a signed string can be used again only after 2^256 further requests of the owner.
-/
theorem deploy_authentic {O : Outside E χ} (hd : Deployment E w₀ H F k)
    (hunforged : ∀ digest sig, E.recover digest sig = .ok owner →
      ∃ m ∈ Signed, E.keccak256 m = digest)
    {b : Word} {point : Option Msg} {c : ChainConf χ} (hc : Point E O w₀ b point c)
    (hinj : Set.InjOn E.keccak256 (hashed E F owner Signed c.trace)) :
    (c.state.factories F).nonces owner = (w₀.factories F).nonces owner +
      BitVec.ofNat 256 (creations F owner c.trace).length ∧
    (∀ l₁ e l₂ x, c.trace = l₁ ++ e :: l₂ → creationOf F e = some x → x.req.from = owner →
      Authentic E H F Signed l₁ e x ∧
      (e.pre.factories F).nonces owner = (w₀.factories F).nonces owner +
        BitVec.ofNat 256 (creations F owner l₁).length) ∧
    (∀ l₁ e l₂ e' l₃ x x', c.trace = l₁ ++ e :: (l₂ ++ e' :: l₃) →
      creationOf F e = some x → creationOf F e' = some x' → x.req.from = owner →
      x'.req.from = owner → x.signed E = x'.signed E →
      2 ^ 256 ≤ (creations F owner l₂).length + 1) := by
  have hinv : FactoryInv E w₀ H F c := by
    rcases (factory_guarded hd).point hc with ⟨-, hi⟩ | ⟨m, -, -, -, hi⟩
    · exact hi
    · exact hi
  have hchecked : ∀ l₁ e l₂ x, c.trace = l₁ ++ e :: l₂ → creationOf F e = some x →
      x.req.from = owner → Authentic E H F Signed l₁ e x ∧
        (e.pre.factories F).nonces owner = (w₀.factories F).nonces owner +
          BitVec.ofNat 256 (creations F owner l₁).length := by
    intro l₁ e l₂ x hcut hx howner
    have he : e ∈ c.trace := by
      rw [hcut]
      simp
    have h := hinv.checked l₁ e l₂ hcut x hx
    exact ⟨h.authentic hunforged hinj he hx howner, howner ▸ h.count⟩
  refine ⟨hinv.nonces owner, hchecked, ?_⟩
  intro l₁ e l₂ e' l₃ x x' hcut hx hx' howner howner' hsame
  have hcut' : c.trace = (l₁ ++ e :: l₂) ++ e' :: l₃ := by
    rw [hcut, List.append_assoc, List.cons_append]
  have hmem : ∀ y ∈ [e, e'], y ∈ c.trace := by
    rw [hcut]
    simp
  have hnonce : x.req.nonce = x'.req.nonce := by
    refine Creation.nonce_of_signed hinj ?_ ?_ hsame
    · exact Or.inr ⟨x, howner ▸ mem_creations (hmem e (by simp)) hx, Or.inl rfl⟩
    · exact Or.inr ⟨x', howner' ▸ mem_creations (hmem e' (by simp)) hx', Or.inl rfl⟩
  obtain ⟨hfirst, hcount⟩ := hchecked _ _ _ _ hcut hx howner
  obtain ⟨hsecond, hcount'⟩ := hchecked _ _ _ _ hcut' hx' howner'
  rw [hfirst.nonce, hsecond.nonce, howner, howner', hcount, hcount'] at hnonce
  have hlength : (creations F owner (l₁ ++ e :: l₂)).length =
      (creations F owner l₁).length + 1 + (creations F owner l₂).length := by
    rw [List.append_cons, creations_append, List.length_append, creations_snoc_some _ hx,
      if_pos howner]
  rw [hlength] at hnonce
  exact SmartWallet.wrap_of_eq hnonce

/-! A hub at `0xaa` whose worker is `paidWorker`, and a factory at `0xfa` over the wallet at `0xc0`.
For 3 tokens of `0xee` the wallet of `keyOwner` is deployed. -/

open Initialisation SmartWallet

def deployDomain : Word := 0x39ea35e0bfc005c5b6217156e552ad24206dd9a25e14f7da0b018649d29aaa79

def deploySuffix : Word := 0x564b1375d53a11c94d8d033b3a28d77524882870f37101070979632ce303a9b1

def deployHash : Word := 0x5b257c05e40dff4f3e7134bdf9c52ed37fc0885f8f1e37364f5557f45a7d5941

def deployDigest : Word := 0x30ff3307eeb799c608ed46ee3beacf4c33d20cc7e82d33b3c36b488049499166

def deploySignature : Bytes :=
  wordBytes 0x9f97004f84dbb6fc06f86ae1feb2c74073d8a6c5ee3fe5c8a7e44c0b5c63b7df ++
    wordBytes 0x6a53f611b51b5dd4c846b30185ffbfd7768150cb58b9d53572d7097269b1a1de ++ [0x1c]

def deployRequest : DeployRequest := ⟨0xaa, keyOwner, 0, 0xee, 0x0b, 0, 0, 3, 5000, 7, []⟩

def deployData : RelayData := ⟨1, deployDomain, paidWorker, 0xfa, 0xbc⟩

def deployCreation : Creation := ⟨deployDomain, deploySuffix, deployRequest⟩

/-- The encoded request, word by word. -/
def deployEncoded : Bytes :=
  [0x200a8451c34a8ddf49e79cd1ffbeee051150f19ccd8d791a2a9440ec4a5c3968, 0xaa,
    addressWord keyOwner, 0, 0xee, 0x0b, 0, 0, 3, 5000, 7,
    0xc5d2460186f7233c927e7db2dcc703c0e500b653ca82273b7bfad8045d85a470, deploySuffix].flatMap
      wordBytes

def deploySigned : Bytes := 0x19 :: 0x01 :: (wordBytes deployDomain ++ wordBytes deployHash)

def deployHashes : List (Bytes × Word) :=
  [(textBytes REQUEST_TYPE, 0x200a8451c34a8ddf49e79cd1ffbeee051150f19ccd8d791a2a9440ec4a5c3968),
    (deploySigned, deployDigest),
    (deployEncoded, deployHash),
    (Eip712.encodeDomain typeEnv 33 0xfa, deployDomain),
    (Eip712Library.encodeRelayData typeEnv deployData, deploySuffix)] ++
  creationHashes ++ typeHashes

def deployEnv : Env :=
  Env.ofKeys (hashTable deployHashes)
    (recoverTable [((deployDigest, deploySignature), keyOwner)]) .other [paidWorker, keyOwner]

def deployCode (a : Address) : Option Contract :=
  if a = 0xaa then some ⟨.relayHub, []⟩
  else if a = 0xfa then some ⟨.smartWalletFactory, []⟩
  else if a = 0xc0 then some ⟨.smartWallet, []⟩
  else if a = 0xee then some ⟨.other, []⟩
  else none

def deployWorld : World Unit :=
  { walletWorld with
    code := deployCode
    factories := fun _ => ⟨0xc0, fun _ => 0⟩ }

def deployTx : Tx :=
  ⟨paidWorker, 1, 10, 0xaa, 0, .deployCall ⟨deployRequest, deployData⟩ deploySignature, 100000⟩

def deployRun : ChainConf Unit :=
  deployTx.run deployEnv (Outside.silent deployEnv) 8 (Conf.start deployWorld)

theorem deployRun_settled : Settled deployEnv (Outside.silent deployEnv) deployWorld 10 deployRun :=
  .call (.start 10) deployTx 8 (by decide) (by decide)

theorem deployWorld_deployment :
    Deployment deployEnv deployWorld 0xaa 0xfa .smartWalletFactory where
  hub := ⟨[], rfl⟩
  factory := ⟨[], rfl⟩
  kind := rfl
  codeless := by
    have hkeys : ∀ a ∈ [0, paidWorker, keyOwner], deployCode a = none := by
      simp [deployCode, paidWorker, keyOwner]
    exact World.codeless_ofKeys hkeys

/-- What is carried out in `deployRun`, and what is hashed and signed for it. -/
theorem deployCreation_evaluated :
    (creations 0xfa keyOwner deployRun.trace = [deployCreation] ∧ deployRun.trace.length = 5 ∧
      (deployRun.trace[1]?.bind (creationOf 0xfa)) = some deployCreation) ∧
    deployCreation.encoded deployEnv = deployEncoded ∧
    deployCreation.signed deployEnv = deploySigned ∧
    deployEnv.keccak256 deploySigned = deployDigest := by
  decide +kernel

theorem deployRun_creations :
    creations 0xfa keyOwner deployRun.trace = [deployCreation] ∧ deployRun.trace.length = 5 ∧
      (deployRun.trace[1]?.bind (creationOf 0xfa)) = some deployCreation :=
  deployCreation_evaluated.1

theorem deployCreation_encoded : deployCreation.encoded deployEnv = deployEncoded :=
  deployCreation_evaluated.2.1

theorem deployCreation_signed : deployCreation.signed deployEnv = deploySigned :=
  deployCreation_evaluated.2.2.1

theorem deploySigned_digest : deployEnv.keccak256 deploySigned = deployDigest :=
  deployCreation_evaluated.2.2.2

theorem deployRun_injOn : Set.InjOn deployEnv.keccak256
    (hashed deployEnv 0xfa keyOwner {deployCreation.signed deployEnv} deployRun.trace) := by
  refine injOn_list [deployEncoded, deploySigned] ?_ (by decide +kernel)
  intro b hb
  unfold hashed at hb
  rw [deployRun_creations.1, deployCreation_signed] at hb
  rcases hb with rfl | ⟨x, hx, hb⟩
  · simp
  · obtain rfl : x = deployCreation := List.mem_singleton.mp hx
    rw [deployCreation_encoded, deployCreation_signed] at hb
    rcases hb with rfl | rfl <;> simp

theorem keyOwner_deploys (d : Word) (sig : Bytes) (h : deployEnv.recover d sig = .ok keyOwner) :
    ∃ m ∈ ({deployCreation.signed deployEnv} : Set Bytes), deployEnv.keccak256 m = d := by
  have hmem := recoverTable_ok h
  obtain ⟨rfl, -⟩ : d = deployDigest ∧ sig = deploySignature := by simpa using hmem
  exact ⟨deploySigned, deployCreation_signed.symm, deploySigned_digest⟩

/-- The request of `keyOwner` is carried out once, for the hub. -/
theorem deploy_authentic_run :
    (deployRun.state.factories 0xfa).nonces keyOwner = 1 ∧
    ∃ l₁ e l₂, deployRun.trace = l₁ ++ e :: l₂ ∧
      Authentic deployEnv 0xaa 0xfa {deployCreation.signed deployEnv} l₁ e deployCreation := by
  obtain ⟨hnonce, hall, -⟩ := deploy_authentic deployWorld_deployment keyOwner_deploys
    (Point.settled deployRun_settled) deployRun_injOn
  obtain ⟨hcreations, hlength, hsecond⟩ := deployRun_creations
  constructor
  · rw [hnonce, hcreations]
    decide
  · have hlt : 1 < deployRun.trace.length := hlength ▸ (by decide : 1 < 5)
    have hcut : deployRun.trace =
        deployRun.trace.take 1 ++ deployRun.trace[1] :: deployRun.trace.drop 2 := by
      rw [List.getElem_cons_drop, List.take_append_drop]
    have hx : creationOf 0xfa deployRun.trace[1] = some deployCreation := by
      rw [List.getElem?_eq_getElem hlt, Option.bind_some] at hsecond
      exact hsecond
    exact ⟨_, _, _, hcut, (hall _ _ _ _ hcut hx rfl).1⟩

end Factory

end RifRelay
