import RifRelay.Contracts.Counterfactual

set_option autoImplicit false

/-! # What stands at the address of a wallet belongs to its owner

The invariant of `Counterfactual`, read with ideal hashes and signatures. `Signed` are the
strings of which the owner has signed the hash; a signature that recovers to the owner is one
of those. The hash, cut to an address, is injective on the strings that the factory and the
owner hash (`hashed`).
-/

namespace RifRelay

open CallMachine IForwarder

variable {χ : Type}

/-- The encoding of a deploy request determines its fields, the data up to its hash. -/
theorem Factory.getEncoded_inj {E : Env} {suffix suffix' : Word} {req req' : DeployRequest}
    (h : getEncoded E req suffix = getEncoded E req' suffix') :
    suffix = suffix' ∧ E.keccak256 req.data = E.keccak256 req'.data ∧
      { req with data := [] } = { req' with data := [] } := by
  simp only [getEncoded, wordBytes_append_iff, wordBytes_iff, addressWord_iff] at h
  obtain ⟨-, hhub, hfrom, hto, htoken, hrecoverer, hvalue, hnonce, hamount, htokenGas, hindex,
    hdata, hsuffix⟩ := h
  refine ⟨hsuffix, hdata, ?_⟩
  rw [hhub, hfrom, hto, htoken, hrecoverer, hvalue, hnonce, hamount, htokenGas, hindex]

/-- The string that the owner signs for a deploy request. -/
def signedRequest (E : Env) (req : DeployRequest) (domainSeparator suffixData : Word) : Bytes :=
  Eip712.signedBytes E domainSeparator (Factory.getEncoded E req suffixData)

/-- How the owner has permitted the call `d` that creates the wallet: by a signature over the
parameters, or by a signed deploy request for this factory, with the owner's nonce at that
moment, which the relay hub that it names has sent. -/
inductive Authorised (E : Env) (T : Site) (Signed : Set Bytes) (d : Entry (World χ) Msg) : Prop
  | signed (owner recoverer : Address) (index : Word) (sig : Bytes)
      (hplan : T.plan = .plain owner recoverer index)
      (hdata : d.msg.data = .createUserSmartWallet owner recoverer index sig)
      (h : SmartWalletFactory.creationString owner recoverer index ∈ Signed)
  | signedCustom (owner recoverer logic : Address) (index : Word) (initParams sig : Bytes)
      (hplan : T.plan = .custom owner recoverer logic (E.keccak256 initParams) index)
      (hdata : d.msg.data =
        .createCustomUserSmartWallet owner recoverer logic index initParams sig)
      (h : CustomSmartWalletFactory.creationString owner recoverer logic index initParams ∈ Signed)
  | requested (req : DeployRequest) (domainSeparator suffixData : Word) (sig : Bytes)
      (hdata : d.msg.data = .relayedUserSmartWalletCreation req domainSeparator suffixData sig)
      (hplan : WalletPlan.parse E T.plan.kind d.msg.data = some T.plan)
      (hfrom : req.from = T.plan.owner) (hcaller : d.msg.sender = req.relayHub)
      (hnonce : (d.pre.factories T.factory).nonces req.from = req.nonce)
      (hdomain : domainSeparator = E.keccak256 (Eip712.encodeDomain E E.chainId T.factory))
      (h : signedRequest E req domainSeparator suffixData ∈ Signed)

/-- The wallet is being initialised: the message is the first one after the call `d` of the
factory, or the one with which the proxy hands it on. -/
def Initialising (E : Env) (T : Site) (point : Option Msg) (c : ChainConf χ) : Prop :=
  ∃ l d data, Counterfactual.Creates E T d ∧
    ((c.trace = l ++ [d] ∧ point = some (d.msg.callTo (T.address E) 0 data)) ∨
      ∃ e, c.trace = l ++ [d, e] ∧ e.msg = d.msg.callTo (T.address E) 0 data ∧
        point = some (e.msg.delegatecallTo T.masterCopy data))

/-- What stands at the address of the wallet belongs to its owner. -/
structure BelongsToOwner (E : Env) (T : Site) (Signed : Set Bytes) (point : Option Msg)
    (c : ChainConf χ) : Prop where
  deployed : ∀ contract, c.state.code (T.address E) = some contract →
    contract = T.proxy E ∧ ∃ d ∈ c.trace, Counterfactual.Creates E T d ∧
      d.pre.code (T.address E) = none ∧ Authorised E T Signed d
  owner : ∀ contract, c.state.code (T.address E) = some contract →
    (c.state.wallets (T.address E)).owner = Wallet.ownerCell E T.plan.owner ∨
      Initialising E T point c
  lasting : ∀ d ∈ c.trace, Counterfactual.Creates E T d →
    c.state.code (T.address E) = some (T.proxy E)
  once : ∀ l₁ d l₂ d' l₃, c.trace = l₁ ++ d :: (l₂ ++ d' :: l₃) →
    Counterfactual.Creates E T d → ¬ Counterfactual.Creates E T d'
  requests : ∀ l₁ d l₂ d' l₃ req domainSeparator suffixData sig req' domainSeparator' suffixData'
    sig', c.trace = l₁ ++ d :: (l₂ ++ d' :: l₃) → Counterfactual.Creates E T d →
    d'.msg.self = T.factory →
    d.msg.data = .relayedUserSmartWalletCreation req domainSeparator suffixData sig →
    d'.msg.data = .relayedUserSmartWalletCreation req' domainSeparator' suffixData' sig' →
    signedRequest E req domainSeparator suffixData ≠
      signedRequest E req' domainSeparator' suffixData'

/-- The strings that are hashed for the permission to create a wallet. -/
def CallData.permitStrings (E : Env) : CallData → Set Bytes
  | .createUserSmartWallet owner recoverer index _ =>
      {SmartWalletFactory.creationString owner recoverer index}
  | .createCustomUserSmartWallet owner recoverer logic index initParams _ =>
      {CustomSmartWalletFactory.creationString owner recoverer logic index initParams}
  | .relayedUserSmartWalletCreation req domainSeparator suffixData _ =>
      {Factory.getEncoded E req suffixData, signedRequest E req domainSeparator suffixData}
  | _ => ∅

/-- What is hashed: for the address of the wallet, by the owner, for the calls of the factory,
and for the address of anything that stood there. -/
def Counterfactual.hashed (E : Env) (T : Site) (Signed : Set Bytes) (c : ChainConf χ) :
    Set Bytes :=
  {T.plan.saltBytes, T.string E} ∪ Signed ∪
    {b | ∃ e ∈ c.trace, e.msg.self = T.factory ∧
      ((∃ p, WalletPlan.parse E T.plan.kind e.msg.data = some p ∧ b = p.saltBytes) ∨
        b ∈ e.msg.data.permitStrings E)} ∪
    {b | (∃ k, c.state.code (T.address E) = some ⟨k, b⟩) ∨
      ∃ e ∈ c.trace, ∃ k, e.pre.code (T.address E) = some ⟨k, b⟩}

namespace Counterfactual

variable {E : Env} {O : Outside E χ} {w₀ : World χ} {T : Site} {Signed : Set Bytes}
  {c : ChainConf χ} {d : Entry (World χ) Msg}

theorem hash_inj {S : Set Bytes} (hinj : Set.InjOn E.createdAddress S) {a b : Bytes} (ha : a ∈ S)
    (hb : b ∈ S) (h : E.keccak256 a = E.keccak256 b) : a = b :=
  hinj ha hb (congrArg wordAddress h)

/-- The strings of a call of the factory. -/
theorem mem_hashed {b : Bytes} (hd : d ∈ c.trace) (hself : d.msg.self = T.factory)
    (hb : b ∈ d.msg.data.permitStrings E) : b ∈ hashed E T Signed c :=
  Or.inl (Or.inr ⟨d, hd, hself, Or.inr hb⟩)

theorem mem_hashed_signed {b : Bytes} (hb : b ∈ Signed) : b ∈ hashed E T Signed c :=
  Or.inl (Or.inl (Or.inr hb))

theorem string_mem : T.string E ∈ hashed E T Signed c := Or.inl (Or.inl (Or.inl (Or.inr rfl)))

/-- Nothing else stands at the address. -/
theorem not_foreign (hinj : Set.InjOn E.createdAddress (hashed E T Signed c))
    {contract : Contract} (hmem : contract.creation ∈ hashed E T Signed c) :
    ¬ Foreign E T contract := by
  rintro ⟨hne, haddress⟩
  exact hne (hinj hmem string_mem haddress.symm)

theorem not_collided (hinj : Set.InjOn E.createdAddress (hashed E T Signed c)) :
    ¬ Collided E T c.trace := by
  rintro ⟨e, he, ⟨contract, hcode, hforeign⟩ | ⟨hself, p, hparse, hne, hstring⟩⟩
  · exact not_foreign hinj (Or.inr (Or.inr ⟨e, he, contract.code, hcode⟩)) hforeign
  · have hsalt : E.keccak256 p.saltBytes = E.keccak256 T.plan.saltBytes :=
      (Factory.create2String_inj hstring).2.1
    have hp : p.saltBytes ∈ hashed E T Signed c :=
      Or.inl (Or.inr ⟨e, he, hself, Or.inl ⟨p, hparse, rfl⟩⟩)
    have hT : T.plan.saltBytes ∈ hashed E T Signed c := Or.inl (Or.inl (Or.inl (Or.inl rfl)))
    exact hne (WalletPlan.saltBytes_inj (WalletPlan.parse_kind hparse) (hash_inj hinj hp hT hsalt))

/-- A string that the owner's signature is for was signed. -/
theorem mem_signed (hinj : Set.InjOn E.createdAddress (hashed E T Signed c))
    (hunforged : ∀ digest sig, E.recover digest sig = .ok T.plan.owner →
      ∃ m ∈ Signed, E.keccak256 m = digest)
    (hd : d ∈ c.trace) (hself : d.msg.self = T.factory) {b sig : Bytes}
    (hb : b ∈ d.msg.data.permitStrings E)
    (hrecovered : E.recover (E.keccak256 b) sig = .ok T.plan.owner) : b ∈ Signed := by
  obtain ⟨m, hm, hhash⟩ := hunforged _ _ hrecovered
  have heq : m = b := hash_inj hinj (mem_hashed_signed hm) (mem_hashed hd hself hb) hhash
  exact heq ▸ hm

/-- A founding was authorised. -/
theorem Founding.authorised (h : Founding E T d)
    (hinj : Set.InjOn E.createdAddress (hashed E T Signed c))
    (hunforged : ∀ digest sig, E.recover digest sig = .ok T.plan.owner →
      ∃ m ∈ Signed, E.keccak256 m = digest)
    (hd : d ∈ c.trace) : Authorised E T Signed d := by
  obtain ⟨hself, hplan⟩ := h.creates
  obtain ⟨o, ho, hpermitted⟩ := h.permitted
  have hsigned : ∀ b sig, b ∈ d.msg.data.permitStrings E →
      E.recover (E.keccak256 b) sig = .ok T.plan.owner → b ∈ Signed :=
    fun b sig hb hrecovered => mem_signed hinj hunforged hd hself hb hrecovered
  have hparsed := hplan
  unfold Order.parse at ho
  unfold WalletPlan.parse at hplan
  -- one case for each message of a factory that creates a wallet
  split at ho
  next owner recoverer index sig hkind hdata =>
    rw [hkind, hdata] at hplan
    have hT := (Option.some.inj hplan).symm
    obtain rfl := Option.some.inj ho
    refine .signed owner recoverer index sig hT hdata (hsigned _ sig ?_ ?_)
    · rw [hdata]
      rfl
    · rw [hT]
      exact hpermitted
  next req dom suffix sig hkind hdata =>
    rw [hkind, hdata] at hplan
    have hT := (Option.some.inj hplan).symm
    obtain rfl := Option.some.inj ho
    obtain ⟨hcaller, hnonce, -, hsigns⟩ := hpermitted
    have hfrom : req.from = T.plan.owner := by
      rw [hT]
      rfl
    refine .requested req dom suffix sig hdata hparsed hfrom hcaller hnonce ?_
      (hsigned _ sig ?_ ?_)
    · rw [← hself]
      exact hsigns.domain.symm
    · rw [hdata]
      exact Or.inr rfl
    · rw [← hfrom]
      exact hsigns.recovered
  next owner recoverer logic index initParams sig hkind hdata =>
    rw [hkind, hdata] at hplan
    have hT := (Option.some.inj hplan).symm
    obtain rfl := Option.some.inj ho
    refine .signedCustom owner recoverer logic index initParams sig hT hdata (hsigned _ sig ?_ ?_)
    · rw [hdata]
      rfl
    · rw [hT]
      exact hpermitted
  next req dom suffix sig hkind hdata =>
    rw [hkind, hdata] at hplan
    have hT := (Option.some.inj hplan).symm
    obtain rfl := Option.some.inj ho
    obtain ⟨hcaller, hnonce, -, hsigns⟩ := hpermitted
    have hfrom : req.from = T.plan.owner := by
      rw [hT]
      rfl
    refine .requested req dom suffix sig hdata hparsed hfrom hcaller hnonce ?_
      (hsigned _ sig ?_ ?_)
    · rw [← hself]
      exact hsigns.domain.symm
    · rw [hdata]
      exact Or.inr rfl
    · rw [← hfrom]
      exact hsigns.recovered
  next => cases ho

/-- A history with one call for the wallet has not got two. -/
theorem Founded.once {trace l₁ l₂ l₃ : List (Entry (World χ) Msg)} {d d' : Entry (World χ) Msg}
    (h : Founded E T trace) (htrace : trace = l₁ ++ d :: (l₂ ++ d' :: l₃))
    (hd : Creates E T d) : ¬ Creates E T d' := by
  classical
  intro hd'
  obtain ⟨k₁, f, k₂, hk, -, hothers⟩ := h
  have hleft : (k₁ ++ k₂).countP (fun e => decide (Creates E T e)) = 0 := by
    rw [List.countP_eq_zero]
    intro e he
    simpa using hothers e he
  have hcount : (k₁ ++ f :: k₂).countP (fun e => decide (Creates E T e)) ≤ 1 := by
    rw [List.countP_append, List.countP_cons]
    rw [List.countP_append] at hleft
    split <;> omega
  rw [← hk, htrace] at hcount
  simp only [List.countP_append, List.countP_cons, hd, hd', decide_true, if_true] at hcount
  omega

/-- The same request is for the same wallet. -/
theorem parse_of_signedRequest (hinj : Set.InjOn E.createdAddress (hashed E T Signed c))
    {d' : Entry (World χ) Msg} (hd : d ∈ c.trace) (hd' : d' ∈ c.trace)
    (hself : d.msg.self = T.factory) (hself' : d'.msg.self = T.factory)
    {req req' : DeployRequest} {dom dom' suffix suffix' : Word} {sig sig' : Bytes}
    (hdata : d.msg.data = .relayedUserSmartWalletCreation req dom suffix sig)
    (hdata' : d'.msg.data = .relayedUserSmartWalletCreation req' dom' suffix' sig')
    (h : signedRequest E req dom suffix = signedRequest E req' dom' suffix') :
    WalletPlan.parse E T.plan.kind d'.msg.data = WalletPlan.parse E T.plan.kind d.msg.data := by
  obtain ⟨-, hhash⟩ := Eip712.signedBytes_inj h
  have hencoded := hash_inj hinj
    (mem_hashed hd hself (by rw [hdata]; exact Or.inl rfl))
    (mem_hashed hd' hself' (by rw [hdata']; exact Or.inl rfl)) hhash
  obtain ⟨-, hparams, hreq⟩ := Factory.getEncoded_inj hencoded
  obtain ⟨-, hfrom, hto, -, hrecoverer, -, -, -, -, hindex, -⟩ := DeployRequest.mk.inj hreq
  rw [hdata, hdata']
  cases hplan : T.plan with
  | plain => simp only [WalletPlan.kind, WalletPlan.parse, hfrom, hrecoverer, hindex]
  | custom => simp only [WalletPlan.kind, WalletPlan.parse, hfrom, hrecoverer, hto, hindex, hparams]

/-- A wallet that was founded. -/
theorem belongsToOwner {point : Option Msg}
    (hinj : Set.InjOn E.createdAddress (hashed E T Signed c))
    (hunforged : ∀ digest sig, E.recover digest sig = .ok T.plan.owner →
      ∃ m ∈ Signed, E.keccak256 m = digest)
    (hcode : c.state.code (T.address E) = some (T.proxy E)) (hfounded : Founded E T c.trace)
    (howner : (c.state.wallets (T.address E)).owner = Wallet.ownerCell E T.plan.owner ∨
      Initialising E T point c) : BelongsToOwner E T Signed point c where
  deployed := by
    intro contract hcontract
    obtain ⟨l₁, d, l₂, htrace, hd, -⟩ := hfounded
    have hmem : d ∈ c.trace := by
      rw [htrace]
      simp
    exact ⟨Option.some.inj (hcontract.symm.trans hcode), d, hmem, hd.creates, hd.vacant,
      hd.authorised hinj hunforged hmem⟩
  owner := fun _ _ => howner
  lasting := fun _ _ _ => hcode
  once := fun _ _ _ _ _ htrace hd => hfounded.once htrace hd
  requests := by
    intro l₁ d l₂ d' l₃ req dom suffix sig req' dom' suffix' sig' htrace hd hself' hdata hdata'
      hsame
    have hmem : d ∈ c.trace ∧ d' ∈ c.trace := by
      rw [htrace]
      simp
    have hparse := parse_of_signedRequest hinj hmem.1 hmem.2 hd.1 hself' hdata hdata' hsame
    exact hfounded.once htrace hd ⟨hself', hparse.trans hd.2⟩

/-- A wallet that does not exist. -/
theorem Awaited.belongsToOwner {point : Option Msg} (h : Awaited E T c)
    (hinj : Set.InjOn E.createdAddress (hashed E T Signed c)) :
    BelongsToOwner E T Signed point c := by
  have hnone : ∀ contract, c.state.code (T.address E) ≠ some contract := by
    intro contract hcontract
    exact not_foreign hinj (Or.inr (Or.inl ⟨contract.code, hcontract⟩)) (h.code contract hcontract)
  refine ⟨fun contract hcontract => absurd hcontract (hnone contract),
    fun contract hcontract => absurd hcontract (hnone contract),
    fun d hd hcreates => absurd hcreates (h.unfounded d hd), ?_, ?_⟩
  · intro l₁ d l₂ d' l₃ htrace hcreates
    exact absurd hcreates (h.unfounded d (by rw [htrace]; simp))
  · intro l₁ d l₂ d' l₃ _ _ _ _ _ _ _ _ htrace hcreates
    exact absurd hcreates (h.unfounded d (by rw [htrace]; simp))

end Counterfactual

section Main

open Counterfactual

variable {E : Env} {O : Outside E χ} {w₀ : World χ}

/-- **Counterfactual ownership.** At every point of every run of a factory of either kind, for
every plan of a wallet and whatever anybody calls: what stands at the address that
`getSmartWalletAddress` gives was put there by the factory, once, in a call that the owner
permitted, and from its initialisation on its owner slot holds the hash of the owner; no deploy
request takes effect twice. -/
theorem counterfactual_ownership (F mc : Address) (p : WalletPlan)
    (hp : Prepared E w₀ ⟨F, mc, p⟩)
    (hlogic : LogicKeeps O (p.address E (w₀.factories F) F) mc)
    (hcell : Wallet.ownerCell E p.owner ≠ 0) {Signed : Set Bytes}
    (hunforged : ∀ digest sig, E.recover digest sig = .ok p.owner →
      ∃ m ∈ Signed, E.keccak256 m = digest)
    {b : Word} {point : Option Msg} {c : ChainConf χ} (hc : Point E O w₀ b point c)
    (hinj : Set.InjOn E.createdAddress (hashed E ⟨F, mc, p⟩ Signed c)) :
    p.address E (c.state.factories F) F = Site.address E ⟨F, mc, p⟩ ∧
      BelongsToOwner E ⟨F, mc, p⟩ Signed point c := by
  obtain ⟨-, hAF, -⟩ := hp.distinct
  rw [Site.address_eq E ⟨F, mc, p⟩ hp.masterCopy] at hlogic
  have hkept : Kept E w₀ ⟨F, mc, p⟩ c →
      p.address E (c.state.factories F) F = Site.address E ⟨F, mc, p⟩ ∧
        BelongsToOwner E ⟨F, mc, p⟩ Signed point c := by
    intro h
    refine ⟨Site.address_eq E ⟨F, mc, p⟩ h.masterCopy, ?_⟩
    rcases h.wallet with ha | hs
    · exact ha.belongsToOwner hinj
    · exact belongsToOwner hinj hunforged hs.code hs.founded (Or.inl hs.owner)
  rcases (kept_unless hp hlogic hcell).point hc with hx | ⟨-, h⟩ | ⟨m, hm, -, hsend⟩
  · exact absurd hx (not_collided hinj)
  · exact hkept h
  · rcases hsend with h | ⟨l, d, data, htrace, hl, rfl, hy⟩ |
      ⟨l, d, e, data, htrace, hl, he, rfl, hy⟩
    · exact hkept h
    · refine ⟨Site.address_eq E ⟨F, mc, p⟩ hy.masterCopy,
        belongsToOwner hinj hunforged hy.proxy ⟨l, d, [], htrace, hy.founding, ?_⟩ (Or.inr ?_)⟩
      · rw [List.append_nil]
        exact hl
      · exact ⟨l, d, data, hy.founding.creates, Or.inl ⟨htrace, hm⟩⟩
    · refine ⟨Site.address_eq E ⟨F, mc, p⟩ hy.masterCopy,
        belongsToOwner hinj hunforged hy.proxy ⟨l, d, [e], htrace, hy.founding, ?_⟩ (Or.inr ?_)⟩
      · intro x hx hcreates
        rcases List.mem_append.mp hx with hx | hx
        · exact hl x hx hcreates
        · obtain rfl := List.mem_singleton.mp hx
          have hself : x.msg.self = Site.address E ⟨F, mc, p⟩ := by
            rw [he]
            rfl
          exact hAF (hself.symm.trans hcreates.1)
      · exact ⟨l, d, data, hy.founding.creates, Or.inr ⟨e, htrace, he, hm⟩⟩

end Main

/-! The wallet that the factory of `createdRun` creates for `keyOwner`. -/

namespace Counterfactual

open Initialisation

def newSite : Site := ⟨0xfa, 0xc0, .plain keyOwner 0x0b 7⟩

def newString : Bytes := Proxy.create2String 0xfa newSalt newCode

/-- What the evaluation of `createdRun` comes to. -/
theorem createdRun_evaluated :
    (creationWorld.code (newSite.address creationEnv) = none ∧
      newSite.string creationEnv = newString ∧ newSite.address creationEnv = newWallet) ∧
    (∀ e ∈ createdRun.trace, e.msg.self = 0xfa →
      e.msg.data = .createUserSmartWallet keyOwner 0x0b 7 creationSignature) ∧
    createdRun.state.code newWallet = some ⟨.proxy 0xc0, newString⟩ ∧
    ∀ e ∈ createdRun.trace, e.pre.code newWallet = none ∨
      e.pre.code newWallet = some ⟨.proxy 0xc0, newString⟩ := by
  decide +kernel

theorem newSite_prepared : Prepared creationEnv creationWorld newSite where
  factory := ⟨[], rfl⟩
  template := ⟨.smartWallet, [], rfl, rfl⟩
  masterCopy := rfl
  vacant := createdRun_evaluated.1.1
  codeless := creationWorld_deployment.codeless

theorem silent_logicKeeps (E : Env) (wallet masterCopy : Address) :
    LogicKeeps (Outside.silent E) wallet masterCopy :=
  ⟨fun _ _ _ _ => trivial, fun _ _ _ _ => trivial⟩

theorem newSite_string : newSite.string creationEnv = newString :=
  createdRun_evaluated.1.2.1

theorem newSite_address : newSite.address creationEnv = newWallet :=
  createdRun_evaluated.1.2.2

theorem createdRun_factory : ∀ e ∈ createdRun.trace, e.msg.self = 0xfa →
    e.msg.data = .createUserSmartWallet keyOwner 0x0b 7 creationSignature :=
  createdRun_evaluated.2.1

theorem createdRun_code : createdRun.state.code newWallet = some ⟨.proxy 0xc0, newString⟩ ∧
    ∀ e ∈ createdRun.trace, e.pre.code newWallet = none ∨
      e.pre.code newWallet = some ⟨.proxy 0xc0, newString⟩ :=
  createdRun_evaluated.2.2

theorem newSite_injOn : Set.InjOn creationEnv.createdAddress
    (hashed creationEnv newSite {SmartWalletFactory.creationString keyOwner 0x0b 7}
      createdRun) := by
  refine injOn_list [SmartWallet.saltBytes keyOwner 0x0b 7, newString,
    SmartWalletFactory.creationString keyOwner 0x0b 7] ?_ (by decide +kernel)
  rintro b ((((rfl | rfl) | rfl) | ⟨e, he, hself, hb⟩) | hb)
  · exact List.mem_cons_self
  · rw [newSite_string]
    simp
  · simp
  · rw [createdRun_factory e he hself] at hb
    rcases hb with ⟨p, hp, rfl⟩ | rfl
    · obtain rfl := Option.some.inj hp
      exact List.mem_cons_self
    · simp
  · have hproxy : b = newString := by
      rw [newSite_address] at hb
      rcases hb with ⟨k, hk⟩ | ⟨e, he, k, hk⟩
      · rw [createdRun_code.1] at hk
        exact (Contract.mk.inj (Option.some.inj hk)).2.symm
      · rcases createdRun_code.2 e he with hnone | hsome
        · rw [hnone] at hk
          cases hk
        · rw [hsome] at hk
          exact (Contract.mk.inj (Option.some.inj hk)).2.symm
    rw [hproxy]
    simp

theorem keyOwner_unforged (digest : Word) (sig : Bytes)
    (h : creationEnv.recover digest sig = .ok keyOwner) :
    ∃ m ∈ ({SmartWalletFactory.creationString keyOwner 0x0b 7} : Set Bytes),
      creationEnv.keccak256 m = digest := by
  have hmem := recoverTable_ok h
  rw [List.mem_singleton] at hmem
  obtain ⟨hkey, -⟩ := Prod.mk.inj hmem
  obtain ⟨rfl, -⟩ := Prod.mk.inj hkey
  exact ⟨_, rfl, by decide +kernel⟩

end Counterfactual

section Created

open Counterfactual Initialisation

/-- The wallet of `keyOwner`. -/
theorem counterfactual_ownership_created :
    createdRun.state.code newWallet = some ⟨.proxy 0xc0, newString⟩ ∧
      WalletPlan.address creationEnv (createdRun.state.factories 0xfa) 0xfa
          (.plain keyOwner 0x0b 7) = newSite.address creationEnv ∧
        BelongsToOwner creationEnv newSite
          {SmartWalletFactory.creationString keyOwner 0x0b 7} none createdRun := by
  refine ⟨createdRun_code.1, ?_⟩
  exact counterfactual_ownership 0xfa 0xc0 (.plain keyOwner 0x0b 7) newSite_prepared
    (silent_logicKeeps _ _ _) (by decide +kernel) keyOwner_unforged
    (Point.settled createdRun_settled) newSite_injOn

end Created

end RifRelay
