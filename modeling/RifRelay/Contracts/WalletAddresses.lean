import RifRelay.Client.WalletAddress
import RifRelay.Contracts.CustomSmartWalletFactory
import RifRelay.Contracts.FactorySpec

set_option autoImplicit false

/-! # All computations of a wallet's address agree

The address of a wallet is computed in five places: where the factory creates it for its
owner or for a deploy request, in `getSmartWalletAddress`, by the client, and by the wallet
itself in `recover`, which has to find its own address again. `addresses_agree` says that they
agree, and that a wallet accepts its recoverer and nobody else. The latter needs that the
hash, cut to an address, separates the strings it is taken of: those of the wallet and of
the call.
-/

namespace RifRelay

open CallMachine

variable {χ : Type}

/-! ## Addresses determine what they are made of -/

namespace Factory

/-- The strings that are hashed for the address of a proxy, when its salt is the hash of
`saltBytes`. -/
def addressStrings (E : Env) (creator masterCopy : Address) (saltBytes : Bytes) : Set Bytes :=
  {saltBytes, Proxy.creationBytecode masterCopy,
    proxyString E creator masterCopy (E.keccak256 saltBytes)}

theorem creationBytecode_inj {a b : Address}
    (h : Proxy.creationBytecode a = Proxy.creationBytecode b) : a = b :=
  (addressBytes_append_inj (List.append_cancel_left (List.append_cancel_left h))).1

theorem create2String_inj {a b : Address} {s t u v : Word}
    (h : Proxy.create2String a s u = Proxy.create2String b t v) : a = b ∧ s = t ∧ u = v := by
  obtain ⟨hcreator, hrest⟩ := addressBytes_append_inj (List.cons.inj h).2
  obtain ⟨hsalt, hcode⟩ := wordBytes_append_inj hrest
  exact ⟨hcreator, hsalt, wordBytes_inj hcode⟩

theorem proxyAddress_iff {E : Env} {K : Set Bytes} (hK : Set.InjOn E.createdAddress K)
    {F F' mc mc' : Address} {s s' : Bytes} (h : addressStrings E F mc s ⊆ K)
    (h' : addressStrings E F' mc' s' ⊆ K) :
    proxyAddress E F' mc' (E.keccak256 s') = proxyAddress E F mc (E.keccak256 s) ↔
      F' = F ∧ mc' = mc ∧ s' = s := by
  have hhash : ∀ a ∈ K, ∀ b ∈ K, E.keccak256 a = E.keccak256 b → a = b :=
    fun a ha b hb heq => hK ha hb (congrArg wordAddress heq)
  constructor
  · intro heq
    have hstring := hK (h' (Or.inr (Or.inr rfl))) (h (Or.inr (Or.inr rfl))) heq
    obtain ⟨hcreator, hsalt, hcode⟩ := create2String_inj hstring
    have hbytes := hhash _ (h' (Or.inr (Or.inl rfl))) _ (h (Or.inr (Or.inl rfl))) hcode
    exact ⟨hcreator, creationBytecode_inj hbytes,
      hhash _ (h' (Or.inl rfl)) _ (h (Or.inl rfl)) hsalt⟩
  · rintro ⟨rfl, rfl, rfl⟩
    rfl

/-! ## Deployments -/

/-- A message to the factory at `self` has made and initialised a proxy at `addr`: its last
event announces it, and the first message to the proxy found it where nothing had stood. -/
structure Deploys (E : Env) (self masterCopy addr : Address) (salt : Word) (initdata : CallData)
    (c c' : ChainConf χ) : Prop where
  event : ∃ l, c'.state.logs = l ++ [(self, .Deployed addr salt)]
  installed : ∃ w : World χ, w.Vacant E addr ∧ ∃ e ∈ c'.trace.drop c.trace.length,
    e.pre = w.install addr ⟨.proxy masterCopy, proxyString E self masterCopy salt⟩ ∧
      e.msg.sender = self ∧ e.msg.self = addr ∧ e.msg.data = initdata

theorem wp_deploys {E : Env} {msg : Msg} {salt : Word} {initdata : CallData} {mc : Address}
    {c c₁ : ChainConf χ} (hmc : (c₁.state.factories msg.self).masterCopy = mc)
    (hzero : c₁.state.code 0 = none) (htrace : c.trace <+: c₁.trace) (ret : Bytes) :
    wp Spec.any.tracked (deploy E msg salt initdata)
      (fun _ c' => Deploys E msg.self mc (proxyAddress E msg.self mc salt) salt initdata c
        (c'.answered msg (.ok ret))) c₁ := by
  refine wp_deploy hmc hzero fun hvacant => ⟨trivial, ?_⟩
  rintro ret' c' ⟨-, ⟨l, hl⟩, -⟩
  obtain ⟨l₀, hl₀⟩ := htrace
  refine ⟨⟨c'.state.logs, rfl⟩, c₁.state, hvacant, ⟨initMsg E msg mc salt initdata,
    installed E msg.self mc salt c₁.state⟩, ?_, rfl, rfl, rfl, rfl⟩
  rw [Conf.answered_trace, Conf.put_trace, hl, Conf.put_trace, ← hl₀, List.append_assoc,
    List.drop_left]
  exact List.mem_append_right _ List.mem_cons_self

end Factory

open Factory

section Calls

variable {E : Env} {O : Outside E χ} {c : ChainConf χ} {msg : Msg} {creation : Bytes}
  {depth : Nat} {static : Bool} {g : Nat} {ret : Bytes}

/-- A message to a factory that goes through, when its code deploys in the end. -/
theorem deploys_of_exec (hzero : c.state.code 0 = none) {addr : Address} {salt : Word}
    {initdata : CallData} {p : Sol χ Bytes}
    (hcode : ∀ w : World χ, w.code = c.state.code → codeOf E O msg w = p)
    (hp : ∀ c₁ : ChainConf χ, c₁.state.factories = c.state.factories → c₁.state.code 0 = none →
      c.trace <+: c₁.trace → wp Spec.any.tracked p (fun ret c' =>
        Deploys E msg.self (c.state.factories msg.self).masterCopy addr salt initdata c
          (c'.answered msg (.ok ret))) c₁)
    (hok : (exec (machine E O) depth static g msg c).value = .ok ret) :
    Deploys E msg.self (c.state.factories msg.self).masterCopy addr salt initdata c
      (exec (machine E O) depth static g msg c).conf := by
  obtain ⟨c', hconf, hdeploys⟩ := exec_ok (answers_tracked (machine E O)) hok
    (Q := fun ret c' => Deploys E msg.self (c.state.factories msg.self).masterCopy addr salt
      initdata c (c'.answered msg (.ok ret))) (by
    intro s henter
    obtain ⟨b, rfl, -⟩ := enter_frame henter
    show wp _ (codeOf E O msg _) _ _
    rw [hcode { c.state with balance := b } rfl]
    exact hp _ rfl hzero (List.prefix_append _ _))
  rw [hconf]
  exact hdeploys

theorem codeOf_self {k : Code} (hcode : c.state.code msg.self = some ⟨k, creation⟩)
    (haddress : msg.codeAddress = msg.self) (w : World χ) (hw : w.code = c.state.code) :
    (w.code msg.codeAddress).map Contract.code = some k := by
  rw [haddress, hw, hcode]
  rfl

namespace SmartWalletFactory

theorem createUserSmartWallet_deploys (hzero : c.state.code 0 = none)
    (hcode : c.state.code msg.self = some ⟨.smartWalletFactory, creation⟩)
    (haddress : msg.codeAddress = msg.self) {owner recoverer : Address} {index : Word}
    {sig : Bytes} (hdata : msg.data = .createUserSmartWallet owner recoverer index sig)
    (hok : (exec (machine E O) depth static g msg c).value = .ok ret) :
    Deploys E msg.self (c.state.factories msg.self).masterCopy
      (getSmartWalletAddress E (c.state.factories msg.self) msg.self owner recoverer index)
      (SmartWallet.salt E owner recoverer index) (.initializeWallet owner 0 0 0 0) c
      (exec (machine E O) depth static g msg c).conf := by
  refine deploys_of_exec hzero (p := code E msg) (fun w hw => ?_) ?_ hok
  · rw [codeOf, codeOf_self hcode haddress w hw]
  · intro c₁ hfactories hzero₁ htrace
    unfold code
    rw [hdata]
    simp only [createUserSmartWallet, Prog.bind_eq, Prog.pure_eq, wp_bind, wp_nonPayable,
      wp_recoverSigner, wp_require, wp_ret]
    intro _ _ _ _
    exact wp_deploys (congrArg (fun f => (f msg.self).masterCopy) hfactories) hzero₁ htrace []

theorem relayedUserSmartWalletCreation_deploys (hzero : c.state.code 0 = none)
    (hcode : c.state.code msg.self = some ⟨.smartWalletFactory, creation⟩)
    (haddress : msg.codeAddress = msg.self) {req : IForwarder.DeployRequest}
    {domainSeparator suffixData : Word} {sig : Bytes}
    (hdata : msg.data = .relayedUserSmartWalletCreation req domainSeparator suffixData sig)
    (hok : (exec (machine E O) depth static g msg c).value = .ok ret) :
    Deploys E msg.self (c.state.factories msg.self).masterCopy
      (getSmartWalletAddress E (c.state.factories msg.self) msg.self req.from req.recoverer
        req.index)
      (SmartWallet.salt E req.from req.recoverer req.index)
      (.initializeWallet req.from req.tokenContract msg.tx.origin req.tokenAmount req.tokenGas) c
      (exec (machine E O) depth static g msg c).conf := by
  refine deploys_of_exec hzero (p := code E msg) (fun w hw => ?_) ?_ hok
  · rw [codeOf, codeOf_self hcode haddress w hw]
  · intro c₁ hfactories hzero₁ htrace
    unfold code
    rw [hdata]
    simp only [relayedUserSmartWalletCreation, Factory.verifySig, Prog.bind_eq, Prog.pure_eq,
      wp_bind, wp_nonPayable, wp_require, wp_factory_storage, wp_checkSignature,
      wp_factory_modifyStorage, wp_ret]
    intro _ _ _ _
    refine wp_deploys ?_ ?_ ?_ []
    · simp [World.setFactory, Factory.setNonce, hfactories]
    · exact hzero₁
    · exact htrace

end SmartWalletFactory

namespace CustomSmartWalletFactory

theorem createUserSmartWallet_deploys (hzero : c.state.code 0 = none)
    (hcode : c.state.code msg.self = some ⟨.customSmartWalletFactory, creation⟩)
    (haddress : msg.codeAddress = msg.self) {owner recoverer logic : Address} {index : Word}
    {initParams sig : Bytes}
    (hdata : msg.data = .createCustomUserSmartWallet owner recoverer logic index initParams sig)
    (hok : (exec (machine E O) depth static g msg c).value = .ok ret) :
    Deploys E msg.self (c.state.factories msg.self).masterCopy
      (getSmartWalletAddress E (c.state.factories msg.self) msg.self owner recoverer logic
        (E.keccak256 initParams) index)
      (CustomSmartWallet.salt E owner recoverer logic (E.keccak256 initParams) index)
      (.initializeCustomWallet owner logic 0 0 0 0 initParams) c
      (exec (machine E O) depth static g msg c).conf := by
  refine deploys_of_exec hzero (p := code E msg) (fun w hw => ?_) ?_ hok
  · rw [codeOf, codeOf_self hcode haddress w hw]
  · intro c₁ hfactories hzero₁ htrace
    unfold code
    rw [hdata]
    simp only [createUserSmartWallet, Prog.bind_eq, Prog.pure_eq, wp_bind, wp_nonPayable,
      wp_recoverSigner, wp_require, wp_ret]
    intro _ _ _ _
    exact wp_deploys (congrArg (fun f => (f msg.self).masterCopy) hfactories) hzero₁ htrace []

theorem relayedUserSmartWalletCreation_deploys (hzero : c.state.code 0 = none)
    (hcode : c.state.code msg.self = some ⟨.customSmartWalletFactory, creation⟩)
    (haddress : msg.codeAddress = msg.self) {req : IForwarder.DeployRequest}
    {domainSeparator suffixData : Word} {sig : Bytes}
    (hdata : msg.data = .relayedUserSmartWalletCreation req domainSeparator suffixData sig)
    (hok : (exec (machine E O) depth static g msg c).value = .ok ret) :
    Deploys E msg.self (c.state.factories msg.self).masterCopy
      (getSmartWalletAddress E (c.state.factories msg.self) msg.self req.from req.recoverer req.to
        (E.keccak256 req.data) req.index)
      (CustomSmartWallet.salt E req.from req.recoverer req.to (E.keccak256 req.data) req.index)
      (.initializeCustomWallet req.from req.to req.tokenContract msg.tx.origin req.tokenAmount
        req.tokenGas req.data) c
      (exec (machine E O) depth static g msg c).conf := by
  refine deploys_of_exec hzero (p := code E msg) (fun w hw => ?_) ?_ hok
  · rw [codeOf, codeOf_self hcode haddress w hw]
  · intro c₁ hfactories hzero₁ htrace
    unfold code
    rw [hdata]
    simp only [relayedUserSmartWalletCreation, Factory.verifySig, Prog.bind_eq, Prog.pure_eq,
      wp_bind, wp_nonPayable, wp_require, wp_factory_storage, wp_checkSignature,
      wp_factory_modifyStorage, wp_ret]
    intro _ _ _ _
    refine wp_deploys ?_ ?_ ?_ []
    · simp [World.setFactory, Factory.setNonce, hfactories]
    · exact hzero₁
    · exact htrace

end CustomSmartWalletFactory

end Calls

/-! ## Agreement -/

namespace SmartWallet

/-- The string whose hash is the salt. -/
def saltBytes (owner recoverer : Address) (index : Word) : Bytes :=
  addressBytes owner ++ (addressBytes recoverer ++ wordBytes index)

theorem saltBytes_iff {owner owner' recoverer recoverer' : Address} {index index' : Word} :
    saltBytes owner' recoverer' index' = saltBytes owner recoverer index ↔
      owner' = owner ∧ recoverer' = recoverer ∧ index' = index := by
  constructor
  · intro h
    obtain ⟨howner, hrest⟩ := addressBytes_append_inj h
    obtain ⟨hrecoverer, hindex⟩ := addressBytes_append_inj hrest
    exact ⟨howner, hrecoverer, wordBytes_inj hindex⟩
  · rintro ⟨rfl, rfl, rfl⟩
    rfl

/-- The address of the wallet with this owner, recoverer and index of the factory at `F` is
the same wherever it is computed, and the wallet finds it again for its recoverer. `K` is a
set of strings with different hashes. -/
structure AddressesAgree (E : Env) (O : Outside E χ) (web3 : Web3Utils) (K : Set Bytes)
    (c : ChainConf χ) (F owner recoverer : Address) (index : Word) (chainId : Nat)
    (factory ownerEOA recovererText bytecodeHash : Text) : Prop where
  created : ∀ creation depth static g msg ret sig,
    c.state.code F = some ⟨.smartWalletFactory, creation⟩ → msg.self = F → msg.codeAddress = F →
    msg.data = .createUserSmartWallet owner recoverer index sig →
    (exec (machine E O) depth static g msg c).value = .ok ret →
    Deploys E F (c.state.factories F).masterCopy
      (SmartWalletFactory.getSmartWalletAddress E (c.state.factories F) F owner recoverer index)
      (salt E owner recoverer index) (.initializeWallet owner 0 0 0 0) c
      (exec (machine E O) depth static g msg c).conf
  relayed : ∀ creation depth static g msg ret req domainSeparator suffixData sig,
    c.state.code F = some ⟨.smartWalletFactory, creation⟩ → msg.self = F → msg.codeAddress = F →
    msg.data = .relayedUserSmartWalletCreation req domainSeparator suffixData sig →
    req.from = owner → req.recoverer = recoverer → req.index = index →
    (exec (machine E O) depth static g msg c).value = .ok ret →
    Deploys E F (c.state.factories F).masterCopy
      (SmartWalletFactory.getSmartWalletAddress E (c.state.factories F) F owner recoverer index)
      (salt E owner recoverer index)
      (.initializeWallet owner req.tokenContract msg.tx.origin req.tokenAmount req.tokenGas) c
      (exec (machine E O) depth static g msg c).conf
  provider : Hex.address (RelayProvider.calculateSmartWalletAddress web3 chainId factory ownerEOA
      recovererText index.toNat bytecodeHash) =
    some (SmartWalletFactory.getSmartWalletAddress E (c.state.factories F) F owner recoverer index)
  discovery : Hex.address (SmartWalletDiscovery.calculateSmartWalletAddress web3 ownerEOA
      recovererText index.toNat factory bytecodeHash chainId) =
    some (SmartWalletFactory.getSmartWalletAddress E (c.state.factories F) F owner recoverer index)
  recovered : ∀ (msg : Msg) owner' factory' swTemplate' destinationContract index' data,
    msg.self =
      SmartWalletFactory.getSmartWalletAddress E (c.state.factories F) F owner recoverer index →
    addressStrings E F (c.state.factories F).masterCopy (saltBytes owner recoverer index) ⊆ K →
    addressStrings E factory' swTemplate' (saltBytes owner' msg.sender index') ⊆ K →
    (recover E msg owner' factory' swTemplate' destinationContract index' data :
        Sol χ (Bool × Bytes)) =
      if msg.sender = recoverer ∧ owner' = owner ∧ factory' = F ∧
          swTemplate' = (c.state.factories F).masterCopy ∧ index' = index
      then Wallet.recoverCall E msg destinationContract data
      else .revert (.error "Invalid recoverer")

end SmartWallet

namespace CustomSmartWallet

/-- The string whose hash is the salt. -/
def saltBytes (owner recoverer logic : Address) (initParamsHash index : Word) : Bytes :=
  addressBytes owner ++ (addressBytes recoverer ++ (addressBytes logic ++
    (wordBytes initParamsHash ++ wordBytes index)))

theorem saltBytes_iff {owner owner' recoverer recoverer' logic logic' : Address}
    {initParamsHash initParamsHash' index index' : Word} :
    saltBytes owner' recoverer' logic' initParamsHash' index' =
        saltBytes owner recoverer logic initParamsHash index ↔
      owner' = owner ∧ recoverer' = recoverer ∧ logic' = logic ∧
        initParamsHash' = initParamsHash ∧ index' = index := by
  constructor
  · intro h
    obtain ⟨howner, hrest⟩ := addressBytes_append_inj h
    obtain ⟨hrecoverer, hrest⟩ := addressBytes_append_inj hrest
    obtain ⟨hlogic, hrest⟩ := addressBytes_append_inj hrest
    obtain ⟨hparams, hindex⟩ := wordBytes_append_inj hrest
    exact ⟨howner, hrecoverer, hlogic, hparams, wordBytes_inj hindex⟩
  · rintro ⟨rfl, rfl, rfl, rfl, rfl⟩
    rfl

/-- The same for wallets with a custom logic, whose address depends on the logic and on the
hash of its parameters too. The client may leave out the hash of empty parameters. -/
structure AddressesAgree (E : Env) (O : Outside E χ) (web3 : Web3Utils) (K : Set Bytes)
    (c : ChainConf χ) (F owner recoverer logic : Address) (initParams : Bytes) (index : Word)
    (chainId : Nat) (factory ownerEOA recovererText customLogic bytecodeHash : Text)
    (initParamsHash : Option Text) : Prop where
  created : ∀ creation depth static g msg ret sig,
    c.state.code F = some ⟨.customSmartWalletFactory, creation⟩ → msg.self = F →
    msg.codeAddress = F →
    msg.data = .createCustomUserSmartWallet owner recoverer logic index initParams sig →
    (exec (machine E O) depth static g msg c).value = .ok ret →
    Deploys E F (c.state.factories F).masterCopy
      (CustomSmartWalletFactory.getSmartWalletAddress E (c.state.factories F) F owner recoverer
        logic (E.keccak256 initParams) index)
      (salt E owner recoverer logic (E.keccak256 initParams) index)
      (.initializeCustomWallet owner logic 0 0 0 0 initParams) c
      (exec (machine E O) depth static g msg c).conf
  relayed : ∀ creation depth static g msg ret req domainSeparator suffixData sig,
    c.state.code F = some ⟨.customSmartWalletFactory, creation⟩ → msg.self = F →
    msg.codeAddress = F →
    msg.data = .relayedUserSmartWalletCreation req domainSeparator suffixData sig →
    req.from = owner → req.recoverer = recoverer → req.to = logic → req.data = initParams →
    req.index = index → (exec (machine E O) depth static g msg c).value = .ok ret →
    Deploys E F (c.state.factories F).masterCopy
      (CustomSmartWalletFactory.getSmartWalletAddress E (c.state.factories F) F owner recoverer
        logic (E.keccak256 initParams) index)
      (salt E owner recoverer logic (E.keccak256 initParams) index)
      (.initializeCustomWallet owner logic req.tokenContract msg.tx.origin req.tokenAmount
        req.tokenGas initParams) c
      (exec (machine E O) depth static g msg c).conf
  provider : Hex.address (RelayProvider.calculateCustomSmartWalletAddress web3 chainId factory
      ownerEOA recovererText customLogic index.toNat bytecodeHash initParamsHash) =
    some (CustomSmartWalletFactory.getSmartWalletAddress E (c.state.factories F) F owner recoverer
      logic (E.keccak256 initParams) index)
  discovery : Hex.address (SmartWalletDiscovery.calculateCustomSmartWalletAddress web3 ownerEOA
      recovererText customLogic initParamsHash index.toNat factory bytecodeHash chainId) =
    some (CustomSmartWalletFactory.getSmartWalletAddress E (c.state.factories F) F owner recoverer
      logic (E.keccak256 initParams) index)
  recovered : ∀ (msg : Msg) owner' factory' swTemplate' destinationContract logic' index'
      initParamsHash' data,
    msg.self = CustomSmartWalletFactory.getSmartWalletAddress E (c.state.factories F) F owner
      recoverer logic (E.keccak256 initParams) index →
    addressStrings E F (c.state.factories F).masterCopy
      (saltBytes owner recoverer logic (E.keccak256 initParams) index) ⊆ K →
    addressStrings E factory' swTemplate'
      (saltBytes owner' msg.sender logic' initParamsHash' index') ⊆ K →
    (recover E msg owner' factory' swTemplate' destinationContract logic' index' initParamsHash'
        data : Sol χ (Bool × Bytes)) =
      if msg.sender = recoverer ∧ owner' = owner ∧ factory' = F ∧
          swTemplate' = (c.state.factories F).masterCopy ∧ logic' = logic ∧ index' = index ∧
          initParamsHash' = E.keccak256 initParams
      then Wallet.recoverCall E msg destinationContract data
      else .revert (.error "Invalid recoverer")

end CustomSmartWallet

/-- A check of an address. -/
theorem require_bind {p q : Prop} [Decidable p] [Decidable q] (h : p ↔ q) {α : Type}
    (reason : String) (rest : Sol χ α) :
    (require p reason).bind (fun _ => rest) = if q then rest else .revert (.error reason) := by
  unfold require Prog.assert
  by_cases hq : q
  · rw [if_pos hq, if_pos (h.mpr hq)]
    rfl
  · rw [if_neg hq, if_neg fun hp => hq (h.mp hp)]
    rfl

section Main

variable {E : Env} {O : Outside E χ} {web3 : Web3Utils} {K : Set Bytes} {c : ChainConf χ}
  {F owner recoverer : Address} {factory ownerEOA recovererText bytecodeHash : Text}

theorem SmartWallet.addressesAgree (hweb3 : web3.Documented E.keccak256)
    (hK : Set.InjOn E.createdAddress K) (hzero : c.state.code 0 = none) (index : Word)
    (chainId : Nat) (hfactory : web3.Names factory F) (howner : web3.Names ownerEOA owner)
    (hrecoverer : web3.Names recovererText recoverer)
    (hcode : Hex.word bytecodeHash =
      some (E.keccak256 (Proxy.creationBytecode (c.state.factories F).masterCopy))) :
    SmartWallet.AddressesAgree E O web3 K c F owner recoverer index chainId factory ownerEOA
      recovererText bytecodeHash := by
  have hindex : packAll web3.isAddress [.uint256 index.toNat] = some (wordBytes index ++ []) :=
    packAll_cons (pack_uint256 index) rfl
  have hsalt := packAll_cons (pack_address howner) (packAll_cons (pack_address hrecoverer) hindex)
  rw [List.append_nil] at hsalt
  have hclient := calculateAddress_eq hweb3 hsalt (by
    intro h
    have hlength := congrArg List.length h
    simp at hlength) hfactory hcode chainId
  refine ⟨?_, ?_, hclient, hclient, ?_⟩
  · rintro creation depth static g msg ret sig hF rfl haddress hdata hok
    exact SmartWalletFactory.createUserSmartWallet_deploys hzero hF haddress hdata hok
  · rintro creation depth static g msg ret req domainSeparator suffixData sig hF rfl haddress hdata
      rfl rfl rfl hok
    exact SmartWalletFactory.relayedUserSmartWalletCreation_deploys hzero hF haddress hdata hok
  · intro msg owner' factory' swTemplate' destinationContract index' data hself hown hcall
    refine require_bind ?_ "Invalid recoverer" _
    rw [hself]
    refine (proxyAddress_iff hK hown hcall).trans ?_
    rw [SmartWallet.saltBytes_iff]
    constructor
    · rintro ⟨hf, ht, ho, hr, hi⟩
      exact ⟨hr, ho, hf, ht, hi⟩
    · rintro ⟨hr, ho, hf, ht, hi⟩
      exact ⟨hf, ht, ho, hr, hi⟩

theorem CustomSmartWallet.addressesAgree {logic : Address} {customLogic : Text}
    (hweb3 : web3.Documented E.keccak256) (hK : Set.InjOn E.createdAddress K)
    (hzero : c.state.code 0 = none) (initParams : Bytes) (index : Word) (chainId : Nat)
    (hfactory : web3.Names factory F) (howner : web3.Names ownerEOA owner)
    (hrecoverer : web3.Names recovererText recoverer) (hlogic : web3.Names customLogic logic)
    (hcode : Hex.word bytecodeHash =
      some (E.keccak256 (Proxy.creationBytecode (c.state.factories F).masterCopy)))
    {initParamsHash : Option Text}
    (hparams : Hex.word (initParamsHash.getD Constants.SHA3_NULL_S) =
      some (E.keccak256 initParams)) :
    CustomSmartWallet.AddressesAgree E O web3 K c F owner recoverer logic initParams index chainId
      factory ownerEOA recovererText customLogic bytecodeHash initParamsHash := by
  have hindex : packAll web3.isAddress [.uint256 index.toNat] = some (wordBytes index ++ []) :=
    packAll_cons (pack_uint256 index) rfl
  have hsalt := packAll_cons (pack_address howner) (packAll_cons (pack_address hrecoverer)
    (packAll_cons (pack_address hlogic) (packAll_cons (pack_bytes32 hparams) hindex)))
  rw [List.append_nil] at hsalt
  have hclient := calculateAddress_eq hweb3 hsalt (by
    intro h
    have hlength := congrArg List.length h
    simp at hlength) hfactory hcode chainId
  refine ⟨?_, ?_, hclient, hclient, ?_⟩
  · rintro creation depth static g msg ret sig hF rfl haddress hdata hok
    exact CustomSmartWalletFactory.createUserSmartWallet_deploys hzero hF haddress hdata hok
  · rintro creation depth static g msg ret req domainSeparator suffixData sig hF rfl haddress hdata
      rfl rfl rfl rfl rfl hok
    exact CustomSmartWalletFactory.relayedUserSmartWalletCreation_deploys hzero hF haddress hdata
      hok
  · intro msg owner' factory' swTemplate' destinationContract logic' index' initParamsHash' data
      hself hown hcall
    refine require_bind ?_ "Invalid recoverer" _
    rw [hself]
    refine (proxyAddress_iff hK hown hcall).trans ?_
    rw [CustomSmartWallet.saltBytes_iff]
    constructor
    · rintro ⟨hf, ht, ho, hr, hl, hp, hi⟩
      exact ⟨hr, ho, hf, ht, hl, hi, hp⟩
    · rintro ⟨hr, ho, hf, ht, hl, hi, hp⟩
      exact ⟨hf, ht, ho, hr, hl, hp, hi⟩

/-- **All address computations agree.** At every point of every run, for a factory of either
kind: its two ways to create a wallet, `getSmartWalletAddress`, both functions of the client
and the check in `recover` compute one address for the same parameters. -/
theorem addresses_agree {w₀ : World χ} {b : Word} {point : Option Msg}
    (hcodeless : ∀ a, E.codeless a = true → w₀.code a = none) (hc : Point E O w₀ b point c)
    (hweb3 : web3.Documented E.keccak256) (hnull : E.keccak256 [] = Constants.SHA3_NULL)
    (hK : Set.InjOn E.createdAddress K) (index : Word) (chainId : Nat)
    (howner : web3.Names ownerEOA owner) (hrecoverer : web3.Names recovererText recoverer)
    (hfactory : web3.Names factory F)
    (hcode : Hex.word bytecodeHash =
      some (E.keccak256 (Proxy.creationBytecode (c.state.factories F).masterCopy)))
    {F' logic : Address} {factory' customLogic bytecodeHash' : Text} (initParams : Bytes)
    {initParamsHash : Option Text} (hfactory' : web3.Names factory' F')
    (hcode' : Hex.word bytecodeHash' =
      some (E.keccak256 (Proxy.creationBytecode (c.state.factories F').masterCopy)))
    (hlogic : web3.Names customLogic logic)
    (hparams : (∃ t, initParamsHash = some t ∧ Hex.word t = some (E.keccak256 initParams)) ∨
      (initParamsHash = none ∧ initParams = [])) :
    SmartWallet.AddressesAgree E O web3 K c F owner recoverer index chainId factory ownerEOA
        recovererText bytecodeHash ∧
      CustomSmartWallet.AddressesAgree E O web3 K c F' owner recoverer logic initParams index
        chainId factory' ownerEOA recovererText customLogic bytecodeHash' initParamsHash := by
  have hzero := hc.codeless hcodeless 0 E.codeless_zero
  refine ⟨SmartWallet.addressesAgree hweb3 hK hzero index chainId hfactory howner hrecoverer hcode,
    CustomSmartWallet.addressesAgree hweb3 hK hzero initParams index chainId hfactory' howner
      hrecoverer hlogic hcode' ?_⟩
  rcases hparams with ⟨t, rfl, ht⟩ | ⟨rfl, rfl⟩
  · exact ht
  · rw [hnull]
    decide +kernel

end Main

/-! A chain with a factory of each kind, and the hashes for a wallet of each. -/

def addressSalt : Word := 0x5ad5bbf66bd42e1c9cb7587944bb2b8681e71d347c1d91fac04b8d35e6e96b6d

def addressCode : Word := 0xe6127f803aa661397c0713b850388eb0a90906323219a0cc8e6bd3ae5566664b

def customSalt : Word := 0xbd122f74a2511acb91e14456dbb12b86c4571f44d71d9d0acdddc45c8908a0bb

def customCode : Word := 0x843978ab9827cd940b6ee719b737f9c20cd3a849daf52e07ac8ccc2363c05417

def addressHashes : List (Bytes × Word) :=
  [(SmartWallet.saltBytes 0x0a 0x0b 7, addressSalt),
    (Proxy.creationBytecode 0xc0, addressCode),
    (Proxy.create2String 0xfa addressSalt addressCode,
      0xa7d59b7ed0df1d59e05b4ccc54973d8681def89414c1a005363c56c58684b506),
    (CustomSmartWallet.saltBytes 0x0a 0x0b 0x0d Constants.SHA3_NULL 7, customSalt),
    (Proxy.creationBytecode 0xc1, customCode),
    (Proxy.create2String 0xfb customSalt customCode,
      0x6618c4dacc7b0caf62d061ec4b7a1ec367973877e6da8340de69720811e3b274),
    ([], Constants.SHA3_NULL),
    (textBytes "54973d8681def89414c1a005363c56c58684b506",
      0x5f9c63b7b2d640345813b3fc23993696a0db81b1a488b6c451629a97cca0db08),
    (textBytes "4b7a1ec367973877e6da8340de69720811e3b274",
      0x34a69807889201b840b0807647cb6099cfa038c4f3aa1e72ef83b009ec8e01d7)]

def addressEnv : Env := Env.ofKeys (hashTable addressHashes) (fun _ _ => .error "") .other [0x0a]

def addressCodes (a : Address) : Option Contract :=
  if a = 0xfa then some ⟨.smartWalletFactory, []⟩
  else if a = 0xfb then some ⟨.customSmartWalletFactory, []⟩
  else if a = 0xc0 then some ⟨.smartWallet, []⟩
  else if a = 0xc1 then some ⟨.customSmartWallet, []⟩
  else none

def addressWorld : World Unit :=
  { World.ofContracts 0x0a 0 addressCodes with
    factories := fun a => if a = 0xfa then ⟨0xc0, fun _ => 0⟩ else ⟨0xc1, fun _ => 0⟩ }

def addressWeb3 : Web3Utils := Web3Utils.ofKeccak addressEnv.keccak256

def addressText (a : Address) : Text := Hex.text (addressBytes a)

/-- The strings of the two wallets. -/
def addressStringList : List Bytes :=
  [SmartWallet.saltBytes 0x0a 0x0b 7, Proxy.creationBytecode 0xc0,
    Proxy.create2String 0xfa addressSalt addressCode,
    CustomSmartWallet.saltBytes 0x0a 0x0b 0x0d Constants.SHA3_NULL 7, Proxy.creationBytecode 0xc1,
    Proxy.create2String 0xfb customSalt customCode]

theorem addressText_names (a : Address) (h : addressWeb3.isAddress (addressText a) = true) :
    addressWeb3.Names (addressText a) a :=
  ⟨h, Hex.address_text a⟩

/-- For the two wallets the texts that the client computes give the addresses of the
factories. -/
theorem addresses_agree_custom :
    SmartWallet.AddressesAgree addressEnv (Outside.silent addressEnv) addressWeb3
        {b | b ∈ addressStringList} (Conf.start addressWorld) 0xfa 0x0a 0x0b 7 33
        (addressText 0xfa) (addressText 0x0a) (addressText 0x0b)
        (Hex.text (wordBytes addressCode)) ∧
      CustomSmartWallet.AddressesAgree addressEnv (Outside.silent addressEnv) addressWeb3
        {b | b ∈ addressStringList} (Conf.start addressWorld) 0xfb 0x0a 0x0b 0x0d [] 7 33
        (addressText 0xfb) (addressText 0x0a) (addressText 0x0b) (addressText 0x0d)
        (Hex.text (wordBytes customCode)) none := by
  have hcodeless : ∀ a ∈ [0, 0x0a], addressCodes a = none := by simp [addressCodes]
  have hcode : Hex.word (Hex.text (wordBytes addressCode)) =
      some (addressEnv.keccak256 (Proxy.creationBytecode
        ((Conf.start addressWorld : ChainConf Unit).state.factories 0xfa).masterCopy)) := by
    rw [Hex.word_text]
    decide +kernel
  have hcustom : Hex.word (Hex.text (wordBytes customCode)) =
      some (addressEnv.keccak256 (Proxy.creationBytecode
        ((Conf.start addressWorld : ChainConf Unit).state.factories 0xfb).masterCopy)) := by
    rw [Hex.word_text]
    decide +kernel
  exact addresses_agree (World.codeless_ofKeys hcodeless) (Point.settled (.start 0))
    (Web3Utils.ofKeccak_documented _) (by decide +kernel)
    (injOn_list addressStringList (fun _ h => h) (by decide +kernel)) 7 33
    (addressText_names 0x0a (by decide +kernel)) (addressText_names 0x0b (by decide +kernel))
    (addressText_names 0xfa (by decide +kernel)) hcode []
    (addressText_names 0xfb (by decide +kernel)) hcustom
    (addressText_names 0x0d (by decide +kernel)) (Or.inr ⟨rfl, rfl⟩)

example : RelayProvider.calculateSmartWalletAddress addressWeb3 33 (addressText 0xfa)
    (addressText 0x0a) (addressText 0x0b) 7 (Hex.text (wordBytes addressCode)) =
      "0x54973d8681Def89414c1A005363C56C58684B506".toList := by
  decide +kernel

end RifRelay
