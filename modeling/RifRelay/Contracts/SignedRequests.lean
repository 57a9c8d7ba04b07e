import RifRelay.Common.TypedRequestData
import RifRelay.Contracts.CustomSmartWalletFactory
import RifRelay.Contracts.WalletAuthenticity

set_option autoImplicit false

/-! # One digest on both sides

The client signs typed data; the hub's library hashes the relay data and passes the hash on,
and the wallet or the factory puts the signed string together from the fields it gets. The
two ways lead to the same string (`typedRequestData_signedString`,
`typedDeployRequestData_signedString`), so wallets and factories accept just the signatures
over the client's digest (`typed_data_checked`), and a digest stands for one request, of one
kind, on one chain, for one contract (`digest_eq_iff`).
-/

namespace RifRelay

open CallMachine TypedData TypedRequestData EnvelopingTypes

/-! ## The types, written out -/

/-- The types of the two kinds of typed data, which do not depend on the request. -/
def relayTypes : Types :=
  [("EIP712Domain", EIP712DomainType), ("RelayRequest", RelayRequestType),
    ("RelayData", RelayDataType)]

def deployTypes : Types :=
  [("EIP712Domain", EIP712DomainType), ("RelayRequest", DeployRequestType),
    ("RelayData", RelayDataType)]

/-- The type that `getDomainSeparatorHash` is given. -/
def domainTypes : Types := [("EIP712Domain", EIP712DomainType)]

/-- The texts of the types, all evaluated at once. -/
theorem encodeTypes :
    (encodeType relayTypes "RelayRequest" = some Wallet.REQUEST_TYPE ∧
      encodeType deployTypes "RelayRequest" = some Factory.REQUEST_TYPE ∧
      Wallet.REQUEST_TYPE ≠ Factory.REQUEST_TYPE) ∧
    (∀ types ∈ [relayTypes, deployTypes],
      encodeType types "RelayData" = some Eip712Library.RELAYDATA_TYPE) ∧
    ∀ types ∈ [relayTypes, deployTypes, domainTypes],
      encodeType types "EIP712Domain" = some Eip712.DOMAIN_TYPE := by
  decide +kernel

theorem encodeType_relayRequest :
    encodeType relayTypes "RelayRequest" = some Wallet.REQUEST_TYPE := encodeTypes.1.1

theorem encodeType_deployRequest :
    encodeType deployTypes "RelayRequest" = some Factory.REQUEST_TYPE := encodeTypes.1.2.1

theorem requestTypes_differ : Wallet.REQUEST_TYPE ≠ Factory.REQUEST_TYPE := encodeTypes.1.2.2

theorem encodeType_relayData {types : Types} (h : types = relayTypes ∨ types = deployTypes) :
    encodeType types "RelayData" = some Eip712Library.RELAYDATA_TYPE :=
  encodeTypes.2.1 types (by simpa using h)

theorem encodeType_domain {types : Types}
    (h : types = relayTypes ∨ types = deployTypes ∨ types = domainTypes) :
    encodeType types "EIP712Domain" = some Eip712.DOMAIN_TYPE :=
  encodeTypes.2.2 types (by simpa using h)

/-! ## The structs, encoded -/

section Encoded

variable (E : Env)

theorem encodeData_domain {types : Types}
    (h : types = relayTypes ∨ types = deployTypes ∨ types = domainTypes) (depth : Nat)
    (chainId : Word) (verifier : Address) :
    encodeData E.keccak256 types (depth + 1) "EIP712Domain" (getDomainSeparator verifier chainId) =
      some (Eip712.encodeDomain E chainId verifier) := by
  rw [encodeData_eq_some]
  refine ⟨EIP712DomainType, Eip712.DOMAIN_TYPE, [E.keccak256 (textBytes Eip712.DOMAIN_NAME),
    E.keccak256 (textBytes Eip712.DATA_VERSION), chainId, addressWord verifier], ?_,
    encodeType_domain h, ?_, ?_⟩
  · rcases h with rfl | rfl | rfl <;> rfl
  · rcases h with rfl | rfl | rfl <;> rfl
  · simp [Eip712.encodeDomain]

theorem encodeData_relayData {types : Types} (h : types = relayTypes ∨ types = deployTypes)
    (depth : Nat) (relayData : RelayData) :
    encodeData E.keccak256 types (depth + 1) "RelayData" (relayDataObject relayData) =
      some (Eip712Library.encodeRelayData E relayData) := by
  rw [encodeData_eq_some]
  refine ⟨RelayDataType, Eip712Library.RELAYDATA_TYPE, [relayData.gasPrice,
    relayData.domainSeparator, addressWord relayData.relayWorker,
    addressWord relayData.callForwarder, addressWord relayData.callVerifier], ?_,
    encodeType_relayData h, ?_, ?_⟩
  · rcases h with rfl | rfl <;> rfl
  · rcases h with rfl | rfl <;> rfl
  · simp [Eip712Library.encodeRelayData]

/-- A member that is a struct stands in its own by its hash. -/
theorem encodeMember_relayData {types : Types} (h : types = relayTypes ∨ types = deployTypes)
    (depth : Nat) (relayData : RelayData) :
    encodeMember E.keccak256 types (encodeData E.keccak256 types (depth + 1)) "RelayData"
        (.struct (relayDataObject relayData)) =
      some (Eip712Library.hashRelayData E relayData) := by
  have htype : (types.lookup "RelayData").isSome := by
    rcases h with rfl | rfl <;> rfl
  rw [encodeMember, if_pos htype, encodeData_relayData E h, Option.map_some]
  rfl

theorem encodeData_relayRequest (depth : Nat) (req : IForwarder.ForwardRequest)
    (relayData : RelayData) :
    encodeData E.keccak256 relayTypes (depth + 2) "RelayRequest"
        (flattened (forwardRequestObject req) relayData) =
      some (Wallet.getEncoded E (Eip712Library.hashRelayData E relayData) req) := by
  rw [encodeData_eq_some]
  refine ⟨RelayRequestType, Wallet.REQUEST_TYPE, [addressWord req.relayHub, addressWord req.from,
    addressWord req.to, addressWord req.tokenContract, req.value, req.gas, req.nonce,
    req.tokenAmount, req.tokenGas, E.keccak256 req.data, Eip712Library.hashRelayData E relayData],
    rfl, encodeType_relayRequest, ?_, ?_⟩
  · rw [mapM_eq_some_iff]
    refine .cons rfl (.cons rfl (.cons rfl (.cons rfl (.cons rfl (.cons rfl (.cons rfl (.cons rfl
      (.cons rfl (.cons rfl (.cons ?_ .nil))))))))))
    exact encodeMember_relayData E (Or.inl rfl) depth relayData
  · simp [Wallet.getEncoded]

theorem encodeData_deployRequest (depth : Nat) (req : IForwarder.DeployRequest)
    (relayData : RelayData) :
    encodeData E.keccak256 deployTypes (depth + 2) "RelayRequest"
        (flattened (deployRequestObject req) relayData) =
      some (Factory.getEncoded E req (Eip712Library.hashRelayData E relayData)) := by
  rw [encodeData_eq_some]
  refine ⟨DeployRequestType, Factory.REQUEST_TYPE, [addressWord req.relayHub,
    addressWord req.from, addressWord req.to, addressWord req.tokenContract,
    addressWord req.recoverer, req.value, req.nonce, req.tokenAmount, req.tokenGas, req.index,
    E.keccak256 req.data, Eip712Library.hashRelayData E relayData],
    rfl, encodeType_deployRequest, ?_, ?_⟩
  · rw [mapM_eq_some_iff]
    refine .cons rfl (.cons rfl (.cons rfl (.cons rfl (.cons rfl (.cons rfl (.cons rfl (.cons rfl
      (.cons rfl (.cons rfl (.cons rfl (.cons ?_ .nil)))))))))))
    exact encodeMember_relayData E (Or.inr rfl) depth relayData
  · simp [Factory.getEncoded]

/-- The domain separator that the client puts into a request is the one the contract
computes. -/
theorem getDomainSeparatorHash_eq (verifier : Address) (chainId : Word) :
    getDomainSeparatorHash E.keccak256 verifier chainId =
      some (E.keccak256 (Eip712.encodeDomain E chainId verifier)) :=
  congrArg (Option.map E.keccak256)
    (encodeData_domain E (Or.inr (Or.inr rfl)) 0 chainId verifier)

/-! ## The signed strings -/

/-- The string that the client signs for a relay request is put together on chain from the
relay data that the library hashes and the fields that the wallet hashes. -/
theorem typedRequestData_signedString (chainId : Word) (verifier : Address)
    (relayRequest : RelayRequest) :
    (typedRequestData chainId verifier relayRequest).signedString E.keccak256 =
      some (Eip712.signedBytes E (E.keccak256 (Eip712.encodeDomain E chainId verifier))
        (Wallet.getEncoded E (Eip712Library.hashRelayData E relayRequest.relayData)
          relayRequest.request)) :=
  TypedMessage.signedString_eq_some.mpr ⟨_, _, encodeData_domain E (Or.inl rfl) 2 chainId verifier,
    encodeData_relayRequest E 1 relayRequest.request relayRequest.relayData, rfl⟩

/-- The same for a deploy request, which the factory hashes. -/
theorem typedDeployRequestData_signedString (chainId : Word) (verifier : Address)
    (deployRequest : DeployRequest) :
    (typedDeployRequestData chainId verifier deployRequest).signedString E.keccak256 =
      some (Eip712.signedBytes E (E.keccak256 (Eip712.encodeDomain E chainId verifier))
        (Factory.getEncoded E deployRequest.request
          (Eip712Library.hashRelayData E deployRequest.relayData))) :=
  TypedMessage.signedString_eq_some.mpr ⟨_, _,
    encodeData_domain E (Or.inr (Or.inl rfl)) 2 chainId verifier,
    encodeData_deployRequest E 1 deployRequest.request deployRequest.relayData, rfl⟩

end Encoded

/-! ## What the contracts accept -/

section Accepts

variable {χ : Type} {E : Env} {O : Outside E χ} {callee : Callee (World χ) Msg Revert Bytes}
  {static : Bool} {g : Nat} {c : ChainConf χ}

/-- `sig` is the client's signature for this typed data by the key of `signer`. -/
def SignedBy (E : Env) (m : TypedMessage) (sig : Bytes) (signer : Address) : Prop :=
  ∃ digest, m.digest E.keccak256 = some digest ∧ E.recover digest sig = .ok signer ∧
    RSKAddrValidator.checkPKNotZero signer = true

/-- `Eip712.Signs`, said of typed data. -/
theorem signs_iff {m : TypedMessage} {verifier signer : Address} {domainSeparator : Word}
    {encoded sig : Bytes}
    (hm : m.signedString E.keccak256 = some (Eip712.signedBytes E
      (E.keccak256 (Eip712.encodeDomain E E.chainId verifier)) encoded)) :
    Eip712.Signs E verifier domainSeparator encoded sig signer ↔
      getDomainSeparatorHash E.keccak256 verifier E.chainId = some domainSeparator ∧
        SignedBy E m sig signer := by
  rw [getDomainSeparatorHash_eq, Option.some.injEq]
  constructor
  · rintro ⟨hdomain, hrecovered, hkey⟩
    refine ⟨hdomain, _, congrArg (Option.map E.keccak256) hm, ?_, hkey⟩
    rw [hdomain]
    exact hrecovered
  · rintro ⟨hdomain, digest, hdigest, hrecovered, hkey⟩
    refine ⟨hdomain, ?_, hkey⟩
    have heq : some (E.keccak256 _) = some digest :=
      (congrArg (Option.map E.keccak256) hm).symm.trans hdigest
    rw [← hdomain, Option.some.inj heq]
    exact hrecovered

theorem run_require_iff {p : Prop} [Decidable p] {reason : String} :
    (run (machine E O) callee static (require p reason : Sol χ Unit) g c).value = .ok () ↔ p := by
  unfold require Prog.assert
  by_cases hp : p
  · rw [if_pos hp]
    exact ⟨fun _ => hp, fun _ => rfl⟩
  · rw [if_neg hp]
    refine iff_of_false ?_ hp
    intro h
    cases h

theorem run_require_bind_iff {α : Type} {p : Prop} [Decidable p] {reason : String}
    {f : Unit → Sol χ α} {a : α} :
    (run (machine E O) callee static ((require p reason).bind f) g c).value = .ok a ↔
      p ∧ (run (machine E O) callee static (f ()) g c).value = .ok a := by
  unfold require Prog.assert
  by_cases hp : p
  · rw [if_pos hp]
    exact ⟨fun h => ⟨hp, h⟩, fun h => h.2⟩
  · rw [if_neg hp]
    refine iff_of_false ?_ fun h => hp h.1
    intro h
    cases h

/-- The checks of the domain and of the signature pass just for a signature. -/
theorem run_checkSignature_iff {msg : Msg} {domainSeparator : Word} {encoded sig : Bytes}
    {signer : Address} :
    (run (machine E O) callee static
      (Eip712.checkSignature E msg domainSeparator encoded sig signer : Sol χ Unit) g c).value =
        .ok () ↔ Eip712.Signs E msg.self domainSeparator encoded sig signer := by
  unfold Eip712.checkSignature recoverSigner
  rw [Prog.bind_eq, run_require_bind_iff]
  cases hrecover : E.recover (E.keccak256 (Eip712.signedBytes E domainSeparator encoded)) sig with
  | error reason =>
      refine iff_of_false ?_ ?_
      · rintro ⟨-, h⟩
        cases h
      · rintro ⟨-, h, -⟩
        rw [hrecover] at h
        cases h
  | ok signer' =>
      simp only [Prog.bind_eq, Prog.ret_bind]
      rw [run_require_iff, RSKAddrValidator.safeEquals_iff]
      constructor
      · rintro ⟨hdomain, rfl, hne, hzero⟩
        refine ⟨hdomain, hrecover, ?_⟩
        simp only [RSKAddrValidator.checkPKNotZero, Bool.and_eq_true, bne_iff_ne, ne_eq]
        exact ⟨hne, hzero⟩
      · rintro ⟨hdomain, h, hkey⟩
        obtain rfl : signer' = signer := Except.ok.inj (hrecover.symm.trans h)
        simp only [RSKAddrValidator.checkPKNotZero, Bool.and_eq_true, bne_iff_ne, ne_eq] at hkey
        exact ⟨hdomain, rfl, hkey⟩

/-- The storage is read first, and that has its cost. -/
theorem run_read_iff {σ α : Type} {read : World χ → σ} {f : σ → Sol χ α} {a : α} :
    (run (machine E O) callee static ((Prog.get.bind fun w => .ret (read w)).bind f) g c).value =
        .ok a ↔
      O.cost c.state g ≤ g ∧ (run (machine E O) callee static (f (read c.state))
        (g - O.cost c.state g) c).value = .ok a := by
  show (run (machine E O) callee static (.read fun w => f (read w)) g c).value = .ok a ↔ _
  rw [run]
  by_cases hcost : g < O.cost c.state g
  · rw [if_pos (show g < (machine E O).cost c.state g from hcost)]
    refine iff_of_false ?_ fun h => absurd h.1 (Nat.not_le.mpr hcost)
    intro h
    cases h
  · rw [if_neg (show ¬ g < (machine E O).cost c.state g from hcost)]
    exact ⟨fun h => ⟨Nat.not_lt.mp hcost, h⟩, fun h => h.2⟩

/-- What a wallet accepts. With the arguments that the library passes for a request, both
wallets accept a signature just if the owner's key made it over the typed data that the client
builds for the request, the chain and this wallet, the domain separator in the request is the
client's for this wallet, and the nonce is the next one. -/
theorem wallet_accepts_iff (msg : Msg) (relayRequest : RelayRequest) (sig : Bytes) :
    (run (machine E O) callee static (Wallet.verifySig E msg relayRequest.relayData.domainSeparator
      (Eip712Library.hashRelayData E relayRequest.relayData) relayRequest.request sig) g c).value =
        .ok () ↔
      O.cost c.state g ≤ g ∧
      (c.state.wallets msg.self).owner = Wallet.ownerCell E relayRequest.request.from ∧
      (c.state.wallets msg.self).nonce = relayRequest.request.nonce ∧
      getDomainSeparatorHash E.keccak256 msg.self E.chainId =
        some relayRequest.relayData.domainSeparator ∧
      SignedBy E (typedRequestData E.chainId msg.self relayRequest) sig
        relayRequest.request.from := by
  unfold Wallet.verifySig Wallet.storage
  rw [Prog.bind_eq, run_read_iff, Prog.bind_eq, run_require_bind_iff, Prog.bind_eq,
    run_require_bind_iff, run_checkSignature_iff,
    signs_iff (typedRequestData_signedString E E.chainId msg.self relayRequest)]

/-- What a factory accepts: the signatures over the client's typed data for a deploy request. -/
theorem factory_accepts_iff (msg : Msg) (deployRequest : DeployRequest) (sig : Bytes) :
    (run (machine E O) callee static (Factory.verifySig E msg deployRequest.request
      deployRequest.relayData.domainSeparator
      (Eip712Library.hashRelayData E deployRequest.relayData) sig) g c).value = .ok () ↔
      O.cost c.state g ≤ g ∧
      (c.state.factories msg.self).nonces deployRequest.request.from =
        deployRequest.request.nonce ∧
      getDomainSeparatorHash E.keccak256 msg.self E.chainId =
        some deployRequest.relayData.domainSeparator ∧
      SignedBy E (typedDeployRequestData E.chainId msg.self deployRequest) sig
        deployRequest.request.from := by
  unfold Factory.verifySig Factory.storage
  rw [Prog.bind_eq, run_read_iff, Prog.bind_eq, run_require_bind_iff, run_checkSignature_iff,
    signs_iff (typedDeployRequestData_signedString E E.chainId msg.self deployRequest)]

/-- **What is signed is what is checked.** With the arguments that the library passes on, the
wallets accept just the signatures over the client's typed data for a relay request, and the
factories those for a deploy request. -/
theorem typed_data_checked (msg : Msg) (sig : Bytes) :
    (∀ relayRequest : RelayRequest,
      (run (machine E O) callee static (Wallet.verifySig E msg
        relayRequest.relayData.domainSeparator
        (Eip712Library.hashRelayData E relayRequest.relayData) relayRequest.request sig)
        g c).value =
          .ok () ↔
        O.cost c.state g ≤ g ∧
        (c.state.wallets msg.self).owner = Wallet.ownerCell E relayRequest.request.from ∧
        (c.state.wallets msg.self).nonce = relayRequest.request.nonce ∧
        getDomainSeparatorHash E.keccak256 msg.self E.chainId =
          some relayRequest.relayData.domainSeparator ∧
        SignedBy E (typedRequestData E.chainId msg.self relayRequest) sig
          relayRequest.request.from) ∧
    (∀ deployRequest : DeployRequest,
      (run (machine E O) callee static (Factory.verifySig E msg deployRequest.request
        deployRequest.relayData.domainSeparator
        (Eip712Library.hashRelayData E deployRequest.relayData) sig) g c).value = .ok () ↔
        O.cost c.state g ≤ g ∧
        (c.state.factories msg.self).nonces deployRequest.request.from =
          deployRequest.request.nonce ∧
        getDomainSeparatorHash E.keccak256 msg.self E.chainId =
          some deployRequest.relayData.domainSeparator ∧
        SignedBy E (typedDeployRequestData E.chainId msg.self deployRequest) sig
          deployRequest.request.from) :=
  ⟨fun relayRequest => wallet_accepts_iff msg relayRequest sig,
    fun deployRequest => factory_accepts_iff msg deployRequest sig⟩

end Accepts

/-! ## One digest, one request -/

/-- What the client can sign. -/
inductive ClientRequest
  | relay (relayRequest : RelayRequest)
  | deploy (deployRequest : DeployRequest)
deriving DecidableEq

def ClientRequest.typed (chainId : Word) (verifier : Address) : ClientRequest → TypedMessage
  | .relay relayRequest => typedRequestData chainId verifier relayRequest
  | .deploy deployRequest => typedDeployRequestData chainId verifier deployRequest

section Separation

variable {types : Types} {depth : Nat}

theorem domain_of_agree {chainId chainId' : Word} {verifier verifier' : Address}
    (htypes : types.lookup "EIP712Domain" = some EIP712DomainType)
    (h : Agree types (depth + 1) "EIP712Domain" (getDomainSeparator verifier chainId)
      (getDomainSeparator verifier' chainId')) :
    chainId = chainId' ∧ verifier = verifier' := by
  have hchain := h.lookup (m := ⟨"chainId", "uint256"⟩) htypes (by decide) rfl rfl
  have hverifier := h.lookup (m := ⟨"verifyingContract", "address"⟩) htypes (by decide) rfl rfl
  exact ⟨sameValue_word.mp hchain, sameValue_address.mp hverifier⟩

theorem relayData_of_agree {relayData relayData' : RelayData}
    (htypes : types.lookup "RelayData" = some RelayDataType)
    (h : Agree types (depth + 1) "RelayData" (relayDataObject relayData)
      (relayDataObject relayData')) : relayData = relayData' := by
  have hprice := h.lookup (m := ⟨"gasPrice", "uint256"⟩) htypes (by decide) rfl rfl
  have hdomain := h.lookup (m := ⟨"domainSeparator", "bytes32"⟩) htypes (by decide) rfl rfl
  have hworker := h.lookup (m := ⟨"relayWorker", "address"⟩) htypes (by decide) rfl rfl
  have hforwarder := h.lookup (m := ⟨"callForwarder", "address"⟩) htypes (by decide) rfl rfl
  have hverifier := h.lookup (m := ⟨"callVerifier", "address"⟩) htypes (by decide) rfl rfl
  rw [sameValue_word] at hprice hdomain
  rw [sameValue_address] at hworker hforwarder hverifier
  cases relayData
  cases relayData'
  exact RelayData.mk.injEq .. ▸ ⟨hprice, hdomain, hworker, hforwarder, hverifier⟩

theorem relayRequest_of_agree {rr rr' : RelayRequest}
    (h : Agree relayTypes (depth + 2) "RelayRequest"
      (flattened (forwardRequestObject rr.request) rr.relayData)
      (flattened (forwardRequestObject rr'.request) rr'.relayData)) : rr = rr' := by
  have hhub := h.lookup (m := ⟨"relayHub", "address"⟩) rfl (by decide) rfl rfl
  have hfrom := h.lookup (m := ⟨"from", "address"⟩) rfl (by decide) rfl rfl
  have hto := h.lookup (m := ⟨"to", "address"⟩) rfl (by decide) rfl rfl
  have htoken := h.lookup (m := ⟨"tokenContract", "address"⟩) rfl (by decide) rfl rfl
  have hvalue := h.lookup (m := ⟨"value", "uint256"⟩) rfl (by decide) rfl rfl
  have hgas := h.lookup (m := ⟨"gas", "uint256"⟩) rfl (by decide) rfl rfl
  have hnonce := h.lookup (m := ⟨"nonce", "uint256"⟩) rfl (by decide) rfl rfl
  have hamount := h.lookup (m := ⟨"tokenAmount", "uint256"⟩) rfl (by decide) rfl rfl
  have htokenGas := h.lookup (m := ⟨"tokenGas", "uint256"⟩) rfl (by decide) rfl rfl
  have hdata := h.lookup (m := ⟨"data", "bytes"⟩) rfl (by decide) rfl rfl
  have hrelayData := h.lookup (m := ⟨"relayData", "RelayData"⟩) rfl (by decide) rfl rfl
  rw [sameValue_address] at hhub hfrom hto htoken
  rw [sameValue_word] at hvalue hgas hnonce hamount htokenGas
  rw [sameValue_bytes] at hdata
  rw [sameValue_struct] at hrelayData
  obtain ⟨req, relayData⟩ := rr
  obtain ⟨req', relayData'⟩ := rr'
  cases req
  cases req'
  refine RelayRequest.mk.injEq .. ▸ ⟨?_, relayData_of_agree rfl hrelayData⟩
  exact IForwarder.ForwardRequest.mk.injEq .. ▸
    ⟨hhub, hfrom, hto, htoken, hvalue, hgas, hnonce, hamount, htokenGas, hdata⟩

theorem deployRequest_of_agree {dr dr' : DeployRequest}
    (h : Agree deployTypes (depth + 2) "RelayRequest"
      (flattened (deployRequestObject dr.request) dr.relayData)
      (flattened (deployRequestObject dr'.request) dr'.relayData)) : dr = dr' := by
  have hhub := h.lookup (m := ⟨"relayHub", "address"⟩) rfl (by decide) rfl rfl
  have hfrom := h.lookup (m := ⟨"from", "address"⟩) rfl (by decide) rfl rfl
  have hto := h.lookup (m := ⟨"to", "address"⟩) rfl (by decide) rfl rfl
  have htoken := h.lookup (m := ⟨"tokenContract", "address"⟩) rfl (by decide) rfl rfl
  have hrecoverer := h.lookup (m := ⟨"recoverer", "address"⟩) rfl (by decide) rfl rfl
  have hvalue := h.lookup (m := ⟨"value", "uint256"⟩) rfl (by decide) rfl rfl
  have hnonce := h.lookup (m := ⟨"nonce", "uint256"⟩) rfl (by decide) rfl rfl
  have hamount := h.lookup (m := ⟨"tokenAmount", "uint256"⟩) rfl (by decide) rfl rfl
  have htokenGas := h.lookup (m := ⟨"tokenGas", "uint256"⟩) rfl (by decide) rfl rfl
  have hindex := h.lookup (m := ⟨"index", "uint256"⟩) rfl (by decide) rfl rfl
  have hdata := h.lookup (m := ⟨"data", "bytes"⟩) rfl (by decide) rfl rfl
  have hrelayData := h.lookup (m := ⟨"relayData", "RelayData"⟩) rfl (by decide) rfl rfl
  rw [sameValue_address] at hhub hfrom hto htoken hrecoverer
  rw [sameValue_word] at hvalue hnonce hamount htokenGas hindex
  rw [sameValue_bytes] at hdata
  rw [sameValue_struct] at hrelayData
  obtain ⟨req, relayData⟩ := dr
  obtain ⟨req', relayData'⟩ := dr'
  cases req
  cases req'
  refine DeployRequest.mk.injEq .. ▸ ⟨?_, relayData_of_agree rfl hrelayData⟩
  exact IForwarder.DeployRequest.mk.injEq .. ▸
    ⟨hhub, hfrom, hto, htoken, hrecoverer, hvalue, hnonce, hamount, htokenGas, hindex, hdata⟩

/-- Typed data of the two kinds never has the same string for its struct. -/
theorem kinds_differ {H : Bytes → Word} {n n' : Nat} {a b : Object} {x : Bytes}
    (ha : encodeData H relayTypes n "RelayRequest" a = some x)
    (hb : encodeData H deployTypes n' "RelayRequest" b = some x)
    (hsep : Separates H (TypedData.hashed H relayTypes n "RelayRequest" a ++
      TypedData.hashed H deployTypes n' "RelayRequest" b)) : False := by
  have htypes := encodeType_of_encodeData ha hb hsep
  rw [encodeType_relayRequest, encodeType_deployRequest] at htypes
  exact requestTypes_differ (Option.some.inj htypes)

theorem ClientRequest.digest_some (E : Env) (req : ClientRequest) (chainId : Word)
    (verifier : Address) : ∃ d, (req.typed chainId verifier).digest E.keccak256 = some d := by
  cases req with
  | relay rr =>
      exact ⟨_, congrArg (Option.map E.keccak256)
        (typedRequestData_signedString E chainId verifier rr)⟩
  | deploy dr =>
      exact ⟨_, congrArg (Option.map E.keccak256)
        (typedDeployRequestData_signedString E chainId verifier dr)⟩

theorem ClientRequest.eq_of_digest {H : Bytes → Word} {chainId chainId' : Word}
    {verifier verifier' : Address} {req req' : ClientRequest} {d : Word}
    (h : (req.typed chainId verifier).digest H = some d)
    (h' : (req'.typed chainId' verifier').digest H = some d)
    (hsep : Separates H ((req.typed chainId verifier).hashed H ++
      (req'.typed chainId' verifier').hashed H)) :
    chainId = chainId' ∧ verifier = verifier' ∧ req = req' := by
  obtain ⟨x, y, hx, hx', hy, hy'⟩ := TypedMessage.encodeData_of_digest h h' hsep
  have hmessages := hsep.parts (TypedMessage.message_subset _) (TypedMessage.message_subset _)
  have hdomains := hsep.parts (TypedMessage.domain_subset _) (TypedMessage.domain_subset _)
  cases req with
  | relay rr =>
      cases req' with
      | relay rr' =>
          have hdomain := (encodeData_eq_iff hx hx' hdomains).mp rfl
          have hmessage := (encodeData_eq_iff hy hy' hmessages).mp rfl
          obtain ⟨hchain, hverifier⟩ := domain_of_agree rfl hdomain
          exact ⟨hchain, hverifier, congrArg ClientRequest.relay (relayRequest_of_agree hmessage)⟩
      | deploy dr' => exact (kinds_differ hy hy' hmessages).elim
  | deploy dr =>
      cases req' with
      | relay rr' =>
          exact (kinds_differ hy' hy (hmessages.mono (List.append_subset.mpr
            ⟨List.subset_append_right _ _, List.subset_append_left _ _⟩))).elim
      | deploy dr' =>
          have hdomain := (encodeData_eq_iff hx hx' hdomains).mp rfl
          have hmessage := (encodeData_eq_iff hy hy' hmessages).mp rfl
          obtain ⟨hchain, hverifier⟩ := domain_of_agree rfl hdomain
          exact ⟨hchain, hverifier, congrArg ClientRequest.deploy (deployRequest_of_agree hmessage)⟩

/-- **A digest stands for one request.** If the hash separates the strings that are hashed for
two requests, then they have one digest just if they are the same request, of the same kind, for
the same contract on the same chain. -/
theorem digest_eq_iff {E : Env} {chainId chainId' : Word} {verifier verifier' : Address}
    {req req' : ClientRequest}
    (hsep : Separates E.keccak256 ((req.typed chainId verifier).hashed E.keccak256 ++
      (req'.typed chainId' verifier').hashed E.keccak256)) :
    (req.typed chainId verifier).digest E.keccak256 =
        (req'.typed chainId' verifier').digest E.keccak256 ↔
      chainId = chainId' ∧ verifier = verifier' ∧ req = req' := by
  constructor
  · intro h
    obtain ⟨d, hd⟩ := req.digest_some E chainId verifier
    exact ClientRequest.eq_of_digest hd (h ▸ hd) hsep
  · rintro ⟨rfl, rfl, rfl⟩
    rfl

/-- An environment that hashes by a remainder. -/
def remainderEnv : Env :=
  Env.ofKeys (fun b => BitVec.ofNat 256 (BigEndian.ofBE b % (2 ^ 256 - 189)))
    (fun _ _ => .error "") .other []

/-- A relay and a deploy request without data have different digests. -/
theorem digest_eq_iff_kinds :
    ((ClientRequest.relay ⟨⟨1, 2, 3, 4, 5, 6, 7, 8, 9, []⟩, ⟨1, 2, 3, 4, 5⟩⟩).typed 33 6).digest
        remainderEnv.keccak256 ≠
      ((ClientRequest.deploy ⟨⟨1, 2, 3, 4, 5, 6, 7, 8, 9, 10, []⟩, ⟨1, 2, 3, 4, 5⟩⟩).typed 33
        6).digest remainderEnv.keccak256 := by
  intro h
  have hrequests := ((digest_eq_iff (by decide +kernel)).mp h).2.2
  cases hrequests

end Separation

end RifRelay
