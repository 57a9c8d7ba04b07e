import RifRelay.Basic.Hex

set_option autoImplicit false

/-! # Addresses of wallets, as the client computes them

`RelayProvider` and `SmartWalletDiscovery` compute the address of a wallet from texts: they
hash the salt and the `create2` string with `soliditySha3` and cut the address out of the
text of the hash. `Web3Utils` is what they use of the library `web3-utils`; `Documented` says
what the library promises, and `Web3Utils.ofKeccak` is an implementation.
-/

namespace RifRelay

/-! ## The library -/

/-- An argument of `soliditySha3`: its type `t` and its value `v`. -/
inductive SolidityArg
  | address (v : Text)
  | bytes1 (v : Text)
  | bytes32 (v : Text)
  | uint256 (v : Nat)

/-- What an argument is packed to, where it is a value of its type. -/
def SolidityArg.pack (isAddress : Text → Bool) : SolidityArg → Option Bytes
  | .address v => if isAddress v then (Hex.address v).map addressBytes else none
  | .bytes1 v => (Hex.number 1 v).map fun n => [UInt8.ofNat n]
  | .bytes32 v => (Hex.word v).map wordBytes
  | .uint256 v => if v < 2 ^ 256 then some (wordBytes (BitVec.ofNat 256 v)) else none

/-- `abi.encodePacked` of the arguments. -/
def packAll (isAddress : Text → Bool) : List SolidityArg → Option Bytes
  | [] => some []
  | arg :: rest =>
      match arg.pack isAddress, packAll isAddress rest with
      | some a, some b => some (a ++ b)
      | _, _ => none

/-- The functions of `web3-utils`. `soliditySha3` returns `null` for the hash of nothing. -/
structure Web3Utils where
  isAddress : Text → Bool
  soliditySha3 : List SolidityArg → Option Text
  toChecksumAddress : Text → Nat → Text

namespace Web3Utils

/-- What the library promises: the hash of the packed arguments, and a text of the same
address. -/
structure Documented (web3 : Web3Utils) (keccak256 : Bytes → Word) : Prop where
  sha3 : ∀ args b, packAll web3.isAddress args = some b → b ≠ [] →
    web3.soliditySha3 args = some (Hex.text (wordBytes (keccak256 b)))
  checksum : ∀ a chainId,
    Hex.address (web3.toChecksumAddress (Hex.text (addressBytes a)) chainId) = some a

/-- The text is one of the address, and the library takes it for an address. -/
structure Names (web3 : Web3Utils) (t : Text) (a : Address) : Prop where
  accepted : web3.isAddress t = true
  value : Hex.address t = some a

/-! ### An implementation -/

/-- The checksum of a text: the letters at which the hash has a digit over seven are in upper
case. -/
def checksum (keccak256 : Bytes → Word) (t : Text) : Text :=
  let digits := (t.drop 2).map Char.toLower
  let hash := Hex.write (wordBytes (keccak256 (textBytes (String.ofList digits))))
  '0' :: 'x' ::
    List.zipWith (fun c h => if 7 < (Hex.value h).getD 0 then c.toUpper else c) digits hash

/-- A text is an address when its letters have one case, or when its checksum is right. The
checksum does not depend on the chain id. -/
def ofKeccak (keccak256 : Bytes → Word) : Web3Utils where
  isAddress := fun t =>
    (Hex.address t).isSome &&
      (t.all (fun c => !c.isUpper) || (t.drop 2).all (fun c => !c.isLower) ||
        t == checksum keccak256 t)
  soliditySha3 := fun args =>
    match packAll (fun t => (Hex.address t).isSome) args with
    | some [] => none
    | some b => some (Hex.text (wordBytes (keccak256 b)))
    | none => none
  toChecksumAddress := fun t _ => checksum keccak256 t

/-! ### The implementation keeps the promises -/

theorem packAll_mono {p q : Text → Bool} (hpq : ∀ t, p t = true → q t = true)
    {args : List SolidityArg} {b : Bytes} (h : packAll p args = some b) :
    packAll q args = some b := by
  have hpack : ∀ (arg : SolidityArg) a, arg.pack p = some a → arg.pack q = some a := by
    intro arg a ha
    cases arg with
    | address v =>
        simp only [SolidityArg.pack] at ha ⊢
        by_cases hv : p v = true
        · rw [if_pos hv] at ha
          rw [if_pos (hpq v hv)]
          exact ha
        · rw [if_neg hv] at ha
          cases ha
    | bytes1 v => exact ha
    | bytes32 v => exact ha
    | uint256 v => exact ha
  induction args generalizing b with
  | nil => exact h
  | cons arg rest ih =>
      rw [packAll] at h ⊢
      split at h
      · next a b' ha hb =>
          rw [hpack arg a ha, ih hb]
          exact h
      · cases h

/-- Upper case reads the same. -/
theorem value_upper : ∀ n, n < 16 → Hex.value (Hex.digit n).toLower = some n ∧
    Hex.value (Hex.digit n).toLower.toUpper = some n := by decide

theorem checksum_values {l hash : Text} (hlen : l.length ≤ hash.length)
    (hdigits : ∀ c ∈ l, ∃ n, n < 16 ∧ c = Hex.digit n) :
    (List.zipWith (fun c h => if 7 < (Hex.value h).getD 0 then c.toUpper else c)
      (l.map Char.toLower) hash).map Hex.value = l.map Hex.value := by
  induction l generalizing hash with
  | nil => rfl
  | cons c rest ih =>
      cases hash with
      | nil => simp at hlen
      | cons h hash =>
          obtain ⟨n, hn, rfl⟩ := hdigits c (by simp)
          obtain ⟨hlower, hupper⟩ := value_upper n hn
          have hrest := ih (by simpa using hlen) fun d hd => hdigits d (by simp [hd])
          simp only [List.map_cons, List.zipWith_cons_cons, List.cons.injEq]
          refine ⟨?_, hrest⟩
          rw [Hex.value_digit n hn]
          split
          · exact hupper
          · exact hlower

theorem address_checksum (keccak256 : Bytes → Word) (a : Address) :
    Hex.address (checksum keccak256 (Hex.text (addressBytes a))) = some a := by
  have hread : Hex.ofText (checksum keccak256 (Hex.text (addressBytes a))) =
      some (addressBytes a) := by
    rw [checksum, Hex.drop_text, Hex.ofText_prefixed, ← Hex.read_write (addressBytes a)]
    refine Hex.read_congr (checksum_values ?_ fun c hc => Hex.digits_write hc)
    rw [Hex.length_write, Hex.length_write, length_addressBytes, length_wordBytes]
    omega
  have haddress := Hex.address_text a
  unfold Hex.address Hex.number at haddress ⊢
  rw [Hex.ofText_text] at haddress
  rw [hread]
  exact haddress

theorem ofKeccak_documented (keccak256 : Bytes → Word) :
    (ofKeccak keccak256).Documented keccak256 where
  sha3 := by
    intro args b hb hne
    have hweak : packAll (fun t => (Hex.address t).isSome) args = some b := by
      refine packAll_mono (fun t ht => ?_) hb
      simp only [ofKeccak, Bool.and_eq_true] at ht
      exact ht.1
    cases b with
    | nil => exact absurd rfl hne
    | cons x rest => simp only [ofKeccak, hweak]
  checksum := fun a _ => address_checksum keccak256 a

end Web3Utils

/-! ## The functions of the client -/

namespace Constants

def SHA3_NULL : Word := 0xc5d2460186f7233c927e7db2dcc703c0e500b653ca82273b7bfad8045d85a470

def SHA3_NULL_S : Text :=
  "0xc5d2460186f7233c927e7db2dcc703c0e500b653ca82273b7bfad8045d85a470".toList

end Constants

/-- The address of the wallet whose salt is the hash of these arguments. -/
def calculateAddress (web3 : Web3Utils) (saltArgs : List SolidityArg) (factory bytecodeHash : Text)
    (chainId : Nat) : Text :=
  let salt := (web3.soliditySha3 saltArgs).getD []
  let data := (web3.soliditySha3
    [.bytes1 "0xff".toList, .address factory, .bytes32 salt, .bytes32 bytecodeHash]).getD []
  web3.toChecksumAddress ('0' :: 'x' :: data.drop 26) chainId

namespace RelayProvider

def calculateCustomSmartWalletAddress (web3 : Web3Utils) (chainId : Nat)
    (factory ownerEOA recoverer customLogic : Text) (walletIndex : Nat) (bytecodeHash : Text)
    (logicInitParamsHash : Option Text) : Text :=
  calculateAddress web3
    [.address ownerEOA, .address recoverer, .address customLogic,
      .bytes32 (logicInitParamsHash.getD Constants.SHA3_NULL_S), .uint256 walletIndex]
    factory bytecodeHash chainId

def calculateSmartWalletAddress (web3 : Web3Utils) (chainId : Nat)
    (factory ownerEOA recoverer : Text) (walletIndex : Nat) (bytecodeHash : Text) : Text :=
  calculateAddress web3 [.address ownerEOA, .address recoverer, .uint256 walletIndex]
    factory bytecodeHash chainId

end RelayProvider

namespace SmartWalletDiscovery

def calculateSmartWalletAddress (web3 : Web3Utils) (ownerEOA recoverer : Text) (walletIndex : Nat)
    (factory bytecodeHash : Text) (chainId : Nat) : Text :=
  calculateAddress web3 [.address ownerEOA, .address recoverer, .uint256 walletIndex]
    factory bytecodeHash chainId

def calculateCustomSmartWalletAddress (web3 : Web3Utils)
    (ownerEOA recoverer logicAddress : Text) (initParamsHash : Option Text) (walletIndex : Nat)
    (factory bytecodeHash : Text) (chainId : Nat) : Text :=
  calculateAddress web3
    [.address ownerEOA, .address recoverer, .address logicAddress,
      .bytes32 (initParamsHash.getD Constants.SHA3_NULL_S), .uint256 walletIndex]
    factory bytecodeHash chainId

end SmartWalletDiscovery

/-! ## What they compute -/

section Packing

variable {web3 : Web3Utils}

@[simp] theorem pack_address {t : Text} {a : Address} (h : web3.Names t a) :
    (SolidityArg.address t).pack web3.isAddress = some (addressBytes a) := by
  simp [SolidityArg.pack, h.accepted, h.value]

@[simp] theorem pack_bytes32 {t : Text} {w : Word} (h : Hex.word t = some w) :
    (SolidityArg.bytes32 t).pack web3.isAddress = some (wordBytes w) := by
  simp [SolidityArg.pack, h]

@[simp] theorem pack_uint256 (w : Word) :
    (SolidityArg.uint256 w.toNat).pack web3.isAddress = some (wordBytes w) := by
  simp [SolidityArg.pack, w.isLt]

theorem packAll_cons {arg : SolidityArg} {args : List SolidityArg} {a b : Bytes}
    (ha : arg.pack web3.isAddress = some a) (hb : packAll web3.isAddress args = some b) :
    packAll web3.isAddress (arg :: args) = some (a ++ b) := by
  rw [packAll, ha, hb]

/-- **The address the client computes** is cut out of the hash of the `create2` string. -/
theorem calculateAddress_eq {keccak256 : Bytes → Word} (hweb3 : web3.Documented keccak256)
    {saltArgs : List SolidityArg} {saltBytes : Bytes}
    (hsalt : packAll web3.isAddress saltArgs = some saltBytes) (hne : saltBytes ≠ [])
    {factory bytecodeHash : Text} {F : Address} {codeHash : Word} (hfactory : web3.Names factory F)
    (hcode : Hex.word bytecodeHash = some codeHash) (chainId : Nat) :
    Hex.address (calculateAddress web3 saltArgs factory bytecodeHash chainId) =
      some (wordAddress (keccak256 (0xff :: (addressBytes F ++
        (wordBytes (keccak256 saltBytes) ++ wordBytes codeHash))))) := by
  have hff : (SolidityArg.bytes1 "0xff".toList).pack web3.isAddress = some [0xff] := by
    have hnumber : Hex.number 1 "0xff".toList = some 255 := by decide
    rw [SolidityArg.pack, hnumber]
    rfl
  have hlast : packAll web3.isAddress [.bytes32 bytecodeHash] = some (wordBytes codeHash ++ []) :=
    packAll_cons (pack_bytes32 hcode) rfl
  have hargs := packAll_cons hff (packAll_cons (pack_address hfactory)
    (packAll_cons (pack_bytes32 (Hex.word_text (keccak256 saltBytes))) hlast))
  have hdata := hweb3.sha3 _ _ hargs (by simp)
  rw [calculateAddress, hweb3.sha3 _ _ hsalt hne]
  simp only [Option.getD_some]
  rw [hdata]
  simp only [Option.getD_some, List.append_nil, List.singleton_append]
  -- the 24 digits after the prefix are the 12 bytes that are cut off
  have hcut : ∀ w : Word, (Hex.text (wordBytes w)).drop 26 =
      Hex.write (addressBytes (wordAddress w)) := by
    intro w
    rw [← Hex.drop_wordBytes, ← Hex.drop_write, Hex.text, List.drop_succ_cons,
      List.drop_succ_cons]
  rw [hcut, ← Hex.text, hweb3.checksum]

end Packing

end RifRelay
