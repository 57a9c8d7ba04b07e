import RifRelay.Basic.GapScans
import RifRelay.Basic.Loops
import RifRelay.Client.WalletAddress

set_option autoImplicit false

/-! # Wallet discovery

`SmartWalletDiscovery` derives the addresses of accounts from keys, computes the addresses of their
wallets, and asks the node which of them have been active. The loops are `while` loops over the
variables of the source; `Environment` is what they use of the libraries and of the node.
-/

namespace RifRelay

open Loops GapScans

namespace Constants

def ZERO_ADDRESS : Text := "0x0000000000000000000000000000000000000000".toList

end Constants

namespace SmartWalletDiscovery

structure DiscoveredAccount where
  eoaAccount : Text
  swAccounts : List Text
deriving DecidableEq

inductive TMnemonicLanguage
  | CZECH
  | ENGLISH
  | FRENCH
  | ITALIAN
  | JAPANESE
  | KOREAN
  | SIMPLIFIED_CHINESE
  | SPANISH
  | TRADITIONAL_CHINESE

structure IDiscoveryConfig where
  eoaGap : Option ℕ := none
  sWalletGap : Option ℕ := none
  isTestNet : Option Bool := none
  factory : Text
  isCustomWallet : Bool
  mnemonicLanguage : Option TMnemonicLanguage := none
  recoverer : Option Text := none
  logic : Option Text := none
  logicParamsHash : Option Text := none

structure DiscoveryConfig where
  eoaGap : ℕ
  sWalletGap : ℕ
  isTestNet : Bool
  factory : Text
  mnemonicLanguage : TMnemonicLanguage
  recoverer : Text
  logic : Option Text
  logicParamsHash : Option Text
  isCustomWallet : Bool

/-- The constructor of `DiscoveryConfig`. -/
def DiscoveryConfig.new (config : IDiscoveryConfig) : DiscoveryConfig where
  eoaGap := config.eoaGap.getD 20
  sWalletGap := config.sWalletGap.getD 20
  isTestNet := config.isTestNet.getD false
  factory := config.factory
  mnemonicLanguage := config.mnemonicLanguage.getD .ENGLISH
  recoverer := config.recoverer.getD Constants.ZERO_ADDRESS
  logic := config.logic
  logicParamsHash := config.logicParamsHash
  isCustomWallet := config.isCustomWallet

/-! ## The libraries and the node -/

/-- `EthereumHDKey` of `ethereumjs-wallet`, and `bip39` with its lists of words. -/
structure KeyLibrary where
  HDKey : Type
  Seed : Type
  wordlist : TMnemonicLanguage → List Text
  validateMnemonic : Text → List Text → Bool
  mnemonicToSeedSync : Text → Option Text → Seed
  fromMasterSeed : Seed → HDKey
  fromExtendedKey : Text → HDKey
  derivePath : HDKey → Text → HDKey
  deriveChild : HDKey → ℕ → HDKey
  /-- `getWallet().getAddressString()`. -/
  getAddressString : HDKey → Text

structure Environment where
  keys : KeyLibrary
  web3 : Web3Utils
  keccak256 : Text → Text
  getCreationBytecode : Text → Text
  getChainId : ℕ
  /-- The addresses with a balance, a transaction or tokens: what `searchTrx` answers. -/
  active : Finset Text

variable (env : Environment) (config : DiscoveryConfig)

def Environment.searchTrx (currentAddress : Text) : Bool := decide (currentAddress ∈ env.active)

/-- The address of a wallet, from the variables that every function sets up at its start. -/
def currentSWAddress (currentAddress : Text) (walletIndex : ℕ) : Text :=
  let bytecodeHash := env.keccak256 (env.getCreationBytecode config.factory)
  let logicAddress := config.logic.getD Constants.ZERO_ADDRESS
  let initParamsHash := config.logicParamsHash.getD Constants.SHA3_NULL_S
  if config.isCustomWallet then
    calculateCustomSmartWalletAddress env.web3 currentAddress config.recoverer logicAddress
      (some initParamsHash) walletIndex config.factory bytecodeHash env.getChainId
  else
    calculateSmartWalletAddress env.web3 currentAddress config.recoverer walletIndex config.factory
      bytecodeHash env.getChainId

/-! ## The loops over one key -/

/-- The variables of the loop over the wallets of an account. -/
structure WalletLoop where
  swAccounts : List Text
  totalSWTrxCount : ℕ
  currentGap : ℕ
  currentSWGap : ℕ
  walletIndex : ℕ

def walletTurn (currentAddress : Text) (s : WalletLoop) : WalletLoop :=
  let address := currentSWAddress env config currentAddress s.walletIndex
  if env.searchTrx address then
    { swAccounts := s.swAccounts ++ [address]
      totalSWTrxCount := s.totalSWTrxCount + 1
      currentGap := 0
      currentSWGap := 0
      walletIndex := s.walletIndex + 1 }
  else
    { s with
      currentSWGap := s.currentSWGap + 1
      walletIndex := s.walletIndex + 1 }

def walletLoop (currentAddress : Text) : WalletLoop → Fueled WalletLoop :=
  whileLoop (fun s => decide (s.currentSWGap ≤ config.sWalletGap))
    fun s _ => some (walletTurn env config currentAddress s)

/-- The variables of the loop over the addresses of a key. -/
structure KeyLoop where
  accounts : List DiscoveredAccount
  totalTrxCount : ℕ
  totalSWTrxCount : ℕ
  currentGap : ℕ
  index : ℕ

/-- The end of a turn, after the loop over the wallets. -/
def turnEnd (currentAddress eoaAccount : Text) (totalTrxCount : ℕ) (s : KeyLoop) (w : WalletLoop) :
    KeyLoop :=
  let eoaAccount :=
    -- the zero address stands for an account without activity of its own
    if 0 < w.swAccounts.length ∧ eoaAccount = Constants.ZERO_ADDRESS then currentAddress
    else eoaAccount
  { accounts :=
      if eoaAccount ≠ Constants.ZERO_ADDRESS ∨ 0 < w.swAccounts.length then
        s.accounts ++ [⟨eoaAccount, w.swAccounts⟩]
      else s.accounts
    totalTrxCount := totalTrxCount
    totalSWTrxCount := w.totalSWTrxCount
    currentGap := w.currentGap
    index := s.index + 1 }

def keyTurn (addressOf : ℕ → Text) (s : KeyLoop) : Fueled KeyLoop := fun fuel =>
  let currentAddress := addressOf s.index
  let activityFound := env.searchTrx currentAddress
  let eoaAccount := if activityFound then currentAddress else Constants.ZERO_ADDRESS
  let totalTrxCount := if activityFound then s.totalTrxCount + 1 else s.totalTrxCount
  let currentGap := if activityFound then 0 else s.currentGap + 1
  (walletLoop env config currentAddress ⟨[], s.totalSWTrxCount, currentGap, 0, 0⟩ fuel).bind
    fun w => some (turnEnd currentAddress eoaAccount totalTrxCount s w)

/-- The loop over the addresses of a key, the same in the three functions up to the derivation of
an address from its index. -/
def keyLoop (addressOf : ℕ → Text) : KeyLoop → Fueled KeyLoop :=
  whileLoop (fun s => decide (s.currentGap ≤ config.eoaGap)) (keyTurn env config addressOf)

/-! ## The three functions -/

def getRootExtKeyFromMnemonic (mnemonic : Text) (password : Option Text)
    (language : TMnemonicLanguage) : Except Text env.keys.HDKey :=
  if env.keys.validateMnemonic mnemonic (env.keys.wordlist language) then
    .ok (env.keys.fromMasterSeed (env.keys.mnemonicToSeedSync mnemonic password))
  else .error "Mnemonic invalid or undefined".toList

/-- The variables of the loops over the keys. -/
structure Discovery where
  accounts : List DiscoveredAccount
  ended : Bool
  currentAccount : ℕ

/-- The end of a turn: a key in which nothing is found is the last one. -/
def discoveryEnd (s : Discovery) (k : KeyLoop) : Discovery :=
  if k.totalTrxCount = 0 ∧ k.totalSWTrxCount = 0 then ⟨k.accounts, true, s.currentAccount⟩
  else ⟨k.accounts, false, s.currentAccount + 1⟩

def keyStart (accounts : List DiscoveredAccount) : KeyLoop := ⟨accounts, 0, 0, 0, 0⟩

/-- The address with the path `m/44'/137'/currentAccount'/0/index`. -/
def mnemonicAddress (hdRootKey : env.keys.HDKey) (currentAccount index : ℕ) : Text :=
  let rskIndex := if config.isTestNet then "37310" else "137"
  let address := "m/44'/" ++ rskIndex ++ "'"
  let path := address ++ "/" ++ toString currentAccount ++ "'/0/" ++ toString index
  env.keys.getAddressString (env.keys.derivePath hdRootKey path.toList)

def extendedKeyAddress (extPubKey : Text) (index : ℕ) : Text :=
  env.keys.getAddressString (env.keys.deriveChild (env.keys.fromExtendedKey extPubKey) index)

/-- The loop over the keys, until one is not supplied or nothing is found in one. -/
def discoverKeys (keyOf : ℕ → Option (ℕ → Text)) : Discovery → Fueled Discovery :=
  whileLoop (fun s => !s.ended) fun s fuel =>
    match keyOf s.currentAccount with
    | none => some { s with ended := true }
    | some addressOf =>
        (keyLoop env config addressOf (keyStart s.accounts) fuel).bind fun k =>
          some (discoveryEnd s k)

def discoverAccountsFromMnemonic (accounts : List DiscoveredAccount) (mnemonic : Text)
    (password : Option Text) : Fueled (Except Text (List DiscoveredAccount)) := fun fuel =>
  match getRootExtKeyFromMnemonic env mnemonic password config.mnemonicLanguage with
  | .error message => some (.error message)
  | .ok hdRootKey =>
      (discoverKeys env config (fun k => some (mnemonicAddress env config hdRootKey k))
        ⟨accounts, false, 0⟩ fuel).bind fun s => some (.ok s.accounts)

def discoverAccountsFromExtendedPublicKeys (accounts : List DiscoveredAccount) :
    List Text → Fueled (List DiscoveredAccount)
  | [] => fun _ => some accounts
  | extPubKey :: rest => fun fuel =>
      (keyLoop env config (extendedKeyAddress env extPubKey) (keyStart accounts) fuel).bind
        fun k => discoverAccountsFromExtendedPublicKeys k.accounts rest fuel

/-- `getAccountExtendedPublicKey`, which the integrator overrides. -/
def getAccountExtendedPublicKey (_accountIdx : ℕ) : Option Text := none

/-- The key of an account, where the reader supplies one. -/
def readKey (accountReader : Option (ℕ → Option Text)) (currentAccount : ℕ) :
    Option (ℕ → Text) :=
  let accountReaderFunc := accountReader.getD getAccountExtendedPublicKey
  (accountReaderFunc currentAccount).map (extendedKeyAddress env)

def discoverAccounts (accounts : List DiscoveredAccount)
    (accountReader : Option (ℕ → Option Text)) :
    Fueled (List DiscoveredAccount) := fun fuel =>
  (discoverKeys env config (readKey env accountReader) ⟨accounts, false, 0⟩ fuel).bind fun s =>
    some s.accounts

end SmartWalletDiscovery

end RifRelay
