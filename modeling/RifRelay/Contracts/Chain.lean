import RifRelay.Contracts.CustomSmartWalletFactory
import RifRelay.Contracts.RelayHub
import RifRelay.Contracts.Penalizer

set_option autoImplicit false

/-! # Runs of the chain

Which code a message runs, and how transactions follow each other.

The code of all contracts that are not part of this repository is a parameter, `Outside`.
Such code may store what it likes, log, create and destroy contracts, force coins on an
account, and call anything at any time; `OutsideStep` and `OutsideCall` list what no code on
the chain can exceed. `LocalStep` is the bound in the form the proofs use it, for every
code, the contracts of the repository included: a frame writes in its own account only.

`Point` is the notion all results about runs are stated with: a configuration that some run
gets to, between two transactions or at any message that is sent within one, also when the
frame that sends it is rolled back later.
-/

namespace RifRelay

open CallMachine

/-- A configuration of the chain. -/
abbrev ChainConf (χ : Type) : Type := Conf (World χ) Msg Revert Bytes

/-! ## Code from outside -/

/-- What the address of a contract created by `creator` is the hash of: the RLP encoding of
the creator and its nonce (`create`), or the string `create2` hashes. -/
inductive Creation (creator : Address) : Bytes → Prop
  | create (hd : UInt8) (nonce : Bytes) (h : hd ≠ 0xff) :
      Creation creator (hd :: 0x94 :: (addressBytes creator ++ nonce))
  | create2 (salt codeHash : Word) : Creation creator (Proxy.create2String creator salt codeHash)

section Outside

variable {χ : Type} (E : Env)

/-- Move `v` coins to `dest` without its code running: by a self-destruct, as a block reward
or as a fee. -/
def World.force (w : World χ) (src dest : Address) (v : Nat) : World χ :=
  { w with
    balance := Ledger.move w.balance src dest v
    forced := Function.update w.forced dest (w.forced dest + v) }

/-- One write of code from outside the repository that runs in the frame of `msg`. -/
inductive OutsideStep (msg : Msg) (w : World χ) : World χ → Prop
  | idle : OutsideStep msg w w
  | store (x : χ) : OutsideStep msg w { w with ext := x }
  | log (e : Event) : OutsideStep msg w { w with logs := w.logs ++ [(msg.self, e)] }
  | own (hub : RelayHub) (penalizer : Penalizer) (wallet : Wallet) (factory : Factory) :
      OutsideStep msg w
        { w with
          hubs := Function.update w.hubs msg.self hub
          penalizers := Function.update w.penalizers msg.self penalizer
          wallets := Function.update w.wallets msg.self wallet
          factories := Function.update w.factories msg.self factory }
  | force (dest : Address) (v : Nat) (hne : dest ≠ msg.self) (hv : v ≤ w.balance msg.self) :
      OutsideStep msg w (w.force msg.self dest v)
  | burn (v : Nat) :
      OutsideStep msg w
        { w with balance := Function.update w.balance msg.self (w.balance msg.self - v) }
  | create (creation : Bytes) (h : Creation msg.self creation)
      (hvacant : w.Vacant E (E.createdAddress creation)) :
      OutsideStep msg w (w.install (E.createdAddress creation) ⟨.other, creation⟩)
  | destroy : OutsideStep msg w { w with code := Function.update w.code msg.self none }

/-- A message a frame can send: a call or a static call from its own account, or a delegate
call that keeps the account, the sender and the value. -/
def LocalCall (msg m : Msg) : Prop :=
  m.tx = msg.tx ∧
    ((m.kind = .delegatecall ∧ m.self = msg.self ∧ m.sender = msg.sender ∧
        m.value = msg.value) ∨
      (m.kind ≠ .delegatecall ∧ m.sender = msg.self ∧ m.codeAddress = m.self ∧
        (m.kind = .staticcall → m.value = 0)))

end Outside

/-- The contracts that are not part of the repository, and what running code costs. -/
structure Outside (E : Env) (χ : Type) where
  code : Msg → World χ → Sol χ Bytes
  cost : World χ → Nat → Nat
  within : ∀ msg w, (code msg w).Within (OutsideStep E msg) (LocalCall msg)

/-! ## The machine -/

section Machine

variable {χ : Type} (E : Env) (O : Outside E χ)

/-- The code a message runs: that of the account `codeAddress`, nothing where there is no
contract. -/
def codeOf (msg : Msg) (w : World χ) : Sol χ Bytes :=
  match (w.code msg.codeAddress).map Contract.code with
  | none => .ret []
  | some .relayHub => RelayHub.code E msg
  | some .penalizer => Penalizer.code E msg
  | some .smartWallet => SmartWallet.code E msg
  | some .customSmartWallet => CustomSmartWallet.code E msg
  | some .smartWalletFactory => SmartWalletFactory.code E msg
  | some .customSmartWalletFactory => CustomSmartWalletFactory.code E msg
  | some (.proxy masterCopy) => Proxy.code masterCopy msg
  | some .other => O.code msg w

/-- A call moves its coins from the sender to the callee and cannot start when the sender
lacks them. -/
def enter (msg : Msg) (w : World χ) : Option (World χ) :=
  if msg.kind = .call then
    if msg.value.toNat ≤ w.balance msg.sender then
      some { w with balance := Ledger.move w.balance msg.sender msg.self msg.value.toNat }
    else none
  else some w

def isPaying (msg : Msg) : Bool := msg.kind = .call && msg.value ≠ 0

def machine : Machine (World χ) Msg Revert Bytes where
  enter := enter
  code := codeOf E O
  isStatic := fun msg => msg.kind = .staticcall
  isPaying := isPaying
  stipend := fun msg => if isPaying msg then 2300 else 0
  cost := O.cost
  halt := .halt

/-! ## Transactions -/

/-- A transaction that calls `dest`. -/
structure Tx where
  origin : Address
  gasPrice : Word
  blockNumber : Word
  dest : Address
  value : Word
  data : CallData
  gas : Nat

/-- The outermost message of a transaction. -/
def Tx.msg (tx : Tx) : Msg :=
  ⟨.call, tx.origin, tx.dest, tx.dest, tx.value, tx.data,
    ⟨tx.origin, tx.gasPrice, tx.blockNumber⟩⟩

/-- The configuration after a transaction. -/
def Tx.run (tx : Tx) (depth : Nat) (c : ChainConf χ) : ChainConf χ :=
  (exec (machine E O) depth false tx.gas tx.msg c).conf

/-- `Settled E O w b c`: a run from the world `w` gets to `c` at block `b`, between two
transactions. Transactions are sent by accounts without code; such an account may also
create a contract directly, or lose coins in fees. Blocks do not go backwards. -/
inductive Settled (w : World χ) : Word → ChainConf χ → Prop
  | start (b : Word) : Settled w b (Conf.start w)
  | wait {b : Word} {c : ChainConf χ} (h : Settled w b c) (b' : Word) (hb : b ≤ b') :
      Settled w b' c
  | call {b : Word} {c : ChainConf χ} (h : Settled w b c) (tx : Tx) (depth : Nat)
      (hb : b ≤ tx.blockNumber) (horigin : E.codeless tx.origin = true) :
      Settled w tx.blockNumber (tx.run E O depth c)
  | create {b : Word} {c : ChainConf χ} (h : Settled w b c) (origin : Address)
      (creation : Bytes) (horigin : E.codeless origin = true) (hc : Creation origin creation)
      (hvacant : c.state.Vacant E (E.createdAddress creation)) :
      Settled w b (c.put (c.state.install (E.createdAddress creation) ⟨.other, creation⟩))
  | fee {b : Word} {c : ChainConf χ} (h : Settled w b c) (payer dest : Address) (v : Nat)
      (hpayer : E.codeless payer = true) (hne : dest ≠ payer) (hv : v ≤ c.state.balance payer) :
      Settled w b (c.put (c.state.force payer dest v))

/-- `Point E O w b point c`: a run from `w` gets to `c` at block `b`; either between two
transactions (`point = none`), or where the message `m` is sent (`point = some m`). -/
inductive Point (w : World χ) : Word → Option Msg → ChainConf χ → Prop
  | settled {b : Word} {c : ChainConf χ} (h : Settled E O w b c) : Point w b none c
  | inside {b : Word} {c : ChainConf χ} (h : Settled E O w b c) (tx : Tx) (depth : Nat)
      (hb : b ≤ tx.blockNumber) (horigin : E.codeless tx.origin = true)
      {m : Msg} {c' : ChainConf χ}
      (hv : Visits (machine E O) m c' depth false tx.gas tx.msg c) :
      Point w tx.blockNumber (some m) c'

end Machine

/-! ## Small chains -/

/-- A chain on which no contract from outside does anything. -/
def Outside.silent (E : Env) : Outside E Unit where
  code := fun _ _ => .ret []
  cost := fun _ _ => 0
  within := fun _ _ => trivial

/-- A hash known on the strings of a table. -/
def hashTable (table : List (Bytes × Word)) (b : Bytes) : Word := (table.lookup b).getD 0

/-- The recovery of the signatures of a table. -/
def recoverTable (table : List ((Word × Bytes) × Address)) (digest : Word) (sig : Bytes) :
    Except String Address :=
  match table.lookup (digest, sig) with
  | some signer => .ok signer
  | none => .error "ECDSA: invalid signature"

theorem recoverTable_ok {table : List ((Word × Bytes) × Address)} {digest : Word} {sig : Bytes}
    {signer : Address} (h : recoverTable table digest sig = .ok signer) :
    ((digest, sig), signer) ∈ table := by
  unfold recoverTable at h
  split at h
  next a hlookup =>
    obtain rfl : a = signer := Except.ok.inj h
    obtain ⟨l₁, l₂, rfl, -⟩ := List.lookup_eq_some_iff.mp hlookup
    simp
  next => cases h

/-- A hash separates the strings of a list. -/
theorem injOn_list {β : Type} {hash : Bytes → β} (l : List Bytes) {S : Set Bytes}
    (hS : ∀ b ∈ S, b ∈ l) (hl : ∀ a ∈ l, ∀ b ∈ l, hash a = hash b → a = b) : Set.InjOn hash S :=
  fun a ha b hb h => hl a (hS a ha) b (hS b hb) h

/-- An environment given by what is hashed, recovered and decoded, and by the addresses of
key pairs. -/
def Env.ofKeys (keccak256 : Bytes → Word) (recover : Word → Bytes → Except String Address)
    (abiDecode : Bytes → CallData) (keys : List Address) : Env where
  keccak256 := keccak256
  recover := recover
  chainId := 33
  abiDecode := abiDecode
  stored := RLPReader.Stored.atStart
  codeless := fun a => a == 0 || keys.contains a
  codeless_zero := by simp

/-- A world with these contracts, in which `rich` has all the coins. -/
def World.ofContracts (rich : Address) (coins : Nat) (code : Address → Option Contract) :
    World Unit where
  balance := fun a => if a = rich then coins else 0
  forced := fun _ => 0
  code := code
  hubs := fun _ => ⟨0, 0, 0, 0, 0, fun _ => 0, fun _ => 0, fun _ => StakeInfo.zero⟩
  penalizers := fun _ => ⟨fun _ => false⟩
  wallets := fun _ => Wallet.zero
  factories := fun _ => ⟨0, fun _ => 0⟩
  logs := []
  ext := ()

/-- No key pair has the address of a contract. -/
theorem World.codeless_ofKeys {keccak256 : Bytes → Word}
    {recover : Word → Bytes → Except String Address} {abiDecode : Bytes → CallData}
    {keys : List Address} {code : Address → Option Contract}
    (h : ∀ a ∈ 0 :: keys, code a = none) (a : Address)
    (ha : (Env.ofKeys keccak256 recover abiDecode keys).codeless a = true) : code a = none := by
  refine h a ?_
  simpa [Env.ofKeys] using ha

theorem World.supply_ofContracts (rich : Address) (coins : Nat)
    (code : Address → Option Contract) :
    (World.ofContracts rich coins code).supply = coins := by
  simp [World.supply, World.ofContracts]

end RifRelay
