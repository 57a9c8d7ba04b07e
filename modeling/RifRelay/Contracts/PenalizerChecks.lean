import RifRelay.Contracts.ProofRules
import RifRelay.Contracts.RLPRoundTrip
import RifRelay.Machine.Forward

set_option autoImplicit false

/-! # What the penalizer takes for an offence

On encoded transactions the checks of `penalizeRepeatedNonce` come down to a comparison of
the transactions themselves (`checkOffence_encode`): the nonces have to be equal, and the
data, the gas limits, the recipients or the values different. So a pair that a resend with
another gas price leaves behind is never an offence (`penalizeRepeatedNonce_decides`).
-/

namespace RifRelay

open CallMachine

namespace Penalizer

open RLPReader

/-- Two transactions do the same: they may still differ in nonce and gas price. -/
def SameAction (t t' : Transaction) : Prop :=
  t.data = t'.data ∧ t.gasLimit = t'.gasLimit ∧ t.to = t'.to ∧ t.value = t'.value

instance (t t' : Transaction) : Decidable (SameAction t t') :=
  inferInstanceAs (Decidable (_ ∧ _))

/-- The packed fields determine the action, although the data in front has any length: what
follows it has a fixed one. -/
theorem dataToCheck_inj {t t' : Transaction} :
    dataToCheck t = dataToCheck t' ↔ SameAction t t' := by
  constructor
  · intro h
    have htail : ∀ s : Transaction, (wordBytes s.gasLimit ++
        (addressBytes s.to ++ wordBytes s.value)).length = 84 := by
      intro s
      simp
    obtain ⟨hdata, hrest⟩ := List.append_inj' h (by rw [htail, htail])
    obtain ⟨hgasLimit, hrest⟩ := wordBytes_append_inj hrest
    obtain ⟨hto, hvalue⟩ := addressBytes_append_inj hrest
    exact ⟨hdata, hgasLimit, hto, wordBytes_inj hvalue⟩
  · rintro ⟨hdata, hgasLimit, hto, hvalue⟩
    rw [dataToCheck, dataToCheck, hdata, hgasLimit, hto, hvalue]

/-- The signatures that come with two transactions, both of the key with address `signer`. -/
structure SignedPair (E : Env) (tx₁ tx₂ : UnsignedTx) (signature1 signature2 : Bytes)
    (signer : Address) : Prop where
  first : E.recover (E.keccak256 tx₁.encode) signature1 = .ok signer
  second : E.recover (E.keccak256 tx₂.encode) signature2 = .ok signer
  key : RSKAddrValidator.checkPKNotZero signer = true

/-- The hash tells the actions of two transactions apart. -/
def HashSeparates (E : Env) (t t' : Transaction) : Prop :=
  Set.InjOn E.keccak256 {dataToCheck t, dataToCheck t'}

theorem HashSeparates.iff {E : Env} {t t' : Transaction} (h : HashSeparates E t t') :
    E.keccak256 (dataToCheck t) = E.keccak256 (dataToCheck t') ↔ SameAction t t' := by
  rw [← dataToCheck_inj]
  exact h.eq_iff (by simp) (by simp)

section Checks

variable {χ : Type} {E : Env} {msg : Msg}

theorem decodeTransaction_encode {tx : UnsignedTx} (h : tx.Encodable) :
    decodeTransaction E tx.encode = (Prog.ret tx.transaction : Sol χ Transaction) := by
  rw [decodeTransaction, RLPReader.decodeTransaction_encode tx h]

/-- The verdict on two transactions that were not both recorded. -/
def verdict (t t' : Transaction) (signer : Address) : Except Revert Address :=
  if t.nonce = t'.nonce then
    if SameAction t t' then .error (.error "tx is equal") else .ok signer
  else .error (.error "Different nonce")

theorem verdict_ok {t t' : Transaction} {signer a : Address} :
    verdict t t' signer = .ok a ↔
      t.nonce = t'.nonce ∧ ¬ SameAction t t' ∧ a = signer := by
  unfold verdict
  split
  · next hnonce =>
      split
      · next hsame => simp [hsame]
      · next hsame => simp [hnonce, hsame, eq_comm]
  · next hnonce => simp [hnonce]

/-- **The checks on encoded transactions.** -/
theorem checkOffence_encode {tx₁ tx₂ : UnsignedTx} (h₁ : tx₁.Encodable) (h₂ : tx₂.Encodable)
    {signature1 signature2 : Bytes} {signer : Address}
    (hsigned : SignedPair E tx₁ tx₂ signature1 signature2 signer)
    (hhash : HashSeparates E tx₁.transaction tx₂.transaction) :
    (checkOffence E msg tx₁.encode signature1 tx₂.encode signature2 : Sol χ Address) =
      (storage msg).bind fun penalizer =>
        if penalizer.penalizedTransactions (E.keccak256 tx₁.encode) = true ∧
            penalizer.penalizedTransactions (E.keccak256 tx₂.encode) = true then
          .revert (.error "Transactions already penalized")
        else
          match verdict tx₁.transaction tx₂.transaction signer with
          | .ok a => .ret a
          | .error e => .revert e := by
  have hfirst : (recoverSigner E (E.keccak256 tx₁.encode) signature1 : Sol χ Address) =
      .ret signer := by
    rw [recoverSigner, hsigned.first]
  have hsecond : (recoverSigner E (E.keccak256 tx₂.encode) signature2 : Sol χ Address) =
      .ret signer := by
    rw [recoverSigner, hsigned.second]
  unfold checkOffence
  dsimp only
  rw [hfirst, hsecond, decodeTransaction_encode h₁, decodeTransaction_encode h₂]
  simp only [Prog.bind_eq]
  congr 1
  funext penalizer
  simp only [Prog.ret_bind, require, Prog.assert, hsigned.key, if_true]
  by_cases hrecorded : penalizer.penalizedTransactions (E.keccak256 tx₁.encode) = true ∧
      penalizer.penalizedTransactions (E.keccak256 tx₂.encode) = true
  · rw [if_pos hrecorded, if_neg (by simp [hrecorded.1, hrecorded.2])]
    rfl
  · have hfree : penalizer.penalizedTransactions (E.keccak256 tx₁.encode) = false ∨
        penalizer.penalizedTransactions (E.keccak256 tx₂.encode) = false := by
      simpa using not_and_or.mp hrecorded
    rw [if_neg hrecorded, if_pos hfree, verdict]
    by_cases hnonce : tx₁.transaction.nonce = tx₂.transaction.nonce
    · by_cases hsame : SameAction tx₁.transaction tx₂.transaction
      · have hequal := hhash.iff.mpr hsame
        simp [hnonce, hsame, hequal, Prog.bind]
      · have hdiffer := mt hhash.iff.mp hsame
        simp [hnonce, hsame, hdiffer]
    · simp [hnonce, Prog.bind]

/-- Whatever is signed and recorded: what passes the checks is an offence. -/
theorem offence_of_checked {tx₁ tx₂ : UnsignedTx} (h₁ : tx₁.Encodable) (h₂ : tx₂.Encodable)
    {M : Machine (World χ) Msg Revert Bytes} {callee : Callee (World χ) Msg Revert Bytes}
    {static : Bool} {signature1 signature2 : Bytes} {g : Nat} {c : ChainConf χ} {a : Address}
    (h : (run M callee static (checkOffence E msg tx₁.encode signature1 tx₂.encode signature2)
      g c).value = .ok a) :
    tx₁.transaction.nonce = tx₂.transaction.nonce ∧
      ¬ SameAction tx₁.transaction tx₂.transaction := by
  refine run_spec M Spec.any (answers_any callee) static _ (fun _ _ => _) g c ?_ a h
  unfold checkOffence
  rw [decodeTransaction_encode h₁, decodeTransaction_encode h₂]
  simp only [Prog.bind_eq, Prog.pure_eq, wp_bind, wp_require, wp_recoverSigner, wp_ret,
    wp_penalizer_storage]
  intro _ _ _ _ _ _ _ hnonce hhash
  -- equal strings have equal hashes
  exact ⟨hnonce, fun hsame => hhash (congrArg E.keccak256 (dataToCheck_inj.mpr hsame))⟩

end Checks

/-- **The penalizer decides conflicts.** Two transactions in canonical encoding, signed by one
key:

* they are decoded to what was encoded, wherever they are in memory;
* the packed hash compares exactly their actions;
* neither recorded, they pass the checks exactly when their nonces are equal and their
  actions are not, and the error tells which of the two is wrong;
* whatever is signed or recorded, no report of the pair ever goes through otherwise. -/
theorem penalizeRepeatedNonce_decides {χ : Type} {E : Env} (O : Outside E χ)
    {tx₁ tx₂ : UnsignedTx} (h₁ : tx₁.Encodable) (h₂ : tx₂.Encodable)
    {signature1 signature2 : Bytes} {signer : Address}
    (hsigned : SignedPair E tx₁ tx₂ signature1 signature2 signer)
    (hhash : HashSeparates E tx₁.transaction tx₂.transaction) :
    ((∀ st : Stored tx₁.encode, RLPReader.decodeTransaction st = .ok tx₁.transaction) ∧
      ∀ st : Stored tx₂.encode, RLPReader.decodeTransaction st = .ok tx₂.transaction) ∧
    (E.keccak256 (dataToCheck tx₁.transaction) = E.keccak256 (dataToCheck tx₂.transaction) ↔
      SameAction tx₁.transaction tx₂.transaction) ∧
    (∀ msg callee static g (c : ChainConf χ), O.cost c.state g ≤ g →
      (c.state.penalizers msg.self).penalizedTransactions (E.keccak256 tx₁.encode) = false →
      (c.state.penalizers msg.self).penalizedTransactions (E.keccak256 tx₂.encode) = false →
      (run (machine E O) callee static
          (checkOffence E msg tx₁.encode signature1 tx₂.encode signature2) g c).value =
        if tx₁.transaction.nonce = tx₂.transaction.nonce then
          if SameAction tx₁.transaction tx₂.transaction then .error (.error "tx is equal")
          else .ok signer
        else .error (.error "Different nonce")) ∧
    (∀ msg callee static g (c : ChainConf χ) sig1 sig2 hub,
      (run (machine E O) callee static
          (penalizeRepeatedNonce E msg tx₁.encode sig1 tx₂.encode sig2 hub) g c).value = .ok () →
      tx₁.transaction.nonce = tx₂.transaction.nonce ∧
        ¬ SameAction tx₁.transaction tx₂.transaction) := by
  refine ⟨⟨fun st => RLPReader.decodeTransaction_encode tx₁ h₁ st,
    fun st => RLPReader.decodeTransaction_encode tx₂ h₂ st⟩, hhash.iff, ?_, ?_⟩
  · intro msg callee static g c hgas hfree₁ hfree₂
    rw [checkOffence_encode h₁ h₂ hsigned hhash]
    have hcost : ¬ g < (machine E O).cost c.state g := Nat.not_lt.mpr hgas
    simp only [storage, Prog.get, Prog.bind, run, if_neg hcost, hfree₁, Bool.false_eq_true,
      false_and, if_false]
    rw [← verdict]
    cases verdict tx₁.transaction tx₂.transaction signer <;> rfl
  · intro msg callee static g c sig1 sig2 hub h
    unfold penalizeRepeatedNonce at h
    simp only [Prog.bind_eq] at h
    obtain ⟨-, -, h⟩ := run_bind_ok _ _ _ h
    obtain ⟨a, ha, -⟩ := run_bind_ok _ _ _ h
    exact offence_of_checked h₁ h₂ ha

/-! Two transactions of one worker with one nonce: the second has a chain id, another gas
price, and data. -/

def worker : Address := 0x7e5f4552091a69125d5dfcb7b8c2659029395bdf

def plainTx : UnsignedTx := ⟨⟨7, 1, 21000, 0x0d, 5, []⟩, none⟩

def dataTx : UnsignedTx := ⟨⟨7, 2, 21000, 0x0d, 5, [0x0b]⟩, some 33⟩

def plainSignature : Bytes :=
  wordBytes 0xca617c2d484186cc3ece27ba79ce1d349c7952d10c464e9a6d949bdb3632ae6a ++
    wordBytes 0x47da0a365d3d6db6c2c200f2b91a98caadbf3d198748d4eb25d02a0f9c11c759 ++ [0x1b]

def dataSignature : Bytes :=
  wordBytes 0x70709381a33178134f2d7a5903d6758a4f89f1b554a81f1b43d660e5516b0131 ++
    wordBytes 0x58c4a70e84a55815457fc5a9099cd6c2883894898ce7512c11736f4f65c7b032 ++ [0x1c]

def plainHash : Word := 0x4241525ef44c43cc09c0a31473bb2e3881163b11ab55f11209684d64e2a66611

def dataHash : Word := 0xfe47c9816f25e9c6e2a69d72ab38f3b6c8b5ba719a329c1350e16815a48dc1ed

def pairHashes : List (Bytes × Word) :=
  [(plainTx.encode, plainHash), (dataTx.encode, dataHash),
    (dataToCheck plainTx.transaction,
      0xd08e34ee8e3c5c4215962f5b08e0b720ac9a05084387b46a74a2ec58cb4b52ec),
    (dataToCheck dataTx.transaction,
      0x070f16548674451f499486f646ebcb1cd2b57f2156845b12042107f553eba136)]

def pairSigners : List ((Word × Bytes) × Address) :=
  [((plainHash, plainSignature), worker), ((dataHash, dataSignature), worker)]

def pairEnv : Env :=
  Env.ofKeys (hashTable pairHashes) (recoverTable pairSigners) .other [worker, 0x0a, 0x0c, 0x0d]

theorem pair_signed :
    SignedPair pairEnv plainTx dataTx plainSignature dataSignature worker where
  first := by decide
  second := by decide
  key := by decide

theorem pair_separated : HashSeparates pairEnv plainTx.transaction dataTx.transaction := by
  have hne : pairEnv.keccak256 (dataToCheck plainTx.transaction) ≠
      pairEnv.keccak256 (dataToCheck dataTx.transaction) := by decide
  exact Set.injOn_pair.mpr fun h => absurd h hne

theorem plainTx_encodable : plainTx.Encodable := by
  unfold UnsignedTx.Encodable
  decide

theorem dataTx_encodable : dataTx.Encodable := by
  unfold UnsignedTx.Encodable
  decide

/-- The report of the pair to the penalizer at `0xbb` by the account `0x0c`. -/
def pairReport (hub : Address) : Msg :=
  ⟨.call, 0x0c, 0xbb, 0xbb, 0,
    .penalizeRepeatedNonce plainTx.encode plainSignature dataTx.encode dataSignature hub,
    ⟨0x0c, 1, 10⟩⟩

/-- On a new chain the pair passes the checks. -/
theorem penalizeRepeatedNonce_decides_pair :
    (run (machine pairEnv (Outside.silent pairEnv))
        (exec (machine pairEnv (Outside.silent pairEnv)) 8) false
        (checkOffence pairEnv (pairReport 0xaa) plainTx.encode plainSignature dataTx.encode
          dataSignature) 100
        (Conf.start (World.ofContracts 0x0a 5000 fun _ => none))).value = .ok worker := by
  obtain ⟨-, -, hvalue, -⟩ := penalizeRepeatedNonce_decides (Outside.silent pairEnv)
    plainTx_encodable dataTx_encodable pair_signed pair_separated
  exact hvalue _ _ _ _ _ (Nat.zero_le _) rfl rfl

end Penalizer

end RifRelay
