import RifRelay.Server.Boosts
import Mathlib.Data.Finset.Max

set_option autoImplicit false

/-! # Confirmed transactions

`removeConfirmedTransactions` goes through the documents in the order of their nonces. The
receipt of one makes it remove all documents of the signer up to that nonce. What is removed is
settled (`removed_settled`), but the document has the hash of the last attempt only: when an
earlier one is mined there is no receipt, and the document stays (`removed_completely_iff`).
-/

namespace RifRelay.Server

open EventLoop TransactionManager TxStoreManager

variable {ν ω : Type}

/-! ## The chain that the node sees -/

/-- One chain: the block in which a transaction was mined, and the account nonces after a
block. -/
structure ChainView where
  minedAt : SignedTransaction → Option Nat
  nonceAt : Address → Int → Nat
  unique : ∀ tx tx', (minedAt tx).isSome → (minedAt tx').isSome → tx.signer = tx'.signer →
    tx.transaction.nonce = tx'.transaction.nonce → tx = tx'
  counts : ∀ signer block n, n < nonceAt signer block ↔ ∃ tx b, tx.signer = signer ∧
    tx.transaction.nonce = n ∧ minedAt tx = some b ∧ (b : Int) ≤ block

/-- The last block that has the confirmations needed. -/
def confirmedBlock (cfg : Config) (height : Nat) : Int := (height : Int) - cfg.confirmationsNeeded

/-- A transaction of `signer` with this nonce, or with a later one, has the confirmations. -/
def ChainView.Settled (c : ChainView) (cfg : Config) (height : Nat) (key : NonceSigner) : Prop :=
  ∃ tx b, tx.signer = key.signer ∧ key.nonce ≤ tx.transaction.nonce ∧ c.minedAt tx = some b ∧
    (b : Int) ≤ confirmedBlock cfg height

theorem ChainView.Settled.lt_nonceAt {c : ChainView} {cfg : Config} {height : Nat}
    {key : NonceSigner} (h : c.Settled cfg height key) :
    key.nonce < c.nonceAt key.signer (confirmedBlock cfg height) := by
  obtain ⟨tx, b, hsigner, hle, hmined, hb⟩ := h
  exact lt_of_le_of_lt hle ((c.counts _ _ _).mpr ⟨tx, b, hsigner, rfl, hmined, hb⟩)

/-- The document is that of a known transaction. -/
def SignedDoc (cfg : Config) (known : Set SignedTransaction) (d : StoredTransaction) : Prop :=
  ∃ tx ∈ known, cfg.hash tx = d.txId ∧ tx.signer = d.from ∧ tx.transaction.nonce = d.nonce

/-- The node tells the receipts of the chain, and hashes tell the known transactions apart. -/
structure ChainView.Seen (c : ChainView) (cfg : Config) (N : Node ν ω)
    (known : Set SignedTransaction) : Prop where
  hash_inj : Set.InjOn cfg.hash known
  receipts : ∀ m txId receipt, N.answers m (.getTransaction txId) (some receipt) →
    ∃ tx ∈ known, cfg.hash tx = txId ∧ receipt.from = tx.signer ∧
      receipt.nonce = tx.transaction.nonce ∧ ∀ b, receipt.blockNumber = some b →
        c.minedAt tx = some b

/-- It tells the receipts of all transactions that were mined up to a block. -/
def ChainView.Complete (c : ChainView) (cfg : Config) (N : Node ν ω)
    (known : Set SignedTransaction) (height : Nat) : Prop :=
  ∀ m, ∀ tx ∈ known, ∀ b ≤ height, c.minedAt tx = some b →
    ∀ a, N.answers m (.getTransaction (cfg.hash tx)) a →
      a = some ⟨some b, tx.signer, tx.transaction.nonce⟩

/-! ## What a pass makes of the documents -/

/-- A document without the block in which it was mined. -/
def StoredTransaction.unmined (d : StoredTransaction) : StoredTransaction :=
  { d with minedBlockNumber := none }

theorem nonceSigner_of_unmined {d d' : StoredTransaction} (h : d.unmined = d'.unmined) :
    d.nonceSigner = d'.nonceSigner := by
  show d.unmined.nonceSigner = d'.unmined.nonceSigner
  rw [h]

theorem covers_iff {key : NonceSigner} {d : StoredTransaction} :
    key.covers d = true ↔ d.from = key.signer ∧ d.nonce ≤ key.nonce := by
  unfold NonceSigner.covers
  rw [Bool.and_eq_true, beq_iff_eq, decide_eq_true_eq]

theorem covers_of_unmined {key : NonceSigner} {d d' : StoredTransaction}
    (h : d.unmined = d'.unmined) : key.covers d = key.covers d' := by
  show key.covers d.unmined = key.covers d'.unmined
  rw [h]

/-- The keys up to which documents were removed. -/
def removed (l : Exchanges) : List NonceSigner :=
  l.filterMap fun
    | ⟨.remove key, .ok _⟩ => some key
    | _ => none

@[simp] theorem removed_append (l l' : Exchanges) : removed (l ++ l') = removed l ++ removed l' :=
  List.filterMap_append

/-- A document is added. -/
def Question.inserts (q : Question) : Bool :=
  match q with
  | .insert _ => true
  | _ => false

/-- The documents up to `keys` were removed, and none was added. -/
structure Removes (l : Exchanges) (keys : List NonceSigner) : Prop where
  removed : removed l = keys
  inserts : ∀ x ∈ l, x.1.inserts = false

theorem Removes.append {l l' : Exchanges} {keys keys' : List NonceSigner} (h : Removes l keys)
    (h' : Removes l' keys') : Removes (l ++ l') (keys ++ keys') where
  removed := by rw [removed_append, h.removed, h'.removed]
  inserts := List.forall_mem_append.mpr ⟨h.inserts, h'.inserts⟩

/-- What is asked neither removes documents nor adds any. -/
def Preserves : Exchange Question Answer → Prop
  | ⟨.remove _, _⟩ => False
  | ⟨.insert _, _⟩ => False
  | _ => True

theorem Preserves.of_isUpdate {q : Question} (h : q.isUpdate = true)
    (a : Except String (Answer q)) : Preserves ⟨q, a⟩ := by
  cases q with
  | insert tx => cases h
  | remove key => cases h
  | _ => trivial

theorem removes_of_preserves {l : Exchanges} (h : ∀ x ∈ l, Preserves x) : Removes l [] where
  removed := by
    refine List.filterMap_eq_nil_iff.mpr fun ⟨q, a⟩ hx => ?_
    cases q with
    | remove key => exact (h _ hx).elim
    | _ => rfl
  inserts x hx := by
    obtain ⟨q, a⟩ := x
    cases q with
    | insert tx => exact (h _ hx).elim
    | _ => rfl

variable {F : StoredTransaction → Prop} {s s' s'' : List StoredTransaction}
  {keys keys' : List NonceSigner}

/-- From `store` to `store'` the documents up to `keys` were removed. Of the others only the
block in which they were mined was written, and what was added satisfies `F`. -/
structure Passed (F : StoredTransaction → Prop) (keys : List NonceSigner)
    (store store' : List StoredTransaction) : Prop where
  indexed : Indexed store'
  kept : ∀ d ∈ store, (∃ key ∈ keys, key.covers d = true) ∨ ∃ d' ∈ store', d'.unmined = d.unmined
  added : ∀ d' ∈ store', (∃ d ∈ store, d'.unmined = d.unmined ∧
    ∀ key ∈ keys, key.covers d = false) ∨ ∃ d, F d ∧ d'.unmined = d.unmined

theorem Passed.of_grown (h : Grown F s s') : Passed F [] s s' where
  indexed := h.indexed
  kept d hd := Or.inr ⟨d, h.kept d hd, rfl⟩
  added d hd := (h.added d hd).imp (fun hold => ⟨d, hold, rfl, List.forall_mem_nil _⟩)
    fun hF => ⟨d, hF, rfl⟩

theorem Passed.trans (h : Passed F keys s s') (h' : Passed F keys' s' s'') :
    Passed F (keys ++ keys') s s'' where
  indexed := h'.indexed
  kept d hd := by
    rcases h.kept d hd with ⟨key, hkey, hcovers⟩ | ⟨d', hd', heq⟩
    · exact Or.inl ⟨key, List.mem_append_left _ hkey, hcovers⟩
    · rcases h'.kept d' hd' with ⟨key, hkey, hcovers⟩ | ⟨d'', hd'', heq'⟩
      · rw [covers_of_unmined heq] at hcovers
        exact Or.inl ⟨key, List.mem_append_right _ hkey, hcovers⟩
      · exact Or.inr ⟨d'', hd'', heq'.trans heq⟩
  added d'' hd'' := by
    rcases h'.added d'' hd'' with ⟨d', hd', heq', hnot'⟩ | ⟨d, hF, heq⟩
    · rcases h.added d' hd' with ⟨d, hd, heq, hnot⟩ | ⟨d, hF, heq⟩
      · refine Or.inl ⟨d, hd, heq'.trans heq, fun key hkey => ?_⟩
        rcases List.mem_append.mp hkey with hkey | hkey
        · exact hnot key hkey
        · rw [← covers_of_unmined heq]
          exact hnot' key hkey
      · exact Or.inr ⟨d, hF, heq'.trans heq⟩
    · exact Or.inr ⟨d, hF, heq⟩

theorem Passed.grown (h : Passed F keys s s') (h' : Grown F s' s'') : Passed F keys s s'' := by
  have hboth := h.trans (.of_grown h')
  rwa [List.append_nil] at hboth

theorem Grown.passed (h : Grown F s s') (h' : Passed F keys s' s'') : Passed F keys s s'' :=
  (Passed.of_grown h).trans h'

theorem Passed.of_remove (hs : Indexed s) (key : NonceSigner) :
    Passed F [key] s (s.filter fun doc => !key.covers doc) where
  indexed := hs.filter _
  kept d hd := by
    by_cases hcovers : key.covers d = true
    · exact Or.inl ⟨key, List.mem_singleton_self _, hcovers⟩
    · exact Or.inr ⟨d, List.mem_filter.mpr ⟨hd, by simpa using hcovers⟩, rfl⟩
  added d hd := by
    obtain ⟨hold, hnot⟩ := List.mem_filter.mp hd
    refine Or.inl ⟨d, hold, rfl, fun key' hkey' => ?_⟩
    rw [List.mem_singleton.mp hkey']
    simpa using hnot

theorem Passed.of_replaced {tx doc : StoredTransaction} (hs : Indexed s) (hdoc : doc ∈ s)
    (hsame : tx.unmined = doc.unmined) (h : Replaced F tx s s') : Passed F [] s s' where
  indexed := h.indexed
  kept d hd := by
    refine Or.inr ?_
    by_cases hkey : d.nonceSigner = tx.nonceSigner
    · obtain rfl : d = doc := hs.eq_of_key hd hdoc (hkey.trans (nonceSigner_of_unmined hsame))
      exact ⟨tx, h.put, hsame⟩
    · exact ⟨d, h.kept d hd hkey, rfl⟩
  added d hd := by
    rcases h.added d hd with rfl | ⟨hold, -⟩ | hF
    · exact Or.inl ⟨doc, hdoc, hsame, List.forall_mem_nil _⟩
    · exact Or.inl ⟨d, hold, rfl, List.forall_mem_nil _⟩
    · exact Or.inr ⟨d, hF, rfl⟩

/-! ## One turn of the loop -/

variable {N : Node ν ω} {i : ℕ} {m : Memory ν} {cfg : Config} {known : Set SignedTransaction}
  {c : ChainView} {height : Nat} {tx : StoredTransaction}

/-- The receipt of the transaction is asked for. -/
def Rechecks (cfg : Config) (height : Nat) (tx : StoredTransaction) : Prop :=
  tx.minedBlockNumber.all (fun mined => (height : Int) - mined ≥ cfg.confirmationsNeeded) = true

instance (cfg : Config) (height : Nat) (tx : StoredTransaction) :
    Decidable (Rechecks cfg height tx) := inferInstanceAs (Decidable (_ = _))

/-- It is asked for, and it is that of a transaction which has the confirmations. -/
def ChainView.Confirms (c : ChainView) (cfg : Config) (known : Set SignedTransaction)
    (height : Nat) (tx : StoredTransaction) : Prop :=
  Rechecks cfg height tx ∧ ∃ signedTx ∈ known, cfg.hash signedTx = tx.txId ∧
    ∃ b, c.minedAt signedTx = some b ∧ (b : Int) ≤ confirmedBlock cfg height

/-- What is removed has the confirmations: in the block of the receipt, or in that of the
document, which was asked for. -/
theorem confirmed_of_rechecks (hrecheck : Rechecks cfg height tx) {minedBlock : Nat}
    (henough : ¬ (some minedBlock ≠ tx.minedBlockNumber ∧
      (height : Int) - minedBlock < cfg.confirmationsNeeded)) :
    (minedBlock : Int) ≤ confirmedBlock cfg height := by
  unfold confirmedBlock
  by_cases hsame : some minedBlock = tx.minedBlockNumber
  · have hle : (cfg.confirmationsNeeded : Int) ≤ (height : Int) - minedBlock := by
      simpa [Rechecks, ← hsame] using hrecheck
    omega
  · have hle : ¬ (height : Int) - minedBlock < cfg.confirmationsNeeded :=
      fun hlt => henough ⟨hsame, hlt⟩
    omega

/-- The transaction whose receipt the node tells is that of the document. -/
theorem ChainView.Seen.receipt (h : c.Seen cfg N known) (hdoc : SignedDoc cfg known tx)
    {receipt : Receipt} (hreceipt : N.answers m (.getTransaction tx.txId) (some receipt)) :
    receipt.from = tx.from ∧ receipt.nonce = tx.nonce ∧ ∃ signedTx ∈ known,
      cfg.hash signedTx = tx.txId ∧ ∀ b, receipt.blockNumber = some b →
        c.minedAt signedTx = some b := by
  obtain ⟨signedTx, hknown, hhash, hfrom, hnonce, hmined⟩ := h.receipts m _ _ hreceipt
  obtain ⟨signedTx', hknown', hhash', hfrom', hnonce'⟩ := hdoc
  obtain rfl : signedTx = signedTx' := h.hash_inj hknown hknown' (hhash.trans hhash'.symm)
  exact ⟨hfrom.trans hfrom', hnonce.trans hnonce', signedTx, hknown, hhash, hmined⟩

/-- A confirmed document settles its key. -/
theorem ChainView.Confirms.settled (h : c.Confirms cfg known height tx)
    (hknown : Set.InjOn cfg.hash known) (hdoc : SignedDoc cfg known tx) :
    c.Settled cfg height tx.nonceSigner := by
  obtain ⟨-, signedTx, hin, hhash, b, hmined, hb⟩ := h
  obtain ⟨signedTx', hin', hhash', hfrom, hnonce⟩ := hdoc
  obtain rfl : signedTx = signedTx' := hknown hin hin' (hhash.trans hhash'.symm)
  exact ⟨signedTx, b, hfrom, hnonce.ge, hmined, hb⟩

/-- What one turn of the loop did, and whether it came to its end. -/
structure Turned (c : ChainView) (cfg : Config) (N : Node ν ω) (known : Set SignedTransaction)
    (height : Nat) (F : StoredTransaction → Prop) (txs store : List StoredTransaction)
    (l : Exchanges) (ended : Prop) (store' : List StoredTransaction) : Prop where
  passed : Passed F (removed l) store store'
  inserts : ∀ x ∈ l, x.1.inserts = false
  confirmed : ∀ key ∈ removed l, ∃ tx ∈ txs, key = tx.nonceSigner ∧ c.Confirms cfg known height tx
  all : ended → c.Complete cfg N known height → ∀ tx ∈ txs, c.Confirms cfg known height tx →
    tx.nonceSigner ∈ removed l

theorem Turned.none {l : Exchanges} {ended : Prop} (h : Passed F [] s s') (hl : Removes l [])
    (hnot : ended → c.Complete cfg N known height → ¬ c.Confirms cfg known height tx) :
    Turned c cfg N known height F [tx] s l ended s' where
  passed := hl.removed ▸ h
  inserts := hl.inserts
  confirmed key hkey := by
    rw [hl.removed] at hkey
    cases hkey
  all hended hcomplete tx' htx' hconfirms := by
    obtain rfl := List.mem_singleton.mp htx'
    exact (hnot hended hcomplete hconfirms).elim

theorem Turned.one {l : Exchanges} {ended : Prop} (h : Passed F [tx.nonceSigner] s s')
    (hl : Removes l [tx.nonceSigner]) (hconfirms : c.Confirms cfg known height tx) :
    Turned c cfg N known height F [tx] s l ended s' where
  passed := hl.removed ▸ h
  inserts := hl.inserts
  confirmed key hkey := by
    rw [hl.removed, List.mem_singleton] at hkey
    exact ⟨tx, List.mem_singleton_self _, hkey, hconfirms⟩
  all _ _ tx' htx' _ := by
    obtain rfl := List.mem_singleton.mp htx'
    rw [hl.removed]
    exact List.mem_singleton_self _

theorem Does.removes {α : Type} {W : Surroundings (Memory ν) Question Answer}
    {p : Handler ν α} {Φ : Except String α → Memory ν → Prop} (h : Does W p m Preserves Φ) :
    Ensures W p m fun l r m' => Removes l [] ∧ Φ r m' :=
  Ensures.mono h fun _ _ _ hl => ⟨removes_of_preserves hl.1, hl.2⟩

theorem getTransaction_ensures (hm : Indexed m.txstore) (txId : Word) :
    Ensures (outside N i (Adds F)) (ask (.getTransaction txId)) m fun l r m' =>
      Removes l [] ∧ Grown F m.txstore m'.txstore ∧
        ∀ a : Option Receipt, r = (.ok a : Except String (Answer (.getTransaction txId))) →
          ∃ m₁, N.answers m₁ (.getTransaction txId) a := by
  refine Does.removes (does_await fun m₁ a m₂ hasked hreply hresumed => ⟨trivial, ?_, ?_⟩)
  · exact grown_effect hm rfl hasked hresumed
  · rintro receipt rfl
    exact ⟨m₁, hreply.2 rfl⟩

theorem updateTransactionWithMinedBlock_ensures (hm : Indexed m.txstore)
    {doc : StoredTransaction} (hdoc : doc ∈ m.txstore) (hsame : tx.unmined = doc.unmined)
    (minedBlock : Nat) :
    Ensures (outside N i (Adds F)) (awaiting .updateTransactionWithMinedBlock
      (updateTransactionWithMinedBlock cfg tx minedBlock)) m fun l _ m' =>
        Removes l [] ∧ Passed F [] m.txstore m'.txstore := by
  have hkey : doc.nonceSigner = tx.nonceSigner := (nonceSigner_of_unmined hsame).symm
  have hput : Does (outside N i (Adds F))
      (putTx cfg { tx with minedBlockNumber := some minedBlock } true) m
      Preserves fun _ m' => Passed F [] m.txstore m'.txstore := by
    refine Does.mono (putTx_does (fun _ a hq => .of_isUpdate hq a) hm hdoc hkey) fun r m' h => ?_
    cases r with
    | ok _ =>
        have hwritten : ({ tx with minedBlockNumber := some minedBlock } :
            StoredTransaction).unmined = doc.unmined := hsame
        exact .of_replaced hm hdoc hwritten h
    | error _ => exact .of_grown h
  refine Does.removes (does_awaiting (does_awaiting hput ?_ ?_) ?_ ?_)
  all_goals first
    | exact fun _ => trivial
    | exact fun _ _ _ h hadds => h.grown (hadds.grown h.indexed)

theorem removeTxsUntilNonce_ensures (hm : Indexed m.txstore) (signer : Address) (nonce : Nat) :
    Ensures (outside N i (Adds F)) (awaiting .removeTxsUntilNonce
      (removeTxsUntilNonce signer nonce)) m fun l r m' =>
        ((∃ a, r = .ok a) ∧ Removes l [⟨nonce, signer⟩] ∧
          Passed F [⟨nonce, signer⟩] m.txstore m'.txstore) ∨
        ((∃ e, r = .error e) ∧ Removes l [] ∧ Passed F [] m.txstore m'.txstore) := by
  refine (ensures_ask _ _).mpr fun m₁ a m₂ hasked _ hresumed => ?_
  refine (ensures_ask _ _).mpr fun m₃ _ m₄ hasked' _ hresumed' => (ensures_done _).mpr ?_
  have h₁ : Grown F m.txstore m₁.txstore := hasked.grown hm
  have hinserts {q q' : Question} (hq : q.inserts = false) (hq' : q'.inserts = false)
      {b : Except String (Answer q)} {b' : Except String (Answer q')} :
      ∀ x ∈ ([⟨q, b⟩, ⟨q', b'⟩] : Exchanges), x.1.inserts = false :=
    List.forall_mem_cons.mpr ⟨hq, List.forall_mem_singleton.mpr hq'⟩
  have hlater {keys : List NonceSigner} (h : Passed F keys m₁.txstore
      ((outside N i (Adds F)).effect m₁ (.remove ⟨nonce, signer⟩) a).txstore) :
      Passed F keys m.txstore m₄.txstore := by
    have h₂ := h.grown (hresumed.grown h.indexed)
    have h₃ := h₂.grown (hasked'.grown h₂.indexed)
    exact h₁.passed (h₃.grown (hresumed'.grown h₃.indexed))
  cases a with
  | ok _ => exact Or.inl ⟨⟨_, rfl⟩, ⟨rfl, hinserts rfl rfl⟩, hlater (.of_remove h₁.indexed _)⟩
  | error e =>
      exact Or.inr ⟨⟨e, rfl⟩, ⟨rfl, hinserts rfl rfl⟩, hlater (.of_grown (Grown.refl h₁.indexed))⟩

/-- A confirmed document's receipt has a block: the node tells it. -/
theorem ChainView.Confirms.receipt (h : c.Confirms cfg known height tx)
    (hcomplete : c.Complete cfg N known height) {a : Option Receipt}
    (hanswers : N.answers m (.getTransaction tx.txId) a) :
    ∃ receipt b, a = some receipt ∧ receipt.blockNumber = some b ∧
      (b : Int) ≤ confirmedBlock cfg height := by
  obtain ⟨-, signedTx, hknown, hhash, b, hmined, hb⟩ := h
  have hle : b ≤ height := by
    unfold confirmedBlock at hb
    omega
  have ha := hcomplete m signedTx hknown b hle hmined a (hhash ▸ hanswers)
  exact ⟨_, b, ha, rfl, hb⟩

theorem removeIfConfirmed_ensures (hseen : c.Seen cfg N known) (htx : SignedDoc cfg known tx)
    (hm : Indexed m.txstore) {doc : StoredTransaction} (hdoc : doc ∈ m.txstore)
    (hsame : tx.unmined = doc.unmined) :
    Ensures (outside N i (Adds F)) (removeIfConfirmed cfg height tx) m fun l r m' =>
      Turned c cfg N known height F [tx] m.txstore l (∃ a, r = .ok a) m'.txstore := by
  refine ensures_ite.mpr ⟨fun hrecheck => ?_, fun hnot => ?_⟩
  · refine (getTransaction_ensures hm tx.txId).next ?_ ?_
    · rintro l₁ receipt m₁ ⟨hl₁, hgrown, hreceipt⟩
      obtain ⟨m₀, hanswers⟩ := hreceipt receipt rfl
      have hnone : Passed F [] m.txstore m₁.txstore := .of_grown hgrown
      have hnothing : Removes [] [] := ⟨rfl, List.forall_mem_nil _⟩
      cases receipt with
      | none =>
          refine (ensures_done _).mpr (.none hnone (hl₁.append hnothing) ?_)
          intro _ hcomplete hconfirms
          obtain ⟨receipt, b, heq, -⟩ := hconfirms.receipt hcomplete hanswers
          cases heq
      | some receipt =>
          obtain ⟨blockNumber, signer, nonce⟩ := receipt
          obtain ⟨rfl, rfl, signedTx, hknown, hhash, hmined⟩ := hseen.receipt htx hanswers
          cases blockNumber with
          | none =>
              refine (ensures_done _).mpr (.none hnone (hl₁.append hnothing) ?_)
              intro _ hcomplete hconfirms
              obtain ⟨receipt, b, heq, hblock, -⟩ := hconfirms.receipt hcomplete hanswers
              obtain rfl := Option.some.inj heq
              cases hblock
          | some minedBlock =>
              refine ensures_ite.mpr ⟨fun hfew => ?_, fun henough => ?_⟩
              · -- too few confirmations
                refine (updateTransactionWithMinedBlock_ensures hgrown.indexed
                  (hgrown.kept doc hdoc) hsame minedBlock).mono ?_
                rintro l₂ r m₂ ⟨hl₂, hpassed⟩
                refine .none (hgrown.passed hpassed) (hl₁.append hl₂) ?_
                intro _ hcomplete hconfirms
                obtain ⟨receipt, b, heq, hblock, hb⟩ := hconfirms.receipt hcomplete hanswers
                obtain rfl := Option.some.inj heq
                obtain rfl := Option.some.inj hblock
                unfold confirmedBlock at hb
                have hlt := hfew.2
                omega
              -- the block of the receipt is confirmed
              · have hb : (minedBlock : Int) ≤ confirmedBlock cfg height :=
                  confirmed_of_rechecks hrecheck henough
                have hconfirms : c.Confirms cfg known height tx :=
                  ⟨hrecheck, signedTx, hknown, hhash, minedBlock, hmined minedBlock rfl, hb⟩
                refine (removeTxsUntilNonce_ensures hgrown.indexed tx.from tx.nonce).mono ?_
                rintro l₂ r m₂ (⟨-, hl₂, hpassed⟩ | ⟨⟨e, rfl⟩, hl₂, hpassed⟩)
                · exact .one (hgrown.passed hpassed) (hl₁.append hl₂) hconfirms
                · exact .none (hgrown.passed hpassed) (hl₁.append hl₂) fun ⟨_, ha⟩ => by cases ha
    · rintro l₁ e m₁ ⟨hl₁, hgrown, -⟩
      exact .none (.of_grown hgrown) hl₁ fun ⟨_, ha⟩ => by cases ha
  · refine (ensures_done _).mpr (.none (.of_grown (Grown.refl hm)) ⟨rfl, List.forall_mem_nil _⟩ ?_)
    exact fun _ _ hconfirms => hnot hconfirms.1

/-! ## The loop -/

theorem Turned.cons {rest : List StoredTransaction} {l l' : Exchanges} {ended ended' : Prop}
    (h : Turned c cfg N known height F [tx] s l ended s')
    (h' : Turned c cfg N known height F rest s' l' ended' s'') {finished : Prop}
    (hfinished : finished → ended ∧ ended') :
    Turned c cfg N known height F (tx :: rest) s (l ++ l') finished s'' where
  passed := by
    rw [removed_append]
    exact h.passed.trans h'.passed
  inserts := List.forall_mem_append.mpr ⟨h.inserts, h'.inserts⟩
  confirmed key hkey := by
    rw [removed_append] at hkey
    rcases List.mem_append.mp hkey with hkey | hkey
    · obtain ⟨tx', htx', hconfirms⟩ := h.confirmed key hkey
      exact ⟨tx', List.mem_cons.mpr (Or.inl (List.mem_singleton.mp htx')), hconfirms⟩
    · obtain ⟨tx', htx', hconfirms⟩ := h'.confirmed key hkey
      exact ⟨tx', List.mem_cons_of_mem _ htx', hconfirms⟩
  all ho hcomplete tx' htx' hconfirms := by
    rw [removed_append]
    rcases List.mem_cons.mp htx' with rfl | htx'
    · exact List.mem_append_left _
        (h.all (hfinished ho).1 hcomplete _ (List.mem_singleton_self _) hconfirms)
    · exact List.mem_append_right _ (h'.all (hfinished ho).2 hcomplete tx' htx' hconfirms)

theorem Turned.after {txs : List StoredTransaction} {l l' : Exchanges} {ended : Prop}
    (h : Turned c cfg N known height F txs s' l' ended s'') (hgrown : Grown F s s')
    (hl : Removes l []) : Turned c cfg N known height F txs s (l ++ l') ended s'' where
  passed := by
    rw [removed_append, hl.removed]
    exact hgrown.passed h.passed
  inserts := List.forall_mem_append.mpr ⟨hl.inserts, h.inserts⟩
  confirmed := by
    rw [removed_append, hl.removed]
    exact h.confirmed
  all := by
    rw [removed_append, hl.removed]
    exact h.all

/-- In a list by nonces, none of the others is removed with `tx`. -/
theorem not_covers_of_sorted {rest : List StoredTransaction} {d : StoredTransaction}
    (hsorted : ∀ d ∈ rest, tx.nonce ≤ d.nonce)
    (hkeys : tx.nonceSigner ∉ rest.map (·.nonceSigner)) (hd : d ∈ rest) :
    ¬ tx.nonceSigner.covers d = true := by
  intro hcovers
  obtain ⟨hfrom, hle⟩ := covers_iff.mp hcovers
  refine hkeys (List.mem_map.mpr ⟨d, hd, ?_⟩)
  show (⟨d.nonce, d.from⟩ : NonceSigner) = ⟨tx.nonce, tx.from⟩
  rw [hfrom, le_antisymm hle (hsorted d hd)]
  rfl

theorem removeAll_ensures (hseen : c.Seen cfg N known) (txs : List StoredTransaction)
    (hsigned : ∀ tx ∈ txs, SignedDoc cfg known tx) (hm : Indexed m.txstore)
    (hstore : ∀ tx ∈ txs, ∃ doc ∈ m.txstore, doc.unmined = tx.unmined)
    (hsorted : txs.Pairwise fun d d' => d.nonce ≤ d'.nonce)
    (hkeys : (txs.map (·.nonceSigner)).Nodup) :
    Ensures (outside N i (Adds F)) (Async.each (removeIfConfirmed cfg height) txs) m
      fun l r m' => Turned c cfg N known height F txs m.txstore l (∃ a, r = .ok a) m'.txstore := by
  induction txs generalizing m with
  | nil =>
      refine (ensures_done _).mpr ⟨.of_grown (Grown.refl hm), List.forall_mem_nil _, ?_, ?_⟩
      · exact List.forall_mem_nil _
      · exact fun _ _ => List.forall_mem_nil _
  | cons tx rest ih =>
      obtain ⟨doc, hdoc, hsame⟩ := hstore tx List.mem_cons_self
      obtain ⟨hle, hsorted'⟩ := List.pairwise_cons.mp hsorted
      rw [List.map_cons, List.nodup_cons] at hkeys
      refine (removeIfConfirmed_ensures hseen (hsigned tx List.mem_cons_self) hm hdoc
        hsame.symm).next ?_ ?_
      · intro l₁ _ m₁ h
        -- the documents of the rest are still there
        have hstore' (tx' : StoredTransaction) (htx' : tx' ∈ rest) :
            ∃ d ∈ m₁.txstore, d.unmined = tx'.unmined := by
          obtain ⟨d, hd, heq⟩ := hstore tx' (List.mem_cons_of_mem _ htx')
          rcases h.passed.kept d hd with ⟨key, hkey, hcovers⟩ | ⟨d', hd', heq'⟩
          · obtain ⟨tx'', htx'', rfl, -⟩ := h.confirmed key hkey
            obtain rfl := List.mem_singleton.mp htx''
            rw [covers_of_unmined heq] at hcovers
            exact (not_covers_of_sorted hle hkeys.1 htx' hcovers).elim
          · exact ⟨d', hd', heq'.trans heq⟩
        refine (ih (fun tx' htx' => hsigned tx' (List.mem_cons_of_mem _ htx')) h.passed.indexed
          hstore' hsorted' hkeys.2).mono fun l₂ r m₂ h' => ?_
        exact h.cons h' fun hended => ⟨⟨_, rfl⟩, hended⟩
      · intro l₁ e m₁ h
        have hstop : Turned c cfg N known height F rest m₁.txstore [] False m₁.txstore :=
          ⟨.of_grown (Grown.refl h.passed.indexed), List.forall_mem_nil _, List.forall_mem_nil _,
            False.elim⟩
        rw [← List.append_nil l₁]
        exact h.cons hstop fun ⟨_, ha⟩ => by cases ha

/-- What a pass did: there was no list of the documents, or it went through all of them. -/
theorem removeConfirmedTransactions_ensures (hseen : c.Seen cfg N known) (hm : Indexed m.txstore)
    (hstore : ∀ d ∈ m.txstore, SignedDoc cfg known d) (hF : ∀ d, F d → SignedDoc cfg known d) :
    Ensures (outside N i (Adds F)) (removeConfirmedTransactions cfg height) m fun l r m' =>
      ((∃ e, r = .error e) ∧ Removes l [] ∧ Grown F m.txstore m'.txstore) ∨
      ∃ s txs, Grown F m.txstore s ∧ Listing (fun _ => True) s txs ∧
        Turned c cfg N known height F txs s l (∃ a, r = .ok a) m'.txstore := by
  have hlist := Does.removes (getAll_does (N := N) (i := i) (F := F) (P := Preserves)
    (fun _ a hq => .of_isUpdate hq a) hm)
  refine hlist.next ?_ ?_
  · rintro l₁ txs m₁ ⟨hl₁, h⟩
    obtain ⟨s, hs, hs', hlisting⟩ := h.2 txs rfl
    have hin (tx : StoredTransaction) (htx : tx ∈ txs) : tx ∈ s := ((hlisting.mem tx).mp htx).1
    have hsigned (tx : StoredTransaction) (htx : tx ∈ txs) : SignedDoc cfg known tx :=
      (hs.added tx (hin tx htx)).elim (hstore tx) (hF tx)
    refine (removeAll_ensures hseen txs hsigned hs'.indexed (fun tx htx => ?_) hlisting.sorted
      hlisting.indexed.keys).mono fun l₂ r m₂ hturned => Or.inr ⟨s, txs, hs, hlisting, ?_⟩
    · exact ⟨tx, hs'.kept tx (hin tx htx), rfl⟩
    · exact hturned.after hs' hl₁
  · rintro l e m₁ ⟨hl, h⟩
    exact Or.inl ⟨⟨e, rfl⟩, hl, h.1⟩

/-! ## The boosting after it -/

/-- From `store` to `store'` no key was added, but those of `F`. -/
structure Rekeyed (F : StoredTransaction → Prop) (store store' : List StoredTransaction) :
    Prop where
  indexed : Indexed store'
  keys : ∀ d' ∈ store', ∃ d, (d ∈ store ∨ F d) ∧ d.nonceSigner = d'.nonceSigner

theorem Rekeyed.of_grown (h : Grown F s s') : Rekeyed F s s' :=
  ⟨h.indexed, fun d hd => ⟨d, h.added d hd, rfl⟩⟩

theorem Rekeyed.trans (h : Rekeyed F s s') (h' : Rekeyed F s' s'') : Rekeyed F s s'' where
  indexed := h'.indexed
  keys d'' hd'' := by
    obtain ⟨d', hd' | hF, hkey'⟩ := h'.keys d'' hd''
    · obtain ⟨d, hd, hkey⟩ := h.keys d' hd'
      exact ⟨d, hd, hkey.trans hkey'⟩
    · exact ⟨d', Or.inr hF, hkey'⟩

theorem Handled.rekeyed {signer : Address} {txs : List StoredTransaction} {α : Type}
    {r : Except String α} (hs : Grown F s s') (h : Handled cfg N F signer height txs s' r s'') :
    Rekeyed F s s'' := by
  refine (Rekeyed.of_grown hs).trans ?_
  cases txs with
  | nil => exact .of_grown h
  | cons oldest rest =>
      rcases h with ⟨-, hgrown⟩ | hall
      · exact .of_grown hgrown
      · refine ⟨hall.indexed, fun d hd => ?_⟩
        rcases hall.added d hd with hF | ⟨d₀, hd₀, hkey, -⟩
        · exact ⟨d, Or.inr hF, rfl⟩
        · exact ⟨d₀, Or.inl hd₀, hkey⟩

theorem boost_rekeyed (hm : Indexed m.txstore) (signer : Address) :
    Does (outside N i (Adds F)) (awaiting .boostUnderpricedPendingTransactionsForSigner
      (boostUnderpricedPendingTransactionsForSigner cfg signer height)) m Preserves
      fun _ m' => Rekeyed F m.txstore m'.txstore := by
  have hround : Does (outside N i (Adds F))
      (boostUnderpricedPendingTransactionsForSigner cfg signer height) m Preserves
      fun _ m' => Rekeyed F m.txstore m'.txstore := by
    refine Does.mono (boost_does (fun _ a hq => .of_isUpdate hq a) hm signer ?_) fun r m' h => ?_
    · exact fun _ _ _ _ _ _ _ _ _ _ _ _ => trivial
    · rcases h with ⟨-, hgrown⟩ | ⟨s, txs, hs, -, hhandled⟩
      · exact .of_grown hgrown
      · exact hhandled.rekeyed hs
  exact does_awaiting hround (fun _ => trivial)
    fun _ _ _ h hadds => h.trans (.of_grown (hadds.grown h.indexed))

theorem boostStuck_rekeyed (hm : Indexed m.txstore) :
    Does (outside N i (Adds F)) (RelayServer.boostStuckPendingTransactions cfg height) m Preserves
      fun _ m' => Rekeyed F m.txstore m'.txstore := by
  refine (boost_rekeyed hm cfg.managerAddress).next ?_ fun _ _ h => h
  intro manager m₁ h₁
  refine (boost_rekeyed h₁.indexed cfg.workerAddress).next ?_ fun _ _ h => h₁.trans h
  exact fun worker m₂ h₂ => does_done.mpr (h₁.trans h₂)

/-! ## What is removed is settled -/

/-- **Confirmed transactions are removed soundly.** A pass removes documents up to settled
nonces of their signers only. Of the other documents it writes nothing but the block in which
they were mined, and it adds none. Neither does the boosting that comes after it, so no key that
was removed is put back. -/
theorem removed_settled (hseen : c.Seen cfg N known) (hm : Indexed m.txstore)
    (hstore : ∀ d ∈ m.txstore, SignedDoc cfg known d) (hF : ∀ d, F d → SignedDoc cfg known d)
    {l : Exchanges} {r : Except String Unit} {m' : Memory ν}
    (hrun : Runs (outside N i (Adds F)) (removeConfirmedTransactions cfg height) m l r m') :
    (∀ key ∈ removed l, c.Settled cfg height key ∧
      key.nonce < c.nonceAt key.signer (confirmedBlock cfg height)) ∧
    Passed F (removed l) m.txstore m'.txstore ∧ (∀ x ∈ l, x.1.inserts = false) ∧
    ∀ m₁ l' r' m₂, Adds F m' m₁ → Runs (outside N i (Adds F))
      (RelayServer.boostStuckPendingTransactions cfg height) m₁ l' r' m₂ →
        (∀ x ∈ l', x.1.inserts = false) ∧
        ∀ d' ∈ m₂.txstore, ∃ d, d.nonceSigner = d'.nonceSigner ∧
          (F d ∨ d ∈ m.txstore ∧ ∀ key ∈ removed l, key.covers d = false) := by
  have hpass : (∀ key ∈ removed l, c.Settled cfg height key) ∧
      Passed F (removed l) m.txstore m'.txstore ∧ ∀ x ∈ l, x.1.inserts = false := by
    rcases removeConfirmedTransactions_ensures hseen hm hstore hF l r m' hrun with
      ⟨-, hl, hgrown⟩ | ⟨s, txs, hs, hlisting, hturned⟩
    · rw [hl.removed]
      exact ⟨List.forall_mem_nil _, .of_grown hgrown, hl.inserts⟩
    · refine ⟨fun key hkey => ?_, hs.passed hturned.passed, hturned.inserts⟩
      obtain ⟨tx, htx, rfl, hconfirms⟩ := hturned.confirmed key hkey
      have hsigned : SignedDoc cfg known tx :=
        (hs.added tx ((hlisting.mem tx).mp htx).1).elim (hstore tx) (hF tx)
      exact hconfirms.settled hseen.hash_inj hsigned
  obtain ⟨hsettled, hpassed, hinserts⟩ := hpass
  refine ⟨fun key hkey => ⟨hsettled key hkey, (hsettled key hkey).lt_nonceAt⟩, hpassed, hinserts,
    fun m₁ l' r' m₂ hadds hboost => ?_⟩
  have hgrown := hadds.grown hpassed.indexed
  obtain ⟨hl', hrekeyed⟩ := Does.removes (boostStuck_rekeyed hgrown.indexed) l' r' m₂ hboost
  refine ⟨hl'.inserts, fun d' hd' => ?_⟩
  obtain ⟨d, hd | hFd, hkey⟩ := ((Rekeyed.of_grown hgrown).trans hrekeyed).keys d' hd'
  · rcases hpassed.added d hd with ⟨d₀, hd₀, heq, hnot⟩ | ⟨d₀, hF₀, heq⟩
    · exact ⟨d₀, (nonceSigner_of_unmined heq).symm.trans hkey, Or.inr ⟨hd₀, hnot⟩⟩
    · exact ⟨d₀, (nonceSigner_of_unmined heq).symm.trans hkey, Or.inl hF₀⟩
  · exact ⟨d, hkey, Or.inl hFd⟩

/-! ### A chain with two transactions -/

/-- A transfer of the manager, with the document that `sendTransaction` stores of it. -/
def firstTry : SignedTransaction := ⟨0x11, ⟨0, 10, mintxgascost, some 0x22, 0, []⟩⟩

/-- The transaction of the worker that has the document `workerDoc`. -/
def workerTry : SignedTransaction := ⟨0x22, ⟨0, 5, mintxgascost, some 0x33, 0, []⟩⟩

/-- They were mined in the blocks 41 and 55. -/
def minedIn (tx : SignedTransaction) : Option Nat :=
  if tx = firstTry then some 41 else if tx = workerTry then some 55 else none

theorem minedIn_eq_some {tx : SignedTransaction} {b : Nat} (h : minedIn tx = some b) :
    tx = firstTry ∧ b = 41 ∨ tx = workerTry ∧ b = 55 := by
  unfold minedIn at h
  split at h
  next hfirst => exact Or.inl ⟨hfirst, (Option.some.inj h).symm⟩
  next =>
    obtain ⟨hworker, hb⟩ := Option.ite_none_right_eq_some.mp h
    exact Or.inr ⟨hworker, (Option.some.inj hb).symm⟩

def twoMined : ChainView where
  minedAt := minedIn
  nonceAt signer block :=
    if signer = 0x11 ∧ 41 ≤ block ∨ signer = 0x22 ∧ 55 ≤ block then 1 else 0
  unique tx tx' h h' hsigner _ := by
    obtain ⟨b, hb⟩ := Option.isSome_iff_exists.mp h
    obtain ⟨b', hb'⟩ := Option.isSome_iff_exists.mp h'
    rcases minedIn_eq_some hb with ⟨rfl, -⟩ | ⟨rfl, -⟩ <;>
      rcases minedIn_eq_some hb' with ⟨rfl, -⟩ | ⟨rfl, -⟩
    · rfl
    · exact absurd hsigner (by decide)
    · exact absurd hsigner (by decide)
    · rfl
  counts signer block n := by
    constructor
    · intro hlt
      split at hlt
      next h =>
        obtain rfl : n = 0 := by omega
        rcases h with ⟨rfl, hle⟩ | ⟨rfl, hle⟩
        · exact ⟨firstTry, 41, rfl, rfl, rfl, hle⟩
        · exact ⟨workerTry, 55, rfl, rfl, rfl, hle⟩
      next => omega
    · rintro ⟨tx, b, rfl, rfl, hmined, hle⟩
      rcases minedIn_eq_some hmined with ⟨rfl, rfl⟩ | ⟨rfl, rfl⟩
      · rw [if_pos (Or.inl ⟨rfl, hle⟩)]
        exact Nat.one_pos
      · rw [if_pos (Or.inr ⟨rfl, hle⟩)]
        exact Nat.one_pos

/-- What the node tells of a transaction. -/
def receiptOf (txId : Word) : Option Receipt :=
  if txId = plainConfig.hash firstTry then some ⟨some 41, 0x11, 0⟩
  else if txId = plainConfig.hash workerTry then some ⟨some 55, 0x22, 0⟩ else none

/-- The node tells the receipts of these transactions only. -/
abbrev receiptNode : Node Unit Unit :=
  fixedNode fun
    | .getTransactionCount _, n => n == 0
    | .getTransaction txId, receipt => receipt == receiptOf txId
    | _, _ => true

/-- Its answers, and none for a transaction that it is given at the gas price `lost`. -/
def receiptAnswer (lost : Nat) : (q : Question) → Except String (Answer q)
  | .getTransactionCount _ => .ok 0
  | .getTransaction txId => .ok (receiptOf txId)
  | .broadcastTransaction signedTx =>
      if signedTx.transaction.gasPrice = lost then .error "no answer"
      else .ok (plainConfig.hash signedTx)
  | _ => .error "no answer"

/-- The first transaction, what it is replaced with, the next one, and that of the worker. -/
def allTries : Set SignedTransaction :=
  {firstTry, resigned (transferDoc 0 10 none) 12,
    ⟨0x11, ⟨1, 10, mintxgascost, some 0x22, 0, []⟩⟩, workerTry}

theorem receiptNode_answers {m : Memory Unit} {txId : Word} {receipt : Option Receipt}
    (h : receiptNode.answers m (.getTransaction txId) receipt) : receipt = receiptOf txId :=
  beq_iff_eq.mp h

theorem twoMined_seen : twoMined.Seen plainConfig receiptNode allTries where
  hash_inj := by
    rintro tx (rfl | rfl | rfl | rfl) tx' (rfl | rfl | rfl | rfl) heq
    all_goals first | rfl | exact absurd heq (by decide)
  receipts m txId receipt h := by
    have heq := (receiptNode_answers h).symm
    unfold receiptOf at heq
    split at heq
    next hfirst =>
      obtain rfl := Option.some.inj heq
      have hmined : twoMined.minedAt firstTry = some 41 := rfl
      exact ⟨firstTry, by simp [allTries], hfirst.symm, rfl, rfl, fun b hb => hmined.trans hb⟩
    next =>
      obtain ⟨hworker, hreceipt⟩ := Option.ite_none_right_eq_some.mp heq
      obtain rfl := Option.some.inj hreceipt
      have hmined : twoMined.minedAt workerTry = some 55 := rfl
      exact ⟨workerTry, by simp [allTries], hworker.symm, rfl, rfl, fun b hb => hmined.trans hb⟩

theorem twoMined_complete (height : Nat) :
    twoMined.Complete plainConfig receiptNode allTries height := by
  intro m tx _ b _ hmined a ha
  rw [receiptNode_answers ha]
  rcases minedIn_eq_some hmined with ⟨rfl, rfl⟩ | ⟨rfl, rfl⟩
  · rfl
  · rfl

/-- The transaction that has the confirmations, a pending one, and one that has too few. -/
def passStore : List StoredTransaction :=
  [transferDoc 0 10 none, transferDoc 1 10 none, { workerDoc with minedBlockNumber := none }]

theorem passStore_indexed : Indexed passStore := ⟨by decide, by decide⟩

theorem passStore_signed : ∀ d ∈ passStore, SignedDoc plainConfig allTries d := by
  refine List.forall_mem_cons.mpr ⟨⟨firstTry, by simp [allTries], rfl, rfl, rfl⟩,
    List.forall_mem_cons.mpr ⟨⟨⟨0x11, ⟨1, 10, mintxgascost, some 0x22, 0, []⟩⟩, by simp [allTries],
      rfl, rfl, rfl⟩, List.forall_mem_singleton.mpr ⟨workerTry, by simp [allTries], rfl, rfl, rfl⟩⟩⟩

/-- The pass of block 60 over the documents. -/
def passRun (m : Memory Unit) : Option (Exchanges × Except String Unit × Memory Unit) :=
  follow (outside receiptNode 0 Alone) (answering (receiptAnswer 0))
    (removeConfirmedTransactions plainConfig 60) m

theorem passRun_runs {m m' : Memory Unit} {l : Exchanges} {r : Except String Unit}
    (h : passRun m = some (l, r, m')) : Runs (outside receiptNode 0 Alone)
      (removeConfirmedTransactions plainConfig 60) m l r m' :=
  Runs.of_follow (fun m => Adds.refl m) h

theorem passRun_passStore :
    (passRun (.fresh plainConfig passStore [] ())).map
      (fun x => (removed x.1, x.2.1.isOk, x.2.2.txstore)) =
      some ([⟨0, 0x11⟩], true,
        [transferDoc 1 10 none, { workerDoc with minedBlockNumber := some 55 }]) := by
  decide +kernel

/-- Of three documents that of the transaction with the confirmations is removed. -/
theorem removed_settled_mined : ∃ l r m', Runs (outside receiptNode 0 Alone)
    (removeConfirmedTransactions plainConfig 60) (.fresh plainConfig passStore [] ()) l r m' ∧
    removed l = [⟨0, 0x11⟩] ∧ twoMined.Settled plainConfig 60 ⟨0, 0x11⟩ ∧
    m'.txstore = [transferDoc 1 10 none, { workerDoc with minedBlockNumber := some 55 }] := by
  obtain ⟨⟨l, r, m'⟩, hfollow, heq⟩ := Option.map_eq_some_iff.mp passRun_passStore
  obtain ⟨hremoved, hleft⟩ := Prod.mk.inj heq
  have hsettled := (removed_settled twoMined_seen passStore_indexed passStore_signed
    (fun _ h => h.elim) (passRun_runs hfollow)).1
  refine ⟨l, r, m', passRun_runs hfollow, hremoved, (hsettled _ ?_).1, (Prod.mk.inj hleft).2⟩
  exact hremoved ▸ List.mem_singleton_self _

/-! ## What stays -/

/-- `d` is the document with the greatest nonce among those of its signer that are settled. -/
structure ChainView.IsLastSettled (c : ChainView) (cfg : Config) (height : Nat)
    (store : List StoredTransaction) (d : StoredTransaction) : Prop where
  mem : d ∈ store
  settled : d.nonce < c.nonceAt d.from (confirmedBlock cfg height)
  last : ∀ d' ∈ store, d'.from = d.from →
    d'.nonce < c.nonceAt d.from (confirmedBlock cfg height) → d'.nonce ≤ d.nonce

/-- Of the settled documents of a signer one is the last. -/
theorem ChainView.exists_lastSettled (c : ChainView) (cfg : Config) (height : Nat)
    {store : List StoredTransaction} {d : StoredTransaction} (hd : d ∈ store)
    (hsettled : d.nonce < c.nonceAt d.from (confirmedBlock cfg height)) :
    ∃ e, c.IsLastSettled cfg height store e ∧ e.from = d.from ∧ d.nonce ≤ e.nonce := by
  have hmem (e : StoredTransaction) : e ∈ (store.filter fun e => e.from = d.from ∧
      e.nonce < c.nonceAt d.from (confirmedBlock cfg height)).toFinset ↔ e ∈ store ∧
        e.from = d.from ∧ e.nonce < c.nonceAt d.from (confirmedBlock cfg height) := by
    rw [List.mem_toFinset, List.mem_filter, decide_eq_true_eq]
  obtain ⟨e, he, hmax⟩ := Finset.exists_max_image _ (fun e : StoredTransaction => e.nonce)
    ⟨d, (hmem d).mpr ⟨hd, rfl, hsettled⟩⟩
  obtain ⟨hin, hfrom, hlt⟩ := (hmem e).mp he
  refine ⟨e, ⟨hin, hfrom ▸ hlt, fun d' hd' hfrom' hlt' => ?_⟩, hfrom,
    hmax d ((hmem d).mpr ⟨hd, rfl, hsettled⟩)⟩
  exact hmax d' ((hmem d').mpr ⟨hd', hfrom'.trans hfrom, hfrom ▸ hlt'⟩)

/-- The transaction of a settled document has the confirmations, if it was mined at all. -/
theorem ChainView.confirms_iff {d : StoredTransaction} (hknown : Set.InjOn cfg.hash known)
    (hdoc : SignedDoc cfg known d)
    (hsettled : d.nonce < c.nonceAt d.from (confirmedBlock cfg height)) :
    c.Confirms cfg known height d ↔ Rechecks cfg height d ∧
      ∃ signedTx ∈ known, cfg.hash signedTx = d.txId ∧ (c.minedAt signedTx).isSome := by
  refine and_congr_right fun _ => ⟨?_, ?_⟩
  · rintro ⟨signedTx, hin, hhash, b, hmined, -⟩
    exact ⟨signedTx, hin, hhash, hmined ▸ rfl⟩
  · rintro ⟨signedTx, hin, hhash, hmined⟩
    obtain ⟨signedTx', hin', hhash', hfrom', hnonce'⟩ := hdoc
    obtain rfl : signedTx = signedTx' := hknown hin hin' (hhash.trans hhash'.symm)
    obtain ⟨minedTx, b, hfrom, hnonce, hminedTx, hb⟩ := (c.counts _ _ _).mp hsettled
    obtain rfl : minedTx = signedTx := c.unique _ _ (hminedTx ▸ rfl) hmined
      (hfrom.trans hfrom'.symm) (hnonce.trans hnonce'.symm)
    exact ⟨minedTx, hin, hhash, b, hminedTx, hb⟩

/-- **When the confirmed transactions are removed completely.** After a pass over any documents,
with nobody else writing them, no settled document is left if and only if each signer's last
settled document was one whose receipt is asked for, and has the hash of the transaction that was
mined. -/
theorem removed_completely_iff (hseen : c.Seen cfg N known)
    (hcomplete : c.Complete cfg N known height) (hm : Indexed m.txstore)
    (hstore : ∀ d ∈ m.txstore, SignedDoc cfg known d) {l : Exchanges} {m' : Memory ν}
    (hrun : Runs (outside N i Alone) (removeConfirmedTransactions cfg height) m l (.ok ()) m') :
    (∀ d ∈ m'.txstore, c.nonceAt d.from (confirmedBlock cfg height) ≤ d.nonce) ↔
      ∀ d, c.IsLastSettled cfg height m.txstore d → Rechecks cfg height d ∧
        ∃ signedTx ∈ known, cfg.hash signedTx = d.txId ∧ (c.minedAt signedTx).isSome := by
  obtain ⟨s, txs, hs, hlisting, hturned⟩ : ∃ s txs, Grown (fun _ => False) m.txstore s ∧
      Listing (fun _ => True) s txs ∧ Turned c cfg N known height (fun _ => False) txs s l
        (∃ a, (.ok () : Except String Unit) = .ok a) m'.txstore := by
    rcases removeConfirmedTransactions_ensures hseen hm hstore (fun _ h => h.elim) l _ m' hrun with
      ⟨⟨e, he⟩, -⟩ | h
    · cases he
    · exact h
  have hlist (d : StoredTransaction) : d ∈ txs ↔ d ∈ m.txstore := by
    rw [hlisting.mem, and_iff_left trivial, hs.mem_iff]
  constructor
  · intro hnone d hlast
    rw [← c.confirms_iff hseen.hash_inj (hstore d hlast.mem) hlast.settled]
    rcases hturned.passed.kept d (hs.kept d hlast.mem) with ⟨key, hkey, hcovers⟩ | ⟨d', hd', heq⟩
    · -- what was removed with the last one is the last one itself
      obtain ⟨tx, htx, rfl, hconfirms⟩ := hturned.confirmed key hkey
      obtain ⟨hfrom, hle⟩ := covers_iff.mp hcovers
      have hin := (hlist tx).mp htx
      have hlt := (hconfirms.settled hseen.hash_inj (hstore tx hin)).lt_nonceAt
      have hge := hlast.last tx hin hfrom.symm (hfrom ▸ hlt)
      obtain rfl : tx = d := by
        refine hm.eq_of_key hin hlast.mem ?_
        show (⟨tx.nonce, tx.from⟩ : NonceSigner) = ⟨d.nonce, d.from⟩
        rw [le_antisymm hge hle, hfrom]
        rfl
      exact hconfirms
    · have hkey := nonceSigner_of_unmined heq
      have hnonce : d'.nonce = d.nonce := congrArg NonceSigner.nonce hkey
      have hfrom : d'.from = d.from := congrArg NonceSigner.signer hkey
      have hleft := hnone d' hd'
      rw [hnonce, hfrom] at hleft
      exact absurd hlast.settled (not_lt.mpr hleft)
  -- what is left below the nonce is covered by the last settled one, which was removed
  · intro hall d' hd'
    by_contra hlt
    obtain ⟨d, hd, heq, hnot⟩ := (hturned.passed.added d' hd').resolve_right fun ⟨_, h, _⟩ => h
    have hkey := nonceSigner_of_unmined heq
    have hnonce : d'.nonce = d.nonce := congrArg NonceSigner.nonce hkey
    have hfrom : d'.from = d.from := congrArg NonceSigner.signer hkey
    rw [hnonce, hfrom, not_le] at hlt
    have hin := hs.mem_iff.mp hd
    obtain ⟨e, hlast, hefrom, hle⟩ := c.exists_lastSettled cfg height hin hlt
    have hconfirms : c.Confirms cfg known height e :=
      (c.confirms_iff hseen.hash_inj (hstore e hlast.mem) hlast.settled).mpr (hall e hlast)
    have hremoved := hturned.all ⟨_, rfl⟩ hcomplete e ((hlist e).mpr hlast.mem) hconfirms
    have hcovers : e.nonceSigner.covers d = true := covers_iff.mpr ⟨hefrom.symm, hle⟩
    rw [hnot _ hremoved] at hcovers
    cases hcovers

/-! ### A transaction that is mined after it was replaced -/

/-- The manager sends the transaction. -/
def sentFirst : Exchanges × Except String SignedTransactionDetails × Memory Unit :=
  (follow (outside receiptNode 0 Alone) (answering (receiptAnswer 0))
    (sendTransaction plainConfig ⟨0x11, .VALUE_TRANSFER, none, some 0x22, none, mintxgascost,
      some 10, 0⟩) (.fresh plainConfig [] [] ())).get (by decide +kernel)

/-- It is boosted in block 40, and there is no answer to the broadcast. -/
def boostedFirst :
    Exchanges × Except String (List (Word × SignedTransactionDetails)) × Memory Unit :=
  (follow (outside receiptNode 0 Alone) (answering (receiptAnswer 12))
    (boostUnderpricedPendingTransactionsForSigner plainConfig 0x11 40) sentFirst.2.2).get
      (by decide +kernel)

/-- The pass of block 60 after that. -/
def passedFirst : Exchanges × Except String Unit × Memory Unit :=
  (passRun boostedFirst.2.2).get (by decide +kernel)

/-- The document of the transaction stays: it has the hash of the second attempt. -/
theorem boosted_stays :
    Runs (outside receiptNode 0 Alone) (sendTransaction plainConfig ⟨0x11, .VALUE_TRANSFER, none,
      some 0x22, none, mintxgascost, some 10, 0⟩) (.fresh plainConfig [] [] ())
      sentFirst.1 sentFirst.2.1 sentFirst.2.2 ∧
    Runs (outside receiptNode 0 Alone)
      (boostUnderpricedPendingTransactionsForSigner plainConfig 0x11 40) sentFirst.2.2
      boostedFirst.1 boostedFirst.2.1 boostedFirst.2.2 ∧
    Runs (outside receiptNode 0 Alone) (removeConfirmedTransactions plainConfig 60)
      boostedFirst.2.2 passedFirst.1 (.ok ()) passedFirst.2.2 ∧
    twoMined.Seen plainConfig receiptNode allTries ∧
    twoMined.Complete plainConfig receiptNode allTries 60 ∧
    ∃ d ∈ passedFirst.2.2.txstore,
      d.nonce < twoMined.nonceAt d.from (confirmedBlock plainConfig 60) := by
  have hothers (m : Memory Unit) : Alone m m := Adds.refl m
  have hended : passedFirst.2.1 = .ok () := by
    have hok : passedFirst.2.1.isOk = true := by decide +kernel
    cases hresult : passedFirst.2.1 with
    | ok a => rfl
    | error e =>
        rw [hresult] at hok
        cases hok
  refine ⟨Runs.of_isSome hothers _, Runs.of_isSome hothers _, ?_, twoMined_seen,
    twoMined_complete 60, reattempt plainConfig (transferDoc 0 10 none) 12 40, ?_, ?_⟩
  · rw [← hended]
    exact Runs.of_isSome hothers _
  · decide +kernel
  · decide +kernel

/-- Without the boosting no settled document is left. -/
theorem removed_completely_iff_mined : ∃ l m', Runs (outside receiptNode 0 Alone)
    (removeConfirmedTransactions plainConfig 60) (.fresh plainConfig passStore [] ())
    l (.ok ()) m' ∧ ∀ d ∈ m'.txstore, twoMined.nonceAt d.from (confirmedBlock plainConfig 60) ≤
      d.nonce := by
  obtain ⟨⟨l, r, m'⟩, hfollow, heq⟩ := Option.map_eq_some_iff.mp passRun_passStore
  obtain ⟨-, hleft⟩ := Prod.mk.inj heq
  obtain ⟨hok, -⟩ := Prod.mk.inj hleft
  cases r with
  | error e => cases hok
  | ok a =>
      refine ⟨l, m', passRun_runs hfollow, (removed_completely_iff twoMined_seen
        (twoMined_complete 60) passStore_indexed passStore_signed (passRun_runs hfollow)).mpr ?_⟩
      intro d hlast
      have hsettled := hlast.settled
      rcases List.mem_cons.mp hlast.mem with rfl | hlater
      · exact ⟨by decide, firstTry, by simp [allTries], rfl, by decide⟩
      · -- neither of the others is settled
        have hopen : ∀ d ∈ passStore.tail,
            twoMined.nonceAt d.from (confirmedBlock plainConfig 60) ≤ d.nonce := by decide
        exact absurd hsettled (not_lt.mpr (hopen d hlater))

end RifRelay.Server
