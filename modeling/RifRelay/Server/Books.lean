import RifRelay.Server.Documents

set_option autoImplicit false

/-! # The books of the transaction manager

A small machine for what concerns nonces: the counters, the mutex, the documents, the signatures
and the log. Whoever has the mutex goes through the stages of `sendTransaction`; everybody else
may lift a counter, remove and update documents, and sign a document again. Which entries the
log may get is left to a condition `R`. That every run of the server keeps such books is shown
in `Server/Bookkeeping.lean`.
-/

namespace RifRelay.Server

open EventLoop TransactionManager TxStoreManager

abbrev LogEntry : Type := EventLoop.Event Call Question Answer Reply

structure Books where
  nonces : Address → Option Nat
  nonceMutex : Option ℕ
  txstore : List StoredTransaction
  signatures : List Signature
  log : Log

/-- How far the thread with the mutex is: it has the mutex only, or the node's count, or the nonce
that `pollNonce` resolves to, or it has counted the nonce and is about to insert the document, or
it is done. -/
inductive Stage
  | idle
  | held
  | counted (signer : Address) (n : Nat)
  | polled (signer : Address) (nonce : Option Nat)
  | assigned (doc : StoredTransaction)
  | closed

/-! ## Reading the log -/

/-- The counts that the node has answered with. -/
def pendingCounts (log : Log) : List (Address × Nat) :=
  log.filterMap fun
    | .answered _ (.getTransactionCount addr) (.ok n) => some (addr, n)
    | _ => none

/-- The documents that were inserted. -/
def insertions (log : Log) : List StoredTransaction :=
  log.filterMap fun
    | .answered _ (.insert tx) (.ok _) => some tx
    | _ => none

theorem pendingCounts_snoc (log : Log) (e : LogEntry) :
    pendingCounts (log ++ [e]) = pendingCounts log ++ pendingCounts [e] := List.filterMap_append

theorem insertions_snoc (log : Log) (e : LogEntry) :
    insertions (log ++ [e]) = insertions log ++ insertions [e] := List.filterMap_append

/-! ## Documents and signatures -/

/-- The document is one that `createStoredTransaction` makes of the transaction. -/
def Records (cfg : Config) (signedTx : SignedTransaction) (d : StoredTransaction) : Prop :=
  d = createStoredTransaction cfg signedTx d.toStoredTransactionMetadata ∧ d.from = signedTx.signer

/-- The transaction of the document was signed. -/
def Traced (cfg : Config) (signatures : List Signature) (d : StoredTransaction) : Prop :=
  ∃ s ∈ signatures, Records cfg s.signedTx d

theorem Traced.mono {cfg : Config} {l l' : List Signature} {d : StoredTransaction} (hl : l ⊆ l')
    (h : Traced cfg l d) : Traced cfg l' d := by
  obtain ⟨s, hs, hrecords⟩ := h
  exact ⟨s, hl hs, hrecords⟩

/-- The document with the id `txId` is that of a transaction with the key of `tx`. -/
def SameKey (cfg : Config) (signatures : List Signature) (txId : Word) (tx : StoredTransaction) :
    Prop :=
  ∃ s ∈ signatures, cfg.hash s.signedTx = txId ∧ s.signedTx.signer = tx.from ∧
    s.signedTx.transaction.nonce = tx.nonce

theorem SameKey.mono {cfg : Config} {l l' : List Signature} {txId : Word} {tx : StoredTransaction}
    (hl : l ⊆ l') (h : SameKey cfg l txId tx) : SameKey cfg l' txId tx := by
  obtain ⟨s, hs, hkey⟩ := h
  exact ⟨s, hl hs, hkey⟩

theorem Traced.sameKey {cfg : Config} {l : List Signature} {d tx : StoredTransaction}
    (h : Traced cfg l d) (hkey : d.nonceSigner = tx.nonceSigner) : SameKey cfg l d.txId tx := by
  obtain ⟨s, hs, hrecords, hfrom⟩ := h
  have hnonce : d.nonce = s.signedTx.transaction.nonce := congrArg (·.nonce) hrecords
  have hid : d.txId = cfg.hash s.signedTx := congrArg (·.txId) hrecords
  refine ⟨s, hs, hid.symm, ?_, ?_⟩
  · rw [← hfrom]
    exact congrArg NonceSigner.signer hkey
  · rw [← hnonce]
    exact congrArg NonceSigner.nonce hkey

/-! ## The machine -/

/-- One more entry. -/
def Books.snoc (b : Books) (e : LogEntry) : Books := { b with log := b.log ++ [e] }

/-- `this.nonces[signer] = nonce`, if the node is ahead. -/
def Books.lift (b : Books) (signer : Address) (nonce : Nat) : Books :=
  match b.nonces signer with
  | some own =>
      if nonce > own then { b with nonces := Function.update b.nonces signer (some nonce) } else b
  | none => b

/-- What is done with a new nonce in one go. -/
def Books.assign (b : Books) (signedTx : SignedTransaction) : Books :=
  { b with
    signatures := b.signatures ++ [⟨false, signedTx⟩]
    nonces := Function.update b.nonces signedTx.signer ((b.nonces signedTx.signer).map (· + 1)) }

/-- Sign a document again. -/
def Books.resign (b : Books) (signedTx : SignedTransaction) : Books :=
  { b with signatures := b.signatures ++ [⟨true, signedTx⟩] }

/-- A new process. -/
def Books.restarted (cfg : Config) (b : Books) : Books where
  nonces addr := if addr = cfg.managerAddress ∨ addr = cfg.workerAddress then some 0 else none
  nonceMutex := none
  txstore := b.txstore
  signatures := b.signatures
  log := b.log ++ [.restarted]

/-- A thread asks, or it ends. -/
def isMark (e : LogEntry) : Bool :=
  match e with
  | .asked _ _ | .ended _ _ => true
  | _ => false

/-- An answer that concerns neither the mutex nor the documents. -/
def isPlain (q : Question) (a : Except String (Answer q)) : Bool :=
  match q, a with
  | .acquire, .ok _ | .insert _, .ok _ | .update _ _, .ok _ | .remove _, .ok _ => false
  | _, _ => true

/-- The key of the document that `putTx` looks for or inserts. -/
def Question.storing (q : Question) : Option NonceSigner :=
  match q with
  | .findOne key => some key
  | .insert tx => some tx.nonceSigner
  | _ => none

/-- One step. The thread with the mutex has the stages, and the steps that leave the stage alone
are anybody's. The thread with the mutex is told counts at one stage only. -/
inductive Booking (cfg : Config) (R : Books → LogEntry → Prop) :
    Books → Stage → Books → Stage → Prop
  | mark {b : Books} {φ : Stage} (e : LogEntry) (he : isMark e = true) :
      Booking cfg R b φ (b.snoc e) φ
  | call {b : Books} {φ : Stage} (i : ℕ) (c : Call) (h : R b (.called i c)) :
      Booking cfg R b φ (b.snoc (.called i c)) φ
  | answer {b : Books} {φ : Stage} (i : ℕ) (q : Question) (a : Except String (Answer q))
      (hq : isPlain q a = true)
      (hcount : b.nonceMutex = some i → pendingCounts [.answered i q a] = [])
      (h : R b (.answered i q a)) : Booking cfg R b φ (b.snoc (.answered i q a)) φ
  | lift {b : Books} {φ : Stage} (signer : Address) (nonce : Nat)
      (h : (signer, nonce) ∈ pendingCounts b.log) : Booking cfg R b φ (b.lift signer nonce) φ
  | remove {b : Books} {φ : Stage} (i : ℕ) (key : NonceSigner)
      (h : R b (.answered i (.remove key) (.ok ()))) :
      Booking cfg R b φ ({ b with txstore := b.txstore.filter fun doc => !key.covers doc }.snoc
        (.answered i (.remove key) (.ok ()))) φ
  | update {b : Books} {φ : Stage} (i : ℕ) (txId : Word) (tx : StoredTransaction)
      (htraced : Traced cfg b.signatures tx) (hkey : SameKey cfg b.signatures txId tx)
      (h : R b (.answered i (.update txId tx) (.ok ()))) :
      Booking cfg R b φ ({ b with txstore := replace txId tx b.txstore }.snoc
        (.answered i (.update txId tx) (.ok ()))) φ
  | putBack {b : Books} {φ : Stage} (i : ℕ) (tx : StoredTransaction)
      (hmutex : b.nonceMutex ≠ some i) (htraced : Traced cfg b.signatures tx)
      (hfree : b.txstore.any (clashes tx) = false) (h : R b (.answered i (.insert tx) (.ok ()))) :
      Booking cfg R b φ ({ b with txstore := b.txstore ++ [tx] }.snoc
        (.answered i (.insert tx) (.ok ()))) φ
  | resign {b : Books} {φ : Stage} (tx : StoredTransaction) (gasPrice : Nat)
      (htx : Traced cfg b.signatures tx ∨
        ∃ i n p, .called i (.resendTransaction tx n p) ∈ b.log) :
      Booking cfg R b φ (b.resign ⟨tx.from, repriced tx gasPrice⟩) φ
  | acquire {b : Books} (i : ℕ) (hfree : b.nonceMutex = none)
      (h : R b (.answered i .acquire (.ok ()))) :
      Booking cfg R b .idle ({ b with nonceMutex := some i }.snoc (.answered i .acquire (.ok ())))
        .held
  | count {b : Books} (i : ℕ) (signer : Address) (n : Nat) (hmutex : b.nonceMutex = some i)
      (h : R b (.answered i (.getTransactionCount signer) (.ok n))) :
      Booking cfg R b .held (b.snoc (.answered i (.getTransactionCount signer) (.ok n)))
        (.counted signer n)
  | poll {b : Books} (signer : Address) (n : Nat) (hle : ∀ own ∈ b.nonces signer, n ≤ own) :
      Booking cfg R b (.counted signer n) b (.polled signer (b.nonces signer))
  | assign {b : Books} (nonce : Option Nat) (signedTx : SignedTransaction)
      (doc : StoredTransaction) (hsigner : cfg.isSigner signedTx.signer)
      (hnonce : signedTx.transaction.nonce = nonce.getD 0) (hdoc : Records cfg signedTx doc) :
      Booking cfg R b (.polled signedTx.signer nonce) (b.assign signedTx) (.assigned doc)
  | insert {b : Books} (i : ℕ) (doc : StoredTransaction) (hmutex : b.nonceMutex = some i)
      (hfree : b.txstore.any (clashes doc) = false)
      (h : R b (.answered i (.insert doc) (.ok ()))) :
      Booking cfg R b (.assigned doc) ({ b with txstore := b.txstore ++ [doc] }.snoc
        (.answered i (.insert doc) (.ok ()))) .closed
  | lose {b : Books} (i : ℕ) (doc : StoredTransaction) (q : Question) (e : String)
      (hmutex : b.nonceMutex = some i) (hq : q.storing = some doc.nonceSigner)
      (h : R b (.answered i q (.error e))) :
      Booking cfg R b (.assigned doc) (b.snoc (.answered i q (.error e))) .closed
  | giveUp {b : Books} {φ : Stage} (hφ : φ = .held ∨ ∃ signer nonce, φ = .polled signer nonce) :
      Booking cfg R b φ b .closed
  | release {b : Books} : Booking cfg R b .closed { b with nonceMutex := none } .idle
  | restart {b : Books} {φ : Stage} (h : R b .restarted) :
      Booking cfg R b φ (b.restarted cfg) .idle

/-- The books of a new server. -/
def Books.new (cfg : Config) : Books where
  nonces addr := if addr = cfg.managerAddress ∨ addr = cfg.workerAddress then some 0 else none
  nonceMutex := none
  txstore := []
  signatures := []
  log := []

/-- What the machine reaches. -/
inductive Booked (cfg : Config) (R : Books → LogEntry → Prop) : Books → Stage → Prop
  | new : Booked cfg R (.new cfg) .idle
  | step {b b' : Books} {φ φ' : Stage} (h : Booked cfg R b φ) (hstep : Booking cfg R b φ b' φ') :
      Booked cfg R b' φ'

variable {cfg : Config} {R : Books → LogEntry → Prop} {b b' : Books} {φ φ' : Stage}

/-! ## Where the documents come from -/

@[simp] theorem lift_signatures (signer : Address) (nonce : Nat) :
    (b.lift signer nonce).signatures = b.signatures := by
  unfold Books.lift
  split
  · split <;> rfl
  · rfl

@[simp] theorem lift_txstore (signer : Address) (nonce : Nat) :
    (b.lift signer nonce).txstore = b.txstore := by
  unfold Books.lift
  split
  · split <;> rfl
  · rfl

@[simp] theorem lift_log (signer : Address) (nonce : Nat) : (b.lift signer nonce).log = b.log := by
  unfold Books.lift
  split
  · split <;> rfl
  · rfl

@[simp] theorem lift_nonceMutex (signer : Address) (nonce : Nat) :
    (b.lift signer nonce).nonceMutex = b.nonceMutex := by
  unfold Books.lift
  split
  · split <;> rfl
  · rfl

/-- A counter that is lifted is not below what the node has answered. -/
theorem le_of_mem_lift (signer : Address) (nonce : Nat) :
    ∀ own ∈ (b.lift signer nonce).nonces signer, nonce ≤ own := by
  intro own hown
  unfold Books.lift at hown
  cases hnonces : b.nonces signer with
  | none =>
      rw [hnonces] at hown
      exact (Option.some_ne_none own (hown.symm.trans hnonces)).elim
  | some counter =>
      simp only [hnonces] at hown
      split at hown
      next hlt =>
        have heq := (Function.update_self signer (some nonce) b.nonces).symm.trans hown
        exact (Option.some.inj heq).le
      next hge =>
        obtain rfl := Option.some.inj (hnonces.symm.trans hown)
        exact not_lt.mp hge

/-- The document of the stage, if there is one. -/
def Stage.doc (φ : Stage) : Option StoredTransaction :=
  match φ with
  | .assigned doc => some doc
  | _ => none

/-- All documents are those of signed transactions. -/
structure Documented (cfg : Config) (b : Books) (φ : Stage) : Prop where
  store : ∀ d ∈ b.txstore, Traced cfg b.signatures d
  doc : ∀ d ∈ φ.doc, Traced cfg b.signatures d

theorem Documented.grow (h : Documented cfg b φ) (hstore : ∀ d ∈ b'.txstore, d ∈ b.txstore)
    (hsig : b.signatures ⊆ b'.signatures) (hdoc : ∀ d ∈ φ'.doc, d ∈ φ.doc) :
    Documented cfg b' φ' where
  store d hd := (h.store d (hstore d hd)).mono hsig
  doc d hd := (h.doc d (hdoc d hd)).mono hsig

theorem Documented.step (h : Documented cfg b φ) (hstep : Booking cfg R b φ b' φ') :
    Documented cfg b' φ' := by
  have hnone (d : StoredTransaction) (hd : d ∈ (none : Option StoredTransaction)) :
      d ∈ φ.doc := by cases hd
  cases hstep with
  | mark e he => exact h.grow (fun _ hd => hd) (List.Subset.refl _) fun _ hd => hd
  | call i c hR => exact h.grow (fun _ hd => hd) (List.Subset.refl _) fun _ hd => hd
  | answer i q a hq hcount hR =>
      exact h.grow (fun _ hd => hd) (List.Subset.refl _) fun _ hd => hd
  | lift signer nonce hn =>
      refine h.grow (fun d hd => ?_) ?_ fun _ hd => hd
      · rwa [lift_txstore] at hd
      · rw [lift_signatures]
        exact List.Subset.refl _
  | remove i key hR =>
      exact h.grow (fun d hd => (List.mem_filter.mp hd).1) (List.Subset.refl _) fun _ hd => hd
  | update i txId tx htraced hkey hR =>
      refine ⟨fun d hd => ?_, h.doc⟩
      rcases mem_replace.mp hd with ⟨rfl, -⟩ | ⟨hold, -⟩
      · exact htraced
      · exact h.store d hold
  | putBack i tx hmutex htraced hfree hR =>
      refine ⟨fun d hd => ?_, h.doc⟩
      rcases List.mem_append.mp hd with hd | hd
      · exact h.store d hd
      · obtain rfl := List.mem_singleton.mp hd
        exact htraced
  | resign tx gasPrice htx =>
      exact h.grow (fun _ hd => hd) (List.subset_append_left _ _) fun _ hd => hd
  | acquire i hfree hR => exact h.grow (fun _ hd => hd) (List.Subset.refl _) hnone
  | count i signer n hmutex hR => exact h.grow (fun _ hd => hd) (List.Subset.refl _) hnone
  | poll signer n hle => exact h.grow (fun _ hd => hd) (List.Subset.refl _) hnone
  | assign nonce signedTx doc hsigner hnonce hdoc =>
      refine ⟨fun d hd => (h.store d hd).mono (List.subset_append_left _ _), fun d hd => ?_⟩
      obtain rfl := Option.some.inj hd
      exact ⟨_, List.mem_append_right _ (List.mem_singleton_self _), hdoc⟩
  | insert i doc hmutex hfree hR =>
      refine ⟨fun d hd => ?_, fun d hd => by cases hd⟩
      rcases List.mem_append.mp hd with hd | hd
      · exact h.store d hd
      · obtain rfl := List.mem_singleton.mp hd
        exact h.doc d rfl
  | lose i doc q e hmutex hq hR => exact h.grow (fun _ hd => hd) (List.Subset.refl _) hnone
  | giveUp hφ => exact h.grow (fun _ hd => hd) (List.Subset.refl _) hnone
  | release => exact h.grow (fun _ hd => hd) (List.Subset.refl _) hnone
  | restart hR => exact h.grow (fun _ hd => hd) (List.Subset.refl _) hnone

/-- In every books the documents are those of signed transactions. -/
theorem Booked.documented (h : Booked cfg R b φ) : Documented cfg b φ := by
  induction h with
  | new => exact ⟨List.forall_mem_nil _, fun d hd => by cases hd⟩
  | step _ hstep ih => exact ih.step hstep

end RifRelay.Server
