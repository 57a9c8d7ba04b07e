import RifRelay.Server.BookedRuns
import RifRelay.Server.Threads

set_option autoImplicit false

/-! # Gaps between nonces

`sendTransaction` counts a nonce before its document is inserted. If the database fails then, the
nonce is lost: the next transaction gets the one after it (`gap_after_failed_insert`).
`nonces_gapless` says that nothing else goes wrong: what a call leaves that fails earlier, and
that no nonce of a signer is skipped in any run in which the database does not fail like that
(`Gapless`).
-/

namespace RifRelay.Server

open EventLoop TransactionManager TxStoreManager

/-! ## Counting -/

/-- How many documents of the signer have been inserted. -/
def inserted (log : Log) (signer : Address) : Nat :=
  ((insertions log).filter (·.from == signer)).length

def Books.counter (b : Books) (signer : Address) : Nat := (b.nonces signer).getD 0

/-- The keys of the documents that the database has failed on. -/
def failures (log : Log) : List NonceSigner :=
  log.filterMap fun
    | .answered _ q (.error _) => q.storing
    | _ => none

/-- What the node has answered the thread with, asked how many transactions `signer` has sent. -/
def countsFor (thread : Option ℕ) (signer : Address) (log : Log) : List Nat :=
  log.filterMap fun
    | .answered i (.getTransactionCount addr) (.ok n) =>
        if some i = thread ∧ addr = signer then some n else none
    | _ => none

def lastCount (thread : Option ℕ) (signer : Address) (log : Log) : Option Nat :=
  (countsFor thread signer log).getLast?

/-- A new document is inserted by the thread with the mutex, and the transactions of the signer
whose documents have been removed are among those that the node has counted to this thread. -/
def MayInsert (b : Books) (e : LogEntry) (tx : StoredTransaction) : Prop :=
  b.nonceMutex = e.thread ∧ ∀ d ∈ insertions b.log, d.from = tx.from →
    (∃ d' ∈ b.txstore, d'.nonceSigner = d.nonceSigner) ∨
      ∃ n ∈ lastCount e.thread tx.from b.log, d.nonce < n

/-- The database may fail the thread with the mutex on the document with this key: the counter of
the signer is not above the number of its documents that have been inserted. -/
def MayFail (b : Books) (e : LogEntry) (key : NonceSigner) : Prop :=
  b.nonceMutex = e.thread → b.counter key.signer ≤ inserted b.log key.signer

/-- The node counts no transactions that the server has not stored, and the database inserts and
fails as it may. -/
def Gapless (b : Books) (e : LogEntry) : Prop :=
  (∀ c ∈ pendingCounts [e], c.2 ≤ inserted b.log c.1) ∧
    (∀ tx ∈ insertions [e], MayInsert b e tx) ∧ ∀ key ∈ failures [e], MayFail b e key

instance (b : Books) (e : LogEntry) (tx : StoredTransaction) : Decidable (MayInsert b e tx) :=
  inferInstanceAs (Decidable (_ ∧ ∀ _ ∈ _, _ → (∃ _ ∈ _, _) ∨ ∃ _ ∈ lastCount _ _ _, _))

instance (b : Books) (e : LogEntry) (key : NonceSigner) : Decidable (MayFail b e key) :=
  inferInstanceAs (Decidable (_ → _))

instance (b : Books) (e : LogEntry) : Decidable (Gapless b e) :=
  inferInstanceAs (Decidable ((∀ _ ∈ _, _) ∧ (∀ _ ∈ _, _) ∧ ∀ _ ∈ _, _))

variable {cfg : Config} {b b' : Books} {φ φ' : Stage} {doc : StoredTransaction}

theorem inserted_snoc (log : Log) (e : LogEntry) (signer : Address) :
    inserted (log ++ [e]) signer = inserted log signer + inserted [e] signer := by
  unfold inserted
  rw [insertions_snoc, List.filter_append, List.length_append]

/-! ### The last count -/

theorem lastCount_snoc {thread : Option ℕ} {signer : Address} {e : LogEntry}
    (h : countsFor thread signer [e] = []) (log : Log) :
    lastCount thread signer (log ++ [e]) = lastCount thread signer log := by
  have happend : countsFor thread signer (log ++ [e]) =
      countsFor thread signer log ++ countsFor thread signer [e] := List.filterMap_append
  rw [lastCount, happend, h, List.append_nil, lastCount]

theorem lastCount_answered (i : ℕ) (signer : Address) (n : Nat) (log : Log) :
    lastCount (some i) signer
      (log ++ [.answered i (.getTransactionCount signer) (.ok n)]) = some n := by
  have happend : countsFor (some i) signer
      (log ++ [.answered i (.getTransactionCount signer) (.ok n)]) =
        countsFor (some i) signer log ++ [n] := by
    unfold countsFor
    rw [List.filterMap_append]
    simp
  rw [lastCount, happend, List.getLast?_concat]

/-- Counts are told by answers, and to the thread that has asked. -/
theorem countsFor_eq_nil {thread : Option ℕ} {e : LogEntry}
    (h : thread = e.thread → pendingCounts [e] = []) (signer : Address) :
    countsFor thread signer [e] = [] := by
  refine List.filterMap_eq_nil_iff.mpr fun x hx => ?_
  obtain rfl := List.mem_singleton.mp hx
  split
  next i addr n =>
    refine if_neg fun hboth => ?_
    cases h hboth.1.symm
  next => rfl

/-- The thread with the mutex does not get below the last count that it was told. -/
structure Informed (cfg : Config) (b : Books) (φ : Stage) : Prop where
  known : ∀ signer, cfg.isSigner signer → ∃ own, b.nonces signer = some own
  counted : ∀ signer n, φ = .counted signer n → lastCount b.nonceMutex signer b.log = some n
  polled : ∀ signer nonce, φ = .polled signer nonce → (cfg.isSigner signer → nonce ≠ none) ∧
    ∀ own ∈ nonce, ∀ n ∈ lastCount b.nonceMutex signer b.log, n ≤ own
  assigned : ∀ doc, φ = .assigned doc →
    ∀ n ∈ lastCount b.nonceMutex doc.from b.log, n ≤ doc.nonce

/-- The thread is told nothing. -/
theorem Informed.same (h : Informed cfg b φ)
    (hknown : ∀ signer own, b.nonces signer = some own → ∃ own', b'.nonces signer = some own')
    (hlast : ∀ signer,
      lastCount b'.nonceMutex signer b'.log = lastCount b.nonceMutex signer b.log) :
    Informed cfg b' φ where
  known signer hsigner := by
    obtain ⟨own, hown⟩ := h.known signer hsigner
    exact hknown signer own hown
  counted signer n hφ := (hlast signer).trans (h.counted signer n hφ)
  polled signer nonce hφ := by
    rw [hlast]
    exact h.polled signer nonce hφ
  assigned doc hφ := by
    rw [hlast]
    exact h.assigned doc hφ

/-- One more entry, which tells the thread nothing. -/
theorem Informed.snoc (h : Informed cfg b φ) {e : LogEntry} (hnonces : b'.nonces = b.nonces)
    (hmutex : b'.nonceMutex = b.nonceMutex) (hlog : b'.log = b.log ++ [e])
    (hnone : b.nonceMutex = e.thread → pendingCounts [e] = []) : Informed cfg b' φ := by
  refine h.same (fun signer own hown => ⟨own, hnonces ▸ hown⟩) fun signer => ?_
  rw [hmutex, hlog, lastCount_snoc (countsFor_eq_nil hnone signer)]

/-- There is nothing to know at the other stages. -/
theorem Informed.rest (hφ : φ = .idle ∨ φ = .held ∨ φ = .closed)
    (hknown : ∀ signer, cfg.isSigner signer → ∃ own, b.nonces signer = some own) :
    Informed cfg b φ := by
  rcases hφ with rfl | rfl | rfl <;>
    exact ⟨hknown, fun _ _ => Stage.noConfusion, fun _ _ => Stage.noConfusion,
      fun _ => Stage.noConfusion⟩

theorem Informed.lift (h : Informed cfg b φ) (signer : Address) (nonce : Nat) :
    Informed cfg (b.lift signer nonce) φ := by
  refine h.same (fun s own hown => ?_) fun s => by rw [lift_nonceMutex, lift_log]
  unfold Books.lift
  split
  · split
    · by_cases hs : s = signer
      · exact ⟨nonce, by rw [hs]; exact Function.update_self _ _ _⟩
      · exact ⟨own, (Function.update_of_ne hs _ _).trans hown⟩
    · exact ⟨own, hown⟩
  · exact ⟨own, hown⟩

theorem Informed.assign {nonce : Option Nat} {signedTx : SignedTransaction}
    (h : Informed cfg b (.polled signedTx.signer nonce)) (hsigner : cfg.isSigner signedTx.signer)
    (hnonce : signedTx.transaction.nonce = nonce.getD 0) (hdoc : Records cfg signedTx doc) :
    Informed cfg (b.assign signedTx) (.assigned doc) where
  known s hs := by
    obtain ⟨own, hown⟩ := h.known s hs
    by_cases heq : s = signedTx.signer
    · refine ⟨own + 1, ?_⟩
      rw [heq] at hown ⊢
      exact (Function.update_self _ _ _).trans (congrArg (Option.map (· + 1)) hown)
    · exact ⟨own, (Function.update_of_ne heq _ _).trans hown⟩
  counted _ _ := Stage.noConfusion
  polled _ _ := Stage.noConfusion
  assigned d hd n hn := by
    obtain rfl := Stage.assigned.inj hd
    obtain ⟨hsome, hle⟩ := h.polled _ _ rfl
    obtain ⟨own, rfl⟩ := Option.ne_none_iff_exists'.mp (hsome hsigner)
    have hdocNonce : doc.nonce = signedTx.transaction.nonce := congrArg (·.nonce) hdoc.1
    rw [hdocNonce, hnonce]
    rw [hdoc.2] at hn
    exact hle own rfl n hn

theorem Informed.step {R : Books → LogEntry → Prop} (h : Informed cfg b φ)
    (hstep : Booking cfg R b φ b' φ') : Informed cfg b' φ' := by
  cases hstep with
  | mark e he =>
      refine h.snoc rfl rfl rfl fun _ => ?_
      cases e <;> first | rfl | cases he
  | call i c hR => exact h.snoc rfl rfl rfl fun _ => rfl
  | answer i q a hq hcount hR => exact h.snoc rfl rfl rfl hcount
  | lift signer nonce hn => exact h.lift signer nonce
  | remove i key hR => exact h.snoc rfl rfl rfl fun _ => rfl
  | update i txId tx htraced hkey hR => exact h.snoc rfl rfl rfl fun _ => rfl
  | putBack i tx hmutex htraced hfree hR => exact h.snoc rfl rfl rfl fun _ => rfl
  | resign tx gasPrice htx => exact h.same (fun _ own hown => ⟨own, hown⟩) fun _ => rfl
  | acquire i hfree hR => exact .rest (.inr (.inl rfl)) h.known
  | count i signer n hmutex hR =>
      refine ⟨h.known, fun s k hφ => ?_, fun _ _ => Stage.noConfusion, fun _ => Stage.noConfusion⟩
      obtain ⟨rfl, rfl⟩ := Stage.counted.inj hφ
      show lastCount b.nonceMutex signer _ = some n
      rw [hmutex]
      exact lastCount_answered i signer n b.log
  | poll signer n hle =>
      refine ⟨h.known, fun _ _ => Stage.noConfusion, fun s nonce hφ => ?_,
        fun _ => Stage.noConfusion⟩
      obtain ⟨rfl, rfl⟩ := Stage.polled.inj hφ
      refine ⟨fun hsigner => ?_, fun own hown k hk => ?_⟩
      · obtain ⟨own, hown⟩ := h.known signer hsigner
        exact hown ▸ Option.some_ne_none own
      · rw [h.counted signer n rfl] at hk
        obtain rfl := Option.some.inj hk
        exact hle own hown
  | assign nonce signedTx doc hsigner hnonce hdoc => exact h.assign hsigner hnonce hdoc
  | insert i doc hmutex hfree hR => exact .rest (.inr (.inr rfl)) h.known
  | lose i doc q e hmutex hq hR => exact .rest (.inr (.inr rfl)) h.known
  | giveUp hφ => exact .rest (.inr (.inr rfl)) h.known
  | release => exact .rest (.inl rfl) h.known
  | restart hR => exact .rest (.inl rfl) fun signer hsigner => ⟨0, if_pos hsigner⟩

theorem Booked.informed {R : Books → LogEntry → Prop} (h : Booked cfg R b φ) :
    Informed cfg b φ := by
  induction h with
  | new => exact .rest (.inl rfl) fun signer hsigner => ⟨0, if_pos hsigner⟩
  | step _ hstep ih => exact ih.step hstep

/-! ### What is counted -/

/-- The nonces that were ever stored, and the counters. -/
structure Counted (b : Books) (φ : Stage) : Prop where
  keys : ∀ signer n, (∃ d ∈ insertions b.log, d.nonceSigner = ⟨n, signer⟩) ↔
    n < inserted b.log signer
  counts : ∀ signer n, (signer, n) ∈ pendingCounts b.log → n ≤ inserted b.log signer
  counters : ∀ signer, b.counter signer ≤ inserted b.log signer ∨
    ∃ doc, φ = .assigned doc ∧ doc.from = signer ∧ b.counter signer ≤ inserted b.log signer + 1
  polled : ∀ signer nonce, φ = .polled signer nonce → nonce.getD 0 ≤ inserted b.log signer
  assigned : ∀ doc, φ = .assigned doc → doc.nonce ≤ inserted b.log doc.from

/-- The nonces of the documents. -/
def Consecutive (b : Books) : Prop :=
  ∀ signer, ∃ lowest, lowest ≤ inserted b.log signer ∧
    ∀ n, (∃ d ∈ b.txstore, d.nonceSigner = ⟨n, signer⟩) ↔ lowest ≤ n ∧ n < inserted b.log signer

theorem counter_update (b : Books) (signer : Address) (own : Option Nat) (s : Address) :
    (Function.update b.nonces signer own s).getD 0 =
      if s = signer then own.getD 0 else b.counter s := by
  by_cases hs : s = signer
  · rw [hs, Function.update_self, if_pos rfl]
  · rw [Function.update_of_ne hs, if_neg hs]
    rfl

/-- No document is under way. -/
def Stage.isQuiet (φ : Stage) : Prop :=
  (∀ signer nonce, φ ≠ .polled signer nonce) ∧ ∀ doc, φ ≠ .assigned doc

theorem Counted.counter_le (h : Counted b φ) (hφ : ∀ doc, φ ≠ .assigned doc) (signer : Address) :
    b.counter signer ≤ inserted b.log signer := by
  rcases h.counters signer with hle | ⟨doc, hdoc, -⟩
  · exact hle
  · exact (hφ doc hdoc).elim

/-- One more entry, which is no insertion. -/
theorem Counted.snoc (h : Counted b φ) {e : LogEntry} (hnonces : b'.nonces = b.nonces)
    (hlog : b'.log = b.log ++ [e]) (hnone : insertions [e] = [])
    (hcounts : ∀ signer n, (signer, n) ∈ pendingCounts [e] → n ≤ inserted b.log signer) :
    Counted b' φ := by
  have hinsertions : insertions b'.log = insertions b.log := by
    rw [hlog, insertions_snoc, hnone, List.append_nil]
  have hinserted (signer : Address) : inserted b'.log signer = inserted b.log signer := by
    unfold inserted
    rw [hinsertions]
  have hcounter (signer : Address) : b'.counter signer = b.counter signer := by
    unfold Books.counter
    rw [hnonces]
  constructor
  · intro signer n
    rw [hinsertions, hinserted]
    exact h.keys signer n
  · intro signer n hn
    rw [hlog, pendingCounts_snoc] at hn
    rw [hinserted]
    exact (List.mem_append.mp hn).elim (h.counts signer n) (hcounts signer n)
  · intro signer
    rw [hinserted, hcounter]
    exact h.counters signer
  · intro signer nonce hφ
    rw [hinserted]
    exact h.polled signer nonce hφ
  · intro doc hφ
    rw [hinserted]
    exact h.assigned doc hφ

/-- The counters that are not above the number of documents will do when no document is under
way. -/
theorem Counted.settle (h : Counted b φ) (hlog : b'.log = b.log)
    (hcounters : ∀ signer, b'.counter signer ≤ inserted b.log signer) (hφ' : φ'.isQuiet) :
    Counted b' φ' where
  keys := hlog ▸ h.keys
  counts := hlog ▸ h.counts
  counters signer := by
    rw [hlog]
    exact Or.inl (hcounters signer)
  polled signer nonce hφ := (hφ'.1 signer nonce hφ).elim
  assigned doc hφ := (hφ'.2 doc hφ).elim

/-- A counter that is lifted is what the node has answered. -/
theorem counter_lift (signer : Address) (nonce : Nat) (s : Address) :
    (b.lift signer nonce).counter s = b.counter s ∨
      s = signer ∧ (b.lift signer nonce).counter s = nonce := by
  unfold Books.lift
  split
  · split
    · by_cases hs : s = signer
      · exact Or.inr ⟨hs, (counter_update b signer (some nonce) s).trans (if_pos hs)⟩
      · exact Or.inl ((counter_update b signer (some nonce) s).trans (if_neg hs))
    · exact Or.inl rfl
  · exact Or.inl rfl

theorem Counted.lift (h : Counted b φ) {signer : Address} {nonce : Nat}
    (hn : (signer, nonce) ∈ pendingCounts b.log) : Counted (b.lift signer nonce) φ := by
  have hlog : (b.lift signer nonce).log = b.log := lift_log signer nonce
  constructor
  · rw [hlog]
    exact h.keys
  · rw [hlog]
    exact h.counts
  · intro s
    rw [hlog]
    rcases counter_lift signer nonce s with hsame | ⟨rfl, hlifted⟩
    · rw [hsame]
      exact h.counters s
    · rw [hlifted]
      exact Or.inl (h.counts s nonce hn)
  · rw [hlog]
    exact h.polled
  · rw [hlog]
    exact h.assigned

theorem Counted.assign (h : Counted b φ) {nonce : Option Nat} {signedTx : SignedTransaction}
    {doc : StoredTransaction} (hφ : φ = .polled signedTx.signer nonce)
    (hnonce : signedTx.transaction.nonce = nonce.getD 0) (hdoc : Records cfg signedTx doc) :
    Counted (b.assign signedTx) (.assigned doc) where
  keys := h.keys
  counts := h.counts
  counters s := by
    have hle := h.counter_le (fun doc hdoc => by rw [hφ] at hdoc; cases hdoc) s
    have hcounter : (b.assign signedTx).counter s =
        if s = signedTx.signer then ((b.nonces signedTx.signer).map (· + 1)).getD 0
        else b.counter s := counter_update b _ _ s
    rw [hcounter]
    by_cases hs : s = signedTx.signer
    · rw [if_pos hs]
      refine Or.inr ⟨doc, rfl, hdoc.2.trans hs.symm, ?_⟩
      show _ ≤ inserted b.log s + 1
      rw [hs] at hle ⊢
      unfold Books.counter at hle
      cases hown : b.nonces signedTx.signer with
      | none => exact Nat.zero_le _
      | some own =>
          rw [hown] at hle
          exact Nat.succ_le_succ hle
    · rw [if_neg hs]
      exact Or.inl hle
  polled signer nonce hφ := by cases hφ
  assigned d hd := by
    obtain rfl := Stage.assigned.inj hd
    have hn : doc.nonce = signedTx.transaction.nonce := congrArg (·.nonce) hdoc.1
    rw [hn, hnonce, hdoc.2]
    exact h.polled _ _ hφ

/-- The new document has the least nonce that was never stored. -/
theorem Counted.nonce_eq (h : Counted b (.assigned doc))
    (hinformed : Informed cfg b (.assigned doc))
    {e : LogEntry} (hfree : b.txstore.any (clashes doc) = false) (hmay : MayInsert b e doc) :
    doc.nonce = inserted b.log doc.from := by
  refine Nat.le_antisymm (h.assigned doc rfl) (Nat.le_of_not_lt fun hlt => ?_)
  obtain ⟨d, hd, hkey⟩ := (h.keys doc.from doc.nonce).mpr hlt
  have hnonce : d.nonce = doc.nonce := congrArg NonceSigner.nonce hkey
  have hsigner : d.from = doc.from := congrArg NonceSigner.signer hkey
  rcases hmay.2 d hd hsigner with ⟨d', hd', hkey'⟩ | ⟨n, hn, hlt'⟩
  · have hno := List.any_eq_false.mp hfree d' hd'
    refine hno ?_
    have heq : d'.nonceSigner = doc.nonceSigner := hkey'.trans hkey
    simp [clashes, heq]
  · -- the node has counted the removed document, so the nonce is above it
    rw [← hmay.1] at hn
    have hle := hinformed.assigned doc rfl n hn
    omega

theorem Counted.insert (h : Counted b (.assigned doc)) {i : ℕ}
    (hnonce : doc.nonce = inserted b.log doc.from) (hnonces : b'.nonces = b.nonces)
    (hlog : b'.log = b.log ++ [.answered i (.insert doc) (.ok ())]) : Counted b' .closed := by
  have hinsertions : insertions b'.log = insertions b.log ++ [doc] := by
    rw [hlog, insertions_snoc]
    rfl
  have hinserted (s : Address) :
      inserted b'.log s = inserted b.log s + if doc.from = s then 1 else 0 := by
    unfold inserted
    rw [hinsertions, List.filter_append, List.length_append]
    by_cases hs : doc.from = s
    · simp [hs]
    · simp [hs]
  constructor
  -- the new document has the next nonce of its signer
  · intro s n
    rw [hinserted, hinsertions]
    have hkeys := h.keys s n
    constructor
    · rintro ⟨d, hd, hkey⟩
      rcases List.mem_append.mp hd with hd | hd
      · have hlt := hkeys.mp ⟨d, hd, hkey⟩
        omega
      · obtain rfl := List.mem_singleton.mp hd
        have hn : d.nonce = n := congrArg NonceSigner.nonce hkey
        have hs : d.from = s := congrArg NonceSigner.signer hkey
        rw [if_pos hs, ← hn, hnonce, hs]
        exact Nat.lt_succ_self _
    · intro hlt
      by_cases hold : n < inserted b.log s
      · obtain ⟨d, hd, hkey⟩ := hkeys.mpr hold
        exact ⟨d, List.mem_append_left _ hd, hkey⟩
      · by_cases hs : doc.from = s
        · rw [if_pos hs] at hlt
          have hn : doc.nonce = n := by
            rw [hnonce, hs]
            omega
          exact ⟨doc, List.mem_append_right _ (List.mem_singleton_self _), by rw [← hn, ← hs]; rfl⟩
        · rw [if_neg hs] at hlt
          exact (hold hlt).elim
  · intro s n hn
    rw [hlog, pendingCounts_snoc] at hn
    rw [hinserted]
    have hle := h.counts s n ((List.mem_append.mp hn).elim id fun hn => by cases hn)
    omega
  -- the counter was ahead by this document only
  · intro s
    left
    rw [hinserted]
    have hcounter : b'.counter s = b.counter s := by
      unfold Books.counter
      rw [hnonces]
    rw [hcounter]
    rcases h.counters s with hle | ⟨d, hd, hs, hle⟩
    · omega
    · obtain rfl := Stage.assigned.inj hd
      rw [if_pos hs]
      exact hle
  · exact fun signer nonce hφ => by cases hφ
  · exact fun d hd => by cases hd

theorem insertions_of_plain {i : ℕ} {q : Question} {a : Except String (Answer q)}
    (hq : isPlain q a = true) : insertions [.answered i q a] = [] := by
  cases q with
  | insert tx =>
      cases a with
      | ok a => cases hq
      | error e => rfl
  | _ => cases a <;> rfl

theorem Gapless.failed {i : ℕ} {q : Question} {e : String} {key : NonceSigner}
    (h : Gapless b (.answered i q (.error e))) (hq : q.storing = some key)
    (hmutex : b.nonceMutex = some i) : b.counter key.signer ≤ inserted b.log key.signer := by
  exact h.2.2 key (List.mem_filterMap.mpr ⟨_, List.mem_singleton_self _, hq⟩) hmutex

theorem Counted.step (h : Counted b φ) (hinformed : Informed cfg b φ)
    (hstep : Booking cfg Gapless b φ b' φ') : Counted b' φ' := by
  have hquiet {φ : Stage} (hφ : φ = .idle ∨ φ = .held ∨ φ = .closed) : φ.isQuiet := by
    rcases hφ with rfl | rfl | rfl <;>
      exact ⟨fun _ _ => Stage.noConfusion, fun _ => Stage.noConfusion⟩
  cases hstep with
  | mark e he =>
      refine h.snoc rfl rfl ?_ fun signer n hn => ?_
      · cases e <;> first | rfl | cases he
      · cases e <;> first | cases hn | cases he
  | call i c hR => exact h.snoc rfl rfl rfl fun signer n hn => by cases hn
  | answer i q a hq hcount hR =>
      exact h.snoc rfl rfl (insertions_of_plain hq) fun signer n hn => hR.1 (signer, n) hn
  | lift signer nonce hn => exact h.lift hn
  | remove i key hR => exact h.snoc rfl rfl rfl fun signer n hn => by cases hn
  | update i txId tx htraced hkey hR => exact h.snoc rfl rfl rfl fun signer n hn => by cases hn
  | putBack i tx hmutex htraced hfree hR =>
      exact (hmutex (hR.2.1 tx (List.mem_singleton_self _)).1).elim
  | resign tx gasPrice htx => exact ⟨h.keys, h.counts, h.counters, h.polled, h.assigned⟩
  | acquire i hfree hR =>
      have hidle := h.counter_le fun _ hφ => by cases hφ
      have hheld : Counted { b with nonceMutex := some i } .held :=
        h.settle rfl hidle (hquiet (by simp))
      exact hheld.snoc rfl rfl rfl fun signer n hn => by cases hn
  | count i signer n hmutex hR =>
      have hcounted : Counted b (.counted signer n) :=
        h.settle rfl (h.counter_le fun _ hφ => by cases hφ)
          ⟨fun _ _ => Stage.noConfusion, fun _ => Stage.noConfusion⟩
      exact hcounted.snoc rfl rfl rfl fun s k hn => hR.1 (s, k) hn
  | poll signer n hle' =>
      have hle := h.counter_le fun _ hφ => by cases hφ
      refine ⟨h.keys, h.counts, fun s => .inl (hle s), fun s nonce hφ => ?_,
        fun doc hφ => by cases hφ⟩
      obtain ⟨rfl, rfl⟩ := Stage.polled.inj hφ
      exact hle signer
  | assign nonce signedTx doc hsigner hnonce hdoc => exact h.assign rfl hnonce hdoc
  | insert i doc hmutex hfree hR =>
      -- the nonce of the document is the number of those inserted before it
      have hmay := hR.2.1 doc (List.mem_singleton_self _)
      exact h.insert (h.nonce_eq hinformed hfree hmay) rfl rfl
  | lose i doc q e hmutex hq hR =>
      -- the database may fail only if no nonce was counted for the document
      have hmay : b.counter doc.from ≤ inserted b.log doc.from := hR.failed hq hmutex
      have hnone : insertions [.answered i q (.error e)] = [] := by cases q <;> rfl
      have hcounters : ∀ signer, b.counter signer ≤ inserted b.log signer := by
        intro signer
        rcases h.counters signer with hle | ⟨d, hd, hs, -⟩
        · exact hle
        · obtain rfl := Stage.assigned.inj hd
          exact hs ▸ hmay
      exact (h.settle rfl hcounters (hquiet (by simp))).snoc rfl rfl hnone
        fun signer n hn => hR.1 (signer, n) hn
  | giveUp hφ =>
      refine h.settle rfl (h.counter_le fun doc hdoc => ?_) (hquiet (by simp))
      rcases hφ with rfl | ⟨signer, nonce, rfl⟩ <;> cases hdoc
  | release => exact h.settle rfl (h.counter_le fun _ hφ => by cases hφ) (hquiet (by simp))
  | restart hR =>
      have hzero (signer : Address) : (b.restarted cfg).counter signer ≤ inserted b.log signer := by
        have hnone : (b.restarted cfg).counter signer = 0 := by
          unfold Books.counter Books.restarted
          show (if _ then _ else _ : Option Nat).getD 0 = 0
          split <;> rfl
        omega
      have hidle : Counted { b.restarted cfg with log := b.log } .idle :=
        h.settle rfl hzero (hquiet (by simp))
      exact hidle.snoc rfl rfl rfl fun signer n hn => by cases hn

theorem Counted.new : Counted (.new cfg) .idle := by
  have hzero (signer : Address) : (Books.new cfg).counter signer = 0 := by
    unfold Books.counter Books.new
    show (if _ then _ else _ : Option Nat).getD 0 = 0
    split <;> rfl
  constructor
  · intro signer n
    constructor
    · rintro ⟨d, hd, -⟩
      cases hd
    · exact fun hlt => (Nat.not_lt_zero n hlt).elim
  · exact fun signer n hn => by cases hn
  · exact fun signer => Or.inl (hzero signer).le
  · exact fun signer nonce hφ => by cases hφ
  · exact fun doc hφ => by cases hφ

/-! ### The documents -/

theorem Booking.signatures_subset {R : Books → LogEntry → Prop} (h : Booking cfg R b φ b' φ') :
    b.signatures ⊆ b'.signatures := by
  cases h with
  | lift signer nonce hn =>
      rw [lift_signatures]
      exact List.Subset.refl _
  | resign tx gasPrice htx => exact List.subset_append_left _ _
  | assign nonce signedTx doc hsigner hnonce hdoc => exact List.subset_append_left _ _
  | _ => exact List.Subset.refl _

/-- No two of the signed transactions have the same hash. -/
def Distinct (cfg : Config) (signatures : List Signature) : Prop :=
  Set.InjOn cfg.hash {tx | ∃ s ∈ signatures, s.signedTx = tx}

theorem Distinct.mono {l l' : List Signature} (h : Distinct cfg l') (hl : l ⊆ l') :
    Distinct cfg l := by
  refine Set.InjOn.mono ?_ h
  rintro tx ⟨s, hs, htx⟩
  exact ⟨s, hl hs, htx⟩

/-- The document that `update` replaces has the key of the new one. -/
theorem sameKey_nonceSigner (h : Distinct cfg b.signatures) {d tx : StoredTransaction}
    (hd : Traced cfg b.signatures d) (hkey : SameKey cfg b.signatures d.txId tx) :
    d.nonceSigner = tx.nonceSigner := by
  obtain ⟨s, hs, hrecords, hfrom⟩ := hd
  obtain ⟨s', hs', hhash, hsigner, hnonce⟩ := hkey
  have hid : d.txId = cfg.hash s.signedTx := congrArg (·.txId) hrecords
  have hn : d.nonce = s.signedTx.transaction.nonce := congrArg (·.nonce) hrecords
  have heq : s'.signedTx = s.signedTx := h ⟨s', hs', rfl⟩ ⟨s, hs, rfl⟩ (hhash.trans hid)
  rw [heq] at hsigner hnonce
  show NonceSigner.mk d.nonce d.from = ⟨tx.nonce, tx.from⟩
  rw [hn, hnonce, hfrom, hsigner]

theorem replace_keys {store : List StoredTransaction} {txId : Word} {tx : StoredTransaction}
    (h : ∀ d ∈ store, d.txId = txId → d.nonceSigner = tx.nonceSigner) (key : NonceSigner) :
    (∃ d ∈ replace txId tx store, d.nonceSigner = key) ↔ ∃ d ∈ store, d.nonceSigner = key := by
  constructor
  · rintro ⟨d, hd, hkey⟩
    rcases mem_replace.mp hd with ⟨rfl, doc, hdoc, hid⟩ | ⟨hold, -⟩
    · exact ⟨doc, hdoc, (h doc hdoc hid).trans hkey⟩
    · exact ⟨d, hold, hkey⟩
  · rintro ⟨d, hd, hkey⟩
    by_cases hid : d.txId = txId
    · exact ⟨tx, mem_replace.mpr (.inl ⟨rfl, d, hd, hid⟩), (h d hd hid).symm.trans hkey⟩
    · exact ⟨d, mem_replace.mpr (.inr ⟨hd, hid⟩), hkey⟩

/-- Nothing is inserted, and the keys stay. -/
theorem Consecutive.same (h : Consecutive b) (hinsertions : insertions b'.log = insertions b.log)
    (hkeys : ∀ key,
      (∃ d ∈ b'.txstore, d.nonceSigner = key) ↔ ∃ d ∈ b.txstore, d.nonceSigner = key) :
    Consecutive b' := by
  intro signer
  obtain ⟨lowest, hle, hstored⟩ := h signer
  have hinserted : inserted b'.log signer = inserted b.log signer := by
    unfold inserted
    rw [hinsertions]
  rw [hinserted]
  exact ⟨lowest, hle, fun n => (hkeys _).trans (hstored n)⟩

/-- `removeTxsUntilNonce` takes the lowest nonces. -/
theorem Consecutive.remove (h : Consecutive b) (key : NonceSigner)
    (hinsertions : insertions b'.log = insertions b.log)
    (hstore : b'.txstore = b.txstore.filter fun doc => !key.covers doc) : Consecutive b' := by
  intro signer
  obtain ⟨lowest, hle, hstored⟩ := h signer
  have hinserted : inserted b'.log signer = inserted b.log signer := by
    unfold inserted
    rw [hinsertions]
  have hcovers (d : StoredTransaction) (n : Nat) (hd : d.nonceSigner = ⟨n, signer⟩) :
      key.covers d = true ↔ signer = key.signer ∧ n ≤ key.nonce := by
    have hn : d.nonce = n := congrArg NonceSigner.nonce hd
    have hs : d.from = signer := congrArg NonceSigner.signer hd
    simp [NonceSigner.covers, hn, hs]
  have hkept (n : Nat) : (∃ d ∈ b'.txstore, d.nonceSigner = ⟨n, signer⟩) ↔
      (lowest ≤ n ∧ n < inserted b.log signer) ∧ ¬ (signer = key.signer ∧ n ≤ key.nonce) := by
    rw [hstore, ← hstored]
    constructor
    · rintro ⟨d, hd, hkey⟩
      obtain ⟨hd, hnot⟩ := List.mem_filter.mp hd
      refine ⟨⟨d, hd, hkey⟩, fun hcov => ?_⟩
      simp [(hcovers d n hkey).mpr hcov] at hnot
    · rintro ⟨⟨d, hd, hkey⟩, hnot⟩
      refine ⟨d, List.mem_filter.mpr ⟨hd, ?_⟩, hkey⟩
      rw [← hcovers d n hkey, Bool.not_eq_true] at hnot
      rw [hnot]
      rfl
  rw [hinserted]
  by_cases hs : signer = key.signer
  · refine ⟨min (max lowest (key.nonce + 1)) (inserted b.log signer), min_le_right _ _, fun n => ?_⟩
    rw [hkept]
    simp only [hs, true_and]
    omega
  · refine ⟨lowest, hle, fun n => ?_⟩
    rw [hkept]
    simp only [hs, false_and, not_false_eq_true, and_true]

/-- A document is inserted with the next nonce. -/
theorem Consecutive.insert (h : Consecutive b) {i : ℕ}
    (hnonce : doc.nonce = inserted b.log doc.from)
    (hlog : b'.log = b.log ++ [.answered i (.insert doc) (.ok ())])
    (hstore : b'.txstore = b.txstore ++ [doc]) : Consecutive b' := by
  intro signer
  obtain ⟨lowest, hle, hstored⟩ := h signer
  have hinserted : inserted b'.log signer =
      inserted b.log signer + if doc.from = signer then 1 else 0 := by
    rw [hlog, inserted_snoc]
    by_cases hs : doc.from = signer <;> simp [inserted, insertions, hs]
  have hmem (n : Nat) : (∃ d ∈ b'.txstore, d.nonceSigner = ⟨n, signer⟩) ↔
      (lowest ≤ n ∧ n < inserted b.log signer) ∨ (doc.nonce = n ∧ doc.from = signer) := by
    rw [hstore, ← hstored]
    constructor
    · rintro ⟨d, hd, hkey⟩
      rcases List.mem_append.mp hd with hd | hd
      · exact Or.inl ⟨d, hd, hkey⟩
      · obtain rfl := List.mem_singleton.mp hd
        exact Or.inr ⟨congrArg NonceSigner.nonce hkey, congrArg NonceSigner.signer hkey⟩
    · rintro (⟨d, hd, hkey⟩ | ⟨rfl, rfl⟩)
      · exact ⟨d, List.mem_append_left _ hd, hkey⟩
      · exact ⟨doc, List.mem_append_right _ (List.mem_singleton_self _), rfl⟩
  refine ⟨lowest, (hinserted ▸ Nat.le_add_right_of_le hle), fun n => ?_⟩
  rw [hmem, hinserted, hnonce]
  by_cases hs : doc.from = signer
  · subst hs
    simp only [and_true, if_true]
    omega
  · simp only [hs, and_false, or_false, if_false, Nat.add_zero]

theorem Consecutive.step (h : Consecutive b) (hcounted : Counted b φ) (hinformed : Informed cfg b φ)
    (hdoc : Documented cfg b φ) (hdistinct : Distinct cfg b'.signatures)
    (hstep : Booking cfg Gapless b φ b' φ') :
    Consecutive b' := by
  have hsnoc {e : LogEntry} (hnone : insertions [e] = []) :
      insertions (b.log ++ [e]) = insertions b.log := by
    rw [insertions_snoc, hnone, List.append_nil]
  have hsigs := hdistinct.mono hstep.signatures_subset
  cases hstep with
  | mark e he =>
      refine h.same (hsnoc ?_) fun _ => Iff.rfl
      cases e <;> first | rfl | cases he
  | call i c hR => exact h.same (hsnoc rfl) fun _ => Iff.rfl
  | answer i q a hq hcount hR => exact h.same (hsnoc (insertions_of_plain hq)) fun _ => Iff.rfl
  | lift signer nonce hn =>
      refine h.same ?_ fun key => ?_
      · rw [lift_log]
      · rw [lift_txstore]
  | remove i key hR => exact h.remove key (hsnoc rfl) rfl
  | update i txId tx htraced hkey hR =>
      refine h.same (hsnoc rfl) (replace_keys fun d hd hid => ?_)
      subst hid
      exact sameKey_nonceSigner hsigs (hdoc.store d hd) hkey
  | putBack i tx hmutex htraced hfree hR =>
      exact (hmutex (hR.2.1 tx (List.mem_singleton_self _)).1).elim
  | resign tx gasPrice htx => exact h.same rfl fun _ => Iff.rfl
  | acquire i hfree hR => exact h.same (hsnoc rfl) fun _ => Iff.rfl
  | count i signer n hmutex hR => exact h.same (hsnoc rfl) fun _ => Iff.rfl
  | poll signer n hle => exact h
  | assign nonce signedTx doc hsigner hnonce hdoc => exact h.same rfl fun _ => Iff.rfl
  | insert i doc hmutex hfree hR =>
      have hmay := hR.2.1 doc (List.mem_singleton_self _)
      exact h.insert (hcounted.nonce_eq hinformed hfree hmay) rfl rfl
  | lose i doc q e hmutex hq hR => exact h.same (hsnoc (by cases q <;> rfl)) fun _ => Iff.rfl
  | giveUp hφ => exact h
  | release => exact h.same rfl fun _ => Iff.rfl
  | restart hR => exact h.same (hsnoc rfl) fun _ => Iff.rfl

theorem Booked.consecutive (h : Booked cfg Gapless b φ) (hdistinct : Distinct cfg b.signatures) :
    Counted b φ ∧ Consecutive b := by
  induction h with
  | new =>
      refine ⟨.new, fun signer => ⟨0, Nat.zero_le _, fun n => ⟨?_, fun hn => ?_⟩⟩⟩
      · rintro ⟨d, hd, -⟩
        cases hd
      · exact (Nat.not_lt_zero n hn.2).elim
  | step h hstep ih =>
      obtain ⟨hcounted, hconsecutive⟩ := ih (hdistinct.mono hstep.signatures_subset)
      exact ⟨hcounted.step h.informed hstep,
        hconsecutive.step hcounted h.informed h.documented hdistinct hstep⟩

/-! ## One call after the other -/

/-- The node's answers to how many transactions `signer` has sent. -/
def counts (signer : Address) (l : Exchanges) : List Nat :=
  l.filterMap fun
    | ⟨.getTransactionCount addr, .ok n⟩ => if addr = signer then some n else none
    | _ => none

/-- The documents that were inserted. -/
def inserts (l : Exchanges) : List StoredTransaction :=
  l.filterMap fun
    | ⟨.insert tx, .ok _⟩ => some tx
    | _ => none

/-- The call has come so far as to store its document. -/
def Stores (l : Exchanges) : Prop := ∃ x ∈ l, x.1.storing.isSome = true

instance (l : Exchanges) : Decidable (Stores l) := inferInstanceAs (Decidable (∃ _ ∈ _, _))

theorem stores_append (l l' : Exchanges) : Stores (l ++ l') ↔ Stores l ∨ Stores l' := by
  simp only [Stores, List.mem_append, or_and_right, exists_or]

theorem not_stores {q : Question} (hq : q.storing = none) (a : Except String (Answer q)) :
    ¬ Stores [⟨q, a⟩] := by
  rintro ⟨x, hx, hstoring⟩
  obtain rfl := List.mem_singleton.mp hx
  rw [hq] at hstoring
  cases hstoring

theorem inserts_append (l l' : Exchanges) : inserts (l ++ l') = inserts l ++ inserts l' :=
  List.filterMap_append

theorem counts_append (signer : Address) (l l' : Exchanges) :
    counts signer (l ++ l') = counts signer l ++ counts signer l' := List.filterMap_append

variable {ν ω : Type} {N : Node ν ω} {i : ℕ} {m m' : Memory ν} {own : Option Nat} {signer : Address}
  {l : Exchanges}

/-- The mutex and the documents are as before. -/
def Kept (m m' : Memory ν) : Prop := m'.nonceMutex = m.nonceMutex ∧ m'.txstore = m.txstore

/-- The counter after the node has answered with `n`. -/
def lifted (own : Option Nat) (n : Nat) : Option Nat := own.map (max · n)

/-- What comes of a call if the counter was `own`, and the nonce of the document if it was
stored: the call fails before it gets to that, or while it does, or the document is stored. -/
inductive Attempt (signer : Address) (own : Option Nat) (m : Memory ν) :
    Exchanges → Option Nat → Memory ν → Prop
  | early {l : Exchanges} {m' : Memory ν} (hkept : Kept m m') (hstores : ¬ Stores l)
      (hnonces : m'.nonces signer = own ∨
        ∃ n, counts signer l = [n] ∧ m'.nonces signer = lifted own n) :
      Attempt signer own m l none m'
  | lost {l : Exchanges} {m' : Memory ν} (hkept : Kept m m') (hstores : Stores l)
      (hinserts : inserts l = []) (n : Nat) (hcounts : counts signer l = [n])
      (hnonces : m'.nonces signer = (lifted own n).map (· + 1)) : Attempt signer own m l none m'
  | stored {l : Exchanges} {m' : Memory ν} (hinserts : inserts l ≠ []) (n : Nat)
      (hcounts : counts signer l = [n]) : Attempt signer own m l (some ((lifted own n).getD 0)) m'

/-- Alone, a question that neither concerns nonces nor documents. -/
def IsIdle (signer : Address) (l : Exchanges) : Prop :=
  ¬ Stores l ∧ inserts l = [] ∧ counts signer l = []

theorem IsIdle.append_attempt {l' : Exchanges} {used : Option Nat} (h : IsIdle signer l)
    (hattempt : Attempt signer own m l' used m') : Attempt signer own m (l ++ l') used m' := by
  have hstores : Stores (l ++ l') ↔ Stores l' := by rw [stores_append, or_iff_right h.1]
  have hinserts : inserts (l ++ l') = inserts l' := by rw [inserts_append, h.2.1, List.nil_append]
  have hcounts : counts signer (l ++ l') = counts signer l' := by
    rw [counts_append, h.2.2, List.nil_append]
  cases hattempt with
  | early hkept hnot hnonces =>
      exact .early hkept (hstores.not.mpr hnot) (hcounts.symm ▸ hnonces)
  | lost hkept hdoes hnone n hone hnonces =>
      exact .lost hkept (hstores.mpr hdoes) (hinserts.trans hnone) n (hcounts.trans hone) hnonces
  | stored hsome n hone => exact .stored (hinserts.symm ▸ hsome) n (hcounts.trans hone)

theorem liftNonce_nonces (n : Nat) (m : Memory ν) :
    (liftNonce signer n m).nonces signer = lifted (m.nonces signer) n := by
  unfold liftNonce
  cases hown : m.nonces signer with
  | none => exact hown
  | some own =>
      show (if n > own then setNonce signer n m else m).nonces signer = some (max own n)
      by_cases hlt : n > own
      · rw [if_pos hlt, max_eq_right (Nat.le_of_lt hlt)]
        exact Function.update_self _ _ _
      · rw [if_neg hlt, max_eq_left (Nat.le_of_not_lt hlt)]
        exact hown

theorem liftNonce_kept (n : Nat) (m : Memory ν) : Kept m (liftNonce signer n m) := by
  unfold liftNonce
  split
  · split <;> exact ⟨rfl, rfl⟩
  · exact ⟨rfl, rfl⟩

/-- What `pollNonce` ends with. -/
def Polls (signer : Address) (m : Memory ν) (l : Exchanges) (r : Except String (Option Nat))
    (m' : Memory ν) : Prop :=
  Kept m m' ∧ ¬ Stores l ∧ inserts l = [] ∧
    match r with
    | .ok nonce => ∃ n, counts signer l = [n] ∧ nonce = lifted (m.nonces signer) n ∧
        m'.nonces signer = lifted (m.nonces signer) n
    | .error _ => m'.nonces signer = m.nonces signer

theorem isIdle_settled (f : AsyncFunction) (a : Except String Unit) :
    IsIdle signer [⟨.settled f, a⟩] := by
  refine ⟨not_stores (q := .settled f) rfl a, ?_, ?_⟩ <;> cases a <;> rfl

/-- Waiting for a promise of the server. -/
theorem ensures_awaiting {α : Type} {p : Handler ν α} {q : Except String α → AsyncFunction}
    {Φ : Exchanges → Except String α → Memory ν → Prop} (hp : Ensures (outside N i Eq) p m Φ)
    (hΦ : ∀ l r m' a, Φ l r m' → Φ (l ++ [⟨.settled (q r), a⟩]) r m') :
    Ensures (outside N i Eq) (p.call fun r => .settled (q r)) m Φ := by
  refine (ensures_handle _ _).mpr (Ensures.mono hp fun l r m₁ h => ?_)
  refine (ensures_ask _ _).mpr ?_
  rintro m₂ a m₃ rfl - hresumed
  have hsame : effect N m₁ i (.settled (q r)) a = m₁ := effect_of_isRead N rfl m₁ i a
  obtain rfl : m₁ = m₃ := hsame.symm.trans hresumed
  exact (ensures_done _).mpr (hΦ l r m₁ a h)

theorem polled_ensures (signer : Address) :
    Ensures (outside N i Eq) (polled signer) m (Polls signer m) := by
  have hpoll : Ensures (outside N i Eq) (pollNonce signer) m (Polls signer m) := by
    refine ensures_await.mpr ?_
    rintro m₁ a m₂ rfl - hresumed
    have hsame : effect N m i (.getTransactionCount signer) a = m := effect_of_isRead N rfl m i a
    obtain rfl : m = m₂ := hsame.symm.trans hresumed
    have hnot : ¬ Stores [⟨.getTransactionCount signer, a⟩] :=
      not_stores (q := .getTransactionCount signer) rfl a
    cases a with
    | error e => exact (ensures_done _).mpr ⟨⟨rfl, rfl⟩, hnot, rfl, rfl⟩
    | ok n =>
        refine ensures_modify.mpr (ensures_get.mpr ((ensures_done _).mpr ?_))
        have hlifted : (liftNonce signer n m).nonces signer = _ := liftNonce_nonces n m
        exact ⟨liftNonce_kept n m, hnot, rfl, n, by simp [counts], hlifted, hlifted⟩
  refine ensures_awaiting hpoll fun l r m' a h => ?_
  obtain ⟨hkept, hnot, hinserts, hr⟩ := h
  have hidle : IsIdle signer [⟨.settled (.pollNonce signer r), a⟩] := isIdle_settled _ a
  obtain ⟨hnot', hinserts', hcounts'⟩ := hidle
  refine ⟨hkept, fun hstores => ((stores_append _ _).mp hstores).elim hnot hnot', ?_, ?_⟩
  · rw [inserts_append, hinserts, hinserts']
    rfl
  · cases r with
    | error e => exact hr
    | ok nonce =>
        obtain ⟨n, hcounts, hnonce, hnonces⟩ := hr
        refine ⟨n, ?_, hnonce, hnonces⟩
        rw [counts_append, hcounts, hcounts']
        rfl

/-- A new document is stored, or nothing happens. -/
def Puts (signer : Address) (m : Memory ν) (l : Exchanges) (r : Except String Unit)
    (m' : Memory ν) : Prop :=
  counts signer l = [] ∧ m'.nonces = m.nonces ∧ m'.nonceMutex = m.nonceMutex ∧
    match r with
    | .ok _ => inserts l ≠ []
    | .error _ => inserts l = [] ∧ m'.txstore = m.txstore

theorem putTx_ensures (doc : StoredTransaction) (hattempts : doc.attempts ≠ 0) :
    Ensures (outside N i Eq) (putTx cfg doc false) m fun l r m' =>
      Stores l ∧ Puts signer m l r m' := by
  refine ensures_assert.mpr ⟨fun _ => ?_, fun hnot => (hnot hattempts).elim⟩
  have hstores (a : Except String (Option StoredTransaction)) (l : Exchanges) :
      Stores (⟨.findOne doc.nonceSigner, a⟩ :: l) := ⟨_, List.mem_cons_self, rfl⟩
  have hinsert : Ensures (outside N i Eq) (ask (.insert doc)) m (Puts signer m) := by
    refine (ensures_ask _ _).mpr ?_
    rintro m₁ a m₂ rfl - rfl
    refine (ensures_done _).mpr ?_
    cases a with
    | ok a => exact ⟨rfl, rfl, rfl, List.cons_ne_nil _ _⟩
    | error e => exact ⟨rfl, rfl, rfl, rfl, rfl⟩
  refine ensures_await.mpr ?_
  rintro m₁ a m₂ rfl - hresumed
  have hsame : effect N m i (.findOne doc.nonceSigner) a = m := effect_of_isRead N rfl m i a
  obtain rfl : m = m₂ := hsame.symm.trans hresumed
  cases a with
  | error e => exact (ensures_done _).mpr ⟨hstores _ _, rfl, rfl, rfl, rfl, rfl⟩
  | ok existing =>
      cases existing <;> exact Ensures.mono hinsert fun l r m' h => ⟨hstores _ _, h⟩

theorem stores_append_settled {f : AsyncFunction} {a : Except String Unit} {r : Except String Unit}
    (h : Stores l ∧ Puts signer m l r m') :
    Stores (l ++ [⟨.settled f, a⟩]) ∧ Puts signer m (l ++ [⟨.settled f, a⟩]) r m' := by
  have hidle : IsIdle signer [⟨.settled f, a⟩] := isIdle_settled f a
  obtain ⟨-, hinserts, hcounts⟩ := hidle
  refine ⟨(stores_append _ _).mpr (.inl h.1), ?_⟩
  unfold Puts
  rw [counts_append, inserts_append, hinserts, hcounts, List.append_nil, List.append_nil]
  exact h.2

theorem assignNonce_ensures {cfg : Config} (d : SendTransactionDetails) (gasPrice : Nat) :
    Ensures (outside N i Eq) (assignNonce cfg d gasPrice) m fun l r m' =>
      match r with
      | .ok txs => Attempt d.signer (m.nonces d.signer) m l (some txs.1.transaction.nonce) m'
      | .error _ => Attempt d.signer (m.nonces d.signer) m l none m' := by
  refine Ensures.next (polled_ensures d.signer) ?_ ?_
  · rintro l nonce m₁ ⟨hkept, hnot, hinserts, n, hcounts, rfl, hnonces⟩
    -- so far no document is under way
    have hearly : Attempt d.signer (m.nonces d.signer) m (l ++ []) none m₁ := by
      rw [List.append_nil]
      exact .early hkept hnot (.inr ⟨n, hcounts, hnonces⟩)
    show Ensures _ ((encodeValue (d.value.getD 0)).handle (Async.next _)) m₁ _
    cases d.value.getD 0 with
    | negSucc v => exact (ensures_done _).mpr hearly
    | ofNat value =>
        refine (ensures_handle _ _).mpr ((ensures_done _).mpr ?_)
        refine (ensures_handle _ _).mpr (ensures_assert.mpr ⟨fun _ => ?_, fun _ => ?_⟩)
        · -- the counter is ahead from here on
          refine ensures_modify.mpr ((ensures_done _).mpr (ensures_modify.mpr ?_))
          refine Ensures.next (ensures_awaiting (q := fun _ => .putTx)
            (@putTx_ensures _ _ _ N i _ d.signer _ one_ne_zero) ?_) ?_ ?_
          · exact fun _ _ _ _ h => stores_append_settled h
          · rintro l' _ m' ⟨-, hcounts', -, -, hinserts'⟩
            refine (ensures_done _).mpr ?_
            simp only [List.nil_append, List.append_nil]
            refine .stored (fun hnone => hinserts' ?_) n ?_
            · rw [inserts_append, hinserts] at hnone
              exact hnone
            · rw [counts_append, hcounts, hcounts']
              rfl
          · rintro l' e m' ⟨hstores, hcounts', hnonces', hmutex', hinserts', hstore'⟩
            simp only [List.nil_append]
            refine .lost ⟨hmutex'.trans hkept.1, hstore'.trans hkept.2⟩ ?_ ?_ n ?_ ?_
            · exact (stores_append _ _).mpr (.inr hstores)
            · rw [inserts_append, hinserts, hinserts']
              rfl
            · rw [counts_append, hcounts, hcounts']
              rfl
            · rw [hnonces']
              show
                Function.update m₁.nonces d.signer ((m₁.nonces d.signer).map (· + 1)) d.signer = _
              rw [Function.update_self, hnonces]
        · exact (ensures_done _).mpr hearly
  · rintro l e m' ⟨hkept, hnot, hinserts, hnonces⟩
    exact .early hkept hnot (.inl hnonces)

/-- The thread has got the mutex and gives it back. -/
theorem Attempt.release {used : Option Nat} (hfree : m.nonceMutex = none)
    (h : Attempt signer own { m with nonceMutex := some i } l used m') :
    Attempt signer own m l used (releaseMutex m') := by
  cases h with
  | early hkept hnot hnonces => exact .early ⟨hfree.symm, hkept.2⟩ hnot hnonces
  | lost hkept hstores hinserts n hcounts hnonces =>
      exact .lost ⟨hfree.symm, hkept.2⟩ hstores hinserts n hcounts hnonces
  | stored hinserts n hcounts => exact .stored hinserts n hcounts

/-- What comes after a document was stored. -/
theorem Attempt.append {l' : Exchanges} {u : Nat} {m'' : Memory ν}
    (h : Attempt signer own m l (some u) m') (hcounts' : counts signer l' = []) :
    Attempt signer own m (l ++ l') (some u) m'' := by
  cases h with
  | stored hinserts n hcounts =>
      refine .stored (fun hnone => hinserts ?_) n ?_
      · rw [inserts_append] at hnone
        exact (List.append_eq_nil_iff.mp hnone).1
      · rw [counts_append, hcounts, hcounts']
        rfl

theorem broadcast_idle (signedTx : SignedTransaction) (storedTx : StoredTransaction) :
    Ensures (outside N i Eq) (broadcast signedTx storedTx) m fun l r _ =>
      counts signer l = [] ∧ ∀ details, r = .ok details → details.signedTx = signedTx := by
  refine ensures_await.mpr fun m₁ a m₂ _ _ _ => ?_
  cases a with
  | error e => exact (ensures_done _).mpr ⟨rfl, fun details hd => by cases hd⟩
  | ok hash =>
      refine ensures_assert.mpr ⟨fun _ => (ensures_done _).mpr ⟨rfl, ?_⟩, fun _ => ⟨rfl, ?_⟩⟩
      · rintro _ ⟨⟩
        rfl
      · exact fun details hd => by cases hd

theorem chooseGasPrice_ensures (d : SendTransactionDetails) :
    Ensures (outside N i Eq) (chooseGasPrice d) m fun l _ m' => IsIdle signer l ∧ m' = m := by
  have hnil : IsIdle signer [] := ⟨fun ⟨_, hx, _⟩ => (List.not_mem_nil hx).elim, rfl, rfl⟩
  unfold chooseGasPrice
  split
  · exact (ensures_done _).mpr ⟨hnil, rfl⟩
  · refine (ensures_ask _ _).mpr ?_
    rintro m₁ a m₂ rfl - hresumed
    have hsame : effect N m i .getGasPrice a = m := effect_of_isRead N rfl m i a
    obtain rfl : m = m₂ := hsame.symm.trans hresumed
    refine (ensures_done _).mpr ⟨⟨not_stores (q := .getGasPrice) rfl a, ?_, ?_⟩, rfl⟩
    all_goals cases a <;> rfl

/-- What comes of `sendTransaction`. The nonce of the transaction is that of the document. -/
def Sends (signer : Address) (m : Memory ν) (l : Exchanges)
    (r : Except String SignedTransactionDetails) (m' : Memory ν) : Prop :=
  ∃ used, Attempt signer (m.nonces signer) m l used m' ∧
    ∀ details, r = .ok details → used = some details.signedTx.transaction.nonce

theorem sendTransaction_ensures (d : SendTransactionDetails) :
    Ensures (outside N i Eq) (sendTransaction cfg d) m (Sends d.signer m) := by
  refine Ensures.next (@chooseGasPrice_ensures _ _ N i _ d.signer d) ?_ ?_
  · rintro l gasPrice m₀ ⟨hidle, hm₀⟩
    rw [hm₀]
    refine ensures_await.mpr fun m₁ a m₂ hm₁ hreply hm₂ => ?_
    rw [← hm₁] at hreply
    rw [← hm₂, ← hm₁]
    cases a with
    | error e => cases hreply
    | ok a =>
        have hfree : m.nonceMutex = none := Option.isNone_iff_eq_none.mp hreply.1
        have hacquire : IsIdle d.signer [⟨.acquire, .ok a⟩] :=
          ⟨not_stores (q := .acquire) rfl _, rfl, rfl⟩
        have hassign : Ensures (outside N i Eq) ((assignNonce cfg d gasPrice).ensuring releaseMutex)
            { m with nonceMutex := some i } fun l r m' => match r with
              | .ok txs =>
                  Attempt d.signer (m.nonces d.signer) m l (some txs.1.transaction.nonce) m'
              | .error _ => Attempt d.signer (m.nonces d.signer) m l none m' := by
          refine (ensures_handle _ _).mpr (Ensures.mono (assignNonce_ensures d gasPrice) ?_)
          intro l r m' h
          refine (ensures_update _ _).mpr ((ensures_done _).mpr ?_)
          rw [List.append_nil]
          cases r with
          | ok txs => exact Attempt.release hfree h
          | error e => exact Attempt.release hfree h
        refine Ensures.next hassign ?_ ?_
        · rintro l' ⟨signedTx, storedTx⟩ m₁ hattempt
          refine Ensures.mono (@broadcast_idle _ _ N i _ d.signer signedTx storedTx) ?_
          rintro l'' r m₂ ⟨hcounts, hr⟩
          refine ⟨_, ?_, fun details hd => by rw [hr details hd]⟩
          exact hidle.append_attempt (hacquire.append_attempt (hattempt.append hcounts))
        · intro l' e m' hattempt
          exact ⟨none, hidle.append_attempt (hacquire.append_attempt hattempt),
            fun details hd => by cases hd⟩
  · rintro l e _ ⟨hidle, rfl⟩
    exact ⟨none, .early ⟨rfl, rfl⟩ hidle.1 (.inl rfl), fun details hd => by cases hd⟩

/-! ### After calls that have failed -/

/-- Calls for `signer` fail one after the other, none of them having inserted its document; the
node counts `n` transactions, and `k` of the calls have come so far as to store their documents. -/
inductive Failing (cfg : Config) (N : Node ν ω) (signer : Address) (n : Nat) (m : Memory ν) :
    Nat → Memory ν → Prop
  | start : Failing cfg N signer n m 0 m
  | fail {k : Nat} {m₁ m₂ : Memory ν} {i : ℕ} {d : SendTransactionDetails} {l : Exchanges}
      {e : String} (h : Failing cfg N signer n m k m₁) (hsigner : d.signer = signer)
      (hrun : Runs (outside N i Eq) (sendTransaction cfg d) m₁ l (.error e) m₂)
      (hinserts : inserts l = []) (hcounts : ∀ c ∈ counts signer l, c = n) :
      Failing cfg N signer n m (k + if Stores l then 1 else 0) m₂

theorem Kept.trans {m₀ : Memory ν} (h : Kept m₀ m) (h' : Kept m m') : Kept m₀ m' :=
  ⟨h'.1.trans h.1, h'.2.trans h.2⟩

/-- A failed call keeps the mutex and the documents, and it raises the counter if it has come so
far as to store its document. -/
theorem failed_counter {d : SendTransactionDetails} {e : String} {n : Nat}
    (hrun : Runs (outside N i Eq) (sendTransaction cfg d) m l (.error e) m')
    (hinserts : inserts l = []) (hcounts : ∀ c ∈ counts d.signer l, c = n) :
    Kept m m' ∧ ∀ own, m.nonces d.signer = some own → ∃ own', m'.nonces d.signer = some own' ∧
      max own' n = max own n + if Stores l then 1 else 0 := by
  obtain ⟨used, hattempt, -⟩ := sendTransaction_ensures d l _ m' hrun
  have hone {c : Nat} (hc : counts d.signer l = [c]) : c = n :=
    hcounts c (hc ▸ List.mem_singleton_self c)
  cases hattempt with
  | early hkept hnot hnonces =>
      refine ⟨hkept, fun own hown => ?_⟩
      rw [if_neg hnot, Nat.add_zero]
      rcases hnonces with hsame | ⟨c, hc, hlifted⟩
      · exact ⟨own, hsame.trans hown, rfl⟩
      · obtain rfl := hone hc
        rw [hown] at hlifted
        exact ⟨max own c, hlifted, by omega⟩
  | lost hkept hstores hnone c hc hnonces =>
      refine ⟨hkept, fun own hown => ?_⟩
      obtain rfl := hone hc
      rw [hown] at hnonces
      rw [if_pos hstores]
      exact ⟨max own c + 1, hnonces, by omega⟩
  | stored hsome c hc => exact (hsome hinserts).elim

theorem Failing.counter {n k : Nat} (h : Failing cfg N signer n m k m') : Kept m m' ∧
    ∀ own, m.nonces signer = some own → ∃ own', m'.nonces signer = some own' ∧
      max own' n = max own n + k := by
  induction h with
  | start => exact ⟨⟨rfl, rfl⟩, fun own hown => ⟨own, hown, rfl⟩⟩
  | fail _ hsigner hrun hinserts hcounts ih =>
      subst hsigner
      obtain ⟨hkept, hcounter⟩ := failed_counter hrun hinserts hcounts
      refine ⟨ih.1.trans hkept, fun own hown => ?_⟩
      obtain ⟨own₁, hown₁, hmax₁⟩ := ih.2 own hown
      obtain ⟨own₂, hown₂, hmax₂⟩ := hcounter own₁ hown₁
      exact ⟨own₂, hown₂, by omega⟩

/-- The nonce of a call that succeeds. -/
theorem sent_nonce {d : SendTransactionDetails} {details : SignedTransactionDetails} {own n : Nat}
    (hown : m.nonces d.signer = some own)
    (hrun : Runs (outside N i Eq) (sendTransaction cfg d) m l (.ok details) m')
    (hcounts : ∀ c ∈ counts d.signer l, c = n) :
    details.signedTx.transaction.nonce = max own n := by
  obtain ⟨used, hattempt, hused⟩ := sendTransaction_ensures d l _ m' hrun
  have hsent := hused details rfl
  cases hattempt with
  | early | lost => cases hsent
  | stored hsome c hc =>
      obtain rfl : c = n := hcounts c (hc ▸ List.mem_singleton_self c)
      rw [hown] at hsent
      exact (Option.some.inj hsent).symm

/-! ## The result -/

/-- **A failed call leaves no gap but where the database fails.** Calls that fail before their
documents are inserted leave the mutex and the documents as they were, and the next transaction
gets the nonce that the first of them would have got if and only if none of them has come so far
as to store its document. In every run of a new server in which the node, the insertions and the
failures of the database are as `Gapless` says, no nonce of a signer is skipped: the documents
that were ever inserted have the nonces from zero on, each once, and those that are stored have
consecutive ones up to the last, each once. -/
theorem nonces_gapless :
    (∀ {ν ω : Type} (N : Node ν ω) (signer : Address) (n k : Nat) (m m' : Memory ν),
      Failing cfg N signer n m k m' → Kept m m' ∧
        ∀ (own i : ℕ) (d : SendTransactionDetails) (l : Exchanges)
          (details : SignedTransactionDetails) (m'' : Memory ν), m.nonces signer = some own →
          d.signer = signer → (∀ c ∈ counts signer l, c = n) →
          Runs (outside N i Eq) (sendTransaction cfg d) m' l (.ok details) m'' →
            (details.signedTx.transaction.nonce = max own n ↔ k = 0)) ∧
    ∀ {ν ω : Type} (N : Node ν ω) (node : ν) (p : Pool Call (Memory ν) Question Answer Reply),
      Run (server cfg N) (Accounted Gapless) (.fresh cfg [] [] node) p →
      Distinct cfg p.shared.memory.record.signatures →
      ∀ signer, (∀ n, (∃ d ∈ insertions p.shared.log, d.nonceSigner = ⟨n, signer⟩) ↔
          n < inserted p.shared.log signer) ∧
        (∃ lowest ≤ inserted p.shared.log signer, ∀ n,
          (∃ d ∈ p.shared.memory.txstore, d.nonceSigner = ⟨n, signer⟩) ↔
            lowest ≤ n ∧ n < inserted p.shared.log signer) ∧
        (p.shared.memory.txstore.map (·.nonceSigner)).Nodup := by
  constructor
  · intro ν ω N signer n k m m' h
    obtain ⟨hkept, hcounter⟩ := h.counter
    refine ⟨hkept, fun own i d l details m'' hown hsigner hcounts hrun => ?_⟩
    subst hsigner
    obtain ⟨own', hown', hmax⟩ := hcounter own hown
    rw [sent_nonce hown' hrun hcounts]
    omega
  · intro ν ω N node p hrun hdistinct signer
    obtain ⟨φ, hbooked⟩ := run_booked hrun
    obtain ⟨hcounted, hconsecutive⟩ := hbooked.consecutive hdistinct
    have hnew : Indexed ([] : List StoredTransaction) := ⟨List.nodup_nil, List.nodup_nil⟩
    have hindexed := indexed_run hnew hrun
    exact ⟨hcounted.keys signer, hconsecutive signer, hindexed.keys⟩

/-! ### One failure -/

/-- The node counts no transactions, and the questions in `failing` are answered by errors. -/
def countingAnswer (failing : Question → Bool) (q : Question) : Except String (Answer q) :=
  if failing q then .error "no answer"
  else match q with
    | .acquire | .insert _ | .settled _ => .ok ()
    | .findOne _ => .ok none
    | .getTransactionCount _ => .ok 0
    | .broadcastTransaction signedTx => .ok (plainConfig.hash signedTx)
    | _ => .error "no answer"

/-- A transfer of the manager to the worker. -/
abbrev refill : SendTransactionDetails :=
  ⟨0x11, .VALUE_TRANSFER, none, some 0x22, none, mintxgascost, some 10, 0⟩

/-- A call of thread `i`. -/
def refills (failing : Question → Bool) (i : ℕ) (m : Memory Unit) :
    Option (Exchanges × Except String SignedTransactionDetails × Memory Unit) :=
  follow (outside anyNode i Eq) (fun _ => countingAnswer failing)
    (sendTransaction plainConfig refill) m

theorem refills_runs {failing : Question → Bool} {m m' : Memory Unit}
    {r : Except String SignedTransactionDetails} (h : refills failing i m = some (l, r, m')) :
    Runs (outside anyNode i Eq) (sendTransaction plainConfig refill) m l r m' :=
  Runs.of_follow (fun _ => rfl) h

/-- A call that fails, and one that succeeds. -/
def refillsAfter (failing : Question → Bool) :
    Option ((Exchanges × String × Memory Unit) ×
      Exchanges × SignedTransactionDetails × Memory Unit) :=
  match refills failing 0 (.fresh plainConfig [] [] ()) with
  | some (l, .error e, m) =>
      match refills (fun _ => false) 1 m with
      | some (l', .ok details, m') => some ((l, e, m), l', details, m')
      | _ => none
  | _ => none

def isInsert : Question → Bool
  | .insert _ => true
  | _ => false

def isCount : Question → Bool
  | .getTransactionCount _ => true
  | _ => false

theorem refillsAfter_runs {failing : Question → Bool} {l l' : Exchanges} {e : String}
    {details : SignedTransactionDetails} {m m' : Memory Unit}
    (h : refillsAfter failing = some ((l, e, m), l', details, m')) :
    Runs (outside anyNode 0 Eq) (sendTransaction plainConfig refill) (.fresh plainConfig [] [] ()) l
      (.error e) m ∧
    Runs (outside anyNode 1 Eq) (sendTransaction plainConfig refill) m l' (.ok details) m' := by
  unfold refillsAfter at h
  split at h
  next l₁ e₁ m₁ hfirst =>
    split at h
    next l₂ details₂ m₂ hsecond =>
      obtain ⟨hpair, hrest⟩ := Prod.mk.inj (Option.some.inj h)
      obtain ⟨rfl, rfl, rfl⟩ := hpair
      obtain ⟨rfl, rfl, rfl⟩ := hrest
      exact ⟨refills_runs hfirst, refills_runs hsecond⟩
    next => cases h
  next => cases h

/-- **A gap.** The database fails to insert the document with the nonce 0. The next call gets the
nonce 1, although the node counts no transactions. -/
theorem gap_after_failed_insert : ∃ l e m l' details m',
    Runs (outside anyNode 0 Eq) (sendTransaction plainConfig refill) (.fresh plainConfig [] [] ()) l
      (.error e) m ∧
    inserts l = [] ∧ m.txstore = [] ∧
    Runs (outside anyNode 1 Eq) (sendTransaction plainConfig refill) m l' (.ok details) m' ∧
    counts 0x11 l = [0] ∧ counts 0x11 l' = [0] ∧ details.signedTx.transaction.nonce = 1 ∧
    m'.txstore.map (·.nonce) = [1] := by
  have hruns : (refillsAfter isInsert).map (fun x => (inserts x.1.1 ++ x.1.2.2.txstore,
        counts 0x11 x.1.1, counts 0x11 x.2.1,
        x.2.2.1.signedTx.transaction.nonce :: x.2.2.2.txstore.map (·.nonce))) =
      some ([], [0], [0], [1, 1]) := by decide +kernel
  obtain ⟨⟨⟨l, e, m⟩, l', details, m'⟩, hfollow, heq⟩ := Option.map_eq_some_iff.mp hruns
  simp only [Prod.mk.injEq, List.append_eq_nil_iff, List.cons.injEq] at heq
  obtain ⟨⟨hinserts, hstore⟩, hcounts, hcounts', hnonce, hnonces⟩ := heq
  obtain ⟨hrun, hrun'⟩ := refillsAfter_runs hfollow
  exact ⟨l, e, m, l', details, m', hrun, hinserts, hstore, hrun', hcounts, hcounts', hnonce,
    hnonces⟩

/-- A transaction is stored, then a call fails that the node does not answer, and another
transaction is stored. -/
def refilled : List (Move Call Question Answer Unit) :=
  .call 0 (.sendTransaction refill) :: Move.turns 0 (countingAnswer fun _ => false) 7 ++
    (.call 1 (.sendTransaction refill) :: Move.turns 1 (countingAnswer isCount) 3 ++
      (.call 2 (.sendTransaction refill) :: Move.turns 2 (countingAnswer fun _ => false) 7))

theorem refilled_plays :
    ((Pool.start (.fresh plainConfig [] [] ())).play (server plainConfig anyNode)
      (Accounted Gapless)
      refilled).isSome = true := by
  decide +kernel

def refilledServer : Pool Call (Memory Unit) Question Answer Reply := Option.get _ refilled_plays

/-- The transfer with this nonce. -/
abbrev refillWith (nonce : Nat) : SignedTransaction :=
  ⟨0x11, ⟨nonce, 10, mintxgascost, some 0x22, 0, []⟩⟩

theorem refilledServer_ends :
    refilledServer.shared.memory.record.signatures.map (·.signedTx) = [refillWith 0, refillWith 1] ∧
    refilledServer.shared.memory.txstore.map (·.nonceSigner) = [⟨0, 0x11⟩, ⟨1, 0x11⟩] ∧
    inserted refilledServer.shared.log 0x11 = 2 := by
  decide +kernel

theorem refilledServer_distinct :
    Distinct plainConfig refilledServer.shared.memory.record.signatures := by
  have hall (tx : SignedTransaction)
      (htx : ∃ s ∈ refilledServer.shared.memory.record.signatures, s.signedTx = tx) :
      tx = refillWith 0 ∨ tx = refillWith 1 := by
    have hmem : tx ∈ [refillWith 0, refillWith 1] :=
      refilledServer_ends.1 ▸ List.mem_map.mpr htx
    simpa using hmem
  intro tx htx tx' htx' heq
  rcases hall tx htx with rfl | rfl <;> rcases hall tx' htx' with rfl | rfl
  · rfl
  · exact absurd heq (by decide)
  · exact absurd heq (by decide)
  · rfl

/-- When the node does not answer at first, the next transaction has the nonce 0. After the run
with a failing call between two others, the nonces 0 and 1 are stored and no others were. -/
theorem nonces_gapless_refilled :
    (∃ m l details m', Runs (outside anyNode 1 Eq) (sendTransaction plainConfig refill) m l
      (.ok details) m' ∧ details.signedTx.transaction.nonce = 0) ∧
    (∀ n, (∃ d ∈ insertions refilledServer.shared.log, d.nonceSigner = ⟨n, 0x11⟩) ↔ n < 2) ∧
    (∃ lowest ≤ 2, ∀ n, (∃ d ∈ refilledServer.shared.memory.txstore, d.nonceSigner = ⟨n, 0x11⟩) ↔
      lowest ≤ n ∧ n < 2) ∧
    refilledServer.shared.memory.txstore.map (·.nonceSigner) = [⟨0, 0x11⟩, ⟨1, 0x11⟩] := by
  obtain ⟨-, hstored, htwo⟩ := refilledServer_ends
  refine ⟨?_, ?_⟩
  · have hruns : (refillsAfter isCount).map (fun x => (inserts x.1.1, decide (Stores x.1.1),
        counts 0x11 x.1.1, counts 0x11 x.2.1)) = some ([], false, [], [0]) := by decide +kernel
    obtain ⟨⟨⟨l, e, m⟩, l', details, m'⟩, hfollow, heq⟩ := Option.map_eq_some_iff.mp hruns
    simp only [Prod.mk.injEq, decide_eq_false_iff_not] at heq
    obtain ⟨hinserts, hstores, hcounts, hcounts'⟩ := heq
    obtain ⟨hrun, hrun'⟩ := refillsAfter_runs hfollow
    have hfail : Failing plainConfig anyNode 0x11 0 (.fresh plainConfig [] [] ())
        (0 + if Stores l then 1 else 0) m :=
      .fail .start rfl hrun hinserts fun c hc => by rw [hcounts] at hc; cases hc
    refine ⟨m, l', details, m', hrun', ?_⟩
    refine ((@nonces_gapless plainConfig).1 anyNode 0x11 0 _ _ m hfail).2 0 1 refill l'
      details m' (by decide) rfl (fun c hc => ?_) hrun' |>.mpr (by rw [if_neg hstores])
    rw [hcounts'] at hc
    exact List.mem_singleton.mp hc
  · obtain ⟨hinserted, hleft, -⟩ := nonces_gapless.2 anyNode () refilledServer
      (Run.of_isSome refilled_plays) refilledServer_distinct 0x11
    rw [htwo] at hinserted hleft
    exact ⟨hinserted, hleft, hstored⟩

end RifRelay.Server
