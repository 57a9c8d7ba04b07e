import RifRelay.Server.Books
import RifRelay.Server.Footprints

set_option autoImplicit false

/-! # The server keeps the books

In every run of the server the counters, the mutex, the documents and the signatures are what
the machine of `Server/Books.lean` has reached (`run_booked`). The thread with the mutex goes
through the stages (`Inside`); what the others do leaves the stage alone (`Apart`).
-/

namespace RifRelay.Server

open EventLoop TransactionManager TxStoreManager

variable {ν ω : Type}

def books (m : Memory ν) (log : Log) : Books :=
  ⟨m.nonces, m.nonceMutex, m.txstore, m.record.signatures, log⟩

/-- The log and the signatures only get longer. -/
def Grows (b b' : Books) : Prop := b.log <+: b'.log ∧ b.signatures ⊆ b'.signatures

theorem Grows.refl (b : Books) : Grows b b := ⟨List.prefix_rfl, List.Subset.refl _⟩

theorem Grows.trans {b b' b'' : Books} (h : Grows b b') (h' : Grows b' b'') : Grows b b'' :=
  ⟨h.1.trans h'.1, List.Subset.trans h.2 h'.2⟩

/-- What is known once is known for good. -/
def Persistent (Q : Books → Prop) : Prop := ∀ b b', Grows b b' → Q b → Q b'

theorem Persistent.const (p : Prop) : Persistent fun _ => p := fun _ _ _ h => h

theorem Persistent.and {Q Q' : Books → Prop} (h : Persistent Q) (h' : Persistent Q') :
    Persistent fun b => Q b ∧ Q' b :=
  fun b b' hgrows hq => ⟨h b b' hgrows hq.1, h' b b' hgrows hq.2⟩

theorem traced_persistent (cfg : Config) (d : StoredTransaction) :
    Persistent fun b => Traced cfg b.signatures d := fun _ _ h hd => hd.mono h.2

theorem pendingCounts_persistent (x : Address × Nat) :
    Persistent fun b => x ∈ pendingCounts b.log := by
  rintro b b' ⟨⟨l, hl⟩, -⟩ hx
  rw [← hl]
  exact List.mem_filterMap.mpr <| by
    obtain ⟨e, he, heq⟩ := List.mem_filterMap.mp hx
    exact ⟨e, List.mem_append_left _ he, heq⟩

variable (cfg : Config) (R : Books → LogEntry → Prop)

/-- Every new entry of the log meets `R` of the books before. -/
def Accounted (x y : State ν) : Prop :=
  ∀ e ∈ y.log.drop x.log.length, R (books x.memory x.log) e

instance [∀ b e, Decidable (R b e)] (x y : State ν) : Decidable (Accounted R x y) :=
  inferInstanceAs (Decidable (∀ _ ∈ _, _))

/-- Every entry meets `R`. The books are kept, and the stage is idle while nobody has the mutex.
A thread leaves the mutex of another one alone, and its stage. -/
def bookkeeping : Discipline Call (Memory ν) Question Answer Reply where
  meets := Accounted R
  inv x := (∃ φ, Booked cfg R (books x.memory x.log) φ ∧
      (x.memory.nonceMutex = none → φ = .idle)) ∧
    ∀ i, x.memory.nonceMutex = some i → own i x.log ≠ []
  acts i x y := Grows (books x.memory x.log) (books y.memory y.log) ∧ ∀ j, j ≠ i →
    (x.memory.nonceMutex = some j → y.memory.nonceMutex = some j ∧
      ∀ φ, Booked cfg R (books x.memory x.log) φ → Booked cfg R (books y.memory y.log) φ) ∧
      (y.memory.nonceMutex = some j → x.memory.nonceMutex = some j)
  ends _ _ := True

variable {cfg R} {N : Node ν ω} {i : ℕ} {x : State ν} {s : Memory ν} {φ : Stage}

theorem Accounted.entry {m : Memory ν} {e : LogEntry} (h : Accounted R x (x.snoc m e)) :
    R (books x.memory x.log) e := by
  refine h e ?_
  show e ∈ (x.log ++ [e]).drop x.log.length
  rw [List.drop_left]
  exact List.mem_singleton_self e

theorem own_ne_nil_snoc {j : ℕ} {log : Log} (h : own j log ≠ []) (e : LogEntry) :
    own j (log ++ [e]) ≠ [] := by
  rw [own_append]
  exact List.append_ne_nil_of_left_ne_nil h _

/-- The books do not change when the outside moves. -/
theorem books_outside {y : Shared Call (Memory ν) Question Answer Reply} {w : ω} {m : Memory ν}
    (h : (server cfg N).moves y w = some m) (log : Log) : books m log = books y.memory log := by
  obtain ⟨node, -, rfl⟩ := Option.map_eq_some_iff.mp h
  rfl

theorem grows_snoc (m : Memory ν) (log : Log) (e : LogEntry) :
    Grows (books m log) (books m (log ++ [e])) := ⟨List.prefix_append _ _, List.Subset.refl _⟩

theorem record_effect (m : Memory ν) (q : Question) (a : Except String (Answer q)) :
    (effect N m i q a).record = m.record := by
  unfold effect
  split <;> rfl

theorem books_effect {q : Question} {a : Except String (Answer q)} (hq : isPlain q a = true)
    (m : Memory ν) (log : Log) : books (effect N m i q a) log = books m log := by
  unfold effect
  split <;> first | rfl | cases hq

/-! ## Without the mutex -/

/-- Thread `i` has not the mutex, and it may stop: it was resumed in `x`, and the memory is `s`
by now. -/
structure Apart (cfg : Config) (R : Books → LogEntry → Prop) (i : ℕ) (x : State ν)
    (s : Memory ν) : Prop where
  mutex : s.nonceMutex ≠ some i
  booked : ∃ φ, Booked cfg R (books s x.log) φ ∧ (s.nonceMutex = none → φ = .idle)
  owned : ∀ j, s.nonceMutex = some j → own j x.log ≠ []
  grows : Grows (books x.memory x.log) (books s x.log)
  others : ∀ j, j ≠ i → (x.memory.nonceMutex = some j → s.nonceMutex = some j ∧
      ∀ φ, Booked cfg R (books x.memory x.log) φ → Booked cfg R (books s x.log) φ) ∧
    (s.nonceMutex = some j → x.memory.nonceMutex = some j)

theorem Apart.of_inv (hinv : (bookkeeping cfg R).inv x) (hnot : x.memory.nonceMutex ≠ some i) :
    Apart cfg R i x x.memory where
  mutex := hnot
  booked := hinv.1
  owned := hinv.2
  grows := .refl _
  others _ _ := ⟨fun hj => ⟨hj, fun _ h => h⟩, fun hj => hj⟩

theorem Apart.keeps (h : Apart cfg R i x s) {e : LogEntry} (he : isMark e = true) :
    EventLoop.Keeps (bookkeeping cfg R) i x (x.snoc s e) := by
  obtain ⟨φ, hbooked, hidle⟩ := h.booked
  have hmark {φ : Stage} (hφ : Booked cfg R (books s x.log) φ) :
      Booked cfg R (books s (x.log ++ [e])) φ := hφ.step (.mark e he)
  refine ⟨⟨⟨φ, hmark hbooked, hidle⟩, fun j hj => own_ne_nil_snoc (h.owned j hj) e⟩, ?_, ?_⟩
  · exact h.grows.trans ⟨List.prefix_append _ _, List.Subset.refl _⟩
  · intro j hj
    refine ⟨fun hother => ?_, (h.others j hj).2⟩
    obtain ⟨hkept, hsame⟩ := (h.others j hj).1 hother
    exact ⟨hkept, fun φ hφ => hmark (hsame φ hφ)⟩

/-- A write that leaves the mutex alone and every stage. -/
theorem Apart.write {s' : Memory ν} (h : Apart cfg R i x s) (hmutex : s'.nonceMutex = s.nonceMutex)
    (hgrows : Grows (books s x.log) (books s' x.log))
    (hbook : ∀ φ, Booked cfg R (books s x.log) φ → Booked cfg R (books s' x.log) φ) :
    Apart cfg R i x s' where
  mutex := by
    rw [hmutex]
    exact h.mutex
  booked := by
    obtain ⟨φ, hbooked, hidle⟩ := h.booked
    rw [hmutex]
    exact ⟨φ, hbook φ hbooked, hidle⟩
  owned := by
    rw [hmutex]
    exact h.owned
  grows := h.grows.trans hgrows
  others j hj := by
    rw [hmutex]
    refine ⟨fun hother => ?_, (h.others j hj).2⟩
    obtain ⟨hkept, hsame⟩ := (h.others j hj).1 hother
    exact ⟨hkept, fun φ hφ => hbook φ (hsame φ hφ)⟩

theorem Apart.silent {s' : Memory ν} (h : Apart cfg R i x s)
    (hbooks : ∀ log, books s' log = books s log) : Apart cfg R i x s' := by
  refine h.write (congrArg Books.nonceMutex (hbooks x.log)) ?_ fun φ hφ => ?_
  · rw [hbooks]
    exact .refl _
  · rwa [hbooks]

theorem grows_effect (m : Memory ν) (log : Log) (q : Question) (a : Except String (Answer q)) :
    Grows (books m log) (books (effect N m i q a) (log ++ [.answered i q a])) := by
  refine ⟨List.prefix_append _ _, ?_⟩
  show m.record.signatures ⊆ (effect N m i q a).record.signatures
  rw [record_effect]
  exact List.Subset.refl _

/-- An answer that leaves the mutex alone and every stage. -/
theorem keeps_answered {y : State ν} (hinv : (bookkeeping cfg R).inv y) {q : Question}
    {a : Except String (Answer q)}
    (hmutex : (effect N y.memory i q a).nonceMutex = y.memory.nonceMutex)
    (hbook : ∀ φ, Booked cfg R (books y.memory y.log) φ →
      Booked cfg R (books (effect N y.memory i q a) (y.log ++ [.answered i q a])) φ) :
    EventLoop.Keeps (bookkeeping cfg R) i y
      (y.snoc (effect N y.memory i q a) (.answered i q a)) := by
  obtain ⟨⟨φ, hbooked, hidle⟩, howned⟩ := hinv
  refine ⟨⟨⟨φ, hbook φ hbooked, fun hnone => hidle (hmutex.symm.trans hnone)⟩, fun j hj => ?_⟩,
    grows_effect _ _ _ _, fun j _ => ⟨fun hother => ⟨hmutex.trans hother, hbook⟩,
      fun hother => hmutex.symm.trans hother⟩⟩
  exact own_ne_nil_snoc (howned j (hmutex.symm.trans hj)) _

theorem apart_stable (i : ℕ) {Q : Books → Prop} (hQ : Persistent Q) :
    Stable (server cfg N) (bookkeeping cfg R) i fun x =>
      x.memory.nonceMutex ≠ some i ∧ Q (books x.memory x.log) := by
  rintro x y ⟨hmutex, hq⟩ _ _ _ hstep
  cases hstep with
  | thread j s e hne hthread hacts =>
      exact ⟨fun hy => hmutex ((hacts.2 i hne.symm).2 hy), hQ _ _ hacts.1 hq⟩
  | outside w m hmoves =>
      refine ⟨fun hm => hmutex ?_, ?_⟩
      · exact (congrArg Books.nonceMutex (books_outside hmoves x.log)).symm.trans hm
      · exact (books_outside hmoves x.log).symm ▸ hq

section Rules

variable {α β : Type}

/-- What a part ends with that is run without the mutex. -/
def Ends (cfg : Config) (R : Books → LogEntry → Prop) (i : ℕ) (Ψ : α → Books → Prop)
    (r : Except String α) (x : State ν) (s : Memory ν) : Prop :=
  Apart cfg R i x s ∧ ∀ a, r = .ok a → Ψ a (books s x.log)

/-- **One question without the mutex.** -/
theorem wp_apart {q : Question} {k : Except String (Answer q) → Handler ν α}
    {Φ : Except String α → State ν → Memory ν → Prop} {Q : Books → Prop}
    {B : Except String (Answer q) → Books → Prop} (h : Apart cfg R i x s) (hQ : Persistent Q)
    (hB : ∀ a, Persistent (B a)) (hq : Q (books s x.log))
    (hreply : ∀ y a, y.memory.nonceMutex ≠ some i → Q (books y.memory y.log) →
      (bookkeeping cfg R).inv y → mayReply N y.memory q a →
      R (books y.memory y.log) (.answered i q a) →
        (effect N y.memory i q a).nonceMutex = y.memory.nonceMutex ∧
        (∀ φ, Booked cfg R (books y.memory y.log) φ →
          Booked cfg R (books (effect N y.memory i q a) (y.log ++ [.answered i q a])) φ) ∧
        B a (books (effect N y.memory i q a) (y.log ++ [.answered i q a])))
    (hnext : ∀ z a, Apart cfg R i z z.memory → B a (books z.memory z.log) →
      wp (server cfg N) (bookkeeping cfg R) i (k a) Φ z z.memory) :
    wp (server cfg N) (bookkeeping cfg R) i (.ask q k) Φ x s := by
  refine wp_ask (fun y => y.memory.nonceMutex ≠ some i ∧ Q (books y.memory y.log))
    (fun a y => y.memory.nonceMutex ≠ some i ∧ B a (books y.memory y.log))
    (apart_stable i hQ) (fun a => apart_stable i (hB a)) ?_ ?_ ?_
  · intro _
    refine ⟨h.keeps rfl, h.mutex, ?_⟩
    exact hQ _ _ (grows_snoc s x.log _) hq
  · rintro y a ⟨hnot, hqy⟩ hinv hreplies hmeets
    obtain ⟨hmutex, hbook, hb⟩ := hreply y a hnot hqy hinv hreplies hmeets.entry
    refine ⟨keeps_answered hinv hmutex hbook, ?_, hb⟩
    exact fun heq => hnot (hmutex.symm.trans heq)
  · rintro z a ⟨hnot, hqz⟩ hinv
    exact hnext z a (.of_inv hinv hnot) hqz

/-- A question whose answer concerns neither the mutex nor the documents. -/
theorem wp_plain {q : Question} {k : Except String (Answer q) → Handler ν α}
    {Φ : Except String α → State ν → Memory ν → Prop} {P : Books → Prop}
    {Q : Except String (Answer q) → Books → Prop} (h : Apart cfg R i x s)
    (hplain : ∀ a, isPlain q a = true) (hP : Persistent P) (hp : P (books s x.log))
    (hQ : ∀ a, Persistent (Q a))
    (hreply : ∀ y a, (bookkeeping cfg R).inv y → mayReply N y.memory q a →
      Q a (books y.memory (y.log ++ [.answered i q a])))
    (hnext : ∀ z a, Apart cfg R i z z.memory → P (books z.memory z.log) →
      Q a (books z.memory z.log) →
        wp (server cfg N) (bookkeeping cfg R) i (k a) Φ z z.memory) :
    wp (server cfg N) (bookkeeping cfg R) i (.ask q k) Φ x s := by
  refine wp_apart (B := fun a b => P b ∧ Q a b) h hP (fun a => hP.and (hQ a)) hp
    (fun y a hnot hpy hinv hreplies hR => ?_) fun z a hz hq => hnext z a hz hq.1 hq.2
  have hbooks := books_effect (N := N) (i := i) (hplain a) y.memory
  refine ⟨congrArg Books.nonceMutex (hbooks y.log), fun φ hφ => ?_, ?_⟩
  · rw [hbooks]
    exact hφ.step (.answer i q a (hplain a) (fun hmutex => (hnot hmutex).elim) hR)
  · rw [hbooks]
    exact ⟨hP _ _ (grows_snoc y.memory y.log _) hpy, hreply y a hinv hreplies⟩

theorem wp_ends_next {p : Handler ν α} {f : α → Handler ν β} {Ψ : α → Books → Prop}
    {Ψ' : β → Books → Prop}
    (hp : wp (server cfg N) (bookkeeping cfg R) i p (Ends cfg R i Ψ) x s)
    (hf : ∀ a y t, Apart cfg R i y t → Ψ a (books t y.log) →
      wp (server cfg N) (bookkeeping cfg R) i (f a) (Ends cfg R i Ψ') y t) :
    wp (server cfg N) (bookkeeping cfg R) i (p.handle (Async.next f)) (Ends cfg R i Ψ') x s := by
  rw [wp_handle]
  refine wp_mono (fun r y t hr => ?_) p hp
  cases r with
  | ok a => exact hf a y t hr.1 (hr.2 a rfl)
  | error e => exact ⟨hr.1, fun a ha => by cases ha⟩

theorem wp_ends_awaiting {f : AsyncFunction} {p : Handler ν α} {Ψ : α → Books → Prop}
    (hΨ : ∀ a, Persistent (Ψ a))
    (hp : wp (server cfg N) (bookkeeping cfg R) i p (Ends cfg R i Ψ) x s) :
    wp (server cfg N) (bookkeeping cfg R) i (awaiting f p) (Ends cfg R i Ψ) x s := by
  unfold awaiting Async.call
  rw [wp_handle]
  refine wp_mono (fun r y t hr => ?_) p hp
  have hpersists : Persistent fun b => ∀ a, r = .ok a → Ψ a b :=
    fun b b' hgrows h a ha => hΨ a b b' hgrows (h a ha)
  exact wp_plain (Q := fun _ _ => True) hr.1 (fun _ => rfl) hpersists hr.2 (fun _ => .const True)
    (fun _ _ _ _ => trivial) fun z a hz hp _ => ⟨hz, hp⟩

end Rules

/-! ## Parts without the mutex -/

/-- The programs that keep apart. -/
def apart (cfg : Config) (R : Books → LogEntry → Prop) (N : Node ν ω) (i : ℕ) :
    Family (Memory ν) Question Answer :=
  .upholding (server cfg N) (bookkeeping cfg R) i (Apart cfg R i)

theorem apart_plain {q : Question} (hplain : ∀ a, isPlain q a = true) :
    (apart cfg R N i).asks q := by
  intro x s h
  exact wp_plain (Q := fun _ _ => True) h hplain (.const True) trivial (fun _ => .const True)
    (fun _ _ _ _ => trivial) fun z a hz _ _ => hz

theorem isPlain_of_isRead {q : Question} (h : q.isRead = true) (a : Except String (Answer q)) :
    isPlain q a = true := by
  cases q with
  | acquire | insert _ | update _ _ | remove _ => cases h
  | _ => rfl

theorem apart_write {f : Memory ν → Memory ν} (hf : ∀ m log, books (f m) log = books m log) :
    (apart cfg R N i).writes f :=
  Family.upholding_writes.mpr fun _ s h => h.silent (hf s)

/-- A part that nobody asks for anything. -/
theorem ends_of_apart {α : Type} {p : Handler ν α} (hp : (apart cfg R N i).has p)
    (h : Apart cfg R i x s) : wp (server cfg N) (bookkeeping cfg R) i p
      (Ends cfg R i fun _ _ => True) x s :=
  wp_mono (fun _ _ _ hr => ⟨hr, fun _ _ => trivial⟩) p (hp x s h)

theorem apart_of_ends {α : Type} {p : Handler ν α} {Ψ : α → Books → Prop}
    (hp : wp (server cfg N) (bookkeeping cfg R) i p (Ends cfg R i Ψ) x s) :
    wp (server cfg N) (bookkeeping cfg R) i p (fun _ => Apart cfg R i) x s :=
  wp_mono (fun _ _ _ hr => hr.1) p hp

theorem books_lift (signer : Address) (nonce : Nat) (m : Memory ν) (log : Log) :
    books (liftNonce signer nonce m) log = (books m log).lift signer nonce := by
  have hown : (books m log).nonces signer = m.nonces signer := rfl
  unfold liftNonce Books.lift
  rw [hown]
  cases m.nonces signer with
  | none => rfl
  | some own =>
      show books (if nonce > own then _ else _) log = if nonce > own then _ else _
      split <;> rfl

theorem mem_pendingCounts_snoc (log : Log) (signer : Address) (n : Nat) :
    (signer, n) ∈ pendingCounts (log ++ [.answered i (.getTransactionCount signer) (.ok n)]) := by
  rw [pendingCounts_snoc]
  exact List.mem_append_right _ (List.mem_singleton_self _)

theorem pollNonce_apart (signer : Address) :
    (apart cfg R N i).has (polled signer : Handler ν (Option Nat)) := by
  refine Family.call ?_ fun r => apart_plain fun _ => rfl
  intro x s h
  refine wp_plain (Q := fun a b => ∀ n : Nat, a = .ok n → (signer, n) ∈ pendingCounts b.log) h
    (fun _ => rfl) (.const True) trivial (fun a b b' hgrows hq n hn => ?_)
    (fun y a _ _ n hn => ?_) fun z a hz _ hq => ?_
  · exact pendingCounts_persistent (signer, n) b b' hgrows (hq n hn)
  · subst hn
    exact mem_pendingCounts_snoc y.log signer n
  · cases a with
    | error e => exact hz
    | ok n =>
        have hmem := hq n rfl
        refine hz.write ?_ ?_ fun φ hφ => ?_
        · have hlift := congrArg Books.nonceMutex (books_lift signer n z.memory z.log)
          exact hlift.trans (lift_nonceMutex _ _)
        · rw [books_lift]
          exact ⟨by rw [lift_log], by rw [lift_signatures]; exact List.Subset.refl _⟩
        · rw [books_lift]
          exact hφ.step (.lift signer n hmem)

/-- All documents that the database answers with are those of signed transactions. -/
def AllTraced (cfg : Config) (txs : List StoredTransaction) (b : Books) : Prop :=
  ∀ d ∈ txs, Traced cfg b.signatures d

theorem allTraced_persistent (txs : List StoredTransaction) : Persistent (AllTraced cfg txs) :=
  fun b b' hgrows h d hd => traced_persistent cfg d b b' hgrows (h d hd)

theorem allTraced_of_inv {y : State ν} (hinv : (bookkeeping cfg R).inv y) (e : LogEntry) :
    AllTraced cfg y.memory.txstore (books y.memory (y.log ++ [e])) := by
  obtain ⟨⟨φ, hbooked, -⟩, -⟩ := hinv
  exact hbooked.documented.store

theorem allTraced_sort {txs : List StoredTransaction} {b : Books} (h : AllTraced cfg txs b) :
    AllTraced cfg (sortByNonce txs) b :=
  fun d hd => h d ((List.mem_insertionSort _).mp hd)

/-- What a query is answered with. -/
theorem wp_query {q : Question} (docs : Answer q → List StoredTransaction)
    (hplain : ∀ a, isPlain q a = true)
    (hdocs : ∀ (m : Memory ν) a, ownReply m q a = true → ∀ d ∈ docs a, d ∈ m.txstore)
    (h : Apart cfg R i x s) :
    wp (server cfg N) (bookkeeping cfg R) i (ask q)
      (Ends cfg R i fun a b => AllTraced cfg (docs a) b) x s := by
  refine wp_plain (Q := fun a b => ∀ v, a = .ok v → AllTraced cfg (docs v) b) h hplain
    (.const True) trivial ?_ ?_ ?_
  · exact fun a b b' hgrows hq v hv => allTraced_persistent _ b b' hgrows (hq v hv)
  · intro y a hinv hreplies v hv d hd
    subst hv
    exact allTraced_of_inv hinv _ d (hdocs _ _ hreplies.1 d hd)
  · exact fun z a hz _ hq => ⟨hz, hq⟩

theorem getAll_ends (h : Apart cfg R i x s) :
    wp (server cfg N) (bookkeeping cfg R) i (awaiting .getAll getAll)
      (Ends cfg R i fun txs b => AllTraced cfg txs b) x s := by
  refine wp_ends_awaiting allTraced_persistent ?_
  refine wp_ends_next (wp_query (q := .find) id (fun _ => rfl) (fun m a hown d hd => ?_) h) ?_
  · obtain rfl : a = m.txstore := eq_of_beq hown
    exact hd
  · exact fun txs y t hy htraced => ⟨hy, fun a ha => by cases ha; exact allTraced_sort htraced⟩

theorem getAllBySigner_ends (signer : Address) (h : Apart cfg R i x s) :
    wp (server cfg N) (bookkeeping cfg R) i (awaiting .getAllBySigner (getAllBySigner signer))
      (Ends cfg R i fun txs b => AllTraced cfg txs b) x s := by
  refine wp_ends_awaiting allTraced_persistent ?_
  refine wp_ends_next (wp_query (q := .findBySigner signer) id (fun _ => rfl)
    (fun m a hown d hd => ?_) h) ?_
  · obtain rfl : a = m.txstore.filter (·.from == signer) := eq_of_beq hown
    exact (List.mem_filter.mp hd).1
  · exact fun txs y t hy htraced => ⟨hy, fun a ha => by cases ha; exact allTraced_sort htraced⟩

variable {P : Books → Prop}

theorem ask_ends {q : Question} (hplain : ∀ a, isPlain q a = true) (hP : Persistent P)
    (h : Apart cfg R i x s) (hp : P (books s x.log)) :
    wp (server cfg N) (bookkeeping cfg R) i (ask q) (Ends cfg R i fun _ b => P b) x s :=
  wp_plain (Q := fun _ _ => True) h hplain hP hp (fun _ => .const True) (fun _ _ _ _ => trivial)
    fun _ _ hz hpz _ => ⟨hz, fun _ _ => hpz⟩

theorem sameKey_persistent (txId : Word) (tx : StoredTransaction) :
    Persistent fun b => SameKey cfg b.signatures txId tx := fun _ _ h hkey => hkey.mono h.2

/-- `putTx` of a document whose transaction was signed. -/
theorem putTx_ends {tx : StoredTransaction} (updateExisting : Bool) (hP : Persistent P)
    (h : Apart cfg R i x s) (hp : P (books s x.log))
    (htraced : Traced cfg s.record.signatures tx) :
    wp (server cfg N) (bookkeeping cfg R) i (putTx cfg tx updateExisting)
      (Ends cfg R i fun _ b => P b) x s := by
  refine (EventLoop.wp_handle _ _ _).mpr ((EventLoop.wp_assert _ _ _).mpr ⟨fun _ => ?_,
    fun _ => ⟨h, fun a ha => by cases ha⟩⟩)
  have hboth : Persistent fun b => P b ∧ Traced cfg b.signatures tx :=
    hP.and (traced_persistent cfg tx)
  -- an update hits a document with the key of `tx`
  have hfind : wp (server cfg N) (bookkeeping cfg R) i (ask (.findOne tx.nonceSigner))
      (Ends cfg R i fun existing b => (P b ∧ Traced cfg b.signatures tx) ∧
        ∀ doc : StoredTransaction, existing = some doc → SameKey cfg b.signatures doc.txId tx)
      x s := by
    refine wp_plain (Q := fun a b => ∀ doc : StoredTransaction, a = .ok (some doc) →
      SameKey cfg b.signatures doc.txId tx) h (fun _ => rfl) hboth ⟨hp, htraced⟩ ?_ ?_ ?_
    · exact fun a b b' hgrows hq doc hdoc => sameKey_persistent _ _ b b' hgrows (hq doc hdoc)
    · intro y a hinv hreplies doc ha
      subst ha
      have hfound := eq_of_beq (show (some doc == y.memory.txstore.find?
        (·.nonceSigner == tx.nonceSigner)) = true from hreplies.1)
      have hfits := List.find?_some hfound.symm
      have hkey : doc.nonceSigner = tx.nonceSigner := beq_iff_eq.mp hfits
      exact (allTraced_of_inv hinv _ doc (List.mem_of_find?_eq_some hfound.symm)).sameKey hkey
    · intro z a hz hpz hq
      exact ⟨hz, fun existing ha => ⟨hpz, fun doc hdoc => hq doc (by rw [ha, hdoc])⟩⟩
  refine wp_ends_next hfind fun existing y t hy hknown => ?_
  obtain ⟨⟨hpy, htracedy⟩, hkeyy⟩ := hknown
  have hinsert : wp (server cfg N) (bookkeeping cfg R) i (ask (.insert tx))
      (Ends cfg R i fun _ b => P b) y t := by
    refine wp_apart (B := fun _ b => P b) hy hboth (fun _ => hP) ⟨hpy, htracedy⟩
      (fun z a hnot hz hinv hreplies hR => ?_) fun w a hw hpw => ⟨hw, fun _ _ => hpw⟩
    have hpz := hP _ _ (grows_effect (N := N) (i := i) z.memory z.log (.insert tx) a) hz.1
    cases a with
    | error e => exact ⟨rfl, fun φ hφ => hφ.step (.answer i _ _ rfl (fun _ => rfl) hR), hpz⟩
    | ok a =>
        have hfree : z.memory.txstore.any (clashes tx) = false := by
          simpa [ownReply] using hreplies.1
        exact ⟨rfl, fun φ hφ => hφ.step (.putBack i tx hnot hz.2 hfree hR), hpz⟩
  cases existing with
  | none => exact hinsert
  | some doc =>
      cases updateExisting with
      | false => exact hinsert
      | true =>
          refine wp_apart (B := fun _ b => P b) hy
            (hboth.and (sameKey_persistent doc.txId tx)) (fun _ => hP)
            ⟨⟨hpy, htracedy⟩, hkeyy doc rfl⟩ (fun z a _ hz _ _ hR => ?_)
            fun w a hw hpw => ⟨hw, fun _ _ => hpw⟩
          have hpz := hP _ _
            (grows_effect (N := N) (i := i) z.memory z.log (.update doc.txId tx) a) hz.1.1
          cases a with
          | error e => exact ⟨rfl, fun φ hφ => hφ.step (.answer i _ _ rfl (fun _ => rfl) hR), hpz⟩
          | ok a =>
              exact ⟨rfl, fun φ hφ => hφ.step (.update i doc.txId tx hz.1.2 hz.2 hR), hpz⟩

/-! ### Removing -/

theorem Records.mined {signedTx : SignedTransaction} {d : StoredTransaction}
    (h : Records cfg signedTx d) (minedBlockNumber : Option Nat) :
    Records cfg signedTx { d with minedBlockNumber := minedBlockNumber } := by
  refine ⟨?_, h.2⟩
  have hserialized := congrArg StoredTransaction.toStoredTransactionSerialized h.1
  exact congrArg (fun t => StoredTransaction.mk t _) hserialized

theorem updateTransactionWithMinedBlock_ends {tx : StoredTransaction} (minedBlock : Nat)
    (hP : Persistent P) (h : Apart cfg R i x s) (hp : P (books s x.log))
    (htraced : Traced cfg s.record.signatures tx) :
    wp (server cfg N) (bookkeeping cfg R) i (awaiting .updateTransactionWithMinedBlock
      (updateTransactionWithMinedBlock cfg tx minedBlock)) (Ends cfg R i fun _ b => P b) x s := by
  refine wp_ends_awaiting (fun _ => hP) (wp_ends_awaiting (fun _ => hP) ?_)
  obtain ⟨sig, hsig, hrecords⟩ := htraced
  exact putTx_ends true hP h hp ⟨sig, hsig, hrecords.mined (some minedBlock)⟩

theorem removeTxsUntilNonce_ends (signer : Address) (nonce : Nat) (hP : Persistent P)
    (h : Apart cfg R i x s) (hp : P (books s x.log)) :
    wp (server cfg N) (bookkeeping cfg R) i (awaiting .removeTxsUntilNonce
      (removeTxsUntilNonce signer nonce)) (Ends cfg R i fun _ b => P b) x s := by
  refine wp_ends_awaiting (fun _ => hP) ?_
  refine wp_apart (B := fun _ b => P b) h hP (fun _ => hP) hp (fun y a _ hpy _ _ hR => ?_)
    fun z a hz hpz => ⟨hz, fun _ _ => hpz⟩
  have hpy' := hP _ _
    (grows_effect (N := N) (i := i) y.memory y.log (.remove ⟨nonce, signer⟩) a) hpy
  cases a with
  | error e => exact ⟨rfl, fun φ hφ => hφ.step (.answer i _ _ rfl (fun _ => rfl) hR), hpy'⟩
  | ok a => exact ⟨rfl, fun φ hφ => hφ.step (.remove i _ hR), hpy'⟩

theorem removeIfConfirmed_ends {tx : StoredTransaction} (height : Nat) (hP : Persistent P)
    (h : Apart cfg R i x s) (hp : P (books s x.log))
    (htraced : Traced cfg s.record.signatures tx) :
    wp (server cfg N) (bookkeeping cfg R) i (removeIfConfirmed cfg height tx)
      (Ends cfg R i fun _ b => P b) x s := by
  refine (EventLoop.wp_ite _ _ _ _).mpr ⟨fun _ => ?_, fun _ => ⟨h, fun _ _ => hp⟩⟩
  refine wp_ends_next (ask_ends (fun _ => rfl) (hP.and (traced_persistent cfg tx)) h
    ⟨hp, htraced⟩) fun receipt y t hy hknown => ?_
  cases receipt with
  | none => exact ⟨hy, fun _ _ => hknown.1⟩
  | some receipt =>
      obtain ⟨blockNumber, signer, nonce⟩ := receipt
      cases blockNumber with
      | none => exact ⟨hy, fun _ _ => hknown.1⟩
      | some minedBlock =>
          refine (EventLoop.wp_ite _ _ _ _).mpr ⟨fun _ => ?_, fun _ => ?_⟩
          · exact updateTransactionWithMinedBlock_ends minedBlock hP hy hknown.1 hknown.2
          · exact removeTxsUntilNonce_ends signer nonce hP hy hknown.1

theorem removeAll_ends (height : Nat) (txs : List StoredTransaction) (h : Apart cfg R i x s)
    (htraced : AllTraced cfg txs (books s x.log)) :
    wp (server cfg N) (bookkeeping cfg R) i (Async.each (removeIfConfirmed cfg height) txs)
      (Ends cfg R i fun _ _ => True) x s := by
  induction txs generalizing x s with
  | nil => exact ⟨h, fun _ _ => trivial⟩
  | cons tx rest ih =>
      obtain ⟨htx, hrest⟩ := List.forall_mem_cons.mp htraced
      refine wp_ends_next (removeIfConfirmed_ends height (allTraced_persistent rest) h hrest htx) ?_
      exact fun _ y t hy hrest' => ih hy hrest'

theorem removeConfirmedTransactions_apart (height : Nat) :
    (apart cfg R N i).has (removeConfirmedTransactions cfg height : Handler ν Unit) := by
  intro x s h
  refine apart_of_ends (Ψ := fun _ _ => True) (wp_ends_next (getAll_ends h) ?_)
  exact fun txs y t hy htraced => removeAll_ends height txs hy htraced

/-! ### Signing again -/

theorem records_createStoredTransaction (signedTx : SignedTransaction)
    (metadata : StoredTransactionMetadata) (h : metadata.from = signedTx.signer) :
    Records cfg signedTx (createStoredTransaction cfg signedTx metadata) := ⟨rfl, h⟩

theorem updateTransactionWithAttempt_ends {tx : StoredTransaction} {txToSign : SignedTransaction}
    (currentBlock : Nat) (hP : Persistent P) (h : Apart cfg R i x s) (hp : P (books s x.log))
    (hsigner : tx.from = txToSign.signer)
    (hsigned : ∃ sig ∈ s.record.signatures, sig.signedTx = txToSign) :
    wp (server cfg N) (bookkeeping cfg R) i (awaiting .updateTransactionWithAttempt
      (updateTransactionWithAttempt cfg txToSign tx currentBlock)) (Ends cfg R i fun _ b => P b)
      x s := by
  refine wp_ends_awaiting (fun _ => hP) ?_
  refine wp_ends_next (wp_ends_awaiting (fun _ => hP) ?_) fun _ y t hy hpy => ⟨hy, fun _ _ => hpy⟩
  obtain ⟨sig, hsig, rfl⟩ := hsigned
  exact putTx_ends true hP h hp ⟨sig, hsig, records_createStoredTransaction _ _ hsigner⟩

theorem broadcast_ends (signedTx : SignedTransaction) (storedTx : StoredTransaction)
    (hP : Persistent P) (h : Apart cfg R i x s) (hp : P (books s x.log)) :
    wp (server cfg N) (bookkeeping cfg R) i (broadcast signedTx storedTx)
      (Ends cfg R i fun _ b => P b) x s := by
  refine wp_ends_next (ask_ends (fun _ => rfl) hP h hp) fun _ y t hy hpy => ?_
  refine (EventLoop.wp_handle _ _ _).mpr
    ((EventLoop.wp_assert _ _ _).mpr ⟨fun _ => ?_, fun _ => ?_⟩)
  · exact ⟨hy, fun _ _ => hpy⟩
  · exact ⟨hy, fun a ha => by cases ha⟩

theorem resendTransaction_ends {tx : StoredTransaction} (height : Nat) (price : Doubles.Number)
    (hP : Persistent P) (h : Apart cfg R i x s) (hp : P (books s x.log))
    (htx : Traced cfg s.record.signatures tx ∨
      ∃ j n p, .called j (.resendTransaction tx n p) ∈ x.log) :
    wp (server cfg N) (bookkeeping cfg R) i (resendTransaction cfg tx height price)
      (Ends cfg R i fun _ b => P b) x s := by
  show wp _ _ i ((Async.done (encodeGasPrice cfg price)).handle (Async.next _)) _ x s
  cases encodeGasPrice cfg price with
  | error e => exact ⟨h, fun a ha => by cases ha⟩
  | ok q =>
      refine (EventLoop.wp_handle _ _ _).mpr ((EventLoop.wp_handle _ _ _).mpr
        ((EventLoop.wp_handle _ _ _).mpr ((EventLoop.wp_assert _ _ _).mpr
          ⟨fun _ => ?_, fun _ => ⟨h, fun a ha => by cases ha⟩⟩)))
      have hgrows : Grows (books s x.log) ((books s x.log).resign ⟨tx.from, repriced tx q⟩) :=
        ⟨List.prefix_rfl, List.subset_append_left _ _⟩
      have hsigned : Apart cfg R i x (note (fun r => { r with signatures := r.signatures ++
          [⟨true, ⟨tx.from, repriced tx q⟩⟩] }) s) :=
        h.write rfl hgrows fun φ hφ => hφ.step (.resign tx q htx)
      refine wp_ends_next (updateTransactionWithAttempt_ends height hP hsigned (hP _ _ hgrows hp)
        rfl ⟨_, List.mem_append_right _ (List.mem_singleton_self _), rfl⟩) ?_
      intro storedTx y t hy hpy
      refine wp_ends_next (ask_ends (fun _ => rfl) hP hy hpy) fun _ z u hz hpz => ?_
      exact broadcast_ends _ _ hP hz hpz

theorem resendAll_ends (height : Nat) (price : Doubles.Number) (txs : List StoredTransaction)
    (h : Apart cfg R i x s) (htraced : AllTraced cfg txs (books s x.log)) :
    wp (server cfg N) (bookkeeping cfg R) i (resendAll cfg height price txs)
      (Ends cfg R i fun _ _ => True) x s := by
  induction txs generalizing x s with
  | nil => exact ⟨h, fun _ _ => trivial⟩
  | cons tx rest ih =>
      obtain ⟨htx, hrest⟩ := List.forall_mem_cons.mp htraced
      refine wp_ends_next (wp_ends_awaiting (fun _ => allTraced_persistent rest)
        (resendTransaction_ends height price (allTraced_persistent rest) h hrest (.inl htx))) ?_
      intro details y t hy hrest'
      refine wp_ends_next (ih hy hrest') fun _ z u hz _ => ?_
      exact ⟨hz, fun _ _ => trivial⟩

theorem boost_apart (signer : Address) (height : Nat) :
    (apart cfg R N i).has
      (boostUnderpricedPendingTransactionsForSigner cfg signer height : Handler ν _) := by
  intro x s h
  refine apart_of_ends (Ψ := fun _ _ => True) (wp_ends_next (getAllBySigner_ends signer h) ?_)
  intro txs y t hy htraced
  cases txs with
  | nil => exact ⟨hy, fun _ _ => trivial⟩
  | cons oldest rest =>
      refine wp_ends_next (ask_ends (fun _ => rfl) (allTraced_persistent _) hy htraced) ?_
      intro nonce z u hz htraced'
      refine (EventLoop.wp_ite _ _ _ _).mpr ⟨fun _ => ⟨hz, fun _ _ => trivial⟩, fun _ => ?_⟩
      refine (EventLoop.wp_ite _ _ _ _).mpr ⟨fun _ => ⟨hz, fun _ _ => trivial⟩, fun _ => ?_⟩
      exact resendAll_ends _ _ _ hz fun d hd => htraced' d (List.mem_filter.mp hd).1

end RifRelay.Server
