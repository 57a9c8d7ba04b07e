import RifRelay.Server.Bookkeeping

set_option autoImplicit false

/-! # Runs keep the books

The thread with the mutex goes through the stages of `Server/Books.lean` (`Inside`). With what
`Server/Bookkeeping.lean` shows of the others, every run of the server keeps the books
(`run_booked`).
-/

namespace RifRelay.Server

open EventLoop TransactionManager TxStoreManager

variable {ν ω : Type} {cfg : Config} {R : Books → LogEntry → Prop} {N : Node ν ω} {i : ℕ}
  {x : State ν} {s : Memory ν} {φ : Stage}

/-- Thread `i` has the mutex and may stop at the stage `φ`. -/
structure Inside (cfg : Config) (R : Books → LogEntry → Prop) (i : ℕ) (x : State ν) (s : Memory ν)
    (φ : Stage) : Prop where
  held : x.memory.nonceMutex = some i
  mutex : s.nonceMutex = some i
  booked : Booked cfg R (books s x.log) φ
  owned : own i x.log ≠ []
  grows : Grows (books x.memory x.log) (books s x.log)

/-- What the others know of the thread with the mutex. -/
def Holds (cfg : Config) (R : Books → LogEntry → Prop) (i : ℕ) (φ : Stage) (x : State ν) : Prop :=
  x.memory.nonceMutex = some i ∧ Booked cfg R (books x.memory x.log) φ ∧ own i x.log ≠ []

theorem Holds.inside (h : Holds cfg R i φ x) : Inside cfg R i x x.memory φ :=
  ⟨h.1, h.1, h.2.1, h.2.2, .refl _⟩

theorem holds_stable (i : ℕ) (φ : Stage) {Q : Books → Prop} (hQ : Persistent Q) :
    Stable (server cfg N) (bookkeeping cfg R) i fun x =>
      Holds cfg R i φ x ∧ Q (books x.memory x.log) := by
  rintro x y ⟨⟨hmutex, hbooked, howned⟩, hq⟩ _ _ _ hstep
  cases hstep with
  | thread j s e hne hthread hacts =>
      obtain ⟨hkept, hsame⟩ := (hacts.2 i hne.symm).1 hmutex
      exact ⟨⟨hkept, hsame φ hbooked, own_ne_nil_snoc howned e⟩, hQ _ _ hacts.1 hq⟩
  | outside w m hmoves =>
      have hbooks : books m x.log = books x.memory x.log := books_outside hmoves x.log
      refine ⟨⟨(congrArg Books.nonceMutex hbooks).trans hmutex, ?_, howned⟩, ?_⟩
      · exact hbooks.symm ▸ hbooked
      · exact hbooks.symm ▸ hq

theorem Inside.keeps (h : Inside cfg R i x s φ) {e : LogEntry} (he : isMark e = true) :
    EventLoop.Keeps (bookkeeping cfg R) i x (x.snoc s e) ∧ Holds cfg R i φ (x.snoc s e) := by
  have hbooked : Booked cfg R (books s (x.log ++ [e])) φ := h.booked.step (.mark e he)
  have hother {j : ℕ} (hj : j ≠ i) {m : Memory ν} (hm : m.nonceMutex = some i)
      (hmj : m.nonceMutex = some j) : False := hj (Option.some.inj (hmj.symm.trans hm))
  refine ⟨⟨⟨⟨φ, hbooked, fun hnone => ?_⟩, fun j hj => ?_⟩, ?_,
    fun j hj => ⟨fun hx => ?_, fun hs => ?_⟩⟩,
    h.mutex, hbooked, own_ne_nil_snoc h.owned e⟩
  · cases h.mutex.symm.trans hnone
  · obtain rfl := Option.some.inj (h.mutex.symm.trans hj)
    exact own_ne_nil_snoc h.owned e
  · exact h.grows.trans ⟨List.prefix_append _ _, List.Subset.refl _⟩
  · exact (hother hj h.held hx).elim
  · exact (hother hj h.mutex hs).elim

/-- Steps that the thread makes by itself. -/
theorem Inside.step {s' : Memory ν} {φ' : Stage} (h : Inside cfg R i x s φ)
    (hmutex : s'.nonceMutex = s.nonceMutex) (hgrows : Grows (books s x.log) (books s' x.log))
    (hstep : Booking cfg R (books s x.log) φ (books s' x.log) φ') :
    Inside cfg R i x s' φ' where
  held := h.held
  mutex := hmutex.trans h.mutex
  booked := h.booked.step hstep
  owned := h.owned
  grows := h.grows.trans hgrows

theorem Inside.giveUp (h : Inside cfg R i x s φ)
    (hφ : φ = .held ∨ ∃ signer nonce, φ = .polled signer nonce) : Inside cfg R i x s .closed :=
  h.step rfl (.refl _) (.giveUp hφ)

/-- The end of the last stage. -/
theorem Inside.release (h : Inside cfg R i x s .closed) : Apart cfg R i x (releaseMutex s) where
  mutex hm := by cases hm
  booked := ⟨.idle, h.booked.step .release, fun _ => rfl⟩
  owned j hj := by cases hj
  grows := h.grows
  others j hj := by
    refine ⟨fun hother => ?_, fun hother => by cases hother⟩
    exact (hj (Option.some.inj (hother.symm.trans h.held))).elim

section Rules

variable {α β : Type}

/-- **One question with the mutex.** -/
theorem wp_inside {q : Question} {k : Except String (Answer q) → Handler ν α}
    {Φ : Except String α → State ν → Memory ν → Prop} {B : Except String (Answer q) → Books → Prop}
    {T : Except String (Answer q) → Stage} (h : Inside cfg R i x s φ) (hB : ∀ a, Persistent (B a))
    (hreply : ∀ y a, Holds cfg R i φ y → mayReply N y.memory q a →
      R (books y.memory y.log) (.answered i q a) →
        (effect N y.memory i q a).nonceMutex = y.memory.nonceMutex ∧
        Booking cfg R (books y.memory y.log) φ
          (books (effect N y.memory i q a) (y.log ++ [.answered i q a])) (T a) ∧
        B a (books (effect N y.memory i q a) (y.log ++ [.answered i q a])))
    (hnext : ∀ z a, Inside cfg R i z z.memory (T a) → B a (books z.memory z.log) →
      wp (server cfg N) (bookkeeping cfg R) i (k a) Φ z z.memory) :
    wp (server cfg N) (bookkeeping cfg R) i (.ask q k) Φ x s := by
  refine wp_ask (fun y => Holds cfg R i φ y ∧ True)
    (fun a y => Holds cfg R i (T a) y ∧ B a (books y.memory y.log))
    (holds_stable i φ (.const True)) (fun a => holds_stable i (T a) (hB a)) ?_ ?_ ?_
  · intro _
    obtain ⟨hkeeps, hholds⟩ := h.keeps (e := .asked i q) rfl
    exact ⟨hkeeps, hholds, trivial⟩
  · rintro y a ⟨hholds, -⟩ hinv hreplies hmeets
    obtain ⟨hmutex, hstep, hb⟩ := hreply y a hholds hreplies hmeets.entry
    have hheld := hmutex.trans hholds.1
    have hbooked := hholds.2.1.step hstep
    have howned : own i (y.log ++ [.answered i q a]) ≠ [] := own_ne_nil_snoc hholds.2.2 _
    refine ⟨⟨⟨⟨T a, hbooked, fun hnone => ?_⟩, fun j hj => ?_⟩, grows_effect _ _ _ _,
      fun j hj => ?_⟩,
      ⟨hheld, hbooked, howned⟩, hb⟩
    · cases hheld.symm.trans hnone
    · obtain rfl := Option.some.inj (hheld.symm.trans hj)
      exact howned
    · refine ⟨fun hother => (hj ?_).elim, fun hother => (hj ?_).elim⟩
      · exact Option.some.inj (hother.symm.trans hholds.1)
      · exact Option.some.inj (hother.symm.trans hheld)
  · rintro z a ⟨hholds, hb⟩ hinv
    exact hnext z a hholds.inside hb

/-- A question with the mutex whose answer concerns neither the mutex nor the documents. -/
theorem wp_inside_plain {q : Question} {k : Except String (Answer q) → Handler ν α}
    {Φ : Except String α → State ν → Memory ν → Prop} {B : Except String (Answer q) → Books → Prop}
    (h : Inside cfg R i x s φ) (hplain : ∀ a, isPlain q a = true)
    (hnone : ∀ a, pendingCounts [.answered i q a] = []) (hB : ∀ a, Persistent (B a))
    (hreply : ∀ (y : State ν) a, B a (books y.memory (y.log ++ [.answered i q a])))
    (hnext : ∀ z a, Inside cfg R i z z.memory φ → B a (books z.memory z.log) →
      wp (server cfg N) (bookkeeping cfg R) i (k a) Φ z z.memory) :
    wp (server cfg N) (bookkeeping cfg R) i (.ask q k) Φ x s := by
  refine wp_inside (T := fun _ => φ) h hB (fun y a _ _ hR => ?_) hnext
  have hbooks := books_effect (N := N) (i := i) (hplain a) y.memory
  refine ⟨congrArg Books.nonceMutex (hbooks y.log), ?_, ?_⟩
  · rw [hbooks]
    exact .answer i q a (hplain a) (fun _ => hnone a) hR
  · rw [hbooks]
    exact hreply y a

/-- What a part ends with that is run with the mutex: the stage depends on the result. -/
def Leaves (cfg : Config) (R : Books → LogEntry → Prop) (i : ℕ) (T : Except String α → Stage)
    (r : Except String α) (x : State ν) (s : Memory ν) : Prop :=
  Inside cfg R i x s (T r)

theorem wp_leaves_call {p : Handler ν α} {q : Except String α → Question}
    {T : Except String α → Stage} (hplain : ∀ r a, isPlain (q r) a = true)
    (hnone : ∀ r a, pendingCounts [.answered i (q r) a] = [])
    (hp : wp (server cfg N) (bookkeeping cfg R) i p (Leaves cfg R i T) x s) :
    wp (server cfg N) (bookkeeping cfg R) i (p.call q) (Leaves cfg R i T) x s := by
  unfold Async.call
  rw [wp_handle]
  refine wp_mono (fun r y t hr => ?_) p hp
  exact wp_inside_plain (B := fun _ _ => True) hr (hplain r) (hnone r) (fun _ => .const True)
    (fun _ _ => trivial) fun z a hz _ => hz

theorem wp_leaves_next {p : Handler ν α} {f : α → Handler ν β} {T : Except String α → Stage}
    {T' : Except String β → Stage}
    (hp : wp (server cfg N) (bookkeeping cfg R) i p (Leaves cfg R i T) x s)
    (hf : ∀ a y t, Inside cfg R i y t (T (.ok a)) →
      wp (server cfg N) (bookkeeping cfg R) i (f a) (Leaves cfg R i T') y t)
    (herror : ∀ e (y : State ν) t,
      Inside cfg R i y t (T (.error e)) → Inside cfg R i y t (T' (.error e))) :
    wp (server cfg N) (bookkeeping cfg R) i (p.handle (Async.next f)) (Leaves cfg R i T') x s := by
  rw [wp_handle]
  refine wp_mono (fun r y t hr => ?_) p hp
  cases r with
  | ok a => exact hf a y t hr
  | error e => exact herror e y t hr

end Rules

/-! ## `sendTransaction` -/

/-- The stage after the question how many transactions `signer` has sent. -/
def afterCount (signer : Address) (a : Except String Nat) : Stage :=
  match a with
  | .ok n => .counted signer n
  | .error _ => .held

/-- The stage after `pollNonce`. -/
def afterPoll (signer : Address) (r : Except String (Option Nat)) : Stage :=
  match r with
  | .ok nonce => .polled signer nonce
  | .error _ => .held

theorem polled_leaves (signer : Address) (h : Inside cfg R i x s .held) :
    wp (server cfg N) (bookkeeping cfg R) i (polled signer) (Leaves cfg R i (afterPoll signer))
      x s := by
  refine wp_leaves_call (fun _ _ => rfl) (fun _ _ => rfl) ?_
  refine wp_inside (T := afterCount signer)
    (B := fun a b => ∀ n : Nat, a = .ok n → (signer, n) ∈ pendingCounts b.log)
    h (fun a b b' hgrows hq n hn => ?_) (fun y a hholds _ hR => ?_) fun z a hz hq => ?_
  · exact pendingCounts_persistent (signer, n) b b' hgrows (hq n hn)
  · cases a with
    | error e => exact ⟨rfl, .answer i _ _ rfl (fun _ => rfl) hR, fun n hn => by cases hn⟩
    | ok n =>
        refine ⟨rfl, .count i signer n hholds.1 hR, fun n' hn => ?_⟩
        obtain rfl := Except.ok.inj hn
        exact mem_pendingCounts_snoc y.log signer n
  · cases a with
    | error e => exact hz
    | ok n =>
        have hlifted : Inside cfg R i z (liftNonce signer n z.memory) (.counted signer n) := by
          refine hz.step ?_ ?_ ?_
          · have hlift := congrArg Books.nonceMutex (books_lift signer n z.memory z.log)
            exact hlift.trans (lift_nonceMutex _ _)
          · rw [books_lift]
            exact ⟨by rw [lift_log], by rw [lift_signatures]; exact List.Subset.refl _⟩
          · rw [books_lift]
            exact .lift signer n (hq n rfl)
        refine hlifted.step rfl (.refl _) (.poll signer n fun own hown => ?_)
        rw [books_lift] at hown
        exact le_of_mem_lift signer n own hown

/-- Where the query for the document leaves off. -/
def afterQuery (doc : StoredTransaction) : Except String (Option StoredTransaction) → Stage
  | .ok _ => .assigned doc
  | .error _ => .closed

/-- Storing the new document. -/
theorem putTx_leaves {doc : StoredTransaction} (h : Inside cfg R i x s (.assigned doc))
    (hattempts : doc.attempts ≠ 0) :
    wp (server cfg N) (bookkeeping cfg R) i (putTx cfg doc false) (Leaves cfg R i fun _ => .closed)
      x s := by
  refine (EventLoop.wp_handle _ _ _).mpr ((EventLoop.wp_assert _ _ _).mpr ⟨fun _ => ?_,
    fun hnot => (hnot hattempts).elim⟩)
  have hinsert {y : State ν} (hy : Inside cfg R i y y.memory (.assigned doc)) :
      wp (server cfg N) (bookkeeping cfg R) i (ask (.insert doc)) (Leaves cfg R i fun _ => .closed)
        y y.memory := by
    refine wp_inside (T := fun _ => .closed) (B := fun _ _ => True) hy (fun _ => .const True) ?_
      fun z a hz _ => hz
    intro y a hholds hreplies hR
    cases a with
    | error e => exact ⟨rfl, .lose i doc _ e hholds.1 rfl hR, trivial⟩
    | ok a =>
        have hfree : y.memory.txstore.any (clashes doc) = false := by
          simpa [ownReply] using hreplies.1
        exact ⟨rfl, .insert i doc hholds.1 hfree hR, trivial⟩
  -- an error of the query ends the matter as well
  refine wp_inside (T := afterQuery doc) (B := fun _ _ => True) h (fun _ => .const True)
    (fun y a hholds _ hR => ?_) fun z a hz _ => ?_
  · cases a with
    | error e => exact ⟨rfl, .lose i doc _ e hholds.1 rfl hR, trivial⟩
    | ok existing => exact ⟨rfl, .answer i _ _ rfl (fun _ => rfl) hR, trivial⟩
  · cases a with
    | error e => exact hz
    | ok existing => cases existing <;> exact hinsert hz

theorem assignNonce_leaves (d : SendTransactionDetails) (gasPrice : Nat)
    (h : Inside cfg R i x s .held) :
    wp (server cfg N) (bookkeeping cfg R) i (assignNonce cfg d gasPrice)
      (Leaves cfg R i fun _ => .closed) x s := by
  refine wp_leaves_next (polled_leaves d.signer h) (fun nonce y t hy => ?_)
    fun e y t hy => hy.giveUp (.inl rfl)
  have hpolled : afterPoll d.signer (.ok nonce) = .held ∨ ∃ signer nonce',
      afterPoll d.signer (.ok nonce) = .polled signer nonce' := .inr ⟨_, _, rfl⟩
  show wp _ _ i ((encodeValue (d.value.getD 0)).handle (Async.next _)) _ y t
  cases d.value.getD 0 with
  | negSucc n => exact hy.giveUp hpolled
  | ofNat value =>
      refine (EventLoop.wp_handle _ _ _).mpr ((EventLoop.wp_handle _ _ _).mpr
        ((EventLoop.wp_handle _ _ _).mpr ((EventLoop.wp_assert _ _ _).mpr
          ⟨fun hsigner => ?_, fun _ => hy.giveUp hpolled⟩)))
      -- the signature, and the nonce counts as used
      have hassign (tx : Transaction) (hnonce : tx.nonce = nonce.getD 0) :
          Inside cfg R i y (countNonce d.signer (note (fun r => { r with
            signatures := r.signatures ++ [⟨false, ⟨d.signer, tx⟩⟩] }) t))
            (.assigned (createStoredTransaction cfg ⟨d.signer, tx⟩
              ⟨d.signer, 1, d.serverAction, d.creationBlockNumber, none, none⟩)) := by
        refine hy.step rfl ⟨List.prefix_rfl, List.subset_append_left _ _⟩ ?_
        exact .assign nonce ⟨d.signer, tx⟩ _ hsigner hnonce
          (records_createStoredTransaction _ _ rfl)
      refine (EventLoop.wp_handle _ _ _).mpr ((EventLoop.wp_modify _ _).mpr ?_)
      refine (EventLoop.wp_handle _ _ _).mpr ((EventLoop.wp_modify _ _).mpr ?_)
      refine wp_leaves_next (T := fun _ => .closed) (wp_leaves_call (fun _ _ => rfl)
        (fun _ _ => rfl) (putTx_leaves (hassign _ rfl) one_ne_zero)) ?_ fun _ _ _ herror => herror
      exact fun _ z u hz => hz

/-- Asking for the mutex. -/
theorem wp_acquire {α : Type} {k : Except String Unit → Handler ν α}
    {Φ : Except String α → State ν → Memory ν → Prop} (h : Apart cfg R i x s)
    (hnext : ∀ z, Inside cfg R i z z.memory .held →
      wp (server cfg N) (bookkeeping cfg R) i (k (.ok ())) Φ z z.memory) :
    wp (server cfg N) (bookkeeping cfg R) i (.ask .acquire k) Φ x s := by
  refine wp_ask (fun y => y.memory.nonceMutex ≠ some i ∧ True)
    (fun a y => (Holds cfg R i .held y ∧ True) ∧ a = .ok ())
    (apart_stable i (.const True)) (fun a => (holds_stable i _ (.const True)).and (.const _))
    ?_ ?_ ?_
  · exact fun _ => ⟨h.keeps rfl, h.mutex, trivial⟩
  · rintro y a - ⟨⟨φ, hbooked, hidle⟩, howned⟩ hreplies hmeets
    cases a with
    | error e => cases hreplies
    | ok a =>
        have hfree : y.memory.nonceMutex = none := Option.isNone_iff_eq_none.mp hreplies.1
        obtain rfl := hidle hfree
        have hheld : Booked cfg R (books (effect N y.memory i .acquire (.ok a))
            (y.log ++ [.answered i .acquire (.ok a)])) .held :=
          hbooked.step (.acquire i hfree hmeets.entry)
        have hown : own i (y.log ++ [.answered i .acquire (.ok a)]) ≠ [] := by
          rw [own_snoc_self rfl]
          exact List.append_ne_nil_of_right_ne_nil _ (List.cons_ne_nil _ _)
        refine ⟨⟨⟨⟨.held, hheld, fun hnone => by cases hnone⟩, fun j hj => ?_⟩,
          grows_effect _ _ _ _,
          fun j hj => ?_⟩, ⟨⟨rfl, hheld, hown⟩, trivial⟩, rfl⟩
        · obtain rfl := Option.some.inj hj
          exact hown
        · refine ⟨fun hother => ?_, fun hother => (hj (Option.some.inj hother).symm).elim⟩
          cases hfree.symm.trans hother
  · rintro z a ⟨⟨hholds, -⟩, rfl⟩ _
    exact hnext z hholds.inside

theorem sendTransaction_apart (d : SendTransactionDetails) :
    (apart cfg R N i).has (sendTransaction cfg d : Handler ν SignedTransactionDetails) := by
  intro x s h
  have hprice : (apart cfg R N i).has (chooseGasPrice d : Handler ν Nat) :=
    chooseGasPrice_has (fun q hq => apart_plain (isPlain_of_isRead hq)) d
  refine apart_of_ends (Ψ := fun _ _ => True) (wp_ends_next (ends_of_apart hprice h) ?_)
  intro gasPrice y t hy _
  refine wp_acquire hy fun z hz => ?_
  refine (EventLoop.wp_handle _ _ _).mpr ((EventLoop.wp_handle _ _ _).mpr ?_)
  refine (EventLoop.wp_handle _ _ _).mpr ?_
  refine wp_mono (fun r w u hw => ?_) _ (assignNonce_leaves d gasPrice hz)
  have hapart : Apart cfg R i w (releaseMutex u) := hw.release
  cases r with
  | error e => exact ⟨hapart, fun a ha => by cases ha⟩
  | ok txs => exact broadcast_ends _ _ (.const True) hapart trivial

/-! ## Every run -/

theorem quietWrite_books {f : Memory ν → Memory ν} (hf : QuietWrite f) (m : Memory ν) (log : Log) :
    books (f m) log = books m log := by
  cases hf <;> rfl

theorem roundWrite_books {f : Memory ν → Memory ν} (hf : RoundWrite cfg f) (m : Memory ν)
    (log : Log) : books (f m) log = books m log := by
  cases hf with
  | leaveAlert n =>
      unfold RelayServer.leaveAlert
      split <;> rfl
  | payout d =>
      have hsigned :
          (RegistrationManager.notePayout d m.record).signatures = m.record.signatures := by
        unfold RegistrationManager.notePayout
        split <;> rfl
      exact congrArg (Books.mk m.nonces m.nonceMutex m.txstore · log) hsigned
  | _ => rfl

theorem rounds_apart (i : ℕ) : Rounds cfg (apart cfg R N i) where
  read _ hq := apart_plain (isPlain_of_isRead hq)
  quiet _ hf := apart_write (quietWrite_books hf)
  poll := pollNonce_apart
  send := sendTransaction_apart
  remove := removeConfirmedTransactions_apart
  boost := boost_apart
  write _ hf := apart_write (roundWrite_books hf)

/-- A transaction that `resendTransaction` is called with need not be a document. -/
theorem handler_apart (c : Call) (h : Apart cfg R i x s)
    (hcalled : ∀ tx n p, c = .resendTransaction tx n p → .called i c ∈ x.log) :
    wp (server cfg N) (bookkeeping cfg R) i (handler cfg i c) (fun _ => Apart cfg R i) x s := by
  have hrounds : Rounds cfg (apart cfg R N i) := rounds_apart i
  have hreplenish := hrounds.toQuiet.replenishServer
  cases c with
  | createRelayTransaction req =>
      exact Family.next (hrounds.createRelayTransaction hreplenish req)
        (fun _ => Family.done _ _) x s h
  | intervalHandler =>
      exact Family.next (hrounds.intervalHandler hreplenish i) (fun _ => Family.done _ _) x s h
  | readyTimeout j =>
      exact Family.next (hrounds.write _ (.reset .timedOut (by decide)))
        (fun _ => Family.done _ _) x s h
  | sendTransaction d => exact Family.next (hrounds.send d) (fun _ => Family.done _ _) x s h
  | pollNonce signer => exact Family.next (hrounds.poll signer) (fun _ => Family.done _ _) x s h
  | boostUnderpricedPendingTransactionsForSigner signer n =>
      exact Family.next (hrounds.boost signer n) (fun _ => Family.done _ _) x s h
  | replenishServer n => exact Family.next (hreplenish n) (fun _ => Family.done _ _) x s h
  | resendTransaction tx n p =>
      have hends : wp (server cfg N) (bookkeeping cfg R) i (resendTransaction cfg tx n p)
          (Ends cfg R i fun _ _ => True) x s :=
        resendTransaction_ends n p (.const True) h trivial (.inr ⟨i, n, p, hcalled tx n p rfl⟩)
      refine apart_of_ends (Ψ := fun _ _ => True) (wp_ends_next hends ?_)
      exact fun _ y t hy _ => ⟨hy, fun _ _ => trivial⟩

theorem called_persistent (e : LogEntry) : Persistent fun b => e ∈ b.log :=
  fun _ _ hgrows he => hgrows.1.subset he

theorem bookkeeping_sound : Sound (server cfg N) (bookkeeping cfg R) where
  call x i c hinv hfresh _ hmeets := by
    have hnot : x.memory.nonceMutex ≠ some i := fun hm => hinv.2 i hm hfresh
    have hkeeps : EventLoop.Keeps (bookkeeping cfg R) i x (x.snoc x.memory (.called i c)) := by
      obtain ⟨⟨φ, hbooked, hidle⟩, howned⟩ := hinv
      have hcall {φ : Stage} (hφ : Booked cfg R (books x.memory x.log) φ) :
          Booked cfg R (books x.memory (x.log ++ [.called i c])) φ :=
        hφ.step (.call i c hmeets.entry)
      refine ⟨⟨⟨φ, hcall hbooked, hidle⟩, fun j hj => own_ne_nil_snoc (howned j hj) _⟩,
        grows_snoc _ _ _, fun j _ => ⟨fun hj => ⟨hj, fun φ hφ => hcall hφ⟩, id⟩⟩
    refine ⟨hkeeps, fun y hlater hy => ?_⟩
    obtain ⟨hmutex, hcalled⟩ := (apart_stable i (called_persistent (.called i c))).later hlater
      ⟨hnot, List.mem_append_right _ (List.mem_singleton_self _)⟩
    refine wp_mono (fun r z t hz => ?_) _
      (handler_apart c (.of_inv hy hmutex) fun _ _ _ _ => hcalled)
    exact fun _ => ⟨hz.keeps rfl, trivial⟩
  outside x w s hinv hmoves _ := by
    have hbooks : books s x.log = books x.memory x.log := books_outside hmoves x.log
    have hmutex : s.nonceMutex = x.memory.nonceMutex := congrArg Books.nonceMutex hbooks
    obtain ⟨⟨φ, hbooked, hidle⟩, howned⟩ := hinv
    refine ⟨⟨φ, hbooks.symm ▸ hbooked, fun hnone => hidle (hmutex.symm.trans hnone)⟩,
      fun j hj => ?_⟩
    exact howned j (hmutex.symm.trans hj)
  restart x s hinv hrestart hmeets := by
    obtain rfl := Option.some.inj hrestart
    obtain ⟨⟨φ, hbooked, -⟩, -⟩ := hinv
    exact ⟨⟨.idle, hbooked.step (.restart hmeets.entry), fun _ => rfl⟩, fun j hj => by cases hj⟩

/-- **Every run of a new server keeps the books.** -/
theorem run_booked {node : ν} {p : Pool Call (Memory ν) Question Answer Reply}
    (h : Run (server cfg N) (Accounted R) (.fresh cfg [] [] node) p) :
    ∃ φ, Booked cfg R (books p.shared.memory p.shared.log) φ := by
  have hstart : (bookkeeping cfg R).inv ⟨Memory.fresh cfg [] [] node, []⟩ :=
    ⟨⟨.idle, .new, fun _ => rfl⟩, fun j hj => by cases hj⟩
  obtain ⟨φ, hbooked, -⟩ := (run_sound bookkeeping_sound hstart h).inv.1
  exact ⟨φ, hbooked⟩

end RifRelay.Server
