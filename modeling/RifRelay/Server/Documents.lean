import RifRelay.Server.Threads

set_option autoImplicit false

/-! # The documents of the database

No two documents have the same id or the same nonce of the same signer (`Indexed`): the database
sees to it. So what `putTx` replaces is one document, and the rest stays.
-/

namespace RifRelay.Server

open EventLoop TransactionManager TxStoreManager

/-! ## The indexes -/

/-- The two unique indexes. -/
structure Indexed (store : List StoredTransaction) : Prop where
  ids : (store.map (·.txId)).Nodup
  keys : (store.map (·.nonceSigner)).Nodup

section Indexed

variable {store : List StoredTransaction} {tx doc : StoredTransaction}

theorem Indexed.eq_of_txId (h : Indexed store) {d d' : StoredTransaction} (hd : d ∈ store)
    (hd' : d' ∈ store) (heq : d.txId = d'.txId) : d = d' :=
  List.inj_on_of_nodup_map h.ids hd hd' heq

theorem Indexed.eq_of_key (h : Indexed store) {d d' : StoredTransaction} (hd : d ∈ store)
    (hd' : d' ∈ store) (heq : d.nonceSigner = d'.nonceSigner) : d = d' :=
  List.inj_on_of_nodup_map h.keys hd hd' heq

theorem Indexed.filter (h : Indexed store) (p : StoredTransaction → Bool) :
    Indexed (store.filter p) where
  ids := h.ids.sublist (List.filter_sublist.map _)
  keys := h.keys.sublist (List.filter_sublist.map _)

theorem Indexed.insert (h : Indexed store) (hclash : store.any (clashes tx) = false) :
    Indexed (store ++ [tx]) := by
  have hfree (d : StoredTransaction) (hd : d ∈ store) :
      d.txId ≠ tx.txId ∧ d.nonceSigner ≠ tx.nonceSigner := by
    have hno := List.any_eq_false.mp hclash d hd
    simpa [clashes] using hno
  constructor
  · rw [List.map_append, List.nodup_append]
    refine ⟨h.ids, List.nodup_singleton _, ?_⟩
    intro x hx y hy hxy
    obtain ⟨d, hd, rfl⟩ := List.mem_map.mp hx
    rw [List.map_singleton, List.mem_singleton] at hy
    exact (hfree d hd).1 (hxy.trans hy)
  · rw [List.map_append, List.nodup_append]
    refine ⟨h.keys, List.nodup_singleton _, ?_⟩
    intro x hx y hy hxy
    obtain ⟨d, hd, rfl⟩ := List.mem_map.mp hx
    rw [List.map_singleton, List.mem_singleton] at hy
    exact (hfree d hd).2 (hxy.trans hy)

/-- The documents after `update txId tx`. -/
def replace (txId : Word) (tx : StoredTransaction) (store : List StoredTransaction) :
    List StoredTransaction :=
  store.map fun doc => if doc.txId = txId then tx else doc

theorem mem_replace {txId : Word} {d : StoredTransaction} :
    d ∈ replace txId tx store ↔
      (d = tx ∧ ∃ doc ∈ store, doc.txId = txId) ∨ (d ∈ store ∧ d.txId ≠ txId) := by
  unfold replace
  rw [List.mem_map]
  constructor
  · rintro ⟨doc, hdoc, rfl⟩
    by_cases heq : doc.txId = txId
    · rw [if_pos heq]
      exact Or.inl ⟨rfl, doc, hdoc, heq⟩
    · rw [if_neg heq]
      exact Or.inr ⟨hdoc, heq⟩
  · rintro (⟨rfl, doc, hdoc, heq⟩ | ⟨hd, hne⟩)
    · exact ⟨doc, hdoc, if_pos heq⟩
    · exact ⟨d, hd, if_neg hne⟩

/-- A member of a list is replaced by something that the others do not have. -/
theorem nodup_map_replace {β : Type} (f : StoredTransaction → β) {txId : Word}
    (hids : (store.map (·.txId)).Nodup) (hnodup : (store.map f).Nodup)
    (hfree : ∀ d ∈ store, d.txId ≠ txId → f d ≠ f tx) :
    ((replace txId tx store).map f).Nodup := by
  induction store with
  | nil => exact List.nodup_nil
  | cons d store ih =>
      rw [List.map_cons, List.nodup_cons] at hids hnodup
      have ih' := ih hids.2 hnodup.2 fun d' hd' => hfree d' (List.mem_cons_of_mem _ hd')
      show (f (if d.txId = txId then tx else d) :: (replace txId tx store).map f).Nodup
      refine List.nodup_cons.mpr ⟨?_, ih'⟩
      rw [List.mem_map]
      rintro ⟨d', hd', heq⟩
      by_cases hd : d.txId = txId
      · rw [if_pos hd] at heq
        rcases mem_replace.mp hd' with ⟨-, doc, hdoc, hid⟩ | ⟨hd'', hne⟩
        · exact hids.1 (List.mem_map.mpr ⟨doc, hdoc, hid.trans hd.symm⟩)
        · exact hfree d' (List.mem_cons_of_mem _ hd'') hne heq
      · rw [if_neg hd] at heq
        rcases mem_replace.mp hd' with ⟨rfl, -⟩ | ⟨hd'', -⟩
        · exact hfree d List.mem_cons_self hd heq.symm
        · exact hnodup.1 (List.mem_map.mpr ⟨d', hd'', heq⟩)

theorem Indexed.replace (h : Indexed store) {txId : Word}
    (hclash : (store.filter (·.txId != txId)).any (clashes tx) = false) :
    Indexed (replace txId tx store) := by
  have hfree (d : StoredTransaction) (hd : d ∈ store) (hne : d.txId ≠ txId) :
      d.txId ≠ tx.txId ∧ d.nonceSigner ≠ tx.nonceSigner := by
    have hmem : d ∈ store.filter (·.txId != txId) := List.mem_filter.mpr ⟨hd, by simpa using hne⟩
    have hno := List.any_eq_false.mp hclash d hmem
    simpa [clashes] using hno
  exact ⟨nodup_map_replace _ h.ids h.ids fun d hd hne => (hfree d hd hne).1,
    nodup_map_replace _ h.ids h.keys fun d hd hne => (hfree d hd hne).2⟩

end Indexed

/-! ## What the handlers do to the documents -/

variable {ν ω : Type} {cfg : Config} {N : Node ν ω} {i : ℕ}

/-- Only the database writes the documents. -/
theorem indexed_effect {m : Memory ν} {q : Question} {a : Except String (Answer q)}
    (h : Indexed m.txstore) (hreply : mayReply N m q a) : Indexed (effect N m i q a).txstore := by
  cases a with
  | error e => cases q <;> exact h
  | ok a =>
      cases q with
      | insert tx => exact h.insert (by simpa [ownReply] using hreply.1)
      | update txId tx => exact h.replace (by simpa [ownReply] using hreply.1)
      | remove key => exact h.filter _
      | _ => exact h

theorem roundWrite_txstore {f : Memory ν → Memory ν} (hf : RoundWrite cfg f) (m : Memory ν) :
    (f m).txstore = m.txstore := by
  cases hf with
  | leaveAlert n =>
      unfold RelayServer.leaveAlert
      split <;> rfl
  | _ => rfl

theorem indexed_keepsAll : KeepsAll (server cfg N) fun m : Memory ν => Indexed m.txstore where
  body := handler_has cfg
    (K := .confined (fun _ => True)
      fun f => ∀ m : Memory ν, Indexed m.txstore → Indexed (f m).txstore)
    (fun _ => Family.confined_asks.mpr trivial)
    (fun f hf => Family.confined_writes.mpr fun m h => by
      obtain ⟨nonces, mutex, signatures, heq⟩ := hf.shape m
      rw [heq]
      exact h)
    (fun f hf => Family.confined_writes.mpr fun m h => by cases hf <;> exact h)
    (fun f hf => Family.confined_writes.mpr fun m h => by rwa [roundWrite_txstore hf m])
  effect x i q a hreply h := indexed_effect h hreply
  outside x w m hmoves h := by
    obtain ⟨node, -, rfl⟩ := Option.map_eq_some_iff.mp hmoves
    exact h
  restart x m hrestart h := by
    obtain rfl := Option.some.inj hrestart
    exact h

/-- In every run of the server the documents stay indexed. -/
theorem indexed_run {C : State ν → State ν → Prop} {m₀ : Memory ν}
    {p : Pool Call (Memory ν) Question Answer Reply} (h₀ : Indexed m₀.txstore)
    (hrun : Run (server cfg N) C m₀ p) : Indexed p.shared.memory.txstore :=
  run_keeps indexed_keepsAll h₀ (hrun.mono fun _ _ _ => trivial)

/-! ## While others add documents -/

section Adds

variable {F : StoredTransaction → Prop} {m : Memory ν} {tx doc : StoredTransaction}

/-- Others have added documents that satisfy `F`, and that is all they did to the documents. -/
structure Adds (F : StoredTransaction → Prop) (m m' : Memory ν) : Prop where
  indexed : Indexed m.txstore → Indexed m'.txstore
  appended : ∃ docs, m'.txstore = m.txstore ++ docs ∧ ∀ d ∈ docs, F d

theorem Adds.refl (m : Memory ν) : Adds F m m :=
  ⟨id, [], (List.append_nil _).symm, List.forall_mem_nil _⟩

/-- From `store` to `store'` there were only additions. -/
structure Grown (F : StoredTransaction → Prop) (store store' : List StoredTransaction) :
    Prop where
  indexed : Indexed store'
  kept : ∀ d ∈ store, d ∈ store'
  added : ∀ d ∈ store', d ∈ store ∨ F d

theorem Grown.refl {store : List StoredTransaction} (h : Indexed store) : Grown F store store :=
  ⟨h, fun _ hd => hd, fun _ hd => Or.inl hd⟩

theorem Adds.grown {m m' : Memory ν} (h : Adds F m m') (hm : Indexed m.txstore) :
    Grown F m.txstore m'.txstore := by
  obtain ⟨docs, hdocs, hF⟩ := h.appended
  refine ⟨h.indexed hm, fun d hd => ?_, fun d hd => ?_⟩
  · rw [hdocs]
    exact List.mem_append_left _ hd
  · rw [hdocs] at hd
    exact (List.mem_append.mp hd).imp id fun hd' => hF d hd'

theorem Grown.trans {s₁ s₂ s₃ : List StoredTransaction} (h : Grown F s₁ s₂) (h' : Grown F s₂ s₃) :
    Grown F s₁ s₃ where
  indexed := h'.indexed
  kept d hd := h'.kept d (h.kept d hd)
  added d hd := (h'.added d hd).elim (h.added d) Or.inr

/-- From `store` to `store'` the document with the key of `tx` was replaced by `tx`. -/
structure Replaced (F : StoredTransaction → Prop) (tx : StoredTransaction)
    (store store' : List StoredTransaction) : Prop where
  indexed : Indexed store'
  put : tx ∈ store'
  kept : ∀ d ∈ store, d.nonceSigner ≠ tx.nonceSigner → d ∈ store'
  added : ∀ d ∈ store', d = tx ∨ (d ∈ store ∧ d.nonceSigner ≠ tx.nonceSigner) ∨ F d

theorem Replaced.trans {s₁ s₂ s₃ : List StoredTransaction} (h : Replaced F tx s₁ s₂)
    (h' : Grown F s₂ s₃) : Replaced F tx s₁ s₃ where
  indexed := h'.indexed
  put := h'.kept _ h.put
  kept d hd hne := h'.kept d (h.kept d hd hne)
  added d hd := (h'.added d hd).elim (h.added d) fun hF => Or.inr (Or.inr hF)

/-- What `update` makes of the documents, if the key belongs to a document. -/
theorem replaced_of_update {s₁ s₂ : List StoredTransaction} (h : Grown F s₁ s₂)
    (hdoc : doc ∈ s₁) (hkey : doc.nonceSigner = tx.nonceSigner)
    (hclash : (s₂.filter (·.txId != doc.txId)).any (clashes tx) = false) :
    Replaced F tx s₁ (replace doc.txId tx s₂) where
  indexed := h.indexed.replace hclash
  put := mem_replace.mpr (Or.inl ⟨rfl, doc, h.kept doc hdoc, rfl⟩)
  kept d hd hne := by
    refine mem_replace.mpr (Or.inr ⟨h.kept d hd, fun hid => hne ?_⟩)
    rw [h.indexed.eq_of_txId (h.kept d hd) (h.kept doc hdoc) hid, hkey]
  added d hd := by
    rcases mem_replace.mp hd with ⟨rfl, -⟩ | ⟨hd', hne⟩
    · exact Or.inl rfl
    · rcases h.added d hd' with hold | hF
      · refine Or.inr (Or.inl ⟨hold, fun heq => hne ?_⟩)
        rw [h.indexed.eq_of_key hd' (h.kept doc hdoc) (heq.trans hkey.symm)]
      · exact Or.inr (Or.inr hF)

/-- A question whose answer leaves the documents alone. -/
def Question.keepsDocuments (q : Question) : Bool :=
  match q with
  | .insert _ | .update _ _ | .remove _ => false
  | _ => true

theorem effect_txstore {q : Question} (h : q.keepsDocuments = true) (m : Memory ν)
    (a : Except String (Answer q)) : (effect N m i q a).txstore = m.txstore := by
  unfold effect
  split <;> first | rfl | cases h

/-- A question is asked and answered while others add documents. -/
theorem grown_effect {m m₁ m₂ : Memory ν} (hm : Indexed m.txstore) {q : Question}
    (hq : q.keepsDocuments = true) {a : Except String (Answer q)}
    (h : (outside N i (Adds F)).others m m₁)
    (h' : (outside N i (Adds F)).others ((outside N i (Adds F)).effect m₁ q a) m₂) :
    Grown F m.txstore m₂.txstore := by
  have h₁ : Grown F m.txstore m₁.txstore := Adds.grown h hm
  have hstore : (effect N m₁ i q a).txstore = m₁.txstore := effect_txstore hq m₁ a
  have h₂ : Grown F (effect N m₁ i q a).txstore m₂.txstore :=
    Adds.grown h' (hstore ▸ h₁.indexed)
  exact h₁.trans (hstore ▸ h₂)

/-- A question of `putTx`, when it updates, or one that only reads. -/
def Question.isUpdate (q : Question) : Bool :=
  match q with
  | .update _ _ => true
  | q => q.isRead

variable {P : Exchange Question Answer → Prop}

theorem ask_does {q : Question} (hP : ∀ a, P ⟨q, a⟩) (hq : q.keepsDocuments = true)
    (hm : Indexed m.txstore) :
    Does (outside N i (Adds F)) (ask q) m P fun _ m' => Grown F m.txstore m'.txstore :=
  does_await fun _ a _ hasked _ hresumed => ⟨hP a, grown_effect hm hq hasked hresumed⟩

/-- `putTx` updates the document that has the key, or it fails and nothing happens. -/
theorem putTx_does (hP : ∀ q a, q.isUpdate = true → P ⟨q, a⟩) (hm : Indexed m.txstore)
    (hdoc : doc ∈ m.txstore) (hkey : doc.nonceSigner = tx.nonceSigner) :
    Does (outside N i (Adds F)) (putTx cfg tx true) m P fun r m' =>
      match r with
      | .ok _ => Replaced F tx m.txstore m'.txstore
      | .error _ => Grown F m.txstore m'.txstore := by
  refine does_assert (fun _ => ?_) fun _ => Grown.refl hm
  have hfindOne : Does (outside N i (Adds F)) (ask (.findOne tx.nonceSigner)) m P fun r m' =>
      Grown F m.txstore m'.txstore ∧ ∀ a, r = .ok a → a = some doc := by
    refine does_await fun m₁ a m₂ hasked hreply hresumed => ?_
    have h₁ := hasked.grown hm
    rw [show (outside N i (Adds F)).effect m₁ (.findOne tx.nonceSigner) a = m₁ from
      effect_of_isRead N rfl m₁ i a] at hresumed
    refine ⟨hP _ _ rfl, h₁.trans (hresumed.grown h₁.indexed), ?_⟩
    rintro found rfl
    have hfound : found = m₁.txstore.find? (·.nonceSigner == tx.nonceSigner) :=
      eq_of_beq hreply.1
    rw [hfound]
    cases hfind : m₁.txstore.find? (·.nonceSigner == tx.nonceSigner) with
    | none =>
        have hno := List.find?_eq_none.mp hfind doc (h₁.kept doc hdoc)
        exact (hno (beq_iff_eq.mpr hkey)).elim
    | some d =>
        have hfits := List.find?_some hfind
        have hd : d.nonceSigner = tx.nonceSigner := beq_iff_eq.mp hfits
        rw [h₁.indexed.eq_of_key (List.mem_of_find?_eq_some hfind) (h₁.kept doc hdoc)
          (hd.trans hkey.symm)]
  refine hfindOne.next ?_ ?_
  · rintro found m₂ ⟨h₂, hfound⟩
    obtain rfl := hfound found rfl
    refine does_await fun m₃ a m₄ hasked hreply hresumed => ⟨hP _ _ rfl, ?_⟩
    have h₃ := h₂.trans (hasked.grown h₂.indexed)
    cases a with
    | error e => exact h₃.trans (hresumed.grown h₃.indexed)
    | ok a =>
        have hclash : (m₃.txstore.filter (·.txId != doc.txId)).any (clashes tx) = false := by
          simpa [ownReply] using hreply.1
        have hreplaced := replaced_of_update h₃ hdoc hkey hclash
        exact hreplaced.trans (hresumed.grown hreplaced.indexed)
  · exact fun _ _ h => h.1

/-! ## Lists of documents -/

/-- `txs` are the documents of `store` that satisfy `p`, in the order of their nonces. -/
structure Listing (p : StoredTransaction → Prop) (store txs : List StoredTransaction) : Prop where
  mem : ∀ d, d ∈ txs ↔ d ∈ store ∧ p d
  sorted : txs.Pairwise fun d d' => d.nonce ≤ d'.nonce
  indexed : Indexed txs

theorem Indexed.perm {s s' : List StoredTransaction} (h : Indexed s) (hperm : s'.Perm s) :
    Indexed s' where
  ids := (hperm.map _).nodup_iff.mpr h.ids
  keys := (hperm.map _).nodup_iff.mpr h.keys

theorem sortByNonce_sorted (txs : List StoredTransaction) :
    (sortByNonce txs).Pairwise fun d d' => d.nonce ≤ d'.nonce := by
  have : IsTrans StoredTransaction fun d d' => d.nonce ≤ d'.nonce := ⟨fun _ _ _ => le_trans⟩
  have : Std.Total fun d d' : StoredTransaction => d.nonce ≤ d'.nonce :=
    ⟨fun _ _ => le_total _ _⟩
  exact List.pairwise_insertionSort _ txs

theorem listing_sortByNonce {store : List StoredTransaction} (h : Indexed store)
    (p : StoredTransaction → Bool) :
    Listing (fun d => p d = true) store (sortByNonce (store.filter p)) where
  mem _ := (List.mem_insertionSort _).trans List.mem_filter
  sorted := sortByNonce_sorted _
  indexed := (h.filter p).perm (List.perm_insertionSort _ _)

/-- What a function that lists documents ends with: the documents at some moment. -/
def Lists (F p : StoredTransaction → Prop) (store : List StoredTransaction)
    (r : Except String (List StoredTransaction)) (store' : List StoredTransaction) : Prop :=
  Grown F store store' ∧ ∀ txs, r = .ok txs → ∃ s, Grown F store s ∧ Grown F s store' ∧
    Listing p s txs

theorem Lists.grown {p : StoredTransaction → Prop} {s s' s'' : List StoredTransaction}
    {r : Except String (List StoredTransaction)} (h : Lists F p s r s') (hgrown : Grown F s' s'') :
    Lists F p s r s'' := by
  refine ⟨h.1.trans hgrown, fun txs htxs => ?_⟩
  obtain ⟨s₁, h₁, h₁', hlisting⟩ := h.2 txs htxs
  exact ⟨s₁, h₁, h₁'.trans hgrown, hlisting⟩

theorem lists_filter {s₁ s₂ s₃ : List StoredTransaction} (h : Grown F s₁ s₂) (h' : Grown F s₂ s₃)
    (p : StoredTransaction → Bool) :
    Lists F (fun d => p d = true) s₁ (.ok (sortByNonce (s₂.filter p))) s₃ := by
  refine ⟨h.trans h', fun txs htxs => ?_⟩
  obtain rfl := Except.ok.inj htxs
  exact ⟨s₂, h, h', listing_sortByNonce h.indexed p⟩

theorem find_does (hP : ∀ q a, q.isUpdate = true → P ⟨q, a⟩) (hm : Indexed m.txstore) :
    Does (outside N i (Adds F)) getAll m P fun r m' =>
      Lists F (fun _ => True) m.txstore r m'.txstore := by
  have hask : Does (outside N i (Adds F)) (ask .find) m P
      fun (r : Except String (List StoredTransaction)) m' =>
        Lists F (fun _ => True) m.txstore (r.map sortByNonce) m'.txstore := by
    refine does_await fun m₁ a m₂ hasked hreply hresumed => ⟨hP _ _ rfl, ?_⟩
    have h₁ := hasked.grown hm
    rw [show (outside N i (Adds F)).effect m₁ .find a = m₁ from effect_of_isRead N rfl m₁ i a]
      at hresumed
    have h₂ := hresumed.grown h₁.indexed
    cases a with
    | error e => exact ⟨h₁.trans h₂, fun txs htxs => by cases htxs⟩
    | ok docs =>
        obtain rfl : docs = m₁.txstore := eq_of_beq hreply.1
        simpa [Except.map] using lists_filter h₁ h₂ fun _ => true
  exact hask.next (fun txs m₁ h => does_done.mpr h) fun e m₁ h => h

theorem findBySigner_does (hP : ∀ q a, q.isUpdate = true → P ⟨q, a⟩) (hm : Indexed m.txstore)
    (signer : Address) :
    Does (outside N i (Adds F)) (getAllBySigner signer) m P fun r m' =>
      Lists F (·.from = signer) m.txstore r m'.txstore := by
  have hask : Does (outside N i (Adds F)) (ask (.findBySigner signer)) m P
      fun (r : Except String (List StoredTransaction)) m' =>
        Lists F (·.from = signer) m.txstore (r.map sortByNonce) m'.txstore := by
    refine does_await fun m₁ a m₂ hasked hreply hresumed => ⟨hP _ _ rfl, ?_⟩
    have h₁ := hasked.grown hm
    rw [show (outside N i (Adds F)).effect m₁ (.findBySigner signer) a = m₁ from
      effect_of_isRead N rfl m₁ i a] at hresumed
    have h₂ := hresumed.grown h₁.indexed
    cases a with
    | error e => exact ⟨h₁.trans h₂, fun txs htxs => by cases htxs⟩
    | ok docs =>
        obtain rfl : docs = m₁.txstore.filter (·.from == signer) := eq_of_beq hreply.1
        simpa [Except.map] using lists_filter h₁ h₂ (·.from == signer)
  exact hask.next (fun txs m₁ h => does_done.mpr h) fun e m₁ h => h

theorem getAll_does (hP : ∀ q a, q.isUpdate = true → P ⟨q, a⟩) (hm : Indexed m.txstore) :
    Does (outside N i (Adds F)) (awaiting .getAll getAll) m P fun r m' =>
      Lists F (fun _ => True) m.txstore r m'.txstore :=
  does_awaiting (find_does hP hm) (fun _ => hP _ _ rfl)
    fun _ _ _ h hadds => h.grown (hadds.grown h.1.indexed)

theorem getAllBySigner_does (hP : ∀ q a, q.isUpdate = true → P ⟨q, a⟩) (hm : Indexed m.txstore)
    (signer : Address) :
    Does (outside N i (Adds F)) (awaiting .getAllBySigner (getAllBySigner signer)) m P
      fun r m' => Lists F (·.from = signer) m.txstore r m'.txstore :=
  does_awaiting (findBySigner_does hP hm signer) (fun _ => hP _ _ rfl)
    fun _ _ _ h hadds => h.grown (hadds.grown h.1.indexed)

end Adds

end RifRelay.Server
