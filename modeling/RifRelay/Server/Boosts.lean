import RifRelay.Server.Documents
import Mathlib.Data.Nat.Cast.Order.Ring
import Mathlib.Algebra.Order.Field.Basic

set_option autoImplicit false

/-! # Boosting

What `boostUnderpricedPendingTransactionsForSigner` makes of the documents and gives to the
node. It looks at the document of the signer with the least nonce only: when that one is mined
already, nothing is sent (`stuck_boosted_iff`). The new gas price is a product with a fraction:
it is an integer only for some prices (`boosts_right_iff`).
-/

namespace RifRelay.Server

open EventLoop TransactionManager TxStoreManager Doubles

variable {ν ω : Type} {N : Node ν ω} {i : ℕ} {F : StoredTransaction → Prop} {m : Memory ν}
  (cfg : Config)

/-! ## The new gas price -/

theorem resolveNewGasPrice_eq (gasPrice : Nat) :
    resolveNewGasPrice cfg gasPrice =
      min (cfg.arithmetic.round (gasPrice * cfg.retryGasPriceFactor))
        (.finite cfg.maxGasPrice) := by
  unfold resolveNewGasPrice
  simp only [gt_iff_lt]
  split
  next hlt => rw [min_eq_right hlt.le]
  next hle => rw [min_eq_left (not_lt.mp hle)]

/-- With a factor of 1.1 the price 100 becomes 110.00000000000001. -/
example : resolveNewGasPrice
    { plainConfig with retryGasPriceFactor := 2476979795053773 / 2251799813685248 } 100 =
      .finite (7740561859543041 / 70368744177664) := by decide +kernel

theorem resolveNewGasPrice_exact (hexact : cfg.arithmetic = .exact) (gasPrice : Nat) :
    resolveNewGasPrice cfg gasPrice =
      .finite (min (gasPrice * cfg.retryGasPriceFactor) cfg.maxGasPrice) := by
  rw [resolveNewGasPrice_eq, hexact, Arithmetic.round, min_finite]

/-- The new gas price is an integer above the old one, and not above the maximum. -/
def IsBoost (gasPrice q : Nat) : Prop :=
  resolveNewGasPrice cfg gasPrice = .finite q ∧ gasPrice < q ∧ q ≤ cfg.maxGasPrice

variable {cfg}

/-- **Which gas prices can be boosted.** -/
theorem isBoost_iff (hexact : cfg.arithmetic = .exact) (hfactor : 1 < cfg.retryGasPriceFactor)
    {gasPrice : Nat} (hlt : gasPrice < cfg.maxGasPrice) :
    (∃ q, IsBoost cfg gasPrice q) ↔ 0 < gasPrice ∧
      ((cfg.maxGasPrice : ℚ) < gasPrice * cfg.retryGasPriceFactor ∨
        ((gasPrice : ℚ) * cfg.retryGasPriceFactor).den = 1) := by
  rw [show (∃ q, IsBoost cfg gasPrice q) ↔ ∃ q : Nat,
    min ((gasPrice : ℚ) * cfg.retryGasPriceFactor) cfg.maxGasPrice = q ∧ gasPrice < q ∧
      q ≤ cfg.maxGasPrice from by
    simp only [IsBoost, resolveNewGasPrice_exact cfg hexact, Number.finite.injEq]]
  constructor
  · rintro ⟨q, hq, hgt, -⟩
    have hpos : 0 < gasPrice := by
      rcases Nat.eq_zero_or_pos gasPrice with rfl | hpos
      · rw [Nat.cast_zero, zero_mul, min_eq_left (Nat.cast_nonneg _)] at hq
        have hzero : q = 0 := by exact_mod_cast hq.symm
        omega
      · exact hpos
    refine ⟨hpos, ?_⟩
    by_cases hmax : (cfg.maxGasPrice : ℚ) < gasPrice * cfg.retryGasPriceFactor
    · exact Or.inl hmax
    · rw [min_eq_left (not_lt.mp hmax)] at hq
      rw [hq]
      exact Or.inr (Rat.den_natCast q)
  · rintro ⟨hpos, hmax | hint⟩
    · exact ⟨cfg.maxGasPrice, min_eq_right hmax.le, hlt, le_refl _⟩
    · have hgrows : (gasPrice : ℚ) < gasPrice * cfg.retryGasPriceFactor := by
        have hpos' : (0 : ℚ) < gasPrice := by exact_mod_cast hpos
        calc (gasPrice : ℚ) = gasPrice * 1 := (mul_one _).symm
          _ < gasPrice * cfg.retryGasPriceFactor := mul_lt_mul_of_pos_left hfactor hpos'
      rcases le_total ((gasPrice : ℚ) * cfg.retryGasPriceFactor) cfg.maxGasPrice with hle | hge
      · obtain ⟨z, hz⟩ : ∃ z : Int, (gasPrice : ℚ) * cfg.retryGasPriceFactor = z :=
          ⟨_, (Rat.den_eq_one_iff _).mp hint |>.symm⟩
        have hz0 : 0 ≤ z := by
          have hnonneg : (0 : ℚ) ≤ z := hz ▸ (Nat.cast_nonneg gasPrice).trans hgrows.le
          exact_mod_cast hnonneg
        obtain ⟨q, rfl⟩ := Int.eq_ofNat_of_zero_le hz0
        rw [hz] at hgrows hle
        refine ⟨q, by rw [hz, min_eq_left hle]; rfl, ?_, ?_⟩
        · exact_mod_cast hgrows
        · exact_mod_cast hle
      · exact ⟨cfg.maxGasPrice, min_eq_right hge, hlt, le_refl _⟩

theorem encodeGasPrice_natCast (cfg : Config) (q : Nat) :
    encodeGasPrice cfg (.finite q) = .ok q := by
  simp only [encodeGasPrice]
  rw [if_pos (Rat.den_natCast q), Rat.num_natCast, Int.toNat_natCast]

/-! ## One transaction -/

/-- What is signed when `tx` is sent again. -/
def resigned (tx : StoredTransaction) (q : Nat) : SignedTransaction := ⟨tx.from, repriced tx q⟩

/-- The document of `tx` after that. -/
def reattempt (cfg : Config) (tx : StoredTransaction) (q height : Nat) : StoredTransaction :=
  createStoredTransaction cfg (resigned tx q)
    ⟨tx.from, tx.attempts + 1, tx.serverAction, tx.creationBlockNumber, some height,
      tx.minedBlockNumber⟩

@[simp] theorem reattempt_nonceSigner (tx : StoredTransaction) (q height : Nat) :
    (reattempt cfg tx q height).nonceSigner = tx.nonceSigner := rfl

variable {P : Exchange Question Answer → Prop} {tx : StoredTransaction} {height : Nat}
  {price : Number}

/-- The document is updated with what is sent, or nothing happens. -/
def Resent (cfg : Config) (F : StoredTransaction → Prop) (tx : StoredTransaction) (height : Nat)
    (price : Number) {α : Type} (store : List StoredTransaction) (r : Except String α)
    (store' : List StoredTransaction) : Prop :=
  (∃ q, encodeGasPrice cfg price = .ok q ∧ Replaced F (reattempt cfg tx q height) store store') ∨
    ((∃ e, r = .error e) ∧ Grown F store store')

theorem Resent.indexed {α : Type} {s s' : List StoredTransaction} {r : Except String α}
    (h : Resent cfg F tx height price s r s') : Indexed s' := by
  rcases h with ⟨q, _, hreplaced⟩ | ⟨_, hgrown⟩
  · exact hreplaced.indexed
  · exact hgrown.indexed

theorem Resent.grown {α : Type} {s s' s'' : List StoredTransaction} {r : Except String α}
    (h : Resent cfg F tx height price s r s') (hgrown : Grown F s' s'') :
    Resent cfg F tx height price s r s'' := by
  rcases h with ⟨q, hq, hreplaced⟩ | ⟨he, hold⟩
  · exact Or.inl ⟨q, hq, hreplaced.trans hgrown⟩
  · exact Or.inr ⟨he, hold.trans hgrown⟩

theorem updateTransactionWithAttempt_does (hP : ∀ q a, q.isUpdate = true → P ⟨q, a⟩)
    (hm : Indexed m.txstore) {doc : StoredTransaction} (hdoc : doc ∈ m.txstore)
    (hkey : doc.nonceSigner = tx.nonceSigner) (q : Nat) :
    Does (outside N i (Adds F)) (awaiting .updateTransactionWithAttempt
      (updateTransactionWithAttempt cfg (resigned tx q) tx height)) m P fun r m' =>
        match r with
        | .ok _ => Replaced F (reattempt cfg tx q height) m.txstore m'.txstore
        | .error _ => Grown F m.txstore m'.txstore := by
  refine does_awaiting (Does.next (does_awaiting (putTx_does hP hm hdoc hkey) (fun _ => hP _ _ rfl)
    ?_) (fun _ _ h => does_done.mpr h) fun _ _ h => h) (fun _ => hP _ _ rfl) ?_
  all_goals
    intro r m₁ m₂ h hadds
    cases r with
    | ok _ => exact h.trans (hadds.grown h.indexed)
    | error _ => exact h.trans (hadds.grown h.indexed)

theorem resendTransaction_does (hP : ∀ q a, q.isUpdate = true → P ⟨q, a⟩)
    (hgive : ∀ q a, encodeGasPrice cfg price = .ok q → P ⟨.broadcastTransaction (resigned tx q), a⟩)
    (hm : Indexed m.txstore) {doc : StoredTransaction} (hdoc : doc ∈ m.txstore)
    (hkey : doc.nonceSigner = tx.nonceSigner) :
    Does (outside N i (Adds F)) (resendTransaction cfg tx height price) m P
      fun r m' => Resent cfg F tx height price m.txstore r m'.txstore := by
  have hrefl (e : String) : Resent cfg F tx height price m.txstore
      (.error e : Except String SignedTransactionDetails) m.txstore :=
    Or.inr ⟨⟨e, rfl⟩, Grown.refl hm⟩
  cases hencode : encodeGasPrice cfg price with
  | error e =>
      show Does _ ((Async.done (encodeGasPrice cfg price)).handle (Async.next _)) m P _
      rw [hencode]
      exact does_done.mpr (hrefl e)
  | ok q =>
      show Does _ ((Async.done (encodeGasPrice cfg price)).handle (Async.next _)) m P _
      rw [hencode]
      refine (signTransaction_does cfg tx.from (repriced tx q) true).next ?_ ?_
      · rintro signedTx m₁ ⟨hsigned, hstore⟩
        obtain rfl := hsigned signedTx rfl
        rw [← hstore] at hm hdoc ⊢
        refine (updateTransactionWithAttempt_does hP hm hdoc hkey q).next ?_ ?_
        · intro storedTx m₂ (hput : Replaced F (reattempt cfg tx q height) m₁.txstore m₂.txstore)
          -- from here on the document is written, whatever happens
          have hlater (r : Except String SignedTransactionDetails) (m₃ : Memory ν)
              (h : Grown F m₂.txstore m₃.txstore) :
              Resent cfg F tx height price m₁.txstore r m₃.txstore :=
            Or.inl ⟨q, hencode, hput.trans h⟩
          refine Does.mono ?_ hlater
          refine (ask_does (fun _ => hP _ _ rfl) rfl hput.indexed).next ?_ fun _ _ h => h
          intro _ m₃ h₃
          refine (ask_does (fun a => hgive q a hencode) rfl h₃.indexed).next ?_
            fun _ _ h => h₃.trans h
          intro _ m₄ h₄
          exact does_assert (fun _ => does_done.mpr (h₃.trans h₄)) fun _ => h₃.trans h₄
        · exact fun e m₂ h => Or.inr ⟨⟨e, rfl⟩, h⟩
      · rintro e m₁ ⟨-, hstore⟩
        rw [hstore]
        exact hrefl e

/-! ## Runs in which nothing fails -/

section Smooth

variable {others : Memory ν → Memory ν → Prop} {α β : Type}

/-- No answer was an error. -/
def Smooth (l : Exchanges) : Prop := ∀ x ∈ l, ∃ a, x.2 = .ok a

theorem smooth_append {l l' : Exchanges} : Smooth (l ++ l') ↔ Smooth l ∧ Smooth l' :=
  List.forall_mem_append

theorem Smooth.head {q : Question} {a : Except String (Answer q)} {l : Exchanges}
    (h : Smooth (⟨q, a⟩ :: l)) : ∃ b, a = .ok b := h _ List.mem_cons_self

theorem smooth_of_all {l : Exchanges} (h : l.all (·.2.isOk) = true) : Smooth l := by
  intro x hx
  have hok := List.all_eq_true.mp h x hx
  cases hr : x.2 with
  | ok a => exact ⟨a, rfl⟩
  | error e =>
      rw [hr] at hok
      cases hok

/-- The program fails only if an answer is an error. -/
def Smoothly (W : Surroundings (Memory ν) Question Answer) (p : Handler ν α) (m : Memory ν) :
    Prop :=
  Ensures W p m fun l r _ => Smooth l → ∃ a, r = .ok a

variable {W : Surroundings (Memory ν) Question Answer}

theorem Smoothly.next {p : Handler ν α} {f : α → Handler ν β} (hp : Smoothly W p m)
    (hf : ∀ a m₁, Smoothly W (f a) m₁) : Smoothly W (p.handle (Async.next f)) m := by
  refine Ensures.next hp (fun l a m₁ _ => ?_) fun l e m₁ h hsmooth => ?_
  · exact (hf a m₁).mono fun l' r m₂ h hsmooth => h (smooth_append.mp hsmooth).2
  · obtain ⟨a, ha⟩ := h hsmooth
    cases ha

theorem smoothly_done (a : α) : Smoothly W (.done (.ok a)) m :=
  (ensures_done _).mpr fun _ => ⟨a, rfl⟩

theorem smoothly_ask (q : Question) : Smoothly W (ask q) m := by
  refine (ensures_ask q _).mpr fun m₁ a m₂ _ _ _ => (ensures_done _).mpr fun hsmooth => ?_
  exact hsmooth.head

theorem Smoothly.awaiting {f : AsyncFunction} {p : Handler ν α} (hp : Smoothly W p m) :
    Smoothly W (Server.awaiting f p) m := by
  refine (ensures_handle _ _).mpr (Ensures.mono hp fun l r m₁ h => ?_)
  refine (ensures_ask _ _).mpr fun m₂ a m₃ _ _ _ => (ensures_done _).mpr fun hsmooth => ?_
  exact h (smooth_append.mp hsmooth).1

theorem putTx_smoothly {tx : StoredTransaction} (htx : tx.attempts ≠ 0) (updateExisting : Bool) :
    Smoothly W (putTx cfg tx updateExisting) m := by
  refine ensures_assert.mpr ⟨fun _ => ?_, fun hzero => (hzero htx).elim⟩
  refine Smoothly.next (smoothly_ask _) fun existing m₁ => ?_
  split
  · exact smoothly_ask _
  · exact smoothly_ask _

theorem signTransaction_smoothly {signer : Address} (hsigner : cfg.isSigner signer)
    (txToSign : Transaction) (resent : Bool) :
    Smoothly W (signTransaction cfg signer txToSign resent) m := by
  refine ensures_assert.mpr ⟨fun _ => ?_, fun hno => (hno hsigner).elim⟩
  exact ensures_modify.mpr (smoothly_done _)

theorem broadcast_ensures (signedTx : SignedTransaction) (storedTx : StoredTransaction) :
    Ensures W (broadcast signedTx storedTx) m fun l _ _ => broadcasts l = [signedTx] := by
  refine ensures_await.mpr fun m₁ a m₂ _ _ _ => ?_
  cases a with
  | error e => exact (ensures_done _).mpr rfl
  | ok transactionHash =>
      exact ensures_assert.mpr ⟨fun _ => (ensures_done _).mpr rfl, fun _ => rfl⟩

/-- Unless an answer is an error, the transaction is given to the node. -/
theorem resendTransaction_gives (hsigner : cfg.isSigner tx.from) {q : Nat}
    (hencode : encodeGasPrice cfg price = .ok q) :
    Ensures W (resendTransaction cfg tx height price) m fun l r _ =>
      (Smooth l ∨ ∃ a, r = .ok a) → resigned tx q ∈ broadcasts l := by
  show Ensures _ ((Async.done (encodeGasPrice cfg price)).handle (Async.next _)) m _
  rw [hencode]
  have hsign : Ensures W (signTransaction cfg tx.from (repriced tx q) true) m fun l r _ =>
      (Smooth l → ∃ a, r = .ok a) ∧ ∀ signedTx, r = .ok signedTx → signedTx = resigned tx q :=
    (signTransaction_smoothly hsigner _ _).and
      (Ensures.mono (signTransaction_does (P := fun _ => True) cfg _ _ _) fun _ _ _ h => h.2.1)
  refine hsign.next ?_ ?_
  · rintro l₁ signedTx m₁ ⟨-, hsigned⟩
    obtain rfl := hsigned signedTx rfl
    have hupdate : Smoothly W (awaiting .updateTransactionWithAttempt
        (updateTransactionWithAttempt cfg (resigned tx q) tx height)) m₁ :=
      (Smoothly.next (putTx_smoothly (Nat.succ_ne_zero _) true).awaiting
        fun _ _ => smoothly_done _).awaiting
    refine Ensures.next hupdate ?_ ?_
    · intro l₂ storedTx m₂ _
      refine Ensures.next (smoothly_ask (.getTransactionCount tx.from)) ?_ ?_
      · intro l₃ _ m₃ _
        refine (broadcast_ensures (resigned tx q) storedTx).mono fun l₄ r m₄ h _ => ?_
        rw [broadcasts_append, broadcasts_append, broadcasts_append, h]
        simp
      · rintro l₃ e m₃ h (hsmooth | ⟨a, ha⟩)
        · obtain ⟨a, ha⟩ := h (smooth_append.mp (smooth_append.mp hsmooth).2).2
          cases ha
        · cases ha
    · rintro l₂ e m₂ h (hsmooth | ⟨a, ha⟩)
      · obtain ⟨a, ha⟩ := h (smooth_append.mp hsmooth).2
        cases ha
      · cases ha
  · rintro l₁ e m₁ ⟨h, -⟩ (hsmooth | ⟨a, ha⟩)
    · obtain ⟨a, ha⟩ := h hsmooth
      cases ha
    · cases ha

end Smooth

/-! ## All transactions of a round -/

/-- The documents of `txs` are updated, all of them if the loop comes to its end. -/
structure ResentAll (cfg : Config) (F : StoredTransaction → Prop) (txs : List StoredTransaction)
    (height : Nat) (price : Number) {α : Type} (store : List StoredTransaction)
    (r : Except String α)
    (store' : List StoredTransaction) : Prop where
  indexed : Indexed store'
  kept : ∀ d ∈ store, d.nonceSigner ∉ txs.map (·.nonceSigner) → d ∈ store'
  keys : ∀ d ∈ store, ∃ d' ∈ store', d'.nonceSigner = d.nonceSigner
  added : ∀ d ∈ store', F d ∨ ∃ d₀ ∈ store, d₀.nonceSigner = d.nonceSigner ∧
    (d = d₀ ∨ ∃ tx ∈ txs, ∃ q, encodeGasPrice cfg price = .ok q ∧ d = reattempt cfg tx q height)
  all : (∃ a, r = .ok a) →
    ∀ tx ∈ txs, ∃ q, encodeGasPrice cfg price = .ok q ∧ reattempt cfg tx q height ∈ store'

theorem ResentAll.of_grown {txs : List StoredTransaction} {α : Type}
    {s s' : List StoredTransaction} {r : Except String α} (h : Grown F s s')
    (hr : (∃ a, r = .ok a) → txs = []) : ResentAll cfg F txs height price s r s' where
  indexed := h.indexed
  kept d hd _ := h.kept d hd
  keys d hd := ⟨d, h.kept d hd, rfl⟩
  added d hd := (h.added d hd).elim (fun hold => Or.inr ⟨d, hold, rfl, Or.inl rfl⟩) Or.inl
  all hok tx htx := by
    rw [hr hok] at htx
    cases htx

theorem ResentAll.grown {txs : List StoredTransaction} {α : Type}
    {s s' s'' : List StoredTransaction} {r : Except String α}
    (h : ResentAll cfg F txs height price s r s') (hgrown : Grown F s' s'') :
    ResentAll cfg F txs height price s r s'' where
  indexed := hgrown.indexed
  kept d hd hnot := hgrown.kept d (h.kept d hd hnot)
  keys d hd := by
    obtain ⟨d', hd', hkey⟩ := h.keys d hd
    exact ⟨d', hgrown.kept d' hd', hkey⟩
  added d hd := (hgrown.added d hd).elim (h.added d) Or.inl
  all hok tx htx := by
    obtain ⟨q, hq, hmem⟩ := h.all hok tx htx
    exact ⟨q, hq, hgrown.kept _ hmem⟩

theorem ResentAll.after {txs : List StoredTransaction} {α : Type}
    {s s₁ s' : List StoredTransaction} {r : Except String α} (hgrown : Grown F s s₁)
    (htxs : ∀ tx ∈ txs, ∃ d ∈ s, d.nonceSigner = tx.nonceSigner)
    (h : ResentAll cfg F txs height price s₁ r s') : ResentAll cfg F txs height price s r s' where
  indexed := h.indexed
  kept d hd hnot := h.kept d (hgrown.kept d hd) hnot
  keys d hd := h.keys d (hgrown.kept d hd)
  added d hd := by
    rcases h.added d hd with hF | ⟨d₀, hd₀, hkey, rfl | ⟨tx, htx, q, hq, rfl⟩⟩
    · exact Or.inl hF
    · exact (hgrown.added d hd₀).elim (fun hold => Or.inr ⟨d, hold, rfl, Or.inl rfl⟩) Or.inl
    · obtain ⟨d₁, hd₁, hkey₁⟩ := htxs tx htx
      exact Or.inr ⟨d₁, hd₁, hkey₁, Or.inr ⟨tx, htx, q, hq, rfl⟩⟩
  all := h.all

/-- The first transaction of the loop, and the others. -/
theorem ResentAll.cons {rest : List StoredTransaction} {α β γ : Type}
    {s s₁ s₂ : List StoredTransaction} {r : Except String α} {r' : Except String β}
    {r'' : Except String γ}
    (h : Resent cfg F tx height price s r s₁) (h' : ResentAll cfg F rest height price s₁ r' s₂)
    (htx : ∃ d ∈ s, d.nonceSigner = tx.nonceSigner)
    (hrest : ∀ tx' ∈ rest, ∃ d ∈ s, d.nonceSigner = tx'.nonceSigner)
    (hfree : tx.nonceSigner ∉ rest.map (·.nonceSigner))
    (hr : (∃ a, r'' = .ok a) → (∃ a, r = .ok a) ∧ ∃ a, r' = .ok a) :
    ResentAll cfg F (tx :: rest) height price s r'' s₂ where
  indexed := h'.indexed
  kept d hd hnot := by
    rw [List.map_cons, List.mem_cons, not_or] at hnot
    apply h'.kept d _ hnot.2
    rcases h with ⟨q, _, hreplaced⟩ | ⟨_, hgrown⟩
    · exact hreplaced.kept d hd hnot.1
    · exact hgrown.kept d hd
  keys d hd := by
    have hmiddle : ∃ d₁ ∈ s₁, d₁.nonceSigner = d.nonceSigner := by
      rcases h with ⟨q, _, hreplaced⟩ | ⟨_, hgrown⟩
      · by_cases heq : d.nonceSigner = tx.nonceSigner
        · exact ⟨_, hreplaced.put, heq.symm⟩
        · exact ⟨d, hreplaced.kept d hd heq, rfl⟩
      · exact ⟨d, hgrown.kept d hd, rfl⟩
    obtain ⟨d₁, hd₁, hkey₁⟩ := hmiddle
    obtain ⟨d₂, hd₂, hkey₂⟩ := h'.keys d₁ hd₁
    exact ⟨d₂, hd₂, hkey₂.trans hkey₁⟩
  added d hd := by
    -- what the documents before the rest of the loop were
    have hmiddle (d₁ : StoredTransaction) (hd₁ : d₁ ∈ s₁) : F d₁ ∨ ∃ d₀ ∈ s,
        d₀.nonceSigner = d₁.nonceSigner ∧ (d₁ = d₀ ∨
          ∃ q, encodeGasPrice cfg price = .ok q ∧ d₁ = reattempt cfg tx q height) := by
      rcases h with ⟨q, hq, hreplaced⟩ | ⟨_, hgrown⟩
      · rcases hreplaced.added d₁ hd₁ with rfl | ⟨hold, -⟩ | hF
        · obtain ⟨d₀, hd₀, hkey⟩ := htx
          exact Or.inr ⟨d₀, hd₀, hkey, Or.inr ⟨q, hq, rfl⟩⟩
        · exact Or.inr ⟨d₁, hold, rfl, Or.inl rfl⟩
        · exact Or.inl hF
      · exact (hgrown.added d₁ hd₁).elim (fun hold => Or.inr ⟨d₁, hold, rfl, Or.inl rfl⟩) Or.inl
    rcases h'.added d hd with hF | ⟨d₁, hd₁, hkey₁, rfl | ⟨tx', htx', q, hq, rfl⟩⟩
    · exact Or.inl hF
    · rcases hmiddle d hd₁ with hF | ⟨d₀, hd₀, hkey, hsame | ⟨q, hq, hnew⟩⟩
      · exact Or.inl hF
      · exact Or.inr ⟨d₀, hd₀, hkey, Or.inl hsame⟩
      · exact Or.inr ⟨d₀, hd₀, hkey, Or.inr ⟨tx, List.mem_cons_self, q, hq, hnew⟩⟩
    · obtain ⟨d₀, hd₀, hkey⟩ := hrest tx' htx'
      exact Or.inr ⟨d₀, hd₀, hkey, Or.inr ⟨tx', List.mem_cons_of_mem _ htx', q, hq, rfl⟩⟩
  all hok tx' htx' := by
    rcases List.mem_cons.mp htx' with rfl | hin
    · rcases h with ⟨q, hq, hreplaced⟩ | ⟨⟨e, he⟩, -⟩
      · exact ⟨q, hq, h'.kept _ hreplaced.put hfree⟩
      · obtain ⟨a, ha⟩ := (hr hok).1
        rw [he] at ha
        cases ha
    · exact h'.all (hr hok).2 tx' hin

/-- The loop over the transactions that are sent again. -/
theorem resendAll_does (hP : ∀ q a, q.isUpdate = true → P ⟨q, a⟩)
    (txs : List StoredTransaction)
    (hgive : ∀ tx ∈ txs, ∀ q a, encodeGasPrice cfg price = .ok q →
      P ⟨.broadcastTransaction (resigned tx q), a⟩)
    (hm : Indexed m.txstore) (htxs : ∀ tx ∈ txs, ∃ d ∈ m.txstore, d.nonceSigner = tx.nonceSigner)
    (hnodup : (txs.map (·.nonceSigner)).Nodup) :
    Does (outside N i (Adds F)) (resendAll cfg height price txs) m P
      fun r m' => ResentAll cfg F txs height price m.txstore r m'.txstore := by
  induction txs generalizing m with
  | nil => exact does_done.mpr (.of_grown (Grown.refl hm) fun _ => rfl)
  | cons tx rest ih =>
      obtain ⟨doc, hdoc, hkey⟩ := htxs tx List.mem_cons_self
      rw [List.map_cons, List.nodup_cons] at hnodup
      have hrest (tx' : StoredTransaction) (htx' : tx' ∈ rest) :
          ∃ d ∈ m.txstore, d.nonceSigner = tx'.nonceSigner :=
        htxs tx' (List.mem_cons_of_mem _ htx')
      have hfirst : Does (outside N i (Adds F)) (awaiting .resendTransaction
          (resendTransaction cfg tx height price)) m P
            fun r m' => Resent cfg F tx height price m.txstore r m'.txstore := by
        refine does_awaiting (resendTransaction_does hP (hgive tx List.mem_cons_self) hm hdoc hkey)
          (fun _ => hP _ _ rfl) fun r m₁ m₂ h hadds => h.grown (hadds.grown h.indexed)
      refine hfirst.next ?_ ?_
      · intro details m₁ h
        obtain ⟨q, hq, hreplaced⟩ : ∃ q, encodeGasPrice cfg price = .ok q ∧
            Replaced F (reattempt cfg tx q height) m.txstore m₁.txstore := by
          rcases h with hreplaced | ⟨⟨e, he⟩, -⟩
          · exact hreplaced
          · cases he
        have htxs₁ (tx' : StoredTransaction) (htx' : tx' ∈ rest) :
            ∃ d ∈ m₁.txstore, d.nonceSigner = tx'.nonceSigner := by
          obtain ⟨d, hd, hkey'⟩ := hrest tx' htx'
          refine ⟨d, hreplaced.kept d hd ?_, hkey'⟩
          rintro heq
          exact hnodup.1 (List.mem_map.mpr ⟨tx', htx', hkey'.symm.trans heq⟩)
        refine Does.next (ih (fun tx' htx' => hgive tx' (List.mem_cons_of_mem _ htx'))
          hreplaced.indexed htxs₁ hnodup.2) ?_ ?_
        · intro boosted m₂ h'
          exact does_done.mpr (.cons h h' ⟨doc, hdoc, hkey⟩ hrest hnodup.1
            fun _ => ⟨⟨details, rfl⟩, boosted, rfl⟩)
        · intro e m₂ h'
          exact .cons h h' ⟨doc, hdoc, hkey⟩ hrest hnodup.1 fun ⟨_, hok⟩ => by cases hok
      · intro e m₁ h
        have hstop : ResentAll cfg F rest height price m₁.txstore
            (.error e : Except String Unit) m₁.txstore :=
          .of_grown (Grown.refl h.indexed) fun ⟨_, hok⟩ => by cases hok
        exact .cons h hstop ⟨doc, hdoc, hkey⟩ hrest hnodup.1 fun ⟨_, hok⟩ => by cases hok

/-! ## A round -/

/-- The block in which a transaction was sent for the last time. -/
def lastSentAt (tx : StoredTransaction) : Nat := tx.boostBlockNumber.getD tx.creationBlockNumber

/-- It was sent long ago. -/
def IsStale (cfg : Config) (height : Nat) (tx : StoredTransaction) : Prop :=
  (cfg.pendingTransactionTimeoutBlocks : Int) ≤ height - lastSentAt tx

instance (cfg : Config) (height : Nat) (tx : StoredTransaction) :
    Decidable (IsStale cfg height tx) := inferInstanceAs (Decidable (_ ≤ _))

/-- The node may answer `n` when it is asked for the account nonce. -/
def Node.Counts (N : Node ν ω) (signer : Address) (n : Nat) : Prop :=
  ∃ m, N.answers m (.getTransactionCount signer) n

/-- The documents of `txs` that are sent again with the price of `oldest`. -/
def underpriced (cfg : Config) (oldest : StoredTransaction) (txs : List StoredTransaction) :
    List StoredTransaction :=
  txs.filter fun tx => .finite tx.gasPrice < resolveNewGasPrice cfg oldest.gasPrice

/-- What a round makes of the documents `txs` of the signer. -/
def Handled (cfg : Config) (N : Node ν ω) (F : StoredTransaction → Prop) (signer : Address)
    (height : Nat) (txs : List StoredTransaction) {α : Type} (store : List StoredTransaction)
    (r : Except String α) (store' : List StoredTransaction) : Prop :=
  match txs with
  | [] => Grown F store store'
  | oldest :: rest =>
      (((∃ n, N.Counts signer n ∧ oldest.nonce < n) ∨ ¬ IsStale cfg height oldest) ∧
        Grown F store store') ∨
      ResentAll cfg F (underpriced cfg oldest (oldest :: rest)) height
        (resolveNewGasPrice cfg oldest.gasPrice) store r store'

theorem boost_does (hP : ∀ q a, q.isUpdate = true → P ⟨q, a⟩) (hm : Indexed m.txstore)
    (signer : Address)
    (hgive : ∀ s oldest rest, Grown F m.txstore s →
      Listing (·.from = signer) s (oldest :: rest) → (∃ n, N.Counts signer n ∧ n ≤ oldest.nonce) →
      IsStale cfg height oldest → ∀ tx ∈ underpriced cfg oldest (oldest :: rest), ∀ q a,
        encodeGasPrice cfg (resolveNewGasPrice cfg oldest.gasPrice) = .ok q →
          P ⟨.broadcastTransaction (resigned tx q), a⟩) :
    Does (outside N i (Adds F)) (boostUnderpricedPendingTransactionsForSigner cfg signer height) m P
      fun r m' => ((∃ e, r = .error e) ∧ Grown F m.txstore m'.txstore) ∨
        ∃ s txs, Grown F m.txstore s ∧ Listing (·.from = signer) s txs ∧
          Handled cfg N F signer height txs s r m'.txstore := by
  refine (getAllBySigner_does hP hm signer).next ?_ fun e m₁ h => Or.inl ⟨⟨e, rfl⟩, h.1⟩
  intro txs m₁ h
  obtain ⟨s, hs, hs', hlisting⟩ := h.2 txs rfl
  cases txs with
  | nil => exact does_done.mpr (Or.inr ⟨s, [], hs, hlisting, hs'⟩)
  | cons oldest rest =>
      have hnonce : Does (outside N i (Adds F)) (ask (.getTransactionCount signer)) m₁ P fun r m₂ =>
          Grown F s m₂.txstore ∧ ∀ n, r = .ok n → N.Counts signer n := by
        refine does_await fun m₂ a m₃ hasked hreply hresumed => ⟨hP _ _ rfl, ?_, ?_⟩
        · exact hs'.trans (grown_effect hs'.indexed rfl hasked hresumed)
        · rintro n rfl
          exact ⟨m₂, hreply.2 rfl⟩
      refine hnonce.next ?_ ?_
      · rintro nonce m₂ ⟨hgrown, hcounts⟩
        have hcount := hcounts nonce rfl
        refine does_ite (fun hmined => ?_) fun hpending => ?_
        · refine does_done.mpr (Or.inr ⟨s, _, hs, hlisting, Or.inl ⟨Or.inl ?_, hgrown⟩⟩)
          exact ⟨nonce, hcount, hmined⟩
        · refine does_ite (fun hfresh => ?_) fun hstale => ?_
          · refine does_done.mpr (Or.inr ⟨s, _, hs, hlisting, Or.inl ⟨Or.inr ?_, hgrown⟩⟩)
            exact not_le.mpr hfresh
          · have hloop : Does (outside N i (Adds F)) (resendAll cfg height
                (resolveNewGasPrice cfg oldest.gasPrice)
                (underpriced cfg oldest (oldest :: rest))) m₂ P fun r m₃ =>
                  ResentAll cfg F (underpriced cfg oldest (oldest :: rest)) height
                    (resolveNewGasPrice cfg oldest.gasPrice) m₂.txstore r m₃.txstore := by
              refine resendAll_does hP _ ?_ hgrown.indexed ?_ ?_
              · exact hgive s oldest rest hs hlisting ⟨nonce, hcount, not_lt.mp hpending⟩
                  (not_lt.mp hstale)
              · intro tx htx
                have hin := ((hlisting.mem tx).mp (List.mem_filter.mp htx).1).1
                exact ⟨tx, hgrown.kept tx hin, rfl⟩
              · exact hlisting.indexed.keys.sublist (List.filter_sublist.map _)
            refine hloop.mono fun r m₃ hall => Or.inr ⟨s, _, hs, hlisting, Or.inr ?_⟩
            refine hall.after hgrown fun tx htx => ?_
            exact ⟨tx, ((hlisting.mem tx).mp (List.mem_filter.mp htx).1).1, rfl⟩
      · rintro e m₂ ⟨hgrown, -⟩
        exact Or.inl ⟨⟨e, rfl⟩, hs.trans hgrown⟩

/-! ## Who is sent again -/

theorem resendAll_gives (rest : List StoredTransaction) (hsigner : cfg.isSigner tx.from) {q : Nat}
    (hencode : encodeGasPrice cfg price = .ok q) {others : Memory ν → Memory ν → Prop} :
    Ensures (outside N i others) (resendAll cfg height price (tx :: rest)) m fun l r _ =>
      (Smooth l ∨ ∃ a, r = .ok a) → resigned tx q ∈ broadcasts l := by
  have hfirst : Ensures (outside N i others) (awaiting .resendTransaction
      (resendTransaction cfg tx height price)) m fun l r _ =>
        (Smooth l ∨ ∃ a, r = .ok a) → resigned tx q ∈ broadcasts l := by
    refine (ensures_handle _ _).mpr ((resendTransaction_gives hsigner hencode).mono ?_)
    intro l r m₁ h
    refine (ensures_ask _ _).mpr fun m₂ a m₃ _ _ _ => (ensures_done _).mpr fun hthrough => ?_
    rw [broadcasts_append]
    refine List.mem_append_left _ (h (hthrough.imp (fun hsmooth => ?_) id))
    exact (smooth_append.mp hsmooth).1
  refine Ensures.next hfirst ?_ fun _ _ _ h hthrough =>
    h (hthrough.imp id fun ⟨_, ha⟩ => by cases ha)
  intro l details m₁ h l' r m₂ _ _
  rw [broadcasts_append]
  exact List.mem_append_left _ (h (Or.inr ⟨details, rfl⟩))

/-- `tx` is the document of the signer with the least nonce. -/
structure IsOldest (signer : Address) (store : List StoredTransaction) (tx : StoredTransaction) :
    Prop where
  mem : tx ∈ store
  signed : tx.from = signer
  least : ∀ d ∈ store, d.from = signer → tx.nonce ≤ d.nonce

/-- The first document of a list is the oldest. -/
theorem Listing.head {signer : Address} {store rest : List StoredTransaction}
    (h : Listing (·.from = signer) store (tx :: rest)) : IsOldest signer store tx := by
  obtain ⟨hmem, hsigned⟩ := (h.mem tx).mp List.mem_cons_self
  refine ⟨hmem, hsigned, fun d hd hfrom => ?_⟩
  rcases List.mem_cons.mp ((h.mem d).mpr ⟨hd, hfrom⟩) with rfl | hrest
  · exact le_refl _
  · exact (List.pairwise_cons.mp h.sorted).1 d hrest

theorem IsOldest.unique {signer : Address} {store : List StoredTransaction}
    {d d' : StoredTransaction} (hstore : Indexed store) (h : IsOldest signer store d)
    (h' : IsOldest signer store d') : d = d' := by
  apply hstore.eq_of_key h.mem h'.mem
  have hle := h.least d' h'.mem h'.signed
  have hge := h'.least d h.mem h.signed
  show (⟨d.nonce, d.from⟩ : NonceSigner) = ⟨d'.nonce, d'.from⟩
  rw [h.signed, h'.signed, le_antisymm hle hge]

/-- Nobody else writes the documents. -/
abbrev Alone : Memory ν → Memory ν → Prop := Adds fun _ => False

theorem Grown.mem_iff {s s' : List StoredTransaction} (h : Grown (fun _ => False) s s')
    {d : StoredTransaction} : d ∈ s' ↔ d ∈ s :=
  ⟨fun hd => (h.added d hd).resolve_right id, h.kept d⟩

theorem IsOldest.of_grown {signer : Address} {s s' : List StoredTransaction}
    (h : Grown (fun _ => False) s s') (htx : IsOldest signer s tx) : IsOldest signer s' tx :=
  ⟨h.mem_iff.mpr htx.mem, htx.signed, fun d hd => htx.least d (h.mem_iff.mp hd)⟩

/-- The list of the documents of a signer begins with the oldest. -/
theorem Listing.eq_cons {signer : Address} {s txs : List StoredTransaction} (hs : Indexed s)
    (h : Listing (·.from = signer) s txs) (htx : IsOldest signer s tx) :
    ∃ rest, txs = tx :: rest := by
  cases txs with
  | nil => cases (h.mem tx).mpr ⟨htx.mem, htx.signed⟩
  | cons oldest rest =>
      obtain rfl : oldest = tx := h.head.unique hs htx
      exact ⟨rest, rfl⟩

theorem getAllBySigner_smoothly {W : Surroundings (Memory ν) Question Answer} (signer : Address) :
    Smoothly W (awaiting .getAllBySigner (getAllBySigner signer)) m :=
  (Smoothly.next (smoothly_ask _) fun _ _ => smoothly_done _).awaiting

/-- The oldest document is sent again if it is pending, stale, and cheap enough. -/
theorem boost_gives {signer : Address} (hm : Indexed m.txstore)
    (htx : IsOldest signer m.txstore tx) (hpending : ∀ n, N.Counts signer n → n ≤ tx.nonce)
    (hstale : IsStale cfg height tx)
    (hprice : .finite tx.gasPrice < resolveNewGasPrice cfg tx.gasPrice)
    (hsigner : cfg.isSigner signer) {q : Nat}
    (hencode : encodeGasPrice cfg (resolveNewGasPrice cfg tx.gasPrice) = .ok q) :
    Ensures (outside N i Alone) (boostUnderpricedPendingTransactionsForSigner cfg signer height) m
      fun l r _ => (Smooth l ∨ ∃ a, r = .ok a) → resigned tx q ∈ broadcasts l := by
  have hlist := (getAllBySigner_smoothly (W := outside N i Alone) (m := m) signer).and
    ((getAllBySigner_does (P := fun _ => True) (fun _ _ _ => trivial) hm signer).mono
      fun _ _ h => h)
  refine Ensures.next hlist ?_ ?_
  · rintro l₁ txs m₁ ⟨-, -, h⟩
    obtain ⟨s, hs, hs', hlisting⟩ := h.2 txs rfl
    obtain ⟨rest, rfl⟩ := hlisting.eq_cons hs.indexed (htx.of_grown hs)
    have hcount : Ensures (outside N i Alone) (ask (.getTransactionCount signer)) m₁ fun l r _ =>
        (Smooth l → ∃ a, r = .ok a) ∧
          ∀ n : Nat, r = (.ok n : Except String (Answer (.getTransactionCount signer))) →
            n ≤ tx.nonce := by
      refine (smoothly_ask _).and ((ensures_ask _ _).mpr fun m₂ a m₃ _ hreply _ => ?_)
      refine (ensures_done _).mpr ?_
      rintro n rfl
      exact hpending n ⟨m₂, hreply.2 rfl⟩
    refine Ensures.next hcount ?_ ?_
    · rintro l₂ nonce m₂ ⟨-, hnonce⟩
      refine ensures_ite.mpr ⟨fun hmined => ?_, fun _ => ?_⟩
      · exact absurd (hnonce nonce rfl) (not_le.mpr hmined)
      refine ensures_ite.mpr ⟨fun hfresh => absurd hstale (not_le.mpr hfresh), fun _ => ?_⟩
      have hunderpriced : underpriced cfg tx (tx :: rest) = tx :: underpriced cfg tx rest :=
        List.filter_cons_of_pos (by simpa using hprice)
      have hloop : Ensures (outside N i Alone) (resendAll cfg height
          (resolveNewGasPrice cfg tx.gasPrice) (underpriced cfg tx (tx :: rest))) m₂ fun l r _ =>
            (Smooth l ∨ ∃ a, r = .ok a) → resigned tx q ∈ broadcasts l := by
        rw [hunderpriced]
        exact resendAll_gives _ (htx.signed ▸ hsigner) hencode
      refine hloop.mono fun l₃ r m₃ hl hthrough => ?_
      rw [broadcasts_append, broadcasts_append]
      refine List.mem_append_right _ (List.mem_append_right _ (hl (hthrough.imp ?_ id)))
      exact fun hsmooth => (smooth_append.mp (smooth_append.mp hsmooth).2).2
    · rintro l₂ e m₂ ⟨h, -⟩ (hsmooth | ⟨a, ha⟩)
      · obtain ⟨a, ha⟩ := h (smooth_append.mp hsmooth).2
        cases ha
      · cases ha
  · rintro l e m₁ ⟨h, -⟩ (hsmooth | ⟨a, ha⟩)
    · obtain ⟨a, ha⟩ := h hsmooth
      cases ha
    · cases ha

/-! ## Stuck transactions -/

/-- `tx` is the document of the signer with the least nonce that is not mined. -/
structure IsOldestPending (signer : Address) (accountNonce : Nat)
    (store : List StoredTransaction) (tx : StoredTransaction) : Prop where
  mem : tx ∈ store
  signed : tx.from = signer
  pending : accountNonce ≤ tx.nonce
  least : ∀ d ∈ store, d.from = signer → accountNonce ≤ d.nonce → tx.nonce ≤ d.nonce

/-- What a round gives to the node: documents of the signer that are cheaper than the new price
of the oldest, which is pending. -/
def GivenFor (cfg : Config) (N : Node ν ω) (signer : Address) (store : List StoredTransaction)
    (b : SignedTransaction) : Prop :=
  ∃ oldest tx q, IsOldest signer store oldest ∧ (∃ n, N.Counts signer n ∧ n ≤ oldest.nonce) ∧
    tx ∈ store ∧ tx.from = signer ∧
    .finite tx.gasPrice < resolveNewGasPrice cfg oldest.gasPrice ∧
    encodeGasPrice cfg (resolveNewGasPrice cfg oldest.gasPrice) = .ok q ∧ b = resigned tx q

theorem boost_broadcasts {signer : Address} (hm : Indexed m.txstore) {l : Exchanges}
    {r : Except String (List (Word × SignedTransactionDetails))} {m' : Memory ν}
    (hrun : Runs (outside N i Alone)
      (boostUnderpricedPendingTransactionsForSigner cfg signer height) m l r m') :
    ∀ b ∈ broadcasts l, GivenFor cfg N signer m.txstore b := by
  refine Gives.broadcasts (boost_does ?_ hm signer ?_ l r m' hrun).1
  · intro q a hq
    exact .of_silent (by cases q <;> first | rfl | cases hq) a
  · intro s oldest rest hs hlisting hcounts _ tx htx q _ hencode
    obtain ⟨hin, hprice⟩ := List.mem_filter.mp htx
    obtain ⟨hmem, hsigned⟩ := (hlisting.mem tx).mp hin
    have holdest : IsOldest signer m.txstore oldest :=
      ⟨hs.mem_iff.mp hlisting.head.mem, hlisting.head.signed,
        fun d hd => hlisting.head.least d (hs.mem_iff.mpr hd)⟩
    exact ⟨oldest, tx, q, holdest, hcounts, hs.mem_iff.mp hmem, hsigned, by simpa using hprice,
      hencode, rfl⟩

/-- The document of a transfer of the manager. -/
def transferDoc (nonce gasPrice : Nat) (minedBlockNumber : Option Nat) : StoredTransaction :=
  createStoredTransaction plainConfig ⟨0x11, ⟨nonce, gasPrice, mintxgascost, some 0x22, 0, []⟩⟩
    ⟨0x11, 1, .VALUE_TRANSFER, 0, none, minedBlockNumber⟩

/-- The document of the first transaction of the worker, mined and not confirmed yet. -/
def workerDoc : StoredTransaction :=
  createStoredTransaction plainConfig ⟨0x22, ⟨0, 5, mintxgascost, some 0x33, 0, []⟩⟩
    ⟨0x22, 1, .RELAY_CALL, 90, none, some 95⟩

/-- The node knows an account nonce. -/
abbrev nonceNode (accountNonce : Nat) : Node Unit Unit :=
  fixedNode fun
    | .getTransactionCount _, n => n == accountNonce
    | _, _ => true

def nonceAnswer (accountNonce : Nat) : (q : Question) → Except String (Answer q)
  | .getTransactionCount _ => .ok accountNonce
  | .broadcastTransaction signedTx => .ok (plainConfig.hash signedTx)
  | _ => .error "no answer"

/-- A round for the manager, answered at once. -/
def boostRun (cfg : Config) (accountNonce height : Nat) (store : List StoredTransaction) :
    Option (Exchanges × Except String (List (Word × SignedTransactionDetails)) × Memory Unit) :=
  follow (outside (nonceNode accountNonce) 0 Alone) (answering (nonceAnswer accountNonce))
    (boostUnderpricedPendingTransactionsForSigner cfg 0x11 height) (.fresh cfg store [] ())

theorem boostRun_runs {accountNonce height : Nat} {store : List StoredTransaction}
    {l : Exchanges} {r : Except String (List (Word × SignedTransactionDetails))}
    {m' : Memory Unit} (h : boostRun cfg accountNonce height store = some (l, r, m')) :
    Runs (outside (nonceNode accountNonce) 0 Alone)
      (boostUnderpricedPendingTransactionsForSigner cfg 0x11 height)
      (.fresh cfg store [] ()) l r m' :=
  Runs.of_follow (fun m => Adds.refl m) h

theorem nonceNode_counts {accountNonce n : Nat} {signer : Address}
    (h : (nonceNode accountNonce).Counts signer n) : n = accountNonce := by
  obtain ⟨m, hm⟩ := h
  exact beq_iff_eq.mp hm

/-- A mined transaction that is not confirmed yet, and one that is stuck. -/
def stuckStore : List StoredTransaction := [transferDoc 0 10 (some 95), transferDoc 1 10 none]

/-- The stuck transaction among one of the worker that is mined already, and a newer one. -/
def waitingStore : List StoredTransaction :=
  [workerDoc, transferDoc 1 10 none, transferDoc 2 40 none]

/-- A round that has come to its end, with the oldest document of the signer when it began. -/
structure BoostRound (ν : Type) where
  height : Nat
  oldest : StoredTransaction
  before : Memory ν
  after : Memory ν
  exchanges : Exchanges
  details : List (Word × SignedTransactionDetails)

/-- The oldest transaction is pending, stale, and cheaper than the maximum. -/
structure BoostRound.Boosts (cfg : Config) (N : Node ν ω) (i : ℕ) (signer : Address)
    (b : BoostRound ν) : Prop where
  indexed : Indexed b.before.txstore
  oldest : IsOldest signer b.before.txstore b.oldest
  pending : ∀ n, N.Counts signer n → n ≤ b.oldest.nonce
  stale : IsStale cfg b.height b.oldest
  cheap : b.oldest.gasPrice < cfg.maxGasPrice
  run : Runs (outside N i Alone) (boostUnderpricedPendingTransactionsForSigner cfg signer b.height)
    b.before b.exchanges (.ok b.details) b.after

/-- The new gas price is an integer in its bounds, the transaction is signed and stored with it,
and no later document of the signer is cheaper. -/
def BoostRound.Right (cfg : Config) (signer : Address) (b : BoostRound ν) : Prop :=
  ∃ q, IsBoost cfg b.oldest.gasPrice q ∧ resigned b.oldest q ∈ broadcasts b.exchanges ∧
    (∃ d ∈ b.after.txstore, d.nonceSigner = b.oldest.nonceSigner ∧ d.gasPrice = q ∧
      d.txId = cfg.hash (resigned b.oldest q)) ∧
    ∀ d ∈ b.after.txstore, d.from = signer → b.oldest.nonce ≤ d.nonce → q ≤ d.gasPrice

variable {signer : Address} {b : BoostRound ν}

/-- The documents after a round that boosts. -/
theorem BoostRound.Boosts.resentAll (h : b.Boosts cfg N i signer) : ∃ txs,
    (∀ d, d ∈ txs ↔ d ∈ b.before.txstore ∧ d.from = signer) ∧
    ResentAll cfg (fun _ => False) (underpriced cfg b.oldest txs) b.height
      (resolveNewGasPrice cfg b.oldest.gasPrice) b.before.txstore (Except.ok b.details)
      b.after.txstore := by
  have hdoes := (boost_does (P := fun _ => True) (fun _ _ _ => trivial) h.indexed signer
    (fun _ _ _ _ _ _ _ _ _ _ _ _ => trivial) _ _ _ h.run).2
  rcases hdoes with ⟨⟨e, he⟩, -⟩ | ⟨s, txs, hs, hlisting, hhandled⟩
  · cases he
  obtain ⟨rest, rfl⟩ := hlisting.eq_cons hs.indexed (h.oldest.of_grown hs)
  have hmem (d : StoredTransaction) :
      d ∈ b.oldest :: rest ↔ d ∈ b.before.txstore ∧ d.from = signer :=
    (hlisting.mem d).trans (and_congr_left fun _ => hs.mem_iff)
  refine ⟨b.oldest :: rest, hmem, ?_⟩
  rcases hhandled with ⟨⟨n, hn, hlt⟩ | hfresh, -⟩ | hall
  · exact absurd (h.pending n hn) (not_le.mpr hlt)
  · exact absurd h.stale hfresh
  · refine hall.after hs fun tx htx => ?_
    exact ⟨tx, ((hmem tx).mp (List.mem_filter.mp htx).1).1, rfl⟩

/-- A gas price that can be boosted is boosted right. -/
theorem BoostRound.Boosts.right (hsigner : cfg.isSigner signer) (h : b.Boosts cfg N i signer)
    {q : Nat} (hq : IsBoost cfg b.oldest.gasPrice q) : b.Right cfg signer := by
  obtain ⟨txs, hmem, hall⟩ := h.resentAll
  have hencode : encodeGasPrice cfg (resolveNewGasPrice cfg b.oldest.gasPrice) = .ok q := by
    rw [hq.1]
    exact encodeGasPrice_natCast cfg q
  have hprice : .finite b.oldest.gasPrice < resolveNewGasPrice cfg b.oldest.gasPrice := by
    rw [hq.1, finite_lt]
    exact_mod_cast hq.2.1
  -- what is stored for a transaction that is cheaper than the new gas price
  have hstored (tx : StoredTransaction) (htx : tx ∈ underpriced cfg b.oldest txs) :
      reattempt cfg tx q b.height ∈ b.after.txstore := by
    obtain ⟨q', hq', hin⟩ := hall.all ⟨_, rfl⟩ tx htx
    rw [hencode] at hq'
    obtain rfl := Except.ok.inj hq'
    exact hin
  have holdest : b.oldest ∈ underpriced cfg b.oldest txs :=
    List.mem_filter.mpr ⟨(hmem _).mpr ⟨h.oldest.mem, h.oldest.signed⟩, by simpa using hprice⟩
  refine ⟨q, hq, ?_, ⟨_, hstored b.oldest holdest, rfl, rfl, rfl⟩, ?_⟩
  · exact boost_gives h.indexed h.oldest h.pending h.stale hprice hsigner hencode _ _ _ h.run
      (Or.inr ⟨_, rfl⟩)
  · intro d hd hfrom _
    rcases hall.added d hd with hno | ⟨d₀, hd₀, hkey, rfl | ⟨tx, htx, q', hq', rfl⟩⟩
    · exact hno.elim
    · -- a document that is there as before: it was not cheaper, or it was just replaced
      by_cases hcheap : .finite d.gasPrice < resolveNewGasPrice cfg b.oldest.gasPrice
      · have hin : d ∈ underpriced cfg b.oldest txs :=
          List.mem_filter.mpr ⟨(hmem d).mpr ⟨hd₀, hfrom⟩, by simpa using hcheap⟩
        rw [hall.indexed.eq_of_key hd (hstored d hin) rfl]
        exact le_refl q
      · rw [hq.1, finite_lt] at hcheap
        exact_mod_cast not_lt.mp hcheap
    · rw [hencode] at hq'
      obtain rfl := Except.ok.inj hq'
      exact le_refl q

/-- The next round boosts the same document, with the gas price that was stored. -/
def BoostRound.Follows (b b' : BoostRound ν) : Prop :=
  b'.oldest.nonceSigner = b.oldest.nonceSigner ∧
    ∃ d ∈ b.after.txstore, d.nonceSigner = b'.oldest.nonceSigner ∧ d.gasPrice = b'.oldest.gasPrice

theorem BoostRound.Follows.gasPrice {b' : BoostRound ν} (h : b.Follows b')
    (hb : b.Boosts cfg N i signer) {q : Nat} (hq : IsBoost cfg b.oldest.gasPrice q)
    (hright : b.Right cfg signer) : b'.oldest.gasPrice = q := by
  obtain ⟨q', hq', -, ⟨d, hd, hkey, hprice, -⟩, -⟩ := hright
  obtain ⟨d', hd', hkey', hprice'⟩ := h.2
  obtain ⟨txs, -, hall⟩ := hb.resentAll
  have hsame : d = d' := hall.indexed.eq_of_key hd hd' (hkey.trans (h.1.symm.trans hkey'.symm))
  have hqq : (q' : ℚ) = q := Number.finite.inj (hq'.1.symm.trans hq.1)
  calc b'.oldest.gasPrice = d'.gasPrice := hprice'.symm
    _ = d.gasPrice := by rw [hsame]
    _ = q' := hprice
    _ = q := by exact_mod_cast hqq

theorem BoostRound.Boosts.right_iff (hexact : cfg.arithmetic = .exact)
    (hfactor : 1 < cfg.retryGasPriceFactor) (hsigner : cfg.isSigner signer)
    (h : b.Boosts cfg N i signer) :
    b.Right cfg signer ↔ 0 < b.oldest.gasPrice ∧
      ((cfg.maxGasPrice : ℚ) < b.oldest.gasPrice * cfg.retryGasPriceFactor ∨
        ((b.oldest.gasPrice : ℚ) * cfg.retryGasPriceFactor).den = 1) := by
  rw [← isBoost_iff hexact hfactor h.cheap]
  exact ⟨fun ⟨q, hq, _⟩ => ⟨q, hq⟩, fun ⟨_, hq⟩ => h.right hsigner hq⟩

/-- **Successive boosts.** In exact arithmetic, any number of successive boosts of one document
are all right if and only if its first gas price is positive and its product with each power of
the factor, up to their number, is an integer or above the maximum. -/
theorem boosts_right_iff (hexact : cfg.arithmetic = .exact)
    (hfactor : 1 < cfg.retryGasPriceFactor) (hsigner : cfg.isSigner signer)
    (b : BoostRound ν) (rest : List (BoostRound ν))
    (hrounds : ∀ c ∈ b :: rest, c.Boosts cfg N i signer)
    (hchain : (b :: rest).IsChain BoostRound.Follows) :
    (∀ c ∈ b :: rest, c.Right cfg signer) ↔ 0 < b.oldest.gasPrice ∧
      ∀ k, 0 < k → k ≤ rest.length + 1 →
        ((cfg.maxGasPrice : ℚ) < b.oldest.gasPrice * cfg.retryGasPriceFactor ^ k ∨
          ((b.oldest.gasPrice : ℚ) * cfg.retryGasPriceFactor ^ k).den = 1) := by
  induction rest generalizing b with
  | nil =>
      rw [List.forall_mem_singleton,
        (hrounds b List.mem_cons_self).right_iff hexact hfactor hsigner]
      refine and_congr_right fun _ => ⟨fun h k hpos hle => ?_, fun h => ?_⟩
      · obtain rfl : k = 1 := by
          rw [List.length_nil] at hle
          omega
        rwa [pow_one]
      · simpa using h 1 Nat.one_pos le_rfl
  | cons c rest ih =>
      have hb := hrounds b List.mem_cons_self
      have hc := hrounds c (List.mem_cons_of_mem _ List.mem_cons_self)
      obtain ⟨hfollows, hchain'⟩ := List.isChain_cons_cons.mp hchain
      have ih' := ih c (fun d hd => hrounds d (List.mem_cons_of_mem _ hd)) hchain'
      -- the second boost is below the maximum, so the first was not capped
      have hproduct (hright : b.Right cfg signer) :
          (c.oldest.gasPrice : ℚ) = b.oldest.gasPrice * cfg.retryGasPriceFactor := by
        obtain ⟨q, hq, -⟩ := id hright
        have hprice : c.oldest.gasPrice = q := hfollows.gasPrice hb hq hright
        have hmin := hq.1
        rw [resolveNewGasPrice_exact cfg hexact, ← hprice, Number.finite.injEq] at hmin
        have hbelow : (c.oldest.gasPrice : ℚ) < cfg.maxGasPrice := by exact_mod_cast hc.cheap
        rcases min_choice ((b.oldest.gasPrice : ℚ) * cfg.retryGasPriceFactor) cfg.maxGasPrice
          with heq | heq
        · rw [heq] at hmin
          exact hmin.symm
        · rw [heq] at hmin
          exact absurd hmin.symm hbelow.ne
      have hpower (hright : b.Right cfg signer) (k : Nat) :
          (c.oldest.gasPrice : ℚ) * cfg.retryGasPriceFactor ^ k =
            b.oldest.gasPrice * cfg.retryGasPriceFactor ^ (k + 1) := by
        rw [hproduct hright, pow_succ', mul_assoc]
      rw [List.forall_mem_cons, ih', List.length_cons]
      constructor
      · rintro ⟨hright, -, hlater⟩
        obtain ⟨hpos, hone⟩ := (hb.right_iff hexact hfactor hsigner).mp hright
        refine ⟨hpos, fun k hk hle => ?_⟩
        rcases Nat.lt_or_ge 1 k with hmore | hleast
        · obtain ⟨j, rfl⟩ : ∃ j, k = j + 1 := ⟨k - 1, by omega⟩
          rw [← hpower hright]
          exact hlater j (by omega) (by omega)
        · obtain rfl : k = 1 := by omega
          rwa [pow_one]
      · rintro ⟨hpos, hall⟩
        have hright : b.Right cfg signer :=
          (hb.right_iff hexact hfactor hsigner).mpr
            ⟨hpos, by simpa using hall 1 Nat.one_pos (by omega)⟩
        refine ⟨hright, ?_, fun k hk hle => ?_⟩
        · obtain ⟨q, hq, -⟩ := id hright
          rw [hfollows.gasPrice hb hq hright]
          have hgt := hq.2.1
          omega
        · rw [hpower hright]
          exact hall (k + 1) (by omega) (by omega)

/-! ### Two boosts, and a price that is no integer -/

/-- Arithmetic without rounding, and a factor of 1.2. -/
def exactConfig : Config := { plainConfig with arithmetic := .exact, retryGasPriceFactor := 6 / 5 }

/-- A round of the manager whose oldest document is `tx`. -/
theorem boosts_of_run (tx : StoredTransaction) (height : Nat)
    (store store' : List StoredTransaction)
    (hrun : (boostRun exactConfig 1 height store).map (fun x => (x.2.1.isOk, x.2.2.txstore)) =
      some (true, store'))
    (hstore : Indexed store) (htx : IsOldest 0x11 store tx) (hnonce : 1 ≤ tx.nonce)
    (hstale : IsStale exactConfig height tx) (hcheap : tx.gasPrice < exactConfig.maxGasPrice) :
    ∃ b : BoostRound Unit, b.Boosts exactConfig (nonceNode 1) 0 0x11 ∧ b.oldest = tx ∧
      b.after.txstore = store' := by
  obtain ⟨⟨l, r, m'⟩, hfollow, heq⟩ := Option.map_eq_some_iff.mp hrun
  obtain ⟨hok, hafter⟩ := Prod.mk.inj heq
  cases r with
  | error e => cases hok
  | ok details =>
      refine ⟨⟨height, tx, .fresh exactConfig store [] (), m', l, details⟩, ?_, rfl, hafter⟩
      refine ⟨hstore, htx, fun n hn => ?_, hstale, hcheap, boostRun_runs hfollow⟩
      rw [nonceNode_counts hn]
      exact hnonce

/-- The product of 7 and the factor of 6/5 is stored as 8. -/
theorem odd_price : ∃ b : BoostRound Unit, b.Boosts exactConfig (nonceNode 1) 0 0x11 ∧
    b.oldest.gasPrice = 7 ∧ ¬ b.Right exactConfig 0x11 ∧
    ∃ d ∈ b.after.txstore, d.gasPrice = 8 ∧ .finite 8 < resolveNewGasPrice exactConfig 7 := by
  obtain ⟨b, hboosts, holdest, hafter⟩ := boosts_of_run (transferDoc 1 7 none) 100
    [workerDoc, transferDoc 1 7 none]
    [workerDoc, reattempt exactConfig (transferDoc 1 7 none) 8 100]
    (by decide +kernel) ⟨by decide, by decide⟩ ⟨by decide, rfl, by decide⟩ (by decide) (by decide)
    (by decide)
  refine ⟨b, hboosts, by rw [holdest]; rfl, ?_, ?_⟩
  · rintro ⟨q, ⟨hq, -⟩, -⟩
    rw [holdest, resolveNewGasPrice_exact _ rfl] at hq
    have hden : (min (7 * exactConfig.retryGasPriceFactor) exactConfig.maxGasPrice).den = 5 := by
      decide +kernel
    have hone := congrArg Rat.den (Number.finite.inj hq)
    rw [Rat.den_natCast] at hone
    exact absurd (hden.symm.trans hone) (by decide)
  · rw [hafter]
    exact ⟨_, List.mem_cons_of_mem _ (List.mem_singleton_self _), rfl, by decide +kernel⟩

/-- From 25 to 30, and from 30 to 36, with a later transaction that is cheaper than that. -/
theorem boosts_right_iff_twice : ∃ b c : BoostRound Unit, b.oldest.gasPrice = 25 ∧
    c.oldest.gasPrice = 30 ∧ ∀ d ∈ [b, c], d.Right exactConfig 0x11 := by
  let first := transferDoc 1 25 none
  let later := transferDoc 2 28 none
  let first' := reattempt exactConfig first 30 100
  let later' := reattempt exactConfig later 30 100
  obtain ⟨b, hb, holdest, hafter⟩ := boosts_of_run first 100 [workerDoc, first, later]
    [workerDoc, first', later'] (by decide +kernel) ⟨by decide, by decide⟩
    ⟨by decide, rfl, by decide⟩ (by decide) (by decide) (by decide)
  obtain ⟨c, hc, hnext, -⟩ := boosts_of_run first' 200 [workerDoc, first', later']
    [workerDoc, reattempt exactConfig first' 36 200, reattempt exactConfig later' 36 200]
    (by decide +kernel) ⟨by decide, by decide⟩ ⟨by decide, rfl, by decide⟩ (by decide) (by decide)
    (by decide)
  have hchain : [b, c].IsChain BoostRound.Follows := by
    refine List.isChain_pair.mpr ⟨by rw [hnext, holdest]; rfl, ?_⟩
    rw [hafter, hnext]
    exact ⟨first', List.mem_cons_of_mem _ List.mem_cons_self, rfl, rfl⟩
  have hrounds : ∀ d ∈ [b, c], d.Boosts exactConfig (nonceNode 1) 0 0x11 :=
    List.forall_mem_cons.mpr ⟨hb, List.forall_mem_singleton.mpr hc⟩
  refine ⟨b, c, by rw [holdest]; rfl, by rw [hnext]; rfl, ?_⟩
  refine (boosts_right_iff rfl (by decide +kernel) (by decide) b [c] hrounds hchain).mpr ?_
  rw [holdest]
  refine ⟨by decide, fun k hk hle => Or.inr ?_⟩
  rw [List.length_singleton] at hle
  rcases (by omega : k = 1 ∨ k = 2) with rfl | rfl
  · decide +kernel
  · decide +kernel

end RifRelay.Server
