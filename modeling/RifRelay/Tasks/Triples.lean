import RifRelay.Tasks.Projections

set_option autoImplicit false

/-! # Triples

`Triple W l₀ p s P Φ` says of a program that is run in `s` after the exchanges `l₀`: whatever it
asks satisfies `P`, and when it ends, `Φ` holds of all exchanges, of the result, and of the memory.
The rules follow the program from its start to its end; what is known of the exchanges is kept by
`P` and `Φ`, which speak of the whole history.
-/

namespace EventLoop

variable {σ Q : Type} {A : Q → Type} {α β : Type}

/-- What holds of the whole history when a program ends. -/
abbrev Post (σ Q : Type) (A : Q → Type) (α : Type) : Type :=
  List (Exchange Q A) → Except String α → σ → Prop

def Triple (W : Surroundings σ Q A) (l₀ : List (Exchange Q A)) (p : Async σ Q A α) (s : σ)
    (P : List (Exchange Q A) → Q → Prop) (Φ : Post σ Q A α) : Prop :=
  AsksOnly W p s (fun l => P (l₀ ++ l)) ∧ Ensures W p s fun l => Φ (l₀ ++ l)

variable {W : Surroundings σ Q A} {l₀ : List (Exchange Q A)} {s : σ}
  {P : List (Exchange Q A) → Q → Prop} {Φ Φ' : Post σ Q A α} {Ψ : Post σ Q A β}

theorem Triple.asks {p : Async σ Q A α} (h : Triple W [] p s P Φ) : AsksOnly W p s P := h.1

theorem Triple.ensures {p : Async σ Q A α} (h : Triple W [] p s P Φ) : Ensures W p s Φ := h.2

theorem Triple.mono {p : Async σ Q A α} (h : Triple W l₀ p s P Φ)
    (hΦ : ∀ l r s', Φ l r s' → Φ' l r s') : Triple W l₀ p s P Φ' :=
  ⟨h.1, h.2.mono fun _ r s' hr => hΦ _ r s' hr⟩

theorem triple_done {r : Except String α} (h : Φ l₀ r s) : Triple W l₀ (.done r) s P Φ := by
  refine ⟨asks_done r, (ensures_done r).mpr ?_⟩
  rw [List.append_nil]
  exact h

theorem triple_read {k : σ → Async σ Q A α} (h : Triple W l₀ (k s) s P Φ) :
    Triple W l₀ (.read k) s P Φ := ⟨asks_read h.1, (ensures_read k).mpr h.2⟩

theorem triple_update {f : σ → σ} {k : Async σ Q A α} (h : Triple W l₀ k (f s) P Φ) :
    Triple W l₀ (.update f k) s P Φ := ⟨asks_update h.1, (ensures_update f k).mpr h.2⟩

theorem triple_ask {q : Q} {k : Except String (A q) → Async σ Q A α} (hq : P l₀ q)
    (h : ∀ s₁ a s₂, W.others s s₁ → W.replies s₁ q a → W.others (W.effect s₁ q a) s₂ →
      Triple W (l₀ ++ [⟨q, a⟩]) (k a) s₂ P Φ) : Triple W l₀ (.ask q k) s P Φ := by
  constructor
  · refine asks_ask (by rw [List.append_nil]; exact hq) fun s₁ a s₂ hasked hreplies hresumed => ?_
    refine (h s₁ a s₂ hasked hreplies hresumed).1.mono fun l q' hq' => ?_
    rw [List.append_assoc] at hq'
    exact hq'
  · refine (ensures_ask q k).mpr fun s₁ a s₂ hasked hreplies hresumed => ?_
    refine (h s₁ a s₂ hasked hreplies hresumed).2.mono fun l r s' hr => ?_
    rw [List.append_assoc] at hr
    exact hr

/-- A composed program: the second part goes on with the history of the first one. -/
theorem Triple.handle {p : Async σ Q A α} {f : Except String α → Async σ Q A β}
    (hp : Triple W l₀ p s P Φ) (hf : ∀ l r s₁, Φ l r s₁ → Triple W l (f r) s₁ P Ψ) :
    Triple W l₀ (p.handle f) s P Ψ := by
  constructor
  · refine asks_handle hp.1 (hp.2.mono fun l r s₁ h => ?_)
    refine (hf _ r s₁ h).1.mono fun l' q hq => ?_
    rw [List.append_assoc] at hq
    exact hq
  · refine (ensures_handle p f).mpr (hp.2.mono fun l r s₁ h => ?_)
    refine (hf _ r s₁ h).2.mono fun l' r' s' hr => ?_
    rw [List.append_assoc] at hr
    exact hr

theorem Triple.next {p : Async σ Q A α} {f : α → Async σ Q A β} (hp : Triple W l₀ p s P Φ)
    (hf : ∀ l a s₁, Φ l (.ok a) s₁ → Triple W l (f a) s₁ P Ψ)
    (herror : ∀ l e s₁, Φ l (.error e) s₁ → Ψ l (.error e) s₁) :
    Triple W l₀ (p.handle (Async.next f)) s P Ψ := by
  refine hp.handle fun l r s₁ h => ?_
  cases r with
  | ok a => exact hf l a s₁ h
  | error e => exact triple_done (herror l e s₁ h)

/-- An error that is handled. -/
theorem Triple.recover {p : Async σ Q A α} {f : String → Async σ Q A α} {T : Post σ Q A α}
    (hp : Triple W l₀ p s P Φ) (hok : ∀ l a s₁, Φ l (.ok a) s₁ → T l (.ok a) s₁)
    (hf : ∀ l e s₁, Φ l (.error e) s₁ → Triple W l (f e) s₁ P T) :
    Triple W l₀ (p.recover f) s P T := by
  refine hp.handle fun l r s₁ h => ?_
  cases r with
  | ok a => exact triple_done (hok l a s₁ h)
  | error e => exact hf l e s₁ h

/-- One question: what it is answered is the last exchange. -/
theorem triple_await {q : Q} {Φ : Post σ Q A (A q)} (hq : P l₀ q)
    (h : ∀ s₁ a s₂, W.replies s₁ q a → Φ (l₀ ++ [⟨q, a⟩]) a s₂) :
    Triple W l₀ (Async.await q) s P Φ :=
  triple_ask hq fun s₁ a s₂ _ hreplies _ => triple_done (h s₁ a s₂ hreplies)

theorem triple_get {k : σ → Async σ Q A β} (h : Triple W l₀ (k s) s P Ψ) :
    Triple W l₀ (Async.get.handle (Async.next k)) s P Ψ := triple_read h

theorem triple_modify {f : σ → σ} {k : Unit → Async σ Q A β}
    (h : Triple W l₀ (k ()) (f s) P Ψ) :
    Triple W l₀ ((Async.modify f).handle (Async.next k)) s P Ψ := triple_update h

theorem triple_assert {p : Prop} [Decidable p] {e : String} {k : Unit → Async σ Q A β}
    (h : p → Triple W l₀ (k ()) s P Ψ) (herror : ¬ p → Ψ l₀ (.error e) s) :
    Triple W l₀ ((Async.assert p e).handle (Async.next k)) s P Ψ := by
  unfold Async.assert
  split
  next hp => exact h hp
  next hp => exact triple_done (herror hp)

theorem triple_ite {p : Prop} [Decidable p] {t t' : Async σ Q A α}
    (ht : p → Triple W l₀ t s P Φ) (ht' : ¬ p → Triple W l₀ t' s P Φ) :
    Triple W l₀ (if p then t else t') s P Φ := by
  split
  next hp => exact ht hp
  next hp => exact ht' hp

/-- A part that may be left out. -/
theorem triple_whenever {p : Prop} [Decidable p] {t : Async σ Q A Unit} {Φ : Post σ Q A Unit}
    (ht : p → Triple W l₀ t s P Φ) (ht' : ¬ p → Φ l₀ (.ok ()) s) :
    Triple W l₀ (Async.whenever p t) s P Φ :=
  triple_ite ht fun hp => triple_done (ht' hp)

end EventLoop
