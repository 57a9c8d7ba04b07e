import RifRelay.Contracts.ProofRules
import RifRelay.Machine.CallForest

set_option autoImplicit false

/-! # Where the coins of an account come from and go to

The books of one account over what goes through in an execution. Coins come in with the calls
it receives and without any code of it running (`forced`); they go out with the calls it makes.
Nothing else moves them, unless code from outside the repository runs in the account: that may
also burn them or force them on others (`Accounted`).
-/

namespace RifRelay

open CallMachine

/-- The code is neither that of a wallet nor that of a proxy. -/
def Code.isForeign : Code → Bool
  | .smartWallet | .customSmartWallet | .proxy _ => false
  | _ => true

theorem Code.isForeign_of_isWallet {k : Code} (h : k.isWallet = true) : k.isForeign = false := by
  cases k <;> first | rfl | cases h

namespace Coins

variable {χ : Type}

/-- What goes through on the chain. -/
abbrev Frames (χ : Type) : Type := Forest (World χ) Msg

/-- The code that an entry runs. -/
def codeAt (e : Entry (World χ) Msg) : Option Code :=
  (e.pre.code e.msg.codeAddress).map Contract.code

/-- Other code than that of wallets and proxies runs in the account `W`. In a wallet this is
its custom logic, or what that delegates to. -/
def Foreign (W : Address) (e : Entry (World χ) Msg) : Prop :=
  e.msg.self = W ∧ ∃ k, codeAt e = some k ∧ k.isForeign = true

/-! ## The books -/

/-- The coins a message brings to the account `W`. -/
def brings (W : Address) (m : Msg) : Nat := if m.kind = .call ∧ m.self = W then m.value.toNat else 0

/-- The coins a message takes from the account `W`. -/
def takes (W : Address) (m : Msg) : Nat :=
  if m.kind = .call ∧ m.sender = W then m.value.toNat else 0

def arrived (W : Address) (f : Frames χ) : Nat := (f.entries.map fun e => brings W e.msg).sum

def sent (W : Address) (f : Frames χ) : Nat := (f.entries.map fun e => takes W e.msg).sum

/-- The books of the account `W`, which are exact if no foreign code runs in the account
(`own` says this of the frame that is still running). -/
structure Accounted (own : Prop) (W : Address) (w w' : World χ) (f : Frames χ) : Prop where
  supply : w'.supply ≤ w.supply
  atMost : w'.balance W + sent W f + w.forced W ≤ w.balance W + arrived W f + w'.forced W
  exactly : own → (∀ e ∈ f.entries, ¬ Foreign W e) →
    w'.balance W + sent W f + w.forced W = w.balance W + arrived W f + w'.forced W

section Books

variable {E : Env} {own : Prop} {W : Address} {w w' w'' s s' : World χ} {f g : Frames χ} {msg : Msg}

@[simp] theorem arrived_append :
    arrived W (f.append g) = arrived W f + arrived W g := by
  simp [arrived]

@[simp] theorem sent_append : sent W (f.append g) = sent W f + sent W g := by
  simp [sent]

theorem Accounted.of_same (hsupply : w'.supply ≤ w.supply)
    (h : w'.balance W + w.forced W = w.balance W + w'.forced W) :
    Accounted own W w w' .nil where
  supply := hsupply
  atMost := h.le
  exactly _ _ := h

theorem Accounted.trans (h : Accounted own W w w' f) (h' : Accounted own W w' w'' g) :
    Accounted own W w w'' (f.append g) where
  supply := h'.supply.trans h.supply
  atMost := by
    have h₁ := h.atMost
    have h₂ := h'.atMost
    rw [sent_append, arrived_append]
    omega
  exactly hown hnone := by
    have h₁ := h.exactly hown fun e he => hnone e (by simp [he])
    have h₂ := h'.exactly hown fun e he => hnone e (by simp [he])
    rw [sent_append, arrived_append]
    omega

theorem Accounted.additive (own : Prop) (W : Address) :
    Additive (Accounted own W : World χ → World χ → Frames χ → Prop) :=
  ⟨fun _ => .of_same le_rfl rfl, fun h h' => h.trans h'⟩

theorem Accounted.weaken (h : Accounted own W w w' f) {own' : Prop} (hown : own' → own) :
    Accounted own' W w w' f :=
  ⟨h.supply, h.atMost, fun h' => h.exactly (hown h')⟩

/-- One write of a frame of another account. -/
theorem Accounted.of_local (h : LocalStep E msg w w') (hself : msg.self ≠ W) :
    Accounted own W w w' .nil := by
  obtain ⟨v, hbalance, hforced⟩ := h.balance W hself.symm
  refine .of_same h.supply ?_
  rw [hbalance, hforced]
  omega

/-- One write of a frame of the account itself. -/
theorem Accounted.of_frame {k : Code} (h : FrameStep E msg w k w') :
    Accounted False msg.self w w' .nil where
  supply := h.localStep.supply
  exactly h := h.elim
  atMost := by
    have hkeeps : w'.balance msg.self ≤ w.balance msg.self ∧
        w'.forced msg.self = w.forced msg.self := by
      cases h with
      | outside h =>
          cases h with
          | force dest v hne hv =>
              have hmove := Ledger.move_from w.balance v hne.symm
              refine ⟨?_, Function.update_of_ne hne.symm _ _⟩
              show Ledger.move w.balance msg.self dest v msg.self ≤ _
              omega
          | burn v =>
              refine ⟨?_, rfl⟩
              show Function.update w.balance msg.self (w.balance msg.self - v) msg.self ≤ _
              rw [Function.update_self]
              exact Nat.sub_le _ _
          | _ => exact ⟨le_rfl, rfl⟩
      | _ => exact ⟨le_rfl, rfl⟩
    have hbalance := hkeeps.1
    have hforced := hkeeps.2
    show w'.balance msg.self + 0 + _ ≤ _ + 0 + _
    omega

/-- Entering a message. -/
theorem balance_entered (h : enter msg w = some s) :
    s.balance W + takes W msg = w.balance W + brings W msg := by
  rcases enter_cases h with ⟨hkind, hvalue, rfl⟩ | ⟨hkind, rfl⟩
  · simp only [takes, brings, hkind, true_and]
    by_cases hself : msg.sender = msg.self
    · simp only [hself] at hvalue ⊢
      rw [Ledger.move_self _ _ _ hvalue]
    · by_cases hfrom : msg.sender = W
      · subst hfrom
        have hmove := Ledger.move_from w.balance msg.value.toNat hself
        rw [if_pos rfl, if_neg (Ne.symm hself)]
        omega
      · by_cases hto : msg.self = W
        · subst hto
          have hmove := Ledger.move_to w.balance msg.value.toNat (Ne.symm hself)
          rw [if_neg hfrom, if_pos rfl]
          omega
        · rw [if_neg hfrom, if_neg hto]
          exact congrArg (· + 0) (Ledger.move_other _ _ (Ne.symm hfrom) (Ne.symm hto))
  · simp only [takes, brings, hkind, false_and, if_false]

/-- A frame that has ended. -/
theorem Accounted.close (henter : enter msg w = some s) (h : Accounted own W s s' f)
    (hown : own ∨ Foreign W (⟨msg, w⟩ : Entry (World χ) Msg)) :
    Accounted True W w s' (.tree ⟨msg, w⟩ f) := by
  obtain ⟨b, rfl, hsum⟩ := enter_frame henter
  have hbalance : b W + takes W msg = w.balance W + brings W msg := balance_entered henter
  have hsent : sent W (.tree ⟨msg, w⟩ f) = takes W msg + sent W f := by simp [sent]
  have harrived : arrived W (.tree ⟨msg, w⟩ f) = brings W msg + arrived W f := by simp [arrived]
  have hatMost : s'.balance W + sent W f + w.forced W ≤ b W + arrived W f + s'.forced W := h.atMost
  refine ⟨h.supply.trans hsum.le, ?_, fun _ hnone => ?_⟩
  · omega
  · rw [Forest.entries_tree] at hnone
    rcases hown with hown | hforeign
    · have hexactly : s'.balance W + sent W f + w.forced W = b W + arrived W f + s'.forced W :=
        h.exactly hown fun e he => hnone e (List.mem_cons_of_mem _ he)
      omega
    · exact absurd hforeign (hnone _ List.mem_cons_self)

end Books

end Coins

end RifRelay
