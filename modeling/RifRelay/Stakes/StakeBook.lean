import RifRelay.Basic.Ledger

set_option autoImplicit false

/-! # Books of stakes

What a staking contract is for, apart from any contract: accounts lock amounts for
managers, an owner can take a stake back only some blocks after announcing it, and a stake
can be slashed, half of it to nobody and the rest to a beneficiary. All numbers are
naturals, so nothing overflows here.

* `Step.locked` — the lock-up: a stake that is not announced stays until the delay is over
  or it is slashed.
* `Step.total` — what leaves the book is what the step pays out, what comes in is what is
  deposited.
-/

namespace StakeBook

variable {A : Type} [DecidableEq A] [Zero A]

/-- The stake of one manager. `withdrawBlock` is `0` until the withdrawal is announced. -/
structure Stake (A : Type) where
  amount : Nat
  delay : Nat
  withdrawBlock : Nat
  owner : A

def Stake.empty : Stake A := ⟨0, 0, 0, 0⟩

abbrev Book (A : Type) : Type := A → Stake A

/-- The least stake and the least delay of a manager that counts as staked. -/
structure Terms where
  minimumStake : Nat
  minimumDelay : Nat

/-- What happens to a book. -/
inductive Move (A : Type)
  | idle
  | deposit (manager owner : A) (amount delay : Nat)
  | unlock (manager owner : A)
  | withdraw (manager owner : A)
  | slash (manager beneficiary : A)

/-- A move at a block, with what has to hold for it. -/
inductive Step (block : Nat) (book : Book A) : Move A → Book A → Prop
  | idle : Step block book .idle book
  | deposit (manager owner : A) (amount delay : Nat)
      (howner : (book manager).owner = 0 ∨ (book manager).owner = owner)
      (hdelay : (book manager).delay ≤ delay) :
      Step block book (.deposit manager owner amount delay)
        (Function.update book manager
          ⟨(book manager).amount + amount, delay, (book manager).withdrawBlock, owner⟩)
  | unlock (manager owner : A) (howner : (book manager).owner = owner)
      (hpending : (book manager).withdrawBlock = 0) :
      Step block book (.unlock manager owner)
        (Function.update book manager
          { book manager with withdrawBlock := block + (book manager).delay })
  | withdraw (manager owner : A) (howner : (book manager).owner = owner)
      (hpending : 0 < (book manager).withdrawBlock)
      (hdue : (book manager).withdrawBlock ≤ block) :
      Step block book (.withdraw manager owner) (Function.update book manager Stake.empty)
  | slash (manager beneficiary : A) (hstake : 0 < (book manager).amount) :
      Step block book (.slash manager beneficiary)
        (Function.update book manager { book manager with amount := 0 })

/-! ## Lock-up -/

/-- The manager has a sufficient stake that is not announced for withdrawal. -/
def Staked (terms : Terms) (book : Book A) (manager : A) : Prop :=
  terms.minimumStake ≤ (book manager).amount ∧ terms.minimumDelay ≤ (book manager).delay ∧
    (book manager).withdrawBlock = 0

/-- The stake of the manager cannot be withdrawn before the block `limit`. -/
structure Locked (terms : Terms) (limit : Nat) (manager : A) (book : Book A) : Prop where
  stake : terms.minimumStake ≤ (book manager).amount
  delay : terms.minimumDelay ≤ (book manager).delay
  withdrawBlock : (book manager).withdrawBlock = 0 ∨ limit ≤ (book manager).withdrawBlock

omit [DecidableEq A] [Zero A] in
theorem Staked.locked {terms : Terms} {book : Book A} {manager : A}
    (h : Staked terms book manager) (limit : Nat) : Locked terms limit manager book :=
  ⟨h.1, h.2.1, Or.inl h.2.2⟩

/-- **Lock-up.** A step before the block `limit`, at most `minimumDelay` blocks before it,
slashes the manager, or leaves the stake locked and is no withdrawal of it. -/
theorem Step.locked {terms : Terms} {block : Nat} {book book' : Book A} {move : Move A}
    (h : Step block book move book') {manager : A} {limit : Nat}
    (hlocked : Locked terms limit manager book) (hbefore : block < limit)
    (hdelay : limit ≤ block + terms.minimumDelay) :
    (∃ beneficiary, move = .slash manager beneficiary) ∨
      (Locked terms limit manager book' ∧ ∀ owner, move ≠ .withdraw manager owner) := by
  obtain ⟨hstake, hd, hw⟩ := hlocked
  cases h with
  | idle => exact Or.inr ⟨⟨hstake, hd, hw⟩, by simp⟩
  | deposit m o v d howner hle =>
      refine Or.inr ⟨?_, by simp⟩
      rcases eq_or_ne manager m with rfl | hne
      · refine ⟨?_, ?_, ?_⟩ <;> simp only [Function.update_self]
        · exact Nat.le_add_right_of_le hstake
        · exact Nat.le_trans hd hle
        · exact hw
      · constructor <;> simpa only [Function.update_of_ne hne]
  | unlock m o howner hpending =>
      refine Or.inr ⟨?_, by simp⟩
      rcases eq_or_ne manager m with rfl | hne
      · refine ⟨?_, ?_, ?_⟩ <;> simp only [Function.update_self]
        · exact hstake
        · exact hd
        · -- the announcement adds the delay of the manager, which is at least the minimum
          exact Or.inr (Nat.le_trans hdelay (Nat.add_le_add_left hd block))
      · constructor <;> simpa only [Function.update_of_ne hne]
  | withdraw m o howner hpending hdue =>
      rcases eq_or_ne manager m with rfl | hne
      · omega
      · refine Or.inr ⟨?_, ?_⟩
        · constructor <;> simpa only [Function.update_of_ne hne]
        · intro owner heq
          cases heq
          exact hne rfl
  | slash m b hpos =>
      rcases eq_or_ne manager m with rfl | hne
      · exact Or.inl ⟨b, rfl⟩
      · refine Or.inr ⟨?_, by simp⟩
        constructor <;> simpa only [Function.update_of_ne hne]

/-! ## Conservation -/

/-- What a move pays out of the book. -/
def payments (book : Book A) : Move A → Multiset (A × Nat)
  | .withdraw manager owner => {(owner, (book manager).amount)}
  | .slash manager beneficiary =>
      {(0, (book manager).amount / 2),
        (beneficiary, (book manager).amount - (book manager).amount / 2)}
  | _ => 0

/-- What a move deposits for a manager. -/
def deposited (manager : A) : Move A → Nat
  | .deposit m _ amount _ => if m = manager then amount else 0
  | _ => 0

/-- What a move pays back to the owner of a manager's stake. -/
def withdrawn (book : Book A) (manager : A) : Move A → Nat
  | .withdraw m _ => if m = manager then (book m).amount else 0
  | _ => 0

/-- What a move burns of a manager's stake. -/
def burned (book : Book A) (manager : A) : Move A → Nat
  | .slash m _ => if m = manager then (book m).amount / 2 else 0
  | _ => 0

/-- What a move takes from a manager's stake for a beneficiary. -/
def rewarded (book : Book A) (manager : A) : Move A → Nat
  | .slash m _ => if m = manager then (book m).amount - (book m).amount / 2 else 0
  | _ => 0

/-- The coins a move brings. -/
def income : Move A → Nat
  | .deposit _ _ amount _ => amount
  | _ => 0

/-- **Conservation for one manager.** -/
theorem Step.conserved {block : Nat} {book book' : Book A} {move : Move A}
    (h : Step block book move book') (manager : A) :
    (book' manager).amount + (withdrawn book manager move + (burned book manager move +
        rewarded book manager move)) =
      (book manager).amount + deposited manager move := by
  cases h with
  | idle => simp [withdrawn, burned, rewarded, deposited]
  | deposit m o v d howner hdelay =>
      rcases eq_or_ne m manager with rfl | hne
      · simp [withdrawn, burned, rewarded, deposited]
      · simp [withdrawn, burned, rewarded, deposited, hne, hne.symm]
  | unlock m o howner hpending =>
      rcases eq_or_ne m manager with rfl | hne
      · simp [withdrawn, burned, rewarded, deposited]
      · simp [withdrawn, burned, rewarded, deposited, hne.symm]
  | withdraw m o howner hpending hdue =>
      rcases eq_or_ne m manager with rfl | hne
      · simp [withdrawn, burned, rewarded, deposited, Stake.empty]
      · simp [withdrawn, burned, rewarded, deposited, hne, hne.symm]
  | slash m b hpos =>
      rcases eq_or_ne m manager with rfl | hne
      · simp only [withdrawn, burned, rewarded, deposited, Function.update_self, if_true]
        omega
      · simp [withdrawn, burned, rewarded, deposited, hne, hne.symm]

variable [Fintype A]

/-- The sum of all stakes. -/
def total (book : Book A) : Nat := ∑ manager, (book manager).amount

omit [Zero A] in
theorem total_update (book : Book A) (manager : A) (s : Stake A) :
    total (Function.update book manager s) + (book manager).amount = total book + s.amount := by
  have h := Ledger.sum_update (fun m => (book m).amount) manager s.amount
  have heq : (fun m => (Function.update book manager s m).amount) =
      Function.update (fun m => (book m).amount) manager s.amount := by
    funext m
    rcases eq_or_ne m manager with rfl | hne
    · simp
    · simp [hne]
  simpa only [total, heq] using h

omit [DecidableEq A] [Zero A] in
theorem amount_le_total (book : Book A) (manager : A) :
    (book manager).amount ≤ total book :=
  Ledger.le_sum (fun m => (book m).amount) manager

/-- **Conservation for the whole book.** -/
theorem Step.total {block : Nat} {book book' : Book A} {move : Move A}
    (h : Step block book move book') :
    total book' + ((payments book move).map Prod.snd).sum = total book + income move := by
  cases h with
  | idle => simp [payments, income]
  | deposit m o v d howner hdelay =>
      have hu := total_update book m ⟨(book m).amount + v, d, (book m).withdrawBlock, o⟩
      simp only [payments, income, Multiset.map_zero, Multiset.sum_zero] at hu ⊢
      omega
  | unlock m o howner hpending =>
      have hu := total_update book m
        { book m with withdrawBlock := block + (book m).delay }
      simp only [payments, income, Multiset.map_zero, Multiset.sum_zero] at hu ⊢
      omega
  | withdraw m o howner hpending hdue =>
      have hu := total_update book m Stake.empty
      simp only [payments, income, Multiset.map_singleton, Multiset.sum_singleton,
        Stake.empty] at hu ⊢
      omega
  | slash m b hpos =>
      have hu := total_update book m { book m with amount := 0 }
      simp only [payments, income, Multiset.insert_eq_cons, Multiset.map_cons,
        Multiset.map_singleton, Multiset.sum_cons, Multiset.sum_singleton] at hu ⊢
      omega

end StakeBook
