import Mathlib.Algebra.Order.Round
import Mathlib.Data.Int.Log
import Mathlib.Data.Rat.Floor
import Mathlib.Order.WithBot
import Mathlib.Tactic.Linarith
import Mathlib.Tactic.NormNum
import Mathlib.Tactic.Positivity
import Mathlib.Tactic.Ring

set_option autoImplicit false

/-! # Numbers with 53 bits

The values of the binary floating point numbers with 53 bits: rationals `m * 2 ^ e`, and the two
infinities. `ofRat` rounds to the nearest one, to the even one of two, and too large values to
infinity.

* `representable_of_ofRat`, `ofRat_of_representable` — the results are the representable numbers,
  and these are left as they are;
* `ofRat_int` — an integer is rounded to an integer.
-/

namespace Doubles

inductive Number
  | finite (q : ℚ)
  | infinite (negative : Bool)
deriving DecidableEq

/-- The place of a number among all of them. -/
def Number.rank : Number → WithBot (WithTop ℚ)
  | .finite q => ((q : WithTop ℚ) : WithBot (WithTop ℚ))
  | .infinite false => ((⊤ : WithTop ℚ) : WithBot (WithTop ℚ))
  | .infinite true => ⊥

theorem Number.rank_injective : Function.Injective Number.rank := by
  intro a b h
  rcases a with q | _ | _ <;> rcases b with r | _ | _ <;> simp_all [Number.rank]

instance : LinearOrder Number := LinearOrder.lift' Number.rank Number.rank_injective

def Representable (q : ℚ) : Prop :=
  ∃ m e : ℤ, q = m * 2 ^ e ∧ |m| < 2 ^ 53 ∧ -1074 ≤ e ∧ |q| < 2 ^ 1024

/-- The nearest integer, the even one of two. -/
def roundEven (x : ℚ) : ℤ :=
  if Int.fract x < 1 / 2 then ⌊x⌋
  else if 1 / 2 < Int.fract x then ⌊x⌋ + 1
  else if ⌊x⌋ % 2 = 0 then ⌊x⌋ else ⌊x⌋ + 1

/-- The exponent of the last bit of the numbers around `q`. -/
def lastBit (q : ℚ) : ℤ := max (Int.log 2 |q| - 52) (-1074)

def ofRat (q : ℚ) : Number :=
  let r : ℚ := roundEven (q / 2 ^ lastBit q) * 2 ^ lastBit q
  if |r| < 2 ^ 1024 then .finite r else .infinite (decide (q < 0))

/-- The arithmetic of a program: its results are rounded, or taken as they are. -/
inductive Arithmetic
  | doubles
  | exact
deriving DecidableEq

/-- The result of an operation whose value is `q`. -/
def Arithmetic.round : Arithmetic → ℚ → Number
  | .doubles, q => ofRat q
  | .exact, q => .finite q

variable {q r : ℚ} {m e : ℤ}

@[simp] theorem finite_le : Number.finite q ≤ .finite r ↔ q ≤ r := by
  show Number.rank _ ≤ Number.rank _ ↔ _
  simp only [Number.rank, WithBot.coe_le_coe, WithTop.coe_le_coe]

@[simp] theorem finite_lt : Number.finite q < .finite r ↔ q < r := by
  rw [lt_iff_not_ge, finite_le, not_le]

theorem min_finite (q r : ℚ) : min (Number.finite q) (.finite r) = .finite (min q r) := by
  rcases le_total q r with h | h
  · rw [min_eq_left h, min_eq_left (finite_le.mpr h)]
  · rw [min_eq_right h, min_eq_right (finite_le.mpr h)]

/-! ## Rounding to integers -/

@[simp] theorem roundEven_int (n : ℤ) : roundEven n = n := by
  have hfract : Int.fract (n : ℚ) < 1 / 2 := by
    rw [Int.fract_intCast]
    norm_num
  rw [roundEven, if_pos hfract, Int.floor_intCast]

theorem roundEven_cases (x : ℚ) : roundEven x = ⌊x⌋ ∨ roundEven x = ⌊x⌋ + 1 := by
  unfold roundEven
  split
  · exact .inl rfl
  · split
    · exact .inr rfl
    · split
      · exact .inl rfl
      · exact .inr rfl

theorem abs_roundEven_sub (x : ℚ) : |(roundEven x : ℚ) - x| ≤ 1 := by
  have hlow := Int.floor_le x
  have hhigh := Int.lt_floor_add_one x
  rw [abs_le]
  rcases roundEven_cases x with hx | hx
  · rw [hx]
    constructor <;> linarith
  · rw [hx]
    push_cast
    constructor <;> linarith

theorem abs_roundEven_le {x : ℚ} {n : ℤ} (h : |x| < n) : |roundEven x| ≤ n := by
  have hbounds := abs_lt.mp h
  have hlow : -n ≤ ⌊x⌋ := by
    refine Int.le_floor.mpr ?_
    push_cast
    exact hbounds.1.le
  have hhigh : ⌊x⌋ < n := Int.floor_lt.mpr hbounds.2
  rw [abs_le]
  rcases roundEven_cases x with hx | hx
  · rw [hx]
    omega
  · rw [hx]
    omega

/-- Both directions are rounded alike. -/
theorem roundEven_neg (x : ℚ) : roundEven (-x) = -roundEven x := by
  by_cases hint : Int.fract x = 0
  · obtain ⟨n, rfl⟩ := Int.fract_eq_zero_iff.mp hint
    rw [← Int.cast_neg, roundEven_int, roundEven_int]
  · have hfract : Int.fract (-x) = 1 - Int.fract x := Int.fract_neg hint
    have hfloor : ⌊-x⌋ = -⌊x⌋ - 1 := by
      have hcast : ((⌊-x⌋ : ℤ) : ℚ) = ((-⌊x⌋ - 1 : ℤ) : ℚ) := by
        have hneg := Int.self_sub_floor (-x)
        have hpos := Int.self_sub_floor x
        push_cast
        linarith
      exact_mod_cast hcast
    unfold roundEven
    rw [hfract, hfloor]
    rcases lt_trichotomy (Int.fract x) (1 / 2) with h | h | h
    · rw [if_neg (by linarith), if_pos (by linarith), if_pos h]
      omega
    · have hhalf : (1 : ℚ) - 1 / 2 = 1 / 2 := by norm_num
      rw [h, hhalf]
      simp only [lt_irrefl, if_false]
      by_cases heven : ⌊x⌋ % 2 = 0
      · rw [if_neg (by omega), if_pos heven]
        omega
      · rw [if_pos (by omega), if_neg heven]
        omega
    · rw [if_pos (by linarith), if_neg (by linarith), if_pos h]
      omega

/-! ## Rounding to numbers with 53 bits -/

theorem two_zpow_pos (e : ℤ) : (0 : ℚ) < 2 ^ e := zpow_pos two_pos e

theorem abs_div_lastBit (q : ℚ) : |q / 2 ^ lastBit q| < 2 ^ 53 := by
  have hpos := two_zpow_pos (lastBit q)
  rw [abs_div, abs_of_pos hpos, div_lt_iff₀ hpos]
  have hlog : |q| < 2 ^ (Int.log 2 |q| + 1) := Int.lt_zpow_succ_log_self (by decide) _
  have hexp : Int.log 2 |q| + 1 ≤ 53 + lastBit q := by
    have hmax := le_max_left (Int.log 2 |q| - 52) (-1074)
    show _ ≤ 53 + max (Int.log 2 |q| - 52) (-1074)
    omega
  calc |q| < 2 ^ (Int.log 2 |q| + 1) := hlog
    _ ≤ 2 ^ (53 + lastBit q) := zpow_le_zpow_right₀ (by norm_num) hexp
    _ = 2 ^ 53 * 2 ^ lastBit q := by
      rw [zpow_add₀ (by norm_num)]
      norm_num

theorem lastBit_ge (q : ℚ) : -1074 ≤ lastBit q := le_max_right _ _

/-- Bits below the last one are zero in a representable number. -/
theorem Representable.exists_int (h : Representable q) : ∃ n : ℤ, q / 2 ^ lastBit q = n := by
  obtain ⟨m, e, hq, hm, he, -⟩ := h
  by_cases hzero : m = 0
  · exact ⟨0, by rw [hq, hzero]; norm_num⟩
  · have hle : lastBit q ≤ e := by
      have habs : |q| = |m| * 2 ^ e := by
        rw [hq, abs_mul, abs_of_pos (two_zpow_pos e), Int.cast_abs]
      have hpos : 0 < |q| := by
        have hmpos : (0 : ℚ) < |m| := by exact_mod_cast abs_pos.mpr hzero
        rw [habs]
        exact mul_pos (by simpa using hmpos) (two_zpow_pos e)
      have hlt : |q| < 2 ^ (53 + e) := by
        have hm' : ((|m| : ℤ) : ℚ) < 2 ^ 53 := by exact_mod_cast hm
        rw [habs, zpow_add₀ (by norm_num)]
        exact mul_lt_mul_of_pos_right (by simpa using hm') (two_zpow_pos e)
      have hlog : Int.log 2 |q| < 53 + e := (Int.lt_zpow_iff_log_lt (by decide) hpos).mp hlt
      show max _ _ ≤ e
      omega
    refine ⟨m * 2 ^ (e - lastBit q).toNat, ?_⟩
    have hnat : ((e - lastBit q).toNat : ℤ) = e - lastBit q := Int.toNat_of_nonneg (by omega)
    push_cast
    rw [← zpow_natCast, hnat, zpow_sub₀ (by norm_num), hq]
    ring

theorem ofRat_of_representable (h : Representable q) : ofRat q = .finite q := by
  obtain ⟨n, hn⟩ := h.exists_int
  obtain ⟨-, -, -, -, -, hlt⟩ := h
  have hround : (roundEven (q / 2 ^ lastBit q) : ℚ) * 2 ^ lastBit q = q := by
    rw [hn, roundEven_int, ← hn, div_mul_cancel₀ _ (two_zpow_pos _).ne']
  simp only [ofRat, hround, if_pos hlt]

/-- What a number is rounded to is representable. -/
theorem representable_of_ofRat (h : ofRat q = .finite r) : Representable r := by
  simp only [ofRat] at h
  split at h
  · next hlt =>
      obtain rfl := Number.finite.inj h
      have hm := abs_roundEven_le (x := q / 2 ^ lastBit q) (n := 2 ^ 53)
        (by exact_mod_cast abs_div_lastBit q)
      by_cases htop : |roundEven (q / 2 ^ lastBit q)| = 2 ^ 53
      · -- one bit more: half of it has the next exponent
        have hge := lastBit_ge q
        have hhalf : ∀ k : ℤ, ((2 * k : ℤ) : ℚ) * 2 ^ lastBit q = k * 2 ^ (lastBit q + 1) := by
          intro k
          rw [zpow_add_one₀ (by norm_num)]
          push_cast
          ring
        rcases abs_eq (by norm_num) |>.mp htop with hround | hround
        · refine ⟨2 ^ 52, lastBit q + 1, ?_, by norm_num, by omega, hlt⟩
          rw [hround, ← hhalf]
          norm_num
        · refine ⟨-2 ^ 52, lastBit q + 1, ?_, by norm_num, by omega, hlt⟩
          rw [hround, ← hhalf]
          norm_num
      · exact ⟨_, _, rfl, lt_of_le_of_ne hm htop, lastBit_ge q, hlt⟩
  · cases h

theorem ofRat_neg (h : ofRat q = .finite r) : ofRat (-q) = .finite (-r) := by
  have hbit : lastBit (-q) = lastBit q := by rw [lastBit, abs_neg, lastBit]
  simp only [ofRat] at h ⊢
  rw [hbit, neg_div, roundEven_neg, Int.cast_neg, neg_mul, abs_neg]
  split at h
  · next hlt =>
      rw [if_pos hlt, Number.finite.inj h]
  · cases h

/-- An integer is rounded to an integer. -/
theorem ofRat_int {n : ℤ} (h : ofRat n = .finite r) : ∃ k : ℤ, r = k := by
  simp only [ofRat] at h
  split at h
  · obtain rfl := Number.finite.inj h
    by_cases hexp : 0 ≤ lastBit (n : ℚ)
    · refine ⟨roundEven ((n : ℚ) / 2 ^ lastBit (n : ℚ)) * 2 ^ (lastBit (n : ℚ)).toNat, ?_⟩
      have hnat := Int.toNat_of_nonneg hexp
      push_cast
      rw [← zpow_natCast, hnat]
    · have hscaled : (n : ℚ) / 2 ^ lastBit (n : ℚ) =
          ((n * 2 ^ (-lastBit (n : ℚ)).toNat : ℤ) : ℚ) := by
        have hnat : ((-lastBit (n : ℚ)).toNat : ℤ) = -lastBit (n : ℚ) :=
          Int.toNat_of_nonneg (by omega)
        push_cast
        rw [← zpow_natCast, hnat, zpow_neg, div_eq_mul_inv]
      refine ⟨n, ?_⟩
      rw [hscaled, roundEven_int, ← hscaled, div_mul_cancel₀ _ (two_zpow_pos _).ne']
  · cases h

/-- A positive integer is not rounded far away. -/
theorem ofRat_near {n : ℕ} (hpos : 0 < n) (h : ofRat n = .finite r) :
    (n : ℚ) / 2 ≤ r ∧ r ≤ 2 * n := by
  have hlog : Int.log 2 (n : ℚ) = Nat.log 2 n := Int.log_natCast 2 n
  have hn : (0 : ℚ) < n := by exact_mod_cast hpos
  have hbit : (2 : ℚ) ^ lastBit (n : ℚ) ≤ n / 2 := by
    have hexp : lastBit (n : ℚ) ≤ (Nat.log 2 n : ℤ) - 1 := by
      show max (Int.log 2 |(n : ℚ)| - 52) (-1074) ≤ _
      rw [abs_of_pos hn, hlog]
      omega
    have hpow : (2 : ℚ) ^ (Nat.log 2 n : ℤ) ≤ n := by
      rw [zpow_natCast]
      exact_mod_cast Nat.pow_log_le_self 2 hpos.ne'
    calc (2 : ℚ) ^ lastBit (n : ℚ) ≤ 2 ^ ((Nat.log 2 n : ℤ) - 1) :=
          zpow_le_zpow_right₀ (by norm_num) hexp
      _ = 2 ^ (Nat.log 2 n : ℤ) / 2 := by rw [zpow_sub_one₀ (by norm_num), div_eq_mul_inv]
      _ ≤ n / 2 := by linarith
  simp only [ofRat] at h
  split at h
  · obtain rfl := Number.finite.inj h
    have hunit := two_zpow_pos (lastBit (n : ℚ))
    have hnear := abs_roundEven_sub ((n : ℚ) / 2 ^ lastBit (n : ℚ))
    have hscaled : |(roundEven ((n : ℚ) / 2 ^ lastBit (n : ℚ)) : ℚ) * 2 ^ lastBit (n : ℚ) - n| ≤
        2 ^ lastBit (n : ℚ) := by
      have hsub : (roundEven ((n : ℚ) / 2 ^ lastBit (n : ℚ)) : ℚ) * 2 ^ lastBit (n : ℚ) - n =
          (roundEven ((n : ℚ) / 2 ^ lastBit (n : ℚ)) - n / 2 ^ lastBit (n : ℚ)) *
            2 ^ lastBit (n : ℚ) := by
        rw [sub_mul, div_mul_cancel₀ _ hunit.ne']
      rw [hsub, abs_mul, abs_of_pos hunit]
      exact mul_le_of_le_one_left hunit.le hnear
    have hbounds := abs_le.mp hscaled
    constructor <;> linarith
  · cases h

end Doubles
