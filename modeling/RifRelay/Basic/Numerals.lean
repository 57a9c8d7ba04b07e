import Mathlib.Data.Nat.Digits.Lemmas
import RifRelay.Basic.Doubles
import RifRelay.Basic.Hex

set_option autoImplicit false

/-! # Texts of numbers

How JavaScript reads and writes numbers: `parseInt` reads the integer at the start of a text and
leaves the rest, `Number.text` is the shortest decimal numeral of a number. `readNumeral` reads a
whole text: blanks, a sign, and a decimal or hexadecimal numeral.

* `value_eq_integer` — when the integer at its start is all that a numeral says;
* `parseInt_text` — an integer below `10 ^ 21` is read from its own text;
* `parseInt_text_large` — a larger one is not.
-/

namespace RifRelay

open Doubles

namespace Numerals

/-- White space and line ends. -/
def isSpace (c : Char) : Bool :=
  decide (c.toNat ∈ [9, 10, 11, 12, 13, 32, 160, 5760, 8232, 8233, 8239, 8287, 12288, 65279]) ||
    decide (8192 ≤ c.toNat ∧ c.toNat ≤ 8202)

def isDigit (radix : ℕ) (c : Char) : Bool := (Hex.value c).any fun n => decide (n < radix)

def ofDigits (radix : ℕ) (t : Text) : ℕ :=
  t.foldl (fun n c => radix * n + (Hex.value c).getD 0) 0

def readSign : Text → Bool × Text
  | '-' :: t => (true, t)
  | '+' :: t => (false, t)
  | t => (false, t)

def readRadix : Text → ℕ × Text
  | '0' :: 'x' :: t => (16, t)
  | '0' :: 'X' :: t => (16, t)
  | t => (10, t)

def signed (negative : Bool) (q : ℚ) : ℚ := if negative then -q else q

/-! ## The integer at the start of a text -/

structure LeadingInteger where
  negative : Bool
  radix : ℕ
  digits : Text
  rest : Text

def leadingInteger (t : Text) : LeadingInteger :=
  let s := readSign (t.dropWhile isSpace)
  let r := readRadix s.2
  ⟨s.1, r.1, r.2.takeWhile (isDigit r.1), r.2.dropWhile (isDigit r.1)⟩

def LeadingInteger.value (l : LeadingInteger) : ℚ := signed l.negative (ofDigits l.radix l.digits)

/-- `none` is `NaN`. -/
def parseInt (t : Text) : Option Number :=
  let l := leadingInteger t
  if l.digits = [] then none else some (ofRat l.value)

/-! ## Numerals -/

structure Numeral where
  negative : Bool
  integer : ℕ
  fraction : Text
  exponent : ℤ
  fraction_digits : fraction.all (isDigit 10) = true

def Numeral.value (m : Numeral) : ℚ :=
  signed m.negative
    ((m.integer + ofDigits 10 m.fraction / 10 ^ m.fraction.length) * 10 ^ m.exponent)

def readFraction : Text → Text × Text
  | '.' :: t => (t.takeWhile (isDigit 10), t.dropWhile (isDigit 10))
  | t => ([], t)

theorem readFraction_digits (t : Text) : (readFraction t).1.all (isDigit 10) = true := by
  unfold readFraction
  split
  · exact List.all_takeWhile
  · rfl

def exponentOf (t rest : Text) : ℤ × Text :=
  let s := readSign t
  let digits := s.2.takeWhile (isDigit 10)
  if digits = [] then (0, rest)
  else (if s.1 then -ofDigits 10 digits else ofDigits 10 digits, s.2.dropWhile (isDigit 10))

def readExponent : Text → ℤ × Text
  | 'e' :: t => exponentOf t ('e' :: t)
  | 'E' :: t => exponentOf t ('E' :: t)
  | t => (0, t)

def readNumeral (t : Text) : Option Numeral :=
  let l := leadingInteger t
  if l.radix = 16 then
    if l.digits = [] ∨ l.rest.all isSpace = false then none
    else some ⟨l.negative, ofDigits 16 l.digits, [], 0, rfl⟩
  else
    let f := readFraction l.rest
    let e := readExponent f.2
    if (l.digits = [] ∧ f.1 = []) ∨ e.2.all isSpace = false then none
    else some ⟨l.negative, ofDigits 10 l.digits, f.1, e.1, readFraction_digits l.rest⟩

/-- The fraction is zero, and so is the exponent, unless the number is zero. -/
def Numeral.Plain (m : Numeral) : Prop :=
  ofDigits 10 m.fraction = 0 ∧ (m.exponent = 0 ∨ m.integer = 0)

/-! ## The text of a number -/

def decimal (n : ℕ) : Text :=
  if n = 0 then ['0'] else ((Nat.digits 10 n).reverse).map Hex.digit

/-- The nearest number of `k` digits, `10 ^ (n - k)` each, among those that are rounded to `x`. -/
def candidate (x : ℚ) (n : ℤ) (k : ℕ) : Option ℕ :=
  let unit : ℚ := 10 ^ (n - k)
  let s := ⌊x / unit⌋₊
  let low := decide (ofRat (s * unit) = .finite x)
  let high := decide (ofRat ((s + 1 : ℕ) * unit) = .finite x)
  if low && (!high || decide (x / unit - s ≤ s + 1 - x / unit)) then some s
  else if high then some (s + 1)
  else none

/-- The digits `s`, their number `k` and the position `n` of the point. -/
structure Shortest where
  s : ℕ
  k : ℕ
  n : ℤ

def shortest (x : ℚ) : Shortest :=
  let n := Int.log 10 x + 1
  let found := (List.range 21).findSome? fun i => (candidate x n (i + 1)).map fun s => (s, i + 1)
  let d := found.getD (⌊x⌋₊, 1)
  if d.1 = 10 ^ d.2 then ⟨1, 1, n + 1⟩ else ⟨d.1, d.2, n⟩

def exponentText (n : ℤ) : Text :=
  'e' :: (if 0 < n then '+' else '-') :: decimal (n - 1).natAbs

def positiveText (x : ℚ) : Text :=
  let d := shortest x
  if d.k ≤ d.n ∧ d.n ≤ 21 then decimal d.s ++ List.replicate (d.n - d.k).toNat '0'
  else if 0 < d.n ∧ d.n ≤ 21 then
    (decimal d.s).take d.n.toNat ++ '.' :: (decimal d.s).drop d.n.toNat
  else if -6 < d.n ∧ d.n ≤ 0 then
    '0' :: '.' :: (List.replicate (-d.n).toNat '0' ++ decimal d.s)
  else
    match decimal d.s with
    | c :: c' :: rest => c :: '.' :: c' :: (rest ++ exponentText d.n)
    | digits => digits ++ exponentText d.n

def numberText : Number → Text
  | .finite q =>
      if q = 0 then ['0'] else if q < 0 then '-' :: positiveText (-q) else positiveText q
  | .infinite negative => if negative then "-Infinity".toList else "Infinity".toList

/-! ## Digits -/

variable {l t : Text} {m n : ℕ} {c : Char} {x : ℚ}

theorem foldl_digits (radix a : ℕ) (t : Text) :
    t.foldl (fun n c => radix * n + (Hex.value c).getD 0) a =
      a * radix ^ t.length + ofDigits radix t := by
  induction t generalizing a with
  | nil => simp [ofDigits]
  | cons c t ih =>
      have hone : ofDigits radix (c :: t) =
          (radix * 0 + (Hex.value c).getD 0) * radix ^ t.length + ofDigits radix t := ih _
      rw [List.foldl_cons, ih, hone, List.length_cons]
      ring

theorem ofDigits_cons (radix : ℕ) (c : Char) (t : Text) :
    ofDigits radix (c :: t) = (Hex.value c).getD 0 * radix ^ t.length + ofDigits radix t := by
  rw [ofDigits, List.foldl_cons, foldl_digits]
  ring

theorem ofDigits_append (radix : ℕ) (l t : Text) :
    ofDigits radix (l ++ t) = ofDigits radix l * radix ^ t.length + ofDigits radix t := by
  rw [ofDigits, List.foldl_append, foldl_digits, ← ofDigits]

theorem ofDigits_zeros (radix k : ℕ) : ofDigits radix (List.replicate k '0') = 0 := by
  induction k with
  | zero => rfl
  | succ k ih =>
      have hzero : (Hex.value '0').getD 0 = 0 := by decide
      rw [List.replicate_succ, ofDigits_cons, ih, hzero, zero_mul]

theorem value_lt_of_isDigit {radix : ℕ} (h : isDigit radix c = true) :
    (Hex.value c).getD 0 < radix := by
  unfold isDigit at h
  cases hc : Hex.value c with
  | none =>
      rw [hc] at h
      cases h
  | some d =>
      rw [hc] at h
      exact of_decide_eq_true h

theorem ofDigits_lt (h : t.all (isDigit 10) = true) : ofDigits 10 t < 10 ^ t.length := by
  induction t with
  | nil => exact Nat.one_pos
  | cons c t ih =>
      rw [List.all_cons, Bool.and_eq_true] at h
      have hc := value_lt_of_isDigit h.1
      have ht := ih h.2
      rw [ofDigits_cons, List.length_cons, Nat.pow_succ]
      have hmul := Nat.mul_le_mul_right (10 ^ t.length) (Nat.le_of_lt_succ hc)
      omega

theorem decimal_digits (n : ℕ) : ∀ c ∈ decimal n, isDigit 10 c = true := by
  intro c hc
  unfold decimal at hc
  split at hc
  · obtain rfl := List.mem_singleton.mp hc
    decide
  · obtain ⟨d, hd, rfl⟩ := List.mem_map.mp hc
    have hlt : d < 10 := Nat.digits_lt_base (by norm_num) (List.mem_reverse.mp hd)
    rw [isDigit, Hex.value_digit d (by omega)]
    exact decide_eq_true hlt

theorem decimal_ne_nil (n : ℕ) : decimal n ≠ [] := by
  unfold decimal
  split
  · exact List.cons_ne_nil _ _
  · next hn =>
      rw [Ne, List.map_eq_nil_iff, List.reverse_eq_nil_iff, Nat.digits_eq_nil_iff_eq_zero]
      exact hn

/-- The text of an integer says the integer. -/
theorem ofDigits_decimal (n : ℕ) : ofDigits 10 (decimal n) = n := by
  unfold decimal
  split
  · next hn => rw [hn]; rfl
  · have hfold : ∀ l : List ℕ, (∀ d ∈ l, d < 10) →
        ofDigits 10 (l.reverse.map Hex.digit) = Nat.ofDigits 10 l := by
      intro l hl
      induction l with
      | nil => rfl
      | cons d l ih =>
          have hd := hl d List.mem_cons_self
          have hrest := ih fun e he => hl e (List.mem_cons_of_mem d he)
          rw [List.reverse_cons, List.map_append, ofDigits_append, hrest, Nat.ofDigits_cons,
            List.map_singleton, ofDigits_cons, Hex.value_digit d (by omega)]
          simp [ofDigits]
          ring
    rw [hfold _ fun d hd => Nat.digits_lt_base (by norm_num) hd, Nat.ofDigits_digits]

/-! ## Reading digits -/

theorem code_of_isDigit (h : isDigit 10 c = true) : 48 ≤ c.toNat ∧ c.toNat ≤ 57 := by
  have hlt := value_lt_of_isDigit h
  unfold isDigit at h
  unfold Hex.value at h hlt
  split at h
  · next hc => exact ⟨hc.1, hc.2⟩
  · split at h
    · next hc =>
        have hcode : 97 ≤ c.toNat := hc.1
        simp only [Option.any_some, decide_eq_true_eq] at h
        omega
    · split at h
      · next hc =>
          have hcode : 65 ≤ c.toNat := hc.1
          simp only [Option.any_some, decide_eq_true_eq] at h
          omega
      · cases h

theorem not_space_of_isDigit (h : isDigit 10 c = true) : isSpace c = false := by
  have hcode := code_of_isDigit h
  simp only [isSpace, Bool.or_eq_false_iff, decide_eq_false_iff_not, List.mem_cons,
    List.not_mem_nil, or_false]
  omega

theorem ne_of_isDigit {d : Char} (h : isDigit 10 c = true) (hd : isDigit 10 d = false) :
    c ≠ d := by
  rintro rfl
  rw [h] at hd
  cases hd

theorem readSign_digit (h : isDigit 10 c = true) (t : Text) :
    readSign (c :: t) = (false, c :: t) := by
  have hminus : c ≠ '-' := ne_of_isDigit h (by decide)
  have hplus : c ≠ '+' := ne_of_isDigit h (by decide)
  unfold readSign
  split
  · next heq => exact absurd (List.cons.inj heq).1 hminus
  · next heq => exact absurd (List.cons.inj heq).1 hplus
  · rfl

/-- Where a text does not start with a radix. -/
theorem readRadix_of_second (h : ∀ d, t.head? = some d → d ≠ 'x' ∧ d ≠ 'X') (c : Char) :
    readRadix (c :: t) = (10, c :: t) := by
  unfold readRadix
  split
  · next heq =>
      have htail := (List.cons.inj heq).2
      exact absurd rfl (h 'x' (by rw [htail]; rfl)).1
  · next heq =>
      have htail := (List.cons.inj heq).2
      exact absurd rfl (h 'X' (by rw [htail]; rfl)).2
  · rfl

/-- A text of a number: perhaps a minus, digits, and what does not belong to the integer. -/
def minus (negative : Bool) (t : Text) : Text := if negative then '-' :: t else t

/-- The integer at the start of a text of digits. -/
theorem leadingInteger_digits (negative : Bool) (hne : l ≠ []) (hl : ∀ c ∈ l, isDigit 10 c = true)
    (ht : ∀ c, t.head? = some c → isDigit 10 c = false ∧ c ≠ 'x' ∧ c ≠ 'X') :
    leadingInteger (minus negative (l ++ t)) = ⟨negative, 10, l, t⟩ := by
  have htake : (l ++ t).takeWhile (isDigit 10) = l ∧ (l ++ t).dropWhile (isDigit 10) = t := by
    rw [List.takeWhile_append_of_pos hl, List.dropWhile_append_of_pos hl]
    cases t with
    | nil => exact ⟨List.append_nil l, rfl⟩
    | cons d t =>
        have hd := (ht d rfl).1
        rw [List.takeWhile_cons_of_neg (by rw [hd]; exact Bool.false_ne_true),
          List.dropWhile_cons_of_neg (by rw [hd]; exact Bool.false_ne_true)]
        exact ⟨List.append_nil l, rfl⟩
  obtain ⟨c, l, rfl⟩ := List.exists_cons_of_ne_nil hne
  have hc := hl c List.mem_cons_self
  have hsecond : ∀ d, (l ++ t).head? = some d → d ≠ 'x' ∧ d ≠ 'X' := by
    intro d hd
    cases l with
    | nil => exact (ht d hd).2
    | cons e l =>
        obtain rfl : e = d := Option.some.inj hd
        have he := hl e (List.mem_cons_of_mem _ List.mem_cons_self)
        exact ⟨ne_of_isDigit he (by decide), ne_of_isDigit he (by decide)⟩
  have hsign : readSign ((minus negative ((c :: l) ++ t)).dropWhile isSpace) =
      (negative, (c :: l) ++ t) := by
    cases negative with
    | false =>
        have hspace : ((c :: l) ++ t).dropWhile isSpace = (c :: l) ++ t :=
          List.dropWhile_cons_of_neg (by rw [not_space_of_isDigit hc]; exact Bool.false_ne_true)
        show readSign (((c :: l) ++ t).dropWhile isSpace) = _
        rw [hspace]
        exact readSign_digit hc _
    | true =>
        show readSign (('-' :: ((c :: l) ++ t)).dropWhile isSpace) = _
        rw [List.dropWhile_cons_of_neg (by decide)]
        rfl
  rw [leadingInteger, hsign, List.cons_append, readRadix_of_second hsecond, ← List.cons_append,
    htake.1, htake.2]

theorem parseInt_digits (negative : Bool) (hne : l ≠ []) (hl : ∀ c ∈ l, isDigit 10 c = true)
    (ht : ∀ c, t.head? = some c → isDigit 10 c = false ∧ c ≠ 'x' ∧ c ≠ 'X') :
    parseInt (minus negative (l ++ t)) = some (ofRat (signed negative (ofDigits 10 l))) := by
  rw [parseInt, leadingInteger_digits negative hne hl ht, if_neg hne]
  rfl

/-- `parseInt` reads integers. -/
theorem parseInt_int {r : ℚ} (h : parseInt t = some (.finite r)) : ∃ k : ℤ, r = k := by
  have hvalue : ∃ n : ℤ, (leadingInteger t).value = n := by
    unfold LeadingInteger.value signed
    split
    · exact ⟨-ofDigits _ _, by push_cast; rfl⟩
    · exact ⟨ofDigits _ _, by push_cast; rfl⟩
  obtain ⟨n, hn⟩ := hvalue
  simp only [parseInt] at h
  split at h
  · cases h
  · rw [hn] at h
    exact ofRat_int (Option.some.inj h)

/-! ## What a numeral says beyond the integer at its start -/

theorem signed_inj {negative : Bool} {q r : ℚ} : signed negative q = signed negative r ↔ q = r := by
  unfold signed
  split
  · exact neg_inj
  · exact Iff.rfl

/-- A scaled number with a fraction is its integer. -/
theorem scaled_eq_iff {f : ℚ} {e : ℤ} (hnonneg : 0 ≤ f) (hlt : f < 1) :
    ((n : ℚ) + f) * 10 ^ e = n ↔ f = 0 ∧ (e = 0 ∨ n = 0) := by
  constructor
  · intro h
    rcases lt_trichotomy e 0 with he | rfl | he
    · -- the integer alone is at least ten times as large
      have hscaled : (n : ℚ) + f = n * 10 ^ (-e) := by
        calc (n : ℚ) + f = (n + f) * 10 ^ e * 10 ^ (-e) := by
              rw [mul_assoc, ← zpow_add₀ (by norm_num), add_neg_cancel, zpow_zero, mul_one]
          _ = n * 10 ^ (-e) := by rw [h]
      have hten : (10 : ℚ) ^ (1 : ℤ) ≤ 10 ^ (-e) := zpow_le_zpow_right₀ (by norm_num) (by omega)
      have hmul : (n : ℚ) * 10 ≤ n + f := by
        rw [hscaled]
        exact mul_le_mul_of_nonneg_left (by simpa using hten) (Nat.cast_nonneg n)
      have hn : n = 0 := by
        by_contra hne
        have hone : (1 : ℚ) ≤ n := by exact_mod_cast Nat.one_le_iff_ne_zero.mpr hne
        linarith
      rw [hn, Nat.cast_zero, zero_add, zero_mul] at hscaled
      exact ⟨hscaled, .inr hn⟩
    · rw [zpow_zero, mul_one, add_eq_left] at h
      exact ⟨h, .inl rfl⟩
    · have hten : (10 : ℚ) ^ (1 : ℤ) ≤ 10 ^ e := zpow_le_zpow_right₀ (by norm_num) (by omega)
      have hmul : ((n : ℚ) + f) * 10 ≤ n := by
        calc ((n : ℚ) + f) * 10 ≤ (n + f) * 10 ^ e :=
              mul_le_mul_of_nonneg_left (by simpa using hten) (by positivity)
          _ = n := h
      have hn : n = 0 := by
        by_contra hne
        have hone : (1 : ℚ) ≤ n := by exact_mod_cast Nat.one_le_iff_ne_zero.mpr hne
        linarith
      rw [hn, Nat.cast_zero] at hmul
      exact ⟨by linarith, .inr hn⟩
  · rintro ⟨rfl, rfl | rfl⟩
    · rw [zpow_zero, mul_one, add_zero]
    · rw [Nat.cast_zero, add_zero, zero_mul]

/-- **When a numeral says no more than the integer at its start.** -/
theorem value_eq_integer (m : Numeral) : m.value = signed m.negative m.integer ↔ m.Plain := by
  rw [Numeral.value, signed_inj, Numeral.Plain]
  have hpow : (0 : ℚ) < 10 ^ m.fraction.length := by positivity
  have hlt : (ofDigits 10 m.fraction : ℚ) / 10 ^ m.fraction.length < 1 := by
    rw [div_lt_one hpow]
    exact_mod_cast ofDigits_lt m.fraction_digits
  have hnonneg : (0 : ℚ) ≤ ofDigits 10 m.fraction / 10 ^ m.fraction.length := by positivity
  have hzero : (ofDigits 10 m.fraction : ℚ) / 10 ^ m.fraction.length = 0 ↔
      ofDigits 10 m.fraction = 0 := by
    rw [div_eq_zero_iff, or_iff_left hpow.ne', Nat.cast_eq_zero]
  rw [scaled_eq_iff hnonneg hlt, hzero]

theorem signed_signed (negative : Bool) (q : ℚ) : signed negative (signed negative q) = q := by
  cases negative with
  | false => rfl
  | true => exact neg_neg q

theorem ofRat_signed {q r : ℚ} (negative : Bool) (h : ofRat q = .finite r) :
    ofRat (signed negative q) = .finite (signed negative r) := by
  cases negative with
  | false => exact h
  | true => exact ofRat_neg h

/-- A numeral that says what its integer is rounded to says its integer: scaled by ten it would be
further away. -/
theorem scaled_eq_rounded {f r : ℚ} {e : ℤ} (hnonneg : 0 ≤ f) (hlt : f < 1)
    (h : ofRat n = .finite r) (hvalue : ((n : ℚ) + f) * 10 ^ e = r) : r = n := by
  obtain ⟨k, hk⟩ : ∃ k : ℤ, r = k := ofRat_int (n := n) (by exact_mod_cast h)
  by_cases hzero : n = 0
  · have hrep : Representable ((0 : ℕ) : ℚ) := ⟨0, 0, by norm_num, by norm_num, by norm_num, by
      rw [Nat.cast_zero, abs_zero]
      positivity⟩
    rw [hzero] at h ⊢
    exact (Number.finite.inj ((ofRat_of_representable hrep).symm.trans h)).symm
  · have hone : (1 : ℚ) ≤ n := by exact_mod_cast Nat.one_le_iff_ne_zero.mpr hzero
    obtain ⟨hlow, hhigh⟩ := ofRat_near (Nat.pos_of_ne_zero hzero) h
    rcases lt_trichotomy e 0 with he | rfl | he
    · exfalso
      have hten : (10 : ℚ) ^ e ≤ 10 ^ (-1 : ℤ) := zpow_le_zpow_right₀ (by norm_num) (by omega)
      have hsmall : r ≤ (n + f) / 10 := by
        calc r = (n + f) * 10 ^ e := hvalue.symm
          _ ≤ (n + f) * 10 ^ (-1 : ℤ) := mul_le_mul_of_nonneg_left hten (by positivity)
          _ = (n + f) / 10 := by norm_num [div_eq_mul_inv]
      linarith
    · rw [zpow_zero, mul_one, hk] at hvalue
      have hcast : ((k - n : ℤ) : ℚ) = f := by
        push_cast
        linarith
      have hbelow : k - n < 1 := by
        rw [← hcast] at hlt
        exact_mod_cast hlt
      have habove : 0 ≤ k - n := by
        rw [← hcast] at hnonneg
        exact_mod_cast hnonneg
      rw [hk]
      have heq : k = n := by omega
      exact_mod_cast heq
    · exfalso
      have hten : (10 : ℚ) ^ (1 : ℤ) ≤ 10 ^ e := zpow_le_zpow_right₀ (by norm_num) (by omega)
      have hlarge : (n + f) * 10 ≤ r := by
        calc ((n : ℚ) + f) * 10 ≤ (n + f) * 10 ^ e :=
              mul_le_mul_of_nonneg_left (by simpa using hten) (by positivity)
          _ = r := hvalue
      linarith

/-- **When the integer of a numeral is rounded to what the numeral says.** -/
theorem rounded_value_iff (m : Numeral) :
    ofRat (signed m.negative m.integer) = .finite m.value ↔
      m.Plain ∧ Representable m.integer := by
  constructor
  · intro h
    have hround := ofRat_signed m.negative h
    have hmagnitude : signed m.negative m.value = (m.integer +
        ofDigits 10 m.fraction / 10 ^ m.fraction.length) * 10 ^ m.exponent :=
      signed_signed _ _
    rw [signed_signed, hmagnitude] at hround
    have hpow : (0 : ℚ) < 10 ^ m.fraction.length := by positivity
    have hlt : (ofDigits 10 m.fraction : ℚ) / 10 ^ m.fraction.length < 1 := by
      rw [div_lt_one hpow]
      exact_mod_cast ofDigits_lt m.fraction_digits
    have heq := scaled_eq_rounded (by positivity) hlt hround rfl
    refine ⟨(value_eq_integer m).mp ?_, representable_of_ofRat (heq ▸ hround)⟩
    rw [Numeral.value, heq]
  · rintro ⟨hplain, hrep⟩
    rw [(value_eq_integer m).mpr hplain]
    exact ofRat_signed m.negative (ofRat_of_representable hrep)

/-- A numeral starts with its integer. -/
theorem readNumeral_leading {k : Numeral} (h : readNumeral t = some k) :
    (leadingInteger t).value = signed k.negative k.integer := by
  simp only [readNumeral] at h
  split at h
  · next hradix =>
      split at h
      · cases h
      · obtain rfl := Option.some.inj h
        rw [LeadingInteger.value, hradix]
  · next hradix =>
      have hten : (leadingInteger t).radix = 10 := by
        have hcases : ∀ u : Text, (readRadix u).1 = 16 ∨ (readRadix u).1 = 10 := by
          intro u
          unfold readRadix
          split
          · exact .inl rfl
          · exact .inl rfl
          · exact .inr rfl
        exact (hcases _).resolve_left hradix
      split at h
      · cases h
      · obtain rfl := Option.some.inj h
        rw [LeadingInteger.value, hten]

/-! ## Reading the text of an integer -/

theorem representable_ten_pow : ∀ n ≤ 21, Representable (10 ^ n) := by
  intro n hn
  refine ⟨5 ^ n, n, ?_, ?_, by omega, ?_⟩
  · rw [zpow_natCast]
    push_cast
    rw [← mul_pow]
    norm_num
  · calc |(5 : ℤ) ^ n| = 5 ^ n := abs_of_pos (by positivity)
      _ ≤ 5 ^ 21 := pow_le_pow_right₀ (by norm_num) hn
      _ < 2 ^ 53 := by norm_num
  · calc |(10 : ℚ) ^ n| = 10 ^ n := abs_of_pos (by positivity)
      _ ≤ 10 ^ 21 := pow_le_pow_right₀ (by norm_num) hn
      _ < 2 ^ 70 := by norm_num
      _ ≤ 2 ^ 1024 := pow_le_pow_right₀ (by norm_num) (by norm_num)

/-- The digits that are found are rounded to the number. -/
theorem candidate_spec {n : ℤ} {k s : ℕ} (h : candidate x n k = some s) :
    ofRat (s * 10 ^ (n - k)) = .finite x := by
  simp only [candidate] at h
  split at h
  · next hlow =>
      obtain rfl := Option.some.inj h
      rw [Bool.and_eq_true] at hlow
      exact of_decide_eq_true hlow.1
  · split at h
    · next hhigh =>
        obtain rfl := Option.some.inj h
        exact of_decide_eq_true hhigh
    · cases h

/-- The digits of an integer are some of those that are tried. -/
theorem candidate_int (hx : Representable (n : ℚ)) : (candidate (n : ℚ) m m).isSome = true := by
  have hunit : (10 : ℚ) ^ ((m : ℤ) - m) = 1 := by rw [sub_self, zpow_zero]
  have hlow : ofRat (n * 1) = .finite (n : ℚ) := by
    rw [mul_one]
    exact ofRat_of_representable hx
  simp only [candidate, hunit, div_one, Nat.floor_natCast, hlow, decide_true, Bool.true_and]
  split
  · rfl
  · next hfalse =>
      exfalso
      apply hfalse
      rw [Bool.or_eq_true]
      right
      exact decide_eq_true (by linarith)

/-- A search ends no later than at an index where there is something. -/
theorem findSome_range {β : Type} {f : ℕ → Option β} {i : ℕ} (hi : i < n)
    (h : (f i).isSome = true) :
    ∃ j ≤ i, ∃ b, f j = some b ∧ (List.range n).findSome? f = some b := by
  induction n with
  | zero => exact (Nat.not_lt_zero i hi).elim
  | succ n ih =>
      rw [List.range_succ, List.findSome?_append]
      by_cases hlt : i < n
      · obtain ⟨j, hj, b, hb, hfound⟩ := ih hlt
        rw [hfound]
        exact ⟨j, hj, b, hb, rfl⟩
      · obtain rfl : i = n := by omega
        cases hfound : (List.range i).findSome? f with
        | none =>
            obtain ⟨b, hb⟩ := Option.isSome_iff_exists.mp h
            refine ⟨i, le_rfl, b, hb, ?_⟩
            rw [List.findSome?_singleton, hb]
            rfl
        | some b =>
            obtain ⟨j, hj, hb⟩ := List.exists_of_findSome?_eq_some hfound
            exact ⟨j, (List.mem_range.mp hj).le, b, hb, rfl⟩

theorem shortest_int (hpos : 0 < n) (hrep : Representable (n : ℚ)) (hlt : n < 10 ^ 21) :
    ∃ s k, k ≤ Nat.log 10 n + 1 ∧ shortest (n : ℚ) = ⟨s, k, Nat.log 10 n + 1⟩ ∧
      ofRat (s * 10 ^ (((Nat.log 10 n + 1 : ℕ) : ℤ) - k)) = .finite n := by
  have hlog : Nat.log 10 n < 21 := Nat.log_lt_of_lt_pow hpos.ne' hlt
  have hsome := candidate_int (m := Nat.log 10 n + 1) hrep
  obtain ⟨j, hj, ⟨s, k⟩, hjs, hfound⟩ := findSome_range (n := 21) (i := Nat.log 10 n)
    (f := fun i => (candidate (n : ℚ) (Nat.log 10 n + 1 : ℕ) (i + 1)).map fun s => (s, i + 1))
    hlog (by rw [Option.isSome_map]; exact hsome)
  obtain ⟨s', hs', heq⟩ := Option.map_eq_some_iff.mp hjs
  obtain ⟨rfl, rfl⟩ := Prod.mk.inj heq
  have hspec := candidate_spec hs'
  refine ⟨s', j + 1, by omega, ?_, hspec⟩
  have hn : Int.log 10 (n : ℚ) + 1 = ((Nat.log 10 n + 1 : ℕ) : ℤ) := by
    rw [Int.log_natCast]
    push_cast
    rfl
  have hne : s' ≠ 10 ^ (j + 1) := by
    rintro rfl
    have hpow : (((10 ^ (j + 1) : ℕ) : ℚ)) * 10 ^ (((Nat.log 10 n + 1 : ℕ) : ℤ) - (j + 1 : ℕ)) =
        10 ^ (Nat.log 10 n + 1) := by
      rw [Nat.cast_pow, Nat.cast_ofNat, ← zpow_natCast, ← zpow_natCast, ← zpow_add₀ (by norm_num),
        add_sub_cancel]
    rw [hpow, ofRat_of_representable (representable_ten_pow _ hlog)] at hspec
    have heq : 10 ^ (Nat.log 10 n + 1) = n := by exact_mod_cast Number.finite.inj hspec
    have hlast : n < 10 ^ (Nat.log 10 n + 1) := Nat.lt_pow_succ_log_self (by norm_num) n
    omega
  simp only [shortest, hn, hfound, Option.getD_some, if_neg hne]
  push_cast
  rfl

/-- The text of an integer: digits that are rounded to the integer. -/
theorem positiveText_int (hpos : 0 < n) (hrep : Representable (n : ℚ)) (hlt : n < 10 ^ 21) :
    positiveText n ≠ [] ∧ (∀ c ∈ positiveText n, isDigit 10 c = true) ∧
      ofRat (ofDigits 10 (positiveText n)) = .finite n := by
  obtain ⟨s, k, hk, hshort, hround⟩ := shortest_int hpos hrep hlt
  have hlog : Nat.log 10 n < 21 := Nat.log_lt_of_lt_pow hpos.ne' hlt
  have htext : positiveText n = decimal s ++ List.replicate (Nat.log 10 n + 1 - k) '0' := by
    have hcond : (k : ℤ) ≤ Nat.log 10 n + 1 ∧ (Nat.log 10 n : ℤ) + 1 ≤ 21 := by omega
    have hzeros : ((Nat.log 10 n : ℤ) + 1 - k).toNat = Nat.log 10 n + 1 - k := by omega
    simp only [positiveText, hshort, hcond, and_self, if_true, hzeros]
  rw [htext]
  refine ⟨?_, ?_, ?_⟩
  · exact List.append_ne_nil_of_left_ne_nil (decimal_ne_nil s) _
  · intro c hc
    rcases List.mem_append.mp hc with hc | hc
    · exact decimal_digits s c hc
    · rw [(List.mem_replicate.mp hc).2]
      decide
  · have hscale : (10 : ℚ) ^ (((Nat.log 10 n + 1 : ℕ) : ℤ) - k) = 10 ^ (Nat.log 10 n + 1 - k) := by
      rw [← Nat.cast_sub hk, zpow_natCast]
    rw [hscale] at hround
    rw [ofDigits_append, ofDigits_decimal, List.length_replicate, ofDigits_zeros, add_zero]
    push_cast
    exact hround

/-- The text of a large number: one digit, and then no other. -/
theorem positiveText_large (h : 10 ^ 21 ≤ n) : ∃ c rest, positiveText n = [c] ++ rest ∧
    isDigit 10 c = true ∧
      ∀ d, rest.head? = some d → isDigit 10 d = false ∧ d ≠ 'x' ∧ d ≠ 'X' := by
  have hlog : 21 ≤ Nat.log 10 n :=
    Nat.le_log_of_pow_le (by norm_num) h
  have hn : 21 < (shortest (n : ℚ)).n := by
    have hint : Int.log 10 (n : ℚ) = Nat.log 10 n := Int.log_natCast 10 n
    simp only [shortest]
    split
    · show 21 < Int.log 10 (n : ℚ) + 1 + 1
      omega
    · show 21 < Int.log 10 (n : ℚ) + 1
      omega
  have hpoint : isDigit 10 '.' = false ∧ '.' ≠ 'x' ∧ '.' ≠ 'X' := by decide
  have hexponent : isDigit 10 'e' = false ∧ 'e' ≠ 'x' ∧ 'e' ≠ 'X' := by decide
  have hdigits := decimal_digits (shortest (n : ℚ)).s
  rw [positiveText, if_neg (by omega), if_neg (by omega), if_neg (by omega)]
  cases htext : decimal (shortest (n : ℚ)).s with
  | nil => exact absurd htext (decimal_ne_nil _)
  | cons c rest =>
      rw [htext] at hdigits
      have hc := hdigits c List.mem_cons_self
      cases rest with
      | nil =>
          refine ⟨c, exponentText (shortest (n : ℚ)).n, rfl, hc, fun d hd => ?_⟩
          obtain rfl : 'e' = d := Option.some.inj hd
          exact hexponent
      | cons c' rest =>
          refine ⟨c, '.' :: c' :: (rest ++ exponentText (shortest (n : ℚ)).n), rfl, hc,
            fun d hd => ?_⟩
          obtain rfl : '.' = d := Option.some.inj hd
          exact hpoint

theorem numberText_int {z : ℤ} (hz : z ≠ 0) :
    numberText (.finite z) = minus (decide (z < 0)) (positiveText z.natAbs) := by
  have hne : (z : ℚ) ≠ 0 := by exact_mod_cast hz
  rw [numberText, if_neg hne]
  by_cases hneg : z < 0
  · have hneg' : (z : ℚ) < 0 := by exact_mod_cast hneg
    have habs : -(z : ℚ) = z.natAbs := by
      rw [Nat.cast_natAbs, abs_of_neg hneg, Int.cast_neg]
    rw [if_pos hneg', habs, decide_eq_true hneg]
    rfl
  · have hneg' : ¬ (z : ℚ) < 0 := by exact_mod_cast hneg
    have habs : (z : ℚ) = z.natAbs := by
      rw [Nat.cast_natAbs, abs_of_nonneg (not_lt.mp hneg)]
    rw [if_neg hneg', decide_eq_false hneg]
    exact congrArg positiveText habs

theorem signed_natAbs (z : ℤ) : signed (decide (z < 0)) z.natAbs = z := by
  rw [signed, Nat.cast_natAbs]
  by_cases hneg : z < 0
  · rw [if_pos (decide_eq_true hneg), abs_of_neg hneg, Int.cast_neg, neg_neg]
  · rw [if_neg (by simpa using hneg), abs_of_nonneg (not_lt.mp hneg)]

/-- **An integer below `10 ^ 21` is read from its own text.** -/
theorem parseInt_text {z : ℤ} (hrep : Representable (z : ℚ)) (hlt : z.natAbs < 10 ^ 21) :
    parseInt (numberText (.finite z)) = some (.finite z) := by
  by_cases hz : z = 0
  · subst hz
    have hdigit : ∀ c ∈ ['0'], isDigit 10 c = true := by
      intro c hc
      rw [List.mem_singleton.mp hc]
      decide
    have hread := parseInt_digits false (List.cons_ne_nil '0' []) (t := []) hdigit
      (fun c hc => by cases hc)
    have hzero : signed false (ofDigits 10 ['0']) = ((0 : ℤ) : ℚ) := by
      have hdigits : ofDigits 10 ['0'] = 0 := ofDigits_zeros 10 1
      rw [hdigits, Nat.cast_zero, Int.cast_zero]
      rfl
    rw [hzero, ofRat_of_representable hrep] at hread
    rw [numberText, if_pos Int.cast_zero]
    exact hread
  · have habs : |(z.natAbs : ℚ)| = |(z : ℚ)| := by
      rw [Nat.cast_natAbs, Int.cast_abs, abs_abs]
    have hnat : Representable (z.natAbs : ℚ) := by
      obtain ⟨m, e, hq, hm, he, hbound⟩ := hrep
      refine ⟨|m|, e, ?_, by rwa [abs_abs], he, by rwa [habs]⟩
      rw [Nat.cast_natAbs, Int.cast_abs, hq, abs_mul, abs_of_pos (two_zpow_pos e), Int.cast_abs]
    obtain ⟨hne, hdigits, hround⟩ := positiveText_int (n := z.natAbs) (by omega) hnat (by omega)
    have hread := parseInt_digits (decide (z < 0)) hne (t := []) hdigits (fun c hc => by cases hc)
    rw [List.append_nil, ofRat_signed _ hround, signed_natAbs] at hread
    rw [numberText_int hz, hread]

/-- A larger one is not. -/
theorem parseInt_text_large {z : ℤ} (h : 10 ^ 21 ≤ z.natAbs) :
    parseInt (numberText (.finite z)) ≠ some (.finite z) := by
  have hz : z ≠ 0 := by
    rintro rfl
    rw [Int.natAbs_zero] at h
    omega
  obtain ⟨c, rest, htext, hc, hrest⟩ := positiveText_large (n := z.natAbs) (by omega)
  have hread := parseInt_digits (decide (z < 0)) (List.cons_ne_nil c []) (t := rest)
    (fun d hd => List.mem_singleton.mp hd ▸ hc) hrest
  rw [numberText_int hz, htext, hread]
  have hdigit : ofDigits 10 [c] < 10 := ofDigits_lt (by simpa using hc)
  have hsmall : Representable (ofDigits 10 [c] : ℚ) := by
    refine ⟨ofDigits 10 [c], 0, by simp, ?_, by norm_num, ?_⟩
    · rw [abs_of_nonneg (by omega)]
      omega
    · have hq : (ofDigits 10 [c] : ℚ) < 10 := by exact_mod_cast hdigit
      rw [abs_of_nonneg (Nat.cast_nonneg _)]
      calc (ofDigits 10 [c] : ℚ) < 2 ^ 4 := by linarith
        _ ≤ 2 ^ 1024 := pow_le_pow_right₀ (by norm_num) (by norm_num)
  rw [ofRat_signed _ (ofRat_of_representable hsmall)]
  intro heq
  have hvalue := Number.finite.inj (Option.some.inj heq)
  rw [← signed_natAbs z, signed_inj, Nat.cast_inj] at hvalue
  omega

end Numerals

end RifRelay
