import RifRelay.Basic.Bytes

set_option autoImplicit false

/-! # Hexadecimal texts

Bytes are written with two digits each, in lower case and after `0x`. Both cases are read.
-/

namespace RifRelay

abbrev Text := List Char

instance : LawfulBEq Text := inferInstanceAs (LawfulBEq (List Char))

namespace Hex

open BigEndian

/-! ## Digits -/

def digit (n : Nat) : Char := if n < 10 then Char.ofNat (48 + n) else Char.ofNat (87 + n)

def value (c : Char) : Option Nat :=
  if '0' ≤ c ∧ c ≤ '9' then some (c.toNat - 48)
  else if 'a' ≤ c ∧ c ≤ 'f' then some (c.toNat - 87)
  else if 'A' ≤ c ∧ c ≤ 'F' then some (c.toNat - 55)
  else none

theorem value_digit : ∀ n, n < 16 → value (digit n) = some n := by decide

/-! ## Bytes -/

def write (b : Bytes) : Text := b.flatMap fun x => [digit (x.toNat / 16), digit (x.toNat % 16)]

def read : Text → Option Bytes
  | [] => some []
  | [_] => none
  | c :: d :: rest =>
      match value c, value d, read rest with
      | some x, some y, some b => some (UInt8.ofNat (x * 16 + y) :: b)
      | _, _, _ => none

theorem length_write (b : Bytes) : (write b).length = 2 * b.length := by
  induction b with
  | nil => rfl
  | cons x rest ih =>
      rw [write, List.flatMap_cons, ← write, List.length_append, ih]
      simp
      omega

/-- What was written is read again. -/
theorem read_write (b : Bytes) : read (write b) = some b := by
  induction b with
  | nil => rfl
  | cons x rest ih =>
      have hx : x.toNat < 256 := x.toNat_lt
      have hhigh := value_digit (x.toNat / 16) (by omega)
      have hlow := value_digit (x.toNat % 16) (by omega)
      have hbyte : x.toNat / 16 * 16 + x.toNat % 16 = x.toNat := by omega
      show read (digit _ :: digit _ :: write rest) = _
      simp only [read, hhigh, hlow, ih, hbyte, UInt8.ofNat_toNat]

theorem digits_write {b : Bytes} {c : Char} (h : c ∈ write b) : ∃ n, n < 16 ∧ c = digit n := by
  rw [write, List.mem_flatMap] at h
  obtain ⟨x, -, hc⟩ := h
  have hx : x.toNat < 256 := x.toNat_lt
  rcases List.mem_cons.mp hc with rfl | hc
  · exact ⟨_, by omega, rfl⟩
  · obtain rfl := List.mem_singleton.mp hc
    exact ⟨_, by omega, rfl⟩

/-- Only the values of the digits are read. -/
theorem read_congr : ∀ {t t' : Text}, t.map value = t'.map value → read t = read t'
  | [], [], _ => rfl
  | [], _ :: _, h => by cases h
  | _ :: _, [], h => by cases h
  | [_], [_], _ => rfl
  | [_], _ :: _ :: _, h => by simp at h
  | _ :: _ :: _, [_], h => by simp at h
  | c :: d :: rest, c' :: d' :: rest', h => by
      simp only [List.map_cons, List.cons.injEq] at h
      obtain ⟨hc, hd, hrest⟩ := h
      simp only [read, hc, hd, read_congr hrest]

theorem drop_write (n : Nat) (b : Bytes) : (write b).drop (2 * n) = write (b.drop n) := by
  induction n generalizing b with
  | zero => rfl
  | succ n ih =>
      cases b with
      | nil => simp [write]
      | cons x rest =>
          rw [show 2 * (n + 1) = 2 * n + 1 + 1 by omega]
          exact ih rest

/-! ## Texts with a prefix -/

def text (b : Bytes) : Text := '0' :: 'x' :: write b

def ofText : Text → Option Bytes
  | '0' :: 'x' :: rest => read rest
  | _ => none

theorem ofText_prefixed (t : Text) : ofText ('0' :: 'x' :: t) = read t := rfl

theorem drop_text (b : Bytes) : (text b).drop 2 = write b := rfl

@[simp] theorem ofText_text (b : Bytes) : ofText (text b) = some b := read_write b

/-- The number of `n` bytes that a text gives. -/
def number (n : Nat) (t : Text) : Option Nat :=
  (ofText t).bind fun b => if b.length = n then some (ofBE b) else none

/-- The address a text gives: `0x` and 40 digits. -/
def address (t : Text) : Option Address := (number 20 t).map (BitVec.ofNat 160)

/-- The word a text gives: `0x` and 64 digits. -/
def word (t : Text) : Option Word := (number 32 t).map (BitVec.ofNat 256)

theorem number_text (b : Bytes) : number b.length (text b) = some (ofBE b) := by
  simp [number]

@[simp] theorem address_text (a : Address) : address (text (addressBytes a)) = some a := by
  have h := number_text (addressBytes a)
  rw [length_addressBytes] at h
  have hvalue : ofBE (addressBytes a) = a.toNat := by
    rw [addressBytes, ofBE_toBE]
    exact Nat.mod_eq_of_lt a.isLt
  simp [address, h, hvalue]

@[simp] theorem word_text (w : Word) : word (text (wordBytes w)) = some w := by
  have h := number_text (wordBytes w)
  rw [length_wordBytes] at h
  have hvalue : ofBE (wordBytes w) = w.toNat := by
    rw [wordBytes, ofBE_toBE]
    exact Nat.mod_eq_of_lt w.isLt
  simp [word, h, hvalue]

/-- The last 20 bytes of a word are those of its address. -/
theorem drop_wordBytes (w : Word) : (wordBytes w).drop 12 = addressBytes (wordAddress w) := by
  apply ofBE_inj
  · simp
  · have hsplit := ofBE_append ((wordBytes w).take 12) ((wordBytes w).drop 12)
    have hword : ofBE (wordBytes w) = w.toNat := by
      rw [wordBytes, ofBE_toBE]
      exact Nat.mod_eq_of_lt w.isLt
    have haddress : ofBE (addressBytes (wordAddress w)) = w.toNat % 2 ^ 160 := by
      rw [addressBytes, ofBE_toBE, wordAddress, BitVec.toNat_setWidth]
      exact Nat.mod_mod _ _
    have hlength : ((wordBytes w).drop 12).length = 20 := by simp
    have hlt := ofBE_lt ((wordBytes w).drop 12)
    rw [List.take_append_drop, hword, hlength] at hsplit
    rw [hlength] at hlt
    rw [haddress, hsplit]
    have hpow : (256 : Nat) ^ 20 = 2 ^ 160 := by norm_num
    rw [hpow, Nat.mul_add_mod_self_right, ← hpow, Nat.mod_eq_of_lt hlt]

end Hex

end RifRelay
