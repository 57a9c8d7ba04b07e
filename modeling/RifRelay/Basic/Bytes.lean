import Mathlib.Data.BitVec
import Mathlib.Data.List.Basic
import Mathlib.Data.List.Induction
import Mathlib.Data.Nat.Basic
import Mathlib.Tactic.Common
import Mathlib.Tactic.Ring

set_option autoImplicit false

/-! # Bytes, words and addresses

Byte strings, big-endian numbers of a fixed width, and the two fixed-width types of the
virtual machine: the 256-bit word (`uint256`, `bytes32`) and the 160-bit address.

A number of `n` bytes and its byte string determine each other (`ofBE_toBE`,
`toBE_ofBE`), so a packed encoding whose parts have known lengths can be taken apart
again (`List.append_inj`).
-/

/-- A byte string, `bytes` in the source. -/
abbrev Bytes := List UInt8

/-- `uint256` and `bytes32`: arithmetic wraps, comparison is unsigned. -/
abbrev Word := BitVec 256

/-- `address`. -/
abbrev Address := BitVec 160

namespace BigEndian

/-! ## Numbers of a fixed number of bytes -/

/-- The last `n` base-256 digits of `x`, most significant first. -/
def toBE : Nat → Nat → Bytes
  | 0, _ => []
  | n + 1, x => toBE n (x / 256) ++ [UInt8.ofNat (x % 256)]

/-- The number a byte string denotes, most significant byte first. -/
def ofBE (b : Bytes) : Nat := b.foldl (fun a x => a * 256 + x.toNat) 0

@[simp] theorem length_toBE (n x : Nat) : (toBE n x).length = n := by
  induction n generalizing x with
  | zero => rfl
  | succ n ih => simp [toBE, ih]

@[simp] theorem ofBE_nil : ofBE [] = 0 := rfl

theorem ofBE_snoc (b : Bytes) (x : UInt8) : ofBE (b ++ [x]) = ofBE b * 256 + x.toNat := by
  simp [ofBE, List.foldl_append]

theorem ofBE_append (a b : Bytes) : ofBE (a ++ b) = ofBE a * 256 ^ b.length + ofBE b := by
  induction b using List.reverseRecOn with
  | nil => simp
  | append_singleton b x ih =>
      rw [← List.append_assoc, ofBE_snoc, ofBE_snoc, ih, List.length_append,
        List.length_singleton, pow_succ]
      ring

theorem ofBE_cons (x : UInt8) (b : Bytes) : ofBE (x :: b) = x.toNat * 256 ^ b.length + ofBE b := by
  have h := ofBE_append [x] b
  simpa [ofBE] using h

theorem ofBE_lt (b : Bytes) : ofBE b < 256 ^ b.length := by
  induction b using List.reverseRecOn with
  | nil => simp
  | append_singleton b x ih =>
      have hx : x.toNat < 256 := x.toNat_lt
      rw [ofBE_snoc, List.length_append, List.length_singleton, pow_succ]
      omega

theorem ofBE_toBE (n x : Nat) : ofBE (toBE n x) = x % 256 ^ n := by
  induction n generalizing x with
  | zero => simp [toBE, Nat.mod_one]
  | succ n ih =>
      have hbyte : (UInt8.ofNat (x % 256)).toNat = x % 256 := by simp
      rw [toBE, ofBE_snoc, ih, hbyte, pow_succ, Nat.mul_comm (256 ^ n) 256, Nat.mod_mul]
      ring

theorem toBE_ofBE (b : Bytes) : toBE b.length (ofBE b) = b := by
  induction b using List.reverseRecOn with
  | nil => rfl
  | append_singleton b x ih =>
      have hx : x.toNat < 256 := x.toNat_lt
      have hdiv : (ofBE b * 256 + x.toNat) / 256 = ofBE b := by omega
      have hmod : (ofBE b * 256 + x.toNat) % 256 = x.toNat := by omega
      rw [List.length_append, List.length_singleton, toBE, ofBE_snoc, hdiv, hmod, ih]
      simp

theorem toBE_inj {n x y : Nat} (hx : x < 256 ^ n) (hy : y < 256 ^ n)
    (h : toBE n x = toBE n y) : x = y := by
  have := congrArg ofBE h
  rwa [ofBE_toBE, ofBE_toBE, Nat.mod_eq_of_lt hx, Nat.mod_eq_of_lt hy] at this

theorem ofBE_inj {a b : Bytes} (hlen : a.length = b.length) (h : ofBE a = ofBE b) : a = b := by
  rw [← toBE_ofBE a, ← toBE_ofBE b, hlen, h]

end BigEndian

/-! ## Words and addresses as bytes -/

open BigEndian

/-- The 32 bytes of a word, as `abi.encode` and `abi.encodePacked` write it. -/
def wordBytes (w : Word) : Bytes := toBE 32 w.toNat

/-- The 20 bytes of an address, as `abi.encodePacked` writes it. -/
def addressBytes (a : Address) : Bytes := toBE 20 a.toNat

/-- An address as a word, as `abi.encode` writes it: 12 zero bytes and the address. -/
def addressWord (a : Address) : Word := a.setWidth 256

/-- The address in the last 20 bytes of a word, `address(uint160(uint256(w)))`. -/
def wordAddress (w : Word) : Address := w.setWidth 160

/-- The text of a type string or message as bytes. -/
def textBytes (s : String) : Bytes := s.toByteArray.data.toList

@[simp] theorem length_wordBytes (w : Word) : (wordBytes w).length = 32 := length_toBE _ _

@[simp] theorem length_addressBytes (a : Address) : (addressBytes a).length = 20 :=
  length_toBE _ _

theorem wordBytes_inj {v w : Word} (h : wordBytes v = wordBytes w) : v = w :=
  BitVec.eq_of_toNat_eq (toBE_inj (by have := v.isLt; norm_num at this ⊢; exact this)
    (by have := w.isLt; norm_num at this ⊢; exact this) h)

theorem addressBytes_inj {a b : Address} (h : addressBytes a = addressBytes b) : a = b :=
  BitVec.eq_of_toNat_eq (toBE_inj (by have := a.isLt; norm_num at this ⊢; exact this)
    (by have := b.isLt; norm_num at this ⊢; exact this) h)

@[simp] theorem wordAddress_addressWord (a : Address) : wordAddress (addressWord a) = a := by
  simp [wordAddress, addressWord]

theorem addressWord_inj {a b : Address} (h : addressWord a = addressWord b) : a = b := by
  have := congrArg wordAddress h
  rwa [wordAddress_addressWord, wordAddress_addressWord] at this

/-- Two strings with the same first block of bytes have the same block and the same rest. -/
theorem wordBytes_append_inj {v w : Word} {s t : Bytes}
    (h : wordBytes v ++ s = wordBytes w ++ t) : v = w ∧ s = t := by
  obtain ⟨hw, ht⟩ := List.append_inj h (by simp)
  exact ⟨wordBytes_inj hw, ht⟩

theorem addressBytes_append_inj {a b : Address} {s t : Bytes}
    (h : addressBytes a ++ s = addressBytes b ++ t) : a = b ∧ s = t := by
  obtain ⟨ha, ht⟩ := List.append_inj h (by simp)
  exact ⟨addressBytes_inj ha, ht⟩

@[simp] theorem wordBytes_append_iff {v w : Word} {s t : Bytes} :
    wordBytes v ++ s = wordBytes w ++ t ↔ v = w ∧ s = t :=
  ⟨wordBytes_append_inj, fun ⟨hw, ht⟩ => by rw [hw, ht]⟩

@[simp] theorem wordBytes_iff {v w : Word} : wordBytes v = wordBytes w ↔ v = w :=
  ⟨wordBytes_inj, congrArg wordBytes⟩

@[simp] theorem addressWord_iff {a b : Address} : addressWord a = addressWord b ↔ a = b :=
  ⟨addressWord_inj, congrArg addressWord⟩
