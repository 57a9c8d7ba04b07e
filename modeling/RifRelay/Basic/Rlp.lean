import RifRelay.Basic.Bytes

set_option autoImplicit false

/-! # RLP

The canonical encoding of byte strings, numbers and lists of byte strings: a single byte
below `0x80` is its own encoding, everything else gets a prefix with its length. Numbers are
encoded as their big-endian bytes without leading zeros, zero as the empty string.

A prefix has room for a length of eight bytes, so strings and lists from `2 ^ 64` bytes on
have no encoding.
-/

namespace Rlp

open BigEndian

/-- How many bytes a number has. -/
def byteLength (n : Nat) : Nat := if n = 0 then 0 else Nat.log2 n / 8 + 1

/-- The big-endian bytes of a number, without leading zeros. -/
def natBytes (n : Nat) : Bytes := toBE (byteLength n) n

/-- The prefix of a payload of `n` bytes; `offset` is `0x80` for strings, `0xc0` for lists. -/
def lengthPrefix (offset n : Nat) : Bytes :=
  if n < 56 then [UInt8.ofNat (offset + n)]
  else UInt8.ofNat (offset + 55 + byteLength n) :: natBytes n

/-- The encoding of a byte string. -/
def encodeString : Bytes → Bytes
  | [b] => if b.toNat < 0x80 then [b] else lengthPrefix 0x80 1 ++ [b]
  | s => lengthPrefix 0x80 s.length ++ s

/-- The payload of a list of byte strings. -/
def payload (items : List Bytes) : Bytes := items.flatMap encodeString

/-- The encoding of a list of byte strings. -/
def encodeList (items : List Bytes) : Bytes :=
  lengthPrefix 0xc0 (payload items).length ++ payload items

/-! ## Lengths -/

theorem lt_pow_byteLength (n : Nat) : n < 256 ^ byteLength n := by
  unfold byteLength
  split
  · next h => simp [h]
  · next h =>
      have hlog : n < 2 ^ (n.log2 + 1) := Nat.lt_log2_self
      calc n < 2 ^ (n.log2 + 1) := hlog
        _ ≤ 2 ^ (8 * (n.log2 / 8 + 1)) := Nat.pow_le_pow_right (by omega) (by omega)
        _ = 256 ^ (n.log2 / 8 + 1) := by rw [Nat.pow_mul]

/-- A number below `256 ^ k` has at most `k` bytes. -/
theorem byteLength_le {n k : Nat} (h : n < 256 ^ k) : byteLength n ≤ k := by
  unfold byteLength
  split
  · exact Nat.zero_le k
  · next hne =>
      have hlow : 2 ^ n.log2 ≤ n := Nat.log2_self_le hne
      have hpow : (256 : Nat) ^ k = 2 ^ (8 * k) := by rw [Nat.pow_mul]
      rw [hpow] at h
      have hlt : n.log2 < 8 * k := by
        by_contra hge
        have hle : 2 ^ (8 * k) ≤ 2 ^ n.log2 := Nat.pow_le_pow_right (by omega) (by omega)
        omega
      omega

theorem byteLength_pos {n : Nat} (h : 0 < n) : 0 < byteLength n := by
  unfold byteLength
  rw [if_neg (by omega)]
  omega

@[simp] theorem length_natBytes (n : Nat) : (natBytes n).length = byteLength n :=
  length_toBE _ _

@[simp] theorem ofBE_natBytes (n : Nat) : ofBE (natBytes n) = n := by
  rw [natBytes, ofBE_toBE, Nat.mod_eq_of_lt (lt_pow_byteLength n)]

/-- The first byte of a prefix tells how long the payload is, or how long its length is. -/
theorem encodeString_eq (s : Bytes) :
    (∃ b, s = [b] ∧ b.toNat < 0x80 ∧ encodeString s = [b]) ∨
      encodeString s = lengthPrefix 0x80 s.length ++ s := by
  match s with
  | [] => exact Or.inr rfl
  | [b] =>
      by_cases hb : b.toNat < 0x80
      · exact Or.inl ⟨b, rfl, hb, by simp [encodeString, hb]⟩
      · exact Or.inr (by simp [encodeString, hb])
  | _ :: _ :: _ => exact Or.inr rfl

theorem length_lengthPrefix_pos (offset n : Nat) : 0 < (lengthPrefix offset n).length := by
  unfold lengthPrefix
  split <;> simp

theorem length_encodeString_pos (s : Bytes) : 0 < (encodeString s).length := by
  rcases encodeString_eq s with ⟨b, -, -, h⟩ | h
  · simp [h]
  · have hpos := length_lengthPrefix_pos 0x80 s.length
    rw [h, List.length_append]
    omega

theorem length_le_encodeString (s : Bytes) : s.length ≤ (encodeString s).length := by
  rcases encodeString_eq s with ⟨b, rfl, -, h⟩ | h
  · simp [h]
  · rw [h, List.length_append]
    omega

/-- A short string costs at most one byte more. -/
theorem length_encodeString_le {s : Bytes} (hs : s.length < 56) :
    (encodeString s).length ≤ s.length + 1 := by
  rcases encodeString_eq s with ⟨b, rfl, -, h⟩ | h
  · simp [h]
  · rw [h, List.length_append, lengthPrefix, if_pos hs, List.length_singleton]
    omega

/-- An item is at most as long as the payload of its list. -/
theorem length_le_payload {items : List Bytes} {s : Bytes} (h : s ∈ items) :
    s.length ≤ (payload items).length := by
  obtain ⟨l, r, rfl⟩ := List.append_of_mem h
  have hs := length_le_encodeString s
  simp only [payload, List.flatMap_append, List.flatMap_cons, List.length_append]
  omega

end Rlp
