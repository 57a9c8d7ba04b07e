import RifRelay.Basic.Bytes

set_option autoImplicit false

/-! # Return data

The part of the contract ABI that return and revert data go through: a `bool`, the pair
`(bool, bytes)`, and the `Error(string)` that a failed `require` produces. Decoding is
strict, as the second version of the ABI coder is: a `bool` word other than `0` and `1`,
an offset or length that is too large, and data that is too short all make it fail.
-/

namespace Abi

open BigEndian

/-! ## Encoding -/

def boolWord (b : Bool) : Word := if b then 1 else 0

/-- Zero bytes up to the next multiple of 32. -/
def padded (b : Bytes) : Bytes := b ++ List.replicate ((32 - b.length % 32) % 32) 0

/-- `abi.encode(bool)`. -/
def encodeBool (b : Bool) : Bytes := wordBytes (boolWord b)

/-- `abi.encode(bool, bytes)`: the flag, the offset of the bytes, their length, the bytes. -/
def encodeBoolBytes (b : Bool) (ret : Bytes) : Bytes :=
  wordBytes (boolWord b) ++ (wordBytes 0x40 ++ (toBE 32 ret.length ++ padded ret))

/-- The revert data of a failed `require(_, reason)`: the selector of `Error(string)` and
the reason. -/
def encodeError (reason : String) : Bytes :=
  [0x08, 0xc3, 0x79, 0xa0] ++
    (wordBytes 0x20 ++ (toBE 32 (textBytes reason).length ++ padded (textBytes reason)))

/-! ## Decoding -/

/-- The 32-byte number at offset `i`. -/
def wordAt (b : Bytes) (i : Nat) : Nat := ofBE ((b.drop i).take 32)

def decodeFlag (v : Nat) : Option Bool :=
  if v = 0 then some false else if v = 1 then some true else none

/-- `abi.decode(ret, (bool))`. -/
def decodeBool (ret : Bytes) : Option Bool :=
  if ret.length < 32 then none else decodeFlag (wordAt ret 0)

/-- `abi.decode(ret, (bool, bytes))`. -/
def decodeBoolBytes (ret : Bytes) : Option (Bool × Bytes) :=
  if ret.length < 64 then none
  else
    match decodeFlag (wordAt ret 0) with
    | none => none
    | some b =>
        let offset := wordAt ret 32
        if 2 ^ 64 ≤ offset ∨ ret.length ≤ offset + 31 then none
        else
          let len := wordAt ret offset
          if 2 ^ 64 ≤ len ∨ ret.length < offset + 32 + len then none
          else some (b, (ret.drop (offset + 32)).take len)

/-! ## Decoding undoes encoding -/

@[simp] theorem ofBE_wordBytes (w : Word) : ofBE (wordBytes w) = w.toNat := by
  have := w.isLt
  rw [wordBytes, ofBE_toBE, Nat.mod_eq_of_lt (by norm_num at this ⊢; exact this)]

@[simp] theorem decodeFlag_boolWord (b : Bool) : decodeFlag (boolWord b).toNat = some b := by
  cases b <;> rfl

theorem wordAt_zero_append {w t : Bytes} (hw : w.length = 32) : wordAt (w ++ t) 0 = ofBE w := by
  rw [wordAt, List.drop_zero, List.take_append_of_le_length (by omega),
    List.take_of_length_le (by omega)]

theorem wordAt_append {w t : Bytes} {i : Nat} (hw : w.length = 32) :
    wordAt (w ++ t) (i + 32) = wordAt t i := by
  rw [wordAt, wordAt, List.drop_append, List.drop_eq_nil_of_le (by omega), hw,
    Nat.add_sub_cancel, List.nil_append]

@[simp] theorem decodeBool_encodeBool (b : Bool) : decodeBool (encodeBool b) = some b := by
  have hlen : (encodeBool b).length = 32 := length_wordBytes _
  have hword : wordAt (encodeBool b) 0 = (boolWord b).toNat := by
    rw [wordAt, List.drop_zero, List.take_of_length_le (by omega), encodeBool, ofBE_wordBytes]
  rw [decodeBool, if_neg (by omega), hword, decodeFlag_boolWord]

theorem wordAt_encodeBoolBytes_flag (b : Bool) (ret : Bytes) :
    wordAt (encodeBoolBytes b ret) 0 = (boolWord b).toNat := by
  rw [encodeBoolBytes, wordAt_zero_append (length_wordBytes _), ofBE_wordBytes]

theorem wordAt_encodeBoolBytes_offset (b : Bool) (ret : Bytes) :
    wordAt (encodeBoolBytes b ret) 32 = 0x40 := by
  rw [encodeBoolBytes, show (32 : Nat) = 0 + 32 from rfl, wordAt_append (length_wordBytes _),
    wordAt_zero_append (length_wordBytes _), ofBE_wordBytes]
  rfl

theorem wordAt_encodeBoolBytes_length (b : Bool) (ret : Bytes) (h : ret.length < 2 ^ 64) :
    wordAt (encodeBoolBytes b ret) 0x40 = ret.length := by
  rw [encodeBoolBytes, show (0x40 : Nat) = (0 + 32) + 32 from rfl,
    wordAt_append (length_wordBytes _), wordAt_append (length_wordBytes _),
    wordAt_zero_append (length_toBE _ _), ofBE_toBE, Nat.mod_eq_of_lt (by omega)]

theorem length_encodeBoolBytes (b : Bool) (ret : Bytes) :
    (encodeBoolBytes b ret).length = 96 + (padded ret).length := by
  simp only [encodeBoolBytes, List.length_append, length_wordBytes, length_toBE]
  omega

/-- **The flag survives the round trip**, whatever the length of the bytes: if the pair
decodes at all, its flag is the one that was encoded. -/
theorem decodeBoolBytes_flag {b b' : Bool} {ret ret' : Bytes}
    (h : decodeBoolBytes (encodeBoolBytes b ret) = some (b', ret')) : b' = b := by
  have hlen := length_encodeBoolBytes b ret
  rw [decodeBoolBytes, if_neg (by omega), wordAt_encodeBoolBytes_flag, decodeFlag_boolWord] at h
  simp only at h
  split at h
  · cases h
  · split at h
    · cases h
    · cases h
      rfl

/-- **The round trip** for bytes whose length is a 64-bit number. -/
theorem decodeBoolBytes_encodeBoolBytes (b : Bool) (ret : Bytes) (h : ret.length < 2 ^ 64) :
    decodeBoolBytes (encodeBoolBytes b ret) = some (b, ret) := by
  have hlen := length_encodeBoolBytes b ret
  have hpad : ret.length ≤ (padded ret).length := by
    rw [padded, List.length_append]
    omega
  have hdrop : (encodeBoolBytes b ret).drop 96 = padded ret := by
    rw [encodeBoolBytes, ← List.append_assoc, ← List.append_assoc,
      List.drop_append_of_le_length (by simp), List.drop_of_length_le (by simp), List.nil_append]
  have htake : (padded ret).take ret.length = ret := by
    rw [padded, List.take_append_of_le_length (Nat.le_refl _),
      List.take_of_length_le (Nat.le_refl _)]
  rw [decodeBoolBytes, if_neg (by omega), wordAt_encodeBoolBytes_flag, decodeFlag_boolWord,
    wordAt_encodeBoolBytes_offset]
  simp only
  rw [if_neg (by omega), wordAt_encodeBoolBytes_length b ret h, if_neg (by omega), hdrop, htake]

end Abi
