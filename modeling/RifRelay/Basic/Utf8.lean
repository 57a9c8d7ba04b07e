import RifRelay.Basic.Hex

set_option autoImplicit false

/-! # UTF-8

The bytes of a text, and the text that bytes give. Bytes that are no character are read as
U+FFFD, one for each longest part that could begin a character.
-/

namespace RifRelay.Utf8

def encode (t : Text) : Bytes := t.flatMap String.utf8EncodeChar

/-! ## Reading -/

/-- How many bytes follow the first byte of a character. -/
def tails (first : UInt8) : Nat :=
  if 0xC2 ≤ first ∧ first ≤ 0xDF then 1
  else if 0xE0 ≤ first ∧ first ≤ 0xEF then 2
  else if 0xF0 ≤ first ∧ first ≤ 0xF4 then 3
  else 0

def isTail (b : UInt8) : Bool := 0x80 ≤ b ∧ b ≤ 0xBF

/-- The second byte may follow the first one. -/
def isSecond (first b : UInt8) : Bool :=
  if first = 0xE0 then 0xA0 ≤ b ∧ b ≤ 0xBF
  else if first = 0xED then 0x80 ≤ b ∧ b ≤ 0x9F
  else if first = 0xF0 then 0x90 ≤ b ∧ b ≤ 0xBF
  else if first = 0xF4 then 0x80 ≤ b ∧ b ≤ 0x8F
  else isTail b

/-- The length of the longest part at the front that could begin a character. -/
def beginning : Bytes → Nat
  | [] => 0
  | first :: rest =>
      match rest.take (tails first) with
      | [] => 1
      | b :: more => if isSecond first b then 2 + (more.takeWhile isTail).length else 1

def decodeUpTo : Nat → Bytes → Text
  | 0, _ => []
  | _ + 1, [] => []
  | n + 1, b =>
      match b.toByteArray.utf8DecodeChar? 0 with
      | some c => c :: decodeUpTo n (b.drop c.utf8Size)
      | none => Char.ofNat 0xFFFD :: decodeUpTo n (b.drop (beginning b))

def decode (b : Bytes) : Text := decodeUpTo b.length b

/-! ## Reading what was written -/

theorem encode_cons (c : Char) (t : Text) : encode (c :: t) = String.utf8EncodeChar c ++ encode t :=
  List.flatMap_cons

theorem decodeUpTo_encode {n : Nat} {t : Text} (h : (encode t).length ≤ n) :
    decodeUpTo n (encode t) = t := by
  induction t generalizing n with
  | nil =>
      cases n with
      | zero => rfl
      | succ n => rfl
  | cons c rest ih =>
      rw [encode_cons] at h ⊢
      have hlength : (String.utf8EncodeChar c).length = c.utf8Size := String.length_utf8EncodeChar c
      have hpos := c.utf8Size_pos
      rw [List.length_append, hlength] at h
      obtain ⟨n, rfl⟩ : ∃ k, n = k + 1 := ⟨n - 1, by omega⟩
      have hchar : (String.utf8EncodeChar c ++ encode rest).toByteArray.utf8DecodeChar? 0 =
          some c := by
        rw [List.toByteArray_append]
        exact ByteArray.utf8DecodeChar?_utf8EncodeChar_append
      cases hb : String.utf8EncodeChar c ++ encode rest with
      | nil => exact (String.utf8EncodeChar_ne_nil (List.append_eq_nil_iff.mp hb).1).elim
      | cons b more =>
          rw [← hb, decodeUpTo, hchar]
          · show c :: decodeUpTo n ((String.utf8EncodeChar c ++ encode rest).drop c.utf8Size) = _
            rw [← hlength, List.drop_left, ih (by omega)]
          · rw [hb]
            exact List.cons_ne_nil b more

/-- **What was written is read again.** -/
theorem decode_encode (t : Text) : decode (encode t) = t := decodeUpTo_encode le_rfl

-- an overlong form is two characters, and a cut one is one
example : decode [0xC0, 0x80, 0x41] = [Char.ofNat 0xFFFD, Char.ofNat 0xFFFD, 'A'] := by
  decide +kernel

example : decode [0xE2, 0x82, 0x41] = [Char.ofNat 0xFFFD, 'A'] := by decide +kernel

end RifRelay.Utf8
