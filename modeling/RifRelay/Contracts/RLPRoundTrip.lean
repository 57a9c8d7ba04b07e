import RifRelay.Basic.Rlp
import RifRelay.Contracts.RLPReader

set_option autoImplicit false

/-! # The reader undoes the encoding

`decodeTransaction` applied to the canonical encoding of a transaction, wherever it is in
memory and whatever is around it, gives back the fields of the transaction
(`decodeTransaction_encode`). The proof follows the reader: what one word of memory tells
about an item (`item_encode`, `list_encode`), the loops over the items of a
list (`countItems_payload`, `collectItems_payload`), and the copy of the data a word at a
time (`copy_spec`).
-/

namespace RifRelay

open BigEndian Rlp

namespace RLPReader

/-! ## Memory -/

@[simp] theorem length_slice (mem : Memory) (ptr n : Nat) : (slice mem ptr n).length = n := by
  simp [slice]

theorem getElem_slice (mem : Memory) (ptr n i : Nat) (h : i < (slice mem ptr n).length) :
    (slice mem ptr n)[i] = mem (ptr + i) := by
  simp [slice]

theorem slice_add (mem : Memory) (ptr m n : Nat) :
    slice mem ptr (m + n) = slice mem ptr m ++ slice mem (ptr + m) n := by
  simp only [slice, List.range_add, List.map_append, List.map_map]
  congr 1
  refine List.map_congr_left fun i _ => ?_
  simp [Nat.add_assoc]

theorem slice_congr {mem mem' : Memory} {ptr n : Nat}
    (h : ∀ i, i < n → mem (ptr + i) = mem' (ptr + i)) : slice mem ptr n = slice mem' ptr n := by
  refine List.map_congr_left fun i hi => ?_
  exact h i (List.mem_range.mp hi)

/-- The bytes `b` stand at `ptr`. -/
def Holds (mem : Memory) (ptr : Nat) (b : Bytes) : Prop := slice mem ptr b.length = b

theorem holds_append {mem : Memory} {ptr : Nat} {a b : Bytes} :
    Holds mem ptr (a ++ b) ↔ Holds mem ptr a ∧ Holds mem (ptr + a.length) b := by
  unfold Holds
  rw [List.length_append, slice_add]
  constructor
  · intro h
    exact List.append_inj h (by simp)
  · rintro ⟨ha, hb⟩
    rw [ha, hb]

theorem holds_cons {mem : Memory} {ptr : Nat} {x : UInt8} {b : Bytes} :
    Holds mem ptr (x :: b) ↔ mem ptr = x ∧ Holds mem (ptr + 1) b := by
  have h := @holds_append mem ptr [x] b
  simpa [Holds, slice] using h

/-- The first byte of the word at `ptr`. -/
theorem byte0_eq (mem : Memory) (ptr : Nat) : byte0 mem ptr = (mem ptr).toNat := by
  have hword : slice mem ptr 32 = mem ptr :: slice mem (ptr + 1) 31 := by
    have h := slice_add mem ptr 1 31
    simpa [slice] using h
  have hlt : ofBE (slice mem (ptr + 1) 31) < 256 ^ 31 := by
    simpa using ofBE_lt (slice mem (ptr + 1) 31)
  rw [byte0, mload, hword, ofBE_cons, length_slice]
  rw [Nat.mul_comm, Nat.mul_add_div (by norm_num), Nat.div_eq_of_lt hlt, Nat.add_zero]

/-- A word shifted right leaves its first `k` bytes. For `k = 0` the reader divides by `0`,
which gives `0` as well. -/
theorem div_mload (mem : Memory) (ptr : Nat) {k : Nat} (hk : k ≤ 32) :
    div (mload mem ptr) (exp256 (sub32 k)) = ofBE (slice mem ptr k) := by
  unfold div exp256 sub32
  rw [if_pos hk]
  rcases Nat.eq_zero_or_pos k with rfl | hpos
  · rw [if_neg (by omega), Nat.div_zero]
    rfl
  · have hsplit : slice mem ptr 32 = slice mem ptr k ++ slice mem (ptr + k) (32 - k) := by
      rw [← slice_add, Nat.add_sub_cancel' hk]
    have hlt : ofBE (slice mem (ptr + k) (32 - k)) < 256 ^ (32 - k) := by
      simpa using ofBE_lt (slice mem (ptr + k) (32 - k))
    rw [if_pos (by omega), mload, hsplit, ofBE_append, length_slice, Nat.mul_comm,
      Nat.mul_add_div (Nat.pow_pos (by omega)), Nat.div_eq_of_lt hlt, Nat.add_zero]

/-! ## Prefixes -/

/-- What a prefix looks like in memory: a short one is one byte, a long one is the length of
the length followed by the length. -/
theorem lengthPrefix_cases {mem : Memory} {ptr offset n : Nat} (hoffset : offset + 63 < 256)
    (hn : n < 2 ^ 64) (h : Holds mem ptr (lengthPrefix offset n)) :
    (n < 56 ∧ byte0 mem ptr = offset + n ∧ (lengthPrefix offset n).length = 1) ∨
      (0 < byteLength n ∧ byteLength n ≤ 8 ∧ byte0 mem ptr = offset + 55 + byteLength n ∧
        div (mload mem (ptr + 1)) (exp256 (sub32 (byteLength n))) = n ∧
        (lengthPrefix offset n).length = byteLength n + 1) := by
  unfold lengthPrefix at h ⊢
  split
  · next hshort =>
      rw [if_pos hshort] at h
      obtain ⟨hbyte, -⟩ := holds_cons.mp h
      refine Or.inl ⟨hshort, ?_, rfl⟩
      rw [byte0_eq, hbyte, UInt8.toNat_ofNat']
      omega
  · next hlong =>
      rw [if_neg hlong] at h
      obtain ⟨hbyte, hlen⟩ := holds_cons.mp h
      have hle : byteLength n ≤ 8 := byteLength_le (by omega)
      refine Or.inr ⟨byteLength_pos (by omega), hle, ?_, ?_, by simp⟩
      · rw [byte0_eq, hbyte, UInt8.toNat_ofNat']
        omega
      · rw [Holds, length_natBytes] at hlen
        rw [div_mload mem (ptr + 1) (by omega), hlen, ofBE_natBytes]

/-! ## Items -/

theorem payloadOffset_eq {mem : Memory} {ptr b : Nat} (h : byte0 mem ptr = b) :
    payloadOffset mem ptr =
      if b < 0x80 then 0
      else if b < 0xb8 ∨ (0xc0 ≤ b ∧ b < 0xf8) then 1
      else if b < 0xc0 then b - 0xb7 + 1
      else b - 0xf7 + 1 := by
  subst h
  rfl

theorem itemLength_eq {mem : Memory} {ptr b : Nat} (h : byte0 mem ptr = b) (hb : b < 0xc0) :
    itemLength mem ptr =
      if b < 0x80 then 1
      else if b < 0xb8 then b - 0x80 + 1
      else div (mload mem (ptr + 1)) (exp256 (sub32 (b - 0xb7))) + (b - 0xb7 + 1) := by
  subst h
  have hstring : byte0 mem ptr < LIST_SHORT_START := hb
  unfold itemLength
  dsimp only
  rw [if_pos hstring]
  rfl

/-- The reader sees the whole length of an encoded string and finds its payload. -/
theorem item_encode {mem : Memory} {ptr : Nat} {s : Bytes} (hs : s.length < 2 ^ 64)
    (h : Holds mem ptr (encodeString s)) :
    itemLength mem ptr = (encodeString s).length ∧
      payloadOffset mem ptr + s.length = (encodeString s).length ∧
      Holds mem (ptr + payloadOffset mem ptr) s := by
  rcases encodeString_eq s with ⟨b, rfl, hb, henc⟩ | henc
  · rw [henc] at h ⊢
    have hbyte : byte0 mem ptr = b.toNat := by
      rw [byte0_eq, (holds_cons.mp h).1]
    have hoffset : payloadOffset mem ptr = 0 := by
      rw [payloadOffset_eq hbyte, if_pos hb]
    refine ⟨?_, ?_, ?_⟩
    · rw [itemLength_eq hbyte (by omega), if_pos hb]
      rfl
    · rw [hoffset]
      rfl
    · rw [hoffset]
      exact h
  · rw [henc] at h ⊢
    obtain ⟨hhead, hpayload⟩ := holds_append.mp h
    rw [List.length_append]
    rcases lengthPrefix_cases (by omega) hs hhead with
      ⟨hshort, hbyte, hlen⟩ | ⟨hpos, hle, hbyte, hdata, hlen⟩
    · have hoffset : payloadOffset mem ptr = 1 := by
        rw [payloadOffset_eq hbyte, if_neg (by omega), if_pos (by omega)]
      rw [hlen] at hpayload ⊢
      refine ⟨?_, by omega, by rwa [hoffset]⟩
      rw [itemLength_eq hbyte (by omega), if_neg (by omega), if_pos (by omega)]
      omega
    · have hoffset : payloadOffset mem ptr = byteLength s.length + 1 := by
        rw [payloadOffset_eq hbyte, if_neg (by omega), if_neg (by omega), if_pos (by omega)]
        omega
      rw [hlen] at hpayload ⊢
      refine ⟨?_, by omega, by rwa [hoffset]⟩
      have hbyteLen : 0x80 + 55 + byteLength s.length - 0xb7 = byteLength s.length := by omega
      rw [itemLength_eq hbyte (by omega), if_neg (by omega), if_neg (by omega), hbyteLen, hdata]
      omega

/-- The reader takes an encoded list for a list and finds its payload. -/
theorem list_encode {mem : Memory} {ptr : Nat} {items : List Bytes}
    (hsize : (payload items).length < 2 ^ 64) (h : Holds mem ptr (encodeList items)) :
    LIST_SHORT_START ≤ byte0 mem ptr ∧
      payloadOffset mem ptr + (payload items).length = (encodeList items).length ∧
      Holds mem (ptr + payloadOffset mem ptr) (payload items) := by
  obtain ⟨hhead, hpayload⟩ := holds_append.mp h
  rw [encodeList, List.length_append]
  rcases lengthPrefix_cases (by omega) hsize hhead with
    ⟨hshort, hbyte, hlen⟩ | ⟨hpos, hle, hbyte, hdata, hlen⟩
  · have hoffset : payloadOffset mem ptr = 1 := by
      rw [payloadOffset_eq hbyte, if_neg (by omega), if_pos (by omega)]
    rw [hlen] at hpayload ⊢
    exact ⟨by simp only [LIST_SHORT_START]; omega, by omega, by rwa [hoffset]⟩
  · have hoffset : payloadOffset mem ptr = byteLength (payload items).length + 1 := by
      rw [payloadOffset_eq hbyte, if_neg (by omega), if_neg (by omega), if_neg (by omega)]
      omega
    rw [hlen] at hpayload ⊢
    exact ⟨by simp only [LIST_SHORT_START]; omega, by omega, by rwa [hoffset]⟩

/-! ## The loops over the items -/

theorem payload_cons (s : Bytes) (items : List Bytes) :
    payload (s :: items) = encodeString s ++ payload items := rfl

theorem countItems_payload {mem : Memory} (items : List Bytes) (ptr count : Nat)
    (hsize : ∀ s ∈ items, s.length < 2 ^ 64) (h : Holds mem ptr (payload items)) :
    countItems mem ptr (ptr + (payload items).length) count = count + items.length := by
  induction items generalizing ptr count with
  | nil =>
      unfold countItems
      rw [dif_neg (by simp [payload])]
      rfl
  | cons s items ih =>
      rw [payload_cons] at h ⊢
      obtain ⟨hs, hrest⟩ := holds_append.mp h
      obtain ⟨hlen, -, -⟩ := item_encode (hsize s (by simp)) hs
      have hpos := length_encodeString_pos s
      rw [List.length_append]
      unfold countItems
      rw [dif_pos (by omega), hlen, ← Nat.add_assoc]
      rw [ih _ _ (fun t ht => hsize t (by simp [ht])) hrest, List.length_cons]
      omega

/-- An item of the reader that stands for a byte string and ends by `stop`. -/
structure Reads (mem : Memory) (stop : Nat) (item : RLPItem) (s : Bytes) : Prop where
  small : s.length < 2 ^ 64
  len : item.len = (encodeString s).length
  holds : Holds mem item.memPtr (encodeString s)
  below : item.memPtr + item.len ≤ stop

theorem collectItems_payload {mem : Memory} {stop : Nat} (items : List Bytes) (ptr : Nat)
    (hsize : ∀ s ∈ items, s.length < 2 ^ 64) (h : Holds mem ptr (payload items))
    (hstop : ptr + (payload items).length ≤ stop) :
    List.Forall₂ (Reads mem stop) (collectItems mem items.length ptr) items := by
  induction items generalizing ptr with
  | nil => exact .nil
  | cons s items ih =>
      rw [payload_cons] at h hstop
      rw [List.length_append] at hstop
      obtain ⟨hs, hrest⟩ := holds_append.mp h
      obtain ⟨hlen, -, -⟩ := item_encode (hsize s (by simp)) hs
      refine .cons ⟨hsize s (by simp), hlen, hs, ?_⟩ ?_
      · show ptr + itemLength mem ptr ≤ stop
        omega
      · rw [hlen]
        exact ih _ (fun t ht => hsize t (by simp [ht])) hrest (by omega)

/-- The reader lists the items of an encoded list. -/
theorem toList_encode {items : List Bytes} (hsize : (payload items).length < 2 ^ 64)
    (st : Stored (encodeList items)) :
    ∃ values, toList st.mem (toRlpItem (encodeList items) st.ptr) = .ok values ∧
      List.Forall₂ (Reads st.mem st.free) values items := by
  obtain ⟨hlist, hlen, hpayload⟩ := list_encode hsize st.holds
  have hpos : (encodeList items).length ≠ 0 := by
    have := length_lengthPrefix_pos 0xc0 (payload items).length
    rw [encodeList, List.length_append]
    omega
  have hsmall : ∀ s ∈ items, s.length < 2 ^ 64 :=
    fun s hs => Nat.lt_of_le_of_lt (length_le_payload hs) hsize
  have hcount : numItems st.mem ⟨(encodeList items).length, st.ptr⟩ = items.length := by
    rw [numItems, ← hlen, ← Nat.add_assoc, countItems_payload items _ 0 hsmall hpayload,
      Nat.zero_add]
  have hbelow := st.below
  refine ⟨_, ?_, collectItems_payload items _ hsmall hpayload (by omega)⟩
  rw [toList, toRlpItem, if_neg hpos, isList, if_pos (by simpa using hlist), hcount]

/-! ## Conversions -/

theorem Reads.payload {mem : Memory} {stop : Nat} {item : RLPItem} {s : Bytes}
    (h : Reads mem stop item s) :
    item.len - payloadOffset mem item.memPtr = s.length ∧
      Holds mem (item.memPtr + payloadOffset mem item.memPtr) s := by
  obtain ⟨-, hlen, hpayload⟩ := item_encode h.small h.holds
  refine ⟨?_, hpayload⟩
  rw [h.len]
  omega

theorem toUint_read {mem : Memory} {stop : Nat} {item : RLPItem} {s : Bytes}
    (h : Reads mem stop item s) (hs : s.length ≤ 32) : toUint mem item = ofBE s := by
  obtain ⟨hlen, hpayload⟩ := h.payload
  rw [toUint, hlen, div_mload mem _ hs, hpayload]

/-! ## Copying -/

theorem mstore_outside (mem : Memory) (dest v i : Nat) (h : i < dest ∨ dest + 32 ≤ i) :
    mstore mem dest v i = mem i := by
  rw [mstore, if_neg (by omega)]

/-- A word written from its bytes. -/
theorem mstore_ofBE (mem : Memory) (dest i : Nat) {b : Bytes} (hb : b.length = 32)
    (hi : i < 32) : mstore mem dest (ofBE b) (dest + i) = b[i] := by
  have hbytes : toBE 32 (ofBE b) = b := by
    rw [← hb]
    exact toBE_ofBE b
  rw [mstore, if_pos (by omega), hbytes, Nat.add_sub_cancel_left, List.getD_eq_getElem?_getD,
    List.getElem?_eq_getElem (by omega), Option.getD_some]

theorem mstore_mload (mem mem' : Memory) (src dest i : Nat) (hi : i < 32) :
    mstore mem' dest (mload mem src) (dest + i) = mem (src + i) := by
  rw [mload, mstore_ofBE _ _ _ (length_slice mem src 32) hi, getElem_slice]

/-- Masking off the last `k` bits of a word. -/
theorem and_not_mask {x k : Nat} (hx : x < 2 ^ 256) (hk : k ≤ 256) :
    x &&& (2 ^ 256 - 1 - (2 ^ k - 1)) = x / 2 ^ k * 2 ^ k := by
  have hmask : 2 ^ 256 - 1 - (2 ^ k - 1) = 2 ^ k * (2 ^ (256 - k) - 1) := by
    have hpos : 0 < 2 ^ k := Nat.pow_pos (by omega)
    have hpow : 2 ^ k * 2 ^ (256 - k) = 2 ^ 256 := by
      rw [← pow_add, Nat.add_sub_cancel' hk]
    rw [Nat.mul_sub, hpow]
    omega
  rw [hmask, Nat.mul_comm (x / 2 ^ k)]
  refine Nat.eq_of_testBit_eq fun j => ?_
  rw [Nat.testBit_and, Nat.testBit_two_pow_mul, Nat.testBit_two_pow_mul,
    Nat.testBit_two_pow_sub_one, Nat.testBit_div_two_pow]
  by_cases hj : k ≤ j
  · by_cases hj' : j < 256
    · have h : j - k < 256 - k := by omega
      simp [hj, h]
    · -- beyond the word there are no bits
      have hbit : x.testBit j = false :=
        Nat.testBit_lt_two_pow (Nat.lt_of_lt_of_le hx (Nat.pow_le_pow_right (by omega) (by omega)))
      simp [hj, hbit]
  · simp [hj]

/-- Two words merged at byte `len`. -/
theorem merge_words (mem : Memory) (src dest : Nat) {len : Nat} (hlen : len ≤ 32) :
    (mload mem dest &&& (256 ^ (32 - len) - 1)) |||
        (mload mem src &&& (2 ^ 256 - 1 - (256 ^ (32 - len) - 1))) =
      ofBE (slice mem src len ++ slice mem (dest + len) (32 - len)) := by
  have hpow : (256 : Nat) ^ (32 - len) = 2 ^ (8 * (32 - len)) := by rw [Nat.pow_mul]
  have hsplit : ∀ ptr, mload mem ptr =
      ofBE (slice mem ptr len) * 256 ^ (32 - len) + ofBE (slice mem (ptr + len) (32 - len)) := by
    intro ptr
    have h := ofBE_append (slice mem ptr len) (slice mem (ptr + len) (32 - len))
    rwa [length_slice, ← slice_add, Nat.add_sub_cancel' hlen] at h
  have hlow : ∀ ptr, ofBE (slice mem (ptr + len) (32 - len)) < 256 ^ (32 - len) := by
    intro ptr
    simpa using ofBE_lt (slice mem (ptr + len) (32 - len))
  have hword : mload mem src < 2 ^ 256 := by
    have h := ofBE_lt (slice mem src 32)
    rw [length_slice] at h
    calc mload mem src < 256 ^ 32 := h
      _ = 2 ^ 256 := by norm_num
  have hpos : 0 < 256 ^ (32 - len) := Nat.pow_pos (by omega)
  have hdest : mload mem dest &&& (256 ^ (32 - len) - 1) =
      ofBE (slice mem (dest + len) (32 - len)) := by
    rw [hpow, Nat.and_two_pow_sub_one_eq_mod, ← hpow, hsplit dest, Nat.mul_comm,
      Nat.mul_add_mod, Nat.mod_eq_of_lt (hlow dest)]
  have hsrc : mload mem src &&& (2 ^ 256 - 1 - (256 ^ (32 - len) - 1)) =
      2 ^ (8 * (32 - len)) * ofBE (slice mem src len) := by
    have hdiv : mload mem src / 256 ^ (32 - len) = ofBE (slice mem src len) := by
      rw [hsplit src, Nat.mul_comm, Nat.mul_add_div hpos, Nat.div_eq_of_lt (hlow src),
        Nat.add_zero]
    rw [hpow] at hdiv ⊢
    rw [and_not_mask hword (by omega), hdiv, Nat.mul_comm]
  rw [hdest, hsrc, Nat.or_comm, ← Nat.two_pow_add_eq_or_of_lt (hpow ▸ hlow dest), ofBE_append,
    length_slice, hpow, Nat.mul_comm]

/-- The last word of a copy: it is read beyond the source and written beyond the
destination, and the mask takes care of both. -/
theorem mstore_merge (mem : Memory) (src dest i : Nat) {len : Nat} (hlen : len ≤ 32) :
    mstore mem dest (ofBE (slice mem src len ++ slice mem (dest + len) (32 - len))) i =
      if dest ≤ i ∧ i < dest + len then mem (src + (i - dest)) else mem i := by
  have hlength : (slice mem src len ++ slice mem (dest + len) (32 - len)).length = 32 := by
    rw [List.length_append, length_slice, length_slice, Nat.add_sub_cancel' hlen]
  by_cases hin : dest ≤ i ∧ i < dest + 32
  · obtain ⟨j, rfl⟩ := Nat.exists_eq_add_of_le hin.1
    rw [mstore_ofBE mem dest j hlength (by omega)]
    by_cases hj : j < len
    · rw [if_pos (by omega), List.getElem_append_left (by rwa [length_slice]), getElem_slice,
        Nat.add_sub_cancel_left]
    · rw [if_neg (by omega), List.getElem_append_right (by rw [length_slice]; omega),
        getElem_slice]
      congr 1
      rw [length_slice]
      omega
  · rw [mstore_outside _ _ _ _ (by omega), if_neg (by omega)]

/-- **The copy.** The bytes from `src` on appear at `dest` and nothing else changes, as long as
the source lies below the destination. -/
theorem copy_spec (len : Nat) (mem : Memory) (src dest : Nat) (h : src + len ≤ dest) (i : Nat) :
    copy mem src dest len i =
      if dest ≤ i ∧ i < dest + len then mem (src + (i - dest)) else mem i := by
  induction len using Nat.strongRecOn generalizing mem src dest with
  | ind len ih =>
      unfold copy
      split
      · next hword =>
          -- a whole word, then the rest
          simp only [WORD_SIZE] at hword ⊢
          rw [ih (len - 32) (by omega) _ _ _ (by omega)]
          by_cases hrest : dest + 32 ≤ i ∧ i < dest + len
          · rw [if_pos (by omega), if_pos (by omega), mstore_outside _ _ _ _ (by omega)]
            congr 1
            omega
          · rw [if_neg (by omega)]
            by_cases hfirst : dest ≤ i ∧ i < dest + 32
            · obtain ⟨j, rfl⟩ := Nat.exists_eq_add_of_le hfirst.1
              rw [mstore_mload _ _ _ _ _ (by omega), if_pos (by omega), Nat.add_sub_cancel_left]
            · rw [mstore_outside _ _ _ _ (by omega), if_neg (by omega)]
      · next hlast =>
          simp only [WORD_SIZE] at hlast ⊢
          rw [merge_words mem src dest (by omega)]
          exact mstore_merge mem src dest i (by omega)

theorem toBytes_read {mem : Memory} {free : Nat} {item : RLPItem} {s : Bytes}
    (h : Reads mem free item s) : toBytes mem free item = s := by
  obtain ⟨hlen, hpayload⟩ := h.payload
  obtain ⟨-, hwhole, -⟩ := item_encode h.small h.holds
  have hbelow : item.memPtr + payloadOffset mem item.memPtr + s.length ≤ free := by
    have := h.below
    rw [h.len] at this
    omega
  -- the payload stays as it was: the cleared bytes are behind it
  have hsource : slice (clear mem free s.length) (item.memPtr + payloadOffset mem item.memPtr)
      s.length = s := by
    conv_rhs => rw [← hpayload]
    refine slice_congr fun i hi => ?_
    rw [clear, if_neg (by omega)]
  rw [toBytes, hlen]
  conv_rhs => rw [← hsource]
  refine List.map_congr_left fun i hi => ?_
  rw [List.mem_range] at hi
  rw [copy_spec _ _ _ _ hbelow, if_pos (by omega), Nat.add_sub_cancel_left]

/-! ## Transactions -/

/-- A transaction before it is signed. With a chain id it has nine items, the last two empty
(EIP-155). -/
structure UnsignedTx where
  transaction : Transaction
  chainId : Option Word

/-- The items that follow the data. -/
def UnsignedTx.chainItems (tx : UnsignedTx) : List Bytes :=
  match tx.chainId with
  | some id => [natBytes id.toNat, [], []]
  | none => []

def UnsignedTx.items (tx : UnsignedTx) : List Bytes :=
  natBytes tx.transaction.nonce.toNat :: natBytes tx.transaction.gasPrice.toNat ::
    natBytes tx.transaction.gasLimit.toNat :: addressBytes tx.transaction.to ::
    natBytes tx.transaction.value.toNat :: tx.transaction.data :: tx.chainItems

/-- The canonical encoding. -/
def UnsignedTx.encode (tx : UnsignedTx) : Bytes := encodeList tx.items

/-- The transaction is short enough to have an encoding. -/
def UnsignedTx.Encodable (tx : UnsignedTx) : Prop := (payload tx.items).length < 2 ^ 64

theorem toUint_natBytes {mem : Memory} {stop : Nat} {item : RLPItem} (n : Word)
    (h : Reads mem stop item (natBytes n.toNat)) :
    BitVec.ofNat 256 (toUint mem item) = n := by
  have hlen : (natBytes n.toNat).length ≤ 32 := by
    rw [length_natBytes]
    refine byteLength_le ?_
    calc n.toNat < 2 ^ 256 := n.isLt
      _ = 256 ^ 32 := by norm_num
  rw [toUint_read h hlen, ofBE_natBytes, BitVec.ofNat_toNat, BitVec.setWidth_eq]

theorem toAddress_read {mem : Memory} {stop : Nat} {item : RLPItem} (a : Address)
    (h : Reads mem stop item (addressBytes a)) : toAddress mem item = .ok a := by
  have hlength : (addressBytes a).length = 20 := length_addressBytes a
  have hlen : item.len ≤ 21 := by
    have hshort := length_encodeString_le (s := addressBytes a) (by omega)
    rw [h.len]
    omega
  have hvalue : toUint mem item = a.toNat := by
    rw [toUint_read h (by omega), addressBytes, ofBE_toBE]
    refine Nat.mod_eq_of_lt ?_
    calc a.toNat < 2 ^ 160 := a.isLt
      _ = 256 ^ 20 := by norm_num
  rw [toAddress, if_pos hlen, hvalue, BitVec.ofNat_toNat, BitVec.setWidth_eq]

/-- **Decoding undoes encoding**, for every content and every place in memory. -/
theorem decodeTransaction_encode (tx : UnsignedTx) (h : tx.Encodable)
    (st : Stored tx.encode) : decodeTransaction st = .ok tx.transaction := by
  obtain ⟨values, hlist, hreads⟩ := @toList_encode tx.items h st
  -- the first six items are there, with or without a chain id
  unfold UnsignedTx.items at hreads
  simp only [List.forall₂_cons_right_iff] at hreads
  obtain ⟨nonce, _, hnonce, ⟨gasPrice, _, hgasPrice, ⟨gasLimit, _, hgasLimit, ⟨dest, _, hto,
    ⟨value, _, hvalue, ⟨data, _, hdata, -, rfl⟩, rfl⟩, rfl⟩, rfl⟩, rfl⟩, rfl⟩ := hreads
  have hlist' : toList st.mem (toRlpItem tx.encode st.ptr) = _ := hlist
  rw [decodeTransaction, hlist']
  simp only [valueAt, List.getElem?_cons_zero, List.getElem?_cons_succ, bind, Except.bind,
    toUint_natBytes _ hnonce, toUint_natBytes _ hgasPrice, toUint_natBytes _ hgasLimit,
    toUint_natBytes _ hvalue, toAddress_read _ hto, toBytes_read hdata]
  rfl

end RLPReader

end RifRelay
