import RifRelay.Basic.Bytes

set_option autoImplicit false

/-! # `RLPReader`

The reader of RLP-encoded transactions, on memory as the contract sees it: a byte for
every address, read and written a word at a time, with pointers into it instead of byte
strings. What lies behind the encoded bytes is arbitrary, and the functions do read it:
`mload` always takes 32 bytes.

Pointers are natural numbers. The lengths an item can claim have at most eight bytes, so
no pointer computed here leaves the range of `uint` when the transaction is in memory.
-/

namespace RifRelay

open BigEndian

namespace RLPReader

/-- Why reading fails: a `require`, or an index out of bounds, which is an invalid opcode. -/
inductive Failure
  | require (reason : String)
  | invalid
deriving DecidableEq

def STRING_SHORT_START : Nat := 0x80
def STRING_LONG_START : Nat := 0xb8
def LIST_SHORT_START : Nat := 0xc0
def LIST_LONG_START : Nat := 0xf8
def WORD_SIZE : Nat := 32

/-! ## Memory -/

abbrev Memory := Nat → UInt8

/-- The `n` bytes at `ptr`. -/
def slice (mem : Memory) (ptr n : Nat) : Bytes := (List.range n).map fun i => mem (ptr + i)

/-- The word at `ptr`, as a number. -/
def mload (mem : Memory) (ptr : Nat) : Nat := ofBE (slice mem ptr 32)

/-- Write a word at `ptr`. -/
def mstore (mem : Memory) (ptr v : Nat) : Memory := fun i =>
  if ptr ≤ i ∧ i < ptr + 32 then (toBE 32 v).getD (i - ptr) 0 else mem i

/-- `new bytes(len)` at `ptr`: the bytes are cleared. -/
def clear (mem : Memory) (ptr len : Nat) : Memory := fun i =>
  if ptr ≤ i ∧ i < ptr + len then 0 else mem i

/-- `exp(256, e)` of the virtual machine: from the 32nd power on it is `0`. -/
def exp256 (e : Nat) : Nat := if e < 32 then 256 ^ e else 0

/-- `sub(32, n)` of the virtual machine. -/
def sub32 (n : Nat) : Nat := if n ≤ 32 then 32 - n else 2 ^ 256 + 32 - n

/-- `div` of the virtual machine: division by `0` gives `0`, as it does here. -/
def div (a b : Nat) : Nat := a / b

/-- `byte(0, mload(ptr))`. -/
def byte0 (mem : Memory) (ptr : Nat) : Nat := mload mem ptr / 256 ^ 31

structure RLPItem where
  len : Nat
  memPtr : Nat
deriving DecidableEq

/-! ## Items -/

/-- The length of the whole item at `memPtr`. -/
def itemLength (mem : Memory) (memPtr : Nat) : Nat :=
  let b := byte0 mem memPtr
  if b < STRING_SHORT_START then 1
  else if b < STRING_LONG_START then b - STRING_SHORT_START + 1
  else if b < LIST_SHORT_START then
    -- a long string: its length takes `byteLen` bytes
    let byteLen := b - 0xb7
    let dataLen := div (mload mem (memPtr + 1)) (exp256 (sub32 byteLen))
    dataLen + (byteLen + 1)
  else if b < LIST_LONG_START then b - LIST_SHORT_START + 1
  else
    -- a long list
    let byteLen := b - 0xf7
    let dataLen := div (mload mem (memPtr + 1)) (exp256 (sub32 byteLen))
    dataLen + (byteLen + 1)

/-- The number of bytes until the payload of the item at `memPtr`. -/
def payloadOffset (mem : Memory) (memPtr : Nat) : Nat :=
  let b := byte0 mem memPtr
  if b < STRING_SHORT_START then 0
  else if b < STRING_LONG_START ∨ (LIST_SHORT_START ≤ b ∧ b < LIST_LONG_START) then 1
  else if b < LIST_SHORT_START then b - (STRING_LONG_START - 1) + 1
  else b - (LIST_LONG_START - 1) + 1

/-- The item a byte string in memory is; an empty one has no place in memory. -/
def toRlpItem (item : Bytes) (ptr : Nat) : RLPItem :=
  if item.length = 0 then ⟨0, 0⟩ else ⟨item.length, ptr⟩

def isList (mem : Memory) (item : RLPItem) : Bool :=
  LIST_SHORT_START ≤ byte0 mem item.memPtr

/-- An item is never empty, so the loops over the items of a list end. -/
theorem itemLength_pos (mem : Memory) (memPtr : Nat) : 0 < itemLength mem memPtr := by
  unfold itemLength
  simp only
  split_ifs <;> omega

/-- The loop of `numItems`. -/
def countItems (mem : Memory) (currPtr endPtr count : Nat) : Nat :=
  if h : currPtr < endPtr then
    countItems mem (currPtr + itemLength mem currPtr) endPtr (count + 1)
  else count
termination_by endPtr - currPtr
decreasing_by
  have := itemLength_pos mem currPtr
  omega

def numItems (mem : Memory) (item : RLPItem) : Nat :=
  countItems mem (item.memPtr + payloadOffset mem item.memPtr) (item.memPtr + item.len) 0

/-- The loop of `toList`. -/
def collectItems (mem : Memory) : Nat → Nat → List RLPItem
  | 0, _ => []
  | items + 1, memPtr =>
      let dataLen := itemLength mem memPtr
      ⟨dataLen, memPtr⟩ :: collectItems mem items (memPtr + dataLen)

def toList (mem : Memory) (item : RLPItem) : Except Failure (List RLPItem) :=
  if isList mem item then
    .ok (collectItems mem (numItems mem item) (item.memPtr + payloadOffset mem item.memPtr))
  else .error (.require "isList failed")

/-! ## Conversions -/

def toUint (mem : Memory) (item : RLPItem) : Nat :=
  let offset := payloadOffset mem item.memPtr
  let len := item.len - offset
  div (mload mem (item.memPtr + offset)) (exp256 (sub32 len))

def toAddress (mem : Memory) (item : RLPItem) : Except Failure Address :=
  if item.len ≤ 21 then .ok (BitVec.ofNat 160 (toUint mem item))
  else .error (.require "Invalid RLPItem. Addresses are encoded in 20 bytes or less")

/-- Copy `len` bytes a word at a time; the last word is merged with what `dest` holds. -/
def copy (mem : Memory) (src dest len : Nat) : Memory :=
  if WORD_SIZE ≤ len then
    copy (mstore mem dest (mload mem src)) (src + WORD_SIZE) (dest + WORD_SIZE)
      (len - WORD_SIZE)
  else
    -- `256 ** (WORD_SIZE - len) - 1`; for `len = 0` the power wraps and all bits are set
    let mask := 256 ^ (WORD_SIZE - len) - 1
    let srcpart := mload mem src &&& (2 ^ 256 - 1 - mask)
    let destpart := mload mem dest &&& mask
    mstore mem dest (destpart ||| srcpart)
termination_by len
decreasing_by
  simp only [WORD_SIZE] at *
  omega

/-- The payload of an item, copied to freshly cleared memory at `free`. -/
def toBytes (mem : Memory) (free : Nat) (item : RLPItem) : Bytes :=
  let offset := payloadOffset mem item.memPtr
  let len := item.len - offset
  slice (copy (clear mem free len) (item.memPtr + offset) free len) free len

/-! ## Transactions -/

structure Transaction where
  nonce : Word
  gasPrice : Word
  gasLimit : Word
  «to» : Address
  value : Word
  data : Bytes
deriving DecidableEq

/-- A byte string in memory: it starts at `ptr`, and memory is free from `free` on. -/
structure Stored (raw : Bytes) where
  mem : Memory
  ptr : Nat
  free : Nat
  holds : slice mem ptr raw.length = raw
  below : ptr + raw.length ≤ free

/-- An argument kept at the start of the memory, with nothing behind it. -/
def Stored.atStart (raw : Bytes) : Stored raw where
  mem := fun i => raw.getD i 0
  ptr := 0
  free := raw.length
  holds := by
    refine List.ext_getElem (by simp [slice]) fun i h₁ h₂ => ?_
    simp [slice, List.getD_eq_getElem?_getD, List.getElem?_eq_getElem h₂]
  below := by omega

/-- `values[i]`. -/
def valueAt (values : List RLPItem) (i : Nat) : Except Failure RLPItem :=
  match values[i]? with
  | some item => .ok item
  | none => .error .invalid

/-- Decode a transaction. -/
def decodeTransaction {raw : Bytes} (s : Stored raw) : Except Failure Transaction := do
  let values ← toList s.mem (toRlpItem raw s.ptr)
  let nonce ← valueAt values 0
  let gasPrice ← valueAt values 1
  let gasLimit ← valueAt values 2
  let dest ← (valueAt values 3).bind (toAddress s.mem)
  let value ← valueAt values 4
  let data ← valueAt values 5
  return {
    nonce := BitVec.ofNat 256 (toUint s.mem nonce)
    gasPrice := BitVec.ofNat 256 (toUint s.mem gasPrice)
    gasLimit := BitVec.ofNat 256 (toUint s.mem gasLimit)
    «to» := dest
    value := BitVec.ofNat 256 (toUint s.mem value)
    data := toBytes s.mem s.free data }

end RLPReader

end RifRelay
