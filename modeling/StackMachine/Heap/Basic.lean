import StackMachine.Fault

set_option autoImplicit false

/-! # The heap

A fixed number of bytes with an allocation cursor. Allocating moves the cursor; nothing is ever
freed. Loads and stores are checked against the capacity only, so they may also touch bytes
beyond the cursor; an allocation zeroes the bytes it hands out. Words are stored with their low
byte first.
-/

namespace StackMachine

namespace Word

/-- The byte of a word with the weight `256 ^ k`. -/
def byte (w : Word) (k : Nat) : UInt8 := UInt8.ofNat (w.toUInt32.toNat / Nat.pow 256 k)

/-- The bytes of a word, low byte first. -/
def bytes (w : Word) : List UInt8 := [byte w 0, byte w 1, byte w 2, byte w 3]

/-- The word with the given bytes, low byte first. -/
def ofBytes (b₀ b₁ b₂ b₃ : UInt8) : Word :=
  Word.ofIndex (b₀.toNat + 256 * b₁.toNat + 65536 * b₂.toNat + 16777216 * b₃.toNat)

end Word

/-- Bytes and the position of the next allocation. -/
structure Heap where
  bytes : Array UInt8
  cursor : Nat := 0
  deriving DecidableEq, Repr, Inhabited

namespace Heap

/-- A heap of zero bytes. -/
def zeroed (capacity : Nat) : Heap where
  bytes := Array.replicate capacity 0

/-- The number of bytes. -/
def capacity (h : Heap) : Nat := h.bytes.size

/-- The number of bytes that can still be allocated. -/
def remaining (h : Heap) : Nat := h.capacity - h.cursor

/-- The byte at a position; zero outside the heap. -/
def byteAt (h : Heap) (i : Nat) : UInt8 := h.bytes.getD i 0

/-- Replace the bytes from a position on. -/
def overwrite (bytes : Array UInt8) (start : Nat) : List UInt8 → Array UInt8
  | [] => bytes
  | b :: bs => overwrite (bytes.setIfInBounds start b) (start + 1) bs

/-- Zero `count` bytes from a position on. -/
def erase (bytes : Array UInt8) (start : Nat) : Nat → Array UInt8
  | 0 => bytes
  | count + 1 => erase (bytes.setIfInBounds start 0) (start + 1) count

/-- Hand out `size` zeroed bytes and return the position of the first. -/
def allocate (size : Nat) : Action Heap Nat := fun h =>
  if h.cursor + size ≤ h.bytes.size then
    .ok h.cursor { bytes := erase h.bytes h.cursor size, cursor := h.cursor + size }
  else .error (.heapOverflow size h.remaining) h

/-- The position of an access of `size` bytes, if it lies inside the heap. -/
def locate (h : Heap) (address : Word) (size : Nat) : Except Fault Nat :=
  match Word.index? address with
  | some start =>
    if start + size ≤ h.capacity then .ok start
    else .error (.invalidHeapAddress address.toInt size)
  | none => .error (.invalidHeapAddress address.toInt size)

/-- Replace the bytes at an address. -/
def write (address : Word) (content : List UInt8) : Action Heap Unit := fun h =>
  match h.locate address content.length with
  | .ok start => .ok () { h with bytes := overwrite h.bytes start content }
  | .error fault => .error fault h

/-- The byte at an address, as a word from 0 to 255. -/
def load8 (h : Heap) (address : Word) : Except Fault Word := do
  let i ← h.locate address 1
  return Word.ofIndex (h.byteAt i).toNat

/-- The word at an address. -/
def load32 (h : Heap) (address : Word) : Except Fault Word := do
  let i ← h.locate address 4
  return Word.ofBytes (h.byteAt i) (h.byteAt (i + 1)) (h.byteAt (i + 2)) (h.byteAt (i + 3))

/-- Store the low byte of a word. -/
def store8 (address value : Word) : Action Heap Unit := write address [Word.byte value 0]

/-- Store a word. -/
def store32 (address value : Word) : Action Heap Unit := write address (Word.bytes value)

/-- The `size` bytes at an address. -/
def slice (h : Heap) (address : Word) (size : Nat) : Except Fault (List UInt8) := do
  let start ← h.locate address size
  return (h.bytes.extract start (start + size)).toList

/-- A heap of the same capacity with every byte zero and nothing allocated. -/
def reset (h : Heap) : Heap := zeroed h.capacity

end Heap

end StackMachine
