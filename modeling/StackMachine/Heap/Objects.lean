import StackMachine.Heap.Basic

set_option autoImplicit false

/-! # Objects on the heap

Arrays and texts start with their length as a word. The elements of an array are words:

    length | element 0 | element 1 | ...

A text is stored as UTF-8 with a zero byte after it, and its length counts bytes:

    length | byte 0 | byte 1 | ... | 0
-/

namespace StackMachine.Heap

/-- Allocate an array of zeros and return its address. -/
def allocateArray (length : Word) : Action Heap Word := do
  match Word.index? length with
  | none => throw (.invalidAllocationSize length)
  | some count =>
    let address := Word.ofIndex (← allocate (4 * count + 4))
    store32 address length
    return address

/-- The length of the object at an address. -/
def objectLength (h : Heap) (address : Word) : Except Fault Word := h.load32 address

/-- The address of an element of the array at an address. -/
def elementAddress (h : Heap) (address index : Word) : Except Fault Word := do
  let length ← h.objectLength address
  if 0 ≤ index ∧ index < length then
    let position := address.toInt + 4 + 4 * index.toInt
    match Word.ofInt? position with
    | some element => .ok element
    | none => .error (.invalidHeapAddress position 4)
  else .error (.indexOutOfBounds index length)

/-- The element of an array at an index. -/
def arrayGet (h : Heap) (address index : Word) : Except Fault Word := do
  h.load32 (← h.elementAddress address index)

/-- Replace the element of an array at an index. -/
def arraySet (address index value : Word) : Action Heap Unit := do
  let element ← Action.ofExcept ((← get).elementAddress address index)
  store32 element value

/-- The bytes of a text. -/
def textBytes (text : String) : List UInt8 := text.toUTF8.data.toList

/-- Allocate a text and return its address. -/
def allocateText (text : String) : Action Heap Word := do
  let content := textBytes text
  if content.length < Word.positions then
    let base ← allocate (4 + content.length + 1)
    modify fun h => { h with bytes := overwrite h.bytes (base + 4) content }
    let address := Word.ofIndex base
    store32 address (Word.ofIndex content.length)
    return address
  else throw (.invalidAllocationSize Int32.maxValue)

/-- The bytes of the text at an address. -/
def textAt (h : Heap) (address : Word) : Except Fault (List UInt8) := do
  match Word.index? (← h.objectLength address) with
  | none => .error (.invalidHeapAddress address.toInt 4)
  | some size =>
    match Word.ofInt? (address.toInt + 4) with
    | none => .error (.invalidHeapAddress address.toInt size)
    | some content => h.slice content size

/-- The text at an address, each byte read as the character with that code. -/
def readText (h : Heap) (address : Word) : Except Fault String := do
  return String.ofList ((← h.textAt address).map fun b => Char.ofNat b.toNat)

end StackMachine.Heap
