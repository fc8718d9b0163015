import StackMachine.Fault

set_option autoImplicit false

/-! # Slot memory

Two fixed arrays of words: globals, addressed directly, and locals, addressed by an offset into
the window of a frame. An offset outside the window is refused, so no call reaches the locals
of another. Addresses in faults are signed 64-bit numbers.
-/

namespace StackMachine

/-- The global slots and the windows of local slots. -/
structure Memory where
  globals : Array Word
  locals : Array Word
  slotsPerFrame : Nat
  deriving DecidableEq, Repr, Inhabited

namespace Memory

/-- Zeroed memory with room for the windows of `maxFrames` calls. -/
def zeroed (globalSlots slotsPerFrame maxFrames : Nat) : Memory where
  globals := Array.replicate globalSlots 0
  locals := Array.replicate (slotsPerFrame * maxFrames) 0
  slotsPerFrame := slotsPerFrame

/-- The fault for a slot number, shown as a signed 64-bit number. -/
def invalidSlot (address : Int) : Fault := .invalidMemoryAddress (Int.bmod address sizeBound)

/-- The index of a global slot. -/
def globalIndex (m : Memory) (address : Word) : Except Fault Nat :=
  match Word.index? address with
  | some i => if i < m.globals.size then .ok i else .error (invalidSlot address.toInt)
  | none => .error (invalidSlot address.toInt)

/-- The index of a local slot in the window that starts at `base`. -/
def localIndex (m : Memory) (base : Nat) (offset : Word) : Except Fault Nat :=
  match Word.index? offset with
  | some i =>
    if i < m.slotsPerFrame ∧ base + i < m.locals.size then .ok (base + i)
    else .error (invalidSlot (base + offset.toInt))
  | none => .error (invalidSlot (base + offset.toInt))

/-- The word in a global slot. -/
def loadGlobal (m : Memory) (address : Word) : Except Fault Word := do
  return m.globals.getD (← m.globalIndex address) 0

/-- The word in a local slot. -/
def loadLocal (m : Memory) (base : Nat) (offset : Word) : Except Fault Word := do
  return m.locals.getD (← m.localIndex base offset) 0

/-- Replace the word in a global slot. -/
def storeGlobal (address value : Word) : Action Memory Unit := fun m =>
  match m.globalIndex address with
  | .ok i => .ok () { m with globals := m.globals.setIfInBounds i value }
  | .error fault => .error fault m

/-- Replace the word in a local slot. -/
def storeLocal (base : Nat) (offset value : Word) : Action Memory Unit := fun m =>
  match m.localIndex base offset with
  | .ok i => .ok () { m with locals := m.locals.setIfInBounds i value }
  | .error fault => .error fault m

/-- The part of the window at `base` that exists. -/
def window (m : Memory) (base : Nat) : Array Word :=
  m.locals.extract base (base + m.slotsPerFrame)

/-- Memory of the same shape with every slot zero. -/
def clear (m : Memory) : Memory :=
  { m with
    globals := Array.replicate m.globals.size 0
    locals := Array.replicate m.locals.size 0 }

end Memory

end StackMachine
