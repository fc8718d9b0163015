import StackMachine.CallStack
import StackMachine.Memory

set_option autoImplicit false

/-! # Watches

A watch names a global slot, or a local slot of whichever call is innermost. Watches have
distinct names and are evaluated on demand.
-/

namespace StackMachine

/-- What the address of a watch refers to. -/
inductive WatchKind where
  | frameSlot
  | globalSlot
  deriving DecidableEq, Repr

/-- A watched slot. -/
structure Watch where
  name : String
  kind : WatchKind
  address : Word
  deriving DecidableEq, Repr

/-- The word in the watched slot, if the slot exists now. -/
def Watch.value? (w : Watch) (memory : Memory) (calls : CallStack) : Option Word :=
  match w.kind with
  | .globalSlot => (memory.loadGlobal w.address).toOption
  | .frameSlot => do
    let frame ← calls.top.toOption
    (memory.loadLocal frame.base w.address).toOption

/-- Watches in the order in which they were added. -/
structure WatchList where
  watches : List Watch := []
  deriving DecidableEq, Repr

namespace WatchList

/-- Whether a watch has a name. -/
def contains (l : WatchList) (name : String) : Bool := l.watches.any (·.name = name)

/-- Add a watch; it takes the place of one with the same name. -/
def add (l : WatchList) (watch : Watch) : WatchList :=
  if l.contains watch.name then
    ⟨l.watches.map fun w => if w.name = watch.name then watch else w⟩
  else ⟨l.watches ++ [watch]⟩

/-- Remove the watch with a name. -/
def remove (l : WatchList) (name : String) : WatchList :=
  ⟨l.watches.filter (·.name ≠ name)⟩

/-- Every watch with its value. -/
def evaluate (l : WatchList) (memory : Memory) (calls : CallStack) : List (Watch × Option Word) :=
  l.watches.map fun w => (w, w.value? memory calls)

end WatchList

end StackMachine
