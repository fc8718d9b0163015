import StackMachine.Fault

set_option autoImplicit false

/-! # The call stack

A frame records where a call returns to, how deep the operand stack was at the call, and the
first local slot of the callee. The frame at depth `n` owns the window of local slots from
`n * slotsPerFrame` on, so the windows of active frames never overlap.
-/

namespace StackMachine

/-- An active call. -/
structure Frame where
  returnAddress : Nat
  stackPointer : Nat
  base : Nat
  deriving DecidableEq, Repr

/-- At most `maxDepth` active calls, outermost first. -/
structure CallStack where
  frames : Array Frame := #[]
  slotsPerFrame : Nat
  maxDepth : Nat
  deriving DecidableEq, Repr, Inhabited

namespace CallStack

/-- The number of active calls. -/
def depth (c : CallStack) : Nat := c.frames.size

/-- Enter a call. -/
def push (returnAddress stackPointer : Nat) : Action CallStack Frame := fun c =>
  if c.frames.size < c.maxDepth then
    let frame : Frame := ⟨returnAddress, stackPointer, c.frames.size * c.slotsPerFrame⟩
    .ok frame { c with frames := c.frames.push frame }
  else .error (.callStackOverflow c.maxDepth) c

/-- Leave the innermost call. -/
def pop : Action CallStack Frame := fun c =>
  match c.frames.back? with
  | some frame => .ok frame { c with frames := c.frames.pop }
  | none => .error .emptyCallStack c

/-- The innermost call, whose window local accesses use. -/
def top (c : CallStack) : Except Fault Frame :=
  match c.frames.back? with
  | some frame => .ok frame
  | none => .error .noActiveFrame

/-- The calls deeper than `depth`, innermost first. -/
def above (c : CallStack) (depth : Nat) : List Frame := (c.frames.toList.drop depth).reverse

/-- Leave all calls deeper than `depth`. -/
def unwindTo (c : CallStack) (depth : Nat) : CallStack :=
  { c with frames := c.frames.shrink depth }

/-- A position followed by the return addresses, innermost first. -/
def trace (c : CallStack) (pc : Nat) : List Nat :=
  pc :: c.frames.toList.reverse.map Frame.returnAddress

/-- Leave all calls. -/
def clear (c : CallStack) : CallStack := { c with frames := #[] }

end CallStack

end StackMachine
