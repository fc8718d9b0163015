import StackMachine.Fault

set_option autoImplicit false

/-! # Handlers

A handler is active while a protected region runs. It remembers where to continue when an
exception arrives, and the depths of the operand and the call stack to go back to.
-/

namespace StackMachine

/-- An active handler. -/
structure Handler where
  target : Nat
  stackPointer : Nat
  callDepth : Nat
  deriving DecidableEq, Repr

/-- The active handlers, outermost first. -/
structure Handlers where
  blocks : Array Handler := #[]
  deriving DecidableEq, Repr, Inhabited

namespace Handlers

/-- The number of active handlers. -/
def depth (h : Handlers) : Nat := h.blocks.size

/-- The handler that receives the next exception. -/
def innermost? (h : Handlers) : Option Handler := h.blocks.back?

/-- Enter a protected region. -/
def push (h : Handlers) (handler : Handler) : Handlers := ⟨h.blocks.push handler⟩

/-- The handlers without the innermost one. -/
def dropInnermost (h : Handlers) : Handlers := ⟨h.blocks.pop⟩

/-- Leave a protected region. -/
def pop : Action Handlers Handler := fun h =>
  match h.innermost? with
  | some handler => .ok handler h.dropInnermost
  | none => .error .emptyTryStack h

/-- Drop the handlers of calls deeper than `callDepth`. -/
def discardAbove (h : Handlers) (callDepth : Nat) : Handlers :=
  ⟨h.blocks.filter (·.callDepth ≤ callDepth)⟩

end Handlers

end StackMachine
