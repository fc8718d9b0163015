import StackMachine.Fault

set_option autoImplicit false

/-! # The operand stack

A stack of words with a limit on its depth. Values are listed from bottom to top.
-/

namespace StackMachine

/-- A stack that holds at most `limit` words, bottom first. -/
structure OperandStack where
  values : Array Word := #[]
  limit : Nat
  deriving DecidableEq, Repr, Inhabited

namespace OperandStack

/-- The number of words on the stack. -/
def depth (s : OperandStack) : Nat := s.values.size

/-- The topmost word. -/
def peek? (s : OperandStack) : Option Word := s.values.back?

/-- Put a word on the stack. -/
def push (w : Word) : Action OperandStack Unit := fun s =>
  if s.values.size < s.limit then .ok () { s with values := s.values.push w }
  else .error (.stackOverflow s.limit) s

/-- Take the topmost word. -/
def pop : Action OperandStack Word := fun s =>
  match s.values.back? with
  | some w => .ok w { s with values := s.values.pop }
  | none => .error .stackUnderflow s

/-- Take the right and then the left operand of a binary operation. -/
def popPair : Action OperandStack (Word × Word) := do
  let right ← pop
  let left ← pop
  return (left, right)

/-- Discard everything above a depth. -/
def truncate (s : OperandStack) (depth : Nat) : OperandStack :=
  { s with values := s.values.shrink depth }

/-- Discard everything. -/
def clear (s : OperandStack) : OperandStack := { s with values := #[] }

end OperandStack

end StackMachine
