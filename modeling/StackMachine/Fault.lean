import StackMachine.Opcode

set_option autoImplicit false

/-! # Faults

What can go wrong while a program runs. Every fault has a wording and a negative code; inside a
protected region a fault that can be caught is delivered to the handler as its code.

An `Action` is a computation that changes a component of the machine and may stop with a fault.
A failing action keeps the changes it made before the fault.
-/

namespace StackMachine

/-- What went wrong. -/
inductive Fault where
  | stackUnderflow
  | stackOverflow (limit : Nat)
  | callStackOverflow (limit : Nat)
  | invalidMemoryAddress (address : Int)
  | invalidHeapAddress (address : Int) (size : Nat)
  | heapOverflow (requested available : Nat)
  | invalidAllocationSize (size : Word)
  | indexOutOfBounds (index length : Word)
  | unknownOpcode (value : Word)
  | missingOperand (opcode : Opcode)
  | invalidJumpTarget (target : Word)
  | emptyCallStack
  | noActiveFrame
  | emptyTryStack
  | noInputAvailable
  | unknownBuiltin (id : Word)
  | divisionByZero
  | uncaughtException (value : Word) (trace : List Nat)
  | instructionBudgetExhausted
  deriving DecidableEq, Repr

namespace Fault

/-- The wording of a fault. -/
def message : Fault → String
  | stackUnderflow => "Stack underflow"
  | stackOverflow limit => s!"Stack overflow: limit is {limit} values"
  | callStackOverflow limit => s!"Call stack overflow: limit is {limit} frames"
  | invalidMemoryAddress address => s!"Invalid memory address: {address}"
  | invalidHeapAddress address size => s!"Invalid heap address: {address} (access of {size} bytes)"
  | heapOverflow requested available =>
    s!"Heap overflow: requested {requested} bytes, {available} available"
  | invalidAllocationSize size => s!"Invalid allocation size: {size.text}"
  | indexOutOfBounds index length => s!"Index {index.text} out of bounds for length {length.text}"
  | unknownOpcode value => s!"Unknown opcode: {value.text}"
  | missingOperand opcode => s!"Missing operand for {opcode.mnemonic}"
  | invalidJumpTarget target => s!"Invalid jump target: {target.text}"
  | emptyCallStack => "Return with empty call stack"
  | noActiveFrame => "No active frame for local access"
  | emptyTryStack => "No active try block"
  | noInputAvailable => "No input available"
  | unknownBuiltin id => s!"Unknown builtin: {id.text}"
  | divisionByZero => "Division by zero"
  | uncaughtException value _ => s!"Uncaught exception: {value.text}"
  | instructionBudgetExhausted => "Instruction budget exhausted"

/-- The number of a fault, which is also the value its handler receives. -/
def code : Fault → Word
  | stackUnderflow => -1
  | stackOverflow _ => -2
  | callStackOverflow _ => -3
  | invalidMemoryAddress _ => -4
  | invalidHeapAddress _ _ => -5
  | heapOverflow _ _ => -6
  | invalidAllocationSize _ => -7
  | indexOutOfBounds _ _ => -8
  | unknownOpcode _ => -9
  | missingOperand _ => -10
  | invalidJumpTarget _ => -11
  | emptyCallStack => -12
  | noActiveFrame => -13
  | emptyTryStack => -14
  | noInputAvailable => -15
  | unknownBuiltin _ => -16
  | divisionByZero => -17
  | uncaughtException _ _ => -18
  | instructionBudgetExhausted => -19

/-- Whether a handler can receive the fault. Malformed code, escaped exceptions and an exhausted
budget always end the run. -/
def isCatchable : Fault → Bool
  | unknownOpcode _ | missingOperand _ | invalidJumpTarget _ | uncaughtException _ _
  | instructionBudgetExhausted => false
  | _ => true

end Fault

/-- A fault that ended a run: where it happened, and the opcode there if the slot has one. -/
structure Failure where
  pc : Nat
  opcode : Option Opcode
  fault : Fault
  deriving DecidableEq, Repr

namespace Failure

/-- The name of the failing opcode. -/
def opcodeName (f : Failure) : String := (f.opcode.map Opcode.mnemonic).getD "?"

/-- The wording of a failure. -/
def message (f : Failure) : String := s!"{f.fault.message} at pc {f.pc} ({f.opcodeName})"

end Failure

/-- A computation on `σ` that may stop with a fault, keeping what it changed so far. -/
abbrev Action (σ α : Type) := EStateM Fault σ α

namespace Action

/-- Continue with a value, or stop with a fault. -/
def ofExcept {σ α : Type} : Except Fault α → Action σ α
  | .ok a => pure a
  | .error fault => throw fault

/-- Run an action on a part of the state. The part is taken out of the state while the action
runs, so that nothing else refers to it and it can be changed in place. -/
@[inline] def within {σ τ α : Type} [Inhabited τ] (part : σ → τ) (replace : σ → τ → σ)
    (action : Action τ α) : Action σ α := fun s =>
  let t := part s
  let s := replace s default
  match action t with
  | .ok a t => .ok a (replace s t)
  | .error fault t => .error fault (replace s t)

end Action

end StackMachine
