import StackMachine.Opcode

set_option autoImplicit false

/-! # Traces

A record shows a run between two instructions. A trace keeps the most recent records.
-/

namespace StackMachine

/-- Why a record was taken. -/
inductive Reason where
  | breakpoint (address : Nat)
  | step
  | exception (value : Word) (trace : List Nat)
  | instruction
  deriving DecidableEq, Repr

/-- A run before the instruction at `pc`. -/
structure Record where
  pc : Nat
  opcode : Option Opcode
  stack : Array Word
  callDepth : Nat
  reason : Reason
  deriving DecidableEq, Repr

/-- Records, the most recent first. Those beyond the capacity do not count; they are dropped
once there are as many of them as the trace can keep. -/
structure Trace where
  capacity : Nat
  recent : List Record := []
  stored : Nat := 0
  deriving DecidableEq, Repr

namespace Trace

/-- The records that count, the most recent first. -/
def newestFirst (t : Trace) : List Record := t.recent.take t.capacity

/-- The records that count, in the order in which they were taken. -/
def records (t : Trace) : List Record := t.newestFirst.reverse

/-- Add a record. -/
def push (t : Trace) (record : Record) : Trace :=
  if t.stored < 2 * t.capacity then
    { t with recent := record :: t.recent, stored := t.stored + 1 }
  else { t with recent := (record :: t.recent).take t.capacity, stored := t.capacity }

/-- Forget all records. -/
def clear (t : Trace) : Trace := { t with recent := [], stored := 0 }

/-- The most recent record of a pause. -/
def lastPause? (t : Trace) : Option Record := t.newestFirst.find? (·.reason ≠ .instruction)

end Trace

end StackMachine
