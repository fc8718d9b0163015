import StackMachine.Debugger.Breakpoint
import StackMachine.Debugger.Trace
import StackMachine.Debugger.Watch

set_option autoImplicit false

/-! # The debugger

The debugger decides before each instruction whether the run pauses there. It pauses at an
enabled breakpoint, and when the condition of the step mode holds and at least one instruction
was executed since the run was resumed. The breakpoint at the position of the last pause is
passed over when the run is resumed there.
-/

namespace StackMachine

/-- When a run pauses between breakpoints: never, before the next instruction, before the next
instruction of a call not deeper than `depth`, or of a call less deep than `depth`. -/
inductive StepMode where
  | run
  | stepInto
  | stepOver (depth : Nat)
  | stepOut (depth : Nat)
  deriving DecidableEq, Repr

/-- Whether a step mode asks for a pause at a call depth. -/
def StepMode.isDone (mode : StepMode) (callDepth : Nat) : Bool :=
  match mode with
  | run => false
  | stepInto => true
  | stepOver depth => callDepth ≤ depth
  | stepOut depth => callDepth < depth

/-- What the debugger knows. `moved` tells whether an instruction was executed since the run was
resumed, and `pausedAt` where the last pause was. -/
structure Debugger where
  breakpoints : BreakpointTable := {}
  watches : WatchList := {}
  mode : StepMode := .run
  pauseOnException : Bool := false
  paused : Bool := false
  trace : Trace
  moved : Bool := false
  pausedAt : Option Nat := none
  deriving DecidableEq, Repr

namespace Debugger

/-- A debugger that keeps at most `maxTraceLength` records. -/
def new (maxTraceLength : Nat) : Debugger where
  trace := { capacity := maxTraceLength }

/-- Note that a run starts or is resumed. A fresh run forgets the last pause and the records. -/
def beginRun (d : Debugger) (fresh : Bool) : Debugger :=
  if fresh then
    { d with moved := false, paused := false, pausedAt := none, trace := d.trace.clear }
  else { d with moved := false, paused := false }

/-- Why the run pauses before the instruction at `pc`, if it does. -/
def check (d : Debugger) (pc callDepth : Nat) : Option Reason :=
  let resumedHere := !d.moved && d.pausedAt = some pc
  if !resumedHere && d.breakpoints.isActive pc then some (.breakpoint pc)
  else if d.moved && d.mode.isDone callDepth then some .step
  else none

/-- Note that an instruction was executed. -/
def instructionExecuted (d : Debugger) : Debugger := { d with moved := true }

/-- Keep a record. -/
def record (d : Debugger) (r : Record) : Debugger := { d with trace := d.trace.push r }

/-- Pause: count the hit of a breakpoint, go back to running freely, and keep the record. -/
def recordPause (d : Debugger) (r : Record) : Debugger :=
  let breakpoints :=
    match r.reason with
    | .breakpoint address => d.breakpoints.recordHit address
    | _ => d.breakpoints
  { d with breakpoints, paused := true, mode := .run, pausedAt := some r.pc }.record r

/-- The record of the pause the run stands at. -/
def lastPause? (d : Debugger) : Option Record := if d.paused then d.trace.lastPause? else none

/-- Forget the run; breakpoints, watches and settings stay. -/
def reset (d : Debugger) : Debugger :=
  { d with mode := .run, paused := false, trace := d.trace.clear, moved := false, pausedAt := none }

end Debugger

end StackMachine
