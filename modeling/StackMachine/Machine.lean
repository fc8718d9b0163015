import StackMachine.Debugger.Basic
import StackMachine.Execution.Step

set_option autoImplicit false

/-! # The machine

A machine holds a program, the state of its run and a debugger. It is driven by calls that
start a run or resume it; a call ends when the run halts, pauses or fails. Since a program need
not end, a call is carried out turn by turn: `Machine.begin` prepares it, and
`Machine.proceed` takes at most a given number of turns and can be called again until there is
an outcome.
-/

namespace StackMachine

/-- How a call of the machine ended. -/
inductive Outcome where
  | halted (output : Array Word)
  | paused (record : Record)
  | failed (failure : Failure)
  deriving DecidableEq, Repr

/-- The calls that drive a machine: start afresh, resume in the current step mode, resume
freely, or resume for one step into, over or out of a call. -/
inductive DrivingCall where
  | start
  | resume
  | proceed
  | stepInto
  | stepOver
  | stepOut
  deriving DecidableEq, Repr

/-- The step mode that a call asks for at a call depth, if it sets one. -/
def DrivingCall.mode? (call : DrivingCall) (callDepth : Nat) : Option StepMode :=
  match call with
  | .start | .resume => none
  | .proceed => some .run
  | .stepInto => some .stepInto
  | .stepOver => some (.stepOver callDepth)
  | .stepOut => some (.stepOut callDepth)

/-- A program with its limits and builtins, the state of its run, and a debugger. -/
structure Machine where
  config : Config
  environment : Environment := {}
  state : State
  debugger : Debugger

namespace Machine

/-- A machine with the standard builtins and no program, whether its limits are usable or not. -/
def ofConfig (config : Config) : Machine where
  config := config
  state := State.initial config []
  debugger := Debugger.new config.maxTraceLength

/-- A machine with the standard builtins and no program. -/
def create (config : Config) : Except Config.Problem Machine := do
  return ofConfig (← config.check)

/-- Go back to the state before the first instruction. Waiting input, breakpoints, watches and
settings stay. -/
def reset (m : Machine) : Machine :=
  { m with
    state := m.state.clear
    debugger := m.debugger.reset }

/-- Replace the program and reset the machine. -/
def load (m : Machine) (code : Program) : Machine :=
  { m with environment := { m.environment with code } }.reset

/-- Add words to the waiting input. -/
def provideInput (m : Machine) (words : List Word) : Machine :=
  { m with state := { m.state with input := m.state.input ++ words } }

/-- Register a builtin. -/
def registerBuiltin (m : Machine) (id : Word) (builtin : Builtin) : Machine :=
  { m with
    environment :=
      { m.environment with builtins := m.environment.builtins.register id builtin } }

/-- The current position followed by the return addresses; while the machine is paused on an
exception, the trace at the instruction that raised it. -/
def stackTrace (m : Machine) : List Nat :=
  match m.state.escape with
  | some e => e.trace
  | none => m.state.calls.trace m.state.pc

/-- Every watch with its value. -/
def evaluateWatches (m : Machine) : List (Watch × Option Word) :=
  m.debugger.watches.evaluate m.state.memory m.state.calls

/-- A record of the current position. -/
def snapshot (m : Machine) (reason : Reason) : Record where
  pc := m.state.pc
  opcode := m.environment.code.opcodeAt? m.state.pc
  stack := m.state.stack.values
  callDepth := m.state.calls.depth
  reason := reason

/-- Pause with a record. -/
def pause (m : Machine) (record : Record) : Outcome × Machine :=
  (.paused record, { m with debugger := m.debugger.recordPause record })

/-- The record of a pause on an escaped exception. -/
def escapeRecord (m : Machine) (e : Escape) : Record where
  pc := e.pc
  opcode := some .throw
  stack := m.state.stack.values
  callDepth := m.state.calls.depth
  reason := .exception e.value e.trace

/-- End the run with an exception that no handler receives. -/
def abandon (m : Machine) (e : Escape) : Failure × Machine :=
  let (failure, state) := m.state.abandon e
  (failure, { m with state })

/-- Act on an exception that no handler receives: pause on it, or end the run. -/
def escaped (m : Machine) (e : Escape) : Outcome × Machine :=
  if m.debugger.pauseOnException then
    { m with state := { m.state with escape := some e } }.pause (m.escapeRecord e)
  else
    let (failure, m) := m.abandon e
    (.failed failure, m)

/-- Tell the debugger that an instruction is about to be executed. -/
@[noinline] def noteInstruction (m : Machine) : Machine :=
  let debugger :=
    if m.config.traceInstructions then m.debugger.record (m.snapshot .instruction) else m.debugger
  { m with debugger := debugger.instructionExecuted }

/-- Execute an instruction. -/
def execute (m : Machine) (i : Instruction) : Option Outcome × Machine :=
  match m.noteInstruction with
  | ⟨config, environment, state, debugger⟩ =>
    match state.step environment i with
    | (.continued, state) => (none, ⟨config, environment, state, debugger⟩)
    | (.failed failure, state) =>
      (some (.failed failure), ⟨config, environment, state, debugger⟩)
    | (.escaped e, state) =>
      let (outcome, m) := escaped ⟨config, environment, state, debugger⟩ e
      (some outcome, m)

/-- One turn: end the call if the run halts, pauses or fails here, and otherwise execute one
instruction. -/
def turn (m : Machine) : Option Outcome × Machine :=
  if m.state.halted || m.environment.code.size ≤ m.state.pc then
    (some (.halted m.state.output), { m with state := { m.state with halted := true } })
  else
    match m.debugger.check m.state.pc m.state.calls.depth with
    | some reason =>
      let (outcome, m) := m.pause (m.snapshot reason)
      (some outcome, m)
    | none =>
      match m.state.fetch m.environment.code m.config.instructionBudget with
      | .error (opcode, fault) =>
        let (failure, state) := m.state.fail opcode fault
        (some (.failed failure), { m with state })
      | .ok i => m.execute i

/-- Take turns until there is an outcome, but at most `turns` of them. -/
def proceed : Nat → Machine → Option Outcome × Machine
  | 0, m => (none, m)
  | turns + 1, m =>
    match m.turn with
    | (some outcome, m) => (some outcome, m)
    | (none, m) => proceed turns m

/-- The machine when a call takes its first turn. -/
def prepare (m : Machine) (call : DrivingCall) : Machine :=
  match call with
  | .start =>
    let m := m.reset
    { m with debugger := m.debugger.beginRun true }
  | call =>
    let mode := (call.mode? m.state.calls.depth).getD m.debugger.mode
    { m with debugger := { m.debugger with mode }.beginRun false }

/-- Prepare a call. It fails at once if the machine is paused on an exception or the run has
failed. -/
def begin (m : Machine) (call : DrivingCall) : Option Failure × Machine :=
  let m := m.prepare call
  match m.state.escape with
  | some e =>
    let (failure, m) := m.abandon e
    (some failure, m)
  | none => (m.state.failure, m)

/-- Carry out a call with at most `turns` turns. -/
def drive (turns : Nat) (call : DrivingCall) (m : Machine) : Option Outcome × Machine :=
  match m.begin call with
  | (some failure, m) => (some (.failed failure), m)
  | (none, m) => proceed turns m

end Machine

end StackMachine
