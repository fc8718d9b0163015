import StackMachine.Execution.Flow

set_option autoImplicit false

/-! # Steps of a run

`State.fetch` finds the instruction to execute, unless the budget is used up or the code cannot
be decoded. `State.step` executes it: a fault goes to the innermost handler if it can be caught
and there is one, and ends the run otherwise. An exception that no handler receives is reported
and left to the caller, who abandons the run (`State.abandon`) or pauses it first.
-/

namespace StackMachine

/-- What a step of a run leads to. -/
inductive Event where
  | continued
  | escaped (escape : Escape)
  | failed (failure : Failure)
  deriving DecidableEq, Repr

namespace State

/-- End the run with a fault at the current position. -/
def fail (s : State) (opcode : Option Opcode) (fault : Fault) : Failure × State :=
  let failure : Failure := ⟨s.pc, opcode, fault⟩
  (failure, { s with halted := true, failure := some failure })

/-- The next instruction, or the opcode and the fault that end the run here. -/
def fetch (s : State) (code : Program) (budget : Option Nat) :
    Except (Option Opcode × Fault) Instruction :=
  if budget.any (· ≤ s.executed) then
    .error (code.opcodeAt? s.pc, .instructionBudgetExhausted)
  else
    match code.decode s.pc with
    | .ok i => .ok i
    | .error (.unknownOpcode value _) => .error (none, .unknownOpcode value)
    | .error (.missingOperand opcode _) => .error (some opcode, .missingOperand opcode)
    | .error (.outOfBounds _) => .error (none, .invalidJumpTarget (Word.ofIndex s.pc))

/-- Hand a fault of an instruction to the innermost handler, or end the run. -/
def handle (s : State) (opcode : Opcode) (fault : Fault) : Event × State :=
  match fault with
  | .uncaughtException value trace => (.escaped ⟨value, trace, s.pc⟩, s)
  | fault =>
    if fault.isCatchable then
      match deliver fault.code s with
      | .ok (some target) s => (.continued, { s with pc := target })
      | .ok none s =>
        let (failure, s) := s.fail opcode fault
        (.failed failure, s)
      | .error fault s =>
        let (failure, s) := s.fail opcode fault
        (.failed failure, s)
    else
      let (failure, s) := s.fail opcode fault
      (.failed failure, s)

/-- Execute the instruction at the current position. -/
def step (s : State) (env : Environment) (i : Instruction) : Event × State :=
  match execute env i { s with executed := s.executed + 1 } with
  | .ok .next s => (.continued, { s with pc := s.pc + i.width })
  | .ok (.jump offset) s => (.continued, { s with pc := offset })
  | .ok .halt s => (.continued, { s with pc := s.pc + i.width, halted := true })
  | .error fault s => s.handle i.opcode fault

/-- Leave all calls, innermost first, going back to the operand depth of each. -/
def unwind (s : State) : State :=
  { s with
    stack := (s.calls.above 0).foldl (fun stack frame => stack.truncate frame.stackPointer) s.stack
    calls := s.calls.clear }

/-- End the run with an exception that no handler receives. -/
def abandon (s : State) (e : Escape) : Failure × State :=
  { s.unwind with handlers := {}, pc := e.pc, escape := none }.fail (some .throw)
    (.uncaughtException e.value e.trace)

end State

end StackMachine
