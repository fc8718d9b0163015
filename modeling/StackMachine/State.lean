import StackMachine.Builtin.Registry
import StackMachine.CallStack
import StackMachine.Config.Basic
import StackMachine.Handlers
import StackMachine.Memory

set_option autoImplicit false

/-! # The state of a run

Everything that executing instructions can change. `State.initial` is the state before the
first instruction under a configuration, and `State.clear` goes back to it.
-/

namespace StackMachine

/-- An exception that no handler receives: its value, the trace at the instruction that raised
it, and the position of that instruction. -/
structure Escape where
  value : Word
  trace : List Nat
  pc : Nat
  deriving DecidableEq, Repr

/-- The state of a run. `escape` is set while the run is paused on an escaped exception, and
`failure` once a fault has ended it. -/
structure State where
  pc : Nat := 0
  halted : Bool := false
  stack : OperandStack
  calls : CallStack
  handlers : Handlers := {}
  memory : Memory
  heap : Heap
  input : List Word := []
  output : Array Word := #[]
  executed : Nat := 0
  escape : Option Escape := none
  failure : Option Failure := none
  deriving DecidableEq, Repr

namespace State

/-- The state before the first instruction, with input waiting. -/
def initial (config : Config) (input : List Word) : State where
  stack := { limit := config.maxStackDepth }
  calls := { slotsPerFrame := config.slotsPerFrame, maxDepth := config.maxCallDepth }
  memory := Memory.zeroed config.globalSlots config.slotsPerFrame config.maxCallDepth
  heap := Heap.zeroed config.heapSize
  input := input

/-- The state before the first instruction once more: every part is emptied in place, and only the
waiting input stays. -/
def clear (s : State) : State :=
  { s with
    pc := 0
    halted := false
    stack := s.stack.clear
    calls := s.calls.clear
    handlers := {}
    memory := s.memory.clear
    heap := s.heap.reset
    output := #[]
    executed := 0
    escape := none
    failure := none }

/-- Run an action on the operand stack. -/
@[inline] def onStack {α : Type} (action : Action OperandStack α) : Action State α :=
  action.within State.stack fun s stack => { s with stack }

/-- Run an action on the call stack. -/
@[inline] def onCalls {α : Type} (action : Action CallStack α) : Action State α :=
  action.within State.calls fun s calls => { s with calls }

/-- Run an action on the handlers. -/
@[inline] def onHandlers {α : Type} (action : Action Handlers α) : Action State α :=
  action.within State.handlers fun s handlers => { s with handlers }

/-- Run an action on the slot memory. -/
@[inline] def onMemory {α : Type} (action : Action Memory α) : Action State α :=
  action.within State.memory fun s memory => { s with memory }

/-- Run an action on the heap. -/
@[inline] def onHeap {α : Type} (action : Action Heap α) : Action State α :=
  action.within State.heap fun s heap => { s with heap }

/-- Run the action of a builtin. -/
@[inline] def onContext {α : Type} (action : Action Builtin.Context α) : Action State α :=
  action.within (fun s => ⟨s.stack, s.heap, s.output⟩)
    fun s c => { s with stack := c.stack, heap := c.heap, output := c.output }

/-- Continue with an answer about the state, or stop with its fault. -/
@[inline] def query {α : Type} (question : State → Except Fault α) : Action State α := fun s =>
  match question s with
  | .ok a => .ok a s
  | .error fault => .error fault s

end State

end StackMachine
