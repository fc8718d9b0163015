import StackMachine.Program.Basic
import StackMachine.State

set_option autoImplicit false

/-! # What an instruction does

`State.execute` is the effect of an instruction on the state, up to where control goes
next. Operands that are code offsets are checked before anything is taken from the stack. An
instruction that fails keeps what it has taken from the stack and from the input.
-/

namespace StackMachine

/-- What a run can refer to and cannot change. -/
structure Environment where
  code : Program := #[]
  builtins : Registry := .standard

/-- The offset a target names; the end of the code is allowed. -/
def Environment.target (env : Environment) (target : Word) : Except Fault Nat :=
  match Word.index? target with
  | some offset => if offset ≤ env.code.size then .ok offset else .error (.invalidJumpTarget target)
  | none => .error (.invalidJumpTarget target)

/-- Where control goes after an instruction. -/
inductive Flow where
  | next
  | jump (offset : Nat)
  | halt
  deriving DecidableEq, Repr

namespace State

/-- Take the topmost word. -/
def pop : Action State Word := onStack OperandStack.pop

/-- Take the right and then the left operand. -/
def popPair : Action State (Word × Word) := onStack OperandStack.popPair

/-- Put a word on the operand stack. -/
def push (w : Word) : Action State Unit := onStack (OperandStack.push w)

/-- Replace the two topmost words by a word computed from them. -/
def arithmetic (f : Word → Word → Except Fault Word) : Action State Unit := do
  let (left, right) ← popPair
  push (← Action.ofExcept (f left right))

/-- The quotient rounded toward zero. -/
def divide (left right : Word) : Except Fault Word :=
  if right = 0 then .error .divisionByZero else .ok (left / right)

/-- The remainder of the quotient rounded toward zero. -/
def remainder (left right : Word) : Except Fault Word :=
  if right = 0 then .error .divisionByZero else .ok (left % right)

/-- Append the topmost word to the output. -/
def print : Action State Unit := do
  let w ← pop
  modify fun s => { s with output := s.output.push w }

/-- Take the next word of the input. -/
def takeInput : Action State Word := fun s =>
  match s.input with
  | w :: rest => .ok w { s with input := rest }
  | [] => .error .noInputAvailable s

/-- Hand out heap bytes; the number of bytes is on the stack and is replaced by their address. -/
def malloc : Action State Unit := do
  let size ← pop
  match Word.index? size with
  | none => throw (.invalidAllocationSize size)
  | some count => push (Word.ofIndex (← onHeap (Heap.allocate count)))

/-- Deliver an exception to the innermost handler: go back to its calls and operand depth, and
put the value on the stack. Returns where the handler is, or nothing if there is none. -/
def deliver (value : Word) : Action State (Option Nat) := fun s =>
  match s.handlers.innermost? with
  | none => .ok none s
  | some handler =>
    if handler.stackPointer < s.stack.limit then
      .ok (some handler.target)
        { s with
          handlers := s.handlers.dropInnermost
          calls := s.calls.unwindTo handler.callDepth
          stack :=
            { s.stack with values := (s.stack.values.shrink handler.stackPointer).push value } }
    else .error (.stackOverflow s.stack.limit) s

/-- Enter a call. -/
def enter (target : Nat) : Action State Flow := do
  let s ← get
  let _ ← onCalls (CallStack.push (s.pc + 2) s.stack.depth)
  return .jump target

/-- Leave a call and drop its handlers. -/
def leave : Action State Flow := do
  let frame ← onCalls CallStack.pop
  modify fun s => { s with handlers := s.handlers.discardAbove s.calls.depth }
  return .jump frame.returnAddress

/-- Enter a region protected by a handler. -/
def protect (target : Nat) : Action State Unit :=
  modify fun s =>
    { s with handlers := s.handlers.push ⟨target, s.stack.depth, s.calls.depth⟩ }

/-- Raise the topmost word as an exception. -/
def raise : Action State Flow := do
  let value ← pop
  match ← deliver value with
  | some target => return .jump target
  | none =>
    let s ← get
    throw (.uncaughtException value (s.calls.trace s.pc))

/-- The effect of an instruction at the current position. -/
def execute (env : Environment) : Instruction → Action State Flow
  | .halt => return .halt
  | .push w => do push w; return .next
  | .add => do arithmetic fun a b => .ok (a + b); return .next
  | .sub => do arithmetic fun a b => .ok (a - b); return .next
  | .mul => do arithmetic fun a b => .ok (a * b); return .next
  | .div => do arithmetic divide; return .next
  | .mod => do arithmetic remainder; return .next
  | .dup => do
    let w ← query fun s => s.stack.peek?.elim (.error .stackUnderflow) .ok
    push w
    return .next
  | .drop => do let _ ← pop; return .next
  | .swap => do
    let (left, right) ← popPair
    push right
    push left
    return .next
  | .print => do print; return .next
  | .read => do push (← takeInput); return .next
  | .callBuiltin => do
    let id ← pop
    onContext (env.builtins.call id)
    return .next
  | .jmp target => do return .jump (← Action.ofExcept (env.target target))
  | .jmpIfZero target => do
    let offset ← Action.ofExcept (env.target target)
    return if (← pop) = 0 then .jump offset else .next
  | .jmpIfNeg target => do
    let offset ← Action.ofExcept (env.target target)
    return if (← pop) < 0 then .jump offset else .next
  | .call target => do enter (← Action.ofExcept (env.target target))
  | .ret => leave
  | .load address => do push (← query (·.memory.loadGlobal address)); return .next
  | .store address => do
    let w ← pop
    onMemory (Memory.storeGlobal address w)
    return .next
  | .loadLocal offset => do
    let frame ← query (·.calls.top)
    push (← query (·.memory.loadLocal frame.base offset))
    return .next
  | .storeLocal offset => do
    let frame ← query (·.calls.top)
    let w ← pop
    onMemory (Memory.storeLocal frame.base offset w)
    return .next
  | .enterTry handler => do
    protect (← Action.ofExcept (env.target handler))
    return .next
  | .leaveTry => do let _ ← onHandlers Handlers.pop; return .next
  | .throw => raise
  | .malloc => do malloc; return .next
  | .load8 address => do push (← query (·.heap.load8 address)); return .next
  | .load32 address => do push (← query (·.heap.load32 address)); return .next
  | .store8 address => do
    let w ← pop
    onHeap (Heap.store8 address w)
    return .next
  | .store32 address => do
    let w ← pop
    onHeap (Heap.store32 address w)
    return .next
  | .load8Ind => do
    let address ← pop
    push (← query (·.heap.load8 address))
    return .next
  | .load32Ind => do
    let address ← pop
    push (← query (·.heap.load32 address))
    return .next
  | .store8Ind => do
    let (address, w) ← popPair
    onHeap (Heap.store8 address w)
    return .next
  | .store32Ind => do
    let (address, w) ← popPair
    onHeap (Heap.store32 address w)
    return .next

end State

end StackMachine
