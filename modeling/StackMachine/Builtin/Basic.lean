import StackMachine.Heap.Objects
import StackMachine.OperandStack

set_option autoImplicit false

/-! # Builtins

A builtin is a named action on the operand stack, the heap and the output. Arguments are taken
from the operand stack, the last one on top, and results are put back on it.
-/

namespace StackMachine

namespace Builtin

/-- The part of the machine that a builtin can reach. -/
structure Context where
  stack : OperandStack
  heap : Heap
  output : Array Word := #[]
  deriving DecidableEq, Repr, Inhabited

namespace Context

/-- Run an action on the operand stack. -/
@[inline] def onStack {α : Type} (action : Action OperandStack α) : Action Context α :=
  action.within Context.stack fun c stack => { c with stack }

/-- Run an action on the heap. -/
@[inline] def onHeap {α : Type} (action : Action Heap α) : Action Context α :=
  action.within Context.heap fun c heap => { c with heap }

/-- Take the topmost word. -/
def pop : Action Context Word := onStack OperandStack.pop

/-- Put a word on the operand stack. -/
def push (w : Word) : Action Context Unit := onStack (OperandStack.push w)

/-- Ask the heap. -/
def query {α : Type} (question : Heap → Except Fault α) : Action Context α := do
  Action.ofExcept (question (← get).heap)

/-- Append words to the output. -/
def print (words : List Word) : Action Context Unit :=
  modify fun c => { c with output := c.output.appendList words }

end Context

end Builtin

/-- A named builtin. -/
structure Builtin where
  name : String
  action : Action Builtin.Context Unit

namespace Builtin

open Context

/-- Replace a length by the address of a new array. -/
def arrayNew : Builtin where
  name := "array_new"
  action := do
    let length ← pop
    push (← onHeap (Heap.allocateArray length))

/-- Replace an array and an index by the element. -/
def arrayGet : Builtin where
  name := "array_get"
  action := do
    let index ← pop
    let address ← pop
    push (← query (·.arrayGet address index))

/-- Take an array, an index and a word, and store the word. -/
def arraySet : Builtin where
  name := "array_set"
  action := do
    let value ← pop
    let index ← pop
    let address ← pop
    onHeap (Heap.arraySet address index value)

/-- Replace an array by its length. -/
def arrayLength : Builtin where
  name := "array_len"
  action := do
    let address ← pop
    push (← query (·.objectLength address))

/-- Replace a text by its length. -/
def textLength : Builtin where
  name := "string_len"
  action := do
    let address ← pop
    push (← query (·.objectLength address))

/-- Append the bytes of a text to the output. -/
def printText : Builtin where
  name := "print_string"
  action := do
    let address ← pop
    let bytes ← query (·.textAt address)
    print (bytes.map fun b => Word.ofIndex b.toNat)

end Builtin

end StackMachine
