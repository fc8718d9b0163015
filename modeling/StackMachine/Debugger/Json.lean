import StackMachine.Debugger.Basic
import StackMachine.Json.Value

set_option autoImplicit false

/-! # Records as JSON

The JSON form of records, reasons and watches.
-/

namespace StackMachine

open Json (Value)

/-- A list of positions. -/
def Json.Value.ofNats (ns : List Nat) : Value := .array (ns.map fun (n : Nat) => .integer n)

/-- A list of words. -/
def Json.Value.ofWords (ws : List Word) : Value :=
  .array (ws.map fun (w : Word) => .integer w.toInt)

/-- A word, or null. -/
def Json.Value.ofWord? : Option Word → Value
  | some w => .integer w.toInt
  | none => .null

/-- The name of a kind of watch. -/
def WatchKind.name : WatchKind → String
  | .frameSlot => "local"
  | .globalSlot => "global"

/-- A reason, with its kind first. -/
def Reason.toJson : Reason → Value
  | breakpoint address => .object [("kind", .text "breakpoint"), ("address", .integer address)]
  | step => .object [("kind", .text "step")]
  | exception value trace =>
    .object [("kind", .text "exception"), ("value", .integer value.toInt),
      ("stack_trace", .ofNats trace)]
  | instruction => .object [("kind", .text "instruction")]

/-- A record. -/
def Record.toJson (r : Record) : Value :=
  .object
    [("pc", .integer r.pc),
      ("opcode", (r.opcode.map fun op => Value.text op.recordName).getD .null),
      ("stack", .ofWords r.stack.toList),
      ("call_depth", .integer r.callDepth),
      ("reason", r.reason.toJson)]

/-- A watch with its value. -/
def Watch.toJson (w : Watch) (value : Option Word) : Value :=
  .object
    [("name", .text w.name), ("kind", .text w.kind.name), ("address", .integer w.address.toInt),
      ("value", .ofWord? value)]

end StackMachine
