import StackMachine.Config.Basic
import StackMachine.Json.Document
import StackMachine.Word

set_option autoImplicit false

/-! # Configurations as JSON

A configuration is read from an object that names fields, or from an array that lists their
values in order. Fields that are left out have their default values. A field may not be given
twice.
-/

namespace StackMachine

namespace Config

open Json

/-- A number below `2 ^ 64`. -/
def natural? : Scalar → Option Nat
  | .integer i => if 0 ≤ i ∧ i < sizeBound then some i.toNat else none
  | _ => none

/-- A truth value. -/
def flag? : Scalar → Option Bool
  | .bool b => some b
  | _ => none

/-- A number below `2 ^ 64`, or nothing. -/
def optional? : Scalar → Option (Option Nat)
  | .null => some none
  | value => (natural? value).map some

/-- A field of a configuration: its name, and how its value is read into a configuration. -/
structure Field where
  name : String
  assign : Config → Scalar → Option Config

/-- The fields in the order in which an array lists them. -/
def fields : List Field :=
  [⟨"max_stack_depth", fun c v => (natural? v).map fun n => { c with maxStackDepth := n }⟩,
    ⟨"max_call_depth", fun c v => (natural? v).map fun n => { c with maxCallDepth := n }⟩,
    ⟨"slots_per_frame", fun c v => (natural? v).map fun n => { c with slotsPerFrame := n }⟩,
    ⟨"global_slots", fun c v => (natural? v).map fun n => { c with globalSlots := n }⟩,
    ⟨"heap_size", fun c v => (natural? v).map fun n => { c with heapSize := n }⟩,
    ⟨"instruction_budget", fun c v =>
      (optional? v).map fun budget => { c with instructionBudget := budget }⟩,
    ⟨"trace_instructions", fun c v => (flag? v).map fun b => { c with traceInstructions := b }⟩,
    ⟨"max_trace_len", fun c v => (natural? v).map fun n => { c with maxTraceLength := n }⟩]

/-- Read the value of a named field. -/
def assign? (c : Config) (name : String) (value : Scalar) : Option Config :=
  (fields.find? (·.name = name)).bind fun field => field.assign c value

/-- Read a configuration from a document. -/
def ofDocument? : Document → Option Config
  | .object members =>
    if (members.map Prod.fst).Nodup then
      members.foldlM (fun c (name, value) => c.assign? name value) {}
    else none
  | .array items =>
    if items.length ≤ fields.length then
      (fields.zip items).foldlM (fun c (field, value) => field.assign c value) {}
    else none

/-- Why a text gives no configuration. -/
inductive Error where
  | unreadable
  | invalid (problem : Problem)
  deriving DecidableEq, Repr

/-- Read a configuration from a text and check it. -/
def parse (text : String) : Except Error Config :=
  match (Document.parse? text).bind ofDocument? with
  | none => .error .unreadable
  | some c =>
    match c.check with
    | .ok c => .ok c
    | .error problem => .error (.invalid problem)

end Config

end StackMachine
