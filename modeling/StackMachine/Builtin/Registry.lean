import StackMachine.Builtin.Basic
import StackMachine.Text.Character

set_option autoImplicit false

/-! # Registries of builtins

A registry maps numbers to builtins. Registering a number again replaces its builtin.
-/

namespace StackMachine

/-- Builtins by number, in increasing order of their numbers. -/
structure Registry where
  entries : List (Word × Builtin) := []

namespace Registry

/-- Put a builtin in its place among entries in increasing order. -/
def insert (id : Word) (builtin : Builtin) : List (Word × Builtin) → List (Word × Builtin)
  | [] => [(id, builtin)]
  | (id', builtin') :: rest =>
    if id < id' then (id, builtin) :: (id', builtin') :: rest
    else if id = id' then (id, builtin) :: rest
    else (id', builtin') :: insert id builtin rest

/-- Register a builtin, replacing the one with the same number. -/
def register (r : Registry) (id : Word) (builtin : Builtin) : Registry :=
  ⟨insert id builtin r.entries⟩

/-- The builtin with a number. -/
def find? (r : Registry) (id : Word) : Option Builtin := r.entries.lookup id

/-- Whether a number has a builtin. -/
def contains (r : Registry) (id : Word) : Bool := (r.find? id).isSome

/-- The name of the builtin with a number. -/
def name? (r : Registry) (id : Word) : Option String := (r.find? id).map Builtin.name

/-- Run the builtin with a number. -/
def call (r : Registry) (id : Word) : Action Builtin.Context Unit :=
  match r.find? id with
  | some builtin => builtin.action
  | none => throw (.unknownBuiltin id)

/-- The array and text builtins. -/
def standard : Registry where
  entries :=
    [(0, Builtin.arrayNew), (1, Builtin.arrayGet), (2, Builtin.arraySet),
      (3, Builtin.arrayLength), (4, Builtin.textLength), (5, Builtin.printText)]

/-- The numbers and names of a registry, for diagnostics. -/
def describe (r : Registry) : String :=
  let entries := r.entries.map fun (id, builtin) => s!"({id.text}, {Text.quoted builtin.name})"
  "BuiltinRegistry \x7b builtins: [" ++ ", ".intercalate entries ++ "] \x7d"

end Registry

end StackMachine
