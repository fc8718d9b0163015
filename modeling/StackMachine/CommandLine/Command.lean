import StackMachine.Text.Numeral
import StackMachine.Word

set_option autoImplicit false

/-! # Commands

The commands of the program and how they are written:

    run FILE [options]
    disasm FILE
    --version

Options may stand before and after the file, and `--` ends them. The value of an option follows
as the next argument or after `=`. A separate value may not start with a hyphen, unless it is
the value of `--input` or the hyphen alone. Options that are not lists can be given once.
-/

namespace StackMachine.CommandLine

open StackMachine.Text

/-- The options of a run. -/
structure RunOptions where
  file : Option String := none
  inputs : List Word := []
  breakpoints : List Nat := []
  watchGlobals : List Word := []
  watchLocals : List Word := []
  pauseOnException : Bool := false
  config : Option String := none
  trace : Bool := false
  dumpHeap : Option (Word × Nat) := none
  deriving DecidableEq, Repr

/-- A command. -/
inductive Command where
  | version
  | run (file : String) (options : RunOptions)
  | disassemble (file : String)
  deriving DecidableEq, Repr

/-- An argument after a command name. -/
inductive Argument where
  | option (name : String) (value : Option String)
  | positional (text : String)
  deriving DecidableEq, Repr

/-- The options that take a value. -/
def valueOptions : List String :=
  ["--input", "--break", "--watch-global", "--watch-local", "--config", "--dump-heap"]

/-- Whether a text starts with a hyphen and has more characters. -/
def startsWithHyphen (text : String) : Bool :=
  match text.toList with
  | '-' :: _ :: _ => true
  | _ => false

/-- Whether an argument may be the separate value of an option. -/
def canFollow (option value : String) : Bool := option = "--input" || !startsWithHyphen value

/-- Cut a text at the first occurrence of a character. -/
def cut? (separator : Char) (text : String) : Option (String × String) :=
  match text.toList.dropWhile (· ≠ separator) with
  | [] => none
  | _ :: rest => some (String.ofList (text.toList.takeWhile (· ≠ separator)), String.ofList rest)

/-- The option that an argument gives, with its value after `=`. -/
def optionOf (arg : String) : String × Option String :=
  match cut? '=' arg with
  | some (name, value) => (name, some value)
  | none => (arg, none)

/-- Tell options, their values and other arguments apart. -/
def arguments? : List String → Option (List Argument)
  | [] => some []
  | arg :: rest =>
    if arg = "--" then some (rest.map .positional)
    else if startsWithHyphen arg then
      match optionOf arg with
      | (name, some value) => (arguments? rest).map (.option name (some value) :: ·)
      | (name, none) =>
        if name ∈ valueOptions then
          match rest with
          | [] => none
          | value :: rest =>
            if canFollow name value then (arguments? rest).map (.option name (some value) :: ·)
            else none
        else (arguments? rest).map (.option name none :: ·)
    else (arguments? rest).map (.positional arg :: ·)

/-- A word given as an argument. -/
def word? (text : String) : Option Word :=
  (Numeral.signed? 10 text.toList).bind Word.ofInt?

/-- A position or a size given as an argument. -/
def natural? (text : String) : Option Nat :=
  (Numeral.unsigned? 10 text.toList).filter (· < sizeBound)

/-- An address and a size given as an argument. -/
def heapRange? (text : String) : Option (Word × Nat) := do
  let (address, size) ← cut? ':' text
  return (← word? address, ← natural? size)

/-- A path given as an argument. -/
def path? (text : String) : Option String := if text = "" then none else some text

/-- Set a field that may be set once. -/
def once? {α : Type} (field : Option α) (value : Option α) : Option (Option α) :=
  match field with
  | none => value.map some
  | some _ => none

namespace RunOptions

/-- Add the value of an option. -/
def addValue? (o : RunOptions) (name value : String) : Option RunOptions :=
  match name with
  | "--input" => (word? value).map fun w => { o with inputs := o.inputs ++ [w] }
  | "--break" => (natural? value).map fun n => { o with breakpoints := o.breakpoints ++ [n] }
  | "--watch-global" => (word? value).map fun w => { o with watchGlobals := o.watchGlobals ++ [w] }
  | "--watch-local" => (word? value).map fun w => { o with watchLocals := o.watchLocals ++ [w] }
  | "--config" => (once? o.config (path? value)).map fun config => { o with config }
  | "--dump-heap" => (once? o.dumpHeap (heapRange? value)).map fun dumpHeap => { o with dumpHeap }
  | _ => none

/-- Add an option without a value. -/
def addFlag? (o : RunOptions) (name : String) : Option RunOptions :=
  match name with
  | "--pause-on-exception" =>
    if o.pauseOnException then none else some { o with pauseOnException := true }
  | "--trace" => if o.trace then none else some { o with trace := true }
  | _ => none

/-- Add an argument. -/
def add? (o : RunOptions) : Argument → Option RunOptions
  | .option name (some value) => o.addValue? name value
  | .option name none => o.addFlag? name
  | .positional text => (once? o.file (path? text)).map fun file => { o with file }

end RunOptions

namespace Command

/-- Read the arguments of a run. -/
def run? (args : List String) : Option Command := do
  let options ← (← arguments? args).foldlM RunOptions.add? {}
  return .run (← options.file) options

/-- Read the arguments of a listing. -/
def disassemble? (args : List String) : Option Command := do
  match ← arguments? args with
  | [.positional text] => return .disassemble (← path? text)
  | _ => none

/-- Read a command. -/
def parse? : List String → Option Command
  | [] => none
  | "run" :: args => run? args
  | "disasm" :: args => disassemble? args
  | "--version" :: _ => some .version
  | arg :: _ =>
    match arg.toList with
    | '-' :: 'V' :: _ => some .version
    | _ => none

end Command

end StackMachine.CommandLine
