import StackMachine.Assembly.Error
import StackMachine.Assembly.Line
import StackMachine.Assembly.Operand
import StackMachine.Program.Basic

set_option autoImplicit false

/-! # Assembling

Lines are read in order into a `Layout`: the statements, the offset of each label, and the
number of words so far. A label stands for the offset of the next statement. Once all lines
are read the labels are known and `Layout.emit` writes the words.

`assemble` reports the first line that cannot be read; only when all lines can be read does it
report a label that is used and never defined.
-/

namespace StackMachine.Assembly

/-- An instruction whose operand may still be a label. -/
structure Statement where
  line : Nat
  opcode : Opcode
  operand : Option Operand
  deriving DecidableEq, Repr

/-- What is known after reading some lines. -/
structure Layout where
  labels : List (String × Nat) := []
  statements : Array Statement := #[]
  size : Nat := 0
  deriving Repr

/-- The offset of a label. -/
def Layout.offset? (layout : Layout) (name : String) : Option Nat := layout.labels.lookup name

/-- Read the instruction part of a line as a statement. -/
def Body.statement (body : Body) (line : Nat) : Except Error Statement :=
  match Opcode.ofMnemonic? body.mnemonic with
  | none => .error ⟨line, .unknownMnemonic body.mnemonic⟩
  | some opcode =>
    match opcode.takesOperand, body.operand with
    | false, none => .ok ⟨line, opcode, none⟩
    | false, some _ => .error ⟨line, .unexpectedOperand opcode⟩
    | true, none => .error ⟨line, .missingOperand opcode⟩
    | true, some text =>
      match Operand.parse? text.toList with
      | none => .error ⟨line, .invalidOperand text⟩
      | some operand => .ok ⟨line, opcode, some operand⟩

namespace Layout

/-- Define a label at the current offset. -/
def define (layout : Layout) (line : Nat) (name : String) : Except Error Layout :=
  if (layout.offset? name).isSome then .error ⟨line, .duplicateLabel name⟩
  else .ok { layout with labels := (name, layout.size) :: layout.labels }

/-- Add a statement at the current offset. -/
def append (layout : Layout) (statement : Statement) : Layout :=
  { layout with
    statements := layout.statements.push statement
    size := layout.size + statement.opcode.width }

/-- Add what a line says. -/
def addLine (layout : Layout) (number : Nat) (line : Line) : Except Error Layout := do
  let layout ←
    match line.label with
    | none => pure layout
    | some name => layout.define number name
  match line.body with
  | none => pure layout
  | some body => return layout.append (← body.statement number)

/-- Read a line of text and add what it says. -/
def addText (layout : Layout) (number : Nat) (text : List Char) : Except Error Layout :=
  match Line.parse? (uncommented text) with
  | none => .error ⟨number, .malformed⟩
  | some line => layout.addLine number line

/-- Read lines of text, the first of which has the given number. -/
def addLines (layout : Layout) (number : Nat) : List (List Char) → Except Error Layout
  | [] => .ok layout
  | text :: texts => do
    let layout ← layout.addText number text
    layout.addLines (number + 1) texts

/-- The word of an operand, once the labels are known. -/
def resolve (layout : Layout) (line : Nat) : Operand → Except Error Word
  | .literal value => .ok value
  | .label name =>
    match layout.offset? name with
    | none => .error ⟨line, .undefinedLabel name⟩
    | some offset => .ok (Word.ofIndex offset)

/-- The words of a statement. -/
def encode (layout : Layout) (statement : Statement) : Except Error (List Word) :=
  match statement.operand with
  | none => .ok [statement.opcode.toWord]
  | some operand => do
    return [statement.opcode.toWord, ← layout.resolve statement.line operand]

/-- The words of all statements in order. -/
def emit (layout : Layout) : Except Error Program := do
  let words ← layout.statements.toList.mapM layout.encode
  return words.flatten.toArray

end Layout

/-- The layout of a source text. -/
def layout (source : String) : Except Error Layout :=
  Layout.addLines {} 1 (splitLines source.toList)

/-- The program that a source text describes. -/
def assemble (source : String) : Except Error Program := do
  (← layout source).emit

end StackMachine.Assembly
