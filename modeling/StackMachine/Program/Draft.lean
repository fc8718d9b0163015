import StackMachine.Program.Basic

set_option autoImplicit false

/-! # Drafts

A draft is a program under construction. Words are appended at the end; a label can be used
before it is bound to an offset, and `Draft.finish` fills the slots that refer to labels. A
label can be bound again: the last binding counts for all references.
-/

namespace StackMachine

/-- A label of a draft. -/
structure Label where
  id : Nat
  deriving DecidableEq, Repr

/-- A program under construction: the words so far, the offset of each label that is bound, and
the slots that refer to labels in the order in which they were appended. -/
structure Draft where
  words : Program := #[]
  labels : Array (Option Nat) := #[]
  references : Array (Nat × Label) := #[]
  deriving Repr

namespace Draft

/-- Why a draft is no program. -/
inductive Error where
  | unboundLabel (label : Label)
  | tooLarge (size : Nat)
  deriving DecidableEq, Repr

/-- The wording of an error. -/
def Error.message : Error → String
  | unboundLabel label => s!"label {label.id} referenced but never bound"
  | tooLarge size => s!"program of {size} slots exceeds the addressable range"

/-- The offset of the next word. -/
def offset (d : Draft) : Nat := d.words.size

/-- Make a label that is not bound yet. -/
def newLabel (d : Draft) : Label × Draft :=
  (⟨d.labels.size⟩, { d with labels := d.labels.push none })

/-- Bind a label to the current offset. -/
def bind (d : Draft) (label : Label) : Draft :=
  { d with labels := d.labels.setIfInBounds label.id (some d.offset) }

/-- Make a label bound to the current offset. -/
def here (d : Draft) : Label × Draft :=
  let (label, d) := d.newLabel
  (label, d.bind label)

/-- Append a word as it is. -/
def word (d : Draft) (w : Word) : Draft := { d with words := d.words.push w }

/-- Append an opcode that takes no operand. -/
def op (d : Draft) (opcode : Opcode) : Draft := d.word opcode.toWord

/-- Append an opcode and its operand. -/
def opWith (d : Draft) (opcode : Opcode) (operand : Word) : Draft :=
  (d.word opcode.toWord).word operand

/-- Append an opcode and a slot for the offset of a label. -/
def jump (d : Draft) (opcode : Opcode) (label : Label) : Draft :=
  let d := d.word opcode.toWord
  { d.word 0 with references := d.references.push (d.offset, label) }

/-- Append an instruction that pushes a word. -/
def push (d : Draft) (w : Word) : Draft := d.opWith .push w

/-- Append a call of the code at a label. -/
def call (d : Draft) (label : Label) : Draft := d.jump .call label

/-- Append the start of a region protected by the handler at a label. -/
def enterTry (d : Draft) (handler : Label) : Draft := d.jump .enterTry handler

/-- The offset a label was last bound to. -/
def target? (d : Draft) (label : Label) : Option Nat := (d.labels[label.id]?).join

/-- Fill the slot of one reference. -/
def patch (d : Draft) (code : Program) (reference : Nat × Label) : Except Error Program :=
  match d.target? reference.2 with
  | none => .error (.unboundLabel reference.2)
  | some target => .ok (code.setIfInBounds reference.1 (Word.ofIndex target))

/-- The finished program. -/
def finish (d : Draft) : Except Error Program :=
  if d.words.size < Word.positions then d.references.foldlM d.patch d.words
  else .error (.tooLarge d.words.size)

end Draft

end StackMachine
