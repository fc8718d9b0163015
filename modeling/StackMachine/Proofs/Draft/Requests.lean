import StackMachine.Program.Draft

set_option autoImplicit false

/-! # Building a draft

A draft is built by carrying out requests in order (`Draft.build`). A label can be used once the
draft knows it; making a label gives the next one, which is not bound, and binding a label changes
the offset of no other.
-/

namespace StackMachine.Draft

/-- A request to change a draft. -/
inductive Request where
  | newLabel
  | here
  | bind (label : Label)
  | op (opcode : Opcode)
  | opWith (opcode : Opcode) (operand : Word)
  | jump (opcode : Opcode) (label : Label)
  | push (w : Word)
  | call (label : Label)
  | enterTry (handler : Label)
  | word (w : Word)
  deriving DecidableEq, Repr

/-- Carry out a request. -/
def apply (d : Draft) : Request → Draft
  | .newLabel => d.newLabel.2
  | .here => d.here.2
  | .bind label => d.bind label
  | .op opcode => d.op opcode
  | .opWith opcode operand => d.opWith opcode operand
  | .jump opcode label => d.jump opcode label
  | .push w => d.push w
  | .call label => d.call label
  | .enterTry handler => d.enterTry handler
  | .word w => d.word w

/-- Carry out requests in order. -/
def build (d : Draft) (requests : List Request) : Draft := requests.foldl apply d

/-- The label was made by the draft. -/
def Knows (d : Draft) (label : Label) : Prop := label.id < d.labels.size

variable (d : Draft)

theorem target?_newLabel (label : Label) : d.newLabel.2.target? label = d.target? label := by
  simp only [target?, newLabel, Array.getElem?_push]
  split
  · next heq => simp [heq]
  · rfl

theorem target?_bind {label : Label} (h : d.Knows label) (label' : Label) :
    (d.bind label).target? label' = if label' = label then some d.offset else d.target? label' := by
  obtain ⟨id⟩ := label
  obtain ⟨id'⟩ := label'
  change id < d.labels.size at h
  simp only [target?, Draft.bind, Array.getElem?_setIfInBounds, Label.mk.injEq]
  by_cases heq : id = id'
  · simp [heq, heq ▸ h]
  · simp [heq, Ne.symm heq]

end StackMachine.Draft
