import StackMachine.Instruction

set_option autoImplicit false

/-! # Programs

A program is an array of words. `Program.decode` reads the instruction at an offset, and
`Program.walk` reads all instructions in layout order and stops at the first offset that cannot
be decoded.
-/

namespace StackMachine

/-- A program: opcode words, each followed by its operand word if it takes one. -/
abbrev Program := Array Word

/-- Why no instruction can be read at an offset. -/
inductive DecodeError where
  | unknownOpcode (value : Word) (offset : Nat)
  | missingOperand (opcode : Opcode) (offset : Nat)
  | outOfBounds (offset : Nat)
  deriving DecidableEq, Repr

/-- The wording of a decoding error. -/
def DecodeError.message : DecodeError → String
  | unknownOpcode value offset => s!"Unknown opcode {value.text} at {offset}"
  | missingOperand opcode offset => s!"Missing operand for {opcode.mnemonic} at {offset}"
  | outOfBounds offset => s!"Offset {offset} is outside the program"

namespace Program

/-- The opcode whose word stands at an offset. -/
def opcodeAt? (code : Program) (offset : Nat) : Option Opcode :=
  code[offset]?.bind Opcode.ofWord?

/-- The instruction whose opcode word stands at `offset`. -/
def decode (code : Program) (offset : Nat) : Except DecodeError Instruction :=
  match code[offset]? with
  | none => .error (.outOfBounds offset)
  | some w =>
    match Opcode.ofWord? w with
    | none => .error (.unknownOpcode w offset)
    | some op =>
      match op.form with
      | .plain i => .ok i
      | .immediate f =>
        match code[offset + 1]? with
        | none => .error (.missingOperand op offset)
        | some operand => .ok (f operand)

/-- What reading a program in layout order gives: the instructions with their offsets, the
offset after the last of them, and the error there unless the program ends. -/
structure Walk where
  instructions : List (Nat × Instruction)
  stop : Nat
  error : Option DecodeError
  deriving Repr

/-- Read the instructions of a program from `offset` on. -/
def walkFrom (code : Program) (offset : Nat) : Walk :=
  if offset < code.size then
    match code.decode offset with
    | .ok i =>
      let rest := walkFrom code (offset + i.width)
      { rest with instructions := (offset, i) :: rest.instructions }
    | .error e => { instructions := [], stop := offset, error := some e }
  else { instructions := [], stop := offset, error := none }
termination_by code.size - offset
decreasing_by
  have : 0 < i.width := by unfold Instruction.width Opcode.width; omega
  omega

/-- Read all instructions of a program. -/
def walk (code : Program) : Walk := code.walkFrom 0

end Program

end StackMachine
