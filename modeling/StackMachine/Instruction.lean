import StackMachine.Opcode

set_option autoImplicit false

/-! # Instructions

An instruction is an opcode together with its operand, if the opcode takes one.
-/

namespace StackMachine

/-- An instruction with its operand. -/
inductive Instruction where
  | halt
  | push (value : Word)
  | add
  | sub
  | mul
  | print
  | jmp (target : Word)
  | jmpIfZero (target : Word)
  | jmpIfNeg (target : Word)
  | load (address : Word)
  | store (address : Word)
  | read
  | call (target : Word)
  | ret
  | loadLocal (offset : Word)
  | storeLocal (offset : Word)
  | enterTry (handler : Word)
  | leaveTry
  | throw
  | malloc
  | load8 (address : Word)
  | load32 (address : Word)
  | store8 (address : Word)
  | store32 (address : Word)
  | load8Ind
  | load32Ind
  | store8Ind
  | callBuiltin
  | store32Ind
  | div
  | mod
  | dup
  | drop
  | swap
  deriving DecidableEq, Repr, Inhabited

/-- The instructions an opcode forms: one without an operand, or one for each operand. -/
inductive Opcode.Form where
  | plain (instruction : Instruction)
  | immediate (instruction : Word → Instruction)

/-- The instructions with a given opcode. -/
def Opcode.form : Opcode → Opcode.Form
  | .halt => .plain .halt
  | .push => .immediate .push
  | .add => .plain .add
  | .sub => .plain .sub
  | .mul => .plain .mul
  | .print => .plain .print
  | .jmp => .immediate .jmp
  | .jmpIfZero => .immediate .jmpIfZero
  | .jmpIfNeg => .immediate .jmpIfNeg
  | .load => .immediate .load
  | .store => .immediate .store
  | .read => .plain .read
  | .call => .immediate .call
  | .ret => .plain .ret
  | .loadLocal => .immediate .loadLocal
  | .storeLocal => .immediate .storeLocal
  | .enterTry => .immediate .enterTry
  | .leaveTry => .plain .leaveTry
  | .throw => .plain .throw
  | .malloc => .plain .malloc
  | .load8 => .immediate .load8
  | .load32 => .immediate .load32
  | .store8 => .immediate .store8
  | .store32 => .immediate .store32
  | .load8Ind => .plain .load8Ind
  | .load32Ind => .plain .load32Ind
  | .store8Ind => .plain .store8Ind
  | .callBuiltin => .plain .callBuiltin
  | .store32Ind => .plain .store32Ind
  | .div => .plain .div
  | .mod => .plain .mod
  | .dup => .plain .dup
  | .drop => .plain .drop
  | .swap => .plain .swap

namespace Instruction

/-- The opcode of an instruction. -/
def opcode : Instruction → Opcode
  | halt => .halt
  | push _ => .push
  | add => .add
  | sub => .sub
  | mul => .mul
  | print => .print
  | jmp _ => .jmp
  | jmpIfZero _ => .jmpIfZero
  | jmpIfNeg _ => .jmpIfNeg
  | load _ => .load
  | store _ => .store
  | read => .read
  | call _ => .call
  | ret => .ret
  | loadLocal _ => .loadLocal
  | storeLocal _ => .storeLocal
  | enterTry _ => .enterTry
  | leaveTry => .leaveTry
  | throw => .throw
  | malloc => .malloc
  | load8 _ => .load8
  | load32 _ => .load32
  | store8 _ => .store8
  | store32 _ => .store32
  | load8Ind => .load8Ind
  | load32Ind => .load32Ind
  | store8Ind => .store8Ind
  | callBuiltin => .callBuiltin
  | store32Ind => .store32Ind
  | div => .div
  | mod => .mod
  | dup => .dup
  | drop => .drop
  | swap => .swap

/-- The operand of an instruction. -/
def operand : Instruction → Option Word
  | push w | jmp w | jmpIfZero w | jmpIfNeg w | load w | store w | call w | loadLocal w
  | storeLocal w | enterTry w | load8 w | load32 w | store8 w | store32 w => some w
  | _ => none

/-- The number of words of an instruction. -/
def width (i : Instruction) : Nat := i.opcode.width

/-- The words of an instruction. -/
def encode (i : Instruction) : List Word := i.opcode.toWord :: i.operand.toList

/-- The mnemonic, followed by the operand in decimal if there is one. -/
def text (i : Instruction) : String :=
  match i.operand with
  | some w => i.opcode.mnemonic ++ " " ++ w.text
  | none => i.opcode.mnemonic

end Instruction

end StackMachine
