import StackMachine.Word

set_option autoImplicit false

/-! # Opcodes

The thirty-four operations of the machine. The encoded value of an opcode is its position in
the declaration of `Opcode`, so `Opcode.all` is also the decoding table.
-/

namespace StackMachine

/-- The operations, in the order of their encoded values. -/
inductive Opcode where
  | halt | push | add | sub | mul | print
  | jmp | jmpIfZero | jmpIfNeg
  | load | store | read
  | call | ret | loadLocal | storeLocal
  | enterTry | leaveTry | throw
  | malloc | load8 | load32 | store8 | store32
  | load8Ind | load32Ind | store8Ind
  | callBuiltin
  | store32Ind
  | div | mod | dup | drop | swap
  deriving DecidableEq, Repr, Inhabited

namespace Opcode

/-- All opcodes in the order of their encoded values. -/
def all : Array Opcode :=
  #[halt, push, add, sub, mul, print, jmp, jmpIfZero, jmpIfNeg, load, store, read, call, ret,
    loadLocal, storeLocal, enterTry, leaveTry, throw, malloc, load8, load32, store8, store32,
    load8Ind, load32Ind, store8Ind, callBuiltin, store32Ind, div, mod, dup, drop, swap]

/-- The encoded value of an opcode. -/
def toWord (op : Opcode) : Word := Word.ofIndex op.ctorIdx

/-- The opcode with a given encoded value. -/
def ofWord? (w : Word) : Option Opcode :=
  (Word.index? w).bind (all[·]?)

/-- The upper-case name used in program text, listings and messages. -/
def mnemonic : Opcode → String
  | halt => "HALT"
  | push => "PUSH"
  | add => "ADD"
  | sub => "SUB"
  | mul => "MUL"
  | print => "PRINT"
  | jmp => "JMP"
  | jmpIfZero => "JMP_IF_ZERO"
  | jmpIfNeg => "JMP_IF_NEG"
  | load => "LOAD"
  | store => "STORE"
  | read => "READ"
  | call => "CALL"
  | ret => "RET"
  | loadLocal => "LOAD_LOCAL"
  | storeLocal => "STORE_LOCAL"
  | enterTry => "ENTER_TRY"
  | leaveTry => "LEAVE_TRY"
  | throw => "THROW"
  | malloc => "MALLOC"
  | load8 => "LOAD8"
  | load32 => "LOAD32"
  | store8 => "STORE8"
  | store32 => "STORE32"
  | load8Ind => "LOAD8_IND"
  | load32Ind => "LOAD32_IND"
  | store8Ind => "STORE8_IND"
  | callBuiltin => "CALL_BUILTIN"
  | store32Ind => "STORE32_IND"
  | div => "DIV"
  | mod => "MOD"
  | dup => "DUP"
  | drop => "DROP"
  | swap => "SWAP"

/-- The opcode a name stands for; the case of ASCII letters does not matter. -/
def ofMnemonic? (name : String) : Option Opcode :=
  all.find? fun op => op.mnemonic.toList = name.toList.map Char.toUpper

/-- Capitalise the first letter of each `_`-separated piece and join the pieces. -/
private def camel : Bool → List Char → List Char
  | _, [] => []
  | _, '_' :: rest => camel true rest
  | true, c :: rest => c :: camel false rest
  | false, c :: rest => c.toLower :: camel false rest

/-- The name of an opcode in execution records: the pieces of the mnemonic, capitalised. -/
def recordName (op : Opcode) : String := String.ofList (camel true op.mnemonic.toList)

/-- Whether the opcode word is followed by an operand word. -/
def takesOperand : Opcode → Bool
  | push | jmp | jmpIfZero | jmpIfNeg | load | store | call | loadLocal | storeLocal
  | enterTry | load8 | load32 | store8 | store32 => true
  | _ => false

/-- The number of words after the opcode word. -/
def operandCount (op : Opcode) : Nat := if op.takesOperand then 1 else 0

/-- The number of words of an instruction with this opcode. -/
def width (op : Opcode) : Nat := 1 + op.operandCount

/-- Whether the operand is the offset of an instruction. -/
def hasTarget : Opcode → Bool
  | jmp | jmpIfZero | jmpIfNeg | call | enterTry => true
  | _ => false

end Opcode

end StackMachine
