import StackMachine.Opcode

set_option autoImplicit false

/-! # Errors in assembly text

What can be wrong with a line, and how it is reported.
-/

namespace StackMachine.Assembly

/-- What is wrong with a line. -/
inductive Cause where
  | malformed
  | unknownMnemonic (name : String)
  | missingOperand (opcode : Opcode)
  | unexpectedOperand (opcode : Opcode)
  | invalidOperand (text : String)
  | duplicateLabel (name : String)
  | undefinedLabel (name : String)
  deriving DecidableEq, Repr

/-- An error at a line; lines are counted from one. -/
structure Error where
  line : Nat
  cause : Cause
  deriving DecidableEq, Repr

/-- The wording of a cause. -/
def Cause.message : Cause → String
  | malformed => "syntax error"
  | unknownMnemonic name => s!"unknown mnemonic `{name}`"
  | missingOperand opcode => s!"{opcode.mnemonic} requires an operand"
  | unexpectedOperand opcode => s!"{opcode.mnemonic} takes no operand"
  | invalidOperand text => s!"invalid operand `{text}`"
  | duplicateLabel name => s!"label `{name}` defined twice"
  | undefinedLabel name => s!"undefined label `{name}`"

/-- The wording of an error. -/
def Error.message (e : Error) : String := s!"line {e.line}: {e.cause.message}"

end StackMachine.Assembly
