import StackMachine.Word
import StackMachine.Assembly.Line
import StackMachine.Text.Numeral

set_option autoImplicit false

/-! # Operands of assembly text

An operand is a word or the name of a label. A word is written in decimal, or in hexadecimal
after `0x`; a `-` in front negates it. The digits after `0x` may carry a sign of their own, so
`0x-5` and `-0x5` are the same word.
-/

namespace StackMachine.Assembly

open StackMachine.Text

/-- An operand before its label is resolved. -/
inductive Operand where
  | literal (value : Word)
  | label (name : String)
  deriving DecidableEq, Repr

/-- The number written by decimal digits, or by `0x` and signed hexadecimal digits. -/
def number? : List Char → Option Int
  | '0' :: 'x' :: digits => Numeral.signed? 16 digits
  | '0' :: 'X' :: digits => Numeral.signed? 16 digits
  | digits => (Numeral.value? 10 digits).map Int.ofNat

/-- Read an operand. A text that starts like a number must be a number in the range of words; any
other text names a label if it starts like an identifier. -/
def Operand.parse? (text : List Char) : Option Operand :=
  match text with
  | [] => none
  | c :: cs =>
    if c.isDigit then (number? text).bind fun n => (Word.ofInt? n).map .literal
    else if c = '-' then
      if cs.head?.any Char.isDigit then
        (number? cs).bind fun n => (Word.ofInt? (-n)).map .literal
      else none
    else if isIdentifierStart c then some (.label (String.ofList text))
    else none

end StackMachine.Assembly
