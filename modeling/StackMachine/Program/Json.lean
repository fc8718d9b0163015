import StackMachine.Json.Document
import StackMachine.Program.Basic

set_option autoImplicit false

/-! # Programs as JSON

A program can be given as a JSON array of its words.
-/

namespace StackMachine.Program

open StackMachine.Json

/-- A word given as a scalar. -/
def word? : Scalar → Option Word
  | .integer i => Word.ofInt? i
  | _ => none

/-- Read a program from a JSON array of words. -/
def parseJson? (text : String) : Option Program :=
  (Document.parse? text).bind fun
    | .array items => (items.mapM word?).map List.toArray
    | .object _ => none

end StackMachine.Program
