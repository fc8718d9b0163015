import StackMachine.Json.Token

set_option autoImplicit false

/-! # Flat JSON documents

Configurations and program files are objects or arrays whose members are scalars.
-/

namespace StackMachine.Json

/-- An object or an array of scalars. -/
inductive Document where
  | object (members : List (String × Scalar))
  | array (items : List Scalar)
  deriving DecidableEq, Repr

/-- Read the members of an object up to the end of the text. -/
def members? : List Token → Option (List (String × Scalar))
  | [.text name, .colon, .scalar value, .closeObject] => some [(name, value)]
  | .text name :: .colon :: .scalar value :: .comma :: rest =>
    (members? rest).map ((name, value) :: ·)
  | _ => none

/-- Read the items of an array up to the end of the text. -/
def items? : List Token → Option (List Scalar)
  | [.scalar value, .closeArray] => some [value]
  | .scalar value :: .comma :: rest => (items? rest).map (value :: ·)
  | _ => none

/-- Read a document from its tokens. -/
def Document.ofTokens? : List Token → Option Document
  | [.openObject, .closeObject] => some (.object [])
  | [.openArray, .closeArray] => some (.array [])
  | .openObject :: rest => (members? rest).map .object
  | .openArray :: rest => (items? rest).map .array
  | _ => none

/-- Read a document from a text. -/
def Document.parse? (text : String) : Option Document :=
  (tokens? text.toList).bind Document.ofTokens?

end StackMachine.Json
