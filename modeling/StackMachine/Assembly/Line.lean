import StackMachine.Text.Character

set_option autoImplicit false

/-! # Lines of assembly text

A line may define a label and may carry an instruction:

    [label :] [mnemonic [operand]]

Blanks may stand anywhere between these parts and must stand between mnemonic and operand; `;`
starts a comment. An operand is any run of characters without a blank, so a line such as
`a :b` can be read with and without a label; the reading with a label is preferred.
-/

namespace StackMachine.Assembly

open StackMachine.Text (isBlank)

/-- Whether a character can start an identifier. -/
def isIdentifierStart (c : Char) : Bool := c.isAlpha || c == '_'

/-- Whether a character can continue an identifier. -/
def isIdentifierPart (c : Char) : Bool := c.isAlphanum || c == '_'

/-- The instruction part of a line. -/
structure Body where
  mnemonic : String
  operand : Option String
  deriving DecidableEq, Repr

/-- What a line says. -/
structure Line where
  label : Option String
  body : Option Body
  deriving DecidableEq, Repr

/-- The longest identifier at the front of a text, with the text after it. -/
def identifier? : List Char → Option (String × List Char)
  | [] => none
  | c :: cs =>
    if isIdentifierStart c then
      some (String.ofList (c :: cs.takeWhile isIdentifierPart), cs.dropWhile isIdentifierPart)
    else none

/-- Read a text made of one run of characters without a blank, or of nothing. Blanks may
surround the run. -/
def token? (text : List Char) : Option (Option String) :=
  match text.dropWhile isBlank with
  | [] => some none
  | c :: cs =>
    if (cs.dropWhile (!isBlank ·)).all isBlank then
      some (some (String.ofList (c :: cs.takeWhile (!isBlank ·))))
    else none

/-- Read the instruction part of a line; it may be missing. -/
def body? (text : List Char) : Option (Option Body) :=
  match text.dropWhile isBlank with
  | [] => some none
  | c :: cs =>
    (identifier? (c :: cs)).bind fun (mnemonic, rest) =>
      match rest with
      | [] => some (some ⟨mnemonic, none⟩)
      | d :: _ =>
        if isBlank d then (token? rest).map fun operand => some ⟨mnemonic, operand⟩ else none

/-- Read a line that starts with a label. -/
def labelled? (text : List Char) : Option Line :=
  (identifier? (text.dropWhile isBlank)).bind fun (label, rest) =>
    match rest.dropWhile isBlank with
    | ':' :: rest => (body? rest).map fun body => ⟨some label, body⟩
    | _ => none

/-- Read a line without its comment. -/
def Line.parse? (text : List Char) : Option Line :=
  match labelled? text with
  | some line => some line
  | none => (body? text).map fun body => ⟨none, body⟩

/-- A line up to its comment. -/
def uncommented (text : List Char) : List Char := text.takeWhile (· ≠ ';')

/-- The lines of a text. -/
def splitLines : List Char → List (List Char)
  | [] => [[]]
  | c :: cs =>
    if c = '\n' then [] :: splitLines cs
    else
      match splitLines cs with
      | [] => [[c]]
      | line :: lines => (c :: line) :: lines

end StackMachine.Assembly
