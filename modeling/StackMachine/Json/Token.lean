import StackMachine.Text.Numeral

set_option autoImplicit false

/-! # Tokens of JSON

A JSON text is cut into tokens; spaces, tabs and line ends between tokens are skipped. Numbers
are whole numbers: a number with a fraction or an exponent and the number `-0` are refused, as
are escapes for halves of surrogate pairs in strings.
-/

namespace StackMachine.Json

open StackMachine.Text

/-- A value without parts. -/
inductive Scalar where
  | null
  | bool (value : Bool)
  | integer (value : Int)
  deriving DecidableEq, Repr

/-- A token of a JSON text. -/
inductive Token where
  | openObject
  | closeObject
  | openArray
  | closeArray
  | colon
  | comma
  | text (value : String)
  | scalar (value : Scalar)
  deriving DecidableEq, Repr

/-- Whether a character may stand between tokens. -/
def isSpace (c : Char) : Bool := c == ' ' || c == '\t' || c == '\n' || c == '\r'

/-- The character for a one-letter escape. -/
def escaped? : Char → Option Char
  | '"' => some '"'
  | '\\' => some '\\'
  | '/' => some '/'
  | 'b' => some '\x08'
  | 'f' => some '\x0c'
  | 'n' => some '\n'
  | 'r' => some '\r'
  | 't' => some '\t'
  | _ => none

/-- The character with a code written in four hexadecimal digits. -/
def escapedCode? (digits : List Char) : Option Char :=
  (Numeral.value? 16 digits).bind fun code =>
    if code < 0xD800 ∨ 0xDFFF < code then some (Char.ofNat code) else none

/-- The characters of a string up to its closing quote, and what follows the quote. -/
def stringBody? : List Char → Option (List Char × List Char)
  | [] => none
  | '"' :: rest => some ([], rest)
  | '\\' :: 'u' :: a :: b :: c :: d :: rest => do
    let char ← escapedCode? [a, b, c, d]
    let (chars, rest) ← stringBody? rest
    return (char :: chars, rest)
  | '\\' :: c :: rest => do
    let char ← escaped? c
    let (chars, rest) ← stringBody? rest
    return (char :: chars, rest)
  | c :: rest =>
    if c.toNat < 0x20 then none
    else do
      let (chars, rest) ← stringBody? rest
      return (c :: chars, rest)

/-- A whole number at the front of a text, and what follows it. -/
def integer? (text : List Char) : Option (Int × List Char) :=
  let (negative, text) :=
    match text with
    | '-' :: rest => (true, rest)
    | text => (false, text)
  let digits := text.takeWhile Char.isDigit
  let rest := text.dropWhile Char.isDigit
  if 1 < digits.length ∧ digits.head? = some '0' then none
  else if rest.head?.any (fun c => c = '.' ∨ c = 'e' ∨ c = 'E') then none
  else
    (Numeral.value? 10 digits).bind fun n =>
      match negative, n with
      | false, n => some (n, rest)
      | true, 0 => none
      | true, n => some (-n, rest)

/-- The token at the front of a text, and what follows it. -/
def token? : List Char → Option (Token × List Char)
  | [] => none
  | '\x7b' :: rest => some (.openObject, rest)
  | '\x7d' :: rest => some (.closeObject, rest)
  | '[' :: rest => some (.openArray, rest)
  | ']' :: rest => some (.closeArray, rest)
  | ':' :: rest => some (.colon, rest)
  | ',' :: rest => some (.comma, rest)
  | 'n' :: 'u' :: 'l' :: 'l' :: rest => some (.scalar .null, rest)
  | 't' :: 'r' :: 'u' :: 'e' :: rest => some (.scalar (.bool true), rest)
  | 'f' :: 'a' :: 'l' :: 's' :: 'e' :: rest => some (.scalar (.bool false), rest)
  | '"' :: rest => (stringBody? rest).map fun (chars, rest) => (.text (String.ofList chars), rest)
  | text => (integer? text).map fun (i, rest) => (.scalar (.integer i), rest)

/-- Cut a text into at most `count` tokens. -/
def tokensUpTo? : Nat → List Char → Option (List Token)
  | count, text =>
    match text.dropWhile isSpace with
    | [] => some []
    | c :: cs =>
      match count with
      | 0 => none
      | count + 1 => do
        let (token, rest) ← token? (c :: cs)
        return token :: (← tokensUpTo? count rest)

/-- Cut a text into tokens. Every token has a character, so there are not more tokens than
characters. -/
def tokens? (text : List Char) : Option (List Token) := tokensUpTo? text.length text

end StackMachine.Json
