set_option autoImplicit false

/-! # Writing JSON

JSON values and their compact text, which has no blanks between tokens.
-/

namespace StackMachine.Json

/-- A JSON value. -/
inductive Value where
  | null
  | integer (value : Int)
  | text (value : String)
  | array (items : List Value)
  | object (members : List (String × Value))

/-- A character inside a JSON string. -/
def stringChar (c : Char) : String :=
  match c with
  | '"' => "\\\""
  | '\\' => "\\\\"
  | '\x08' => "\\b"
  | '\x0c' => "\\f"
  | '\n' => "\\n"
  | '\r' => "\\r"
  | '\t' => "\\t"
  | c =>
    if c.toNat < 0x20 then
      "\\u00" ++ (if c.toNat < 0x10 then "0" else "") ++ String.ofList (Nat.toDigits 16 c.toNat)
    else c.toString

/-- A JSON string. -/
def quote (text : String) : String :=
  "\"" ++ String.join (text.toList.map stringChar) ++ "\""

namespace Value

mutual

/-- The compact text of a value. -/
def compact : Value → String
  | null => "null"
  | integer i => toString i
  | text s => quote s
  | array items => "[" ++ compactItems items ++ "]"
  | object members => "\x7b" ++ compactMembers members ++ "\x7d"

/-- The compact text of array items. -/
def compactItems : List Value → String
  | [] => ""
  | [v] => compact v
  | v :: rest => compact v ++ "," ++ compactItems rest

/-- The compact text of object members. -/
def compactMembers : List (String × Value) → String
  | [] => ""
  | [(name, v)] => quote name ++ ":" ++ compact v
  | (name, v) :: rest => quote name ++ ":" ++ compact v ++ "," ++ compactMembers rest

end

/-- Put a member in its place among members in increasing order of their names. -/
def insertMember (name : String) (v : Value) : List (String × Value) → List (String × Value)
  | [] => [(name, v)]
  | (name', v') :: rest =>
    if name < name' then (name, v) :: (name', v') :: rest
    else (name', v') :: insertMember name v rest

mutual

/-- The same value with the members of every object in increasing order of their names. -/
def sorted : Value → Value
  | null => null
  | integer i => integer i
  | text s => text s
  | array items => array (sortedItems items)
  | object members => object (sortedMembers members)

/-- Array items with sorted members. -/
def sortedItems : List Value → List Value
  | [] => []
  | v :: rest => sorted v :: sortedItems rest

/-- Object members in increasing order of their names. -/
def sortedMembers : List (String × Value) → List (String × Value)
  | [] => []
  | (name, v) :: rest => insertMember name (sorted v) (sortedMembers rest)

end

end Value

end StackMachine.Json
