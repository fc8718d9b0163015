set_option autoImplicit false

/-! # Numerals

Reading whole numbers from digits in a base up to sixteen. A numeral is a non-empty run of
digits; a signed numeral may have one sign in front. Nothing else is allowed: no blanks and no
separators. Numerals of different lengths are moved to the right to fill a column.
-/

namespace StackMachine.Text

namespace Numeral

/-- The value of a digit character, if it is a digit of the base. -/
def digit? (base : Nat) (c : Char) : Option Nat :=
  let value :=
    if '0' ≤ c ∧ c ≤ '9' then some (c.toNat - '0'.toNat)
    else if 'a' ≤ c ∧ c ≤ 'f' then some (c.toNat - 'a'.toNat + 10)
    else if 'A' ≤ c ∧ c ≤ 'F' then some (c.toNat - 'A'.toNat + 10)
    else none
  value.filter (· < base)

/-- The value of a run of digits continued after digits with the value `high`. -/
def valueFrom? (base : Nat) : Nat → List Char → Option Nat
  | high, [] => some high
  | high, c :: cs => (digit? base c).bind fun d => valueFrom? base (high * base + d) cs

/-- The value of a non-empty run of digits. -/
def value? (base : Nat) : List Char → Option Nat
  | [] => none
  | cs => valueFrom? base 0 cs

/-- The value of a numeral with at most one sign in front. -/
def signed? (base : Nat) : List Char → Option Int
  | '+' :: cs => (value? base cs).map Int.ofNat
  | '-' :: cs => (value? base cs).map fun n => -Int.ofNat n
  | cs => (value? base cs).map Int.ofNat

/-- The value of a numeral with at most a plus sign in front. -/
def unsigned? (base : Nat) : List Char → Option Nat
  | '+' :: cs => value? base cs
  | cs => value? base cs

end Numeral

/-! ## Columns -/

/-- A text with a filler in front that makes it at least `width` characters long. -/
def padLeft (width : Nat) (filler : Char) (text : String) : String :=
  String.ofList (List.replicate (width - text.length) filler) ++ text

end StackMachine.Text
