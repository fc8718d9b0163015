set_option autoImplicit false

/-! # Words

The machine computes on 32-bit words in two's complement. Positions in code, slots and bytes
are natural numbers; a word names a position when it is not negative (`Word.index?`), and a
position becomes a word by keeping its low 32 bits (`Word.ofIndex`).
-/

namespace StackMachine

/-- A signed 32-bit word. Arithmetic on words is modulo `2 ^ 32`. -/
abbrev Word := Int32

namespace Word

/-- The position a word names; a negative word names none. -/
def index? (w : Word) : Option Nat :=
  if 0 ≤ w.toInt then some w.toInt.toNat else none

/-- The word with the low 32 bits of a position. -/
def ofIndex (n : Nat) : Word := Int32.ofInt n

/-- The number of positions that words can name, `2 ^ 31`. -/
def positions : Nat := 2147483648

/-- The word of an integer, if the integer is in range. -/
def ofInt? (i : Int) : Option Word :=
  if -(positions : Int) ≤ i ∧ i < positions then some (Int32.ofInt i) else none

/-- A word in decimal. -/
def text (w : Word) : String := toString w.toInt

end Word

/-- The number of sizes and offsets that the machine can count, `2 ^ 64`. -/
def sizeBound : Nat := 18446744073709551616

end StackMachine
