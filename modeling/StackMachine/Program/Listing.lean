import StackMachine.Program.Basic
import StackMachine.Text.Numeral

set_option autoImplicit false

/-! # Listings

A listing shows a program line by line with addresses: one line for each instruction, and
from the first offset that cannot be decoded on one `.word` line for each slot.
-/

namespace StackMachine

open StackMachine.Text (padLeft)

namespace Listing

/-- A line of a listing: an instruction or a bare slot, with its address. -/
inductive Line where
  | instruction (address : Nat) (i : Instruction)
  | word (address : Nat) (value : Word)
  deriving DecidableEq, Repr

/-- The text of a line, with its newline. -/
def Line.text : Line → String
  | instruction address i => padLeft 5 ' ' (toString address) ++ ": " ++ i.text ++ "\n"
  | word address value => padLeft 5 ' ' (toString address) ++ ": .word " ++ value.text ++ "\n"

end Listing

namespace Program

/-- The lines of the listing of a program. -/
def lines (code : Program) : List Listing.Line :=
  let walk := code.walk
  walk.instructions.map (fun (address, i) => .instruction address i) ++
    (code.toList.drop walk.stop).mapIdx fun k value => .word (walk.stop + k) value

/-- The listing of a program. -/
def listing (code : Program) : String := String.join (code.lines.map Listing.Line.text)

end Program

end StackMachine
