import StackMachine.Heap.Basic
import StackMachine.Text.Numeral

set_option autoImplicit false

/-! # Heap dumps

A dump shows bytes in hexadecimal, sixteen to a line, each line after the address of its first
byte:

    00000010: 48656c6c6f000000
-/

namespace StackMachine.Heap

open StackMachine.Text

/-- The two hexadecimal digits of a byte. -/
def byteDigits (b : UInt8) : String :=
  padLeft 2 '0' (String.ofList (Nat.toDigits 16 b.toNat))

/-- The bytes of a line. -/
def dumpRow (bytes : Array UInt8) (line : Nat) : List UInt8 :=
  (bytes.extract (16 * line) (16 * line + 16)).toList

/-- The number of lines for a number of bytes. -/
def dumpHeight (size : Nat) : Nat := (size + 15) / 16

/-- The line of a dump for bytes at an address. -/
def dumpLine (address : Nat) (row : List UInt8) : String :=
  padLeft 8 '0' (String.ofList (Nat.toDigits 16 address)) ++ ": " ++
    String.join (row.map byteDigits) ++ "\n"

/-- The dump of the `size` bytes at an address. -/
def dump (h : Heap) (address : Word) (size : Nat) : Except Fault String := do
  let bytes := (← h.slice address size).toArray
  let lines := (List.range (dumpHeight size)).map fun i =>
    dumpLine (address.toInt.toNat + 16 * i) (dumpRow bytes i)
  return String.join lines

end StackMachine.Heap
