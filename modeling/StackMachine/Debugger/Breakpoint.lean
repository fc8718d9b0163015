set_option autoImplicit false

/-! # Breakpoints

A table of breakpoints by address. Setting a breakpoint that exists only enables it again, so
its count of hits goes on.
-/

namespace StackMachine

/-- A breakpoint, and how often it has paused a run. -/
structure Breakpoint where
  address : Nat
  enabled : Bool := true
  hits : Nat := 0
  deriving DecidableEq, Repr

/-- Breakpoints in increasing order of their addresses. -/
structure BreakpointTable where
  entries : List Breakpoint := []
  deriving DecidableEq, Repr

namespace BreakpointTable

/-- The breakpoint at an address. -/
def find? (t : BreakpointTable) (address : Nat) : Option Breakpoint :=
  t.entries.find? (·.address = address)

/-- Whether a breakpoint exists at an address. -/
def contains (t : BreakpointTable) (address : Nat) : Bool := (t.find? address).isSome

/-- Whether an enabled breakpoint exists at an address. -/
def isActive (t : BreakpointTable) (address : Nat) : Bool :=
  (t.find? address).any Breakpoint.enabled

/-- Change the breakpoint at an address, if there is one. -/
def update (t : BreakpointTable) (address : Nat) (f : Breakpoint → Breakpoint) :
    BreakpointTable :=
  ⟨t.entries.map fun b => if b.address = address then f b else b⟩

/-- Put a breakpoint in its place among breakpoints in increasing order. -/
def insert (b : Breakpoint) : List Breakpoint → List Breakpoint
  | [] => [b]
  | b' :: rest => if b.address < b'.address then b :: b' :: rest else b' :: insert b rest

/-- Set a breakpoint, or enable the one that exists. -/
def set (t : BreakpointTable) (address : Nat) : BreakpointTable :=
  if t.contains address then t.update address fun b => { b with enabled := true }
  else ⟨insert { address } t.entries⟩

/-- Remove the breakpoint at an address. -/
def remove (t : BreakpointTable) (address : Nat) : BreakpointTable :=
  ⟨t.entries.filter (·.address ≠ address)⟩

/-- Enable or disable the breakpoint at an address. -/
def setEnabled (t : BreakpointTable) (address : Nat) (enabled : Bool) : BreakpointTable :=
  t.update address fun b => { b with enabled }

/-- Count a pause at an address. -/
def recordHit (t : BreakpointTable) (address : Nat) : BreakpointTable :=
  t.update address fun b => { b with hits := b.hits + 1 }

/-- What a host can ask of a table. -/
inductive Request where
  | set (address : Nat)
  | remove (address : Nat)
  | setEnabled (address : Nat) (enabled : Bool)
  | clear
  deriving DecidableEq, Repr

/-- Carry out a request. The answer tells whether a breakpoint that is set is new, and whether one
that is removed, enabled or disabled existed. -/
def serve (t : BreakpointTable) : Request → Option Bool × BreakpointTable
  | .set address => (some !t.contains address, t.set address)
  | .remove address => (some (t.contains address), t.remove address)
  | .setEnabled address enabled => (some (t.contains address), t.setEnabled address enabled)
  | .clear => (none, {})

end BreakpointTable

end StackMachine
