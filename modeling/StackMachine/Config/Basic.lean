set_option autoImplicit false

/-! # Configurations

The limits of a machine. A configuration is usable when no stack or memory is empty and the
memories are not larger than fixed maxima (`Config.check`).
-/

namespace StackMachine

/-- The limits of a machine and what it records. -/
structure Config where
  maxStackDepth : Nat := 1024
  maxCallDepth : Nat := 256
  slotsPerFrame : Nat := 16
  globalSlots : Nat := 256
  heapSize : Nat := 65536
  instructionBudget : Option Nat := none
  traceInstructions : Bool := false
  maxTraceLength : Nat := 10000
  deriving DecidableEq, Repr

namespace Config

/-- The largest heap, in bytes. -/
def maxHeapSize : Nat := 16777216

/-- The largest number of global slots. -/
def maxGlobalSlots : Nat := 1048576

/-- The largest number of local slots of all frames together. -/
def maxLocalSlots : Nat := 4194304

/-- Why a configuration cannot be used. -/
inductive Problem where
  | zero (field : String)
  | heapTooLarge (size : Nat)
  | tooManyGlobals (count : Nat)
  | tooManyLocals
  deriving DecidableEq, Repr

/-- The wording of a problem. -/
def Problem.message : Problem → String
  | zero field => s!"Invalid config: {field} must be greater than zero"
  | heapTooLarge size => s!"Invalid config: heap_size {size} exceeds maximum {maxHeapSize}"
  | tooManyGlobals count =>
    s!"Invalid config: global_slots {count} exceeds maximum {maxGlobalSlots}"
  | tooManyLocals =>
    s!"Invalid config: max_call_depth * slots_per_frame exceeds maximum {maxLocalSlots}"

/-- The first problem of a configuration. -/
def problem? (c : Config) : Option Problem :=
  if c.maxStackDepth = 0 then some (.zero "max_stack_depth")
  else if c.maxCallDepth = 0 then some (.zero "max_call_depth")
  else if c.slotsPerFrame = 0 then some (.zero "slots_per_frame")
  else if c.globalSlots = 0 then some (.zero "global_slots")
  else if maxHeapSize < c.heapSize then some (.heapTooLarge c.heapSize)
  else if maxGlobalSlots < c.globalSlots then some (.tooManyGlobals c.globalSlots)
  else if maxLocalSlots < c.maxCallDepth * c.slotsPerFrame then some .tooManyLocals
  else none

/-- The configuration itself, if it can be used. -/
def check (c : Config) : Except Problem Config :=
  match c.problem? with
  | none => .ok c
  | some problem => .error problem

end Config

end StackMachine
