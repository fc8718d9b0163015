import StackMachine.Proofs.Execution.Locals
import StackMachine.Proofs.Execution.Offsets
import StackMachine.Proofs.Unchecked.Data

set_option autoImplicit false

/-! # Unchecked steps

What an instruction, and the step around it, rely on without checking it: the window of a call and
the slots in it are among the local slots, positions behind an instruction can be counted, a handler
that receives an exception has room for its value, and so on. A state that fits usable limits and
stands inside a program of fewer than `2 ^ 31` words is in range for all this (`InRange`), so
executing an instruction there does not go wrong (`Unchecked.meets_execute`), nor does the step
around it (`Unchecked.step_eq`).
-/

namespace StackMachine.Unchecked

open StackMachine.Action

/-! ## Instructions -/

/-- Run a computation on the heap of a state. -/
def onStateHeap {α : Type} (x : Unchecked Heap α) : Unchecked State α :=
  x.within State.heap fun s heap => { s with heap }

/-- Use the index of a global slot if it has been found. -/
def globalSlot (address : Word) : Unchecked State Unit :=
  look fun s =>
    match s.memory.globalIndex address with
    | .ok i => require (i < s.memory.globals.size)
    | .error _ => pure ()

/-- Compute the index of a local slot in the window at `base`, and use it if it is found to be a
slot. The sum is computed for every offset into the window. -/
def localSlot (base : Nat) (offset : Word) : Unchecked State Unit := do
  require (base ≤ Config.maxLocalSlots)
  look fun s =>
    match Word.index? offset with
    | some i => require (i < s.memory.slotsPerFrame → base + i ≤ Config.maxLocalSlots)
    | none => pure ()
  look fun s =>
    match s.memory.localIndex base offset with
    | .ok i => require (i < s.memory.locals.size)
    | .error _ => pure ()

/-- Enter a call: compute where it returns to and, if there is room for its frame, which window it
owns. -/
def enter (target : Nat) : Unchecked State Flow := do
  look fun s => require (s.pc + 2 < sizeBound)
  look fun s => require (s.calls.depth < s.calls.maxDepth →
    s.calls.depth * s.calls.slotsPerFrame ≤ Config.maxLocalSlots)
  of (State.enter target)

/-- Hand out heap bytes and name the block. -/
def malloc : Unchecked State Unit := do
  let size ← of State.pop
  match Word.index? size with
  | none => of (throw (.invalidAllocationSize size))
  | some count => do
    let base ← onStateHeap (allocate count)
    name base
    of (State.push (Word.ofIndex base))

/-- Deliver an exception. Once there is a handler with room, the value must fit on the stack. -/
def deliver (value : Word) : Unchecked State (Option Nat) := fun s =>
  match s.handlers.innermost? with
  | none => some (.ok none s)
  | some handler =>
    if handler.stackPointer < s.stack.limit then
      match OperandStack.push value (s.stack.truncate handler.stackPointer) with
      | .ok _ stack =>
        some (.ok (some handler.target)
          { s with
            handlers := s.handlers.dropInnermost
            calls := s.calls.unwindTo handler.callDepth
            stack })
      | .error _ _ => none
    else some (.error (.stackOverflow s.stack.limit) s)

/-- Raise the topmost word as an exception. -/
def raise : Unchecked State Flow := do
  let value ← of State.pop
  match ← deliver value with
  | some target => return .jump target
  | none => of do
    let s ← get
    throw (.uncaughtException value (s.calls.trace s.pc))

/-- The effect of an instruction, with the standard builtins. -/
def execute (env : Environment) : Instruction → Unchecked State Flow
  | .callBuiltin => do
    let id ← of State.pop
    (callBuiltin id).within (fun s => ⟨s.stack, s.heap, s.output⟩)
      fun s c => { s with stack := c.stack, heap := c.heap, output := c.output }
    return .next
  | .call target => do
    let offset ← of (Action.ofExcept (env.target target))
    enter offset
  | .load address => do
    globalSlot address
    of (State.execute env (.load address))
  | .store address => do
    let w ← of State.pop
    globalSlot address
    of (State.onMemory (Memory.storeGlobal address w))
    return .next
  | .loadLocal offset => do
    let frame ← of (State.query (·.calls.top))
    localSlot frame.base offset
    of do
      State.push (← State.query (·.memory.loadLocal frame.base offset))
      return .next
  | .storeLocal offset => do
    let frame ← of (State.query (·.calls.top))
    let w ← of State.pop
    localSlot frame.base offset
    of do
      State.onMemory (Memory.storeLocal frame.base offset w)
      return .next
  | .throw => raise
  | .malloc => do
    malloc
    return .next
  | .load8 address => do
    onStateHeap (access address 1)
    of (State.execute env (.load8 address))
  | .load32 address => do
    onStateHeap (access address 4)
    of (State.execute env (.load32 address))
  | .store8 address => do
    let w ← of State.pop
    onStateHeap (access address 1)
    of do
      State.onHeap (Heap.store8 address w)
      return .next
  | .store32 address => do
    let w ← of State.pop
    onStateHeap (access address 4)
    of do
      State.onHeap (Heap.store32 address w)
      return .next
  | .load8Ind => do
    let address ← of State.pop
    onStateHeap (access address 1)
    of do
      State.push (← State.query (·.heap.load8 address))
      return .next
  | .load32Ind => do
    let address ← of State.pop
    onStateHeap (access address 4)
    of do
      State.push (← State.query (·.heap.load32 address))
      return .next
  | .store8Ind => do
    let (address, w) ← of State.popPair
    onStateHeap (access address 1)
    of do
      State.onHeap (Heap.store8 address w)
      return .next
  | .store32Ind => do
    let (address, w) ← of State.popPair
    onStateHeap (access address 4)
    of do
      State.onHeap (Heap.store32 address w)
      return .next
  | i => of (State.execute env i)

/-! ## States in range -/

/-- The state fits usable limits and stands at a position that a word can name. -/
structure InRange (config : Config) (s : State) : Prop where
  usable : config.problem? = none
  fits : s.Fits config
  pc : s.pc < Word.positions

namespace InRange

variable {config : Config} {s s' : State}

theorem of_bounded (h : InRange config s) (hb : State.Bounded s s') : InRange config s' where
  usable := h.usable
  fits := h.fits.bounded hb
  pc := by rw [hb.control.pc]; exact h.pc

theorem heap (h : InRange config s) : s.heap.Admissible where
  cursor_le := h.fits.heap.cursor
  capacity_le := by
    rw [h.fits.heap.capacity]
    exact Config.heapSize_le h.usable

/-- Usable limits keep the windows of all calls among the local slots. -/
theorem windows_le (h : InRange config s) {n : Nat} (hn : n ≤ config.maxCallDepth) :
    n * config.slotsPerFrame ≤ Config.maxLocalSlots := by
  calc n * config.slotsPerFrame
      ≤ config.maxCallDepth * config.slotsPerFrame := Nat.mul_le_mul_right _ hn
    _ ≤ Config.maxLocalSlots := Config.localSlots_le h.usable

/-- The slots in the window of the innermost call. -/
theorem slot_le (h : InRange config s) {frame : Frame} (hframe : s.calls.top = .ok frame) {i : Nat}
    (hi : i ≤ config.slotsPerFrame) : frame.base + i ≤ Config.maxLocalSlots := by
  have hback : s.calls.frames.back? = some frame := State.top_eq_ok.mp hframe
  have hactive : 0 < s.calls.depth := by
    have hsome : s.calls.frames.back?.isSome := by rw [hback]; rfl
    simpa [CallStack.depth, Array.back?_isSome, Array.size_pos_iff] using hsome
  obtain ⟨frame', hback', hbase⟩ := h.fits.innermost_base hactive
  cases hback.symm.trans hback'
  have hwindow := h.windows_le (n := s.calls.depth - 1 + 1)
    (by have := h.fits.calls.depth; omega)
  rw [Nat.succ_mul] at hwindow
  omega

end InRange

/-! ## Executing instructions -/

section Execute

variable {config : Config} {env : Environment} {P : State → Prop}

/-- Instructions and standard builtins keep all bounds. -/
theorem covers_standard (hb : env.builtins = .standard) :
    State.Covers env State.Bounded Fault.Catchable :=
  State.covers_bounded (fun _ h => h) (hb ▸ Registry.standard_obeys)

/-- Taking a word from the operand stack keeps a state in range. -/
theorem InRange.pop {α : Type} {f : Word → Unchecked State α} {g : Word → Action State α}
    (hf : ∀ w, Meets (InRange config) (f w) (g w)) :
    Meets (InRange config) (of State.pop >>= f) (State.pop >>= g) :=
  (Meets.of State.pop).bind_keeps (@covers_standard {} rfl).pop InRange.of_bounded hf

theorem InRange.popPair {α : Type} {f : Word × Word → Unchecked State α}
    {g : Word × Word → Action State α} (hf : ∀ ws, Meets (InRange config) (f ws) (g ws)) :
    Meets (InRange config) (of State.popPair >>= f) (State.popPair >>= g) :=
  (Meets.of State.popPair).bind_keeps (@covers_standard {} rfl).popPair InRange.of_bounded hf

/-- A state in which `frame` belongs to the innermost call. -/
def InRange.Inside (config : Config) (frame : Frame) (s : State) : Prop :=
  InRange config s ∧ s.calls.top = .ok frame

/-- Asking for the innermost call. -/
theorem InRange.top {α : Type} {f : Frame → Unchecked State α} {g : Frame → Action State α}
    (hf : ∀ frame, Meets (Inside config frame) (f frame) (g frame)) :
    Meets (InRange config) (of (State.query (·.calls.top)) >>= f)
      (State.query (·.calls.top) >>= g) := by
  refine (Meets.of _).bind ?_ hf
  intro s frame s' hs hok
  obtain ⟨htop, rfl⟩ := State.query_eq_ok.mp hok
  exact ⟨hs, htop⟩

theorem harmless_onStateHeap {x : Unchecked Heap Unit} (hx : Harmless Heap.Admissible x) :
    Harmless (InRange config) (onStateHeap x) :=
  hx.within (fun _ hs => hs.heap) fun _ => rfl

theorem harmless_globalSlot (address : Word) : Harmless P (globalSlot address) := by
  refine Meets.look fun s _ => ?_
  cases hindex : s.memory.globalIndex address with
  | error fault => exact Meets.pure ()
  | ok i =>
      have hlt : i < s.memory.globals.size := by
        unfold Memory.globalIndex at hindex
        split at hindex
        · split at hindex
          · next hlt => cases hindex; exact hlt
          · cases hindex
        · cases hindex
      exact harmless_require hlt

/-- **Reaching for a local slot does not go wrong** in the window of the innermost call. -/
theorem harmless_localSlot {frame : Frame} (offset : Word) :
    Harmless (InRange.Inside config frame) (localSlot frame.base offset) := by
  have hslot : ∀ s, InRange.Inside config frame s → ∀ i ≤ config.slotsPerFrame,
      frame.base + i ≤ Config.maxLocalSlots := fun s hs i hi => hs.1.slot_le hs.2 hi
  refine .after (fun s hs => if_pos (hslot s hs 0 (Nat.zero_le _))) (.after ?_ ?_)
  · refine Meets.look fun s hs => ?_
    cases Word.index? offset with
    | none => exact Meets.pure ()
    | some i =>
        refine harmless_require fun hi => hslot s hs i ?_
        rw [hs.1.fits.memory.slotsPerFrame] at hi
        exact Nat.le_of_lt hi
  · refine Meets.look fun s _ => ?_
    cases hindex : s.memory.localIndex frame.base offset with
    | error fault => exact Meets.pure ()
    | ok i =>
        have hlt : i < s.memory.locals.size := by
          unfold Memory.localIndex at hindex
          split at hindex
          · split at hindex
            · next hlt => cases hindex; exact hlt.2
            · cases hindex
          · cases hindex
        exact harmless_require hlt

/-- **Entering a call does not go wrong**: its window is one of those that the limits allow. -/
theorem meets_enter (target : Nat) :
    Meets (InRange config) (enter target) (State.enter target) := by
  refine .after (Meets.look fun s hs => harmless_require ?_)
    (.after (Meets.look fun s hs => harmless_require ?_) (Meets.of _))
  · have hpc := hs.pc
    unfold Word.positions at hpc
    unfold sizeBound
    omega
  · intro hroom
    rw [hs.fits.calls.slotsPerFrame]
    refine hs.windows_le ?_
    rw [← hs.fits.calls.maxDepth]
    exact Nat.le_of_lt hroom

/-- **Handing out bytes does not go wrong**, and words can name them. -/
theorem meets_malloc : Meets (InRange config) malloc State.malloc := by
  refine InRange.pop fun size => ?_
  cases Word.index? size with
  | none => exact Meets.of _
  | some count =>
      refine Meets.bind (R := fun base (s : State) => HasBlock count base s.heap)
        (Meets.within (meets_allocate count) fun _ hs => hs.heap) ?_ fun base => ?_
      · intro s base s' hs hok
        unfold State.onHeap Action.within at hok
        cases hallocate : Heap.allocate count s.heap with
        | ok base' h' =>
            simp only [hallocate, EStateM.Result.ok.injEq] at hok
            obtain ⟨rfl, rfl⟩ := hok
            exact hasBlock_of_allocate hs.heap hallocate
        | error fault h' => simp [hallocate] at hok
      · exact .after (harmless_name fun _ hblock => hblock.lt_positions) (Meets.of _)

/-- **Delivering an exception does not go wrong**: a handler that has room gets its value. -/
theorem meets_deliver (value : Word) : Meets P (deliver value) (State.deliver value) := by
  intro s _
  unfold deliver State.deliver
  cases s.handlers.innermost? with
  | none => rfl
  | some handler =>
      by_cases hroom : handler.stackPointer < s.stack.limit
      · -- going back to a depth below the limit leaves room for the value
        have hpush : OperandStack.push value (s.stack.truncate handler.stackPointer) =
            .ok () { s.stack with
              values := (s.stack.values.shrink handler.stackPointer).push value } := by
          refine if_pos ?_
          show (s.stack.values.shrink handler.stackPointer).size < s.stack.limit
          rw [Array.size_shrink]
          omega
        dsimp only
        rw [if_pos hroom, if_pos hroom, hpush]
      · dsimp only
        rw [if_neg hroom, if_neg hroom]

theorem meets_raise : Meets (InRange config) raise State.raise := by
  refine InRange.pop fun value => (meets_deliver value).bind_any fun answer => ?_
  cases answer with
  | some target => exact Meets.pure _
  | none => exact Meets.of _

/-- An access of the heap does not go wrong, whatever follows. -/
theorem meets_access {α : Type} (address : Word) (size : Nat) (x : Action State α) :
    Meets (InRange config) (onStateHeap (access address size) >>= fun _ => of x) x :=
  .after (harmless_onStateHeap (harmless_access address size)) (Meets.of x)

/-- **Executing an instruction does not go wrong.** -/
theorem meets_execute (hb : env.builtins = .standard) (i : Instruction) :
    Meets (InRange config) (execute env i) (State.execute env i) := by
  cases i with
  | callBuiltin =>
      refine InRange.pop fun id => ?_
      rw [hb]
      exact (Meets.within (meets_callBuiltin id) fun _ hs => hs.heap).bind_any
        fun _ => Meets.pure _
  | call target =>
      exact (Meets.of _).bind_keeps (R := Eq) (Q := fun _ => True) (E := fun _ => True)
        (Obeys.ofExcept (fun _ _ => trivial) fun _ _ => trivial) (fun hs h => h ▸ hs)
        fun offset => meets_enter offset
  | load address => exact .after (harmless_globalSlot address) (Meets.of _)
  | store address =>
      refine InRange.pop fun w => .after (harmless_globalSlot address) ?_
      exact (Meets.of _).bind_any fun _ => Meets.pure _
  | loadLocal offset =>
      exact InRange.top fun frame => .after (harmless_localSlot offset) (Meets.of _)
  | storeLocal offset =>
      refine InRange.top fun frame => ?_
      -- the stored word is taken first, which leaves the calls alone
      refine (Meets.of State.pop).bind_keeps (covers_standard hb).pop (fun hs hbounded => ?_)
        fun w => .after (harmless_localSlot offset) (Meets.of _)
      exact ⟨hs.1.of_bounded hbounded, by rw [hbounded.control.calls]; exact hs.2⟩
  | throw => exact meets_raise
  | malloc => exact meets_malloc.bind_any fun _ => Meets.pure _
  | load8 address => exact meets_access address 1 _
  | load32 address => exact meets_access address 4 _
  | store8 address => exact InRange.pop fun w => meets_access address 1 _
  | store32 address => exact InRange.pop fun w => meets_access address 4 _
  | load8Ind => exact InRange.pop fun address => meets_access address 1 _
  | load32Ind => exact InRange.pop fun address => meets_access address 4 _
  | store8Ind => exact InRange.popPair fun (address, w) => meets_access address 1 _
  | store32Ind => exact InRange.popPair fun (address, w) => meets_access address 4 _
  | _ => exact Meets.of _

end Execute

/-! ## Steps -/

/-- The next instruction. Its position must be inside the code. -/
def fetch (s : State) (code : Program) (budget : Option Nat) :
    Option (Except (Option Opcode × Fault) Instruction) :=
  if budget.any (· ≤ s.executed) then
    some (.error (code.opcodeAt? s.pc, .instructionBudgetExhausted))
  else if s.pc + 1 < sizeBound then
    match code.decode s.pc with
    | .ok i => some (.ok i)
    | .error (.unknownOpcode value _) => some (.error (none, .unknownOpcode value))
    | .error (.missingOperand opcode _) => some (.error (some opcode, .missingOperand opcode))
    | .error (.outOfBounds _) => none
  else none

/-- The effect of an opcode with the operand that was read for it, if one was. -/
def dispatch (env : Environment) (opcode : Opcode) (operand : Option Word) : Unchecked State Flow :=
  match opcode.form, operand with
  | .plain i, _ => execute env i
  | .immediate f, some w => execute env (f w)
  | .immediate _, none => of (throw (.missingOperand opcode))

/-- Hand a fault of an instruction to the innermost handler if there is one, which must then
receive it, or end the run. -/
def handle (s : State) (opcode : Opcode) (fault : Fault) : Option (Event × State) :=
  match fault with
  | .uncaughtException value trace => some (.escaped ⟨value, trace, s.pc⟩, s)
  | fault =>
    if fault.isCatchable ∧ s.handlers.depth ≠ 0 then
      match deliver fault.code s with
      | some (.ok (some target) s) => some (.continued, { s with pc := target })
      | some (.ok none _) => none
      | some (.error fault s) => some (.failed (s.fail opcode fault).1, (s.fail opcode fault).2)
      | none => none
    else some (.failed (s.fail opcode fault).1, (s.fail opcode fault).2)

/-- Go where control goes after an instruction of `width` words. -/
def follow (s : State) (width : Nat) : Flow → Option (Event × State)
  | .next => if s.pc + width < sizeBound then some (.continued, s.follow width .next) else none
  | .halt => if s.pc + width < sizeBound then some (.continued, s.follow width .halt) else none
  | .jump offset => some (.continued, s.follow width (.jump offset))

/-- Execute the instruction at the current position and count it. It must not miss its operand. -/
def step (s : State) (env : Environment) (i : Instruction) : Option (Event × State) :=
  if s.executed + 1 < sizeBound then
    match dispatch env i.opcode i.operand s.tick with
    | some (.ok flow s) => follow s i.width flow
    | some (.error (.missingOperand _) _) => none
    | some (.error fault s) => handle s i.opcode fault
    | none => none
  else none

section Step

variable {config : Config} {env : Environment} {s : State}

/-- **Fetching does not go wrong** inside the code. -/
theorem fetch_eq {code : Program} (hsize : code.size < Word.positions) (hpc : s.pc < code.size)
    (budget : Option Nat) : fetch s code budget = some (s.fetch code budget) := by
  have hnext : s.pc + 1 < sizeBound := by
    unfold Word.positions at hsize
    unfold sizeBound
    omega
  have hinside : ∀ offset, code.decode s.pc ≠ .error (.outOfBounds offset) := by
    intro offset
    unfold Program.decode
    rw [Array.getElem?_eq_getElem hpc]
    dsimp only
    repeat' split
    all_goals simp
  unfold fetch State.fetch
  rw [if_pos hnext]
  split
  · rfl
  · cases hdecode : code.decode s.pc with
    | ok i => rfl
    | error e =>
        cases e with
        | unknownOpcode value offset => rfl
        | missingOperand opcode offset => rfl
        | outOfBounds offset => exact absurd hdecode (hinside offset)

/-- An instruction is dispatched with the operand that it takes. -/
theorem dispatch_eq (env : Environment) (i : Instruction) :
    dispatch env i.opcode i.operand = execute env i := by
  cases i <;> rfl

/-- **Handing over a fault does not go wrong**: if there is a handler, it does not remain without
the fault. -/
theorem handle_eq (s : State) (opcode : Opcode) (fault : Fault) :
    handle s opcode fault = some (s.handle opcode fault) := by
  unfold handle
  split
  · rfl
  · next hother =>
    have hdeliver := meets_deliver (P := fun _ => True) fault.code s trivial
    by_cases hcatch : fault.Catchable
    · rw [State.handle_of_catchable hcatch]
      by_cases hdepth : s.handlers.depth = 0
      · -- without a handler nothing is delivered
        have hnone : s.handlers.innermost? = none := by
          rw [Handlers.innermost?, Array.back?_eq_none_iff]
          exact Array.eq_empty_of_size_eq_zero hdepth
        rw [if_neg fun h => h.2 hdepth, State.deliver_eq_none.mpr ⟨hnone, rfl⟩]
      · rw [if_pos ⟨hcatch, hdepth⟩, hdeliver]
        cases hcase : State.deliver fault.code s with
        | error fault' s' => rfl
        | ok answer s' =>
            cases answer with
            | some target => rfl
            | none =>
                obtain ⟨hnone, -⟩ := State.deliver_eq_none.mp hcase
                rw [Handlers.innermost?, Array.back?_eq_none_iff] at hnone
                exact absurd (congrArg Array.size hnone) hdepth
    · rw [State.handle_of_not_catchable hcatch hother, if_neg fun h => hcatch h.1]

/-- **A step does not go wrong.** -/
theorem step_eq (hb : env.builtins = .standard) (hs : InRange config s)
    (hcount : s.executed + 1 < sizeBound) (i : Instruction) :
    step s env i = some (s.step env i) := by
  have hcovers := covers_standard hb
  have htick : InRange config s.tick := ⟨hs.usable, hs.fits.tick, hs.pc⟩
  unfold step
  rw [if_pos hcount, dispatch_eq, meets_execute hb i s.tick htick]
  cases hx : State.execute env i s.tick with
  | ok flow s' =>
      rw [State.step_of_ok hx]
      -- the instruction has not moved yet, and it is short
      have hpc : s'.pc = s.pc :=
        ((hcovers.execute_ok (fun _ => hcovers.input) hx).sameStatus
          fun h => h.control.toSameStatus).pc
      have hwidth : s'.pc + i.width < sizeBound := by
        have hpositions := hs.pc
        rw [hpc, Instruction.width]
        have hi : i.opcode.width ≤ 2 := by cases i.opcode <;> decide
        unfold Word.positions at hpositions
        unfold sizeBound
        omega
      cases flow with
      | next => exact if_pos hwidth
      | jump offset => rfl
      | halt => exact if_pos hwidth
  | error fault s' =>
      rw [State.step_of_error hx]
      have hstop := (hcovers.execute_error (fun _ => hcovers.input) hx).2
      cases fault with
      | missingOperand opcode =>
          rcases hstop with hcatch | ⟨target, -, -, htarget⟩ | ⟨-, -, value, hvalue⟩
          · cases hcatch
          · cases Environment.target_eq_error htarget
          · cases hvalue
      | _ => exact handle_eq _ _ _

end Step

end StackMachine.Unchecked
