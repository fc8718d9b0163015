import Mathlib.Logic.Basic
import StackMachine.Proofs.Execution.Step

set_option autoImplicit false

/-! # The limits of a configuration

`State.Fits config s` says that every stack and memory of a state has the size its configuration
gives it, that calls own the windows of local slots they should, and that the handlers are
nested like the calls they belong to (`Handlers.Nested`). Each change of control keeps this, so
every step does (`State.Fits.stepped`).
-/

namespace StackMachine

/-! ## Usable limits -/

theorem Config.problem?_eq_none_iff {config : Config} :
    config.problem? = none ↔
      config.maxStackDepth ≠ 0 ∧ config.maxCallDepth ≠ 0 ∧ config.slotsPerFrame ≠ 0 ∧
        config.globalSlots ≠ 0 ∧ config.heapSize ≤ Config.maxHeapSize ∧
        config.globalSlots ≤ Config.maxGlobalSlots ∧
        config.maxCallDepth * config.slotsPerFrame ≤ Config.maxLocalSlots := by
  simp only [Config.problem?, ite_eq_iff, reduceCtorEq, and_false, false_or, and_true, Nat.not_lt,
    ne_eq]

/-- Usable limits keep the heap small. -/
theorem Config.heapSize_le {config : Config} (h : config.problem? = none) :
    config.heapSize ≤ Config.maxHeapSize := by
  obtain ⟨-, -, -, -, hheap, -, -⟩ := Config.problem?_eq_none_iff.mp h
  exact hheap

/-- Usable limits keep the local slots of all frames together few. -/
theorem Config.localSlots_le {config : Config} (h : config.problem? = none) :
    config.maxCallDepth * config.slotsPerFrame ≤ Config.maxLocalSlots := by
  obtain ⟨-, -, -, -, -, -, hlocals⟩ := Config.problem?_eq_none_iff.mp h
  exact hlocals

/-! ## Nested handlers -/

/-- Handlers belong to calls that are still active, and inner handlers never to calls further
out. -/
structure Handlers.Nested (h : Handlers) (callDepth : Nat) : Prop where
  sorted : h.blocks.toList.Pairwise fun outer inner => outer.callDepth ≤ inner.callDepth
  active : ∀ handler ∈ h.blocks.toList, handler.callDepth ≤ callDepth

namespace Handlers

@[simp] theorem toList_push (h : Handlers) (handler : Handler) :
    (h.push handler).blocks.toList = h.blocks.toList ++ [handler] := by
  rw [Handlers.push, Array.toList_push]

theorem mem_push {h : Handlers} {handler handler' : Handler} :
    handler' ∈ (h.push handler).blocks.toList ↔
      handler' ∈ h.blocks.toList ∨ handler' = handler := by
  rw [toList_push, List.mem_append, List.mem_singleton]

theorem toList_of_innermost? {h : Handlers} {handler : Handler}
    (hinner : h.innermost? = some handler) :
    h.blocks.toList = h.dropInnermost.blocks.toList ++ [handler] := by
  obtain ⟨blocks, hblocks⟩ := Array.back?_eq_some_iff.mp hinner
  simp [dropInnermost, hblocks]

theorem mem_of_innermost? {h : Handlers} {handler : Handler}
    (hinner : h.innermost? = some handler) : handler ∈ h.blocks.toList := by
  rw [toList_of_innermost? hinner]
  simp

theorem dropInnermost_isPrefix (h : Handlers) :
    h.dropInnermost.blocks.toList <+: h.blocks.toList := by
  rw [dropInnermost, Array.toList_pop]
  exact List.dropLast_prefix _

theorem discardAbove_sublist (h : Handlers) (callDepth : Nat) :
    (h.discardAbove callDepth).blocks.toList.Sublist h.blocks.toList := by
  rw [discardAbove, Array.toList_filter]
  exact List.filter_sublist

namespace Nested

variable {h : Handlers} {callDepth : Nat}

theorem empty : Nested {} callDepth := ⟨.nil, by simp⟩

theorem mono {callDepth' : Nat} (hn : h.Nested callDepth) (hle : callDepth ≤ callDepth') :
    h.Nested callDepth' :=
  ⟨hn.sorted, fun handler hmem => Nat.le_trans (hn.active handler hmem) hle⟩

theorem of_sublist {h' : Handlers} (hn : h.Nested callDepth)
    (hsub : h'.blocks.toList.Sublist h.blocks.toList) : h'.Nested callDepth :=
  ⟨hn.sorted.sublist hsub, fun handler hmem => hn.active handler (hsub.subset hmem)⟩

theorem push (hn : h.Nested callDepth) (target stackPointer : Nat) :
    (h.push ⟨target, stackPointer, callDepth⟩).Nested callDepth := by
  refine ⟨?_, ?_⟩
  · rw [toList_push, List.pairwise_append]
    refine ⟨hn.sorted, List.pairwise_singleton _ _, fun outer houter inner hinner => ?_⟩
    rw [List.mem_singleton.mp hinner]
    exact hn.active outer houter
  · intro handler hmem
    rcases mem_push.mp hmem with hmem | rfl
    · exact hn.active handler hmem
    · exact Nat.le_refl _

/-- The handlers around the innermost one belong to its call or to calls around that. -/
theorem dropInnermost (hn : h.Nested callDepth) {handler : Handler}
    (hinner : h.innermost? = some handler) : h.dropInnermost.Nested handler.callDepth := by
  have hlist := toList_of_innermost? hinner
  refine ⟨hn.sorted.sublist h.dropInnermost_isPrefix.sublist, fun outer houter => ?_⟩
  have hsorted := hn.sorted
  rw [hlist, List.pairwise_append] at hsorted
  exact hsorted.2.2 outer houter handler (List.mem_singleton_self _)

theorem innermost_active (hn : h.Nested callDepth) {handler : Handler}
    (hinner : h.innermost? = some handler) : handler.callDepth ≤ callDepth :=
  hn.active handler (mem_of_innermost? hinner)

theorem discardAbove (hn : h.Nested callDepth) (callDepth' : Nat) :
    (h.discardAbove callDepth').Nested callDepth' := by
  refine ⟨hn.sorted.sublist (h.discardAbove_sublist callDepth'), fun handler hmem => ?_⟩
  rw [Handlers.discardAbove, Array.toList_filter, List.mem_filter] at hmem
  simpa using hmem.2

end Nested

end Handlers

/-! ## Components -/

/-- The operand stack has its limit and respects it. -/
structure OperandStack.Fits (maxDepth : Nat) (stack : OperandStack) : Prop where
  limit : stack.limit = maxDepth
  depth : stack.depth ≤ maxDepth

/-- The call stack has its limit and respects it, and the frame at depth `n` owns the `n`-th
window of local slots. -/
structure CallStack.Fits (config : Config) (calls : CallStack) : Prop where
  slotsPerFrame : calls.slotsPerFrame = config.slotsPerFrame
  maxDepth : calls.maxDepth = config.maxCallDepth
  depth : calls.depth ≤ config.maxCallDepth
  windows : ∀ (n : Nat) (frame : Frame), calls.frames[n]? = some frame →
    frame.base = n * config.slotsPerFrame

/-- The slot memory and its windows have the configured sizes. -/
structure Memory.Fits (config : Config) (memory : Memory) : Prop where
  globals : memory.globals.size = config.globalSlots
  locals : memory.locals.size = config.slotsPerFrame * config.maxCallDepth
  slotsPerFrame : memory.slotsPerFrame = config.slotsPerFrame

/-- The heap has its size, and the cursor is inside. -/
structure Heap.Fits (size : Nat) (heap : Heap) : Prop where
  capacity : heap.capacity = size
  cursor : heap.cursor ≤ heap.capacity

theorem OperandStack.Bounded.fits {s s' : OperandStack} {limit : Nat} (h : Bounded s s')
    (hs : s.Fits limit) : s'.Fits limit := by
  have hlimit : s'.limit = limit := h.limit.trans hs.limit
  refine ⟨hlimit, ?_⟩
  rw [← hlimit]
  exact h.depth (by rw [hs.limit]; exact hs.depth)

/-- Going back to a depth below the limit leaves room for a value. -/
theorem OperandStack.Fits.receive {s : OperandStack} {limit depth : Nat} (h : s.Fits limit)
    (hroom : depth < s.limit) (value : Word) :
    OperandStack.Fits limit { s with values := (s.values.shrink depth).push value } := by
  refine ⟨h.limit, ?_⟩
  show ((s.values.shrink depth).push value).size ≤ limit
  rw [Array.size_push, Array.size_shrink, ← h.limit]
  omega

theorem getElem?_of_isPrefix {α : Type} {l l' : List α} (h : l <+: l') {n : Nat} {a : α}
    (ha : l[n]? = some a) : l'[n]? = some a := by
  obtain ⟨rest, rfl⟩ := h
  rw [List.getElem?_append_left (List.getElem?_eq_some_iff.mp ha).1]
  exact ha

namespace CallStack.Fits

variable {config : Config} {calls : CallStack}

theorem push (h : calls.Fits config) (hroom : calls.depth < calls.maxDepth)
    (returnAddress stackPointer : Nat) :
    CallStack.Fits config
      { calls with
        frames :=
          calls.frames.push
            ⟨returnAddress, stackPointer, calls.frames.size * calls.slotsPerFrame⟩ } := by
  refine ⟨h.slotsPerFrame, h.maxDepth, ?_, fun n frame hframe => ?_⟩
  · show (calls.frames.push _).size ≤ config.maxCallDepth
    rw [Array.size_push, ← h.maxDepth]
    exact hroom
  · -- the new frame is at the old depth, which is what its window is computed from
    have hcase := hframe
    rw [Array.getElem?_push] at hcase
    split at hcase
    · next hn =>
        cases hcase
        show calls.frames.size * calls.slotsPerFrame = n * config.slotsPerFrame
        rw [hn, h.slotsPerFrame]
    · exact h.windows n frame hcase

/-- Leaving calls keeps the windows of the others. -/
theorem of_isPrefix (h : calls.Fits config) {frames : Array Frame}
    (hpre : frames.toList <+: calls.frames.toList) :
    CallStack.Fits config { calls with frames } := by
  refine ⟨h.slotsPerFrame, h.maxDepth, Nat.le_trans ?_ h.depth, fun n frame hframe => ?_⟩
  · show frames.size ≤ calls.frames.size
    simpa using hpre.length_le
  · refine h.windows n frame ?_
    rw [← Array.getElem?_toList] at hframe ⊢
    exact getElem?_of_isPrefix hpre hframe

end CallStack.Fits

theorem CallStack.unwindTo_isPrefix (calls : CallStack) (depth : Nat) :
    (calls.unwindTo depth).frames.toList <+: calls.frames.toList := by
  rw [unwindTo, Array.toList_shrink]
  exact List.take_prefix _ _

theorem CallStack.depth_unwindTo {calls : CallStack} {depth : Nat} (h : depth ≤ calls.depth) :
    (calls.unwindTo depth).depth = depth := by
  show (calls.frames.shrink depth).size = depth
  rw [Array.size_shrink]
  exact Nat.min_eq_left h

/-! ## States -/

namespace State

/-- Every part of the state has the size that the configuration gives it. -/
structure Fits (config : Config) (s : State) : Prop where
  stack : s.stack.Fits config.maxStackDepth
  calls : s.calls.Fits config
  nested : s.handlers.Nested s.calls.depth
  pointers : ∀ handler ∈ s.handlers.blocks.toList, handler.stackPointer ≤ config.maxStackDepth
  memory : s.memory.Fits config
  heap : s.heap.Fits config.heapSize

theorem returned_isPrefix (s : State) :
    s.returned.calls.frames.toList <+: s.calls.frames.toList := by
  rw [State.returned, Array.toList_pop]
  exact List.dropLast_prefix _

theorem initial_fits (config : Config) (input : List Word) :
    (State.initial config input).Fits config where
  stack := ⟨rfl, Nat.zero_le _⟩
  calls := ⟨rfl, rfl, Nat.zero_le _, by simp [initial]⟩
  nested := .empty
  pointers := by simp [initial]
  memory := ⟨Array.size_replicate, Array.size_replicate, rfl⟩
  heap := ⟨Array.size_replicate, Nat.zero_le _⟩

namespace Fits

variable {config : Config} {s s' : State}

/-- Position, input, output and status do not matter. -/
theorem congr (h : s.Fits config) (hstack : s'.stack = s.stack) (hcalls : s'.calls = s.calls)
    (hhandlers : s'.handlers = s.handlers) (hmemory : s'.memory = s.memory)
    (hheap : s'.heap = s.heap) : s'.Fits config where
  stack := by rw [hstack]; exact h.stack
  calls := by rw [hcalls]; exact h.calls
  nested := by rw [hcalls, hhandlers]; exact h.nested
  pointers := by rw [hhandlers]; exact h.pointers
  memory := by rw [hmemory]; exact h.memory
  heap := by rw [hheap]; exact h.heap

/-- **Emptied in place, the state is the one before the first instruction.** No part has lost its
size since then. -/
theorem clear (h : s.Fits config) : s.clear = State.initial config s.input := by
  have hstack : s.stack.clear = { limit := config.maxStackDepth } := by
    rw [OperandStack.clear, h.stack.limit]
  have hcalls : s.calls.clear =
      { slotsPerFrame := config.slotsPerFrame, maxDepth := config.maxCallDepth } := by
    rw [CallStack.clear, h.calls.slotsPerFrame, h.calls.maxDepth]
  have hmemory : s.memory.clear =
      Memory.zeroed config.globalSlots config.slotsPerFrame config.maxCallDepth := by
    rw [Memory.clear, h.memory.globals, h.memory.locals, h.memory.slotsPerFrame, Memory.zeroed]
  have hheap : s.heap.reset = Heap.zeroed config.heapSize := by
    rw [Heap.reset, h.heap.capacity]
  rw [State.clear, hstack, hcalls, hmemory, hheap, State.initial]

theorem tick (h : s.Fits config) : s.tick.Fits config := h.congr rfl rfl rfl rfl rfl

theorem bounded (h : s.Fits config) (hb : Bounded s s') : s'.Fits config where
  stack := hb.stack.fits h.stack
  calls := by rw [hb.control.calls]; exact h.calls
  nested := by rw [hb.control.calls, hb.control.handlers]; exact h.nested
  pointers := by rw [hb.control.handlers]; exact h.pointers
  memory :=
    ⟨hb.memory.globals.trans h.memory.globals, hb.memory.locals.trans h.memory.locals,
      hb.memory.slotsPerFrame.trans h.memory.slotsPerFrame⟩
  heap := ⟨hb.heap.capacity.trans h.heap.capacity, hb.heap.cursor h.heap.cursor⟩

theorem entered (h : s.Fits config) (hroom : s.calls.depth < s.calls.maxDepth) :
    s.entered.Fits config where
  stack := h.stack
  calls := h.calls.push hroom _ _
  nested := by
    refine h.nested.mono ?_
    show s.calls.frames.size ≤ (s.calls.frames.push _).size
    rw [Array.size_push]
    exact Nat.le_succ _
  pointers := h.pointers
  memory := h.memory
  heap := h.heap

theorem returned (h : s.Fits config) : s.returned.Fits config where
  stack := h.stack
  calls := h.calls.of_isPrefix s.returned_isPrefix
  nested := h.nested.discardAbove _
  pointers := fun handler hmem =>
    h.pointers handler ((s.handlers.discardAbove_sublist _).subset hmem)
  memory := h.memory
  heap := h.heap

theorem pushHandler (h : s.Fits config) (target : Nat) :
    Fits config
      { s with handlers := s.handlers.push ⟨target, s.stack.depth, s.calls.depth⟩ } where
  stack := h.stack
  calls := h.calls
  nested := h.nested.push _ _
  pointers := fun handler hmem => by
    rcases Handlers.mem_push.mp hmem with hmem | rfl
    · exact h.pointers handler hmem
    · exact h.stack.depth
  memory := h.memory
  heap := h.heap

theorem dropInnermost (h : s.Fits config) :
    Fits config { s with handlers := s.handlers.dropInnermost } where
  stack := h.stack
  calls := h.calls
  nested := h.nested.of_sublist s.handlers.dropInnermost_isPrefix.sublist
  pointers := fun handler hmem => h.pointers handler (s.handlers.dropInnermost_isPrefix.subset hmem)
  memory := h.memory
  heap := h.heap

theorem caught (h : s.Fits config) {handler : Handler}
    (hinner : s.handlers.innermost? = some handler) (hroom : handler.stackPointer < s.stack.limit)
    (value : Word) : (s.caught handler value).Fits config where
  stack := h.stack.receive hroom value
  calls := h.calls.of_isPrefix (s.calls.unwindTo_isPrefix handler.callDepth)
  nested := by
    -- the calls now end where the handler was entered, and so do the handlers around it
    show s.handlers.dropInnermost.Nested (s.calls.unwindTo handler.callDepth).depth
    rw [CallStack.depth_unwindTo (h.nested.innermost_active hinner)]
    exact h.nested.dropInnermost hinner
  pointers := h.dropInnermost.pointers
  memory := h.memory
  heap := h.heap

theorem follow (h : s.Fits config) (width : Nat) (flow : Flow) :
    (s.follow width flow).Fits config := by
  cases flow <;> exact h.congr rfl rfl rfl rfl rfl

theorem fail (h : s.Fits config) (opcode : Option Opcode) (fault : Fault) :
    (s.fail opcode fault).2.Fits config :=
  h.congr rfl rfl rfl rfl rfl

/-- Ending a run with an escaped exception leaves all calls and handlers. -/
theorem abandon (h : s.Fits config) (e : Escape) : (s.abandon e).2.Fits config where
  stack := by
    have hleave : ∀ (frames : List Frame) (stack : OperandStack), stack.Fits config.maxStackDepth →
        (frames.foldl (fun stack frame => stack.truncate frame.stackPointer) stack).Fits
          config.maxStackDepth := by
      intro frames
      induction frames with
      | nil => intro stack hstack; exact hstack
      | cons frame frames ih =>
          intro stack hstack
          exact ih _ ((stack.truncate_bounded _).fits hstack)
    exact hleave _ _ h.stack
  calls := h.calls.of_isPrefix List.nil_prefix
  nested := .empty
  pointers := fun handler hmem => by cases hmem
  memory := h.memory
  heap := h.heap

/-- **Every change of control keeps the limits.** -/
theorem effect (h : s.Fits config) {env : Environment} {i : Instruction} {flow : Flow}
    (he : Effect Bounded env s i flow s') : s'.Fits config := by
  cases he with
  | data _ hb => exact h.bounded hb
  | halt => exact h
  | jump _ _ hb => exact h.bounded hb
  | skip _ hb => exact h.bounded hb
  | call _ hroom => exact h.entered hroom
  | ret => exact h.returned
  | enterTry => exact h.pushHandler _
  | leaveTry => exact h.dropInnermost
  | throw hb hinner hroom => exact (h.bounded hb).caught hinner hroom _

/-- **Every step keeps the limits.** -/
theorem stepped (h : s.Fits config) {E : Fault → Prop} {env : Environment} {i : Instruction}
    {event : Event} (hs : Stepped Bounded E env s i event s') : s'.Fits config := by
  cases hs with
  | completed he => exact (h.tick.effect he).follow _ _
  | @caught fault _ _ hb _ hinner hroom =>
      have hc := (h.tick.bounded hb).caught hinner hroom fault.code
      exact hc.congr rfl rfl rfl rfl rfl
  | escaped hb => exact h.tick.bounded hb
  | failed hb => exact (h.tick.bounded hb).fail _ _

end Fits

end State

end StackMachine
