import StackMachine.Proofs.Execution.Locals
import StackMachine.Proofs.Widening.Data

set_option autoImplicit false

/-! # Instructions under larger limits

States of a smaller and a larger machine correspond (`State.Widened`) if they agree on everything
that the smaller machine can reach. Calls own windows of local slots at different places in the two
machines, and what corresponds is the window of a depth, slot by slot (`Memory.Widened`). Every
instruction keeps the correspondence (`State.execute_mirrors`).
-/

namespace StackMachine

open StackMachine.Action

variable {c c' : Config}

/-! ## Slot memory -/

/-- Windows of `n` slots do not share slots. -/
theorem window_eq_iff {n d k d₁ k₁ : Nat} (hk : k < n) (hk₁ : k₁ < n) :
    d * n + k = d₁ * n + k₁ ↔ d = d₁ ∧ k = k₁ := by
  constructor
  · intro h
    -- the number of a window is the quotient of a slot in it
    have hdepth : ∀ {d k}, k < n → (d * n + k) / n = d := by
      intro d k hk
      rw [Nat.mul_comm, Nat.mul_add_div (by omega), Nat.div_eq_of_lt hk, Nat.add_zero]
    have hd : d = d₁ := by rw [← hdepth (d := d) hk, h, hdepth hk₁]
    subst hd
    exact ⟨rfl, by omega⟩
  · rintro ⟨rfl, rfl⟩
    rfl

namespace Memory

/-- The globals of the smaller machine are the same, and so are its windows. -/
structure Widened (c c' : Config) (m m' : Memory) : Prop where
  fits : m.Fits c
  fits' : m'.Fits c'
  globals : ∀ i < c.globalSlots, m'.globals[i]? = m.globals[i]?
  locals : ∀ d < c.maxCallDepth, ∀ k < c.slotsPerFrame,
    m'.locals[d * c'.slotsPerFrame + k]? = m.locals[d * c.slotsPerFrame + k]?

variable {m m' : Memory}

theorem Widened.globalIndex (hle : c.Within c') (h : Widened c c' m m') (address : Word) :
    Echoes (fun i i' => i' = i ∧ i < c.globalSlots) (m.globalIndex address)
      (m'.globalIndex address) := by
  have hsize := hle.globalSlots
  unfold Memory.globalIndex
  rw [h.fits.globals, h.fits'.globals]
  cases Word.index? address with
  | none => exact .limit rfl
  | some i =>
      by_cases hi : i < c.globalSlots
      · dsimp only
        rw [if_pos hi, if_pos (by omega)]
        exact .ok ⟨rfl, hi⟩
      · dsimp only
        rw [if_neg hi]
        exact .limit rfl

theorem Widened.loadGlobal (hle : c.Within c') (h : Widened c c' m m') (address : Word) :
    Echoes Eq (m.loadGlobal address) (m'.loadGlobal address) := by
  refine (h.globalIndex hle address).bind fun i i' hi => ?_
  obtain ⟨rfl, hi⟩ := hi
  rw [Array.getD_eq_getD_getElem?, Array.getD_eq_getD_getElem?, h.globals _ hi]
  exact .ok rfl

/-- The same slot of the same window, where the smaller machine has it. -/
theorem Widened.localIndex (hle : c.Within c') (h : Widened c c' m m') {d : Nat}
    (hd : d < c.maxCallDepth) (offset : Word) :
    Echoes (fun i i' => ∃ k < c.slotsPerFrame,
        i = d * c.slotsPerFrame + k ∧ i' = d * c'.slotsPerFrame + k)
      (m.localIndex (d * c.slotsPerFrame) offset)
      (m'.localIndex (d * c'.slotsPerFrame) offset) := by
  have hslots := hle.slotsPerFrame
  rw [h.fits.localIndex hd, h.fits'.localIndex (Nat.lt_of_lt_of_le hd hle.maxCallDepth)]
  by_cases hoffset : 0 ≤ offset.toInt ∧ offset.toInt < c.slotsPerFrame
  · rw [if_pos hoffset, if_pos (by omega)]
    exact .ok ⟨offset.toInt.toNat, by omega, rfl, rfl⟩
  · rw [if_neg hoffset]
    exact .limit rfl

theorem Widened.loadLocal (hle : c.Within c') (h : Widened c c' m m') {d : Nat}
    (hd : d < c.maxCallDepth) (offset : Word) :
    Echoes Eq (m.loadLocal (d * c.slotsPerFrame) offset)
      (m'.loadLocal (d * c'.slotsPerFrame) offset) := by
  refine (h.localIndex hle hd offset).bind fun i i' hi => ?_
  obtain ⟨k, hk, rfl, rfl⟩ := hi
  rw [Array.getD_eq_getD_getElem?, Array.getD_eq_getD_getElem?, h.locals d hd k hk]
  exact .ok rfl

theorem storeGlobal_mirrors (hle : c.Within c') (address value : Word) :
    Mirrors (Widened c c') Eq (storeGlobal address value) (storeGlobal address value) := by
  intro m m' h
  unfold storeGlobal
  have hindex := h.globalIndex hle address
  generalize m.globalIndex address = r, m'.globalIndex address = r' at hindex ⊢
  cases hindex with
  | @ok i i' hi =>
      obtain ⟨rfl, hi⟩ := hi
      refine .ok rfl ⟨⟨Array.size_setIfInBounds.trans h.fits.globals, h.fits.locals,
        h.fits.slotsPerFrame⟩, ⟨Array.size_setIfInBounds.trans h.fits'.globals, h.fits'.locals,
        h.fits'.slotsPerFrame⟩, fun j hj => ?_, h.locals⟩
      show (m'.globals.setIfInBounds i' value)[j]? = (m.globals.setIfInBounds i' value)[j]?
      have hsize := hle.globalSlots
      rw [Array.getElem?_setIfInBounds, Array.getElem?_setIfInBounds, h.fits.globals,
        h.fits'.globals, if_pos hi, if_pos (Nat.lt_of_lt_of_le hi hsize), h.globals j hj]
  | error fault => exact .error h
  | limit hlimit => exact .limit hlimit

theorem storeLocal_mirrors (hle : c.Within c') {d : Nat} (hd : d < c.maxCallDepth)
    (offset value : Word) :
    Mirrors (Widened c c') Eq (storeLocal (d * c.slotsPerFrame) offset value)
      (storeLocal (d * c'.slotsPerFrame) offset value) := by
  intro m m' h
  have hslots := hle.slotsPerFrame
  have hdepth := hle.maxCallDepth
  unfold storeLocal
  have hindex := h.localIndex hle hd offset
  generalize m.localIndex (d * c.slotsPerFrame) offset = r,
    m'.localIndex (d * c'.slotsPerFrame) offset = r' at hindex ⊢
  cases hindex with
  | @ok i i' hi =>
      obtain ⟨k, hk, rfl, rfl⟩ := hi
      refine .ok rfl ⟨⟨h.fits.globals, Array.size_setIfInBounds.trans h.fits.locals,
        h.fits.slotsPerFrame⟩, ⟨h.fits'.globals, Array.size_setIfInBounds.trans h.fits'.locals,
        h.fits'.slotsPerFrame⟩, h.globals, fun d₁ hd₁ k₁ hk₁ => ?_⟩
      -- a slot is the one that is stored to in both machines or in none
      show (m'.locals.setIfInBounds (d * c'.slotsPerFrame + k) value)[d₁ * c'.slotsPerFrame + k₁]? =
        (m.locals.setIfInBounds (d * c.slotsPerFrame + k) value)[d₁ * c.slotsPerFrame + k₁]?
      rw [Array.getElem?_setIfInBounds, Array.getElem?_setIfInBounds,
        if_pos (h.fits.slot_lt hd hk), if_pos (h.fits'.slot_lt (by omega) (by omega)),
        h.locals d₁ hd₁ k₁ hk₁]
      by_cases hsame : d = d₁ ∧ k = k₁
      · rw [if_pos ((window_eq_iff (by omega) (by omega)).mpr hsame),
          if_pos ((window_eq_iff hk hk₁).mpr hsame)]
      · rw [if_neg fun he => hsame ((window_eq_iff (by omega) (by omega)).mp he),
          if_neg fun he => hsame ((window_eq_iff hk hk₁).mp he)]
  | error fault => exact .error h
  | limit hlimit => exact .limit hlimit

end Memory

/-! ## Calls -/

/-- What a call goes back to. -/
def Frame.link (frame : Frame) : Nat × Nat := (frame.returnAddress, frame.stackPointer)

namespace CallStack

/-- The calls are the same, but for where their windows begin. -/
structure Widened (c c' : Config) (s s' : CallStack) : Prop where
  fits : s.Fits c
  fits' : s'.Fits c'
  links : s'.frames.map Frame.link = s.frames.map Frame.link

variable {s s' : CallStack}

namespace Widened

theorem size (h : Widened c c' s s') : s'.frames.size = s.frames.size := by
  have hsize := congrArg Array.size h.links
  rwa [Array.size_map, Array.size_map] at hsize

/-- The frames of the innermost calls, if there are any. -/
theorem back (h : Widened c c' s s') :
    (s.frames.back? = none ∧ s'.frames.back? = none) ∨
      ∃ d frame frame', d < c.maxCallDepth ∧ s.frames.back? = some frame ∧
        s'.frames.back? = some frame' ∧ frame'.link = frame.link ∧
        frame.base = d * c.slotsPerFrame ∧ frame'.base = d * c'.slotsPerFrame := by
  have hlinks := congrArg Array.back? h.links
  rw [Array.back?_map, Array.back?_map] at hlinks
  cases hback : s.frames.back? with
  | none =>
      rw [hback] at hlinks
      exact Or.inl ⟨rfl, Option.map_eq_none_iff.mp hlinks⟩
  | some frame =>
      rw [hback] at hlinks
      obtain ⟨frame', hback', hlink⟩ := Option.map_eq_some_iff.mp hlinks
      have hlast := hback
      have hlast' := hback'
      rw [Array.back?_eq_getElem?] at hlast hlast'
      rw [h.size] at hlast'
      have hdepth : s.frames.size ≤ c.maxCallDepth := h.fits.depth
      have hlt := (Array.getElem?_eq_some_iff.mp hlast).1
      -- both machines have as many calls, so the innermost one owns the window of that depth
      exact Or.inr ⟨s.frames.size - 1, frame, frame', by omega, rfl, hback', hlink,
        h.fits.windows _ _ hlast, h.fits'.windows _ _ hlast'⟩

theorem top (h : Widened c c' s s') :
    Echoes (fun frame frame' => ∃ d < c.maxCallDepth, frame.base = d * c.slotsPerFrame ∧
      frame'.base = d * c'.slotsPerFrame) s.top s'.top := by
  unfold CallStack.top
  rcases h.back with ⟨hnone, hnone'⟩ | ⟨d, frame, frame', hd, hback, hback', -, hbase, hbase'⟩
  · rw [hnone, hnone']
    exact .error _
  · rw [hback, hback']
    exact .ok ⟨d, hd, hbase, hbase'⟩

theorem trace (h : Widened c c' s s') (pc : Nat) : s'.trace pc = s.trace pc := by
  have hreturns : ∀ s : CallStack, s.frames.toList.reverse.map Frame.returnAddress =
      ((s.frames.map Frame.link).toList.reverse.map Prod.fst) := by
    intro s
    rw [Array.toList_map, ← List.map_reverse, List.map_map]
    rfl
  rw [CallStack.trace, CallStack.trace, hreturns, hreturns, h.links]

theorem push (hle : c.Within c') (h : Widened c c' s s') (hroom : s.frames.size < s.maxDepth)
    (returnAddress stackPointer : Nat) :
    s'.frames.size < s'.maxDepth ∧
      Widened c c'
        { s with
          frames := s.frames.push ⟨returnAddress, stackPointer, s.frames.size * s.slotsPerFrame⟩ }
        { s' with
          frames :=
            s'.frames.push ⟨returnAddress, stackPointer, s'.frames.size * s'.slotsPerFrame⟩ } := by
  have hroom' : s'.frames.size < s'.maxDepth := by
    have hdepth := hle.maxCallDepth
    rw [h.fits.maxDepth] at hroom
    rw [h.size, h.fits'.maxDepth]
    omega
  refine ⟨hroom', h.fits.push hroom _ _, h.fits'.push hroom' _ _, ?_⟩
  rw [Array.map_push, Array.map_push, h.links]
  rfl

theorem pop (h : Widened c c' s s') :
    Widened c c' { s with frames := s.frames.pop } { s' with frames := s'.frames.pop } where
  fits := h.fits.of_isPrefix (by rw [Array.toList_pop]; exact List.dropLast_prefix _)
  fits' := h.fits'.of_isPrefix (by rw [Array.toList_pop]; exact List.dropLast_prefix _)
  links := by rw [Array.map_pop, Array.map_pop, h.links]

theorem unwindTo (h : Widened c c' s s') (depth : Nat) :
    Widened c c' (s.unwindTo depth) (s'.unwindTo depth) where
  fits := h.fits.of_isPrefix (s.unwindTo_isPrefix depth)
  fits' := h.fits'.of_isPrefix (s'.unwindTo_isPrefix depth)
  links := by
    have hlist := congrArg Array.toList h.links
    rw [Array.toList_map, Array.toList_map] at hlist
    apply Array.toList_inj.mp
    rw [CallStack.unwindTo, CallStack.unwindTo, Array.toList_map, Array.toList_map,
      Array.toList_shrink, Array.toList_shrink, List.map_take, List.map_take, hlist]

theorem clear (h : Widened c c' s s') : Widened c c' s.clear s'.clear where
  fits := h.fits.of_isPrefix List.nil_prefix
  fits' := h.fits'.of_isPrefix List.nil_prefix
  links := rfl

end Widened

end CallStack

/-! ## States -/

namespace State

/-- The larger machine is where the smaller one is, with the same data as far as that reaches. -/
structure Widened (c c' : Config) (s s' : State) : Prop where
  pc : s'.pc = s.pc
  halted : s'.halted = s.halted
  executed : s'.executed = s.executed
  escape : s'.escape = s.escape
  failure : s'.failure = s.failure
  handlers : s'.handlers = s.handlers
  input : s'.input = s.input
  output : s'.output = s.output
  stack : OperandStack.Widened s.stack s'.stack
  calls : CallStack.Widened c c' s.calls s'.calls
  memory : Memory.Widened c c' s.memory s'.memory
  heap : Heap.Widened s.heap s'.heap

variable {α β : Type} {Q : α → β → Prop}

section Parts

theorem onStack_mirrors {x : Action OperandStack α} {y : Action OperandStack β}
    (h : Mirrors OperandStack.Widened Q x y) :
    Mirrors (Widened c c') Q (onStack x) (onStack y) :=
  h.within (fun _ _ hs => hs.stack) fun _ _ _ _ hs ht => { hs with stack := ht }

theorem onHeap_mirrors {x : Action Heap α} {y : Action Heap β} (h : Mirrors Heap.Widened Q x y) :
    Mirrors (Widened c c') Q (onHeap x) (onHeap y) :=
  h.within (fun _ _ hs => hs.heap) fun _ _ _ _ hs ht => { hs with heap := ht }

theorem onMemory_mirrors {x : Action Memory α} {y : Action Memory β}
    (h : Mirrors (Memory.Widened c c') Q x y) :
    Mirrors (Widened c c') Q (onMemory x) (onMemory y) :=
  h.within (fun _ _ hs => hs.memory) fun _ _ _ _ hs ht => { hs with memory := ht }

theorem onContext_mirrors {x : Action Builtin.Context α} {y : Action Builtin.Context β}
    (h : Mirrors Builtin.Context.Widened Q x y) :
    Mirrors (Widened c c') Q (onContext x) (onContext y) :=
  h.within (fun _ _ hs => ⟨hs.stack, hs.heap, hs.output⟩) fun _ _ _ _ hs ht =>
    { hs with stack := ht.stack, heap := ht.heap, output := ht.output }

theorem query_mirrors {question : State → Except Fault α} {question' : State → Except Fault β}
    (h : ∀ s s', Widened c c' s s' → Echoes Q (question s) (question' s')) :
    Mirrors (Widened c c') Q (query question) (query question') := by
  intro s s' hs
  have hanswer := h s s' hs
  unfold query
  generalize question s = r, question' s' = r' at hanswer ⊢
  cases hanswer with
  | ok hQ => exact .ok hQ hs
  | error fault => exact .error hs
  | limit hlimit => exact .limit hlimit

theorem pop_mirrors : Mirrors (Widened c c') Eq pop pop :=
  onStack_mirrors OperandStack.pop_mirrors

theorem popPair_mirrors : Mirrors (Widened c c') Eq popPair popPair :=
  onStack_mirrors OperandStack.popPair_mirrors

theorem push_mirrors (w : Word) : Mirrors (Widened c c') Eq (push w) (push w) :=
  onStack_mirrors (OperandStack.push_mirrors w)

theorem print_mirrors : Mirrors (Widened c c') Eq print print :=
  pop_mirrors.bind_same fun w => .modify fun _ _ hs => { hs with output := by rw [hs.output] }

theorem takeInput_mirrors : Mirrors (Widened c c') Eq takeInput takeInput := by
  intro s s' hs
  unfold takeInput
  rw [hs.input]
  cases s.input with
  | nil => exact .error hs
  | cons w rest => exact .ok rfl { hs with input := rfl }

theorem arithmetic_mirrors (f : Word → Word → Except Fault Word) :
    Mirrors (Widened c c') Eq (arithmetic f) (arithmetic f) :=
  popPair_mirrors.bind_same fun (a, b) =>
    (Mirrors.ofExcept (.refl (f a b))).bind_same fun w => push_mirrors w

theorem malloc_mirrors : Mirrors (Widened c c') Eq malloc malloc := by
  refine pop_mirrors.bind_same fun size => ?_
  cases Word.index? size with
  | none => exact .throw _
  | some count =>
      exact (onHeap_mirrors (Heap.allocate_mirrors count)).bind_same fun _ => push_mirrors _

end Parts

/-! ## Control -/

section Control

theorem enter_mirrors (hle : c.Within c') (offset : Nat) :
    Mirrors (Widened c c') Eq (enter offset) (enter offset) := by
  intro s s' hs
  rw [enter_eq, enter_eq]
  by_cases hroom : s.calls.frames.size < s.calls.maxDepth
  · obtain ⟨hroom', hcalls⟩ := hs.calls.push hle hroom (s.pc + 2) s.stack.depth
    rw [if_pos hroom, if_pos hroom']
    refine .ok rfl { hs with calls := ?_ }
    unfold entered OperandStack.depth
    rw [hs.pc, hs.stack.values]
    exact hcalls
  · rw [if_neg hroom]
    exact .limit rfl

theorem leave_mirrors : Mirrors (Widened c c') Eq leave leave := by
  intro s s' hs
  rw [leave_eq, leave_eq]
  rcases hs.calls.back with ⟨hnone, hnone'⟩ | ⟨d, frame, frame', -, hback, hback', hlink, -⟩
  · rw [hnone, hnone']
    exact .error hs
  · rw [hback, hback']
    have hreturn : frame'.returnAddress = frame.returnAddress := congrArg Prod.fst hlink
    refine .ok (by rw [hreturn]) { hs with calls := hs.calls.pop, handlers := ?_ }
    show s'.handlers.discardAbove s'.calls.frames.pop.size =
      s.handlers.discardAbove s.calls.frames.pop.size
    rw [hs.handlers, Array.size_pop, Array.size_pop, hs.calls.size]

theorem protect_mirrors (target : Nat) :
    Mirrors (Widened c c') Eq (protect target) (protect target) := by
  refine .modify fun s s' hs => { hs with handlers := ?_ }
  show s'.handlers.push ⟨target, s'.stack.values.size, s'.calls.frames.size⟩ =
    s.handlers.push ⟨target, s.stack.values.size, s.calls.frames.size⟩
  rw [hs.handlers, hs.stack.values, hs.calls.size]

theorem leaveTry_mirrors :
    Mirrors (Widened c c') Eq (onHandlers Handlers.pop) (onHandlers Handlers.pop) := by
  have hpop : Mirrors Eq Eq Handlers.pop Handlers.pop := by
    rintro h _ rfl
    cases Handlers.pop h with
    | ok handler h' => exact .ok rfl rfl
    | error fault h' => exact .error rfl
  exact hpop.within (fun _ _ hs => hs.handlers.symm)
    fun _ _ _ _ hs ht => { hs with handlers := ht.symm }

theorem deliver_mirrors (value : Word) :
    Mirrors (Widened c c') Eq (deliver value) (deliver value) := by
  intro s s' hs
  unfold deliver
  rw [hs.handlers]
  cases s.handlers.innermost? with
  | none => exact .ok rfl hs
  | some handler =>
      have hlimit := hs.stack.limit
      by_cases hroom : handler.stackPointer < s.stack.limit
      · dsimp only
        rw [if_pos hroom, if_pos (by omega)]
        refine .ok rfl { hs with
          handlers := rfl
          calls := hs.calls.unwindTo handler.callDepth
          stack := ⟨?_, hlimit⟩ }
        rw [hs.stack.values]
      · dsimp only
        rw [if_neg hroom]
        exact .limit rfl

theorem raise_mirrors : Mirrors (Widened c c') Eq raise raise := by
  refine pop_mirrors.bind_same fun value => (deliver_mirrors value).bind_same fun answer => ?_
  cases answer with
  | some target => exact .pure rfl
  | none =>
      refine .get_bind fun s s' hs => ?_
      rw [hs.pc, hs.calls.trace]
      exact .error hs

end Control

/-! ## Instructions -/

section Execute

variable {env : Environment}

/-- Asking for the innermost call gives frames of the same depth. -/
theorem top_bind_mirrors {f : Frame → Action State α} {g : Frame → Action State β}
    (h : ∀ d < c.maxCallDepth, ∀ frame frame' : Frame, frame.base = d * c.slotsPerFrame →
      frame'.base = d * c'.slotsPerFrame → Mirrors (Widened c c') Q (f frame) (g frame')) :
    Mirrors (Widened c c') Q (query (·.calls.top) >>= f) (query (·.calls.top) >>= g) :=
  (query_mirrors fun _ _ hs => hs.calls.top).bind fun frame frame' hframes => by
    obtain ⟨d, hd, hbase, hbase'⟩ := hframes
    exact h d hd frame frame' hbase hbase'

/-- An action before the next instruction. -/
theorem next_mirrors {x : Action State α} {y : Action State α}
    (h : Mirrors (Widened c c') Eq x y) :
    Mirrors (Widened c c') Eq (x >>= fun _ => Pure.pure Flow.next)
      (y >>= fun _ => Pure.pure Flow.next) :=
  h.bind_same fun _ => .pure rfl

/-- A question whose answer is put on the stack. -/
theorem ask_mirrors {question question' : State → Except Fault Word}
    (h : ∀ s s', Widened c c' s s' → Echoes Eq (question s) (question' s')) :
    Mirrors (Widened c c') Eq
      (query question >>= fun w => push w >>= fun _ => Pure.pure Flow.next)
      (query question' >>= fun w => push w >>= fun _ => Pure.pure Flow.next) :=
  (query_mirrors h).bind_same fun w => next_mirrors (push_mirrors w)

/-- **Every instruction does the same under larger limits**, unless it hits a limit. -/
theorem execute_mirrors (hle : c.Within c') (hb : env.builtins = .standard) (i : Instruction) :
    Mirrors (Widened c c') Eq (execute env i) (execute env i) := by
  have htarget : ∀ target, Mirrors (Widened c c') Eq (Action.ofExcept (env.target target))
      (Action.ofExcept (env.target target)) := fun target => .ofExcept (.refl _)
  cases i with
  | halt => exact .pure rfl
  | push w => exact next_mirrors (push_mirrors w)
  | add => exact next_mirrors (arithmetic_mirrors _)
  | sub => exact next_mirrors (arithmetic_mirrors _)
  | mul => exact next_mirrors (arithmetic_mirrors _)
  | div => exact next_mirrors (arithmetic_mirrors _)
  | mod => exact next_mirrors (arithmetic_mirrors _)
  | dup =>
      refine ask_mirrors fun s s' hs => ?_
      rw [OperandStack.peek?, OperandStack.peek?, hs.stack.values]
      exact .refl _
  | drop => exact next_mirrors pop_mirrors
  | swap =>
      exact popPair_mirrors.bind_same fun (left, right) =>
        (push_mirrors right).bind_same fun _ => next_mirrors (push_mirrors left)
  | print => exact next_mirrors print_mirrors
  | read => exact takeInput_mirrors.bind_same fun w => next_mirrors (push_mirrors w)
  | callBuiltin =>
      refine pop_mirrors.bind_same fun id => ?_
      rw [hb]
      exact next_mirrors (onContext_mirrors (Registry.standard_mirrors id))
  | jmp target => exact (htarget target).bind_same fun offset => .pure rfl
  | jmpIfZero target =>
      exact (htarget target).bind_same fun offset => pop_mirrors.bind_same fun w => .pure rfl
  | jmpIfNeg target =>
      exact (htarget target).bind_same fun offset => pop_mirrors.bind_same fun w => .pure rfl
  | call target => exact (htarget target).bind_same fun offset => enter_mirrors hle offset
  | ret => exact leave_mirrors
  | load address => exact ask_mirrors fun _ _ hs => hs.memory.loadGlobal hle address
  | store address =>
      exact pop_mirrors.bind_same fun w =>
        next_mirrors (onMemory_mirrors (Memory.storeGlobal_mirrors hle address w))
  | loadLocal offset =>
      refine top_bind_mirrors fun d hd frame frame' hbase hbase' => ?_
      rw [hbase, hbase']
      exact ask_mirrors fun _ _ hs => hs.memory.loadLocal hle hd offset
  | storeLocal offset =>
      refine top_bind_mirrors fun d hd frame frame' hbase hbase' =>
        pop_mirrors.bind_same fun w => ?_
      rw [hbase, hbase']
      exact next_mirrors (onMemory_mirrors (Memory.storeLocal_mirrors hle hd offset w))
  | enterTry target =>
      exact (htarget target).bind_same fun offset => next_mirrors (protect_mirrors offset)
  | leaveTry => exact next_mirrors leaveTry_mirrors
  | throw => exact raise_mirrors
  | malloc => exact next_mirrors malloc_mirrors
  | load8 address => exact ask_mirrors fun _ _ hs => hs.heap.load8 address
  | load32 address => exact ask_mirrors fun _ _ hs => hs.heap.load32 address
  | store8 address =>
      exact pop_mirrors.bind_same fun w => next_mirrors (onHeap_mirrors (Heap.write_mirrors _ _))
  | store32 address =>
      exact pop_mirrors.bind_same fun w => next_mirrors (onHeap_mirrors (Heap.write_mirrors _ _))
  | load8Ind =>
      exact pop_mirrors.bind_same fun address => ask_mirrors fun _ _ hs => hs.heap.load8 address
  | load32Ind =>
      exact pop_mirrors.bind_same fun address => ask_mirrors fun _ _ hs => hs.heap.load32 address
  | store8Ind =>
      exact popPair_mirrors.bind_same fun (address, w) =>
        next_mirrors (onHeap_mirrors (Heap.write_mirrors _ _))
  | store32Ind =>
      exact popPair_mirrors.bind_same fun (address, w) =>
        next_mirrors (onHeap_mirrors (Heap.write_mirrors _ _))

end Execute

end State

end StackMachine
