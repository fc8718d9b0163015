import StackMachine.Execution.Step
import StackMachine.Proofs.Execution.Effect

set_option autoImplicit false

/-! # What a step does

A step counts the instruction, carries it out, and moves to where control goes next; a fault goes
to the innermost handler or ends the run. `State.Stepped` lists the four ways in which this can
end, and `State.Covers.stepped` says that there are no others. Two relations are covered: data
instructions leave the control part of the state alone (`State.SameControl`), whatever the
builtins do, and they keep all bounds when the builtins do (`State.Bounded`). What follows the
instruction itself leaves the data alone (`State.step_sameData`).
-/

namespace StackMachine.State

open StackMachine.Action

/-! ## Relations that data instructions obey -/

/-- Position, count and the way the run stands are the same. -/
structure SameStatus (s s' : State) : Prop where
  pc : s'.pc = s.pc
  halted : s'.halted = s.halted
  executed : s'.executed = s.executed
  escape : s'.escape = s.escape
  failure : s'.failure = s.failure

theorem SameStatus.rfl {s : State} : SameStatus s s := ⟨.refl _, .refl _, .refl _, .refl _, .refl _⟩

theorem SameStatus.trans {s s₁ s₂ : State} (h₁ : SameStatus s s₁) (h₂ : SameStatus s₁ s₂) :
    SameStatus s s₂ :=
  ⟨h₂.pc.trans h₁.pc, h₂.halted.trans h₁.halted, h₂.executed.trans h₁.executed,
    h₂.escape.trans h₁.escape, h₂.failure.trans h₁.failure⟩

/-- Calls and handlers are the same too. -/
structure SameControl (s s' : State) : Prop extends SameStatus s s' where
  calls : s'.calls = s.calls
  handlers : s'.handlers = s.handlers

/-- Whatever happens to the data, control is the same. -/
theorem SameControl.data (s : State) (stack : OperandStack) (memory : Memory) (heap : Heap)
    (input : List Word) (output : Array Word) :
    SameControl s { s with stack, memory, heap, input, output } :=
  ⟨⟨rfl, rfl, rfl, rfl, rfl⟩, rfl, rfl⟩

instance : IsPreorder State SameControl where
  refl s := .data s s.stack s.memory s.heap s.input s.output
  trans _ _ _ h₁ h₂ :=
    { h₁.toSameStatus.trans h₂.toSameStatus with
      calls := h₂.calls.trans h₁.calls
      handlers := h₂.handlers.trans h₁.handlers }

/-- Control is the same, and stacks and memories stay within their bounds. -/
structure Bounded (s s' : State) : Prop where
  control : SameControl s s'
  stack : OperandStack.Bounded s.stack s'.stack
  memory : Memory.SameShape s.memory s'.memory
  heap : Heap.Bounded s.heap s'.heap

instance : IsPreorder State Bounded where
  refl _ := ⟨refl_of _ _, refl_of _ _, refl_of _ _, refl_of _ _⟩
  trans _ _ _ h₁ h₂ :=
    ⟨trans_of _ h₁.control h₂.control, trans_of _ h₁.stack h₂.stack,
      trans_of _ h₁.memory h₂.memory, trans_of _ h₁.heap h₂.heap⟩

section Components

variable {env : Environment} {R : State → State → Prop} {E : Fault → Prop}

/-- A relation covers all but the input if it allows every change of the operand stack and the heap
within their bounds, of the output, and what stores and builtins do. -/
theorem CoversUnread.of_stores (hE : ∀ fault, fault.Catchable → E fault)
    (hstack : ∀ s stack, OperandStack.Bounded s.stack stack → R s { s with stack })
    (hheap : ∀ s heap, Heap.Bounded s.heap heap → R s { s with heap })
    (houtput : ∀ s output, R s { s with output })
    (hglobal : ∀ address w, Obeys R (fun _ => True) E (onMemory (Memory.storeGlobal address w)))
    (hlocal : ∀ offset, Obeys R (· = .next) E (execute env (.storeLocal offset)))
    (hbuiltin : ∀ id, Obeys R (fun _ => True) E (onContext (env.builtins.call id))) :
    CoversUnread env R E := by
  have onStack : ∀ {α : Type} {x : Action OperandStack α}, OperandStack.Primitive x →
      Obeys R (fun _ => True) E (onStack x) :=
    fun hx => (hx.obeys.mono (fun _ => id) hE).within hstack
  have onHeap : ∀ {α : Type} {x : Action Heap α}, Heap.Primitive x →
      Obeys R (fun _ => True) E (onHeap x) :=
    fun hx => (hx.obeys.mono (fun _ => id) hE).within hheap
  exact
    { pop := onStack .pop
      popPair := onStack .popPair
      push := fun w => onStack (.push w)
      allocate := fun size => onHeap (.allocate size)
      store8 := fun address w => onHeap (.store8 address w)
      store32 := fun address w => onHeap (.store32 address w)
      storeGlobal := hglobal
      storeLocal := hlocal
      output := fun w => Obeys.modify fun s => houtput s _
      builtin := hbuiltin
      fault := hE }

variable [IsPreorder State R]

/-- A relation covers all but the input if it allows every change of another component within its
bounds, and what the builtins do. -/
theorem CoversUnread.of_components (hE : ∀ fault, fault.Catchable → E fault)
    (hstack : ∀ s stack, OperandStack.Bounded s.stack stack → R s { s with stack })
    (hheap : ∀ s heap, Heap.Bounded s.heap heap → R s { s with heap })
    (hmemory : ∀ s memory, Memory.SameShape s.memory memory → R s { s with memory })
    (houtput : ∀ s output, R s { s with output })
    (hbuiltin : ∀ id, Obeys R (fun _ => True) E (onContext (env.builtins.call id))) :
    CoversUnread env R E := by
  have hpop : Obeys R (fun _ => True) E (State.onStack OperandStack.pop) :=
    (OperandStack.pop_obeys.mono (fun _ => id) hE).within hstack
  have onMemory : ∀ {x : Action Memory Unit},
      Obeys Memory.SameShape (fun _ => True) Fault.Catchable x →
      Obeys R (fun _ => True) E (onMemory x) :=
    fun hx => (hx.mono (fun _ => id) hE).within hmemory
  exact .of_stores hE hstack hheap houtput
    (fun address w => onMemory (Memory.storeGlobal_obeys address w))
    (fun offset =>
      (query_obeys hE fun s => s.calls.top_answers).bind fun frame _ =>
        hpop.bind fun w _ =>
          CoversUnread.thenNext (onMemory (Memory.storeLocal_obeys frame.base offset w)))
    hbuiltin

/-- A relation that covers all but the input, and allows every change of it, covers everything. -/
theorem CoversUnread.covers (h : CoversUnread env R E) (hinput : ∀ s input, R s { s with input }) :
    Covers env R E :=
  { h with
    input :=
      { ok := fun {s a s'} hx => by
          unfold takeInput at hx
          split at hx
          · cases hx
            exact ⟨hinput s _, trivial⟩
          · cases hx
        error := fun hx => by
          unfold takeInput at hx
          split at hx
          · cases hx
          · cases hx
            exact ⟨refl_of R _, h.fault _ (Eq.refl _)⟩ } }

end Components

/-- No builtin reaches the control part of the state. -/
theorem covers_sameControl {env : Environment} {E : Fault → Prop}
    (hE : ∀ fault, fault.Catchable → E fault)
    (hb : ∀ id, Obeys (fun _ _ => True) (fun _ => True) E (env.builtins.call id)) :
    Covers env SameControl E :=
  (CoversUnread.of_components hE
    (fun s _ _ => .data s ..) (fun s _ _ => .data s ..) (fun s _ _ => .data s ..)
    (fun s _ => .data s ..)
    fun id => (hb id).within fun s _ _ => .data s ..).covers fun s _ => .data s ..

/-- Control is safe from builtins of any kind. -/
theorem covers_anyBuiltins (env : Environment) : Covers env SameControl fun _ => True :=
  covers_sameControl (fun _ _ => trivial) fun _ =>
    ⟨fun _ => ⟨trivial, trivial⟩, fun _ => ⟨trivial, trivial⟩⟩

theorem covers_bounded {env : Environment} {E : Fault → Prop}
    (hE : ∀ fault, fault.Catchable → E fault) (hb : env.builtins.Obeys E) :
    Covers env Bounded E :=
  (CoversUnread.of_components hE
    (fun s _ h => ⟨.data s .., h, refl_of _ _, refl_of _ _⟩)
    (fun s _ h => ⟨.data s .., refl_of _ _, refl_of _ _, h⟩)
    (fun s _ h => ⟨.data s .., refl_of _ _, h, refl_of _ _⟩)
    (fun s _ => ⟨.data s .., refl_of _ _, refl_of _ _, refl_of _ _⟩)
    fun id => (hb.call hE id).within fun s _ h =>
      ⟨.data s .., h.stack, refl_of _ _, h.heap⟩).covers
    fun s _ => ⟨.data s .., refl_of _ _, refl_of _ _, refl_of _ _⟩

/-- An operation of the heap from outside of the run keeps all bounds. -/
theorem bounded_onHeap {α : Type} {x : Action Heap α} (hx : Heap.Primitive x) (s : State) :
    Bounded s ((onHeap x).final s) := by
  have hobeys : Obeys Bounded _ _ (onHeap x) :=
    hx.obeys.within fun s _ h => ⟨.data s .., refl_of _ _, refl_of _ _, h⟩
  exact hobeys.final s

/-! ## Steps -/

/-- The state once the instruction is counted. -/
def tick (s : State) : State := { s with executed := s.executed + 1 }

/-- Go where control goes after an instruction of `width` words. -/
def follow (s : State) (width : Nat) : Flow → State
  | .next => { s with pc := s.pc + width }
  | .jump offset => { s with pc := offset }
  | .halt => { s with pc := s.pc + width, halted := true }

@[simp] theorem follow_calls (s : State) (width : Nat) (flow : Flow) :
    (s.follow width flow).calls = s.calls := by
  cases flow <;> rfl

@[simp] theorem follow_handlers (s : State) (width : Nat) (flow : Flow) :
    (s.follow width flow).handlers = s.handlers := by
  cases flow <;> rfl

/-- How a step of instruction `i` ends, when data moves along `R`: the instruction completes, a
handler receives its fault, its exception escapes, or its fault ends the run. -/
inductive Stepped (R : State → State → Prop) (E : Fault → Prop) (env : Environment) (s : State)
    (i : Instruction) : Event → State → Prop
  | completed {flow : Flow} {s' : State} :
      Effect R env s.tick i flow s' → Stepped R E env s i .continued (s'.follow i.width flow)
  | caught {fault : Fault} {s' : State} {handler : Handler} :
      R s.tick s' → fault.Catchable → s'.handlers.innermost? = some handler →
      handler.stackPointer < s'.stack.limit →
      Stepped R E env s i .continued { s'.caught handler fault.code with pc := handler.target }
  | escaped {value : Word} {trace : List Nat} {s' : State} :
      R s.tick s' → Covers.StopsFor E env i (.uncaughtException value trace) s' →
      Stepped R E env s i (.escaped ⟨value, trace, s'.pc⟩) s'
  | failed {fault : Fault} {s' : State} :
      R s.tick s' → Covers.StopsFor E env i fault s' →
      Stepped R E env s i (.failed (s'.fail i.opcode fault).1) (s'.fail i.opcode fault).2

theorem Effect.sameStatus {R : State → State → Prop} {env : Environment} {s s' : State}
    {i : Instruction} {flow : Flow} (hR : ∀ {s s'}, R s s' → SameStatus s s')
    (h : Effect R env s i flow s') : SameStatus s s' := by
  cases h with
  | data _ h => exact hR h
  | halt => exact .rfl
  | jump _ _ h => exact hR h
  | skip _ h => exact hR h
  | call => exact ⟨rfl, rfl, rfl, rfl, rfl⟩
  | ret => exact ⟨rfl, rfl, rfl, rfl, rfl⟩
  | enterTry => exact ⟨rfl, rfl, rfl, rfl, rfl⟩
  | leaveTry => exact ⟨rfl, rfl, rfl, rfl, rfl⟩
  | throw h => exact (hR h).trans ⟨rfl, rfl, rfl, rfl, rfl⟩

/-- A fault that a handler can receive, when it is handed over. -/
theorem handle_of_catchable {s : State} {opcode : Opcode} {fault : Fault}
    (hf : fault.Catchable) :
    s.handle opcode fault =
      match deliver fault.code s with
      | .ok (some target) s => (.continued, { s with pc := target })
      | .ok none s => (.failed (s.fail opcode fault).1, (s.fail opcode fault).2)
      | .error fault s => (.failed (s.fail opcode fault).1, (s.fail opcode fault).2) := by
  unfold handle
  split
  · cases hf
  · exact if_pos hf

/-- A fault that no handler can receive ends the run, unless it is an escaped exception. -/
theorem handle_of_not_catchable {s : State} {opcode : Opcode} {fault : Fault}
    (hf : ¬ fault.Catchable) (hu : ∀ value trace, fault ≠ .uncaughtException value trace) :
    s.handle opcode fault = (.failed (s.fail opcode fault).1, (s.fail opcode fault).2) := by
  unfold handle
  split
  · exact absurd rfl (hu _ _)
  · rw [if_neg hf]

theorem step_of_ok {env : Environment} {s s' : State} {i : Instruction} {flow : Flow}
    (hx : execute env i s.tick = .ok flow s') :
    s.step env i = (.continued, s'.follow i.width flow) := by
  change execute env i { s with executed := s.executed + 1 } = _ at hx
  rw [step, hx]
  cases flow <;> rfl

theorem step_of_jump {env : Environment} {s s' : State} {i : Instruction} {offset : Nat}
    (hx : execute env i s.tick = .ok (.jump offset) s') :
    s.step env i = (.continued, { s' with pc := offset }) :=
  step_of_ok hx

theorem step_of_error {env : Environment} {s s' : State} {i : Instruction} {fault : Fault}
    (hx : execute env i s.tick = .error fault s') : s.step env i = s'.handle i.opcode fault := by
  change execute env i { s with executed := s.executed + 1 } = _ at hx
  rw [step, hx]

/-- **A step ends in one of the four ways.** -/
theorem Covers.stepped {env : Environment} {R : State → State → Prop} {E : Fault → Prop}
    [IsPreorder State R] (h : Covers env R E) {s s' : State} {i : Instruction} {event : Event}
    (hstep : s.step env i = (event, s')) : Stepped R E env s i event s' := by
  unfold step at hstep
  split at hstep
  · next s₁ hx =>
      cases hstep
      show Stepped R E env s i .continued (s₁.follow i.width .next)
      exact .completed (h.execute_ok (fun _ => h.input) hx)
  · next offset s₁ hx =>
      cases hstep
      show Stepped R E env s i .continued (s₁.follow i.width (.jump offset))
      exact .completed (h.execute_ok (fun _ => h.input) hx)
  · next s₁ hx =>
      cases hstep
      show Stepped R E env s i .continued (s₁.follow i.width .halt)
      exact .completed (h.execute_ok (fun _ => h.input) hx)
  · next fault s₁ hx =>
      obtain ⟨hR, hstop⟩ := h.execute_error (fun _ => h.input) hx
      -- a handler may receive the fault; an exception that has escaped is no such fault
      by_cases hcatch : fault.Catchable
      · rw [handle_of_catchable hcatch] at hstep
        split at hstep
        · next target s₂ hdeliver =>
            cases hstep
            obtain ⟨handler, hinner, hroom, rfl, rfl⟩ := deliver_eq_some.mp hdeliver
            exact .caught hR hcatch hinner hroom
        · next s₂ hdeliver =>
            cases hstep
            obtain ⟨-, rfl⟩ := deliver_eq_none.mp hdeliver
            exact .failed hR hstop
        · next fault₁ s₂ hdeliver =>
            cases hstep
            -- the run ends with the overflow, not with the fault that was to be delivered
            obtain ⟨handler, -, -, rfl, rfl⟩ := deliver_eq_error.mp hdeliver
            exact .failed hR (Or.inl (h.fault _ rfl))
      · by_cases hu : ∃ value trace, fault = .uncaughtException value trace
        · obtain ⟨value, trace, rfl⟩ := hu
          cases hstep
          exact .escaped hR hstop
        · rw [handle_of_not_catchable hcatch fun value trace he => hu ⟨value, trace, he⟩] at hstep
          cases hstep
          exact .failed hR hstop

/-- **A step counts one instruction**, whatever the builtins do. -/
theorem step_executed {env : Environment} {s s' : State} {i : Instruction} {event : Event}
    (hstep : s.step env i = (event, s')) : s'.executed = s.executed + 1 := by
  cases (covers_anyBuiltins env).stepped hstep with
  | @completed flow s₁ h =>
      have hs := h.sameStatus SameControl.toSameStatus
      cases flow <;> exact hs.executed
  | caught h => exact h.executed
  | escaped h => exact h.executed
  | failed h => exact h.executed

/-- A run that goes on has neither failed nor lost an exception in this step. -/
theorem step_continued {env : Environment} {s s' : State} {i : Instruction}
    (hstep : s.step env i = (.continued, s')) :
    s'.escape = s.escape ∧ s'.failure = s.failure := by
  cases (covers_anyBuiltins env).stepped hstep with
  | @completed flow s₁ h =>
      have hs := h.sameStatus SameControl.toSameStatus
      cases flow <;> exact ⟨hs.escape, hs.failure⟩
  | caught h => exact ⟨h.escape, h.failure⟩

/-- A run that fails in a step has halted. -/
theorem step_failed {env : Environment} {s s' : State} {i : Instruction} {failure : Failure}
    (hstep : s.step env i = (.failed failure, s')) :
    s'.escape = s.escape ∧ s'.failure = some failure ∧ s'.halted = true := by
  cases (covers_anyBuiltins env).stepped hstep with
  | failed h => exact ⟨h.escape, rfl, rfl⟩

/-- An exception that escapes in a step leaves the run as it stands. -/
theorem step_escaped {env : Environment} {s s' : State} {i : Instruction} {e : Escape}
    (hstep : s.step env i = (.escaped e, s')) :
    s'.escape = s.escape ∧ s'.failure = s.failure ∧ s'.halted = s.halted := by
  cases (covers_anyBuiltins env).stepped hstep with
  | escaped h => exact ⟨h.escape, h.failure, h.halted⟩

/-- It has been raised where the run stands. -/
theorem step_escaped_pc {env : Environment} {s s' : State} {i : Instruction} {e : Escape}
    (hstep : s.step env i = (.escaped e, s')) : e.pc = s'.pc := by
  cases (covers_anyBuiltins env).stepped hstep with
  | escaped => rfl

/-! ## Data -/

/-- Slot memory, heap, input and output are the same. -/
structure SameData (s s' : State) : Prop where
  memory : s'.memory = s.memory
  heap : s'.heap = s.heap
  input : s'.input = s.input
  output : s'.output = s.output

/-- Handing a fault to a handler, or ending the run with it, leaves the data alone. -/
theorem handle_sameData (s : State) (opcode : Opcode) (fault : Fault) :
    SameData s (s.handle opcode fault).2 := by
  by_cases hcatch : fault.Catchable
  · rw [handle_of_catchable hcatch]
    cases hdeliver : deliver fault.code s with
    | ok answer s₁ =>
        cases answer with
        | some target =>
            obtain ⟨handler, -, -, -, rfl⟩ := deliver_eq_some.mp hdeliver
            exact ⟨rfl, rfl, rfl, rfl⟩
        | none =>
            obtain ⟨-, rfl⟩ := deliver_eq_none.mp hdeliver
            exact ⟨rfl, rfl, rfl, rfl⟩
    | error fault₁ s₁ =>
        obtain ⟨handler, -, -, -, rfl⟩ := deliver_eq_error.mp hdeliver
        exact ⟨rfl, rfl, rfl, rfl⟩
  · by_cases hescape : ∃ value trace, fault = .uncaughtException value trace
    · obtain ⟨value, trace, rfl⟩ := hescape
      exact ⟨rfl, rfl, rfl, rfl⟩
    · rw [handle_of_not_catchable hcatch fun value trace he => hescape ⟨value, trace, he⟩]
      exact ⟨rfl, rfl, rfl, rfl⟩

/-- Only the instruction itself changes the data, not what follows it. -/
theorem step_sameData (s : State) (env : Environment) (i : Instruction) :
    SameData ((execute env i).final s.tick) (s.step env i).2 := by
  unfold Action.final
  cases hx : execute env i s.tick with
  | ok flow s₁ =>
      change execute env i { s with executed := s.executed + 1 } = _ at hx
      rw [step, hx]
      cases flow <;> exact ⟨rfl, rfl, rfl, rfl⟩
  | error fault s₁ =>
      rw [step_of_error hx]
      exact handle_sameData s₁ i.opcode fault

/-- The input is the same. -/
def SameInput (s s' : State) : Prop := s'.input = s.input

instance : IsPreorder State SameInput where
  refl _ := .refl _
  trans _ _ _ h₁ h₂ := h₂.trans h₁

/-- Only `READ` reaches the input, whatever the builtins do. -/
theorem coversUnread_sameInput (env : Environment) :
    CoversUnread env SameInput fun _ => True :=
  .of_components (fun _ _ => trivial) (fun _ _ _ => rfl) (fun _ _ _ => rfl) (fun _ _ _ => rfl)
    (fun _ _ => rfl)
    fun _ => Obeys.within ⟨fun _ => ⟨trivial, trivial⟩, fun _ => ⟨trivial, trivial⟩⟩
      fun _ _ (_ : True) => rfl

/-- **An instruction other than `READ` leaves the input alone**, whether it fails or not. -/
theorem step_input {env : Environment} {i : Instruction} (hi : i ≠ .read) (s : State) :
    (s.step env i).2.input = s.input := by
  have hread : i = .read → Obeys SameInput (fun _ => True) (fun _ => True) takeInput :=
    fun h => absurd h hi
  refine (step_sameData s env i).input.trans ?_
  unfold Action.final
  cases hx : execute env i s.tick with
  | ok flow s₁ =>
      cases (coversUnread_sameInput env).execute_ok hread hx with
      | data _ h => exact h
      | jump _ _ h => exact h
      | skip _ h => exact h
      | @throw _ s₂ _ h => exact h
      | _ => rfl
  | error fault s₁ => exact ((coversUnread_sameInput env).execute_error hread hx).1

end StackMachine.State
