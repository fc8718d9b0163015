import StackMachine.Proofs.Machine.Fresh
import StackMachine.Proofs.Machine.Readings

set_option autoImplicit false

/-! # Unwinding

An exception that no handler receives ends the run, at once or after a pause. Either way all calls
are left, innermost first, and the operand stack goes back to the depth that each of them has
recorded. A call may have taken operands of its callers, so these depths need not grow with the
calls; what stays on the stack is what the smallest of them keeps (`State.unwind_stack`). The
deferred end of the run is the immediate one (`Machine.Passes.unwinds`).
-/

namespace StackMachine

/-! ## Leaving all calls -/

/-- Going back to several depths keeps what the smallest of them keeps. -/
theorem OperandStack.foldr_truncate (frames : List Frame) (stack : OperandStack) :
    frames.foldr (fun frame stack => stack.truncate frame.stackPointer) stack =
      { stack with
        values := stack.values.take ((frames.map Frame.stackPointer).foldr min stack.depth) } := by
  induction frames with
  | nil => simp [depth]
  | cons frame frames ih =>
      rw [List.foldr_cons, ih, List.map_cons, List.foldr_cons]
      simp only [truncate, mk.injEq, and_true]
      -- what this frame keeps are the first of the words that the others keep
      rw [Array.shrink_eq_take]
      simp

namespace State

/-- The state right after `THROW` has taken its value, when no handler receives it. -/
def thrown (s : State) (rest : Array Word) : State :=
  { s with
    executed := s.executed + 1
    stack := { s.stack with values := rest } }

/-- The state after a failure that has left all calls and handlers, with `kept` words on the
operand stack. -/
def unwound (s : State) (kept : Nat) (failure : Failure) : State :=
  { s with
    stack := { s.stack with values := s.stack.values.take kept }
    calls := s.calls.clear
    handlers := {}
    halted := true
    escape := none
    failure := some failure }

/-- **Leaving all calls keeps the operands below the smallest depth** that any of them has
recorded. -/
theorem unwind_stack (s : State) :
    s.unwind.stack =
      { s.stack with
        values := s.stack.values.take
          ((s.calls.frames.toList.map Frame.stackPointer).foldr min s.stack.depth) } := by
  show (s.calls.above 0).foldl (fun stack frame => stack.truncate frame.stackPointer) s.stack = _
  rw [CallStack.above, List.drop_zero, List.foldl_reverse]
  exact OperandStack.foldr_truncate s.calls.frames.toList s.stack

/-- The failure and the state with which an exception from the current position ends the run. -/
theorem abandon_eq (s : State) {e : Escape} (hpc : e.pc = s.pc) :
    s.abandon e =
      let failure : Failure := ⟨s.pc, some .throw, .uncaughtException e.value e.trace⟩
      (failure,
        s.unwound ((s.calls.frames.toList.map Frame.stackPointer).foldr min s.stack.depth)
          failure) := by
  unfold abandon fail unwound
  dsimp only
  rw [hpc, unwind_stack]
  rfl

/-- Without a handler the exception that `THROW` raises escapes. -/
theorem step_throw_escaped {env : Environment} {s : State} {value : Word} {rest : Array Word}
    (hnone : s.handlers.innermost? = none) (hstack : s.stack.values = rest.push value) :
    s.step env .throw = (.escaped ⟨value, s.calls.trace s.pc, s.pc⟩, s.thrown rest) := by
  have hpop : pop s.tick = .ok value (s.thrown rest) := by
    have hback : s.tick.stack.values.back? = some value := by
      show s.stack.values.back? = some value
      rw [hstack, Array.back?_push]
    rw [pop_of_back? hback]
    show EStateM.Result.ok value
      { s.tick with stack := { s.stack with values := s.stack.values.pop } } = _
    rw [hstack, Array.pop_push]
    rfl
  have hdeliver : deliver value (s.thrown rest) = .ok none (s.thrown rest) :=
    deliver_eq_none.mpr ⟨hnone, rfl⟩
  have hx : execute env .throw s.tick =
      .error (.uncaughtException value (s.calls.trace s.pc)) (s.thrown rest) :=
    Action.bind_eq_error.mpr (Or.inr
      ⟨value, _, hpop, Action.bind_eq_error.mpr (Or.inr ⟨none, _, hdeliver, rfl⟩)⟩)
  rw [step_of_error hx]
  rfl

end State

/-! ## Calls that end with an exception -/

namespace Machine

/-- **An exception that no handler receives unwinds everything, with a pause and without one.** Let
a call have come to a `THROW` that takes `value` from above the operands `rest`, and let no handler
be active. The trace is the position followed by the return addresses, innermost first. If the
machine is to pause on exceptions, the call pauses with everything still in place, and the next
call that resumes the run fails, whatever it is and whatever the host has edited before it.
Otherwise the call itself fails. The failure is the same in both cases, and so is the state: no
calls and no handlers are left, the operands are the first of `rest`, as many as the smallest
depth that a frame has recorded, and all else is as right after the `THROW`. -/
theorem Passes.unwinds {m₀ m : Machine} {call : DrivingCall} {value : Word} {rest : Array Word}
    (hcall : m₀.Passes call m) (hthrow : m.Dispatches .throw) (hnone : m.state.handlers = {})
    (hstack : m.state.stack.values = rest.push value) :
    let frames := m.state.calls.frames.toList
    let trace := m.state.pc :: (frames.map Frame.returnAddress).reverse
    let kept := (frames.map Frame.stackPointer).foldr min rest.size
    let failure : Failure := ⟨m.state.pc, some .throw, .uncaughtException value trace⟩
    let last := (m.state.thrown rest).unwound kept failure
    (m.debugger.pauseOnException = false →
      ∃ m₁, m₀.Returns call (.failed failure) m₁ ∧ m₁.state = last) ∧
    (m.debugger.pauseOnException = true →
      ∃ m₁, m₀.Returns call (.paused
          ⟨m.state.pc, some .throw, rest, frames.length, .exception value trace⟩) m₁ ∧
        m₁.debugger.paused = true ∧
        m₁.state = { m.state.thrown rest with escape := some ⟨value, trace, m.state.pc⟩ } ∧
        m₁.stackTrace = trace ∧
        ∀ (edits : List Debugger.Edit) (next : DrivingCall), next ≠ .start →
          ∃ m₂, (edits.foldl edit m₁).Returns next (.failed failure) m₂ ∧ m₂.state = last) := by
  intro frames trace kept failure last
  have htrace : m.state.calls.trace m.state.pc = trace := by
    rw [CallStack.trace, List.map_reverse]
  have hexec : m.Executes .throw (.escaped ⟨value, trace, m.state.pc⟩) (m.state.thrown rest) := by
    refine ⟨hthrow, ?_⟩
    rw [← htrace]
    exact State.step_throw_escaped (by rw [hnone]; rfl) hstack
  have habandon : (m.state.thrown rest).abandon ⟨value, trace, m.state.pc⟩ = (failure, last) :=
    State.abandon_eq (m.state.thrown rest) rfl
  refine ⟨fun hpause => ?_, fun hpause => ?_⟩
  · have hturn := hexec.turn_abandoned hpause
    rw [habandon] at hturn
    exact ⟨_, hcall.returns hturn, rfl⟩
  · have hpaused := hcall.returns (hexec.turn_suspended hpause)
    refine ⟨_, hpaused, rfl, rfl, rfl, fun edits next hnext => ?_⟩
    -- the exception waits in the state, which edits do not reach
    rw [foldl_edit]
    generalize edits.foldl Debugger.edit _ = debugger
    let waiting : Machine :=
      { m.noteInstruction with
        state := { m.state.thrown rest with escape := some ⟨value, trace, m.state.pc⟩ }
        debugger }
    have hstate : (waiting.prepare next).state = waiting.state := prepare_state hnext
    have habandoned : waiting.state.abandon ⟨value, trace, m.state.pc⟩ = (failure, last) :=
      habandon
    have hescape : (waiting.prepare next).state.escape = some ⟨value, trace, m.state.pc⟩ := by
      rw [hstate]
    refine ⟨_, ⟨0, drive_of_escape hescape⟩, ?_⟩
    rw [hstate, habandoned]

/-- `PUSH 1; PUSH 2; CALL 7; HALT; DROP; CALL 11; RET; PUSH 5; PUSH 6; PUSH 7; THROW`: the outer
call has taken an operand of its caller, so its callee has recorded a smaller depth than it has
itself, and only the first operand stays. -/
theorem Passes.unwinds_smaller_inner_depth :
    ∃ m₀ m m₁ m₂ : Machine, m₀.Passes .start m ∧
      m.state.calls.frames.toList.map Frame.stackPointer = [2, 1] ∧
      m₀.Returns .start (.paused ⟨17, some .throw, #[1, 5, 6], 2, .exception 7 [17, 10, 6]⟩) m₁ ∧
      m₁.stackTrace = [17, 10, 6] ∧
      m₁.Returns .stepOut (.failed ⟨17, some .throw, .uncaughtException 7 [17, 10, 6]⟩) m₂ ∧
      m₂.state.stack.values = #[1] ∧ m₂.state.calls.frames = #[] ∧ m₂.state.executed = 9 := by
  let m₀ : Machine :=
    ((ofConfig Config.tiny).load #[1, 1, 1, 2, 12, 7, 0, 32, 12, 11, 13, 1, 5, 1, 6, 1, 7, 18]).edit
      (.pauseOnException true)
  have hpasses : m₀.Passes .start (m₀.drive 8 .start).2 := passes_drive 8 (by decide +kernel)
  have hshape : (m₀.drive 8 .start).2.next? = some .throw ∧
      (m₀.drive 8 .start).2.state.handlers = {} ∧
      (m₀.drive 8 .start).2.state.stack.values = #[1, 5, 6, 7] ∧
      (m₀.drive 8 .start).2.debugger.pauseOnException = true ∧
      (m₀.drive 8 .start).2.state.pc = 17 ∧ (m₀.drive 8 .start).2.state.executed = 8 ∧
      (m₀.drive 8 .start).2.state.calls.frames = #[⟨6, 2, 0⟩, ⟨10, 1, 1⟩] := by
    decide +kernel
  generalize (m₀.drive 8 .start).2 = m at hpasses hshape
  obtain ⟨hthrow, hnone, hstack, hpause, hpc, hexecuted, hframes⟩ := hshape
  have hdepths : m.state.calls.frames.toList.map Frame.stackPointer = [2, 1] := by
    rw [hframes]
    rfl
  have hsplit : m.state.stack.values = #[1, 5, 6].push 7 := hstack
  obtain ⟨m₁, hpaused, -, -, htrace, hcalls⟩ :=
    (hpasses.unwinds (next?_eq_some.mp hthrow) hnone hsplit).2 hpause
  obtain ⟨m₂, hfailed, hlast⟩ := hcalls [] .stepOut (by decide)
  rw [hpc, hframes] at hpaused htrace hfailed hlast
  refine ⟨m₀, m, m₁, m₂, hpasses, hdepths, hpaused, htrace, hfailed, ?_, ?_, ?_⟩
  · rw [hlast]
    rfl
  · rw [hlast]
    rfl
  · rw [hlast]
    exact congrArg (· + 1) hexecuted

end Machine

end StackMachine
