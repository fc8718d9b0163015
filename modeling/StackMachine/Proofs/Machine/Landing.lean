import Mathlib.Control.Monad.Basic
import StackMachine.Proofs.Execution.Activation
import StackMachine.Proofs.Machine.FirstStop
import StackMachine.Proofs.Machine.Invariant

set_option autoImplicit false

/-! # Where a step over or out of a call lands

The debugger compares call depths only. That a step over a call ends behind this very call, and a
step out of a call where this very call returns to, follows from what happens in between: at every
boundary before the pause the call is still active, so it is left by the last instruction, and it
can be left only by returning or by an exception that goes to a handler around it
(`State.Inside.run`).
-/

namespace StackMachine

/-- A call instruction enters the call, or the fault that keeps it from doing so goes to the
innermost handler. -/
theorem State.step_call {env : Environment} {s s' : State} {target : Word}
    (hstep : s.step env (.call target) = (.continued, s')) :
    (∃ frame : Frame, frame.returnAddress = s.pc + 2 ∧
      s'.Inside (s.calls.frames.toList ++ [frame]) s.handlers.blocks.toList) ∨
    ∃ handler ∈ s.handlers.blocks.toList, s'.pc = handler.target ∧
      s'.calls.frames.toList = s.calls.frames.toList.take handler.callDepth := by
  cases (covers_anyBuiltins env).stepped hstep with
  | completed he =>
      cases he with
      | data hdata => cases hdata
      | jump hjumps => cases hjumps
      | skip hjumps => cases hjumps
      | call =>
          refine Or.inl ⟨⟨s.pc + 2, s.stack.depth, s.calls.depth * s.calls.slotsPerFrame⟩, rfl, ?_,
            fun handler hmem _ => hmem⟩
          show _ <+: s.tick.entered.calls.frames.toList
          rw [State.entered, Array.toList_push]
          exact List.prefix_refl _
  | @caught fault s₁ handler hc _ hinner =>
      rw [hc.handlers] at hinner
      refine Or.inr ⟨handler, Handlers.mem_of_innermost? hinner, rfl, ?_⟩
      show (s₁.caught handler fault.code).calls.frames.toList = _
      rw [State.caught, CallStack.unwindTo, Array.toList_shrink, hc.calls]
      rfl

namespace Machine

variable {m m' : Machine} {record : Record}

/-- A call that pauses for a step has executed instructions up to the first boundary that it asks
for. -/
theorem Returns.step_run {call : DrivingCall} (h : m.Returns call (.paused record) m')
    (hcall : call ≠ .start) (hmode : call = .resume → m.debugger.mode = .run)
    (hstep : record.reason = .step) :
    record.pc = m'.state.pc ∧ ∃ k, m.Visits (k + 1) m'.state ∧
      call.Wants m.state.calls.depth m'.state.calls.depth ∧
      ∀ j < k, ∀ s, m.Visits (j + 1) s → ¬ call.Wants m.state.calls.depth s.calls.depth := by
  obtain ⟨hrecord, n, hn, hstop⟩ := h.stopsAt hcall hmode (by rw [hstep]; rfl)
  obtain ⟨s, hs, hq⟩ := hstop.first.1
  cases hs.unique hn
  -- no breakpoint is enabled there, or else it would be the reason
  have hinactive : ¬ m.debugger.breakpoints.isActive m'.state.pc = true := by
    intro hactive
    rw [hrecord, pauseRecord] at hstep
    simp [hactive] at hstep
  obtain ⟨hpos, hwants⟩ := hq.resolve_left fun hbreak => hinactive hbreak.1
  refine ⟨by rw [hrecord]; rfl, n - 1, ?_, hwants, fun j hj s hvisits hearly => ?_⟩
  · rw [Nat.sub_add_cancel hpos]
    exact hn
  · have hle := hstop.first.2 ⟨s, hvisits, Or.inr ⟨by omega, hearly⟩⟩
    omega

/-- The machine stands at `pc` with the calls `frames`, and the record shows this position. -/
structure StandsAt (m : Machine) (record : Record) (pc : Nat) (frames : List Frame) : Prop where
  recorded : record.pc = pc
  position : m.state.pc = pc
  calls : m.state.calls.frames.toList = frames

/-- Stepping over a call lands behind it, or at a handler that was active before it. -/
theorem Returns.stepOver_lands (h : m.Returns .stepOver (.paused record) m')
    (hstep : record.reason = .step) {target : Word}
    (hnext : m.environment.code.decode m.state.pc = .ok (.call target)) :
    m'.StandsAt record (m.state.pc + 2) m.state.calls.frames.toList ∨
      ∃ handler ∈ m.state.handlers.blocks.toList,
        m'.StandsAt record handler.target
          (m.state.calls.frames.toList.take handler.callDepth) := by
  obtain ⟨hpc, k, hk, hwants, hbefore⟩ := h.step_run (by simp) (by simp) hstep
  obtain ⟨s₁, hadvance, hrest⟩ := State.run_succ_eq_none hk
  obtain ⟨-, i, hfetch, hfirst⟩ := State.advance_eq_none hadvance
  cases hnext.symm.trans (State.decode_of_fetch hfetch)
  have hlength : m.state.calls.frames.toList.length = m.state.calls.depth := Array.length_toList
  have hdepth : m'.state.calls.depth ≤ m.state.calls.depth := hwants
  have hdeep : ∀ j < k, ∀ s, s₁.run m.environment m.config.instructionBudget j = (none, s) →
      m.state.calls.depth < s.calls.depth := by
    intro j hj s hs
    refine Nat.lt_of_not_le (hbefore j hj s ?_)
    rw [Visits, State.run_succ_of_none hadvance]
    exact hs
  rcases State.step_call hfirst with ⟨frame, hreturn, hinside⟩ | ⟨handler, hmem, htarget, hframes⟩
  · -- the call is active until the last instruction
    have hlast := hinside.run hrest fun j hj s hs => by
      rw [List.length_append, hlength]
      exact hdeep j hj s hs
    rcases hlast with hstill | hleft
    · have hle := hstill.depth_le
      rw [List.length_append, hlength, List.length_singleton] at hle
      omega
    · cases hleft with
      | returned hframe hat hcalls =>
          rw [List.getLast?_concat, Option.some.injEq] at hframe
          rw [List.dropLast_concat] at hcalls
          rw [← hframe, hreturn] at hat
          exact Or.inl ⟨hpc.trans hat, hat, hcalls⟩
      | @caught handler hmem hlt hat hcalls =>
          rw [List.length_append, List.length_singleton] at hlt
          rw [List.take_append_of_le_length (by omega)] at hcalls
          exact Or.inr ⟨handler, hmem, hpc.trans hat, hat, hcalls⟩
  · -- a handler has received the fault of the call itself, and the step ends there
    have hshallow : s₁.calls.depth ≤ m.state.calls.depth := by
      rw [show s₁.calls.depth = s₁.calls.frames.toList.length from Array.length_toList.symm,
        hframes, List.length_take, hlength]
      exact Nat.min_le_right _ _
    cases k with
    | zero =>
        cases hrest
        exact Or.inr ⟨handler, hmem, hpc.trans htarget, htarget, hframes⟩
    | succ k => exact absurd hshallow (Nat.not_le.mpr (hdeep 0 (Nat.succ_pos k) s₁ rfl))

/-- Stepping out of a call lands where it returns to, or at a handler of a call around it. -/
theorem Returns.stepOut_lands (h : m.Returns .stepOut (.paused record) m')
    (hstep : record.reason = .step) :
    (∃ frame, m.state.calls.frames.toList.getLast? = some frame ∧
      m'.StandsAt record frame.returnAddress m.state.calls.frames.toList.dropLast) ∨
    ∃ handler ∈ m.state.handlers.blocks.toList, handler.callDepth < m.state.calls.depth ∧
      m'.StandsAt record handler.target (m.state.calls.frames.toList.take handler.callDepth) := by
  obtain ⟨hpc, k, hk, hwants, hbefore⟩ := h.step_run (by simp) (by simp) hstep
  have hlength : m.state.calls.frames.toList.length = m.state.calls.depth := Array.length_toList
  have hdepth : m'.state.calls.depth < m.state.calls.depth := hwants
  have hlast := (State.Inside.self m.state).run hk fun j hj s hs => by
    rw [hlength]
    cases j with
    | zero => cases hs; exact Nat.le_refl _
    | succ j => exact Nat.le_of_not_lt (hbefore j (by omega) s hs)
  rcases hlast with hstill | hleft
  · have hle := hstill.depth_le
    omega
  · cases hleft with
    | @returned frame hframe hat hcalls =>
        exact Or.inl ⟨frame, hframe, hpc.trans hat, hat, hcalls⟩
    | @caught handler hmem hlt hat hcalls =>
        exact Or.inr ⟨handler, hmem, hlength ▸ hlt, hpc.trans hat, hat, hcalls⟩

/-- **Steps over and out of calls land where the call protocol says.** A step over a call
instruction ends behind it with the same calls, or at a handler that was active before. A step out
of a call ends where the innermost call returns to, without this call, or at a handler of a call
around it. A handler is reached with the calls in which it was entered. Outside of calls there is
no step out. -/
theorem Reachable.step_lands (hm : Reachable m) (hstep : record.reason = .step) :
    (∀ target, m.environment.code.decode m.state.pc = .ok (.call target) →
      m.Returns .stepOver (.paused record) m' →
      m'.StandsAt record (m.state.pc + 2) m.state.calls.frames.toList ∨
        ∃ handler ∈ m.state.handlers.blocks, m'.state.calls.depth = handler.callDepth ∧
          m'.StandsAt record handler.target
            (m.state.calls.frames.toList.take handler.callDepth)) ∧
    (0 < m.state.calls.depth → m.Returns .stepOut (.paused record) m' →
      (∃ frame, m.state.calls.frames.back? = some frame ∧
        m'.StandsAt record frame.returnAddress m.state.calls.frames.toList.dropLast) ∨
        ∃ handler ∈ m.state.handlers.blocks, handler.callDepth < m.state.calls.depth ∧
          m'.state.calls.depth = handler.callDepth ∧
          m'.StandsAt record handler.target
            (m.state.calls.frames.toList.take handler.callDepth)) ∧
    (m.state.calls.depth = 0 → ¬ m.Returns .stepOut (.paused record) m') := by
  -- an active handler belongs to an active call, so its depth is that of the calls it goes back to
  have hdepth : ∀ handler ∈ m.state.handlers.blocks.toList,
      m'.StandsAt record handler.target (m.state.calls.frames.toList.take handler.callDepth) →
      m'.state.calls.depth = handler.callDepth := by
    intro handler hmem hstands
    have hactive : handler.callDepth ≤ m.state.calls.depth :=
      hm.invariant.fits.nested.active handler hmem
    calc m'.state.calls.depth = m'.state.calls.frames.toList.length := Array.length_toList.symm
      _ = min handler.callDepth m.state.calls.frames.toList.length := by
          rw [hstands.calls, List.length_take]
      _ = min handler.callDepth m.state.calls.depth := by rw [Array.length_toList]; rfl
      _ = handler.callDepth := Nat.min_eq_left hactive
  refine ⟨fun target hnext hreturns => ?_, fun _ hreturns => ?_, fun hzero hreturns => ?_⟩
  · refine (hreturns.stepOver_lands hstep hnext).imp_right ?_
    rintro ⟨handler, hmem, hstands⟩
    exact ⟨handler, Array.mem_toList_iff.mp hmem, hdepth handler hmem hstands, hstands⟩
  · refine (hreturns.stepOut_lands hstep).imp ?_ ?_
    · rintro ⟨frame, hframe, hstands⟩
      exact ⟨frame, by rw [← Array.getLast?_toList]; exact hframe, hstands⟩
    · rintro ⟨handler, hmem, hlt, hstands⟩
      exact ⟨handler, Array.mem_toList_iff.mp hmem, hlt, hdepth handler hmem hstands, hstands⟩
  · obtain ⟨-, k, -, hwants, -⟩ := hreturns.step_run (by simp) (by simp) hstep
    have hlt : m'.state.calls.depth < m.state.calls.depth := hwants
    omega

/-- `ENTER_TRY 8; CALL 5; HALT; PUSH 7; THROW; HALT` throws inside the call that is stepped
over. -/
theorem Reachable.step_lands_at_handler :
    ∃ (m m' : Machine) (record : Record), m.state.pc = 2 ∧
      m.Returns .stepOver (.paused record) m' ∧
      ∃ handler ∈ m.state.handlers.blocks, handler.target = 8 ∧ m'.state.pc = handler.target := by
  let m : Machine :=
    (((ofConfig Config.tiny).load #[16, 8, 12, 5, 0, 1, 7, 18, 0]).drive 2 .stepInto).2
  have hm : Reachable m := .operate (.create _ create_tiny) (.drive 2 .stepInto)
  have hreturns : m.Returns .stepOver (.paused ⟨8, some .halt, #[7], 0, .step⟩) _ :=
    returns_drive 4 (by decide +kernel)
  rcases (step_lands hm rfl).1 5 (by decide +kernel) hreturns with hbehind | ⟨handler, hmem, -, hat⟩
  · have hpc : m.state.pc + 2 = 4 := by decide +kernel
    cases hbehind.recorded.trans hpc
  · exact ⟨m, _, _, by decide +kernel, hreturns, handler, hmem, hat.recorded.symm, hat.position⟩

end Machine

end StackMachine
