import StackMachine.Proofs.Execution.Failing
import StackMachine.Proofs.Machine.Invariant

set_option autoImplicit false

/-! # What a failed instruction leaves of a run

The operand stack of a reachable machine never exceeds its limit, and its heap is never larger
than a heap can be (`Machine.Reachable.usable`), which is what a failing instruction needs to leave
everything but its operands alone. Where control goes after the fault does not touch the data
again, so a handler finds them as they were before the instruction
(`Machine.Reachable.fault_leaves`).
-/

namespace StackMachine.Machine

variable {m : Machine}

theorem Reachable.heap_admissible (hm : Reachable m) : m.state.heap.Admissible where
  cursor_le := hm.invariant.fits.heap.cursor
  capacity_le := by
    rw [hm.invariant.fits.heap.capacity]
    exact Config.heapSize_le hm.usable

/-- **A failing instruction leaves everything but popped operands alone.** When an instruction stops
with a fault on a reachable machine with the standard builtins, it has counted as executed and has
taken at most four words from the operand stack; `READ` has also taken a word from the input if the
operand stack is full. All else is as before, the position included. Memory, heap and output stay
so whatever becomes of the fault, in particular if a handler receives it. -/
theorem Reachable.fault_leaves (hm : Reachable m) (hb : m.environment.builtins = .standard)
    {i : Instruction} {fault : Fault} {s : State}
    (hx : State.execute m.environment i m.state.tick = .error fault s) :
    s = { m.state with
          executed := m.state.executed + 1
          stack := s.stack
          input := s.input } ∧
      s.stack.limit = m.state.stack.limit ∧
      s.stack.values.toList <+: m.state.stack.values.toList ∧
      m.state.stack.depth ≤ s.stack.depth + 4 ∧
      (s.input = m.state.input ∨ i = .read ∧ m.state.stack.depth = m.config.maxStackDepth) ∧
      ∀ event s', m.state.step m.environment i = (event, s') →
        s'.memory = m.state.memory ∧ s'.heap = m.state.heap ∧ s'.output = m.state.output := by
  have hfits := hm.invariant.fits
  have hroom : m.state.tick.stack.depth ≤ m.state.tick.stack.limit := by
    show m.state.stack.depth ≤ m.state.stack.limit
    rw [hfits.stack.limit]
    exact hfits.stack.depth
  obtain ⟨hrest, ⟨n, hn, hpopped⟩, hinput⟩ :=
    State.execute_failed hb hroom hm.heap_admissible hx
  refine ⟨hrest, hpopped.limit, hpopped.isPrefix, ?_, ?_, fun event s' hstep => ?_⟩
  · have hdepth : m.state.stack.depth = s.stack.depth + n := hpopped.depth
    omega
  · refine hinput.imp id fun ⟨hread, hfull⟩ => ⟨hread, ?_⟩
    rw [← hfits.stack.limit]
    exact hfull
  · have hdata := State.step_sameData m.state m.environment i
    have hfinal : (State.execute m.environment i).final m.state.tick = s := by
      rw [Action.final, hx]
    rw [hstep, hfinal] at hdata
    rw [hrest] at hdata
    exact ⟨hdata.memory, hdata.heap, hdata.output⟩

/-- `ENTER_TRY 11; PUSH 0; PUSH 0; PUSH 7; PUSH 2; CALL_BUILTIN; HALT`: the store into an array that
does not exist takes four words, and the handler receives the fault. -/
theorem Reachable.fault_leaves_four_words :
    ∃ (m : Machine) (fault : Fault) (s : State), m.state.stack.values = #[0, 0, 7, 2] ∧
      State.execute m.environment .callBuiltin m.state.tick = .error fault s ∧
      s.stack.values = #[] ∧ m.state.stack.depth ≤ s.stack.depth + 4 ∧
      (m.state.step m.environment .callBuiltin).2.heap = m.state.heap := by
  let m₀ : Machine := (ofConfig Config.tiny).load #[16, 11, 1, 0, 1, 0, 1, 7, 1, 2, 27, 0]
  -- the run is unfolded only where it is evaluated
  obtain ⟨m, hrun⟩ : ∃ m, m = (m₀.drive 5 .start).2 := ⟨_, rfl⟩
  have hdrive : m₀.Operates m := hrun ▸ .drive 5 .start
  have hm : Reachable m := .operate (.create _ create_tiny) hdrive
  have hb : m.environment.builtins = .standard := by rw [hdrive.setup.2]; rfl
  have hstack : m.state.stack.values = #[0, 0, 7, 2] := by
    subst hrun
    decide +kernel
  have hx : State.execute m.environment .callBuiltin m.state.tick = .error (.invalidHeapAddress 0 4)
      { m.state.tick with stack := { m.state.stack with values := #[] } } := by
    subst hrun
    exact Action.stop?_eq_some.mp (by decide +kernel)
  obtain ⟨-, -, -, hdepth, -, hkeeps⟩ := hm.fault_leaves hb hx
  exact ⟨m, _, _, hstack, hx, rfl, hdepth, (hkeeps _ _ (Prod.ext rfl rfl)).2.1⟩

end StackMachine.Machine
