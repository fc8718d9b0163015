import StackMachine.Machine
import StackMachine.Proofs.Execution.Step

set_option autoImplicit false

/-! # Runs without a debugger

`State.advance` is a turn of a run that nobody watches: the run ends, or one instruction is
executed. `State.run` takes turns until there is an outcome, which is never a pause. A run that
has been interrupted can be taken up again (`State.run_add`).
-/

namespace StackMachine.State

/-- The run stands before an instruction: it has not halted and is inside the code. -/
structure Running (s : State) (code : Program) : Prop where
  not_halted : s.halted = false
  inside : s.pc < code.size

theorem running_or_ended (s : State) (code : Program) :
    s.Running code ∨ (s.halted || decide (code.size ≤ s.pc)) = true := by
  by_cases hhalted : s.halted = true
  · exact Or.inr (by simp [hhalted])
  · by_cases hinside : code.size ≤ s.pc
    · exact Or.inr (by simp [hinside])
    · exact Or.inl ⟨by simpa using hhalted, by omega⟩

theorem Running.not_ended {s : State} {code : Program} (h : s.Running code) :
    ¬ (s.halted || decide (code.size ≤ s.pc)) = true := by
  have := h.inside
  simp [h.not_halted]
  omega

/-- One turn without a debugger: the run ends here, or one instruction is executed. -/
def advance (s : State) (env : Environment) (budget : Option Nat) : Option Outcome × State :=
  if s.halted || env.code.size ≤ s.pc then (some (.halted s.output), { s with halted := true })
  else
    match s.fetch env.code budget with
    | .error (opcode, fault) => (some (.failed (s.fail opcode fault).1), (s.fail opcode fault).2)
    | .ok i =>
      match s.step env i with
      | (.continued, s') => (none, s')
      | (.failed failure, s') => (some (.failed failure), s')
      | (.escaped e, s') => (some (.failed (s'.abandon e).1), (s'.abandon e).2)

/-- Turns without a debugger until there is an outcome, but at most `turns` of them. -/
def run (env : Environment) (budget : Option Nat) : Nat → State → Option Outcome × State
  | 0, s => (none, s)
  | turns + 1, s =>
    match s.advance env budget with
    | (some outcome, s') => (some outcome, s')
    | (none, s') => run env budget turns s'

variable {env : Environment} {budget : Option Nat} {s s' : State}

theorem run_succ_of_none {turns : Nat} (h : s.advance env budget = (none, s')) :
    run env budget (turns + 1) s = run env budget turns s' := by
  simp only [run, h]

theorem run_succ_of_some {turns : Nat} {outcome : Outcome}
    (h : s.advance env budget = (some outcome, s')) :
    run env budget (turns + 1) s = (some outcome, s') := by
  simp only [run, h]

/-- A run that is taken up again goes on where it was. -/
theorem run_add {m n : Nat} (h : run env budget m s = (none, s')) :
    run env budget (m + n) s = run env budget n s' := by
  induction m generalizing s with
  | zero =>
      cases h
      rw [Nat.zero_add]
  | succ m ih =>
      rw [Nat.succ_add]
      cases ha : s.advance env budget with
      | mk outcome s₁ =>
          cases outcome with
          | some outcome => rw [run_succ_of_some ha] at h; cases h
          | none =>
              rw [run_succ_of_none ha] at h
              rw [run_succ_of_none ha]
              exact ih h

/-! ## Single turns -/

theorem advance_of_ended (h : (s.halted || decide (env.code.size ≤ s.pc)) = true) :
    s.advance env budget = (some (.halted s.output), { s with halted := true }) := if_pos h

theorem advance_of_error (h : s.Running env.code) {opcode : Option Opcode} {fault : Fault}
    (hfetch : s.fetch env.code budget = .error (opcode, fault)) :
    s.advance env budget =
      (some (.failed (s.fail opcode fault).1), (s.fail opcode fault).2) := by
  unfold advance
  rw [if_neg h.not_ended, hfetch]

theorem advance_of_ok (h : s.Running env.code) {i : Instruction}
    (hfetch : s.fetch env.code budget = .ok i) :
    s.advance env budget =
      match s.step env i with
      | (.continued, s') => (none, s')
      | (.failed failure, s') => (some (.failed failure), s')
      | (.escaped e, s') => (some (.failed (s'.abandon e).1), (s'.abandon e).2) := by
  unfold advance
  rw [if_neg h.not_ended, hfetch]

/-- A turn without an outcome has executed an instruction and goes on. -/
theorem advance_eq_none (h : s.advance env budget = (none, s')) :
    s.Running env.code ∧
      ∃ i, s.fetch env.code budget = .ok i ∧ s.step env i = (.continued, s') := by
  rcases s.running_or_ended env.code with hrun | hend
  · cases hfetch : s.fetch env.code budget with
    | error cause => rw [advance_of_error hrun hfetch] at h; cases h
    | ok i =>
        rw [advance_of_ok hrun hfetch] at h
        refine ⟨hrun, i, rfl, ?_⟩
        cases hstep : s.step env i with
        | mk event s₁ =>
            rw [hstep] at h
            cases event with
            | continued => cases h; rfl
            | failed failure => cases h
            | escaped e => cases h
  · rw [advance_of_ended hend] at h
    cases h

/-- What the first turn of a longer run without an outcome is. -/
theorem run_succ_eq_none {turns : Nat} (h : run env budget (turns + 1) s = (none, s')) :
    ∃ s₁, s.advance env budget = (none, s₁) ∧ run env budget turns s₁ = (none, s') := by
  cases ha : s.advance env budget with
  | mk outcome s₁ =>
      cases outcome with
      | some outcome => rw [run_succ_of_some ha] at h; cases h
      | none =>
          rw [run_succ_of_none ha] at h
          exact ⟨s₁, rfl, h⟩

/-- Each turn of a run without an outcome executes one instruction. -/
theorem run_executed {k : Nat} (h : run env budget k s = (none, s')) :
    s'.executed = s.executed + k := by
  induction k generalizing s with
  | zero =>
      cases h
      rfl
  | succ k ih =>
      obtain ⟨s₁, ha, hrest⟩ := run_succ_eq_none h
      obtain ⟨-, i, -, hstep⟩ := advance_eq_none ha
      have hfirst := step_executed hstep
      have := ih hrest
      omega

end StackMachine.State
