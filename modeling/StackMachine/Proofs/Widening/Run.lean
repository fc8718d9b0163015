import StackMachine.Proofs.Execution.Run
import StackMachine.Proofs.Widening.State

set_option autoImplicit false

/-! # Runs under larger limits

A state raises a fault (`State.Faults`) if the instruction there stops with it, whether a handler
receives it or not, or if the run ends with it there. While no state raises a fault that is due to a
limit, corresponding states lead to corresponding states, turn by turn (`State.Widened.advance`), so
the run under larger limits is the same (`State.Widened.run`).
-/

namespace StackMachine.State

open StackMachine.Action

variable {c c' : Config} {env : Environment} {budget : Option Nat} {s s' t t' : State}

/-- The next turn of a run raises the fault: the instruction stops with it, or the run does. -/
inductive Faults (env : Environment) (budget : Option Nat) (s : State) (fault : Fault) : Prop
  | instruction {i : Instruction} {s' : State} :
      s.Running env.code → s.fetch env.code budget = .ok i →
      execute env i s.tick = .error fault s' → Faults env budget s fault
  | run {f : Failure} {s' : State} :
      s.advance env budget = (some (.failed f), s') → f.fault = fault → Faults env budget s fault

/-- The next turn of a run hits no limit. -/
def Free (env : Environment) (budget : Option Nat) (s : State) : Prop :=
  ∀ fault, Faults env budget s fault → fault.isLimit = false

/-! ## Steps -/

theorem initial_widened (hle : c.Within c') (input : List Word) :
    Widened c c' (initial c input) (initial c' input) where
  pc := rfl
  halted := rfl
  executed := rfl
  escape := rfl
  failure := rfl
  handlers := rfl
  input := rfl
  output := rfl
  stack := ⟨rfl, hle.maxStackDepth⟩
  calls := ⟨(initial_fits c input).calls, (initial_fits c' input).calls, rfl⟩
  memory := by
    have hfits := (initial_fits c input).memory
    have hfits' := (initial_fits c' input).memory
    have hglobals := hle.globalSlots
    have hslots := hle.slotsPerFrame
    have hdepth := hle.maxCallDepth
    refine ⟨hfits, hfits', fun i hi => ?_, fun d hd k hk => ?_⟩
    · have hi' : i < c'.globalSlots := by omega
      simp [initial, Memory.zeroed, hi, hi']
    · have hslot := hfits.slot_lt hd hk
      have hslot' : d * c'.slotsPerFrame + k < _ := hfits'.slot_lt (by omega) (by omega)
      rw [hfits.locals] at hslot
      rw [hfits'.locals] at hslot'
      simp [initial, Memory.zeroed, hslot, hslot']
  heap := by
    have hsize := hle.heapSize
    refine ⟨rfl, ?_, fun i hi => ?_⟩
    · simpa [initial, Heap.zeroed, Heap.capacity] using hsize
    · simp only [initial, Heap.zeroed, Heap.capacity, Array.size_replicate] at hi
      have hi' : i < c'.heapSize := by omega
      simp [initial, Heap.zeroed, hi, hi']

namespace Widened

theorem tick (h : Widened c c' s s') : Widened c c' s.tick s'.tick :=
  { h with executed := by rw [State.tick, State.tick, h.executed] }

theorem follow (h : Widened c c' s s') (width : Nat) (flow : Flow) :
    Widened c c' (s.follow width flow) (s'.follow width flow) := by
  cases flow with
  | next => exact { h with pc := by rw [State.follow, State.follow, h.pc] }
  | jump offset => exact { h with pc := rfl }
  | halt => exact { h with pc := by rw [State.follow, State.follow, h.pc], halted := rfl }

/-- A fault ends both runs with the same failure. -/
theorem fail (h : Widened c c' s s') (opcode : Option Opcode) (fault : Fault) :
    (s'.fail opcode fault).1 = (s.fail opcode fault).1 ∧
      Widened c c' (s.fail opcode fault).2 (s'.fail opcode fault).2 := by
  unfold State.fail
  rw [h.pc]
  exact ⟨rfl, { h with pc := rfl, halted := rfl, failure := rfl }⟩

theorem unwind (h : Widened c c' s s') : Widened c c' s.unwind s'.unwind := by
  -- leaving the calls goes back to the same operand depths
  have htruncate : ∀ (links : List (Nat × Nat)) (stack stack' : OperandStack),
      OperandStack.Widened stack stack' →
      OperandStack.Widened (links.foldl (fun stack link => stack.truncate link.2) stack)
        (links.foldl (fun stack link => stack.truncate link.2) stack') := by
    intro links
    induction links with
    | nil => exact fun _ _ hstack => hstack
    | cons link links ih => exact fun _ _ hstack => ih _ _ (hstack.truncate link.2)
  have hlinks : ∀ calls : CallStack,
      (calls.above 0).map Frame.link = (calls.frames.map Frame.link).toList.reverse := by
    intro calls
    rw [CallStack.above, List.drop_zero, List.map_reverse, Array.toList_map]
  have hfold : ∀ (s : State), s.unwind.stack =
      (s.calls.frames.map Frame.link).toList.reverse.foldl
        (fun stack link => stack.truncate link.2) s.stack := by
    intro s
    rw [← hlinks, List.foldl_map]
    rfl
  refine { h with calls := h.calls.clear, stack := ?_ }
  show OperandStack.Widened s.unwind.stack s'.unwind.stack
  rw [hfold, hfold, h.calls.links]
  exact htruncate _ _ _ h.stack

/-- An escaped exception ends both runs with the same failure. -/
theorem abandon (h : Widened c c' s s') (e : Escape) :
    (s'.abandon e).1 = (s.abandon e).1 ∧ Widened c c' (s.abandon e).2 (s'.abandon e).2 := by
  have hleft : Widened c c' { s.unwind with handlers := {}, pc := e.pc, escape := none }
      { s'.unwind with handlers := {}, pc := e.pc, escape := none } :=
    { h.unwind with handlers := rfl, pc := rfl, escape := rfl }
  exact hleft.fail _ _

/-- A fault is handed over in the same way, unless that hits a limit. -/
theorem handle (h : Widened c c' s s') {opcode : Opcode} {fault : Fault}
    (hfree : ∀ f t, s.handle opcode fault = (.failed f, t) → f.fault.isLimit = false) :
    (s'.handle opcode fault).1 = (s.handle opcode fault).1 ∧
      Widened c c' (s.handle opcode fault).2 (s'.handle opcode fault).2 := by
  by_cases hcatch : fault.Catchable
  · rw [handle_of_catchable hcatch] at hfree ⊢
    rw [handle_of_catchable hcatch]
    have hdeliver := deliver_mirrors fault.code s s' h
    generalize deliver fault.code s = r, deliver fault.code s' = r' at hdeliver hfree ⊢
    cases hdeliver with
    | @ok answer _ t t' hanswer ht =>
        subst hanswer
        cases answer with
        | some target => exact ⟨rfl, { ht with pc := rfl }⟩
        | none => exact ⟨congrArg Event.failed (ht.fail _ _).1, (ht.fail _ _).2⟩
    | error ht => exact ⟨congrArg Event.failed (ht.fail _ _).1, (ht.fail _ _).2⟩
    | limit hlimit => cases hlimit.symm.trans (hfree _ _ rfl)
  · by_cases hescape : ∃ value trace, fault = .uncaughtException value trace
    · obtain ⟨value, trace, rfl⟩ := hescape
      refine ⟨?_, h⟩
      show Event.escaped ⟨value, trace, s'.pc⟩ = Event.escaped ⟨value, trace, s.pc⟩
      rw [h.pc]
    · have hother : ∀ value trace, fault ≠ .uncaughtException value trace :=
        fun value trace he => hescape ⟨value, trace, he⟩
      rw [handle_of_not_catchable hcatch hother, handle_of_not_catchable hcatch hother]
      exact ⟨congrArg Event.failed (h.fail _ _).1, (h.fail _ _).2⟩

/-- **A step does the same under larger limits**, unless it hits a limit. -/
theorem step (hle : c.Within c') (hb : env.builtins = .standard) (h : Widened c c' s s')
    {i : Instruction}
    (hexecute : ∀ fault t, execute env i s.tick = .error fault t → fault.isLimit = false)
    (hfree : ∀ f t, s.step env i = (.failed f, t) → f.fault.isLimit = false) :
    (s'.step env i).1 = (s.step env i).1 ∧
      Widened c c' (s.step env i).2 (s'.step env i).2 := by
  have hmirrors := execute_mirrors hle hb i s.tick s'.tick h.tick
  cases hx : execute env i s.tick with
  | ok flow t =>
      cases hx' : execute env i s'.tick with
      | ok flow' t' =>
          rw [hx, hx'] at hmirrors
          rw [step_of_ok hx, step_of_ok hx']
          cases hmirrors with
          | ok hflow ht =>
              subst hflow
              exact ⟨rfl, ht.follow _ _⟩
      | error fault t' =>
          rw [hx, hx'] at hmirrors
          cases hmirrors
  | error fault t =>
      -- the fault is not due to a limit, so the larger machine stops with it as well
      rw [hx] at hmirrors
      rw [step_of_error hx] at hfree ⊢
      generalize hx' : execute env i s'.tick = r' at hmirrors
      cases hmirrors with
      | error ht =>
          rw [step_of_error hx']
          exact ht.handle hfree
      | limit hlimit => cases hlimit.symm.trans (hexecute _ _ hx)

end Widened

/-! ## Runs -/

/-- A larger budget has the same instruction, while the smaller one is not used up. -/
theorem fetch_within (hle : c.Within c') (h : Widened c c' s s') (code : Program)
    (hfree : ∀ opcode fault, s.fetch code c.instructionBudget = .error (opcode, fault) →
      fault.isLimit = false) :
    s'.fetch code c'.instructionBudget = s.fetch code c.instructionBudget := by
  unfold fetch at hfree ⊢
  rw [h.executed, h.pc]
  -- a budget that is used up counts as a limit that is hit
  by_cases hspent : c.instructionBudget.any (· ≤ s.executed) = true
  · rw [if_pos hspent] at hfree
    cases hfree _ _ rfl
  · have hspent' : ¬ c'.instructionBudget.any (· ≤ s.executed) = true := by
      intro hany
      cases hb' : c'.instructionBudget with
      | none =>
          rw [hb'] at hany
          cases hany
      | some b' =>
          obtain ⟨b, hb, hbudget⟩ := hle.instructionBudget b' hb'
          rw [hb', Option.any_some, decide_eq_true_eq] at hany
          rw [hb, Option.any_some, decide_eq_true_eq] at hspent
          omega
    rw [if_neg hspent, if_neg hspent']

namespace Widened

/-- **A turn does the same under larger limits**, unless it hits a limit. -/
theorem advance (hle : c.Within c') (hb : env.builtins = .standard) (h : Widened c c' s s')
    (hfree : s.Free env c.instructionBudget) :
    (s'.advance env c'.instructionBudget).1 = (s.advance env c.instructionBudget).1 ∧
      Widened c c' (s.advance env c.instructionBudget).2
        (s'.advance env c'.instructionBudget).2 := by
  rcases s.running_or_ended env.code with hrun | hend
  · have hrun' : s'.Running env.code := by
      constructor
      · rw [h.halted]
        exact hrun.not_halted
      · rw [h.pc]
        exact hrun.inside
    have hfetch' := fetch_within hle h env.code fun opcode fault hfetch =>
      hfree fault (.run (advance_of_error hrun hfetch) rfl)
    cases hfetch : s.fetch env.code c.instructionBudget with
    | error cause =>
        rw [advance_of_error hrun hfetch, advance_of_error hrun' (hfetch'.trans hfetch)]
        have hfail := h.fail cause.1 cause.2
        exact ⟨congrArg (fun f => some (Outcome.failed f)) hfail.1, hfail.2⟩
    | ok i =>
        have hadvance := advance_of_ok hrun hfetch
        rw [advance_of_ok hrun' (hfetch'.trans hfetch)]
        obtain ⟨hevent, hstep⟩ := h.step hle hb
          (fun fault t hx => hfree fault (.instruction hrun hfetch hx))
          (fun f t hx => hfree f.fault (.run (by rw [hadvance, hx]) rfl))
        rw [hadvance]
        cases hcase : s.step env i with
        | mk event t =>
            cases hcase' : s'.step env i with
            | mk event' t' =>
                rw [hcase, hcase'] at hevent hstep
                subst hevent
                cases event' with
                | continued => exact ⟨rfl, hstep⟩
                | failed f => exact ⟨rfl, hstep⟩
                | escaped e =>
                    have habandon := hstep.abandon e
                    exact ⟨congrArg (fun f => some (Outcome.failed f)) habandon.1, habandon.2⟩
  · have hend' : (s'.halted || decide (env.code.size ≤ s'.pc)) = true := by
      rw [h.halted, h.pc]
      exact hend
    rw [advance_of_ended hend, advance_of_ended hend', h.output]
    exact ⟨rfl, { h with halted := rfl, output := rfl }⟩

/-- **A run that hits no limit is the same under larger limits**, turn by turn. -/
theorem run (hle : c.Within c') (hb : env.builtins = .standard) (h : Widened c c' s s')
    (turns : Nat)
    (hfree : ∀ k t, s.run env c.instructionBudget k = (none, t) →
      t.Free env c.instructionBudget) :
    (s'.run env c'.instructionBudget turns).1 = (s.run env c.instructionBudget turns).1 ∧
      Widened c c' (s.run env c.instructionBudget turns).2
        (s'.run env c'.instructionBudget turns).2 := by
  induction turns generalizing s s' with
  | zero => exact ⟨rfl, h⟩
  | succ turns ih =>
      obtain ⟨houtcome, hnext⟩ := h.advance hle hb (hfree 0 s rfl)
      cases hcase : s.advance env c.instructionBudget with
      | mk o t =>
          cases hcase' : s'.advance env c'.instructionBudget with
          | mk o' t' =>
              rw [hcase, hcase'] at houtcome hnext
              subst houtcome
              cases o' with
              | some outcome =>
                  rw [run_succ_of_some hcase, run_succ_of_some hcase']
                  exact ⟨rfl, hnext⟩
              | none =>
                  -- what the rest of the run passes, the whole run passes one turn later
                  rw [run_succ_of_none hcase, run_succ_of_none hcase']
                  refine ih hnext fun k u hu => hfree (k + 1) u ?_
                  rw [run_succ_of_none hcase, hu]

end Widened

end StackMachine.State
