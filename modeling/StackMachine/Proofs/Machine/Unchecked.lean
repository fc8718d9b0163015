import StackMachine.Proofs.Machine.Budget
import StackMachine.Proofs.Machine.Invariant
import StackMachine.Proofs.Unchecked.Step

set_option autoImplicit false

/-! # Nothing goes wrong in a call

`Machine.uncheckedDrive` carries out a call with the unchecked operations of fetching and of steps.
A machine that its host can reach has usable limits and fits them, so with the standard builtins and
a program that words can index no turn of a call goes wrong (`Machine.uncheckedTurn_eq`), and the
call does what it does with operations that cannot go wrong (`Machine.Reachable.uncheckedDrive_eq`).
-/

namespace StackMachine.Machine

/-! ## Calls with unchecked operations -/

/-- Go on after an instruction, as its event says. -/
def settle (m : Machine) (event : Event) (s : State) : Option Outcome × Machine :=
  match event with
  | .continued => (none, { m with state := s })
  | .failed failure => (some (.failed failure), { m with state := s })
  | .escaped e =>
    let (outcome, m) := { m with state := s }.escaped e
    (some outcome, m)

/-- One turn with unchecked operations. -/
def uncheckedTurn (m : Machine) : Option (Option Outcome × Machine) :=
  if m.state.halted || m.environment.code.size ≤ m.state.pc then
    some (some (.halted m.state.output), { m with state := { m.state with halted := true } })
  else
    match m.debugger.check m.state.pc m.state.calls.depth with
    | some reason =>
      let (outcome, m) := m.pause (m.snapshot reason)
      some (some outcome, m)
    | none =>
      match Unchecked.fetch m.state m.environment.code m.config.instructionBudget with
      | some (.error (opcode, fault)) =>
        let (failure, state) := m.state.fail opcode fault
        some (some (.failed failure), { m with state })
      | some (.ok i) =>
        (Unchecked.step m.state m.environment i).map fun (event, s) =>
          m.noteInstruction.settle event s
      | none => none

/-- Take at most so many turns with unchecked operations. -/
def uncheckedProceed : Nat → Machine → Option (Option Outcome × Machine)
  | 0, m => some (none, m)
  | turns + 1, m =>
    match m.uncheckedTurn with
    | some (some outcome, m) => some (some outcome, m)
    | some (none, m) => uncheckedProceed turns m
    | none => none

/-- Carry out a call with unchecked operations. -/
def uncheckedDrive (turns : Nat) (call : DrivingCall) (m : Machine) :
    Option (Option Outcome × Machine) :=
  match m.begin call with
  | (some failure, m) => some (some (.failed failure), m)
  | (none, m) => uncheckedProceed turns m

/-! ## Turns -/

variable {m p : Machine} {call : DrivingCall}

theorem execute_eq (m : Machine) (i : Instruction) :
    m.execute i =
      m.noteInstruction.settle (m.state.step m.environment i).1
        (m.state.step m.environment i).2 := by
  unfold execute settle
  simp only [noteInstruction_state, noteInstruction_environment]
  cases m.state.step m.environment i with
  | mk event s => cases event <;> rfl

/-- The state of a reachable machine is in range while its program is short enough. -/
theorem Reachable.inRange (hm : Reachable m) (hsize : m.environment.code.size < Word.positions) :
    Unchecked.InRange m.config m.state where
  usable := hm.usable
  fits := hm.invariant.fits
  pc := Nat.lt_of_le_of_lt hm.invariant.placed.pc hsize

/-- **A turn does not go wrong.** -/
theorem uncheckedTurn_eq (hm : Reachable m) (hb : m.environment.builtins = .standard)
    (hsize : m.environment.code.size < Word.positions)
    (hcount : m.turn.2.state.executed < sizeBound) : m.uncheckedTurn = some m.turn := by
  unfold uncheckedTurn
  rcases m.state.running_or_ended m.environment.code with hrun | hend
  · rw [if_neg hrun.not_ended]
    cases hcheck : m.debugger.check m.state.pc m.state.calls.depth with
    | some reason =>
        unfold turn
        rw [if_neg hrun.not_ended, hcheck]
    | none =>
        rw [Unchecked.fetch_eq hsize hrun.inside]
        cases hfetch : m.state.fetch m.environment.code m.config.instructionBudget with
        | error cause =>
            unfold turn
            rw [if_neg hrun.not_ended, hcheck, hfetch]
        | ok i =>
            -- the turn counts the instruction
            have hdispatch : m.Dispatches i := ⟨hrun, hcheck, hfetch⟩
            have hnext : m.turn.2.state.executed = m.state.executed + 1 := by
              have hexecuted := (turned (m := m) rfl).executed_eq
              rwa [next?_eq_some.mpr hdispatch] at hexecuted
            rw [hnext] at hcount
            dsimp only
            rw [Unchecked.step_eq hb (hm.inRange hsize) hcount, hdispatch.turn, execute_eq]
            rfl
  · unfold turn
    rw [if_pos hend, if_pos hend]

/-! ## Calls -/

/-- A call goes wrong only if one of its turns does. -/
theorem uncheckedProceed_eq (turns : Nat) {m : Machine}
    (hturn : ∀ k < turns, ∀ p, m.proceed k = (none, p) → p.uncheckedTurn = some p.turn) :
    m.uncheckedProceed turns = some (m.proceed turns) := by
  induction turns generalizing m with
  | zero => rfl
  | succ turns ih =>
      rw [uncheckedProceed, hturn 0 (Nat.succ_pos _) m rfl, proceed_succ]
      cases hfirst : m.turn with
      | mk o m' =>
          cases o with
          | some outcome => rfl
          | none =>
              -- the turns that remain are turns of the whole call, each one later
              refine ih fun k hk p hproceed => hturn (k + 1) (Nat.succ_lt_succ hk) p ?_
              rw [proceed_succ, hfirst]
              exact hproceed

/-- A turn counts no more than the call that it belongs to. -/
theorem turn_executed_le {turns k : Nat} (hk : k < turns) (hproceed : m.proceed k = (none, p)) :
    p.turn.2.state.executed ≤ (m.proceed turns).2.state.executed := by
  obtain ⟨more, rfl⟩ := Nat.exists_eq_add_of_lt hk
  rw [Nat.add_assoc, proceed_append hproceed, proceed_succ]
  cases hturn : p.turn with
  | mk o p' =>
      cases o with
      | some outcome => exact Nat.le_refl _
      | none => exact proceed_executed_le more rfl

/-- **Nothing goes wrong in a call.** Carried out with unchecked operations, it does the same. -/
theorem Reachable.uncheckedDrive_eq (hm : Reachable m)
    (hb : m.environment.builtins = .standard)
    (hsize : m.environment.code.size < Word.positions) (turns : Nat) (call : DrivingCall)
    (hcount : (m.drive turns call).2.state.executed < sizeBound) :
    m.uncheckedDrive turns call = some (m.drive turns call) := by
  unfold uncheckedDrive
  cases hbegin : m.begin call with
  | mk failure m' =>
      cases failure with
      | some failure =>
          unfold drive
          rw [hbegin]
      | none =>
          have hdrive : ∀ k, m.drive k call = m'.proceed k := by
            intro k
            unfold drive
            rw [hbegin]
          rw [hdrive turns] at hcount ⊢
          refine uncheckedProceed_eq turns fun k hk p hproceed => ?_
          have hpass : m.drive k call = (none, p) := (hdrive k).trans hproceed
          -- the call could have been cut off here, so the host can reach the machine
          have hp : Reachable p := by
            have hoperate := Reachable.operate hm (.drive k call)
            rwa [hpass] at hoperate
          have henv : p.environment = m.environment := (drive_setup hpass).2
          refine uncheckedTurn_eq hp (by rw [henv, hb]) (by rw [henv]; exact hsize) ?_
          exact Nat.lt_of_le_of_lt (turn_executed_le hk hproceed) hcount

/-- `ENTER_TRY 18; CALL 6; HALT; HALT; PUSH 4; MALLOC; STORE_LOCAL 0; PUSH 1; PUSH 0; CALL_BUILTIN;
THROW; HALT; PRINT; HALT` on twelve bytes: a block and an array fill the heap, and the address of
the array is thrown out of the call. -/
theorem Reachable.uncheckedDrive_eq_full_heap :
    ∃ m : Machine, Reachable m ∧ ∃ r, m.uncheckedDrive 12 .start = some r ∧
      r.1 = some (.halted #[4]) ∧ r.2.state.heap.remaining = 0 := by
  let config : Config := { Config.tiny with heapSize := 12 }
  let code : Program :=
    #[16, 18, 12, 6, 0, 0, 1, 4, 19, 15, 0, 1, 1, 1, 0, 27, 18, 0, 5, 0]
  have hm : Reachable ((ofConfig config).load code) :=
    .create code (create_eq_ok_iff.mpr ⟨by decide, rfl⟩)
  have hcount : (((ofConfig config).load code).drive 12 .start).2.state.executed < sizeBound := by
    decide +kernel
  have hdrive := hm.uncheckedDrive_eq rfl (by decide +kernel) 12 .start hcount
  exact ⟨_, hm, _, hdrive, by decide +kernel, by decide +kernel⟩

end StackMachine.Machine
