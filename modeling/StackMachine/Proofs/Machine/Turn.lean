import StackMachine.Proofs.Execution.Run

set_option autoImplicit false

/-! # What a turn of a machine does

`Machine.Turned` lists the ways in which a turn can end: the run is over, the debugger pauses it,
the next instruction cannot be fetched, or an instruction is executed and continues, fails, or
lets an exception escape. Next to a pause at a boundary, which leaves the run alone, a turn moves
the state just as a turn without a debugger does (`Machine.Turned.advance`). `Machine.Driven` lists
the ways in which a call is carried out.
-/

namespace StackMachine

/-- No exception is waiting and no fault has ended the run. -/
structure State.Clear (s : State) : Prop where
  escape : s.escape = none
  failure : s.failure = none

namespace Machine

/-! ## Notes taken by the debugger -/

section NoteInstruction

variable (m : Machine)

@[simp] theorem noteInstruction_environment : m.noteInstruction.environment = m.environment := rfl

@[simp] theorem noteInstruction_state : m.noteInstruction.state = m.state := rfl

@[simp] theorem noteInstruction_breakpoints :
    m.noteInstruction.debugger.breakpoints = m.debugger.breakpoints := by
  unfold noteInstruction
  dsimp only [Debugger.instructionExecuted]
  split <;> rfl

@[simp] theorem noteInstruction_mode : m.noteInstruction.debugger.mode = m.debugger.mode := by
  unfold noteInstruction
  dsimp only [Debugger.instructionExecuted]
  split <;> rfl

@[simp] theorem noteInstruction_moved : m.noteInstruction.debugger.moved = true := rfl

@[simp] theorem noteInstruction_pausedAt :
    m.noteInstruction.debugger.pausedAt = m.debugger.pausedAt := by
  unfold noteInstruction
  dsimp only [Debugger.instructionExecuted]
  split <;> rfl

@[simp] theorem noteInstruction_pauseOnException :
    m.noteInstruction.debugger.pauseOnException = m.debugger.pauseOnException := by
  unfold noteInstruction
  dsimp only [Debugger.instructionExecuted]
  split <;> rfl

end NoteInstruction

/-! ## Turns -/

/-- The next turn executes instruction `i`. -/
structure Dispatches (m : Machine) (i : Instruction) : Prop where
  running : m.state.Running m.environment.code
  unchecked : m.debugger.check m.state.pc m.state.calls.depth = none
  fetched : m.state.fetch m.environment.code m.config.instructionBudget = .ok i

/-- The next turn executes instruction `i`, with the given event and state. -/
structure Executes (m : Machine) (i : Instruction) (event : Event) (s : State) : Prop
    extends Dispatches m i where
  stepped : m.state.step m.environment i = (event, s)

/-- How a turn ends. -/
inductive Turned (m : Machine) : Option Outcome → Machine → Prop
  | ended :
      (m.state.halted || decide (m.environment.code.size ≤ m.state.pc)) = true →
      Turned m (some (.halted m.state.output)) { m with state := { m.state with halted := true } }
  | paused {reason : Reason} :
      m.state.Running m.environment.code →
      m.debugger.check m.state.pc m.state.calls.depth = some reason →
      Turned m (some (.paused (m.snapshot reason)))
        { m with debugger := m.debugger.recordPause (m.snapshot reason) }
  | refused {opcode : Option Opcode} {fault : Fault} :
      m.state.Running m.environment.code →
      m.debugger.check m.state.pc m.state.calls.depth = none →
      m.state.fetch m.environment.code m.config.instructionBudget = .error (opcode, fault) →
      Turned m (some (.failed (m.state.fail opcode fault).1))
        { m with state := (m.state.fail opcode fault).2 }
  | continued {i : Instruction} {s : State} :
      m.Executes i .continued s → Turned m none { m.noteInstruction with state := s }
  | failed {i : Instruction} {failure : Failure} {s : State} :
      m.Executes i (.failed failure) s →
      Turned m (some (.failed failure)) { m.noteInstruction with state := s }
  | suspended {i : Instruction} {e : Escape} {s : State} {record : Record} :
      m.Executes i (.escaped e) s → m.debugger.pauseOnException = true →
      record = { m.noteInstruction with state := s }.escapeRecord e →
      Turned m (some (.paused record))
        { m.noteInstruction with
          state := { s with escape := some e }
          debugger := m.noteInstruction.debugger.recordPause record }
  | abandoned {i : Instruction} {e : Escape} {s : State} :
      m.Executes i (.escaped e) s → m.debugger.pauseOnException = false →
      Turned m (some (.failed (s.abandon e).1))
        { m.noteInstruction with state := (s.abandon e).2 }

/-- **A turn ends in one of these ways.** -/
theorem turned {m m' : Machine} {o : Option Outcome} (h : m.turn = (o, m')) : Turned m o m' := by
  unfold turn at h
  rcases m.state.running_or_ended m.environment.code with hrun | hend
  · rw [if_neg hrun.not_ended] at h
    cases hcheck : m.debugger.check m.state.pc m.state.calls.depth with
    | some reason =>
        rw [hcheck] at h
        cases h
        exact .paused hrun hcheck
    | none =>
        rw [hcheck] at h
        cases hfetch : m.state.fetch m.environment.code m.config.instructionBudget with
        | error cause =>
            rw [hfetch] at h
            cases h
            exact .refused hrun hcheck hfetch
        | ok i =>
            rw [hfetch] at h
            -- notes of the debugger leave the state alone, so the step is one from `m.state`
            change m.execute i = _ at h
            unfold execute at h
            cases hstep : m.state.step m.environment i with
            | mk event s =>
                have hexec : m.Executes i event s := ⟨⟨hrun, hcheck, hfetch⟩, hstep⟩
                simp only [noteInstruction_state, noteInstruction_environment, hstep] at h
                cases event with
                | continued => cases h; exact .continued hexec
                | failed failure => cases h; exact .failed hexec
                | escaped e =>
                    unfold escaped at h
                    dsimp only at h
                    split at h
                    · next hpause =>
                        cases h
                        exact .suspended hexec (by simpa using hpause) rfl
                    · next hpause =>
                        cases h
                        exact .abandoned hexec (by simpa using hpause)
  · rw [if_pos hend] at h
    cases h
    exact .ended hend

theorem Dispatches.turn {m : Machine} {i : Instruction} (h : m.Dispatches i) :
    m.turn = m.execute i := by
  unfold Machine.turn
  rw [if_neg h.running.not_ended, h.unchecked, h.fetched]

/-- A turn that ends the run executes nothing. -/
theorem not_dispatches_of_ended {m : Machine}
    (h : (m.state.halted || decide (m.environment.code.size ≤ m.state.pc)) = true)
    (i : Instruction) : ¬ m.Dispatches i := fun hi => hi.running.not_ended h

/-- Nor does a turn that pauses. -/
theorem not_dispatches_of_check {m : Machine} {reason : Reason}
    (h : m.debugger.check m.state.pc m.state.calls.depth = some reason) (i : Instruction) :
    ¬ m.Dispatches i := fun hi => by
  rw [hi.unchecked] at h
  cases h

/-- Nor does a turn that is refused an instruction. -/
theorem not_dispatches_of_fetch {m : Machine} {cause : Option Opcode × Fault}
    (h : m.state.fetch m.environment.code m.config.instructionBudget = .error cause)
    (i : Instruction) : ¬ m.Dispatches i := fun hi => by
  rw [hi.fetched] at h
  cases h

/-- An instruction after which the run goes on leaves no fault and no exception behind. -/
theorem Executes.clear {m : Machine} {i : Instruction} {s : State} (h : m.Executes i .continued s)
    (hm : m.state.Clear) : s.Clear := by
  obtain ⟨hescape, hfailure⟩ := State.step_continued h.stepped
  exact ⟨hescape.trans hm.escape, hfailure.trans hm.failure⟩

theorem Executes.turn_continued {m : Machine} {i : Instruction} {s : State}
    (h : m.Executes i .continued s) : m.turn = (none, { m.noteInstruction with state := s }) := by
  rw [h.turn]
  unfold Machine.execute
  simp only [noteInstruction_state, noteInstruction_environment, h.stepped]

theorem Executes.turn_failed {m : Machine} {i : Instruction} {failure : Failure} {s : State}
    (h : m.Executes i (.failed failure) s) :
    m.turn = (some (.failed failure), { m.noteInstruction with state := s }) := by
  rw [h.turn]
  unfold Machine.execute
  simp only [noteInstruction_state, noteInstruction_environment, h.stepped]

/-- Without a debugger, an exception that escapes ends the run. -/
theorem Executes.advance_escaped {m : Machine} {i : Instruction} {e : Escape} {s : State}
    (h : m.Executes i (.escaped e) s) :
    m.state.advance m.environment m.config.instructionBudget =
      (some (.failed (s.abandon e).1), (s.abandon e).2) := by
  rw [State.advance_of_ok h.running h.fetched, h.stepped]

/-- An exception that escapes pauses the run if the debugger is to pause on exceptions. -/
theorem Executes.turn_suspended {m : Machine} {i : Instruction} {e : Escape} {s : State}
    (h : m.Executes i (.escaped e) s) (hpause : m.debugger.pauseOnException = true) :
    m.turn =
      (some (.paused ({ m.noteInstruction with state := s }.escapeRecord e)),
        { m.noteInstruction with
          state := { s with escape := some e }
          debugger := m.noteInstruction.debugger.recordPause
            ({ m.noteInstruction with state := s }.escapeRecord e) }) := by
  rw [h.turn]
  unfold Machine.execute Machine.escaped
  simp only [noteInstruction_state, noteInstruction_environment, h.stepped,
    noteInstruction_pauseOnException, hpause, if_true]
  rfl

/-- Otherwise it ends the run. -/
theorem Executes.turn_abandoned {m : Machine} {i : Instruction} {e : Escape} {s : State}
    (h : m.Executes i (.escaped e) s) (hpause : m.debugger.pauseOnException = false) :
    m.turn =
      (some (.failed (s.abandon e).1), { m.noteInstruction with state := (s.abandon e).2 }) := by
  rw [h.turn]
  unfold Machine.execute Machine.escaped
  simp only [noteInstruction_state, noteInstruction_environment, h.stepped,
    noteInstruction_pauseOnException, hpause, Bool.false_eq_true, if_false]
  rfl

namespace Turned

variable {m m' : Machine} {o : Option Outcome}

/-- And in no other way. -/
theorem turn (h : Turned m o m') : m.turn = (o, m') := by
  cases h with
  | ended hend => exact if_pos hend
  | paused hrun hcheck =>
      unfold Machine.turn
      rw [if_neg hrun.not_ended, hcheck]
      rfl
  | refused hrun hcheck hfetch =>
      unfold Machine.turn
      rw [if_neg hrun.not_ended, hcheck, hfetch]
  | continued hexec => exact hexec.turn_continued
  | failed hexec => exact hexec.turn_failed
  | suspended hexec hpause hrecord =>
      subst hrecord
      exact hexec.turn_suspended hpause
  | abandoned hexec hpause => exact hexec.turn_abandoned hpause

theorem config (h : Turned m o m') : m'.config = m.config := by cases h <;> rfl

theorem environment (h : Turned m o m') : m'.environment = m.environment := by cases h <;> rfl

/-- **Unless it pauses, a turn is a turn without a debugger.** -/
theorem advance (h : Turned m o m') (ho : ∀ record, o ≠ some (.paused record)) :
    m.state.advance m.environment m.config.instructionBudget = (o, m'.state) := by
  cases h with
  | ended hend => exact State.advance_of_ended hend
  | paused => exact absurd rfl (ho _)
  | refused hrun _ hfetch => exact State.advance_of_error hrun hfetch
  | continued hexec => rw [State.advance_of_ok hexec.running hexec.fetched, hexec.stepped]
  | failed hexec => rw [State.advance_of_ok hexec.running hexec.fetched, hexec.stepped]
  | suspended => exact absurd rfl (ho _)
  | abandoned hexec => exact hexec.advance_escaped

/-- A turn never takes back the count of instructions, and it counts the instruction that it
executes. -/
theorem executed_le (h : Turned m o m') : m.state.executed ≤ m'.state.executed := by
  have hexecuted : ∀ {i event s}, m.Executes i event s → m.state.executed ≤ s.executed := by
    intro i event s hexec
    rw [State.step_executed hexec.stepped]
    exact Nat.le_succ _
  cases h with
  | ended => exact Nat.le_refl _
  | paused => exact Nat.le_refl _
  | refused => exact Nat.le_refl _
  | continued hexec => exact hexecuted hexec
  | failed hexec => exact hexecuted hexec
  | @suspended _ _ s _ hexec => exact (hexecuted hexec : _ ≤ s.executed)
  | @abandoned _ _ s hexec => exact (hexecuted hexec : _ ≤ s.executed)

end Turned

/-! ## Calls -/

theorem proceed_succ {m : Machine} (turns : Nat) :
    m.proceed (turns + 1) =
      match m.turn with
      | (some outcome, m') => (some outcome, m')
      | (none, m') => m'.proceed turns := rfl

/-- A machine that has halted answers at once and stays as it is. -/
theorem proceed_of_halted {m : Machine} (h : m.state.halted = true) (turns : Nat) :
    m.proceed (turns + 1) = (some (.halted m.state.output), m) := by
  -- halting once more changes nothing
  have hstate : { m.state with halted := true } = m.state := by rw [← h]
  have hturn : m.turn = (some (.halted m.state.output), m) := by
    unfold turn
    rw [if_pos (by rw [h]; rfl), hstate]
  rw [proceed_succ, hturn]

/-- A call that has answered does not use further turns. -/
theorem proceed_add {m m' : Machine} {outcome : Outcome} {turns : Nat}
    (h : m.proceed turns = (some outcome, m')) (more : Nat) :
    m.proceed (turns + more) = (some outcome, m') := by
  induction turns generalizing m with
  | zero => cases h
  | succ turns ih =>
      rw [Nat.succ_add, proceed_succ]
      rw [proceed_succ] at h
      cases hcase : m.turn with
      | mk o m₁ =>
          rw [hcase] at h
          cases o with
          | some outcome₁ => exact h
          | none => exact ih h

/-- Turns that have not answered can be taken up again. -/
theorem proceed_append {m m' : Machine} {turns : Nat} (h : m.proceed turns = (none, m'))
    (more : Nat) : m.proceed (turns + more) = m'.proceed more := by
  induction turns generalizing m with
  | zero =>
      cases h
      rw [Nat.zero_add]
  | succ turns ih =>
      rw [Nat.succ_add, proceed_succ]
      rw [proceed_succ] at h
      cases hturn : m.turn with
      | mk o m₁ =>
          rw [hturn] at h
          cases o with
          | some outcome => cases h
          | none => exact ih h

/-- An outcome comes from the last turn. -/
theorem proceed_eq_some {m m' : Machine} {outcome : Outcome} {turns : Nat}
    (h : m.proceed turns = (some outcome, m')) :
    ∃ before p, m.proceed before = (none, p) ∧ p.turn = (some outcome, m') := by
  induction turns generalizing m with
  | zero => cases h
  | succ turns ih =>
      rw [proceed_succ] at h
      cases hturn : m.turn with
      | mk o m₁ =>
          rw [hturn] at h
          cases o with
          | some outcome₁ =>
              cases h
              exact ⟨0, m, rfl, hturn⟩
          | none =>
              obtain ⟨before, p, hbefore, hlast⟩ := ih h
              refine ⟨before + 1, p, ?_, hlast⟩
              rw [proceed_succ, hturn]
              exact hbefore

/-- What every turn of a call keeps, the call keeps. The condition may depend on the outcome: it
has to hold without one before a turn, and with the outcome of the turn after it. -/
theorem proceed_induct {Q : Option Outcome → Machine → Prop}
    (hturn : ∀ {m m' : Machine} {o : Option Outcome}, Q none m → Turned m o m' → Q o m') :
    ∀ (turns : Nat) {m m' : Machine} {o : Option Outcome}, Q none m → m.proceed turns = (o, m') →
      Q o m' := by
  intro turns
  induction turns with
  | zero =>
      intro m m' o hm h
      cases h
      exact hm
  | succ turns ih =>
      intro m m' o hm h
      rw [proceed_succ] at h
      cases hcase : m.turn with
      | mk outcome m₁ =>
          rw [hcase] at h
          have hm₁ : Q outcome m₁ := hturn hm (turned hcase)
          cases outcome with
          | some outcome => cases h; exact hm₁
          | none => exact ih hm₁ h

/-- A call keeps program and limits while it proceeds. -/
theorem proceed_setup (turns : Nat) {m m' : Machine} {o : Option Outcome}
    (h : m.proceed turns = (o, m')) : m'.config = m.config ∧ m'.environment = m.environment :=
  proceed_induct (Q := fun _ m₁ => m₁.config = m.config ∧ m₁.environment = m.environment)
    (fun hm hturn => ⟨hturn.config.trans hm.1, hturn.environment.trans hm.2⟩) turns ⟨rfl, rfl⟩ h

section Prepare

variable (m : Machine) {call : DrivingCall}

@[simp] theorem prepare_config : (m.prepare call).config = m.config := by cases call <;> rfl

@[simp] theorem prepare_environment : (m.prepare call).environment = m.environment := by
  cases call <;> rfl

variable {m}

theorem prepare_state (h : call ≠ .start) : (m.prepare call).state = m.state := by
  cases call with
  | start => exact absurd rfl h
  | _ => rfl

theorem prepare_moved : (m.prepare call).debugger.moved = false := by
  cases call <;> rfl

theorem prepare_pausedAt (h : call ≠ .start) :
    (m.prepare call).debugger.pausedAt = m.debugger.pausedAt := by
  cases call with
  | start => exact absurd rfl h
  | _ => rfl

/-- A machine that is paused on an exception abandons the run when it is called. -/
theorem drive_of_escape {turns : Nat} {e : Escape}
    (he : (m.prepare call).state.escape = some e) :
    m.drive turns call =
      (some (.failed ((m.prepare call).state.abandon e).1),
        { m.prepare call with state := ((m.prepare call).state.abandon e).2 }) := by
  unfold drive begin
  simp only [he]
  rfl

/-- A machine whose run has failed reports the failure again. -/
theorem drive_of_failure {turns : Nat} {failure : Failure}
    (he : (m.prepare call).state.escape = none)
    (hf : (m.prepare call).state.failure = some failure) :
    m.drive turns call = (some (.failed failure), m.prepare call) := by
  unfold drive begin
  simp only [he, hf]

theorem drive_of_clear {turns : Nat} (h : (m.prepare call).state.Clear) :
    m.drive turns call = (m.prepare call).proceed turns := by
  unfold drive begin
  simp only [h.escape, h.failure]

/-- How a call is carried out: it ends at once, or it proceeds. -/
inductive Driven (m : Machine) (turns : Nat) (call : DrivingCall) :
    Option Outcome → Machine → Prop
  | abandoned {e : Escape} :
      (m.prepare call).state.escape = some e →
      Driven m turns call (some (.failed ((m.prepare call).state.abandon e).1))
        { m.prepare call with state := ((m.prepare call).state.abandon e).2 }
  | failed {failure : Failure} :
      (m.prepare call).state.failure = some failure → (m.prepare call).state.escape = none →
      Driven m turns call (some (.failed failure)) (m.prepare call)
  | proceeded {o : Option Outcome} {m' : Machine} :
      (m.prepare call).state.Clear → (m.prepare call).proceed turns = (o, m') →
      Driven m turns call o m'

/-- **A call is carried out in one of these ways.** -/
theorem driven {m' : Machine} {turns : Nat} {o : Option Outcome}
    (h : m.drive turns call = (o, m')) : Driven m turns call o m' := by
  cases he : (m.prepare call).state.escape with
  | some e =>
      rw [drive_of_escape he] at h
      cases h
      exact .abandoned he
  | none =>
      cases hf : (m.prepare call).state.failure with
      | some failure =>
          rw [drive_of_failure he hf] at h
          cases h
          exact .failed hf he
      | none =>
          rw [drive_of_clear ⟨he, hf⟩] at h
          exact .proceeded ⟨he, hf⟩ h

/-- A call keeps program and limits, also when it is cut off. -/
theorem drive_setup {m' : Machine} {turns : Nat} {o : Option Outcome}
    (h : m.drive turns call = (o, m')) :
    m'.config = m.config ∧ m'.environment = m.environment := by
  have hprepare : (m.prepare call).config = m.config ∧
      (m.prepare call).environment = m.environment :=
    ⟨prepare_config m, prepare_environment m⟩
  cases driven h with
  | abandoned => exact hprepare
  | failed => exact hprepare
  | proceeded _ hproceed =>
      obtain ⟨hconfig, henv⟩ := proceed_setup turns hproceed
      exact ⟨hconfig.trans hprepare.1, henv.trans hprepare.2⟩

theorem drive_add {m' : Machine} {outcome : Outcome} {turns : Nat}
    (h : m.drive turns call = (some outcome, m')) (more : Nat) :
    m.drive (turns + more) call = (some outcome, m') := by
  unfold drive at h ⊢
  split at h
  · exact h
  · exact proceed_add h more

end Prepare

end Machine

end StackMachine
