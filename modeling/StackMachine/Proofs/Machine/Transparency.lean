import StackMachine.Proofs.Machine.Host

set_option autoImplicit false

/-! # Pauses do not change a run

Breakpoints, step modes and pauses on exceptions interrupt a run, but what it does in the end is
what it does without a debugger. `Machine.Progress` relates a machine in a session to the run
without a debugger from the same start: the machine stands on that run, or holds an exception
that ends it, or stands at its end. A turn keeps this relation (`Machine.Progress.turned`), hence
a call does (`Machine.Progress.resume`), hence a session does (`Machine.Session.progress`).
-/

namespace StackMachine

/-- No breakpoints, no step mode and no pause on exceptions. -/
structure Debugger.Quiet (d : Debugger) : Prop where
  breakpoints : d.breakpoints = {}
  mode : d.mode = .run
  pauseOnException : d.pauseOnException = false

theorem Debugger.Quiet.check {d : Debugger} (h : d.Quiet) (pc callDepth : Nat) :
    d.check pc callDepth = none := by
  have hinactive : d.breakpoints.isActive pc = false := by rw [h.breakpoints]; rfl
  simp [Debugger.check, hinactive, h.mode, StepMode.isDone]

namespace Machine

/-- How a machine stands to the run without a debugger from `s₀`: in the middle of a call, or
once the call has answered. -/
inductive Progress (s₀ : State) (m : Machine) : Option Outcome → Prop
  | running {n : Nat} :
      s₀.run m.environment m.config.instructionBudget n = (none, m.state) → m.state.Clear →
      Progress s₀ m none
  | paused {record : Record} {n : Nat} :
      s₀.run m.environment m.config.instructionBudget n = (none, m.state) → m.state.Clear →
      m.debugger.pausedAt = some m.state.pc → Progress s₀ m (some (.paused record))
  | pending {record : Record} {n : Nat} {e : Escape} :
      s₀.run m.environment m.config.instructionBudget n =
        (some (.failed (m.state.abandon e).1), (m.state.abandon e).2) →
      m.state.escape = some e → record.reason.isBoundary = false →
      Progress s₀ m (some (.paused record))
  | halted {n : Nat} :
      s₀.run m.environment m.config.instructionBudget n =
        (some (.halted m.state.output), m.state) →
      m.state.Clear → m.state.halted = true → Progress s₀ m (some (.halted m.state.output))
  | failed {failure : Failure} {n : Nat} :
      s₀.run m.environment m.config.instructionBudget n = (some (.failed failure), m.state) →
      m.state.escape = none → m.state.failure = some failure →
      Progress s₀ m (some (.failed failure))

/-- At its end the machine stands at the end of the run without a debugger. -/
theorem Progress.final {s₀ : State} {m : Machine} {outcome : Outcome}
    (h : Progress s₀ m (some outcome)) (hfinal : outcome.isFinal = true) :
    ∃ n, s₀.run m.environment m.config.instructionBudget n = (some outcome, m.state) := by
  cases h with
  | paused => cases hfinal
  | pending => cases hfinal
  | halted hrun => exact ⟨_, hrun⟩
  | failed hrun => exact ⟨_, hrun⟩

/-! ## Turns and calls -/

/-- **A turn keeps the relation.** -/
theorem Progress.turned {s₀ : State} {m m' : Machine} {o : Option Outcome}
    (hm : Progress s₀ m none) (h : Turned m o m') : Progress s₀ m' o := by
  obtain @⟨n, hrun, hclear⟩ := hm
  -- a turn without a debugger from here is the next turn of the run from `s₀`
  have honward : ∀ {o : Option Outcome} {s : State},
      m.state.advance m.environment m.config.instructionBudget = (o, s) →
      s₀.run m.environment m.config.instructionBudget (n + 1) = (o, s) := by
    intro o s ha
    rw [State.run_add hrun]
    cases o with
    | none => exact State.run_succ_of_none ha
    | some outcome => exact State.run_succ_of_some ha
  cases h with
  | ended hend =>
      have hlast := honward (State.advance_of_ended hend)
      exact .halted hlast ⟨hclear.escape, hclear.failure⟩ rfl
  | paused => exact .paused hrun hclear rfl
  | refused hgo hcheck hfetch =>
      have hlast := honward (State.advance_of_error hgo hfetch)
      exact .failed hlast hclear.escape rfl
  | continued hexec =>
      refine .running (honward ?_) (hexec.clear hclear)
      rw [State.advance_of_ok hexec.running hexec.fetched, hexec.stepped]
  | @failed i failure s hexec =>
      have hlast : s₀.run m.environment m.config.instructionBudget (n + 1) =
          (some (.failed failure), s) := honward (by
        rw [State.advance_of_ok hexec.running hexec.fetched, hexec.stepped])
      obtain ⟨hescape, hfailure, -⟩ := State.step_failed hexec.stepped
      exact .failed hlast (hescape.trans hclear.escape) hfailure
  | @suspended i e s record hexec _ hrecord =>
      -- the run from `s₀` ends here with what abandoning the exception will give
      have hlast : s₀.run m.environment m.config.instructionBudget (n + 1) =
          (some (.failed (s.abandon e).1), (s.abandon e).2) := honward (by
        rw [State.advance_of_ok hexec.running hexec.fetched, hexec.stepped])
      exact .pending hlast rfl (by rw [hrecord]; rfl)
  | @abandoned i e s hexec =>
      have hlast : s₀.run m.environment m.config.instructionBudget (n + 1) =
          (some (.failed (s.abandon e).1), (s.abandon e).2) := honward (by
        rw [State.advance_of_ok hexec.running hexec.fetched, hexec.stepped])
      exact .failed hlast rfl rfl

/-- **A call that resumes keeps the relation.** -/
theorem Progress.resume {s₀ : State} {m m' : Machine} {last outcome : Outcome}
    {call : DrivingCall} (h : Progress s₀ m (some last)) (hcall : call ≠ .start)
    (hreturns : m.Returns call outcome m') : Progress s₀ m' (some outcome) := by
  obtain ⟨turns, hdrive⟩ := hreturns
  have hstate : (m.prepare call).state = m.state := prepare_state hcall
  have hconfig : (m.prepare call).config = m.config := prepare_config m
  have henv : (m.prepare call).environment = m.environment := prepare_environment m
  cases h with
  -- from a pause at a boundary the call takes turns again
  | @paused record n hrun hclear =>
      rw [drive_of_clear (hstate ▸ hclear)] at hdrive
      have hrun' : s₀.run (m.prepare call).environment (m.prepare call).config.instructionBudget n =
          (none, (m.prepare call).state) := by rw [hconfig, henv, hstate, hrun]
      exact proceed_induct (Q := fun o m => Progress s₀ m o) Progress.turned turns
        (.running hrun' (hstate ▸ hclear)) hdrive
  -- from a pause on an exception it abandons the run at once
  | @pending record n e hrun he =>
      rw [drive_of_escape (hstate ▸ he), hstate] at hdrive
      cases hdrive
      have hrun' : s₀.run (m.prepare call).environment (m.prepare call).config.instructionBudget n =
          (some (.failed (m.state.abandon e).1), (m.state.abandon e).2) := by
        rw [hconfig, henv, hrun]
      exact .failed hrun' rfl rfl
  -- and after the end it reports the same outcome again
  | @halted n hrun hclear hhalted =>
      rw [drive_of_clear (hstate ▸ hclear)] at hdrive
      have hhalted' : (m.prepare call).state.halted = true := hstate ▸ hhalted
      cases turns with
      | zero => cases hdrive
      | succ turns =>
          rw [proceed_of_halted hhalted'] at hdrive
          cases hdrive
          have hrun' : s₀.run (m.prepare call).environment
              (m.prepare call).config.instructionBudget n =
                (some (.halted (m.prepare call).state.output), (m.prepare call).state) := by
            rw [hconfig, henv, hstate, hrun]
          exact .halted hrun' (hstate ▸ hclear) hhalted'
  | @failed failure n hrun he hf =>
      rw [drive_of_failure (hstate ▸ he) (hstate ▸ hf)] at hdrive
      cases hdrive
      have hrun' : s₀.run (m.prepare call).environment (m.prepare call).config.instructionBudget n =
          (some (.failed failure), (m.prepare call).state) := by rw [hconfig, henv, hstate, hrun]
      exact .failed hrun' (hstate ▸ he) (hstate ▸ hf)

/-- **A call that starts a run begins the relation.** -/
theorem Progress.start {m m' : Machine} {outcome : Outcome} (h : m.Returns .start outcome m') :
    Progress m.state.clear m' (some outcome) := by
  obtain ⟨turns, hdrive⟩ := h
  rw [drive_of_clear ⟨rfl, rfl⟩] at hdrive
  have hrun : m.state.clear.run (m.prepare .start).environment
      (m.prepare .start).config.instructionBudget 0 = (none, (m.prepare .start).state) := rfl
  exact proceed_induct (Q := fun o m => Progress _ m o) Progress.turned turns
    (.running hrun ⟨rfl, rfl⟩) hdrive

theorem Progress.edit {s₀ : State} {m : Machine} {o : Option Outcome} (h : Progress s₀ m o)
    (e : Debugger.Edit) : Progress s₀ (m.edit e) o := by
  cases h with
  | running hrun hclear => exact .running hrun hclear
  | paused hrun hclear hat => exact .paused hrun hclear ((Debugger.edit_pausedAt _ e).trans hat)
  | pending hrun he hreason => exact .pending hrun he hreason
  | halted hrun hclear hhalted => exact .halted hrun hclear hhalted
  | failed hrun he hf => exact .failed hrun he hf

/-! ## Sessions -/

theorem Session.setup {m₀ m : Machine} {last : Option Outcome} (h : Session m₀ last m) :
    m.config = m₀.config ∧ m.environment = m₀.environment := by
  induction h with
  | init => exact ⟨rfl, rfl⟩
  | edit e _ ih => exact ih
  | start _ hreturns ih =>
      obtain ⟨turns, hdrive⟩ := hreturns
      exact ⟨(drive_setup hdrive).1.trans ih.1, (drive_setup hdrive).2.trans ih.2⟩
  | resume _ _ hreturns ih =>
      obtain ⟨turns, hdrive⟩ := hreturns
      exact ⟨(drive_setup hdrive).1.trans ih.1, (drive_setup hdrive).2.trans ih.2⟩

/-- Before its first call a session has only edited the debugger. -/
theorem Session.state_eq {m₀ m : Machine} {last : Option Outcome} (h : Session m₀ last m)
    (hlast : last = none) : m.state = m₀.state := by
  induction h with
  | init => rfl
  | edit e _ ih => exact ih hlast
  | start => cases hlast
  | resume => cases hlast

/-- **Between its calls a session stands on the run without a debugger.** -/
theorem Session.progress {m₀ m : Machine} {last : Option Outcome} (h : Session m₀ last m)
    (hlast : last ≠ none) : Progress m₀.state.clear m last := by
  induction h with
  | init => exact absurd rfl hlast
  | edit e _ ih => exact (ih hlast).edit e
  | start hsession hreturns =>
      rw [← hsession.state_eq rfl]
      exact Progress.start hreturns
  | resume _ hcall hreturns ih => exact (ih (by simp)).resume hcall hreturns

/-! ## Runs that nobody interrupts -/

/-- A quiet debugger stays quiet and does not pause. -/
theorem Turned.quiet {m m' : Machine} {o : Option Outcome} (h : Turned m o m')
    (hq : m.debugger.Quiet) : m'.debugger.Quiet ∧ ∀ record, o ≠ some (.paused record) := by
  have hnote : m.noteInstruction.debugger.Quiet :=
    ⟨(noteInstruction_breakpoints m).trans hq.breakpoints, (noteInstruction_mode m).trans hq.mode,
      (noteInstruction_pauseOnException m).trans hq.pauseOnException⟩
  cases h with
  | ended => exact ⟨hq, by simp⟩
  | paused _ hcheck => rw [hq.check] at hcheck; cases hcheck
  | refused => exact ⟨hq, by simp⟩
  | continued => exact ⟨hnote, by simp⟩
  | failed => exact ⟨hnote, by simp⟩
  | suspended _ hpause => rw [hq.pauseOnException] at hpause; cases hpause
  | abandoned => exact ⟨hnote, by simp⟩

/-- The debugger stays quiet while a call proceeds. -/
theorem proceed_quiet {turns : Nat} {m m' : Machine} {o : Option Outcome}
    (hq : m.debugger.Quiet) (h : m.proceed turns = (o, m')) : m'.debugger.Quiet :=
  proceed_induct (Q := fun _ m₁ => m₁.debugger.Quiet) (fun hm hturn => (hturn.quiet hm).1) turns
    hq h

/-- With a quiet debugger a call carries out the run without a debugger. -/
theorem proceed_of_quiet (turns : Nat) {m : Machine} {o : Option Outcome} {s : State}
    (hq : m.debugger.Quiet)
    (hrun : m.state.run m.environment m.config.instructionBudget turns = (o, s)) :
    ∃ m', m.proceed turns = (o, m') ∧ m'.state = s := by
  induction turns generalizing m with
  | zero =>
      cases hrun
      exact ⟨m, rfl, rfl⟩
  | succ turns ih =>
      cases hcase : m.turn with
      | mk o₁ m₁ =>
          have hturn := turned hcase
          obtain ⟨hq₁, hnever⟩ := hturn.quiet hq
          have hadvance := hturn.advance hnever
          rw [proceed_succ, hcase]
          cases o₁ with
          | some outcome =>
              rw [State.run_succ_of_some hadvance] at hrun
              cases hrun
              exact ⟨m₁, rfl, rfl⟩
          | none =>
              rw [State.run_succ_of_none hadvance] at hrun
              refine ih hq₁ ?_
              rw [hturn.config, hturn.environment]
              exact hrun

/-- Started with a quiet debugger, a machine answers as the run without a debugger ends. -/
theorem Returns.of_quiet {m : Machine} {outcome : Outcome} {s : State} {turns : Nat}
    (hq : (m.prepare .start).debugger.Quiet)
    (hrun : m.state.clear.run m.environment m.config.instructionBudget turns =
      (some outcome, s)) : ∃ m', m.Returns .start outcome m' ∧ m'.state = s := by
  obtain ⟨m', hproceed, hstate⟩ := proceed_of_quiet turns hq hrun
  refine ⟨m', ⟨turns, ?_⟩, hstate⟩
  rw [drive_of_clear ⟨rfl, rfl⟩]
  exact hproceed

/-- A call that starts a run with a quiet debugger answers as the run without a debugger ends. -/
theorem Returns.run_of_quiet {m m' : Machine} {outcome : Outcome}
    (hq : (m.prepare .start).debugger.Quiet) (h : m.Returns .start outcome m') :
    ∃ turns, m.state.clear.run m.environment m.config.instructionBudget turns =
      (some outcome, m'.state) := by
  obtain ⟨turns, hdrive⟩ := h
  cases hrun : m.state.clear.run m.environment m.config.instructionBudget turns with
  | mk o s =>
      obtain ⟨m₁, hproceed, rfl⟩ := proceed_of_quiet turns hq hrun
      rw [drive_of_clear ⟨rfl, rfl⟩, hproceed] at hdrive
      cases hdrive
      exact ⟨turns, hrun⟩

/-! ## Progress of a call -/

/-- A turn that the debugger lets pass and that does not end the run executes an instruction. -/
theorem Turned.executed_lt {m m' : Machine} {o : Option Outcome} (h : Turned m o m')
    (hcheck : m.debugger.check m.state.pc m.state.calls.depth = none)
    (ho : ∀ outcome, o = some outcome → outcome.isFinal = false) :
    m.state.executed < m'.state.executed := by
  have hexecuted : ∀ {i event s}, m.Executes i event s → m.state.executed < s.executed := by
    intro i event s hexec
    rw [State.step_executed hexec.stepped]
    exact Nat.lt_succ_self _
  cases h with
  | ended => cases ho _ rfl
  | paused _ hpause => rw [hcheck] at hpause; cases hpause
  | refused => cases ho _ rfl
  | continued hexec => exact hexecuted hexec
  | failed => cases ho _ rfl
  | @suspended _ _ s _ hexec => exact (hexecuted hexec : _ < s.executed)
  | abandoned => cases ho _ rfl

/-- The count of instructions only grows while a call proceeds. -/
theorem proceed_executed_le (turns : Nat) {m m' : Machine} {o : Option Outcome}
    (h : m.proceed turns = (o, m')) : m.state.executed ≤ m'.state.executed :=
  proceed_induct (Q := fun _ m₁ => m.state.executed ≤ m₁.state.executed)
    (fun hm hturn => Nat.le_trans hm hturn.executed_le) turns (Nat.le_refl _) h

/-- **A call that resumes a pause executes an instruction before it pauses again.** -/
theorem Returns.executed_lt {m m' : Machine} {call : DrivingCall} {record : Record}
    (h : m.Returns call (.paused record) m') (hcall : call ≠ .start) (hclear : m.state.Clear)
    (hat : m.debugger.pausedAt = some m.state.pc) : m.state.executed < m'.state.executed := by
  obtain ⟨turns, hdrive⟩ := h
  have hstate : (m.prepare call).state = m.state := prepare_state hcall
  rw [drive_of_clear (hstate ▸ hclear)] at hdrive
  -- the breakpoint at the pause is passed over, and a step mode waits for an instruction
  have hcheck : (m.prepare call).debugger.check (m.prepare call).state.pc
      (m.prepare call).state.calls.depth = none := by
    rw [hstate]
    simp [Debugger.check, prepare_moved, prepare_pausedAt hcall, hat]
  cases turns with
  | zero => cases hdrive
  | succ turns =>
      rw [proceed_succ] at hdrive
      cases hcase : (m.prepare call).turn with
      | mk o m₁ =>
          rw [hcase] at hdrive
          have hfirst : ∀ outcome, o = some outcome → outcome.isFinal = false := by
            rintro outcome rfl
            cases hdrive
            rfl
          have hlt : m.state.executed < m₁.state.executed := by
            rw [← hstate]
            exact (turned hcase).executed_lt hcheck hfirst
          cases o with
          | some outcome => cases hdrive; exact hlt
          | none => exact Nat.lt_of_lt_of_le hlt (proceed_executed_le turns hdrive)

/-! ## Transparency -/

/-- **Debugging is transparent.** When a session on a new machine comes to an end, outcome and
state are those of one uninterrupted run of the same program on the same input, with or without
a trace. And a call that resumes from a breakpoint or a step executes an instruction before the
machine pauses again. -/
theorem Session.transparent {config : Config} {m₀ r₀ : Machine} (traced : Bool) (length : Nat)
    (hm : create config = .ok m₀)
    (hr : create { config with traceInstructions := traced, maxTraceLength := length } = .ok r₀)
    (builtins : List (Word × Builtin)) (code : Program) (inputs : List Word) {last : Outcome}
    {m : Machine} (h : Session (m₀.equip builtins code inputs) (some last) m) :
    (last.isFinal = true →
      ∃ r, r.state = m.state ∧ ∀ outcome r',
        (r₀.equip builtins code inputs).Returns .start outcome r' ↔ outcome = last ∧ r' = r) ∧
    (∀ record, last = .paused record → record.reason.isBoundary = true →
      ∀ call record' m', call ≠ .start → m.Returns call (.paused record') m' →
        m.state.executed < m'.state.executed) := by
  have hm₀ := create_eq_ok hm
  have hr₀ := create_eq_ok hr
  subst hm₀ hr₀
  -- both machines start from the same state, since the trace is not a part of it
  rw [equip_ofConfig] at h
  have hprogress := h.progress (by simp)
  refine ⟨fun hfinal => ?_, ?_⟩
  · obtain ⟨n, hrun⟩ := hprogress.final hfinal
    rw [h.setup.1, h.setup.2] at hrun
    obtain ⟨r, hreturns, hstate⟩ :
        ∃ r, ((ofConfig { config with traceInstructions := traced, maxTraceLength := length }).equip
          builtins code inputs).Returns .start last r ∧ r.state = m.state := by
      rw [equip_ofConfig]
      exact Returns.of_quiet ⟨rfl, rfl, rfl⟩ hrun
    refine ⟨r, hstate, fun outcome r' => ⟨fun h' => h'.unique hreturns, ?_⟩⟩
    rintro ⟨rfl, rfl⟩
    exact hreturns
  · rintro record rfl hreason call record' m' hcall hreturns
    cases hprogress with
    | paused _ hclear hat => exact hreturns.executed_lt hcall hclear hat
    | pending _ _ hnot => rw [hreason] at hnot; cases hnot

/-- The run of `PUSH 7; PRINT; HALT` with a breakpoint at its start and a step. -/
theorem Session.transparent_breakpoint_step :
    ∃ m r : Machine, m.state.executed = 3 ∧ r.state = m.state ∧
      ((ofConfig Config.tiny).equip [] #[1, 7, 5, 0] []).Returns .start (.halted #[7]) r := by
  have h₁ : Session ((ofConfig Config.tiny).equip [] #[1, 7, 5, 0] [])
      (some (.paused ⟨0, some .push, #[], 0, .breakpoint 0⟩)) _ :=
    (Session.init.edit (.setBreakpoint 0)).start (returns_drive 3 (by decide +kernel))
  have h₂ : Session _ (some (.paused ⟨2, some .print, #[7], 0, .step⟩)) _ :=
    h₁.resume (by decide : DrivingCall.stepInto ≠ .start) (returns_drive 3 (by decide +kernel))
  have h₃ : Session _ (some (.halted #[7])) _ :=
    h₂.resume (by decide : DrivingCall.proceed ≠ .start) (returns_drive 3 (by decide +kernel))
  obtain ⟨r, hstate, hr⟩ := (transparent false 10000 create_tiny create_tiny _ _ _ h₃).1 rfl
  exact ⟨_, r, by decide +kernel, hstate, (hr _ _).mpr ⟨rfl, rfl⟩⟩

end Machine

end StackMachine
