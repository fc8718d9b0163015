import StackMachine.Proofs.Machine.Budget
import StackMachine.Proofs.Machine.Log
import StackMachine.Proofs.Machine.Supply

set_option autoImplicit false

/-! # The run that nobody interrupts

A session may pause wherever its host likes, and yet it executes the instructions of the run that
nobody interrupts. A machine without breakpoints keeps abreast of the session
(`Machine.Abreast.turned`): it takes a turn for each instruction that the session executes, records
the same, and gets the same words. If no `READ` in the session finds that no word waits, it may get
all words in front (`Machine.RunsOn.inFront`).
-/

namespace StackMachine.Machine

variable {m m' : Machine}

/-! ## Runs in one go -/

/-- The machine without breakpoints, watches, step mode and pause on exceptions. -/
def uninterrupted (m : Machine) : Machine :=
  { m with debugger := Debugger.new m.config.maxTraceLength }

/-- When it starts a run, such a machine is quiet. -/
theorem uninterrupted_quiet (m : Machine) : (m.uninterrupted.prepare .start).debugger.Quiet :=
  ⟨rfl, rfl, rfl⟩

/-- When a quiet machine answers, its run has come to an end. -/
theorem Turned.halted_of_quiet {outcome : Outcome} (h : Turned m (some outcome) m')
    (hq : m.debugger.Quiet) : m'.state.halted = true := by
  have hnever := (h.quiet hq).2
  cases h with
  | ended => rfl
  | paused => exact absurd rfl (hnever _)
  | refused => rfl
  | failed hexec => exact (State.step_failed hexec.stepped).2.2
  | suspended => exact absurd rfl (hnever _)
  | abandoned => rfl

/-- `RunsOn P q arrivals log p`: the run of `q` goes on to `p` in one go, while a host supplies the
words of `arrivals`, and adds `log` to the log. Only machines that `P` holds of take a turn. -/
inductive RunsOn (P : Machine → Prop) (q : Machine) :
    List Arrival → List Record → Machine → Prop
  | nil : RunsOn P q [] [] q
  | turn {arrivals : List Arrival} {log : List Record} {p p' : Machine} {i : Instruction}
      {o : Option Outcome} : RunsOn P q arrivals log p → P p → p.Dispatches i → Turned p o p' →
      RunsOn P q arrivals (log ++ p.entries) p'
  | supply {arrivals : List Arrival} {log : List Record} {p : Machine} (words : List Word) :
      RunsOn P q arrivals log p →
      RunsOn P q (arrivals ++ [⟨p.state.executed, words⟩]) log (p.provideInput words)

namespace RunsOn

variable {P : Machine → Prop} {q p : Machine} {arrivals : List Arrival} {log : List Record}

theorem imp {P' : Machine → Prop} (h : RunsOn P q arrivals log p) (hP : ∀ p, P p → P' p) :
    RunsOn P' q arrivals log p := by
  induction h with
  | nil => exact .nil
  | turn _ hp hdispatches hturn ih => exact .turn ih (hP _ hp) hdispatches hturn
  | supply words _ ih => exact .supply words ih

theorem quiet (h : RunsOn P q arrivals log p) (hq : q.debugger.Quiet) : p.debugger.Quiet := by
  induction h with
  | nil => exact hq
  | turn _ _ _ hturn ih => exact (hturn.quiet ih).1
  | supply _ _ ih => exact ih

/-- A run without arrivals is a call of as many turns as there are instructions. -/
theorem eq_entriesOfTurns (h : RunsOn P q [] log p) (hq : q.debugger.Quiet)
    (hstart : q.state.executed = 0) :
    log = entriesOfTurns p.state.executed q ∧
      ∀ i, p.Dispatches i → q.proceed p.state.executed = (none, p) := by
  generalize hnone : ([] : List Arrival) = arrivals at h
  induction h with
  | nil =>
      rw [hstart]
      exact ⟨rfl, fun _ _ => rfl⟩
  | @turn _ log p p' i o hp _ hdispatches hturn ih =>
      obtain ⟨hlog, hcall⟩ := ih hnone
      have hproceed := hcall i hdispatches
      have hnext : p'.state.executed = p.state.executed + 1 := by
        rw [hturn.executed_eq, next?_eq_some.mpr hdispatches]
        rfl
      rw [hnext]
      constructor
      · rw [entriesOfTurns_add hproceed, entriesOfTurns, hturn.turn, hlog]
        cases o <;> simp [entriesOfTurns]
      · intro i' hdispatches'
        rw [proceed_append hproceed, proceed_succ, hturn.turn]
        cases o with
        | none => rfl
        | some outcome =>
            have hhalted := hturn.halted_of_quiet (hp.quiet hq)
            cases hhalted.symm.trans hdispatches'.running.not_halted
  | supply => cases (List.append_eq_nil_iff.mp hnone.symm).2

/-- More input makes no difference to a run in which nothing starves. -/
theorem provideInput (h : RunsOn (¬ ·.Starves) q [] log p) (words : List Word) :
    RunsOn (¬ ·.Starves) (q.provideInput words) [] log (p.provideInput words) := by
  generalize hnone : ([] : List Arrival) = arrivals at h ⊢
  induction h with
  | nil => exact .nil
  | @turn _ log p _ _ _ _ hfed hdispatches hturn ih =>
      have hmore := hturn.supplied hfed words
      have hentries : (p.provideInput words).entries = p.entries := by
        rw [hmore.entries_eq, hturn.entries_eq]
        rfl
      rw [← hentries]
      exact .turn (ih hnone) (fun hstarves => hfed hstarves.of_provideInput)
        (dispatches_provideInput.mpr hdispatches) hmore
  | supply => cases (List.append_eq_nil_iff.mp hnone.symm).2

/-- **All input may come in front** of such a run. -/
theorem inFront (h : RunsOn (¬ ·.Starves) q arrivals log p) :
    RunsOn (¬ ·.Starves) (q.provideInput (arrivals.flatMap Arrival.words)) [] log p := by
  induction h with
  | nil =>
      rw [List.flatMap_nil, provideInput_nil]
      exact .nil
  | turn _ hfed hdispatches hturn ih => exact .turn ih hfed hdispatches hturn
  | supply words _ ih =>
      rw [List.flatMap_append, List.flatMap_singleton, provideInput_append]
      exact ih.provideInput words

end RunsOn

/-! ## Keeping abreast -/

/-- The quiet machine `p` is as far as `m`: it has executed as many instructions, and as long as
the run of `m` can go on, it is in the same state. -/
structure Abreast (m p : Machine) : Prop where
  quiet : p.debugger.Quiet
  config : p.config = m.config
  environment : p.environment = m.environment
  executed : p.state.executed = m.state.executed
  state : m.state.Clear → m.state.halted = false → p.state = m.state

/-- If the run can go on after an instruction, then from the state that the instruction leaves. -/
theorem Turned.goes_on {o : Option Outcome} (h : Turned m o m') {i : Instruction} {event : Event}
    {s : State} (hexec : m.Executes i event s) (hclear : m'.state.Clear)
    (hrun : m'.state.halted = false) : event = .continued ∧ m'.state = s := by
  have hsame : ∀ {i' event' s'}, m.Executes i' event' s' → event = event' ∧ s = s' := by
    intro i' event' s' hexec'
    cases hexec.fetched.symm.trans hexec'.fetched
    cases hexec.stepped.symm.trans hexec'.stepped
    exact ⟨rfl, rfl⟩
  cases h with
  | ended => cases hrun
  | paused _ hcheck => exact absurd hexec.toDispatches (not_dispatches_of_check hcheck i)
  | refused => cases hclear.failure
  | continued hexec' =>
      obtain ⟨hevent, hs⟩ := hsame hexec'
      exact ⟨hevent, hs.symm⟩
  | failed hexec' => cases (State.step_failed hexec'.stepped).2.2.symm.trans hrun
  | suspended => cases hclear.escape
  | abandoned => cases hclear.failure

namespace Abreast

variable {p : Machine}

/-- What leaves the machine where it is. -/
theorem congr (h : Abreast m p) (hconfig : m'.config = m.config)
    (henv : m'.environment = m.environment) (hstate : m'.state = m.state) : Abreast m' p where
  quiet := h.quiet
  config := h.config.trans hconfig.symm
  environment := h.environment.trans henv.symm
  executed := by rw [hstate, h.executed]
  state := by
    rw [hstate]
    exact h.state

/-- A turn that executes nothing leaves the machine as far as it was. -/
theorem idle {o : Option Outcome} (h : Abreast m p) (hturn : Turned m o m')
    (hnone : ∀ i, ¬ m.Dispatches i) : Abreast m' p where
  quiet := h.quiet
  config := h.config.trans hturn.config.symm
  environment := h.environment.trans hturn.environment.symm
  executed := by
    rw [hturn.executed_eq, next?_eq_none hnone, h.executed]
    rfl
  state := by
    intro hclear hrun
    cases hturn with
    | ended => cases hrun
    | paused => exact h.state hclear hrun
    | refused => cases hclear.failure
    | continued hexec | failed hexec | suspended hexec | abandoned hexec =>
        exact absurd hexec.toDispatches (hnone _)

/-- Where the machine executes an instruction, the quiet machine does. -/
theorem executes (h : Abreast m p) (hclear : m.state.Clear) {i : Instruction} {event : Event}
    {s : State} (hexec : m.Executes i event s) : p.Executes i event s := by
  have hstate := h.state hclear hexec.running.not_halted
  refine ⟨⟨?_, h.quiet.check _ _, ?_⟩, ?_⟩
  · rw [hstate, h.environment]
    exact hexec.running
  · rw [hstate, h.environment, h.config]
    exact hexec.fetched
  · rw [hstate, h.environment]
    exact hexec.stepped

/-- **And then it is as far again.** -/
theorem turned (h : Abreast m p) (hclear : m.state.Clear) {o : Option Outcome}
    (hturn : Turned m o m') {i : Instruction} {event : Event} {s : State}
    (hexec : m.Executes i event s) : ∃ o' p', Turned p o' p' ∧ Abreast m' p' := by
  have hexec' := h.executes hclear hexec
  cases hcase : p.turn with
  | mk o' p' =>
      have hturn' := Machine.turned hcase
      refine ⟨o', p', hturn', ?_⟩
      exact
        { quiet := (hturn'.quiet h.quiet).1
          config := by rw [hturn'.config, hturn.config, h.config]
          environment := by rw [hturn'.environment, hturn.environment, h.environment]
          executed := by
            rw [hturn'.executed_eq, hturn.executed_eq, next?_eq_some.mpr hexec.toDispatches,
              next?_eq_some.mpr hexec'.toDispatches, h.executed]
          state := by
            intro hclear' hrun
            obtain ⟨rfl, hs⟩ := hturn.goes_on hexec hclear' hrun
            cases hexec'.turn_continued.symm.trans hcase
            exact hs.symm }

/-- The quiet machine adds the same instruction to the log, and nothing else. -/
theorem entries (h : Abreast m p) (hclear : m.state.Clear) {o : Option Outcome}
    (hturn : Turned m o m') {i : Instruction} {event : Event} {s : State}
    (hexec : m.Executes i event s) (htrace : m.config.traceInstructions = true) :
    p.entries = m.entries.filter Record.isInstruction := by
  have hexec' := h.executes hclear hexec
  have hsnapshot : p.snapshot .instruction = m.snapshot .instruction := by
    unfold snapshot
    rw [h.state hclear hexec.running.not_halted, h.environment]
  cases hcase : p.turn with
  | mk o' p' =>
      have hnever := ((Machine.turned hcase).quiet h.quiet).2
      rw [(Machine.turned hcase).entries_eq, hturn.filter_entries htrace, h.config, htrace,
        next?_eq_some.mpr hexec.toDispatches, next?_eq_some.mpr hexec'.toDispatches, hsnapshot]
      cases o' with
      | none => rfl
      | some outcome =>
          cases outcome with
          | paused record => exact absurd rfl (hnever record)
          | halted | failed => rfl

/-- The quiet machine starves only where the other one does. -/
theorem starves (h : Abreast m p) (hclear : m.state.Clear) {i : Instruction} {event : Event}
    {s : State} (hexec : m.Executes i event s) (hstarves : p.Starves) : m.Starves := by
  obtain ⟨hread, hinput⟩ := starves_iff.mp hstarves
  cases hread.fetched.symm.trans (h.executes hclear hexec).fetched
  rw [h.state hclear hexec.running.not_halted] at hinput
  exact starves_iff.mpr ⟨hexec.toDispatches, hinput⟩

end Abreast

/-! ## The instructions in the log -/

/-- **The log has the instructions of a run that nobody interrupts**, while the same words come
after as many instructions. -/
theorem logInvariant_runsOn {P : Machine → Prop} {m₀ : Machine}
    (htrace : m₀.config.traceInstructions = true) :
    LogInvariant P m₀ fun arrivals log _ m =>
      m.config.traceInstructions = true ∧ ∃ p, Abreast m p ∧
        RunsOn (fun p => (∀ m, P m → ¬ m.Starves) → ¬ p.Starves)
          (m₀.uninterrupted.prepare .start) arrivals (log.filter Record.isInstruction) p where
  reset := ⟨htrace, _, ⟨uninterrupted_quiet m₀, rfl, rfl, rfl, fun _ _ => rfl⟩, .nil⟩
  prepare {_ _ _ m _} hcall := by
    rintro ⟨htrace, p, habreast, hruns⟩
    exact ⟨by rw [prepare_config, htrace], p,
      habreast.congr (prepare_config m) (prepare_environment m) (prepare_state hcall), hruns⟩
  turn {_ log m o m'} hP hclear hm h := by
    obtain ⟨htrace, p, habreast, hruns⟩ := hm
    refine ⟨by rw [h.config, htrace], ?_⟩
    rw [List.filter_append]
    cases hnext : m.next? with
    | none =>
        have hidle : ∀ i, ¬ m.Dispatches i := fun i hi => by
          cases hnext.symm.trans (next?_eq_some.mpr hi)
        refine ⟨p, habreast.idle h hidle, ?_⟩
        rw [h.filter_entries htrace, hnext]
        exact (List.append_nil _).symm ▸ hruns
    | some i =>
        have hexec : m.Executes i _ _ := ⟨next?_eq_some.mp hnext, rfl⟩
        obtain ⟨o', p', hturn, habreast'⟩ := habreast.turned hclear h hexec
        rw [← habreast.entries hclear h hexec htrace]
        exact ⟨p', habreast', .turn hruns
          (fun hfed hstarves => hfed m hP (habreast.starves hclear hexec hstarves))
          (habreast.executes hclear hexec).toDispatches hturn⟩
  failed _ hm := hm
  abandon _ hm := by
    obtain ⟨htrace, p, habreast, hruns⟩ := hm
    exact ⟨htrace, p, ⟨habreast.quiet, habreast.config, habreast.environment, habreast.executed,
      fun hclear _ => by cases hclear.failure⟩, hruns⟩
  supply {_ _ _ m} words := by
    rintro ⟨htrace, p, habreast, hruns⟩
    refine ⟨htrace, p.provideInput words, ⟨habreast.quiet, habreast.config, habreast.environment,
      habreast.executed, fun hclear hrun => ?_⟩, ?_⟩
    · show p.state.supplied words = m.state.supplied words
      rw [habreast.state ⟨hclear.escape, hclear.failure⟩ hrun]
    · rw [← habreast.executed]
      exact .supply words hruns
  edit _ hm := by
    obtain ⟨htrace, p, habreast, hruns⟩ := hm
    exact ⟨htrace, p, habreast.congr rfl rfl rfl, hruns⟩

end StackMachine.Machine
