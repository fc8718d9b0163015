import Mathlib.Control.Monad.Basic
import StackMachine.CommandLine.Session
import StackMachine.Proofs.Machine.Transparency

set_option autoImplicit false

/-! # Options that only help to look

Of the options of a run, only the input and the limits matter to its result. Breakpoints, watches, a
pause on exceptions, a trace and heap dumps add complete lines to the log and no more. At each pause
the session goes on at once, so it comes to the end of the run without a debugger, if that ends
(`CommandLine.Session.finishes`), and only then (`CommandLine.Session.run_ends`). What a finished
session reports tells the outcome of that run (`CommandLine.Report.Tells`), and that does not depend
on these options.
-/

namespace StackMachine.CommandLine

/-! ## Lines -/

/-- The text consists of complete lines. -/
def IsLines (text : String) : Prop := ∀ c ∈ text.toList.getLast?, c = '\n'

/-- The last line of a text, without the newline that ends it. -/
def lastLine (text : String) : String :=
  String.ofList (text.toList.dropLast.reverse.takeWhile (· ≠ '\n')).reverse

theorem isLines_empty : IsLines "" := by
  intro c hc
  cases hc

theorem isLines_newline (text : String) : IsLines (text ++ "\n") := by
  intro c hc
  have hlast : (text ++ "\n").toList.getLast? = some '\n' := by
    rw [String.toList_append]
    exact List.getLast?_concat
  rw [hlast] at hc
  cases hc
  rfl

theorem IsLines.append {text more : String} (h : IsLines text) (hmore : IsLines more) :
    IsLines (text ++ more) := by
  intro c hc
  rw [String.toList_append, List.getLast?_append] at hc
  cases hlast : more.toList.getLast? with
  | none =>
      rw [hlast] at hc
      exact h c hc
  | some c' =>
      rw [hlast] at hc
      cases hc
      exact hmore c hlast

theorem isLines_join {texts : List String} (h : ∀ text ∈ texts, IsLines text) :
    IsLines (String.join texts) := by
  intro c hc
  rw [String.toList_join, List.getLast?_flatMap] at hc
  obtain ⟨text, htext, hlast⟩ := List.exists_of_findSome?_eq_some hc
  exact h text (List.mem_reverse.mp htext) c hlast

/-- Lines before a text are not its last line. -/
theorem lastLine_append {text line : String} (h : IsLines text) (hline : line ≠ "") :
    lastLine (text ++ line) = lastLine line := by
  have hne : line.toList ≠ [] := fun hnil => hline (String.toList_eq_nil_iff.mp hnil)
  have hbehind : text.toList.reverse.takeWhile (· ≠ '\n') = [] := by
    cases hrev : text.toList.reverse with
    | nil => rfl
    | cons c rest =>
        have hc : c = '\n' := h c (by rw [← List.head?_reverse, hrev]; rfl)
        simp [hc]
  unfold lastLine
  rw [String.toList_append, List.dropLast_append_of_ne_nil hne, List.reverse_append,
    List.takeWhile_append, hbehind]
  split
  · next hall =>
      have hwhole := (List.takeWhile_prefix (· ≠ '\n')).eq_of_length hall
      rw [List.append_nil, hwhole]
  · rfl

/-! ## Reports -/

/-- The line that reports an error, if the exit code says that there is one. -/
def Report.errorLine? (r : Report) : Option String :=
  if r.exitCode = 0 then none else some (lastLine r.log)

/-- Output, exit code and the line that reports an error are the same. -/
structure Report.SameResult (r r' : Report) : Prop where
  output : r'.output = r.output
  exitCode : r'.exitCode = r.exitCode
  errorLine : r'.errorLine? = r.errorLine?

/-- The report tells the outcome of a run, behind any complete lines. -/
inductive Report.Tells : Report → Outcome → Prop
  | halted (s : Session) (output : Array Word) : Tells (s.halted output) (.halted output)
  | failed {log : String} (failure : Failure) :
      IsLines log → Tells ((Problem.failed failure).report log) (.failed failure)

/-- A run that has halted reports no error. -/
theorem Session.errorLine?_halted (s : Session) (output : Array Word) :
    (s.halted output).errorLine? = none := if_pos rfl

/-- The last line of a report of a problem names the problem. -/
theorem Problem.errorLine?_report (problem : Problem) {log : String} (h : IsLines log) :
    (problem.report log).errorLine? = (problem.report "").errorLine? := by
  have hline : s!"error: {problem.message}\n" ≠ "" := by
    intro hnil
    exact absurd (String.append_eq_empty_iff.mp hnil).2 (by decide)
  unfold Report.errorLine?
  show some (lastLine (log ++ s!"error: {problem.message}\n")) =
    some (lastLine ("" ++ s!"error: {problem.message}\n"))
  rw [lastLine_append h hline, lastLine_append isLines_empty hline]

/-- **Reports that tell the same outcome have the same result.** -/
theorem Report.Tells.sameResult {r r' : Report} {outcome : Outcome} (h : r.Tells outcome)
    (h' : r'.Tells outcome) : r.SameResult r' := by
  cases h with
  | halted s output =>
      cases h' with
      | halted s' =>
          refine ⟨rfl, rfl, ?_⟩
          rw [Session.errorLine?_halted, Session.errorLine?_halted]
  | failed failure hlog =>
      cases h' with
      | failed _ hlog' =>
          refine ⟨rfl, rfl, ?_⟩
          rw [Problem.errorLine?_report _ hlog, Problem.errorLine?_report _ hlog']

/-! ## Sessions -/

namespace Session

variable {s s' : Session}

theorem dump_isLines {heap : Heap} {address : Word} {size : Nat} {text : String}
    (h : heap.dump address size = .ok text) : IsLines text := by
  unfold Heap.dump at h
  cases hslice : heap.slice address size with
  | error fault => rw [hslice] at h; cases h
  | ok bytes =>
      rw [hslice] at h
      cases h
      refine isLines_join fun line hline => ?_
      obtain ⟨i, -, rfl⟩ := List.mem_map.mp hline
      exact isLines_newline _

theorem logHeap_isLines (h : IsLines s.log) : IsLines s.logHeap.log := by
  unfold logHeap
  cases s.dumpHeap with
  | none => exact h
  | some range =>
      obtain ⟨address, size⟩ := range
      dsimp only
      cases hdump : s.machine.state.heap.dump address size with
      | ok text => exact h.append (dump_isLines hdump)
      | error fault => exact h.append (isLines_newline _)

theorem logPause_isLines (h : IsLines s.log) (record : Record) :
    IsLines (s.logPause record).log :=
  logHeap_isLines (h.append (isLines_newline _))

@[simp] theorem logHeap_machine (s : Session) : s.logHeap.machine = s.machine := by
  unfold logHeap
  split
  · rfl
  · split <;> rfl

@[simp] theorem logPause_machine (s : Session) (record : Record) :
    (s.logPause record).machine = s.machine := logHeap_machine _

/-- A turn of a session is a turn of its machine, and the session acts on the outcome. -/
theorem turn_eq (s : Session) :
    s.turn =
      match s.machine.turn with
      | (none, m) => .running { s with machine := m }
      | (some outcome, m) => react { s with machine := m } outcome := rfl

theorem advance_of_running {turns : Nat} (h : s.turn = .running s') :
    s.advance (turns + 1) = s'.advance turns := by
  simp only [advance, h]

theorem advance_of_finished {turns : Nat} {report : Report} (h : s.turn = .finished report) :
    s.advance (turns + 1) = .finished report := by
  simp only [advance, h]

/-- From a pause between two instructions the session resumes the run. -/
theorem react_paused_of_clear (record : Record) (h : s.machine.state.Clear) :
    s.react (.paused record) =
      .running { s.logPause record with machine := s.machine.prepare .proceed } := by
  have hprepared : (s.machine.prepare .proceed).state.Clear := h
  unfold react
  simp only [logPause_machine, Machine.begin, hprepared.escape, hprepared.failure]

/-- From a pause on an exception it ends the run. -/
theorem react_paused_of_escape (record : Record) {e : Escape}
    (h : s.machine.state.escape = some e) :
    s.react (.paused record) =
      .finished
        ((Problem.failed (s.machine.state.abandon e).1).report (s.logPause record).log) := by
  have hprepared : (s.machine.prepare .proceed).state.escape = some e := h
  unfold react
  simp only [logPause_machine, Machine.begin, hprepared]
  rfl

/-- The session is in the middle of a call, and its log consists of complete lines. -/
structure Ready (s : Session) : Prop where
  clear : s.machine.state.Clear
  lines : IsLines s.log

/-- Why the debugger pauses the session here, if it does. -/
def check (s : Session) : Option Reason :=
  s.machine.debugger.check s.machine.state.pc s.machine.state.calls.depth

/-- The run without a debugger from where the session stands. -/
def run (s : Session) (turns : Nat) : Option Outcome × State :=
  s.machine.state.run s.machine.environment s.machine.config.instructionBudget turns

/-- What a turn of a session leads to. The session pauses and goes on from the same place, or it
takes a turn of the run without a debugger, or it finishes where that run ends. -/
inductive Leads (s : Session) : Progress → Prop
  | paused {s' : Session} : s'.Ready → s.check ≠ none → s'.check = none →
      (∀ n, s'.run n = s.run n) → Leads s (.running s')
  | continued {s' : Session} : s'.Ready → (∀ n, s.run (n + 1) = s'.run n) →
      Leads s (.running s')
  | finished {report : Report} {outcome : Outcome} {last : State} :
      (∀ n, s.run (n + 1) = (some outcome, last)) → report.Tells outcome →
      Leads s (.finished report)

/-- **A turn of a session leads to one of these.** -/
theorem Ready.leads (h : s.Ready) : s.Leads s.turn := by
  rw [turn_eq]
  cases hcase : s.machine.turn with
  | mk o m =>
      have hturned := Machine.turned hcase
      have hends : ∀ {outcome : Outcome} {last : State}, s.machine.state.advance
          s.machine.environment s.machine.config.instructionBudget = (some outcome, last) →
          ∀ n, s.run (n + 1) = (some outcome, last) :=
        fun hadvance _ => State.run_succ_of_some hadvance
      cases hturned with
      | ended hend => exact .finished (hends (State.advance_of_ended hend)) (.halted _ _)
      | paused _ hcheck =>
          dsimp only
          rw [react_paused_of_clear]
          · refine .paused ⟨?_, ?_⟩ ?_ ?_ fun _ => rfl
            · exact ⟨h.clear.escape, h.clear.failure⟩
            · exact logPause_isLines (by exact h.lines) _
            · unfold check
              rw [hcheck]
              simp
            · -- the breakpoint of the pause is passed over, and the run goes on freely
              simp [check, Debugger.check, Machine.prepare, Debugger.beginRun,
                Debugger.recordPause, Debugger.record, Machine.snapshot, DrivingCall.mode?]
          · exact ⟨h.clear.escape, h.clear.failure⟩
      | refused hrun _ hfetch =>
          exact .finished (hends (State.advance_of_error hrun hfetch)) (.failed _ h.lines)
      | continued hexec =>
          have hadvance := (Machine.turned hcase).advance (by simp)
          exact .continued ⟨hexec.clear h.clear, h.lines⟩
            fun _ => State.run_succ_of_none hadvance
      | failed =>
          have hadvance := (Machine.turned hcase).advance (by simp)
          exact .finished (hends hadvance) (.failed _ h.lines)
      | suspended hexec =>
          -- the pause on the exception delays the end of the run
          dsimp only
          rw [react_paused_of_escape _ rfl]
          exact .finished (hends hexec.advance_escaped)
            (.failed _ (logPause_isLines (by exact h.lines) _))
      | abandoned hexec => exact .finished (hends hexec.advance_escaped) (.failed _ h.lines)

/-- **A session finishes only if the run without a debugger ends.** -/
theorem Ready.run_ends {turns : Nat} {report : Report} (hs : s.Ready)
    (h : s.advance turns = .finished report) :
    ∃ (n : Nat) (outcome : Outcome) (last : State), s.run n = (some outcome, last) := by
  induction turns generalizing s with
  | zero => cases h
  | succ turns ih =>
      have hleads := hs.leads
      cases hturn : s.turn with
      | finished report' =>
          rw [hturn] at hleads
          cases hleads with
          | finished hrun => exact ⟨1, _, _, hrun 0⟩
      | running s' =>
          rw [hturn] at hleads
          rw [advance_of_running hturn] at h
          cases hleads with
          | paused hs' _ _ hrun =>
              obtain ⟨n, outcome, last, hends⟩ := ih hs' h
              exact ⟨n, outcome, last, (hrun n).symm.trans hends⟩
          | continued hs' hrun =>
              obtain ⟨n, outcome, last, hends⟩ := ih hs' h
              exact ⟨n + 1, outcome, last, (hrun n).trans hends⟩

/-- The session finishes with a report that tells `outcome`. -/
def FinishesWith (s : Session) (outcome : Outcome) : Prop :=
  ∃ turns report, s.advance turns = .finished report ∧ report.Tells outcome

theorem FinishesWith.of_finished {report : Report} {outcome : Outcome}
    (h : s.turn = .finished report) (htells : report.Tells outcome) : s.FinishesWith outcome :=
  ⟨1, report, advance_of_finished h, htells⟩

theorem FinishesWith.of_running {outcome : Outcome} (h : s.turn = .running s')
    (hrest : s'.FinishesWith outcome) : s.FinishesWith outcome := by
  obtain ⟨turns, report, hadvance, htells⟩ := hrest
  exact ⟨turns + 1, report, (advance_of_running h).trans hadvance, htells⟩

/-- **A session finishes if the run without a debugger ends**, and its report tells how. -/
theorem Ready.finishes {n : Nat} {outcome : Outcome} {last : State} (hs : s.Ready)
    (h : s.run n = (some outcome, last)) : s.FinishesWith outcome := by
  induction n generalizing s with
  | zero => cases h
  | succ n ih =>
      -- unless it pauses here, the session takes the next turn of the run
      have hnext : ∀ {s : Session}, s.Ready → s.run (n + 1) = (some outcome, last) →
          (∀ {s' : Session}, s'.Ready → s.check ≠ none → s'.check = none →
            s'.run (n + 1) = (some outcome, last) → s'.FinishesWith outcome) →
          s.FinishesWith outcome := by
        intro s hs h hpaused
        have hleads := hs.leads
        cases hturn : s.turn with
        | finished report =>
            rw [hturn] at hleads
            cases hleads with
            | finished hrun htells =>
                cases (hrun n).symm.trans h
                exact .of_finished hturn htells
        | running s' =>
            rw [hturn] at hleads
            cases hleads with
            | paused hs' hpause hnone hrun =>
                exact .of_running hturn (hpaused hs' hpause hnone ((hrun (n + 1)).trans h))
            | continued hs' hrun => exact .of_running hturn (ih hs' ((hrun n).symm.trans h))
      -- and where it goes on after a pause, it does not pause again
      refine hnext hs h fun hs' _ hnone h' => hnext hs' h' fun _ hpause _ _ => ?_
      exact absurd hnone hpause

end Session

/-! ## Commands -/

/-- The report of a command that comes to an end within some turns. -/
def Progress.report? (turns : Nat) : Progress → Option Report
  | .finished report => some report
  | .running s =>
    match s.advance turns with
    | .finished report => some report
    | .running _ => none

/-- The command comes to an end with this report. -/
def Progress.Finishes (p : Progress) (report : Report) : Prop :=
  ∃ turns, p.report? turns = some report

theorem Session.report?_eq_some {s : Session} {turns : Nat} {report : Report} :
    (Progress.running s).report? turns = some report ↔ s.advance turns = .finished report := by
  unfold Progress.report?
  dsimp only
  cases s.advance turns <;> simp

/-- A session that has finished needs no further turns. -/
theorem Session.advance_add {s : Session} {turns : Nat} {report : Report}
    (h : s.advance turns = .finished report) (more : Nat) :
    s.advance (turns + more) = .finished report := by
  induction turns generalizing s with
  | zero => cases h
  | succ turns ih =>
      rw [Nat.succ_add]
      cases hturn : s.turn with
      | finished report' =>
          rw [advance_of_finished hturn] at h ⊢
          exact h
      | running s' =>
          rw [advance_of_running hturn] at h ⊢
          exact ih h

theorem Progress.report?_add {p : Progress} {turns : Nat} {report : Report}
    (h : p.report? turns = some report) (more : Nat) : p.report? (turns + more) = some report := by
  cases p with
  | finished => exact h
  | running s =>
      rw [Session.report?_eq_some] at h ⊢
      exact Session.advance_add h more

/-- There is one report only. -/
theorem Progress.Finishes.unique {p : Progress} {r r' : Report} (h : p.Finishes r)
    (h' : p.Finishes r') : r = r' := by
  obtain ⟨turns, hreport⟩ := h
  obtain ⟨turns', hreport'⟩ := h'
  have hlonger := report?_add hreport turns'
  rw [Nat.add_comm, report?_add hreport' turns] at hlonger
  exact (Option.some.inj hlonger).symm

/-- The machines run the same program, with the same builtins and budget, from the same state. -/
structure SameRun (m m' : Machine) : Prop where
  environment : m'.environment = m.environment
  budget : m'.config.instructionBudget = m.config.instructionBudget
  state : m'.state = m.state

/-- Tracing is all that the options of a run add to the limits. -/
theorem readConfig_eq (read : Reader) (o : RunOptions) :
    readConfig read o =
      (readConfig read { config := o.config }).map fun config =>
        { config with traceInstructions := config.traceInstructions || o.trace } := by
  have htrace : ∀ config : Config,
      (if o.trace then { config with traceInstructions := true } else config) =
        { config with traceInstructions := config.traceInstructions || o.trace } := by
    intro config
    cases o.trace <;> simp
  unfold readConfig
  dsimp only
  cases o.config with
  | none => exact congrArg Except.ok (htrace {})
  | some path =>
      dsimp only
      cases (read path).mapError Problem.unreadableConfig with
      | error problem => rfl
      | ok text =>
          cases hparse : (Config.parse text).mapError Problem.invalidConfig with
          | error problem => simp [hparse, bind, Except.bind, Except.map]
          | ok config => simp [hparse, bind, Except.bind, Except.map, pure, Except.pure, htrace]

/-- **Runs with the same input and limits are prepared alike**, or not at all for the same
reason. -/
theorem prepare_sameRun (read : Reader) (file : String) {o₁ o₂ : RunOptions}
    (hinputs : o₁.inputs = o₂.inputs) (hconfig : o₁.config = o₂.config) :
    (∃ problem, prepare read file o₁ = .error problem ∧ prepare read file o₂ = .error problem) ∨
      ∃ m₁ m₂, prepare read file o₁ = .ok m₁ ∧ prepare read file o₂ = .ok m₂ ∧ SameRun m₁ m₂ := by
  unfold prepare
  rw [readConfig_eq read o₁, readConfig_eq read o₂, hconfig, hinputs]
  cases readConfig read { config := o₂.config } with
  | error problem => exact Or.inl ⟨problem, rfl, rfl⟩
  | ok config =>
      -- whether the limits are usable does not depend on tracing
      have hcreate : ∀ trace : Bool, Machine.create { config with traceInstructions := trace } =
          config.check.map fun _ =>
            Machine.ofConfig { config with traceInstructions := trace } := by
        intro trace
        have hproblem : Config.problem? { config with traceInstructions := trace } =
            config.problem? := rfl
        unfold Machine.create Config.check
        rw [hproblem]
        cases config.problem? <;> rfl
      simp only [Except.map, bind, Except.bind, hcreate]
      cases config.check with
      | error problem => exact Or.inl ⟨_, rfl, rfl⟩
      | ok usable =>
          cases readProgram read file with
          | error problem => exact Or.inl ⟨problem, rfl, rfl⟩
          | ok code => exact Or.inr ⟨_, _, rfl, rfl, ⟨rfl, rfl, rfl⟩⟩

/-- **The result of a run does not depend on options that only help to look.** Let two runs have the
same program, the same input and the same limits. Then whatever breakpoints, watches, pause on
exceptions, trace and heap dump they ask for, the second one comes to an end if the first one does,
with the same output and exit code and the same line that reports an error, if there is one. -/
theorem Progress.Finishes.independent {read : Reader} {file : String} {o₁ o₂ : RunOptions}
    {r₁ : Report} (hinputs : o₁.inputs = o₂.inputs) (hconfig : o₁.config = o₂.config)
    (h : ((Command.run file o₁).start read).Finishes r₁) :
    ∃ r₂, (∀ r, ((Command.run file o₂).start read).Finishes r ↔ r = r₂) ∧
      r₂.output = r₁.output ∧ r₂.exitCode = r₁.exitCode ∧ r₂.errorLine? = r₁.errorLine? := by
  change (startRun read file o₁).Finishes r₁ at h
  show ∃ r₂, (∀ r, (startRun read file o₂).Finishes r ↔ r = r₂) ∧ _
  unfold startRun at h ⊢
  rcases prepare_sameRun read file hinputs hconfig with
    ⟨problem, h₁, h₂⟩ | ⟨m₁, m₂, h₁, h₂, hsame⟩
  · -- neither of them starts
    rw [h₁] at h
    rw [h₂]
    exact ⟨r₁, fun r => ⟨fun hr => Finishes.unique hr h, fun hr => hr ▸ h⟩, rfl, rfl, rfl⟩
  · rw [h₁] at h
    rw [h₂]
    let s₁ : Session := { machine := m₁.prepare .start, dumpHeap := o₁.dumpHeap }
    let s₂ : Session := { machine := m₂.prepare .start, dumpHeap := o₂.dumpHeap }
    have hready₁ : s₁.Ready := ⟨⟨rfl, rfl⟩, isLines_empty⟩
    have hready₂ : s₂.Ready := ⟨⟨rfl, rfl⟩, isLines_empty⟩
    have hrun : ∀ n, s₂.run n = s₁.run n := by
      intro n
      show m₂.state.clear.run m₂.environment m₂.config.instructionBudget n = _
      rw [hsame.state, hsame.environment, hsame.budget]
      rfl
    change Progress.Finishes (.running s₁) r₁ at h
    show ∃ r₂, (∀ r, Progress.Finishes (.running s₂) r ↔ r = r₂) ∧ _
    -- both tell how the run without a debugger ends
    obtain ⟨turns, hreport⟩ := h
    obtain ⟨n, outcome, last, hends⟩ := hready₁.run_ends (Session.report?_eq_some.mp hreport)
    obtain ⟨turns₁, r, hr, htells₁⟩ := hready₁.finishes hends
    obtain ⟨turns₂, r₂, hr₂, htells₂⟩ := hready₂.finishes ((hrun n).trans hends)
    have hfinishes₁ : Progress.Finishes (.running s₁) r := ⟨turns₁, Session.report?_eq_some.mpr hr⟩
    have hfinishes₂ : Progress.Finishes (.running s₂) r₂ :=
      ⟨turns₂, Session.report?_eq_some.mpr hr₂⟩
    cases hfinishes₁.unique ⟨turns, hreport⟩
    have hresult := htells₁.sameResult htells₂
    refine ⟨r₂, fun r' => ⟨fun h' => h'.unique hfinishes₂, ?_⟩, hresult.output,
      hresult.exitCode, hresult.errorLine⟩
    rintro rfl
    exact hfinishes₂

/-- `PUSH 7; PRINT; PUSH 5; THROW` ends with the same error with breakpoints, a watch, a pause on
the exception, a trace and heap dumps as without any of them. -/
theorem Progress.Finishes.independent_uncaught :
    ∃ (read : Reader) (o : RunOptions) (r₁ r₂ : Report), o.breakpoints = [0, 2, 5] ∧
      o.pauseOnException = true ∧ o.trace = true ∧ o.dumpHeap = some (0, 4) ∧
      ((Command.run "p" {}).start read).Finishes r₁ ∧
      ((Command.run "p" o).start read).Finishes r₂ ∧ r₂.output = "" ∧ r₂.exitCode = 1 ∧
      r₂.errorLine? = some "error: Uncaught exception: 5 at pc 5 (THROW)" := by
  let source := "PUSH 7\nPRINT\nPUSH 5\nTHROW\n"
  let read : Reader := fun _ => .ok source
  let o : RunOptions :=
    { breakpoints := [0, 2, 5], watchGlobals := [0], pauseOnException := true, trace := true,
      dumpHeap := some (0, 4) }
  let r₁ : Report := { exitCode := 1, log := "error: Uncaught exception: 5 at pc 5 (THROW)\n" }
  -- the path is its only component, which has no extension
  have hnext : String.Pos.Raw.next "p" (String.Pos.Raw.unoffsetBy 0 0) = ⟨1⟩ := by decide +kernel
  have hcomponents : "p".splitOn "/" = ["p"] := by
    unfold String.splitOn
    rw [if_neg (by decide +kernel), String.splitOnAux, if_neg (by decide +kernel),
      if_neg (by decide +kernel), hnext, String.splitOnAux, if_pos (by decide +kernel)]
    decide +kernel
  have hpath : isJsonPath "p" = false := by
    unfold isJsonPath
    rw [hcomponents]
    decide +kernel
  have hcode : Assembly.assemble source = .ok #[1, 7, 5, 1, 5, 18] := by decide +kernel
  have hread : read "p" = .ok source := rfl
  have hprogram : readProgram read "p" = .ok #[1, 7, 5, 1, 5, 18] := by
    unfold readProgram
    simp only [hread, hpath, Except.mapError, bind, Except.bind, Bool.false_eq_true, if_false,
      hcode]
  have h₁ : ((Command.run "p" {}).start read).Finishes r₁ := by
    refine ⟨9, ?_⟩
    show (startRun read "p" {}).report? 9 = some r₁
    unfold startRun prepare
    rw [hprogram]
    decide +kernel
  have hinputs : ({} : RunOptions).inputs = o.inputs := rfl
  have hconfig : ({} : RunOptions).config = o.config := rfl
  obtain ⟨r₂, hr₂, houtput, hexit, hline⟩ := Progress.Finishes.independent hinputs hconfig h₁
  refine ⟨read, o, r₁, r₂, rfl, rfl, rfl, rfl, h₁, (hr₂ r₂).mpr rfl, houtput, hexit, ?_⟩
  rw [hline]
  decide +kernel

end StackMachine.CommandLine
