import StackMachine.Proofs.Machine.Fresh
import StackMachine.Proofs.Machine.Uninterrupted

set_option autoImplicit false

/-! # What a trace keeps

A turn pushes its entries onto the trace (`Machine.Turned.trace`), so the trace is what remains of
the log when only so many records are kept. The instructions in the log are those that the run
executes when nobody interrupts it; pauses add records of their own and change none of the others.
-/

namespace StackMachine

/-! ## Traces -/

namespace Trace

variable {t : Trace}

/-- A new record comes before the others, and the last of them may be dropped. -/
theorem newestFirst_push (t : Trace) (r : Record) :
    (t.push r).newestFirst = (r :: t.newestFirst).take t.capacity := by
  have hkeep : ∀ records : List Record,
      (r :: records.take t.capacity).take t.capacity = (r :: records).take t.capacity := by
    intro records
    cases t.capacity with
    | zero => rfl
    | succ n => simp [List.take_take]
  unfold push newestFirst
  split
  · exact (hkeep t.recent).symm
  · show ((r :: t.recent).take t.capacity).take t.capacity = _
    rw [List.take_take, Nat.min_self, hkeep]

theorem newestFirst_foldl_push (log : List Record) (t : Trace) :
    (log.foldl push t).newestFirst = (log.reverse ++ t.newestFirst).take t.capacity := by
  induction log generalizing t with
  | nil =>
      show t.recent.take t.capacity = (t.recent.take t.capacity).take t.capacity
      rw [List.take_take, Nat.min_self]
  | cons r log ih =>
      rw [List.foldl_cons, ih, newestFirst_push, Debugger.push_capacity, List.reverse_cons,
        List.append_assoc, List.singleton_append]
      simp only [List.take_append, List.take_take]
      rw [Nat.min_eq_left (Nat.sub_le ..)]

theorem capacity_foldl_push (log : List Record) (t : Trace) :
    (log.foldl push t).capacity = t.capacity := by
  induction log generalizing t with
  | nil => rfl
  | cons r log ih => rw [List.foldl_cons, ih, Debugger.push_capacity]

/-- **A trace keeps the end of the log**, as much of it as it can. -/
theorem records_foldl_push (log : List Record) (t : Trace) :
    (log.foldl push t.clear).records <:+ log ∧
      (log.foldl push t.clear).records.length = min t.capacity log.length := by
  have hnewest : (log.foldl push t.clear).newestFirst = log.reverse.take t.capacity := by
    rw [newestFirst_foldl_push]
    show (log.reverse ++ List.take t.capacity []).take t.capacity = _
    rw [List.take_nil, List.append_nil]
  unfold records
  rw [hnewest]
  constructor
  · rw [← List.reverse_prefix, List.reverse_reverse]
    exact List.take_prefix ..
  · rw [List.length_reverse, List.length_take, List.length_reverse]

/-- A pause that has just been recorded is the last one. -/
theorem lastPause?_push {r : Record} (hcapacity : 1 ≤ t.capacity) (hr : r.reason ≠ .instruction) :
    (t.push r).lastPause? = some r := by
  unfold lastPause?
  rw [newestFirst_push]
  obtain ⟨n, hn⟩ := Nat.exists_eq_succ_of_ne_zero (Nat.pos_iff_ne_zero.mp hcapacity)
  rw [hn, List.take_succ_cons, List.find?_cons_of_pos]
  simpa using hr

end Trace

namespace Machine

variable {m m' : Machine}

/-! ## What the log has to do with the machine -/

theorem noteInstruction_trace (m : Machine) :
    m.noteInstruction.debugger.trace =
      if m.config.traceInstructions then m.debugger.trace.push (m.snapshot .instruction)
      else m.debugger.trace := by
  unfold noteInstruction
  dsimp only [Debugger.instructionExecuted]
  split <;> rfl

/-- **A turn pushes its entries onto the trace.** -/
theorem Turned.trace {o : Option Outcome} (h : Turned m o m') :
    m'.debugger.trace = m.entries.foldl Trace.push m.debugger.trace := by
  have hexecutes : ∀ {i event s}, m.Executes i event s →
      m.entries.foldl Trace.push m.debugger.trace =
        (o.bind Outcome.record?).toList.foldl Trace.push m.noteInstruction.debugger.trace := by
    intro i event s hexec
    rw [h.entries_eq, next?_eq_some.mpr hexec.toDispatches, List.foldl_append,
      noteInstruction_trace]
    cases m.config.traceInstructions <;> rfl
  cases h with
  | ended hend =>
      rw [Turned.entries_of_idle (.ended hend) (not_dispatches_of_ended hend)]
      rfl
  | paused hrun hcheck =>
      rw [Turned.entries_of_idle (.paused hrun hcheck) (not_dispatches_of_check hcheck)]
      rfl
  | refused hrun hcheck hfetch =>
      rw [Turned.entries_of_idle (.refused hrun hcheck hfetch) (not_dispatches_of_fetch hfetch)]
      rfl
  | continued hexec => rw [hexecutes hexec]; rfl
  | failed hexec => rw [hexecutes hexec]; rfl
  | suspended hexec => rw [hexecutes hexec]; rfl
  | abandoned hexec => rw [hexecutes hexec]; rfl

section Invariants

variable {P : Machine → Prop} {m₀ : Machine}

theorem logInvariant_config : LogInvariant P m₀ fun _ _ _ m => m.config = m₀.config where
  reset := rfl
  prepare {_ _ _ m _} _ hm := by rw [prepare_config, hm]
  turn _ _ hm h := h.config.trans hm
  failed _ hm := hm
  abandon _ hm := hm
  supply _ hm := hm
  edit _ hm := hm

/-- **The trace is what pushing the log leaves.** -/
theorem logInvariant_trace :
    LogInvariant P m₀ fun _ log _ m =>
      m.debugger.trace = log.foldl Trace.push m₀.debugger.trace.clear where
  reset := rfl
  prepare {_ _ _ _ call} hcall hm := by
    cases call with
    | start => exact absurd rfl hcall
    | _ => exact hm
  turn _ _ hm h := by rw [h.trace, hm, List.foldl_append]
  failed _ hm := hm
  abandon _ hm := hm
  supply _ hm := hm
  edit e hm := by cases e <;> exact hm

/-- **The log has a record of each instruction that has been counted.** -/
theorem logInvariant_executed (htrace : m₀.config.traceInstructions = true) :
    LogInvariant P m₀ fun _ log _ m =>
      m.config.traceInstructions = true ∧
        (log.filter Record.isInstruction).length = m.state.executed where
  reset := ⟨htrace, rfl⟩
  prepare {_ _ _ m _} hcall hm := by
    rw [prepare_config, prepare_state hcall]
    exact hm
  turn _ _ hm h := by
    refine ⟨by rw [h.config]; exact hm.1, ?_⟩
    rw [List.filter_append, List.length_append, h.filter_entries hm.1, List.length_map, hm.2,
      h.executed_eq]
  failed _ hm := hm
  abandon _ hm := hm
  supply _ hm := hm
  edit _ hm := hm

/-- The record shows the position, the operands and the call depth of the machine. -/
structure Shows (m : Machine) (record : Record) : Prop where
  pc : record.pc = m.state.pc
  stack : record.stack = m.state.stack.values
  callDepth : record.callDepth = m.state.calls.depth

/-- A turn after which the machine is paused has ended with a pause, and has recorded it last. -/
theorem Turned.shows {o : Option Outcome} (h : Turned m o m') (hm : m.debugger.paused = false)
    (hpaused : m'.debugger.paused = true) :
    ∃ before record, m.entries = before ++ [record] ∧ o = some (.paused record) ∧
      record.isInstruction = false ∧ m'.Shows record := by
  have hnote : m.noteInstruction.debugger.paused = false := by
    unfold noteInstruction
    dsimp only [Debugger.instructionExecuted]
    split <;> exact hm
  have hentries := h.entries_eq
  have hnot : ∀ {record}, o = some (.paused record) → record.isInstruction = false := by
    rintro record rfl
    exact h.isInstruction_record
  cases h with
  | ended | refused => cases hm.symm.trans hpaused
  | continued | failed | abandoned => cases hnote.symm.trans hpaused
  | paused => exact ⟨_, _, hentries, rfl, hnot rfl, rfl, rfl, rfl⟩
  | suspended hexec _ hrecord =>
      subst hrecord
      have hpc := State.step_escaped_pc hexec.stepped
      exact ⟨_, _, hentries, rfl, hnot rfl, hpc, rfl, rfl⟩

/-- **A machine that is paused stands where the last call has paused**, and that pause is the last
record of the log. -/
theorem logInvariant_paused :
    LogInvariant P m₀ fun _ log last m =>
      m.debugger.paused = true → ∃ before record, log = before ++ [record] ∧
        last = some (.paused record) ∧ record.isInstruction = false ∧ m.Shows record where
  reset := by
    intro hpaused
    cases hpaused
  prepare {_ _ _ _ call} _ _ := by
    intro hpaused
    cases call <;> cases hpaused
  turn {_ log m o m'} _ _ hm h := by
    intro hpaused
    -- a machine that takes turns is not paused, since no call has answered
    have hrunning : m.debugger.paused = false := Bool.eq_false_iff.mpr fun hstill => by
      obtain ⟨_, _, _, hlast, _⟩ := hm hstill
      cases hlast
    obtain ⟨before, record, hentries, hlast, hnot, hshows⟩ := h.shows hrunning hpaused
    exact ⟨log ++ before, record, by rw [hentries, List.append_assoc], hlast, hnot, hshows⟩
  failed _ hm := by
    intro hpaused
    obtain ⟨_, _, _, hlast, _⟩ := hm hpaused
    cases hlast
  abandon _ hm := by
    intro hpaused
    obtain ⟨_, _, _, hlast, _⟩ := hm hpaused
    cases hlast
  supply _ hm := by
    intro hpaused
    obtain ⟨before, record, hlog, hlast, hnot, hshows⟩ := hm hpaused
    exact ⟨before, record, hlog, hlast, hnot, hshows.pc, hshows.stack, hshows.callDepth⟩
  edit e hm := by
    intro hpaused
    obtain ⟨before, record, hlog, hlast, hnot, hshows⟩ :=
      hm ((Debugger.edit_paused _ e).symm.trans hpaused)
    exact ⟨before, record, hlog, hlast, hnot, hshows.pc, hshows.stack, hshows.callDepth⟩

end Invariants

/-! ## The trace -/

/-- **The trace is the end of the log.** Let a reachable machine have come to `m` since the last
start or reset. The trace keeps the last records of the log, as many as its limit allows. If
instructions are traced, the log has one record for each instruction that has been executed, and
these are the first of the run that nobody interrupts, where words come after as many instructions
as they have come here; should no `READ` have found that no word waits, the words may as well come
all in front. And while the machine is paused, its last pause is the record that the last call has
answered with, which shows where the machine stands. -/
theorem Logged.records {P : Machine → Prop} {m₀ : Machine} {arrivals : List Arrival}
    {log : List Record} {last : Option Outcome} (hm : Reachable m)
    (h : Logged P m₀ arrivals log last m) :
    (m.debugger.trace.records <:+ log ∧
      m.debugger.trace.records.length = min m.config.maxTraceLength log.length) ∧
    (m.config.traceInstructions = true →
      (log.filter Record.isInstruction).length = m.state.executed ∧
      (∃ p, RunsOn (fun _ => True) (m₀.uninterrupted.prepare .start) arrivals
        (log.filter Record.isInstruction) p) ∧
      ((arrivals = [] ∨ ∀ p, P p → ¬ p.Starves) → ∀ turns, m.state.executed ≤ turns →
        log.filter Record.isInstruction =
          ((m₀.provideInput (arrivals.flatMap Arrival.words)).uninterrupted.log turns .start).take
            m.state.executed)) ∧
    (m.debugger.paused = true → 1 ≤ m.config.maxTraceLength →
      ∃ record, last = some (.paused record) ∧ m.debugger.lastPause? = some record ∧
        m.Shows record) := by
  have hconfig : m.config = m₀.config := logInvariant_config.logged h
  have htraced := logInvariant_trace.logged h
  have hcapacity : m₀.debugger.trace.capacity = m.config.maxTraceLength := by
    rw [← hm.sized.trace, htraced, Trace.capacity_foldl_push]
    rfl
  refine ⟨?_, fun htrace => ?_, fun hpaused hlength => ?_⟩
  · rw [htraced, ← hcapacity]
    exact Trace.records_foldl_push log m₀.debugger.trace
  · rw [hconfig] at htrace
    have hcount := ((logInvariant_executed htrace).logged h).2
    obtain ⟨-, p, habreast, hruns⟩ := (logInvariant_runsOn htrace).logged h
    refine ⟨hcount, ⟨p, hruns.imp fun _ _ => trivial⟩, fun hfed turns hturns => ?_⟩
    let q : Machine :=
      (m₀.provideInput (arrivals.flatMap Arrival.words)).uninterrupted.prepare .start
    have hinstructions : log.filter Record.isInstruction = entriesOfTurns p.state.executed q := by
      rcases hfed with rfl | hfed
      · show _ = entriesOfTurns _ ((m₀.provideInput []).uninterrupted.prepare .start)
        rw [provideInput_nil]
        exact (hruns.eq_entriesOfTurns (uninterrupted_quiet _) rfl).1
      · have hfront := (hruns.imp fun _ hp => hp hfed).inFront
        exact (hfront.eq_entriesOfTurns (uninterrupted_quiet _) rfl).1
    have hprefix := entriesOfTurns_prefix m.state.executed (turns - m.state.executed) q
    rw [habreast.executed] at hinstructions
    rw [← hinstructions, Nat.add_sub_cancel' hturns] at hprefix
    have htake := List.prefix_iff_eq_take.mp hprefix
    rw [hcount] at htake
    exact htake
  · obtain ⟨before, record, hlog, hlast, hnot, hshows⟩ := logInvariant_paused.logged h hpaused
    have hreason : record.reason ≠ .instruction := by
      simpa [Record.isInstruction] using hnot
    refine ⟨record, hlast, ?_, hshows⟩
    unfold Debugger.lastPause?
    rw [if_pos hpaused, htraced, hlog, List.foldl_append]
    refine Trace.lastPause?_push ?_ hreason
    rw [Trace.capacity_foldl_push]
    exact hcapacity ▸ hlength

/-- `PUSH 7; PRINT; HALT` with a breakpoint before `PRINT` and a step behind it, where instructions
are traced and two records are kept: the pause at the breakpoint has been dropped. -/
theorem Logged.records_two_kept :
    ∃ (m₀ m : Machine) (log : List Record) (record : Record), Reachable m ∧
      Logged (fun _ => True) m₀ [] log (some (.paused record)) m ∧
      log.map Record.reason = [.instruction, .breakpoint 2, .instruction, .step] ∧
      m.debugger.trace.records = log.drop 2 ∧ (log.filter Record.isInstruction).length = 2 ∧
      log.filter Record.isInstruction = (m₀.uninterrupted.log 9 .start).take 2 ∧
      m.debugger.lastPause? = some record ∧ record = ⟨3, some .halt, #[], 0, .step⟩ := by
  let config : Config := { Config.tiny with traceInstructions := true, maxTraceLength := 2 }
  let m₀ : Machine := ((ofConfig config).load #[1, 7, 5, 0]).edit (.setBreakpoint 2)
  let m₁ : Machine := (m₀.drive 2 .start).2
  let m : Machine := (m₁.drive 2 .stepInto).2
  let record : Record := ⟨3, some .halt, #[], 0, .step⟩
  have hcreate : create config = .ok (ofConfig config) := rfl
  have hm₀ : Reachable m₀ := .operate (.create _ hcreate) (.edit _)
  have hm : Reachable m := .operate (.operate hm₀ (.drive 2 .start)) (.drive 2 .stepInto)
  have hstart : m₀.drive 2 .start = (some (.paused ⟨2, some .print, #[7], 0, .breakpoint 2⟩), m₁) :=
    drive_eq_some (by decide +kernel)
  have hstep : m₁.drive 2 .stepInto = (some (.paused record), m) :=
    drive_eq_some (by decide +kernel)
  have hlogged : Logged (fun _ => True) m₀ [] (m₀.log 2 .start ++ m₁.log 2 .stepInto)
      (some (.paused record)) m :=
    .resume (.start (fun _ _ => trivial) hstart) (by decide) (fun _ _ => trivial) hstep
  have hshape : m.config.traceInstructions = true ∧ m.debugger.paused = true ∧
      m.config.maxTraceLength = 2 ∧ m.state.executed = 2 ∧
      (m₀.log 2 .start ++ m₁.log 2 .stepInto).map Record.reason =
        [.instruction, .breakpoint 2, .instruction, .step] := by decide +kernel
  generalize m₀.log 2 .start ++ m₁.log 2 .stepInto = log at hlogged hshape
  generalize m = m at hm hlogged hshape
  obtain ⟨htrace, hpaused, hlength, hexecuted, hreasons⟩ := hshape
  obtain ⟨⟨hsuffix, hkept⟩, hinstructions, hpause⟩ := hlogged.records hm
  have hfour : log.length = 4 := by
    rw [← List.length_map Record.reason, hreasons]
    rfl
  refine ⟨m₀, m, log, record, hm, hlogged, hreasons, ?_, ?_, ?_, ?_, rfl⟩
  · rw [List.suffix_iff_eq_drop.mp hsuffix, hkept, hlength, hfour]
    rfl
  · rw [(hinstructions htrace).1, hexecuted]
  · have hfirst := (hinstructions htrace).2.2 (Or.inl rfl) 9 (by omega)
    rw [hexecuted] at hfirst
    exact hfirst
  · obtain ⟨record', hlast, hrecord, -⟩ := hpause hpaused (by omega)
    cases hlast
    exact hrecord

end Machine

end StackMachine
