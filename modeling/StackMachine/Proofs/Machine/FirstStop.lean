import Mathlib.Order.Bounds.Defs
import StackMachine.Proofs.Machine.Host

set_option autoImplicit false

/-! # Where a call pauses

A call that resumes a run passes the boundaries that the run without a debugger passes, and it
pauses at the first one that an enabled breakpoint or the call itself asks for
(`Machine.Settled.pauses_at_first_boundary`). Between two calls the debugger knows where the last
pause was and runs freely (`Machine.Settled.rests`); in the middle of a call it also knows
whether an instruction has been executed (`Machine.Midway`). Its decision depends on nothing
else, so it can be read off the boundary (`Machine.Midway.check_of_qualifies`,
`Machine.Midway.check_of_not`).
-/

namespace StackMachine

/-- Where the machine stood when the call paused it. -/
def Outcome.pausedAt? : Outcome → Option Nat
  | .paused record => some record.pc
  | .halted _ | .failed _ => none

/-- What a call that was made at call depth `start` asks of the depth at which it pauses. -/
def DrivingCall.Wants (call : DrivingCall) (start depth : Nat) : Prop :=
  match call with
  | .start | .resume | .proceed => False
  | .stepInto => True
  | .stepOver => depth ≤ start
  | .stepOut => depth < start

/-- The step mode of a call is done where the call asks for a pause. -/
theorem DrivingCall.isDone_mode? (call : DrivingCall) (start depth : Nat) :
    ((call.mode? start).getD .run).isDone depth = true ↔ call.Wants start depth := by
  cases call <;> simp [DrivingCall.mode?, DrivingCall.Wants, StepMode.isDone]

namespace Machine

/-! ## Between two calls -/

/-- `Settled last m`: the host has led a new machine to `m` and no call is under way. `last` is
where the last pause of the current run was, if there was one. -/
inductive Settled : Option Nat → Machine → Prop
  | create {config : Config} {m : Machine} (code : Program) :
      create config = .ok m → Settled none (m.load code)
  | load {last : Option Nat} {m : Machine} (code : Program) :
      Settled last m → Settled none (m.load code)
  | reset {last : Option Nat} {m : Machine} : Settled last m → Settled none m.reset
  | register {last : Option Nat} {m : Machine} (id : Word) (builtin : Builtin) :
      Settled last m → Settled last (m.registerBuiltin id builtin)
  | input {last : Option Nat} {m : Machine} (words : List Word) :
      Settled last m → Settled last (m.provideInput words)
  | edit {last : Option Nat} {m : Machine} (e : Debugger.Edit) :
      Settled last m → Settled last (m.edit e)
  | heap {last : Option Nat} {m : Machine} {α : Type} {x : Action Heap α} :
      Settled last m → Heap.Primitive x →
      Settled last { m with state := (State.onHeap x).final m.state }
  | start {last : Option Nat} {m m' : Machine} {outcome : Outcome} :
      Settled last m → m.Returns .start outcome m' → Settled outcome.pausedAt? m'
  | resume {last : Option Nat} {m m' : Machine} {call : DrivingCall} {outcome : Outcome} :
      Settled last m → call ≠ .start → m.Returns call outcome m' →
      Settled (outcome.pausedAt?.or last) m'

/-- What the debugger knows between two calls. -/
structure Rests (last : Option Nat) (m : Machine) : Prop where
  pausedAt : m.debugger.pausedAt = last
  mode : m.state.halted = false → m.debugger.mode = .run
  failure : m.state.failure ≠ none → m.state.halted = true

section Rests

variable {last : Option Nat} {m m' : Machine}

/-- What is known in the middle of a call, and once it has answered. -/
def Keeping (last : Option Nat) : Option Outcome → Machine → Prop
  | none, m => m.debugger.pausedAt = last ∧ (m.state.failure ≠ none → m.state.halted = true)
  | some outcome, m => Rests (outcome.pausedAt?.or last) m

theorem Keeping.turned {o : Option Outcome} (hm : Keeping last none m) (h : Turned m o m') :
    Keeping last o m' := by
  obtain ⟨hat, hfailure⟩ := hm
  -- an instruction is executed only in a run that has not failed
  have hclean : ∀ {i event s}, m.Executes i event s → m.state.failure = none := by
    intro i event s hexec
    cases hf : m.state.failure with
    | none => rfl
    | some failure =>
        have hhalted := hfailure (by simp [hf])
        rw [hexec.running.not_halted] at hhalted
        cases hhalted
  cases h with
  | ended => exact ⟨hat, fun h => (by cases h), fun _ => rfl⟩
  | paused => exact ⟨rfl, fun _ => rfl, hfailure⟩
  | refused => exact ⟨hat, fun h => (by cases h), fun _ => rfl⟩
  | continued hexec =>
      refine ⟨(noteInstruction_pausedAt m).trans hat, fun hf => ?_⟩
      exact absurd ((State.step_continued hexec.stepped).2.trans (hclean hexec)) hf
  | failed hexec =>
      have hhalted := (State.step_failed hexec.stepped).2.2
      refine ⟨(noteInstruction_pausedAt m).trans hat, fun h => ?_, fun _ => hhalted⟩
      cases hhalted.symm.trans h
  | suspended hexec =>
      refine ⟨rfl, fun _ => rfl, fun hf => ?_⟩
      exact absurd ((State.step_escaped hexec.stepped).2.1.trans (hclean hexec)) hf
  | abandoned =>
      exact ⟨(noteInstruction_pausedAt m).trans hat, fun h => (by cases h), fun _ => rfl⟩

theorem Rests.resume (hm : Rests last m) {call : DrivingCall} (hcall : call ≠ .start)
    {outcome : Outcome} (h : m.Returns call outcome m') :
    Rests (outcome.pausedAt?.or last) m' := by
  obtain ⟨turns, hdrive⟩ := h
  have hstate : (m.prepare call).state = m.state := prepare_state hcall
  have hat : (m.prepare call).debugger.pausedAt = last := (prepare_pausedAt hcall).trans hm.pausedAt
  cases driven hdrive with
  | abandoned => exact ⟨hat, fun h => (by cases h), fun _ => rfl⟩
  | failed hf =>
      have hhalted : (m.prepare call).state.halted = true := by
        rw [hstate] at hf ⊢
        exact hm.failure (by simp [hf])
      refine ⟨hat, fun h => ?_, fun _ => hhalted⟩
      cases hhalted.symm.trans h
  | proceeded _ hproceed =>
      have hbegin : Keeping last none (m.prepare call) := by
        refine ⟨hat, ?_⟩
        rw [hstate]
        exact hm.failure
      exact proceed_induct Keeping.turned turns hbegin hproceed

theorem rests_clear {config : Config} {env : Environment} {s : State} {debugger : Debugger} :
    Rests none ⟨config, env, s.clear, debugger.reset⟩ :=
  ⟨rfl, fun _ => rfl, fun hf => absurd rfl hf⟩

/-- **Between two calls the debugger knows the last pause, and a run that can go on is in no step
mode.** -/
theorem Settled.rests (h : Settled last m) : Rests last m := by
  induction h with
  | create => exact rests_clear
  | load => exact rests_clear
  | reset => exact rests_clear
  | register _ _ _ ih => exact ⟨ih.pausedAt, ih.mode, ih.failure⟩
  | input _ _ ih => exact ⟨ih.pausedAt, ih.mode, ih.failure⟩
  | edit e _ ih =>
      refine ⟨(Debugger.edit_pausedAt _ e).trans ih.pausedAt, fun h => ?_, ih.failure⟩
      exact (Debugger.edit_mode _ e).trans (ih.mode h)
  | @heap _ m _ _ _ hx ih =>
      have hcontrol := (State.bounded_onHeap hx m.state).control
      refine ⟨ih.pausedAt, fun h => ih.mode (hcontrol.halted ▸ h), fun hf => ?_⟩
      rw [hcontrol.halted]
      exact ih.failure (hcontrol.failure ▸ hf)
  | @start _ m _ outcome _ hreturns =>
      obtain ⟨turns, hdrive⟩ := hreturns
      rw [drive_of_clear ⟨rfl, rfl⟩] at hdrive
      have hbegin : Keeping none none (m.prepare .start) := ⟨rfl, fun hf => absurd rfl hf⟩
      have hend := proceed_induct Keeping.turned turns hbegin hdrive
      rw [← Option.or_none (o := outcome.pausedAt?)]
      exact hend
  | resume _ hcall hreturns ih => exact ih.resume hcall hreturns

end Rests

/-! ## Boundaries -/

/-- The run without a debugger that goes on from `m` passes state `s` after `k` instructions. -/
def Visits (m : Machine) (k : Nat) (s : State) : Prop :=
  m.state.run m.environment m.config.instructionBudget k = (none, s)

/-- A call on `m` is to pause in state `s` after `k` instructions: an enabled breakpoint is there,
unless it is where the last pause was and no instruction has been executed since, or the call asks
for a pause there. -/
def Qualifies (m : Machine) (call : DrivingCall) (last : Option Nat) (k : Nat) (s : State) : Prop :=
  (m.debugger.breakpoints.isActive s.pc = true ∧ (1 ≤ k ∨ last ≠ some s.pc)) ∨
    (1 ≤ k ∧ call.Wants m.state.calls.depth s.calls.depth)

/-- The record of a pause in state `s`. -/
def pauseRecord (m : Machine) (s : State) : Record where
  pc := s.pc
  opcode := m.environment.code.opcodeAt? s.pc
  stack := s.stack.values
  callDepth := s.calls.depth
  reason := if m.debugger.breakpoints.isActive s.pc then .breakpoint s.pc else .step

/-- In the middle of `call` on `m`, after `k` instructions. -/
structure Midway (m : Machine) (call : DrivingCall) (k : Nat) (p : Machine) : Prop where
  config : p.config = m.config
  environment : p.environment = m.environment
  visits : m.Visits k p.state
  breakpoints : p.debugger.breakpoints = m.debugger.breakpoints
  mode : p.debugger.mode = (call.mode? m.state.calls.depth).getD .run
  moved : p.debugger.moved = decide (1 ≤ k)
  pausedAt : p.debugger.pausedAt = m.debugger.pausedAt

namespace Midway

variable {m p p' : Machine} {call : DrivingCall} {k : Nat}

theorem prepare (hcall : call ≠ .start) (hmode : call = .resume → m.debugger.mode = .run) :
    Midway m call 0 (m.prepare call) := by
  cases call with
  | start => exact absurd rfl hcall
  | resume => exact ⟨rfl, rfl, rfl, rfl, hmode rfl, rfl, rfl⟩
  | proceed => exact ⟨rfl, rfl, rfl, rfl, rfl, rfl, rfl⟩
  | stepInto => exact ⟨rfl, rfl, rfl, rfl, rfl, rfl, rfl⟩
  | stepOver => exact ⟨rfl, rfl, rfl, rfl, rfl, rfl, rfl⟩
  | stepOut => exact ⟨rfl, rfl, rfl, rfl, rfl, rfl, rfl⟩

/-- A turn without an outcome leads to the next boundary. -/
theorem turned (h : Midway m call k p) (hturn : Turned p none p') : Midway m call (k + 1) p' := by
  have hvisits : m.Visits (k + 1) p'.state := by
    have hrun : m.state.run m.environment m.config.instructionBudget k = (none, p.state) := h.visits
    have hadvance := hturn.advance (by simp)
    rw [h.environment, h.config] at hadvance
    rw [Visits, State.run_add hrun]
    exact State.run_succ_of_none hadvance
  cases hturn with
  | continued =>
      exact
        { config := h.config
          environment := h.environment
          visits := hvisits
          breakpoints := (noteInstruction_breakpoints p).trans h.breakpoints
          mode := (noteInstruction_mode p).trans h.mode
          moved := by simp
          pausedAt := (noteInstruction_pausedAt p).trans h.pausedAt }

/-- The step mode asks for a pause where the call does, once an instruction has been executed. -/
theorem stepDone_iff (h : Midway m call k p) :
    (p.debugger.moved && p.debugger.mode.isDone p.state.calls.depth) = true ↔
      1 ≤ k ∧ call.Wants m.state.calls.depth p.state.calls.depth := by
  rw [Bool.and_eq_true, h.moved, decide_eq_true_iff, h.mode, DrivingCall.isDone_mode?]

/-- The breakpoint at the last pause is passed over as long as no instruction has been
executed. -/
theorem notPassedOver_iff (h : Midway m call k p) :
    (!(!p.debugger.moved && decide (p.debugger.pausedAt = some p.state.pc))) = true ↔
      1 ≤ k ∨ m.debugger.pausedAt ≠ some p.state.pc := by
  rw [h.moved, h.pausedAt]
  by_cases hk : 1 ≤ k <;> simp [hk]

/-- **The debugger pauses a call at a boundary that qualifies**, and at a breakpoint for that
reason. -/
theorem check_of_qualifies (h : Midway m call k p)
    (hq : m.Qualifies call m.debugger.pausedAt k p.state) :
    p.debugger.check p.state.pc p.state.calls.depth = some (m.pauseRecord p.state).reason := by
  unfold Debugger.check pauseRecord
  rw [h.breakpoints]
  by_cases hactive : m.debugger.breakpoints.isActive p.state.pc = true
  · -- a boundary that the call asks for is behind an instruction, so its breakpoint counts
    have hcounts : 1 ≤ k ∨ m.debugger.pausedAt ≠ some p.state.pc :=
      hq.elim And.right fun hwants => Or.inl hwants.1
    simp only [h.notPassedOver_iff.mpr hcounts, hactive, Bool.and_self, if_true]
  · have hdone := h.stepDone_iff.mpr (hq.resolve_left fun hbreak => hactive hbreak.1)
    simp only [hactive, Bool.and_false, hdone, if_true, Bool.false_eq_true, if_false]

/-- The debugger lets a call pass a boundary that does not qualify. -/
theorem check_of_not (h : Midway m call k p)
    (hq : ¬ m.Qualifies call m.debugger.pausedAt k p.state) :
    p.debugger.check p.state.pc p.state.calls.depth = none := by
  unfold Debugger.check
  rw [h.breakpoints]
  have hbreak : ¬ (!(!p.debugger.moved && decide (p.debugger.pausedAt = some p.state.pc)) &&
      m.debugger.breakpoints.isActive p.state.pc) = true := by
    rw [Bool.and_eq_true, h.notPassedOver_iff]
    exact fun hactive => hq (Or.inl hactive.symm)
  have hdone : ¬ (p.debugger.moved && p.debugger.mode.isDone p.state.calls.depth) = true := by
    rw [h.stepDone_iff]
    exact fun hwants => hq (Or.inr hwants)
  simp only [hbreak, hdone, Bool.false_eq_true, if_false]

theorem snapshot_eq (h : Midway m call k p) :
    p.snapshot (m.pauseRecord p.state).reason = m.pauseRecord p.state := by
  unfold snapshot pauseRecord
  rw [h.environment]

end Midway

/-! ## The first boundary that qualifies -/

/-- A call on `m` pauses in state `s` after `k` instructions: the run is not over there, and it is
the first boundary that qualifies. -/
structure StopsAt (m : Machine) (call : DrivingCall) (last : Option Nat) (k : Nat) (s : State) :
    Prop where
  running : s.Running m.environment.code
  first : IsLeast {j | ∃ s, m.Visits j s ∧ m.Qualifies call last j s} k

section Stops

variable {m m' p : Machine} {call : DrivingCall} {k : Nat} {s : State}

theorem Visits.unique {s' : State} (h : m.Visits k s) (h' : m.Visits k s') : s = s' := by
  have hboth : (none, s) = (none, s') := h.symm.trans h'
  cases hboth
  rfl

/-- The count of instructions tells the boundaries apart. -/
theorem Visits.index_unique {j : Nat} (h : m.Visits k s) (h' : m.Visits j s) : k = j := by
  have hk := State.run_executed h
  have hj := State.run_executed h'
  omega

theorem turn_of_check {reason : Reason} (hrun : p.state.Running p.environment.code)
    (hcheck : p.debugger.check p.state.pc p.state.calls.depth = some reason) :
    p.turn = (some (.paused (p.snapshot reason)),
      { p with debugger := p.debugger.recordPause (p.snapshot reason) }) := by
  unfold turn
  rw [if_neg hrun.not_ended, hcheck]
  rfl

/-- What is known of a call before it pauses, and of its pause. -/
def Approaches (m : Machine) (call : DrivingCall) : Option Outcome → Machine → Prop
  | none, p => ∃ k, Midway m call k p ∧
      ∀ j < k, ∀ s, m.Visits j s → ¬ m.Qualifies call m.debugger.pausedAt j s
  | some outcome, m' => ∀ record, outcome = .paused record → record.reason.isBoundary = true →
      record = m.pauseRecord m'.state ∧
        ∃ k, m.Visits k m'.state ∧ m.StopsAt call m.debugger.pausedAt k m'.state

theorem Approaches.turned {o : Option Outcome} {p' : Machine} (hp : Approaches m call none p)
    (h : Turned p o p') : Approaches m call o p' := by
  obtain ⟨k, hmid, hbefore⟩ := hp
  cases h with
  | ended => intro record hrecord; cases hrecord
  | @paused reason hrun hcheck =>
      -- the debugger would have let the call pass if the boundary did not qualify
      have hq : m.Qualifies call m.debugger.pausedAt k p.state := by
        refine Classical.byContradiction fun hnot => ?_
        rw [hmid.check_of_not hnot] at hcheck
        cases hcheck
      have hreason : (m.pauseRecord p.state).reason = reason := by
        rw [hmid.check_of_qualifies hq] at hcheck
        exact Option.some.inj hcheck
      intro record hrecord _
      cases hrecord
      refine ⟨?_, k, hmid.visits, ?_, ⟨_, hmid.visits, hq⟩, ?_⟩
      · rw [← hreason]
        exact hmid.snapshot_eq
      · rw [← hmid.environment]
        exact hrun
      · rintro j ⟨s, hvisits, hj⟩
        exact Nat.le_of_not_lt fun hlt => hbefore j hlt s hvisits hj
  | refused => intro record hrecord; cases hrecord
  | continued hexec =>
      refine ⟨k + 1, hmid.turned (.continued hexec), fun j hj s hvisits hq => ?_⟩
      rcases Nat.lt_succ_iff_lt_or_eq.mp hj with hlt | rfl
      · exact hbefore j hlt s hvisits hq
      · cases hvisits.unique hmid.visits
        have hcheck := hmid.check_of_qualifies hq
        rw [hexec.unchecked] at hcheck
        cases hcheck
  | failed => intro record hrecord; cases hrecord
  | suspended _ _ hescape =>
      intro record hrecord hboundary
      cases hrecord
      rw [hescape] at hboundary
      cases hboundary
  | abandoned => intro record hrecord; cases hrecord

/-- **A call that pauses at a boundary pauses at the first that qualifies.** -/
theorem Returns.stopsAt {record : Record} (h : m.Returns call (.paused record) m')
    (hcall : call ≠ .start) (hmode : call = .resume → m.debugger.mode = .run)
    (hboundary : record.reason.isBoundary = true) :
    record = m.pauseRecord m'.state ∧
      ∃ k, m.Visits k m'.state ∧ m.StopsAt call m.debugger.pausedAt k m'.state := by
  obtain ⟨turns, hdrive⟩ := h
  cases driven hdrive with
  | proceeded _ hproceed =>
      have hbegin : Approaches m call none (m.prepare call) :=
        ⟨0, .prepare hcall hmode, fun j hj => absurd hj (Nat.not_lt_zero j)⟩
      exact proceed_induct Approaches.turned turns hbegin hproceed record rfl hboundary

/-- A turn that the debugger lets pass goes on if the run without a debugger does. -/
theorem Turned.of_advance {o : Option Outcome} {p' : Machine} (h : Turned p o p')
    (hcheck : p.debugger.check p.state.pc p.state.calls.depth = none)
    (hadvance : p.state.advance p.environment p.config.instructionBudget = (none, s)) :
    o = none ∧ p'.state = s := by
  have hpaused : ∀ record, o ≠ some (.paused record) := by
    rintro record rfl
    cases h with
    | paused _ hpause => rw [hcheck] at hpause; cases hpause
    | suspended hexec =>
        rw [State.advance_of_ok hexec.running hexec.fetched, hexec.stepped] at hadvance
        cases hadvance
  have hsame := (h.advance hpaused).symm.trans hadvance
  cases hsame
  exact ⟨rfl, rfl⟩

/-- **A call reaches the first boundary that qualifies**, and pauses there. -/
theorem Midway.proceed {n : Nat} (hmid : Midway m call n p) (rest : Nat)
    (hstop : m.StopsAt call m.debugger.pausedAt (n + rest) s)
    (hrun : p.state.run m.environment m.config.instructionBudget rest = (none, s)) :
    ∃ m', p.proceed (rest + 1) = (some (.paused (m.pauseRecord s)), m') ∧ m'.state = s := by
  induction rest generalizing n p with
  | zero =>
      cases hrun
      obtain ⟨s, hvisits, hq⟩ := hstop.first.1
      cases hvisits.unique hmid.visits
      have hrunning : p.state.Running p.environment.code := by
        rw [hmid.environment]
        exact hstop.running
      rw [proceed_succ, turn_of_check hrunning (hmid.check_of_qualifies hq), hmid.snapshot_eq]
      exact ⟨_, rfl, rfl⟩
  | succ rest ih =>
      obtain ⟨s₁, hadvance, hrest⟩ := State.run_succ_eq_none hrun
      -- the boundary is before the first one that qualifies
      have hnot : ¬ m.Qualifies call m.debugger.pausedAt n p.state := fun hq => by
        have hle := hstop.first.2 ⟨_, hmid.visits, hq⟩
        omega
      cases hcase : p.turn with
      | mk o p₁ =>
          have hturn := Machine.turned hcase
          rw [← hmid.environment, ← hmid.config] at hadvance
          obtain ⟨rfl, rfl⟩ := hturn.of_advance (hmid.check_of_not hnot) hadvance
          rw [proceed_succ, hcase]
          exact ih (hmid.turned hturn) (by rw [Nat.succ_add_eq_add_succ]; exact hstop) hrest

/-- The call answers with a pause at the first boundary that qualifies. -/
theorem Visits.returns (hk : m.Visits k s) (hclear : m.state.Clear) (hcall : call ≠ .start)
    (hmode : call = .resume → m.debugger.mode = .run)
    (hstop : m.StopsAt call m.debugger.pausedAt k s) :
    ∃ m', m.Returns call (.paused (m.pauseRecord s)) m' ∧ m'.state = s := by
  have hstate : (m.prepare call).state = m.state := prepare_state hcall
  have hmid : Midway m call 0 (m.prepare call) := .prepare hcall hmode
  rw [← Nat.zero_add k] at hstop
  obtain ⟨m', hproceed, hm'⟩ := hmid.proceed k hstop (by rw [hstate]; exact hk)
  refine ⟨m', ⟨k + 1, ?_⟩, hm'⟩
  rw [drive_of_clear (hstate ▸ hclear)]
  exact hproceed

end Stops

/-- **A call pauses at the first boundary that asks for it.** Let no call be under way on `m`, and
let its run not be over. A call that resumes it pauses at a boundary `s` of the run without a
debugger exactly when the run is not over there and `s` is the first boundary that qualifies. The
record of such a pause shows the boundary; its reason is the breakpoint there if one is enabled,
and the step otherwise. -/
theorem Settled.pauses_at_first_boundary {last : Option Nat} {m : Machine} (h : Settled last m)
    (hrunning : m.state.halted = false) (hclear : m.state.Clear) {call : DrivingCall}
    (hcall : call ≠ .start) :
    (∀ k s, m.Visits k s →
      ((∃ record m', m.Returns call (.paused record) m' ∧ record.reason.isBoundary = true ∧
          m'.state = s) ↔
        s.Running m.environment.code ∧
          IsLeast {j | ∃ s, m.Visits j s ∧ m.Qualifies call last j s} k)) ∧
    (∀ record m', m.Returns call (.paused record) m' → record.reason.isBoundary = true →
      (∃ k, m.Visits k m'.state) ∧ record.pc = m'.state.pc ∧
        record.opcode = m.environment.code.opcodeAt? m'.state.pc ∧
        record.stack = m'.state.stack.values ∧ record.callDepth = m'.state.calls.depth ∧
        record.reason =
          if m.debugger.breakpoints.isActive m'.state.pc then .breakpoint m'.state.pc
          else .step) := by
  have hrests := h.rests
  have hmode : call = .resume → m.debugger.mode = .run := fun _ => hrests.mode hrunning
  rw [← hrests.pausedAt]
  refine ⟨fun k s hk => ⟨?_, ?_⟩, fun record m' hreturns hboundary => ?_⟩
  · rintro ⟨record, m', hreturns, hboundary, rfl⟩
    obtain ⟨-, j, hj, hstop⟩ := hreturns.stopsAt hcall hmode hboundary
    cases hk.index_unique hj
    exact ⟨hstop.running, hstop.first⟩
  · rintro ⟨hrun, hfirst⟩
    obtain ⟨m', hreturns, hm'⟩ := hk.returns hclear hcall hmode ⟨hrun, hfirst⟩
    refine ⟨_, m', hreturns, ?_, hm'⟩
    unfold pauseRecord
    dsimp only
    split <;> rfl
  · obtain ⟨hrecord, k, hk, -⟩ := hreturns.stopsAt hcall hmode hboundary
    rw [hrecord]
    exact ⟨⟨k, hk⟩, rfl, rfl, rfl, rfl, rfl⟩

/-- The run of `CALL 3; HALT; RET` with a breakpoint at its start, where it has paused. Stepping
over the call passes the breakpoint and stops behind the call. -/
theorem Settled.pauses_at_first_boundary_behind_call :
    ∃ m m' : Machine, m.state.pc = 0 ∧ m.debugger.breakpoints.isActive 0 = true ∧
      m.Returns .stepOver (.paused ⟨2, some .halt, #[], 0, .step⟩) m' ∧
      IsLeast {j | ∃ s, m.Visits j s ∧ m.Qualifies .stepOver (some 0) j s} 2 := by
  let m₀ : Machine := ((ofConfig Config.tiny).load #[12, 3, 0, 13]).edit (.setBreakpoint 0)
  let m : Machine := (m₀.drive 1 .start).2
  have hstart : m₀.Returns .start (.paused ⟨0, some .call, #[], 0, .breakpoint 0⟩) m :=
    returns_drive 1 (by decide +kernel)
  have hsettled : Settled (some 0) m :=
    ((Settled.create _ create_tiny).edit (.setBreakpoint 0)).start hstart
  have hreturns : m.Returns .stepOver (.paused ⟨2, some .halt, #[], 0, .step⟩) _ :=
    returns_drive 3 (by decide +kernel)
  have hvisits : m.Visits 2 (m.drive 3 .stepOver).2.state := by
    unfold Visits
    decide +kernel
  have hfirst := (hsettled.pauses_at_first_boundary (by decide +kernel)
    ⟨by decide +kernel, by decide +kernel⟩ (by decide : DrivingCall.stepOver ≠ .start)).1 2 _
      hvisits
  exact ⟨m, _, by decide +kernel, by decide +kernel, hreturns,
    (hfirst.mp ⟨_, _, hreturns, rfl, rfl⟩).2⟩

end Machine

end StackMachine
