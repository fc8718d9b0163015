import StackMachine.Proofs.Machine.Readings

set_option autoImplicit false

/-! # The log of a run

The log has a record of each pause and, if instructions are traced, of each instruction that is
executed. A turn adds its entries to the log (`Machine.entries`), and a call those of its turns
(`Machine.log`). `Machine.Logged` is a run together with its log since it was started; what holds
after a reset and is kept by calls, turns, edits and input holds wherever the run has come
(`Machine.LogInvariant.logged`).
-/

namespace StackMachine

/-- The record of an instruction, not of a pause. -/
def Record.isInstruction (r : Record) : Bool := r.reason = .instruction

/-- The record of the pause that a call ended with. -/
def Outcome.record? : Outcome → Option Record
  | .paused record => some record
  | .halted _ | .failed _ => none

/-- Words that a host supplies when so many instructions have been executed. -/
structure Arrival where
  executed : Nat
  words : List Word

namespace Machine

variable {m m' : Machine}

/-! ## Entries -/

/-- What the next turn adds to the log: the instruction that it executes, if instructions are
traced, and the pause that it ends with. -/
def entries (m : Machine) : List Record :=
  (if m.config.traceInstructions && m.next?.isSome then [m.snapshot .instruction] else []) ++
    (m.turn.1.bind Outcome.record?).toList

/-- What at most `turns` turns add to the log. -/
def entriesOfTurns : Nat → Machine → List Record
  | 0, _ => []
  | turns + 1, m =>
    m.entries ++
      match m.turn with
      | (some _, _) => []
      | (none, m') => entriesOfTurns turns m'

/-- What a call with at most `turns` turns adds to the log. -/
def log (m : Machine) (turns : Nat) (call : DrivingCall) : List Record :=
  match m.begin call with
  | (some _, _) => []
  | (none, m') => entriesOfTurns turns m'

namespace Turned

variable {o : Option Outcome}

/-- The instruction that a turn executes comes before the pause that it ends with. -/
theorem entries_eq (h : Turned m o m') :
    m.entries =
      (if m.config.traceInstructions && m.next?.isSome then [m.snapshot .instruction] else []) ++
        (o.bind Outcome.record?).toList := by
  unfold entries
  rw [h.turn]

/-- A turn that pauses, ends or is refused executes nothing. -/
theorem entries_of_idle (h : Turned m o m') (hidle : ∀ i, ¬ m.Dispatches i) :
    m.entries = (o.bind Outcome.record?).toList := by
  rw [h.entries_eq, next?_eq_none hidle]
  simp

end Turned

/-- A pause is not recorded as an instruction. -/
theorem Turned.isInstruction_record {record : Record} (h : Turned m (some (.paused record)) m') :
    record.isInstruction = false := by
  cases h with
  | @paused reason _ hcheck =>
      have hboundary := Debugger.check_isBoundary hcheck
      cases reason <;> first | rfl | cases hboundary
  | suspended _ _ hrecord =>
      rw [hrecord]
      rfl

/-- The only instruction among the entries of a turn is the one that it executes. -/
theorem Turned.filter_entries {o : Option Outcome} (h : Turned m o m')
    (htrace : m.config.traceInstructions = true) :
    m.entries.filter Record.isInstruction =
      m.next?.toList.map fun _ => m.snapshot .instruction := by
  have hpause : (o.bind Outcome.record?).toList.filter Record.isInstruction = [] := by
    cases o with
    | none => rfl
    | some outcome =>
        cases outcome with
        | paused record => simp [Outcome.record?, h.isInstruction_record]
        | halted | failed => rfl
  rw [h.entries_eq, List.filter_append, hpause, htrace, List.append_nil]
  cases m.next? <;> rfl

/-- The log of turns that are taken up again goes on with the log of the others. -/
theorem entriesOfTurns_add {turns : Nat} (h : m.proceed turns = (none, m')) (more : Nat) :
    entriesOfTurns (turns + more) m = entriesOfTurns turns m ++ entriesOfTurns more m' := by
  induction turns generalizing m with
  | zero =>
      cases h
      rw [Nat.zero_add]
      rfl
  | succ turns ih =>
      rw [proceed_succ] at h
      rw [Nat.succ_add, entriesOfTurns, entriesOfTurns]
      cases hturn : m.turn with
      | mk o m₁ =>
          rw [hturn] at h
          cases o with
          | some outcome => cases h
          | none =>
              dsimp only
              rw [ih h, List.append_assoc]

/-- More turns only add to the log. -/
theorem entriesOfTurns_prefix (turns more : Nat) (m : Machine) :
    entriesOfTurns turns m <+: entriesOfTurns (turns + more) m := by
  induction turns generalizing m with
  | zero => exact List.nil_prefix
  | succ turns ih =>
      rw [Nat.succ_add, entriesOfTurns, entriesOfTurns, List.prefix_append_right_inj]
      cases m.turn with
      | mk o m₁ =>
          cases o with
          | some outcome => exact List.prefix_rfl
          | none => exact ih m₁

/-! ## Runs with their logs -/

/-- `Logged P m₀ arrivals log last m`: since a run was started on `m₀`, or `m₀` was reset, its host
has supplied the words of `arrivals` and made edits and calls, and has come to `m`. The last call
has answered with `last`, and `log` is what they all have added to the log. They have only passed
machines that `P` holds of. -/
inductive Logged (P : Machine → Prop) (m₀ : Machine) :
    List Arrival → List Record → Option Outcome → Machine → Prop
  | reset : Logged P m₀ [] [] none m₀.reset
  | start {m : Machine} {outcome : Outcome} {turns : Nat} : (∀ p, m₀.Passes .start p → P p) →
      m₀.drive turns .start = (some outcome, m) →
      Logged P m₀ [] (m₀.log turns .start) (some outcome) m
  | resume {arrivals : List Arrival} {log : List Record} {last : Option Outcome} {m m' : Machine}
      {call : DrivingCall} {outcome : Outcome} {turns : Nat} : Logged P m₀ arrivals log last m →
      call ≠ .start → (∀ p, m.Passes call p → P p) → m.drive turns call = (some outcome, m') →
      Logged P m₀ arrivals (log ++ m.log turns call) (some outcome) m'
  | supply {arrivals : List Arrival} {log : List Record} {last : Option Outcome} {m : Machine}
      (words : List Word) : Logged P m₀ arrivals log last m →
      Logged P m₀ (arrivals ++ [⟨m.state.executed, words⟩]) log last (m.provideInput words)
  | edit {arrivals : List Arrival} {log : List Record} {last : Option Outcome} {m : Machine}
      (e : Debugger.Edit) : Logged P m₀ arrivals log last m →
      Logged P m₀ arrivals log last (m.edit e)

/-- A condition that holds after a reset and is kept by all that follows it. While a call takes
turns, there is no last outcome. -/
structure LogInvariant (P : Machine → Prop) (m₀ : Machine)
    (Q : List Arrival → List Record → Option Outcome → Machine → Prop) : Prop where
  reset : Q [] [] none m₀.reset
  prepare : ∀ {arrivals log last m call}, call ≠ DrivingCall.start → Q arrivals log last m →
    Q arrivals log none (m.prepare call)
  turn : ∀ {arrivals log m o m'}, P m → m.state.Clear → Q arrivals log none m → Turned m o m' →
    Q arrivals (log ++ m.entries) o m'
  failed : ∀ {arrivals log m failure}, m.state.failure = some failure → Q arrivals log none m →
    Q arrivals log (some (.failed failure)) m
  abandon : ∀ {arrivals log m} (e : Escape), Q arrivals log none m →
    Q arrivals log (some (.failed (m.state.abandon e).1)) { m with state := (m.state.abandon e).2 }
  supply : ∀ {arrivals log last m} (words : List Word), Q arrivals log last m →
    Q (arrivals ++ [⟨m.state.executed, words⟩]) log last (m.provideInput words)
  edit : ∀ {arrivals log last m} (e : Debugger.Edit), Q arrivals log last m →
    Q arrivals log last (m.edit e)

/-- A call that starts a run is a call that resumes it after a reset. -/
theorem prepare_start (m : Machine) : m.prepare .start = m.reset.prepare .resume := rfl

namespace LogInvariant

variable {P : Machine → Prop} {m₀ : Machine}
  {Q : List Arrival → List Record → Option Outcome → Machine → Prop} {arrivals : List Arrival}
  {log : List Record} {last o : Option Outcome} {turns : Nat} {call : DrivingCall}

theorem proceed (h : LogInvariant P m₀ Q) (hP : ∀ before p, m.proceed before = (none, p) → P p)
    (hclear : m.state.Clear) (hm : Q arrivals log none m) (hproceed : m.proceed turns = (o, m')) :
    Q arrivals (log ++ entriesOfTurns turns m) o m' := by
  induction turns generalizing m log with
  | zero =>
      cases hproceed
      rw [entriesOfTurns, List.append_nil]
      exact hm
  | succ turns ih =>
      rw [proceed_succ] at hproceed
      rw [entriesOfTurns]
      cases hturn : m.turn with
      | mk o₁ m₁ =>
          rw [hturn] at hproceed
          have hfirst := h.turn (hP 0 m rfl) hclear hm (turned hturn)
          cases o₁ with
          | some outcome =>
              cases hproceed
              rw [List.append_nil]
              exact hfirst
          | none =>
              have hclear₁ : m₁.state.Clear := by
                cases turned hturn with
                | continued hexec => exact hexec.clear hclear
              rw [← List.append_assoc]
              refine ih (fun before p hp => hP (before + 1) p ?_) hclear₁ hfirst hproceed
              rw [proceed_succ, hturn]
              exact hp

/-- A call keeps the condition if it held when the call was prepared. -/
theorem drive (h : LogInvariant P m₀ Q) (hP : ∀ p, m.Passes call p → P p)
    (hm : Q arrivals log none (m.prepare call)) (hdrive : m.drive turns call = (o, m')) :
    Q arrivals (log ++ m.log turns call) o m' := by
  unfold Machine.log begin
  cases driven hdrive with
  | abandoned hescape =>
      simp only [hescape, List.append_nil]
      exact h.abandon _ hm
  | failed hfailure hescape =>
      simp only [hescape, hfailure, List.append_nil]
      exact h.failed hfailure hm
  | proceeded hclear hproceed =>
      simp only [hclear.escape, hclear.failure]
      refine h.proceed (fun before p hp => hP p ⟨before, ?_⟩) hclear hm hproceed
      rw [drive_of_clear hclear, hp]

/-- **The condition holds wherever a run has come.** -/
theorem logged (h : LogInvariant P m₀ Q) (hm : Logged P m₀ arrivals log last m) :
    Q arrivals log last m := by
  induction hm with
  | reset => exact h.reset
  | start hP hdrive =>
      have hprepare : Q [] [] none (m₀.prepare .start) := by
        rw [prepare_start]
        exact h.prepare (by decide) h.reset
      exact h.drive hP hprepare hdrive
  | resume _ hcall hP hdrive ih => exact h.drive hP (h.prepare hcall ih) hdrive
  | supply words _ ih => exact h.supply words ih
  | edit e _ ih => exact h.edit e ih

end LogInvariant

end Machine

end StackMachine
