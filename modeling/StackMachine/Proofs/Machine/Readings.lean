import StackMachine.Proofs.Execution.Failing
import StackMachine.Proofs.Machine.Host

set_option autoImplicit false

/-! # What becomes of the input

Only `READ` takes words from the input, one at a time. It puts the word on the operand stack, but if
the stack is full the instruction fails and the word is lost, although a handler may receive the
fault and the run go on. `Machine.readings` lists what a call does with the words that it takes.
A turn takes at most the first word that waits (`Machine.turn_input`), hence the words that a run
has taken and the words that still wait are the words that it was given (`Machine.Reads.accounts`).
-/

namespace StackMachine

/-- What `READ` does with the word that it takes from the input. -/
inductive Reading where
  | pushed (w : Word)
  | lost (w : Word)
  deriving DecidableEq, Repr

namespace Reading

/-- The word that is taken. -/
def word : Reading → Word
  | pushed w | lost w => w

/-- The word that is put on the operand stack, if it is. -/
def pushed? : Reading → Option Word
  | pushed w => some w
  | lost _ => none

/-- The words that are put on the stack are all that are taken if none is lost, and fewer
otherwise. -/
theorem filterMap_pushed?_eq_map_word {readings : List Reading} :
    readings.filterMap pushed? = readings.map word ↔ ∀ w, lost w ∉ readings := by
  induction readings with
  | nil => simp
  | cons r readings ih =>
      cases r with
      | pushed w => simp [pushed?, word, ih]
      | lost w =>
          -- what is left cannot make up for the word
          have hshort : readings.filterMap pushed? ≠ w :: readings.map word := by
            intro heq
            have hlength := List.length_filterMap_le pushed? readings
            rw [heq, List.length_cons, List.length_map] at hlength
            omega
          simp only [List.filterMap_cons, List.map_cons, pushed?, word, hshort, false_iff]
          exact fun hnone => hnone w (List.mem_cons_self ..)

end Reading

/-! ## Instructions -/

namespace State

/-- What `READ` does with a word of the input, if it takes one. A word is lost when it has left the
input although the instruction failed. -/
def reading (env : Environment) (s : State) : Option Reading :=
  match execute env .read s with
  | .ok _ s' => s'.stack.peek?.map .pushed
  | .error _ s' => if s'.input = s.input then none else s.input.head?.map .lost

/-- **`READ` loses its word exactly when the operand stack is full.** -/
theorem reading_eq (env : Environment) (s : State) :
    s.reading env =
      s.input.head?.map
        fun w => if s.stack.depth < s.stack.limit then .pushed w else .lost w := by
  unfold reading
  rw [execute_read]
  cases s.input with
  | nil => simp
  | cons w rest =>
      by_cases hroom : s.stack.depth < s.stack.limit
      · simp [hroom, OperandStack.peek?]
      · have hshort : rest ≠ w :: rest := fun heq => by simpa using congrArg List.length heq
        simp [hroom, hshort]

/-- What `READ` takes is the first word that waits. -/
theorem step_read_input (env : Environment) (s : State) :
    s.input = ((s.tick.reading env).map Reading.word).toList ++ (s.step env .read).2.input := by
  have htake : ((s.tick.reading env).map Reading.word).toList = s.input.head?.toList := by
    rw [reading_eq]
    cases hinput : s.tick.input with
    | nil => rw [show s.input = [] from hinput]; rfl
    | cons w rest =>
        rw [show s.input = w :: rest from hinput]
        simp only [List.head?_cons, Option.map_some]
        split <;> rfl
  have hrest : (s.step env .read).2.input = s.input.tail := by
    refine (step_sameData s env .read).input.trans ?_
    unfold Action.final
    rw [execute_read]
    cases hinput : s.tick.input with
    | nil => rw [show s.input = [] from hinput]; exact hinput
    | cons w rest =>
        rw [show s.input = w :: rest from hinput]
        by_cases hroom : s.tick.stack.depth < s.tick.stack.limit
        · simp only [if_pos hroom, List.tail_cons]
        · simp only [if_neg hroom, List.tail_cons]
  rw [htake, hrest]
  cases s.input <;> rfl

end State

/-! ## Turns and calls -/

namespace Machine

variable {m₀ m : Machine}

/-- The instruction that the next turn executes, if it executes one. -/
def next? (m : Machine) : Option Instruction :=
  if m.state.halted || m.environment.code.size ≤ m.state.pc then none
  else if (m.debugger.check m.state.pc m.state.calls.depth).isSome then none
  else (m.state.fetch m.environment.code m.config.instructionBudget).toOption

theorem next?_eq_some {i : Instruction} : m.next? = some i ↔ m.Dispatches i := by
  unfold next?
  constructor
  · intro h
    split at h
    · cases h
    · next hend =>
        split at h
        · cases h
        · next hcheck =>
            refine ⟨(m.state.running_or_ended m.environment.code).resolve_right hend, ?_, ?_⟩
            · simpa using hcheck
            · cases hfetch : m.state.fetch m.environment.code m.config.instructionBudget with
              | error cause => rw [hfetch] at h; cases h
              | ok i' => rw [hfetch] at h; cases h; rfl
  · intro h
    rw [if_neg h.running.not_ended, h.unchecked, h.fetched]
    rfl

theorem next?_eq_none (h : ∀ i, ¬ m.Dispatches i) : m.next? = none :=
  Option.eq_none_iff_forall_ne_some.mpr fun i hi => h i (next?_eq_some.mp hi)

/-- What the next turn does with a word of the input, if it takes one. -/
def reading (m : Machine) : Option Reading :=
  if m.next? = some .read then m.state.tick.reading m.environment else none

theorem reading_of_dispatches (h : m.Dispatches .read) :
    m.reading = m.state.tick.reading m.environment := if_pos (next?_eq_some.mpr h)

theorem reading_of_not_dispatches (h : ¬ m.Dispatches .read) : m.reading = none :=
  if_neg fun hnext => h (next?_eq_some.mp hnext)

/-- **A turn loses a word exactly when it executes `READ` on a full operand stack.** -/
theorem reading_eq_lost {w : Word} :
    m.reading = some (.lost w) ↔
      m.Dispatches .read ∧ m.state.input.head? = some w ∧
        m.state.stack.limit ≤ m.state.stack.depth := by
  by_cases hread : m.Dispatches .read
  · rw [reading_of_dispatches hread, State.reading_eq]
    show (m.state.input.head?.map fun w =>
      if m.state.stack.depth < m.state.stack.limit then Reading.pushed w else .lost w) = _ ↔ _
    by_cases hroom : m.state.stack.depth < m.state.stack.limit
    · simp [hroom]
    · simp [hread, hroom, Nat.le_of_not_lt hroom]
  · simp [reading_of_not_dispatches hread, hread]

/-- A turn does to the input what the instruction does that it executes. -/
theorem Dispatches.turn_input {i : Instruction} (h : m.Dispatches i) :
    m.turn.2.state.input = (m.state.step m.environment i).2.input := by
  cases hturn : m.turn with
  | mk o m' =>
      have hsame : ∀ {i' event s}, m.Executes i' event s →
          s.input = (m.state.step m.environment i).2.input := by
        intro i' event s h'
        cases h'.fetched.symm.trans h.fetched
        rw [h'.stepped]
      cases turned hturn with
      | ended hend => exact absurd h (not_dispatches_of_ended hend i)
      | paused _ hcheck => exact absurd h (not_dispatches_of_check hcheck i)
      | refused _ _ hfetch => exact absurd h (not_dispatches_of_fetch hfetch i)
      | continued h' => exact hsame h'
      | failed h' => exact hsame h'
      | @suspended _ _ s _ h' => exact (hsame h' : s.input = _)
      | @abandoned _ _ s h' => exact (hsame h' : s.input = _)

/-- A turn that executes nothing leaves the input alone. -/
theorem turn_input_of_idle (h : ∀ i, ¬ m.Dispatches i) : m.turn.2.state.input = m.state.input := by
  cases hturn : m.turn with
  | mk o m' =>
      cases turned hturn with
      | ended => rfl
      | paused => rfl
      | refused => rfl
      | continued h' => exact absurd h'.toDispatches (h _)
      | failed h' => exact absurd h'.toDispatches (h _)
      | suspended h' => exact absurd h'.toDispatches (h _)
      | abandoned h' => exact absurd h'.toDispatches (h _)

/-- **What a turn takes from the input is the first word that waits.** -/
theorem turn_input (m : Machine) :
    m.state.input = (m.reading.map Reading.word).toList ++ m.turn.2.state.input := by
  by_cases hnext : ∃ i, m.Dispatches i
  · obtain ⟨i, hi⟩ := hnext
    rw [hi.turn_input]
    by_cases hread : i = .read
    · subst hread
      rw [reading_of_dispatches hi]
      exact State.step_read_input m.environment m.state
    · have hnot : ¬ m.Dispatches .read := fun h =>
        hread (by cases hi.fetched.symm.trans h.fetched; rfl)
      rw [reading_of_not_dispatches hnot, State.step_input hread]
      rfl
  · have hidle : ∀ i, ¬ m.Dispatches i := fun i hi => hnext ⟨i, hi⟩
    rw [reading_of_not_dispatches (hidle _), turn_input_of_idle hidle]
    rfl

/-- What at most `turns` turns do with the words that they take. -/
def readingsOfTurns : Nat → Machine → List Reading
  | 0, _ => []
  | turns + 1, m =>
    m.reading.toList ++
      match m.turn with
      | (some _, _) => []
      | (none, m') => readingsOfTurns turns m'

/-- What a call with at most `turns` turns does with the words that it takes. -/
def readings (m : Machine) (turns : Nat) (call : DrivingCall) : List Reading :=
  match m.begin call with
  | (some _, _) => []
  | (none, m') => readingsOfTurns turns m'

theorem proceed_input (turns : Nat) (m : Machine) :
    m.state.input =
      (readingsOfTurns turns m).map Reading.word ++ (m.proceed turns).2.state.input := by
  induction turns generalizing m with
  | zero => rfl
  | succ turns ih =>
      have hfirst : m.state.input = m.reading.toList.map Reading.word ++ m.turn.2.state.input := by
        rw [← Option.toList_map]
        exact turn_input m
      rw [proceed_succ, readingsOfTurns, List.map_append, List.append_assoc]
      cases hturn : m.turn with
      | mk o m' =>
          rw [hturn] at hfirst
          cases o with
          | some outcome => exact hfirst
          | none => rw [hfirst, ih m']

/-- Preparing a call, or failing at once, takes nothing from the input. -/
theorem begin_input (m : Machine) (call : DrivingCall) :
    (m.begin call).2.state.input = m.state.input := by
  have hprepare : (m.prepare call).state.input = m.state.input := by cases call <;> rfl
  unfold begin
  cases hescape : (m.prepare call).state.escape <;> simp only [hescape] <;> exact hprepare

/-- **What a call takes from the input are the first words that wait.** -/
theorem drive_input (m : Machine) (turns : Nat) (call : DrivingCall) :
    m.state.input =
      (m.readings turns call).map Reading.word ++ (m.drive turns call).2.state.input := by
  have hbegin := m.begin_input call
  unfold drive readings
  cases hcase : m.begin call with
  | mk failure m' =>
      rw [hcase] at hbegin
      rw [← hbegin]
      cases failure with
      | some failure => rfl
      | none => exact proceed_input turns m'

/-! ## Runs -/

/-- `Reads m₀ supplied readings m`: a run that was started on `m₀` has come to `m`. Since its start
the host has supplied more input, and `READ` has done `readings` with the words that it took. Calls
may be cut off after any number of turns, so `m` can be any boundary between two instructions. -/
inductive Reads (m₀ : Machine) : List Word → List Reading → Machine → Prop
  | start (turns : Nat) : Reads m₀ [] (m₀.readings turns .start) (m₀.drive turns .start).2
  | resume {supplied : List Word} {readings : List Reading} {m : Machine} {call : DrivingCall}
      (turns : Nat) : Reads m₀ supplied readings m → call ≠ .start →
      Reads m₀ supplied (readings ++ m.readings turns call) (m.drive turns call).2
  | supply {supplied : List Word} {readings : List Reading} {m : Machine} (words : List Word) :
      Reads m₀ supplied readings m → Reads m₀ (supplied ++ words) readings (m.provideInput words)
  | edit {supplied : List Word} {readings : List Reading} {m : Machine} (e : Debugger.Edit) :
      Reads m₀ supplied readings m → Reads m₀ supplied readings (m.edit e)

/-- The words taken and the words that wait are the words that the run was given. -/
theorem Reads.words {supplied : List Word} {readings : List Reading}
    (h : Reads m₀ supplied readings m) :
    m₀.state.input ++ supplied = readings.map Reading.word ++ m.state.input := by
  induction h with
  | start turns =>
      rw [List.append_nil]
      exact m₀.drive_input turns .start
  | @resume _ _ m call turns _ _ ih =>
      rw [ih, m.drive_input turns call, List.map_append, List.append_assoc]
  | @supply _ _ m words _ ih =>
      show _ = _ ++ (m.state.input ++ words)
      rw [← List.append_assoc, ih, List.append_assoc]
  | edit e _ ih => exact ih

/-- **All input is accounted for.** At every boundary of a run, the words that it was given are the
words that `READ` has taken, in order, followed by the words that wait. All those taken have been
put on the operand stack unless one was lost, and the next turn loses a word exactly when it
executes `READ` on a full operand stack. -/
theorem Reads.accounts {supplied : List Word} {readings : List Reading}
    (h : Reads m₀ supplied readings m) :
    m₀.state.input ++ supplied = readings.map Reading.word ++ m.state.input ∧
      (m₀.state.input ++ supplied = readings.filterMap Reading.pushed? ++ m.state.input ↔
        ∀ w, Reading.lost w ∉ readings) ∧
      ∀ w, m.reading = some (.lost w) ↔
        m.Dispatches .read ∧ m.state.input.head? = some w ∧
          m.state.stack.limit ≤ m.state.stack.depth := by
  refine ⟨h.words, ?_, fun w => reading_eq_lost⟩
  rw [h.words, List.append_left_inj, eq_comm]
  exact Reading.filterMap_pushed?_eq_map_word

/-- `ENTER_TRY 11; PUSH 0` four times; `READ; DROP; READ; PRINT; HALT`: the first `READ` finds the
operand stack full, and its handler continues with the second word. -/
theorem Reads.accounts_lost_word :
    ∃ m₀ m : Machine, m₀.state.input = [7, 8] ∧ Reads m₀ [] [.lost 7, .pushed 8] m ∧
      m.state.input = [] ∧ m.state.output = #[8] ∧ [7, 8] ≠ [8] ++ m.state.input := by
  let m₀ : Machine := (ofConfig Config.tiny).equip []
    #[16, 11, 1, 0, 1, 0, 1, 0, 1, 0, 11, 32, 11, 5, 0] [7, 8]
  have hreadings : m₀.readings 9 .start = [.lost 7, .pushed 8] := by decide +kernel
  have h : Reads m₀ [] [.lost 7, .pushed 8] (m₀.drive 9 .start).2 := hreadings ▸ .start 9
  obtain ⟨-, hlaw, -⟩ := h.accounts
  exact ⟨m₀, _, rfl, h, by decide +kernel, by decide +kernel,
    fun heq => hlaw.mp heq 7 (List.mem_cons_self ..)⟩

end Machine

end StackMachine
