import StackMachine.Proofs.Encoding
import StackMachine.Proofs.Execution.Offsets
import StackMachine.Proofs.Machine.Ended
import StackMachine.Proofs.Machine.FirstStop

set_option autoImplicit false

/-! # Where a run has failed

A failure names the position at which the machine stands and the opcode there, and so does the
record of a pause on an exception. There is one exception to this: whatever instruction lets an
exception escape is named `THROW`, although a builtin of the host may have raised it, and then
`CALL_BUILTIN` stands there (`Failure.Names`). A turn that fails names its own instruction
(`Machine.Turned.names`); a failure that is reported later, after a pause or once more, still names
the position at which the machine has stayed (`Machine.Settled.located`).
-/

namespace StackMachine

/-! ## Opcodes of the code -/

/-- The fault is an exception that no handler has received. -/
def Fault.isException : Fault → Bool
  | .uncaughtException _ _ => true
  | _ => false

theorem Fault.Catchable.not_exception {fault : Fault} (h : fault.Catchable) :
    fault.isException = false := by
  cases fault <;> first | rfl | cases h

namespace Program

variable {code : Program} {offset : Nat}

/-- An instruction that lets exceptions escape stands at an offset. -/
def Raises (code : Program) (offset : Nat) : Prop :=
  code.opcodeAt? offset = some .throw ∨ code.opcodeAt? offset = some .callBuiltin

theorem opcodeAt?_of_decode {i : Instruction} (h : code.decode offset = .ok i) :
    code.opcodeAt? offset = some i.opcode := by
  unfold decode at h
  unfold opcodeAt?
  cases hw : code[offset]? with
  | none => rw [hw] at h; cases h
  | some w =>
      rw [hw] at h
      simp only [Option.bind_some] at h ⊢
      cases hop : Opcode.ofWord? w with
      | none => rw [hop] at h; cases h
      | some op =>
          simp only [hop] at h
          cases hform : op.form with
          | plain i' =>
              rw [hform] at h
              cases h
              rw [(Opcode.instruction_of_plain hform).2.1]
          | immediate f =>
              rw [hform] at h
              dsimp only at h
              split at h
              · cases h
              · cases h
                rw [(Opcode.instruction_of_immediate hform _).2.1]

/-- An error of decoding tells the opcode if there is one. -/
theorem opcodeAt?_of_decode_error {e : DecodeError} (h : code.decode offset = .error e) :
    code.opcodeAt? offset =
      match e with
      | .missingOperand op _ => some op
      | .unknownOpcode _ _ | .outOfBounds _ => none := by
  unfold decode at h
  unfold opcodeAt?
  cases hw : code[offset]? with
  | none => rw [hw] at h; cases h; rfl
  | some w =>
      rw [hw] at h
      simp only [Option.bind_some] at h ⊢
      cases hop : Opcode.ofWord? w with
      | none => simp only [hop] at h; cases h; rfl
      | some op =>
          simp only [hop] at h
          split at h
          · cases h
          · split at h
            · cases h; rfl
            · cases h

end Program

/-- What a failure says about the opcode at its position: it names the opcode there, except that an
exception that has escaped is put down to `THROW`. -/
structure Failure.Names (code : Program) (f : Failure) : Prop where
  opcode : f.opcode = if f.fault.isException then some .throw else code.opcodeAt? f.pc
  raises : f.fault.isException = true → code.Raises f.pc

namespace Failure.Names

variable {code : Program} {f : Failure}

theorem of_opcode (hf : f.fault.isException = false) (h : f.opcode = code.opcodeAt? f.pc) :
    f.Names code where
  opcode := by rw [hf]; exact h
  raises hraised := by rw [hf] at hraised; cases hraised

/-- **The wrong opcode is named exactly when an exception has escaped from a builtin.** -/
theorem wrong_iff (h : f.Names code) :
    f.opcode ≠ code.opcodeAt? f.pc ↔
      f.fault.isException = true ∧ code.opcodeAt? f.pc = some .callBuiltin := by
  have hopcode := h.opcode
  constructor
  · intro hwrong
    cases hf : f.fault.isException with
    | false => rw [hf] at hopcode; exact absurd hopcode hwrong
    | true =>
        -- where `THROW` stands the name is right
        rw [hf] at hopcode
        refine ⟨rfl, (h.raises hf).resolve_left fun hthrow => hwrong ?_⟩
        rw [hopcode, hthrow]
        rfl
  · rintro ⟨hf, hcall⟩ hright
    rw [hright, hcall, hf] at hopcode
    cases hopcode

/-- No opcode is named exactly where there is none. -/
theorem unknown_iff (h : f.Names code) :
    f.opcodeName = "?" ↔ code.opcodeAt? f.pc = none := by
  have hname : f.opcodeName = "?" ↔ f.opcode = none := by
    unfold opcodeName
    cases f.opcode with
    | none => exact ⟨fun _ => rfl, fun _ => rfl⟩
    | some op => cases op <;> decide
  rw [hname, h.opcode]
  cases hf : f.fault.isException with
  | false => exact Iff.rfl
  | true => rcases h.raises hf with hop | hop <;> simp [hop]

end Failure.Names

/-! ## Steps that fail -/

namespace State

variable {s s' : State} {env : Environment} {i : Instruction}

theorem fetch_error_opcode {code : Program} {budget : Option Nat} {opcode : Option Opcode}
    {fault : Fault} (h : s.fetch code budget = .error (opcode, fault)) :
    opcode = code.opcodeAt? s.pc ∧ fault.isException = false := by
  unfold fetch at h
  split at h
  · cases h
    exact ⟨rfl, rfl⟩
  · split at h
    · cases h
    all_goals
      next hdecode =>
        cases h
        exact ⟨(Program.opcodeAt?_of_decode_error hdecode).symm, rfl⟩

/-- A fault that ends the run names the instruction that is executed; it is no exception. -/
theorem handle_failed {opcode : Opcode} {fault : Fault} {f : Failure}
    (h : s.handle opcode fault = (.failed f, s')) :
    f.pc = s.pc ∧ s'.pc = s.pc ∧ f.opcode = some opcode ∧ f.fault.isException = false := by
  by_cases hcatch : fault.Catchable
  · rw [handle_of_catchable hcatch] at h
    cases hdeliver : deliver fault.code s with
    | ok answer s₁ =>
        rw [hdeliver] at h
        cases answer with
        | some target => cases h
        | none =>
            obtain ⟨-, rfl⟩ := deliver_eq_none.mp hdeliver
            cases h
            exact ⟨rfl, rfl, rfl, hcatch.not_exception⟩
    | error fault₁ s₁ =>
        rw [hdeliver] at h
        obtain ⟨handler, -, -, rfl, rfl⟩ := deliver_eq_error.mp hdeliver
        cases h
        exact ⟨rfl, rfl, rfl, rfl⟩
  · by_cases hescape : ∃ value trace, fault = .uncaughtException value trace
    · obtain ⟨value, trace, rfl⟩ := hescape
      cases h
    · rw [handle_of_not_catchable hcatch fun value trace he => hescape ⟨value, trace, he⟩] at h
      cases h
      refine ⟨rfl, rfl, rfl, ?_⟩
      cases fault with
      | uncaughtException value trace => exact absurd ⟨value, trace, rfl⟩ hescape
      | _ => rfl

/-- **A step that fails names the instruction and stays there.** -/
theorem step_failed_names {f : Failure} (h : s.step env i = (.failed f, s')) :
    f.pc = s.pc ∧ s'.pc = s.pc ∧ f.opcode = some i.opcode ∧ f.fault.isException = false := by
  cases hx : execute env i s.tick with
  | ok flow s₁ =>
      change execute env i { s with executed := s.executed + 1 } = _ at hx
      rw [step, hx] at h
      cases flow <;> cases h
  | error fault s₁ =>
      rw [step_of_error hx] at h
      have hpc : s₁.pc = s.pc := ((covers_anyBuiltins env).execute_error (fun _ =>
        (covers_anyBuiltins env).input) hx).1.pc
      obtain ⟨hf, hs', hopcode, hfault⟩ := handle_failed h
      exact ⟨hf.trans hpc, hs'.trans hpc, hopcode, hfault⟩

/-- Only `CALL_BUILTIN` depends on the builtins. -/
theorem step_of_builtins (hi : i ≠ .callBuiltin) (builtins : Registry) :
    s.step { env with builtins } i = s.step env i := by
  have hexecute : execute { env with builtins } i = execute env i := by
    cases i with
    | callBuiltin => exact absurd rfl hi
    | _ => rfl
  unfold step
  rw [hexecute]

/-- **An exception escapes from `THROW` or from a builtin**, and the run stays there. -/
theorem step_escaped_raises {e : Escape} (h : s.step env i = (.escaped e, s')) :
    e.pc = s.pc ∧ s'.pc = s.pc ∧ (i = .throw ∨ i = .callBuiltin) := by
  have hpc : e.pc = s.pc ∧ s'.pc = s.pc := by
    cases (covers_anyBuiltins env).stepped h with
    | escaped hcontrol => exact ⟨hcontrol.pc, hcontrol.pc⟩
  refine ⟨hpc.1, hpc.2, ?_⟩
  by_cases hi : i = .callBuiltin
  · exact Or.inr hi
  -- the standard builtins raise no exceptions, and other instructions do not use any
  · rw [← step_of_builtins hi .standard] at h
    have hcovers : Covers { env with builtins := .standard } Bounded Fault.Catchable :=
      covers_bounded (fun _ hf => hf) Registry.standard_obeys
    cases hcovers.stepped h with
    | escaped _ hstop =>
        rcases hstop with hcatch | ⟨target, -, -, htarget⟩ | ⟨hthrow, -⟩
        · cases hcatch
        · cases Environment.target_eq_error htarget
        · exact Or.inl hthrow

end State

/-! ## Turns that fail -/

namespace Machine

variable {last : Option Nat} {m m' p : Machine} {call : DrivingCall} {f : Failure} {e : Escape}
  {record : Record}

/-- The machine stands at the instruction from which an exception has escaped. -/
structure Holds (m : Machine) (e : Escape) : Prop where
  waiting : m.state.escape = some e
  pc : e.pc = m.state.pc
  raises : m.environment.code.Raises e.pc

/-- An instruction that is executed stands at the position. -/
theorem Executes.opcodeAt? {i : Instruction} {event : Event} {s : State}
    (h : m.Executes i event s) : m.environment.code.opcodeAt? m.state.pc = some i.opcode :=
  Program.opcodeAt?_of_decode (State.decode_of_fetch h.fetched)

theorem Executes.raises {i : Instruction} {s : State} (h : m.Executes i (.escaped e) s) :
    e.pc = m.state.pc ∧ s.pc = m.state.pc ∧ m.environment.code.Raises e.pc := by
  obtain ⟨he, hs, hi⟩ := State.step_escaped_raises h.stepped
  refine ⟨he, hs, ?_⟩
  unfold Program.Raises
  rw [he, h.opcodeAt?]
  rcases hi with rfl | rfl
  · exact Or.inl rfl
  · exact Or.inr rfl

/-- Abandoning an exception names the position at which it has escaped. -/
theorem names_abandon {code : Program} {s : State} (h : code.Raises e.pc) :
    (s.abandon e).1.Names code where
  opcode := rfl
  raises _ := h

/-- **A turn that fails names its instruction and stays there.** -/
theorem Turned.names (h : Turned p (some (.failed f)) m') :
    f.pc = p.state.pc ∧ m'.state.pc = p.state.pc ∧ f.Names p.environment.code := by
  cases h with
  | refused _ _ hfetch =>
      obtain ⟨hopcode, hfault⟩ := State.fetch_error_opcode hfetch
      exact ⟨rfl, rfl, .of_opcode hfault hopcode⟩
  | failed hexec =>
      obtain ⟨hf, hs, hopcode, hfault⟩ := State.step_failed_names hexec.stepped
      refine ⟨hf, hs, .of_opcode hfault ?_⟩
      rw [hopcode, hf, hexec.opcodeAt?]
  | abandoned hexec =>
      obtain ⟨he, -, hraises⟩ := hexec.raises
      exact ⟨he, he, names_abandon hraises⟩

/-- **A turn that pauses on an exception names its instruction and stays there.** -/
theorem Turned.holds (h : Turned p (some (.paused record)) m')
    (hreason : record.reason.isBoundary = false) :
    ∃ e, m'.Holds e ∧ e.pc = p.state.pc ∧ record = m'.escapeRecord e := by
  cases h with
  | paused _ hcheck =>
      -- the debugger has only reasons to pause between two instructions
      exact absurd (Debugger.check_isBoundary hcheck) (by simpa [snapshot] using hreason)
  | suspended hexec _ hrecord =>
      obtain ⟨he, hs, hraises⟩ := hexec.raises
      exact ⟨_, ⟨rfl, he.trans hs.symm, hraises⟩, he, hrecord⟩

/-! ## Between two calls -/

/-- The end of the run, or the exception on which the machine is paused, is located where the
machine stands. -/
structure Located (m : Machine) : Prop where
  failure : ∀ f, m.state.failure = some f →
    f.pc = m.state.pc ∧ f.Names m.environment.code
  escape : ∀ e, m.state.escape = some e → m.Holds e

/-- Data and debugger do not matter to where the machine stands. -/
theorem Located.congr (h : m.Located) (hcode : m'.environment.code = m.environment.code)
    (hpc : m'.state.pc = m.state.pc) (hfailure : m'.state.failure = m.state.failure)
    (hescape : m'.state.escape = m.state.escape) : m'.Located where
  failure f hf := by
    rw [hcode, hpc]
    exact h.failure f (hfailure.symm.trans hf)
  escape e he := by
    have hholds := h.escape e (hescape.symm.trans he)
    exact ⟨he, hholds.pc.trans hpc.symm, by rw [hcode]; exact hholds.raises⟩

theorem located_of_clear (h : m.state.Clear) : m.Located where
  failure f hf := by rw [h.failure] at hf; cases hf
  escape e he := by rw [h.escape] at he; cases he

/-- The only failure that the state keeps, if no exception is waiting. -/
theorem located_of_failure (he : m.state.escape = none) (hf : m.state.failure = some f)
    (hpc : f.pc = m.state.pc) (hnames : f.Names m.environment.code) : m.Located where
  failure f' hf' := by
    cases hf.symm.trans hf'
    exact ⟨hpc, hnames⟩
  escape e he' := by rw [he] at he'; cases he'

theorem Holds.located (h : m.Holds e) (hf : m.state.failure = none) : m.Located where
  failure f hf' := by rw [hf] at hf'; cases hf'
  escape e' he' := by
    cases h.waiting.symm.trans he'
    exact h

/-- What the last turn of a call leaves is located. -/
theorem Turned.located {outcome : Outcome} (hclear : p.state.Clear)
    (h : Turned p (some outcome) m') : m'.Located := by
  cases outcome with
  | halted output =>
      cases h with
      | ended => exact located_of_clear ⟨hclear.escape, hclear.failure⟩
  | paused record =>
      cases h with
      | paused => exact located_of_clear ⟨hclear.escape, hclear.failure⟩
      | suspended hexec hpause hrecord =>
          obtain ⟨he, hs, hraises⟩ := hexec.raises
          obtain ⟨-, hfailure, -⟩ := State.step_escaped hexec.stepped
          exact Holds.located ⟨rfl, he.trans hs.symm, hraises⟩ (hfailure.trans hclear.failure)
  | failed f =>
      obtain ⟨hf, hm', hnames⟩ := h.names
      rw [← h.environment] at hnames
      cases h.endMarked hclear rfl with
      | failed he hfailure => exact located_of_failure he hfailure (hf.trans hm'.symm) hnames

/-- Where the failure that a call reports has happened: in the last turn of the call, at the
exception on which the machine was paused, or in an earlier call. -/
inductive FailsAt (m : Machine) (call : DrivingCall) (m' : Machine) (f : Failure) : Prop
  | turn {p : Machine} :
      m.Passes call p → p.turn = (some (.failed f), m') → p.state.pc = f.pc →
      FailsAt m call m' f
  | paused {e : Escape} :
      call ≠ .start → m.state.escape = some e → e.pc = f.pc → m.state.pc = f.pc →
      FailsAt m call m' f
  | before :
      call ≠ .start → m.state.failure = some f → m.state.pc = f.pc → FailsAt m call m' f

/-- **What a call leaves is located, and a failure that it reports is the one that it leaves.** -/
theorem Returns.located {outcome : Outcome} (hm : m.Located) (h : m.Returns call outcome m') :
    m'.Located ∧ ∀ f, outcome = .failed f → m'.state.failure = some f ∧ m.FailsAt call m' f := by
  have hstart : call = .start → (m.prepare call).state.Clear := by
    rintro rfl
    exact ⟨rfl, rfl⟩
  by_cases hclear : (m.prepare call).state.Clear
  · obtain ⟨p, hpasses, hlast⟩ := h.last_turn hclear
    have hturned := turned hlast
    refine ⟨hturned.located hpasses.clear, ?_⟩
    rintro f rfl
    have hpc := hturned.names.1
    cases hturned.endMarked hpasses.clear rfl with
    | failed _ hfailure => exact ⟨hfailure, .turn hpasses hlast hpc.symm⟩
  · -- the call does not start a run, and it fails at once
    have hcall : call ≠ .start := fun hcall => hclear (hstart hcall)
    have hstate : (m.prepare call).state = m.state := prepare_state hcall
    obtain ⟨turns, hdrive⟩ := h
    cases driven hdrive with
    | @abandoned e he =>
        rw [hstate] at he ⊢
        obtain ⟨-, hpc, hraises⟩ := hm.escape e he
        refine ⟨located_of_failure rfl rfl rfl ?_, ?_⟩
        · have henv : (m.prepare call).environment = m.environment := prepare_environment m
          rw [← henv] at hraises
          exact names_abandon hraises
        · rintro _ ⟨⟩
          exact ⟨rfl, .paused hcall he rfl hpc.symm⟩
    | @failed failure hf he =>
        rw [hstate] at hf he
        obtain ⟨hpc, hnames⟩ := hm.failure failure hf
        have hnames' : failure.Names (m.prepare call).environment.code := by
          rw [prepare_environment]
          exact hnames
        refine ⟨located_of_failure ?_ ?_ ?_ hnames', ?_⟩
        · rw [hstate]; exact he
        · rw [hstate]; exact hf
        · rw [hstate]; exact hpc
        · rintro _ ⟨⟩
          exact ⟨by rw [hstate]; exact hf, .before hcall hf hpc.symm⟩
    | proceeded hclear' => exact absurd hclear' hclear

/-- **Between two calls, what has ended or interrupted the run is located.** -/
theorem Settled.located (h : Settled last m) : m.Located := by
  induction h with
  | create => exact located_of_clear ⟨rfl, rfl⟩
  | load => exact located_of_clear ⟨rfl, rfl⟩
  | reset => exact located_of_clear ⟨rfl, rfl⟩
  | register _ _ _ ih => exact ih.congr rfl rfl rfl rfl
  | input _ _ ih => exact ih.congr rfl rfl rfl rfl
  | edit _ _ ih => exact ih.congr rfl rfl rfl rfl
  | @heap _ m _ _ _ hx ih =>
      have hcontrol := (State.bounded_onHeap hx m.state).control
      exact ih.congr rfl hcontrol.pc hcontrol.failure hcontrol.escape
  | start _ hreturns ih => exact (hreturns.located ih).1
  | resume _ _ hreturns ih => exact (hreturns.located ih).1

/-- **A failure names the instruction that failed, unless a builtin has raised an exception.** When
a call fails, the failure gives the position at which the machine stands and at which the failure
has happened. It names the opcode there, and none exactly where there is none; the only wrong name
is `THROW` for an exception that has escaped from `CALL_BUILTIN`. The record of a pause on an
exception likewise gives the position of the instruction from which the exception has escaped, which
is `THROW` or `CALL_BUILTIN`, and names `THROW`. -/
theorem Settled.names_failing_instruction (h : Settled last m) {outcome : Outcome}
    (hreturns : m.Returns call outcome m') :
    (∀ f, outcome = .failed f →
      f.pc = m'.state.pc ∧ m.FailsAt call m' f ∧
        (f.opcodeName = "?" ↔ m.environment.code.opcodeAt? f.pc = none) ∧
        (f.opcode ≠ m.environment.code.opcodeAt? f.pc ↔
          f.fault.isException = true ∧
            m.environment.code.opcodeAt? f.pc = some .callBuiltin) ∧
        (f.fault.isException = true → f.opcode = some .throw)) ∧
    (∀ record, outcome = .paused record → record.reason.isBoundary = false →
      record.pc = m'.state.pc ∧
        (∃ p, m.Passes call p ∧ p.turn = (some (.paused record), m') ∧ p.state.pc = record.pc) ∧
        (∃ value trace, record.reason = .exception value trace ∧
          m'.state.escape = some ⟨value, trace, record.pc⟩) ∧
        record.opcode = some .throw ∧
        (m.environment.code.opcodeAt? record.pc = some .throw ∨
          m.environment.code.opcodeAt? record.pc = some .callBuiltin)) := by
  have henv : m'.environment = m.environment := by
    obtain ⟨turns, hdrive⟩ := hreturns
    exact (drive_setup hdrive).2
  obtain ⟨hlocated, hfails⟩ := hreturns.located h.located
  constructor
  · intro f hf
    obtain ⟨hfailure, hat⟩ := hfails f hf
    obtain ⟨hpc, hnames⟩ := hlocated.failure f hfailure
    rw [henv] at hnames
    refine ⟨hpc, hat, hnames.unknown_iff, hnames.wrong_iff, fun hexception => ?_⟩
    rw [hnames.opcode, if_pos hexception]
  · rintro record rfl hreason
    have hclear : (m.prepare call).state.Clear := by
      obtain ⟨turns, hdrive⟩ := hreturns
      cases driven hdrive with
      | proceeded hclear => exact hclear
    obtain ⟨p, hpasses, hlast⟩ := hreturns.last_turn hclear
    obtain ⟨e, hholds, hpc, rfl⟩ := (turned hlast).holds hreason
    rw [← henv]
    exact ⟨hholds.pc, ⟨p, hpasses, hlast, hpc.symm⟩, ⟨e.value, e.trace, rfl, hholds.waiting⟩, rfl,
      hholds.raises⟩

/-- `PUSH 9; CALL_BUILTIN; HALT`, where the host has registered a builtin that raises `5`: the
failure names `THROW`, although `CALL_BUILTIN` stands at its position. -/
theorem Settled.names_failing_instruction_of_builtin :
    ∃ (m m' : Machine) (f : Failure), Settled none m ∧ m.Returns .start (.failed f) m' ∧
      f.message = "Uncaught exception: 5 at pc 2 (THROW)" ∧ f.pc = m'.state.pc ∧
      f.opcode ≠ m.environment.code.opcodeAt? f.pc := by
  let builtin : Builtin := ⟨"fails", throw (.uncaughtException 5 [])⟩
  let m : Machine := ((ofConfig Config.tiny).load #[1, 9, 27, 0]).registerBuiltin 9 builtin
  have hm : Settled none m := (Settled.create _ create_tiny).register 9 builtin
  have hreturns : m.Returns .start (.failed ⟨2, some .throw, .uncaughtException 5 []⟩) _ :=
    returns_drive 3 (by decide +kernel)
  obtain ⟨hpc, -, -, hwrong, -⟩ := (hm.names_failing_instruction hreturns).1 _ rfl
  exact ⟨m, _, _, hm, hreturns, by decide +kernel, hpc, hwrong.mpr ⟨rfl, by decide +kernel⟩⟩

end Machine

end StackMachine
