import Mathlib.Logic.Relation
import StackMachine.Proofs.Execution.Offsets
import StackMachine.Proofs.Machine.Host

set_option autoImplicit false

/-! # The invariant of a machine

`Machine.Invariant P G m` collects what holds of a machine between any two operations of its
host: the state fits its limits, control stays in `P`, the budget is not exceeded, a fault that
has ended the run is in `G`, and an exception waits only while the machine is paused. A turn keeps
it (`Machine.Keeps.turned`), hence a call does (`Machine.Invariant.drive`), hence every operation
does (`Machine.Invariant.operates`). With all offsets of the code for `P` it holds of every
machine that a host can reach (`Machine.Reachable.invariant`).
-/

namespace StackMachine

namespace Machine

variable {P : Nat → Prop} {G : Fault → Prop} {m m' : Machine}

/-- What every operation keeps. -/
structure Invariant (P : Nat → Prop) (G : Fault → Prop) (m : Machine) : Prop where
  environment : m.environment.Confined P G
  fits : m.state.Fits m.config
  placed : m.state.Placed P
  budget : ∀ limit, m.config.instructionBudget = some limit → m.state.executed ≤ limit
  failure : ∀ failure, m.state.failure = some failure →
    m.state.halted = true ∧ G failure.fault
  escape : ∀ e, m.state.escape = some e →
    m.debugger.paused = true ∧ m.state.halted = false ∧ P e.pc

/-- The invariant in the middle of a call, or once the call has answered. -/
def Keeps (P : Nat → Prop) (G : Fault → Prop) : Option Outcome → Machine → Prop
  | none, m => m.Invariant P G ∧ m.state.Clear
  | some outcome, m => m.Invariant P G ∧ ∀ failure, outcome = .failed failure → G failure.fault

/-! ## Single changes -/

theorem invariant_initial {env : Environment} (henv : env.Confined P G) (config : Config)
    (input : List Word) (debugger : Debugger) :
    Invariant P G ⟨config, env, State.initial config input, debugger⟩ where
  environment := henv
  fits := State.initial_fits config input
  placed := ⟨henv.start, by simp [State.initial], by simp [State.initial]⟩
  budget _ _ := Nat.zero_le _
  failure _ h := by cases h
  escape _ h := by cases h

/-- Emptying a state that fits its limits begins a run. -/
theorem invariant_clear {env : Environment} (henv : env.Confined P G) {config : Config} {s : State}
    (hfits : s.Fits config) (debugger : Debugger) :
    Invariant P G ⟨config, env, s.clear, debugger⟩ := by
  rw [hfits.clear]
  exact invariant_initial henv config s.input debugger

namespace Invariant

/-- While no exception is waiting, the debugger does not matter. -/
theorem withDebugger (h : m.Invariant P G) (he : m.state.escape = none) (debugger : Debugger) :
    Invariant P G { m with debugger } where
  environment := h.environment
  fits := h.fits
  placed := h.placed
  budget := h.budget
  failure := h.failure
  escape e hsome := by
    have hnone : m.state.escape = some e := hsome
    rw [he] at hnone
    cases hnone

/-- A fault ends the run. -/
theorem fail (h : m.Invariant P G) (he : m.state.escape = none) (opcode : Option Opcode)
    {fault : Fault} (hfault : G fault) :
    Invariant P G { m with state := (m.state.fail opcode fault).2 } where
  environment := h.environment
  fits := h.fits.fail opcode fault
  placed := h.placed.congr h.placed.pc rfl rfl
  budget := h.budget
  failure := by
    rintro _ ⟨⟩
    exact ⟨rfl, hfault⟩
  escape e hsome := by
    have hnone : m.state.escape = some e := hsome
    rw [he] at hnone
    cases hnone

/-- An escaped exception ends the run. -/
theorem abandon {config : Config} {env : Environment} {s : State} {debugger : Debugger}
    (henv : env.Confined P G) (hfits : s.Fits config)
    (hbudget : ∀ limit, config.instructionBudget = some limit → s.executed ≤ limit)
    {e : Escape} (he : P e.pc) : Invariant P G ⟨config, env, (s.abandon e).2, debugger⟩ where
  environment := henv
  fits := hfits.abandon e
  placed := ⟨he, fun _ hmem => (by cases hmem), fun _ hmem => (by cases hmem)⟩
  budget := hbudget
  failure := by
    rintro _ ⟨⟩
    exact ⟨rfl, henv.other _ rfl⟩
  escape _ hsome := by cases hsome

end Invariant

/-! ## Turns -/

/-- What an executed instruction keeps. -/
theorem Invariant.executes (h : m.Invariant P G) {i : Instruction} {event : Event} {s : State}
    (hexec : m.Executes i event s) :
    s.Fits m.config ∧ s.Placed P ∧ event.Allowed P G ∧
      ∀ limit, m.config.instructionBudget = some limit → s.executed ≤ limit := by
  have hstepped := h.environment.covers.stepped hexec.stepped
  have hdecode := State.decode_of_fetch hexec.fetched
  obtain ⟨hplaced, hallowed⟩ := h.placed.stepped h.environment hdecode hstepped
  refine ⟨h.fits.stepped hstepped, hplaced, hallowed, fun limit hlimit => ?_⟩
  rw [State.step_executed hexec.stepped]
  exact State.fetch_budget hexec.fetched hlimit

/-- **A turn keeps the invariant.** -/
theorem Keeps.turned {o : Option Outcome} (hm : Keeps P G none m) (h : Turned m o m') :
    Keeps P G o m' := by
  obtain ⟨hinv, hclear⟩ := hm
  cases h with
  | ended hend =>
      refine ⟨⟨hinv.environment, hinv.fits.congr rfl rfl rfl rfl rfl,
        hinv.placed.congr hinv.placed.pc rfl rfl, hinv.budget,
        fun f hf => ⟨rfl, (hinv.failure f hf).2⟩, fun e he => ?_⟩, by simp⟩
      cases hclear.escape.symm.trans he
  | paused => exact ⟨hinv.withDebugger hclear.escape _, by simp⟩
  | refused hrun _ hfetch =>
      have hfault := hinv.environment.refused hinv.placed.pc hrun.inside hfetch
      refine ⟨hinv.fail hclear.escape _ hfault, ?_⟩
      rintro _ ⟨⟩
      exact hfault
  | continued hexec =>
      obtain ⟨hfits, hplaced, -, hbudget⟩ := hinv.executes hexec
      have hclear' := hexec.clear hclear
      exact ⟨⟨hinv.environment, hfits, hplaced, hbudget,
        fun f hf => (by cases hclear'.failure.symm.trans hf),
        fun e he => (by cases hclear'.escape.symm.trans he)⟩, hclear'⟩
  | failed hexec =>
      obtain ⟨hfits, hplaced, hallowed, hbudget⟩ := hinv.executes hexec
      obtain ⟨hescape, hfailure, hhalted⟩ := State.step_failed hexec.stepped
      rw [hclear.escape] at hescape
      refine ⟨⟨hinv.environment, hfits, hplaced, hbudget, fun f hf => ?_,
        fun e he => (by cases hescape.symm.trans he)⟩, ?_⟩
      · cases hfailure.symm.trans hf
        exact ⟨hhalted, hallowed⟩
      · rintro _ ⟨⟩
        exact hallowed
  | suspended hexec _ _ =>
      -- the only turn after which an exception is waiting
      obtain ⟨hfits, hplaced, hallowed, hbudget⟩ := hinv.executes hexec
      obtain ⟨-, hfailure, hhalted⟩ := State.step_escaped hexec.stepped
      rw [hclear.failure] at hfailure
      rw [hexec.running.not_halted] at hhalted
      refine ⟨⟨hinv.environment, hfits.congr rfl rfl rfl rfl rfl,
        hplaced.congr hplaced.pc rfl rfl, hbudget, fun f hf => (by cases hfailure.symm.trans hf),
        ?_⟩, by simp⟩
      rintro _ ⟨⟩
      exact ⟨rfl, hhalted, hallowed⟩
  | abandoned hexec _ =>
      obtain ⟨hfits, -, hallowed, hbudget⟩ := hinv.executes hexec
      refine ⟨.abandon hinv.environment hfits hbudget hallowed, ?_⟩
      rintro _ ⟨⟩
      exact hinv.environment.other _ rfl

/-! ## Calls -/

/-- **A call keeps the invariant**, also when it is cut off, and reports only faults in `G`. -/
theorem Invariant.drive (h : m.Invariant P G) {turns : Nat} {call : DrivingCall}
    {o : Option Outcome} (hd : m.drive turns call = (o, m')) :
    m'.Invariant P G ∧ ∀ failure, o = some (.failed failure) → G failure.fault := by
  -- the turns of a call, if it comes to take any
  have hclear : ∀ {p : Machine}, Keeps P G none p → p.proceed turns = (o, m') →
      m'.Invariant P G ∧ ∀ failure, o = some (.failed failure) → G failure.fault := by
    intro p hp hproceed
    have hm' := proceed_induct Keeps.turned turns hp hproceed
    cases o with
    | none => exact ⟨hm'.1, by simp⟩
    | some outcome => exact ⟨hm'.1, fun failure hf => hm'.2 failure (Option.some.inj hf)⟩
  by_cases hcall : call = .start
  · subst hcall
    rw [drive_of_clear ⟨rfl, rfl⟩] at hd
    exact hclear ⟨invariant_clear h.environment h.fits _, rfl, rfl⟩ hd
  · obtain ⟨debugger, hprepare⟩ : ∃ debugger, m.prepare call = { m with debugger } := by
      cases call with
      | start => exact absurd rfl hcall
      | _ => exact ⟨_, rfl⟩
    cases he : m.state.escape with
    | some e =>
        -- the call abandons the exception, so that none is waiting without a pause
        rw [drive_of_escape (by rw [prepare_state hcall, he]), hprepare] at hd
        cases hd
        refine ⟨.abandon h.environment h.fits h.budget (h.escape e he).2.2, ?_⟩
        rintro _ ⟨⟩
        exact h.environment.other _ rfl
    | none =>
        have hp : (m.prepare call).Invariant P G := by
          rw [hprepare]
          exact h.withDebugger he debugger
        have he' : (m.prepare call).state.escape = none := by rw [prepare_state hcall, he]
        cases hf : m.state.failure with
        | some failure =>
            rw [drive_of_failure he' (by rw [prepare_state hcall, hf])] at hd
            cases hd
            refine ⟨hp, ?_⟩
            rintro _ ⟨⟩
            exact (h.failure failure hf).2
        | none =>
            have hf' : (m.prepare call).state.failure = none := by rw [prepare_state hcall, hf]
            rw [drive_of_clear ⟨he', hf'⟩] at hd
            exact hclear ⟨hp, he', hf'⟩ hd

/-! ## Operations -/

/-- A change of data that stays within bounds keeps the invariant. -/
theorem Invariant.bounded (h : m.Invariant P G) {s : State} (hb : State.Bounded m.state s) :
    Invariant P G { m with state := s } where
  environment := h.environment
  fits := h.fits.bounded hb
  placed := h.placed.bounded hb
  budget limit hlimit := by rw [hb.control.executed]; exact h.budget limit hlimit
  failure f hf := by rw [hb.control.halted]; exact h.failure f (hb.control.failure ▸ hf)
  escape e he := by rw [hb.control.halted]; exact h.escape e (hb.control.escape ▸ he)

/-- **Every operation that keeps the program keeps the invariant.** -/
theorem Invariant.operates (h : m.Invariant P G) (ho : m.Operates m') : m'.Invariant P G := by
  cases ho with
  | drive turns call => exact (h.drive rfl).1
  | reset => exact invariant_clear h.environment h.fits _
  | input words =>
      exact h.bounded ⟨.data m.state .., refl_of _ _, refl_of _ _, refl_of _ _⟩
  | edit e =>
      refine ⟨h.environment, h.fits, h.placed, h.budget, h.failure, fun e' he => ?_⟩
      rw [Machine.edit, Debugger.edit_paused]
      exact h.escape e' he
  | heap hx => exact h.bounded (State.bounded_onHeap hx m.state)

/-! ## Reachable machines -/

/-- Programs of any kind keep the invariant for all offsets of the code. -/
theorem invariant_load (hb : m.environment.builtins.Obeys fun _ => True)
    (hfits : m.state.Fits m.config) (code : Program) :
    Invariant (· ≤ code.size) (fun _ => True) (m.load code) := by
  have henv : Environment.Confined ⟨code, m.environment.builtins⟩ (· ≤ code.size) fun _ => True :=
    Environment.confined_size hb
  exact invariant_clear henv hfits _

/-- **Every machine that a host can reach keeps the invariant.** -/
theorem Reachable.invariant (h : Reachable m) :
    m.Invariant (· ≤ m.environment.code.size) fun _ => True := by
  induction h with
  | @create config m code hcreate =>
      cases create_eq_ok hcreate
      exact invariant_load (Registry.standard_obeys.mono fun _ _ => trivial)
        (State.initial_fits config []) code
  | load code _ ih => exact invariant_load ih.environment.builtins ih.fits code
  | register id _ hbuiltin ih =>
      -- the program is the same, so the offsets are; only the builtins have to be looked at
      have hb := ih.environment.builtins.register id hbuiltin.obeys
      exact ⟨Environment.confined_size hb, ih.fits, ih.placed, ih.budget, ih.failure, ih.escape⟩
  | operate _ ho ih =>
      rw [ho.setup.2]
      exact ih.operates ho

/-- What holds of a machine between any two operations, field by field. -/
structure InBounds (m : Machine) : Prop where
  pc : m.state.pc ≤ m.environment.code.size
  stack : m.state.stack.depth ≤ m.config.maxStackDepth
  calls : m.state.calls.depth ≤ m.config.maxCallDepth
  frames : ∀ n frame, m.state.calls.frames[n]? = some frame →
    frame.base = n * m.config.slotsPerFrame ∧ frame.returnAddress ≤ m.environment.code.size
  nested : m.state.handlers.blocks.toList.Pairwise
    fun outer inner => outer.callDepth ≤ inner.callDepth
  handlers : ∀ handler ∈ m.state.handlers.blocks, handler.callDepth ≤ m.state.calls.depth ∧
    handler.target ≤ m.environment.code.size ∧ handler.stackPointer ≤ m.config.maxStackDepth
  heap : m.state.heap.cursor ≤ m.state.heap.capacity ∧ m.state.heap.capacity = m.config.heapSize
  globals : m.state.memory.globals.size = m.config.globalSlots
  locals : m.state.memory.locals.size = m.config.slotsPerFrame * m.config.maxCallDepth
  budget : ∀ limit, m.config.instructionBudget = some limit → m.state.executed ≤ limit
  failure : m.state.failure.isSome → m.state.halted = true
  escape : m.state.escape.isSome → m.debugger.paused = true ∧ m.state.halted = false

/-- **Every reachable machine is in bounds**, whatever its program, its builtins and the
operations of its host. -/
theorem Reachable.inBounds (h : Reachable m) : m.InBounds := by
  have hinv := h.invariant
  exact
    { pc := hinv.placed.pc
      stack := hinv.fits.stack.depth
      calls := hinv.fits.calls.depth
      frames := fun n frame hframe =>
        ⟨hinv.fits.calls.windows n frame hframe,
          hinv.placed.returns frame (Array.mem_toList_iff.mpr (Array.mem_of_getElem? hframe))⟩
      nested := hinv.fits.nested.sorted
      handlers := fun handler hmem =>
        have hmem := Array.mem_toList_iff.mpr hmem
        ⟨hinv.fits.nested.active handler hmem, hinv.placed.targets handler hmem,
          hinv.fits.pointers handler hmem⟩
      heap := ⟨hinv.fits.heap.cursor, hinv.fits.heap.capacity⟩
      globals := hinv.fits.memory.globals
      locals := hinv.fits.memory.locals
      budget := hinv.budget
      failure := fun hsome => by
        obtain ⟨failure, hf⟩ := Option.isSome_iff_exists.mp hsome
        exact (hinv.failure failure hf).1
      escape := fun hsome => by
        obtain ⟨e, he⟩ := Option.isSome_iff_exists.mp hsome
        exact ⟨(hinv.escape e he).1, (hinv.escape e he).2.1⟩ }

/-- `ENTER_TRY 6; CALL 5; HALT; READ; HALT`, cut off inside the call. -/
theorem Reachable.inBounds_inside_call :
    ∃ m : Machine, Reachable m ∧ m.state.calls.depth = 1 ∧ m.state.handlers.depth = 1 ∧
      m.InBounds := by
  have hm : Reachable (((ofConfig Config.tiny).load #[16, 6, 12, 5, 0, 11, 0]).drive 2 .start).2 :=
    .operate (.create _ create_tiny) (.drive 2 .start)
  exact ⟨_, hm, by decide +kernel, by decide +kernel, hm.inBounds⟩

/-! ## Well-formed programs -/

/-- **Control-flow integrity.** While a well-formed program runs with the standard builtins, the
position, all return addresses and all targets of handlers are boundaries of the program, and no
call ever reports malformed code. -/
theorem controlFlow_boundaries {config : Config} {m₀ : Machine} (hcreate : create config = .ok m₀)
    {code : Program} (hcode : code.WellFormed)
    (h : Relation.ReflTransGen Operates (m₀.load code) m) :
    code.IsBoundary m.state.pc ∧
      (∀ frame ∈ m.state.calls.frames, code.IsBoundary frame.returnAddress) ∧
      (∀ handler ∈ m.state.handlers.blocks, code.IsBoundary handler.target) ∧
      ∀ turns call failure m', m.drive turns call = (some (.failed failure), m') →
        failure.fault.isMalformed = false := by
  have hinv : m.Invariant code.IsBoundary fun fault => fault.isMalformed = false := by
    induction h with
    | refl =>
        cases create_eq_ok hcreate
        have henv : Environment.Confined ⟨code, .standard⟩ code.IsBoundary
            fun fault => fault.isMalformed = false :=
          Environment.confined_boundaries hcode Registry.standard_obeys
        exact invariant_clear henv (State.initial_fits config []) _
    | tail _ ho ih => exact ih.operates ho
  refine ⟨hinv.placed.pc, fun frame hmem => ?_, fun handler hmem => ?_,
    fun turns call failure m' hdrive => (hinv.drive hdrive).2 failure rfl⟩
  · exact hinv.placed.returns frame (Array.mem_toList_iff.mpr hmem)
  · exact hinv.placed.targets handler (Array.mem_toList_iff.mpr hmem)

/-- The same program, cut off inside the call: it stands before `READ`, and the call returns to
`HALT`. -/
theorem controlFlow_boundaries_inside_call :
    ∃ m : Machine, m.state.pc = 5 ∧ m.state.calls.trace 5 = [5, 4] ∧
      Program.IsBoundary #[16, 6, 12, 5, 0, 11, 0] m.state.pc := by
  have hm := controlFlow_boundaries create_tiny
    (by decide +kernel : Program.WellFormed #[16, 6, 12, 5, 0, 11, 0])
    (.single (.drive 2 .start))
  exact ⟨_, by decide +kernel, by decide +kernel, hm.1⟩

end Machine

end StackMachine
