import StackMachine.Proofs.Machine.Invariant

set_option autoImplicit false

/-! # Starting afresh

A call that starts a run first clears what earlier runs have left. Apart from the setup, all that it
keeps of the past are the counts of the breakpoints' hits and the watches, and no turn looks at
those: machines that are alike up to them answer alike (`Machine.Alike.proceed`). Clearing leads
back to the state that the limits determine, since no operation changes the sizes of stacks and
memories, and breakpoints and settings change only as edits change them
(`Machine.Reachable.edited`). So a machine with any history starts a run as a new machine does
(`Machine.Reachable.starts_as_new`).
-/

namespace StackMachine

/-! ## Breakpoints without their counts -/

namespace BreakpointTable

/-- The breakpoints with all counts of hits at zero. -/
def withoutHits (t : BreakpointTable) : BreakpointTable :=
  ⟨t.entries.map fun b => { b with hits := 0 }⟩

variable (t : BreakpointTable) (address : Nat)

theorem find?_withoutHits :
    t.withoutHits.find? address = (t.find? address).map fun b => { b with hits := 0 } := by
  unfold find? withoutHits
  rw [List.find?_map]
  rfl

theorem isActive_withoutHits : t.withoutHits.isActive address = t.isActive address := by
  unfold isActive
  rw [find?_withoutHits]
  cases t.find? address <;> rfl

theorem contains_withoutHits : t.withoutHits.contains address = t.contains address := by
  unfold contains
  rw [find?_withoutHits]
  cases t.find? address <;> rfl

theorem withoutHits_update {f : Breakpoint → Breakpoint}
    (hf : ∀ b, { f b with hits := 0 } = f { b with hits := 0 }) :
    (t.update address f).withoutHits = t.withoutHits.update address f := by
  simp only [withoutHits, update, List.map_map, mk.injEq, List.map_inj_left]
  intro b _
  by_cases hb : b.address = address <;> simp [hb, hf]

theorem withoutHits_insert (entries : List Breakpoint) :
    (insert { address } entries).map (fun b => { b with hits := 0 }) =
      insert { address } (entries.map fun b => { b with hits := 0 }) := by
  induction entries with
  | nil => rfl
  | cons b entries ih =>
      simp only [insert, List.map_cons]
      split
      · rfl
      · rw [List.map_cons, ih]

/-- Counts of hits do not matter when a breakpoint is set. -/
theorem withoutHits_set : (t.set address).withoutHits = t.withoutHits.set address := by
  unfold set
  rw [contains_withoutHits]
  split
  · exact t.withoutHits_update address fun _ => rfl
  · exact congrArg mk (withoutHits_insert address t.entries)

theorem withoutHits_setEnabled (enabled : Bool) :
    (t.setEnabled address enabled).withoutHits = t.withoutHits.setEnabled address enabled :=
  t.withoutHits_update address fun _ => rfl

theorem withoutHits_remove : (t.remove address).withoutHits = t.withoutHits.remove address := by
  unfold withoutHits remove
  rw [List.filter_map]
  rfl

/-- A hit is only counted. -/
theorem withoutHits_recordHit : (t.recordHit address).withoutHits = t.withoutHits := by
  simp only [withoutHits, recordHit, update, List.map_map, mk.injEq, List.map_inj_left]
  intro b _
  by_cases hb : b.address = address <;> simp [hb]

end BreakpointTable

/-! ## Settings -/

namespace Debugger

variable {d d₁ d' : Debugger}

/-- Breakpoints, settings and the length of the trace are the same. -/
structure SameSettings (d d' : Debugger) : Prop where
  breakpoints : d'.breakpoints.withoutHits = d.breakpoints.withoutHits
  pauseOnException : d'.pauseOnException = d.pauseOnException
  capacity : d'.trace.capacity = d.trace.capacity

theorem SameSettings.rfl : SameSettings d d := ⟨.refl _, .refl _, .refl _⟩

theorem SameSettings.trans (h₁ : SameSettings d d₁) (h₂ : SameSettings d₁ d') :
    SameSettings d d' :=
  ⟨h₂.breakpoints.trans h₁.breakpoints, h₂.pauseOnException.trans h₁.pauseOnException,
    h₂.capacity.trans h₁.capacity⟩

/-- The same edit leaves the same settings. -/
theorem SameSettings.edit (h : SameSettings d d') (e : Edit) :
    SameSettings (d.edit e) (d'.edit e) := by
  cases e with
  | setBreakpoint address =>
      refine ⟨?_, h.pauseOnException, h.capacity⟩
      show (d'.breakpoints.set address).withoutHits = (d.breakpoints.set address).withoutHits
      rw [BreakpointTable.withoutHits_set, BreakpointTable.withoutHits_set, h.breakpoints]
  | removeBreakpoint address =>
      refine ⟨?_, h.pauseOnException, h.capacity⟩
      show (d'.breakpoints.remove address).withoutHits = (d.breakpoints.remove address).withoutHits
      rw [BreakpointTable.withoutHits_remove, BreakpointTable.withoutHits_remove, h.breakpoints]
  | enableBreakpoint address enabled =>
      refine ⟨?_, h.pauseOnException, h.capacity⟩
      show (d'.breakpoints.setEnabled address enabled).withoutHits =
        (d.breakpoints.setEnabled address enabled).withoutHits
      rw [BreakpointTable.withoutHits_setEnabled, BreakpointTable.withoutHits_setEnabled,
        h.breakpoints]
  | clearBreakpoints => exact ⟨.refl _, h.pauseOnException, h.capacity⟩
  | addWatch | removeWatch | clearWatches => exact ⟨h.breakpoints, h.pauseOnException, h.capacity⟩
  | pauseOnException enabled => exact ⟨h.breakpoints, .refl _, h.capacity⟩

theorem push_capacity (t : Trace) (r : Record) : (t.push r).capacity = t.capacity := by
  unfold Trace.push
  split <;> rfl

theorem recordPause_sameSettings (d : Debugger) (r : Record) :
    SameSettings d (d.recordPause r) := by
  refine ⟨?_, rfl, push_capacity ..⟩
  unfold recordPause record
  cases r.reason with
  | breakpoint address => exact d.breakpoints.withoutHits_recordHit address
  | step | exception | instruction => rfl

/-- All is the same but counts of hits and watches. -/
structure Alike (d d' : Debugger) : Prop where
  breakpoints : d'.breakpoints.withoutHits = d.breakpoints.withoutHits
  mode : d'.mode = d.mode
  pauseOnException : d'.pauseOnException = d.pauseOnException
  paused : d'.paused = d.paused
  trace : d'.trace = d.trace
  moved : d'.moved = d.moved
  pausedAt : d'.pausedAt = d.pausedAt

namespace Alike

theorem check (h : Alike d d') (pc callDepth : Nat) :
    d'.check pc callDepth = d.check pc callDepth := by
  have hactive : d'.breakpoints.isActive pc = d.breakpoints.isActive pc := by
    rw [← BreakpointTable.isActive_withoutHits, h.breakpoints, BreakpointTable.isActive_withoutHits]
  unfold Debugger.check
  rw [hactive, h.moved, h.pausedAt, h.mode]

theorem record (h : Alike d d') (r : Record) : Alike (d.record r) (d'.record r) :=
  { h with trace := congrArg (·.push r) h.trace }

theorem instructionExecuted (h : Alike d d') :
    Alike d.instructionExecuted d'.instructionExecuted :=
  { h with moved := rfl }

theorem recordPause (h : Alike d d') (r : Record) : Alike (d.recordPause r) (d'.recordPause r) where
  breakpoints := by
    rw [(recordPause_sameSettings d' r).breakpoints, (recordPause_sameSettings d r).breakpoints,
      h.breakpoints]
  mode := rfl
  pauseOnException := h.pauseOnException
  paused := rfl
  trace := congrArg (·.push r) h.trace
  moved := h.moved
  pausedAt := rfl

end Alike

end Debugger

/-! ## Machines that answer alike -/

namespace Machine

variable {m n : Machine}

/-- All is the same but counts of hits and watches. -/
structure Alike (m n : Machine) : Prop where
  config : n.config = m.config
  environment : n.environment = m.environment
  state : n.state = m.state
  debugger : Debugger.Alike m.debugger n.debugger

namespace Alike

/-- Only the debuggers of machines that are alike can differ. -/
theorem eq (h : Alike m n) :
    ∃ d, Debugger.Alike m.debugger d ∧ n = { m with debugger := d } := by
  obtain ⟨config, environment, state, d⟩ := n
  obtain ⟨rfl, rfl, rfl, hd⟩ := h
  exact ⟨d, hd, rfl⟩

/-- Debuggers that are alike make machines that are alike. -/
theorem of_debugger {config : Config} {environment : Environment} {state : State}
    {d d' : Debugger} (h : Debugger.Alike d d') :
    Alike ⟨config, environment, state, d⟩ ⟨config, environment, state, d'⟩ :=
  ⟨rfl, rfl, rfl, h⟩

/-- Machines stay alike when their debuggers take note of an instruction. -/
theorem noteInstruction (h : Alike m n) : Alike m.noteInstruction n.noteInstruction := by
  obtain ⟨d, hd, rfl⟩ := h.eq
  unfold Machine.noteInstruction
  dsimp only
  split
  · exact of_debugger (hd.record _).instructionExecuted
  · exact of_debugger hd.instructionExecuted

theorem execute (h : Alike m n) (i : Instruction) :
    (n.execute i).1 = (m.execute i).1 ∧ Alike (m.execute i).2 (n.execute i).2 := by
  obtain ⟨d, hd, hn⟩ := h.noteInstruction.eq
  unfold Machine.execute
  rw [hn]
  cases hstep : m.noteInstruction.state.step m.noteInstruction.environment i with
  | mk event s =>
      simp only [hstep]
      cases event with
      | continued => exact ⟨rfl, of_debugger hd⟩
      | failed failure => exact ⟨rfl, of_debugger hd⟩
      | escaped e =>
          unfold Machine.escaped
          simp only [hd.pauseOnException]
          split
          · exact ⟨rfl, of_debugger (hd.recordPause _)⟩
          · exact ⟨rfl, of_debugger hd⟩

/-- **A turn of machines that are alike ends alike.** -/
theorem turn (h : Alike m n) : n.turn.1 = m.turn.1 ∧ Alike m.turn.2 n.turn.2 := by
  have hexecute := h.execute
  obtain ⟨d, hd, rfl⟩ := h.eq
  unfold Machine.turn
  simp only [hd.check]
  split
  · exact ⟨rfl, of_debugger hd⟩
  · split
    · exact ⟨rfl, of_debugger (hd.recordPause _)⟩
    · split
      · exact ⟨rfl, of_debugger hd⟩
      · exact hexecute _

/-- **So do any number of turns.** -/
theorem proceed (h : Alike m n) (turns : Nat) :
    (n.proceed turns).1 = (m.proceed turns).1 ∧ Alike (m.proceed turns).2 (n.proceed turns).2 := by
  induction turns generalizing m n with
  | zero => exact ⟨rfl, h⟩
  | succ turns ih =>
      obtain ⟨houtcome, hafter⟩ := h.turn
      rw [proceed_succ, proceed_succ]
      cases hm : m.turn with
      | mk o m₁ =>
          cases hn : n.turn with
          | mk o' n₁ =>
              rw [hm, hn] at houtcome hafter
              cases houtcome
              cases o with
              | some outcome => exact ⟨rfl, hafter⟩
              | none => exact ih hafter

end Alike

/-! ## What operations do to the settings -/

/-- A turn leaves the settings alone. -/
theorem Turned.sameSettings {m' : Machine} {o : Option Outcome} (h : Turned m o m') :
    Debugger.SameSettings m.debugger m'.debugger := by
  have hnote : Debugger.SameSettings m.debugger m.noteInstruction.debugger := by
    unfold noteInstruction
    dsimp only
    split
    · exact ⟨rfl, rfl, Debugger.push_capacity ..⟩
    · exact ⟨rfl, rfl, rfl⟩
  cases h with
  | ended => exact .rfl
  | paused => exact Debugger.recordPause_sameSettings ..
  | refused => exact .rfl
  | continued => exact hnote
  | failed => exact hnote
  | suspended => exact hnote.trans (Debugger.recordPause_sameSettings ..)
  | abandoned => exact hnote

/-- A call leaves the settings alone. -/
theorem drive_sameSettings {m' : Machine} {turns : Nat} {call : DrivingCall} {o : Option Outcome}
    (h : m.drive turns call = (o, m')) : Debugger.SameSettings m.debugger m'.debugger := by
  have hprepare : Debugger.SameSettings m.debugger (m.prepare call).debugger := by
    cases call <;> exact ⟨rfl, rfl, rfl⟩
  cases driven h with
  | abandoned => exact hprepare
  | failed => exact hprepare
  | proceeded _ hproceed =>
      exact proceed_induct (Q := fun _ m₁ => Debugger.SameSettings m.debugger m₁.debugger)
        (fun hm hturn => hm.trans hturn.sameSettings) turns hprepare hproceed

/-- The debugger of a new machine after some edits. -/
def editedDebugger (config : Config) (edits : List Debugger.Edit) : Debugger :=
  edits.foldl Debugger.edit (Debugger.new config.maxTraceLength).reset

/-- **Whatever has happened to a machine, its builtins and settings could have been registered and
edited on a new one.** -/
theorem Reachable.edited (hm : Reachable m) :
    ∃ (builtins : List (Word × Builtin)) (edits : List Debugger.Edit),
      m.environment.builtins =
          builtins.foldl (fun r entry => r.register entry.1 entry.2) .standard ∧
        Debugger.SameSettings (editedDebugger m.config edits) m.debugger := by
  induction hm with
  | create code hcreate =>
      cases create_eq_ok hcreate
      exact ⟨[], [], rfl, .rfl⟩
  | load code _ ih =>
      obtain ⟨builtins, edits, hbuiltins, hsettings⟩ := ih
      exact ⟨builtins, edits, hbuiltins, hsettings.trans ⟨rfl, rfl, rfl⟩⟩
  | @register m id builtin _ _ ih =>
      obtain ⟨builtins, edits, hbuiltins, hsettings⟩ := ih
      refine ⟨builtins ++ [(id, builtin)], edits, ?_, hsettings⟩
      rw [List.foldl_append, ← hbuiltins]
      rfl
  | operate _ ho ih =>
      obtain ⟨builtins, edits, hbuiltins, hsettings⟩ := ih
      rw [ho.setup.1, ho.setup.2]
      -- only an edit adds to the edits; a call may have counted hits, which does not show
      cases ho with
      | drive turns call =>
          exact ⟨builtins, edits, hbuiltins, hsettings.trans (drive_sameSettings rfl)⟩
      | reset => exact ⟨builtins, edits, hbuiltins, hsettings.trans ⟨rfl, rfl, rfl⟩⟩
      | input words => exact ⟨builtins, edits, hbuiltins, hsettings⟩
      | edit e =>
          refine ⟨builtins, edits ++ [e], hbuiltins, ?_⟩
          unfold editedDebugger
          rw [List.foldl_append]
          exact hsettings.edit e
      | heap hx => exact ⟨builtins, edits, hbuiltins, hsettings⟩

/-! ## New machines -/

/-- The machines that have not run yet: those that a host can make from a created one by registering
builtins, loading programs, supplying input and editing, in any order. -/
inductive New : Machine → Prop
  | create {config : Config} {n : Machine} : create config = .ok n → New n
  | register {n : Machine} (id : Word) (builtin : Builtin) :
      New n → New (n.registerBuiltin id builtin)
  | load {n : Machine} (code : Program) : New n → New (n.load code)
  | input {n : Machine} (words : List Word) : New n → New (n.provideInput words)
  | edit {n : Machine} (e : Debugger.Edit) : New n → New (n.edit e)

/-- Limits, program, builtins, waiting input, breakpoints and settings are the same. The
breakpoints may have been hit more or less often. -/
structure SameSetup (m n : Machine) : Prop where
  config : n.config = m.config
  environment : n.environment = m.environment
  input : n.state.input = m.state.input
  breakpoints : n.debugger.breakpoints.withoutHits = m.debugger.breakpoints.withoutHits
  pauseOnException : n.debugger.pauseOnException = m.debugger.pauseOnException

/-- Edits reach the debugger only. -/
theorem foldl_edit (edits : List Debugger.Edit) (m : Machine) :
    edits.foldl edit m = { m with debugger := edits.foldl Debugger.edit m.debugger } := by
  induction edits generalizing m with
  | nil => rfl
  | cons e edits ih =>
      rw [List.foldl_cons, ih]
      rfl

theorem foldl_edit_equip (config : Config) (builtins : List (Word × Builtin)) (code : Program)
    (inputs : List Word) (edits : List Debugger.Edit) :
    edits.foldl edit ((ofConfig config).equip builtins code inputs) =
      { config
        environment :=
          ⟨code, builtins.foldl (fun r entry => r.register entry.1 entry.2) .standard⟩
        state := State.initial config inputs
        debugger := editedDebugger config edits } := by
  rw [foldl_edit, equip_ofConfig]
  rfl

/-- The sizes of a machine's parts are those that its limits ask for. -/
structure Sized (m : Machine) : Prop where
  state : m.state.Fits m.config
  trace : m.debugger.trace.capacity = m.config.maxTraceLength

theorem editedDebugger_capacity (config : Config) (edits : List Debugger.Edit) :
    (editedDebugger config edits).trace.capacity = config.maxTraceLength := by
  have hkeep : ∀ (edits : List Debugger.Edit) (d : Debugger),
      (edits.foldl Debugger.edit d).trace.capacity = d.trace.capacity := by
    intro edits
    induction edits with
    | nil => exact fun d => rfl
    | cons e edits ih =>
        intro d
        rw [List.foldl_cons, ih]
        cases e <;> rfl
  exact hkeep edits _

theorem Reachable.sized (hm : Reachable m) : Sized m := by
  obtain ⟨-, edits, -, hsettings⟩ := hm.edited
  exact ⟨hm.invariant.fits, hsettings.capacity.trans (editedDebugger_capacity m.config edits)⟩

theorem New.sized (hn : New n) : Sized n := by
  induction hn with
  | @create config n hcreate =>
      cases create_eq_ok hcreate
      exact ⟨State.initial_fits config [], rfl⟩
  | register id builtin _ ih => exact ⟨ih.state, ih.trace⟩
  | @load n code _ ih =>
      refine ⟨?_, ih.trace⟩
      show n.state.clear.Fits n.config
      rw [ih.state.clear]
      exact State.initial_fits n.config n.state.input
  | input words _ ih => exact ⟨{ ih.state with }, ih.trace⟩
  | edit e _ ih =>
      refine ⟨ih.state, Eq.trans ?_ ih.trace⟩
      cases e <;> rfl

theorem New.equip (hn : New n) (builtins : List (Word × Builtin)) (code : Program)
    (inputs : List Word) : New (n.equip builtins code inputs) :=
  .input _ (.load _ (List.foldlRecOn builtins _ hn fun _ h _ _ => .register _ _ h))

/-- **Each machine has a new one with the same setup.** -/
theorem Reachable.exists_new (hm : Reachable m) : ∃ n : Machine, New n ∧ SameSetup m n := by
  obtain ⟨builtins, edits, hbuiltins, hsettings⟩ := hm.edited
  have hcreate : New (ofConfig m.config) := .create (create_eq_ok_iff.mpr ⟨hm.usable, rfl⟩)
  have hequip := hcreate.equip builtins m.environment.code m.state.input
  refine ⟨_, List.foldlRecOn edits edit hequip fun _ h e _ => h.edit e, ?_⟩
  rw [foldl_edit_equip, ← hbuiltins]
  exact ⟨rfl, rfl, rfl, hsettings.breakpoints.symm, hsettings.pauseOnException.symm⟩

/-- When they start a run, machines with the same setup have become alike. -/
theorem SameSetup.alike (h : SameSetup m n) (hm : Sized m) (hn : Sized n) :
    Alike (m.prepare .start) (n.prepare .start) where
  config := h.config
  environment := h.environment
  state := by
    -- both are cleared to the state that limits and input determine
    show n.state.clear = m.state.clear
    rw [hm.state.clear, hn.state.clear, h.config, h.input]
  debugger :=
    { breakpoints := h.breakpoints
      mode := rfl
      pauseOnException := h.pauseOnException
      paused := rfl
      trace := by
        have hcapacity : n.debugger.trace.capacity = m.debugger.trace.capacity := by
          rw [hn.trace, hm.trace, h.config]
        exact congrArg (fun capacity => ({ capacity } : Trace)) hcapacity
      moved := rfl
      pausedAt := rfl }

/-- **Earlier runs leave nothing behind.** Started afresh, a machine with any history answers as
each new machine with the same limits, builtins, program, input, breakpoints and settings does,
and leaves the same state, trace and step mode; after any number of turns too. There is such a
machine. -/
theorem Reachable.starts_as_new (hm : Reachable m) :
    (∃ n : Machine, New n ∧ SameSetup m n) ∧
      ∀ n : Machine, New n → SameSetup m n → ∀ turns,
        (n.drive turns .start).1 = (m.drive turns .start).1 ∧
          (n.drive turns .start).2.state = (m.drive turns .start).2.state ∧
          (n.drive turns .start).2.debugger.trace = (m.drive turns .start).2.debugger.trace ∧
          (n.drive turns .start).2.debugger.mode = (m.drive turns .start).2.debugger.mode := by
  refine ⟨hm.exists_new, fun n hn hsetup turns => ?_⟩
  obtain ⟨houtcome, hafter⟩ := (hsetup.alike hm.sized hn.sized).proceed turns
  rw [drive_of_clear ⟨rfl, rfl⟩, drive_of_clear ⟨rfl, rfl⟩]
  exact ⟨houtcome, hafter.state, hafter.debugger.trace, hafter.debugger.mode⟩

/-- `PUSH 7; PRINT; HALT` with a breakpoint before `PRINT`: a machine that has paused there starts
as one whose breakpoint has never been hit. -/
theorem Reachable.starts_as_new_after_hit :
    ∃ m n : Machine, Reachable m ∧ New n ∧ SameSetup m n ∧ m.state.pc = 2 ∧
      (m.debugger.breakpoints.find? 2).map Breakpoint.hits = some 1 ∧
      (n.debugger.breakpoints.find? 2).map Breakpoint.hits = some 0 ∧
      (n.drive 9 .start).1 = (m.drive 9 .start).1 ∧
      (m.drive 9 .start).1 = some (.paused ⟨2, some .print, #[7], 0, .breakpoint 2⟩) := by
  let n : Machine := ((ofConfig Config.tiny).load #[1, 7, 5, 0]).edit (.setBreakpoint 2)
  have hn : New n := .edit _ (.load _ (.create create_tiny))
  have hdrive : n.Operates (n.drive 9 .start).2 := .drive 9 .start
  have hm : Reachable (n.drive 9 .start).2 :=
    .operate (.operate (.create _ create_tiny) (.edit _)) hdrive
  have hsetup : SameSetup (n.drive 9 .start).2 n :=
    ⟨hdrive.setup.1.symm, hdrive.setup.2.symm, by decide +kernel, by decide +kernel,
      by decide +kernel⟩
  exact ⟨_, n, hm, hn, hsetup, by decide +kernel, by decide +kernel, by decide +kernel,
    (hm.starts_as_new.2 n hn hsetup 9).1, by decide +kernel⟩

end Machine

end StackMachine
