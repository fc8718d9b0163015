import StackMachine.Proofs.Execution.Limits
import StackMachine.Proofs.Machine.Turn

set_option autoImplicit false

/-! # What the host of a machine can do

The host edits the debugger, supplies input, writes to the heap, loads programs, registers
builtins and makes calls. A call that answers is described by `Machine.Returns`. Three notions
are built on this: a debugging session, which starts a run and then only edits and resumes
(`Machine.Session`); the operations that keep program and builtins (`Machine.Operates`); and the
machines that any sequence of operations can reach (`Machine.Reachable`).
-/

namespace StackMachine

/-! ## Edits and outcomes -/

/-- A change of breakpoints, watches or settings. Evaluating the watches only looks at the
machine, so it is not an edit. -/
inductive Debugger.Edit where
  | setBreakpoint (address : Nat)
  | removeBreakpoint (address : Nat)
  | enableBreakpoint (address : Nat) (enabled : Bool)
  | clearBreakpoints
  | addWatch (watch : Watch)
  | removeWatch (name : String)
  | clearWatches
  | pauseOnException (enabled : Bool)
  deriving DecidableEq, Repr

/-- The debugger after an edit. -/
def Debugger.edit (d : Debugger) : Debugger.Edit → Debugger
  | .setBreakpoint address => { d with breakpoints := d.breakpoints.set address }
  | .removeBreakpoint address => { d with breakpoints := d.breakpoints.remove address }
  | .enableBreakpoint address enabled =>
    { d with breakpoints := d.breakpoints.setEnabled address enabled }
  | .clearBreakpoints => { d with breakpoints := {} }
  | .addWatch watch => { d with watches := d.watches.add watch }
  | .removeWatch name => { d with watches := d.watches.remove name }
  | .clearWatches => { d with watches := {} }
  | .pauseOnException enabled => { d with pauseOnException := enabled }

@[simp] theorem Debugger.edit_paused (d : Debugger) (e : Debugger.Edit) :
    (d.edit e).paused = d.paused := by
  cases e <;> rfl

@[simp] theorem Debugger.edit_pausedAt (d : Debugger) (e : Debugger.Edit) :
    (d.edit e).pausedAt = d.pausedAt := by
  cases e <;> rfl

@[simp] theorem Debugger.edit_mode (d : Debugger) (e : Debugger.Edit) :
    (d.edit e).mode = d.mode := by
  cases e <;> rfl

/-- The pause is between two instructions, and not on an exception. -/
def Reason.isBoundary : Reason → Bool
  | .breakpoint _ | .step => true
  | .exception _ _ | .instruction => false

/-- The debugger asks for a pause only between two instructions. -/
theorem Debugger.check_isBoundary {d : Debugger} {pc callDepth : Nat} {reason : Reason}
    (h : d.check pc callDepth = some reason) : reason.isBoundary = true := by
  unfold Debugger.check at h
  dsimp only at h
  split at h
  · cases h
    rfl
  · split at h
    · cases h
      rfl
    · cases h

/-- The call ended the run. -/
def Outcome.isFinal : Outcome → Bool
  | .halted _ | .failed _ => true
  | .paused _ => false

/-- Limits that leave room for runs that can be followed by hand. -/
def Config.tiny : Config where
  maxStackDepth := 4
  maxCallDepth := 2
  slotsPerFrame := 1
  globalSlots := 1
  heapSize := 0

namespace Machine

/-! ## Calls -/

/-- The machine after an edit of its debugger. -/
def edit (m : Machine) (e : Debugger.Edit) : Machine := { m with debugger := m.debugger.edit e }

/-- Called on `m`, `call` answers with an outcome and leaves `m'`. -/
def Returns (m : Machine) (call : DrivingCall) (outcome : Outcome) (m' : Machine) : Prop :=
  ∃ turns, m.drive turns call = (some outcome, m')

/-- Called on `m`, `call` comes to stand in `p` before it has answered. -/
def Passes (m : Machine) (call : DrivingCall) (p : Machine) : Prop :=
  ∃ turns, m.drive turns call = (none, p)

theorem drive_eq_some {m : Machine} {call : DrivingCall} {outcome : Outcome} {turns : Nat}
    (h : (m.drive turns call).1 = some outcome) :
    m.drive turns call = (some outcome, (m.drive turns call).2) :=
  Prod.ext h rfl

theorem returns_drive {m : Machine} {call : DrivingCall} {outcome : Outcome} (turns : Nat)
    (h : (m.drive turns call).1 = some outcome) : m.Returns call outcome (m.drive turns call).2 :=
  ⟨turns, drive_eq_some h⟩

theorem passes_drive {m : Machine} {call : DrivingCall} (turns : Nat)
    (h : (m.drive turns call).1 = none) : m.Passes call (m.drive turns call).2 :=
  ⟨turns, Prod.ext h rfl⟩

/-- A call answers in one way only. -/
theorem Returns.unique {m m₁ m₂ : Machine} {call : DrivingCall} {o₁ o₂ : Outcome}
    (h₁ : m.Returns call o₁ m₁) (h₂ : m.Returns call o₂ m₂) : o₁ = o₂ ∧ m₁ = m₂ := by
  obtain ⟨t₁, h₁⟩ := h₁
  obtain ⟨t₂, h₂⟩ := h₂
  have h₁' := drive_add h₁ t₂
  have h₂' := drive_add h₂ t₁
  rw [Nat.add_comm, h₁'] at h₂'
  cases h₂'
  exact ⟨rfl, rfl⟩

/-- A call keeps program and limits on its way. -/
theorem Passes.setup {m p : Machine} {call : DrivingCall} (h : m.Passes call p) :
    p.config = m.config ∧ p.environment = m.environment := by
  obtain ⟨turns, hdrive⟩ := h
  exact drive_setup hdrive

/-- What holds when a call takes its first turn, and is kept by turns that do not end it, holds
wherever the call passes. -/
theorem Passes.induct {m p : Machine} {call : DrivingCall} {Q : Machine → Prop}
    (h : m.Passes call p) (hbegin : (m.prepare call).state.Clear → Q (m.prepare call))
    (hturn : ∀ {p p' : Machine}, Q p → Turned p none p' → Q p') : Q p := by
  obtain ⟨turns, hdrive⟩ := h
  cases driven hdrive with
  | proceeded hclear hproceed =>
      let Q' : Option Outcome → Machine → Prop := fun o p => o = none → Q p
      have hstep : ∀ {p p' : Machine} {o : Option Outcome}, Q' none p → Turned p o p' →
          Q' o p' := by
        intro p p' o hp hturned ho
        subst ho
        exact hturn (hp rfl) hturned
      exact proceed_induct hstep turns (fun _ => hbegin hclear) hproceed rfl

/-- No exception is waiting while a call takes turns, and no fault has ended the run. -/
theorem Passes.clear {m p : Machine} {call : DrivingCall} (h : m.Passes call p) :
    p.state.Clear := by
  refine h.induct (Q := fun p => p.state.Clear) id fun hclear hturn => ?_
  cases hturn with
  | continued hexec => exact hexec.clear hclear

/-- A call answers when a turn does. -/
theorem Passes.returns {m m' p : Machine} {call : DrivingCall} {outcome : Outcome}
    (h : m.Passes call p) (hturn : p.turn = (some outcome, m')) : m.Returns call outcome m' := by
  obtain ⟨turns, hdrive⟩ := h
  cases driven hdrive with
  | proceeded hclear hproceed =>
      refine ⟨turns + 1, ?_⟩
      rw [drive_of_clear hclear, proceed_append hproceed, proceed_succ, hturn]

/-- **A call that takes turns answers with the last of them.** -/
theorem Returns.last_turn {m m' : Machine} {call : DrivingCall} {outcome : Outcome}
    (h : m.Returns call outcome m') (hclear : (m.prepare call).state.Clear) :
    ∃ p, m.Passes call p ∧ p.turn = (some outcome, m') := by
  obtain ⟨turns, hdrive⟩ := h
  rw [drive_of_clear hclear] at hdrive
  obtain ⟨before, p, hbefore, hturn⟩ := proceed_eq_some hdrive
  exact ⟨p, ⟨before, by rw [drive_of_clear hclear, hbefore]⟩, hturn⟩

/-! ## Sessions and other uses -/

/-- A machine with a program, more builtins and waiting input. -/
def equip (m : Machine) (builtins : List (Word × Builtin)) (code : Program)
    (inputs : List Word) : Machine :=
  ((builtins.foldl (fun m entry => m.registerBuiltin entry.1 entry.2) m).load code).provideInput
    inputs

/-- `Session m₀ last m`: a debugging session on `m₀` has led to `m`, and `last` is the outcome
of its last call, if there was one. The first call starts the run and the others resume it; edits
may stand anywhere. -/
inductive Session (m₀ : Machine) : Option Outcome → Machine → Prop
  | init : Session m₀ none m₀
  | edit {last : Option Outcome} {m : Machine} (e : Debugger.Edit) :
      Session m₀ last m → Session m₀ last (m.edit e)
  | start {m m' : Machine} {outcome : Outcome} :
      Session m₀ none m → m.Returns .start outcome m' → Session m₀ (some outcome) m'
  | resume {m m' : Machine} {last outcome : Outcome} {call : DrivingCall} :
      Session m₀ (some last) m → call ≠ .start → m.Returns call outcome m' →
      Session m₀ (some outcome) m'

/-- The operations that keep program and builtins. A call may be cut off after any number of
turns, so the machines in the middle of a call are also reached. -/
inductive Operates (m : Machine) : Machine → Prop
  | drive (turns : Nat) (call : DrivingCall) : Operates m (m.drive turns call).2
  | reset : Operates m m.reset
  | input (words : List Word) : Operates m (m.provideInput words)
  | edit (e : Debugger.Edit) : Operates m (m.edit e)
  | heap {α : Type} {x : Action Heap α} :
      Heap.Primitive x → Operates m { m with state := (State.onHeap x).final m.state }

/-- One step of a run that its host interrupts and resumes but never restarts: a turn, the
beginning of a call that resumes the run, or an operation in between. -/
inductive Continues (m : Machine) : Machine → Prop
  | turn {o : Option Outcome} {m' : Machine} : m.turn = (o, m') → Continues m m'
  | resume {call : DrivingCall} : call ≠ .start → Continues m (m.prepare call)
  | input (words : List Word) : Continues m (m.provideInput words)
  | edit (e : Debugger.Edit) : Continues m (m.edit e)
  | register (id : Word) {builtin : Builtin} :
      Builtin.Context.Disciplined builtin.action → Continues m (m.registerBuiltin id builtin)
  | heap {α : Type} {x : Action Heap α} :
      Heap.Primitive x → Continues m { m with state := (State.onHeap x).final m.state }

/-- The machines that a host can reach from a new one by loading programs, registering builtins
that keep to their context, and operating. -/
inductive Reachable : Machine → Prop
  | create {config : Config} {m : Machine} (code : Program) :
      create config = .ok m → Reachable (m.load code)
  | load {m : Machine} (code : Program) : Reachable m → Reachable (m.load code)
  | register {m : Machine} (id : Word) {builtin : Builtin} :
      Reachable m → Builtin.Context.Disciplined builtin.action →
      Reachable (m.registerBuiltin id builtin)
  | operate {m m' : Machine} : Reachable m → m.Operates m' → Reachable m'

theorem Operates.setup {m m' : Machine} (h : m.Operates m') :
    m'.config = m.config ∧ m'.environment = m.environment := by
  cases h with
  | drive turns call => exact drive_setup rfl
  | reset => exact ⟨rfl, rfl⟩
  | input words => exact ⟨rfl, rfl⟩
  | edit e => exact ⟨rfl, rfl⟩
  | heap hx => exact ⟨rfl, rfl⟩

theorem Continues.of_turn (m : Machine) : m.Continues m.turn.2 := .turn rfl

/-- A run keeps its limits, and its builtins stay within bounds. -/
theorem Continues.setup {m m' : Machine} (h : m.Continues m')
    (hb : m.environment.builtins.Obeys fun _ => True) :
    m'.config = m.config ∧ m'.environment.builtins.Obeys fun _ => True := by
  cases h with
  | turn hturn =>
      refine ⟨(turned hturn).config, ?_⟩
      rw [(turned hturn).environment]
      exact hb
  | resume =>
      refine ⟨prepare_config m, ?_⟩
      rw [prepare_environment]
      exact hb
  | input words => exact ⟨rfl, hb⟩
  | edit e => exact ⟨rfl, hb⟩
  | register id hbuiltin => exact ⟨rfl, hb.register id hbuiltin.obeys⟩
  | heap hx => exact ⟨rfl, hb⟩

/-! ## New machines -/

/-- A machine is created exactly if the limits are usable, and they determine it. -/
theorem create_eq_ok_iff {config : Config} {m : Machine} :
    create config = .ok m ↔ config.problem? = none ∧ m = ofConfig config := by
  unfold create Config.check
  cases config.problem? with
  | none => exact ⟨fun h => by cases h; exact ⟨rfl, rfl⟩, fun ⟨_, h⟩ => h ▸ rfl⟩
  | some problem => exact ⟨fun h => (by cases h), fun ⟨h, _⟩ => (by cases h)⟩

/-- A new machine is the one that its limits determine. -/
theorem create_eq_ok {config : Config} {m : Machine} (h : create config = .ok m) :
    m = ofConfig config :=
  (create_eq_ok_iff.mp h).2

/-- The limits of a reachable machine are usable. -/
theorem Reachable.usable {m : Machine} (hm : Reachable m) : m.config.problem? = none := by
  induction hm with
  | create code hcreate =>
      obtain ⟨hproblem, rfl⟩ := create_eq_ok_iff.mp hcreate
      exact hproblem
  | load code _ ih => exact ih
  | register id _ _ ih => exact ih
  | operate _ ho ih => rw [ho.setup.1]; exact ih

theorem registerBuiltins_eq (builtins : List (Word × Builtin)) (m : Machine) :
    builtins.foldl (fun m entry => m.registerBuiltin entry.1 entry.2) m =
      { m with
        environment :=
          { m.environment with
            builtins :=
              builtins.foldl (fun r entry => r.register entry.1 entry.2)
                m.environment.builtins } } := by
  induction builtins generalizing m with
  | nil => rfl
  | cons entry builtins ih =>
      rw [List.foldl_cons, ih]
      rfl

/-- The parts of a new machine with a program, builtins and input. -/
theorem equip_ofConfig (config : Config) (builtins : List (Word × Builtin)) (code : Program)
    (inputs : List Word) :
    (ofConfig config).equip builtins code inputs =
      { config
        environment :=
          ⟨code, builtins.foldl (fun r entry => r.register entry.1 entry.2) .standard⟩
        state := State.initial config inputs
        debugger := (Debugger.new config.maxTraceLength).reset } := by
  have hclear : (State.initial config []).clear = State.initial config [] :=
    (State.initial_fits config []).clear
  unfold equip load reset
  rw [registerBuiltins_eq]
  dsimp only [ofConfig]
  rw [hclear]
  rfl

theorem create_tiny : create Config.tiny = .ok (ofConfig Config.tiny) := rfl

end Machine

end StackMachine
