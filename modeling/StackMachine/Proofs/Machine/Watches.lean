import StackMachine.Proofs.Debugger.Watches
import StackMachine.Proofs.Execution.Failing
import StackMachine.Proofs.Execution.Locals
import StackMachine.Proofs.Machine.Host

set_option autoImplicit false

/-! # What watches show

A watch shows the word that the program itself would load: with `LOAD` from a global slot, and with
`LOAD_LOCAL` from a slot of the innermost call (`Watch.instruction`). If there is room on the
operand stack, the instruction pushes the word that the watch shows, and it fails if the watch shows
none (`Watch.pushes_or_fails`). A host changes its watches and asks for their values in any order;
asking changes nothing (`Machine.watchAll_eq`), and the watches of every machine that a host can
reach have distinct names (`Machine.Reachable.distinct`).
-/

namespace StackMachine

/-! ## Watches and instructions -/

/-- The instruction that loads the word in a watched slot. -/
def Watch.instruction (w : Watch) : Instruction :=
  match w.kind with
  | .globalSlot => .load w.address
  | .frameSlot => .loadLocal w.address

namespace State

/-- Executed in `s`, the instruction pushes the word, changes nothing else and goes on. -/
def Pushes (s : State) (env : Environment) (i : Instruction) (v : Word) : Prop :=
  execute env i s = .ok .next { s with stack := { s.stack with values := s.stack.values.push v } }

/-- Executed in `s`, the instruction fails. -/
def Fails (s : State) (env : Environment) (i : Instruction) : Prop :=
  ∃ fault s', execute env i s = .error fault s'

variable {s : State} {env : Environment} {i : Instruction} {v v' : Word}

theorem Pushes.unique (h : s.Pushes env i v) (h' : s.Pushes env i v') : v = v' := by
  have hresult := h.symm.trans h'
  simp only [EStateM.Result.ok.injEq, State.mk.injEq, OperandStack.mk.injEq, true_and,
    and_true] at hresult
  exact (Array.push_eq_push.mp hresult).1

theorem Pushes.not_fails (h : s.Pushes env i v) : ¬ s.Fails env i := by
  rintro ⟨fault, s', hfails⟩
  cases h.symm.trans hfails

theorem push_of_hasRoom (h : s.stack.HasRoom) (v : Word) :
    push v s = .ok () { s with stack := { s.stack with values := s.stack.values.push v } } := by
  simp only [push, onStack, Action.within, OperandStack.push_of_hasRoom h]

theorem execute_load (env : Environment) (s : State) (address : Word) :
    execute env (.load address) s =
      match s.memory.loadGlobal address with
      | .ok w => (push w >>= fun _ => Pure.pure Flow.next) s
      | .error fault => .error fault s := by
  simp only [execute, bind, EStateM.bind, query]
  cases s.memory.loadGlobal address <;> rfl

/-- A word that is pushed where there is room ends the instruction. -/
theorem push_next (h : s.stack.HasRoom) (v : Word) :
    (push v >>= fun _ => Pure.pure Flow.next) s =
      .ok .next { s with stack := { s.stack with values := s.stack.values.push v } } :=
  Action.bind_eq_ok.mpr ⟨(), _, push_of_hasRoom h v, rfl⟩

end State

open State

/-- **A watch shows what its instruction would push**, and nothing if it would fail. -/
theorem Watch.pushes_or_fails (w : Watch) (env : Environment) {s : State}
    (hroom : s.stack.HasRoom) :
    (∃ v, w.value? s.memory s.calls = some v ∧ s.Pushes env w.instruction v) ∨
      (w.value? s.memory s.calls = none ∧ s.Fails env w.instruction) := by
  obtain ⟨name, kind, address⟩ := w
  cases kind with
  | globalSlot =>
      have hexecute := execute_load env s address
      cases hload : s.memory.loadGlobal address with
      | ok v =>
          rw [hload] at hexecute
          exact Or.inl ⟨v, by simp [value?, hload, Except.toOption],
            hexecute.trans (push_next hroom v)⟩
      | error fault =>
          rw [hload] at hexecute
          exact Or.inr ⟨by simp [value?, hload, Except.toOption], fault, s, hexecute⟩
  | frameSlot =>
      cases htop : s.calls.top with
      | error fault =>
          have hfails : execute env (.loadLocal address) s = .error fault s := by
            simp only [execute, bind, EStateM.bind, query, htop]
          exact Or.inr ⟨by simp [value?, htop, Except.toOption], fault, s, hfails⟩
      | ok frame =>
          have hexecute : execute env (.loadLocal address) s = _ := execute_loadLocal htop
          cases hload : s.memory.loadLocal frame.base address with
          | ok v =>
              rw [hload] at hexecute
              exact Or.inl ⟨v, by simp [value?, htop, hload, Except.toOption],
                hexecute.trans (push_next hroom v)⟩
          | error fault =>
              rw [hload] at hexecute
              exact Or.inr ⟨by simp [value?, htop, hload, Except.toOption], fault, s, hexecute⟩

/-- What a watch shows is settled by its instruction. -/
theorem Watch.value?_eq_some_iff (w : Watch) (env : Environment) {s : State}
    (hroom : s.stack.HasRoom) (v : Word) :
    w.value? s.memory s.calls = some v ↔ s.Pushes env w.instruction v := by
  rcases w.pushes_or_fails env hroom with ⟨v', hvalue, hpushes⟩ | ⟨hvalue, hfails⟩
  · rw [hvalue, Option.some_inj]
    constructor
    · rintro rfl
      exact hpushes
    · exact hpushes.unique
  · rw [hvalue]
    constructor
    · intro h
      cases h
    · intro hpushes
      exact absurd hfails hpushes.not_fails

theorem Watch.value?_eq_none_iff (w : Watch) (env : Environment) {s : State}
    (hroom : s.stack.HasRoom) :
    w.value? s.memory s.calls = none ↔ s.Fails env w.instruction := by
  rcases w.pushes_or_fails env hroom with ⟨v, hvalue, hpushes⟩ | ⟨hvalue, hfails⟩
  · rw [hvalue]
    constructor
    · intro h
      cases h
    · intro hfails
      exact absurd hfails hpushes.not_fails
  · exact ⟨fun _ => hfails, fun _ => hvalue⟩

/-! ## Watches of a machine -/

/-- What a host asks of the watches of a machine: a change of the list, or their values. -/
inductive WatchRequest where
  | change (r : WatchList.Request)
  | evaluate
  deriving DecidableEq, Repr

/-- A change of the list as an edit of the debugger. -/
def WatchList.Request.edit : WatchList.Request → Debugger.Edit
  | .add watch => .addWatch watch
  | .remove name => .removeWatch name
  | .clear => .clearWatches

/-- The change that a request asks for. -/
def WatchRequest.change? : WatchRequest → Option WatchList.Request
  | .change r => some r
  | .evaluate => none

namespace Machine

/-- The values that a request asks for, and the machine after it. -/
def watch (m : Machine) : WatchRequest → List (Watch × Option Word) × Machine
  | .change r => ([], m.edit r.edit)
  | .evaluate => (m.evaluateWatches, m)

/-- The machine after requests. -/
def watchAll (m : Machine) (requests : List WatchRequest) : Machine :=
  requests.foldl (fun m r => (m.watch r).2) m

/-- Requests change the list of watches as their changes do, and nothing else. -/
theorem watchAll_eq (m : Machine) (requests : List WatchRequest) :
    m.watchAll requests =
      { m with
        debugger :=
          { m.debugger with
            watches :=
              (requests.filterMap WatchRequest.change?).foldl WatchList.serve
                m.debugger.watches } } := by
  unfold watchAll
  induction requests generalizing m with
  | nil => rfl
  | cons r requests ih =>
      rw [List.foldl_cons, ih]
      cases r with
      | change r => cases r <;> rfl
      | evaluate => rfl

variable {m m' : Machine}

theorem noteInstruction_watches (m : Machine) :
    m.noteInstruction.debugger.watches = m.debugger.watches := by
  unfold noteInstruction
  dsimp only [Debugger.instructionExecuted]
  split <;> rfl

/-- A turn leaves the watches alone. -/
theorem Turned.watches_eq {o : Option Outcome} (h : Turned m o m') :
    m'.debugger.watches = m.debugger.watches := by
  cases h with
  | ended => rfl
  | paused => rfl
  | refused => rfl
  | continued => exact noteInstruction_watches m
  | failed => exact noteInstruction_watches m
  | suspended => exact noteInstruction_watches m
  | abandoned => exact noteInstruction_watches m

/-- **So does a call.** -/
theorem drive_watches {turns : Nat} {call : DrivingCall} {o : Option Outcome}
    (h : m.drive turns call = (o, m')) : m'.debugger.watches = m.debugger.watches := by
  have hprepare : (m.prepare call).debugger.watches = m.debugger.watches := by
    cases call <;> rfl
  cases driven h with
  | abandoned => exact hprepare
  | failed => exact hprepare
  | proceeded _ hproceed =>
      exact proceed_induct (Q := fun _ p => p.debugger.watches = m.debugger.watches)
        (fun hp hturned => hturned.watches_eq.trans hp) turns hprepare hproceed

/-- **The watches of a reachable machine have distinct names.** -/
theorem Reachable.distinct (hm : Reachable m) : m.debugger.watches.Distinct := by
  induction hm with
  | create code hcreate =>
      cases create_eq_ok hcreate
      exact List.nodup_nil
  | load code _ ih => exact ih
  | register id _ _ ih => exact ih
  | operate _ ho ih =>
      cases ho with
      | drive turns call =>
          unfold WatchList.Distinct
          rw [drive_watches (Prod.eta _).symm]
          exact ih
      | reset => exact ih
      | input words => exact ih
      | edit e =>
          cases e with
          | addWatch watch => exact ih.add watch
          | removeWatch name => exact ih.remove name
          | clearWatches => exact List.nodup_nil
          | _ => exact ih
      | heap hx => exact ih

/-- What the watches of a machine show: one value for each, in order, and it is the word that the
instruction of the watch would push if there were room on the operand stack. -/
structure ShowsLoads (m : Machine) : Prop where
  keyed : m.debugger.watches.IsKeyed
  listed : m.evaluateWatches.map Prod.fst = m.debugger.watches.watches
  pushed : ∀ w value, (w, value) ∈ m.evaluateWatches →
    ∀ stack : OperandStack, stack.HasRoom → ∀ v,
      value = some v ↔ State.Pushes { m.state with stack } m.environment w.instruction v
  failed : ∀ w value, (w, value) ∈ m.evaluateWatches →
    ∀ stack : OperandStack, stack.HasRoom →
      (value = none ↔ State.Fails { m.state with stack } m.environment w.instruction)

theorem showsLoads_of_distinct (h : m.debugger.watches.Distinct) : m.ShowsLoads := by
  have hvalue : ∀ {w value}, (w, value) ∈ m.evaluateWatches →
      value = w.value? m.state.memory m.state.calls := by
    intro w value hmem
    obtain ⟨w', _, heq⟩ := List.mem_map.mp hmem
    cases heq
    rfl
  refine ⟨h.isKeyed, ?_, fun w value hmem stack hroom v => ?_, fun w value hmem stack hroom => ?_⟩
  · simp [evaluateWatches, WatchList.evaluate, Function.comp_def]
  · rw [hvalue hmem]
    exact w.value?_eq_some_iff m.environment (s := { m.state with stack }) hroom v
  · rw [hvalue hmem]
    exact w.value?_eq_none_iff m.environment (s := { m.state with stack }) hroom

/-- **Watches show what the program would load.** After any requests for the watches of a reachable
machine, only the list has changed, as the changes among the requests say; names are keys of the
list, and each watch shows what its instruction would push. -/
theorem Reachable.watches_show_loads (hm : Reachable m) (requests : List WatchRequest) :
    m.watchAll requests =
        { m with
          debugger :=
            { m.debugger with
              watches :=
                (requests.filterMap WatchRequest.change?).foldl WatchList.serve
                  m.debugger.watches } } ∧
      (m.watchAll requests).ShowsLoads := by
  refine ⟨m.watchAll_eq requests, showsLoads_of_distinct ?_⟩
  rw [watchAll_eq]
  exact List.foldlRecOn _ _ hm.distinct fun _ h r _ => h.serve r

/-- `PUSH 7; STORE 0; PUSH 5; CALL 8; STORE_LOCAL 0; HALT` in the middle of the call. Of three
watches the first is replaced and keeps its place, and the last names a slot that does not exist. -/
theorem Reachable.watches_show_loads_in_call :
    ∃ (m : Machine) (requests : List WatchRequest), Reachable m ∧
      (m.watchAll requests).evaluateWatches =
        [(⟨"g", .globalSlot, 0⟩, some 7), (⟨"n", .frameSlot, 0⟩, some 5),
          (⟨"none", .globalSlot, 1⟩, none)] ∧
      State.Pushes (m.watchAll requests).state m.environment (.load 0) 7 ∧
      State.Pushes (m.watchAll requests).state m.environment (.loadLocal 0) 5 ∧
      State.Fails (m.watchAll requests).state m.environment (.load 1) := by
  let m₀ : Machine := (ofConfig Config.tiny).load #[1, 7, 10, 0, 1, 5, 12, 8, 15, 0, 0]
  let requests : List WatchRequest :=
    [.change (.add ⟨"g", .frameSlot, 9⟩), .change (.add ⟨"n", .frameSlot, 0⟩), .evaluate,
      .change (.add ⟨"none", .globalSlot, 1⟩), .change (.add ⟨"g", .globalSlot, 0⟩)]
  -- the run is unfolded only where it is evaluated
  obtain ⟨m, hrun⟩ : ∃ m, m = (m₀.drive 5 .start).2 := ⟨_, rfl⟩
  have hdrive : m₀.Operates m := hrun ▸ .drive 5 .start
  have hm : Reachable m := .operate (.create _ create_tiny) hdrive
  obtain ⟨hchanged, hshows⟩ := hm.watches_show_loads requests
  have henvironment : (m.watchAll requests).environment = m.environment := by rw [hchanged]
  have hroom : (m.watchAll requests).state.stack.HasRoom := by
    rw [hchanged, hrun]
    unfold OperandStack.HasRoom
    decide +kernel
  have hvalues : (m.watchAll requests).evaluateWatches =
      [(⟨"g", .globalSlot, 0⟩, some 7), (⟨"n", .frameSlot, 0⟩, some 5),
        (⟨"none", .globalSlot, 1⟩, none)] := by
    subst hrun
    decide +kernel
  refine ⟨m, requests, hm, hvalues, ?_, ?_, ?_⟩
  · rw [← henvironment]
    exact (hshows.pushed ⟨"g", .globalSlot, 0⟩ _ (by simp [hvalues]) _ hroom 7).mp rfl
  · rw [← henvironment]
    exact (hshows.pushed ⟨"n", .frameSlot, 0⟩ _ (by simp [hvalues]) _ hroom 5).mp rfl
  · rw [← henvironment]
    exact (hshows.failed ⟨"none", .globalSlot, 1⟩ _ (by simp [hvalues]) _ hroom).mp rfl

end Machine

end StackMachine
