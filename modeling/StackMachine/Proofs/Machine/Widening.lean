import StackMachine.Proofs.Machine.Invariant
import StackMachine.Proofs.Machine.Readings
import StackMachine.Proofs.Machine.Transparency
import StackMachine.Proofs.Widening.Run

set_option autoImplicit false

/-! # Machines with larger limits

A run that nobody interrupts and that hits no limit is the same on a machine with larger limits
(`Machine.Returns.widen`). It ends with the same outcome, after the same number of instructions, and
leaves the same words, calls, handlers and input, and the same bytes as far as the smaller heap
goes.
-/

namespace StackMachine.Machine

variable {m m' p : Machine} {c c' : Config}

/-- The faults that the next turn raises: the one that the instruction stops with, whether a handler
receives it or not, and the one that the call fails with. -/
def faults (m : Machine) : List Fault :=
  let stopped :=
    match m.next? with
    | some i => (Action.stop? (State.execute m.environment i) m.state.tick).toList.map Prod.fst
    | none => []
  let failed :=
    match m.turn.1 with
    | some (.failed f) => [f.fault]
    | _ => []
  stopped ++ failed

/-- With a quiet debugger, faults are those of the run without a debugger. -/
theorem mem_faults (hq : m.debugger.Quiet) {fault : Fault}
    (h : m.state.Faults m.environment m.config.instructionBudget fault) : fault ∈ m.faults := by
  cases h with
  | instruction hrun hfetch hx =>
      refine List.mem_append.mpr (Or.inl ?_)
      rw [next?_eq_some.mpr ⟨hrun, hq.check _ _, hfetch⟩]
      dsimp only
      rw [Action.stop?_eq_some.mpr hx]
      exact List.mem_singleton.mpr rfl
  | @run f _ hadvance hfault =>
      refine List.mem_append.mpr (Or.inr ?_)
      cases hturn : m.turn with
      | mk o m₁ =>
          have hsame := (turned hturn).advance ((turned hturn).quiet hq).2
          rw [hadvance] at hsame
          cases hsame
          exact List.mem_singleton.mpr hfault.symm

/-- A run that hits no limit passes only states that hit none. -/
theorem free_of_passes (hq : (m.prepare .start).debugger.Quiet)
    (hfree : ∀ p, m.Passes .start p → ∀ fault ∈ p.faults, fault.isLimit = false) {k : Nat}
    {t : State}
    (hrun : m.state.clear.run m.environment m.config.instructionBudget k = (none, t)) :
    t.Free m.environment m.config.instructionBudget := by
  intro fault hfault
  obtain ⟨p, hproceed, rfl⟩ := proceed_of_quiet k hq hrun
  have hpasses : m.Passes .start p := ⟨k, by rw [drive_of_clear ⟨rfl, rfl⟩, hproceed]⟩
  obtain ⟨hconfig, henv⟩ := proceed_setup k hproceed
  refine hfree p hpasses fault (mem_faults (proceed_quiet hq hproceed) ?_)
  rw [hconfig, henv]
  exact hfault

/-- A new machine with a program, when its run starts. -/
theorem equip_starts (config : Config) (code : Program) (inputs : List Word) :
    let m := (ofConfig config).equip [] code inputs
    m.config = config ∧ m.environment = ⟨code, .standard⟩ ∧
      m.state.clear = State.initial config inputs ∧ (m.prepare .start).debugger.Quiet := by
  dsimp only
  rw [equip_ofConfig]
  exact ⟨rfl, rfl, (State.initial_fits config inputs).clear, ⟨rfl, rfl, rfl⟩⟩

/-- The heap keeps its size during a run. -/
theorem Returns.capacity_eq {code : Program} {inputs : List Word} {outcome : Outcome}
    (h : ((ofConfig c).equip [] code inputs).Returns .start outcome m) :
    m.state.heap.capacity = c.heapSize := by
  obtain ⟨turns, hdrive⟩ := h
  have hinv : ((ofConfig c).equip [] code inputs).Invariant (· ≤ code.size) fun _ => True := by
    have henv : Environment.Confined ⟨code, .standard⟩ (· ≤ code.size) fun _ => True :=
      Environment.confined_size (Registry.standard_obeys.mono fun _ _ => trivial)
    rw [equip_ofConfig]
    exact invariant_initial henv c inputs _
  have hconfig : m.config = c := by rw [(drive_setup hdrive).1, (equip_starts c code inputs).1]
  rw [(hinv.drive hdrive).1.fits.heap.capacity, hconfig]

/-- **Larger limits do not change a run that hits no limit.** It ends with the same outcome, and
with the same words, depths, input, count, cursor and bytes. -/
theorem Returns.widen (hle : c.Within c') {code : Program} {inputs : List Word}
    {outcome : Outcome}
    (hreturns : ((ofConfig c).equip [] code inputs).Returns .start outcome m)
    (hfree : ∀ p, ((ofConfig c).equip [] code inputs).Passes .start p →
      ∀ fault ∈ p.faults, fault.isLimit = false) :
    ∃ m', ((ofConfig c').equip [] code inputs).Returns .start outcome m' ∧
      m'.state.pc = m.state.pc ∧
      m'.state.output = m.state.output ∧
      m'.state.stack.values = m.state.stack.values ∧
      m'.state.calls.depth = m.state.calls.depth ∧
      m'.state.handlers.depth = m.state.handlers.depth ∧
      m'.state.input = m.state.input ∧
      m'.state.executed = m.state.executed ∧
      m'.state.heap.cursor = m.state.heap.cursor ∧
      ∀ i < c.heapSize, m'.state.heap.byteAt i = m.state.heap.byteAt i := by
  obtain ⟨hconfig, henv, hclear, hquiet⟩ := equip_starts c code inputs
  obtain ⟨hconfig', henv', hclear', hquiet'⟩ := equip_starts c' code inputs
  have hstates := fun k t => free_of_passes (k := k) (t := t) hquiet hfree
  obtain ⟨turns, hrun⟩ := hreturns.run_of_quiet hquiet
  rw [hconfig, henv, hclear] at hstates hrun
  -- the two runs go side by side from their first states
  obtain ⟨houtcome, hwidened⟩ := (State.initial_widened hle inputs).run hle rfl turns hstates
  cases hrun' : (State.initial c' inputs).run ⟨code, .standard⟩ c'.instructionBudget turns with
  | mk o s =>
      rw [hrun, hrun'] at houtcome hwidened
      cases houtcome
      have hends : ((ofConfig c').equip [] code inputs).state.clear.run
          ((ofConfig c').equip [] code inputs).environment
          ((ofConfig c').equip [] code inputs).config.instructionBudget turns =
          (some outcome, s) := by
        rw [hclear', henv', hconfig', hrun']
      obtain ⟨m', hreturns', rfl⟩ := Returns.of_quiet hquiet' hends
      refine ⟨m', hreturns', hwidened.pc, hwidened.output, hwidened.stack.values,
        hwidened.calls.size, congrArg Handlers.depth hwidened.handlers, hwidened.input,
        hwidened.executed, hwidened.heap.cursor, fun i hi => hwidened.heap.byteAt ?_⟩
      rw [hreturns.capacity_eq]
      exact hi

/-- A call passes a machine only before it answers. -/
theorem passes_before {turns : Nat} {call : DrivingCall} {outcome : Outcome}
    (hanswer : (m.drive turns call).1 = some outcome) (hpasses : m.Passes call p) :
    ∃ k < turns, (m.drive k call).2 = p := by
  obtain ⟨k, hk⟩ := hpasses
  refine ⟨k, Nat.lt_of_not_le fun hle => ?_, by rw [hk]⟩
  obtain ⟨more, rfl⟩ := Nat.exists_eq_add_of_le hle
  cases hdrive : m.drive turns call with
  | mk o m₁ =>
      rw [hdrive] at hanswer
      cases hanswer
      rw [drive_add hdrive] at hk
      cases hk

/-- `CALL 5; PRINT; HALT; HALT; PUSH 7; STORE_LOCAL 0; ENTER_TRY 25; CALL 14; HALT; PUSH 8;
STORE_LOCAL 0; PUSH 4; MALLOC; PUSH 0; DIV; HALT; LOAD_LOCAL 0; ADD; RET`: with larger windows the
locals of the two calls are further apart, and the run is the same. -/
theorem Returns.widen_windows :
    ∃ (c c' : Config) (code : Program) (m m' : Machine),
      ((ofConfig c).equip [] code []).Returns .start (.halted #[-10]) m ∧
      ((ofConfig c').equip [] code []).Returns .start (.halted #[-10]) m' ∧
      m.state.memory.locals = #[7, 8] ∧ c'.slotsPerFrame = 3 ∧
      m.state.executed = 16 ∧ m'.state.executed = 16 ∧ m'.state.heap.cursor = 4 := by
  let c : Config := { Config.tiny with heapSize := 4, instructionBudget := some 16 }
  let c' : Config := ⟨9, 5, 3, 7, 64, none, true, 2⟩
  let code : Program :=
    #[12, 5, 5, 0, 0, 1, 7, 15, 0, 16, 25, 12, 14, 0, 1, 8, 15, 0, 1, 4, 19, 1, 0, 29, 0,
      14, 0, 2, 13]
  have hle : c.Within c' :=
    ⟨by decide, by decide, by decide, by decide, by decide, fun _ hbudget => by cases hbudget⟩
  have hanswer : (((ofConfig c).equip [] code []).drive 17 .start).1 = some (.halted #[-10]) := by
    decide +kernel
  have hall : ∀ k < 17, ∀ fault ∈ (((ofConfig c).equip [] code []).drive k .start).2.faults,
      fault.isLimit = false := by
    decide +kernel
  have hfree : ∀ p, ((ofConfig c).equip [] code []).Passes .start p →
      ∀ fault ∈ p.faults, fault.isLimit = false := by
    intro p hpasses fault hfault
    obtain ⟨k, hk, hp⟩ := passes_before hanswer hpasses
    rw [← hp] at hfault
    exact hall k hk fault hfault
  obtain ⟨m, hm⟩ : ∃ m, m = (((ofConfig c).equip [] code []).drive 17 .start).2 := ⟨_, rfl⟩
  have hreturns : ((ofConfig c).equip [] code []).Returns .start (.halted #[-10]) m :=
    hm ▸ returns_drive 17 hanswer
  obtain ⟨m', hreturns', -, -, -, -, -, -, hexecuted, hcursor, -⟩ := hreturns.widen hle hfree
  have hcount : m.state.executed = 16 ∧ m.state.heap.cursor = 4 ∧
      m.state.memory.locals = #[7, 8] := by
    rw [hm]
    decide +kernel
  exact ⟨c, c', code, m, m', hreturns, hreturns', hcount.2.2, rfl, hcount.1,
    hexecuted.trans hcount.1, hcursor.trans hcount.2.1⟩

end StackMachine.Machine
