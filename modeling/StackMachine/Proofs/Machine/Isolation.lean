import Mathlib.Data.List.Infix
import Mathlib.Logic.Relation
import StackMachine.Proofs.Execution.Locals
import StackMachine.Proofs.Machine.Catch

set_option autoImplicit false

/-! # Calls do not reach each other's locals

While a call is active, the innermost window of local slots is its own or that of a call inside
it, and both lie above the windows of the calls around it. So from a call instruction on, until
the call has been left, the windows of the calls around it hold the same words
(`State.Isolates.step`), however the call and the calls inside it are left. Together with what
single accesses do this is `Machine.Reachable.locals_isolated`.
-/

namespace StackMachine

/-- When one of two lists begins with the other and the first one has at least `n` elements, it
begins with what the other one has among its first `n`. -/
theorem take_isPrefix_take {α : Type} {l l' : List α} (h : l <+: l' ∨ l' <+: l) {n : Nat}
    (hn : n ≤ l.length) : l'.take n <+: l.take n := by
  rcases h with ⟨rest, rfl⟩ | h
  · rw [List.take_append_of_le_length hn]
  · exact List.IsPrefix.take h n

namespace State

/-- Of the calls of `outer`, those that are still active in `s` are where they were, and the
windows of all of them hold the words that they had. -/
structure Isolates (config : Config) (outer s : State) : Prop where
  calls : s.calls.frames.toList.take outer.calls.depth <+: outer.calls.frames.toList
  locals : ∀ n < outer.calls.depth * config.slotsPerFrame,
    s.memory.locals[n]? = outer.memory.locals[n]?

/-- An operation of the heap changes nothing but the heap. -/
theorem onHeap_final {α : Type} (x : Action Heap α) (s : State) :
    ∃ heap, (onHeap x).final s = { s with heap } := by
  unfold Action.final onHeap Action.within
  cases hx : x s.heap with
  | ok a heap => exact ⟨heap, by simp only [hx]⟩
  | error fault heap => exact ⟨heap, by simp only [hx]⟩

namespace Isolates

variable {config : Config} {outer s s' : State}

theorem congr (h : Isolates config outer s) (hcalls : s'.calls = s.calls)
    (hmemory : s'.memory = s.memory) : Isolates config outer s' := by
  refine ⟨?_, ?_⟩
  · rw [hcalls]
    exact h.calls
  · rw [hmemory]
    exact h.locals

/-- A call instruction changes no slot, and no call but the one that it enters. -/
theorem call {env : Environment} {target : Word} {event : Event}
    (hstep : outer.step env (.call target) = (event, s)) : Isolates config outer s := by
  refine ⟨?_, fun n _ => ?_⟩
  · refine (take_isPrefix_take (step_calls hstep) ?_).trans (List.take_prefix _ _)
    exact Nat.le_of_eq Array.length_toList.symm
  · have hmemory := step_call_memory outer env target
    rw [hstep] at hmemory
    rw [hmemory]

/-- **A step inside of a call reaches none of the windows around it.** -/
theorem step (h : Isolates config outer s) (hfits : s.Fits config)
    (hinside : outer.calls.depth < s.calls.depth) {env : Environment} {i : Instruction}
    {event : Event} (hstep : s.step env i = (event, s')) : Isolates config outer s' := by
  refine ⟨?_, fun n hn => ?_⟩
  · refine (take_isPrefix_take (step_calls hstep) ?_).trans h.calls
    rw [Array.length_toList]
    exact Nat.le_of_lt hinside
  · -- the innermost call came after those of `outer`, so its window is above theirs
    have hbase : ∀ frame, s.calls.frames.back? = some frame →
        outer.calls.depth * config.slotsPerFrame ≤ frame.base := by
      intro frame hframe
      obtain ⟨frame', hframe', hwindow⟩ := hfits.innermost_base (by omega)
      cases hframe.symm.trans hframe'
      rw [hwindow]
      exact Nat.mul_le_mul_right _ (by omega)
    exact (step_locals hstep hbase hn).trans (h.locals n hn)

/-- Ending the run leaves all calls and keeps the words. -/
theorem abandon (h : Isolates config outer s) (e : Escape) :
    Isolates config outer (s.abandon e).2 :=
  ⟨List.take_nil ▸ List.nil_prefix, h.locals⟩

/-- A call of `outer` that is still active loads the words that it would have loaded. -/
theorem loadLocal (h : Isolates config outer s) (houter : outer.Fits config)
    (hfits : s.Fits config) {n : Nat} (hn : n < outer.calls.depth) {frame : Frame}
    (hframe : s.calls.frames[n]? = some frame) :
    outer.calls.frames[n]? = some frame ∧
      ∀ offset,
        s.memory.loadLocal frame.base offset = outer.memory.loadLocal frame.base offset := by
  have hsame : outer.calls.frames[n]? = some frame := by
    rw [← Array.getElem?_toList] at hframe ⊢
    refine getElem?_of_isPrefix h.calls ?_
    rw [List.getElem?_take_of_lt hn]
    exact hframe
  refine ⟨hsame, fun offset => ?_⟩
  have hdepth : n < config.maxCallDepth := Nat.lt_of_lt_of_le hn houter.calls.depth
  unfold Memory.loadLocal
  rw [houter.calls.windows n frame hsame, hfits.memory.localIndex hdepth,
    houter.memory.localIndex hdepth]
  split
  · next hinside =>
      -- the slot is in the window of the call at depth `n`
      have hslot : n * config.slotsPerFrame + offset.toInt.toNat <
          outer.calls.depth * config.slotsPerFrame := by
        calc n * config.slotsPerFrame + offset.toInt.toNat
            < n * config.slotsPerFrame + config.slotsPerFrame := by omega
          _ = (n + 1) * config.slotsPerFrame := (Nat.succ_mul _ _).symm
          _ ≤ outer.calls.depth * config.slotsPerFrame := Nat.mul_le_mul_right _ hn
      show Except.ok _ = Except.ok _
      rw [Array.getD_eq_getD_getElem?, Array.getD_eq_getD_getElem?, h.locals _ hslot]
  · rfl

end Isolates

end State

namespace Machine

variable {m m' : Machine}

/-! ## Runs -/

/-- One step of a run that is never restarted. Resuming it while it is paused on an exception
ends it. -/
inductive Moves (m : Machine) : Machine → Prop
  | continues {m' : Machine} : m.Continues m' → Moves m m'
  | abandon {call : DrivingCall} {e : Escape} :
      call ≠ .start → m.state.escape = some e → Moves m (m.begin call).2

theorem begin_of_escape {call : DrivingCall} (hcall : call ≠ .start) {e : Escape}
    (he : m.state.escape = some e) : (m.begin call).2.config = m.config ∧
      (m.begin call).2.environment = m.environment ∧
      (m.begin call).2.state = (m.state.abandon e).2 := by
  unfold begin
  dsimp only
  rw [prepare_state hcall, he]
  refine ⟨prepare_config m, prepare_environment m, ?_⟩
  show ((m.prepare call).state.abandon e).2 = _
  rw [prepare_state hcall]

theorem Moves.setup (h : m.Moves m') (hb : m.environment.builtins.Obeys fun _ => True) :
    m'.config = m.config ∧ m'.environment.builtins.Obeys fun _ => True := by
  cases h with
  | continues hcont => exact hcont.setup hb
  | abandon hcall he =>
      obtain ⟨hconfig, henv, -⟩ := begin_of_escape hcall he
      exact ⟨hconfig, henv ▸ hb⟩

theorem Moves.fits (h : m.Moves m') (hb : m.environment.builtins.Obeys fun _ => True)
    (hm : m.state.Fits m.config) : m'.state.Fits m.config := by
  cases h with
  | continues hcont => exact hcont.fits hb hm
  | abandon hcall he =>
      rw [(begin_of_escape hcall he).2.2]
      exact hm.abandon _

/-- **Steps of a run inside of a call reach none of the windows around it.** -/
theorem Moves.isolates (h : m.Moves m') (hm : m.state.Fits m.config) {outer : State}
    (hinside : outer.calls.depth < m.state.calls.depth)
    (hisolates : State.Isolates m.config outer m.state) :
    State.Isolates m.config outer m'.state := by
  cases h with
  | abandon hcall he =>
      rw [(begin_of_escape hcall he).2.2]
      exact hisolates.abandon _
  | continues hcont =>
      cases hcont with
      | turn hturn =>
          cases turned hturn with
          | ended => exact hisolates.congr rfl rfl
          | paused => exact hisolates
          | refused => exact hisolates.congr rfl rfl
          | continued hexec => exact hisolates.step hm hinside hexec.stepped
          | failed hexec => exact hisolates.step hm hinside hexec.stepped
          | suspended hexec =>
              exact (hisolates.step hm hinside hexec.stepped).congr rfl rfl
          | abandoned hexec => exact (hisolates.step hm hinside hexec.stepped).abandon _
      | resume hcall => rw [prepare_state hcall]; exact hisolates
      | input words => exact hisolates.congr rfl rfl
      | edit e => exact hisolates
      | register id => exact hisolates
      | @heap _ x =>
          obtain ⟨heap, hheap⟩ := State.onHeap_final x m.state
          show State.Isolates m.config outer ((State.onHeap x).final m.state)
          rw [hheap]
          exact hisolates.congr rfl rfl

/-- From a call instruction on, until the call has been left. -/
theorem Reachable.isolates {m m₁ m₂ : Machine} (hm : Reachable m) {target : Word}
    (hnext : m.Dispatches (.call target)) (henter : m.turn = (none, m₁))
    (hrun : Relation.ReflTransGen
      (fun a b => a.Moves b ∧ m.state.calls.depth < a.state.calls.depth) m₁ m₂) :
    m₂.config = m.config ∧ (m₂.environment.builtins.Obeys fun _ => True) ∧
      m₂.state.Fits m.config ∧ State.Isolates m.config m.state m₂.state := by
  have hinv := hm.invariant
  have hb := hinv.environment.builtins
  induction hrun with
  | refl =>
      have hfirst : m.Continues m₁ := .turn henter
      obtain ⟨hconfig, hb₁⟩ := hfirst.setup hb
      refine ⟨hconfig, hb₁, hfirst.fits hb hinv.fits, ?_⟩
      cases turned henter with
      | continued hexec =>
          have hsame := hexec.fetched
          rw [hnext.fetched] at hsame
          cases hsame
          exact .call hexec.stepped
  | tail _ hstep ih =>
      obtain ⟨hmoves, hinside⟩ := hstep
      obtain ⟨hconfig, hb₁, hfits, hisolates⟩ := ih
      obtain ⟨hconfig', hb'⟩ := hmoves.setup hb₁
      rw [← hconfig] at hfits hisolates ⊢
      exact ⟨hconfig', hb', hmoves.fits hb₁ hfits, hmoves.isolates hfits hinside hisolates⟩

/-- **The locals of active calls are isolated.** From a call instruction on, until the call has
been left, the windows of the calls around it hold the same words, and those of the calls that are
still active load the same words. Accesses to locals change no global slot, and stores to globals
change no local slot. Inside of a call, an access to a local fails because of its address exactly
if the offset is outside of the window. -/
theorem Reachable.locals_isolated (hm : Reachable m) :
    (∀ target m₁ m₂, m.Dispatches (.call target) → m.turn = (none, m₁) →
      Relation.ReflTransGen
        (fun a b => a.Moves b ∧ m.state.calls.depth < a.state.calls.depth) m₁ m₂ →
      (∀ n < m.state.calls.depth * m.config.slotsPerFrame,
        m₂.state.memory.locals[n]? = m.state.memory.locals[n]?) ∧
      ∀ n < m.state.calls.depth, ∀ frame, m₂.state.calls.frames[n]? = some frame →
        m.state.calls.frames[n]? = some frame ∧ ∀ offset,
          m₂.state.memory.loadLocal frame.base offset =
            m.state.memory.loadLocal frame.base offset) ∧
    (∀ operand,
      (m.state.step m.environment (.loadLocal operand)).2.memory.globals =
        m.state.memory.globals ∧
      (m.state.step m.environment (.storeLocal operand)).2.memory.globals =
        m.state.memory.globals ∧
      (m.state.step m.environment (.store operand)).2.memory.locals = m.state.memory.locals) ∧
    (0 < m.state.calls.depth → ∀ offset,
      ((∃ address s, State.execute m.environment (.loadLocal offset) m.state =
          .error (.invalidMemoryAddress address) s) ↔
        ¬ (0 ≤ offset.toInt ∧ offset.toInt < m.config.slotsPerFrame)) ∧
      (0 < m.state.stack.depth →
        ((∃ address s, State.execute m.environment (.storeLocal offset) m.state =
            .error (.invalidMemoryAddress address) s) ↔
          ¬ (0 ≤ offset.toInt ∧ offset.toInt < m.config.slotsPerFrame)))) := by
  have hfits := hm.invariant.fits
  refine ⟨fun target m₁ m₂ hnext henter hrun => ?_, fun operand => ⟨?_, ?_, ?_⟩,
    fun hactive offset => ⟨?_, fun hword => ?_⟩⟩
  · obtain ⟨-, -, hfits₂, hisolates⟩ := hm.isolates hnext henter hrun
    exact ⟨hisolates.locals, fun n hn frame hframe => hisolates.loadLocal hfits hfits₂ hn hframe⟩
  · rw [State.step_loadLocal]
  · exact State.step_storeLocal m.state m.environment operand
  · exact State.step_store m.state m.environment operand
  · exact hfits.loadLocal_fails_iff hactive m.environment offset
  · exact hfits.storeLocal_fails_iff hactive hword m.environment offset

/-- `CALL 3; HALT; PUSH 5; STORE_LOCAL 0; CALL 10; HALT; PUSH 6; STORE_LOCAL 0; RET`: the inner
call stores 6 to its local 0, and that of the outer call stays 5. -/
theorem Reachable.locals_isolated_nested_calls :
    ∃ m m₂ : Machine, m.state.pc = 7 ∧ m₂.state.pc = 9 ∧ m.state.memory.locals = #[5, 0] ∧
      m₂.state.memory.locals[1]? = some 6 ∧
      m₂.state.memory.locals[0]? = m.state.memory.locals[0]? ∧
      m₂.state.memory.loadLocal 0 0 = m.state.memory.loadLocal 0 0 ∧
      ∃ address s, State.execute m.environment (.loadLocal 1) m.state =
        .error (.invalidMemoryAddress address) s := by
  let m : Machine :=
    (((ofConfig Config.tiny).load #[12, 3, 0, 1, 5, 15, 0, 12, 10, 0, 1, 6, 15, 0, 13]).drive 3
      .start).2
  let m₁ : Machine := m.turn.2
  let m₂ : Machine := m₁.turn.2.turn.2.turn.2
  have hm : Reachable m := .operate (.create _ create_tiny) (.drive 3 .start)
  have hnext : m.Dispatches (.call 10) :=
    ⟨⟨by decide +kernel, by decide +kernel⟩, by decide +kernel, by decide +kernel⟩
  have hnone : m.turn.1 = none := by decide +kernel
  have henter : m.turn = (none, m₁) := by rw [← hnone]
  have hturn : ∀ a : Machine, m.state.calls.depth < a.state.calls.depth →
      a.Moves a.turn.2 ∧ m.state.calls.depth < a.state.calls.depth :=
    fun a ha => ⟨.continues (.of_turn a), ha⟩
  have hrun : Relation.ReflTransGen (fun a b : Machine => a.Moves b ∧
      m.state.calls.depth < a.state.calls.depth) m₁ m₂ :=
    .tail (.tail (.single (hturn m₁ (by decide +kernel))) (hturn m₁.turn.2 (by decide +kernel)))
      (hturn m₁.turn.2.turn.2 (by decide +kernel))
  obtain ⟨hcalls, -, hfails⟩ := locals_isolated hm
  obtain ⟨hlocals, hloads⟩ := hcalls 10 m₁ m₂ hnext henter hrun
  have hframe : m₂.state.calls.frames[0]? = some ⟨2, 0, 0⟩ := by decide +kernel
  have hbefore : m.state.memory.locals = #[5, 0] := by decide +kernel
  have hafter : m₂.state.memory.locals[1]? = some 6 := by decide +kernel
  have hload := (hloads 0 (by decide +kernel) _ hframe).2 0
  have hfail := (hfails (by decide +kernel) 1).1.mpr (by decide +kernel)
  exact ⟨m, m₂, by decide +kernel, by decide +kernel, hbefore, hafter,
    hlocals 0 (by decide +kernel), hload, hfail⟩

end Machine

end StackMachine
