import Mathlib.Control.Monad.Basic
import StackMachine.Proofs.Machine.Invariant

set_option autoImplicit false

/-! # Catching restores the activation

A handler is entered with some calls active and some handlers around it. As long as it stays
active, these calls stay where they are below all later ones, and these handlers below all later
ones (`State.Guards`): a call can be left only together with its handlers, and a handler only
together with those inside it. So when the handler receives an exception, going back to a depth
goes back to the very calls that were active when it was entered
(`Machine.Reachable.catch_restores`).
-/

namespace StackMachine

/-! ## What stays below a handler -/

/-- In handlers that are nested like their calls, dropping those of inner calls drops inner
handlers only. -/
theorem Handlers.Nested.discardAbove_isPrefix {h : Handlers} {callDepth : Nat}
    (hn : h.Nested callDepth) (callDepth' : Nat) :
    (h.discardAbove callDepth').blocks.toList <+: h.blocks.toList := by
  rw [Handlers.discardAbove, Array.toList_filter]
  have hsorted := hn.sorted
  generalize h.blocks.toList = blocks at hsorted ⊢
  induction blocks with
  | nil => exact List.nil_prefix
  | cons first rest ih =>
      obtain ⟨hfirst, hrest⟩ := List.pairwise_cons.mp hsorted
      by_cases hle : first.callDepth ≤ callDepth'
      · rw [List.filter_cons_of_pos (by simpa using hle)]
        exact (List.prefix_cons_inj first).mpr (ih hrest)
      · -- all further handlers belong to calls at least as deep as the first
        have hnone :
            (first :: rest).filter (fun handler => handler.callDepth ≤ callDepth') = [] := by
          refine List.filter_eq_nil_iff.mpr fun handler hmem => ?_
          rcases List.mem_cons.mp hmem with rfl | hmem
          · simpa using hle
          · have := hfirst handler hmem
            simp
            omega
        rw [hnone]
        exact List.nil_prefix

namespace State

/-- The calls `frames` are below all others, and so are the handlers `outer` with `handler`,
which was entered in these calls. -/
structure Guards (frames : List Frame) (outer : List Handler) (handler : Handler) (s : State) :
    Prop where
  entered : handler.callDepth = frames.length
  calls : frames <+: s.calls.frames.toList
  handlers : (outer ++ [handler]) <+: s.handlers.blocks.toList

namespace Guards

variable {config : Config} {frames : List Frame} {outer : List Handler} {handler : Handler}
  {s s' : State}

/-- New calls and handlers are added above. -/
theorem extend (h : s.Guards frames outer handler)
    (hcalls : s.calls.frames.toList <+: s'.calls.frames.toList)
    (hhandlers : s.handlers.blocks.toList <+: s'.handlers.blocks.toList) :
    s'.Guards frames outer handler :=
  ⟨h.entered, h.calls.trans hcalls, h.handlers.trans hhandlers⟩

theorem congr (h : s.Guards frames outer handler) (hcalls : s'.calls = s.calls)
    (hhandlers : s'.handlers = s.handlers) : s'.Guards frames outer handler := by
  refine ⟨h.entered, ?_, ?_⟩
  · rw [hcalls]
    exact h.calls
  · rw [hhandlers]
    exact h.handlers

theorem bounded (h : s.Guards frames outer handler) (hb : Bounded s s') :
    s'.Guards frames outer handler :=
  h.congr hb.control.calls hb.control.handlers

/-- **Calls and handlers are left from above**, and not below a handler that stays active. -/
theorem shrink (h : s.Guards frames outer handler) (hfits : s'.Fits config)
    (hcalls : s'.calls.frames.toList <+: s.calls.frames.toList)
    (hhandlers : s'.handlers.blocks.toList <+: s.handlers.blocks.toList)
    (hactive : outer.length < s'.handlers.depth) : s'.Guards frames outer handler := by
  have hstays : (outer ++ [handler]) <+: s'.handlers.blocks.toList := by
    refine List.prefix_of_prefix_length_le h.handlers hhandlers ?_
    rw [List.length_append, List.length_singleton, Array.length_toList]
    exact hactive
  -- a handler that is still active belongs to a call that is still active
  have hdepth : handler.callDepth ≤ s'.calls.depth :=
    hfits.nested.active handler (hstays.subset (by simp))
  refine ⟨h.entered, List.prefix_of_prefix_length_le h.calls hcalls ?_, hstays⟩
  rw [← h.entered, Array.length_toList]
  exact hdepth

/-- **A step keeps what is below a handler that stays active.** -/
theorem stepped (h : s.Guards frames outer handler) (hs : s.Fits config) (hs' : s'.Fits config)
    {E : Fault → Prop} {env : Environment} {i : Instruction} {event : Event}
    (hstep : Stepped Bounded E env s i event s') (hactive : outer.length < s'.handlers.depth) :
    s'.Guards frames outer handler := by
  have htick : s.tick.Guards frames outer handler := h.congr rfl rfl
  cases hstep with
  | @completed flow s₁ he =>
      have hfits₁ : s₁.Fits config := hs.tick.effect he
      rw [follow_handlers] at hactive
      refine Guards.congr ?_ (follow_calls ..) (follow_handlers ..)
      cases he with
      | data _ hb => exact htick.bounded hb
      | halt => exact htick
      | jump _ _ hb => exact htick.bounded hb
      | skip _ hb => exact htick.bounded hb
      | call =>
          refine htick.extend ?_ (List.prefix_refl _)
          rw [State.entered, Array.toList_push]
          exact List.prefix_append _ _
      | ret =>
          exact htick.shrink hfits₁ (returned_isPrefix _) (hs.tick.nested.discardAbove_isPrefix _)
            hactive
      | enterTry =>
          refine htick.extend (List.prefix_refl _) ?_
          rw [Handlers.toList_push]
          exact List.prefix_append _ _
      | leaveTry =>
          exact htick.shrink hfits₁ (List.prefix_refl _) (Handlers.dropInnermost_isPrefix _) hactive
      | throw hb =>
          exact (htick.bounded hb).shrink hfits₁ (CallStack.unwindTo_isPrefix _ _)
            (Handlers.dropInnermost_isPrefix _) hactive
  | caught hb =>
      exact (htick.bounded hb).shrink hs' (CallStack.unwindTo_isPrefix _ _)
        (Handlers.dropInnermost_isPrefix _) hactive
  | escaped hb => exact htick.bounded hb
  | failed hb => exact (htick.bounded hb).congr rfl rfl

/-- When the handler is the innermost one, there are no others but those around it. -/
theorem handlers_eq {handlers : Handlers}
    (h : s.Guards frames handlers.blocks.toList handler)
    (hdepth : s.handlers.depth = handlers.depth + 1) : s.handlers = handlers.push handler := by
  have hlist : s.handlers.blocks.toList = (handlers.blocks.push handler).toList := by
    rw [Array.toList_push]
    refine (h.handlers.eq_of_length ?_).symm
    rw [List.length_append, List.length_singleton, Array.length_toList, Array.length_toList]
    exact hdepth.symm
  exact congrArg Handlers.mk (Array.toList_inj.mp hlist)

/-- Going back to the depth of the handler goes back to the calls it was entered in. -/
theorem unwindTo_eq (h : s.Guards frames outer handler) (hs : s.calls.Fits config)
    {calls : CallStack} (hcalls : calls.Fits config) (hframes : calls.frames.toList = frames) :
    s.calls.unwindTo handler.callDepth = calls := by
  have hlist : (s.calls.unwindTo handler.callDepth).frames.toList = calls.frames.toList := by
    rw [CallStack.unwindTo, Array.toList_shrink, h.entered, hframes]
    exact (List.prefix_iff_eq_take.mp h.calls).symm
  have hsame : (s.calls.unwindTo handler.callDepth).frames = calls.frames :=
    Array.toList_inj.mp hlist
  cases calls with
  | mk frames' slotsPerFrame maxDepth =>
      rw [CallStack.unwindTo] at hsame ⊢
      rw [CallStack.mk.injEq]
      exact ⟨hsame, hs.slotsPerFrame.trans hcalls.slotsPerFrame.symm,
        hs.maxDepth.trans hcalls.maxDepth.symm⟩

end Guards

/-! ## Raising -/

/-- Instruction `i` raises an exception with `value`: it throws the value, or it stops with a
fault of this number that a handler can receive. What it has taken from the stack by then is gone
in `raised`. -/
inductive Raises (env : Environment) (s : State) : Instruction → Word → State → Prop
  | throw {value : Word} {raised : State} :
      pop s.tick = .ok value raised → Raises env s .throw value raised
  | fault {i : Instruction} {fault : Fault} {raised : State} :
      execute env i s.tick = .error fault raised → fault.Catchable →
      Raises env s i fault.code raised

namespace Raises

variable {env : Environment} {s raised : State} {i : Instruction} {value : Word}
  {handler : Handler}

theorem bounded {E : Fault → Prop} (h : Raises env s i value raised)
    (hc : Covers env Bounded E) : Bounded s.tick raised := by
  cases h with
  | throw hpop => exact (hc.pop.ok hpop).1
  | fault hx => exact (hc.execute_error (fun _ => hc.input) hx).1

/-- A handler with room on the stack receives the exception. -/
theorem step_caught (h : Raises env s i value raised)
    (hinner : raised.handlers.innermost? = some handler)
    (hroom : handler.stackPointer < raised.stack.limit) :
    s.step env i = (.continued, { raised.caught handler value with pc := handler.target }) := by
  have hdeliver : deliver value raised = .ok (some handler.target) (raised.caught handler value) :=
    deliver_eq_some.mpr ⟨handler, hinner, hroom, rfl, rfl⟩
  cases h with
  | throw hpop =>
      refine step_of_jump ?_
      exact Action.bind_eq_ok.mpr
        ⟨value, raised, hpop, Action.bind_eq_ok.mpr ⟨some handler.target, _, hdeliver, rfl⟩⟩
  | fault hx hcatch => rw [step_of_error hx, handle_of_catchable hcatch, hdeliver]

/-- A handler without room on the stack ends the run. -/
theorem step_overflow (h : Raises env s i value raised)
    (hinner : raised.handlers.innermost? = some handler)
    (hfull : raised.stack.limit ≤ handler.stackPointer) :
    s.step env i =
      (.failed (raised.fail i.opcode (.stackOverflow raised.stack.limit)).1,
        (raised.fail i.opcode (.stackOverflow raised.stack.limit)).2) := by
  have hdeliver : ∀ value, deliver value raised =
      .error (.stackOverflow raised.stack.limit) raised := fun value =>
    deliver_eq_error.mpr ⟨handler, hinner, hfull, rfl, rfl⟩
  cases h with
  | throw hpop =>
      have hx : execute env .throw s.tick = .error (.stackOverflow raised.stack.limit) raised :=
        Action.bind_eq_error.mpr (Or.inr
          ⟨value, raised, hpop, Action.bind_eq_error.mpr (Or.inl (hdeliver value))⟩)
      -- the overflow is a fault of its own, and it meets the same handler
      rw [step_of_error hx, handle_of_catchable rfl, hdeliver]
  | fault hx hcatch => rw [step_of_error hx, handle_of_catchable hcatch, hdeliver]

end Raises

/-- A handler that is entered remembers where the run stands. -/
theorem step_enterTry {env : Environment} {s s' : State} {target : Word}
    (h : s.step env (.enterTry target) = (.continued, s')) :
    ∃ offset, Word.index? target = some offset ∧ s'.calls = s.calls ∧
      s'.handlers = s.handlers.push ⟨offset, s.stack.depth, s.calls.depth⟩ := by
  cases htarget : env.target target with
  | ok offset =>
      have hx : execute env (.enterTry target) s.tick = .ok .next
          { s.tick with handlers := s.handlers.push ⟨offset, s.stack.depth, s.calls.depth⟩ } :=
        Action.ofExcept_bind_eq_ok.mpr ⟨offset, htarget, rfl⟩
      change execute env (.enterTry target) { s with executed := s.executed + 1 } = _ at hx
      rw [step, hx] at h
      cases h
      exact ⟨offset, (Environment.target_eq_ok.mp htarget).1, rfl, rfl⟩
  | error fault =>
      have hx : execute env (.enterTry target) s.tick = .error fault s.tick :=
        Action.ofExcept_bind_eq_error.mpr (Or.inl ⟨htarget, rfl⟩)
      cases Environment.target_eq_error htarget
      rw [step_of_error hx] at h
      cases h

end State

namespace Machine

/-! ## Runs -/

section Continues

variable {m m' : Machine}

/-- Steps of a run keep the limits. -/
theorem Continues.fits (h : m.Continues m') (hb : m.environment.builtins.Obeys fun _ => True)
    (hm : m.state.Fits m.config) : m'.state.Fits m.config := by
  have hc := State.covers_bounded (fun _ _ => trivial) hb
  cases h with
  | turn hturn =>
      cases turned hturn with
      | ended => exact hm.congr rfl rfl rfl rfl rfl
      | paused => exact hm
      | refused => exact hm.fail _ _
      | continued hexec => exact hm.stepped (hc.stepped hexec.stepped)
      | failed hexec => exact hm.stepped (hc.stepped hexec.stepped)
      | suspended hexec =>
          exact (hm.stepped (hc.stepped hexec.stepped)).congr rfl rfl rfl rfl rfl
      | abandoned hexec => exact (hm.stepped (hc.stepped hexec.stepped)).abandon _
  | resume hcall => rw [prepare_state hcall]; exact hm
  | input words => exact hm.congr rfl rfl rfl rfl rfl
  | edit e => exact hm
  | register id => exact hm
  | heap hx => exact hm.bounded (State.bounded_onHeap hx m.state)

/-- **Steps of a run keep what is below a handler that stays active.** -/
theorem Continues.guards (h : m.Continues m') (hb : m.environment.builtins.Obeys fun _ => True)
    (hm : m.state.Fits m.config) {frames : List Frame} {outer : List Handler} {handler : Handler}
    (hguards : m.state.Guards frames outer handler)
    (hactive : outer.length < m'.state.handlers.depth) :
    m'.state.Guards frames outer handler := by
  have hc := State.covers_bounded (fun _ _ => trivial) hb
  cases h with
  | turn hturn =>
      cases turned hturn with
      | ended => exact hguards.congr rfl rfl
      | paused => exact hguards
      | refused => exact hguards.congr rfl rfl
      | continued hexec =>
          have hstepped := hc.stepped hexec.stepped
          exact hguards.stepped hm (hm.stepped hstepped) hstepped hactive
      | failed hexec =>
          have hstepped := hc.stepped hexec.stepped
          exact hguards.stepped hm (hm.stepped hstepped) hstepped hactive
      | suspended hexec =>
          have hstepped := hc.stepped hexec.stepped
          exact (hguards.stepped hm (hm.stepped hstepped) hstepped hactive).congr rfl rfl
      | abandoned => exact absurd hactive (Nat.not_lt_zero _)
  | resume hcall => rw [prepare_state hcall]; exact hguards
  | input words => exact hguards.congr rfl rfl
  | edit e => exact hguards
  | register id => exact hguards
  | heap hx => exact hguards.bounded (State.bounded_onHeap hx m.state)

end Continues

/-- The turn in which a handler is entered. -/
theorem Dispatches.enterTry {m m' : Machine} {target : Word}
    (h : m.Dispatches (.enterTry target)) (hturn : m.turn = (none, m')) :
    ∃ offset, Word.index? target = some offset ∧ m'.state.calls = m.state.calls ∧
      m'.state.handlers =
        m.state.handlers.push ⟨offset, m.state.stack.depth, m.state.calls.depth⟩ := by
  cases turned hturn with
  | continued hexec =>
      have hsame := hexec.fetched
      rw [h.fetched] at hsame
      cases hsame
      exact State.step_enterTry hexec.stepped

/-- From where it is entered on, a handler that stays active has the calls and handlers of its
machine below it. -/
theorem Reachable.guards {m m₁ m₂ : Machine} (hm : Reachable m) {target : Word}
    (hnext : m.Dispatches (.enterTry target)) (henter : m.turn = (none, m₁))
    (hrun : Relation.ReflTransGen
      (fun a b => a.Continues b ∧ m.state.handlers.depth < b.state.handlers.depth) m₁ m₂) :
    ∃ offset, Word.index? target = some offset ∧ m₂.config = m.config ∧
      (m₂.environment.builtins.Obeys fun _ => True) ∧ m₂.state.Fits m.config ∧
      m₂.state.Guards m.state.calls.frames.toList m.state.handlers.blocks.toList
        ⟨offset, m.state.stack.depth, m.state.calls.depth⟩ := by
  have hinv := hm.invariant
  have hb := hinv.environment.builtins
  obtain ⟨offset, hoffset, hcalls, hhandlers⟩ := hnext.enterTry henter
  refine ⟨offset, hoffset, ?_⟩
  induction hrun with
  | refl =>
      have hfirst : m.Continues m₁ := .turn henter
      have hlist : m.state.handlers.blocks.toList ++
          [⟨offset, m.state.stack.depth, m.state.calls.depth⟩] =
            m₁.state.handlers.blocks.toList := by
        rw [hhandlers, Handlers.toList_push]
      obtain ⟨hconfig, hb₁⟩ := hfirst.setup hb
      refine ⟨hconfig, hb₁, hfirst.fits hb hinv.fits, ?_, ?_, ?_⟩
      · exact Array.length_toList.symm
      · exact hcalls ▸ List.prefix_refl _
      · exact hlist ▸ List.prefix_refl _
  | tail _ hstep ih =>
      obtain ⟨hcont, hactive⟩ := hstep
      obtain ⟨hconfig, hb₁, hfits, hguards⟩ := ih
      obtain ⟨hconfig', hb'⟩ := hcont.setup hb₁
      rw [← hconfig] at hfits
      refine ⟨hconfig'.trans hconfig, hb', ?_, ?_⟩
      · rw [← hconfig]
        exact hcont.fits hb₁ hfits
      · refine hcont.guards hb₁ hfits hguards ?_
        rw [Array.length_toList]
        exact hactive

/-- **Catching restores the activation that entered the handler.** Machine `m` stands before
`ENTER_TRY target`, and the handler that it enters stays active until `m₂`, where it is the
innermost one and receives an exception. If there was room on the operand stack when it was
entered, calls and handlers are again those of `m`, control is at the target, and the operand
stack is cut down to its depth in `m` with the value on top. If there was none, the run ends and
calls and handlers stay as they are. -/
theorem Reachable.catch_restores {m m₁ m₂ : Machine} (hm : Reachable m) {target : Word}
    (hnext : m.Dispatches (.enterTry target)) (henter : m.turn = (none, m₁))
    (hrun : Relation.ReflTransGen
      (fun a b => a.Continues b ∧ m.state.handlers.depth < b.state.handlers.depth) m₁ m₂)
    (hinner : m₂.state.handlers.depth = m.state.handlers.depth + 1) {i : Instruction}
    (hdispatch : m₂.Dispatches i) {value : Word} {raised : State}
    (hraise : m₂.state.Raises m₂.environment i value raised) :
    (m.state.stack.depth < m.config.maxStackDepth →
      ∃ m₃, m₂.turn = (none, m₃) ∧ m₃.state.calls = m.state.calls ∧
        m₃.state.handlers = m.state.handlers ∧ Word.index? target = some m₃.state.pc ∧
        m₃.state.stack.values.toList =
          raised.stack.values.toList.take (min m.state.stack.depth raised.stack.depth) ++ [value]) ∧
    (m.config.maxStackDepth ≤ m.state.stack.depth →
      ∃ failure m₃, m₂.turn = (some (.failed failure), m₃) ∧
        failure.fault = .stackOverflow m.config.maxStackDepth ∧
        m₃.state.calls = m₂.state.calls ∧ m₃.state.handlers = m₂.state.handlers) := by
  obtain ⟨offset, hoffset, -, hbuiltins, hfits, hguards⟩ := hm.guards hnext henter hrun
  have hfits₀ := hm.invariant.fits
  -- what the instruction took from the stack before it raised the exception moved no control
  have hb := hraise.bounded (State.covers_bounded (fun _ _ => trivial) hbuiltins)
  have hraised : raised.Fits m.config := hfits.tick.bounded hb
  have htick : m₂.state.tick.Guards m.state.calls.frames.toList m.state.handlers.blocks.toList
      ⟨offset, m.state.stack.depth, m.state.calls.depth⟩ := hguards.congr rfl rfl
  have hguards' := htick.bounded hb
  have hhandlers : raised.handlers =
      m.state.handlers.push ⟨offset, m.state.stack.depth, m.state.calls.depth⟩ := by
    refine hguards'.handlers_eq ?_
    rw [hb.control.handlers]
    exact hinner
  have hreceiver : raised.handlers.innermost? =
      some ⟨offset, m.state.stack.depth, m.state.calls.depth⟩ := by
    rw [hhandlers]
    exact Array.back?_push
  refine ⟨fun hroom => ?_, fun hfull => ?_⟩
  · rw [← hraised.stack.limit] at hroom
    have hexec : m₂.Executes i .continued _ := ⟨hdispatch, hraise.step_caught hreceiver hroom⟩
    refine ⟨_, hexec.turn_continued, ?_, ?_, hoffset, ?_⟩
    · exact hguards'.unwindTo_eq hraised.calls hfits₀.calls rfl
    · show raised.handlers.dropInnermost = m.state.handlers
      rw [hhandlers]
      exact congrArg Handlers.mk Array.pop_push
    · have hdepth : raised.stack.depth = raised.stack.values.toList.length :=
        Array.length_toList.symm
      show ((raised.stack.values.shrink m.state.stack.depth).push value).toList = _
      rw [Array.toList_push, Array.toList_shrink, hdepth, ← List.take_eq_take_min]
  · rw [← hraised.stack.limit] at hfull
    have hexec : m₂.Executes i (.failed _) _ := ⟨hdispatch, hraise.step_overflow hreceiver hfull⟩
    refine ⟨_, _, hexec.turn_failed, ?_, hb.control.calls, hb.control.handlers⟩
    rw [← hraised.stack.limit]
    rfl

/-- `ENTER_TRY 8; PUSH 9; CALL 7; HALT; THROW; HALT` throws inside the call. -/
theorem Reachable.catch_restores_inside_call :
    ∃ m m₃ : Machine, m.state.pc = 0 ∧ m₃.state.calls = m.state.calls ∧
      m₃.state.handlers = m.state.handlers ∧ m₃.state.stack.values.toList = [9] := by
  let m : Machine :=
    (((ofConfig Config.tiny).load #[16, 8, 1, 9, 12, 7, 0, 18, 0]).drive 0 .start).2
  let m₂ : Machine := m.turn.2.turn.2.turn.2
  have hm : Reachable m := .operate (.create _ create_tiny) (.drive 0 .start)
  have hnext : m.Dispatches (.enterTry 8) :=
    ⟨⟨by decide +kernel, by decide +kernel⟩, by decide +kernel, by decide +kernel⟩
  have henter : m.turn = (none, m.turn.2) := Prod.ext (by decide +kernel) rfl
  have hrun : Relation.ReflTransGen (fun a b : Machine => a.Continues b ∧
      m.state.handlers.depth < b.state.handlers.depth) m.turn.2 m₂ :=
    .tail (.single ⟨.of_turn _, by decide +kernel⟩) ⟨.of_turn _, by decide +kernel⟩
  have hdispatch : m₂.Dispatches .throw :=
    ⟨⟨by decide +kernel, by decide +kernel⟩, by decide +kernel, by decide +kernel⟩
  have hraise : m₂.state.Raises m₂.environment .throw 9 _ :=
    .throw (State.pop_of_back? (by decide +kernel))
  obtain ⟨m₃, -, hcalls, hhandlers, -, hvalues⟩ :=
    (catch_restores hm hnext henter hrun (by decide +kernel) hdispatch hraise).1 (by decide +kernel)
  refine ⟨m, m₃, by decide +kernel, hcalls, hhandlers, hvalues.trans ?_⟩
  decide +kernel

end Machine

end StackMachine
