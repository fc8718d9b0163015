import StackMachine.Proofs.Execution.Limits
import StackMachine.Proofs.Execution.Run

set_option autoImplicit false

/-! # Leaving an activation

While a call is active, the calls around it stay as they are (`State.Inside`). It can be left in
two ways only (`State.Left`): it returns to its return address, or an exception goes to a handler
of one of the calls around it, and this handler was already there. A step that does neither keeps
the call active (`State.Inside.step`), so a run that has left it has left it in one of these ways
(`State.Inside.run`).
-/

namespace StackMachine.State

/-- The calls `frames` are below all others, and the handlers of the calls around the innermost of
them are among `outer`. -/
structure Inside (frames : List Frame) (outer : List Handler) (s : State) : Prop where
  calls : frames <+: s.calls.frames.toList
  handlers : ∀ handler ∈ s.handlers.blocks.toList, handler.callDepth < frames.length →
    handler ∈ outer

/-- The innermost of the calls `frames` has just been left: it has returned, or a handler in
`outer` of a call around it has received an exception. -/
inductive Left (frames : List Frame) (outer : List Handler) (s : State) : Prop
  | returned {frame : Frame} :
      frames.getLast? = some frame → s.pc = frame.returnAddress →
      s.calls.frames.toList = frames.dropLast → Left frames outer s
  | caught {handler : Handler} :
      handler ∈ outer → handler.callDepth < frames.length → s.pc = handler.target →
      s.calls.frames.toList = frames.take handler.callDepth → Left frames outer s

variable {frames : List Frame} {outer : List Handler} {s s' : State}

theorem Left.depth_lt (h : s.Left frames outer) : s.calls.depth < frames.length := by
  have hdepth : s.calls.depth = s.calls.frames.toList.length := Array.length_toList.symm
  cases h with
  | returned hlast _ hframes =>
      have hpos : 0 < frames.length := List.length_pos_of_mem (List.mem_of_getLast? hlast)
      rw [hdepth, hframes, List.length_dropLast]
      omega
  | caught _ hlt _ hframes =>
      rw [hdepth, hframes, List.length_take]
      omega

namespace Inside

theorem depth_le (h : s.Inside frames outer) : frames.length ≤ s.calls.depth := by
  rw [show s.calls.depth = s.calls.frames.toList.length from Array.length_toList.symm]
  exact h.calls.length_le

theorem self (s : State) : s.Inside s.calls.frames.toList s.handlers.blocks.toList :=
  ⟨List.prefix_refl _, fun _ hmem _ => hmem⟩

theorem congr (h : s.Inside frames outer) (hcalls : s'.calls = s.calls)
    (hhandlers : s'.handlers = s.handlers) : s'.Inside frames outer := by
  refine ⟨?_, ?_⟩
  · rw [hcalls]
    exact h.calls
  · rw [hhandlers]
    exact h.handlers

theorem control (h : s.Inside frames outer) (hc : SameControl s s') : s'.Inside frames outer :=
  h.congr hc.calls hc.handlers

/-- Leaving handlers is no way to leave a call. -/
theorem sublist (h : s.Inside frames outer) (hcalls : frames <+: s'.calls.frames.toList)
    (hhandlers : s'.handlers.blocks.toList.Sublist s.handlers.blocks.toList) :
    s'.Inside frames outer :=
  ⟨hcalls, fun handler hmem => h.handlers handler (hhandlers.subset hmem)⟩

/-- A new handler belongs to the innermost call. -/
theorem pushHandler (h : s.Inside frames outer) (target stackPointer : Nat) :
    Inside frames outer
      { s with handlers := s.handlers.push ⟨target, stackPointer, s.calls.depth⟩ } := by
  refine ⟨h.calls, fun handler hmem hlt => ?_⟩
  rcases Handlers.mem_push.mp hmem with hmem | rfl
  · exact h.handlers handler hmem hlt
  · exact absurd h.depth_le (Nat.not_le.mpr hlt)

/-- **Returning leaves the innermost call** and no other. -/
theorem returned (h : s.Inside frames outer) {frame : Frame}
    (hback : s.calls.frames.back? = some frame) :
    Inside frames outer { s.returned with pc := frame.returnAddress } ∨
      Left frames outer { s.returned with pc := frame.returnAddress } := by
  obtain ⟨init, hinit⟩ := Array.back?_eq_some_iff.mp hback
  have hpop : s.returned.calls.frames.toList = init.toList := by
    rw [State.returned, hinit, Array.pop_push]
  have hcalls := h.calls
  rw [hinit, Array.toList_push, List.prefix_concat_iff] at hcalls
  rcases hcalls with hall | hbelow
  · have hlast : frames.getLast? = some frame := by rw [hall, List.getLast?_concat]
    refine Or.inr (.returned hlast rfl ?_)
    show s.returned.calls.frames.toList = _
    rw [hpop, hall, List.dropLast_concat]
  · refine Or.inl (h.sublist ?_ (s.handlers.discardAbove_sublist _))
    show _ <+: s.returned.calls.frames.toList
    rw [hpop]
    exact hbelow

/-- **An exception leaves the innermost call if its handler belongs to a call around it.** -/
theorem caught (h : s.Inside frames outer) {handler : Handler}
    (hinner : s.handlers.innermost? = some handler) (value : Word) :
    Inside frames outer { s.caught handler value with pc := handler.target } ∨
      Left frames outer { s.caught handler value with pc := handler.target } := by
  have hunwound : (s.caught handler value).calls.frames.toList =
      s.calls.frames.toList.take handler.callDepth := by
    rw [State.caught, CallStack.unwindTo, Array.toList_shrink]
  rcases Nat.lt_or_ge handler.callDepth frames.length with hlt | hge
  · refine Or.inr (.caught (h.handlers handler (Handlers.mem_of_innermost? hinner) hlt) hlt rfl ?_)
    show (s.caught handler value).calls.frames.toList = _
    obtain ⟨rest, hrest⟩ := h.calls
    rw [hunwound, ← hrest, List.take_append_of_le_length (Nat.le_of_lt hlt)]
  · refine Or.inl (h.sublist ?_ s.handlers.dropInnermost_isPrefix.sublist)
    show _ <+: (s.caught handler value).calls.frames.toList
    rw [hunwound]
    exact List.prefix_take_iff.mpr ⟨h.calls, hge⟩

/-- **A step keeps a call active or leaves it in one of the two ways**, whatever the builtins
do. -/
theorem step (h : s.Inside frames outer) {env : Environment} {i : Instruction}
    (hstep : s.step env i = (.continued, s')) : s'.Inside frames outer ∨ s'.Left frames outer := by
  have htick : s.tick.Inside frames outer := h.congr rfl rfl
  cases (covers_anyBuiltins env).stepped hstep with
  | @completed flow s₁ he =>
      cases he with
      | data _ hc => exact Or.inl ((htick.control hc).congr rfl rfl)
      | halt => exact Or.inl (htick.congr rfl rfl)
      | jump _ _ hc => exact Or.inl ((htick.control hc).congr rfl rfl)
      | skip _ hc => exact Or.inl ((htick.control hc).congr rfl rfl)
      | call =>
          refine Or.inl (htick.sublist ?_ (List.Sublist.refl _))
          show _ <+: s.tick.entered.calls.frames.toList
          rw [State.entered, Array.toList_push]
          exact htick.calls.trans (List.prefix_append _ _)
      | ret hback => exact htick.returned hback
      | enterTry => exact Or.inl ((htick.pushHandler _ _).congr rfl rfl)
      | leaveTry =>
          exact Or.inl (htick.sublist htick.calls (Handlers.dropInnermost_isPrefix _).sublist)
      | throw hc hinner => exact (htick.control hc).caught hinner _
  | caught hc _ hinner => exact (htick.control hc).caught hinner _

/-- **A run keeps a call active as long as it is deep enough**, and the step that ends this leaves
the call in one of the two ways. -/
theorem run (h : s.Inside frames outer) {env : Environment} {budget : Option Nat} {k : Nat}
    (hrun : s.run env budget k = (none, s'))
    (hdeep : ∀ j < k, ∀ s₁, s.run env budget j = (none, s₁) → frames.length ≤ s₁.calls.depth) :
    s'.Inside frames outer ∨ s'.Left frames outer := by
  induction k generalizing s with
  | zero =>
      cases hrun
      exact Or.inl h
  | succ k ih =>
      obtain ⟨s₁, hadvance, hrest⟩ := run_succ_eq_none hrun
      obtain ⟨-, i, -, hstep⟩ := advance_eq_none hadvance
      rcases h.step hstep with hinside | hleft
      · refine ih hinside hrest fun j hj s₂ hs₂ => ?_
        refine hdeep (j + 1) (by omega) s₂ ?_
        rw [run_succ_of_none hadvance]
        exact hs₂
      · -- only the last step can leave the call
        cases k with
        | zero =>
            cases hrest
            exact Or.inr hleft
        | succ k =>
            have hle := hdeep 1 (by omega) s₁ (run_succ_of_none hadvance)
            exact absurd hleft.depth_lt (Nat.not_lt.mpr hle)

end Inside

end StackMachine.State
