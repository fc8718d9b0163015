import Mathlib.Logic.Relation
import StackMachine.Proofs.Machine.Host

set_option autoImplicit false

/-! # Runs that have ended

A run ends when it halts or fails. However it has come to that, it is marked in the state: the
machine has halted, or the failure is kept (`Machine.Returns.ended`). A call that resumes the run
then answers at once with the same outcome (`Machine.Ended.returns`) and only prepares the debugger,
so only waiting input, breakpoints, watches and settings can change until a run is started again
(`Machine.Returns.absorbs`).
-/

namespace StackMachine.Machine

variable {m m₁ m₂ : Machine} {outcome : Outcome}

/-- How the end of a run is marked in the state. -/
inductive Ended : Outcome → Machine → Prop
  | halted {m : Machine} :
      m.state.Clear → m.state.halted = true → Ended (.halted m.state.output) m
  | failed {m : Machine} {failure : Failure} :
      m.state.escape = none → m.state.failure = some failure → Ended (.failed failure) m

/-- What the host can do to a run without starting another one: resume it, also when the call is
cut off, supply input, and edit the debugger. -/
inductive Follows (m : Machine) : Machine → Prop
  | resume (turns : Nat) {call : DrivingCall} : call ≠ .start → Follows m (m.drive turns call).2
  | input (words : List Word) : Follows m (m.provideInput words)
  | edit (e : Debugger.Edit) : Follows m (m.edit e)

/-! ## How runs end -/

/-- The run is going on, or its end is marked. -/
def EndMarked : Option Outcome → Machine → Prop
  | none, m => m.state.Clear
  | some outcome, m => outcome.isFinal = true → Ended outcome m

/-- A turn that ends the run marks its end. -/
theorem Turned.endMarked {o : Option Outcome} (hm : m.state.Clear) (h : Turned m o m₁) :
    EndMarked o m₁ := by
  cases h with
  | ended =>
      let last : Machine := { m with state := { m.state with halted := true } }
      have hclear : last.state.Clear := ⟨hm.escape, hm.failure⟩
      exact fun _ => .halted hclear rfl
  | paused => exact fun hfinal => by cases hfinal
  | refused => exact fun _ => .failed hm.escape rfl
  | continued hexec => exact hexec.clear hm
  | failed hexec =>
      obtain ⟨hescape, hfailure, -⟩ := State.step_failed hexec.stepped
      exact fun _ => .failed (hescape.trans hm.escape) hfailure
  | suspended => exact fun hfinal => by cases hfinal
  | abandoned => exact fun _ => .failed rfl rfl

/-- **When a call has ended the run, the end is marked**, whichever way the run has ended. -/
theorem Returns.ended {call : DrivingCall} (h : m.Returns call outcome m₁)
    (hfinal : outcome.isFinal = true) : Ended outcome m₁ := by
  obtain ⟨turns, hdrive⟩ := h
  cases driven hdrive with
  | abandoned => exact .failed rfl rfl
  | failed hf he => exact .failed he hf
  | proceeded hclear hproceed =>
      exact proceed_induct (Q := EndMarked) Turned.endMarked turns hclear hproceed hfinal

/-! ## What can follow -/

namespace Ended

/-- A call that resumes the run only prepares the debugger, and reports the outcome again. -/
theorem drive (h : Ended outcome m) {call : DrivingCall} (hcall : call ≠ .start) (turns : Nat) :
    (m.drive turns call).2 = m.prepare call ∧
      m.drive (turns + 1) call = (some outcome, m.prepare call) := by
  have hstate : (m.prepare call).state = m.state := prepare_state hcall
  cases h with
  | halted hclear hhalted =>
      -- the first turn finds the machine halted; without a turn there is no answer yet
      rw [drive_of_clear (hstate ▸ hclear), drive_of_clear (hstate ▸ hclear),
        proceed_of_halted (hstate ▸ hhalted), hstate]
      refine ⟨?_, rfl⟩
      cases turns with
      | zero => rfl
      | succ turns => rw [proceed_of_halted (hstate ▸ hhalted)]
  | failed he hf =>
      rw [drive_of_failure (hstate ▸ he) (hstate ▸ hf),
        drive_of_failure (hstate ▸ he) (hstate ▸ hf)]
      exact ⟨rfl, rfl⟩

/-- **A call that resumes the run answers with the outcome that it had.** -/
theorem returns (h : Ended outcome m) {call : DrivingCall} (hcall : call ≠ .start) :
    m.Returns call outcome (m.prepare call) :=
  ⟨1, (h.drive hcall 0).2⟩

/-- The mark of the end depends neither on the input nor on the debugger. -/
theorem congr (h : Ended outcome m) (hstate : m₁.state = { m.state with input := m₁.state.input }) :
    Ended outcome m₁ := by
  cases h with
  | halted hclear hhalted =>
      have houtput : m.state.output = m₁.state.output := by rw [hstate]
      rw [houtput]
      exact .halted ⟨by rw [hstate]; exact hclear.escape, by rw [hstate]; exact hclear.failure⟩
        (by rw [hstate]; exact hhalted)
  | failed he hf => exact .failed (by rw [hstate]; exact he) (by rw [hstate]; exact hf)

end Ended

/-- All but the input and what the host edits is the same. -/
structure Unmoved (m m₁ : Machine) : Prop where
  state : m₁.state = { m.state with input := m₁.state.input }
  trace : m₁.debugger.trace = m.debugger.trace

theorem Unmoved.trans (h₁ : Unmoved m m₁) (h₂ : Unmoved m₁ m₂) : Unmoved m m₂ where
  state := h₂.state.trans (by rw [h₁.state])
  trace := h₂.trace.trans h₁.trace

/-- **Nothing moves a run that has ended.** -/
theorem Ended.follows (h : Ended outcome m) (hf : m.Follows m₁) : Unmoved m m₁ := by
  cases hf with
  | @resume turns call hcall =>
      rw [(h.drive hcall turns).1]
      cases call with
      | start => exact absurd rfl hcall
      | _ => exact ⟨rfl, rfl⟩
  | input words => exact ⟨rfl, rfl⟩
  | edit e => exact ⟨rfl, by cases e <;> rfl⟩

/-- **The end of a run is final.** Once a call has reported that the run halted or failed, and
whatever the host does later without starting a run, each call answers with that outcome and no
other; and nothing of the state but the waiting input changes any more, nor does the trace. -/
theorem Returns.absorbs {call : DrivingCall} (h : m.Returns call outcome m₁)
    (hfinal : outcome.isFinal = true) (hlater : Relation.ReflTransGen Follows m₁ m₂) :
    (∀ call', call' ≠ .start →
      (∃ m₃, m₂.Returns call' outcome m₃) ∧
        ∀ outcome' m₃, m₂.Returns call' outcome' m₃ → outcome' = outcome) ∧
      m₂.state = { m₁.state with input := m₂.state.input } ∧
      m₂.debugger.trace = m₁.debugger.trace := by
  have hended := h.ended hfinal
  -- the mark stays on what follows, since it depends on what is not moved
  have hunmoved : Unmoved m₁ m₂ := by
    induction hlater with
    | refl => exact ⟨rfl, rfl⟩
    | tail _ hf ih => exact ih.trans ((hended.congr ih.state).follows hf)
  have hended₂ : Ended outcome m₂ := hended.congr hunmoved.state
  refine ⟨fun call' hcall' => ⟨⟨_, hended₂.returns hcall'⟩, ?_⟩, hunmoved.state, hunmoved.trace⟩
  exact fun outcome' m₃ hreturns => (hreturns.unique (hended₂.returns hcall')).1

/-- `PUSH 7; THROW`, paused on the exception: once the run has failed, neither input nor a step
changes that. -/
theorem Returns.absorbs_after_pause :
    ∃ (m m₁ m₂ m₃ : Machine) (failure : Failure),
      (∃ record, m.debugger.lastPause? = some record ∧ record.reason = .exception 7 [2]) ∧
      m.Returns .resume (.failed failure) m₁ ∧ Relation.ReflTransGen Follows m₁ m₂ ∧
      m₂.state.input = [5] ∧ m₂.Returns .stepOver (.failed failure) m₃ := by
  let m : Machine :=
    ((((ofConfig Config.tiny).load #[1, 7, 18]).edit (.pauseOnException true)).drive 9 .start).2
  have h : m.Returns .resume (.failed ⟨2, some .throw, .uncaughtException 7 [2]⟩) _ :=
    returns_drive 9 (by decide +kernel)
  have hlater : Relation.ReflTransGen Follows (m.drive 9 .resume).2
      (((m.drive 9 .resume).2.provideInput [5]).drive 9 .stepInto).2 :=
    .tail (.single (.input [5])) (.resume 9 (by decide))
  obtain ⟨hcalls, -, -⟩ := h.absorbs rfl hlater
  obtain ⟨m₃, hreturns⟩ := (hcalls .stepOver (by decide)).1
  exact ⟨m, _, _, m₃, _, ⟨_, rfl, by decide +kernel⟩, h, hlater, by decide +kernel, hreturns⟩

end StackMachine.Machine
