import StackMachine.Proofs.Execution.Limits
import StackMachine.Proofs.Program

set_option autoImplicit false

/-! # Where control can go

A set `P` of code offsets confines a run when instructions at these offsets lead only to such
offsets (`Environment.Confined`). The position, the return addresses and the targets of the
handlers then stay in `P` (`State.Placed.stepped`), and a step reports only the faults in `G`
that the environment allows there. Two sets matter: all offsets up to the end of the code confine
every program (`Environment.confined_size`), and its boundaries confine a well-formed program
that uses the standard builtins (`Environment.confined_boundaries`).
-/

namespace StackMachine

/-- The fault is due to code that is malformed. -/
def Fault.isMalformed : Fault → Bool
  | .unknownOpcode _ | .missingOperand _ | .invalidJumpTarget _ => true
  | _ => false

theorem Fault.Catchable.not_malformed {fault : Fault} (h : fault.Catchable) :
    fault.isMalformed = false := by
  cases fault <;> first | rfl | cases h

/-- The event is an exception raised in `P`, or a fault in `G`, or lets the run go on. -/
def Event.Allowed (P : Nat → Prop) (G : Fault → Prop) : Event → Prop
  | .continued => True
  | .escaped e => P e.pc
  | .failed failure => G failure.fault

theorem Instruction.Jumps.operand {i : Instruction} {target : Word} (h : i.Jumps target) :
    i.operand = some target ∧ i.opcode.hasTarget = true := by
  cases h <;> exact ⟨rfl, rfl⟩

/-- Instructions at offsets in `P` lead to offsets in `P`, and what stops a run there are faults
in `G`. -/
structure Environment.Confined (env : Environment) (P : Nat → Prop) (G : Fault → Prop) :
    Prop where
  start : P 0
  next : ∀ {pc i}, P pc → env.code.decode pc = .ok i → P (pc + i.width)
  target : ∀ {pc i target offset}, P pc → env.code.decode pc = .ok i → i.operand = some target →
    i.opcode.hasTarget = true → env.target target = .ok offset → P offset
  noTarget : ∀ {pc i target fault}, P pc → env.code.decode pc = .ok i → i.operand = some target →
    i.opcode.hasTarget = true → env.target target = .error fault → G fault
  refused : ∀ {s : State} {budget opcode fault}, P s.pc → s.pc < env.code.size →
    s.fetch env.code budget = .error (opcode, fault) → G fault
  builtins : env.builtins.Obeys G
  other : ∀ fault, fault.isMalformed = false → G fault

namespace Environment.Confined

variable {env : Environment} {P : Nat → Prop} {G : Fault → Prop}

theorem covers (h : env.Confined P G) : State.Covers env State.Bounded G :=
  State.covers_bounded (fun _ hf => h.other _ hf.not_malformed) h.builtins

theorem stops (h : env.Confined P G) {pc : Nat} (hpc : P pc) {i : Instruction}
    (hi : env.code.decode pc = .ok i) {fault : Fault} {s : State}
    (hs : State.Covers.StopsFor G env i fault s) : G fault := by
  rcases hs with hG | ⟨target, hoperand, htarget, herror⟩ | ⟨-, -, value, rfl⟩
  · exact hG
  · exact h.noTarget hpc hi hoperand htarget herror
  · exact h.other _ rfl

end Environment.Confined

namespace State

theorem decode_of_fetch {s : State} {code : Program} {budget : Option Nat} {i : Instruction}
    (h : s.fetch code budget = .ok i) : code.decode s.pc = .ok i := by
  unfold fetch at h
  split at h
  · cases h
  · split at h
    · next hdecode => cases h; exact hdecode
    all_goals cases h

/-- The budget leaves room for the instruction that is fetched. -/
theorem fetch_budget {s : State} {code : Program} {budget : Option Nat} {i : Instruction}
    (h : s.fetch code budget = .ok i) {limit : Nat} (hlimit : budget = some limit) :
    s.executed < limit := by
  unfold fetch at h
  split at h
  · cases h
  · next hany =>
      subst hlimit
      simpa using hany

/-- Where a code can be decoded, only the budget keeps an instruction from being executed. -/
theorem fetch_error_of_decode {s : State} {code : Program} {budget : Option Nat}
    {i : Instruction} (hi : code.decode s.pc = .ok i) {opcode : Option Opcode} {fault : Fault}
    (h : s.fetch code budget = .error (opcode, fault)) : fault = .instructionBudgetExhausted := by
  unfold fetch at h
  split at h
  · cases h
    rfl
  · rw [hi] at h
    cases h

/-- Position, return addresses and targets of handlers are in `P`. -/
structure Placed (P : Nat → Prop) (s : State) : Prop where
  pc : P s.pc
  returns : ∀ frame ∈ s.calls.frames.toList, P frame.returnAddress
  targets : ∀ handler ∈ s.handlers.blocks.toList, P handler.target

namespace Placed

variable {P : Nat → Prop} {G : Fault → Prop} {s s' : State} {env : Environment}

theorem congr (h : s.Placed P) (hpc : P s'.pc) (hcalls : s'.calls = s.calls)
    (hhandlers : s'.handlers = s.handlers) : s'.Placed P where
  pc := hpc
  returns := by rw [hcalls]; exact h.returns
  targets := by rw [hhandlers]; exact h.targets

theorem tick (h : s.Placed P) : s.tick.Placed P := h.congr h.pc rfl rfl

theorem bounded (h : s.Placed P) (hb : Bounded s s') : s'.Placed P :=
  h.congr (by rw [hb.control.pc]; exact h.pc) hb.control.calls hb.control.handlers

/-- A handler that receives a value stands in `P` with all that it leaves. -/
theorem caught (h : s.Placed P) (handler : Handler) (value : Word) :
    (s.caught handler value).Placed P where
  pc := h.pc
  returns := fun frame hmem => h.returns frame ((s.calls.unwindTo_isPrefix _).subset hmem)
  targets := fun outer hmem => h.targets outer (s.handlers.dropInnermost_isPrefix.subset hmem)

theorem innermost (h : s.Placed P) {handler : Handler}
    (hinner : s.handlers.innermost? = some handler) : P handler.target :=
  h.targets handler (Handlers.mem_of_innermost? hinner)

/-- **Every change of control keeps to `P`.** -/
theorem effect (h : s.Placed P) (henv : env.Confined P G) {i : Instruction}
    (hi : env.code.decode s.pc = .ok i) {flow : Flow} (he : Effect Bounded env s i flow s') :
    s'.Placed P ∧ ∀ offset, flow = .jump offset → P offset := by
  cases he with
  | data _ hb => exact ⟨h.bounded hb, by simp⟩
  | halt => exact ⟨h, by simp⟩
  | jump hjumps htarget hb =>
      refine ⟨h.bounded hb, ?_⟩
      rintro _ ⟨⟩
      exact henv.target h.pc hi hjumps.operand.1 hjumps.operand.2 htarget
  | skip _ hb => exact ⟨h.bounded hb, by simp⟩
  | call htarget _ =>
      refine ⟨⟨h.pc, fun frame hmem => ?_, h.targets⟩, ?_⟩
      · rw [State.entered, Array.toList_push, List.mem_append, List.mem_singleton] at hmem
        rcases hmem with hmem | rfl
        · exact h.returns frame hmem
        -- a call is two words wide, so it returns to the next instruction
        · exact henv.next h.pc hi
      · rintro _ ⟨⟩
        exact henv.target h.pc hi rfl rfl htarget
  | ret hback =>
      refine ⟨⟨h.pc, fun frame hmem => h.returns frame (s.returned_isPrefix.subset hmem),
        fun handler hmem => h.targets handler
          ((s.handlers.discardAbove_sublist _).subset hmem)⟩, ?_⟩
      rintro _ ⟨⟩
      exact h.returns _ (Array.mem_toList_iff.mpr (Array.mem_of_back? hback))
  | enterTry htarget =>
      refine ⟨⟨h.pc, h.returns, fun handler hmem => ?_⟩, by simp⟩
      rcases Handlers.mem_push.mp hmem with hmem | rfl
      · exact h.targets handler hmem
      · exact henv.target h.pc hi rfl rfl htarget
  | leaveTry =>
      exact ⟨⟨h.pc, h.returns, fun handler hmem =>
        h.targets handler (s.handlers.dropInnermost_isPrefix.subset hmem)⟩, by simp⟩
  | throw hb hinner _ =>
      refine ⟨(h.bounded hb).caught _ _, ?_⟩
      rintro _ ⟨⟩
      exact (h.bounded hb).innermost hinner

/-- **Every step keeps to `P`, and reports only faults in `G`.** -/
theorem stepped (h : s.Placed P) (henv : env.Confined P G) {i : Instruction}
    (hi : env.code.decode s.pc = .ok i) {event : Event}
    (hs : Stepped Bounded G env s i event s') : s'.Placed P ∧ event.Allowed P G := by
  cases hs with
  | @completed flow s₁ he =>
      obtain ⟨hplaced, hjump⟩ := h.tick.effect henv hi he
      -- the instruction itself has not moved the position yet
      have hpc : s₁.pc = s.pc := (he.sameStatus fun hb => hb.control.toSameStatus).pc
      have hnext : P (s₁.pc + i.width) := by
        rw [hpc]
        exact henv.next h.pc hi
      refine ⟨?_, trivial⟩
      cases flow with
      | next => exact hplaced.congr hnext rfl rfl
      | jump offset => exact hplaced.congr (hjump offset rfl) rfl rfl
      | halt => exact hplaced.congr hnext rfl rfl
  | @caught fault s₁ handler hb _ hinner _ =>
      have hplaced := h.tick.bounded hb
      have hcaught := hplaced.caught handler fault.code
      exact ⟨hcaught.congr (hplaced.innermost hinner) rfl rfl, trivial⟩
  | escaped hb => exact ⟨h.tick.bounded hb, (h.tick.bounded hb).pc⟩
  | failed hb hstops =>
      have hplaced := h.tick.bounded hb
      exact ⟨hplaced.congr hplaced.pc rfl rfl, henv.stops h.pc hi hstops⟩

end Placed

end State

/-! ## Two sets that confine runs -/

namespace Environment

variable {env : Environment}

theorem target_eq_ok {target : Word} {offset : Nat} :
    env.target target = .ok offset ↔
      Word.index? target = some offset ∧ offset ≤ env.code.size := by
  unfold Environment.target
  cases Word.index? target with
  | none => simp
  | some n =>
      by_cases hle : n ≤ env.code.size
      · simp only [if_pos hle, Except.ok.injEq, Option.some.injEq]
        constructor
        · rintro rfl
          exact ⟨rfl, hle⟩
        · exact And.left
      · simp only [if_neg hle, reduceCtorEq, Option.some.injEq, false_iff]
        rintro ⟨rfl, hle'⟩
        exact hle hle'

theorem target_eq_error {target : Word} {fault : Fault} (h : env.target target = .error fault) :
    fault = .invalidJumpTarget target := by
  unfold Environment.target at h
  split at h
  · split at h
    · cases h
    · cases h; rfl
  · cases h; rfl

/-- **No program leaves its code.** -/
theorem confined_size (hb : env.builtins.Obeys fun _ => True) :
    env.Confined (· ≤ env.code.size) fun _ => True where
  start := Nat.zero_le _
  next _ hi := Program.decode_fits hi
  target _ _ _ _ htarget := (target_eq_ok.mp htarget).2
  noTarget _ _ _ _ _ := trivial
  refused _ _ _ := trivial
  builtins := hb
  other _ _ := trivial

/-- **A well-formed program stays at its boundaries**, and never meets malformed code there. -/
theorem confined_boundaries (hcode : env.code.WellFormed)
    (hb : env.builtins.Obeys Fault.Catchable) :
    env.Confined env.code.IsBoundary fun fault => fault.isMalformed = false where
  start := .zero hcode
  next hpc hi := hpc.next hcode hi
  target hpc hi hoperand ht htarget := by
    obtain ⟨n, hn, hboundary⟩ := hpc.target hcode hi ht hoperand
    rw [target_eq_ok.mpr ⟨hn, hboundary.le_size⟩] at htarget
    cases htarget
    exact hboundary
  noTarget hpc hi hoperand ht htarget := by
    obtain ⟨n, hn, hboundary⟩ := hpc.target hcode hi ht hoperand
    rw [target_eq_ok.mpr ⟨hn, hboundary.le_size⟩] at htarget
    cases htarget
  refused hpc hlt hfetch := by
    obtain ⟨i, hi⟩ := hpc.decode hlt
    rw [State.fetch_error_of_decode hi hfetch]
    rfl
  builtins := hb.mono fun _ hf => hf.not_malformed
  other _ hf := hf

end Environment

end StackMachine
