import StackMachine.Proofs.Execution.Offsets
import StackMachine.Proofs.Machine.Readings
import StackMachine.Proofs.Machine.Transparency

set_option autoImplicit false

/-! # The instruction budget

A budget of `b` bounds a run and cuts it off, and does nothing else. An instruction is fetched only
while fewer than `b` have been executed (`State.fetch_some`), hence every call answers after at most
the instructions that are left (`Machine.proceed_returns`). The run without a budget goes the same
way until the budget is reported as used up (`State.run_unlimited`). Such a report comes from a
machine that has executed `b` instructions and could go on (`Machine.Spent`), and from no other
(`Machine.Session.budget_truncates`).
-/

namespace StackMachine

/-- No builtin reports a used-up budget of its own accord. -/
def Registry.SparesBudget (r : Registry) : Prop :=
  ∀ id c c', r.call id c ≠ .error .instructionBudgetExhausted c'

theorem Registry.standard_sparesBudget : Registry.standard.SparesBudget := by
  intro id c c' hcall
  have hobeys := Registry.standard_obeys.call (fun _ hf => hf) id
  have hcatch : Fault.Catchable .instructionBudgetExhausted := (hobeys.error hcall).2
  cases hcatch

/-! ## Runs with and without a budget -/

namespace State

variable {s s' : State} {env : Environment} {budget : Option Nat} {o : Option Outcome}

/-- A budget matters only once it is used up. -/
theorem fetch_some (s : State) (code : Program) (b : Nat) :
    s.fetch code (some b) =
      if b ≤ s.executed then .error (code.opcodeAt? s.pc, .instructionBudgetExhausted)
      else s.fetch code none := by
  unfold fetch
  simp only [Option.any_some, Option.any_none, decide_eq_true_eq, Bool.false_eq_true, if_false]

/-- Without a budget nothing is ever reported as used up. -/
theorem fetch_none_error {code : Program} {opcode : Option Opcode} {fault : Fault}
    (h : s.fetch code none = .error (opcode, fault)) : fault ≠ .instructionBudgetExhausted := by
  unfold fetch at h
  split at h
  · next hany => cases hany
  · rintro rfl
    split at h <;> cases h

/-- The answer reports that the budget is used up. -/
def Exhausts (o : Option Outcome) : Prop :=
  ∃ f, o = some (.failed f) ∧ f.fault = .instructionBudgetExhausted

/-- Without the budget a turn is the same, unless it reports that the budget is used up. -/
theorem advance_unlimited (h : s.advance env budget = (o, s')) (ho : ¬ Exhausts o) :
    s.advance env none = (o, s') := by
  cases budget with
  | none => exact h
  | some b =>
      rcases s.running_or_ended env.code with hrun | hend
      · by_cases hused : b ≤ s.executed
        · have hfetch := s.fetch_some env.code b
          rw [if_pos hused] at hfetch
          rw [advance_of_error hrun hfetch] at h
          cases h
          exact absurd ⟨_, rfl, rfl⟩ ho
        · have hfetch := s.fetch_some env.code b
          rw [if_neg hused] at hfetch
          unfold advance at h ⊢
          rw [hfetch] at h
          exact h
      · rw [advance_of_ended hend] at h ⊢
        exact h

/-- **Without the budget a run goes the same way**, unless it has reported that the budget is used
up. -/
theorem run_unlimited {n : Nat} (h : s.run env budget n = (o, s')) (ho : ¬ Exhausts o) :
    s.run env none n = (o, s') := by
  induction n generalizing s with
  | zero => exact h
  | succ n ih =>
      cases ha : s.advance env budget with
      | mk outcome s₁ =>
          cases outcome with
          | some outcome =>
              rw [run_succ_of_some ha] at h
              cases h
              exact run_succ_of_some (advance_unlimited ha ho)
          | none =>
              have hgo : ¬ Exhausts none := by
                rintro ⟨f, hf, -⟩
                cases hf
              rw [run_succ_of_none ha] at h
              rw [run_succ_of_none (advance_unlimited ha hgo)]
              exact ih h

/-- An instruction never reports that the budget is used up, unless a builtin does. -/
theorem step_not_exhausted {i : Instruction} {f : Failure} (hb : env.builtins.SparesBudget)
    (h : s.step env i = (.failed f, s')) : f.fault ≠ .instructionBudgetExhausted := by
  have hcatch : ∀ fault : Fault, fault.Catchable → fault ≠ .instructionBudgetExhausted := by
    rintro fault hfault rfl
    cases hfault
  have hcovers : Covers env SameControl (· ≠ .instructionBudgetExhausted) :=
    covers_sameControl hcatch fun id =>
      { ok := fun _ => ⟨trivial, trivial⟩
        error := fun {c fault c'} hcall => by
          refine ⟨trivial, ?_⟩
          rintro rfl
          exact hb id c c' hcall }
  cases hcovers.stepped h with
  | failed _ hstop =>
      rcases hstop with hother | ⟨target, -, -, htarget⟩ | ⟨-, -, value, rfl⟩
      · exact hother
      · rw [Environment.target_eq_error htarget]
        exact nofun
      · exact nofun

end State

/-! ## Calls with a budget -/

namespace Machine

variable {m m' p : Machine} {call : DrivingCall} {outcome : Outcome} {b : Nat}

/-- A turn counts the instruction that it executes, and nothing else. -/
theorem Turned.executed_eq {o : Option Outcome} (h : Turned m o m') :
    m'.state.executed = m.state.executed + m.next?.toList.length := by
  have hexecuted : ∀ {i event s}, m.Executes i event s →
      s.executed = m.state.executed + m.next?.toList.length := by
    intro i event s hexec
    rw [next?_eq_some.mpr hexec.toDispatches, State.step_executed hexec.stepped]
    rfl
  have hidle : (∀ i, ¬ m.Dispatches i) →
      m.state.executed = m.state.executed + m.next?.toList.length := by
    intro hnone
    rw [next?_eq_none hnone]
    rfl
  cases h with
  | ended hend => exact hidle (not_dispatches_of_ended hend)
  | paused _ hcheck => exact hidle (not_dispatches_of_check hcheck)
  | refused _ _ hfetch => exact hidle (not_dispatches_of_fetch hfetch)
  | continued hexec => exact hexecuted hexec
  | failed hexec => exact hexecuted hexec
  | @suspended _ _ s _ hexec => exact (hexecuted hexec : s.executed = _)
  | @abandoned _ _ s hexec => exact (hexecuted hexec : s.executed = _)

/-- The instructions that at most `turns` turns execute, in order. -/
def dispatchedInTurns : Nat → Machine → List Instruction
  | 0, _ => []
  | turns + 1, m =>
    m.next?.toList ++
      match m.turn with
      | (some _, _) => []
      | (none, m') => dispatchedInTurns turns m'

/-- The instructions that a call with at most `turns` turns executes, in order. -/
def dispatched (m : Machine) (turns : Nat) (call : DrivingCall) : List Instruction :=
  match m.begin call with
  | (some _, _) => []
  | (none, m') => dispatchedInTurns turns m'

theorem proceed_executed (turns : Nat) (m : Machine) :
    (m.proceed turns).2.state.executed =
      m.state.executed + (dispatchedInTurns turns m).length := by
  induction turns generalizing m with
  | zero => rfl
  | succ turns ih =>
      rw [proceed_succ, dispatchedInTurns, List.length_append]
      cases hturn : m.turn with
      | mk o m' =>
          have hfirst := (turned hturn).executed_eq
          cases o with
          | some outcome => exact hfirst
          | none =>
              calc (m'.proceed turns).2.state.executed
                  = m'.state.executed + (dispatchedInTurns turns m').length := ih m'
                _ = _ := by rw [hfirst, Nat.add_assoc]

/-- **A call counts the instructions that it executes**, from where it begins. -/
theorem drive_executed (m : Machine) (turns : Nat) (call : DrivingCall) :
    (m.drive turns call).2.state.executed =
      (m.prepare call).state.executed + (m.dispatched turns call).length := by
  have hbegin : (m.begin call).2.state.executed = (m.prepare call).state.executed := by
    unfold begin
    dsimp only
    split <;> rfl
  unfold drive dispatched
  rw [← hbegin]
  cases m.begin call with
  | mk failure m' =>
      cases failure with
      | some failure => rfl
      | none => exact proceed_executed turns m'

/-- An instruction is executed only while there is budget left. -/
theorem Turned.executed_le_budget {o : Option Outcome} (hb : m.config.instructionBudget = some b)
    (hle : m.state.executed ≤ b) (h : Turned m o m') : m'.state.executed ≤ b := by
  rw [h.executed_eq]
  cases hnext : m.next? with
  | none => exact hle
  | some i => exact State.fetch_budget (next?_eq_some.mp hnext).fetched hb

/-- A call never exceeds the budget, also when it is cut off. -/
theorem drive_executed_le {turns : Nat} {o : Option Outcome}
    (hb : m.config.instructionBudget = some b) (hle : (m.prepare call).state.executed ≤ b)
    (h : m.drive turns call = (o, m')) : m'.state.executed ≤ b := by
  let Q : Option Outcome → Machine → Prop := fun _ p =>
    p.config.instructionBudget = some b ∧ p.state.executed ≤ b
  have hstep : ∀ {p p' : Machine} {o : Option Outcome}, Q none p → Turned p o p' → Q o p' := by
    intro p p' o hp hturn
    constructor
    · rw [hturn.config]
      exact hp.1
    · exact hturn.executed_le_budget hp.1 hp.2
  cases driven h with
  | abandoned => exact hle
  | failed => exact hle
  | proceeded _ hproceed =>
      have hbegin : Q none (m.prepare call) := ⟨by rw [prepare_config, hb], hle⟩
      exact (proceed_induct hstep turns hbegin hproceed).2

/-- **With a budget the turns of a call come to an end**: each of them but the last uses up a part
of the budget. -/
theorem proceed_returns {turns : Nat} (hb : m.config.instructionBudget = some b)
    (hturns : b - m.state.executed < turns) :
    ∃ outcome m', m.proceed turns = (some outcome, m') := by
  induction turns generalizing m with
  | zero => omega
  | succ turns ih =>
      cases hturn : m.turn with
      | mk o m₁ =>
          cases o with
          | some outcome => exact ⟨outcome, m₁, by rw [proceed_succ, hturn]⟩
          | none =>
              have hturned := turned hturn
              have hconfig : m₁.config.instructionBudget = some b := by
                rw [hturned.config]
                exact hb
              -- a turn after which the call goes on has executed an instruction of the budget
              have hspent : m₁.state.executed = m.state.executed + 1 ∧ m.state.executed < b := by
                cases hturned with
                | continued hexec =>
                    exact ⟨State.step_executed hexec.stepped, State.fetch_budget hexec.fetched hb⟩
              obtain ⟨outcome, m', hrest⟩ := ih hconfig (by omega)
              refine ⟨outcome, m', ?_⟩
              rw [proceed_succ, hturn]
              exact hrest

/-- A call answers within the turns that the budget leaves it and one more. -/
theorem drive_returns (hb : m.config.instructionBudget = some b) (call : DrivingCall) :
    ∃ outcome m',
      m.drive (b - (m.prepare call).state.executed + 1) call = (some outcome, m') := by
  cases he : (m.prepare call).state.escape with
  | some e => exact ⟨_, _, drive_of_escape he⟩
  | none =>
      cases hf : (m.prepare call).state.failure with
      | some failure => exact ⟨_, _, drive_of_failure he hf⟩
      | none =>
          rw [drive_of_clear ⟨he, hf⟩]
          exact proceed_returns (by rw [prepare_config, hb]) (Nat.lt_succ_self _)

/-! ## Where the budget is used up -/

/-- The machine has used up the budget `b` and stands before an instruction that nothing else keeps
it from executing: the run has not ended and the debugger does not pause it. -/
structure Spent (b : Nat) (p : Machine) : Prop where
  executed : p.state.executed = b
  running : p.state.Running p.environment.code
  unpaused : p.debugger.check p.state.pc p.state.calls.depth = none

/-- The failure that reports that the budget is used up. -/
def exhaustion (p : Machine) : Failure :=
  ⟨p.state.pc, p.environment.code.opcodeAt? p.state.pc, .instructionBudgetExhausted⟩

/-- **Where the budget is used up, the run ends**, and nothing else changes. -/
theorem Spent.turn (h : p.Spent b) (hb : p.config.instructionBudget = some b) :
    p.turn = (some (.failed p.exhaustion),
      { p with state := { p.state with halted := true, failure := some p.exhaustion } }) := by
  have hfetch : p.state.fetch p.environment.code p.config.instructionBudget =
      .error (p.environment.code.opcodeAt? p.state.pc, .instructionBudgetExhausted) := by
    rw [hb, State.fetch_some, if_pos (Nat.le_of_eq h.executed.symm)]
  unfold Machine.turn
  rw [if_neg h.running.not_ended, h.unpaused, hfetch]
  rfl

/-- A turn reports that the budget is used up only where it is, unless a builtin does. -/
theorem Turned.spent {f : Failure} (hb : p.config.instructionBudget = some b)
    (hle : p.state.executed ≤ b) (hbuiltins : p.environment.builtins.SparesBudget)
    (h : Turned p (some (.failed f)) m') (hf : f.fault = .instructionBudgetExhausted) :
    p.Spent b := by
  cases h with
  | refused hrun hcheck hfetch =>
      refine ⟨?_, hrun, hcheck⟩
      rw [hb, State.fetch_some] at hfetch
      split at hfetch
      · next hused => exact Nat.le_antisymm hle hused
      · exact absurd hf (State.fetch_none_error hfetch)
  | failed hexec => exact absurd hf (State.step_not_exhausted hbuiltins hexec.stepped)
  | abandoned => cases hf

/-! ## Sessions -/

/-- `r₀` starts like `m₀`, but without a budget and without a debugger that interrupts it. -/
structure Unlimited (m₀ r₀ : Machine) : Prop where
  budget : r₀.config.instructionBudget = none
  environment : r₀.environment = m₀.environment
  state : r₀.state.clear = m₀.state.clear
  quiet : (r₀.prepare .start).debugger.Quiet

/-- A new machine with the same limits but no budget starts in the same way. -/
theorem unlimited_equip (config : Config) (builtins : List (Word × Builtin)) (code : Program)
    (inputs : List Word) :
    Unlimited ((ofConfig config).equip builtins code inputs)
      ((ofConfig { config with instructionBudget := none }).equip builtins code inputs) := by
  rw [equip_ofConfig, equip_ofConfig]
  exact ⟨rfl, rfl, rfl, ⟨rfl, rfl, rfl⟩⟩

section Session

variable {m₀ r₀ : Machine} {last : Option Outcome}

/-- Once a session has started its run, it stays within the budget. -/
theorem Session.executed_le (hb : m₀.config.instructionBudget = some b) (h : Session m₀ last m)
    (hlast : last ≠ none) : m.state.executed ≤ b := by
  induction h with
  | init => exact absurd rfl hlast
  | edit e _ ih => exact ih hlast
  | @start m _ _ hsession hreturns =>
      obtain ⟨turns, hdrive⟩ := hreturns
      have hbegin : (m.prepare .start).state.executed ≤ b := Nat.zero_le b
      exact drive_executed_le (by rw [hsession.setup.1, hb]) hbegin hdrive
  | resume hsession hcall hreturns ih =>
      obtain ⟨turns, hdrive⟩ := hreturns
      refine drive_executed_le (by rw [hsession.setup.1, hb]) ?_ hdrive
      rw [prepare_state hcall]
      exact ih (by simp)

/-- The count at which a call of a session begins is within the budget. -/
theorem Session.prepare_executed_le (hb : m₀.config.instructionBudget = some b)
    (h : Session m₀ last m) (hcall : call = .start ↔ last = none) :
    (m.prepare call).state.executed ≤ b := by
  by_cases hstart : call = .start
  · subst hstart
    exact Nat.zero_le b
  · rw [prepare_state hstart]
    exact h.executed_le hb fun hlast => hstart (hcall.mpr hlast)

/-- **Where a call of a session passes, the run without a debugger passes too**, after as many
instructions. -/
theorem Session.passes (h : Session m₀ last m) (hcall : call = .start ↔ last = none)
    (hp : m.Passes call p) (hrun : p.state.halted = false) :
    m₀.state.clear.run m₀.environment m₀.config.instructionBudget p.state.executed =
      (none, p.state) := by
  -- a call that finds the run halted passes nothing but that
  have hprogress : Progress m₀.state.clear p none ∨ p.state.halted = true := by
    refine hp.induct (Q := fun p => Progress m₀.state.clear p none ∨ p.state.halted = true)
      (fun hclear => ?_) fun hq hturn => ?_
    · by_cases hstart : call = .start
      · subst hstart
        have hzero : m₀.state.clear.run (m.prepare .start).environment
            (m.prepare .start).config.instructionBudget 0 = (none, (m.prepare .start).state) := by
          rw [← h.state_eq (hcall.mp rfl)]
          rfl
        exact Or.inl (.running hzero hclear)
      · have hstate : (m.prepare call).state = m.state := prepare_state hstart
        rw [hstate] at hclear ⊢
        obtain ⟨outcome, rfl⟩ := Option.ne_none_iff_exists'.mp fun hlast =>
          hstart (hcall.mpr hlast)
        cases h.progress (by simp) with
        | @paused record n hn _ _ =>
            have hconfig : (m.prepare call).config = m.config := prepare_config m
            have henv : (m.prepare call).environment = m.environment := prepare_environment m
            rw [← henv, ← hconfig, ← hstate] at hn
            rw [← hstate] at hclear
            exact Or.inl (.running hn hclear)
        | pending _ he => rw [hclear.escape] at he; cases he
        | halted _ _ hhalted => exact Or.inr hhalted
        | failed _ _ hf => rw [hclear.failure] at hf; cases hf
    · rcases hq with hprogress | hhalted
      · exact Or.inl (hprogress.turned hturn)
      · cases hturn with
        | continued hexec => rw [hexec.running.not_halted] at hhalted; cases hhalted
  rcases hprogress with hprogress | hhalted
  · obtain ⟨hconfig, henv⟩ := hp.setup
    cases hprogress with
    | @running n hn _ =>
        rw [hconfig, henv, h.setup.1, h.setup.2] at hn
        have hcount : p.state.executed = n := by
          have := State.run_executed hn
          rw [this]
          exact Nat.zero_add n
        rw [hcount]
        exact hn
  · rw [hrun] at hhalted
    cases hhalted

/-- Without a budget the machine comes to the same state. -/
theorem Unlimited.passes (hr : Unlimited m₀ r₀) {n : Nat} {s : State}
    (hrun : m₀.state.clear.run m₀.environment m₀.config.instructionBudget n = (none, s)) :
    ∃ r, r₀.drive n .start = (none, r) ∧ r.state = s := by
  have hfree : (r₀.prepare .start).state.run (r₀.prepare .start).environment
      (r₀.prepare .start).config.instructionBudget n = (none, s) := by
    rw [show (r₀.prepare .start).state = m₀.state.clear from hr.state, prepare_environment,
      prepare_config, hr.environment, hr.budget]
    refine State.run_unlimited hrun ?_
    rintro ⟨f, hf, -⟩
    cases hf
  rw [drive_of_clear ⟨rfl, rfl⟩]
  exact proceed_of_quiet n hr.quiet hfree

/-- Without a budget the machine comes to the same end, unless the budget is used up. -/
theorem Unlimited.returns (hr : Unlimited m₀ r₀) {n : Nat} {s : State}
    (hrun : m₀.state.clear.run m₀.environment m₀.config.instructionBudget n = (some outcome, s))
    (hspared : ¬ State.Exhausts (some outcome)) :
    ∃ r, r₀.Returns .start outcome r ∧ r.state = s := by
  have hfree := State.run_unlimited hrun hspared
  rw [← hr.state, ← hr.environment, ← hr.budget] at hfree
  exact Returns.of_quiet hr.quiet hfree

/-- **When a budget is reported as used up.** It has been reported before, or the call has come to
where it is used up. -/
theorem Session.exhausts_iff (hb : m₀.config.instructionBudget = some b)
    (hbuiltins : m₀.environment.builtins.SparesBudget) (h : Session m₀ last m)
    (hcall : call = .start ↔ last = none) (hreturns : m.Returns call outcome m') :
    State.Exhausts (some outcome) ↔
      State.Exhausts last ∨ ∃ p, m.Passes call p ∧ p.Spent b := by
  obtain ⟨hconfig, henv⟩ := h.setup
  have hle := h.prepare_executed_le hb hcall
  constructor
  · rintro ⟨f, hf, hfault⟩
    cases hf
    by_cases hclear : (m.prepare call).state.Clear
    · obtain ⟨p, hpasses, hlast⟩ := hreturns.last_turn hclear
      obtain ⟨hpconfig, hpenv⟩ := hpasses.setup
      refine Or.inr ⟨p, hpasses, (turned hlast).spent ?_ ?_ ?_ hfault⟩
      · rw [hpconfig, hconfig, hb]
      · obtain ⟨turns, hdrive⟩ := hpasses
        exact drive_executed_le (by rw [hconfig, hb]) hle hdrive
      · rw [hpenv, henv]
        exact hbuiltins
    · -- the call has failed at once, as an exception or as the run before it
      have hstart : call ≠ .start := by
        rintro rfl
        exact hclear ⟨rfl, rfl⟩
      have hstate : (m.prepare call).state = m.state := prepare_state hstart
      obtain ⟨turns, hdrive⟩ := hreturns
      cases driven hdrive with
      | abandoned => cases hfault
      | failed hf he =>
          rw [hstate] at hf he
          obtain ⟨outcome, rfl⟩ := Option.ne_none_iff_exists'.mp fun hlast =>
            hstart (hcall.mpr hlast)
          cases h.progress (by simp) with
          | failed _ _ hf' =>
              cases hf.symm.trans hf'
              exact Or.inl ⟨_, rfl, hfault⟩
          | paused _ hc => rw [hc.failure] at hf; cases hf
          | pending _ he' => rw [he] at he'; cases he'
          | halted _ hc => rw [hc.failure] at hf; cases hf
      | proceeded hclear' => exact absurd hclear' hclear
  · rintro (⟨f, rfl, hfault⟩ | ⟨p, hpasses, hspent⟩)
    · have hstart : call ≠ .start := fun hstart => by cases hcall.mp hstart
      cases h.progress (by simp) with
      | failed _ he hf =>
          rw [← prepare_state hstart] at he hf
          have hagain := hreturns.unique ⟨0, drive_of_failure he hf⟩
          exact ⟨f, by rw [hagain.1], hfault⟩
    · have hturn := hspent.turn (by rw [hpasses.setup.1, hconfig, hb])
      have hagain := hreturns.unique (hpasses.returns hturn)
      exact ⟨_, by rw [hagain.1], rfl⟩

/-- **An instruction budget bounds a run and cuts it off, and does nothing else.** In a session on a
machine with budget `b`, let the first call start the run and the others resume it. A call answers
after executing at most the instructions that are left of the budget, and `b` is never exceeded.
The budget is reported as used up exactly if that has been reported before or the call comes to
stand, after `b` instructions since the start, inside the code of a run that has not ended, where
the debugger does not pause it. There the run ends, whatever handlers there are, and all else is as
in the run without a budget and a debugger after its first `b` instructions. A run that ends
otherwise ends like that run. -/
theorem Session.budget_truncates (hb : m₀.config.instructionBudget = some b)
    (hbuiltins : m₀.environment.builtins.SparesBudget) (h : Session m₀ last m)
    (hcall : call = .start ↔ last = none) :
    (∃ turns outcome m', m.drive turns call = (some outcome, m') ∧
      m'.state.executed =
        (m.prepare call).state.executed + (m.dispatched turns call).length ∧
      (m.dispatched turns call).length ≤ b - (m.prepare call).state.executed ∧
      m'.state.executed ≤ b) ∧
    ∀ outcome m', m.Returns call outcome m' →
      (State.Exhausts (some outcome) ↔
        State.Exhausts last ∨ ∃ p, m.Passes call p ∧ p.Spent b) ∧
      (∀ p, m.Passes call p → p.Spent b →
        outcome = .failed p.exhaustion ∧
          m'.state = { p.state with halted := true, failure := some p.exhaustion } ∧
          ∀ r₀, Unlimited m₀ r₀ → ∃ r, r₀.drive b .start = (none, r) ∧ r.state = p.state) ∧
      (outcome.isFinal = true → ¬ State.Exhausts (some outcome) →
        ∀ r₀, Unlimited m₀ r₀ → ∃ r, r₀.Returns .start outcome r ∧ r.state = m'.state) := by
  obtain ⟨hconfig, henv⟩ := h.setup
  have hle := h.prepare_executed_le hb hcall
  have hbudget : m.config.instructionBudget = some b := by rw [hconfig, hb]
  constructor
  · obtain ⟨outcome, m', hdrive⟩ := drive_returns hbudget call
    have hcount := m.drive_executed (b - (m.prepare call).state.executed + 1) call
    have hbound := drive_executed_le hbudget hle hdrive
    rw [hdrive] at hcount
    have hlength : (m.dispatched (b - (m.prepare call).state.executed + 1) call).length ≤
        b - (m.prepare call).state.executed := by
      dsimp only at hcount
      omega
    exact ⟨_, outcome, m', hdrive, hcount, hlength, hbound⟩
  · intro outcome m' hreturns
    refine ⟨h.exhausts_iff hb hbuiltins hcall hreturns, fun p hpasses hspent => ?_,
      fun hfinal hspared r₀ hr => ?_⟩
    · have hturn := hspent.turn (by rw [hpasses.setup.1, hbudget])
      obtain ⟨rfl, rfl⟩ := hreturns.unique (hpasses.returns hturn)
      refine ⟨rfl, rfl, fun r₀ hr => ?_⟩
      have hrun := h.passes hcall hpasses hspent.running.not_halted
      rw [hspent.executed] at hrun
      exact hr.passes hrun
    · have hsession : Session m₀ (some outcome) m' := by
        by_cases hstart : call = .start
        · subst hstart
          rw [hcall.mp rfl] at h
          exact h.start hreturns
        · obtain ⟨outcome₁, rfl⟩ := Option.ne_none_iff_exists'.mp fun hlast =>
            hstart (hcall.mpr hlast)
          exact h.resume hstart hreturns
      obtain ⟨n, hrun⟩ := (hsession.progress (by simp)).final hfinal
      rw [hsession.setup.1, hsession.setup.2] at hrun
      exact hr.returns hrun hspared

/-- `ENTER_TRY 8; PUSH 7; PRINT; PUSH 8; HALT; HALT` with a budget of three instructions and a
breakpoint at `PRINT`: the session resumes there and ends before the second `PUSH`, with the handler
still in place, where the run without a budget comes after three instructions. -/
theorem Session.budget_truncates_behind_breakpoint :
    ∃ (m m' r : Machine) (f : Failure), m.state.executed = 2 ∧
      m.Returns .resume (.failed f) m' ∧
      f.message = "Instruction budget exhausted at pc 5 (PUSH)" ∧ m'.state.handlers.depth = 1 ∧
      r.config.instructionBudget = none ∧ r.state.executed = 3 ∧
      m'.state = { r.state with halted := true, failure := some f } := by
  let config : Config := { Config.tiny with instructionBudget := some 3 }
  let code : Program := #[16, 8, 1, 7, 5, 1, 8, 0, 0]
  let m₀ : Machine := (ofConfig config).equip [] code []
  -- the machines of the session are unfolded only where they are evaluated
  obtain ⟨m, hm⟩ : ∃ m, m = ((m₀.edit (.setBreakpoint 4)).drive 3 .start).2 := ⟨_, rfl⟩
  obtain ⟨p, hp⟩ : ∃ p, p = (m.drive 1 .resume).2 := ⟨_, rfl⟩
  obtain ⟨m', hm'⟩ : ∃ m', m' = (m.drive 2 .resume).2 := ⟨_, rfl⟩
  let f : Failure := ⟨5, some .push, .instructionBudgetExhausted⟩
  have hcount : m.state.executed = 2 := by
    rw [hm]
    decide +kernel
  have hprotected : p.state.handlers.depth = 1 := by
    rw [hp, hm]
    decide +kernel
  have hsession : Session m₀ (some (.paused ⟨4, some .print, #[7], 0, .breakpoint 4⟩)) m :=
    hm ▸ (Session.init.edit (.setBreakpoint 4)).start (returns_drive 3 (by decide +kernel))
  have hpasses : m.Passes .resume p := by
    rw [hp]
    refine passes_drive 1 ?_
    rw [hm]
    decide +kernel
  have hspent : p.Spent 3 := by
    rw [hp, hm]
    exact ⟨by decide +kernel, ⟨by decide +kernel, by decide +kernel⟩, by decide +kernel⟩
  have hreturns : m.Returns .resume (.failed f) m' := by
    rw [hm']
    refine returns_drive 2 ?_
    rw [hm]
    decide +kernel
  have hcall : ∀ last : Outcome, DrivingCall.resume = .start ↔ some last = none := by simp
  obtain ⟨-, hall⟩ := hsession.budget_truncates rfl Registry.standard_sparesBudget (hcall _)
  obtain ⟨-, hspends, -⟩ := hall _ _ hreturns
  obtain ⟨hfailure, hstate, htwin⟩ := hspends p hpasses hspent
  obtain ⟨r, hr, hrstate⟩ := htwin _ (unlimited_equip config [] code [])
  have hbudget : r.config.instructionBudget = none := by
    rw [(drive_setup hr).1, equip_ofConfig]
  refine ⟨m, m', r, f, hcount, hreturns, by decide +kernel, ?_, hbudget, ?_, ?_⟩
  · rw [hstate]
    exact hprotected
  · rw [hrstate]
    exact hspent.executed
  · rw [hrstate, Outcome.failed.inj hfailure]
    exact hstate

end Session

end Machine

end StackMachine
