import StackMachine.Proofs.Execution.Supply
import StackMachine.Proofs.Machine.Readings

set_option autoImplicit false

/-! # When input is supplied

A host may supply input before a run or at any pause. As long as no `READ` finds that no word waits
(`Machine.Starves`), the time does not matter: a turn does the same with more words behind the
waiting ones, and so does a call (`Machine.Returns.supplied`). Hence a host that supplies all its
words in front gets the same answers and the same machine (`Machine.Serves.supplied_early`).
-/

namespace StackMachine

namespace Machine

variable {m m' : Machine}

/-- The next turn executes a `READ` that finds no input. -/
structure Starves (m : Machine) : Prop extends Dispatches m .read where
  raises : ∃ s, State.execute m.environment .read m.state.tick = .error .noInputAvailable s

/-- A machine starves when it executes `READ` and no word waits. -/
theorem starves_iff : m.Starves ↔ m.Dispatches .read ∧ m.state.input = [] := by
  constructor
  · rintro ⟨hread, s, hraises⟩
    exact ⟨hread, (State.execute_read_noInput.mp hraises).1⟩
  · rintro ⟨hread, hinput⟩
    exact ⟨hread, _, State.execute_read_noInput.mpr ⟨hinput, rfl⟩⟩

@[simp] theorem provideInput_nil (m : Machine) : m.provideInput [] = m := by
  unfold provideInput
  rw [List.append_nil]

theorem provideInput_append (m : Machine) (words words' : List Word) :
    m.provideInput (words ++ words') = (m.provideInput words).provideInput words' := by
  unfold provideInput
  rw [← List.append_assoc]

/-- More input does not change which instruction is next. -/
theorem dispatches_provideInput {words : List Word} {i : Instruction} :
    (m.provideInput words).Dispatches i ↔ m.Dispatches i := by
  constructor
  · rintro ⟨⟨hgoes, hinside⟩, hunchecked, hfetched⟩
    exact ⟨⟨hgoes, hinside⟩, hunchecked, hfetched⟩
  · rintro ⟨⟨hgoes, hinside⟩, hunchecked, hfetched⟩
    exact ⟨⟨hgoes, hinside⟩, hunchecked, hfetched⟩

/-- A machine that starves with more input starves without. -/
theorem Starves.of_provideInput {words : List Word} (h : (m.provideInput words).Starves) :
    m.Starves := by
  obtain ⟨hread, hinput⟩ := starves_iff.mp h
  exact starves_iff.mpr
    ⟨dispatches_provideInput.mp hread, (List.append_eq_nil_iff.mp hinput).1⟩

/-! ## Turns -/

/-- A machine that does not starve executes the same instruction with more input. -/
theorem Executes.supplied {i : Instruction} {event : Event} {s : State}
    (h : m.Executes i event s) (hfed : ¬ m.Starves) (words : List Word) :
    (m.provideInput words).Executes i event (s.supplied words) := by
  have hread : i = .read → m.state.input ≠ [] := by
    rintro rfl hinput
    exact hfed (starves_iff.mpr ⟨h.toDispatches, hinput⟩)
  exact ⟨dispatches_provideInput.mpr h.toDispatches, State.step_supplied words hread h.stepped⟩

/-- **A turn does the same with more input**, unless the machine starves. -/
theorem Turned.supplied {o : Option Outcome} (h : Turned m o m') (hfed : ¬ m.Starves)
    (words : List Word) : Turned (m.provideInput words) o (m'.provideInput words) := by
  cases h with
  | ended hend => exact .ended hend
  | paused hrun hcheck => exact .paused ⟨hrun.not_halted, hrun.inside⟩ hcheck
  | refused hrun hcheck hfetch => exact .refused ⟨hrun.not_halted, hrun.inside⟩ hcheck hfetch
  | continued hexec => exact .continued (hexec.supplied hfed words)
  | failed hexec => exact .failed (hexec.supplied hfed words)
  | suspended hexec hpause hrecord =>
      exact .suspended (hexec.supplied hfed words) hpause hrecord
  | abandoned hexec hpause => exact .abandoned (hexec.supplied hfed words) hpause

/-! ## Calls -/

/-- **So do any number of turns**, unless one of the machines on the way starves. -/
theorem proceed_provideInput {turns : Nat} {o : Option Outcome} (h : m.proceed turns = (o, m'))
    (hfed : ∀ before < turns, ∀ p, m.proceed before = (none, p) → ¬ p.Starves)
    (words : List Word) : (m.provideInput words).proceed turns = (o, m'.provideInput words) := by
  induction turns generalizing m with
  | zero =>
      cases h
      rfl
  | succ turns ih =>
      rw [proceed_succ] at h
      cases hturn : m.turn with
      | mk o₁ m₁ =>
          rw [hturn] at h
          have hmore := ((turned hturn).supplied (hfed 0 (Nat.succ_pos _) m rfl) words).turn
          rw [proceed_succ, hmore]
          cases o₁ with
          | some outcome =>
              cases h
              rfl
          | none =>
              have hrest : ∀ before < turns, ∀ p, m₁.proceed before = (none, p) → ¬ p.Starves := by
                intro before hbefore p hp
                refine hfed (before + 1) (Nat.succ_lt_succ hbefore) p ?_
                rw [proceed_succ, hturn]
                exact hp
              exact ih h hrest

/-- A call leaves the waiting input alone when it is prepared. -/
theorem prepare_provideInput (call : DrivingCall) (words : List Word) :
    (m.provideInput words).prepare call = (m.prepare call).provideInput words := by
  cases call <;> rfl

/-- **A call answers the same with more input**, unless a machine that it passes starves. -/
theorem Returns.supplied {call : DrivingCall} {outcome : Outcome}
    (h : m.Returns call outcome m') (hfed : ∀ p, m.Passes call p → ¬ p.Starves)
    (words : List Word) : (m.provideInput words).Returns call outcome (m'.provideInput words) := by
  obtain ⟨turns, hdrive⟩ := h
  refine ⟨turns, ?_⟩
  have hprepare := prepare_provideInput (m := m) call words
  cases driven hdrive with
  | @abandoned e hescape =>
      have hescape' : ((m.provideInput words).prepare call).state.escape = some e := by
        rw [hprepare]
        exact hescape
      rw [drive_of_escape hescape', hprepare]
      rfl
  | @failed failure hfailure hescape =>
      have hescape' : ((m.provideInput words).prepare call).state.escape = none := by
        rw [hprepare]
        exact hescape
      have hfailure' : ((m.provideInput words).prepare call).state.failure = some failure := by
        rw [hprepare]
        exact hfailure
      rw [drive_of_failure hescape' hfailure', hprepare]
  | proceeded hclear hproceed =>
      have hclear' : ((m.provideInput words).prepare call).state.Clear := by
        rw [hprepare]
        exact ⟨hclear.escape, hclear.failure⟩
      rw [drive_of_clear hclear', hprepare]
      refine proceed_provideInput hproceed (fun before _ p hp => hfed p ⟨before, ?_⟩) words
      rw [drive_of_clear hclear, hp]

/-! ## Hosts -/

/-- What a host asks of a machine. -/
inductive Request where
  | drive (call : DrivingCall)
  | edit (e : Debugger.Edit)
  | supply (words : List Word)
  deriving DecidableEq, Repr

/-- The words that some requests supply, in order. -/
def Request.words (requests : List Request) : List Word :=
  requests.flatMap fun
    | .supply words => words
    | .drive _ | .edit _ => []

/-- The calls and edits among some requests. -/
def Request.withoutSupplies (requests : List Request) : List Request :=
  requests.filter fun
    | .supply _ => false
    | .drive _ | .edit _ => true

/-- Given some requests one after the other, the machine answers its calls with `outcomes`, and
`m'` is left. -/
inductive Serves : Machine → List Request → List Outcome → Machine → Prop
  | nil (m : Machine) : Serves m [] [] m
  | drive {m m₁ m' : Machine} {call : DrivingCall} {requests : List Request} {outcome : Outcome}
      {outcomes : List Outcome} : m.Returns call outcome m₁ → Serves m₁ requests outcomes m' →
      Serves m (.drive call :: requests) (outcome :: outcomes) m'
  | edit {m m' : Machine} {e : Debugger.Edit} {requests : List Request}
      {outcomes : List Outcome} : Serves (m.edit e) requests outcomes m' →
      Serves m (.edit e :: requests) outcomes m'
  | supply {m m' : Machine} {words : List Word} {requests : List Request}
      {outcomes : List Outcome} : Serves (m.provideInput words) requests outcomes m' →
      Serves m (.supply words :: requests) outcomes m'

/-- Given some requests one after the other, the machine passes `p` in one of its calls. -/
inductive PassesServing : Machine → List Request → Machine → Prop
  | here {m p : Machine} {call : DrivingCall} {requests : List Request} :
      m.Passes call p → PassesServing m (.drive call :: requests) p
  | drive {m m₁ p : Machine} {call : DrivingCall} {requests : List Request} {outcome : Outcome} :
      m.Returns call outcome m₁ → PassesServing m₁ requests p →
      PassesServing m (.drive call :: requests) p
  | edit {m p : Machine} {e : Debugger.Edit} {requests : List Request} :
      PassesServing (m.edit e) requests p → PassesServing m (.edit e :: requests) p
  | supply {m p : Machine} {words : List Word} {requests : List Request} :
      PassesServing (m.provideInput words) requests p →
      PassesServing m (.supply words :: requests) p

/-- Requests are served in one way only. -/
theorem Serves.unique {m₁ m₂ : Machine} {requests : List Request}
    {outcomes₁ outcomes₂ : List Outcome} (h₁ : m.Serves requests outcomes₁ m₁)
    (h₂ : m.Serves requests outcomes₂ m₂) : outcomes₁ = outcomes₂ ∧ m₁ = m₂ := by
  induction h₁ generalizing outcomes₂ with
  | nil m =>
      cases h₂
      exact ⟨rfl, rfl⟩
  | drive hreturns _ ih =>
      cases h₂ with
      | drive hreturns' hrest =>
          obtain ⟨rfl, rfl⟩ := hreturns.unique hreturns'
          obtain ⟨rfl, rfl⟩ := ih hrest
          exact ⟨rfl, rfl⟩
  | edit _ ih =>
      cases h₂ with
      | edit hrest => exact ih hrest
  | supply _ ih =>
      cases h₂ with
      | supply hrest => exact ih hrest

/-- **What is supplied later can be supplied in front**, unless the machine starves on the way. -/
theorem Serves.provideInput {requests : List Request} {outcomes : List Outcome}
    (h : m.Serves requests outcomes m') (hfed : ∀ p, m.PassesServing requests p → ¬ p.Starves) :
    (m.provideInput (Request.words requests)).Serves (Request.withoutSupplies requests) outcomes
      m' := by
  induction h with
  | nil m =>
      show (m.provideInput []).Serves [] [] m
      rw [provideInput_nil]
      exact .nil m
  | drive hreturns _ ih =>
      have hrest := ih fun p hp => hfed p (.drive hreturns hp)
      exact .drive (hreturns.supplied (fun p hp => hfed p (.here hp)) _) hrest
  | edit _ ih => exact .edit (ih fun p hp => hfed p (.edit hp))
  | @supply m m' words requests outcomes _ ih =>
      have hrest := ih fun p hp => hfed p (.supply hp)
      rw [← provideInput_append] at hrest
      exact hrest

/-- **When input is supplied does not matter.** Let a machine carry out any requests, with calls
that start or resume, edits, and input supplied in between, and let no `READ` on the way find that
no word waits. With the same calls and edits, but all words supplied in front, it gives the same
outcomes, which include the records of all pauses, and the same machine is left, with the same
unread input. -/
theorem Serves.supplied_early {requests : List Request} {outcomes : List Outcome}
    (h : m.Serves requests outcomes m') (hfed : ∀ p, m.PassesServing requests p → ¬ p.Starves)
    (outcomes₁ : List Outcome) (m₁ : Machine) :
    m.Serves (.supply (Request.words requests) :: Request.withoutSupplies requests) outcomes₁ m₁ ↔
      outcomes₁ = outcomes ∧ m₁ = m' := by
  have hearly : m.Serves (.supply (Request.words requests) :: Request.withoutSupplies requests)
      outcomes m' := .supply (h.provideInput hfed)
  constructor
  · intro h₁
    exact h₁.unique hearly
  · rintro ⟨rfl, rfl⟩
    exact hearly

/-- A call that answers within some turns has passed few machines before. -/
theorem Passes.exists_lt {p : Machine} {call : DrivingCall} (h : m.Passes call p) (turns : Nat)
    (hdone : (m.drive turns call).1 ≠ none) :
    ∃ before < turns, m.drive before call = (none, p) := by
  obtain ⟨before, hbefore⟩ := h
  refine ⟨before, Nat.lt_of_not_le fun hlate => ?_, hbefore⟩
  -- a call that has answered keeps its answer
  obtain ⟨outcome, houtcome⟩ := Option.ne_none_iff_exists'.mp hdone
  have hlonger := drive_add (drive_eq_some houtcome) (before - turns)
  rw [Nat.add_sub_cancel' hlate, hbefore] at hlonger
  cases hlonger

/-- `READ; PRINT; READ; PRINT; HALT` with a breakpoint before the second `READ`, which no word is
there for until the host supplies two at the pause. -/
theorem Serves.supplied_early_at_breakpoint :
    ∃ m m' : Machine,
      m.Serves
        [.edit (.setBreakpoint 2), .supply [7], .drive .start, .supply [8, 9], .drive .proceed]
        [.paused ⟨2, some .read, #[], 0, .breakpoint 2⟩, .halted #[7, 8]] m' ∧
      m'.state.input = [9] ∧
      m.Serves [.supply [7, 8, 9], .edit (.setBreakpoint 2), .drive .start, .drive .proceed]
        [.paused ⟨2, some .read, #[], 0, .breakpoint 2⟩, .halted #[7, 8]] m' := by
  let m : Machine := (ofConfig Config.tiny).load #[11, 5, 11, 5, 0]
  let m₀ : Machine := (m.edit (.setBreakpoint 2)).provideInput [7]
  let m₁ : Machine := (m₀.drive 3 .start).2.provideInput [8, 9]
  have hpaused : m₀.Returns .start (.paused ⟨2, some .read, #[], 0, .breakpoint 2⟩)
      (m₀.drive 3 .start).2 := returns_drive 3 (by decide +kernel)
  have hhalted : m₁.Returns .proceed (.halted #[7, 8]) (m₁.drive 4 .proceed).2 :=
    returns_drive 4 (by decide +kernel)
  have hserves : m.Serves
      [.edit (.setBreakpoint 2), .supply [7], .drive .start, .supply [8, 9], .drive .proceed]
      [.paused ⟨2, some .read, #[], 0, .breakpoint 2⟩, .halted #[7, 8]] (m₁.drive 4 .proceed).2 :=
    .edit (.supply (.drive hpaused (.supply (.drive hhalted (.nil _)))))
  -- the calls answer in their third and fourth turns, and a word waits whenever `READ` is next
  have hfed₀ : ∀ before < 3, ¬ ((m₀.drive before .start).2.next? = some .read ∧
      (m₀.drive before .start).2.state.input = []) := by decide +kernel
  have hfed₁ : ∀ before < 4, ¬ ((m₁.drive before .proceed).2.next? = some .read ∧
      (m₁.drive before .proceed).2.state.input = []) := by decide +kernel
  have hfed : ∀ p, m.PassesServing
      [.edit (.setBreakpoint 2), .supply [7], .drive .start, .supply [8, 9], .drive .proceed] p →
      ¬ p.Starves := by
    intro p hp hstarves
    obtain ⟨hread, hinput⟩ := starves_iff.mp hstarves
    have hnext := next?_eq_some.mpr hread
    cases hp with
    | edit hp => cases hp with
    | supply hp => cases hp with
    | here hp =>
        obtain ⟨before, hbefore, hdrive⟩ := hp.exists_lt 3 (by decide +kernel)
        refine hfed₀ before hbefore ?_
        rw [hdrive]
        exact ⟨hnext, hinput⟩
    | drive hreturns hp =>
        obtain ⟨-, rfl⟩ := hreturns.unique hpaused
        cases hp with
        | supply hp => cases hp with
        | here hp =>
            obtain ⟨before, hbefore, hdrive⟩ := hp.exists_lt 4 (by decide +kernel)
            refine hfed₁ before hbefore ?_
            rw [hdrive]
            exact ⟨hnext, hinput⟩
        | drive _ hp => cases hp
  have hearly := (hserves.supplied_early hfed _ _).mpr ⟨rfl, rfl⟩
  exact ⟨m, _, hserves, by decide +kernel, hearly⟩

end Machine

end StackMachine
