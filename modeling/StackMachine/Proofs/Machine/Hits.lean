import Mathlib.Data.List.Induction
import StackMachine.Proofs.Debugger.Breakpoints
import StackMachine.Proofs.Machine.Host

set_option autoImplicit false

/-! # Counting hits

What a host does to breakpoints and what its calls answer are the events of its use of a machine
(`Machine.Attended`). The table of breakpoints depends on nothing else: it is the empty table after
the changes that the events stand for, where a call that has paused at a breakpoint stands for a hit
(`Machine.Attended.breakpoints_eq`). So starting afresh, resetting and loading never touch a count,
and the hits of a breakpoint are the pauses at it since it was created
(`Machine.Attended.counts_hits`).
-/

namespace StackMachine

/-! ## Events -/

/-- The breakpoint at which a call has paused. -/
def Outcome.hit? : Outcome → Option Nat
  | .paused ⟨_, _, _, _, .breakpoint address⟩ => some address
  | _ => none

/-- What a host sees happen to a machine: an edit that it makes, or the outcome of its call. -/
inductive HostEvent where
  | edited (e : Debugger.Edit)
  | answered (outcome : Outcome)
  deriving DecidableEq, Repr

namespace HostEvent

/-- What an event changes in the table of breakpoints. -/
def change? : HostEvent → Option BreakpointTable.Change
  | edited (.setBreakpoint address) => some (.request (.set address))
  | edited (.removeBreakpoint address) => some (.request (.remove address))
  | edited (.enableBreakpoint address enabled) => some (.request (.setEnabled address enabled))
  | edited .clearBreakpoints => some (.request .clear)
  | edited _ => none
  | answered outcome => outcome.hit?.map .hit

/-- The event is a pause at the breakpoint at an address. -/
def isHit (address : Nat) : HostEvent → Bool
  | answered outcome => outcome.hit? = some address
  | edited _ => false

/-- The breakpoint at an address is set. -/
def sets (address : Nat) (e : HostEvent) : Bool := e = edited (.setBreakpoint address)

/-- The breakpoint at an address is removed, if there is one. -/
def deletes (address : Nat) (e : HostEvent) : Bool :=
  e = edited (.removeBreakpoint address) || e = edited .clearBreakpoints

/-- What has happened since the breakpoint at an address was created, with one more event. -/
def follow (address : Nat) (since : Option (List HostEvent)) (e : HostEvent) :
    Option (List HostEvent) :=
  if e.deletes address then none
  else
    match since with
    | some events => some (events ++ [e])
    | none => if e.sets address then some [] else none

/-- The events since the breakpoint at an address was last created, if it is there. -/
def sinceCreated (address : Nat) (events : List HostEvent) : Option (List HostEvent) :=
  events.foldl (follow address) none

end HostEvent

/-- The table after an event. -/
def BreakpointTable.note (t : BreakpointTable) (e : HostEvent) : BreakpointTable :=
  e.change?.elim t t.change

/-! ## Counts after events -/

namespace BreakpointTable

/-- An outcome changes a table if it is a pause at a breakpoint. -/
theorem note_answered (t : BreakpointTable) (outcome : Outcome) :
    t.note (.answered outcome) = outcome.hit?.elim t t.recordHit := by
  show (outcome.hit?.map Change.hit).elim t t.change = _
  cases outcome.hit? <;> rfl

/-- Events change a table by the changes that they stand for. -/
theorem build_filterMap (events : List HostEvent) :
    build (events.filterMap HostEvent.change?) = events.foldl note {} := by
  unfold build
  rw [List.foldl_filterMap]
  congr 1
  funext t e
  unfold note
  cases e.change? <;> rfl

/-- The hits of the breakpoint at an address, if it is there. -/
def hits? (t : BreakpointTable) (address : Nat) : Option Nat :=
  (t.find? address).map Breakpoint.hits

variable (t : BreakpointTable) (a address : Nat)

theorem hits?_set :
    (t.set a).hits? address =
      if address = a then some ((t.hits? address).getD 0) else t.hits? address := by
  unfold hits?
  rw [find?_set]
  by_cases ha : address = a
  · subst ha
    cases t.find? address <;> simp
  · simp [ha]

theorem hits?_remove :
    (t.remove a).hits? address = if address = a then none else t.hits? address := by
  unfold hits?
  rw [find?_remove]
  split <;> rfl

theorem hits?_setEnabled (enabled : Bool) :
    (t.setEnabled a enabled).hits? address = t.hits? address := by
  unfold hits?
  rw [find?_setEnabled]
  split
  · rw [Option.map_map]
    rfl
  · rfl

theorem hits?_recordHit :
    (t.recordHit a).hits? address =
      if address = a then (t.hits? address).map (· + 1) else t.hits? address := by
  unfold hits?
  rw [find?_recordHit]
  split
  · rw [Option.map_map, Option.map_map]
    rfl
  · rfl

end BreakpointTable

namespace HostEvent

/-- The count of hits at an address after one more event. -/
def tally (address : Nat) (count : Option Nat) (e : HostEvent) : Option Nat :=
  if e.deletes address then none
  else if e.sets address then some (count.getD 0)
  else if e.isHit address then count.map (· + 1)
  else count

variable (address : Nat)

/-- An event changes the count in a table as it changes a tally. -/
theorem hits?_note (t : BreakpointTable) (e : HostEvent) :
    (t.note e).hits? address = tally address (t.hits? address) e := by
  cases e with
  | answered outcome =>
      rw [BreakpointTable.note_answered]
      cases hhit : outcome.hit? with
      | none => simp [tally, isHit, sets, deletes, hhit]
      | some a =>
          rw [Option.elim_some, BreakpointTable.hits?_recordHit]
          by_cases ha : address = a
          · simp [ha, tally, isHit, sets, deletes, hhit]
          · simp [ha, tally, isHit, sets, deletes, hhit, Ne.symm ha]
  | edited edit =>
      cases edit with
      | setBreakpoint a =>
          show (t.set a).hits? address = _
          rw [BreakpointTable.hits?_set]
          by_cases ha : address = a
          · simp [ha, tally, sets, deletes]
          · simp [ha, tally, isHit, sets, deletes, Ne.symm ha]
      | removeBreakpoint a =>
          show (t.remove a).hits? address = _
          rw [BreakpointTable.hits?_remove]
          by_cases ha : address = a
          · simp [ha, tally, deletes]
          · simp [ha, tally, isHit, sets, deletes, Ne.symm ha]
      | enableBreakpoint a enabled =>
          show (t.setEnabled a enabled).hits? address = _
          rw [BreakpointTable.hits?_setEnabled]
          simp [tally, isHit, sets, deletes]
      | clearBreakpoints => rfl
      | addWatch | removeWatch | clearWatches | pauseOnException =>
          simp [BreakpointTable.note, change?, tally, isHit, sets, deletes]

/-- So it does with the hits among the events since the breakpoint was created. -/
theorem countP_follow (since : Option (List HostEvent)) (e : HostEvent) :
    (follow address since e).map (List.countP (isHit address)) =
      tally address (since.map (List.countP (isHit address))) e := by
  -- an event that sets a breakpoint is no hit
  have hsets : e.sets address = true → e.isHit address = false := by
    intro hsets
    obtain rfl : e = edited (.setBreakpoint address) := by simpa [sets] using hsets
    rfl
  unfold follow tally
  by_cases hd : e.deletes address = true
  · simp [hd]
  · by_cases hs : e.sets address = true
    · cases since <;> simp [hd, hs, hsets hs]
    · by_cases hh : e.isHit address = true
      · cases since <;> simp [hd, hs, hh]
      · cases since <;> simp [hd, hs, hh]

/-- **The hits that a table counts are the pauses since the breakpoint was created.** -/
theorem hits?_foldl_note (events : List HostEvent) :
    (events.foldl BreakpointTable.note {}).hits? address =
      (sinceCreated address events).map (List.countP (isHit address)) := by
  induction events using List.reverseRecOn with
  | nil => rfl
  | append_singleton events e ih =>
      rw [sinceCreated] at ih ⊢
      rw [List.foldl_concat, List.foldl_concat, hits?_note, ih, countP_follow]

end HostEvent

/-! ## Machines and their hosts -/

theorem Debugger.recordPause_breakpoints (d : Debugger) (r : Record) :
    (d.recordPause r).breakpoints =
      (Outcome.paused r).hit?.elim d.breakpoints d.breakpoints.recordHit := by
  obtain ⟨pc, opcode, stack, callDepth, reason⟩ := r
  cases reason <;> rfl

namespace Machine

/-- `Attended events m`: a host has created a machine and used it until it is `m`, and `events` are
its edits and the outcomes of its calls in order. In between it has loaded programs, registered
builtins, supplied input, written to the heap and reset the machine. -/
inductive Attended : List HostEvent → Machine → Prop
  | create {config : Config} {m : Machine} : create config = .ok m → Attended [] m
  | edit {events : List HostEvent} {m : Machine} (e : Debugger.Edit) :
      Attended events m → Attended (events ++ [.edited e]) (m.edit e)
  | call {events : List HostEvent} {m m' : Machine} {call : DrivingCall} {outcome : Outcome} :
      Attended events m → m.Returns call outcome m' →
      Attended (events ++ [.answered outcome]) m'
  | reset {events : List HostEvent} {m : Machine} : Attended events m → Attended events m.reset
  | load {events : List HostEvent} {m : Machine} (code : Program) :
      Attended events m → Attended events (m.load code)
  | input {events : List HostEvent} {m : Machine} (words : List Word) :
      Attended events m → Attended events (m.provideInput words)
  | register {events : List HostEvent} {m : Machine} (id : Word) (builtin : Builtin) :
      Attended events m → Attended events (m.registerBuiltin id builtin)
  | heap {events : List HostEvent} {m : Machine} {α : Type} (x : Action Heap α) :
      Attended events m → Attended events { m with state := (State.onHeap x).final m.state }

variable {m m' : Machine}

/-- A turn changes the breakpoints only by the pause that it answers with. -/
theorem Turned.breakpoints_eq {o : Option Outcome} (h : Turned m o m') :
    m'.debugger.breakpoints =
      (o.bind Outcome.hit?).elim m.debugger.breakpoints m.debugger.breakpoints.recordHit := by
  cases h with
  | ended => rfl
  | paused => exact Debugger.recordPause_breakpoints ..
  | refused => rfl
  | continued => exact noteInstruction_breakpoints m
  | failed => exact noteInstruction_breakpoints m
  | suspended _ _ hrecord =>
      -- the pause is on an exception, so it is no hit
      subst hrecord
      exact (Debugger.recordPause_breakpoints ..).trans (noteInstruction_breakpoints m)
  | abandoned => exact noteInstruction_breakpoints m

/-- **A call changes the breakpoints only by the pause that it answers with.** -/
theorem Returns.breakpoints_eq {call : DrivingCall} {outcome : Outcome}
    (h : m.Returns call outcome m') :
    m'.debugger.breakpoints =
      outcome.hit?.elim m.debugger.breakpoints m.debugger.breakpoints.recordHit := by
  have hprepare : (m.prepare call).debugger.breakpoints = m.debugger.breakpoints := by
    cases call <;> rfl
  obtain ⟨turns, hdrive⟩ := h
  cases driven hdrive with
  | abandoned => exact hprepare
  | failed => exact hprepare
  | proceeded _ hproceed =>
      let Q : Option Outcome → Machine → Prop := fun o p =>
        p.debugger.breakpoints =
          (o.bind Outcome.hit?).elim m.debugger.breakpoints m.debugger.breakpoints.recordHit
      have hstep : ∀ {p p' : Machine} {o : Option Outcome}, Q none p → Turned p o p' → Q o p' := by
        intro p p' o hp hturned
        have hp : p.debugger.breakpoints = m.debugger.breakpoints := hp
        have hturned := hturned.breakpoints_eq
        rw [hp] at hturned
        exact hturned
      exact proceed_induct hstep turns hprepare hproceed

/-- **The breakpoints of a machine are what the events have made of none.** -/
theorem Attended.breakpoints_eq {events : List HostEvent} (h : Attended events m) :
    m.debugger.breakpoints = events.foldl BreakpointTable.note {} := by
  induction h with
  | create hcreate =>
      cases create_eq_ok hcreate
      rfl
  | @edit events m e _ ih =>
      rw [List.foldl_concat, ← ih]
      cases e <;> rfl
  | @call events m m' call outcome _ hreturns ih =>
      rw [List.foldl_concat, ← ih, BreakpointTable.note_answered]
      exact hreturns.breakpoints_eq
  | reset _ ih => exact ih
  | load code _ ih => exact ih
  | input words _ ih => exact ih
  | register id builtin _ ih => exact ih
  | heap x _ ih => exact ih

/-- **Breakpoints are a finite map that counts pauses.** After any changes a table obeys the laws of
a map. The table of a machine is made by the edits of its host and the pauses that it was told of,
whatever else has happened, and the hits of a breakpoint are the pauses at it since it was last
created. -/
theorem Attended.counts_hits {events : List HostEvent} (h : Attended events m) :
    (∀ changes : List BreakpointTable.Change, (BreakpointTable.build changes).IsMap) ∧
      m.debugger.breakpoints = BreakpointTable.build (events.filterMap HostEvent.change?) ∧
      ∀ address, (m.debugger.breakpoints.find? address).map Breakpoint.hits =
        (HostEvent.sinceCreated address events).map (List.countP (HostEvent.isHit address)) := by
  refine ⟨BreakpointTable.isMap_build, ?_, fun address => ?_⟩
  · rw [h.breakpoints_eq, BreakpointTable.build_filterMap]
  · rw [h.breakpoints_eq]
    exact HostEvent.hits?_foldl_note address events

/-- `PUSH 7; PRINT; HALT` with a breakpoint before `PRINT`. The run pauses there; the breakpoint is
removed and set again, the program is loaded again, and two more runs pause. -/
theorem Attended.counts_hits_after_reload :
    ∃ (events : List HostEvent) (m : Machine), Attended events m ∧
      events.countP (HostEvent.isHit 2) = 3 ∧
      (HostEvent.sinceCreated 2 events).map (List.countP (HostEvent.isHit 2)) = some 2 ∧
      (m.debugger.breakpoints.find? 2).map Breakpoint.hits = some 2 := by
  let code : Program := #[1, 7, 5, 0]
  let m₀ : Machine := ((ofConfig Config.tiny).load code).edit (.setBreakpoint 2)
  let m₁ : Machine := (m₀.drive 9 .start).2
  let m₂ : Machine := ((m₁.edit (.removeBreakpoint 2)).edit (.setBreakpoint 2)).load code
  let m₃ : Machine := (m₂.drive 9 .start).2
  let pause : Outcome := .paused ⟨2, some .print, #[7], 0, .breakpoint 2⟩
  have h₀ : Attended _ m₀ := .edit _ (.load code (.create create_tiny))
  have h₁ : Attended _ m₁ := .call h₀ (returns_drive 9 (by decide +kernel : _ = some pause))
  have h₂ : Attended _ m₂ := .load code (.edit _ (.edit _ h₁))
  have h₃ : Attended _ m₃ := .call h₂ (returns_drive 9 (by decide +kernel : _ = some pause))
  have h₄ : Attended _ (m₃.drive 9 .start).2 :=
    .call h₃ (returns_drive 9 (by decide +kernel : _ = some pause))
  refine ⟨_, _, h₄, by decide +kernel, by decide +kernel, ?_⟩
  exact (h₄.counts_hits.2.2 2).trans (by decide +kernel)

end Machine

end StackMachine
