import StackMachine.Proofs.Execution.Limits

set_option autoImplicit false

/-! # Who can change a local slot

A local access uses the window of the innermost call, and the windows of the calls around it lie
below. So no instruction changes a local slot below the window of the innermost call
(`State.step_locals`), and stores to locals and to globals do not mix (`State.step_storeLocal`,
`State.step_store`). The locals have room for the windows of all calls, so inside of a call an
access fails exactly when its offset is outside of the window (`State.Fits.loadLocal_fails_iff`,
`State.Fits.storeLocal_fails_iff`).
-/

namespace StackMachine

open StackMachine.Action

/-! ## Windows -/

namespace Memory

/-- The slots of a window are local slots. -/
theorem Fits.slot_lt {config : Config} {memory : Memory} (h : memory.Fits config) {depth k : Nat}
    (hdepth : depth < config.maxCallDepth) (hk : k < config.slotsPerFrame) :
    depth * config.slotsPerFrame + k < memory.locals.size := by
  calc depth * config.slotsPerFrame + k
      < depth * config.slotsPerFrame + config.slotsPerFrame := by omega
    _ = (depth + 1) * config.slotsPerFrame := (Nat.succ_mul _ _).symm
    _ ≤ config.maxCallDepth * config.slotsPerFrame := Nat.mul_le_mul_right _ hdepth
    _ = memory.locals.size := by rw [h.locals, Nat.mul_comm]

/-- **An access to locals fails exactly when its offset is outside of the window.** -/
theorem Fits.localIndex {config : Config} {memory : Memory} (h : memory.Fits config)
    {depth : Nat} (hdepth : depth < config.maxCallDepth) (offset : Word) :
    memory.localIndex (depth * config.slotsPerFrame) offset =
      if 0 ≤ offset.toInt ∧ offset.toInt < config.slotsPerFrame then
        .ok (depth * config.slotsPerFrame + offset.toInt.toNat)
      else .error (invalidSlot (depth * config.slotsPerFrame + offset.toInt)) := by
  unfold Memory.localIndex Word.index?
  by_cases hnonneg : 0 ≤ offset.toInt
  · by_cases hinside : offset.toInt < config.slotsPerFrame
    · -- the window ends before the locals do
      have hroom : depth * config.slotsPerFrame + offset.toInt.toNat < memory.locals.size :=
        h.slot_lt hdepth (by omega)
      have hwindow : offset.toInt.toNat < memory.slotsPerFrame := by
        rw [h.slotsPerFrame]
        omega
      rw [if_pos hnonneg, if_pos ⟨hnonneg, hinside⟩]
      exact if_pos ⟨hwindow, hroom⟩
    · have hwindow : ¬ offset.toInt.toNat < memory.slotsPerFrame := by
        rw [h.slotsPerFrame]
        omega
      rw [if_pos hnonneg, if_neg fun hboth => hinside hboth.2]
      show (if _ then _ else _) = _
      rw [if_neg fun hboth => hwindow hboth.1]
      simp
  · rw [if_neg hnonneg, if_neg fun hboth => hnonneg hboth.1]
    simp

/-- A store to locals changes at most a slot of the window. -/
theorem storeLocal_changes {R : Memory → Memory → Prop} {base : Nat} {value : Word}
    (hrefl : ∀ m, R m m)
    (hset : ∀ (m : Memory) i, base ≤ i → R m { m with locals := m.locals.setIfInBounds i value })
    (offset : Word) :
    Obeys R (fun _ => True) (fun _ => True) (storeLocal base offset value) where
  ok hx := by
    unfold storeLocal at hx
    split at hx
    · next i hi =>
        cases hx
        refine ⟨hset _ i ?_, trivial⟩
        unfold localIndex at hi
        split at hi
        · split at hi
          · cases hi
            exact Nat.le_add_right _ _
          · cases hi
        · cases hi
    · cases hx
  error hx := by
    unfold storeLocal at hx
    split at hx
    · cases hx
    · cases hx
      exact ⟨hrefl _, trivial⟩

theorem storeGlobal_locals (address value : Word) :
    Obeys (fun m m' => m'.locals = m.locals) (fun _ => True) (fun _ => True)
      (storeGlobal address value) where
  ok hx := by
    unfold storeGlobal at hx
    split at hx
    · cases hx
      exact ⟨rfl, trivial⟩
    · cases hx
  error hx := by
    unfold storeGlobal at hx
    split at hx
    · cases hx
    · cases hx
      exact ⟨rfl, trivial⟩

end Memory

namespace State

theorem query_eq_ok {α : Type} {question : State → Except Fault α} {s s' : State} {a : α} :
    query question s = .ok a s' ↔ question s = .ok a ∧ s' = s := by
  unfold query
  cases question s with
  | ok b => simp [eq_comm]
  | error fault => simp

theorem query_eq_error {α : Type} {question : State → Except Fault α} {s s' : State}
    {fault : Fault} :
    query question s = .error fault s' ↔ question s = .error fault ∧ s' = s := by
  unfold query
  cases question s with
  | ok b => simp
  | error fault' => simp [eq_comm]

theorem top_eq_ok {calls : CallStack} {frame : Frame} :
    calls.top = .ok frame ↔ calls.frames.back? = some frame := by
  unfold CallStack.top
  cases calls.frames.back? with
  | none => simp
  | some frame' => simp

/-! ## Slots below the innermost window -/

/-- Control and the local slots below `base` are the same. -/
structure KeepsBelow (base : Nat) (s s' : State) : Prop where
  control : SameControl s s'
  locals : ∀ n < base, s'.memory.locals[n]? = s.memory.locals[n]?

instance (base : Nat) : IsPreorder State (KeepsBelow base) where
  refl _ := ⟨refl_of _ _, fun _ _ => rfl⟩
  trans _ _ _ h₁ h₂ :=
    ⟨trans_of _ h₁.control h₂.control, fun n hn => (h₂.locals n hn).trans (h₁.locals n hn)⟩

/-- Control is the same, and so are the local slots below the window of the innermost call, or all
of them if no call is active. -/
def KeepsOuter (s s' : State) : Prop :=
  ∀ base, (∀ frame, s.calls.frames.back? = some frame → base ≤ frame.base) → KeepsBelow base s s'

instance : IsPreorder State KeepsOuter where
  refl _ _ _ := refl_of _ _
  trans _ _ _ h₁ h₂ base hbase :=
    trans_of _ (h₁ base hbase) (h₂ base ((h₁ base hbase).control.calls ▸ hbase))

/-- A store to the window at `base` leaves what is below it alone. -/
theorem storeAt_keepsBelow (base : Nat) (offset : Word) :
    Obeys (KeepsBelow base) (· = .next) (fun _ => True)
      (pop >>= fun w => onMemory (Memory.storeLocal base offset w) >>= fun _ =>
        Pure.pure Flow.next) := by
  have hpop : Obeys (KeepsBelow base) (fun _ => True) (fun _ => True)
      (onStack OperandStack.pop) :=
    (OperandStack.pop_obeys.mono (fun _ => id) fun _ _ => trivial).within
      fun s _ _ => ⟨.data s .., fun _ _ => rfl⟩
  refine hpop.bind fun w _ => CoversUnread.thenNext ?_
  have hstore : Obeys (fun m m' : Memory => ∀ n < base, m'.locals[n]? = m.locals[n]?)
      (fun _ => True) (fun _ => True) (Memory.storeLocal base offset w) :=
    Memory.storeLocal_changes (fun _ _ _ => rfl)
      (fun m i hi n hn => Array.getElem?_setIfInBounds_ne (by omega)) offset
  exact hstore.within fun s _ h => ⟨.data s .., h⟩

/-- **A local access reaches the window of the innermost call only.** -/
theorem storeLocal_keepsOuter (env : Environment) (offset : Word) :
    Obeys KeepsOuter (· = .next) (fun _ => True) (execute env (.storeLocal offset)) where
  ok hx := by
    obtain ⟨frame, s₁, htop, hrest⟩ := bind_eq_ok.mp hx
    obtain ⟨htop, rfl⟩ := query_eq_ok.mp htop
    obtain ⟨hkeeps, hnext⟩ := (storeAt_keepsBelow frame.base offset).ok hrest
    refine ⟨fun base hbase => ⟨hkeeps.control, fun n hn => ?_⟩, hnext⟩
    have hle := hbase frame (top_eq_ok.mp htop)
    exact hkeeps.locals n (by omega)
  error hx := by
    rcases bind_eq_error.mp hx with htop | ⟨frame, s₁, htop, hrest⟩
    · obtain ⟨-, rfl⟩ := query_eq_error.mp htop
      exact ⟨refl_of KeepsOuter _, trivial⟩
    · obtain ⟨htop, rfl⟩ := query_eq_ok.mp htop
      obtain ⟨hkeeps, -⟩ := (storeAt_keepsBelow frame.base offset).error hrest
      refine ⟨fun base hbase => ⟨hkeeps.control, fun n hn => ?_⟩, trivial⟩
      have hle := hbase frame (top_eq_ok.mp htop)
      exact hkeeps.locals n (by omega)

/-- No data instruction reaches below the innermost window, whatever the builtins do. -/
theorem covers_keepsOuter (env : Environment) : Covers env KeepsOuter fun _ => True :=
  (CoversUnread.of_stores (fun _ _ => trivial) (fun s _ _ _ _ => ⟨.data s .., fun _ _ => rfl⟩)
    (fun s _ _ _ _ => ⟨.data s .., fun _ _ => rfl⟩) (fun s _ _ _ => ⟨.data s .., fun _ _ => rfl⟩)
    (fun address w => (Memory.storeGlobal_locals address w).within fun s _ h _ _ =>
      ⟨.data s .., fun _ _ => by rw [← h]⟩)
    (storeLocal_keepsOuter env)
    fun id => Obeys.within ⟨fun _ => ⟨trivial, trivial⟩, fun _ => ⟨trivial, trivial⟩⟩
      fun s _ (_ : True) _ _ => ⟨.data s .., fun _ _ => rfl⟩).covers
    fun s _ _ _ => ⟨.data s .., fun _ _ => rfl⟩

/-- **No step changes a local slot below the innermost window.** -/
theorem step_locals {env : Environment} {s s' : State} {i : Instruction} {event : Event}
    (hstep : s.step env i = (event, s')) {base : Nat}
    (hbase : ∀ frame, s.calls.frames.back? = some frame → base ≤ frame.base) {n : Nat}
    (hn : n < base) : s'.memory.locals[n]? = s.memory.locals[n]? := by
  have hkeeps : ∀ s₁ : State, KeepsOuter s.tick s₁ →
      s₁.memory.locals[n]? = s.memory.locals[n]? := fun _ h => (h base hbase).locals n hn
  cases (covers_keepsOuter env).stepped hstep with
  | @completed flow s₁ he =>
      have hsame : s₁.memory.locals[n]? = s.memory.locals[n]? := by
        cases he with
        | data _ h => exact hkeeps _ h
        | jump _ _ h => exact hkeeps _ h
        | skip _ h => exact hkeeps _ h
        | @throw _ s₂ _ h => exact hkeeps s₂ h
        | _ => rfl
      cases flow <;> exact hsame
  | @caught _ s₁ _ h => exact hkeeps s₁ h
  | escaped h => exact hkeeps _ h
  | @failed _ s₁ h => exact hkeeps s₁ h

/-- A step adds a call on top of the others, or leaves calls from the top. -/
theorem step_calls {env : Environment} {s s' : State} {i : Instruction} {event : Event}
    (hstep : s.step env i = (event, s')) :
    s.calls.frames.toList <+: s'.calls.frames.toList ∨
      s'.calls.frames.toList <+: s.calls.frames.toList := by
  have hsame : ∀ {s₁ : State}, SameControl s.tick s₁ → s₁.calls = s.calls := fun h => h.calls
  cases (covers_anyBuiltins env).stepped hstep with
  | @completed flow s₁ he =>
      rw [follow_calls]
      cases he with
      | data _ h => exact Or.inl (hsame h ▸ List.prefix_refl _)
      | jump _ _ h => exact Or.inl (hsame h ▸ List.prefix_refl _)
      | skip _ h => exact Or.inl (hsame h ▸ List.prefix_refl _)
      | call =>
          refine Or.inl ?_
          rw [State.entered, Array.toList_push]
          exact List.prefix_append _ _
      | ret => exact Or.inr (returned_isPrefix _)
      | throw h => exact Or.inr (hsame h ▸ CallStack.unwindTo_isPrefix _ _)
      | halt => exact Or.inl (List.prefix_refl _)
      | enterTry => exact Or.inl (List.prefix_refl _)
      | leaveTry => exact Or.inl (List.prefix_refl _)
  | caught h => exact Or.inr (hsame h ▸ CallStack.unwindTo_isPrefix _ _)
  | escaped h => exact Or.inl (hsame h ▸ List.prefix_refl _)
  | failed h => exact Or.inl (hsame h ▸ List.prefix_refl _)

/-! ## Stores and loads -/

/-- A part of the state is the same. -/
def Same {α : Type} (part : State → α) (s s' : State) : Prop := part s' = part s

instance {α : Type} (part : State → α) : IsPreorder State (Same part) where
  refl _ := rfl
  trans _ _ _ h₁ h₂ := Eq.trans h₂ h₁

/-- Actions on the operand stack leave all parts of the slot memory alone. -/
theorem onStack_memory {α β : Type} (part : Memory → β) {x : Action OperandStack α}
    (hx : OperandStack.Primitive x) :
    Obeys (Same fun s => part s.memory) (fun _ => True) (fun _ => True) (onStack x) :=
  (hx.obeys.mono (fun _ => id) fun _ _ => trivial).within fun _ _ _ => rfl

/-- **Loading a local changes no slot.** -/
theorem step_loadLocal (s : State) (env : Environment) (offset : Word) :
    (s.step env (.loadLocal offset)).2.memory = s.memory := by
  have hload : Obeys (Same fun s => s.memory) (· = .next) (fun _ => True)
      (execute env (.loadLocal offset)) :=
    (query_obeys (fun _ _ => trivial) fun s => s.calls.top_answers).bind fun frame _ =>
      (query_obeys (fun _ _ => trivial) fun s => s.memory.loadLocal_answers frame.base offset).bind
        fun w _ => CoversUnread.thenNext (onStack_memory id (.push w))
  rw [(step_sameData ..).memory]
  exact hload.final s.tick

/-- **Storing to a local changes no global slot.** -/
theorem step_storeLocal (s : State) (env : Environment) (offset : Word) :
    (s.step env (.storeLocal offset)).2.memory.globals = s.memory.globals := by
  have hstore : Obeys (Same fun s => s.memory.globals) (· = .next) (fun _ => True)
      (execute env (.storeLocal offset)) := by
    refine (query_obeys (fun _ _ => trivial) fun s => s.calls.top_answers).bind fun frame _ => ?_
    refine (onStack_memory Memory.globals .pop).bind fun w _ => CoversUnread.thenNext ?_
    exact (Memory.storeLocal_changes (R := fun m m' => m'.globals = m.globals) (fun _ => rfl)
      (fun _ _ _ => rfl) offset).within fun _ _ h => h
  rw [(step_sameData ..).memory]
  exact hstore.final s.tick

/-- **Storing to a global changes no local slot.** -/
theorem step_store (s : State) (env : Environment) (address : Word) :
    (s.step env (.store address)).2.memory.locals = s.memory.locals := by
  have hstore : Obeys (Same fun s => s.memory.locals) (· = .next) (fun _ => True)
      (execute env (.store address)) :=
    (onStack_memory Memory.locals .pop).bind fun w _ => CoversUnread.thenNext
      ((Memory.storeGlobal_locals address w).within fun _ _ h => h)
  rw [(step_sameData ..).memory]
  exact hstore.final s.tick

/-- A call instruction changes no slot, whether or not the call can be entered. -/
theorem step_call_memory (s : State) (env : Environment) (target : Word) :
    (s.step env (.call target)).2.memory = s.memory := by
  have henter : ∀ offset, Obeys (Same fun s => s.memory) (fun _ => True) (fun _ => True)
      (enter offset) := by
    intro offset
    constructor <;>
    · intro s _ s' hx
      rw [enter_eq] at hx
      split at hx <;> cases hx
      exact ⟨rfl, trivial⟩
  have hcall : Obeys (Same fun s => s.memory) (fun _ => True) (fun _ => True)
      (execute env (.call target)) :=
    (Obeys.ofExcept (Q := fun _ => True) (fun _ _ => trivial) fun _ _ => trivial).bind
      fun offset _ => henter offset
  rw [(step_sameData ..).memory]
  exact hcall.final s.tick

/-! ## When a local access fails -/

/-- The innermost call owns the last of the windows in use. -/
theorem Fits.innermost_base {config : Config} {s : State} (h : s.Fits config)
    (hactive : 0 < s.calls.depth) :
    ∃ frame, s.calls.frames.back? = some frame ∧
      frame.base = (s.calls.depth - 1) * config.slotsPerFrame := by
  have hlast : s.calls.depth - 1 < s.calls.frames.size := Nat.sub_lt hactive Nat.one_pos
  have hframe : s.calls.frames[s.calls.depth - 1]? = some s.calls.frames[s.calls.depth - 1] :=
    Array.getElem?_eq_getElem hlast
  exact ⟨_, Array.back?_eq_getElem? ▸ hframe, h.calls.windows _ _ hframe⟩

/-- The slot of a local access in the innermost call. -/
theorem Fits.innermost_index {config : Config} {s : State} (h : s.Fits config)
    (hactive : 0 < s.calls.depth) :
    ∃ frame, s.calls.top = .ok frame ∧ ∀ offset : Word,
      s.memory.localIndex frame.base offset =
        if 0 ≤ offset.toInt ∧ offset.toInt < config.slotsPerFrame then
          .ok (frame.base + offset.toInt.toNat)
        else .error (Memory.invalidSlot (frame.base + offset.toInt)) := by
  obtain ⟨frame, hback, hbase⟩ := h.innermost_base hactive
  have hdepth := h.calls.depth
  refine ⟨frame, top_eq_ok.mpr hback, fun offset => ?_⟩
  rw [hbase, h.memory.localIndex (by omega)]
  push_cast
  rfl

/-- The operand stack is the only reason why a push stops. -/
theorem push_eq_error {w : Word} {s s' : State} {fault : Fault}
    (h : push w s = .error fault s') : fault = .stackOverflow s.stack.limit := by
  by_cases hroom : s.stack.values.size < s.stack.limit
  · simp only [push, onStack, Action.within, OperandStack.push, if_pos hroom] at h
    cases h
  · simp only [push, onStack, Action.within, OperandStack.push, if_neg hroom] at h
    cases h
    rfl

theorem execute_loadLocal {env : Environment} {s : State} {frame : Frame} {offset : Word}
    (htop : s.calls.top = .ok frame) :
    execute env (.loadLocal offset) s =
      match s.memory.loadLocal frame.base offset with
      | .ok w => (push w >>= fun _ => Pure.pure Flow.next) s
      | .error fault => .error fault s := by
  simp only [execute, bind, EStateM.bind, query, htop]
  cases s.memory.loadLocal frame.base offset <;> rfl

/-- **Loading a local of the innermost call fails exactly outside of its window.** -/
theorem Fits.loadLocal_fails_iff {config : Config} {s : State} (h : s.Fits config)
    (hactive : 0 < s.calls.depth) (env : Environment) (offset : Word) :
    (∃ address s', execute env (.loadLocal offset) s = .error (.invalidMemoryAddress address) s') ↔
      ¬ (0 ≤ offset.toInt ∧ offset.toInt < config.slotsPerFrame) := by
  obtain ⟨frame, htop, hindex⟩ := h.innermost_index hactive
  rw [execute_loadLocal htop, Memory.loadLocal, hindex]
  by_cases hinside : 0 ≤ offset.toInt ∧ offset.toInt < config.slotsPerFrame
  · rw [if_pos hinside]
    refine ⟨?_, fun houtside => absurd hinside houtside⟩
    rintro ⟨address, s', hx⟩
    -- the slot is read, and what is left is the push, which stops for another reason
    rcases bind_eq_error.mp hx with hpush | ⟨_, s₁, -, hnext⟩
    · cases push_eq_error hpush
    · cases hnext
  · rw [if_neg hinside]
    exact ⟨fun _ => hinside, fun _ => ⟨_, _, rfl⟩⟩

theorem execute_storeLocal {env : Environment} {s : State} {frame : Frame} {w offset : Word}
    (htop : s.calls.top = .ok frame) (hback : s.stack.values.back? = some w) :
    execute env (.storeLocal offset) s =
      match s.memory.localIndex frame.base offset with
      | .ok i =>
        .ok .next
          { s with
            stack := { s.stack with values := s.stack.values.pop }
            memory := { s.memory with locals := s.memory.locals.setIfInBounds i w } }
      | .error fault =>
        .error fault { s with stack := { s.stack with values := s.stack.values.pop } } := by
  simp only [execute, bind, EStateM.bind, query, htop, pop_of_back? hback, onMemory,
    Action.within, Memory.storeLocal]
  cases s.memory.localIndex frame.base offset <;> rfl

/-- **Storing to a local of the innermost call fails exactly outside of its window**, if there is
a word to store. -/
theorem Fits.storeLocal_fails_iff {config : Config} {s : State} (h : s.Fits config)
    (hactive : 0 < s.calls.depth) (hword : 0 < s.stack.depth) (env : Environment)
    (offset : Word) :
    (∃ address s', execute env (.storeLocal offset) s = .error (.invalidMemoryAddress address) s') ↔
      ¬ (0 ≤ offset.toInt ∧ offset.toInt < config.slotsPerFrame) := by
  obtain ⟨frame, htop, hindex⟩ := h.innermost_index hactive
  obtain ⟨w, hback⟩ : ∃ w, s.stack.values.back? = some w :=
    ⟨_, Array.back?_eq_getElem? ▸ Array.getElem?_eq_getElem (Nat.sub_lt hword Nat.one_pos)⟩
  rw [execute_storeLocal htop hback, hindex]
  by_cases hinside : 0 ≤ offset.toInt ∧ offset.toInt < config.slotsPerFrame
  · simp [hinside]
  · rw [if_neg hinside]
    exact ⟨fun _ => hinside, fun _ => ⟨_, _, rfl⟩⟩

end State

end StackMachine
