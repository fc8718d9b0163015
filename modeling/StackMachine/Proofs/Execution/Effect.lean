import StackMachine.Execution.Flow
import StackMachine.Proofs.Bounds

set_option autoImplicit false

/-! # The effect of an instruction on control

Most instructions work on data only: they go on with the next instruction, and whatever they do
to the state is made of a few operations (`State.Covers`). A relation that these operations obey
is obeyed by every data instruction (`State.CoversUnread.execute_data`); only `READ` takes a word of
the input, so the other instructions obey it even if that does not (`State.CoversUnread`). The nine
other instructions move control, and `State.Effect` says how each of them does it; it is all that a
completed instruction can do (`State.CoversUnread.execute_ok`), and one that stops with a fault has
moved nothing (`State.CoversUnread.execute_error`).
-/

namespace StackMachine

open StackMachine.Action

/-- The instruction goes on with the next one and touches neither calls nor handlers. -/
def Instruction.isData : Instruction → Bool
  | .halt | .jmp _ | .jmpIfZero _ | .jmpIfNeg _ | .call _ | .ret | .enterTry _ | .leaveTry
  | .throw => false
  | _ => true

/-- The instruction jumps to `target` or goes on with the next one. -/
inductive Instruction.Jumps : Instruction → Word → Prop
  | jmp (target : Word) : Jumps (.jmp target) target
  | jmpIfZero (target : Word) : Jumps (.jmpIfZero target) target
  | jmpIfNeg (target : Word) : Jumps (.jmpIfNeg target) target

namespace State

/-! ## Data instructions -/

/-- The operations of data instructions, apart from taking a word of the input, move the state along
`R` and stop only with faults in `E`. An access to locals is covered as a whole, since its slot
depends on the innermost frame. -/
structure CoversUnread (env : Environment) (R : State → State → Prop) (E : Fault → Prop) :
    Prop where
  pop : Obeys R (fun _ => True) E pop
  popPair : Obeys R (fun _ => True) E popPair
  push : ∀ w, Obeys R (fun _ => True) E (push w)
  allocate : ∀ size, Obeys R (fun _ => True) E (onHeap (Heap.allocate size))
  store8 : ∀ address w, Obeys R (fun _ => True) E (onHeap (Heap.store8 address w))
  store32 : ∀ address w, Obeys R (fun _ => True) E (onHeap (Heap.store32 address w))
  storeGlobal : ∀ address w, Obeys R (fun _ => True) E (onMemory (Memory.storeGlobal address w))
  storeLocal : ∀ offset, Obeys R (· = .next) E (execute env (.storeLocal offset))
  output : ∀ w, Obeys R (fun _ => True) E (modify fun s => { s with output := s.output.push w })
  builtin : ∀ id, Obeys R (fun _ => True) E (onContext (env.builtins.call id))
  fault : ∀ fault, fault.Catchable → E fault

/-- The operations of data instructions move the state along `R` and stop only with faults in
`E`. -/
structure Covers (env : Environment) (R : State → State → Prop) (E : Fault → Prop) : Prop
    extends CoversUnread env R E where
  input : Obeys R (fun _ => True) E takeInput

theorem query_obeys {α : Type} {R : State → State → Prop} [IsPreorder State R]
    {E : Fault → Prop} (hE : ∀ fault, fault.Catchable → E fault) {question : State → Except Fault α}
    (h : ∀ s, Answers (question s)) : Obeys R (fun _ => True) E (query question) where
  ok hx := by
    unfold query at hx
    split at hx
    · cases hx
      exact ⟨refl_of R _, trivial⟩
    · cases hx
  error hx := by
    unfold query at hx
    split at hx
    · cases hx
    · next hf =>
        cases hx
        exact ⟨refl_of R _, hE _ (h _ _ hf)⟩

theorem pop_of_back? {s : State} {w : Word} (h : s.stack.values.back? = some w) :
    pop s = .ok w { s with stack := { s.stack with values := s.stack.values.pop } } := by
  simp only [pop, onStack, Action.within, OperandStack.pop, h]

theorem peek_answers (s : State) :
    Answers (s.stack.peek?.elim (.error .stackUnderflow) .ok : Except Fault Word) := by
  cases s.stack.peek? with
  | none => exact Answers.error rfl
  | some w => exact Answers.ok w

theorem divide_answers (left right : Word) : Answers (divide left right) := by
  unfold divide
  split
  · exact Answers.error rfl
  · exact Answers.ok _

theorem remainder_answers (left right : Word) : Answers (remainder left right) := by
  unfold remainder
  split
  · exact Answers.error rfl
  · exact Answers.ok _

namespace CoversUnread

variable {env : Environment} {R : State → State → Prop} {E : Fault → Prop} [IsPreorder State R]

theorem arithmetic (h : CoversUnread env R E) {f : Word → Word → Except Fault Word}
    (hf : ∀ a b, Answers (f a b)) : Obeys R (fun _ => True) E (arithmetic f) :=
  h.popPair.bind fun (a, b) _ =>
    ((hf a b).obeys.mono (fun _ => id) h.fault).bind fun w _ => h.push w

theorem malloc (h : CoversUnread env R E) : Obeys R (fun _ => True) E malloc := by
  refine h.pop.bind fun size _ => ?_
  split
  · exact Obeys.throw (h.fault _ rfl)
  · next count _ => exact (h.allocate count).bind fun base _ => h.push _

/-- An instruction that ends by going on with the next one. -/
theorem thenNext {α : Type} {x : Action State α} (hx : Obeys R (fun _ => True) E x) :
    Obeys R (· = Flow.next) E (x >>= fun _ => Pure.pure .next) :=
  hx.bind fun _ _ => Obeys.pure rfl

/-- **A relation that the operations of data instructions obey is obeyed by all of them**; by `READ`
if taking a word of the input obeys it too. -/
theorem execute_data (h : CoversUnread env R E) {i : Instruction} (hi : i.isData = true)
    (hread : i = .read → Obeys R (fun _ => True) E takeInput) :
    Obeys R (· = .next) E (execute env i) := by
  have hask : ∀ {α : Type} {question : State → Except Fault α}, (∀ s, Answers (question s)) →
      Obeys R (fun _ => True) E (query question) := query_obeys h.fault
  cases i with
  | halt | jmp _ | jmpIfZero _ | jmpIfNeg _ | call _ | ret | enterTry _ | leaveTry | throw =>
      cases hi
  | push w => exact thenNext (h.push w)
  | add => exact thenNext (h.arithmetic fun _ _ => Answers.ok _)
  | sub => exact thenNext (h.arithmetic fun _ _ => Answers.ok _)
  | mul => exact thenNext (h.arithmetic fun _ _ => Answers.ok _)
  | div => exact thenNext (h.arithmetic divide_answers)
  | mod => exact thenNext (h.arithmetic remainder_answers)
  | dup => exact (hask peek_answers).bind fun w _ => thenNext (h.push w)
  | drop => exact thenNext h.pop
  | swap =>
      exact h.popPair.bind fun (left, right) _ =>
        (h.push right).bind fun _ _ => thenNext (h.push left)
  | print => exact thenNext (h.pop.bind fun w _ => h.output w)
  | read => exact (hread rfl).bind fun w _ => thenNext (h.push w)
  | callBuiltin => exact h.pop.bind fun id _ => thenNext (h.builtin id)
  | load address =>
      exact (hask fun s => s.memory.loadGlobal_answers address).bind fun w _ => thenNext (h.push w)
  | store address => exact h.pop.bind fun w _ => thenNext (h.storeGlobal address w)
  | loadLocal offset =>
      exact (hask fun s => s.calls.top_answers).bind fun frame _ =>
        (hask fun s => s.memory.loadLocal_answers frame.base offset).bind fun w _ =>
          thenNext (h.push w)
  | storeLocal offset => exact h.storeLocal offset
  | malloc => exact thenNext h.malloc
  | load8 address =>
      exact (hask fun s => s.heap.load8_answers address).bind fun w _ => thenNext (h.push w)
  | load32 address =>
      exact (hask fun s => s.heap.load32_answers address).bind fun w _ => thenNext (h.push w)
  | store8 address => exact h.pop.bind fun w _ => thenNext (h.store8 address w)
  | store32 address => exact h.pop.bind fun w _ => thenNext (h.store32 address w)
  | load8Ind =>
      exact h.pop.bind fun address _ =>
        (hask fun s => s.heap.load8_answers address).bind fun w _ => thenNext (h.push w)
  | load32Ind =>
      exact h.pop.bind fun address _ =>
        (hask fun s => s.heap.load32_answers address).bind fun w _ => thenNext (h.push w)
  | store8Ind => exact h.popPair.bind fun (address, w) _ => thenNext (h.store8 address w)
  | store32Ind => exact h.popPair.bind fun (address, w) _ => thenNext (h.store32 address w)

end CoversUnread

/-! ## Calls and handlers -/

/-- The state in a new call that returns behind the current instruction. -/
def entered (s : State) : State :=
  { s with
    calls :=
      { s.calls with
        frames :=
          s.calls.frames.push
            ⟨s.pc + 2, s.stack.depth, s.calls.frames.size * s.calls.slotsPerFrame⟩ } }

/-- The state after the innermost call, without its handlers. -/
def returned (s : State) : State :=
  { s with
    calls := { s.calls with frames := s.calls.frames.pop }
    handlers := s.handlers.discardAbove s.calls.frames.pop.size }

/-- The state in which a handler receives a value. -/
def caught (s : State) (handler : Handler) (value : Word) : State :=
  { s with
    handlers := s.handlers.dropInnermost
    calls := s.calls.unwindTo handler.callDepth
    stack := { s.stack with values := (s.stack.values.shrink handler.stackPointer).push value } }

theorem enter_eq (s : State) (offset : Nat) :
    enter offset s =
      if s.calls.frames.size < s.calls.maxDepth then .ok (.jump offset) s.entered
      else .error (.callStackOverflow s.calls.maxDepth) s := by
  by_cases hroom : s.calls.frames.size < s.calls.maxDepth
  · have hpush : CallStack.push (s.pc + 2) s.stack.depth s.calls = .ok _ _ := if_pos hroom
    rw [if_pos hroom]
    show EStateM.bind (onCalls _) _ s = _
    simp only [EStateM.bind, onCalls, Action.within, hpush]
    rfl
  · have hpush : CallStack.push (s.pc + 2) s.stack.depth s.calls = .error _ _ := if_neg hroom
    rw [if_neg hroom]
    show EStateM.bind (onCalls _) _ s = _
    simp only [EStateM.bind, onCalls, Action.within, hpush]

theorem leave_eq (s : State) :
    leave s =
      match s.calls.frames.back? with
      | some frame => .ok (.jump frame.returnAddress) s.returned
      | none => .error .emptyCallStack s := by
  show EStateM.bind (onCalls CallStack.pop) _ s = _
  cases hback : s.calls.frames.back? with
  | some frame =>
      simp only [EStateM.bind, onCalls, Action.within, CallStack.pop, hback]
      rfl
  | none => simp only [EStateM.bind, onCalls, Action.within, CallStack.pop, hback]

theorem deliver_eq_some {s s' : State} {value : Word} {offset : Nat} :
    deliver value s = .ok (some offset) s' ↔
      ∃ handler, s.handlers.innermost? = some handler ∧ handler.stackPointer < s.stack.limit ∧
        offset = handler.target ∧ s' = s.caught handler value := by
  unfold deliver
  cases hinner : s.handlers.innermost? with
  | none => simp
  | some handler =>
      by_cases hroom : handler.stackPointer < s.stack.limit
      · simp only [hroom, if_true, EStateM.Result.ok.injEq, Option.some.injEq, exists_eq_left',
          true_and]
        exact ⟨fun ⟨h₁, h₂⟩ => ⟨h₁.symm, h₂.symm⟩, fun ⟨h₁, h₂⟩ => ⟨h₁.symm, h₂.symm⟩⟩
      · simp [hroom]

theorem deliver_eq_none {s s' : State} {value : Word} :
    deliver value s = .ok none s' ↔ s.handlers.innermost? = none ∧ s' = s := by
  unfold deliver
  cases hinner : s.handlers.innermost? with
  | none => simp [eq_comm]
  | some handler =>
      by_cases hroom : handler.stackPointer < s.stack.limit <;> simp [hroom]

theorem deliver_eq_error {s s' : State} {value : Word} {fault : Fault} :
    deliver value s = .error fault s' ↔
      ∃ handler, s.handlers.innermost? = some handler ∧ s.stack.limit ≤ handler.stackPointer ∧
        fault = .stackOverflow s.stack.limit ∧ s' = s := by
  unfold deliver
  cases hinner : s.handlers.innermost? with
  | none => simp
  | some handler =>
      by_cases hroom : handler.stackPointer < s.stack.limit
      · have : ¬ s.stack.limit ≤ handler.stackPointer := by omega
        simp [hroom, this]
      · have : s.stack.limit ≤ handler.stackPointer := by omega
        simp [hroom, this, eq_comm]

/-! ## All instructions -/

/-- What a completed instruction does to control, when data moves along `R`. -/
inductive Effect (R : State → State → Prop) (env : Environment) (s : State) :
    Instruction → Flow → State → Prop
  | data {i : Instruction} {s' : State} :
      i.isData = true → R s s' → Effect R env s i .next s'
  | halt : Effect R env s .halt .halt s
  | jump {i : Instruction} {target : Word} {offset : Nat} {s' : State} :
      i.Jumps target → env.target target = .ok offset → R s s' → Effect R env s i (.jump offset) s'
  | skip {i : Instruction} {target : Word} {s' : State} :
      i.Jumps target → R s s' → Effect R env s i .next s'
  | call {target : Word} {offset : Nat} :
      env.target target = .ok offset → s.calls.depth < s.calls.maxDepth →
      Effect R env s (.call target) (.jump offset) s.entered
  | ret {frame : Frame} :
      s.calls.frames.back? = some frame →
      Effect R env s .ret (.jump frame.returnAddress) s.returned
  | enterTry {target : Word} {offset : Nat} :
      env.target target = .ok offset →
      Effect R env s (.enterTry target) .next
        { s with handlers := s.handlers.push ⟨offset, s.stack.depth, s.calls.depth⟩ }
  | leaveTry {handler : Handler} :
      s.handlers.innermost? = some handler →
      Effect R env s .leaveTry .next { s with handlers := s.handlers.dropInnermost }
  | throw {value : Word} {s₁ : State} {handler : Handler} :
      R s s₁ → s₁.handlers.innermost? = some handler → handler.stackPointer < s₁.stack.limit →
      Effect R env s .throw (.jump handler.target) (s₁.caught handler value)

namespace CoversUnread

variable {env : Environment} {R : State → State → Prop} {E : Fault → Prop}

/-- A jump that depends on the topmost word, when it completes. -/
theorem branch_ok (h : CoversUnread env R E) {i : Instruction} {target : Word} (hi : i.Jumps target)
    {test : Word → Prop} [DecidablePred test] {s s' : State} {flow : Flow}
    (hx : (Action.ofExcept (env.target target) >>= fun offset => State.pop >>= fun w =>
      Pure.pure (if test w then Flow.jump offset else .next)) s = .ok flow s') :
    Effect R env s i flow s' := by
  obtain ⟨offset, htarget, h₁⟩ := ofExcept_bind_eq_ok.mp hx
  obtain ⟨w, s₁, h₂, h₃⟩ := bind_eq_ok.mp h₁
  cases h₃
  split
  · exact .jump hi htarget (h.pop.ok h₂).1
  · exact .skip hi (h.pop.ok h₂).1

variable [IsPreorder State R]

/-- **An instruction that completes has one of the effects.** -/
theorem execute_ok (h : CoversUnread env R E) {i : Instruction} {s s' : State} {flow : Flow}
    (hread : i = .read → Obeys R (fun _ => True) E takeInput)
    (hx : execute env i s = .ok flow s') : Effect R env s i flow s' := by
  by_cases hi : i.isData = true
  · obtain ⟨hR, rfl⟩ := (h.execute_data hi hread).ok hx
    exact .data hi hR
  -- what is left are the nine instructions that move control
  cases i with
  | halt => cases hx; exact .halt
  | jmp target =>
      obtain ⟨offset, htarget, h₁⟩ := ofExcept_bind_eq_ok.mp hx
      cases h₁
      exact .jump (.jmp target) htarget (refl_of R _)
  | jmpIfZero target => exact h.branch_ok (.jmpIfZero target) hx
  | jmpIfNeg target => exact h.branch_ok (.jmpIfNeg target) hx
  | call target =>
      obtain ⟨offset, htarget, h₁⟩ := ofExcept_bind_eq_ok.mp hx
      rw [enter_eq] at h₁
      split at h₁
      · next hroom => cases h₁; exact .call htarget hroom
      · cases h₁
  | ret =>
      change leave s = _ at hx
      rw [leave_eq] at hx
      split at hx
      · next frame hframe => cases hx; exact .ret hframe
      · cases hx
  | enterTry target =>
      obtain ⟨offset, htarget, h₁⟩ := ofExcept_bind_eq_ok.mp hx
      cases h₁
      exact .enterTry htarget
  | leaveTry =>
      obtain ⟨handler, s₁, h₁, h₂⟩ := bind_eq_ok.mp hx
      cases h₂
      simp only [onHandlers, Action.within, Handlers.pop] at h₁
      cases hinner : s.handlers.innermost? with
      | none => rw [hinner] at h₁; cases h₁
      | some handler₁ =>
          rw [hinner] at h₁
          cases h₁
          exact .leaveTry hinner
  | throw =>
      obtain ⟨value, s₁, h₁, h₂⟩ := bind_eq_ok.mp hx
      obtain ⟨answer, s₂, h₃, h₄⟩ := bind_eq_ok.mp h₂
      cases answer with
      -- without a handler the exception escapes, and that is a fault
      | none => cases h₄
      | some offset =>
          obtain ⟨handler, hinner, hroom, rfl, rfl⟩ := deliver_eq_some.mp h₃
          cases h₄
          exact .throw (h.pop.ok h₁).1 hinner hroom
  | _ => exact absurd rfl hi

end CoversUnread

/-- Why an instruction stops: with a fault in `E`, because its target is no offset of the code,
or because it raises an exception that no handler receives. -/
def Covers.StopsFor (E : Fault → Prop) (env : Environment) (i : Instruction) (fault : Fault)
    (s : State) : Prop :=
  E fault ∨
    (∃ target, i.operand = some target ∧ i.opcode.hasTarget = true ∧
      env.target target = .error fault) ∨
    (i = .throw ∧ s.handlers.innermost? = none ∧
      ∃ value, fault = .uncaughtException value (s.calls.trace s.pc))

namespace CoversUnread

variable {env : Environment} {R : State → State → Prop} {E : Fault → Prop} [IsPreorder State R]

/-- An instruction that first looks up its target. -/
theorem target_error {i : Instruction} {target : Word} (hi : i.operand = some target)
    (ht : i.opcode.hasTarget = true) {f : Nat → Action State Flow} {s s' : State} {fault : Fault}
    (hx : (Action.ofExcept (env.target target) >>= f) s = .error fault s')
    (hf : ∀ offset, f offset s = .error fault s' → R s s' ∧ E fault) :
    R s s' ∧ Covers.StopsFor E env i fault s' := by
  rcases ofExcept_bind_eq_error.mp hx with ⟨htarget, rfl⟩ | ⟨offset, -, h₁⟩
  · exact ⟨refl_of R _, Or.inr (Or.inl ⟨target, hi, ht, htarget⟩)⟩
  · exact ⟨(hf offset h₁).1, Or.inl (hf offset h₁).2⟩

/-- **An instruction that stops has moved nothing but data.** -/
theorem execute_error (h : CoversUnread env R E) {i : Instruction} {s s' : State} {fault : Fault}
    (hread : i = .read → Obeys R (fun _ => True) E takeInput)
    (hx : execute env i s = .error fault s') : R s s' ∧ Covers.StopsFor E env i fault s' := by
  by_cases hi : i.isData = true
  · obtain ⟨hR, hE⟩ := (h.execute_data hi hread).error hx
    exact ⟨hR, Or.inl hE⟩
  -- a conditional jump can also stop at the word it tests
  have hpop : ∀ {test : Word → Flow},
      (State.pop >>= fun w => Pure.pure (test w)) s = .error fault s' → R s s' ∧ E fault := by
    intro test h₁
    rcases bind_eq_error.mp h₁ with h₂ | ⟨w, s₁, -, h₂⟩
    · exact h.pop.error h₂
    · cases h₂
  cases i with
  | halt => cases hx
  | jmp target => exact target_error rfl rfl hx fun offset h₁ => by cases h₁
  | jmpIfZero target => exact target_error rfl rfl hx fun offset h₁ => hpop h₁
  | jmpIfNeg target => exact target_error rfl rfl hx fun offset h₁ => hpop h₁
  | call target =>
      refine target_error rfl rfl hx fun offset h₁ => ?_
      rw [enter_eq] at h₁
      split at h₁
      · cases h₁
      · cases h₁
        exact ⟨refl_of R _, h.fault _ rfl⟩
  | ret =>
      change leave s = _ at hx
      rw [leave_eq] at hx
      split at hx
      · cases hx
      · cases hx
        exact ⟨refl_of R _, Or.inl (h.fault _ rfl)⟩
  | enterTry target => exact target_error rfl rfl hx fun offset h₁ => by cases h₁
  | leaveTry =>
      rcases bind_eq_error.mp hx with h₁ | ⟨handler, s₁, h₁, h₂⟩
      · simp only [onHandlers, Action.within, Handlers.pop] at h₁
        cases hinner : s.handlers.innermost? with
        | none =>
            rw [hinner] at h₁
            cases h₁
            exact ⟨refl_of R _, Or.inl (h.fault _ rfl)⟩
        | some handler => rw [hinner] at h₁; cases h₁
      · cases h₂
  | throw =>
      -- it stops at the value, at a handler without room, or without a handler
      rcases bind_eq_error.mp hx with h₁ | ⟨value, s₁, h₁, h₂⟩
      · exact ⟨(h.pop.error h₁).1, Or.inl (h.pop.error h₁).2⟩
      · rcases bind_eq_error.mp h₂ with h₃ | ⟨answer, s₂, h₃, h₄⟩
        · obtain ⟨handler, -, -, rfl, rfl⟩ := deliver_eq_error.mp h₃
          exact ⟨(h.pop.ok h₁).1, Or.inl (h.fault _ rfl)⟩
        · cases answer with
          | some offset => cases h₄
          | none =>
              obtain ⟨hnone, rfl⟩ := deliver_eq_none.mp h₃
              cases h₄
              exact ⟨(h.pop.ok h₁).1, Or.inr (Or.inr ⟨rfl, hnone, value, rfl⟩)⟩
  | _ => exact absurd rfl hi

end CoversUnread

end State

end StackMachine
