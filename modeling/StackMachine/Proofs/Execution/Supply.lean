import StackMachine.Proofs.Execution.Failing

set_option autoImplicit false

/-! # Input that comes later

Only `READ` looks at the input, and it takes the word that has waited longest. So words behind the
waiting ones make no difference to an instruction, unless it is a `READ` for which no word waits
(`State.execute_supplied`). They make none to the step either, and
still wait behind the others after it (`State.step_supplied`).
-/

namespace StackMachine.State

open StackMachine.Action

/-- The state with more words behind the waiting input. -/
def supplied (words : List Word) (s : State) : State := { s with input := s.input ++ words }

/-! ## Instructions -/

section Instructions

variable {words : List Word}

theorem onStack_overlooks {α : Type} (x : Action OperandStack α) :
    Overlooks (supplied words) (onStack x) :=
  .within (fun _ => rfl) fun _ _ => rfl

theorem onHeap_overlooks {α : Type} (x : Action Heap α) :
    Overlooks (supplied words) (onHeap x) :=
  .within (fun _ => rfl) fun _ _ => rfl

theorem onCalls_overlooks {α : Type} (x : Action CallStack α) :
    Overlooks (supplied words) (onCalls x) :=
  .within (fun _ => rfl) fun _ _ => rfl

theorem onMemory_overlooks {α : Type} (x : Action Memory α) :
    Overlooks (supplied words) (onMemory x) :=
  .within (fun _ => rfl) fun _ _ => rfl

theorem query_overlooks {α : Type} {question : State → Except Fault α}
    (h : ∀ s, question (supplied words s) = question s) :
    Overlooks (supplied words) (query question) where
  ok {s a s'} hx := by
    unfold query at hx ⊢
    rw [h]
    cases hanswer : question s with
    | ok b => rw [hanswer] at hx; cases hx; rfl
    | error fault => rw [hanswer] at hx; cases hx
  error {s fault s'} hx := by
    unfold query at hx ⊢
    rw [h]
    cases hanswer : question s with
    | ok b => rw [hanswer] at hx; cases hx
    | error fault => rw [hanswer] at hx; cases hx; rfl

theorem arithmetic_overlooks (f : Word → Word → Except Fault Word) :
    Overlooks (supplied words) (arithmetic f) :=
  (onStack_overlooks _).bind fun (a, b) =>
    (Overlooks.ofExcept (f a b)).bind fun _ => onStack_overlooks _

theorem malloc_overlooks : Overlooks (supplied words) malloc := by
  refine (onStack_overlooks _).bind fun size => ?_
  split
  · exact .throw
  · exact (onHeap_overlooks _).bind fun _ => onStack_overlooks _

theorem deliver_overlooks (value : Word) : Overlooks (supplied words) (deliver value) where
  ok {s answer s'} hx := by
    cases answer with
    | some target =>
        obtain ⟨handler, hinner, hroom, rfl, rfl⟩ := deliver_eq_some.mp hx
        exact deliver_eq_some.mpr ⟨handler, hinner, hroom, rfl, rfl⟩
    | none =>
        obtain ⟨hnone, rfl⟩ := deliver_eq_none.mp hx
        exact deliver_eq_none.mpr ⟨hnone, rfl⟩
  error {s fault s'} hx := by
    obtain ⟨handler, hinner, hfull, rfl, rfl⟩ := deliver_eq_error.mp hx
    exact deliver_eq_error.mpr ⟨handler, hinner, hfull, rfl, rfl⟩

theorem enter_overlooks (target : Nat) : Overlooks (supplied words) (enter target) :=
  .get_bind (fun _ => rfl) fun _ => (onCalls_overlooks _).bind fun _ => .pure

theorem leave_overlooks : Overlooks (supplied words) leave := by
  refine (onCalls_overlooks _).bind fun frame => ?_
  have hdiscard : Overlooks (supplied words)
      (modify fun s => { s with handlers := s.handlers.discardAbove s.calls.depth }) :=
    .modify fun _ => rfl
  exact hdiscard.bind fun _ => .pure

theorem raise_overlooks : Overlooks (supplied words) raise := by
  refine (onStack_overlooks _).bind fun value => (deliver_overlooks value).bind fun answer => ?_
  cases answer with
  | some target => exact .pure
  | none => exact .get_bind (fun _ => rfl) fun _ => .throw

/-- **An instruction other than `READ` overlooks the input.** -/
theorem execute_overlooks (env : Environment) {i : Instruction} (hi : i ≠ .read) :
    Overlooks (supplied words) (execute env i) := by
  have thenNext : ∀ {α : Type} {x : Action State α}, Overlooks (supplied words) x →
      Overlooks (supplied words) (x >>= fun _ => Pure.pure Flow.next) :=
    fun hx => hx.bind fun _ => .pure
  have hload : ∀ {question : State → Except Fault Word},
      (∀ s, question (supplied words s) = question s) →
      Overlooks (supplied words)
        (query question >>= fun w => push w >>= fun _ => Pure.pure Flow.next) :=
    fun h => (query_overlooks h).bind fun w => thenNext (onStack_overlooks _)
  have hpop : Overlooks (supplied words) pop := onStack_overlooks _
  have hpopPair : Overlooks (supplied words) popPair := onStack_overlooks _
  have htarget : ∀ target, Overlooks (supplied words) (Action.ofExcept (env.target target)) :=
    fun target => .ofExcept _
  cases i with
  | halt => exact .pure
  | push w => exact thenNext (onStack_overlooks _)
  | add | sub | mul | div | mod => exact thenNext (arithmetic_overlooks _)
  | dup => exact hload fun _ => rfl
  | drop => exact thenNext hpop
  | swap =>
      exact hpopPair.bind fun (left, right) =>
        (onStack_overlooks _).bind fun _ => thenNext (onStack_overlooks _)
  | print => exact thenNext (hpop.bind fun w => .modify fun _ => rfl)
  | read => exact absurd rfl hi
  | callBuiltin =>
      exact hpop.bind fun id => thenNext (Overlooks.within (fun _ => rfl) fun _ _ => rfl)
  | jmp target => exact (htarget target).bind fun _ => .pure
  | jmpIfZero target | jmpIfNeg target =>
      exact (htarget target).bind fun _ => hpop.bind fun _ => .pure
  | call target => exact (htarget target).bind fun offset => enter_overlooks offset
  | ret => exact leave_overlooks
  | load address => exact hload fun _ => rfl
  | store address => exact hpop.bind fun w => thenNext (onMemory_overlooks _)
  | loadLocal offset => exact (query_overlooks fun _ => rfl).bind fun frame => hload fun _ => rfl
  | storeLocal offset =>
      exact (query_overlooks fun _ => rfl).bind fun frame => hpop.bind fun w =>
        thenNext (onMemory_overlooks _)
  | enterTry handler =>
      exact (htarget handler).bind fun offset => thenNext (Overlooks.modify fun _ => rfl)
  | leaveTry => exact thenNext (Overlooks.within (fun _ => rfl) fun _ _ => rfl)
  | throw => exact raise_overlooks
  | malloc => exact thenNext malloc_overlooks
  | load8 address | load32 address => exact hload fun _ => rfl
  | store8 address | store32 address => exact hpop.bind fun w => thenNext (onHeap_overlooks _)
  | load8Ind | load32Ind => exact hpop.bind fun address => hload fun _ => rfl
  | store8Ind | store32Ind =>
      exact hpopPair.bind fun (address, w) => thenNext (onHeap_overlooks _)

end Instructions

/-- `READ` finds no input exactly when no word waits. -/
theorem execute_read_noInput {env : Environment} {s s' : State} :
    execute env .read s = .error .noInputAvailable s' ↔ s.input = [] ∧ s' = s := by
  rw [execute_read]
  cases hinput : s.input with
  | nil => simp [eq_comm]
  | cons w rest =>
      dsimp only
      split <;> simp

/-- **Input behind the waiting words makes no difference to an instruction**, unless it is a `READ`
for which no word waits. -/
theorem execute_supplied (env : Environment) {i : Instruction} {s : State} (words : List Word)
    (hread : i = .read → s.input ≠ []) :
    execute env i (s.supplied words) =
      match execute env i s with
      | .ok flow s' => .ok flow (s'.supplied words)
      | .error fault s' => .error fault (s'.supplied words) := by
  by_cases hi : i = .read
  · subst hi
    obtain ⟨w, rest, hinput⟩ := List.exists_cons_of_ne_nil (hread rfl)
    -- the word that waits first is the same one
    have hmore : (s.supplied words).input = w :: (rest ++ words) := by
      show s.input ++ words = _
      rw [hinput]
      rfl
    rw [execute_read, execute_read, hinput, hmore]
    by_cases hroom : s.stack.depth < s.stack.limit
    · have hroom' : (s.supplied words).stack.depth < (s.supplied words).stack.limit := hroom
      simp only [if_pos hroom, if_pos hroom']
      rfl
    · have hroom' : ¬ (s.supplied words).stack.depth < (s.supplied words).stack.limit := hroom
      simp only [if_neg hroom, if_neg hroom']
      rfl
  · cases hx : execute env i s with
    | ok flow s' => exact (execute_overlooks env hi).ok hx
    | error fault s' => exact (execute_overlooks env hi).error hx

/-! ## Steps -/

theorem handle_supplied (s : State) (words : List Word) (opcode : Opcode) (fault : Fault) :
    (s.supplied words).handle opcode fault =
      ((s.handle opcode fault).1, (s.handle opcode fault).2.supplied words) := by
  by_cases hcatch : fault.Catchable
  · rw [handle_of_catchable hcatch, handle_of_catchable hcatch]
    cases hdeliver : deliver fault.code s with
    | ok answer s₁ =>
        rw [(deliver_overlooks fault.code).ok hdeliver]
        cases answer <;> rfl
    | error fault₁ s₁ =>
        rw [(deliver_overlooks fault.code).error hdeliver]
        rfl
  · by_cases hescape : ∃ value trace, fault = .uncaughtException value trace
    · obtain ⟨value, trace, rfl⟩ := hescape
      rfl
    · have hother : ∀ value trace, fault ≠ .uncaughtException value trace :=
        fun value trace he => hescape ⟨value, trace, he⟩
      rw [handle_of_not_catchable hcatch hother, handle_of_not_catchable hcatch hother]
      rfl

/-- **A step leads with more input to the same state with more input**, unless it is a `READ` for
which no word waits. -/
theorem step_supplied {env : Environment} {s s' : State} {i : Instruction} {event : Event}
    (words : List Word) (hread : i = .read → s.input ≠ [])
    (hstep : s.step env i = (event, s')) :
    (s.supplied words).step env i = (event, s'.supplied words) := by
  have hmore := execute_supplied env (s := s.tick) words hread
  cases hx : execute env i s.tick with
  | ok flow s₁ =>
      rw [hx] at hmore
      rw [step_of_ok hx] at hstep
      cases hstep
      rw [step_of_ok (s := s.supplied words) hmore]
      cases flow <;> rfl
  | error fault s₁ =>
      rw [hx] at hmore
      rw [step_of_error hx] at hstep
      rw [step_of_error (s := s.supplied words) hmore, handle_supplied, hstep]

end StackMachine.State
