import StackMachine.Proofs.Execution.Locals
import StackMachine.Proofs.Heap.Requests

set_option autoImplicit false

/-! # What a failing instruction leaves

An instruction takes its operands before it changes anything else, and each change completes or
leaves everything as it is. So an instruction that fails has taken some operands and done nothing
more (`State.execute_spends`); only `READ` has also taken its word from the input when the operand
stack turns out to be full (`State.execute_read`). This holds with the standard builtins, which
take at most three operands (`Registry.standard_spends`).

A value is put on the stack after a change of the heap only by `MALLOC` and the builtin that makes
an array. By then an operand has been taken, so there is room for it.
-/

namespace StackMachine

open StackMachine.Action

/-! ## Operands -/

namespace OperandStack

/-- `s'` is `s` without its `n` topmost words. -/
structure Popped (n : Nat) (s s' : OperandStack) : Prop where
  limit : s'.limit = s.limit
  words : ∃ taken : List Word, taken.length = n ∧ s.values.toList = s'.values.toList ++ taken

/-- The stack can take one more word. -/
def HasRoom (s : OperandStack) : Prop := s.depth < s.limit

namespace Popped

variable {n k : Nat} {s s₁ s' : OperandStack}

theorem zero : Popped 0 s s := ⟨rfl, [], rfl, (List.append_nil _).symm⟩

theorem trans (h₁ : Popped n s s₁) (h₂ : Popped k s₁ s') : Popped (n + k) s s' := by
  obtain ⟨taken₁, hlength₁, hwords₁⟩ := h₁.words
  obtain ⟨taken₂, hlength₂, hwords₂⟩ := h₂.words
  refine ⟨h₂.limit.trans h₁.limit, taken₂ ++ taken₁, ?_, ?_⟩
  · rw [List.length_append, hlength₁, hlength₂, Nat.add_comm]
  · rw [hwords₁, hwords₂, List.append_assoc]

theorem isPrefix (h : Popped n s s') : s'.values.toList <+: s.values.toList := by
  obtain ⟨taken, -, hwords⟩ := h.words
  exact ⟨taken, hwords.symm⟩

theorem depth (h : Popped n s s') : s.depth = s'.depth + n := by
  obtain ⟨taken, hlength, hwords⟩ := h.words
  have := congrArg List.length hwords
  rw [List.length_append, hlength, Array.length_toList, Array.length_toList] at this
  exact this

/-- A stack within its limit has room once a word has been taken. -/
theorem hasRoom (h : Popped (n + 1) s s') (hs : s.depth ≤ s.limit) : s'.HasRoom := by
  have hdepth := h.depth
  have hlimit := h.limit
  unfold HasRoom
  omega

/-- And once two words have been taken, there is room behind a new one. -/
theorem hasRoom_push (h : Popped (n + 2) s s') (hs : s.depth ≤ s.limit) (w : Word) :
    HasRoom { s' with values := s'.values.push w } := by
  have hdepth := h.depth
  have hlimit := h.limit
  show (s'.values.push w).size < s'.limit
  rw [Array.size_push]
  unfold OperandStack.depth at hdepth hs
  omega

end Popped

theorem ensures_pop {s₀ : OperandStack} {n : Nat} :
    Ensures (Popped n s₀) pop (fun _ => Popped (n + 1) s₀) (Popped n s₀) where
  ok {s w s'} hs hx := by
    unfold pop at hx
    split at hx
    · next hback =>
        cases hx
        obtain ⟨values, hvalues⟩ := Array.back?_eq_some_iff.mp hback
        exact hs.trans ⟨rfl, [w], rfl, by simp [hvalues]⟩
    · cases hx
  error hs hx := by
    unfold pop at hx
    split at hx <;> cases hx
    exact hs

/-- A pair of operands that is not complete has cost one word at most. -/
theorem ensures_popPair (s : OperandStack) :
    Ensures (Popped 0 s) popPair (fun _ => Popped 2 s) (fun s' => ∃ k ≤ 1, Popped k s s') := by
  have hpop : ∀ {n : Nat}, n ≤ 1 →
      Ensures (Popped n s) pop (fun _ => Popped (n + 1) s) (fun s' => ∃ k ≤ 1, Popped k s s') :=
    fun {n} hn => ⟨ensures_pop.ok, fun hs hx => ⟨n, hn, ensures_pop.error hs hx⟩⟩
  exact (hpop (by decide)).bind fun right => (hpop (by decide)).bind fun left => .pure fun _ h => h

theorem push_allOrNothing (w : Word) (s : OperandStack) : AllOrNothing (push w) s := by
  intro fault s' hx
  unfold push at hx
  split at hx <;> cases hx
  rfl

theorem push_of_hasRoom {s : OperandStack} (h : s.HasRoom) (w : Word) :
    push w s = .ok () { s with values := s.values.push w } := if_pos h

/-- How a larger state holds an operand stack. -/
structure Part (σ : Type) where
  get : σ → OperandStack
  set : σ → OperandStack → σ
  get_set : ∀ s stack, get (set s stack) = stack
  set_set : ∀ s stack stack', set (set s stack) stack' = set s stack'
  set_get : ∀ s, set s (get s) = s

namespace Part

/-- The operand stack of a run. -/
def state : Part State where
  get := State.stack
  set s stack := { s with stack }
  get_set _ _ := rfl
  set_set _ _ _ := rfl
  set_get _ := rfl

/-- The operand stack that a builtin can reach. -/
def context : Part Builtin.Context where
  get := Builtin.Context.stack
  set c stack := { c with stack }
  get_set _ _ := rfl
  set_set _ _ _ := rfl
  set_get _ := rfl

variable {σ : Type} (p : Part σ)

/-- `s'` is `s` without the `n` topmost words of its operand stack. -/
def Spent (n : Nat) (s s' : σ) : Prop := ∃ stack, Popped n (p.get s) stack ∧ s' = p.set s stack

/-- `s'` is `s` without some of the `bound` topmost words of its operand stack. -/
def SpentAtMost (bound : Nat) (s s' : σ) : Prop := ∃ n ≤ bound, p.Spent n s s'

variable {p} {n k bound : Nat} {s s' : σ}

theorem Spent.zero : p.Spent 0 s s := ⟨p.get s, .zero, (p.set_get s).symm⟩

theorem Spent.popped (h : p.Spent n s s') : Popped n (p.get s) (p.get s') := by
  obtain ⟨stack, hpopped, rfl⟩ := h
  rwa [p.get_set]

theorem Spent.set (h : p.Spent n s s') {stack : OperandStack} (hk : Popped k (p.get s') stack) :
    p.Spent (n + k) s (p.set s' stack) := by
  obtain ⟨stack', hpopped, rfl⟩ := h
  rw [p.get_set] at hk
  exact ⟨stack, hpopped.trans hk, p.set_set ..⟩

/-- An action on the operand stack that changes nothing when it fails. -/
theorem within_allOrNothing {α : Type} {x : Action OperandStack α}
    (hx : AllOrNothing x (p.get s)) : AllOrNothing (x.within p.get p.set) s :=
  AllOrNothing.within hx (by rw [p.set_set, p.set_get])

/-- An action that takes words from the operand stack does so in the larger state. -/
theorem ensures_within {α : Type} {x : Action OperandStack α} {slack : Nat}
    (hx : ∀ stack, Ensures (Popped 0 stack) x (fun _ => Popped k stack)
      (fun stack' => ∃ j ≤ slack, Popped j stack stack')) (hn : n + slack ≤ bound) :
    Ensures (p.Spent n s) (x.within p.get p.set) (fun _ => p.Spent (n + k) s)
      (p.SpentAtMost bound s) := by
  refine .within fun s₁ hs₁ => ⟨?_, ?_⟩
  · rintro _ w stack rfl hok
    rw [p.set_set]
    exact hs₁.set ((hx _).ok .zero hok)
  · rintro _ fault stack rfl herror
    obtain ⟨j, hj, hpopped⟩ := (hx _).error .zero herror
    rw [p.set_set]
    exact ⟨n + j, by omega, hs₁.set hpopped⟩

theorem ensures_pop (hn : n ≤ bound) :
    Ensures (p.Spent n s) (pop.within p.get p.set) (fun _ => p.Spent (n + 1) s)
      (p.SpentAtMost bound s) :=
  ensures_within (fun _ => ⟨OperandStack.ensures_pop.ok,
    fun hs hx => ⟨0, Nat.le_refl 0, OperandStack.ensures_pop.error hs hx⟩⟩) hn

/-- Putting a word on a stack that has room does not fail. -/
theorem ensures_push {E : σ → Prop} (w : Word) :
    Ensures (fun s => (p.get s).HasRoom) ((push w).within p.get p.set) (fun _ _ => True) E where
  ok _ _ := trivial
  error {s fault s'} hroom hx := by
    simp only [Action.within, push_of_hasRoom hroom] at hx
    cases hx

end Part

end OperandStack

/-! ## Changes that happen completely or not at all -/

namespace Heap

theorem allocate_allOrNothing (size : Nat) (h : Heap) : AllOrNothing (allocate size) h := by
  intro fault h' hx
  unfold allocate at hx
  split at hx <;> cases hx
  rfl

theorem write_allOrNothing (address : Word) (content : List UInt8) (h : Heap) :
    AllOrNothing (write address content) h := by
  intro fault h' hx
  unfold write at hx
  split at hx <;> cases hx
  rfl

/-- Once the block is allocated, there is room for the length of the array. -/
theorem allocateArray_allOrNothing (length : Word) {h : Heap} (ha : h.Admissible) :
    AllOrNothing (allocateArray length) h := by
  intro fault h' hx
  exact Allocation.eq_of_refused ha (a := .array length) (answered_of_error hx)

theorem arraySet_allOrNothing (address index value : Word) (h : Heap) :
    AllOrNothing (arraySet address index value) h := by
  intro fault h' hx
  rw [arraySet_eq] at hx
  cases he : h.elementAddress address index with
  | error fault' => rw [he] at hx; cases hx; rfl
  | ok element => rw [he] at hx; exact write_allOrNothing element _ h fault h' hx

end Heap

namespace Memory

theorem storeGlobal_allOrNothing (address value : Word) (m : Memory) :
    AllOrNothing (storeGlobal address value) m := by
  intro fault m' hx
  unfold storeGlobal at hx
  split at hx <;> cases hx
  rfl

theorem storeLocal_allOrNothing (base : Nat) (offset value : Word) (m : Memory) :
    AllOrNothing (storeLocal base offset value) m := by
  intro fault m' hx
  unfold storeLocal at hx
  split at hx <;> cases hx
  rfl

end Memory

/-! ## Builtins -/

open OperandStack (Part)

namespace Builtin.Context

variable {c : Context} {n bound : Nat}

theorem ensures_query {α : Type} (question : Heap → Except Fault α) (hn : n ≤ bound) :
    Ensures (Part.context.Spent n c) (query question) (fun _ => Part.context.Spent n c)
      (Part.context.SpentAtMost bound c) :=
  Ensures.get.bind fun _ => .ofExcept (fun _ _ h => h.1) fun _ h => ⟨n, hn, h.1⟩

theorem ensures_push (w : Word) (hn : n ≤ bound) :
    Ensures (Part.context.Spent n c) (push w) (fun _ _ => True)
      (Part.context.SpentAtMost bound c) :=
  .of_allOrNothing
    (fun _ _ => Part.context.within_allOrNothing (OperandStack.push_allOrNothing w _))
    fun _ h => ⟨n, hn, h⟩

/-- An operand has been taken, so an array leaves room for its address. -/
theorem ensures_allocateArray (length : Word) (hroom : c.stack.depth ≤ c.stack.limit)
    (hheap : c.heap.Admissible) (hn : n + 1 ≤ bound) :
    Ensures (Part.context.Spent (n + 1) c) (onHeap (Heap.allocateArray length))
      (fun _ c' => c'.stack.HasRoom) (Part.context.SpentAtMost bound c) := by
  refine .within fun c₁ hc₁ => ⟨?_, ?_⟩
  · rintro _ address heap rfl -
    exact hc₁.popped.hasRoom hroom
  · rintro _ fault heap rfl hx
    have hadmissible : c₁.heap.Admissible := by
      obtain ⟨stack, -, rfl⟩ := hc₁
      exact hheap
    rw [Heap.allocateArray_allOrNothing length hadmissible _ _ hx]
    exact ⟨n + 1, hn, hc₁⟩

theorem ensures_arraySet (address index value : Word) (hn : n ≤ bound) :
    Ensures (Part.context.Spent n c) (onHeap (Heap.arraySet address index value))
      (fun _ _ => True) (Part.context.SpentAtMost bound c) :=
  .of_allOrNothing
    (fun _ _ => .within (Heap.arraySet_allOrNothing address index value _) rfl)
    fun _ h => ⟨n, hn, h⟩

end Builtin.Context

open Builtin.Context in
/-- **A standard builtin that fails has taken at most three operands and done nothing more.** -/
theorem Registry.standard_spends {c : Builtin.Context} (hroom : c.stack.depth ≤ c.stack.limit)
    (hheap : c.heap.Admissible) (id : Word) :
    Ensures (Part.context.Spent 0 c) (standard.call id) (fun _ _ => True)
      (Part.context.SpentAtMost 3 c) := by
  have hpop : ∀ {n : Nat}, n ≤ 3 → Ensures (Part.context.Spent n c) pop
      (fun _ => Part.context.Spent (n + 1) c) (Part.context.SpentAtMost 3 c) :=
    fun hn => Part.context.ensures_pop hn
  -- both lengths are read in the same way, from the first word of the object
  have hlength : Ensures (Part.context.Spent 0 c)
      (pop >>= fun address => query (·.objectLength address) >>= push) (fun _ _ => True)
      (Part.context.SpentAtMost 3 c) :=
    (hpop (by decide)).bind fun address =>
      (ensures_query _ (by decide)).bind fun length => ensures_push length (by decide)
  unfold Registry.call
  split
  · next builtin hfind =>
      obtain ⟨l₁, l₂, hl, -⟩ := List.lookup_eq_some_iff.mp hfind
      have hentry : (id, builtin) ∈ standard.entries := by rw [hl]; simp
      simp only [standard, List.mem_cons, List.not_mem_nil, or_false, Prod.mk.injEq] at hentry
      rcases hentry with ⟨-, rfl⟩ | ⟨-, rfl⟩ | ⟨-, rfl⟩ | ⟨-, rfl⟩ | ⟨-, rfl⟩ | ⟨-, rfl⟩
      -- new array, element, change of an element
      · exact (hpop (by decide)).bind fun length =>
          (ensures_allocateArray length hroom hheap (by decide)).bind fun address =>
            Part.context.ensures_push address
      · exact (hpop (by decide)).bind fun index => (hpop (by decide)).bind fun address =>
          (ensures_query _ (by decide)).bind fun w => ensures_push w (by decide)
      · exact (hpop (by decide)).bind fun value => (hpop (by decide)).bind fun index =>
          (hpop (by decide)).bind fun address =>
            ensures_arraySet address index value (by decide)
      · exact hlength
      · exact hlength
      · exact (hpop (by decide)).bind fun address =>
          (ensures_query _ (by decide)).bind fun bytes => .modify fun _ _ => trivial
  · exact .throw fun _ h => ⟨0, by decide, h⟩

/-! ## Instructions -/

namespace State

theorem deliver_allOrNothing (value : Word) (s : State) : AllOrNothing (deliver value) s := by
  intro fault s' hx
  obtain ⟨-, -, -, -, rfl⟩ := deliver_eq_error.mp hx
  rfl

theorem enter_allOrNothing (offset : Nat) (s : State) : AllOrNothing (enter offset) s := by
  intro fault s' hx
  rw [enter_eq] at hx
  split at hx <;> cases hx
  rfl

theorem leave_allOrNothing (s : State) : AllOrNothing leave s := by
  intro fault s' hx
  rw [leave_eq] at hx
  split at hx <;> cases hx
  rfl

theorem leaveTry_allOrNothing (s : State) : AllOrNothing (onHandlers Handlers.pop) s := by
  refine .within ?_ rfl
  intro fault handlers hx
  unfold Handlers.pop at hx
  split at hx <;> cases hx
  rfl

/-- `READ` takes its word from the input before it finds the operand stack full. -/
theorem execute_read (env : Environment) (s : State) :
    execute env .read s =
      match s.input with
      | [] => .error .noInputAvailable s
      | w :: rest =>
        if s.stack.depth < s.stack.limit then
          .ok .next
            { s with
              input := rest
              stack := { s.stack with values := s.stack.values.push w } }
        else .error (.stackOverflow s.stack.limit) { s with input := rest } := by
  simp only [execute, bind, EStateM.bind, takeInput]
  cases s.input with
  | nil => rfl
  | cons w rest =>
      by_cases hroom : s.stack.depth < s.stack.limit
      · have hpush : OperandStack.push w s.stack = .ok () _ := if_pos hroom
        simp only [push, onStack, Action.within, hpush, if_pos hroom]
        rfl
      · have hpush : OperandStack.push w s.stack = .error _ _ := if_neg hroom
        simp only [push, onStack, Action.within, hpush, if_neg hroom]

section Spends

variable {s : State} {n : Nat} {α : Type}

theorem ensures_of_allOrNothing {x : Action State α} (hx : ∀ s, AllOrNothing x s) (hn : n ≤ 4) :
    Ensures (Part.state.Spent n s) x (fun _ _ => True) (Part.state.SpentAtMost 4 s) :=
  .of_allOrNothing (fun s _ => hx s) fun _ h => ⟨n, hn, h⟩

theorem ensures_ofExcept (r : Except Fault α) (hn : n ≤ 4) :
    Ensures (Part.state.Spent n s) (Action.ofExcept r) (fun _ => Part.state.Spent n s)
      (Part.state.SpentAtMost 4 s) :=
  .ofExcept (fun _ _ h => h) fun _ h => ⟨n, hn, h⟩

theorem ensures_query (question : State → Except Fault α) (hn : n ≤ 4) :
    Ensures (Part.state.Spent n s) (query question) (fun _ => Part.state.Spent n s)
      (Part.state.SpentAtMost 4 s) where
  ok hs hx := (query_eq_ok.mp hx).2 ▸ hs
  error hs hx := (query_eq_error.mp hx).2 ▸ ⟨n, hn, hs⟩

theorem ensures_pop (hn : n ≤ 4) :
    Ensures (Part.state.Spent n s) pop (fun _ => Part.state.Spent (n + 1) s)
      (Part.state.SpentAtMost 4 s) :=
  Part.state.ensures_pop hn

theorem ensures_popPair :
    Ensures (Part.state.Spent 0 s) popPair (fun _ => Part.state.Spent 2 s)
      (Part.state.SpentAtMost 4 s) :=
  Part.state.ensures_within OperandStack.ensures_popPair (by decide)

theorem ensures_push (w : Word) (hn : n ≤ 4) :
    Ensures (Part.state.Spent n s) (push w) (fun _ _ => True) (Part.state.SpentAtMost 4 s) :=
  ensures_of_allOrNothing
    (fun _ => Part.state.within_allOrNothing (OperandStack.push_allOrNothing w _)) hn

theorem ensures_onHeap {x : Action Heap α} (hx : ∀ h, AllOrNothing x h) (hn : n ≤ 4) :
    Ensures (Part.state.Spent n s) (onHeap x) (fun _ _ => True) (Part.state.SpentAtMost 4 s) :=
  ensures_of_allOrNothing (fun _ => .within (hx _) rfl) hn

theorem ensures_onMemory {x : Action Memory α} (hx : ∀ m, AllOrNothing x m) (hn : n ≤ 4) :
    Ensures (Part.state.Spent n s) (onMemory x) (fun _ _ => True) (Part.state.SpentAtMost 4 s) :=
  ensures_of_allOrNothing (fun _ => .within (hx _) rfl) hn

/-- An operand has been taken, so a block leaves room for its address. -/
theorem ensures_malloc (hroom : s.stack.depth ≤ s.stack.limit) :
    Ensures (Part.state.Spent 0 s) malloc (fun _ _ => True) (Part.state.SpentAtMost 4 s) := by
  refine (ensures_pop (by decide)).bind fun size => ?_
  split
  · exact .throw fun _ h => ⟨1, by decide, h⟩
  · next count _ =>
      have hallocate : Ensures (Part.state.Spent 1 s) (onHeap (Heap.allocate count))
          (fun _ s' => s'.stack.HasRoom) (Part.state.SpentAtMost 4 s) := by
        refine .within fun s₁ hs₁ => ⟨?_, ?_⟩
        · rintro _ base heap rfl -
          exact hs₁.popped.hasRoom hroom
        · rintro _ fault heap rfl hx
          rw [Heap.allocate_allOrNothing count _ _ _ hx]
          exact ⟨1, by decide, hs₁⟩
      exact hallocate.bind fun base => Part.state.ensures_push _

/-- A pair of operands has been taken, so both find room again. -/
theorem ensures_swap (env : Environment) (hroom : s.stack.depth ≤ s.stack.limit) :
    Ensures (Part.state.Spent 0 s) (execute env .swap) (fun _ _ => True)
      (Part.state.SpentAtMost 4 s) := by
  refine ensures_popPair.bind fun (left, right) => ?_
  have hfirst : Ensures (Part.state.Spent 2 s) (onStack (OperandStack.push right))
      (fun _ s' => s'.stack.HasRoom) (Part.state.SpentAtMost 4 s) := by
    refine .within fun s₁ hs₁ => ⟨?_, ?_⟩
    · rintro _ _ stack rfl hx
      have hpush := OperandStack.push_of_hasRoom (hs₁.popped.hasRoom hroom) right
      cases hpush.symm.trans hx
      exact hs₁.popped.hasRoom_push hroom right
    · rintro _ fault stack rfl hx
      rw [OperandStack.push_allOrNothing right _ _ _ hx]
      exact ⟨2, by decide, hs₁⟩
  exact hfirst.bind fun _ => (Part.state.ensures_push left).bind fun _ => .pure fun _ _ => trivial

/-- What is raised has been taken from the stack when it finds no handler, or no room. -/
theorem ensures_raise :
    Ensures (Part.state.Spent 0 s) raise (fun _ _ => True) (Part.state.SpentAtMost 4 s) := by
  refine (ensures_pop (by decide)).bind fun value => ?_
  have hdeliver : Ensures (Part.state.Spent 1 s) (deliver value)
      (fun answer s' => answer = none → Part.state.Spent 1 s s')
      (Part.state.SpentAtMost 4 s) := by
    refine ⟨?_, fun hs hx => ?_⟩
    · rintro s₁ _ s' hs hx rfl
      obtain ⟨-, rfl⟩ := deliver_eq_none.mp hx
      exact hs
    · rw [deliver_allOrNothing value _ _ _ hx]
      exact ⟨1, by decide, hs⟩
  refine hdeliver.bind fun answer => ?_
  cases answer with
  | some target => exact .pure fun _ _ => trivial
  | none => exact Ensures.get.bind fun s₁ => .throw fun s' h => ⟨1, by decide, h.1 rfl⟩

/-- The standard builtins take at most three operands, behind the number of the builtin. -/
theorem ensures_standard (hroom : s.stack.depth ≤ s.stack.limit) (hheap : s.heap.Admissible)
    (id : Word) :
    Ensures (Part.state.Spent 1 s) (onContext (Registry.standard.call id)) (fun _ _ => True)
      (Part.state.SpentAtMost 4 s) := by
  refine .within fun s₁ hs₁ => ⟨fun _ _ => trivial, ?_⟩
  rintro _ fault c rfl hx
  have hpopped := hs₁.popped
  have hroom₁ : s₁.stack.depth ≤ s₁.stack.limit := Nat.le_of_lt (hpopped.hasRoom hroom)
  have hheap₁ : s₁.heap.Admissible := by
    obtain ⟨stack, -, rfl⟩ := hs₁
    exact hheap
  obtain ⟨k, hk, stack, hstack, rfl⟩ :=
    (Registry.standard_spends (c := ⟨s₁.stack, s₁.heap, s₁.output⟩) hroom₁ hheap₁ id).error
      .zero hx
  exact ⟨1 + k, by omega, hs₁.set hstack⟩

end Spends

/-- **An instruction that fails has taken at most four operands and done nothing more**, unless it
is `READ`. -/
theorem execute_spends {env : Environment} (hb : env.builtins = .standard) {s : State}
    (hroom : s.stack.depth ≤ s.stack.limit) (hheap : s.heap.Admissible) {i : Instruction}
    (hi : i ≠ .read) :
    Ensures (Part.state.Spent 0 s) (execute env i) (fun _ _ => True)
      (Part.state.SpentAtMost 4 s) := by
  have thenNext : ∀ {α : Type} {x : Action State α} {P : State → Prop} {Q : α → State → Prop},
      Ensures P x Q (Part.state.SpentAtMost 4 s) →
      Ensures P (x >>= fun _ => Pure.pure Flow.next) (fun _ _ => True)
        (Part.state.SpentAtMost 4 s) :=
    fun hx => hx.bind fun _ => .pure fun _ _ => trivial
  have harithmetic : ∀ f, Ensures (Part.state.Spent 0 s) (arithmetic f) (fun _ _ => True)
      (Part.state.SpentAtMost 4 s) := fun f =>
    ensures_popPair.bind fun (a, b) =>
      (ensures_ofExcept (f a b) (by decide)).bind fun w => ensures_push w (by decide)
  have hload : ∀ {n : Nat} (question : State → Except Fault Word), n ≤ 4 →
      Ensures (Part.state.Spent n s) (query question >>= fun w => push w >>= fun _ =>
        Pure.pure Flow.next) (fun _ _ => True) (Part.state.SpentAtMost 4 s) :=
    fun question hn => (ensures_query question hn).bind fun w => thenNext (ensures_push w hn)
  have htarget : ∀ target, Ensures (Part.state.Spent 0 s) (Action.ofExcept (env.target target))
      (fun _ => Part.state.Spent 0 s) (Part.state.SpentAtMost 4 s) :=
    fun target => ensures_ofExcept _ (by decide)
  have hpop : Ensures (Part.state.Spent 0 s) pop (fun _ => Part.state.Spent 1 s)
      (Part.state.SpentAtMost 4 s) := ensures_pop (by decide)
  have hmodify : ∀ (P : State → Prop) (f : State → State),
      Ensures P (modify f) (fun _ _ => True) (Part.state.SpentAtMost 4 s) :=
    fun P f => .modify fun _ _ => trivial
  cases i with
  | halt => exact .pure fun _ _ => trivial
  | push w => exact thenNext (ensures_push w (by decide))
  | add | sub | mul | div | mod => exact thenNext (harithmetic _)
  | dup => exact hload _ (by decide)
  | drop => exact thenNext hpop
  | swap => exact ensures_swap env hroom
  | print => exact thenNext (hpop.bind fun w => hmodify _ _)
  | read => exact absurd rfl hi
  | callBuiltin =>
      rw [execute, hb]
      exact hpop.bind fun id => thenNext (ensures_standard hroom hheap id)
  | jmp target => exact (htarget target).bind fun _ => .pure fun _ _ => trivial
  | jmpIfZero target | jmpIfNeg target =>
      exact (htarget target).bind fun _ => hpop.bind fun _ => .pure fun _ _ => trivial
  | call target =>
      exact (htarget target).bind fun offset =>
        ensures_of_allOrNothing (enter_allOrNothing offset) (by decide)
  | ret => exact ensures_of_allOrNothing leave_allOrNothing (by decide)
  | load address => exact hload _ (by decide)
  | store address =>
      exact hpop.bind fun w =>
        thenNext (ensures_onMemory (Memory.storeGlobal_allOrNothing address w) (by decide))
  | loadLocal offset =>
      exact (ensures_query _ (by decide)).bind fun frame => hload _ (by decide)
  | storeLocal offset =>
      exact (ensures_query _ (by decide)).bind fun frame => hpop.bind fun w =>
        thenNext (ensures_onMemory (Memory.storeLocal_allOrNothing frame.base offset w) (by decide))
  | enterTry handler => exact (htarget handler).bind fun offset => thenNext (hmodify _ _)
  | leaveTry => exact thenNext (ensures_of_allOrNothing leaveTry_allOrNothing (by decide))
  | throw => exact ensures_raise
  | malloc => exact thenNext (ensures_malloc hroom)
  | load8 address | load32 address => exact hload _ (by decide)
  | store8 address | store32 address =>
      exact hpop.bind fun w =>
        thenNext (ensures_onHeap (Heap.write_allOrNothing address _) (by decide))
  | load8Ind | load32Ind => exact hpop.bind fun address => hload _ (by decide)
  | store8Ind | store32Ind =>
      exact ensures_popPair.bind fun (address, w) =>
        thenNext (ensures_onHeap (Heap.write_allOrNothing address _) (by decide))

/-- **What a failing instruction leaves.** It has taken at most four operands and done nothing
more; `READ` has also taken a word from the input if the operand stack is full. -/
theorem execute_failed {env : Environment} (hb : env.builtins = .standard) {s s' : State}
    (hroom : s.stack.depth ≤ s.stack.limit) (hheap : s.heap.Admissible) {i : Instruction}
    {fault : Fault} (hx : execute env i s = .error fault s') :
    s' = { s with stack := s'.stack, input := s'.input } ∧
      (∃ n ≤ 4, OperandStack.Popped n s.stack s'.stack) ∧
      (s'.input = s.input ∨ i = .read ∧ s.stack.depth = s.stack.limit) := by
  by_cases hread : i = .read
  · subst hread
    rw [execute_read] at hx
    cases hinput : s.input with
    | nil =>
        rw [hinput] at hx
        cases hx
        exact ⟨rfl, ⟨0, by decide, .zero⟩, Or.inl hinput⟩
    | cons w rest =>
        rw [hinput] at hx
        dsimp only at hx
        split at hx
        · cases hx
        · next hfull =>
            cases hx
            exact ⟨rfl, ⟨0, by decide, .zero⟩, Or.inr ⟨rfl, by omega⟩⟩
  · obtain ⟨n, hn, stack, hpopped, rfl⟩ := (execute_spends hb hroom hheap hread).error .zero hx
    exact ⟨rfl, ⟨n, hn, hpopped⟩, Or.inl rfl⟩

end State

end StackMachine
