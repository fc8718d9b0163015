import StackMachine.Builtin.Registry
import StackMachine.CallStack
import StackMachine.Memory
import StackMachine.Proofs.Action

set_option autoImplicit false

/-! # The bounds of stacks, memories and builtins

Every operation of the operand stack and of the heap keeps the limit and the capacity, and
neither the depth nor the cursor can leave them (`OperandStack.Primitive.obeys`,
`Heap.Primitive.obeys`). A builtin that reaches its context only through these operations
therefore keeps them too (`Builtin.Context.Disciplined.obeys`). Outside of host builtins all
faults met on the way are ones that a handler can receive.
-/

namespace StackMachine

open StackMachine.Action

/-- A handler can receive the fault. -/
abbrev Fault.Catchable (fault : Fault) : Prop := fault.isCatchable = true

/-- An answer that fails only with faults a handler can receive. -/
def Answers {α : Type} (r : Except Fault α) : Prop := ∀ fault, r = .error fault → fault.Catchable

namespace Answers

variable {α β : Type}

theorem ok (a : α) : Answers (.ok a : Except Fault α) := by
  intro fault h
  cases h

theorem error {fault : Fault} (h : fault.Catchable) : Answers (.error fault : Except Fault α) := by
  intro fault' h'
  cases h'
  exact h

theorem bind {r : Except Fault α} {f : α → Except Fault β} (hr : Answers r)
    (hf : ∀ a, Answers (f a)) : Answers (r >>= f) := by
  cases r with
  | ok a => exact hf a
  | error fault => exact error (hr fault rfl)

/-- An answer as an action: it leaves the state alone. -/
theorem obeys {σ : Type} {R : σ → σ → Prop} [IsPreorder σ R] {r : Except Fault α}
    (hr : Answers r) : Obeys R (fun _ => True) Fault.Catchable (Action.ofExcept r) :=
  Obeys.ofExcept (fun _ _ => trivial) hr

end Answers

/-! ## The operand stack -/

namespace OperandStack

/-- The operations that change an operand stack. -/
inductive Primitive : {α : Type} → Action OperandStack α → Prop
  | push (w : Word) : Primitive (push w)
  | pop : Primitive pop
  | popPair : Primitive popPair
  | truncate (depth : Nat) : Primitive (modify fun s => s.truncate depth)
  | clear : Primitive (modify clear)

/-- The limit stays, and a stack within its limit stays within it. -/
structure Bounded (s s' : OperandStack) : Prop where
  limit : s'.limit = s.limit
  depth : s.depth ≤ s.limit → s'.depth ≤ s'.limit

instance : IsPreorder OperandStack Bounded where
  refl _ := ⟨rfl, id⟩
  trans _ _ _ h₁ h₂ := ⟨h₂.limit.trans h₁.limit, fun h => h₂.depth (h₁.depth h)⟩

theorem push_obeys (w : Word) : Obeys Bounded (fun _ => True) Fault.Catchable (push w) where
  ok {s _ _} hx := by
    unfold push at hx
    split at hx
    · next hroom =>
        cases hx
        refine ⟨⟨rfl, fun _ => ?_⟩, trivial⟩
        show (s.values.push w).size ≤ s.limit
        rw [Array.size_push]
        omega
    · cases hx
  error hx := by
    unfold push at hx
    split at hx
    · cases hx
    · cases hx
      exact ⟨refl_of Bounded _, rfl⟩

theorem pop_obeys : Obeys Bounded (fun _ => True) Fault.Catchable pop where
  ok {s _ _} hx := by
    unfold pop at hx
    split at hx
    · cases hx
      refine ⟨⟨rfl, fun h => ?_⟩, trivial⟩
      show s.values.pop.size ≤ s.limit
      rw [Array.size_pop]
      exact Nat.le_trans (Nat.sub_le _ _) h
    · cases hx
  error hx := by
    unfold pop at hx
    split at hx
    · cases hx
    · cases hx
      exact ⟨refl_of Bounded _, rfl⟩

theorem popPair_obeys : Obeys Bounded (fun _ => True) Fault.Catchable popPair :=
  pop_obeys.bind fun _ _ => pop_obeys.bind fun _ _ => Obeys.pure trivial

theorem truncate_bounded (s : OperandStack) (depth : Nat) : Bounded s (s.truncate depth) := by
  refine ⟨rfl, fun h => ?_⟩
  show (s.values.shrink depth).size ≤ s.limit
  rw [Array.size_shrink]
  exact Nat.le_trans (Nat.min_le_right _ _) h

theorem Primitive.obeys {α : Type} {x : Action OperandStack α} (hx : Primitive x) :
    Obeys Bounded (fun _ => True) Fault.Catchable x := by
  cases hx with
  | push w => exact push_obeys w
  | pop => exact pop_obeys
  | popPair => exact popPair_obeys
  | truncate depth => exact Obeys.modify fun s => truncate_bounded s depth
  | clear => exact Obeys.modify fun s => ⟨rfl, fun _ => Nat.zero_le _⟩

end OperandStack

/-! ## The heap -/

namespace Heap

/-- The operations that change a heap. -/
inductive Primitive : {α : Type} → Action Heap α → Prop
  | allocate (size : Nat) : Primitive (allocate size)
  | store8 (address value : Word) : Primitive (store8 address value)
  | store32 (address value : Word) : Primitive (store32 address value)
  | allocateArray (length : Word) : Primitive (allocateArray length)
  | arraySet (address index value : Word) : Primitive (arraySet address index value)
  | allocateText (text : String) : Primitive (allocateText text)
  | reset : Primitive (modify reset)

/-- The capacity stays, and a cursor within the capacity stays within it. -/
structure Bounded (h h' : Heap) : Prop where
  capacity : h'.capacity = h.capacity
  cursor : h.cursor ≤ h.capacity → h'.cursor ≤ h'.capacity

instance : IsPreorder Heap Bounded where
  refl _ := ⟨rfl, id⟩
  trans _ _ _ h₁ h₂ := ⟨h₂.capacity.trans h₁.capacity, fun h => h₂.cursor (h₁.cursor h)⟩

@[simp] theorem size_overwrite (bytes : Array UInt8) (start : Nat) (content : List UInt8) :
    (overwrite bytes start content).size = bytes.size := by
  induction content generalizing bytes start with
  | nil => rfl
  | cons b bs ih => rw [overwrite, ih, Array.size_setIfInBounds]

@[simp] theorem size_erase (bytes : Array UInt8) (start count : Nat) :
    (erase bytes start count).size = bytes.size := by
  induction count generalizing bytes start with
  | zero => rfl
  | succ count ih => rw [erase, ih, Array.size_setIfInBounds]

theorem overwrite_bounded (h : Heap) (start : Nat) (content : List UInt8) :
    Bounded h { h with bytes := overwrite h.bytes start content } := by
  have hsize : (overwrite h.bytes start content).size = h.bytes.size := size_overwrite _ _ _
  refine ⟨hsize, fun hc => ?_⟩
  show h.cursor ≤ (overwrite h.bytes start content).size
  rw [hsize]
  exact hc

theorem locate_answers (h : Heap) (address : Word) (size : Nat) :
    Answers (h.locate address size) := by
  unfold locate
  split
  · split
    · exact Answers.ok _
    · exact Answers.error rfl
  · exact Answers.error rfl

theorem load8_answers (h : Heap) (address : Word) : Answers (h.load8 address) :=
  (h.locate_answers address 1).bind fun _ => Answers.ok _

theorem load32_answers (h : Heap) (address : Word) : Answers (h.load32 address) :=
  (h.locate_answers address 4).bind fun _ => Answers.ok _

theorem slice_answers (h : Heap) (address : Word) (size : Nat) :
    Answers (h.slice address size) :=
  (h.locate_answers address size).bind fun _ => Answers.ok _

theorem elementAddress_answers (h : Heap) (address index : Word) :
    Answers (h.elementAddress address index) := by
  refine (h.load32_answers address).bind fun length => ?_
  split
  · dsimp only
    split
    · exact Answers.ok _
    · exact Answers.error rfl
  · exact Answers.error rfl

theorem arrayGet_answers (h : Heap) (address index : Word) : Answers (h.arrayGet address index) :=
  (h.elementAddress_answers address index).bind fun element => h.load32_answers element

theorem textAt_answers (h : Heap) (address : Word) : Answers (h.textAt address) := by
  refine (h.load32_answers address).bind fun length => ?_
  split
  · exact Answers.error rfl
  · split
    · exact Answers.error rfl
    · exact h.slice_answers _ _

theorem write_obeys (address : Word) (content : List UInt8) :
    Obeys Bounded (fun _ => True) Fault.Catchable (write address content) where
  ok hx := by
    unfold write at hx
    split at hx
    · cases hx
      exact ⟨overwrite_bounded _ _ _, trivial⟩
    · cases hx
  error {h _ _} hx := by
    unfold write at hx
    split at hx
    · cases hx
    · next hf =>
        cases hx
        exact ⟨refl_of Bounded _, locate_answers _ _ _ _ hf⟩

theorem allocate_obeys (size : Nat) :
    Obeys Bounded (fun _ => True) Fault.Catchable (allocate size) where
  ok {h _ _} hx := by
    unfold allocate at hx
    split at hx
    · next hroom =>
        cases hx
        refine ⟨⟨size_erase _ _ _, fun _ => ?_⟩, trivial⟩
        show h.cursor + size ≤ (erase h.bytes h.cursor size).size
        rw [size_erase]
        exact hroom
    · cases hx
  error hx := by
    unfold allocate at hx
    split at hx
    · cases hx
    · cases hx
      exact ⟨refl_of Bounded _, rfl⟩

theorem allocateArray_obeys (length : Word) :
    Obeys Bounded (fun _ => True) Fault.Catchable (allocateArray length) := by
  unfold allocateArray
  split
  · exact Obeys.throw rfl
  · exact (allocate_obeys _).bind fun _ _ => (write_obeys _ _).bind fun _ _ => Obeys.pure trivial

theorem arraySet_obeys (address index value : Word) :
    Obeys Bounded (fun _ => True) Fault.Catchable (arraySet address index value) :=
  Obeys.get.bind fun h _ =>
    (h.elementAddress_answers address index).obeys.bind fun element _ => write_obeys element _

theorem allocateText_obeys (text : String) :
    Obeys Bounded (fun _ => True) Fault.Catchable (allocateText text) := by
  unfold allocateText
  dsimp only
  split
  · refine (allocate_obeys _).bind fun base _ => ?_
    -- the bytes go behind the length, into the room just allocated
    refine (Obeys.modify fun h => overwrite_bounded h _ _).bind fun _ _ => ?_
    exact (write_obeys _ _).bind fun _ _ => Obeys.pure trivial
  · exact Obeys.throw rfl

theorem Primitive.obeys {α : Type} {x : Action Heap α} (hx : Primitive x) :
    Obeys Bounded (fun _ => True) Fault.Catchable x := by
  cases hx with
  | allocate size => exact allocate_obeys size
  | store8 address value => exact write_obeys _ _
  | store32 address value => exact write_obeys _ _
  | allocateArray length => exact allocateArray_obeys length
  | arraySet address index value => exact arraySet_obeys address index value
  | allocateText text => exact allocateText_obeys text
  | reset =>
      refine Obeys.modify fun h => ⟨?_, fun _ => Nat.zero_le _⟩
      show (Array.replicate h.capacity 0).size = h.capacity
      rw [Array.size_replicate]

end Heap

/-! ## Slot memory and calls -/

namespace Memory

/-- The memory keeps the number of its slots. -/
structure SameShape (m m' : Memory) : Prop where
  globals : m'.globals.size = m.globals.size
  locals : m'.locals.size = m.locals.size
  slotsPerFrame : m'.slotsPerFrame = m.slotsPerFrame

instance : IsPreorder Memory SameShape where
  refl _ := ⟨rfl, rfl, rfl⟩
  trans _ _ _ h₁ h₂ :=
    ⟨h₂.globals.trans h₁.globals, h₂.locals.trans h₁.locals,
      h₂.slotsPerFrame.trans h₁.slotsPerFrame⟩

theorem globalIndex_answers (m : Memory) (address : Word) : Answers (m.globalIndex address) := by
  unfold globalIndex
  split
  · split
    · exact Answers.ok _
    · exact Answers.error rfl
  · exact Answers.error rfl

theorem localIndex_answers (m : Memory) (base : Nat) (offset : Word) :
    Answers (m.localIndex base offset) := by
  unfold localIndex
  split
  · split
    · exact Answers.ok _
    · exact Answers.error rfl
  · exact Answers.error rfl

theorem loadGlobal_answers (m : Memory) (address : Word) : Answers (m.loadGlobal address) :=
  (m.globalIndex_answers address).bind fun _ => Answers.ok _

theorem loadLocal_answers (m : Memory) (base : Nat) (offset : Word) :
    Answers (m.loadLocal base offset) :=
  (m.localIndex_answers base offset).bind fun _ => Answers.ok _

theorem storeGlobal_obeys (address value : Word) :
    Obeys SameShape (fun _ => True) Fault.Catchable (storeGlobal address value) where
  ok hx := by
    unfold storeGlobal at hx
    split at hx
    · cases hx
      exact ⟨⟨Array.size_setIfInBounds, rfl, rfl⟩, trivial⟩
    · cases hx
  error hx := by
    unfold storeGlobal at hx
    split at hx
    · cases hx
    · next hf =>
        cases hx
        exact ⟨refl_of SameShape _, globalIndex_answers _ _ _ hf⟩

theorem storeLocal_obeys (base : Nat) (offset value : Word) :
    Obeys SameShape (fun _ => True) Fault.Catchable (storeLocal base offset value) where
  ok hx := by
    unfold storeLocal at hx
    split at hx
    · cases hx
      exact ⟨⟨rfl, Array.size_setIfInBounds, rfl⟩, trivial⟩
    · cases hx
  error hx := by
    unfold storeLocal at hx
    split at hx
    · cases hx
    · next hf =>
        cases hx
        exact ⟨refl_of SameShape _, localIndex_answers _ _ _ _ hf⟩

end Memory

theorem CallStack.top_answers (c : CallStack) : Answers c.top := by
  unfold top
  split
  · exact Answers.ok _
  · exact Answers.error rfl

/-! ## Builtins -/

namespace Builtin.Context

/-- The actions that reach a context only through the operations of the operand stack and the
heap, and by appending to the output. They may look at everything, stop with any fault, and go
on after a fault. -/
inductive Disciplined : {α : Type} → Action Context α → Prop
  | pure {α : Type} (a : α) : Disciplined (Pure.pure a : Action Context α)
  | look : Disciplined (get : Action Context Context)
  | stop {α : Type} (fault : Fault) : Disciplined (throw fault : Action Context α)
  | bind {α β : Type} {x : Action Context α} {f : α → Action Context β} :
      Disciplined x → (∀ a, Disciplined (f a)) → Disciplined (x >>= f)
  | recover {α : Type} {x : Action Context α} {f : Fault → Action Context α} :
      Disciplined x → (∀ fault, Disciplined (f fault)) → Disciplined (tryCatch x f)
  | onStack {α : Type} {x : Action OperandStack α} :
      OperandStack.Primitive x → Disciplined (onStack x)
  | onHeap {α : Type} {x : Action Heap α} : Heap.Primitive x → Disciplined (onHeap x)
  | print (words : List Word) : Disciplined (print words)

/-- The operand stack and the heap stay within their bounds. -/
structure Bounded (c c' : Context) : Prop where
  stack : OperandStack.Bounded c.stack c'.stack
  heap : Heap.Bounded c.heap c'.heap

instance : IsPreorder Context Bounded where
  refl _ := ⟨refl_of OperandStack.Bounded _, refl_of Heap.Bounded _⟩
  trans _ _ _ h₁ h₂ := ⟨trans_of _ h₁.stack h₂.stack, trans_of _ h₁.heap h₂.heap⟩

variable {α : Type} {Q : α → Prop} {E : Fault → Prop}

theorem onStack_obeys {x : Action OperandStack α} (hx : Obeys OperandStack.Bounded Q E x) :
    Obeys Bounded Q E (onStack x) :=
  hx.within fun c _ h => ⟨h, refl_of Heap.Bounded c.heap⟩

theorem onHeap_obeys {x : Action Heap α} (hx : Obeys Heap.Bounded Q E x) :
    Obeys Bounded Q E (onHeap x) :=
  hx.within fun c _ h => ⟨refl_of OperandStack.Bounded c.stack, h⟩

theorem print_obeys (words : List Word) : Obeys Bounded (fun _ => True) E (print words) :=
  Obeys.modify fun _ => ⟨refl_of OperandStack.Bounded _, refl_of Heap.Bounded _⟩

theorem query_obeys {question : Heap → Except Fault α} (h : ∀ heap, Answers (question heap)) :
    Obeys Bounded (fun _ => True) Fault.Catchable (query question) :=
  Obeys.get.bind fun c _ => (h c.heap).obeys

/-- **Disciplined actions stay within the bounds of the context.** -/
theorem Disciplined.obeys {x : Action Context α} (hx : Disciplined x) :
    Obeys Bounded (fun _ => True) (fun _ => True) x := by
  induction hx with
  | pure a => exact Obeys.pure trivial
  | look => exact Obeys.get
  | stop fault => exact Obeys.throw trivial
  | bind _ _ ihx ihf => exact ihx.bind fun a _ => ihf a
  | recover _ _ ihx ihf => exact ihx.tryCatch ihf
  | onStack h => exact (onStack_obeys h.obeys).mono (fun _ => id) fun _ _ => trivial
  | onHeap h => exact (onHeap_obeys h.obeys).mono (fun _ => id) fun _ _ => trivial
  | print words => exact print_obeys words

end Builtin.Context

namespace Registry

open Builtin.Context

/-- Every builtin stays within the bounds of its context and stops only with faults in `E`. -/
def Obeys (r : Registry) (E : Fault → Prop) : Prop :=
  ∀ entry ∈ r.entries, Action.Obeys Bounded (fun _ => True) E entry.2.action

theorem Obeys.mono {r : Registry} {E E' : Fault → Prop} (h : r.Obeys E)
    (hE : ∀ fault, E fault → E' fault) : r.Obeys E' :=
  fun entry hentry => (h entry hentry).mono (fun _ => id) hE

/-- Calling a number that has no builtin fails with a fault that a handler can receive. -/
theorem Obeys.call {r : Registry} {E : Fault → Prop} (h : r.Obeys E)
    (hE : ∀ fault, fault.Catchable → E fault) (id : Word) :
    Action.Obeys Bounded (fun _ => True) E (r.call id) := by
  unfold Registry.call
  split
  · next builtin hfind =>
      obtain ⟨l₁, l₂, hl, -⟩ := List.lookup_eq_some_iff.mp hfind
      exact h (id, builtin) (by rw [hl]; simp)
  · exact Action.Obeys.throw (hE _ rfl)

theorem mem_insert {id : Word} {builtin : Builtin} {entry : Word × Builtin} :
    ∀ {entries : List (Word × Builtin)}, entry ∈ insert id builtin entries →
      entry = (id, builtin) ∨ entry ∈ entries := by
  intro entries
  induction entries with
  | nil => intro h; exact Or.inl (List.mem_singleton.mp h)
  | cons first rest ih =>
      intro h
      unfold insert at h
      -- the new entry goes before the first one, replaces it, or goes behind it
      split at h
      · exact List.mem_cons.mp h
      · split at h
        · rcases List.mem_cons.mp h with h | h
          · exact Or.inl h
          · exact Or.inr (List.mem_cons_of_mem _ h)
        · rcases List.mem_cons.mp h with h | h
          · exact Or.inr (List.mem_cons.mpr (Or.inl h))
          · exact (ih h).imp_right (List.mem_cons_of_mem _)

theorem Obeys.register {r : Registry} {E : Fault → Prop} (h : r.Obeys E) (id : Word)
    {builtin : Builtin} (hb : Action.Obeys Bounded (fun _ => True) E builtin.action) :
    (r.register id builtin).Obeys E := by
  intro entry hentry
  rcases mem_insert hentry with rfl | hentry
  · exact hb
  · exact h entry hentry

/-- **The standard builtins stay within the bounds of their context**, and a handler can receive
all their faults. -/
theorem standard_obeys : standard.Obeys Fault.Catchable := by
  have hpop : Action.Obeys Bounded (fun _ => True) Fault.Catchable pop :=
    onStack_obeys OperandStack.pop_obeys
  have hpush : ∀ w, Action.Obeys Bounded (fun _ => True) Fault.Catchable (push w) :=
    fun w => onStack_obeys (OperandStack.push_obeys w)
  intro entry hentry
  simp only [standard, List.mem_cons, List.not_mem_nil, or_false] at hentry
  rcases hentry with rfl | rfl | rfl | rfl | rfl | rfl
  -- new array, element, change of an element
  · exact hpop.bind fun length _ =>
      (onHeap_obeys (Heap.allocateArray_obeys length)).bind fun address _ => hpush address
  · exact hpop.bind fun index _ => hpop.bind fun address _ =>
      (query_obeys fun h => h.arrayGet_answers address index).bind fun w _ => hpush w
  · exact hpop.bind fun value _ => hpop.bind fun index _ => hpop.bind fun address _ =>
      onHeap_obeys (Heap.arraySet_obeys address index value)
  -- both lengths are read in the same way, from the first word of the object
  · exact hpop.bind fun address _ =>
      (query_obeys fun h => h.load32_answers address).bind fun length _ => hpush length
  · exact hpop.bind fun address _ =>
      (query_obeys fun h => h.load32_answers address).bind fun length _ => hpush length
  · exact hpop.bind fun address _ =>
      (query_obeys fun h => h.textAt_answers address).bind fun bytes _ => print_obeys _

end Registry

end StackMachine
