import StackMachine.Proofs.Heap.Bytes
import StackMachine.Proofs.Widening.Basic

set_option autoImplicit false

/-! # Data under larger limits

An operand stack with a larger limit, and a heap with a larger capacity. The words are the same, and
so are the bytes up to the smaller capacity; with the operations of stacks and heaps they stay the
same. So the standard builtins do the same on both (`Registry.standard_mirrors`).
-/

namespace StackMachine

open StackMachine.Action

/-! ## The operand stack -/

namespace OperandStack

/-- The same words, and at least the same limit. -/
structure Widened (s s' : OperandStack) : Prop where
  values : s'.values = s.values
  limit : s.limit ≤ s'.limit

theorem push_mirrors (w : Word) : Mirrors Widened Eq (push w) (push w) := by
  intro s s' h
  unfold push
  rw [h.values]
  have hlimit := h.limit
  by_cases hroom : s.values.size < s.limit
  · rw [if_pos hroom, if_pos (by omega)]
    exact .ok rfl ⟨rfl, hlimit⟩
  · rw [if_neg hroom]
    exact .limit rfl

theorem pop_mirrors : Mirrors Widened Eq pop pop := by
  intro s s' h
  unfold pop
  rw [h.values]
  cases s.values.back? with
  | some w => exact .ok rfl ⟨rfl, h.limit⟩
  | none => exact .error h

theorem popPair_mirrors : Mirrors Widened Eq popPair popPair :=
  pop_mirrors.bind_same fun _ => pop_mirrors.bind_same fun _ => .pure rfl

theorem Widened.truncate {s s' : OperandStack} (h : Widened s s') (depth : Nat) :
    Widened (s.truncate depth) (s'.truncate depth) :=
  ⟨by unfold OperandStack.truncate; rw [h.values], h.limit⟩

end OperandStack

/-! ## The heap -/

namespace Heap

/-- The same cursor, at least the same capacity, and the same bytes as far as both go. -/
structure Widened (h h' : Heap) : Prop where
  cursor : h'.cursor = h.cursor
  capacity : h.capacity ≤ h'.capacity
  bytes : ∀ i < h.capacity, h'.bytes[i]? = h.bytes[i]?

variable {h h' : Heap} {address : Word}

theorem Widened.byteAt (hw : Widened h h') {i : Nat} (hi : i < h.capacity) :
    h'.byteAt i = h.byteAt i := by
  rw [Heap.byteAt, Heap.byteAt, Array.getD_eq_getD_getElem?, Array.getD_eq_getD_getElem?,
    hw.bytes i hi]

/-- What is written inside of the smaller heap is written to both. -/
theorem Widened.overwrite (hw : Widened h h') {start : Nat} {content : List UInt8}
    (hroom : start + content.length ≤ h.capacity) :
    Widened { h with bytes := Heap.overwrite h.bytes start content }
      { h' with bytes := Heap.overwrite h'.bytes start content } where
  cursor := hw.cursor
  capacity := by
    have hcapacity := hw.capacity
    unfold Heap.capacity at hcapacity ⊢
    rwa [size_overwrite, size_overwrite]
  bytes i hi := by
    unfold Heap.capacity at hi
    rw [size_overwrite] at hi
    show (Heap.overwrite h'.bytes start content)[i]? = (Heap.overwrite h.bytes start content)[i]?
    -- the content ends before the smaller heap does, so both heaps get all of it
    by_cases hbeside : i < start ∨ start + content.length ≤ i
    · rw [getElem?_overwrite_beside hbeside, getElem?_overwrite_beside hbeside]
      exact hw.bytes i hi
    · obtain ⟨k, rfl⟩ := Nat.exists_eq_add_of_le (by omega : start ≤ i)
      have hk : k < content.length := by omega
      rw [getElem?_overwrite hk (Nat.le_trans hroom hw.capacity), getElem?_overwrite hk hroom]

/-! ### Questions -/

/-- An access inside the smaller heap is inside both, at the same position. -/
theorem Widened.locate (hw : Widened h h') (address : Word) (size : Nat) :
    Echoes (fun i i' => i' = i ∧ i + size ≤ h.capacity) (h.locate address size)
      (h'.locate address size) := by
  have hcapacity := hw.capacity
  unfold Heap.locate
  cases Word.index? address with
  | none => exact .limit rfl
  | some start =>
      by_cases hroom : start + size ≤ h.capacity
      · dsimp only
        rw [if_pos hroom, if_pos (by omega)]
        exact .ok ⟨rfl, hroom⟩
      · dsimp only
        rw [if_neg hroom]
        exact .limit rfl

theorem Widened.load8 (hw : Widened h h') (address : Word) :
    Echoes Eq (h.load8 address) (h'.load8 address) := by
  refine (hw.locate address 1).bind fun i i' hi => ?_
  obtain ⟨rfl, hroom⟩ := hi
  rw [hw.byteAt hroom]
  exact .ok rfl

theorem Widened.load32 (hw : Widened h h') (address : Word) :
    Echoes Eq (h.load32 address) (h'.load32 address) := by
  refine (hw.locate address 4).bind fun i i' hi => ?_
  obtain ⟨rfl, hroom⟩ := hi
  rw [hw.byteAt (by omega : i' < h.capacity), hw.byteAt (by omega : i' + 1 < h.capacity),
    hw.byteAt (by omega : i' + 2 < h.capacity), hw.byteAt (by omega : i' + 3 < h.capacity)]
  exact .ok rfl

theorem Widened.slice (hw : Widened h h') (address : Word) (size : Nat) :
    Echoes Eq (h.slice address size) (h'.slice address size) := by
  refine (hw.locate address size).bind fun i i' hi => ?_
  obtain ⟨rfl, hroom⟩ := hi
  have hsame : h'.bytes.extract i' (i' + size) = h.bytes.extract i' (i' + size) := by
    refine Array.ext_getElem? fun k => ?_
    have hcapacity := hw.capacity
    unfold Heap.capacity at hroom hcapacity
    rw [Array.getElem?_extract, Array.getElem?_extract]
    by_cases hk : k < size
    · rw [if_pos (by omega), if_pos (by omega)]
      exact hw.bytes _ (by unfold Heap.capacity; omega)
    · rw [if_neg (by omega), if_neg (by omega)]
  rw [hsame]
  exact .ok rfl

theorem Widened.elementAddress (hw : Widened h h') (address index : Word) :
    Echoes Eq (h.elementAddress address index) (h'.elementAddress address index) := by
  refine (hw.load32 address).bind fun length length' hlength => ?_
  subst hlength
  exact .refl _

theorem Widened.arrayGet (hw : Widened h h') (address index : Word) :
    Echoes Eq (h.arrayGet address index) (h'.arrayGet address index) := by
  refine (hw.elementAddress address index).bind fun element element' helement => ?_
  subst helement
  exact hw.load32 element

theorem Widened.textAt (hw : Widened h h') (address : Word) :
    Echoes Eq (h.textAt address) (h'.textAt address) := by
  refine (hw.load32 address).bind fun length length' hlength => ?_
  subst hlength
  split
  · exact .error _
  · split
    · exact .error _
    · exact hw.slice _ _

/-! ### Changes -/

theorem write_mirrors (address : Word) (content : List UInt8) :
    Mirrors Widened Eq (write address content) (write address content) := by
  intro h h' hw
  unfold write
  have hlocate := hw.locate address content.length
  generalize h.locate address content.length = r, h'.locate address content.length = r'
    at hlocate ⊢
  cases hlocate with
  | ok hi =>
      obtain ⟨rfl, hroom⟩ := hi
      exact .ok rfl (hw.overwrite hroom)
  | error fault => exact .error hw
  | limit hlimit => exact .limit hlimit

theorem allocate_mirrors (size : Nat) : Mirrors Widened Eq (allocate size) (allocate size) := by
  intro h h' hw
  unfold allocate
  rw [hw.cursor]
  have hcapacity : h.bytes.size ≤ h'.bytes.size := hw.capacity
  by_cases hroom : h.cursor + size ≤ h.bytes.size
  · have hzeros : h.cursor + (List.replicate size (0 : UInt8)).length ≤ h.capacity := by
      rw [List.length_replicate]
      exact hroom
    have hover := hw.overwrite hzeros
    rw [if_pos hroom, if_pos (by omega), erase_eq_overwrite, erase_eq_overwrite]
    exact .ok rfl ⟨rfl, hover.capacity, hover.bytes⟩
  · rw [if_neg hroom]
    exact .limit rfl

theorem allocateArray_mirrors (length : Word) :
    Mirrors Widened Eq (allocateArray length) (allocateArray length) := by
  unfold allocateArray
  split
  · exact .throw _
  · exact (allocate_mirrors _).bind_same fun _ =>
      (write_mirrors _ _).bind_same fun _ => .pure rfl

theorem arraySet_mirrors (address index value : Word) :
    Mirrors Widened Eq (arraySet address index value) (arraySet address index value) :=
  .get_bind fun h h' hw =>
    Mirrors.bind_same (.ofExcept (hw.elementAddress address index))
      (fun element => write_mirrors element _) h h' hw

end Heap

/-! ## Builtins -/

namespace Builtin.Context

/-- Stack and heap correspond, and the output is the same. -/
structure Widened (c c' : Context) : Prop where
  stack : OperandStack.Widened c.stack c'.stack
  heap : Heap.Widened c.heap c'.heap
  output : c'.output = c.output

variable {α : Type} {Q : α → α → Prop}

theorem onStack_mirrors {x : Action OperandStack α} (hx : Mirrors OperandStack.Widened Q x x) :
    Mirrors Widened Q (onStack x) (onStack x) :=
  hx.within (fun _ _ hc => hc.stack) fun _ _ _ _ hc hs => ⟨hs, hc.heap, hc.output⟩

theorem onHeap_mirrors {x : Action Heap α} (hx : Mirrors Heap.Widened Q x x) :
    Mirrors Widened Q (onHeap x) (onHeap x) :=
  hx.within (fun _ _ hc => hc.heap) fun _ _ _ _ hc hh => ⟨hc.stack, hh, hc.output⟩

theorem pop_mirrors : Mirrors Widened Eq pop pop := onStack_mirrors OperandStack.pop_mirrors

theorem push_mirrors (w : Word) : Mirrors Widened Eq (push w) (push w) :=
  onStack_mirrors (OperandStack.push_mirrors w)

theorem query_mirrors {question : Heap → Except Fault α}
    (h : ∀ heap heap', Heap.Widened heap heap' → Echoes Q (question heap) (question heap')) :
    Mirrors Widened Q (query question) (query question) :=
  .get_bind fun c c' hc => Mirrors.ofExcept (h _ _ hc.heap) c c' hc

theorem print_mirrors (words : List Word) : Mirrors Widened Eq (print words) (print words) :=
  .modify fun _ _ hc => ⟨hc.stack, hc.heap, by rw [hc.output]⟩

end Builtin.Context

open Builtin.Context in
/-- **The standard builtins do the same under larger limits.** -/
theorem Registry.standard_mirrors (id : Word) :
    Mirrors Widened Eq (standard.call id) (standard.call id) := by
  have hall : ∀ entry ∈ standard.entries, Mirrors Widened Eq entry.2.action entry.2.action := by
    intro entry hentry
    simp only [standard, List.mem_cons, List.not_mem_nil, or_false] at hentry
    rcases hentry with rfl | rfl | rfl | rfl | rfl | rfl
    · exact pop_mirrors.bind_same fun length =>
        (onHeap_mirrors (Heap.allocateArray_mirrors length)).bind_same fun _ => push_mirrors _
    · exact pop_mirrors.bind_same fun index => pop_mirrors.bind_same fun address =>
        (query_mirrors fun _ _ hw => hw.arrayGet address index).bind_same fun _ => push_mirrors _
    · exact pop_mirrors.bind_same fun value => pop_mirrors.bind_same fun index =>
        pop_mirrors.bind_same fun address =>
          onHeap_mirrors (Heap.arraySet_mirrors address index value)
    · exact pop_mirrors.bind_same fun address =>
        (query_mirrors fun _ _ hw => hw.load32 address).bind_same fun _ => push_mirrors _
    · exact pop_mirrors.bind_same fun address =>
        (query_mirrors fun _ _ hw => hw.load32 address).bind_same fun _ => push_mirrors _
    · exact pop_mirrors.bind_same fun address =>
        (query_mirrors fun _ _ hw => hw.textAt address).bind_same fun _ => print_mirrors _
  unfold Registry.call
  cases hfind : standard.find? id with
  | none => exact .throw _
  | some builtin =>
      obtain ⟨l₁, l₂, hl, -⟩ := List.lookup_eq_some_iff.mp hfind
      exact hall (id, builtin) (by rw [hl]; simp)

end StackMachine
