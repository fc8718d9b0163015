import StackMachine.Proofs.Heap.Bytes

set_option autoImplicit false

/-! # Requests to a heap

A heap serves requests: allocations of three kinds, loads and stores at any address, access to
objects, resets. An allocation is refused for a reason that depends on the free room alone
(`Allocation.fault?`), and otherwise puts its content behind the cursor
(`Allocation.perform_eq`). No other request but a reset moves the cursor.
-/

namespace StackMachine.Heap

/-! ## Requests -/

/-- What can be allocated. -/
inductive Allocation where
  | block (size : Nat)
  | array (length : Word)
  | text (text : String)
  deriving DecidableEq, Repr

/-- What a heap can be asked for. -/
inductive Request where
  | allocation (a : Allocation)
  | load8 (address : Word)
  | load32 (address : Word)
  | store8 (address value : Word)
  | store32 (address value : Word)
  | objectLength (address : Word)
  | arrayGet (address index : Word)
  | arraySet (address index value : Word)
  | readText (address : Word)
  | reset
  deriving DecidableEq, Repr

/-- What a request gives. -/
inductive Answer where
  | position (n : Nat)
  | word (w : Word)
  | text (text : String)
  | done
  deriving DecidableEq, Repr

/-- The position an answer names. -/
def Answer.base : Answer → Int
  | position n => n
  | word w => w.toInt
  | _ => 0

/-- The answer of an action on a heap, and the heap it leaves. -/
def answered {α : Type} (answer : α → Answer) (x : Action Heap α) (h : Heap) :
    Except Fault Answer × Heap :=
  match x h with
  | .ok a h' => (.ok (answer a), h')
  | .error fault h' => (.error fault, h')

section

variable {α : Type} {answer : α → Answer} {x : Action Heap α} {h h' : Heap}

theorem answered_of_ok {a : α} (hx : x h = .ok a h') :
    answered answer x h = (.ok (answer a), h') := by
  rw [answered, hx]

theorem answered_of_error {fault : Fault} (hx : x h = .error fault h') :
    answered answer x h = (.error fault, h') := by
  rw [answered, hx]

theorem answered_eq_error_iff {fault : Fault} :
    answered answer x h = (.error fault, h') ↔ x h = .error fault h' := by
  unfold answered
  cases x h <;> simp

theorem snd_answered : (answered answer x h).2 = x.final h := by
  unfold answered Action.final
  cases x h <;> rfl

end

namespace Allocation

/-- The answer to an allocation and the heap after it. -/
def perform (h : Heap) : Allocation → Except Fault Answer × Heap
  | block size => answered .position (allocate size) h
  | array length => answered .word (allocateArray length) h
  | text t => answered .word (allocateText t) h

end Allocation

namespace Request

/-- The answer to a request and the heap after it. -/
def perform (h : Heap) : Request → Except Fault Answer × Heap
  | allocation a => a.perform h
  | load8 address => ((h.load8 address).map .word, h)
  | load32 address => ((h.load32 address).map .word, h)
  | store8 address value => answered (fun _ => .done) (Heap.store8 address value) h
  | store32 address value => answered (fun _ => .done) (Heap.store32 address value) h
  | objectLength address => ((h.objectLength address).map .word, h)
  | arrayGet address index => ((h.arrayGet address index).map .word, h)
  | arraySet address index value => answered (fun _ => .done) (Heap.arraySet address index value) h
  | readText address => ((h.readText address).map .text, h)
  | reset => (.ok .done, h.reset)

end Request

/-! ## Allocations -/

namespace Allocation

/-- The number of bytes of the block. -/
def size : Allocation → Nat
  | block size => size
  | array length => 4 * length.toInt.toNat + 4
  | text t => (textBytes t).length + 5

/-- What the block holds when it is handed out. -/
def content : Allocation → List UInt8
  | block size => List.replicate size 0
  | array length => arrayContent length length.toInt.toNat
  | text t => textContent t

@[simp] theorem length_content (a : Allocation) : a.content.length = a.size := by
  cases a with
  | block size => exact List.length_replicate
  | array length => exact length_arrayContent _ _
  | text t => exact length_textContent _

/-- The answer that names a block at the given position. -/
def answer (base : Nat) : Allocation → Answer
  | block _ => .position base
  | array _ | text _ => .word (Word.ofIndex base)

/-- Why no heap, however large, serves an allocation. -/
def invalid? : Allocation → Option Fault
  | block _ => none
  | array length => if length.toInt < 0 then some (.invalidAllocationSize length) else none
  | text t =>
    if Word.positions ≤ (textBytes t).length then some (.invalidAllocationSize Int32.maxValue)
    else none

/-- Why an allocation is refused when `room` bytes are free. -/
def fault? (room : Nat) (a : Allocation) : Option Fault :=
  a.invalid?.or (if a.size ≤ room then none else some (.heapOverflow a.size room))

theorem fault?_eq_none_iff {room : Nat} {a : Allocation} :
    a.fault? room = none ↔ a.invalid? = none ∧ a.size ≤ room := by
  rw [fault?, Option.or_eq_none_iff, ite_eq_left_iff]
  simp only [reduceCtorEq, imp_false, Decidable.not_not]

theorem index?_of_valid {length : Word} (hvalid : (array length).invalid? = none) :
    Word.index? length = some length.toInt.toNat := by
  rw [invalid?, ite_eq_right_iff] at hvalid
  have hsign : 0 ≤ length.toInt := Int.not_lt.mp fun hneg => nomatch hvalid hneg
  exact Word.index?_eq_some_iff.mpr (Int.toNat_of_nonneg hsign).symm

theorem length_of_valid {t : String} (hvalid : (text t).invalid? = none) :
    (textBytes t).length < Word.positions := by
  rw [invalid?, ite_eq_right_iff] at hvalid
  exact Nat.lt_of_not_le fun hlong => nomatch hvalid hlong

variable {h : Heap}

theorem base_answer (ha : h.Admissible) (a : Allocation) :
    (a.answer h.cursor).base = h.cursor := by
  have hvalue := Word.toInt_ofIndex (ha.lt_positions ha.cursor_le)
  cases a with
  | block size => rfl
  | array length => exact hvalue
  | text t => exact hvalue

theorem perform_of_invalid {a : Allocation} {fault : Fault} (hinvalid : a.invalid? = some fault) :
    a.perform h = (.error fault, h) := by
  cases a with
  | block size => cases hinvalid
  | array length =>
      rw [invalid?, Option.ite_none_right_eq_some] at hinvalid
      obtain ⟨hneg, hfault⟩ := hinvalid
      cases hfault
      exact answered_of_error (allocateArray_eq_invalid (Word.index?_eq_none_iff.mpr hneg))
  | text t =>
      rw [invalid?, Option.ite_none_right_eq_some] at hinvalid
      obtain ⟨hlong, hfault⟩ := hinvalid
      cases hfault
      exact answered_of_error (allocateText_eq_invalid hlong)

theorem perform_of_full (ha : h.Admissible) {a : Allocation} (hvalid : a.invalid? = none)
    (full : h.remaining < a.size) :
    a.perform h = (.error (.heapOverflow a.size h.remaining), h) := by
  cases a with
  | block size => exact answered_of_error (allocate_eq_error ha full)
  | array length =>
      exact answered_of_error (allocateArray_eq_error ha (index?_of_valid hvalid) full)
  | text t => exact answered_of_error (allocateText_eq_error ha (length_of_valid hvalid) full)

theorem perform_of_room (ha : h.Admissible) {a : Allocation} (hvalid : a.invalid? = none)
    (room : a.size ≤ h.remaining) :
    a.perform h = (.ok (a.answer h.cursor), h.place a.content) := by
  cases a with
  | block size => exact answered_of_ok (allocate_eq_ok ha room)
  | array length => exact answered_of_ok (allocateArray_eq_ok ha (index?_of_valid hvalid) room)
  | text t => exact answered_of_ok (allocateText_eq_ok ha room)

/-- **An allocation is refused and leaves the heap as it is, or its content is placed.** -/
theorem perform_eq (ha : h.Admissible) (a : Allocation) :
    a.perform h = match a.fault? h.remaining with
      | some fault => (.error fault, h)
      | none => (.ok (a.answer h.cursor), h.place a.content) := by
  unfold fault?
  cases hvalid : a.invalid? with
  | some fault => exact perform_of_invalid hvalid
  | none =>
      by_cases room : a.size ≤ h.remaining
      · rw [if_pos room]
        exact perform_of_room ha hvalid room
      · rw [if_neg room]
        exact perform_of_full ha hvalid (Nat.lt_of_not_le room)

/-- A refused allocation leaves the heap as it is. -/
theorem eq_of_refused (ha : h.Admissible) {a : Allocation} {fault : Fault} {h' : Heap}
    (hp : a.perform h = (.error fault, h')) : h' = h := by
  rw [perform_eq ha] at hp
  cases hf : a.fault? h.remaining with
  | some fault' => rw [hf] at hp; cases hp; rfl
  | none => rw [hf] at hp; cases hp

theorem refused_iff (ha : h.Admissible) {a : Allocation} :
    (∃ fault h', a.perform h = (.error fault, h')) ↔
      a.invalid? ≠ none ∨ h.remaining < a.size := by
  have hnone : a.fault? h.remaining = none ↔ a.invalid? = none ∧ a.size ≤ h.remaining :=
    fault?_eq_none_iff
  rw [perform_eq ha]
  cases hf : a.fault? h.remaining with
  | some fault =>
      have hrefused : ¬ (a.invalid? = none ∧ a.size ≤ h.remaining) := by
        rw [← hnone, hf]
        exact nofun
      refine iff_of_true ⟨fault, h, rfl⟩ ?_
      rwa [Decidable.not_and_iff_not_or_not, Nat.not_le] at hrefused
  | none =>
      obtain ⟨hvalid, room⟩ := hnone.mp hf
      refine iff_of_false (fun ⟨_, _, hp⟩ => nomatch hp) ?_
      rintro (hinvalid | full)
      · exact hinvalid hvalid
      · omega

end Allocation

/-- **An array is refused exactly when its length is negative or the room too little.** -/
theorem allocateArray_refused_iff {h : Heap} (ha : h.Admissible) (length : Word) :
    (∃ fault h', allocateArray length h = .error fault h') ↔
      length.toInt < 0 ∨ (h.remaining : Int) < 4 * length.toInt + 4 := by
  have hrefused := Allocation.refused_iff ha (a := .array length)
  simp only [Allocation.perform, answered_eq_error_iff] at hrefused
  rw [hrefused, Allocation.invalid?, Allocation.size, ne_eq, ite_eq_right_iff]
  simp only [reduceCtorEq, imp_false, Decidable.not_not]
  omega

/-- **A text is refused exactly when the room is too little.** -/
theorem allocateText_refused_iff {h : Heap} (ha : h.Admissible) (text : String) :
    (∃ fault h', allocateText text h = .error fault h') ↔
      h.remaining < (textBytes text).length + 5 := by
  have hrefused := Allocation.refused_iff ha (a := .text text)
  have hsum := ha.cursor_add_remaining
  have hroom := ha.lt_positions (Nat.le_refl _)
  simp only [Allocation.perform, answered_eq_error_iff] at hrefused
  rw [hrefused, Allocation.invalid?, Allocation.size, ne_eq, ite_eq_right_iff]
  simp only [reduceCtorEq, imp_false, Decidable.not_not]
  omega

/-! ## Other requests -/

variable {h : Heap}

theorem cursor_final_write (address : Word) (content : List UInt8) :
    ((write address content).final h).cursor = h.cursor := by
  unfold Action.final write
  cases h.locate address content.length <;> rfl

theorem cursor_final_arraySet (address index value : Word) :
    ((arraySet address index value).final h).cursor = h.cursor := by
  rw [Action.final, arraySet_eq]
  cases h.elementAddress address index with
  | ok element => exact cursor_final_write element value.bytes
  | error fault => rfl

namespace Request

/-- No request changes the capacity, or moves the cursor out of the heap. -/
theorem perform_bounded (r : Request) : Bounded h (r.perform h).2 := by
  cases r with
  | allocation a =>
      cases a with
      | block size => exact snd_answered ▸ (allocate_obeys size).final h
      | array length => exact snd_answered ▸ (allocateArray_obeys length).final h
      | text t => exact snd_answered ▸ (allocateText_obeys t).final h
  | store8 address value => exact snd_answered ▸ (write_obeys _ _).final h
  | store32 address value => exact snd_answered ▸ (write_obeys _ _).final h
  | arraySet address index value =>
      exact snd_answered ▸ (arraySet_obeys address index value).final h
  | reset => exact (Primitive.reset.obeys.final h : Bounded h h.reset)
  | load8 address | load32 address | objectLength address | arrayGet address index
  | readText address => exact refl_of Bounded h

/-- Only allocations and resets move the cursor. -/
theorem cursor_perform {r : Request} (halloc : ∀ a, r ≠ .allocation a) (hreset : r ≠ .reset) :
    (r.perform h).2.cursor = h.cursor := by
  cases r with
  | allocation a => exact absurd rfl (halloc a)
  | reset => exact absurd rfl hreset
  | store8 address value => exact snd_answered ▸ cursor_final_write address _
  | store32 address value => exact snd_answered ▸ cursor_final_write address _
  | arraySet address index value => exact snd_answered ▸ cursor_final_arraySet address index value
  | load8 address | load32 address | objectLength address | arrayGet address index
  | readText address => rfl

end Request

end StackMachine.Heap
