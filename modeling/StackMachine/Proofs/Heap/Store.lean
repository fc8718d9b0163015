import Mathlib.Logic.Function.Basic
import StackMachine.Proofs.Heap.Objects
import StackMachine.Proofs.Heap.Requests

set_option autoImplicit false

/-! # Stores of objects

A `Store` is what a heap is for its users: objects at addresses, without bytes. Allocating adds an
object of its own, changing an element replaces one value in one object. `Represents h s` says
that the bytes of the heap are those of the objects of the store, each beside the others; new
objects and changed elements keep it.
-/

namespace StackMachine.Heap

/-! ## Stores -/

/-- The object that an allocation makes. -/
def Allocation.object? : Allocation → Option Object
  | block _ => none
  | array length => some (.array (List.replicate length.toInt.toNat 0))
  | text t => some (.text t)

/-- Objects at addresses, in a number of bytes of which some are used. -/
structure Store where
  capacity : Nat
  used : Nat := 0
  objects : Word → Option Object := fun _ => none

namespace Store

/-- A store without objects. -/
def empty (capacity : Nat) : Store where
  capacity := capacity

/-- Let the object at an address be `o`. -/
def put (s : Store) (address : Word) (o : Object) : Store :=
  { s with objects := Function.update s.objects address (some o) }

@[simp] theorem objects_put (s : Store) (address : Word) (o : Object) :
    (s.put address o).objects address = some o :=
  Function.update_self ..

theorem objects_put_of_ne {s : Store} {address address' : Word} (o : Object)
    (hne : address' ≠ address) : (s.put address o).objects address' = s.objects address' :=
  Function.update_of_ne hne ..

/-- The answer to an allocation and the store after it. -/
def allocate (s : Store) (a : Allocation) : Except Fault Answer × Store :=
  match a.fault? (s.capacity - s.used) with
  | some fault => (.error fault, s)
  | none =>
    let grown := { s with used := s.used + a.size }
    (.ok (a.answer s.used), a.object?.elim grown (grown.put (Word.ofIndex s.used)))

/-- The answer to a request and the store after it. There is none to a request for an object that
is not there, or for bytes. -/
def serve (s : Store) : Request → Option (Except Fault Answer × Store)
  | .allocation a => some (s.allocate a)
  | .objectLength address => (s.objects address).map fun o => (.ok (.word o.length), s)
  | .arrayGet address index =>
    match s.objects address with
    | some (.array elements) =>
      some ((Object.position elements index).map fun i => .word (elements.getD i 0), s)
    | _ => none
  | .arraySet address index value =>
    match s.objects address with
    | some (.array elements) =>
      match Object.position elements index with
      | .ok i => some (.ok .done, s.put address (.array (elements.set i value)))
      | .error fault => some (.error fault, s)
    | _ => none
  | .readText address =>
    match s.objects address with
    | some (.text t) => some (.ok (.text (Object.reading t)), s)
    | _ => none
  | .reset => some (.ok .done, empty s.capacity)
  | .load8 _ | .load32 _ | .store8 _ _ | .store32 _ _ => none

/-- The answers to requests, one after another, if there is one to each. -/
def answers (s : Store) : List Request → Option (List (Except Fault Answer))
  | [] => some []
  | r :: requests => do
    let (answer, s') ← s.serve r
    return answer :: (← s'.answers requests)

end Store

/-! ## Heaps and stores -/

/-- The objects of the store lie in the heap, each at its address and beside the others. -/
structure Represents (h : Heap) (s : Store) : Prop where
  admissible : h.Admissible
  capacity : s.capacity = h.capacity
  used : s.used = h.cursor
  lies : ∀ {address o}, s.objects address = some o →
    ∃ n, Word.index? address = some n ∧ o.At h n
  apart : ∀ {address address' o o' n n'}, address ≠ address' →
    s.objects address = some o → s.objects address' = some o' →
    Word.index? address = some n → Word.index? address' = some n' →
    n + o.bytes.length ≤ n' ∨ n' + o'.bytes.length ≤ n

namespace Represents

variable {h : Heap} {s : Store}

theorem empty {capacity : Nat} (hcap : capacity ≤ Config.maxHeapSize) :
    Represents (zeroed capacity) (Store.empty capacity) where
  admissible := .zeroed hcap
  capacity := Array.size_replicate.symm
  used := rfl
  lies := nofun
  apart := nofun

theorem remaining_eq (hr : Represents h s) : s.capacity - s.used = h.remaining := by
  rw [hr.capacity, hr.used, remaining]

/-- No object lies behind the cursor. -/
theorem fresh (hr : Represents h s) : s.objects (Word.ofIndex s.used) = none := by
  cases ho : s.objects (Word.ofIndex s.used) with
  | none => rfl
  | some o =>
      obtain ⟨n, hn, hat⟩ := hr.lies ho
      rw [hr.used, Word.index?_ofIndex (hr.admissible.lt_positions hr.admissible.cursor_le)] at hn
      cases hn
      have hroom := hat.room
      have hsize := o.four_le_length_bytes
      omega

/-- A block without an object changes no object. -/
theorem grow (hr : Represents h s) {content : List UInt8} (room : content.length ≤ h.remaining) :
    Represents (h.place content) { s with used := s.used + content.length } where
  admissible := place_admissible hr.admissible room
  capacity := by rw [capacity_place]; exact hr.capacity
  used := by rw [cursor_place]; exact congrArg (· + content.length) hr.used
  lies ho := by
    obtain ⟨n, hn, hat⟩ := hr.lies ho
    exact ⟨n, hn, hat.place content⟩
  apart := hr.apart

/-- An object can be put beside the others, when they stay as they are. -/
theorem put {h' : Heap} {address : Word} {n used : Nat} {o : Object} (hr : Represents h s)
    (ha : h'.Admissible) (hcapacity : h'.capacity = h.capacity) (hused : used = h'.cursor)
    (hn : Word.index? address = some n) (hat : o.At h' n)
    (others : ∀ {address' o' n'}, address' ≠ address → s.objects address' = some o' →
      Word.index? address' = some n' → o'.At h n' →
        o'.At h' n' ∧ (n + o.bytes.length ≤ n' ∨ n' + o'.bytes.length ≤ n)) :
    Represents h' ({ s with used := used }.put address o) where
  admissible := ha
  capacity := hr.capacity.trans hcapacity.symm
  used := hused
  lies {address' o'} ho' := by
    by_cases heq : address' = address
    · subst heq
      rw [Store.objects_put] at ho'
      cases ho'
      exact ⟨n, hn, hat⟩
    · rw [Store.objects_put_of_ne o heq] at ho'
      obtain ⟨n', hn', hat'⟩ := hr.lies ho'
      exact ⟨n', hn', (others heq ho' hn' hat').1⟩
  apart {address₁ address₂ o₁ o₂ n₁ n₂} hne h₁ h₂ hn₁ hn₂ := by
    -- one of the two objects may be the new one
    by_cases heq₁ : address₁ = address
    · subst heq₁
      rw [Store.objects_put] at h₁
      rw [Store.objects_put_of_ne o hne.symm] at h₂
      cases h₁
      cases hn.symm.trans hn₁
      obtain ⟨n', hn', hat'⟩ := hr.lies h₂
      cases hn'.symm.trans hn₂
      exact (others hne.symm h₂ hn₂ hat').2
    · rw [Store.objects_put_of_ne o heq₁] at h₁
      by_cases heq₂ : address₂ = address
      · subst heq₂
        rw [Store.objects_put] at h₂
        cases h₂
        cases hn.symm.trans hn₂
        obtain ⟨n', hn', hat'⟩ := hr.lies h₁
        cases hn'.symm.trans hn₁
        exact (others heq₁ h₁ hn₁ hat').2.symm
      · rw [Store.objects_put_of_ne o heq₂] at h₂
        exact hr.apart hne h₁ h₂ hn₁ hn₂

/-- A new object lies behind the others. -/
theorem create (hr : Represents h s) {o : Object} (room : o.bytes.length ≤ h.remaining) :
    Represents (h.place o.bytes)
      ({ s with used := s.used + o.bytes.length }.put (Word.ofIndex s.used) o) := by
  have ha := hr.admissible
  rw [hr.used]
  refine hr.put (place_admissible ha room) (capacity_place _ _) rfl
    (Word.index?_ofIndex (ha.lt_positions ha.cursor_le)) (.placed ha room) ?_
  intro address' o' n' _ _ _ hat'
  exact ⟨hat'.place o.bytes, Or.inr hat'.room⟩

/-- Changing an element changes one object. -/
theorem setElement (hr : Represents h s) {address value : Word} {elements : List Word} {n i : Nat}
    (ho : s.objects address = some (.array elements)) (hn : Word.index? address = some n)
    (hi : i < elements.length) :
    Represents (h.patch (n + 4 + 4 * i) value.bytes)
      (s.put address (.array (elements.set i value))) := by
  obtain ⟨n', hn', hat⟩ := hr.lies ho
  cases hn.symm.trans hn'
  have hlength : (Object.array (elements.set i value)).bytes.length =
      (Object.array elements).bytes.length := by
    rw [Object.length_bytes_array, Object.length_bytes_array, List.length_set]
  have ha : (h.patch (n + 4 + 4 * i) value.bytes).Admissible :=
    hr.admissible.of_bounded (overwrite_bounded h _ _)
  have hused : s.used = (h.patch (n + 4 + 4 * i) value.bytes).cursor := by
    rw [cursor_patch, hr.used]
  refine hr.put ha (capacity_patch _ _ _) hused hn (hat.set hr.admissible hi value) ?_
  intro address' o' n' hne ho' hn' hat'
  have hapart := hr.apart hne ho' ho hn' hn
  rw [hlength, Object.length_bytes_array]
  rw [Object.length_bytes_array] at hapart
  refine ⟨hat'.beside ?_, by omega⟩
  rw [Word.length_bytes]
  omega

end Represents

end StackMachine.Heap
