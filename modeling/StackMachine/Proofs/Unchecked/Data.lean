import StackMachine.Proofs.Heap.Bytes
import StackMachine.Proofs.Unchecked.Basic

set_option autoImplicit false

/-! # Unchecked operations on data

What heap and builtins rely on without checking it: the bytes of an access and of a new block are
inside the heap, the cursor is not behind its end, the position of a block is a word, and the length
of a new array can be stored. A heap is small enough for all this (`Heap.Admissible`), and the
standard builtins keep it so.
-/

namespace StackMachine.Unchecked

open StackMachine.Action

/-! ## The heap -/

section Heap

/-- Reach for `size` bytes from `start` on. -/
def reach (start size : Nat) : Unchecked Heap Unit :=
  look fun h => require (start + size < sizeBound ∧ start + size ≤ h.capacity)

/-- Reach for `size` bytes at an address if they have been found to be there. -/
def access (address : Word) (size : Nat) : Unchecked Heap Unit :=
  look fun h =>
    match h.locate address size with
    | .ok start => reach start size
    | .error _ => pure ()

/-- Hand out bytes. The number of those that are left is computed in any case. -/
def allocate (size : Nat) : Unchecked Heap Nat := do
  look fun h => require (h.cursor ≤ h.capacity)
  let base ← of (Heap.allocate size)
  reach base size
  return base

/-- Name a position by a word. -/
def name {σ : Type} (n : Nat) : Unchecked σ Unit := require ((Word.ofIndex n).toInt = n)

/-- Allocate an array of zeros. Storing its length must not fail. -/
def allocateArray (length : Word) : Unchecked Heap Word :=
  match Word.index? length with
  | none => of (throw (.invalidAllocationSize length))
  | some count => do
    require (4 * count + 4 < sizeBound)
    let base ← allocate (4 * count + 4)
    name base
    unfailing do
      access (Word.ofIndex base) 4
      of (Heap.store32 (Word.ofIndex base) length)
    return Word.ofIndex base

/-- Reach for the length of an array and for an element, whose position is computed as a signed
64-bit number. -/
def element (address index : Word) : Unchecked Heap Unit := do
  access address 4
  require (-(sizeBound / 2 : Int) ≤ address.toInt + 4 + 4 * index.toInt ∧
    address.toInt + 4 + 4 * index.toInt < (sizeBound / 2 : Int))
  look fun h =>
    match h.elementAddress address index with
    | .ok position => access position 4
    | .error _ => pure ()

/-- Reach for the length of a text and for its bytes. -/
def text (address : Word) : Unchecked Heap Unit := do
  access address 4
  look fun h =>
    match h.objectLength address with
    | .error _ => pure ()
    | .ok length =>
      match Word.index? length, Word.ofInt? (address.toInt + 4) with
      | some size, some content => access content size
      | _, _ => pure ()

variable {P : Heap → Prop}

theorem harmless_reach {start size : Nat}
    (hP : ∀ h, P h → h.Admissible ∧ start + size ≤ h.capacity) :
    Harmless P (reach start size) := by
  refine Meets.look fun h hh => harmless_require ?_
  obtain ⟨hadmissible, hroom⟩ := hP h hh
  have hsmall := hadmissible.lt_positions hroom
  unfold Word.positions at hsmall
  unfold sizeBound
  exact ⟨by omega, hroom⟩

theorem harmless_access (address : Word) (size : Nat) :
    Harmless Heap.Admissible (access address size) := by
  refine Meets.look fun h hadmissible => ?_
  cases hlocate : h.locate address size with
  | error fault => exact Meets.pure ()
  | ok start =>
      refine harmless_reach fun h' hh' => ?_
      subst hh'
      exact ⟨hadmissible, (Heap.locate_inside hlocate)⟩

/-- A heap in which the `size` bytes from `base` on are a block. -/
def HasBlock (size base : Nat) (h : Heap) : Prop := h.Admissible ∧ base + size ≤ h.capacity

theorem hasBlock_of_allocate {size base : Nat} {h h' : Heap} (ha : h.Admissible)
    (hok : Heap.allocate size h = .ok base h') : HasBlock size base h' := by
  obtain ⟨hbounded, -⟩ := (Heap.allocate_obeys size).ok hok
  refine ⟨ha.of_bounded hbounded, ?_⟩
  unfold Heap.allocate at hok
  split at hok
  · next hroom =>
      cases hok
      rw [hbounded.capacity]
      exact hroom
  · cases hok

/-- **Allocating does not go wrong.** The block lies inside the heap. -/
theorem meets_allocate (size : Nat) :
    Meets Heap.Admissible (allocate size) (Heap.allocate size) := by
  refine .after (Meets.look fun h ha => harmless_require ?_) ?_
  · exact ha.cursor_le
  · exact (Meets.of _).bind_harmless hasBlock_of_allocate fun base => harmless_reach fun _ hh => hh

/-- The position of a block is a word. -/
theorem HasBlock.lt_positions {size base : Nat} {h : Heap} (hblock : HasBlock size base h) :
    base < Word.positions :=
  hblock.1.lt_positions (by have := hblock.2; omega)

theorem harmless_name {σ : Type} {P : σ → Prop} {n : Nat} (hn : ∀ s, P s → n < Word.positions) :
    Harmless P (name n) :=
  fun s hs => if_pos (Word.toInt_ofIndex (hn s hs))

/-- A block of four bytes has room for a word. -/
theorem store32_of_hasBlock {size base : Nat} {h : Heap} (hblock : HasBlock size base h)
    (hsize : 4 ≤ size) (w : Word) :
    ∃ h', Heap.store32 (Word.ofIndex base) w h = .ok () h' := by
  have hroom : base + size ≤ h.capacity := hblock.2
  have hwrite : base + w.bytes.length ≤ h.capacity := by
    rw [Word.length_bytes]
    omega
  exact ⟨_, Heap.write_eq_ok (Word.index?_ofIndex hblock.lt_positions) hwrite⟩

/-- **Allocating an array does not go wrong**: the block has room for the length, and its position
is a word. -/
theorem meets_allocateArray (length : Word) :
    Meets Heap.Admissible (allocateArray length) (Heap.allocateArray length) := by
  unfold allocateArray Heap.allocateArray
  cases hlength : Word.index? length with
  | none => exact Meets.of _
  | some count =>
      have hsize : 4 * count + 4 < sizeBound := by
        have hvalue := Word.index?_eq_some_iff.mp hlength
        have hlt := length.toInt_lt
        unfold sizeBound
        omega
      refine .after (harmless_require hsize) ?_
      refine (meets_allocate _).bind hasBlock_of_allocate fun base => ?_
      refine .after (harmless_name fun _ hblock => hblock.lt_positions) ?_
      -- the block is still there when the length is stored
      refine Meets.bind (R := fun _ _ => True) (Meets.unfailing ?_ ?_) (fun _ _ => trivial) ?_
      · refine .after ((harmless_access _ 4).mono fun _ hh => hh.1) (Meets.of _)
      · intro h hblock
        obtain ⟨h', hstore⟩ := store32_of_hasBlock hblock (by omega) length
        exact ⟨(), h', hstore⟩
      · exact fun _ => Meets.pure _

/-- **Reaching for an element does not go wrong.** -/
theorem harmless_element (address index : Word) :
    Harmless Heap.Admissible (element address index) := by
  have hposition : -(sizeBound / 2 : Int) ≤ address.toInt + 4 + 4 * index.toInt ∧
      address.toInt + 4 + 4 * index.toInt < (sizeBound / 2 : Int) := by
    have := address.le_toInt
    have := address.toInt_lt
    have := index.le_toInt
    have := index.toInt_lt
    unfold sizeBound
    omega
  refine .after (harmless_access address 4) (.after (harmless_require hposition) ?_)
  refine Meets.look fun h ha => ?_
  cases h.elementAddress address index with
  | error fault => exact Meets.pure ()
  | ok position => exact (harmless_access position 4).mono fun _ hh => hh ▸ ha

/-- **Reaching for a text does not go wrong.** -/
theorem harmless_text (address : Word) : Harmless Heap.Admissible (text address) := by
  refine .after (harmless_access address 4) (Meets.look fun h ha => ?_)
  cases h.objectLength address with
  | error fault => exact Meets.pure ()
  | ok length =>
      dsimp only
      split
      · exact (harmless_access _ _).mono fun _ hh => hh ▸ ha
      · exact Meets.pure ()

end Heap

/-! ## Builtins -/

section Builtins

open Builtin Builtin.Context

/-- Run a computation on the heap of a context. -/
def onHeap {α : Type} (x : Unchecked Heap α) : Unchecked Context α :=
  x.within Context.heap fun c heap => { c with heap }

def arrayNew : Unchecked Context Unit := do
  let length ← of pop
  let address ← onHeap (allocateArray length)
  of (push address)

def arrayGet : Unchecked Context Unit := do
  let index ← of pop
  let address ← of pop
  onHeap (element address index)
  of (do push (← query (·.arrayGet address index)))

def arraySet : Unchecked Context Unit := do
  let value ← of pop
  let index ← of pop
  let address ← of pop
  onHeap (element address index)
  of (Context.onHeap (Heap.arraySet address index value))

/-- The length of an array or a text. -/
def objectLength : Unchecked Context Unit := do
  let address ← of pop
  onHeap (access address 4)
  of (do push (← query (·.objectLength address)))

def printText : Unchecked Context Unit := do
  let address ← of pop
  onHeap (text address)
  of do
    let bytes ← query (·.textAt address)
    print (bytes.map fun b => Word.ofIndex b.toNat)

/-- The standard builtins by number. -/
def standard : List (Word × Unchecked Context Unit) :=
  [(0, arrayNew), (1, arrayGet), (2, arraySet), (3, objectLength), (4, objectLength),
    (5, printText)]

/-- Run the standard builtin with a number. -/
def callBuiltin (id : Word) : Unchecked Context Unit :=
  match standard.lookup id with
  | some builtin => builtin
  | none => of (throw (.unknownBuiltin id))

/-- The heap of a context is small enough. -/
def Contained (c : Context) : Prop := c.heap.Admissible

theorem Contained.of_bounded {c c' : Context} (hc : Contained c) (hb : Context.Bounded c c') :
    Contained c' :=
  Heap.Admissible.of_bounded hc hb.heap

theorem harmless_onHeap {x : Unchecked Heap Unit} (hx : Harmless Heap.Admissible x) :
    Harmless Contained (onHeap x) :=
  hx.within (fun _ hc => hc) fun _ => rfl

/-- Taking a word from the operand stack leaves the heap small enough. -/
theorem meets_pop {α : Type} {f : Word → Unchecked Context α} {g : Word → Action Context α}
    (hf : ∀ w, Meets Contained (f w) (g w)) :
    Meets Contained (of pop >>= f) (pop >>= g) :=
  (Meets.of pop).bind_keeps (onStack_obeys OperandStack.pop_obeys) Contained.of_bounded hf

theorem meets_arrayNew : Meets Contained arrayNew Builtin.arrayNew.action := by
  refine meets_pop fun length => ?_
  refine (Meets.within (meets_allocateArray length) fun _ hc => hc).bind_keeps
    (onHeap_obeys (Heap.allocateArray_obeys length)) Contained.of_bounded fun address => ?_
  exact Meets.of _

theorem meets_arrayGet : Meets Contained arrayGet Builtin.arrayGet.action := by
  refine meets_pop fun index => meets_pop fun address => ?_
  exact .after (harmless_onHeap (harmless_element address index)) (Meets.of _)

theorem meets_arraySet : Meets Contained arraySet Builtin.arraySet.action := by
  refine meets_pop fun value => meets_pop fun index => meets_pop fun address => ?_
  exact .after (harmless_onHeap (harmless_element address index)) (Meets.of _)

theorem meets_objectLength : Meets Contained objectLength Builtin.arrayLength.action := by
  refine meets_pop fun address => ?_
  exact .after (harmless_onHeap (harmless_access address 4)) (Meets.of _)

theorem meets_printText : Meets Contained printText Builtin.printText.action := by
  refine meets_pop fun address => ?_
  exact .after (harmless_onHeap (harmless_text address)) (Meets.of _)

/-- **Calling a standard builtin does not go wrong.** -/
theorem meets_callBuiltin (id : Word) :
    Meets Contained (callBuiltin id) (Registry.standard.call id) := by
  -- both registries have the same numbers
  have hlookup : (standard.lookup id = none ∧ Registry.standard.find? id = none) ∨
      ∃ x builtin, standard.lookup id = some x ∧ Registry.standard.find? id = some builtin ∧
        Meets Contained x builtin.action := by
    unfold standard Registry.find? Registry.standard
    simp only [List.lookup_cons, List.lookup_nil]
    repeat' split
    · exact Or.inr ⟨_, _, rfl, rfl, meets_arrayNew⟩
    · exact Or.inr ⟨_, _, rfl, rfl, meets_arrayGet⟩
    · exact Or.inr ⟨_, _, rfl, rfl, meets_arraySet⟩
    · exact Or.inr ⟨_, _, rfl, rfl, meets_objectLength⟩
    · exact Or.inr ⟨_, _, rfl, rfl, meets_objectLength⟩
    · exact Or.inr ⟨_, _, rfl, rfl, meets_printText⟩
    · exact Or.inl ⟨rfl, rfl⟩
  unfold callBuiltin Registry.call
  rcases hlookup with ⟨hnone, hfind⟩ | ⟨x, builtin, hsome, hfind, hmeets⟩
  · rw [hnone, hfind]
    exact Meets.of _
  · rw [hsome, hfind]
    exact hmeets

end Builtins

end StackMachine.Unchecked
