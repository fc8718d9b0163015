import Mathlib.Algebra.GroupWithZero.Nat
import StackMachine.Config.Basic
import StackMachine.Proofs.Bounds
import StackMachine.Proofs.Encoding

set_option autoImplicit false

/-! # The bytes of a heap

`Heap.Holds bytes start content` says that `content` stands in the bytes from `start` on.
Overwriting puts it there and leaves every range beside it as it was, and what loads and slices
give follows from it. Every allocation either puts its content behind the cursor (`Heap.place`)
or leaves the heap as it is.
-/

namespace StackMachine

namespace Word

variable {w : Word} {n : Nat}

theorem ofIndex_of_index? (h : index? w = some n) : ofIndex n = w := by
  rw [ofIndex, ← index?_eq_some_iff.mp h, Int32.ofInt_toInt]

theorem toInt_ofIndex (h : n < positions) : (ofIndex n).toInt = n :=
  index?_eq_some_iff.mp (index?_ofIndex h)

theorem ofInt?_natCast (h : n < positions) : ofInt? (n : Int) = some (ofIndex n) := by
  rw [ofInt?, if_pos (by omega), ofIndex]

/-! ## The bytes of a word -/

@[simp] theorem length_bytes (w : Word) : (bytes w).length = 4 := rfl

theorem toNat_byte (w : Word) (k : Nat) :
    (byte w k).toNat = w.toUInt32.toNat / 256 ^ k % 256 := by
  rw [byte, UInt8.toNat_ofNat', Nat.pow_eq]

theorem ofIndex_toUInt32 (w : Word) : ofIndex w.toUInt32.toNat = w := by
  rw [← Int32.toInt_inj, ofIndex, Int32.toInt_ofInt]
  exact (BitVec.toInt_eq_toNat_bmod w.toBitVec).symm

/-- A word is read back from its bytes. -/
theorem ofBytes_byte (w : Word) : ofBytes (byte w 0) (byte w 1) (byte w 2) (byte w 3) = w := by
  have hlt : w.toUInt32.toNat < 4294967296 := w.toUInt32.toNat_lt
  rw [ofBytes, toNat_byte, toNat_byte, toNat_byte, toNat_byte]
  conv => rhs; rw [← ofIndex_toUInt32 w]
  congr 1
  omega

end Word

namespace Heap

/-! ## Overwriting -/

variable {bytes : Array UInt8} {start : Nat} {content : List UInt8}

/-- Overwriting keeps the bytes beside the range. -/
theorem getElem?_overwrite_beside {i : Nat} (h : i < start ∨ start + content.length ≤ i) :
    (overwrite bytes start content)[i]? = bytes[i]? := by
  induction content generalizing bytes start with
  | nil => rfl
  | cons b bs ih =>
      rw [List.length_cons] at h
      rw [overwrite, ih (by omega), Array.getElem?_setIfInBounds_ne (by omega)]

/-- Overwriting puts the new bytes into the range. -/
theorem getElem?_overwrite {k : Nat} (hk : k < content.length)
    (room : start + content.length ≤ bytes.size) :
    (overwrite bytes start content)[start + k]? = content[k]? := by
  induction content generalizing bytes start k with
  | nil => cases hk
  | cons b bs ih =>
      rw [List.length_cons] at hk room
      rw [overwrite]
      cases k with
      | zero =>
          -- the bytes behind the first one are written later, but elsewhere
          rw [getElem?_overwrite_beside (by omega), Nat.add_zero,
            Array.getElem?_setIfInBounds_self_of_lt (by omega), List.getElem?_cons_zero]
      | succ k =>
          rw [show start + (k + 1) = start + 1 + k by omega,
            ih (by omega) (by rw [Array.size_setIfInBounds]; omega), List.getElem?_cons_succ]

/-- Erasing is overwriting with zeros. -/
theorem erase_eq_overwrite (bytes : Array UInt8) (start count : Nat) :
    erase bytes start count = overwrite bytes start (List.replicate count 0) := by
  induction count generalizing bytes start with
  | zero => rfl
  | succ count ih => rw [erase, ih, List.replicate_succ, overwrite]

/-! ## What stands where -/

/-- The bytes from `start` on are `content`. -/
def Holds (bytes : Array UInt8) (start : Nat) (content : List UInt8) : Prop :=
  ∀ k < content.length, bytes[start + k]? = content[k]?

theorem holds_overwrite (room : start + content.length ≤ bytes.size) :
    Holds (overwrite bytes start content) start content :=
  fun _ hk => getElem?_overwrite hk room

theorem holds_append {first second : List UInt8} :
    Holds bytes start (first ++ second) ↔
      Holds bytes start first ∧ Holds bytes (start + first.length) second := by
  constructor
  · intro h
    refine ⟨fun k hk => ?_, fun k hk => ?_⟩
    · rw [h k (by rw [List.length_append]; omega), List.getElem?_append_left hk]
    · rw [Nat.add_assoc, h (first.length + k) (by rw [List.length_append]; omega),
        List.getElem?_append_right (by omega), Nat.add_sub_cancel_left]
  · rintro ⟨h₁, h₂⟩ k hk
    rw [List.length_append] at hk
    by_cases hfirst : k < first.length
    · rw [h₁ k hfirst, List.getElem?_append_left hfirst]
    · rw [List.getElem?_append_right (by omega), ← h₂ (k - first.length) (by omega)]
      congr 1
      omega

namespace Holds

/-- Overwriting a range leaves what stands beside it. -/
theorem beside {from' : Nat} {old : List UInt8} (h : Holds bytes from' old)
    (apart : from' + old.length ≤ start ∨ start + content.length ≤ from') :
    Holds (overwrite bytes start content) from' old := by
  intro k hk
  rw [getElem?_overwrite_beside (by omega), h k hk]

theorem byteAt {h : Heap} (hold : Holds h.bytes start content) {k : Nat} {b : UInt8}
    (hb : content[k]? = some b) : h.byteAt (start + k) = b := by
  have hk : k < content.length := (List.getElem?_eq_some_iff.mp hb).1
  rw [Heap.byteAt, Array.getD_eq_getD_getElem?, hold k hk, hb, Option.getD_some]

end Holds

/-- Bytes that agree beside a range and hold `content` there come from overwriting it. -/
theorem eq_overwrite {bytes' : Array UInt8} (room : start + content.length ≤ bytes.size)
    (hold : Holds bytes' start content)
    (beside : ∀ i, i < start ∨ start + content.length ≤ i → bytes'[i]? = bytes[i]?) :
    bytes' = overwrite bytes start content := by
  refine Array.ext_getElem? fun i => ?_
  by_cases hi : i < start ∨ start + content.length ≤ i
  · rw [beside i hi, getElem?_overwrite_beside hi]
  · obtain ⟨k, rfl⟩ := Nat.exists_eq_add_of_le (by omega : start ≤ i)
    have hk : k < content.length := by omega
    rw [hold k hk, getElem?_overwrite hk room]

/-! ## Loads, slices and writes -/

/-- The heap is not larger than machines can have it, and its cursor lies inside. -/
structure Admissible (h : Heap) : Prop where
  cursor_le : h.cursor ≤ h.capacity
  capacity_le : h.capacity ≤ Config.maxHeapSize

variable {h : Heap}

namespace Admissible

theorem zeroed {capacity : Nat} (hcap : capacity ≤ Config.maxHeapSize) :
    (Heap.zeroed capacity).Admissible where
  cursor_le := Nat.zero_le _
  capacity_le := by rwa [Heap.capacity, Heap.zeroed, Array.size_replicate]

theorem of_bounded {h' : Heap} (ha : h.Admissible) (hb : Bounded h h') : h'.Admissible where
  cursor_le := hb.cursor ha.cursor_le
  capacity_le := by rw [hb.capacity]; exact ha.capacity_le

/-- Words can name every position of the heap. -/
theorem lt_positions (ha : h.Admissible) {n : Nat} (hn : n ≤ h.capacity) :
    n < Word.positions := by
  have hcap : h.capacity ≤ 16777216 := ha.capacity_le
  unfold Word.positions
  omega

theorem cursor_add_remaining (ha : h.Admissible) : h.cursor + h.remaining = h.capacity := by
  have := ha.cursor_le
  rw [remaining]
  omega

end Admissible

variable {n : Nat} {address : Word}

theorem locate_eq_ok {size : Nat} (ha : Word.index? address = some n)
    (room : n + size ≤ h.capacity) : h.locate address size = .ok n := by
  rw [locate, ha]
  exact if_pos room

/-- An access that has been located lies inside the heap. -/
theorem locate_inside {size : Nat} (hlocate : h.locate address size = .ok n) :
    n + size ≤ h.capacity := by
  unfold locate at hlocate
  split at hlocate
  · split at hlocate
    · next hroom =>
        cases hlocate
        exact hroom
    · cases hlocate
  · cases hlocate

/-- Replace the bytes from a position on. -/
def patch (h : Heap) (start : Nat) (content : List UInt8) : Heap :=
  { h with bytes := overwrite h.bytes start content }

@[simp] theorem bytes_patch (h : Heap) (start : Nat) (content : List UInt8) :
    (h.patch start content).bytes = overwrite h.bytes start content := rfl

@[simp] theorem cursor_patch (h : Heap) (start : Nat) (content : List UInt8) :
    (h.patch start content).cursor = h.cursor := rfl

@[simp] theorem capacity_patch (h : Heap) (start : Nat) (content : List UInt8) :
    (h.patch start content).capacity = h.capacity := size_overwrite _ _ _

theorem write_eq_ok (ha : Word.index? address = some n) (room : n + content.length ≤ h.capacity) :
    write address content h = .ok () (h.patch n content) := by
  rw [write, locate_eq_ok ha room, patch]

/-- A word is loaded from where its bytes stand. -/
theorem load32_of_holds {w : Word} (ha : Word.index? address = some n)
    (room : n + 4 ≤ h.capacity) (hold : Holds h.bytes n (Word.bytes w)) :
    h.load32 address = .ok w := by
  have hbyte : h.byteAt n = w.byte 0 := hold.byteAt (k := 0) rfl
  rw [load32, locate_eq_ok ha room]
  show Except.ok _ = Except.ok w
  rw [hbyte, hold.byteAt (k := 1) rfl, hold.byteAt (k := 2) rfl, hold.byteAt (k := 3) rfl,
    Word.ofBytes_byte]

/-- A slice is what stands there. -/
theorem slice_of_holds (ha : Word.index? address = some n)
    (room : n + content.length ≤ h.capacity) (hold : Holds h.bytes n content) :
    h.slice address content.length = .ok content := by
  rw [slice, locate_eq_ok ha room]
  show Except.ok _ = Except.ok content
  congr 1
  refine List.ext_getElem? fun k => ?_
  have hsize : n + content.length ≤ h.bytes.size := room
  rw [Array.getElem?_toList, Array.getElem?_extract]
  by_cases hk : k < content.length
  · rw [if_pos (by omega), hold k hk]
  · rw [if_neg (by omega), List.getElem?_eq_none (by omega)]

/-- Changing an element is storing at its address, if it has one. -/
theorem arraySet_eq (address index value : Word) :
    arraySet address index value h =
      match h.elementAddress address index with
      | .ok element => store32 element value h
      | .error fault => .error fault h := by
  show (Action.ofExcept (h.elementAddress address index) >>= fun element =>
    store32 element value) h = _
  cases h.elementAddress address index <;> rfl

/-! ## Allocations -/

/-- Put `content` behind the cursor, and the cursor behind it. -/
def place (h : Heap) (content : List UInt8) : Heap where
  bytes := overwrite h.bytes h.cursor content
  cursor := h.cursor + content.length

@[simp] theorem bytes_place (h : Heap) (content : List UInt8) :
    (h.place content).bytes = overwrite h.bytes h.cursor content := rfl

@[simp] theorem cursor_place (h : Heap) (content : List UInt8) :
    (h.place content).cursor = h.cursor + content.length := rfl

@[simp] theorem capacity_place (h : Heap) (content : List UInt8) :
    (h.place content).capacity = h.capacity := size_overwrite _ _ _

theorem place_admissible (ha : h.Admissible) (room : content.length ≤ h.remaining) :
    (h.place content).Admissible where
  cursor_le := by
    have := ha.cursor_add_remaining
    rw [capacity_place]
    show h.cursor + content.length ≤ h.capacity
    omega
  capacity_le := by rw [capacity_place]; exact ha.capacity_le

theorem allocate_eq_ok (ha : h.Admissible) {size : Nat} (room : size ≤ h.remaining) :
    allocate size h = .ok h.cursor (h.place (List.replicate size 0)) := by
  have hsum := ha.cursor_add_remaining
  have hroom : h.cursor + size ≤ h.bytes.size := by rw [capacity] at hsum; omega
  rw [allocate, if_pos hroom, erase_eq_overwrite, place, List.length_replicate]

theorem allocate_eq_error (ha : h.Admissible) {size : Nat} (full : h.remaining < size) :
    allocate size h = .error (.heapOverflow size h.remaining) h := by
  have hsum := ha.cursor_add_remaining
  have hfull : ¬ h.cursor + size ≤ h.bytes.size := by rw [capacity] at hsum; omega
  rw [allocate, if_neg hfull]

/-- What a new array puts into its block. -/
def arrayContent (length : Word) (count : Nat) : List UInt8 :=
  length.bytes ++ List.replicate (4 * count) 0

/-- What a text puts into its block. -/
def textContent (text : String) : List UInt8 :=
  (Word.ofIndex (textBytes text).length).bytes ++ (textBytes text ++ [0])

@[simp] theorem length_arrayContent (length : Word) (count : Nat) :
    (arrayContent length count).length = 4 * count + 4 := by
  rw [arrayContent, List.length_append, List.length_replicate, Word.length_bytes, Nat.add_comm]

@[simp] theorem length_textContent (text : String) :
    (textContent text).length = (textBytes text).length + 5 := by
  simp only [textContent, List.length_append, Word.length_bytes, List.length_singleton]
  omega

/-- Bytes of the block that was just placed can be replaced. -/
theorem patch_place {first old new last : List UInt8} (hstart : start = h.cursor + first.length)
    (hlength : new.length = old.length)
    (room : h.cursor + (first ++ (old ++ last)).length ≤ h.capacity) :
    (h.place (first ++ (old ++ last))).patch start new = h.place (first ++ (new ++ last)) := by
  subst hstart
  have hsize : h.cursor + (first ++ (old ++ last)).length ≤ h.bytes.size := room
  have hnew : (first ++ (new ++ last)).length = (first ++ (old ++ last)).length := by
    simp only [List.length_append, hlength]
  have hpart : first.length + new.length ≤ (first ++ (old ++ last)).length := by
    simp only [List.length_append]
    omega
  have hold : Holds (h.place (first ++ (old ++ last))).bytes h.cursor (first ++ (old ++ last)) :=
    holds_overwrite hsize
  rw [holds_append, holds_append] at hold
  have hbytes : overwrite (h.place (first ++ (old ++ last))).bytes (h.cursor + first.length) new =
      (h.place (first ++ (new ++ last))).bytes := by
    refine eq_overwrite (by rw [hnew]; exact hsize) ?_ fun i hi => ?_
    · refine holds_append.mpr ⟨hold.1.beside (Or.inl (Nat.le_refl _)), holds_append.mpr ⟨?_, ?_⟩⟩
      · refine holds_overwrite ?_
        show _ ≤ (overwrite _ _ _).size
        rw [size_overwrite]
        omega
      · rw [hlength]
        exact hold.2.2.beside (Or.inr (Nat.le_of_eq (by rw [hlength])))
    · rw [hnew] at hi
      rw [getElem?_overwrite_beside (by omega)]
      exact getElem?_overwrite_beside hi
  rw [patch, hbytes, place, place, hnew]

/-- The first bytes of the block that was just placed can be written. -/
theorem write_place {old new last : List UInt8} (ha : h.Admissible)
    (hlength : new.length = old.length) (room : (old ++ last).length ≤ h.remaining) :
    write (Word.ofIndex h.cursor) new (h.place (old ++ last)) = .ok () (h.place (new ++ last)) := by
  have hsum := ha.cursor_add_remaining
  have hindex := Word.index?_ofIndex (ha.lt_positions ha.cursor_le)
  have hroom : h.cursor + new.length ≤ (h.place (old ++ last)).capacity := by
    rw [List.length_append] at room
    rw [capacity_place]
    omega
  rw [write_eq_ok hindex hroom]
  congr 1
  exact @patch_place h.cursor h [] old new last rfl hlength (by rw [List.nil_append]; omega)

/-- A new array is its length and zeros behind the cursor. -/
theorem allocateArray_eq_ok (ha : h.Admissible) {length : Word} {count : Nat}
    (hlength : Word.index? length = some count) (room : 4 * count + 4 ≤ h.remaining) :
    allocateArray length h = .ok (Word.ofIndex h.cursor) (h.place (arrayContent length count)) := by
  have hzeros : List.replicate (4 * count + 4) (0 : UInt8) =
      List.replicate 4 0 ++ List.replicate (4 * count) 0 := by
    rw [List.replicate_append_replicate, Nat.add_comm]
  have hplaced := allocate_eq_ok ha room
  rw [hzeros] at hplaced
  have hstore : store32 (Word.ofIndex h.cursor) length
      (h.place (List.replicate 4 0 ++ List.replicate (4 * count) 0)) =
        .ok () (h.place (arrayContent length count)) := by
    refine write_place ha (by rw [List.length_replicate, Word.length_bytes]) ?_
    rw [← hzeros, List.length_replicate]
    exact room
  rw [allocateArray, hlength]
  refine Action.bind_eq_ok.mpr ⟨_, _, hplaced, ?_⟩
  exact Action.bind_eq_ok.mpr ⟨_, _, hstore, rfl⟩

theorem allocateArray_eq_error (ha : h.Admissible) {length : Word} {count : Nat}
    (hlength : Word.index? length = some count) (full : h.remaining < 4 * count + 4) :
    allocateArray length h = .error (.heapOverflow (4 * count + 4) h.remaining) h := by
  rw [allocateArray, hlength]
  exact Action.bind_eq_error.mpr (Or.inl (allocate_eq_error ha full))

theorem allocateArray_eq_invalid {length : Word} (hlength : Word.index? length = none) :
    allocateArray length h = .error (.invalidAllocationSize length) h := by
  rw [allocateArray, hlength]
  rfl

/-- A new text is its length, its bytes and a zero behind the cursor. -/
theorem allocateText_eq_ok (ha : h.Admissible) {text : String}
    (room : (textBytes text).length + 5 ≤ h.remaining) :
    allocateText text h = .ok (Word.ofIndex h.cursor) (h.place (textContent text)) := by
  have hsum := ha.cursor_add_remaining
  have hlength : (textBytes text).length < Word.positions := ha.lt_positions (by omega)
  have hzeros : List.replicate (4 + (textBytes text).length + 1) (0 : UInt8) =
      List.replicate 4 0 ++ (List.replicate (textBytes text).length 0 ++ [0]) := by
    rw [← List.replicate_one, List.replicate_append_replicate, List.replicate_append_replicate,
      ← Nat.add_assoc]
  have hplaced := allocate_eq_ok ha (by omega : 4 + (textBytes text).length + 1 ≤ h.remaining)
  rw [hzeros] at hplaced
  have hbody : (h.place (List.replicate 4 0 ++
        (List.replicate (textBytes text).length 0 ++ [0]))).patch (h.cursor + 4) (textBytes text) =
      h.place (List.replicate 4 0 ++ (textBytes text ++ [0])) := by
    refine patch_place (by rw [List.length_replicate]) List.length_replicate.symm ?_
    rw [← hzeros, List.length_replicate]
    omega
  have hstore : store32 (Word.ofIndex h.cursor) (Word.ofIndex (textBytes text).length)
      (h.place (List.replicate 4 0 ++ (textBytes text ++ [0]))) =
        .ok () (h.place (textContent text)) := by
    refine write_place ha (by rw [List.length_replicate, Word.length_bytes]) ?_
    simp only [List.length_append, List.length_replicate, List.length_singleton]
    omega
  rw [allocateText]
  dsimp only
  rw [if_pos hlength]
  refine Action.bind_eq_ok.mpr ⟨_, _, hplaced, ?_⟩
  -- the bytes of the text come first, then its length before them
  refine Action.bind_eq_ok.mpr ⟨(), _, congrArg (EStateM.Result.ok ()) hbody, ?_⟩
  exact Action.bind_eq_ok.mpr ⟨_, _, hstore, rfl⟩

theorem allocateText_eq_error (ha : h.Admissible) {text : String}
    (hlength : (textBytes text).length < Word.positions)
    (full : h.remaining < (textBytes text).length + 5) :
    allocateText text h = .error (.heapOverflow ((textBytes text).length + 5) h.remaining) h := by
  have hsize : 4 + (textBytes text).length + 1 = (textBytes text).length + 5 := by omega
  rw [allocateText]
  dsimp only
  rw [if_pos hlength, hsize]
  exact Action.bind_eq_error.mpr (Or.inl (allocate_eq_error ha full))

theorem allocateText_eq_invalid {text : String}
    (hlength : Word.positions ≤ (textBytes text).length) :
    allocateText text h = .error (.invalidAllocationSize Int32.maxValue) h := by
  rw [allocateText]
  dsimp only
  rw [if_neg (Nat.not_lt.mpr hlength)]
  rfl

end Heap

end StackMachine
