import StackMachine.Proofs.Heap.Bytes

set_option autoImplicit false

/-! # Objects in the bytes of a heap

An object is an array of words or a text. Its bytes are its length as a word and behind it the
bytes of the elements, or those of the text and a zero (`Object.bytes`). When they stand in the
heap (`Object.At`), the operations on objects answer from the object alone, and changing an
element changes the object's bytes to those of the changed array.
-/

namespace StackMachine.Heap

/-- An array of words or a text. -/
inductive Object where
  | array (elements : List Word)
  | text (t : String)
  deriving DecidableEq, Repr

namespace Object

/-- The number of elements, or of bytes. -/
def length : Object → Word
  | array elements => Word.ofIndex elements.length
  | text t => Word.ofIndex (textBytes t).length

/-- The bytes behind the length. -/
def body : Object → List UInt8
  | array elements => elements.flatMap Word.bytes
  | text t => textBytes t ++ [0]

/-- The bytes of the object on a heap. -/
def bytes (o : Object) : List UInt8 := o.length.bytes ++ o.body

/-- The position of an index among the elements of an array. -/
def position (elements : List Word) (index : Word) : Except Fault Nat :=
  if 0 ≤ index.toInt ∧ index.toInt < elements.length then .ok index.toInt.toNat
  else .error (.indexOutOfBounds index (Word.ofIndex elements.length))

/-- A text as it is read back: each byte of its UTF-8 form as the character with that code. -/
def reading (t : String) : String :=
  String.ofList ((textBytes t).map fun b => Char.ofNat b.toNat)

@[simp] theorem length_flatMap_bytes (elements : List Word) :
    (elements.flatMap Word.bytes).length = 4 * elements.length := by
  induction elements with
  | nil => rfl
  | cons w elements ih =>
      rw [List.flatMap_cons, List.length_append, ih, Word.length_bytes, List.length_cons]
      omega

theorem length_bytes_array (elements : List Word) :
    (array elements).bytes.length = 4 * elements.length + 4 := by
  rw [bytes, List.length_append, Word.length_bytes, body, length_flatMap_bytes, Nat.add_comm]

theorem length_bytes_text (t : String) : (text t).bytes.length = (textBytes t).length + 5 :=
  length_textContent t

theorem four_le_length_bytes (o : Object) : 4 ≤ o.bytes.length := by
  rw [bytes, List.length_append, Word.length_bytes]
  omega

theorem flatMap_bytes_zero (count : Nat) :
    (List.replicate count (0 : Word)).flatMap Word.bytes = List.replicate (4 * count) 0 := by
  induction count with
  | zero => rfl
  | succ count ih =>
      have hzero : Word.bytes 0 = List.replicate 4 0 := by decide
      rw [List.replicate_succ, List.flatMap_cons, ih, hzero, List.replicate_append_replicate]
      congr 1
      omega

/-- A new array is an array of zeros. -/
theorem arrayContent_eq {length : Word} {count : Nat} (hlength : Word.index? length = some count) :
    arrayContent length count = (array (List.replicate count 0)).bytes := by
  rw [arrayContent, bytes, Object.length, List.length_replicate, Word.ofIndex_of_index? hlength,
    body, flatMap_bytes_zero]

theorem position_eq_ok_iff {elements : List Word} {index : Word} {i : Nat} :
    position elements index = .ok i ↔ index.toInt = i ∧ i < elements.length := by
  unfold position
  split
  · rw [Except.ok.injEq]; omega
  · simp only [reduceCtorEq, false_iff]; omega

/-! ## Where an object lies -/

/-- The object lies in the heap from position `n` on, in the part that was handed out. -/
structure At (h : Heap) (o : Object) (n : Nat) : Prop where
  room : n + o.bytes.length ≤ h.cursor
  holds : Holds h.bytes n o.bytes

variable {h : Heap} {address : Word} {n : Nat} {elements : List Word} {t : String}

/-- The elements of an array stand one behind another. -/
theorem holds_flatMap_bytes {bytes : Array UInt8} {start : Nat} :
    Holds bytes start (elements.flatMap Word.bytes) ↔
      ∀ i w, elements[i]? = some w → Holds bytes (start + 4 * i) w.bytes := by
  induction elements generalizing start with
  | nil =>
      refine iff_of_true (fun k hk => nomatch hk) fun i w hw => ?_
      rw [List.getElem?_nil] at hw
      cases hw
  | cons first elements ih =>
      rw [List.flatMap_cons, holds_append, Word.length_bytes, ih]
      constructor
      · rintro ⟨hfirst, hrest⟩ i w hw
        cases i with
        | zero => cases hw; exact hfirst
        | succ i =>
            rw [List.getElem?_cons_succ] at hw
            rw [show start + 4 * (i + 1) = start + 4 + 4 * i by omega]
            exact hrest i w hw
      · intro hall
        refine ⟨hall 0 first rfl, fun i w hw => ?_⟩
        rw [show start + 4 + 4 * i = start + 4 * (i + 1) by omega]
        exact hall (i + 1) w hw

namespace At

theorem objectLength {o : Object} (ho : o.At h n) (ha : h.Admissible)
    (hn : Word.index? address = some n) : h.objectLength address = .ok o.length := by
  have hcursor := ha.cursor_le
  have hroom := ho.room
  have hsize := o.four_le_length_bytes
  have hlength : Holds h.bytes n o.length.bytes := (holds_append.mp ho.holds).1
  exact load32_of_holds hn (by omega) hlength

/-- The last element of an array ends within the heap. -/
theorem end_le_capacity (ho : (array elements).At h n) (ha : h.Admissible) :
    n + 4 + 4 * elements.length ≤ h.capacity := by
  have hroom := ho.room
  have hcursor := ha.cursor_le
  rw [length_bytes_array] at hroom
  omega

/-- Elements stand behind the length, four bytes each. -/
theorem elementAddress (ho : (array elements).At h n) (ha : h.Admissible)
    (hn : Word.index? address = some n) (index : Word) :
    h.elementAddress address index =
      (position elements index).map fun i => Word.ofIndex (n + 4 + 4 * i) := by
  have hend := ha.lt_positions (ho.end_le_capacity ha)
  have hlength : (Word.ofIndex elements.length).toInt = elements.length :=
    Word.toInt_ofIndex (by omega)
  have hinside : (0 ≤ index ∧ index < Word.ofIndex elements.length) ↔
      0 ≤ index.toInt ∧ index.toInt < elements.length := by
    rw [Int32.le_iff_toInt_le, Int32.lt_iff_toInt_lt, hlength]
    rfl
  rw [Heap.elementAddress, ho.objectLength ha hn]
  show (if 0 ≤ index ∧ index < Word.ofIndex elements.length then _ else _) = _
  by_cases hindex : 0 ≤ index.toInt ∧ index.toInt < elements.length
  · have hvalue := Word.index?_eq_some_iff.mp hn
    have hposition : address.toInt + 4 + 4 * index.toInt =
        ((n + 4 + 4 * index.toInt.toNat : Nat) : Int) := by omega
    rw [if_pos (hinside.mpr hindex), position, if_pos hindex, hposition,
      Word.ofInt?_natCast (by omega)]
    rfl
  · rw [if_neg (mt hinside.mp hindex), position, if_neg hindex]
    rfl

theorem arrayGet (ho : (array elements).At h n) (ha : h.Admissible)
    (hn : Word.index? address = some n) (index : Word) :
    h.arrayGet address index = (position elements index).map fun i => elements.getD i 0 := by
  have hroom := ho.end_le_capacity ha
  have hend := ha.lt_positions hroom
  rw [Heap.arrayGet, ho.elementAddress ha hn]
  cases hi : position elements index with
  | error fault => rfl
  | ok i =>
      have hlt := (position_eq_ok_iff.mp hi).2
      have hword : Holds h.bytes (n + 4 + 4 * i) (elements.getD i 0).bytes := by
        refine holds_flatMap_bytes.mp (holds_append.mp ho.holds).2 i _ ?_
        rw [List.getD_eq_getElem?_getD, List.getElem?_eq_getElem hlt, Option.getD_some]
      show h.load32 (Word.ofIndex (n + 4 + 4 * i)) = .ok (elements.getD i 0)
      exact load32_of_holds (Word.index?_ofIndex (by omega)) (by omega) hword

theorem arraySet (ho : (array elements).At h n) (ha : h.Admissible)
    (hn : Word.index? address = some n) (index value : Word) :
    Heap.arraySet address index value h =
      match position elements index with
      | .ok i => .ok () (h.patch (n + 4 + 4 * i) value.bytes)
      | .error fault => .error fault h := by
  have hroom := ho.end_le_capacity ha
  have hend := ha.lt_positions hroom
  rw [arraySet_eq, ho.elementAddress ha hn]
  cases hi : position elements index with
  | error fault => rfl
  | ok i =>
      have hlt := (position_eq_ok_iff.mp hi).2
      show write (Word.ofIndex (n + 4 + 4 * i)) value.bytes h = _
      refine write_eq_ok (Word.index?_ofIndex (by omega)) ?_
      rw [Word.length_bytes]
      omega

/-- A text is read from the bytes between its length and the zero. -/
theorem readText (ho : (text t).At h n) (ha : h.Admissible)
    (hn : Word.index? address = some n) : h.readText address = .ok (reading t) := by
  have hcursor := ha.cursor_le
  have hroom := ho.room
  rw [length_bytes_text] at hroom
  have hcap : n + ((textBytes t).length + 5) < Word.positions := ha.lt_positions (by omega)
  have hvalue := Word.index?_eq_some_iff.mp hn
  have hbytes : Holds h.bytes (n + 4) (textBytes t) :=
    (holds_append.mp (holds_append.mp ho.holds).2).1
  have hstart : Word.ofInt? (address.toInt + 4) = some (Word.ofIndex (n + 4)) := by
    have hposition : address.toInt + 4 = ((n + 4 : Nat) : Int) := by omega
    rw [hposition, Word.ofInt?_natCast (by omega)]
  have htext : h.textAt address = .ok (textBytes t) := by
    have hsize : Word.index? (Word.ofIndex (textBytes t).length) = some (textBytes t).length :=
      Word.index?_ofIndex (by omega)
    rw [textAt, ho.objectLength ha hn]
    simp only [Bind.bind, Except.bind, Object.length, hsize, hstart]
    exact slice_of_holds (Word.index?_ofIndex (by omega)) (by omega) hbytes
  rw [Heap.readText, htext]
  rfl

/-! ## What changes an object -/

/-- Changing the bytes beside an object leaves the object. -/
theorem beside {o : Object} {start : Nat} {content : List UInt8} (ho : o.At h n)
    (apart : n + o.bytes.length ≤ start ∨ start + content.length ≤ n) :
    o.At (h.patch start content) n where
  room := by rw [cursor_patch]; exact ho.room
  holds := by rw [bytes_patch]; exact ho.holds.beside apart

/-- Changing the bytes of an element changes the element. -/
theorem set (ho : (array elements).At h n) (ha : h.Admissible) {i : Nat}
    (hi : i < elements.length) (value : Word) :
    (array (elements.set i value)).At (h.patch (n + 4 + 4 * i) value.bytes) n := by
  have hroom := ho.end_le_capacity ha
  obtain ⟨hlength, hbody⟩ := holds_append.mp ho.holds
  rw [Word.length_bytes] at hbody
  refine ⟨?_, ?_⟩
  · rw [length_bytes_array, List.length_set, cursor_patch, ← length_bytes_array]
    exact ho.room
  · rw [bytes_patch, Object.bytes, holds_append, Word.length_bytes, Object.length, List.length_set]
    refine ⟨hlength.beside (Or.inl (by rw [Word.length_bytes]; omega)), ?_⟩
    refine holds_flatMap_bytes.mpr fun j w hw => ?_
    by_cases hj : i = j
    · subst hj
      rw [List.getElem?_set_self hi] at hw
      cases hw
      rw [capacity] at hroom
      exact holds_overwrite (by rw [Word.length_bytes]; omega)
    · rw [List.getElem?_set_ne hj] at hw
      refine (holds_flatMap_bytes.mp hbody j w hw).beside ?_
      rw [Word.length_bytes, Word.length_bytes]
      omega

/-- Allocating leaves the objects that are there. -/
theorem place {o : Object} (ho : o.At h n) (content : List UInt8) :
    o.At (h.place content) n where
  room := by rw [cursor_place]; exact Nat.le_trans ho.room (Nat.le_add_right _ _)
  holds := by rw [bytes_place]; exact ho.holds.beside (Or.inl ho.room)

/-- An object whose bytes are allocated lies behind the cursor. -/
theorem placed {o : Object} (ha : h.Admissible) (room : o.bytes.length ≤ h.remaining) :
    o.At (h.place o.bytes) h.cursor where
  room := Nat.le_of_eq (cursor_place h o.bytes).symm
  holds := by
    have hsum := ha.cursor_add_remaining
    rw [capacity] at hsum
    rw [bytes_place]
    exact holds_overwrite (by omega)

end At

/-! ## Texts read back -/

theorem textBytes_ofList (l : List Char) :
    textBytes (String.ofList l) = l.flatMap String.utf8EncodeChar := by
  rw [textBytes, String.toUTF8_eq_toByteArray, String.toByteArray_ofList, List.utf8Encode,
    List.data_toByteArray]

/-- A text whose UTF-8 form has no more bytes than the text has characters is ASCII. -/
theorem ascii_of_length_le {l : List Char}
    (h : (l.flatMap String.utf8EncodeChar).length ≤ l.length) : ∀ c ∈ l, c.utf8Size = 1 := by
  have hle : ∀ l : List Char, l.length ≤ (l.flatMap String.utf8EncodeChar).length := by
    intro l
    induction l with
    | nil => exact Nat.le_refl _
    | cons c l ih =>
        have := c.utf8Size_pos
        rw [List.flatMap_cons, List.length_append, String.length_utf8EncodeChar, List.length_cons]
        omega
  induction l with
  | nil => exact nofun
  | cons c l ih =>
      have hpos := c.utf8Size_pos
      have hrest := hle l
      rw [List.flatMap_cons, List.length_append, String.length_utf8EncodeChar,
        List.length_cons] at h
      intro d hd
      rcases List.mem_cons.mp hd with rfl | hd
      · omega
      · exact ih (by omega) d hd

theorem utf8Size_eq_one_iff {c : Char} : c.utf8Size = 1 ↔ c.toNat < 128 := by
  rw [Char.utf8Size_eq_one_iff, UInt32.le_iff_toNat_le]
  exact Nat.lt_succ_iff.symm

/-- **A text is read back as itself exactly when it is ASCII.** -/
theorem reading_eq_iff : reading t = t ↔ ∀ c ∈ t.toList, c.toNat < 128 := by
  obtain ⟨l, rfl⟩ : ∃ l, t = String.ofList l := ⟨t.toList, String.ofList_toList.symm⟩
  rw [reading, textBytes_ofList, String.toList_ofList, String.ofList_inj]
  constructor
  · intro h c hc
    have hlength := congrArg List.length h
    rw [List.length_map] at hlength
    exact utf8Size_eq_one_iff.mp (ascii_of_length_le (Nat.le_of_eq hlength) c hc)
  · intro h
    induction l with
    | nil => rfl
    | cons c l ih =>
        have hc : c.toNat < 128 := h c List.mem_cons_self
        have hbyte : (c.val.toUInt8).toNat = c.toNat := by
          rw [UInt32.toNat_toUInt8]
          exact Nat.mod_eq_of_lt (Nat.lt_trans hc (by decide))
        rw [List.flatMap_cons, String.utf8EncodeChar_eq_singleton (utf8Size_eq_one_iff.mpr hc),
          List.singleton_append, List.map_cons, hbyte, Char.ofNat_toNat,
          ih fun d hd => h d (List.mem_cons_of_mem _ hd)]

end Object

end StackMachine.Heap
