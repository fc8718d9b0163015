import Mathlib.Algebra.Group.Int.Defs
import StackMachine.Proofs.Heap.Bytes

set_option autoImplicit false

/-! # Bytes and words of a heap

A word is loaded from four bytes, and its value is the one that they have in two's complement with
the low byte first (`Word.toInt_ofBytes`). A word is stored as four bytes
(`Heap.store32_iff_storeBytes`), so a store changes these bytes and no others, wherever loads look
at them later.

All of this is about positions in the heap. A heap is much smaller than the range of addresses, so
the addresses next to one inside the heap never wrap around (`Heap.index?_add`).
-/

namespace StackMachine

namespace Word

/-! ## The bytes of a word as numbers -/

/-- A byte of a word, as a part of the number that the word stands for. -/
theorem toNat_byte_eq (w : Word) {k : Nat} (hk : k < 4) :
    ((byte w k).toNat : Int) = w.toInt / 256 ^ k % 256 := by
  have hlt : w.toUInt32.toNat < 4294967296 := w.toUInt32.toNat_lt
  have hvalue : w.toInt = (w.toUInt32.toNat : Int).bmod 4294967296 :=
    BitVec.toInt_eq_toNat_bmod w.toBitVec
  rw [toNat_byte, hvalue, Int.bmod_def]
  match k, hk with
  | 0, _ => split <;> omega
  | 1, _ => split <;> omega
  | 2, _ => split <;> omega
  | 3, _ => split <;> omega

/-- The bytes of a word are the low bytes of the word moved to the right. -/
theorem bytes_eq_shiftRight (w : Word) :
    bytes w = [byte w 0, byte (w >>> 8) 0, byte (w >>> 16) 0, byte (w >>> 24) 0] := by
  have hshift : ∀ {moved : Word} {k : Nat}, k < 4 → moved.toInt = w.toInt / 256 ^ k →
      byte w k = byte moved 0 := by
    intro moved k hk hmoved
    rw [← UInt8.toNat_inj, ← Int.ofNat_inj, toNat_byte_eq w hk, toNat_byte_eq moved (by decide),
      hmoved, Int.pow_zero, Int.ediv_one]
  have hone : (w >>> 8).toInt = w.toInt / 256 ^ 1 := by
    rw [← Int32.toInt_toBitVec, Int32.toBitVec_shiftRight]
    simp [Int.shiftRight_eq_div_pow]
  have htwo : (w >>> 16).toInt = w.toInt / 256 ^ 2 := by
    rw [← Int32.toInt_toBitVec, Int32.toBitVec_shiftRight]
    simp [Int.shiftRight_eq_div_pow]
  have hthree : (w >>> 24).toInt = w.toInt / 256 ^ 3 := by
    rw [← Int32.toInt_toBitVec, Int32.toBitVec_shiftRight]
    simp [Int.shiftRight_eq_div_pow]
  rw [bytes, hshift (by decide) hone, hshift (by decide) htwo, hshift (by decide) hthree]

/-- **Four bytes as a number in two's complement**, the low byte first. -/
theorem toInt_ofBytes (b₀ b₁ b₂ b₃ : UInt8) :
    (ofBytes b₀ b₁ b₂ b₃).toInt =
      b₀.toNat + 2 ^ 8 * b₁.toNat + 2 ^ 16 * b₂.toNat + 2 ^ 24 * b₃.toNat -
        if 128 ≤ (b₃.toNat : Int) then 2 ^ 32 else 0 := by
  have h₀ := b₀.toNat_lt
  have h₁ := b₁.toNat_lt
  have h₂ := b₂.toNat_lt
  have h₃ := b₃.toNat_lt
  rw [ofBytes, ofIndex, Int32.toInt_ofInt, Int.bmod_def]
  simp only [Int32.size]
  split <;> split <;> omega

theorem toNat_ofIndex (n : Nat) : (ofIndex n).toUInt32.toNat = n % 4294967296 := by
  show (BitVec.ofInt 32 n).toNat = _
  simp

theorem toNat_byte_ofBytes (b₀ b₁ b₂ b₃ : UInt8) (k : Nat) :
    (byte (ofBytes b₀ b₁ b₂ b₃) k).toNat =
      (b₀.toNat + 256 * b₁.toNat + 65536 * b₂.toNat + 16777216 * b₃.toNat) / 256 ^ k % 256 := by
  have h₀ := b₀.toNat_lt
  have h₁ := b₁.toNat_lt
  have h₂ := b₂.toNat_lt
  have h₃ := b₃.toNat_lt
  have hlt : b₀.toNat + 256 * b₁.toNat + 65536 * b₂.toNat + 16777216 * b₃.toNat < 4294967296 := by
    omega
  rw [toNat_byte, ofBytes, toNat_ofIndex, Nat.mod_eq_of_lt hlt]

/-- A word is made of bytes exactly if they are its bytes. -/
theorem eq_ofBytes_iff {w : Word} {b₀ b₁ b₂ b₃ : UInt8} :
    w = ofBytes b₀ b₁ b₂ b₃ ↔
      byte w 0 = b₀ ∧ byte w 1 = b₁ ∧ byte w 2 = b₂ ∧ byte w 3 = b₃ := by
  have h₀ := b₀.toNat_lt
  have h₁ := b₁.toNat_lt
  have h₂ := b₂.toNat_lt
  have h₃ := b₃.toNat_lt
  constructor
  · rintro rfl
    simp only [← UInt8.toNat_inj, toNat_byte_ofBytes]
    omega
  · rintro ⟨rfl, rfl, rfl, rfl⟩
    exact (ofBytes_byte w).symm

/-- A byte loaded as a word has the value of the byte. -/
theorem toInt_ofIndex_byte (b : UInt8) : (ofIndex b.toNat).toInt = b.toNat := by
  have hlt := b.toNat_lt
  exact toInt_ofIndex (by unfold positions; omega)

end Word

namespace Heap

variable {h h' : Heap} {address value w : Word} {n : Nat}

/-! ## Loads and stores by position -/

theorem locate_eq_ok_iff {size : Nat} :
    h.locate address size = .ok n ↔ Word.index? address = some n ∧ n + size ≤ h.capacity := by
  constructor
  · intro hlocate
    refine ⟨?_, locate_inside hlocate⟩
    unfold locate at hlocate
    split at hlocate
    · next hindex =>
        split at hlocate
        · cases hlocate
          exact hindex
        · cases hlocate
    · cases hlocate
  · rintro ⟨hindex, hroom⟩
    exact locate_eq_ok hindex hroom

/-- An answer computed from a position is given exactly where the position lies in the heap. -/
theorem locate_bind_eq_ok_iff {α : Type} {size : Nat} {answer : Nat → α} {a : α} :
    (do return answer (← h.locate address size)) = Except.ok a ↔
      ∃ n, Word.index? address = some n ∧ n + size ≤ h.capacity ∧ a = answer n := by
  cases hlocate : h.locate address size with
  | ok n =>
      obtain ⟨hindex, hroom⟩ := locate_eq_ok_iff.mp hlocate
      constructor
      · intro hanswer
        cases hanswer
        exact ⟨n, hindex, hroom, rfl⟩
      · rintro ⟨n', hindex', -, rfl⟩
        rw [hindex, Option.some.injEq] at hindex'
        rw [← hindex']
        rfl
  | error fault =>
      constructor
      · intro hanswer
        cases hanswer
      · rintro ⟨n, hindex, hroom, -⟩
        rw [locate_eq_ok hindex hroom] at hlocate
        cases hlocate

theorem load8_eq_ok_iff : h.load8 address = .ok w ↔
    ∃ n, Word.index? address = some n ∧ n + 1 ≤ h.capacity ∧
      w = Word.ofIndex (h.byteAt n).toNat :=
  locate_bind_eq_ok_iff

/-- A word is loaded exactly where its bytes stand. -/
theorem load32_eq_ok_iff : h.load32 address = .ok w ↔
    ∃ n, Word.index? address = some n ∧ n + 4 ≤ h.capacity ∧
      ∀ k < 4, w.byte k = h.byteAt (n + k) := by
  have hload : h.load32 address = .ok w ↔ ∃ n, Word.index? address = some n ∧
      n + 4 ≤ h.capacity ∧
      w = Word.ofBytes (h.byteAt n) (h.byteAt (n + 1)) (h.byteAt (n + 2)) (h.byteAt (n + 3)) :=
    locate_bind_eq_ok_iff
  rw [hload]
  refine exists_congr fun n => and_congr_right fun _ => and_congr_right fun _ => ?_
  rw [Word.eq_ofBytes_iff]
  constructor
  · rintro ⟨h₀, h₁, h₂, h₃⟩ k hk
    match k, hk with
    | 0, _ => exact h₀
    | 1, _ => exact h₁
    | 2, _ => exact h₂
    | 3, _ => exact h₃
  · intro hbyte
    exact ⟨hbyte 0 (by decide), hbyte 1 (by decide), hbyte 2 (by decide), hbyte 3 (by decide)⟩

/-- A slice is taken exactly where its bytes lie in the heap. -/
theorem slice_eq_ok_iff {size : Nat} {bytes : List UInt8} : h.slice address size = .ok bytes ↔
    ∃ n, Word.index? address = some n ∧ n + size ≤ h.capacity ∧
      bytes = (h.bytes.extract n (n + size)).toList :=
  locate_bind_eq_ok_iff

theorem write_eq_ok_iff {content : List UInt8} : write address content h = .ok () h' ↔
    ∃ n, Word.index? address = some n ∧ n + content.length ≤ h.capacity ∧
      h' = h.patch n content := by
  constructor
  · intro hwrite
    unfold write at hwrite
    split at hwrite
    · next n hlocate =>
        obtain ⟨hindex, hroom⟩ := locate_eq_ok_iff.mp hlocate
        cases hwrite
        exact ⟨n, hindex, hroom, rfl⟩
    · cases hwrite
  · rintro ⟨n, hindex, hroom, rfl⟩
    exact write_eq_ok hindex hroom

/-- A write that fails leaves the heap as it is. -/
theorem eq_of_write_error {content : List UInt8} {fault : Fault}
    (hwrite : write address content h = .error fault h') : h' = h := by
  unfold write at hwrite
  split at hwrite <;> cases hwrite
  rfl

/-! ## Bytes after a write -/

theorem byteAt_patch {content : List UInt8} (hroom : n + content.length ≤ h.capacity) {k : Nat}
    {b : UInt8} (hb : content[k]? = some b) : (h.patch n content).byteAt (n + k) = b := by
  have hold : Holds (h.patch n content).bytes n content := holds_overwrite hroom
  exact hold.byteAt hb

theorem byteAt_patch_beside {content : List UInt8} {i : Nat}
    (hi : i < n ∨ n + content.length ≤ i) : (h.patch n content).byteAt i = h.byteAt i := by
  rw [byteAt, byteAt, Array.getD_eq_getD_getElem?, Array.getD_eq_getD_getElem?, bytes_patch,
    getElem?_overwrite_beside hi]

theorem getElem?_bytes {k : Nat} (hk : k < 4) : (Word.bytes w)[k]? = some (w.byte k) := by
  match k, hk with
  | 0, _ => rfl
  | 1, _ => rfl
  | 2, _ => rfl
  | 3, _ => rfl

/-! ## Neighbouring addresses -/

/-- In a heap no address wraps around. -/
theorem index?_add (hcap : h.capacity ≤ Config.maxHeapSize)
    (hindex : Word.index? address = some n) (hn : n < h.capacity) {k : Nat} (hk : k < 4) :
    Word.index? (address + Word.ofIndex k) = some (n + k) := by
  have hlt : n + k < Word.positions := by
    unfold Config.maxHeapSize at hcap
    unfold Word.positions
    omega
  have hsum : address + Word.ofIndex k = Word.ofIndex (n + k) := by
    rw [← Word.ofIndex_of_index? hindex, Word.ofIndex, Word.ofIndex, Word.ofIndex,
      ← Int32.ofInt_add, Int.natCast_add]
  rw [hsum, Word.index?_ofIndex hlt]

theorem add_zero_address (address : Word) : address + Word.ofIndex 0 = address :=
  Int32.add_zero address

/-! ## Words as bytes -/

theorem exists_load32 (hindex : Word.index? address = some n) (hroom : n + 4 ≤ h.capacity) :
    ∃ w, h.load32 address = .ok w :=
  ⟨_, locate_bind_eq_ok_iff.mpr ⟨n, hindex, hroom, rfl⟩⟩

theorem load8_of_load32 (hcap : h.capacity ≤ Config.maxHeapSize) (hload : h.load32 address = .ok w)
    {k : Nat} (hk : k < 4) :
    h.load8 (address + Word.ofIndex k) = .ok (Word.ofIndex (w.byte k).toNat) := by
  obtain ⟨n, hindex, hroom, hbyte⟩ := load32_eq_ok_iff.mp hload
  refine load8_eq_ok_iff.mpr ⟨n + k, index?_add hcap hindex (by omega) hk, by omega, ?_⟩
  rw [hbyte k hk]

/-- **A word can be loaded where four bytes can.** -/
theorem load32_iff_load8 (hcap : h.capacity ≤ Config.maxHeapSize) :
    (∃ w, h.load32 address = .ok w) ↔
      ∀ k < 4, ∃ b, h.load8 (address + Word.ofIndex k) = .ok b := by
  constructor
  · rintro ⟨w, hload⟩ k hk
    exact ⟨_, load8_of_load32 hcap hload hk⟩
  · intro hbytes
    -- the first byte gives the position, and the last one says that there is room behind it
    obtain ⟨b₀, hfirst⟩ := hbytes 0 (by decide)
    obtain ⟨b₃, hlast⟩ := hbytes 3 (by decide)
    rw [add_zero_address] at hfirst
    obtain ⟨n, hindex, hn, -⟩ := load8_eq_ok_iff.mp hfirst
    obtain ⟨n', hindex', hn', -⟩ := load8_eq_ok_iff.mp hlast
    rw [index?_add hcap hindex (by omega) (by decide), Option.some.injEq] at hindex'
    exact exists_load32 hindex (by omega)

/-- Store a word byte by byte, the low byte first. -/
def storeBytes (address value : Word) : Action Heap Unit := do
  store8 address value
  store8 (address + 1) (value >>> 8)
  store8 (address + 2) (value >>> 16)
  store8 (address + 3) (value >>> 24)

theorem store8_of_index (hindex : Word.index? address = some n) (hroom : n + 1 ≤ h.capacity)
    (value : Word) : store8 address value h = .ok () (h.patch n [value.byte 0]) :=
  write_eq_ok hindex hroom

/-- Bytes can be written one after another. -/
theorem patch_cons (h : Heap) (n : Nat) (b : UInt8) (content : List UInt8) :
    h.patch n (b :: content) = (h.patch n [b]).patch (n + 1) content := rfl

/-- **Storing a word is storing its bytes**, if all of it lies in the heap. -/
theorem store32_iff_storeBytes (hcap : h.capacity ≤ Config.maxHeapSize) :
    store32 address value h = .ok () h' ↔ storeBytes address value h = .ok () h' := by
  have hbytes : ∀ {n}, Word.index? address = some n → n + 4 ≤ h.capacity →
      storeBytes address value h = .ok () (h.patch n value.bytes) := by
    intro n hindex hroom
    have hone : Word.index? (address + 1) = some (n + 1) :=
      index?_add hcap hindex (by omega) (k := 1) (by decide)
    have htwo : Word.index? (address + 2) = some (n + 2) :=
      index?_add hcap hindex (by omega) (k := 2) (by decide)
    have hthree : Word.index? (address + 3) = some (n + 3) :=
      index?_add hcap hindex (by omega) (k := 3) (by decide)
    rw [Word.bytes_eq_shiftRight, patch_cons, patch_cons, patch_cons]
    refine Action.bind_eq_ok.mpr ⟨(), _, store8_of_index hindex (by omega) _, ?_⟩
    refine Action.bind_eq_ok.mpr ⟨(), _, store8_of_index hone ?_ _, ?_⟩
    · rw [capacity_patch]
      omega
    refine Action.bind_eq_ok.mpr ⟨(), _, store8_of_index htwo ?_ _, ?_⟩
    · rw [capacity_patch, capacity_patch]
      omega
    refine store8_of_index hthree ?_ _
    rw [capacity_patch, capacity_patch, capacity_patch]
    omega
  constructor
  · intro hstore
    obtain ⟨n, hindex, hroom, rfl⟩ := write_eq_ok_iff.mp hstore
    exact hbytes hindex hroom
  · intro hstore
    -- the first store gives the position, and the last one says that there is room behind it
    obtain ⟨_, h₁, hfirst, hrest⟩ := Action.bind_eq_ok.mp hstore
    obtain ⟨_, h₂, hsecond, hrest⟩ := Action.bind_eq_ok.mp hrest
    obtain ⟨_, h₃, hthird, hlast⟩ := Action.bind_eq_ok.mp hrest
    obtain ⟨n, hindex, hn, rfl⟩ := write_eq_ok_iff.mp hfirst
    obtain ⟨_, -, -, rfl⟩ := write_eq_ok_iff.mp hsecond
    obtain ⟨_, -, -, rfl⟩ := write_eq_ok_iff.mp hthird
    obtain ⟨n', hindex', hn', -⟩ := write_eq_ok_iff.mp hlast
    have hthree : Word.index? (address + 3) = some (n + 3) :=
      index?_add hcap hindex (by simp at hn; omega) (k := 3) (by decide)
    rw [hthree, Option.some.injEq] at hindex'
    -- the last byte says that there is room for the whole word
    have hroom : n + 4 ≤ h.capacity := by
      simp at hn'
      omega
    have hsame := hbytes hindex hroom
    rw [hstore, EStateM.Result.ok.injEq] at hsame
    rw [hsame.2]
    exact write_eq_ok hindex hroom

/-! ## After a store -/

theorem load32_of_store32 (hstore : store32 address value h = .ok () h') :
    h'.load32 address = .ok value := by
  obtain ⟨n, hindex, hroom, rfl⟩ := write_eq_ok_iff.mp hstore
  refine load32_eq_ok_iff.mpr ⟨n, hindex, ?_, fun k hk => ?_⟩
  · rw [capacity_patch]
    exact hroom
  · rw [byteAt_patch hroom (getElem?_bytes hk)]

/-- A byte store is seen by a byte load as the value modulo 256. -/
theorem load8_of_store8 (hstore : store8 address value h = .ok () h') :
    ∃ w, h'.load8 address = .ok w ∧ w.toInt = value.toInt % 256 := by
  obtain ⟨n, hindex, hroom, rfl⟩ := write_eq_ok_iff.mp hstore
  refine ⟨_, load8_eq_ok_iff.mpr ⟨n, hindex, ?_, rfl⟩, ?_⟩
  · rw [capacity_patch]
    exact hroom
  · have hbyte : (h.patch n [value.byte 0]).byteAt (n + 0) = value.byte 0 :=
      byteAt_patch hroom rfl
    rw [Nat.add_zero] at hbyte
    rw [hbyte, Word.toInt_ofIndex_byte, Word.toNat_byte_eq value (by decide), Int.pow_zero,
      Int.ediv_one]

/-- What a byte of the heap is after a word store: a byte of the word, or the byte as it was. -/
theorem byteAt_store32 (hcap : h.capacity ≤ Config.maxHeapSize)
    (hstore : store32 address value h = .ok () h') {other : Word}
    (hother : Word.index? other = some n) (hn : n < h.capacity) :
    (∀ k < 4, other = address + Word.ofIndex k → h'.byteAt n = value.byte k) ∧
    ((∀ k < 4, other ≠ address + Word.ofIndex k) → h'.byteAt n = h.byteAt n) := by
  obtain ⟨start, hindex, hroom, rfl⟩ := write_eq_ok_iff.mp hstore
  rw [Word.length_bytes] at hroom
  have hnext : ∀ {k}, k < 4 → Word.index? (address + Word.ofIndex k) = some (start + k) :=
    fun hk => index?_add hcap hindex (by omega) hk
  constructor
  · rintro k hk rfl
    rw [hnext hk, Option.some.injEq] at hother
    rw [← hother, byteAt_patch hroom (getElem?_bytes hk)]
  · intro hbeside
    apply byteAt_patch_beside
    rw [Word.length_bytes]
    rcases Nat.lt_or_ge n start with hbefore | hstart
    · exact Or.inl hbefore
    · rcases Nat.lt_or_ge n (start + 4) with hinside | hbehind
      · -- a position inside the range has one of the four addresses
        obtain ⟨k, rfl⟩ := Nat.exists_eq_add_of_le hstart
        have hk : k < 4 := by omega
        have haddress : other = address + Word.ofIndex k := by
          rw [← Word.ofIndex_of_index? hother, ← Word.ofIndex_of_index? (hnext hk)]
        exact absurd haddress (hbeside k hk)
      · exact Or.inr hbehind

theorem capacity_of_write {content : List UInt8} (hwrite : write address content h = .ok () h') :
    h'.capacity = h.capacity := by
  obtain ⟨n, -, -, rfl⟩ := write_eq_ok_iff.mp hwrite
  exact capacity_patch h n content

/-- A byte beside the stored word is loaded as before, or fails to be as before. -/
theorem load8_beside (hcap : h.capacity ≤ Config.maxHeapSize)
    (hstore : store32 address value h = .ok () h') {other : Word}
    (hbeside : ∀ k < 4, other ≠ address + Word.ofIndex k) : h'.load8 other = h.load8 other := by
  have hcapacity := capacity_of_write hstore
  have hlocate : h'.locate other 1 = h.locate other 1 := by
    simp only [locate, hcapacity]
  unfold load8
  rw [hlocate]
  cases hposition : h.locate other 1 with
  | error fault => rfl
  | ok n =>
      obtain ⟨hindex, hn⟩ := locate_eq_ok_iff.mp hposition
      have hsame := (byteAt_store32 hcap hstore hindex hn).2 hbeside
      show Except.ok _ = Except.ok _
      rw [hsame]

/-- A word that overlaps the stored one has the bytes of the stored word where they share them. -/
theorem load32_overlapping (hcap : h.capacity ≤ Config.maxHeapSize)
    (hstore : store32 address value h = .ok () h') {other : Word}
    (hload : h.load32 other = .ok w) :
    ∃ w', h'.load32 other = .ok w' ∧ ∀ k < 4,
      (∀ j < 4, other + Word.ofIndex k = address + Word.ofIndex j → w'.byte k = value.byte j) ∧
      ((∀ j < 4, other + Word.ofIndex k ≠ address + Word.ofIndex j) → w'.byte k = w.byte k) := by
  have hcapacity := capacity_of_write hstore
  obtain ⟨n, hindex, hroom, hbyte⟩ := load32_eq_ok_iff.mp hload
  obtain ⟨w', hload'⟩ := exists_load32 (h := h') hindex (by omega)
  obtain ⟨n', hindex', -, hbyte'⟩ := load32_eq_ok_iff.mp hload'
  rw [hindex, Option.some.injEq] at hindex'
  subst hindex'
  refine ⟨w', hload', fun k hk => ?_⟩
  have hnext : Word.index? (other + Word.ofIndex k) = some (n + k) :=
    index?_add hcap hindex (by omega) hk
  rw [hbyte' k hk, hbyte k hk]
  exact byteAt_store32 hcap hstore hnext (by omega)

/-- **Bytes and words of a heap agree.** A word is loaded exactly where its four bytes can be
loaded, and is their value in two's complement with the low byte first. It can be stored exactly
where it can be loaded, and storing it is storing its four bytes. Then it is loaded again, and
whatever is loaded has changed in these four bytes only, bytes as well as words that overlap them.
A byte that has been stored is loaded as the value modulo 256, and a store that fails changes
nothing. -/
theorem words_are_four_bytes {h : Heap} (hcap : h.capacity ≤ Config.maxHeapSize)
    (address value : Word) :
    ((∃ w, h.load32 address = .ok w) ↔
      ∀ k < 4, ∃ b, h.load8 (address + Word.ofIndex k) = .ok b) ∧
    (∀ w, h.load32 address = .ok w → ∃ b₀ b₁ b₂ b₃ : Word,
      h.load8 address = .ok b₀ ∧ h.load8 (address + 1) = .ok b₁ ∧
      h.load8 (address + 2) = .ok b₂ ∧ h.load8 (address + 3) = .ok b₃ ∧
      w.toInt = b₀.toInt + 2 ^ 8 * b₁.toInt + 2 ^ 16 * b₂.toInt + 2 ^ 24 * b₃.toInt -
        if 128 ≤ b₃.toInt then 2 ^ 32 else 0) ∧
    ((∃ h', store32 address value h = .ok () h') ↔ ∃ w, h.load32 address = .ok w) ∧
    (∀ h', store32 address value h = .ok () h' ↔ storeBytes address value h = .ok () h') ∧
    (∀ h', store32 address value h = .ok () h' →
      h'.load32 address = .ok value ∧
      (∀ other, (∀ k < 4, other ≠ address + Word.ofIndex k) →
        h'.load8 other = h.load8 other) ∧
      ∀ other w, h.load32 other = .ok w → ∃ w', h'.load32 other = .ok w' ∧ ∀ k < 4,
        (∀ j < 4, other + Word.ofIndex k = address + Word.ofIndex j →
          w'.byte k = value.byte j) ∧
        ((∀ j < 4, other + Word.ofIndex k ≠ address + Word.ofIndex j) →
          w'.byte k = w.byte k)) ∧
    (∀ h', store8 address value h = .ok () h' →
      ∃ w, h'.load8 address = .ok w ∧ w.toInt = value.toInt % 256) ∧
    (∀ fault h', store32 address value h = .error fault h' → h' = h) ∧
    ∀ fault h', store8 address value h = .error fault h' → h' = h := by
  refine ⟨load32_iff_load8 hcap, fun w hload => ?_, ?_, fun h' => store32_iff_storeBytes hcap,
    fun h' hstore => ⟨load32_of_store32 hstore, fun other => load8_beside hcap hstore,
      fun other w => load32_overlapping hcap hstore⟩,
    fun h' => load8_of_store8, fun fault h' => eq_of_write_error,
    fun fault h' => eq_of_write_error⟩
  · have hbyte := fun {k} (hk : k < 4) => load8_of_load32 hcap hload hk
    have hfirst := hbyte (k := 0) (by decide)
    rw [add_zero_address] at hfirst
    refine ⟨_, _, _, _, hfirst, hbyte (k := 1) (by decide), hbyte (k := 2) (by decide),
      hbyte (k := 3) (by decide), ?_⟩
    have hvalue := Word.toInt_ofBytes (w.byte 0) (w.byte 1) (w.byte 2) (w.byte 3)
    rw [Word.ofBytes_byte] at hvalue
    simp only [Word.toInt_ofIndex_byte]
    exact hvalue
  · constructor
    · rintro ⟨h', hstore⟩
      obtain ⟨n, hindex, hroom, -⟩ := write_eq_ok_iff.mp hstore
      exact exists_load32 hindex hroom
    · rintro ⟨w, hload⟩
      obtain ⟨n, hindex, hroom, -⟩ := load32_eq_ok_iff.mp hload
      exact ⟨_, write_eq_ok hindex hroom⟩

/-- A negative word stored at the end of a heap of eight bytes, over a word with the sign bit set:
its highest byte is loaded without the sign, and a word that overlaps it has two of its bytes. -/
theorem words_are_four_bytes_at_end :
    ∃ h h' : Heap, h.capacity = 8 ∧ h.capacity ≤ Config.maxHeapSize ∧
      h.load32 4 = .ok (-2147483648) ∧ store32 4 (-2) h = .ok () h' ∧
      storeBytes 4 (-2) h = .ok () h' ∧ h'.load32 4 = .ok (-2) ∧ h'.load8 7 = .ok 255 ∧
      h'.load8 3 = h.load8 3 ∧ h'.load32 2 = .ok (-131072) ∧
      store32 5 (-2) h' = .error (.invalidHeapAddress 5 4) h' ∧
      store32 (-1) (-2) h' = .error (.invalidHeapAddress (-1) 4) h' := by
  let h : Heap := { bytes := #[0, 0, 0, 0, 0, 0, 0, 128], cursor := 8 }
  let h' : Heap := { bytes := #[0, 0, 0, 0, 254, 255, 255, 255], cursor := 8 }
  have hcap : h.capacity ≤ Config.maxHeapSize := by decide
  have hstore : store32 4 (-2) h = .ok () h' := by rfl
  obtain ⟨-, -, -, hbytes, hafter, -⟩ := words_are_four_bytes hcap 4 (-2)
  obtain ⟨hload, hbeside, -⟩ := hafter h' hstore
  have hapart : ∀ k < 4, (3 : Word) ≠ 4 + Word.ofIndex k := by decide
  exact ⟨h, h', rfl, hcap, rfl, hstore, (hbytes h').mp hstore, hload, rfl, hbeside 3 hapart, rfl,
    rfl, rfl⟩

end Heap

end StackMachine
