import StackMachine.Heap.Dump
import StackMachine.Proofs.Assembly.Lines
import StackMachine.Proofs.Heap.Access
import StackMachine.Proofs.Text.Numeral

set_option autoImplicit false

/-! # What a heap dump shows

A dump is a slice of the heap in another form: it fails where the slice fails, and otherwise its
bytes are read back from the dump (`Heap.dump_shows_slice`). A line shows a row of bytes behind the
address of the first of them (`Heap.ShowsRow`). Addresses and bytes are written in columns of a
fixed width (`Text.IsColumn`): a byte fits into two hexadecimal digits, and an address in a heap
into eight, since a heap is much smaller than `16 ^ 8` bytes.

The rows divide the slice without a gap (`Heap.flatMap_dumpRow`), so the digits of all lines, one
line after another, are the digits of the slice.
-/

namespace StackMachine

/-! ## Columns of digits -/

namespace Text

open Numeral

/-- The text is `n` in `width` hexadecimal digits, with letters in lower case. -/
structure IsColumn (width : Nat) (text : List Char) (n : Nat) : Prop where
  length : text.length = width
  writes : Writes 16 text n
  lower : ∀ c ∈ text, c.isUpper = false

theorem isUpper_of_mem_toDigits {n : Nat} {c : Char} (h : c ∈ Nat.toDigits 16 n) :
    c.isUpper = false := by
  have hdigit : ∀ d < 16, d.digitChar.isUpper = false := by decide
  induction n using Nat.strongRecOn with
  | ind n ih =>
      by_cases hn : n < 16
      · rw [Nat.toDigits_of_lt_base hn, List.mem_singleton] at h
        rw [h]
        exact hdigit n hn
      · rw [Nat.toDigits_of_base_le (by decide) (by omega), List.mem_append,
          List.mem_singleton] at h
        rcases h with h | rfl
        · exact ih (n / 16) (by omega) h
        · exact hdigit (n % 16) (by omega)

/-- A number that is not too large fills a column. -/
theorem isColumn_padLeft {width n : Nat} (hwidth : 0 < width) (hn : n < 16 ^ width) :
    IsColumn width (padLeft width '0' (String.ofList (Nat.toDigits 16 n))).toList n := by
  have hlength := (Nat.length_toDigits_le_iff (by decide) hwidth).mpr hn
  rw [padLeft, String.toList_append, String.toList_ofList, String.toList_ofList,
    String.length_ofList]
  refine ⟨?_, (writes_toDigits (by decide) (by decide) n).zeros (by decide) _, fun c hc => ?_⟩
  · rw [List.length_append, List.length_replicate]
    omega
  · rcases List.mem_append.mp hc with hc | hc
    · rw [List.eq_of_mem_replicate hc]
      rfl
    · exact isUpper_of_mem_toDigits hc

theorem IsColumn.newline_not_mem {width n : Nat} {text : List Char} (h : IsColumn width text n) :
    '\n' ∉ text := by
  intro hmem
  obtain ⟨d, hd⟩ := h.writes.isDigit_of_mem hmem
  rw [← digit?_eq_some_iff (by decide)] at hd
  cases hd

end Text

namespace Heap

open Text Assembly

/-! ## Bytes as digits -/

/-- Read bytes, each from two hexadecimal digits. -/
def readBytes? : List Char → Option (List UInt8)
  | [] => some []
  | [_] => none
  | high :: low :: digits => do
    let n ← Numeral.value? 16 [high, low]
    let bytes ← readBytes? digits
    return UInt8.ofNat n :: bytes

/-- The digits of the bytes of a row. -/
def rowDigits (row : List UInt8) : List Char := row.flatMap fun b => (byteDigits b).toList

theorem isColumn_byteDigits (b : UInt8) : IsColumn 2 (byteDigits b).toList b.toNat :=
  isColumn_padLeft (by decide) b.toNat_lt

/-- **Bytes are read back from their digits.** -/
theorem readBytes?_rowDigits (row : List UInt8) : readBytes? (rowDigits row) = some row := by
  induction row with
  | nil => rfl
  | cons b row ih =>
      -- a column of width two is a pair of characters, which the reader takes off together
      have hcolumn := isColumn_byteDigits b
      obtain ⟨high, low, hdigits⟩ := List.length_eq_two.mp hcolumn.length
      have hvalue : Numeral.value? 16 [high, low] = some b.toNat := by
        rw [← hdigits]
        exact (Numeral.value?_eq_some_iff (by decide)).mpr hcolumn.writes
      have hcons : rowDigits (b :: row) = high :: low :: rowDigits row := by
        rw [rowDigits, List.flatMap_cons, hdigits]
        rfl
      rw [hcons, readBytes?, hvalue, ih]
      show some (UInt8.ofNat b.toNat :: row) = some (b :: row)
      rw [UInt8.ofNat_toNat]

theorem newline_not_mem_rowDigits (row : List UInt8) : '\n' ∉ rowDigits row := by
  intro hmem
  obtain ⟨b, -, hb⟩ := List.mem_flatMap.mp hmem
  exact (isColumn_byteDigits b).newline_not_mem hb

/-! ## Rows -/

theorem dumpRow_eq (bytes : List UInt8) (line : Nat) :
    dumpRow bytes.toArray line = (bytes.drop (16 * line)).take 16 := by
  rw [dumpRow, Array.toList_extract, List.extract_eq_take_drop, Nat.add_sub_cancel_left]

/-- Every row but the last is full. -/
theorem length_dumpRow {bytes : List UInt8} {line : Nat}
    (hline : line + 1 < dumpHeight bytes.length) : (dumpRow bytes.toArray line).length = 16 := by
  rw [dumpRow_eq, List.length_take, List.length_drop]
  unfold dumpHeight at hline
  omega

/-- The first rows show the first bytes, and no byte twice. -/
theorem flatMap_dumpRow_range (bytes : List UInt8) (height : Nat) :
    (List.range height).flatMap (dumpRow bytes.toArray) = bytes.take (16 * height) := by
  induction height with
  | zero => simp
  | succ height ih =>
      rw [List.range_succ, List.flatMap_append, ih, List.flatMap_singleton, dumpRow_eq,
        Nat.mul_succ, List.take_add]

/-- **Together the rows are the bytes.** -/
theorem flatMap_dumpRow (bytes : List UInt8) :
    (List.range (dumpHeight bytes.length)).flatMap (dumpRow bytes.toArray) = bytes := by
  rw [flatMap_dumpRow_range]
  apply List.take_of_length_le
  unfold dumpHeight
  omega

/-! ## Lines -/

/-- A line without its newline. -/
def lineChars (address : Nat) (row : List UInt8) : List Char :=
  (padLeft 8 '0' (String.ofList (Nat.toDigits 16 address))).toList ++ ':' :: ' ' :: rowDigits row

/-- What a line shows behind its address. -/
def lineDigits (line : List Char) : List Char := line.drop 10

/-- The line is an address in eight digits, a colon, a space, and the digits of a row. -/
structure ShowsRow (line : List Char) (address : Nat) (row : List UInt8) : Prop where
  address : IsColumn 8 (line.take 8) address
  separator : (line.drop 8).take 2 = [':', ' ']
  row : readBytes? (lineDigits line) = some row

theorem toList_dumpLine (address : Nat) (row : List UInt8) :
    (dumpLine address row).toList = lineChars address row ++ ['\n'] := by
  simp [dumpLine, lineChars, rowDigits, String.toList_join, List.flatMap_map]

section

variable {address : Nat} (haddress : address < 16 ^ 8) (row : List UInt8)

include haddress

theorem lineDigits_lineChars : lineDigits (lineChars address row) = rowDigits row := by
  have hcolumn := isColumn_padLeft (by decide) haddress
  rw [lineDigits, lineChars, List.drop_append, List.drop_of_length_le, hcolumn.length]
  · rfl
  · rw [hcolumn.length]
    decide

theorem showsRow_lineChars : ShowsRow (lineChars address row) address row := by
  have hcolumn := isColumn_padLeft (by decide) haddress
  refine ⟨?_, ?_, ?_⟩
  · rw [lineChars, List.take_left' hcolumn.length]
    exact hcolumn
  · rw [lineChars, List.drop_left' hcolumn.length]
    rfl
  · rw [lineDigits_lineChars haddress, readBytes?_rowDigits]

theorem newline_not_mem_lineChars : '\n' ∉ lineChars address row := by
  have hcolumn := isColumn_padLeft (by decide) haddress
  simp [lineChars, hcolumn.newline_not_mem, newline_not_mem_rowDigits]

end

/-! ## The dump -/

variable {h : Heap} {address : Word} {size start i : Nat} {bytes : List UInt8}

/-- The lines of a dump of bytes from a position on, without their newlines. -/
def dumpLines (start : Nat) (bytes : List UInt8) : List (List Char) :=
  (List.range (dumpHeight bytes.length)).map fun i =>
    lineChars (start + 16 * i) (dumpRow bytes.toArray i)

theorem dump_eq_error_iff {fault : Fault} :
    h.dump address size = .error fault ↔ h.slice address size = .error fault := by
  unfold dump
  cases h.slice address size with
  | ok bytes => exact ⟨nofun, nofun⟩
  | error other =>
      show (Except.error other : Except Fault String) = .error fault ↔ _
      rw [Except.error.injEq, Except.error.injEq]

/-- The dump of a slice consists of its lines, each with a newline behind it. -/
theorem exists_dump (hslice : h.slice address bytes.length = .ok bytes) :
    ∃ text, h.dump address bytes.length = .ok text ∧
      text.toList = (dumpLines address.toInt.toNat bytes).flatMap (· ++ ['\n']) := by
  unfold dump
  rw [hslice]
  refine ⟨_, rfl, ?_⟩
  simp only [String.toList_join, dumpLines, List.flatMap_map, toList_dumpLine]

theorem length_dumpLines (start : Nat) (bytes : List UInt8) :
    (dumpLines start bytes).length = dumpHeight bytes.length := by
  rw [dumpLines, List.length_map, List.length_range]

/-- Eight digits are enough for every address in a heap. -/
theorem address_lt (hcap : h.capacity ≤ Config.maxHeapSize) (hroom : start + size ≤ h.capacity)
    (hi : i < dumpHeight size) : start + 16 * i < 16 ^ 8 := by
  unfold Config.maxHeapSize at hcap
  unfold dumpHeight at hi
  omega

section

variable (hcap : h.capacity ≤ Config.maxHeapSize) (hroom : start + bytes.length ≤ h.capacity)

include hcap hroom

theorem splitLines_dumpLines :
    splitLines ((dumpLines start bytes).flatMap (· ++ ['\n'])) =
      dumpLines start bytes ++ [[]] := by
  apply splitLines_flatMap
  intro line hline
  obtain ⟨i, hi, rfl⟩ := List.mem_map.mp hline
  exact newline_not_mem_lineChars (address_lt hcap hroom (List.mem_range.mp hi)) _

theorem showsRow_dumpLines {line : List Char} (hline : (dumpLines start bytes)[i]? = some line) :
    ∃ row, ShowsRow line (start + 16 * i) row ∧
      (i + 1 < (dumpLines start bytes).length → row.length = 16) := by
  have hi : i < dumpHeight bytes.length := by
    rw [← length_dumpLines start bytes]
    exact (List.getElem?_eq_some_iff.mp hline).1
  rw [dumpLines, List.getElem?_map, List.getElem?_range hi, Option.map_some, Option.some.injEq]
    at hline
  subst hline
  refine ⟨_, showsRow_lineChars (address_lt hcap hroom hi) _, fun hnext => ?_⟩
  rw [length_dumpLines] at hnext
  exact length_dumpRow hnext

/-- **The digits of all lines are read as the bytes of the slice.** -/
theorem readBytes?_dumpLines :
    readBytes? ((dumpLines start bytes).flatMap lineDigits) = some bytes := by
  have hdigits : (dumpLines start bytes).flatMap lineDigits = rowDigits bytes := by
    calc (dumpLines start bytes).flatMap lineDigits
        = (List.range (dumpHeight bytes.length)).flatMap fun i =>
            lineDigits (lineChars (start + 16 * i) (dumpRow bytes.toArray i)) := by
          rw [dumpLines, List.flatMap_map]
      _ = (List.range (dumpHeight bytes.length)).flatMap fun i =>
            rowDigits (dumpRow bytes.toArray i) := by
          refine List.flatMap_congr fun i hi => ?_
          exact lineDigits_lineChars (address_lt hcap hroom (List.mem_range.mp hi)) _
      _ = rowDigits ((List.range (dumpHeight bytes.length)).flatMap (dumpRow bytes.toArray)) :=
          List.flatMap_assoc.symm
      _ = rowDigits bytes := by rw [flatMap_dumpRow]
  rw [hdigits, readBytes?_rowDigits]

end

/-- **A dump shows a slice.** It fails exactly where the slice fails, and with the same fault.
Otherwise it has a line for every sixteen bytes and one for those that are left, and nothing stands
behind the last newline. Each line begins with the address of its first byte in eight digits, and
every line but the last shows sixteen bytes. The digits behind the addresses, one line after
another, are read as the bytes of the slice. -/
theorem dump_shows_slice {h : Heap} (hcap : h.capacity ≤ Config.maxHeapSize) (address : Word)
    (size : Nat) :
    (∀ fault, h.dump address size = .error fault ↔ h.slice address size = .error fault) ∧
    ∀ bytes, h.slice address size = .ok bytes →
      ∃ (start : Nat) (text : String) (lines : List (List Char)),
        address.toInt = start ∧ h.dump address size = .ok text ∧
        splitLines text.toList = lines ++ [[]] ∧ lines.length = (size + 15) / 16 ∧
        (∀ i line, lines[i]? = some line → ∃ row, ShowsRow line (start + 16 * i) row ∧
          (i + 1 < lines.length → row.length = 16)) ∧
        readBytes? (lines.flatMap lineDigits) = some bytes := by
  refine ⟨fun fault => dump_eq_error_iff, fun bytes hslice => ?_⟩
  obtain ⟨start, hindex, hroom, hbytes⟩ := slice_eq_ok_iff.mp hslice
  have hstart : address.toInt = start := Word.index?_eq_some_iff.mp hindex
  have hsize : bytes.length = size := by
    have hinside : start + size ≤ h.bytes.size := hroom
    rw [hbytes, Array.length_toList, Array.size_extract]
    omega
  subst hsize
  obtain ⟨text, hdump, htext⟩ := exists_dump hslice
  rw [hstart, Int.toNat_natCast] at htext
  refine ⟨start, text, dumpLines start bytes, hstart, hdump, ?_, length_dumpLines start bytes,
    fun i line => showsRow_dumpLines hcap hroom, readBytes?_dumpLines hcap hroom⟩
  rw [htext, splitLines_dumpLines hcap hroom]

/-- Seventeen bytes up to the end of a heap: the last of them has a line of its own. One byte more
is not there, and before the heap there is no slice, not even an empty one. -/
theorem dump_shows_slice_two_lines :
    ∃ h : Heap, h.capacity = 20 ∧ h.capacity ≤ Config.maxHeapSize ∧
      h.dump 3 17 = .ok "00000003: 0a0b0c0dff00000000000000000080c0\n00000013: 7f\n" ∧
      (∃ lines,
        splitLines "00000003: 0a0b0c0dff00000000000000000080c0\n00000013: 7f\n".toList =
          lines ++ [[]] ∧
        lines.length = 2 ∧
        (∀ i line, lines[i]? = some line → IsColumn 8 (line.take 8) (3 + 16 * i)) ∧
        readBytes? (lines.flatMap lineDigits) =
          some [10, 11, 12, 13, 255, 0, 0, 0, 0, 0, 0, 0, 0, 0, 128, 192, 127]) ∧
      h.dump 20 0 = .ok "" ∧
      h.dump 3 18 = .error (.invalidHeapAddress 3 18) ∧
      h.dump (-1) 0 = .error (.invalidHeapAddress (-1) 0) := by
  let h : Heap :=
    { bytes := #[1, 2, 3, 10, 11, 12, 13, 255, 0, 0, 0, 0, 0, 0, 0, 0, 0, 128, 192, 127] }
  have hcap : h.capacity ≤ Config.maxHeapSize := by decide
  have hslice : h.slice 3 17 =
      .ok [10, 11, 12, 13, 255, 0, 0, 0, 0, 0, 0, 0, 0, 0, 128, 192, 127] := by decide +kernel
  have hdump : h.dump 3 17 =
      .ok "00000003: 0a0b0c0dff00000000000000000080c0\n00000013: 7f\n" := by decide +kernel
  have hbehind : h.slice 3 18 = .error (.invalidHeapAddress 3 18) := by decide +kernel
  have hbefore : h.slice (-1) 0 = .error (.invalidHeapAddress (-1) 0) := by decide +kernel
  obtain ⟨start, text, lines, hstart, htext, hlines, hheight, hrows, hbytes⟩ :=
    (dump_shows_slice hcap 3 17).2 _ hslice
  rw [hdump, Except.ok.injEq] at htext
  subst htext
  have hthree : (3 : Word).toInt = 3 := by decide
  obtain rfl : start = 3 := by omega
  refine ⟨h, rfl, hcap, hdump, ⟨lines, hlines, hheight, fun i line hline => ?_, hbytes⟩,
    by decide +kernel, ((dump_shows_slice hcap 3 18).1 _).mpr hbehind,
    ((dump_shows_slice hcap (-1) 0).1 _).mpr hbefore⟩
  obtain ⟨row, hrow, -⟩ := hrows i line hline
  exact hrow.address

end Heap

end StackMachine
