import StackMachine.Proofs.Assembly.Reassembly

set_option autoImplicit false

/-! # What a listing shows

The lines of a listing lie one behind another over the whole program: each shows the words that
stand at its address, and the next line has the address behind these words (`Listing.Tiles`). So
every slot is shown once, on an instruction line or, from the first offset on that cannot be
decoded, on a line of its own. The text of a line is read back as the line (`Listing.Line.parse?`),
since the address ends with its `:`, a mnemonic never looks like `.word`, and numbers are written
in decimal. So a listing gives back its program, whatever words it contains
(`Program.listing_loses_nothing`).
-/

namespace StackMachine

open StackMachine.Text StackMachine.Assembly

namespace Listing

/-! ## The words of a line -/

/-- The words that a line stands for. -/
def Line.words : Line → List Word
  | .instruction _ i => i.encode
  | .word _ value => [value]

/-- The program that lines show from its start on. -/
def program (lines : List Line) : Program := (lines.flatMap Line.words).toArray

/-- The line covers the slot. -/
def Line.Covers (line : Line) (k : Nat) : Prop :=
  line.address ≤ k ∧ k < line.address + line.words.length

/-- The words of the line stand in the program at its address. -/
def Line.Shows (code : Program) (line : Line) : Prop :=
  code.toList.drop line.address =
    line.words ++ code.toList.drop (line.address + line.words.length)

/-- Lines that show the words from `low` up to `high`, one behind another. -/
def Tiles (code : Program) : Nat → List Line → Nat → Prop
  | low, [], high => low = high
  | low, line :: lines, high =>
    line.address = low ∧ line.Shows code ∧ Tiles code (low + line.words.length) lines high

theorem Line.words_length_pos (line : Line) : 0 < line.words.length := by
  cases line with
  | instruction address i => simp [words, Instruction.encode]
  | word address value => simp [words]

theorem Line.Shows.getElem? {code : Program} {line : Line} (h : line.Shows code) {k : Nat}
    (hk : k < line.words.length) : code[line.address + k]? = line.words[k]? := by
  rw [← Array.getElem?_toList, ← List.getElem?_drop, h, List.getElem?_append_left hk]

namespace Tiles

variable {code : Program} {low mid high : Nat} {lines lines' : List Line}

theorem append (h : Tiles code low lines mid) (h' : Tiles code mid lines' high) :
    Tiles code low (lines ++ lines') high := by
  induction lines generalizing low with
  | nil =>
      obtain rfl : low = mid := h
      exact h'
  | cons line lines ih =>
      obtain ⟨haddress, hshows, hrest⟩ := h
      exact ⟨haddress, hshows, ih hrest⟩

/-- Together the lines show all words between their ends. -/
theorem flatMap_words (h : Tiles code low lines high) :
    lines.flatMap Line.words ++ code.toList.drop high = code.toList.drop low := by
  induction lines generalizing low with
  | nil =>
      obtain rfl : low = high := h
      rfl
  | cons line lines ih =>
      obtain ⟨rfl, hshows, hrest⟩ := h
      rw [List.flatMap_cons, List.append_assoc, ih hrest, hshows]

theorem shows (h : Tiles code low lines high) {line : Line} (hline : line ∈ lines) :
    line.Shows code := by
  induction lines generalizing low with
  | nil => cases hline
  | cons first lines ih =>
      obtain ⟨-, hshows, hrest⟩ := h
      rcases List.mem_cons.mp hline with rfl | hline
      · exact hshows
      · exact ih hrest hline

theorem le (h : Tiles code low lines high) : low ≤ high := by
  induction lines generalizing low with
  | nil => exact Nat.le_of_eq h
  | cons line lines ih =>
      have hrest := ih h.2.2
      omega

theorem low_le (h : Tiles code low lines high) {line : Line} (hline : line ∈ lines) :
    low ≤ line.address := by
  induction lines generalizing low with
  | nil => cases hline
  | cons first lines ih =>
      obtain ⟨rfl, -, hrest⟩ := h
      rcases List.mem_cons.mp hline with rfl | hline
      · exact Nat.le_refl _
      · have hle := ih hrest hline
        omega

theorem le_high (h : Tiles code low lines high) {line : Line} (hline : line ∈ lines) :
    line.address + line.words.length ≤ high := by
  induction lines generalizing low with
  | nil => cases hline
  | cons first lines ih =>
      obtain ⟨rfl, -, hrest⟩ := h
      rcases List.mem_cons.mp hline with rfl | hline
      · exact hrest.le
      · exact ih hrest hline

/-- Each line ends before the next one begins. -/
theorem pairwise (h : Tiles code low lines high) :
    lines.Pairwise fun line later => line.address + line.words.length ≤ later.address := by
  induction lines generalizing low with
  | nil => exact .nil
  | cons line lines ih =>
      obtain ⟨rfl, -, hrest⟩ := h
      exact .cons (fun later hlater => hrest.low_le hlater) (ih hrest)

/-- **Every slot between the ends is covered by one line and no other.** -/
theorem existsUnique_covers (h : Tiles code low lines high) {k : Nat} (hlow : low ≤ k)
    (hhigh : k < high) : ∃! line, line ∈ lines ∧ line.Covers k := by
  induction lines generalizing low with
  | nil =>
      obtain rfl : low = high := h
      omega
  | cons line lines ih =>
      obtain ⟨rfl, -, hrest⟩ := h
      by_cases hfirst : k < line.address + line.words.length
      · -- the other lines begin behind the slot
        refine ⟨line, ⟨List.mem_cons_self, hlow, hfirst⟩, fun line' ⟨hmem, hcovers⟩ => ?_⟩
        rcases List.mem_cons.mp hmem with rfl | hmem
        · rfl
        · have hle := hrest.low_le hmem
          have hbegin := hcovers.1
          omega
      · obtain ⟨line', ⟨hmem, hcovers⟩, hunique⟩ := ih hrest (by omega)
        refine ⟨line', ⟨List.mem_cons_of_mem _ hmem, hcovers⟩, fun line'' ⟨hmem', hcovers'⟩ => ?_⟩
        rcases List.mem_cons.mp hmem' with rfl | hmem'
        · exact absurd hcovers'.2 hfirst
        · exact hunique line'' ⟨hmem', hcovers'⟩

end Tiles

end Listing

/-! ## The lines of a program -/

namespace Program

open Listing

/-- Where reading a program stops there is its end or no instruction. -/
theorem stop_walkFrom {code : Program} {offset : Nat} (h : offset ≤ code.size) :
    (code.walkFrom offset).stop = code.size ∨
      (code.walkFrom offset).stop < code.size ∧
        ∃ e, code.decode (code.walkFrom offset).stop = .error e := by
  induction offset using walkFrom.induct code with
  | case1 offset _ i hi ih =>
      rw [walkFrom_of_ok hi]
      exact ih (decode_fits hi)
  | case2 offset hlt e he =>
      rw [walkFrom_of_error hlt he]
      exact Or.inr ⟨hlt, e, he⟩
  | case3 offset hend =>
      rw [walkFrom_of_end hend]
      exact Or.inl (Nat.le_antisymm h (Nat.le_of_not_lt hend))

theorem tiles_walkFrom (code : Program) (offset : Nat) :
    Tiles code offset
      ((code.walkFrom offset).instructions.map fun entry => .instruction entry.1 entry.2)
      (code.walkFrom offset).stop := by
  induction offset using walkFrom.induct code with
  | case1 offset _ i hi ih =>
      rw [walkFrom_of_ok hi]
      refine ⟨rfl, ?_, ?_⟩
      · rw [Line.Shows, Line.words, Line.address, Instruction.length_encode]
        exact encode_of_decode hi
      · rw [Line.words, Instruction.length_encode]
        exact ih
  | case2 offset hlt e he =>
      rw [walkFrom_of_error hlt he]
      rfl
  | case3 offset hend =>
      rw [walkFrom_of_end hend]
      rfl

/-- Each slot that is left is shown on a line of its own. -/
theorem tiles_words {code : Program} {offset : Nat} {values : List Word}
    (hle : offset ≤ code.size) (h : code.toList.drop offset = values) :
    Tiles code offset (values.mapIdx fun k value => .word (offset + k) value) code.size := by
  induction values generalizing offset with
  | nil =>
      rw [List.drop_eq_nil_iff, Array.length_toList] at h
      exact Nat.le_antisymm hle h
  | cons value values ih =>
      have hlt : offset < code.size := by
        by_contra hge
        rw [List.drop_of_length_le (by simpa using hge)] at h
        cases h
      have hrest : code.toList.drop (offset + 1) = values := by
        rw [← List.tail_drop, h, List.tail_cons]
      have hlines : (fun k value => Line.word (offset + (k + 1)) value) =
          fun k value => Line.word (offset + 1 + k) value := by
        funext k value
        rw [Nat.add_assoc, Nat.add_comm 1 k]
      rw [List.mapIdx_cons, hlines]
      refine ⟨rfl, ?_, ih hlt hrest⟩
      rw [Line.Shows]
      show code.toList.drop offset = [value] ++ code.toList.drop (offset + 1)
      rw [h, hrest, List.singleton_append]

/-- **The lines of a listing lie one behind another over the whole program.** -/
theorem tiles_lines (code : Program) : Tiles code 0 code.lines code.size := by
  have hle : code.walk.stop ≤ code.size := by
    rcases stop_walkFrom (Nat.zero_le code.size) with hstop | ⟨hstop, -⟩
    · exact Nat.le_of_eq hstop
    · exact Nat.le_of_lt hstop
  exact (code.tiles_walkFrom 0).append (tiles_words hle rfl)

/-- The lines of a program give its words. -/
theorem program_lines (code : Program) : Listing.program code.lines = code := by
  have hwords := code.tiles_lines.flatMap_words
  have hend : code.toList.drop code.size = [] := List.drop_of_length_le (Nat.le_refl _)
  rw [hend, List.append_nil, List.drop_zero] at hwords
  rw [Listing.program, hwords]

theorem mem_lines_instruction {code : Program} {address : Nat} {i : Instruction} :
    .instruction address i ∈ code.lines ↔ (address, i) ∈ code.walk.instructions := by
  simp [lines]

theorem mem_lines_word {code : Program} {address : Nat} {value : Word} :
    .word address value ∈ code.lines ↔
      code.walk.stop ≤ address ∧ code[address]? = some value := by
  have hslots : .word address value ∈ code.lines ↔
      ∃ k, code.toList[code.walk.stop + k]? = some value ∧ code.walk.stop + k = address := by
    rw [lines, List.mem_append, List.mem_iff_getElem?, List.mem_iff_getElem?]
    simp [List.getElem?_mapIdx, and_comm]
  rw [hslots, ← Array.getElem?_toList]
  constructor
  · rintro ⟨k, hvalue, rfl⟩
    exact ⟨Nat.le_add_right _ _, hvalue⟩
  · rintro ⟨hle, hvalue⟩
    have hsum : code.walk.stop + (address - code.walk.stop) = address := by omega
    exact ⟨address - code.walk.stop, by rw [hsum, hvalue], hsum⟩

end Program

/-! ## Reading a listing -/

namespace Listing

/-- Read a word in decimal. -/
def word? (text : List Char) : Option Word := (Numeral.signed? 10 text).bind Word.ofInt?

/-- Read an instruction: a mnemonic, with a space and a word behind it if the opcode takes one. -/
def instruction? (text : List Char) : Option Instruction :=
  (Opcode.ofMnemonic? (String.ofList (text.takeWhile (· ≠ ' ')))).bind fun opcode =>
    match opcode.form, text.dropWhile (· ≠ ' ') with
    | .plain i, [] => some i
    | .immediate f, ' ' :: digits => (word? digits).map f
    | _, _ => none

/-- Read what a line shows behind its address. -/
def Line.ofBody? (address : Nat) : List Char → Option Line
  | '.' :: 'w' :: 'o' :: 'r' :: 'd' :: ' ' :: digits => (word? digits).map (.word address)
  | text => (instruction? text).map (.instruction address)

/-- Read a line without its newline. -/
def Line.parse? (text : List Char) : Option Line :=
  (Numeral.value? 10 ((text.takeWhile (· ≠ ':')).dropWhile (· = ' '))).bind fun address =>
    ofBody? address (content text)

/-- Read the lines of a listing, all of which end with a newline. -/
def parse? (listing : String) : Option (List Line) :=
  (splitLines listing.toList).dropLast.mapM Line.parse?

theorem word?_text (w : Word) : word? w.text.toList = some w := by
  have hwrites := Numeral.writes_toDigits (by decide : 1 < 10) (by decide)
  have hsigned : Numeral.WritesSigned 10 w.text.toList w.toInt := by
    rw [Word.toList_text]
    split
    · next hsign =>
        have hvalue := Numeral.WritesSigned.unsigned (hwrites w.toInt.toNat)
        rwa [Int.toNat_of_nonneg hsign] at hvalue
    · next hsign =>
        have hvalue := Numeral.WritesSigned.minus (hwrites (-w.toInt).toNat)
        rwa [Int.toNat_of_nonneg (by omega), Int.neg_neg] at hvalue
  rw [word?, (Numeral.signed?_eq_some_iff (by decide)).mpr hsigned, Option.bind_some,
    Word.ofInt?_toInt]

/-- A mnemonic ends at the space behind it. -/
theorem span_mnemonic (op : Opcode) {rest : List Char} (h : ∀ c ∈ rest.head?, c = ' ') :
    (op.mnemonic.toList ++ rest).takeWhile (· ≠ ' ') = op.mnemonic.toList ∧
      (op.mnemonic.toList ++ rest).dropWhile (· ≠ ' ') = rest := by
  have hname : ∀ c ∈ op.mnemonic.toList, decide (c ≠ ' ') = true := by
    intro c hc
    have hplain := isPlain_of_mem_identifier (isIdentifier_mnemonic op) hc
    rw [decide_eq_true_eq]
    rintro rfl
    revert hplain
    decide
  rw [List.takeWhile_append_of_pos hname, List.dropWhile_append_of_pos hname]
  cases rest with
  | nil => simp
  | cons c cs =>
      obtain rfl := h c rfl
      simp

theorem instruction?_text (i : Instruction) : instruction? i.text.toList = some i := by
  rcases i.form_opcode with ⟨hoperand, hform⟩ | ⟨f, w, hoperand, hform, hi⟩
  · have hnone : ∀ c ∈ ([] : List Char).head?, c = ' ' := nofun
    obtain ⟨hname, hrest⟩ := span_mnemonic i.opcode hnone
    have htext : i.text.toList = i.opcode.mnemonic.toList ++ [] := by
      simp [Instruction.text, hoperand]
    rw [instruction?, htext, hname, hrest, String.ofList_toList, Opcode.ofMnemonic?_mnemonic,
      Option.bind_some, hform]
  · have hspace : ∀ c ∈ (' ' :: w.text.toList).head?, c = ' ' := by simp
    obtain ⟨hname, hrest⟩ := span_mnemonic i.opcode hspace
    have htext : i.text.toList = i.opcode.mnemonic.toList ++ ' ' :: w.text.toList := by
      simp [Instruction.text, hoperand]
    rw [instruction?, htext, hname, hrest, String.ofList_toList, Opcode.ofMnemonic?_mnemonic,
      Option.bind_some, hform]
    show (word? w.text.toList).map f = some i
    rw [word?_text, Option.map_some, hi]

namespace Line

theorem ofBody?_body (line : Line) : ofBody? line.address line.body = some line := by
  cases line with
  | word address value =>
      rw [body, ofBody?, word?_text]
      rfl
  | instruction address i =>
      -- the text of an instruction begins with a letter
      have hdot : ∀ cs, i.text.toList ≠ '.' :: cs := by
        intro cs hcons
        have hprefix : i.opcode.mnemonic.toList <+: i.text.toList := by
          unfold Instruction.text
          split <;> simp
        have hname := isIdentifier_mnemonic i.opcode
        cases hmnemonic : i.opcode.mnemonic.toList with
        | nil =>
            rw [hmnemonic] at hname
            cases hname
        | cons c name =>
            rw [hmnemonic, hcons, List.cons_prefix_cons] at hprefix
            rw [hmnemonic, hprefix.1, isIdentifier_cons] at hname
            cases hname.1
      rw [body, ofBody?, instruction?_text]
      · rfl
      · exact fun digits hbody => hdot _ hbody

theorem parse?_chars (line : Line) : parse? line.chars = some line := by
  have haddress : (line.chars.takeWhile (· ≠ ':')).dropWhile (· = ' ') =
      Nat.toDigits 10 line.address := by
    have hdigits : ∀ c ∈ (Nat.toDigits 10 line.address).head?, c ≠ ' ' := by
      intro c hc
      have hdigit := isDigit_of_mem_toDigits (List.mem_of_mem_head? hc)
      rintro rfl
      cases hdigit
    rw [chars, (span_column line.address _).1, column, padLeft, String.toList_append,
      String.toList_ofList, List.dropWhile_append_of_pos (by simp), Nat.toString_eq_repr,
      Nat.toList_repr]
    cases hcons : Nat.toDigits 10 line.address with
    | nil => rfl
    | cons c cs =>
        rw [hcons] at hdigits
        simp [hdigits c rfl]
  rw [parse?, haddress, Numeral.value?_toDigits (by decide) (by decide), Option.bind_some, chars,
    content_line, ofBody?_body]

end Line

/-- **A listing is read back as the lines of its program.** -/
theorem parse?_listing (code : Program) : parse? code.listing = some code.lines := by
  have hlines : (Line.parse? ∘ Line.chars) = fun line => pure line := by
    funext line
    rw [Function.comp_apply, line.parse?_chars]
    rfl
  rw [parse?, Program.splitLines_listing, List.dropLast_concat, List.mapM_map, hlines,
    List.mapM_pure, List.map_id']
  rfl

end Listing

/-- **A listing loses nothing.** It is read back as lines whose words are the program, so programs
with the same listing are the same. The addresses increase from line to line, and every slot is
covered by one line and no other: an instruction line covers the words of the instruction that is
decoded at its address, and from the first offset on at which nothing can be decoded each slot has
a line of its own with its value. -/
theorem Program.listing_loses_nothing (code : Program) :
    Listing.parse? code.listing = some code.lines ∧ Listing.program code.lines = code ∧
    (∀ code' : Program, code.listing = code'.listing → code = code') ∧
    code.lines.Pairwise (fun line later => line.address < later.address) ∧
    (∀ k < code.size, ∃! line, line ∈ code.lines ∧ line.Covers k) ∧
    (∀ address i, .instruction address i ∈ code.lines →
      code.decode address = .ok i ∧ address + i.width ≤ code.walk.stop ∧
      (∀ k, Listing.Line.Covers (.instruction address i) k ↔
        address ≤ k ∧ k < address + i.width) ∧
      ∀ k < i.width, code[address + k]? = i.encode[k]?) ∧
    (∀ address value, .word address value ∈ code.lines ↔
      code.walk.stop ≤ address ∧ code[address]? = some value) ∧
    (code.walk.stop = code.size ∨
      code.walk.stop < code.size ∧ ∃ e, code.decode code.walk.stop = .error e) := by
  refine ⟨Listing.parse?_listing code, code.program_lines, fun code' hlisting => ?_,
    code.tiles_lines.pairwise.imp fun {line later} hle => ?_,
    fun k hk => code.tiles_lines.existsUnique_covers (Nat.zero_le k) hk, fun address i hline => ?_,
    fun address value => mem_lines_word, stop_walkFrom (Nat.zero_le _)⟩
  · have hlines : some code.lines = some code'.lines := by
      rw [← Listing.parse?_listing, ← Listing.parse?_listing, hlisting]
    rw [← code.program_lines, ← code'.program_lines, Option.some.inj hlines]
  · have hpos := line.words_length_pos
    omega
  · have hmem := mem_lines_instruction.mp hline
    have hwidth : (Listing.Line.instruction address i).words.length = i.width := i.length_encode
    have hshows := code.tiles_lines.shows hline
    have hstop := (code.tiles_walkFrom 0).le_high (List.mem_map_of_mem hmem)
    refine ⟨decode_of_mem_walkFrom hmem, ?_, fun k => ?_, fun k hk => ?_⟩
    · rw [hwidth] at hstop
      exact hstop
    · rw [Listing.Line.Covers, hwidth]
      rfl
    · exact hshows.getElem? (by rw [hwidth]; exact hk)

/-- A word that is no opcode, and behind it a `PUSH`, a negative word and a `PUSH` without an
operand: all of them are shown as bare slots. -/
theorem Program.listing_loses_nothing_malformed :
    Program.listing #[6, 0, 99, 1, -1, 1] =
        "    0: JMP 0\n    2: .word 99\n    3: .word 1\n    4: .word -1\n    5: .word 1\n" ∧
      Listing.parse?
          "    0: JMP 0\n    2: .word 99\n    3: .word 1\n    4: .word -1\n    5: .word 1\n" =
        some (Program.lines #[6, 0, 99, 1, -1, 1]) ∧
      (∀ k, Listing.Line.Covers (.instruction 0 (.jmp 0)) k ↔ 0 ≤ k ∧ k < 2) ∧
      .word 4 (-1) ∈ Program.lines #[6, 0, 99, 1, -1, 1] ∧
      Program.listing #[5, 1] = "    0: PRINT\n    1: .word 1\n" := by
  have htext : Program.listing #[6, 0, 99, 1, -1, 1] =
      "    0: JMP 0\n    2: .word 99\n    3: .word 1\n    4: .word -1\n    5: .word 1\n" := by
    decide +kernel
  have hjump : Listing.Line.instruction 0 (.jmp 0) ∈ Program.lines #[6, 0, 99, 1, -1, 1] := by
    decide +kernel
  have hstop : (Program.walk #[6, 0, 99, 1, -1, 1]).stop = 2 := by decide +kernel
  obtain ⟨hparse, -, -, -, -, hinstruction, hword, -⟩ :=
    Program.listing_loses_nothing #[6, 0, 99, 1, -1, 1]
  rw [htext] at hparse
  refine ⟨htext, hparse, (hinstruction 0 _ hjump).2.2.1, ?_, by decide +kernel⟩
  exact (hword 4 (-1)).mpr ⟨by rw [hstop]; decide, rfl⟩

end StackMachine
