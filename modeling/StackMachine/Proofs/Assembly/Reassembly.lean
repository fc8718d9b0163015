import StackMachine.Program.Listing
import StackMachine.Proofs.Assembly.Writing

set_option autoImplicit false

/-! # Assembling a listing

A program that can be read to its end is given back by assembling its instructions, written one
to a line (`Program.reassembles`). These lines are what its listing shows behind the addresses.
Every operand of such a text is a number, so the layout needs no labels and the offsets of the
instructions do not matter: the words are those of the instructions in order.
-/

namespace StackMachine

open StackMachine.Text StackMachine.Assembly

/-! ## The text of a program -/

/-- The instruction of an entry with a number for an operand. -/
def Instruction.entry (i : Instruction) : Entry := .instruction i.opcode (i.operand.map .literal)

/-- The instructions of a program, one to a line. -/
def Program.assembly (code : Program) : String :=
  String.join (code.walk.instructions.map fun entry => entry.2.text ++ "\n")

namespace Instruction

theorem text_entry (i : Instruction) : i.entry.text = i.text := by
  unfold entry text
  cases i.operand <;> rfl

theorem writable_entry (i : Instruction) : i.entry.Writable := by
  refine ⟨?_, fun operand hoperand => ?_⟩
  · rw [Option.isSome_map]
    cases i <;> rfl
  · obtain ⟨w, -, rfl⟩ := Option.map_eq_some_iff.mp hoperand
    exact trivial

end Instruction

theorem Program.assembly_eq_source (code : Program) :
    code.assembly = source ((code.walk.instructions.map Prod.snd).map Instruction.entry) := by
  simp [assembly, source, Instruction.text_entry, Function.comp_def]

/-! ## Assembling it -/

namespace Assembly.Layout

/-- The words of a statement with a number for an operand are those of its instruction. -/
theorem encode_entry (layout : Layout) (number : Nat) (i : Instruction) :
    layout.encode ⟨number, i.opcode, i.operand.map .literal⟩ = .ok i.encode := by
  unfold encode Instruction.encode
  cases i.operand <;> rfl

theorem mapM_encode_entries (layout : Layout) (number : Nat) (is : List Instruction) :
    (numbered number (is.map Instruction.entry)).mapM layout.encode =
      .ok (is.map Instruction.encode) := by
  induction is generalizing number with
  | nil => rfl
  | cons i is ih =>
      rw [List.map_cons, Instruction.entry, numbered, List.mapM_cons, encode_entry, ih]
      rfl

/-- Entries that define no label are all added. -/
theorem addAll_entries (layout : Layout) (number : Nat) (is : List Instruction) :
    ∃ layout', layout.addAll number (is.map Instruction.entry) = .ok layout' := by
  induction is generalizing layout number with
  | nil => exact ⟨layout, rfl⟩
  | cons i is ih => exact ih (layout.append _) (number + 1)

end Assembly.Layout

/-- **Instructions written one to a line are assembled to their words.** -/
theorem Assembly.assemble_entries (is : List Instruction) :
    assemble (source (is.map Instruction.entry)) =
      .ok (is.flatMap Instruction.encode).toArray := by
  have hwritable : ∀ e ∈ is.map Instruction.entry, e.Writable := by
    intro e he
    obtain ⟨i, -, rfl⟩ := List.mem_map.mp he
    exact i.writable_entry
  obtain ⟨table, htable⟩ := Layout.addAll_entries {} 1 is
  have hstatements : table.statements.toList = Layout.numbered 1 (is.map Instruction.entry) :=
    Layout.statements_addAll htable
  have hemit : table.emit = .ok (is.map Instruction.encode).flatten.toArray := by
    rw [Layout.emit, hstatements, Layout.mapM_encode_entries]
    rfl
  rw [assemble, layout_source hwritable, htable, List.flatMap_def]
  exact hemit

/-! ## The listing without its addresses -/

namespace Listing

/-- What a line of a listing shows behind the address. -/
def content (line : List Char) : List Char := (line.dropWhile (· ≠ ':')).drop 2

/-- A listing with the column of addresses removed. -/
def withoutAddresses (listing : String) : String :=
  String.ofList (['\n'].intercalate ((splitLines listing.toList).map content))

/-- The column of an address. -/
def column (address : Nat) : List Char := (padLeft 5 ' ' (toString address)).toList

theorem isDigit_or_space_of_mem_column {address : Nat} {c : Char} (h : c ∈ column address) :
    c.isDigit = true ∨ c = ' ' := by
  simp only [column, padLeft, String.toList_append, String.toList_ofList, List.mem_append,
    List.mem_replicate, Nat.toString_eq_repr, Nat.toList_repr] at h
  rcases h with ⟨-, rfl⟩ | h
  · exact Or.inr rfl
  · exact Or.inl (isDigit_of_mem_toDigits h)

/-- The column of an address ends at the `:`. -/
theorem span_column (address : Nat) (rest : List Char) :
    (column address ++ ':' :: rest).takeWhile (· ≠ ':') = column address ∧
      (column address ++ ':' :: rest).dropWhile (· ≠ ':') = ':' :: rest := by
  have hcolumn : ∀ c ∈ column address, decide (c ≠ ':') = true := by
    intro c hc
    rcases isDigit_or_space_of_mem_column hc with hdigit | rfl
    · simp only [decide_eq_true_eq]
      rintro rfl
      cases hdigit
    · decide
  rw [List.takeWhile_append_of_pos hcolumn, List.dropWhile_append_of_pos hcolumn]
  simp

theorem content_line (address : Nat) (text : List Char) :
    content (column address ++ ':' :: ' ' :: text) = text := by
  rw [content, (span_column address (' ' :: text)).2]
  rfl

namespace Line

/-- The address that a line shows. -/
def address : Line → Nat
  | instruction address _ => address
  | word address _ => address

/-- What a line shows behind its address. -/
def body : Line → List Char
  | instruction _ i => i.text.toList
  | word _ value => '.' :: 'w' :: 'o' :: 'r' :: 'd' :: ' ' :: value.text.toList

/-- A line without its newline. -/
def chars (line : Line) : List Char := column line.address ++ ':' :: ' ' :: line.body

theorem toList_text (line : Line) : line.text.toList = line.chars ++ ['\n'] := by
  have hcolon : ": ".toList = [':', ' '] := by decide
  have hword : ": .word ".toList = [':', ' ', '.', 'w', 'o', 'r', 'd', ' '] := by decide
  have hend : "\n".toList = ['\n'] := by decide
  cases line with
  | instruction n i =>
      simp only [text, chars, column, address, body, String.toList_append, hcolon, hend,
        List.append_assoc, List.cons_append, List.nil_append]
  | word n value =>
      simp only [text, chars, column, address, body, String.toList_append, hword, hend,
        List.append_assoc, List.cons_append, List.nil_append]

theorem newline_not_mem_chars (line : Line) : '\n' ∉ line.chars := by
  have hcolumn : '\n' ∉ column line.address := by
    intro hmem
    rcases isDigit_or_space_of_mem_column hmem with hdigit | heq
    · cases hdigit
    · revert heq
      decide
  have hbody : '\n' ∉ line.body := by
    have hnewline : ¬ (isPlain '\n' = true ∨ '\n' = ' ') := by decide
    cases line with
    | instruction address i =>
        intro hmem
        rw [body, ← i.text_entry] at hmem
        exact hnewline (Entry.isPlain_of_mem_text i.writable_entry hmem)
    | word address value =>
        have htoken : IsToken (Operand.literal value).text.toList := Operand.isToken_text trivial
        intro hmem
        have htext : '\n' ∈ value.text.toList := by simpa [body] using hmem
        exact hnewline (Or.inl (htoken.plain _ htext))
  simp [chars, hcolumn, hbody]

end Line

/-- Lines joined by newlines, the last of them empty, all end with a newline. -/
theorem intercalate_newline (lines : List (List Char)) :
    ['\n'].intercalate (lines ++ [[]]) = lines.flatMap (· ++ ['\n']) := by
  induction lines with
  | nil => rfl
  | cons line lines ih =>
      rw [List.cons_append, List.intercalate_cons_of_ne_nil (by simp), ih, List.flatMap_cons]

end Listing

theorem Program.splitLines_listing (code : Program) :
    splitLines code.listing.toList = code.lines.map Listing.Line.chars ++ [[]] := by
  have hlisting : code.listing.toList =
      (code.lines.map Listing.Line.chars).flatMap (· ++ ['\n']) := by
    simp [listing, String.toList_join, List.flatMap_map, Listing.Line.toList_text]
  rw [hlisting]
  refine splitLines_flatMap fun chars hchars => ?_
  obtain ⟨line, -, rfl⟩ := List.mem_map.mp hchars
  exact line.newline_not_mem_chars

theorem Program.lines_of_complete {code : Program} (h : code.walk.error = none) :
    code.lines = code.walk.instructions.map fun entry => .instruction entry.1 entry.2 := by
  have hend : code.toList.drop code.walk.stop = [] := List.drop_of_length_le (stop_of_complete h)
  rw [lines, hend]
  simp

/-- **Removing the addresses from the listing of a program leaves its instructions.** -/
theorem Program.withoutAddresses_listing {code : Program} (h : code.walk.error = none) :
    Listing.withoutAddresses code.listing = code.assembly := by
  have hcontent : (splitLines code.listing.toList).map Listing.content =
      code.walk.instructions.map (fun entry => entry.2.text.toList) ++ [[]] := by
    have hempty : Listing.content [] = [] := rfl
    rw [splitLines_listing, lines_of_complete h]
    simp [Listing.Line.chars, Listing.Line.body, Listing.content_line, hempty]
  rw [Listing.withoutAddresses, hcontent, Listing.intercalate_newline, ← String.toList_inj,
    String.toList_ofList, assembly, String.toList_join]
  simp [List.flatMap_map]

/-- **A program that can be read to its end is assembled again from its instructions.** -/
theorem Program.reassembles {code : Program} (h : code.walk.error = none) :
    Listing.withoutAddresses code.listing = code.assembly ∧
      assemble code.assembly = .ok code := by
  refine ⟨code.withoutAddresses_listing h, ?_⟩
  rw [assembly_eq_source, assemble_entries, encode_walk h]

/-- The smallest word as an operand, next to a jump and an instruction without an operand. -/
theorem Program.reassembles_smallest_word :
    Program.assembly #[1, -2147483648, 6, 4, 0] = "PUSH -2147483648\nJMP 4\nHALT\n" ∧
      Listing.withoutAddresses (Program.listing #[1, -2147483648, 6, 4, 0]) =
        "PUSH -2147483648\nJMP 4\nHALT\n" ∧
      assemble "PUSH -2147483648\nJMP 4\nHALT\n" = .ok #[1, -2147483648, 6, 4, 0] := by
  have hcomplete : (Program.walk #[1, -2147483648, 6, 4, 0]).error = none := by decide +kernel
  have htext : Program.assembly #[1, -2147483648, 6, 4, 0] =
      "PUSH -2147483648\nJMP 4\nHALT\n" := by decide +kernel
  obtain ⟨hlisting, hassemble⟩ := Program.reassembles hcomplete
  rw [htext] at hlisting hassemble
  exact ⟨htext, hlisting, hassemble⟩

end StackMachine
