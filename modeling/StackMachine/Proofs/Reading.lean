import StackMachine.Proofs.Listing

set_option autoImplicit false

/-! # Reading a program item by item

A program can be read one item at a time (`Program.next?`). An item is an instruction with its
offset, or the error at the first offset that cannot be decoded, and nothing is read behind an
error. `Program.Yields` says which items reading yields until it ends; these are the items of the
walk over the program (`Program.yields_iff`), so reading always ends.

What is read decides the words that were read and the words decide what is read
(`Program.reading_inverts_encoding`): the words of instructions are read as these instructions,
and whatever a program contains, the items that are instructions stand for the words in front of
its end or of the one error.
-/

namespace StackMachine

namespace Opcode

/-- The words that are no opcodes. -/
theorem ofWord?_eq_none_iff {w : Word} : ofWord? w = none ↔ w.toInt < 0 ∨ 33 < w.toInt := by
  have hsize : all.size = 34 := rfl
  unfold ofWord?
  cases hindex : Word.index? w with
  | none => simp [Word.index?_eq_none_iff.mp hindex]
  | some n =>
      have hn : w.toInt = n := Word.index?_eq_some_iff.mp hindex
      rw [Option.bind_some, Array.getElem?_eq_none_iff]
      omega

theorem operandCount_of_immediate {op : Opcode} {f : Word → Instruction}
    (h : op.form = .immediate f) : op.operandCount = 1 := by
  simp [operandCount, (instruction_of_immediate h 0).1]

theorem exists_immediate {op : Opcode} (h : op.operandCount = 1) :
    ∃ f, op.form = .immediate f := by
  cases hform : op.form with
  | plain i => simp [operandCount, (instruction_of_plain hform).1] at h
  | immediate f => exact ⟨f, rfl⟩

theorem isSome_eq_takesOperand {op : Opcode} {operand : Option Word}
    (h : operand.toList.length = op.operandCount) : operand.isSome = op.takesOperand := by
  unfold operandCount at h
  cases operand <;> cases htakes : op.takesOperand <;> simp [htakes] at h ⊢

end Opcode

/-- An instruction is determined by its opcode and its operand. -/
theorem Instruction.eq_of_parts (i j : Instruction)
    (h : (i.opcode, i.operand) = (j.opcode, j.operand)) : i = j := by
  obtain ⟨hopcode, hoperand⟩ := Prod.mk.inj h
  rcases i.form_opcode with ⟨hnone, hform⟩ | ⟨f, w, hsome, hform, rfl⟩ <;>
    rcases j.form_opcode with ⟨hnone', hform'⟩ | ⟨f', w', hsome', hform', rfl⟩
  · rw [hopcode, hform', Opcode.Form.plain.injEq] at hform
    exact hform.symm
  · rw [hoperand, hsome'] at hnone
    cases hnone
  · rw [hoperand, hnone'] at hsome
    cases hsome
  · rw [hopcode, hform', Opcode.Form.immediate.injEq] at hform
    rw [hoperand, hsome', Option.some.injEq] at hsome
    rw [hform, hsome]

namespace Program

/-! ## Why an offset cannot be decoded -/

/-- What is wrong at an offset that cannot be decoded. -/
inductive Undecodable (code : Program) (offset : Nat) : DecodeError → Prop
  | outOfBounds : code.size ≤ offset → Undecodable code offset (.outOfBounds offset)
  | unknownOpcode {w : Word} : code[offset]? = some w → w.toInt < 0 ∨ 33 < w.toInt →
      Undecodable code offset (.unknownOpcode w offset)
  | missingOperand {op : Opcode} : code[offset]? = some op.toWord → op.operandCount = 1 →
      code.size = offset + 1 → Undecodable code offset (.missingOperand op offset)

/-- **Decoding fails exactly if something is wrong at the offset.** -/
theorem decode_eq_error_iff {code : Program} {offset : Nat} {e : DecodeError} :
    code.decode offset = .error e ↔ code.Undecodable offset e := by
  constructor
  · intro h
    unfold decode at h
    split at h
    · next hnone =>
        cases h
        exact .outOfBounds (Array.getElem?_eq_none_iff.mp hnone)
    · next w hw =>
        split at h
        · next hop =>
            cases h
            exact .unknownOpcode hw (Opcode.ofWord?_eq_none_iff.mp hop)
        · next op hop =>
            split at h
            · cases h
            · next f hform =>
                split at h
                · next hnext =>
                    cases h
                    have hlt : offset < code.size := (Array.getElem?_eq_some_iff.mp hw).1
                    rw [Array.getElem?_eq_none_iff] at hnext
                    rw [← Opcode.toWord_of_ofWord? hop] at hw
                    exact .missingOperand hw (Opcode.operandCount_of_immediate hform) (by omega)
                · cases h
  · intro h
    cases h with
    | outOfBounds hend => simp [decode, hend]
    | unknownOpcode hw hrange => simp [decode, hw, Opcode.ofWord?_eq_none_iff.mpr hrange]
    | @missingOperand op hw hcount hsize =>
        obtain ⟨f, hform⟩ := Opcode.exists_immediate hcount
        have hnext : code[offset + 1]? = none := by simp [hsize]
        simp only [decode, hw, Opcode.ofWord?_toWord, hform, hnext]

/-! ## Items -/

/-- What reading yields: an instruction with its offset, or an error. -/
abbrev Item := Except DecodeError (Nat × Instruction)

/-- Where reading stands, and whether it has met an error. -/
structure Cursor where
  offset : Nat := 0
  failed : Bool := false
  deriving DecidableEq, Repr

/-- Read the next item. There is none at the end of the code and behind an error. -/
def next? (code : Program) (c : Cursor) : Option (Item × Cursor) :=
  if c.failed = true ∨ code.size ≤ c.offset then none
  else
    match code.decode c.offset with
    | .ok i => some (.ok (c.offset, i), { c with offset := c.offset + i.width })
    | .error e => some (.error e, { c with failed := true })

/-- Reading from the cursor on yields these items and then ends. -/
inductive Yields (code : Program) : Cursor → List Item → Prop
  | done {c : Cursor} : code.next? c = none → Yields code c []
  | item {c c' : Cursor} {item : Item} {items : List Item} :
      code.next? c = some (item, c') → Yields code c' items → Yields code c (item :: items)

/-- The items of a walk: its instructions, and its error behind them if there is one. -/
def Walk.items (walk : Walk) : List Item :=
  walk.instructions.map .ok ++ walk.error.toList.map .error

variable {code : Program} {offset : Nat}

theorem next?_of_ok {i : Instruction} (h : code.decode offset = .ok i) :
    code.next? ⟨offset, false⟩ = some (.ok (offset, i), ⟨offset + i.width, false⟩) := by
  have hlt : offset < code.size := decode_lt h
  simp [next?, h, hlt]

theorem next?_of_error {e : DecodeError} (hlt : offset < code.size)
    (h : code.decode offset = .error e) :
    code.next? ⟨offset, false⟩ = some (.error e, ⟨offset, true⟩) := by
  simp [next?, h, hlt]

theorem next?_of_end (h : ¬ offset < code.size) : code.next? ⟨offset, false⟩ = none := by
  simp [next?, Nat.le_of_not_lt h]

theorem next?_of_failed : code.next? ⟨offset, true⟩ = none := by
  simp [next?]

/-- Reading does the same each time. -/
theorem Yields.unique {c : Cursor} {items items' : List Item} (h : code.Yields c items)
    (h' : code.Yields c items') : items = items' := by
  induction h generalizing items' with
  | done hnone =>
      cases h' with
      | done _ => rfl
      | item hsome _ => simp [hnone] at hsome
  | item hsome _ ih =>
      cases h' with
      | done hnone => simp [hsome] at hnone
      | item hsome' hrest' =>
          rw [hsome, Option.some.injEq, Prod.mk.injEq] at hsome'
          obtain ⟨rfl, rfl⟩ := hsome'
          rw [ih hrest']

/-- **Reading item by item goes the way of the walk.** -/
theorem yields_walkFrom (code : Program) (offset : Nat) :
    code.Yields ⟨offset, false⟩ (code.walkFrom offset).items := by
  induction offset using walkFrom.induct code with
  | case1 offset _ i hi ih =>
      rw [walkFrom_of_ok hi]
      exact .item (next?_of_ok hi) ih
  | case2 offset hlt e he =>
      rw [walkFrom_of_error hlt he]
      exact .item (next?_of_error hlt he) (.done next?_of_failed)
  | case3 offset hend =>
      rw [walkFrom_of_end hend]
      exact .done (next?_of_end hend)

theorem yields_iff {items : List Item} : code.Yields {} items ↔ items = code.walk.items := by
  constructor
  · intro h
    exact h.unique (yields_walkFrom code 0)
  · rintro rfl
    exact yields_walkFrom code 0

/-! ## The parts of a walk -/

/-- The instructions of a walk follow one another without a gap. -/
theorem instructions_walkFrom (code : Program) (offset : Nat) :
    (code.walkFrom offset).instructions =
      Instruction.placed offset ((code.walkFrom offset).instructions.map Prod.snd) := by
  induction offset using walkFrom.induct code with
  | case1 offset _ i hi ih =>
      rw [walkFrom_of_ok hi, List.map_cons, Instruction.placed, ← ih]
  | case2 offset hlt e he =>
      rw [walkFrom_of_error hlt he]
      rfl
  | case3 offset hend =>
      rw [walkFrom_of_end hend]
      rfl

/-- A walk stops behind the words of its instructions. -/
theorem stop_eq_length (code : Program) (offset : Nat) :
    (code.walkFrom offset).stop =
      offset +
        (((code.walkFrom offset).instructions.map Prod.snd).flatMap Instruction.encode).length := by
  induction offset using walkFrom.induct code with
  | case1 offset _ i hi ih =>
      rw [walkFrom_of_ok hi]
      simp only [List.map_cons, List.flatMap_cons, List.length_append, Instruction.length_encode]
      omega
  | case2 offset hlt e he =>
      rw [walkFrom_of_error hlt he]
      rfl
  | case3 offset hend =>
      rw [walkFrom_of_end hend]
      rfl

/-- The error of a walk is the one at the offset where it stops. -/
theorem error_walkFrom_iff {e : DecodeError} :
    (code.walkFrom offset).error = some e ↔
      (code.walkFrom offset).stop < code.size ∧
        code.decode (code.walkFrom offset).stop = .error e := by
  induction offset using walkFrom.induct code with
  | case1 offset _ i hi ih =>
      rw [walkFrom_of_ok hi]
      exact ih
  | case2 offset hlt e' he =>
      rw [walkFrom_of_error hlt he]
      simp [hlt, he]
  | case3 offset hend =>
      rw [walkFrom_of_end hend]
      simp [hend]

/-- A walk is without an error exactly if it reaches the end of the code. -/
theorem error_walk_eq_none_iff : code.walk.error = none ↔ code.walk.stop = code.size := by
  have hstop := stop_walkFrom (Nat.zero_le code.size)
  constructor
  · intro hnone
    rcases hstop with hend | ⟨hlt, e, he⟩
    · exact hend
    · have hsome : code.walk.error = some e := error_walkFrom_iff.mpr ⟨hlt, he⟩
      simp [hnone] at hsome
  · intro hend
    cases herror : code.walk.error with
    | none => rfl
    | some e =>
        have hlt : code.walk.stop < code.size := (error_walkFrom_iff.mp herror).1
        omega

/-! ## Reading and encoding -/

/-- The words of opcodes with operands, one behind another. -/
def ofParts (parts : List (Opcode × Option Word)) : Program :=
  (parts.flatMap fun part => part.1.toWord :: part.2.toList).toArray

/-- Opcodes with as many operands as they take make instructions. -/
theorem exists_instructions {parts : List (Opcode × Option Word)}
    (h : ∀ part ∈ parts, part.2.toList.length = part.1.operandCount) :
    ∃ is : List Instruction, is.map (fun i => (i.opcode, i.operand)) = parts := by
  induction parts with
  | nil => exact ⟨[], rfl⟩
  | cons part parts ih =>
      obtain ⟨is, his⟩ := ih fun later hlater => h later (List.mem_cons_of_mem _ hlater)
      have hpart := Opcode.isSome_eq_takesOperand (h part List.mem_cons_self)
      obtain ⟨i, hopcode, hoperand⟩ := Opcode.exists_instruction hpart
      refine ⟨i :: is, ?_⟩
      rw [List.map_cons, his, hopcode, hoperand]

/-- **The words of instructions are read as these instructions.** -/
theorem items_ofParts (is : List Instruction) :
    (ofParts (is.map fun i => (i.opcode, i.operand))).walk.items =
      (Instruction.placed 0 is).map .ok := by
  have hwords : (ofParts (is.map fun i => (i.opcode, i.operand))).toList =
      is.flatMap Instruction.encode := by
    rw [ofParts, List.flatMap_map]
    rfl
  rw [walk_of_encode hwords]
  exact List.append_nil _

/-- **Reading inverts encoding.** Reading a program item by item ends, and it is the walk over the
program. Opcodes with the operands they take, written one behind another, are read as exactly
these, with offsets that begin at zero and follow one another, and without an error. In turn the
instructions that are read from any program follow one another from zero on, and their words are
the first ones of the program. They are all its words unless there is an error behind them. The
error is the one at the first word that they do not cover: an operand is missing exactly if this
is the last word and an opcode with an operand, and an opcode is unknown exactly if it is none of
the words from 0 to 33. -/
theorem reading_inverts_encoding :
    (∀ (code : Program) (items : List Item), code.Yields {} items ↔ items = code.walk.items) ∧
    (∀ parts : List (Opcode × Option Word),
      (∀ part ∈ parts, part.2.toList.length = part.1.operandCount) →
      ∃ is : List Instruction, is.map (fun i => (i.opcode, i.operand)) = parts ∧
        (ofParts parts).walk.items = (Instruction.placed 0 is).map .ok) ∧
    ∀ code : Program, ∃ (is : List Instruction) (error : Option DecodeError),
      code.walk.items = (Instruction.placed 0 is).map .ok ++ error.toList.map .error ∧
      is.flatMap Instruction.encode <+: code.toList ∧
      ∃ covered, covered = (is.flatMap Instruction.encode).length ∧
        (error = none ↔ covered = code.size) ∧
        (∀ op n, error = some (.missingOperand op n) ↔
          n = covered ∧ code[covered]? = some op.toWord ∧ op.operandCount = 1 ∧
            code.size = covered + 1) ∧
        (∀ w n, error = some (.unknownOpcode w n) ↔
          n = covered ∧ code[covered]? = some w ∧ (w.toInt < 0 ∨ 33 < w.toInt)) ∧
        ∀ n, error ≠ some (.outOfBounds n) := by
  refine ⟨fun code items => yields_iff, fun parts hparts => ?_, fun code => ?_⟩
  · obtain ⟨is, rfl⟩ := exists_instructions hparts
    exact ⟨is, rfl, items_ofParts is⟩
  · have herror : ∀ e, code.walk.error = some e ↔
        code.walk.stop < code.size ∧ code.Undecodable code.walk.stop e := by
      intro e
      rw [← decode_eq_error_iff]
      exact error_walkFrom_iff
    have hinside : ∀ {w : Word}, code[code.walk.stop]? = some w → code.walk.stop < code.size := by
      intro w hw
      exact (Array.getElem?_eq_some_iff.mp hw).1
    refine ⟨code.walk.instructions.map Prod.snd, code.walk.error, ?_, ?_, code.walk.stop, ?_,
      error_walk_eq_none_iff, fun op n => ?_, fun w n => ?_, fun n hbounds => ?_⟩
    · have hplaced := instructions_walkFrom code 0
      rw [walk, ← hplaced]
      rfl
    · have hwords := encode_walkFrom code 0
      exact ⟨_, hwords⟩
    · have hstop := stop_eq_length code 0
      rw [Nat.zero_add] at hstop
      exact hstop
    · rw [herror]
      constructor
      · rintro ⟨-, hwrong⟩
        cases hwrong with
        | missingOperand hw hcount hsize => exact ⟨rfl, hw, hcount, hsize⟩
      · rintro ⟨rfl, hw, hcount, hsize⟩
        exact ⟨hinside hw, .missingOperand hw hcount hsize⟩
    · rw [herror]
      constructor
      · rintro ⟨-, hwrong⟩
        cases hwrong with
        | unknownOpcode hw hrange => exact ⟨rfl, hw, hrange⟩
      · rintro ⟨rfl, hw, hrange⟩
        exact ⟨hinside hw, .unknownOpcode hw hrange⟩
    · -- reading never goes beyond the end
      obtain ⟨hlt, hwrong⟩ := (herror _).mp hbounds
      cases hwrong with
      | outOfBounds hend => omega

/-- An operand may look like an opcode or like none; the last word of a program may lack its
operand, and what stands behind a word that is no opcode is not read. -/
theorem reading_inverts_encoding_last_word :
    (∀ part ∈ [(Opcode.push, some (34 : Word)), (.jmp, some 1), (.halt, none)],
        part.2.toList.length = part.1.operandCount) ∧
      (ofParts [(.push, some 34), (.jmp, some 1), (.halt, none)]).walk.items =
        [.ok (0, .push 34), .ok (2, .jmp 1), .ok (4, .halt)] ∧
      Yields #[5, 34, 0] {} [.ok (0, .print), .error (.unknownOpcode 34 1)] ∧
      Yields #[5, 1] {} [.ok (0, .print), .error (.missingOperand .push 1)] := by
  have hparts : ∀ part ∈ [(Opcode.push, some (34 : Word)), (.jmp, some 1), (.halt, none)],
      part.2.toList.length = part.1.operandCount := by decide
  obtain ⟨hyields, hencoded, -⟩ := reading_inverts_encoding
  obtain ⟨is, his, hitems⟩ := hencoded _ hparts
  refine ⟨hparts, ?_, (hyields _ _).mpr ?_, (hyields _ _).mpr ?_⟩
  · have hsame : is = [.push 34, .jmp 1, .halt] :=
      (List.map_inj_right Instruction.eq_of_parts).mp his
    rw [hitems, hsame]
    rfl
  · decide +kernel
  · decide +kernel

end Program

end StackMachine
