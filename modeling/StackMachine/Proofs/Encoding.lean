import StackMachine.Proofs.Program

set_option autoImplicit false

/-! # Programs made of instructions

A program that consists of the words of some instructions is read as these instructions, each at
the offset where the words of those before it end (`Program.walk_of_encode`). So the offset of an
instruction is known from the opcodes before it (`Program.offsetOf_of_encode`). In turn a program
that can be read to its end consists of the words of its instructions (`Program.encode_walk`).
-/

namespace StackMachine

/-! ## Opcodes and operands -/

theorem Word.index?_eq_some_iff {w : Word} {n : Nat} : index? w = some n ↔ w.toInt = n := by
  unfold index?
  split
  · rw [Option.some.injEq]; omega
  · simp only [reduceCtorEq, false_iff]; omega

theorem Word.index?_eq_none_iff {w : Word} : index? w = none ↔ w.toInt < 0 := by
  unfold index?
  split
  · simp only [reduceCtorEq, false_iff]; omega
  · simp only [true_iff]; omega

/-- Words name the positions below `Word.positions`. -/
theorem Word.index?_ofIndex {n : Nat} (h : n < Word.positions) :
    Word.index? (Word.ofIndex n) = some n := by
  unfold Word.positions at h
  have hvalue : (Word.ofIndex n).toInt = n := Int32.toInt_ofInt_of_le (by omega) (by omega)
  rw [Word.index?, hvalue, if_pos (Int.natCast_nonneg n), Int.toNat_natCast]

namespace Opcode

theorem ofWord?_toWord (op : Opcode) : ofWord? op.toWord = some op := by
  cases op <;> rfl

/-- Only the word of an opcode is read as the opcode. -/
theorem toWord_of_ofWord? {w : Word} {op : Opcode} (h : ofWord? w = some op) : op.toWord = w := by
  have hindex : ∀ n < all.size, all[n]?.map (·.ctorIdx) = some n := by decide
  obtain ⟨n, hn, hop⟩ := Option.bind_eq_some_iff.mp h
  have hlt : n < all.size := (Array.getElem?_eq_some_iff.mp hop).1
  have hctor : op.ctorIdx = n := by simpa [hop] using hindex n hlt
  unfold Word.index? at hn
  split at hn
  · next hsign =>
      cases hn
      rw [toWord, hctor, Word.ofIndex, Int.toNat_of_nonneg hsign, Int32.ofInt_toInt]
  · cases hn

theorem instruction_of_plain {op : Opcode} {i : Instruction} (h : op.form = .plain i) :
    op.takesOperand = false ∧ i.opcode = op ∧ i.operand = none := by
  cases op <;> cases h <;> exact ⟨rfl, rfl, rfl⟩

theorem instruction_of_immediate {op : Opcode} {f : Word → Instruction}
    (h : op.form = .immediate f) (w : Word) :
    op.takesOperand = true ∧ (f w).opcode = op ∧ (f w).operand = some w := by
  cases op <;> cases h <;> exact ⟨rfl, rfl, rfl⟩

/-- An opcode with an operand, if it takes one, makes an instruction. -/
theorem exists_instruction {op : Opcode} {operand : Option Word}
    (h : operand.isSome = op.takesOperand) :
    ∃ i : Instruction, i.opcode = op ∧ i.operand = operand := by
  cases hform : op.form with
  | plain i =>
      obtain ⟨htakes, hop, hoperand⟩ := instruction_of_plain hform
      rw [htakes, Option.isSome_eq_false_iff, Option.isNone_iff_eq_none] at h
      exact ⟨i, hop, hoperand.trans h.symm⟩
  | immediate f =>
      rw [(instruction_of_immediate hform 0).1, Option.isSome_iff_exists] at h
      obtain ⟨w, rfl⟩ := h
      exact ⟨f w, (instruction_of_immediate hform w).2⟩

/-- The number of words of instructions with these opcodes. -/
def words : List Opcode → Nat
  | [] => 0
  | op :: ops => op.width + words ops

@[simp] theorem words_nil : words [] = 0 := rfl

@[simp] theorem words_cons (op : Opcode) (ops : List Opcode) :
    words (op :: ops) = op.width + words ops := rfl

@[simp] theorem words_append (ops ops' : List Opcode) :
    words (ops ++ ops') = words ops + words ops' := by
  induction ops with
  | nil => simp
  | cons op ops ih => rw [List.cons_append, words_cons, words_cons, ih, Nat.add_assoc]

end Opcode

namespace Instruction

theorem form_opcode (i : Instruction) :
    (i.operand = none ∧ i.opcode.form = .plain i) ∨
      ∃ f w, i.operand = some w ∧ i.opcode.form = .immediate f ∧ f w = i := by
  cases i <;> first
    | exact Or.inl ⟨rfl, rfl⟩
    | exact Or.inr ⟨_, _, rfl, rfl, rfl⟩

@[simp] theorem length_encode (i : Instruction) : i.encode.length = i.width := by
  cases i <;> rfl

theorem length_flatMap_encode (is : List Instruction) :
    (is.flatMap encode).length = Opcode.words (is.map opcode) := by
  induction is with
  | nil => rfl
  | cons i is ih =>
      rw [List.flatMap_cons, List.length_append, length_encode, ih, List.map_cons,
        Opcode.words_cons]
      rfl

/-- Instructions with their offsets, one after another from `offset` on. -/
def placed (offset : Nat) : List Instruction → List (Nat × Instruction)
  | [] => []
  | i :: is => (offset, i) :: placed (offset + i.width) is

@[simp] theorem map_snd_placed (offset : Nat) (is : List Instruction) :
    (placed offset is).map Prod.snd = is := by
  induction is generalizing offset with
  | nil => rfl
  | cons i is ih => rw [placed, List.map_cons, ih]

/-- Each instruction stands behind the words of those before it. -/
theorem getElem?_placed (offset n : Nat) (is : List Instruction) :
    (placed offset is)[n]?.elim (offset + Opcode.words (is.map opcode)) Prod.fst =
      offset + Opcode.words ((is.map opcode).take n) := by
  induction is generalizing offset n with
  | nil => simp [placed]
  | cons i is ih =>
      cases n with
      | zero => rfl
      | succ n =>
          rw [placed, List.getElem?_cons_succ, List.map_cons, List.take_succ_cons,
            Opcode.words_cons, Opcode.words_cons, ← Nat.add_assoc, ← Nat.add_assoc]
          exact ih (offset + i.width) n

end Instruction

namespace Program

variable {code : Program}

/-! ## Reading what was written -/

/-- **Decoding reads the instruction whose words stand there.** -/
theorem decode_of_encode {before after : List Word} {i : Instruction}
    (h : code.toList = before ++ (i.encode ++ after)) : code.decode before.length = .ok i := by
  have hword : ∀ n, code[before.length + n]? = (i.encode ++ after)[n]? := by
    intro n
    rw [← Array.getElem?_toList, h, List.getElem?_append_right (Nat.le_add_right _ _),
      Nat.add_sub_cancel_left]
  have hopcode : code[before.length]? = some i.opcode.toWord := hword 0
  unfold decode
  rw [hopcode]
  dsimp only
  rw [Opcode.ofWord?_toWord]
  dsimp only
  rcases i.form_opcode with ⟨-, hform⟩ | ⟨f, w, hoperand, hform, hi⟩
  · rw [hform]
  · have hnext : code[before.length + 1]? = some w := by
      rw [hword, Instruction.encode, hoperand]
      rfl
    rw [hform]
    dsimp only
    rw [hnext, ← hi]

theorem walkFrom_of_encode (before : List Word) {is : List Instruction}
    (h : code.toList = before ++ is.flatMap Instruction.encode) :
    code.walkFrom before.length = ⟨Instruction.placed before.length is, code.size, none⟩ := by
  have hsize : code.size = before.length + (is.flatMap Instruction.encode).length := by
    rw [← Array.length_toList, h, List.length_append]
  induction is generalizing before with
  | nil =>
      have hend : before.length = code.size := hsize.symm
      rw [hend, walkFrom_of_end (Nat.lt_irrefl _)]
      rfl
  | cons i is ih =>
      rw [List.flatMap_cons] at h hsize
      have hdecode := decode_of_encode h
      rw [← List.append_assoc] at h
      -- the rest is read behind the words of `i`
      have hlength : (before ++ i.encode).length = before.length + i.width := by
        rw [List.length_append, Instruction.length_encode]
      have hrest := ih _ h (by rw [hsize, List.length_append, List.length_append, Nat.add_assoc])
      rw [hlength] at hrest
      rw [walkFrom_of_ok hdecode, hrest]
      rfl

/-- **A program made of instructions is read as these instructions.** -/
theorem walk_of_encode {is : List Instruction}
    (h : code.toList = is.flatMap Instruction.encode) :
    code.walk = ⟨Instruction.placed 0 is, code.size, none⟩ :=
  walkFrom_of_encode [] h

/-- The offset of the instruction that comes after `n` others, or the end of the code. -/
def offsetOf (code : Program) (n : Nat) : Nat := code.walk.instructions[n]?.elim code.size Prod.fst

theorem isBoundary_offsetOf (code : Program) (n : Nat) : code.IsBoundary (code.offsetOf n) := by
  unfold offsetOf
  cases hentry : code.walk.instructions[n]? with
  | none => exact Or.inr rfl
  | some entry => exact Or.inl ⟨entry, List.mem_of_getElem? hentry, rfl⟩

theorem size_of_encode {is : List Instruction}
    (h : code.toList = is.flatMap Instruction.encode) :
    code.size = Opcode.words (is.map Instruction.opcode) := by
  rw [← Array.length_toList, h, Instruction.length_flatMap_encode]

/-- **The offset of an instruction is known from the opcodes before it.** -/
theorem offsetOf_of_encode {is : List Instruction}
    (h : code.toList = is.flatMap Instruction.encode) (n : Nat) :
    code.offsetOf n = Opcode.words ((is.map Instruction.opcode).take n) := by
  have hplaced := Instruction.getElem?_placed 0 n is
  rw [Nat.zero_add, Nat.zero_add, ← size_of_encode h] at hplaced
  rw [offsetOf, walk_of_encode h]
  exact hplaced

/-! ## Writing what was read -/

/-- **A decoded instruction is written with the words it was decoded from.** -/
theorem encode_of_decode {offset : Nat} {i : Instruction} (h : code.decode offset = .ok i) :
    code.toList.drop offset = i.encode ++ code.toList.drop (offset + i.width) := by
  have hdrop : ∀ {n : Nat} {w : Word}, code[n]? = some w →
      code.toList.drop n = w :: code.toList.drop (n + 1) := by
    intro n w hw
    obtain ⟨hlt, hget⟩ := Array.getElem?_eq_some_iff.mp hw
    rw [← Array.length_toList] at hlt
    rw [List.drop_eq_getElem_cons hlt, Array.getElem_toList, hget]
  unfold decode at h
  split at h
  · cases h
  · next w hw =>
      split at h
      · cases h
      · next op hop =>
          have hword := Opcode.toWord_of_ofWord? hop
          split at h
          · next j hform =>
              cases h
              obtain ⟨-, hopcode, hoperand⟩ := Opcode.instruction_of_plain hform
              rw [Opcode.width_of_plain hform, Instruction.encode, hopcode, hoperand, hword,
                hdrop hw]
              rfl
          · next f hform =>
              split at h
              · cases h
              · next operand hnext =>
                  cases h
                  obtain ⟨-, hopcode, hoperand⟩ := Opcode.instruction_of_immediate hform operand
                  rw [Opcode.width_of_immediate hform, Instruction.encode, hopcode, hoperand,
                    hword, hdrop hw, hdrop hnext]
                  rfl

/-- The words of the instructions of a walk are the words that it went over. -/
theorem encode_walkFrom (code : Program) (offset : Nat) :
    ((code.walkFrom offset).instructions.map Prod.snd).flatMap Instruction.encode ++
      code.toList.drop (code.walkFrom offset).stop = code.toList.drop offset := by
  induction offset using walkFrom.induct code with
  | case1 offset _ i hi ih =>
      rw [walkFrom_of_ok hi, encode_of_decode hi, List.map_cons, List.flatMap_cons,
        List.append_assoc, ih]
  | case2 offset hlt e he =>
      rw [walkFrom_of_error hlt he]
      rfl
  | case3 offset hend =>
      rw [walkFrom_of_end hend]
      rfl

theorem stop_of_complete {offset : Nat} (h : (code.walkFrom offset).error = none) :
    code.size ≤ (code.walkFrom offset).stop := by
  induction offset using walkFrom.induct code with
  | case1 offset _ i hi ih =>
      rw [walkFrom_of_ok hi] at h ⊢
      exact ih h
  | case2 offset hlt e he =>
      rw [walkFrom_of_error hlt he] at h
      cases h
  | case3 offset hend =>
      rw [walkFrom_of_end hend]
      exact Nat.le_of_not_lt hend

/-- **A program that is read to its end is made of its instructions.** -/
theorem encode_walk (h : code.walk.error = none) :
    (code.walk.instructions.map Prod.snd).flatMap Instruction.encode = code.toList := by
  have hall := encode_walkFrom code 0
  have hend : code.toList.drop (code.walkFrom 0).stop = [] :=
    List.drop_of_length_le (stop_of_complete h)
  rw [hend, List.append_nil, List.drop_zero] at hall
  exact hall

end Program

end StackMachine
