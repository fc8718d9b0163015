import StackMachine.Program.Basic

set_option autoImplicit false

/-! # Boundaries of a program

Reading a program in layout order cuts it at the offsets of its instructions. Together with the
end of the code these are its boundaries (`Program.IsBoundary`). When the whole program can be
read, an instruction that begins at a boundary ends at one (`Program.IsBoundary.next`), and every
boundary inside the code has an instruction (`Program.IsBoundary.decode`).
-/

namespace StackMachine

/-! ## Decoding -/

theorem Opcode.width_of_plain {op : Opcode} {i : Instruction} (h : op.form = .plain i) :
    i.width = 1 := by
  cases op <;> cases h <;> rfl

theorem Opcode.width_of_immediate {op : Opcode} {f : Word → Instruction}
    (h : op.form = .immediate f) (operand : Word) : (f operand).width = 2 := by
  cases op <;> cases h <;> rfl

namespace Program

variable {code : Program}

/-- A decoded instruction lies inside the code. -/
theorem decode_fits {offset : Nat} {i : Instruction} (h : code.decode offset = .ok i) :
    offset + i.width ≤ code.size := by
  have hinside : ∀ {n : Nat} {w : Word}, code[n]? = some w → n < code.size := by
    intro n w hn
    exact (Array.getElem?_eq_some_iff.mp hn).1
  unfold decode at h
  split at h
  · cases h
  · next w hw =>
      split at h
      · cases h
      · split at h
        · next hform =>
            cases h
            rw [Opcode.width_of_plain hform]
            exact hinside hw
        · next hform =>
            split at h
            · cases h
            · next operand hoperand =>
                cases h
                rw [Opcode.width_of_immediate hform]
                exact hinside hoperand

theorem decode_lt {offset : Nat} {i : Instruction} (h : code.decode offset = .ok i) :
    offset < code.size := by
  have hwidth : 0 < i.width := by unfold Instruction.width Opcode.width; omega
  have := decode_fits h
  omega

/-! ## Reading in layout order -/

theorem walkFrom_of_ok {offset : Nat} {i : Instruction} (h : code.decode offset = .ok i) :
    code.walkFrom offset =
      { code.walkFrom (offset + i.width) with
        instructions := (offset, i) :: (code.walkFrom (offset + i.width)).instructions } := by
  rw [walkFrom, if_pos (decode_lt h), h]

theorem walkFrom_of_error {offset : Nat} {e : DecodeError} (hlt : offset < code.size)
    (h : code.decode offset = .error e) : code.walkFrom offset = ⟨[], offset, some e⟩ := by
  rw [walkFrom, if_pos hlt, h]

theorem walkFrom_of_end {offset : Nat} (h : ¬ offset < code.size) :
    code.walkFrom offset = ⟨[], offset, none⟩ := by
  rw [walkFrom, if_neg h]

/-- The instructions of a walk are those that stand at their offsets. -/
theorem decode_of_mem_walkFrom {offset n : Nat} {i : Instruction}
    (h : (n, i) ∈ (code.walkFrom offset).instructions) : code.decode n = .ok i := by
  induction offset using walkFrom.induct code with
  | case1 offset _ first hfirst ih =>
      rw [walkFrom_of_ok hfirst] at h
      rcases List.mem_cons.mp h with heq | hrest
      · cases heq
        exact hfirst
      · exact ih hrest
  | case2 offset hlt e he =>
      rw [walkFrom_of_error hlt he] at h
      cases h
  | case3 offset hend =>
      rw [walkFrom_of_end hend] at h
      cases h

/-- A walk without an error begins with an instruction, unless it begins at the end. -/
theorem walkFrom_head {offset : Nat} (hle : offset ≤ code.size)
    (hcomplete : (code.walkFrom offset).error = none) :
    (∃ i, (offset, i) ∈ (code.walkFrom offset).instructions) ∨ offset = code.size := by
  -- an error at `offset` would be the error of the walk
  by_cases hlt : offset < code.size
  · cases hdecode : code.decode offset with
    | ok i =>
        refine Or.inl ⟨i, ?_⟩
        rw [walkFrom_of_ok hdecode]
        exact List.mem_cons_self
    | error e =>
        rw [walkFrom_of_error hlt hdecode] at hcomplete
        cases hcomplete
  · exact Or.inr (by omega)

/-- In a walk without an error each instruction is followed by another one or by the end. -/
theorem walkFrom_next {offset n : Nat} {i : Instruction}
    (hcomplete : (code.walkFrom offset).error = none)
    (h : (n, i) ∈ (code.walkFrom offset).instructions) :
    (∃ j, (n + i.width, j) ∈ (code.walkFrom offset).instructions) ∨ n + i.width = code.size := by
  induction offset using walkFrom.induct code with
  | case1 offset _ first hfirst ih =>
      rw [walkFrom_of_ok hfirst] at h hcomplete ⊢
      -- what follows the first instruction is the head of the rest of the walk
      have hrest : ∀ m, ((∃ j, (m, j) ∈ (code.walkFrom (offset + first.width)).instructions) ∨
          m = code.size) →
          (∃ j, (m, j) ∈ (offset, first) :: (code.walkFrom (offset + first.width)).instructions) ∨
            m = code.size := by
        intro m hm
        exact hm.imp_left fun ⟨j, hj⟩ => ⟨j, List.mem_cons_of_mem _ hj⟩
      rcases List.mem_cons.mp h with heq | hmem
      · cases heq
        exact hrest _ (walkFrom_head (decode_fits hfirst) hcomplete)
      · exact hrest _ (ih hcomplete hmem)
  | case2 offset hlt e he =>
      rw [walkFrom_of_error hlt he] at h
      cases h
  | case3 offset hend =>
      rw [walkFrom_of_end hend] at h
      cases h

/-! ## Boundaries -/

/-- The offset of an instruction in layout order, or the end of the code. -/
def IsBoundary (code : Program) (offset : Nat) : Prop :=
  (∃ entry ∈ code.walk.instructions, entry.1 = offset) ∨ offset = code.size

/-- The program can be read to its end, and every code offset among its operands is a
boundary. -/
structure WellFormed (code : Program) : Prop where
  complete : code.walk.error = none
  targets : ∀ entry ∈ code.walk.instructions, entry.2.opcode.hasTarget = true →
    ∃ offset ∈ entry.2.operand.bind Word.index?, code.IsBoundary offset

instance (code : Program) (offset : Nat) : Decidable (code.IsBoundary offset) :=
  inferInstanceAs (Decidable ((∃ entry ∈ code.walk.instructions, entry.1 = offset) ∨ _))

instance (code : Program) : Decidable code.WellFormed :=
  decidable_of_iff
    (code.walk.error = none ∧
      ∀ entry ∈ code.walk.instructions, entry.2.opcode.hasTarget = true →
        ∃ offset ∈ entry.2.operand.bind Word.index?, code.IsBoundary offset)
    ⟨fun h => ⟨h.1, h.2⟩, fun h => ⟨h.complete, h.targets⟩⟩

namespace IsBoundary

variable {offset : Nat}

theorem zero (hcode : code.WellFormed) : code.IsBoundary 0 :=
  (walkFrom_head (Nat.zero_le _) hcode.complete).imp_left fun ⟨_, hi⟩ => ⟨_, hi, rfl⟩

theorem le_size (h : code.IsBoundary offset) : offset ≤ code.size := by
  rcases h with ⟨entry, hentry, rfl⟩ | rfl
  · exact Nat.le_of_lt (decode_lt (decode_of_mem_walkFrom hentry))
  · exact Nat.le_refl _

theorem mem_walk (h : code.IsBoundary offset) {i : Instruction}
    (hi : code.decode offset = .ok i) : (offset, i) ∈ code.walk.instructions := by
  rcases h with ⟨entry, hentry, rfl⟩ | rfl
  · have hdecode := decode_of_mem_walkFrom hentry
    rw [hi] at hdecode
    cases hdecode
    exact hentry
  · exact absurd (decode_lt hi) (Nat.lt_irrefl _)

/-- **Every boundary inside the code has an instruction.** -/
theorem decode (h : code.IsBoundary offset) (hlt : offset < code.size) :
    ∃ i, code.decode offset = .ok i := by
  rcases h with ⟨entry, hentry, rfl⟩ | rfl
  · exact ⟨entry.2, decode_of_mem_walkFrom hentry⟩
  · exact absurd hlt (Nat.lt_irrefl _)

/-- **An instruction that begins at a boundary ends at one.** -/
theorem next (h : code.IsBoundary offset) (hcode : code.WellFormed) {i : Instruction}
    (hi : code.decode offset = .ok i) : code.IsBoundary (offset + i.width) :=
  (walkFrom_next hcode.complete (h.mem_walk hi)).imp_left fun ⟨_, hj⟩ => ⟨_, hj, rfl⟩

/-- A target of an instruction that begins at a boundary is a boundary. -/
theorem target (h : code.IsBoundary offset) (hcode : code.WellFormed) {i : Instruction}
    (hi : code.decode offset = .ok i) {target : Word} (ht : i.opcode.hasTarget = true)
    (hoperand : i.operand = some target) :
    ∃ n, Word.index? target = some n ∧ code.IsBoundary n := by
  obtain ⟨n, hn, hboundary⟩ := hcode.targets _ (h.mem_walk hi) ht
  rw [hoperand] at hn
  exact ⟨n, hn, hboundary⟩

end IsBoundary

end Program

end StackMachine
