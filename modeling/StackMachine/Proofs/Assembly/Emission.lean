import StackMachine.Proofs.Assembly.Layout

set_option autoImplicit false

/-! # Where assembling stops

A line can be added to a layout unless its label is defined already or something is wrong with its
instruction (`Layout.addLine_eq_error_iff`). The words of a layout can be written unless one of its
statements refers to a label without a definition; the first such statement is the one that is
reported (`Layout.emit_eq_error`).
-/

namespace StackMachine.Assembly

/-! ## Instructions -/

/-- What is wrong with an instruction. -/
inductive Body.Flaw (body : Body) : Cause → Prop
  | unknownMnemonic :
      Opcode.ofMnemonic? body.mnemonic = none → Flaw body (.unknownMnemonic body.mnemonic)
  | missingOperand {opcode : Opcode} :
      Opcode.ofMnemonic? body.mnemonic = some opcode → opcode.takesOperand = true →
      body.operand = none → Flaw body (.missingOperand opcode)
  | unexpectedOperand {opcode : Opcode} :
      Opcode.ofMnemonic? body.mnemonic = some opcode → opcode.takesOperand = false →
      body.operand ≠ none → Flaw body (.unexpectedOperand opcode)
  | invalidOperand {opcode : Opcode} {text : String} :
      Opcode.ofMnemonic? body.mnemonic = some opcode → opcode.takesOperand = true →
      body.operand = some text → Operand.parse? text.toList = none →
      Flaw body (.invalidOperand text)

/-- Every way in which an instruction fails to be a statement is a flaw of it, under the number of
its line. -/
theorem Body.statement_eq_error_iff {body : Body} {number : Nat} {e : Error} :
    body.statement number = .error e ↔ e.line = number ∧ body.Flaw e.cause := by
  obtain ⟨line, cause⟩ := e
  constructor
  · intro h
    unfold Body.statement at h
    split at h
    · next hop =>
        cases h
        exact ⟨rfl, .unknownMnemonic hop⟩
    · next opcode hop =>
        split at h
        · cases h
        · next htakes hoperand =>
            cases h
            exact ⟨rfl, .unexpectedOperand hop htakes (by simp [hoperand])⟩
        · next htakes hoperand =>
            cases h
            exact ⟨rfl, .missingOperand hop htakes hoperand⟩
        · next text htakes hoperand =>
            split at h
            · next hparse =>
                cases h
                exact ⟨rfl, .invalidOperand hop htakes hoperand hparse⟩
            · cases h
  · rintro ⟨rfl, hflaw⟩
    cases hflaw with
    | unknownMnemonic hop => simp only [Body.statement, hop]
    | missingOperand hop htakes hnone => simp only [Body.statement, hop, htakes, hnone]
    | unexpectedOperand hop htakes hsome =>
        obtain ⟨text, htext⟩ := Option.ne_none_iff_exists'.mp hsome
        simp only [Body.statement, hop, htakes, htext]
    | invalidOperand hop htakes hsome hparse =>
        simp only [Body.statement, hop, htakes, hsome, hparse]

/-! ## Lines -/

namespace Layout

variable {layout : Layout}

theorem define_eq_error_iff {number : Nat} {name : String} {e : Error} :
    layout.define number name = .error e ↔
      e.line = number ∧ (layout.offset? name).isSome = true ∧ e.cause = .duplicateLabel name := by
  obtain ⟨line, cause⟩ := e
  unfold define
  split
  · next hold => simp [hold, eq_comm]
  · next hnew => simp [hnew]

theorem addBody_eq_error_iff {number : Nat} {body : Option Body} {e : Error} :
    layout.addLine number ⟨none, body⟩ = .error e ↔
      e.line = number ∧ ∃ b, body = some b ∧ b.Flaw e.cause := by
  cases body with
  | none => exact iff_of_false nofun fun ⟨_, b, hb, _⟩ => by cases hb
  | some body =>
      have hpure : ∀ s, (pure (layout.append s) : Except Error Layout) ≠ .error e := nofun
      rw [addLine_body, bind_eq_error, Body.statement_eq_error_iff]
      simp [hpure]

/-- A line fails at its label or, if that is new, at its instruction. -/
theorem addLine_eq_error_iff {number : Nat} {line : Line} {e : Error} :
    layout.addLine number line = .error e ↔
      e.line = number ∧
        ((∃ name, line.label = some name ∧ (layout.offset? name).isSome = true ∧
            e.cause = .duplicateLabel name) ∨
          (∀ name, line.label = some name → ¬ (layout.offset? name).isSome = true) ∧
            ∃ body, line.body = some body ∧ body.Flaw e.cause) := by
  obtain ⟨label, body⟩ := line
  cases label with
  | none =>
      rw [addBody_eq_error_iff]
      simp
  | some name =>
      rw [addLine_label, bind_eq_error, define_eq_error_iff]
      cases hdefine : layout.define number name with
      | error e' =>
          have hold := (define_eq_error_iff.mp hdefine).2.1
          simp [hold, Option.isSome_iff_ne_none.mp hold]
      | ok layout' =>
          have hnew := (define_eq_ok hdefine).1
          simp [hnew, addBody_eq_error_iff]

end Layout

/-! ## Words -/

/-- If not all elements of a list have a property, there is a first that does not have it. -/
theorem forall_or_exists_first {α : Type} (p : α → Prop) (l : List α) :
    (∀ a ∈ l, p a) ∨
      ∃ before a after, l = before ++ a :: after ∧ (∀ b ∈ before, p b) ∧ ¬ p a := by
  induction l with
  | nil => exact Or.inl (List.forall_mem_nil p)
  | cons a l ih =>
      by_cases ha : p a
      · rcases ih with hall | ⟨before, a', after, rfl, hbefore, ha'⟩
        · exact Or.inl (List.forall_mem_cons.mpr ⟨ha, hall⟩)
        · exact Or.inr ⟨a :: before, a', after, rfl, List.forall_mem_cons.mpr ⟨ha, hbefore⟩, ha'⟩
      · exact Or.inr ⟨[], a, l, rfl, List.forall_mem_nil p, ha⟩

/-- A chain of readings stops at the first that fails. -/
theorem mapM_eq_error {ε α β : Type} {f : α → Except ε β} {l : List α} {e : ε}
    (h : l.mapM f = .error e) :
    ∃ before a after, l = before ++ a :: after ∧ (∀ b ∈ before, ∃ c, f b = .ok c) ∧
      f a = .error e := by
  induction l with
  | nil => cases h
  | cons a l ih =>
      rw [List.mapM_cons] at h
      cases ha : f a with
      | error e' =>
          rw [ha] at h
          cases h
          exact ⟨[], a, l, rfl, by simp, ha⟩
      | ok b =>
          rw [ha] at h
          cases hl : l.mapM f with
          | ok bs =>
              rw [hl] at h
              cases h
          | error e' =>
              rw [hl] at h
              cases h
              obtain ⟨before, a', after, rfl, hbefore, ha'⟩ := ih hl
              exact ⟨a :: before, a', after, rfl, List.forall_mem_cons.mpr ⟨⟨b, ha⟩, hbefore⟩, ha'⟩

/-- Behind readings that succeed, a chain fails where the next one does. -/
theorem mapM_of_error {ε α β : Type} {f : α → Except ε β} {before : List α} {a : α} {e : ε}
    (hbefore : ∀ b ∈ before, ∃ c, f b = .ok c) (ha : f a = .error e) (after : List α) :
    (before ++ a :: after).mapM f = .error e := by
  induction before with
  | nil =>
      rw [List.nil_append, List.mapM_cons, ha]
      rfl
  | cons b before ih =>
      obtain ⟨⟨c, hc⟩, hbefore⟩ := List.forall_mem_cons.mp hbefore
      rw [List.cons_append, List.mapM_cons, hc, ih hbefore]
      rfl

namespace Layout

theorem encode_undefined (layout : Layout) (line : Nat) (opcode : Opcode) {name : String}
    (h : layout.offset? name = none) :
    layout.encode ⟨line, opcode, some (.label name)⟩ = .error ⟨line, .undefinedLabel name⟩ := by
  simp only [encode, resolve, h]
  rfl

theorem encode_defined (layout : Layout) (line : Nat) (opcode : Opcode) {name : String}
    {offset : Nat} (h : layout.offset? name = some offset) :
    layout.encode ⟨line, opcode, some (.label name)⟩ =
      .ok [opcode.toWord, Word.ofIndex offset] := by
  simp only [encode, resolve, h]
  rfl

/-- Writing a statement fails only at a label without a definition. -/
theorem encode_eq_error {layout : Layout} {s : Statement} {e : Error}
    (h : layout.encode s = .error e) :
    ∃ name, s.operand = some (.label name) ∧ layout.offset? name = none ∧
      e = ⟨s.line, .undefinedLabel name⟩ := by
  obtain ⟨line, opcode, operand⟩ := s
  rcases operand with _ | _ | name
  · cases h
  · cases h
  · cases hoffset : layout.offset? name with
    | none =>
        rw [encode_undefined layout line opcode hoffset] at h
        cases h
        exact ⟨name, rfl, hoffset, rfl⟩
    | some offset =>
        rw [encode_defined layout line opcode hoffset] at h
        cases h

/-- **Writing stops at the first statement whose label has no definition.** -/
theorem emit_eq_error {layout : Layout} {e : Error} (h : layout.emit = .error e) :
    ∃ before s after name,
      layout.statements.toList = before ++ s :: after ∧
      (∀ b ∈ before, ∃ words, layout.encode b = .ok words) ∧
      s.operand = some (.label name) ∧ layout.offset? name = none ∧
      e = ⟨s.line, .undefinedLabel name⟩ := by
  have hstop : layout.statements.toList.mapM layout.encode = .error e := by
    unfold emit at h
    cases hwords : layout.statements.toList.mapM layout.encode with
    | ok words =>
        rw [hwords] at h
        cases h
    | error e' =>
        rw [hwords] at h
        cases h
        rfl
  obtain ⟨before, s, after, hsplit, hbefore, hs⟩ := mapM_eq_error hstop
  obtain ⟨name, hoperand, hundefined, herror⟩ := encode_eq_error hs
  exact ⟨before, s, after, name, hsplit, hbefore, hoperand, hundefined, herror⟩

end Layout

end StackMachine.Assembly
