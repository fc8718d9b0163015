import Mathlib.Control.Monad.Basic
import Mathlib.Data.List.Forall2
import StackMachine.Assembly.Layout
import StackMachine.Proofs.Encoding

set_option autoImplicit false

/-! # What assembling does

Assembling lays out the lines of a text before it writes words. After some lines the layout holds
a statement for each instruction on them, and every label stands for the number of words of the
statements before its line (`Layout.Represents`). Each line keeps this
(`Layout.Represents.addLine`), so it holds of the whole text (`Layout.Represents.addLines`). The
words that are written for the statements are those of instructions with the same opcodes
(`Layout.emit_eq_ok`), so reading the program finds the instructions at the offsets for which the
labels stand (`assemble_reads_back`).
-/

namespace StackMachine.Assembly

/-! ## Chains of readings -/

section Chains

variable {ε α β γ : Type}

theorem bind_eq_ok {x : Except ε α} {f : α → Except ε β} {b : β} :
    x >>= f = .ok b ↔ ∃ a, x = .ok a ∧ f a = .ok b := by
  cases x with
  | ok a => exact ⟨fun h => ⟨a, rfl, h⟩, fun ⟨a', ha, h⟩ => by cases ha; exact h⟩
  | error e => exact ⟨fun h => (by cases h), fun ⟨a', ha, _⟩ => by cases ha⟩

theorem bind_eq_error {x : Except ε α} {f : α → Except ε β} {e : ε} :
    x >>= f = .error e ↔ x = .error e ∨ ∃ a, x = .ok a ∧ f a = .error e := by
  cases x with
  | ok a =>
      exact ⟨fun h => Or.inr ⟨a, rfl, h⟩, fun h => h.elim (fun h => (by cases h))
        fun ⟨a', ha, h⟩ => by cases ha; exact h⟩
  | error e' =>
      exact ⟨fun h => Or.inl (by cases h; rfl), fun h => h.elim (fun h => by cases h; rfl)
        fun ⟨a', ha, _⟩ => by cases ha⟩

theorem mapM_eq_ok {f : α → Except ε β} {l : List α} {l' : List β} (h : l.mapM f = .ok l') :
    List.Forall₂ (fun a b => f a = .ok b) l l' := by
  induction l generalizing l' with
  | nil =>
      cases h
      exact .nil
  | cons a l ih =>
      rw [List.mapM_cons] at h
      obtain ⟨b, hb, h⟩ := bind_eq_ok.mp h
      obtain ⟨bs, hbs, h⟩ := bind_eq_ok.mp h
      cases h
      exact .cons hb (ih hbs)

theorem mapM_of_forall₂ {f : α → Except ε β} {l : List α} {l' : List β}
    (h : List.Forall₂ (fun a b => f a = .ok b) l l') : l.mapM f = .ok l' := by
  induction h with
  | nil => rfl
  | cons ha _ ih =>
      rw [List.mapM_cons, ha, ih]
      rfl

theorem forall₂_comp {R : α → β → Prop} {S : β → γ → Prop} {T : α → γ → Prop}
    (h : ∀ a b c, R a b → S b c → T a c) {l₁ : List α} {l₂ : List β} {l₃ : List γ}
    (h₁ : List.Forall₂ R l₁ l₂) (h₂ : List.Forall₂ S l₂ l₃) : List.Forall₂ T l₁ l₃ := by
  induction h₁ generalizing l₃ with
  | nil =>
      cases h₂
      exact .nil
  | cons hab _ ih =>
      cases h₂ with
      | cons hbc h₂ => exact .cons (h _ _ _ hab hbc) (ih h₂)

theorem optionRel_comp {R : α → β → Prop} {S : β → γ → Prop} {T : α → γ → Prop}
    (h : ∀ a b c, R a b → S b c → T a c) {x : Option α} {y : Option β} {z : Option γ}
    (h₁ : Option.Rel R x y) (h₂ : Option.Rel S y z) : Option.Rel T x z := by
  cases h₁ with
  | none =>
      cases h₂
      exact .none
  | some hab =>
      cases h₂ with
      | some hbc => exact .some (h _ _ _ hab hbc)

end Chains

/-! ## Labels -/

/-- The label is defined on a line that comes after `count` instructions. -/
def Defines (lines : List Line) (name : String) (count : Nat) : Prop :=
  ∃ before line after, lines = before ++ line :: after ∧ line.label = some name ∧
    count = (before.filterMap Line.body).length

theorem not_defines_nil (name : String) (count : Nat) : ¬ Defines [] name count := by
  rintro ⟨before, line, after, hlines, -, -⟩
  exact absurd hlines (by simp)

theorem defines_concat {lines : List Line} {line : Line} {name : String} {count : Nat} :
    Defines (lines ++ [line]) name count ↔
      Defines lines name count ∨
        line.label = some name ∧ count = (lines.filterMap Line.body).length := by
  constructor
  · rintro ⟨before, line', after, hlines, hlabel, hcount⟩
    -- the defining line is the last one, or the lines end with the same line behind it
    rcases List.eq_nil_or_concat after with rfl | ⟨after, last, rfl⟩
    · obtain ⟨rfl, hlast⟩ := List.append_inj' hlines rfl
      cases hlast
      exact Or.inr ⟨hlabel, hcount⟩
    · rw [List.concat_eq_append, ← List.cons_append, ← List.append_assoc] at hlines
      obtain ⟨rfl, -⟩ := List.append_inj' hlines rfl
      exact Or.inl ⟨before, line', after, rfl, hlabel, hcount⟩
  · rintro (⟨before, line', after, rfl, hlabel, hcount⟩ | ⟨hlabel, hcount⟩)
    · exact ⟨before, line', after ++ [line], by simp, hlabel, hcount⟩
    · exact ⟨lines, line, [], rfl, hlabel, hcount⟩

theorem Defines.count_le {lines : List Line} {name : String} {count : Nat}
    (h : Defines lines name count) : count ≤ (lines.filterMap Line.body).length := by
  obtain ⟨before, line, after, rfl, -, rfl⟩ := h
  rw [List.filterMap_append, List.length_append]
  exact Nat.le_add_right _ _

theorem exists_defines {lines : List Line} {name : String}
    (h : name ∈ lines.filterMap Line.label) : ∃ count, Defines lines name count := by
  obtain ⟨line, hline, hlabel⟩ := List.mem_filterMap.mp h
  obtain ⟨before, after, rfl⟩ := List.append_of_mem hline
  exact ⟨_, before, line, after, rfl, hlabel, rfl⟩

/-! ## Statements -/

/-- The statement says what the instruction part of a line says. -/
structure Body.Makes (body : Body) (statement : Statement) : Prop where
  mnemonic : statement.opcode.mnemonic.toList = body.mnemonic.toList.map Char.toUpper
  operand : Option.Rel (fun text operand => Operand.parse? text.toList = some operand)
    body.operand statement.operand
  complete : statement.operand.isSome = statement.opcode.takesOperand

/-- **An instruction makes a statement if its mnemonic names an opcode and its operand is there when
the opcode takes one and can be read.** -/
theorem Body.statement_eq_ok_iff {body : Body} {number : Nat} {statement : Statement} :
    body.statement number = .ok statement ↔
      statement.line = number ∧ Opcode.ofMnemonic? body.mnemonic = some statement.opcode ∧
        Option.Rel (fun text operand => Operand.parse? text.toList = some operand)
          body.operand statement.operand ∧
        body.operand.isSome = statement.opcode.takesOperand := by
  obtain ⟨mnemonic, operand⟩ := body
  obtain ⟨line, opcode, value⟩ := statement
  unfold Body.statement
  cases hop : Opcode.ofMnemonic? mnemonic with
  | none => simp
  | some op =>
      dsimp only
      cases htakes : op.takesOperand with
      | false =>
          cases operand with
          | none =>
              constructor
              · rintro ⟨⟩
                exact ⟨rfl, rfl, .none, htakes.symm⟩
              · rintro ⟨rfl, hop', hoperand, -⟩
                cases hop'
                cases hoperand
                rfl
          | some text =>
              refine iff_of_false nofun ?_
              rintro ⟨-, hop', -, hsome⟩
              cases hop'
              rw [htakes] at hsome
              cases hsome
      | true =>
          cases operand with
          | none =>
              refine iff_of_false nofun ?_
              rintro ⟨-, hop', -, hsome⟩
              cases hop'
              rw [htakes] at hsome
              cases hsome
          | some text =>
              dsimp only
              cases hparse : Operand.parse? text.toList with
              | none =>
                  refine iff_of_false nofun ?_
                  rintro ⟨-, -, hoperand, -⟩
                  cases hoperand with
                  | some hvalue => cases hparse.symm.trans hvalue
              | some read =>
                  constructor
                  · rintro ⟨⟩
                    exact ⟨rfl, rfl, .some hparse, htakes.symm⟩
                  · rintro ⟨rfl, hop', hoperand, -⟩
                    cases hop'
                    cases hoperand with
                    | some hvalue =>
                        cases hparse.symm.trans hvalue
                        rfl

theorem Body.makes_of_statement {body : Body} {number : Nat} {statement : Statement}
    (h : body.statement number = .ok statement) : body.Makes statement := by
  obtain ⟨mnemonic, operand⟩ := body
  obtain ⟨line, opcode, value⟩ := statement
  obtain ⟨-, hop, hoperand, hsome⟩ := Body.statement_eq_ok_iff.mp h
  refine ⟨by simpa using Array.find?_some hop, hoperand, ?_⟩
  rw [← hsome]
  cases hoperand <;> rfl

namespace Layout

/-- The opcodes of the statements in order. -/
def opcodes (layout : Layout) : List Opcode := layout.statements.toList.map Statement.opcode

/-- The instruction part of a line comes behind its label. -/
theorem addLine_label (layout : Layout) (number : Nat) (name : String) (body : Option Body) :
    layout.addLine number ⟨some name, body⟩ =
      layout.define number name >>= fun layout => layout.addLine number ⟨none, body⟩ := rfl

theorem addLine_body (layout : Layout) (number : Nat) (body : Body) :
    layout.addLine number ⟨none, some body⟩ =
      body.statement number >>= fun statement => pure (layout.append statement) := rfl

/-- A line of text that can be added can be read. -/
theorem addText_eq_ok {layout final : Layout} {number : Nat} {text : List Char}
    (h : layout.addText number text = .ok final) :
    ∃ line, Line.parse? (uncommented text) = some line ∧
      layout.addLine number line = .ok final := by
  unfold addText at h
  split at h
  · cases h
  · next line hline => exact ⟨line, hline, h⟩

/-! ## The layout after some lines -/

/-- The layout holds what the lines say. -/
structure Represents (layout : Layout) (lines : List Line) : Prop where
  statements : List.Forall₂ Body.Makes (lines.filterMap Line.body) layout.statements.toList
  size : layout.size = Opcode.words layout.opcodes
  labels : (lines.filterMap Line.label).Nodup
  offsets : ∀ name offset, layout.offset? name = some offset ↔
    ∃ count, Defines lines name count ∧ offset = Opcode.words (layout.opcodes.take count)

theorem define_eq_ok {layout layout' : Layout} {number : Nat} {name : String}
    (h : layout.define number name = .ok layout') :
    layout.offset? name = none ∧
      layout' = { layout with labels := (name, layout.size) :: layout.labels } := by
  unfold define at h
  split at h
  · cases h
  · next hnew =>
      cases h
      exact ⟨by simpa using hnew, rfl⟩

theorem offset?_define (layout : Layout) (name name' : String) (offset : Nat) :
    offset? { layout with labels := (name, offset) :: layout.labels } name' =
      if name' = name then some offset else layout.offset? name' := by
  unfold offset?
  rw [List.lookup_cons]
  by_cases hname : name' = name
  · simp [hname]
  · rw [beq_eq_false_iff_ne.mpr hname, if_neg hname]

namespace Represents

variable {layout layout' : Layout} {lines : List Line}

theorem empty : Represents {} [] where
  statements := .nil
  size := rfl
  labels := .nil
  offsets name offset :=
    ⟨fun h => (by cases h), fun ⟨count, hdefines, _⟩ => absurd hdefines (not_defines_nil _ _)⟩

theorem length_opcodes (h : layout.Represents lines) :
    layout.opcodes.length = (lines.filterMap Line.body).length := by
  rw [opcodes, List.length_map, h.statements.length_eq]

/-- Statements have an operand exactly if their opcode takes one. -/
theorem complete (h : layout.Represents lines) :
    ∀ statement ∈ layout.statements.toList,
      statement.operand.isSome = statement.opcode.takesOperand := by
  have hstatements := h.statements
  generalize lines.filterMap Line.body = bodies at hstatements
  generalize layout.statements.toList = statements at hstatements ⊢
  induction hstatements with
  | nil => simp
  | cons hmakes _ ih => exact List.forall_mem_cons.mpr ⟨hmakes.complete, ih⟩

/-- A line that says nothing. -/
theorem blank (h : layout.Represents lines) : layout.Represents (lines ++ [⟨none, none⟩]) where
  statements := by simpa using h.statements
  size := h.size
  labels := by simpa using h.labels
  offsets name offset := by simpa [defines_concat] using h.offsets name offset

/-- A new label stands for the number of words so far. -/
theorem define (h : layout.Represents lines) {number : Nat} {name : String}
    (hd : layout.define number name = .ok layout') :
    layout'.Represents (lines ++ [⟨some name, none⟩]) := by
  obtain ⟨hnew, rfl⟩ := define_eq_ok hd
  have hfresh : ∀ count, ¬ Defines lines name count := by
    intro count hdefines
    cases hnew.symm.trans ((h.offsets name _).mpr ⟨count, hdefines, rfl⟩)
  refine ⟨by simpa using h.statements, h.size, ?_, fun name' offset => ?_⟩
  · rw [List.filterMap_append, List.nodup_append]
    refine ⟨h.labels, by simp, fun a ha b hb => ?_⟩
    rintro rfl
    obtain rfl : a = name := by simpa using hb
    obtain ⟨count, hdefines⟩ := exists_defines ha
    exact hfresh count hdefines
  rw [offset?_define]
  change _ ↔ ∃ count, _ ∧ offset = Opcode.words (layout.opcodes.take count)
  by_cases hname : name' = name
  · -- the only definition is the new one, behind all statements
    subst hname
    have hall : layout.opcodes.take (lines.filterMap Line.body).length = layout.opcodes :=
      List.take_of_length_le (Nat.le_of_eq h.length_opcodes)
    rw [if_pos rfl, h.size]
    constructor
    · rintro ⟨⟩
      exact ⟨_, defines_concat.mpr (Or.inr ⟨rfl, rfl⟩), by rw [hall]⟩
    · rintro ⟨count, hdefines, rfl⟩
      rcases defines_concat.mp hdefines with hold | ⟨-, rfl⟩
      · exact absurd hold (hfresh count)
      · rw [hall]
  · rw [if_neg hname, h.offsets name' offset]
    simp [defines_concat, Ne.symm hname]

/-- A statement moves none of the labels before it. -/
theorem append {label : Option String} (h : layout.Represents (lines ++ [⟨label, none⟩]))
    {body : Body} {statement : Statement} (hmakes : body.Makes statement) :
    (layout.append statement).Represents (lines ++ [⟨label, some body⟩]) := by
  have hopcodes : (layout.append statement).opcodes = layout.opcodes ++ [statement.opcode] := by
    simp [opcodes, Layout.append]
  refine ⟨?_, ?_, by simpa [List.filterMap_cons] using h.labels, fun name offset => ?_⟩
  · have hstatements := h.statements
    simp only [List.filterMap_append, List.filterMap_cons_none, List.filterMap_nil,
      List.append_nil] at hstatements
    simp only [Layout.append, Array.toList_push, List.filterMap_append]
    exact List.rel_append hstatements (.cons hmakes .nil)
  · rw [hopcodes, Opcode.words_append, ← h.size]
    simp [Layout.append]
  · have hdefines : ∀ count, Defines (lines ++ [⟨label, some body⟩]) name count ↔
        Defines (lines ++ [⟨label, none⟩]) name count := by
      intro count
      rw [defines_concat, defines_concat]
    refine (h.offsets name offset).trans (exists_congr fun count => ?_)
    rw [hdefines, hopcodes]
    refine and_congr_right fun hdef => ?_
    rw [List.take_append_of_le_length (h.length_opcodes ▸ hdef.count_le)]

theorem addBody {label : Option String} (h : layout.Represents (lines ++ [⟨label, none⟩]))
    {number : Nat} {body : Option Body}
    (ha : layout.addLine number ⟨none, body⟩ = .ok layout') :
    layout'.Represents (lines ++ [⟨label, body⟩]) := by
  cases body with
  | none =>
      cases ha
      exact h
  | some body =>
      rw [addLine_body] at ha
      obtain ⟨statement, hstatement, hpure⟩ := bind_eq_ok.mp ha
      cases hpure
      exact h.append (Body.makes_of_statement hstatement)

/-- **Each line keeps the layout in step with the lines.** -/
theorem addLine (h : layout.Represents lines) {number : Nat} {line : Line}
    (ha : layout.addLine number line = .ok layout') : layout'.Represents (lines ++ [line]) := by
  obtain ⟨label, body⟩ := line
  cases label with
  | none => exact h.blank.addBody ha
  | some name =>
      rw [addLine_label] at ha
      obtain ⟨layout₁, hlabel, hbody⟩ := bind_eq_ok.mp ha
      exact (h.define hlabel).addBody hbody

/-- **So the layout of a text represents all of its lines.** -/
theorem addLines (h : layout.Represents lines) {number : Nat} {texts : List (List Char)}
    (ha : layout.addLines number texts = .ok layout') :
    ∃ more, List.Forall₂ (fun text line => Line.parse? (uncommented text) = some line) texts more ∧
      layout'.Represents (lines ++ more) := by
  induction texts generalizing layout lines number with
  | nil =>
      cases ha
      exact ⟨[], .nil, by simpa using h⟩
  | cons text texts ih =>
      obtain ⟨layout₁, htext, hrest⟩ := bind_eq_ok.mp ha
      obtain ⟨line, hline, hadd⟩ := addText_eq_ok htext
      obtain ⟨more, hmore, hlayout⟩ := ih (h.addLine hadd) hrest
      exact ⟨line :: more, .cons hline hmore, by simpa using hlayout⟩

end Represents

/-! ## Writing the words -/

/-- The instruction is the statement with its label resolved. -/
structure Resolves (layout : Layout) (statement : Statement) (i : Instruction) : Prop where
  opcode : i.opcode = statement.opcode
  operand : Option.Rel (fun operand w => layout.resolve statement.line operand = .ok w)
    statement.operand i.operand

/-- The words of a statement are those of an instruction. -/
theorem encode_eq_ok {layout : Layout} {statement : Statement} {words : List Word}
    (h : layout.encode statement = .ok words)
    (hcomplete : statement.operand.isSome = statement.opcode.takesOperand) :
    ∃ i : Instruction, i.encode = words ∧ layout.Resolves statement i := by
  unfold Layout.encode at h
  cases hoperand : statement.operand with
  | none =>
      rw [hoperand] at h hcomplete
      cases h
      obtain ⟨i, hop, hnone⟩ := @Opcode.exists_instruction _ none hcomplete
      refine ⟨i, by rw [Instruction.encode, hop, hnone]; rfl, hop, ?_⟩
      rw [hoperand, hnone]
      exact .none
  | some operand =>
      rw [hoperand] at h hcomplete
      obtain ⟨w, hresolve, hpure⟩ := bind_eq_ok.mp h
      cases hpure
      obtain ⟨i, hop, hsome⟩ := @Opcode.exists_instruction _ (some w) hcomplete
      refine ⟨i, by rw [Instruction.encode, hop, hsome]; rfl, hop, ?_⟩
      rw [hoperand, hsome]
      exact .some hresolve

/-- **The words of a layout are those of instructions, one for each statement.** -/
theorem emit_eq_ok {layout : Layout} {code : Program} (h : layout.emit = .ok code)
    (hcomplete : ∀ statement ∈ layout.statements.toList,
      statement.operand.isSome = statement.opcode.takesOperand) :
    ∃ is, code.toList = is.flatMap Instruction.encode ∧
      List.Forall₂ layout.Resolves layout.statements.toList is := by
  obtain ⟨words, hwords, hpure⟩ := bind_eq_ok.mp h
  cases hpure
  show ∃ is, words.flatten = _ ∧ _
  replace hwords := mapM_eq_ok hwords
  clear h
  generalize layout.statements.toList = statements at hcomplete hwords ⊢
  induction hwords with
  | nil => exact ⟨[], rfl, .nil⟩
  | cons hencode _ ih =>
      obtain ⟨i, hi, hresolves⟩ := encode_eq_ok hencode (hcomplete _ List.mem_cons_self)
      obtain ⟨is, his, hrest⟩ := ih fun statement hmem =>
        hcomplete statement (List.mem_cons_of_mem _ hmem)
      refine ⟨i :: is, ?_, .cons hresolves hrest⟩
      rw [List.flatten_cons, his, List.flatMap_cons, hi]

theorem opcodes_of_resolves {layout : Layout} {is : List Instruction}
    (h : List.Forall₂ layout.Resolves layout.statements.toList is) :
    is.map Instruction.opcode = layout.opcodes := by
  unfold opcodes
  generalize layout.statements.toList = statements at h ⊢
  induction h with
  | nil => rfl
  | cons hresolves _ ih => rw [List.map_cons, List.map_cons, ih, hresolves.opcode]

end Layout

/-! ## Programs -/

/-- What an operand stands for: the word that it writes, or the offset of the first instruction
at or behind the definition of its label. -/
inductive Operand.Means (lines : List Line) (code : Program) : Operand → Word → Prop
  | literal (w : Word) : Means lines code (.literal w) w
  | label {name : String} {count : Nat} {w : Word} :
      Defines lines name count → Word.index? w = some (code.offsetOf count) →
      Means lines code (.label name) w

/-- The instruction is the one that a line describes: it has the opcode that is named there, in
any case, and the operand that is given there. -/
structure Body.Describes (lines : List Line) (code : Program) (body : Body) (i : Instruction) :
    Prop where
  mnemonic : i.opcode.mnemonic.toList = body.mnemonic.toList.map Char.toUpper
  operand : Option.Rel
    (fun text w => ∃ operand, Operand.parse? text.toList = some operand ∧
      operand.Means lines code w)
    body.operand i.operand

namespace Layout

variable {layout : Layout} {lines : List Line} {code : Program} {is : List Instruction}

/-- **In the program, labels stand for the instructions behind them.** -/
theorem Represents.offset?_iff (h : layout.Represents lines)
    (hcode : code.toList = is.flatMap Instruction.encode)
    (hopcodes : is.map Instruction.opcode = layout.opcodes) (name : String) (offset : Nat) :
    layout.offset? name = some offset ↔
      ∃ count, Defines lines name count ∧ offset = code.offsetOf count := by
  rw [h.offsets name offset]
  refine exists_congr fun count => and_congr_right fun _ => ?_
  rw [Program.offsetOf_of_encode hcode, hopcodes]

/-- In a program whose offsets are words, each instruction is the one that its line describes. -/
theorem Represents.describes (h : layout.Represents lines)
    (hoffsets : ∀ name offset, layout.offset? name = some offset ↔
      ∃ count, Defines lines name count ∧ offset = code.offsetOf count)
    (hsize : code.size < Word.positions)
    (hresolves : List.Forall₂ layout.Resolves layout.statements.toList is) :
    List.Forall₂ (Body.Describes lines code) (lines.filterMap Line.body) is := by
  have hmeans : ∀ {line : Nat} {operand : Operand} {w : Word},
      layout.resolve line operand = .ok w → operand.Means lines code w := by
    intro line operand w hresolve
    cases operand with
    | literal value =>
        cases hresolve
        exact .literal _
    | label name =>
        cases hoffset : layout.offset? name with
        | none =>
            simp only [Layout.resolve, hoffset] at hresolve
            cases hresolve
        | some offset =>
            simp only [Layout.resolve, hoffset] at hresolve
            cases hresolve
            obtain ⟨count, hdefines, rfl⟩ := (hoffsets name offset).mp hoffset
            have hle := (code.isBoundary_offsetOf count).le_size
            exact .label hdefines (Word.index?_ofIndex (by omega))
  refine forall₂_comp (fun body statement i hmakes hres => ?_) h.statements hresolves
  refine ⟨by rw [hres.opcode]; exact hmakes.mnemonic, ?_⟩
  exact optionRel_comp (fun text operand w hparse hresolve => ⟨operand, hparse, hmeans hresolve⟩)
    hmakes.operand hres.operand

end Layout

/-- **An assembled program is the one that its text describes.** Reading the program gives, up to
its end and without an error, one instruction for each line that has one, in the same order; it
has the opcode that its line names, and the operand that its line gives. A label is defined once
and stands for the offset of the first instruction at or behind its definition, or for the end of
the code, so it stands for a boundary. -/
theorem assemble_reads_back {source : String} {code : Program} (h : assemble source = .ok code)
    (hsize : code.size < Word.positions) :
    ∃ (lines : List Line) (table : Layout),
      List.Forall₂ (fun text line => Line.parse? (uncommented text) = some line)
        (splitLines source.toList) lines ∧
      code.walk.error = none ∧ code.walk.stop = code.size ∧
      code.toList = (code.walk.instructions.map Prod.snd).flatMap Instruction.encode ∧
      List.Forall₂ (Body.Describes lines code) (lines.filterMap Line.body)
        (code.walk.instructions.map Prod.snd) ∧
      (lines.filterMap Line.label).Nodup ∧ layout source = .ok table ∧
      (∀ name offset, table.offset? name = some offset ↔
        ∃ count, Defines lines name count ∧ offset = code.offsetOf count) ∧
      ∀ name offset, table.offset? name = some offset → code.IsBoundary offset := by
  obtain ⟨table, htable, hemit⟩ := bind_eq_ok.mp h
  obtain ⟨lines, hlines, hrepresents⟩ := Layout.Represents.empty.addLines htable
  rw [List.nil_append] at hrepresents
  obtain ⟨is, hcode, hresolves⟩ := Layout.emit_eq_ok hemit hrepresents.complete
  have hoffsets := hrepresents.offset?_iff hcode (Layout.opcodes_of_resolves hresolves)
  have hwalk := Program.walk_of_encode hcode
  have his : code.walk.instructions.map Prod.snd = is := by
    rw [hwalk]
    exact Instruction.map_snd_placed 0 is
  refine ⟨lines, table, hlines, by rw [hwalk], by rw [hwalk], ?_, ?_, hrepresents.labels, htable,
    hoffsets, fun name offset hoffset => ?_⟩
  · rw [his]
    exact hcode
  · rw [his]
    exact hrepresents.describes hoffsets hsize hresolves
  · obtain ⟨count, -, rfl⟩ := (hoffsets name offset).mp hoffset
    exact code.isBoundary_offsetOf count

/-- A label before its use, one on a line of its own, and one at the end of the code. -/
theorem assemble_reads_back_labels :
    ∃ (source : String) (lines : List Line) (table : Layout),
      assemble source = .ok #[1, 16, 6, 6, 7, 0] ∧ layout source = .ok table ∧
      List.Forall₂ (Body.Describes lines #[1, 16, 6, 6, 7, 0]) (lines.filterMap Line.body)
        [.push 16, .jmp 6, .jmpIfZero 0] ∧
      table.offset? "back" = some 4 ∧ Program.IsBoundary #[1, 16, 6, 6, 7, 0] 4 := by
  let source := "start: push 0x10 ; sixteen\n jmp Last\nback:\n Jmp_If_Zero start\nLast:"
  have hcode : assemble source = .ok #[1, 16, 6, 6, 7, 0] := by decide +kernel
  have hread : (Program.walk #[1, 16, 6, 6, 7, 0]).instructions.map Prod.snd =
      [.push 16, .jmp 6, .jmpIfZero 0] := by decide +kernel
  have hback : (layout source).map (·.offset? "back") = .ok (some 4) := by decide +kernel
  obtain ⟨lines, table, -, -, -, -, hdescribes, -, htable, -, hboundary⟩ :=
    assemble_reads_back hcode (by decide)
  rw [hread] at hdescribes
  rw [htable] at hback
  have hoffset : table.offset? "back" = some 4 := Except.ok.inj hback
  exact ⟨source, lines, table, hcode, htable, hdescribes, hoffset, hboundary "back" 4 hoffset⟩

end StackMachine.Assembly
