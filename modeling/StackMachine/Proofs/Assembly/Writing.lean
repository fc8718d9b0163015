import Mathlib.Data.List.Nodup
import StackMachine.Proofs.Assembly.Layout
import StackMachine.Proofs.Assembly.Lines
import StackMachine.Proofs.Text.Numeral

set_option autoImplicit false

/-! # Writing assembly text

A program can be written with one `Entry` to a line: the definition of a label, or an instruction
whose operand is a decimal number or a label. The lines of such a text are read as the entries
they were written for (`Layout.addText_text`), so laying out the text is adding its entries in
order (`layout_source`). The characters of an entry are neither blank nor a `;`, except for the
one space before an operand, and this is all that reading a line depends on.
-/

namespace StackMachine

open StackMachine.Text

/-! ## Mnemonics -/

namespace Opcode

theorem mem_all (op : Opcode) : op ∈ all := by
  have hget : all[op.ctorIdx]? = some op := by cases op <;> rfl
  exact Array.mem_of_getElem? hget

theorem mnemonic_injective {op op' : Opcode} (h : op.mnemonic = op'.mnemonic) : op = op' := by
  have hnodup : (all.toList.map mnemonic).Nodup := by decide +kernel
  exact List.inj_on_of_nodup_map hnodup (mem_all op).val (mem_all op').val h

theorem toUpper_mnemonic (op : Opcode) :
    op.mnemonic.toList.map Char.toUpper = op.mnemonic.toList := by
  cases op <;> decide +kernel

/-- **A mnemonic names its opcode.** -/
theorem ofMnemonic?_mnemonic (op : Opcode) : ofMnemonic? op.mnemonic = some op := by
  have hsome : (ofMnemonic? op.mnemonic).isSome = true := by
    rw [ofMnemonic?, Array.find?_isSome]
    exact ⟨op, mem_all op, by simp [toUpper_mnemonic]⟩
  obtain ⟨op', hop'⟩ := Option.isSome_iff_exists.mp hsome
  have hname : op'.mnemonic.toList = op.mnemonic.toList.map Char.toUpper := by
    simpa using Array.find?_some hop'
  rw [toUpper_mnemonic] at hname
  rw [hop', mnemonic_injective (String.toList_injective hname)]

end Opcode

/-! ## Decimal numbers -/

namespace Word

theorem toList_text (w : Word) :
    (text w).toList =
      if 0 ≤ w.toInt then Nat.toDigits 10 w.toInt.toNat
      else '-' :: Nat.toDigits 10 (-w.toInt).toNat := by
  rw [text, Int.toString_eq_repr, Int.repr_eq_if]
  split
  · rw [Nat.toList_repr]
  · simp [Nat.toList_repr]

/-- Every word is in the range of words. -/
theorem ofInt?_toInt (w : Word) : ofInt? w.toInt = some w := by
  have hlow := Int32.le_toInt w
  have hhigh := Int32.toInt_lt w
  unfold ofInt? positions
  rw [if_pos (by omega), Int32.ofInt_toInt]

end Word

namespace Assembly

theorem isIdentifier_mnemonic (op : Opcode) : isIdentifier op.mnemonic.toList = true := by
  cases op <;> decide +kernel

/-! ## Operands -/

/-- An operand as it is written: a decimal number, or the name of a label. -/
def Operand.text : Operand → String
  | .literal w => w.text
  | .label name => name

/-- The operand can be written: a label has to be an identifier. -/
def Operand.Writable : Operand → Prop
  | .literal _ => True
  | .label name => isIdentifier name.toList = true

theorem isDigit_of_mem_toDigits {n : Nat} {c : Char} (h : c ∈ Nat.toDigits 10 n) :
    c.isDigit = true :=
  Nat.isDigit_of_mem_toDigits (by decide) (by decide) h

theorem head?_toDigits (n : Nat) : ∃ c cs, Nat.toDigits 10 n = c :: cs ∧ c.isDigit = true := by
  obtain ⟨c, cs, hdigits⟩ := List.exists_cons_of_ne_nil (Nat.toDigits_ne_nil (n := n) (b := 10))
  exact ⟨c, cs, hdigits, isDigit_of_mem_toDigits (by rw [hdigits]; exact List.mem_cons_self)⟩

/-- Decimal digits never look like a hexadecimal number. -/
theorem number?_toDigits (n : Nat) : number? (Nat.toDigits 10 n) = some (n : Int) := by
  have hx : ∀ c ∈ Nat.toDigits 10 n, c ≠ 'x' ∧ c ≠ 'X' := by
    intro c hc
    have hdigit := isDigit_of_mem_toDigits hc
    constructor <;> rintro rfl <;> cases hdigit
  have hvalue := Numeral.value?_toDigits (by decide : 1 < 10) (by decide) n
  unfold number?
  split
  · next hdigits => exact absurd rfl (hx 'x' (by simp [hdigits])).1
  · next hdigits => exact absurd rfl (hx 'X' (by simp [hdigits])).2
  · rw [hvalue]
    rfl

theorem Operand.parse?_literal (w : Word) :
    Operand.parse? (Operand.literal w).text.toList = some (.literal w) := by
  rw [text, Word.toList_text]
  split
  · next hsign =>
      obtain ⟨c, cs, hdigits, hdigit⟩ := head?_toDigits w.toInt.toNat
      have hnumber := number?_toDigits w.toInt.toNat
      rw [Int.toNat_of_nonneg hsign] at hnumber
      rw [hdigits] at hnumber ⊢
      rw [parse?, if_pos hdigit, hnumber, Option.bind_some, Word.ofInt?_toInt]
      rfl
  · next hsign =>
      obtain ⟨c, cs, hdigits, hdigit⟩ := head?_toDigits (-w.toInt).toNat
      have hnumber := number?_toDigits (-w.toInt).toNat
      rw [Int.toNat_of_nonneg (by omega)] at hnumber
      have hhead : (Nat.toDigits 10 (-w.toInt).toNat).head?.any Char.isDigit = true := by
        rw [hdigits]
        exact hdigit
      have hminus : ¬ '-'.isDigit = true := by decide
      rw [parse?, if_neg hminus, if_pos rfl, if_pos hhead, hnumber, Option.bind_some,
        Int.neg_neg, Word.ofInt?_toInt]
      rfl

/-- The first character of an identifier is no digit and no sign. -/
theorem ne_of_isIdentifierStart {c : Char} (h : isIdentifierStart c = true) :
    ¬ c.isDigit = true ∧ c ≠ '-' := by
  have hrange := toNat_of_isIdentifierStart h
  constructor
  · intro hdigit
    have := toNat_of_isDigit hdigit
    omega
  · rintro rfl
    revert hrange
    decide

/-- **A written operand is read as itself.** -/
theorem Operand.parse?_text {operand : Operand} (h : operand.Writable) :
    Operand.parse? operand.text.toList = some operand := by
  cases operand with
  | literal w => exact parse?_literal w
  | label name =>
      change isIdentifier name.toList = true at h
      cases hname : name.toList with
      | nil => rw [hname] at h; cases h
      | cons c cs =>
          rw [hname] at h
          have hstart := (isIdentifier_cons.mp h).1
          obtain ⟨hdigit, hminus⟩ := ne_of_isIdentifierStart hstart
          rw [text, hname, parse?, if_neg hdigit, if_neg hminus, if_pos hstart, ← hname,
            String.ofList_toList]

/-- Characters of identifiers and signs make a token. -/
theorem isToken_of_parts {token : List Char} (hne : token ≠ [])
    (hchars : ∀ c ∈ token, isIdentifierPart c = true ∨ c = '-') : IsToken token := by
  have hcolon : ¬ (isIdentifierPart ':' = true ∨ ':' = '-') := by decide
  refine ⟨hne, fun c hc => ?_, fun hhead => hcolon (hchars ':' (List.mem_of_head? hhead))⟩
  rcases hchars c hc with hpart | rfl
  · exact isPlain_of_isIdentifierPart hpart
  · decide

theorem Operand.isToken_text {operand : Operand} (h : operand.Writable) :
    IsToken operand.text.toList := by
  have hdigits : ∀ n, ∀ c ∈ Nat.toDigits 10 n, isIdentifierPart c = true := fun n c hc =>
    isIdentifierPart_of_isDigit (isDigit_of_mem_toDigits hc)
  cases operand with
  | literal w =>
      rw [text, Word.toList_text]
      split
      · exact isToken_of_parts Nat.toDigits_ne_nil fun c hc => Or.inl (hdigits _ c hc)
      · refine isToken_of_parts (List.cons_ne_nil _ _) fun c hc => ?_
        rcases List.mem_cons.mp hc with rfl | hc
        · exact Or.inr rfl
        · exact Or.inl (hdigits _ c hc)
  | label name =>
      change isIdentifier name.toList = true at h
      rw [text]
      cases hname : name.toList with
      | nil => rw [hname] at h; cases h
      | cons c cs =>
          rw [hname] at h
          obtain ⟨hstart, hparts⟩ := isIdentifier_cons.mp h
          refine isToken_of_parts (List.cons_ne_nil _ _) fun d hd => Or.inl ?_
          rcases List.mem_cons.mp hd with rfl | hd
          · exact isIdentifierPart_of_start hstart
          · exact hparts d hd

/-! ## Entries -/

/-- The definition of a label or an instruction, as it stands on a line of its own. -/
inductive Entry where
  | label (name : String)
  | instruction (opcode : Opcode) (operand : Option Operand)
  deriving DecidableEq, Repr

namespace Entry

/-- The line of an entry. -/
def text : Entry → String
  | label name => name ++ ":"
  | instruction opcode none => opcode.mnemonic
  | instruction opcode (some operand) => opcode.mnemonic ++ " " ++ operand.text

/-- The entry can be written: labels are identifiers, and an operand is there when the opcode
takes one. -/
def Writable : Entry → Prop
  | label name => isIdentifier name.toList = true
  | instruction opcode operand =>
    operand.isSome = opcode.takesOperand ∧ ∀ o ∈ operand, o.Writable

/-- What the line of an entry says. -/
def line : Entry → Line
  | label name => ⟨some name, none⟩
  | instruction opcode operand => ⟨none, some ⟨opcode.mnemonic, operand.map Operand.text⟩⟩

/-- The characters of an entry, apart from the space before its operand. -/
theorem isPlain_of_mem_text {e : Entry} (h : e.Writable) {c : Char} (hc : c ∈ e.text.toList) :
    isPlain c = true ∨ c = ' ' := by
  have hmnemonic : ∀ op : Opcode, ∀ d ∈ op.mnemonic.toList, isPlain d = true := fun op d hd =>
    isPlain_of_mem_identifier (isIdentifier_mnemonic op) hd
  cases e with
  | label name =>
      simp only [text, String.toList_append, List.mem_append] at hc
      rcases hc with hc | hc
      · exact Or.inl (isPlain_of_mem_identifier h hc)
      · obtain rfl : c = ':' := by simpa using hc
        exact Or.inl (by decide)
  | instruction op operand =>
      cases operand with
      | none => exact Or.inl (hmnemonic op c hc)
      | some operand =>
          simp only [text, String.toList_append, List.mem_append] at hc
          rcases hc with (hc | hc) | hc
          · exact Or.inl (hmnemonic op c hc)
          · exact Or.inr (by simpa using hc)
          · exact Or.inl ((Operand.isToken_text (h.2 operand rfl)).plain c hc)

/-- **The line of an entry is read as what the entry says.** -/
theorem parse?_text {e : Entry} (h : e.Writable) :
    Line.parse? (uncommented e.text.toList) = some e.line := by
  have huncommented : uncommented e.text.toList = e.text.toList := by
    have hall : ∀ c ∈ e.text.toList, decide (c ≠ ';') = true := by
      intro c hc
      rcases isPlain_of_mem_text h hc with hplain | rfl
      · simpa using (isPlain_iff.mp hplain).2
      · decide
    have htake : (e.text.toList ++ []).takeWhile (· ≠ ';') = e.text.toList ++ [] :=
      List.takeWhile_append_of_pos hall
    simpa [uncommented] using htake
  rw [huncommented]
  cases e with
  | label name =>
      have := parse?_label h
      simpa [text, line] using this
  | instruction op operand =>
      cases operand with
      | none => exact parse?_mnemonic (isIdentifier_mnemonic op)
      | some operand =>
          have := parse?_operand (isIdentifier_mnemonic op) (Operand.isToken_text (h.2 operand rfl))
          simpa [text, line] using this

/-- The instruction part of an entry is the statement it was written for. -/
theorem statement_eq {opcode : Opcode} {operand : Option Operand}
    (h : (instruction opcode operand).Writable) (number : Nat) :
    Body.statement ⟨opcode.mnemonic, operand.map Operand.text⟩ number =
      .ok ⟨number, opcode, operand⟩ := by
  obtain ⟨htakes, hwritable⟩ := h
  cases operand with
  | none =>
      have hfalse : opcode.takesOperand = false := htakes.symm
      simp [Body.statement, Opcode.ofMnemonic?_mnemonic, hfalse]
  | some operand =>
      have htrue : opcode.takesOperand = true := htakes.symm
      simp [Body.statement, Opcode.ofMnemonic?_mnemonic, htrue,
        Operand.parse?_text (hwritable operand rfl)]

end Entry

/-! ## Texts -/

/-- A text with one entry to a line. -/
def source (entries : List Entry) : String :=
  String.join (entries.map fun e => e.text ++ "\n")

theorem splitLines_source {entries : List Entry} (h : ∀ e ∈ entries, e.Writable) :
    splitLines (source entries).toList = entries.map (·.text.toList) ++ [[]] := by
  have hsource : (source entries).toList =
      (entries.map (·.text.toList)).flatMap (· ++ ['\n']) := by
    simp [source, String.toList_join, List.flatMap_map]
  rw [hsource, splitLines_flatMap]
  intro line hline
  obtain ⟨e, he, rfl⟩ := List.mem_map.mp hline
  intro hnewline
  have hplain := Entry.isPlain_of_mem_text (h e he) hnewline
  revert hplain
  decide

namespace Layout

/-- Add an entry that stands on a line with the given number. -/
def add (layout : Layout) (number : Nat) : Entry → Except Error Layout
  | .label name => layout.define number name
  | .instruction opcode operand => .ok (layout.append ⟨number, opcode, operand⟩)

/-- Add entries on lines that are numbered from `number` on. -/
def addAll (layout : Layout) (number : Nat) : List Entry → Except Error Layout
  | [] => .ok layout
  | e :: es => do
    let layout ← layout.add number e
    layout.addAll (number + 1) es

/-- **Reading the line of an entry adds the entry.** -/
theorem addText_text {e : Entry} (h : e.Writable) (layout : Layout) (number : Nat) :
    layout.addText number e.text.toList = layout.add number e := by
  rw [addText, Entry.parse?_text h]
  cases e with
  | label name =>
      show layout.addLine number ⟨some name, none⟩ = layout.define number name
      rw [addLine_label]
      cases layout.define number name <;> rfl
  | instruction op operand =>
      show layout.addLine number ⟨none, some ⟨op.mnemonic, operand.map Operand.text⟩⟩ = _
      rw [addLine_body, Entry.statement_eq h]
      rfl

theorem addLines_text {entries : List Entry} (h : ∀ e ∈ entries, e.Writable) (layout : Layout)
    (number : Nat) :
    layout.addLines number (entries.map (·.text.toList) ++ [[]]) =
      layout.addAll number entries := by
  induction entries generalizing layout number with
  | nil => rfl
  | cons e es ih =>
      rw [List.map_cons, List.cons_append, addLines, addAll,
        addText_text (h e List.mem_cons_self)]
      cases layout.add number e with
      | error error => rfl
      | ok layout' => exact ih (fun e he => h e (List.mem_cons_of_mem _ he)) layout' (number + 1)

theorem addAll_singleton (layout : Layout) (number : Nat) (e : Entry) :
    layout.addAll number [e] = layout.add number e := by
  rw [addAll]
  cases layout.add number e <;> rfl

theorem addAll_append (layout : Layout) (number : Nat) (es es' : List Entry) :
    layout.addAll number (es ++ es') =
      layout.addAll number es >>= fun layout' => layout'.addAll (number + es.length) es' := by
  induction es generalizing layout number with
  | nil => rfl
  | cons e es ih =>
      rw [List.cons_append, addAll, addAll, List.length_cons]
      cases layout.add number e with
      | error error => rfl
      | ok layout₁ =>
          have hrest := ih layout₁ (number + 1)
          rw [Nat.add_right_comm] at hrest
          exact hrest

/-- The statements of entries on lines that are numbered from `number` on. -/
def numbered (number : Nat) : List Entry → List Statement
  | [] => []
  | .label _ :: es => numbered (number + 1) es
  | .instruction opcode operand :: es => ⟨number, opcode, operand⟩ :: numbered (number + 1) es

theorem statements_addAll {entries : List Entry} {layout layout' : Layout} {number : Nat}
    (h : layout.addAll number entries = .ok layout') :
    layout'.statements.toList = layout.statements.toList ++ numbered number entries := by
  induction entries generalizing layout number with
  | nil =>
      cases h
      rw [numbered, List.append_nil]
  | cons e es ih =>
      obtain ⟨layout₁, hadd, hrest⟩ := bind_eq_ok.mp h
      rw [ih hrest]
      cases e with
      | label name =>
          obtain ⟨-, rfl⟩ := define_eq_ok hadd
          rw [numbered]
      | instruction op operand =>
          cases hadd
          simp [append, numbered]

/-- A statement comes from the entry on its line, and those before it from the lines before. -/
theorem numbered_eq_append {number : Nat} {entries : List Entry} {before after : List Statement}
    {s : Statement} (h : numbered number entries = before ++ s :: after) :
    ∃ es es', entries = es ++ .instruction s.opcode s.operand :: es' ∧
      s.line = number + es.length ∧ numbered number es = before := by
  induction entries generalizing number before with
  | nil => simp [numbered] at h
  | cons e entries ih =>
      cases e with
      | label name =>
          obtain ⟨es, es', rfl, hline, hbefore⟩ := ih h
          exact ⟨.label name :: es, es', rfl, by rw [hline, List.length_cons]; omega, hbefore⟩
      | instruction opcode operand =>
          rw [numbered] at h
          cases before with
          | nil =>
              obtain ⟨rfl, -⟩ := List.cons.inj h
              exact ⟨[], entries, rfl, rfl, rfl⟩
          | cons first before =>
              rw [List.cons_append] at h
              obtain ⟨rfl, hrest⟩ := List.cons.inj h
              obtain ⟨es, es', rfl, hline, hbefore⟩ := ih hrest
              refine ⟨.instruction opcode operand :: es, es', rfl, ?_, by rw [numbered, hbefore]⟩
              rw [hline, List.length_cons]
              omega

theorem mem_numbered (number : Nat) {entries : List Entry} {opcode : Opcode}
    {operand : Option Operand} (h : .instruction opcode operand ∈ entries) :
    ∃ line, ⟨line, opcode, operand⟩ ∈ numbered number entries := by
  induction entries generalizing number with
  | nil => cases h
  | cons e entries ih =>
      rcases List.mem_cons.mp h with rfl | hrest
      · exact ⟨number, List.mem_cons_self⟩
      · obtain ⟨line, hline⟩ := ih (number + 1) hrest
        cases e with
        | label name => exact ⟨line, hline⟩
        | instruction opcode' operand' => exact ⟨line, List.mem_cons_of_mem _ hline⟩

end Layout

/-- **Laying out a written text is adding its entries in order.** -/
theorem layout_source {entries : List Entry} (h : ∀ e ∈ entries, e.Writable) :
    layout (source entries) = Layout.addAll {} 1 entries := by
  rw [layout, splitLines_source h, Layout.addLines_text h]

end Assembly

end StackMachine
