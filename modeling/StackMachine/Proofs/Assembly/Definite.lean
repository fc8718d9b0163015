import StackMachine.Proofs.Assembly.Grammar

set_option autoImplicit false

/-! # Lines with one reading

A line such as `a :b` has two readings, with a label and with an operand that begins with a `:`.
Operands of instructions never begin so. Hence a line that can be added to a layout is definite
(`Layout.definite_of_addLine`): any reading of it without such an operand is the one that is found
(`IsReading.parse?_of_definite`), its label is the identifier before its first `:`
(`Line.Definite.eq_label`), and what is read behind a mnemonic does not depend on the mnemonic
(`body?_eq`).
-/

namespace StackMachine.Assembly

open StackMachine.Text

/-! ## Comments -/

theorem uncommented_append {text : List Char} (h : ';' ∉ text) (rest : List Char) :
    uncommented (text ++ rest) = text ++ uncommented rest := by
  refine List.takeWhile_append_of_pos fun c hc => ?_
  rw [decide_eq_true_eq]
  rintro rfl
  exact h hc

theorem uncommented_comment (line text : List Char) :
    uncommented (line ++ ';' :: text) = uncommented line := by
  unfold uncommented
  induction line with
  | nil => rfl
  | cons c cs ih => rw [List.cons_append, List.takeWhile_cons, List.takeWhile_cons, ih]

theorem not_mem_of_isBlanks {blanks : List Char} (h : IsBlanks blanks) : ';' ∉ blanks := by
  intro hmem
  have hsemicolon : isBlank ';' = false := by decide
  rw [h ';' hmem] at hsemicolon
  cases hsemicolon

theorem not_mem_of_isIdentifier {name : List Char} (h : isIdentifier name = true) :
    ';' ∉ name := by
  intro hmem
  exact (isPlain_iff.mp (isPlain_of_mem_identifier h hmem)).2 rfl

theorem WritesLabel.not_mem {label : Option String} {head : List Char}
    (h : WritesLabel label head) : ';' ∉ head := by
  cases h with
  | missing => exact List.not_mem_nil
  | colon hname hblanks =>
      simp [not_mem_of_isIdentifier hname, not_mem_of_isBlanks hblanks]

/-! ## The reading of a line -/

/-- The operand of the line, if there is one, does not begin with a `:`. -/
def Line.Definite (line : Line) : Prop :=
  ∀ body ∈ line.body, ∀ operand ∈ body.operand, operand.toList.head? ≠ some ':'

/-- **A line that can be added is definite, because no operand begins with a `:`.** -/
theorem Layout.definite_of_addLine {layout final : Layout} {number : Nat} {line : Line}
    (h : layout.addLine number line = .ok final) : line.Definite := by
  intro body hbody text htext hcolon
  obtain ⟨label, body'⟩ := line
  obtain rfl : body' = some body := hbody
  -- the label comes first, and the instruction is added behind it
  obtain ⟨layout₁, hadd⟩ : ∃ layout₁ : Layout,
      layout₁.addLine number ⟨none, some body⟩ = .ok final := by
    cases label with
    | none => exact ⟨layout, h⟩
    | some name =>
        rw [addLine_label] at h
        obtain ⟨layout₁, -, hrest⟩ := bind_eq_ok.mp h
        exact ⟨layout₁, hrest⟩
  rw [addLine_body] at hadd
  obtain ⟨s, hs, -⟩ := bind_eq_ok.mp hadd
  obtain ⟨-, -, hoperand, -⟩ := Body.statement_eq_ok_iff.mp hs
  obtain ⟨cs, hcs⟩ := List.head?_eq_some_iff.mp hcolon
  have hnone : Operand.parse? text.toList = none := by
    rw [hcs]
    rfl
  rw [Option.mem_def.mp htext] at hoperand
  generalize s.operand = operand at hoperand
  cases hoperand with
  | some hread => cases hnone.symm.trans hread

/-- An instruction does not look like the definition of a label, unless its operand does. -/
theorem labelled?_of_writes {before tail after : List Char} {body : Option Body}
    (hbefore : IsBlanks before) (htail : WritesBody body tail) (hafter : IsBlanks after)
    (hdefinite : Line.Definite ⟨none, body⟩) : labelled? (before ++ (tail ++ after)) = none := by
  rw [labelled?_skip hbefore]
  cases htail with
  | missing =>
      rw [List.nil_append, labelled?, isBlanks_iff.mp hafter]
      rfl
  | mnemonic hname =>
      refine labelled?_eq_none hname (not_part_of_blanks hafter) ?_
      rw [isBlanks_iff.mp hafter]
      simp
  | @operand name blanks operand hname hblanks hne hrun =>
      rw [List.append_assoc, List.append_assoc]
      refine labelled?_eq_none hname ?_ ?_
      · intro c hc
        obtain ⟨d, ds, rfl⟩ := List.exists_cons_of_ne_nil hne
        exact not_part_of_blanks hblanks c (by simpa using hc)
      · have hhead : operand.head? ≠ some ':' := by
          simpa using hdefinite _ rfl _ rfl
        obtain ⟨d, ds, rfl⟩ := List.exists_cons_of_ne_nil hrun.nonempty
        rw [dropWhile_blanks hblanks, dropWhile_isBlank (hrun.head_not_blank after)]
        simpa using hhead

/-- **A definite reading is the one that is found.** -/
theorem IsReading.parse?_of_definite {line : Line} {text : List Char} (h : IsReading line text)
    (hdefinite : line.Definite) : Line.parse? text = some line := by
  by_cases hlabel : line.label = none
  · obtain ⟨label, body⟩ := line
    obtain rfl : label = none := hlabel
    have hplain := unlabelled_eq_some_iff.mpr ⟨h, rfl⟩
    obtain ⟨body', hbody, heq⟩ := Option.map_eq_some_iff.mp hplain
    cases heq
    obtain ⟨before, tail, after, rfl, hbefore, htail, hafter⟩ := body?_eq_some_iff.mp hbody
    rw [Line.parse?, labelled?_of_writes hbefore htail hafter hdefinite]
    exact hplain
  · rw [Line.parse?, labelled?_eq_some_iff.mpr ⟨h, hlabel⟩]

/-! ## What is read behind a mnemonic -/

/-- What is read as the operand behind a mnemonic. -/
def operand? (rest : List Char) : Option (Option String) :=
  if rest.head?.all isBlank then token? rest else none

/-- The operand does not depend on the mnemonic. -/
theorem body?_eq {name rest : List Char} (hname : isIdentifier name = true)
    (hrest : ∀ c ∈ rest.head?, isIdentifierPart c = false) :
    body? (name ++ rest) =
      (operand? rest).map fun operand => some ⟨String.ofList name, operand⟩ := by
  cases rest with
  | nil =>
      have hread : body? (name ++ []) = _ := body?_identifier hname (by simp)
      rw [hread, if_pos rfl]
      rfl
  | cons d ds =>
      by_cases hd : isBlank d = true
      · have hboth : ∀ c ∈ (d :: ds).head?, isIdentifierPart c = false ∧ isBlank c = true := by
          intro c hc
          obtain rfl : d = c := by simpa using hc
          exact ⟨hrest d rfl, hd⟩
        rw [body?_identifier hname hboth, if_neg (List.cons_ne_nil d ds), operand?]
        simp [hd]
      · have hread := identifier?_append hname hrest
        obtain ⟨c, cs, hcons⟩ : ∃ c cs, name ++ d :: ds = c :: cs := by
          cases name with
          | nil => exact ⟨d, ds, rfl⟩
          | cons c cs => exact ⟨c, cs ++ d :: ds, rfl⟩
        rw [body?, dropWhile_isBlank_identifier hname, operand?]
        rw [hcons] at hread ⊢
        simp [hread, hd]

/-- How many blanks there are in front of an operand does not matter. -/
theorem operand?_blanks {blanks : List Char} (h : IsBlanks blanks) (hne : blanks ≠ [])
    (rest : List Char) : operand? (blanks ++ rest) = token? rest := by
  obtain ⟨d, ds, rfl⟩ := List.exists_cons_of_ne_nil hne
  have hd : isBlank d = true := h d List.mem_cons_self
  have hskip : token? (d :: ds ++ rest) = token? rest := token?_skip h rest
  rw [operand?, hskip]
  simp [hd]

/-- A `:` behind a mnemonic is the start of an operand, or else nothing can be read. -/
theorem operand?_colon {blanks rest : List Char} {operand : Option String} (h : IsBlanks blanks)
    (hread : operand? (blanks ++ ':' :: rest) = some operand) :
    ∃ text ∈ operand, text.toList.head? = some ':' := by
  have hcolon : isBlank ':' = false := by decide
  cases blanks with
  | nil => simp [operand?, hcolon] at hread
  | cons d ds =>
      rw [operand?_blanks h (List.cons_ne_nil d ds)] at hread
      rcases token?_cases hread with ⟨-, hblank⟩ | ⟨before, run, after, heq, hbefore, hrun, -, rfl⟩
      · rw [hblank ':' List.mem_cons_self] at hcolon
        cases hcolon
      · have hstart := dropWhile_blanks hbefore (run ++ after)
        rw [← heq, dropWhile_isBlank (hrun.head_not_blank after),
          List.dropWhile_cons_of_neg (by simp [hcolon])] at hstart
        obtain ⟨e, es, rfl⟩ := List.exists_cons_of_ne_nil hrun.nonempty
        obtain ⟨rfl, -⟩ := List.cons.inj hstart
        exact ⟨_, rfl, by simp⟩

/-- **The label of a definite line is the identifier before its first `:`.** -/
theorem Line.Definite.eq_label {before name blanks rest : List Char} {line : Line}
    (hdefinite : line.Definite) (hbefore : IsBlanks before) (hname : isIdentifier name = true)
    (hblanks : IsBlanks blanks)
    (h : Line.parse? (before ++ (name ++ (blanks ++ ':' :: rest))) = some line) :
    ∃ body, body? rest = some body ∧ line = ⟨some (String.ofList name), body⟩ := by
  rw [Line.parse?, labelled?_label hbefore hname hblanks] at h
  cases hbody : body? rest with
  | some body =>
      rw [hbody] at h
      exact ⟨body, rfl, (Option.some.inj h).symm⟩
  | none =>
      exfalso
      rw [hbody, Option.map_none] at h
      dsimp only at h
      rw [body?_skip hbefore, body?_eq hname (not_part_of_colon hblanks rest), Option.map_map] at h
      obtain ⟨operand, hoperand, rfl⟩ := Option.map_eq_some_iff.mp h
      obtain ⟨text, rfl, hcolon⟩ := operand?_colon hblanks hoperand
      exact hdefinite _ rfl _ rfl hcolon

end StackMachine.Assembly
