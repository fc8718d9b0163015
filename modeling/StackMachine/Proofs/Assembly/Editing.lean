import Mathlib.Logic.Relation
import StackMachine.Proofs.Assembly.Definite
import StackMachine.Proofs.Assembly.Renumbering

set_option autoImplicit false

/-! # Edits that change the layout of a text

A text can be laid out in many ways: with comments, blanks and empty lines, with labels on lines of
their own, and with mnemonics in any case. `Rewrites` lists the edits that lead from one layout to
another, and `Edit` makes one of them at any place of a text. Each of them replaces lines by lines
that can stand for them (`Rewrites.canReplace`), so the words of a program stay the same however
often and wherever its text is edited (`assemble_edited`). A line that can be added has only one
reading (`IsReading.parse?_of_definite`), so an edit of a line has only to keep this reading.
-/

namespace StackMachine.Assembly

open StackMachine.Text

/-! ## The edits -/

/-- What stands before the instruction of a line: blanks, and perhaps the definition of a label
among them. -/
inductive IsFront : List Char → Prop
  | intro {label : Option String} {before head between : List Char} :
      IsBlanks before → WritesLabel label head → IsBlanks between →
      IsFront (before ++ head ++ between)

/-- What can stand behind a mnemonic: it does not continue the identifier, and it has no `:` in
front, for an identifier with a `:` behind it is no mnemonic but a label. -/
structure EndsMnemonic (rest : List Char) : Prop where
  stops : ∀ c ∈ rest.head?, isIdentifierPart c = false
  noColon : (rest.dropWhile isBlank).head? ≠ some ':'

/-- The new lines say what the old lines say. -/
inductive Rewrites : List (List Char) → List (List Char) → Prop
  /-- A comment is appended to a line. -/
  | comment (line text : List Char) : Rewrites [line] [line ++ ';' :: text]
  /-- Blanks are added at the start of a line. -/
  | indent {blanks : List Char} (line : List Char) :
      IsBlanks blanks → Rewrites [line] [blanks ++ line]
  /-- Blanks are added at the end of a line, before the comment if there is one. -/
  | pad {code comment blanks : List Char} :
      ';' ∉ code → (∀ c ∈ comment.head?, c = ';') → IsBlanks blanks →
      Rewrites [code ++ comment] [code ++ blanks ++ comment]
  /-- The blanks behind a mnemonic are replaced by others. -/
  | widen {front name blanks blanks' rest : List Char} :
      IsFront front → isIdentifier name = true → EndsMnemonic (blanks ++ rest) →
      IsBlanks blanks → blanks ≠ [] → IsBlanks blanks' → blanks' ≠ [] →
      Rewrites [front ++ name ++ blanks ++ rest] [front ++ name ++ blanks' ++ rest]
  /-- A line is inserted that is empty or holds only a comment. -/
  | insert {line : List Char} : IsBlanks (uncommented line) → Rewrites [] [line]
  /-- The definition of a label is moved to a line of its own. -/
  | detach {name : String} {head before between before' after between' : List Char}
      (rest : List Char) :
      WritesLabel (some name) head → IsBlanks before → IsBlanks between → IsBlanks before' →
      IsBlanks after → IsBlanks between' →
      Rewrites [before ++ head ++ between ++ rest] [before' ++ head ++ after, between' ++ rest]
  /-- The case of a mnemonic is changed. -/
  | recase {front name name' rest : List Char} :
      IsFront front → isIdentifier name = true → EndsMnemonic rest →
      name'.map Char.toUpper = name.map Char.toUpper →
      Rewrites [front ++ name ++ rest] [front ++ name' ++ rest]

/-- One edit of a text, given by its lines. -/
inductive Edit : List (List Char) → List (List Char) → Prop
  | intro (before after : List (List Char)) {old new : List (List Char)} :
      Rewrites old new → (∀ line ∈ new, '\n' ∉ line) →
      Edit (before ++ old ++ after) (before ++ new ++ after)

/-! ## Edits of single lines -/

theorem Line.SaysSame.definite {line line' : Line} (h : line.SaysSame line')
    (hdefinite : line.Definite) : line'.Definite := by
  intro body' hbody' operand hoperand
  have hrel := h.body
  rw [Option.mem_def.mp hbody'] at hrel
  generalize hbody : line.body = body at hrel
  cases hrel with
  | some hsame => exact hdefinite _ hbody operand (hsame.operand ▸ hoperand)

/-- A line can be replaced by one that has the same readings. -/
theorem CanReplace.of_reading {text text' : List Char}
    (h : ∀ line, line.Definite → Line.parse? (uncommented text) = some line →
      ∃ line', IsReading line' (uncommented text') ∧ line.SaysSame line') :
    CanReplace [text] [text'] := by
  refine .of_line fun layout final number hadd => ?_
  obtain ⟨line, hline, hadd⟩ := Layout.addText_eq_ok hadd
  have hdefinite := Layout.definite_of_addLine hadd
  obtain ⟨line', hreading, hsame⟩ := h line hdefinite hline
  exact ⟨line, line', hline, hreading.parse?_of_definite (hsame.definite hdefinite), hsame⟩

theorem IsReading.of_parse? {line : Line} {text : List Char} (h : Line.parse? text = some line) :
    IsReading line text := (Line.parse?_eq_some_iff.mp h).1

theorem IsReading.indent {line : Line} {text blanks : List Char} (h : IsReading line text)
    (hblanks : IsBlanks blanks) : IsReading line (blanks ++ text) := by
  cases h with
  | intro hbefore hhead hbetween htail hafter =>
      simp only [← List.append_assoc]
      exact .intro (isBlanks_append.mpr ⟨hblanks, hbefore⟩) hhead hbetween htail hafter

theorem IsReading.pad {line : Line} {text blanks : List Char} (h : IsReading line text)
    (hblanks : IsBlanks blanks) : IsReading line (text ++ blanks) := by
  cases h with
  | intro hbefore hhead hbetween htail hafter =>
      rw [List.append_assoc]
      exact .intro hbefore hhead hbetween htail (isBlanks_append.mpr ⟨hafter, hblanks⟩)

theorem canReplace_comment (line text : List Char) :
    CanReplace [line] [line ++ ';' :: text] := by
  refine .of_reading fun said _ hsaid => ⟨said, ?_, said.saysSame_refl⟩
  rw [uncommented_comment]
  exact .of_parse? hsaid

theorem canReplace_indent {blanks : List Char} (hblanks : IsBlanks blanks) (line : List Char) :
    CanReplace [line] [blanks ++ line] := by
  refine .of_reading fun said _ hsaid => ⟨said, ?_, said.saysSame_refl⟩
  rw [uncommented_append (not_mem_of_isBlanks hblanks)]
  exact (IsReading.of_parse? hsaid).indent hblanks

theorem canReplace_pad {code comment blanks : List Char} (hcode : ';' ∉ code)
    (hcomment : ∀ c ∈ comment.head?, c = ';') (hblanks : IsBlanks blanks) :
    CanReplace [code ++ comment] [code ++ blanks ++ comment] := by
  have hnone : uncommented comment = [] := by
    cases comment with
    | nil => rfl
    | cons c cs =>
        obtain rfl := hcomment c rfl
        rfl
  refine .of_reading fun said _ hsaid => ⟨said, ?_, said.saysSame_refl⟩
  rw [uncommented_append hcode, hnone, List.append_nil] at hsaid
  rw [List.append_assoc, uncommented_append hcode,
    uncommented_append (not_mem_of_isBlanks hblanks), hnone, List.append_nil]
  exact (IsReading.of_parse? hsaid).pad hblanks

/-! ## Edits of mnemonics -/

theorem IsFront.not_mem {front : List Char} (h : IsFront front) : ';' ∉ front := by
  cases h with
  | intro hbefore hhead hbetween =>
      simp [not_mem_of_isBlanks hbefore, hhead.not_mem, not_mem_of_isBlanks hbetween]

theorem EndsMnemonic.uncommented {rest : List Char} (h : EndsMnemonic rest) :
    EndsMnemonic (uncommented rest) := by
  obtain ⟨blanks, hblanks, heq⟩ := exists_blanks rest
  have hcut : ∀ text : List Char,
      Assembly.uncommented text = [] ∨ (Assembly.uncommented text).head? = text.head? := by
    intro text
    cases text with
    | nil => exact Or.inl rfl
    | cons c cs => by_cases hc : c = ';' <;> simp [Assembly.uncommented, hc]
  constructor
  · intro c hc
    rcases hcut rest with hnil | hhead
    · rw [hnil] at hc
      cases hc
    · exact h.stops c (hhead ▸ hc)
  · -- the first character that is not blank is cut off with the comment, or it is the same
    have hsolid : ∀ c ∈ (rest.dropWhile isBlank).head?, isBlank c = false := by
      intro c hc
      have hhead := List.head?_dropWhile_not isBlank rest
      rw [Option.mem_def.mp hc] at hhead
      simpa using hhead
    have hstart := h.noColon
    generalize rest.dropWhile isBlank = code at heq hsolid hstart
    rw [heq, uncommented_append (not_mem_of_isBlanks hblanks), dropWhile_blanks hblanks]
    rcases hcut code with hnil | hhead
    · simp [hnil]
    · rw [dropWhile_isBlank (hhead ▸ hsolid), hhead]
      exact hstart

/-- **What stands before an instruction does not depend on the instruction.** -/
theorem IsFront.exists_body {front rest : List Char} {line : Line} (hfront : IsFront front)
    (hdefinite : line.Definite) (hlabel : labelled? rest = none)
    (h : Line.parse? (front ++ rest) = some line) :
    body? rest = some line.body ∧
      ∀ rest' body', body? rest' = some body' → IsReading ⟨line.label, body'⟩ (front ++ rest') := by
  cases hfront with
  | @intro label before head between hbefore hhead hbetween =>
      cases hhead with
      | missing =>
          have hblanks : IsBlanks (before ++ [] ++ between) := by
            rw [List.append_nil]
            exact isBlanks_append.mpr ⟨hbefore, hbetween⟩
          generalize before ++ [] ++ between = blanks at hblanks h
          rw [Line.parse?, labelled?_skip hblanks, hlabel] at h
          dsimp only at h
          rw [body?_skip hblanks] at h
          obtain ⟨body, hbody, rfl⟩ := Option.map_eq_some_iff.mp h
          refine ⟨hbody, fun rest' body' hbody' => ?_⟩
          refine (unlabelled_eq_some_iff.mp ?_).1
          rw [body?_skip hblanks, hbody']
          rfl
      | @colon name blanks hname hblanks =>
          simp only [List.append_assoc, List.cons_append, List.nil_append] at h ⊢
          obtain ⟨body, hbody, rfl⟩ := hdefinite.eq_label hbefore hname hblanks h
          rw [body?_skip hbetween] at hbody
          refine ⟨hbody, fun rest' body' hbody' => ?_⟩
          refine (labelled?_eq_some_iff.mp ?_).1
          rw [labelled?_label hbefore hname hblanks, body?_skip hbetween, hbody']
          rfl

/-- A mnemonic and what is behind it can be replaced when the same operand is read. -/
theorem canReplace_mnemonic {front name name' rest rest' : List Char} (hfront : IsFront front)
    (hname : isIdentifier name = true) (hname' : isIdentifier name' = true)
    (hupper : name'.map Char.toUpper = name.map Char.toUpper)
    (hrest : EndsMnemonic rest) (hrest' : EndsMnemonic rest')
    (hoperand : operand? (uncommented rest) = operand? (uncommented rest')) :
    CanReplace [front ++ name ++ rest] [front ++ name' ++ rest'] := by
  refine .of_reading fun line hdefinite hline => ?_
  have hcut : ∀ {name rest : List Char}, isIdentifier name = true →
      uncommented (front ++ name ++ rest) = front ++ (name ++ uncommented rest) := by
    intro name rest hname
    rw [List.append_assoc, uncommented_append hfront.not_mem,
      uncommented_append (not_mem_of_isIdentifier hname)]
  rw [hcut hname] at hline
  rw [hcut hname']
  have hends := hrest.uncommented
  have hends' := hrest'.uncommented
  have hlabel := labelled?_eq_none hname hends.stops hends.noColon
  obtain ⟨hbody, hreading⟩ := hfront.exists_body hdefinite hlabel hline
  rw [body?_eq hname hends.stops] at hbody
  obtain ⟨operand, hread, hsaid⟩ := Option.map_eq_some_iff.mp hbody
  have hbody' : body? (name' ++ uncommented rest') =
      some (some ⟨String.ofList name', operand⟩) := by
    rw [body?_eq hname' hends'.stops, ← hoperand, hread]
    rfl
  refine ⟨⟨line.label, some ⟨String.ofList name', operand⟩⟩, hreading _ _ hbody', rfl, ?_⟩
  rw [← hsaid]
  refine .some ⟨?_, rfl⟩
  simp only [String.toList_ofList, hupper]

theorem canReplace_widen {front name blanks blanks' rest : List Char} (hfront : IsFront front)
    (hname : isIdentifier name = true) (hrest : EndsMnemonic (blanks ++ rest))
    (hblanks : IsBlanks blanks) (hne : blanks ≠ []) (hblanks' : IsBlanks blanks')
    (hne' : blanks' ≠ []) :
    CanReplace [front ++ name ++ blanks ++ rest] [front ++ name ++ blanks' ++ rest] := by
  have hrest' : EndsMnemonic (blanks' ++ rest) := by
    constructor
    · obtain ⟨d, ds, rfl⟩ := List.exists_cons_of_ne_nil hne'
      intro c hc
      exact not_part_of_blanks hblanks' c (by simpa using hc)
    · rw [dropWhile_blanks hblanks', ← dropWhile_blanks hblanks]
      exact hrest.noColon
  rw [List.append_assoc _ blanks, List.append_assoc _ blanks']
  refine canReplace_mnemonic hfront hname hname rfl hrest hrest' ?_
  rw [uncommented_append (not_mem_of_isBlanks hblanks),
    uncommented_append (not_mem_of_isBlanks hblanks'), operand?_blanks hblanks hne,
    operand?_blanks hblanks' hne']

/-- Upper case changes letters only, and makes letters of them. -/
theorem isIdentifier_toUpper (c : Char) :
    isIdentifierStart c.toUpper = isIdentifierStart c ∧
      isIdentifierPart c.toUpper = isIdentifierPart c := by
  have hascii : ∀ n < 128,
      isIdentifierStart (Char.ofNat n).toUpper = isIdentifierStart (Char.ofNat n) ∧
        isIdentifierPart (Char.ofNat n).toUpper = isIdentifierPart (Char.ofNat n) := by
    decide +kernel
  by_cases hsmall : c.toNat < 128
  · have hc := hascii c.toNat hsmall
    rw [Char.ofNat_toNat] at hc
    exact hc
  · have hsame : c.toUpper = c := by
      unfold Char.toUpper
      split
      · next hlow => exact absurd (Nat.lt_of_le_of_lt hlow.2 (by decide)) hsmall
      · rfl
    rw [hsame]
    exact ⟨rfl, rfl⟩

theorem isIdentifier_of_toUpper {name name' : List Char} (h : isIdentifier name = true)
    (hupper : name'.map Char.toUpper = name.map Char.toUpper) : isIdentifier name' = true := by
  have hinvariant : ∀ text : List Char,
      isIdentifier (text.map Char.toUpper) = isIdentifier text := by
    intro text
    cases text with
    | nil => rfl
    | cons c cs => simp [isIdentifier, isIdentifier_toUpper, Function.comp_def]
  rw [← hinvariant, hupper, hinvariant]
  exact h

theorem canReplace_recase {front name name' rest : List Char} (hfront : IsFront front)
    (hname : isIdentifier name = true) (hrest : EndsMnemonic rest)
    (hupper : name'.map Char.toUpper = name.map Char.toUpper) :
    CanReplace [front ++ name ++ rest] [front ++ name' ++ rest] :=
  canReplace_mnemonic hfront hname (isIdentifier_of_toUpper hname hupper) hupper hrest hrest rfl

/-! ## Edits of several lines -/

theorem canReplace_insert {line : List Char} (h : IsBlanks (uncommented line)) :
    CanReplace [] [line] := by
  intro layout layout' final number number' hlayout ha
  cases ha
  have hreading : IsReading ⟨none, none⟩ (uncommented line) := by
    simpa using IsReading.intro isBlanks_nil .missing isBlanks_nil .missing h
  have hline := hreading.parse?_of_definite (by simp [Line.Definite])
  refine ⟨layout', ?_, hlayout⟩
  rw [Layout.addLines, Layout.addText, hline]
  rfl

/-- A label with its instruction is added like the label and then the instruction. -/
theorem canReplace_label {text first second : List Char}
    (h : ∀ line, line.Definite → Line.parse? (uncommented text) = some line →
      ∃ name, line.label = some name ∧
        Line.parse? (uncommented first) = some ⟨some name, none⟩ ∧
        Line.parse? (uncommented second) = some ⟨none, line.body⟩) :
    CanReplace [text] [first, second] := by
  intro layout layout' final number number' hlayout ha
  obtain ⟨final₁, htext, hfinal⟩ := bind_eq_ok.mp ha
  cases hfinal
  obtain ⟨line, hline, hadd⟩ := Layout.addText_eq_ok htext
  obtain ⟨name, hlabel, hfirst, hsecond⟩ := h line (Layout.definite_of_addLine hadd) hline
  obtain ⟨label, body⟩ := line
  obtain rfl : label = some name := hlabel
  rw [Layout.addLine_label] at hadd
  obtain ⟨layout₁, hdefine, hbody⟩ := bind_eq_ok.mp hadd
  obtain ⟨layout₁', hdefine', hlayout₁⟩ := hlayout.define hdefine number'
  obtain ⟨final', hbody', hrenumbers⟩ :=
    hlayout₁.addBody (Line.saysSame_refl ⟨none, body⟩).body hbody (number' + 1)
  have haddFirst : layout'.addText number' first = .ok layout₁' := by
    rw [Layout.addText, hfirst]
    exact bind_eq_ok.mpr ⟨layout₁', hdefine', rfl⟩
  have haddSecond : layout₁'.addText (number' + 1) second = .ok final' := by
    rw [Layout.addText, hsecond]
    exact hbody'
  exact ⟨final', bind_eq_ok.mpr ⟨layout₁', haddFirst, bind_eq_ok.mpr ⟨final', haddSecond, rfl⟩⟩,
    hrenumbers⟩

theorem canReplace_detach {name : String} {head before between before' after between' : List Char}
    (hhead : WritesLabel (some name) head) (hbefore : IsBlanks before)
    (hbetween : IsBlanks between) (hbefore' : IsBlanks before') (hafter : IsBlanks after)
    (hbetween' : IsBlanks between') (rest : List Char) :
    CanReplace [before ++ head ++ between ++ rest]
      [before' ++ head ++ after, between' ++ rest] := by
  refine canReplace_label fun line hdefinite hline => ?_
  have hnot := hhead.not_mem
  cases hhead with
  | @colon name blanks hname hblanks =>
      rw [List.append_assoc, List.append_assoc, uncommented_append (not_mem_of_isBlanks hbefore),
        uncommented_append hnot, uncommented_append (not_mem_of_isBlanks hbetween)] at hline
      simp only [List.append_assoc, List.cons_append, List.nil_append] at hline
      obtain ⟨body, hbody, rfl⟩ := hdefinite.eq_label hbefore hname hblanks hline
      rw [body?_skip hbetween] at hbody
      refine ⟨_, rfl, ?_, ?_⟩
      · have hafter' : uncommented after = after := by
          have hcut := uncommented_append (not_mem_of_isBlanks hafter) []
          rwa [List.append_nil, show uncommented [] = [] from rfl, List.append_nil] at hcut
        have hnone : body? after = some none := body?_of_writes isBlanks_nil .missing hafter
        rw [List.append_assoc, uncommented_append (not_mem_of_isBlanks hbefore'),
          uncommented_append hnot, hafter']
        simp only [List.append_assoc, List.cons_append, List.nil_append]
        rw [Line.parse?, labelled?_label hbefore' hname hblanks, hnone]
        rfl
      · have hreading : IsReading ⟨none, body⟩ (between' ++ uncommented rest) := by
          refine (unlabelled_eq_some_iff.mp ?_).1
          rw [body?_skip hbetween', hbody]
          rfl
        rw [uncommented_append (not_mem_of_isBlanks hbetween')]
        exact hreading.parse?_of_definite hdefinite

/-! ## Any number of edits -/

/-- No edit leaves a text without lines. -/
theorem Rewrites.new_ne_nil {old new : List (List Char)} (h : Rewrites old new) : new ≠ [] := by
  cases h <;> simp

/-- **The new lines of an edit can stand for the old ones.** -/
theorem Rewrites.canReplace {old new : List (List Char)} (h : Rewrites old new) :
    CanReplace old new := by
  cases h with
  | comment line text => exact canReplace_comment line text
  | indent line hblanks => exact canReplace_indent hblanks line
  | pad hcode hcomment hblanks => exact canReplace_pad hcode hcomment hblanks
  | widen hfront hname hrest hblanks hne hblanks' hne' =>
      exact canReplace_widen hfront hname hrest hblanks hne hblanks' hne'
  | insert hblanks => exact canReplace_insert hblanks
  | detach rest hhead hbefore hbetween hbefore' hafter hbetween' =>
      exact canReplace_detach hhead hbefore hbetween hbefore' hafter hbetween' rest
  | recase hfront hname hrest hupper => exact canReplace_recase hfront hname hrest hupper

/-- The lines are those of a text. -/
structure AreLines (lines : List (List Char)) : Prop where
  nonempty : lines ≠ []
  noNewline : ∀ line ∈ lines, '\n' ∉ line

theorem areLines_splitLines (text : List Char) : AreLines (splitLines text) :=
  ⟨splitLines_ne_nil text, fun _ => newline_not_mem_of_mem_splitLines⟩

theorem AreLines.splitLines_joinLines {lines : List (List Char)} (h : AreLines lines) :
    splitLines (joinLines lines).toList = lines :=
  Assembly.splitLines_joinLines h.nonempty h.noNewline

theorem assemble_congr {source source' : String}
    (h : splitLines source.toList = splitLines source'.toList) :
    assemble source = assemble source' := by
  rw [assemble, assemble, layout, layout, h]

namespace Edit

variable {lines lines' : List (List Char)}

theorem areLines (h : Edit lines lines') (hlines : AreLines lines) : AreLines lines' := by
  cases h with
  | intro before after hrewrites hnew =>
      have hne := hrewrites.new_ne_nil
      refine ⟨by simp [hne], fun line hline => ?_⟩
      simp only [List.mem_append] at hline
      rcases hline with (hline | hline) | hline
      · exact hlines.noNewline line (by simp [hline])
      · exact hnew line hline
      · exact hlines.noNewline line (by simp [hline])

/-- One edit leaves the program as it is. -/
theorem assemble (h : Edit lines lines') (hlines : AreLines lines) {code : Program}
    (hcode : Assembly.assemble (joinLines lines) = .ok code) :
    Assembly.assemble (joinLines lines') = .ok code := by
  have hlines' := h.areLines hlines
  cases h with
  | intro before after hrewrites hnew =>
      exact hrewrites.canReplace.assemble hlines.splitLines_joinLines
        hlines'.splitLines_joinLines hcode

end Edit

/-- **The layout of a text does not matter.** A text that is assembled can be edited any number of
times at any places, with comments, blanks, empty lines, labels on lines of their own and mnemonics
in another case, and it is still assembled to the same program. -/
theorem assemble_edited {source : String} {code : Program} {lines : List (List Char)}
    (hcode : assemble source = .ok code)
    (hedits : Relation.ReflTransGen Edit (splitLines source.toList) lines) :
    assemble (joinLines lines) = .ok code := by
  have hkeep : AreLines lines ∧ assemble (joinLines lines) = .ok code := by
    induction hedits with
    | refl =>
        have hlines := areLines_splitLines source.toList
        refine ⟨hlines, ?_⟩
        rw [assemble_congr hlines.splitLines_joinLines]
        exact hcode
    | tail _ hedit ih => exact ⟨hedit.areLines ih.1, hedit.assemble ih.1 ih.2⟩
  exact hkeep.2

/-- One edit of each kind: the label gets a line of its own, the mnemonic gets capital letters and
more blanks behind it, the line gets a blank in front, a blank behind and a comment, and a line that
is only a comment comes before it. -/
theorem assemble_edited_each_kind :
    ∃ lines, Relation.ReflTransGen Edit (splitLines "a: jmp a".toList) lines ∧
      joinLines lines = "a:\n;\n JMP  a ;b" ∧
      assemble "a: jmp a" = .ok #[6, 0] ∧ assemble "a:\n;\n JMP  a ;b" = .ok #[6, 0] := by
  have hsource : splitLines "a: jmp a".toList = [['a', ':', ' ', 'j', 'm', 'p', ' ', 'a']] := by
    decide +kernel
  have hspace : IsBlanks [' '] := List.forall_mem_singleton.mpr (by decide)
  have hspaces : IsBlanks [' ', ' '] := isBlanks_append.mpr ⟨hspace, hspace⟩
  have hfront : IsFront [] := .intro isBlanks_nil .missing isBlanks_nil
  have hstops : ∀ c ∈ [' ', 'a'].head?, isIdentifierPart c = false := by
    intro c hc
    exact not_part_of_blanks hspace c (by simpa using hc)
  have hends : EndsMnemonic [' ', 'a'] := ⟨hstops, by decide⟩
  have hdetach : Edit [['a', ':', ' ', 'j', 'm', 'p', ' ', 'a']]
      [['a', ':'], ['j', 'm', 'p', ' ', 'a']] :=
    .intro [] [] (.detach ['j', 'm', 'p', ' ', 'a']
      (.colon rfl isBlanks_nil : WritesLabel (some "a") _)
      isBlanks_nil hspace isBlanks_nil isBlanks_nil isBlanks_nil) (by decide)
  have hrecase : Edit [['a', ':'], ['j', 'm', 'p', ' ', 'a']]
      [['a', ':'], ['J', 'M', 'P', ' ', 'a']] :=
    .intro [['a', ':']] [] (.recase hfront (rfl : isIdentifier ['j', 'm', 'p'] = true) hends
      (rfl : ['J', 'M', 'P'].map Char.toUpper = _)) (by decide)
  have hwiden : Edit [['a', ':'], ['J', 'M', 'P', ' ', 'a']]
      [['a', ':'], ['J', 'M', 'P', ' ', ' ', 'a']] :=
    .intro [['a', ':']] [] (.widen hfront (rfl : isIdentifier ['J', 'M', 'P'] = true) hends
      hspace (List.cons_ne_nil _ _) hspaces (List.cons_ne_nil _ _)) (by decide)
  have hindent : Edit [['a', ':'], ['J', 'M', 'P', ' ', ' ', 'a']]
      [['a', ':'], [' ', 'J', 'M', 'P', ' ', ' ', 'a']] :=
    .intro [['a', ':']] [] (.indent _ hspace) (by decide)
  have hpad : Edit [['a', ':'], [' ', 'J', 'M', 'P', ' ', ' ', 'a']]
      [['a', ':'], [' ', 'J', 'M', 'P', ' ', ' ', 'a', ' ']] :=
    .intro [['a', ':']] [] (.pad (by decide : ';' ∉ [' ', 'J', 'M', 'P', ' ', ' ', 'a'])
      (by simp : ∀ c ∈ [].head?, c = ';') hspace) (by decide)
  have hcomment : Edit [['a', ':'], [' ', 'J', 'M', 'P', ' ', ' ', 'a', ' ']]
      [['a', ':'], [' ', 'J', 'M', 'P', ' ', ' ', 'a', ' ', ';', 'b']] :=
    .intro [['a', ':']] [] (.comment _ ['b']) (by decide)
  have hinsert : Edit [['a', ':'], [' ', 'J', 'M', 'P', ' ', ' ', 'a', ' ', ';', 'b']]
      [['a', ':'], [';'], [' ', 'J', 'M', 'P', ' ', ' ', 'a', ' ', ';', 'b']] :=
    .intro [['a', ':']] _ (.insert isBlanks_nil : Rewrites [] [[';']]) (by decide)
  have hedits : Relation.ReflTransGen Edit (splitLines "a: jmp a".toList)
      [['a', ':'], [';'], [' ', 'J', 'M', 'P', ' ', ' ', 'a', ' ', ';', 'b']] := by
    rw [hsource]
    exact ((((((Relation.ReflTransGen.single hdetach).tail hrecase).tail hwiden).tail
      hindent).tail hpad).tail hcomment).tail hinsert
  have htext : joinLines [['a', ':'], [';'], [' ', 'J', 'M', 'P', ' ', ' ', 'a', ' ', ';', 'b']] =
      "a:\n;\n JMP  a ;b" := by
    decide +kernel
  have hcode : assemble "a: jmp a" = .ok #[6, 0] := by decide +kernel
  have hedited := assemble_edited hcode hedits
  rw [htext] at hedited
  exact ⟨_, hedits, htext, hcode, hedited⟩

end StackMachine.Assembly
