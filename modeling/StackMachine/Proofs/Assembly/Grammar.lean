import Mathlib.Data.List.TakeWhile
import StackMachine.Proofs.Assembly.Emission
import StackMachine.Proofs.Assembly.Lines

set_option autoImplicit false

/-! # The grammar of lines

A line of assembly text has the form

    blanks [label blanks ':'] blanks [mnemonic [blanks operand]] blanks

where label and mnemonic are identifiers and the operand is a run of characters that are not blank;
only the blanks before the operand may not be missing. `IsReading` says so without an order of
reading. The parts of the reader find exactly the parts of the grammar (`body?_eq_some_iff`,
`labelled?_eq_some_iff`), so a text is read if it has a reading, with a label if it has one with a
label, and there are no two such readings (`Line.parse?_eq_some_iff`, `IsReading.unique`).
-/

namespace StackMachine.Assembly

open StackMachine.Text

/-! ## The grammar -/

/-- A run of blanks, which may be empty. -/
def IsBlanks (text : List Char) : Prop := ∀ c ∈ text, isBlank c = true

/-- A run of characters that are not blank, which is not empty. -/
structure IsRun (text : List Char) : Prop where
  nonempty : text ≠ []
  solid : ∀ c ∈ text, isBlank c = false

/-- The definition of a label, if there is one. -/
inductive WritesLabel : Option String → List Char → Prop
  | missing : WritesLabel none []
  | colon {name blanks : List Char} :
      isIdentifier name = true → IsBlanks blanks →
      WritesLabel (some (String.ofList name)) (name ++ blanks ++ [':'])

/-- An instruction, if there is one. -/
inductive WritesBody : Option Body → List Char → Prop
  | missing : WritesBody none []
  | mnemonic {name : List Char} :
      isIdentifier name = true → WritesBody (some ⟨String.ofList name, none⟩) name
  | operand {name blanks operand : List Char} :
      isIdentifier name = true → IsBlanks blanks → blanks ≠ [] → IsRun operand →
      WritesBody (some ⟨String.ofList name, some (String.ofList operand)⟩)
        (name ++ blanks ++ operand)

/-- The line is a reading of the text. -/
inductive IsReading : Line → List Char → Prop
  | intro {label : Option String} {body : Option Body}
      {before head between tail after : List Char} :
      IsBlanks before → WritesLabel label head → IsBlanks between → WritesBody body tail →
      IsBlanks after →
      IsReading ⟨label, body⟩ (before ++ head ++ between ++ tail ++ after)

/-! ## Blanks and runs -/

theorem isBlanks_nil : IsBlanks [] := List.forall_mem_nil _

theorem isBlanks_append {first second : List Char} :
    IsBlanks (first ++ second) ↔ IsBlanks first ∧ IsBlanks second := List.forall_mem_append

/-- A text begins with its blanks. -/
theorem exists_blanks (text : List Char) :
    ∃ before, IsBlanks before ∧ text = before ++ text.dropWhile isBlank :=
  ⟨text.takeWhile isBlank, fun _ hc => List.mem_takeWhile_imp hc,
    List.takeWhile_append_dropWhile.symm⟩

theorem dropWhile_blanks {before : List Char} (h : IsBlanks before) (rest : List Char) :
    (before ++ rest).dropWhile isBlank = rest.dropWhile isBlank :=
  List.dropWhile_append_of_pos h

theorem isBlanks_iff {text : List Char} : IsBlanks text ↔ text.dropWhile isBlank = [] :=
  List.dropWhile_eq_nil_iff.symm

theorem IsRun.head_not_blank {run : List Char} (h : IsRun run) (rest : List Char) :
    ∀ c ∈ (run ++ rest).head?, isBlank c = false := by
  intro c hc
  cases run with
  | nil => exact absurd rfl h.nonempty
  | cons d ds =>
      obtain rfl : d = c := by simpa using hc
      exact h.solid d List.mem_cons_self

/-- Blanks stop an identifier. -/
theorem not_part_of_blanks {blanks : List Char} (h : IsBlanks blanks) :
    ∀ c ∈ blanks.head?, isIdentifierPart c = false := by
  intro c hc
  rw [Bool.eq_false_iff]
  intro hpart
  have hsolid := (isPlain_iff.mp (isPlain_of_isIdentifierPart hpart)).1
  rw [h c (List.mem_of_mem_head? hc)] at hsolid
  cases hsolid

/-- A `:` stops an identifier, with or without blanks before it. -/
theorem not_part_of_colon {blanks : List Char} (h : IsBlanks blanks) (rest : List Char) :
    ∀ c ∈ (blanks ++ ':' :: rest).head?, isIdentifierPart c = false := by
  intro c hc
  cases blanks with
  | nil =>
      obtain rfl : ':' = c := by simpa using hc
      decide
  | cons d ds => exact not_part_of_blanks h c (by simpa using hc)

/-! Blanks in front of a part of a line are skipped. -/

theorem token?_skip {before : List Char} (h : IsBlanks before) (rest : List Char) :
    token? (before ++ rest) = token? rest := by
  rw [token?, token?, dropWhile_blanks h]

theorem body?_skip {before : List Char} (h : IsBlanks before) (rest : List Char) :
    body? (before ++ rest) = body? rest := by
  rw [body?, body?, dropWhile_blanks h]

theorem labelled?_skip {before : List Char} (h : IsBlanks before) (rest : List Char) :
    labelled? (before ++ rest) = labelled? rest := by
  rw [labelled?, labelled?, dropWhile_blanks h]

/-! ## Operands -/

theorem token?_blanks {text : List Char} (h : IsBlanks text) : token? text = some none := by
  rw [token?, isBlanks_iff.mp h]

theorem token?_run {before run after : List Char} (hbefore : IsBlanks before) (hrun : IsRun run)
    (hafter : IsBlanks after) :
    token? (before ++ (run ++ after)) = some (some (String.ofList run)) := by
  have hstart : (before ++ (run ++ after)).dropWhile isBlank = run ++ after := by
    rw [dropWhile_blanks hbefore, dropWhile_isBlank (hrun.head_not_blank after)]
  obtain ⟨c, cs, rfl⟩ := List.exists_cons_of_ne_nil hrun.nonempty
  have hsolid : ∀ d ∈ cs, (!isBlank d) = true := by
    intro d hd
    rw [hrun.solid d (List.mem_cons_of_mem _ hd)]
    rfl
  have hstop : after.takeWhile (!isBlank ·) = [] ∧ after.dropWhile (!isBlank ·) = after := by
    cases after with
    | nil => exact ⟨rfl, rfl⟩
    | cons d ds => simp [hafter d List.mem_cons_self]
  have htake : (cs ++ after).takeWhile (!isBlank ·) = cs := by
    rw [List.takeWhile_append_of_pos hsolid, hstop.1, List.append_nil]
  have hdrop : (cs ++ after).dropWhile (!isBlank ·) = after := by
    rw [List.dropWhile_append_of_pos hsolid, hstop.2]
  rw [token?, hstart, List.cons_append]
  dsimp only
  rw [hdrop, htake, if_pos (List.all_eq_true.mpr hafter)]

/-- What is read as an operand is a run between blanks, or blanks alone. -/
theorem token?_cases {text : List Char} {operand : Option String} (h : token? text = some operand) :
    operand = none ∧ IsBlanks text ∨
      ∃ before run after, text = before ++ (run ++ after) ∧ IsBlanks before ∧ IsRun run ∧
        IsBlanks after ∧ operand = some (String.ofList run) := by
  obtain ⟨before, hbefore, htext⟩ := exists_blanks text
  unfold token? at h
  split at h
  · next hnil =>
      cases h
      exact Or.inl ⟨rfl, isBlanks_iff.mpr hnil⟩
  · next c cs hcons =>
      split at h
      · next hafter =>
          cases h
          have hc : isBlank c = false := by
            have hhead := List.head?_dropWhile_not isBlank text
            rw [hcons] at hhead
            simpa using hhead
          rw [hcons] at htext
          refine Or.inr ⟨before, c :: cs.takeWhile (!isBlank ·), cs.dropWhile (!isBlank ·), ?_,
            hbefore, ⟨List.cons_ne_nil _ _, ?_⟩, List.all_eq_true.mp hafter, rfl⟩
          · rw [List.cons_append, List.takeWhile_append_dropWhile, ← htext]
          · intro d hd
            rcases List.mem_cons.mp hd with rfl | hd
            · exact hc
            · simpa using List.mem_takeWhile_imp hd
      · cases h

/-! ## Instructions -/

theorem identifier?_eq_some {text rest : List Char} {name : String}
    (h : identifier? text = some (name, rest)) :
    ∃ identifier, isIdentifier identifier = true ∧ name = String.ofList identifier ∧
      text = identifier ++ rest := by
  cases text with
  | nil => cases h
  | cons c cs =>
      rw [identifier?] at h
      by_cases hstart : isIdentifierStart c = true
      · rw [if_pos hstart] at h
        cases h
        refine ⟨c :: cs.takeWhile isIdentifierPart, ?_, rfl, ?_⟩
        · exact isIdentifier_cons.mpr ⟨hstart, fun _ hd => List.mem_takeWhile_imp hd⟩
        · rw [List.cons_append, List.takeWhile_append_dropWhile]
      · rw [if_neg hstart] at h
        cases h

/-- An instruction between blanks is read. -/
theorem body?_of_writes {before tail after : List Char} {body : Option Body}
    (hbefore : IsBlanks before) (htail : WritesBody body tail) (hafter : IsBlanks after) :
    body? (before ++ (tail ++ after)) = some body := by
  rw [body?_skip hbefore]
  -- behind the mnemonic the text goes on with a blank or ends
  have hblanks : ∀ {blanks rest : List Char}, IsBlanks blanks → (blanks = [] → rest = []) →
      ∀ c ∈ (blanks ++ rest).head?, isIdentifierPart c = false ∧ isBlank c = true := by
    intro blanks rest hb hrest c hc
    cases blanks with
    | nil =>
        rw [hrest rfl] at hc
        cases hc
    | cons d ds =>
        obtain rfl : d = c := by simpa using hc
        exact ⟨not_part_of_blanks hb d rfl, hb d List.mem_cons_self⟩
  cases htail with
  | missing =>
      rw [List.nil_append, body?, isBlanks_iff.mp hafter]
  | mnemonic hname =>
      have hrest : ∀ c ∈ (after ++ []).head?, _ := hblanks hafter fun _ => rfl
      rw [List.append_nil] at hrest
      rw [body?_identifier hname hrest]
      by_cases hnil : after = []
      · rw [if_pos hnil]
      · rw [if_neg hnil, token?_blanks hafter]
        rfl
  | operand hname hbs hne hrun =>
      rw [List.append_assoc, List.append_assoc,
        body?_identifier hname (hblanks hbs fun hnil => absurd hnil hne),
        if_neg (by simp [hne]), token?_run hbs hrun hafter]
      rfl

/-- What is read behind a mnemonic and a blank completes an instruction. -/
theorem exists_writes_of_token? {name rest : List Char} {operand : Option String}
    (hname : isIdentifier name = true) (hblank : ∀ c ∈ rest.head?, isBlank c = true)
    (h : token? rest = some operand) :
    ∃ tail after, name ++ rest = tail ++ after ∧
      WritesBody (some ⟨String.ofList name, operand⟩) tail ∧ IsBlanks after := by
  rcases token?_cases h with ⟨rfl, hrest⟩ | ⟨blanks, run, after, rfl, hblanks, hrun, hafter, rfl⟩
  · exact ⟨name, rest, rfl, .mnemonic hname, hrest⟩
  · have hne : blanks ≠ [] := by
      rintro rfl
      rw [List.nil_append] at hblank
      obtain ⟨c, cs, hcons⟩ := List.exists_cons_of_ne_nil hrun.nonempty
      have hhead : c ∈ (run ++ after).head? := by simp [hcons]
      have hsolid := hrun.head_not_blank after c hhead
      rw [hblank c hhead] at hsolid
      cases hsolid
    refine ⟨name ++ blanks ++ run, after, ?_, .operand hname hblanks hne hrun, hafter⟩
    simp only [List.append_assoc]

/-- What is read as an instruction stands between blanks. -/
theorem exists_writes_of_body? {text : List Char} {body : Option Body}
    (h : body? text = some body) :
    ∃ before tail after, text = before ++ (tail ++ after) ∧ IsBlanks before ∧
      WritesBody body tail ∧ IsBlanks after := by
  obtain ⟨before, hbefore, htext⟩ := exists_blanks text
  unfold body? at h
  split at h
  · next hnil =>
      cases h
      exact ⟨text, [], [], by simp, isBlanks_iff.mpr hnil, .missing, isBlanks_nil⟩
  · next c cs hcons =>
      obtain ⟨⟨name, rest⟩, hname, h⟩ := Option.bind_eq_some_iff.mp h
      obtain ⟨identifier, hidentifier, rfl, hrest⟩ := identifier?_eq_some hname
      rw [hcons, hrest] at htext
      dsimp only at h
      split at h
      · cases h
        exact ⟨before, identifier, [], htext, hbefore, .mnemonic hidentifier, isBlanks_nil⟩
      · next d ds =>
          split at h
          · next hd =>
              obtain ⟨operand, hoperand, rfl⟩ := Option.map_eq_some_iff.mp h
              have hblank : ∀ c ∈ (d :: ds).head?, isBlank c = true := by
                intro c hc
                obtain rfl : d = c := by simpa using hc
                exact hd
              obtain ⟨tail, after, heq, htail, hafter⟩ :=
                exists_writes_of_token? hidentifier hblank hoperand
              exact ⟨before, tail, after, htext.trans (congrArg (before ++ ·) heq), hbefore, htail,
                hafter⟩
          · cases h

/-- **The reader of instructions finds exactly the instructions between blanks.** -/
theorem body?_eq_some_iff {text : List Char} {body : Option Body} :
    body? text = some body ↔
      ∃ before tail after, text = before ++ (tail ++ after) ∧ IsBlanks before ∧
        WritesBody body tail ∧ IsBlanks after := by
  constructor
  · exact exists_writes_of_body?
  · rintro ⟨before, tail, after, rfl, hbefore, htail, hafter⟩
    exact body?_of_writes hbefore htail hafter

/-! ## Lines -/

/-- Behind a label and a colon the instruction is read. -/
theorem labelled?_label {before name blanks : List Char} (hbefore : IsBlanks before)
    (hname : isIdentifier name = true) (hblanks : IsBlanks blanks) (rest : List Char) :
    labelled? (before ++ (name ++ (blanks ++ ':' :: rest))) =
      (body? rest).map fun body => ⟨some (String.ofList name), body⟩ := by
  have hcolon : isBlank ':' = false := by decide
  have hskip : (blanks ++ ':' :: rest).dropWhile isBlank = ':' :: rest := by
    rw [dropWhile_blanks hblanks, List.dropWhile_cons_of_neg (by simp [hcolon])]
  rw [labelled?_skip hbefore, labelled?, dropWhile_isBlank_identifier hname,
    identifier?_append hname (not_part_of_colon hblanks rest), Option.bind_some]
  simp only [hskip]

/-- **The reader of labelled lines finds exactly the readings with a label.** -/
theorem labelled?_eq_some_iff {text : List Char} {line : Line} :
    labelled? text = some line ↔ IsReading line text ∧ line.label ≠ none := by
  constructor
  · intro h
    obtain ⟨before, hbefore, htext⟩ := exists_blanks text
    unfold labelled? at h
    obtain ⟨⟨name, rest⟩, hname, h⟩ := Option.bind_eq_some_iff.mp h
    obtain ⟨identifier, hidentifier, rfl, hrest⟩ := identifier?_eq_some hname
    obtain ⟨blanks, hblanks, hcolon⟩ := exists_blanks rest
    dsimp only at h
    split at h
    · next rest' heq =>
        obtain ⟨body, hbody, rfl⟩ := Option.map_eq_some_iff.mp h
        obtain ⟨between, tail, after, rfl, hbetween, htail, hafter⟩ := body?_eq_some_iff.mp hbody
        have hreading := IsReading.intro hbefore (.colon hidentifier hblanks) hbetween htail hafter
        refine ⟨?_, Option.some_ne_none _⟩
        rw [htext, hrest, hcolon, heq]
        simpa only [List.append_assoc, List.cons_append, List.nil_append] using hreading
    · cases h
  · rintro ⟨hreading, hlabel⟩
    cases hreading with
    | intro hbefore hhead hbetween htail hafter =>
        cases hhead with
        | missing => exact absurd rfl hlabel
        | colon hname hblanks =>
            simp only [List.append_assoc, List.cons_append, List.nil_append]
            rw [labelled?_label hbefore hname hblanks, body?_of_writes hbetween htail hafter]
            rfl

/-- **The reader of other lines finds exactly the readings without a label.** -/
theorem unlabelled_eq_some_iff {text : List Char} {line : Line} :
    (body? text).map (fun body => Line.mk none body) = some line ↔
      IsReading line text ∧ line.label = none := by
  constructor
  · intro h
    obtain ⟨body, hbody, rfl⟩ := Option.map_eq_some_iff.mp h
    obtain ⟨before, tail, after, rfl, hbefore, htail, hafter⟩ := body?_eq_some_iff.mp hbody
    have hreading := IsReading.intro hbefore .missing (isBlanks_nil) htail hafter
    refine ⟨?_, rfl⟩
    simpa only [List.append_assoc, List.append_nil, List.nil_append] using hreading
  · rintro ⟨hreading, hlabel⟩
    cases hreading with
    | @intro label body before head between tail after hbefore hhead hbetween htail hafter =>
        cases hhead with
        | missing =>
            have hread := body?_of_writes (isBlanks_append.mpr ⟨hbefore, hbetween⟩) htail hafter
            rw [List.append_nil, List.append_assoc, hread]
            rfl
        | colon => cases hlabel

/-- There are no two readings with a label and no two without. -/
theorem IsReading.unique {text : List Char} {line line' : Line} (h : IsReading line text)
    (h' : IsReading line' text) (hlabel : line.label = none ↔ line'.label = none) :
    line = line' := by
  by_cases hnone : line.label = none
  · have hread := unlabelled_eq_some_iff.mpr ⟨h, hnone⟩
    have hread' := unlabelled_eq_some_iff.mpr ⟨h', hlabel.mp hnone⟩
    exact Option.some.inj (hread.symm.trans hread')
  · have hread := labelled?_eq_some_iff.mpr ⟨h, hnone⟩
    have hread' := labelled?_eq_some_iff.mpr ⟨h', fun hnone' => hnone (hlabel.mpr hnone')⟩
    exact Option.some.inj (hread.symm.trans hread')

namespace Line

variable {text : List Char} {line : Line}

/-- **A text is read as the grammar says, with a label if that is possible.** -/
theorem parse?_eq_some_iff :
    parse? text = some line ↔
      IsReading line text ∧
        (line.label = none → ∀ line', IsReading line' text → line'.label = none) := by
  unfold parse?
  cases hlabelled : labelled? text with
  | some preferred =>
      obtain ⟨hpreferred, hlabel⟩ := labelled?_eq_some_iff.mp hlabelled
      constructor
      · rintro ⟨⟩
        exact ⟨hpreferred, fun hnone => absurd hnone hlabel⟩
      · rintro ⟨hreading, hall⟩
        have hsome : line.label ≠ none := fun hnone => hlabel (hall hnone preferred hpreferred)
        exact hlabelled.symm.trans (labelled?_eq_some_iff.mpr ⟨hreading, hsome⟩)
  | none =>
      have hall : ∀ line', IsReading line' text → line'.label = none := by
        intro line' hreading
        by_contra hsome
        cases hlabelled.symm.trans (labelled?_eq_some_iff.mpr ⟨hreading, hsome⟩)
      dsimp only
      rw [unlabelled_eq_some_iff]
      exact ⟨fun ⟨hreading, _⟩ => ⟨hreading, fun _ => hall⟩,
        fun ⟨hreading, _⟩ => ⟨hreading, hall line hreading⟩⟩

/-- **A text is read if it has a reading.** -/
theorem exists_parse?_iff : (∃ line, parse? text = some line) ↔ ∃ line, IsReading line text := by
  constructor
  · rintro ⟨line, hline⟩
    exact ⟨line, (parse?_eq_some_iff.mp hline).1⟩
  · rintro ⟨line, hreading⟩
    -- a reading with a label is preferred to this one
    by_cases hlabelled : ∃ line', IsReading line' text ∧ line'.label ≠ none
    · obtain ⟨line', hreading', hlabel⟩ := hlabelled
      exact ⟨line', parse?_eq_some_iff.mpr ⟨hreading', fun hnone => absurd hnone hlabel⟩⟩
    · refine ⟨line, parse?_eq_some_iff.mpr ⟨hreading, fun _ line' hreading' => ?_⟩⟩
      by_contra hlabel
      exact hlabelled ⟨line', hreading', hlabel⟩

theorem parse?_eq_none_iff : parse? text = none ↔ ¬ ∃ line, IsReading line text := by
  rw [← exists_parse?_iff, ← Option.ne_none_iff_exists', not_not]

end Line

/-! ## Texts -/

namespace Layout

variable {layout : Layout} {number : Nat} {e : Error}

theorem addLine_error {line : Line} (h : layout.addLine number line = .error e) :
    e.line = number ∧ e.cause ≠ .malformed := by
  obtain ⟨hnumber, ⟨name, -, -, hcause⟩ | ⟨-, body, -, hflaw⟩⟩ := addLine_eq_error_iff.mp h
  · exact ⟨hnumber, by simp [hcause]⟩
  · refine ⟨hnumber, fun hcause => ?_⟩
    rw [hcause] at hflaw
    cases hflaw

/-- A line of text without a reading is malformed. -/
theorem addText_malformed {text : List Char} (h : ¬ ∃ line, IsReading line (uncommented text))
    (layout : Layout) (number : Nat) :
    layout.addText number text = .error ⟨number, .malformed⟩ := by
  rw [addText, Line.parse?_eq_none_iff.mpr h]

/-- A line of text fails under its own number, and as malformed only if it has no reading. -/
theorem addText_error {text : List Char} (h : layout.addText number text = .error e) :
    e.line = number ∧ (e.cause = .malformed ↔ ¬ ∃ line, IsReading line (uncommented text)) := by
  by_cases hreading : ∃ line, IsReading line (uncommented text)
  · obtain ⟨line, hline⟩ := Line.exists_parse?_iff.mpr hreading
    rw [addText, hline] at h
    obtain ⟨hnumber, hcause⟩ := addLine_error h
    exact ⟨hnumber, iff_of_false hcause (not_not.mpr hreading)⟩
  · rw [addText_malformed hreading] at h
    cases h
    exact ⟨rfl, iff_of_true rfl hreading⟩

theorem addLines_append (layout : Layout) (number : Nat) (texts texts' : List (List Char)) :
    layout.addLines number (texts ++ texts') =
      layout.addLines number texts >>= fun layout =>
        layout.addLines (number + texts.length) texts' := by
  induction texts generalizing layout number with
  | nil => rfl
  | cons text texts ih =>
      rw [List.cons_append, addLines, addLines, bind_assoc]
      congr 1
      funext layout'
      rw [ih, List.length_cons, Nat.add_assoc, Nat.add_comm 1]

/-- Lines of text fail at the first of them that fails. -/
theorem addLines_error {texts : List (List Char)} (h : layout.addLines number texts = .error e) :
    ∃ before text after layout', texts = before ++ text :: after ∧
      layout.addLines number before = .ok layout' ∧
      layout'.addText (number + before.length) text = .error e := by
  induction texts generalizing layout number with
  | nil => cases h
  | cons text texts ih =>
      rw [addLines] at h
      rcases bind_eq_error.mp h with htext | ⟨layout₁, htext, hrest⟩
      · exact ⟨[], text, texts, layout, rfl, rfl, htext⟩
      · obtain ⟨before, text', after, layout', rfl, hbefore, herror⟩ := ih hrest
        refine ⟨text :: before, text', after, layout', rfl, ?_, ?_⟩
        · rw [addLines, htext]
          exact hbefore
        · rw [List.length_cons, Nat.add_comm before.length, ← Nat.add_assoc]
          exact herror

end Layout

/-- A text fails at the lines or, if all of them can be added, at a label without a definition. -/
theorem assemble_error {source : String} {e : Error} (h : assemble source = .error e) :
    Layout.addLines {} 1 (splitLines source.toList) = .error e ∨ e.cause ≠ .malformed := by
  rcases bind_eq_error.mp h with hlines | ⟨layout, -, hemit⟩
  · exact Or.inl hlines
  · obtain ⟨-, s, -, name, -, -, -, -, rfl⟩ := Layout.emit_eq_error hemit
    exact Or.inr (by simp)

theorem assemble_of_error {source : String} {before after : List (List Char)} {e : Error}
    (hsource : splitLines source.toList = before ++ after)
    (h : Layout.addLines {} 1 before = .error e) : assemble source = .error e := by
  rw [assemble, layout, hsource, Layout.addLines_append, h]
  rfl

/-- A text is malformed at a line without a reading if all lines before can be added. -/
theorem assemble_malformed {source : String} {before after : List (List Char)} {text : List Char}
    {layout : Layout} (hsource : splitLines source.toList = before ++ text :: after)
    (hbefore : Layout.addLines {} 1 before = .ok layout)
    (h : ¬ ∃ line, IsReading line (uncommented text)) :
    assemble source = .error ⟨before.length + 1, .malformed⟩ := by
  have hfails : Layout.addLines {} 1 (before ++ [text]) =
      .error ⟨before.length + 1, .malformed⟩ := by
    rw [Layout.addLines_append, hbefore, Nat.add_comm before.length]
    show layout.addLines (1 + before.length) [text] = _
    rw [Layout.addLines, Layout.addText_malformed h]
    rfl
  rw [List.append_cons] at hsource
  exact assemble_of_error hsource hfails

/-- **Lines are read as the grammar says.** A text is read if it has a reading, with a label if it
has one with a label, and there is no other such reading. A text that is assembled is malformed at
the first line that fails, if this line has no reading without its comment. -/
theorem lines_follow_grammar :
    (∀ text line, Line.parse? text = some line ↔
      IsReading line text ∧
        (line.label = none → ∀ line', IsReading line' text → line'.label = none)) ∧
    (∀ text, (∃ line, Line.parse? text = some line) ↔ ∃ line, IsReading line text) ∧
    (∀ text line line', IsReading line text → IsReading line' text →
      (line.label = none ↔ line'.label = none) → line = line') ∧
    (∀ source n, assemble source = .error ⟨n, .malformed⟩ ↔
      ∃ before text after layout, splitLines source.toList = before ++ text :: after ∧
        n = before.length + 1 ∧ Layout.addLines {} 1 before = .ok layout ∧
        ¬ ∃ line, IsReading line (uncommented text)) ∧
    ∀ source before text after, splitLines source.toList = before ++ text :: after →
      (¬ ∃ line, IsReading line (uncommented text)) →
      assemble source = .error ⟨before.length + 1, .malformed⟩ ∨
        ∃ e, Layout.addLines {} 1 before = .error e ∧ e.line ≤ before.length ∧
          assemble source = .error e := by
  refine ⟨fun text line => Line.parse?_eq_some_iff, fun text => Line.exists_parse?_iff,
    fun text line line' => IsReading.unique, fun source n => ⟨fun h => ?_, ?_⟩,
    fun source before text after hsource hnone => ?_⟩
  · have hlines := (assemble_error h).resolve_right (not_not.mpr rfl)
    obtain ⟨before, text, after, layout, hsource, hbefore, herror⟩ := Layout.addLines_error hlines
    obtain ⟨hnumber, hmalformed⟩ := Layout.addText_error herror
    exact ⟨before, text, after, layout, hsource, hnumber.trans (Nat.add_comm 1 _), hbefore,
      hmalformed.mp rfl⟩
  · rintro ⟨before, text, after, layout, hsource, rfl, hbefore, hnone⟩
    exact assemble_malformed hsource hbefore hnone
  · cases hbefore : Layout.addLines {} 1 before with
    | ok layout => exact Or.inl (assemble_malformed hsource hbefore hnone)
    | error e =>
        obtain ⟨earlier, text', later, layout, heq, -, herror⟩ := Layout.addLines_error hbefore
        have hnumber := (Layout.addText_error herror).1
        have hlength := congrArg List.length heq
        rw [List.length_append, List.length_cons] at hlength
        exact Or.inr ⟨e, rfl, by omega, assemble_of_error hsource hbefore⟩

/-- `a :` can be read with the label `a` and as the mnemonic `a` with the operand `:`. A line with
three words cannot be read, and it is reported before the unknown mnemonic behind it. -/
theorem lines_follow_grammar_label_first :
    IsReading ⟨some "a", none⟩ ['a', ' ', ':'] ∧
      IsReading ⟨none, some ⟨"a", some ":"⟩⟩ ['a', ' ', ':'] ∧
      Line.parse? ['a', ' ', ':'] = some ⟨some "a", none⟩ ∧
      assemble "HALT\na b c ; d\nFROB" = .error ⟨2, .malformed⟩ ∧
      ¬ ∃ line, IsReading line ['a', ' ', 'b', ' ', 'c', ' '] := by
  obtain ⟨hread, -, -, hmalformed, -⟩ := lines_follow_grammar
  have hlabel : Line.parse? ['a', ' ', ':'] = some ⟨some "a", none⟩ := by decide +kernel
  have hname : isIdentifier ['a'] = true := by decide
  have hspace : IsBlanks [' '] := List.forall_mem_singleton.mpr (by decide)
  have hcolon : IsRun [':'] := ⟨List.cons_ne_nil _ _, List.forall_mem_singleton.mpr (by decide)⟩
  have hplain : IsReading ⟨none, some ⟨"a", some ":"⟩⟩ ['a', ' ', ':'] :=
    .intro isBlanks_nil .missing isBlanks_nil
      (.operand hname hspace (List.cons_ne_nil _ _) hcolon) isBlanks_nil
  have hstopped : assemble "HALT\na b c ; d\nFROB" = .error ⟨2, .malformed⟩ := by decide +kernel
  refine ⟨((hread _ _).mp hlabel).1, hplain, hlabel, hstopped, ?_⟩
  -- the second line is the one that is reported
  have hlines : splitLines "HALT\na b c ; d\nFROB".toList =
      [['H', 'A', 'L', 'T'], ['a', ' ', 'b', ' ', 'c', ' ', ';', ' ', 'd'],
        ['F', 'R', 'O', 'B']] := by
    decide +kernel
  obtain ⟨before, text, after, layout, hsource, hn, -, hnone⟩ := (hmalformed _ _).mp hstopped
  obtain ⟨first, rfl⟩ := List.length_eq_one_iff.mp (Nat.succ.inj hn).symm
  rw [hlines] at hsource
  cases hsource
  exact hnone

end StackMachine.Assembly
