import StackMachine.Proofs.Assembly.Grammar

set_option autoImplicit false

/-! # The first error of a text

What is wrong with a line can be said from the line and the labels that are defined before it
(`Flaw`), and a line that is added behind others fails with exactly this cause
(`Layout.addText_eq_error_iff`). So a text fails at its first flawed line, and what comes behind it
makes no difference. Only when no line is flawed are labels looked up: then the text fails at the
first line that uses a label without a definition, wherever that could have been
(`assemble_first_error`).
-/

namespace StackMachine.Assembly

/-! ## What is wrong with a line -/

/-- The cause lies in a line and the lines before it, and not in a label that is never defined. -/
def Cause.IsLocal (cause : Cause) : Prop := ∀ name, cause ≠ .undefinedLabel name

/-- The line defines the label. -/
def DefinesLabel (text : List Char) (name : String) : Prop :=
  ∃ line, Line.parse? (uncommented text) = some line ∧ line.label = some name

/-- One of the lines defines the label. -/
def DefinedIn (texts : List (List Char)) (name : String) : Prop :=
  ∃ text ∈ texts, DefinesLabel text name

/-- The line holds an instruction whose operand is the label. -/
def UsesLabel (text : List Char) (name : String) : Prop :=
  ∃ line body operand, Line.parse? (uncommented text) = some line ∧ line.body = some body ∧
    body.operand = some operand ∧ Operand.parse? operand.toList = some (.label name)

/-- What is wrong with a line behind earlier lines. -/
inductive Flaw (earlier : List (List Char)) (text : List Char) : Cause → Prop
  | malformed : (¬ ∃ line, IsReading line (uncommented text)) → Flaw earlier text .malformed
  | duplicateLabel {name : String} :
      DefinesLabel text name → DefinedIn earlier name → Flaw earlier text (.duplicateLabel name)
  | body {line : Line} {body : Body} {cause : Cause} :
      Line.parse? (uncommented text) = some line →
      (∀ name ∈ line.label, ¬ DefinedIn earlier name) → line.body = some body →
      body.Flaw cause → Flaw earlier text cause

/-- No line has a flaw. -/
def Unflawed (texts : List (List Char)) : Prop :=
  ∀ before text after cause, texts = before ++ text :: after → ¬ Flaw before text cause

/-- The error is that of the first line with a flaw. -/
def FirstFlaw (texts : List (List Char)) (e : Error) : Prop :=
  ∃ before text after, texts = before ++ text :: after ∧ e.line = before.length + 1 ∧
    Flaw before text e.cause ∧ Unflawed before

/-- Every label that is used is defined, before its use or behind it. -/
def AllDefined (texts : List (List Char)) : Prop :=
  ∀ text ∈ texts, ∀ name, UsesLabel text name → DefinedIn texts name

/-- The error is that of the first line that uses a label without a definition. -/
def FirstUndefined (texts : List (List Char)) (e : Error) : Prop :=
  ∃ before text after name, texts = before ++ text :: after ∧
    e = ⟨before.length + 1, .undefinedLabel name⟩ ∧ UsesLabel text name ∧ ¬ DefinedIn texts name ∧
    ∀ earlier ∈ before, ∀ name', UsesLabel earlier name' → DefinedIn texts name'

theorem Flaw.isLocal {earlier : List (List Char)} {text : List Char} {cause : Cause}
    (h : Flaw earlier text cause) : cause.IsLocal := by
  rintro name rfl
  cases h with
  | body _ _ _ hflaw => cases hflaw

namespace Layout

/-! ## Adding a line -/

variable {layout : Layout}

/-- After some lines, a label has an offset if one of them defines it. -/
theorem offset?_isSome_iff {texts : List (List Char)} {number : Nat}
    (h : addLines {} number texts = .ok layout) (name : String) :
    (layout.offset? name).isSome = true ↔ DefinedIn texts name := by
  obtain ⟨lines, hlines, hlayout⟩ := Represents.empty.addLines h
  rw [List.nil_append] at hlayout
  have hoffset : (layout.offset? name).isSome = true ↔ name ∈ lines.filterMap Line.label := by
    rw [Option.isSome_iff_exists]
    constructor
    · rintro ⟨offset, hoffset⟩
      obtain ⟨count, ⟨before, line, after, rfl, hlabel, -⟩, -⟩ :=
        (hlayout.offsets name offset).mp hoffset
      exact List.mem_filterMap.mpr ⟨line, by simp, hlabel⟩
    · intro hmem
      obtain ⟨count, hdefines⟩ := exists_defines hmem
      exact ⟨_, (hlayout.offsets name _).mpr ⟨count, hdefines, rfl⟩⟩
  rw [hoffset]
  clear h hlayout hoffset
  -- line by line
  induction hlines with
  | nil => simp [DefinedIn]
  | @cons text line texts lines hline _ ih =>
      have hfirst : DefinesLabel text name ↔ line.label = some name := by
        constructor
        · rintro ⟨line', hline', hlabel⟩
          cases hline.symm.trans hline'
          exact hlabel
        · exact fun hlabel => ⟨line, hline, hlabel⟩
      simp only [DefinedIn, List.exists_mem_cons_iff, List.mem_filterMap] at ih ⊢
      exact or_congr hfirst.symm ih

/-- **A line that is added behind others fails with what is wrong with it.** -/
theorem addText_eq_error_iff {earlier : List (List Char)} (h : addLines {} 1 earlier = .ok layout)
    {number : Nat} {text : List Char} {e : Error} :
    layout.addText number text = .error e ↔ e.line = number ∧ Flaw earlier text e.cause := by
  have hoffset := offset?_isSome_iff h
  cases hparse : Line.parse? (uncommented text) with
  | none =>
      have hmalformed := Line.parse?_eq_none_iff.mp hparse
      rw [addText_malformed hmalformed]
      constructor
      · rintro ⟨⟩
        exact ⟨rfl, .malformed hmalformed⟩
      · obtain ⟨line, cause⟩ := e
        rintro ⟨rfl, hflaw⟩
        cases hflaw with
        | malformed => rfl
        | duplicateLabel hdefines =>
            obtain ⟨line, hline, -⟩ := hdefines
            cases hparse.symm.trans hline
        | body hline => cases hparse.symm.trans hline
  | some line =>
      rw [addText, hparse]
      dsimp only
      rw [addLine_eq_error_iff]
      refine and_congr_right fun _ => ?_
      simp only [hoffset]
      constructor
      · rintro (⟨name, hlabel, hold, hcause⟩ | ⟨hnew, body, hbody, hflaw⟩)
        · rw [hcause]
          exact .duplicateLabel ⟨line, hparse, hlabel⟩ hold
        · exact .body hparse hnew hbody hflaw
      · generalize e.cause = cause
        intro hflaw
        cases hflaw with
        | malformed hmalformed =>
            exact absurd (Line.exists_parse?_iff.mp ⟨line, hparse⟩) hmalformed
        | duplicateLabel hdefines hold =>
            obtain ⟨line', hline', hlabel⟩ := hdefines
            cases hparse.symm.trans hline'
            exact Or.inl ⟨_, hlabel, hold, rfl⟩
        | body hline' hnew hbody hflaw =>
            cases hparse.symm.trans hline'
            exact Or.inr ⟨hnew, _, hbody, hflaw⟩

/-- Lines can be added one behind the other if none of them has a flaw. -/
theorem unflawed_iff {texts : List (List Char)} :
    Unflawed texts ↔ ∃ layout, addLines {} 1 texts = .ok layout := by
  constructor
  · intro h
    cases hlines : addLines {} 1 texts with
    | ok layout => exact ⟨layout, rfl⟩
    | error e =>
        obtain ⟨before, text, after, layout, hsplit, hbefore, htext⟩ := addLines_error hlines
        exact absurd ((addText_eq_error_iff hbefore).mp htext).2 (h before text after _ hsplit)
  · rintro ⟨layout, hlines⟩ before text after cause rfl hflaw
    rw [addLines_append] at hlines
    obtain ⟨layout₁, hbefore, hrest⟩ := bind_eq_ok.mp hlines
    obtain ⟨layout₂, htext, -⟩ := bind_eq_ok.mp hrest
    have hfails : layout₁.addText (1 + before.length) text =
        .error ⟨1 + before.length, cause⟩ :=
      (addText_eq_error_iff hbefore).mpr ⟨rfl, hflaw⟩
    rw [hfails] at htext
    cases htext

/-- **Lines that are added one behind the other fail at the first that has a flaw.** -/
theorem addLines_eq_error_iff {texts : List (List Char)} {e : Error} :
    addLines {} 1 texts = .error e ↔ FirstFlaw texts e := by
  constructor
  · intro h
    obtain ⟨before, text, after, layout, hsplit, hbefore, htext⟩ := addLines_error h
    obtain ⟨hline, hflaw⟩ := (addText_eq_error_iff hbefore).mp htext
    rw [Nat.add_comm] at hline
    exact ⟨before, text, after, hsplit, hline, hflaw, unflawed_iff.mpr ⟨layout, hbefore⟩⟩
  · rintro ⟨before, text, after, rfl, hline, hflaw, hunflawed⟩
    obtain ⟨layout, hbefore⟩ := unflawed_iff.mp hunflawed
    rw [Nat.add_comm] at hline
    rw [addLines_append, hbefore]
    show layout.addLines (1 + before.length) (text :: after) = .error e
    rw [addLines, (addText_eq_error_iff hbefore).mpr ⟨hline, hflaw⟩]
    rfl

/-! ## The labels that are used -/

/-- A line adds the statement that its instruction makes. -/
theorem addLine_statement {layout' : Layout} {number : Nat} {line : Line}
    (h : layout.addLine number line = .ok layout') :
    ∃ added : Option Statement,
      layout'.statements.toList = layout.statements.toList ++ added.toList ∧
      Option.Rel (fun body s => body.statement number = .ok s) line.body added := by
  have hbody : ∀ {layout : Layout} {body : Option Body},
      layout.addLine number ⟨none, body⟩ = .ok layout' → ∃ added : Option Statement,
        layout'.statements.toList = layout.statements.toList ++ added.toList ∧
        Option.Rel (fun body s => body.statement number = .ok s) body added := by
    intro layout body h
    cases body with
    | none =>
        cases h
        exact ⟨none, by simp, .none⟩
    | some body =>
        rw [addLine_body] at h
        obtain ⟨s, hs, hlayout⟩ := bind_eq_ok.mp h
        cases hlayout
        exact ⟨some s, by simp [append], .some hs⟩
  obtain ⟨label, body⟩ := line
  cases label with
  | none => exact hbody h
  | some name =>
      rw [addLine_label] at h
      obtain ⟨layout₁, hdefine, hrest⟩ := bind_eq_ok.mp h
      obtain ⟨-, rfl⟩ := define_eq_ok hdefine
      have hadded := hbody hrest
      exact hadded

/-- The statement has the label as its operand that the line uses. -/
theorem addText_statement {layout' : Layout} {number : Nat} {text : List Char}
    (h : layout.addText number text = .ok layout') :
    ∃ added : Option Statement,
      layout'.statements.toList = layout.statements.toList ++ added.toList ∧
      (∀ s ∈ added, s.line = number) ∧
      ∀ name, (∃ s ∈ added, s.operand = some (.label name)) ↔ UsesLabel text name := by
  obtain ⟨line, hline, hadd⟩ := addText_eq_ok h
  obtain ⟨added, hadded, hmakes⟩ := addLine_statement hadd
  have huses : ∀ name, UsesLabel text name ↔ ∃ body ∈ line.body, ∃ operand,
      body.operand = some operand ∧
        Operand.parse? operand.toList = some (.label name) := by
    intro name
    constructor
    · rintro ⟨line', body, operand, hline', hbody, hoperand, hlabel⟩
      cases hline.symm.trans hline'
      exact ⟨body, hbody, operand, hoperand, hlabel⟩
    · rintro ⟨body, hbody, operand, hoperand, hlabel⟩
      exact ⟨line, body, operand, hline, hbody, hoperand, hlabel⟩
  refine ⟨added, hadded, ?_⟩
  simp only [huses]
  generalize line.body = body at hmakes
  cases hmakes with
  | none => simp
  | @some body s hs =>
      obtain ⟨hnumber, -, hoperand, -⟩ := Body.statement_eq_ok_iff.mp hs
      refine ⟨by simpa using hnumber, fun name => ?_⟩
      simp only [Option.mem_def, Option.some.injEq, exists_eq_left']
      generalize body.operand = operand at hoperand
      generalize s.operand = value at hoperand
      cases hoperand with
      | none => simp
      | some hparse => simp [hparse]

theorem addLines_statements {layout' : Layout} {number : Nat} {texts : List (List Char)}
    (h : layout.addLines number texts = .ok layout') :
    ∃ added, layout'.statements.toList = layout.statements.toList ++ added ∧
      ∀ name, (∃ s ∈ added, s.operand = some (.label name)) ↔
        ∃ text ∈ texts, UsesLabel text name := by
  induction texts generalizing layout number with
  | nil =>
      cases h
      exact ⟨[], by simp, by simp⟩
  | cons text texts ih =>
      obtain ⟨layout₁, htext, hrest⟩ := bind_eq_ok.mp h
      obtain ⟨first, hfirst, -, huses⟩ := addText_statement htext
      obtain ⟨added, hadded, hrest⟩ := ih hrest
      refine ⟨first.toList ++ added, by rw [hadded, hfirst, List.append_assoc], fun name => ?_⟩
      simp only [List.mem_append, or_and_right, exists_or, Option.mem_toList,
        List.exists_mem_cons_iff, hrest]
      exact or_congr_left (huses name)

/-- Writing succeeds if every label that is used has an offset. -/
theorem emit_of_defined
    (h : ∀ s ∈ layout.statements.toList, ∀ name, s.operand = some (.label name) →
      (layout.offset? name).isSome = true) : ∃ code, layout.emit = .ok code := by
  cases hemit : layout.emit with
  | ok code => exact ⟨code, rfl⟩
  | error e =>
      obtain ⟨before, s, after, name, hsplit, -, hoperand, hundefined, -⟩ := emit_eq_error hemit
      have hdefined := h s (by simp [hsplit]) name hoperand
      rw [hundefined] at hdefined
      cases hdefined

/-- Writing fails at a statement whose label has no offset if those before can be written. -/
theorem emit_of_undefined {before after : List Statement} {s : Statement} {name : String}
    (hsplit : layout.statements.toList = before ++ s :: after)
    (hbefore : ∀ b ∈ before, ∀ name', b.operand = some (.label name') →
      (layout.offset? name').isSome = true)
    (hoperand : s.operand = some (.label name)) (hundefined : layout.offset? name = none) :
    layout.emit = .error ⟨s.line, .undefinedLabel name⟩ := by
  have hencode : ∀ b ∈ before, ∃ words, layout.encode b = .ok words := by
    intro b hb
    cases hwords : layout.encode b with
    | ok words => exact ⟨words, rfl⟩
    | error e =>
        obtain ⟨name', hoperand', hnone, -⟩ := encode_eq_error hwords
        have hdefined := hbefore b hb name' hoperand'
        rw [hnone] at hdefined
        cases hdefined
  have hs : layout.encode s = .error ⟨s.line, .undefinedLabel name⟩ := by
    obtain ⟨line, opcode, operand⟩ := s
    obtain rfl : operand = some (.label name) := hoperand
    exact encode_undefined layout line opcode hundefined
  rw [emit, hsplit, mapM_of_error hencode hs]
  rfl

/-- **Writing fails at the first line that uses a label without a definition.** -/
theorem emit_of_firstUndefined {texts : List (List Char)} (h : addLines {} 1 texts = .ok layout)
    {e : Error} (he : FirstUndefined texts e) : layout.emit = .error e := by
  have hoffset := offset?_isSome_iff h
  obtain ⟨before, text, after, name, hsplit, rfl, huses, hundefined, hearlier⟩ := he
  rw [hsplit, addLines_append] at h
  obtain ⟨layout₁, hbefore, hrest⟩ := bind_eq_ok.mp h
  obtain ⟨layout₂, htext, hafter⟩ := bind_eq_ok.mp hrest
  obtain ⟨first, hfirst, hfirst_uses⟩ := addLines_statements hbefore
  obtain ⟨added, hadded, hnumber, hadded_uses⟩ := addText_statement htext
  obtain ⟨last, hlast, -⟩ := addLines_statements hafter
  obtain ⟨s, rfl, hoperand⟩ := (hadded_uses name).mpr huses
  have hstatements : layout.statements.toList = first ++ s :: last := by
    rw [hlast, hadded, hfirst]
    simp
  have hline : s.line = before.length + 1 := by
    rw [hnumber s rfl, Nat.add_comm]
  have hnone : layout.offset? name = none := by
    rw [← Option.not_isSome_iff_eq_none, hoffset]
    exact hundefined
  rw [← hline]
  refine emit_of_undefined hstatements (fun b hb name' hname' => ?_) hoperand hnone
  obtain ⟨text', htext', huses'⟩ := (hfirst_uses name').mp ⟨b, hb, hname'⟩
  exact (hoffset name').mpr (hearlier text' htext' name' huses')

/-- Writing succeeds if every label that is used is defined. -/
theorem emit_of_allDefined {texts : List (List Char)} (h : addLines {} 1 texts = .ok layout)
    (hdefined : AllDefined texts) : ∃ code, layout.emit = .ok code := by
  obtain ⟨added, hadded, huses⟩ := addLines_statements h
  refine emit_of_defined fun s hs name hname => ?_
  rw [hadded] at hs
  obtain ⟨text, htext, hlabel⟩ := (huses name).mp ⟨s, by simpa using hs, hname⟩
  exact (offset?_isSome_iff h name).mpr (hdefined text htext name hlabel)

end Layout

/-- If not all labels that are used are defined, there is a first line with one that is not. -/
theorem allDefined_or_firstUndefined (texts : List (List Char)) :
    AllDefined texts ∨ ∃ e, FirstUndefined texts e := by
  rcases forall_or_exists_first (fun text => ∀ name, UsesLabel text name → DefinedIn texts name)
    texts with hall | ⟨before, text, after, hsplit, hbefore, htext⟩
  · exact Or.inl hall
  · push Not at htext
    obtain ⟨name, huses, hundefined⟩ := htext
    exact Or.inr ⟨_, before, text, after, name, hsplit, rfl, huses, hundefined, hbefore⟩

/-- **A layout is written, or writing fails at the first label without a definition.** -/
theorem Layout.emit_eq_error_iff {layout : Layout} {texts : List (List Char)}
    (h : addLines {} 1 texts = .ok layout) {e : Error} :
    layout.emit = .error e ↔ FirstUndefined texts e := by
  refine ⟨fun he => ?_, emit_of_firstUndefined h⟩
  rcases allDefined_or_firstUndefined texts with hdefined | ⟨e', he'⟩
  · obtain ⟨code, hcode⟩ := emit_of_allDefined h hdefined
    cases hcode.symm.trans he
  · cases he.symm.trans (emit_of_firstUndefined h he')
    exact he'

/-! ## Texts -/

/-- A text fails at its first line with a flaw. -/
theorem assemble_eq_error_iff_of_isLocal {source : String} {e : Error} (hlocal : e.cause.IsLocal) :
    assemble source = .error e ↔ FirstFlaw (splitLines source.toList) e := by
  rw [assemble, bind_eq_error, layout, Layout.addLines_eq_error_iff]
  refine ⟨fun h => h.resolve_right ?_, Or.inl⟩
  rintro ⟨table, htable, hemit⟩
  obtain ⟨before, text, after, name, -, rfl, -⟩ := (Layout.emit_eq_error_iff htable).mp hemit
  exact hlocal name rfl

/-- If no line has a flaw, a text fails at the first label without a definition. -/
theorem assemble_eq_error_iff_of_undefined {source : String} {number : Nat} {name : String} :
    assemble source = .error ⟨number, .undefinedLabel name⟩ ↔
      Unflawed (splitLines source.toList) ∧
        FirstUndefined (splitLines source.toList) ⟨number, .undefinedLabel name⟩ := by
  rw [assemble, bind_eq_error, layout, Layout.addLines_eq_error_iff]
  constructor
  · rintro (⟨before, text, after, -, -, hflaw, -⟩ | ⟨table, htable, hemit⟩)
    · exact absurd rfl (hflaw.isLocal name)
    · exact ⟨Layout.unflawed_iff.mpr ⟨table, htable⟩, (Layout.emit_eq_error_iff htable).mp hemit⟩
  · rintro ⟨hunflawed, hundefined⟩
    obtain ⟨table, htable⟩ := Layout.unflawed_iff.mp hunflawed
    exact Or.inr ⟨table, htable, (Layout.emit_eq_error_iff htable).mpr hundefined⟩

/-- A text is assembled if no line has a flaw and all labels that are used are defined. -/
theorem exists_assemble_iff {source : String} :
    (∃ code, assemble source = .ok code) ↔
      Unflawed (splitLines source.toList) ∧ AllDefined (splitLines source.toList) := by
  constructor
  · rintro ⟨code, hcode⟩
    obtain ⟨table, htable, hemit⟩ := bind_eq_ok.mp hcode
    refine ⟨Layout.unflawed_iff.mpr ⟨table, htable⟩, ?_⟩
    refine (allDefined_or_firstUndefined _).resolve_right fun ⟨e, he⟩ => ?_
    cases hemit.symm.trans (Layout.emit_of_firstUndefined htable he)
  · rintro ⟨hunflawed, hdefined⟩
    obtain ⟨table, htable⟩ := Layout.unflawed_iff.mp hunflawed
    obtain ⟨code, hcode⟩ := Layout.emit_of_allDefined htable hdefined
    exact ⟨code, bind_eq_ok.mpr ⟨table, htable, hcode⟩⟩

/-- A text that begins with the lines up to the first flaw fails there as well. -/
theorem assemble_of_flaw {source : String} {before after : List (List Char)} {text : List Char}
    {e : Error} (hsource : splitLines source.toList = before ++ [text] ++ after)
    (hline : e.line = before.length + 1) (hflaw : Flaw before text e.cause)
    (hunflawed : Unflawed before) : assemble source = .error e :=
  (assemble_eq_error_iff_of_isLocal hflaw.isLocal).mpr
    ⟨before, text, after, by simpa using hsource, hline, hflaw, hunflawed⟩

/-- A text that is joined from lines without a flaw fails at a label or not at all. -/
theorem not_isLocal_of_unflawed {lines : List (List Char)} (hlines : ∀ line ∈ lines, '\n' ∉ line)
    (h : Unflawed lines) {e : Error} (he : assemble (joinLines lines) = .error e) :
    ¬ e.cause.IsLocal := by
  intro hlocal
  obtain ⟨layout, hlayout⟩ : ∃ layout,
      Layout.addLines {} 1 (splitLines (joinLines lines).toList) = .ok layout := by
    by_cases hnil : lines = []
    · -- no lines at all make a text with one empty line
      subst hnil
      exact ⟨{}, rfl⟩
    · rw [splitLines_joinLines hnil hlines]
      exact Layout.unflawed_iff.mp h
  have hflaw := (assemble_eq_error_iff_of_isLocal hlocal).mp he
  cases hlayout.symm.trans (Layout.addLines_eq_error_iff.mpr hflaw)

/-- **A text fails at its first flawed line, and only without such a line at a label.** What is
wrong with a line can be said from the lines up to it: they fail alone, and with anything behind
them, with the same error, and the lines before do not fail in this way. If no line has a flaw, a
text fails at the first line that uses a label without a definition before it or behind it, and if
there is no such line either, the text is assembled. -/
theorem assemble_first_error (source : String) :
    (∀ e : Error, e.cause.IsLocal →
      (assemble source = .error e ↔ FirstFlaw (splitLines source.toList) e)) ∧
    (∀ e : Error, e.cause.IsLocal → assemble source = .error e →
      ∃ before text after, splitLines source.toList = before ++ text :: after ∧
        e.line = before.length + 1 ∧ assemble (joinLines (before ++ [text])) = .error e ∧
        (∀ rest, assemble (joinLines (before ++ [text]) ++ "\n" ++ rest) = .error e) ∧
        ∀ e', assemble (joinLines before) = .error e' → ¬ e'.cause.IsLocal) ∧
    (∀ number name, assemble source = .error ⟨number, .undefinedLabel name⟩ ↔
      Unflawed (splitLines source.toList) ∧
        FirstUndefined (splitLines source.toList) ⟨number, .undefinedLabel name⟩) ∧
    ((∃ code, assemble source = .ok code) ↔
      Unflawed (splitLines source.toList) ∧ AllDefined (splitLines source.toList)) := by
  refine ⟨fun e => assemble_eq_error_iff_of_isLocal, fun e hlocal he => ?_,
    fun number name => assemble_eq_error_iff_of_undefined, exists_assemble_iff⟩
  obtain ⟨before, text, after, hsource, hline, hflaw, hunflawed⟩ :=
    (assemble_eq_error_iff_of_isLocal hlocal).mp he
  have hnewline : ∀ line ∈ before ++ [text], '\n' ∉ line := by
    intro line hmem
    have hlines : line ∈ splitLines source.toList := by
      rw [hsource, List.append_cons]
      exact List.mem_append_left _ hmem
    exact newline_not_mem_of_mem_splitLines hlines
  have hjoin : splitLines (joinLines (before ++ [text])).toList = before ++ [text] :=
    splitLines_joinLines (by simp) hnewline
  refine ⟨before, text, after, hsource, hline, ?_, fun rest => ?_, fun e' => ?_⟩
  · exact assemble_of_flaw (by rw [hjoin, List.append_nil]) hline hflaw hunflawed
  · have hend : "\n".toList = ['\n'] := by decide
    have hlines : splitLines (joinLines (before ++ [text]) ++ "\n" ++ rest).toList =
        before ++ [text] ++ splitLines rest.toList := by
      rw [String.toList_append, String.toList_append, hend, List.append_assoc,
        List.singleton_append, splitLines_newline, hjoin]
    exact assemble_of_flaw hlines hline hflaw hunflawed
  · exact not_isLocal_of_unflawed (fun line hmem => hnewline line (by simp [hmem])) hunflawed

/-- An operand is missing on the second line, so that nothing behind this line matters, not even
that the label before it is never defined. Without such a mistake the label `c` is the first that
is not defined; the label before it is defined later. -/
theorem assemble_first_error_both_kinds :
    Cause.IsLocal (.missingOperand .push) ∧
      assemble "JMP end\nPUSH\na b c" = .error ⟨2, .missingOperand .push⟩ ∧
      (∀ rest, assemble ("JMP end\nPUSH" ++ "\n" ++ rest) = .error ⟨2, .missingOperand .push⟩) ∧
      Unflawed (splitLines "JMP b\nJMP c\nb: JMP d".toList) ∧
      FirstUndefined (splitLines "JMP b\nJMP c\nb: JMP d".toList) ⟨2, .undefinedLabel "c"⟩ := by
  have hlocal : Cause.IsLocal (.missingOperand .push) := nofun
  have hmissing : assemble "JMP end\nPUSH\na b c" = .error ⟨2, .missingOperand .push⟩ := by
    decide +kernel
  have hundefined : assemble "JMP b\nJMP c\nb: JMP d" = .error ⟨2, .undefinedLabel "c"⟩ := by
    decide +kernel
  obtain ⟨-, hprefix, -, -⟩ := assemble_first_error "JMP end\nPUSH\na b c"
  obtain ⟨-, -, hlabels, -⟩ := assemble_first_error "JMP b\nJMP c\nb: JMP d"
  refine ⟨hlocal, hmissing, ?_, (hlabels 2 "c").mp hundefined⟩
  obtain ⟨before, text, after, hsource, hline, -, hrest, -⟩ := hprefix _ hlocal hmissing
  -- the lines up to the mistake are the first two
  have hlines : splitLines "JMP end\nPUSH\na b c".toList =
      ["JMP end".toList, "PUSH".toList, "a b c".toList] := by
    decide +kernel
  obtain ⟨first, rfl⟩ := List.length_eq_one_iff.mp (Nat.succ.inj hline).symm
  rw [hlines] at hsource
  cases hsource
  have hjoin : joinLines ["JMP end".toList, "PUSH".toList] = "JMP end\nPUSH" := by decide +kernel
  rw [← hjoin]
  exact hrest

end StackMachine.Assembly
