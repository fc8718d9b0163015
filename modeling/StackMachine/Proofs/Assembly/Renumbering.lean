import StackMachine.Proofs.Assembly.Grammar

set_option autoImplicit false

/-! # Lines that can stand for others

The number of a line shows up in errors only. So a layout whose statements are renumbered is
written with the same words (`Layout.Renumbers.emit`), and lines can be put in the place of others
when adding them gives the same layout up to the numbers of lines (`CanReplace`). For single lines
it is enough that they say the same, the case of the mnemonic apart (`CanReplace.of_line`). What
can be replaced can be replaced in any text (`CanReplace.assemble`).
-/

namespace StackMachine

/-- The case of a mnemonic does not matter. -/
theorem Opcode.ofMnemonic?_congr {name name' : String}
    (h : name.toList.map Char.toUpper = name'.toList.map Char.toUpper) :
    ofMnemonic? name = ofMnemonic? name' := by
  simp only [ofMnemonic?, h]

namespace Assembly

/-! ## Statements -/

/-- The instructions are the same, the case of the mnemonic apart. -/
structure Body.SaysSame (body body' : Body) : Prop where
  mnemonic : body.mnemonic.toList.map Char.toUpper = body'.mnemonic.toList.map Char.toUpper
  operand : body.operand = body'.operand

/-- The lines say the same, the case of the mnemonic apart. -/
structure Line.SaysSame (line line' : Line) : Prop where
  label : line.label = line'.label
  body : Option.Rel Body.SaysSame line.body line'.body

theorem Body.saysSame_refl (body : Body) : body.SaysSame body := ⟨rfl, rfl⟩

theorem Line.saysSame_refl (line : Line) : line.SaysSame line := by
  refine ⟨rfl, ?_⟩
  cases line.body with
  | none => exact .none
  | some body => exact .some body.saysSame_refl

/-- The statements differ at most in the lines on which they stand. -/
structure Statement.Renumbers (s s' : Statement) : Prop where
  opcode : s.opcode = s'.opcode
  operand : s.operand = s'.operand

/-- Instructions that are the same make the same statement, whatever the line. -/
theorem Body.SaysSame.statement {body body' : Body} (h : body.SaysSame body') {number : Nat}
    {s : Statement} (hs : body.statement number = .ok s) (number' : Nat) :
    ∃ s', body'.statement number' = .ok s' ∧ s.Renumbers s' := by
  obtain ⟨-, hop, hoperand, hsome⟩ := Body.statement_eq_ok_iff.mp hs
  rw [Opcode.ofMnemonic?_congr h.mnemonic] at hop
  rw [h.operand] at hoperand hsome
  exact ⟨{ s with line := number' }, Body.statement_eq_ok_iff.mpr ⟨rfl, hop, hoperand, hsome⟩,
    rfl, rfl⟩

namespace Layout

/-! ## Layouts -/

/-- The layouts differ at most in the lines on which their statements stand. -/
structure Renumbers (layout layout' : Layout) : Prop where
  labels : layout.labels = layout'.labels
  size : layout.size = layout'.size
  statements :
    List.Forall₂ Statement.Renumbers layout.statements.toList layout'.statements.toList

theorem renumbers_refl (layout : Layout) : layout.Renumbers layout :=
  ⟨rfl, rfl, List.forall₂_same.mpr fun _ _ => ⟨rfl, rfl⟩⟩

namespace Renumbers

variable {layout layout' final : Layout} {number : Nat}

theorem define (h : layout.Renumbers layout') {name : String}
    (hd : layout.define number name = .ok final) (number' : Nat) :
    ∃ final', layout'.define number' name = .ok final' ∧ final.Renumbers final' := by
  obtain ⟨hnew, rfl⟩ := define_eq_ok hd
  have hnew' : layout'.offset? name = none := by
    rw [offset?, ← h.labels]
    exact hnew
  refine ⟨{ layout' with labels := (name, layout'.size) :: layout'.labels }, ?_, ?_⟩
  · rw [Layout.define, hnew']
    rfl
  · exact ⟨by rw [h.labels, h.size], h.size, h.statements⟩

theorem append (h : layout.Renumbers layout') {s s' : Statement} (hs : s.Renumbers s') :
    (layout.append s).Renumbers (layout'.append s') where
  labels := h.labels
  size := by simp only [Layout.append, h.size, hs.opcode]
  statements := by
    simp only [Layout.append, Array.toList_push]
    exact List.rel_append h.statements (.cons hs .nil)

theorem addBody (h : layout.Renumbers layout') {body body' : Option Body}
    (hbody : Option.Rel Body.SaysSame body body')
    (ha : layout.addLine number ⟨none, body⟩ = .ok final) (number' : Nat) :
    ∃ final', layout'.addLine number' ⟨none, body'⟩ = .ok final' ∧ final.Renumbers final' := by
  cases hbody with
  | none =>
      cases ha
      exact ⟨layout', rfl, h⟩
  | @some body body' hsame =>
      rw [addLine_body] at ha ⊢
      obtain ⟨s, hs, hfinal⟩ := bind_eq_ok.mp ha
      cases hfinal
      obtain ⟨s', hs', hrenumbers⟩ := hsame.statement hs number'
      exact ⟨layout'.append s', bind_eq_ok.mpr ⟨s', hs', rfl⟩, h.append hrenumbers⟩

/-- Lines that say the same are added alike, whatever their numbers. -/
theorem addLine (h : layout.Renumbers layout') {line line' : Line} (hline : line.SaysSame line')
    (ha : layout.addLine number line = .ok final) (number' : Nat) :
    ∃ final', layout'.addLine number' line' = .ok final' ∧ final.Renumbers final' := by
  obtain ⟨label, body⟩ := line
  obtain ⟨label', body'⟩ := line'
  obtain rfl : label = label' := hline.label
  cases label with
  | none => exact h.addBody hline.body ha number'
  | some name =>
      rw [addLine_label] at ha ⊢
      obtain ⟨layout₁, hdefine, hrest⟩ := bind_eq_ok.mp ha
      obtain ⟨layout₁', hdefine', hrenumbers⟩ := h.define hdefine number'
      obtain ⟨final', hrest', hfinal⟩ := hrenumbers.addBody hline.body hrest number'
      exact ⟨final', bind_eq_ok.mpr ⟨layout₁', hdefine', hrest'⟩, hfinal⟩

theorem encode (h : layout.Renumbers layout') {s s' : Statement} (hs : s.Renumbers s')
    {words : List Word} (hw : layout.encode s = .ok words) : layout'.encode s' = .ok words := by
  have hoffset : layout'.offset? = layout.offset? := by
    funext name
    rw [offset?, offset?, h.labels]
  obtain ⟨line, opcode, operand⟩ := s
  obtain ⟨line', opcode', operand'⟩ := s'
  obtain rfl : opcode = opcode' := hs.opcode
  obtain rfl : operand = operand' := hs.operand
  rcases operand with _ | _ | name
  · exact hw
  · exact hw
  · cases hname : layout.offset? name with
    | none =>
        rw [encode_undefined layout line opcode hname] at hw
        cases hw
    | some offset =>
        rw [encode_defined layout line opcode hname] at hw
        rw [encode_defined layout' line' opcode (by rw [hoffset, hname])]
        exact hw

/-- **The words of a layout do not depend on the numbers of lines.** -/
theorem emit (h : layout.Renumbers layout') {code : Program} (he : layout.emit = .ok code) :
    layout'.emit = .ok code := by
  obtain ⟨words, hwords, hcode⟩ := bind_eq_ok.mp he
  have hencoded : List.Forall₂ (fun s' w => layout'.encode s' = .ok w)
      layout'.statements.toList words := by
    refine forall₂_comp (fun s' s w hs hw => ?_) h.statements.flip (mapM_eq_ok hwords)
    exact h.encode hs hw
  exact bind_eq_ok.mpr ⟨words, mapM_of_forall₂ hencoded, hcode⟩

end Renumbers

end Layout

/-! ## Replacing lines -/

/-- Wherever the old lines can be added, the new ones can be added too, with the same layout up to
the numbers of lines. -/
def CanReplace (old new : List (List Char)) : Prop :=
  ∀ (layout layout' final : Layout) (number number' : Nat), layout.Renumbers layout' →
    layout.addLines number old = .ok final →
    ∃ final', layout'.addLines number' new = .ok final' ∧ final.Renumbers final'

namespace CanReplace

theorem append {old new old' new' : List (List Char)} (h : CanReplace old new)
    (h' : CanReplace old' new') : CanReplace (old ++ old') (new ++ new') := by
  intro layout layout' final number number' hlayout ha
  rw [Layout.addLines_append] at ha ⊢
  obtain ⟨middle, hold, hold'⟩ := bind_eq_ok.mp ha
  obtain ⟨middle', hnew, hmiddle⟩ := h layout layout' middle number number' hlayout hold
  obtain ⟨final', hnew', hfinal⟩ := h' middle middle' final _ _ hmiddle hold'
  exact ⟨final', bind_eq_ok.mpr ⟨middle', hnew, hnew'⟩, hfinal⟩

/-- A line can be replaced when wherever it can be added it says something that the new line says
as well. -/
theorem of_line {text text' : List Char}
    (h : ∀ (layout final : Layout) (number : Nat), layout.addText number text = .ok final →
      ∃ line line', Line.parse? (uncommented text) = some line ∧
        Line.parse? (uncommented text') = some line' ∧ line.SaysSame line') :
    CanReplace [text] [text'] := by
  intro layout layout' final number number' hlayout ha
  obtain ⟨final₁, htext, hfinal⟩ := bind_eq_ok.mp ha
  cases hfinal
  obtain ⟨line, line', hline, hline', hsame⟩ := h layout final number htext
  rw [Layout.addText, hline] at htext
  obtain ⟨final', hadd, hrenumbers⟩ := hlayout.addLine hsame htext number'
  refine ⟨final', bind_eq_ok.mpr ⟨final', ?_, rfl⟩, hrenumbers⟩
  rw [Layout.addText, hline']
  exact hadd

theorem refl (lines : List (List Char)) : CanReplace lines lines := by
  induction lines with
  | nil =>
      intro layout layout' final number number' h ha
      cases ha
      exact ⟨layout', rfl, h⟩
  | cons text texts ih =>
      have hline : CanReplace [text] [text] := by
        refine of_line fun layout final number ha => ?_
        obtain ⟨line, hline, -⟩ := Layout.addText_eq_ok ha
        exact ⟨line, line, hline, hline, line.saysSame_refl⟩
      exact hline.append ih

/-- **What can be replaced can be replaced in any text.** -/
theorem assemble {source source' : String} {before old new after : List (List Char)}
    (h : CanReplace old new) (hsource : splitLines source.toList = before ++ old ++ after)
    (hsource' : splitLines source'.toList = before ++ new ++ after) {code : Program}
    (hcode : assemble source = .ok code) : assemble source' = .ok code := by
  obtain ⟨table, htable, hemit⟩ := bind_eq_ok.mp hcode
  rw [layout, hsource] at htable
  have hreplace := ((refl before).append h).append (refl after)
  obtain ⟨table', htable', hrenumbers⟩ := hreplace _ _ _ 1 1 (Layout.renumbers_refl _) htable
  rw [← hsource'] at htable'
  exact bind_eq_ok.mpr ⟨table', htable', hrenumbers.emit hemit⟩

end CanReplace

end Assembly

end StackMachine
