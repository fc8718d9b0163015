import StackMachine.Proofs.Assembly.Emission
import StackMachine.Proofs.Assembly.Writing
import StackMachine.Proofs.Draft.Requests

set_option autoImplicit false

/-! # Drafts and assembly text

The requests that build a draft can also be written as assembly text, a line for each bound label
and for each instruction (`Draft.text`). A draft fills the slots of its references once all labels
are known, where assembling lays out all statements first and resolves labels as it writes them.
After each request the draft and the layout of the lines so far hold the same statements and the
same labels (`Draft.Matches`), and from two that match, finishing the draft and writing the layout
give the same program or stop at the same reference (`Draft.Matches.finish`).
-/

namespace StackMachine

open StackMachine.Assembly

/-! ## Requests as text -/

/-- The name of a label in assembly text. -/
def Label.name (label : Label) : String := "L" ++ toString label.id

theorem Label.name_injective {label label' : Label} (h : label.name = label'.name) :
    label = label' := by
  have hdigits : Nat.toDigits 10 label.id = Nat.toDigits 10 label'.id := by
    have hlists := congrArg String.toList h
    simpa [name, Nat.toList_repr] using hlists
  have hid : label.id = label'.id := by
    calc label.id = Nat.ofDigitChars 10 (Nat.toDigits 10 label.id) 0 :=
          Nat.ofDigitChars_ten_toDigits.symm
      _ = Nat.ofDigitChars 10 (Nat.toDigits 10 label'.id) 0 := by rw [hdigits]
      _ = label'.id := Nat.ofDigitChars_ten_toDigits
  cases label
  cases label'
  exact congrArg Label.mk hid

theorem Label.isIdentifier_name (label : Label) : isIdentifier label.name.toList = true := by
  have hname : label.name.toList = 'L' :: Nat.toDigits 10 label.id := by
    simp [name, Nat.toList_repr]
  rw [hname, isIdentifier_cons]
  exact ⟨by decide, fun c hc => isIdentifierPart_of_isDigit (isDigit_of_mem_toDigits hc)⟩

namespace Draft

/-- The request can be written as text: its opcode fits its operand, it uses a label that was made
before, and it binds only a label that is not bound yet. There is no line for a bare word. -/
def Request.Writable (d : Draft) : Request → Prop
  | .newLabel | .here | .push _ => True
  | .bind label => d.Knows label ∧ d.target? label = none
  | .op opcode => opcode.takesOperand = false
  | .opWith opcode _ => opcode.takesOperand = true
  | .jump opcode label => opcode.hasTarget = true ∧ d.Knows label
  | .call label | .enterTry label => d.Knows label
  | .word _ => False

/-- Each of the requests can be written as text when its turn comes. -/
def Writable (d : Draft) : List Request → Prop
  | [] => True
  | r :: rs => r.Writable d ∧ Writable (d.apply r) rs

instance (d : Draft) (label : Label) : Decidable (d.Knows label) :=
  inferInstanceAs (Decidable (_ < _))

instance (d : Draft) : (r : Request) → Decidable (r.Writable d)
  | .newLabel | .here | .push _ => inferInstanceAs (Decidable True)
  | .bind _ | .jump _ _ => inferInstanceAs (Decidable (_ ∧ _))
  | .op _ | .opWith _ _ => inferInstanceAs (Decidable (_ = _))
  | .call label | .enterTry label => inferInstanceAs (Decidable (d.Knows label))
  | .word _ => inferInstanceAs (Decidable False)

instance decidableWritable (d : Draft) : (requests : List Request) → Decidable (d.Writable requests)
  | [] => inferInstanceAs (Decidable True)
  | r :: rs =>
    have := decidableWritable (d.apply r) rs
    inferInstanceAs (Decidable (r.Writable d ∧ Writable (d.apply r) rs))

/-- The lines of a request: one for a label that is bound and one for an instruction. -/
def Request.entries (d : Draft) : Request → List Entry
  | .newLabel | .word _ => []
  | .here => [.label (d.newLabel.1.name)]
  | .bind label => [.label label.name]
  | .op opcode => [.instruction opcode none]
  | .opWith opcode operand => [.instruction opcode (some (.literal operand))]
  | .jump opcode label => [.instruction opcode (some (.label label.name))]
  | .push w => [.instruction .push (some (.literal w))]
  | .call label => [.instruction .call (some (.label label.name))]
  | .enterTry handler => [.instruction .enterTry (some (.label handler.name))]

/-- The lines of requests in order. -/
def entries (d : Draft) : List Request → List Entry
  | [] => []
  | r :: rs => r.entries d ++ entries (d.apply r) rs

/-- The assembly text of the requests that build a draft from nothing. -/
def text (requests : List Request) : String := source (entries {} requests)

end Draft

/-! ## Statements with open slots -/

namespace Assembly

/-- The words of a statement with zero in place of a label. -/
def Statement.words (s : Statement) : List Word :=
  match s.operand with
  | none => [s.opcode.toWord]
  | some (.literal w) => [s.opcode.toWord, w]
  | some (.label _) => [s.opcode.toWord, 0]

/-- The slot for a label in a statement that begins at an offset. -/
def Statement.slot? (s : Statement) (offset : Nat) : Option (Nat × String) :=
  match s.operand with
  | some (.label name) => some (offset + 1, name)
  | _ => none

/-- The slots for labels in statements that begin at an offset. -/
def slots (offset : Nat) : List Statement → List (Nat × String)
  | [] => []
  | s :: ss => (s.slot? offset).toList ++ slots (offset + s.words.length) ss

theorem Statement.length_words {s : Statement}
    (h : s.operand.isSome = s.opcode.takesOperand) : s.words.length = s.opcode.width := by
  unfold Statement.words Opcode.width Opcode.operandCount
  rw [← h]
  split <;> next hoperand => simp [hoperand]

theorem slots_concat (offset : Nat) (ss : List Statement) (s : Statement) :
    slots offset (ss ++ [s]) =
      slots offset ss ++ (s.slot? (offset + (ss.flatMap Statement.words).length)).toList := by
  induction ss generalizing offset with
  | nil => simp [slots]
  | cons first ss ih =>
      rw [List.cons_append, slots, ih, slots, List.append_assoc, List.flatMap_cons,
        List.length_append, Nat.add_assoc]

end Assembly

theorem Opcode.takesOperand_of_hasTarget {op : Opcode} (h : op.hasTarget = true) :
    op.takesOperand = true := by
  cases op <;> first | rfl | cases h

/-! ## A draft next to the layout of its text -/

namespace Draft

/-- The draft and the layout hold the same statements and the same labels. -/
structure Matches (d : Draft) (layout : Layout) : Prop where
  words : d.words.toList = layout.statements.toList.flatMap Statement.words
  references : d.references.toList.map (fun r => (r.1, r.2.name)) =
    slots 0 layout.statements.toList
  size : layout.size = d.offset
  labels : ∀ label : Label, layout.offset? label.name = d.target? label

namespace Matches

variable {d d' : Draft} {layout : Layout}

theorem empty : Matches {} {} where
  words := rfl
  references := rfl
  size := rfl
  labels label := by simp [Layout.offset?, target?]

theorem newLabel (h : d.Matches layout) : d.newLabel.2.Matches layout where
  words := h.words
  references := h.references
  size := h.size
  labels label := (h.labels label).trans (d.target?_newLabel label).symm

/-- Binding a label and defining it give it the same offset. -/
theorem bind (h : d.Matches layout) {label : Label} (hknown : d.Knows label)
    (hnew : d.target? label = none) (number : Nat) :
    ∃ layout', layout.define number label.name = .ok layout' ∧ (d.bind label).Matches layout' := by
  have hdefine : layout.define number label.name =
      .ok { layout with labels := (label.name, layout.size) :: layout.labels } := by
    rw [Layout.define, h.labels label, hnew]
    rfl
  refine ⟨_, hdefine, h.words, h.references, h.size, fun label' => ?_⟩
  rw [Layout.offset?_define, d.target?_bind hknown, h.size, h.labels label']
  by_cases heq : label' = label
  · rw [heq, if_pos rfl, if_pos rfl]
  · rw [if_neg heq, if_neg fun hname => heq (Label.name_injective hname)]

/-- A statement adds the same words, and the same open slot, to both. -/
theorem append (h : d.Matches layout) {s : Statement}
    (hcomplete : s.operand.isSome = s.opcode.takesOperand)
    (hwords : d'.words.toList = d.words.toList ++ s.words)
    (hreferences : d'.references.toList.map (fun r => (r.1, r.2.name)) =
      d.references.toList.map (fun r => (r.1, r.2.name)) ++ (s.slot? d.offset).toList)
    (hlabels : d'.labels = d.labels) : d'.Matches (layout.append s) := by
  have hlength : (layout.statements.toList.flatMap Statement.words).length = d.offset := by
    rw [← h.words, Array.length_toList]
    rfl
  refine ⟨?_, ?_, ?_, fun label => ?_⟩
  · rw [hwords, h.words]
    simp [Layout.append]
  · rw [hreferences, h.references]
    simp [Layout.append, slots_concat, hlength]
  · have hsize := congrArg List.length hwords
    rw [List.length_append, Statement.length_words hcomplete] at hsize
    simp only [Layout.append, h.size, offset]
    simpa using hsize.symm
  · have htarget : d'.target? label = d.target? label := by rw [target?, hlabels, target?]
    rw [htarget, ← h.labels label]
    rfl

theorem op (h : d.Matches layout) {opcode : Opcode} (hop : opcode.takesOperand = false)
    (number : Nat) : (d.op opcode).Matches (layout.append ⟨number, opcode, none⟩) :=
  h.append hop.symm (by simp [Draft.op, word, Statement.words])
    (by simp [Draft.op, word, Statement.slot?]) rfl

theorem opWith (h : d.Matches layout) {opcode : Opcode} (hop : opcode.takesOperand = true)
    (w : Word) (number : Nat) :
    (d.opWith opcode w).Matches (layout.append ⟨number, opcode, some (.literal w)⟩) :=
  h.append hop.symm (by simp [Draft.opWith, word, Statement.words])
    (by simp [Draft.opWith, word, Statement.slot?]) rfl

theorem jump (h : d.Matches layout) {opcode : Opcode} (hop : opcode.takesOperand = true)
    (label : Label) (number : Nat) :
    (d.jump opcode label).Matches
      (layout.append ⟨number, opcode, some (.label label.name)⟩) :=
  h.append hop.symm (by simp [Draft.jump, word, Statement.words])
    (by simp [Draft.jump, word, Statement.slot?, offset]) rfl

/-- **Each request keeps the draft in step with the layout of its text.** -/
theorem apply (h : d.Matches layout) {r : Request} (hr : r.Writable d) (number : Nat) :
    ∃ layout', layout.addAll number (r.entries d) = .ok layout' ∧
      (d.apply r).Matches layout' := by
  cases r with
  | newLabel => exact ⟨layout, rfl, h.newLabel⟩
  | here =>
      -- the label is new, so it is known and not bound
      have hknown : d.newLabel.2.Knows d.newLabel.1 := by simp [Knows, Draft.newLabel]
      have hnew : d.newLabel.2.target? d.newLabel.1 = none := by
        rw [target?_newLabel]
        simp [target?, Draft.newLabel]
      obtain ⟨layout', hdefine, hmatches⟩ := h.newLabel.bind hknown hnew number
      exact ⟨layout', (layout.addAll_singleton number _).trans hdefine, hmatches⟩
  | bind label =>
      obtain ⟨layout', hdefine, hmatches⟩ := h.bind hr.1 hr.2 number
      exact ⟨layout', (layout.addAll_singleton number _).trans hdefine, hmatches⟩
  | op opcode => exact ⟨_, rfl, h.op hr number⟩
  | opWith opcode operand => exact ⟨_, rfl, h.opWith hr operand number⟩
  | jump opcode label => exact ⟨_, rfl, h.jump (Opcode.takesOperand_of_hasTarget hr.1) label number⟩
  | push w => exact ⟨_, rfl, h.opWith rfl w number⟩
  | call label => exact ⟨_, rfl, h.jump rfl label number⟩
  | enterTry handler => exact ⟨_, rfl, h.jump rfl handler number⟩
  | word w => cases hr

/-- **So requests keep the draft in step with the layout of their text.** -/
theorem build (h : d.Matches layout) {requests : List Request} (hr : d.Writable requests)
    (number : Nat) :
    ∃ layout', layout.addAll number (d.entries requests) = .ok layout' ∧
      (d.build requests).Matches layout' := by
  induction requests generalizing d layout number with
  | nil => exact ⟨layout, rfl, h⟩
  | cons r rs ih =>
      obtain ⟨layout₁, hadd, h₁⟩ := h.apply hr.1 number
      obtain ⟨layout₂, hrest, h₂⟩ := ih h₁ hr.2 (number + (r.entries d).length)
      refine ⟨layout₂, ?_, h₂⟩
      rw [Draft.entries, Layout.addAll_append, hadd]
      exact hrest

end Matches

/-! ## Finishing a draft and writing its layout -/

/-- Finishing a draft and assembling its text agree: both give the same program, or both stop at
a reference to the same label. -/
inductive Agrees : Except Draft.Error Program → Except Assembly.Error Program → Prop
  | program (code : Program) : Agrees (.ok code) (.ok code)
  | unbound (label : Label) (line : Nat) :
      Agrees (.error (.unboundLabel label)) (.error ⟨line, .undefinedLabel label.name⟩)

namespace Agrees

variable {finished : Except Draft.Error Program} {assembled : Except Assembly.Error Program}

theorem ok_iff (h : Agrees finished assembled) (code : Program) :
    finished = .ok code ↔ assembled = .ok code := by
  cases h <;> simp

theorem unbound_iff (h : Agrees finished assembled) (label : Label) :
    finished = .error (.unboundLabel label) ↔
      ∃ line, assembled = .error ⟨line, .undefinedLabel label.name⟩ := by
  cases h with
  | program code => simp
  | unbound label' line =>
      constructor
      · rintro ⟨⟩
        exact ⟨line, rfl⟩
      · rintro ⟨line', heq⟩
        obtain ⟨-, hname⟩ : line = line' ∧ label'.name = label.name := by simpa using heq
        rw [Label.name_injective hname]

end Agrees

/-- Once the words of the first statement are known, the others are written behind them. -/
theorem mapM_encode_cons {layout : Layout} {s : Statement} {ws : List Word}
    (hws : layout.encode s = .ok ws) (done : List Word) (ss : List Statement) :
    ((s :: ss).mapM layout.encode >>= fun words => pure (done ++ words.flatten).toArray) =
      ss.mapM layout.encode >>= fun words => pure (done ++ ws ++ words.flatten).toArray := by
  rw [List.mapM_cons, hws]
  cases ss.mapM layout.encode with
  | error e => rfl
  | ok words =>
      show Except.ok (done ++ (ws :: words).flatten).toArray =
        .ok (done ++ ws ++ words.flatten).toArray
      rw [List.flatten_cons, List.append_assoc]

/-- Filling the slot of an operand. -/
theorem setIfInBounds_operand (done after : List Word) (opcode target : Word) :
    (done ++ [opcode, 0] ++ after).toArray.setIfInBounds (done.length + 1) target =
      (done ++ [opcode, target] ++ after).toArray := by
  simp

/-- Filling slots one after another agrees with writing statements with their labels resolved. The
slots are those of the statements still to come, behind the words of those that are done. -/
theorem foldlM_patch {d : Draft} {layout : Layout}
    (hlabels : ∀ label : Label, layout.offset? label.name = d.target? label)
    (done : List Word) (statements : List Statement) {references : List (Nat × Label)}
    (hreferences : references.map (fun r => (r.1, r.2.name)) = slots done.length statements) :
    Agrees
      (references.foldlM d.patch (done ++ statements.flatMap Statement.words).toArray)
      (statements.mapM layout.encode >>= fun words => pure (done ++ words.flatten).toArray) := by
  induction statements generalizing done references with
  | nil =>
      obtain rfl : references = [] := by simpa [slots] using hreferences
      exact .program _
  | cons s ss ih =>
      have hdone : ∀ ws : List Word, ws.length = s.words.length →
          done.length + s.words.length = (done ++ ws).length := by
        intro ws hws
        rw [List.length_append, hws]
      rw [slots] at hreferences
      rw [List.flatMap_cons, ← List.append_assoc]
      obtain ⟨line, opcode, operand⟩ := s
      cases operand with
      | none =>
          rw [hdone _ rfl] at hreferences
          rw [mapM_encode_cons rfl]
          exact ih _ hreferences
      | some operand =>
          cases operand with
          | literal w =>
              rw [hdone _ rfl] at hreferences
              rw [mapM_encode_cons rfl]
              exact ih _ hreferences
          | label name =>
              -- the first reference is the slot of this statement
              obtain ⟨⟨slot, label⟩, references, rfl, hfirst, hrest⟩ :=
                List.map_eq_cons_iff.mp hreferences
              obtain ⟨rfl, rfl⟩ := Prod.mk.inj hfirst
              rw [List.foldlM_cons, patch]
              cases htarget : d.target? label with
              | none =>
                  have hencode := layout.encode_undefined line opcode
                    ((hlabels label).trans htarget)
                  rw [List.mapM_cons, hencode]
                  exact .unbound label line
              | some target =>
                  have hencode := layout.encode_defined line opcode
                    ((hlabels label).trans htarget)
                  rw [hdone [opcode.toWord, Word.ofIndex target] rfl] at hrest
                  rw [mapM_encode_cons hencode]
                  have hagrees := ih _ hrest
                  rw [← setIfInBounds_operand] at hagrees
                  exact hagrees

/-- **A draft agrees with the layout of its text.** -/
theorem Matches.finish {d : Draft} {layout : Layout} (h : d.Matches layout)
    (hsize : d.offset < Word.positions) : Agrees d.finish layout.emit := by
  have hwords : d.words = ([] ++ layout.statements.toList.flatMap Statement.words).toArray := by
    rw [List.nil_append, ← h.words, Array.toArray_toList]
  change d.words.size < Word.positions at hsize
  rw [Draft.finish, if_pos hsize, ← Array.foldlM_toList, hwords]
  exact foldlM_patch h.labels [] layout.statements.toList h.references

/-! ## Where assembling stops -/

/-- The line is the first one that refers to a label which stays unbound, and this is its label. -/
def FirstUnbound (requests : List Request) (label : Label) (line : Nat) : Prop :=
  ∃ before opcode after,
    entries {} requests = before ++ .instruction opcode (some (.label label.name)) :: after ∧
    line = before.length + 1 ∧
    (build {} requests).target? label = none ∧
    ∀ opcode' label', .instruction opcode' (some (.label (Label.name label'))) ∈ before →
      (build {} requests).target? label' ≠ none

theorem Request.writable_entries {d : Draft} {r : Request} (h : r.Writable d) :
    ∀ e ∈ r.entries d, e.Writable := by
  have hjump : ∀ {opcode : Opcode}, opcode.takesOperand = true → ∀ label : Label,
      (Entry.instruction opcode (some (.label label.name))).Writable := by
    intro opcode hop label
    exact ⟨hop.symm, by simpa [Operand.Writable] using label.isIdentifier_name⟩
  have hliteral : ∀ {opcode : Opcode}, opcode.takesOperand = true → ∀ w : Word,
      (Entry.instruction opcode (some (.literal w))).Writable := by
    intro opcode hop w
    exact ⟨hop.symm, by simp [Operand.Writable]⟩
  cases r with
  | newLabel => simp [Request.entries]
  | here => exact List.forall_mem_singleton.mpr (Label.isIdentifier_name _)
  | bind label => exact List.forall_mem_singleton.mpr label.isIdentifier_name
  | op opcode => exact List.forall_mem_singleton.mpr ⟨Eq.symm h, by simp⟩
  | opWith opcode operand => exact List.forall_mem_singleton.mpr (hliteral h operand)
  | jump opcode label =>
      have htakes := Opcode.takesOperand_of_hasTarget h.1
      exact List.forall_mem_singleton.mpr (hjump htakes label)
  | push w => exact List.forall_mem_singleton.mpr (hliteral rfl w)
  | call label => exact List.forall_mem_singleton.mpr (hjump rfl label)
  | enterTry handler => exact List.forall_mem_singleton.mpr (hjump rfl handler)
  | word w => cases h

theorem writable_entries {d : Draft} {requests : List Request} (h : d.Writable requests) :
    ∀ e ∈ d.entries requests, e.Writable := by
  induction requests generalizing d with
  | nil => simp [entries]
  | cons r rs ih =>
      rw [entries]
      exact List.forall_mem_append.mpr ⟨Request.writable_entries h.1, ih h.2⟩

/-- Writing the layout of a text stops at the first reference to a label that stays unbound. -/
theorem firstUnbound_of_emit {requests : List Request} {table : Layout}
    (htable : Layout.addAll {} 1 (entries {} requests) = .ok table)
    (hmatches : (build {} requests).Matches table) {label : Label} {line : Nat}
    (hemit : table.emit = .error ⟨line, .undefinedLabel label.name⟩) :
    FirstUnbound requests label line := by
  have hstatements : table.statements.toList = Layout.numbered 1 (entries {} requests) :=
    Layout.statements_addAll htable
  obtain ⟨before, s, after, name, hsplit, hbefore, hoperand, hundefined, herror⟩ :=
    Layout.emit_eq_error hemit
  rw [hstatements] at hsplit
  obtain ⟨es, es', hentries, hline, hnumbered⟩ := Layout.numbered_eq_append hsplit
  cases herror
  rw [hoperand] at hentries
  refine ⟨es, s.opcode, es', hentries, by omega, ?_, fun opcode' label' hmem => ?_⟩
  · rw [← hmatches.labels label]
    exact hundefined
  · -- a statement before the one that failed could be written, so its label has an offset
    obtain ⟨line', hmem'⟩ := Layout.mem_numbered 1 hmem
    rw [hnumbered] at hmem'
    obtain ⟨words, hwords⟩ := hbefore _ hmem'
    rw [← hmatches.labels label']
    intro hnone
    rw [table.encode_undefined line' opcode' hnone] at hwords
    cases hwords

/-- **A draft and the text of its requests give the same program, or stop at the same label.** -/
theorem agrees_with_text {requests : List Request} (h : Writable {} requests)
    (hsize : (build {} requests).offset < Word.positions) :
    (∀ code, (build {} requests).finish = .ok code ↔ assemble (text requests) = .ok code) ∧
    (∀ label, (build {} requests).finish = .error (.unboundLabel label) ↔
      ∃ line, assemble (text requests) = .error ⟨line, .undefinedLabel label.name⟩) ∧
    ∀ label line, assemble (text requests) = .error ⟨line, .undefinedLabel (Label.name label)⟩ →
      FirstUnbound requests label line := by
  obtain ⟨table, htable, hmatches⟩ := Matches.empty.build h 1
  have hassemble : assemble (text requests) = table.emit := by
    rw [assemble, text, layout_source (writable_entries h), htable]
    rfl
  have hagrees := hmatches.finish hsize
  rw [hassemble]
  refine ⟨hagrees.ok_iff, hagrees.unbound_iff, fun label line hemit => ?_⟩
  exact firstUnbound_of_emit htable hmatches hemit

/-- A loop with a label before and one behind its use, and a text with two labels that stay
unbound, of which the one used first is reported. -/
theorem agrees_with_text_loop_and_unbound :
    ∃ loop broken : List Request,
      Writable {} loop ∧
      text loop = "L1:\nPUSH 1\nJMP_IF_ZERO L0\nJMP L1\nL0:\nHALT\n" ∧
      assemble (text loop) = .ok #[1, 1, 7, 6, 6, 0, 0] ∧
      Writable {} broken ∧ text broken = "L2:\nCALL L2\nJMP L1\nJMP L0\n" ∧
      (∃ line, assemble (text broken) = .error ⟨line, .undefinedLabel "L1"⟩) ∧
      FirstUnbound broken ⟨1⟩ 3 := by
  let loop : List Request :=
    [.newLabel, .here, .push 1, .jump .jmpIfZero ⟨0⟩, .jump .jmp ⟨1⟩, .bind ⟨0⟩, .op .halt]
  let broken : List Request :=
    [.newLabel, .newLabel, .here, .call ⟨2⟩, .jump .jmp ⟨1⟩, .jump .jmp ⟨0⟩]
  have hloop : Writable {} loop := by decide
  have hbroken : Writable {} broken := by decide
  have hfinished : (build {} loop).finish = .ok #[1, 1, 7, 6, 6, 0, 0] := by decide +kernel
  have hunbound : (build {} broken).finish = .error (.unboundLabel ⟨1⟩) := by decide +kernel
  have hstopped : assemble (text broken) = .error ⟨3, .undefinedLabel "L1"⟩ := by decide +kernel
  obtain ⟨hprogram, -, -⟩ := agrees_with_text hloop (by decide)
  obtain ⟨-, hlabel, hfirst⟩ := agrees_with_text hbroken (by decide)
  exact ⟨loop, broken, hloop, by decide +kernel, (hprogram _).mp hfinished, hbroken,
    by decide +kernel, (hlabel ⟨1⟩).mp hunbound, hfirst ⟨1⟩ 3 hstopped⟩

end Draft

end StackMachine
