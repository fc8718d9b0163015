import Mathlib.Data.List.Induction
import StackMachine.Proofs.Assembly.Emission
import StackMachine.Proofs.Draft.Requests
import StackMachine.Proofs.Heap.Bytes

set_option autoImplicit false

/-! # The slots of a draft

What a finished draft has to be is said without a draft: each request appends slots, and a slot is
a word or a reference to a label (`Draft.slots`); some requests bind a label to the offset that has
been reached (`Draft.bindings`). A draft holds the words, keeps a zero and a note for each
reference, and knows where each label was last bound (`Draft.Records`). Every request keeps it so
(`Draft.Records.apply`), and finishing fills the slots in order (`Draft.Records.finish`).
-/

namespace StackMachine.Draft

open StackMachine.Assembly

/-! ## What requests ask for -/

/-- What a request puts into a slot. -/
inductive Slot where
  | word (w : Word)
  | reference (label : Label)
  deriving DecidableEq, Repr

/-- The slots that a request appends. -/
def Request.slots : Request → List Slot
  | .newLabel | .here | .bind _ => []
  | .op opcode => [.word opcode.toWord]
  | .opWith opcode operand => [.word opcode.toWord, .word operand]
  | .jump opcode label => [.word opcode.toWord, .reference label]
  | .push w => [.word Opcode.push.toWord, .word w]
  | .call label => [.word Opcode.call.toWord, .reference label]
  | .enterTry handler => [.word Opcode.enterTry.toWord, .reference handler]
  | .word w => [.word w]

/-- The slots that requests append, in order. -/
def slots (requests : List Request) : List Slot := requests.flatMap Request.slots

/-- The number of labels that a request makes. -/
def Request.makes : Request → Nat
  | .newLabel | .here => 1
  | _ => 0

/-- The label that a request binds when some labels have been made. -/
def Request.binds? (made : Nat) : Request → Option Label
  | .here => some ⟨made⟩
  | .bind label => some label
  | _ => none

/-- The labels that requests bind, each with the offset that has been reached, in order. -/
def bindings (made offset : Nat) : List Request → List (Label × Nat)
  | [] => []
  | r :: rs =>
      (r.binds? made).toList.map (·, offset) ++
        bindings (made + r.makes) (offset + r.slots.length) rs

/-- No label is bound before it is made. -/
def BindsMade (made : Nat) : List Request → Prop
  | [] => True
  | r :: rs => (∀ label ∈ r.binds? made, label.id < made + r.makes) ∧ BindsMade (made + r.makes) rs

instance decidableBindsMade (made : Nat) :
    (requests : List Request) → Decidable (BindsMade made requests)
  | [] => inferInstanceAs (Decidable True)
  | r :: rs =>
    have := decidableBindsMade (made + r.makes) rs
    inferInstanceAs (Decidable ((∀ label ∈ r.binds? made, _) ∧ BindsMade (made + r.makes) rs))

/-- The last binding of the label is to the offset. -/
def LastBound (bs : List (Label × Nat)) (label : Label) (offset : Nat) : Prop :=
  ∃ before after, bs = before ++ (label, offset) :: after ∧ label ∉ after.map Prod.fst

/-- The word belongs into the slot: it is the word of the slot, or the offset to which the label of
the slot is bound last. -/
def Slot.Filled (bs : List (Label × Nat)) : Slot → Word → Prop
  | .word w', w => w = w'
  | .reference label, w => ∃ offset, LastBound bs label offset ∧ w.toInt = offset

/-- The first slot with a reference to a label that is never bound refers to this label. -/
def FirstOpen (bs : List (Label × Nat)) (ss : List Slot) (label : Label) : Prop :=
  ∃ before after, ss = before ++ .reference label :: after ∧ label ∉ bs.map Prod.fst ∧
    ∀ label', .reference label' ∈ before → label' ∈ bs.map Prod.fst

/-! ## Bindings -/

theorem lastBound_concat {bs : List (Label × Nat)} {label label' : Label} {offset offset' : Nat} :
    LastBound (bs ++ [(label, offset)]) label' offset' ↔
      if label' = label then offset = offset' else LastBound bs label' offset' := by
  constructor
  · rintro ⟨before, after, hsplit, hlast⟩
    rcases List.eq_nil_or_concat after with rfl | ⟨after, last, rfl⟩
    · obtain ⟨rfl, heq⟩ := List.append_inj' hsplit rfl
      cases heq
      rw [if_pos rfl]
    · rw [List.concat_eq_append] at hsplit hlast
      rw [← List.cons_append, ← List.append_assoc] at hsplit
      obtain ⟨rfl, heq⟩ := List.append_inj' hsplit rfl
      cases heq
      rw [List.map_append, List.mem_append, not_or] at hlast
      rw [if_neg (by simpa using hlast.2)]
      exact ⟨before, after, rfl, hlast.1⟩
  · by_cases heq : label' = label
    · rw [if_pos heq, heq]
      rintro rfl
      exact ⟨bs, [], rfl, by simp⟩
    · rw [if_neg heq]
      rintro ⟨before, after, rfl, hlast⟩
      exact ⟨before, after ++ [(label, offset)], by simp, by simp [hlast, heq]⟩

/-- A label is bound if it has a last binding. -/
theorem exists_lastBound_iff {bs : List (Label × Nat)} {label : Label} :
    (∃ offset, LastBound bs label offset) ↔ label ∈ bs.map Prod.fst := by
  induction bs using List.reverseRecOn with
  | nil => simp [LastBound]
  | append_singleton bs b ih =>
      obtain ⟨label', offset'⟩ := b
      simp only [lastBound_concat, List.map_append, List.mem_append, List.map_singleton,
        List.mem_singleton]
      by_cases heq : label = label'
      · simp [heq]
      · simp [heq, ih]

/-- No label is bound behind the end of the slots. -/
theorem le_of_mem_bindings {made offset : Nat} {requests : List Request} {b : Label × Nat}
    (h : b ∈ bindings made offset requests) : b.2 ≤ offset + (slots requests).length := by
  induction requests generalizing made offset with
  | nil => cases h
  | cons r rs ih =>
      have hlength : (slots (r :: rs)).length = r.slots.length + (slots rs).length := by
        simp [slots]
      rcases List.mem_append.mp h with hfirst | hrest
      · obtain ⟨label, -, rfl⟩ := List.mem_map.mp hfirst
        exact Nat.le_add_right _ _
      · have hle := ih hrest
        omega

theorem LastBound.mem {bs : List (Label × Nat)} {label : Label} {offset : Nat}
    (h : LastBound bs label offset) : (label, offset) ∈ bs := by
  obtain ⟨before, after, rfl, -⟩ := h
  simp

/-! ## What a draft records -/

/-- What the slot holds until the draft is finished. -/
def Slot.initial : Slot → Word
  | .word w => w
  | .reference _ => 0

/-- The references among slots that begin at an offset. -/
def openSlots (offset : Nat) : List Slot → List (Nat × Label)
  | [] => []
  | .word _ :: ss => openSlots (offset + 1) ss
  | .reference label :: ss => (offset, label) :: openSlots (offset + 1) ss

theorem openSlots_append (offset : Nat) (ss ss' : List Slot) :
    openSlots offset (ss ++ ss') = openSlots offset ss ++ openSlots (offset + ss.length) ss' := by
  induction ss generalizing offset with
  | nil => rfl
  | cons s ss ih =>
      have hoffset : offset + (s :: ss).length = offset + 1 + ss.length := by
        rw [List.length_cons]
        omega
      cases s <;> simp only [List.cons_append, openSlots, ih, hoffset]

/-- The draft has made some labels and holds the slots and the bindings. -/
structure Records (d : Draft) (made : Nat) (ss : List Slot) (bs : List (Label × Nat)) : Prop where
  made : d.labels.size = made
  words : d.words = (ss.map Slot.initial).toArray
  references : d.references.toList = openSlots 0 ss
  targets : ∀ label offset, d.target? label = some offset ↔ LastBound bs label offset

namespace Records

variable {d d' : Draft} {made : Nat} {ss : List Slot} {bs : List (Label × Nat)}

theorem empty : Records {} 0 [] [] where
  made := rfl
  words := rfl
  references := rfl
  targets label offset := by simp [target?, LastBound]

theorem offset_eq (h : d.Records made ss bs) : d.offset = ss.length := by
  simp [offset, h.words]

theorem target?_eq_none (h : d.Records made ss bs) {label : Label} :
    d.target? label = none ↔ label ∉ bs.map Prod.fst := by
  simp only [Option.eq_none_iff_forall_not_mem, Option.mem_def, h.targets,
    ← exists_lastBound_iff, not_exists]

theorem newLabel (h : d.Records made ss bs) : d.newLabel.2.Records (made + 1) ss bs where
  made := by simp [Draft.newLabel, h.made]
  words := h.words
  references := h.references
  targets label offset := by rw [target?_newLabel, h.targets]

theorem bind (h : d.Records made ss bs) {label : Label} (hknown : label.id < made) :
    (d.bind label).Records made ss (bs ++ [(label, ss.length)]) where
  made := by simp [Draft.bind, h.made]
  words := h.words
  references := h.references
  targets label' offset := by
    rw [← h.made] at hknown
    rw [target?_bind d hknown, lastBound_concat, ← h.offset_eq]
    by_cases heq : label' = label
    · rw [if_pos heq, if_pos heq, Option.some_inj]
    · rw [if_neg heq, if_neg heq]
      exact h.targets label' offset

/-- A request that appends slots notes the references among them. -/
theorem append (h : d.Records made ss bs) {new : List Slot}
    (hwords : d'.words.toList = d.words.toList ++ new.map Slot.initial)
    (hreferences : d'.references.toList = d.references.toList ++ openSlots d.offset new)
    (hlabels : d'.labels = d.labels) : d'.Records made (ss ++ new) bs where
  made := by rw [hlabels, h.made]
  words := by
    apply Array.toList_inj.mp
    rw [hwords, h.words, List.map_append]
  references := by rw [hreferences, h.references, openSlots_append, h.offset_eq, Nat.zero_add]
  targets label offset := by
    rw [target?, hlabels]
    exact h.targets label offset

theorem jump (h : d.Records made ss bs) (opcode : Opcode) (label : Label) :
    (d.jump opcode label).Records made (ss ++ [.word opcode.toWord, .reference label]) bs :=
  h.append (by simp [Draft.jump, Draft.word, Slot.initial])
    (by simp [Draft.jump, Draft.word, openSlots, offset]) rfl

theorem opWith (h : d.Records made ss bs) (opcode : Opcode) (w : Word) :
    (d.opWith opcode w).Records made (ss ++ [.word opcode.toWord, .word w]) bs :=
  h.append (by simp [Draft.opWith, Draft.word, Slot.initial])
    (by simp [Draft.opWith, Draft.word, openSlots]) rfl

theorem word (h : d.Records made ss bs) (w : Word) : (d.word w).Records made (ss ++ [.word w]) bs :=
  h.append (by simp [Draft.word, Slot.initial]) (by simp [Draft.word, openSlots]) rfl

/-- **A draft records the slots and the binding of each request.** -/
theorem apply (h : d.Records made ss bs) {r : Request}
    (hbinds : ∀ label ∈ r.binds? made, label.id < made + r.makes) :
    (d.apply r).Records (made + r.makes) (ss ++ r.slots)
      (bs ++ (r.binds? made).toList.map (·, ss.length)) := by
  -- what is left to show when the request makes and binds no label
  have hplain : r.makes = 0 → r.binds? made = none → (d.apply r).Records made (ss ++ r.slots) bs →
      (d.apply r).Records (made + r.makes) (ss ++ r.slots)
        (bs ++ (r.binds? made).toList.map (·, ss.length)) := by
    intro hmakes hnone hrecords
    rw [hmakes, hnone]
    simpa using hrecords
  cases r with
  | newLabel =>
      simpa [Request.slots, Request.binds?, Request.makes, Draft.apply] using h.newLabel
  | here =>
      have hlabel : d.newLabel.1 = ⟨made⟩ := by simp [Draft.newLabel, h.made]
      have hknown : (⟨made⟩ : Label).id < made + 1 := Nat.lt_succ_self made
      have hbound := h.newLabel.bind hknown
      simpa [Request.slots, Request.binds?, Request.makes, Draft.apply, Draft.here, hlabel]
        using hbound
  | bind label =>
      have hknown : label.id < made := hbinds label rfl
      simpa [Request.slots, Request.binds?, Request.makes, Draft.apply] using h.bind hknown
  | op opcode => exact hplain rfl rfl (h.word opcode.toWord)
  | opWith opcode w => exact hplain rfl rfl (h.opWith opcode w)
  | jump opcode label => exact hplain rfl rfl (h.jump opcode label)
  | push w => exact hplain rfl rfl (h.opWith .push w)
  | call label => exact hplain rfl rfl (h.jump .call label)
  | enterTry handler => exact hplain rfl rfl (h.jump .enterTry handler)
  | word w => exact hplain rfl rfl (h.word w)

/-- **So it records those of requests in order.** -/
theorem build (h : d.Records made ss bs) {requests : List Request}
    (hbinds : BindsMade made requests) :
    ∃ made', (d.build requests).Records made' (ss ++ slots requests)
      (bs ++ bindings made ss.length requests) := by
  induction requests generalizing d made ss bs with
  | nil => exact ⟨made, by simpa [slots, bindings, Draft.build] using h⟩
  | cons r rs ih =>
      obtain ⟨made', hrest⟩ := ih (h.apply hbinds.1) hbinds.2
      refine ⟨made', ?_⟩
      rw [List.length_append, List.append_assoc, List.append_assoc] at hrest
      exact hrest

end Records

/-! ## Filling slots -/

/-- The word for a slot, if its label is bound. -/
def Slot.fill (d : Draft) : Slot → Except Error Word
  | .word w => .ok w
  | .reference label =>
      match d.target? label with
      | none => .error (.unboundLabel label)
      | some target => .ok (Word.ofIndex target)

theorem fill_unbound {d : Draft} {label : Label} (h : d.target? label = none) :
    (Slot.reference label).fill d = .error (.unboundLabel label) := by
  rw [Slot.fill, h]

theorem fill_bound {d : Draft} {label : Label} {target : Nat} (h : d.target? label = some target) :
    (Slot.reference label).fill d = .ok (Word.ofIndex target) := by
  rw [Slot.fill, h]

/-- Once the word of the first slot is known, the others are filled behind it. -/
theorem fill_cons {d : Draft} {s : Slot} {w : Word} (hw : s.fill d = .ok w) (done : List Word)
    (ss : List Slot) :
    ((s :: ss).mapM (Slot.fill d)).map (fun ws => (done ++ ws).toArray) =
      (ss.mapM (Slot.fill d)).map fun ws => (done ++ [w] ++ ws).toArray := by
  rw [List.mapM_cons, hw]
  cases ss.mapM (Slot.fill d) with
  | error e => rfl
  | ok ws =>
      show Except.ok (done ++ w :: ws).toArray = .ok (done ++ [w] ++ ws).toArray
      rw [List.append_cons]

/-- Filling the noted references one after another is filling the slots in order. The slots are
those behind the words that are done. -/
theorem foldlM_openSlots (d : Draft) (done : List Word) (ss : List Slot) :
    (openSlots done.length ss).foldlM d.patch (done ++ ss.map Slot.initial).toArray =
      (ss.mapM (Slot.fill d)).map fun ws => (done ++ ws).toArray := by
  induction ss generalizing done with
  | nil => rfl
  | cons s ss ih =>
      have hdone : ∀ w : Word, done.length + 1 = (done ++ [w]).length := by simp
      rw [List.map_cons, List.append_cons]
      cases s with
      | word w =>
          rw [openSlots, fill_cons rfl, hdone w]
          exact ih (done ++ [w])
      | reference label =>
          rw [openSlots, List.foldlM_cons, patch]
          cases htarget : d.target? label with
          | none =>
              rw [List.mapM_cons, fill_unbound htarget]
              rfl
          | some target =>
              have hpatched : (done ++ [(0 : Word)] ++ ss.map Slot.initial).toArray.setIfInBounds
                  done.length (Word.ofIndex target) =
                    (done ++ [Word.ofIndex target] ++ ss.map Slot.initial).toArray := by
                simp
              rw [fill_cons (fill_bound htarget), hdone (Word.ofIndex target)]
              show (openSlots (done ++ [Word.ofIndex target]).length ss).foldlM d.patch
                ((done ++ [(0 : Word)] ++ ss.map Slot.initial).toArray.setIfInBounds
                  done.length (Word.ofIndex target)) = _
              rw [hpatched]
              exact ih (done ++ [Word.ofIndex target])

namespace Records

variable {d : Draft} {made : Nat} {ss : List Slot} {bs : List (Label × Nat)}

/-- **A draft is finished by filling its slots in order.** -/
theorem finish (h : d.Records made ss bs) (hsize : d.offset < Word.positions) :
    d.finish = (ss.mapM (Slot.fill d)).map List.toArray := by
  change d.words.size < Word.positions at hsize
  rw [Draft.finish, if_pos hsize, ← Array.foldlM_toList, h.references, h.words]
  exact foldlM_openSlots d [] ss

/-- A slot that is filled has got what belongs into it. -/
theorem filled (h : d.Records made ss bs) (hoffsets : ∀ b ∈ bs, b.2 < Word.positions) {s : Slot}
    {w : Word} (hw : s.fill d = .ok w) : s.Filled bs w := by
  cases s with
  | word w' =>
      cases hw
      rfl
  | reference label =>
      cases htarget : d.target? label with
      | none => cases (fill_unbound htarget).symm.trans hw
      | some target =>
          cases (fill_bound htarget).symm.trans hw
          have hlast := (h.targets label target).mp htarget
          exact ⟨target, hlast, Word.toInt_ofIndex (hoffsets _ hlast.mem)⟩

/-- Filling a slot fails only at a label that is never bound. -/
theorem fill_eq_error (h : d.Records made ss bs) {s : Slot} {e : Error} :
    s.fill d = .error e ↔
      ∃ label, s = .reference label ∧ e = .unboundLabel label ∧ label ∉ bs.map Prod.fst := by
  constructor
  · intro hfill
    cases s with
    | word w => cases hfill
    | reference label =>
        cases htarget : d.target? label with
        | none =>
            cases (fill_unbound htarget).symm.trans hfill
            exact ⟨label, rfl, rfl, h.target?_eq_none.mp htarget⟩
        | some target => cases (fill_bound htarget).symm.trans hfill
  · rintro ⟨label, rfl, rfl, hunbound⟩
    exact fill_unbound (h.target?_eq_none.mpr hunbound)

/-- **Finishing fails at the first reference to a label that is never bound.** -/
theorem finish_eq_unbound (h : d.Records made ss bs) (hsize : d.offset < Word.positions)
    (label : Label) : d.finish = .error (.unboundLabel label) ↔ FirstOpen bs ss label := by
  rw [h.finish hsize]
  constructor
  · intro hfinish
    cases hwords : ss.mapM (Slot.fill d) with
    | ok ws =>
        rw [hwords] at hfinish
        cases hfinish
    | error e =>
        rw [hwords] at hfinish
        cases hfinish
        obtain ⟨before, s, after, hsplit, hbefore, hs⟩ := mapM_eq_error hwords
        obtain ⟨label', rfl, heq, hunbound⟩ := h.fill_eq_error.mp hs
        cases heq
        refine ⟨before, after, hsplit, hunbound, fun label' hmem => ?_⟩
        obtain ⟨w, hw⟩ := hbefore _ hmem
        by_contra hopen
        rw [h.fill_eq_error.mpr ⟨label', rfl, rfl, hopen⟩] at hw
        cases hw
  · rintro ⟨before, after, rfl, hunbound, hbefore⟩
    have hfilled : ∀ s ∈ before, ∃ w, s.fill d = .ok w := by
      intro s hs
      cases hfill : s.fill d with
      | ok w => exact ⟨w, rfl⟩
      | error e =>
          obtain ⟨label', rfl, -, hopen⟩ := h.fill_eq_error.mp hfill
          exact absurd (hbefore label' hs) hopen
    rw [mapM_of_error hfilled (h.fill_eq_error.mpr ⟨label, rfl, rfl, hunbound⟩) after]
    rfl

/-- **If all labels that are referred to are bound, finishing gives a program.** -/
theorem finish_eq_ok (h : d.Records made ss bs) (hsize : d.offset < Word.positions)
    (hoffsets : ∀ b ∈ bs, b.2 < Word.positions)
    (hbound : ∀ label, .reference label ∈ ss → label ∈ bs.map Prod.fst) :
    ∃ code : Program, d.finish = .ok code ∧ code.size = d.offset ∧
      List.Forall₂ (Slot.Filled bs) ss code.toList := by
  rw [h.finish hsize]
  cases hwords : ss.mapM (Slot.fill d) with
  | error e =>
      obtain ⟨before, s, after, rfl, -, hs⟩ := mapM_eq_error hwords
      obtain ⟨label, rfl, -, hunbound⟩ := h.fill_eq_error.mp hs
      exact absurd (hbound label (by simp)) hunbound
  | ok ws =>
      have hfilled := (mapM_eq_ok hwords).imp fun _ _ hw => h.filled hoffsets hw
      refine ⟨ws.toArray, rfl, ?_, hfilled⟩
      rw [h.offset_eq, hfilled.length_eq]
      rfl

end Records

/-- Among references to labels that are never bound there is a first one. -/
theorem exists_firstOpen {bs : List (Label × Nat)} {ss : List Slot} {label : Label}
    (hmem : .reference label ∈ ss) (hunbound : label ∉ bs.map Prod.fst) :
    ∃ first, FirstOpen bs ss first := by
  rcases forall_or_exists_first (fun s => ∀ label, s = .reference label → label ∈ bs.map Prod.fst)
    ss with hall | ⟨before, s, after, rfl, hbefore, hs⟩
  · exact absurd (hall _ hmem label rfl) hunbound
  · push Not at hs
    obtain ⟨first, rfl, hopen⟩ := hs
    exact ⟨first, before, after, rfl, hopen, fun label' hmem' => hbefore _ hmem' label' rfl⟩

/-- **A draft fills exactly the references to labels.** Finishing fails if a reference names a label
that is never bound, and reports the first such label. Otherwise it gives a program as long as the
draft, in which each reference has become the offset to which its label was bound last, and every
other word is as it was appended. -/
theorem finish_fills_references {requests : List Request} (hbinds : BindsMade 0 requests)
    (hsize : (build {} requests).offset < Word.positions) :
    ((∃ label, (build {} requests).finish = .error (.unboundLabel label)) ↔
      ∃ label, .reference label ∈ slots requests ∧
        label ∉ (bindings 0 0 requests).map Prod.fst) ∧
    (∀ label, (build {} requests).finish = .error (.unboundLabel label) ↔
      FirstOpen (bindings 0 0 requests) (slots requests) label) ∧
    ((∀ label, .reference label ∈ slots requests →
        label ∈ (bindings 0 0 requests).map Prod.fst) →
      ∃ code : Program, (build {} requests).finish = .ok code ∧
        code.size = (build {} requests).offset ∧
        List.Forall₂ (Slot.Filled (bindings 0 0 requests)) (slots requests) code.toList) := by
  obtain ⟨made, h⟩ := Records.empty.build hbinds
  rw [List.nil_append, List.nil_append] at h
  have hoffsets : ∀ b ∈ bindings 0 0 requests, b.2 < Word.positions := by
    intro b hb
    have hle := le_of_mem_bindings hb
    rw [h.offset_eq] at hsize
    omega
  refine ⟨⟨?_, ?_⟩, h.finish_eq_unbound hsize, h.finish_eq_ok hsize hoffsets⟩
  · rintro ⟨label, hfinish⟩
    obtain ⟨before, after, hslots, hunbound, -⟩ := (h.finish_eq_unbound hsize label).mp hfinish
    exact ⟨label, by simp [hslots], hunbound⟩
  · rintro ⟨label, hmem, hunbound⟩
    obtain ⟨first, hfirst⟩ := exists_firstOpen hmem hunbound
    exact ⟨first, (h.finish_eq_unbound hsize first).mpr hfirst⟩

/-- A label that is bound on both sides of its use, one that is bound behind its use, and a bare
word; and three references, of which the second is the first to a label that is never bound. -/
theorem finish_fills_references_rebound :
    ∃ rebound broken : List Request,
      BindsMade 0 rebound ∧ bindings 0 0 rebound = [(⟨0⟩, 0), (⟨0⟩, 4), (⟨1⟩, 7)] ∧
      slots rebound =
        [.word 1, .word 1, .word 6, .reference ⟨0⟩, .word 99, .word 12, .reference ⟨1⟩, .word 0] ∧
      (build {} rebound).finish = .ok #[1, 1, 6, 4, 99, 12, 7, 0] ∧
      List.Forall₂ (Slot.Filled (bindings 0 0 rebound)) (slots rebound) [1, 1, 6, 4, 99, 12, 7, 0] ∧
      BindsMade 0 broken ∧ FirstOpen (bindings 0 0 broken) (slots broken) ⟨3⟩ := by
  let rebound : List Request :=
    [.here, .push 1, .jump .jmp ⟨0⟩, .bind ⟨0⟩, .word 99, .newLabel, .call ⟨1⟩, .bind ⟨1⟩,
      .op .halt]
  let broken : List Request :=
    [.newLabel, .newLabel, .here, .newLabel, .bind ⟨0⟩, .call ⟨0⟩, .jump .jmp ⟨3⟩, .enterTry ⟨1⟩]
  have hrebound : BindsMade 0 rebound := by decide
  have hbroken : BindsMade 0 broken := by decide
  have hfinished : (build {} rebound).finish = .ok #[1, 1, 6, 4, 99, 12, 7, 0] := by decide +kernel
  have hunbound : (build {} broken).finish = .error (.unboundLabel ⟨3⟩) := by decide +kernel
  obtain ⟨-, -, hprogram⟩ := finish_fills_references hrebound (by decide)
  obtain ⟨-, hfirst, -⟩ := finish_fills_references hbroken (by decide)
  obtain ⟨code, hcode, -, hfilled⟩ := hprogram fun label hmem => by
    have hlabel : label = ⟨0⟩ ∨ label = ⟨1⟩ := by simpa [rebound, slots, Request.slots] using hmem
    rcases hlabel with rfl | rfl <;> decide
  cases hfinished.symm.trans hcode
  exact ⟨rebound, broken, hrebound, by decide, by decide, hfinished, hfilled, hbroken,
    (hfirst ⟨3⟩).mp hunbound⟩

end StackMachine.Draft
