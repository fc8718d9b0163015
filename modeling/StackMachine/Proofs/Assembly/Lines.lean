import StackMachine.Assembly.Line

set_option autoImplicit false

/-! # How lines are read

A line that holds an identifier and a colon defines a label (`parse?_label`); one that holds an
identifier, perhaps followed by a space and a token, has an instruction (`parse?_mnemonic`,
`parse?_operand`). Identifiers and tokens are told apart by their characters alone: no part of an
identifier is blank, a colon or a semicolon, and no character of a token is blank or a semicolon.
-/

namespace StackMachine.Assembly

open StackMachine.Text

/-! ## Characters -/

theorem toNat_of_isBlank {c : Char} (h : isBlank c = true) : c.toNat ≤ 32 ∨ 133 ≤ c.toNat := by
  obtain ⟨r, hr, hlow, hhigh⟩ := inRanges_eq_true_iff.mp h
  simp only [blankRanges, List.mem_cons, List.not_mem_nil, or_false] at hr
  rcases hr with rfl | rfl | rfl | rfl | rfl | rfl | rfl | rfl | rfl | rfl <;>
    simp only at hlow hhigh <;> omega

theorem isUpper_iff {c : Char} : c.isUpper = true ↔ 65 ≤ c.toNat ∧ c.toNat ≤ 90 := by
  show decide ('A'.val ≤ c.val ∧ c.val ≤ 'Z'.val) = true ↔ _
  rw [decide_eq_true_eq, UInt32.le_iff_toNat_le, UInt32.le_iff_toNat_le]
  rfl

theorem isLower_iff {c : Char} : c.isLower = true ↔ 97 ≤ c.toNat ∧ c.toNat ≤ 122 := by
  show (decide ('a'.val ≤ c.val) && decide (c.val ≤ 'z'.val)) = true ↔ _
  rw [Bool.and_eq_true, decide_eq_true_eq, decide_eq_true_eq, UInt32.le_iff_toNat_le,
    UInt32.le_iff_toNat_le]
  rfl

theorem isAlpha_iff {c : Char} :
    c.isAlpha = true ↔
      (65 ≤ c.toNat ∧ c.toNat ≤ 90) ∨ (97 ≤ c.toNat ∧ c.toNat ≤ 122) := by
  rw [← isUpper_iff, ← isLower_iff]
  exact Bool.or_eq_true_iff

theorem toNat_of_isIdentifierPart {c : Char} (h : isIdentifierPart c = true) :
    48 ≤ c.toNat ∧ c.toNat ≤ 57 ∨ 65 ≤ c.toNat ∧ c.toNat ≤ 122 := by
  simp only [isIdentifierPart, Char.isAlphanum, isAlpha_iff, Char.isDigit, Bool.or_eq_true,
    Bool.and_eq_true, decide_eq_true_eq, UInt32.le_iff_toNat_le, ge_iff_le, beq_iff_eq] at h
  rcases h with ((⟨hlow, hhigh⟩ | ⟨hlow, hhigh⟩) | ⟨hlow, hhigh⟩) | rfl
  · omega
  · omega
  · simp at hlow hhigh; omega
  · decide

theorem isIdentifierPart_of_start {c : Char} (h : isIdentifierStart c = true) :
    isIdentifierPart c = true := by
  simp only [isIdentifierStart, isIdentifierPart, Char.isAlphanum, Bool.or_eq_true] at h ⊢
  rcases h with h | h
  · exact Or.inl (Or.inl h)
  · exact Or.inr h

theorem toNat_of_isIdentifierStart {c : Char} (h : isIdentifierStart c = true) :
    65 ≤ c.toNat := by
  simp only [isIdentifierStart, isAlpha_iff, Bool.or_eq_true, beq_iff_eq] at h
  rcases h with (⟨hlow, hhigh⟩ | ⟨hlow, hhigh⟩) | rfl
  · exact hlow
  · omega
  · decide

theorem toNat_of_isDigit {c : Char} (h : c.isDigit = true) : 48 ≤ c.toNat ∧ c.toNat ≤ 57 := by
  simp only [Char.isDigit, Bool.and_eq_true, decide_eq_true_eq, UInt32.le_iff_toNat_le,
    ge_iff_le] at h
  simpa using h

theorem isIdentifierPart_of_isDigit {c : Char} (h : c.isDigit = true) :
    isIdentifierPart c = true := by
  simp [isIdentifierPart, Char.isAlphanum, h]

/-- Whether a character can stand anywhere in an operand: it neither ends the operand nor
starts a comment. -/
def isPlain (c : Char) : Bool := !isBlank c && c != ';'

theorem isPlain_of_isIdentifierPart {c : Char} (h : isIdentifierPart c = true) :
    isPlain c = true := by
  have hrange := toNat_of_isIdentifierPart h
  have hblank : isBlank c = false := by
    rw [Bool.eq_false_iff]
    intro hb
    have := toNat_of_isBlank hb
    omega
  have hne : c ≠ ';' := by
    rintro rfl
    revert hrange
    decide
  simp [isPlain, hblank, hne]

theorem isPlain_iff {c : Char} : isPlain c = true ↔ isBlank c = false ∧ c ≠ ';' := by
  simp [isPlain]

/-! ## Identifiers -/

/-- Whether a text is an identifier. -/
def isIdentifier : List Char → Bool
  | [] => false
  | c :: cs => isIdentifierStart c && cs.all isIdentifierPart

theorem isIdentifier_cons {c : Char} {cs : List Char} :
    isIdentifier (c :: cs) = true ↔
      isIdentifierStart c = true ∧ ∀ d ∈ cs, isIdentifierPart d = true := by
  simp [isIdentifier]

theorem isPlain_of_mem_identifier {name : List Char} (h : isIdentifier name = true) {c : Char}
    (hc : c ∈ name) : isPlain c = true := by
  cases name with
  | nil => cases hc
  | cons d ds =>
      obtain ⟨hstart, hparts⟩ := isIdentifier_cons.mp h
      rcases List.mem_cons.mp hc with rfl | hc
      · exact isPlain_of_isIdentifierPart (isIdentifierPart_of_start hstart)
      · exact isPlain_of_isIdentifierPart (hparts c hc)

/-- An identifier is read up to the first character that cannot continue it. -/
theorem identifier?_append {name rest : List Char} (h : isIdentifier name = true)
    (hrest : ∀ c ∈ rest.head?, isIdentifierPart c = false) :
    identifier? (name ++ rest) = some (String.ofList name, rest) := by
  cases name with
  | nil => cases h
  | cons c cs =>
      obtain ⟨hstart, hparts⟩ := isIdentifier_cons.mp h
      have hstop : rest.takeWhile isIdentifierPart = [] ∧
          rest.dropWhile isIdentifierPart = rest := by
        cases rest with
        | nil => exact ⟨rfl, rfl⟩
        | cons d ds => simp [hrest d rfl]
      rw [List.cons_append, identifier?, if_pos hstart, List.takeWhile_append_of_pos hparts,
        List.dropWhile_append_of_pos hparts, hstop.1, hstop.2, List.append_nil]

/-- Blanks before a text are skipped, so a text that begins with none is left as it is. -/
theorem dropWhile_isBlank {cs : List Char} (h : ∀ c ∈ cs.head?, isBlank c = false) :
    cs.dropWhile isBlank = cs := by
  cases cs with
  | nil => rfl
  | cons c cs => simp [h c rfl]

theorem dropWhile_isBlank_identifier {name : List Char} (h : isIdentifier name = true)
    (rest : List Char) : (name ++ rest).dropWhile isBlank = name ++ rest := by
  refine dropWhile_isBlank fun c hc => ?_
  cases name with
  | nil => cases h
  | cons d ds =>
      obtain rfl : d = c := by simpa using hc
      exact (isPlain_iff.mp (isPlain_of_mem_identifier h List.mem_cons_self)).1

/-! ## Lines -/

/-- **A label with a colon is read as the definition of the label.** -/
theorem parse?_label {name : String} (h : isIdentifier name.toList = true) :
    Line.parse? (name.toList ++ [':']) = some ⟨some name, none⟩ := by
  have hname : identifier? (name.toList ++ [':']) = some (name, [':']) := by
    have hcolon : ∀ c ∈ [':'].head?, isIdentifierPart c = false := by
      intro c hc
      obtain rfl : ':' = c := by simpa using hc
      decide
    rw [identifier?_append h hcolon, String.ofList_toList]
  have hblank : isBlank ':' = false := by decide
  simp [Line.parse?, labelled?, dropWhile_isBlank_identifier h, hname, hblank, body?]

/-- The operand of an instruction as it is written. -/
structure IsToken (token : List Char) : Prop where
  nonempty : token ≠ []
  plain : ∀ c ∈ token, isPlain c = true
  head : token.head? ≠ some ':'

theorem IsToken.head_not_blank {token : List Char} (h : IsToken token) :
    ∀ c ∈ token.head?, isBlank c = false := by
  intro c hc
  exact (isPlain_iff.mp (h.plain c (List.mem_of_mem_head? hc))).1

/-- A run of characters without a blank is one token. -/
theorem token?_of_isToken {token : List Char} (h : IsToken token) :
    token? (' ' :: token) = some (some (String.ofList token)) := by
  have hspace : isBlank ' ' = true := by decide
  have hstart : (' ' :: token).dropWhile isBlank = token := by
    rw [List.dropWhile_cons_of_pos hspace, dropWhile_isBlank h.head_not_blank]
  cases token with
  | nil => exact absurd rfl h.nonempty
  | cons c cs =>
      have hall : ∀ d ∈ cs, (!isBlank d) = true := by
        intro d hd
        simp [(isPlain_iff.mp (h.plain d (List.mem_cons_of_mem _ hd))).1]
      have htake : (cs ++ []).takeWhile (!isBlank ·) = cs ++ [] :=
        List.takeWhile_append_of_pos hall
      have hdrop : (cs ++ []).dropWhile (!isBlank ·) = [] := List.dropWhile_append_of_pos hall
      rw [List.append_nil] at htake hdrop
      rw [token?, hstart]
      simp [htake, hdrop]

/-- A text that starts with an identifier and goes on without a colon defines no label. -/
theorem labelled?_eq_none {name rest : List Char} (h : isIdentifier name = true)
    (hrest : ∀ c ∈ rest.head?, isIdentifierPart c = false)
    (hcolon : (rest.dropWhile isBlank).head? ≠ some ':') : labelled? (name ++ rest) = none := by
  rw [labelled?, dropWhile_isBlank_identifier h, identifier?_append h hrest, Option.bind_some]
  dsimp only
  split
  · next hmatch => exact absurd (by rw [hmatch]; rfl) hcolon
  · rfl

/-- The instruction part of a line is an identifier, alone or with a token behind a blank. -/
theorem body?_identifier {name rest : List Char} (h : isIdentifier name = true)
    (hrest : ∀ c ∈ rest.head?, isIdentifierPart c = false ∧ isBlank c = true) :
    body? (name ++ rest) =
      if rest = [] then some (some ⟨String.ofList name, none⟩)
      else (token? rest).map fun operand => some ⟨String.ofList name, operand⟩ := by
  have hread := identifier?_append h fun c hc => (hrest c hc).1
  have hne : name ++ rest ≠ [] := by
    cases name with
    | nil => cases h
    | cons c cs => simp
  rw [body?, dropWhile_isBlank_identifier h]
  obtain ⟨c, cs, hcons⟩ := List.exists_cons_of_ne_nil hne
  rw [hcons] at hread ⊢
  simp only [hread, Option.bind_some]
  cases rest with
  | nil => rfl
  | cons d ds => simp [(hrest d rfl).2]

/-- **A mnemonic alone is read as an instruction without an operand.** -/
theorem parse?_mnemonic {name : String} (h : isIdentifier name.toList = true) :
    Line.parse? name.toList = some ⟨none, some ⟨name, none⟩⟩ := by
  have hlabel : labelled? (name.toList ++ []) = none := labelled?_eq_none h (by simp) (by simp)
  have hbody : body? (name.toList ++ []) = some (some ⟨name, none⟩) := by
    rw [body?_identifier h (by simp), if_pos rfl, String.ofList_toList]
  rw [List.append_nil] at hlabel hbody
  rw [Line.parse?, hlabel, hbody]
  rfl

/-- **A mnemonic, a space and a token are read as an instruction with its operand.** -/
theorem parse?_operand {name token : String} (h : isIdentifier name.toList = true)
    (htoken : IsToken token.toList) :
    Line.parse? (name.toList ++ ' ' :: token.toList) = some ⟨none, some ⟨name, some token⟩⟩ := by
  have hspace : isBlank ' ' = true := by decide
  have hrest : ∀ c ∈ (' ' :: token.toList).head?,
      isIdentifierPart c = false ∧ isBlank c = true := by
    intro c hc
    obtain rfl : ' ' = c := by simpa using hc
    decide
  have hlabel : labelled? (name.toList ++ ' ' :: token.toList) = none := by
    refine labelled?_eq_none h (fun c hc => (hrest c hc).1) ?_
    rw [List.dropWhile_cons_of_pos hspace, dropWhile_isBlank htoken.head_not_blank]
    exact htoken.head
  have hbody : body? (name.toList ++ ' ' :: token.toList) = some (some ⟨name, some token⟩) := by
    rw [body?_identifier h hrest]
    simp [token?_of_isToken htoken, String.ofList_toList]
  rw [Line.parse?, hlabel, hbody]
  rfl

/-! ## Texts -/

theorem splitLines_ne_nil (text : List Char) : splitLines text ≠ [] := by
  cases text with
  | nil => simp [splitLines]
  | cons c cs =>
      rw [splitLines]
      split
      · simp
      · split <;> simp

theorem splitLines_line {line : List Char} (h : '\n' ∉ line) : splitLines line = [line] := by
  induction line with
  | nil => rfl
  | cons c cs ih =>
      have hc : c ≠ '\n' := fun heq => h (heq ▸ List.mem_cons_self)
      have hcs : '\n' ∉ cs := fun hmem => h (List.mem_cons_of_mem _ hmem)
      rw [splitLines, if_neg hc, ih hcs]

/-- The lines on the two sides of a newline are found apart. -/
theorem splitLines_newline (first rest : List Char) :
    splitLines (first ++ '\n' :: rest) = splitLines first ++ splitLines rest := by
  induction first with
  | nil => simp [splitLines]
  | cons c cs ih =>
      rw [List.cons_append, splitLines, splitLines]
      by_cases hc : c = '\n'
      · rw [if_pos hc, if_pos hc, ih, List.cons_append]
      · rw [if_neg hc, if_neg hc, ih]
        obtain ⟨line, lines, hcons⟩ := List.exists_cons_of_ne_nil (splitLines_ne_nil cs)
        rw [hcons]
        rfl

theorem splitLines_append {line : List Char} (h : '\n' ∉ line) (rest : List Char) :
    splitLines (line ++ '\n' :: rest) = line :: splitLines rest := by
  rw [splitLines_newline, splitLines_line h, List.singleton_append]

/-- Lines that end with a newline are found again, with nothing behind the last. -/
theorem splitLines_flatMap {lines : List (List Char)} (h : ∀ line ∈ lines, '\n' ∉ line) :
    splitLines (lines.flatMap (· ++ ['\n'])) = lines ++ [[]] := by
  induction lines with
  | nil => rfl
  | cons line lines ih =>
      rw [List.flatMap_cons, List.append_assoc, List.singleton_append,
        splitLines_append (h line List.mem_cons_self),
        ih fun l hl => h l (List.mem_cons_of_mem _ hl), List.cons_append]

/-- The text with these lines. -/
def joinLines (lines : List (List Char)) : String := String.ofList (['\n'].intercalate lines)

/-- A line does not contain the end of a line. -/
theorem newline_not_mem_of_mem_splitLines {text line : List Char} (h : line ∈ splitLines text) :
    '\n' ∉ line := by
  induction text generalizing line with
  | nil =>
      obtain rfl : line = [] := by simpa [splitLines] using h
      exact List.not_mem_nil
  | cons c cs ih =>
      rw [splitLines] at h
      split at h
      · rcases List.mem_cons.mp h with rfl | h
        · exact List.not_mem_nil
        · exact ih h
      · next hc =>
          split at h
          · next hnil => exact absurd hnil (splitLines_ne_nil cs)
          · next first rest hcons =>
              rw [hcons] at ih
              rcases List.mem_cons.mp h with rfl | h
              · have hfirst := ih List.mem_cons_self
                simp [Ne.symm hc, hfirst]
              · exact ih (List.mem_cons_of_mem _ h)

/-- **The lines of a text are those it was joined from.** -/
theorem splitLines_joinLines {lines : List (List Char)} (hne : lines ≠ [])
    (h : ∀ line ∈ lines, '\n' ∉ line) : splitLines (joinLines lines).toList = lines := by
  rw [joinLines, String.toList_ofList]
  induction lines with
  | nil => exact absurd rfl hne
  | cons line lines ih =>
      obtain ⟨hline, hlines⟩ := List.forall_mem_cons.mp h
      by_cases hnil : lines = []
      · subst hnil
        rw [List.intercalate_singleton, splitLines_line hline]
      · rw [List.intercalate_cons_of_ne_nil hnil, List.append_assoc, List.singleton_append,
          splitLines_append hline, ih hnil hlines]

end StackMachine.Assembly
