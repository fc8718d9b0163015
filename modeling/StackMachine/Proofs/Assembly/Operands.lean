import StackMachine.Proofs.Assembly.Writing

set_option autoImplicit false

/-! # What operands stand for

An operand is a number or the name of a label. A number is a run of decimal digits, or `0x` and a
run of hexadecimal digits with at most one sign of their own, and a `-` may stand in front of all
of it; both signs count (`Denotes`). Its value has to be a word. The first character tells numbers
and names apart, so an operand is read in at most one way (`Operand.tokens_denote`).
-/

namespace StackMachine

open StackMachine.Text

/-- A word is made of the integer that is its value. -/
theorem Word.ofInt?_eq_some_iff {i : Int} {w : Word} : ofInt? i = some w ↔ i = w.toInt := by
  constructor
  · intro h
    unfold ofInt? positions at h
    split at h
    · next hrange =>
        cases h
        rw [Int32.toInt_ofInt_of_le (by omega) (by omega)]
    · cases h
  · rintro rfl
    exact ofInt?_toInt w

namespace Assembly

/-! ## Numbers -/

/-- The text is a number without a `-` in front of it, with the value `i`. -/
inductive WritesMagnitude : List Char → Int → Prop
  | decimal {text : List Char} {n : Nat} : Numeral.Writes 10 text n → WritesMagnitude text n
  | hexadecimal {x : Char} {text : List Char} {i : Int} :
      x = 'x' ∨ x = 'X' → Numeral.WritesSigned 16 text i → WritesMagnitude ('0' :: x :: text) i

/-- The integer can be written with 64 bits. -/
def FitsLong (i : Int) : Prop := -(2 ^ 63 : Int) ≤ i ∧ i < 2 ^ 63

/-- The token is a number with the value `i`. -/
inductive Denotes : List Char → Int → Prop
  | plain {text : List Char} {i : Int} :
      WritesMagnitude text i → FitsLong i → Denotes text i
  | negated {text : List Char} {i : Int} :
      WritesMagnitude text i → FitsLong i → Denotes ('-' :: text) (-i)

/-- **The reader of numbers finds exactly the numbers.** -/
theorem number?_eq_some_iff {text : List Char} {i : Int} :
    number? text = some i ↔ WritesMagnitude text i := by
  constructor
  · intro h
    unfold number? at h
    split at h
    · exact .hexadecimal (Or.inl rfl) ((Numeral.signed?_eq_some_iff (by decide)).mp h)
    · exact .hexadecimal (Or.inr rfl) ((Numeral.signed?_eq_some_iff (by decide)).mp h)
    · obtain ⟨n, hn, rfl⟩ := Option.map_eq_some_iff.mp h
      exact .decimal ((Numeral.value?_eq_some_iff (by decide)).mp hn)
  · intro h
    cases h with
    | @decimal text n hn =>
        -- no decimal digit is an `x`
        have hx : ∀ {x : Char} {cs : List Char}, x = 'x' ∨ x = 'X' → text ≠ '0' :: x :: cs := by
          rintro x cs hx rfl
          obtain ⟨-, ds, hds, -⟩ := hn
          cases hds with
          | cons _ hds =>
              cases hds with
              | cons hd _ =>
                  have hdigit := (Numeral.digit?_eq_some_iff (by decide)).mpr hd
                  rcases hx with rfl | rfl <;> cases hdigit
        have hvalue := (Numeral.value?_eq_some_iff (by decide)).mpr hn
        unfold number?
        split
        · exact absurd rfl (hx (Or.inl rfl))
        · exact absurd rfl (hx (Or.inr rfl))
        · rw [hvalue]
          rfl
    | hexadecimal hx hi =>
        have hvalue := (Numeral.signed?_eq_some_iff (by decide)).mpr hi
        rcases hx with rfl | rfl
        · exact hvalue
        · exact hvalue

/-- A number begins with a digit. -/
theorem WritesMagnitude.head {text : List Char} {i : Int} (h : WritesMagnitude text i) :
    ∃ c cs, text = c :: cs ∧ c.isDigit = true := by
  cases h with
  | @decimal text n hn =>
      obtain ⟨c, cs, rfl⟩ := List.exists_cons_of_ne_nil hn.1
      obtain ⟨d, hlt, hd⟩ := hn.isDigit_of_mem List.mem_cons_self
      have hall : ∀ e < 10, e.digitChar.isDigit = true ∧ e.digitChar.toUpper.isDigit = true := by
        decide
      refine ⟨c, cs, rfl, ?_⟩
      rcases hd with rfl | rfl
      · exact (hall d hlt).1
      · exact (hall d hlt).2
  | hexadecimal hx hi => exact ⟨'0', _, rfl, by decide⟩

/-! ## Tokens -/

namespace Operand

/-- The token begins with a letter or `_`. -/
def BeginsName (token : List Char) : Prop :=
  ∃ c cs, token = c :: cs ∧ (c.isAlpha = true ∨ c = '_')

theorem beginsName_cons {c : Char} {cs : List Char} :
    BeginsName (c :: cs) ↔ isIdentifierStart c = true := by
  simp [BeginsName, isIdentifierStart]

/-- The value of a word can be written with 64 bits, and so can its negation. -/
theorem fitsLong_toInt (v : Word) : FitsLong v.toInt ∧ FitsLong (-v.toInt) := by
  have hlow := Int32.le_toInt v
  have hhigh := Int32.toInt_lt v
  unfold FitsLong
  omega

/-- A word behind a `-`, or without one, is the value of what is read there. -/
theorem literal_eq_some_iff {text : List Char} {f : Int → Int} {v : Word} :
    ((number? text).bind fun n => (Word.ofInt? (f n)).map Operand.literal) = some (.literal v) ↔
      ∃ n, WritesMagnitude text n ∧ f n = v.toInt := by
  simp only [Option.bind_eq_some_iff, Option.map_eq_some_iff, number?_eq_some_iff,
    Word.ofInt?_eq_some_iff, Operand.literal.injEq, exists_eq_right]

theorem denotes_iff {token : List Char} {v : Word} :
    Denotes token v.toInt ↔
      WritesMagnitude token v.toInt ∨
        ∃ text n, token = '-' :: text ∧ WritesMagnitude text n ∧ -n = v.toInt := by
  constructor
  · intro h
    generalize hi : v.toInt = i at h
    cases h with
    | plain hn _ => exact Or.inl hn
    | negated hn _ => exact Or.inr ⟨_, _, rfl, hn, rfl⟩
  · rintro (hn | ⟨text, n, rfl, hn, hv⟩)
    · exact .plain hn (fitsLong_toInt v).1
    · have hfits := (fitsLong_toInt v).2
      rw [← hv, Int.neg_neg] at hfits
      rw [← hv]
      exact .negated hn hfits

/-! The first character of a token decides how it is read. -/

theorem parse?_digit {c : Char} {cs : List Char} (h : c.isDigit = true) :
    parse? (c :: cs) =
      (number? (c :: cs)).bind fun n => (Word.ofInt? n).map .literal := by
  rw [parse?, if_pos h]

/-- Behind a `-` a number is read; that it has to begin with a digit goes without saying. -/
theorem parse?_minus (cs : List Char) :
    parse? ('-' :: cs) = (number? cs).bind fun n => (Word.ofInt? (-n)).map .literal := by
  have hminus : ¬ '-'.isDigit = true := by decide
  rw [parse?, if_neg hminus, if_pos rfl]
  split
  · rfl
  · next hhead =>
      cases hnumber : number? cs with
      | none => rfl
      | some n =>
          obtain ⟨c, cs, rfl, hdigit⟩ := (number?_eq_some_iff.mp hnumber).head
          exact absurd hdigit hhead

theorem parse?_name {c : Char} {cs : List Char} (hdigit : ¬ c.isDigit = true) (hminus : c ≠ '-') :
    parse? (c :: cs) =
      if isIdentifierStart c then some (.label (String.ofList (c :: cs))) else none := by
  rw [parse?, if_neg hdigit, if_neg hminus]

/-- **A token is read as a word if it is a number with the value of the word.** -/
theorem parse?_eq_literal_iff {token : List Char} {v : Word} :
    parse? token = some (.literal v) ↔ Denotes token v.toInt := by
  rw [denotes_iff]
  cases token with
  | nil =>
      refine iff_of_false nofun ?_
      rintro (hn | ⟨text, n, heq, -, -⟩)
      · obtain ⟨c, cs, heq, -⟩ := hn.head
        cases heq
      · cases heq
  | cons c cs =>
      have hplain : ∀ {n}, WritesMagnitude (c :: cs) n → c.isDigit = true := by
        intro n hn
        obtain ⟨d, ds, heq, hd⟩ := hn.head
        cases heq
        exact hd
      by_cases hdigit : c.isDigit = true
      · have hminus : c ≠ '-' := by
          rintro rfl
          cases hdigit
        rw [parse?_digit hdigit, literal_eq_some_iff (f := fun n => n)]
        simp [hminus]
      · by_cases hminus : c = '-'
        · subst hminus
          rw [parse?_minus, literal_eq_some_iff]
          constructor
          · rintro ⟨n, hn, hv⟩
            exact Or.inr ⟨cs, n, rfl, hn, hv⟩
          · rintro (hn | ⟨text, n, heq, hn, hv⟩)
            · exact absurd (hplain hn) hdigit
            · cases heq
              exact ⟨n, hn, hv⟩
        · rw [parse?_name hdigit hminus]
          refine iff_of_false ?_ ?_
          · split <;> simp
          · rintro (hn | ⟨text, n, heq, -, -⟩)
            · exact hdigit (hplain hn)
            · exact hminus (List.cons.inj heq).1

/-- **A token is read as a label if it begins like a name.** -/
theorem parse?_eq_label_iff {token : List Char} {name : String} :
    parse? token = some (.label name) ↔ name = String.ofList token ∧ BeginsName token := by
  have hnumber : ∀ {text : List Char} {f : Int → Int},
      ((number? text).bind fun n => (Word.ofInt? (f n)).map Operand.literal) ≠
        some (.label name) := by
    intro text f h
    simp [Option.bind_eq_some_iff] at h
  cases token with
  | nil => exact iff_of_false nofun fun ⟨_, c, cs, heq, _⟩ => by cases heq
  | cons c cs =>
      rw [beginsName_cons]
      by_cases hstart : isIdentifierStart c = true
      · obtain ⟨hdigit, hminus⟩ := ne_of_isIdentifierStart hstart
        rw [parse?_name hdigit hminus, if_pos hstart]
        simp [hstart, eq_comm]
      · refine iff_of_false ?_ fun h => hstart h.2
        by_cases hdigit : c.isDigit = true
        · rw [parse?_digit hdigit]
          exact hnumber (f := fun n => n)
        · by_cases hminus : c = '-'
          · rw [hminus, parse?_minus]
            exact hnumber
          · rw [parse?_name hdigit hminus, if_neg hstart]
            simp

theorem parse?_eq_none_iff {token : List Char} :
    parse? token = none ↔ (∀ v : Word, ¬ Denotes token v.toInt) ∧ ¬ BeginsName token := by
  constructor
  · intro h
    refine ⟨fun v hv => ?_, fun hname => ?_⟩
    · rw [← parse?_eq_literal_iff, h] at hv
      cases hv
    · have hlabel := parse?_eq_label_iff.mpr ⟨rfl, hname⟩
      rw [h] at hlabel
      cases hlabel
  · rintro ⟨hnumber, hname⟩
    cases h : parse? token with
    | none => rfl
    | some operand =>
        cases operand with
        | literal v => exact absurd (parse?_eq_literal_iff.mp h) (hnumber v)
        | label name => exact absurd (parse?_eq_label_iff.mp h).2 hname

end Operand

/-! ## Statements -/

/-- An operand that cannot be read is reported with all of its text. -/
theorem Body.statement_operand {mnemonic text : String} {opcode : Opcode}
    (hop : Opcode.ofMnemonic? mnemonic = some opcode) (htakes : opcode.takesOperand = true)
    (number : Nat) :
    Body.statement ⟨mnemonic, some text⟩ number =
      (Operand.parse? text.toList).elim (.error ⟨number, .invalidOperand text⟩)
        fun operand => .ok ⟨number, opcode, some operand⟩ := by
  simp only [Body.statement, hop, htakes]
  cases Operand.parse? text.toList <;> rfl

/-! ## Numbers as they are written -/

/-- A word in hexadecimal. -/
def hexadecimal (x : Char) (v : Word) : List Char :=
  (if v.toInt < 0 then ['-'] else []) ++ '0' :: x :: Nat.toDigits 16 v.toInt.natAbs

theorem denotes_hexadecimal {x : Char} (hx : x = 'x' ∨ x = 'X') (v : Word) :
    Denotes (hexadecimal x v) v.toInt := by
  have hdigits := Numeral.writes_toDigits (by decide : 1 < 16) (by decide) v.toInt.natAbs
  have hnumber := WritesMagnitude.hexadecimal hx (.unsigned hdigits)
  rw [Operand.denotes_iff, hexadecimal]
  by_cases hsign : v.toInt < 0
  · rw [if_pos hsign]
    exact Or.inr ⟨_, _, rfl, hnumber, by omega⟩
  · have hvalue : (v.toInt.natAbs : Int) = v.toInt := by omega
    rw [hvalue] at hnumber
    rw [if_neg hsign]
    exact Or.inl hnumber

/-- **Operands stand for what they say.** A token is read as a word exactly if it is a number with
the value of the word, as a label exactly if it begins with a letter or `_`, and any other token is
reported with all of its text, at the line of the instruction. Every word can be written in decimal
and in hexadecimal. -/
theorem Operand.tokens_denote :
    (∀ (token : List Char) (v : Word),
      parse? token = some (.literal v) ↔ Denotes token v.toInt) ∧
    (∀ (token : List Char) (name : String),
      parse? token = some (.label name) ↔ name = String.ofList token ∧ BeginsName token) ∧
    (∀ (token mnemonic : String) (opcode : Opcode) (number : Nat),
      Opcode.ofMnemonic? mnemonic = some opcode → opcode.takesOperand = true →
      (∀ operand, Body.statement ⟨mnemonic, some token⟩ number =
          .ok ⟨number, opcode, some operand⟩ ↔ parse? token.toList = some operand) ∧
      (Body.statement ⟨mnemonic, some token⟩ number = .error ⟨number, .invalidOperand token⟩ ↔
        (∀ v : Word, ¬ Denotes token.toList v.toInt) ∧ ¬ BeginsName token.toList)) ∧
    (∀ v : Word, parse? v.text.toList = some (.literal v)) ∧
    ∀ (x : Char) (v : Word), x = 'x' ∨ x = 'X' →
      parse? (hexadecimal x v) = some (.literal v) := by
  refine ⟨fun token v => parse?_eq_literal_iff, fun token name => parse?_eq_label_iff, ?_,
    parse?_literal, fun x v hx => parse?_eq_literal_iff.mpr (denotes_hexadecimal hx v)⟩
  intro token mnemonic opcode number hop htakes
  rw [Body.statement_operand hop htakes, ← parse?_eq_none_iff]
  cases parse? token.toList <;> simp

/-- Two signs cancel out; a number that is one too large is none, and the smallest word can be
written in capital letters. -/
theorem Operand.tokens_denote_two_signs :
    Denotes ['-', '0', 'x', '-', '5'] 5 ∧
      Opcode.ofMnemonic? "push" = some .push ∧ Opcode.push.takesOperand = true ∧
      Body.statement ⟨"push", some "2147483648"⟩ 3 = .error ⟨3, .invalidOperand "2147483648"⟩ ∧
      (∀ v : Word, ¬ Denotes "2147483648".toList v.toInt) ∧
      hexadecimal 'X' (-2147483648) = "-0X80000000".toList ∧
      parse? (hexadecimal 'X' (-2147483648)) = some (.literal (-2147483648)) := by
  obtain ⟨hliteral, -, hstatement, -, hhexadecimal⟩ := tokens_denote
  have hfive : parse? ['-', '0', 'x', '-', '5'] = some (.literal 5) := by decide +kernel
  have hop : Opcode.ofMnemonic? "push" = some .push := by decide +kernel
  have hlarge : Body.statement ⟨"push", some "2147483648"⟩ 3 =
      .error ⟨3, .invalidOperand "2147483648"⟩ := by decide +kernel
  have hsmallest : hexadecimal 'X' (-2147483648) = "-0X80000000".toList := by decide +kernel
  refine ⟨(hliteral _ 5).mp hfive, hop, rfl, hlarge, ?_, hsmallest, hhexadecimal _ _ (Or.inr rfl)⟩
  exact ((hstatement _ _ _ _ hop rfl).2.mp hlarge).1

end Assembly

end StackMachine
