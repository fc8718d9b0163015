import StackMachine.Json.Document
import StackMachine.Json.Value
import StackMachine.Proofs.Assembly.Writing

set_option autoImplicit false

/-! # JSON texts with blanks

A JSON text is written as tokens with any blanks between them (`Json.Spaced`). It is read as these
tokens as long as no number is followed by a character that could belong to it
(`Json.tokens?_spaced`), so an object is read as its members however it is laid out
(`Json.parse?_object`). Names are written with the escapes of `Json.quote` and numbers in decimal.
-/

namespace StackMachine.Json

open StackMachine.Text StackMachine.Assembly

/-! ## Strings -/

section

variable {c : Char} {rest : List Char}

theorem stringBody?_plain (hquote : c ≠ '"') (hescape : c ≠ '\\') (hcode : 0x20 ≤ c.toNat) :
    stringBody? (c :: rest) = (stringBody? rest).map fun (chars, rest) => (c :: chars, rest) := by
  rw [stringBody?]
  · rw [if_neg (Nat.not_lt.mpr hcode)]
    cases stringBody? rest <;> rfl
  · exact hquote
  · exact fun _ _ _ _ _ h _ => hescape h
  · exact fun _ _ h _ => hescape h

theorem stringBody?_escaped {letter : Char} (h : escaped? letter = some c) :
    stringBody? ('\\' :: letter :: rest) =
      (stringBody? rest).map fun (chars, rest) => (c :: chars, rest) := by
  rw [stringBody?]
  · rw [h]
    cases stringBody? rest <;> rfl
  · rintro _ _ _ _ _ rfl _
    cases h

theorem stringBody?_code {a b : Char} (h : escapedCode? ['0', '0', a, b] = some c) :
    stringBody? ('\\' :: 'u' :: '0' :: '0' :: a :: b :: rest) =
      (stringBody? rest).map fun (chars, rest) => (c :: chars, rest) := by
  rw [stringBody?, h]
  cases stringBody? rest <;> rfl

/-- The code of a control character has two digits. -/
theorem exists_code (hcode : c.toNat < 0x20) :
    ∃ a b, escapedCode? ['0', '0', a, b] = some c ∧
      ("\\u00" ++ (if c.toNat < 0x10 then "0" else "") ++
        String.ofList (Nat.toDigits 16 c.toNat)).toList = ['\\', 'u', '0', '0', a, b] := by
  have hall : ∀ n < 0x20,
      escapedCode? ['0', '0', (n / 16).digitChar, (n % 16).digitChar] = some (Char.ofNat n) ∧
        ("\\u00" ++ (if n < 0x10 then "0" else "") ++ String.ofList (Nat.toDigits 16 n)).toList =
          ['\\', 'u', '0', '0', (n / 16).digitChar, (n % 16).digitChar] := by
    decide +kernel
  obtain ⟨hread, hwritten⟩ := hall c.toNat hcode
  rw [Char.ofNat_toNat] at hread
  exact ⟨_, _, hread, hwritten⟩

/-- A character is read back from its spelling inside a string. -/
theorem stringBody?_stringChar (c : Char) (rest : List Char) :
    stringBody? ((stringChar c).toList ++ rest) =
      (stringBody? rest).map fun (chars, rest) => (c :: chars, rest) := by
  unfold stringChar
  split
  · exact stringBody?_escaped rfl
  · exact stringBody?_escaped rfl
  · exact stringBody?_escaped rfl
  · exact stringBody?_escaped rfl
  · exact stringBody?_escaped rfl
  · exact stringBody?_escaped rfl
  · exact stringBody?_escaped rfl
  · next hquote hescape _ _ _ _ _ =>
      split
      · next hcode =>
          obtain ⟨a, b, hread, hwritten⟩ := exists_code hcode
          rw [hwritten]
          exact stringBody?_code hread
      · next hcode =>
          rw [Char.toString_eq_singleton, String.toList_singleton]
          exact stringBody?_plain hquote hescape (Nat.le_of_not_lt hcode)

end

theorem stringBody?_flatMap (chars rest : List Char) :
    stringBody? (chars.flatMap (fun c => (stringChar c).toList) ++ '"' :: rest) =
      some (chars, rest) := by
  induction chars with
  | nil => simp [stringBody?]
  | cons c chars ih =>
      rw [List.flatMap_cons, List.append_assoc, stringBody?_stringChar, ih]
      rfl

theorem toList_quote (text : String) :
    (quote text).toList =
      '"' :: (text.toList.flatMap (fun c => (stringChar c).toList) ++ ['"']) := by
  simp [quote, String.toList_join, List.flatMap_map]

/-! ## Numbers -/

/-- No character at the front of a text could belong to a number before it. -/
def EndsNumber (rest : List Char) : Prop :=
  ∀ c ∈ rest.head?, c.isDigit = false ∧ c ≠ '.' ∧ c ≠ 'e' ∧ c ≠ 'E'

/-- Only the number zero begins with the digit zero. -/
theorem head?_toDigits_ne_zero {n : Nat} (h : 0 < n) : (Nat.toDigits 10 n).head? ≠ some '0' := by
  induction n using Nat.strongRecOn with
  | ind n ih =>
      by_cases hn : n < 10
      · have hall : ∀ d < 10, 0 < d → d.digitChar ≠ '0' := by decide
        simp [Nat.toDigits_of_lt_base hn, hall n hn h]
      · rw [Nat.toDigits_of_base_le (by decide) (by omega),
          List.head?_append_of_ne_nil _ Nat.toDigits_ne_nil]
        exact ih (n / 10) (by omega) (by omega)

theorem length_toDigits_zero_head {n : Nat} (h : (Nat.toDigits 10 n).head? = some '0') :
    (Nat.toDigits 10 n).length = 1 := by
  rcases Nat.eq_zero_or_pos n with rfl | hpos
  · rfl
  · exact absurd h (head?_toDigits_ne_zero hpos)

section

variable {rest : List Char}

theorem span_toDigits (h : EndsNumber rest) (n : Nat) :
    (Nat.toDigits 10 n ++ rest).takeWhile Char.isDigit = Nat.toDigits 10 n ∧
      (Nat.toDigits 10 n ++ rest).dropWhile Char.isDigit = rest := by
  have hdigits : ∀ c ∈ Nat.toDigits 10 n, c.isDigit = true := fun c hc => isDigit_of_mem_toDigits hc
  rw [List.takeWhile_append_of_pos hdigits, List.dropWhile_append_of_pos hdigits]
  cases rest with
  | nil => simp
  | cons c cs => simp [(h c rfl).1]

theorem not_endsNumber_any (h : EndsNumber rest) :
    ¬ rest.head?.any (fun c => c = '.' ∨ c = 'e' ∨ c = 'E') = true := by
  cases rest with
  | nil => simp
  | cons c cs =>
      obtain ⟨-, hpoint, hsmall, hlarge⟩ := h c rfl
      simp [hpoint, hsmall, hlarge]

theorem not_zero_in_front (n : Nat) :
    ¬ (1 < (Nat.toDigits 10 n).length ∧ (Nat.toDigits 10 n).head? = some '0') := by
  rintro ⟨hlength, hhead⟩
  rw [length_toDigits_zero_head hhead] at hlength
  omega

theorem integer?_digits (h : EndsNumber rest) (n : Nat) :
    integer? (Nat.toDigits 10 n ++ rest) = some ((n : Int), rest) := by
  obtain ⟨hdigits, hrest⟩ := span_toDigits h n
  unfold integer?
  split
  · next heq =>
      split at heq
      · next hminus =>
          obtain ⟨c, cs, hcons, hc⟩ := head?_toDigits n
          rw [hcons, List.cons_append, List.cons.injEq] at hminus
          rw [hminus.1] at hc
          cases hc
      · cases heq
        simp only [hdigits, hrest, if_neg (not_zero_in_front n), if_neg (not_endsNumber_any h),
          Numeral.value?_toDigits (by decide : 1 < 10) (by decide), Option.bind_some]

theorem integer?_minus (h : EndsNumber rest) {n : Nat} (hn : 0 < n) :
    integer? ('-' :: (Nat.toDigits 10 n ++ rest)) = some (-(n : Int), rest) := by
  obtain ⟨hdigits, hrest⟩ := span_toDigits h n
  simp only [integer?, hdigits, hrest, if_neg (not_zero_in_front n), if_neg (not_endsNumber_any h),
    Numeral.value?_toDigits (by decide : 1 < 10) (by decide), Option.bind_some]
  cases n with
  | zero => omega
  | succ n => rfl

/-- A number in decimal is read up to where it ends. -/
theorem integer?_toString (h : EndsNumber rest) (i : Int) :
    integer? ((toString i).toList ++ rest) = some (i, rest) := by
  rw [Int.toString_eq_repr, Int.repr_eq_if]
  split
  · next hsign =>
      rw [Nat.toList_repr, integer?_digits h, Int.toNat_of_nonneg hsign]
  · next hsign =>
      have hminus := integer?_minus h (n := (-i).toNat) (by omega)
      rw [Int.toNat_of_nonneg (by omega), Int.neg_neg] at hminus
      simpa [Nat.toList_repr] using hminus

end

/-! ## Tokens -/

/-- How a token is written. -/
def Token.chars : Token → List Char
  | .openObject => ['\x7b']
  | .closeObject => ['\x7d']
  | .openArray => ['[']
  | .closeArray => [']']
  | .colon => [':']
  | .comma => [',']
  | .text value => (quote value).toList
  | .scalar .null => ['n', 'u', 'l', 'l']
  | .scalar (.bool true) => ['t', 'r', 'u', 'e']
  | .scalar (.bool false) => ['f', 'a', 'l', 's', 'e']
  | .scalar (.integer i) => (toString i).toList

/-- Whether the token is a number. -/
def Token.isNumber : Token → Bool
  | .scalar (.integer _) => true
  | _ => false

/-- A number is written as digits, with a sign in front if it is negative. -/
theorem exists_toString (i : Int) :
    ∃ c cs, (toString i).toList = c :: cs ∧ (c.isDigit = true ∨ c = '-') := by
  rw [Int.toString_eq_repr, Int.repr_eq_if]
  split
  · obtain ⟨c, cs, hcons, hc⟩ := head?_toDigits i.toNat
    exact ⟨c, cs, by rw [Nat.toList_repr, hcons], Or.inl hc⟩
  · exact ⟨'-', Nat.toDigits 10 (-i).toNat, by simp [Nat.toList_repr], Or.inr rfl⟩

theorem token?_number {c : Char} (hc : c.isDigit = true ∨ c = '-') (cs : List Char) :
    token? (c :: cs) =
      (integer? (c :: cs)).map fun (i, rest) => (.scalar (.integer i), rest) := by
  have hother : ∀ {c' : Char}, c = c' → c'.isDigit = false → c' ≠ '-' → False := by
    rintro c' rfl hdigit hminus
    rcases hc with hc | hc
    · rw [hdigit] at hc
      cases hc
    · exact hminus hc
  -- no other token begins with a digit or a sign
  rw [token?]
  · exact List.cons_ne_nil c cs
  all_goals
    intro rest heq
    injection heq with hfirst _
    exact hother hfirst rfl (by decide)

/-- A token is read from the front of a text, if it is no number that goes on. -/
theorem token?_chars (token : Token) {rest : List Char}
    (h : token.isNumber = true → EndsNumber rest) :
    token? (token.chars ++ rest) = some (token, rest) := by
  cases token with
  | openObject | closeObject | openArray | closeArray | colon | comma => rfl
  | text value =>
      rw [Token.chars, toList_quote, List.cons_append, List.append_assoc, token?,
        List.singleton_append, stringBody?_flatMap]
      show some (Token.text (String.ofList value.toList), rest) = _
      rw [String.ofList_toList]
  | scalar value =>
      cases value with
      | null => rfl
      | bool b => cases b <;> rfl
      | integer i =>
          obtain ⟨c, cs, hcons, hc⟩ := exists_toString i
          have hread := integer?_toString (h rfl) i
          rw [hcons] at hread
          rw [Token.chars, hcons, List.cons_append, token?_number hc, ← List.cons_append, hread]
          rfl

theorem isSpace_iff {c : Char} : isSpace c = true ↔ c ∈ [' ', '\t', '\n', '\r'] := by
  simp [isSpace, or_assoc]

theorem exists_chars (token : Token) : ∃ c cs, token.chars = c :: cs ∧ isSpace c = false := by
  cases token with
  | openObject | closeObject | openArray | closeArray | colon | comma => exact ⟨_, _, rfl, rfl⟩
  | text value => exact ⟨'"', _, toList_quote value, rfl⟩
  | scalar value =>
      cases value with
      | null => exact ⟨_, _, rfl, rfl⟩
      | bool b => cases b <;> exact ⟨_, _, rfl, rfl⟩
      | integer i =>
          obtain ⟨c, cs, hcons, hc⟩ := exists_toString i
          refine ⟨c, cs, hcons, ?_⟩
          rw [← Bool.not_eq_true, isSpace_iff]
          intro hspace
          simp only [List.mem_cons, List.not_mem_nil, or_false] at hspace
          rcases hspace with rfl | rfl | rfl | rfl <;> rcases hc with hc | hc <;> cases hc

/-! ## Blanks -/

/-- All characters may stand between tokens. -/
def Blanks (chars : List Char) : Prop := ∀ c ∈ chars, c ∈ [' ', '\t', '\n', '\r']

instance (chars : List Char) : Decidable (Blanks chars) :=
  List.decidableBAll (· ∈ [' ', '\t', '\n', '\r']) chars

/-- The text shows the tokens one behind another, with blanks in front of each and at the end. -/
inductive Spaced : List Token → List Char → Prop
  | done {blanks : List Char} : Blanks blanks → Spaced [] blanks
  | token {blanks rest : List Char} {token : Token} {tokens : List Token} :
      Blanks blanks → Spaced tokens rest →
        Spaced (token :: tokens) (blanks ++ (token.chars ++ rest))

/-- Whether the token ends a value before it. -/
def Token.isMark : Token → Bool
  | .closeObject | .closeArray | .comma => true
  | _ => false

/-- Every number is followed by a token that ends it. -/
def Separated (tokens : List Token) : Prop :=
  tokens.IsChain fun token next => token.isNumber = true → next.isMark = true

theorem endsNumber_of_space {c : Char} {text : List Char} (hc : c ∈ [' ', '\t', '\n', '\r']) :
    EndsNumber (c :: text) := by
  intro c' hc'
  cases hc'
  simp only [List.mem_cons, List.not_mem_nil, or_false] at hc
  rcases hc with rfl | rfl | rfl | rfl <;> decide

/-- A number ends before a mark, blanks and the end of the text. -/
theorem Spaced.endsNumber {tokens : List Token} {text : List Char} (h : Spaced tokens text)
    (hmark : ∀ token ∈ tokens.head?, token.isMark = true) : EndsNumber text := by
  cases h with
  | done hblanks =>
      cases text with
      | nil => exact nofun
      | cons c cs => exact endsNumber_of_space (hblanks c List.mem_cons_self)
  | @token blanks rest token tokens hblanks hrest =>
      cases blanks with
      | cons c cs => exact endsNumber_of_space (hblanks c List.mem_cons_self)
      | nil =>
          have htoken := hmark token rfl
          intro c hc
          cases token <;> cases htoken <;> cases hc <;> decide

theorem dropWhile_blanks {blanks : List Char} (h : Blanks blanks) (rest : List Char) :
    (blanks ++ rest).dropWhile isSpace = rest.dropWhile isSpace :=
  List.dropWhile_append_of_pos fun c hc => isSpace_iff.mpr (h c hc)

/-- A token in front of a text is read first, however many blanks are before it. -/
theorem token?_spaced {blanks rest : List Char} {token : Token} (hblanks : Blanks blanks)
    (hnumber : token.isNumber = true → EndsNumber rest) :
    ∃ c cs, (blanks ++ (token.chars ++ rest)).dropWhile isSpace = c :: cs ∧
      token? (c :: cs) = some (token, rest) := by
  obtain ⟨c, cs, hcons, hc⟩ := exists_chars token
  refine ⟨c, cs ++ rest, ?_, ?_⟩
  · rw [dropWhile_blanks hblanks, hcons, List.cons_append,
      List.dropWhile_cons_of_neg (by simp [hc])]
  · rw [← List.cons_append, ← hcons]
    exact token?_chars token hnumber

theorem Separated.isMark {token : Token} {tokens : List Token}
    (h : Separated (token :: tokens)) (hnumber : token.isNumber = true) :
    ∀ next ∈ tokens.head?, next.isMark = true := by
  intro next hnext
  cases tokens with
  | nil => cases hnext
  | cons first later =>
      cases hnext
      exact (List.isChain_cons_cons.mp h).1 hnumber

theorem tokensUpTo?_spaced {tokens : List Token} {text : List Char} (h : Spaced tokens text)
    (hseparated : Separated tokens) {count : Nat} (hcount : tokens.length ≤ count) :
    tokensUpTo? count text = some tokens := by
  -- on the tokens that the text shows; the count is only large enough
  induction h generalizing count with
  | done hblanks =>
      have hnone := dropWhile_blanks hblanks []
      rw [List.append_nil, List.dropWhile_nil] at hnone
      cases count <;> rw [tokensUpTo?, hnone]
  | @token blanks rest token tokens hblanks hrest ih =>
      obtain ⟨c, cs, hfront, hread⟩ := token?_spaced hblanks
        fun hnumber => hrest.endsNumber (hseparated.isMark hnumber)
      rw [List.length_cons] at hcount
      obtain ⟨count, rfl⟩ := Nat.exists_eq_add_of_le' (by omega : 1 ≤ count)
      have hlater := ih hseparated.of_cons (Nat.le_of_add_le_add_right hcount)
      rw [tokensUpTo?, hfront]
      simp only [hread, hlater, Option.bind_some, Option.bind_eq_bind]
      rfl

theorem Spaced.length_le {tokens : List Token} {text : List Char} (h : Spaced tokens text) :
    tokens.length ≤ text.length := by
  induction h with
  | done _ => exact Nat.zero_le _
  | @token _ _ token _ _ _ ih =>
      obtain ⟨c, cs, hcons, -⟩ := exists_chars token
      simp only [List.length_append, hcons, List.length_cons]
      omega

/-- **A text is read as the tokens that it shows.** -/
theorem tokens?_spaced {tokens : List Token} {text : List Char} (h : Spaced tokens text)
    (hseparated : Separated tokens) : tokens? text = some tokens :=
  tokensUpTo?_spaced h hseparated h.length_le

/-! ## Objects -/

/-- The tokens of members up to the end of their object. -/
def membersTokens : List (String × Scalar) → List Token
  | [] => [.closeObject]
  | [(name, value)] => [.text name, .colon, .scalar value, .closeObject]
  | (name, value) :: rest =>
    .text name :: .colon :: .scalar value :: .comma :: membersTokens rest

/-- The tokens of an object. -/
def objectTokens (members : List (String × Scalar)) : List Token :=
  .openObject :: membersTokens members

theorem members?_membersTokens {members : List (String × Scalar)} (h : members ≠ []) :
    members? (membersTokens members) = some members := by
  fun_induction membersTokens members with
  | case1 => exact absurd rfl h
  | case2 name value => rfl
  | case3 name value rest hrest ih =>
      rw [members?, ih (by simpa using hrest)]
      rfl

theorem separated_membersTokens (members : List (String × Scalar)) (first : Token)
    (hfirst : first.isNumber = false) : Separated (first :: membersTokens members) := by
  have hopen : ∀ next : Token, first.isNumber = true → next.isMark = true := by
    intro next hnumber
    rw [hfirst] at hnumber
    cases hnumber
  -- only a value can be a number, and it is followed by a comma or the end of the object
  fun_induction membersTokens members generalizing first with
  | case1 => exact List.isChain_cons_cons.mpr ⟨hopen _, .singleton _⟩
  | case2 name value =>
      refine List.isChain_cons_cons.mpr ⟨hopen _, List.isChain_cons_cons.mpr ⟨nofun, ?_⟩⟩
      refine List.isChain_cons_cons.mpr ⟨nofun, List.isChain_cons_cons.mpr ⟨fun _ => rfl, ?_⟩⟩
      exact .singleton _
  | case3 name value rest hrest ih =>
      refine List.isChain_cons_cons.mpr ⟨hopen _, List.isChain_cons_cons.mpr ⟨nofun, ?_⟩⟩
      refine List.isChain_cons_cons.mpr ⟨nofun, List.isChain_cons_cons.mpr ⟨fun _ => rfl, ?_⟩⟩
      exact ih .comma rfl nofun

theorem ofTokens?_objectTokens (members : List (String × Scalar)) :
    Document.ofTokens? (objectTokens members) = some (.object members) := by
  cases members with
  | nil => rfl
  | cons m members =>
      have hread := members?_membersTokens (List.cons_ne_nil m members)
      rw [objectTokens, Document.ofTokens?, hread, Option.map_some]
      -- an object with members does not end at once
      intro hclose
      rw [hclose] at hread
      cases hread

/-- **An object is read as its members**, whatever blanks stand between its tokens. -/
theorem parse?_object {members : List (String × Scalar)} {text : String}
    (h : Spaced (objectTokens members) text.toList) :
    Document.parse? text = some (.object members) := by
  rw [Document.parse?, tokens?_spaced h (separated_membersTokens members .openObject rfl),
    Option.bind_some, ofTokens?_objectTokens]

end StackMachine.Json
