import Mathlib.Data.List.Forall2
import Mathlib.Data.Nat.Digits.Defs
import StackMachine.Text.Numeral

set_option autoImplicit false

/-! # Reading the digits of a number

The digits of a number in a base up to sixteen are read as that number (`value?_toDigits`). The
value of a run of digits is taken from the left, so the proof adds one digit at the end at a time.

In turn only digits are read, zeros in front and letters of either case among them. `Writes` says
what a run of digits stands for without an order of reading, and `WritesSigned` does so for a run
with a sign; both are exactly what is read (`value?_eq_some_iff`, `signed?_eq_some_iff`).
-/

namespace StackMachine.Text.Numeral

/-- A digit is read as its value in every base that has it. -/
theorem digit?_digitChar {base d : Nat} (hbase : base ≤ 16) (hd : d < base) :
    digit? base d.digitChar = some d := by
  have hall : ∀ e < 16, digit? 16 e.digitChar = some e := by decide
  have hsixteen := hall d (by omega)
  simp only [digit?, Option.filter_eq_some_iff, decide_eq_true_eq] at hsixteen ⊢
  exact ⟨hsixteen.1, hd⟩

theorem valueFrom?_append (base high : Nat) (cs ds : List Char) :
    valueFrom? base high (cs ++ ds) =
      (valueFrom? base high cs).bind fun n => valueFrom? base n ds := by
  induction cs generalizing high with
  | nil => rfl
  | cons c cs ih =>
      rw [List.cons_append, valueFrom?, valueFrom?, Option.bind_assoc]
      congr 1
      funext d
      exact ih (high * base + d)

/-- **The digits of a number are read as the number.** -/
theorem value?_toDigits {base : Nat} (hone : 1 < base) (hbase : base ≤ 16) (n : Nat) :
    value? base (Nat.toDigits base n) = some n := by
  have hvalue : valueFrom? base 0 (Nat.toDigits base n) = some n := by
    induction n using Nat.strongRecOn with
    | ind n ih =>
        by_cases hn : n < base
        · rw [Nat.toDigits_of_lt_base hn, valueFrom?, digit?_digitChar hbase hn]
          simp [valueFrom?]
        · -- the last digit is the remainder, and the digits before it are those of the quotient
          have hle : base ≤ n := by omega
          have hlt : n / base < n := Nat.div_lt_self (by omega) hone
          have hlast := digit?_digitChar hbase (Nat.mod_lt n (by omega : 0 < base))
          rw [Nat.toDigits_of_base_le hone hle, valueFrom?_append, ih _ hlt, Option.bind_some,
            valueFrom?, hlast, Option.bind_some, valueFrom?, Nat.div_add_mod']
  have hne : Nat.toDigits base n ≠ [] := Nat.toDigits_ne_nil
  cases hdigits : Nat.toDigits base n with
  | nil => exact absurd hdigits hne
  | cons c cs =>
      rw [hdigits] at hvalue
      exact hvalue

/-! ## What a text stands for -/

/-- The character is a digit of the base with the value `d`; a letter can be of either case. -/
def IsDigit (base : Nat) (c : Char) (d : Nat) : Prop :=
  d < base ∧ (c = d.digitChar ∨ c = d.digitChar.toUpper)

/-- The text is a run of digits of the base, the highest first, that stands for `n`. -/
def Writes (base : Nat) (text : List Char) (n : Nat) : Prop :=
  text ≠ [] ∧ ∃ ds, List.Forall₂ (IsDigit base) text ds ∧ n = Nat.ofDigits base ds.reverse

/-- The text is a run of digits of the base with at most one sign in front, and stands for `i`. -/
inductive WritesSigned (base : Nat) : List Char → Int → Prop
  | unsigned {text : List Char} {n : Nat} : Writes base text n → WritesSigned base text n
  | plus {text : List Char} {n : Nat} : Writes base text n → WritesSigned base ('+' :: text) n
  | minus {text : List Char} {n : Nat} : Writes base text n → WritesSigned base ('-' :: text) (-n)

/-! ## Digits -/

theorem toNat_of_digit? {base d : Nat} {c : Char} (h : digit? base c = some d) : c.toNat < 128 := by
  obtain ⟨hvalue, -⟩ := Option.filter_eq_some_iff.mp h
  split at hvalue
  · next hc => exact Nat.lt_of_le_of_lt hc.2 (by decide)
  · split at hvalue
    · next hc => exact Nat.lt_of_le_of_lt hc.2 (by decide)
    · split at hvalue
      · next hc => exact Nat.lt_of_le_of_lt hc.2 (by decide)
      · cases hvalue

/-- **The reader of digits finds exactly the digits.** -/
theorem digit?_eq_some_iff {base d : Nat} {c : Char} (hbase : base ≤ 16) :
    digit? base c = some d ↔ IsDigit base c d := by
  -- the digits of base sixteen are among the first characters, so they can be tried one by one
  have hforward : ∀ n < 128, ∀ e ∈ digit? 16 (Char.ofNat n),
      Char.ofNat n = e.digitChar ∨ Char.ofNat n = e.digitChar.toUpper := by decide
  have hbackward : ∀ e < 16, digit? 16 e.digitChar = some e ∧
      digit? 16 e.digitChar.toUpper = some e := by decide
  have hsixteen : digit? base c = some d ↔ d < base ∧ digit? 16 c = some d := by
    simp only [digit?, Option.filter_eq_some_iff, decide_eq_true_eq]
    constructor
    · rintro ⟨hvalue, hlt⟩
      exact ⟨hlt, hvalue, by omega⟩
    · rintro ⟨hlt, hvalue, -⟩
      exact ⟨hvalue, hlt⟩
  rw [hsixteen]
  refine and_congr_right fun hlt => ⟨fun h => ?_, ?_⟩
  · have hc := hforward c.toNat (toNat_of_digit? h)
    rw [Char.ofNat_toNat] at hc
    exact hc d h
  · rintro (rfl | rfl)
    · exact (hbackward d (by omega)).1
    · exact (hbackward d (by omega)).2

/-! ## Runs of digits -/

/-- The digits that follow move those before them to higher places. -/
theorem valueFrom?_eq_some_iff {base : Nat} (hbase : base ≤ 16) {high n : Nat} {text : List Char} :
    valueFrom? base high text = some n ↔
      ∃ ds, List.Forall₂ (IsDigit base) text ds ∧
        n = high * base ^ ds.length + Nat.ofDigits base ds.reverse := by
  induction text generalizing high with
  | nil => simp [valueFrom?, eq_comm]
  | cons c cs ih =>
      have hvalue : ∀ (d : Nat) (ds : List Nat),
          high * base ^ (d :: ds).length + Nat.ofDigits base (d :: ds).reverse =
            (high * base + d) * base ^ ds.length + Nat.ofDigits base ds.reverse := by
        intro d ds
        rw [List.length_cons, List.reverse_cons, Nat.ofDigits_append, List.length_reverse,
          Nat.ofDigits_singleton]
        ring
      rw [valueFrom?, Option.bind_eq_some_iff]
      constructor
      · rintro ⟨d, hd, hrest⟩
        obtain ⟨ds, hds, hn⟩ := ih.mp hrest
        exact ⟨d :: ds, .cons ((digit?_eq_some_iff hbase).mp hd) hds, by rw [hvalue, hn]⟩
      · rintro ⟨_, hds, hn⟩
        cases hds with
        | cons hd hds =>
            rw [hvalue] at hn
            exact ⟨_, (digit?_eq_some_iff hbase).mpr hd, ih.mpr ⟨_, hds, hn⟩⟩

/-- **The reader of numerals finds exactly the runs of digits.** -/
theorem value?_eq_some_iff {base : Nat} (hbase : base ≤ 16) {n : Nat} {text : List Char} :
    value? base text = some n ↔ Writes base text n := by
  cases text with
  | nil => simp [value?, Writes]
  | cons c cs =>
      rw [value?, valueFrom?_eq_some_iff hbase]
      · simp [Writes]
      · simp

/-- The digits of a number stand for it. -/
theorem writes_toDigits {base : Nat} (hone : 1 < base) (hbase : base ≤ 16) (n : Nat) :
    Writes base (Nat.toDigits base n) n :=
  (value?_eq_some_iff hbase).mp (value?_toDigits hone hbase n)

/-- Zeros in front of a run of digits change nothing. -/
theorem Writes.zeros {base n : Nat} {text : List Char} (hbase : 0 < base)
    (h : Writes base text n) (count : Nat) : Writes base (List.replicate count '0' ++ text) n := by
  obtain ⟨hne, ds, hds, rfl⟩ := h
  have hzeros :
      List.Forall₂ (IsDigit base) (List.replicate count '0') (List.replicate count 0) := by
    induction count with
    | zero => exact .nil
    | succ count ih => exact .cons ⟨hbase, Or.inl rfl⟩ ih
  refine ⟨List.append_ne_nil_of_right_ne_nil _ hne, List.replicate count 0 ++ ds,
    List.rel_append hzeros hds, ?_⟩
  rw [List.reverse_append, List.reverse_replicate, Nat.ofDigits_append_replicate_zero]

theorem Writes.isDigit_of_mem {base n : Nat} {c : Char} {text : List Char}
    (h : Writes base text n) (hc : c ∈ text) : ∃ d, IsDigit base c d := by
  obtain ⟨-, ds, hds, -⟩ := h
  induction hds with
  | nil => cases hc
  | cons hd _ ih =>
      rcases List.mem_cons.mp hc with rfl | hc
      · exact ⟨_, hd⟩
      · exact ih hc

/-! ## Signs -/

theorem not_isDigit_sign {base d : Nat} (hbase : base ≤ 16) :
    ¬ IsDigit base '+' d ∧ ¬ IsDigit base '-' d := by
  rw [← digit?_eq_some_iff hbase, ← digit?_eq_some_iff hbase]
  exact ⟨nofun, nofun⟩

/-- **The reader of signed numerals finds exactly the runs of digits with at most one sign.** -/
theorem signed?_eq_some_iff {base : Nat} (hbase : base ≤ 16) {i : Int} {text : List Char} :
    signed? base text = some i ↔ WritesSigned base text i := by
  have hvalue : ∀ {text : List Char} {f : Nat → Int},
      (value? base text).map f = some i ↔ ∃ n, Writes base text n ∧ f n = i := by
    intro text f
    simp only [Option.map_eq_some_iff, value?_eq_some_iff hbase]
  constructor
  · intro h
    unfold signed? at h
    split at h
    · obtain ⟨n, hn, rfl⟩ := hvalue.mp h
      exact .plus hn
    · obtain ⟨n, hn, rfl⟩ := hvalue.mp h
      exact .minus hn
    · obtain ⟨n, hn, rfl⟩ := hvalue.mp h
      exact .unsigned hn
  · intro h
    cases h with
    | @unsigned _ n hn =>
        unfold signed?
        split
        · obtain ⟨d, hd⟩ := hn.isDigit_of_mem List.mem_cons_self
          exact absurd hd (not_isDigit_sign hbase).1
        · obtain ⟨d, hd⟩ := hn.isDigit_of_mem List.mem_cons_self
          exact absurd hd (not_isDigit_sign hbase).2
        · exact hvalue.mpr ⟨n, hn, rfl⟩
    | @plus _ n hn => exact hvalue.mpr ⟨n, hn, rfl⟩
    | @minus _ n hn => exact hvalue.mpr ⟨n, hn, rfl⟩

end StackMachine.Text.Numeral
