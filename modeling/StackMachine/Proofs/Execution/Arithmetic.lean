import Mathlib.Data.Int.ModEq
import StackMachine.Execution.Flow
import StackMachine.Proofs.Action

set_option autoImplicit false

/-! # Arithmetic

Words compute modulo `2 ^ 32`: a sum, a difference, a product and a quotient of words is the one
word that is congruent to the result on integers (`Word.Represents`). A remainder is the remainder
itself, since it is never too large for a word.

The five arithmetic instructions differ in their operation only (`Instruction.operation?`). Each
takes two operands and puts the result in their place. Two words have been taken by then, so there
is room for it, and the operation is all that can fail (`State.execute_operation`). Together this
is what each instruction does to the integers that the operands stand for
(`State.arithmetic_modulo_word`).
-/

namespace StackMachine

/-! ## Words as integers modulo `2 ^ 32` -/

namespace Word

/-- The word is the only one that is congruent to the integer modulo `2 ^ 32`. -/
def Represents (w : Word) (z : Int) : Prop := ∀ w' : Word, w'.toInt ≡ z [ZMOD 2 ^ 32] ↔ w' = w

variable {w w' : Word} {z : Int}

/-- Different words are not congruent: they are less than `2 ^ 32` apart. -/
theorem eq_of_modEq (h : w.toInt ≡ w'.toInt [ZMOD 2 ^ 32]) : w = w' := by
  have hlow := w.le_toInt
  have hhigh := w.toInt_lt
  have hlow' := w'.le_toInt
  have hhigh' := w'.toInt_lt
  unfold Int.ModEq at h
  rw [← Int32.toInt_inj]
  omega

theorem represents_of_modEq (h : w.toInt ≡ z [ZMOD 2 ^ 32]) : Represents w z := by
  intro w'
  constructor
  · intro h'
    exact eq_of_modEq (h'.trans h.symm)
  · rintro rfl
    exact h

theorem modEq_of_bmod (h : w.toInt = z.bmod (2 ^ 32)) : w.toInt ≡ z [ZMOD 2 ^ 32] := by
  rw [h]
  exact Int.bmod_emod

theorem represents_add (a b : Word) : Represents (a + b) (a.toInt + b.toInt) :=
  represents_of_modEq (modEq_of_bmod (Int32.toInt_add a b))

theorem represents_sub (a b : Word) : Represents (a - b) (a.toInt - b.toInt) :=
  represents_of_modEq (modEq_of_bmod (Int32.toInt_sub a b))

theorem represents_mul (a b : Word) : Represents (a * b) (a.toInt * b.toInt) :=
  represents_of_modEq (modEq_of_bmod (Int32.toInt_mul a b))

theorem toInt_div_modEq (a b : Word) : (a / b).toInt ≡ a.toInt.tdiv b.toInt [ZMOD 2 ^ 32] :=
  modEq_of_bmod (Int32.toInt_div a b)

theorem toInt_ne_zero {b : Word} (hb : b ≠ 0) : b.toInt ≠ 0 := by
  intro h
  exact hb (Int32.toInt_inj.mp h)

/-- A remainder has the sign of the dividend, unless it is zero. -/
theorem sign_mod (a b : Word) :
    (a % b).toInt = 0 ∨ (a % b).toInt.sign = a.toInt.sign := by
  rw [Int32.toInt_mod]
  have hsign := Int.sign_tmod a.toInt b.toInt
  by_cases hdvd : b.toInt ∣ a.toInt
  · exact Or.inl (Int.tmod_eq_zero_of_dvd hdvd)
  · rw [if_neg hdvd] at hsign
    exact Or.inr hsign

/-- A remainder is closer to zero than the divisor. -/
theorem natAbs_mod_lt (a : Word) {b : Word} (hb : b ≠ 0) :
    (a % b).toInt.natAbs < b.toInt.natAbs := by
  have hpos : 0 < b.toInt.natAbs := Int.natAbs_pos.mpr (toInt_ne_zero hb)
  rw [Int32.toInt_mod, Int.natAbs_tmod]
  exact Nat.mod_lt _ hpos

/-- Quotient and remainder give back the dividend, also where the quotient is too large for a
word. -/
theorem div_mul_add_mod_modEq (a b : Word) :
    (a / b).toInt * b.toInt + (a % b).toInt ≡ a.toInt [ZMOD 2 ^ 32] := by
  calc (a / b).toInt * b.toInt + (a % b).toInt
      ≡ a.toInt.tdiv b.toInt * b.toInt + (a % b).toInt [ZMOD 2 ^ 32] :=
        ((toInt_div_modEq a b).mul_right _).add_right _
    _ = a.toInt.tdiv b.toInt * b.toInt + a.toInt.tmod b.toInt := by rw [Int32.toInt_mod]
    _ = a.toInt := by rw [Int.add_comm, Int.tmod_add_tdiv_mul]

end Word

/-! ## Taking two operands and leaving one -/

/-- What an arithmetic instruction computes from its left and its right operand. -/
def Instruction.operation? : Instruction → Option (Word → Word → Except Fault Word)
  | .add => some fun a b => .ok (a + b)
  | .sub => some fun a b => .ok (a - b)
  | .mul => some fun a b => .ok (a * b)
  | .div => some State.divide
  | .mod => some State.remainder
  | _ => none

/-- The operations fail on a zero divisor only. -/
theorem Instruction.fault_of_operation {i : Instruction} {f : Word → Word → Except Fault Word}
    {a b : Word} {fault : Fault} (hi : i.operation? = some f) (h : f a b = .error fault) :
    fault = .divisionByZero := by
  unfold Instruction.operation? at hi
  split at hi <;> cases hi
  · cases h
  · cases h
  · cases h
  · unfold State.divide at h
    split at h <;> cases h
    rfl
  · unfold State.remainder at h
    split at h <;> cases h
    rfl

namespace State

/-- The state with other values on the operand stack. -/
def withValues (s : State) (values : Array Word) : State :=
  { s with stack := { s.stack with values } }

section

variable {s : State} {below : Array Word} {a b : Word}

theorem popPair_eq (hvalues : s.stack.values = (below.push a).push b) :
    popPair s = .ok (a, b) (s.withValues below) := by
  have hright : OperandStack.pop s.stack = .ok b { s.stack with values := below.push a } := by
    simp [OperandStack.pop, hvalues]
  have hleft : OperandStack.pop { s.stack with values := below.push a } =
      .ok a { s.stack with values := below } := by
    simp [OperandStack.pop]
  have hpair : OperandStack.popPair s.stack = .ok (a, b) { s.stack with values := below } :=
    Action.bind_eq_ok.mpr ⟨_, _, hright, Action.bind_eq_ok.mpr ⟨_, _, hleft, rfl⟩⟩
  simp only [popPair, onStack, Action.within, hpair]
  rfl

theorem push_eq (w : Word) (hroom : below.size < s.stack.limit) :
    push w (s.withValues below) = .ok () (s.withValues (below.push w)) := by
  have hpush : OperandStack.push w (s.withValues below).stack =
      .ok () { s.stack with values := below.push w } := if_pos hroom
  simp only [push, onStack, Action.within, hpush]
  rfl

/-- **An arithmetic instruction puts the result in the place of its operands, or fails as its
operation does.** -/
theorem execute_operation {env : Environment} {i : Instruction}
    {f : Word → Word → Except Fault Word} (hi : i.operation? = some f)
    (hvalues : s.stack.values = (below.push a).push b) (hlimit : s.stack.depth ≤ s.stack.limit) :
    execute env i s =
      match f a b with
      | .ok w => .ok .next (s.withValues (below.push w))
      | .error fault => .error fault (s.withValues below) := by
  -- two words have been taken, so there is room for the result
  have hroom : below.size < s.stack.limit := by
    have hdepth : s.stack.depth = below.size + 2 := by simp [OperandStack.depth, hvalues]
    omega
  have hexecute : execute env i = arithmetic f >>= fun _ => pure .next := by
    unfold Instruction.operation? at hi
    split at hi <;> cases hi <;> rfl
  rw [hexecute]
  cases hresult : f a b with
  | ok w =>
      refine Action.bind_eq_ok.mpr ⟨(), s.withValues (below.push w), ?_, rfl⟩
      refine Action.bind_eq_ok.mpr ⟨_, _, popPair_eq hvalues, ?_⟩
      exact Action.ofExcept_bind_eq_ok.mpr ⟨w, hresult, push_eq w hroom⟩
  | error fault =>
      refine Action.bind_eq_error.mpr (Or.inl ?_)
      refine Action.bind_eq_error.mpr (Or.inr ⟨_, _, popPair_eq hvalues, ?_⟩)
      exact Action.ofExcept_bind_eq_error.mpr (Or.inl ⟨hresult, rfl⟩)

end

/-- **Arithmetic instructions compute modulo `2 ^ 32`.** With `b` on top of `a` on the operand
stack, `ADD`, `SUB` and `MUL` replace the two by the one word that is congruent to their sum,
difference or product. `DIV` and `MOD` fail exactly if `b` is zero; otherwise they leave quotient
and remainder, where the quotient is the word congruent to the one that is rounded toward zero, the
remainder is zero or has the sign of `a` and is closer to zero than `b`, and the two give back `a`.
What is below the operands stays, and the stack is neither too small nor too full: a stack is never
deeper than its limit. -/
theorem arithmetic_modulo_word (env : Environment) {s : State} {below : Array Word} {a b : Word}
    (hvalues : s.stack.values = (below.push a).push b) (hlimit : s.stack.depth ≤ s.stack.limit) :
    (∃ w, Word.Represents w (a.toInt + b.toInt) ∧
      execute env .add s = .ok .next (s.withValues (below.push w))) ∧
    (∃ w, Word.Represents w (a.toInt - b.toInt) ∧
      execute env .sub s = .ok .next (s.withValues (below.push w))) ∧
    (∃ w, Word.Represents w (a.toInt * b.toInt) ∧
      execute env .mul s = .ok .next (s.withValues (below.push w))) ∧
    (∀ i ∈ [Instruction.div, .mod], ∀ s',
      execute env i s = .error .divisionByZero s' ↔ b = 0 ∧ s' = s.withValues below) ∧
    (b ≠ 0 → ∃ q r : Word,
      execute env .div s = .ok .next (s.withValues (below.push q)) ∧
      execute env .mod s = .ok .next (s.withValues (below.push r)) ∧
      Word.Represents q (a.toInt.tdiv b.toInt) ∧
      (r.toInt = 0 ∨ r.toInt.sign = a.toInt.sign) ∧ r.toInt.natAbs < b.toInt.natAbs ∧
      q.toInt * b.toInt + r.toInt ≡ a.toInt [ZMOD 2 ^ 32]) ∧
    ∀ i ∈ [Instruction.add, .sub, .mul, .div, .mod], ∀ fault s',
      execute env i s = .error fault s' →
        fault ≠ .stackUnderflow ∧ ∀ limit, fault ≠ .stackOverflow limit := by
  have hexecute : ∀ {i f}, Instruction.operation? i = some f → execute env i s =
      match f a b with
      | .ok w => .ok .next (s.withValues (below.push w))
      | .error fault => .error fault (s.withValues below) :=
    fun hi => execute_operation hi hvalues hlimit
  have hadd := hexecute (i := .add) rfl
  have hsub := hexecute (i := .sub) rfl
  have hmul := hexecute (i := .mul) rfl
  have hdiv := hexecute (i := .div) rfl
  have hmod := hexecute (i := .mod) rfl
  refine ⟨⟨_, Word.represents_add a b, hadd⟩, ⟨_, Word.represents_sub a b, hsub⟩,
    ⟨_, Word.represents_mul a b, hmul⟩, ?_, ?_, ?_⟩
  · simp only [divide, remainder] at hdiv hmod
    intro i hi s'
    simp only [List.mem_cons, List.not_mem_nil, or_false] at hi
    rcases hi with rfl | rfl <;> by_cases hb : b = 0 <;> simp [hdiv, hmod, hb, eq_comm]
  · intro hb
    simp only [divide, remainder, if_neg hb] at hdiv hmod
    exact ⟨a / b, a % b, hdiv, hmod, Word.represents_of_modEq (Word.toInt_div_modEq a b),
      Word.sign_mod a b, Word.natAbs_mod_lt a hb, Word.div_mul_add_mod_modEq a b⟩
  · intro i hi fault s' herror
    obtain ⟨f, hf⟩ : ∃ f, i.operation? = some f := by
      simp only [List.mem_cons, List.not_mem_nil, or_false] at hi
      rcases hi with rfl | rfl | rfl | rfl | rfl <;> exact ⟨_, rfl⟩
    rw [hexecute hf] at herror
    cases hresult : f a b with
    | ok w => simp [hresult] at herror
    | error fault' =>
        simp only [hresult, EStateM.Result.error.injEq] at herror
        rw [← herror.1, Instruction.fault_of_operation hf hresult]
        exact ⟨nofun, fun _ => nofun⟩

/-- The smallest word divided by `-1` on a full stack: its quotient on integers is too large for a
word by one. -/
theorem arithmetic_modulo_word_smallest :
    ∃ s : State, s.stack.values = #[7, Int32.minValue, -1] ∧ s.stack.depth ≤ s.stack.limit ∧
      execute {} .div s = .ok .next (s.withValues #[7, Int32.minValue]) ∧
      execute {} .mod s = .ok .next (s.withValues #[7, 0]) ∧
      execute {} .mul s = .ok .next (s.withValues #[7, Int32.minValue]) := by
  have hvalues : #[7, Int32.minValue, -1] = (#[(7 : Word)].push Int32.minValue).push (-1) := rfl
  let s : State := (State.initial { maxStackDepth := 3 } []).withValues #[7, Int32.minValue, -1]
  have hlimit : s.stack.depth ≤ s.stack.limit := Nat.le_refl 3
  obtain ⟨-, -, ⟨w, hw, hmul⟩, -, hquotient, -⟩ := arithmetic_modulo_word {} hvalues hlimit
  obtain ⟨q, r, hdiv, hmod, hq, -, hr, -⟩ := hquotient (by decide)
  have hw : w = Int32.minValue := ((hw _).mp (by decide)).symm
  have hq : q = Int32.minValue := ((hq _).mp (by decide)).symm
  have hr : r = 0 := by
    rw [← Int32.toInt_inj]
    exact Int.natAbs_eq_zero.mp (Nat.lt_one_iff.mp hr)
  rw [hw] at hmul
  rw [hq] at hdiv
  rw [hr] at hmod
  exact ⟨s, hvalues, hlimit, hdiv, hmod, hmul⟩

end State

end StackMachine
