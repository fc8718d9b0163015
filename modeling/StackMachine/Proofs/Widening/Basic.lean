import StackMachine.Config.Basic
import StackMachine.Proofs.Action

set_option autoImplicit false

/-! # Actions under larger limits

Some faults are due to a limit (`Fault.isLimit`). An action *mirrors* another one if it does the
same on states that correspond to each other, as far as the other one does not hit a limit:
`Action.Mirrors R Q x y` says that from states related by `R`, `y` completes if `x` does, with
related states and values related by `Q`, and stops with the fault of `x` if that is not due to a
limit. Sequences mirror each other when their parts do.
-/

namespace StackMachine

/-- The fault is due to a limit, so it might not occur with a larger one. -/
def Fault.isLimit : Fault → Bool
  | .stackOverflow _ | .callStackOverflow _ | .heapOverflow _ _ | .invalidHeapAddress _ _
  | .invalidMemoryAddress _ | .instructionBudgetExhausted => true
  | _ => false

/-- Every limit of `c` is at most that of `c'`. A missing budget is the largest. -/
structure Config.Within (c c' : Config) : Prop where
  maxStackDepth : c.maxStackDepth ≤ c'.maxStackDepth
  maxCallDepth : c.maxCallDepth ≤ c'.maxCallDepth
  slotsPerFrame : c.slotsPerFrame ≤ c'.slotsPerFrame
  globalSlots : c.globalSlots ≤ c'.globalSlots
  heapSize : c.heapSize ≤ c'.heapSize
  instructionBudget : ∀ b', c'.instructionBudget = some b' →
    ∃ b, c.instructionBudget = some b ∧ b ≤ b'

/-! ## Answers -/

/-- The second answer is as the first one, unless that fails because of a limit. -/
inductive Echoes {α β : Type} (Q : α → β → Prop) : Except Fault α → Except Fault β → Prop
  | ok {a : α} {b : β} : Q a b → Echoes Q (.ok a) (.ok b)
  | error (fault : Fault) : Echoes Q (.error fault) (.error fault)
  | limit {fault : Fault} {r : Except Fault β} : fault.isLimit = true → Echoes Q (.error fault) r

namespace Echoes

variable {α β γ δ : Type} {P : γ → δ → Prop} {Q : α → β → Prop}

theorem refl (r : Except Fault α) : Echoes Eq r r := by
  cases r with
  | ok a => exact .ok rfl
  | error fault => exact .error fault

theorem bind {r : Except Fault γ} {r' : Except Fault δ} {f : γ → Except Fault α}
    {f' : δ → Except Fault β} (hr : Echoes P r r') (hf : ∀ a b, P a b → Echoes Q (f a) (f' b)) :
    Echoes Q (r >>= f) (r' >>= f') := by
  cases hr with
  | ok hP => exact hf _ _ hP
  | error fault => exact .error fault
  | limit hlimit => exact .limit hlimit

end Echoes

namespace Action

variable {σ τ α β γ δ : Type}

/-- The second result is as the first one, unless that stops because of a limit. -/
inductive Mirrored (R : σ → σ → Prop) (Q : α → β → Prop) :
    EStateM.Result Fault σ α → EStateM.Result Fault σ β → Prop
  | ok {a : α} {b : β} {s s' : σ} : Q a b → R s s' → Mirrored R Q (.ok a s) (.ok b s')
  | error {fault : Fault} {s s' : σ} :
      R s s' → Mirrored R Q (.error fault s) (.error fault s')
  | limit {fault : Fault} {s : σ} {r : EStateM.Result Fault σ β} :
      fault.isLimit = true → Mirrored R Q (.error fault s) r

/-- From related states, `y` does what `x` does, unless that stops because of a limit. -/
def Mirrors (R : σ → σ → Prop) (Q : α → β → Prop) (x : Action σ α) (y : Action σ β) : Prop :=
  ∀ s s', R s s' → Mirrored R Q (x s) (y s')

namespace Mirrors

variable {R : σ → σ → Prop} {P : γ → δ → Prop} {Q : α → β → Prop}

theorem pure {a : α} {b : β} (h : Q a b) : Mirrors R Q (Pure.pure a) (Pure.pure b) :=
  fun _ _ hs => .ok h hs

theorem throw (fault : Fault) :
    Mirrors R Q (MonadExcept.throw fault) (MonadExcept.throw fault) :=
  fun _ _ hs => .error hs

theorem bind {x : Action σ γ} {y : Action σ δ} {f : γ → Action σ α} {g : δ → Action σ β}
    (hx : Mirrors R P x y) (hf : ∀ a b, P a b → Mirrors R Q (f a) (g b)) :
    Mirrors R Q (x >>= f) (y >>= g) := by
  intro s s' hs
  show Mirrored R Q (EStateM.bind x f s) (EStateM.bind y g s')
  have hfirst := hx s s' hs
  unfold EStateM.bind
  generalize x s = r, y s' = r' at hfirst ⊢
  cases hfirst with
  | ok hP ht => exact hf _ _ hP _ _ ht
  | error ht => exact .error ht
  | limit hlimit => exact .limit hlimit

/-- The first actions give the same value. -/
theorem bind_same {x y : Action σ γ} {f : γ → Action σ α} {g : γ → Action σ β}
    (hx : Mirrors R Eq x y) (hf : ∀ a, Mirrors R Q (f a) (g a)) :
    Mirrors R Q (x >>= f) (y >>= g) :=
  hx.bind fun a _ hab => hab ▸ hf a

theorem ofExcept {r : Except Fault α} {r' : Except Fault β} (h : Echoes Q r r') :
    Mirrors R Q (Action.ofExcept r) (Action.ofExcept r') := by
  cases h with
  | ok hQ => exact pure hQ
  | error fault => exact throw fault
  | limit hlimit => exact fun _ _ _ => .limit hlimit

/-- An action on a part of the state, and what corresponds to it. -/
theorem within [Inhabited τ] {S : τ → τ → Prop} {part : σ → τ} {replace : σ → τ → σ}
    {x : Action τ α} {y : Action τ β} (h : Mirrors S Q x y)
    (hpart : ∀ s s', R s s' → S (part s) (part s'))
    (hreplace : ∀ s s' t t', R s s' → S t t' →
      R (replace (replace s default) t) (replace (replace s' default) t')) :
    Mirrors R Q (x.within part replace) (y.within part replace) := by
  intro s s' hs
  have hresult := h _ _ (hpart s s' hs)
  unfold Action.within
  dsimp only
  generalize x (part s) = r, y (part s') = r' at hresult ⊢
  cases hresult with
  | ok hQ ht => exact .ok hQ (hreplace _ _ _ _ hs ht)
  | error ht => exact .error (hreplace _ _ _ _ hs ht)
  | limit hlimit => exact .limit hlimit

/-- Actions that look at the state first. -/
theorem get_bind {f : σ → Action σ α} {g : σ → Action σ β}
    (h : ∀ s s', R s s' → Mirrored R Q (f s s) (g s' s')) :
    Mirrors R Q (get >>= f) (get >>= g) :=
  h

end Mirrors

theorem Mirrors.modify {R : σ → σ → Prop} {f g : σ → σ} (h : ∀ s s', R s s' → R (f s) (g s')) :
    Mirrors R Eq (modify f : Action σ PUnit) (modify g) :=
  fun s s' hs => .ok rfl (h s s' hs)

end Action

end StackMachine
