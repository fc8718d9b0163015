import StackMachine.Fault
import Mathlib.Order.Defs.Unbundled

set_option autoImplicit false

/-! # What actions may do

`Action.Obeys R Q E x` bounds an action from every starting state: it moves the state along the
relation `R`, completes only with values in `Q`, and stops only with faults in `E`. The bound
composes when `R` is reflexive and transitive, so an instruction obeys a bound as soon as the
operations it is made of do.

`Action.Ensures P x Q E` speaks of the states in `P` only: started there, the action completes with
a value and a state in `Q`, or stops in a state in `E`. So what comes before a fault can be told
apart from what comes before the end.

`Action.Overlooks f x` compares two runs of an action: from a state changed by `f` it does what it
does from the state itself, and what it leaves is changed by `f` as well.
-/

namespace StackMachine.Action

variable {σ τ α β : Type}

/-! ## Sequences of actions -/

theorem bind_eq_ok {x : Action σ α} {f : α → Action σ β} {s s' : σ} {b : β} :
    (x >>= f) s = .ok b s' ↔ ∃ a s₁, x s = .ok a s₁ ∧ f a s₁ = .ok b s' := by
  show EStateM.bind x f s = _ ↔ _
  unfold EStateM.bind
  cases hx : x s with
  | ok a s₁ =>
      constructor
      · intro h
        exact ⟨a, s₁, rfl, h⟩
      · rintro ⟨a', s₁', h₁, h₂⟩
        cases h₁
        exact h₂
  | error fault s₁ => simp

theorem bind_eq_error {x : Action σ α} {f : α → Action σ β} {s s' : σ} {fault : Fault} :
    (x >>= f) s = .error fault s' ↔
      x s = .error fault s' ∨ ∃ a s₁, x s = .ok a s₁ ∧ f a s₁ = .error fault s' := by
  show EStateM.bind x f s = _ ↔ _
  unfold EStateM.bind
  cases hx : x s with
  | ok a s₁ =>
      constructor
      · intro h
        exact Or.inr ⟨a, s₁, rfl, h⟩
      · rintro (h₁ | ⟨a', s₁', h₁, h₂⟩)
        · cases h₁
        · cases h₁
          exact h₂
  | error fault₁ s₁ => simp

theorem ofExcept_bind_eq_ok {r : Except Fault α} {f : α → Action σ β} {s s' : σ} {b : β} :
    (ofExcept r >>= f) s = .ok b s' ↔ ∃ a, r = .ok a ∧ f a s = .ok b s' := by
  rw [bind_eq_ok]
  constructor
  · rintro ⟨a, s₁, h₁, h₂⟩
    cases r with
    | ok a' => cases h₁; exact ⟨a, rfl, h₂⟩
    | error fault => cases h₁
  · rintro ⟨a, rfl, h⟩
    exact ⟨a, s, rfl, h⟩

theorem ofExcept_bind_eq_error {r : Except Fault α} {f : α → Action σ β} {s s' : σ}
    {fault : Fault} :
    (ofExcept r >>= f) s = .error fault s' ↔
      (r = .error fault ∧ s' = s) ∨ ∃ a, r = .ok a ∧ f a s = .error fault s' := by
  rw [bind_eq_error]
  constructor
  · rintro (h | ⟨a, s₁, h₁, h₂⟩)
    · cases r with
      | ok a => cases h
      | error fault' => cases h; exact Or.inl ⟨rfl, rfl⟩
    · cases r with
      | ok a' => cases h₁; exact Or.inr ⟨a, rfl, h₂⟩
      | error fault' => cases h₁
  · rintro (⟨rfl, rfl⟩ | ⟨a, rfl, h⟩)
    · exact Or.inl rfl
    · exact Or.inr ⟨a, s, rfl, h⟩

/-- The state an action leaves, whether it completes or stops. -/
def final (x : Action σ α) (s : σ) : σ :=
  match x s with
  | .ok _ s' => s'
  | .error _ s' => s'

/-- The fault that an action stops with and the state it leaves then, if it stops. -/
def stop? (x : Action σ α) (s : σ) : Option (Fault × σ) :=
  match x s with
  | .ok _ _ => none
  | .error fault s' => some (fault, s')

theorem stop?_eq_some {x : Action σ α} {s s' : σ} {fault : Fault} :
    stop? x s = some (fault, s') ↔ x s = .error fault s' := by
  unfold stop?
  cases x s <;> simp

/-! ## Bounds on actions -/

/-- From every state, `x` moves the state along `R`; it completes with a value in `Q` or stops
with a fault in `E`. -/
structure Obeys (R : σ → σ → Prop) (Q : α → Prop) (E : Fault → Prop) (x : Action σ α) :
    Prop where
  ok : ∀ {s a s'}, x s = .ok a s' → R s s' ∧ Q a
  error : ∀ {s fault s'}, x s = .error fault s' → R s s' ∧ E fault

namespace Obeys

variable {R : σ → σ → Prop} {Q : α → Prop} {P : β → Prop} {E : Fault → Prop}

theorem final {x : Action σ α} (h : Obeys R Q E x) (s : σ) : R s (x.final s) := by
  unfold Action.final
  split
  · next hx => exact (h.ok hx).1
  · next hx => exact (h.error hx).1

theorem mono {Q' : α → Prop} {E' : Fault → Prop} {x : Action σ α} (h : Obeys R Q E x)
    (hQ : ∀ a, Q a → Q' a) (hE : ∀ fault, E fault → E' fault) : Obeys R Q' E' x where
  ok hx := ⟨(h.ok hx).1, hQ _ (h.ok hx).2⟩
  error hx := ⟨(h.error hx).1, hE _ (h.error hx).2⟩

/-- An action on a part of the state is bounded by what it does to the part. -/
theorem within [Inhabited τ] {S : τ → τ → Prop} {part : σ → τ} {replace : σ → τ → σ}
    {x : Action τ α} (h : Obeys S Q E x)
    (lift : ∀ s t, S (part s) t → R s (replace (replace s default) t)) :
    Obeys R Q E (x.within part replace) where
  ok {s a s'} hx := by
    unfold Action.within at hx
    cases hp : x (part s) with
    | ok b t =>
        simp only [hp, EStateM.Result.ok.injEq] at hx
        obtain ⟨rfl, rfl⟩ := hx
        exact ⟨lift s t (h.ok hp).1, (h.ok hp).2⟩
    | error fault t => simp [hp] at hx
  error {s fault s'} hx := by
    unfold Action.within at hx
    cases hp : x (part s) with
    | ok b t => simp [hp] at hx
    | error fault₁ t =>
        simp only [hp, EStateM.Result.error.injEq] at hx
        obtain ⟨rfl, rfl⟩ := hx
        exact ⟨lift s t (h.error hp).1, (h.error hp).2⟩

variable [IsPreorder σ R]

theorem pure {a : α} (ha : Q a) : Obeys R Q E (Pure.pure a : Action σ α) where
  ok hx := by cases hx; exact ⟨refl_of R _, ha⟩
  error hx := by cases hx

theorem throw {fault : Fault} (hf : E fault) :
    Obeys R Q E (MonadExcept.throw fault : Action σ α) where
  ok hx := by cases hx
  error hx := by cases hx; exact ⟨refl_of R _, hf⟩

theorem bind {x : Action σ β} {f : β → Action σ α} (hx : Obeys R P E x)
    (hf : ∀ b, P b → Obeys R Q E (f b)) : Obeys R Q E (x >>= f) where
  ok h := by
    obtain ⟨b, s₁, h₁, h₂⟩ := bind_eq_ok.mp h
    obtain ⟨hR, hb⟩ := hx.ok h₁
    exact ⟨trans_of R hR ((hf b hb).ok h₂).1, ((hf b hb).ok h₂).2⟩
  error h := by
    rcases bind_eq_error.mp h with h₁ | ⟨b, s₁, h₁, h₂⟩
    · exact hx.error h₁
    · obtain ⟨hR, hb⟩ := hx.ok h₁
      exact ⟨trans_of R hR ((hf b hb).error h₂).1, ((hf b hb).error h₂).2⟩

/-- An action that goes on after a fault keeps what was done before it. -/
theorem tryCatch {x : Action σ α} {f : Fault → Action σ α} (hx : Obeys R Q (fun _ => True) x)
    (hf : ∀ fault, Obeys R Q E (f fault)) : Obeys R Q E (MonadExcept.tryCatch x f) where
  ok {s a s'} h := by
    change EStateM.tryCatch x f s = _ at h
    unfold EStateM.tryCatch at h
    cases hs : x s with
    | ok b s₁ =>
        simp only [hs, EStateM.Result.ok.injEq] at h
        obtain ⟨rfl, rfl⟩ := h
        exact hx.ok hs
    | error fault s₁ =>
        -- the recovery starts from the state that the fault left
        simp only [hs] at h
        exact ⟨trans_of R (hx.error hs).1 ((hf fault).ok h).1, ((hf fault).ok h).2⟩
  error {s fault s'} h := by
    change EStateM.tryCatch x f s = _ at h
    unfold EStateM.tryCatch at h
    cases hs : x s with
    | ok b s₁ => simp [hs] at h
    | error fault₁ s₁ =>
        simp only [hs] at h
        exact ⟨trans_of R (hx.error hs).1 ((hf fault₁).error h).1, ((hf fault₁).error h).2⟩

theorem ofExcept {r : Except Fault α} (hok : ∀ a, r = .ok a → Q a)
    (herr : ∀ fault, r = .error fault → E fault) : Obeys R Q E (Action.ofExcept r) := by
  cases r with
  | ok a => exact pure (hok a rfl)
  | error fault => exact throw (herr fault rfl)

theorem get : Obeys R (fun _ => True) E (MonadState.get : Action σ σ) where
  ok hx := by cases hx; exact ⟨refl_of R _, trivial⟩
  error hx := by cases hx

end Obeys

theorem Obeys.modify {R : σ → σ → Prop} {E : Fault → Prop} {f : σ → σ} (hf : ∀ s, R s (f s)) :
    Obeys R (fun _ => True) E (modify f : Action σ PUnit) where
  ok hx := by cases hx; exact ⟨hf _, trivial⟩
  error hx := by cases hx

/-! ## Triples -/

/-- From a state in `P`, `x` completes with a value and a state in `Q` or stops in a state in
`E`. -/
structure Ensures (P : σ → Prop) (x : Action σ α) (Q : α → σ → Prop) (E : σ → Prop) : Prop where
  ok : ∀ {s a s'}, P s → x s = .ok a s' → Q a s'
  error : ∀ {s fault s'}, P s → x s = .error fault s' → E s'

/-- Started in `s`, the action completes or leaves everything as it is. -/
def AllOrNothing (x : Action σ α) (s : σ) : Prop :=
  ∀ fault s', x s = .error fault s' → s' = s

namespace Ensures

variable {P : σ → Prop} {Q : α → σ → Prop} {E : σ → Prop}

theorem pure {a : α} (h : ∀ s, P s → Q a s) : Ensures P (Pure.pure a) Q E where
  ok hs hx := by cases hx; exact h _ hs
  error _ hx := by cases hx

theorem throw {fault : Fault} (h : ∀ s, P s → E s) :
    Ensures P (MonadExcept.throw fault) Q E where
  ok _ hx := by cases hx
  error hs hx := by cases hx; exact h _ hs

theorem bind {x : Action σ β} {f : β → Action σ α} {R : β → σ → Prop} (hx : Ensures P x R E)
    (hf : ∀ b, Ensures (R b) (f b) Q E) : Ensures P (x >>= f) Q E where
  ok hs h := by
    obtain ⟨b, s₁, h₁, h₂⟩ := bind_eq_ok.mp h
    exact (hf b).ok (hx.ok hs h₁) h₂
  error hs h := by
    rcases bind_eq_error.mp h with h₁ | ⟨b, s₁, h₁, h₂⟩
    · exact hx.error hs h₁
    · exact (hf b).error (hx.ok hs h₁) h₂

/-- An answer as an action leaves the state alone, whatever it is. -/
theorem ofExcept {r : Except Fault α} (hQ : ∀ a s, P s → Q a s) (hE : ∀ s, P s → E s) :
    Ensures P (Action.ofExcept r) Q E := by
  cases r with
  | ok a => exact pure (hQ a)
  | error fault => exact throw hE

theorem get : Ensures P (MonadState.get : Action σ σ) (fun a s => P s ∧ a = s) E where
  ok hs hx := by cases hx; exact ⟨hs, rfl⟩
  error _ hx := by cases hx

/-- An action that completes or changes nothing. -/
theorem of_allOrNothing {x : Action σ α} (hx : ∀ s, P s → x.AllOrNothing s)
    (hE : ∀ s, P s → E s) : Ensures P x (fun _ _ => True) E where
  ok _ _ := trivial
  error hs h := hx _ hs _ _ h ▸ hE _ hs

/-- An action on a part of the state, from what it does to the part of one state at a time. -/
theorem within [Inhabited τ] {part : σ → τ} {replace : σ → τ → σ} {x : Action τ α}
    (hx : ∀ s, P s → Ensures (· = part s) x (fun a t => Q a (replace (replace s default) t))
      fun t => E (replace (replace s default) t)) : Ensures P (x.within part replace) Q E where
  ok {s a s'} hs h := by
    unfold Action.within at h
    cases hp : x (part s) with
    | ok b t =>
        simp only [hp, EStateM.Result.ok.injEq] at h
        obtain ⟨rfl, rfl⟩ := h
        exact (hx s hs).ok rfl hp
    | error fault t => simp [hp] at h
  error {s fault s'} hs h := by
    unfold Action.within at h
    cases hp : x (part s) with
    | ok b t => simp [hp] at h
    | error fault₁ t =>
        simp only [hp, EStateM.Result.error.injEq] at h
        obtain ⟨rfl, rfl⟩ := h
        exact (hx s hs).error rfl hp

end Ensures

theorem Ensures.modify {P : σ → Prop} {Q : PUnit → σ → Prop} {E : σ → Prop} {f : σ → σ}
    (h : ∀ s, P s → Q ⟨⟩ (f s)) : Ensures P (modify f : Action σ PUnit) Q E where
  ok hs hx := by cases hx; exact h _ hs
  error _ hx := by cases hx

theorem AllOrNothing.within [Inhabited τ] {part : σ → τ} {replace : σ → τ → σ} {x : Action τ α}
    {s : σ} (hx : x.AllOrNothing (part s))
    (hback : replace (replace s default) (part s) = s) :
    (x.within part replace).AllOrNothing s := by
  intro fault s' h
  unfold Action.within at h
  cases hp : x (part s) with
  | ok b t => simp [hp] at h
  | error fault₁ t =>
      simp only [hp, EStateM.Result.error.injEq] at h
      rw [← h.2, hx _ _ hp, hback]

/-! ## Changes that make no difference -/

/-- From a state changed by `f`, `x` ends as it does from the state itself, in the state changed
by `f`. -/
structure Overlooks (f : σ → σ) (x : Action σ α) : Prop where
  ok : ∀ {s a s'}, x s = .ok a s' → x (f s) = .ok a (f s')
  error : ∀ {s fault s'}, x s = .error fault s' → x (f s) = .error fault (f s')

namespace Overlooks

variable {f : σ → σ}

theorem pure {a : α} : Overlooks f (Pure.pure a : Action σ α) where
  ok hx := by cases hx; rfl
  error hx := by cases hx

theorem throw {fault : Fault} : Overlooks f (MonadExcept.throw fault : Action σ α) where
  ok hx := by cases hx
  error hx := by cases hx; rfl

theorem bind {x : Action σ β} {g : β → Action σ α} (hx : Overlooks f x)
    (hg : ∀ b, Overlooks f (g b)) : Overlooks f (x >>= g) where
  ok h := by
    obtain ⟨b, s₁, h₁, h₂⟩ := bind_eq_ok.mp h
    exact bind_eq_ok.mpr ⟨b, f s₁, hx.ok h₁, (hg b).ok h₂⟩
  error h := by
    rcases bind_eq_error.mp h with h₁ | ⟨b, s₁, h₁, h₂⟩
    · exact bind_eq_error.mpr (Or.inl (hx.error h₁))
    · exact bind_eq_error.mpr (Or.inr ⟨b, f s₁, hx.ok h₁, (hg b).error h₂⟩)

theorem ofExcept (r : Except Fault α) : Overlooks f (Action.ofExcept r) := by
  cases r with
  | ok a => exact pure
  | error fault => exact throw

theorem modify {g : σ → σ} (h : ∀ s, g (f s) = f (g s)) :
    Overlooks f (modify g : Action σ PUnit) where
  ok {s a s'} hx := by
    cases hx
    exact congrArg (EStateM.Result.ok PUnit.unit) (h s)
  error hx := by cases hx

/-- An action that looks at the state first. -/
theorem get_bind {g : σ → Action σ α} (h : ∀ s, g (f s) = g s) (hg : ∀ s, Overlooks f (g s)) :
    Overlooks f (MonadState.get >>= g) where
  ok {s a s'} hx := by
    change g s s = _ at hx
    show g (f s) (f s) = _
    rw [h]
    exact (hg s).ok hx
  error {s fault s'} hx := by
    change g s s = _ at hx
    show g (f s) (f s) = _
    rw [h]
    exact (hg s).error hx

/-- An action on a part of the state that is not changed. -/
theorem within [Inhabited τ] {part : σ → τ} {replace : σ → τ → σ} {x : Action τ α}
    (hpart : ∀ s, part (f s) = part s)
    (hreplace : ∀ s t, replace (replace (f s) default) t = f (replace (replace s default) t)) :
    Overlooks f (x.within part replace) where
  ok {s a s'} h := by
    unfold Action.within at h ⊢
    cases hp : x (part s) with
    | ok b t =>
        simp only [hp, EStateM.Result.ok.injEq] at h
        simp only [hpart, hp, hreplace, EStateM.Result.ok.injEq]
        exact ⟨h.1, congrArg f h.2⟩
    | error fault t => simp [hp] at h
  error {s fault s'} h := by
    unfold Action.within at h ⊢
    cases hp : x (part s) with
    | ok b t => simp [hp] at h
    | error fault₁ t =>
        simp only [hp, EStateM.Result.error.injEq] at h
        simp only [hpart, hp, hreplace, EStateM.Result.error.injEq]
        exact ⟨h.1, congrArg f h.2⟩

end Overlooks

end StackMachine.Action
