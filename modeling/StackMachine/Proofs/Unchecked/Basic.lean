import StackMachine.Proofs.Action

set_option autoImplicit false

/-! # Computations that can go wrong

The machine computes sizes and positions with 64-bit numbers, and it does not check all of its
sums, differences and indices, since they are known to be in range. An `Unchecked` computation says
where it relies on this: it completes, stops with a fault, or goes wrong, from which no program
recovers. `Unchecked.require` marks what has to hold at a place.

`Unchecked.Meets P x y` says that `x` does not go wrong from the states in `P`, and then does what
the action `y` does. What only looks at the state meets `pure ()` (`Unchecked.Harmless`).
-/

namespace StackMachine

/-- A computation on `σ` that may also go wrong (`none`). -/
def Unchecked (σ α : Type) : Type := σ → Option (EStateM.Result Fault σ α)

namespace Unchecked

variable {σ τ α β : Type}

protected def pure (a : α) : Unchecked σ α := fun s => some (.ok a s)

protected def bind (x : Unchecked σ α) (f : α → Unchecked σ β) : Unchecked σ β := fun s =>
  match x s with
  | some (.ok a s') => f a s'
  | some (.error fault s') => some (.error fault s')
  | none => none

instance : Monad (Unchecked σ) where
  pure := Unchecked.pure
  bind := Unchecked.bind

/-- An action in which nothing can go wrong. -/
def of (x : Action σ α) : Unchecked σ α := fun s => some (x s)

/-- Go wrong unless the condition holds. -/
def require (p : Prop) [Decidable p] : Unchecked σ Unit := fun s =>
  if p then some (.ok () s) else none

/-- Go on with a computation that may depend on the state. -/
def look (f : σ → Unchecked σ α) : Unchecked σ α := fun s => f s s

/-- Go wrong if there is a fault. -/
def unfailing (x : Unchecked σ α) : Unchecked σ α := fun s =>
  match x s with
  | some (.error _ _) => none
  | result => result

/-- Run a computation on a part of the state. -/
def within [Inhabited τ] (part : σ → τ) (replace : σ → τ → σ) (x : Unchecked τ α) :
    Unchecked σ α := fun s =>
  match x (part s) with
  | some (.ok a t) => some (.ok a (replace (replace s default) t))
  | some (.error fault t) => some (.error fault (replace (replace s default) t))
  | none => none

/-- From the states in `P`, `x` does not go wrong and does what `y` does. -/
def Meets (P : σ → Prop) (x : Unchecked σ α) (y : Action σ α) : Prop :=
  ∀ s, P s → x s = some (y s)

/-- From the states in `P`, `x` does not go wrong and does nothing. -/
def Harmless (P : σ → Prop) (x : Unchecked σ Unit) : Prop := Meets P x (pure ())

variable {P : σ → Prop}

theorem harmless_require {p : Prop} [Decidable p] (hp : p) : Harmless P (require p) :=
  fun _ _ => if_pos hp

namespace Meets

variable {x : Unchecked σ α} {y : Action σ α}

theorem of (y : Action σ α) : Meets P (Unchecked.of y) y := fun _ _ => rfl

theorem pure (a : α) : Meets P (Pure.pure a) (Pure.pure a) := fun _ _ => rfl

theorem mono {P' : σ → Prop} (h : Meets P x y) (hP : ∀ s, P' s → P s) : Meets P' x y :=
  fun s hs => h s (hP s hs)

theorem look {f : σ → Unchecked σ α} (h : ∀ s, P s → Meets (· = s) (f s) y) :
    Meets P (Unchecked.look f) y :=
  fun s hs => h s hs s rfl

/-- What is harmless can be left out. -/
theorem after {z : Unchecked σ Unit} (hz : Harmless P z) (h : Meets P x y) :
    Meets P (z >>= fun _ => x) y := by
  intro s hs
  show Unchecked.bind z (fun _ => x) s = _
  unfold Unchecked.bind
  rw [hz s hs]
  exact h s hs

theorem bind {x : Unchecked σ β} {y : Action σ β} {f : β → Unchecked σ α} {g : β → Action σ α}
    {R : β → σ → Prop} (hx : Meets P x y) (hy : ∀ {s b s'}, P s → y s = .ok b s' → R b s')
    (hf : ∀ b, Meets (R b) (f b) (g b)) : Meets P (x >>= f) (y >>= g) := by
  intro s hs
  show Unchecked.bind x f s = some (EStateM.bind y g s)
  unfold Unchecked.bind EStateM.bind
  rw [hx s hs]
  cases hcase : y s with
  | ok b s' => exact hf b s' (hy hs hcase)
  | error fault s' => rfl

/-- What nothing has to be known of goes on from every state. -/
theorem bind_any {x : Unchecked σ β} {y : Action σ β} {f : β → Unchecked σ α}
    {g : β → Action σ α} (hx : Meets P x y) (hf : ∀ b, Meets (fun _ => True) (f b) (g b)) :
    Meets P (x >>= f) (y >>= g) :=
  hx.bind (fun _ _ => trivial) hf

/-- A condition that the first action keeps is at hand for what follows. -/
theorem bind_keeps {x : Unchecked σ β} {y : Action σ β} {f : β → Unchecked σ α}
    {g : β → Action σ α} {R : σ → σ → Prop} {Q : β → Prop} {E : Fault → Prop} (hx : Meets P x y)
    (hy : Action.Obeys R Q E y) (hP : ∀ {s s'}, P s → R s s' → P s')
    (hf : ∀ b, Meets P (f b) (g b)) : Meets P (x >>= f) (y >>= g) :=
  hx.bind (fun hs hok => hP hs (hy.ok hok).1) hf

/-- What is done with the result is harmless, so it can be left out. -/
theorem bind_harmless {z : α → Unchecked σ Unit} {R : α → σ → Prop} (h : Meets P x y)
    (hy : ∀ {s a s'}, P s → y s = .ok a s' → R a s') (hz : ∀ a, Harmless (R a) (z a)) :
    Meets P (x >>= fun a => z a >>= fun _ => Pure.pure a) y := by
  have hsame : y = y >>= Pure.pure := by
    funext s
    show y s = EStateM.bind y Pure.pure s
    unfold EStateM.bind
    cases y s <;> rfl
  rw [hsame]
  exact h.bind hy fun a => after (hz a) (pure a)

/-- An action that completes does not make a computation go wrong that may not fail. -/
theorem unfailing (h : Meets P x y) (hy : ∀ s, P s → ∃ a s', y s = .ok a s') :
    Meets P (Unchecked.unfailing x) y := by
  intro s hs
  unfold Unchecked.unfailing
  rw [h s hs]
  obtain ⟨a, s', hok⟩ := hy s hs
  rw [hok]

theorem within [Inhabited τ] {part : σ → τ} {replace : σ → τ → σ} {Q : τ → Prop}
    {x : Unchecked τ α} {y : Action τ α} (h : Meets Q x y) (hQ : ∀ s, P s → Q (part s)) :
    Meets P (Unchecked.within part replace x) (y.within part replace) := by
  intro s hs
  unfold Unchecked.within Action.within
  rw [h (part s) (hQ s hs)]
  dsimp only
  cases y (part s) <;> rfl

end Meets

/-- What is harmless to a part is harmless to the whole. -/
theorem Harmless.within [Inhabited τ] {part : σ → τ} {replace : σ → τ → σ} {Q : τ → Prop}
    {x : Unchecked τ Unit} (h : Harmless Q x) (hQ : ∀ s, P s → Q (part s))
    (hback : ∀ s, replace (replace s default) (part s) = s) :
    Harmless P (x.within part replace) := by
  intro s hs
  unfold Unchecked.within
  rw [h (part s) (hQ s hs)]
  show some (EStateM.Result.ok () (replace (replace s default) (part s))) = _
  rw [hback]
  rfl

end Unchecked

end StackMachine
