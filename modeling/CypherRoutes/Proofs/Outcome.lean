/-
# Outcomes

When a computation in steps succeeds or fails; and two computations that run in step: both fail, with
related failures, or both succeed, with related results.
-/
import Mathlib

namespace CypherRoutes

/-! ## Success and failure -/

section Success

variable {ε α β : Type}

/-- Two computations one after the other succeed if each does. -/
theorem bind_eq_ok_iff {x : Except ε α} {f : α → Except ε β} {b : β} :
    (x >>= f) = .ok b ↔ ∃ a, x = .ok a ∧ f a = .ok b := by
  constructor
  · intro h
    cases x with
    | error e => cases h
    | ok a => exact ⟨a, rfl, h⟩
  · rintro ⟨a, rfl, h⟩
    exact h

/-- Two computations one after the other fail if one of them does. -/
theorem bind_eq_error_iff {x : Except ε α} {f : α → Except ε β} {e : ε} :
    (x >>= f) = .error e ↔ x = .error e ∨ ∃ a, x = .ok a ∧ f a = .error e := by
  constructor
  · intro h
    cases x with
    | error e' => exact .inl (congrArg Except.error (Except.error.inj h))
    | ok a => exact .inr ⟨a, rfl, h⟩
  · rintro (rfl | ⟨a, rfl, h⟩)
    · rfl
    · exact h

/-- A computation with its result changed succeeds if it does. -/
theorem map_eq_ok_iff {x : Except ε α} {f : α → β} {b : β} :
    x.map f = .ok b ↔ ∃ a, x = .ok a ∧ f a = b := by
  constructor
  · intro h
    cases x with
    | error e => cases h
    | ok a => exact ⟨a, rfl, Except.ok.inj h⟩
  · rintro ⟨a, rfl, rfl⟩
    rfl

/-- A computation of which something is observed has succeeded. -/
theorem exists_ok_of_observed {x : Except ε α} {f : α → β} {b : β}
    (h : (x.map f).toOption = some b) : ∃ a, x = .ok a ∧ f a = b := by
  cases x with
  | error e => cases h
  | ok a => exact ⟨a, rfl, Option.some.inj h⟩

/-- A computation without a result has failed. -/
theorem exists_error_of_isNone {x : Except ε α} (h : x.toOption.isNone = true) :
    ∃ e, x = .error e := by
  cases x with
  | error e => exact ⟨e, rfl⟩
  | ok a => cases h

end Success

/-! ## Computations in step -/

/-- Two outcomes of one kind, with related failures or related results. -/
inductive SameOutcome {ε ε' α β : Type} (E : ε → ε' → Prop) (P : α → β → Prop) :
    Except ε α → Except ε' β → Prop where
  | error {e : ε} {e' : ε'} : E e e' → SameOutcome E P (.error e) (.error e')
  | ok {a : α} {b : β} : P a b → SameOutcome E P (.ok a) (.ok b)

namespace SameOutcome

variable {ε ε' α β γ δ : Type} {E : ε → ε' → Prop} {P : α → β → Prop} {Q : γ → δ → Prop}

/-- Computations in step, followed by computations in step. -/
theorem bind {x : Except ε α} {y : Except ε' β} (h : SameOutcome E P x y)
    {f : α → Except ε γ} {g : β → Except ε' δ}
    (hfg : ∀ a b, P a b → SameOutcome E Q (f a) (g b)) :
    SameOutcome E Q (x >>= f) (y >>= g) := by
  cases h with
  | error he => exact .error he
  | ok hp => exact hfg _ _ hp

/-- Computations in step with their results changed. -/
theorem map {x : Except ε α} {y : Except ε' β} (h : SameOutcome E P x y)
    {f : α → γ} {g : β → δ} (hfg : ∀ a b, P a b → Q (f a) (g b)) :
    SameOutcome E Q (x.map f) (y.map g) := by
  cases h with
  | error he => exact .error he
  | ok hp => exact .ok (hfg _ _ hp)

/-- Related results that are related in another way as well. -/
theorem imp {P' : α → β → Prop} {x : Except ε α} {y : Except ε' β} (h : SameOutcome E P x y)
    (hp : ∀ a b, P a b → P' a b) : SameOutcome E P' x y := by
  cases h with
  | error he => exact .error he
  | ok hab => exact .ok (hp _ _ hab)

/-- Related results with where the first one came from. -/
theorem remember {x : Except ε α} {y : Except ε' β} (h : SameOutcome E P x y) :
    SameOutcome E (fun a b => x = .ok a ∧ P a b) x y := by
  cases h with
  | error he => exact .error he
  | ok hp => exact .ok ⟨rfl, hp⟩

/-- The failure that goes with a failure. -/
theorem exists_error {x : Except ε α} {y : Except ε' β} (h : SameOutcome E P x y) {e : ε}
    (hx : x = .error e) : ∃ e', y = .error e' ∧ E e e' := by
  cases h with
  | error he =>
      cases hx
      exact ⟨_, rfl, he⟩
  | ok hp => cases hx

/-- The result that goes with a result. -/
theorem exists_ok {x : Except ε α} {y : Except ε' β} (h : SameOutcome E P x y) {a : α}
    (hx : x = .ok a) : ∃ b, y = .ok b ∧ P a b := by
  cases h with
  | error he => cases hx
  | ok hp =>
      cases hx
      exact ⟨_, rfl, hp⟩

end SameOutcome

end CypherRoutes
