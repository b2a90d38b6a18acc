import Mathlib.Tactic.ByCases
import Mathlib.Tactic.SplitIfs

/-!
# Computations that may fail

How the results of sequenced and guarded computations come about.
-/
namespace LocalSearch.Lib

set_option autoImplicit false

theorem ok_bind {ε α β : Type} (a : α) (f : α → Except ε β) : (.ok a >>= f) = f a := rfl

theorem error_bind {ε α β : Type} (e : ε) (f : α → Except ε β) : (.error e >>= f) = .error e := rfl

/-- A sequenced computation succeeds exactly when both halves do. -/
theorem bind_ok {ε α β : Type} {x : Except ε α} {f : α → Except ε β} {b : β} :
    (x >>= f) = .ok b ↔ ∃ a, x = .ok a ∧ f a = .ok b := by
  cases x with
  | error e => exact ⟨fun h => (nomatch h), fun ⟨_, h, _⟩ => (nomatch h)⟩
  | ok a => exact ⟨fun h => ⟨a, rfl, h⟩, fun ⟨_, h, hf⟩ => by cases h; exact hf⟩

theorem bind_error {ε α β : Type} {x : Except ε α} {f : α → Except ε β} {e : ε} :
    x >>= f = .error e ↔ x = .error e ∨ ∃ a, x = .ok a ∧ f a = .error e := by
  cases x with
  | error e' => simp [bind, Except.bind]
  | ok a => simp [bind, Except.bind]

theorem ok_of_isOk {ε α : Type} {x : Except ε α} (h : x.isOk = true) : ∃ a, x = .ok a := by
  cases x with
  | error e => cases h
  | ok a => exact ⟨a, rfl⟩

theorem mapError_ok {ε ε' α : Type} {x : Except ε α} {f : ε → ε'} {a : α}
    (h : x.mapError f = .ok a) : x = .ok a := by
  cases x with
  | error e => cases h
  | ok b => exact congrArg Except.ok (Except.ok.inj h)

/-- A guard that reports an error lets exactly the complement through. -/
theorem guard_ok {ε α : Type} {c : Prop} [Decidable c] {e : ε} {x : Except ε α} {a : α} :
    (if c then .error e else x) = .ok a ↔ ¬ c ∧ x = .ok a := by
  by_cases h : c <;> simp [h]

/-- Where two computations correspond stage by stage, their sequences do. -/
theorem map_bind_map {ε α α' β β' : Type} {φ : α → α'} {ψ : β → β'} {x : Except ε α}
    {x' : Except ε α'} {f : α → Except ε β} {f' : α' → Except ε β'} (hx : x' = φ <$> x)
    (hf : ∀ a, x = .ok a → f' (φ a) = ψ <$> f a) : (x' >>= f') = ψ <$> (x >>= f) := by
  subst hx
  cases x with
  | error e => rfl
  | ok a => exact hf a rfl

theorem ite_map {ε α β : Type} {c : Prop} [Decidable c] {ψ : α → β} {x y : Except ε α}
    {x' y' : Except ε β} (hx : c → x' = ψ <$> x) (hy : ¬ c → y' = ψ <$> y) :
    (if c then x' else y') = ψ <$> (if c then x else y) := by
  split_ifs with h
  · exact hx h
  · exact hy h

section Avoids

variable {ε α β : Type} {P : ε → Prop}

/-- The computation does not fail with an error in `P`. -/
def Avoids (P : ε → Prop) (x : Except ε α) : Prop := ∀ e, x = .error e → ¬ P e

theorem avoids_ok (a : α) : Avoids P (.ok a) := fun _ h => (nomatch h)

theorem avoids_error {e : ε} (h : ¬ P e) : Avoids P (.error e : Except ε α) := by
  intro e' he'
  obtain rfl := Except.error.inj he'
  exact h

theorem avoids_mapError {ε' : Type} {x : Except ε' α} {f : ε' → ε} (h : ∀ e, ¬ P (f e)) :
    Avoids P (x.mapError f) := by
  cases x with
  | error e => exact avoids_error (h e)
  | ok a => exact avoids_ok a

theorem Avoids.bind {x : Except ε α} {f : α → Except ε β} (hx : Avoids P x)
    (hf : ∀ a, x = .ok a → Avoids P (f a)) : Avoids P (x >>= f) := by
  intro e h
  rcases bind_error.mp h with h | ⟨a, ha, h⟩
  · exact hx e h
  · exact hf a ha e h

theorem avoids_ite {c : Prop} [Decidable c] {x y : Except ε α} (hx : c → Avoids P x)
    (hy : ¬ c → Avoids P y) : Avoids P (if c then x else y) := by
  split_ifs with h
  · exact hx h
  · exact hy h

end Avoids

end LocalSearch.Lib
