import LocalSearch.Lib.Result

/-!
# Computations that may be interrupted

A computation with checks between its steps does what the plain one does, or ends
with the error of a check: it is never cut short with a result of its own. Where it
is known which checks it passes, it ends with the error of the first that fails.
-/
namespace LocalSearch.Lib

set_option autoImplicit false

section Errors

variable {ε ε' α β : Type} {P : ε → Prop}

/-- Every error of the computation satisfies `P`. -/
def ErrorsIn (P : ε → Prop) (x : Except ε α) : Prop := ∀ e, x = .error e → P e

namespace ErrorsIn

theorem ok (a : α) : ErrorsIn P (.ok a : Except ε α) := fun e h => by cases h

theorem error {e : ε} (h : P e) : ErrorsIn P (.error e : Except ε α) := by
  intro e' he'
  obtain rfl := Except.error.inj he'
  exact h

theorem bind {x : Except ε α} {f : α → Except ε β} (hx : ErrorsIn P x)
    (hf : ∀ a, ErrorsIn P (f a)) : ErrorsIn P (x >>= f) := by
  cases x with
  | error e => exact error (hx e rfl)
  | ok a => exact hf a

theorem map {x : Except ε α} (f : α → β) (hx : ErrorsIn P x) : ErrorsIn P (f <$> x) := by
  cases x with
  | error e => exact error (hx e rfl)
  | ok a => exact ok (f a)

theorem mapError (x : Except ε' α) {f : ε' → ε} (hf : ∀ e, P (f e)) : ErrorsIn P (x.mapError f) := by
  cases x with
  | error e => exact error (hf e)
  | ok a => exact ok a

end ErrorsIn

end Errors

section Interrupted

variable {ε α β : Type} {Stops : ε → Prop}

/-- `checked` is `plain`, or one of the errors that may stop it. -/
def Interrupted (Stops : ε → Prop) (plain checked : Except ε α) : Prop :=
  checked = plain ∨ ∃ e, Stops e ∧ checked = .error e

namespace Interrupted

/-- A check in front. -/
theorem check {plain checked : Except ε α} {check : Except ε Unit}
    (hcheck : ∀ e, check = .error e → Stops e) (h : Interrupted Stops plain checked) :
    Interrupted Stops plain (check >>= fun _ => checked) := by
  cases hresult : check with
  | error e => exact Or.inr ⟨e, hcheck e hresult, rfl⟩
  | ok _ => exact h

/-- A result that is no error of a check is the plain one. -/
theorem ok {plain checked : Except ε α} (h : Interrupted Stops plain checked) {a : α}
    (hok : checked = .ok a) : plain = .ok a := by
  rcases h with hsame | ⟨e, -, herror⟩
  · rw [← hsame, hok]
  · rw [hok] at herror
    cases herror

/-- Its errors are those of the plain one and those of the checks. -/
theorem errorsIn {plain checked : Except ε α} {P : ε → Prop} (h : Interrupted Stops plain checked)
    (hplain : ErrorsIn P plain) (hstops : ∀ e, Stops e → P e) : ErrorsIn P checked := by
  rcases h with rfl | ⟨e, hstop, rfl⟩
  · exact hplain
  · exact ErrorsIn.error (hstops e hstop)

end Interrupted

/-- A computation behind checks: the first that fails ends it. -/
def behindChecks (checks : List (Option ε)) (x : Except ε α) : Except ε α :=
  match checks.findSome? id with
  | some e => .error e
  | none => x

theorem behindChecks_append (early late : List (Option ε)) (x : Except ε α) :
    behindChecks (early ++ late) x = behindChecks early (behindChecks late x) := by
  unfold behindChecks
  rw [List.findSome?_append]
  cases early.findSome? id <;> rfl

theorem behindChecks_bind (checks : List (Option ε)) (x : Except ε α) (f : α → Except ε β) :
    behindChecks checks x >>= f = behindChecks checks (x >>= f) := by
  unfold behindChecks
  cases checks.findSome? id <;> rfl

theorem behindChecks_map (checks : List (Option ε)) (x : Except ε α) (f : α → β) :
    (behindChecks checks x).map f = behindChecks checks (x.map f) := by
  unfold behindChecks
  cases checks.findSome? id <;> rfl

theorem interrupted_behindChecks {checks : List (Option ε)} (hstops : ∀ e, some e ∈ checks → Stops e)
    (x : Except ε α) : Interrupted Stops x (behindChecks checks x) := by
  unfold behindChecks
  cases hfirst : checks.findSome? id with
  | none => exact Or.inl rfl
  | some e =>
    obtain ⟨check, hcheck, rfl⟩ := List.exists_of_findSome?_eq_some hfirst
    exact Or.inr ⟨e, hstops e hcheck, rfl⟩

end Interrupted

end LocalSearch.Lib
