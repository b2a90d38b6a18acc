import Mathlib.Order.Basic
import Mathlib.Data.Nat.Notation
import Mathlib.Logic.Relation

/-!
# What happens on every path

A state set is inevitable when every path runs into it: it is there already, or
some step is possible and every possible step leads to a state from which it is
inevitable.
-/
namespace LocalSearch.Lib

set_option autoImplicit false

variable {α : Type}

inductive Inevitable (step : α → α → Prop) (goal : α → Prop) : α → Prop
  | now {s : α} (hgoal : goal s) : Inevitable step goal s
  | later {s : α} (hpossible : ∃ t, step s t) (hnext : ∀ t, step s t → Inevitable step goal t) :
      Inevitable step goal s

/-- Steps that never get stuck before the goal and always come closer to it. -/
theorem inevitable_of_measure {step : α → α → Prop} {goal inv : α → Prop} (measure : α → ℕ)
    (hpossible : ∀ s, inv s → ∃ t, step s t)
    (hstep : ∀ s t, inv s → step s t → goal t ∨ (inv t ∧ measure t < measure s)) {s : α}
    (hs : inv s) : Inevitable step goal s := by
  induction hn : measure s using Nat.strongRecOn generalizing s with
  | ind n ih =>
    refine .later (hpossible s hs) fun t ht => ?_
    rcases hstep s t hs ht with hgoal | ⟨hinv, hlt⟩
    · exact .now hgoal
    · exact ih (measure t) (by omega) hinv rfl

end LocalSearch.Lib
