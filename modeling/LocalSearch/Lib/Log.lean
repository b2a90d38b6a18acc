import Mathlib.Data.List.Infix

/-!
# Logs

A growing list whose entries are judged by the entries before them.
-/
namespace LocalSearch.Lib

set_option autoImplicit false

variable {α : Type} {P : List α → α → Prop} {l : List α}

/-- Every entry meets `P` with the entries before it. -/
def EachEntry (P : List α → α → Prop) (l : List α) : Prop :=
  ∀ past e rest, l = past ++ e :: rest → P past e

theorem eachEntry_nil : EachEntry P [] := by
  intro past e rest h
  simp at h

theorem EachEntry.concat {e : α} (h : EachEntry P l) (he : P l e) : EachEntry P (l ++ [e]) := by
  intro past e' rest heq
  rcases List.eq_nil_or_concat rest with rfl | ⟨rest, last, rfl⟩
  · obtain ⟨rfl, hlast⟩ := List.append_inj' heq rfl
    obtain rfl := List.singleton_inj.mp hlast
    exact he
  · have heq : l ++ [e] = (past ++ e' :: rest) ++ [last] := by simpa using heq
    exact h past e' rest (List.append_inj' heq rfl).1

/-- Two entries at once. -/
theorem EachEntry.concat₂ {e e' : α} (h : EachEntry P l) (he : P l e) (he' : P (l ++ [e]) e') :
    EachEntry P (l ++ [e, e']) := by
  have hboth := (h.concat he).concat he'
  rwa [List.append_assoc] at hboth

theorem eachEntry_cons {e : α} :
    EachEntry P (e :: l) ↔ P [] e ∧ EachEntry (fun past => P (e :: past)) l := by
  constructor
  · intro h
    refine ⟨h [] e l rfl, fun past e' rest heq => ?_⟩
    apply h (e :: past) e' rest
    rw [heq, List.cons_append]
  · rintro ⟨hfirst, hrest⟩ past e' rest heq
    cases past with
    | nil =>
      obtain ⟨rfl, -⟩ := List.cons.inj heq
      exact hfirst
    | cons e₁ past =>
      obtain ⟨rfl, htail⟩ := List.cons.inj heq
      exact hrest past e' rest htail

theorem eachEntry_concat {e : α} : EachEntry P (l ++ [e]) ↔ EachEntry P l ∧ P l e := by
  constructor
  · intro h
    refine ⟨fun past e' rest heq => ?_, h l e [] rfl⟩
    apply h past e' (rest ++ [e])
    rw [heq, List.append_assoc, List.cons_append]
  · exact fun h => h.1.concat h.2

/-- What holds of the empty log and is carried along by each entry that meets
`P` holds of the log. -/
theorem EachEntry.induct {Q : List α → Prop} (h : EachEntry P l) (hnil : Q [])
    (hstep : ∀ past e, Q past → P past e → Q (past ++ [e])) : Q l := by
  induction l using List.reverseRecOn with
  | nil => exact hnil
  | append_singleton past e ih =>
    obtain ⟨hpast, he⟩ := eachEntry_concat.mp h
    exact hstep past e (ih hpast) he

end LocalSearch.Lib
