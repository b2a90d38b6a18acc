import Mathlib.Order.Basic
import Mathlib.Data.List.Pairwise
import Mathlib.Data.List.Perm.Basic

/-!
# Ranked lists

A list sorted by a comparison and cut at a length. Where the comparison tells
the members apart, the order is strict, the members alone decide it, and what is
cut off comes after everything that is kept.
-/
namespace LocalSearch.Lib

set_option autoImplicit false

variable {α : Type} {cmp : α → α → Ordering}

/-- Not after, as a test for sorting. -/
def notAfter (cmp : α → α → Ordering) (a b : α) : Bool := cmp a b ≠ .gt

/-- The comparison finds no two members equal. -/
def Apart (cmp : α → α → Ordering) (l : List α) : Prop := l.Pairwise fun a b => cmp a b ≠ .eq

theorem notAfter_iff {a b : α} : notAfter cmp a b = true ↔ (cmp a b).isLE = true := by
  unfold notAfter
  cases cmp a b <;> decide

section Trans

variable [Std.TransCmp cmp]

theorem pairwise_ranked (l : List α) :
    (l.mergeSort (notAfter cmp)).Pairwise fun a b => notAfter cmp a b = true := by
  apply List.pairwise_mergeSort
  · intro a b c hab hbc
    rw [notAfter_iff] at hab hbc ⊢
    exact Std.TransCmp.isLE_trans hab hbc
  · intro a b
    unfold notAfter
    rw [@Std.OrientedCmp.eq_swap α cmp _ a b]
    cases cmp b a <;> decide

theorem Apart.perm {l l' : List α} (h : Apart cmp l) (hperm : l.Perm l') : Apart cmp l' := by
  refine List.Pairwise.perm h hperm fun {a b} hab hba => hab ?_
  rw [@Std.OrientedCmp.eq_swap α cmp _ a b, hba]
  rfl

/-- Members that are told apart stand in strict order. -/
theorem Apart.ranked {l : List α} (h : Apart cmp l) :
    (l.mergeSort (notAfter cmp)).Pairwise fun a b => cmp a b = .lt := by
  have hapart := h.perm (List.mergeSort_perm l (notAfter cmp)).symm
  refine (pairwise_ranked l).imp₂ (fun a b hle hne => ?_) hapart
  rw [notAfter_iff] at hle
  cases hcmp : cmp a b with
  | lt => rfl
  | eq => exact absurd hcmp hne
  | gt =>
    rw [hcmp] at hle
    cases hle

/-- The members decide the ranked list. -/
theorem Apart.ranked_eq {l l' : List α} (h : Apart cmp l) (hperm : l.Perm l') :
    l.mergeSort (notAfter cmp) = l'.mergeSort (notAfter cmp) := by
  refine List.Perm.eq_of_pairwise ?_ h.ranked (h.perm hperm).ranked
    ((List.mergeSort_perm l _).trans (hperm.trans (List.mergeSort_perm l' _).symm))
  intro a b _ _ hab hba
  rw [@Std.OrientedCmp.eq_swap α cmp _ a b, hba] at hab
  cases hab

end Trans

/-- What is cut off comes after everything that is kept, and the list is full. -/
theorem cut_after {l : List α} {n : Nat} (hl : l.Pairwise fun a b => cmp a b = .lt) {x : α}
    (hx : x ∈ l) (hcut : x ∉ l.take n) :
    (l.take n).length = n ∧ ∀ y ∈ l.take n, cmp y x = .lt := by
  have hdrop : x ∈ l.drop n := by
    rw [← List.take_append_drop n l, List.mem_append] at hx
    exact hx.resolve_left hcut
  constructor
  · rw [List.length_take]
    have := List.length_pos_of_mem hdrop
    rw [List.length_drop] at this
    omega
  · intro y hy
    rw [← List.take_append_drop n l] at hl
    exact (List.pairwise_append.mp hl).2.2 y hy x hdrop

end LocalSearch.Lib
