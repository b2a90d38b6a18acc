import Mathlib.Data.List.DropRight
import Mathlib.Data.List.Infix

/-!
# Lists without near repetitions

A list is spaced when no element occurs again among the next `n`. That is what
a window over the last `n` elements can tell apart. For counters that start
over at one, the blocks between restarts have to be longer than the window.
-/
namespace LocalSearch.Lib

set_option autoImplicit false

variable {α : Type}

/-- No element occurs again within `n` places. -/
def Spaced (n : Nat) (xs : List α) : Prop :=
  ∀ i j x, i < j → j ≤ i + n → xs[i]? = some x → xs[j]? ≠ some x

theorem spaced_nil (n : Nat) : Spaced n ([] : List α) := by
  intro i j x _ _ hi
  simp at hi

theorem mem_rtake {n : Nat} {xs : List α} {x : α} :
    x ∈ xs.rtake n ↔ ∃ i, xs.length ≤ i + n ∧ xs[i]? = some x := by
  rw [List.rtake, List.mem_iff_getElem?]
  constructor
  · rintro ⟨i, hi⟩
    rw [List.getElem?_drop] at hi
    exact ⟨_, by omega, hi⟩
  · rintro ⟨i, hle, hi⟩
    refine ⟨i - (xs.length - n), ?_⟩
    rw [List.getElem?_drop]
    have hlt := (List.getElem?_eq_some_iff.mp hi).1
    rw [← hi]
    congr 1
    omega

theorem Spaced.left {n : Nat} {xs ys : List α} (h : Spaced n (xs ++ ys)) : Spaced n xs := by
  intro i j x hij hn hi hj
  have hilt := (List.getElem?_eq_some_iff.mp hi).1
  have hjlt := (List.getElem?_eq_some_iff.mp hj).1
  refine h i j x hij hn ?_ ?_
  · rw [List.getElem?_append_left hilt, hi]
  · rw [List.getElem?_append_left hjlt, hj]

/-- A list grows spaced by an element that is not among the last `n`. -/
theorem spaced_concat {n : Nat} {xs : List α} {x : α} :
    Spaced n (xs ++ [x]) ↔ Spaced n xs ∧ x ∉ xs.rtake n := by
  constructor
  · intro h
    refine ⟨h.left, fun hx => ?_⟩
    obtain ⟨i, hle, hi⟩ := mem_rtake.mp hx
    have hilt := (List.getElem?_eq_some_iff.mp hi).1
    refine h i xs.length x hilt hle ?_ List.getElem?_concat_length
    rw [List.getElem?_append_left hilt, hi]
  · rintro ⟨h, hx⟩ i j y hij hn hi hj
    have hjlt : j < (xs ++ [x]).length := (List.getElem?_eq_some_iff.mp hj).1
    rw [List.length_append, List.length_singleton] at hjlt
    have hilt : i < xs.length := by omega
    rw [List.getElem?_append_left hilt] at hi
    by_cases hlast : j = xs.length
    · subst hlast
      rw [List.getElem?_concat_length] at hj
      obtain rfl := Option.some.inj hj
      exact hx (mem_rtake.mpr ⟨i, hn, hi⟩)
    · rw [List.getElem?_append_left (by omega)] at hj
      exact h i j y hij hn hi hj

/-- The numbers of counters that each count from one. -/
def countings (lengths : List Nat) : List Nat :=
  lengths.flatMap (List.range' 1)

theorem countings_cons (k : Nat) (lengths : List Nat) :
    countings (k :: lengths) = List.range' 1 k ++ countings lengths := rfl

/-- A counter is at most one ahead of its place in the list. -/
theorem countings_le {lengths : List Nat} {i x : Nat} (h : (countings lengths)[i]? = some x) :
    x ≤ i + 1 := by
  induction lengths generalizing i with
  | nil => simp [countings] at h
  | cons k lengths ih =>
    rw [countings_cons, List.getElem?_append] at h
    split_ifs at h with hi
    · rw [List.getElem?_range' (by simpa using hi)] at h
      have := Option.some.inj h
      omega
    · have := ih h
      omega

theorem countings_head {lengths : List Nat} (hne : lengths ≠ []) (hpos : ∀ k ∈ lengths, 0 < k) :
    (countings lengths)[0]? = some 1 := by
  obtain ⟨k, rest, rfl⟩ := List.exists_cons_of_ne_nil hne
  have hk := hpos k List.mem_cons_self
  rw [countings_cons, List.getElem?_append_left (by simpa using hk), List.getElem?_range' hk]

/-- One more counter in front: it has to outlast the window. -/
theorem spaced_countings_cons {n k : Nat} {lengths : List Nat} (hk : 0 < k) (hne : lengths ≠ [])
    (hpos : ∀ k ∈ lengths, 0 < k) :
    Spaced n (countings (k :: lengths)) ↔ n < k ∧ Spaced n (countings lengths) := by
  have hfirst : ∀ {i}, i < k → (countings (k :: lengths))[i]? = some (i + 1) := by
    intro i hi
    rw [countings_cons, List.getElem?_append_left (by simpa using hi), List.getElem?_range' hi]
    congr 1
    omega
  have hrest : ∀ i, (countings (k :: lengths))[k + i]? = (countings lengths)[i]? := by
    intro i
    rw [countings_cons, List.getElem?_append_right (by simp)]
    simp
  constructor
  · intro h
    constructor
    · by_contra hle
      have hagain : (countings (k :: lengths))[k]? = some 1 :=
        (hrest 0).trans (countings_head hne hpos)
      exact h 0 k 1 hk (by omega) (hfirst hk) hagain
    · intro i j x hij hn hi hj
      rw [← hrest] at hi hj
      exact h (k + i) (k + j) x (by omega) (by omega) hi hj
  · rintro ⟨hlt, h⟩ i j x hij hn hi hj
    by_cases hik : i < k
    · obtain rfl : i + 1 = x := Option.some.inj ((hfirst hik).symm.trans hi)
      by_cases hjk : j < k
      · have := Option.some.inj ((hfirst hjk).symm.trans hj)
        omega
      · obtain ⟨m, rfl⟩ := Nat.exists_eq_add_of_le (not_lt.mp hjk)
        rw [hrest] at hj
        have := countings_le hj
        omega
    · obtain ⟨m, rfl⟩ := Nat.exists_eq_add_of_le (not_lt.mp hik)
      obtain ⟨m', rfl⟩ := Nat.exists_eq_add_of_le (show k ≤ j by omega)
      rw [hrest] at hi hj
      exact h m m' x (by omega) (by omega) hi hj

/-- Restarting counters repeat no number within `n` places exactly when every
counter but the last counts past `n`. -/
theorem spaced_countings {n : Nat} {lengths : List Nat} (hpos : ∀ k ∈ lengths, 0 < k) :
    Spaced n (countings lengths) ↔ ∀ k ∈ lengths.dropLast, n < k := by
  induction lengths with
  | nil => simp [countings, spaced_nil]
  | cons k rest ih =>
    have hrest : ∀ m ∈ rest, 0 < m := fun m hm => hpos m (List.mem_cons_of_mem _ hm)
    cases rest with
    | nil =>
      simp only [List.dropLast_singleton, List.not_mem_nil, false_imp_iff, implies_true, iff_true]
      intro i j x hij _ hi hj
      simp only [countings, List.flatMap_cons, List.flatMap_nil, List.append_nil,
        List.getElem?_eq_some_iff, List.getElem_range'] at hi hj
      obtain ⟨-, hi⟩ := hi
      obtain ⟨-, hj⟩ := hj
      omega
    | cons m rest =>
      rw [spaced_countings_cons (hpos k List.mem_cons_self) (by simp) hrest, ih hrest]
      simp

end LocalSearch.Lib
