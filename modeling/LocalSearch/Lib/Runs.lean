import Mathlib.Data.List.Infix

/-!
# Runs and windows of a list

A list is cut into its longest runs of accepted elements, and into its windows of
one width. Joining pieces with a rejected element keeps their runs apart, and
the windows of an infix stay next to each other.
-/
namespace LocalSearch.Lib

set_option autoImplicit false

variable {α : Type} {p : α → Bool}

/-- The nonempty runs of accepted elements, in order. -/
def runs (p : α → Bool) (l : List α) : List (List α) :=
  (l.splitOnP fun a => !p a).filter fun run => !run.isEmpty

@[simp] theorem runs_nil : runs p [] = [] := rfl

theorem runs_all {l : List α} (h : ∀ a ∈ l, p a = true) (hne : l ≠ []) : runs p l = [l] := by
  have hsplit : l.splitOnP (fun a => !p a) = [l] :=
    List.splitOnP_eq_singleton fun a ha => by simp [h a ha]
  rw [runs, hsplit]
  simpa using hne

theorem runs_append_cons (a b : List α) {s : α} (hs : p s = false) :
    runs p (a ++ s :: b) = runs p a ++ runs p b := by
  rw [runs, List.splitOnP_append_cons a b (by simp [hs]), List.filter_append]
  rfl

/-- A list is accepted throughout, or has a first rejected element. -/
theorem all_or_first (p : α → Bool) (l : List α) :
    (∀ a ∈ l, p a = true) ∨ ∃ a s b, l = a ++ s :: b ∧ (∀ x ∈ a, p x = true) ∧ p s = false := by
  induction l with
  | nil => exact .inl fun a h => (nomatch h)
  | cons x l ih =>
    cases hx : p x with
    | false => exact .inr ⟨[], x, l, rfl, fun a h => (nomatch h), hx⟩
    | true =>
      rcases ih with hall | ⟨a, s, b, rfl, ha, hs⟩
      · exact .inl (List.forall_mem_cons.mpr ⟨hx, hall⟩)
      · exact .inr ⟨x :: a, s, b, rfl, List.forall_mem_cons.mpr ⟨hx, ha⟩, hs⟩

/-- Induction along the rejected elements. -/
theorem runs_induct {motive : List α → Prop} (hall : ∀ l, (∀ a ∈ l, p a = true) → motive l)
    (hstep : ∀ a s b, (∀ x ∈ a, p x = true) → p s = false → motive b → motive (a ++ s :: b))
    (l : List α) : motive l := by
  induction hn : l.length using Nat.strong_induction_on generalizing l with
  | _ n ih =>
    rcases all_or_first p l with h | ⟨a, s, b, rfl, ha, hs⟩
    · exact hall l h
    · refine hstep a s b ha hs (ih b.length ?_ b rfl)
      rw [← hn, List.length_append, List.length_cons]
      omega

theorem runs_of_all {l : List α} (h : ∀ a ∈ l, p a = true) :
    runs p l = if l = [] then [] else [l] := by
  split
  · next hnil => rw [hnil, runs_nil]
  · next hne => exact runs_all h hne

theorem mem_runs {l run : List α} (h : run ∈ runs p l) :
    run ≠ [] ∧ (∀ a ∈ run, p a = true) ∧ run <:+: l := by
  induction l using runs_induct (p := p) with
  | hall l hl =>
    rw [runs_of_all hl] at h
    split at h
    · cases h
    · next hne =>
      obtain rfl := List.mem_singleton.mp h
      exact ⟨hne, hl, List.infix_rfl⟩
  | hstep a s b ha hs ih =>
    rw [runs_append_cons a b hs, List.mem_append] at h
    rcases h with h | h
    · rw [runs_of_all ha] at h
      split at h
      · cases h
      · next hne =>
        obtain rfl := List.mem_singleton.mp h
        exact ⟨hne, ha, (List.prefix_append _ _).isInfix⟩
    · obtain ⟨hne, hall, hwithin⟩ := ih h
      refine ⟨hne, hall, hwithin.trans ?_⟩
      exact ((List.suffix_cons s b).trans (List.suffix_append a (s :: b))).isInfix

/-- An accepted beginning lies within the first run. -/
theorem exists_run_of_prefix {q l : List α} (hq : ∀ a ∈ q, p a = true) (hne : q ≠ [])
    (h : q <+: l) : ∃ run ∈ runs p l, q <+: run := by
  obtain ⟨rest, rfl⟩ := h
  rcases all_or_first p rest with hrest | ⟨a, s, b, rfl, ha, hs⟩
  · refine ⟨q ++ rest, ?_, List.prefix_append _ _⟩
    rw [runs_all (List.forall_mem_append.mpr ⟨hq, hrest⟩) (by simp [hne])]
    exact List.mem_singleton.mpr rfl
  · refine ⟨q ++ a, ?_, List.prefix_append _ _⟩
    rw [← List.append_assoc, runs_append_cons (q ++ a) b hs,
      runs_all (List.forall_mem_append.mpr ⟨hq, ha⟩) (by simp [hne])]
    exact List.mem_append_left _ (List.mem_singleton.mpr rfl)

/-- Pieces joined by a rejected element keep their runs. -/
theorem runs_intercalate {s : α} (hs : p s = false) (pieces : List (List α)) :
    runs p ([s].intercalate pieces) = pieces.flatMap (runs p) := by
  induction pieces with
  | nil => rfl
  | cons piece rest ih =>
    cases rest with
    | nil => simp
    | cons next rest =>
      rw [List.intercalate_cons_cons, List.flatMap_cons, ← ih, List.append_assoc,
        List.singleton_append, runs_append_cons _ _ hs]

/-- All infixes of one width, in order. -/
def windows (n : Nat) : List α → List (List α)
  | [] => []
  | a :: l => if n ≤ l.length + 1 then (a :: l).take n :: windows n l else []

variable {n : Nat}

theorem windows_short {l : List α} (h : l.length < n) : windows n l = [] := by
  cases l with
  | nil => rfl
  | cons a l => exact if_neg (by simpa using h)

theorem mem_windows {l w : List α} (h : w ∈ windows n l) : w <:+: l ∧ w.length = n := by
  induction l with
  | nil => cases h
  | cons a l ih =>
    rw [windows] at h
    split at h
    · next hle =>
      rcases List.mem_cons.mp h with rfl | h
      · refine ⟨(List.take_prefix _ _).isInfix, ?_⟩
        rw [List.length_take, List.length_cons]
        omega
      · obtain ⟨hwithin, hlength⟩ := ih h
        exact ⟨hwithin.trans (List.suffix_cons a l).isInfix, hlength⟩
    · cases h

theorem windows_ne_nil {l : List α} (hn : 0 < n) (h : n ≤ l.length) : windows n l ≠ [] := by
  cases l with
  | nil => simp at h; omega
  | cons a l =>
    rw [windows, if_pos (by simpa using h)]
    exact List.cons_ne_nil _ _

/-- No element of a list that is wide enough is missed. -/
theorem exists_window {l : List α} (hn : 0 < n) (h : n ≤ l.length) {x : α} (hx : x ∈ l) :
    ∃ w ∈ windows n l, x ∈ w := by
  induction l with
  | nil => cases hx
  | cons a l ih =>
    rw [windows, if_pos (by simpa using h)]
    by_cases hle : n ≤ l.length
    · rcases List.mem_cons.mp hx with rfl | hx
      · refine ⟨_, List.mem_cons_self, ?_⟩
        obtain ⟨m, rfl⟩ : ∃ m, n = m + 1 := ⟨n - 1, by omega⟩
        exact List.mem_cons_self
      · obtain ⟨w, hw, hxw⟩ := ih hle hx
        exact ⟨w, List.mem_cons_of_mem _ hw, hxw⟩
    · refine ⟨_, List.mem_cons_self, ?_⟩
      rw [List.take_of_length_le (by rw [List.length_cons]; omega)]
      exact hx

theorem windows_append_left (a l : List α) : windows n l <:+ windows n (a ++ l) := by
  induction a with
  | nil => exact List.suffix_rfl
  | cons x a ih =>
    rw [List.cons_append, windows]
    split
    · exact ih.trans (List.suffix_cons _ _)
    · next hshort =>
      rw [windows_short (by rw [List.length_append] at hshort; omega)]

theorem windows_append_right (l b : List α) : windows n l <+: windows n (l ++ b) := by
  induction l with
  | nil => exact List.nil_prefix
  | cons x l ih =>
    rw [List.cons_append, windows, windows, List.length_append]
    split
    · next hle =>
      rw [if_pos (by omega)]
      have htake : (x :: (l ++ b)).take n = (x :: l).take n := by
        rw [← List.cons_append, List.take_append_of_le_length (by simpa using hle)]
      rw [htake]
      exact (List.prefix_cons_inj _).mpr ih
    · exact List.nil_prefix

/-- The windows of an infix stand together among the windows of the whole. -/
theorem windows_infix {q l : List α} (h : q <:+: l) : windows n q <:+: windows n l := by
  obtain ⟨a, b, rfl⟩ := h
  exact ((windows_append_left a q).isInfix).trans (windows_append_right (a ++ q) b).isInfix

theorem windows_of_le {a : α} {l : List α} (h : n ≤ l.length + 1) :
    windows n (a :: l) = (a :: l).take n :: windows n l := if_pos h

/-- Windows that begin alike come from lists that begin alike. -/
theorem prefix_of_windows {q l : List α} (hn : 0 < n) (hwide : n ≤ q.length)
    (h : windows n q <+: windows n l) : q <+: l := by
  induction q generalizing l with
  | nil =>
    rw [List.length_nil] at hwide
    omega
  | cons x q ih =>
    rw [List.length_cons] at hwide
    rw [windows_of_le hwide] at h
    cases l with
    | nil => exact absurd (List.prefix_nil.mp h) (List.cons_ne_nil _ _)
    | cons a l =>
      by_cases hle : n ≤ l.length + 1
      · rw [windows_of_le hle, List.cons_prefix_cons] at h
        obtain ⟨htake, hrest⟩ := h
        by_cases hlonger : n ≤ q.length
        · obtain ⟨m, rfl⟩ : ∃ m, n = m + 1 := ⟨n - 1, by omega⟩
          obtain ⟨rfl, -⟩ := List.cons.inj htake
          exact List.cons_prefix_cons.mpr ⟨rfl, ih hlonger hrest⟩
        · -- the list is the only window there is
          rw [List.take_of_length_le (by rw [List.length_cons]; omega)] at htake
          exact htake ▸ List.take_prefix _ _
      · have hnone : windows n (a :: l) = [] := windows_short (by rw [List.length_cons]; omega)
        rw [hnone] at h
        exact absurd (List.prefix_nil.mp h) (List.cons_ne_nil _ _)

/-- Windows that stand together come from an infix. -/
theorem infix_of_windows {q l : List α} (hn : 0 < n) (hwide : n ≤ q.length)
    (h : windows n q <:+: windows n l) : q <:+: l := by
  induction l with
  | nil => exact absurd (List.infix_nil.mp h) (windows_ne_nil hn hwide)
  | cons a l ih =>
    by_cases hle : n ≤ l.length + 1
    · rw [windows_of_le hle, List.infix_cons_iff, ← windows_of_le hle] at h
      rcases h with hbegins | hlater
      · exact (prefix_of_windows hn hwide hbegins).isInfix
      · exact (ih hlater).trans (List.suffix_cons a l).isInfix
    · have hnone : windows n (a :: l) = [] := windows_short (by rw [List.length_cons]; omega)
      rw [hnone] at h
      exact absurd (List.infix_nil.mp h) (windows_ne_nil hn hwide)

end LocalSearch.Lib
