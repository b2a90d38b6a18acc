import Mathlib.Logic.Function.Basic
import Mathlib.Data.List.Nodup

/-!
# Lists with a key

A list read as a map from the keys of its elements: what a lookup finds after
elements are removed by key and appended.
-/
namespace LocalSearch.Lib

set_option autoImplicit false

variable {α κ : Type} [DecidableEq κ]

/-- The first element with the key. -/
def lookup (key : α → κ) (l : List α) (k : κ) : Option α := l.find? fun a => key a = k

/-- The list without the elements that have the key. -/
def remove (key : α → κ) (l : List α) (k : κ) : List α := l.filter fun a => key a ≠ k

variable {key : α → κ} {l : List α}

theorem lookup_remove (l : List α) (k : κ) :
    lookup key (remove key l k) = Function.update (lookup key l) k none := by
  funext k'
  rw [lookup, remove, List.find?_filter]
  by_cases hk : k' = k
  · subst hk
    rw [Function.update_self, List.find?_eq_none]
    intro a _
    simp
  · rw [Function.update_of_ne hk, lookup]
    congr 1
    funext a
    by_cases ha : key a = k'
    · simp [ha, hk]
    · simp [ha]

theorem lookup_concat {a : α} (h : lookup key l (key a) = none) :
    lookup key (l ++ [a]) = Function.update (lookup key l) (key a) (some a) := by
  funext k
  rw [lookup, List.find?_append]
  by_cases hk : k = key a
  · subst hk
    rw [Function.update_self, ← lookup, h]
    simp
  · rw [Function.update_of_ne hk, ← lookup]
    cases lookup key l k with
    | some found => rfl
    | none => simp [Ne.symm hk]

/-- An element that takes the place of those with its key. -/
theorem lookup_replace (l : List α) (a : α) :
    lookup key (remove key l (key a) ++ [a]) = Function.update (lookup key l) (key a) (some a) := by
  rw [lookup_concat (by rw [lookup_remove, Function.update_self]), lookup_remove,
    Function.update_idem]

theorem lookup_eq_none {k : κ} : lookup key l k = none ↔ ∀ a ∈ l, key a ≠ k := by
  simp [lookup]

theorem lookup_eq_some {k : κ} {a : α} (h : lookup key l k = some a) : a ∈ l ∧ key a = k :=
  ⟨List.mem_of_find?_eq_some h, by simpa using List.find?_some h⟩

theorem lookup_of_mem (hunique : (l.map key).Nodup) {a : α} (h : a ∈ l) :
    lookup key l (key a) = some a := by
  induction l with
  | nil => cases h
  | cons head rest ih =>
    obtain ⟨hhead, hrest⟩ := List.nodup_cons.mp hunique
    rcases List.mem_cons.mp h with rfl | hmem
    · simp [lookup]
    · have hne : key head ≠ key a := fun he => hhead (List.mem_map.mpr ⟨a, hmem, he.symm⟩)
      rw [lookup, List.find?_cons_of_neg (by simpa using hne)]
      exact ih hrest hmem

theorem nodup_remove (h : (l.map key).Nodup) (k : κ) : ((remove key l k).map key).Nodup :=
  h.sublist (List.filter_sublist.map _)

theorem nodup_concat {a : α} (h : (l.map key).Nodup) (ha : lookup key l (key a) = none) :
    ((l ++ [a]).map key).Nodup := by
  rw [List.map_append, List.map_singleton, List.nodup_append]
  refine ⟨h, List.nodup_singleton _, fun k hk k' hk' he => ?_⟩
  obtain ⟨b, hb, rfl⟩ := List.mem_map.mp hk
  exact lookup_eq_none.mp ha b hb (he.trans (List.mem_singleton.mp hk'))

theorem nodup_replace {a : α} (h : (l.map key).Nodup) :
    ((remove key l (key a) ++ [a]).map key).Nodup :=
  nodup_concat (nodup_remove h _) (by rw [lookup_remove, Function.update_self])

/-- A count is that of a narrower test and that of what it leaves. -/
theorem countP_split {p q : α → Bool} (h : ∀ a, p a = true → q a = true) (l : List α) :
    l.countP q = l.countP p + l.countP fun a => !p a && q a := by
  induction l with
  | nil => rfl
  | cons a rest ih =>
    rw [List.countP_cons, List.countP_cons, List.countP_cons, ih]
    cases hp : p a with
    | true =>
      rw [h a hp]
      simp
      omega
    | false =>
      simp
      omega

theorem remove_eq_self {k : κ} (h : lookup key l k = none) : remove key l k = l :=
  List.filter_eq_self.mpr fun a ha => decide_eq_true (lookup_eq_none.mp h a ha)

/-- Removing a key that is there takes one element away from a count that sees it. -/
theorem countP_remove_of_mem (q : κ → Bool) (hunique : (l.map key).Nodup) {k : κ}
    (h : (lookup key l k).isSome) (hq : q k = true) :
    (remove key l k).countP (fun a => q (key a)) + 1 = l.countP fun a => q (key a) := by
  induction l with
  | nil => cases h
  | cons head rest ih =>
    obtain ⟨hhead, hrest⟩ := List.nodup_cons.mp hunique
    by_cases hk : key head = k
    · have hnone : lookup key rest k = none :=
        lookup_eq_none.mpr fun a ha heq => hhead (List.mem_map.mpr ⟨a, ha, heq.trans hk.symm⟩)
      have hremove : remove key (head :: rest) k = rest := by
        rw [remove, List.filter_cons_of_neg (by simpa using hk)]
        exact remove_eq_self hnone
      rw [hremove, List.countP_cons_of_pos (by rw [hk]; exact hq)]
    · have hremove : remove key (head :: rest) k = head :: remove key rest k :=
        List.filter_cons_of_pos (by simpa using hk)
      have hlookup : lookup key (head :: rest) k = lookup key rest k :=
        List.find?_cons_of_neg (by simpa using hk)
      have hone := ih hrest (hlookup ▸ h)
      rw [hremove, List.countP_cons, List.countP_cons]
      omega

theorem countP_remove_of_neg (q : κ → Bool) (l : List α) {k : κ} (hq : q k = false) :
    (remove key l k).countP (fun a => q (key a)) = l.countP fun a => q (key a) := by
  rw [remove, List.countP_filter]
  refine List.countP_congr fun a _ => ?_
  by_cases hk : key a = k
  · simp [hk, hq]
  · simp [hk]

end LocalSearch.Lib
