import Mathlib.Data.List.Perm.Subperm
import Mathlib.Order.Lattice
import Mathlib.Algebra.GroupWithZero.Nat
import Mathlib.Data.List.Pairwise
import Mathlib.Data.List.Basic

/-!
# Keyed tables in primary-key order

A table holds its rows strictly ascending by key, so a key occurs at most once
and a scan in storage order is a scan in key order. Lookups decide the table:
two tables with equal lookups are equal. Bounded scans behind an exclusive
cursor are the unit every paged query below is built from.
-/
namespace LocalSearch.Lib

set_option autoImplicit false

/-- Rows strictly ascending by key. -/
structure Table (κ ρ : Type) [LinearOrder κ] where
  rows : List (κ × ρ)
  sorted : rows.Pairwise fun a b => a.1 < b.1

namespace Table

variable {κ ρ : Type} [LinearOrder κ]

instance [DecidableEq ρ] : DecidableEq (Table κ ρ) := fun s t =>
  decidable_of_iff (s.rows = t.rows) ⟨fun h => by cases s; cases t; cases h; rfl, fun h => h ▸ rfl⟩

def empty : Table κ ρ := ⟨[], List.Pairwise.nil⟩

/-- First row with the given key, in storage order. -/
def lookupRows (k : κ) : List (κ × ρ) → Option ρ
  | [] => none
  | (k', r) :: rest => if k = k' then some r else lookupRows k rest

def get (t : Table κ ρ) (k : κ) : Option ρ := lookupRows k t.rows

/-- Replace the row at `k`, or place it before the first larger key. -/
def insertRows (k : κ) (r : ρ) : List (κ × ρ) → List (κ × ρ)
  | [] => [(k, r)]
  | (k', r') :: rest =>
      if k < k' then (k, r) :: (k', r') :: rest
      else if k = k' then (k, r) :: rest
      else (k', r') :: insertRows k r rest

theorem mem_insertRows {k : κ} {r : ρ} {l : List (κ × ρ)} {x : κ × ρ}
    (h : x ∈ insertRows k r l) : x = (k, r) ∨ x ∈ l := by
  induction l with
  | nil => exact Or.inl (List.mem_singleton.mp h)
  | cons y rest ih =>
    obtain ⟨k', r'⟩ := y
    simp only [insertRows] at h
    split_ifs at h with hlt heq
    · exact List.mem_cons.mp h
    · rcases List.mem_cons.mp h with h | h
      · exact Or.inl h
      · exact Or.inr (List.mem_cons_of_mem _ h)
    · rcases List.mem_cons.mp h with h | h
      · exact Or.inr (h ▸ List.mem_cons_self)
      · exact (ih h).imp id (List.mem_cons_of_mem _)

theorem insertRows_sorted (k : κ) (r : ρ) {l : List (κ × ρ)}
    (h : l.Pairwise fun a b => a.1 < b.1) :
    (insertRows k r l).Pairwise fun a b => a.1 < b.1 := by
  induction l with
  | nil => exact List.pairwise_singleton _ _
  | cons y rest ih =>
    obtain ⟨k', r'⟩ := y
    obtain ⟨hy, hrest⟩ := List.pairwise_cons.mp h
    simp only [insertRows]
    split_ifs with hlt heq
    · refine List.pairwise_cons.mpr ⟨fun x hx => ?_, h⟩
      rcases List.mem_cons.mp hx with rfl | hx
      · exact hlt
      · exact hlt.trans (hy x hx)
    · exact List.pairwise_cons.mpr ⟨fun x hx => heq ▸ hy x hx, hrest⟩
    · refine List.pairwise_cons.mpr ⟨fun x hx => ?_, ih hrest⟩
      rcases mem_insertRows hx with rfl | hx
      · exact lt_of_le_of_ne (not_lt.mp hlt) (Ne.symm heq)
      · exact hy x hx

def insert (t : Table κ ρ) (k : κ) (r : ρ) : Table κ ρ :=
  ⟨insertRows k r t.rows, insertRows_sorted k r t.sorted⟩

def erase (t : Table κ ρ) (k : κ) : Table κ ρ :=
  ⟨t.rows.filter (·.1 ≠ k), t.sorted.filter _⟩

/-- Update the row at `k` when it is present. -/
def modify (t : Table κ ρ) (k : κ) (f : ρ → ρ) : Table κ ρ :=
  match t.get k with
  | none => t
  | some r => t.insert k (f r)

/-- All rows that satisfy `p`, in key order. -/
def select (t : Table κ ρ) (p : κ → ρ → Bool) : List (κ × ρ) :=
  t.rows.filter fun x => p x.1 x.2

/-- Delete every row that satisfies `p`. -/
def deleteWhere (t : Table κ ρ) (p : κ → ρ → Bool) : Table κ ρ :=
  ⟨t.rows.filter fun x => !p x.1 x.2, t.sorted.filter _⟩

/-- Largest key, when there is one. -/
def lastKey (t : Table κ ρ) : Option κ := t.rows.getLast?.map (·.1)

theorem lookupRows_insertRows (k k' : κ) (r : ρ) (l : List (κ × ρ)) :
    lookupRows k' (insertRows k r l) = if k' = k then some r else lookupRows k' l := by
  induction l with
  | nil => simp [insertRows, lookupRows]
  | cons y rest ih =>
    obtain ⟨k₁, r₁⟩ := y
    simp only [insertRows]
    split_ifs <;> simp_all [lookupRows]

theorem lookupRows_filter (k k' : κ) (l : List (κ × ρ)) :
    lookupRows k' (l.filter (·.1 ≠ k)) = if k' = k then none else lookupRows k' l := by
  induction l with
  | nil => simp [lookupRows]
  | cons y rest ih =>
    obtain ⟨k₁, r₁⟩ := y
    by_cases h₁ : k₁ = k <;> by_cases h' : k' = k₁ <;> simp_all [lookupRows]

theorem lookupRows_none {k : κ} {l : List (κ × ρ)} (h : ∀ x ∈ l, x.1 ≠ k) :
    lookupRows k l = none := by
  induction l with
  | nil => rfl
  | cons y rest ih =>
    have hy : k ≠ y.1 := (h y List.mem_cons_self).symm
    simp only [lookupRows, if_neg hy]
    exact ih fun x hx => h x (List.mem_cons_of_mem _ hx)

theorem mem_of_lookupRows {k : κ} {r : ρ} {l : List (κ × ρ)}
    (h : lookupRows k l = some r) : (k, r) ∈ l := by
  induction l with
  | nil => cases h
  | cons y rest ih =>
    obtain ⟨k', r'⟩ := y
    simp only [lookupRows] at h
    split_ifs at h with heq
    · obtain rfl := Option.some.inj h
      exact heq ▸ List.mem_cons_self
    · exact List.mem_cons_of_mem _ (ih h)

theorem lookupRows_of_mem {k : κ} {r : ρ} {l : List (κ × ρ)}
    (hs : l.Pairwise fun a b => a.1 < b.1) (h : (k, r) ∈ l) : lookupRows k l = some r := by
  induction l with
  | nil => cases h
  | cons y rest ih =>
    obtain ⟨hy, hrest⟩ := List.pairwise_cons.mp hs
    rcases List.mem_cons.mp h with rfl | h
    · simp [lookupRows]
    · have hne : k ≠ y.1 := (hy _ h).ne'
      simpa only [lookupRows, if_neg hne] using ih hrest h

@[simp] theorem get_empty (k : κ) : (empty : Table κ ρ).get k = none := rfl

@[simp] theorem get_insert (t : Table κ ρ) (k k' : κ) (r : ρ) :
    (t.insert k r).get k' = if k' = k then some r else t.get k' :=
  lookupRows_insertRows k k' r t.rows

theorem get_insert_self (t : Table κ ρ) (k : κ) (r : ρ) : (t.insert k r).get k = some r := by
  simp

theorem get_insert_ne (t : Table κ ρ) {k k' : κ} (r : ρ) (h : k' ≠ k) :
    (t.insert k r).get k' = t.get k' := by
  simp [h]

@[simp] theorem get_erase (t : Table κ ρ) (k k' : κ) :
    (t.erase k).get k' = if k' = k then none else t.get k' :=
  lookupRows_filter k k' t.rows

theorem get_modify (t : Table κ ρ) (k k' : κ) (f : ρ → ρ) :
    (t.modify k f).get k' = if k' = k then (t.get k').map f else t.get k' := by
  unfold modify
  by_cases hk : k' = k
  · subst hk
    cases h : t.get k' <;> simp [h]
  · cases h : t.get k <;> simp [hk]

/-- Rewrite every row in place. -/
def mapRows (t : Table κ ρ) (f : κ → ρ → ρ) : Table κ ρ :=
  ⟨t.rows.map fun x => (x.1, f x.1 x.2), List.pairwise_map.mpr t.sorted⟩

theorem lookupRows_map (f : κ → ρ → ρ) (k : κ) (l : List (κ × ρ)) :
    lookupRows k (l.map fun x => (x.1, f x.1 x.2)) = (lookupRows k l).map (f k) := by
  induction l with
  | nil => rfl
  | cons x rest ih =>
    obtain ⟨k', r⟩ := x
    simp only [List.map_cons, lookupRows, ih]
    by_cases hk : k = k'
    · simp [hk]
    · simp [hk]

theorem get_mapRows (t : Table κ ρ) (f : κ → ρ → ρ) (k : κ) :
    (t.mapRows f).get k = (t.get k).map (f k) :=
  lookupRows_map f k t.rows

theorem mem_rows {t : Table κ ρ} {k : κ} {r : ρ} : (k, r) ∈ t.rows ↔ t.get k = some r :=
  ⟨lookupRows_of_mem t.sorted, mem_of_lookupRows⟩

theorem mem_select {t : Table κ ρ} {p : κ → ρ → Bool} {k : κ} {r : ρ} :
    (k, r) ∈ t.select p ↔ t.get k = some r ∧ p k r = true := by
  rw [select, List.mem_filter, mem_rows]

theorem get_deleteWhere (t : Table κ ρ) (p : κ → ρ → Bool) (k : κ) (r : ρ) :
    (t.deleteWhere p).get k = some r ↔ t.get k = some r ∧ p k r = false := by
  rw [← mem_rows, deleteWhere, List.mem_filter, mem_rows]
  simp

/-- Lookups determine the table. -/
theorem get_eq_of_select {s t : Table κ ρ} {q : κ → Bool}
    (h : (s.select fun k _ => q k) = t.select fun k _ => q k) {k : κ} (hk : q k = true) :
    s.get k = t.get k := by
  refine Option.ext fun r => ?_
  have hiff : (k, r) ∈ (s.select fun k _ => q k) ↔ (k, r) ∈ t.select fun k _ => q k := by rw [h]
  simpa [mem_select, hk] using hiff

theorem ext_get {s t : Table κ ρ} (h : ∀ k, s.get k = t.get k) : s = t := by
  have hrows : s.rows = t.rows := by
    have hs := s.sorted
    have ht := t.sorted
    have hmem : ∀ x, x ∈ s.rows ↔ x ∈ t.rows := fun ⟨k, r⟩ => by rw [mem_rows, mem_rows, h k]
    have hnodup : ∀ {l : List (κ × ρ)}, l.Pairwise (fun a b => a.1 < b.1) → l.Nodup :=
      fun hl => hl.imp fun hlt he => absurd (he ▸ hlt) (lt_irrefl _)
    have hperm := (List.perm_ext_iff_of_nodup (hnodup hs) (hnodup ht)).mpr hmem
    exact hperm.eq_of_pairwise (fun _ _ _ _ hab hba => absurd hba (lt_asymm hab)) hs ht
  cases s; cases t; cases hrows; rfl

/-- A key past the last one is appended. -/
theorem insertRows_of_gt {k : κ} {r : ρ} {l : List (κ × ρ)} (h : ∀ x ∈ l, x.1 < k) :
    insertRows k r l = l ++ [(k, r)] := by
  induction l with
  | nil => rfl
  | cons x l ih =>
    have hx : x.1 < k := h x List.mem_cons_self
    rw [insertRows, if_neg (not_lt.mpr hx.le), if_neg hx.ne', ih fun y hy => h y (List.mem_cons_of_mem _ hy)]
    rfl

theorem modify_eq_insert {t : Table κ ρ} {k : κ} {r : ρ} (h : t.get k = some r) (f : ρ → ρ) :
    t.modify k f = t.insert k (f r) := by
  refine ext_get fun k' => ?_
  rw [get_modify, get_insert]
  split_ifs with hk
  · rw [hk, h]
    rfl
  · rfl

theorem insert_insert (t : Table κ ρ) (k : κ) (r r' : ρ) :
    (t.insert k r).insert k r' = t.insert k r' := by
  refine ext_get fun k' => ?_
  simp only [get_insert]
  split_ifs <;> rfl

theorem erase_insert (t : Table κ ρ) (k : κ) (r : ρ) : (t.insert k r).erase k = t.erase k := by
  refine ext_get fun k' => ?_
  simp only [get_erase, get_insert]
  split_ifs <;> rfl

theorem select_mapRows (t : Table κ ρ) (f : κ → ρ → ρ) (p : κ → ρ → Bool) :
    (t.mapRows f).select p = (t.select fun k r => p k (f k r)).map fun x => (x.1, f x.1 x.2) := by
  rw [select, mapRows, List.filter_map]
  rfl

theorem mapRows_insert (t : Table κ ρ) (f : κ → ρ → ρ) (k : κ) (r : ρ) :
    (t.insert k r).mapRows f = (t.mapRows f).insert k (f k r) := by
  refine ext_get fun k' => ?_
  simp only [get_mapRows, get_insert]
  split_ifs with hk
  · rw [hk]
    rfl
  · rfl

theorem mapRows_erase (t : Table κ ρ) (f : κ → ρ → ρ) (k : κ) :
    (t.erase k).mapRows f = (t.mapRows f).erase k := by
  refine ext_get fun k' => ?_
  simp only [get_mapRows, get_erase]
  split_ifs <;> rfl

theorem select_sorted (t : Table κ ρ) (p : κ → ρ → Bool) :
    (t.select p).Pairwise fun a b => a.1 < b.1 := t.sorted.filter _

/-- The rows past a later key are the end of those past an earlier one. -/
theorem select_after_split (t : Table κ ρ) {low high : κ} (h : low ≤ high) :
    ∃ early, t.select (fun k _ => decide (low < k)) =
      early ++ t.select (fun k _ => decide (high < k)) := by
  obtain ⟨rows, hsorted⟩ := t
  induction rows with
  | nil => exact ⟨[], rfl⟩
  | cons x rest ih =>
    obtain ⟨hx, hrest⟩ := List.pairwise_cons.mp hsorted
    obtain ⟨early, hearly⟩ := ih hrest
    simp only [select] at hearly ⊢
    by_cases hhigh : high < x.1
    · -- everything from here on is past both
      have hall : ∀ y ∈ x :: rest, high < y.1 := fun y hy => by
        rcases List.mem_cons.mp hy with rfl | hy
        · exact hhigh
        · exact hhigh.trans (hx y hy)
      refine ⟨[], ?_⟩
      rw [List.nil_append, List.filter_eq_self.mpr fun y hy => decide_eq_true (hall y hy),
        List.filter_eq_self.mpr fun y hy => decide_eq_true (h.trans_lt (hall y hy))]
    · have hskip : (x :: rest).filter (fun y => decide (high < y.1)) =
          rest.filter fun y => decide (high < y.1) := List.filter_cons_of_neg (by simpa using hhigh)
      rw [hskip]
      by_cases hlow : low < x.1
      · rw [List.filter_cons_of_pos (by simpa using hlow), hearly]
        exact ⟨x :: early, rfl⟩
      · rw [List.filter_cons_of_neg (by simpa using hlow)]
        exact ⟨early, hearly⟩

theorem le_lastKey {t : Table κ ρ} {k : κ} {r : ρ} (h : t.get k = some r) :
    ∃ m, t.lastKey = some m ∧ k ≤ m := by
  have hmem := mem_rows.mpr h
  have hne : t.rows ≠ [] := List.ne_nil_of_mem hmem
  refine ⟨(t.rows.getLast hne).1, by rw [lastKey, List.getLast?_eq_some_getLast hne]; rfl, ?_⟩
  have hs := t.sorted
  rw [← List.dropLast_append_getLast hne] at hs hmem
  rcases List.mem_append.mp hmem with hmem | hmem
  · exact ((List.pairwise_append.mp hs).2.2 _ hmem _ (List.mem_singleton.mpr rfl)).le
  · exact (congrArg Prod.fst (List.mem_singleton.mp hmem)).le

/-- Keys of selected rows are distinct. -/
theorem select_keys_nodup (t : Table κ ρ) (p : κ → ρ → Bool) : ((t.select p).map (·.1)).Nodup :=
  List.pairwise_map.mpr ((select_sorted t p).imp fun hlt he => absurd he hlt.ne)

theorem mem_select_keys {t : Table κ ρ} {p : κ → ρ → Bool} {k : κ} :
    k ∈ (t.select p).map (·.1) ↔ ∃ r, t.get k = some r ∧ p k r = true := by
  rw [List.mem_map]
  constructor
  · rintro ⟨⟨k', r⟩, hmem, rfl⟩
    exact ⟨r, mem_select.mp hmem⟩
  · rintro ⟨r, hr⟩
    exact ⟨(k, r), mem_select.mpr hr, rfl⟩

/-- A selection of fewer keys is not longer. -/
theorem select_length_le {s t : Table κ ρ} {p q : κ → ρ → Bool}
    (h : ∀ k r, s.get k = some r → p k r = true → ∃ r', t.get k = some r' ∧ q k r' = true) :
    (s.select p).length ≤ (t.select q).length := by
  have hsub : (s.select p).map (·.1) ⊆ (t.select q).map (·.1) := by
    intro k hk
    obtain ⟨r, hr, hp⟩ := mem_select_keys.mp hk
    exact mem_select_keys.mpr (h k r hr hp)
  simpa using (List.subperm_of_subset (select_keys_nodup s _) hsub).length_le

/-- A selection that misses a key of another is shorter. -/
theorem select_length_lt {s t : Table κ ρ} {p q : κ → ρ → Bool}
    (h : ∀ k r, s.get k = some r → p k r = true → ∃ r', t.get k = some r' ∧ q k r' = true)
    {k : κ} {r : ρ} (hk : t.get k = some r) (hq : q k r = true)
    (hp : ∀ r', s.get k = some r' → p k r' = false) :
    (s.select p).length < (t.select q).length := by
  have hnew : k ∉ (s.select p).map (·.1) := fun hmem => by
    obtain ⟨r', hr', hp'⟩ := mem_select_keys.mp hmem
    rw [hp r' hr'] at hp'
    cases hp'
  have hsub : k :: (s.select p).map (·.1) ⊆ (t.select q).map (·.1) := by
    intro k' hk'
    rcases List.mem_cons.mp hk' with rfl | hk'
    · exact mem_select_keys.mpr ⟨r, hk, hq⟩
    · obtain ⟨r', hr', hp'⟩ := mem_select_keys.mp hk'
      exact mem_select_keys.mpr (h k' r' hr' hp')
  have hlen := (List.subperm_of_subset
    (List.nodup_cons.mpr ⟨hnew, select_keys_nodup s _⟩) hsub).length_le
  simp only [List.length_cons, List.length_map] at hlen
  exact hlen

/-- Replacing a row moves a sum over the rows by the difference. -/
theorem sum_insertRows {k : κ} {r r' : ρ} {l : List (κ × ρ)} (f : ρ → Nat)
    (h : lookupRows k l = some r) (hs : l.Pairwise fun a b => a.1 < b.1) :
    ((insertRows k r' l).map fun x => f x.2).sum + f r = (l.map fun x => f x.2).sum + f r' := by
  induction l with
  | nil => cases h
  | cons x l ih =>
    obtain ⟨k₀, r₀⟩ := x
    rw [List.pairwise_cons] at hs
    by_cases hk : k = k₀
    · subst hk
      rw [lookupRows, if_pos rfl] at h
      obtain rfl := Option.some.inj h
      rw [insertRows, if_neg (lt_irrefl _), if_pos rfl]
      simp only [List.map_cons, List.sum_cons]
      omega
    · rw [lookupRows, if_neg hk] at h
      have hlt : k₀ < k := hs.1 _ (mem_of_lookupRows h)
      rw [insertRows, if_neg (not_lt.mpr hlt.le), if_neg hk]
      have := ih h hs.2
      simp only [List.map_cons, List.sum_cons]
      omega

theorem sum_insert {t : Table κ ρ} {k : κ} {r : ρ} (h : t.get k = some r) (f : ρ → Nat) (r' : ρ) :
    ((t.insert k r').rows.map fun x => f x.2).sum + f r = (t.rows.map fun x => f x.2).sum + f r' :=
  sum_insertRows f h t.sorted

theorem length_insertRows_le (k : κ) (r : ρ) (l : List (κ × ρ)) :
    (insertRows k r l).length ≤ l.length + 1 := by
  induction l with
  | nil => exact Nat.le_refl _
  | cons x rest ih =>
    unfold insertRows
    split_ifs
    · exact Nat.le_refl _
    · exact Nat.le_succ _
    · exact Nat.succ_le_succ ih

theorem length_insert_le (t : Table κ ρ) (k : κ) (r : ρ) :
    (t.insert k r).rows.length ≤ t.rows.length + 1 :=
  length_insertRows_le k r t.rows

theorem length_erase_le (t : Table κ ρ) (k : κ) : (t.erase k).rows.length ≤ t.rows.length :=
  List.length_filter_le _ _

theorem length_erase_lt {t : Table κ ρ} {k : κ} {r : ρ} (h : t.get k = some r) :
    (t.erase k).rows.length < t.rows.length :=
  List.length_filter_lt_length_iff_exists.mpr ⟨(k, r), mem_rows.mpr h, by simp⟩

/-- A prefix shorter than its bound is the whole list. -/
theorem mem_take_of_short {α : Type} {l : List α} {limit : Nat} (h : (l.take limit).length < limit)
    {x : α} (hx : x ∈ l) : x ∈ l.take limit := by
  have hlen : l.length ≤ limit := by
    rw [List.length_take] at h
    omega
  rw [List.take_of_length_le hlen]
  exact hx

/-- The last of an ascending list bounds it. -/
theorem le_last_of_sorted {α : Type} {f : α → κ} {l : List α} {last : α}
    (h : l.Pairwise fun a b => f a < f b) (hlast : l.getLast? = some last) {x : α} (hx : x ∈ l) :
    f x ≤ f last := by
  obtain ⟨front, rfl⟩ := List.getLast?_eq_some_iff.mp hlast
  rcases List.mem_append.mp hx with hx | hx
  · exact le_of_lt ((List.pairwise_append.mp h).2.2 x hx last (List.mem_singleton_self _))
  · rw [List.mem_singleton.mp hx]

/-- A key lies strictly behind the cursor; no cursor admits every key. -/
def After (cursor : Option κ) (k : κ) : Prop := ∀ c ∈ cursor, c < k

instance (cursor : Option κ) (k : κ) : Decidable (After cursor k) :=
  inferInstanceAs (Decidable (∀ c ∈ cursor, c < k))

@[simp] theorem after_none (k : κ) : After none k := fun _ h => nomatch h

@[simp] theorem after_some {c k : κ} : After (some c) k ↔ c < k := by
  simp [After]

/-- The first `limit` rows after `cursor` that satisfy `p`. -/
def page (t : Table κ ρ) (p : κ → ρ → Bool) (cursor : Option κ) (limit : Nat) : List (κ × ρ) :=
  (t.select fun k r => p k r && decide (After cursor k)).take limit

theorem mem_page {t : Table κ ρ} {p : κ → ρ → Bool} {cursor : Option κ} {limit : Nat}
    {k : κ} {r : ρ} (h : (k, r) ∈ t.page p cursor limit) :
    t.get k = some r ∧ p k r = true ∧ After cursor k := by
  have hm := mem_select.mp (List.mem_of_mem_take h)
  simpa using hm

/-- A short page is the whole rest of the scan. -/
theorem mem_page_of_short {t : Table κ ρ} {p : κ → ρ → Bool} {cursor : Option κ} {limit : Nat}
    (hs : (t.page p cursor limit).length < limit) {k : κ} {r : ρ}
    (hk : t.get k = some r) (hp : p k r = true) (ha : After cursor k) :
    (k, r) ∈ t.page p cursor limit := by
  refine mem_take_of_short hs (mem_select.mpr ?_)
  simp [hk, hp, ha]

/-- A row that a page skips lies behind every row of the page. -/
theorem page_covers {t : Table κ ρ} {p : κ → ρ → Bool} {cursor : Option κ} {limit : Nat}
    {k : κ} {r : ρ} (hk : t.get k = some r) (hp : p k r = true) (ha : After cursor k) :
    (k, r) ∈ t.page p cursor limit ∨ ∀ x ∈ t.page p cursor limit, x.1 < k := by
  set sel := t.select fun k r => p k r && decide (After cursor k) with hsel
  have hmem : (k, r) ∈ sel := by rw [hsel, mem_select]; simp [hk, hp, ha]
  have hs : sel.Pairwise fun a b => a.1 < b.1 := select_sorted t _
  rw [← List.take_append_drop limit sel] at hmem hs
  rcases List.mem_append.mp hmem with hmem | hmem
  · exact Or.inl hmem
  · exact Or.inr fun x hx => (List.pairwise_append.mp hs).2.2 x hx _ hmem

end Table
end LocalSearch.Lib
