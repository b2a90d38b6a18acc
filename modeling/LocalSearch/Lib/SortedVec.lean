import LocalSearch.Lib.Table

/-!
# Sorted vectors

A vector kept strictly ascending by key, read and written by binary search. On
the rows of a keyed table the search finds the row of a key or the place it
belongs to, so the vector operations are those of the table.
-/
namespace LocalSearch.Lib

set_option autoImplicit false

/-- The loop of `binary_search_by`: of `size` elements from `base` on, the last
one that is not beyond the target. -/
def searchBase (probe : Nat → Ordering) (base size : Nat) : Nat :=
  if 1 < size then
    let half := size / 2
    let mid := base + half
    searchBase probe (if probe mid = .gt then base else mid) (size - half)
  else base
termination_by size

/-- The index of an element the probe finds equal, or as an error the index to
insert one at. -/
def binarySearch (probe : Nat → Ordering) (size : Nat) : Except Nat Nat :=
  if size = 0 then .error 0
  else
    let base := searchBase probe 0 size
    match probe base with
    | .eq => .ok base
    | .lt => .error (base + 1)
    | .gt => .error base

section Search

variable {probe : Nat → Ordering} {n : Nat}

theorem searchBase_spec (hmono : ∀ i j, i < j → j < n → probe i = .lt ∨ probe j = .gt)
    {base size : Nat} (hsize : 0 < size) (hend : base + size ≤ n)
    (hlow : base = 0 ∨ probe base ≠ .gt)
    (hhigh : ∀ j, base + size ≤ j → j < n → probe j = .gt) :
    searchBase probe base size < n ∧
      (searchBase probe base size = 0 ∨ probe (searchBase probe base size) ≠ .gt) ∧
      ∀ j, searchBase probe base size < j → j < n → probe j = .gt := by
  induction size using Nat.strongRecOn generalizing base with
  | ind size ih =>
    rw [searchBase]
    by_cases hlt : 1 < size
    · have hhalf : 0 < size / 2 ∧ size / 2 < size := by omega
      rw [if_pos hlt]
      dsimp only
      by_cases hmid : probe (base + size / 2) = .gt
      · rw [if_pos hmid]
        refine ih (size - size / 2) (by omega) (by omega) (by omega) hlow fun j hj hn => ?_
        rcases Nat.lt_or_ge (base + size / 2) j with hbeyond | hat
        · rcases hmono _ _ hbeyond hn with h | h
          · rw [hmid] at h
            cases h
          · exact h
        · obtain rfl : j = base + size / 2 := by omega
          exact hmid
      · rw [if_neg hmid]
        exact ih (size - size / 2) (by omega) (by omega) (by omega) (.inr hmid)
          fun j hj hn => hhigh j (by omega) hn
    · obtain rfl : size = 1 := by omega
      rw [if_neg hlt]
      exact ⟨by omega, hlow, hhigh⟩

theorem binarySearch_ok {i : Nat}
    (hmono : ∀ i j, i < j → j < n → probe i = .lt ∨ probe j = .gt)
    (h : binarySearch probe n = .ok i) : i < n ∧ probe i = .eq := by
  rw [binarySearch] at h
  split_ifs at h with hzero
  have hspec := searchBase_spec hmono (Nat.pos_of_ne_zero hzero) (by omega) (.inl rfl)
    fun j hj hn => absurd hn (by omega)
  cases heq : probe (searchBase probe 0 n) <;> simp only [heq] at h
  · cases h
  · obtain rfl := Except.ok.inj h
    exact ⟨hspec.1, heq⟩
  · cases h

theorem binarySearch_error {i : Nat}
    (hmono : ∀ i j, i < j → j < n → probe i = .lt ∨ probe j = .gt)
    (h : binarySearch probe n = .error i) :
    i ≤ n ∧ (∀ j, j < i → probe j = .lt) ∧ ∀ j, i ≤ j → j < n → probe j = .gt := by
  rw [binarySearch] at h
  split_ifs at h with hzero
  · obtain rfl := Except.error.inj h
    exact ⟨Nat.zero_le n, by omega, by omega⟩
  obtain ⟨hlt, hlow, hhigh⟩ := searchBase_spec hmono (Nat.pos_of_ne_zero hzero)
    (by omega) (.inl rfl) fun j hj hn => absurd hn (by omega)
  have hbelow : ∀ j, j < searchBase probe 0 n → probe (searchBase probe 0 n) ≠ .gt →
      probe j = .lt := fun j hj hne => (hmono j _ hj hlt).resolve_right hne
  cases heq : probe (searchBase probe 0 n) <;> simp only [heq] at h
  · obtain rfl := Except.error.inj h
    refine ⟨hlt, fun j hj => ?_, fun j hj hn => hhigh j hj hn⟩
    rcases Nat.lt_or_eq_of_le (Nat.le_of_lt_succ hj) with hbefore | rfl
    · exact hbelow j hbefore (by rw [heq]; decide)
    · exact heq
  · cases h
  · obtain rfl := Except.error.inj h
    have hfirst : searchBase probe 0 n = 0 := hlow.resolve_right fun hne => hne heq
    refine ⟨Nat.le_of_lt hlt, fun j hj => by omega, fun j hj hn => ?_⟩
    rcases Nat.lt_or_eq_of_le hj with hbeyond | rfl
    · exact hhigh j hbeyond hn
    · exact heq

end Search

variable {κ ρ : Type} [LinearOrder κ]

/-- `binary_search_by_key` over the keys of the rows. -/
def searchRows (rows : List (κ × ρ)) (k : κ) : Except Nat Nat :=
  binarySearch (fun i => (rows[i]?).elim .gt fun row => compare row.1 k) rows.length

def vecGet (rows : List (κ × ρ)) (k : κ) : Option ρ :=
  match searchRows rows k with
  | .ok i => (rows[i]?).map (·.2)
  | .error _ => none

/-- The row found gets the value; where there is none, one is inserted. -/
def vecInsert (rows : List (κ × ρ)) (k : κ) (r : ρ) : List (κ × ρ) :=
  match searchRows rows k with
  | .ok i => rows.modify i fun row => (row.1, r)
  | .error i => rows.insertIdx i (k, r)

/-- The row found is removed and its value returned. -/
def vecTake (rows : List (κ × ρ)) (k : κ) : List (κ × ρ) × Option ρ :=
  match searchRows rows k with
  | .ok i => (rows.eraseIdx i, (rows[i]?).map (·.2))
  | .error _ => (rows, none)

theorem searchRows_probe (t : Table κ ρ) (k : κ) (i j : Nat) (hij : i < j)
    (hj : j < t.rows.length) :
    (t.rows[i]?).elim .gt (fun row => compare row.1 k) = .lt ∨
      (t.rows[j]?).elim .gt (fun row => compare row.1 k) = .gt := by
  have hi : i < t.rows.length := by omega
  have hlt : t.rows[i].1 < t.rows[j].1 := List.pairwise_iff_getElem.mp t.sorted i j hi hj hij
  rw [List.getElem?_eq_getElem hi, List.getElem?_eq_getElem hj]
  show compare _ _ = .lt ∨ compare _ _ = .gt
  rw [compare_lt_iff_lt, compare_gt_iff_gt]
  rcases lt_or_ge t.rows[i].1 k with h | h
  · exact .inl h
  · exact .inr (lt_of_le_of_lt h hlt)

/-- The row of the key, in its place. -/
theorem searchRows_ok {t : Table κ ρ} {k : κ} {i : Nat} (h : searchRows t.rows k = .ok i) :
    ∃ r, i < t.rows.length ∧ t.rows[i]? = some (k, r) ∧
      t.rows = t.rows.take i ++ (k, r) :: t.rows.drop (i + 1) ∧
      (∀ x ∈ t.rows.take i, x.1 < k) ∧ ∀ x ∈ t.rows.drop (i + 1), k < x.1 := by
  obtain ⟨hlt, heq⟩ := binarySearch_ok (searchRows_probe t k) h
  rw [List.getElem?_eq_getElem hlt] at heq ⊢
  have hkey : t.rows[i].1 = k := compare_eq_iff_eq.mp heq
  have hsplit := t.sorted
  rw [← List.take_append_drop i t.rows, List.drop_eq_getElem_cons hlt] at hsplit
  obtain ⟨-, hrest, hbefore⟩ := List.pairwise_append.mp hsplit
  have hrow : t.rows[i] = (k, t.rows[i].2) := Prod.ext hkey rfl
  refine ⟨t.rows[i].2, hlt, congrArg some hrow, ?_, fun x hx => ?_, fun x hx => ?_⟩
  · rw [← hrow, ← List.drop_eq_getElem_cons hlt, List.take_append_drop]
  · exact hkey ▸ hbefore x hx _ List.mem_cons_self
  · exact hkey ▸ (List.pairwise_cons.mp hrest).1 x hx

/-- No row of the key, and the place it belongs to. -/
theorem searchRows_error {t : Table κ ρ} {k : κ} {i : Nat} (h : searchRows t.rows k = .error i) :
    i ≤ t.rows.length ∧ (∀ x ∈ t.rows.take i, x.1 < k) ∧ ∀ x ∈ t.rows.drop i, k < x.1 := by
  obtain ⟨hle, hbefore, hafter⟩ := binarySearch_error (searchRows_probe t k) h
  refine ⟨hle, fun x hx => ?_, fun x hx => ?_⟩
  · obtain ⟨j, hj, rfl⟩ := List.mem_take_iff_getElem.mp hx
    have hlt := hbefore j (by omega)
    rw [List.getElem?_eq_getElem (by omega)] at hlt
    exact compare_lt_iff_lt.mp hlt
  · obtain ⟨j, hj, rfl⟩ := List.mem_drop_iff_getElem.mp hx
    have hlt : i + j < t.rows.length := by omega
    have hgt := hafter (i + j) (by omega) hlt
    rw [List.getElem?_eq_getElem hlt] at hgt
    exact compare_gt_iff_gt.mp hgt

theorem searchRows_absent {t : Table κ ρ} {k : κ} {i : Nat} (h : searchRows t.rows k = .error i) :
    ∀ x ∈ t.rows, x.1 ≠ k := by
  obtain ⟨-, hbefore, hafter⟩ := searchRows_error h
  intro x hx
  rw [← List.take_append_drop i t.rows, List.mem_append] at hx
  rcases hx with hx | hx
  · exact ne_of_lt (hbefore x hx)
  · exact ne_of_gt (hafter x hx)

theorem insertIdx_eq {α : Type} {xs : List α} {i : Nat} (h : i ≤ xs.length) (x : α) :
    xs.insertIdx i x = xs.take i ++ x :: xs.drop i := by
  induction xs generalizing i with
  | nil =>
    obtain rfl : i = 0 := Nat.le_zero.mp h
    rfl
  | cons y rest ih =>
    cases i with
    | zero => rfl
    | succ i =>
      rw [List.insertIdx_succ_cons, ih (Nat.le_of_succ_le_succ h)]
      rfl

theorem insertRows_append {a b : List (κ × ρ)} {k : κ} {r : ρ} (h : ∀ x ∈ a, x.1 < k) :
    Table.insertRows k r (a ++ b) = a ++ Table.insertRows k r b := by
  induction a with
  | nil => rfl
  | cons x rest ih =>
    have hx : x.1 < k := h x List.mem_cons_self
    rw [List.cons_append, Table.insertRows, if_neg (not_lt_of_gt hx), if_neg (ne_of_gt hx),
      ih fun y hy => h y (List.mem_cons_of_mem _ hy)]
    rfl

theorem insertRows_of_lt {b : List (κ × ρ)} {k : κ} {r : ρ} (h : ∀ x ∈ b, k < x.1) :
    Table.insertRows k r b = (k, r) :: b := by
  cases b with
  | nil => rfl
  | cons x rest => rw [Table.insertRows, if_pos (h x List.mem_cons_self)]

theorem vecGet_rows (t : Table κ ρ) (k : κ) : vecGet t.rows k = t.get k := by
  rw [vecGet]
  cases hsearch : searchRows t.rows k with
  | ok i =>
    obtain ⟨r, -, hget, -⟩ := searchRows_ok hsearch
    show (t.rows[i]?).map (·.2) = t.get k
    rw [hget, Table.mem_rows.mp (List.mem_of_getElem? hget)]
    rfl
  | error i => exact (Table.lookupRows_none (searchRows_absent hsearch)).symm

theorem vecInsert_rows (t : Table κ ρ) (k : κ) (r : ρ) :
    vecInsert t.rows k r = (t.insert k r).rows := by
  rw [vecInsert, Table.insert]
  cases hsearch : searchRows t.rows k with
  | ok i =>
    obtain ⟨old, hlt, hget, hsplit, hbefore, -⟩ := searchRows_ok hsearch
    show t.rows.modify i (fun row => (row.1, r)) = Table.insertRows k r t.rows
    rw [List.modify_eq_take_cons_drop hlt, (List.getElem?_eq_some_iff.mp hget).2]
    conv_rhs => rw [hsplit]
    rw [insertRows_append hbefore, Table.insertRows, if_neg (lt_irrefl k), if_pos rfl]
  | error i =>
    obtain ⟨hle, hbefore, hafter⟩ := searchRows_error hsearch
    show t.rows.insertIdx i (k, r) = Table.insertRows k r t.rows
    conv_rhs => rw [← List.take_append_drop i t.rows]
    rw [insertRows_append hbefore, insertRows_of_lt hafter, insertIdx_eq hle]

theorem vecTake_rows (t : Table κ ρ) (k : κ) : vecTake t.rows k = ((t.erase k).rows, t.get k) := by
  have hget : (vecTake t.rows k).2 = vecGet t.rows k := by
    rw [vecTake, vecGet]
    split <;> rfl
  refine Prod.ext ?_ (hget.trans (vecGet_rows t k))
  rw [vecTake, Table.erase]
  cases hsearch : searchRows t.rows k with
  | ok i =>
    obtain ⟨old, -, -, hsplit, hbefore, hafter⟩ := searchRows_ok hsearch
    have hkept : ∀ x ∈ t.rows.take i, decide (x.1 ≠ k) = true := fun x hx =>
      decide_eq_true (ne_of_lt (hbefore x hx))
    have hkept' : ∀ x ∈ t.rows.drop (i + 1), decide (x.1 ≠ k) = true := fun x hx =>
      decide_eq_true (ne_of_gt (hafter x hx))
    show t.rows.eraseIdx i = t.rows.filter (·.1 ≠ k)
    rw [List.eraseIdx_eq_take_drop_succ]
    conv_rhs => rw [hsplit]
    rw [List.filter_append, List.filter_eq_self.mpr hkept, List.filter_cons_of_neg (by simp),
      List.filter_eq_self.mpr hkept']
  | error i =>
    exact (List.filter_eq_self.mpr fun x hx =>
      decide_eq_true (searchRows_absent hsearch x hx)).symm

end LocalSearch.Lib
