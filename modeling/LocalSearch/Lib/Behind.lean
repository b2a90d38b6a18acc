import LocalSearch.Lib.Table

/-!
# What is left behind a cursor

A scan reads a table page by page behind an exclusive cursor, passing rows it
does not look for. The rows behind the cursor, looked for or not, bound what the
scan has still to do: a page and what is behind its last row are disjoint parts
of what was behind the cursor.
-/
namespace LocalSearch.Lib
namespace Table

set_option autoImplicit false

variable {κ ρ : Type} [LinearOrder κ]

/-- How many rows lie behind the cursor. -/
def behind (t : Table κ ρ) (cursor : Option κ) : Nat :=
  (t.select fun k _ => decide (After cursor k)).length

theorem behind_lt {t : Table κ ρ} {cursor : Option κ} {k : κ} {r : ρ} (hk : t.get k = some r)
    (hafter : After cursor k) : t.behind (some k) < t.behind cursor := by
  refine select_length_lt (fun k' r' hk' hbehind => ⟨r', hk', ?_⟩) hk (decide_eq_true hafter) ?_
  · have hlt := after_some.mp (of_decide_eq_true hbehind)
    exact decide_eq_true fun c hc => (hafter c hc).trans hlt
  · intro r' _
    exact decide_eq_false fun hself => lt_irrefl k (after_some.mp hself)

end Table
end LocalSearch.Lib
