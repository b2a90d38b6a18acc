import Mathlib.Data.List.Chain
import Mathlib.Logic.Relator

/-!
# Walks with one way on

Each element has a key, and a key leads to at most one element. A walk that
comes to an end is then the longest one from its start, and no key occurs twice
on the way: a repeated key would lead round for ever.
-/
namespace LocalSearch.Lib

set_option autoImplicit false

variable {α κ : Type} {key : α → κ} {leads : κ → α → Prop}

/-- The last element leads nowhere. -/
def Ends (key : α → κ) (leads : κ → α → Prop) (l : List α) : Prop :=
  ∀ a ∈ l.getLast?, ∀ b, ¬ leads (key a) b

theorem Ends.tail {a b : α} {l : List α} (h : Ends key leads (a :: b :: l)) :
    Ends key leads (b :: l) := by
  intro c hc
  apply h c
  rwa [List.getLast?_cons_cons]

/-- Any walk from the same start is a beginning of the one that ends. -/
theorem isPrefix_of_ends (hunique : Relator.RightUnique leads) {a : α} {l l' : List α}
    (h : (a :: l).IsChain fun x y => leads (key x) y) (hend : Ends key leads (a :: l))
    (h' : (a :: l').IsChain fun x y => leads (key x) y) : a :: l' <+: a :: l := by
  induction l generalizing a l' with
  | nil =>
    cases l' with
    | nil => exact List.prefix_rfl
    | cons b l' => exact absurd (List.isChain_cons_cons.mp h').1 (hend a rfl b)
  | cons b l ih =>
    cases l' with
    | nil => exact ⟨b :: l, rfl⟩
    | cons b' l' =>
      obtain ⟨hb, hl⟩ := List.isChain_cons_cons.mp h
      obtain ⟨hb', hl'⟩ := List.isChain_cons_cons.mp h'
      obtain rfl := hunique hb hb'
      exact (List.prefix_cons_inj a).mpr (ih hl hend.tail hl')

/-- On a walk that ends no key is met twice. -/
theorem keys_nodup_of_ends (hunique : Relator.RightUnique leads) {l : List α}
    (h : l.IsChain fun x y => leads (key x) y) (hend : Ends key leads l) :
    (l.dropLast.map key).Nodup := by
  induction l with
  | nil => exact List.nodup_nil
  | cons a l ih =>
    cases l with
    | nil => exact List.nodup_nil
    | cons b l =>
      obtain ⟨hb, hl⟩ := List.isChain_cons_cons.mp h
      rw [List.dropLast_cons_cons, List.map_cons, List.nodup_cons]
      refine ⟨fun hmem => ?_, ih hl hend.tail⟩
      obtain ⟨c, hc, hkey⟩ := List.mem_map.mp hmem
      -- the same key leads to `b` again, later on the walk
      obtain ⟨s, t, ht⟩ := List.append_of_mem hc
      have hsplit : ∃ d r, b :: l = s ++ c :: d :: r := by
        have hlast := List.dropLast_append_getLast (List.cons_ne_nil b l)
        rw [ht, List.append_assoc, List.cons_append] at hlast
        cases t with
        | nil => exact ⟨_, _, hlast.symm⟩
        | cons d t => exact ⟨_, _, hlast.symm⟩
      obtain ⟨d, r, hsplit⟩ := hsplit
      rw [hsplit] at hl
      obtain ⟨hd, hr⟩ := List.isChain_cons_cons.mp hl.right_of_append
      obtain rfl := hunique (hkey ▸ hd) hb
      have hend' : Ends key leads (d :: r) := by
        intro e he
        apply hend e
        rw [hsplit, List.getLast?_cons, List.getLast?_append, List.getLast?_cons_cons]
        simp [Option.mem_def.mp he]
      have hbegins := isPrefix_of_ends hunique hr hend' (hsplit ▸ hl)
      have hle := hbegins.length_le
      rw [hsplit] at hle
      simp at hle
      omega

end LocalSearch.Lib
