import Mathlib.Data.List.Basic

/-!
# Logs of versioned keys

A log to which keys are appended at a version below a ceiling that each key has
at the moment. Ceilings rise, and a key that was appended at its ceiling is
settled: it is not appended again before its ceiling has risen. The versions of
every key then increase along the log.
-/
namespace LocalSearch.Lib

set_option autoImplicit false

variable {κ : Type} {ceiling ceiling' : κ → Nat} {settled settled' : κ → Prop}
  {log : List (κ × Nat)}

structure VersionLog (ceiling : κ → Nat) (settled : κ → Prop) (log : List (κ × Nat)) : Prop where
  increasing : log.Pairwise fun a b => a.1 = b.1 → a.2 < b.2
  bounded : ∀ x ∈ log, x.2 ≤ ceiling x.1
  atCeiling : ∀ x ∈ log, x.2 = ceiling x.1 → settled x.1

namespace VersionLog

theorem nil : VersionLog ceiling settled [] :=
  ⟨.nil, fun _ hx => (nomatch hx), fun _ hx => (nomatch hx)⟩

/-- Ceilings rise; a key whose ceiling stays is still settled. -/
theorem raise (h : VersionLog ceiling settled log) (hle : ∀ k, ceiling k ≤ ceiling' k)
    (hstay : ∀ k, ceiling k = ceiling' k → settled k → settled' k) :
    VersionLog ceiling' settled' log := by
  refine ⟨h.increasing, fun x hx => Nat.le_trans (h.bounded x hx) (hle x.1), fun x hx htop => ?_⟩
  have hbound := h.bounded x hx
  have hrise := hle x.1
  have hsame : ceiling x.1 = ceiling' x.1 := by omega
  exact hstay x.1 hsame (h.atCeiling x hx (htop.trans hsame.symm))

/-- An unsettled key is appended at its ceiling, which settles it. -/
theorem append (h : VersionLog ceiling settled log) {k : κ} (hk : ¬ settled k) (hnew : settled' k)
    (hkeep : ∀ j, j ≠ k → settled j → settled' j) :
    VersionLog ceiling settled' (log ++ [(k, ceiling k)]) := by
  have hbelow : ∀ x ∈ log, x.1 = k → x.2 < ceiling k := by
    intro x hx heq
    have hle := h.bounded x hx
    rw [heq] at hle
    have hne : x.2 ≠ ceiling k := fun htop => hk (heq ▸ h.atCeiling x hx (heq.symm ▸ htop))
    omega
  refine ⟨?_, fun x hx => ?_, fun x hx htop => ?_⟩
  · refine List.pairwise_append.2 ⟨h.increasing, List.pairwise_singleton _ _, ?_⟩
    intro x hx y hy heq
    obtain rfl := List.mem_singleton.1 hy
    exact hbelow x hx heq
  · rcases List.mem_append.1 hx with hx | hx
    · exact h.bounded x hx
    · obtain rfl := List.mem_singleton.1 hx
      exact Nat.le_refl _
  · rcases List.mem_append.1 hx with hx | hx
    · have hne : x.1 ≠ k := by
        intro heq
        have hlt := hbelow x hx heq
        rw [heq] at htop
        omega
      exact hkeep x.1 hne (h.atCeiling x hx htop)
    · rw [List.mem_singleton.1 hx]
      exact hnew

end VersionLog

end LocalSearch.Lib
