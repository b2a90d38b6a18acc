import Mathlib.Data.Nat.Notation
import Mathlib.Order.Basic
import Mathlib.Algebra.GroupWithZero.Nat

/-!
# Sizes of encoded text

Byte sizes of strings and of decimal numerals in UTF-8.
-/
namespace LocalSearch.Lib

set_option autoImplicit false

theorem utf8ByteSize_ofList (cs : List Char) :
    (String.ofList cs).utf8ByteSize = (cs.map Char.utf8Size).sum := by
  induction cs with
  | nil => rfl
  | cons c cs ih =>
    have hsplit : String.ofList (c :: cs) = String.singleton c ++ String.ofList cs := by
      rw [← String.toList_inj]
      simp
    rw [hsplit, String.utf8ByteSize_append, ih]
    simp

theorem utf8ByteSize_eq_sum (s : String) : s.utf8ByteSize = (s.toList.map Char.utf8Size).sum := by
  rw [← utf8ByteSize_ofList, String.ofList_toList]

/-- Decimal digits take one byte each. -/
theorem utf8ByteSize_repr (n : Nat) : n.repr.utf8ByteSize = (Nat.toDigits 10 n).length := by
  rw [utf8ByteSize_eq_sum, Nat.toList_repr]
  have hone : ∀ c ∈ Nat.toDigits 10 n, c.utf8Size = 1 := by
    intro c hc
    have hdigit := Nat.isDigit_of_mem_toDigits (by decide) (by decide) hc
    simp only [Char.isDigit, Bool.and_eq_true, decide_eq_true_eq] at hdigit
    rw [Char.utf8Size_eq_one_iff]
    exact UInt32.le_trans hdigit.2 (by decide)
  rw [List.map_congr_left hone, List.map_const', List.sum_replicate_nat, Nat.mul_one]

theorem utf8ByteSize_repr_le {n k : Nat} (hk : 0 < k) (h : n < 10 ^ k) : n.repr.utf8ByteSize ≤ k := by
  rw [utf8ByteSize_repr]
  exact (Nat.length_toDigits_le_iff (by decide) hk).mpr h

theorem repr_injective : Function.Injective Nat.repr := by
  intro a b hab
  have hdigits : Nat.toDigits 10 a = Nat.toDigits 10 b := by
    rw [← Nat.toList_repr, ← Nat.toList_repr, hab]
  rw [← Nat.ofDigitChars_ten_toDigits (n := a), hdigits, Nat.ofDigitChars_ten_toDigits]

end LocalSearch.Lib
