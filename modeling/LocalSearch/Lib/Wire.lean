import Mathlib.Tactic.SplitIfs
import Mathlib.Data.Nat.Notation

/-!
# Fields and text in byte strings

Little-endian fields at fixed offsets, and UTF-16 text with the surrogates that
have no partner.
-/
namespace LocalSearch.Lib

set_option autoImplicit false

/-- The number whose bytes these are, the lowest first. -/
def leNat : List UInt8 → Nat
  | [] => 0
  | byte :: rest => byte.toNat + 256 * leNat rest

/-- The number in `width` bytes from `offset` on. -/
def field (input : List UInt8) (offset width : Nat) : Nat := leNat ((input.drop offset).take width)

theorem field_append {block rest : List UInt8} {offset width : Nat}
    (h : offset + width ≤ block.length) : field (block ++ rest) offset width = field block offset width := by
  unfold field
  rw [List.drop_append_of_le_length (by omega), List.take_append_of_le_length]
  rw [List.length_drop]
  omega

/-- The 16-bit numbers of a byte string, a last odd byte left out. -/
def leUnits : List UInt8 → List UInt16
  | low :: high :: rest => UInt16.ofNat (leNat [low, high]) :: leUnits rest
  | _ => []

def IsHigh (u : UInt16) : Prop := 0xD800 ≤ u ∧ u < 0xDC00

def IsLow (u : UInt16) : Prop := 0xDC00 ≤ u ∧ u < 0xE000

instance (u : UInt16) : Decidable (IsHigh u) := inferInstanceAs (Decidable (_ ∧ _))

instance (u : UInt16) : Decidable (IsLow u) := inferInstanceAs (Decidable (_ ∧ _))

theorem not_isHigh_of_isLow {u : UInt16} (h : IsLow u) : ¬ IsHigh u :=
  fun hhigh => UInt16.not_le.mpr hhigh.2 h.1

/-- The character two surrogates stand for. -/
def pairChar (high low : UInt16) : Char :=
  Char.ofNat ((high &&& 0x3ff).toNat * 0x400 + (low &&& 0x3ff).toNat + 0x10000)

/-- The characters of a text, and its surrogates that are not one of a pair. -/
def decodeUtf16 : List UInt16 → List (Except UInt16 Char)
  | [] => []
  | [u] => [if IsHigh u ∨ IsLow u then .error u else .ok (Char.ofNat u.toNat)]
  | u :: v :: rest =>
      if ¬ (IsHigh u ∨ IsLow u) then .ok (Char.ofNat u.toNat) :: decodeUtf16 (v :: rest)
      else if IsLow u then .error u :: decodeUtf16 (v :: rest)
      else if IsLow v then .ok (pairChar u v) :: decodeUtf16 rest
      else .error u :: decodeUtf16 (v :: rest)

/-- The text with a replacement character for each of them. -/
def fromUtf16Lossy (units : List UInt16) : String :=
  String.ofList ((decodeUtf16 units).map fun item => item.toOption.getD (Char.ofNat 0xFFFD))

def hasInvalidUtf16 (units : List UInt16) : Bool := (decodeUtf16 units).any fun item => !item.isOk

/-- The unit here is a surrogate whose other half is not beside it. `begun`
says whether a high one stands before the text. -/
def UnpairedAfter (begun : Prop) (units : List UInt16) (i : Nat) : Prop :=
  ∃ u, units[i]? = some u ∧
    ((IsHigh u ∧ ¬ ∃ w, units[i + 1]? = some w ∧ IsLow w) ∨
      (IsLow u ∧ ¬ (i = 0 ∧ begun) ∧ ¬ ∃ j w, i = j + 1 ∧ units[j]? = some w ∧ IsHigh w))

def Unpaired (units : List UInt16) (i : Nat) : Prop := UnpairedAfter False units i

theorem unpairedAfter_nil (begun : Prop) : ¬ ∃ i, UnpairedAfter begun [] i := by
  rintro ⟨i, u, hu, -⟩
  rw [List.getElem?_nil] at hu
  cases hu

theorem unpairedAfter_cons {begun : Prop} {u : UInt16} {rest : List UInt16} :
    (∃ i, UnpairedAfter begun (u :: rest) i) ↔
      (IsHigh u ∧ ¬ ∃ w, rest.head? = some w ∧ IsLow w) ∨ (IsLow u ∧ ¬ begun) ∨
        ∃ i, UnpairedAfter (IsHigh u) rest i := by
  have hhead : rest[0]? = rest.head? := List.head?_eq_getElem?.symm
  constructor
  · rintro ⟨i, w, hw, hloose⟩
    cases i with
    | zero =>
      obtain rfl := Option.some.inj hw
      rcases hloose with ⟨hhigh, hnone⟩ | ⟨hlow, hbegun, -⟩
      · refine .inl ⟨hhigh, ?_⟩
        rwa [List.getElem?_cons_succ, hhead] at hnone
      · exact .inr (.inl ⟨hlow, fun hopen => hbegun ⟨rfl, hopen⟩⟩)
    | succ i =>
      rw [List.getElem?_cons_succ] at hw
      refine .inr (.inr ⟨i, w, hw, ?_⟩)
      rcases hloose with ⟨hhigh, hnone⟩ | ⟨hlow, -, hnone⟩
      · exact .inl ⟨hhigh, hnone⟩
      · refine .inr ⟨hlow, ?_, ?_⟩
        · rintro ⟨rfl, hhigh⟩
          exact hnone ⟨0, u, rfl, rfl, hhigh⟩
        · rintro ⟨j, x, rfl, hx, hhigh⟩
          exact hnone ⟨j + 1, x, rfl, hx, hhigh⟩
  · rintro (⟨hhigh, hnone⟩ | ⟨hlow, hbegun⟩ | ⟨i, w, hw, hloose⟩)
    · refine ⟨0, u, rfl, .inl ⟨hhigh, ?_⟩⟩
      rwa [List.getElem?_cons_succ, hhead]
    · refine ⟨0, u, rfl, .inr ⟨hlow, fun hopen => hbegun hopen.2, ?_⟩⟩
      rintro ⟨j, x, hj, -⟩
      omega
    · refine ⟨i + 1, w, hw, ?_⟩
      rcases hloose with ⟨hhigh, hnone⟩ | ⟨hlow, hfirst, hnone⟩
      · exact .inl ⟨hhigh, hnone⟩
      · refine .inr ⟨hlow, fun hopen => by omega, ?_⟩
        rintro ⟨j, x, hj, hx, hhigh⟩
        obtain rfl : i = j := by omega
        cases i with
        | zero =>
          obtain rfl := Option.some.inj hx
          exact hfirst ⟨rfl, hhigh⟩
        | succ i => exact hnone ⟨i, x, rfl, hx, hhigh⟩

theorem any_error (u : UInt16) (items : List (Except UInt16 Char)) :
    ((.error u :: items).any fun item => !item.isOk) = true := rfl

theorem any_ok (c : Char) (items : List (Except UInt16 Char)) :
    ((.ok c :: items).any fun item => !item.isOk) = items.any fun item => !item.isOk := rfl

/-- A high surrogate before the text matters only to a low one at its start. -/
theorem hasInvalidUtf16_iff_after {units : List UInt16} {begun : Prop}
    (hbegun : begun → ¬ ∃ w, units.head? = some w ∧ IsLow w) :
    hasInvalidUtf16 units = true ↔ ∃ i, UnpairedAfter begun units i := by
  unfold hasInvalidUtf16
  induction units using decodeUtf16.induct generalizing begun with
  | case1 => exact iff_of_false (by decide) (unpairedAfter_nil begun)
  | case2 u =>
    rw [unpairedAfter_cons, decodeUtf16]
    split_ifs with hsurrogate
    · refine iff_of_true (any_error u []) ?_
      rcases hsurrogate with hhigh | hlow
      · exact .inl ⟨hhigh, nofun⟩
      · exact .inr (.inl ⟨hlow, fun hopen => hbegun hopen ⟨u, rfl, hlow⟩⟩)
    · obtain ⟨hhigh, hlow⟩ := not_or.mp hsurrogate
      refine iff_of_false Bool.false_ne_true ?_
      rintro (⟨h, -⟩ | ⟨h, -⟩ | hrest)
      · exact hhigh h
      · exact hlow h
      · exact unpairedAfter_nil _ hrest
  | case3 u v rest hplain ih =>
    obtain ⟨hhigh, hlow⟩ := not_or.mp hplain
    rw [unpairedAfter_cons, decodeUtf16, if_pos hplain, any_ok, ih fun h => absurd h hhigh]
    simp only [hhigh, hlow, false_and, false_or]
  | case4 u v rest hsurrogate hlow ih =>
    rw [unpairedAfter_cons, decodeUtf16, if_neg hsurrogate, if_pos hlow]
    exact iff_of_true (any_error _ _) (.inr (.inl ⟨hlow, fun hopen => hbegun hopen ⟨u, rfl, hlow⟩⟩))
  | case5 u v rest hsurrogate hlow hnext ih =>
    -- The pair is read in one step: neither half is loose.
    have hhigh : ¬ IsHigh v := not_isHigh_of_isLow hnext
    rw [unpairedAfter_cons, unpairedAfter_cons, decodeUtf16, if_neg hsurrogate, if_neg hlow,
      if_pos hnext, any_ok, ih fun h => absurd h hhigh]
    have hfirst : IsHigh u := (Decidable.of_not_not hsurrogate).resolve_right hlow
    have hpaired : ∃ w, (v :: rest).head? = some w ∧ IsLow w := ⟨v, rfl, hnext⟩
    simp only [hhigh, hlow, hfirst, hpaired, false_and, not_true, and_false, false_or]
  | case6 u v rest hsurrogate hlow hnext ih =>
    rw [unpairedAfter_cons, decodeUtf16, if_neg hsurrogate, if_neg hlow, if_neg hnext]
    refine iff_of_true (any_error _ _) (.inl ⟨(Decidable.of_not_not hsurrogate).resolve_right hlow, ?_⟩)
    rintro ⟨w, hw, hlow'⟩
    obtain rfl := Option.some.inj hw
    exact hnext hlow'

/-- The decoder complains exactly about texts with a surrogate that has no partner. -/
theorem hasInvalidUtf16_iff {units : List UInt16} :
    hasInvalidUtf16 units = true ↔ ∃ i, Unpaired units i :=
  hasInvalidUtf16_iff_after nofun

end LocalSearch.Lib
