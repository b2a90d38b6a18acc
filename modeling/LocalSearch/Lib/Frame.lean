import LocalSearch.Lib.Wire
import Mathlib.Algebra.Order.Group.Nat
import Mathlib.Data.List.Basic
import Mathlib.Algebra.Group.Nat.Defs

/-!
# Length-prefixed frames

A frame is a little-endian length and that many bytes. A reader takes it from a
stream in pieces of any size: what it has read so far decides what it does next,
so where the pieces end does not matter.
-/
namespace LocalSearch.Lib

set_option autoImplicit false

/-- The lowest bytes of a number, the lowest first. -/
def leBytes : Nat → Nat → List UInt8
  | 0, _ => []
  | width + 1, n => UInt8.ofNat n :: leBytes width (n / 256)

@[simp] theorem length_leBytes (width n : Nat) : (leBytes width n).length = width := by
  induction width generalizing n with
  | zero => rfl
  | succ width ih => rw [leBytes, List.length_cons, ih]

theorem leNat_leBytes {width n : Nat} (h : n < 256 ^ width) : leNat (leBytes width n) = n := by
  induction width generalizing n with
  | zero =>
    show 0 = n
    rw [Nat.pow_zero] at h
    omega
  | succ width ih =>
    have hrest : n / 256 < 256 ^ width := by
      rw [Nat.pow_succ] at h
      omega
    rw [leBytes, leNat, ih hrest]
    show n % 256 + 256 * (n / 256) = n
    omega

theorem leNat_lt (bytes : List UInt8) : leNat bytes < 256 ^ bytes.length := by
  induction bytes with
  | nil => decide
  | cons byte rest ih =>
    have hbyte : byte.toNat < 256 := byte.toNat_lt
    rw [leNat, List.length_cons, Nat.pow_succ]
    omega

theorem leBytes_leNat (bytes : List UInt8) : leBytes bytes.length (leNat bytes) = bytes := by
  induction bytes with
  | nil => rfl
  | cons byte rest ih =>
    have hbyte : byte.toNat < 256 := byte.toNat_lt
    have hhead : UInt8.ofNat (byte.toNat + 256 * leNat rest) = byte := by
      apply UInt8.toNat_inj.mp
      show (byte.toNat + 256 * leNat rest) % 256 = byte.toNat
      omega
    have htail : (byte.toNat + 256 * leNat rest) / 256 = leNat rest := by omega
    rw [List.length_cons, leBytes, leNat, hhead, htail, ih]

variable {width limit : Nat}

def frame (width : Nat) (payload : List UInt8) : List UInt8 := leBytes width payload.length ++ payload

/-- The length a frame that begins like this announces. -/
def announced (width : Nat) (bytes : List UInt8) : Nat := leNat (bytes.take width)

/-- The bytes are one frame and nothing more. -/
def IsFrame (width : Nat) (bytes : List UInt8) : Prop := bytes.length = width + announced width bytes

instance decidableIsFrame (width : Nat) (bytes : List UInt8) : Decidable (IsFrame width bytes) :=
  inferInstanceAs (Decidable (_ = _))

theorem announced_append {bytes : List UInt8} (h : width ≤ bytes.length) (rest : List UInt8) :
    announced width (bytes ++ rest) = announced width bytes := by
  rw [announced, List.take_append_of_le_length h, announced]

theorem announced_frame {payload : List UInt8} (h : payload.length < 256 ^ width) :
    announced width (frame width payload) = payload.length := by
  rw [announced, frame, List.take_left' (length_leBytes width _), leNat_leBytes h]

theorem length_frame (width : Nat) (payload : List UInt8) :
    (frame width payload).length = width + payload.length := by
  rw [frame, List.length_append, length_leBytes]

theorem isFrame_frame {payload : List UInt8} (h : payload.length < 256 ^ width) :
    IsFrame width (frame width payload) := by
  rw [IsFrame, announced_frame h, length_frame]

theorem IsFrame.width_le {bytes : List UInt8} (h : IsFrame width bytes) : width ≤ bytes.length := by
  unfold IsFrame at h
  omega

/-- No frame begins another. -/
theorem IsFrame.eq_of_isPrefix {a b : List UInt8} (ha : IsFrame width a) (hb : IsFrame width b)
    (h : a <+: b) : a = b := by
  obtain ⟨rest, rfl⟩ := h
  have hsame := announced_append ha.width_le rest
  unfold IsFrame at ha hb
  rw [hsame, List.length_append] at hb
  have hnil : rest = [] := List.length_eq_zero_iff.mp (by omega)
  rw [hnil, List.append_nil]

/-- What a reader does with what it has. -/
inductive Reading where
  | wants (count : Nat)
  | whole
  | tooLarge
  deriving DecidableEq, Repr

/-- First the prefix is wanted, then as much as it announces, unless that is
more than the limit. -/
def reading (width limit : Nat) (got : List UInt8) : Reading :=
  if got.length < width then .wants (width - got.length)
  else if limit < announced width got then .tooLarge
  else if got.length < width + announced width got then
    .wants (width + announced width got - got.length)
  else .whole

/-- The reader never took more than it wanted, nor went on past the limit. -/
def Within (width limit : Nat) (got : List UInt8) : Prop :=
  got.length ≤ width ∨ (announced width got ≤ limit ∧ got.length ≤ width + announced width got)

theorem within_nil : Within width limit [] := Or.inl (Nat.zero_le width)

theorem Within.append {got piece : List UInt8} {count : Nat}
    (hreading : reading width limit got = .wants count) (hpiece : piece.length ≤ count) :
    Within width limit (got ++ piece) := by
  unfold reading at hreading
  split_ifs at hreading with hshort hlarge hpart
  · obtain rfl := Reading.wants.inj hreading
    left
    rw [List.length_append]
    omega
  · obtain rfl := Reading.wants.inj hreading
    right
    rw [announced_append (by omega), List.length_append]
    omega

theorem isFrame_of_whole {got : List UInt8} (h : Within width limit got)
    (hreading : reading width limit got = .whole) :
    IsFrame width got ∧ announced width got ≤ limit := by
  unfold reading at hreading
  split_ifs at hreading with hshort hlarge hpart
  refine ⟨?_, by omega⟩
  show got.length = width + announced width got
  rcases h with h | h
  · omega
  · omega

theorem reading_isFrame {bytes : List UInt8} (h : IsFrame width bytes)
    (hlimit : announced width bytes ≤ limit) : reading width limit bytes = .whole := by
  have hwidth := h.width_le
  unfold IsFrame at h
  rw [reading, if_neg (by omega), if_neg (by omega), if_neg (by omega)]

/-- Inside a frame the reader wants no more than the rest of it. -/
theorem reading_of_prefix {got rest : List UInt8} (h : IsFrame width (got ++ rest))
    (hlimit : announced width (got ++ rest) ≤ limit) :
    rest = [] ∧ reading width limit got = .whole ∨
      ∃ count, reading width limit got = .wants count ∧ 0 < count ∧ count ≤ rest.length := by
  have hlength := h
  unfold IsFrame at hlength
  rw [List.length_append] at hlength
  by_cases hshort : got.length < width
  · right
    refine ⟨width - got.length, if_pos hshort, by omega, by omega⟩
  · rw [announced_append (by omega)] at hlength hlimit
    by_cases hnil : rest = []
    · left
      rw [hnil, List.append_nil] at h
      exact ⟨hnil, reading_isFrame h hlimit⟩
    · right
      have hpos : 0 < rest.length := List.length_pos_iff.mpr hnil
      refine ⟨width + announced width got - got.length, ?_, by omega, by omega⟩
      rw [reading, if_neg hshort, if_neg (by omega), if_pos (by omega)]

end LocalSearch.Lib
