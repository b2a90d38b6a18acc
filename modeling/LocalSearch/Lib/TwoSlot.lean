import Mathlib.Data.Fin.Basic
import Mathlib.Algebra.GroupWithZero.Nat
import Mathlib.Data.List.Sort
import Mathlib.Logic.Function.Basic

/-!
# A register kept in two slots

A value is written with the next number into the slot of that number's parity,
so that the slot with the newest value is never the one being written. A write
that is cut short spoils its own slot only.
-/
namespace LocalSearch.Lib

set_option autoImplicit false

/-- What can be read from each slot: the number and the value of a whole write. -/
abbrev Slots (α : Type) := Fin 2 → Option (Nat × α)

instance twoSlots : NeZero 2 := ⟨by decide⟩

namespace Slots

variable {α : Type}

/-- The slot of a number. -/
def side (n : Nat) : Fin 2 := ⟨n % 2, Nat.mod_lt n (by decide)⟩

theorem side_succ_ne (n : Nat) : side (n + 1) ≠ side n := by
  intro h
  have hval : (n + 1) % 2 = n % 2 := congrArg Fin.val h
  omega

/-- The register holds `v`, its newest whole write, which has number `n`. -/
structure Holds (s : Slots α) (n : Nat) (v : α) : Prop where
  parity : ∀ i x, s i = some x → side x.1 = i
  newest : s (side n) = some (n, v)
  bound : ∀ i x, s i = some x → x.1 ≤ n

/-- A whole write replaces the value. -/
theorem Holds.put {s : Slots α} {n : Nat} {v : α} (h : s.Holds n v) (w : α) :
    Holds (Function.update s (side (n + 1)) (some (n + 1, w))) (n + 1) w := by
  constructor
  · intro i x hx
    by_cases hi : i = side (n + 1)
    · subst hi
      rw [Function.update_self] at hx
      cases hx
      rfl
    · rw [Function.update_of_ne hi] at hx
      exact h.parity i x hx
  · rw [Function.update_self]
  · intro i x hx
    by_cases hi : i = side (n + 1)
    · subst hi
      rw [Function.update_self] at hx
      cases hx
      exact le_refl _
    · rw [Function.update_of_ne hi] at hx
      have hle := h.bound i x hx
      omega

/-- A write cut short leaves the value, and the number it would have had is free again. -/
theorem Holds.spoil {s : Slots α} {n : Nat} {v : α} (h : s.Holds n v) :
    Holds (Function.update s (side (n + 1)) none) n v := by
  have hkept : ∀ i x, Function.update s (side (n + 1)) none i = some x → s i = some x := by
    intro i x hx
    by_cases hi : i = side (n + 1)
    · subst hi
      rw [Function.update_self] at hx
      cases hx
    · rwa [Function.update_of_ne hi] at hx
  constructor
  · exact fun i x hx => h.parity i x (hkept i x hx)
  · rw [Function.update_of_ne (side_succ_ne n).symm]
    exact h.newest
  · exact fun i x hx => h.bound i x (hkept i x hx)

/-- The first whole write. -/
theorem holds_first (v : α) : Holds (Function.update (fun _ => none) (side 1) (some (1, v))) 1 v := by
  constructor
  · intro i x hx
    by_cases hi : i = side 1
    · subst hi
      rw [Function.update_self] at hx
      cases hx
      rfl
    · rw [Function.update_of_ne hi] at hx
      cases hx
  · rw [Function.update_self]
  · intro i x hx
    by_cases hi : i = side 1
    · subst hi
      rw [Function.update_self] at hx
      cases hx
      exact le_refl _
    · rw [Function.update_of_ne hi] at hx
      cases hx

end Slots

/-- A slot file: missing, without a whole write, or with one. -/
inductive Slot (α : Type) where
  | absent
  | torn
  | whole (number : Nat) (value : α)
  deriving DecidableEq, Repr

/-- The whole write in a slot. -/
def Slot.write? {α : Type} : Slot α → Option (Nat × α)
  | .whole n v => some (n, v)
  | .absent | .torn => none

def Slot.there {α : Type} : Slot α → Bool
  | .absent => false
  | .torn | .whole _ _ => true

/-- A pair of slot files in which every whole write stands in the slot of its number. -/
structure SlotFile (α : Type) where
  slot : Fin 2 → Slot α
  parity : ∀ i n v, slot i = .whole n v → Slots.side n = i

namespace SlotFile

variable {α : Type}

def blank : SlotFile α := ⟨fun _ => .absent, fun _ _ _ h => (nomatch h)⟩

/-- Some slot file is there. -/
def present (file : SlotFile α) : Bool := (file.slot 0).there || (file.slot 1).there

/-- The whole writes. -/
def slots (file : SlotFile α) : Slots α := fun i => (file.slot i).write?

/-- The newest whole write, with its number. -/
def newest (file : SlotFile α) : Option (Nat × α) :=
  match file.slots 0, file.slots 1 with
  | some x, some y => if y.1 ≤ x.1 then some x else some y
  | some x, none => some x
  | none, y => y

def read (file : SlotFile α) : Option α := file.newest.map (·.2)

/-- The number of the next write. -/
def next (file : SlotFile α) : Nat := file.newest.elim 0 (·.1) + 1

/-- Replace what is in a slot. -/
def put (file : SlotFile α) (i : Fin 2) (slot : Slot α) (h : ∀ n v, slot = .whole n v → Slots.side n = i) :
    SlotFile α where
  slot := Function.update file.slot i slot
  parity j n v hj := by
    by_cases hi : j = i
    · subst hi
      rw [Function.update_self] at hj
      exact h n v hj
    · rw [Function.update_of_ne hi] at hj
      exact file.parity j n v hj

def write (file : SlotFile α) (value : α) : SlotFile α :=
  file.put (Slots.side file.next) (.whole file.next value) fun n v h => by cases h; rfl

/-- A write that was cut short. -/
def tear (file : SlotFile α) : SlotFile α :=
  file.put (Slots.side file.next) .torn fun _ _ h => (nomatch h)

/-- What is left when only some of the slot files are. -/
def keep (file : SlotFile α) (kept : Fin 2 → Bool) : SlotFile α where
  slot i := if kept i then file.slot i else .absent
  parity i n v h := by
    split_ifs at h
    exact file.parity i n v h

theorem slots_parity (file : SlotFile α) (i : Fin 2) (x : Nat × α) (h : file.slots i = some x) :
    Slots.side x.1 = i := by
  unfold slots at h
  cases hslot : file.slot i with
  | absent => rw [hslot] at h; cases h
  | torn => rw [hslot] at h; cases h
  | whole n v =>
    rw [hslot] at h
    cases h
    exact file.parity i n v hslot

theorem slots_put (file : SlotFile α) (i : Fin 2) (slot : Slot α)
    (h : ∀ n v, slot = .whole n v → Slots.side n = i) :
    (file.put i slot h).slots = Function.update file.slots i slot.write? := by
  funext j
  by_cases hj : j = i
  · subst hj
    simp only [slots, put, Function.update_self]
  · simp only [slots, put, Function.update_of_ne hj]

theorem newest_eq_none {file : SlotFile α} : file.newest = none ↔ file.slots = fun _ => none := by
  constructor
  · intro h
    unfold newest at h
    have hboth : file.slots 0 = none ∧ file.slots 1 = none := by
      cases h₀ : file.slots 0 <;> cases h₁ : file.slots 1 <;> rw [h₀, h₁] at h
      · exact ⟨rfl, rfl⟩
      · cases h
      · cases h
      · dsimp only at h
        split_ifs at h
    funext i
    match i with
    | 0 => exact hboth.1
    | 1 => exact hboth.2
  · intro h
    simp [newest, h]

/-- The newest whole write is the one the register holds. -/
theorem newest_holds {file : SlotFile α} {x : Nat × α} (h : file.newest = some x) :
    file.slots.Holds x.1 x.2 := by
  have hsome : ∃ i, file.slots i = some x ∧
      ∀ y, file.slots 0 = some y ∨ file.slots 1 = some y → y.1 ≤ x.1 := by
    unfold newest at h
    cases h₀ : file.slots 0 <;> cases h₁ : file.slots 1 <;> rw [h₀, h₁] at h
    · cases h
    · obtain rfl := Option.some.inj h
      exact ⟨1, h₁, by simp⟩
    · obtain rfl := Option.some.inj h
      exact ⟨0, h₀, by simp⟩
    · dsimp only at h
      split_ifs at h with hle
      · obtain rfl := Option.some.inj h
        exact ⟨0, h₀, by rintro y (hy | hy) <;> cases hy <;> omega⟩
      · obtain rfl := Option.some.inj h
        exact ⟨1, h₁, by rintro y (hy | hy) <;> cases hy <;> omega⟩
  obtain ⟨i, hi, hbound⟩ := hsome
  refine ⟨file.slots_parity, ?_, fun j y hy => hbound y ?_⟩
  · rw [file.slots_parity i x hi]
    exact hi
  · match j with
    | 0 => exact .inl hy
    | 1 => exact .inr hy

/-- Only one whole write is the newest. -/
theorem newest_of_holds {file : SlotFile α} {n : Nat} {v : α} (h : file.slots.Holds n v) :
    file.newest = some (n, v) := by
  cases hnewest : file.newest with
  | none =>
    have hnone := congrFun (newest_eq_none.1 hnewest) (Slots.side n)
    rw [h.newest] at hnone
    cases hnone
  | some x =>
    obtain ⟨m, w⟩ := x
    have hx := newest_holds hnewest
    obtain rfl : m = n := le_antisymm (h.bound _ _ hx.newest) (hx.bound _ _ h.newest)
    exact hx.newest.symm.trans h.newest

/-- A whole write is read. -/
theorem newest_write (file : SlotFile α) (v : α) : (file.write v).newest = some (file.next, v) := by
  refine newest_of_holds ?_
  unfold write
  rw [slots_put]
  cases hnewest : file.newest with
  | none =>
    rw [newest_eq_none.1 hnewest, show file.next = 1 by simp [next, hnewest]]
    exact Slots.holds_first v
  | some x =>
    rw [show file.next = x.1 + 1 by simp [next, hnewest]]
    exact (newest_holds hnewest).put v

/-- A write cut short leaves what was read. -/
theorem newest_tear (file : SlotFile α) : file.tear.newest = file.newest := by
  unfold tear
  cases hnewest : file.newest with
  | none =>
    refine newest_eq_none.2 ?_
    rw [slots_put, newest_eq_none.1 hnewest]
    exact Function.update_eq_self _ _
  | some x =>
    refine newest_of_holds ?_
    rw [slots_put, show file.next = x.1 + 1 by simp [next, hnewest]]
    exact (newest_holds hnewest).spoil

@[simp] theorem read_write (file : SlotFile α) (v : α) : (file.write v).read = some v := by
  rw [read, newest_write]
  rfl

@[simp] theorem read_tear (file : SlotFile α) : file.tear.read = file.read := by
  rw [read, newest_tear, read]

/-- A file that can be read is there. -/
theorem present_of_read {file : SlotFile α} {v : α} (h : file.read = some v) : file.present = true := by
  cases h₀ : file.slot 0 <;> cases h₁ : file.slot 1 <;>
    simp_all [present, read, newest, slots, Slot.there, Slot.write?]

end SlotFile

end LocalSearch.Lib
