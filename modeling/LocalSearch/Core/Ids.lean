import Mathlib.Data.Nat.Basic
import Mathlib.Order.Lattice
import Mathlib.Algebra.Group.Nat.Defs

/-!
# Canonical 128-bit identifiers

The source declares its identifier types with one macro over sixteen bytes and
compares them byte by byte, most significant byte first. That order is the
order of the unsigned integer they encode, and it is also the order in which
`SQLite` sorts the blobs.
-/
namespace LocalSearch.Core

set_option autoImplicit false

/-- The identifier types declared by `define_id128!`. -/
inductive IdKind where
  | machine
  | volume
  | file
  | link
  | document
  deriving DecidableEq, Repr

/-- One opaque 128-bit identifier, tagged by its type. -/
structure Id128 (kind : IdKind) where
  bits : BitVec 128
  deriving Repr

namespace Id128

variable {kind : IdKind}

def fromU128 (value : Nat) : Id128 kind := ⟨BitVec.ofNat 128 value⟩

def asU128 (id : Id128 kind) : Nat := id.bits.toNat

/-- The sixteen bytes in network order. -/
def asBytes (id : Id128 kind) : List UInt8 :=
  (List.range 16).map fun i => UInt8.ofNat (id.asU128 / 256 ^ (15 - i))

theorem asU128_injective : Function.Injective (asU128 : Id128 kind → Nat) := by
  rintro ⟨a⟩ ⟨b⟩ h
  exact congrArg Id128.mk (BitVec.eq_of_toNat_eq h)

instance : LinearOrder (Id128 kind) := LinearOrder.lift' asU128 asU128_injective

instance : LawfulBEq (Id128 kind) := inferInstance

end Id128

abbrev MachineId := Id128 .machine
abbrev VolumeId := Id128 .volume
abbrev FileId128 := Id128 .file
abbrev FileLinkId := Id128 .link
abbrev DocumentId := Id128 .document

/-- Filesystem-neutral identity of a physical object on a volume. -/
structure FileKey where
  volumeId : VolumeId
  fileId : FileId128
  deriving Repr

namespace FileKey

/-- The thirty-two key bytes read as one integer: the primary-key order. -/
def asNat (key : FileKey) : Nat := key.volumeId.asU128 * 2 ^ 128 + key.fileId.asU128

theorem asNat_injective : Function.Injective asNat := by
  rintro ⟨v, f⟩ ⟨v', f'⟩ h
  have hf : f.asU128 < 2 ^ 128 := f.bits.isLt
  have hf' : f'.asU128 < 2 ^ 128 := f'.bits.isLt
  simp only [asNat] at h
  have hv : v.asU128 = v'.asU128 := by omega
  have hff : f.asU128 = f'.asU128 := by omega
  rw [Id128.asU128_injective hv, Id128.asU128_injective hff]

instance : LinearOrder FileKey := LinearOrder.lift' asNat asNat_injective

end FileKey

/-- Identity carried by one searchable catalog-link projection. -/
structure CatalogIdentity where
  objectKey : FileKey
  fileLinkId : FileLinkId
  documentId : DocumentId
  deriving DecidableEq, Repr

end LocalSearch.Core
