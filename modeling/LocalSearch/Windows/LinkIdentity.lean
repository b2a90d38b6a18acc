import LocalSearch.Core.Models

/-!
# Link identities of the Windows provider

A namespace entry has no identity of its own on NTFS. The provider derives one
from the parent object and the name with a 128-bit FNV-1a hash; a volume root
gets an identity derived from the volume.
-/
namespace LocalSearch.Windows

set_option autoImplicit false

open Core

def stableHashBytes (bytes : List UInt8) : BitVec 128 :=
  bytes.foldl (fun hash byte => (hash ^^^ byte.toBitVec.setWidth 128) *
    0x0000000001000000000000000000013b#128) 0x6c62272e07bb014262b821756295c58d#128

/-- `file_reference` numbers are unsigned 64-bit integers. -/
def fileKey (volumeId : VolumeId) (reference : Nat) : FileKey := ⟨volumeId, .fromU128 reference⟩

def linkHash (parent : Option FileKey) (name : String) : BitVec 128 :=
  let parentBytes := match parent with
    | some key => key.volumeId.asBytes ++ key.fileId.asBytes
    | none => []
  stableHashBytes (parentBytes ++ name.toUTF8.toList)

/-- The identity of an entry the provider has no older identity for. -/
def linkIdFor (parent : Option FileKey) (name : String) : FileLinkId := ⟨linkHash parent name⟩

def rootLinkId (volumeId : VolumeId) : FileLinkId :=
  ⟨volumeId.bits ^^^ 0x006c732d726f6f742d6c696e6b2d7631#128⟩

end LocalSearch.Windows
