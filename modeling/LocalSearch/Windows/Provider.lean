import LocalSearch.Windows.LinkIdentity
import LocalSearch.Core.Platform
import LocalSearch.Lib.Table
import Mathlib.Data.Prod.Lex
import Mathlib.Data.String.Basic

/-!
# Journal records as canonical events

The change journal names a file by its reference and the place it was seen at.
`canonicalEvents` turns one record into observations, with two small maps that
carry the identity of an entry across renames. Metadata is looked up when the
record is read, not when it was written.
-/
namespace LocalSearch.Windows

set_option autoImplicit false

open Core Lib

def reasonDataChange : BitVec 32 := 0x00000007#32
def reasonFileCreate : BitVec 32 := 0x00000100#32
def reasonFileDelete : BitVec 32 := 0x00000200#32
def reasonRenameOldName : BitVec 32 := 0x00001000#32
def reasonRenameNewName : BitVec 32 := 0x00002000#32
def reasonBasicInfoChange : BitVec 32 := 0x00008000#32
def reasonHardLinkChange : BitVec 32 := 0x00010000#32

/-- The part of a decoded record that is interpreted. -/
structure SanitizedUsnRecord where
  fileReference : Nat
  parentReference : Nat
  reason : BitVec 32
  name : String
  hadInvalidUtf16 : Bool
  deriving DecidableEq, Repr

/-- The record carries one of the reasons in the mask. -/
def SanitizedUsnRecord.has (record : SanitizedUsnRecord) (mask : BitVec 32) : Bool :=
  record.reason &&& mask != 0

inductive ObjectLookup where
  | observed (object : FileObjectSnapshot)
  | missing
  | unavailable
  deriving DecidableEq, Repr

/-- What the file system answers: `resolve_child`, then `object_snapshot`. -/
abbrev MetadataAnswer := PlatformResult (PlatformResult ObjectLookup)

/-- A place the volume cannot show right now is unavailable, not an error. -/
def lookupObject : MetadataAnswer → PlatformResult ObjectLookup
  | .ok snapshot => snapshot
  | .error error =>
      if error.kind = .permissionDenied ∨ error.kind = .unavailable then .ok .unavailable
      else .error error

/-- A name inside a directory, named by the reference of the directory. -/
abbrev Place := Nat ×ₗ String

structure WindowsCheckpoint where
  pendingRenames : Table Nat FileLinkId
  knownLinks : Table Place FileLinkId
  deriving DecidableEq

def WindowsCheckpoint.fresh : WindowsCheckpoint := ⟨.empty, .empty⟩

def SanitizedUsnRecord.place (record : SanitizedUsnRecord) : Place :=
  toLex (record.parentReference, record.name)

def rememberRename (saved : WindowsCheckpoint) (fileReference : Nat) (fileLinkId : FileLinkId) :
    WindowsCheckpoint :=
  { saved with pendingRenames := saved.pendingRenames.insert fileReference fileLinkId }

def takeRename (saved : WindowsCheckpoint) (fileReference : Nat) :
    WindowsCheckpoint × Option FileLinkId :=
  ({ saved with pendingRenames := saved.pendingRenames.erase fileReference },
    saved.pendingRenames.get fileReference)

def knownLinkId (saved : WindowsCheckpoint) (place : Place) : Option FileLinkId :=
  saved.knownLinks.get place

def rememberKnownLink (saved : WindowsCheckpoint) (place : Place) (fileLinkId : FileLinkId) :
    WindowsCheckpoint :=
  { saved with knownLinks := saved.knownLinks.insert place fileLinkId }

def forgetKnownLink (saved : WindowsCheckpoint) (place : Place) : WindowsCheckpoint :=
  { saved with knownLinks := saved.knownLinks.erase place }

/-- The identity a place has unless a rename brought another one there. -/
def placeLinkId (volumeId : VolumeId) (place : Place) : FileLinkId :=
  linkIdFor (some (fileKey volumeId (ofLex place).1)) (ofLex place).2

def pathLinkId (saved : WindowsCheckpoint) (volumeId : VolumeId) (place : Place) : FileLinkId :=
  (knownLinkId saved place).getD (placeLinkId volumeId place)

/-- The identity of the entry a record is about; a new name takes over the one
its old name left behind. -/
def assignLinkId (saved : WindowsCheckpoint) (volumeId : VolumeId) (record : SanitizedUsnRecord) :
    WindowsCheckpoint × FileLinkId :=
  if record.has reasonRenameNewName then
    let (saved', pending) := takeRename saved record.fileReference
    let stable := pending.getD (pathLinkId saved volumeId record.place)
    (rememberKnownLink saved' record.place stable, stable)
  else (saved, pathLinkId saved volumeId record.place)

/-- The events of a record whose place could be looked up. -/
def observedEvents (record : SanitizedUsnRecord) (link : FileLinkSnapshot) (lookup : ObjectLookup) :
    List FilesystemEvent :=
  if lookup = .unavailable then []
  else if record.has reasonHardLinkChange ∧
      ¬ record.has (reasonFileCreate ||| reasonRenameNewName) then
    match lookup with
    | .observed _ => [.linkObserved link]
    | .missing => [.linkRemoved link.fileLinkId link.objectKey]
    | .unavailable => []
  else
    let object := match lookup with
      | .observed object =>
          if record.has (reasonFileCreate ||| reasonBasicInfoChange ||| reasonDataChange) then
            [.objectObserved object]
          else []
      | _ => []
    if record.has (reasonFileCreate ||| reasonRenameNewName) then object ++ [.linkObserved link]
    else object

def canonicalEvents (answer : MetadataAnswer) (saved : WindowsCheckpoint) (volumeId : VolumeId)
    (record : SanitizedUsnRecord) : PlatformResult (WindowsCheckpoint × List FilesystemEvent) :=
  if record.hadInvalidUtf16 then
    .ok (saved, [.reconciliationRequired volumeId .providerRequested])
  else
    let objectKey := fileKey volumeId record.fileReference
    if record.has reasonRenameOldName then
      let saved' := forgetKnownLink saved record.place
      .ok (rememberRename saved' record.fileReference (pathLinkId saved volumeId record.place), [])
    else
      let (saved, fileLinkId) := assignLinkId saved volumeId record
      if record.has reasonFileDelete then
        .ok (forgetKnownLink saved record.place,
          [.linkRemoved fileLinkId objectKey, .objectRemoved objectKey])
      else do
        let link := ⟨fileLinkId, objectKey, some (fileKey volumeId record.parentReference), record.name⟩
        let lookup ← lookupObject answer
        .ok (saved, observedEvents record link lookup)

end LocalSearch.Windows
