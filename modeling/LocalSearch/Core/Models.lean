import LocalSearch.Core.Ids

/-!
# Backend-neutral domain models

Filesystem observations, the catalog projection derived from them and the
mutations that carry the projection to an index. `MutationBatch` validation is
the sequencing contract between the durable outbox and its consumers.
-/
namespace LocalSearch.Core

set_option autoImplicit false

inductive FileKind where
  | file
  | directory
  | symlink
  | special
  | other
  deriving DecidableEq, Repr

inductive Availability where
  | online
  | offline
  | unknown
  deriving DecidableEq, Repr

/-- Canonical metadata; `size` is the source's unsigned 64-bit field. -/
structure FileMetadata where
  kind : FileKind
  size : Nat
  createdAtUnixMs : Option Int
  modifiedAtUnixMs : Option Int
  hidden : Bool
  availability : Availability
  deriving DecidableEq, Repr

/-- Current observation of one physical object. -/
structure FileObjectSnapshot where
  objectKey : FileKey
  metadata : FileMetadata
  deriving DecidableEq, Repr

/-- Current observation of one namespace link; a provider root has no parent. -/
structure FileLinkSnapshot where
  fileLinkId : FileLinkId
  objectKey : FileKey
  parentKey : Option FileKey
  name : String
  deriving DecidableEq, Repr

inductive ReconciliationReason where
  | sourceHistoryUnavailable
  | eventOverflow
  | inconsistentSnapshot
  | providerRequested
  deriving DecidableEq, Repr

/-- Platform-neutral observation consumed by the state pipeline. -/
inductive FilesystemEvent where
  | objectObserved (object : FileObjectSnapshot)
  | linkObserved (link : FileLinkSnapshot)
  | linkRemoved (fileLinkId : FileLinkId) (objectKey : FileKey)
  | objectRemoved (objectKey : FileKey)
  | reconciliationRequired (volumeId : VolumeId) (reason : ReconciliationReason)
  deriving DecidableEq, Repr

/-- Searchable catalog projection of one link. -/
structure CatalogDocument where
  identity : CatalogIdentity
  documentVersion : Nat
  name : String
  resolvedPath : String
  extension : Option String
  metadata : FileMetadata
  deriving DecidableEq, Repr

/-- Idempotent mutation against a catalog projection. -/
inductive IndexMutation where
  | upsert (document : CatalogDocument)
  | delete (documentId : DocumentId) (documentVersion : Nat)
  deriving DecidableEq, Repr

namespace IndexMutation

/-- The document a mutation addresses. -/
def documentId : IndexMutation → DocumentId
  | upsert document => document.identity.documentId
  | delete id _ => id

/-- The version a mutation gives its document. -/
def documentVersion : IndexMutation → Nat
  | upsert document => document.documentVersion
  | delete _ version => version

/-- What the mutation leaves behind at its document. -/
def outcome : IndexMutation → Option CatalogDocument
  | upsert document => some document
  | delete _ _ => none

/-- The mutation as a write to the map from document ids to documents. -/
def write (mutation : IndexMutation) : DocumentId × Option CatalogDocument :=
  (mutation.documentId, mutation.outcome)

end IndexMutation

/-- One mutation at a durable outbox sequence. -/
structure SequencedMutation where
  sequence : Nat
  mutation : IndexMutation
  deriving DecidableEq, Repr

/-- Bounded mutation unit applied by an index writer. -/
structure MutationBatch where
  mutations : List SequencedMutation
  deriving DecidableEq, Repr

namespace MutationBatch

/-- Reasons for which a batch is refused. -/
inductive Refusal where
  | empty
  | notConsecutive
  | sequenceOverflow
  deriving DecidableEq, Repr

/-- The loop of `validate`: every sequence must be the expected one, and the
expected one must stay inside an unsigned 64-bit integer. -/
def validateFrom : Nat → List SequencedMutation → Except Refusal Unit
  | _, [] => .ok ()
  | expected, mutation :: rest =>
      if mutation.sequence ≠ expected then .error .notConsecutive
      else if 2 ^ 64 ≤ expected + 1 then .error .sequenceOverflow
      else validateFrom (expected + 1) rest

/-- Non-empty, strictly consecutive sequencing. -/
def validate (batch : MutationBatch) : Except Refusal Unit :=
  match batch.mutations with
  | [] => .error .empty
  | first :: _ => validateFrom first.sequence batch.mutations

def lastSequence (batch : MutationBatch) : Option Nat :=
  batch.mutations.getLast?.map (·.sequence)

end MutationBatch

/-- Portable description of one discovered volume. -/
structure VolumeDescriptor where
  volumeId : VolumeId
  displayName : Option String
  mountPoints : List String
  filesystem : Option String
  removable : Bool
  isLocal : Bool
  deriving DecidableEq, Repr

/-- Opaque provider-owned continuation point for one volume. -/
structure ProviderCheckpoint where
  providerId : String
  formatVersion : Nat
  volumeId : VolumeId
  opaqueBytes : List UInt8
  deriving DecidableEq, Repr

end LocalSearch.Core
