import LocalSearch.Lib.Table
import LocalSearch.Graph.Domain
import Mathlib.Data.String.Basic

/-!
# The durable tables

One `Table` per `SQLite` table of schema version five, keyed by its primary
key. A nullable or two-valued column is an option or an inductive type, and the
table constraint that ties a session's staged checkpoint to its phase is built
into the phase. Transactions are total functions on this record: a failed one
returns an error and no new state.
-/
namespace LocalSearch.Graph

set_option autoImplicit false

open Core Lib

/-- `graph_volumes`. -/
structure VolumeRow where
  descriptor : VolumeDescriptor
  state : VolumeState
  reconciliationReason : Option ReconciliationReason
  generation : Nat
  deriving DecidableEq, Repr

/-- `graph_provider_checkpoints`. -/
structure CheckpointRow where
  providerId : String
  formatVersion : Nat
  opaqueBytes : List UInt8
  deriving DecidableEq, Repr

/-- `graph_file_objects`. -/
structure ObjectRow where
  metadata : FileMetadata
  tombstoned : Bool
  observationGeneration : Nat
  deriving DecidableEq, Repr

/-- `graph_file_links`. -/
structure LinkRow where
  objectKey : FileKey
  parentKey : Option FileKey
  name : String
  traversalBoundary : Bool
  observationGeneration : Nat
  deriving DecidableEq, Repr

/-- Refresh jobs are pending (code 0) or finished (code 2). -/
inductive JobState where
  | pending
  | finished
  deriving DecidableEq, Repr

/-- `graph_path_refresh_jobs`. -/
structure PathJobRow where
  rootObject : FileKey
  enqueuedGeneration : Nat
  projectionScanCursor : Option FileLinkId
  state : JobState
  deriving DecidableEq, Repr

/-- `graph_volume_projection_refresh_jobs`. -/
structure VolumeJobRow where
  enqueuedGeneration : Nat
  projectionScanCursor : Option FileLinkId
  state : JobState
  deriving DecidableEq, Repr

/-- The projected content a fingerprint covers: everything but the version. -/
structure CatalogContent where
  identity : CatalogIdentity
  name : String
  resolvedPath : String
  extension : Option String
  metadata : FileMetadata
  deriving DecidableEq, Repr

def CatalogContent.ofDocument (document : CatalogDocument) : CatalogContent :=
  ⟨document.identity, document.name, document.resolvedPath, document.extension, document.metadata⟩

/-- `graph_catalog_documents`. The empty `document_json` of a compact row is
`none`, and a digest is held as the content it digests: SHA-256 is taken to be
free of collisions. -/
structure CatalogRow where
  objectKey : FileKey
  fileLinkId : FileLinkId
  documentVersion : Nat
  documentJson : Option CatalogDocument
  projectionPath : Option String
  projectionFingerprint : Option CatalogContent
  deriving DecidableEq, Repr

/-- `graph_projection_outbox`. -/
structure OutboxRow where
  documentId : DocumentId
  documentVersion : Nat
  mutation : IndexMutation
  deriving DecidableEq, Repr

/-- `graph_projection_consumers`. -/
structure ConsumerRow where
  lastSequence : Nat
  indexGeneration : Nat
  deriving DecidableEq, Repr

/-- The staged checkpoint is present exactly after the scanning phase. -/
inductive SessionPhase where
  | scanning
  | sweepingLinks (staged : CheckpointRow)
  | sweepingObjects (staged : CheckpointRow)
  deriving DecidableEq, Repr

def SessionPhase.phase : SessionPhase → ObservationScanPhase
  | scanning => .scanning
  | sweepingLinks _ => .sweepingLinks
  | sweepingObjects _ => .sweepingObjects

/-- `graph_volume_observation_sessions`. -/
structure SessionRow where
  scanGeneration : Nat
  scanMode : ObservationScanMode
  phase : SessionPhase
  deriving DecidableEq, Repr

/-- The database behind `FilesystemGraph`. `sqliteSequence` is the high-water
mark `AUTOINCREMENT` keeps for the outbox. -/
structure FilesystemGraph where
  volumes : Table VolumeId VolumeRow
  checkpoints : Table VolumeId CheckpointRow
  objects : Table FileKey ObjectRow
  links : Table FileLinkId LinkRow
  pathJobs : Table Nat PathJobRow
  volumeJobs : Table VolumeId VolumeJobRow
  catalog : Table DocumentId CatalogRow
  outbox : Table Nat OutboxRow
  sqliteSequence : Option Nat
  consumers : Table String ConsumerRow
  sessions : Table VolumeId SessionRow
  deriving DecidableEq

/-- A freshly migrated database. -/
def FilesystemGraph.empty : FilesystemGraph where
  volumes := .empty
  checkpoints := .empty
  objects := .empty
  links := .empty
  pathJobs := .empty
  volumeJobs := .empty
  catalog := .empty
  outbox := .empty
  sqliteSequence := none
  consumers := .empty
  sessions := .empty

/-- `checked_add(1)` on a non-negative 64-bit column. -/
def checkedSucc (value : Nat) (field : String) : GraphResult Nat :=
  if 2 ^ 63 ≤ value + 1 then .error (.numericRange field) else .ok (value + 1)

theorem checkedSucc_ok {value next : Nat} {field : String} :
    checkedSucc value field = .ok next ↔ value + 1 < 2 ^ 63 ∧ next = value + 1 := by
  rw [checkedSucc, guard_ok, not_le, Except.ok.injEq, eq_comm (a := value + 1)]

/-- A projected document reuses the bytes of its link identity. -/
def documentIdForLink (fileLinkId : FileLinkId) : DocumentId := ⟨fileLinkId.bits⟩

theorem documentIdForLink_injective : Function.Injective documentIdForLink := by
  rintro ⟨a⟩ ⟨b⟩ h
  exact congrArg Id128.mk (Id128.mk.inj h)

/-- The link identity behind a document identity. -/
def linkOfDocument (documentId : DocumentId) : FileLinkId := ⟨documentId.bits⟩

@[simp] theorem linkOfDocument_documentIdForLink (id : FileLinkId) :
    linkOfDocument (documentIdForLink id) = id := rfl

@[simp] theorem documentIdForLink_linkOfDocument (id : DocumentId) :
    documentIdForLink (linkOfDocument id) = id := rfl

end LocalSearch.Graph
