import LocalSearch.Core.Models
import LocalSearch.Lib.Result

/-!
# Graph mutations, errors and batch validation

The portable ingestion contract of the durable graph: the mutation kinds, the
typed failures and the volume isolation check that runs before any row is
touched.
-/
namespace LocalSearch.Graph

set_option autoImplicit false

open Core Lib

/-- Durable lifecycle state of a discovered volume. -/
inductive VolumeState where
  | online
  | offline
  | needsReconciliation
  deriving DecidableEq, Repr

/-- Full-volume observation mode. -/
inductive ObservationScanMode where
  | initial
  | reconcile
  deriving DecidableEq, Repr

/-- Durable phase of one observation session. -/
inductive ObservationScanPhase where
  | scanning
  | sweepingLinks
  | sweepingObjects
  deriving DecidableEq, Repr

/-- `SQLite` failures the statements of the store can meet. -/
inductive SqliteError where
  | uniqueViolation
  | foreignKeyViolation
  | queryReturnedNoRows
  deriving DecidableEq, Repr

inductive GraphError where
  | sqlite (error : SqliteError)
  | serialization
  | invalidBatch (message : String)
  | invariant (message : String)
  | linkNotFound (link : FileLinkId)
  | missingParent (object : FileKey)
  | ambiguousParent (object : FileKey)
  | parentCycle (object : FileKey)
  | traversalBoundary (link : FileLinkId)
  | depthLimit (limit : Nat)
  | numericRange (field : String)
  deriving DecidableEq, Repr

abbrev GraphResult (α : Type) := Except GraphError α

/-- A platform-neutral state transition applied to the durable graph. -/
inductive GraphMutation where
  | upsertVolume (descriptor : VolumeDescriptor)
  | setVolumeState (volumeId : VolumeId) (state : VolumeState)
  | upsertObject (object : FileObjectSnapshot)
  | upsertLink (link : FileLinkSnapshot) (traversalBoundary : Bool)
  | removeLink (fileLinkId : FileLinkId) (objectKey : FileKey)
  | tombstoneObject (objectKey : FileKey)
  | requireReconciliation (volumeId : VolumeId) (reason : ReconciliationReason)
  deriving DecidableEq, Repr

/-- Provider events carry no traversal boundary. -/
def GraphMutation.ofEvent : FilesystemEvent → GraphMutation
  | .objectObserved object => .upsertObject object
  | .linkObserved link => .upsertLink link false
  | .linkRemoved fileLinkId objectKey => .removeLink fileLinkId objectKey
  | .objectRemoved objectKey => .tombstoneObject objectKey
  | .reconciliationRequired volumeId reason => .requireReconciliation volumeId reason

/-- One atomic provider-to-graph ingestion unit. -/
structure GraphMutationBatch where
  volumeId : VolumeId
  checkpoint : ProviderCheckpoint
  mutations : List GraphMutation
  deriving DecidableEq, Repr

/-- The volume a mutation belongs to; a link may not cross volumes. -/
def validateMutationVolume (mutation : GraphMutation) (expected : VolumeId) : GraphResult Unit := do
  let actual ← match mutation with
    | .upsertVolume descriptor => Except.ok descriptor.volumeId
    | .setVolumeState volumeId _ => .ok volumeId
    | .requireReconciliation volumeId _ => .ok volumeId
    | .upsertObject object => .ok object.objectKey.volumeId
    | .upsertLink link _ =>
        if ∃ parent ∈ link.parentKey, parent.volumeId ≠ link.objectKey.volumeId then
          .error (.invalidBatch "a filesystem link cannot cross volumes")
        else .ok link.objectKey.volumeId
    | .removeLink _ objectKey => .ok objectKey.volumeId
    | .tombstoneObject objectKey => .ok objectKey.volumeId
  if actual ≠ expected then .error (.invalidBatch "mutation volume does not match batch volume")
  else .ok ()

namespace GraphMutationBatch

def fromEvents (volumeId : VolumeId) (checkpoint : ProviderCheckpoint)
    (events : List FilesystemEvent) : GraphMutationBatch :=
  ⟨volumeId, checkpoint, events.map GraphMutation.ofEvent⟩

def validateMutations (expected : VolumeId) : List GraphMutation → GraphResult Unit
  | [] => .ok ()
  | mutation :: rest => do
      validateMutationVolume mutation expected
      validateMutations expected rest

/-- Volume isolation of the checkpoint and of every mutation. -/
def validate (batch : GraphMutationBatch) : GraphResult Unit :=
  if batch.checkpoint.volumeId ≠ batch.volumeId then
    .error (.invalidBatch "checkpoint volume does not match mutation batch")
  else validateMutations batch.volumeId batch.mutations

end GraphMutationBatch

/-- What volume validation says about an accepted mutation. -/
def GraphMutation.InVolume (v : VolumeId) : GraphMutation → Prop
  | .upsertVolume descriptor => descriptor.volumeId = v
  | .setVolumeState volumeId _ => volumeId = v
  | .requireReconciliation volumeId _ => volumeId = v
  | .upsertObject object => object.objectKey.volumeId = v
  | .upsertLink link _ =>
      link.objectKey.volumeId = v ∧ ∀ parent ∈ link.parentKey, parent.volumeId = v
  | .removeLink _ objectKey => objectKey.volumeId = v
  | .tombstoneObject objectKey => objectKey.volumeId = v

theorem validateMutationVolume_ok {m : GraphMutation} {v : VolumeId} :
    validateMutationVolume m v = .ok () ↔ m.InVolume v := by
  cases m with
  | upsertLink link boundary =>
    by_cases hp : ∃ parent ∈ link.parentKey, parent.volumeId ≠ link.objectKey.volumeId
    · simp only [validateMutationVolume, if_pos hp, GraphMutation.InVolume]
      refine ⟨fun h => (nomatch h), fun ⟨hv, h⟩ => ?_⟩
      obtain ⟨p, hp, hne⟩ := hp
      exact absurd ((h p hp).trans hv.symm) hne
    · have hsame : ∀ p ∈ link.parentKey, p.volumeId = link.objectKey.volumeId := by
        intro p hpm
        by_contra hne
        exact hp ⟨p, hpm, hne⟩
      simp only [validateMutationVolume, if_neg hp, GraphMutation.InVolume, bind, Except.bind]
      rw [guard_ok]
      constructor
      · rintro ⟨h, -⟩
        exact ⟨not_not.mp h, fun p hpm => (hsame p hpm).trans (not_not.mp h)⟩
      · rintro ⟨h, -⟩
        exact ⟨not_not.mpr h, rfl⟩
  | _ => simp [validateMutationVolume, GraphMutation.InVolume, bind, Except.bind]

theorem validateMutations_ok {v : VolumeId} {ms : List GraphMutation} :
    GraphMutationBatch.validateMutations v ms = .ok () ↔ ∀ m ∈ ms, m.InVolume v := by
  induction ms with
  | nil => simp [GraphMutationBatch.validateMutations]
  | cons m ms ih =>
    rw [GraphMutationBatch.validateMutations, bind_ok, List.forall_mem_cons, ← ih,
      ← validateMutationVolume_ok]
    exact ⟨fun ⟨_, h, hr⟩ => ⟨h, hr⟩, fun ⟨h, hr⟩ => ⟨(), h, hr⟩⟩

theorem validate_ok {batch : GraphMutationBatch} :
    batch.validate = .ok () ↔ batch.checkpoint.volumeId = batch.volumeId ∧
      ∀ m ∈ batch.mutations, m.InVolume batch.volumeId := by
  rw [GraphMutationBatch.validate, guard_ok, validateMutations_ok, not_not]

/-- Counts returned after one atomic batch. -/
structure ApplySummary where
  mutations : Nat
  generation : Nat
  refreshJobsEnqueued : Nat
  outboxMutationsAppended : Nat
  deriving DecidableEq, Repr

/-- Result of one bounded refresh step. -/
structure ProjectionRefreshSummary where
  linksScanned : Nat
  outboxMutationsAppended : Nat
  jobCompleted : Bool
  deriving DecidableEq, Repr

/-- Result of one bounded sweep transaction. -/
structure ObservationFinalizeSummary where
  staleLinksRemoved : Nat
  staleObjectsTombstoned : Nat
  completed : Bool
  deriving DecidableEq, Repr

end LocalSearch.Graph
