import LocalSearch.Graph.Admission
import LocalSearch.Windows.Crawl
import LocalSearch.Lib.Batch

/-!
# Synchronisation of a folder

A folder sync reports what a crawl of the folder finds in bounded batches. Then
it reads which links have a document, removes those it has not seen, tombstones
the objects it has not seen, and commits its checkpoint last. It may stop behind
any batch, and the refresh queues may be worked off at any time.
-/
namespace LocalSearch.Content

set_option autoImplicit false

open Core Lib Graph Windows

/-- An entry of a directory as a crawl finds it, with what can be read below. -/
inductive FoundEntry where
  | node (fileReference : Nat) (metadata : FileMetadata) (reparsePoint : Bool) (name : String)
      (below : List FoundEntry)

/-- `ScopedScanOptions`. -/
structure ScopedScanOptions where
  excludedDirectoryNames : List String

section Crawl

variable [CaseMapping]

def ScopedScanOptions.excluding (names : List String) : ScopedScanOptions :=
  ⟨names.map CaseMapping.toLowercase⟩

def ScopedScanOptions.descendsInto (options : ScopedScanOptions) (name : String) : Bool :=
  !options.excludedDirectoryNames.contains (CaseMapping.toLowercase name)

mutual

/-- An entry, and what is below it if it is a directory to enter. -/
def crawlEntry (options : ScopedScanOptions) (v : VolumeId) (parent : FileKey) :
    FoundEntry → List CrawlEntry
  | .node fileReference metadata reparsePoint name below =>
      ⟨⟨fileKey v fileReference, metadata⟩, some parent, name⟩ ::
        if metadata.kind = .directory ∧ reparsePoint = false ∧ options.descendsInto name then
          crawl options v (fileKey v fileReference) below
        else []

def crawl (options : ScopedScanOptions) (v : VolumeId) (parent : FileKey) :
    List FoundEntry → List CrawlEntry
  | [] => []
  | entry :: rest => crawlEntry options v parent entry ++ crawl options v parent rest

end

end Crawl

/-- What a sync of one root is called with, and what its crawl finds. -/
structure FolderSync where
  descriptor : VolumeDescriptor
  rootReference : Nat
  rootMetadata : FileMetadata
  displayRoot : String
  rootFingerprint : List UInt8
  options : ScopedScanOptions
  found : List FoundEntry
  scanBatchSize : Nat
  rebuildableInitialIngest : Bool

namespace FolderSync

def volumeId (sync : FolderSync) : VolumeId := sync.descriptor.volumeId

/-- The root and what is below it, in the order it is reported. -/
def entries [CaseMapping] (sync : FolderSync) : List CrawlEntry :=
  ⟨⟨fileKey sync.volumeId sync.rootReference, sync.rootMetadata⟩, none, sync.displayRoot⟩ ::
    crawl sync.options sync.volumeId (fileKey sync.volumeId sync.rootReference) sync.found

def incomplete (sync : FolderSync) : ProviderCheckpoint where
  providerId := "windows-scoped-folder-incomplete"
  formatVersion := 1
  volumeId := sync.volumeId
  opaqueBytes := []

def scanCheckpoint (sync : FolderSync) : ProviderCheckpoint where
  providerId := "windows-scoped-folder"
  formatVersion := 1
  volumeId := sync.volumeId
  opaqueBytes := sync.rootFingerprint

def applyFolderGraphBatch [CaseMapping] (sync : FolderSync) (g : FilesystemGraph)
    (batch : GraphMutationBatch) : GraphResult FilesystemGraph :=
  (·.1) <$> if sync.rebuildableInitialIngest then applyRebuildableBatch g batch else applyBatch g batch

def applyScopedBatch [CaseMapping] (sync : FolderSync) (g : FilesystemGraph)
    (pending : List GraphMutation) : GraphResult FilesystemGraph :=
  sync.applyFolderGraphBatch g
    ⟨sync.volumeId, sync.incomplete, .upsertVolume sync.descriptor :: pending⟩

def finalBatch (sync : FolderSync) : GraphMutationBatch :=
  ⟨sync.volumeId, sync.scanCheckpoint, [.upsertVolume sync.descriptor]⟩

/-- The events of the crawl, as the sink turns them into mutations. -/
def scanMutations [CaseMapping] (sync : FolderSync) : List GraphMutation :=
  (sync.entries.flatMap (CrawlEntry.events sync.volumeId)).map GraphMutation.ofEvent

def observedLinks [CaseMapping] (sync : FolderSync) : List FileLinkId :=
  sync.entries.map (CrawlEntry.fileLinkId sync.volumeId)

def observedObjects [CaseMapping] (sync : FolderSync) : List FileKey :=
  sync.entries.map (·.object.objectKey)

/-- The ordered set of the objects that have a document and were not observed. -/
def missingObjects [CaseMapping] (sync : FolderSync) (current : List (FileLinkId × FileKey)) :
    List FileKey :=
  (((current.map (·.2)).filter fun key => !sync.observedObjects.contains key).dedup).insertionSort
    (· ≤ ·)

/-- What is pushed after the crawl: the removals, then the tombstones. -/
def removalMutations [CaseMapping] (sync : FolderSync) (current : List (FileLinkId × FileKey)) :
    List GraphMutation :=
  ((current.filter fun x => !sync.observedLinks.contains x.1).map fun x => .removeLink x.1 x.2) ++
    (sync.missingObjects current).map .tombstoneObject

end FolderSync

/-- The links of a volume that have a document, in link order. -/
def desiredCatalogIdentities (g : FilesystemGraph) (v : VolumeId) : List (FileLinkId × FileKey) :=
  (g.catalog.select fun _ row => row.objectKey.volumeId == v).map fun x =>
    (x.2.fileLinkId, x.2.objectKey)

/-- How far a sync has come, with the batches it has yet to commit. -/
inductive SyncStage where
  | idle
  | scanning (sync : FolderSync) (flushed : List (List GraphMutation))
  | removing (sync : FolderSync) (flushed : List (List GraphMutation))
  | complete (sync : FolderSync)

structure SyncState where
  graph : FilesystemGraph
  stage : SyncStage

section Runs

variable [CaseMapping]

/-- What a sync does next: one batch, or the reading of the identities. -/
def SyncState.step : SyncState → GraphResult SyncState
  | ⟨g, .idle⟩ => .ok ⟨g, .idle⟩
  | ⟨g, .complete sync⟩ => .ok ⟨g, .complete sync⟩
  | ⟨g, .scanning sync (pending :: rest)⟩ => do
      let g ← sync.applyScopedBatch g pending
      .ok ⟨g, .scanning sync rest⟩
  | ⟨g, .scanning sync []⟩ =>
      let current := desiredCatalogIdentities g sync.volumeId
      .ok ⟨g, .removing sync (flushes sync.scanBatchSize [] (sync.removalMutations current))⟩
  | ⟨g, .removing sync (pending :: rest)⟩ => do
      let g ← sync.applyScopedBatch g pending
      .ok ⟨g, .removing sync rest⟩
  | ⟨g, .removing sync []⟩ => do
      let g ← sync.applyFolderGraphBatch g sync.finalBatch
      .ok ⟨g, .complete sync⟩

/-- What may happen: a sync starts, goes on or is given up, and a refresh queue
is worked off in between. A sync starts under `fits` and goes on under `ready`. -/
inductive SyncStep (fits : FolderSync → FilesystemGraph → Prop) (ready : SyncState → Prop) :
    SyncState → SyncState → Prop
  | start {g : FilesystemGraph} {sync : FolderSync}
      (hmode : sync.rebuildableInitialIngest = true → projectionConsumersExist g = false)
      (hfits : fits sync g) :
      SyncStep fits ready ⟨g, .idle⟩ ⟨g, .scanning sync (flushes sync.scanBatchSize [] sync.scanMutations)⟩
  | step {s s' : SyncState} (hready : ready s) (h : s.step = .ok s') : SyncStep fits ready s s'
  | giveUp {g : FilesystemGraph} {stage : SyncStage} : SyncStep fits ready ⟨g, stage⟩ ⟨g, .idle⟩
  | refreshPaths {g g' : FilesystemGraph} {stage : SyncStage} {maximumLinks : Nat}
      {summary : ProjectionRefreshSummary}
      (h : refreshProjectionPaths g maximumLinks = .ok (g', summary)) :
      SyncStep fits ready ⟨g, stage⟩ ⟨g', stage⟩
  | refreshVolume {g g' : FilesystemGraph} {stage : SyncStage} {maximumLinks : Nat}
      {summary : ProjectionRefreshSummary}
      (h : refreshVolumeProjection g maximumLinks = .ok (g', summary)) :
      SyncStep fits ready ⟨g, stage⟩ ⟨g', stage⟩
  | acknowledge {g g' : FilesystemGraph} {consumerId : String} {lastSequence generation : Nat}
      (h : acknowledgeProjection g consumerId lastSequence generation = .ok g') :
      SyncStep fits ready ⟨g, .idle⟩ ⟨g', .idle⟩

def SyncRun (fits : FolderSync → FilesystemGraph → Prop) (ready : SyncState → Prop) :
    SyncState → Prop :=
  Relation.ReflTransGen (SyncStep fits ready) ⟨.empty, .idle⟩

end Runs

end LocalSearch.Content
