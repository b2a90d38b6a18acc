import LocalSearch.Content.Projection

/-!
# Content generations

Every generation is a directory of its own with a durable record beside its
index; a pointer selects the active one. A rebuild fills a candidate from pages
of the desired documents and switches the pointer to it once it validates.
-/
namespace LocalSearch.Content

set_option autoImplicit false

open Core Lib Graph Catalog

inductive ContentGenerationState where
  | building
  | ready
  | active
  | retired
  | failed
  deriving DecidableEq, Repr

inductive ContentCapacityLimit where
  | contentIndexBytes
  | documents
  | freeDisk
  deriving DecidableEq, Repr

structure ContentGenerationLimits where
  maxContentIndexBytes : Nat
  maxDocuments : Nat
  minFreeDiskBytes : Nat
  minFreeDiskPercent : Nat
  batchDocuments : Nat
  maximumBatches : Nat
  deriving DecidableEq, Repr

def ContentGenerationLimits.validate (limits : ContentGenerationLimits) :
    Except ContentIndexError ContentGenerationLimits :=
  if limits.maxContentIndexBytes = 0 ∨ limits.maxDocuments = 0 ∨ 50 < limits.minFreeDiskPercent ∨
      limits.batchDocuments = 0 ∨ 10000 < limits.batchDocuments ∨ limits.maximumBatches = 0 ∨
      4096 < limits.maximumBatches then .error .invalidPolicy
  else .ok limits

structure ContentGenerationRecord where
  state : ContentGenerationState
  targetSequence : Nat
  rootIds : List (List String)
  lastCheckpoint : Option DocumentId
  documentsSeen : Nat
  documentsProjected : Nat
  bytesProcessed : Nat
  commits : Nat
  indexGeneration : Nat
  contentIndexBytes : Nat
  capacityLimit : Option ContentCapacityLimit
  createdAtUnixMs : Nat
  updatedAtUnixMs : Nat
  deriving DecidableEq, Repr

/-- The record and the last commit of one generation directory. -/
structure Generation where
  record : ContentGenerationRecord
  index : Entries
  deriving DecidableEq, Repr

/-- The durable state of the manager, its generations by identifier. -/
structure ContentGenerationManager where
  generations : Table String Generation
  activePointer : Option String
  deriving DecidableEq

namespace ContentGenerationManager

def empty : ContentGenerationManager := ⟨.empty, none⟩

def writeState (state : ContentGenerationState) (now : Nat) (generation : Generation) : Generation :=
  { generation with record := { generation.record with state := state, updatedAtUnixMs := now } }

/-- The states follow the pointer; `open` runs this. -/
def recoverLifecycle (manager : ContentGenerationManager) (now : Nat) : ContentGenerationManager :=
  match manager.activePointer with
  | none => manager
  | some pointer =>
      { manager with generations := manager.generations.mapRows fun id generation =>
          if id = pointer then
            if generation.record.state = .active then generation else writeState .active now generation
          else if generation.record.state = .active then writeState .retired now generation
          else generation }

/-- The candidate a resume goes on with: a building one with the latest update. -/
def Newest (manager : ContentGenerationManager) (id : String) (generation : Generation) : Prop :=
  manager.generations.get id = some generation ∧ generation.record.state = .building ∧
    ∀ x ∈ manager.generations.rows, x.2.record.state = .building →
      x.2.record.updatedAtUnixMs ≤ generation.record.updatedAtUnixMs

/-- Building generations other than the kept one have failed. -/
def failBuilding (manager : ContentGenerationManager) (keep : Option String) (now : Nat) :
    ContentGenerationManager :=
  { manager with generations := manager.generations.mapRows fun id generation =>
      if generation.record.state = .building ∧ some id ≠ keep then writeState .failed now generation
      else generation }

/-- The directory, the empty index and the record of a new candidate. -/
def createBuilding (manager : ContentGenerationManager) (id : String) (roots : List (List String))
    (target stamp bytes now : Nat) : ContentGenerationManager :=
  let record : ContentGenerationRecord :=
    ⟨.building, target, roots, none, 0, 0, 0, 0, stamp, bytes, none, now, now⟩
  { manager with generations := manager.generations.insert id ⟨record, []⟩ }

def updateRecord (manager : ContentGenerationManager) (id : String)
    (f : ContentGenerationRecord → ContentGenerationRecord) : ContentGenerationManager :=
  { manager with generations := manager.generations.modify id fun generation =>
      { generation with record := f generation.record } }

def commitIndex (manager : ContentGenerationManager) (id : String) (index : Entries) :
    ContentGenerationManager :=
  { manager with generations := manager.generations.modify id fun generation =>
      { generation with index := index } }

/-- Failed generations, and retired ones beyond the newest `retainRetired`, save
the active one. -/
def removable (manager : ContentGenerationManager) (retainRetired : Nat) : List String :=
  let failed := manager.generations.select fun _ generation => generation.record.state == .failed
  let retired := (manager.generations.select fun _ generation =>
    generation.record.state == .retired).insertionSort
      fun a b => b.2.record.updatedAtUnixMs ≤ a.2.record.updatedAtUnixMs
  ((failed ++ retired.drop retainRetired).map (·.1)).filter fun id => manager.activePointer ≠ some id

def collectGarbage (manager : ContentGenerationManager) (retainRetired : Nat) :
    ContentGenerationManager :=
  let removed := manager.removable retainRetired
  { manager with generations := manager.generations.deleteWhere fun id _ => decide (id ∈ removed) }

/-- The last writes of an activation: the pointer leads here already. -/
def finishActivation (manager : ContentGenerationManager) (id : String) (previous : Option String)
    (now : Nat) : ContentGenerationManager :=
  let manager := manager.updateRecord id fun record =>
    { record with state := .active, updatedAtUnixMs := now }
  let manager := match previous with
    | none => manager
    | some previous =>
        if previous = id then manager
        else manager.updateRecord previous fun record =>
          { record with state := .retired, updatedAtUnixMs := now }
  manager.collectGarbage 1

end ContentGenerationManager

/-- What one turn of a resume measures. -/
structure Disk where
  total : Nat
  available : Nat
  indexBytes : Nat
  deriving DecidableEq, Repr

def writerHeapBytes : Nat := 32 * 1048576

/-- Sums and products of 64 bits that stay at the largest number. -/
def saturatingAdd (a b : Nat) : Nat := min (a + b) (2 ^ 64 - 1)

def saturatingMul (a b : Nat) : Nat := min (a * b) (2 ^ 64 - 1)

def requiredDiskReserve (total : Nat) (limits : ContentGenerationLimits) : Nat :=
  max limits.minFreeDiskBytes (saturatingMul total limits.minFreeDiskPercent / 100)

def forecastIndexGrowth (declaredSourceBytes documents : Nat) : Nat :=
  saturatingAdd (saturatingMul declaredSourceBytes 2) (saturatingMul documents 1024)

/-- The limit that stops a turn before its page is read. -/
def limitBefore (limits : ContentGenerationLimits) (disk : Disk) (record : ContentGenerationRecord) :
    Option ContentCapacityLimit :=
  if limits.maxContentIndexBytes ≤ disk.indexBytes then some .contentIndexBytes
  else if limits.maxDocuments ≤ record.documentsProjected then some .documents
  else if disk.available ≤ saturatingAdd (requiredDiskReserve disk.total limits) writerHeapBytes then
    some .freeDisk
  else none

/-- The limit that stops it once the page is known. -/
def limitAfter (limits : ContentGenerationLimits) (disk : Disk) (declared documents : Nat) :
    Option ContentCapacityLimit :=
  if limits.maxContentIndexBytes < saturatingAdd disk.indexBytes (forecastIndexGrowth declared documents) then
    some .contentIndexBytes
  else if disk.available ≤ saturatingAdd (saturatingAdd (requiredDiskReserve disk.total limits)
      (forecastIndexGrowth declared documents)) writerHeapBytes then some .freeDisk
  else none

def pageLimit (limits : ContentGenerationLimits) (record : ContentGenerationRecord) : Nat :=
  min (limits.maxDocuments - record.documentsProjected) limits.batchDocuments

section Bytes

variable [CaseMapping]

def ContentIndexPolicy.declaredEligibleBytes (policy : ContentIndexPolicy) (document : CatalogDocument) :
    Nat :=
  if document.metadata.kind = .file ∧ document.metadata.availability = .online ∧
      document.metadata.size ≤ policy.maxFileBytes ∧
      ∃ extension ∈ document.extension, CaseMapping.toLowercase extension ∈ policy.extensions then
    document.metadata.size
  else 0

def declaredBytes (policy : ContentIndexPolicy) (page : List CatalogDocument) : Nat :=
  (page.map policy.declaredEligibleBytes).foldl saturatingAdd 0

end Bytes

/-- Live documents a commit leaves that were not there, or were there already. -/
def projectedDocuments (outcomes : List SyncOutcome) : Nat :=
  outcomes.count .added + outcomes.count .unchanged

/-- The record after a page was committed. -/
def ContentGenerationRecord.advance (record : ContentGenerationRecord) (page : List CatalogDocument)
    (declared : Nat) (outcomes : List SyncOutcome) (stamp bytes now : Nat) : ContentGenerationRecord :=
  { record with
    lastCheckpoint := page.getLast?.map (·.identity.documentId)
    documentsSeen := record.documentsSeen + page.length
    documentsProjected := record.documentsProjected + projectedDocuments outcomes
    bytesProcessed := record.bytesProcessed + declared
    commits := record.commits + 1
    indexGeneration := stamp
    contentIndexBytes := bytes
    capacityLimit := none
    updatedAtUnixMs := now }

end LocalSearch.Content
