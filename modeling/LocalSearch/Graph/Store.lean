import LocalSearch.Graph.Mutation
import Mathlib.Data.List.Sort
import Mathlib.Logic.Relation

/-!
# The transactions of the durable graph

Every public write of the store as one atomic step: provider batches in both
outbox modes, the observation-scan life cycle, the two bounded refresh queues
and consumer checkpoints. A step that reports an error commits nothing.
-/
namespace LocalSearch.Graph

set_option autoImplicit false

open Core Lib

variable [CaseMapping]

def projectionConsumersExist (g : FilesystemGraph) : Bool := !g.consumers.rows.isEmpty

/-- Current generation of a volume, zero when it is unknown. -/
def currentGeneration (g : FilesystemGraph) (volumeId : VolumeId) : Nat :=
  (g.volumes.get volumeId).elim 0 (·.generation)

def setGeneration (g : FilesystemGraph) (volumeId : VolumeId) (generation : Nat) : FilesystemGraph :=
  { g with volumes := g.volumes.modify volumeId fun row => { row with generation := generation } }

/-- The mutation loop of a batch: gather the affected links, then apply. -/
def applyMutations (generation : Nat) :
    FilesystemGraph → LinkSet → List GraphMutation → GraphResult (FilesystemGraph × LinkSet × Nat)
  | g, affected, [] => .ok (g, affected, 0)
  | g, affected, mutation :: rest => do
      let (g', jobs) ← applyMutation g mutation generation
      let (g', affected, more) ←
        applyMutations generation g' (collectAffectedLinks g mutation affected) rest
      .ok (g', affected, jobs + more)

omit [CaseMapping] in
/-- What every accepted mutation of the list preserves, the loop preserves. -/
theorem applyMutations_induct {P : FilesystemGraph → LinkSet → Prop} {generation n : Nat}
    {g g' : FilesystemGraph} {affected affected' : LinkSet} {ms : List GraphMutation}
    (hstep : ∀ m ∈ ms, ∀ g affected g' n, P g affected → applyMutation g m generation = .ok (g', n) →
      P g' (collectAffectedLinks g m affected))
    (h : applyMutations generation g affected ms = .ok (g', affected', n)) (h₀ : P g affected) :
    P g' affected' := by
  induction ms generalizing g affected n with
  | nil =>
    obtain ⟨rfl, rfl, -⟩ := Prod.mk.inj (Except.ok.inj h) |>.imp id Prod.mk.inj
    exact h₀
  | cons m ms ih =>
    simp only [applyMutations, bind_ok] at h
    obtain ⟨⟨g₁, n₁⟩, h₁, ⟨g₂, affected₂, n₂⟩, h₂, heq⟩ := h
    obtain ⟨rfl, rfl, -⟩ := Prod.mk.inj (Except.ok.inj heq) |>.imp id Prod.mk.inj
    exact ih (fun x hx => hstep x (List.mem_cons_of_mem _ hx)) h₂
      (hstep m List.mem_cons_self g affected g₁ n₁ h₀ h₁)

omit [CaseMapping] in
theorem applyMutations_frame {gen n : Nat} {g g' : FilesystemGraph} {affected affected' : LinkSet}
    {ms : List GraphMutation} (h : applyMutations gen g affected ms = .ok (g', affected', n)) :
    g' = { g with
      volumes := g'.volumes, objects := g'.objects, links := g'.links
      pathJobs := g'.pathJobs, volumeJobs := g'.volumeJobs } := by
  refine applyMutations_induct (P := fun g' _ => g' = { g with
    volumes := g'.volumes, objects := g'.objects, links := g'.links
    pathJobs := g'.pathJobs, volumeJobs := g'.volumeJobs }) ?_ h rfl
  intro m _ g₁ affected₁ g₂ n h₁ h₂
  rw [h₁] at h₂
  rw [applyMutation_frame h₂]

/-- Every mutation of the loop meets `P` in the state it is applied to. -/
def EachMutation (P : FilesystemGraph → GraphMutation → Prop) (generation : Nat) :
    FilesystemGraph → List GraphMutation → Prop
  | _, [] => True
  | g, mutation :: rest => P g mutation ∧ ∀ g' jobs,
      applyMutation g mutation generation = .ok (g', jobs) → EachMutation P generation g' rest

omit [CaseMapping] in
theorem EachMutation.imp {P Q : FilesystemGraph → GraphMutation → Prop} {generation : Nat}
    (hPQ : ∀ g m, P g m → Q g m) {g : FilesystemGraph} {ms : List GraphMutation}
    (h : EachMutation P generation g ms) : EachMutation Q generation g ms := by
  induction ms generalizing g with
  | nil => trivial
  | cons m ms ih => exact ⟨hPQ g m h.1, fun g' jobs hrun => ih (h.2 g' jobs hrun)⟩

instance EachMutation.decidable (P : FilesystemGraph → GraphMutation → Prop)
    [∀ g m, Decidable (P g m)] (generation : Nat) :
    ∀ g ms, Decidable (EachMutation P generation g ms)
  | _, [] => isTrue trivial
  | g, m :: ms =>
      match hrun : applyMutation g m generation with
      | .error _ => decidable_of_iff (P g m) ⟨fun h => ⟨h, fun _ _ he => by cases hrun.symm.trans he⟩,
          And.left⟩
      | .ok (g₁, n) =>
          have := EachMutation.decidable P generation g₁ ms
          decidable_of_iff (P g m ∧ EachMutation P generation g₁ ms) ⟨fun h => ⟨h.1, fun g' _ he => by
            obtain ⟨rfl, -⟩ := Prod.mk.inj (Except.ok.inj (hrun.symm.trans he))
            exact h.2⟩, fun h => ⟨h.1, h.2 g₁ n hrun⟩⟩

/-- Some mutation of the loop meets `P` in the state it is applied to. -/
def SomeMutation (P : FilesystemGraph → GraphMutation → Prop) (generation : Nat) :
    FilesystemGraph → List GraphMutation → Prop
  | _, [] => False
  | g, mutation :: rest => P g mutation ∨ ∃ g' jobs,
      applyMutation g mutation generation = .ok (g', jobs) ∧ SomeMutation P generation g' rest

def putCheckpoint (g : FilesystemGraph) (volumeId : VolumeId) (row : CheckpointRow) :
    FilesystemGraph :=
  { g with checkpoints := g.checkpoints.insert volumeId row }

def ProviderCheckpoint.row (checkpoint : ProviderCheckpoint) : CheckpointRow :=
  ⟨checkpoint.providerId, checkpoint.formatVersion, checkpoint.opaqueBytes⟩

def applyBatchWithOutboxMode (g : FilesystemGraph) (batch : GraphMutationBatch)
    (mode : ProjectionOutboxMode) : GraphResult (FilesystemGraph × ApplySummary) := do
  batch.validate
  if mode = .rebuildable ∧ projectionConsumersExist g then
    .error (.invariant "rebuildable graph batch requires zero projection consumers")
  else do
    let generation ← checkedSucc (currentGeneration g batch.volumeId) "graph generation"
    let (g, affected, refreshJobs) ← applyMutations generation g .empty batch.mutations
    let (g, appended) ← syncLinks g generation mode (affected.rows.map (·.1))
    if (g.volumes.get batch.volumeId).isNone then
      .error (.invariant "batch must upsert its volume before graph observations")
    else
      let g := setGeneration g batch.volumeId generation
      let g := putCheckpoint g batch.volumeId (ProviderCheckpoint.row batch.checkpoint)
      .ok (g, ⟨batch.mutations.length, generation, refreshJobs, appended⟩)

def applyBatch (g : FilesystemGraph) (batch : GraphMutationBatch) :
    GraphResult (FilesystemGraph × ApplySummary) :=
  applyBatchWithOutboxMode g batch .durable

def applyRebuildableBatch (g : FilesystemGraph) (batch : GraphMutationBatch) :
    GraphResult (FilesystemGraph × ApplySummary) :=
  applyBatchWithOutboxMode g batch .rebuildable

/-- Restart-safe observation progress as the store reports it. -/
structure ObservationSession where
  volumeId : VolumeId
  scanGeneration : Nat
  mode : ObservationScanMode
  phase : ObservationScanPhase
  deriving DecidableEq, Repr

def observationSession (g : FilesystemGraph) (volumeId : VolumeId) : Option ObservationSession :=
  (g.sessions.get volumeId).map fun row => ⟨volumeId, row.scanGeneration, row.scanMode, row.phase.phase⟩

def beginObservationScan (g : FilesystemGraph) (descriptor : VolumeDescriptor)
    (mode : ObservationScanMode) (reason : ReconciliationReason) :
    GraphResult (FilesystemGraph × ObservationSession) := do
  let volumeId := descriptor.volumeId
  let scanGeneration ← checkedSucc (currentGeneration g volumeId) "observation scan generation"
  let g := upsertVolume g descriptor
  let g := { g with
    volumes := g.volumes.modify volumeId fun row =>
      { row with
        state := .needsReconciliation
        reconciliationReason := some reason
        generation := scanGeneration } }
  let (g, _) := enqueueVolumeProjectionRefresh g volumeId scanGeneration
  let g := { g with sessions := g.sessions.insert volumeId ⟨scanGeneration, mode, .scanning⟩ }
  .ok (g, ⟨volumeId, scanGeneration, mode, .scanning⟩)

/-- Provider id of the marker stored while a scan is open. -/
def scanMarkerProvider : String := "localsearch-observation-scan"

/-- Marker checkpoint committed with every scan page. -/
def observationScanCheckpoint (session : ObservationSession) : ProviderCheckpoint where
  providerId := scanMarkerProvider
  formatVersion := 1
  volumeId := session.volumeId
  opaqueBytes := (List.range 8).map fun i => UInt8.ofNat (session.scanGeneration / 256 ^ (7 - i))

def applyObservationScanPage (g : FilesystemGraph) (volumeId : VolumeId)
    (events : List FilesystemEvent) : GraphResult (FilesystemGraph × ApplySummary) :=
  match observationSession g volumeId with
  | none => .error (.invariant "observation scan page has no durable session")
  | some session =>
      if session.phase ≠ .scanning then
        .error (.invariant "observation scan page arrived after finalization started")
      else if events.isEmpty then .ok (g, ⟨0, session.scanGeneration, 0, 0⟩)
      else applyBatch g (.fromEvents volumeId (observationScanCheckpoint session) events)

def stageObservationCheckpoint (g : FilesystemGraph) (volumeId : VolumeId)
    (checkpoint : ProviderCheckpoint) : GraphResult FilesystemGraph :=
  if checkpoint.volumeId ≠ volumeId then
    .error (.invalidBatch "observation checkpoint crosses volumes")
  else
    match g.sessions.get volumeId with
    | some ⟨scanGeneration, mode, .scanning⟩ =>
        let row := ⟨scanGeneration, mode, .sweepingLinks (ProviderCheckpoint.row checkpoint)⟩
        .ok { g with sessions := g.sessions.insert volumeId row }
    | _ => .error (.invariant "observation checkpoint has no scanning session")

/-- Rows sorted by observation generation, then by key. -/
def byObservation {κ ρ : Type} [LinearOrder κ] (generation : ρ → Nat) (rows : List (κ × ρ)) :
    List (κ × ρ) :=
  rows.insertionSort fun a b =>
    generation a.2 < generation b.2 ∨ (generation a.2 = generation b.2 ∧ a.1 ≤ b.1)

/-- One bounded page of stale links of the volume, oldest first. -/
def staleLinkPage (g : FilesystemGraph) (volumeId : VolumeId) (scanGeneration maximumRows : Nat) :
    List (FileLinkId × LinkRow) :=
  (byObservation (·.observationGeneration) (g.links.select fun _ row =>
    row.objectKey.volumeId == volumeId &&
      decide (row.observationGeneration < scanGeneration))).take maximumRows

/-- Remove and sync the stale links of one page. -/
def sweepLinkRows (generation : Nat) :
    FilesystemGraph → List (FileLinkId × LinkRow) → GraphResult FilesystemGraph
  | g, [] => .ok g
  | g, (link, row) :: rest => do
      let (g, _) ← removeLinkInternal g link row.objectKey generation false
      let (g, _) ← syncCatalogProjection g link generation .durable
      sweepLinkRows generation g rest

def sweepStaleObservationLinks (g : FilesystemGraph) (volumeId : VolumeId) (session : SessionRow)
    (staged : CheckpointRow) (generation maximumRows : Nat) : GraphResult (FilesystemGraph × Nat) := do
  let stale := staleLinkPage g volumeId session.scanGeneration maximumRows
  let g ← sweepLinkRows generation g stale
  if stale.length < maximumRows then
    let row := { session with phase := .sweepingObjects staged }
    .ok ({ g with sessions := g.sessions.insert volumeId row }, stale.length)
  else .ok (g, stale.length)

/-- One bounded page of live, unlinked, stale objects of the volume. -/
def staleObjectPage (g : FilesystemGraph) (volumeId : VolumeId) (scanGeneration maximumRows : Nat) :
    List (FileKey × ObjectRow) :=
  (byObservation (·.observationGeneration) (g.objects.select fun key row =>
    key.volumeId == volumeId && !row.tombstoned &&
      decide (row.observationGeneration < scanGeneration) && (linksOf g key).isEmpty)).take maximumRows

/-- Tombstone a page; the page is terminal when it is short. -/
def sweepStaleObservationObjects (g : FilesystemGraph) (volumeId : VolumeId)
    (scanGeneration maximumRows : Nat) : FilesystemGraph × Nat × Bool :=
  let stale := staleObjectPage g volumeId scanGeneration maximumRows
  (stale.foldl (fun g x => setTombstoned g x.1 true) g, stale.length,
    decide (stale.length < maximumRows))

/-- Publish the staged checkpoint, reopen the volume and close the session. -/
def activateObservationCheckpoint (g : FilesystemGraph) (volumeId : VolumeId) (generation : Nat)
    (staged : CheckpointRow) : FilesystemGraph :=
  let g := putCheckpoint g volumeId staged
  let g := { g with
    volumes := g.volumes.modify volumeId fun row =>
      { row with state := .online, reconciliationReason := none, generation := generation } }
  let (g, _) := enqueueVolumeProjectionRefresh g volumeId generation
  { g with sessions := g.sessions.erase volumeId }

/-- Generation of the next finalization transaction. -/
def finalizationGeneration (g : FilesystemGraph) (volumeId : VolumeId) : GraphResult Nat :=
  match g.volumes.get volumeId with
  | none => .error (.sqlite .queryReturnedNoRows)
  | some volume => checkedSucc volume.generation "observation finalization generation"

def finalizeObservationScan (g : FilesystemGraph) (volumeId : VolumeId) (maximumRows : Nat) :
    GraphResult (FilesystemGraph × ObservationFinalizeSummary) :=
  if maximumRows = 0 then .ok (g, ⟨0, 0, false⟩)
  else
    match g.sessions.get volumeId with
    | none => .error (.invariant "observation finalization has no durable session")
    | some session =>
        match session.phase with
        | .scanning =>
            .error (.invariant "observation finalization started before provider checkpoint")
        | .sweepingLinks staged => do
            let generation ← finalizationGeneration g volumeId
            let (g, removed) ←
              sweepStaleObservationLinks g volumeId session staged generation maximumRows
            .ok (setGeneration g volumeId generation, ⟨removed, 0, false⟩)
        | .sweepingObjects staged => do
            let generation ← finalizationGeneration g volumeId
            let (g, tombstoned, terminal) :=
              sweepStaleObservationObjects g volumeId session.scanGeneration maximumRows
            if terminal then
              .ok (activateObservationCheckpoint g volumeId generation staged, ⟨0, tombstoned, true⟩)
            else .ok (setGeneration g volumeId generation, ⟨0, tombstoned, false⟩)

/-- The oldest pending path job. -/
def nextPathJob (g : FilesystemGraph) : Option (Nat × PathJobRow) :=
  (g.pathJobs.select fun _ row => row.state == .pending).head?

/-- A page of the volume's links behind the cursor. -/
def pathRefreshPage (g : FilesystemGraph) (volumeId : VolumeId) (cursor : Option FileLinkId)
    (maximumLinks : Nat) : List FileLinkId :=
  (g.links.page (fun _ row => row.objectKey.volumeId == volumeId) cursor maximumLinks).map (·.1)

def refreshProjectionPaths (g : FilesystemGraph) (maximumLinks : Nat) :
    GraphResult (FilesystemGraph × ProjectionRefreshSummary) :=
  if maximumLinks = 0 then .ok (g, ⟨0, 0, false⟩)
  else
    match nextPathJob g with
    | none => .ok (g, ⟨0, 0, false⟩)
    | some (jobId, job) =>
        let volumeId := job.rootObject.volumeId
        match g.volumes.get volumeId with
        | none => .error (.sqlite .queryReturnedNoRows)
        | some volume => do
            let links := pathRefreshPage g volumeId job.projectionScanCursor maximumLinks
            let (g, appended) ← syncLinks g volume.generation .durable links
            let complete := decide (links.length < maximumLinks)
            let job := if complete then { job with state := .finished }
              else match links.getLast? with
                | some last => { job with projectionScanCursor := some last }
                | none => job
            .ok ({ g with pathJobs := g.pathJobs.insert jobId job },
              ⟨links.length, appended, complete⟩)

/-- The first pending volume job, in volume order. -/
def nextVolumeJob (g : FilesystemGraph) : Option (VolumeId × VolumeJobRow) :=
  (g.volumeJobs.select fun _ row => row.state == .pending).head?

/-- A page of the volume's desired documents behind the cursor. Document order
is link order: both compare the same sixteen bytes. -/
def volumeRefreshPage (g : FilesystemGraph) (volumeId : VolumeId) (cursor : Option FileLinkId)
    (maximumLinks : Nat) : List FileLinkId :=
  (g.catalog.page (fun _ row => row.objectKey.volumeId == volumeId) (cursor.map documentIdForLink)
    maximumLinks).map (·.2.fileLinkId)

def refreshVolumeProjection (g : FilesystemGraph) (maximumLinks : Nat) :
    GraphResult (FilesystemGraph × ProjectionRefreshSummary) :=
  if maximumLinks = 0 then .ok (g, ⟨0, 0, false⟩)
  else
    match nextVolumeJob g with
    | none => .ok (g, ⟨0, 0, false⟩)
    | some (volumeId, job) =>
        match g.volumes.get volumeId with
        | none => .error (.sqlite .queryReturnedNoRows)
        | some volume => do
            let links := volumeRefreshPage g volumeId job.projectionScanCursor maximumLinks
            let (g, appended) ← syncLinks g volume.generation .durable links
            let complete := decide (links.length < maximumLinks)
            let job := if complete then { job with state := .finished }
              else match links.getLast? with
                | some last => { job with projectionScanCursor := some last }
                | none => job
            .ok ({ g with volumeJobs := g.volumeJobs.insert volumeId job },
              ⟨links.length, appended, complete⟩)

/-- One consecutive bounded outbox batch after `sequence`. -/
def readOutbox (g : FilesystemGraph) (sequence : Option Nat) (limit : Nat) :
    GraphResult MutationBatch :=
  if 2 ^ 63 ≤ sequence.getD 0 then .error (.numericRange "outbox cursor")
  else
    .ok ⟨(g.outbox.page (fun _ _ => true) (some (sequence.getD 0)) limit).map fun x =>
      ⟨x.1, x.2.mutation⟩⟩

/-- Newest durable sequence over the outbox, its consumers and the high-water
mark. -/
def latestOutboxSequence (g : FilesystemGraph) : Nat :=
  max (g.outbox.lastKey.getD 0)
    (max ((g.consumers.rows.map (·.2.lastSequence)).foldr max 0) (g.sqliteSequence.getD 0))

def projectorCheckpoint (g : FilesystemGraph) (consumerId : String) : Option ConsumerRow :=
  g.consumers.get consumerId

def acknowledgeProjection (g : FilesystemGraph) (consumerId : String)
    (lastSequence indexGeneration : Nat) : GraphResult FilesystemGraph :=
  if latestOutboxSequence g < lastSequence then
    .error (.invariant "projector checkpoint cannot advance beyond durable outbox")
  else if ∃ current ∈ projectorCheckpoint g consumerId, lastSequence < current.lastSequence then
    .error (.invariant "projector checkpoint cannot move backwards")
  else if 2 ^ 63 ≤ lastSequence then .error (.numericRange "projector sequence")
  else if 2 ^ 63 ≤ indexGeneration then .error (.numericRange "index generation")
  else .ok { g with consumers := g.consumers.insert consumerId ⟨lastSequence, indexGeneration⟩ }

def resetProjectionConsumer (g : FilesystemGraph) (consumerId : String) : FilesystemGraph × Bool :=
  ({ g with consumers := g.consumers.erase consumerId }, (g.consumers.get consumerId).isSome)

/-- Oldest registered consumer position. -/
def consumerMinimum (g : FilesystemGraph) : Option Nat :=
  (g.consumers.rows.map (·.2.lastSequence)).min?

def pruneConsumedOutbox (g : FilesystemGraph) : FilesystemGraph × Nat :=
  match consumerMinimum g with
  | none => (g, 0)
  | some minimum =>
      ({ g with outbox := g.outbox.deleteWhere fun sequence _ => decide (sequence ≤ minimum) },
        (g.outbox.select fun sequence _ => decide (sequence ≤ minimum)).length)

/-- Result of one bounded outbox maintenance transaction. -/
structure OutboxMaintenanceSummary where
  safeThroughSequence : Option Nat
  deletedRows : Nat
  backlogRemaining : Bool
  deriving DecidableEq, Repr

/-- Highest sequence no registered consumer still needs. -/
def safeThrough (g : FilesystemGraph) (allowWithoutConsumers : Bool) : Option Nat :=
  match consumerMinimum g with
  | some minimum => some minimum
  | none => if allowWithoutConsumers then g.sqliteSequence else none

def pruneRebuildableOutboxBounded (g : FilesystemGraph) (maximumRows : Nat)
    (allowWithoutConsumers : Bool) : GraphResult (FilesystemGraph × OutboxMaintenanceSummary) :=
  if maximumRows = 0 ∨ 100000 < maximumRows then
    .error (.invalidBatch "outbox maintenance bound must be between 1 and 100000")
  else
    match safeThrough g allowWithoutConsumers with
    | none => .ok (g, ⟨none, 0, false⟩)
    | some through =>
        let doomed := (g.outbox.select fun sequence _ => decide (sequence ≤ through)).take maximumRows
        let outbox := g.outbox.deleteWhere fun sequence _ => (doomed.map (·.1)).contains sequence
        .ok ({ g with outbox := outbox },
          ⟨some through, doomed.length, outbox.rows.any fun x => decide (x.1 ≤ through)⟩)

def completeRefreshJob (g : FilesystemGraph) (jobId : Nat) : FilesystemGraph × Bool :=
  match g.pathJobs.get jobId with
  | some job =>
      if job.state = .pending then
        ({ g with pathJobs := g.pathJobs.insert jobId { job with state := .finished } }, true)
      else (g, false)
  | none => (g, false)

/-- Rewrite legacy payloads of one page to the compact form. -/
def compactRows : FilesystemGraph → List (DocumentId × CatalogRow) → GraphResult FilesystemGraph
  | g, [] => .ok g
  | g, (documentId, row) :: rest => do
      let document ← decodeLegacy row.documentJson
      let row := { row with
        projectionPath := some document.resolvedPath
        projectionFingerprint := some (CatalogContent.ofDocument document)
        documentJson := none }
      compactRows { g with catalog := g.catalog.insert documentId row } rest

def compactLegacyDesiredPayloadsBounded (g : FilesystemGraph) (maximumRows : Nat) :
    GraphResult (FilesystemGraph × Nat × Bool) :=
  if maximumRows = 0 ∨ 100000 < maximumRows then
    .error (.invalidBatch "desired payload maintenance bound must be between 1 and 100000")
  else do
    let legacy := (g.catalog.select fun _ row => row.projectionPath.isNone).take maximumRows
    let g ← compactRows g legacy
    .ok (g, legacy.length, g.catalog.rows.any fun x => x.2.projectionPath.isNone)

/-- Every write the store offers to its callers. -/
inductive GraphOp where
  | applyBatch (batch : GraphMutationBatch)
  | applyRebuildableBatch (batch : GraphMutationBatch)
  | beginObservationScan (descriptor : VolumeDescriptor) (mode : ObservationScanMode)
      (reason : ReconciliationReason)
  | applyObservationScanPage (volumeId : VolumeId) (events : List FilesystemEvent)
  | stageObservationCheckpoint (volumeId : VolumeId) (checkpoint : ProviderCheckpoint)
  | finalizeObservationScan (volumeId : VolumeId) (maximumRows : Nat)
  | refreshProjectionPaths (maximumLinks : Nat)
  | refreshVolumeProjection (maximumLinks : Nat)
  | acknowledgeProjection (consumerId : String) (lastSequence indexGeneration : Nat)
  | resetProjectionConsumer (consumerId : String)
  | pruneConsumedOutbox
  | pruneRebuildableOutboxBounded (maximumRows : Nat) (allowWithoutConsumers : Bool)
  | completeRefreshJob (jobId : Nat)
  | compactLegacyDesiredPayloadsBounded (maximumRows : Nat)
  deriving DecidableEq, Repr

/-- The state a write commits; an error commits nothing. -/
def GraphOp.run (g : FilesystemGraph) : GraphOp → GraphResult FilesystemGraph
  | .applyBatch batch => (·.1) <$> Graph.applyBatch g batch
  | .applyRebuildableBatch batch => (·.1) <$> Graph.applyRebuildableBatch g batch
  | .beginObservationScan descriptor mode reason =>
      (·.1) <$> Graph.beginObservationScan g descriptor mode reason
  | .applyObservationScanPage volumeId events =>
      (·.1) <$> Graph.applyObservationScanPage g volumeId events
  | .stageObservationCheckpoint volumeId checkpoint =>
      Graph.stageObservationCheckpoint g volumeId checkpoint
  | .finalizeObservationScan volumeId maximumRows =>
      (·.1) <$> Graph.finalizeObservationScan g volumeId maximumRows
  | .refreshProjectionPaths maximumLinks => (·.1) <$> Graph.refreshProjectionPaths g maximumLinks
  | .refreshVolumeProjection maximumLinks => (·.1) <$> Graph.refreshVolumeProjection g maximumLinks
  | .acknowledgeProjection consumerId lastSequence indexGeneration =>
      Graph.acknowledgeProjection g consumerId lastSequence indexGeneration
  | .resetProjectionConsumer consumerId => .ok (Graph.resetProjectionConsumer g consumerId).1
  | .pruneConsumedOutbox => .ok (Graph.pruneConsumedOutbox g).1
  | .pruneRebuildableOutboxBounded maximumRows allowWithoutConsumers =>
      (·.1) <$> Graph.pruneRebuildableOutboxBounded g maximumRows allowWithoutConsumers
  | .completeRefreshJob jobId => .ok (Graph.completeRefreshJob g jobId).1
  | .compactLegacyDesiredPayloadsBounded maximumRows =>
      (·.1) <$> Graph.compactLegacyDesiredPayloadsBounded g maximumRows

/-- One accepted write of a kind allowed by `allowed`. -/
def Step (allowed : GraphOp → FilesystemGraph → Prop) (g g' : FilesystemGraph) : Prop :=
  ∃ op : GraphOp, allowed op g ∧ op.run g = .ok g'

/-- States reached from an empty database by accepted writes. -/
def Reachable (g : FilesystemGraph) : Prop :=
  Relation.ReflTransGen (Step fun _ _ => True) .empty g

/-- A list of writes, each accepted. -/
def runOps (g : FilesystemGraph) : List GraphOp → GraphResult FilesystemGraph
  | [] => .ok g
  | op :: ops => do
      let g ← op.run g
      runOps g ops

theorem runOps_steps {allowed : GraphOp → FilesystemGraph → Prop} {g g' : FilesystemGraph}
    {ops : List GraphOp} (hall : ∀ op ∈ ops, ∀ g, allowed op g) (h : runOps g ops = .ok g') :
    Relation.ReflTransGen (Step allowed) g g' := by
  induction ops generalizing g with
  | nil => obtain rfl := Except.ok.inj h; exact .refl
  | cons op ops ih =>
    obtain ⟨g₁, h₁, hrest⟩ := bind_ok.mp h
    exact .head ⟨op, hall op List.mem_cons_self g, h₁⟩
      (ih (fun x hx => hall x (List.mem_cons_of_mem _ hx)) hrest)

/-- Lower-casing of ASCII names. -/
@[reducible] def asciiCaseMapping : CaseMapping := ⟨String.toLower⟩

def sampleVolume : VolumeId := .fromU128 1

def sampleDescriptor : VolumeDescriptor := ⟨sampleVolume, none, [], none, false, true⟩

def sampleKey (n : Nat) : FileKey := ⟨sampleVolume, .fromU128 n⟩

def sampleObject (n : Nat) (kind : FileKind) : FileObjectSnapshot :=
  ⟨sampleKey n, ⟨kind, 0, none, none, false, .online⟩⟩

def sampleLink (id n : Nat) (parent : Option Nat) (name : String) : FileLinkSnapshot :=
  ⟨.fromU128 id, sampleKey n, parent.map sampleKey, name⟩

def sampleCheckpoint : ProviderCheckpoint := ⟨"usn", 1, sampleVolume, []⟩

def sampleBatch (mutations : List GraphMutation) : GraphMutationBatch :=
  ⟨sampleVolume, sampleCheckpoint, mutations⟩

/-- A root directory with a directory `d` that holds the files `a` and `b`. -/
def sampleTree : List GraphMutation :=
  [.upsertVolume sampleDescriptor,
    .upsertObject (sampleObject 1 .directory), .upsertLink (sampleLink 9 1 none "C:") false,
    .upsertObject (sampleObject 2 .directory), .upsertLink (sampleLink 8 2 (some 1) "d") false,
    .upsertObject (sampleObject 3 .file), .upsertLink (sampleLink 1 3 (some 2) "a") false,
    .upsertObject (sampleObject 4 .file), .upsertLink (sampleLink 2 4 (some 2) "b") false]

end LocalSearch.Graph
