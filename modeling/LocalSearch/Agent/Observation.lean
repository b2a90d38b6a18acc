import LocalSearch.Graph.Store
import LocalSearch.Broker.Api
import Mathlib.Data.List.DropRight

/-!
# The observation controller of the agent

One bounded quantum at a time: a page of the scan under way, or the next step of
the next selected volume in turn. Source answers and store failures are given
from outside. Calls to the source and committed writes are noted in order, so
that runs can be spoken about.
-/
namespace LocalSearch.Graph

open Core

/-- Stored continuation point of a volume. -/
def FilesystemGraph.checkpoint (g : FilesystemGraph) (volumeId : VolumeId) :
    Option ProviderCheckpoint :=
  (g.checkpoints.get volumeId).map fun row =>
    ⟨row.providerId, row.formatVersion, volumeId, row.opaqueBytes⟩

def FilesystemGraph.volumeState (g : FilesystemGraph) (volumeId : VolumeId) : Option VolumeState :=
  (g.volumes.get volumeId).map (·.state)

end LocalSearch.Graph

namespace LocalSearch.Agent

set_option autoImplicit false

open Core Graph Broker

inductive ObservationSelection where
  | allLocalNtfs
  | volumes (volumeIds : List VolumeId)
  | volumesAndMountPoints (volumeIds : List VolumeId) (mountPoints : List String)
  deriving DecidableEq, Repr

def eqIgnoreAsciiCase (a b : String) : Bool := a.toLower == b.toLower

def mountPointMatches (discovered selected : String) : Bool :=
  let trimmed (s : String) := String.ofList (s.toList.rdropWhile fun c => c == '\\' || c == '/')
  eqIgnoreAsciiCase (trimmed discovered) (trimmed selected)

def selectedVolumes (discovered : List VolumeDescriptor) (selection : ObservationSelection) :
    List VolumeDescriptor :=
  discovered.filter fun volume =>
    volume.isLocal && volume.filesystem.any (eqIgnoreAsciiCase · "ntfs") &&
      match selection with
      | .allLocalNtfs => true
      | .volumes selected => selected.contains volume.volumeId
      | .volumesAndMountPoints volumeIds mountPoints =>
          volumeIds.contains volume.volumeId || volume.mountPoints.any fun discovered =>
            mountPoints.any fun selected => mountPointMatches discovered selected

structure ActiveScan where
  volumeId : VolumeId
  scanId : Nat
  deriving DecidableEq, Repr

structure BrokerObservationController where
  selection : ObservationSelection
  volumes : List VolumeDescriptor
  cursor : Nat
  activeScan : Option ActiveScan
  deriving DecidableEq, Repr

inductive ObservationStep where
  | idle
  | scanPrepared (volumeId : VolumeId)
  | scanStarted (volumeId : VolumeId)
  | scanPage (volumeId : VolumeId) (events : Nat) (complete : Bool)
  | finalized (volumeId : VolumeId) (removed : Nat) (complete : Bool)
  | incremental (volumeId : VolumeId) (events : Nat) (hasMore : Bool)
  | reconciliationRequired (volumeId : VolumeId)
  | offline (volumeId : VolumeId)
  deriving DecidableEq, Repr

inductive ObservationError where
  | graph (error : GraphError)
  | provider (kind : PlatformErrorKind)
  deriving DecidableEq, Repr

/-- Only the category of a provider error is kept. -/
def provider (error : PlatformError) : ObservationError := .provider error.kind

/-- A call to the source with its answer, or a committed write with the graph
before and after it. -/
inductive Entry where
  | startScan (volumeId : VolumeId) (mode : ScanMode) (answer : PlatformResult Nat)
  | readScanPage (scanId maximumEvents : Nat) (answer : PlatformResult ScanPage)
  | cancelScan (scanId : Nat)
  | readChanges (graph : FilesystemGraph) (checkpoint : ProviderCheckpoint) (maximumEvents : Nat)
      (answer : PlatformResult (List FilesystemEvent × ChangeBatch))
  | commit (before : FilesystemGraph) (op : GraphOp) (after : FilesystemGraph)

/-- The controller over its durable graph, with the entries of the run so far. -/
structure Observation where
  graph : FilesystemGraph
  controller : BrokerObservationController
  history : List Entry

/-- Uses of the store inside one step; each may fail on its own. -/
inductive GraphCall where
  | openGraph
  | observationSession
  | checkpoint
  | volumeState
  | batchVolumeState
  | write
  | stage
  deriving DecidableEq, Repr

/-- Everything a step cannot decide itself. -/
structure Answers where
  discoveryDue : Bool
  discoverVolumes : PlatformResult (List VolumeDescriptor)
  startScan : PlatformResult Nat
  readScanPage : PlatformResult ScanPage
  readChanges : PlatformResult (List FilesystemEvent × ChangeBatch)
  fault : GraphCall → Option GraphError

/-- Errors carry the state they leave behind. -/
abbrev Observed (α : Type) := Except (Observation × ObservationError) α

namespace Observation

def note (s : Observation) (entry : Entry) : Observation :=
  { s with history := s.history ++ [entry] }

def setActive (s : Observation) (active : Option ActiveScan) : Observation :=
  { s with controller := { s.controller with activeScan := active } }

/-- A read of the store. -/
def load {α : Type} (s : Observation) (fault : Option GraphError) (value : α) :
    Observed (Observation × α) :=
  match fault with
  | some error => .error (s, .graph error)
  | none => .ok (s, value)

/-- A write of the store; a failed one leaves the graph as it was. -/
def commit {α : Type} (s : Observation) (fault : Option GraphError) (op : GraphOp)
    (result : GraphResult (FilesystemGraph × α)) : Observed (Observation × α) :=
  match fault, result with
  | some error, _ => .error (s, .graph error)
  | none, .error error => .error (s, .graph error)
  | none, .ok (g, a) => .ok ({ s with graph := g, history := s.history ++ [.commit s.graph op g] }, a)

end Observation

/-- The state after a step. -/
def Observed.final {α : Type} : Observed (Observation × α) → Observation
  | .ok (s, _) => s
  | .error (s, _) => s

def brokerScanMode : ObservationScanMode → ScanMode
  | .initial => .initial
  | .reconcile => .reconcile

def scanReason : ObservationScanMode → ReconciliationReason
  | .initial => .providerRequested
  | .reconcile => .sourceHistoryUnavailable

/-- Saturating conversion of a length. -/
def eventCount (n : Nat) : Nat := min n (2 ^ 32 - 1)

section Steps

variable [CaseMapping]

/-- Reads the next page of the active scan, which the step has already taken. -/
def readActiveScan (s : Observation) (answers : Answers) (active : ActiveScan)
    (maximumEvents : Nat) : Observed (Observation × ObservationStep) := do
  let s := s.note (.readScanPage active.scanId maximumEvents answers.readScanPage)
  match answers.readScanPage with
  | .error error => .error (s.note (.cancelScan active.scanId), provider error)
  | .ok page => do
      let (s, _) ← s.load (answers.fault .openGraph) ()
      let (s, _) ← s.commit (answers.fault .write)
        (.applyObservationScanPage active.volumeId page.events)
        (applyObservationScanPage s.graph active.volumeId page.events)
      let report := ObservationStep.scanPage active.volumeId (eventCount page.events.length) page.complete
      if page.complete then
        match page.checkpoint with
        | none => .error (s, .provider .internal)
        | some checkpoint => do
            let (s, _) ← s.commit (answers.fault .stage)
              (.stageObservationCheckpoint active.volumeId checkpoint)
              ((·, ()) <$> stageObservationCheckpoint s.graph active.volumeId checkpoint)
            .ok (s, report)
      else .ok (s.setActive (some active), report)

def handleSession (s : Observation) (answers : Answers) (descriptor : VolumeDescriptor)
    (session : ObservationSession) (maximumEvents : Nat) : Observed (Observation × ObservationStep) :=
  match session.phase with
  | .scanning =>
      let s := s.note (.startScan descriptor.volumeId (brokerScanMode session.mode) answers.startScan)
      match answers.startScan with
      | .error error => .error (s, provider error)
      | .ok scanId =>
          match s.commit (answers.fault .write)
            (.beginObservationScan descriptor session.mode (scanReason session.mode))
            (beginObservationScan s.graph descriptor session.mode (scanReason session.mode)) with
          | .error (s, error) => .error (s.note (.cancelScan scanId), error)
          | .ok (s, _) =>
              .ok (s.setActive (some ⟨descriptor.volumeId, scanId⟩), .scanStarted descriptor.volumeId)
  | .sweepingLinks | .sweepingObjects => do
      let (s, summary) ← s.commit (answers.fault .write)
        (.finalizeObservationScan descriptor.volumeId maximumEvents)
        (finalizeObservationScan s.graph descriptor.volumeId maximumEvents)
      .ok (s, .finalized descriptor.volumeId
        (min (summary.staleLinksRemoved + summary.staleObjectsTombstoned) (2 ^ 64 - 1)) summary.completed)

/-- One committed batch of the incremental path. -/
def commitBatch (s : Observation) (answers : Answers) (batch : GraphMutationBatch) :
    Observed (Observation × ApplySummary) :=
  s.commit (answers.fault .write) (.applyBatch batch) (applyBatch s.graph batch)

def readIncremental (s : Observation) (answers : Answers) (descriptor : VolumeDescriptor)
    (checkpoint : ProviderCheckpoint) (maximumEvents : Nat) : Observed (Observation × ObservationStep) := do
  let volumeId := descriptor.volumeId
  let s := s.note (.readChanges s.graph checkpoint maximumEvents answers.readChanges)
  match answers.readChanges with
  | .ok (events, batch) => do
      let (s, state) ← s.load (answers.fault .batchVolumeState) (s.graph.volumeState volumeId)
      let reopened := if state = some .offline then [GraphMutation.setVolumeState volumeId .online] else []
      let (s, _) ← commitBatch s answers
        ⟨volumeId, batch.checkpoint, reopened ++ events.map GraphMutation.ofEvent⟩
      if events.any fun event => event matches .reconciliationRequired _ _ then
        .ok (s, .reconciliationRequired volumeId)
      else .ok (s, .incremental volumeId (eventCount events.length) batch.hasMore)
  | .error error =>
      if error.kind = .sourceHistoryGap ∨ error.kind = .invalidCheckpoint then do
        let reason := if error.kind = .sourceHistoryGap then
            ReconciliationReason.sourceHistoryUnavailable else .providerRequested
        let (s, _) ← commitBatch s answers
          ⟨volumeId, checkpoint, [.requireReconciliation volumeId reason]⟩
        .ok (s, .reconciliationRequired volumeId)
      else if error.kind = .unavailable then do
        let (s, state) ← s.load (answers.fault .batchVolumeState) (s.graph.volumeState volumeId)
        if state = some .offline then .ok (s, .offline volumeId)
        else do
          let (s, _) ← commitBatch s answers
            ⟨volumeId, checkpoint, [.setVolumeState volumeId .offline]⟩
          .ok (s, .offline volumeId)
      else .error (s, provider error)

def refreshDiscoveryIfDue (s : Observation) (answers : Answers) : Observed (Observation × Unit) :=
  if answers.discoveryDue then
    match answers.discoverVolumes with
    | .error error => .error (s, provider error)
    | .ok discovered =>
        let volumes := selectedVolumes discovered s.controller.selection
        .ok ({ s with
          controller := { s.controller with
            volumes := volumes
            cursor := min s.controller.cursor (volumes.length - 1) } }, ())
  else .ok (s, ())

/-- The part of a step that serves one volume of the round. -/
def serveVolume (s : Observation) (answers : Answers) (descriptor : VolumeDescriptor)
    (maximumEvents : Nat) : Observed (Observation × ObservationStep) := do
  let (s, _) ← s.load (answers.fault .openGraph) ()
  let (s, session) ← s.load (answers.fault .observationSession)
    (observationSession s.graph descriptor.volumeId)
  match session with
  | some session => handleSession s answers descriptor session maximumEvents
  | none => do
      let (s, checkpoint) ← s.load (answers.fault .checkpoint) (s.graph.checkpoint descriptor.volumeId)
      match checkpoint with
      | none => do
          let (s, _) ← s.commit (answers.fault .write)
            (.beginObservationScan descriptor .initial (scanReason .initial))
            (beginObservationScan s.graph descriptor .initial (scanReason .initial))
          .ok (s, .scanPrepared descriptor.volumeId)
      | some checkpoint => do
          let (s, state) ← s.load (answers.fault .volumeState) (s.graph.volumeState descriptor.volumeId)
          if state = some .needsReconciliation then do
            let (s, _) ← s.commit (answers.fault .write)
              (.beginObservationScan descriptor .reconcile (scanReason .reconcile))
              (beginObservationScan s.graph descriptor .reconcile (scanReason .reconcile))
            .ok (s, .scanPrepared descriptor.volumeId)
          else readIncremental s answers descriptor checkpoint maximumEvents

/-- The next volume of the round is served. -/
def serveRound (s : Observation) (answers : Answers) (maximumEvents : Nat) :
    Observed (Observation × ObservationStep) :=
  let cursor := if s.controller.volumes.length ≤ s.controller.cursor then 0 else s.controller.cursor
  match s.controller.volumes[cursor]? with
  | none => .ok (s, .idle)
  | some descriptor =>
      let s := { s with
        controller := { s.controller with cursor := (cursor + 1) % s.controller.volumes.length } }
      serveVolume s answers descriptor maximumEvents

/-- At most one broker page or one bounded finalization transaction. -/
def step (s : Observation) (answers : Answers) (maximumEvents : Nat) :
    Observed (Observation × ObservationStep) := do
  let maximumEvents := max 1 (min maximumEvents maxBrokerPageEvents)
  match s.controller.activeScan with
  | some active => readActiveScan (s.setActive none) answers active maximumEvents
  | none => do
      let (s, _) ← refreshDiscoveryIfDue s answers
      serveRound s answers maximumEvents

end Steps

/-- A fresh controller over the volumes it discovers. -/
def BrokerObservationController.new (discovered : List VolumeDescriptor)
    (selection : ObservationSelection) : BrokerObservationController :=
  ⟨selection, selectedVolumes discovered selection, 0, none⟩

/-- An orderly end cancels the active scan; a crash does not. -/
def Observation.restart (s : Observation) (orderly : Bool) (discovered : List VolumeDescriptor)
    (selection : ObservationSelection) : Observation where
  graph := s.graph
  controller := .new discovered selection
  history := match orderly, s.controller.activeScan with
    | true, some active => s.history ++ [.cancelScan active.scanId]
    | _, _ => s.history

end LocalSearch.Agent
