import LocalSearch.Agent.CheckpointAuthority
import LocalSearch.Broker.Client

/-!
# Lost continuity through the broker

An error of the provider is mapped to a broker code, carried over the wire and
mapped back before the controller looks at its category. A history gap survives
the way; an invalid checkpoint arrives as an unsupported operation.
-/
namespace LocalSearch.Agent

set_option autoImplicit false

open Core Lib Graph Broker

/-- A read of the journal that gets past the broker to the provider. -/
structure Reaches (service : BrokerService) (around : Surroundings)
    (client : BrokerFilesystemProvider) (checkpoint : ProviderCheckpoint) (maximumEvents : Nat) :
    Prop where
  number : client.nextRequestId < 2 ^ 64
  valid : (BrokerOperation.readChanges checkpoint maximumEvents).validate = .ok ()
  admitted : ( service.replay.admit (clientRequestId client.nextRequestId)).isSome
  wanted : around.cancelled = false
  inTime : around.atEntry = none

instance (service : BrokerService) (around : Surroundings) (client : BrokerFilesystemProvider)
    (checkpoint : ProviderCheckpoint) (maximumEvents : Nat) :
    Decidable (Reaches service around client checkpoint maximumEvents) :=
  decidable_of_iff (client.nextRequestId < 2 ^ 64 ∧
      (BrokerOperation.readChanges checkpoint maximumEvents).validate = .ok () ∧
      ( service.replay.admit (clientRequestId client.nextRequestId)).isSome ∧
      around.cancelled = false ∧ around.atEntry = none)
    ⟨fun ⟨a, b, c, d, e⟩ => ⟨a, b, c, d, e⟩, fun ⟨a, b, c, d, e⟩ => ⟨a, b, c, d, e⟩⟩

/-- The provider's error as it arrives at the client. -/
theorem readChanges_error {service : BrokerService} {around : Surroundings}
    {client : BrokerFilesystemProvider} {checkpoint : ProviderCheckpoint} {maximumEvents : Nat}
    {error : PlatformError} (hreach : Reaches service around client checkpoint maximumEvents)
    (herror : around.changes = .error error) :
    (readChangesThroughBroker service around client checkpoint maximumEvents).2.2 =
      .error (wireError (platformError error).code) := by
  have hbounds : maximumEvents ≠ 0 ∧ maximumEvents ≤ maxBrokerPageEvents := by
    have hvalid := hreach.valid
    simp only [BrokerOperation.validate, guard_ok, not_or, not_lt] at hvalid
    exact hvalid.1
  have hmin : min maximumEvents maxBrokerPageEvents = maximumEvents := min_eq_left hbounds.2
  obtain ⟨window, hwindow⟩ := Option.isSome_iff_exists.mp hreach.admitted
  have hid : (clientRequest client.nextRequestId (.readChanges checkpoint maximumEvents)).requestId =
    clientRequestId client.nextRequestId := rfl
  have hdispatch : (dispatch service around
      (clientRequest client.nextRequestId (.readChanges checkpoint maximumEvents))).2 =
      .failure (clientRequestId client.nextRequestId) (platformError error).code
        (platformError error).message := by
    simp only [dispatch, clientRequest_validate hreach.number, hreach.valid, hid, hwindow,
      if_pos (clientRequestId_size hreach.number), hreach.wanted, dispatchOperation,
      hreach.inTime, checkRequest]
    simp only [clientRequest, readChanges, herror]
    rfl
  rw [readChangesThroughBroker]
  simp only [hmin, if_neg hbounds.1, invoke, responseResult, hdispatch, hid]
  simp [BrokerResponse.failure]

/-- Of the two ways to lose continuity, only the gap keeps its category. -/
theorem wireError_kind {error : PlatformError}
    (hkind : error.kind = .sourceHistoryGap ∨ error.kind = .invalidCheckpoint) :
    (wireError (platformError error).code).kind =
      if error.kind = .sourceHistoryGap then .sourceHistoryGap else .unsupported := by
  rcases hkind with hkind | hkind <;> simp [wireError, platformError, hkind]

/-- The rows that decide what a step does to a volume are the same. -/
structure Untouched (v : VolumeId) (g g' : FilesystemGraph) : Prop where
  volume : g'.volumes.get v = g.volumes.get v
  session : g'.sessions.get v = g.sessions.get v
  checkpoint : g'.checkpoints.get v = g.checkpoints.get v

theorem Untouched.refl (v : VolumeId) (g : FilesystemGraph) : Untouched v g g := ⟨rfl, rfl, rfl⟩

theorem Untouched.trans {v : VolumeId} {g g' g'' : FilesystemGraph} (h : Untouched v g g')
    (h' : Untouched v g' g'') : Untouched v g g'' :=
  ⟨h'.volume.trans h.volume, h'.session.trans h.session, h'.checkpoint.trans h.checkpoint⟩

/-- The rows of a volume, given by its standing and its row. -/
theorem Untouched.of_standing {v : VolumeId} {g g' : FilesystemGraph}
    (hvolume : g'.volumes.get v = g.volumes.get v) (h : standing g' v = standing g v) :
    Untouched v g g' :=
  ⟨hvolume, congrArg Prod.fst h, congrArg (fun x => x.2.1) h⟩

section Steps

variable [CaseMapping] {g g' : FilesystemGraph} {v w : VolumeId}

theorem applyBatch_untouched {batch : GraphMutationBatch} (hv : batch.volumeId ≠ v)
    (h : (GraphOp.applyBatch batch).run g = .ok g') : Untouched v g g' := by
  obtain ⟨-, hother, -⟩ := applyBatch_standing h
  refine .of_standing ?_ (hother v hv.symm)
  obtain ⟨summary, h⟩ := map_fst_ok.mp h
  exact Changes.induct (P := fun s => s.1.volumes.get v = g.volumes.get v)
    (fun _ _ hc hs => (volumes_get_of_change hc hv.symm).trans hs)
    (applyBatchWithOutboxMode_changes (R := True) (.inl trivial) h) rfl

theorem page_untouched {events : List FilesystemEvent} (hv : w ≠ v)
    (h : (GraphOp.applyObservationScanPage w events).run g = .ok g') : Untouched v g g' := by
  obtain ⟨summary, h⟩ := map_fst_ok.mp h
  obtain ⟨-, -, -, ⟨-, rfl⟩ | ⟨checkpoint, hbatch⟩⟩ := applyObservationScanPage_ok h
  · exact .refl v g'
  · have happly : (GraphOp.applyBatch (.fromEvents w checkpoint events)).run g = .ok g' :=
      map_fst_ok.mpr ⟨summary, hbatch⟩
    exact applyBatch_untouched hv happly

theorem begin_untouched {descriptor : VolumeDescriptor} {mode : ObservationScanMode}
    {reason : ReconciliationReason} (hv : descriptor.volumeId ≠ v)
    (h : (GraphOp.beginObservationScan descriptor mode reason).run g = .ok g') :
    Untouched v g g' := by
  obtain ⟨hother, -⟩ := begin_standing h
  refine .of_standing ?_ (hother v hv.symm)
  obtain ⟨session, h⟩ := map_fst_ok.mp h
  obtain ⟨gen, -, heq⟩ := bind_ok.mp h
  obtain ⟨rfl, -⟩ := Prod.mk.inj (Except.ok.inj heq)
  simp [upsertVolume, Table.get_modify, hv.symm]

omit [CaseMapping] in
theorem stage_untouched {checkpoint : ProviderCheckpoint} (hv : w ≠ v)
    (h : stageObservationCheckpoint g w checkpoint = .ok g') : Untouched v g g' := by
  obtain ⟨-, hother, -, -, hvolumes⟩ := stage_standing h
  exact .of_standing (by rw [hvolumes]) (hother v hv.symm)

theorem finalize_untouched {k : Nat} (hv : w ≠ v)
    (h : (GraphOp.finalizeObservationScan w k).run g = .ok g') : Untouched v g g' := by
  obtain ⟨hother, -⟩ := finalize_standing h
  refine .of_standing ?_ (hother v hv.symm)
  obtain ⟨summary, h⟩ := map_fst_ok.mp h
  rcases finalizeObservationScan_ok h with ⟨-, rfl, -⟩ | ⟨-, session, volume, -, -, -, hends⟩
  · rfl
  rcases hends with ⟨staged, g₁, removed, -, hsweep, rfl, -⟩ |
    ⟨staged, g₁, tombstoned, terminal, -, hsweep, -, rfl⟩
  · obtain ⟨g₂, hrows, -, rfl⟩ := sweepStaleObservationLinks_ok hsweep
    obtain ⟨-, -, hvolumes⟩ := sweepLinkRows_rows hrows
    split_ifs <;> simp [setGeneration, Table.get_modify, hv.symm, hvolumes]
  · obtain ⟨rfl, -⟩ := Prod.mk.inj hsweep
    rw [tombstones_frame]
    split_ifs <;>
      simp [activateObservationCheckpoint, putCheckpoint, setGeneration,
        enqueueVolumeProjectionRefresh, Table.get_modify, hv.symm]

/-- The entry commits a write to the volume. -/
def Entry.Writes (v : VolumeId) : Entry → Prop
  | .commit _ (.applyBatch batch) _ => batch.volumeId = v
  | .commit _ (.beginObservationScan descriptor _ _) _ => descriptor.volumeId = v
  | .commit _ (.applyObservationScanPage w _) _ => w = v
  | .commit _ (.stageObservationCheckpoint w _) _ => w = v
  | .commit _ (.finalizeObservationScan w _) _ => w = v
  | _ => False

/-- A step that commits nothing for a volume leaves its rows alone and starts no
scan of it. -/
theorem StepCase.untouched {n : Nat} {before after : Option ActiveScan} {new : List Entry}
    (h : StepCase g n before g' after new) (hnew : ∀ e ∈ new, ¬ e.Writes v)
    (hbefore : ∀ a ∈ before, a.volumeId ≠ v) :
    Untouched v g g' ∧ ∀ a ∈ after, a.volumeId ≠ v := by
  cases h with
  | pageApplied active page happly =>
    have hv : active.volumeId ≠ v := hnew _ (List.mem_cons_of_mem _ List.mem_cons_self)
    refine ⟨page_untouched hv happly, fun a ha => ?_⟩
    split_ifs at ha with hcomplete
    · cases ha
    · obtain rfl := Option.some.inj ha
      exact hv
  | pageStaged active page checkpoint hcomplete hcheckpoint happly hstage =>
    have hv : active.volumeId ≠ v := hnew _ (List.mem_cons_of_mem _ List.mem_cons_self)
    exact ⟨(page_untouched hv happly).trans (stage_untouched hv hstage), fun a ha => by cases ha⟩
  | prepared descriptor mode hbegin =>
    exact ⟨begin_untouched (hnew _ List.mem_cons_self) hbegin, fun a ha => by cases ha⟩
  | scanStarted descriptor mode scanId hbegin =>
    have hv : descriptor.volumeId ≠ v := hnew _ (List.mem_cons_of_mem _ List.mem_cons_self)
    refine ⟨begin_untouched hv hbegin, fun a ha => ?_⟩
    obtain rfl := Option.some.inj ha
    exact hv
  | finalized w hfinalize =>
    exact ⟨finalize_untouched (hnew _ List.mem_cons_self) hfinalize, fun a ha => by cases ha⟩
  | changesCommitted w checkpoint events batch reopened hsession hcheckpoint happly =>
    have hv : w ≠ v := hnew _ (List.mem_cons_of_mem _ List.mem_cons_self)
    exact ⟨applyBatch_untouched hv happly, fun a ha => by cases ha⟩
  | checkpointKept w checkpoint error mutations hsession hcheckpoint happly =>
    have hv : w ≠ v := hnew _ (List.mem_cons_of_mem _ List.mem_cons_self)
    exact ⟨applyBatch_untouched hv happly, fun a ha => by cases ha⟩
  | quiet | pageLost | pageRefused | scanRefused | scanAbandoned | changesRead =>
    exact ⟨.refl v g, fun a ha => by cases ha⟩

/-- Steps and restarts that commit nothing for the volume. -/
inductive Elsewhere (v : VolumeId) (s : Observation) : Observation → Prop
  | refl : Elsewhere v s s
  | step {s' : Observation} (h : Elsewhere v s s') (answers : Answers) (maximumEvents : Nat)
      (hnew : ∀ e ∈ (step s' answers maximumEvents).final.history.drop s'.history.length,
        ¬ e.Writes v) :
      Elsewhere v s (step s' answers maximumEvents).final
  | restart {s' : Observation} (h : Elsewhere v s s') (orderly : Bool)
      (discovered : List VolumeDescriptor) (selection : ObservationSelection) :
      Elsewhere v s (s'.restart orderly discovered selection)

theorem Elsewhere.untouched {s s' : Observation} (h : Elsewhere v s s')
    (hactive : ∀ a ∈ s.controller.activeScan, a.volumeId ≠ v) :
    Untouched v s.graph s'.graph ∧ ∀ a ∈ s'.controller.activeScan, a.volumeId ≠ v := by
  induction h with
  | refl => exact ⟨.refl v s.graph, hactive⟩
  | @step s' h answers maximumEvents hnew ih =>
    obtain ⟨new, hhistory, hcase⟩ := step_ends s' answers maximumEvents
    rw [hhistory, List.drop_left] at hnew
    obtain ⟨hrows, hafter⟩ := hcase.untouched hnew ih.2
    exact ⟨ih.1.trans hrows, hafter⟩
  | restart h orderly discovered selection ih => exact ⟨ih.1, fun a ha => by cases ha⟩

end Steps

/-- The volume a step serves, unless a scan is under way or discovery fails. -/
def nextVolume (s : Observation) (answers : Answers) : Option VolumeDescriptor :=
  match s.controller.activeScan with
  | some _ => none
  | none =>
      match refreshDiscoveryIfDue s answers with
      | .error _ => none
      | .ok (s, _) =>
          s.controller.volumes[if s.controller.volumes.length ≤ s.controller.cursor then 0
            else s.controller.cursor]?

/-- The step is one for the volume. -/
def Serves (s : Observation) (answers : Answers) (v : VolumeId) : Prop :=
  (∃ a ∈ s.controller.activeScan, a.volumeId = v) ∨
    ∃ descriptor ∈ nextVolume s answers, descriptor.volumeId = v

/-- The events a step asks for. -/
def pageSize (maximumEvents : Nat) : Nat := max 1 (min maximumEvents maxBrokerPageEvents)

section Serving

variable [CaseMapping] {s : Observation} {answers : Answers} {descriptor : VolumeDescriptor}

/-- The step of a volume in turn. -/
theorem step_serves (h : nextVolume s answers = some descriptor) (n : Nat) :
    ∃ s₁ : Observation, s₁.graph = s.graph ∧ s₁.history = s.history ∧
      s₁.controller.activeScan = none ∧
      step s answers n = serveVolume s₁ answers descriptor (pageSize n) := by
  unfold nextVolume at h
  unfold step
  cases hactive : s.controller.activeScan with
  | some a => rw [hactive] at h; cases h
  | none =>
    rw [hactive] at h
    dsimp only at h ⊢
    have hrefreshed : ∀ s₁ x, refreshDiscoveryIfDue s answers = .ok (s₁, x) →
        s₁.graph = s.graph ∧ s₁.history = s.history ∧ s₁.controller.activeScan = none := by
      intro s₁ x hrefresh
      unfold refreshDiscoveryIfDue at hrefresh
      split_ifs at hrefresh
      · split at hrefresh
        · cases hrefresh
        · obtain ⟨rfl, -⟩ := Prod.mk.inj (Except.ok.inj hrefresh)
          exact ⟨rfl, rfl, hactive⟩
      · obtain ⟨rfl, -⟩ := Prod.mk.inj (Except.ok.inj hrefresh)
        exact ⟨rfl, rfl, hactive⟩
    cases hrefresh : refreshDiscoveryIfDue s answers with
    | error e => rw [hrefresh] at h; cases h
    | ok x =>
      obtain ⟨s₁, x⟩ := x
      rw [hrefresh] at h
      obtain ⟨hgraph, hhistory, hnone⟩ := hrefreshed s₁ x hrefresh
      refine ⟨{ s₁ with
        controller := { s₁.controller with
          cursor := ((if s₁.controller.volumes.length ≤ s₁.controller.cursor then 0
            else s₁.controller.cursor) + 1) % s₁.controller.volumes.length } },
        hgraph, hhistory, hnone, ?_⟩
      change serveRound s₁ answers (pageSize n) = _
      unfold serveRound
      dsimp only at h ⊢
      rw [h]

variable {g g' : FilesystemGraph} {v : VolumeId} {cp : ProviderCheckpoint}

/-- The batch that asks for reconciliation of a known volume. -/
theorem reconciliationBatch_eq {row : VolumeRow} (reason : ReconciliationReason)
    (hrow : g.volumes.get v = some row) (hcp : cp.volumeId = v)
    (hgen : currentGeneration g v + 1 < 2 ^ 63) :
    ∃ g' summary, applyBatch g ⟨v, cp, [.requireReconciliation v reason]⟩ = .ok (g', summary) ∧
      currentGeneration g' v = currentGeneration g v + 1 ∧
      g'.volumeState v = some .needsReconciliation ∧ g'.sessions = g.sessions ∧
      g'.checkpoints.get v = some (ProviderCheckpoint.row cp) := by
  have hvalid : GraphMutationBatch.validate ⟨v, cp, [.requireReconciliation v reason]⟩ = .ok () :=
    validate_ok.mpr ⟨hcp, fun m hm => by rw [List.mem_singleton.mp hm]; rfl⟩
  have hnext : checkedSucc (currentGeneration g v) "graph generation" =
      .ok (currentGeneration g v + 1) := checkedSucc_ok.mpr ⟨hgen, rfl⟩
  -- no link is affected, so nothing is synced
  have hsync : ∀ g₁ : FilesystemGraph, syncLinks g₁ (currentGeneration g v + 1) .durable
      ((LinkSet.addAll .empty (affectedLinks g (.requireReconciliation v reason))).rows.map (·.1)) =
      .ok (g₁, 0) := fun _ => rfl
  simp only [applyBatch, applyBatchWithOutboxMode, hvalid, hnext, bind, Except.bind, applyMutations,
    applyMutation, requireReconciliation, hrow, enqueueVolumeProjectionRefresh, collectAffectedLinks,
    hsync, reduceCtorEq, false_and, if_false, Table.get_insert_self, Option.isNone_some,
    Bool.false_eq_true]
  refine ⟨_, _, rfl, ?_, ?_, rfl, Table.get_insert_self _ _ _⟩
  · simp [currentGeneration, putCheckpoint, setGeneration, Table.get_modify]
  · simp [FilesystemGraph.volumeState, putCheckpoint, setGeneration, Table.get_modify]

omit [CaseMapping] in
/-- A scan opens up to the last generation. -/
theorem beginObservationScan_ok (mode : ObservationScanMode) (reason : ReconciliationReason) :
    (∃ x, beginObservationScan g descriptor mode reason = .ok x) ↔
      currentGeneration g descriptor.volumeId + 1 < 2 ^ 63 := by
  constructor
  · rintro ⟨x, h⟩
    obtain ⟨gen, hgen, -⟩ := bind_ok.mp h
    exact (checkedSucc_ok.mp hgen).1
  · intro hgen
    have hnext : checkedSucc (currentGeneration g descriptor.volumeId) "observation scan generation" =
        .ok (currentGeneration g descriptor.volumeId + 1) := checkedSucc_ok.mpr ⟨hgen, rfl⟩
    exact ⟨_, bind_ok.mpr ⟨_, hnext, rfl⟩⟩

/-- No step of the store fails. -/
def StoreWorks (answers : Answers) : Prop := ∀ call, answers.fault call = none

/-- A volume that is closed without a session gets one. -/
theorem serveVolume_opens (hstore : StoreWorks answers)
    (hsession : observationSession s.graph descriptor.volumeId = none)
    (hcheckpoint : s.graph.checkpoint descriptor.volumeId = some cp)
    (hstate : s.graph.volumeState descriptor.volumeId = some .needsReconciliation) (n : Nat) :
    (∃ s', serveVolume s answers descriptor n = .ok (s', .scanPrepared descriptor.volumeId) ∧
      (observationSession s'.graph descriptor.volumeId).isSome) ↔
      currentGeneration s.graph descriptor.volumeId + 1 < 2 ^ 63 := by
  have hserve : serveVolume s answers descriptor n = (do
      let begun ← s.commit none
        (.beginObservationScan descriptor .reconcile (scanReason .reconcile))
        (beginObservationScan s.graph descriptor .reconcile (scanReason .reconcile))
      .ok (begun.1, .scanPrepared descriptor.volumeId)) := by
    simp [serveVolume, Observation.load, hstore _, hsession, hcheckpoint, hstate, bind, Except.bind]
  rw [hserve, ← beginObservationScan_ok .reconcile (scanReason .reconcile)]
  cases hbegin : beginObservationScan s.graph descriptor .reconcile (scanReason .reconcile) with
  | error e =>
    constructor
    · rintro ⟨s', h, -⟩
      cases h
    · rintro ⟨x, h⟩
      cases h
  | ok x =>
    refine ⟨fun _ => ⟨x, rfl⟩, fun _ => ⟨_, rfl, ?_⟩⟩
    obtain ⟨-, ⟨gen, hopened⟩, -⟩ := begin_standing (map_fst_ok.mpr ⟨x.2, hbegin⟩)
    change (observationSession x.1 descriptor.volumeId).isSome
    rw [observationSession, hopened]
    rfl

/-- Reading the journal of an open volume. -/
theorem serveVolume_reads (hstore : StoreWorks answers)
    (hsession : observationSession s.graph descriptor.volumeId = none)
    (hcheckpoint : s.graph.checkpoint descriptor.volumeId = some cp)
    (hstate : s.graph.volumeState descriptor.volumeId ≠ some .needsReconciliation) (n : Nat) :
    serveVolume s answers descriptor n = readIncremental s answers descriptor cp n := by
  simp [serveVolume, Observation.load, hstore _, hsession, hcheckpoint, hstate, bind, Except.bind]

/-- The step commits a batch that closes the volume and keeps its checkpoint, and
the next step for the volume opens a session, whatever happened in between. -/
def Reconciles (s : Observation) (answers : Answers) (maximumEvents : Nat) (v : VolumeId)
    (cp : ProviderCheckpoint) : Prop :=
  ∃ s' batch, step s answers maximumEvents = .ok (s', .reconciliationRequired v) ∧
    batch.volumeId = v ∧
    s'.history.getLast? = some (.commit s.graph (.applyBatch batch) s'.graph) ∧
    s'.graph.volumeState v = some .needsReconciliation ∧ s'.graph.checkpoint v = some cp ∧
    ∀ s₂ answers₂ n₂, Elsewhere v s' s₂ → Serves s₂ answers₂ v → StoreWorks answers₂ →
      ∃ s₃, step s₂ answers₂ n₂ = .ok (s₃, .scanPrepared v) ∧ (observationSession s₃.graph v).isSome

/-- The step of a volume whose journal read fails with a gap. -/
theorem step_gap {error : PlatformError} (hnext : nextVolume s answers = some descriptor)
    (hstore : StoreWorks answers)
    (hsession : observationSession s.graph descriptor.volumeId = none)
    (hcheckpoint : s.graph.checkpoint descriptor.volumeId = some cp)
    (hstate : s.graph.volumeState descriptor.volumeId ≠ some .needsReconciliation)
    (hvolume : (s.graph.volumes.get descriptor.volumeId).isSome)
    (herror : answers.readChanges = .error error) (hkind : error.kind = .sourceHistoryGap)
    (hgen : currentGeneration s.graph descriptor.volumeId + 1 < 2 ^ 63) (n : Nat) :
    ∃ s' batch, step s answers n = .ok (s', .reconciliationRequired descriptor.volumeId) ∧
      batch.volumeId = descriptor.volumeId ∧
      s'.history.getLast? = some (.commit s.graph (.applyBatch batch) s'.graph) ∧
      s'.graph.volumeState descriptor.volumeId = some .needsReconciliation ∧
      s'.graph.checkpoint descriptor.volumeId = some cp ∧
      observationSession s'.graph descriptor.volumeId = none ∧
      currentGeneration s'.graph descriptor.volumeId =
        currentGeneration s.graph descriptor.volumeId + 1 ∧
      s'.controller.activeScan = none := by
  obtain ⟨row, hrow⟩ := Option.isSome_iff_exists.mp hvolume
  obtain ⟨stored, hstored, rfl⟩ := checkpoint_eq_some.mp hcheckpoint
  obtain ⟨g', summary, happly, hgen', hclosed, hsessions, hput⟩ :=
    reconciliationBatch_eq .sourceHistoryUnavailable hrow
      (rfl : (CheckpointRow.at stored descriptor.volumeId).volumeId = descriptor.volumeId) hgen
  obtain ⟨s₁, hgraph, hhistory, hactive, hstep⟩ := step_serves hnext n
  rw [← hgraph] at hsession hcheckpoint hstate happly
  rw [serveVolume_reads hstore hsession hcheckpoint hstate] at hstep
  simp only [readIncremental, herror, hkind, true_or, if_true, commitBatch, Observation.commit,
    Observation.note, hstore _, happly, bind, Except.bind] at hstep
  refine ⟨_, ⟨descriptor.volumeId, CheckpointRow.at stored descriptor.volumeId,
    [.requireReconciliation descriptor.volumeId .sourceHistoryUnavailable]⟩, hstep, rfl, ?_, hclosed,
    ?_, ?_, hgen', hactive⟩
  · simp [hgraph]
  · exact checkpoint_eq_some.mpr ⟨_, hput, rfl⟩
  · rw [observationSession, hsessions, ← hgraph]
    exact hsession

/-- A step asks for reconciliation only after a gap and with a generation left. -/
theorem step_asks {s' : Observation} {n : Nat} {error : PlatformError}
    (hnext : nextVolume s answers = some descriptor) (hstore : StoreWorks answers)
    (hsession : observationSession s.graph descriptor.volumeId = none)
    (hcheckpoint : s.graph.checkpoint descriptor.volumeId = some cp)
    (hstate : s.graph.volumeState descriptor.volumeId ≠ some .needsReconciliation)
    (herror : answers.readChanges = .error error)
    (hkind : error.kind = .sourceHistoryGap ∨ error.kind = .unsupported)
    (hstep : step s answers n = .ok (s', .reconciliationRequired descriptor.volumeId)) :
    error.kind = .sourceHistoryGap ∧ currentGeneration s.graph descriptor.volumeId + 1 < 2 ^ 63 := by
  obtain ⟨s₁, hgraph, -, -, heq⟩ := step_serves hnext n
  rw [← hgraph] at hsession hcheckpoint hstate ⊢
  rw [heq, serveVolume_reads hstore hsession hcheckpoint hstate, readIncremental, herror] at hstep
  rcases hkind with hgap | hother
  · refine ⟨hgap, ?_⟩
    simp only [hgap, true_or, if_true, commitBatch, Observation.commit, Observation.note, hstore _,
      bind, Except.bind] at hstep
    cases happly : applyBatch s₁.graph ⟨descriptor.volumeId, cp,
        [.requireReconciliation descriptor.volumeId .sourceHistoryUnavailable]⟩ with
    | error e => rw [happly] at hstep; cases hstep
    | ok x =>
      obtain ⟨-, -, -, hgen, -⟩ := applyBatchWithOutboxMode_ok happly
      exact hgen
  · simp only [hother, reduceCtorEq, or_self, if_false] at hstep

omit [CaseMapping] in
/-- A restart that discovers the volume alone serves it next. -/
theorem serves_restart (s : Observation) (answers : Answers) (descriptor : VolumeDescriptor) :
    Serves (s.restart false [{ descriptor with isLocal := true, filesystem := some "ntfs" }]
      (.volumes [descriptor.volumeId])) { answers with discoveryDue := false }
      descriptor.volumeId := by
  refine .inr ⟨{ descriptor with isLocal := true, filesystem := some "ntfs" }, ?_, rfl⟩
  simp [nextVolume, Observation.restart, BrokerObservationController.new, refreshDiscoveryIfDue,
    selectedVolumes, eqIgnoreAsciiCase]

/-- A closed volume without a session gets one at its next step, up to the last
generation. -/
theorem step_opens {s₂ : Observation} {v : VolumeId} {answers₂ : Answers}
    (hclosed : s.graph.volumeState v = some .needsReconciliation)
    (hcheckpoint : s.graph.checkpoint v = some cp) (hsession : observationSession s.graph v = none)
    (hactive : s.controller.activeScan = none) (helse : Elsewhere v s s₂)
    (hserves : Serves s₂ answers₂ v) (hstore : StoreWorks answers₂) (n : Nat) :
    (∃ s₃, step s₂ answers₂ n = .ok (s₃, .scanPrepared v) ∧
      (observationSession s₃.graph v).isSome) ↔ currentGeneration s.graph v + 1 < 2 ^ 63 := by
  obtain ⟨hrows, hother⟩ := helse.untouched fun a ha => by rw [hactive] at ha; cases ha
  rcases hserves with ⟨a, ha, hv⟩ | ⟨descriptor, hnext, rfl⟩
  · exact absurd hv (hother a ha)
  · obtain ⟨s₁, hgraph, -, -, hstep⟩ := step_serves hnext n
    have hrow : s₁.graph.volumes.get descriptor.volumeId = s.graph.volumes.get descriptor.volumeId := by
      rw [hgraph, hrows.volume]
    have hsession₁ : observationSession s₁.graph descriptor.volumeId = none := by
      rw [observationSession, hgraph, hrows.session]
      exact hsession
    have hcheckpoint₁ : s₁.graph.checkpoint descriptor.volumeId = some cp := by
      rw [FilesystemGraph.checkpoint, hgraph, hrows.checkpoint]
      exact hcheckpoint
    have hclosed₁ : s₁.graph.volumeState descriptor.volumeId = some .needsReconciliation := by
      rw [FilesystemGraph.volumeState, hrow]
      exact hclosed
    rw [hstep, serveVolume_opens hstore hsession₁ hcheckpoint₁ hclosed₁, currentGeneration,
      currentGeneration, hrow]

/-- A volume whose journal cannot be continued from the stored checkpoint is
reconciled through the broker exactly when the provider reports a gap and two
generations are left. -/
theorem lost_continuity_reconciles_iff {service : BrokerService} {around : Surroundings}
    {client : BrokerFilesystemProvider} {error : PlatformError} {n : Nat}
    (hg : Reachable s.graph) (hnext : nextVolume s answers = some descriptor)
    (hstore : StoreWorks answers)
    (hsession : observationSession s.graph descriptor.volumeId = none)
    (hcheckpoint : s.graph.checkpoint descriptor.volumeId = some cp)
    (hstate : s.graph.volumeState descriptor.volumeId ≠ some .needsReconciliation)
    (hanswer : answers.readChanges =
      (readChangesThroughBroker service around client cp (pageSize n)).2.2)
    (hreach : Reaches service around client cp (pageSize n)) (herror : around.changes = .error error)
    (hkind : error.kind = .sourceHistoryGap ∨ error.kind = .invalidCheckpoint) :
    Reconciles s answers n descriptor.volumeId cp ↔
      error.kind = .sourceHistoryGap ∧
        currentGeneration s.graph descriptor.volumeId + 2 < 2 ^ 63 := by
  obtain ⟨stored, hstored, -⟩ := checkpoint_eq_some.mp hcheckpoint
  have hvolume : (s.graph.volumes.get descriptor.volumeId).isSome :=
    hg.checkpointsWF _ (by rw [hstored]; rfl)
  rw [readChanges_error hreach herror] at hanswer
  have hwire := wireError_kind hkind
  constructor
  · rintro ⟨s', batch, hstep, -, -, -, -, hopens⟩
    obtain ⟨hgap, hgen⟩ := step_asks hnext hstore hsession hcheckpoint hstate hanswer
      (by rw [hwire]; split_ifs <;> simp) hstep
    obtain ⟨s'', -, hstep', -, -, hclosed, hkept, hnone, hgen', hactive⟩ :=
      step_gap hnext hstore hsession hcheckpoint hstate hvolume hanswer hgap hgen n
    obtain ⟨rfl, -⟩ := Prod.mk.inj (Except.ok.inj (hstep.symm.trans hstep'))
    have helse := Elsewhere.refl.restart (v := descriptor.volumeId) (s := s') false
      [{ descriptor with isLocal := true, filesystem := some "ntfs" }] (.volumes [descriptor.volumeId])
    have hserves := serves_restart s' answers descriptor
    have hopened := (step_opens hclosed hkept hnone hactive helse hserves hstore 0).mp
      (hopens _ _ 0 helse hserves hstore)
    refine ⟨?_, by omega⟩
    by_contra hgap'
    rw [if_neg hgap'] at hwire
    rw [hwire] at hgap
    cases hgap
  · rintro ⟨hgap, hgen⟩
    rw [if_pos hgap] at hwire
    obtain ⟨s', batch, hstep, hv, hlast, hclosed, hkept, hnone, hgen', hactive⟩ :=
      step_gap hnext hstore hsession hcheckpoint hstate hvolume hanswer hwire (by omega) n
    refine ⟨s', batch, hstep, hv, hlast, hclosed, hkept, fun s₂ answers₂ n₂ helse hserves hstore₂ => ?_⟩
    exact (step_opens hclosed hkept hnone hactive helse hserves hstore₂ n₂).mpr (by omega)

end Serving

section Example

attribute [local instance] asciiCaseMapping

/-- A volume with a tree and a checkpoint, its turn next. -/
def scannedObservation : Observation where
  graph := (runOps .empty [.applyBatch (sampleBatch sampleTree)]).toOption.getD .empty
  controller := .new [{ sampleDescriptor with filesystem := some "ntfs" }] .allLocalNtfs
  history := []

theorem scannedObservation_reachable : Reachable scannedObservation.graph := by
  have hrun : runOps .empty [.applyBatch (sampleBatch sampleTree)] = .ok scannedObservation.graph := by
    decide
  exact runOps_steps (fun _ _ _ => trivial) hrun

def failingSource (kind : PlatformErrorKind) : Surroundings :=
  { quiet with changes := .error ⟨kind, "read_changes", ""⟩ }

/-- The answers a step gets through the broker when the journal read fails. -/
def failingAnswers (kind : PlatformErrorKind) : Answers :=
  { sampleAnswers with
    readChanges := (readChangesThroughBroker .new (failingSource kind) ⟨unavailableCapabilities, 0⟩
      sampleCheckpoint 4).2.2 }

/-- An invalid checkpoint arrives as an unsupported operation, and the step fails
without a write. -/
theorem invalidCheckpoint_not_reconciled : ¬ ∀ (s : Observation) (answers : Answers)
    (descriptor : VolumeDescriptor) (cp : ProviderCheckpoint) (service : BrokerService)
    (around : Surroundings) (client : BrokerFilesystemProvider) (error : PlatformError) (n : Nat),
    Reachable s.graph → nextVolume s answers = some descriptor → StoreWorks answers →
    observationSession s.graph descriptor.volumeId = none →
    s.graph.checkpoint descriptor.volumeId = some cp →
    s.graph.volumeState descriptor.volumeId ≠ some .needsReconciliation →
    answers.readChanges = (readChangesThroughBroker service around client cp (pageSize n)).2.2 →
    Reaches service around client cp (pageSize n) → around.changes = .error error →
    error.kind = .sourceHistoryGap ∨ error.kind = .invalidCheckpoint →
    Reconciles s answers n descriptor.volumeId cp := by
  intro hclaim
  obtain ⟨s', batch, hstep, -⟩ := hclaim scannedObservation (failingAnswers .invalidCheckpoint)
    { sampleDescriptor with filesystem := some "ntfs" } sampleCheckpoint .new
    (failingSource .invalidCheckpoint) ⟨unavailableCapabilities, 0⟩ _ 4 scannedObservation_reachable
    (by decide +kernel) (fun _ => rfl) (by decide +kernel) (by decide +kernel) (by decide +kernel)
    rfl (by decide) rfl (Or.inr rfl)
  have hfails : (step scannedObservation (failingAnswers .invalidCheckpoint) 4).isOk = false := by
    decide +kernel
  rw [hstep] at hfails
  cases hfails

/-- A history gap is reconciled. -/
theorem scannedObservation_reconciles :
    Reconciles scannedObservation (failingAnswers .sourceHistoryGap) 4 sampleVolume
      sampleCheckpoint := by
  have hnext : nextVolume scannedObservation (failingAnswers .sourceHistoryGap) =
      some { sampleDescriptor with filesystem := some "ntfs" } := by decide +kernel
  have hreach : Reaches .new (failingSource .sourceHistoryGap) ⟨unavailableCapabilities, 0⟩
      sampleCheckpoint (pageSize 4) := by decide
  exact (lost_continuity_reconciles_iff scannedObservation_reachable hnext (fun _ => rfl)
    (by decide) (by decide) (by decide) rfl hreach rfl (Or.inl rfl)).mpr
    (by decide)

end Example

end LocalSearch.Agent
