import LocalSearch.Agent.Observation
import LocalSearch.Graph.ScanFinalize
import LocalSearch.Lib.Log

/-!
# Authority of checkpoints

A session keeps its volume closed and the scan marker inside the session. What
is read from the journal starts at a checkpoint that a finished scan or a
committed read returned, and pages of a scan reach only the session they were
started for.
-/
namespace LocalSearch.Agent

set_option autoImplicit false

open Core Lib Graph Broker

/-- Session, checkpoint and state of a volume. -/
def standing (g : FilesystemGraph) (v : VolumeId) :
    Option SessionRow × Option CheckpointRow × Option VolumeState :=
  (g.sessions.get v, g.checkpoints.get v, g.volumeState v)

section Standing

variable {g g' : FilesystemGraph} {v w : VolumeId} {gen n : Nat}

theorem volumeState_setGeneration : (setGeneration g w gen).volumeState v = g.volumeState v := by
  simp only [FilesystemGraph.volumeState, setGeneration, Table.get_modify]
  split_ifs with h
  · rw [h, Option.map_map]
    rfl
  · rfl

/-- A mutation of a volume leaves the others alone, and no provider event
reopens its own. -/
theorem applyMutation_volumeState {m : GraphMutation} (hm : m.InVolume v)
    (h : applyMutation g m gen = .ok (g', n)) :
    (∀ w, w ≠ v → g'.volumeState w = g.volumeState w) ∧
      ((∃ event, m = .ofEvent event) → g.volumeState v = some .needsReconciliation →
        g'.volumeState v = some .needsReconciliation) := by
  have hsame : g'.volumes = g.volumes → (∀ w, w ≠ v → g'.volumeState w = g.volumeState w) ∧
      ((∃ event, m = .ofEvent event) → g.volumeState v = some .needsReconciliation →
        g'.volumeState v = some .needsReconciliation) := fun hvolumes => by
    have hstate : ∀ w, g'.volumeState w = g.volumeState w := fun w => by
      rw [FilesystemGraph.volumeState, hvolumes]
      rfl
    exact ⟨fun w _ => hstate w, fun _ hs => (hstate v).trans hs⟩
  -- a row inserted at the volume is not seen from elsewhere
  have hother : ∀ (row : VolumeRow) w, w ≠ v →
      ((g.volumes.insert v row).get w).map (·.state) = g.volumeState w := fun row w hw => by
    rw [Table.get_insert_ne _ _ hw]
    rfl
  cases m with
  | upsertVolume descriptor =>
    obtain ⟨rfl, -⟩ := Prod.mk.inj (Except.ok.inj h)
    obtain rfl : descriptor.volumeId = v := hm
    refine ⟨hother _, ?_⟩
    rintro ⟨event, he⟩
    cases event <;> cases he
  | setVolumeState volumeId state =>
    obtain rfl : volumeId = v := hm
    simp only [applyMutation, setVolumeState] at h
    cases hrow : g.volumes.get volumeId with
    | none => rw [hrow] at h; cases h
    | some row =>
      rw [hrow] at h
      obtain ⟨rfl, -⟩ := Prod.mk.inj (Except.ok.inj h)
      refine ⟨hother _, ?_⟩
      rintro ⟨event, he⟩
      cases event <;> cases he
  | requireReconciliation volumeId reason =>
    obtain rfl : volumeId = v := hm
    simp only [applyMutation, requireReconciliation] at h
    cases hrow : g.volumes.get volumeId with
    | none => rw [hrow] at h; cases h
    | some row =>
      rw [hrow] at h
      obtain ⟨rfl, -⟩ := Prod.mk.inj (Except.ok.inj h)
      refine ⟨hother _, fun _ _ => ?_⟩
      simp [FilesystemGraph.volumeState]
  | upsertObject object =>
    obtain ⟨g₁, h₁, heq⟩ := bind_ok.mp h
    obtain ⟨rfl, -⟩ := Prod.mk.inj (Except.ok.inj heq)
    simp only [upsertObject, guard_ok] at h₁
    obtain rfl := Except.ok.inj h₁.2.2
    exact hsame rfl
  | upsertLink link boundary =>
    refine hsame ?_
    rw [upsertLink_frame h]
  | removeLink id object =>
    refine hsame ?_
    rw [removeLinkInternal_frame h]
  | tombstoneObject object =>
    obtain ⟨g₁, h₁, heq⟩ := bind_ok.mp h
    obtain ⟨rfl, -⟩ := Prod.mk.inj (Except.ok.inj heq)
    obtain ⟨-, -, rfl⟩ := tombstoneObject_ok h₁
    exact hsame rfl

theorem applyMutations_standing {ms : List GraphMutation} {affected affected' : LinkSet}
    (hms : ∀ m ∈ ms, m.InVolume v) (h : applyMutations gen g affected ms = .ok (g', affected', n)) :
    g'.sessions = g.sessions ∧ g'.checkpoints = g.checkpoints ∧
      (∀ w, w ≠ v → g'.volumeState w = g.volumeState w) ∧
      ((∀ m ∈ ms, ∃ event, m = .ofEvent event) → g.volumeState v = some .needsReconciliation →
        g'.volumeState v = some .needsReconciliation) := by
  have hstates : (∀ w, w ≠ v → g'.volumeState w = g.volumeState w) ∧
      ((∀ m ∈ ms, ∃ event, m = .ofEvent event) → g.volumeState v = some .needsReconciliation →
        g'.volumeState v = some .needsReconciliation) := by
    refine applyMutations_induct
      (P := fun h _ => (∀ w, w ≠ v → h.volumeState w = g.volumeState w) ∧
        ((∀ m ∈ ms, ∃ event, m = .ofEvent event) → g.volumeState v = some .needsReconciliation →
          h.volumeState v = some .needsReconciliation)) ?_ h ⟨fun _ _ => rfl, fun _ hs => hs⟩
    rintro m hm g₁ affected₁ g₂ n₁ ⟨hother, hclosed⟩ hstep
    obtain ⟨hother₁, hclosed₁⟩ := applyMutation_volumeState (hms m hm) hstep
    exact ⟨fun w hw => (hother₁ w hw).trans (hother w hw),
      fun hev hstate => hclosed₁ (hev m hm) (hclosed hev hstate)⟩
  refine ⟨?_, ?_, hstates⟩ <;> rw [applyMutations_frame h]

variable [CaseMapping]

theorem applyBatch_standing {batch : GraphMutationBatch}
    (h : (GraphOp.applyBatch batch).run g = .ok g') :
    batch.checkpoint.volumeId = batch.volumeId ∧
      (∀ w, w ≠ batch.volumeId → standing g' w = standing g w) ∧
      g'.sessions.get batch.volumeId = g.sessions.get batch.volumeId ∧
      g'.checkpoints.get batch.volumeId = some (ProviderCheckpoint.row batch.checkpoint) ∧
      ((∀ m ∈ batch.mutations, ∃ event, m = .ofEvent event) →
        g.volumeState batch.volumeId = some .needsReconciliation →
        g'.volumeState batch.volumeId = some .needsReconciliation) := by
  obtain ⟨summary, h⟩ := map_fst_ok.mp h
  obtain ⟨hcp, hms, -, -, g₁, g₂, affected, jobs, appended, h₁, h₂, -, rfl⟩ :=
    applyBatchWithOutboxMode_ok h
  obtain ⟨hs, hc, hother, hclosed⟩ := applyMutations_standing hms h₁
  have hframe := syncLinks_frame h₂
  have hstate : ∀ w, (putCheckpoint (setGeneration g₂ batch.volumeId
      (currentGeneration g batch.volumeId + 1)) batch.volumeId
      (ProviderCheckpoint.row batch.checkpoint)).volumeState w = g₁.volumeState w := by
    intro w
    refine (volumeState_setGeneration (g := g₂)).trans ?_
    rw [hframe]
    rfl
  have hs₂ : g₂.sessions = g.sessions := by rw [hframe]; exact hs
  have hc₂ : g₂.checkpoints = g.checkpoints := by rw [hframe]; exact hc
  refine ⟨hcp, fun w hw => ?_, ?_, ?_, fun hev hclosed' => ?_⟩
  · rw [standing, standing, hstate w, hother w hw]
    simp only [putCheckpoint, setGeneration, Table.get_insert_ne _ _ hw, hs₂, hc₂]
  · exact congrArg (·.get batch.volumeId) hs₂
  · exact Table.get_insert_self _ _ _
  · rw [hstate]
    exact hclosed hev hclosed'

/-- The session a scan opens. -/
theorem begin_standing {descriptor : VolumeDescriptor} {mode : ObservationScanMode}
    {reason : ReconciliationReason}
    (h : (GraphOp.beginObservationScan descriptor mode reason).run g = .ok g') :
    (∀ w, w ≠ descriptor.volumeId → standing g' w = standing g w) ∧
      (∃ gen, g'.sessions.get descriptor.volumeId = some ⟨gen, mode, .scanning⟩) ∧
      g'.checkpoints = g.checkpoints ∧
      g'.volumeState descriptor.volumeId = some .needsReconciliation := by
  obtain ⟨session, h⟩ := map_fst_ok.mp h
  obtain ⟨gen, -, heq⟩ := bind_ok.mp h
  obtain ⟨rfl, -⟩ := Prod.mk.inj (Except.ok.inj heq)
  refine ⟨fun w hw => ?_, ⟨gen, Table.get_insert_self _ _ _⟩, rfl, ?_⟩
  · simp only [standing, FilesystemGraph.volumeState, upsertVolume, Table.get_modify, if_neg hw, Table.get_insert_ne _ _ hw]
  · simp [FilesystemGraph.volumeState, upsertVolume, Table.get_modify]

/-- A page leaves the session as it is and puts the marker in place. -/
theorem page_standing {events : List FilesystemEvent}
    (h : (GraphOp.applyObservationScanPage v events).run g = .ok g') :
    (∀ w, w ≠ v → standing g' w = standing g w) ∧
      (∃ session, g.sessions.get v = some session ∧ session.phase = .scanning) ∧
      g'.sessions.get v = g.sessions.get v ∧
      (g'.checkpoints.get v = g.checkpoints.get v ∨
        ∃ marker, g'.checkpoints.get v = some marker ∧ marker.providerId = scanMarkerProvider) ∧
      (g.volumeState v = some .needsReconciliation → g'.volumeState v = some .needsReconciliation) := by
  obtain ⟨summary, h⟩ := map_fst_ok.mp h
  obtain ⟨session, hsession, hphase, -⟩ := applyObservationScanPage_ok h
  unfold applyObservationScanPage observationSession at h
  simp only [hsession, Option.map_some, guard_ok] at h
  obtain ⟨-, h⟩ := h
  split_ifs at h
  · obtain ⟨rfl, -⟩ := Prod.mk.inj (Except.ok.inj h)
    exact ⟨fun _ _ => rfl, ⟨session, hsession, hphase⟩, rfl, Or.inl rfl, id⟩
  · obtain ⟨-, hother, hs, hc, hclosed⟩ := applyBatch_standing (map_fst_ok.mpr ⟨summary, h⟩)
    refine ⟨hother, ⟨session, hsession, hphase⟩, hs, Or.inr ⟨_, hc, rfl⟩, hclosed fun m hm => ?_⟩
    obtain ⟨event, -, rfl⟩ := List.mem_map.mp hm
    exact ⟨event, rfl⟩

omit [CaseMapping] in
theorem stage_standing {checkpoint : ProviderCheckpoint}
    (h : stageObservationCheckpoint g v checkpoint = .ok g') :
    checkpoint.volumeId = v ∧ (∀ w, w ≠ v → standing g' w = standing g w) ∧
      (∃ session, g.sessions.get v = some session ∧ g'.sessions.get v =
        some { session with phase := .sweepingLinks (ProviderCheckpoint.row checkpoint) }) ∧
      g'.checkpoints = g.checkpoints ∧ g'.volumes = g.volumes := by
  have hv : checkpoint.volumeId = v := by
    rw [stageObservationCheckpoint, guard_ok, not_not] at h
    exact h.1
  obtain ⟨session, hs, -, rfl⟩ := stageObservationCheckpoint_ok h
  refine ⟨hv, fun w hw => ?_, ⟨session, hs, Table.get_insert_self _ _ _⟩, rfl, rfl⟩
  simp only [standing, FilesystemGraph.volumeState, Table.get_insert_ne _ _ hw]

theorem sweepLinkRows_rows {rows : List (FileLinkId × LinkRow)}
    (h : sweepLinkRows gen g rows = .ok g') :
    g'.sessions = g.sessions ∧ g'.checkpoints = g.checkpoints ∧ g'.volumes = g.volumes := by
  induction rows generalizing g with
  | nil =>
    obtain rfl := Except.ok.inj h
    exact ⟨rfl, rfl, rfl⟩
  | cons x rest ih =>
    simp only [sweepLinkRows, bind_ok] at h
    obtain ⟨⟨g₁, n₁⟩, h₁, ⟨g₂, n₂⟩, h₂, hrest⟩ := h
    obtain ⟨hs, hc, hv⟩ := ih hrest
    rw [syncCatalogProjection_frame h₂, removeLinkInternal_frame h₁] at hs hc hv
    exact ⟨hs, hc, hv⟩

/-- The checkpoint a session has staged. -/
def SessionRow.staged (session : SessionRow) : Option CheckpointRow :=
  match session.phase with
  | .scanning => none
  | .sweepingLinks staged => some staged
  | .sweepingObjects staged => some staged

omit [CaseMapping] in
/-- What a finalization call that does not end the session keeps. -/
theorem finalize_kept {g₁ : FilesystemGraph} (hc : g₁.checkpoints = g.checkpoints)
    (hvol : g₁.volumes = g.volumes) (hs : ∀ w, w ≠ v → g₁.sessions.get w = g.sessions.get w)
    (hstaged : (g₁.sessions.get v).map SessionRow.staged = (g.sessions.get v).map SessionRow.staged) :
    (∀ w, w ≠ v → standing (setGeneration g₁ v gen) w = standing g w) ∧
      ((setGeneration g₁ v gen).sessions.get v).map SessionRow.staged =
        (g.sessions.get v).map SessionRow.staged ∧
      (setGeneration g₁ v gen).checkpoints.get v = g.checkpoints.get v ∧
      (setGeneration g₁ v gen).volumeState v = g.volumeState v := by
  have hstate : ∀ w, (setGeneration g₁ v gen).volumeState w = g.volumeState w := by
    intro w
    rw [volumeState_setGeneration, FilesystemGraph.volumeState, hvol]
    rfl
  refine ⟨fun w hw => ?_, hstaged, congrArg (·.get v) hc, hstate v⟩
  rw [standing, hstate w]
  simp only [setGeneration, hs w hw, hc, standing]

/-- A finalization call keeps the staged checkpoint or puts it in force and ends
the session. -/
theorem finalize_standing {k : Nat}
    (h : (GraphOp.finalizeObservationScan v k).run g = .ok g') :
    (∀ w, w ≠ v → standing g' w = standing g w) ∧
      ((g'.sessions.get v = none ∧ ∃ session staged, g.sessions.get v = some session ∧
          SessionRow.staged session = some staged ∧ g'.checkpoints.get v = some staged) ∨
        ((g'.sessions.get v).map SessionRow.staged = (g.sessions.get v).map SessionRow.staged ∧
          g'.checkpoints.get v = g.checkpoints.get v ∧ g'.volumeState v = g.volumeState v)) := by
  obtain ⟨summary, h⟩ := map_fst_ok.mp h
  rcases finalizeObservationScan_ok h with ⟨-, rfl, -⟩ | ⟨-, session, volume, hsession, hvolume, -, hends⟩
  · exact ⟨fun _ _ => rfl, Or.inr ⟨rfl, rfl, rfl⟩⟩
  rcases hends with ⟨staged, g₁, removed, hphase, hsweep, rfl, -⟩ |
    ⟨staged, g₁, tombstoned, terminal, hphase, hsweep, -, rfl⟩
  · obtain ⟨g₀, hrows, hsweep⟩ := bind_ok.mp hsweep
    obtain ⟨hs, hc, hvol⟩ := sweepLinkRows_rows hrows
    split_ifs at hsweep
    · obtain ⟨rfl, -⟩ := Prod.mk.inj (Except.ok.inj hsweep)
      set row : SessionRow := { session with phase := .sweepingObjects staged }
      set g₁ : FilesystemGraph := { g₀ with sessions := g₀.sessions.insert v row }
      have hc₁ : g₁.checkpoints = g.checkpoints := hc
      refine (finalize_kept hc₁ hvol (fun w hw => ?_) ?_).imp_right Or.inr
      · exact (Table.get_insert_ne _ _ hw).trans (congrArg (·.get w) hs)
      · simp only [g₁, Table.get_insert_self, hsession, Option.map_some, SessionRow.staged, hphase, row]
    · obtain ⟨rfl, -⟩ := Prod.mk.inj (Except.ok.inj hsweep)
      exact (finalize_kept hc hvol (fun w _ => congrArg (·.get w) hs)
        (congrArg (fun t => (t.get v).map SessionRow.staged) hs)).imp_right Or.inr
  · obtain ⟨rfl, -⟩ := Prod.mk.inj hsweep
    have hframe := tombstones_frame (staleObjectPage g v session.scanGeneration k) g
    set g₁ := (staleObjectPage g v session.scanGeneration k).foldl
      (fun g x => setTombstoned g x.1 true) g
    have hs : g₁.sessions = g.sessions := by rw [hframe]
    have hc : g₁.checkpoints = g.checkpoints := by rw [hframe]
    have hvol : g₁.volumes = g.volumes := by rw [hframe]
    split_ifs
    · refine ⟨fun w hw => ?_, Or.inl ⟨?_, session, staged, hsession, ?_, ?_⟩⟩
      · have hcheckpoint : (g₁.checkpoints.insert v staged).get w = g.checkpoints.get w :=
          (Table.get_insert_ne _ _ hw).trans (congrArg (·.get w) hc)
        have hsession' : (g₁.sessions.erase v).get w = g.sessions.get w := by
          rw [Table.get_erase, if_neg hw, hs]
        have hstate : (activateObservationCheckpoint g₁ v (volume.generation + 1) staged).volumeState w =
            g.volumeState w := by
          simp only [activateObservationCheckpoint, putCheckpoint, FilesystemGraph.volumeState,
            enqueueVolumeProjectionRefresh, Table.get_modify, if_neg hw, hvol]
        rw [standing, hstate]
        exact Prod.ext hsession' (Prod.ext hcheckpoint rfl)
      · simp [activateObservationCheckpoint]
      · rw [SessionRow.staged, hphase]
      · exact Table.get_insert_self _ _ _
    · exact (finalize_kept hc hvol (fun w _ => congrArg (·.get w) hs)
        (congrArg (fun t => (t.get v).map SessionRow.staged) hs)).imp_right Or.inr

end Standing

section Cases

variable [CaseMapping]

/-- The ways a step can end: graph and active scan before, graph and active scan
after, and the entries noted in between. -/
inductive StepCase (g : FilesystemGraph) (n : Nat) :
    Option ActiveScan → FilesystemGraph → Option ActiveScan → List Entry → Prop
  | quiet : StepCase g n none g none []
  | pageLost (active : ActiveScan) (error : PlatformError) :
      StepCase g n (some active) g none
        [.readScanPage active.scanId n (.error error), .cancelScan active.scanId]
  | pageRefused (active : ActiveScan) (page : ScanPage) :
      StepCase g n (some active) g none [.readScanPage active.scanId n (.ok page)]
  | pageApplied {g' : FilesystemGraph} (active : ActiveScan) (page : ScanPage)
      (happly : (GraphOp.applyObservationScanPage active.volumeId page.events).run g = .ok g') :
      StepCase g n (some active) g' (if page.complete then none else some active)
        [.readScanPage active.scanId n (.ok page),
          .commit g (.applyObservationScanPage active.volumeId page.events) g']
  | pageStaged {g' g'' : FilesystemGraph} (active : ActiveScan) (page : ScanPage)
      (checkpoint : ProviderCheckpoint) (hcomplete : page.complete = true)
      (hpage : page.checkpoint = some checkpoint)
      (happly : (GraphOp.applyObservationScanPage active.volumeId page.events).run g = .ok g')
      (hstage : (GraphOp.stageObservationCheckpoint active.volumeId checkpoint).run g' = .ok g'') :
      StepCase g n (some active) g'' none
        [.readScanPage active.scanId n (.ok page),
          .commit g (.applyObservationScanPage active.volumeId page.events) g',
          .commit g' (.stageObservationCheckpoint active.volumeId checkpoint) g'']
  | prepared {g' : FilesystemGraph} (descriptor : VolumeDescriptor) (mode : ObservationScanMode)
      (hbegin : (GraphOp.beginObservationScan descriptor mode (scanReason mode)).run g = .ok g') :
      StepCase g n none g' none [.commit g (.beginObservationScan descriptor mode (scanReason mode)) g']
  | scanRefused (v : VolumeId) (mode : ScanMode) (error : PlatformError) :
      StepCase g n none g none [.startScan v mode (.error error)]
  | scanAbandoned (v : VolumeId) (mode : ScanMode) (scanId : Nat) :
      StepCase g n none g none [.startScan v mode (.ok scanId), .cancelScan scanId]
  | scanStarted {g' : FilesystemGraph} (descriptor : VolumeDescriptor) (mode : ObservationScanMode)
      (scanId : Nat)
      (hbegin : (GraphOp.beginObservationScan descriptor mode (scanReason mode)).run g = .ok g') :
      StepCase g n none g' (some ⟨descriptor.volumeId, scanId⟩)
        [.startScan descriptor.volumeId (brokerScanMode mode) (.ok scanId),
          .commit g (.beginObservationScan descriptor mode (scanReason mode)) g']
  | finalized {g' : FilesystemGraph} (v : VolumeId)
      (hfinalize : (GraphOp.finalizeObservationScan v n).run g = .ok g') :
      StepCase g n none g' none [.commit g (.finalizeObservationScan v n) g']
  | changesRead (v : VolumeId) (checkpoint : ProviderCheckpoint)
      (answer : PlatformResult (List FilesystemEvent × ChangeBatch))
      (hsession : observationSession g v = none) (hcheckpoint : g.checkpoint v = some checkpoint) :
      StepCase g n none g none [.readChanges g checkpoint n answer]
  | changesCommitted {g' : FilesystemGraph} (v : VolumeId) (checkpoint : ProviderCheckpoint)
      (events : List FilesystemEvent) (batch : ChangeBatch) (reopened : List GraphMutation)
      (hsession : observationSession g v = none) (hcheckpoint : g.checkpoint v = some checkpoint)
      (happly : (GraphOp.applyBatch
        ⟨v, batch.checkpoint, reopened ++ events.map GraphMutation.ofEvent⟩).run g = .ok g') :
      StepCase g n none g' none
        [.readChanges g checkpoint n (.ok (events, batch)),
          .commit g (.applyBatch
            ⟨v, batch.checkpoint, reopened ++ events.map GraphMutation.ofEvent⟩) g']
  | checkpointKept {g' : FilesystemGraph} (v : VolumeId) (checkpoint : ProviderCheckpoint)
      (error : PlatformError) (mutations : List GraphMutation)
      (hsession : observationSession g v = none) (hcheckpoint : g.checkpoint v = some checkpoint)
      (happly : (GraphOp.applyBatch ⟨v, checkpoint, mutations⟩).run g = .ok g') :
      StepCase g n none g' none
        [.readChanges g checkpoint n (.error error),
          .commit g (.applyBatch ⟨v, checkpoint, mutations⟩) g']

/-- `s'` comes out of `s` in one of these ways. -/
def Ends (n : Nat) (s s' : Observation) : Prop :=
  ∃ new, s'.history = s.history ++ new ∧
    StepCase s.graph n s.controller.activeScan s'.graph s'.controller.activeScan new

theorem Ends.of {n : Nat} {s s' : Observation} {g' : FilesystemGraph} {active active' : Option ActiveScan}
    {new : List Entry} (ha : s.controller.activeScan = active) (hg : s'.graph = g')
    (ha' : s'.controller.activeScan = active') (hnew : s'.history = s.history ++ new)
    (h : StepCase s.graph n active g' active' new) : Ends n s s' := by
  subst ha hg ha'
  exact ⟨new, hnew, h⟩

omit [CaseMapping] in
/-- A read of the store either ends the step or hands its value on. -/
theorem final_load {α β : Type} {P : Observation → Prop} {s₁ : Observation} {fault : Option GraphError}
    {value : α} {f : Observation × α → Observed (Observation × β)} (hfail : P s₁)
    (hdone : P (f (s₁, value)).final) : P (s₁.load fault value >>= f).final := by
  cases fault with
  | some error => exact hfail
  | none => exact hdone

omit [CaseMapping] in
/-- A write of the store either ends the step or hands the new graph on. -/
theorem final_commit {α β : Type} {P : Observation → Prop} {s₁ : Observation} {fault : Option GraphError}
    {op : GraphOp} {result : GraphResult (FilesystemGraph × α)}
    {f : Observation × α → Observed (Observation × β)} (hfail : P s₁)
    (hdone : ∀ g' a, result = .ok (g', a) →
      P (f ({ s₁ with graph := g', history := s₁.history ++ [.commit s₁.graph op g'] }, a)).final) :
    P (s₁.commit fault op result >>= f).final := by
  cases fault with
  | some error => exact hfail
  | none =>
    cases result with
    | error error => exact hfail
    | ok x => exact hdone x.1 x.2 rfl

theorem Ends.load {α β : Type} {n : Nat} {s s₁ : Observation} {fault : Option GraphError} {value : α}
    {f : Observation × α → Observed (Observation × β)} (hfail : Ends n s s₁)
    (hdone : Ends n s (f (s₁, value)).final) : Ends n s (s₁.load fault value >>= f).final :=
  final_load hfail hdone

theorem Ends.commit {α β : Type} {n : Nat} {s s₁ : Observation} {fault : Option GraphError}
    {op : GraphOp} {result : GraphResult (FilesystemGraph × α)}
    {f : Observation × α → Observed (Observation × β)} (hfail : Ends n s s₁)
    (hdone : ∀ g' a, result = .ok (g', a) → Ends n s
      (f ({ s₁ with graph := g', history := s₁.history ++ [.commit s₁.graph op g'] }, a)).final) :
    Ends n s (s₁.commit fault op result >>= f).final :=
  final_commit hfail hdone

theorem Ends.ite {β : Type} {n : Nat} {s : Observation} {c : Prop} [Decidable c]
    {x y : Observed (Observation × β)} (hx : Ends n s x.final) (hy : Ends n s y.final) :
    Ends n s (if c then x else y).final := by
  split_ifs
  · exact hx
  · exact hy

/-- Moving the round on is not seen. -/
theorem Ends.of_controller {n : Nat} {s s' : Observation} {c : BrokerObservationController}
    (hc : c.activeScan = s.controller.activeScan) (h : Ends n { s with controller := c } s') :
    Ends n s s' := by
  obtain ⟨new, hnew, hcase⟩ := h
  exact ⟨new, hnew, hc ▸ hcase⟩

theorem readActiveScan_ends {s : Observation} {active : ActiveScan} {n : Nat} (answers : Answers)
    (hs : s.controller.activeScan = some active) :
    Ends n s (readActiveScan (s.setActive none) answers active n).final := by
  unfold readActiveScan
  cases answers.readScanPage with
  | error error => exact .of hs rfl rfl (List.append_assoc _ _ _) (.pageLost active error)
  | ok page =>
    have hrefused : Ends n s ((s.setActive none).note (.readScanPage active.scanId n (.ok page))) :=
      .of hs rfl rfl rfl (.pageRefused active page)
    refine .load hrefused (.commit hrefused fun g₁ _ happly => ?_)
    have hrun := map_fst_ok.mpr ⟨_, happly⟩
    have hcase := StepCase.pageApplied (n := n) active page hrun
    dsimp only
    cases hcomplete : page.complete with
    | false =>
      rw [hcomplete] at hcase
      exact .of hs rfl rfl (List.append_assoc _ _ _) hcase
    | true =>
      rw [hcomplete] at hcase
      simp only [if_true]
      cases hcheckpoint : page.checkpoint with
      | none => exact .of hs rfl rfl (List.append_assoc _ _ _) hcase
      | some checkpoint =>
        refine .commit (.of hs rfl rfl (List.append_assoc _ _ _) hcase) fun g₂ _ hstage => ?_
        have hstage' : stageObservationCheckpoint g₁ active.volumeId checkpoint = .ok g₂ := by
          cases h : stageObservationCheckpoint g₁ active.volumeId checkpoint with
          | error e => rw [h] at hstage; cases hstage
          | ok g₃ => rw [h] at hstage; cases hstage; rfl
        exact .of hs rfl rfl ((List.append_assoc _ _ _).trans (List.append_assoc _ _ _))
          (.pageStaged active page checkpoint hcomplete hcheckpoint hrun hstage')

theorem handleSession_ends {s : Observation} {descriptor : VolumeDescriptor}
    {session : ObservationSession} {n : Nat} (answers : Answers)
    (hs : s.controller.activeScan = none) :
    Ends n s (handleSession s answers descriptor session n).final := by
  have hquiet : Ends n s s := .of hs rfl hs (List.append_nil _).symm .quiet
  unfold handleSession
  cases session.phase with
  | scanning =>
    dsimp only
    cases answers.startScan with
    | error error => exact .of hs rfl hs rfl (.scanRefused _ _ error)
    | ok scanId =>
      dsimp only
      have habandoned := StepCase.scanAbandoned (g := s.graph) (n := n) descriptor.volumeId
        (brokerScanMode session.mode) scanId
      cases answers.fault .write with
      | some error => exact .of hs rfl hs (List.append_assoc _ _ _) habandoned
      | none =>
        cases hbegin : beginObservationScan s.graph descriptor session.mode (scanReason session.mode) with
        | error error =>
          simp only [Observation.note, hbegin]
          exact .of hs rfl hs (List.append_assoc _ _ _) habandoned
        | ok x =>
          simp only [Observation.note, hbegin]
          exact .of hs rfl rfl (List.append_assoc _ _ _)
            (.scanStarted descriptor session.mode scanId (map_fst_ok.mpr ⟨x.2, hbegin⟩))
  | sweepingLinks =>
    exact .commit hquiet fun g₁ _ hrun =>
      .of hs rfl hs rfl (.finalized _ (map_fst_ok.mpr ⟨_, hrun⟩))
  | sweepingObjects =>
    exact .commit hquiet fun g₁ _ hrun =>
      .of hs rfl hs rfl (.finalized _ (map_fst_ok.mpr ⟨_, hrun⟩))

theorem readIncremental_ends {s : Observation} {descriptor : VolumeDescriptor}
    {checkpoint : ProviderCheckpoint} {n : Nat} (answers : Answers)
    (hs : s.controller.activeScan = none)
    (hsession : observationSession s.graph descriptor.volumeId = none)
    (hcheckpoint : s.graph.checkpoint descriptor.volumeId = some checkpoint) :
    Ends n s (readIncremental s answers descriptor checkpoint n).final := by
  have hread : ∀ answer, Ends n s (s.note (.readChanges s.graph checkpoint n answer)) := fun answer =>
    .of hs rfl hs rfl (.changesRead _ checkpoint answer hsession hcheckpoint)
  -- the batch after a failed read carries the checkpoint it was read with
  have hkept : ∀ error mutations g', applyBatch s.graph ⟨_, checkpoint, mutations⟩ = .ok g' →
      Ends n s { s with
        graph := g'.1
        history := s.history ++ [.readChanges s.graph checkpoint n (.error error)] ++
          [.commit s.graph (.applyBatch ⟨descriptor.volumeId, checkpoint, mutations⟩) g'.1] } :=
    fun error mutations g' happly => .of hs rfl hs (List.append_assoc _ _ _)
      (.checkpointKept _ checkpoint error mutations hsession hcheckpoint (map_fst_ok.mpr ⟨_, happly⟩))
  unfold readIncremental
  cases answers.readChanges with
  | error error =>
    dsimp only
    by_cases hgap : error.kind = .sourceHistoryGap ∨ error.kind = .invalidCheckpoint
    · rw [if_pos hgap]
      exact .commit (hread _) fun g' a happly => hkept error _ (g', a) happly
    · rw [if_neg hgap]
      by_cases hunavailable : error.kind = .unavailable
      · rw [if_pos hunavailable]
        refine .load (hread _) ?_
        dsimp only
        split_ifs
        · exact hread _
        · exact .commit (hread _) fun g' a happly => hkept error _ (g', a) happly
      · rw [if_neg hunavailable]
        exact hread _
  | ok x =>
    obtain ⟨events, batch⟩ := x
    refine .load (hread _) (.commit (hread _) fun g' a happly => ?_)
    have hcase := StepCase.changesCommitted (n := n) _ checkpoint events batch _ hsession hcheckpoint
      (map_fst_ok.mpr ⟨a, happly⟩)
    exact .ite (.of hs rfl hs (List.append_assoc _ _ _) hcase)
      (.of hs rfl hs (List.append_assoc _ _ _) hcase)

theorem serveVolume_ends {s : Observation} {descriptor : VolumeDescriptor} {n : Nat}
    (answers : Answers) (hs : s.controller.activeScan = none) :
    Ends n s (serveVolume s answers descriptor n).final := by
  have hquiet : Ends n s s := .of hs rfl hs (List.append_nil _).symm .quiet
  refine .load hquiet (.load hquiet ?_)
  dsimp only
  cases hsession : observationSession s.graph descriptor.volumeId with
  | some session => exact handleSession_ends answers hs
  | none =>
    refine .load hquiet ?_
    dsimp only
    cases hcheckpoint : s.graph.checkpoint descriptor.volumeId with
    | none =>
      exact .commit hquiet fun g' a hbegin =>
        .of hs rfl hs rfl (.prepared descriptor .initial (map_fst_ok.mpr ⟨a, hbegin⟩))
    | some checkpoint =>
      refine .load hquiet ?_
      dsimp only
      split_ifs
      · exact .commit hquiet fun g' a hbegin =>
          .of hs rfl hs rfl (.prepared descriptor .reconcile (map_fst_ok.mpr ⟨a, hbegin⟩))
      · exact readIncremental_ends answers hs hsession hcheckpoint

theorem serveRound_ends {s : Observation} {n : Nat} (answers : Answers)
    (hs : s.controller.activeScan = none) :
    Ends n s (serveRound s answers n).final := by
  unfold serveRound
  dsimp only
  generalize (if s.controller.volumes.length ≤ s.controller.cursor then 0
    else s.controller.cursor) = cursor
  cases s.controller.volumes[cursor]? with
  | none => exact .of hs rfl hs (List.append_nil _).symm .quiet
  | some descriptor => exact .of_controller rfl (serveVolume_ends answers hs)

/-- Every step ends in one of these ways. -/
theorem step_ends (s : Observation) (answers : Answers) (maximumEvents : Nat) :
    Ends (max 1 (min maximumEvents maxBrokerPageEvents)) s (step s answers maximumEvents).final := by
  unfold step
  cases hs : s.controller.activeScan with
  | some active => exact readActiveScan_ends answers hs
  | none =>
    dsimp only
    unfold refreshDiscoveryIfDue
    split_ifs
    · cases answers.discoverVolumes with
      | error error => exact .of hs rfl hs (List.append_nil _).symm .quiet
      | ok discovered => exact .of_controller rfl (serveRound_ends answers hs)
    · exact serveRound_ends answers hs

end Cases

/-- The provider ids in an answer are the provider's own. -/
def Entry.ProviderIds : Entry → Prop
  | .readScanPage _ _ (.ok page) => ∀ cp ∈ page.checkpoint, cp.providerId ≠ scanMarkerProvider
  | .readChanges _ _ _ (.ok (_, batch)) => batch.checkpoint.providerId ≠ scanMarkerProvider
  | _ => True

/-- The entry starts a scan or a session. -/
def Entry.Starts : Entry → Prop
  | .startScan _ _ _ => True
  | .commit _ (.beginObservationScan _ _ _) _ => True
  | _ => False

/-- The last page of a scan started for the volume carried the checkpoint. The
page's events were committed before the checkpoint was staged. -/
def FromScan (past : List Entry) (cp : ProviderCheckpoint) : Prop :=
  ∃ mode scanId n page g g' g'', .startScan cp.volumeId mode (.ok scanId) ∈ past ∧
    page.complete = true ∧ page.checkpoint = some cp ∧
    [.readScanPage scanId n (.ok page),
      .commit g (.applyObservationScanPage cp.volumeId page.events) g',
      .commit g' (.stageObservationCheckpoint cp.volumeId cp) g''] <:+: past

/-- A finalization put the checkpoint in force and closed the session. -/
def Finished (past : List Entry) (cp : ProviderCheckpoint) : Prop :=
  ∃ k g g', .commit g (.finalizeObservationScan cp.volumeId k) g' ∈ past ∧
    g'.checkpoint cp.volumeId = some cp ∧ observationSession g' cp.volumeId = none

/-- A read of the volume's journal returned the checkpoint, and its events were
committed with it. -/
def FromRead (past : List Entry) (cp : ProviderCheckpoint) : Prop :=
  ∃ g earlier n events batch reopened g', earlier.volumeId = cp.volumeId ∧ batch.checkpoint = cp ∧
    [.readChanges g earlier n (.ok (events, batch)),
      .commit g (.applyBatch
        ⟨cp.volumeId, cp, reopened ++ events.map GraphMutation.ofEvent⟩) g'] <:+: past

def Granted (past : List Entry) (cp : ProviderCheckpoint) : Prop :=
  (FromScan past cp ∧ Finished past cp) ∨ FromRead past cp

/-- The session of the volume is the one opened when the scan was started, and
nothing has been started since. -/
def Running (past : List Entry) (g : FilesystemGraph) (v : VolumeId) (scanId : Nat) : Prop :=
  ∃ earlier descriptor mode g₀ g₁ since, past = earlier ++
      .startScan v (brokerScanMode mode) (.ok scanId) ::
      .commit g₀ (.beginObservationScan descriptor mode (scanReason mode)) g₁ :: since ∧
    descriptor.volumeId = v ∧ (∀ e ∈ since, ¬ e.Starts) ∧
    ∃ session, observationSession g₁ v = some session ∧ observationSession g v = some session

/-- What the entries before it owe to an entry. -/
def Entry.Justified (past : List Entry) : Entry → Prop
  | .readChanges g cp _ _ => observationSession g cp.volumeId = none ∧ Granted past cp
  | .commit g (.applyObservationScanPage v events) _ => ∃ before scanId n page,
      past = before ++ [.readScanPage scanId n (.ok page)] ∧ page.events = events ∧
        Running before g v scanId
  | _ => True

section Provenance

variable {past past' : List Entry} {cp : ProviderCheckpoint}

theorem FromScan.mono (h : past <+: past') : FromScan past cp → FromScan past' cp := by
  rintro ⟨mode, scanId, n, page, g, g', g'', hstart, hcomplete, hcp, hwithin⟩
  exact ⟨mode, scanId, n, page, g, g', g'', h.subset hstart, hcomplete, hcp, hwithin.trans h.isInfix⟩

theorem Granted.mono (h : past <+: past') : Granted past cp → Granted past' cp := by
  rintro (⟨hscan, k, g, g', hmem, hfinal⟩ | ⟨g, earlier, n, events, batch, reopened, g', hv, hcp, hwithin⟩)
  · exact Or.inl ⟨hscan.mono h, k, g, g', h.subset hmem, hfinal⟩
  · exact Or.inr ⟨g, earlier, n, events, batch, reopened, g', hv, hcp, hwithin.trans h.isInfix⟩

theorem Running.concat {g g' : FilesystemGraph} {v : VolumeId} {scanId : Nat} {new : List Entry}
    (h : Running past g v scanId) (hnew : ∀ e ∈ new, ¬ e.Starts)
    (hg : g'.sessions.get v = g.sessions.get v) : Running (past ++ new) g' v scanId := by
  obtain ⟨earlier, descriptor, mode, g₀, g₁, since, rfl, hv, hsince, session, hopened, hnow⟩ := h
  refine ⟨earlier, descriptor, mode, g₀, g₁, since ++ new, by simp, hv, fun e he => ?_, session, hopened, ?_⟩
  · rcases List.mem_append.mp he with he | he
    · exact hsince e he
    · exact hnew e he
  · rw [observationSession, hg]
    exact hnow

end Provenance

/-- A stored row as the checkpoint of its volume. -/
def CheckpointRow.at (row : CheckpointRow) (v : VolumeId) : ProviderCheckpoint :=
  ⟨row.providerId, row.formatVersion, v, row.opaqueBytes⟩

/-- What holds of every volume at every time. -/
structure Sound (past : List Entry) (g : FilesystemGraph) (v : VolumeId) : Prop where
  closed : (g.sessions.get v).isSome → g.volumeState v = some .needsReconciliation
  marked : ∀ row, g.checkpoints.get v = some row → row.providerId = scanMarkerProvider →
    (g.sessions.get v).isSome
  granted : ∀ row, g.checkpoints.get v = some row → row.providerId ≠ scanMarkerProvider →
    Granted past (CheckpointRow.at row v)
  staged : ∀ session row, g.sessions.get v = some session → SessionRow.staged session = some row →
    row.providerId ≠ scanMarkerProvider ∧ FromScan past (CheckpointRow.at row v)

structure Authority (s : Observation) : Prop where
  volumes : ∀ v, Sound s.history s.graph v
  active : ∀ a, s.controller.activeScan = some a → Running s.history s.graph a.volumeId a.scanId
  entries : EachEntry Entry.Justified s.history

section Invariant

variable {past past' : List Entry} {g g' : FilesystemGraph} {v : VolumeId}

theorem Sound.of_standing (h : Sound past g v) (hpast : past <+: past')
    (hsame : standing g' v = standing g v) : Sound past' g' v := by
  obtain ⟨hs, hrest⟩ := Prod.mk.inj hsame
  obtain ⟨hc, hstate⟩ := Prod.mk.inj hrest
  refine ⟨?_, ?_, ?_, ?_⟩
  · rw [hs, hstate]
    exact h.closed
  · rw [hs, hc]
    exact h.marked
  · intro row hrow hid
    exact (h.granted row (hc ▸ hrow) hid).mono hpast
  · intro session row hsession hrow
    obtain ⟨hid, hscan⟩ := h.staged session row (hs ▸ hsession) hrow
    exact ⟨hid, hscan.mono hpast⟩

theorem checkpoint_eq_some {cp : ProviderCheckpoint} : g.checkpoint v = some cp ↔
    ∃ row, g.checkpoints.get v = some row ∧ CheckpointRow.at row v = cp :=
  Option.map_eq_some_iff

/-- Checkpoints read outside a session have been granted. -/
theorem Sound.read (h : Sound past g v) {cp : ProviderCheckpoint}
    (hsession : observationSession g v = none) (hcp : g.checkpoint v = some cp) :
    cp.volumeId = v ∧ cp.providerId ≠ scanMarkerProvider ∧ Granted past cp := by
  obtain ⟨row, hrow, rfl⟩ := checkpoint_eq_some.mp hcp
  have hid : row.providerId ≠ scanMarkerProvider := by
    intro hmarker
    obtain ⟨session, hget⟩ := Option.isSome_iff_exists.mp (h.marked row hrow hmarker)
    rw [observationSession, hget] at hsession
    cases hsession
  exact ⟨rfl, hid, h.granted row hrow hid⟩

variable [CaseMapping]

theorem Sound.begin {descriptor : VolumeDescriptor} {mode : ObservationScanMode}
    {reason : ReconciliationReason} (h : ∀ v, Sound past g v) (hpast : past <+: past')
    (hrun : (GraphOp.beginObservationScan descriptor mode reason).run g = .ok g') (v : VolumeId) :
    Sound past' g' v := by
  obtain ⟨hother, ⟨gen, hsession⟩, hc, hstate⟩ := begin_standing hrun
  by_cases hv : v = descriptor.volumeId
  · rw [hv]
    refine ⟨fun _ => hstate, fun _ _ _ => by rw [hsession]; rfl, fun row hrow hid => ?_,
      fun session row hget hrow => ?_⟩
    · rw [hc] at hrow
      exact ((h _).granted row hrow hid).mono hpast
    · rw [hsession] at hget
      obtain rfl := Option.some.inj hget
      cases hrow
  · exact (h v).of_standing hpast (hother v hv)

theorem Sound.page {events : List FilesystemEvent} {w : VolumeId} (h : ∀ v, Sound past g v)
    (hpast : past <+: past')
    (hrun : (GraphOp.applyObservationScanPage w events).run g = .ok g') (v : VolumeId) :
    Sound past' g' v := by
  obtain ⟨hother, ⟨session, hsession, hphase⟩, hs, hc, hstate⟩ := page_standing hrun
  by_cases hv : v = w
  · subst hv
    have hopen : (g.sessions.get v).isSome := by rw [hsession]; rfl
    refine ⟨fun _ => hstate ((h v).closed hopen), fun _ _ _ => hs ▸ hopen, fun row hrow hid => ?_,
      fun session' row hget hrow => ?_⟩
    · rcases hc with hc | ⟨marker, hmarker, hmid⟩
      · exact ((h v).granted row (hc ▸ hrow) hid).mono hpast
      · rw [hmarker] at hrow
        obtain rfl := Option.some.inj hrow
        exact absurd hmid hid
    · rw [hs, hsession] at hget
      obtain rfl := Option.some.inj hget
      rw [SessionRow.staged, hphase] at hrow
      cases hrow
  · exact (h v).of_standing hpast (hother v hv)

omit [CaseMapping] in
theorem Sound.stage {checkpoint : ProviderCheckpoint} {w : VolumeId} (h : ∀ v, Sound past g v)
    (hpast : past <+: past') (hid : checkpoint.providerId ≠ scanMarkerProvider)
    (hscan : FromScan past' checkpoint)
    (hrun : stageObservationCheckpoint g w checkpoint = .ok g') (v : VolumeId) : Sound past' g' v := by
  obtain ⟨rfl, hother, ⟨session, hold, hnew⟩, hc, hvol⟩ := stage_standing hrun
  by_cases hv : v = checkpoint.volumeId
  · rw [hv]
    have hopen : (g.sessions.get checkpoint.volumeId).isSome := by rw [hold]; rfl
    refine ⟨fun _ => ?_, fun _ _ _ => by rw [hnew]; rfl, fun row hrow hid => ?_,
      fun session' row hget hrow => ?_⟩
    · rw [FilesystemGraph.volumeState, hvol]
      exact (h _).closed hopen
    · rw [hc] at hrow
      exact ((h _).granted row hrow hid).mono hpast
    · rw [hnew] at hget
      obtain rfl := Option.some.inj hget
      obtain rfl := Option.some.inj hrow
      exact ⟨hid, hscan⟩
  · exact (h v).of_standing hpast (hother v hv)

theorem Sound.finalize {k : Nat} {w : VolumeId} (h : ∀ v, Sound past g v)
    (hrun : (GraphOp.finalizeObservationScan w k).run g = .ok g') (v : VolumeId) :
    Sound (past ++ [.commit g (.finalizeObservationScan w k) g']) g' v := by
  have hpast : past <+: past ++ [.commit g (.finalizeObservationScan w k) g'] := List.prefix_append _ _
  obtain ⟨hother, hends⟩ := finalize_standing hrun
  by_cases hv : v = w
  · subst hv
    rcases hends with ⟨hclosed, session, staged, hold, hstaged, hc⟩ | ⟨hstaged, hc, hstate⟩
    · obtain ⟨hid, hscan⟩ := (h v).staged session staged hold hstaged
      refine ⟨fun hopen => ?_, fun row hrow hmarker => ?_, fun row hrow _ => Or.inl ⟨?_, ?_⟩,
        fun session' row hget => ?_⟩
      · rw [hclosed] at hopen
        cases hopen
      · rw [hc] at hrow
        obtain rfl := Option.some.inj hrow
        exact absurd hmarker hid
      · rw [hc] at hrow
        obtain rfl := Option.some.inj hrow
        exact hscan.mono hpast
      · refine ⟨k, g, g', List.mem_append_right _ List.mem_cons_self, ?_, ?_⟩
        · exact checkpoint_eq_some.mpr ⟨row, hrow, rfl⟩
        · change observationSession g' v = none
          rw [observationSession, hclosed]
          rfl
      · rw [hclosed] at hget
        cases hget
    · have hopen : (g'.sessions.get v).isSome = (g.sessions.get v).isSome := by
        have hmap := congrArg Option.isSome hstaged
        rwa [Option.isSome_map, Option.isSome_map] at hmap
      refine ⟨?_, ?_, fun row hrow hid => ?_, fun session' row hget hrow => ?_⟩
      · rw [hopen, hstate]
        exact (h v).closed
      · rw [hopen, hc]
        exact (h v).marked
      · exact ((h v).granted row (hc ▸ hrow) hid).mono hpast
      · rw [hget, Option.map_some, hrow] at hstaged
        obtain ⟨session, hold, hstaged⟩ := Option.map_eq_some_iff.mp hstaged.symm
        obtain ⟨hid, hscan⟩ := (h v).staged session row hold hstaged
        exact ⟨hid, hscan.mono hpast⟩
  · exact (h v).of_standing hpast (hother v hv)

/-- A batch outside any session puts a granted checkpoint in force. -/
theorem Sound.batch {batch : GraphMutationBatch} (h : ∀ v, Sound past g v) (hpast : past <+: past')
    (hsession : observationSession g batch.volumeId = none)
    (hid : batch.checkpoint.providerId ≠ scanMarkerProvider)
    (hgranted : Granted past' batch.checkpoint)
    (hrun : (GraphOp.applyBatch batch).run g = .ok g') (v : VolumeId) : Sound past' g' v := by
  obtain ⟨hcp, hother, hs, hc, -⟩ := applyBatch_standing hrun
  by_cases hv : v = batch.volumeId
  · rw [hv]
    have hclosed : g'.sessions.get batch.volumeId = none := by
      rw [hs]
      exact Option.map_eq_none_iff.mp hsession
    refine ⟨fun hopen => ?_, fun row hrow hmarker => ?_, fun row hrow _ => ?_, fun session row hget => ?_⟩
    · rw [hclosed] at hopen
      cases hopen
    · rw [hc] at hrow
      obtain rfl := Option.some.inj hrow
      exact absurd hmarker hid
    · rw [hc] at hrow
      obtain rfl := Option.some.inj hrow
      rw [← hcp]
      exact hgranted
    · rw [hclosed] at hget
      cases hget
  · exact (h v).of_standing hpast (hother v hv)

section Cases

variable {s : Observation} {n : Nat} {before after : Option ActiveScan} {new : List Entry}

/-- What a volume's session and checkpoint owe to the entries, case by case: a write
grants what it puts in force, and nothing else moves them. -/
theorem StepCase.sound (h : Authority s) (ha : s.controller.activeScan = before)
    (hids : ∀ e ∈ s.history ++ new, e.ProviderIds) (hcase : StepCase s.graph n before g' after new) :
    ∀ v, Sound (s.history ++ new) g' v := by
  have hpast : s.history <+: s.history ++ new := List.prefix_append _ _
  cases hcase with
  | quiet | pageLost | pageRefused | scanRefused | scanAbandoned | changesRead =>
    exact fun v => (h.volumes v).of_standing hpast rfl
  | pageApplied active page happly => exact Sound.page h.volumes hpast happly
  | @pageStaged g₁ _ active page checkpoint hcomplete hpage happly hstage =>
    have hrunning := h.active active ha
    have hv : checkpoint.volumeId = active.volumeId := (stage_standing hstage).1
    have hid : checkpoint.providerId ≠ scanMarkerProvider :=
      hids (.readScanPage active.scanId n (.ok page))
        (List.mem_append_right _ List.mem_cons_self) checkpoint hpage
    refine Sound.stage (Sound.page h.volumes hpast happly) (List.prefix_refl _) hid ?_ hstage
    obtain ⟨earlier, descriptor, mode, _, _, since, heq, -⟩ := hrunning
    refine ⟨brokerScanMode mode, active.scanId, n, page, s.graph, g₁, g', ?_, hcomplete, hpage, ?_⟩
    · rw [heq, hv]
      simp
    · rw [hv]
      exact (List.suffix_append _ _).isInfix
  | prepared descriptor mode hbegin => exact Sound.begin h.volumes hpast hbegin
  | scanStarted descriptor mode scanId hbegin => exact Sound.begin h.volumes hpast hbegin
  | finalized v hfinalize => exact Sound.finalize h.volumes hfinalize
  | changesCommitted v checkpoint events batch reopened hsession hcheckpoint happly =>
    obtain ⟨rfl, -, -⟩ := (h.volumes v).read hsession hcheckpoint
    have hid : batch.checkpoint.providerId ≠ scanMarkerProvider :=
      hids (.readChanges s.graph checkpoint n (.ok (events, batch)))
        (List.mem_append_right _ List.mem_cons_self)
    have hv : batch.checkpoint.volumeId = checkpoint.volumeId := (applyBatch_standing happly).1
    refine Sound.batch h.volumes hpast hsession hid (Or.inr ?_) happly
    refine ⟨s.graph, checkpoint, n, events, batch, reopened, g', hv.symm, rfl, ?_⟩
    rw [hv]
    exact (List.suffix_append _ _).isInfix
  | checkpointKept v checkpoint error mutations hsession hcheckpoint happly =>
    obtain ⟨rfl, hid, hgranted⟩ := (h.volumes v).read hsession hcheckpoint
    exact Sound.batch h.volumes hpast hsession hid (hgranted.mono hpast) happly

/-- A scan that is on after a step was on before and has read a page, or has just
been started. -/
theorem StepCase.running (h : Authority s) (ha : s.controller.activeScan = before)
    (hcase : StepCase s.graph n before g' after new) (a : ActiveScan) (hactive : after = some a) :
    Running (s.history ++ new) g' a.volumeId a.scanId := by
  cases hcase with
  | pageApplied active page happly =>
    obtain ⟨-, -, hs, -, -⟩ := page_standing happly
    split_ifs at hactive
    obtain rfl := Option.some.inj hactive
    exact (h.active _ ha).concat (by simp [Entry.Starts]) hs
  | scanStarted descriptor mode scanId hbegin =>
    obtain rfl := Option.some.inj hactive
    obtain ⟨-, ⟨gen, hsession⟩, -, -⟩ := begin_standing hbegin
    have hopen : observationSession g' descriptor.volumeId =
        some ⟨descriptor.volumeId, gen, mode, .scanning⟩ := by
      rw [observationSession, hsession]
      rfl
    exact ⟨s.history, descriptor, mode, s.graph, g', [], rfl, rfl, by simp, _, hopen, hopen⟩
  | quiet | pageLost | pageRefused | pageStaged | prepared | scanRefused | scanAbandoned | finalized |
      changesRead | changesCommitted | checkpointKept => cases hactive

/-- Only a page that is committed and a read of changes owe anything: the page to the
scan that is on, the read to the checkpoint in force. -/
theorem StepCase.justified (h : Authority s) (ha : s.controller.activeScan = before)
    (hcase : StepCase s.graph n before g' after new) :
    EachEntry Entry.Justified (s.history ++ new) := by
  cases hcase with
  | quiet =>
    rw [List.append_nil]
    exact h.entries
  | pageRefused | prepared | scanRefused | finalized => exact h.entries.concat trivial
  | pageLost | scanAbandoned | scanStarted => exact h.entries.concat₂ trivial trivial
  | pageApplied active page happly =>
    exact h.entries.concat₂ trivial ⟨s.history, _, _, page, rfl, rfl, h.active active ha⟩
  | @pageStaged g₁ _ active page checkpoint hcomplete hpage happly hstage =>
    have hpages : EachEntry Entry.Justified (s.history ++ [.readScanPage active.scanId n (.ok page),
        .commit s.graph (.applyObservationScanPage active.volumeId page.events) g₁]) :=
      h.entries.concat₂ trivial ⟨s.history, _, _, page, rfl, rfl, h.active active ha⟩
    have hentries := hpages.concat (show Entry.Justified _
      (.commit g₁ (.stageObservationCheckpoint active.volumeId checkpoint) g') from trivial)
    rwa [List.append_assoc] at hentries
  | changesRead v checkpoint answer hsession hcheckpoint =>
    obtain ⟨rfl, -, hgranted⟩ := (h.volumes v).read hsession hcheckpoint
    exact h.entries.concat ⟨hsession, hgranted⟩
  | changesCommitted v checkpoint events batch reopened hsession hcheckpoint happly =>
    obtain ⟨rfl, -, hgranted⟩ := (h.volumes v).read hsession hcheckpoint
    exact h.entries.concat₂ ⟨hsession, hgranted⟩ trivial
  | checkpointKept v checkpoint error mutations hsession hcheckpoint happly =>
    obtain ⟨rfl, -, hgranted⟩ := (h.volumes v).read hsession hcheckpoint
    exact h.entries.concat₂ ⟨hsession, hgranted⟩ trivial

end Cases

/-- Every step keeps the invariant when provider ids are the provider's own. -/
theorem Authority.ends {s s' : Observation} {n : Nat} (h : Authority s)
    (hids : ∀ e ∈ s'.history, e.ProviderIds) (hends : Ends n s s') : Authority s' := by
  obtain ⟨new, hhistory, hcase⟩ := hends
  rw [hhistory] at hids
  have hsound := hcase.sound h rfl hids
  have hrunning := hcase.running h rfl
  have hjustified := hcase.justified h rfl
  rw [← hhistory] at hsound hrunning hjustified
  exact ⟨hsound, hrunning, hjustified⟩

omit [CaseMapping] in
theorem authority_start (discovered : List VolumeDescriptor) (selection : ObservationSelection) :
    Authority ⟨.empty, .new discovered selection, []⟩ := by
  refine ⟨fun v => ⟨fun h => (nomatch h), fun _ h => (nomatch h), fun _ h => (nomatch h),
    fun _ _ h => (nomatch h)⟩, fun a h => (nomatch h), eachEntry_nil⟩

omit [CaseMapping] in
theorem Authority.restart {s : Observation} (h : Authority s) (orderly : Bool)
    (discovered : List VolumeDescriptor) (selection : ObservationSelection) :
    Authority (s.restart orderly discovered selection) := by
  have hactive : ∀ {P : ActiveScan → Prop} a,
      (s.restart orderly discovered selection).controller.activeScan = some a → P a :=
    fun _ ha => (nomatch ha)
  cases orderly with
  | false => exact ⟨h.volumes, hactive, h.entries⟩
  | true =>
    cases ha : s.controller.activeScan with
    | none =>
      have hhistory : (s.restart true discovered selection).history = s.history := by
        simp [Observation.restart, ha]
      refine ⟨fun v => ?_, hactive, ?_⟩
      · rw [hhistory]
        exact h.volumes v
      · rw [hhistory]
        exact h.entries
    | some active =>
      have hhistory : (s.restart true discovered selection).history =
          s.history ++ [.cancelScan active.scanId] := by
        simp [Observation.restart, ha]
      refine ⟨fun v => ?_, hactive, ?_⟩
      · rw [hhistory]
        exact (h.volumes v).of_standing (List.prefix_append _ _) rfl
      · rw [hhistory]
        exact h.entries.concat trivial

/-- States of a controller over an empty graph, through steps with any answers
and failures and through restarts. A run that is cut inside a step is one whose
next use of the store fails, followed by a restart. -/
inductive ObservationRun : Observation → Prop
  | start (discovered : List VolumeDescriptor) (selection : ObservationSelection) :
      ObservationRun ⟨.empty, .new discovered selection, []⟩
  | step {s : Observation} (h : ObservationRun s) (answers : Answers) (maximumEvents : Nat) :
      ObservationRun (step s answers maximumEvents).final
  | restart {s : Observation} (h : ObservationRun s) (orderly : Bool)
      (discovered : List VolumeDescriptor) (selection : ObservationSelection) :
      ObservationRun (s.restart orderly discovered selection)

theorem ObservationRun.authority {s : Observation} (h : ObservationRun s)
    (hids : ∀ e ∈ s.history, e.ProviderIds) : Authority s := by
  induction h with
  | start discovered selection => exact authority_start discovered selection
  | @step s _ answers maximumEvents ih =>
    have hends := step_ends s answers maximumEvents
    refine Authority.ends (ih fun e he => hids e ?_) hids hends
    obtain ⟨new, hhistory, -⟩ := hends
    rw [hhistory]
    exact List.mem_append_left _ he
  | @restart s _ orderly discovered selection ih =>
    refine (ih fun e he => hids e ?_).restart orderly discovered selection
    unfold Observation.restart
    dsimp only
    split
    · exact List.mem_append_left _ he
    · exact he

/-- In every state of a run: an open session keeps its volume closed, the scan
marker is stored only inside a session, the journal is read only outside a
session and from a checkpoint that a finished scan or a committed read of the
volume returned, and a page is applied only to the session that was opened when
its scan was started. -/
theorem checkpoint_authority {s : Observation} (h : ObservationRun s)
    (hids : ∀ e ∈ s.history, e.ProviderIds) :
    (∀ v, (observationSession s.graph v).isSome →
        s.graph.volumeState v = some .needsReconciliation) ∧
      (∀ v cp, s.graph.checkpoint v = some cp → cp.providerId = scanMarkerProvider →
        (observationSession s.graph v).isSome) ∧
      (∀ past rest g cp n answer, s.history = past ++ .readChanges g cp n answer :: rest →
        observationSession g cp.volumeId = none ∧ Granted past cp) ∧
      (∀ past rest g v events g',
        s.history = past ++ .commit g (.applyObservationScanPage v events) g' :: rest →
        ∃ before scanId n page, past = before ++ [.readScanPage scanId n (.ok page)] ∧
          page.events = events ∧ Running before g v scanId) := by
  have hauthority := h.authority hids
  have hsome : ∀ v, (observationSession s.graph v).isSome = (s.graph.sessions.get v).isSome :=
    fun v => Option.isSome_map
  refine ⟨fun v hopen => ?_, fun v cp hcp hmarker => ?_, fun past rest g cp n answer heq => ?_,
    fun past rest g v events g' heq => ?_⟩
  · exact (hauthority.volumes v).closed (hsome v ▸ hopen)
  · obtain ⟨row, hrow, rfl⟩ := checkpoint_eq_some.mp hcp
    rw [hsome]
    exact (hauthority.volumes v).marked row hrow hmarker
  · exact hauthority.entries past _ rest heq
  · exact hauthority.entries past _ rest heq

end Invariant

section Example

attribute [local instance] asciiCaseMapping

instance Entry.decidableProviderIds : ∀ e : Entry, Decidable e.ProviderIds
  | .readScanPage _ _ (.ok page) =>
      inferInstanceAs (Decidable (∀ cp ∈ page.checkpoint, cp.providerId ≠ scanMarkerProvider))
  | .readChanges _ _ _ (.ok (_, batch)) =>
      inferInstanceAs (Decidable (batch.checkpoint.providerId ≠ scanMarkerProvider))
  | .readScanPage _ _ (.error _) | .readChanges _ _ _ (.error _) | .startScan _ _ _ | .cancelScan _
  | .commit _ _ _ => isTrue trivial

/-- A source with one volume, whose scan is a single page. -/
def sampleAnswers : Answers where
  discoveryDue := false
  discoverVolumes := .ok []
  startScan := .ok 7
  readScanPage := .ok ⟨[.objectObserved (sampleObject 1 .directory),
    .linkObserved (sampleLink 9 1 none "C:")], some sampleCheckpoint, true, false⟩
  readChanges := .ok ([], ⟨sampleCheckpoint, 0, false⟩)
  fault := fun _ => none

def sampleObservation : Nat → Observation
  | 0 => ⟨.empty, .new [{ sampleDescriptor with filesystem := some "ntfs" }] .allLocalNtfs, []⟩
  | n + 1 => (step (sampleObservation n) sampleAnswers 4).final

theorem sampleObservation_run (n : Nat) : ObservationRun (sampleObservation n) := by
  induction n with
  | zero => exact .start _ _
  | succ n ih => exact .step ih _ _

theorem sampleObservation_ids : ∀ e ∈ (sampleObservation 6).history, e.ProviderIds := by
  decide +kernel

/-- Six steps bring the volume to its first read of the journal. -/
theorem sampleObservation_reads :
    ((sampleObservation 6).history.any fun e => e matches .readChanges ..) = true := by
  decide +kernel

theorem sampleObservation_authority :
    ((sampleObservation 6).history.any fun e => e matches .readChanges ..) = true ∧
      ∀ past rest g cp n answer,
        (sampleObservation 6).history = past ++ .readChanges g cp n answer :: rest →
        observationSession g cp.volumeId = none ∧ Granted past cp :=
  ⟨sampleObservation_reads,
    (checkpoint_authority (sampleObservation_run 6) sampleObservation_ids).2.2.1⟩

end Example

end LocalSearch.Agent
