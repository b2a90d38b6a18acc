import LocalSearch.Graph.Availability
import LocalSearch.Graph.ScanFinalize
import LocalSearch.Graph.Writes

/-!
# Transitions of a volume

The documents of a volume follow its state through the refresh job that a
transition queues. Setting a state, asking for reconciliation, opening and
completing a scan all queue it. An `UpsertVolume` sets its volume online and
queues nothing.
-/
namespace LocalSearch.Graph

set_option autoImplicit false

open Core Lib

/-- A pending refresh of the volume that has its whole pass before it. -/
def Scheduled (g : FilesystemGraph) (v : VolumeId) : Prop :=
  ∃ job, g.volumeJobs.get v = some job ∧ job.state = .pending ∧ job.projectionScanCursor = none

/-- Every known volume whose state the write has changed is due for a refresh. -/
def SchedulesTransitions (g g' : FilesystemGraph) : Prop :=
  ∀ v row row', g.volumes.get v = some row → g'.volumes.get v = some row' →
    row.state ≠ row'.state → Scheduled g' v

/-- The mutation sets a state of the volume and queues its refresh. -/
def GraphMutation.Schedules (v : VolumeId) : GraphMutation → Prop
  | .setVolumeState volumeId _ | .requireReconciliation volumeId _ => volumeId = v
  | _ => False

/-- The mutation sets the volume online. -/
def GraphMutation.Reopens (v : VolumeId) : GraphMutation → Prop
  | .upsertVolume descriptor => descriptor.volumeId = v
  | _ => False

/-- A volume that is reopened was online, or is due for a refresh on another account. -/
def GraphOp.ReopensScheduled (g : FilesystemGraph) : GraphOp → Prop
  | .applyBatch batch | .applyRebuildableBatch batch =>
      ∀ v row, g.volumes.get v = some row → row.state ≠ .online →
        (∃ m ∈ batch.mutations, m.Reopens v) →
          Scheduled g v ∨ ∃ m ∈ batch.mutations, m.Schedules v
  | _ => True

/-- Batches, and the operations of an observation scan. -/
def GraphOp.Ingests : GraphOp → Prop
  | .applyBatch _ | .applyRebuildableBatch _ | .beginObservationScan _ _ _
  | .applyObservationScanPage _ _ | .stageObservationCheckpoint _ _
  | .finalizeObservationScan _ _ => True
  | _ => False

section Frames

variable {g g' g₁ : FilesystemGraph} {v w : VolumeId} {gen n : Nat}

theorem scheduled_of_jobs (hjobs : g'.volumeJobs = g.volumeJobs) : Scheduled g' v ↔ Scheduled g v := by
  unfold Scheduled
  rw [hjobs]

theorem scheduled_enqueued : Scheduled (enqueueVolumeProjectionRefresh g v gen).1 v :=
  ⟨_, Table.get_insert_self _ _ _, rfl, rfl⟩

theorem scheduled_enqueued_ne (hw : w ≠ v) :
    Scheduled (enqueueVolumeProjectionRefresh g v gen).1 w ↔ Scheduled g w := by
  unfold Scheduled enqueueVolumeProjectionRefresh
  rw [Table.get_insert_ne _ _ hw]

/-- A write that leaves the states alone schedules what it has to. -/
theorem schedulesTransitions_of_states
    (h : volumeColumn (·.state) g' = volumeColumn (·.state) g) : SchedulesTransitions g g' := by
  intro w row row' hrow hrow' hne
  have hcolumn := congrFun h w
  rw [volumeColumn, volumeColumn, hrow, hrow'] at hcolumn
  exact absurd (Option.some.inj hcolumn).symm hne

/-- So does one that changes the state of one volume and queues its refresh. -/
theorem schedulesTransitions_of_volume (hothers : ∀ w, w ≠ v → g'.volumes.get w = g.volumes.get w)
    (hqueued : Scheduled g' v) : SchedulesTransitions g g' := by
  intro w row row' hrow hrow' hne
  by_cases hw : w = v
  · exact hw ▸ hqueued
  · rw [hothers w hw, hrow] at hrow'
    exact absurd (congrArg VolumeRow.state (Option.some.inj hrow')) hne

theorem state_setGeneration (g : FilesystemGraph) (v : VolumeId) (gen : Nat) :
    volumeColumn (·.state) (setGeneration g v gen) = volumeColumn (·.state) g := by
  funext w
  unfold volumeColumn setGeneration
  rw [Table.get_modify]
  split_ifs
  · rw [Option.map_map]
    rfl
  · rfl

end Frames

section Batch

variable {g g' g₁ : FilesystemGraph} {v : VolumeId} {gen n : Nat} {m : GraphMutation}
  {ms : List GraphMutation}

/-- What a step may do to the job and the state of a volume. -/
def Moves (g : FilesystemGraph) (v : VolumeId) (schedules reopens : Prop) (g' : FilesystemGraph) : Prop :=
  (schedules ∧ Scheduled g' v) ∨
    (¬ schedules ∧ (Scheduled g' v ↔ Scheduled g v) ∧
      ((reopens ∧ volumeColumn (·.state) g' v = some .online) ∨
        (¬ reopens ∧ volumeColumn (·.state) g' v = volumeColumn (·.state) g v)))

theorem moves_quiet (hvolumes : g'.volumes = g.volumes) (hjobs : g'.volumeJobs = g.volumeJobs) :
    Moves g v False False g' :=
  .inr ⟨not_false, scheduled_of_jobs hjobs, .inr ⟨not_false, congrFun (volumeColumn_of_volumes hvolumes) v⟩⟩

theorem moves_transition {w : VolumeId} {row : VolumeRow} :
    Moves g v (w = v) False
      (enqueueVolumeProjectionRefresh { g with volumes := g.volumes.insert w row } w gen).1 := by
  by_cases hw : w = v
  · subst hw
    exact .inl ⟨rfl, scheduled_enqueued⟩
  · refine .inr ⟨hw, ?_, .inr ⟨not_false, ?_⟩⟩
    · rw [scheduled_enqueued_ne fun hv => hw hv.symm]
      exact scheduled_of_jobs rfl
    · exact congrArg (Option.map VolumeRow.state) (Table.get_insert_ne _ _ fun hv => hw hv.symm)

theorem applyMutation_moves (h : applyMutation g m gen = .ok (g', n)) (v : VolumeId) :
    Moves g v (m.Schedules v) (m.Reopens v) g' := by
  cases m with
  | upsertVolume descriptor =>
    obtain ⟨rfl, -⟩ := Prod.mk.inj (Except.ok.inj h)
    refine .inr ⟨not_false, scheduled_of_jobs rfl, ?_⟩
    by_cases hv : descriptor.volumeId = v
    · subst hv
      exact .inl ⟨rfl, congrArg (Option.map VolumeRow.state) (Table.get_insert_self _ _ _)⟩
    · exact .inr ⟨hv, congrArg (Option.map VolumeRow.state) (Table.get_insert_ne _ _ fun he => hv he.symm)⟩
  | setVolumeState w state =>
    simp only [applyMutation, setVolumeState] at h
    cases hrow : g.volumes.get w with
    | none => rw [hrow] at h; cases h
    | some row =>
      rw [hrow] at h
      obtain ⟨rfl, -⟩ := Prod.mk.inj (Except.ok.inj h)
      exact moves_transition
  | requireReconciliation w reason =>
    simp only [applyMutation, requireReconciliation] at h
    cases hrow : g.volumes.get w with
    | none => rw [hrow] at h; cases h
    | some row =>
      rw [hrow] at h
      obtain ⟨rfl, -⟩ := Prod.mk.inj (Except.ok.inj h)
      exact moves_transition
  | upsertObject object =>
    obtain ⟨g₁, h₁, heq⟩ := bind_ok.mp h
    obtain ⟨rfl, -⟩ := Prod.mk.inj (Except.ok.inj heq)
    obtain ⟨-, -, rfl⟩ := upsertObject_ok h₁
    exact moves_quiet rfl rfl
  | tombstoneObject object =>
    obtain ⟨g₁, h₁, heq⟩ := bind_ok.mp h
    obtain ⟨rfl, -⟩ := Prod.mk.inj (Except.ok.inj heq)
    obtain ⟨-, -, rfl⟩ := tombstoneObject_ok h₁
    exact moves_quiet rfl rfl
  | upsertLink link boundary =>
    have hframe := upsertLink_frame h
    exact moves_quiet (by rw [hframe]) (by rw [hframe])
  | removeLink id object =>
    have hframe := removeLinkInternal_frame h
    exact moves_quiet (by rw [hframe]) (by rw [hframe])

/-- What a list of mutations does, told by the kinds among them. -/
theorem mutates_moves (h : Mutates gen g ms g') (v : VolumeId) :
    Moves g v (∃ m ∈ ms, m.Schedules v) (∃ m ∈ ms, m.Reopens v) g' := by
  induction ms generalizing g with
  | nil =>
    obtain rfl := mutates_nil.mp h
    exact .inr ⟨nofun, Iff.rfl, .inr ⟨nofun, rfl⟩⟩
  | cons m ms ih =>
    obtain ⟨g₁, n, h₁, hrest⟩ := mutates_cons.mp h
    simp only [List.exists_mem_cons_iff]
    have hfirst := applyMutation_moves h₁ v
    rcases ih hrest with ⟨hlater, hdue⟩ | ⟨hlater, hkept, hstate⟩
    · exact .inl ⟨.inr hlater, hdue⟩
    · rcases hfirst with ⟨hnow, hdue⟩ | ⟨hnow, hkept₁, hstate₁⟩
      · exact .inl ⟨.inl hnow, hkept.mpr hdue⟩
      · refine .inr ⟨not_or.mpr ⟨hnow, hlater⟩, hkept.trans hkept₁, ?_⟩
        rcases hstate with ⟨hopens, honline⟩ | ⟨hopens, hsame⟩
        · exact .inl ⟨.inr hopens, honline⟩
        · rcases hstate₁ with ⟨hopens₁, honline⟩ | ⟨hopens₁, hsame₁⟩
          · exact .inl ⟨.inl hopens₁, hsame.trans honline⟩
          · exact .inr ⟨not_or.mpr ⟨hopens₁, hopens⟩, hsame.trans hsame₁⟩

/-- A batch schedules its transitions exactly when a volume it reopens was
online or is due for a refresh on another account. -/
theorem mutates_schedules (h : Mutates gen g ms g') :
    SchedulesTransitions g g' ↔ ∀ v row, g.volumes.get v = some row → row.state ≠ .online →
      (∃ m ∈ ms, m.Reopens v) → Scheduled g v ∨ ∃ m ∈ ms, m.Schedules v := by
  constructor
  · intro hschedules v row hrow hne hopens
    rcases mutates_moves h v with ⟨hdue, -⟩ | ⟨-, hkept, ⟨-, honline⟩ | ⟨hclosed, -⟩⟩
    · exact .inr hdue
    · obtain ⟨row', hrow', hstate⟩ := Option.map_eq_some_iff.mp honline
      refine .inl (hkept.mp (hschedules v row row' hrow hrow' ?_))
      rw [hstate]
      exact hne
    · exact absurd hopens hclosed
  · intro hreopens v row row' hrow hrow' hne
    rcases mutates_moves h v with ⟨-, hdue⟩ | ⟨hnone, hkept, ⟨hopens, honline⟩ | ⟨-, hsame⟩⟩
    · exact hdue
    · rw [volumeColumn, hrow'] at honline
      have hclosed : row.state ≠ .online := Option.some.inj honline ▸ hne
      exact hkept.mpr ((hreopens v row hrow hclosed hopens).resolve_right hnone)
    · rw [volumeColumn, volumeColumn, hrow, hrow'] at hsame
      exact absurd (Option.some.inj hsame).symm hne

/-- The rest of a transaction keeps states and jobs. -/
theorem SchedulesTransitions.rest (h : SchedulesTransitions g g₁)
    (hstates : volumeColumn (·.state) g' = volumeColumn (·.state) g₁)
    (hjobs : g'.volumeJobs = g₁.volumeJobs) : SchedulesTransitions g g' := by
  intro v row row' hrow hrow' hne
  have hcolumn : volumeColumn (·.state) g₁ v = some row'.state := by
    rw [← hstates, volumeColumn, hrow']
    rfl
  obtain ⟨row₁, hrow₁, hstate⟩ := Option.map_eq_some_iff.mp hcolumn
  rw [scheduled_of_jobs hjobs]
  refine h v row row₁ hrow hrow₁ ?_
  rw [hstate]
  exact hne

variable [CaseMapping]

theorem applyBatchWithOutboxMode_schedules {mode : ProjectionOutboxMode} {batch : GraphMutationBatch}
    {summary : ApplySummary} (h : applyBatchWithOutboxMode g batch mode = .ok (g', summary)) :
    SchedulesTransitions g g' ↔ (GraphOp.applyBatch batch).ReopensScheduled g := by
  obtain ⟨-, -, -, -, g₁, g₂, affected, jobs, appended, hrun, hsync, -, rfl⟩ :=
    applyBatchWithOutboxMode_ok h
  have hframe := syncLinks_frame hsync
  have hstates : volumeColumn (·.state) (putCheckpoint (setGeneration g₂ batch.volumeId
      (currentGeneration g batch.volumeId + 1)) batch.volumeId
      (ProviderCheckpoint.row batch.checkpoint)) = volumeColumn (·.state) g₁ := by
    refine (state_setGeneration g₂ _ _).trans (volumeColumn_of_volumes ?_)
    rw [hframe]
  have hjobs : g₂.volumeJobs = g₁.volumeJobs := by rw [hframe]
  have hrun : Mutates (currentGeneration g batch.volumeId + 1) g batch.mutations g₁ := ⟨_, _, _, hrun⟩
  refine Iff.trans ⟨fun h => ?_, fun h => ?_⟩ (mutates_schedules hrun)
  · exact h.rest hstates.symm hjobs.symm
  · exact h.rest hstates hjobs

end Batch

section Scan

variable [CaseMapping] {g g' : FilesystemGraph} {v : VolumeId}

omit [CaseMapping] in
/-- Events open no volume. -/
theorem fromEvents_closed (checkpoint : ProviderCheckpoint) (events : List FilesystemEvent)
    (w : VolumeId) : ¬ ∃ m ∈ (GraphMutationBatch.fromEvents v checkpoint events).mutations,
      m.Reopens w := by
  rintro ⟨m, hm, hopens⟩
  obtain ⟨event, -, rfl⟩ := List.mem_map.mp hm
  cases event <;> exact hopens

theorem applyObservationScanPage_schedules {events : List FilesystemEvent} {summary : ApplySummary}
    (h : applyObservationScanPage g v events = .ok (g', summary)) : SchedulesTransitions g g' := by
  obtain ⟨-, -, -, ⟨-, rfl⟩ | ⟨checkpoint, hbatch⟩⟩ := applyObservationScanPage_ok h
  · exact schedulesTransitions_of_states rfl
  · exact (applyBatchWithOutboxMode_schedules hbatch).mpr fun w _ _ _ hopens =>
      absurd hopens (fromEvents_closed checkpoint events w)

omit [CaseMapping] in
theorem beginObservationScan_schedules {descriptor : VolumeDescriptor} {mode : ObservationScanMode}
    {reason : ReconciliationReason} {session : ObservationSession}
    (h : beginObservationScan g descriptor mode reason = .ok (g', session)) :
    SchedulesTransitions g g' := by
  obtain ⟨gen, -, heq⟩ := bind_ok.mp h
  obtain ⟨rfl, -⟩ := Prod.mk.inj (Except.ok.inj heq)
  refine schedulesTransitions_of_volume (v := descriptor.volumeId) (fun w hw => ?_) ?_
  · exact ((Table.get_modify _ _ _ _).trans (if_neg hw)).trans (Table.get_insert_ne _ _ hw)
  · exact ⟨_, Table.get_insert_self _ _ _, rfl, rfl⟩

theorem finalizeObservationScan_schedules {k : Nat} {summary : ObservationFinalizeSummary}
    (h : finalizeObservationScan g v k = .ok (g', summary)) : SchedulesTransitions g g' := by
  rcases finalizeObservationScan_ok h with ⟨-, rfl, -⟩ | ⟨-, session, volume, -, -, -, hphase⟩
  · exact schedulesTransitions_of_states rfl
  · rcases hphase with ⟨staged, g₁, removed, -, hsweep, rfl, -⟩ |
      ⟨staged, g₁, tombstoned, terminal, -, hsweep, -, rfl⟩
    · obtain ⟨g₂, hrows, -, rfl⟩ := sweepStaleObservationLinks_ok hsweep
      obtain ⟨-, hvolumes, -, -⟩ := sweepLinkRows_spec hrows
      refine schedulesTransitions_of_states ((state_setGeneration _ _ _).trans ?_)
      split_ifs
      · exact volumeColumn_of_volumes hvolumes
      · exact volumeColumn_of_volumes hvolumes
    · obtain ⟨rfl, -⟩ := Prod.mk.inj hsweep
      have hvolumes : ((staleObjectPage g v session.scanGeneration k).foldl
          (fun g x => setTombstoned g x.1 true) g).volumes = g.volumes := by
        rw [tombstones_frame]
      split_ifs
      · refine schedulesTransitions_of_volume (v := v) (fun w hw => ?_) ?_
        · exact ((Table.get_modify _ _ _ _).trans (if_neg hw)).trans (congrArg (·.get w) hvolumes)
        · exact ⟨_, Table.get_insert_self _ _ _, rfl, rfl⟩
      · exact schedulesTransitions_of_states
          ((state_setGeneration _ _ _).trans (volumeColumn_of_volumes hvolumes))

/-- A write schedules the transitions it makes exactly when no volume was
reopened behind its back. -/
theorem transitions_scheduled {op : GraphOp} (hop : op.Ingests) (h : op.run g = .ok g') :
    SchedulesTransitions g g' ↔ op.ReopensScheduled g := by
  cases op with
  | applyBatch batch =>
    obtain ⟨summary, h⟩ := map_fst_ok.mp h
    exact applyBatchWithOutboxMode_schedules h
  | applyRebuildableBatch batch =>
    obtain ⟨summary, h⟩ := map_fst_ok.mp h
    exact applyBatchWithOutboxMode_schedules h
  | beginObservationScan descriptor mode reason =>
    obtain ⟨session, h⟩ := map_fst_ok.mp h
    exact iff_of_true (beginObservationScan_schedules h) trivial
  | applyObservationScanPage v events =>
    obtain ⟨summary, h⟩ := map_fst_ok.mp h
    exact iff_of_true (applyObservationScanPage_schedules h) trivial
  | stageObservationCheckpoint v checkpoint =>
    obtain ⟨session, -, -, rfl⟩ := stageObservationCheckpoint_ok h
    exact iff_of_true (schedulesTransitions_of_states rfl) trivial
  | finalizeObservationScan v k =>
    obtain ⟨summary, h⟩ := map_fst_ok.mp h
    exact iff_of_true (finalizeObservationScan_schedules h) trivial
  | refreshProjectionPaths | refreshVolumeProjection | acknowledgeProjection
  | resetProjectionConsumer | pruneConsumedOutbox | pruneRebuildableOutboxBounded
  | completeRefreshJob | compactLegacyDesiredPayloadsBounded => exact hop.elim

end Scan

section Example

attribute [local instance] asciiCaseMapping

/-- The volume of the sample is set online again. -/
def setOnline : GraphOp := .applyBatch (sampleBatch [.setVolumeState sampleVolume .online])

def onlineGraph : FilesystemGraph := (setOnline.run offlineSampleGraph).toOption.getD .empty

theorem setOnline_schedules :
    SchedulesTransitions offlineSampleGraph onlineGraph ↔
      setOnline.ReopensScheduled offlineSampleGraph :=
  @transitions_scheduled _ _ _ setOnline trivial (by decide)

/-- An upsert brings the same volume back, and no refresh is due. -/
def upsertAgain : GraphOp := .applyBatch (sampleBatch [.upsertVolume sampleDescriptor])

def upsertedGraph : FilesystemGraph := (upsertAgain.run offlineSampleGraph).toOption.getD .empty

theorem upsert_unscheduled :
    Reachable offlineSampleGraph ∧ upsertAgain.run offlineSampleGraph = .ok upsertedGraph ∧
      volumeColumn (·.state) offlineSampleGraph sampleVolume = some .offline ∧
      volumeColumn (·.state) upsertedGraph sampleVolume = some .online ∧
      nextVolumeJob upsertedGraph = none ∧
      ¬ SchedulesTransitions offlineSampleGraph upsertedGraph := by
  have hidle : nextVolumeJob upsertedGraph = none := by decide
  have hbefore : volumeColumn (·.state) offlineSampleGraph sampleVolume = some .offline := by decide
  have hafter : volumeColumn (·.state) upsertedGraph sampleVolume = some .online := by decide
  refine ⟨runOps_steps (fun _ _ _ => trivial) offlineSample_run, by decide, hbefore, hafter, hidle,
    fun hschedules => ?_⟩
  obtain ⟨row, hrow, hoffline⟩ := Option.map_eq_some_iff.mp hbefore
  obtain ⟨row', hrow', honline⟩ := Option.map_eq_some_iff.mp hafter
  have hchanged : row.state ≠ row'.state := by
    rw [hoffline, honline]
    decide
  obtain ⟨job, hjob, hpending, -⟩ := hschedules sampleVolume row row' hrow hrow' hchanged
  have hdone : (upsertedGraph.volumeJobs.get sampleVolume).map (·.state) = some .finished := by decide
  rw [hjob] at hdone
  exact absurd (hpending.symm.trans (Option.some.inj hdone)) (by decide)

end Example

end LocalSearch.Graph
