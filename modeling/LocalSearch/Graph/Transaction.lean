import LocalSearch.Graph.Fresh

/-!
# Transactions and reachable states

Every write of the store but the consumer bookkeeping is a transaction: row
changes on one volume at one generation that leave no document out of date.
The representation invariant therefore holds in every reachable state.
-/
namespace LocalSearch.Graph

set_option autoImplicit false

open Core Lib

variable [CaseMapping]

/-- A committed transaction on one volume. -/
def Transacts (R : Prop) (mode : ProjectionOutboxMode) (g g' : FilesystemGraph) : Prop :=
  ∃ v gen, currentGeneration g v ≤ gen ∧ currentGeneration g' v = gen ∧
    Changes R v gen mode (g, ∅) (g', ∅)

variable {R : Prop} {mode : ProjectionOutboxMode} {g g' : FilesystemGraph}

theorem Transacts.refl (g : FilesystemGraph) : Transacts R mode g g :=
  ⟨⟨0⟩, _, le_rfl, rfl, .refl⟩

omit [CaseMapping] in
theorem currentGeneration_of_get {v : VolumeId} {row : VolumeRow} (h : g.volumes.get v = some row) :
    currentGeneration g v = row.generation := by
  rw [currentGeneration, h]
  rfl

/-- A transaction leaves other volumes' rows alone. -/
theorem volumes_get_of_change {v w : VolumeId} {gen : Nat} {s s' : Dirty}
    (h : Change R v gen mode s s') (hw : w ≠ v) : s'.1.volumes.get w = s.1.volumes.get w := by
  cases h with
  | upsertVolume descriptor hv hopen =>
    subst hv
    exact Table.get_insert_ne _ _ hw
  | transition row hlow hhigh => exact Table.get_insert_ne _ _ hw
  | setGeneration hle => exact (Table.get_modify _ _ _ _).trans (if_neg hw)
  | upsertObject object hv h =>
    simp only [Graph.upsertObject, guard_ok] at h
    obtain rfl := Except.ok.inj h.2.2
    rfl
  | @dropLink g A id row h =>
    rcases dropLink_cases g id row.objectKey with ⟨h, -⟩ | ⟨h, -⟩ <;> rw [h]
    rfl
  | @enqueueRefresh g A object h => rw [enqueueRefresh_frame]
  | sync h => rw [syncCatalogProjection_frame h]
  | putLink | tombstone | advancePathJob | advanceVolumeJob | putSession | eraseSession
  | putCheckpoint | widen => rfl

theorem currentGeneration_of_change {v w : VolumeId} {gen : Nat} {s s' : Dirty}
    (h : Change R v gen mode s s') (hw : w ≠ v) :
    currentGeneration s'.1 w = currentGeneration s.1 w := by
  rw [currentGeneration, currentGeneration, volumes_get_of_change h hw]

theorem wellFormed_of_transacts (h : Transacts R mode g g') (hwf : WellFormed g) :
    WellFormed g' := by
  obtain ⟨v, gen, hlow, hhigh, hch⟩ := h
  -- every generation a row may carry once the transaction has committed
  set ceiling : VolumeId → Nat := fun w => if w = v then gen else currentGeneration g w with hceil
  have hself : gen ≤ ceiling v := by simp [hceil]
  have hbound : Bounded ceiling g := by
    have hle : ∀ w, currentGeneration g w ≤ ceiling w := by
      intro w
      by_cases hw : w = v
      · simpa [hceil, hw] using hlow
      · simp [hceil, hw]
    exact ⟨fun id row hr => (hwf.bounded.links id row hr).trans (hle _),
      fun key row hr => (hwf.bounded.objects key row hr).trans (hle _)⟩
  have hother : ∀ w, w ≠ v → currentGeneration g' w = currentGeneration g w := fun w hw =>
    Changes.induct (P := fun s => currentGeneration s.1 w = currentGeneration g w)
      (fun _ _ hc hs => (currentGeneration_of_change hc hw).trans hs) hch rfl
  have hceiling : ceiling = currentGeneration g' := by
    funext w
    by_cases hw : w = v
    · simp [hceil, hw, hhigh]
    · simp [hceil, hw, hother w hw]
  refine ⟨?_, ?_, ?_, ?_⟩
  · exact hch.names hwf.names
  · exact hch.queues hwf.queues
  · exact hch.catalog hwf.catalog
  · rw [← hceiling]
    exact Changes.induct (P := fun s => Bounded ceiling s.1) (fun _ _ => bounded_of_change hself) hch
      hbound

theorem applyBatchWithOutboxMode_transacts {batch : GraphMutationBatch} {summary : ApplySummary}
    (hopen : R ∨ EachMutation OpensVolume (currentGeneration g batch.volumeId + 1) g batch.mutations)
    (h : applyBatchWithOutboxMode g batch mode = .ok (g', summary)) : Transacts R mode g g' := by
  refine ⟨batch.volumeId, _, Nat.le_succ _, ?_, applyBatchWithOutboxMode_changes hopen h⟩
  obtain ⟨-, -, -, -, g₁, g₂, affected, jobs, appended, -, -, ⟨volume, hvol⟩, rfl⟩ :=
    applyBatchWithOutboxMode_ok h
  simp [currentGeneration, putCheckpoint, setGeneration, Table.get_modify, hvol]

theorem beginObservationScan_transacts {descriptor : VolumeDescriptor} {m : ObservationScanMode}
    {reason : ReconciliationReason} {session : ObservationSession}
    (h : beginObservationScan g descriptor m reason = .ok (g', session)) : Transacts R mode g g' := by
  obtain ⟨gen, hgen, heq⟩ := bind_ok.mp h
  obtain ⟨-, rfl⟩ := checkedSucc_ok.mp hgen
  obtain ⟨rfl, -⟩ := Prod.mk.inj (Except.ok.inj heq)
  set v := descriptor.volumeId with hv
  set next := currentGeneration g v + 1 with hnext
  set row : VolumeRow := ⟨descriptor, .needsReconciliation, some reason, next⟩ with hrow
  have hvolumes : (upsertVolume g descriptor).volumes.modify v (fun row =>
      { row with state := .needsReconciliation, reconciliationReason := some reason,
                 generation := next }) = g.volumes.insert v row := by
    rw [upsertVolume, Table.modify_eq_insert (Table.get_insert_self _ _ _), Table.insert_insert]
  have hstep : Change R v next mode (g, ∅) ((enqueueVolumeProjectionRefresh
      { g with volumes := g.volumes.insert v row } v next).1, ∅) :=
    .transition row (Nat.le_succ _) le_rfl
  refine ⟨v, next, Nat.le_succ _, ?_, ?_⟩
  · refine Eq.trans (currentGeneration_of_get ?_) (rfl : row.generation = next)
    exact (congrArg (·.get v) hvolumes).trans (Table.get_insert_self _ _ _)
  · have hsession : Change R v next mode ((enqueueVolumeProjectionRefresh
        { g with volumes := g.volumes.insert v row } v next).1, ∅) _ :=
      .putSession ⟨next, m, .scanning⟩ ⟨row, Table.get_insert_self _ _ _, le_rfl⟩
    have hrun := (Relation.ReflTransGen.single hstep).tail hsession
    rw [← hvolumes] at hrun
    exact hrun

theorem applyObservationScanPage_ok {v : VolumeId} {events : List FilesystemEvent}
    {summary : ApplySummary} (h : applyObservationScanPage g v events = .ok (g', summary)) :
    ∃ session : SessionRow, g.sessions.get v = some session ∧ session.phase = .scanning ∧
      ((events = [] ∧ g' = g) ∨ ∃ checkpoint,
        applyBatch g (.fromEvents v checkpoint events) = .ok (g', summary)) := by
  unfold applyObservationScanPage observationSession at h
  cases hs : g.sessions.get v with
  | none => rw [hs] at h; cases h
  | some session =>
    simp only [hs, Option.map_some, guard_ok, not_not] at h
    obtain ⟨hphase, h⟩ := h
    refine ⟨session, rfl, ?_, ?_⟩
    · cases hp : session.phase with
      | scanning => rfl
      | sweepingLinks staged => rw [hp] at hphase; cases hphase
      | sweepingObjects staged => rw [hp] at hphase; cases hphase
    · split_ifs at h with hempty
      · exact Or.inl ⟨List.isEmpty_iff.mp hempty, (Prod.mk.inj (Except.ok.inj h)).1.symm⟩
      · exact Or.inr ⟨_, h⟩

omit [CaseMapping] in
/-- No provider event upserts a volume. -/
theorem opensVolume_ofEvent (g : FilesystemGraph) (event : FilesystemEvent) :
    OpensVolume g (.ofEvent event) := by
  cases event <;> trivial

omit [CaseMapping] in
theorem EachMutation.of_forall {P : FilesystemGraph → GraphMutation → Prop} {gen : Nat}
    {ms : List GraphMutation} (h : ∀ m ∈ ms, ∀ g, P g m) (g : FilesystemGraph) :
    EachMutation P gen g ms := by
  induction ms generalizing g with
  | nil => trivial
  | cons m ms ih =>
    exact ⟨h m List.mem_cons_self g, fun g' _ _ => ih (fun x hx => h x (List.mem_cons_of_mem _ hx)) g'⟩

theorem applyObservationScanPage_transacts {v : VolumeId} {events : List FilesystemEvent}
    {summary : ApplySummary} (h : applyObservationScanPage g v events = .ok (g', summary)) :
    Transacts R .durable g g' := by
  obtain ⟨-, -, -, ⟨-, rfl⟩ | ⟨checkpoint, hbatch⟩⟩ := applyObservationScanPage_ok h
  · exact .refl _
  · refine applyBatchWithOutboxMode_transacts (Or.inr (EachMutation.of_forall ?_ g)) hbatch
    intro m hm g
    obtain ⟨event, -, rfl⟩ := List.mem_map.mp hm
    exact opensVolume_ofEvent g event

omit [CaseMapping] in
theorem stageObservationCheckpoint_ok {v : VolumeId} {checkpoint : ProviderCheckpoint}
    (h : stageObservationCheckpoint g v checkpoint = .ok g') :
    ∃ session : SessionRow, g.sessions.get v = some session ∧ session.phase = .scanning ∧
      g' = { g with
        sessions := g.sessions.insert v
          { session with phase := .sweepingLinks (ProviderCheckpoint.row checkpoint) } } := by
  rw [stageObservationCheckpoint, guard_ok] at h
  obtain ⟨-, h⟩ := h
  split at h
  · rename_i gen m hs
    exact ⟨_, hs, rfl, (Except.ok.inj h).symm⟩
  · cases h

theorem stageObservationCheckpoint_transacts {v : VolumeId} {checkpoint : ProviderCheckpoint}
    (hwf : QueuesWF g) (h : stageObservationCheckpoint g v checkpoint = .ok g') :
    Transacts R mode g g' := by
  obtain ⟨session, hs, -, rfl⟩ := stageObservationCheckpoint_ok h
  obtain ⟨volume, hvol, hle⟩ := hwf.session v session hs
  exact ⟨v, _, le_rfl, rfl, .single (.putSession _ ⟨volume, hvol, hle⟩)⟩

/-- The parts of an accepted finalization call. -/
theorem finalizeObservationScan_ok {v : VolumeId} {k : Nat} {summary : ObservationFinalizeSummary}
    (h : finalizeObservationScan g v k = .ok (g', summary)) :
    (k = 0 ∧ g' = g ∧ summary = ⟨0, 0, false⟩) ∨
    k ≠ 0 ∧ ∃ session volume, g.sessions.get v = some session ∧ g.volumes.get v = some volume ∧
      volume.generation + 1 < 2 ^ 63 ∧
      ((∃ staged g₁ removed, session.phase = .sweepingLinks staged ∧
          sweepStaleObservationLinks g v session staged (volume.generation + 1) k =
            .ok (g₁, removed) ∧
          g' = setGeneration g₁ v (volume.generation + 1) ∧ summary = ⟨removed, 0, false⟩) ∨
        ∃ staged g₁ tombstoned terminal, session.phase = .sweepingObjects staged ∧
          sweepStaleObservationObjects g v session.scanGeneration k = (g₁, tombstoned, terminal) ∧
          summary = ⟨0, tombstoned, terminal⟩ ∧
          g' = if terminal then activateObservationCheckpoint g₁ v (volume.generation + 1) staged
            else setGeneration g₁ v (volume.generation + 1)) := by
  unfold finalizeObservationScan at h
  split_ifs at h with hk
  · obtain ⟨rfl, rfl⟩ := Prod.mk.inj (Except.ok.inj h)
    exact Or.inl ⟨hk, rfl, rfl⟩
  · refine Or.inr ⟨hk, ?_⟩
    cases hs : g.sessions.get v with
    | none => rw [hs] at h; cases h
    | some session =>
      simp only [hs] at h
      have hgeneration : ∀ gen, finalizationGeneration g v = .ok gen → ∃ volume,
          g.volumes.get v = some volume ∧ volume.generation + 1 < 2 ^ 63 ∧
            gen = volume.generation + 1 := by
        intro gen hgen
        unfold finalizationGeneration at hgen
        cases hvol : g.volumes.get v with
        | none => rw [hvol] at hgen; cases hgen
        | some volume =>
          rw [hvol] at hgen
          obtain ⟨hlt, rfl⟩ := checkedSucc_ok.mp hgen
          exact ⟨volume, rfl, hlt, rfl⟩
      cases hp : session.phase with
      | scanning => rw [hp] at h; cases h
      | sweepingLinks staged =>
        simp only [hp, bind_ok] at h
        obtain ⟨gen, hgen, ⟨g₁, removed⟩, hsweep, heq⟩ := h
        obtain ⟨volume, hvol, hlt, rfl⟩ := hgeneration gen hgen
        obtain ⟨rfl, rfl⟩ := Prod.mk.inj (Except.ok.inj heq)
        exact ⟨session, volume, rfl, hvol, hlt, Or.inl ⟨staged, g₁, removed, hp, hsweep, rfl, rfl⟩⟩
      | sweepingObjects staged =>
        simp only [hp, bind_ok] at h
        obtain ⟨gen, hgen, heq⟩ := h
        obtain ⟨volume, hvol, hlt, rfl⟩ := hgeneration gen hgen
        rcases hsweep : sweepStaleObservationObjects g v session.scanGeneration k with
          ⟨g₁, tombstoned, terminal⟩
        rw [hsweep] at heq
        refine ⟨session, volume, rfl, hvol, hlt, Or.inr ⟨staged, g₁, tombstoned, terminal, hp, hsweep,
          ?_⟩⟩
        cases terminal with
        | true =>
          obtain ⟨rfl, rfl⟩ := Prod.mk.inj (Except.ok.inj heq)
          exact ⟨rfl, rfl⟩
        | false =>
          obtain ⟨rfl, rfl⟩ := Prod.mk.inj (Except.ok.inj heq)
          exact ⟨rfl, rfl⟩

/-- A swept row is a dropped link and the sync of its document. -/
theorem sweepRow_changes {v : VolumeId} {gen n₁ n₂ : Nat} {id : FileLinkId} {key : FileKey}
    {g₁ g₂ : FilesystemGraph} (h₁ : removeLinkInternal g id key gen false = .ok (g₁, n₁))
    (h₂ : syncCatalogProjection g₁ id gen .durable = .ok (g₂, n₂)) :
    Changes R v gen .durable (g, ∅) (g₂, ∅) := by
  have hdrop : Changes R v gen .durable (g, ∅) (g₁, ∅ ∪ {id}) := removeLinkInternal_changes h₁
  have hsync : Change R v gen .durable (g₁, ∅ ∪ {id}) (g₂, (∅ ∪ {id}) \ {id}) := .sync h₂
  have hclean : ((∅ : Set FileLinkId) ∪ {id}) \ {id} = ∅ := by simp
  rw [hclean] at hsync
  exact hdrop.tail hsync

theorem sweepLinkRows_changes {v : VolumeId} {gen : Nat} {rows : List (FileLinkId × LinkRow)}
    (h : sweepLinkRows gen g rows = .ok g') : Changes R v gen .durable (g, ∅) (g', ∅) := by
  induction rows generalizing g with
  | nil => obtain rfl := Except.ok.inj h; exact .refl
  | cons x rest ih =>
    obtain ⟨id, row⟩ := x
    simp only [sweepLinkRows, bind_ok] at h
    obtain ⟨⟨g₁, n₁⟩, h₁, ⟨g₂, n₂⟩, h₂, hrest⟩ := h
    exact (sweepRow_changes h₁ h₂).trans (ih hrest)

omit [CaseMapping] in
theorem mem_byObservation {κ ρ : Type} [LinearOrder κ] {generation : ρ → Nat} {rows : List (κ × ρ)}
    {x : κ × ρ} : x ∈ byObservation generation rows ↔ x ∈ rows :=
  List.mem_insertionSort _

omit [CaseMapping] in
theorem linksOf_of_mem_staleObjectPage {v : VolumeId} {cutoff k : Nat} {x : FileKey × ObjectRow}
    (h : x ∈ staleObjectPage g v cutoff k) : linksOf g x.1 = [] := by
  have hm := (Table.mem_select.mp (mem_byObservation.mp (List.mem_of_mem_take h))).2
  simp only [Bool.and_eq_true, List.isEmpty_iff] at hm
  exact hm.2

theorem tombstones_changes {v : VolumeId} {gen : Nat} {stale : List (FileKey × ObjectRow)}
    (h : ∀ x ∈ stale, linksOf g x.1 = []) :
    Changes R v gen mode (g, ∅) (stale.foldl (fun g x => setTombstoned g x.1 true) g, ∅) := by
  induction stale generalizing g with
  | nil => exact .refl
  | cons x rest ih =>
    have hrest : ∀ y ∈ rest, linksOf (setTombstoned g x.1 true) y.1 = [] := fun y hy =>
      h y (List.mem_cons_of_mem _ hy)
    exact .head (.tombstone (h x List.mem_cons_self)) (ih hrest)

omit [CaseMapping] in
theorem currentGeneration_setGeneration {v : VolumeId} {gen : Nat} {row : VolumeRow}
    (h : g.volumes.get v = some row) : currentGeneration (setGeneration g v gen) v = gen := by
  simp [currentGeneration, setGeneration, Table.get_modify, h]

theorem volumes_mono_of_changes {v : VolumeId} {gen : Nat} {s s' : Dirty}
    (h : Changes R v gen mode s s') {w : VolumeId} {row : VolumeRow}
    (hw : s.1.volumes.get w = some row) :
    ∃ row', s'.1.volumes.get w = some row' ∧ row.generation ≤ row'.generation := by
  refine Changes.induct
    (P := fun s => ∃ row', s.1.volumes.get w = some row' ∧ row.generation ≤ row'.generation)
    ?_ h ⟨row, hw, le_rfl⟩
  rintro s₁ s₂ hc ⟨row₁, hget, hle⟩
  obtain ⟨row₂, hget₂, hle₂⟩ := volumes_mono_of_change hc hget
  exact ⟨row₂, hget₂, hle.trans hle₂⟩

theorem currentGeneration_le_of_changes {v : VolumeId} {gen : Nat} {s s' : Dirty}
    (h : Changes R v gen mode s s') (hle : currentGeneration s.1 v ≤ gen) :
    currentGeneration s'.1 v ≤ gen :=
  Changes.induct (P := fun s => currentGeneration s.1 v ≤ gen)
    (fun _ _ => currentGeneration_le_of_change) h hle

/-- Row changes followed by the generation update of their volume. -/
theorem transacts_setGeneration {v : VolumeId} {gen : Nat} {row : VolumeRow} {g₁ : FilesystemGraph}
    (hle : currentGeneration g v ≤ gen) (hrow : g.volumes.get v = some row)
    (h : Changes R v gen mode (g, ∅) (g₁, ∅)) : Transacts R mode g (setGeneration g₁ v gen) := by
  obtain ⟨row₁, hrow₁, -⟩ := volumes_mono_of_changes h hrow
  exact ⟨v, gen, hle, currentGeneration_setGeneration hrow₁,
    h.tail (.setGeneration (currentGeneration_le_of_changes h hle))⟩

theorem sweepStaleObservationLinks_ok {v : VolumeId} {session : SessionRow} {staged : CheckpointRow}
    {gen k removed : Nat}
    (h : sweepStaleObservationLinks g v session staged gen k = .ok (g', removed)) :
    ∃ g₁, sweepLinkRows gen g (staleLinkPage g v session.scanGeneration k) = .ok g₁ ∧
      removed = (staleLinkPage g v session.scanGeneration k).length ∧
      g' = if removed < k then
          { g₁ with
            sessions := g₁.sessions.insert v { session with phase := .sweepingObjects staged } }
        else g₁ := by
  obtain ⟨g₁, h₁, h⟩ := bind_ok.mp h
  refine ⟨g₁, h₁, ?_⟩
  split_ifs at h with hlen
  · obtain ⟨rfl, rfl⟩ := Prod.mk.inj (Except.ok.inj h)
    exact ⟨rfl, (if_pos hlen).symm⟩
  · obtain ⟨rfl, rfl⟩ := Prod.mk.inj (Except.ok.inj h)
    exact ⟨rfl, (if_neg hlen).symm⟩

theorem activateObservationCheckpoint_transacts {v : VolumeId} {gen : Nat} {staged : CheckpointRow}
    {row : VolumeRow} {g₁ : FilesystemGraph} (hle : currentGeneration g v ≤ gen)
    (hrow : g.volumes.get v = some row) (h : Changes R v gen mode (g, ∅) (g₁, ∅)) :
    Transacts R mode g (activateObservationCheckpoint g₁ v gen staged) := by
  obtain ⟨row₁, hrow₁, -⟩ := volumes_mono_of_changes h hrow
  have hle₁ := currentGeneration_le_of_changes h hle
  set open₁ : VolumeRow :=
    { row₁ with state := .online, reconciliationReason := none, generation := gen } with hopen₁
  have hvolumes : g₁.volumes.modify v (fun row =>
      { row with state := .online, reconciliationReason := none, generation := gen }) =
        g₁.volumes.insert v open₁ := Table.modify_eq_insert hrow₁ _
  have hput : Change R v gen mode (g₁, ∅) (putCheckpoint g₁ v staged, ∅) :=
    .putCheckpoint staged (by rw [hrow₁]; rfl)
  have htrans : Change R v gen mode (putCheckpoint g₁ v staged, ∅) ((enqueueVolumeProjectionRefresh
      { putCheckpoint g₁ v staged with volumes := g₁.volumes.insert v open₁ } v gen).1, ∅) :=
    .transition open₁ hle₁ le_rfl
  have hrun := ((h.tail hput).tail htrans).tail .eraseSession
  rw [← hvolumes] at hrun
  refine ⟨v, gen, hle, ?_, hrun⟩
  refine Eq.trans (currentGeneration_of_get ?_) (rfl : open₁.generation = gen)
  exact (congrArg (·.get v) hvolumes).trans (Table.get_insert_self _ _ _)

theorem finalizeObservationScan_transacts {v : VolumeId} {k : Nat}
    {summary : ObservationFinalizeSummary} (hwf : QueuesWF g)
    (h : finalizeObservationScan g v k = .ok (g', summary)) : Transacts R .durable g g' := by
  rcases finalizeObservationScan_ok h with ⟨-, rfl, -⟩ | ⟨-, session, volume, hs, hvol, -, hphase⟩
  · exact .refl _
  · have hle : currentGeneration g v ≤ volume.generation + 1 := by
      rw [currentGeneration_of_get hvol]
      exact Nat.le_succ _
    rcases hphase with ⟨staged, g₁, removed, -, hsweep, rfl, -⟩ |
      ⟨staged, g₁, tombstoned, terminal, -, hsweep, -, rfl⟩
    · obtain ⟨g₂, hrows, -, rfl⟩ := sweepStaleObservationLinks_ok hsweep
      have hch : Changes R v (volume.generation + 1) .durable (g, ∅) (g₂, ∅) :=
        sweepLinkRows_changes hrows
      refine transacts_setGeneration hle hvol ?_
      split_ifs
      · obtain ⟨volume', hvol', hscan⟩ := hwf.session v session hs
        obtain ⟨volume₂, hvol₂, hmono⟩ := volumes_mono_of_changes hch hvol'
        exact hch.tail (.putSession _ ⟨volume₂, hvol₂, hscan.trans hmono⟩)
      · exact hch
    · obtain ⟨rfl, -⟩ := Prod.mk.inj hsweep
      have hunlinked : ∀ x ∈ staleObjectPage g v session.scanGeneration k, linksOf g x.1 = [] :=
        fun x hx => linksOf_of_mem_staleObjectPage hx
      have hch : Changes R v (volume.generation + 1) .durable (g, ∅) _ :=
        tombstones_changes hunlinked
      cases terminal with
      | true => exact activateObservationCheckpoint_transacts hle hvol hch
      | false => exact transacts_setGeneration hle hvol hch

omit [CaseMapping] in
theorem nextPathJob_eq_some {id : Nat} {job : PathJobRow} (h : nextPathJob g = some (id, job)) :
    g.pathJobs.get id = some job ∧ job.state = .pending := by
  obtain ⟨hget, hpending⟩ := Table.mem_select.mp (List.mem_of_mem_head? h)
  exact ⟨hget, beq_iff_eq.mp hpending⟩

omit [CaseMapping] in
theorem nextVolumeJob_eq_some {v : VolumeId} {job : VolumeJobRow}
    (h : nextVolumeJob g = some (v, job)) : g.volumeJobs.get v = some job ∧ job.state = .pending := by
  obtain ⟨hget, hpending⟩ := Table.mem_select.mp (List.mem_of_mem_head? h)
  exact ⟨hget, beq_iff_eq.mp hpending⟩

omit [CaseMapping] in
/-- A page that is not short has a last link. -/
theorem short_or_last (links : List FileLinkId) {k : Nat} (hk : k ≠ 0) :
    links.length < k ∨ ¬ links.length < k ∧ ∃ last, links.getLast? = some last := by
  by_cases hshort : links.length < k
  · exact .inl hshort
  · refine .inr ⟨hshort, Option.ne_none_iff_exists'.mp fun hnone => ?_⟩
    rw [List.getLast?_eq_none_iff.mp hnone] at hshort
    exact hshort (Nat.pos_of_ne_zero hk)

/-- The parts of an accepted path refresh: idle, a last short page, or a full
page that moves the cursor to its last link. -/
theorem refreshProjectionPaths_ok {k : Nat} {summary : ProjectionRefreshSummary}
    (h : refreshProjectionPaths g k = .ok (g', summary)) :
    ((k = 0 ∨ nextPathJob g = none) ∧ g' = g) ∨
    ∃ id job volume g₁ appended, k ≠ 0 ∧ nextPathJob g = some (id, job) ∧
      g.volumes.get job.rootObject.volumeId = some volume ∧
      syncLinks g volume.generation .durable
        (pathRefreshPage g job.rootObject.volumeId job.projectionScanCursor k) = .ok (g₁, appended) ∧
      (((pathRefreshPage g job.rootObject.volumeId job.projectionScanCursor k).length < k ∧
          g' = { g₁ with pathJobs := g₁.pathJobs.insert id { job with state := .finished } }) ∨
        ∃ last, (pathRefreshPage g job.rootObject.volumeId job.projectionScanCursor k).getLast? =
            some last ∧
          g' = { g₁ with
            pathJobs := g₁.pathJobs.insert id { job with projectionScanCursor := some last } }) := by
  unfold refreshProjectionPaths at h
  split_ifs at h with hk
  · exact Or.inl ⟨Or.inl hk, (Prod.mk.inj (Except.ok.inj h)).1.symm⟩
  · cases hjob : nextPathJob g with
    | none =>
      rw [hjob] at h
      exact Or.inl ⟨Or.inr rfl, (Prod.mk.inj (Except.ok.inj h)).1.symm⟩
    | some x =>
      obtain ⟨id, job⟩ := x
      cases hvol : g.volumes.get job.rootObject.volumeId with
      | none => simp only [hjob, hvol] at h; cases h
      | some volume =>
        simp only [hjob, hvol, bind_ok] at h
        obtain ⟨⟨g₁, appended⟩, hsync, heq⟩ := h
        refine Or.inr ⟨id, job, volume, g₁, appended, hk, rfl, hvol, hsync, ?_⟩
        obtain ⟨rfl, -⟩ := Prod.mk.inj (Except.ok.inj heq)
        rcases short_or_last (pathRefreshPage g job.rootObject.volumeId job.projectionScanCursor k) hk with
          hshort | ⟨hfull, last, hlast⟩
        · exact Or.inl ⟨hshort, by simp [hshort]⟩
        · exact Or.inr ⟨last, hlast, by simp [hfull, hlast]⟩

theorem refreshVolumeProjection_ok {k : Nat} {summary : ProjectionRefreshSummary}
    (h : refreshVolumeProjection g k = .ok (g', summary)) :
    ((k = 0 ∨ nextVolumeJob g = none) ∧ g' = g) ∨
    ∃ v job volume g₁ appended, k ≠ 0 ∧ nextVolumeJob g = some (v, job) ∧
      g.volumes.get v = some volume ∧
      syncLinks g volume.generation .durable (volumeRefreshPage g v job.projectionScanCursor k) =
        .ok (g₁, appended) ∧
      (((volumeRefreshPage g v job.projectionScanCursor k).length < k ∧
          g' = { g₁ with volumeJobs := g₁.volumeJobs.insert v { job with state := .finished } }) ∨
        ∃ last, (volumeRefreshPage g v job.projectionScanCursor k).getLast? = some last ∧
          g' = { g₁ with
            volumeJobs := g₁.volumeJobs.insert v { job with projectionScanCursor := some last } }) := by
  unfold refreshVolumeProjection at h
  split_ifs at h with hk
  · exact Or.inl ⟨Or.inl hk, (Prod.mk.inj (Except.ok.inj h)).1.symm⟩
  · cases hjob : nextVolumeJob g with
    | none =>
      rw [hjob] at h
      exact Or.inl ⟨Or.inr rfl, (Prod.mk.inj (Except.ok.inj h)).1.symm⟩
    | some x =>
      obtain ⟨v, job⟩ := x
      cases hvol : g.volumes.get v with
      | none => simp only [hjob, hvol] at h; cases h
      | some volume =>
        simp only [hjob, hvol, bind_ok] at h
        obtain ⟨⟨g₁, appended⟩, hsync, heq⟩ := h
        refine Or.inr ⟨v, job, volume, g₁, appended, hk, rfl, hvol, hsync, ?_⟩
        obtain ⟨rfl, -⟩ := Prod.mk.inj (Except.ok.inj heq)
        rcases short_or_last (volumeRefreshPage g v job.projectionScanCursor k) hk with
          hshort | ⟨hfull, last, hlast⟩
        · exact Or.inl ⟨hshort, by simp [hshort]⟩
        · exact Or.inr ⟨last, hlast, by simp [hfull, hlast]⟩

theorem refreshProjectionPaths_transacts {k : Nat} {summary : ProjectionRefreshSummary}
    (h : refreshProjectionPaths g k = .ok (g', summary)) : Transacts R .durable g g' := by
  rcases refreshProjectionPaths_ok h with ⟨-, rfl⟩ | ⟨id, job, volume, g₁, n, -, hjob, hvol, hsync, hend⟩
  · exact .refl _
  · have hframe := syncLinks_frame hsync
    have hget : g₁.pathJobs.get id = some job := by
      rw [hframe]
      exact (nextPathJob_eq_some hjob).1
    have hsyncs : Changes R job.rootObject.volumeId volume.generation .durable (g, ∅) (g₁, ∅) :=
      Changes.widen (syncLinks_changes hsync) (by simp)
    have hgen : currentGeneration g₁ job.rootObject.volumeId = volume.generation := by
      rw [hframe]
      exact currentGeneration_of_get hvol
    refine ⟨job.rootObject.volumeId, volume.generation, (currentGeneration_of_get hvol).le, ?_, ?_⟩
    · rcases hend with ⟨-, rfl⟩ | ⟨last, -, rfl⟩ <;> exact hgen
    · rcases hend with ⟨-, rfl⟩ | ⟨last, -, rfl⟩ <;>
        exact hsyncs.tail (.advancePathJob _ hget rfl)

omit [CaseMapping] in
/-- The documents a volume page visits, named by their links. -/
theorem mem_volumeRefreshPage {v : VolumeId} {cursor : Option FileLinkId} {k : Nat}
    (hwf : WellFormed g) {id : FileLinkId} {row : CatalogRow}
    (h : (documentIdForLink id, row) ∈
      g.catalog.page (fun _ row => row.objectKey.volumeId == v) (cursor.map documentIdForLink) k) :
    id ∈ volumeRefreshPage g v cursor k := by
  obtain ⟨hget, -, -⟩ := Table.mem_page h
  obtain ⟨stored, rfl, hid, -⟩ := hwf.catalog.compact _ row hget
  exact List.mem_map.mpr ⟨_, h, hid⟩

omit [CaseMapping] in
theorem after_documentIdForLink {cursor : Option FileLinkId} {id : FileLinkId} :
    Table.After (cursor.map documentIdForLink) (documentIdForLink id) ↔ Table.After cursor id := by
  cases cursor with
  | none => simp
  | some c => simp only [Option.map_some, Table.after_some]; exact Iff.rfl

omit [CaseMapping] in
/-- A volume page visits every document behind the cursor up to its last one. -/
theorem volumeRefreshPage_covers {v : VolumeId} {cursor : Option FileLinkId} {k : Nat}
    (hwf : WellFormed g) {id : FileLinkId} {row : CatalogRow}
    (hrow : g.catalog.get (documentIdForLink id) = some row) (hv : row.objectKey.volumeId = v)
    (hafter : Table.After cursor id) : id ∈ volumeRefreshPage g v cursor k ∨
      (k ≤ (volumeRefreshPage g v cursor k).length ∧
        ∀ last, (volumeRefreshPage g v cursor k).getLast? = some last → last < id) := by
  have hp : (row.objectKey.volumeId == v) = true := beq_iff_eq.mpr hv
  have ha := after_documentIdForLink.mpr hafter
  have hcovers : (documentIdForLink id, row) ∈
        g.catalog.page (fun _ row => row.objectKey.volumeId == v) (cursor.map documentIdForLink) k ∨
      ∀ x ∈ g.catalog.page (fun _ row => row.objectKey.volumeId == v)
        (cursor.map documentIdForLink) k, x.1 < documentIdForLink id :=
    Table.page_covers hrow hp ha
  rcases hcovers with hmem | hlt
  · exact Or.inl (mem_volumeRefreshPage hwf hmem)
  · by_cases hshort : (volumeRefreshPage g v cursor k).length < k
    · rw [volumeRefreshPage, List.length_map] at hshort
      exact Or.inl (mem_volumeRefreshPage hwf (Table.mem_page_of_short hshort hrow hp ha))
    · refine Or.inr ⟨not_lt.mp hshort, fun last hlast => ?_⟩
      rw [volumeRefreshPage, List.getLast?_map] at hlast
      obtain ⟨⟨d, r⟩, hmem, rfl⟩ := Option.map_eq_some_iff.mp hlast
      have hpage := List.mem_of_getLast? hmem
      obtain ⟨stored, rfl, hid, -⟩ := hwf.catalog.compact _ r (Table.mem_page hpage).1
      have hd : d < documentIdForLink id := hlt _ hpage
      simp only [compactRow, hid]
      exact hd

theorem refreshVolumeProjection_transacts {k : Nat} {summary : ProjectionRefreshSummary}
    (hwf : WellFormed g) (h : refreshVolumeProjection g k = .ok (g', summary)) :
    Transacts R .durable g g' := by
  rcases refreshVolumeProjection_ok h with ⟨-, rfl⟩ | ⟨v, job, volume, g₁, n, -, hjob, hvol, hsync, hend⟩
  · exact .refl _
  · obtain ⟨hget, hpending⟩ := nextVolumeJob_eq_some hjob
    have hframe := syncLinks_frame hsync
    have hget₁ : g₁.volumeJobs.get v = some job := by
      rw [hframe]
      exact hget
    have hsyncs : Changes R v volume.generation .durable (g, ∅) (g₁, ∅) :=
      Changes.widen (syncLinks_changes hsync) (by simp)
    have hwf₁ : CatalogWF g₁ ∅ := hsyncs.catalog hwf.catalog
    have hgen : currentGeneration g₁ v = volume.generation := by
      rw [hframe]
      exact currentGeneration_of_get hvol
    -- a document behind the cursor was visited, or the page ended before it
    have hpass : ∀ id row, g₁.catalog.get (documentIdForLink id) = some row →
        row.objectKey.volumeId = v → Table.After job.projectionScanCursor id →
        ReportsAvailability g₁ row ∨
          (k ≤ (volumeRefreshPage g v job.projectionScanCursor k).length ∧
            ∀ last, (volumeRefreshPage g v job.projectionScanCursor k).getLast? = some last →
              last < id) := by
      intro id row hrow hv hafter
      by_cases hmem : id ∈ volumeRefreshPage g v job.projectionScanCursor k
      · exact Or.inl ((fresh_syncLinks hwf.catalog hsync id hmem).reportsAvailability hwf₁ hrow)
      · rw [syncLinks_get_notMem hsync hmem] at hrow
        exact Or.inr ((volumeRefreshPage_covers hwf hrow hv hafter).resolve_left hmem)
    refine ⟨v, volume.generation, (currentGeneration_of_get hvol).le, ?_, ?_⟩
    · rcases hend with ⟨-, rfl⟩ | ⟨last, -, rfl⟩ <;> exact hgen
    · rcases hend with ⟨hshort, rfl⟩ | ⟨last, hlast, rfl⟩
      · refine hsyncs.tail (.advanceVolumeJob _ hget₁ fun id row hrow hv hafter => Or.inl ?_)
        exact (hpass id row hrow hv hafter).resolve_right fun hlong => absurd hlong.1 (not_le.mpr hshort)
      · refine hsyncs.tail (.advanceVolumeJob _ hget₁ fun id row hrow hv hafter => ?_)
        refine (hpass id row hrow hv hafter).imp_right fun hlong => ⟨hpending, ?_⟩
        exact Table.after_some.mpr (hlong.2 last hlast)

theorem completeRefreshJob_transacts (id : Nat) :
    Transacts R mode g (completeRefreshJob g id).1 := by
  unfold completeRefreshJob
  cases hjob : g.pathJobs.get id with
  | none => exact .refl _
  | some job =>
    by_cases hp : job.state = .pending
    · simp only [if_pos hp]
      exact ⟨job.rootObject.volumeId, _, le_rfl, rfl, .single (.advancePathJob _ hjob rfl)⟩
    · simp only [if_neg hp]
      exact .refl _

omit [CaseMapping] in
/-- Every row is compact already, so compaction finds nothing to rewrite. -/
theorem compactLegacyDesiredPayloadsBounded_eq {k : Nat} {n : Nat} {more : Bool} (hwf : WellFormed g)
    (h : compactLegacyDesiredPayloadsBounded g k = .ok (g', n, more)) : g' = g := by
  have hnone : (g.catalog.select fun _ row => row.projectionPath.isNone) = [] := by
    refine List.eq_nil_iff_forall_not_mem.mpr fun ⟨d, row⟩ hmem => ?_
    obtain ⟨hget, hlegacy⟩ := Table.mem_select.mp hmem
    obtain ⟨document, rfl, -⟩ := hwf.catalog.compact d row hget
    cases hlegacy
  simp only [compactLegacyDesiredPayloadsBounded, guard_ok, hnone, List.take_nil, bind_ok] at h
  obtain ⟨-, g₁, hrows, heq⟩ := h
  obtain rfl := Except.ok.inj hrows
  exact (Prod.mk.inj (Except.ok.inj heq)).1.symm

/-- Two graphs that differ at most in the outbox and its consumers. -/
def SameDesired (g g' : FilesystemGraph) : Prop :=
  g' = { g with
    outbox := g'.outbox, sqliteSequence := g'.sqliteSequence, consumers := g'.consumers }

omit [CaseMapping] in
theorem SameDesired.wellFormed (h : SameDesired g g') (hwf : WellFormed g) : WellFormed g' := by
  rw [h]
  exact ⟨⟨hwf.names.objectVolume, hwf.names.linkObject, hwf.names.linkParent, hwf.names.slots⟩,
    ⟨hwf.queues.pathJob, hwf.queues.volumeJob, hwf.queues.session⟩,
    ⟨hwf.catalog.compact, hwf.catalog.link⟩, ⟨hwf.bounded.links, hwf.bounded.objects⟩⟩

omit [CaseMapping] in
theorem acknowledgeProjection_ok {consumer : String} {sequence generation : Nat} :
    acknowledgeProjection g consumer sequence generation = .ok g' ↔
      sequence ≤ latestOutboxSequence g ∧
      (∀ current ∈ projectorCheckpoint g consumer, current.lastSequence ≤ sequence) ∧
      sequence < 2 ^ 63 ∧ generation < 2 ^ 63 ∧
      g' = { g with consumers := g.consumers.insert consumer ⟨sequence, generation⟩ } := by
  simp only [acknowledgeProjection, guard_ok, not_lt, not_le, not_exists, not_and,
    Except.ok.injEq, eq_comm (a := g')]

omit [CaseMapping] in
theorem pruneConsumedOutbox_same : SameDesired g (pruneConsumedOutbox g).1 := by
  unfold pruneConsumedOutbox
  cases consumerMinimum g <;> rfl

omit [CaseMapping] in
theorem pruneRebuildableOutboxBounded_same {k : Nat} {allow : Bool}
    {summary : OutboxMaintenanceSummary}
    (h : pruneRebuildableOutboxBounded g k allow = .ok (g', summary)) : SameDesired g g' := by
  rw [pruneRebuildableOutboxBounded, guard_ok] at h
  obtain ⟨-, h⟩ := h
  split at h
  · obtain ⟨rfl, -⟩ := Prod.mk.inj (Except.ok.inj h)
    rfl
  · obtain ⟨rfl, -⟩ := Prod.mk.inj (Except.ok.inj h)
    rfl

/-- The writes that append every change of desired state to the outbox and
never remove a row from it. -/
def GraphOp.Durable : GraphOp → Prop
  | .applyBatch _ | .beginObservationScan _ _ _ | .applyObservationScanPage _ _
  | .stageObservationCheckpoint _ _ | .finalizeObservationScan _ _ | .refreshProjectionPaths _
  | .refreshVolumeProjection _ => True
  | _ => False

/-- Every `UpsertVolume` of the write finds its volume new or online. -/
def GraphOp.OpensVolumes (g : FilesystemGraph) : GraphOp → Prop
  | .applyBatch batch | .applyRebuildableBatch batch =>
      EachMutation OpensVolume (currentGeneration g batch.volumeId + 1) g batch.mutations
  | _ => True

omit [CaseMapping] in
theorem map_fst_ok {α β : Type} {x : GraphResult (α × β)} {a : α} :
    (·.1) <$> x = .ok a ↔ ∃ b, x = .ok (a, b) := by
  cases x with
  | error e => exact ⟨fun h => (nomatch h), fun ⟨_, h⟩ => (nomatch h)⟩
  | ok p => exact ⟨fun h => ⟨p.2, by rw [← Except.ok.inj h]⟩, fun ⟨b, h⟩ => by rw [Except.ok.inj h]; rfl⟩

theorem GraphOp.Durable.transacts {op : GraphOp} (hop : op.Durable)
    (hopen : R ∨ op.OpensVolumes g) (hwf : WellFormed g) (h : op.run g = .ok g') :
    Transacts R .durable g g' := by
  cases op with
  | applyBatch batch =>
    obtain ⟨summary, h⟩ := map_fst_ok.mp h
    exact applyBatchWithOutboxMode_transacts hopen h
  | beginObservationScan descriptor m reason =>
    obtain ⟨session, h⟩ := map_fst_ok.mp h
    exact beginObservationScan_transacts h
  | applyObservationScanPage v events =>
    obtain ⟨summary, h⟩ := map_fst_ok.mp h
    exact applyObservationScanPage_transacts h
  | stageObservationCheckpoint v checkpoint => exact stageObservationCheckpoint_transacts hwf.queues h
  | finalizeObservationScan v k =>
    obtain ⟨summary, h⟩ := map_fst_ok.mp h
    exact finalizeObservationScan_transacts hwf.queues h
  | refreshProjectionPaths k =>
    obtain ⟨summary, h⟩ := map_fst_ok.mp h
    exact refreshProjectionPaths_transacts h
  | refreshVolumeProjection k =>
    obtain ⟨summary, h⟩ := map_fst_ok.mp h
    exact refreshVolumeProjection_transacts hwf h
  | applyRebuildableBatch | acknowledgeProjection | resetProjectionConsumer | pruneConsumedOutbox
  | pruneRebuildableOutboxBounded | completeRefreshJob | compactLegacyDesiredPayloadsBounded =>
    exact hop.elim

/-- Every write is a transaction or leaves the desired state alone. -/
theorem GraphOp.run_cases {op : GraphOp} (hopen : R ∨ op.OpensVolumes g) (hwf : WellFormed g)
    (h : op.run g = .ok g') : (∃ mode, Transacts R mode g g') ∨ SameDesired g g' := by
  by_cases hop : op.Durable
  · exact Or.inl ⟨_, hop.transacts hopen hwf h⟩
  · cases op with
    | applyRebuildableBatch batch =>
      obtain ⟨summary, h⟩ := map_fst_ok.mp h
      exact Or.inl ⟨_, applyBatchWithOutboxMode_transacts hopen h⟩
    | acknowledgeProjection consumer sequence generation =>
      obtain ⟨-, -, -, -, rfl⟩ := acknowledgeProjection_ok.mp h
      exact Or.inr rfl
    | resetProjectionConsumer consumer =>
      obtain rfl := Except.ok.inj h
      exact Or.inr rfl
    | pruneConsumedOutbox =>
      obtain rfl := Except.ok.inj h
      exact Or.inr pruneConsumedOutbox_same
    | pruneRebuildableOutboxBounded k allow =>
      obtain ⟨summary, h⟩ := map_fst_ok.mp h
      exact Or.inr (pruneRebuildableOutboxBounded_same h)
    | completeRefreshJob id =>
      obtain rfl := Except.ok.inj h
      exact Or.inl ⟨.durable, completeRefreshJob_transacts id⟩
    | compactLegacyDesiredPayloadsBounded k =>
      obtain ⟨⟨n, more⟩, h⟩ := map_fst_ok.mp h
      rw [compactLegacyDesiredPayloadsBounded_eq hwf h]
      exact Or.inr rfl
    | applyBatch | beginObservationScan | applyObservationScanPage | stageObservationCheckpoint
    | finalizeObservationScan | refreshProjectionPaths | refreshVolumeProjection =>
      exact absurd trivial hop

theorem wellFormed_of_run {op : GraphOp} (hwf : WellFormed g) (h : op.run g = .ok g') :
    WellFormed g' := by
  rcases GraphOp.run_cases (R := True) (Or.inl trivial) hwf h with ⟨mode, htrans⟩ | hsame
  · exact wellFormed_of_transacts htrans hwf
  · exact hsame.wellFormed hwf

theorem Step.wellFormed {allowed : GraphOp → FilesystemGraph → Prop} (h : Step allowed g g')
    (hwf : WellFormed g) : WellFormed g' := by
  obtain ⟨op, -, hrun⟩ := h
  exact wellFormed_of_run hwf hrun

/-- Every stored checkpoint has its volume. -/
def CheckpointsWF (g : FilesystemGraph) : Prop :=
  ∀ v, (g.checkpoints.get v).isSome → (g.volumes.get v).isSome

theorem checkpointsWF_of_change {v : VolumeId} {gen : Nat} {s s' : Dirty}
    (h : Change R v gen mode s s') (hwf : CheckpointsWF s.1) : CheckpointsWF s'.1 := by
  intro w hw
  refine volumes_isSome_of_change h ?_
  cases h with
  | putCheckpoint row hvolume =>
    by_cases hv : w = v
    · exact hv ▸ hvolume
    · exact hwf w ((congrArg Option.isSome (Table.get_insert_ne _ _ hv)).symm.trans hw)
  | upsertObject object hv h =>
    simp only [Graph.upsertObject, guard_ok] at h
    obtain rfl := Except.ok.inj h.2.2
    exact hwf w hw
  | @dropLink g A id row h =>
    rcases dropLink_cases g id row.objectKey with ⟨h, -⟩ | ⟨h, -⟩ <;> rw [h] at hw <;> exact hwf w hw
  | enqueueRefresh => rw [enqueueRefresh_frame] at hw; exact hwf w hw
  | sync h => rw [syncCatalogProjection_frame h] at hw; exact hwf w hw
  | upsertVolume | transition | setGeneration | putLink | tombstone | advancePathJob
  | advanceVolumeJob | putSession | eraseSession | widen => exact hwf w hw

/-- Every state reached from an empty database is well formed. -/
theorem Reachable.wellFormed (h : Reachable g) : WellFormed g := by
  induction h with
  | refl => exact wellFormed_empty
  | tail _ hstep ih => exact hstep.wellFormed ih

theorem Reachable.checkpointsWF (h : Reachable g) : CheckpointsWF g := by
  induction h with
  | refl => exact fun v hv => (nomatch hv)
  | tail hrun hstep ih =>
    obtain ⟨op, -, hop⟩ := hstep
    have hwf := Reachable.wellFormed hrun
    rcases GraphOp.run_cases (R := True) (Or.inl trivial) hwf hop with ⟨mode, v, gen, -, -, hch⟩ | hsame
    · exact Changes.induct (P := fun s => CheckpointsWF s.1) (fun _ _ => checkpointsWF_of_change) hch ih
    · rw [hsame]
      exact ih

end LocalSearch.Graph
