import LocalSearch.Catalog.Worker
import LocalSearch.Graph.RefreshDrain

/-!
# Histories of the graph and its generations

Writers, worker steps, rebuilds and damaged directories in any order. A worker
may die between the commit of a batch and its acknowledgement and a rebuild may
leave a directory nobody names. Whatever generation opens goes on serving the
graph, as long as no write makes a stored availability current again before it
was stored anew and the writes during a rebuild leave what its pages have passed.
-/
namespace LocalSearch.Catalog

set_option autoImplicit false

open Core Lib Graph

/-- Stored availabilities that are out of date and stay stored stay out of date. -/
def StaysOutdated (g g' : FilesystemGraph) : Prop :=
  ∀ d row, g.catalog.get d = some row → g'.catalog.get d = some row →
    ¬ ReportsAvailability g row → ¬ ReportsAvailability g' row

section Writes

variable [CaseMapping] {consumer : String} {generation sequence : Nat} {g g' : FilesystemGraph}
  {index : List CatalogDocument}

/-- Once a consumer is registered every write follows the outbox. -/
theorem followsLog_of_run {op : GraphOp} {row : ConsumerRow} (hwf : WellFormed g) (hout : OutboxWF g)
    (hrow : projectorCheckpoint g consumer = some row) (h : op.run g = .ok g')
    (E : DocumentId → Option CatalogDocument) (d : DocumentId) :
    FollowsLog g g' E (highWater g) d := by
  have hsame : ∀ t : FilesystemGraph, t.catalog = g.catalog →
      (∀ x ∈ t.outbox.rows, x ∈ g.outbox.rows) → FollowsLog g t E (highWater g) d := by
    intro t hcatalog hrows
    have hnone : outboxAfter t (highWater g) = [] := by
      refine List.eq_nil_iff_forall_not_mem.mpr fun x hx => ?_
      obtain ⟨hget, hlate⟩ := mem_outboxAfter.mp (hx : (x.1, x.2) ∈ _)
      have hle := hout.rows x.1 x.2 (Table.mem_rows.mp (hrows x (Table.mem_rows.mpr hget)))
      omega
    refine Or.inl ⟨by rw [hcatalog], ?_⟩
    rw [hnone]
    rfl
  by_cases hdurable : op.Durable
  · exact followsLog_of_transacts (hdurable.transacts (R := True) (Or.inl trivial) hwf h) hout d
  · cases op with
    | applyRebuildableBatch batch =>
      obtain ⟨summary, h⟩ := map_fst_ok.mp h
      simp only [applyRebuildableBatch, applyBatchWithOutboxMode, bind_ok, guard_ok] at h
      obtain ⟨-, -, hconsumers, -⟩ := h
      have hnone : projectionConsumersExist g = false := by simpa using hconsumers
      rw [projectionConsumersExist, Bool.not_eq_false', List.isEmpty_iff] at hnone
      have hmem := Table.mem_rows.mpr hrow
      rw [hnone] at hmem
      cases hmem
    | acknowledgeProjection id last generation =>
      obtain ⟨-, -, -, -, rfl⟩ := acknowledgeProjection_ok.mp h
      exact hsame _ rfl fun _ hx => hx
    | resetProjectionConsumer id =>
      obtain rfl := Except.ok.inj h
      exact hsame _ rfl fun _ hx => hx
    | pruneConsumedOutbox =>
      obtain rfl := Except.ok.inj h
      rcases pruneConsumedOutbox_prunes g with heq | ⟨p, -, heq⟩
      · rw [heq]
        exact hsame g rfl fun _ hx => hx
      · rw [heq]
        exact hsame _ rfl fun _ hx => List.mem_of_mem_filter hx
    | pruneRebuildableOutboxBounded k allow =>
      obtain ⟨summary, h⟩ := map_fst_ok.mp h
      rcases pruneRebuildableOutboxBounded_prunes h with rfl | ⟨p, -, rfl⟩
      · exact hsame _ rfl fun _ hx => hx
      · exact hsame _ rfl fun _ hx => List.mem_of_mem_filter hx
    | completeRefreshJob id =>
      obtain rfl := Except.ok.inj h
      exact followsLog_of_transacts (completeRefreshJob_transacts (R := True) id) hout d
    | compactLegacyDesiredPayloadsBounded k =>
      obtain ⟨summary, h⟩ := map_fst_ok.mp h
      rw [compactLegacyDesiredPayloadsBounded_eq hwf h]
      exact hsame g rfl fun _ hx => hx
    | applyBatch | beginObservationScan | applyObservationScanPage | stageObservationCheckpoint
    | finalizeObservationScan | refreshProjectionPaths | refreshVolumeProjection =>
      exact absurd trivial hdurable

/-- A write opens no volume that is known and not online, and makes no availability
that is stored out of date current. -/
def LeavesOutdated (op : GraphOp) (g : FilesystemGraph) : Prop :=
  op.OpensVolumes g ∧ ∀ g', op.run g = .ok g' → StaysOutdated g g'

/-- A write keeps the generation serving, whatever the worker is doing. -/
theorem ServingIn.write {s : ProjectionState} {op : GraphOp}
    (h : ServingIn consumer generation s sequence) (hspares : op.SparesConsumer consumer)
    (hopens : op.OpensVolumes s.graph) (hstays : StaysOutdated s.graph g')
    (hrun : op.run s.graph = .ok g') :
    ServingIn consumer generation { s with graph := g' } sequence := by
  obtain ⟨U, hinv⟩ := h.rebuilt
  have hwf := hinv.graph.wellFormed
  have hcheckpoint := hinv.worker.checkpoint
  have hkept := (checkpoint_of_run hwf h.rows.wf hspares hrun).trans hcheckpoint
  have hstep : WorkerStep consumer generation (fun _ _ => True) s { s with graph := g' } :=
    .write op hspares trivial hrun
  obtain ⟨reached, hworker, hsettled⟩ := workerInvariant_step hstep hinv.worker
  obtain ⟨rfl, -⟩ :=
    ConsumerRow.mk.inj (Option.some.inj (hworker.checkpoint.symm.trans hkept))
  exact
    { rows := outboxRows_of_run hwf h.rows hrun
      unread := unread_of_run hwf h.rows hspares hcheckpoint h.unread hrun
      generation_lt := h.generation_lt
      rebuilt := by
        refine ⟨U.kept s.graph g', hworker, ingested_of_run hinv.graph hopens hrun, ?_⟩
        rw [hsettled]
        refine hinv.indexes.write (fun d _ => followsLog_of_run hwf h.rows.wf hcheckpoint hrun _ d) ?_
        intro d hd row hrow hrow'
        obtain ⟨old, hold, hstale⟩ := hinv.indexes.outdated d hd
        obtain rfl := Option.some.inj (hold.symm.trans hrow)
        exact hstays d old hold hrow' hstale }

theorem Serving.write {op : GraphOp} (h : Serving consumer generation g index sequence)
    (hspares : op.SparesConsumer consumer) (hopens : op.OpensVolumes g) (hstays : StaysOutdated g g')
    (hrun : op.run g = .ok g') : Serving consumer generation g' index sequence :=
  (h.serving_in.write hspares hopens hstays hrun).serving

/-- So does every step of the worker with writes in between. -/
theorem ServingIn.step {s s' : ProjectionState} (h : ServingIn consumer generation s sequence)
    (hstep : WorkerStep consumer generation LeavesOutdated s s') :
    ∃ reached, ServingIn consumer generation s' reached := by
  cases hstep with
  | read limit hcheckpoint hread hnonempty hvalid =>
    exact h.work (.read limit hcheckpoint hread hnonempty hvalid)
  | commit happly => exact h.work (.commit happly)
  | acknowledge hlast hack => exact h.work (.acknowledge hlast hack)
  | stop => exact h.work .stop
  | write op hspares hallowed hrun =>
    exact ⟨sequence, h.write hspares hallowed.1 (hallowed.2 _ hrun) hrun⟩

theorem ServingIn.steps {s s' : ProjectionState} (h : ServingIn consumer generation s sequence)
    (hsteps : Relation.ReflTransGen (WorkerStep consumer generation LeavesOutdated) s s') :
    ∃ reached, ServingIn consumer generation s' reached := by
  induction hsteps with
  | refl => exact ⟨sequence, h⟩
  | tail _ hstep ih =>
    obtain ⟨n, hn⟩ := ih
    exact hn.step hstep

/-- One step of a history: a write that opens no volume which is known and not online
and, while an index is active, makes no outdated availability current; batches of a
worker with such writes anywhere in between; a rebuild with writes in between that leave
what its pages have passed; a change of the directories. -/
inductive FilesStep (consumer : String) : CatalogFiles → CatalogFiles → Prop
  | write {s : CatalogFiles} {t : FilesystemGraph} (op : GraphOp) (hspares : op.SparesConsumer consumer)
      (hopens : op.OpensVolumes s.graph)
      (hstays : (activeIndex consumer s).isSome → StaysOutdated s.graph t)
      (hrun : op.run s.graph = .ok t) : FilesStep consumer s { s with graph := t }
  /-- Whatever a worker gets done on the active generation before it stops, and what
  others write meanwhile. -/
  | worked {s : CatalogFiles} {checkpoint : ConsumerRow} {index index' : List CatalogDocument}
      {t : FilesystemGraph} (hcheckpoint : projectorCheckpoint s.graph consumer = some checkpoint)
      (hopen : openIndex s.generations checkpoint.indexGeneration = some index)
      (hsteps : Relation.ReflTransGen
        (WorkerStep consumer checkpoint.indexGeneration LeavesOutdated)
        ⟨s.graph, index, .idle⟩ ⟨t, index', .idle⟩) :
      FilesStep consumer s ⟨t, s.generations.insert checkpoint.indexGeneration (some index')⟩
  /-- A rebuild and the writes it survives, registered under the number it took. -/
  | rebuilt {s : CatalogFiles} {limit generation n : Nat} {g g' : FilesystemGraph}
      {staged : List CatalogDocument} {U : Outdated} (hlimit : 1 ≤ limit)
      (hrun : Rebuilding limit Harmless s.graph ⟨g, staged, .sequenced n⟩ U)
      (hack : acknowledgeProjection g consumer n generation = .ok g') :
      FilesStep consumer s ⟨g', s.generations.insert generation (some staged)⟩
  /-- Directories come and go, and an active one may stop to open. -/
  | directories {s : CatalogFiles} (generations : Table Nat (Option (List CatalogDocument)))
      (hactive : ∀ index, activeIndex consumer ⟨s.graph, generations⟩ = some index →
        activeIndex consumer s = some index) :
      FilesStep consumer s ⟨s.graph, generations⟩

/-- Histories of such steps, from an empty database and no generation. -/
def FilesRun (consumer : String) : CatalogFiles → Prop :=
  Relation.ReflTransGen (FilesStep consumer) ⟨.empty, .empty⟩

omit [CaseMapping] in
theorem activeIndex_eq_some {s : CatalogFiles} :
    activeIndex consumer s = some index ↔ ∃ checkpoint,
      projectorCheckpoint s.graph consumer = some checkpoint ∧
        openIndex s.generations checkpoint.indexGeneration = some index := by
  rw [activeIndex, Option.bind_eq_some_iff]

/-- One generation serves, and it is the active one. -/
theorem FilesSound.of_serving {s : CatalogFiles} {row : ConsumerRow}
    (hcheckpoint : projectorCheckpoint s.graph consumer = some row)
    (hopen : openIndex s.generations row.indexGeneration = some index)
    (hserving : Serving consumer row.indexGeneration s.graph index row.lastSequence) :
    FilesSound consumer s where
  ingested := hserving.ingested
  rows := hserving.rows
  serving := by
    intro other found hother hfound
    obtain rfl := Option.some.inj (hcheckpoint.symm.trans hother)
    obtain rfl := Option.some.inj (hopen.symm.trans hfound)
    exact hserving

theorem sound_empty : FilesSound consumer ⟨.empty, .empty⟩ where
  ingested := ReachableOpenly.ingested .refl
  rows := outboxRows_empty
  serving := by
    intro checkpoint index hcheckpoint
    cases hcheckpoint

theorem FilesSound.write {s : CatalogFiles} {op : GraphOp} (h : FilesSound consumer s)
    (hspares : op.SparesConsumer consumer) (hopens : op.OpensVolumes s.graph)
    (hstays : (activeIndex consumer s).isSome → StaysOutdated s.graph g')
    (hrun : op.run s.graph = .ok g') : FilesSound consumer { s with graph := g' } where
  ingested := ingested_of_run h.ingested hopens hrun
  rows := outboxRows_of_run h.ingested.wellFormed h.rows hrun
  serving := by
    intro checkpoint index hcheckpoint hopen
    have hwf := h.ingested.wellFormed
    rw [checkpoint_of_run hwf h.rows.wf hspares hrun] at hcheckpoint
    have hactive : activeIndex consumer s = some index :=
      activeIndex_eq_some.mpr ⟨checkpoint, hcheckpoint, hopen⟩
    exact (h.serving checkpoint index hcheckpoint hopen).write hspares hopens
      (hstays (by rw [hactive]; rfl)) hrun

/-- The writes of a rebuild take no row away, so everything past its sequence is there. -/
theorem Rebuilding.unread {limit : Nat} {g₀ : FilesystemGraph} {s : RebuildState} {U : Outdated}
    (hlimit : 1 ≤ limit) (hg : Ingested g₀) (hrows : OutboxRows g₀)
    (h : Rebuilding limit Harmless g₀ s U) :
    OutboxRows s.graph ∧ ∀ n, s.phase = .sequenced n → Unread s.graph n := by
  induction h with
  | start => exact ⟨hrows, nofun⟩
  | call hrun hstep ih =>
    obtain ⟨hkept, -⟩ := ih
    cases hstep with
    | page | lastPage => exact ⟨hkept, nofun⟩
    | @sequence g staged =>
      refine ⟨hkept, fun n hphase k hlate hbound => ?_⟩
      obtain rfl := RebuildPhase.sequenced.inj hphase
      have hbound : k ≤ highWater g := hbound
      have hlatest : latestOutboxSequence g = highWater g := latestOutboxSequence_eq hkept.wf
      omega
  | @write s U g' hrun op hop hsafe h ih =>
    obtain ⟨hkept, hunread⟩ := ih
    have hingested := (rebuildInvariant_run hlimit hg hrun).graph
    obtain ⟨added, hadded, -⟩ := (hop.outboxGrows hingested h).rows
    refine ⟨outboxRows_of_run hingested.wellFormed hkept h, fun n hphase k hlow hhigh => ?_⟩
    by_cases hlate : highWater s.graph < k
    · exact (contiguous_of_run hingested.wellFormed hkept.wf hkept.contiguous h).2 k hlate hhigh
    · obtain ⟨row, hrow⟩ := hunread n hphase k hlow (by omega)
      refine ⟨row, Table.mem_rows.mp ?_⟩
      show (k, row) ∈ g'.outbox.rows
      rw [hadded]
      exact List.mem_append_left _ (Table.mem_rows.mpr hrow)

/-- Every step keeps whatever opens serving. -/
theorem FilesSound.step {s t : CatalogFiles} (h : FilesSound consumer s) (hstep : FilesStep consumer s t) :
    FilesSound consumer t := by
  cases hstep with
  | write op hspares hopens hstays hrun => exact h.write hspares hopens hstays hrun
  | @worked checkpoint index index' g₁ hcheckpoint hopen hsteps =>
    have hserving := h.serving checkpoint index hcheckpoint hopen
    obtain ⟨reached, hreached⟩ := hserving.serving_in.steps hsteps
    have hworked := hreached.serving
    exact .of_serving hworked.checkpoint (openIndex_insert _ _ _) hworked
  | rebuilt hlimit hbuilt hack =>
    obtain ⟨hrows, hunread⟩ := hbuilt.unread hlimit h.ingested h.rows
    have hserving := serving_registered hlimit h.ingested hrows (hunread _ rfl) hbuilt hack
    exact .of_serving hserving.checkpoint (openIndex_insert _ _ _) hserving
  | directories generations hactive =>
    refine ⟨h.ingested, h.rows, fun checkpoint index hcheckpoint hopen => ?_⟩
    obtain ⟨old, hold, hopened⟩ := activeIndex_eq_some.mp
      (hactive index (activeIndex_eq_some.mpr ⟨checkpoint, hcheckpoint, hopen⟩))
    obtain rfl := Option.some.inj (hold.symm.trans hcheckpoint)
    exact h.serving old index hold hopened

theorem FilesRun.sound {s : CatalogFiles} (h : FilesRun consumer s) : FilesSound consumer s := by
  induction h with
  | refl => exact sound_empty
  | tail _ hstep ih => exact ih.step hstep

end Writes

end LocalSearch.Catalog
