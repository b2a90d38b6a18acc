import LocalSearch.Graph.Availability
import LocalSearch.Graph.OutboxTail
import LocalSearch.Graph.Representation

/-!
# Compaction of legacy payloads

Rewriting every older row to the compact layout is a map on databases. Each
write commutes with it, and compaction itself is undone by it: a run with
compactions and the run without them have the same image. A reader sees the
image wherever the older payloads are current.
-/
namespace LocalSearch.Graph

set_option autoImplicit false

open Core Lib

/-- The row in the compact layout. -/
def CatalogRow.compacted (row : CatalogRow) : CatalogRow :=
  match row.projectionPath, row.documentJson with
  | none, some document =>
      { row with
        documentJson := none
        projectionPath := some document.resolvedPath
        projectionFingerprint := some (CatalogContent.ofDocument document) }
  | _, _ => row

/-- The database with every row in the compact layout. -/
def compacted (g : FilesystemGraph) : FilesystemGraph :=
  { g with catalog := g.catalog.mapRows fun _ => CatalogRow.compacted }

/-- The same for a state that comes with a further result. -/
def compactedFst {α : Type} (x : FilesystemGraph × α) : FilesystemGraph × α := (compacted x.1, x.2)

namespace CatalogRow

@[simp] theorem compacted_legacyRow (document : CatalogDocument) :
    (legacyRow document).compacted = compactRow document := rfl

@[simp] theorem compacted_objectKey (row : CatalogRow) : row.compacted.objectKey = row.objectKey := by
  unfold compacted
  split <;> rfl

@[simp] theorem compacted_fileLinkId (row : CatalogRow) : row.compacted.fileLinkId = row.fileLinkId := by
  unfold compacted
  split <;> rfl

end CatalogRow

theorem compacted_get (g : FilesystemGraph) (d : DocumentId) :
    (compacted g).catalog.get d = (g.catalog.get d).map CatalogRow.compacted :=
  Table.get_mapRows _ _ _

theorem compacted_select (g : FilesystemGraph) (p : DocumentId → CatalogRow → Bool)
    (hp : ∀ d row, p d row.compacted = p d row) :
    (compacted g).catalog.select p = (g.catalog.select p).map fun x => (x.1, x.2.compacted) := by
  simp only [compacted, Table.select_mapRows, hp]

/-- A database with older rows is mapped to the one it was before. -/
theorem Upgraded.compacted_eq {g g₀ : FilesystemGraph} (h : Upgraded g g₀) (hwf : WellFormed g) :
    compacted g₀ = g := by
  have hcatalog : (compacted g₀).catalog = g.catalog := by
    refine Table.ext_get fun d => ?_
    rw [compacted_get]
    rcases h.rows d with hsame | ⟨document, hcompact, hlegacy⟩
    · rw [hsame]
      cases hrow : g.catalog.get d with
      | none => rfl
      | some row =>
        obtain ⟨document, rfl, -⟩ := hwf.catalog.compact d row hrow
        rfl
    · rw [hcompact, hlegacy]
      rfl
  calc compacted g₀ = { g with catalog := (compacted g₀).catalog } := by rw [compacted, h.frame]
    _ = g := by rw [hcatalog]

section Commutes

variable [CaseMapping] {g : FilesystemGraph} {gen : Nat}

omit [CaseMapping] in
theorem dropLink_compacted (g : FilesystemGraph) (id : FileLinkId) (o : FileKey) :
    dropLink (compacted g) id o = compacted (dropLink g id o) := by
  unfold dropLink
  dsimp only
  split_ifs with h h' h'
  · rfl
  · exact absurd h h'
  · exact absurd h' h
  · rfl

omit [CaseMapping] in
theorem enqueueRefresh_compacted (g : FilesystemGraph) (o : FileKey) (gen : Nat) :
    enqueueRefresh (compacted g) o gen = compactedFst (enqueueRefresh g o gen) := by
  unfold enqueueRefresh
  split_ifs with h h' h'
  · rfl
  · exact absurd h h'
  · exact absurd h' h
  · rfl

omit [CaseMapping] in
theorem removeLinkInternal_compacted (g : FilesystemGraph) (id : FileLinkId) (o : FileKey)
    (refresh : Bool) :
    removeLinkInternal (compacted g) id o gen refresh =
      compactedFst <$> removeLinkInternal g id o gen refresh := by
  have hlinks : (compacted g).links = g.links := rfl
  unfold removeLinkInternal
  rw [hlinks]
  cases g.links.get id with
  | none => rfl
  | some existing =>
    refine ite_map (fun _ => rfl) fun _ => ?_
    have hdirectory : isDirectory (compacted g) o = isDirectory g o := rfl
    rw [hdirectory]
    cases isDirectory g o with
    | error e => rfl
    | ok directory =>
      simp only [ok_bind]
      refine ite_map (fun _ => ?_) fun _ => ?_
      · rw [dropLink_compacted, enqueueRefresh_compacted]
        rfl
      · rw [dropLink_compacted]
        rfl

omit [CaseMapping] in
theorem removeStaleLinks_compacted (g : FilesystemGraph) (stale : List (FileLinkId × FileKey)) :
    removeStaleLinks (compacted g) gen stale = compacted <$> removeStaleLinks g gen stale := by
  induction stale generalizing g with
  | nil => rfl
  | cons x rest ih =>
    exact map_bind_map (removeLinkInternal_compacted g x.1 x.2 false) fun y _ => ih y.1

omit [CaseMapping] in
theorem refreshMovedDirectory_compacted (g : FilesystemGraph) (link : FileLinkSnapshot) :
    refreshMovedDirectory (compacted g) link gen =
      compactedFst <$> refreshMovedDirectory g link gen := by
  have hlinks : (compacted g).links = g.links := rfl
  unfold refreshMovedDirectory
  rw [hlinks]
  cases g.links.get link.fileLinkId with
  | none => rfl
  | some existing =>
    refine ite_map (fun _ => rfl) fun _ => ite_map (fun _ => ?_) fun _ => rfl
    have hdirectory : isDirectory (compacted g) link.objectKey = isDirectory g link.objectKey := rfl
    rw [hdirectory]
    cases isDirectory g link.objectKey with
    | error e => rfl
    | ok directory =>
      simp only [ok_bind]
      refine ite_map (fun _ => ?_) fun _ => rfl
      rw [enqueueRefresh_compacted]
      rfl

omit [CaseMapping] in
theorem upsertLink_compacted (g : FilesystemGraph) (link : FileLinkSnapshot) (boundary : Bool) :
    upsertLink (compacted g) link boundary gen = compactedFst <$> upsertLink g link boundary gen := by
  refine ite_map (fun _ => rfl) fun _ => ?_
  refine map_bind_map (removeStaleLinks_compacted g _) fun g₁ _ => ?_
  refine map_bind_map (refreshMovedDirectory_compacted g₁ link) fun x _ => ?_
  exact ite_map (fun _ => rfl) fun _ => rfl

omit [CaseMapping] in
theorem applyMutation_compacted (g : FilesystemGraph) (m : GraphMutation) :
    applyMutation (compacted g) m gen = compactedFst <$> applyMutation g m gen := by
  cases m with
  | upsertVolume descriptor => rfl
  | setVolumeState v state =>
    have hvolumes : (compacted g).volumes = g.volumes := rfl
    simp only [applyMutation, setVolumeState, hvolumes]
    cases g.volumes.get v <;> rfl
  | requireReconciliation v reason =>
    have hvolumes : (compacted g).volumes = g.volumes := rfl
    simp only [applyMutation, requireReconciliation, hvolumes]
    cases g.volumes.get v <;> rfl
  | upsertObject object =>
    have hobject : upsertObject (compacted g) object gen = compacted <$> upsertObject g object gen :=
      ite_map (fun _ => rfl) fun _ => ite_map (fun _ => rfl) fun _ => rfl
    exact map_bind_map hobject fun g₁ _ => rfl
  | upsertLink link boundary => exact upsertLink_compacted g link boundary
  | removeLink id object => exact removeLinkInternal_compacted g id object true
  | tombstoneObject object =>
    have hobject : tombstoneObject (compacted g) object = compacted <$> tombstoneObject g object :=
      ite_map (fun _ => rfl) fun _ => ite_map (fun _ => rfl) fun _ => rfl
    exact map_bind_map hobject fun g₁ _ => rfl

omit [CaseMapping] in
theorem collectAffectedLinks_compacted (g : FilesystemGraph) (m : GraphMutation) (affected : LinkSet) :
    collectAffectedLinks (compacted g) m affected = collectAffectedLinks g m affected := by
  have hlinks : affectedLinks (compacted g) m = affectedLinks g m := by
    cases m with
    | tombstoneObject object =>
      have hselect := compacted_select g (fun _ row => row.objectKey == object) (by simp)
      simp only [affectedLinks, hselect, List.map_map]
      congr 1
      exact List.map_congr_left fun x _ => CatalogRow.compacted_fileLinkId x.2
    | upsertVolume | setVolumeState | requireReconciliation | upsertObject | upsertLink
    | removeLink => rfl
  rw [collectAffectedLinks, collectAffectedLinks, hlinks]

omit [CaseMapping] in
theorem applyMutations_compacted (g : FilesystemGraph) (affected : LinkSet) (ms : List GraphMutation) :
    applyMutations gen (compacted g) affected ms =
      compactedFst <$> applyMutations gen g affected ms := by
  induction ms generalizing g affected with
  | nil => rfl
  | cons m ms ih =>
    refine map_bind_map (applyMutation_compacted g m) fun x _ => ?_
    rw [collectAffectedLinks_compacted]
    exact map_bind_map (ih x.1 _) fun y _ => rfl

theorem buildCatalogDocument_compacted (g : FilesystemGraph) (link : StoredLink) (version : Nat) :
    buildCatalogDocument (compacted g) link version = buildCatalogDocument g link version := by
  have hlinks : (compacted g).links = g.links := rfl
  have hobjects : (compacted g).objects = g.objects := rfl
  have hvolumes : (compacted g).volumes = g.volumes := rfl
  refine buildCatalogDocument_congr (by rw [hobjects]) (by rw [volumeState, volumeState, hvolumes]) ?_
  exact resolvePath_of_links hlinks link.fileLinkId projectionDepth

omit [CaseMapping] in
theorem deleteCatalogProjection_compacted (g : FilesystemGraph) (d : DocumentId) (version : Nat)
    (mode : ProjectionOutboxMode) :
    deleteCatalogProjection (compacted g) d version mode =
      compactedFst (deleteCatalogProjection g d version mode) := by
  have herase : (compacted g).catalog.erase d =
      (g.catalog.erase d).mapRows fun _ => CatalogRow.compacted := (Table.mapRows_erase _ _ _).symm
  unfold deleteCatalogProjection
  rw [compacted_get]
  cases g.catalog.get d with
  | none => rfl
  | some row =>
    cases mode with
    | durable =>
      simp only [Option.map_some, compactedFst, compacted, appendOutbox] at herase ⊢
      rw [herase]
      rfl
    | rebuildable =>
      simp only [Option.map_some, compactedFst, compacted] at herase ⊢
      rw [herase]

omit [CaseMapping] in
theorem putCatalogDocument_compacted (g : FilesystemGraph) (document : CatalogDocument)
    (mode : ProjectionOutboxMode) :
    putCatalogDocument (compacted g) document mode =
      compactedFst (putCatalogDocument g document mode) := by
  have hinsert := Table.mapRows_insert g.catalog (fun _ => CatalogRow.compacted)
    document.identity.documentId (compactRow document)
  cases mode with
  | durable =>
    simp only [putCatalogDocument, compactedFst, compacted, appendOutbox, hinsert]
    rfl
  | rebuildable =>
    simp only [putCatalogDocument, compactedFst, compacted, hinsert]
    rfl

omit [CaseMapping] in
/-- A fingerprint and the document it was taken of compare alike. -/
theorem contentUnchanged_compacted {row : CatalogRow} {stored : CatalogDocument}
    (h : Stored stored row) (document : CatalogDocument) :
    contentUnchanged (some row.compacted) document = contentUnchanged (some row) document := by
  rcases h with rfl | rfl <;> rfl

theorem syncCatalogProjection_compacted {A : Set FileLinkId} (hc : CatalogRows Stored g A)
    (id : FileLinkId) (mode : ProjectionOutboxMode) :
    syncCatalogProjection (compacted g) id gen mode =
      compactedFst <$> syncCatalogProjection g id gen mode := by
  have hlink : loadLink (compacted g) id = loadLink g id := rfl
  unfold syncCatalogProjection
  rw [hlink]
  dsimp only
  cases loadLink g id with
  | none =>
    dsimp only
    rw [deleteCatalogProjection_compacted]
    rfl
  | some link =>
    simp only [buildCatalogDocument_compacted]
    cases buildCatalogDocument g link gen with
    | error e =>
      refine ite_map (fun _ => ?_) fun _ => rfl
      rw [deleteCatalogProjection_compacted]
      rfl
    | ok document =>
      have hunchanged : contentUnchanged ((compacted g).catalog.get (documentIdForLink id)) document =
          contentUnchanged (g.catalog.get (documentIdForLink id)) document := by
        rw [compacted_get]
        cases hrow : g.catalog.get (documentIdForLink id) with
        | none => rfl
        | some row =>
          obtain ⟨stored, hstored, -⟩ := hc.stored _ row hrow
          exact contentUnchanged_compacted hstored document
      dsimp only
      rw [hunchanged]
      cases contentUnchanged (g.catalog.get (documentIdForLink id)) document with
      | error e => rfl
      | ok unchanged =>
        simp only [ok_bind]
        refine ite_map (fun _ => rfl) fun _ => ?_
        rw [putCatalogDocument_compacted]
        rfl

theorem syncLinks_compacted {A : Set FileLinkId} (hc : CatalogRows Stored g A)
    (mode : ProjectionOutboxMode) (ids : List FileLinkId) :
    syncLinks (compacted g) gen mode ids = compactedFst <$> syncLinks g gen mode ids := by
  induction ids generalizing g A with
  | nil => rfl
  | cons id ids ih =>
    refine map_bind_map (syncCatalogProjection_compacted hc id mode) fun x hx => ?_
    exact map_bind_map (ih (hc.sync layout_stored hx)) fun y _ => rfl

omit [CaseMapping] in
theorem map_fst_compacted {α : Type} {x x' : GraphResult (FilesystemGraph × α)}
    (h : x' = compactedFst <$> x) : (·.1) <$> x' = compacted <$> (·.1) <$> x := by
  subst h
  cases x <;> rfl

theorem applyBatch_compacted (hrep : Represented g) (batch : GraphMutationBatch)
    (mode : ProjectionOutboxMode) :
    applyBatchWithOutboxMode (compacted g) batch mode =
      compactedFst <$> applyBatchWithOutboxMode g batch mode := by
  have hgeneration : currentGeneration (compacted g) batch.volumeId =
      currentGeneration g batch.volumeId := rfl
  unfold applyBatchWithOutboxMode
  cases hvalid : batch.validate with
  | error e => rfl
  | ok valid =>
    simp only [ok_bind]
    refine ite_map (fun _ => rfl) fun _ => ?_
    rw [hgeneration]
    cases hgen : checkedSucc (currentGeneration g batch.volumeId) "graph generation" with
    | error e => rfl
    | ok generation =>
      simp only [ok_bind]
      refine map_bind_map (applyMutations_compacted g .empty batch.mutations) fun x hx => ?_
      obtain ⟨g₁, affected, jobs⟩ := x
      obtain ⟨-, hms⟩ := validate_ok.mp hvalid
      obtain ⟨-, rfl⟩ := checkedSucc_ok.mp hgen
      have hch : Changes True batch.volumeId (currentGeneration g batch.volumeId + 1) mode
          (g, ∅) (g₁, affected.members) := batchMutations_changes hms (Or.inl trivial) hx
      have hcatalog := hch.catalogRows layout_stored hrep.catalog
      refine map_bind_map (syncLinks_compacted hcatalog mode _) fun y _ => ?_
      exact ite_map (fun _ => rfl) fun _ => rfl

theorem sweepLinkRows_compacted (hrep : Represented g) (v : VolumeId)
    (rows : List (FileLinkId × LinkRow)) :
    sweepLinkRows gen (compacted g) rows = compacted <$> sweepLinkRows gen g rows := by
  induction rows generalizing g with
  | nil => rfl
  | cons x rest ih =>
    obtain ⟨id, row⟩ := x
    refine map_bind_map (removeLinkInternal_compacted g id row.objectKey false) fun x hx => ?_
    obtain ⟨g₁, n⟩ := x
    have hdrop : Changes True v gen .durable (g, ∅) (g₁, ∅ ∪ {id}) := removeLinkInternal_changes hx
    have hcatalog := hdrop.catalogRows layout_stored hrep.catalog
    refine map_bind_map (syncCatalogProjection_compacted hcatalog id .durable) fun y hy => ?_
    exact ih (hrep.sweepRow hx hy)

omit [CaseMapping] in
theorem tombstones_compacted (g : FilesystemGraph) (stale : List (FileKey × ObjectRow)) :
    stale.foldl (fun g x => setTombstoned g x.1 true) (compacted g) =
      compacted (stale.foldl (fun g x => setTombstoned g x.1 true) g) := by
  induction stale generalizing g with
  | nil => rfl
  | cons x rest ih => exact ih (setTombstoned g x.1 true)

theorem finalizeObservationScan_compacted (hrep : Represented g) (v : VolumeId) (k : Nat) :
    finalizeObservationScan (compacted g) v k = compactedFst <$> finalizeObservationScan g v k := by
  have hsessions : (compacted g).sessions = g.sessions := rfl
  have hgeneration : finalizationGeneration (compacted g) v = finalizationGeneration g v := rfl
  refine ite_map (fun _ => rfl) fun _ => ?_
  rw [hsessions]
  cases g.sessions.get v with
  | none => rfl
  | some session =>
    dsimp only
    cases session.phase with
    | scanning => rfl
    | sweepingLinks staged =>
      simp only [hgeneration]
      cases finalizationGeneration g v with
      | error e => rfl
      | ok generation =>
        simp only [ok_bind]
        have hsweep : sweepStaleObservationLinks (compacted g) v session staged generation k =
            compactedFst <$> sweepStaleObservationLinks g v session staged generation k :=
          map_bind_map (sweepLinkRows_compacted hrep v _) fun g₁ _ =>
            ite_map (fun _ => rfl) fun _ => rfl
        exact map_bind_map hsweep fun x _ => rfl
    | sweepingObjects staged =>
      simp only [hgeneration]
      cases finalizationGeneration g v with
      | error e => rfl
      | ok generation =>
        have hsweep : sweepStaleObservationObjects (compacted g) v session.scanGeneration k =
            compactedFst (sweepStaleObservationObjects g v session.scanGeneration k) :=
          congrArg (·, _, _) (tombstones_compacted g _)
        simp only [ok_bind, hsweep]
        exact ite_map (fun _ => rfl) fun _ => rfl

omit [CaseMapping] in
theorem volumeRefreshPage_compacted (g : FilesystemGraph) (v : VolumeId) (cursor : Option FileLinkId)
    (k : Nat) : volumeRefreshPage (compacted g) v cursor k = volumeRefreshPage g v cursor k := by
  have hselect := compacted_select g (fun d row => row.objectKey.volumeId == v &&
    decide (Table.After (cursor.map documentIdForLink) d)) (by simp)
  rw [volumeRefreshPage, volumeRefreshPage, Table.page, Table.page, hselect, ← List.map_take,
    List.map_map]
  exact List.map_congr_left fun x _ => CatalogRow.compacted_fileLinkId x.2

theorem refreshProjectionPaths_compacted (hrep : Represented g) (k : Nat) :
    refreshProjectionPaths (compacted g) k = compactedFst <$> refreshProjectionPaths g k := by
  have hnext : nextPathJob (compacted g) = nextPathJob g := rfl
  have hvolumes : (compacted g).volumes = g.volumes := rfl
  refine ite_map (fun _ => rfl) fun _ => ?_
  rw [hnext]
  cases nextPathJob g with
  | none => rfl
  | some x =>
    dsimp only
    rw [hvolumes]
    cases g.volumes.get x.2.rootObject.volumeId with
    | none => rfl
    | some volume => exact map_bind_map (syncLinks_compacted hrep.catalog .durable _) fun y _ => rfl

theorem refreshVolumeProjection_compacted (hrep : Represented g) (k : Nat) :
    refreshVolumeProjection (compacted g) k = compactedFst <$> refreshVolumeProjection g k := by
  have hnext : nextVolumeJob (compacted g) = nextVolumeJob g := rfl
  have hvolumes : (compacted g).volumes = g.volumes := rfl
  refine ite_map (fun _ => rfl) fun _ => ?_
  rw [hnext]
  cases nextVolumeJob g with
  | none => rfl
  | some x =>
    dsimp only
    rw [hvolumes]
    cases g.volumes.get x.1 with
    | none => rfl
    | some volume =>
      simp only [volumeRefreshPage_compacted]
      exact map_bind_map (syncLinks_compacted hrep.catalog .durable _) fun y _ => rfl

/-- The write is a compaction. -/
def GraphOp.Compacts : GraphOp → Prop
  | .compactLegacyDesiredPayloadsBounded _ => True
  | _ => False

/-- Every other write commutes with compacting all rows. -/
theorem run_compacted (hrep : Represented g) {op : GraphOp} (hop : ¬ op.Compacts) :
    op.run (compacted g) = compacted <$> op.run g := by
  cases op with
  | applyBatch batch => exact map_fst_compacted (applyBatch_compacted hrep batch .durable)
  | applyRebuildableBatch batch => exact map_fst_compacted (applyBatch_compacted hrep batch .rebuildable)
  | beginObservationScan descriptor m reason =>
    have hgeneration : currentGeneration (compacted g) descriptor.volumeId =
        currentGeneration g descriptor.volumeId := rfl
    refine map_fst_compacted ?_
    unfold beginObservationScan
    dsimp only
    rw [hgeneration]
    exact map_bind_map (φ := fun n => n)
      (by cases checkedSucc (currentGeneration g descriptor.volumeId) "observation scan generation" <;> rfl)
      fun generation _ => rfl
  | applyObservationScanPage v events =>
    have hsession : observationSession (compacted g) v = observationSession g v := rfl
    refine map_fst_compacted ?_
    unfold applyObservationScanPage
    rw [hsession]
    cases observationSession g v with
    | none => rfl
    | some session =>
      exact ite_map (fun _ => rfl) fun _ => ite_map (fun _ => rfl) fun _ =>
        applyBatch_compacted hrep _ .durable
  | stageObservationCheckpoint v checkpoint =>
    have hsessions : (compacted g).sessions = g.sessions := rfl
    refine ite_map (fun _ => rfl) fun _ => ?_
    rw [hsessions]
    rcases g.sessions.get v with _ | ⟨scanGeneration, m, phase⟩
    · rfl
    · cases phase <;> rfl
  | finalizeObservationScan v k => exact map_fst_compacted (finalizeObservationScan_compacted hrep v k)
  | refreshProjectionPaths k => exact map_fst_compacted (refreshProjectionPaths_compacted hrep k)
  | refreshVolumeProjection k => exact map_fst_compacted (refreshVolumeProjection_compacted hrep k)
  | acknowledgeProjection consumer sequence generation =>
    exact ite_map (fun _ => rfl) fun _ => ite_map (fun _ => rfl) fun _ =>
      ite_map (fun _ => rfl) fun _ => ite_map (fun _ => rfl) fun _ => rfl
  | resetProjectionConsumer consumer => rfl
  | pruneConsumedOutbox =>
    have hminimum : consumerMinimum (compacted g) = consumerMinimum g := rfl
    refine congrArg Except.ok ?_
    unfold pruneConsumedOutbox
    rw [hminimum]
    cases consumerMinimum g <;> rfl
  | pruneRebuildableOutboxBounded k allow =>
    have hthrough : safeThrough (compacted g) allow = safeThrough g allow := rfl
    refine map_fst_compacted (ite_map (fun _ => rfl) fun _ => ?_)
    rw [hthrough]
    cases safeThrough g allow <;> rfl
  | completeRefreshJob id =>
    have hjobs : (compacted g).pathJobs = g.pathJobs := rfl
    refine congrArg Except.ok ?_
    unfold completeRefreshJob
    rw [hjobs]
    cases g.pathJobs.get id with
    | none => rfl
    | some job =>
      dsimp only
      split_ifs <;> rfl
  | compactLegacyDesiredPayloadsBounded k => exact absurd trivial hop

end Commutes

end LocalSearch.Graph
