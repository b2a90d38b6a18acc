import LocalSearch.Graph.Transaction

/-!
# The representation invariant over every run

Databases written before the compact layout hold whole documents in their
desired rows. The tables fit together just the same, every write keeps them so,
and no sync inside a transaction ever misses an object or a volume.
-/
namespace LocalSearch.Graph

set_option autoImplicit false

open Core Lib

/-- The row an older version wrote: the whole document and no compact column. -/
def legacyRow (document : CatalogDocument) : CatalogRow where
  objectKey := document.identity.objectKey
  fileLinkId := document.identity.fileLinkId
  documentVersion := document.documentVersion
  documentJson := some document
  projectionPath := none
  projectionFingerprint := none

/-- A desired row of either layout. -/
def Stored (document : CatalogDocument) (row : CatalogRow) : Prop :=
  row = compactRow document ∨ row = legacyRow document

/-- The database of `g` with some desired rows still in the older layout. -/
structure Upgraded (g g₀ : FilesystemGraph) : Prop where
  frame : g₀ = { g with catalog := g₀.catalog }
  rows : ∀ d, g₀.catalog.get d = g.catalog.get d ∨ ∃ document,
    g.catalog.get d = some (compactRow document) ∧ g₀.catalog.get d = some (legacyRow document)

theorem layout_stored : Layout Stored := by
  refine ⟨fun _ => Or.inl rfl, ?_, ?_⟩
  · rintro document row (rfl | rfl) <;> exact ⟨rfl, rfl⟩
  · rintro stored row (rfl | rfl) document <;> rfl

/-- Rows refer to rows that exist, in either layout. -/
structure Represented (g : FilesystemGraph) : Prop where
  names : NamespaceWF g
  queues : QueuesWF g
  catalog : CatalogRows Stored g ∅

theorem represented_empty : Represented .empty :=
  ⟨wellFormed_empty.names, wellFormed_empty.queues,
    ⟨fun _ _ h => (nomatch h), fun _ _ _ h => (nomatch h)⟩⟩

theorem Represented.of_wellFormed {g : FilesystemGraph} (hwf : WellFormed g) : Represented g := by
  refine ⟨hwf.names, hwf.queues, fun d row hget => ?_, hwf.catalog.link⟩
  obtain ⟨document, rfl, hlink, hid⟩ := hwf.catalog.compact d row hget
  exact ⟨document, Or.inl rfl, hlink, hid⟩

theorem Represented.upgraded {g g₀ : FilesystemGraph} (hrep : Represented g) (h : Upgraded g g₀) :
    Represented g₀ := by
  have hrow : ∀ d row, g₀.catalog.get d = some row → ∃ old document, g.catalog.get d = some old ∧
      old.objectKey = row.objectKey ∧ Stored document row ∧
      document.identity.fileLinkId = linkOfDocument d ∧ document.identity.documentId = d := by
    intro d row hget
    rcases h.rows d with hsame | ⟨document, hold, hnew⟩
    · rw [hsame] at hget
      obtain ⟨document, hstored, hlink, hid⟩ := hrep.catalog.stored d row hget
      exact ⟨row, document, hget, rfl, hstored, hlink, hid⟩
    · rw [hnew] at hget
      obtain rfl := Option.some.inj hget
      obtain ⟨stored, hstored, hlink, hid⟩ := hrep.catalog.stored d _ hold
      obtain rfl : stored = document := by
        rcases hstored with heq | heq
        · exact (compactRow_injective heq).symm
        · cases congrArg CatalogRow.projectionPath heq
      exact ⟨_, stored, hold, rfl, Or.inr rfl, hlink, hid⟩
  have hlinks : g₀.links = g.links := by rw [h.frame]
  refine ⟨?_, ?_, ?_⟩
  · rw [h.frame]
    exact ⟨hrep.names.objectVolume, hrep.names.linkObject, hrep.names.linkParent, hrep.names.slots⟩
  · rw [h.frame]
    exact ⟨hrep.queues.pathJob, hrep.queues.volumeJob, hrep.queues.session⟩
  · refine ⟨fun d row hget => ?_, fun id row hid hget => ?_⟩
    · obtain ⟨-, document, -, -, hstored⟩ := hrow d row hget
      exact ⟨document, hstored⟩
    · obtain ⟨old, -, hold, hkey, -⟩ := hrow _ row hget
      obtain ⟨link, hlink, hsame⟩ := hrep.catalog.link id old hid hold
      exact ⟨link, by rw [hlinks]; exact hlink, hsame.trans hkey⟩

section Runs

variable [CaseMapping] {g g' : FilesystemGraph} {R : Prop} {mode : ProjectionOutboxMode}

theorem Represented.of_changes {v : VolumeId} {gen : Nat} {s s' : Dirty}
    (h : Changes R v gen mode s s')
    (hs : NamespaceWF s.1 ∧ QueuesWF s.1 ∧ CatalogRows Stored s.1 s.2) :
    NamespaceWF s'.1 ∧ QueuesWF s'.1 ∧ CatalogRows Stored s'.1 s'.2 :=
  ⟨h.names hs.1, h.queues hs.2.1, h.catalogRows layout_stored hs.2.2⟩

theorem Represented.sweepRow (hrep : Represented g) {gen n₁ n₂ : Nat} {id : FileLinkId} {key : FileKey}
    {g₁ g₂ : FilesystemGraph} (h₁ : removeLinkInternal g id key gen false = .ok (g₁, n₁))
    (h₂ : syncCatalogProjection g₁ id gen .durable = .ok (g₂, n₂)) : Represented g₂ := by
  have hch : Changes True key.volumeId gen .durable (g, ∅) (g₂, ∅) := sweepRow_changes h₁ h₂
  exact ⟨hch.names hrep.names, hch.queues hrep.queues, hch.catalogRows layout_stored hrep.catalog⟩

theorem Represented.of_transacts (hrep : Represented g) (h : Transacts R mode g g') :
    Represented g' := by
  obtain ⟨v, gen, -, -, hch⟩ := h
  obtain ⟨hnames, hqueues, hcatalog⟩ :=
    Represented.of_changes hch ⟨hrep.names, hrep.queues, hrep.catalog⟩
  exact ⟨hnames, hqueues, hcatalog⟩

theorem Represented.syncLinks (hrep : Represented g) {v : VolumeId} {gen n : Nat}
    {ids : List FileLinkId} (h : syncLinks g gen .durable ids = .ok (g', n)) : Represented g' := by
  have hsyncs : Changes True v gen .durable (g, ∅) (g', ∅) :=
    Changes.widen (syncLinks_changes h) (by simp)
  obtain ⟨hnames, hqueues, hcatalog⟩ :=
    Represented.of_changes hsyncs ⟨hrep.names, hrep.queues, hrep.catalog⟩
  exact ⟨hnames, hqueues, hcatalog⟩

omit [CaseMapping] in
theorem Represented.putVolumeJob (hrep : Represented g) {v : VolumeId} (job : VolumeJobRow)
    (hv : (g.volumes.get v).isSome) :
    Represented { g with volumeJobs := g.volumeJobs.insert v job } := by
  refine ⟨⟨hrep.names.objectVolume, hrep.names.linkObject, hrep.names.linkParent, hrep.names.slots⟩,
    ⟨hrep.queues.pathJob, fun w job' hjob => ?_, hrep.queues.session⟩,
    ⟨hrep.catalog.stored, hrep.catalog.link⟩⟩
  rw [Table.get_insert] at hjob
  split_ifs at hjob with hw
  · rw [hw]
    exact hv
  · exact hrep.queues.volumeJob w job' hjob

/-- A volume refresh syncs a page of links and moves its job on. -/
theorem Represented.refreshVolumeProjection (hrep : Represented g) {k : Nat}
    {summary : ProjectionRefreshSummary}
    (h : refreshVolumeProjection g k = .ok (g', summary)) : Represented g' := by
  rcases refreshVolumeProjection_ok h with ⟨-, rfl⟩ | ⟨v, job, volume, g₁, n, -, -, hvol, hsync, hend⟩
  · exact hrep
  · have hrep₁ : Represented g₁ := hrep.syncLinks (v := v) hsync
    have hv : (g₁.volumes.get v).isSome := by
      rw [syncLinks_frame hsync]
      exact Option.isSome_iff_exists.mpr ⟨volume, hvol⟩
    rcases hend with ⟨-, rfl⟩ | ⟨last, -, rfl⟩
    · exact hrep₁.putVolumeJob _ hv
    · exact hrep₁.putVolumeJob _ hv

omit [CaseMapping] in
/-- Compacting a row keeps its document. -/
theorem CatalogRows.compactRows {rows : List (DocumentId × CatalogRow)} {A : Set FileLinkId}
    (hwf : CatalogRows Stored g A) (hrows : ∀ x ∈ rows, g.catalog.get x.1 = some x.2)
    (hnodup : (rows.map (·.1)).Nodup) (h : compactRows g rows = .ok g') :
    CatalogRows Stored g' A ∧ Upgraded g' g := by
  induction rows generalizing g with
  | nil =>
    obtain rfl := Except.ok.inj h
    exact ⟨hwf, rfl, fun _ => Or.inl rfl⟩
  | cons x rest ih =>
    obtain ⟨d, row⟩ := x
    obtain ⟨document, hdecode, h⟩ := bind_ok.mp h
    have hget : g.catalog.get d = some row := hrows _ List.mem_cons_self
    obtain ⟨stored, hstored, hlink, hid⟩ := hwf.stored d row hget
    -- only a legacy row decodes, and it decodes to its own document
    obtain rfl : row = legacyRow stored := by
      rcases hstored with rfl | rfl
      · cases hdecode
      · rfl
    obtain rfl : stored = document := Except.ok.inj hdecode
    rw [List.map_cons, List.nodup_cons] at hnodup
    have hnext : CatalogRows Stored
        { g with catalog := g.catalog.insert d (compactRow stored) } A := by
      refine ⟨fun d' row' hget' => ?_, fun j row' hj hget' => ?_⟩
      · simp only [Table.get_insert] at hget'
        split_ifs at hget' with hd
        · obtain rfl := Option.some.inj hget'
          rw [hd]
          exact ⟨stored, Or.inl rfl, hlink, hid⟩
        · exact hwf.stored d' row' hget'
      · simp only [Table.get_insert] at hget'
        split_ifs at hget' with hd
        · obtain rfl := Option.some.inj hget'
          exact hwf.link j (legacyRow stored) hj (by rw [hd]; exact hget)
        · exact hwf.link j row' hj hget'
    have hrest : ∀ y ∈ rest, (g.catalog.insert d (compactRow stored)).get y.1 = some y.2 := by
      intro y hy
      have hne : y.1 ≠ d := fun he => hnodup.1 (he ▸ List.mem_map.mpr ⟨y, hy, rfl⟩)
      rw [Table.get_insert_ne _ _ hne]
      exact hrows y (List.mem_cons_of_mem _ hy)
    obtain ⟨hrows', hframe, hlater⟩ := ih hnext hrest hnodup.2 h
    refine ⟨hrows', ?_, fun d' => ?_⟩
    · have hback : g = { g with catalog := g.catalog } := rfl
      rw [hback]
      exact congrArg (fun x : FilesystemGraph => { x with catalog := g.catalog }) hframe
    · have hthere := hlater d'
      simp only [Table.get_insert] at hthere
      split_ifs at hthere with hd
      · subst hd
        rcases hthere with hsame | ⟨document, hcompact, hlegacy⟩
        · exact Or.inr ⟨stored, hsame.symm, hget⟩
        · have hpath := congrArg CatalogRow.projectionPath (Option.some.inj hlegacy)
          cases hpath
      · exact hthere

omit [CaseMapping] in
theorem Represented.compactLegacyDesiredPayloadsBounded (hrep : Represented g) {k n : Nat}
    {more : Bool} (h : compactLegacyDesiredPayloadsBounded g k = .ok (g', n, more)) :
    Represented g' ∧ Upgraded g' g := by
  simp only [Graph.compactLegacyDesiredPayloadsBounded, guard_ok, bind_ok] at h
  obtain ⟨-, g₁, hcompact, heq⟩ := h
  obtain ⟨rfl, -⟩ := Prod.mk.inj (Except.ok.inj heq)
  have hnodup : ((((g.catalog.select fun _ row => row.projectionPath.isNone).take k)).map
      (·.1)).Nodup := by
    rw [List.map_take]
    exact (Table.select_keys_nodup _ _).sublist (List.take_sublist _ _)
  obtain ⟨hcatalog, hupgraded⟩ := hrep.catalog.compactRows
    (fun x hx => (Table.mem_select.mp (List.mem_of_mem_take hx)).1) hnodup hcompact
  refine ⟨?_, hupgraded⟩
  have hframe : g₁ = { g with catalog := g₁.catalog } := by rw [hupgraded.frame]
  rw [hframe] at hcatalog ⊢
  exact ⟨⟨hrep.names.objectVolume, hrep.names.linkObject, hrep.names.linkParent, hrep.names.slots⟩,
    ⟨hrep.queues.pathJob, hrep.queues.volumeJob, hrep.queues.session⟩, hcatalog⟩

omit [CaseMapping] in
theorem Represented.of_same (hrep : Represented g) (h : SameDesired g g') : Represented g' := by
  rw [h]
  exact ⟨⟨hrep.names.objectVolume, hrep.names.linkObject, hrep.names.linkParent, hrep.names.slots⟩,
    ⟨hrep.queues.pathJob, hrep.queues.volumeJob, hrep.queues.session⟩,
    ⟨hrep.catalog.stored, hrep.catalog.link⟩⟩

theorem Represented.run {op : GraphOp} (hrep : Represented g) (h : op.run g = .ok g') :
    Represented g' := by
  have htransacts : ∀ {mode}, Transacts True mode g g' → Represented g' := hrep.of_transacts
  cases op with
  | applyBatch batch =>
    obtain ⟨summary, h⟩ := map_fst_ok.mp h
    exact htransacts (applyBatchWithOutboxMode_transacts (Or.inl trivial) h)
  | applyRebuildableBatch batch =>
    obtain ⟨summary, h⟩ := map_fst_ok.mp h
    exact htransacts (applyBatchWithOutboxMode_transacts (Or.inl trivial) h)
  | beginObservationScan descriptor m reason =>
    obtain ⟨session, h⟩ := map_fst_ok.mp h
    have htrans : Transacts True .durable g g' := beginObservationScan_transacts h
    exact htransacts htrans
  | applyObservationScanPage v events =>
    obtain ⟨summary, h⟩ := map_fst_ok.mp h
    exact htransacts (applyObservationScanPage_transacts h)
  | stageObservationCheckpoint v checkpoint =>
    have htrans : Transacts True .durable g g' := stageObservationCheckpoint_transacts hrep.queues h
    exact htransacts htrans
  | finalizeObservationScan v k =>
    obtain ⟨summary, h⟩ := map_fst_ok.mp h
    exact htransacts (finalizeObservationScan_transacts hrep.queues h)
  | refreshProjectionPaths k =>
    obtain ⟨summary, h⟩ := map_fst_ok.mp h
    exact htransacts (refreshProjectionPaths_transacts h)
  | refreshVolumeProjection k =>
    obtain ⟨summary, h⟩ := map_fst_ok.mp h
    exact hrep.refreshVolumeProjection h
  | acknowledgeProjection consumer sequence generation =>
    obtain ⟨-, -, -, -, rfl⟩ := acknowledgeProjection_ok.mp h
    exact hrep.of_same rfl
  | resetProjectionConsumer consumer =>
    obtain rfl := Except.ok.inj h
    exact hrep.of_same rfl
  | pruneConsumedOutbox =>
    obtain rfl := Except.ok.inj h
    exact hrep.of_same pruneConsumedOutbox_same
  | pruneRebuildableOutboxBounded k allow =>
    obtain ⟨summary, h⟩ := map_fst_ok.mp h
    exact hrep.of_same (pruneRebuildableOutboxBounded_same h)
  | completeRefreshJob id =>
    obtain rfl := Except.ok.inj h
    have htrans : Transacts True .durable g _ := completeRefreshJob_transacts id
    exact hrep.of_transacts htrans
  | compactLegacyDesiredPayloadsBounded k =>
    obtain ⟨⟨n, more⟩, h⟩ := map_fst_ok.mp h
    exact (hrep.compactLegacyDesiredPayloadsBounded h).1

/-- A sync met a link without object or an object without volume. -/
def GraphError.Dangling (e : GraphError) : Prop :=
  e = .invariant "catalog link references a missing object" ∨
    e = .invariant "catalog object references a missing volume"

instance (e : GraphError) : Decidable e.Dangling := inferInstanceAs (Decidable (_ ∨ _))

section Errors

variable {gen : Nat}

omit [CaseMapping] in
theorem checkedSucc_avoids (value : Nat) (field : String) :
    Avoids GraphError.Dangling (checkedSucc value field) :=
  avoids_ite (fun _ => avoids_error (by simp [GraphError.Dangling])) fun _ => avoids_ok _

omit [CaseMapping] in
theorem isDirectory_avoids (g : FilesystemGraph) (o : FileKey) :
    Avoids GraphError.Dangling (isDirectory g o) := by
  unfold isDirectory
  cases g.objects.get o with
  | none => exact avoids_error (by decide)
  | some row => exact avoids_ok _

omit [CaseMapping] in
theorem removeLinkInternal_avoids (g : FilesystemGraph) (id : FileLinkId) (o : FileKey)
    (refresh : Bool) : Avoids GraphError.Dangling (removeLinkInternal g id o gen refresh) := by
  unfold removeLinkInternal
  cases g.links.get id with
  | none => exact avoids_ok _
  | some existing =>
    refine avoids_ite (fun _ => avoids_error (by decide)) fun _ => ?_
    refine (isDirectory_avoids g o).bind fun directory _ => ?_
    exact avoids_ite (fun _ => avoids_ok _) fun _ => avoids_ok _

omit [CaseMapping] in
theorem removeStaleLinks_avoids (g : FilesystemGraph) (stale : List (FileLinkId × FileKey)) :
    Avoids GraphError.Dangling (removeStaleLinks g gen stale) := by
  induction stale generalizing g with
  | nil => exact avoids_ok _
  | cons x rest ih => exact (removeLinkInternal_avoids g x.1 x.2 false).bind fun _ _ => ih _

omit [CaseMapping] in
theorem upsertLink_avoids (g : FilesystemGraph) (link : FileLinkSnapshot) (boundary : Bool) :
    Avoids GraphError.Dangling (upsertLink g link boundary gen) := by
  refine avoids_ite (fun _ => avoids_error (by decide)) fun _ => ?_
  refine (removeStaleLinks_avoids g _).bind fun g₁ _ => ?_
  refine Avoids.bind ?_ fun x _ => ?_
  · unfold refreshMovedDirectory
    cases g₁.links.get link.fileLinkId with
    | none => exact avoids_ok _
    | some existing =>
      refine avoids_ite (fun _ => avoids_error (by decide)) fun _ => avoids_ite (fun _ => ?_) fun _ =>
        avoids_ok _
      refine (isDirectory_avoids g₁ _).bind fun directory _ => ?_
      exact avoids_ite (fun _ => avoids_ok _) fun _ => avoids_ok _
  · exact avoids_ite (fun _ => avoids_error (by decide)) fun _ => avoids_ok _

omit [CaseMapping] in
theorem applyMutation_avoids (g : FilesystemGraph) (m : GraphMutation) :
    Avoids GraphError.Dangling (applyMutation g m gen) := by
  cases m with
  | upsertVolume descriptor => exact avoids_ok _
  | setVolumeState v state =>
    simp only [applyMutation, setVolumeState]
    cases g.volumes.get v with
    | none => exact avoids_error (by decide)
    | some row => exact avoids_ok _
  | requireReconciliation v reason =>
    simp only [applyMutation, requireReconciliation]
    cases g.volumes.get v with
    | none => exact avoids_error (by decide)
    | some row => exact avoids_ok _
  | upsertObject object =>
    refine Avoids.bind ?_ fun _ _ => avoids_ok _
    exact avoids_ite (fun _ => avoids_error (by decide)) fun _ =>
      avoids_ite (fun _ => avoids_error (by decide)) fun _ => avoids_ok _
  | upsertLink link boundary => exact upsertLink_avoids g link boundary
  | removeLink id object => exact removeLinkInternal_avoids g id object true
  | tombstoneObject object =>
    refine Avoids.bind ?_ fun _ _ => avoids_ok _
    exact avoids_ite (fun _ => avoids_error (by decide)) fun _ =>
      avoids_ite (fun _ => avoids_error (by decide)) fun _ => avoids_ok _

omit [CaseMapping] in
theorem applyMutations_avoids (g : FilesystemGraph) (affected : LinkSet) (ms : List GraphMutation) :
    Avoids GraphError.Dangling (applyMutations gen g affected ms) := by
  induction ms generalizing g affected with
  | nil => exact avoids_ok _
  | cons m ms ih =>
    exact (applyMutation_avoids g m).bind fun x _ => (ih _ _).bind fun _ _ => avoids_ok _

omit [CaseMapping] in
theorem validate_avoids (batch : GraphMutationBatch) : Avoids GraphError.Dangling batch.validate := by
  have hone : ∀ (m : GraphMutation) v, Avoids GraphError.Dangling (validateMutationVolume m v) := by
    intro m v
    have hsame : ∀ actual : VolumeId, Avoids GraphError.Dangling
        (if actual ≠ v then .error (.invalidBatch "mutation volume does not match batch volume")
          else .ok () : GraphResult Unit) := fun _ =>
      avoids_ite (fun _ => avoids_error (by decide)) fun _ => avoids_ok _
    cases m with
    | upsertLink link boundary =>
      unfold validateMutationVolume
      dsimp only
      split_ifs
      · exact avoids_error (by decide)
      · exact hsame _
    | upsertVolume | setVolumeState | requireReconciliation | upsertObject | removeLink
    | tombstoneObject => exact hsame _
  refine avoids_ite (fun _ => avoids_error (by simp [GraphError.Dangling])) fun _ => ?_
  induction batch.mutations with
  | nil => exact avoids_ok _
  | cons m ms ih => exact (hone m _).bind fun _ _ => ih

theorem Represented.syncLinks_avoids {A : Set FileLinkId} (hn : NamespaceWF g)
    (hc : CatalogRows Stored g A) (ids : List FileLinkId) :
    Avoids GraphError.Dangling (Graph.syncLinks g gen mode ids) := by
  obtain ⟨g₁, n, h⟩ := hc.syncLinks_total layout_stored hn gen mode ids
  rw [h]
  exact avoids_ok _

theorem Represented.applyBatch_avoids (hrep : Represented g) (batch : GraphMutationBatch) :
    Avoids GraphError.Dangling (applyBatchWithOutboxMode g batch mode) := by
  refine (validate_avoids batch).bind fun _ hvalid => ?_
  refine avoids_ite (fun _ => avoids_error (by decide)) fun _ => ?_
  refine (checkedSucc_avoids _ _).bind fun generation hgen => ?_
  refine (applyMutations_avoids g .empty batch.mutations).bind fun x hx => ?_
  obtain ⟨g₁, affected, jobs⟩ := x
  obtain ⟨-, hms⟩ := validate_ok.mp hvalid
  obtain ⟨-, rfl⟩ := checkedSucc_ok.mp hgen
  have hch : Changes True batch.volumeId (currentGeneration g batch.volumeId + 1) mode
      (g, ∅) (g₁, affected.members) := batchMutations_changes hms (Or.inl trivial) hx
  refine (Represented.syncLinks_avoids (hch.names hrep.names)
    (hch.catalogRows layout_stored hrep.catalog) _).bind fun _ _ => ?_
  exact avoids_ite (fun _ => avoids_error (by decide)) fun _ => avoids_ok _

theorem Represented.sweepLinkRows_avoids (hrep : Represented g) (v : VolumeId)
    (rows : List (FileLinkId × LinkRow)) : Avoids GraphError.Dangling (sweepLinkRows gen g rows) := by
  induction rows generalizing g with
  | nil => exact avoids_ok _
  | cons x rest ih =>
    obtain ⟨id, row⟩ := x
    refine (removeLinkInternal_avoids g id row.objectKey false).bind fun x hx => ?_
    obtain ⟨g₁, n⟩ := x
    have hdrop : Changes True v gen .durable (g, ∅) (g₁, ∅ ∪ {id}) := removeLinkInternal_changes hx
    obtain ⟨hnames, hqueues, hcatalog⟩ :=
      Represented.of_changes hdrop ⟨hrep.names, hrep.queues, hrep.catalog⟩
    obtain ⟨g₂, n₂, hsync⟩ := hcatalog.sync_total layout_stored hnames id gen .durable
    dsimp only
    rw [hsync]
    exact (avoids_ok (g₂, n₂)).bind fun y hy => by
      obtain rfl := Except.ok.inj hy
      exact ih (hrep.sweepRow hx hsync)

omit [CaseMapping] in
theorem finalizationGeneration_avoids (g : FilesystemGraph) (v : VolumeId) :
    Avoids GraphError.Dangling (finalizationGeneration g v) := by
  unfold finalizationGeneration
  cases g.volumes.get v with
  | none => exact avoids_error (by decide)
  | some volume => exact checkedSucc_avoids _ _

theorem Represented.finalize_avoids (hrep : Represented g) (v : VolumeId) (k : Nat) :
    Avoids GraphError.Dangling (finalizeObservationScan g v k) := by
  refine avoids_ite (fun _ => avoids_ok _) fun _ => ?_
  cases g.sessions.get v with
  | none => exact avoids_error (by decide)
  | some session =>
    dsimp only
    cases session.phase with
    | scanning => exact avoids_error (by decide)
    | sweepingLinks staged =>
      refine (finalizationGeneration_avoids g v).bind fun generation _ => ?_
      refine Avoids.bind ?_ fun _ _ => avoids_ok _
      refine (hrep.sweepLinkRows_avoids v _).bind fun _ _ => ?_
      exact avoids_ite (fun _ => avoids_ok _) fun _ => avoids_ok _
    | sweepingObjects staged =>
      refine (finalizationGeneration_avoids g v).bind fun generation _ => ?_
      exact avoids_ite (fun _ => avoids_ok _) fun _ => avoids_ok _

omit [CaseMapping] in
theorem map_fst_avoids {α β : Type} {x : GraphResult (α × β)} (h : Avoids GraphError.Dangling x) :
    Avoids GraphError.Dangling ((·.1) <$> x) := by
  cases x with
  | error e => exact avoids_error (h e rfl)
  | ok a => exact avoids_ok _

/-- No write fails over a missing object or volume. -/
theorem Represented.run_avoids (hrep : Represented g) (op : GraphOp) :
    Avoids GraphError.Dangling (op.run g) := by
  cases op with
  | applyBatch batch => exact map_fst_avoids (hrep.applyBatch_avoids batch)
  | applyRebuildableBatch batch => exact map_fst_avoids (hrep.applyBatch_avoids batch)
  | beginObservationScan descriptor m reason =>
    exact map_fst_avoids ((checkedSucc_avoids _ _).bind fun _ _ => avoids_ok _)
  | applyObservationScanPage v events =>
    refine map_fst_avoids ?_
    unfold applyObservationScanPage
    cases observationSession g v with
    | none => exact avoids_error (by decide)
    | some session =>
      exact avoids_ite (fun _ => avoids_error (by decide)) fun _ => avoids_ite (fun _ => avoids_ok _)
        fun _ => hrep.applyBatch_avoids _
  | stageObservationCheckpoint v checkpoint =>
    refine avoids_ite (fun _ => avoids_error (by decide)) fun _ => ?_
    split
    · exact avoids_ok _
    · exact avoids_error (by decide)
  | finalizeObservationScan v k => exact map_fst_avoids (hrep.finalize_avoids v k)
  | refreshProjectionPaths k =>
    refine map_fst_avoids (avoids_ite (fun _ => avoids_ok _) fun _ => ?_)
    cases nextPathJob g with
    | none => exact avoids_ok _
    | some x =>
      dsimp only
      cases g.volumes.get x.2.rootObject.volumeId with
      | none => exact avoids_error (by decide)
      | some volume =>
        exact (Represented.syncLinks_avoids hrep.names hrep.catalog _).bind fun _ _ => avoids_ok _
  | refreshVolumeProjection k =>
    refine map_fst_avoids (avoids_ite (fun _ => avoids_ok _) fun _ => ?_)
    cases nextVolumeJob g with
    | none => exact avoids_ok _
    | some x =>
      dsimp only
      cases g.volumes.get x.1 with
      | none => exact avoids_error (by decide)
      | some volume =>
        exact (Represented.syncLinks_avoids hrep.names hrep.catalog _).bind fun _ _ => avoids_ok _
  | acknowledgeProjection consumer sequence generation =>
    exact avoids_ite (fun _ => avoids_error (by decide)) fun _ =>
      avoids_ite (fun _ => avoids_error (by decide)) fun _ =>
      avoids_ite (fun _ => avoids_error (by decide)) fun _ =>
      avoids_ite (fun _ => avoids_error (by decide)) fun _ => avoids_ok _
  | resetProjectionConsumer consumer => exact avoids_ok _
  | pruneConsumedOutbox => exact avoids_ok _
  | pruneRebuildableOutboxBounded k allow =>
    refine map_fst_avoids (avoids_ite (fun _ => avoids_error (by decide)) fun _ => ?_)
    split
    · exact avoids_ok _
    · exact avoids_ok _
  | completeRefreshJob id => exact avoids_ok _
  | compactLegacyDesiredPayloadsBounded k =>
    refine map_fst_avoids (avoids_ite (fun _ => avoids_error (by decide)) fun _ => ?_)
    refine Avoids.bind ?_ fun _ _ => avoids_ok _
    generalize (g.catalog.select fun _ row => row.projectionPath.isNone).take k = legacy
    clear hrep
    induction legacy generalizing g with
    | nil => exact avoids_ok _
    | cons x rest ih =>
      refine Avoids.bind ?_ fun document _ => ih
      cases x.2.documentJson with
      | none => exact avoids_error (by decide)
      | some document => exact avoids_ok _

end Errors

omit [CaseMapping] in
/-- Every desired row joins. -/
theorem Represented.joined [CaseMapping] (hrep : Represented g) {d : DocumentId} {row : CatalogRow}
    (hrow : g.catalog.get d = some row) : (joinedDocument g d row).isSome := by
  obtain ⟨document, hstored, hlink, -⟩ := hrep.catalog.stored d row hrow
  obtain ⟨hobject, hid⟩ := layout_stored.identity document row hstored
  obtain ⟨link, hget, hkey⟩ :=
    hrep.catalog.link (linkOfDocument d) row (Set.notMem_empty _) (by simpa using hrow)
  obtain ⟨object, hobj, -⟩ := hrep.names.linkObject _ link hget
  obtain ⟨volume, hvol⟩ := Option.isSome_iff_exists.mp (hrep.names.objectVolume _ _ hobj)
  rw [hkey] at hobj hvol
  rw [hlink] at hid
  simp [joinedDocument, hid, hget, hobj, hvol]

/-- In every state reached by accepted writes, from an empty database or from
one of the older layout: links name live objects, every desired row belongs to
its link and the link's object, names are unique in their directory or volume,
objects lie on known volumes, no write fails over a missing object or volume,
and reading desired state drops no row. -/
theorem representation_holds {g₀ : FilesystemGraph}
    (hstart : g₀ = .empty ∨ ∃ g, Reachable g ∧ Upgraded g g₀)
    (hrun : Relation.ReflTransGen (Step fun _ _ => True) g₀ g) :
    (∀ id link, g.links.get id = some link → ∃ object, g.objects.get link.objectKey = some object ∧
        object.tombstoned = false) ∧
      (∀ d row, g.catalog.get d = some row → documentIdForLink row.fileLinkId = d ∧
        ∃ link, g.links.get row.fileLinkId = some link ∧ link.objectKey = row.objectKey) ∧
      (∀ id id' link link', g.links.get id = some link → g.links.get id' = some link' →
        link.name = link'.name → link.parentKey = link'.parentKey →
        (link.parentKey = none → link.objectKey.volumeId = link'.objectKey.volumeId) → id = id') ∧
      (∀ key object, g.objects.get key = some object → (g.volumes.get key.volumeId).isSome) ∧
      (∀ (op : GraphOp) e, op.run g = .error e →
        e ≠ .invariant "catalog link references a missing object" ∧
          e ≠ .invariant "catalog object references a missing volume") ∧
      (joinedRows g none).length = g.catalog.rows.length := by
  have hrep : Represented g := by
    induction hrun with
    | refl =>
      rcases hstart with rfl | ⟨old, hreachable, hupgraded⟩
      · exact represented_empty
      · exact (Represented.of_wellFormed hreachable.wellFormed).upgraded hupgraded
    | tail _ hstep ih =>
      obtain ⟨op, -, hop⟩ := hstep
      exact ih.run hop
  refine ⟨hrep.names.linkObject, fun d row hrow => ?_, fun id id' link link' hl hl' hname hparent hroot =>
    hrep.names.slots id id' link link' hl hl' ⟨hname, hparent, hroot⟩, hrep.names.objectVolume,
    fun op e he => not_or.mp (hrep.run_avoids op e he), ?_⟩
  · obtain ⟨document, hstored, hlink, -⟩ := hrep.catalog.stored d row hrow
    have hid : row.fileLinkId = linkOfDocument d :=
      ((layout_stored.identity document row hstored).2).trans hlink
    rw [hid]
    exact ⟨rfl, hrep.catalog.link (linkOfDocument d) row (Set.notMem_empty _) (by simpa using hrow)⟩
  · have hall : g.catalog.select (fun id _ => decide (Table.After none id)) = g.catalog.rows :=
      List.filter_eq_self.mpr fun _ _ => decide_eq_true (Table.after_none _)
    rw [joinedRows, hall, List.length_filterMap_eq_countP, List.countP_eq_length]
    exact fun x hx => hrep.joined (Table.mem_rows.mp hx)

end Runs

section Example

attribute [local instance] asciiCaseMapping

/-- The row of one document as an older version left it. -/
def withLegacyRow (g : FilesystemGraph) (document : CatalogDocument) : FilesystemGraph :=
  { g with catalog := g.catalog.insert document.identity.documentId (legacyRow document) }

theorem upgraded_withLegacyRow {g : FilesystemGraph} {document : CatalogDocument}
    (h : g.catalog.get document.identity.documentId = some (compactRow document)) :
    Upgraded g (withLegacyRow g document) := by
  refine ⟨rfl, fun d => ?_⟩
  simp only [withLegacyRow, Table.get_insert]
  split_ifs with hd
  · rw [hd]
    exact Or.inr ⟨document, h, rfl⟩
  · exact Or.inl rfl

def compactSampleGraph : FilesystemGraph :=
  (runOps .empty [.applyBatch (sampleBatch sampleTree)]).toOption.getD .empty

def sampleDocuments : List CatalogDocument :=
  (desiredCatalogDocuments compactSampleGraph).toOption.getD []

/-- The sample tree with its first row in the older layout. -/
def legacySampleGraph : FilesystemGraph :=
  (sampleDocuments.head?.map (withLegacyRow compactSampleGraph)).getD .empty

/-- The directory is renamed, then the older row compacted. -/
def legacySample : List GraphOp :=
  [.applyBatch (sampleBatch [.upsertLink (sampleLink 8 2 (some 1) "e") false]),
    .compactLegacyDesiredPayloadsBounded 1]

def legacySampleEnd : FilesystemGraph :=
  (runOps legacySampleGraph legacySample).toOption.getD .empty

theorem compactSample_run :
    runOps .empty [.applyBatch (sampleBatch sampleTree)] = .ok compactSampleGraph := by
  decide

theorem legacySample_run : runOps legacySampleGraph legacySample = .ok legacySampleEnd := by
  decide

theorem legacySample_represented :
    (legacySampleGraph.catalog.select fun _ row => row.projectionPath.isNone).length = 1 ∧
      (joinedRows legacySampleEnd none).length = legacySampleEnd.catalog.rows.length := by
  refine ⟨by decide, ?_⟩
  have hfirst : ∀ document ∈ sampleDocuments.head?,
      compactSampleGraph.catalog.get document.identity.documentId = some (compactRow document) := by
    decide
  have hstart : ∃ g, Reachable g ∧ Upgraded g legacySampleGraph := by
    refine ⟨_, runOps_steps (fun _ _ _ => trivial) compactSample_run, ?_⟩
    cases hhead : sampleDocuments.head? with
    | none => exact absurd hhead (by decide)
    | some document =>
      simp only [legacySampleGraph, hhead]
      exact upgraded_withLegacyRow (hfirst document (by rw [hhead]; rfl))
  exact (representation_holds (Or.inr hstart)
    (runOps_steps (fun _ _ _ => trivial) legacySample_run)).2.2.2.2.2

end Example

end LocalSearch.Graph
