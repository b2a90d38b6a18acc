import LocalSearch.Graph.Compaction

/-!
# Runs with compactions in between

Calls of the compaction, of any bounds and at any points, change neither what a
run appends to the outbox nor, once no volume refresh is pending, the documents
a reader sees, as long as no stored availability was out of date to begin with.
-/
namespace LocalSearch.Graph

set_option autoImplicit false

open Core Lib

section Runs

variable [CaseMapping] {g g' g₀ : FilesystemGraph}

/-- The state a write leaves: an error commits nothing. -/
def GraphOp.commit (op : GraphOp) (g : FilesystemGraph) : FilesystemGraph :=
  (op.run g).toOption.getD g

/-- Writes one after another, accepted or not. -/
def commits : FilesystemGraph → List GraphOp → FilesystemGraph
  | g, [] => g
  | g, op :: ops => commits (op.commit g) ops

/-- What the writes append to the outbox, with its sequences. -/
def appendedRows : FilesystemGraph → List GraphOp → List (Nat × OutboxRow)
  | _, [] => []
  | g, op :: ops => outboxAfter (op.commit g) (highWater g) ++ appendedRows (op.commit g) ops

/-- Every `UpsertVolume` of the run finds its volume new or online. -/
def OpensVolumes : FilesystemGraph → List GraphOp → Prop
  | _, [] => True
  | g, op :: ops => op.OpensVolumes g ∧ OpensVolumes (op.commit g) ops

/-- The second run is the first with compactions of any bounds in between. -/
inductive WithCompactions : List GraphOp → List GraphOp → Prop where
  | nil : WithCompactions [] []
  | same (op : GraphOp) {ops ops' : List GraphOp} (rest : WithCompactions ops ops') :
      WithCompactions (op :: ops) (op :: ops')
  | compaction (maximumRows : Nat) {ops ops' : List GraphOp} (rest : WithCompactions ops ops') :
      WithCompactions ops (.compactLegacyDesiredPayloadsBounded maximumRows :: ops')

theorem commit_cases (op : GraphOp) (g : FilesystemGraph) :
    op.commit g = g ∨ op.run g = .ok (op.commit g) := by
  unfold GraphOp.commit
  cases op.run g with
  | error e => exact Or.inl rfl
  | ok g₁ => exact Or.inr rfl

omit [CaseMapping] in
theorem Upgraded.compacted_same (h : Upgraded g g₀) : compacted g₀ = compacted g := by
  have hcatalog : (compacted g₀).catalog = (compacted g).catalog := by
    refine Table.ext_get fun d => ?_
    rw [compacted_get, compacted_get]
    rcases h.rows d with hsame | ⟨document, hcompact, hlegacy⟩
    · rw [hsame]
    · rw [hcompact, hlegacy]
      rfl
  calc compacted g₀ = { g with catalog := (compacted g₀).catalog } := by rw [compacted, h.frame]
    _ = compacted g := by rw [hcatalog]; rfl

omit [CaseMapping] in
/-- Databases of one image differ in the layout of their rows at most. -/
theorem frame_of_image (h : compacted g' = compacted g) : g' = { g with catalog := g'.catalog } :=
  calc g' = { compacted g' with catalog := g'.catalog } := rfl
    _ = { compacted g with catalog := g'.catalog } := by rw [h]
    _ = { g with catalog := g'.catalog } := rfl

theorem commit_compacted (hrep : Represented g) {op : GraphOp} (hop : ¬ op.Compacts) :
    op.commit (compacted g) = compacted (op.commit g) := by
  unfold GraphOp.commit
  rw [run_compacted hrep hop]
  cases op.run g <;> rfl

theorem compaction_commit (hrep : Represented g) {op : GraphOp} (hop : op.Compacts) :
    compacted (op.commit g) = compacted g := by
  cases op with
  | compactLegacyDesiredPayloadsBounded k =>
    rcases commit_cases (.compactLegacyDesiredPayloadsBounded k) g with hsame | hrun
    · rw [hsame]
    · obtain ⟨⟨n, more⟩, hrun⟩ := map_fst_ok.mp hrun
      exact (hrep.compactLegacyDesiredPayloadsBounded hrun).2.compacted_same.symm
  | applyBatch | applyRebuildableBatch | beginObservationScan | applyObservationScanPage
  | stageObservationCheckpoint | finalizeObservationScan | refreshProjectionPaths
  | refreshVolumeProjection | acknowledgeProjection | resetProjectionConsumer | pruneConsumedOutbox
  | pruneRebuildableOutboxBounded | completeRefreshJob => exact hop.elim

theorem Represented.commit (hrep : Represented g) (op : GraphOp) : Represented (op.commit g) := by
  rcases commit_cases op g with hsame | hrun
  · rw [hsame]
    exact hrep
  · exact hrep.run hrun

/-- Writes on databases of one image leave databases of one image. -/
theorem commit_image (hrep : Represented g) (hrep' : Represented g')
    (hsame : compacted g' = compacted g) (op : GraphOp) :
    compacted (op.commit g') = compacted (op.commit g) := by
  by_cases hop : op.Compacts
  · rw [compaction_commit hrep' hop, compaction_commit hrep hop, hsame]
  · rw [← commit_compacted hrep' hop, ← commit_compacted hrep hop, hsame]

theorem mirrors_of_run {op : GraphOp} (hwf : WellFormed g) (hm : Mirrors g ∅)
    (h : op.run g = .ok g') : Mirrors g' ∅ := by
  rcases GraphOp.run_cases (R := True) (Or.inl trivial) hwf h with ⟨mode, ht⟩ | hsame
  · exact mirrors_of_transacts ht hwf hm
  · rw [hsame]
    exact hm

theorem converging_of_run {op : GraphOp} (hopen : op.OpensVolumes g) (hwf : WellFormed g)
    (hc : Converging g ∅) (h : op.run g = .ok g') : Converging g' ∅ := by
  rcases GraphOp.run_cases (R := False) (Or.inr hopen) hwf h with ⟨mode, ht⟩ | hsame
  · exact converging_of_transacts ht hwf hc
  · rw [hsame]
    exact hc

theorem Reachable.mirrors (h : Reachable g) : Mirrors g ∅ := by
  induction h with
  | refl => exact fun _ _ _ _ _ h => (nomatch h)
  | tail hrun hstep ih =>
    obtain ⟨op, -, hop⟩ := hstep
    exact mirrors_of_run (Reachable.wellFormed hrun) ih hop

/-- States reached by writes whose `UpsertVolume`s met new or online volumes. -/
def OpenHistory (g : FilesystemGraph) : Prop :=
  Relation.ReflTransGen (Step fun op g => op.OpensVolumes g) .empty g

theorem OpenHistory.converging (h : OpenHistory g) : Converging g ∅ := by
  have hboth : WellFormed g ∧ Converging g ∅ := by
    induction h with
    | refl => exact ⟨wellFormed_empty, fun _ _ _ h => (nomatch h)⟩
    | tail _ hstep ih =>
      obtain ⟨op, hopen, hrun⟩ := hstep
      exact ⟨wellFormed_of_run ih.1 hrun, converging_of_run hopen ih.1 ih.2 hrun⟩
  exact hboth.2

/-- A database that may hold older rows, with an image in order. -/
structure Sound (g : FilesystemGraph) : Prop where
  represented : Represented g
  image : WellFormed (compacted g)
  outbox : OutboxWF g
  mirrors : Mirrors (compacted g) ∅

theorem sound_upgraded (hg : Reachable g) (h : Upgraded g g₀) : Sound g₀ := by
  have himage : compacted g₀ = g := h.compacted_eq hg.wellFormed
  have hout : OutboxWF (compacted g₀) := by
    rw [himage]
    exact hg.outboxWF
  exact ⟨(Represented.of_wellFormed hg.wellFormed).upgraded h, by rw [himage]; exact hg.wellFormed,
    ⟨hout.rows, hout.consumers⟩, by rw [himage]; exact hg.mirrors⟩

theorem Sound.commit (h : Sound g) (op : GraphOp) : Sound (op.commit g) := by
  by_cases hop : op.Compacts
  · have himage := compaction_commit h.represented hop
    have hout : OutboxWF (compacted (op.commit g)) := by
      rw [himage]
      exact ⟨h.outbox.rows, h.outbox.consumers⟩
    exact ⟨h.represented.commit op, by rw [himage]; exact h.image, ⟨hout.rows, hout.consumers⟩,
      by rw [himage]; exact h.mirrors⟩
  · rcases commit_cases op g with hsame | hrun
    · rw [hsame]
      exact h
    · have himage : op.run (compacted g) = .ok (compacted (op.commit g)) := by
        rw [run_compacted h.represented hop, hrun]
        rfl
      have hout := outboxWF_of_run h.image ⟨h.outbox.rows, h.outbox.consumers⟩ himage
      exact ⟨h.represented.commit op, wellFormed_of_run h.image himage,
        ⟨hout.rows, hout.consumers⟩, mirrors_of_run h.image h.mirrors himage⟩

omit [CaseMapping] in
theorem eachMutation_compacted {gen : Nat} {ms : List GraphMutation}
    (h : EachMutation OpensVolume gen g ms) : EachMutation OpensVolume gen (compacted g) ms := by
  induction ms generalizing g with
  | nil => trivial
  | cons m ms ih =>
    refine ⟨?_, fun g₁ jobs hrun => ?_⟩
    · cases m <;> exact h.1
    · rw [applyMutation_compacted] at hrun
      cases happly : applyMutation g m gen with
      | error e =>
        rw [happly] at hrun
        cases hrun
      | ok x =>
        rw [happly] at hrun
        obtain ⟨rfl, -⟩ := Prod.mk.inj (Except.ok.inj hrun)
        exact ih (h.2 x.1 x.2 happly)

theorem converging_commit (h : Sound g) {op : GraphOp} (hopen : op.OpensVolumes g)
    (hc : Converging (compacted g) ∅) : Converging (compacted (op.commit g)) ∅ := by
  by_cases hop : op.Compacts
  · rw [compaction_commit h.represented hop]
    exact hc
  · rcases commit_cases op g with hsame | hrun
    · rw [hsame]
      exact hc
    · have himage : op.run (compacted g) = .ok (compacted (op.commit g)) := by
        rw [run_compacted h.represented hop, hrun]
        rfl
      have hopen' : op.OpensVolumes (compacted g) := by
        cases op with
        | applyBatch batch => exact eachMutation_compacted hopen
        | applyRebuildableBatch batch => exact eachMutation_compacted hopen
        | beginObservationScan | applyObservationScanPage | stageObservationCheckpoint
        | finalizeObservationScan | refreshProjectionPaths | refreshVolumeProjection
        | acknowledgeProjection | resetProjectionConsumer | pruneConsumedOutbox
        | pruneRebuildableOutboxBounded | completeRefreshJob
        | compactLegacyDesiredPayloadsBounded => trivial
      exact converging_of_run hopen' h.image hc himage

omit [CaseMapping] in
theorem not_pending_of_nextVolumeJob (h : nextVolumeJob g = none) {v : VolumeId} {job : VolumeJobRow}
    (hjob : g.volumeJobs.get v = some job) : job.state ≠ .pending := by
  intro hpending
  rw [nextVolumeJob, List.head?_eq_none_iff] at h
  have hmem : (v, job) ∈ g.volumeJobs.select fun _ row => row.state == .pending :=
    Table.mem_select.mpr ⟨hjob, beq_iff_eq.mpr hpending⟩
  rw [h] at hmem
  cases hmem

/-- With nothing pending an older payload is the document its row joins to. -/
theorem joinedDocument_compacted (h : Sound g) (hc : Converging (compacted g) ∅)
    (hidle : nextVolumeJob g = none) {d : DocumentId} {row : CatalogRow}
    (hrow : g.catalog.get d = some row) :
    joinedDocument (compacted g) d row.compacted = joinedDocument g d row := by
  obtain ⟨document, hstored, -⟩ := h.represented.catalog.stored d row hrow
  rcases hstored with rfl | rfl
  · rfl
  · have hrow' : (compacted g).catalog.get d = some (compactRow document) := by
      rw [compacted_get, hrow]
      rfl
    obtain ⟨stored, link, object, volume, hsame, hident, hlink, hobject, hvolume, hview⟩ :=
      joinedDocument_view h.image hrow'
    obtain rfl := compactRow_injective hsame
    have hreports : ReportsAvailability (compacted g) (compactRow document) := by
      rcases hc (linkOfDocument d) _ (Set.notMem_empty _) (by simpa using hrow') with
        hreports | ⟨job, hjob, hpending, -⟩
      · exact hreports
      · exact absurd hpending (not_pending_of_nextVolumeJob hidle hjob)
    have hdesired : Desired (compacted g) (viewDocument d document link object volume) :=
      ⟨_, hrow', hview⟩
    have hcurrent : document = viewDocument d document link object volume :=
      compactRow_injective (hdesired.compactRow_eq h.image h.mirrors hrow' hreports)
    have hkey : document.identity.objectKey = link.objectKey := by rw [hident]
    have hid : document.identity.fileLinkId = linkOfDocument d := by rw [hident]
    have hread : joinedDocument g d (legacyRow document) = some (.ok document) := by
      have hlink' : g.links.get (linkOfDocument d) = some link := hlink
      have hobject' : g.objects.get link.objectKey = some object := hobject
      have hvolume' : g.volumes.get link.objectKey.volumeId = some volume := hvolume
      simp [joinedDocument, legacyRow, hid, hkey, hlink', hobject', hvolume', intoDocument,
        decodeLegacy]
    rw [CatalogRow.compacted_legacyRow, hview, hread, ← hcurrent]

theorem desiredCatalogDocuments_compacted (h : Sound g) (hc : Converging (compacted g) ∅)
    (hidle : nextVolumeJob g = none) :
    desiredCatalogDocuments (compacted g) = desiredCatalogDocuments g := by
  have hselect := compacted_select g (fun d _ => decide (Table.After none d)) fun _ _ => rfl
  have hrows : joinedRows (compacted g) none = joinedRows g none := by
    rw [joinedRows, joinedRows, hselect, List.filterMap_map]
    refine List.filterMap_congr fun x hx => ?_
    exact joinedDocument_compacted h hc hidle (Table.mem_select.mp hx).1
  rw [desiredCatalogDocuments, desiredCatalogDocuments, hrows]

theorem compactions_image {ops ops' : List GraphOp} (hops : WithCompactions ops ops')
    (h : Sound g) (h' : Sound g') (hsame : compacted g' = compacted g) :
    Sound (commits g ops) ∧ Sound (commits g' ops') ∧
      compacted (commits g' ops') = compacted (commits g ops) ∧
      appendedRows g' ops' = appendedRows g ops := by
  induction hops generalizing g g' with
  | nil => exact ⟨h, h', hsame, rfl⟩
  | same op rest ih =>
    have himage := commit_image h.represented h'.represented hsame op
    obtain ⟨hend, hend', hends, hrows⟩ := ih (h.commit op) (h'.commit op) himage
    refine ⟨hend, hend', hends, ?_⟩
    have hhead : outboxAfter (op.commit g') (highWater g') =
        outboxAfter (op.commit g) (highWater g) := by
      have hafter : (op.commit g').outbox = (op.commit g).outbox := by rw [frame_of_image himage]
      have hmark : g'.sqliteSequence = g.sqliteSequence := by rw [frame_of_image hsame]
      rw [outboxAfter, outboxAfter, highWater, highWater, hafter, hmark]
    rw [appendedRows, appendedRows, hhead, hrows]
  | @compaction k ops ops' rest ih =>
    set op : GraphOp := .compactLegacyDesiredPayloadsBounded k with hop
    have himage : compacted (op.commit g') = compacted g' :=
      compaction_commit h'.represented trivial
    obtain ⟨hend, hend', hends, hrows⟩ := ih h (h'.commit op) (himage.trans hsame)
    refine ⟨hend, hend', hends, ?_⟩
    have hnothing : outboxAfter (op.commit g') (highWater g') = [] := by
      have hafter : (op.commit g').outbox = g'.outbox := by rw [frame_of_image himage]
      have hempty := outboxAfter_highWater h'.outbox
      rw [outboxAfter] at hempty ⊢
      rw [hafter, hempty]
    rw [appendedRows, hnothing, List.nil_append, hrows]

theorem converging_commits {ops : List GraphOp} (h : Sound g) (hopen : OpensVolumes g ops)
    (hc : Converging (compacted g) ∅) : Converging (compacted (commits g ops)) ∅ := by
  induction ops generalizing g with
  | nil => exact hc
  | cons op ops ih => exact ih (h.commit op) hopen.2 (converging_commit h hopen.1 hc)

/-- From every database with older rows: a run and the run with compactions in
between append the same rows and hold the same outbox, and the documents agree
while no volume refresh is pending, where the run and what came before it reopen
no volume behind the back of its documents. -/
theorem compactions_invisible {ops ops' : List GraphOp} (hg : Reachable g) (hold : Upgraded g g₀)
    (hops : WithCompactions ops ops') :
    appendedRows g₀ ops' = appendedRows g₀ ops ∧
      (commits g₀ ops').outbox = (commits g₀ ops).outbox ∧
      (OpenHistory g ∨ Converging g ∅ → OpensVolumes g₀ ops →
        nextVolumeJob (commits g₀ ops) = none →
        desiredCatalogDocuments (commits g₀ ops') = desiredCatalogDocuments (commits g₀ ops)) := by
  have h := sound_upgraded hg hold
  obtain ⟨hend, hend', himage, hrows⟩ := compactions_image hops h h rfl
  refine ⟨hrows, by rw [frame_of_image himage], fun hstart hopen hidle => ?_⟩
  have hc : Converging (compacted g₀) ∅ := by
    rw [hold.compacted_eq hg.wellFormed]
    exact hstart.elim OpenHistory.converging id
  have hc' := converging_commits h hopen hc
  have hidle' : nextVolumeJob (commits g₀ ops') = none := by
    have hjobs : (commits g₀ ops').volumeJobs = (commits g₀ ops).volumeJobs := by
      rw [frame_of_image himage]
    rw [nextVolumeJob, hjobs]
    exact hidle
  rw [← desiredCatalogDocuments_compacted hend hc' hidle,
    ← desiredCatalogDocuments_compacted hend' (himage ▸ hc') hidle', himage]

end Runs

section Example

attribute [local instance] asciiCaseMapping

theorem upgraded_elim {g : FilesystemGraph} {o : Option CatalogDocument}
    (h : ∀ document ∈ o, g.catalog.get document.identity.documentId = some (compactRow document)) :
    Upgraded g (o.elim g (withLegacyRow g)) := by
  cases o with
  | none => exact ⟨rfl, fun _ => Or.inl rfl⟩
  | some document => exact upgraded_withLegacyRow (h document rfl)

/-- The document projected last of all. -/
def lastProjected (g : FilesystemGraph) : Option CatalogDocument :=
  g.outbox.rows.getLast?.bind fun x => x.2.mutation.outcome

/-- The sample tree with one older row. -/
def olderTree : FilesystemGraph :=
  (lastProjected compactSampleGraph).elim compactSampleGraph (withLegacyRow compactSampleGraph)

/-- A file is renamed. -/
def renameFile : GraphOp := .applyBatch (sampleBatch [.upsertLink (sampleLink 2 4 (some 2) "c") false])

theorem olderTree_upgraded : Upgraded compactSampleGraph olderTree :=
  upgraded_elim (by decide)

theorem compactSample_history : OpenHistory compactSampleGraph := by
  obtain ⟨g₁, h₁, hrest⟩ := bind_ok.mp compactSample_run
  obtain rfl := Except.ok.inj hrest
  exact .single ⟨_, opensVolumes_sampleTree, h₁⟩

theorem olderTree_compactions :
    appendedRows olderTree
        [.compactLegacyDesiredPayloadsBounded 1, renameFile, .compactLegacyDesiredPayloadsBounded 9] =
      appendedRows olderTree [renameFile] ∧
    desiredCatalogDocuments (commits olderTree
        [.compactLegacyDesiredPayloadsBounded 1, renameFile, .compactLegacyDesiredPayloadsBounded 9]) =
      desiredCatalogDocuments (commits olderTree [renameFile]) := by
  have hall := compactions_invisible (g := compactSampleGraph)
    (runOps_steps (fun _ _ _ => trivial) compactSample_run) olderTree_upgraded
    (.compaction 1 (.same renameFile (.compaction 9 .nil)))
  exact ⟨hall.1, hall.2.2 (Or.inl compactSample_history) ⟨⟨trivial, fun _ _ _ => trivial⟩, trivial⟩
    (by decide)⟩

/-- The volume of the sample comes back by an upsert, which queues no pass. -/
def reopenedSample : List GraphOp :=
  offlineSample ++ [.applyBatch (sampleBatch [.upsertVolume sampleDescriptor])]

def reopenedGraph : FilesystemGraph := (runOps .empty reopenedSample).toOption.getD .empty

theorem reopenedSample_run : runOps .empty reopenedSample = .ok reopenedGraph := by
  decide

def olderReopened : FilesystemGraph :=
  (lastProjected reopenedGraph).elim reopenedGraph (withLegacyRow reopenedGraph)

theorem olderReopened_upgraded : Upgraded reopenedGraph olderReopened :=
  upgraded_elim (by decide)

/-- The older payload still says offline; once compacted it reads online. -/
theorem reopened_compaction_visible :
    ¬ ∀ (g g₀ : FilesystemGraph) (ops ops' : List GraphOp), Reachable g → Upgraded g g₀ →
        WithCompactions ops ops' → OpensVolumes g₀ ops → nextVolumeJob (commits g₀ ops) = none →
        desiredCatalogDocuments (commits g₀ ops') = desiredCatalogDocuments (commits g₀ ops) := by
  intro h
  have hsame := h reopenedGraph olderReopened [] [.compactLegacyDesiredPayloadsBounded 1]
    (runOps_steps (fun _ _ _ => trivial) reopenedSample_run) olderReopened_upgraded
    (.compaction 1 .nil) trivial (by decide)
  revert hsame
  decide

end Example

end LocalSearch.Graph
