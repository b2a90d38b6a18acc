import LocalSearch.Graph.PathRefresh

/-!
# Convergence of desired paths

Runs of batches and refresh calls in which every batch settles the links it
moves. Whenever the path queue of such a run is empty, documents carry the
paths their links resolve to. The two concrete runs show what happens
otherwise: a directory renamed again while its own job is under way, and a
directory whose link arrives after the links below it.
-/
namespace LocalSearch.Graph

set_option autoImplicit false

open Core Lib

/-- The document carries the path its link resolves to. -/
def CarriesPath (g : FilesystemGraph) (document : CatalogDocument) : Prop :=
  desiredPath g document.identity.fileLinkId = some document.resolvedPath

instance (g : FilesystemGraph) (document : CatalogDocument) : Decidable (CarriesPath g document) :=
  inferInstanceAs (Decidable (_ = _))

/-- A stored path is the desired one; a missing one may be anything. -/
def CarriedBy (stored desired : Option String) : Prop := ∀ path, stored = some path → desired = some path

theorem covered_false {g : FilesystemGraph} (h : nextPathJob g = none) (v : VolumeId)
    (id : FileLinkId) : ¬ Covered g v id := by
  rintro ⟨n, job, hjob, hpending, -⟩
  rw [nextPathJob, List.head?_eq_none_iff] at h
  have hmem : (n, job) ∈ g.pathJobs.select fun _ row => row.state == .pending :=
    Table.mem_select.mpr ⟨hjob, beq_iff_eq.mpr hpending⟩
  rw [h] at hmem
  cases hmem

theorem Below.exists_child {g : FilesystemGraph} {o : FileKey} {id : FileLinkId} (h : Below g o id) :
    ∃ x ∈ g.links.rows, x.2.parentKey = some o := by
  induction h with
  | child h hp => exact ⟨_, Table.mem_rows.mpr h, hp⟩
  | step _ _ _ _ ih => exact ih

/-- The objects whose links the mutation changes hold nothing. -/
def TouchesLeaves (g : FilesystemGraph) (m : GraphMutation) : Prop :=
  ∀ o ∈ touchedObjects g m, ∀ x ∈ g.links.rows, x.2.parentKey ≠ some o

instance (g : FilesystemGraph) (m : GraphMutation) : Decidable (TouchesLeaves g m) :=
  inferInstanceAs (Decidable (∀ o ∈ touchedObjects g m, _))

theorem TouchesLeaves.settles {V : Set VolumeId} {A : Set FileLinkId} {g : FilesystemGraph} {m : GraphMutation}
    (h : TouchesLeaves g m) : Settles V A g m := by
  intro o ho id row _ hbelow
  obtain ⟨x, hx, hp⟩ := hbelow.exists_child
  exact absurd hp (h o ho x hx)

section Runs

variable [CaseMapping] {g g' : FilesystemGraph}

theorem Desired.storedPath (hwf : WellFormed g) {document : CatalogDocument}
    (h : Desired g document) :
    storedPath g document.identity.fileLinkId = some document.resolvedPath := by
  obtain ⟨hid, -⟩ := h.link hwf
  obtain ⟨row, hrow, hjoin⟩ := h
  obtain ⟨stored, link, object, volume, rfl, -, -, -, -, hview⟩ := joinedDocument_view hwf hrow
  rw [hview] at hjoin
  have hpath := congrArg (·.resolvedPath) (Except.ok.inj (Option.some.inj hjoin))
  rw [Graph.storedPath, ← hid, hrow, ← hpath]
  rfl

/-- Settling batches of the volume and path refreshes. -/
def MoveStep (v : VolumeId) (op : GraphOp) (g : FilesystemGraph) : Prop :=
  match op with
  | .applyBatch batch => batch.volumeId = v ∧ BatchSettles ∅ g v batch.mutations
  | .refreshProjectionPaths _ => True
  | _ => False

theorem pathInvariant_moves {v : VolumeId} {g₀ : FilesystemGraph} (hwf : WellFormed g₀)
    (hinv : PathInvariant CarriedBy {v} g₀ ∅)
    (h : Relation.ReflTransGen (Step (MoveStep v)) g₀ g) :
    WellFormed g ∧ PathInvariant CarriedBy {v} g ∅ := by
  have hQ : ∀ p, CarriedBy p p := fun _ _ h => h
  induction h with
  | refl => exact ⟨hwf, hinv⟩
  | tail _ hstep ih =>
    refine ⟨hstep.wellFormed ih.1, ?_⟩
    obtain ⟨op, hop, hrun⟩ := hstep
    cases op with
    | applyBatch batch =>
      obtain ⟨summary, hbatch⟩ := map_fst_ok.mp hrun
      obtain ⟨rfl, hset⟩ := hop
      obtain ⟨-, affected, -, -, hinv'⟩ := pathInvariant_batch hQ ih.1 ih.2 hset hbatch
      exact hinv'.mono Set.sdiff_subset
    | refreshProjectionPaths k =>
      obtain ⟨summary, hcall⟩ := map_fst_ok.mp hrun
      exact pathInvariant_refreshPaths hQ ih.1 ih.2 hcall
    | applyRebuildableBatch | beginObservationScan | applyObservationScanPage
    | stageObservationCheckpoint | finalizeObservationScan | refreshVolumeProjection
    | acknowledgeProjection | resetProjectionConsumer | pruneConsumedOutbox
    | pruneRebuildableOutboxBounded | completeRefreshJob | compactLegacyDesiredPayloadsBounded =>
      exact hop.elim

/-- Start with right paths on the volume and let every batch settle what it
moves: whenever the path queue is empty the documents of the volume carry the
paths of their links. -/
theorem directory_moves_converge {v : VolumeId} {g₀ : FilesystemGraph} (hreach : Reachable g₀)
    (hstart : ∀ documents, desiredCatalogDocuments g₀ = .ok documents → ∀ document ∈ documents,
      document.identity.objectKey.volumeId = v → CarriesPath g₀ document)
    (hrun : Relation.ReflTransGen (Step (MoveStep v)) g₀ g) (hidle : nextPathJob g = none) :
    ∃ documents, desiredCatalogDocuments g = .ok documents ∧ ∀ document ∈ documents,
      document.identity.objectKey.volumeId = v → CarriesPath g document := by
  have hwf₀ := hreach.wellFormed
  obtain ⟨documents₀, hdocs₀, -, hmem₀⟩ := desiredCatalogDocuments_ok hwf₀
  have hinv₀ : PathInvariant CarriedBy {v} g₀ ∅ := by
    intro id row _ hrow hv
    refine Or.inl fun path hpath => ?_
    rcases desiredCatalogDocument_cases hwf₀ (documentIdForLink id) with ⟨hnone, -⟩ |
      ⟨document, -, hdesired, hid⟩
    · rw [storedPath, hnone] at hpath
      cases hpath
    · obtain ⟨hid', lrow, hlrow, hkey⟩ := hdesired.link hwf₀
      obtain rfl : id = document.identity.fileLinkId :=
        documentIdForLink_injective (hid.symm.trans hid')
      obtain rfl : lrow = row := Option.some.inj (hlrow.symm.trans hrow)
      have hcarries := hstart documents₀ hdocs₀ document ((hmem₀ document).mpr hdesired)
        (hkey ▸ Set.mem_singleton_iff.mp hv)
      rw [hdesired.storedPath hwf₀] at hpath
      rw [← hpath]
      exact hcarries
  obtain ⟨hwf, hinv⟩ := pathInvariant_moves hwf₀ hinv₀ hrun
  obtain ⟨documents, hdocs, -, hmem⟩ := desiredCatalogDocuments_ok hwf
  refine ⟨documents, hdocs, fun document hdoc hv => ?_⟩
  have hdesired := (hmem document).mp hdoc
  obtain ⟨-, row, hrow, hkey⟩ := hdesired.link hwf
  have hcase := hinv document.identity.fileLinkId row (Set.notMem_empty _) hrow (hkey ▸ hv)
  exact hcase.resolve_right (covered_false hidle _ _) _ (hdesired.storedPath hwf)

/-- Both refresh queues are empty. -/
def Drained (g : FilesystemGraph) : Prop := nextPathJob g = none ∧ nextVolumeJob g = none

/-- Settling batches on drained states, and refreshes. -/
def DrainedStep (op : GraphOp) (g : FilesystemGraph) : Prop :=
  match op with
  | .applyBatch batch | .applyRebuildableBatch batch => Drained g ∧
      BatchSettles ∅ g batch.volumeId batch.mutations
  | .refreshProjectionPaths _ | .refreshVolumeProjection _ => True
  | _ => False

omit [CaseMapping] in
theorem applyMutations_sessions {ms : List GraphMutation} {affected affected' : LinkSet} {gen n : Nat}
    (h : applyMutations gen g affected ms = .ok (g', affected', n)) : g'.sessions = g.sessions := by
  rw [applyMutations_frame h]

/-- What a run without scans keeps. -/
structure DrainInvariant (g : FilesystemGraph) : Prop where
  wellFormed : WellFormed g
  sessions : g.sessions = .empty
  paths : PathInvariant Eq Set.univ g ∅

omit [CaseMapping] in
theorem drainInvariant_empty : DrainInvariant .empty :=
  ⟨wellFormed_empty, rfl, fun _ _ _ h => (nomatch h)⟩

theorem DrainInvariant.batch {batch : GraphMutationBatch} {mode : ProjectionOutboxMode}
    {summary : ApplySummary} (hinv : DrainInvariant g) (hset : BatchSettles ∅ g batch.volumeId batch.mutations)
    (h : applyBatchWithOutboxMode g batch mode = .ok (g', summary)) : DrainInvariant g' := by
  have hwf' : WellFormed g' := wellFormed_of_transacts (R := True)
    (applyBatchWithOutboxMode_transacts (Or.inl trivial) h) hinv.wellFormed
  have hcut : scanCutoff g batch.volumeId = none := by rw [scanCutoff, hinv.sessions]; rfl
  obtain ⟨-, affected, -, -, hself⟩ := pathInvariant_batch (Q := Eq) (fun _ => rfl) hinv.wellFormed
    (fun id row hid hrow _ => hinv.paths id row hid hrow trivial) hset h
  have hother := pathInvariant_batch_other (Q := Eq) (fun _ => rfl) hinv.wellFormed
    (fun id row hid hrow _ => hinv.paths id row hid hrow trivial) hcut h
  refine ⟨hwf', ?_, fun id row hid hrow _ => ?_⟩
  · obtain ⟨-, -, -, -, g₁, g₂, affected, jobs, appended, h₁, h₂, -, rfl⟩ :=
      applyBatchWithOutboxMode_ok h
    have hsame : g₂.sessions = g₁.sessions := by rw [syncLinks_frame h₂]
    exact (hsame.trans (applyMutations_sessions h₁)).trans hinv.sessions
  · by_cases hv : row.objectKey.volumeId = batch.volumeId
    · exact hself id row (fun hA => hid hA.1) hrow hv
    · exact hother id row hid hrow hv

theorem DrainInvariant.of_run (h : Relation.ReflTransGen (Step DrainedStep) .empty g) :
    DrainInvariant g := by
  induction h with
  | refl => exact drainInvariant_empty
  | @tail g₁ g₂ _ hstep ih =>
    have hwf := hstep.wellFormed ih.wellFormed
    obtain ⟨op, hop, hrun⟩ := hstep
    cases op with
    | applyBatch batch | applyRebuildableBatch batch =>
      obtain ⟨summary, hbatch⟩ := map_fst_ok.mp hrun
      exact ih.batch hop.2 hbatch
    | refreshProjectionPaths k | refreshVolumeProjection k =>
      have hrefresh : Step RefreshStep g₁ g₂ := ⟨_, by trivial, hrun⟩
      refine ⟨hwf, ?_, pathInvariant_refresh (fun _ => rfl) ih.wellFormed ih.paths hrefresh⟩
      rw [refreshStep_frame hrefresh]
      exact ih.sessions
    | beginObservationScan | applyObservationScanPage | stageObservationCheckpoint
    | finalizeObservationScan | acknowledgeProjection | resetProjectionConsumer
    | pruneConsumedOutbox | pruneRebuildableOutboxBounded | completeRefreshJob
    | compactLegacyDesiredPayloadsBounded => exact hop.elim

/-- In a drained state of a settling run a link has a desired document exactly
when it resolves, and the document carries that path. -/
theorem drained_documents_resolve (hrun : Relation.ReflTransGen (Step DrainedStep) .empty g)
    (hdrained : Drained g) (id : FileLinkId) :
    ((∃ document, desiredCatalogDocument g (documentIdForLink id) = .ok (some document)) ↔
      ∃ path, resolvePath g id projectionDepth = .ok path) ∧
    ∀ document path, desiredCatalogDocument g (documentIdForLink id) = .ok (some document) →
      resolvePath g id projectionDepth = .ok path → document.resolvedPath = displayPath path := by
  have hinv := DrainInvariant.of_run hrun
  -- the stored path is the resolved one, link or no link
  have hpaths : storedPath g id = desiredPath g id := by
    cases hrow : g.links.get id with
    | some row =>
      have hcase := hinv.paths id row (Set.notMem_empty _) hrow trivial
      exact hcase.resolve_right (covered_false hdrained.1 _ _)
    | none =>
      have hnodoc : g.catalog.get (documentIdForLink id) = none := by
        cases hdoc : g.catalog.get (documentIdForLink id) with
        | none => rfl
        | some crow =>
          obtain ⟨link, hlink, -⟩ := hinv.wellFormed.catalog.link id crow (Set.notMem_empty _) hdoc
          rw [hrow] at hlink
          cases hlink
      have hload : loadLink g id = none := by rw [loadLink, hrow]; rfl
      have hresolve : resolvePath g id projectionDepth = .error (.linkNotFound id) := by
        rw [resolvePath, if_neg (by decide), hload]
      rw [storedPath, hnodoc, desiredPath, hresolve]
      rfl
  rcases desiredCatalogDocument_cases hinv.wellFormed (documentIdForLink id) with
    ⟨hnone, hread⟩ | ⟨document, hread, hdesired, hid⟩
  · have hunresolved : ∀ path, resolvePath g id projectionDepth ≠ .ok path := by
      intro path hpath
      rw [storedPath, hnone, desiredPath, hpath] at hpaths
      cases hpaths
    rw [hread]
    refine ⟨⟨?_, ?_⟩, fun _ _ h => by cases h⟩
    · rintro ⟨_, h⟩
      cases h
    · rintro ⟨path, h⟩
      exact absurd h (hunresolved path)
  · obtain ⟨hid', -⟩ := hdesired.link hinv.wellFormed
    obtain rfl : id = document.identity.fileLinkId :=
      documentIdForLink_injective (hid.symm.trans hid')
    rw [hdesired.storedPath hinv.wellFormed, desiredPath] at hpaths
    cases hpath : resolvePath g document.identity.fileLinkId projectionDepth with
    | error e => rw [hpath] at hpaths; cases hpaths
    | ok path =>
      rw [hpath] at hpaths
      refine ⟨⟨fun _ => ⟨path, rfl⟩, fun _ => ⟨document, hread⟩⟩, fun document' path' hdoc hpath' => ?_⟩
      obtain rfl := Option.some.inj (Except.ok.inj (hread.symm.trans hdoc))
      obtain rfl := Except.ok.inj hpath'
      exact Option.some.inj hpaths

end Runs

section Example

attribute [local instance] asciiCaseMapping

def sampleTreeGraph : FilesystemGraph :=
  (runOps .empty [.applyBatch (sampleBatch sampleTree)]).toOption.getD .empty

theorem sampleTree_run : runOps .empty [.applyBatch (sampleBatch sampleTree)] = .ok sampleTreeGraph := by
  decide

/-- Every stored link resolves. -/
def EveryLinkResolves (g : FilesystemGraph) : Prop :=
  ∀ x ∈ g.links.rows, (desiredPath g x.1).isSome

instance (g : FilesystemGraph) : Decidable (EveryLinkResolves g) :=
  inferInstanceAs (Decidable (∀ x ∈ g.links.rows, _))

/-- No object has two links and no link is a traversal boundary. -/
def PlainLinks (g : FilesystemGraph) : Prop :=
  (g.links.rows.map (·.2.objectKey)).Nodup ∧ ∀ x ∈ g.links.rows, x.2.traversalBoundary = false

instance (g : FilesystemGraph) : Decidable (PlainLinks g) :=
  inferInstanceAs (Decidable (_ ∧ _))

/-- The documents of the state, when they can be read, carry their paths. -/
def CatalogCarriesPaths (g : FilesystemGraph) : Prop :=
  ∃ documents ∈ (desiredCatalogDocuments g).toOption, ∀ document ∈ documents, CarriesPath g document

instance (g : FilesystemGraph) : Decidable (CatalogCarriesPaths g) :=
  inferInstanceAs (Decidable (∃ documents ∈ (desiredCatalogDocuments g).toOption, _))

def renameDirectory (name : String) : GraphMutation :=
  .upsertLink (sampleLink 8 2 (some 1) name) false

/-- The directory is renamed again when its own job has passed the first file. -/
def renamedTwice : List GraphOp :=
  [.applyBatch (sampleBatch [renameDirectory "x"]), .refreshProjectionPaths 1,
    .applyBatch (sampleBatch [renameDirectory "y"]), .refreshProjectionPaths 10]

def renamedTwiceGraph : FilesystemGraph := (runOps sampleTreeGraph renamedTwice).toOption.getD .empty

theorem renamedTwice_stale :
    Reachable sampleTreeGraph ∧ EveryLinkResolves sampleTreeGraph ∧ PlainLinks sampleTreeGraph ∧
      CatalogCarriesPaths sampleTreeGraph ∧
      runOps sampleTreeGraph renamedTwice = .ok renamedTwiceGraph ∧
      EveryLinkResolves renamedTwiceGraph ∧ PlainLinks renamedTwiceGraph ∧
      nextPathJob renamedTwiceGraph = none ∧ ¬ CatalogCarriesPaths renamedTwiceGraph := by
  refine ⟨runOps_steps (fun _ _ _ => trivial) sampleTree_run, ?_⟩
  decide

def renamedOnceGraph : FilesystemGraph :=
  (runOps sampleTreeGraph (renamedTwice.take 2)).toOption.getD .empty

/-- The root is renamed while the directory's job is under way. -/
def renamedRoot : List GraphOp :=
  [.applyBatch (sampleBatch [.upsertLink (sampleLink 9 1 none "D:") false]),
    .refreshProjectionPaths 10, .refreshProjectionPaths 10]

def renamedRootGraph : FilesystemGraph := (runOps renamedOnceGraph renamedRoot).toOption.getD .empty

theorem renameDirectory_settles :
    BatchSettles ∅ sampleTreeGraph sampleVolume [renameDirectory "x"] :=
  .inr (.inl (.inl ⟨⟨⟨sampleKey 2, some (sampleKey 1), "d", false, 1⟩, by decide⟩,
    ⟨⟨⟨.directory, 0, none, none, false, .online⟩, false, 1⟩, by decide⟩, by decide⟩))

theorem renameRoot_settles :
    BatchSettles ∅ renamedOnceGraph sampleVolume [.upsertLink (sampleLink 9 1 none "D:") false] :=
  .inr (.inl (.inl ⟨⟨⟨sampleKey 1, none, "C:", false, 1⟩, by decide⟩,
    ⟨⟨⟨.directory, 0, none, none, false, .online⟩, false, 1⟩, by decide⟩, by decide⟩))

theorem renamedRoot_steps :
    Relation.ReflTransGen (Step (MoveStep sampleVolume)) sampleTreeGraph renamedRootGraph := by
  have hfirst : runOps sampleTreeGraph (renamedTwice.take 2) = .ok renamedOnceGraph := by
    decide
  have hsecond : runOps renamedOnceGraph renamedRoot = .ok renamedRootGraph := by decide
  obtain ⟨g₁, h₁, hrest⟩ := bind_ok.mp hfirst
  obtain ⟨g₂, h₂, hrest⟩ := bind_ok.mp hrest
  obtain rfl := Except.ok.inj hrest
  obtain ⟨g₃, h₃, hrest⟩ := bind_ok.mp hsecond
  refine .head ⟨.applyBatch (sampleBatch [renameDirectory "x"]), ⟨rfl, renameDirectory_settles⟩, h₁⟩ ?_
  refine .head ⟨.refreshProjectionPaths 1, trivial, h₂⟩ ?_
  refine .head ⟨.applyBatch (sampleBatch [.upsertLink (sampleLink 9 1 none "D:") false]),
    ⟨rfl, renameRoot_settles⟩, h₃⟩ (runOps_steps (fun op hop g => ?_) hrest)
  simp only [List.mem_cons, List.not_mem_nil, or_false, or_self] at hop
  subst hop
  trivial

theorem renamedRoot_converges :
    (desiredCatalogDocuments renamedRootGraph).toOption.map (·.map (·.resolvedPath)) =
        some ["D:/x/a", "D:/x/b", "D:/x", "D:"] ∧
      ∃ documents, desiredCatalogDocuments renamedRootGraph = .ok documents ∧
        ∀ document ∈ documents, document.identity.objectKey.volumeId = sampleVolume →
          CarriesPath renamedRootGraph document := by
  have hstart : CatalogCarriesPaths sampleTreeGraph := by decide
  obtain ⟨documents, hdocs, hcarries⟩ := hstart
  refine ⟨by decide, directory_moves_converge (runOps_steps (fun _ _ _ => trivial) sampleTree_run)
    (fun documents' hdocs' document hmem _ => hcarries document ?_) renamedRoot_steps
    (by decide)⟩
  rw [hdocs'] at hdocs
  obtain rfl := Option.some.inj hdocs
  exact hmem

/-- A file is linked below a directory before the directory itself is linked. -/
def childFirst : List GraphOp :=
  [.applyBatch (sampleBatch [.upsertVolume sampleDescriptor,
      .upsertObject (sampleObject 1 .directory), .upsertObject (sampleObject 3 .file),
      .upsertLink (sampleLink 1 3 (some 1) "a") false]),
    .applyBatch (sampleBatch [.upsertLink (sampleLink 9 1 none "C:") false])]

def childFirstGraph (n : Nat) : FilesystemGraph :=
  (runOps .empty (childFirst.take n)).toOption.getD .empty

instance (g : FilesystemGraph) : Decidable (Drained g) := inferInstanceAs (Decidable (_ ∧ _))

/-- No job was ever queued, the file resolves, and it has no document. -/
theorem childFirst_undocumented :
    runOps .empty (childFirst.take 1) = .ok (childFirstGraph 1) ∧ Drained (childFirstGraph 1) ∧
      runOps .empty childFirst = .ok (childFirstGraph 2) ∧ Drained (childFirstGraph 2) ∧
      (resolvePath (childFirstGraph 2) (.fromU128 1) projectionDepth).toOption.map displayPath =
        some "C:/a" ∧
      desiredCatalogDocument (childFirstGraph 2) (documentIdForLink (.fromU128 1)) = .ok none := by
  decide

/-- The sample tree, then the directory renamed and refreshed. -/
def drainedSample : List GraphOp :=
  [.applyBatch (sampleBatch [renameDirectory "x"]), .refreshProjectionPaths 10]

def drainedSampleGraph : FilesystemGraph :=
  (runOps sampleTreeGraph drainedSample).toOption.getD .empty

theorem sampleTree_settles : BatchSettles ∅ .empty sampleVolume sampleTree := by
  have hleaves : EachMutation TouchesLeaves 1 .empty sampleTree := by decide
  exact .inr (.inr fun _ _ _ _ => hleaves.imp fun _ _ => TouchesLeaves.settles)

theorem drainedSample_steps :
    Relation.ReflTransGen (Step DrainedStep) .empty drainedSampleGraph := by
  have hidle : Drained sampleTreeGraph := by decide
  have hrun : runOps sampleTreeGraph drainedSample = .ok drainedSampleGraph := by decide
  obtain ⟨g₀, h₀, hend⟩ := bind_ok.mp sampleTree_run
  obtain rfl := Except.ok.inj hend
  obtain ⟨g₁, h₁, hrest⟩ := bind_ok.mp hrun
  obtain ⟨g₂, h₂, hend⟩ := bind_ok.mp hrest
  obtain rfl := Except.ok.inj hend
  refine .head ⟨.applyBatch (sampleBatch sampleTree), ⟨by decide, sampleTree_settles⟩, h₀⟩ ?_
  refine .head ⟨.applyBatch (sampleBatch [renameDirectory "x"]), ⟨hidle, renameDirectory_settles⟩, h₁⟩ ?_
  exact .single ⟨.refreshProjectionPaths 10, trivial, h₂⟩

theorem drainedSample_resolves :
    desiredPath drainedSampleGraph (.fromU128 1) = some "C:/x/a" ∧
      ((∃ document, desiredCatalogDocument drainedSampleGraph (documentIdForLink (.fromU128 1)) =
          .ok (some document)) ↔
        ∃ path, resolvePath drainedSampleGraph (.fromU128 1) projectionDepth = .ok path) ∧
      ∀ document path, desiredCatalogDocument drainedSampleGraph (documentIdForLink (.fromU128 1)) =
          .ok (some document) →
        resolvePath drainedSampleGraph (.fromU128 1) projectionDepth = .ok path →
        document.resolvedPath = displayPath path := by
  refine ⟨by decide, drained_documents_resolve drainedSample_steps ?_ _⟩
  decide

end Example

end LocalSearch.Graph
