import LocalSearch.Graph.Availability
import LocalSearch.Catalog.Projector

/-!
# Rebuilding a catalog generation beside running writers

A rebuild stages the desired documents page by page, commits them, reads the
newest outbox sequence and registers the generation there. Writers go on in
between. Only what they append past that sequence reaches the new generation,
so whatever a page has already passed must not change before the sequence is
read. A page also shows the current volume state where the stored row may still
have the former one, and a later refresh compares with the stored row.
-/
namespace LocalSearch.Catalog

set_option autoImplicit false

open Core Lib Graph

/-- How far a rebuild is with its graph calls. -/
inductive RebuildPhase where
  | paging (after : Option DocumentId)
  | paged
  | sequenced (sequence : Nat)
  | registered
  deriving DecidableEq, Repr

/-- The pages have passed the document. -/
def RebuildPhase.Covers : RebuildPhase → DocumentId → Prop
  | .paging after, d => ¬ Table.After after d
  | _, _ => True

/-- The sequence of the generation is not read yet. -/
def RebuildPhase.Unsequenced : RebuildPhase → Prop
  | .paging _ | .paged => True
  | _ => False

structure RebuildState where
  graph : FilesystemGraph
  staged : List CatalogDocument
  phase : RebuildPhase

section Rebuild

variable [CaseMapping]

/-- One turn of the page loop: the next cursor, the staged documents and whether
the loop ends. -/
def readPage (g : FilesystemGraph) (limit : Nat) (after : Option DocumentId)
    (staged : List CatalogDocument) :
    Except ProjectionWorkerError (Option DocumentId × List CatalogDocument × Bool) := do
  let documents ← (desiredCatalogPage g after limit).mapError .graph
  if documents.isEmpty then .ok (after, staged, true)
  else do
    let staged ← (CatalogWriter.addAll staged documents).mapError .catalog
    .ok (documents.getLast?.map (·.identity.documentId), staged, decide (documents.length < limit))

/-- The graph calls of `ProjectionWorker::rebuild` up to its acknowledgement. -/
inductive RebuildStep (limit : Nat) : RebuildState → RebuildState → Prop
  | page {g : FilesystemGraph} {after after' : Option DocumentId}
      {staged staged' : List CatalogDocument}
      (hpage : readPage g limit after staged = .ok (after', staged', false)) :
      RebuildStep limit ⟨g, staged, .paging after⟩ ⟨g, staged', .paging after'⟩
  | lastPage {g : FilesystemGraph} {after after' : Option DocumentId}
      {staged staged' : List CatalogDocument}
      (hpage : readPage g limit after staged = .ok (after', staged', true)) :
      RebuildStep limit ⟨g, staged, .paging after⟩ ⟨g, staged', .paged⟩
  | sequence {g : FilesystemGraph} {staged : List CatalogDocument} :
      RebuildStep limit ⟨g, staged, .paged⟩ ⟨g, staged, .sequenced (latestOutboxSequence g)⟩

/-- The writes of ingestion: batches in both outbox modes and the two refreshes. -/
def Ingests : GraphOp → Prop
  | .applyBatch _ | .applyRebuildableBatch _ | .refreshProjectionPaths _
  | .refreshVolumeProjection _ => True
  | _ => False

def Rebuildable : GraphOp → Prop
  | .applyRebuildableBatch _ => True
  | _ => False

/-- Documents that were handed out by a page while their stored availability was
not the current one, and were not stored again since. -/
abbrev Outdated := Set DocumentId

def Outdated.kept (U : Outdated) (g g' : FilesystemGraph) : Outdated :=
  {d | d ∈ U ∧ g'.catalog.get d = g.catalog.get d}

def Outdated.handed (U : Outdated) (s s' : RebuildState) : Outdated :=
  U ∪ {d | s'.phase.Covers d ∧ ¬ s.phase.Covers d ∧
    ∃ row, s.graph.catalog.get d = some row ∧ ¬ ReportsAvailability s.graph row}

/-- A condition on a write between two states of the graph. -/
abbrev WriteCondition := RebuildPhase → Outdated → GraphOp → FilesystemGraph → FilesystemGraph → Prop

/-- A rebuild interleaved with writes that meet `C`. -/
inductive Rebuilding (limit : Nat) (C : WriteCondition) (g₀ : FilesystemGraph) :
    RebuildState → Outdated → Prop
  | start : Rebuilding limit C g₀ ⟨g₀, [], .paging none⟩ ∅
  | call {s s' : RebuildState} {U : Outdated} (hrun : Rebuilding limit C g₀ s U)
      (hstep : RebuildStep limit s s') : Rebuilding limit C g₀ s' (U.handed s s')
  | write {s : RebuildState} {U : Outdated} {g' : FilesystemGraph}
      (hrun : Rebuilding limit C g₀ s U) (op : GraphOp) (hop : Ingests op)
      (hC : C s.phase U op s.graph g') (h : op.run s.graph = .ok g') :
      Rebuilding limit C g₀ { s with graph := g' } (U.kept s.graph g')

/-- The rebuilt generation from its acknowledgement on: worker passes and writes
in any order. -/
inductive Rebuilt (consumer : String) (generation limit : Nat) (C : WriteCondition)
    (g₀ : FilesystemGraph) : ProjectionState → Outdated → Prop
  | acknowledge {g g' : FilesystemGraph} {staged : List CatalogDocument} {sequence : Nat}
      {U : Outdated} (hrun : Rebuilding limit C g₀ ⟨g, staged, .sequenced sequence⟩ U)
      (hack : acknowledgeProjection g consumer sequence generation = .ok g') :
      Rebuilt consumer generation limit C g₀ ⟨g', staged, .idle⟩ U
  | work {s s' : ProjectionState} {U : Outdated}
      (hrun : Rebuilt consumer generation limit C g₀ s U)
      (hstep : WorkerStep consumer generation (fun _ _ => False) s s') :
      Rebuilt consumer generation limit C g₀ s' U
  | write {s : ProjectionState} {U : Outdated} {g' : FilesystemGraph}
      (hrun : Rebuilt consumer generation limit C g₀ s U) (op : GraphOp)
      (hop : Ingests op) (hC : C .registered U op s.graph g')
      (h : op.run s.graph = .ok g') :
      Rebuilt consumer generation limit C g₀ { s with graph := g' } (U.kept s.graph g')

/-- Writes a rebuild survives. -/
structure Harmless (phase : RebuildPhase) (U : Outdated) (op : GraphOp) (g g' : FilesystemGraph) :
    Prop where
  opens : op.OpensVolumes g
  /-- What the pages have passed stays until the sequence is read, and until the
  generation is registered wherever no outbox row is written. -/
  passed : phase.Unsequenced ∨ Rebuildable op →
    ∀ d, phase.Covers d → g'.catalog.get d = g.catalog.get d
  /-- No stored availability becomes current again under an index that was given
  another one. -/
  outdated : ∀ d ∈ U, ∀ row, g.catalog.get d = some row → g'.catalog.get d = some row →
    ¬ ReportsAvailability g' row

/-- What all writes keep of the graph. -/
structure Ingested (g : FilesystemGraph) : Prop where
  wellFormed : WellFormed g
  outbox : OutboxWF g
  mirrors : Mirrors g ∅
  converging : Converging g ∅

/-- States reached from an empty database where every `UpsertVolume` found its
volume new or online. -/
def ReachableOpenly (g : FilesystemGraph) : Prop :=
  Relation.ReflTransGen (Step fun op g => op.OpensVolumes g) .empty g

theorem ingested_of_run {g g' : FilesystemGraph} {op : GraphOp} (hg : Ingested g)
    (hopen : op.OpensVolumes g) (h : op.run g = .ok g') : Ingested g' := by
  have hwf := wellFormed_of_run hg.wellFormed h
  have hout := outboxWF_of_run hg.wellFormed hg.outbox h
  rcases GraphOp.run_cases (R := False) (Or.inr hopen) hg.wellFormed h with ⟨mode, htrans⟩ | hsame
  · exact ⟨hwf, hout, mirrors_of_transacts htrans hg.wellFormed hg.mirrors,
      converging_of_transacts htrans hg.wellFormed hg.converging⟩
  · refine ⟨hwf, hout, ?_, ?_⟩
    · rw [hsame]
      exact hg.mirrors
    · rw [hsame]
      exact hg.converging

theorem ReachableOpenly.ingested {g : FilesystemGraph} (h : ReachableOpenly g) : Ingested g := by
  induction h with
  | refl =>
    exact ⟨wellFormed_empty, outboxWF_empty, fun _ _ _ _ _ h => (nomatch h), fun _ _ _ h => (nomatch h)⟩
  | tail _ hstep ih =>
    obtain ⟨op, hopen, hrun⟩ := hstep
    exact ingested_of_run ih hopen hrun

/-- Without a pending volume pass every stored availability is the current one. -/
theorem Ingested.reportsAvailability {g : FilesystemGraph} (hg : Ingested g)
    (hidle : nextVolumeJob g = none) {d : DocumentId} {row : CatalogRow}
    (hrow : g.catalog.get d = some row) : ReportsAvailability g row := by
  rcases hg.converging (linkOfDocument d) row (Set.notMem_empty _)
    (by rw [documentIdForLink_linkOfDocument]; exact hrow) with hr | ⟨job, hjob, hpending, -⟩
  · exact hr
  · have hmem : (row.objectKey.volumeId, job) ∈
        g.volumeJobs.select fun _ row => row.state == .pending :=
      Table.mem_select.mpr ⟨hjob, beq_iff_eq.mpr hpending⟩
    rw [List.head?_eq_none_iff.mp hidle] at hmem
    cases hmem

/-- The map describes the stored rows of the documents in `P`, apart from the
outdated ones, which are all out of date in the store as well. -/
structure Indexes (g : FilesystemGraph) (E : DocumentId → Option CatalogDocument) (U : Outdated)
    (P : DocumentId → Prop) : Prop where
  exact : ∀ d, P d → d ∉ U → g.catalog.get d = (E d).map compactRow
  outdated : ∀ d ∈ U, ∃ row, g.catalog.get d = some row ∧ ¬ ReportsAvailability g row

omit [CaseMapping] in
/-- A write moves a row together with the map, or leaves both. -/
theorem Indexes.write {g g' : FilesystemGraph} {E E' : DocumentId → Option CatalogDocument}
    {U : Outdated} {P : DocumentId → Prop} (h : Indexes g E U P)
    (hrows : ∀ d, P d → (g'.catalog.get d = g.catalog.get d ∧ E' d = E d) ∨
      g'.catalog.get d = (E' d).map compactRow)
    (hU : ∀ d ∈ U, ∀ row, g.catalog.get d = some row → g'.catalog.get d = some row →
      ¬ ReportsAvailability g' row) : Indexes g' E' (U.kept g g') P := by
  refine ⟨fun d hd hnot => ?_, fun d hd => ?_⟩
  · rcases hrows d hd with ⟨hrow, hE⟩ | hrow
    · rw [hrow, hE]
      exact h.exact d hd fun hmem => hnot ⟨hmem, hrow⟩
    · exact hrow
  · obtain ⟨hmem, hsame⟩ := hd
    obtain ⟨row, hrow, -⟩ := h.outdated d hmem
    rw [hrow] at hsame
    exact ⟨row, hsame, hU d hmem row hrow hsame⟩

omit [CaseMapping] in
theorem addAll_ok {staged staged' documents : List CatalogDocument}
    (h : CatalogWriter.addAll staged documents = .ok staged') : staged' = staged ++ documents := by
  induction documents generalizing staged with
  | nil => rw [List.append_nil]; exact (Except.ok.inj h).symm
  | cons document rest ih =>
    obtain ⟨next, hnext, hrest⟩ := bind_ok.mp h
    rw [CatalogWriter.addCurrent, guard_ok] at hnext
    obtain rfl := Except.ok.inj hnext.2
    rw [ih hrest, List.append_assoc]
    rfl

/-- A page, read and staged; the loop ends at an empty or a short page. -/
theorem readPage_ok {g : FilesystemGraph} {limit : Nat} {after after' : Option DocumentId}
    {staged staged' : List CatalogDocument} {last : Bool}
    (h : readPage g limit after staged = .ok (after', staged', last)) :
    ∃ page, desiredCatalogPage g after limit = .ok page ∧ staged' = staged ++ page ∧
      (page = [] ∧ last = true ∨
        ∃ document, page.getLast? = some document ∧ after' = some document.identity.documentId ∧
          last = decide (page.length < limit)) := by
  obtain ⟨page, hpage, h⟩ := bind_ok.mp h
  refine ⟨page, mapError_ok hpage, ?_⟩
  cases page with
  | nil =>
    obtain ⟨-, h⟩ := Prod.mk.inj (Except.ok.inj h)
    obtain ⟨rfl, rfl⟩ := Prod.mk.inj h
    exact ⟨(List.append_nil _).symm, Or.inl ⟨rfl, rfl⟩⟩
  | cons document rest =>
    obtain ⟨next, hnext, h⟩ := bind_ok.mp h
    obtain ⟨hafter, h⟩ := Prod.mk.inj (Except.ok.inj h)
    obtain ⟨rfl, rfl⟩ := Prod.mk.inj h
    refine ⟨addAll_ok (mapError_ok hnext), Or.inr ⟨(document :: rest).getLast (by simp), ?_, ?_, rfl⟩⟩
    · exact List.getLast?_eq_some_getLast _
    · rw [← hafter, List.getLast?_eq_some_getLast (by simp)]
      rfl

/-- Staging a page extends the map to the documents the page passes. -/
theorem Indexes.page {g : FilesystemGraph} {U : Outdated} {P : DocumentId → Prop} {limit : Nat}
    {after : Option DocumentId} {staged page : List CatalogDocument} (hg : Ingested g)
    (h : Indexes g (indexMap staged) U fun d => ¬ Table.After after d)
    (hstaged : ∀ document ∈ staged, ¬ Table.After after document.identity.documentId)
    (hpage : desiredCatalogPage g after limit = .ok page)
    (hP : ∀ document, Desired g document → Table.After after document.identity.documentId →
      P document.identity.documentId → document ∈ page) :
    Indexes g (indexMap (staged ++ page))
      (U ∪ {d | P d ∧ ¬¬ Table.After after d ∧
        ∃ row, g.catalog.get d = some row ∧ ¬ ReportsAvailability g row}) P := by
  obtain ⟨hsorted, hdesired, -⟩ := desiredCatalogPage_ok hg.wellFormed hpage
  have hunique : UniqueDocuments page :=
    List.pairwise_map.mpr (hsorted.imp fun hlt => ne_of_lt hlt)
  refine ⟨fun d hd hnot => ?_, ?_⟩
  · have hmap : indexMap (staged ++ page) d = (indexMap staged d).or (indexMap page d) := by
      rw [indexMap, List.find?_append]
      rfl
    by_cases ha : Table.After after d
    · have hold : indexMap staged d = none :=
        indexMap_eq_none.mpr fun document hmem he => hstaged document hmem (he ▸ ha)
      rw [hmap, hold, Option.none_or]
      cases hrow : g.catalog.get d with
      | none =>
        have hnone : indexMap page d = none := by
          refine indexMap_eq_none.mpr fun document hmem he => ?_
          obtain ⟨row, hget, -⟩ := (hdesired document hmem).2
          rw [he, hrow] at hget
          cases hget
        rw [hnone]
        rfl
      | some row =>
        obtain ⟨document, hdoc, rfl⟩ := exists_desired hg.wellFormed hrow
        have hreports : ReportsAvailability g row := by
          by_contra hstale
          exact hnot (Or.inr ⟨hd, not_not.mpr ha, row, hrow, hstale⟩)
        rw [indexMap_of_mem hunique (hP document hdoc ha hd), Option.map_some,
          hdoc.compactRow_eq hg.wellFormed hg.mirrors hrow hreports]
    · have hnew : indexMap page d = none :=
        indexMap_eq_none.mpr fun document hmem he => ha (he ▸ (hdesired document hmem).1)
      rw [hmap, hnew, Option.or_none]
      exact h.exact d ha fun hmem => hnot (Or.inl hmem)
  · rintro d (hd | ⟨-, -, row, hrow, hstale⟩)
    · exact h.outdated d hd
    · exact ⟨row, hrow, hstale⟩

theorem uniqueDocuments_page {g : FilesystemGraph} {limit : Nat} {after : Option DocumentId}
    {staged page : List CatalogDocument} (hg : Ingested g) (hunique : UniqueDocuments staged)
    (hstaged : ∀ document ∈ staged, ¬ Table.After after document.identity.documentId)
    (hpage : desiredCatalogPage g after limit = .ok page) : UniqueDocuments (staged ++ page) := by
  obtain ⟨hsorted, hdesired, -⟩ := desiredCatalogPage_ok hg.wellFormed hpage
  rw [UniqueDocuments, List.map_append, List.nodup_append]
  refine ⟨hunique, List.pairwise_map.mpr (hsorted.imp fun hlt => ne_of_lt hlt), ?_⟩
  intro a ha b hb he
  obtain ⟨x, hx, rfl⟩ := List.mem_map.mp ha
  obtain ⟨y, hy, rfl⟩ := List.mem_map.mp hb
  exact hstaged x hx (he ▸ (hdesired y hy).1)

/-- The map the new generation would serve once everything past its sequence is
applied. -/
def RebuildState.settled (s : RebuildState) : DocumentId → Option CatalogDocument :=
  match s.phase with
  | .sequenced sequence => replay (indexMap s.staged) (rowWrites (outboxAfter s.graph sequence))
  | _ => indexMap s.staged

structure RebuildInvariant (s : RebuildState) (U : Outdated) : Prop where
  graph : Ingested s.graph
  unique : UniqueDocuments s.staged
  staged : ∀ document ∈ s.staged, s.phase.Covers document.identity.documentId
  indexes : Indexes s.graph s.settled U s.phase.Covers
  sequence : ∀ sequence, s.phase = .sequenced sequence → sequence ≤ highWater s.graph
  building : s.phase ≠ .registered

theorem rebuildInvariant_call {limit : Nat} {s s' : RebuildState} {U : Outdated} (hlimit : 1 ≤ limit)
    (hinv : RebuildInvariant s U) (h : RebuildStep limit s s') :
    RebuildInvariant s' (U.handed s s') := by
  cases h with
  | @page g after after' staged staged' hread =>
    obtain ⟨page, hpage, rfl, ⟨-, hlast⟩ | ⟨document, hdoc, rfl, hlast⟩⟩ := readPage_ok hread
    · cases hlast
    · obtain ⟨hsorted, hdesired, hcovers⟩ := desiredCatalogPage_ok hinv.graph.wellFormed hpage
      have hmem : document ∈ page := List.mem_of_getLast? hdoc
      have hbound : ∀ x ∈ page, x.identity.documentId ≤ document.identity.documentId := by
        intro x hx
        obtain ⟨front, rfl⟩ := List.getLast?_eq_some_iff.mp hdoc
        rcases List.mem_append.mp hx with hx | hx
        · exact ((List.pairwise_append.mp hsorted).2.2 x hx _ (List.mem_singleton_self _)).le
        · rw [List.mem_singleton.mp hx]
      have hafter : Table.After after document.identity.documentId := (hdesired document hmem).1
      refine ⟨hinv.graph, uniqueDocuments_page hinv.graph hinv.unique hinv.staged hpage, ?_, ?_, ?_,
        nofun⟩
      · intro x hx
        change ¬ Table.After (some _) _
        rw [Table.after_some, not_lt]
        rcases List.mem_append.mp hx with hx | hx
        · by_contra hlt
          exact hinv.staged x hx fun c hc => (hafter c hc).trans (not_le.mp hlt)
        · exact hbound x hx
      · refine hinv.indexes.page hinv.graph hinv.staged hpage fun x hx ha hpassed => ?_
        rcases hcovers x hx ha with hin | ⟨-, hbeyond⟩
        · exact hin
        · exact absurd (Table.after_some.mpr (hbeyond document hmem)) hpassed
      · intro sequence hphase
        cases hphase
  | @lastPage g after after' staged staged' hread =>
    obtain ⟨page, hpage, rfl, hend⟩ := readPage_ok hread
    have hshort : page.length < limit := by
      rcases hend with ⟨rfl, -⟩ | ⟨-, -, -, hlast⟩
      · exact hlimit
      · exact of_decide_eq_true hlast.symm
    obtain ⟨-, -, hcovers⟩ := desiredCatalogPage_ok hinv.graph.wellFormed hpage
    refine ⟨hinv.graph, uniqueDocuments_page hinv.graph hinv.unique hinv.staged hpage,
      fun _ _ => trivial, ?_, ?_, nofun⟩
    · refine hinv.indexes.page hinv.graph hinv.staged hpage fun x hx ha _ => ?_
      rcases hcovers x hx ha with hin | ⟨hfull, -⟩
      · exact hin
      · omega
    · intro sequence hphase
      cases hphase
  | @sequence g staged =>
    have hhandout : U.handed ⟨g, staged, .paged⟩ ⟨g, staged, .sequenced (latestOutboxSequence g)⟩ = U := by
      refine Set.union_eq_self_of_subset_right ?_
      rintro d ⟨-, hnot, -⟩
      exact absurd trivial hnot
    have hlatest := latestOutboxSequence_eq hinv.graph.outbox
    rw [hhandout]
    refine ⟨hinv.graph, hinv.unique, fun _ _ => trivial, ?_, ?_, nofun⟩
    · have hsettled : RebuildState.settled ⟨g, staged, .sequenced (latestOutboxSequence g)⟩ =
          indexMap staged := by
        simp only [RebuildState.settled, hlatest, outboxAfter_highWater hinv.graph.outbox]
        rfl
      rw [hsettled]
      exact hinv.indexes
    · intro sequence hphase
      exact (RebuildPhase.sequenced.inj hphase ▸ hlatest).le

/-- An ingesting write is one transaction; it skips the outbox only as a
rebuildable batch without any consumer. -/
theorem Ingests.transacts {g g' : FilesystemGraph} {op : GraphOp} (hop : Ingests op)
    (hwf : WellFormed g) (h : op.run g = .ok g') :
    Transacts True .durable g g' ∨ Transacts True .rebuildable g g' ∧ Rebuildable op ∧
      projectionConsumersExist g = false := by
  by_cases hdurable : op.Durable
  · exact Or.inl (hdurable.transacts (Or.inl trivial) hwf h)
  · cases op with
    | applyRebuildableBatch batch =>
      obtain ⟨summary, h⟩ := map_fst_ok.mp h
      refine Or.inr ⟨applyBatchWithOutboxMode_transacts (Or.inl trivial) h, trivial, ?_⟩
      simp only [applyRebuildableBatch, applyBatchWithOutboxMode, bind_ok, guard_ok] at h
      obtain ⟨-, -, hconsumers, -⟩ := h
      simpa using hconsumers
    | applyBatch | refreshProjectionPaths | refreshVolumeProjection => exact absurd trivial hdurable
    | beginObservationScan | applyObservationScanPage | stageObservationCheckpoint
    | finalizeObservationScan | acknowledgeProjection | resetProjectionConsumer
    | pruneConsumedOutbox | pruneRebuildableOutboxBounded | completeRefreshJob
    | compactLegacyDesiredPayloadsBounded => exact hop.elim

theorem Ingests.outboxGrows {g g' : FilesystemGraph} {op : GraphOp} (hop : Ingests op)
    (hg : Ingested g) (h : op.run g = .ok g') : OutboxGrows g g' := by
  rcases hop.transacts hg.wellFormed h with htrans | ⟨htrans, -⟩
  · exact outboxGrows_of_transacts htrans hg.outbox
  · exact outboxGrows_of_transacts htrans hg.outbox

theorem rebuildInvariant_write {s : RebuildState} {g' : FilesystemGraph} {U : Outdated}
    {op : GraphOp} (hinv : RebuildInvariant s U) (hop : Ingests op)
    (hsafe : Harmless s.phase U op s.graph g') (h : op.run s.graph = .ok g') :
    RebuildInvariant { s with graph := g' } (U.kept s.graph g') := by
  have hgrows := hop.outboxGrows hinv.graph h
  refine ⟨ingested_of_run hinv.graph hsafe.opens h, hinv.unique, hinv.staged,
    hinv.indexes.write (fun d hd => ?_) hsafe.outdated, fun sequence hphase => ?_, hinv.building⟩
  · cases hphase : s.phase with
    | paging after =>
      refine Or.inl ⟨hsafe.passed (Or.inl (hphase ▸ trivial)) d hd, ?_⟩
      simp only [RebuildState.settled, hphase]
    | paged =>
      refine Or.inl ⟨hsafe.passed (Or.inl (hphase ▸ trivial)) d hd, ?_⟩
      simp only [RebuildState.settled, hphase]
    | registered => exact absurd hphase hinv.building
    | sequenced sequence =>
      simp only [RebuildState.settled, hphase]
      rw [hgrows.outboxAfter hinv.graph.outbox (hinv.sequence sequence hphase), rowWrites_append,
        replay_append]
      rcases hop.transacts hinv.graph.wellFormed h with htrans | ⟨htrans, hrebuildable, -⟩
      · exact followsLog_of_transacts htrans hinv.graph.outbox d
      · have hnone : outboxAfter g' (highWater s.graph) = [] := by
          rw [outboxAfter, (outbox_of_rebuildable htrans).1]
          exact outboxAfter_highWater hinv.graph.outbox
        refine Or.inl ⟨hsafe.passed (Or.inr hrebuildable) d hd, ?_⟩
        rw [hnone]
        rfl
  · exact (hinv.sequence sequence hphase).trans hgrows.mono

theorem rebuildInvariant_run {limit : Nat} {g₀ : FilesystemGraph} {s : RebuildState} {U : Outdated}
    (hlimit : 1 ≤ limit) (hg : Ingested g₀) (h : Rebuilding limit Harmless g₀ s U) :
    RebuildInvariant s U := by
  induction h with
  | start =>
    refine ⟨hg, List.nodup_nil, fun _ hmem => (nomatch hmem), ⟨fun d hd _ => ?_, fun d hd => ?_⟩, nofun,
      nofun⟩
    · exact absurd (Table.after_none d) hd
    · exact absurd hd (Set.notMem_empty d)
  | call hrun hstep ih => exact rebuildInvariant_call hlimit ih hstep
  | write hrun op hop hsafe h ih => exact rebuildInvariant_write ih hop hsafe h

/-- The rebuilt generation, once everything unread is applied, describes the
stored rows. -/
structure RebuiltInvariant (consumer : String) (generation : Nat) (s : ProjectionState) (U : Outdated)
    (sequence : Nat) : Prop where
  worker : WorkerInvariant consumer generation s sequence
  graph : Ingested s.graph
  indexes : Indexes s.graph (settledMap s sequence) U fun _ => True

section Registered

variable {consumer : String} {generation : Nat}

theorem rebuiltInvariant_acknowledge {g g' : FilesystemGraph} {staged : List CatalogDocument}
    {sequence : Nat} {U : Outdated} (hinv : RebuildInvariant ⟨g, staged, .sequenced sequence⟩ U)
    (hack : acknowledgeProjection g consumer sequence generation = .ok g') :
    RebuiltInvariant consumer generation ⟨g', staged, .idle⟩ U sequence := by
  have hrun : (GraphOp.acknowledgeProjection consumer sequence generation).run g = .ok g' := hack
  have hopen : (GraphOp.acknowledgeProjection consumer sequence generation).OpensVolumes g := trivial
  have hg' : Ingested g' := ingested_of_run hinv.graph hopen hrun
  obtain ⟨-, -, -, -, rfl⟩ := acknowledgeProjection_ok.mp hack
  refine ⟨⟨hg'.wellFormed, hg'.outbox, Table.get_insert_self _ _ _, hinv.unique, ?_, nofun⟩, hg',
    ⟨hinv.indexes.exact, hinv.indexes.outdated⟩⟩
  intro batch hbatch
  obtain hbatch | hbatch := hbatch <;> cases hbatch

/-- The worker's own steps write consumer rows only. -/
theorem WorkerStep.graph_eq {s s' : ProjectionState}
    (h : WorkerStep consumer generation (fun _ _ => False) s s') :
    s'.graph = { s.graph with consumers := s'.graph.consumers } := by
  cases h with
  | read | commit | stop => rfl
  | acknowledge hlast hack =>
    obtain ⟨-, -, -, -, rfl⟩ := acknowledgeProjection_ok.mp hack
    rfl
  | write op hspares hallowed hrun => exact hallowed.elim

theorem rebuiltInvariant_work {s s' : ProjectionState} {U : Outdated} {sequence : Nat}
    (hinv : RebuiltInvariant consumer generation s U sequence)
    (h : WorkerStep consumer generation (fun _ _ => False) s s') :
    ∃ sequence', RebuiltInvariant consumer generation s' U sequence' := by
  obtain ⟨sequence', hworker, hsettled⟩ := workerInvariant_step h hinv.worker
  have hgraph := h.graph_eq
  have hout : s'.graph.outbox = s.graph.outbox := by rw [hgraph]
  have hnone : outboxAfter s'.graph (highWater s.graph) = [] := by
    rw [outboxAfter, hout]
    exact outboxAfter_highWater hinv.graph.outbox
  rw [hnone] at hsettled
  have hsame : settledMap s' sequence' = settledMap s sequence := hsettled
  refine ⟨sequence', hworker, ⟨hworker.wellFormed, hworker.outbox, ?_, ?_⟩, ?_⟩
  · rw [hgraph]
    exact hinv.graph.mirrors
  · rw [hgraph]
    exact hinv.graph.converging
  · rw [hsame, hgraph]
    exact ⟨hinv.indexes.exact, hinv.indexes.outdated⟩

theorem rebuiltInvariant_write {s : ProjectionState} {g' : FilesystemGraph} {U : Outdated}
    {sequence : Nat} {op : GraphOp} (hinv : RebuiltInvariant consumer generation s U sequence)
    (hop : Ingests op) (hsafe : Harmless .registered U op s.graph g')
    (h : op.run s.graph = .ok g') :
    ∃ sequence', RebuiltInvariant consumer generation { s with graph := g' } (U.kept s.graph g')
      sequence' := by
  have hspares : op.SparesConsumer consumer := by
    cases op <;> trivial
  have hstep : WorkerStep consumer generation (fun _ _ => True) s { s with graph := g' } :=
    .write op hspares trivial h
  obtain ⟨sequence', hworker, hsettled⟩ := workerInvariant_step hstep hinv.worker
  refine ⟨sequence', hworker, ingested_of_run hinv.graph hsafe.opens h, ?_⟩
  rw [hsettled]
  refine hinv.indexes.write (fun d _ => ?_) hsafe.outdated
  rcases hop.transacts hinv.graph.wellFormed h with htrans | ⟨-, -, hnone⟩
  · exact followsLog_of_transacts htrans hinv.graph.outbox d
  · -- a registered consumer keeps rebuildable batches out
    rw [projectionConsumersExist, Bool.not_eq_false', List.isEmpty_iff] at hnone
    have hmem := Table.mem_rows.mpr hinv.worker.checkpoint
    rw [hnone] at hmem
    cases hmem

theorem rebuiltInvariant_run {limit : Nat} {g₀ : FilesystemGraph} {s : ProjectionState}
    {U : Outdated} (hlimit : 1 ≤ limit) (hg : Ingested g₀)
    (h : Rebuilt consumer generation limit Harmless g₀ s U) :
    ∃ sequence, RebuiltInvariant consumer generation s U sequence := by
  induction h with
  | acknowledge hrun hack =>
    exact ⟨_, rebuiltInvariant_acknowledge (rebuildInvariant_run hlimit hg hrun) hack⟩
  | work hrun hstep ih =>
    obtain ⟨sequence, hinv⟩ := ih
    exact rebuiltInvariant_work hinv hstep
  | write hrun op hop hsafe h ih =>
    obtain ⟨sequence, hinv⟩ := ih
    exact rebuiltInvariant_write hinv hop hsafe h

/-- The checkpoint of the generation is at the newest sequence. -/
def Drained (consumer : String) (generation : Nat) (g : FilesystemGraph) : Prop :=
  projectorCheckpoint g consumer = some ⟨latestOutboxSequence g, generation⟩

/-- No refresh call has anything left to do. -/
def Refreshed (g : FilesystemGraph) : Prop := nextPathJob g = none ∧ nextVolumeJob g = none

/-- A rebuild beside harmless writes loses nothing: drained and refreshed, the
index is the desired state. -/
theorem rebuild_loses_nothing {limit : Nat} {g₀ : FilesystemGraph} {s : ProjectionState}
    {U : Outdated} (hlimit : 1 ≤ limit) (hreach : ReachableOpenly g₀)
    (hrun : Rebuilt consumer generation limit Harmless g₀ s U)
    (hdrained : Drained consumer generation s.graph) (hrefreshed : Refreshed s.graph) :
    ∃ documents, desiredCatalogDocuments s.graph = .ok documents ∧
      indexMap s.index = indexMap documents := by
  obtain ⟨sequence, hinv⟩ := rebuiltInvariant_run hlimit hreach.ingested hrun
  obtain ⟨rfl, -⟩ :=
    ConsumerRow.mk.inj (Option.some.inj (hinv.worker.checkpoint.symm.trans hdrained))
  have hreports : ∀ {d row}, s.graph.catalog.get d = some row → ReportsAvailability s.graph row :=
    hinv.graph.reportsAvailability hrefreshed.2
  have hsettled : settledMap s (latestOutboxSequence s.graph) = indexMap s.index := by
    rw [settledMap, latestOutboxSequence_eq hinv.graph.outbox,
      outboxAfter_highWater hinv.graph.outbox]
    rfl
  have hstored : ∀ d, s.graph.catalog.get d = (indexMap s.index d).map compactRow := by
    intro d
    rw [← hsettled]
    refine hinv.indexes.exact d trivial fun hd => ?_
    obtain ⟨row, hrow, hstale⟩ := hinv.indexes.outdated d hd
    exact hstale (hreports hrow)
  obtain ⟨documents, hdocs, hsorted, hmem⟩ := desiredCatalogDocuments_ok hinv.graph.wellFormed
  have hunique : UniqueDocuments documents :=
    List.pairwise_map.mpr (hsorted.imp fun hlt => ne_of_lt hlt)
  refine ⟨documents, hdocs, funext fun d => ?_⟩
  cases hrow : s.graph.catalog.get d with
  | none =>
    have hindex : indexMap s.index d = none := by
      have h := hstored d
      rw [hrow] at h
      exact Option.map_eq_none_iff.mp h.symm
    rw [hindex]
    refine (indexMap_eq_none.mpr fun document hdoc he => ?_).symm
    obtain ⟨row, hget, -⟩ := (hmem document).mp hdoc
    rw [he, hrow] at hget
    cases hget
  | some row =>
    obtain ⟨document, hdoc, rfl⟩ := exists_desired hinv.graph.wellFormed hrow
    have hcompact := hdoc.compactRow_eq hinv.graph.wellFormed hinv.graph.mirrors hrow (hreports hrow)
    obtain ⟨indexed, hindexed, heq⟩ := Option.map_eq_some_iff.mp ((hstored _).symm.trans hrow)
    rw [hindexed, indexMap_of_mem hunique ((hmem document).mpr hdoc)]
    exact congrArg some (compactRow_injective (heq.trans hcompact))

end Registered

end Rebuild

section Example

attribute [local instance] asciiCaseMapping

def treeSample : FilesystemGraph :=
  (runOps .empty [.applyBatch (sampleBatch sampleTree)]).toOption.getD .empty

theorem treeSample_run : runOps .empty [.applyBatch (sampleBatch sampleTree)] = .ok treeSample := by
  decide

/-- All four documents, staged by one short page. -/
def wholePage : List CatalogDocument := (desiredCatalogPage treeSample none 10).toOption.getD []

/-- The file `a` is renamed once the page is read. -/
def lateRename : GraphOp :=
  .applyBatch (sampleBatch [.upsertLink (sampleLink 1 3 (some 2) "c") false])

def lateRenamed : FilesystemGraph := (lateRename.run treeSample).toOption.getD .empty

def lateRegistered : FilesystemGraph :=
  (acknowledgeProjection lateRenamed "catalog" (latestOutboxSequence lateRenamed) 1).toOption.getD
    .empty

/-- A rename between the page and the sequence is acknowledged unseen. -/
theorem lateRename_lost :
    ¬ ∀ (limit : Nat) (g₀ : FilesystemGraph) (s : ProjectionState) (U : Outdated), 1 ≤ limit →
      Reachable g₀ → Rebuilt "catalog" 1 limit (fun _ _ _ _ _ => True) g₀ s U →
      Drained "catalog" 1 s.graph → Refreshed s.graph →
      ∃ documents, desiredCatalogDocuments s.graph = .ok documents ∧
        indexMap s.index = indexMap documents := by
  intro hclaim
  have hstart : Rebuilding 10 (fun _ _ _ _ _ => True) treeSample ⟨treeSample, [], .paging none⟩ ∅ :=
    .start
  have hpage : readPage treeSample 10 none [] =
      .ok ((wholePage.getLast?.map (·.identity.documentId)), wholePage, true) := by decide
  have hrename : lateRename.run treeSample = .ok lateRenamed := by decide
  have hack : acknowledgeProjection lateRenamed "catalog" (latestOutboxSequence lateRenamed) 1 =
      .ok lateRegistered := by decide
  have hrun := ((hstart.call (.lastPage hpage)).write lateRename trivial trivial hrename).call .sequence
  obtain ⟨documents, hdocs, hmap⟩ := hclaim 10 treeSample ⟨lateRegistered, wholePage, .idle⟩ _
    (by decide) (runOps_steps (fun _ _ _ => trivial) treeSample_run) (.acknowledge hrun hack)
    (by rw [Drained]; decide) ⟨by decide, by decide⟩
  have hnew : ((desiredCatalogDocuments lateRegistered).toOption.bind fun documents =>
      indexMap documents (.fromU128 1)).map (·.name) = some "c" := by decide
  have hold : (indexMap wholePage (.fromU128 1)).map (·.name) = some "a" := by decide
  rw [hdocs] at hnew
  have hindexed : (indexMap wholePage (.fromU128 1)).map (·.name) = some "c" :=
    (congrArg (fun m => (m (.fromU128 1)).map (·.name)) hmap).trans hnew
  exact absurd (hold.symm.trans hindexed) (by decide)

/-- The first of the pages of two: the files `a` and `b`. -/
def firstPage : List CatalogDocument := (desiredCatalogPage treeSample none 2).toOption.getD []

/-- The directory is renamed before its own page is read. -/
def earlyRename : GraphOp :=
  .applyBatch (sampleBatch [.upsertLink (sampleLink 8 2 (some 1) "e") false])

def earlyRenamed : FilesystemGraph := (earlyRename.run treeSample).toOption.getD .empty

def bothPages : List CatalogDocument :=
  firstPage ++ (desiredCatalogPage earlyRenamed (some (.fromU128 2)) 2).toOption.getD []

/-- The paths below it follow after the sequence is read. -/
def pathsRefreshed : FilesystemGraph :=
  ((GraphOp.refreshProjectionPaths 10).run earlyRenamed).toOption.getD .empty

def pagesRegistered : FilesystemGraph :=
  (acknowledgeProjection pathsRefreshed "catalog" (latestOutboxSequence earlyRenamed) 1).toOption.getD
    .empty

def pagesDrained : FilesystemGraph × List CatalogDocument :=
  (runLoop "catalog" 1 1 10 pagesRegistered bothPages).toOption.getD (.empty, [])

theorem treeSample_openly : ReachableOpenly treeSample := by
  obtain ⟨g₁, h₁, hrest⟩ := bind_ok.mp treeSample_run
  obtain rfl := Except.ok.inj hrest
  exact .single ⟨.applyBatch (sampleBatch sampleTree), opensVolumes_sampleTree, h₁⟩

theorem earlyRename_run : earlyRename.run treeSample = .ok earlyRenamed := by decide

theorem earlyRename_opens : earlyRename.OpensVolumes treeSample := ⟨trivial, fun _ _ _ => trivial⟩

theorem earlyRename_ingested : Ingested earlyRenamed :=
  ingested_of_run treeSample_openly.ingested earlyRename_opens earlyRename_run

theorem earlyRename_harmless {U : Outdated} (hU : ∀ d, d ∉ U) :
    Harmless (.paging (some (.fromU128 2))) U earlyRename treeSample earlyRenamed := by
  refine ⟨earlyRename_opens, fun _ d hd => ?_, fun d hd => absurd hd (hU d)⟩
  refine Table.get_eq_of_select (q := fun d => !decide (Table.After (some (.fromU128 2)) d))
    (by decide) ?_
  rw [Bool.not_eq_true', decide_eq_false_iff_not]
  exact hd

/-- A run whose pages were read without a pending volume pass. -/
def RebuildingSettled (limit : Nat) (g₀ : FilesystemGraph) (s : RebuildState) : Prop :=
  ∃ U, (∀ d, d ∉ U) ∧ Rebuilding limit Harmless g₀ s U

theorem RebuildingSettled.call {limit : Nat} {g₀ : FilesystemGraph} {s s' : RebuildState}
    (h : RebuildingSettled limit g₀ s) (hg : Ingested s.graph) (hidle : nextVolumeJob s.graph = none)
    (hstep : RebuildStep limit s s') : RebuildingSettled limit g₀ s' := by
  obtain ⟨U, hU, hrun⟩ := h
  refine ⟨_, ?_, hrun.call hstep⟩
  rintro d (hd | ⟨-, -, row, hrow, hstale⟩)
  · exact hU d hd
  · exact hstale (hg.reportsAvailability hidle hrow)

theorem RebuildingSettled.write {limit : Nat} {g₀ g' : FilesystemGraph} {s : RebuildState}
    (h : RebuildingSettled limit g₀ s) (op : GraphOp) (hop : Ingests op)
    (hsafe : ∀ U : Outdated, (∀ d, d ∉ U) → Harmless s.phase U op s.graph g')
    (hrun : op.run s.graph = .ok g') : RebuildingSettled limit g₀ { s with graph := g' } := by
  obtain ⟨U, hU, hprev⟩ := h
  exact ⟨_, fun d hd => hU d hd.1, hprev.write op hop (hsafe U hU) hrun⟩

theorem Rebuilt.works {limit : Nat} {g₀ : FilesystemGraph} {s s' : ProjectionState} {U : Outdated}
    {consumer : String} {generation : Nat} {C : WriteCondition}
    (h : Rebuilt consumer generation limit C g₀ s U)
    (hsteps : Relation.ReflTransGen (WorkerStep consumer generation fun _ _ => False) s s') :
    Rebuilt consumer generation limit C g₀ s' U := by
  induction hsteps with
  | refl => exact h
  | tail _ hstep ih => exact ih.work hstep

/-- Pages, a rename ahead of them, the path refresh after the sequence and a
pass of the worker end at the desired state. -/
theorem pagedRename_kept :
    ∃ documents, desiredCatalogDocuments pagesDrained.1 = .ok documents ∧
      documents.map (·.resolvedPath) = ["C:/e/a", "C:/e/b", "C:/e", "C:"] ∧
      indexMap pagesDrained.2 = indexMap documents := by
  have hstart : Rebuilding 2 Harmless treeSample ⟨treeSample, [], .paging none⟩ ∅ := .start
  have hfirst : readPage treeSample 2 none [] = .ok (some (.fromU128 2), firstPage, false) := by
    decide
  have hsecond : readPage earlyRenamed 2 (some (.fromU128 2)) firstPage =
      .ok (some (.fromU128 9), bothPages, false) := by decide
  have hthird : readPage earlyRenamed 2 (some (.fromU128 9)) bothPages =
      .ok (some (.fromU128 9), bothPages, true) := by decide
  have hpaths : (GraphOp.refreshProjectionPaths 10).run earlyRenamed = .ok pathsRefreshed := by
    decide
  have hack : acknowledgeProjection pathsRefreshed "catalog" (latestOutboxSequence earlyRenamed) 1 =
      .ok pagesRegistered := by decide
  have hloop : runLoop "catalog" 1 1 10 pagesRegistered bothPages =
      .ok (pagesDrained.1, pagesDrained.2) := by decide
  have hidle₀ : nextVolumeJob treeSample = none := by decide
  have hidle₁ : nextVolumeJob earlyRenamed = none := by decide
  have hg := earlyRename_ingested
  have hrenamed := (RebuildingSettled.call ⟨∅, Set.notMem_empty, hstart⟩ treeSample_openly.ingested
    hidle₀ (.page hfirst)).write earlyRename trivial (fun _ => earlyRename_harmless) earlyRename_run
  have hsequenced := ((hrenamed.call hg hidle₁ (.page hsecond)).call hg hidle₁ (.lastPage hthird)).call
    hg hidle₁ .sequence
  obtain ⟨U, hU, hrefreshed⟩ := hsequenced.write (.refreshProjectionPaths 10) trivial
    (fun U hU => ⟨trivial, fun h => by rcases h with h | h <;> exact h.elim,
      fun d hd => absurd hd (hU d)⟩) hpaths
  have hrun := (Rebuilt.acknowledge hrefreshed hack).works (runLoop_steps hloop)
  obtain ⟨documents, hdocs, hmap⟩ := rebuild_loses_nothing (by decide) treeSample_openly hrun
    (by rw [Drained]; decide) ⟨by decide, by decide⟩
  have hpathsEnd : ((desiredCatalogDocuments pagesDrained.1).toOption.map fun documents =>
      documents.map (·.resolvedPath)) = some ["C:/e/a", "C:/e/b", "C:/e", "C:"] := by
    decide
  rw [hdocs] at hpathsEnd
  exact ⟨documents, hdocs, Option.some.inj hpathsEnd, hmap⟩

end Example

end LocalSearch.Catalog
