import LocalSearch.Graph.Retention
import LocalSearch.Catalog.Rebuild
import LocalSearch.Content.Handover

/-!
# Two consumers and the pruning of the outbox

The catalog worker registers at the sequence it reads after its last page. A
content generation registers at the sequence it was created at, which may be
long before. Pruning in between looks at the consumers registered by then.
-/
namespace LocalSearch.Content

set_option autoImplicit false

open Core Lib Graph Catalog

def catalogSchemaId : String := "TANTIVY-SCHEMA-v1"

/-- What the catalog worker is at. -/
inductive CatalogWork where
  | running (index : List CatalogDocument) (phase : WorkerPhase)
  | rebuilding (staged : List CatalogDocument) (phase : RebuildPhase)

structure RetentionState where
  content : HandoverState
  catalog : CatalogWork

/-- The writes of maintenance. -/
def Maintains : GraphOp → Prop
  | .pruneConsumedOutbox | .pruneRebuildableOutboxBounded _ _ | .resetProjectionConsumer _ => True
  | _ => False

section System

variable [CaseMapping] (sources : Sources) (contentHash : String → String)
  (policy : ContentIndexPolicy) (limits : ContentGenerationLimits)

/-- One step of the whole: ingestion, content passes and resumes, the catalog
worker, or maintenance. `C` is a condition on the graph before and after. -/
inductive RetentionStep (C : FilesystemGraph → FilesystemGraph → Prop) :
    RetentionState → RetentionState → Prop
  | content {s : RetentionState} {content' : HandoverState}
      (hstep : HandoverStep sources contentHash policy limits (fun _ _ _ => True) s.content content')
      (hC : C s.content.graph content'.graph) : RetentionStep C s { s with content := content' }
  | catalogRun {s : RetentionState} {g' : FilesystemGraph} {index index' : List CatalogDocument}
      {phase phase' : WorkerPhase} (generation : Nat) (hrunning : s.catalog = .running index phase)
      (hstep : WorkerStep catalogSchemaId generation (fun _ _ => False)
        ⟨s.content.graph, index, phase⟩ ⟨g', index', phase'⟩)
      (hC : C s.content.graph g') :
      RetentionStep C s ⟨{ s.content with graph := g' }, .running index' phase'⟩
  -- the consumer is new, or its generation cannot be opened
  | catalogRecover {s : RetentionState} :
      RetentionStep C s { s with catalog := .rebuilding [] (.paging none) }
  | catalogRebuild {s : RetentionState} {staged staged' : List CatalogDocument}
      {phase phase' : RebuildPhase} (pageSize : Nat)
      (hrebuilding : s.catalog = .rebuilding staged phase)
      (hstep : RebuildStep pageSize ⟨s.content.graph, staged, phase⟩
        ⟨s.content.graph, staged', phase'⟩) :
      RetentionStep C s { s with catalog := .rebuilding staged' phase' }
  | catalogRegister {s : RetentionState} {g' : FilesystemGraph} {staged : List CatalogDocument}
      {sequence : Nat} (generation : Nat) (hsequenced : s.catalog = .rebuilding staged (.sequenced sequence))
      (hack : acknowledgeProjection s.content.graph catalogSchemaId sequence generation = .ok g')
      (hC : C s.content.graph g') :
      RetentionStep C s ⟨{ s.content with graph := g' }, .running staged .idle⟩
  | maintain {s : RetentionState} {g' : FilesystemGraph} (op : GraphOp) (hop : Maintains op)
      (hrun : op.run s.content.graph = .ok g') :
      RetentionStep C s { s with content := { s.content with graph := g' } }

variable {sources contentHash policy limits}

/-- A step of the content side is at most one write. -/
theorem handoverStep_graph {C : AcknowledgeCondition} {s s' : HandoverState}
    (h : HandoverStep sources contentHash policy limits C s s') :
    s'.graph = s.graph ∨ ∃ op : GraphOp, op.run s.graph = .ok s'.graph := by
  cases h with
  | write op hop hrun => exact Or.inr ⟨op, hrun⟩
  | acknowledge hrunning hlast hack =>
    exact Or.inr ⟨.acknowledgeProjection contentSchemaId _ _, hack⟩
  | handBack hcomplete hack => exact Or.inr ⟨.acknowledgeProjection contentSchemaId _ _, hack⟩
  | checkpoint | openActive | read | commit | endPass | resume | target | create | page | commitPage
  | checkpointPage | pause | validated | invalid | switch | finish | endResume => exact Or.inl rfl

/-- A step of the whole is at most one write, checked unless it is maintenance. -/
theorem retentionStep_graph {C : FilesystemGraph → FilesystemGraph → Prop} {s s' : RetentionState}
    (h : RetentionStep sources contentHash policy limits C s s') :
    s'.content.graph = s.content.graph ∨
      ∃ op : GraphOp, op.run s.content.graph = .ok s'.content.graph ∧
        (C s.content.graph s'.content.graph ∨ Maintains op) := by
  cases h with
  | content hstep hC =>
    rcases handoverStep_graph hstep with hsame | ⟨op, hrun⟩
    · exact Or.inl hsame
    · exact Or.inr ⟨op, hrun, Or.inl hC⟩
  | catalogRun generation hrunning hstep hC =>
    cases hstep with
    | read | commit | stop => exact Or.inl rfl
    | acknowledge hlast hack =>
      exact Or.inr ⟨.acknowledgeProjection catalogSchemaId _ _, hack, Or.inl hC⟩
    | write op hspares hallowed => exact hallowed.elim
  | catalogRegister generation hsequenced hack hC =>
    exact Or.inr ⟨.acknowledgeProjection catalogSchemaId _ _, hack, Or.inl hC⟩
  | catalogRecover | catalogRebuild => exact Or.inl rfl
  | maintain op hop hrun => exact Or.inr ⟨op, hrun, Or.inr hop⟩

/-- Maintenance registers no consumer. -/
theorem maintains_registers {g g' : FilesystemGraph} (hinv : RetentionInvariant g) {op : GraphOp}
    (hop : Maintains op) (h : op.run g = .ok g') : RegistersRetained g g' := by
  intro id row hnone hrow
  cases op with
  | resetProjectionConsumer consumer =>
    obtain rfl := Except.ok.inj h
    rw [projectorCheckpoint, resetProjectionConsumer, Table.get_erase] at hrow
    split_ifs at hrow
    rw [projectorCheckpoint] at hnone
    rw [hnone] at hrow
    cases hrow
  | pruneConsumedOutbox =>
    have hspares : GraphOp.pruneConsumedOutbox.SparesConsumer id := trivial
    rw [checkpoint_of_run hinv.wellFormed hinv.outbox hspares h, hnone] at hrow
    cases hrow
  | pruneRebuildableOutboxBounded k allow =>
    have hspares : (GraphOp.pruneRebuildableOutboxBounded k allow).SparesConsumer id := trivial
    rw [checkpoint_of_run hinv.wellFormed hinv.outbox hspares h, hnone] at hrow
    cases hrow
  | applyBatch | applyRebuildableBatch | beginObservationScan | applyObservationScanPage
  | stageObservationCheckpoint | finalizeObservationScan | refreshProjectionPaths
  | refreshVolumeProjection | acknowledgeProjection | completeRefreshJob
  | compactLegacyDesiredPayloadsBounded => exact hop.elim

theorem retentionInvariant_step {s s' : RetentionState}
    (hinv : RetentionInvariant s.content.graph)
    (h : RetentionStep sources contentHash policy limits RegistersRetained s s') :
    RetentionInvariant s'.content.graph := by
  rcases retentionStep_graph h with hsame | ⟨op, hrun, hC | hop⟩
  · rw [hsame]
    exact hinv
  · exact retentionInvariant_run hinv hC hrun
  · exact retentionInvariant_run hinv (maintains_registers hinv hop hrun) hrun

/-- While every consumer registers right before the oldest row or later, no row a
registered consumer has still to read is pruned. -/
theorem retention_holds {s : RetentionState}
    (hrun : Relation.ReflTransGen (RetentionStep sources contentHash policy limits RegistersRetained)
      ⟨⟨.empty, .empty, .idle, .idle⟩, .rebuilding [] (.paging none)⟩ s) :
    Retained s.content.graph := by
  have hinv : RetentionInvariant s.content.graph := by
    induction hrun with
    | refl => exact retentionInvariant_empty
    | tail _ hstep ih => exact retentionInvariant_step ih hstep
  exact hinv.retained

end System

section Example

attribute [local instance] asciiCaseMapping

abbrev SampleRetention (C : FilesystemGraph → FilesystemGraph → Prop) :
    RetentionState → RetentionState → Prop :=
  Relation.ReflTransGen (RetentionStep sampleSources sampleHash sampleContentPolicy sampleLimits C)

def retentionStart : RetentionState :=
  ⟨⟨.empty, .empty, .idle, .idle⟩, .rebuilding [] (.paging none)⟩

/-- The text file and its two outbox rows. -/
def textGraph : FilesystemGraph := (addTextFile.run .empty).toOption.getD .empty

/-- A generation is created at sequence 2 and shows the file. The file is removed,
the catalog registers past that and the row is pruned. -/
def builtAtTwo : ContentGenerationManager :=
  ((ContentGenerationManager.empty.recoverLifecycle 1).failBuilding none 1).createBuilding "a"
    sampleContentPolicy.roots 2 1 0 1

def pageAtTwo : List CatalogDocument := (desiredCatalogPage textGraph none 16).toOption.getD []

def deltaAtTwo : Entries × List SyncOutcome :=
  (applyDelta sampleSources sampleHash sampleContentPolicy (generationOf builtAtTwo "a").index
    pageAtTwo []).toOption.getD ([], [])

def filledAtTwo : ContentGenerationManager :=
  (builtAtTwo.commitIndex "a" deltaAtTwo.1).updateRecord "a" fun record =>
    record.advance pageAtTwo (declaredBytes sampleContentPolicy pageAtTwo) deltaAtTwo.2 2 0 1

def emptiedGraph : FilesystemGraph := (removeTextFile.run textGraph).toOption.getD .empty

def catalogGraph : FilesystemGraph :=
  (acknowledgeProjection emptiedGraph catalogSchemaId 3 1).toOption.getD .empty

def prunedGraph : FilesystemGraph := (GraphOp.pruneConsumedOutbox.run catalogGraph).toOption.getD .empty

def readyAtTwo : ContentGenerationManager :=
  filledAtTwo.updateRecord "a" fun record => { record with state := .ready, updatedAtUnixMs := 2 }

def activeAtTwo : ContentGenerationManager :=
  { readyAtTwo with activePointer := some "a" }.finishActivation "a" none 2

def contentGraph : FilesystemGraph :=
  (acknowledgeProjection prunedGraph contentSchemaId
    (generationOf readyAtTwo "a").record.targetSequence
    (generationOf readyAtTwo "a").record.indexGeneration).toOption.getD .empty

/-- The documents the catalog rebuild finds once the file is gone. -/
def catalogStaged : List CatalogDocument := (desiredCatalogPage emptiedGraph none 16).toOption.getD []

theorem sample_added : addTextFile.run .empty = .ok textGraph := by decide +kernel

theorem sample_removed : removeTextFile.run textGraph = .ok emptiedGraph := by decide +kernel

theorem sample_catalog : acknowledgeProjection emptiedGraph catalogSchemaId 3 1 = .ok catalogGraph := by
  decide +kernel

theorem sample_pruned : GraphOp.pruneConsumedOutbox.run catalogGraph = .ok prunedGraph := by
  decide

/-- The catalog rebuild reads everything in one page and samples the newest sequence. -/
theorem sample_rebuild :
    Relation.ReflTransGen (RebuildStep 16) ⟨emptiedGraph, [], .paging none⟩
      ⟨emptiedGraph, catalogStaged, .sequenced 3⟩ := by
  have hpage : readPage emptiedGraph 16 none [] = .ok
      (catalogStaged.getLast?.map (·.identity.documentId), catalogStaged, true) := by decide
  have hlatest : latestOutboxSequence emptiedGraph = 3 := by decide
  have hsequence : RebuildStep 16 ⟨emptiedGraph, catalogStaged, .paged⟩
      ⟨emptiedGraph, catalogStaged, .sequenced 3⟩ := hlatest ▸ .sequence
  exact .head (.lastPage hpage) (.single hsequence)

theorem sampleRetention_filled :
    Relation.ReflTransGen (HandoverStep sampleSources sampleHash sampleContentPolicy sampleLimits
      fun _ _ _ => True) ⟨.empty, .empty, .idle, .idle⟩ ⟨emptiedGraph, filledAtTwo, .idle, .paging "a"⟩ := by
  have hnone : ∀ id generation, (ContentGenerationManager.empty.recoverLifecycle 1).Newest id generation →
      generation.record.rootIds ≠ sampleContentPolicy.roots := fun _ _ h => (nomatch h.1)
  have hlatest : latestOutboxSequence textGraph = 2 := by decide
  have htarget : HandoverStep sampleSources sampleHash sampleContentPolicy sampleLimits
      (fun _ _ _ => True) ⟨textGraph, .empty, .idle, .idle⟩
      ⟨textGraph, (ContentGenerationManager.empty.recoverLifecycle 1).failBuilding none 1, .idle,
        .creating 2⟩ := hlatest ▸ .target 1 rfl hnone
  have hbuilt : builtAtTwo.generations.get "a" = some (generationOf builtAtTwo "a") := by
    decide
  have hpage : desiredCatalogPage textGraph (generationOf builtAtTwo "a").record.lastCheckpoint
      (pageLimit sampleLimits (generationOf builtAtTwo "a").record) = .ok pageAtTwo := by
    decide +kernel
  have happly : applyDelta sampleSources sampleHash sampleContentPolicy
      (generationOf builtAtTwo "a").index pageAtTwo [] = .ok deltaAtTwo := by decide +kernel
  refine .head (.write addTextFile trivial sample_added) ?_
  refine .head htarget (.head (.create "a" 1 0 1 rfl rfl nofun) ?_)
  refine .head (.page sampleDisk rfl hbuilt (by decide) hpage (by decide)
    (by decide +kernel)) ?_
  refine .head (.commitPage 2 rfl hbuilt happly) (.head (.checkpointPage 0 1 rfl) ?_)
  exact .single (.write removeTextFile trivial sample_removed)

theorem sampleRetention_activated :
    Relation.ReflTransGen (HandoverStep sampleSources sampleHash sampleContentPolicy sampleLimits
      fun _ _ _ => True) ⟨prunedGraph, filledAtTwo, .idle, .paging "a"⟩
        ⟨contentGraph, activeAtTwo, .idle, .idle⟩ := by
  have hfilled : filledAtTwo.generations.get "a" = some (generationOf filledAtTwo "a") := by
    decide +kernel
  have hready : readyAtTwo.generations.get "a" = some (generationOf readyAtTwo "a") := by
    decide +kernel
  have hack : acknowledgeProjection prunedGraph contentSchemaId
      (generationOf readyAtTwo "a").record.targetSequence
      (generationOf readyAtTwo "a").record.indexGeneration = .ok contentGraph := by decide
  refine .head (.validated sampleDisk 2 rfl hfilled (by decide +kernel) (by decide +kernel)
    (by decide +kernel)) ?_
  exact .head (.switch rfl) (.head (.finish 2 rfl hready) (.single (.handBack rfl hack)))

theorem retention_content {s : RetentionState} {content' : HandoverState}
    (h : Relation.ReflTransGen (HandoverStep sampleSources sampleHash sampleContentPolicy sampleLimits
      fun _ _ _ => True) s.content content') :
    SampleRetention (fun _ _ => True) s { s with content := content' } := by
  induction h with
  | refl => exact .refl
  | tail _ hstep ih => exact ih.tail (.content hstep trivial)

theorem retention_rebuild {C : FilesystemGraph → FilesystemGraph → Prop} (content : HandoverState)
    {staged : List CatalogDocument} {phase : RebuildPhase} {r : RebuildState}
    (h : Relation.ReflTransGen (RebuildStep 16) ⟨content.graph, staged, phase⟩ r) :
    r.graph = content.graph ∧
      SampleRetention C ⟨content, .rebuilding staged phase⟩ ⟨content, .rebuilding r.staged r.phase⟩ := by
  induction h with
  | refl => exact ⟨rfl, .refl⟩
  | @tail b c _ hstep ih =>
    obtain ⟨hgraph, hrun⟩ := ih
    obtain ⟨g, staged₀, phase₀⟩ := b
    obtain ⟨g', staged', phase'⟩ := c
    obtain rfl : g = content.graph := hgraph
    obtain rfl : g' = content.graph := by cases hstep <;> rfl
    exact ⟨rfl, hrun.tail (.catalogRebuild 16 rfl hstep)⟩

/-- The catalog worker registers at the newest sequence and everything is pruned. -/
theorem sampleRetention_pruned :
    SampleRetention (fun _ _ => True)
      ⟨⟨emptiedGraph, filledAtTwo, .idle, .paging "a"⟩, .rebuilding [] (.paging none)⟩
      ⟨⟨prunedGraph, filledAtTwo, .idle, .paging "a"⟩, .running catalogStaged .idle⟩ := by
  have hrebuild := retention_rebuild (C := fun _ _ => True)
    ⟨emptiedGraph, filledAtTwo, .idle, .paging "a"⟩ sample_rebuild
  refine hrebuild.2.trans (.head (.catalogRegister 1 rfl sample_catalog trivial) ?_)
  exact .single (.maintain .pruneConsumedOutbox trivial sample_pruned)

/-- The generation registers at 2 when row 3 is gone. -/
theorem retention_lost :
    ¬ ∀ s, SampleRetention (fun _ _ => True) retentionStart s → Retained s.content.graph := by
  intro h
  have hrun := ((retention_content (s := retentionStart) sampleRetention_filled).trans
    sampleRetention_pruned).trans (retention_content sampleRetention_activated)
  have hrow : projectorCheckpoint contentGraph contentSchemaId = some ⟨2, 2⟩ := by decide
  obtain ⟨row, hkept⟩ := h _ hrun contentSchemaId ⟨2, 2⟩ hrow 3 (by decide) (by decide)
  have hgone : contentGraph.outbox.get 3 = none := by decide
  rw [hgone] at hkept
  cases hkept

theorem retentionStep_registers {g g' : FilesystemGraph} (h : g'.consumers = g.consumers) :
    RegistersRetained g g' := by
  intro id row hnone hrow
  rw [projectorCheckpoint, h] at hrow
  rw [projectorCheckpoint, hrow] at hnone
  cases hnone

/-- The catalog alone registers behind no pruned row. -/
theorem retentionSample_holds :
    Retained prunedGraph ∧ projectorCheckpoint prunedGraph catalogSchemaId = some ⟨3, 1⟩ := by
  refine ⟨?_, by decide⟩
  have hfirst : firstRetained emptiedGraph = 1 := by decide
  have hregister : RegistersRetained emptiedGraph catalogGraph := by
    intro id row _ _
    rw [hfirst]
    omega
  have hwritten : textGraph.consumers = FilesystemGraph.empty.consumers := by decide
  have hremoved : emptiedGraph.consumers = textGraph.consumers := by decide
  have hrun : SampleRetention RegistersRetained retentionStart
      ⟨⟨prunedGraph, .empty, .idle, .idle⟩, .running catalogStaged .idle⟩ := by
    refine .head (.content (.write addTextFile trivial sample_added)
      (retentionStep_registers hwritten)) ?_
    refine .head (.content (.write removeTextFile trivial sample_removed)
      (retentionStep_registers hremoved)) ?_
    refine (retention_rebuild ⟨emptiedGraph, .empty, .idle, .idle⟩ sample_rebuild).2.trans ?_
    refine .head (.catalogRegister 1 rfl sample_catalog hregister) ?_
    exact .single (.maintain .pruneConsumedOutbox trivial sample_pruned)
  exact retention_holds hrun

end Example

end LocalSearch.Content
