import LocalSearch.Agent.Service

/-!
# Maintenance of the catalog by the agent

The scheduler looks at the backlog and runs a pass while there is one. A pass
drains refresh queues within the budget of the governor, lets the projection
worker catch up, swaps the cached reader and prunes what every consumer has
read. Refreshes append to the outbox and the worker's progress makes rows
consumable, so each pass may leave more of the next kind of work; in all it
leaves less.
-/
namespace LocalSearch.Agent

set_option autoImplicit false

open Core Lib Graph Catalog Governor
open Desktop (AgentWireError)
open AgentApi (Capability IndexStatus)

namespace AgentService

section Passes

variable [CaseMapping]

/-- `run_projection_with_retry` with so many attempts left. An attempt that fails
leaves the files as they were. -/
def runProjectionWithRetry (options : ProjectionWorkerOptions) (timely : Nat) (files : CatalogFiles) :
    Nat → Except AgentWireError (CatalogFiles × ProjectionRunSummary)
  | 0 => .error ⟨.unavailable, "projection retry budget exhausted"⟩
  | attempts + 1 =>
      match Catalog.run catalogSchemaId options timely files with
      | .ok result => .ok result
      | .error (.catalog _) =>
          if 0 < attempts then runProjectionWithRetry options timely files attempts
          else .error internal
      | .error _ => .error internal

/-- `AgentService::open_with_content`: recovery with the default options, and no
service while the worker has not caught up. -/
def start (authorization : Finset Capability) (contentReader : Option ContentReader) (timely : Nat)
    (files : CatalogFiles) : Except AgentWireError AgentService := do
  let (files, summary) ← runProjectionWithRetry ⟨10000, 100, 10000⟩ timely files 50
  if summary.backlogRemaining then
    .error ⟨.indexNotReady, "catalog recovery did not drain the durable backlog"⟩
  else
    match activeIndex catalogSchemaId files with
    | none => .error internal
    | some documents =>
        .ok
          { files := files
            governor := .new .standard
            reader := ⟨documents, summary.indexGeneration⟩
            contentReader := contentReader
            authorization := authorization }

end Passes

end AgentService

section Convergence

variable [CaseMapping]

/-- What is left to do, in a measure that falls with every pass. A refresh turns
one unit of work into one sequence and one row at most. -/
def upkeep (g : FilesystemGraph) : Nat :=
  refreshWork g + (highWater g + refreshWork g - appliedSequence g) +
    (g.outbox.rows.length + refreshWork g)

omit [CaseMapping] in
theorem appliedSequence_of_checkpoint {g : FilesystemGraph} {row : ConsumerRow}
    (h : projectorCheckpoint g catalogSchemaId = some row) :
    appliedSequence g = row.lastSequence := by
  rw [appliedSequence, h]
  rfl

omit [CaseMapping] in
theorem projectionBacklog_eq_zero {g : FilesystemGraph} (hwf : WellFormed g) (hout : OutboxWF g) :
    projectionBacklog g 0 = 0 ↔ highWater g ≤ appliedSequence g ∧
      consumedOutboxMaintenancePending g = false ∧ refreshWork g = 0 := by
  rw [← projectionRefreshMaintenancePending_eq_false, projectionBacklog, latestOutboxSequence_eq hout,
    legacyDesiredPayloadMaintenancePending_eq_false hwf]
  cases consumedOutboxMaintenancePending g <;> cases projectionRefreshMaintenancePending g <;>
    simp [Nat.sub_eq_zero_iff_le]

/-- The cached reader is the one of the active generation. -/
def AgentService.Current (s : AgentService) : Prop :=
  ∃ checkpoint, projectorCheckpoint s.files.graph catalogSchemaId = some checkpoint ∧
    openIndex s.files.generations checkpoint.indexGeneration = some s.reader.documents ∧
    s.reader.generation = checkpoint.indexGeneration

omit [CaseMapping] in
theorem AgentService.Current.status {s : AgentService} (h : s.Current) :
    ∃ status, s.indexStatus = .ok status ∧ status.documentCount = s.reader.documents.length ∧
      status.backlogMutations = latestOutboxSequence s.files.graph - appliedSequence s.files.graph := by
  obtain ⟨checkpoint, hcheckpoint, -, hgeneration⟩ := h
  rw [appliedSequence_of_checkpoint hcheckpoint]
  have hstatus : s.indexStatus = .ok
      { ready := true
        indexGeneration := some checkpoint.indexGeneration
        documentCount := s.reader.documents.length
        durableSequence := latestOutboxSequence s.files.graph
        appliedSequence := checkpoint.lastSequence
        backlogMutations := latestOutboxSequence s.files.graph - checkpoint.lastSequence } := by
    rw [indexStatus]
    simp only [hcheckpoint]
    rw [if_neg (by simpa using hgeneration)]
  exact ⟨_, hstatus, rfl, rfl⟩

/-- What a pass makes of the service. -/
structure PassResult (s t : AgentService) : Prop where
  sound : FilesSound catalogSchemaId t.files
  current : t.Current
  mark : highWater t.files.graph + refreshWork t.files.graph ≤
    highWater s.files.graph + refreshWork s.files.graph
  less : projectionBacklog t.files.graph 0 = 0 ∨ upkeep t.files.graph < upkeep s.files.graph

/-- The first attempt of a run that succeeds is the last. -/
theorem runProjectionWithRetry_ok {options : ProjectionWorkerOptions} {timely attempts : Nat}
    {files : CatalogFiles} {result : CatalogFiles × ProjectionRunSummary}
    (h : Catalog.run catalogSchemaId options timely files = .ok result) :
    AgentService.runProjectionWithRetry options timely files (attempts + 1) = .ok result := by
  rw [AgentService.runProjectionWithRetry, h]

/-- What the refresh queues and the worker make of the service. -/
structure InnerResult (s t : AgentService) : Prop where
  sound : FilesSound catalogSchemaId t.files
  current : t.Current
  unpaused : t.governor.decision.budget.backgroundPaused = false
  mark : highWater t.files.graph + refreshWork t.files.graph ≤
    highWater s.files.graph + refreshWork s.files.graph
  rows : t.files.graph.outbox.rows.length + refreshWork t.files.graph ≤
    s.files.graph.outbox.rows.length + refreshWork s.files.graph
  work : refreshWork t.files.graph = 0 ∨ refreshWork t.files.graph < refreshWork s.files.graph
  forward : appliedSequence s.files.graph ≤ appliedSequence t.files.graph
  progress : appliedSequence t.files.graph = highWater t.files.graph ∨
    appliedSequence s.files.graph < appliedSequence t.files.graph

/-- What pruning makes of it. -/
structure StorageResult (s t : AgentService) : Prop where
  sound : FilesSound catalogSchemaId t.files
  current : t.Current
  mark : highWater t.files.graph = highWater s.files.graph
  work : refreshWork t.files.graph = refreshWork s.files.graph
  applied : appliedSequence t.files.graph = appliedSequence s.files.graph
  rows : t.files.graph.outbox.rows.length ≤ s.files.graph.outbox.rows.length
  less : consumedOutboxMaintenancePending t.files.graph = false ∨
    t.files.graph.outbox.rows.length < s.files.graph.outbox.rows.length

/-- What is left behind a pass is less: the queues have shrunk, or the worker has gone
on, or rows have gone. -/
theorem InnerResult.pass {s r t : AgentService} (hinner : InnerResult s r)
    (hstorage : StorageResult r t) : PassResult s t := by
  have hmark := hinner.mark
  have hrows := hinner.rows
  have hforward := hinner.forward
  have hprogress := hinner.progress
  have hwork := hinner.work
  have hfewer := hstorage.rows
  have hbound : appliedSequence r.files.graph ≤ highWater r.files.graph := by
    obtain ⟨checkpoint, hcheckpoint, -⟩ := hinner.current
    rw [appliedSequence_of_checkpoint hcheckpoint]
    exact hinner.sound.rows.wf.consumers _ checkpoint hcheckpoint
  refine ⟨hstorage.sound, hstorage.current, ?_, ?_⟩
  · rw [hstorage.mark, hstorage.work]
    exact hmark
  · by_cases hdone : projectionBacklog t.files.graph 0 = 0
    · exact Or.inl hdone
    · right
      rw [projectionBacklog_eq_zero hstorage.sound.ingested.wellFormed hstorage.sound.rows.wf,
        hstorage.applied, hstorage.mark, hstorage.work] at hdone
      rw [upkeep, upkeep, hstorage.mark, hstorage.work, hstorage.applied]
      by_cases hconsumed : consumedOutboxMaintenancePending t.files.graph = false
      · have hleft : ¬ (highWater r.files.graph ≤ appliedSequence r.files.graph ∧
            refreshWork r.files.graph = 0) := fun hboth => hdone ⟨hboth.1, hconsumed, hboth.2⟩
        omega
      · have hgone := hstorage.less.resolve_left hconsumed
        omega

/-- Work goes on in this turn and the worker gets to its loop. -/
def Admits (turn : ResourceGovernor × Nat) : Bool :=
  !turn.1.decision.budget.backgroundPaused && decide (1 ≤ turn.2)

/-- What the service relies on between turns. -/
structure Upkept (s : AgentService) : Prop where
  sound : FilesSound catalogSchemaId s.files
  current : s.Current
  mark : highWater s.files.graph + refreshWork s.files.graph < 2 ^ 63

/-- Without backlog the cached reader holds exactly the desired documents. -/
theorem Upkept.exact {s : AgentService} (h : Upkept s)
    (hidle : projectionBacklog s.files.graph 0 = 0) :
    ∃ documents status, desiredCatalogDocuments s.files.graph = .ok documents ∧
      s.reader.documents.Perm documents ∧ s.indexStatus = .ok status ∧
      status.documentCount = documents.length ∧ status.backlogMutations = 0 := by
  have hwf := h.sound.ingested.wellFormed
  obtain ⟨happlied, -, hwork⟩ :=
    (projectionBacklog_eq_zero hwf h.sound.rows.wf).mp hidle
  obtain ⟨checkpoint, hcheckpoint, hopen, -⟩ := h.current
  have hserving := h.sound.serving checkpoint _ hcheckpoint hopen
  rw [appliedSequence_of_checkpoint hcheckpoint] at happlied
  have hnewest : checkpoint.lastSequence = highWater s.files.graph :=
    Nat.le_antisymm (h.sound.rows.wf.consumers _ _ hcheckpoint) happlied
  obtain ⟨documents, hdocuments, hperm⟩ :=
    (hnewest ▸ hserving).exact_perm (refreshWork_eq_zero.mp hwork).2
  obtain ⟨status, hstatus, hcount, hbacklog⟩ := h.current.status
  refine ⟨documents, status, hdocuments, hperm, hstatus, hcount.trans hperm.length_eq, ?_⟩
  rw [hbacklog, latestOutboxSequence_eq h.sound.rows.wf, appliedSequence_of_checkpoint hcheckpoint]
  omega

/-- Whatever the directories hold, opening the agent ends with a reader that has
caught up, or finds more sequences behind the active index than it may apply
batches. -/
theorem start_recovers {files : CatalogFiles} (hrun : FilesRun catalogSchemaId files)
    (hmark : highWater files.graph < 2 ^ 63) (hroom : HasRoom catalogSchemaId files)
    (authorization : Finset Capability) (contentReader : Option ContentReader) (timely : Nat) :
    (∃ s, AgentService.start authorization contentReader timely files = .ok s ∧ s.Current ∧
      s.files.graph = { files.graph with consumers := s.files.graph.consumers } ∧
      appliedSequence s.files.graph = latestOutboxSequence s.files.graph ∧
      (nextVolumeJob files.graph = none → ∃ documents,
        desiredCatalogDocuments s.files.graph = .ok documents ∧
          s.reader.documents.Perm documents)) ∨
    (AgentService.start authorization contentReader timely files =
        .error ⟨.indexNotReady, "catalog recovery did not drain the durable backlog"⟩ ∧
      ∃ row, projectorCheckpoint files.graph catalogSchemaId = some row ∧
        row.lastSequence + min 100 timely < latestOutboxSequence files.graph) := by
  obtain ⟨t, summary, index, reached, hworker, hgeneration, hbacklog, hresult⟩ :=
    @run_ok _ catalogSchemaId files ⟨10000, 100, 10000⟩ hrun.sound (by decide) (by decide) hmark hroom
      timely
  have hretry := @runProjectionWithRetry_ok _ ⟨10000, 100, 10000⟩ timely 49 files _ hworker
  have hout := hrun.sound.rows.wf
  by_cases hbehind : reached.lastSequence < highWater files.graph
  · right
    refine ⟨?_, ?_⟩
    · rw [AgentService.start, hretry]
      simp only [bind, Except.bind, hbacklog, hbehind, decide_true, if_true]
    · rcases hresult.progress with hdone | ⟨row, hrow, hmore⟩
      · omega
      · refine ⟨row, hrow, ?_⟩
        have hturns : row.lastSequence + min 100 timely ≤ reached.lastSequence := hmore
        rw [latestOutboxSequence_eq hout]
        omega
  · left
    have hactive : activeIndex catalogSchemaId t = some index :=
      activeIndex_eq_some.mpr ⟨reached, hresult.checkpoint, hresult.opened⟩
    have hsame : highWater t.graph = highWater files.graph := by rw [hresult.frame]; rfl
    have hrows := hresult.serving.rows.wf
    have hnewest : reached.lastSequence = highWater t.graph := by
      have hle := hrows.consumers _ reached hresult.checkpoint
      omega
    refine ⟨⟨t, .new .standard, ⟨index, summary.indexGeneration⟩, contentReader,
      authorization⟩, ?_,
      ⟨reached, hresult.checkpoint, hresult.opened, hgeneration⟩, hresult.frame, ?_, fun hidle => ?_⟩
    · rw [AgentService.start, hretry]
      simp only [bind, Except.bind, hbacklog, hbehind, decide_false, Bool.false_eq_true, if_false,
        hactive]
    · rw [appliedSequence_of_checkpoint hresult.checkpoint, latestOutboxSequence_eq hrows, hnewest]
    · have hserving := hnewest ▸ hresult.serving
      have hidle' : nextVolumeJob t.graph = none := by rw [hresult.frame]; exact hidle
      exact hserving.exact_perm hidle'

end Convergence

section Example

attribute [local instance] asciiCaseMapping

/-- A damaged directory stands where the first generation would go. -/
def littered : CatalogFiles := ⟨treeSample, Table.empty.insert 1 none⟩

theorem littered_run : FilesRun catalogSchemaId littered := by
  obtain ⟨g₁, hrun, hrest⟩ := bind_ok.mp treeSample_run
  obtain rfl := Except.ok.inj hrest
  have hwrite : FilesStep catalogSchemaId ⟨.empty, .empty⟩ ⟨treeSample, .empty⟩ := by
    refine .write (.applyBatch (sampleBatch sampleTree)) trivial opensVolumes_sampleTree ?_ hrun
    intro hactive
    cases hactive
  refine .tail (.single hwrite) (.directories _ ?_)
  intro index hactive
  cases hactive

/-- No generation is registered, so the agent rebuilds one beside the damaged
directory. -/
theorem start_recovers_littered : nextVolumeJob littered.graph = none ∧
    ((∃ s, AgentService.start metadataGrant none 5 littered = .ok s ∧ s.Current ∧
      s.files.graph = { littered.graph with consumers := s.files.graph.consumers } ∧
      appliedSequence s.files.graph = latestOutboxSequence s.files.graph ∧
      (nextVolumeJob littered.graph = none → ∃ documents,
        desiredCatalogDocuments s.files.graph = .ok documents ∧
          s.reader.documents.Perm documents)) ∨
    (AgentService.start metadataGrant none 5 littered =
        .error ⟨.indexNotReady, "catalog recovery did not drain the durable backlog"⟩ ∧
      ∃ row, projectorCheckpoint littered.graph catalogSchemaId = some row ∧
        row.lastSequence + min 100 5 < latestOutboxSequence littered.graph)) :=
  ⟨by decide, start_recovers littered_run (by decide) (Or.inr (by decide)) metadataGrant none 5⟩

end Example

end LocalSearch.Agent
