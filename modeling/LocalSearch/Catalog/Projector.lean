import LocalSearch.Graph.OutboxTail
import LocalSearch.Catalog.Index

/-!
# Incremental catalog projection

The projection worker reads a batch behind its checkpoint, commits it to the
index and then acknowledges it. The process may stop anywhere, so the index can
be ahead of the checkpoint and a batch can be applied again, cut differently
and with newer rows behind it. What the index becomes once everything unread is
applied never changes, except by what is appended.
-/
namespace LocalSearch.Catalog

set_option autoImplicit false

open Core Lib Graph

/-- Failures of a worker run. -/
inductive ProjectionWorkerError where
  | graph (error : GraphError)
  | catalog (error : CatalogIndexError)
  | outbox (detail : String)
  deriving DecidableEq, Repr

/-- How far the worker is with its current batch. -/
inductive WorkerPhase where
  | idle
  | applying (batch : MutationBatch)
  | committed (batch : MutationBatch)
  deriving DecidableEq, Repr

/-- The durable graph, the last commit of the active generation and the worker. -/
structure ProjectionState where
  graph : FilesystemGraph
  index : List CatalogDocument
  phase : WorkerPhase

/-- The text a refused batch is reported with. -/
def refusalText : MutationBatch.Refusal → String
  | .empty => "invalid request: mutation batch must not be empty"
  | .notConsecutive => "invalid request: mutation batch sequences must be strictly consecutive"
  | .sequenceOverflow => "invalid request: mutation sequence overflow"

section Worker

variable [CaseMapping] (consumer : String) (generation : Nat)

/-- The loop of `ProjectionWorker::run` on an existing generation, for at most
the given number of batches. -/
def runLoop (limit : Nat) : Nat → FilesystemGraph → List CatalogDocument →
    Except ProjectionWorkerError (FilesystemGraph × List CatalogDocument)
  | 0, g, index => .ok (g, index)
  | batches + 1, g, index =>
      match projectorCheckpoint g consumer with
      | none => .error (.outbox "missing active checkpoint")
      | some checkpoint => do
          let batch ← (readOutbox g (some checkpoint.lastSequence) limit).mapError .graph
          if batch.mutations.isEmpty then .ok (g, index)
          else do
            batch.validate.mapError fun refusal => .outbox (refusalText refusal)
            let index ← (CatalogWriter.applyAll index (batch.mutations.map (·.mutation))).mapError
              .catalog
            match batch.lastSequence with
            | none => .error (.outbox "non-empty batch lost its tail")
            | some last => do
                let g ← (acknowledgeProjection g consumer last generation).mapError .graph
                runLoop limit batches g index

/-- One step of the system: the worker reads, commits, acknowledges or stops,
or another connection writes. -/
inductive WorkerStep (W : GraphOp → FilesystemGraph → Prop) : ProjectionState → ProjectionState → Prop
  | read {g : FilesystemGraph} {index : List CatalogDocument} {checkpoint : ConsumerRow}
      {batch : MutationBatch} (limit : Nat)
      (hcheckpoint : projectorCheckpoint g consumer = some checkpoint)
      (hread : readOutbox g (some checkpoint.lastSequence) limit = .ok batch)
      (hnonempty : batch.mutations.isEmpty = false) (hvalid : batch.validate = .ok ()) :
      WorkerStep W ⟨g, index, .idle⟩ ⟨g, index, .applying batch⟩
  | commit {g : FilesystemGraph} {index index' : List CatalogDocument} {batch : MutationBatch}
      (happly : CatalogWriter.applyAll index (batch.mutations.map (·.mutation)) = .ok index') :
      WorkerStep W ⟨g, index, .applying batch⟩ ⟨g, index', .committed batch⟩
  | acknowledge {g g' : FilesystemGraph} {index : List CatalogDocument} {batch : MutationBatch}
      {last : Nat} (hlast : batch.lastSequence = some last)
      (hack : acknowledgeProjection g consumer last generation = .ok g') :
      WorkerStep W ⟨g, index, .committed batch⟩ ⟨g', index, .idle⟩
  | stop {s : ProjectionState} : WorkerStep W s { s with phase := .idle }
  | write {s : ProjectionState} {g' : FilesystemGraph} (op : GraphOp)
      (hspares : op.SparesConsumer consumer) (hallowed : W op s.graph)
      (hrun : op.run s.graph = .ok g') : WorkerStep W s { s with graph := g' }

variable {consumer generation}

/-- A pass of the worker is a sequence of its steps. -/
theorem runLoop_steps {W : GraphOp → FilesystemGraph → Prop} {limit batches : Nat}
    {g g' : FilesystemGraph} {index index' : List CatalogDocument}
    (h : runLoop consumer generation limit batches g index = .ok (g', index')) :
    Relation.ReflTransGen (WorkerStep consumer generation W) ⟨g, index, .idle⟩ ⟨g', index', .idle⟩ := by
  induction batches generalizing g index with
  | zero =>
    obtain ⟨rfl, rfl⟩ := Prod.mk.inj (Except.ok.inj h)
    exact .refl
  | succ batches ih =>
    rw [runLoop] at h
    cases hcheckpoint : projectorCheckpoint g consumer with
    | none => rw [hcheckpoint] at h; cases h
    | some checkpoint =>
      rw [hcheckpoint] at h
      obtain ⟨batch, hread, h⟩ := bind_ok.mp h
      cases hempty : batch.mutations.isEmpty with
      | true =>
        rw [hempty] at h
        obtain ⟨rfl, rfl⟩ := Prod.mk.inj (Except.ok.inj h)
        exact .refl
      | false =>
        rw [hempty] at h
        obtain ⟨⟨⟩, hvalid, h⟩ := bind_ok.mp h
        obtain ⟨staged, happly, h⟩ := bind_ok.mp h
        cases hlast : batch.lastSequence with
        | none => rw [hlast] at h; cases h
        | some last =>
          rw [hlast] at h
          obtain ⟨g₁, hack, h⟩ := bind_ok.mp h
          refine .head (.read limit hcheckpoint (mapError_ok hread) hempty (mapError_ok hvalid)) ?_
          exact .head (.commit (mapError_ok happly)) (.head (.acknowledge hlast (mapError_ok hack)) (ih h))

/-- The batch was read off the front of the rows past the checkpoint. -/
def Pending (g : FilesystemGraph) (sequence : Nat) (batch : MutationBatch) : Prop :=
  ∃ taken rest, outboxAfter g sequence = taken ++ rest ∧
    batch.mutations = taken.map fun x => ⟨x.1, x.2.mutation⟩

/-- The index after all unread rows are applied. -/
def settledMap (s : ProjectionState) (sequence : Nat) : DocumentId → Option CatalogDocument :=
  replay (indexMap s.index) (rowWrites (outboxAfter s.graph sequence))

/-- Invariant of the worker at checkpoint `sequence`. A committed batch is
already contained in the index, so applying it again changes nothing. -/
structure WorkerInvariant (consumer : String) (generation : Nat) (s : ProjectionState)
    (sequence : Nat) : Prop where
  wellFormed : WellFormed s.graph
  outbox : OutboxWF s.graph
  checkpoint : projectorCheckpoint s.graph consumer = some ⟨sequence, generation⟩
  unique : UniqueDocuments s.index
  pending : ∀ batch, s.phase = .applying batch ∨ s.phase = .committed batch →
    Pending s.graph sequence batch
  contained : ∀ batch, s.phase = .committed batch →
    replay (indexMap s.index) (batch.mutations.map (·.mutation.write)) = indexMap s.index

omit [CaseMapping] in
/-- A read takes the front of the rows past the checkpoint. -/
theorem pending_readOutbox {g : FilesystemGraph} {sequence limit : Nat} {batch : MutationBatch}
    (h : readOutbox g (some sequence) limit = .ok batch) : Pending g sequence batch := by
  rw [readOutbox, guard_ok] at h
  obtain rfl := Except.ok.inj h.2
  refine ⟨(outboxAfter g sequence).take limit, (outboxAfter g sequence).drop limit,
    (List.take_append_drop _ _).symm, ?_⟩
  simp [Table.page, outboxAfter]

omit [CaseMapping] in
theorem writes_of_taken {batch : MutationBatch} {taken : List (Nat × OutboxRow)}
    (h : batch.mutations = taken.map fun x => ⟨x.1, x.2.mutation⟩) :
    batch.mutations.map (·.mutation.write) = rowWrites taken := by
  rw [h, rowWrites, List.map_map]
  rfl

omit [CaseMapping] in
/-- The rows past the last sequence of a pending batch are those it left. -/
theorem outboxAfter_last {g : FilesystemGraph} {sequence last : Nat} {batch : MutationBatch}
    {taken rest : List (Nat × OutboxRow)} (hrows : outboxAfter g sequence = taken ++ rest)
    (hbatch : batch.mutations = taken.map fun x => ⟨x.1, x.2.mutation⟩)
    (hlast : batch.lastSequence = some last) : outboxAfter g last = rest := by
  rw [MutationBatch.lastSequence, hbatch, List.getLast?_map, Option.map_map] at hlast
  obtain ⟨x, hx, hxlast⟩ := Option.map_eq_some_iff.mp hlast
  obtain rfl : x.1 = last := hxlast
  have hsorted : (taken ++ rest).Pairwise fun a b => a.1 < b.1 :=
    hrows ▸ Table.select_sorted g.outbox _
  obtain ⟨htaken, -, hcross⟩ := List.pairwise_append.mp hsorted
  have hmem : x ∈ taken := List.mem_of_getLast? hx
  have hle : ∀ y ∈ taken, y.1 ≤ x.1 := by
    intro y hy
    obtain ⟨front, rfl⟩ := List.getLast?_eq_some_iff.mp hx
    rcases List.mem_append.mp hy with hy | hy
    · exact ((List.pairwise_append.mp htaken).2.2 y hy x (List.mem_singleton_self x)).le
    · rw [List.mem_singleton.mp hy]
  have hpast : sequence < x.1 :=
    (mem_outboxAfter.mp (hrows ▸ List.mem_append_left rest hmem : (x.1, x.2) ∈ outboxAfter g sequence)).2
  -- filtering by the later position first drops nothing that it keeps
  have hfilter : outboxAfter g x.1 =
      (outboxAfter g sequence).filter fun y => decide (x.1 < y.1) := by
    simp only [outboxAfter, Table.select, List.filter_filter]
    refine List.filter_congr fun y _ => ?_
    by_cases hy : x.1 < y.1
    · simp [hy, hpast.trans hy]
    · simp [hy]
  have hdrop : taken.filter (fun y => decide (x.1 < y.1)) = [] :=
    List.filter_eq_nil_iff.mpr fun y hy => by simpa using hle y hy
  have hkeep : rest.filter (fun y => decide (x.1 < y.1)) = rest :=
    List.filter_eq_self.mpr fun y hy => decide_eq_true (hcross x hmem y hy)
  rw [hfilter, hrows, List.filter_append, hdrop, hkeep, List.nil_append]

/-- One step keeps the invariant, and what the index settles to changes by the
rows the step appends and by nothing else. -/
theorem workerInvariant_step {W : GraphOp → FilesystemGraph → Prop} {s s' : ProjectionState}
    {sequence : Nat} (h : WorkerStep consumer generation W s s')
    (hinv : WorkerInvariant consumer generation s sequence) :
    ∃ sequence', WorkerInvariant consumer generation s' sequence' ∧
      settledMap s' sequence' = replay (settledMap s sequence)
        (rowWrites (outboxAfter s'.graph (highWater s.graph))) := by
  have hnone := outboxAfter_highWater hinv.outbox
  cases h with
  | @read g index checkpoint batch limit hcheckpoint hread hnonempty hvalid =>
    obtain rfl := Option.some.inj (hcheckpoint.symm.trans hinv.checkpoint)
    refine ⟨sequence, ⟨hinv.wellFormed, hinv.outbox, hinv.checkpoint, hinv.unique, ?_, ?_⟩, ?_⟩
    · intro other hother
      obtain hother | hother := hother
      · obtain rfl := WorkerPhase.applying.inj hother
        exact pending_readOutbox hread
      · cases hother
    · intro other hother
      cases hother
    · rw [hnone]
      rfl
  | @commit g index index' batch happly =>
    obtain ⟨taken, rest, hrows, hbatch⟩ := hinv.pending batch (Or.inl rfl)
    have hmap : indexMap index' = replay (indexMap index) (rowWrites taken) := by
      rw [indexMap_applyAll happly, List.map_map, ← writes_of_taken hbatch]
      rfl
    refine ⟨sequence, ⟨hinv.wellFormed, hinv.outbox, hinv.checkpoint,
      uniqueDocuments_applyAll hinv.unique happly, ?_, ?_⟩, ?_⟩
    · intro other hother
      obtain hother | hother := hother
      · cases hother
      · obtain rfl := WorkerPhase.committed.inj hother
        exact ⟨taken, rest, hrows, hbatch⟩
    · intro other hother
      obtain rfl := WorkerPhase.committed.inj hother
      rw [writes_of_taken hbatch, hmap]
      exact replay_absorb _ fun w hw => ⟨w, hw, rfl⟩
    · rw [hnone]
      simp only [settledMap, hmap]
      refine replay_absorb _ fun w hw => ⟨w, ?_, rfl⟩
      rw [hrows, rowWrites_append]
      exact List.mem_append_left _ hw
  | @acknowledge g g' index batch last hlast hack =>
    obtain ⟨taken, rest, hrows, hbatch⟩ := hinv.pending batch (Or.inr rfl)
    have hrun : (GraphOp.acknowledgeProjection consumer last generation).run g = .ok g' := hack
    have hout : OutboxWF g' := outboxWF_of_run hinv.wellFormed hinv.outbox hrun
    have hwf : WellFormed g' := wellFormed_of_run hinv.wellFormed hrun
    obtain ⟨-, -, -, -, rfl⟩ := acknowledgeProjection_ok.mp hack
    refine ⟨last, ⟨hwf, hout, Table.get_insert_self _ _ _, hinv.unique, ?_, ?_⟩, ?_⟩
    · intro other hother
      obtain hother | hother := hother <;> cases hother
    · intro other hother
      cases hother
    · have hsame : outboxAfter { g with consumers := g.consumers.insert consumer ⟨last, generation⟩ }
          (highWater g) = [] := hnone
      have hleft := outboxAfter_last hrows hbatch hlast
      change replay (indexMap index) (rowWrites (outboxAfter g last)) = replay _ (rowWrites _)
      rw [hsame, hleft, settledMap, hrows, rowWrites_append, replay_append]
      have hcontained := hinv.contained batch rfl
      rw [writes_of_taken hbatch] at hcontained
      exact congrArg (replay · (rowWrites rest)) hcontained.symm
  | stop =>
    refine ⟨sequence, ⟨hinv.wellFormed, hinv.outbox, hinv.checkpoint, hinv.unique, ?_, ?_⟩, ?_⟩
    · intro other hother
      obtain hother | hother := hother <;> cases hother
    · intro other hother
      cases hother
    · rw [hnone]
      rfl
  | @write _ g' op hspares hallowed hrun =>
    have hkeeps := keepsTail_of_run hinv.wellFormed hinv.outbox hspares hinv.checkpoint hrun
    refine ⟨sequence, ⟨wellFormed_of_run hinv.wellFormed hrun,
      outboxWF_of_run hinv.wellFormed hinv.outbox hrun, hkeeps.checkpoint, hinv.unique, ?_,
      hinv.contained⟩, ?_⟩
    · intro batch hbatch
      obtain ⟨taken, rest, hrows, hmutations⟩ := hinv.pending batch hbatch
      refine ⟨taken, rest ++ outboxAfter g' (highWater s.graph), ?_, hmutations⟩
      rw [hkeeps.tail, hrows, List.append_assoc]
    · change replay _ (rowWrites (outboxAfter g' sequence)) = _
      rw [hkeeps.tail, rowWrites_append, replay_append]
      rfl

theorem highWater_mono {W : GraphOp → FilesystemGraph → Prop} {s s' : ProjectionState}
    {sequence : Nat} (h : WorkerStep consumer generation W s s')
    (hinv : WorkerInvariant consumer generation s sequence) :
    highWater s.graph ≤ highWater s'.graph := by
  cases h with
  | read | commit | stop => exact le_rfl
  | acknowledge hlast hack =>
    obtain ⟨-, -, -, -, rfl⟩ := acknowledgeProjection_ok.mp hack
    exact le_rfl
  | write op hspares hallowed hrun =>
    exact (keepsTail_of_run hinv.wellFormed hinv.outbox hspares hinv.checkpoint hrun).mono

/-- Runs of the worker and its writers from checkpoint `sequence`, with every
row past it that the outbox ever held, in the order of their sequences. -/
inductive Projecting (consumer : String) (generation : Nat)
    (W : GraphOp → FilesystemGraph → Prop) (s₀ : ProjectionState) (sequence : Nat) :
    ProjectionState → List (Nat × OutboxRow) → Prop
  | start : Projecting consumer generation W s₀ sequence s₀ (outboxAfter s₀.graph sequence)
  | step {s s' : ProjectionState} {log : List (Nat × OutboxRow)}
      (hrun : Projecting consumer generation W s₀ sequence s log)
      (hstep : WorkerStep consumer generation W s s') :
      Projecting consumer generation W s₀ sequence s'
        (log ++ outboxAfter s'.graph (highWater s.graph))

theorem workerInvariant_run {W : GraphOp → FilesystemGraph → Prop} {s₀ s : ProjectionState}
    {sequence : Nat} {log : List (Nat × OutboxRow)}
    (h : Projecting consumer generation W s₀ sequence s log)
    (hinv : WorkerInvariant consumer generation s₀ sequence) :
    ∃ reached, WorkerInvariant consumer generation s reached ∧
      settledMap s reached = replay (indexMap s₀.index) (rowWrites log) := by
  induction h with
  | start => exact ⟨sequence, hinv, rfl⟩
  | step hrun hstep ih =>
    obtain ⟨reached, hreached, hsettled⟩ := ih
    obtain ⟨next, hnext, hstepped⟩ := workerInvariant_step hstep hreached
    refine ⟨next, hnext, ?_⟩
    rw [hstepped, hsettled, rowWrites_append, replay_append]

/-- The log of a run is in sequence order. -/
theorem projecting_log {W : GraphOp → FilesystemGraph → Prop} {s₀ s : ProjectionState}
    {sequence : Nat} {log : List (Nat × OutboxRow)}
    (h : Projecting consumer generation W s₀ sequence s log)
    (hinv : WorkerInvariant consumer generation s₀ sequence) :
    log.Pairwise (fun a b => a.1 < b.1) ∧ ∀ x ∈ log, x.1 ≤ highWater s.graph := by
  induction h with
  | start =>
    refine ⟨Table.select_sorted _ _, fun x hx => ?_⟩
    exact hinv.outbox.rows x.1 x.2 (mem_outboxAfter.mp hx).1
  | @step s s' log hrun hstep ih =>
    obtain ⟨hsorted, hbound⟩ := ih
    obtain ⟨reached, hreached, -⟩ := workerInvariant_run hrun hinv
    obtain ⟨next, hnext, -⟩ := workerInvariant_step hstep hreached
    have hmono := highWater_mono hstep hreached
    refine ⟨List.pairwise_append.mpr ⟨hsorted, Table.select_sorted _ _, fun x hx y hy => ?_⟩, ?_⟩
    · have hle := hbound x hx
      have hlt := (mem_outboxAfter.mp hy).2
      omega
    · intro x hx
      rcases List.mem_append.mp hx with hx | hx
      · exact (hbound x hx).trans hmono
      · exact hnext.outbox.rows x.1 x.2 (mem_outboxAfter.mp hx).1

/-- Whenever the checkpoint is at the newest sequence, the index holds the base
map with every mutation past the first checkpoint applied in sequence order,
however often batches were cut, crashed and applied again. -/
theorem projection_crash_safe {W : GraphOp → FilesystemGraph → Prop} {s₀ s : ProjectionState}
    {sequence : Nat} {log : List (Nat × OutboxRow)} (hwf : WellFormed s₀.graph)
    (hout : OutboxWF s₀.graph) (hidle : s₀.phase = .idle)
    (hcheckpoint : projectorCheckpoint s₀.graph consumer = some ⟨sequence, generation⟩)
    (hunique : UniqueDocuments s₀.index)
    (hrun : Projecting consumer generation W s₀ sequence s log) :
    UniqueDocuments s.index ∧ log.Pairwise (fun a b => a.1 < b.1) ∧
      ∀ reached, projectorCheckpoint s.graph consumer = some ⟨reached, generation⟩ →
        reached = latestOutboxSequence s.graph →
        indexMap s.index = replay (indexMap s₀.index) (rowWrites log) := by
  have hinv : WorkerInvariant consumer generation s₀ sequence := by
    refine ⟨hwf, hout, hcheckpoint, hunique, ?_, ?_⟩
    · intro batch hbatch
      rw [hidle] at hbatch
      obtain hbatch | hbatch := hbatch <;> cases hbatch
    · intro batch hbatch
      rw [hidle] at hbatch
      cases hbatch
  obtain ⟨current, hcurrent, hsettled⟩ := workerInvariant_run hrun hinv
  refine ⟨hcurrent.unique, (projecting_log hrun hinv).1, fun reached hreached hlatest => ?_⟩
  obtain ⟨rfl, -⟩ := ConsumerRow.mk.inj (Option.some.inj (hreached.symm.trans hcurrent.checkpoint))
  rw [latestOutboxSequence_eq hcurrent.outbox] at hlatest
  rw [← hsettled, settledMap, hlatest, outboxAfter_highWater hcurrent.outbox]
  rfl

theorem Projecting.steps {W : GraphOp → FilesystemGraph → Prop} {s₀ s s' : ProjectionState}
    {sequence : Nat} {log : List (Nat × OutboxRow)}
    (h : Projecting consumer generation W s₀ sequence s log)
    (hsteps : Relation.ReflTransGen (WorkerStep consumer generation W) s s') :
    ∃ log', Projecting consumer generation W s₀ sequence s' log' := by
  induction hsteps with
  | refl => exact ⟨log, h⟩
  | tail _ hstep ih =>
    obtain ⟨log', hlog⟩ := ih
    exact ⟨_, hlog.step hstep⟩

end Worker

section Example

attribute [local instance] asciiCaseMapping

/-- The sample tree with a consumer that has read nothing. -/
def unreadSample : FilesystemGraph :=
  (runOps .empty [.applyBatch (sampleBatch sampleTree),
    .acknowledgeProjection "catalog" 0 1]).toOption.getD .empty

/-- The first two rows, read and committed before the crash. -/
def crashedBatch : MutationBatch := (readOutbox unreadSample (some 0) 2).toOption.getD ⟨[]⟩

def crashedIndex : List CatalogDocument :=
  (CatalogWriter.applyAll [] (crashedBatch.mutations.map (·.mutation))).toOption.getD []

/-- While the worker is down the directory is renamed. -/
def renameDown : GraphOp :=
  .applyBatch (sampleBatch [.upsertLink (sampleLink 8 2 (some 1) "e") false])

def renamedDown : FilesystemGraph := (renameDown.run unreadSample).toOption.getD .empty

/-- The pass after the restart, in batches of three. -/
def restartedPass : FilesystemGraph × List CatalogDocument :=
  (runLoop "catalog" 1 3 10 renamedDown crashedIndex).toOption.getD (.empty, [])

theorem crashedSample_run :
    WorkerStep "catalog" 1 (fun _ _ => True) ⟨unreadSample, [], .idle⟩
        ⟨unreadSample, [], .applying crashedBatch⟩ ∧
      WorkerStep "catalog" 1 (fun _ _ => True) ⟨unreadSample, [], .applying crashedBatch⟩
        ⟨unreadSample, crashedIndex, .committed crashedBatch⟩ ∧
      WorkerStep "catalog" 1 (fun _ _ => True) ⟨unreadSample, crashedIndex, .idle⟩
        ⟨renamedDown, crashedIndex, .idle⟩ ∧
      Relation.ReflTransGen (WorkerStep "catalog" 1 fun _ _ => True)
        ⟨renamedDown, crashedIndex, .idle⟩ ⟨restartedPass.1, restartedPass.2, .idle⟩ := by
  have hcheckpoint : projectorCheckpoint unreadSample "catalog" = some ⟨0, 1⟩ := by decide
  have hloop : runLoop "catalog" 1 3 10 renamedDown crashedIndex =
      .ok (restartedPass.1, restartedPass.2) := by decide
  refine ⟨.read 2 hcheckpoint (by decide) (by decide) (by decide),
    .commit (by decide), ?_, runLoop_steps hloop⟩
  exact .write renameDown trivial trivial (by decide)

theorem unreadSample_wellFormed : WellFormed unreadSample ∧ OutboxWF unreadSample := by
  have hrun : runOps .empty [.applyBatch (sampleBatch sampleTree),
      .acknowledgeProjection "catalog" 0 1] = .ok unreadSample := by decide
  have hreach : Reachable unreadSample := runOps_steps (fun _ _ _ => trivial) hrun
  exact ⟨hreach.wellFormed, hreach.outboxWF⟩

/-- A batch committed before a crash is read again in another cut behind a
rename, and the index ends where the log leads. -/
theorem crashedSample_projects :
    ∃ log, Projecting "catalog" 1 (fun _ _ => True) ⟨unreadSample, [], .idle⟩ 0
        ⟨restartedPass.1, restartedPass.2, .idle⟩ log ∧
      UniqueDocuments restartedPass.2 ∧ log.Pairwise (fun a b => a.1 < b.1) ∧
      indexMap restartedPass.2 = replay (indexMap []) (rowWrites log) := by
  obtain ⟨hread, hcommit, hwrite, hpass⟩ := crashedSample_run
  obtain ⟨hwf, hout⟩ := unreadSample_wellFormed
  have hstart : Projecting "catalog" 1 (fun _ _ => True) ⟨unreadSample, [], .idle⟩ 0
      ⟨unreadSample, [], .idle⟩ (outboxAfter unreadSample 0) := .start
  obtain ⟨log, hrun⟩ := ((((hstart.step hread).step hcommit).step .stop).step hwrite).steps hpass
  have hempty : UniqueDocuments [] := List.nodup_nil
  obtain ⟨hunique, hsorted, hmap⟩ :=
    projection_crash_safe hwf hout rfl (by decide) hempty hrun
  refine ⟨log, hrun, hunique, hsorted, ?_⟩
  exact hmap (latestOutboxSequence restartedPass.1) (by decide) rfl

end Example

end LocalSearch.Catalog
