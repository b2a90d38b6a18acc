import LocalSearch.Graph.OutboxRows
import LocalSearch.Catalog.Rebuild
import LocalSearch.Lib.Behind

/-!
# A whole run of the projection worker

A run opens the generation its checkpoint names or rebuilds a new one from the
desired documents, then applies batches within its bounds. On a graph the store
can reach it never fails: no batch has a gap or a foreign document, no page ends
the rebuild early, and the directories leave a generation unused.
-/
namespace LocalSearch.Catalog

set_option autoImplicit false

open Core Lib Graph

/-- `ProjectionWorkerOptions`. The heap of the writer and the clock are not part
of it; how many turns of the loop start in time is a number of the run. -/
structure ProjectionWorkerOptions where
  maximumBatchMutations : Nat
  maximumBatches : Nat
  rebuildPageSize : Nat
  deriving DecidableEq, Repr

inductive RecoveryKind where
  | existingGeneration
  | rebuiltGeneration
  deriving DecidableEq, Repr

/-- `ProjectionRunSummary`, without its counts of batches and mutations. -/
structure ProjectionRunSummary where
  recovery : RecoveryKind
  indexGeneration : Nat
  appliedSequence : Nat
  backlogRemaining : Bool
  deriving DecidableEq, Repr

/-- The graph and the generation directories. A directory that exists without
documents is one that does not open. -/
structure CatalogFiles where
  graph : FilesystemGraph
  generations : Table Nat (Option (List CatalogDocument))
  deriving DecidableEq

/-- `CatalogIndex::open` on the directory of a generation. -/
def openIndex (generations : Table Nat (Option (List CatalogDocument))) (generation : Nat) :
    Option (List CatalogDocument) :=
  (generations.get generation).join

/-- `u64::saturating_add(1)`. -/
def saturatingNext (generation : Nat) : Nat := min (generation + 1) (2 ^ 64 - 1)

/-- The loop of `next_unused_generation`, in as many turns as there are
directories. -/
def nextUnusedGeneration (generations : Table Nat (Option (List CatalogDocument))) :
    Nat → Nat → Nat
  | 0, generation => generation
  | turns + 1, generation =>
      if (generations.get generation).isSome then
        nextUnusedGeneration generations turns (saturatingNext generation)
      else generation

section Worker

variable [CaseMapping] (consumer : String)

/-- The page loop of `rebuild`. -/
def rebuildPages (g : FilesystemGraph) (pageSize : Nat) : Nat → Option DocumentId →
    List CatalogDocument → Except ProjectionWorkerError (List CatalogDocument)
  | 0, _, staged => .ok staged
  | turns + 1, after, staged => do
      let (after, staged, last) ← readPage g pageSize after staged
      if last then .ok staged else rebuildPages g pageSize turns after staged

/-- Every page but the last holds a document, which bounds the turns. -/
def rebuild (options : ProjectionWorkerOptions) (minimumGeneration : Nat) (s : CatalogFiles) :
    Except ProjectionWorkerError (RecoveryKind × Nat × List CatalogDocument × CatalogFiles) := do
  let generation :=
    nextUnusedGeneration s.generations s.generations.rows.length minimumGeneration
  let staged ← rebuildPages s.graph options.rebuildPageSize (s.graph.catalog.rows.length + 1) none []
  let sequence := latestOutboxSequence s.graph
  let g ← (acknowledgeProjection s.graph consumer sequence generation).mapError .graph
  .ok (.rebuiltGeneration, generation, staged, ⟨g, s.generations.insert generation (some staged)⟩)

def recover (options : ProjectionWorkerOptions) (s : CatalogFiles) :
    Except ProjectionWorkerError (RecoveryKind × Nat × List CatalogDocument × CatalogFiles) :=
  match projectorCheckpoint s.graph consumer with
  | none => rebuild consumer options 1 s
  | some checkpoint =>
      match openIndex s.generations checkpoint.indexGeneration with
      | some index => .ok (.existingGeneration, checkpoint.indexGeneration, index, s)
      | none => rebuild consumer options (saturatingNext checkpoint.indexGeneration) s

/-- `ProjectionWorker::run`, with `timely` turns of its loop before the clock
ends it. -/
def run (options : ProjectionWorkerOptions) (timely : Nat) (s : CatalogFiles) :
    Except ProjectionWorkerError (CatalogFiles × ProjectionRunSummary) := do
  let (recovery, generation, index, s) ← recover consumer options s
  let (g, index) ← runLoop consumer generation options.maximumBatchMutations
    (min options.maximumBatches timely) s.graph index
  match projectorCheckpoint g consumer with
  | none => .error (.outbox "missing final checkpoint")
  | some checkpoint =>
      .ok (⟨g, s.generations.insert generation (some index)⟩,
        ⟨recovery, generation, checkpoint.lastSequence,
          decide (checkpoint.lastSequence < latestOutboxSequence g)⟩)

end Worker

section Loop

variable {consumer : String} {generation sequence : Nat} {g : FilesystemGraph}

theorem applyAll_total {documents : List CatalogDocument} {mutations : List IndexMutation}
    (h : ∀ document, .upsert document ∈ mutations →
      document.identity.documentId = documentIdFromLink document) :
    ∃ documents', CatalogWriter.applyAll documents mutations = .ok documents' := by
  induction mutations generalizing documents with
  | nil => exact ⟨documents, rfl⟩
  | cons mutation rest ih =>
    have hrest := fun document hmem => h document (List.mem_cons_of_mem _ hmem)
    obtain ⟨staged, hstaged⟩ : ∃ staged, CatalogWriter.apply documents mutation = .ok staged := by
      cases mutation with
      | delete d version => exact ⟨_, rfl⟩
      | upsert document =>
        have hown := h document List.mem_cons_self
        exact ⟨_, by rw [CatalogWriter.apply, if_neg (by simpa using hown)]⟩
    obtain ⟨documents', hdocuments'⟩ := @ih staged hrest
    exact ⟨documents', bind_ok.mpr ⟨staged, hstaged, hdocuments'⟩⟩

/-- What a worker relies on at its checkpoint. -/
structure Readable (consumer : String) (generation : Nat) (g : FilesystemGraph) (sequence : Nat) :
    Prop where
  rows : OutboxRows g
  checkpoint : projectorCheckpoint g consumer = some ⟨sequence, generation⟩
  unread : Unread g sequence
  mark : highWater g < 2 ^ 63
  generation_lt : generation < 2 ^ 63

theorem Readable.le (h : Readable consumer generation g sequence) : sequence ≤ highWater g :=
  h.rows.wf.consumers consumer ⟨sequence, generation⟩ h.checkpoint

/-- A batch read at the checkpoint, and what becomes of it. -/
theorem Readable.batch (h : Readable consumer generation g sequence) {limit : Nat} (hlimit : 1 ≤ limit)
    (index : List CatalogDocument) : ∃ batch, readOutbox g (some sequence) limit = .ok batch ∧
      ((batch.mutations = [] ∧ sequence = highWater g) ∨
        ∃ last index' g', batch.mutations.isEmpty = false ∧ batch.validate = .ok () ∧
          CatalogWriter.applyAll index (batch.mutations.map (·.mutation)) = .ok index' ∧
          batch.lastSequence = some last ∧ sequence < last ∧
          acknowledgeProjection g consumer last generation = .ok g' ∧
          Readable consumer generation g' last ∧
          g' = { g with consumers := g'.consumers }) := by
  have hle := h.le
  have hmark := h.mark
  obtain ⟨batch, hread⟩ : ∃ batch, readOutbox g (some sequence) limit = .ok batch :=
    ⟨_, by rw [readOutbox, Option.getD_some, if_neg (by omega)]⟩
  refine ⟨batch, hread, ?_⟩
  obtain ⟨taken, rest, hrows, hbatch⟩ := pending_readOutbox hread
  have hmem : ∀ x ∈ taken, g.outbox.get x.1 = some x.2 ∧ sequence < x.1 := fun x hx =>
    mem_outboxAfter.mp (hrows ▸ List.mem_append_left rest hx : (x.1, x.2) ∈ outboxAfter g sequence)
  rcases h.rows.readOutbox_validate (by omega) hread with hempty | hvalid
  · refine Or.inl ⟨hempty, ?_⟩
    by_contra hbehind
    obtain ⟨row, hrow⟩ := h.unread (sequence + 1) (Nat.lt_succ_self _) (by omega)
    have hafter : (sequence + 1, row) ∈ outboxAfter g sequence :=
      mem_outboxAfter.mpr ⟨hrow, Nat.lt_succ_self _⟩
    rw [readOutbox, guard_ok] at hread
    have hnone : (outboxAfter g sequence).take limit = [] := by
      have hpage := congrArg MutationBatch.mutations (Except.ok.inj hread.2)
      rw [hempty] at hpage
      simpa [Table.page, outboxAfter] using hpage
    rw [List.take_eq_nil_iff] at hnone
    rcases hnone with hzero | hnil
    · omega
    · rw [hnil] at hafter
      cases hafter
  · right
    have hnonempty : batch.mutations ≠ [] := by
      intro hnil
      rw [MutationBatch.validate, hnil] at hvalid
      cases hvalid
    have htaken : taken ≠ [] := by
      rintro rfl
      exact hnonempty hbatch
    obtain ⟨x, hx⟩ := Option.ne_none_iff_exists'.mp (mt List.getLast?_eq_none_iff.mp htaken)
    have hlast : batch.lastSequence = some x.1 := by
      rw [MutationBatch.lastSequence, hbatch, List.getLast?_map, hx]
      rfl
    obtain ⟨hget, hlt⟩ := hmem x (List.mem_of_getLast? hx)
    have hbound := h.rows.wf.rows x.1 x.2 hget
    obtain ⟨index', happly⟩ := @applyAll_total index (batch.mutations.map (·.mutation)) (by
      intro document hdocument
      rw [hbatch, List.map_map] at hdocument
      obtain ⟨y, hy, hmutation⟩ := List.mem_map.mp hdocument
      exact h.rows.own y.1 y.2 document (hmem y hy).1 hmutation)
    have hack : acknowledgeProjection g consumer x.1 generation =
        .ok { g with consumers := g.consumers.insert consumer ⟨x.1, generation⟩ } := by
      refine acknowledgeProjection_ok.mpr ⟨?_, ?_, ?_, h.generation_lt, rfl⟩
      · rw [latestOutboxSequence_eq h.rows.wf]
        exact hbound
      · intro row hrow
        obtain rfl := Option.some.inj (h.checkpoint.symm.trans hrow)
        exact hlt.le
      · omega
    refine ⟨x.1, index', _, by simpa using hnonempty, hvalid, happly, hlast, hlt, hack, ?_, rfl⟩
    exact
      { rows := ⟨h.rows.wf.acknowledgeProjection hack, h.rows.contiguous, h.rows.own⟩
        checkpoint := Table.get_insert_self _ _ _
        unread := fun n hlow hhigh => h.unread n (hlt.trans hlow) hhigh
        mark := h.mark
        generation_lt := h.generation_lt }

/-- The loop neither fails nor stalls: it ends at the newest sequence or after
as many batches as it may apply. -/
theorem runLoop_total {limit batches : Nat} {index : List CatalogDocument}
    (h : Readable consumer generation g sequence) (hlimit : 1 ≤ limit) :
    ∃ g' index' sequence', runLoop consumer generation limit batches g index = .ok (g', index') ∧
      Readable consumer generation g' sequence' ∧ g' = { g with consumers := g'.consumers } ∧
      sequence ≤ sequence' ∧ (sequence' = highWater g ∨ sequence + batches ≤ sequence') := by
  induction batches generalizing g index sequence with
  | zero => exact ⟨g, index, sequence, rfl, h, rfl, Nat.le_refl _, Or.inr (Nat.le_refl _)⟩
  | succ batches ih =>
    obtain ⟨batch, hread, ⟨hempty, hdone⟩ |
      ⟨last, index₁, g₁, hnonempty, hvalid, happly, hlast, hlt, hack, hnext, hframe⟩⟩ :=
      h.batch hlimit index
    · refine ⟨g, index, sequence, ?_, h, rfl, Nat.le_refl _, Or.inl hdone⟩
      simp [runLoop, h.checkpoint, hread, hempty, Except.mapError, bind, Except.bind]
    · obtain ⟨g', index', sequence', hrest, hreadable, hsame, hle, hend⟩ :=
        @ih last g₁ index₁ hnext
      have hmark : highWater g₁ = highWater g := by rw [hframe]; rfl
      refine ⟨g', index', sequence', ?_, hreadable, ?_, by omega, ?_⟩
      · simp [runLoop, h.checkpoint, hread, hnonempty, hvalid, happly, hlast, hack, hrest,
          Except.mapError, bind, Except.bind]
      · rw [hsame, hframe]
      · rw [hmark] at hend
        omega

end Loop

/-- The directories of later generations bound the turns of the search. -/
theorem nextUnusedGeneration_unused
    {generations : Table Nat (Option (List CatalogDocument))} {turns generation : Nat}
    (hturns : (generations.select fun k _ => decide (generation ≤ k)).length ≤ turns)
    (hsmall : generation + turns < 2 ^ 63) :
    generations.get (nextUnusedGeneration generations turns generation) = none ∧
      generation ≤ nextUnusedGeneration generations turns generation ∧
      nextUnusedGeneration generations turns generation ≤ generation + turns := by
  induction turns generalizing generation with
  | zero =>
    refine ⟨?_, Nat.le_refl _, Nat.le_refl _⟩
    cases hget : generations.get generation with
    | none => exact hget
    | some index =>
      have hmem : (generation, index) ∈ generations.select fun k _ => decide (generation ≤ k) :=
        Table.mem_select.mpr ⟨hget, decide_eq_true (Nat.le_refl _)⟩
      rw [List.length_eq_zero_iff.mp (Nat.le_zero.mp hturns)] at hmem
      cases hmem
  | succ turns ih =>
    rw [nextUnusedGeneration]
    cases hget : generations.get generation with
    | none =>
      rw [if_neg (by simp)]
      exact ⟨hget, Nat.le_refl _, Nat.le_add_right _ _⟩
    | some index =>
      have hnext : saturatingNext generation = generation + 1 := by
        rw [saturatingNext]
        omega
      have hfewer : (generations.select fun k _ => decide (generation + 1 ≤ k)).length <
          (generations.select fun k _ => decide (generation ≤ k)).length := by
        refine Table.select_length_lt (fun k r hk hlater => ⟨r, hk, ?_⟩) hget
          (decide_eq_true (Nat.le_refl _)) ?_
        · have hle := of_decide_eq_true hlater
          exact decide_eq_true (by omega)
        · intro r _
          exact decide_eq_false (by omega)
      rw [Option.isSome_some, if_pos rfl, hnext]
      obtain ⟨hunused, hlow, hhigh⟩ := @ih (generation + 1) (by omega) (by omega)
      exact ⟨hunused, by omega, by omega⟩

section Recovery

variable [CaseMapping] {consumer : String} {g : FilesystemGraph}

omit [CaseMapping] in
theorem addAll_total {staged documents : List CatalogDocument}
    (h : ∀ document ∈ documents,
      document.identity.documentId = documentIdFromLink document) :
    CatalogWriter.addAll staged documents = .ok (staged ++ documents) := by
  induction documents generalizing staged with
  | nil => rw [List.append_nil]; rfl
  | cons document rest ih =>
    have hown := h document List.mem_cons_self
    refine bind_ok.mpr ⟨staged ++ [document], ?_, ?_⟩
    · rw [CatalogWriter.addCurrent, if_neg (by simpa using hown)]
    · rw [ih fun x hx => h x (List.mem_cons_of_mem _ hx), List.append_assoc]
      rfl

/-- A turn of the page loop ends it or passes a document. -/
theorem readPage_total (hwf : WellFormed g) {limit : Nat} {after : Option DocumentId}
    {staged : List CatalogDocument} : ∃ after' staged' last,
      readPage g limit after staged = .ok (after', staged', last) ∧
        (last = true ∨ g.catalog.behind after' < g.catalog.behind after) := by
  obtain ⟨documents, hrows, -, hmem⟩ := joinedRows_eq hwf after
  have hpage : desiredCatalogPage g after limit = .ok (documents.take limit) := by
    rw [desiredCatalogPage, hrows, ← List.map_take, collectDocuments_ok]
  have hdesired : ∀ document ∈ documents.take limit,
      Table.After after document.identity.documentId ∧ Desired g document := fun document hdoc =>
    (hmem document).mp (List.mem_of_mem_take hdoc)
  have hadd : CatalogWriter.addAll staged (documents.take limit) =
      .ok (staged ++ documents.take limit) :=
    addAll_total fun document hdoc => ((hdesired document hdoc).2.link hwf).1
  cases hlast : (documents.take limit).getLast? with
  | none =>
    have hempty := List.getLast?_eq_none_iff.mp hlast
    refine ⟨after, staged, true, ?_, Or.inl rfl⟩
    simp [readPage, hpage, hempty, Except.mapError, bind, Except.bind]
  | some document =>
    have hin := List.mem_of_getLast? hlast
    obtain ⟨hafter, row, hrow, -⟩ := hdesired document hin
    refine ⟨some document.identity.documentId, staged ++ documents.take limit,
      decide ((documents.take limit).length < limit), ?_, Or.inr (Table.behind_lt hrow hafter)⟩
    have hnonempty : (documents.take limit).isEmpty = false := by
      simpa using List.ne_nil_of_mem hin
    rw [readPage, hpage]
    simp only [Except.mapError, bind, Except.bind, hnonempty, hadd, hlast, Option.map_some]
    rfl

theorem rebuildPages_steps (hwf : WellFormed g) {limit turns : Nat} {after : Option DocumentId}
    {staged : List CatalogDocument} (hturns : g.catalog.behind after < turns) :
    ∃ staged', rebuildPages g limit turns after staged = .ok staged' ∧
      Relation.ReflTransGen (RebuildStep limit) ⟨g, staged, .paging after⟩ ⟨g, staged', .paged⟩ := by
  induction turns generalizing after staged with
  | zero => omega
  | succ turns ih =>
    obtain ⟨after', staged', last, hread, hend⟩ := @readPage_total _ g hwf limit after staged
    cases last with
    | true =>
      exact ⟨staged', bind_ok.mpr ⟨_, hread, rfl⟩, .single (.lastPage hread)⟩
    | false =>
      rcases hend with hcontra | hless
      · cases hcontra
      · obtain ⟨staged'', hrest, hsteps⟩ := @ih after' staged' (by omega)
        exact ⟨staged'', bind_ok.mpr ⟨_, hread, hrest⟩, .head (.page hread) hsteps⟩

theorem Rebuilding.calls {limit : Nat} {C : WriteCondition} {g₀ : FilesystemGraph}
    {s s' : RebuildState} {U : Outdated} (h : Rebuilding limit C g₀ s U)
    (hsteps : Relation.ReflTransGen (RebuildStep limit) s s') :
    ∃ U', Rebuilding limit C g₀ s' U' := by
  induction hsteps with
  | refl => exact ⟨U, h⟩
  | tail _ hstep ih =>
    obtain ⟨U', hprev⟩ := ih
    exact ⟨_, hprev.call hstep⟩

/-- The index, once everything unread is applied, describes the stored rows, and
everything unread is there. -/
structure Serving (consumer : String) (generation : Nat) (g : FilesystemGraph)
    (index : List CatalogDocument) (sequence : Nat) : Prop where
  rows : OutboxRows g
  unread : Unread g sequence
  generation_lt : generation < 2 ^ 63
  rebuilt : ∃ U, RebuiltInvariant consumer generation ⟨g, index, .idle⟩ U sequence

variable {generation sequence : Nat} {index : List CatalogDocument}

theorem Serving.checkpoint (h : Serving consumer generation g index sequence) :
    projectorCheckpoint g consumer = some ⟨sequence, generation⟩ := by
  obtain ⟨U, hinv⟩ := h.rebuilt
  exact hinv.worker.checkpoint

theorem Serving.ingested (h : Serving consumer generation g index sequence) : Ingested g := by
  obtain ⟨U, hinv⟩ := h.rebuilt
  exact hinv.graph

theorem Serving.readable (h : Serving consumer generation g index sequence)
    (hmark : highWater g < 2 ^ 63) : Readable consumer generation g sequence :=
  ⟨h.rows, h.checkpoint, h.unread, hmark, h.generation_lt⟩

/-- A registered generation serves the graph it was built from. -/
theorem serving_registered {limit n : Nat} {g₀ g' : FilesystemGraph} {staged : List CatalogDocument}
    {U : Outdated} (hlimit : 1 ≤ limit) (hg : Ingested g₀) (hrows : OutboxRows g)
    (hunread : Unread g n) (hrun : Rebuilding limit Harmless g₀ ⟨g, staged, .sequenced n⟩ U)
    (hack : acknowledgeProjection g consumer n generation = .ok g') :
    Serving consumer generation g' staged n := by
  have hinv : RebuiltInvariant consumer generation ⟨g', staged, .idle⟩ U n :=
    rebuiltInvariant_acknowledge (rebuildInvariant_run hlimit hg hrun) hack
  have hout := hrows.wf.acknowledgeProjection hack
  obtain ⟨-, -, -, hgeneration, rfl⟩ := acknowledgeProjection_ok.mp hack
  exact
    { rows := ⟨hout, hrows.contiguous, hrows.own⟩
      unread := hunread
      generation_lt := hgeneration
      rebuilt := ⟨U, hinv⟩ }

/-- A worker never moves its checkpoint backwards. -/
theorem WorkerStep.forward {s s' : ProjectionState} {row row' : ConsumerRow}
    (h : WorkerStep consumer generation (fun _ _ => False) s s')
    (hrow : projectorCheckpoint s.graph consumer = some row)
    (hrow' : projectorCheckpoint s'.graph consumer = some row') :
    row.lastSequence ≤ row'.lastSequence := by
  cases h with
  | read | commit | stop =>
    obtain rfl := Option.some.inj (hrow.symm.trans hrow')
    exact Nat.le_refl _
  | acknowledge hlast hack =>
    obtain ⟨-, hforward, -, -, rfl⟩ := acknowledgeProjection_ok.mp hack
    rw [projectorCheckpoint, Table.get_insert_self] at hrow'
    obtain rfl := Option.some.inj hrow'
    exact hforward row hrow
  | write op hspares hallowed hrun => exact hallowed.elim

/-- The same in whatever phase the worker is. -/
structure ServingIn (consumer : String) (generation : Nat) (s : ProjectionState) (sequence : Nat) :
    Prop where
  rows : OutboxRows s.graph
  unread : Unread s.graph sequence
  generation_lt : generation < 2 ^ 63
  rebuilt : ∃ U, RebuiltInvariant consumer generation s U sequence

theorem Serving.serving_in (h : Serving consumer generation g index sequence) :
    ServingIn consumer generation ⟨g, index, .idle⟩ sequence :=
  ⟨h.rows, h.unread, h.generation_lt, h.rebuilt⟩

theorem ServingIn.serving (h : ServingIn consumer generation ⟨g, index, .idle⟩ sequence) :
    Serving consumer generation g index sequence :=
  ⟨h.rows, h.unread, h.generation_lt, h.rebuilt⟩

/-- What the worker itself does keeps the generation serving. -/
theorem ServingIn.work {s s' : ProjectionState} (h : ServingIn consumer generation s sequence)
    (hstep : WorkerStep consumer generation (fun _ _ => False) s s') :
    ∃ reached, ServingIn consumer generation s' reached := by
  obtain ⟨U, hinv⟩ := h.rebuilt
  obtain ⟨reached, hreached⟩ := rebuiltInvariant_work hinv hstep
  have hforward : sequence ≤ reached := hstep.forward hinv.worker.checkpoint hreached.worker.checkpoint
  have hframe := hstep.graph_eq
  refine ⟨reached, ⟨hreached.worker.outbox, ?_, ?_⟩, ?_, h.generation_lt, ⟨U, hreached⟩⟩
  · rw [hframe]
    exact h.rows.contiguous
  · rw [hframe]
    exact h.rows.own
  · rw [hframe]
    exact fun k hlate hbound => h.unread k (by omega) hbound

/-- Whatever a worker gets done keeps the generation serving. -/
theorem Serving.worked {g' : FilesystemGraph} {index' : List CatalogDocument}
    (h : Serving consumer generation g index sequence)
    (hsteps : Relation.ReflTransGen (WorkerStep consumer generation fun _ _ => False)
      ⟨g, index, .idle⟩ ⟨g', index', .idle⟩) :
    ∃ reached, Serving consumer generation g' index' reached := by
  have hkeeps : ∀ t, Relation.ReflTransGen (WorkerStep consumer generation fun _ _ => False)
      ⟨g, index, .idle⟩ t → ∃ reached, ServingIn consumer generation t reached := by
    intro t hrun
    induction hrun with
    | refl => exact ⟨sequence, h.serving_in⟩
    | tail _ hstep ih =>
      obtain ⟨n, hn⟩ := ih
      exact hn.work hstep
  obtain ⟨reached, hreached⟩ := hkeeps _ hsteps
  exact ⟨reached, hreached.serving⟩

/-- The loop keeps a generation serving. -/
theorem Serving.runLoop {limit batches sequence' : Nat} {g' : FilesystemGraph}
    {index' : List CatalogDocument} (h : Serving consumer generation g index sequence)
    (hrun : Catalog.runLoop consumer generation limit batches g index = .ok (g', index'))
    (hreadable : Readable consumer generation g' sequence') :
    Serving consumer generation g' index' sequence' := by
  obtain ⟨reached, hserving⟩ := h.worked (runLoop_steps hrun)
  obtain ⟨rfl, -⟩ :=
    ConsumerRow.mk.inj (Option.some.inj (hserving.checkpoint.symm.trans hreadable.checkpoint))
  exact hserving

/-- With nothing unread and no volume pass pending the index is the desired
state. -/
theorem Serving.exact (h : Serving consumer generation g index (highWater g))
    (hidle : nextVolumeJob g = none) :
    ∃ documents, desiredCatalogDocuments g = .ok documents ∧ indexMap index = indexMap documents := by
  obtain ⟨U, hinv⟩ := h.rebuilt
  have hwf := hinv.graph.wellFormed
  have hstored : ∀ d, g.catalog.get d = (indexMap index d).map compactRow := by
    intro d
    have hexact := hinv.indexes.exact d trivial fun hd => by
      obtain ⟨row, hrow, hstale⟩ := hinv.indexes.outdated d hd
      exact hstale (hinv.graph.reportsAvailability hidle hrow)
    rw [settledMap, outboxAfter_highWater hinv.graph.outbox] at hexact
    exact hexact
  obtain ⟨documents, hdocs, hsorted, hmem⟩ := desiredCatalogDocuments_ok hwf
  have hunique : UniqueDocuments documents := by
    refine List.pairwise_map.mpr (hsorted.imp fun hlt => ?_)
    exact ne_of_lt hlt
  refine ⟨documents, hdocs, funext fun d => ?_⟩
  cases hrow : g.catalog.get d with
  | none =>
    have hindex := (hstored d).symm.trans hrow
    rw [Option.map_eq_none_iff.mp hindex, eq_comm, indexMap_eq_none]
    intro document hdoc heq
    obtain ⟨row, hget, -⟩ := (hmem document).mp hdoc
    rw [heq, hrow] at hget
    cases hget
  | some row =>
    obtain ⟨document, hdesired, rfl⟩ := exists_desired hwf hrow
    have hcompact := hdesired.compactRow_eq hwf hinv.graph.mirrors hrow
      (hinv.graph.reportsAvailability hidle hrow)
    obtain ⟨found, hfound, hsame⟩ := Option.map_eq_some_iff.mp ((hstored _).symm.trans hrow)
    rw [hfound, indexMap_of_mem hunique ((hmem document).mpr hdesired),
      compactRow_injective (hsame.trans hcompact)]

omit [CaseMapping] in
/-- Two indexes without duplicates that answer alike hold the same documents. -/
theorem perm_of_indexMap {a b : List CatalogDocument} (ha : UniqueDocuments a)
    (hb : UniqueDocuments b) (h : indexMap a = indexMap b) : a.Perm b := by
  have hmem : ∀ {l l' : List CatalogDocument}, UniqueDocuments l → indexMap l = indexMap l' →
      ∀ document ∈ l, document ∈ l' := by
    intro l l' hl hsame document hdocument
    have hfound := indexMap_of_mem hl hdocument
    rw [hsame] at hfound
    exact List.mem_of_find?_eq_some hfound
  refine (List.perm_ext_iff_of_nodup ha.of_map hb.of_map).mpr fun document => ?_
  exact ⟨hmem ha h document, hmem hb h.symm document⟩

theorem Serving.exact_perm (h : Serving consumer generation g index (highWater g)) (hidle : nextVolumeJob g = none) :
    ∃ documents, desiredCatalogDocuments g = .ok documents ∧ index.Perm documents := by
  obtain ⟨documents, hdocuments, hmap⟩ := h.exact hidle
  obtain ⟨_, hall, hsorted, -⟩ := desiredCatalogDocuments_ok h.ingested.wellFormed
  obtain rfl := Except.ok.inj (hdocuments.symm.trans hall)
  have hunique : UniqueDocuments documents := by
    refine List.pairwise_map.mpr (hsorted.imp fun hlt => ?_)
    exact ne_of_lt hlt
  obtain ⟨U, hrebuilt⟩ := h.rebuilt
  exact ⟨documents, hdocuments, perm_of_indexMap hrebuilt.worker.unique hunique hmap⟩

/-- The index of the generation the checkpoint names, where it opens. -/
def activeIndex (consumer : String) (s : CatalogFiles) : Option (List CatalogDocument) :=
  (projectorCheckpoint s.graph consumer).bind fun checkpoint =>
    openIndex s.generations checkpoint.indexGeneration

/-- The first generation a rebuild may take. -/
def nextGeneration (consumer : String) (s : CatalogFiles) : Nat :=
  match projectorCheckpoint s.graph consumer with
  | none => 1
  | some checkpoint => saturatingNext checkpoint.indexGeneration

/-- Generations are left for a rebuild, should there be one. -/
def HasRoom (consumer : String) (s : CatalogFiles) : Prop :=
  (activeIndex consumer s).isSome ∨
    nextGeneration consumer s + s.generations.rows.length < 2 ^ 63

/-- A generation that opens serves the graph. -/
structure FilesSound (consumer : String) (s : CatalogFiles) : Prop where
  ingested : Ingested s.graph
  rows : OutboxRows s.graph
  serving : ∀ checkpoint index, projectorCheckpoint s.graph consumer = some checkpoint →
    openIndex s.generations checkpoint.indexGeneration = some index →
    Serving consumer checkpoint.indexGeneration s.graph index checkpoint.lastSequence

variable {s : CatalogFiles} {options : ProjectionWorkerOptions}

omit [CaseMapping] in
theorem openIndex_insert (generations : Table Nat (Option (List CatalogDocument)))
    (n : Nat) (documents : List CatalogDocument) :
    openIndex (generations.insert n (some documents)) n = some documents := by
  rw [openIndex, Table.get_insert_self]
  rfl

theorem rebuild_ok {minimum : Nat} (hsound : FilesSound consumer s)
    (hpage : 1 ≤ options.rebuildPageSize) (hmark : highWater s.graph < 2 ^ 63)
    (hroom : minimum + s.generations.rows.length < 2 ^ 63) :
    ∃ generation staged g', rebuild consumer options minimum s = .ok (.rebuiltGeneration, generation,
        staged, ⟨g', s.generations.insert generation (some staged)⟩) ∧
      g' = { s.graph with consumers := g'.consumers } ∧
      Serving consumer generation g' staged (highWater s.graph) := by
  have hwf := hsound.ingested.wellFormed
  have hlatest := latestOutboxSequence_eq hsound.rows.wf
  obtain ⟨hunused, hlow, hhigh⟩ := @nextUnusedGeneration_unused s.generations
    s.generations.rows.length minimum (List.length_filter_le _ _) hroom
  generalize hgeneration : nextUnusedGeneration s.generations s.generations.rows.length minimum =
    generation at hunused hlow hhigh
  obtain ⟨staged, hpages, hsteps⟩ := @rebuildPages_steps _ s.graph hwf options.rebuildPageSize
    (s.graph.catalog.rows.length + 1) none [] (Nat.lt_succ_of_le (List.length_filter_le _ _))
  have hstart : Rebuilding options.rebuildPageSize Harmless s.graph
      ⟨s.graph, [], .paging none⟩ ∅ := .start
  obtain ⟨U, hrun⟩ := hstart.calls (hsteps.tail .sequence)
  have hack : acknowledgeProjection s.graph consumer (latestOutboxSequence s.graph) generation =
      .ok { s.graph with
        consumers := s.graph.consumers.insert consumer ⟨latestOutboxSequence s.graph, generation⟩ } := by
    refine acknowledgeProjection_ok.mpr ⟨Nat.le_refl _, fun row hrow => ?_, by omega, by omega, rfl⟩
    rw [hlatest]
    exact hsound.rows.wf.consumers consumer row hrow
  have hunread : Unread s.graph (latestOutboxSequence s.graph) := by
    intro n hlate hbound
    omega
  have hserving := serving_registered hpage hsound.ingested hsound.rows hunread hrun hack
  rw [← hlatest]
  refine ⟨generation, staged, _, ?_, rfl, hserving⟩
  simp only [rebuild, hgeneration, hpages, hack, Except.mapError, bind, Except.bind]

/-- Recovery opens or builds a generation that serves the graph. -/
theorem recover_ok (hsound : FilesSound consumer s) (hpage : 1 ≤ options.rebuildPageSize)
    (hmark : highWater s.graph < 2 ^ 63) (hroom : HasRoom consumer s) :
    ∃ recovery generation index t sequence,
      recover consumer options s = .ok (recovery, generation, index, t) ∧
      t.graph = { s.graph with consumers := t.graph.consumers } ∧
      Serving consumer generation t.graph index sequence ∧
      (projectorCheckpoint s.graph consumer = some ⟨sequence, generation⟩ ∨
        sequence = highWater s.graph) := by
  have hrebuild : ∀ minimum, minimum + s.generations.rows.length < 2 ^ 63 →
      recover consumer options s = rebuild consumer options minimum s →
      ∃ recovery generation index t sequence,
        recover consumer options s = .ok (recovery, generation, index, t) ∧
        t.graph = { s.graph with consumers := t.graph.consumers } ∧
        Serving consumer generation t.graph index sequence ∧
        (projectorCheckpoint s.graph consumer = some ⟨sequence, generation⟩ ∨
          sequence = highWater s.graph) := by
    intro minimum hminimum hcall
    obtain ⟨generation, staged, g', hrun, hframe, hserving⟩ :=
      @rebuild_ok _ consumer s options minimum hsound hpage hmark hminimum
    exact ⟨_, generation, staged, _, _, hcall.trans hrun, hframe, hserving, Or.inr rfl⟩
  cases hcheckpoint : projectorCheckpoint s.graph consumer with
  | none =>
    rw [← hcheckpoint]
    refine hrebuild 1 ?_ (by rw [recover, hcheckpoint])
    rcases hroom with hactive | hroom
    · rw [activeIndex, hcheckpoint] at hactive
      cases hactive
    · rw [nextGeneration, hcheckpoint] at hroom
      exact hroom
  | some checkpoint =>
    cases hopen : openIndex s.generations checkpoint.indexGeneration with
    | some index =>
      refine ⟨.existingGeneration, _, index, s, checkpoint.lastSequence, ?_, rfl,
        hsound.serving checkpoint index hcheckpoint hopen, Or.inl rfl⟩
      rw [recover, hcheckpoint]
      simp only [hopen]
    | none =>
      rw [← hcheckpoint]
      refine hrebuild (saturatingNext checkpoint.indexGeneration) ?_ ?_
      · rcases hroom with hactive | hroom
        · rw [activeIndex, hcheckpoint, Option.bind_some, hopen] at hactive
          cases hactive
        · rw [nextGeneration, hcheckpoint] at hroom
          exact hroom
      · rw [recover, hcheckpoint]
        simp only [hopen]

/-- What a run leaves: an open generation that serves the graph, at the newest
sequence or as many batches on. -/
structure RunResult (consumer : String) (loops : Nat) (s t : CatalogFiles) (index : List CatalogDocument)
    (reached : ConsumerRow) : Prop where
  frame : t.graph = { s.graph with consumers := t.graph.consumers }
  checkpoint : projectorCheckpoint t.graph consumer = some reached
  opened : openIndex t.generations reached.indexGeneration = some index
  serving : Serving consumer reached.indexGeneration t.graph index reached.lastSequence
  forward : ∀ row, projectorCheckpoint s.graph consumer = some row →
    row.lastSequence ≤ reached.lastSequence
  progress : reached.lastSequence = highWater s.graph ∨
    ∃ row, projectorCheckpoint s.graph consumer = some row ∧
      row.lastSequence + loops ≤ reached.lastSequence

theorem run_ok (hsound : FilesSound consumer s) (hbatch : 1 ≤ options.maximumBatchMutations)
    (hpage : 1 ≤ options.rebuildPageSize) (hmark : highWater s.graph < 2 ^ 63)
    (hroom : HasRoom consumer s) (timely : Nat) :
    ∃ t summary index checkpoint, run consumer options timely s = .ok (t, summary) ∧
      summary.indexGeneration = checkpoint.indexGeneration ∧
      summary.backlogRemaining = decide (checkpoint.lastSequence < highWater s.graph) ∧
      RunResult consumer (min options.maximumBatches timely) s t index checkpoint := by
  obtain ⟨recovery, generation, index, r, sequence, hrecover, hframe, hserving, hstart⟩ :=
    recover_ok hsound hpage hmark hroom
  have hsame : highWater r.graph = highWater s.graph := by rw [hframe]; rfl
  obtain ⟨g', index', sequence', hloop, hreadable, hframe', hle, hend⟩ :=
    @runLoop_total consumer generation sequence r.graph options.maximumBatchMutations
      (min options.maximumBatches timely) index (hserving.readable (hsame ▸ hmark)) hbatch
  have hbound := hreadable.le
  have hmarks : highWater g' = highWater s.graph := by rw [hframe']; exact hsame
  refine ⟨⟨g', r.generations.insert generation (some index')⟩,
    ⟨recovery, generation, sequence', decide (sequence' < latestOutboxSequence g')⟩, index',
    ⟨sequence', generation⟩, ?_, rfl, ?_, ?_⟩
  · simp only [run, hrecover, hloop, hreadable.checkpoint, bind, Except.bind]
  · rw [← hmarks, ← latestOutboxSequence_eq hreadable.rows.wf]
  · exact
      { frame := by
          show g' = _
          rw [hframe', hframe]
        checkpoint := hreadable.checkpoint
        opened := openIndex_insert r.generations generation index'
        serving := hserving.runLoop hloop hreadable
        forward := by
          intro row hrow
          rcases hstart with hcheckpoint | hnewest
          · obtain rfl := Option.some.inj (hcheckpoint.symm.trans hrow)
            exact hle
          · have hrowle := hsound.rows.wf.consumers consumer row hrow
            show row.lastSequence ≤ sequence'
            omega
        progress := by
          rcases hstart with hcheckpoint | hnewest
          · rcases hend with hdone | hmore
            · exact Or.inl (hdone.trans hsame)
            · exact Or.inr ⟨_, hcheckpoint, hmore⟩
          · left
            show sequence' = highWater s.graph
            omega }

end Recovery

end LocalSearch.Catalog
