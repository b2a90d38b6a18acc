import LocalSearch.Content.Index

/-!
# Content projection

The content worker reads the outbox behind its consumer's checkpoint, coalesces
each batch by document, commits it to the index and acknowledges it. The index
holds older payloads beside its texts, so what is compared is the texts alone.
-/
namespace LocalSearch.Content

set_option autoImplicit false

open Core Lib Graph Catalog

def contentSchemaId : String := "CONTENT-SCHEMA-v1"

abbrev Coalesced := Table DocumentId (Option CatalogDocument)

def coalesceOne (coalesced : Coalesced) : IndexMutation → Coalesced
  | .upsert document => coalesced.insert document.identity.documentId (some document)
  | .delete documentId _ => coalesced.insert documentId none

def coalesce (mutations : List IndexMutation) : Coalesced := mutations.foldl coalesceOne .empty

def upserts (coalesced : Coalesced) : List CatalogDocument := coalesced.rows.filterMap (·.2)

def deletions (coalesced : Coalesced) : List DocumentId :=
  coalesced.rows.filterMap fun row => if row.2.isNone then some row.1 else none

/-- A row of the batch is a document under its own id, or a deletion. -/
def OwnIds (coalesced : Coalesced) : Prop :=
  ∀ k document, coalesced.get k = some (some document) → document.identity.documentId = k

theorem coalesce_get (mutations : List IndexMutation) :
    OwnIds (coalesce mutations) ∧
      ∀ k, (coalesce mutations).get k = lastWrite (mutations.map (·.write)) k := by
  induction mutations using List.reverseRecOn with
  | nil => exact ⟨fun k document h => (nomatch h), fun k => rfl⟩
  | append_singleton mutations m ih =>
    have hconcat : coalesce (mutations ++ [m]) = coalesceOne (coalesce mutations) m :=
      List.foldl_concat ..
    obtain ⟨hown, hget⟩ := ih
    rw [hconcat]
    constructor
    · intro k document h
      cases m with
      | upsert d =>
        rw [coalesceOne, Table.get_insert] at h
        split_ifs at h with hk
        · obtain rfl := Option.some.inj (Option.some.inj h)
          exact hk.symm
        · exact hown k document h
      | delete d version =>
        rw [coalesceOne, Table.get_insert] at h
        split_ifs at h with hk
        · cases Option.some.inj h
        · exact hown k document h
    · intro k
      rw [List.map_append, List.map_singleton, lastWrite_concat, ← hget]
      cases m with
      | upsert d =>
        rw [coalesceOne, Table.get_insert]
        simp only [IndexMutation.write, IndexMutation.documentId, IndexMutation.outcome, eq_comm]
      | delete d version =>
        rw [coalesceOne, Table.get_insert]
        simp only [IndexMutation.write, IndexMutation.documentId, IndexMutation.outcome, eq_comm]

theorem upserts_ids {rows : List (DocumentId × Option CatalogDocument)}
    (h : ∀ row ∈ rows, ∀ document, row.2 = some document → document.identity.documentId = row.1) :
    (rows.filterMap (·.2)).map (·.identity.documentId) = (rows.filter (·.2.isSome)).map (·.1) := by
  induction rows with
  | nil => rfl
  | cons row rest ih =>
    obtain ⟨k, value⟩ := row
    have hrest := ih fun row hrow => h row (List.mem_cons_of_mem _ hrow)
    cases value with
    | none => exact hrest
    | some document =>
      have hid : document.identity.documentId = k := h _ List.mem_cons_self document rfl
      simp only [List.filterMap_cons, List.map_cons, List.filter_cons, Option.isSome_some, if_true,
        hrest, hid]

theorem deletions_eq (rows : List (DocumentId × Option CatalogDocument)) :
    (rows.filterMap fun row => if row.2.isNone then some row.1 else none) =
      (rows.filter (fun row => !row.2.isSome)).map (·.1) := by
  induction rows with
  | nil => rfl
  | cons row rest ih =>
    obtain ⟨k, value⟩ := row
    cases value with
    | none => exact congrArg (k :: ·) ih
    | some document => exact ih

/-- A coalesced batch names every document once. -/
theorem coalesced_unique {coalesced : Coalesced} (h : OwnIds coalesced) :
    ((upserts coalesced).map (·.identity.documentId) ++ deletions coalesced).Nodup := by
  have hown : ∀ row ∈ coalesced.rows, ∀ document, row.2 = some document →
      document.identity.documentId = row.1 := fun row hrow document hvalue =>
    h row.1 document (Table.mem_rows.mp (hvalue ▸ hrow))
  have hids := upserts_ids hown
  have hkeys : (coalesced.rows.map (·.1)).Nodup :=
    List.pairwise_map.mpr (coalesced.sorted.imp fun hlt => hlt.ne)
  rw [upserts, deletions, hids, deletions_eq, ← List.map_append]
  exact (((List.filter_append_perm _ _).map _).nodup_iff).mpr hkeys

section Texts

variable [CaseMapping] {sources : Sources} {contentHash : String → String}

/-- A coalesced batch writes for every document what its last mutation says. -/
theorem lastWrite_coalesced {policy : ContentIndexPolicy} {coalesced : Coalesced}
    (hown : OwnIds coalesced) (k : DocumentId) :
    lastWrite (deltaWrites sources policy (upserts coalesced) (deletions coalesced)) k =
      (coalesced.get k).map fun value => value.bind (textOf sources policy) := by
  have hnodup : ((deltaWrites sources policy (upserts coalesced) (deletions coalesced)).map
      (·.1)).Nodup := by
    have hkeys := coalesced_unique hown
    rw [deltaWrites, List.map_append, textWrites, List.map_map, List.map_map]
    exact (List.map_id (deletions coalesced)).symm ▸ hkeys
  cases hrow : coalesced.get k with
  | none =>
    have hnone : ∀ value, (k, value) ∉ coalesced.rows := fun value hmem => by
      rw [Table.mem_rows, hrow] at hmem
      cases hmem
    refine lastWrite_eq_none.mpr fun w hw he => ?_
    rcases List.mem_append.mp hw with hw | hw
    · obtain ⟨document, hdocument, rfl⟩ := List.mem_map.mp hw
      obtain ⟨⟨k', value⟩, hmem, hvalue⟩ := List.mem_filterMap.mp hdocument
      obtain rfl : value = some document := hvalue
      obtain rfl : k' = k := (hown k' document (Table.mem_rows.mp hmem)).symm.trans he
      exact hnone _ hmem
    · obtain ⟨d, hd, rfl⟩ := List.mem_map.mp hw
      rw [deletions, deletions_eq] at hd
      obtain ⟨⟨k', value⟩, hmem, hkey⟩ := List.mem_map.mp hd
      obtain rfl : k' = k := hkey.trans he
      exact hnone _ (List.mem_filter.mp hmem).1
  | some value =>
    cases value with
    | none =>
      have hd : k ∈ deletions coalesced :=
        List.mem_filterMap.mpr ⟨(k, none), Table.mem_rows.mpr hrow, rfl⟩
      exact lastWrite_of_nodup hnodup (w := (k, none))
        (List.mem_append_right _ (List.mem_map.mpr ⟨k, hd, rfl⟩))
    | some document =>
      have hd : document ∈ upserts coalesced :=
        List.mem_filterMap.mpr ⟨(k, some document), Table.mem_rows.mpr hrow, rfl⟩
      obtain rfl := hown k document hrow
      exact lastWrite_of_nodup hnodup (w := (_, textOf sources policy document))
        (List.mem_append_left _ (List.mem_map.mpr ⟨document, hd, rfl⟩))

/-- A coalesced batch is accepted, and moves the texts as its mutations would
one by one. -/
theorem applyDelta_coalesced (hstable : SourcesStable sources)
    (hhash : Function.Injective contentHash) (policy : ContentIndexPolicy) {committed : Entries}
    (hcommitted : EntriesWF sources contentHash committed) (mutations : List IndexMutation) :
    ∃ entries outcomes,
      applyDelta sources contentHash policy committed (upserts (coalesce mutations))
        (deletions (coalesce mutations)) = .ok (entries, outcomes) ∧
      EntriesWF sources contentHash entries ∧
      textMap entries = replay (textMap committed) (derived (textOf sources policy) (mutations.map (·.write))) := by
  obtain ⟨hown, hget⟩ := coalesce_get mutations
  obtain ⟨entries, outcomes, happly, hwf, hmap⟩ :=
    applyDelta_writes hstable hhash policy hcommitted (coalesced_unique hown)
  refine ⟨entries, outcomes, happly, hwf, ?_⟩
  funext k
  rw [hmap, replay_apply, lastWrite_coalesced hown, hget, replay_derived]

end Texts

structure ContentProjectionOptions where
  batchSize : Nat
  maximumBatches : Nat
  deriving DecidableEq, Repr

structure DurableContentProjectionSummary where
  startSequence : Nat
  appliedSequence : Nat
  latestSequence : Nat
  projectedMutations : Nat
  backlogRemaining : Bool
  /-- What became of the documents of each commit. -/
  commits : List (List SyncOutcome)
  deriving DecidableEq, Repr

section Worker

variable [CaseMapping] (sources : Sources) (contentHash : String → String)

omit [CaseMapping] in
/-- The durable backlog of the content consumer. -/
def backlog (g : FilesystemGraph) : Except ContentIndexError Nat :=
  match projectorCheckpoint g contentSchemaId with
  | none => .error .missingPayload
  | some checkpoint => .ok (latestOutboxSequence g - checkpoint.lastSequence)

/-- One batch that was read: commit, then acknowledge. `stamp` is the opstamp
the engine gives the commit. -/
def projectBatch (policy : ContentIndexPolicy) (stamp : Nat) (g : FilesystemGraph)
    (index : Entries) (batch : MutationBatch) :
    Except ContentIndexError (FilesystemGraph × Entries × Nat × List SyncOutcome) := do
  batch.validate.mapError fun refusal => .io (refusalText refusal)
  let coalesced := coalesce (batch.mutations.map (·.mutation))
  let (index, outcomes) ←
    applyDelta sources contentHash policy index (upserts coalesced) (deletions coalesced)
  match batch.lastSequence with
  | none => .error .missingPayload
  | some last => do
      let g ← (acknowledgeProjection g contentSchemaId last stamp).mapError .graph
      .ok (g, index, last, outcomes)

/-- The loop of `project`: the position is read once and then carried along. -/
def projectLoop (policy : ContentIndexPolicy) (stamps : Nat → Nat) (batchSize : Nat) :
    Nat → FilesystemGraph → Entries → Nat → Nat → List (List SyncOutcome) →
      Except ContentIndexError (FilesystemGraph × Entries × Nat × Nat × List (List SyncOutcome))
  | 0, g, index, position, projected, commits => .ok (g, index, position, projected, commits)
  | batches + 1, g, index, position, projected, commits => do
      let batch ← (readOutbox g (some position) batchSize).mapError .graph
      if batch.mutations.isEmpty then .ok (g, index, position, projected, commits)
      else do
        let (g, index, last, outcomes) ←
          projectBatch sources contentHash policy (stamps batches) g index batch
        projectLoop policy stamps batchSize batches g index last (projected + batch.mutations.length)
          (commits ++ [outcomes])

def project (policy : ContentIndexPolicy) (stamps : Nat → Nat) (options : ContentProjectionOptions)
    (g : FilesystemGraph) (index : Entries) :
    Except ContentIndexError (FilesystemGraph × Entries × DurableContentProjectionSummary) :=
  if options.batchSize = 0 ∨ 10000 < options.batchSize ∨ options.maximumBatches = 0 ∨
      1024 < options.maximumBatches then .error .invalidPolicy
  else
    match projectorCheckpoint g contentSchemaId with
    | none => .error .missingPayload
    | some checkpoint => do
        let start := checkpoint.lastSequence
        let (g, index, position, projected, commits) ← projectLoop sources contentHash policy stamps
          options.batchSize options.maximumBatches g index start 0 []
        let latest := latestOutboxSequence g
        .ok (g, index, ⟨start, position, latest, projected, decide (position < latest), commits⟩)

/-- How far a pass is: `position` is where it reads on. -/
inductive PassPhase where
  | idle
  | reading (position : Nat)
  | applying (position : Nat) (batch : MutationBatch)
  | committed (position : Nat) (batch : MutationBatch) (stamp : Nat)
  deriving DecidableEq, Repr

/-- The durable graph, the last commit of the index and the pass at work on it. -/
structure ContentState where
  graph : FilesystemGraph
  index : Entries
  phase : PassPhase

/-- One step of the system: the worker begins a pass, reads, commits,
acknowledges or stops, or another connection writes. -/
inductive ContentStep (policy : ContentIndexPolicy) : ContentState → ContentState → Prop
  | start {g : FilesystemGraph} {index : Entries} {checkpoint : ConsumerRow}
      (hcheckpoint : projectorCheckpoint g contentSchemaId = some checkpoint) :
      ContentStep policy ⟨g, index, .idle⟩ ⟨g, index, .reading checkpoint.lastSequence⟩
  | read {g : FilesystemGraph} {index : Entries} {position : Nat} {batch : MutationBatch}
      (batchSize : Nat) (hread : readOutbox g (some position) batchSize = .ok batch)
      (hnonempty : batch.mutations.isEmpty = false) (hvalid : batch.validate = .ok ()) :
      ContentStep policy ⟨g, index, .reading position⟩ ⟨g, index, .applying position batch⟩
  | commit {g : FilesystemGraph} {index index' : Entries} {position : Nat} {batch : MutationBatch}
      {outcomes : List SyncOutcome} (stamp : Nat)
      (happly : applyDelta sources contentHash policy index
        (upserts (coalesce (batch.mutations.map (·.mutation))))
        (deletions (coalesce (batch.mutations.map (·.mutation)))) = .ok (index', outcomes)) :
      ContentStep policy ⟨g, index, .applying position batch⟩
        ⟨g, index', .committed position batch stamp⟩
  | acknowledge {g g' : FilesystemGraph} {index : Entries} {position : Nat} {batch : MutationBatch}
      {stamp last : Nat} (hlast : batch.lastSequence = some last)
      (hack : acknowledgeProjection g contentSchemaId last stamp = .ok g') :
      ContentStep policy ⟨g, index, .committed position batch stamp⟩ ⟨g', index, .reading last⟩
  | stop {s : ContentState} : ContentStep policy s { s with phase := .idle }
  | write {s : ContentState} {g' : FilesystemGraph} (op : GraphOp)
      (hspares : op.SparesConsumer contentSchemaId) (hrun : op.run s.graph = .ok g') :
      ContentStep policy s { s with graph := g' }

variable {sources contentHash}

theorem projectBatch_steps {policy : ContentIndexPolicy} {stamp batchSize position : Nat}
    {g g' : FilesystemGraph} {index index' : Entries} {batch : MutationBatch} {last : Nat}
    {outcomes : List SyncOutcome} (hread : readOutbox g (some position) batchSize = .ok batch)
    (hnonempty : batch.mutations.isEmpty = false)
    (h : projectBatch sources contentHash policy stamp g index batch = .ok (g', index', last, outcomes)) :
    Relation.ReflTransGen (ContentStep sources contentHash policy) ⟨g, index, .reading position⟩
      ⟨g', index', .reading last⟩ := by
  obtain ⟨⟨⟩, hvalid, h⟩ := bind_ok.mp h
  obtain ⟨⟨staged, outcomes'⟩, happly, h⟩ := bind_ok.mp h
  cases hlast : batch.lastSequence with
  | none => simp only [hlast] at h; cases h
  | some last' =>
    simp only [hlast] at h
    obtain ⟨acknowledged, hack, h⟩ := bind_ok.mp h
    cases h
    refine .head (.read batchSize hread hnonempty (mapError_ok hvalid)) ?_
    exact .head (.commit stamp happly) (.single (.acknowledge hlast (mapError_ok hack)))

theorem projectLoop_steps {policy : ContentIndexPolicy} {stamps : Nat → Nat} {batchSize batches : Nat}
    {g g' : FilesystemGraph} {index index' : Entries} {position position' projected projected' : Nat}
    {commits commits' : List (List SyncOutcome)}
    (h : projectLoop sources contentHash policy stamps batchSize batches g index position projected
      commits = .ok (g', index', position', projected', commits')) :
    Relation.ReflTransGen (ContentStep sources contentHash policy) ⟨g, index, .reading position⟩
      ⟨g', index', .reading position'⟩ := by
  induction batches generalizing g index position projected commits with
  | zero =>
    cases h
    exact .refl
  | succ batches ih =>
    obtain ⟨batch, hread, h⟩ := bind_ok.mp h
    cases hempty : batch.mutations.isEmpty with
    | true =>
      rw [hempty] at h
      cases h
      exact .refl
    | false =>
      rw [hempty] at h
      obtain ⟨⟨g₁, index₁, last, outcomes⟩, hbatch, h⟩ := bind_ok.mp h
      exact (projectBatch_steps (mapError_ok hread) hempty hbatch).trans (ih h)

/-- A pass is a sequence of steps of the worker. -/
theorem project_steps {policy : ContentIndexPolicy} {stamps : Nat → Nat}
    {options : ContentProjectionOptions} {g g' : FilesystemGraph} {index index' : Entries}
    {summary : DurableContentProjectionSummary}
    (h : project sources contentHash policy stamps options g index = .ok (g', index', summary)) :
    Relation.ReflTransGen (ContentStep sources contentHash policy) ⟨g, index, .idle⟩
      ⟨g', index', .idle⟩ := by
  rw [project, guard_ok] at h
  cases hcheckpoint : projectorCheckpoint g contentSchemaId with
  | none => simp only [hcheckpoint] at h; cases h.2
  | some checkpoint =>
    simp only [hcheckpoint] at h
    obtain ⟨⟨g₁, index₁, position, projected, commits⟩, hloop, h⟩ := bind_ok.mp h.2
    cases h
    exact .head (.start hcheckpoint) ((projectLoop_steps hloop).tail .stop)

/-- The texts after all unread rows are applied. -/
def settledTexts (sources : Sources) (policy : ContentIndexPolicy) (s : ContentState) (sequence : Nat) :
    DocumentId → Option String :=
  replay (textMap s.index) (derived (textOf sources policy) (rowWrites (outboxAfter s.graph sequence)))

/-- Invariant of the worker at checkpoint `sequence`: a pass at work reads on
from there, and the texts of a committed batch are already in the index. -/
structure PassInvariant (sources : Sources) (contentHash : String → String)
    (policy : ContentIndexPolicy) (s : ContentState) (sequence : Nat) : Prop where
  wellFormed : WellFormed s.graph
  outbox : OutboxWF s.graph
  checkpoint : ∃ generation, projectorCheckpoint s.graph contentSchemaId = some ⟨sequence, generation⟩
  entries : EntriesWF sources contentHash s.index
  reading : ∀ position, s.phase = .reading position → position = sequence
  applying : ∀ position batch, s.phase = .applying position batch →
    Pending s.graph sequence batch
  committed : ∀ position batch stamp, s.phase = .committed position batch stamp →
    Pending s.graph sequence batch ∧
      replay (textMap s.index) (derived (textOf sources policy) (batch.mutations.map (·.mutation.write))) =
        textMap s.index

omit [CaseMapping] in
theorem mutations_write (batch : MutationBatch) :
    (batch.mutations.map (·.mutation)).map (·.write) = batch.mutations.map (·.mutation.write) :=
  List.map_map ..

/-- A staged batch leaves nothing of itself to settle: to apply it again changes no
text. -/
theorem passInvariant_commit (hstable : SourcesStable sources) (hhash : Function.Injective contentHash)
    {policy : ContentIndexPolicy} {g : FilesystemGraph} {index index' : Entries}
    {sequence position stamp : Nat} {batch : MutationBatch} {outcomes : List SyncOutcome}
    (happly : applyDelta sources contentHash policy index
      (upserts (coalesce (batch.mutations.map (·.mutation))))
      (deletions (coalesce (batch.mutations.map (·.mutation)))) = .ok (index', outcomes))
    (hinv : PassInvariant sources contentHash policy ⟨g, index, .applying position batch⟩ sequence) :
    PassInvariant sources contentHash policy ⟨g, index', .committed position batch stamp⟩ sequence ∧
      settledTexts sources policy ⟨g, index', .committed position batch stamp⟩ sequence =
        settledTexts sources policy ⟨g, index, .applying position batch⟩ sequence := by
  obtain ⟨taken, rest, hrows, hbatch⟩ := hinv.applying position batch rfl
  obtain ⟨entries, outcomes', happly', hwf, hmap⟩ :=
    applyDelta_coalesced hstable hhash policy hinv.entries (batch.mutations.map (·.mutation))
  obtain ⟨rfl, rfl⟩ := Prod.mk.inj (Except.ok.inj (happly'.symm.trans happly))
  rw [mutations_write] at hmap
  refine ⟨⟨hinv.wellFormed, hinv.outbox, hinv.checkpoint, hwf, ?_, ?_, ?_⟩, ?_⟩
  · intro other hother
    cases hother
  · intro other batch' hother
    cases hother
  · intro other batch' stamp' hother
    obtain ⟨-, rfl, -⟩ := PassPhase.committed.inj hother
    refine ⟨⟨taken, rest, hrows, hbatch⟩, ?_⟩
    rw [hmap]
    exact replay_absorb _ fun w hw => ⟨w, hw, rfl⟩
  · rw [writes_of_taken hbatch] at hmap
    simp only [settledTexts, hmap, hrows, rowWrites_append, derived_append]
    exact replay_again _ _ _

/-- Acknowledging a committed batch drops rows that the index contains already. -/
theorem passInvariant_acknowledge {policy : ContentIndexPolicy} {g g' : FilesystemGraph}
    {index : Entries} {sequence position stamp last : Nat} {batch : MutationBatch}
    (hlast : batch.lastSequence = some last)
    (hack : acknowledgeProjection g contentSchemaId last stamp = .ok g')
    (hinv : PassInvariant sources contentHash policy ⟨g, index, .committed position batch stamp⟩ sequence) :
    PassInvariant sources contentHash policy ⟨g', index, .reading last⟩ last ∧
      settledTexts sources policy ⟨g', index, .reading last⟩ last =
        settledTexts sources policy ⟨g, index, .committed position batch stamp⟩ sequence ∧
      outboxAfter g' (highWater g) = [] := by
  obtain ⟨⟨taken, rest, hrows, hbatch⟩, hcontained⟩ := hinv.committed position batch stamp rfl
  have hrun : (GraphOp.acknowledgeProjection contentSchemaId last stamp).run g = .ok g' := hack
  have hout : OutboxWF g' := outboxWF_of_run hinv.wellFormed hinv.outbox hrun
  have hwf : WellFormed g' := wellFormed_of_run hinv.wellFormed hrun
  have hnone := outboxAfter_highWater hinv.outbox
  obtain ⟨-, -, -, -, rfl⟩ := acknowledgeProjection_ok.mp hack
  refine ⟨⟨hwf, hout, ⟨stamp, Table.get_insert_self _ _ _⟩, hinv.entries, ?_, ?_, ?_⟩, ?_, hnone⟩
  · intro other hother
    exact (PassPhase.reading.inj hother).symm
  · intro other batch' hother
    cases hother
  · intro other batch' stamp' hother
    cases hother
  · change replay (textMap index) (derived (textOf sources policy) (rowWrites (outboxAfter g last))) = _
    rw [outboxAfter_last hrows hbatch hlast, settledTexts, hrows, rowWrites_append, derived_append,
      replay_append]
    rw [writes_of_taken hbatch] at hcontained
    exact congrArg (replay · (derived (textOf sources policy) (rowWrites rest))) hcontained.symm

/-- A write of another writer appends to what is pending and to what settles. -/
theorem passInvariant_write {policy : ContentIndexPolicy} {s : ContentState} {g' : FilesystemGraph}
    {sequence : Nat} {op : GraphOp} (hspares : op.SparesConsumer contentSchemaId)
    (hrun : op.run s.graph = .ok g')
    (hinv : PassInvariant sources contentHash policy s sequence) :
    PassInvariant sources contentHash policy { s with graph := g' } sequence ∧
      settledTexts sources policy { s with graph := g' } sequence =
        replay (settledTexts sources policy s sequence)
          (derived (textOf sources policy) (rowWrites (outboxAfter g' (highWater s.graph)))) := by
  obtain ⟨generation, hcheckpoint⟩ := hinv.checkpoint
  have hkeeps := keepsTail_of_run hinv.wellFormed hinv.outbox hspares hcheckpoint hrun
  have hpending : ∀ {batch}, Pending s.graph sequence batch → Pending g' sequence batch := by
    rintro batch ⟨taken, rest, hrows, hmutations⟩
    refine ⟨taken, rest ++ outboxAfter g' (highWater s.graph), ?_, hmutations⟩
    rw [hkeeps.tail, hrows, List.append_assoc]
  refine ⟨⟨wellFormed_of_run hinv.wellFormed hrun,
    outboxWF_of_run hinv.wellFormed hinv.outbox hrun, ⟨generation, hkeeps.checkpoint⟩, hinv.entries,
    hinv.reading, ?_, ?_⟩, ?_⟩
  · intro position batch hbatch
    exact hpending (hinv.applying position batch hbatch)
  · intro position batch stamp hbatch
    exact ⟨hpending (hinv.committed position batch stamp hbatch).1,
      (hinv.committed position batch stamp hbatch).2⟩
  · change replay _ (derived (textOf sources policy) (rowWrites (outboxAfter g' sequence))) = _
    rw [hkeeps.tail, rowWrites_append, derived_append, replay_append]
    rfl

/-- One step keeps the invariant, and what the texts settle to changes by the
rows the step appends and by nothing else. -/
theorem passInvariant_step (hstable : SourcesStable sources) (hhash : Function.Injective contentHash)
    {policy : ContentIndexPolicy} {s s' : ContentState} {sequence : Nat}
    (h : ContentStep sources contentHash policy s s')
    (hinv : PassInvariant sources contentHash policy s sequence) :
    ∃ sequence', PassInvariant sources contentHash policy s' sequence' ∧
      settledTexts sources policy s' sequence' = replay (settledTexts sources policy s sequence)
        (derived (textOf sources policy) (rowWrites (outboxAfter s'.graph (highWater s.graph)))) := by
  have hnone := outboxAfter_highWater hinv.outbox
  cases h with
  | @start g index checkpoint hcheckpoint =>
    obtain ⟨generation, hcurrent⟩ := hinv.checkpoint
    obtain rfl := Option.some.inj (hcheckpoint.symm.trans hcurrent)
    refine ⟨sequence, ⟨hinv.wellFormed, hinv.outbox, hinv.checkpoint, hinv.entries, ?_, ?_, ?_⟩, ?_⟩
    · intro position hposition
      exact (PassPhase.reading.inj hposition).symm
    · intro position batch hbatch
      cases hbatch
    · intro position batch stamp hbatch
      cases hbatch
    · rw [hnone]
      rfl
  | @read g index position batch batchSize hread hnonempty hvalid =>
    obtain rfl := hinv.reading position rfl
    refine ⟨position, ⟨hinv.wellFormed, hinv.outbox, hinv.checkpoint, hinv.entries, ?_, ?_, ?_⟩, ?_⟩
    · intro other hother
      cases hother
    · intro other batch' hother
      obtain ⟨-, rfl⟩ := PassPhase.applying.inj hother
      exact pending_readOutbox hread
    · intro other batch' stamp hother
      cases hother
    · rw [hnone]
      rfl
  | commit stamp happly =>
    obtain ⟨hkept, hsettled⟩ := passInvariant_commit hstable hhash happly hinv
    refine ⟨sequence, hkept, hsettled.trans ?_⟩
    rw [hnone]
    rfl
  | acknowledge hlast hack =>
    obtain ⟨hkept, hsettled, hsame⟩ := passInvariant_acknowledge hlast hack hinv
    refine ⟨_, hkept, hsettled.trans ?_⟩
    rw [hsame]
    rfl
  | stop =>
    refine ⟨sequence, ⟨hinv.wellFormed, hinv.outbox, hinv.checkpoint, hinv.entries, ?_, ?_, ?_⟩, ?_⟩
    · intro other hother
      cases hother
    · intro other batch' hother
      cases hother
    · intro other batch' stamp' hother
      cases hother
    · rw [hnone]
      rfl
  | write op hspares hrun => exact ⟨sequence, passInvariant_write hspares hrun hinv⟩

/-- Runs of the worker and its writers, with every row past the first checkpoint
that the outbox ever held, in the order of their sequences. -/
inductive ContentRun (sources : Sources) (contentHash : String → String)
    (policy : ContentIndexPolicy) (s₀ : ContentState) (sequence : Nat) :
    ContentState → List (Nat × OutboxRow) → Prop
  | start : ContentRun sources contentHash policy s₀ sequence s₀ (outboxAfter s₀.graph sequence)
  | step {s s' : ContentState} {log : List (Nat × OutboxRow)}
      (hrun : ContentRun sources contentHash policy s₀ sequence s log)
      (hstep : ContentStep sources contentHash policy s s') :
      ContentRun sources contentHash policy s₀ sequence s'
        (log ++ outboxAfter s'.graph (highWater s.graph))

theorem passInvariant_run (hstable : SourcesStable sources) (hhash : Function.Injective contentHash)
    {policy : ContentIndexPolicy} {s₀ s : ContentState} {sequence : Nat}
    {log : List (Nat × OutboxRow)} (h : ContentRun sources contentHash policy s₀ sequence s log)
    (hinv : PassInvariant sources contentHash policy s₀ sequence) :
    ∃ reached, PassInvariant sources contentHash policy s reached ∧
      settledTexts sources policy s reached =
        replay (textMap s₀.index) (derived (textOf sources policy) (rowWrites log)) := by
  induction h with
  | start => exact ⟨sequence, hinv, rfl⟩
  | step hrun hstep ih =>
    obtain ⟨reached, hreached, hsettled⟩ := ih
    obtain ⟨next, hnext, hstepped⟩ := passInvariant_step hstable hhash hstep hreached
    refine ⟨next, hnext, ?_⟩
    rw [hstepped, hsettled, rowWrites_append, derived_append, replay_append]

omit [CaseMapping] in
def foldOne (documents : List CatalogDocument) : IndexMutation → List CatalogDocument
  | .upsert document =>
      CatalogWriter.delete documents document.identity.documentId ++ [document]
  | .delete documentId _ => CatalogWriter.delete documents documentId

omit [CaseMapping] in
/-- The documents after every mutation of the rows, in order. -/
def foldOutbox (documents : List CatalogDocument) (rows : List (Nat × OutboxRow)) :
    List CatalogDocument :=
  rows.foldl (fun documents row => foldOne documents row.2.mutation) documents

omit [CaseMapping] in
theorem foldOutbox_spec {documents : List CatalogDocument} (hunique : UniqueDocuments documents)
    (rows : List (Nat × OutboxRow)) :
    UniqueDocuments (foldOutbox documents rows) ∧
      indexMap (foldOutbox documents rows) = replay (indexMap documents) (rowWrites rows) := by
  induction rows using List.reverseRecOn with
  | nil => exact ⟨hunique, rfl⟩
  | append_singleton rows row ih =>
    obtain ⟨hfolded, hmap⟩ := ih
    have hconcat : foldOutbox documents (rows ++ [row]) =
        foldOne (foldOutbox documents rows) row.2.mutation := List.foldl_concat ..
    have hwrites : rowWrites (rows ++ [row]) = rowWrites rows ++ [row.2.mutation.write] := by
      rw [rowWrites_append]
      rfl
    rw [hconcat, hwrites, replay_concat, ← hmap]
    cases row.2.mutation with
    | upsert document => exact ⟨nodup_replace hfolded, lookup_replace _ document⟩
    | delete documentId version => exact ⟨nodup_remove hfolded documentId, lookup_remove _ documentId⟩

/-- A build from the folded documents has the texts of a build moved on by the log. -/
theorem build_foldOutbox {policy : ContentIndexPolicy} {documents : List CatalogDocument}
    (hunique : UniqueDocuments documents) (rows : List (Nat × OutboxRow)) :
    textMap (build sources contentHash policy (foldOutbox documents rows)) =
      replay (textMap (build sources contentHash policy documents))
        (derived (textOf sources policy) (rowWrites rows)) := by
  obtain ⟨hfolded, hmap⟩ := foldOutbox_spec hunique rows
  rw [(build_writes policy hfolded).2, (build_writes policy hunique).2, hmap, derived, replay_bind]

section Accepts

variable (hstable : SourcesStable sources) (hhash : Function.Injective contentHash)
  {policy : ContentIndexPolicy} {g : FilesystemGraph} {index : Entries}

include hstable hhash

theorem projectBatch_accepts {stamp : Nat} (hindex : EntriesWF sources contentHash index)
    (batch : MutationBatch) :
    Avoids (· = .duplicateDocument) (projectBatch sources contentHash policy stamp g index batch) ∧
    ∀ r, projectBatch sources contentHash policy stamp g index batch = .ok r →
      EntriesWF sources contentHash r.2.1 := by
  obtain ⟨entries, outcomes, happly, hwf, -⟩ :=
    applyDelta_coalesced hstable hhash policy hindex (batch.mutations.map (·.mutation))
  constructor
  · refine .bind (avoids_mapError fun _ he => nomatch he) fun _ _ => ?_
    dsimp only
    rw [happly, ok_bind]
    cases batch.lastSequence with
    | none => exact avoids_error fun he => nomatch he
    | some last => exact .bind (avoids_mapError fun _ he => nomatch he) fun _ _ => avoids_ok _
  · intro r h
    obtain ⟨⟨⟩, -, h⟩ := bind_ok.mp h
    dsimp only at h
    rw [happly, ok_bind] at h
    cases hlast : batch.lastSequence with
    | none => simp only [hlast] at h; cases h
    | some last =>
      simp only [hlast] at h
      obtain ⟨g', -, h⟩ := bind_ok.mp h
      obtain rfl := Except.ok.inj h
      exact hwf

theorem projectLoop_accepts {stamps : Nat → Nat} {batchSize batches position projected : Nat}
    {commits : List (List SyncOutcome)} (hindex : EntriesWF sources contentHash index) :
    Avoids (· = .duplicateDocument) (projectLoop sources contentHash policy stamps batchSize batches g
      index position projected commits) := by
  induction batches generalizing g index position projected commits with
  | zero => exact avoids_ok _
  | succ batches ih =>
    refine .bind (avoids_mapError fun _ he => nomatch he) fun batch _ => ?_
    obtain ⟨haccepts, hentries⟩ : Avoids (· = .duplicateDocument)
        (projectBatch sources contentHash policy (stamps batches) g index batch) ∧
      ∀ r, projectBatch sources contentHash policy (stamps batches) g index batch = .ok r →
        EntriesWF sources contentHash r.2.1 := projectBatch_accepts hstable hhash hindex batch
    refine avoids_ite (fun _ => avoids_ok _) fun _ => haccepts.bind fun r hr => ?_
    exact ih (hentries r hr)

theorem project_accepts {stamps : Nat → Nat} {options : ContentProjectionOptions}
    (hindex : EntriesWF sources contentHash index) :
    Avoids (· = .duplicateDocument)
      (project sources contentHash policy stamps options g index) := by
  refine avoids_ite (fun _ => avoids_error fun he => nomatch he) fun _ => ?_
  cases projectorCheckpoint g contentSchemaId with
  | none => exact avoids_error fun he => nomatch he
  | some checkpoint =>
    exact .bind (projectLoop_accepts hstable hhash hindex) fun _ _ => avoids_ok _

end Accepts

/-- However batches are cut, stopped and applied again behind new rows, once
nothing is left to read the texts are those of a build from the documents the
outbox leads to, and no delta is refused as a duplicate. From any state on the
way a sync gives the texts of a build. -/
theorem content_deltas_build (hstable : SourcesStable sources)
    (hhash : Function.Injective contentHash) {policy : ContentIndexPolicy}
    {documents : List CatalogDocument} (hunique : UniqueDocuments documents) {g₀ : FilesystemGraph}
    (hreach : Reachable g₀) {checkpoint : ConsumerRow}
    (hcheckpoint : projectorCheckpoint g₀ contentSchemaId = some checkpoint) {s : ContentState}
    {log : List (Nat × OutboxRow)}
    (hrun : ContentRun sources contentHash policy
      ⟨g₀, build sources contentHash policy documents, .idle⟩ checkpoint.lastSequence s log) :
    (backlog s.graph = .ok 0 → textMap s.index =
      textMap (build sources contentHash policy (foldOutbox documents log))) ∧
    (∀ stamps options, project sources contentHash policy stamps options s.graph s.index ≠
      .error .duplicateDocument) ∧
    (∀ position batch, s.phase = .applying position batch → ∃ result,
      applyDelta sources contentHash policy s.index
        (upserts (coalesce (batch.mutations.map (·.mutation))))
        (deletions (coalesce (batch.mutations.map (·.mutation)))) = .ok result) ∧
    ∀ policy' documents', UniqueDocuments documents' → ∃ entries outcomes,
      sync sources contentHash policy' s.index documents' = .ok (entries, outcomes) ∧
        textMap entries = textMap (build sources contentHash policy' documents') := by
  have hinv : PassInvariant sources contentHash policy
      ⟨g₀, build sources contentHash policy documents, .idle⟩ checkpoint.lastSequence := by
    refine ⟨hreach.wellFormed, hreach.outboxWF, ⟨checkpoint.indexGeneration, hcheckpoint⟩,
      (build_writes policy hunique).1, ?_, ?_, ?_⟩
    · intro position hposition
      cases hposition
    · intro position batch hbatch
      cases hbatch
    · intro position batch stamp hbatch
      cases hbatch
  obtain ⟨reached, hreached, hsettled⟩ := passInvariant_run hstable hhash hrun hinv
  refine ⟨fun hdone => ?_, fun stamps options he => ?_, fun position batch _ => ?_,
    fun policy' documents' hdocuments => ?_⟩
  · obtain ⟨generation, hcurrent⟩ := hreached.checkpoint
    have hle : latestOutboxSequence s.graph - reached = 0 := by
      rw [backlog, hcurrent] at hdone
      exact Except.ok.inj hdone
    have hread : outboxAfter s.graph reached = [] := by
      have hbound := hreached.outbox.consumers _ _ hcurrent
      have hlatest := latestOutboxSequence_eq hreached.outbox
      obtain rfl : reached = highWater s.graph := by
        dsimp only at hbound
        omega
      exact outboxAfter_highWater hreached.outbox
    rw [build_foldOutbox hunique, ← hsettled, settledTexts, hread]
    rfl
  · exact project_accepts hstable hhash hreached.entries _ he rfl
  · obtain ⟨entries, outcomes, happly, -, -⟩ := applyDelta_coalesced hstable hhash policy
      hreached.entries (batch.mutations.map (·.mutation))
    exact ⟨_, happly⟩
  · obtain ⟨entries, outcomes, hsync, -, hmap⟩ :=
      sync_writes hstable hhash policy' hreached.entries hdocuments
    exact ⟨entries, outcomes, hsync, hmap⟩

theorem ContentRun.steps {policy : ContentIndexPolicy} {s₀ s s' : ContentState} {sequence : Nat}
    {log : List (Nat × OutboxRow)} (h : ContentRun sources contentHash policy s₀ sequence s log)
    (hsteps : Relation.ReflTransGen (ContentStep sources contentHash policy) s s') :
    ∃ log', ContentRun sources contentHash policy s₀ sequence s' log' := by
  induction hsteps with
  | refl => exact ⟨log, h⟩
  | tail _ hstep ih =>
    obtain ⟨log', hlog⟩ := ih
    exact ⟨_, hlog.step hstep⟩

end Worker

section Example

attribute [local instance] asciiCaseMapping

def sampleContentPolicy : ContentIndexPolicy := ⟨[["c:"]], ["txt"], 1024⟩

/-- Every file of the sample says the same. -/
def sampleSources : Sources := fun _ => .file ["c:", "a.txt"] "draft".toUTF8 true

/-- The digest of the sample text is the one SHA-256 gives it. -/
def sampleHash : String → String :=
  Equiv.swap "draft" "7743ce348d9284d677a185f33295b92266cc435a5b5f775029b300066d26693a"

def sampleTextFile : FileObjectSnapshot := ⟨sampleKey 3, ⟨.file, 5, none, some 7, false, .online⟩⟩

/-- A text file below the root, read by the content consumer. -/
def contentSample : FilesystemGraph :=
  (runOps .empty [.applyBatch (sampleBatch [.upsertVolume sampleDescriptor,
      .upsertObject (sampleObject 1 .directory), .upsertLink (sampleLink 9 1 none "c:") false,
      .upsertObject sampleTextFile, .upsertLink (sampleLink 1 3 (some 1) "a.txt") false]),
    .acknowledgeProjection contentSchemaId 2 1]).toOption.getD .empty

def contentSampleDocuments : List CatalogDocument := foldOutbox [] contentSample.outbox.rows

def contentSampleIndex : Entries :=
  build sampleSources sampleHash sampleContentPolicy contentSampleDocuments

def renameTextFile : GraphOp :=
  .applyBatch (sampleBatch [.upsertLink (sampleLink 1 3 (some 1) "b.txt") false])

def renamedContentSample : FilesystemGraph := (renameTextFile.run contentSample).toOption.getD .empty

def renamedBatch : MutationBatch := (readOutbox renamedContentSample (some 2) 1).toOption.getD ⟨[]⟩

/-- The pass after the stop. -/
def contentSamplePass : FilesystemGraph × Entries × DurableContentProjectionSummary :=
  (project sampleSources sampleHash sampleContentPolicy (fun _ => 3) ⟨16, 4⟩ renamedContentSample
    contentSampleIndex).toOption.getD (.empty, [], ⟨0, 0, 0, 0, false, []⟩)

theorem sampleSources_stable : SourcesStable sampleSources := by
  intro d d' policy policy' prepared prepared' h h' _ _ _ _ _
  obtain ⟨⟨canonical, hfile⟩, -⟩ := prepareSource_ok h
  obtain ⟨⟨canonical', hfile'⟩, -⟩ := prepareSource_ok h'
  obtain ⟨-, hbytes, hopens⟩ := Found.file.inj (hfile.symm.trans hfile')
  have hsame : prepared = prepared' := by
    cases prepared
    cases prepared'
    simp_all
  rw [readText_prepared h, readText_prepared h', hsame]

theorem contentSample_steps :
    Relation.ReflTransGen (ContentStep sampleSources sampleHash sampleContentPolicy)
      ⟨contentSample, contentSampleIndex, .idle⟩
      ⟨contentSamplePass.1, contentSamplePass.2.1, .idle⟩ := by
  have hwrite : renameTextFile.run contentSample = .ok renamedContentSample := by decide +kernel
  have hcheckpoint : projectorCheckpoint renamedContentSample contentSchemaId = some ⟨2, 1⟩ := by
    decide
  have hread : readOutbox renamedContentSample (some 2) 1 = .ok renamedBatch := by decide +kernel
  -- the text is not read again, and the index keeps the old payload
  have hcommit : applyDelta sampleSources sampleHash sampleContentPolicy contentSampleIndex
      (upserts (coalesce (renamedBatch.mutations.map (·.mutation))))
      (deletions (coalesce (renamedBatch.mutations.map (·.mutation)))) =
        .ok (contentSampleIndex, [.metadataOnly]) := by decide +kernel
  have hpass : project sampleSources sampleHash sampleContentPolicy (fun _ => 3) ⟨16, 4⟩
      renamedContentSample contentSampleIndex = .ok contentSamplePass := by decide +kernel
  refine .head (.write renameTextFile trivial hwrite) ?_
  refine .head (.start hcheckpoint) ?_
  refine .head (.read 1 hread (by decide) (by decide)) ?_
  exact .head (.commit 2 hcommit) (.head .stop (project_steps hpass))

theorem contentSample_reachable : Reachable contentSample := by
  have hrun : runOps .empty [.applyBatch (sampleBatch [.upsertVolume sampleDescriptor,
      .upsertObject (sampleObject 1 .directory), .upsertLink (sampleLink 9 1 none "c:") false,
      .upsertObject sampleTextFile, .upsertLink (sampleLink 1 3 (some 1) "a.txt") false]),
    .acknowledgeProjection contentSchemaId 2 1] = .ok contentSample := by decide +kernel
  exact runOps_steps (fun _ _ _ => trivial) hrun

/-- A rename is committed without reading the file, lost before it is
acknowledged and applied again. -/
theorem contentSample_texts :
    ∃ log, ContentRun sampleSources sampleHash sampleContentPolicy
        ⟨contentSample, contentSampleIndex, .idle⟩ 2
        ⟨contentSamplePass.1, contentSamplePass.2.1, .idle⟩ log ∧
      textMap contentSamplePass.2.1 = textMap (build sampleSources sampleHash sampleContentPolicy
        (foldOutbox contentSampleDocuments log)) ∧
      textMap contentSamplePass.2.1 (documentIdForLink (.fromU128 1)) = some "draft" := by
  have hstart : ContentRun sampleSources sampleHash sampleContentPolicy
      ⟨contentSample, contentSampleIndex, .idle⟩ 2 ⟨contentSample, contentSampleIndex, .idle⟩
      (outboxAfter contentSample 2) := .start
  obtain ⟨log, hrun⟩ := hstart.steps contentSample_steps
  have hempty : UniqueDocuments [] := List.nodup_nil
  have hunique : UniqueDocuments contentSampleDocuments := (foldOutbox_spec hempty _).1
  have hcheckpoint : projectorCheckpoint contentSample contentSchemaId = some ⟨2, 1⟩ := by
    decide
  have hdone : backlog contentSamplePass.1 = .ok 0 := by decide
  obtain ⟨htexts, -⟩ := content_deltas_build sampleSources_stable (Equiv.injective _) hunique
    contentSample_reachable hcheckpoint hrun
  exact ⟨log, hrun, htexts hdone, by decide +kernel⟩

end Example

end LocalSearch.Content
