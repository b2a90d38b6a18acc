import LocalSearch.Content.Generation

/-!
# Handing over to a rebuilt generation

A rebuild and the projection passes share one consumer. A pass writes the
generation it found active and moves the checkpoint; a rebuild registers its
generation at the sequence it was created at. What a pass acknowledges past that
sequence never reaches the candidate unless a later page happens to show it.
-/
namespace LocalSearch.Content

set_option autoImplicit false

open Core Lib Graph Catalog

/-- How far `project` is. The checkpoint is read before the active path. -/
inductive ProjectPhase where
  | idle
  | opening (position : Nat)
  | running (generation : String) (phase : PassPhase)
  deriving DecidableEq, Repr

/-- How far a resume and its caller are. -/
inductive ResumePhase where
  | idle
  | creating (target : Nat)
  | paging (id : String)
  | pageRead (id : String) (page : List CatalogDocument)
  | pageCommitted (id : String) (page : List CatalogDocument) (stamp : Nat)
      (outcomes : List SyncOutcome)
  | ready (id : String)
  | switched (id : String) (previous : Option String)
  | complete (id : String) (targetSequence indexGeneration : Nat)
  deriving DecidableEq

structure HandoverState where
  graph : FilesystemGraph
  manager : ContentGenerationManager
  project : ProjectPhase
  resume : ResumePhase

section Steps

variable [CaseMapping] (sources : Sources) (contentHash : String → String)
  (policy : ContentIndexPolicy) (limits : ContentGenerationLimits)

/-- A condition on the acknowledgement of a pass: the generation it wrote and
the sequence. -/
abbrev AcknowledgeCondition := HandoverState → String → Nat → Prop

/-- One step: ingestion, a turn of `project`, or a turn of
`resume_initial_generation` and its caller. -/
inductive HandoverStep (C : AcknowledgeCondition) : HandoverState → HandoverState → Prop
  | write {s : HandoverState} {g' : FilesystemGraph} (op : GraphOp) (hop : op.Durable)
      (hrun : op.run s.graph = .ok g') : HandoverStep C s { s with graph := g' }
  -- `project`
  | checkpoint {s : HandoverState} {row : ConsumerRow} (hidle : s.project = .idle)
      (hcheckpoint : projectorCheckpoint s.graph contentSchemaId = some row) :
      HandoverStep C s { s with project := .opening row.lastSequence }
  | openActive {s : HandoverState} {position : Nat} {id : String} {generation : Generation} (now : Nat)
      (hopening : s.project = .opening position) (hpointer : s.manager.activePointer = some id)
      (hgeneration : s.manager.generations.get id = some generation) :
      HandoverStep C s { s with
        manager := s.manager.recoverLifecycle now
        project := .running id (.reading position) }
  | read {s : HandoverState} {id : String} {position : Nat} {batch : MutationBatch} (batchSize : Nat)
      (hrunning : s.project = .running id (.reading position))
      (hread : readOutbox s.graph (some position) batchSize = .ok batch)
      (hnonempty : batch.mutations.isEmpty = false) (hvalid : batch.validate = .ok ()) :
      HandoverStep C s { s with project := .running id (.applying position batch) }
  | commit {s : HandoverState} {id : String} {position : Nat} {batch : MutationBatch}
      {generation : Generation} {index : Entries} {outcomes : List SyncOutcome} (stamp : Nat)
      (hrunning : s.project = .running id (.applying position batch))
      (hgeneration : s.manager.generations.get id = some generation)
      (happly : applyDelta sources contentHash policy generation.index
        (upserts (coalesce (batch.mutations.map (·.mutation))))
        (deletions (coalesce (batch.mutations.map (·.mutation)))) = .ok (index, outcomes)) :
      HandoverStep C s { s with
        manager := s.manager.commitIndex id index
        project := .running id (.committed position batch stamp) }
  | acknowledge {s : HandoverState} {g' : FilesystemGraph} {id : String} {position stamp last : Nat}
      {batch : MutationBatch} (hrunning : s.project = .running id (.committed position batch stamp))
      (hlast : batch.lastSequence = some last)
      (hack : acknowledgeProjection s.graph contentSchemaId last stamp = .ok g') (hC : C s id last) :
      HandoverStep C s { s with graph := g', project := .running id (.reading last) }
  | endPass {s : HandoverState} : HandoverStep C s { s with project := .idle }
  -- `resume_initial_generation`
  | resume {s : HandoverState} {id : String} {generation : Generation} (now : Nat)
      (hidle : s.resume = .idle)
      (hnewest : (s.manager.recoverLifecycle now).Newest id generation)
      (hroots : generation.record.rootIds = policy.roots) :
      HandoverStep C s { s with
        manager := (s.manager.recoverLifecycle now).failBuilding (some id) now
        resume := .paging id }
  | target {s : HandoverState} (now : Nat) (hidle : s.resume = .idle)
      (hnone : ∀ id generation, (s.manager.recoverLifecycle now).Newest id generation →
        generation.record.rootIds ≠ policy.roots) :
      HandoverStep C s { s with
        manager := (s.manager.recoverLifecycle now).failBuilding none now
        resume := .creating (latestOutboxSequence s.graph) }
  | create {s : HandoverState} {target : Nat} (id : String) (stamp bytes now : Nat)
      (hcreating : s.resume = .creating target) (hfresh : s.manager.generations.get id = none)
      -- a name holds its time and is not given again while a pass still writes there
      (hunused : ∀ phase, s.project ≠ .running id phase) :
      HandoverStep C s { s with
        manager := s.manager.createBuilding id policy.roots target stamp bytes now
        resume := .paging id }
  | page {s : HandoverState} {id : String} {generation : Generation} {page : List CatalogDocument}
      (disk : Disk) (hpaging : s.resume = .paging id)
      (hgeneration : s.manager.generations.get id = some generation)
      (hbefore : limitBefore limits disk generation.record = none)
      (hpage : desiredCatalogPage s.graph generation.record.lastCheckpoint
        (pageLimit limits generation.record) = .ok page)
      (hnonempty : page ≠ [])
      (hafter : limitAfter limits disk (declaredBytes policy page) page.length = none) :
      HandoverStep C s { s with resume := .pageRead id page }
  | commitPage {s : HandoverState} {id : String} {generation : Generation}
      {page : List CatalogDocument} {index : Entries} {outcomes : List SyncOutcome} (stamp : Nat)
      (hread : s.resume = .pageRead id page)
      (hgeneration : s.manager.generations.get id = some generation)
      (happly : applyDelta sources contentHash policy generation.index page [] = .ok (index, outcomes)) :
      HandoverStep C s { s with
        manager := s.manager.commitIndex id index
        resume := .pageCommitted id page stamp outcomes }
  | checkpointPage {s : HandoverState} {id : String} {page : List CatalogDocument} {stamp : Nat}
      {outcomes : List SyncOutcome} (bytes now : Nat)
      (hcommitted : s.resume = .pageCommitted id page stamp outcomes) :
      HandoverStep C s { s with
        manager := s.manager.updateRecord id fun record =>
          record.advance page (declaredBytes policy page) outcomes stamp bytes now
        resume := .paging id }
  | pause {s : HandoverState} {id : String} (limit : Option ContentCapacityLimit) (bytes now : Nat)
      (hpaging : s.resume = .paging id) :
      HandoverStep C s { s with
        manager := s.manager.updateRecord id fun record =>
          { record with capacityLimit := limit, contentIndexBytes := bytes, updatedAtUnixMs := now }
        resume := .idle }
  | validated {s : HandoverState} {id : String} {generation : Generation} (disk : Disk) (now : Nat)
      (hpaging : s.resume = .paging id)
      (hgeneration : s.manager.generations.get id = some generation)
      (hbefore : limitBefore limits disk generation.record = none)
      (hpage : desiredCatalogPage s.graph generation.record.lastCheckpoint
        (pageLimit limits generation.record) = .ok [])
      (hcount : generation.index.length = generation.record.documentsProjected) :
      HandoverStep C s { s with
        manager := s.manager.updateRecord id fun record =>
          { record with state := .ready, updatedAtUnixMs := now }
        resume := .ready id }
  | invalid {s : HandoverState} {id : String} {generation : Generation} (disk : Disk) (now : Nat)
      (hpaging : s.resume = .paging id)
      (hgeneration : s.manager.generations.get id = some generation)
      (hbefore : limitBefore limits disk generation.record = none)
      (hpage : desiredCatalogPage s.graph generation.record.lastCheckpoint
        (pageLimit limits generation.record) = .ok [])
      (hcount : generation.index.length ≠ generation.record.documentsProjected) :
      HandoverStep C s { s with
        manager := s.manager.updateRecord id fun record =>
          { record with state := .failed, updatedAtUnixMs := now }
        resume := .idle }
  | switch {s : HandoverState} {id : String} (hready : s.resume = .ready id) :
      HandoverStep C s { s with
        manager := { s.manager with activePointer := some id }
        resume := .switched id s.manager.activePointer }
  | finish {s : HandoverState} {id : String} {previous : Option String} {generation : Generation}
      (now : Nat) (hswitched : s.resume = .switched id previous)
      (hgeneration : s.manager.generations.get id = some generation) :
      HandoverStep C s { s with
        manager := s.manager.finishActivation id previous now
        resume := .complete id generation.record.targetSequence generation.record.indexGeneration }
  | handBack {s : HandoverState} {g' : FilesystemGraph} {id : String} {target stamp : Nat}
      (hcomplete : s.resume = .complete id target stamp)
      (hack : acknowledgeProjection s.graph contentSchemaId target stamp = .ok g') :
      HandoverStep C s { s with graph := g', resume := .idle }
  | endResume {s : HandoverState} : HandoverStep C s { s with resume := .idle }

end Steps

/-- The resume is filling the generation. -/
def ResumePhase.WorksOn : ResumePhase → String → Prop
  | .paging id, id' | .pageRead id _, id' | .pageCommitted id _ _ _, id' => id' = id
  | _, _ => False

/-- The generations that may be building while the resume is where it is. -/
def ResumePhase.Leaves : ResumePhase → String → Prop
  | .idle, _ => True
  | r, id => r.WorksOn id

/-- The resume works on one generation, and no other is building meanwhile. -/
theorem ResumePhase.WorksOn.only {r : ResumePhase} {id other : String} (h : r.WorksOn id)
    (hother : r.Leaves other) : other = id := by
  cases r with
  | paging | pageRead | pageCommitted => exact Eq.trans hother (Eq.symm h)
  | idle | creating | ready | switched | complete => exact h.elim

/-- The generation may still become the active one. -/
def Candidate (m : ContentGenerationManager) (r : ResumePhase) (id : String) : Prop :=
  (∃ generation, m.generations.get id = some generation ∧ generation.record.state = .building) ∨
    r = .ready id

/-- A pass acknowledges nothing past the target of another generation that is
active or may become so. -/
def WithinTargets : AcknowledgeCondition := fun s id last =>
  (∀ target, s.resume = .creating target → last ≤ target) ∧
    ∀ other generation, s.manager.generations.get other = some generation →
      Candidate s.manager s.resume other ∨ s.manager.activePointer = some other →
      other ≠ id → last ≤ generation.record.targetSequence

/-- `m'` is `m` with other states and counters, perhaps without some inactive
generations. -/
structure Restates (m m' : ContentGenerationManager) : Prop where
  pointer : m'.activePointer = m.activePointer
  kept : ∀ id generation', m'.generations.get id = some generation' →
    ∃ generation, m.generations.get id = some generation ∧
      generation'.record.targetSequence = generation.record.targetSequence ∧
      (generation'.record.state = .building → generation.record.state = .building)
  active : ∀ id, m.activePointer = some id → (∃ generation, m.generations.get id = some generation) →
    ∃ generation', m'.generations.get id = some generation'

/-- The indexes stay as well. -/
structure Relabels (m m' : ContentGenerationManager) : Prop extends Restates m m' where
  index : ∀ id generation generation', m.generations.get id = some generation →
    m'.generations.get id = some generation' → generation'.index = generation.index

section Relabel

variable {m m' m'' : ContentGenerationManager}

theorem Relabels.trans (h : Relabels m m') (h' : Relabels m' m'') : Relabels m m'' := by
  refine ⟨⟨h'.pointer.trans h.pointer, fun id generation'' hget => ?_, fun id hid hexists => ?_⟩,
    fun id generation generation'' hget hget'' => ?_⟩
  · obtain ⟨generation', hget', htarget', hstate'⟩ := h'.kept id generation'' hget
    obtain ⟨generation, hget, htarget, hstate⟩ := h.kept id generation' hget'
    exact ⟨generation, hget, htarget'.trans htarget, hstate ∘ hstate'⟩
  · exact h'.active id (h.pointer.trans hid) (h.active id hid hexists)
  · obtain ⟨generation', hget', -, -⟩ := h'.kept id generation'' hget''
    exact (h'.index id generation' generation'' hget' hget'').trans
      (h.index id generation generation' hget hget')

/-- Records rewritten in place, none of them to a building one. -/
theorem relabels_mapRows {f : String → Generation → Generation}
    (hf : ∀ id generation, (f id generation).index = generation.index ∧
      (f id generation).record.targetSequence = generation.record.targetSequence ∧
      ((f id generation).record.state = .building → generation.record.state = .building)) :
    Relabels m { m with generations := m.generations.mapRows f } := by
  refine ⟨⟨rfl, fun id generation' hget => ?_, fun id _ hexists => ?_⟩,
    fun id generation generation' hget hget' => ?_⟩
  · rw [Table.get_mapRows] at hget
    obtain ⟨generation, hold, rfl⟩ := Option.map_eq_some_iff.mp hget
    exact ⟨generation, hold, (hf id generation).2⟩
  · obtain ⟨generation, hget⟩ := hexists
    exact ⟨f id generation, by rw [Table.get_mapRows, hget]; rfl⟩
  · rw [Table.get_mapRows, hget] at hget'
    obtain rfl := Option.some.inj hget'
    exact (hf id generation).1

theorem relabels_refl (m : ContentGenerationManager) : Relabels m m := by
  refine ⟨⟨rfl, fun _ generation hget => ⟨generation, hget, rfl, fun h => h⟩, fun _ _ h => h⟩, ?_⟩
  intro id generation generation' hget hget'
  rw [Option.some.inj (hget.symm.trans hget')]

theorem recoverLifecycle_relabels (m : ContentGenerationManager) (now : Nat) :
    Relabels m (m.recoverLifecycle now) := by
  unfold ContentGenerationManager.recoverLifecycle
  split
  · exact relabels_refl m
  · refine relabels_mapRows fun id generation => ?_
    split_ifs with hpointer hactive hactive
    · exact ⟨rfl, rfl, fun h => h⟩
    · exact ⟨rfl, rfl, fun h => nomatch h⟩
    · exact ⟨rfl, rfl, fun h => nomatch h⟩
    · exact ⟨rfl, rfl, fun h => h⟩

theorem failBuilding_relabels (m : ContentGenerationManager) (keep : Option String) (now : Nat) :
    Relabels m (m.failBuilding keep now) := by
  refine relabels_mapRows fun id generation => ?_
  split_ifs
  · exact ⟨rfl, rfl, fun h => nomatch h⟩
  · exact ⟨rfl, rfl, fun h => h⟩

theorem get_updateRecord (m : ContentGenerationManager) (id other : String)
    (f : ContentGenerationRecord → ContentGenerationRecord) :
    (m.updateRecord id f).generations.get other =
      if other = id then (m.generations.get other).map fun generation =>
        { generation with record := f generation.record }
      else m.generations.get other :=
  Table.get_modify ..

theorem updateRecord_relabels (m : ContentGenerationManager) (id : String)
    {f : ContentGenerationRecord → ContentGenerationRecord}
    (hf : ∀ record, (f record).targetSequence = record.targetSequence ∧
      ((f record).state = .building → record.state = .building)) :
    Relabels m (m.updateRecord id f) := by
  refine ⟨⟨rfl, fun other generation' hget => ?_, fun other _ hexists => ?_⟩,
    fun other generation generation' hget hget' => ?_⟩
  · rw [get_updateRecord] at hget
    split_ifs at hget with h
    · obtain ⟨generation, hold, rfl⟩ := Option.map_eq_some_iff.mp hget
      exact ⟨generation, hold, hf generation.record⟩
    · exact ⟨generation', hget, rfl, fun h => h⟩
  · obtain ⟨generation, hget⟩ := hexists
    rw [get_updateRecord, hget]
    split_ifs
    · exact ⟨_, rfl⟩
    · exact ⟨_, rfl⟩
  · rw [get_updateRecord, hget] at hget'
    split_ifs at hget'
    · obtain rfl := Option.some.inj hget'
      rfl
    · obtain rfl := Option.some.inj hget'
      rfl

theorem collectGarbage_relabels (m : ContentGenerationManager) (retain : Nat) :
    Relabels m (m.collectGarbage retain) := by
  have hold : ∀ id generation, (m.collectGarbage retain).generations.get id = some generation →
      m.generations.get id = some generation :=
    fun id generation hget => ((Table.get_deleteWhere ..).mp hget).1
  refine ⟨⟨rfl, fun id generation' hget => ⟨generation', hold id generation' hget, rfl, fun h => h⟩,
    fun id hid hexists => ?_⟩, fun id generation generation' hget hget' => ?_⟩
  · obtain ⟨generation, hget⟩ := hexists
    refine ⟨generation, (Table.get_deleteWhere ..).mpr ⟨hget, decide_eq_false fun hmem => ?_⟩⟩
    have hkeep := (List.mem_filter.mp hmem).2
    rw [decide_eq_true_eq] at hkeep
    exact hkeep hid
  · rw [Option.some.inj (hget.symm.trans (hold id generation' hget'))]

theorem finishActivation_relabels (m : ContentGenerationManager) (id : String)
    (previous : Option String) (now : Nat) : Relabels m (m.finishActivation id previous now) := by
  have hactive := updateRecord_relabels m id
    (f := fun record => { record with state := .active, updatedAtUnixMs := now })
    fun _ => ⟨rfl, fun h => nomatch h⟩
  unfold ContentGenerationManager.finishActivation
  refine Relabels.trans ?_ (collectGarbage_relabels _ 1)
  cases previous with
  | none => exact hactive
  | some previous =>
    dsimp only
    split_ifs
    · exact hactive
    · exact hactive.trans (updateRecord_relabels _ previous fun _ => ⟨rfl, fun h => nomatch h⟩)

theorem get_commitIndex (m : ContentGenerationManager) (id other : String) (index : Entries) :
    (m.commitIndex id index).generations.get other =
      if other = id then (m.generations.get other).map fun generation =>
        { generation with index := index }
      else m.generations.get other :=
  Table.get_modify ..

theorem commitIndex_record {id other : String} {index : Entries} {generation' : Generation}
    (hget : (m.commitIndex id index).generations.get other = some generation') :
    ∃ generation, m.generations.get other = some generation ∧ generation'.record = generation.record := by
  rw [get_commitIndex] at hget
  split_ifs at hget
  · obtain ⟨generation, hold, rfl⟩ := Option.map_eq_some_iff.mp hget
    exact ⟨generation, hold, rfl⟩
  · exact ⟨generation', hget, rfl⟩

theorem commitIndex_keeps (m : ContentGenerationManager) (id : String) (index : Entries)
    {other : String} (h : ∃ generation, m.generations.get other = some generation) :
    ∃ generation', (m.commitIndex id index).generations.get other = some generation' := by
  obtain ⟨generation, hget⟩ := h
  rw [get_commitIndex, hget]
  split_ifs
  · exact ⟨_, rfl⟩
  · exact ⟨_, rfl⟩

theorem commitIndex_restates (m : ContentGenerationManager) (id : String) (index : Entries) :
    Restates m (m.commitIndex id index) := by
  refine ⟨rfl, fun other generation' hget => ?_, fun other _ => commitIndex_keeps m id index⟩
  obtain ⟨generation, hold, hrecord⟩ := commitIndex_record hget
  rw [hrecord]
  exact ⟨generation, hold, rfl, fun h => h⟩

theorem recoverLifecycle_keeps (m : ContentGenerationManager) (now : Nat) {id : String}
    (h : ∃ generation, m.generations.get id = some generation) :
    ∃ generation', (m.recoverLifecycle now).generations.get id = some generation' := by
  obtain ⟨generation, hget⟩ := h
  unfold ContentGenerationManager.recoverLifecycle
  split
  · exact ⟨generation, hget⟩
  · rw [Table.get_mapRows, hget]
    exact ⟨_, rfl⟩

theorem Restates.candidate (h : Restates m m') {r : ResumePhase} {id : String}
    (hid : Candidate m' r id) : Candidate m r id := by
  rcases hid with ⟨generation', hget, hstate⟩ | hready
  · obtain ⟨generation, hold, -, hbuilding⟩ := h.kept id generation' hget
    exact Or.inl ⟨generation, hold, hbuilding hstate⟩
  · exact Or.inr hready

/-- A candidate that is not the ready one is building. -/
theorem Restates.building_candidate (h : Restates m m') {r r' : ResumePhase} {id : String}
    (hr : ∀ other, r' ≠ .ready other) (hid : Candidate m' r' id) : Candidate m r id := by
  rcases hid with hbuilding | hready
  · exact h.candidate (Or.inl hbuilding)
  · exact absurd hready (hr id)

theorem get_failBuilding (m : ContentGenerationManager) (id : String) (now : Nat) :
    (m.failBuilding (some id) now).generations.get id = m.generations.get id := by
  unfold ContentGenerationManager.failBuilding
  rw [Table.get_mapRows]
  cases m.generations.get id with
  | none => rfl
  | some generation => simp

theorem failBuilding_building {keep : Option String} {id : String} {now : Nat} {generation : Generation}
    (hget : (m.failBuilding keep now).generations.get id = some generation)
    (hstate : generation.record.state = .building) : keep = some id := by
  unfold ContentGenerationManager.failBuilding at hget
  rw [Table.get_mapRows] at hget
  obtain ⟨old, -, rfl⟩ := Option.map_eq_some_iff.mp hget
  split_ifs at hstate with hfail
  · cases hstate
  · by_contra hne
    exact hfail ⟨hstate, fun he => hne he.symm⟩

/-- A recovery rewrites active records and the one pointed to. -/
theorem get_recoverLifecycle {id : String} (now : Nat) (hpointer : m.activePointer ≠ some id)
    {generation : Generation} (hget : m.generations.get id = some generation)
    (hstate : generation.record.state ≠ .active) :
    (m.recoverLifecycle now).generations.get id = some generation := by
  unfold ContentGenerationManager.recoverLifecycle
  split
  · exact hget
  · next pointer hactive =>
    have hother : id ≠ pointer := fun he => hpointer (he ▸ hactive)
    dsimp only
    rw [Table.get_mapRows, hget, Option.map_some, if_neg hother, if_neg hstate]

end Relabel

section Invariant

variable [CaseMapping] (sources : Sources) (contentHash : String → String)
  (policy : ContentIndexPolicy)

/-- The writes past a position. -/
abbrev unread (g : FilesystemGraph) (position : Nat) : List (DocumentId × Option CatalogDocument) :=
  rowWrites (outboxAfter g position)

/-- The indexes: the active one holds, once the rest is read, what was written
past its target. -/
structure IndexInvariant (g : FilesystemGraph) (m : ContentGenerationManager) : Prop where
  entries : ∀ id generation, m.generations.get id = some generation →
    EntriesWF sources contentHash generation.index
  targets : ∀ id generation, m.generations.get id = some generation →
    generation.record.targetSequence ≤ highWater g
  active : ∀ id, m.activePointer = some id → ∃ generation, m.generations.get id = some generation
  settles : ∀ id generation row, m.activePointer = some id → m.generations.get id = some generation →
    projectorCheckpoint g contentSchemaId = some row →
    Settles (textOf sources policy) (textMap generation.index) (unread g row.lastSequence)
      (unread g generation.record.targetSequence)

/-- The checkpoint has not passed the target of a candidate. -/
structure CandidateInvariant (g : FilesystemGraph) (m : ContentGenerationManager) (p : ProjectPhase)
    (r : ResumePhase) : Prop where
  behind : ∀ id generation row, Candidate m r id → m.generations.get id = some generation →
    projectorCheckpoint g contentSchemaId = some row →
    row.lastSequence ≤ generation.record.targetSequence
  pointed : ∀ id, m.activePointer = some id → ¬ Candidate m r id
  written : ∀ id phase, p = .running id phase → ¬ Candidate m r id

structure ResumeInvariant (g : FilesystemGraph) (m : ContentGenerationManager) (r : ResumePhase) :
    Prop where
  leaves : ∀ id generation, m.generations.get id = some generation →
    generation.record.state = .building → r.Leaves id
  builds : ∀ id generation, r.WorksOn id → m.generations.get id = some generation →
    generation.record.state = .building
  page : ∀ id page, r = .pageRead id page → UniqueDocuments page
  creating : ∀ target, r = .creating target → target ≤ highWater g ∧
    ∀ row, projectorCheckpoint g contentSchemaId = some row → row.lastSequence ≤ target
  ready : ∀ id, r = .ready id → ∃ generation, m.generations.get id = some generation
  switched : ∀ id previous, r = .switched id previous → m.activePointer = some id
  complete : ∀ id target stamp, r = .complete id target stamp → m.activePointer = some id ∧
    ∀ generation, m.generations.get id = some generation → generation.record.targetSequence = target

def PassPhase.position : PassPhase → Option Nat
  | .idle => none
  | .reading position | .applying position _ | .committed position _ _ => some position

def ProjectPhase.position : ProjectPhase → Option Nat
  | .idle => none
  | .opening position => some position
  | .running _ phase => phase.position

/-- A pass reads on from the checkpoint, or the checkpoint was moved to the target
of a generation activated since. -/
structure ProjectInvariant (g : FilesystemGraph) (m : ContentGenerationManager) (p : ProjectPhase) :
    Prop where
  registered : ∀ position, p.position = some position → ∃ row,
    projectorCheckpoint g contentSchemaId = some row ∧ position ≤ row.lastSequence ∧
      (position = row.lastSequence ∨ ∀ id generation, m.activePointer = some id →
        m.generations.get id = some generation → row.lastSequence ≤ generation.record.targetSequence)
  applying : ∀ id position batch, p = .running id (.applying position batch) →
    Pending g position batch
  committed : ∀ id position batch stamp, p = .running id (.committed position batch stamp) →
    Pending g position batch ∧ ∀ generation, m.generations.get id = some generation →
      replay (textMap generation.index)
        (derived (textOf sources policy) (batch.mutations.map (·.mutation.write))) =
          textMap generation.index

structure HandoverInvariant (s : HandoverState) : Prop where
  wellFormed : WellFormed s.graph
  outbox : OutboxWF s.graph
  index : IndexInvariant sources contentHash policy s.graph s.manager
  candidate : CandidateInvariant s.graph s.manager s.project s.resume
  resume : ResumeInvariant s.graph s.manager s.resume
  project : ProjectInvariant sources policy s.graph s.manager s.project

variable {sources contentHash policy} {g g' : FilesystemGraph} {m m' : ContentGenerationManager}
  {p p' : ProjectPhase} {r r' : ResumePhase}

/-- A checkpoint at or before the target leaves everything past it to be read. -/
theorem settles_behind {position target : Nat} (h : position ≤ target)
    (texts : DocumentId → Option String) :
    Settles (textOf sources policy) texts (unread g position) (unread g target) := by
  obtain ⟨early, hsplit⟩ := g.outbox.select_after_split h
  have hrows : outboxAfter g position = early ++ outboxAfter g target := hsplit
  rw [unread, hrows, rowWrites_append]
  exact settles_of_unread _ _

theorem IndexInvariant.relabel (h : IndexInvariant sources contentHash policy g m)
    (hm : Relabels m m') : IndexInvariant sources contentHash policy g m' := by
  refine ⟨fun id generation' hget => ?_, fun id generation' hget => ?_, fun id hid => ?_,
    fun id generation' row hid hget hrow => ?_⟩
  · obtain ⟨generation, hold, -, -⟩ := hm.kept id generation' hget
    rw [hm.index id generation generation' hold hget]
    exact h.entries id generation hold
  · obtain ⟨generation, hold, htarget, -⟩ := hm.kept id generation' hget
    rw [htarget]
    exact h.targets id generation hold
  · rw [hm.pointer] at hid
    exact hm.active id hid (h.active id hid)
  · obtain ⟨generation, hold, htarget, -⟩ := hm.kept id generation' hget
    rw [hm.index id generation generation' hold hget, htarget]
    exact h.settles id generation row (hm.pointer ▸ hid) hold hrow

omit [CaseMapping] in
theorem CandidateInvariant.restate (h : CandidateInvariant g m p r) (hm : Restates m m')
    (hr : ∀ id, Candidate m' r' id → Candidate m r id) : CandidateInvariant g m' p r' := by
  refine ⟨fun id generation' row hid hget hrow => ?_, fun id hid hcandidate => ?_,
    fun id phase hp hcandidate => ?_⟩
  · obtain ⟨generation, hold, htarget, -⟩ := hm.kept id generation' hget
    rw [htarget]
    exact h.behind id generation row (hr id hid) hold hrow
  · exact h.pointed id (hm.pointer ▸ hid) (hr id hcandidate)
  · exact h.written id phase hp (hr id hcandidate)

theorem ProjectInvariant.relabel (h : ProjectInvariant sources policy g m p) (hm : Relabels m m') :
    ProjectInvariant sources policy g m' p := by
  refine ⟨fun position hposition => ?_, h.applying, fun id position batch stamp hp => ?_⟩
  · obtain ⟨row, hrow, hle, hlag⟩ := h.registered position hposition
    refine ⟨row, hrow, hle, hlag.imp_right fun hbehind id generation' hid hget => ?_⟩
    obtain ⟨generation, hold, htarget, -⟩ := hm.kept id generation' hget
    rw [htarget]
    exact hbehind id generation (hm.pointer ▸ hid) hold
  · obtain ⟨hpending, hcontained⟩ := h.committed id position batch stamp hp
    refine ⟨hpending, fun generation' hget => ?_⟩
    obtain ⟨generation, hold, -, -⟩ := hm.kept id generation' hget
    rw [hm.index id generation generation' hold hget]
    exact hcontained generation hold

omit [CaseMapping] in
theorem ResumeInvariant.restate (h : ResumeInvariant g m r) (hm : Restates m m')
    (hkept : ∀ id, (∃ generation, m.generations.get id = some generation) →
      ∃ generation', m'.generations.get id = some generation')
    (hbuilds : ∀ id generation', r.WorksOn id → m'.generations.get id = some generation' →
      generation'.record.state = .building) : ResumeInvariant g m' r := by
  refine ⟨fun id generation' hget hstate => ?_, hbuilds, h.page, h.creating, fun id hr => ?_,
    fun id previous hr => ?_, fun id target stamp hr => ?_⟩
  · obtain ⟨generation, hold, -, hbuilding⟩ := hm.kept id generation' hget
    exact h.leaves id generation hold (hbuilding hstate)
  · exact hkept id (h.ready id hr)
  · rw [hm.pointer]
    exact h.switched id previous hr
  · obtain ⟨hpointer, htarget⟩ := h.complete id target stamp hr
    refine ⟨hm.pointer.trans hpointer, fun generation' hget => ?_⟩
    obtain ⟨generation, hold, hsame, -⟩ := hm.kept id generation' hget
    rw [hsame]
    exact htarget generation hold

section Grow

variable (hgrow : OutboxGrows g g') (hout : OutboxWF g)

include hgrow

omit [CaseMapping] in
theorem checkpoint_grow :
    projectorCheckpoint g' contentSchemaId = projectorCheckpoint g contentSchemaId := by
  rw [projectorCheckpoint, projectorCheckpoint, hgrow.consumers]

include hout

omit [CaseMapping] in
theorem unread_grow {position : Nat} (h : position ≤ highWater g) :
    unread g' position = unread g position ++ unread g' (highWater g) := by
  rw [unread, hgrow.outboxAfter hout h, rowWrites_append]

theorem IndexInvariant.grow (h : IndexInvariant sources contentHash policy g m) :
    IndexInvariant sources contentHash policy g' m := by
  refine ⟨h.entries, fun id generation hget => (h.targets id generation hget).trans hgrow.mono,
    h.active, fun id generation row hid hget hrow => ?_⟩
  rw [checkpoint_grow hgrow] at hrow
  rw [unread_grow hgrow hout (hout.consumers _ row hrow),
    unread_grow hgrow hout (h.targets id generation hget)]
  exact (h.settles id generation row hid hget hrow).append _

omit hout [CaseMapping] in
theorem CandidateInvariant.grow (h : CandidateInvariant g m p r) : CandidateInvariant g' m p r := by
  refine ⟨fun id generation row hid hget hrow => ?_, h.pointed, h.written⟩
  rw [checkpoint_grow hgrow] at hrow
  exact h.behind id generation row hid hget hrow

omit hout [CaseMapping] in
theorem ResumeInvariant.grow (h : ResumeInvariant g m r) : ResumeInvariant g' m r := by
  refine ⟨h.leaves, h.builds, h.page, fun target hr => ?_, h.ready, h.switched, h.complete⟩
  obtain ⟨hle, hbehind⟩ := h.creating target hr
  refine ⟨hle.trans hgrow.mono, fun row hrow => ?_⟩
  rw [checkpoint_grow hgrow] at hrow
  exact hbehind row hrow

omit [CaseMapping] in
theorem pending_grow {position : Nat} {batch : MutationBatch} (hle : position ≤ highWater g)
    (h : Pending g position batch) : Pending g' position batch := by
  obtain ⟨taken, rest, hrows, hmutations⟩ := h
  refine ⟨taken, rest ++ outboxAfter g' (highWater g), ?_, hmutations⟩
  rw [hgrow.outboxAfter hout hle, hrows, List.append_assoc]

theorem ProjectInvariant.grow (h : ProjectInvariant sources policy g m p) :
    ProjectInvariant sources policy g' m p := by
  have hbound : ∀ position, p.position = some position → position ≤ highWater g := by
    intro position hposition
    obtain ⟨row, hrow, hle, -⟩ := h.registered position hposition
    exact hle.trans (hout.consumers _ row hrow)
  refine ⟨fun position hposition => ?_, fun id position batch hp => ?_,
    fun id position batch stamp hp => ?_⟩
  · rw [checkpoint_grow hgrow]
    exact h.registered position hposition
  · exact pending_grow hgrow hout (hbound position (hp ▸ rfl)) (h.applying id position batch hp)
  · obtain ⟨hpending, hcontained⟩ := h.committed id position batch stamp hp
    exact ⟨pending_grow hgrow hout (hbound position (hp ▸ rfl)) hpending, hcontained⟩

end Grow

theorem IndexInvariant.commit (h : IndexInvariant sources contentHash policy g m) {id : String}
    {generation : Generation} {index : Entries} (hget : m.generations.get id = some generation)
    (hentries : EntriesWF sources contentHash index)
    (hsettles : ∀ row, m.activePointer = some id → projectorCheckpoint g contentSchemaId = some row →
      Settles (textOf sources policy) (textMap index) (unread g row.lastSequence)
        (unread g generation.record.targetSequence)) :
    IndexInvariant sources contentHash policy g (m.commitIndex id index) := by
  have hm := commitIndex_restates m id index
  refine ⟨fun other generation' hget' => ?_, fun other generation' hget' => ?_,
    fun other hid => hm.active other hid (h.active other hid), fun other generation' row hid hget' hrow => ?_⟩
  · rw [get_commitIndex] at hget'
    split_ifs at hget' with he
    · obtain ⟨_, -, rfl⟩ := Option.map_eq_some_iff.mp hget'
      exact hentries
    · exact h.entries other generation' hget'
  · obtain ⟨old, hold, htarget, -⟩ := hm.kept other generation' hget'
    rw [htarget]
    exact h.targets other old hold
  · rw [get_commitIndex] at hget'
    split_ifs at hget' with he
    · subst he
      rw [hget] at hget'
      obtain rfl := Option.some.inj hget'
      exact hsettles row hid hrow
    · exact h.settles other generation' row hid hget' hrow

omit [CaseMapping] in
/-- An acknowledgement moves the checkpoint and nothing else. -/
theorem acknowledged {last stamp : Nat}
    (h : acknowledgeProjection g contentSchemaId last stamp = .ok g') :
    projectorCheckpoint g' contentSchemaId = some ⟨last, stamp⟩ ∧
      (∀ row, projectorCheckpoint g contentSchemaId = some row → row.lastSequence ≤ last) ∧
      (∀ position, outboxAfter g' position = outboxAfter g position) ∧ highWater g' = highWater g := by
  obtain ⟨-, hforward, -, -, rfl⟩ := acknowledgeProjection_ok.mp h
  exact ⟨Table.get_insert_self _ _ _, fun row hrow => hforward row hrow, fun _ => rfl, rfl⟩

theorem IndexInvariant.acknowledge (h : IndexInvariant sources contentHash policy g m)
    {last stamp : Nat} (hack : acknowledgeProjection g contentSchemaId last stamp = .ok g')
    (hsettles : ∀ id generation, m.activePointer = some id → m.generations.get id = some generation →
      Settles (textOf sources policy) (textMap generation.index) (unread g last)
        (unread g generation.record.targetSequence)) :
    IndexInvariant sources contentHash policy g' m := by
  obtain ⟨hcheckpoint, -, hrows, hwater⟩ := acknowledged hack
  refine ⟨h.entries, fun id generation hget => hwater ▸ h.targets id generation hget, h.active,
    fun id generation row hid hget hrow => ?_⟩
  obtain rfl := Option.some.inj (hcheckpoint.symm.trans hrow)
  rw [unread, unread, hrows, hrows]
  exact hsettles id generation hid hget

section Pass

variable {s : HandoverState} (hinv : HandoverInvariant sources contentHash policy s)

include hinv

theorem HandoverInvariant.write {op : GraphOp} (hop : op.Durable) (hrun : op.run s.graph = .ok g') :
    HandoverInvariant sources contentHash policy { s with graph := g' } := by
  have hgrow : OutboxGrows s.graph g' :=
    outboxGrows_of_transacts (hop.transacts (Or.inl trivial) hinv.wellFormed hrun) hinv.outbox
  exact ⟨wellFormed_of_run hinv.wellFormed hrun, hgrow.wf, hinv.index.grow hgrow hinv.outbox,
    hinv.candidate.grow hgrow, hinv.resume.grow hgrow, hinv.project.grow hgrow hinv.outbox⟩

theorem HandoverInvariant.openActive {position : Nat} {id : String} (now : Nat)
    (hopening : s.project = .opening position) (hpointer : s.manager.activePointer = some id) :
    HandoverInvariant sources contentHash policy { s with
      manager := s.manager.recoverLifecycle now, project := .running id (.reading position) } := by
  have hm := recoverLifecycle_relabels s.manager now
  have hproject := hinv.project.relabel hm
  refine ⟨hinv.wellFormed, hinv.outbox, hinv.index.relabel hm, ?_, ?_, ?_⟩
  · have hcandidate := hinv.candidate.restate hm.toRestates fun _ => hm.candidate
    refine ⟨hcandidate.behind, hcandidate.pointed, fun other phase hp => ?_⟩
    obtain ⟨rfl, -⟩ := ProjectPhase.running.inj hp
    exact hcandidate.pointed id (hm.pointer.trans hpointer)
  · refine hinv.resume.restate hm.toRestates (fun _ => recoverLifecycle_keeps _ now)
      fun other generation' hworks hget => ?_
    obtain ⟨old, hold, -, -⟩ := hm.kept other generation' hget
    have hbuilding := hinv.resume.builds other old hworks hold
    have hother : s.manager.activePointer ≠ some other := fun he =>
      hinv.candidate.pointed other he (Or.inl ⟨old, hold, hbuilding⟩)
    have hsame := get_recoverLifecycle now hother hold (by rw [hbuilding]; decide)
    rw [Option.some.inj (hget.symm.trans hsame)]
    exact hbuilding
  · refine ⟨fun other hposition => ?_, fun other position' batch hp => ?_,
      fun other position' batch stamp hp => ?_⟩
    · obtain rfl := Option.some.inj hposition
      exact hproject.registered position (hopening ▸ rfl)
    · cases (ProjectPhase.running.inj hp).2
    · cases (ProjectPhase.running.inj hp).2

/-- The texts of a delta that a pass commits. -/
theorem HandoverInvariant.commit (hstable : SourcesStable sources)
    (hhash : Function.Injective contentHash) {position stamp : Nat} {id : String}
    {batch : MutationBatch} {generation : Generation} {index : Entries} {outcomes : List SyncOutcome}
    (hrunning : s.project = .running id (.applying position batch))
    (hgeneration : s.manager.generations.get id = some generation)
    (happly : applyDelta sources contentHash policy generation.index
      (upserts (coalesce (batch.mutations.map (·.mutation))))
      (deletions (coalesce (batch.mutations.map (·.mutation)))) = .ok (index, outcomes)) :
    HandoverInvariant sources contentHash policy { s with
      manager := s.manager.commitIndex id index
      project := .running id (.committed position batch stamp) } := by
  have hm := commitIndex_restates s.manager id index
  have hpending := hinv.project.applying id position batch hrunning
  obtain ⟨taken, rest, hrows, hbatch⟩ := hpending
  obtain ⟨entries, outcomes', happly', hentries, hmap⟩ := applyDelta_coalesced hstable hhash policy
    (hinv.index.entries id generation hgeneration) (batch.mutations.map (·.mutation))
  obtain ⟨rfl, -⟩ := Prod.mk.inj (Except.ok.inj (happly'.symm.trans happly))
  rw [mutations_write] at hmap
  obtain ⟨row, hrow, hle, hlag⟩ := hinv.project.registered position (hrunning ▸ rfl)
  refine ⟨hinv.wellFormed, hinv.outbox, hinv.index.commit hgeneration hentries ?_, ?_, ?_, ?_⟩
  · intro row' hpointer hrow'
    obtain rfl := Option.some.inj (hrow.symm.trans hrow')
    obtain rfl | hbehind := hlag
    · have hsettles := hinv.index.settles id generation row hpointer hgeneration hrow
      rw [writes_of_taken hbatch] at hmap
      rw [unread, hrows, rowWrites_append] at hsettles ⊢
      rw [hmap]
      exact hsettles.apply
    · exact settles_behind (hbehind id generation hpointer hgeneration) _
  · have hcandidate := hinv.candidate.restate hm fun _ => hm.candidate
    refine ⟨hcandidate.behind, hcandidate.pointed, fun other phase hp => ?_⟩
    obtain ⟨rfl, -⟩ := ProjectPhase.running.inj hp
    exact hcandidate.written id _ hrunning
  · refine hinv.resume.restate hm (fun _ => commitIndex_keeps _ id entries)
      fun other generation' hworks hget => ?_
    obtain ⟨old, hold, hrecord⟩ := commitIndex_record hget
    rw [hrecord]
    exact hinv.resume.builds other old hworks hold
  · refine ⟨fun other hposition => ?_, fun other position' batch' hp => ?_,
      fun other position' batch' stamp' hp => ?_⟩
    · obtain rfl := Option.some.inj hposition
      refine ⟨row, hrow, hle, hlag.imp_right fun hbehind active generation' hpointer hget => ?_⟩
      obtain ⟨old, hold, hrecord⟩ := commitIndex_record hget
      rw [hrecord]
      exact hbehind active old hpointer hold
    · cases (ProjectPhase.running.inj hp).2
    · obtain ⟨rfl, hphase⟩ := ProjectPhase.running.inj hp
      obtain ⟨rfl, rfl, -⟩ := PassPhase.committed.inj hphase
      refine ⟨⟨taken, rest, hrows, hbatch⟩, fun generation' hget => ?_⟩
      rw [get_commitIndex, if_pos rfl, hgeneration] at hget
      obtain rfl := Option.some.inj hget
      rw [hmap]
      exact replay_absorb _ fun w hw => ⟨w, hw, rfl⟩

theorem HandoverInvariant.acknowledge {position stamp last : Nat} {id : String}
    {batch : MutationBatch} (hrunning : s.project = .running id (.committed position batch stamp))
    (hlast : batch.lastSequence = some last)
    (hack : acknowledgeProjection s.graph contentSchemaId last stamp = .ok g')
    (hC : WithinTargets s id last) :
    HandoverInvariant sources contentHash policy { s with
      graph := g', project := .running id (.reading last) } := by
  obtain ⟨hcheckpoint, hforward, -, hwater⟩ := acknowledged hack
  obtain ⟨hcreating, hothers⟩ := hC
  obtain ⟨⟨taken, rest, hrows, hbatch⟩, hcontained⟩ := hinv.project.committed id position batch stamp hrunning
  have hcandidate : ∀ other generation, Candidate s.manager s.resume other →
      s.manager.generations.get other = some generation → last ≤ generation.record.targetSequence := by
    intro other generation hother hget
    refine hothers other generation hget (Or.inl hother) fun he => ?_
    exact hinv.candidate.written id _ hrunning (he ▸ hother)
  have hrun : (GraphOp.acknowledgeProjection contentSchemaId last stamp).run s.graph = .ok g' := hack
  refine ⟨wellFormed_of_run hinv.wellFormed hrun, outboxWF_of_run hinv.wellFormed hinv.outbox hrun,
    hinv.index.acknowledge hack fun active generation hpointer hget => ?_, ?_, ?_, ?_⟩
  · by_cases he : active = id
    · subst he
      obtain ⟨row, hrow, hle, hlag⟩ := hinv.project.registered position (hrunning ▸ rfl)
      -- the pass read on from a place from which the index settles
      have hsettles : Settles (textOf sources policy) (textMap generation.index)
          (unread s.graph position) (unread s.graph generation.record.targetSequence) := by
        obtain rfl | hbehind := hlag
        · exact hinv.index.settles active generation row hpointer hget hrow
        · exact settles_behind (hle.trans (hbehind active generation hpointer hget)) _
      have hleft := outboxAfter_last hrows hbatch hlast
      have hread := hcontained generation hget
      rw [writes_of_taken hbatch] at hread
      rw [unread, hrows, rowWrites_append] at hsettles
      rw [unread, hleft]
      exact hsettles.drop hread
    · exact settles_behind (hothers active generation hget (Or.inr hpointer) he) _
  · refine ⟨fun other generation row hother hget hrow => ?_, hinv.candidate.pointed, fun other phase hp => ?_⟩
    · obtain rfl := Option.some.inj (hcheckpoint.symm.trans hrow)
      exact hcandidate other generation hother hget
    · obtain ⟨rfl, -⟩ := ProjectPhase.running.inj hp
      exact hinv.candidate.written id _ hrunning
  · refine ⟨hinv.resume.leaves, hinv.resume.builds, hinv.resume.page, fun target hr => ?_,
      hinv.resume.ready, hinv.resume.switched, hinv.resume.complete⟩
    refine ⟨hwater ▸ (hinv.resume.creating target hr).1, fun row hrow => ?_⟩
    obtain rfl := Option.some.inj (hcheckpoint.symm.trans hrow)
    exact hcreating target hr
  · refine ⟨fun other hposition => ?_, fun other position' batch' hp => ?_,
      fun other position' batch' stamp' hp => ?_⟩
    · obtain rfl := Option.some.inj hposition
      exact ⟨_, hcheckpoint, le_rfl, Or.inl rfl⟩
    · cases (ProjectPhase.running.inj hp).2
    · cases (ProjectPhase.running.inj hp).2

end Pass

section Resume

variable {s : HandoverState} (hinv : HandoverInvariant sources contentHash policy s)

include hinv

/-- A turn that changes states and counters and gives no new candidate. -/
theorem HandoverInvariant.turn (hm : Relabels s.manager m')
    (hr : ∀ id, Candidate m' r' id → Candidate s.manager s.resume id)
    (hresume : ResumeInvariant s.graph m' r') :
    HandoverInvariant sources contentHash policy { s with manager := m', resume := r' } :=
  ⟨hinv.wellFormed, hinv.outbox, hinv.index.relabel hm, hinv.candidate.restate hm.toRestates hr,
    hresume, hinv.project.relabel hm⟩

theorem HandoverInvariant.resumeBuilding {id : String} {generation : Generation} (now : Nat)
    (hnewest : (s.manager.recoverLifecycle now).Newest id generation) :
    HandoverInvariant sources contentHash policy { s with
      manager := (s.manager.recoverLifecycle now).failBuilding (some id) now
      resume := .paging id } := by
  have hm := (recoverLifecycle_relabels s.manager now).trans (failBuilding_relabels _ (some id) now)
  refine hinv.turn hm (fun _ => hm.building_candidate nofun) ⟨?_, ?_, nofun, nofun, nofun, nofun, nofun⟩
  · intro other generation' hget hstate
    exact (Option.some.inj (failBuilding_building hget hstate)).symm
  · rintro other generation' rfl hget
    rw [get_failBuilding] at hget
    rw [Option.some.inj (hget.symm.trans hnewest.1)]
    exact hnewest.2.1

theorem HandoverInvariant.target (now : Nat) :
    HandoverInvariant sources contentHash policy { s with
      manager := (s.manager.recoverLifecycle now).failBuilding none now
      resume := .creating (latestOutboxSequence s.graph) } := by
  have hm := (recoverLifecycle_relabels s.manager now).trans (failBuilding_relabels _ none now)
  refine hinv.turn hm (fun _ => hm.building_candidate nofun)
    ⟨?_, nofun, nofun, ?_, nofun, nofun, nofun⟩
  · intro other generation' hget hstate
    cases failBuilding_building hget hstate
  · intro target hr
    obtain rfl := ResumePhase.creating.inj hr
    rw [latestOutboxSequence_eq hinv.outbox]
    exact ⟨le_rfl, fun row hrow => hinv.outbox.consumers _ row hrow⟩

theorem HandoverInvariant.create {target : Nat} (id : String) (stamp bytes now : Nat)
    (hcreating : s.resume = .creating target) (hfresh : s.manager.generations.get id = none)
    (hunused : ∀ phase, s.project ≠ .running id phase) :
    HandoverInvariant sources contentHash policy { s with
      manager := s.manager.createBuilding id policy.roots target stamp bytes now
      resume := .paging id } := by
  obtain ⟨hwater, hbehind⟩ := hinv.resume.creating target hcreating
  have hget : ∀ other, (s.manager.createBuilding id policy.roots target stamp bytes now).generations.get
      other = if other = id then some ⟨⟨.building, target, policy.roots, none, 0, 0, 0, 0, stamp, bytes,
        none, now, now⟩, []⟩ else s.manager.generations.get other := fun other => Table.get_insert ..
  have hactive : ∀ other, s.manager.activePointer = some other → other ≠ id := by
    intro other hpointer he
    obtain ⟨generation, hold⟩ := hinv.index.active other hpointer
    rw [he, hfresh] at hold
    cases hold
  have hcandidate : ∀ other, other ≠ id →
      Candidate (s.manager.createBuilding id policy.roots target stamp bytes now) (.paging id) other →
      Candidate s.manager s.resume other := by
    rintro other hne (⟨generation, hold, hstate⟩ | hready)
    · rw [hget, if_neg hne] at hold
      exact Or.inl ⟨generation, hold, hstate⟩
    · cases hready
  refine ⟨hinv.wellFormed, hinv.outbox, ⟨?_, ?_, ?_, ?_⟩, ⟨?_, ?_, ?_⟩,
    ⟨?_, ?_, nofun, nofun, nofun, nofun, nofun⟩, ⟨?_, hinv.project.applying, ?_⟩⟩
  · intro other generation hother
    rw [hget] at hother
    split_ifs at hother
    · obtain rfl := Option.some.inj hother
      exact .nil
    · exact hinv.index.entries other generation hother
  · intro other generation hother
    rw [hget] at hother
    split_ifs at hother
    · obtain rfl := Option.some.inj hother
      exact hwater
    · exact hinv.index.targets other generation hother
  · intro other hpointer
    rw [hget, if_neg (hactive other hpointer)]
    exact hinv.index.active other hpointer
  · intro other generation row hpointer hother hrow
    rw [hget, if_neg (hactive other hpointer)] at hother
    exact hinv.index.settles other generation row hpointer hother hrow
  · intro other generation row hother hold hrow
    by_cases he : other = id
    · rw [hget, if_pos he] at hold
      obtain rfl := Option.some.inj hold
      exact hbehind row hrow
    · rw [hget, if_neg he] at hold
      exact hinv.candidate.behind other generation row (hcandidate other he hother) hold hrow
  · intro other hpointer hother
    exact hinv.candidate.pointed other hpointer (hcandidate other (hactive other hpointer) hother)
  · intro other phase hp hother
    have hne : other ≠ id := fun he => hunused phase (he ▸ hp)
    exact hinv.candidate.written other phase hp (hcandidate other hne hother)
  · intro other generation hother hstate
    rw [hget] at hother
    split_ifs at hother with he
    · exact he
    · have hleaves := hinv.resume.leaves other generation hother hstate
      rw [hcreating] at hleaves
      exact hleaves.elim
  · rintro other generation rfl hother
    rw [hget, if_pos rfl] at hother
    obtain rfl := Option.some.inj hother
    rfl
  · intro position hposition
    obtain ⟨row, hrow, hle, hlag⟩ := hinv.project.registered position hposition
    refine ⟨row, hrow, hle, hlag.imp_right fun hpast other generation hpointer hother => ?_⟩
    rw [hget, if_neg (hactive other hpointer)] at hother
    exact hpast other generation hpointer hother
  · intro other position batch stamp' hp
    obtain ⟨hpending, hcontained⟩ := hinv.project.committed other position batch stamp' hp
    refine ⟨hpending, fun generation hother => ?_⟩
    rw [hget, if_neg fun he => hunused _ (he ▸ hp)] at hother
    exact hcontained generation hother

theorem HandoverInvariant.page {id : String} {generation : Generation} {limit : Nat}
    {page : List CatalogDocument} (hpaging : s.resume = .paging id)
    (hpage : desiredCatalogPage s.graph generation.record.lastCheckpoint limit = .ok page) :
    HandoverInvariant sources contentHash policy { s with resume := .pageRead id page } := by
  obtain ⟨hsorted, -, -⟩ := desiredCatalogPage_ok hinv.wellFormed hpage
  have hm := relabels_refl s.manager
  refine hinv.turn hm (fun _ => hm.building_candidate nofun)
    ⟨?_, ?_, ?_, nofun, nofun, nofun, nofun⟩
  · intro other generation' hget hstate
    have hleaves := hinv.resume.leaves other generation' hget hstate
    rw [hpaging] at hleaves
    exact hleaves
  · intro other generation' hworks hget
    exact hinv.resume.builds other generation' (hpaging ▸ hworks) hget
  · intro other page' hr
    obtain ⟨-, rfl⟩ := ResumePhase.pageRead.inj hr
    exact List.pairwise_map.mpr (hsorted.imp fun hlt => ne_of_lt hlt)

theorem HandoverInvariant.commitPage (hstable : SourcesStable sources)
    (hhash : Function.Injective contentHash) {id : String} {generation : Generation}
    {page : List CatalogDocument} {index : Entries} {outcomes : List SyncOutcome} {stamp : Nat}
    (hread : s.resume = .pageRead id page)
    (hgeneration : s.manager.generations.get id = some generation)
    (happly : applyDelta sources contentHash policy generation.index page [] = .ok (index, outcomes)) :
    HandoverInvariant sources contentHash policy { s with
      manager := s.manager.commitIndex id index
      resume := .pageCommitted id page stamp outcomes } := by
  have hm := commitIndex_restates s.manager id index
  have hworks : s.resume.WorksOn id := hread ▸ rfl
  have hbuilding := hinv.resume.builds id generation hworks hgeneration
  have hcandidate : Candidate s.manager s.resume id := Or.inl ⟨generation, hgeneration, hbuilding⟩
  have hunique : (page.map (fun d : CatalogDocument => d.identity.documentId) ++ []).Nodup := by
    rw [List.append_nil]
    exact hinv.resume.page id page hread
  obtain ⟨entries, outcomes', happly', hentries, -⟩ := applyDelta_writes hstable hhash policy
    (hinv.index.entries id generation hgeneration) hunique
  obtain ⟨rfl, -⟩ := Prod.mk.inj (Except.ok.inj (happly'.symm.trans happly))
  refine ⟨hinv.wellFormed, hinv.outbox, hinv.index.commit hgeneration hentries ?_,
    hinv.candidate.restate hm fun _ => hm.building_candidate nofun, ?_, ?_⟩
  · intro row hpointer
    exact absurd hcandidate (hinv.candidate.pointed id hpointer)
  · refine ⟨?_, ?_, nofun, nofun, nofun, nofun, nofun⟩
    · intro other generation' hget hstate
      obtain ⟨old, hold, -, hold_building⟩ := hm.kept other generation' hget
      have hleaves := hinv.resume.leaves other old hold (hold_building hstate)
      rw [hread] at hleaves
      exact hleaves
    · rintro other generation' rfl hget
      obtain ⟨old, hold, hrecord⟩ := commitIndex_record hget
      rw [hrecord, Option.some.inj (hold.symm.trans hgeneration)]
      exact hbuilding
  · refine ⟨fun position hposition => ?_, hinv.project.applying, fun other position batch stamp' hp => ?_⟩
    · obtain ⟨row, hrow, hle, hlag⟩ := hinv.project.registered position hposition
      refine ⟨row, hrow, hle, hlag.imp_right fun hpast other generation' hpointer hget => ?_⟩
      obtain ⟨old, hold, hrecord⟩ := commitIndex_record hget
      rw [hrecord]
      exact hpast other old hpointer hold
    · obtain ⟨hpending, hcontained⟩ := hinv.project.committed other position batch stamp' hp
      refine ⟨hpending, fun generation' hget => ?_⟩
      have hne : other ≠ id := fun he => hinv.candidate.written other _ hp (he ▸ hcandidate)
      rw [get_commitIndex, if_neg hne] at hget
      exact hcontained generation' hget

/-- The counters of a page, or of a pause. -/
theorem HandoverInvariant.record {id : String} {f : ContentGenerationRecord → ContentGenerationRecord}
    (hf : ∀ record, (f record).targetSequence = record.targetSequence ∧ (f record).state = record.state)
    (hworks : s.resume.WorksOn id) (hr : r' = .paging id ∨ r' = .idle) :
    HandoverInvariant sources contentHash policy { s with
      manager := s.manager.updateRecord id f, resume := r' } := by
  have hm := updateRecord_relabels s.manager id (f := f) fun record =>
    ⟨(hf record).1, fun h => (hf record).2 ▸ h⟩
  have hleaves : ∀ other generation', (s.manager.updateRecord id f).generations.get other =
      some generation' → generation'.record.state = .building → other = id := by
    intro other generation' hget hstate
    obtain ⟨old, hold, -, hbuilding⟩ := hm.kept other generation' hget
    exact hworks.only (hinv.resume.leaves other old hold (hbuilding hstate))
  obtain rfl | rfl := hr
  · refine hinv.turn hm (fun _ => hm.building_candidate nofun)
      ⟨hleaves, ?_, nofun, nofun, nofun, nofun, nofun⟩
    rintro other generation' rfl hget
    rw [get_updateRecord, if_pos rfl] at hget
    obtain ⟨old, hold, rfl⟩ := Option.map_eq_some_iff.mp hget
    exact (hf old.record).2.trans (hinv.resume.builds other old hworks hold)
  · exact hinv.turn hm (fun _ => hm.building_candidate nofun)
      ⟨fun _ _ _ _ => trivial, nofun, nofun, nofun, nofun, nofun, nofun⟩

/-- The candidate leaves its state: it is ready, or it has failed. -/
theorem HandoverInvariant.settleState {id : String} {generation : Generation}
    {state : ContentGenerationState} (now : Nat) (hstate : state ≠ .building)
    (hpaging : s.resume = .paging id) (hgeneration : s.manager.generations.get id = some generation)
    (hr : r' = .ready id ∨ r' = .idle) :
    HandoverInvariant sources contentHash policy { s with
      manager := s.manager.updateRecord id fun record =>
        { record with state := state, updatedAtUnixMs := now }
      resume := r' } := by
  have hm := updateRecord_relabels s.manager id
    (f := fun record => { record with state := state, updatedAtUnixMs := now })
    fun _ => ⟨rfl, fun h => absurd h hstate⟩
  have hworks : s.resume.WorksOn id := hpaging ▸ rfl
  have hcandidate : Candidate s.manager s.resume id :=
    Or.inl ⟨generation, hgeneration, hinv.resume.builds id generation hworks hgeneration⟩
  obtain rfl | rfl := hr
  · refine hinv.turn hm (fun other hother => ?_) ⟨?_, nofun, nofun, nofun, ?_, nofun, nofun⟩
    · rcases hother with hbuilding | hready
      · exact hm.candidate (Or.inl hbuilding)
      · obtain rfl := ResumePhase.ready.inj hready
        exact hcandidate
    · -- the only building generation is the one that leaves the state
      intro other generation' hget hbuilding
      obtain ⟨old, hold, -, hwas⟩ := hm.kept other generation' hget
      obtain rfl := hworks.only (hinv.resume.leaves other old hold (hwas hbuilding))
      rw [get_updateRecord, if_pos rfl] at hget
      obtain ⟨_, -, rfl⟩ := Option.map_eq_some_iff.mp hget
      exact absurd hbuilding hstate
    · intro other hother
      obtain rfl := ResumePhase.ready.inj hother
      rw [get_updateRecord, if_pos rfl, hgeneration]
      exact ⟨_, rfl⟩
  · exact hinv.turn hm (fun _ => hm.building_candidate nofun)
      ⟨fun _ _ _ _ => trivial, nofun, nofun, nofun, nofun, nofun, nofun⟩

theorem HandoverInvariant.switch {id : String} (hready : s.resume = .ready id) :
    HandoverInvariant sources contentHash policy { s with
      manager := { s.manager with activePointer := some id }
      resume := .switched id s.manager.activePointer } := by
  have hnone : ∀ other generation, s.manager.generations.get other = some generation →
      generation.record.state ≠ .building := by
    intro other generation hget hstate
    have hleaves := hinv.resume.leaves other generation hget hstate
    rw [hready] at hleaves
    exact hleaves
  have hcandidate : ∀ other, ¬ Candidate { s.manager with activePointer := some id }
      (.switched id s.manager.activePointer) other := by
    rintro other (⟨generation, hget, hstate⟩ | hother)
    · exact hnone other generation hget hstate
    · cases hother
  have hbehind : ∀ generation row, s.manager.generations.get id = some generation →
      projectorCheckpoint s.graph contentSchemaId = some row →
      row.lastSequence ≤ generation.record.targetSequence := fun generation row =>
    hinv.candidate.behind id generation row (Or.inr hready)
  refine ⟨hinv.wellFormed, hinv.outbox, ⟨hinv.index.entries, hinv.index.targets, ?_, ?_⟩,
    ⟨fun other _ _ h => absurd h (hcandidate other), fun other _ => hcandidate other,
      fun other _ _ => hcandidate other⟩,
    ⟨fun other generation hget hstate => absurd hstate (hnone other generation hget), nofun, nofun,
      nofun, nofun, ?_, nofun⟩, ⟨?_, hinv.project.applying, hinv.project.committed⟩⟩
  · intro other hpointer
    obtain rfl := Option.some.inj hpointer
    exact hinv.resume.ready id hready
  · intro other generation row hpointer hget hrow
    obtain rfl := Option.some.inj hpointer
    exact settles_behind (hbehind generation row hget hrow) _
  · intro other previous hother
    obtain ⟨rfl, -⟩ := ResumePhase.switched.inj hother
    rfl
  · intro position hposition
    obtain ⟨row, hrow, hle, -⟩ := hinv.project.registered position hposition
    refine ⟨row, hrow, hle, Or.inr fun other generation hpointer hget => ?_⟩
    obtain rfl := Option.some.inj hpointer
    exact hbehind generation row hget hrow

theorem HandoverInvariant.finish {id : String} {previous : Option String} {generation : Generation}
    (now : Nat) (hswitched : s.resume = .switched id previous)
    (hgeneration : s.manager.generations.get id = some generation) :
    HandoverInvariant sources contentHash policy { s with
      manager := s.manager.finishActivation id previous now
      resume := .complete id generation.record.targetSequence generation.record.indexGeneration } := by
  have hm := finishActivation_relabels s.manager id previous now
  refine hinv.turn hm (fun _ => hm.building_candidate nofun)
    ⟨?_, nofun, nofun, nofun, nofun, nofun, ?_⟩
  · intro other generation' hget hstate
    obtain ⟨old, hold, -, hbuilding⟩ := hm.kept other generation' hget
    have hleaves := hinv.resume.leaves other old hold (hbuilding hstate)
    rw [hswitched] at hleaves
    exact hleaves.elim
  · intro other target stamp hother
    obtain ⟨rfl, rfl, -⟩ := ResumePhase.complete.inj hother
    refine ⟨hm.pointer.trans (hinv.resume.switched id previous hswitched), fun generation' hget => ?_⟩
    obtain ⟨old, hold, htarget, -⟩ := hm.kept id generation' hget
    rw [htarget, Option.some.inj (hold.symm.trans hgeneration)]

theorem HandoverInvariant.handBack {id : String} {target stamp : Nat}
    (hcomplete : s.resume = .complete id target stamp)
    (hack : acknowledgeProjection s.graph contentSchemaId target stamp = .ok g') :
    HandoverInvariant sources contentHash policy { s with graph := g', resume := .idle } := by
  obtain ⟨hcheckpoint, hforward, hrows, hwater⟩ := acknowledged hack
  obtain ⟨hpointer, htarget⟩ := hinv.resume.complete id target stamp hcomplete
  have hcandidate : ∀ other, ¬ Candidate s.manager .idle other := by
    rintro other (⟨generation, hget, hstate⟩ | hother)
    · have hleaves := hinv.resume.leaves other generation hget hstate
      rw [hcomplete] at hleaves
      exact hleaves
    · cases hother
  have hactive : ∀ other generation, s.manager.activePointer = some other →
      s.manager.generations.get other = some generation →
      generation.record.targetSequence = target := by
    intro other generation hother hget
    obtain rfl := Option.some.inj (hpointer.symm.trans hother)
    exact htarget generation hget
  have hrun : (GraphOp.acknowledgeProjection contentSchemaId target stamp).run s.graph = .ok g' := hack
  have hpending : ∀ {position batch}, Pending s.graph position batch → Pending g' position batch := by
    rintro position batch ⟨taken, rest, hsplit, hbatch⟩
    exact ⟨taken, rest, (hrows position).trans hsplit, hbatch⟩
  refine ⟨wellFormed_of_run hinv.wellFormed hrun, outboxWF_of_run hinv.wellFormed hinv.outbox hrun,
    hinv.index.acknowledge hack fun other generation hother hget => ?_,
    ⟨fun other _ _ h => absurd h (hcandidate other), fun other _ => hcandidate other,
      fun other _ _ => hcandidate other⟩,
    ⟨fun _ _ _ _ => trivial, nofun, nofun, nofun, nofun, nofun, nofun⟩,
    ⟨fun position hposition => ?_, fun other position batch hp => ?_,
      fun other position batch stamp' hp => ?_⟩⟩
  · rw [hactive other generation hother hget]
    exact settles_behind le_rfl _
  · obtain ⟨row, hrow, hle, -⟩ := hinv.project.registered position hposition
    refine ⟨_, hcheckpoint, hle.trans (hforward row hrow), Or.inr fun other generation hother hget => ?_⟩
    exact (hactive other generation hother hget).ge
  · exact hpending (hinv.project.applying other position batch hp)
  · obtain ⟨hbatch, hcontained⟩ := hinv.project.committed other position batch stamp' hp
    exact ⟨hpending hbatch, hcontained⟩

theorem HandoverInvariant.endResume :
    HandoverInvariant sources contentHash policy { s with resume := .idle } := by
  have hm := relabels_refl s.manager
  exact hinv.turn hm (fun _ => hm.building_candidate nofun)
    ⟨fun _ _ _ _ => trivial, nofun, nofun, nofun, nofun, nofun, nofun⟩

end Resume

theorem handoverInvariant_step (hstable : SourcesStable sources)
    (hhash : Function.Injective contentHash) {limits : ContentGenerationLimits} {s s' : HandoverState}
    (hinv : HandoverInvariant sources contentHash policy s)
    (h : HandoverStep sources contentHash policy limits WithinTargets s s') :
    HandoverInvariant sources contentHash policy s' := by
  cases h with
  | write op hop hrun => exact hinv.write hop hrun
  | @checkpoint row hidle hcheckpoint =>
    refine ⟨hinv.wellFormed, hinv.outbox, hinv.index, ⟨hinv.candidate.behind, hinv.candidate.pointed,
      nofun⟩, hinv.resume, ⟨fun position hposition => ?_, nofun, nofun⟩⟩
    obtain rfl := Option.some.inj hposition
    exact ⟨row, hcheckpoint, le_rfl, Or.inl rfl⟩
  | openActive now hopening hpointer => exact hinv.openActive now hopening hpointer
  | @read id position batch batchSize hrunning hread =>
    refine ⟨hinv.wellFormed, hinv.outbox, hinv.index, ⟨hinv.candidate.behind, hinv.candidate.pointed,
      fun other phase hp => ?_⟩, hinv.resume, ⟨fun other hposition => ?_, fun other position' batch' hp => ?_,
        fun other position' batch' stamp hp => ?_⟩⟩
    · obtain ⟨rfl, -⟩ := ProjectPhase.running.inj hp
      exact hinv.candidate.written id _ hrunning
    · exact hinv.project.registered other (hrunning ▸ hposition)
    · obtain ⟨rfl, hphase⟩ := ProjectPhase.running.inj hp
      obtain ⟨rfl, rfl⟩ := PassPhase.applying.inj hphase
      exact pending_readOutbox hread
    · cases (ProjectPhase.running.inj hp).2
  | commit stamp hrunning hgeneration happly =>
    exact hinv.commit hstable hhash hrunning hgeneration happly
  | acknowledge hrunning hlast hack hC => exact hinv.acknowledge hrunning hlast hack hC
  | endPass =>
    exact ⟨hinv.wellFormed, hinv.outbox, hinv.index, ⟨hinv.candidate.behind, hinv.candidate.pointed,
      nofun⟩, hinv.resume, ⟨nofun, nofun, nofun⟩⟩
  | resume now _ hnewest => exact hinv.resumeBuilding now hnewest
  | target now => exact hinv.target now
  | create id stamp bytes now hcreating hfresh hunused =>
    exact hinv.create id stamp bytes now hcreating hfresh hunused
  | page disk hpaging _ _ hpage => exact hinv.page hpaging hpage
  | commitPage stamp hread hgeneration happly =>
    exact hinv.commitPage hstable hhash hread hgeneration happly
  | checkpointPage bytes now hcommitted =>
    exact hinv.record (fun _ => ⟨rfl, rfl⟩) (hcommitted ▸ rfl) (Or.inl rfl)
  | pause limit bytes now hpaging =>
    exact hinv.record (fun _ => ⟨rfl, rfl⟩) (hpaging ▸ rfl) (Or.inr rfl)
  | validated disk now hpaging hgeneration =>
    exact hinv.settleState now (by decide) hpaging hgeneration (Or.inl rfl)
  | invalid disk now hpaging hgeneration =>
    exact hinv.settleState now (by decide) hpaging hgeneration (Or.inr rfl)
  | switch hready => exact hinv.switch hready
  | finish now hswitched hgeneration => exact hinv.finish now hswitched hgeneration
  | handBack hcomplete hack => exact hinv.handBack hcomplete hack
  | endResume => exact hinv.endResume

/-- Once the consumer has no backlog, the active index holds every document whose
last row is past its target as that row leaves it. -/
def LosesNothing (sources : Sources) (policy : ContentIndexPolicy) (s : HandoverState) : Prop :=
  backlog s.graph = .ok 0 → ∀ id generation, s.manager.activePointer = some id →
    s.manager.generations.get id = some generation → ∀ documentId document,
      lastWrite (unread s.graph generation.record.targetSequence) documentId = some document →
      textMap generation.index documentId = document.bind (textOf sources policy)

theorem HandoverInvariant.losesNothing {s : HandoverState}
    (hinv : HandoverInvariant sources contentHash policy s) : LosesNothing sources policy s := by
  intro hdone id generation hpointer hget documentId document hlast
  cases hrow : projectorCheckpoint s.graph contentSchemaId with
  | none => rw [backlog, hrow] at hdone; cases hdone
  | some row =>
    rw [backlog, hrow] at hdone
    have hread : outboxAfter s.graph row.lastSequence = [] := by
      have hzero := Except.ok.inj hdone
      have hbound := hinv.outbox.consumers _ row hrow
      have hlatest := latestOutboxSequence_eq hinv.outbox
      have hsame : row.lastSequence = highWater s.graph := by omega
      rw [hsame]
      exact outboxAfter_highWater hinv.outbox
    have hsettles := hinv.index.settles id generation row hpointer hget hrow documentId document hlast
    rw [unread, hread] at hsettles
    exact hsettles

theorem handoverInvariant_start {g₀ : FilesystemGraph} (hreach : Reachable g₀) :
    HandoverInvariant sources contentHash policy ⟨g₀, .empty, .idle, .idle⟩ :=
  ⟨hreach.wellFormed, hreach.outboxWF, ⟨nofun, nofun, nofun, nofun⟩,
    ⟨fun _ _ _ _ hget => (nomatch hget), nofun, nofun⟩,
    ⟨fun _ _ hget => (nomatch hget), nofun, nofun, nofun, nofun, nofun, nofun⟩, ⟨nofun, nofun, nofun⟩⟩

/-- While no pass acknowledges past the target of another generation that is
active or being built, a handover loses nothing. -/
theorem handover_losesNothing (hstable : SourcesStable sources)
    (hhash : Function.Injective contentHash) {limits : ContentGenerationLimits} {g₀ : FilesystemGraph}
    (hreach : Reachable g₀) {s : HandoverState}
    (hrun : Relation.ReflTransGen (HandoverStep sources contentHash policy limits WithinTargets)
      ⟨g₀, .empty, .idle, .idle⟩ s) : LosesNothing sources policy s := by
  have hinv : HandoverInvariant sources contentHash policy s := by
    induction hrun with
    | refl => exact handoverInvariant_start hreach
    | tail _ hstep ih => exact handoverInvariant_step hstable hhash ih hstep
  exact hinv.losesNothing

end Invariant

section Example

attribute [local instance] asciiCaseMapping

def sampleLimits : ContentGenerationLimits := ⟨2 ^ 40, 100, 0, 0, 16, 4⟩

def sampleDisk : Disk := ⟨2 ^ 50, 2 ^ 50, 0⟩

abbrev SampleRun (C : AcknowledgeCondition) : HandoverState → HandoverState → Prop :=
  Relation.ReflTransGen (HandoverStep sampleSources sampleHash sampleContentPolicy sampleLimits C)

def generationOf (m : ContentGenerationManager) (id : String) : Generation :=
  (m.generations.get id).getD ⟨⟨.failed, 0, [], none, 0, 0, 0, 0, 0, 0, none, 0, 0⟩, []⟩

/-- A first generation of the empty graph, registered at sequence 0. -/
def builtFirst : ContentGenerationManager :=
  ((ContentGenerationManager.empty.recoverLifecycle 1).failBuilding none 1).createBuilding "a"
    sampleContentPolicy.roots 0 1 0 1

def readyFirst : ContentGenerationManager :=
  builtFirst.updateRecord "a" fun record => { record with state := .ready, updatedAtUnixMs := 1 }

def activeFirst : ContentGenerationManager :=
  { readyFirst with activePointer := some "a" }.finishActivation "a" none 1

def registeredFirst : FilesystemGraph :=
  (acknowledgeProjection .empty contentSchemaId 0 1).toOption.getD .empty

theorem sampleFirst (C : AcknowledgeCondition) :
    SampleRun C ⟨.empty, .empty, .idle, .idle⟩ ⟨registeredFirst, activeFirst, .idle, .idle⟩ := by
  have hnone : ∀ id generation, (ContentGenerationManager.empty.recoverLifecycle 1).Newest id generation →
      generation.record.rootIds ≠ sampleContentPolicy.roots := fun _ _ h => (nomatch h.1)
  have hbuilt : builtFirst.generations.get "a" = some (generationOf builtFirst "a") := by
    decide
  have hready : readyFirst.generations.get "a" = some (generationOf readyFirst "a") := by
    decide
  refine .head (.target 1 rfl hnone) (.head (.create "a" 1 0 1 rfl rfl nofun) ?_)
  refine .head (.validated sampleDisk 1 rfl hbuilt (by decide) (by decide)
    (by decide)) ?_
  refine .head (.switch rfl) (.head (.finish 1 rfl hready) ?_)
  exact .single (.handBack rfl (by decide))

def addTextFile : GraphOp :=
  .applyBatch (sampleBatch [.upsertVolume sampleDescriptor,
    .upsertObject (sampleObject 1 .directory), .upsertLink (sampleLink 9 1 none "c:") false,
    .upsertObject sampleTextFile, .upsertLink (sampleLink 1 3 (some 1) "a.txt") false])

def addedText : FilesystemGraph := (addTextFile.run registeredFirst).toOption.getD .empty

def batchPast (g : FilesystemGraph) (position : Nat) : MutationBatch :=
  (readOutbox g (some position) 16).toOption.getD ⟨[]⟩

def deltaOf (m : ContentGenerationManager) (id : String) (batch : MutationBatch) :
    Entries × List SyncOutcome :=
  (applyDelta sampleSources sampleHash sampleContentPolicy (generationOf m id).index
    (upserts (coalesce (batch.mutations.map (·.mutation))))
    (deletions (coalesce (batch.mutations.map (·.mutation))))).toOption.getD ([], [])

/-- The manager after a pass from the start committed to the first generation. -/
def passed (m : ContentGenerationManager) (g : FilesystemGraph) : ContentGenerationManager :=
  (m.recoverLifecycle 2).commitIndex "a" (deltaOf (m.recoverLifecycle 2) "a" (batchPast g 0)).1

def acknowledgedAt (g : FilesystemGraph) (last : Nat) : FilesystemGraph :=
  (acknowledgeProjection g contentSchemaId last 2).toOption.getD .empty

theorem sampleWrite (C : AcknowledgeCondition) :
    HandoverStep sampleSources sampleHash sampleContentPolicy sampleLimits C
      ⟨registeredFirst, activeFirst, .idle, .idle⟩ ⟨addedText, activeFirst, .idle, .idle⟩ :=
  .write addTextFile trivial (by decide +kernel)

theorem sampleHandover_pass :
    SampleRun WithinTargets ⟨addedText, activeFirst, .idle, .idle⟩
      ⟨acknowledgedAt addedText 2, passed activeFirst addedText,
        .running "a" (.reading 2), .idle⟩ := by
  have hrow : projectorCheckpoint addedText contentSchemaId = some ⟨0, 1⟩ := by decide
  have hactive : activeFirst.generations.get "a" = some (generationOf activeFirst "a") := by
    decide
  have hopen : (activeFirst.recoverLifecycle 2).generations.get "a" =
      some (generationOf (activeFirst.recoverLifecycle 2) "a") := by decide
  have hread : readOutbox addedText (some 0) 16 = .ok (batchPast addedText 0) := by decide +kernel
  have happly : applyDelta sampleSources sampleHash sampleContentPolicy
      (generationOf (activeFirst.recoverLifecycle 2) "a").index
      (upserts (coalesce ((batchPast addedText 0).mutations.map (·.mutation))))
      (deletions (coalesce ((batchPast addedText 0).mutations.map (·.mutation)))) =
        .ok (deltaOf (activeFirst.recoverLifecycle 2) "a" (batchPast addedText 0)) := by decide +kernel
  refine .head (.checkpoint rfl hrow) (.head (.openActive 2 rfl (by decide) hactive) ?_)
  refine .head (.read 16 rfl hread (by decide) (by decide)) ?_
  refine .head (.commit 2 rfl hopen happly) ?_
  refine .single (.acknowledge rfl (by decide +kernel) (by decide +kernel) ⟨nofun, ?_⟩)
  intro other generation hget _ hne
  have honly : (passed activeFirst addedText).generations.rows.all fun x => x.1 == "a" := by
    decide
  exact absurd (beq_iff_eq.mp (List.all_eq_true.mp honly _ (Table.mem_rows.mpr hget))) hne

/-- Nothing is lost in a handover whose passes come after it. -/
theorem sampleHandover_losesNothing :
    LosesNothing sampleSources sampleContentPolicy ⟨acknowledgedAt addedText 2,
        passed activeFirst addedText, .running "a" (.reading 2), .idle⟩ ∧
      backlog (acknowledgedAt addedText 2) = .ok 0 ∧
      textMap (generationOf (passed activeFirst addedText) "a").index
        (documentIdForLink (.fromU128 1)) = some "draft" := by
  have hrun := ((sampleFirst WithinTargets).tail (sampleWrite WithinTargets)).trans sampleHandover_pass
  exact ⟨handover_losesNothing sampleSources_stable (Equiv.injective _) .refl hrun,
    by decide +kernel, by decide +kernel⟩

/-- A second generation is created at sequence 2 and filled; then the file is
removed and the pass over the first generation acknowledges that. -/
def builtSecond : ContentGenerationManager :=
  ((activeFirst.recoverLifecycle 3).failBuilding none 3).createBuilding "b"
    sampleContentPolicy.roots 2 1 0 3

def pageSecond : List CatalogDocument := (desiredCatalogPage addedText none 16).toOption.getD []

def deltaSecond : Entries × List SyncOutcome :=
  (applyDelta sampleSources sampleHash sampleContentPolicy (generationOf builtSecond "b").index
    pageSecond []).toOption.getD ([], [])

def filledSecond : ContentGenerationManager :=
  (builtSecond.commitIndex "b" deltaSecond.1).updateRecord "b" fun record =>
    record.advance pageSecond (declaredBytes sampleContentPolicy pageSecond) deltaSecond.2 2 0 3

def removeTextFile : GraphOp := .applyBatch (sampleBatch [.removeLink (.fromU128 1) (sampleKey 3)])

def removedText : FilesystemGraph := (removeTextFile.run addedText).toOption.getD .empty

def passedSecond : ContentGenerationManager := passed filledSecond removedText

def readySecond : ContentGenerationManager :=
  passedSecond.updateRecord "b" fun record => { record with state := .ready, updatedAtUnixMs := 4 }

def activeSecond : ContentGenerationManager :=
  { readySecond with activePointer := some "b" }.finishActivation "b" (some "a") 4

theorem sampleSecond_filled (C : AcknowledgeCondition) :
    SampleRun C ⟨addedText, activeFirst, .idle, .idle⟩ ⟨removedText, filledSecond, .idle, .paging "b"⟩ := by
  have hrows : ∀ x ∈ (activeFirst.recoverLifecycle 3).generations.rows, x.2.record.state ≠ .building := by
    decide
  have hnone : ∀ id generation, (activeFirst.recoverLifecycle 3).Newest id generation →
      generation.record.rootIds ≠ sampleContentPolicy.roots := fun id generation h =>
    absurd h.2.1 (hrows (id, generation) (Table.mem_rows.mpr h.1))
  have hbuilt : builtSecond.generations.get "b" = some (generationOf builtSecond "b") := by
    decide
  have hpage : desiredCatalogPage addedText (generationOf builtSecond "b").record.lastCheckpoint
      (pageLimit sampleLimits (generationOf builtSecond "b").record) = .ok pageSecond := by
    decide +kernel
  have happly : applyDelta sampleSources sampleHash sampleContentPolicy
      (generationOf builtSecond "b").index pageSecond [] = .ok deltaSecond := by decide +kernel
  have hlatest : latestOutboxSequence addedText = 2 := by decide
  have htarget : HandoverStep sampleSources sampleHash sampleContentPolicy sampleLimits C
      ⟨addedText, activeFirst, .idle, .idle⟩
      ⟨addedText, (activeFirst.recoverLifecycle 3).failBuilding none 3, .idle, .creating 2⟩ :=
    hlatest ▸ .target 3 rfl hnone
  refine .head htarget (.head (.create "b" 1 0 3 rfl (by decide) nofun) ?_)
  refine .head (.page sampleDisk rfl hbuilt (by decide) hpage (by decide)
    (by decide +kernel)) ?_
  refine .head (.commitPage 2 rfl hbuilt happly) (.head (.checkpointPage 0 3 rfl) ?_)
  exact .single (.write removeTextFile trivial (by decide +kernel))

theorem sampleSecond_passed :
    SampleRun (fun _ _ _ => True) ⟨removedText, filledSecond, .idle, .paging "b"⟩
      ⟨acknowledgedAt removedText 3, passedSecond, .running "a" (.reading 3), .paging "b"⟩ := by
  have hrow : projectorCheckpoint removedText contentSchemaId = some ⟨0, 1⟩ := by decide
  have hactive : filledSecond.generations.get "a" = some (generationOf filledSecond "a") := by
    decide
  have hopen : (filledSecond.recoverLifecycle 2).generations.get "a" =
      some (generationOf (filledSecond.recoverLifecycle 2) "a") := by decide
  have hread : readOutbox removedText (some 0) 16 = .ok (batchPast removedText 0) := by decide +kernel
  have happly : applyDelta sampleSources sampleHash sampleContentPolicy
      (generationOf (filledSecond.recoverLifecycle 2) "a").index
      (upserts (coalesce ((batchPast removedText 0).mutations.map (·.mutation))))
      (deletions (coalesce ((batchPast removedText 0).mutations.map (·.mutation)))) =
        .ok (deltaOf (filledSecond.recoverLifecycle 2) "a" (batchPast removedText 0)) := by
    decide
  refine .head (.checkpoint rfl hrow) (.head (.openActive 2 rfl (by decide) hactive) ?_)
  refine .head (.read 16 rfl hread (by decide) (by decide)) ?_
  exact .head (.commit 2 rfl hopen happly)
    (.single (.acknowledge rfl (by decide +kernel) (by decide +kernel) trivial))

theorem sampleSecond_switched :
    SampleRun (fun _ _ _ => True)
      ⟨acknowledgedAt removedText 3, passedSecond, .running "a" (.reading 3), .paging "b"⟩
      ⟨acknowledgedAt removedText 3, activeSecond, .running "a" (.reading 3),
        .complete "b" (generationOf readySecond "b").record.targetSequence
          (generationOf readySecond "b").record.indexGeneration⟩ := by
  have hget : passedSecond.generations.get "b" = some (generationOf passedSecond "b") := by
    decide +kernel
  have hready : readySecond.generations.get "b" = some (generationOf readySecond "b") := by
    decide +kernel
  refine .head (.validated sampleDisk 4 rfl hget (by decide +kernel) (by decide +kernel)
    (by decide +kernel)) ?_
  exact .head (.switch rfl) (.single (.finish 4 rfl hready))

/-- The candidate is activated with the removed file in it, and its consumer has
no row left to read. -/
theorem handover_loses :
    ¬ ∀ s, SampleRun (fun _ _ _ => True) ⟨.empty, .empty, .idle, .idle⟩ s →
      LosesNothing sampleSources sampleContentPolicy s := by
  intro h
  have hfirst := (sampleFirst fun _ _ _ => True).tail (sampleWrite _)
  have hrun := ((hfirst.trans (sampleSecond_filled _)).trans sampleSecond_passed).trans
    sampleSecond_switched
  have hdone : backlog (acknowledgedAt removedText 3) = .ok 0 := by decide
  have hget : activeSecond.generations.get "b" = some (generationOf activeSecond "b") := by
    decide +kernel
  have hlost := h _ hrun hdone "b" (generationOf activeSecond "b") rfl hget
    (documentIdForLink (.fromU128 1)) none (by decide)
  have hkept : textMap (generationOf activeSecond "b").index (documentIdForLink (.fromU128 1)) =
      some "draft" := by decide +kernel
  rw [hkept] at hlost
  cases hlost

end Example

end LocalSearch.Content
