import LocalSearch.Graph.Store

/-!
# What a transaction may do to the rows

Every graph transaction is a sequence of the row changes below. A change runs
on a graph together with the set of links whose desired document may be out of
date; changing a row a document is derived from adds to the set and syncing a
link removes it. A transaction starts and commits with the empty set. Facts
about all transactions are proved once, for each change.
-/
namespace LocalSearch.Graph

set_option autoImplicit false

open Core Lib

variable [CaseMapping]

/-- The stored document of a row carries the availability a reader would see. -/
def ReportsAvailability (g : FilesystemGraph) (row : CatalogRow) : Prop :=
  ∀ content ∈ row.projectionFingerprint, ∀ object ∈ g.objects.get row.objectKey,
    ∀ volume ∈ g.volumes.get row.objectKey.volumeId,
      content.metadata.availability =
        effectiveAvailability volume.state object.metadata.availability

/-- A graph and the links whose desired document may be out of date. -/
abbrev Dirty := FilesystemGraph × Set FileLinkId

/-- The volume is new or online: an `UpsertVolume` leaves its state as it was. -/
def OpenVolume (g : FilesystemGraph) (v : VolumeId) : Prop :=
  ∀ row ∈ g.volumes.get v, row.state = .online

/-- One row change of a transaction on volume `v` at generation `gen`. `R` says
whether a batch may reopen a volume that is not online. -/
inductive Change (R : Prop) (v : VolumeId) (gen : Nat) (mode : ProjectionOutboxMode) : Dirty → Dirty → Prop
  | upsertVolume {g : FilesystemGraph} {A : Set FileLinkId} (descriptor : VolumeDescriptor)
      (hv : descriptor.volumeId = v) (hopen : R ∨ OpenVolume g v) :
      Change R v gen mode (g, A) (upsertVolume g descriptor, A)
  | transition {g : FilesystemGraph} {A : Set FileLinkId} (row : VolumeRow)
      (hlow : currentGeneration g v ≤ row.generation) (hhigh : row.generation ≤ gen) :
      Change R v gen mode (g, A) ((enqueueVolumeProjectionRefresh
        { g with volumes := g.volumes.insert v row } v gen).1, A)
  | setGeneration {g : FilesystemGraph} {A : Set FileLinkId} (hle : currentGeneration g v ≤ gen) :
      Change R v gen mode (g, A) (setGeneration g v gen, A)
  | upsertObject {g g' : FilesystemGraph} {A : Set FileLinkId} (object : FileObjectSnapshot)
      (hv : object.objectKey.volumeId = v) (h : upsertObject g object gen = .ok g') :
      Change R v gen mode (g, A)
        (g', A ∪ {id | ∃ link ∈ linksOf g object.objectKey, link.fileLinkId = id})
  | dropLink {g : FilesystemGraph} {A : Set FileLinkId} {id : FileLinkId} {row : LinkRow}
      (h : g.links.get id = some row) :
      Change R v gen mode (g, A) (dropLink g id row.objectKey, A ∪ {id})
  | putLink {g : FilesystemGraph} {A : Set FileLinkId} (link : FileLinkSnapshot) (boundary : Bool)
      (hv : link.objectKey.volumeId = v) (hparent : ∀ p ∈ link.parentKey, p.volumeId = v)
      (hobject : (g.objects.get link.objectKey).isSome)
      (hbound : ∀ row, g.links.get link.fileLinkId = some row → row.objectKey = link.objectKey)
      (hslot : slotTaken g link = false) :
      Change R v gen mode (g, A) (putLink g link boundary gen, A ∪ {link.fileLinkId})
  | tombstone {g : FilesystemGraph} {A : Set FileLinkId} {object : FileKey}
      (h : linksOf g object = []) :
      Change R v gen mode (g, A) (setTombstoned g object true, A)
  | enqueueRefresh {g : FilesystemGraph} {A : Set FileLinkId} (object : FileKey)
      (h : (g.objects.get object).isSome) :
      Change R v gen mode (g, A) ((enqueueRefresh g object gen).1, A)
  | advancePathJob {g : FilesystemGraph} {A : Set FileLinkId} {id : Nat} {job : PathJobRow}
      (job' : PathJobRow) (h : g.pathJobs.get id = some job)
      (hroot : job'.rootObject = job.rootObject) :
      Change R v gen mode (g, A) ({ g with pathJobs := g.pathJobs.insert id job' }, A)
  | advanceVolumeJob {g : FilesystemGraph} {A : Set FileLinkId} {job : VolumeJobRow}
      (job' : VolumeJobRow) (h : g.volumeJobs.get v = some job)
      (hpass : ∀ id row, g.catalog.get (documentIdForLink id) = some row →
        row.objectKey.volumeId = v → Table.After job.projectionScanCursor id →
        ReportsAvailability g row ∨
          (job'.state = .pending ∧ Table.After job'.projectionScanCursor id)) :
      Change R v gen mode (g, A) ({ g with volumeJobs := g.volumeJobs.insert v job' }, A)
  | putSession {g : FilesystemGraph} {A : Set FileLinkId} (row : SessionRow)
      (h : ∃ volume, g.volumes.get v = some volume ∧ row.scanGeneration ≤ volume.generation) :
      Change R v gen mode (g, A) ({ g with sessions := g.sessions.insert v row }, A)
  | eraseSession {g : FilesystemGraph} {A : Set FileLinkId} :
      Change R v gen mode (g, A) ({ g with sessions := g.sessions.erase v }, A)
  | putCheckpoint {g : FilesystemGraph} {A : Set FileLinkId} (row : CheckpointRow)
      (h : (g.volumes.get v).isSome) :
      Change R v gen mode (g, A) (putCheckpoint g v row, A)
  | widen {g : FilesystemGraph} {A A' : Set FileLinkId} (h : A ⊆ A') :
      Change R v gen mode (g, A) (g, A')
  | sync {g g' : FilesystemGraph} {A : Set FileLinkId} {id : FileLinkId} {n : Nat}
      (h : syncCatalogProjection g id gen mode = .ok (g', n)) :
      Change R v gen mode (g, A) (g', A \ {id})

abbrev Changes (R : Prop) (v : VolumeId) (gen : Nat) (mode : ProjectionOutboxMode) :
    Dirty → Dirty → Prop :=
  Relation.ReflTransGen (Change R v gen mode)

section Decomposition

variable {R : Prop} {v : VolumeId} {gen : Nat} {mode : ProjectionOutboxMode}

/-- Prove a fact about a committed transaction from its row changes. -/
theorem Changes.induct {P : Dirty → Prop} (hstep : ∀ s s', Change R v gen mode s s' → P s → P s')
    {s s' : Dirty} (h : Changes R v gen mode s s') (hs : P s) : P s' := by
  induction h with
  | refl => exact hs
  | tail _ hlast ih => exact hstep _ _ hlast ih

theorem Changes.widen {s : Dirty} {g : FilesystemGraph} {A A' : Set FileLinkId}
    (h : Changes R v gen mode s (g, A)) (hA : A ⊆ A') : Changes R v gen mode s (g, A') :=
  h.tail (.widen hA)

theorem removeLinkInternal_changes {g g' : FilesystemGraph} {A : Set FileLinkId} {id : FileLinkId}
    {expected : FileKey} {refresh : Bool} {n : Nat}
    (h : removeLinkInternal g id expected gen refresh = .ok (g', n)) :
    Changes R v gen mode (g, A) (g', A ∪ {id}) := by
  rcases removeLinkInternal_ok h with ⟨-, rfl⟩ | ⟨row, object, hrow, rfl, hobj, rfl⟩
  · exact Changes.widen .refl Set.subset_union_left
  · have hdrop : Change R v gen mode (g, A) (dropLink g id row.objectKey, A ∪ {id}) := .dropLink hrow
    split_ifs
    · refine (Relation.ReflTransGen.single hdrop).tail (.enqueueRefresh _ ?_)
      rw [dropLink_isSome, hobj]
      rfl
    · exact .single hdrop

theorem removeStaleLinks_changes {g g' : FilesystemGraph} {A : Set FileLinkId}
    {stale : List (FileLinkId × FileKey)} (h : removeStaleLinks g gen stale = .ok g') :
    Changes R v gen mode (g, A) (g', A ∪ {id | id ∈ stale.map (·.1)}) := by
  induction stale generalizing g A with
  | nil =>
    obtain rfl := Except.ok.inj h
    exact Changes.widen .refl Set.subset_union_left
  | cons x rest ih =>
    obtain ⟨id, object⟩ := x
    obtain ⟨⟨g₁, n⟩, h₁, hrest⟩ := bind_ok.mp h
    refine Changes.widen ((removeLinkInternal_changes h₁).trans (ih hrest)) ?_
    rintro j ((hj | hj) | hj)
    · exact Or.inl hj
    · exact Or.inr (List.mem_map.mpr ⟨(id, object), List.mem_cons_self, hj.symm⟩)
    · obtain ⟨y, hy, rfl⟩ := List.mem_map.mp hj
      exact Or.inr (List.mem_map.mpr ⟨y, List.mem_cons_of_mem _ hy, rfl⟩)

theorem upsertLink_changes {g g' : FilesystemGraph} {A : Set FileLinkId} {link : FileLinkSnapshot}
    {boundary : Bool} {n : Nat} (hv : (GraphMutation.upsertLink link boundary).InVolume v)
    (h : upsertLink g link boundary gen = .ok (g', n)) :
    Changes R v gen mode (g, A)
      (g', A ∪ {id | id ∈ affectedLinks g (.upsertLink link boundary)}) := by
  obtain ⟨hobj, g₁, g₂, h₁, h₂, hslot, rfl⟩ := upsertLink_ok h
  obtain ⟨hbound, hmoved⟩ := refreshMovedDirectory_ok h₂
  have hobj₁ : (g₁.objects.get link.objectKey).isSome := by rw [removeStaleLinks_isSome h₁]; exact hobj
  set A₁ := A ∪ {id | id ∈ (staleObservationLinkConflicts g link).map (·.1)} with hA₁
  have hstale : Changes R v gen mode (g, A) (g₁, A₁) := removeStaleLinks_changes h₁
  have hqueue : Changes R v gen mode (g₁, A₁) (g₂, A₁) ∧ g₂.links = g₁.links ∧
      g₂.objects = g₁.objects := by
    rcases hmoved with rfl | ⟨rfl, -⟩
    · exact ⟨.refl, rfl, rfl⟩
    · refine ⟨.single (.enqueueRefresh _ hobj₁), ?_, ?_⟩ <;> rw [enqueueRefresh_frame]
  obtain ⟨hq, hlinks, hobjs⟩ := hqueue
  have hput : Change R v gen mode (g₂, A₁) (putLink g₂ link boundary gen, A₁ ∪ {link.fileLinkId}) :=
    .putLink link boundary hv.1 hv.2 (by rw [hobjs]; exact hobj₁)
      (fun row hrow => hbound row (by rw [← hlinks]; exact hrow)) hslot
  refine Changes.widen ((hstale.trans hq).tail hput) ?_
  rintro j ((hj | hj) | hj)
  · exact Or.inl hj
  · exact Or.inr (List.mem_cons_of_mem _ hj)
  · exact Or.inr (hj ▸ List.mem_cons_self)

/-- The two volume-wide transitions of a batch keep the volume's generation. -/
theorem volumeTransition_changes {g : FilesystemGraph} {A : Set FileLinkId} {old : VolumeRow}
    (row : VolumeRow) (hold : g.volumes.get v = some old) (hgen : row.generation = old.generation)
    (hle : currentGeneration g v ≤ gen) :
    Changes R v gen mode (g, A)
      ((enqueueVolumeProjectionRefresh { g with volumes := g.volumes.insert v row } v gen).1, A) := by
  have hcur : currentGeneration g v = old.generation := by simp [currentGeneration, hold]
  exact .single (.transition row (by rw [hcur, hgen]) (by rw [hgen, ← hcur]; exact hle))

/-- An `UpsertVolume` finds its volume new or online. -/
def OpensVolume (g : FilesystemGraph) : GraphMutation → Prop
  | .upsertVolume descriptor => OpenVolume g descriptor.volumeId
  | _ => True

theorem applyMutation_changes {g g' : FilesystemGraph} {A : Set FileLinkId} {m : GraphMutation}
    {n : Nat} (hv : m.InVolume v) (hopen : R ∨ OpensVolume g m) (hle : currentGeneration g v ≤ gen)
    (h : applyMutation g m gen = .ok (g', n)) :
    Changes R v gen mode (g, A) (g', A ∪ {id | id ∈ affectedLinks g m}) := by
  cases m with
  | upsertVolume descriptor =>
    obtain ⟨rfl, rfl⟩ := Prod.mk.inj (Except.ok.inj h)
    subst hv
    exact Changes.widen (.single (.upsertVolume descriptor rfl hopen)) Set.subset_union_left
  | setVolumeState volumeId state =>
    obtain rfl : volumeId = v := hv
    simp only [applyMutation, setVolumeState] at h
    cases hrow : g.volumes.get volumeId with
    | none => rw [hrow] at h; cases h
    | some row =>
      rw [hrow] at h
      obtain ⟨rfl, rfl⟩ := Prod.mk.inj (Except.ok.inj h)
      exact Changes.widen (volumeTransition_changes { row with state := state } hrow rfl hle)
        Set.subset_union_left
  | requireReconciliation volumeId reason =>
    obtain rfl : volumeId = v := hv
    simp only [applyMutation, requireReconciliation] at h
    cases hrow : g.volumes.get volumeId with
    | none => rw [hrow] at h; cases h
    | some row =>
      rw [hrow] at h
      obtain ⟨rfl, rfl⟩ := Prod.mk.inj (Except.ok.inj h)
      exact Changes.widen (volumeTransition_changes
        { row with state := .needsReconciliation, reconciliationReason := some reason } hrow rfl hle)
        Set.subset_union_left
  | upsertObject object =>
    obtain ⟨g₁, h₁, heq⟩ := bind_ok.mp h
    obtain ⟨rfl, rfl⟩ := Prod.mk.inj (Except.ok.inj heq)
    refine Changes.widen (.single (.upsertObject object hv h₁)) ?_
    rintro j (hj | ⟨link, hmem, rfl⟩)
    · exact Or.inl hj
    · exact Or.inr (List.mem_map.mpr ⟨link, hmem, rfl⟩)
  | upsertLink link boundary => exact upsertLink_changes hv h
  | removeLink id object =>
    refine Changes.widen (removeLinkInternal_changes h) ?_
    rintro j (hj | hj)
    · exact Or.inl hj
    · exact Or.inr (List.mem_singleton.mpr hj)
  | tombstoneObject object =>
    obtain ⟨g₁, h₁, heq⟩ := bind_ok.mp h
    obtain ⟨rfl, rfl⟩ := Prod.mk.inj (Except.ok.inj heq)
    obtain ⟨hlinks, -, rfl⟩ := tombstoneObject_ok h₁
    exact Changes.widen (.single (.tombstone hlinks)) Set.subset_union_left

/-- No row change moves the volume past the transaction's generation. -/
theorem currentGeneration_le_of_change {s s' : Dirty} (h : Change R v gen mode s s')
    (hle : currentGeneration s.1 v ≤ gen) : currentGeneration s'.1 v ≤ gen := by
  cases h with
  | upsertVolume descriptor hv hopen =>
    subst hv
    simpa [currentGeneration, upsertVolume] using hle
  | transition row hlow hhigh => simpa [currentGeneration, enqueueVolumeProjectionRefresh] using hhigh
  | @setGeneration g A hle =>
    simp only [currentGeneration, setGeneration, Table.get_modify, if_true]
    cases g.volumes.get v <;> simp
  | upsertObject object hv h =>
    simp only [upsertObject, guard_ok] at h
    obtain ⟨-, -, h⟩ := h
    obtain rfl := Except.ok.inj h
    exact hle
  | @dropLink g A id row h =>
    rcases dropLink_cases g id row.objectKey with ⟨h, -⟩ | ⟨h, -⟩ <;> rw [h] <;> exact hle
  | @enqueueRefresh g A object h => rw [enqueueRefresh_frame]; exact hle
  | sync h => rw [syncCatalogProjection_frame h]; exact hle
  | putLink | tombstone | advancePathJob | advanceVolumeJob | putSession | eraseSession
  | putCheckpoint | widen => exact hle

theorem applyMutations_changes {g g' : FilesystemGraph} {affected affected' : LinkSet}
    {ms : List GraphMutation} {n : Nat} (hv : ∀ m ∈ ms, m.InVolume v)
    (hopen : R ∨ EachMutation OpensVolume gen g ms) (hle : currentGeneration g v ≤ gen)
    (h : applyMutations gen g affected ms = .ok (g', affected', n)) :
    Changes R v gen mode (g, affected.members) (g', affected'.members) := by
  induction ms generalizing g affected n with
  | nil =>
    obtain ⟨rfl, rfl, -⟩ := Prod.mk.inj (Except.ok.inj h) |>.imp id Prod.mk.inj
    exact .refl
  | cons m ms ih =>
    simp only [applyMutations, bind_ok] at h
    obtain ⟨⟨g₁, n₁⟩, h₁, ⟨g₂, affected₂, n₂⟩, h₂, heq⟩ := h
    obtain ⟨rfl, rfl, -⟩ := Prod.mk.inj (Except.ok.inj heq) |>.imp id Prod.mk.inj
    have hm : Changes R v gen mode (g, affected.members)
        (g₁, affected.members ∪ {id | id ∈ affectedLinks g m}) :=
      applyMutation_changes (hv m List.mem_cons_self) (hopen.imp_right And.left) hle h₁
    have hle₁ : currentGeneration g₁ v ≤ gen :=
      Changes.induct (P := fun s => currentGeneration s.1 v ≤ gen)
        (fun _ _ => currentGeneration_le_of_change) hm hle
    refine (Changes.widen hm ?_).trans (ih (fun x hx => hv x (List.mem_cons_of_mem _ hx))
      (hopen.imp_right fun he => he.2 g₁ n₁ h₁) hle₁ h₂)
    intro id hid
    exact (LinkSet.get_addAll affected (affectedLinks g m) id).mpr hid

theorem syncLinks_changes {g g' : FilesystemGraph} {A : Set FileLinkId} {ids : List FileLinkId}
    {n : Nat} (h : syncLinks g gen mode ids = .ok (g', n)) :
    Changes R v gen mode (g, A) (g', A \ {id | id ∈ ids}) := by
  induction ids generalizing g A n with
  | nil =>
    obtain ⟨rfl, -⟩ := Prod.mk.inj (Except.ok.inj h)
    exact Changes.widen .refl (by simp)
  | cons id ids ih =>
    simp only [syncLinks, bind_ok] at h
    obtain ⟨⟨g₁, n₁⟩, h₁, ⟨g₂, n₂⟩, h₂, heq⟩ := h
    obtain ⟨rfl, -⟩ := Prod.mk.inj (Except.ok.inj heq)
    refine Changes.widen (.head (.sync h₁) (ih h₂)) ?_
    rintro j ⟨⟨hj, hne⟩, hmem⟩
    exact ⟨hj, fun hc => (List.mem_cons.mp hc).elim hne hmem⟩

/-- The parts of an accepted batch, in order. -/
theorem applyBatchWithOutboxMode_ok {g g' : FilesystemGraph} {batch : GraphMutationBatch}
    {summary : ApplySummary} (h : applyBatchWithOutboxMode g batch mode = .ok (g', summary)) :
    batch.checkpoint.volumeId = batch.volumeId ∧ (∀ m ∈ batch.mutations, m.InVolume batch.volumeId) ∧
      ¬ (mode = .rebuildable ∧ projectionConsumersExist g) ∧
      currentGeneration g batch.volumeId + 1 < 2 ^ 63 ∧ ∃ g₁ g₂ affected jobs appended,
        applyMutations (currentGeneration g batch.volumeId + 1) g .empty batch.mutations =
          .ok (g₁, affected, jobs) ∧
        syncLinks g₁ (currentGeneration g batch.volumeId + 1) mode (affected.rows.map (·.1)) =
          .ok (g₂, appended) ∧
        (∃ volume, g₂.volumes.get batch.volumeId = some volume) ∧
        g' = putCheckpoint (setGeneration g₂ batch.volumeId (currentGeneration g batch.volumeId + 1))
          batch.volumeId (ProviderCheckpoint.row batch.checkpoint) := by
  simp only [applyBatchWithOutboxMode, bind_ok, guard_ok] at h
  obtain ⟨_, hval, hmode, gen, hgen, ⟨g₁, affected, jobs⟩, h₁, ⟨g₂, appended⟩, h₂, hvol, heq⟩ := h
  obtain ⟨hcp, hms⟩ := validate_ok.mp hval
  obtain ⟨hlt, rfl⟩ := checkedSucc_ok.mp hgen
  obtain ⟨rfl, -⟩ := Prod.mk.inj (Except.ok.inj heq)
  refine ⟨hcp, hms, hmode, hlt, g₁, g₂, affected, jobs, appended, h₁, h₂, ?_, rfl⟩
  cases hget : g₂.volumes.get batch.volumeId with
  | none => simp [hget] at hvol
  | some volume => exact ⟨volume, rfl⟩

/-- A batch whose parts succeed is accepted. -/
theorem applyBatchWithOutboxMode_of {g g₁ g₂ : FilesystemGraph} {batch : GraphMutationBatch}
    {affected : LinkSet} {jobs appended : Nat}
    (hcheckpoint : batch.checkpoint.volumeId = batch.volumeId)
    (hms : ∀ m ∈ batch.mutations, m.InVolume batch.volumeId)
    (hmode : ¬ (mode = .rebuildable ∧ projectionConsumersExist g))
    (hlt : currentGeneration g batch.volumeId + 1 < 2 ^ 63)
    (h₁ : applyMutations (currentGeneration g batch.volumeId + 1) g .empty batch.mutations =
      .ok (g₁, affected, jobs))
    (h₂ : syncLinks g₁ (currentGeneration g batch.volumeId + 1) mode (affected.rows.map (·.1)) =
      .ok (g₂, appended))
    (hvol : (g₂.volumes.get batch.volumeId).isSome) :
    applyBatchWithOutboxMode g batch mode =
      .ok (putCheckpoint (setGeneration g₂ batch.volumeId (currentGeneration g batch.volumeId + 1))
        batch.volumeId (ProviderCheckpoint.row batch.checkpoint),
        ⟨batch.mutations.length, currentGeneration g batch.volumeId + 1, jobs, appended⟩) := by
  have hknown : ¬ (g₂.volumes.get batch.volumeId).isNone = true := by
    rw [Bool.not_eq_true, Option.isNone_eq_false_iff]
    exact hvol
  simp only [applyBatchWithOutboxMode, bind_ok, guard_ok]
  exact ⟨(), validate_ok.mpr ⟨hcheckpoint, hms⟩, hmode, _, checkedSucc_ok.mpr ⟨hlt, rfl⟩, _, h₁, _,
    h₂, hknown, rfl⟩

/-- The loop of a batch, which starts without affected links. -/
theorem batchMutations_changes {g g₁ : FilesystemGraph} {ms : List GraphMutation} {affected : LinkSet}
    {jobs : Nat} (hms : ∀ m ∈ ms, m.InVolume v)
    (hopen : R ∨ EachMutation OpensVolume (currentGeneration g v + 1) g ms)
    (h : applyMutations (currentGeneration g v + 1) g .empty ms = .ok (g₁, affected, jobs)) :
    Changes R v (currentGeneration g v + 1) mode (g, ∅) (g₁, affected.members) := by
  rw [← LinkSet.members_empty]
  exact applyMutations_changes hms hopen (Nat.le_succ _) h

theorem applyBatchWithOutboxMode_changes {g g' : FilesystemGraph} {batch : GraphMutationBatch}
    {summary : ApplySummary}
    (hopen : R ∨ EachMutation OpensVolume (currentGeneration g batch.volumeId + 1) g batch.mutations)
    (h : applyBatchWithOutboxMode g batch mode = .ok (g', summary)) :
    Changes R batch.volumeId (currentGeneration g batch.volumeId + 1) mode (g, ∅) (g', ∅) := by
  obtain ⟨-, hms, -, -, g₁, g₂, affected, jobs, appended, h₁, h₂, ⟨volume, hvolume⟩, rfl⟩ :=
    applyBatchWithOutboxMode_ok h
  have hm : Changes R batch.volumeId (currentGeneration g batch.volumeId + 1) mode
      (g, ∅) (g₁, affected.members) := batchMutations_changes hms hopen h₁
  have hs : Changes R batch.volumeId (currentGeneration g batch.volumeId + 1) mode
      (g₁, affected.members) (g₂, affected.members \ {id | id ∈ affected.rows.map (·.1)}) :=
    syncLinks_changes h₂
  have hclean : affected.members \ {id | id ∈ affected.rows.map (·.1)} = ∅ :=
    Set.sdiff_eq_empty.mpr fun _ hid => LinkSet.mem_members.mp hid
  rw [hclean] at hs
  have hle := Changes.induct (P := fun s => currentGeneration s.1 batch.volumeId ≤ _)
    (fun _ _ => currentGeneration_le_of_change) (hm.trans hs) (Nat.le_succ _)
  refine ((hm.trans hs).tail (.setGeneration hle)).tail (.putCheckpoint _ ?_)
  simp [setGeneration, Table.get_modify, hvolume]

end Decomposition

end LocalSearch.Graph
