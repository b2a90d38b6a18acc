import LocalSearch.Graph.Projection
import Mathlib.Data.Set.Basic

/-!
# Row-level effects of one graph mutation

The statements each mutation kind executes, with the checks that precede them
and the constraints `SQLite` enforces on the way: foreign keys to volumes and
objects and the two partial unique indexes on link names.
-/
namespace LocalSearch.Graph

set_option autoImplicit false

open Core Lib

/-- The newest job identity plus one: rows are never deleted. -/
def nextJobId (g : FilesystemGraph) : Nat := g.pathJobs.lastKey.getD 0 + 1

/-- A pending path job for the object exists. -/
def pathJobPending (g : FilesystemGraph) (object : FileKey) : Bool :=
  g.pathJobs.rows.any fun x => x.2.rootObject == object && x.2.state == .pending

/-- `INSERT OR IGNORE` against the partial unique index on pending roots: an
already pending job is left as it is, cursor included. -/
def enqueueRefresh (g : FilesystemGraph) (object : FileKey) (generation : Nat) :
    FilesystemGraph × Nat :=
  if pathJobPending g object then (g, 0)
  else
    ({ g with pathJobs := g.pathJobs.insert (nextJobId g) ⟨object, generation, none, .pending⟩ }, 1)

/-- The volume queue holds one row per volume; a newer transition resets its
cursor. -/
def enqueueVolumeProjectionRefresh (g : FilesystemGraph) (volumeId : VolumeId) (generation : Nat) :
    FilesystemGraph × Nat :=
  ({ g with volumeJobs := g.volumeJobs.insert volumeId ⟨generation, none, .pending⟩ }, 1)

/-- A known volume keeps its generation. -/
def upsertVolume (g : FilesystemGraph) (descriptor : VolumeDescriptor) : FilesystemGraph :=
  let generation := (g.volumes.get descriptor.volumeId).elim 0 (·.generation)
  { g with volumes := g.volumes.insert descriptor.volumeId ⟨descriptor, .online, none, generation⟩ }

/-- `UPDATE graph_volumes SET state = ?2`, failing on an unknown volume. -/
def setVolumeState (g : FilesystemGraph) (volumeId : VolumeId) (state : VolumeState)
    (generation : Nat) : GraphResult (FilesystemGraph × Nat) :=
  match g.volumes.get volumeId with
  | none => .error (.invariant "volume state update references an unknown volume")
  | some row =>
      let row := { row with state := state }
      .ok (enqueueVolumeProjectionRefresh { g with volumes := g.volumes.insert volumeId row }
        volumeId generation)

def requireReconciliation (g : FilesystemGraph) (volumeId : VolumeId) (reason : ReconciliationReason)
    (generation : Nat) : GraphResult (FilesystemGraph × Nat) :=
  match g.volumes.get volumeId with
  | none => .error (.invariant "reconciliation references an unknown volume")
  | some row =>
      let row := { row with state := .needsReconciliation, reconciliationReason := some reason }
      .ok (enqueueVolumeProjectionRefresh { g with volumes := g.volumes.insert volumeId row }
        volumeId generation)

/-- Sizes past the signed range are refused; the volume is a foreign key. -/
def upsertObject (g : FilesystemGraph) (object : FileObjectSnapshot) (generation : Nat) :
    GraphResult FilesystemGraph :=
  if 2 ^ 63 ≤ object.metadata.size then .error (.numericRange "file size")
  else if (g.volumes.get object.objectKey.volumeId).isNone then
    .error (.sqlite .foreignKeyViolation)
  else
    .ok { g with objects := g.objects.insert object.objectKey ⟨object.metadata, false, generation⟩ }

def setTombstoned (g : FilesystemGraph) (object : FileKey) (tombstoned : Bool) : FilesystemGraph :=
  { g with objects := g.objects.modify object fun row => { row with tombstoned := tombstoned } }

def isDirectory (g : FilesystemGraph) (object : FileKey) : GraphResult Bool :=
  match g.objects.get object with
  | none => .error (.invariant "directory check references unknown object")
  | some row => .ok (row.metadata.kind == .directory)

/-- The row `id` occupies the namespace slot of a link: same parent and name,
or, for provider roots, same volume and name. -/
def sameSlot (row : LinkRow) (link : FileLinkSnapshot) : Bool :=
  row.name == link.name && row.parentKey == link.parentKey &&
    (link.parentKey.isSome || row.objectKey.volumeId == link.objectKey.volumeId)

/-- Some other link already occupies the slot. -/
def slotTaken (g : FilesystemGraph) (link : FileLinkSnapshot) : Bool :=
  g.links.rows.any fun x => x.1 != link.fileLinkId && sameSlot x.2 link

/-- Generation below which a scanning session of the volume calls rows stale. -/
def scanCutoff (g : FilesystemGraph) (volumeId : VolumeId) : Option Nat :=
  match g.sessions.get volumeId with
  | some ⟨scanGeneration, _, .scanning⟩ => some scanGeneration
  | _ => none

/-- A stale row under the same identity but for another object. -/
def staleIdentityConflict (g : FilesystemGraph) (link : FileLinkSnapshot) (cutoff : Nat) :
    List (FileLinkId × FileKey) :=
  match g.links.get link.fileLinkId with
  | none => []
  | some row =>
      if row.objectKey ≠ link.objectKey ∧ row.observationGeneration < cutoff then
        [(link.fileLinkId, row.objectKey)]
      else []

/-- The stale row, if any, that occupies the slot under another identity. -/
def staleNamespaceConflict (g : FilesystemGraph) (link : FileLinkSnapshot) (cutoff : Nat) :
    List (FileLinkId × FileKey) :=
  ((g.links.select fun id row =>
      id != link.fileLinkId && sameSlot row link && decide (row.observationGeneration < cutoff)).take 1).map
    fun x => (x.1, x.2.objectKey)

def staleObservationLinkConflicts (g : FilesystemGraph) (link : FileLinkSnapshot) :
    List (FileLinkId × FileKey) :=
  match scanCutoff g link.objectKey.volumeId with
  | none => []
  | some cutoff => staleIdentityConflict g link cutoff ++ staleNamespaceConflict g link cutoff

/-- `DELETE` a link row and tombstone its object when no link is left. -/
def dropLink (g : FilesystemGraph) (fileLinkId : FileLinkId) (object : FileKey) : FilesystemGraph :=
  let g := { g with links := g.links.erase fileLinkId }
  if (linksOf g object).length = 0 then setTombstoned g object true else g

def removeLinkInternal (g : FilesystemGraph) (fileLinkId : FileLinkId) (expected : FileKey)
    (generation : Nat) (refreshDirectoryPaths : Bool) : GraphResult (FilesystemGraph × Nat) :=
  match g.links.get fileLinkId with
  | none => .ok (g, 0)
  | some existing =>
      if existing.objectKey ≠ expected then
        .error (.invariant "link removal object identity does not match durable state")
      else do
        let directory ← isDirectory g expected
        let g := dropLink g fileLinkId expected
        if directory && refreshDirectoryPaths then .ok (enqueueRefresh g expected generation)
        else .ok (g, 0)

/-- Remove the stale conflicts of an observed link one by one. -/
def removeStaleLinks (g : FilesystemGraph) (generation : Nat) :
    List (FileLinkId × FileKey) → GraphResult FilesystemGraph
  | [] => .ok g
  | (staleLink, staleObject) :: rest => do
      let (g, _) ← removeLinkInternal g staleLink staleObject generation false
      removeStaleLinks g generation rest

/-- The refusal of an identity that belongs to another object. -/
def reboundError : GraphError := .invariant "a file-link ID cannot be rebound to another object"

/-- Re-observing a directory under another parent or name queues a refresh. -/
def refreshMovedDirectory (g : FilesystemGraph) (link : FileLinkSnapshot) (generation : Nat) :
    GraphResult (FilesystemGraph × Nat) :=
  match g.links.get link.fileLinkId with
  | none => .ok (g, 0)
  | some existing =>
      if existing.objectKey ≠ link.objectKey then
        .error reboundError
      else if existing.parentKey ≠ link.parentKey ∨ existing.name ≠ link.name then do
        let directory ← isDirectory g link.objectKey
        if directory then .ok (enqueueRefresh g link.objectKey generation) else .ok (g, 0)
      else .ok (g, 0)

/-- `INSERT ... ON CONFLICT(file_link_id)`, then revive the object. -/
def putLink (g : FilesystemGraph) (link : FileLinkSnapshot) (traversalBoundary : Bool)
    (generation : Nat) : FilesystemGraph :=
  let row := ⟨link.objectKey, link.parentKey, link.name, traversalBoundary, generation⟩
  setTombstoned { g with links := g.links.insert link.fileLinkId row } link.objectKey false

def upsertLink (g : FilesystemGraph) (link : FileLinkSnapshot) (traversalBoundary : Bool)
    (generation : Nat) : GraphResult (FilesystemGraph × Nat) :=
  if (g.objects.get link.objectKey).isNone then
    .error (.invariant "link observation precedes its physical object")
  else do
    let g ← removeStaleLinks g generation (staleObservationLinkConflicts g link)
    let (g, refreshJobs) ← refreshMovedDirectory g link generation
    if slotTaken g link then .error (.sqlite .uniqueViolation)
    else .ok (putLink g link traversalBoundary generation, refreshJobs)

def removeLink (g : FilesystemGraph) (fileLinkId : FileLinkId) (expected : FileKey)
    (generation : Nat) : GraphResult (FilesystemGraph × Nat) :=
  removeLinkInternal g fileLinkId expected generation true

def tombstoneObject (g : FilesystemGraph) (object : FileKey) : GraphResult FilesystemGraph :=
  if (linksOf g object).length ≠ 0 then
    .error (.invariant "object cannot be tombstoned while namespace links remain")
  else if (g.objects.get object).isNone then
    .error (.invariant "object tombstone references an unknown object")
  else .ok (setTombstoned g object true)

def applyMutation (g : FilesystemGraph) (mutation : GraphMutation) (generation : Nat) :
    GraphResult (FilesystemGraph × Nat) :=
  match mutation with
  | .upsertVolume descriptor => .ok (upsertVolume g descriptor, 0)
  | .setVolumeState volumeId state => setVolumeState g volumeId state generation
  | .upsertObject object => do
      let g ← upsertObject g object generation
      .ok (g, 0)
  | .upsertLink link traversalBoundary => upsertLink g link traversalBoundary generation
  | .removeLink fileLinkId objectKey => removeLink g fileLinkId objectKey generation
  | .tombstoneObject objectKey => do
      let g ← tombstoneObject g objectKey
      .ok (g, 0)
  | .requireReconciliation volumeId reason => requireReconciliation g volumeId reason generation

/-- Links whose desired document a mutation may change, read before it runs. -/
def affectedLinks (g : FilesystemGraph) (mutation : GraphMutation) : List FileLinkId :=
  match mutation with
  | .upsertLink link _ => link.fileLinkId :: (staleObservationLinkConflicts g link).map (·.1)
  | .removeLink fileLinkId _ => [fileLinkId]
  | .upsertObject object => (linksOf g object.objectKey).map (·.fileLinkId)
  | .tombstoneObject objectKey =>
      (linksOf g objectKey).map (·.fileLinkId) ++
        (g.catalog.select fun _ row => row.objectKey == objectKey).map (·.2.fileLinkId)
  | .setVolumeState _ _ | .requireReconciliation _ _ | .upsertVolume _ => []

/-- The ordered set the affected links are gathered in. -/
abbrev LinkSet := Table FileLinkId Unit

def LinkSet.addAll (set : LinkSet) (ids : List FileLinkId) : LinkSet :=
  ids.foldl (fun s id => s.insert id ()) set

def collectAffectedLinks (g : FilesystemGraph) (mutation : GraphMutation) (affected : LinkSet) :
    LinkSet := affected.addAll (affectedLinks g mutation)

@[simp] theorem setTombstoned_get (g : FilesystemGraph) (o k : FileKey) (b : Bool) :
    (setTombstoned g o b).objects.get k =
      if k = o then (g.objects.get k).map fun row => { row with tombstoned := b }
      else g.objects.get k :=
  Table.get_modify _ _ _ _

theorem setTombstoned_isSome (g : FilesystemGraph) (o k : FileKey) (b : Bool) :
    ((setTombstoned g o b).objects.get k).isSome = (g.objects.get k).isSome := by
  rw [setTombstoned_get]
  split_ifs <;> simp

/-- Dropping a link changes the links at one identity and one object's mark. -/
theorem dropLink_cases (g : FilesystemGraph) (id : FileLinkId) (o : FileKey) :
    (dropLink g id o = { g with links := g.links.erase id } ∧
        linksOf { g with links := g.links.erase id } o ≠ []) ∨
      (dropLink g id o = setTombstoned { g with links := g.links.erase id } o true ∧
        linksOf { g with links := g.links.erase id } o = []) := by
  simp only [dropLink, List.length_eq_zero_iff]
  split_ifs with h
  · exact Or.inr ⟨rfl, h⟩
  · exact Or.inl ⟨rfl, h⟩

@[simp] theorem dropLink_links (g : FilesystemGraph) (id : FileLinkId) (o : FileKey) :
    (dropLink g id o).links = g.links.erase id := by
  rcases dropLink_cases g id o with ⟨h, -⟩ | ⟨h, -⟩
  · rw [h]
  · rw [h]; rfl

theorem dropLink_isSome (g : FilesystemGraph) (id : FileLinkId) (o k : FileKey) :
    ((dropLink g id o).objects.get k).isSome = (g.objects.get k).isSome := by
  rcases dropLink_cases g id o with ⟨h, -⟩ | ⟨h, -⟩ <;> rw [h]
  exact setTombstoned_isSome _ _ _ _

@[simp] theorem putLink_links (g : FilesystemGraph) (link : FileLinkSnapshot) (b : Bool) (gen : Nat) :
    (putLink g link b gen).links = g.links.insert link.fileLinkId
      ⟨link.objectKey, link.parentKey, link.name, b, gen⟩ := rfl

theorem enqueueRefresh_frame (g : FilesystemGraph) (o : FileKey) (gen : Nat) :
    (enqueueRefresh g o gen).1 = { g with pathJobs := (enqueueRefresh g o gen).1.pathJobs } := by
  unfold enqueueRefresh
  split_ifs <;> rfl

theorem isDirectory_ok {g : FilesystemGraph} {o : FileKey} {b : Bool} :
    isDirectory g o = .ok b ↔
      ∃ row, g.objects.get o = some row ∧ b = (row.metadata.kind == .directory) := by
  unfold isDirectory
  cases g.objects.get o with
  | none => simp
  | some row => simp [eq_comm]

/-- What an accepted removal does: nothing, or a drop and perhaps a job. -/
theorem removeLinkInternal_ok {g g' : FilesystemGraph} {id : FileLinkId} {expected : FileKey}
    {gen : Nat} {refresh : Bool} {n : Nat}
    (h : removeLinkInternal g id expected gen refresh = .ok (g', n)) :
    (g.links.get id = none ∧ g' = g) ∨
      ∃ row object, g.links.get id = some row ∧ row.objectKey = expected ∧
        g.objects.get expected = some object ∧
        g' = if refresh ∧ object.metadata.kind = .directory
          then (enqueueRefresh (dropLink g id expected) expected gen).1
          else dropLink g id expected := by
  unfold removeLinkInternal at h
  cases hrow : g.links.get id with
  | none =>
    rw [hrow] at h
    exact Or.inl ⟨rfl, (Prod.mk.inj (Except.ok.inj h)).1.symm⟩
  | some row =>
    rw [hrow] at h
    simp only [guard_ok, not_not, bind_ok] at h
    obtain ⟨hobj, directory, hdir, hrest⟩ := h
    obtain ⟨object, hget, rfl⟩ := isDirectory_ok.mp hdir
    refine Or.inr ⟨row, object, rfl, hobj, hget, ?_⟩
    by_cases hk : object.metadata.kind = .directory <;> cases refresh <;> simp [hk] at hrest ⊢
    · exact hrest.1.symm
    · rw [hrest]
    · exact hrest.1.symm
    · exact hrest.1.symm

theorem removeLinkInternal_get {gen n : Nat} {g g' : FilesystemGraph} {id : FileLinkId}
    {expected : FileKey} {refresh : Bool}
    (h : removeLinkInternal g id expected gen refresh = .ok (g', n)) (j : FileLinkId) :
    g'.links.get j = if j = id then none else g.links.get j := by
  rcases removeLinkInternal_ok h with ⟨hnone, rfl⟩ | ⟨row, object, -, -, -, rfl⟩
  · split_ifs with hj
    · rw [hj, hnone]
    · rfl
  · have hlinks : ∀ refresh' : Prop, [Decidable refresh'] → (if refresh' then
        (enqueueRefresh (dropLink g id expected) expected gen).1
        else dropLink g id expected).links = g.links.erase id := by
      intro refresh' _
      split_ifs
      · rw [enqueueRefresh_frame]
        exact dropLink_links _ _ _
      · exact dropLink_links _ _ _
    rw [hlinks, Table.get_erase]

theorem removeLinkInternal_isSome {gen : Nat} {g g' : FilesystemGraph} {id : FileLinkId} {expected : FileKey}
    {refresh : Bool} {n : Nat} (h : removeLinkInternal g id expected gen refresh = .ok (g', n))
    (k : FileKey) : (g'.objects.get k).isSome = (g.objects.get k).isSome := by
  rcases removeLinkInternal_ok h with ⟨-, rfl⟩ | ⟨row, object, -, -, -, rfl⟩
  · rfl
  · split_ifs
    · rw [enqueueRefresh_frame]
      exact dropLink_isSome _ _ _ _
    · exact dropLink_isSome _ _ _ _

theorem removeStaleLinks_isSome {gen : Nat} {g g' : FilesystemGraph} {stale : List (FileLinkId × FileKey)}
    (h : removeStaleLinks g gen stale = .ok g') (k : FileKey) :
    (g'.objects.get k).isSome = (g.objects.get k).isSome := by
  induction stale generalizing g with
  | nil => obtain rfl := Except.ok.inj h; rfl
  | cons x rest ih =>
    obtain ⟨⟨g₁, n⟩, h₁, hrest⟩ := bind_ok.mp h
    rw [ih hrest, removeLinkInternal_isSome h₁]

/-- An accepted re-observation keeps the object of the link and changes at most
the path queue. -/
theorem refreshMovedDirectory_ok {gen : Nat} {g g' : FilesystemGraph} {link : FileLinkSnapshot} {n : Nat}
    (h : refreshMovedDirectory g link gen = .ok (g', n)) :
    (∀ row, g.links.get link.fileLinkId = some row → row.objectKey = link.objectKey) ∧
      (g' = g ∨ (g' = (enqueueRefresh g link.objectKey gen).1 ∧ (g.objects.get link.objectKey).isSome)) := by
  unfold refreshMovedDirectory at h
  cases hrow : g.links.get link.fileLinkId with
  | none =>
    rw [hrow] at h
    exact ⟨fun _ h => (nomatch h), Or.inl (Prod.mk.inj (Except.ok.inj h)).1.symm⟩
  | some row =>
    rw [hrow] at h
    simp only [guard_ok, not_not] at h
    obtain ⟨hobj, h⟩ := h
    refine ⟨fun r hr => by rw [← Option.some.inj hr]; exact hobj, ?_⟩
    split_ifs at h with hmoved
    · obtain ⟨directory, hdir, h⟩ := bind_ok.mp h
      obtain ⟨object, hget, -⟩ := isDirectory_ok.mp hdir
      split_ifs at h
      · exact Or.inr ⟨(congrArg Prod.fst (Except.ok.inj h)).symm, by rw [hget]; rfl⟩
      · exact Or.inl (Prod.mk.inj (Except.ok.inj h)).1.symm
    · exact Or.inl (Prod.mk.inj (Except.ok.inj h)).1.symm

/-- The parts of an accepted link observation, in order. -/
theorem upsertLink_ok {gen : Nat} {g g' : FilesystemGraph} {link : FileLinkSnapshot} {boundary : Bool} {n : Nat}
    (h : upsertLink g link boundary gen = .ok (g', n)) :
    (g.objects.get link.objectKey).isSome ∧ ∃ g₁ g₂,
      removeStaleLinks g gen (staleObservationLinkConflicts g link) = .ok g₁ ∧
      refreshMovedDirectory g₁ link gen = .ok (g₂, n) ∧ slotTaken g₂ link = false ∧
      g' = putLink g₂ link boundary gen := by
  simp only [upsertLink, guard_ok, bind_ok] at h
  obtain ⟨hobj, g₁, h₁, ⟨g₂, m⟩, h₂, hslot, heq⟩ := h
  obtain ⟨rfl, rfl⟩ := Prod.mk.inj (Except.ok.inj heq)
  refine ⟨?_, g₁, g₂, h₁, h₂, by simpa using hslot, rfl⟩
  cases hget : g.objects.get link.objectKey with
  | none => simp [hget] at hobj
  | some row => rfl

theorem removeStaleLinks_get {gen : Nat} {g g' : FilesystemGraph}
    {stale : List (FileLinkId × FileKey)} (h : removeStaleLinks g gen stale = .ok g')
    {id : FileLinkId} {row : LinkRow} (hrow : g'.links.get id = some row) :
    g.links.get id = some row := by
  induction stale generalizing g with
  | nil => obtain rfl := Except.ok.inj h; exact hrow
  | cons x rest ih =>
    obtain ⟨⟨g₁, n⟩, h₁, hrest⟩ := bind_ok.mp h
    have hkept := ih hrest
    rw [removeLinkInternal_get h₁] at hkept
    split_ifs at hkept
    exact hkept

theorem removeLinkInternal_error {gen : Nat} {g : FilesystemGraph} {id : FileLinkId}
    {expected : FileKey} {refresh : Bool} :
    removeLinkInternal g id expected gen refresh ≠ .error reboundError := by
  unfold removeLinkInternal isDirectory
  cases g.links.get id with
  | none => simp
  | some existing =>
    cases g.objects.get expected with
    | none => by_cases hkey : existing.objectKey = expected <;> simp [hkey, reboundError, bind, Except.bind]
    | some row =>
      by_cases hkey : existing.objectKey = expected
      · simp only [hkey, ne_eq, not_true_eq_false, if_false, bind, Except.bind]
        split_ifs <;> simp
      · simp [hkey, reboundError]

theorem removeStaleLinks_error {gen : Nat} {g : FilesystemGraph} {stale : List (FileLinkId × FileKey)} :
    removeStaleLinks g gen stale ≠ .error reboundError := by
  induction stale generalizing g with
  | nil => simp [removeStaleLinks]
  | cons x rest ih =>
    intro h
    rcases bind_error.mp h with h | ⟨⟨g₁, n⟩, -, h⟩
    · exact removeLinkInternal_error h
    · exact ih h

/-- A rebinding is refused only where another object holds the identity. -/
theorem upsertLink_rebound {gen : Nat} {g : FilesystemGraph} {link : FileLinkSnapshot} {boundary : Bool}
    (h : upsertLink g link boundary gen = .error reboundError) :
    ∃ row, g.links.get link.fileLinkId = some row ∧ row.objectKey ≠ link.objectKey := by
  unfold upsertLink at h
  split_ifs at h with hobj
  · simp [reboundError] at h
  rcases bind_error.mp h with h | ⟨g₁, h₁, h⟩
  · exact absurd h removeStaleLinks_error
  rcases bind_error.mp h with h | ⟨⟨g₂, n⟩, -, h⟩
  · unfold refreshMovedDirectory at h
    cases hrow : g₁.links.get link.fileLinkId with
    | none => rw [hrow] at h; cases h
    | some row =>
      rw [hrow] at h
      by_cases hkey : row.objectKey = link.objectKey
      · simp only [hkey, ne_eq, not_true_eq_false, if_false] at h
        split_ifs at h
        rcases bind_error.mp h with h | ⟨directory, -, h⟩
        · unfold isDirectory at h
          cases hget : g₁.objects.get link.objectKey with
          | none => rw [hget] at h; simp [reboundError] at h
          | some object => rw [hget] at h; cases h
        · split_ifs at h
      · exact ⟨row, removeStaleLinks_get h₁ hrow, hkey⟩
  · dsimp only at h
    split_ifs at h
    cases h

theorem tombstoneObject_ok {g g' : FilesystemGraph} {object : FileKey}
    (h : tombstoneObject g object = .ok g') :
    linksOf g object = [] ∧ (g.objects.get object).isSome ∧ g' = setTombstoned g object true := by
  simp only [tombstoneObject, guard_ok, not_not, List.length_eq_zero_iff] at h
  obtain ⟨hlinks, hobj, heq⟩ := h
  refine ⟨hlinks, ?_, (Except.ok.inj heq).symm⟩
  cases hget : g.objects.get object with
  | none => simp [hget] at hobj
  | some row => rfl

/-- Object rows keep metadata and stamp and may only become tombstoned. -/
def ObjectsFade (g g' : FilesystemGraph) : Prop :=
  ∀ key row, g'.objects.get key = some row → ∃ old, g.objects.get key = some old ∧
    row.metadata = old.metadata ∧ row.observationGeneration = old.observationGeneration ∧
    (old.tombstoned = true → row.tombstoned = true)

theorem ObjectsFade.refl (g : FilesystemGraph) : ObjectsFade g g :=
  fun _ row hrow => ⟨row, hrow, rfl, rfl, fun h => h⟩

theorem ObjectsFade.trans {g g' g'' : FilesystemGraph} (h : ObjectsFade g g')
    (h' : ObjectsFade g' g'') : ObjectsFade g g'' := by
  intro key row hrow
  obtain ⟨mid, hmid, hmeta, hgen, htomb⟩ := h' key row hrow
  obtain ⟨old, hold, hmeta', hgen', htomb'⟩ := h key mid hmid
  exact ⟨old, hold, hmeta.trans hmeta', hgen.trans hgen', fun ht => htomb (htomb' ht)⟩

theorem setTombstoned_fade (g : FilesystemGraph) (o : FileKey) :
    ObjectsFade g (setTombstoned g o true) := by
  intro key row hrow
  rw [setTombstoned_get] at hrow
  split_ifs at hrow
  · obtain ⟨old, hold, rfl⟩ := Option.map_eq_some_iff.mp hrow
    exact ⟨old, hold, rfl, rfl, fun _ => rfl⟩
  · exact ⟨row, hrow, rfl, rfl, fun h => h⟩

theorem dropLink_fade (g : FilesystemGraph) (id : FileLinkId) (o : FileKey) :
    ObjectsFade g (dropLink g id o) := by
  rcases dropLink_cases g id o with ⟨h, -⟩ | ⟨h, -⟩ <;> rw [h]
  · exact .refl g
  · exact setTombstoned_fade { g with links := g.links.erase id } o

theorem removeLinkInternal_fade {gen n : Nat} {g g' : FilesystemGraph} {id : FileLinkId}
    {expected : FileKey} {refresh : Bool}
    (h : removeLinkInternal g id expected gen refresh = .ok (g', n)) : ObjectsFade g g' := by
  rcases removeLinkInternal_ok h with ⟨-, rfl⟩ | ⟨row, object, -, -, -, rfl⟩
  · exact .refl _
  · split_ifs
    · rw [enqueueRefresh_frame]
      exact dropLink_fade g id expected
    · exact dropLink_fade g id expected

theorem removeStaleLinks_fade {gen : Nat} {g g' : FilesystemGraph}
    {stale : List (FileLinkId × FileKey)} (h : removeStaleLinks g gen stale = .ok g') :
    ObjectsFade g g' := by
  induction stale generalizing g with
  | nil => obtain rfl := Except.ok.inj h; exact .refl _
  | cons x rest ih =>
    obtain ⟨⟨g₁, n⟩, h₁, hrest⟩ := bind_ok.mp h
    exact (removeLinkInternal_fade h₁).trans (ih hrest)

theorem dropLink_frame (g : FilesystemGraph) (id : FileLinkId) (o : FileKey) :
    dropLink g id o = { g with links := g.links.erase id, objects := (dropLink g id o).objects } := by
  rcases dropLink_cases g id o with ⟨h, -⟩ | ⟨h, -⟩ <;> rw [h]
  rfl

theorem removeLinkInternal_frame {gen : Nat} {g g' : FilesystemGraph} {id : FileLinkId}
    {expected : FileKey} {refresh : Bool} {n : Nat}
    (h : removeLinkInternal g id expected gen refresh = .ok (g', n)) :
    g' = { g with links := g'.links, objects := g'.objects, pathJobs := g'.pathJobs } := by
  rcases removeLinkInternal_ok h with ⟨-, rfl⟩ | ⟨row, object, -, -, -, rfl⟩
  · rfl
  · split_ifs
    · rw [enqueueRefresh_frame, dropLink_frame]
    · rw [dropLink_frame]

theorem removeStaleLinks_frame {gen : Nat} {g g' : FilesystemGraph}
    {stale : List (FileLinkId × FileKey)} (h : removeStaleLinks g gen stale = .ok g') :
    g' = { g with links := g'.links, objects := g'.objects, pathJobs := g'.pathJobs } := by
  induction stale generalizing g with
  | nil => obtain rfl := Except.ok.inj h; rfl
  | cons x rest ih =>
    obtain ⟨⟨g₁, n⟩, h₁, hrest⟩ := bind_ok.mp h
    have hframe := ih hrest
    rw [removeLinkInternal_frame h₁] at hframe
    exact hframe

theorem refreshMovedDirectory_frame {gen : Nat} {g g' : FilesystemGraph} {link : FileLinkSnapshot}
    {n : Nat} (h : refreshMovedDirectory g link gen = .ok (g', n)) :
    g' = { g with pathJobs := g'.pathJobs } := by
  rcases (refreshMovedDirectory_ok h).2 with rfl | ⟨rfl, -⟩
  · rfl
  · exact enqueueRefresh_frame _ _ _

theorem upsertLink_frame {gen : Nat} {g g' : FilesystemGraph} {link : FileLinkSnapshot}
    {boundary : Bool} {n : Nat} (h : upsertLink g link boundary gen = .ok (g', n)) :
    g' = { g with links := g'.links, objects := g'.objects, pathJobs := g'.pathJobs } := by
  obtain ⟨-, g₁, g₂, h₁, h₂, -, rfl⟩ := upsertLink_ok h
  have hframe := refreshMovedDirectory_frame h₂
  rw [removeStaleLinks_frame h₁] at hframe
  rw [hframe]
  rfl

/-- The mutation observes or removes a link. -/
def GraphMutation.ChangesLinks : GraphMutation → Prop
  | .upsertLink _ _ | .removeLink _ _ => True
  | _ => False

/-- Any other mutation writes volumes, their queue and objects only. -/
theorem applyMutation_rows {gen : Nat} {g g' : FilesystemGraph} {m : GraphMutation} {n : Nat}
    (hm : ¬ m.ChangesLinks) (h : applyMutation g m gen = .ok (g', n)) :
    g' = { g with
      volumes := g'.volumes, objects := g'.objects, volumeJobs := g'.volumeJobs } := by
  cases m with
  | upsertVolume descriptor =>
    obtain ⟨rfl, -⟩ := Prod.mk.inj (Except.ok.inj h)
    rfl
  | setVolumeState v state =>
    simp only [applyMutation, setVolumeState] at h
    cases hrow : g.volumes.get v with
    | none => rw [hrow] at h; cases h
    | some row =>
      rw [hrow] at h
      obtain ⟨rfl, -⟩ := Prod.mk.inj (Except.ok.inj h)
      rfl
  | requireReconciliation v reason =>
    simp only [applyMutation, requireReconciliation] at h
    cases hrow : g.volumes.get v with
    | none => rw [hrow] at h; cases h
    | some row =>
      rw [hrow] at h
      obtain ⟨rfl, -⟩ := Prod.mk.inj (Except.ok.inj h)
      rfl
  | upsertObject object =>
    obtain ⟨g₁, h₁, heq⟩ := bind_ok.mp h
    obtain ⟨rfl, -⟩ := Prod.mk.inj (Except.ok.inj heq)
    simp only [upsertObject, guard_ok] at h₁
    obtain rfl := Except.ok.inj h₁.2.2
    rfl
  | tombstoneObject object =>
    obtain ⟨g₁, h₁, heq⟩ := bind_ok.mp h
    obtain ⟨rfl, -⟩ := Prod.mk.inj (Except.ok.inj heq)
    obtain ⟨-, -, rfl⟩ := tombstoneObject_ok h₁
    rfl
  | upsertLink | removeLink => exact absurd trivial hm

/-- A mutation writes volumes, objects, links and the two refresh queues only. -/
theorem applyMutation_frame {gen : Nat} {g g' : FilesystemGraph} {m : GraphMutation} {n : Nat}
    (h : applyMutation g m gen = .ok (g', n)) :
    g' = { g with
      volumes := g'.volumes, objects := g'.objects, links := g'.links
      pathJobs := g'.pathJobs, volumeJobs := g'.volumeJobs } := by
  by_cases hm : m.ChangesLinks
  · cases m with
    | upsertLink link boundary => rw [upsertLink_frame h]
    | removeLink id object => rw [removeLinkInternal_frame h]
    | upsertVolume | setVolumeState | requireReconciliation | upsertObject | tombstoneObject =>
      exact hm.elim
  · rw [applyMutation_rows hm h]

/-- Every path job stays as it is. -/
def KeepsJobs (g g' : FilesystemGraph) : Prop :=
  ∀ n job, g.pathJobs.get n = some job → g'.pathJobs.get n = some job

theorem KeepsJobs.of_eq {g g' : FilesystemGraph} (h : g'.pathJobs = g.pathJobs) : KeepsJobs g g' :=
  fun _ _ hjob => h ▸ hjob

theorem enqueueRefresh_keepsJobs (g : FilesystemGraph) (o : FileKey) (gen : Nat) :
    KeepsJobs g (enqueueRefresh g o gen).1 := by
  intro n job hjob
  unfold enqueueRefresh
  split_ifs
  · exact hjob
  · obtain ⟨last, hlast, hle⟩ := Table.le_lastKey hjob
    refine (Table.get_insert_ne _ _ ?_).trans hjob
    rw [nextJobId, hlast, Option.getD_some]
    omega

/-- An object without pending job gets one that has not started. -/
theorem enqueueRefresh_new {g : FilesystemGraph} {o : FileKey} (h : pathJobPending g o = false)
    (gen : Nat) : ∃ n, (enqueueRefresh g o gen).1.pathJobs.get n = some ⟨o, gen, none, .pending⟩ := by
  refine ⟨nextJobId g, ?_⟩
  rw [enqueueRefresh, h]
  exact Table.get_insert_self _ _ _

theorem removeLinkInternal_keepsJobs {gen : Nat} {g g' : FilesystemGraph} {id : FileLinkId}
    {expected : FileKey} {refresh : Bool} {n : Nat}
    (h : removeLinkInternal g id expected gen refresh = .ok (g', n)) : KeepsJobs g g' := by
  have hdrop : (dropLink g id expected).pathJobs = g.pathJobs := by rw [dropLink_frame]
  rcases removeLinkInternal_ok h with ⟨-, rfl⟩ | ⟨row, object, -, -, -, rfl⟩
  · exact .of_eq rfl
  · split_ifs
    · exact fun n job hjob => enqueueRefresh_keepsJobs _ _ _ n job (hdrop ▸ hjob)
    · exact .of_eq hdrop

theorem removeStaleLinks_pathJobs {gen : Nat} {g g' : FilesystemGraph}
    {stale : List (FileLinkId × FileKey)} (h : removeStaleLinks g gen stale = .ok g') :
    g'.pathJobs = g.pathJobs := by
  induction stale generalizing g with
  | nil => obtain rfl := Except.ok.inj h; rfl
  | cons x rest ih =>
    obtain ⟨⟨g₁, n⟩, h₁, hrest⟩ := bind_ok.mp h
    rw [ih hrest]
    rcases removeLinkInternal_ok h₁ with ⟨-, rfl⟩ | ⟨row, object, -, -, -, rfl⟩
    · rfl
    · simp only [Bool.false_eq_true, false_and, if_false]
      rw [dropLink_frame]

theorem refreshMovedDirectory_keepsJobs {gen : Nat} {g g' : FilesystemGraph}
    {link : FileLinkSnapshot} {n : Nat} (h : refreshMovedDirectory g link gen = .ok (g', n)) :
    KeepsJobs g g' := by
  rcases (refreshMovedDirectory_ok h).2 with rfl | ⟨rfl, -⟩
  · exact .of_eq rfl
  · exact enqueueRefresh_keepsJobs _ _ _

theorem upsertLink_keepsJobs {gen : Nat} {g g' : FilesystemGraph} {link : FileLinkSnapshot}
    {boundary : Bool} {n : Nat} (h : upsertLink g link boundary gen = .ok (g', n)) :
    KeepsJobs g g' := by
  obtain ⟨-, g₁, g₂, h₁, h₂, -, rfl⟩ := upsertLink_ok h
  intro n job hjob
  rw [← removeStaleLinks_pathJobs h₁] at hjob
  exact refreshMovedDirectory_keepsJobs h₂ n job hjob

theorem applyMutation_keepsJobs {gen : Nat} {g g' : FilesystemGraph} {m : GraphMutation} {n : Nat}
    (h : applyMutation g m gen = .ok (g', n)) : KeepsJobs g g' := by
  by_cases hm : m.ChangesLinks
  · cases m with
    | upsertLink link boundary => exact upsertLink_keepsJobs h
    | removeLink id object => exact removeLinkInternal_keepsJobs h
    | upsertVolume | setVolumeState | requireReconciliation | upsertObject | tombstoneObject =>
      exact hm.elim
  · exact .of_eq (by rw [applyMutation_rows hm h])

theorem LinkSet.get_addAll (set : LinkSet) (ids : List FileLinkId) (id : FileLinkId) :
    ((set.addAll ids).get id).isSome ↔ (set.get id).isSome ∨ id ∈ ids := by
  induction ids generalizing set with
  | nil => simp [LinkSet.addAll]
  | cons x xs ih =>
    have hcons : set.addAll (x :: xs) = LinkSet.addAll (set.insert x ()) xs := rfl
    rw [hcons, ih, Table.get_insert, List.mem_cons]
    by_cases hx : id = x <;> simp [hx]

/-- The members of a link set. -/
def LinkSet.members (set : LinkSet) : Set FileLinkId := {id | (set.get id).isSome}

theorem LinkSet.members_empty : LinkSet.members .empty = ∅ := by
  simp [LinkSet.members]

/-- The loop over the rows of a link set meets its members. -/
theorem LinkSet.mem_members {set : LinkSet} {id : FileLinkId} :
    id ∈ set.members ↔ id ∈ set.rows.map (·.1) := by
  refine Option.isSome_iff_exists.trans (Iff.trans ?_ List.mem_map.symm)
  constructor
  · rintro ⟨row, hrow⟩
    exact ⟨(id, row), Table.mem_rows.mpr hrow, rfl⟩
  · rintro ⟨x, hx, rfl⟩
    exact ⟨x.2, Table.mem_rows.mp hx⟩

end LocalSearch.Graph
