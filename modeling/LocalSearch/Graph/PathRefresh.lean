import LocalSearch.Graph.Desired

/-!
# Path freshness and the refresh queue

Changing the links of an object moves the paths of the links below it. The
documents of those links are brought up to date by a pass over the volume, so
where a stored path is out of date some pending job must still have the link
ahead of its cursor. A batch that moves links without leaving such a job breaks
the invariant; every other batch and every refresh call keeps it.
-/
namespace LocalSearch.Graph

set_option autoImplicit false

open Core Lib

/-- The path the desired row of the link holds. -/
def storedPath (g : FilesystemGraph) (id : FileLinkId) : Option String :=
  (g.catalog.get (documentIdForLink id)).bind (·.projectionPath)

/-- The path the link resolves to. -/
def desiredPath (g : FilesystemGraph) (id : FileLinkId) : Option String :=
  (resolvePath g id projectionDepth).toOption.map displayPath

/-- Some link on the way up from the link belongs to an object right below `o`,
or the link itself does. -/
inductive Below (g : FilesystemGraph) (o : FileKey) : FileLinkId → Prop
  | child {id : FileLinkId} {row : LinkRow} (h : g.links.get id = some row)
      (hp : row.parentKey = some o) : Below g o id
  | step {id id' : FileLinkId} {row row' : LinkRow} (h : g.links.get id = some row)
      (h' : g.links.get id' = some row') (hp : row.parentKey = some row'.objectKey)
      (hb : Below g o id') : Below g o id

/-- A pending path job of the volume has the link ahead of its cursor. -/
def Covered (g : FilesystemGraph) (v : VolumeId) (id : FileLinkId) : Prop :=
  ∃ n job, g.pathJobs.get n = some job ∧ job.state = .pending ∧ job.rootObject.volumeId = v ∧
    Table.After job.projectionScanCursor id

/-- A pending path job of the volume has not started. -/
def UnstartedJob (g : FilesystemGraph) (v : VolumeId) : Prop :=
  ∃ n job, g.pathJobs.get n = some job ∧ job.state = .pending ∧ job.rootObject.volumeId = v ∧
    job.projectionScanCursor = none

/-- Each link of a volume in `V` has a stored path that stands in relation `Q` to
its desired one, or is covered by a pending job. Links in `A` are exempt. -/
def PathInvariant (Q : Option String → Option String → Prop) (V : Set VolumeId)
    (g : FilesystemGraph) (A : Set FileLinkId) : Prop :=
  ∀ id row, id ∉ A → g.links.get id = some row → row.objectKey.volumeId ∈ V →
    Q (storedPath g id) (desiredPath g id) ∨ Covered g row.objectKey.volumeId id

section Below

variable {g g' : FilesystemGraph} {o : FileKey}

theorem Below.mono {id : FileLinkId} (h : Below g o id)
    (hlinks : ∀ id row, g.links.get id = some row → g'.links.get id = some row) : Below g' o id := by
  induction h with
  | child h hp => exact .child (hlinks _ _ h) hp
  | step h h' hp _ ih => exact .step (hlinks _ _ h) (hlinks _ _ h') hp ih

/-- Links below an object are on its volume. -/
theorem Below.volume {id : FileLinkId} {row : LinkRow} (h : Below g o id) (hwf : NamespaceWF g)
    (hrow : g.links.get id = some row) : row.objectKey.volumeId = o.volumeId := by
  induction h generalizing row with
  | @child id row' h hp =>
    obtain rfl : row' = row := Option.some.inj (h.symm.trans hrow)
    exact (hwf.linkParent id row' h o hp).symm
  | @step id id' row₁ row₂ h h' hp _ ih =>
    obtain rfl : row₁ = row := Option.some.inj (h.symm.trans hrow)
    rw [← hwf.linkParent id row₁ h _ hp]
    exact ih h'

/-- Two graphs that differ in the links of `o` alone resolve every link that is
not below `o` alike. -/
theorem resolvePath_of_not_below {j : FileLinkId}
    (hrows : ∀ link : StoredLink, link.objectKey ≠ o →
      (loadLink g link.fileLinkId = some link ↔ loadLink g' link.fileLinkId = some link))
    (hj : loadLink g j = loadLink g' j) (hnot : ¬ Below g o j) (limit : Nat) :
    resolvePath g j limit = resolvePath g' j limit := by
  -- objects on the way up from `j`: not `o`, and no link of theirs is below `o`
  set S : FileKey → Prop := fun p => p ≠ o ∧
    ∀ id row, g.links.get id = some row → row.objectKey = p → ¬ Below g o id with hS
  have hparent : ∀ id row p, g.links.get id = some row → ¬ Below g o id → row.parentKey = some p →
      S p := by
    intro id row p hrow hnb hp
    refine ⟨fun he => hnb (.child hrow (he ▸ hp)), fun id' row' hrow' ho hb => ?_⟩
    exact hnb (.step hrow hrow' (ho ▸ hp) hb)
  refine resolvePath_congr (S := S) hj (fun p hp => ?_) (fun p hp link hlink q hq => ?_)
    (fun link hlink p hp => ?_) limit
  · exact linksOf_congr fun link ho => hrows link (ho ▸ hp.1)
  · obtain ⟨hload, ho⟩ := mem_linksOf.mp hlink
    obtain ⟨row, hrow, hst⟩ := loadLink_eq_some.mp hload
    rw [← hst] at ho hq
    exact hparent _ row q hrow (hp.2 _ row hrow ho) hq
  · obtain ⟨row, hrow, hst⟩ := loadLink_eq_some.mp hlink
    rw [← hst] at hp
    exact hparent j row p hrow hnot hp

theorem desiredPath_of_not_below {j : FileLinkId}
    (hrows : ∀ link : StoredLink, link.objectKey ≠ o →
      (loadLink g link.fileLinkId = some link ↔ loadLink g' link.fileLinkId = some link))
    (hj : loadLink g j = loadLink g' j) (hnot : ¬ Below g o j) :
    desiredPath g j = desiredPath g' j := by
  rw [desiredPath, desiredPath, resolvePath_of_not_below hrows hj hnot]

theorem desiredPath_of_links (h : g.links = g'.links) (j : FileLinkId) :
    desiredPath g j = desiredPath g' j := by
  rw [desiredPath, desiredPath, resolvePath_of_links h]

end Below

/-- Every link below the object, on a volume in `V` and not in `A`, is covered. -/
def SettledBelow (V : Set VolumeId) (A : Set FileLinkId) (g : FilesystemGraph) (o : FileKey) : Prop :=
  ∀ id row, id ∉ A → Below g o id → g.links.get id = some row → row.objectKey.volumeId ∈ V →
    Covered g row.objectKey.volumeId id

/-- Objects whose stored links the mutation changes. -/
def touchedObjects (g : FilesystemGraph) : GraphMutation → List FileKey
  | .upsertLink link boundary =>
      (staleObservationLinkConflicts g link).map (·.2) ++
        if loadLink g link.fileLinkId = some (storedLink link boundary) then []
        else [link.objectKey]
  | .removeLink id object => if (g.links.get id).isSome then [object] else []
  | _ => []

/-- The mutation leaves no link below a touched object uncovered, those in `A`
apart. -/
def Settles (V : Set VolumeId) (A : Set FileLinkId) (g : FilesystemGraph) (m : GraphMutation) : Prop :=
  ∀ o ∈ touchedObjects g m, SettledBelow V A g o

section Mutations

variable {Q : Option String → Option String → Prop} {V : Set VolumeId} {g g' : FilesystemGraph}
  {A : Set FileLinkId} {gen n : Nat}

theorem Covered.mono {v : VolumeId} {id : FileLinkId} (h : Covered g v id) (hjobs : KeepsJobs g g') :
    Covered g' v id := by
  obtain ⟨n, job, hjob, hrest⟩ := h
  exact ⟨n, job, hjobs n job hjob, hrest⟩

theorem UnstartedJob.mono {v : VolumeId} (h : UnstartedJob g v) (hjobs : KeepsJobs g g') :
    UnstartedJob g' v := by
  obtain ⟨n, job, hjob, hrest⟩ := h
  exact ⟨n, job, hjobs n job hjob, hrest⟩

theorem UnstartedJob.covered {v : VolumeId} (h : UnstartedJob g v) (id : FileLinkId) :
    Covered g v id := by
  obtain ⟨n, job, hjob, hpending, hv, hcursor⟩ := h
  exact ⟨n, job, hjob, hpending, hv, hcursor ▸ Table.after_none id⟩

/-- The invariant across a change of the links of one object. -/
theorem PathInvariant.of_touched (o : FileKey) (hinv : PathInvariant Q V g A)
    (hlinks : ∀ id, id ∉ A → g'.links.get id = g.links.get id)
    (hrows : ∀ link : StoredLink, link.objectKey ≠ o →
      (loadLink g link.fileLinkId = some link ↔ loadLink g' link.fileLinkId = some link))
    (hcat : g'.catalog = g.catalog) (hjobs : KeepsJobs g g') (hset : SettledBelow V A g o) :
    PathInvariant Q V g' A := by
  intro id row hid hrow hv
  have hsame := hlinks id hid
  have hold : g.links.get id = some row := hsame ▸ hrow
  by_cases hbelow : Below g o id
  · exact Or.inr ((hset id row hid hbelow hold hv).mono hjobs)
  · have hload : loadLink g id = loadLink g' id := by rw [loadLink, loadLink, hsame]
    rw [storedPath, hcat, ← desiredPath_of_not_below hrows hload hbelow]
    exact (hinv id row hid hold hv).imp_right fun h => h.mono hjobs

/-- The invariant across anything that leaves links and catalog. -/
theorem PathInvariant.of_frame (hinv : PathInvariant Q V g A) (hlinks : g'.links = g.links)
    (hcat : g'.catalog = g.catalog) (hjobs : KeepsJobs g g') : PathInvariant Q V g' A := by
  intro id row hid hrow hv
  rw [storedPath, hcat, desiredPath_of_links hlinks]
  exact (hinv id row hid (hlinks ▸ hrow) hv).imp_right fun h => h.mono hjobs

theorem PathInvariant.mono {A' : Set FileLinkId} (hinv : PathInvariant Q V g A) (hA : A ⊆ A') :
    PathInvariant Q V g A' :=
  fun id row hid => hinv id row fun h => hid (hA h)

/-- Fewer links, the same jobs: what was settled stays settled. -/
theorem SettledBelow.of_fewer {o : FileKey} (h : SettledBelow V A g o)
    (hlinks : ∀ id row, g'.links.get id = some row → g.links.get id = some row)
    (hjobs : KeepsJobs g g') : SettledBelow V A g' o :=
  fun id row hid hbelow hrow hv =>
    (h id row hid (hbelow.mono hlinks) (hlinks id row hrow) hv).mono hjobs

theorem removeLinkInternal_fewer {id : FileLinkId} {expected : FileKey} {refresh : Bool}
    (h : removeLinkInternal g id expected gen refresh = .ok (g', n)) :
    (∀ j, j ≠ id → g'.links.get j = g.links.get j) ∧
      ∀ j row, g'.links.get j = some row → g.links.get j = some row := by
  have hget := removeLinkInternal_get h
  refine ⟨fun j hj => by rw [hget, if_neg hj], fun j row hrow => ?_⟩
  rw [hget] at hrow
  split_ifs at hrow
  exact hrow

theorem pathInvariant_removeLinkInternal {id : FileLinkId} {expected : FileKey} {refresh : Bool}
    (hid : id ∈ A) (hinv : PathInvariant Q V g A)
    (hset : (g.links.get id).isSome → SettledBelow V A g expected)
    (h : removeLinkInternal g id expected gen refresh = .ok (g', n)) : PathInvariant Q V g' A := by
  obtain ⟨hkeep, -⟩ := removeLinkInternal_fewer h
  have hcat : g'.catalog = g.catalog := by rw [removeLinkInternal_frame h]
  have hjobs := removeLinkInternal_keepsJobs h
  rcases removeLinkInternal_ok h with ⟨hnone, rfl⟩ | ⟨row, object, hrow, hobj, -, -⟩
  · exact hinv
  · refine hinv.of_touched expected (fun j hj => hkeep j fun he => hj (he ▸ hid))
      (fun link hlink => ?_) hcat hjobs (hset (by rw [hrow]; rfl))
    by_cases hl : link.fileLinkId = id
    · have hgone : loadLink g' link.fileLinkId = none := by
        rw [loadLink, removeLinkInternal_get h, if_pos hl]
        rfl
      rw [hgone, loadLink, hl, hrow]
      refine ⟨fun he => absurd ?_ hlink, fun he => by cases he⟩
      rw [← Option.some.inj he]
      exact hobj
    · rw [loadLink, loadLink, hkeep _ hl]

theorem removeStaleLinks_fewer {stale : List (FileLinkId × FileKey)}
    (h : removeStaleLinks g gen stale = .ok g') :
    (∀ id, id ∉ stale.map (·.1) → g'.links.get id = g.links.get id) ∧
      ∀ id row, g'.links.get id = some row → g.links.get id = some row := by
  induction stale generalizing g with
  | nil =>
    obtain rfl := Except.ok.inj h
    exact ⟨fun _ _ => rfl, fun _ _ h => h⟩
  | cons x rest ih =>
    obtain ⟨⟨g₁, n⟩, h₁, hrest⟩ := bind_ok.mp h
    obtain ⟨hkeep, hfewer⟩ := removeLinkInternal_fewer h₁
    obtain ⟨hkeep', hfewer'⟩ := ih hrest
    refine ⟨fun j hj => ?_, fun j row hrow => hfewer j row (hfewer' j row hrow)⟩
    rw [List.map_cons, List.mem_cons, not_or] at hj
    rw [hkeep' j hj.2, hkeep j hj.1]

theorem pathInvariant_removeStaleLinks {stale : List (FileLinkId × FileKey)}
    (hids : ∀ x ∈ stale, x.1 ∈ A) (hinv : PathInvariant Q V g A)
    (hset : ∀ x ∈ stale, SettledBelow V A g x.2) (h : removeStaleLinks g gen stale = .ok g') :
    PathInvariant Q V g' A := by
  induction stale generalizing g with
  | nil =>
    obtain rfl := Except.ok.inj h
    exact hinv
  | cons x rest ih =>
    obtain ⟨id, object⟩ := x
    obtain ⟨⟨g₁, n⟩, h₁, hrest⟩ := bind_ok.mp h
    have hinv₁ := pathInvariant_removeLinkInternal (hids (id, object) List.mem_cons_self) hinv
      (fun _ => hset (id, object) List.mem_cons_self) h₁
    have hset₁ : ∀ y ∈ rest, SettledBelow V A g₁ y.2 := fun y hy =>
      (hset y (List.mem_cons_of_mem _ hy)).of_fewer (removeLinkInternal_fewer h₁).2
        (removeLinkInternal_keepsJobs h₁)
    exact ih (fun y hy => hids y (List.mem_cons_of_mem _ hy)) hinv₁ hset₁ hrest

/-- A stale conflict at the identity of the observed link belongs to another
object. -/
theorem staleConflict_ne {link : FileLinkSnapshot} {row : LinkRow}
    (hrow : g.links.get link.fileLinkId = some row) (hobj : row.objectKey = link.objectKey) :
    link.fileLinkId ∉ (staleObservationLinkConflicts g link).map (·.1) := by
  unfold staleObservationLinkConflicts
  cases scanCutoff g link.objectKey.volumeId with
  | none => exact List.not_mem_nil
  | some cutoff =>
    simp only [List.map_append, List.mem_append, not_or]
    constructor
    · simp [staleIdentityConflict, hrow, hobj]
    · intro hmem
      obtain ⟨x, hx, hid⟩ := List.mem_map.mp hmem
      obtain ⟨⟨id, r⟩, hy, rfl⟩ := List.mem_map.mp hx
      have hp := (Table.mem_select.mp (List.mem_of_mem_take hy)).2
      simp only [Bool.and_eq_true, bne_iff_ne, ne_eq] at hp
      exact hp.1.1 hid

theorem pathInvariant_upsertLink {link : FileLinkSnapshot} {boundary : Bool}
    (hids : ∀ id ∈ affectedLinks g (.upsertLink link boundary), id ∈ A)
    (hinv : PathInvariant Q V g A) (hset : Settles V A g (.upsertLink link boundary))
    (h : upsertLink g link boundary gen = .ok (g', n)) : PathInvariant Q V g' A := by
  obtain ⟨-, g₁, g₂, h₁, h₂, -, rfl⟩ := upsertLink_ok h
  obtain ⟨hbound, -⟩ := refreshMovedDirectory_ok h₂
  have hset₀ : ∀ x ∈ staleObservationLinkConflicts g link, SettledBelow V A g x.2 := fun x hx =>
    hset x.2 (List.mem_append_left _ (List.mem_map.mpr ⟨x, hx, rfl⟩))
  have hself : link.fileLinkId ∈ A := hids _ List.mem_cons_self
  have hinv₁ := pathInvariant_removeStaleLinks
    (fun x hx => hids x.1 (List.mem_cons_of_mem _ (List.mem_map.mpr ⟨x, hx, rfl⟩))) hinv hset₀ h₁
  obtain ⟨hkeep₁, hfewer₁⟩ := removeStaleLinks_fewer h₁
  have hframe₂ := refreshMovedDirectory_frame h₂
  have hlinks₂ : g₂.links = g₁.links := by rw [hframe₂]
  have hcat₂ : g₂.catalog = g₁.catalog := by rw [hframe₂]
  have hinv₂ := hinv₁.of_frame hlinks₂ hcat₂ (refreshMovedDirectory_keepsJobs h₂)
  have hother : ∀ id, id ≠ link.fileLinkId →
      (putLink g₂ link boundary gen).links.get id = g₂.links.get id := fun id hid => by
    rw [putLink_links, Table.get_insert_ne _ _ hid]
  by_cases hsame : loadLink g link.fileLinkId = some (storedLink link boundary)
  · -- the same stored link again: no path moves
    obtain ⟨row, hrow, hst⟩ := loadLink_eq_some.mp hsame
    have hkeep := hkeep₁ _ (staleConflict_ne hrow (congrArg (·.objectKey) hst))
    have hload : ∀ j, loadLink g₂ j = loadLink (putLink g₂ link boundary gen) j := by
      intro j
      by_cases hj : j = link.fileLinkId
      · rw [hj, loadLink, loadLink, putLink_links, Table.get_insert_self, hlinks₂, hkeep,
          hrow, Option.map_some, hst]
        rfl
      · rw [loadLink, loadLink, hother j hj]
    have hpath : ∀ j, desiredPath g₂ j = desiredPath (putLink g₂ link boundary gen) j := by
      intro j
      rw [desiredPath, desiredPath, resolvePath_congr (S := fun _ => True) (hload j)
        (fun o _ => linksOf_congr fun l _ => by rw [hload]) (fun _ _ _ _ _ _ => trivial)
        (fun _ _ _ _ => trivial)]
    intro id r hid hr hv
    have hr₂ : g₂.links.get id = some r := by
      rw [hother id fun he => hid (he ▸ hself)] at hr
      exact hr
    have hcase := hinv₂ id r hid hr₂ hv
    rw [hpath id] at hcase
    exact hcase
  · have hset₂ : SettledBelow V A g₂ link.objectKey := by
      have hset₁ : SettledBelow V A g link.objectKey := by
        refine hset _ (List.mem_append_right _ ?_)
        rw [if_neg hsame]
        exact List.mem_singleton.mpr rfl
      refine hset₁.of_fewer (fun id row hrow => hfewer₁ id row (hlinks₂ ▸ hrow)) fun m job hjob => ?_
      rw [← removeStaleLinks_pathJobs h₁] at hjob
      exact refreshMovedDirectory_keepsJobs h₂ m job hjob
    refine hinv₂.of_touched link.objectKey (fun id hid => hother id fun he => hid (he ▸ hself))
      (fun l hl => ?_) rfl (.of_eq rfl) hset₂
    by_cases hid : l.fileLinkId = link.fileLinkId
    · have hnew : loadLink (putLink g₂ link boundary gen) l.fileLinkId =
          some (storedLink link boundary) := by
        rw [hid, loadLink, putLink_links, Table.get_insert_self]
        rfl
      rw [hnew]
      constructor
      · intro hload
        obtain ⟨row, hrow, hst⟩ := loadLink_eq_some.mp hload
        have hobj := hbound row (by rw [← hlinks₂, ← hid]; exact hrow)
        rw [← hst] at hl
        exact absurd hobj hl
      · intro he
        rw [← Option.some.inj he] at hl
        exact absurd rfl hl
    · rw [loadLink, loadLink, hother _ hid]

theorem pathInvariant_applyMutation {m : GraphMutation} (hids : ∀ id ∈ affectedLinks g m, id ∈ A)
    (hinv : PathInvariant Q V g A) (hset : Settles V A g m)
    (h : applyMutation g m gen = .ok (g', n)) : PathInvariant Q V g' A := by
  by_cases hm : m.ChangesLinks
  · cases m with
    | upsertLink link boundary => exact pathInvariant_upsertLink hids hinv hset h
    | removeLink id object =>
      refine pathInvariant_removeLinkInternal (hids id List.mem_cons_self) hinv
        (fun hsome => hset object ?_) h
      simp [touchedObjects, hsome]
    | upsertVolume | setVolumeState | requireReconciliation | upsertObject | tombstoneObject =>
      exact hm.elim
  · have hrows := applyMutation_rows hm h
    refine hinv.of_frame ?_ ?_ (.of_eq ?_) <;> rw [hrows]

theorem applyMutations_affected {ms : List GraphMutation} {affected affected' : LinkSet}
    (h : applyMutations gen g affected ms = .ok (g', affected', n)) :
    affected.members ⊆ affected'.members := by
  refine applyMutations_induct (P := fun _ a => affected.members ⊆ a.members) ?_ h subset_rfl
  intro m _ g₁ affected₁ g₂ n₁ hsub _ id hid
  exact (LinkSet.get_addAll affected₁ (affectedLinks g₁ m) id).mpr (Or.inl (hsub hid))

/-- The links the loop gathers are exempt: they are synced before the commit. -/
theorem pathInvariant_applyMutations {ms : List GraphMutation} {affected affected' : LinkSet}
    (hids : affected'.members ⊆ A) (hinv : PathInvariant Q V g A)
    (hset : EachMutation (Settles V A) gen g ms)
    (h : applyMutations gen g affected ms = .ok (g', affected', n)) : PathInvariant Q V g' A := by
  induction ms generalizing g affected n with
  | nil =>
    obtain ⟨rfl, -⟩ := Prod.mk.inj (Except.ok.inj h)
    exact hinv
  | cons m ms ih =>
    simp only [applyMutations, bind_ok] at h
    obtain ⟨⟨g₁, n₁⟩, h₁, ⟨g₂, affected₂, n₂⟩, h₂, heq⟩ := h
    obtain ⟨rfl, rfl, -⟩ := Prod.mk.inj (Except.ok.inj heq) |>.imp id Prod.mk.inj
    refine ih (pathInvariant_applyMutation (fun id hid => ?_) hinv hset.1 h₁) (hset.2 g₁ n₁ h₁) h₂
    exact hids (applyMutations_affected h₂
      ((LinkSet.get_addAll affected (affectedLinks g m) id).mpr (Or.inr hid)))

end Mutations

/-- The object is a directory. -/
def DirectoryObject (g : FilesystemGraph) (o : FileKey) : Prop :=
  ∃ object, g.objects.get o = some object ∧ object.metadata.kind = .directory

/-- The mutation renames, moves or removes a link of a directory that has no
pending job, so that a job is inserted which has not started. -/
def QueuesNewJob (g : FilesystemGraph) : GraphMutation → Prop
  | .upsertLink link _ =>
      (∃ row, g.links.get link.fileLinkId = some row ∧ row.objectKey = link.objectKey ∧
        (row.parentKey ≠ link.parentKey ∨ row.name ≠ link.name)) ∧
      DirectoryObject g link.objectKey ∧ pathJobPending g link.objectKey = false
  | .removeLink id object =>
      (g.links.get id).isSome ∧ DirectoryObject g object ∧ pathJobPending g object = false
  | _ => False

/-- The batch finds or leaves a job of its volume that has not started, or every
link below an object whose links it changes is covered at that point, those in
`E` and those the batch itself syncs apart. -/
def BatchSettles (E : Set FileLinkId) (g : FilesystemGraph) (v : VolumeId)
    (ms : List GraphMutation) : Prop :=
  UnstartedJob g v ∨ SomeMutation QueuesNewJob (currentGeneration g v + 1) g ms ∨
    ∀ g' affected jobs,
      applyMutations (currentGeneration g v + 1) g .empty ms = .ok (g', affected, jobs) →
      EachMutation (Settles {v} (E ∪ affected.members)) (currentGeneration g v + 1) g ms

section Batches

variable {Q : Option String → Option String → Prop} {V : Set VolumeId} {g g' : FilesystemGraph}
  {A : Set FileLinkId} {gen n : Nat} {v : VolumeId}

theorem refreshMovedDirectory_queues {link : FileLinkSnapshot} {row : LinkRow} {object : ObjectRow}
    (hrow : g.links.get link.fileLinkId = some row) (hobj : row.objectKey = link.objectKey)
    (hmoved : row.parentKey ≠ link.parentKey ∨ row.name ≠ link.name)
    (hget : g.objects.get link.objectKey = some object) (hdir : object.metadata.kind = .directory) :
    refreshMovedDirectory g link gen = .ok (enqueueRefresh g link.objectKey gen) := by
  rw [refreshMovedDirectory, hrow]
  simp only [hobj, ne_eq, not_true_eq_false, if_false]
  rw [if_pos hmoved]
  exact bind_ok.mpr ⟨true, isDirectory_ok.mpr ⟨object, hget, by simp [hdir]⟩, rfl⟩

theorem queuesNewJob_unstarted {m : GraphMutation} (hq : QueuesNewJob g m) (hv : m.InVolume v)
    (h : applyMutation g m gen = .ok (g', n)) : UnstartedJob g' v := by
  cases m with
  | upsertLink link boundary =>
    obtain ⟨⟨row, hrow, hobj, hmoved⟩, ⟨object, hget, hdir⟩, hpending⟩ := hq
    obtain ⟨hsome, g₁, g₂, h₁, h₂, -, rfl⟩ := upsertLink_ok h
    have hrow₁ : g₁.links.get link.fileLinkId = some row := by
      rw [(removeStaleLinks_fewer h₁).1 _ (staleConflict_ne hrow hobj)]
      exact hrow
    obtain ⟨object₁, hget₁⟩ := Option.isSome_iff_exists.mp
      ((removeStaleLinks_isSome h₁ link.objectKey).trans hsome)
    obtain ⟨old, hold, hmeta, -⟩ := removeStaleLinks_fade h₁ _ _ hget₁
    obtain rfl : old = object := Option.some.inj (hold.symm.trans hget)
    rw [refreshMovedDirectory_queues hrow₁ hobj hmoved hget₁ (by rw [hmeta]; exact hdir)] at h₂
    obtain rfl : _ = g₂ := congrArg Prod.fst (Except.ok.inj h₂)
    have hpending₁ : pathJobPending g₁ link.objectKey = false := by
      rw [pathJobPending, removeStaleLinks_pathJobs h₁]
      exact hpending
    obtain ⟨k, hjob⟩ := enqueueRefresh_new hpending₁ gen
    exact ⟨k, _, hjob, rfl, hv.1, rfl⟩
  | removeLink id object =>
    obtain ⟨hsome, ⟨row, hget, hdir⟩, hpending⟩ := hq
    rcases removeLinkInternal_ok h with ⟨hnone, -⟩ | ⟨lrow, orow, hrow, hobj, hget', rfl⟩
    · rw [hnone] at hsome
      cases hsome
    · obtain rfl : orow = row := Option.some.inj (hget'.symm.trans hget)
      rw [if_pos ⟨rfl, hdir⟩]
      have hpending' : pathJobPending (dropLink g id object) object = false := by
        rw [pathJobPending, dropLink_frame]
        exact hpending
      obtain ⟨k, hjob⟩ := enqueueRefresh_new hpending' gen
      exact ⟨k, _, hjob, rfl, hv, rfl⟩
  | upsertVolume | setVolumeState | requireReconciliation | upsertObject | tombstoneObject =>
    exact hq.elim

theorem applyMutations_keepsJobs {ms : List GraphMutation} {affected affected' : LinkSet}
    (h : applyMutations gen g affected ms = .ok (g', affected', n)) : KeepsJobs g g' := by
  refine applyMutations_induct (P := fun h _ => KeepsJobs g h) ?_ h (.of_eq rfl)
  exact fun m _ g₁ _ g₂ _ hkeeps hstep k job hjob => applyMutation_keepsJobs hstep k job (hkeeps k job hjob)

/-- A batch that queues a job which has not started leaves one behind. -/
theorem applyMutations_unstarted {ms : List GraphMutation} {affected affected' : LinkSet}
    (hv : ∀ m ∈ ms, m.InVolume v) (hq : SomeMutation QueuesNewJob gen g ms)
    (h : applyMutations gen g affected ms = .ok (g', affected', n)) : UnstartedJob g' v := by
  induction ms generalizing g affected affected' n with
  | nil => exact hq.elim
  | cons m ms ih =>
    simp only [applyMutations, bind_ok] at h
    obtain ⟨⟨g₁, n₁⟩, h₁, ⟨g₂, affected₂, n₂⟩, h₂, heq⟩ := h
    obtain ⟨rfl, -⟩ := Prod.mk.inj (Except.ok.inj heq)
    rcases hq with hq | ⟨g₁', n₁', h₁', hq⟩
    · exact (queuesNewJob_unstarted hq (hv m List.mem_cons_self) h₁).mono (applyMutations_keepsJobs h₂)
    · obtain ⟨rfl, rfl⟩ := Prod.mk.inj (Except.ok.inj (h₁'.symm.trans h₁))
      exact ih (fun x hx => hv x (List.mem_cons_of_mem _ hx)) hq h₂

variable [CaseMapping] {mode : ProjectionOutboxMode}

/-- A fresh document stores the path of its link. -/
theorem Fresh.storedPath {id : FileLinkId} (h : Fresh g id) (hn : NamespaceWF g) (hc : CatalogWF g A) :
    storedPath g id = desiredPath g id := by
  cases hrow : g.catalog.get (documentIdForLink id) with
  | some row =>
    obtain ⟨path, hpath, hstored⟩ := h.path hc hrow
    rw [Graph.storedPath, hrow, Option.bind_some, hstored, desiredPath, hpath]
    rfl
  | none =>
    rw [Graph.storedPath, hrow, desiredPath]
    cases hpath : resolvePath g id projectionDepth with
    | error e => rfl
    | ok path =>
      have hsome := h.isSome hn hpath
      rw [hrow] at hsome
      cases hsome

theorem pathInvariant_syncLinks (hQ : ∀ p, Q p p) {ids : List FileLinkId} {B : Set FileLinkId}
    (hinv : PathInvariant Q V g A) (hn : NamespaceWF g) (hc : CatalogWF g B)
    (h : syncLinks g gen mode ids = .ok (g', n)) :
    PathInvariant Q V g' (A \ {id | id ∈ ids}) := by
  have hframe := syncLinks_frame h
  have hlinks : g'.links = g.links := by rw [hframe]
  have hjobs : g'.pathJobs = g.pathJobs := by rw [hframe]
  have hn' : NamespaceWF g' := by
    rw [hframe]
    exact ⟨hn.objectVolume, hn.linkObject, hn.linkParent, hn.slots⟩
  have hch : Changes True ⟨0⟩ gen mode (g, B) (g', B \ {id | id ∈ ids}) := syncLinks_changes h
  have hc' := hch.catalog hc
  intro id row hid hrow hv
  by_cases hmem : id ∈ ids
  · have hpath := (fresh_syncLinks hc h id hmem).storedPath hn' hc'
    rw [hpath]
    exact Or.inl (hQ _)
  · rw [storedPath, syncLinks_get_notMem h hmem, desiredPath_of_links hlinks]
    exact (hinv id row (fun hA => hid ⟨hA, hmem⟩) (hlinks ▸ hrow) hv).imp_right
      fun hcov => hcov.mono (.of_eq hjobs)

/-- The shared end of both batch lemmas: syncs and the bookkeeping rows. -/
theorem pathInvariant_commit (hQ : ∀ p, Q p p) {batch : GraphMutationBatch} {g₁ g₂ : FilesystemGraph}
    {affected : LinkSet} {jobs appended : Nat} (hwf : WellFormed g)
    (hms : ∀ m ∈ batch.mutations, m.InVolume batch.volumeId)
    (h₁ : applyMutations (currentGeneration g batch.volumeId + 1) g .empty batch.mutations =
      .ok (g₁, affected, jobs))
    (h₂ : syncLinks g₁ (currentGeneration g batch.volumeId + 1) mode (affected.rows.map (·.1)) =
      .ok (g₂, appended))
    (hinv : PathInvariant Q V g₁ (A ∪ affected.members)) :
    PathInvariant Q V (putCheckpoint (setGeneration g₂ batch.volumeId
      (currentGeneration g batch.volumeId + 1)) batch.volumeId
      (ProviderCheckpoint.row batch.checkpoint)) (A \ affected.members) := by
  have hch : Changes True batch.volumeId (currentGeneration g batch.volumeId + 1) mode
      (g, ∅) (g₁, affected.members) := batchMutations_changes hms (Or.inl trivial) h₁
  have hinv₂ := pathInvariant_syncLinks hQ hinv (hch.names hwf.names) (hch.catalog hwf.catalog) h₂
  refine PathInvariant.mono (hinv₂.of_frame rfl rfl (.of_eq rfl)) ?_
  rintro id ⟨hid | hid, hnot⟩
  · exact ⟨hid, fun hmem => hnot (LinkSet.mem_members.mp hmem)⟩
  · exact absurd (LinkSet.mem_members.mp hid) hnot

/-- A settling batch keeps the invariant on its own volume, and the links it
syncs are no longer exempt. -/
theorem pathInvariant_batch (hQ : ∀ p, Q p p) {batch : GraphMutationBatch} {summary : ApplySummary}
    (hwf : WellFormed g) (hinv : PathInvariant Q {batch.volumeId} g A)
    (hset : BatchSettles A g batch.volumeId batch.mutations)
    (h : applyBatchWithOutboxMode g batch mode = .ok (g', summary)) :
    ∃ g₁ affected jobs, applyMutations (currentGeneration g batch.volumeId + 1) g .empty
        batch.mutations = .ok (g₁, affected, jobs) ∧
      PathInvariant Q {batch.volumeId} g' (A \ affected.members) := by
  obtain ⟨-, hms, -, -, g₁, g₂, affected, jobs, appended, h₁, h₂, -, rfl⟩ :=
    applyBatchWithOutboxMode_ok h
  refine ⟨g₁, affected, jobs, h₁, ?_⟩
  have hcovered : UnstartedJob g₁ batch.volumeId → PathInvariant Q {batch.volumeId} (putCheckpoint
      (setGeneration g₂ batch.volumeId (currentGeneration g batch.volumeId + 1)) batch.volumeId
      (ProviderCheckpoint.row batch.checkpoint)) (A \ affected.members) := by
    intro hjob id row _ _ hv
    have hjobs : g₂.pathJobs = g₁.pathJobs := by rw [syncLinks_frame h₂]
    rw [Set.mem_singleton_iff.mp hv]
    exact Or.inr ((hjob.covered id).mono (.of_eq hjobs))
  rcases hset with hjob | hqueue | heach
  · exact hcovered (hjob.mono (applyMutations_keepsJobs h₁))
  · exact hcovered (applyMutations_unstarted hms hqueue h₁)
  · refine pathInvariant_commit hQ hwf hms h₁ h₂ (pathInvariant_applyMutations
      Set.subset_union_right (hinv.mono Set.subset_union_left) (heach g₁ affected jobs h₁) h₁)

omit [CaseMapping] in
/-- Outside a scan a mutation settles every other volume. -/
theorem settles_other {m : GraphMutation} (hn : NamespaceWF g) (hm : m.InVolume v)
    (hcut : scanCutoff g v = none) : Settles {v}ᶜ A g m := by
  have hbelow : ∀ o : FileKey, o.volumeId = v → SettledBelow {v}ᶜ A g o := fun o ho id row _ hb hrow hv =>
    absurd ((hb.volume hn hrow).trans ho) hv
  intro o ho
  cases m with
  | upsertLink link boundary =>
    have hnone : staleObservationLinkConflicts g link = [] := by
      rw [staleObservationLinkConflicts, hm.1, hcut]
    rw [touchedObjects, hnone, List.map_nil, List.nil_append] at ho
    split_ifs at ho
    · cases ho
    · rw [List.mem_singleton.mp ho]
      exact hbelow _ hm.1
  | removeLink id object =>
    simp only [touchedObjects] at ho
    split_ifs at ho
    · rw [List.mem_singleton.mp ho]
      exact hbelow _ hm
    · cases ho
  | upsertVolume | setVolumeState | requireReconciliation | upsertObject | tombstoneObject => cases ho

theorem eachMutation_other {ms : List GraphMutation} (hn : NamespaceWF g)
    (hv : ∀ m ∈ ms, m.InVolume v) (hcut : scanCutoff g v = none) (hle : currentGeneration g v ≤ gen) :
    EachMutation (Settles {v}ᶜ A) gen g ms := by
  induction ms generalizing g with
  | nil => trivial
  | cons m ms ih =>
    have hm := hv m List.mem_cons_self
    refine ⟨settles_other hn hm hcut, fun g₁ n₁ h₁ => ?_⟩
    have hch : Changes True v gen .durable (g, ∅) (g₁, ∅ ∪ {id | id ∈ affectedLinks g m}) :=
      applyMutation_changes hm (Or.inl trivial) hle h₁
    have hn₁ := hch.names hn
    have hcut₁ : scanCutoff g₁ v = none := by
      rw [scanCutoff, applyMutation_frame h₁]
      exact hcut
    exact ih hn₁ (fun x hx => hv x (List.mem_cons_of_mem _ hx)) hcut₁
      (currentGeneration_le_of_changes hch hle)

/-- Outside a scan a batch keeps the invariant on every other volume. -/
theorem pathInvariant_batch_other (hQ : ∀ p, Q p p) {batch : GraphMutationBatch}
    {summary : ApplySummary} (hwf : WellFormed g) (hinv : PathInvariant Q {batch.volumeId}ᶜ g ∅)
    (hcut : scanCutoff g batch.volumeId = none)
    (h : applyBatchWithOutboxMode g batch mode = .ok (g', summary)) :
    PathInvariant Q {batch.volumeId}ᶜ g' ∅ := by
  obtain ⟨-, hms, -, -, g₁, g₂, affected, jobs, appended, h₁, h₂, -, rfl⟩ :=
    applyBatchWithOutboxMode_ok h
  refine (pathInvariant_commit hQ hwf hms h₁ h₂ (pathInvariant_applyMutations
    Set.subset_union_right (hinv.mono Set.subset_union_left)
    (eachMutation_other hwf.names hms hcut (Nat.le_succ _)) h₁)).mono Set.sdiff_subset

end Batches

section Refresh

variable [CaseMapping] {Q : Option String → Option String → Prop} {V : Set VolumeId}
  {A : Set FileLinkId} {g g' : FilesystemGraph}

omit [CaseMapping] in
/-- A path page visits every link of the volume behind the cursor up to its last
one. -/
theorem pathRefreshPage_covers {v : VolumeId} {cursor : Option FileLinkId} {k : Nat} {id : FileLinkId}
    {row : LinkRow} (hrow : g.links.get id = some row) (hv : row.objectKey.volumeId = v)
    (hafter : Table.After cursor id) : id ∈ pathRefreshPage g v cursor k ∨
      (k ≤ (pathRefreshPage g v cursor k).length ∧
        ∀ last, (pathRefreshPage g v cursor k).getLast? = some last → last < id) := by
  have hp : (row.objectKey.volumeId == v) = true := beq_iff_eq.mpr hv
  have hcovers : (id, row) ∈ g.links.page (fun _ row => row.objectKey.volumeId == v) cursor k ∨
      ∀ x ∈ g.links.page (fun _ row => row.objectKey.volumeId == v) cursor k, x.1 < id :=
    Table.page_covers hrow hp hafter
  rcases hcovers with hmem | hlt
  · exact Or.inl (List.mem_map.mpr ⟨_, hmem, rfl⟩)
  · by_cases hshort : (pathRefreshPage g v cursor k).length < k
    · rw [pathRefreshPage, List.length_map] at hshort
      exact Or.inl (List.mem_map.mpr ⟨_, Table.mem_page_of_short hshort hrow hp hafter, rfl⟩)
    · refine Or.inr ⟨not_lt.mp hshort, fun last hlast => ?_⟩
      rw [pathRefreshPage, List.getLast?_map] at hlast
      obtain ⟨x, hx, rfl⟩ := Option.map_eq_some_iff.mp hlast
      exact hlt x (List.mem_of_getLast? hx)

omit [CaseMapping] in
/-- Moving a job past links that are right by now keeps the invariant. -/
theorem PathInvariant.advance {n : Nat} {job job' : PathJobRow} (hinv : PathInvariant Q V g A)
    (hget : g.pathJobs.get n = some job) (hroot : job'.rootObject = job.rootObject)
    (hpass : ∀ id row, g.links.get id = some row →
      row.objectKey.volumeId = job.rootObject.volumeId → Table.After job.projectionScanCursor id →
      Q (storedPath g id) (desiredPath g id) ∨
        (job'.state = .pending ∧ Table.After job'.projectionScanCursor id)) :
    PathInvariant Q V { g with pathJobs := g.pathJobs.insert n job' } A := by
  intro id row hid hrow hv
  have hlinks : ({ g with pathJobs := g.pathJobs.insert n job' } : FilesystemGraph).links =
    g.links := rfl
  rw [desiredPath_of_links hlinks]
  rcases hinv id row hid hrow hv with hfresh | ⟨n', old, hold, hpend, hvolume, hafter⟩
  · exact Or.inl hfresh
  · by_cases hn : n' = n
    · subst hn
      obtain rfl : old = job := Option.some.inj (hold.symm.trans hget)
      refine (hpass id row hrow hvolume.symm hafter).imp_right fun hnext => ?_
      exact ⟨n', job', Table.get_insert_self _ _ _, hnext.1, hroot ▸ hvolume, hnext.2⟩
    · exact Or.inr ⟨n', old, (Table.get_insert_ne _ _ hn).trans hold, hpend, hvolume, hafter⟩

theorem pathInvariant_refreshPaths (hQ : ∀ p, Q p p) {k : Nat} {summary : ProjectionRefreshSummary}
    (hwf : WellFormed g) (hinv : PathInvariant Q V g A)
    (h : refreshProjectionPaths g k = .ok (g', summary)) : PathInvariant Q V g' A := by
  rcases refreshProjectionPaths_ok h with ⟨-, rfl⟩ | ⟨n, job, volume, g₁, m, -, hjob, hvol, hsync, hend⟩
  · exact hinv
  · obtain ⟨hget, hpending⟩ := nextPathJob_eq_some hjob
    have hframe := syncLinks_frame hsync
    have hlinks : g₁.links = g.links := by rw [hframe]
    have hjobs : g₁.pathJobs = g.pathJobs := by rw [hframe]
    have hinv₁ := (pathInvariant_syncLinks hQ hinv hwf.names hwf.catalog hsync).mono Set.sdiff_subset
    have hwf₁ : CatalogWF g₁ ∅ := by
      have hch : Changes True ⟨0⟩ volume.generation .durable (g, ∅) (g₁, ∅ \ _) :=
        syncLinks_changes hsync
      rw [Set.empty_sdiff] at hch
      exact hch.catalog hwf.catalog
    have hn₁ : NamespaceWF g₁ := by
      rw [hframe]
      exact ⟨hwf.names.objectVolume, hwf.names.linkObject, hwf.names.linkParent, hwf.names.slots⟩
    -- a link the job had ahead of it is fresh now or still ahead of the page's end
    have hpass : ∀ id row, g₁.links.get id = some row →
        row.objectKey.volumeId = job.rootObject.volumeId → Table.After job.projectionScanCursor id →
        Q (storedPath g₁ id) (desiredPath g₁ id) ∨
          (k ≤ (pathRefreshPage g job.rootObject.volumeId job.projectionScanCursor k).length ∧
            ∀ last, (pathRefreshPage g job.rootObject.volumeId job.projectionScanCursor k).getLast? =
              some last → last < id) := by
      intro id row hrow hv hafter
      rw [hlinks] at hrow
      refine (pathRefreshPage_covers hrow hv hafter).imp_left fun hmem => ?_
      rw [(fresh_syncLinks hwf.catalog hsync id hmem).storedPath hn₁ hwf₁]
      exact hQ _
    have hget₁ : g₁.pathJobs.get n = some job := hjobs ▸ hget
    rcases hend with ⟨hshort, rfl⟩ | ⟨last, hlast, rfl⟩
    · refine hinv₁.advance hget₁ rfl fun id row hrow hv hafter => Or.inl ?_
      exact (hpass id row hrow hv hafter).resolve_right fun hlong => absurd hlong.1 (not_le.mpr hshort)
    · refine hinv₁.advance hget₁ rfl fun id row hrow hv hafter => ?_
      refine (hpass id row hrow hv hafter).imp_right fun hlong => ⟨hpending, ?_⟩
      exact Table.after_some.mpr (hlong.2 last hlast)

theorem pathInvariant_refreshVolume (hQ : ∀ p, Q p p) {k : Nat} {summary : ProjectionRefreshSummary}
    (hwf : WellFormed g) (hinv : PathInvariant Q V g A)
    (h : refreshVolumeProjection g k = .ok (g', summary)) : PathInvariant Q V g' A := by
  rcases refreshVolumeProjection_ok h with ⟨-, rfl⟩ | ⟨v, job, volume, g₁, n, -, -, -, hsync, hend⟩
  · exact hinv
  · have hinv₁ := (pathInvariant_syncLinks hQ hinv hwf.names hwf.catalog hsync).mono Set.sdiff_subset
    rcases hend with ⟨-, rfl⟩ | ⟨last, -, rfl⟩ <;> exact hinv₁.of_frame rfl rfl (.of_eq rfl)

/-- Calls of the two refresh queues. -/
def RefreshStep (op : GraphOp) (_ : FilesystemGraph) : Prop :=
  match op with
  | .refreshProjectionPaths _ | .refreshVolumeProjection _ => True
  | _ => False

theorem RefreshStep.run {op : GraphOp} (hop : RefreshStep op g) (h : op.run g = .ok g') :
    (∃ k summary, refreshProjectionPaths g k = .ok (g', summary)) ∨
      ∃ k summary, refreshVolumeProjection g k = .ok (g', summary) := by
  cases op with
  | refreshProjectionPaths k => exact Or.inl ⟨k, map_fst_ok.mp h⟩
  | refreshVolumeProjection k => exact Or.inr ⟨k, map_fst_ok.mp h⟩
  | applyBatch | applyRebuildableBatch | beginObservationScan | applyObservationScanPage
  | stageObservationCheckpoint | finalizeObservationScan | acknowledgeProjection
  | resetProjectionConsumer | pruneConsumedOutbox | pruneRebuildableOutboxBounded
  | completeRefreshJob | compactLegacyDesiredPayloadsBounded => exact hop.elim

/-- A refresh writes desired rows, the outbox and its own queue. -/
theorem refreshStep_frame (h : Step RefreshStep g g') :
    g' = { g with
      catalog := g'.catalog
      outbox := g'.outbox
      sqliteSequence := g'.sqliteSequence
      pathJobs := g'.pathJobs
      volumeJobs := g'.volumeJobs } := by
  obtain ⟨op, hop, hrun⟩ := h
  rcases hop.run hrun with ⟨k, summary, hcall⟩ | ⟨k, summary, hcall⟩
  · rcases refreshProjectionPaths_ok hcall with ⟨-, rfl⟩ | ⟨_, _, _, g₁, _, -, -, -, hsync, hend⟩
    · rfl
    · have hframe := syncLinks_frame hsync
      rcases hend with ⟨-, rfl⟩ | ⟨last, -, rfl⟩ <;> rw [hframe]
  · rcases refreshVolumeProjection_ok hcall with ⟨-, rfl⟩ | ⟨_, _, _, g₁, _, -, -, -, hsync, hend⟩
    · rfl
    · have hframe := syncLinks_frame hsync
      rcases hend with ⟨-, rfl⟩ | ⟨last, -, rfl⟩ <;> rw [hframe]

theorem pathInvariant_refresh (hQ : ∀ p, Q p p) (hwf : WellFormed g) (hinv : PathInvariant Q V g A)
    (h : Step RefreshStep g g') : PathInvariant Q V g' A := by
  obtain ⟨op, hop, hrun⟩ := h
  rcases hop.run hrun with ⟨k, summary, hcall⟩ | ⟨k, summary, hcall⟩
  · exact pathInvariant_refreshPaths hQ hwf hinv hcall
  · exact pathInvariant_refreshVolume hQ hwf hinv hcall

end Refresh

end LocalSearch.Graph
