import LocalSearch.Graph.Change

/-!
# Representation invariant of the durable graph

What the tables promise each other at every commit: rows refer to rows that
exist, a link never names a tombstoned object, no two links share a namespace
slot, and every desired document belongs to a link of the same object. The
invariant is proved for each row change, with the links that await a sync
exempt from the catalog part, and carried to whole transactions.
-/
namespace LocalSearch.Graph

set_option autoImplicit false

open Core Lib

/-- Two rows compete for one namespace slot. -/
def SharesSlot (row row' : LinkRow) : Prop :=
  row.name = row'.name ∧ row.parentKey = row'.parentKey ∧
    (row.parentKey = none → row.objectKey.volumeId = row'.objectKey.volumeId)

/-- Objects, links and the volumes they live on. -/
structure NamespaceWF (g : FilesystemGraph) : Prop where
  objectVolume : ∀ key row, g.objects.get key = some row → (g.volumes.get key.volumeId).isSome
  linkObject : ∀ id row, g.links.get id = some row →
    ∃ object, g.objects.get row.objectKey = some object ∧ object.tombstoned = false
  linkParent : ∀ id row, g.links.get id = some row →
    ∀ p ∈ row.parentKey, p.volumeId = row.objectKey.volumeId
  slots : ∀ id id' row row', g.links.get id = some row → g.links.get id' = some row' →
    SharesSlot row row' → id = id'

/-- Refresh jobs and scan sessions refer to known objects and volumes. -/
structure QueuesWF (g : FilesystemGraph) : Prop where
  pathJob : ∀ id job, g.pathJobs.get id = some job → (g.objects.get job.rootObject).isSome
  volumeJob : ∀ v job, g.volumeJobs.get v = some job → (g.volumes.get v).isSome
  session : ∀ v session, g.sessions.get v = some session →
    ∃ volume, g.volumes.get v = some volume ∧ session.scanGeneration ≤ volume.generation

/-- Every desired row is the compact row of a document for its own link, and
unless it awaits a sync its link is present and bound to the same object. -/
structure CatalogWF (g : FilesystemGraph) (A : Set FileLinkId) : Prop where
  compact : ∀ d row, g.catalog.get d = some row → ∃ document, row = compactRow document ∧
    document.identity.fileLinkId = linkOfDocument d ∧ document.identity.documentId = d
  link : ∀ id row, id ∉ A → g.catalog.get (documentIdForLink id) = some row →
    ∃ link, g.links.get id = some link ∧ link.objectKey = row.objectKey

/-- The same with `L` for the ways a document may be laid out in its row. -/
structure CatalogRows (L : CatalogDocument → CatalogRow → Prop) (g : FilesystemGraph)
    (A : Set FileLinkId) : Prop where
  stored : ∀ d row, g.catalog.get d = some row → ∃ document, L document row ∧
    document.identity.fileLinkId = linkOfDocument d ∧ document.identity.documentId = d
  link : ∀ id row, id ∉ A → g.catalog.get (documentIdForLink id) = some row →
    ∃ link, g.links.get id = some link ∧ link.objectKey = row.objectKey

/-- The row written by a sync. -/
def Compact (document : CatalogDocument) (row : CatalogRow) : Prop := row = compactRow document

theorem catalogWF_iff {g : FilesystemGraph} {A : Set FileLinkId} :
    CatalogWF g A ↔ CatalogRows Compact g A :=
  ⟨fun h => ⟨h.compact, h.link⟩, fun h => ⟨h.stored, h.link⟩⟩

/-- What a sync relies on of a row it finds. -/
structure Layout (L : CatalogDocument → CatalogRow → Prop) : Prop where
  compact : ∀ document, L document (compactRow document)
  identity : ∀ document row, L document row →
    row.objectKey = document.identity.objectKey ∧ row.fileLinkId = document.identity.fileLinkId
  unchanged : ∀ stored row, L stored row → ∀ document, contentUnchanged (some row) document =
    .ok (CatalogContent.ofDocument stored == CatalogContent.ofDocument document)

theorem layout_compact : Layout Compact := by
  refine ⟨fun _ => rfl, ?_, ?_⟩
  · rintro document row rfl
    exact ⟨rfl, rfl⟩
  · rintro stored row rfl document
    rfl

theorem compactRow_injective {a b : CatalogDocument} (h : compactRow a = compactRow b) : a = b := by
  obtain ⟨ia, va, na, pa, ea, ma⟩ := a
  obtain ⟨ib, vb, nb, pb, eb, mb⟩ := b
  simp only [compactRow, CatalogContent.ofDocument, CatalogRow.mk.injEq, Option.some.injEq,
    CatalogContent.mk.injEq] at h
  obtain ⟨-, -, rfl, -, rfl, rfl, rfl, -, rfl, rfl⟩ := h
  rfl

/-- Rows were observed no later than the ceiling of their volume. -/
structure Bounded (ceiling : VolumeId → Nat) (g : FilesystemGraph) : Prop where
  links : ∀ id row, g.links.get id = some row →
    row.observationGeneration ≤ ceiling row.objectKey.volumeId
  objects : ∀ key row, g.objects.get key = some row →
    row.observationGeneration ≤ ceiling key.volumeId

/-- The representation invariant at a commit. -/
structure WellFormed (g : FilesystemGraph) : Prop where
  names : NamespaceWF g
  queues : QueuesWF g
  catalog : CatalogWF g ∅
  bounded : Bounded (currentGeneration g) g

theorem wellFormed_empty : WellFormed .empty where
  names := ⟨fun _ _ h => (nomatch h), fun _ _ h => (nomatch h), fun _ _ h => (nomatch h),
    fun _ _ _ _ h => (nomatch h)⟩
  queues := ⟨fun _ _ h => (nomatch h), fun _ _ h => (nomatch h), fun _ _ h => (nomatch h)⟩
  catalog := ⟨fun _ _ h => (nomatch h), fun _ _ _ h => (nomatch h)⟩
  bounded := ⟨fun _ _ h => (nomatch h), fun _ _ h => (nomatch h)⟩

theorem slotTaken_eq_false {g : FilesystemGraph} {link : FileLinkSnapshot} :
    slotTaken g link = false ↔ ∀ id row, g.links.get id = some row → id ≠ link.fileLinkId →
      sameSlot row link = false := by
  rw [slotTaken, List.any_eq_false]
  constructor
  · intro h id row hrow hne
    have := h (id, row) (Table.mem_rows.mpr hrow)
    simpa [hne] using this
  · rintro h ⟨id, row⟩ hmem
    by_cases hne : id = link.fileLinkId
    · simp [hne]
    · simp [h id row (Table.mem_rows.mp hmem) hne]

theorem sameSlot_eq_true {row : LinkRow} {link : FileLinkSnapshot} :
    sameSlot row link = true ↔ row.name = link.name ∧ row.parentKey = link.parentKey ∧
      (link.parentKey = none → row.objectKey.volumeId = link.objectKey.volumeId) := by
  cases h : link.parentKey <;> simp [sameSlot, h, and_assoc]

theorem linksOf_eq_nil {g : FilesystemGraph} {o : FileKey} :
    linksOf g o = [] ↔ ∀ id row, g.links.get id = some row → row.objectKey ≠ o := by
  rw [List.eq_nil_iff_forall_not_mem]
  constructor
  · intro h id row hrow ho
    exact h (storedLinkFromRow id row) (mem_linksOf.mpr ⟨loadLink_eq_some.mpr ⟨row, hrow, rfl⟩, ho⟩)
  · intro h link hmem
    obtain ⟨hload, ho⟩ := mem_linksOf.mp hmem
    obtain ⟨row, hrow, hst⟩ := loadLink_eq_some.mp hload
    exact h _ row hrow (by rw [← ho, ← hst]; rfl)

/-- Object rows after a dropped link: only the object's mark may change, and it
is set only when the object has no link left. -/
theorem dropLink_get {g : FilesystemGraph} {id : FileLinkId} {o k : FileKey} {row : ObjectRow}
    (h : (dropLink g id o).objects.get k = some row) :
    ∃ old, g.objects.get k = some old ∧ row.metadata = old.metadata ∧
      row.observationGeneration = old.observationGeneration := by
  rcases dropLink_cases g id o with ⟨he, -⟩ | ⟨he, -⟩ <;> rw [he] at h
  · exact ⟨row, h, rfl, rfl⟩
  · rw [setTombstoned_get] at h
    split_ifs at h
    · obtain ⟨old, hold, rfl⟩ := Option.map_eq_some_iff.mp h
      exact ⟨old, hold, rfl, rfl⟩
    · exact ⟨row, h, rfl, rfl⟩

theorem dropLink_keeps {g : FilesystemGraph} {id id' : FileLinkId} {o : FileKey} {row : LinkRow}
    {object : ObjectRow} (hne : id' ≠ id) (hrow : g.links.get id' = some row)
    (hobj : g.objects.get row.objectKey = some object) :
    (dropLink g id o).objects.get row.objectKey = some object := by
  rcases dropLink_cases g id o with ⟨he, -⟩ | ⟨he, hnil⟩ <;> rw [he]
  · exact hobj
  · have hne' : row.objectKey ≠ o :=
      linksOf_eq_nil.mp hnil id' row (by rw [Table.get_erase, if_neg hne]; exact hrow)
    rw [setTombstoned_get, if_neg hne']
    exact hobj

variable [CaseMapping] {R : Prop} {v : VolumeId} {gen : Nat} {mode : ProjectionOutboxMode}

/-- Volumes are never forgotten and their generations never fall. -/
theorem volumes_mono_of_change {s s' : Dirty} (h : Change R v gen mode s s') {w : VolumeId}
    {row : VolumeRow} (hw : s.1.volumes.get w = some row) :
    ∃ row', s'.1.volumes.get w = some row' ∧ row.generation ≤ row'.generation := by
  cases h with
  | upsertVolume descriptor hv hopen =>
    by_cases hd : w = descriptor.volumeId
    · subst hd
      exact ⟨_, Table.get_insert_self _ _ _, by simp [hw]⟩
    · exact ⟨row, (Table.get_insert_ne _ _ hd).trans hw, le_rfl⟩
  | transition row' hlow hhigh =>
    by_cases hd : w = v
    · subst hd
      exact ⟨row', Table.get_insert_self _ _ _, by simpa [currentGeneration, hw] using hlow⟩
    · exact ⟨row, (Table.get_insert_ne _ _ hd).trans hw, le_rfl⟩
  | setGeneration hle =>
    simp only [Graph.setGeneration, Table.get_modify, hw]
    split_ifs with hd
    · subst hd
      exact ⟨_, rfl, by simpa [currentGeneration, hw] using hle⟩
    · exact ⟨row, rfl, le_rfl⟩
  | upsertObject object hv h =>
    simp only [Graph.upsertObject, guard_ok] at h
    obtain rfl := Except.ok.inj h.2.2
    exact ⟨row, hw, le_rfl⟩
  | @dropLink g A id row h =>
    refine ⟨_, ?_, le_rfl⟩
    rcases dropLink_cases g id row.objectKey with ⟨h, -⟩ | ⟨h, -⟩ <;> rw [h] <;> exact hw
  | @enqueueRefresh g A object h => rw [enqueueRefresh_frame]; exact ⟨row, hw, le_rfl⟩
  | sync h => rw [syncCatalogProjection_frame h]; exact ⟨row, hw, le_rfl⟩
  | putLink | tombstone | advancePathJob | advanceVolumeJob | putSession | eraseSession
  | putCheckpoint | widen => exact ⟨row, hw, le_rfl⟩

theorem volumes_isSome_of_change {s s' : Dirty} (h : Change R v gen mode s s') {w : VolumeId}
    (hw : (s.1.volumes.get w).isSome) : (s'.1.volumes.get w).isSome := by
  obtain ⟨row, hrow⟩ := Option.isSome_iff_exists.mp hw
  obtain ⟨row', hrow', -⟩ := volumes_mono_of_change h hrow
  exact Option.isSome_iff_exists.mpr ⟨row', hrow'⟩

/-- Objects are tombstoned, never deleted. -/
theorem objects_isSome_of_change {s s' : Dirty} (h : Change R v gen mode s s') {k : FileKey}
    (hk : (s.1.objects.get k).isSome) : (s'.1.objects.get k).isSome := by
  cases h with
  | upsertObject object hv h =>
    simp only [Graph.upsertObject, guard_ok] at h
    obtain rfl := Except.ok.inj h.2.2
    simp only [Table.get_insert]
    split_ifs
    · rfl
    · exact hk
  | dropLink h => rw [dropLink_isSome]; exact hk
  | putLink link boundary => exact (setTombstoned_isSome _ _ _ _).trans hk
  | tombstone h => exact (setTombstoned_isSome _ _ _ _).trans hk
  | enqueueRefresh => rw [enqueueRefresh_frame]; exact hk
  | sync h => rw [syncCatalogProjection_frame h]; exact hk
  | upsertVolume | transition | setGeneration | advancePathJob | advanceVolumeJob | putSession
  | eraseSession | putCheckpoint | widen => exact hk

omit [CaseMapping] in
theorem NamespaceWF.of_frame {g g' : FilesystemGraph} (hwf : NamespaceWF g)
    (hobjects : g'.objects = g.objects) (hlinks : g'.links = g.links)
    (hvolumes : ∀ w, (g.volumes.get w).isSome → (g'.volumes.get w).isSome) : NamespaceWF g' where
  objectVolume key row h := hvolumes _ (hwf.objectVolume key row (hobjects ▸ h))
  linkObject id row h := by rw [hobjects]; exact hwf.linkObject id row (hlinks ▸ h)
  linkParent id row h := hwf.linkParent id row (hlinks ▸ h)
  slots id id' row row' h h' := hwf.slots id id' row row' (hlinks ▸ h) (hlinks ▸ h')

omit [CaseMapping] in
theorem namespaceWF_dropLink {g : FilesystemGraph} (hwf : NamespaceWF g) (id : FileLinkId)
    (o : FileKey) : NamespaceWF (dropLink g id o) where
  objectVolume key row h := by
    obtain ⟨old, hold, -, -⟩ := dropLink_get h
    have hvol : (dropLink g id o).volumes = g.volumes := by
      rcases dropLink_cases g id o with ⟨he, -⟩ | ⟨he, -⟩ <;> rw [he]
      rfl
    rw [hvol]
    exact hwf.objectVolume key old hold
  linkObject id' row h := by
    rw [dropLink_links, Table.get_erase] at h
    split_ifs at h with hne
    obtain ⟨object, hobj, hlive⟩ := hwf.linkObject id' row h
    exact ⟨object, dropLink_keeps hne h hobj, hlive⟩
  linkParent id' row h := by
    rw [dropLink_links, Table.get_erase] at h
    split_ifs at h
    exact hwf.linkParent id' row h
  slots id₁ id₂ row₁ row₂ h₁ h₂ := by
    rw [dropLink_links, Table.get_erase] at h₁ h₂
    split_ifs at h₁ h₂
    exact hwf.slots id₁ id₂ row₁ row₂ h₁ h₂

omit [CaseMapping] in
theorem namespaceWF_putLink {g : FilesystemGraph} (hwf : NamespaceWF g) {link : FileLinkSnapshot}
    (boundary : Bool) (gen : Nat) (hobject : (g.objects.get link.objectKey).isSome)
    (hparent : ∀ p ∈ link.parentKey, p.volumeId = link.objectKey.volumeId)
    (hslot : slotTaken g link = false) : NamespaceWF (putLink g link boundary gen) where
  objectVolume key row h := by
    have hsome : (g.objects.get key).isSome := by
      rw [← setTombstoned_isSome { g with links := _ } link.objectKey key false]
      exact Option.isSome_iff_exists.mpr ⟨row, h⟩
    obtain ⟨old, hold⟩ := Option.isSome_iff_exists.mp hsome
    exact hwf.objectVolume key old hold
  linkObject id row h := by
    obtain ⟨object, hobj⟩ := Option.isSome_iff_exists.mp hobject
    have hget : ∀ k, (putLink g link boundary gen).objects.get k =
        if k = link.objectKey then (g.objects.get k).map fun r => { r with tombstoned := false }
        else g.objects.get k := fun k => setTombstoned_get _ _ _ _
    rw [hget]
    by_cases hk : row.objectKey = link.objectKey
    · exact ⟨{ object with tombstoned := false }, by rw [if_pos hk, hk, hobj]; rfl, rfl⟩
    · rw [putLink_links, Table.get_insert] at h
      split_ifs at h with hid
      · exact absurd (congrArg LinkRow.objectKey (Option.some.inj h).symm) hk
      · rw [if_neg hk]
        exact hwf.linkObject id row h
  linkParent id row h := by
    rw [putLink_links, Table.get_insert] at h
    split_ifs at h with hid
    · obtain rfl := Option.some.inj h
      exact hparent
    · exact hwf.linkParent id row h
  slots id₁ id₂ row₁ row₂ h₁ h₂ hs := by
    have hfree := slotTaken_eq_false.mp hslot
    rw [putLink_links, Table.get_insert] at h₁ h₂
    obtain ⟨hname, hpar, hvol⟩ := hs
    split_ifs at h₁ h₂ with hid₁ hid₂ hid₂
    · rw [hid₁, hid₂]
    · obtain rfl := Option.some.inj h₁
      have := hfree id₂ row₂ h₂ hid₂
      rw [sameSlot_eq_true.mpr ⟨hname.symm, hpar.symm, fun hn => (hvol hn).symm⟩] at this
      cases this
    · obtain rfl := Option.some.inj h₂
      have := hfree id₁ row₁ h₁ hid₁
      rw [sameSlot_eq_true.mpr ⟨hname, hpar, fun hn => hvol (hpar.trans hn)⟩] at this
      cases this
    · exact hwf.slots id₁ id₂ row₁ row₂ h₁ h₂ ⟨hname, hpar, hvol⟩

theorem namespaceWF_of_change {s s' : Dirty} (h : Change R v gen mode s s') (hwf : NamespaceWF s.1) :
    NamespaceWF s'.1 := by
  have hvolumes := fun w => @volumes_isSome_of_change _ R v gen mode s s' h w
  cases h with
  | @upsertObject g g' A object hv h =>
    simp only [Graph.upsertObject, guard_ok] at h
    obtain ⟨-, hvol, heq⟩ := h
    obtain rfl := Except.ok.inj heq
    refine ⟨fun key row h => ?_, fun id row h => ?_, hwf.linkParent, hwf.slots⟩
    · simp only [Table.get_insert] at h
      split_ifs at h with hk
      · rw [hk]
        exact Option.isSome_iff_ne_none.mpr (by simpa using hvol)
      · exact hwf.objectVolume key row h
    · simp only [Table.get_insert]
      split_ifs with hk
      · exact ⟨_, rfl, rfl⟩
      · exact hwf.linkObject id row h
  | @dropLink g A id row h => exact namespaceWF_dropLink hwf id row.objectKey
  | putLink link boundary hv hparent hobject hbound hslot =>
    exact namespaceWF_putLink hwf boundary gen hobject (fun p hp => (hparent p hp).trans hv.symm) hslot
  | @tombstone g A object h =>
    refine ⟨fun key row hrow => ?_, fun id row hrow => ?_, hwf.linkParent, hwf.slots⟩
    · have hsome : (g.objects.get key).isSome := by
        rw [← setTombstoned_isSome g object key true]
        exact Option.isSome_iff_exists.mpr ⟨row, hrow⟩
      obtain ⟨old, hold⟩ := Option.isSome_iff_exists.mp hsome
      exact hwf.objectVolume key old hold
    · rw [setTombstoned_get, if_neg (linksOf_eq_nil.mp h id row hrow)]
      exact hwf.linkObject id row hrow
  | @enqueueRefresh g A object h =>
    rw [enqueueRefresh_frame] at hvolumes ⊢
    exact hwf.of_frame rfl rfl hvolumes
  | sync h =>
    rw [syncCatalogProjection_frame h] at hvolumes ⊢
    exact hwf.of_frame rfl rfl hvolumes
  | upsertVolume | transition | setGeneration | advancePathJob | advanceVolumeJob | putSession
  | eraseSession | putCheckpoint | widen => exact hwf.of_frame rfl rfl hvolumes

omit [CaseMapping] in
/-- A queued path refresh is the job of the enqueued object or was there. -/
theorem enqueueRefresh_get {g : FilesystemGraph} {o : FileKey} {gen id : Nat} {job : PathJobRow}
    (h : (enqueueRefresh g o gen).1.pathJobs.get id = some job) :
    g.pathJobs.get id = some job ∨ job = ⟨o, gen, none, .pending⟩ := by
  unfold enqueueRefresh at h
  split_ifs at h
  · exact Or.inl h
  · simp only [Table.get_insert] at h
    split_ifs at h
    · exact Or.inr (Option.some.inj h).symm
    · exact Or.inl h

theorem queuesWF_of_change {s s' : Dirty} (h : Change R v gen mode s s') (hwf : QueuesWF s.1) :
    QueuesWF s'.1 := by
  have hvol := fun w row => @volumes_mono_of_change _ R v gen mode s s' h w row
  have hsome := fun w => @volumes_isSome_of_change _ R v gen mode s s' h w
  have hobj := fun k => @objects_isSome_of_change _ R v gen mode s s' h k
  have hsession : ∀ w session, s.1.sessions.get w = some session →
      ∃ volume, s'.1.volumes.get w = some volume ∧ session.scanGeneration ≤ volume.generation := by
    intro w session hs
    obtain ⟨volume, hget, hle⟩ := hwf.session w session hs
    obtain ⟨volume', hget', hle'⟩ := hvol w volume hget
    exact ⟨volume', hget', hle.trans hle'⟩
  have hframe : s'.1.pathJobs = s.1.pathJobs → s'.1.volumeJobs = s.1.volumeJobs →
      s'.1.sessions = s.1.sessions → QueuesWF s'.1 := fun hp hj hs =>
    ⟨fun id job h => hobj _ (hwf.pathJob id job (hp ▸ h)),
      fun w job h => hsome _ (hwf.volumeJob w job (hj ▸ h)),
      fun w session h => hsession w session (hs ▸ h)⟩
  cases h with
  | transition row hlow hhigh =>
    refine ⟨fun id job h => hobj _ (hwf.pathJob id job h), fun w job h => ?_, hsession⟩
    by_cases hw : w = v
    · subst hw
      exact Option.isSome_iff_exists.mpr ⟨row, Table.get_insert_self _ _ _⟩
    · exact hsome w (hwf.volumeJob w job ((Table.get_insert_ne _ _ hw).symm.trans h))
  | @enqueueRefresh g A object hobject =>
    refine ⟨fun id job h => hobj _ ?_, fun w job h => hsome _ (hwf.volumeJob w job ?_),
      fun w session h => hsession w session ?_⟩
    · rcases enqueueRefresh_get h with h | rfl
      · exact hwf.pathJob id job h
      · exact hobject
    · rw [enqueueRefresh_frame] at h; exact h
    · rw [enqueueRefresh_frame] at h; exact h
  | @advancePathJob g A id job job' hget hroot =>
    refine ⟨fun id' row h => hobj _ ?_, fun w job h => hsome _ (hwf.volumeJob w job h), hsession⟩
    simp only [Table.get_insert] at h
    split_ifs at h
    · obtain rfl := Option.some.inj h
      rw [hroot]
      exact hwf.pathJob id job hget
    · exact hwf.pathJob id' row h
  | @advanceVolumeJob g A job job' hget hpass =>
    refine ⟨fun id job h => hobj _ (hwf.pathJob id job h), fun w row h => hsome _ ?_, hsession⟩
    simp only [Table.get_insert] at h
    split_ifs at h with hw
    · rw [hw]
      exact hwf.volumeJob v job hget
    · exact hwf.volumeJob w row h
  | putSession row hrow =>
    refine ⟨fun id job h => hobj _ (hwf.pathJob id job h),
      fun w job h => hsome _ (hwf.volumeJob w job h), fun w session h => ?_⟩
    simp only [Table.get_insert] at h
    split_ifs at h with hw
    · obtain rfl := Option.some.inj h
      rw [hw]
      exact hrow
    · exact hwf.session w session h
  | eraseSession =>
    refine ⟨fun id job h => hobj _ (hwf.pathJob id job h),
      fun w job h => hsome _ (hwf.volumeJob w job h), fun w session h => ?_⟩
    simp only [Table.get_erase] at h
    split_ifs at h
    exact hwf.session w session h
  | upsertObject object hv h =>
    simp only [Graph.upsertObject, guard_ok] at h
    obtain rfl := Except.ok.inj h.2.2
    exact hframe rfl rfl rfl
  | @dropLink g A id row h =>
    rcases dropLink_cases g id row.objectKey with ⟨he, -⟩ | ⟨he, -⟩ <;> rw [he] at hframe ⊢ <;>
      exact hframe rfl rfl rfl
  | sync h =>
    rw [syncCatalogProjection_frame h] at hframe ⊢
    exact hframe rfl rfl rfl
  | upsertVolume | setGeneration | putLink | tombstone | putCheckpoint | widen =>
    exact hframe rfl rfl rfl

/-- The identity of a built document is the identity of its link. -/
theorem buildCatalogDocument_identity {g : FilesystemGraph} {link : StoredLink} {version : Nat}
    {document : CatalogDocument} (h : buildCatalogDocument g link version = .ok document) :
    document.identity = ⟨link.objectKey, link.fileLinkId, documentIdForLink link.fileLinkId⟩ := by
  obtain ⟨_, _, _, -, -, -, -, rfl⟩ := buildCatalogDocument_ok h
  rfl

/-- A link builds its own document, at the generation of its sync. -/
theorem buildCatalogDocument_own {g : FilesystemGraph} {id : FileLinkId} {link : StoredLink}
    {version : Nat} {document : CatalogDocument} (hlink : loadLink g id = some link)
    (h : buildCatalogDocument g link version = .ok document) :
    document.identity.documentId = documentIdForLink id ∧ document.documentVersion = version := by
  obtain ⟨row, -, rfl⟩ := loadLink_eq_some.mp hlink
  obtain ⟨_, _, _, -, -, -, -, rfl⟩ := buildCatalogDocument_ok h
  exact ⟨rfl, rfl⟩

section Rows

variable {L : CatalogDocument → CatalogRow → Prop}

/-- A synced row holds the content of the document its link now builds. -/
theorem CatalogRows.sync_get (hL : Layout L) {g g' : FilesystemGraph} {id : FileLinkId} {gen n : Nat}
    {mode : ProjectionOutboxMode} {A : Set FileLinkId} (hwf : CatalogRows L g A)
    (h : syncCatalogProjection g id gen mode = .ok (g', n)) {row : CatalogRow}
    (hrow : g'.catalog.get (documentIdForLink id) = some row) :
    ∃ link document stored, loadLink g id = some link ∧
      buildCatalogDocument g link gen = .ok document ∧ L stored row ∧
      CatalogContent.ofDocument stored = CatalogContent.ofDocument document := by
  rcases syncCatalogProjection_ok h with ⟨-, h⟩ | ⟨link, document, hlink, hbuild, hun, rfl⟩ |
    ⟨link, document, hlink, hbuild, -, h⟩
  · obtain rfl : _ = g' := congrArg Prod.fst h
    rw [deleteCatalogProjection_catalog, Table.get_erase, if_pos rfl] at hrow
    cases hrow
  · obtain ⟨stored, hstored, -, -⟩ := hwf.stored _ row hrow
    rw [hrow, hL.unchanged stored row hstored] at hun
    exact ⟨link, document, stored, hlink, hbuild, hstored, beq_iff_eq.mp (Except.ok.inj hun)⟩
  · obtain rfl : _ = g' := congrArg Prod.fst h
    rw [putCatalogDocument_catalog, (buildCatalogDocument_own hlink hbuild).1,
      Table.get_insert_self] at hrow
    obtain rfl := Option.some.inj hrow
    exact ⟨_, document, document, hlink, hbuild, hL.compact document, rfl⟩

theorem CatalogRows.sync (hL : Layout L) {g g' : FilesystemGraph} {A : Set FileLinkId}
    {id : FileLinkId} {n : Nat} (hwf : CatalogRows L g A)
    (h : syncCatalogProjection g id gen mode = .ok (g', n)) : CatalogRows L g' (A \ {id}) := by
  have hlinks : g'.links = g.links := by rw [syncCatalogProjection_frame h]
  have hself : ∀ row, g'.catalog.get (documentIdForLink id) = some row → ∃ lrow stored,
      g.links.get id = some lrow ∧ L stored row ∧
      stored.identity = ⟨lrow.objectKey, id, documentIdForLink id⟩ := by
    intro row hrow
    obtain ⟨link, document, stored, hlink, hbuild, hstored, hcontent⟩ := hwf.sync_get hL h hrow
    obtain ⟨lrow, hget, rfl⟩ := loadLink_eq_some.mp hlink
    refine ⟨lrow, stored, hget, hstored, ?_⟩
    have hid := congrArg CatalogContent.identity hcontent
    simp only [CatalogContent.ofDocument, buildCatalogDocument_identity hbuild] at hid
    exact hid
  refine ⟨fun d row hrow => ?_, fun j row hj hrow => ?_⟩
  · by_cases hd : d = documentIdForLink id
    · subst hd
      obtain ⟨lrow, stored, -, hstored, hid⟩ := hself row hrow
      exact ⟨stored, hstored, by rw [hid]; rfl, by rw [hid]⟩
    · exact hwf.stored d row (syncCatalogProjection_get_ne h hd ▸ hrow)
  · rw [hlinks]
    by_cases hji : j = id
    · subst hji
      obtain ⟨lrow, stored, hget, hstored, hid⟩ := hself row hrow
      exact ⟨lrow, hget, by rw [(hL.identity stored row hstored).1, hid]⟩
    · have hd : documentIdForLink j ≠ documentIdForLink id :=
        fun he => hji (documentIdForLink_injective he)
      exact hwf.link j row (fun hA => hj ⟨hA, hji⟩) (syncCatalogProjection_get_ne h hd ▸ hrow)

theorem CatalogRows.of_change (hL : Layout L) {s s' : Dirty} (h : Change R v gen mode s s')
    (hwf : CatalogRows L s.1 s.2) : CatalogRows L s'.1 s'.2 := by
  cases h with
  | @upsertObject g g' A object hv h =>
    simp only [Graph.upsertObject, guard_ok] at h
    obtain rfl := Except.ok.inj h.2.2
    exact ⟨hwf.stored, fun id row hid hrow => hwf.link id row (fun hA => hid (Or.inl hA)) hrow⟩
  | @dropLink g A id row h =>
    have hcat : (dropLink g id row.objectKey).catalog = g.catalog := by
      rcases dropLink_cases g id row.objectKey with ⟨he, -⟩ | ⟨he, -⟩ <;> rw [he]
      rfl
    refine ⟨fun d r hr => hwf.stored d r (hcat ▸ hr), fun j r hj hr => ?_⟩
    have hne : j ≠ id := fun he => hj (Or.inr he)
    rw [dropLink_links, Table.get_erase, if_neg hne]
    exact hwf.link j r (fun hA => hj (Or.inl hA)) (hcat ▸ hr)
  | @putLink g A link boundary hv hparent hobject hbound hslot =>
    refine ⟨hwf.stored, fun j r hj hr => ?_⟩
    have hne : j ≠ link.fileLinkId := fun he => hj (Or.inr he)
    rw [putLink_links, Table.get_insert_ne _ _ hne]
    exact hwf.link j r (fun hA => hj (Or.inl hA)) hr
  | @enqueueRefresh g A object h =>
    rw [enqueueRefresh_frame]
    exact ⟨hwf.stored, hwf.link⟩
  | sync h => exact hwf.sync hL h
  | widen h => exact ⟨hwf.stored, fun id row hid => hwf.link id row fun hA => hid (h hA)⟩
  | upsertVolume | transition | setGeneration | tombstone | advancePathJob | advanceVolumeJob
  | putSession | eraseSession | putCheckpoint => exact ⟨hwf.stored, hwf.link⟩

end Rows

theorem catalogWF_sync {g g' : FilesystemGraph} {A : Set FileLinkId} {id : FileLinkId} {n : Nat}
    (hwf : CatalogWF g A) (h : syncCatalogProjection g id gen mode = .ok (g', n)) :
    CatalogWF g' (A \ {id}) :=
  catalogWF_iff.mpr ((catalogWF_iff.mp hwf).sync layout_compact h)

theorem catalogWF_of_change {s s' : Dirty} (h : Change R v gen mode s s') (hwf : CatalogWF s.1 s.2) :
    CatalogWF s'.1 s'.2 :=
  catalogWF_iff.mpr ((catalogWF_iff.mp hwf).of_change layout_compact h)

theorem Changes.names {s s' : Dirty} (h : Changes R v gen mode s s') (hn : NamespaceWF s.1) :
    NamespaceWF s'.1 :=
  Changes.induct (P := fun s => NamespaceWF s.1) (fun _ _ => namespaceWF_of_change) h hn

theorem Changes.queues {s s' : Dirty} (h : Changes R v gen mode s s') (hq : QueuesWF s.1) :
    QueuesWF s'.1 :=
  Changes.induct (P := fun s => QueuesWF s.1) (fun _ _ => queuesWF_of_change) h hq

theorem Changes.catalogRows {L : CatalogDocument → CatalogRow → Prop} (hL : Layout L) {s s' : Dirty}
    (h : Changes R v gen mode s s') (hc : CatalogRows L s.1 s.2) :
    CatalogRows L s'.1 s'.2 :=
  Changes.induct (P := fun s => CatalogRows L s.1 s.2) (fun _ _ hchange hs => hs.of_change hL hchange) h
    hc

theorem Changes.catalog {s s' : Dirty} (h : Changes R v gen mode s s') (hc : CatalogWF s.1 s.2) :
    CatalogWF s'.1 s'.2 :=
  Changes.induct (P := fun s => CatalogWF s.1 s.2) (fun _ _ => catalogWF_of_change) h hc

theorem bounded_of_change {ceiling : VolumeId → Nat} (hgen : gen ≤ ceiling v) {s s' : Dirty}
    (h : Change R v gen mode s s') (hb : Bounded ceiling s.1) : Bounded ceiling s'.1 := by
  cases h with
  | @upsertObject g g' A object hv h =>
    simp only [Graph.upsertObject, guard_ok] at h
    obtain rfl := Except.ok.inj h.2.2
    refine ⟨hb.links, fun key row hrow => ?_⟩
    simp only [Table.get_insert] at hrow
    split_ifs at hrow with hk
    · obtain rfl := Option.some.inj hrow
      rw [hk, hv]
      exact hgen
    · exact hb.objects key row hrow
  | @dropLink g A id row h =>
    refine ⟨fun j r hr => ?_, fun key r hr => ?_⟩
    · rw [dropLink_links, Table.get_erase] at hr
      split_ifs at hr
      exact hb.links j r hr
    · obtain ⟨old, hold, -, hobs⟩ := dropLink_get hr
      rw [hobs]
      exact hb.objects key old hold
  | @putLink g A link boundary hv hparent hobject hbound hslot =>
    refine ⟨fun j r hr => ?_, fun key r hr => ?_⟩
    · rw [putLink_links, Table.get_insert] at hr
      split_ifs at hr
      · obtain rfl := Option.some.inj hr
        rw [hv]
        exact hgen
      · exact hb.links j r hr
    · rw [Graph.putLink, setTombstoned_get] at hr
      split_ifs at hr
      · obtain ⟨old, hold, rfl⟩ := Option.map_eq_some_iff.mp hr
        exact hb.objects key old hold
      · exact hb.objects key r hr
  | @tombstone g A object h =>
    refine ⟨hb.links, fun key r hr => ?_⟩
    rw [setTombstoned_get] at hr
    split_ifs at hr
    · obtain ⟨old, hold, rfl⟩ := Option.map_eq_some_iff.mp hr
      exact hb.objects key old hold
    · exact hb.objects key r hr
  | @enqueueRefresh g A object h =>
    rw [enqueueRefresh_frame]
    exact ⟨hb.links, hb.objects⟩
  | sync h =>
    rw [syncCatalogProjection_frame h]
    exact ⟨hb.links, hb.objects⟩
  | upsertVolume | transition | setGeneration | advancePathJob | advanceVolumeJob | putSession
  | eraseSession | putCheckpoint | widen => exact ⟨hb.links, hb.objects⟩

end LocalSearch.Graph
