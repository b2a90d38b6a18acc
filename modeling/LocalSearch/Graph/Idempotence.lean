import LocalSearch.Graph.Writes

/-!
# Applying a batch twice

A batch is documented as an ordered, idempotent set of changes. Its writes are
absolute, so where the second application is accepted it leaves links, metadata
and volumes as they are, and no document is out of date. What the second
application can trip over is a link that the batch itself observes later on: it
already stands when the earlier mutations are applied again. And an object that
the batch observes before it removes its links comes back to life, because the
second time there is no link left whose removal would tombstone it.
-/
namespace LocalSearch.Graph

set_option autoImplicit false

open Core Lib

/-- Two graphs agree on links, objects and volumes up to the generations their
rows carry. -/
structure SameContent (g g' : FilesystemGraph) : Prop where
  links : loadLink g' = loadLink g
  metadata : metadataOf g' = metadataOf g
  tombstones : ∀ key, Tombstoned g' key ↔ Tombstoned g key
  descriptors : volumeColumn (·.descriptor) g' = volumeColumn (·.descriptor) g
  states : volumeColumn (·.state) g' = volumeColumn (·.state) g
  reasons : volumeColumn (·.reconciliationReason) g' = volumeColumn (·.reconciliationReason) g

namespace SameContent

variable {g g' g'' : FilesystemGraph}

theorem symm (h : SameContent g g') : SameContent g' g :=
  ⟨h.links.symm, h.metadata.symm, fun key => (h.tombstones key).symm, h.descriptors.symm,
    h.states.symm, h.reasons.symm⟩

theorem trans (h : SameContent g g') (h' : SameContent g' g'') : SameContent g g'' :=
  ⟨h'.links.trans h.links, h'.metadata.trans h.metadata,
    fun key => (h'.tombstones key).trans (h.tombstones key), h'.descriptors.trans h.descriptors,
    h'.states.trans h.states, h'.reasons.trans h.reasons⟩

/-- Writes to other tables than links, objects and volumes. -/
theorem of_tables (hlinks : g'.links = g.links) (hobjects : g'.objects = g.objects)
    (hvolumes : g'.volumes = g.volumes) : SameContent g g' where
  links := by
    funext id
    rw [loadLink, loadLink, hlinks]
  metadata := metadataOf_of_objects hobjects
  tombstones key := tombstoned_congr (by rw [hobjects])
  descriptors := volumeColumn_of_volumes hvolumes
  states := volumeColumn_of_volumes hvolumes
  reasons := volumeColumn_of_volumes hvolumes

theorem volumeColumn_setGeneration {β : Type} {column : VolumeRow → β} {v : VolumeId} {gen : Nat}
    (h : ∀ row : VolumeRow, column { row with generation := gen } = column row) :
    volumeColumn column (setGeneration g v gen) = volumeColumn column g := by
  funext w
  rw [volumeColumn, setGeneration, Table.get_modify, volumeColumn]
  split_ifs
  · rw [Option.map_map]
    exact congrFun (congrArg Option.map (funext h)) _
  · rfl

theorem setGeneration (g : FilesystemGraph) (v : VolumeId) (gen : Nat) :
    SameContent g (setGeneration g v gen) where
  links := rfl
  metadata := rfl
  tombstones _ := Iff.rfl
  descriptors := volumeColumn_setGeneration fun _ => rfl
  states := volumeColumn_setGeneration fun _ => rfl
  reasons := volumeColumn_setGeneration fun _ => rfl

theorem knownObject (h : SameContent g g') (key : FileKey) :
    (g'.objects.get key).isSome = (g.objects.get key).isSome := by
  simpa [metadataOf] using congrArg Option.isSome (congrFun h.metadata key)

theorem knownVolume (h : SameContent g g') (w : VolumeId) :
    (g'.volumes.get w).isSome = (g.volumes.get w).isSome := by
  simpa [volumeColumn] using congrArg Option.isSome (congrFun h.states w)

theorem loadObjectMetadata (h : SameContent g g') (key : FileKey) :
    loadObjectMetadata g' key = loadObjectMetadata g key := by
  have hmeta := congrFun h.metadata key
  have htomb := h.tombstones key
  unfold Graph.loadObjectMetadata
  cases hold : g.objects.get key with
  | none =>
    rw [metadataOf, metadataOf, hold] at hmeta
    rw [Option.map_eq_none_iff.mp hmeta]
  | some row =>
    rw [metadataOf, metadataOf, hold] at hmeta
    obtain ⟨row', hnew, hrow⟩ := Option.map_eq_some_iff.mp hmeta
    have hsame : row'.tombstoned = row.tombstoned := by
      simp only [Tombstoned, hold, hnew, Option.some.injEq, exists_eq_left'] at htomb
      exact Bool.eq_iff_iff.mpr htomb
    rw [hnew]
    simp only [hsame, hrow]

theorem volumeState (h : SameContent g g') (w : VolumeId) : volumeState g' w = volumeState g w := by
  have hstate := congrFun h.states w
  unfold Graph.volumeState
  cases hold : g.volumes.get w with
  | none =>
    rw [volumeColumn, volumeColumn, hold] at hstate
    rw [Option.map_eq_none_iff.mp hstate]
  | some row =>
    rw [volumeColumn, volumeColumn, hold] at hstate
    obtain ⟨row', hnew, hrow⟩ := Option.map_eq_some_iff.mp hstate
    rw [hnew]
    exact congrArg Except.ok hrow

theorem resolvePath (h : SameContent g g') (id : FileLinkId) (limit : Nat) :
    resolvePath g' id limit = resolvePath g id limit :=
  resolvePath_congr (S := fun _ => True) (congrFun h.links id)
    (fun o _ => linksOf_congr fun link _ => by rw [h.links]) (fun _ _ _ _ _ _ => trivial)
    (fun _ _ _ _ => trivial) limit

theorem buildCatalogDocument [CaseMapping] (h : SameContent g g') (link : StoredLink) (version : Nat) :
    buildCatalogDocument g' link version = buildCatalogDocument g link version := by
  simp only [Graph.buildCatalogDocument, h.loadObjectMetadata, h.volumeState, h.resolvePath]

/-- A reader joins the same documents from the same catalog. -/
theorem joinedDocument [CaseMapping] (h : SameContent g g') (d : DocumentId) (row : CatalogRow) :
    joinedDocument g' d row = joinedDocument g d row := by
  have hlink := congrFun h.links row.fileLinkId
  have hmeta := congrFun h.metadata row.objectKey
  have hstate := congrFun h.states row.objectKey.volumeId
  rw [loadLink, loadLink] at hlink
  rw [metadataOf, metadataOf] at hmeta
  rw [volumeColumn, volumeColumn] at hstate
  unfold Graph.joinedDocument
  cases hl : g.links.get row.fileLinkId with
  | none =>
    rw [hl] at hlink
    rw [Option.map_eq_none_iff.mp hlink]
    rfl
  | some link =>
    rw [hl] at hlink
    obtain ⟨link', hl', hname⟩ := Option.map_eq_some_iff.mp hlink
    cases ho : g.objects.get row.objectKey with
    | none =>
      rw [ho] at hmeta
      rw [Option.map_eq_none_iff.mp hmeta, hl']
      rfl
    | some object =>
      rw [ho] at hmeta
      obtain ⟨object', ho', hobject⟩ := Option.map_eq_some_iff.mp hmeta
      cases hv : g.volumes.get row.objectKey.volumeId with
      | none =>
        rw [hv] at hstate
        rw [Option.map_eq_none_iff.mp hstate, hl', ho']
        rfl
      | some volume =>
        rw [hv] at hstate
        obtain ⟨volume', hv', hvolume⟩ := Option.map_eq_some_iff.mp hstate
        have hname' : link'.name = link.name := congrArg StoredLink.name hname
        rw [hl', ho', hv']
        simp only [Option.bind_eq_bind, Option.bind_some, intoDocument, hname', hobject, hvolume]

theorem desiredCatalogDocuments [CaseMapping] (h : SameContent g g') (hcatalog : g'.catalog = g.catalog) :
    desiredCatalogDocuments g' = desiredCatalogDocuments g := by
  simp only [Graph.desiredCatalogDocuments, joinedRows, hcatalog, h.joinedDocument]

end SameContent

section Synced

variable [CaseMapping] {g g' : FilesystemGraph} {id : FileLinkId} {gen n : Nat}
  {mode : ProjectionOutboxMode}

/-- A sync of the link has nothing to do. -/
def Synced (g : FilesystemGraph) (id : FileLinkId) : Prop :=
  ((loadLink g id = none ∨ ∃ link error, loadLink g id = some link ∧
      buildCatalogDocument g link 0 = .error error ∧ error.unresolvable = true) ∧
    g.catalog.get (documentIdForLink id) = none) ∨
  ∃ link document, loadLink g id = some link ∧ buildCatalogDocument g link 0 = .ok document ∧
    contentUnchanged (g.catalog.get (documentIdForLink id)) document = .ok true

/-- The version is stamped on a document that is built without looking at it. -/
theorem buildCatalogDocument_stamp (g : FilesystemGraph) (link : StoredLink) (a b : Nat) :
    buildCatalogDocument g link b =
      (fun document => { document with documentVersion := b }) <$> buildCatalogDocument g link a := by
  unfold buildCatalogDocument
  cases loadObjectMetadata g link.objectKey with
  | error e => rfl
  | ok metadata =>
    cases volumeState g link.objectKey.volumeId with
    | error e => rfl
    | ok state => cases resolvePath g link.fileLinkId projectionDepth <;> rfl

theorem buildCatalogDocument_error {link : StoredLink} {a : Nat} {error : GraphError}
    (h : buildCatalogDocument g link a = .error error) (b : Nat) :
    buildCatalogDocument g link b = .error error := by
  rw [buildCatalogDocument_stamp g link a b, h]
  rfl

theorem buildCatalogDocument_stamped {link : StoredLink} {a : Nat} {document : CatalogDocument}
    (h : buildCatalogDocument g link a = .ok document) (b : Nat) :
    buildCatalogDocument g link b = .ok { document with documentVersion := b } := by
  rw [buildCatalogDocument_stamp g link a b, h]
  rfl

omit [CaseMapping] in
theorem contentUnchanged_stamp (row : Option CatalogRow) (document : CatalogDocument) (version : Nat) :
    contentUnchanged row { document with documentVersion := version } =
      contentUnchanged row document := by
  cases row with
  | none => rfl
  | some row => cases h : row.projectionFingerprint <;> simp [contentUnchanged, CatalogContent.ofDocument, h]

theorem Synced.sync (h : Synced g id) (gen : Nat) (mode : ProjectionOutboxMode) :
    syncCatalogProjection g id gen mode = .ok (g, 0) := by
  rcases h with ⟨hgone, hnone⟩ | ⟨link, document, hlink, hbuild, hun⟩
  · have hdelete : deleteCatalogProjection g (documentIdForLink id) gen mode = (g, 0) := by
      simp only [deleteCatalogProjection, hnone]
    rcases hgone with hlink | ⟨link, error, hlink, hbuild, hun⟩
    · simp only [syncCatalogProjection, hlink, hdelete]
    · simp only [syncCatalogProjection, hlink, buildCatalogDocument_error hbuild gen, hun, if_true,
        hdelete]
  · simp only [syncCatalogProjection, hlink, buildCatalogDocument_stamped hbuild gen,
      contentUnchanged_stamp, hun, ok_bind, if_true]

theorem Synced.congr (h : Synced g id) (hsame : SameContent g g')
    (hcatalog : g'.catalog.get (documentIdForLink id) = g.catalog.get (documentIdForLink id)) :
    Synced g' id := by
  simpa only [Synced, hsame.links, hsame.buildCatalogDocument, hcatalog] using h

/-- A sync leaves nothing to do. -/
theorem synced_sync (h : syncCatalogProjection g id gen mode = .ok (g', n)) : Synced g' id := by
  have hframe := syncCatalogProjection_frame h
  have hsame : SameContent g g' := .of_tables (by rw [hframe]) (by rw [hframe]) (by rw [hframe])
  simp only [Synced, hsame.links, hsame.buildCatalogDocument]
  rcases syncCatalogProjection_ok h with ⟨hgone, h⟩ | ⟨link, document, hlink, hbuild, hun, rfl⟩ |
    ⟨link, document, hlink, hbuild, -, h⟩
  · obtain rfl : _ = g' := congrArg Prod.fst h
    refine .inl ⟨hgone.imp_right ?_, ?_⟩
    · rintro ⟨link, error, hlink, hbuild, hun⟩
      exact ⟨link, error, hlink, buildCatalogDocument_error hbuild 0, hun⟩
    · rw [deleteCatalogProjection_catalog, Table.get_erase, if_pos rfl]
  · refine .inr ⟨link, _, hlink, buildCatalogDocument_stamped hbuild 0, ?_⟩
    rw [contentUnchanged_stamp]
    exact hun
  · obtain rfl : _ = g' := congrArg Prod.fst h
    refine .inr ⟨link, _, hlink, buildCatalogDocument_stamped hbuild 0, ?_⟩
    rw [contentUnchanged_stamp, putCatalogDocument_catalog, (buildCatalogDocument_own hlink hbuild).1,
      Table.get_insert_self]
    simp [contentUnchanged, compactRow]

theorem synced_syncLinks {ids : List FileLinkId} (h : syncLinks g gen mode ids = .ok (g', n)) :
    ∀ id ∈ ids, Synced g' id := by
  induction ids generalizing g n with
  | nil => exact fun id hid => absurd hid List.not_mem_nil
  | cons x xs ih =>
    simp only [syncLinks, bind_ok] at h
    obtain ⟨⟨g₁, n₁⟩, h₁, ⟨g₂, n₂⟩, h₂, heq⟩ := h
    obtain ⟨rfl, -⟩ := Prod.mk.inj (Except.ok.inj heq)
    intro id hid
    by_cases hmem : id ∈ xs
    · exact ih h₂ id hmem
    · obtain rfl : id = x := (List.mem_cons.mp hid).resolve_right hmem
      have hframe := syncLinks_frame h₂
      exact (synced_sync h₁).congr (.of_tables (by rw [hframe]) (by rw [hframe]) (by rw [hframe]))
        (syncLinks_get_notMem h₂ hmem)

theorem syncLinks_synced {ids : List FileLinkId} (h : ∀ id ∈ ids, Synced g id) (gen : Nat)
    (mode : ProjectionOutboxMode) : syncLinks g gen mode ids = .ok (g, 0) := by
  induction ids with
  | nil => rfl
  | cons x xs ih =>
    have hrest := ih fun id hid => h id (List.mem_cons_of_mem _ hid)
    simp only [syncLinks, bind_ok]
    exact ⟨(g, 0), (h x List.mem_cons_self).sync gen mode, (g, 0), hrest, rfl⟩

end Synced

/-- Every link the batch writes only from here on, and leaves standing at its
end, is one the mutation can be applied beside. -/
def AdmitsLater (pre : List GraphMutation) (m : GraphMutation) (post : List GraphMutation) : Prop :=
  ∀ id link, lastWrite (linkLog pre) id = none →
    lastWrite (linkLog (m :: post)) id = some (some link) → m.Admits link

/-- The mutation observes the object, links it or puts its tombstone. -/
def GraphMutation.Concerns (key : FileKey) (m : GraphMutation) : Prop := m.Observes key ∨ m.Binds key

/-- The object has links after the first part of the batch, but only ones from
before the batch, and the rest of the batch writes each of them and says nothing
more about the object: it is left without links. -/
def Orphaned (g : FilesystemGraph) (pre : List GraphMutation) (key : FileKey)
    (post : List GraphMutation) : Prop :=
  (∀ m ∈ post, ¬ m.Concerns key) ∧
  (∃ id link, replay (loadLink g) (linkLog pre) id = some link ∧ link.objectKey = key) ∧
  ∀ id link, replay (loadLink g) (linkLog pre) id = some link → link.objectKey = key →
    lastWrite (linkLog pre) id = none ∧ lastWrite (linkLog post) id ≠ none

/-- No mutation of the batch meets a link that the batch leaves behind and it
cannot be applied beside, and none observes an object that the batch then
leaves without links. -/
def Repeats (g : FilesystemGraph) (ms : List GraphMutation) : Prop :=
  ∀ pre m post, ms = pre ++ m :: post →
    AdmitsLater pre m post ∧ ∀ key, m.Observes key → ¬ Orphaned g pre key post

section Repeat

variable [CaseMapping] {v : VolumeId} {gen gen' : Nat} {g g₁ g' : FilesystemGraph}
  {m : GraphMutation} {ms pre rest post : List GraphMutation}

/-- The graph `g'` a batch was applied to before, from `g` and with content `g₁`. -/
structure Applied (v : VolumeId) (gen : Nat) (g : FilesystemGraph) (ms : List GraphMutation)
    (g₁ g' : FilesystemGraph) : Prop where
  names : NamespaceWF g
  closed : g.sessions.get v = none
  volume : ∀ m ∈ ms, m.InVolume v
  generation : currentGeneration g v ≤ gen
  run : Mutates gen g ms g₁
  same : SameContent g₁ g'
  names' : NamespaceWF g'
  sessions : g'.sessions = g.sessions
  generation' : currentGeneration g' v ≤ gen + 1

omit [CaseMapping] in
theorem Applied.closed' (h : Applied v gen g ms g₁ g') : g'.sessions.get v = none := by
  rw [h.sessions]
  exact h.closed

omit [CaseMapping] in
/-- The second run finds a link as the first run found it at the same place,
unless only the rest of the batch writes it: then it finds what the batch left. -/
theorem Applied.link_cases (ha : Applied v gen g (pre ++ rest) g₁ g') {gᵢ hᵢ : FilesystemGraph}
    (hfirst : Mutates gen g pre gᵢ) (hpre : Mutates gen' g' pre hᵢ) (id : FileLinkId) :
    (lastWrite (linkLog pre) id = none ∧ lastWrite (linkLog rest) id = some (loadLink hᵢ id)) ∨
      (lastWrite (linkLog pre) id ≠ none ∨ lastWrite (linkLog rest) id = none) ∧
        loadLink hᵢ id = loadLink gᵢ id := by
  have hms : ∀ m ∈ pre, m.InVolume v := fun m hm => ha.volume m (List.mem_append_left _ hm)
  have hload : loadLink hᵢ id =
      ((lastWrite (linkLog pre) id).or (lastWrite (linkLog rest) id)).getD (loadLink g id) := by
    rw [hpre.links ha.closed' hms, ha.same.links, ha.run.links ha.closed ha.volume, linkLog_append]
    exact replay_restart _ _ _ _
  rw [hload, hfirst.links ha.closed hms, replay_apply]
  cases lastWrite (linkLog pre) id with
  | some value => exact .inr ⟨.inl (Option.some_ne_none _), rfl⟩
  | none =>
    cases lastWrite (linkLog rest) id with
    | some value => exact .inl ⟨rfl, rfl⟩
    | none => exact .inr ⟨.inr rfl, rfl⟩

/-- A mutation is accepted the second time exactly when it can be applied beside
the links that the batch writes only from here on. -/
theorem Applied.step (ha : Applied v gen g (pre ++ m :: post) g₁ g') {hᵢ : FilesystemGraph}
    (hpre : Mutates (gen + 1) g' pre hᵢ) :
    (∃ r, applyMutation hᵢ m (gen + 1) = .ok r) ↔ AdmitsLater pre m post := by
  have hms : ∀ m ∈ pre, m.InVolume v := fun m hm => ha.volume m (List.mem_append_left _ hm)
  have hm : m.InVolume v := ha.volume m (List.mem_append_right _ List.mem_cons_self)
  have hrest : ∀ x ∈ m :: post, x.InVolume v := fun x hx => ha.volume x (List.mem_append_right _ hx)
  obtain ⟨gᵢ, hfirst, hlater⟩ := mutates_append.mp ha.run
  have hsᵢ : gᵢ.sessions.get v = none := by rw [hfirst.sessions]; exact ha.closed
  have hsᵢ' : hᵢ.sessions.get v = none := by rw [hpre.sessions]; exact ha.closed'
  have hnᵢ := hfirst.namespaceWF ha.names hms ha.generation
  have hnᵢ' := hpre.namespaceWF ha.names' hms ha.generation'
  -- the first run has checked everything but the links that came later
  obtain ⟨g₂, n, hstep, -⟩ := mutates_cons.mp hlater
  obtain ⟨hground, hadmits⟩ := (applyMutation_accepts hnᵢ hsᵢ hm).mp ⟨_, hstep⟩
  have hground' : m.Grounded hᵢ := by
    refine hground.mono (fun key hkey => ?_) (fun w hw => ?_)
    · refine hpre.knownObject ha.closed' hms ?_
      rw [ha.same.knownObject]
      exact hlater.knownObject hsᵢ hrest hkey
    · refine hpre.knownVolume ha.closed' hms ?_
      rw [ha.same.knownVolume]
      exact hlater.knownVolume hsᵢ hrest hw
  rw [applyMutation_accepts hnᵢ' hsᵢ' hm]
  constructor
  · rintro ⟨-, h⟩ id link hnone hlast
    rcases ha.link_cases hfirst hpre id with ⟨-, hload⟩ | ⟨hearly | hlate, -⟩
    · exact h id link (Option.some.inj (hload.symm.trans hlast))
    · exact absurd hnone hearly
    · rw [hlate] at hlast
      cases hlast
  · refine fun h => ⟨hground', fun id link hload => ?_⟩
    rcases ha.link_cases hfirst hpre id with ⟨hnone, hlast⟩ | ⟨-, hsame⟩
    · exact h id link hnone (by rw [hlast, hload])
    · exact hadmits id link (hsame.symm.trans hload)

/-- The second run is accepted exactly when each of its mutations is. -/
theorem Applied.accepts (ha : Applied v gen g (pre ++ rest) g₁ g') {hᵢ : FilesystemGraph}
    (hpre : Mutates (gen + 1) g' pre hᵢ) :
    (∃ h, Mutates (gen + 1) hᵢ rest h) ↔
      ∀ a m b, rest = a ++ m :: b → AdmitsLater (pre ++ a) m b := by
  induction rest generalizing pre hᵢ with
  | nil =>
    refine iff_of_true ⟨hᵢ, mutates_nil.mpr rfl⟩ fun a m b h => ?_
    simp at h
  | cons m post ih =>
    have hone : ∀ {hₙ : FilesystemGraph} {n : Nat}, applyMutation hᵢ m (gen + 1) = .ok (hₙ, n) →
        Mutates (gen + 1) g' (pre ++ [m]) hₙ := fun hstep =>
      mutates_append.mpr ⟨hᵢ, hpre, mutates_cons.mpr ⟨_, _, hstep, mutates_nil.mpr rfl⟩⟩
    have ha' : Applied v gen g ((pre ++ [m]) ++ post) g₁ g' := by
      rw [List.append_assoc]
      exact ha
    constructor
    · rintro ⟨h, hrun⟩ a m' b heq
      obtain ⟨hₙ, n, hstep, hrun⟩ := mutates_cons.mp hrun
      cases a with
      | nil =>
        obtain ⟨rfl, rfl⟩ := List.cons.inj heq
        rw [List.append_nil]
        exact (ha.step hpre).mp ⟨_, hstep⟩
      | cons x a =>
        obtain ⟨rfl, rfl⟩ := List.cons.inj heq
        have hlater := (ih ha' (hone hstep)).mp ⟨h, hrun⟩ a m' b rfl
        rw [List.append_assoc] at hlater
        exact hlater
    · intro h
      have hfirst := h [] m post rfl
      rw [List.append_nil] at hfirst
      obtain ⟨⟨hₙ, n⟩, hstep⟩ := (ha.step hpre).mpr hfirst
      obtain ⟨h', hrun⟩ := (ih ha' (hone hstep)).mpr fun a m' b heq => by
        rw [List.append_assoc]
        exact h (m :: a) m' b (by rw [heq]; rfl)
      exact ⟨h', mutates_cons.mpr ⟨hₙ, n, hstep, hrun⟩⟩

omit [CaseMapping] in
/-- Absolute writes leave what they left the first time. -/
theorem Applied.view {κ β : Type} [DecidableEq κ] {view : FilesystemGraph → κ → Option β}
    {writes : GraphMutation → List (κ × Option β)} (ha : Applied v gen g ms g₁ g')
    (hstep : ∀ gen g m g' n, g.sessions.get v = none → m.InVolume v →
      applyMutation g m gen = .ok (g', n) → view g' = replay (view g) (writes m))
    (hsame : view g' = view g₁) {h : FilesystemGraph} (hrun : Mutates gen' g' ms h) :
    view h = view g' := by
  have hagain := replay_again (view g) (ms.flatMap writes) []
  rw [List.append_nil] at hagain
  rw [hrun.replays ha.closed' ha.volume (hstep gen'), hsame,
    ha.run.replays ha.closed ha.volume (hstep gen), hagain]

omit [CaseMapping] in
theorem last_observation (key : FileKey) (ms : List GraphMutation) :
    (∀ m ∈ ms, ¬ m.Observes key) ∨ ∃ pre object post, ms = pre ++ .upsertObject object :: post ∧
      object.objectKey = key ∧ ∀ m ∈ post, ¬ m.Observes key := by
  induction ms with
  | nil => exact .inl fun m hm => nomatch hm
  | cons m ms ih =>
    rcases ih with hnone | ⟨pre, object, post, rfl, hkey, hlast⟩
    · cases m with
      | upsertObject object =>
        by_cases hkey : object.objectKey = key
        · exact .inr ⟨[], object, ms, rfl, hkey, hnone⟩
        · exact .inl (List.forall_mem_cons.mpr ⟨hkey, hnone⟩)
      | _ => exact .inl (List.forall_mem_cons.mpr ⟨not_false, hnone⟩)
    · exact .inr ⟨m :: pre, object, post, rfl, hkey, hlast⟩

omit [CaseMapping] in
/-- An object observed twice can be orphaned after the last time only. -/
theorem orphaned_last {key : FileKey} {object : FileObjectSnapshot} (hkey : object.objectKey = key)
    (hlast : ∀ m ∈ post, ¬ m.Observes key) :
    (∀ a m b, pre ++ .upsertObject object :: post = a ++ m :: b → m.Observes key →
      ¬ Orphaned g a key b) ↔ ¬ Orphaned g pre key post := by
  constructor
  · intro h
    exact h pre _ post rfl hkey
  · intro h a m b heq hobs horphan
    rcases List.append_eq_append_iff.mp heq with ⟨c, rfl, hc⟩ | ⟨c, rfl, hc⟩
    · cases c with
      | nil =>
        obtain ⟨-, rfl⟩ := List.cons.inj hc
        rw [List.append_nil] at horphan
        exact h horphan
      | cons x c =>
        obtain ⟨-, rfl⟩ := List.cons.inj hc
        exact hlast m (List.mem_append_right _ List.mem_cons_self) hobs
    · cases c with
      | nil =>
        obtain ⟨-, rfl⟩ := List.cons.inj hc
        rw [List.append_nil] at h
        exact h horphan
      | cons x c =>
        obtain ⟨-, rfl⟩ := List.cons.inj hc
        exact horphan.1 _ (List.mem_append_right _ List.mem_cons_self) (.inl hkey)

omit [CaseMapping] in
/-- A link that the log leaves to the object was put by a mutation that says so. -/
theorem binds_of_lastWrite {id : FileLinkId} {link : StoredLink}
    (h : lastWrite (linkLog ms) id = some (some link)) : ∃ m ∈ ms, m.Binds link.objectKey := by
  obtain ⟨m, hm, hw⟩ := List.mem_flatMap.mp (lastWrite_mem h)
  refine ⟨m, hm, ?_⟩
  cases m with
  | upsertLink observed boundary =>
    obtain ⟨-, hlink⟩ := Prod.mk.inj (List.mem_singleton.mp hw)
    obtain rfl := Option.some.inj hlink
    rfl
  | removeLink => exact nomatch (Prod.mk.inj (List.mem_singleton.mp hw)).2
  | _ => cases hw

omit [CaseMapping] in
/-- At the same place of the two runs the second finds the object linked when
the first did, or when the rest of the batch links it, unless it is orphaned. -/
theorem Applied.linked {object : FileObjectSnapshot}
    (ha : Applied v gen g (pre ++ .upsertObject object :: post) g₁ g')
    (hlast : ∀ m ∈ post, ¬ m.Observes object.objectKey) {gᵢ hᵢ : FilesystemGraph}
    (hfirst : Mutates gen g pre gᵢ) (hpre : Mutates gen' g' pre hᵢ) :
    ((Linked hᵢ object.objectKey ∨ ∃ m ∈ post, m.Binds object.objectKey) ↔
      (Linked gᵢ object.objectKey ∨ ∃ m ∈ post, m.Binds object.objectKey)) ↔
    ¬ Orphaned g pre object.objectKey post := by
  have hms : ∀ m ∈ pre, m.InVolume v := fun m hm => ha.volume m (List.mem_append_left _ hm)
  have hconcerns : (∀ m ∈ post, ¬ m.Concerns object.objectKey) ↔
      ¬ ∃ m ∈ post, m.Binds object.objectKey := by
    constructor
    · rintro h ⟨m, hm, hbinds⟩
      exact h m hm (.inr hbinds)
    · intro h m hm hconcerns
      exact hconcerns.elim (hlast m hm) fun hbinds => h ⟨m, hm, hbinds⟩
  rw [Orphaned, hconcerns, ← hfirst.links ha.closed hms, ← Linked]
  constructor
  · rintro hiff ⟨hunbound, hlinked, hgone⟩
    obtain ⟨id, link, hlink, hkey⟩ := (hiff.mpr (.inl hlinked)).resolve_right hunbound
    rcases ha.link_cases hfirst hpre id with ⟨-, hlate⟩ | ⟨hor, hsame⟩
    · rw [hlink] at hlate
      exact hunbound (hkey ▸ binds_of_lastWrite hlate)
    · obtain ⟨hnone, hsome⟩ := hgone id link (hsame.symm.trans hlink) hkey
      exact hor.elim (fun h => h hnone) hsome
  · intro horphan
    constructor
    · rintro (⟨id, link, hlink, hkey⟩ | hbinds)
      · rcases ha.link_cases hfirst hpre id with ⟨-, hlate⟩ | ⟨-, hsame⟩
        · rw [hlink] at hlate
          exact .inr (hkey ▸ binds_of_lastWrite hlate)
        · exact .inl ⟨id, link, hsame.symm.trans hlink, hkey⟩
      · exact .inr hbinds
    · rintro (hlinked | hbinds)
      · by_contra hnot
        obtain ⟨hunlinked, hunbound⟩ := not_or.mp hnot
        refine horphan ⟨hunbound, hlinked, fun id link hlink hkey => ?_⟩
        rcases ha.link_cases hfirst hpre id with ⟨hnone, hlate⟩ | ⟨-, hsame⟩
        · exact ⟨hnone, fun h => by cases h.symm.trans hlate⟩
        · exact absurd ⟨id, link, hsame.trans hlink, hkey⟩ hunlinked
      · exact .inr hbinds

omit [CaseMapping] in
theorem known_upsertObject {object : FileObjectSnapshot} {n : Nat}
    (h : applyMutation g (.upsertObject object) gen = .ok (g', n)) :
    (g'.objects.get object.objectKey).isSome := by
  obtain ⟨g₃, h₃, heq⟩ := bind_ok.mp h
  obtain ⟨rfl, -⟩ := Prod.mk.inj (Except.ok.inj heq)
  obtain ⟨-, -, rfl⟩ := upsertObject_ok h₃
  rw [Table.get_insert_self]
  rfl

omit [CaseMapping] in
theorem Applied.known_observed {key : FileKey} (ha : Applied v gen g (pre ++ m :: post) g₁ g')
    (hobs : m.Observes key) : (g₁.objects.get key).isSome := by
  cases m with
  | upsertObject object =>
    obtain rfl : object.objectKey = key := hobs
    obtain ⟨gᵢ, hfirst, hlater⟩ := mutates_append.mp ha.run
    obtain ⟨g₂, n, hstep, hrest⟩ := mutates_cons.mp hlater
    have hs₂ : g₂.sessions.get v = none := by
      rw [applyMutation_frame hstep]
      exact hfirst.sessions ▸ ha.closed
    exact hrest.knownObject hs₂
      (fun m hm => ha.volume m (List.mem_append_right _ (List.mem_cons_of_mem _ hm)))
      (known_upsertObject hstep)
  | _ => exact hobs.elim

omit [CaseMapping] in
/-- After a run that ends with the last observation of the object: it is linked
where it was observed, or a later mutation accounts for it. -/
theorem Mutates.accounted_last {object : FileObjectSnapshot} {gᵢ : FilesystemGraph}
    (hs : g.sessions.get v = none) (hms : ∀ m ∈ .upsertObject object :: post, m.InVolume v)
    (hlast : ∀ m ∈ post, ¬ m.Observes object.objectKey)
    (h : Mutates gen g (.upsertObject object :: post) gᵢ) :
    Accounted gᵢ object.objectKey ↔
      Linked g object.objectKey ∨ ∃ m ∈ post, m.Binds object.objectKey := by
  obtain ⟨g₂, n, hstep, hrest⟩ := mutates_cons.mp h
  have hs₂ : g₂.sessions.get v = none := by
    rw [applyMutation_frame hstep]
    exact hs
  rw [hrest.accounted hs₂ (fun m hm => hms m (List.mem_cons_of_mem _ hm))
    (known_upsertObject hstep) hlast, accounted_upsertObject hstep]

omit [CaseMapping] in
/-- The second run accounts for an object as the first did, unless it is orphaned
after its last observation. -/
theorem Applied.accounted {key : FileKey} (ha : Applied v gen g ms g₁ g') {h : FilesystemGraph}
    (hrun : Mutates gen' g' ms h) (hknown : (g₁.objects.get key).isSome) :
    (Accounted h key ↔ Accounted g₁ key) ↔
      ∀ pre m post, ms = pre ++ m :: post → m.Observes key → ¬ Orphaned g pre key post := by
  have hsame : Accounted g' key ↔ Accounted g₁ key :=
    or_congr (linked_congr ha.same.links) (ha.same.tombstones key)
  rcases last_observation key ms with hnone | ⟨pre, object, post, rfl, rfl, hlast⟩
  · refine iff_of_true ?_ fun pre m post heq hobs => ?_
    · have hknown' : (g'.objects.get key).isSome := by rw [ha.same.knownObject]; exact hknown
      have hknown₀ : (g.objects.get key).isSome := by
        have hmeta := congrFun (ha.run.replays ha.closed ha.volume
          fun _ _ _ _ hs hm h => metadataOf_applyMutation hs hm h) key
        have hunwritten : lastWrite (ms.flatMap GraphMutation.metadataWrites) key = none := by
          refine lastWrite_eq_none.mpr fun w hw hkey => ?_
          obtain ⟨m, hm, hw⟩ := List.mem_flatMap.mp hw
          cases m with
          | upsertObject object =>
            rw [List.mem_singleton.mp hw] at hkey
            exact hnone _ hm hkey
          | _ => cases hw
        rw [replay_apply, hunwritten] at hmeta
        simpa [metadataOf, hknown] using (congrArg Option.isSome hmeta).symm
      rw [hrun.accounted ha.closed' ha.volume hknown' hnone, hsame,
        ha.run.accounted ha.closed ha.volume hknown₀ hnone, or_assoc, or_self]
    · subst heq
      exact absurd hobs (hnone m (List.mem_append_right _ List.mem_cons_self))
  · have hrest : ∀ m ∈ .upsertObject object :: post, m.InVolume v := fun m hm =>
      ha.volume m (List.mem_append_right _ hm)
    obtain ⟨gᵢ, hfirst, hlater⟩ := mutates_append.mp ha.run
    obtain ⟨hᵢ, hpre, hagain⟩ := mutates_append.mp hrun
    have hsᵢ : gᵢ.sessions.get v = none := by rw [hfirst.sessions]; exact ha.closed
    have hsᵢ' : hᵢ.sessions.get v = none := by rw [hpre.sessions]; exact ha.closed'
    rw [orphaned_last rfl hlast, hagain.accounted_last hsᵢ' hrest hlast,
      hlater.accounted_last hsᵢ hrest hlast]
    exact ha.linked hlast hfirst hpre

omit [CaseMapping] in
/-- In a well-formed graph the tombstoned objects are those accounted for but
not linked. -/
theorem tombstoned_iff {key : FileKey} (hn : NamespaceWF g) :
    Tombstoned g key ↔ Accounted g key ∧ ¬ Linked g key := by
  constructor
  · rintro ⟨row, hrow, htomb⟩
    refine ⟨.inr ⟨row, hrow, htomb⟩, ?_⟩
    rintro ⟨id, link, hload, rfl⟩
    obtain ⟨lrow, hlrow, rfl⟩ := loadLink_eq_some.mp hload
    obtain ⟨object, hobject, hlive⟩ := hn.linkObject id lrow hlrow
    have hsame : row = object := Option.some.inj (hrow.symm.trans hobject)
    rw [hsame, hlive] at htomb
    cases htomb
  · rintro ⟨haccounted, hunlinked⟩
    exact haccounted.resolve_left hunlinked

theorem Applied.tombstones (ha : Applied v gen g ms g₁ g') {h : FilesystemGraph}
    (hrun : Mutates (gen + 1) g' ms h) (hlinks : loadLink h = loadLink g')
    (hmeta : metadataOf h = metadataOf g') :
    (∀ key, Tombstoned h key ↔ Tombstoned g' key) ↔
      ∀ pre m post, ms = pre ++ m :: post → ∀ key, m.Observes key → ¬ Orphaned g pre key post := by
  have hn' := hrun.namespaceWF ha.names' ha.volume ha.generation'
  have hlinked : ∀ key, Linked h key ↔ Linked g' key := fun key => linked_congr hlinks
  have hsame : ∀ key, Accounted g' key ↔ Accounted g₁ key := fun key =>
    or_congr (linked_congr ha.same.links) (ha.same.tombstones key)
  constructor
  · intro htomb pre m post heq key hobs
    have hknown : (g₁.objects.get key).isSome := by
      subst heq
      exact ha.known_observed hobs
    refine (ha.accounted hrun hknown).mp ?_ pre m post heq hobs
    rw [← hsame key]
    exact or_congr (hlinked key) (htomb key)
  · intro horphan key
    by_cases hknown : (g₁.objects.get key).isSome
    · rw [tombstoned_iff hn', tombstoned_iff ha.names', hlinked key,
        (ha.accounted hrun hknown).mpr fun pre m post heq => horphan pre m post heq key, hsame key]
    · have hunknown : ∀ {x : FilesystemGraph}, metadataOf x = metadataOf g₁ → ¬ Tombstoned x key := by
        rintro x hx ⟨row, hrow, -⟩
        have hnone := congrFun hx key
        rw [metadataOf, metadataOf, hrow, Option.not_isSome_iff_eq_none.mp hknown] at hnone
        cases hnone
      exact iff_of_false (hunknown (hmeta.trans ha.same.metadata)) (hunknown ha.same.metadata)

/-- A second run that is accepted leaves the content as it is, but for objects
that the batch leaves without links after observing them. -/
theorem Applied.same_iff (ha : Applied v gen g ms g₁ g') {h : FilesystemGraph}
    (hrun : Mutates (gen + 1) g' ms h) :
    SameContent g' h ↔
      ∀ pre m post, ms = pre ++ m :: post → ∀ key, m.Observes key → ¬ Orphaned g pre key post := by
  have hlinks : loadLink h = loadLink g' :=
    ha.view (fun _ _ _ _ _ hs hm h => loadLink_applyMutation hs hm h) ha.same.links hrun
  have hmeta : metadataOf h = metadataOf g' :=
    ha.view (fun _ _ _ _ _ hs hm h => metadataOf_applyMutation hs hm h) ha.same.metadata hrun
  rw [← ha.tombstones hrun hlinks hmeta]
  refine ⟨fun hsame => hsame.tombstones, fun htomb => ⟨hlinks, hmeta, htomb, ?_, ?_, ?_⟩⟩
  · exact ha.view (fun _ _ _ _ _ _ _ h => descriptor_applyMutation h) ha.same.descriptors hrun
  · exact ha.view (fun _ _ _ _ _ _ _ h => state_applyMutation h) ha.same.states hrun
  · exact ha.view (fun _ _ _ _ _ _ _ h => reason_applyMutation h) ha.same.reasons hrun

/-- Some mutation of the run affects the link. -/
def Affects (gen : Nat) (g : FilesystemGraph) (ms : List GraphMutation) (id : FileLinkId) : Prop :=
  ∃ pre m post gᵢ, ms = pre ++ m :: post ∧ Mutates gen g pre gᵢ ∧ id ∈ affectedLinks gᵢ m

omit [CaseMapping] in
theorem affects_cons {n : Nat} {id : FileLinkId} (h : applyMutation g m gen = .ok (g₁, n)) :
    Affects gen g (m :: ms) id ↔ id ∈ affectedLinks g m ∨ Affects gen g₁ ms id := by
  constructor
  · rintro ⟨pre, m', post, gᵢ, heq, hpre, hmem⟩
    cases pre with
    | nil =>
      obtain ⟨rfl, rfl⟩ := List.cons.inj heq
      obtain rfl := mutates_nil.mp hpre
      exact .inl hmem
    | cons x pre =>
      obtain ⟨rfl, rfl⟩ := List.cons.inj heq
      obtain ⟨g₂, n', hstep, hpre⟩ := mutates_cons.mp hpre
      obtain ⟨rfl, -⟩ := Prod.mk.inj (Except.ok.inj (h.symm.trans hstep))
      exact .inr ⟨pre, m', post, gᵢ, rfl, hpre, hmem⟩
  · rintro (hmem | ⟨pre, m', post, gᵢ, rfl, hpre, hmem⟩)
    · exact ⟨[], m, ms, g, rfl, mutates_nil.mpr rfl, hmem⟩
    · exact ⟨m :: pre, m', post, gᵢ, rfl, mutates_cons.mpr ⟨g₁, n, h, hpre⟩, hmem⟩

omit [CaseMapping] in
/-- The loop gathers the links its mutations affect. -/
theorem applyMutations_affects {affected affected' : LinkSet} {n : Nat}
    (h : applyMutations gen g affected ms = .ok (g', affected', n)) (link : FileLinkId) :
    (affected'.get link).isSome ↔ (affected.get link).isSome ∨ Affects gen g ms link := by
  induction ms generalizing g affected n with
  | nil =>
    obtain ⟨rfl, rfl, -⟩ := Prod.mk.inj (Except.ok.inj h) |>.imp id Prod.mk.inj
    simp [Affects]
  | cons m ms ih =>
    simp only [applyMutations, bind_ok] at h
    obtain ⟨⟨g₁, n₁⟩, h₁, ⟨g₂, affected₂, n₂⟩, h₂, heq⟩ := h
    obtain ⟨rfl, rfl, -⟩ := Prod.mk.inj (Except.ok.inj heq) |>.imp id Prod.mk.inj
    rw [ih h₂, affects_cons h₁, collectAffectedLinks, LinkSet.get_addAll, or_assoc]

omit [CaseMapping] in
/-- A link the batch writes is affected. -/
theorem affects_of_write {id : FileLinkId} (h : Mutates gen g ms g')
    (hwrite : lastWrite (linkLog ms) id ≠ none) : Affects gen g ms id := by
  obtain ⟨value, hvalue⟩ := Option.ne_none_iff_exists'.mp hwrite
  obtain ⟨m, hm, hw⟩ := List.mem_flatMap.mp (lastWrite_mem hvalue)
  obtain ⟨pre, post, rfl⟩ := List.append_of_mem hm
  obtain ⟨gᵢ, hpre, -⟩ := mutates_append.mp h
  refine ⟨pre, m, post, gᵢ, rfl, hpre, ?_⟩
  cases m with
  | upsertLink link boundary =>
    obtain ⟨rfl, -⟩ := Prod.mk.inj (List.mem_singleton.mp hw)
    exact List.mem_cons_self
  | removeLink j object =>
    obtain ⟨rfl, -⟩ := Prod.mk.inj (List.mem_singleton.mp hw)
    exact List.mem_cons_self
  | _ => cases hw

omit [CaseMapping] in
/-- A link of the object that the second run finds was written by the batch, or
the first run found it too. -/
theorem Applied.linksOf {key : FileKey} (ha : Applied v gen g (pre ++ rest) g₁ g')
    {gᵢ hᵢ : FilesystemGraph} (hfirst : Mutates gen g pre gᵢ) (hpre : Mutates gen' g' pre hᵢ)
    {link : StoredLink} (hlink : link ∈ linksOf hᵢ key) :
    Affects gen g (pre ++ rest) link.fileLinkId ∨ link ∈ linksOf gᵢ key := by
  obtain ⟨hload, hkey⟩ := mem_linksOf.mp hlink
  rcases ha.link_cases hfirst hpre link.fileLinkId with ⟨-, hlate⟩ | ⟨-, hsame⟩
  · refine .inl (affects_of_write ha.run ?_)
    rw [linkLog_append, lastWrite_append, hlate]
    exact Option.some_ne_none _
  · exact .inr (mem_linksOf.mpr ⟨hsame.symm.trans hload, hkey⟩)

omit [CaseMapping] in
/-- The second run affects no link that the first did not affect. -/
theorem Applied.affects (ha : Applied v gen g ms g₁ g')
    (hcatalog : ∀ id, ¬ Affects gen g ms id →
      g'.catalog.get (documentIdForLink id) = g.catalog.get (documentIdForLink id))
    (hwf : CatalogWF g' ∅) {id : FileLinkId} (h : Affects gen' g' ms id) : Affects gen g ms id := by
  obtain ⟨pre, m, post, hᵢ, rfl, hpre, hmem⟩ := h
  obtain ⟨gᵢ, hfirst, -⟩ := mutates_append.mp ha.run
  have hclosed : ∀ {x : FilesystemGraph}, x.sessions = g.sessions → m.InVolume v →
      ∀ link boundary, m = .upsertLink link boundary → staleObservationLinkConflicts x link = [] := by
    rintro x hx hm link boundary rfl
    refine staleObservationLinkConflicts_nil ?_
    rw [hx, hm.1]
    exact ha.closed
  have hsame : id ∈ affectedLinks gᵢ m → Affects gen g (pre ++ m :: post) id :=
    fun hmem => ⟨pre, m, post, gᵢ, rfl, hfirst, hmem⟩
  have hm := ha.volume m (List.mem_append_right _ List.mem_cons_self)
  cases m with
  | upsertLink link boundary =>
    refine hsame ?_
    rw [affectedLinks, hclosed hfirst.sessions hm link boundary rfl]
    rw [affectedLinks, hclosed (hpre.sessions.trans ha.sessions) hm link boundary rfl] at hmem
    exact hmem
  | removeLink j object => exact hsame hmem
  | upsertObject object =>
    obtain ⟨link, hlink, rfl⟩ := List.mem_map.mp hmem
    exact (ha.linksOf hfirst hpre hlink).elim (fun h => h) fun h => hsame (List.mem_map_of_mem h)
  | tombstoneObject key =>
    rcases List.mem_append.mp hmem with hmem | hmem
    · obtain ⟨link, hlink, rfl⟩ := List.mem_map.mp hmem
      exact (ha.linksOf hfirst hpre hlink).elim (fun h => h)
        fun h => hsame (List.mem_append_left _ (List.mem_map_of_mem h))
    · -- a document of the object that no sync of the batch touched was there before
      obtain ⟨⟨d, row⟩, hrow, rfl⟩ := List.mem_map.mp hmem
      obtain ⟨hget, hkey⟩ := Table.mem_select.mp hrow
      rw [hpre.frame] at hget
      obtain ⟨document, rfl, hlink, -⟩ := hwf.compact d row hget
      by_cases haffects : Affects gen g (pre ++ .tombstoneObject key :: post) (linkOfDocument d)
      · rw [← hlink] at haffects
        exact haffects
      · refine hsame (List.mem_append_right _ (List.mem_map.mpr ⟨(d, _), ?_, rfl⟩))
        refine Table.mem_select.mpr ⟨?_, hkey⟩
        rw [hfirst.frame]
        exact (hcatalog _ haffects).symm.trans hget
  | upsertVolume | setVolumeState | requireReconciliation => cases hmem

end Repeat

section Batch

variable [CaseMapping] {g g' : FilesystemGraph} {batch : GraphMutationBatch}
  {mode : ProjectionOutboxMode} {summary : ApplySummary}

/-- Applying the batch is accepted, leaves content, checkpoints and desired
documents as they are and appends nothing to the outbox. -/
def Idempotent (g : FilesystemGraph) (batch : GraphMutationBatch) (mode : ProjectionOutboxMode) : Prop :=
  ∃ g' summary, applyBatchWithOutboxMode g batch mode = .ok (g', summary) ∧ SameContent g g' ∧
    g'.checkpoints = g.checkpoints ∧ desiredCatalogDocuments g' = desiredCatalogDocuments g ∧
    g'.outbox = g.outbox ∧ summary.outboxMutationsAppended = 0

omit [CaseMapping] in
/-- The last writes of a batch do not touch what documents are built from. -/
theorem SameContent.commit (g : FilesystemGraph) (v : VolumeId) (gen : Nat) (row : CheckpointRow) :
    SameContent g (putCheckpoint (Graph.setGeneration g v gen) v row) :=
  (SameContent.setGeneration g v gen).trans (.of_tables rfl rfl rfl)

/-- What an accepted batch leaves for its second application. -/
theorem applyBatchWithOutboxMode_applied (hwf : WellFormed g)
    (hs : g.sessions.get batch.volumeId = none)
    (h : applyBatchWithOutboxMode g batch mode = .ok (g', summary)) :
    ∃ g₁, Applied batch.volumeId (currentGeneration g batch.volumeId + 1) g batch.mutations g₁ g' ∧
      currentGeneration g' batch.volumeId = currentGeneration g batch.volumeId + 1 ∧
      g'.consumers = g.consumers ∧
      g'.checkpoints.get batch.volumeId = some (ProviderCheckpoint.row batch.checkpoint) ∧
      (∀ id, Affects (currentGeneration g batch.volumeId + 1) g batch.mutations id → Synced g' id) ∧
      ∀ id, ¬ Affects (currentGeneration g batch.volumeId + 1) g batch.mutations id →
        g'.catalog.get (documentIdForLink id) = g.catalog.get (documentIdForLink id) := by
  have hwf' := wellFormed_of_transacts (applyBatchWithOutboxMode_transacts (R := True) (.inl trivial) h) hwf
  obtain ⟨-, hms, -, -, g₁, g₂, affected, jobs, appended, h₁, h₂, ⟨volume, hvol⟩, rfl⟩ :=
    applyBatchWithOutboxMode_ok h
  have hrun : Mutates (currentGeneration g batch.volumeId + 1) g batch.mutations g₁ := ⟨_, _, _, h₁⟩
  have hsync := syncLinks_frame h₂
  have hgen : currentGeneration (putCheckpoint (setGeneration g₂ batch.volumeId
      (currentGeneration g batch.volumeId + 1)) batch.volumeId
      (ProviderCheckpoint.row batch.checkpoint)) batch.volumeId =
      currentGeneration g batch.volumeId + 1 := currentGeneration_setGeneration hvol
  have hcommit := SameContent.commit g₂ batch.volumeId (currentGeneration g batch.volumeId + 1)
    (ProviderCheckpoint.row batch.checkpoint)
  have hmem : ∀ id, Affects (currentGeneration g batch.volumeId + 1) g batch.mutations id ↔
      id ∈ affected.rows.map (·.1) := by
    intro id
    have hiff := applyMutations_affects h₁ id
    simp only [Table.get_empty, Option.isSome_none, Bool.false_eq_true, false_or] at hiff
    exact hiff.symm.trans LinkSet.mem_members
  refine ⟨g₁, ⟨hwf.names, hs, hms, Nat.le_succ _, hrun, ?_, hwf'.names, ?_, ?_⟩, hgen, ?_,
    Table.get_insert_self _ _ _, ?_, ?_⟩
  · exact SameContent.trans (.of_tables (by rw [hsync]) (by rw [hsync]) (by rw [hsync])) hcommit
  · change g₂.sessions = g.sessions
    rw [hsync]
    exact hrun.sessions
  · rw [hgen]
    exact Nat.le_succ _
  · change g₂.consumers = g.consumers
    rw [hsync, hrun.frame]
  · intro id hid
    exact (synced_syncLinks h₂ id ((hmem id).mp hid)).congr hcommit rfl
  · intro id hid
    refine (syncLinks_get_notMem h₂ fun hin => hid ((hmem id).mpr hin)).trans ?_
    rw [hrun.frame]

/-- The second application commits the second run of the mutation loop: no
affected document is out of date. -/
theorem Applied.commits {g₁ h : FilesystemGraph} {gen : Nat}
    (ha : Applied batch.volumeId gen g batch.mutations g₁ g')
    (hcheckpoint : batch.checkpoint.volumeId = batch.volumeId)
    (hmode : ¬ (mode = .rebuildable ∧ projectionConsumersExist g' = true))
    (hgen : currentGeneration g' batch.volumeId = gen) (hlt : gen + 1 < 2 ^ 63)
    (hrun : Mutates (gen + 1) g' batch.mutations h) (hsame : SameContent g' h)
    (hsynced : ∀ id, Affects (gen + 1) g' batch.mutations id → Synced g' id)
    (hvolume : (g₁.volumes.get batch.volumeId).isSome) :
    ∃ jobs, applyBatchWithOutboxMode g' batch mode =
      .ok (putCheckpoint (setGeneration h batch.volumeId (gen + 1)) batch.volumeId
        (ProviderCheckpoint.row batch.checkpoint), ⟨batch.mutations.length, gen + 1, jobs, 0⟩) := by
  obtain ⟨affected₀, affected₁, jobs, happly⟩ := id hrun
  obtain ⟨affected, happly⟩ := applyMutations_gathered happly .empty
  have hsync : syncLinks h (gen + 1) mode (affected.rows.map (·.1)) = .ok (h, 0) := by
    refine syncLinks_synced (fun link hlink => ?_) _ _
    have haffects := (applyMutations_affects happly link).mp (LinkSet.mem_members.mpr hlink)
    refine (hsynced link (haffects.resolve_left (by simp))).congr hsame ?_
    rw [hrun.frame]
  have hknown : (h.volumes.get batch.volumeId).isSome := by
    rw [hsame.knownVolume, ha.same.knownVolume]
    exact hvolume
  subst hgen
  exact ⟨jobs, applyBatchWithOutboxMode_of hcheckpoint ha.volume hmode hlt happly hsync hknown⟩

/-- For every reachable graph without an open scan of the volume and every batch
it accepts, in either outbox mode: applying the batch again is a no-op exactly
when the volume has a generation left for it and the batch repeats. -/
theorem batch_idempotent_iff (hg : Reachable g) (hs : g.sessions.get batch.volumeId = none)
    (h : applyBatchWithOutboxMode g batch mode = .ok (g', summary)) :
    Idempotent g' batch mode ↔
      currentGeneration g batch.volumeId + 2 < 2 ^ 63 ∧ Repeats g batch.mutations := by
  have hwf := hg.wellFormed
  have hwf' := wellFormed_of_transacts (applyBatchWithOutboxMode_transacts (R := True) (.inl trivial) h) hwf
  obtain ⟨hcheckpoint, -, hmode, -, -⟩ := applyBatchWithOutboxMode_ok h
  obtain ⟨g₁, ha, hgen, hconsumers, hrow, hsynced, hcatalog⟩ :=
    applyBatchWithOutboxMode_applied hwf hs h
  have haccepts : _ ↔ ∀ a m b, batch.mutations = a ++ m :: b → AdmitsLater ([] ++ a) m b :=
    Applied.accepts ha (mutates_nil.mpr rfl)
  constructor
  · rintro ⟨g'', summary', happly, hsame, -⟩
    obtain ⟨-, -, -, hlt, h₁, h₂, affected, jobs, appended, hloop, hsync, -, rfl⟩ :=
      applyBatchWithOutboxMode_ok happly
    rw [hgen] at hlt hloop
    have hrun : Mutates (currentGeneration g batch.volumeId + 1 + 1) g' batch.mutations h₁ :=
      ⟨_, _, _, hloop⟩
    have hframe := syncLinks_frame hsync
    have hsame₁ : SameContent g' h₁ := hsame.trans (SameContent.trans
      (.of_tables (by rw [hframe]) (by rw [hframe]) (by rw [hframe])) (SameContent.commit ..)).symm
    refine ⟨hlt, fun pre m post heq => ⟨?_, ?_⟩⟩
    · exact haccepts.mp ⟨h₁, hrun⟩ pre m post heq
    · exact (ha.same_iff hrun).mp hsame₁ pre m post heq
  · rintro ⟨hlt, hrepeats⟩
    obtain ⟨h₁, hrun⟩ := haccepts.mpr fun pre m post heq => (hrepeats pre m post heq).1
    have hsame : SameContent g' h₁ :=
      (ha.same_iff hrun).mpr fun pre m post heq => (hrepeats pre m post heq).2
    have hmode' : ¬ (mode = .rebuildable ∧ projectionConsumersExist g' = true) := by
      rw [projectionConsumersExist, hconsumers]
      exact hmode
    have hvolume : (g₁.volumes.get batch.volumeId).isSome := by
      obtain ⟨-, -, -, -, -, g₂, _, _, _, -, -, ⟨row, hvol⟩, rfl⟩ := applyBatchWithOutboxMode_ok h
      rw [← ha.same.knownVolume]
      simp [putCheckpoint, setGeneration, Table.get_modify, hvol]
    obtain ⟨jobs, happly⟩ := ha.commits hcheckpoint hmode' hgen hlt hrun
      hsame (fun id hid => hsynced id (ha.affects hcatalog hwf'.catalog hid)) hvolume
    have hcommit := hsame.trans (SameContent.commit h₁ batch.volumeId
      (currentGeneration g batch.volumeId + 1 + 1) (ProviderCheckpoint.row batch.checkpoint))
    refine ⟨_, _, happly, hcommit, ?_, hcommit.desiredCatalogDocuments ?_, ?_, rfl⟩
    · refine Table.ext_get fun w => ?_
      change (h₁.checkpoints.insert _ _).get w = _
      rw [hrun.frame, Table.get_insert]
      split_ifs with hw
      · rw [hw, hrow]
      · rfl
    · change h₁.catalog = g'.catalog
      rw [hrun.frame]
    · change h₁.outbox = g'.outbox
      rw [hrun.frame]

end Batch

section Example

attribute [local instance] asciiCaseMapping

def treeOps : List GraphOp := [.applyBatch (sampleBatch sampleTree)]

def treeGraph : FilesystemGraph := (runOps .empty treeOps).toOption.getD .empty

theorem treeGraph_reachable : Reachable treeGraph := by
  have hrun : runOps .empty treeOps = .ok treeGraph := by decide
  exact runOps_steps (fun _ _ _ => trivial) hrun

/-- The file `a` is renamed. -/
def renameBatch : GraphMutationBatch :=
  sampleBatch [.upsertLink (sampleLink 1 3 (some 2) "c") false]

def renamedTree : FilesystemGraph := ((applyBatch treeGraph renameBatch).toOption.map (·.1)).getD .empty

theorem renamedTree_idempotent : Idempotent renamedTree renameBatch .durable := by
  have happly : ∃ summary, applyBatchWithOutboxMode treeGraph renameBatch .durable =
      .ok (renamedTree, summary) := ⟨⟨1, 2, 0, 1⟩, by decide⟩
  obtain ⟨summary, happly⟩ := happly
  refine (batch_idempotent_iff treeGraph_reachable (by decide) happly).mpr
    ⟨by decide, fun pre m post heq => ?_⟩
  obtain ⟨rfl, rfl, rfl⟩ : pre = [] ∧ m = .upsertLink (sampleLink 1 3 (some 2) "c") false ∧
      post = [] := by
    cases pre with
    | nil =>
      obtain ⟨rfl, rfl⟩ := List.cons.inj heq
      exact ⟨rfl, rfl, rfl⟩
    | cons x pre =>
      have hnil := (List.cons.inj heq).2
      simp at hnil
  refine ⟨fun id link _ hlast => ?_, fun key hobs => hobs.elim⟩
  obtain ⟨-, hlink⟩ := Prod.mk.inj (List.mem_singleton.mp (lastWrite_mem hlast))
  obtain rfl := Option.some.inj hlink
  decide

/-- The file `a` becomes `c` by way of a temporary name, which `b` then takes. -/
def shiftBatch : GraphMutationBatch :=
  sampleBatch [.upsertLink (sampleLink 1 3 (some 2) "tmp") false,
    .upsertLink (sampleLink 1 3 (some 2) "c") false,
    .upsertLink (sampleLink 2 4 (some 2) "tmp") false]

def shiftedTree : FilesystemGraph := ((applyBatch treeGraph shiftBatch).toOption.map (·.1)).getD .empty

/-- The second time the temporary name is taken already. -/
theorem shiftedTree_not_idempotent :
    Reachable treeGraph ∧ treeGraph.sessions = .empty ∧
      (∃ summary, applyBatch treeGraph shiftBatch = .ok (shiftedTree, summary)) ∧
      ¬ Idempotent shiftedTree shiftBatch .durable := by
  refine ⟨treeGraph_reachable, by decide, ⟨⟨3, 2, 0, 2⟩, by decide⟩, ?_⟩
  rintro ⟨g', summary, happly, -⟩
  have hrefused : applyBatchWithOutboxMode shiftedTree shiftBatch .durable =
      .error (.sqlite .uniqueViolation) := by decide
  rw [hrefused] at happly
  cases happly

end Example

end LocalSearch.Graph
