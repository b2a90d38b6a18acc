import LocalSearch.Graph.WellFormed

/-!
# Fresh documents

A document is fresh when it stores the content a sync of its link would store
now. A sync succeeds on every well-formed graph, freshens its own link and
leaves every other document alone; a page of syncs freshens the whole page.
-/
namespace LocalSearch.Graph

set_option autoImplicit false

open Core Lib

variable [CaseMapping]

/-- The content a sync of the link would store now. -/
def desiredContent (g : FilesystemGraph) (id : FileLinkId) : Option CatalogContent :=
  (loadLink g id).bind fun link =>
    (buildCatalogDocument g link 0).toOption.map CatalogContent.ofDocument

omit [CaseMapping] in
/-- The content the desired row of the link holds. -/
def storedContent (g : FilesystemGraph) (id : FileLinkId) : Option CatalogContent :=
  (g.catalog.get (documentIdForLink id)).bind (·.projectionFingerprint)

def Fresh (g : FilesystemGraph) (id : FileLinkId) : Prop := storedContent g id = desiredContent g id

theorem buildCatalogDocument_version (g : FilesystemGraph) (link : StoredLink) (version : Nat) :
    (buildCatalogDocument g link 0).toOption.map CatalogContent.ofDocument =
      (buildCatalogDocument g link version).toOption.map CatalogContent.ofDocument := by
  unfold buildCatalogDocument
  cases loadObjectMetadata g link.objectKey with
  | error e => rfl
  | ok metadata =>
    cases volumeState g link.objectKey.volumeId with
    | error e => rfl
    | ok state => cases resolvePath g link.fileLinkId projectionDepth <;> rfl

theorem desiredContent_of_link {g : FilesystemGraph} {id : FileLinkId} {link : StoredLink}
    (hlink : loadLink g id = some link) (version : Nat) :
    desiredContent g id =
      (buildCatalogDocument g link version).toOption.map CatalogContent.ofDocument := by
  rw [desiredContent, hlink, Option.bind_some, buildCatalogDocument_version g link version]

theorem buildCatalogDocument_congr {g g' : FilesystemGraph} {link : StoredLink} {version : Nat}
    (hobject : g.objects.get link.objectKey = g'.objects.get link.objectKey)
    (hvolume : volumeState g link.objectKey.volumeId = volumeState g' link.objectKey.volumeId)
    (hpath : resolvePath g link.fileLinkId projectionDepth =
      resolvePath g' link.fileLinkId projectionDepth) :
    buildCatalogDocument g link version = buildCatalogDocument g' link version := by
  simp only [buildCatalogDocument, loadObjectMetadata, hobject, hvolume, hpath]

/-- Of a volume only its state is read. -/
theorem desiredContent_state_congr {g g' : FilesystemGraph} (hlinks : g.links = g'.links)
    (hobjects : g.objects = g'.objects) (hstates : ∀ v, volumeState g v = volumeState g' v)
    (id : FileLinkId) : desiredContent g id = desiredContent g' id := by
  have hload : loadLink g id = loadLink g' id := by simp only [loadLink, hlinks]
  rw [desiredContent, desiredContent, hload]
  refine Option.bind_congr fun link _ => ?_
  rw [buildCatalogDocument_congr (by rw [hobjects]) (hstates _) (resolvePath_of_links hlinks _ _)]

theorem desiredContent_congr {g g' : FilesystemGraph} (hlinks : g.links = g'.links)
    (hobjects : g.objects = g'.objects) (hvolumes : g.volumes = g'.volumes) (id : FileLinkId) :
    desiredContent g id = desiredContent g' id :=
  desiredContent_state_congr hlinks hobjects (fun v => by simp only [volumeState, hvolumes]) id

/-- Freshness of a link survives whatever leaves its row and the rows behind it
alone. -/
theorem Fresh.of_frame {g g' : FilesystemGraph} {id : FileLinkId} (h : Fresh g id)
    (hcatalog : g'.catalog.get (documentIdForLink id) = g.catalog.get (documentIdForLink id))
    (hlinks : g'.links = g.links) (hobjects : g'.objects = g.objects)
    (hvolumes : g'.volumes = g.volumes) : Fresh g' id := by
  rw [Fresh, storedContent, hcatalog, desiredContent_congr hlinks hobjects hvolumes]
  exact h

section Sync

variable {g g' : FilesystemGraph} {A : Set FileLinkId} {gen n : Nat} {mode : ProjectionOutboxMode}

theorem desiredContent_sync {id : FileLinkId} (h : syncCatalogProjection g id gen mode = .ok (g', n))
    (j : FileLinkId) : desiredContent g' j = desiredContent g j :=
  desiredContent_congr (by rw [syncCatalogProjection_frame h]) (by rw [syncCatalogProjection_frame h])
    (by rw [syncCatalogProjection_frame h]) j

theorem fresh_sync {id : FileLinkId} (hwf : CatalogWF g A)
    (h : syncCatalogProjection g id gen mode = .ok (g', n)) : Fresh g' id := by
  rw [Fresh, desiredContent_sync h]
  rcases syncCatalogProjection_ok h with ⟨hgone, h⟩ | ⟨link, document, hlink, hbuild, hun, rfl⟩ |
    ⟨link, document, hlink, hbuild, -, h⟩
  · obtain rfl : _ = g' := congrArg Prod.fst h
    have hstored : storedContent (deleteCatalogProjection g (documentIdForLink id) gen mode).1 id =
        none := by
      rw [storedContent, deleteCatalogProjection_catalog, Table.get_erase, if_pos rfl]
      rfl
    rw [hstored]
    rcases hgone with hnone | ⟨link, error, hlink, hbuild, -⟩
    · rw [desiredContent, hnone]
      rfl
    · rw [desiredContent_of_link hlink gen, hbuild]
      rfl
  · rw [desiredContent_of_link hlink gen, hbuild, storedContent]
    cases hrow : g'.catalog.get (documentIdForLink id) with
    | none => rw [hrow] at hun; cases hun
    | some row =>
      obtain ⟨stored, rfl, -⟩ := hwf.compact _ row hrow
      rw [hrow] at hun
      have hcontent : CatalogContent.ofDocument stored = CatalogContent.ofDocument document := by
        simpa [contentUnchanged, compactRow] using hun
      exact congrArg some hcontent
  · obtain rfl : _ = g' := congrArg Prod.fst h
    rw [desiredContent_of_link hlink gen, hbuild, storedContent, putCatalogDocument_catalog,
      (buildCatalogDocument_own hlink hbuild).1, Table.get_insert_self]
    rfl

theorem syncLinks_get_notMem {ids : List FileLinkId} (h : syncLinks g gen mode ids = .ok (g', n))
    {id : FileLinkId} (hid : id ∉ ids) :
    g'.catalog.get (documentIdForLink id) = g.catalog.get (documentIdForLink id) := by
  refine syncLinks_induct (P := fun h => h.catalog.get (documentIdForLink id) =
    g.catalog.get (documentIdForLink id)) ?_ h rfl
  intro x hx g₁ g₂ n₁ hsame hstep
  rw [← hsame]
  exact syncCatalogProjection_get_ne hstep fun he => hid (documentIdForLink_injective he ▸ hx)

/-- After a page of syncs every link of the page is fresh. -/
theorem fresh_syncLinks {ids : List FileLinkId} (hwf : CatalogWF g A)
    (h : syncLinks g gen mode ids = .ok (g', n)) : ∀ id ∈ ids, Fresh g' id := by
  induction ids generalizing g A n with
  | nil => exact fun id hid => absurd hid List.not_mem_nil
  | cons x xs ih =>
    simp only [syncLinks, bind_ok] at h
    obtain ⟨⟨g₁, n₁⟩, h₁, ⟨g₂, n₂⟩, h₂, heq⟩ := h
    obtain ⟨rfl, -⟩ := Prod.mk.inj (Except.ok.inj heq)
    intro id hid
    by_cases hmem : id ∈ xs
    · exact ih (catalogWF_sync hwf h₁) h₂ id hmem
    · obtain rfl : id = x := (List.mem_cons.mp hid).resolve_right hmem
      refine (fresh_sync hwf h₁).of_frame (syncLinks_get_notMem h₂ hmem) ?_ ?_ ?_ <;>
        rw [syncLinks_frame h₂]

end Sync

omit [CaseMapping] in
theorem loadOnlyLinkForObject_unresolvable {g : FilesystemGraph} {o : FileKey} {e : GraphError}
    (h : loadOnlyLinkForObject g o = .error e) : e.unresolvable = true := by
  unfold loadOnlyLinkForObject at h
  split at h
  · obtain rfl := Except.error.inj h; rfl
  · cases h
  · obtain rfl := Except.error.inj h; rfl

omit [CaseMapping] in
theorem resolveLoop_unresolvable {g : FilesystemGraph} {limit fuel : Nat} {current : StoredLink}
    {components : List String} {seen : List FileKey} {target : Bool} {e : GraphError}
    (h : resolveLoop g limit fuel current components seen target = .error e) :
    e.unresolvable = true := by
  induction fuel generalizing current components seen target with
  | zero => obtain rfl := Except.error.inj h; rfl
  | succ fuel ih =>
    rw [resolveLoop] at h
    split at h
    · obtain rfl := Except.error.inj h; rfl
    · split at h
      · cases h
      · split at h
        · obtain rfl := Except.error.inj h; rfl
        · rename_i parent _ _
          cases hl : loadOnlyLinkForObject g parent with
          | error e' =>
            rw [hl] at h
            obtain rfl : e' = e := Except.error.inj h
            exact loadOnlyLinkForObject_unresolvable hl
          | ok next =>
            rw [hl] at h
            exact ih h

/-- A failure to resolve a present link is never reported as a missing link. -/
theorem buildCatalogDocument_unresolvable {g : FilesystemGraph} {id : FileLinkId}
    {link : StoredLink} {version : Nat} {e : GraphError} (hwf : NamespaceWF g)
    (hlink : loadLink g id = some link) (h : buildCatalogDocument g link version = .error e) :
    resolvePath g id projectionDepth = .error e ∧ e.unresolvable = true := by
  obtain ⟨row, hrow, rfl⟩ := loadLink_eq_some.mp hlink
  obtain ⟨object, hobj, htomb⟩ := hwf.linkObject id row hrow
  obtain ⟨volume, hvol⟩ := Option.isSome_iff_exists.mp (hwf.objectVolume _ _ hobj)
  have hmeta : loadObjectMetadata g row.objectKey = .ok object.metadata := by
    simp [loadObjectMetadata, hobj, htomb]
  have hstate : volumeState g row.objectKey.volumeId = .ok volume.state := by
    simp [volumeState, hvol]
  have hpath : resolvePath g id projectionDepth = .error e := by
    unfold buildCatalogDocument at h
    simp only [storedLinkFromRow, hmeta, hstate] at h
    cases hp : resolvePath g id projectionDepth with
    | ok path => rw [hp] at h; cases h
    | error e' =>
      rw [hp] at h
      obtain rfl : e' = e := Except.error.inj h
      rfl
  refine ⟨hpath, ?_⟩
  rw [resolvePath, if_neg (by decide), hlink] at hpath
  exact resolveLoop_unresolvable hpath

theorem CatalogRows.sync_total {L : CatalogDocument → CatalogRow → Prop} (hL : Layout L)
    {g : FilesystemGraph} {A : Set FileLinkId} (hn : NamespaceWF g) (hc : CatalogRows L g A)
    (id : FileLinkId) (gen : Nat) (mode : ProjectionOutboxMode) :
    ∃ g' n, syncCatalogProjection g id gen mode = .ok (g', n) := by
  unfold syncCatalogProjection
  cases hlink : loadLink g id with
  | none => exact ⟨_, _, rfl⟩
  | some link =>
    cases hbuild : buildCatalogDocument g link gen with
    | error e =>
      simp only [hbuild, (buildCatalogDocument_unresolvable hn hlink hbuild).2, if_true]
      exact ⟨_, _, rfl⟩
    | ok document =>
      have hun : ∃ b, contentUnchanged (g.catalog.get (documentIdForLink id)) document = .ok b := by
        cases hrow : g.catalog.get (documentIdForLink id) with
        | none => exact ⟨false, rfl⟩
        | some row =>
          obtain ⟨stored, hstored, -⟩ := hc.stored _ row hrow
          exact ⟨_, hL.unchanged stored row hstored document⟩
      obtain ⟨b, hb⟩ := hun
      simp only [hbuild, hb]
      cases b <;> exact ⟨_, _, rfl⟩

theorem CatalogRows.syncLinks_total {L : CatalogDocument → CatalogRow → Prop} (hL : Layout L)
    {g : FilesystemGraph} {A : Set FileLinkId} (hn : NamespaceWF g) (hc : CatalogRows L g A)
    (gen : Nat) (mode : ProjectionOutboxMode) (ids : List FileLinkId) :
    ∃ g' n, syncLinks g gen mode ids = .ok (g', n) := by
  induction ids generalizing g A with
  | nil => exact ⟨g, 0, rfl⟩
  | cons id ids ih =>
    obtain ⟨g₁, n₁, h₁⟩ := hc.sync_total hL hn id gen mode
    have hn₁ : NamespaceWF g₁ := by
      rw [syncCatalogProjection_frame h₁]
      exact ⟨hn.objectVolume, hn.linkObject, hn.linkParent, hn.slots⟩
    obtain ⟨g₂, n₂, h₂⟩ := ih hn₁ (hc.sync hL h₁)
    exact ⟨g₂, n₁ + n₂, bind_ok.mpr ⟨_, h₁, bind_ok.mpr ⟨_, h₂, rfl⟩⟩⟩

theorem syncCatalogProjection_total {g : FilesystemGraph} {A : Set FileLinkId} (hn : NamespaceWF g)
    (hc : CatalogWF g A) (id : FileLinkId) (gen : Nat) (mode : ProjectionOutboxMode) :
    ∃ g' n, syncCatalogProjection g id gen mode = .ok (g', n) :=
  (catalogWF_iff.mp hc).sync_total layout_compact hn id gen mode

theorem syncLinks_total {g : FilesystemGraph} {A : Set FileLinkId} (hn : NamespaceWF g)
    (hc : CatalogWF g A) (gen : Nat) (mode : ProjectionOutboxMode) (ids : List FileLinkId) :
    ∃ g' n, syncLinks g gen mode ids = .ok (g', n) :=
  (catalogWF_iff.mp hc).syncLinks_total layout_compact hn gen mode ids

/-- The document behind a fresh row. -/
theorem Fresh.build {g : FilesystemGraph} {A : Set FileLinkId} {id : FileLinkId} {row : CatalogRow}
    (h : Fresh g id) (hwf : CatalogWF g A)
    (hrow : g.catalog.get (documentIdForLink id) = some row) :
    ∃ stored link document, row = compactRow stored ∧ loadLink g id = some link ∧
      buildCatalogDocument g link 0 = .ok document ∧
      CatalogContent.ofDocument document = CatalogContent.ofDocument stored := by
  obtain ⟨stored, rfl, -⟩ := hwf.compact _ row hrow
  rw [Fresh, storedContent, hrow] at h
  have hdes : desiredContent g id = some (CatalogContent.ofDocument stored) := h.symm
  cases hlink : loadLink g id with
  | none => rw [desiredContent, hlink] at hdes; cases hdes
  | some link =>
    rw [desiredContent_of_link hlink 0] at hdes
    cases hbuild : buildCatalogDocument g link 0 with
    | error e => rw [hbuild] at hdes; cases hdes
    | ok document =>
      rw [hbuild] at hdes
      exact ⟨stored, link, document, rfl, rfl, hbuild, Option.some.inj hdes⟩

/-- A fresh document reports the availability a reader would see. -/
theorem Fresh.reportsAvailability {g : FilesystemGraph} {A : Set FileLinkId} {id : FileLinkId}
    {row : CatalogRow} (h : Fresh g id) (hwf : CatalogWF g A)
    (hrow : g.catalog.get (documentIdForLink id) = some row) : ReportsAvailability g row := by
  obtain ⟨stored, link, document, rfl, -, hbuild, hcontent⟩ := h.build hwf hrow
  obtain ⟨object, volume, path, hobj, -, hvol, -, rfl⟩ := buildCatalogDocument_ok hbuild
  have hkey : link.objectKey = stored.identity.objectKey :=
    congrArg (·.identity.objectKey) hcontent
  have havail := congrArg (·.metadata.availability) hcontent
  intro content hc o ho vol hv
  obtain rfl := Option.some.inj hc
  simp only [compactRow, ← hkey] at ho hv
  rw [hobj] at ho
  rw [hvol] at hv
  obtain rfl := Option.some.inj ho
  obtain rfl := Option.some.inj hv
  exact havail.symm

/-- The row of a fresh link stores the path the link resolves to. -/
theorem Fresh.path {g : FilesystemGraph} {A : Set FileLinkId} {id : FileLinkId} {row : CatalogRow}
    (h : Fresh g id) (hwf : CatalogWF g A)
    (hrow : g.catalog.get (documentIdForLink id) = some row) :
    ∃ path, resolvePath g id projectionDepth = .ok path ∧
      row.projectionPath = some (displayPath path) := by
  obtain ⟨stored, link, document, rfl, hlink, hbuild, hcontent⟩ := h.build hwf hrow
  obtain ⟨lrow, -, rfl⟩ := loadLink_eq_some.mp hlink
  obtain ⟨object, volume, path, -, -, -, hpath, rfl⟩ := buildCatalogDocument_ok hbuild
  exact ⟨path, hpath, congrArg some (congrArg (·.resolvedPath) hcontent).symm⟩

/-- A fresh link that resolves has a row. -/
theorem Fresh.isSome {g : FilesystemGraph} {id : FileLinkId} {path : List String} (h : Fresh g id)
    (hwf : NamespaceWF g) (hpath : resolvePath g id projectionDepth = .ok path) :
    (g.catalog.get (documentIdForLink id)).isSome := by
  obtain ⟨link, hlink⟩ := loadLink_of_resolvePath hpath
  cases hrow : g.catalog.get (documentIdForLink id) with
  | some row => rfl
  | none =>
    rw [Fresh, storedContent, hrow, desiredContent_of_link hlink 0] at h
    cases hbuild : buildCatalogDocument g link 0 with
    | ok document => rw [hbuild] at h; cases h
    | error e =>
      rw [(buildCatalogDocument_unresolvable hwf hlink hbuild).1] at hpath
      cases hpath

end LocalSearch.Graph
