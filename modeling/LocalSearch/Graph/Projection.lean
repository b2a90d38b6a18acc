import LocalSearch.Graph.Path

/-!
# The desired catalog projection and its outbox

`syncCatalogProjection` brings the desired row of one link up to date with the
link, object and volume rows it is derived from, and appends the change to the
outbox in durable mode. Desired documents are rebuilt on read from the joined
rows, so they are not simply what the last sync stored.
-/
namespace LocalSearch.Graph

set_option autoImplicit false

open Core Lib

/-- Unicode lower-casing as the standard library provides it. -/
class CaseMapping where
  toLowercase : String → String

variable [CaseMapping]

/-- Whether changes are also written to the projection outbox. -/
inductive ProjectionOutboxMode where
  | durable
  | rebuildable
  deriving DecidableEq, Repr

/-- The part after the last dot, when the name has one. -/
def afterLastDot (name : String) : Option (List Char) :=
  let tail := name.toList.reverse.takeWhile (· ≠ '.')
  if tail.length = name.toList.length then none else some tail.reverse

def extensionForName (name : String) : Option String :=
  match afterLastDot name with
  | none => none
  | some extension =>
      if extension.isEmpty then none else some (CaseMapping.toLowercase (String.ofList extension))

/-- The availability a document reports while its volume is in `state`. -/
def effectiveAvailability (state : VolumeState) (stored : Availability) : Availability :=
  match state with
  | .online => stored
  | .offline => .offline
  | .needsReconciliation => .unknown

def volumeState (g : FilesystemGraph) (volumeId : VolumeId) : GraphResult VolumeState :=
  match g.volumes.get volumeId with
  | none => .error (.invariant "catalog object references a missing volume")
  | some row => .ok row.state

def loadObjectMetadata (g : FilesystemGraph) (object : FileKey) : GraphResult FileMetadata :=
  match g.objects.get object with
  | none => .error (.invariant "catalog link references a missing object")
  | some row =>
      if row.tombstoned then .error (.invariant "catalog link references a missing object")
      else .ok row.metadata

/-- Depth limit of projected paths. -/
def projectionDepth : Nat := 512

def buildCatalogDocument (g : FilesystemGraph) (link : StoredLink) (version : Nat) :
    GraphResult CatalogDocument := do
  let metadata ← loadObjectMetadata g link.objectKey
  let state ← volumeState g link.objectKey.volumeId
  let path ← resolvePath g link.fileLinkId projectionDepth
  .ok {
    identity := ⟨link.objectKey, link.fileLinkId, documentIdForLink link.fileLinkId⟩
    documentVersion := version
    name := link.name
    resolvedPath := displayPath path
    extension := extensionForName link.name
    metadata := { metadata with availability := effectiveAvailability state metadata.availability } }

/-- Failures of path resolution that make a link unprojectable. -/
def GraphError.unresolvable : GraphError → Bool
  | .missingParent _ | .ambiguousParent _ | .parentCycle _ | .traversalBoundary _
  | .depthLimit _ => true
  | _ => false

/-- The next `AUTOINCREMENT` sequence lies past the high-water mark and past
every row still present. -/
def nextOutboxSequence (g : FilesystemGraph) : Nat :=
  max (g.sqliteSequence.getD 0) (g.outbox.lastKey.getD 0) + 1

def appendOutbox (g : FilesystemGraph) (documentId : DocumentId) (documentVersion : Nat)
    (mutation : IndexMutation) : FilesystemGraph :=
  { g with
    outbox := g.outbox.insert (nextOutboxSequence g) ⟨documentId, documentVersion, mutation⟩
    sqliteSequence := some (nextOutboxSequence g) }

def deleteCatalogProjection (g : FilesystemGraph) (documentId : DocumentId) (version : Nat)
    (mode : ProjectionOutboxMode) : FilesystemGraph × Nat :=
  match g.catalog.get documentId with
  | none => (g, 0)
  | some _ =>
      match mode with
      | .durable =>
          let g := appendOutbox g documentId version (.delete documentId version)
          ({ g with catalog := g.catalog.erase documentId }, 1)
      | .rebuildable => ({ g with catalog := g.catalog.erase documentId }, 0)

/-- Decode the full-document payload of a legacy row. -/
def decodeLegacy (payload : Option CatalogDocument) : GraphResult CatalogDocument :=
  match payload with
  | none => .error .serialization
  | some document => .ok document

/-- Compact rows compare fingerprints, legacy rows compare content. -/
def contentUnchanged (previous : Option CatalogRow) (document : CatalogDocument) :
    GraphResult Bool :=
  match previous with
  | none => .ok false
  | some row =>
      match row.projectionFingerprint with
      | some fingerprint => .ok (fingerprint == CatalogContent.ofDocument document)
      | none => do
          let legacy ← decodeLegacy row.documentJson
          .ok (CatalogContent.ofDocument legacy == CatalogContent.ofDocument document)

/-- The compact row written for a projected document. -/
def compactRow (document : CatalogDocument) : CatalogRow where
  objectKey := document.identity.objectKey
  fileLinkId := document.identity.fileLinkId
  documentVersion := document.documentVersion
  documentJson := none
  projectionPath := some document.resolvedPath
  projectionFingerprint := some (CatalogContent.ofDocument document)

def putCatalogDocument (g : FilesystemGraph) (document : CatalogDocument)
    (mode : ProjectionOutboxMode) : FilesystemGraph × Nat :=
  let documentId := document.identity.documentId
  let g := { g with catalog := g.catalog.insert documentId (compactRow document) }
  match mode with
  | .durable => (appendOutbox g documentId document.documentVersion (.upsert document), 1)
  | .rebuildable => (g, 0)

def syncCatalogProjection (g : FilesystemGraph) (fileLinkId : FileLinkId) (generation : Nat)
    (mode : ProjectionOutboxMode) : GraphResult (FilesystemGraph × Nat) :=
  let documentId := documentIdForLink fileLinkId
  match loadLink g fileLinkId with
  | none => .ok (deleteCatalogProjection g documentId generation mode)
  | some link =>
      match buildCatalogDocument g link generation with
      | .error error =>
          if error.unresolvable then .ok (deleteCatalogProjection g documentId generation mode)
          else .error error
      | .ok document => do
          let unchanged ← contentUnchanged (g.catalog.get documentId) document
          if unchanged then .ok (g, 0) else .ok (putCatalogDocument g document mode)

/-- Sync a list of links in order, counting the appended mutations. -/
def syncLinks (g : FilesystemGraph) (generation : Nat) (mode : ProjectionOutboxMode) :
    List FileLinkId → GraphResult (FilesystemGraph × Nat)
  | [] => .ok (g, 0)
  | id :: ids => do
      let (g, appended) ← syncCatalogProjection g id generation mode
      let (g, rest) ← syncLinks g generation mode ids
      .ok (g, appended + rest)

/-- `StoredCatalogProjection::into_document` on the joined rows. -/
def intoDocument (documentId : DocumentId) (row : CatalogRow) (link : LinkRow) (object : ObjectRow)
    (volume : VolumeRow) : GraphResult CatalogDocument :=
  match row.projectionPath with
  | none => decodeLegacy row.documentJson
  | some resolvedPath =>
      .ok {
        identity := ⟨row.objectKey, row.fileLinkId, documentId⟩
        documentVersion := row.documentVersion
        name := link.name
        resolvedPath := resolvedPath
        extension := extensionForName link.name
        metadata := { object.metadata with
          availability := effectiveAvailability volume.state object.metadata.availability } }

/-- Inner join of one catalog row with its link, object and volume. -/
def joinedDocument (g : FilesystemGraph) (documentId : DocumentId) (row : CatalogRow) :
    Option (GraphResult CatalogDocument) := do
  let link ← g.links.get row.fileLinkId
  let object ← g.objects.get row.objectKey
  let volume ← g.volumes.get row.objectKey.volumeId
  some (intoDocument documentId row link object volume)

def collectDocuments : List (GraphResult CatalogDocument) → GraphResult (List CatalogDocument)
  | [] => .ok []
  | row :: rows => do
      let document ← row
      let documents ← collectDocuments rows
      .ok (document :: documents)

/-- Every joined row after the cursor, in document order. -/
def joinedRows (g : FilesystemGraph) (after : Option DocumentId) : List (GraphResult CatalogDocument) :=
  (g.catalog.select fun id _ => decide (Table.After after id)).filterMap fun x =>
    joinedDocument g x.1 x.2

def desiredCatalogDocuments (g : FilesystemGraph) : GraphResult (List CatalogDocument) :=
  collectDocuments (joinedRows g none)

def desiredCatalogPage (g : FilesystemGraph) (after : Option DocumentId) (limit : Nat) :
    GraphResult (List CatalogDocument) :=
  collectDocuments ((joinedRows g after).take limit)

def desiredCatalogDocument (g : FilesystemGraph) (documentId : DocumentId) :
    GraphResult (Option CatalogDocument) :=
  match (g.catalog.get documentId).bind (joinedDocument g documentId) with
  | none => .ok none
  | some row => do
      let document ← row
      .ok (some document)

/-- A sync deletes the document of a link that is gone or cannot be resolved,
keeps it when its content is unchanged and replaces it otherwise. -/
theorem syncCatalogProjection_ok {g g' : FilesystemGraph} {id : FileLinkId} {gen n : Nat}
    {mode : ProjectionOutboxMode} (h : syncCatalogProjection g id gen mode = .ok (g', n)) :
    ((loadLink g id = none ∨ ∃ link error, loadLink g id = some link ∧
        buildCatalogDocument g link gen = .error error ∧ error.unresolvable = true) ∧
      deleteCatalogProjection g (documentIdForLink id) gen mode = (g', n)) ∨
    (∃ link document, loadLink g id = some link ∧ buildCatalogDocument g link gen = .ok document ∧
      contentUnchanged (g.catalog.get (documentIdForLink id)) document = .ok true ∧ g' = g) ∨
    (∃ link document, loadLink g id = some link ∧ buildCatalogDocument g link gen = .ok document ∧
      contentUnchanged (g.catalog.get (documentIdForLink id)) document = .ok false ∧
      putCatalogDocument g document mode = (g', n)) := by
  unfold syncCatalogProjection at h
  cases hlink : loadLink g id with
  | none =>
    rw [hlink] at h
    exact Or.inl ⟨Or.inl rfl, Except.ok.inj h⟩
  | some link =>
    rw [hlink] at h
    cases hbuild : buildCatalogDocument g link gen with
    | error error =>
      simp only [hbuild] at h
      split_ifs at h with hu
      exact Or.inl ⟨Or.inr ⟨link, error, rfl, hbuild, hu⟩, Except.ok.inj h⟩
    | ok document =>
      simp only [hbuild, bind_ok] at h
      obtain ⟨unchanged, hun, h⟩ := h
      cases unchanged with
      | true =>
        obtain ⟨rfl, -⟩ := Prod.mk.inj (Except.ok.inj h)
        exact Or.inr (Or.inl ⟨link, document, rfl, hbuild, hun, rfl⟩)
      | false => exact Or.inr (Or.inr ⟨link, document, rfl, hbuild, hun, Except.ok.inj h⟩)

/-- The fields of a built document, read off the rows it was built from. -/
theorem buildCatalogDocument_ok {g : FilesystemGraph} {link : StoredLink} {version : Nat}
    {document : CatalogDocument} (h : buildCatalogDocument g link version = .ok document) :
    ∃ object volume path, g.objects.get link.objectKey = some object ∧ object.tombstoned = false ∧
      g.volumes.get link.objectKey.volumeId = some volume ∧
      resolvePath g link.fileLinkId projectionDepth = .ok path ∧
      document = {
        identity := ⟨link.objectKey, link.fileLinkId, documentIdForLink link.fileLinkId⟩
        documentVersion := version
        name := link.name
        resolvedPath := displayPath path
        extension := extensionForName link.name
        metadata := { object.metadata with
          availability := effectiveAvailability volume.state object.metadata.availability } } := by
  simp only [buildCatalogDocument, bind_ok] at h
  obtain ⟨metadata, hmeta, state, hstate, path, hpath, heq⟩ := h
  unfold loadObjectMetadata at hmeta
  cases hobj : g.objects.get link.objectKey with
  | none => rw [hobj] at hmeta; cases hmeta
  | some object =>
    simp only [hobj, guard_ok, Bool.not_eq_true] at hmeta
    obtain ⟨htomb, hmeta⟩ := hmeta
    obtain rfl := Except.ok.inj hmeta
    unfold volumeState at hstate
    cases hvol : g.volumes.get link.objectKey.volumeId with
    | none => rw [hvol] at hstate; cases hstate
    | some volume =>
      rw [hvol] at hstate
      obtain rfl := Except.ok.inj hstate
      exact ⟨object, volume, path, rfl, htomb, rfl, hpath, (Except.ok.inj heq).symm⟩

omit [CaseMapping] in
theorem deleteCatalogProjection_catalog (g : FilesystemGraph) (d : DocumentId) (version : Nat)
    (mode : ProjectionOutboxMode) :
    (deleteCatalogProjection g d version mode).1.catalog = g.catalog.erase d := by
  unfold deleteCatalogProjection
  cases h : g.catalog.get d with
  | none =>
    refine Table.ext_get fun k => ?_
    by_cases hk : k = d <;> simp [hk, h]
  | some row => cases mode <;> rfl

omit [CaseMapping] in
theorem deleteCatalogProjection_frame (g : FilesystemGraph) (d : DocumentId) (version : Nat)
    (mode : ProjectionOutboxMode) (g' : FilesystemGraph)
    (h : (deleteCatalogProjection g d version mode).1 = g') :
    g' = { g with
      catalog := g'.catalog, outbox := g'.outbox, sqliteSequence := g'.sqliteSequence } := by
  subst h
  unfold deleteCatalogProjection
  cases g.catalog.get d with
  | none => rfl
  | some row => cases mode <;> rfl

omit [CaseMapping] in
theorem putCatalogDocument_catalog (g : FilesystemGraph) (document : CatalogDocument)
    (mode : ProjectionOutboxMode) :
    (putCatalogDocument g document mode).1.catalog =
      g.catalog.insert document.identity.documentId (compactRow document) := by
  cases mode <;> rfl

omit [CaseMapping] in
theorem putCatalogDocument_frame (g : FilesystemGraph) (document : CatalogDocument)
    (mode : ProjectionOutboxMode) (g' : FilesystemGraph)
    (h : (putCatalogDocument g document mode).1 = g') :
    g' = { g with
      catalog := g'.catalog, outbox := g'.outbox, sqliteSequence := g'.sqliteSequence } := by
  subst h
  cases mode <;> rfl

/-- A sync writes the catalog and the outbox only. -/
theorem syncCatalogProjection_frame {g g' : FilesystemGraph} {id : FileLinkId} {gen n : Nat}
    {mode : ProjectionOutboxMode} (h : syncCatalogProjection g id gen mode = .ok (g', n)) :
    g' = { g with
      catalog := g'.catalog, outbox := g'.outbox, sqliteSequence := g'.sqliteSequence } := by
  rcases syncCatalogProjection_ok h with ⟨-, h⟩ | ⟨_, _, -, -, -, rfl⟩ | ⟨_, document, -, -, -, h⟩
  · exact deleteCatalogProjection_frame _ _ _ _ _ (congrArg Prod.fst h)
  · rfl
  · exact putCatalogDocument_frame _ _ _ _ (congrArg Prod.fst h)

/-- A sync touches the document of its own link only. -/
theorem syncCatalogProjection_get_ne {g g' : FilesystemGraph} {id : FileLinkId} {gen n : Nat}
    {mode : ProjectionOutboxMode} (h : syncCatalogProjection g id gen mode = .ok (g', n))
    {d : DocumentId} (hd : d ≠ documentIdForLink id) : g'.catalog.get d = g.catalog.get d := by
  rcases syncCatalogProjection_ok h with ⟨-, h⟩ | ⟨_, _, -, -, -, rfl⟩ | ⟨link, document, hlink, hbuild, -, h⟩
  · obtain rfl : _ = g' := congrArg Prod.fst h
    rw [deleteCatalogProjection_catalog]
    simp [hd]
  · rfl
  · obtain ⟨_, _, _, -, -, -, -, rfl⟩ := buildCatalogDocument_ok hbuild
    obtain ⟨row, -, rfl⟩ := loadLink_eq_some.mp hlink
    obtain rfl : _ = g' := congrArg Prod.fst h
    rw [putCatalogDocument_catalog]
    exact Table.get_insert_ne _ _ hd

/-- What the sync of every link of the list preserves, the loop preserves. -/
theorem syncLinks_induct {P : FilesystemGraph → Prop} {ids : List FileLinkId} {g g' : FilesystemGraph}
    {gen n : Nat} {mode : ProjectionOutboxMode}
    (hstep : ∀ id ∈ ids, ∀ g g' n, P g → syncCatalogProjection g id gen mode = .ok (g', n) → P g')
    (h : syncLinks g gen mode ids = .ok (g', n)) (h₀ : P g) : P g' := by
  induction ids generalizing g n with
  | nil =>
    obtain ⟨rfl, -⟩ := Prod.mk.inj (Except.ok.inj h)
    exact h₀
  | cons id ids ih =>
    simp only [syncLinks, bind_ok] at h
    obtain ⟨⟨g₁, n₁⟩, h₁, ⟨g₂, n₂⟩, h₂, heq⟩ := h
    obtain ⟨rfl, -⟩ := Prod.mk.inj (Except.ok.inj heq)
    exact ih (fun x hx => hstep x (List.mem_cons_of_mem _ hx)) h₂ (hstep id List.mem_cons_self g g₁ n₁ h₀ h₁)

theorem syncLinks_frame {g g' : FilesystemGraph} {ids : List FileLinkId} {gen n : Nat}
    {mode : ProjectionOutboxMode} (h : syncLinks g gen mode ids = .ok (g', n)) :
    g' = { g with
      catalog := g'.catalog, outbox := g'.outbox, sqliteSequence := g'.sqliteSequence } := by
  refine syncLinks_induct (P := fun g' => g' = { g with
    catalog := g'.catalog, outbox := g'.outbox, sqliteSequence := g'.sqliteSequence }) ?_ h rfl
  intro id _ g₁ g₂ n₁ h₁ h₂
  rw [h₁] at h₂
  rw [syncCatalogProjection_frame h₂]

end LocalSearch.Graph
