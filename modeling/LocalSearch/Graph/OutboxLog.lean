import LocalSearch.Graph.Desired

/-!
# The outbox as a log of desired state

In durable mode every change of a desired row is appended to the outbox. The
log, replayed from the empty map, therefore holds exactly the stored rows, and
a reader sees the same documents up to the availability, which is derived from
the volume at the moment of reading.
-/
namespace LocalSearch.Graph

set_option autoImplicit false

open Core Lib

/-- All outbox mutations in sequence order, as writes. -/
def outboxLog (g : FilesystemGraph) : List (DocumentId × Option CatalogDocument) :=
  g.outbox.rows.map fun x => x.2.mutation.write

/-- The fold of the outbox from the empty map. -/
def loggedDocuments (g : FilesystemGraph) : DocumentId → Option CatalogDocument :=
  replay (fun _ => none) (outboxLog g)

/-- The last outbox mutation of a document. -/
def lastMutation (g : FilesystemGraph) (documentId : DocumentId) : Option IndexMutation :=
  ((g.outbox.rows.map (·.2.mutation)).filter fun m => m.documentId = documentId).getLast?

def FileMetadata.exceptAvailability (metadata : FileMetadata) : FileMetadata :=
  { metadata with availability := .unknown }

/-- Identity, version, name, path, extension and metadata except availability. -/
def CatalogDocument.exceptAvailability (document : CatalogDocument) : CatalogDocument :=
  { document with metadata := FileMetadata.exceptAvailability document.metadata }

theorem FileMetadata.eq_of_exceptAvailability {a b : FileMetadata} {availability : Availability}
    (h : FileMetadata.exceptAvailability a = FileMetadata.exceptAvailability b)
    (havail : a.availability = availability) : a = { b with availability := availability } := by
  obtain ⟨_, _, _, _, _, _⟩ := a
  obtain ⟨_, _, _, _, _, _⟩ := b
  simp only [FileMetadata.exceptAvailability, FileMetadata.mk.injEq] at h havail ⊢
  exact ⟨h.1, h.2.1, h.2.2.1, h.2.2.2.1, h.2.2.2.2.1, havail⟩

theorem loggedDocuments_eq_some {g : FilesystemGraph} {d : DocumentId} {document : CatalogDocument}
    (h : loggedDocuments g d = some document) : lastMutation g d = some (.upsert document) := by
  rw [loggedDocuments, replay_apply, lastWrite, outboxLog, List.filter_map, List.getLast?_map] at h
  rw [lastMutation, List.filter_map, List.getLast?_map]
  have hcomp : ((fun m : IndexMutation => decide (m.documentId = d)) ∘
      fun x : Nat × OutboxRow => x.2.mutation) =
      (fun w : DocumentId × Option CatalogDocument => decide (w.1 = d)) ∘
        fun x : Nat × OutboxRow => x.2.mutation.write := rfl
  rw [hcomp]
  cases hlast : (g.outbox.rows.filter ((fun w : DocumentId × Option CatalogDocument =>
      decide (w.1 = d)) ∘ fun x : Nat × OutboxRow => x.2.mutation.write)).getLast? with
  | none => rw [hlast] at h; cases h
  | some x =>
    rw [hlast] at h
    obtain ⟨sequence, row⟩ := x
    cases hm : row.mutation with
    | delete id version => simp [hm, IndexMutation.write, IndexMutation.outcome] at h
    | upsert stored =>
      simp only [hm, IndexMutation.write, IndexMutation.outcome, Option.map_some,
        Option.getD_some, Option.some.injEq] at h
      rw [Option.map_some, hm, h]

theorem appendOutbox_rows (g : FilesystemGraph) (d : DocumentId) (version : Nat) (m : IndexMutation) :
    (appendOutbox g d version m).outbox.rows =
      g.outbox.rows ++ [(nextOutboxSequence g, ⟨d, version, m⟩)] := by
  refine Table.insertRows_of_gt fun x hx => ?_
  have hle := Table.le_lastKey (Table.mem_rows.mp hx)
  rw [nextOutboxSequence]
  obtain ⟨last, hlast, hle⟩ := hle
  rw [hlast, Option.getD_some]
  omega

/-- A tombstone mark leaves the metadata of every object. -/
theorem setTombstoned_metadata {g : FilesystemGraph} {o k : FileKey} {b : Bool} {row : ObjectRow}
    (h : (setTombstoned g o b).objects.get k = some row) :
    ∃ old, g.objects.get k = some old ∧ row.metadata = old.metadata := by
  rw [setTombstoned_get] at h
  split_ifs at h
  · obtain ⟨old, hold, rfl⟩ := Option.map_eq_some_iff.mp h
    exact ⟨old, hold, rfl⟩
  · exact ⟨row, h, rfl⟩

section Log

variable [CaseMapping]

/-- A durable sync appends at most one mutation, for its own document, and
leaves the row that mutation describes. -/
theorem syncCatalogProjection_durable {g g' : FilesystemGraph} {id : FileLinkId} {gen n : Nat}
    (h : syncCatalogProjection g id gen .durable = .ok (g', n)) :
    (g'.outbox.rows = g.outbox.rows ∧ g'.catalog = g.catalog) ∨
      ∃ m : IndexMutation, m.documentId = documentIdForLink id ∧
        g'.outbox.rows =
          g.outbox.rows ++ [(nextOutboxSequence g, ⟨documentIdForLink id, gen, m⟩)] ∧
        ∀ d, g'.catalog.get d =
          if d = documentIdForLink id then m.outcome.map compactRow else g.catalog.get d := by
  rcases syncCatalogProjection_ok h with ⟨-, h⟩ | ⟨_, _, -, -, -, rfl⟩ | ⟨link, document, hlink, hbuild, -, h⟩
  · have hcat := deleteCatalogProjection_catalog g (documentIdForLink id) gen .durable
    rw [h] at hcat
    unfold deleteCatalogProjection at h
    cases hrow : g.catalog.get (documentIdForLink id) with
    | none =>
      rw [hrow] at h
      obtain ⟨rfl, -⟩ := Prod.mk.inj h
      exact Or.inl ⟨rfl, rfl⟩
    | some row =>
      rw [hrow] at h
      obtain ⟨rfl, -⟩ := Prod.mk.inj h
      refine Or.inr ⟨.delete (documentIdForLink id) gen, rfl, appendOutbox_rows _ _ _ _, fun d => ?_⟩
      rw [hcat, Table.get_erase]
      rfl
  · exact Or.inl ⟨rfl, rfl⟩
  · obtain ⟨hdoc, hversion⟩ := buildCatalogDocument_own hlink hbuild
    obtain ⟨rfl, -⟩ := Prod.mk.inj h
    refine Or.inr ⟨.upsert document, hdoc, ?_, fun d => ?_⟩
    · rw [← hdoc, ← hversion]
      exact appendOutbox_rows _ _ _ _
    · rw [← hdoc]
      exact Table.get_insert _ _ _ _

/-- The stored row of a document is the row its last mutation describes. -/
def ExactLog (g : FilesystemGraph) : Prop :=
  ∀ d, g.catalog.get d = (loggedDocuments g d).map compactRow

variable {R : Prop} {v : VolumeId} {gen : Nat}

theorem exactLog_sync {g g' : FilesystemGraph} {id : FileLinkId} {n : Nat} (hlog : ExactLog g)
    (h : syncCatalogProjection g id gen .durable = .ok (g', n)) : ExactLog g' := by
  intro d
  rcases syncCatalogProjection_durable h with ⟨hout, hcat⟩ | ⟨m, hm, hout, hcat⟩
  · rw [hcat, hlog d, loggedDocuments, loggedDocuments, outboxLog, outboxLog, hout]
  · have hlogged : loggedDocuments g' =
        Function.update (loggedDocuments g) (documentIdForLink id) m.outcome := by
      rw [loggedDocuments, outboxLog, hout, List.map_append, List.map_singleton, replay_concat, ← hm]
      rfl
    rw [hcat, hlogged]
    by_cases hd : d = documentIdForLink id
    · rw [if_pos hd, hd, Function.update_self]
    · rw [if_neg hd, Function.update_of_ne hd, hlog d]

theorem exactLog_of_change {s s' : Dirty} (h : Change R v gen .durable s s')
    (hlog : ExactLog s.1) : ExactLog s'.1 := by
  cases h with
  | upsertObject object hv h =>
    simp only [Graph.upsertObject, guard_ok] at h
    obtain rfl := Except.ok.inj h.2.2
    exact hlog
  | @dropLink g A id row h =>
    rcases dropLink_cases g id row.objectKey with ⟨h, -⟩ | ⟨h, -⟩ <;> rw [h] <;> exact hlog
  | @enqueueRefresh g A object h => rw [enqueueRefresh_frame]; exact hlog
  | sync h => exact exactLog_sync hlog h
  | upsertVolume | transition | setGeneration | putLink | tombstone | advancePathJob
  | advanceVolumeJob | putSession | eraseSession | putCheckpoint | widen => exact hlog

/-- The stored content agrees with the rows a reader joins it to, except for
path and availability. Links in `A` are exempt. -/
def Mirrors (g : FilesystemGraph) (A : Set FileLinkId) : Prop :=
  ∀ id row link object, id ∉ A → g.catalog.get (documentIdForLink id) = some row →
    g.links.get id = some link → g.objects.get link.objectKey = some object →
    ∀ content ∈ row.projectionFingerprint, content.name = link.name ∧
      content.extension = extensionForName link.name ∧
      FileMetadata.exceptAvailability content.metadata =
        FileMetadata.exceptAvailability object.metadata

theorem mirrors_sync {g g' : FilesystemGraph} {A : Set FileLinkId} {id : FileLinkId} {n : Nat}
    {mode : ProjectionOutboxMode} (hm : Mirrors g A) (hwf : CatalogWF g A)
    (h : syncCatalogProjection g id gen mode = .ok (g', n)) : Mirrors g' (A \ {id}) := by
  have hframe := syncCatalogProjection_frame h
  intro j row link object hj hrow hlink hobj content hcontent
  by_cases hji : j = id
  · subst hji
    obtain ⟨stored, slink, document, rfl, hload, hbuild, heq⟩ :=
      (fresh_sync hwf h).build (catalogWF_sync hwf h) hrow
    obtain ⟨lrow, hlrow, rfl⟩ := loadLink_eq_some.mp hload
    obtain rfl : lrow = link := Option.some.inj (hlrow.symm.trans hlink)
    obtain ⟨object', volume, path, hobj', -, -, -, rfl⟩ := buildCatalogDocument_ok hbuild
    obtain rfl : object' = object := Option.some.inj (hobj'.symm.trans hobj)
    obtain rfl := Option.some.inj hcontent
    rw [← heq]
    exact ⟨rfl, rfl, rfl⟩
  · rw [hframe] at hlink hobj
    have hd : documentIdForLink j ≠ documentIdForLink id :=
      fun he => hji (documentIdForLink_injective he)
    rw [syncCatalogProjection_get_ne h hd] at hrow
    exact hm j row link object (fun hA => hj ⟨hA, hji⟩) hrow hlink hobj content hcontent

/-- `Mirrors` reads only the metadata of object rows. -/
theorem Mirrors.of_metadata {g g' : FilesystemGraph} {A : Set FileLinkId} (hm : Mirrors g A)
    (hcat : g'.catalog = g.catalog)
    (hlinks : ∀ id link, id ∉ A → g'.links.get id = some link → g.links.get id = some link)
    (hobjects : ∀ key object, g'.objects.get key = some object →
      ∃ old, g.objects.get key = some old ∧ object.metadata = old.metadata) : Mirrors g' A := by
  intro id row link object hid hrow hlink hobj content hcontent
  obtain ⟨old, hold, hmeta⟩ := hobjects _ object hobj
  rw [hcat] at hrow
  rw [hmeta]
  exact hm id row link old hid hrow (hlinks id link hid hlink) hold content hcontent

theorem Mirrors.mono {g : FilesystemGraph} {A A' : Set FileLinkId} (hm : Mirrors g A)
    (hA : A ⊆ A') : Mirrors g A' :=
  fun id row link object hid => hm id row link object fun h => hid (hA h)

theorem mirrors_of_change {mode : ProjectionOutboxMode} {s s' : Dirty}
    (h : Change R v gen mode s s') (hwf : CatalogWF s.1 s.2) (hm : Mirrors s.1 s.2) :
    Mirrors s'.1 s'.2 := by
  cases h with
  | @upsertObject g g' A object hv h =>
    simp only [Graph.upsertObject, guard_ok] at h
    obtain rfl := Except.ok.inj h.2.2
    intro id row link o hid hrow hlink hobj content hcontent
    -- every link of the written object awaits a sync
    have hne : link.objectKey ≠ object.objectKey := fun he =>
      hid (Or.inr ⟨storedLinkFromRow id link,
        mem_linksOf.mpr ⟨loadLink_eq_some.mpr ⟨link, hlink, rfl⟩, he⟩, rfl⟩)
    rw [Table.get_insert_ne _ _ hne] at hobj
    exact hm id row link o (fun hA => hid (Or.inl hA)) hrow hlink hobj content hcontent
  | @dropLink g A id row h =>
    have hcat : (dropLink g id row.objectKey).catalog = g.catalog := by
      rcases dropLink_cases g id row.objectKey with ⟨he, -⟩ | ⟨he, -⟩ <;> rw [he]
      rfl
    refine (hm.mono Set.subset_union_left).of_metadata hcat (fun j link hj hlink => ?_)
      fun key object hobj => ?_
    · rw [dropLink_links, Table.get_erase] at hlink
      split_ifs at hlink
      exact hlink
    · obtain ⟨old, hold, hmeta, -⟩ := dropLink_get hobj
      exact ⟨old, hold, hmeta⟩
  | @putLink g A link boundary hv hparent hobject hbound hslot =>
    refine (hm.mono Set.subset_union_left).of_metadata rfl (fun j row hj hrow => ?_)
      fun key object hobj => setTombstoned_metadata hobj
    have hne : j ≠ link.fileLinkId := fun he => hj (Or.inr he)
    rw [putLink_links, Table.get_insert_ne _ _ hne] at hrow
    exact hrow
  | tombstone h =>
    exact hm.of_metadata rfl (fun _ _ _ h => h) fun key object hobj => setTombstoned_metadata hobj
  | @enqueueRefresh g A object h => rw [enqueueRefresh_frame]; exact hm
  | widen h => exact hm.mono h
  | sync h => exact mirrors_sync hm hwf h
  | upsertVolume | transition | setGeneration | advancePathJob | advanceVolumeJob | putSession
  | eraseSession | putCheckpoint => exact hm

/-- Where the stored availability is current too, the row stores the document a
reader sees. -/
theorem Desired.compactRow_eq {g : FilesystemGraph} {document : CatalogDocument} {row : CatalogRow}
    (h : Desired g document) (hwf : WellFormed g) (hm : Mirrors g ∅)
    (hrow : g.catalog.get document.identity.documentId = some row)
    (hreports : ReportsAvailability g row) : row = compactRow document := by
  obtain ⟨row', hrow', hjoin⟩ := h
  obtain rfl : row' = row := Option.some.inj (hrow'.symm.trans hrow)
  obtain ⟨stored, link, object, volume, rfl, hident, hlink, hobj, hvol, hview⟩ :=
    joinedDocument_view hwf hrow
  rw [hview] at hjoin
  have hdoc := Except.ok.inj (Option.some.inj hjoin)
  obtain ⟨hname, hext, hmeta⟩ := hm (linkOfDocument document.identity.documentId) _ link object
    (Set.notMem_empty _) hrow hlink hobj _ rfl
  have hkey : (compactRow stored).objectKey = link.objectKey := by rw [compactRow, hident]
  have havail := hreports _ rfl object (by rw [hkey]; exact hobj) volume (by rw [hkey]; exact hvol)
  have hmetadata : stored.metadata = { object.metadata with
      availability := effectiveAvailability volume.state object.metadata.availability } :=
    FileMetadata.eq_of_exceptAvailability hmeta havail
  have hname' : stored.name = link.name := hname
  have hext' : stored.extension = extensionForName link.name := hext
  rw [← hdoc]
  congr 1
  obtain ⟨identity, version, name, path, extension, metadata⟩ := stored
  subst hident hname' hext' hmetadata
  rfl

/-- States reached from an empty database by durable writes. -/
def DurablyReachable (g : FilesystemGraph) : Prop :=
  Relation.ReflTransGen (Step fun op _ => op.Durable) .empty g

theorem exactLog_of_transacts {g g' : FilesystemGraph} (h : Transacts R .durable g g')
    (hlog : ExactLog g) : ExactLog g' := by
  obtain ⟨v, gen, -, -, hch⟩ := h
  exact Changes.induct (P := fun s => ExactLog s.1) (fun _ _ => exactLog_of_change) hch hlog

theorem mirrors_of_transacts {g g' : FilesystemGraph} {mode : ProjectionOutboxMode}
    (h : Transacts R mode g g') (hwf : WellFormed g) (hm : Mirrors g ∅) : Mirrors g' ∅ := by
  obtain ⟨v, gen, -, -, hch⟩ := h
  exact (Changes.induct (P := fun s => CatalogWF s.1 s.2 ∧ Mirrors s.1 s.2)
    (fun _ _ hc hs => ⟨catalogWF_of_change hc hs.1, mirrors_of_change hc hs.1 hs.2⟩) hch
    ⟨hwf.catalog, hm⟩).2

/-- What every durable run keeps. -/
structure LogInvariant (g : FilesystemGraph) : Prop where
  wellFormed : WellFormed g
  log : ExactLog g
  mirrors : Mirrors g ∅

theorem logInvariant_empty : LogInvariant .empty :=
  ⟨wellFormed_empty, fun _ => rfl, fun _ _ _ _ _ h => (nomatch h)⟩

theorem LogInvariant.of_transacts {g g' : FilesystemGraph} (hinv : LogInvariant g)
    (h : Transacts R .durable g g') : LogInvariant g' :=
  ⟨wellFormed_of_transacts h hinv.wellFormed, exactLog_of_transacts h hinv.log,
    mirrors_of_transacts h hinv.wellFormed hinv.mirrors⟩

theorem DurablyReachable.logInvariant {g : FilesystemGraph} (h : DurablyReachable g) :
    LogInvariant g := by
  induction h with
  | refl => exact logInvariant_empty
  | tail _ hstep ih =>
    obtain ⟨op, hop, hrun⟩ := hstep
    exact ih.of_transacts (hop.transacts (Or.inl trivial) ih.wellFormed hrun)

/-- A desired document and the logged one agree up to the availability. -/
theorem LogInvariant.logged {g : FilesystemGraph} (hinv : LogInvariant g) {document : CatalogDocument}
    (h : Desired g document) :
    ∃ logged, loggedDocuments g document.identity.documentId = some logged ∧
      CatalogDocument.exceptAvailability document = CatalogDocument.exceptAvailability logged ∧
      g.catalog.get document.identity.documentId = some (compactRow logged) := by
  obtain ⟨row, hrow, hjoin⟩ := h
  obtain ⟨stored, link, object, volume, rfl, hident, hlink, hobj, -, hview⟩ :=
    joinedDocument_view hinv.wellFormed hrow
  obtain ⟨logged, hlogged, hcompact⟩ :=
    Option.map_eq_some_iff.mp ((hinv.log document.identity.documentId).symm.trans hrow)
  obtain rfl : logged = stored := compactRow_injective hcompact
  refine ⟨logged, hlogged, ?_, hrow⟩
  rw [hview] at hjoin
  obtain ⟨hname, hext, hmeta⟩ := hinv.mirrors (linkOfDocument document.identity.documentId) _ link
    object (Set.notMem_empty _) hrow hlink hobj _ rfl
  have hdoc := Except.ok.inj (Option.some.inj hjoin)
  have hid : logged.identity = ⟨logged.identity.objectKey, logged.identity.fileLinkId,
      document.identity.documentId⟩ := by rw [hident]
  have hname' : logged.name = link.name := hname
  have hext' : logged.extension = extensionForName link.name := hext
  have hmeta' : FileMetadata.exceptAvailability logged.metadata =
    FileMetadata.exceptAvailability object.metadata := hmeta
  rw [← hdoc, CatalogDocument.exceptAvailability, CatalogDocument.exceptAvailability, hmeta',
    hname', hext']
  conv_rhs => rw [hid]
  rfl

/-- The fold of the outbox is the desired state up to availabilities, in every
state of every durable run, refresh jobs pending or not. -/
theorem outbox_replays_desired_documents {g : FilesystemGraph} (h : DurablyReachable g) :
    ∃ documents, desiredCatalogDocuments g = .ok documents ∧
      (documents.map (·.identity.documentId)).Nodup ∧
      (∀ d, (loggedDocuments g d).isSome ↔ ∃ document ∈ documents, document.identity.documentId = d) ∧
      ∀ document ∈ documents, ∃ logged,
        loggedDocuments g document.identity.documentId = some logged ∧
        CatalogDocument.exceptAvailability document = CatalogDocument.exceptAvailability logged := by
  have hinv := h.logInvariant
  obtain ⟨documents, hdocs, hsorted, hmem⟩ := desiredCatalogDocuments_ok hinv.wellFormed
  refine ⟨documents, hdocs, ?_, fun d => ?_, fun document hdoc => ?_⟩
  · exact List.pairwise_map.mpr (hsorted.imp fun hlt he => absurd he hlt.ne)
  · constructor
    · intro hsome
      obtain ⟨logged, hlogged⟩ := Option.isSome_iff_exists.mp hsome
      have hrow : g.catalog.get d = some (compactRow logged) := by rw [hinv.log d, hlogged]; rfl
      obtain ⟨stored, link, object, volume, -, -, -, -, -, hview⟩ :=
        joinedDocument_view hinv.wellFormed hrow
      exact ⟨viewDocument d stored link object volume, (hmem _).mpr ⟨_, hrow, hview⟩, rfl⟩
    · rintro ⟨document, hdoc, rfl⟩
      obtain ⟨logged, hlogged, -⟩ := hinv.logged ((hmem document).mp hdoc)
      rw [hlogged]
      rfl
  · obtain ⟨logged, hlogged, hsame, -⟩ := hinv.logged ((hmem document).mp hdoc)
    exact ⟨logged, hlogged, hsame⟩

end Log

section Example

attribute [local instance] asciiCaseMapping

/-- The sample tree after a rename of its directory whose refresh is pending. -/
def renamedSample : List GraphOp :=
  [.applyBatch (sampleBatch sampleTree),
    .applyBatch (sampleBatch [.upsertLink (sampleLink 8 2 (some 1) "e") false])]

def renamedSampleGraph : FilesystemGraph := (runOps .empty renamedSample).toOption.getD .empty

theorem renamedSample_run : runOps .empty renamedSample = .ok renamedSampleGraph := by
  decide

theorem renamedSample_logged :
    (nextPathJob renamedSampleGraph).isSome ∧
    ∃ documents, desiredCatalogDocuments renamedSampleGraph = .ok documents ∧
      (documents.map (·.identity.documentId)).Nodup ∧
      (∀ d, (loggedDocuments renamedSampleGraph d).isSome ↔
        ∃ document ∈ documents, document.identity.documentId = d) ∧
      ∀ document ∈ documents, ∃ logged,
        loggedDocuments renamedSampleGraph document.identity.documentId = some logged ∧
        CatalogDocument.exceptAvailability document = CatalogDocument.exceptAvailability logged := by
  refine ⟨by decide, outbox_replays_desired_documents (runOps_steps ?_ renamedSample_run)⟩
  intro op hop g
  simp only [renamedSample, List.mem_cons, List.not_mem_nil, or_false] at hop
  rcases hop with rfl | rfl <;> trivial

end Example

end LocalSearch.Graph
