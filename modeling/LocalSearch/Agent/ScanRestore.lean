import LocalSearch.Graph.ScanPaths
import LocalSearch.Graph.PathConvergence
import LocalSearch.Windows.Crawl

/-!
# A completed scan restores the catalog

The agent feeds a crawl of the volume through an observation scan. When the
scan is complete the links of the volume are those of the tree, every one of
them resolves, and once the refresh queues are empty the desired documents are
exactly theirs.
-/
namespace LocalSearch.Agent

set_option autoImplicit false

open Core Lib Graph Windows

/-- The objects above a link up to a root, each with a single link that is no
traversal boundary. -/
inductive Ancestry (g : FilesystemGraph) : StoredLink → List FileKey → Prop
  | root {link : StoredLink} (hp : link.parentKey = none) : Ancestry g link []
  | up {link next : StoredLink} {p : FileKey} {above : List FileKey} (hp : link.parentKey = some p)
      (hnext : linksOf g p = [next]) (hopen : next.traversalBoundary = false)
      (h : Ancestry g next above) : Ancestry g link (p :: above)

theorem Ancestry.resolveLoop {g : FilesystemGraph} {link : StoredLink} {above : List FileKey}
    (h : Ancestry g link above) (hnodup : above.Nodup) (hopen : link.traversalBoundary = false)
    {limit fuel : Nat} (hfuel : above.length < fuel) (components : List String) {seen : List FileKey}
    (hseen : ∀ s ∈ seen, s ∉ above) (target : Bool) :
    ∃ path, Graph.resolveLoop g limit fuel link components seen target = .ok path := by
  induction h generalizing fuel components seen target with
  | root hp =>
    cases fuel with
    | zero => exact absurd hfuel (Nat.not_lt_zero _)
    | succ fuel => exact ⟨_, by simp [Graph.resolveLoop, hopen, hp]; rfl⟩
  | @up link next p above hp hnext hopen' _ ih =>
    cases fuel with
    | zero => exact absurd hfuel (Nat.not_lt_zero _)
    | succ fuel =>
      rw [List.nodup_cons] at hnodup
      have hnew : p ∉ seen := fun hs => hseen p hs List.mem_cons_self
      have hseen' : ∀ s ∈ p :: seen, s ∉ above := by
        intro s hs
        rcases List.mem_cons.mp hs with rfl | hs
        · exact hnodup.1
        · exact fun ha => hseen s hs (List.mem_cons_of_mem _ ha)
      obtain ⟨path, hpath⟩ := ih hnodup.2 hopen' (Nat.lt_of_succ_lt_succ hfuel)
        (link.name :: components) hseen' false
      refine ⟨path, ?_⟩
      simp only [Graph.resolveLoop, hopen, hp, Bool.false_and, Bool.false_eq_true, if_false, if_neg hnew,
        loadOnlyLinkForObject_ok.mpr hnext]
      exact hpath

section Tree

variable {v : VolumeId} {tree : CrawlTree v} {g : FilesystemGraph}

/-- The link a crawl stores for an entry. -/
def entryLink (v : VolumeId) (e : CrawlEntry) : StoredLink := storedLink (e.link v) false

theorem observedLinks_events {id : FileLinkId} {link : StoredLink} :
    observedLinks tree.events id = some link ↔
      ∃ e ∈ tree.entries, e.fileLinkId v = id ∧ entryLink v e = link := by
  rw [observedLinks, CrawlTree.events, linkWrites_entries, replay_apply]
  have hnodup := tree.linkIds
  generalize tree.entries = entries at hnodup
  induction entries using List.reverseRecOn with
  | nil => simp [lastWrite]
  | append_singleton entries e ih =>
    rw [List.map_append, List.nodup_append] at hnodup
    rw [List.map_append, List.map_singleton, lastWrite_concat]
    by_cases hid : e.fileLinkId v = id
    · have hfresh : ∀ a ∈ entries, a.fileLinkId v ≠ id := fun a ha he =>
        hnodup.2.2 _ (List.mem_map.mpr ⟨a, ha, rfl⟩) _ (List.mem_map.mpr
          ⟨e, List.mem_singleton.mpr rfl, rfl⟩) (he.trans hid.symm)
      rw [if_pos hid]
      constructor
      · intro h
        exact ⟨e, List.mem_append_right _ List.mem_cons_self, hid, Option.some.inj h⟩
      · rintro ⟨a, ha, ha_id, rfl⟩
        rcases List.mem_append.mp ha with ha | ha
        · exact absurd ha_id (hfresh a ha)
        · rw [List.mem_singleton.mp ha]
          rfl
    · rw [if_neg hid]
      refine (ih hnodup.1).trans ⟨?_, ?_⟩
      · rintro ⟨a, ha, h⟩
        exact ⟨a, List.mem_append_left _ ha, h⟩
      · rintro ⟨a, ha, ha_id, h⟩
        rcases List.mem_append.mp ha with ha | ha
        · exact ⟨a, ha, ha_id, h⟩
        · rw [List.mem_singleton.mp ha] at ha_id
          exact absurd ha_id hid

/-- The graph holds exactly the links of the tree on its volume. -/
def HoldsTree (g : FilesystemGraph) (tree : CrawlTree v) : Prop :=
  volumeLinks g v = observedLinks tree.events

theorem HoldsTree.loadLink (h : HoldsTree g tree) {id : FileLinkId} {link : StoredLink} :
    (Graph.loadLink g id = some link ∧ link.objectKey.volumeId = v) ↔
      ∃ e ∈ tree.entries, e.fileLinkId v = id ∧ entryLink v e = link := by
  rw [← mem_volumeLinks, h, observedLinks_events]

/-- A directory of the tree has its own entry's link and no other. -/
theorem HoldsTree.linksOf (h : HoldsTree g tree) {e parent : CrawlEntry} (he : e ∈ tree.entries)
    (hparent : parent ∈ tree.entries) (hp : e.parentKey = some parent.object.objectKey) :
    Graph.linksOf g parent.object.objectKey = [entryLink v parent] := by
  have hmem : ∀ link, link ∈ Graph.linksOf g parent.object.objectKey ↔ link ∈ [entryLink v parent] := by
    intro link
    rw [mem_linksOf, List.mem_singleton]
    constructor
    · rintro ⟨hload, hobj⟩
      have hv : link.objectKey.volumeId = v := hobj ▸ tree.onVolume parent hparent
      obtain ⟨a, ha, -, rfl⟩ := h.loadLink.mp ⟨hload, hv⟩
      rw [tree.directories parent hparent a ha e he hp hobj]
    · rintro rfl
      exact ⟨(h.loadLink.mpr ⟨parent, hparent, rfl, rfl⟩).1, rfl⟩
  have hperm := (List.perm_ext_iff_of_nodup (linksOf_nodup g _) (List.nodup_singleton _)).mpr hmem
  exact List.perm_singleton.mp hperm

/-- The ancestors of an entry, all of smaller depth. -/
theorem HoldsTree.ancestry (h : HoldsTree g tree) {e : CrawlEntry} {d : Nat}
    (hd : tree.AtDepth e d) :
    ∃ above, Ancestry g (entryLink v e) above ∧ above.length + 1 = d ∧ above.Nodup ∧
      ∀ o ∈ above, ∃ a d', tree.AtDepth a d' ∧ d' < d ∧ a.object.objectKey = o := by
  induction hd with
  | root _ hp => exact ⟨[], .root hp, rfl, List.nodup_nil, fun _ ho => (nomatch ho)⟩
  | @child e parent d he hparent hp ih =>
    obtain ⟨above, hanc, hlen, hnodup, hdeep⟩ := ih
    refine ⟨parent.object.objectKey :: above, .up hp (h.linksOf he hparent.mem hp) rfl hanc, ?_, ?_, ?_⟩
    · rw [List.length_cons, hlen]
    · refine List.nodup_cons.mpr ⟨fun hmem => ?_, hnodup⟩
      -- the same directory at a smaller depth would be the same entry
      obtain ⟨a, d', ha, hlt, hkey⟩ := hdeep _ hmem
      obtain rfl := tree.directories parent hparent.mem a ha.mem e he hp hkey
      exact absurd (ha.unique hparent) hlt.ne
    · intro o ho
      rcases List.mem_cons.mp ho with rfl | ho
      · exact ⟨parent, d, hparent, Nat.lt_succ_self d, rfl⟩
      · obtain ⟨a, d', ha, hlt, hkey⟩ := hdeep o ho
        exact ⟨a, d', ha, Nat.lt_succ_of_lt hlt, hkey⟩

theorem HoldsTree.resolves (h : HoldsTree g tree) (hdepth : ∀ e d, tree.AtDepth e d → d ≤ 512)
    {e : CrawlEntry} (he : e ∈ tree.entries) :
    ∃ path, resolvePath g (e.fileLinkId v) projectionDepth = .ok path := by
  obtain ⟨i, rfl⟩ := List.get_of_mem he
  obtain ⟨d, hd⟩ := tree.exists_depth i
  obtain ⟨above, hanc, hlen, hnodup, -⟩ := h.ancestry hd
  have hload := (h.loadLink.mpr ⟨_, he, rfl, rfl⟩).1
  have hfuel : above.length < projectionDepth := by
    have := hdepth _ d hd
    rw [projectionDepth]
    omega
  have hloop : ∃ path, Graph.resolveLoop g projectionDepth projectionDepth
      (entryLink v (tree.entries.get i)) [] []
      true = .ok path :=
    hanc.resolveLoop hnodup rfl hfuel [] (fun _ hs => absurd hs List.not_mem_nil) true
  obtain ⟨path, hpath⟩ := hloop
  refine ⟨path, ?_⟩
  rw [resolvePath, if_neg (by decide), hload]
  exact hpath

end Tree

section Restore

variable [CaseMapping] {v : VolumeId} {tree : CrawlTree v} {g g' : FilesystemGraph}

theorem HoldsTree.of_refreshes (h : HoldsTree g tree)
    (hrun : Relation.ReflTransGen (Step RefreshStep) g g') : HoldsTree g' tree := by
  induction hrun with
  | refl => exact h
  | tail _ hstep ih =>
    rw [HoldsTree, volumeLinks, linksSince_congr (by rw [refreshStep_frame hstep])]
    exact ih

theorem pathInvariant_refreshes (hwf : WellFormed g) (hpaths : PathInvariant Eq {v} g ∅)
    (hrun : Relation.ReflTransGen (Step RefreshStep) g g') :
    WellFormed g' ∧ PathInvariant Eq {v} g' ∅ := by
  induction hrun with
  | refl => exact ⟨hwf, hpaths⟩
  | tail _ hstep ih =>
    exact ⟨hstep.wellFormed ih.1, pathInvariant_refresh (fun _ => rfl) ih.1 ih.2 hstep⟩

/-- The document is that of the entry: its identity, its name and the path of its
link. -/
structure EntryDocument (g : FilesystemGraph) (v : VolumeId) (e : CrawlEntry) (document : CatalogDocument) :
    Prop where
  identity : document.identity =
    ⟨e.object.objectKey, e.fileLinkId v, documentIdForLink (e.fileLinkId v)⟩
  onVolume : document.identity.objectKey.volumeId = v
  name : document.name = e.name
  path : ∃ path, resolvePath g (e.fileLinkId v) projectionDepth = .ok path ∧
    document.resolvedPath = displayPath path

/-- Right paths and the links of a tree make the documents of the tree. -/
theorem HoldsTree.documents (h : HoldsTree g tree) (hwf : WellFormed g)
    (hpaths : PathInvariant Eq {v} g ∅) (hidle : nextPathJob g = none)
    (hdepth : ∀ e d, tree.AtDepth e d → d ≤ 512) :
    ∃ documents, desiredCatalogDocuments g = .ok documents ∧
      (documents.map (·.identity.documentId)).Nodup ∧
      (∀ e ∈ tree.entries, ∃ document ∈ documents, EntryDocument g v e document) ∧
      ∀ document ∈ documents, document.identity.objectKey.volumeId = v →
        ∃ e ∈ tree.entries, EntryDocument g v e document := by
  obtain ⟨documents, hdocs, hsorted, hmem⟩ := desiredCatalogDocuments_ok hwf
  -- every entry's link is present and stores the path it resolves to
  have hentry : ∀ e ∈ tree.entries, ∃ path, resolvePath g (e.fileLinkId v) projectionDepth = .ok path ∧
      storedPath g (e.fileLinkId v) = some (displayPath path) := by
    intro e he
    obtain ⟨path, hpath⟩ := h.resolves hdepth he
    have hload := (h.loadLink.mpr ⟨e, he, rfl, rfl⟩).1
    obtain ⟨row, hrow, hst⟩ := loadLink_eq_some.mp hload
    have hkey : row.objectKey = e.object.objectKey := congrArg (·.objectKey) hst
    have hcase := hpaths (e.fileLinkId v) row (Set.notMem_empty _) hrow
      (hkey ▸ tree.onVolume e he)
    have hstored := hcase.resolve_right (covered_false hidle _ _)
    rw [desiredPath, hpath] at hstored
    exact ⟨path, hpath, hstored⟩
  have hdepicts : ∀ {document : CatalogDocument} {e : CrawlEntry}, Desired g document → e ∈ tree.entries →
      document.identity.fileLinkId = e.fileLinkId v → EntryDocument g v e document := by
    intro document e hdesired he hlink
    obtain ⟨hid, row, hrow, hkey⟩ := hdesired.link hwf
    have hload := (h.loadLink.mpr ⟨e, he, rfl, rfl⟩).1
    obtain ⟨row', hrow', hst⟩ := loadLink_eq_some.mp hload
    obtain rfl : row = row' := Option.some.inj ((hlink ▸ hrow).symm.trans hrow')
    have hobj : row.objectKey = e.object.objectKey := congrArg (·.objectKey) hst
    have hname : row.name = e.name := congrArg (·.name) hst
    obtain ⟨path, hpath, hstored⟩ := hentry e he
    have hdoc_path := hdesired.storedPath hwf
    rw [hlink, hstored] at hdoc_path
    have hidentity : document.identity =
        ⟨e.object.objectKey, e.fileLinkId v, documentIdForLink (e.fileLinkId v)⟩ := by
      rw [← hobj, hkey, ← hlink, ← hid]
    refine ⟨hidentity, ?_, (hdesired.name hwf hrow).trans hname, path, hpath,
      (Option.some.inj hdoc_path).symm⟩
    rw [hidentity]
    exact tree.onVolume e he
  refine ⟨documents, hdocs, List.pairwise_map.mpr (hsorted.imp fun hlt he => absurd he hlt.ne),
    fun e he => ?_, fun document hdoc hv => ?_⟩
  · obtain ⟨path, -, hstored⟩ := hentry e he
    rcases desiredCatalogDocument_cases hwf (documentIdForLink (e.fileLinkId v)) with
      ⟨hnone, -⟩ | ⟨document, -, hdesired, hid⟩
    · rw [storedPath, hnone] at hstored
      cases hstored
    · refine ⟨document, (hmem document).mpr hdesired, hdepicts hdesired he ?_⟩
      exact documentIdForLink_injective ((hdesired.link hwf).1.symm.trans hid)
  · have hdesired := (hmem document).mp hdoc
    obtain ⟨-, row, hrow, hkey⟩ := hdesired.link hwf
    have hload : Graph.loadLink g document.identity.fileLinkId =
        some (storedLinkFromRow document.identity.fileLinkId row) := loadLink_eq_some.mpr ⟨row, hrow, rfl⟩
    have hrow_volume : row.objectKey.volumeId = v := by rw [hkey]; exact hv
    obtain ⟨e, he, hlink, -⟩ := h.loadLink.mp ⟨hload, hrow_volume⟩
    exact ⟨e, he, hdepicts hdesired he hlink.symm⟩

/-- From any reachable state: scan a tree of depth at most 512 in pages, finalize
and drain both queues, refreshes anywhere in between. If every page and every
sweep settles the links it moves, the documents of the volume are those of the
tree, each with the identity, the name and the path of its entry. -/
theorem scan_restores_catalog {g₀ g₁ g₂ g₃ g₄ g₅ : FilesystemGraph} {descriptor : VolumeDescriptor}
    {mode : ObservationScanMode} {reason : ReconciliationReason} {session : ObservationSession}
    {checkpoint : ProviderCheckpoint} {calls k : Nat} {summary : ObservationFinalizeSummary}
    {tree : CrawlTree descriptor.volumeId} (hreach : Reachable g)
    (hdepth : ∀ e d, tree.AtDepth e d → d ≤ 512)
    (hbegin : beginObservationScan g descriptor mode reason = .ok (g₀, session))
    (hpages : Scanning (PageSettles descriptor.volumeId) RefreshStep descriptor.volumeId g₀ tree.events
      g₁)
    (hstage : stageObservationCheckpoint g₁ descriptor.volumeId checkpoint = .ok g₂)
    (hsweeps : Finalizing (SweepSettles descriptor.volumeId) RefreshStep descriptor.volumeId g₂ calls
      g₃)
    (hk : 1 ≤ k) (hlast : finalizeObservationScan g₃ descriptor.volumeId k = .ok (g₄, summary))
    (hdone : summary.completed = true)
    (hrefresh : Relation.ReflTransGen (Step RefreshStep) g₄ g₅) (hdrained : Drained g₅) :
    ∃ documents, desiredCatalogDocuments g₅ = .ok documents ∧
      (documents.map (·.identity.documentId)).Nodup ∧
      (∀ e ∈ tree.entries, ∃ document ∈ documents, EntryDocument g₅ descriptor.volumeId e document) ∧
      ∀ document ∈ documents, document.identity.objectKey.volumeId = descriptor.volumeId →
        ∃ e ∈ tree.entries, EntryDocument g₅ descriptor.volumeId e document := by
  obtain ⟨hinv₀, hsession₀⟩ := scanInvariant_begin hreach.wellFormed hbegin
  obtain ⟨hinv₁, hsession₁⟩ := hpages.invariant hinv₀ hsession₀ rfl
  have hpaths₁ := pathInvariant_scanning hinv₀ hsession₀ rfl hpages
  have htrans : Transacts True .durable g₁ g₂ :=
    stageObservationCheckpoint_transacts hinv₁.wellFormed.queues hstage
  have hwf₂ := wellFormed_of_transacts htrans hinv₁.wellFormed
  have hinv₂ := sweepInvariant_stage hinv₁ hsession₁ hwf₂ hstage
  have hpaths₂ : PathInvariant Eq {descriptor.volumeId} g₂ (unseen tree.events) := by
    obtain ⟨_, -, -, rfl⟩ := stageObservationCheckpoint_ok hstage
    exact hpaths₁.of_frame rfl rfl (.of_eq rfl)
  obtain ⟨hinv₃, -⟩ := hsweeps.invariant hinv₂
  have hpaths₃ := pathInvariant_finalizing hinv₂ hpaths₂ hsweeps
  -- the call that completes sweeps no link
  have hsettled : SweepSettles descriptor.volumeId k g₃ := by
    intro session' staged' hs hp
    rcases finalizeObservationScan_ok hlast with ⟨-, -, rfl⟩ | ⟨-, session'', _, hs', -, -, hphase⟩
    · cases hdone
    · obtain rfl := Option.some.inj (hs.symm.trans hs')
      rcases hphase with ⟨_, _, _, -, -, -, rfl⟩ | ⟨_, _, _, _, hp', -⟩
      · cases hdone
      · rw [hp] at hp'
        cases hp'
  have hpaths₄ := pathInvariant_finalize hinv₃ hpaths₃ hsettled hlast
  have hexact : ScanExact descriptor.volumeId tree.events (ProviderCheckpoint.row checkpoint) g₄ := by
    rcases finalizeObservationScan_call hinv₃ hk with ⟨herr, -⟩ | ⟨g', summary', hcall, -, hexact⟩
    · rw [herr] at hlast
      cases hlast
    · obtain ⟨rfl, rfl⟩ := Prod.mk.inj (Except.ok.inj (hcall.symm.trans hlast))
      exact hexact hdone
  have hholds₄ : HoldsTree g₄ tree := hexact.links
  -- every link of the volume was observed, so none is exempt any more
  have hpaths : PathInvariant Eq {descriptor.volumeId} g₄ ∅ := by
    intro id row _ hrow hv
    refine hpaths₄ id row (fun hunseen => ?_) hrow hv
    have hload : loadLink g₄ id = some (storedLinkFromRow id row) := loadLink_eq_some.mpr ⟨row, hrow, rfl⟩
    have hvolume := mem_volumeLinks.mpr ⟨hload, hv⟩
    rw [hexact.links] at hvolume
    exact Option.some_ne_none _ (hvolume.symm.trans hunseen)
  have hrun : GraphOp.run g₃ (.finalizeObservationScan descriptor.volumeId k) = .ok g₄ :=
    map_fst_ok.mpr ⟨summary, hlast⟩
  have hwf₄ := wellFormed_of_run hinv₃.scan.wellFormed hrun
  obtain ⟨hwf₅, hpaths₅⟩ := pathInvariant_refreshes hwf₄ hpaths hrefresh
  exact (hholds₄.of_refreshes hrefresh).documents hwf₅ hpaths₅ hdrained.1 hdepth

end Restore

section Example

attribute [local instance] asciiCaseMapping

/-- A root directory, a directory and a file in it. -/
def sampleEntries (directory : String) : List CrawlEntry :=
  [⟨sampleObject 1 .directory, none, "C:"⟩,
    ⟨sampleObject 2 .directory, some (sampleKey 1), directory⟩,
    ⟨sampleObject 3 .file, some (sampleKey 2), "a"⟩]

def sampleCrawl (directory : String)
    (hids : ((sampleEntries directory).map (CrawlEntry.fileLinkId sampleVolume)).Nodup) :
    CrawlTree sampleVolume where
  entries := sampleEntries directory
  onVolume := fun e he => by
    simp only [sampleEntries, List.mem_cons, List.not_mem_nil, or_false] at he
    rcases he with rfl | rfl | rfl <;> rfl
  parentsFirst := by
    intro i p hp
    match i with
    | ⟨0, _⟩ => cases hp
    | ⟨1, _⟩ => exact ⟨⟨sampleObject 1 .directory, none, "C:"⟩, List.mem_cons_self, Option.some.inj hp⟩
    | ⟨2, _⟩ =>
      exact ⟨⟨sampleObject 2 .directory, some (sampleKey 1), directory⟩,
        List.mem_cons_of_mem _ List.mem_cons_self, Option.some.inj hp⟩
  directories := fun a ha b hb _ _ _ hkey => by
    have hkeys : [sampleKey 1, sampleKey 2, sampleKey 3].Nodup := by decide
    have hnodup : ((sampleEntries directory).map (·.object.objectKey)).Nodup := hkeys
    exact List.inj_on_of_nodup_map hnodup hb ha hkey
  linkIds := hids

theorem sampleCrawl_depth {directory : String}
    {hids : ((sampleEntries directory).map (CrawlEntry.fileLinkId sampleVolume)).Nodup}
    (e : CrawlEntry) (d : Nat) (h : (sampleCrawl directory hids).AtDepth e d) : d ≤ 512 := by
  obtain ⟨i, rfl⟩ := List.get_of_mem h.mem
  have hle := h.le_position i
  have hlt : (i : Nat) < 3 := i.isLt
  omega

/-- The directory before the scan. -/
def crawlBefore : CrawlTree sampleVolume := sampleCrawl "d" (by decide +kernel)

/-- The directory was renamed while nobody watched. -/
def crawlRenamed : CrawlTree sampleVolume := sampleCrawl "e" (by decide +kernel)

def crawledGraph : FilesystemGraph :=
  (runOps .empty [.applyBatch (sampleBatch (.upsertVolume sampleDescriptor ::
    crawlBefore.events.map .ofEvent))]).toOption.getD .empty

def renamedScan : List GraphOp :=
  [.beginObservationScan sampleDescriptor .reconcile .providerRequested,
    .applyObservationScanPage sampleVolume crawlRenamed.events,
    .stageObservationCheckpoint sampleVolume sampleCheckpoint,
    .finalizeObservationScan sampleVolume 10, .finalizeObservationScan sampleVolume 10,
    .refreshVolumeProjection 10]

def renamedScanGraph : FilesystemGraph := (runOps crawledGraph renamedScan).toOption.getD .empty

theorem crawledGraph_run : runOps .empty [.applyBatch (sampleBatch (.upsertVolume sampleDescriptor ::
    crawlBefore.events.map .ofEvent))] = .ok crawledGraph := by decide +kernel

/-- The file below the renamed directory resolves after the scan and has no
document. -/
theorem renamedScan_loses_document :
    Reachable crawledGraph ∧ (∀ e d, crawlRenamed.AtDepth e d → d ≤ 512) ∧
      runOps crawledGraph renamedScan = .ok renamedScanGraph ∧
      observationSession renamedScanGraph sampleVolume = none ∧ Drained renamedScanGraph ∧
      desiredPath renamedScanGraph (linkIdFor (some (sampleKey 2)) "a") = some "C:/e/a" ∧
      desiredCatalogDocument renamedScanGraph
        (documentIdForLink (linkIdFor (some (sampleKey 2)) "a")) = .ok none := by
  refine ⟨runOps_steps (fun _ _ _ => trivial) crawledGraph_run, sampleCrawl_depth, ?_⟩
  decide +kernel

/-- One more file, deleted before the scan. -/
def deletedFile : CrawlEntry := ⟨sampleObject 4 .file, some (sampleKey 2), "b"⟩

def watchedGraph : FilesystemGraph :=
  (runOps .empty [.applyBatch (sampleBatch (.upsertVolume sampleDescriptor ::
    (crawlBefore.events ++ deletedFile.events sampleVolume).map .ofEvent))]).toOption.getD .empty

def rescanBegun : FilesystemGraph :=
  (runOps watchedGraph [.beginObservationScan sampleDescriptor .reconcile .providerRequested]
    ).toOption.getD .empty

/-- The first page ends between an object and its link. -/
def rescanPaged (n : Nat) : FilesystemGraph :=
  (runOps rescanBegun ([.applyObservationScanPage sampleVolume (crawlBefore.events.take 3),
    .refreshVolumeProjection 2,
    .applyObservationScanPage sampleVolume (crawlBefore.events.drop 3)].take n)).toOption.getD .empty

def rescanStaged : FilesystemGraph :=
  (runOps (rescanPaged 3) [.stageObservationCheckpoint sampleVolume sampleCheckpoint]).toOption.getD
    .empty

def rescanSwept (n : Nat) : FilesystemGraph :=
  (runOps rescanStaged ([.finalizeObservationScan sampleVolume 1,
    .finalizeObservationScan sampleVolume 10, .finalizeObservationScan sampleVolume 10,
    .refreshVolumeProjection 10].take n)).toOption.getD .empty

theorem pageSettles_of_leaves {page : List FilesystemEvent} {g : FilesystemGraph}
    (h : EachMutation TouchesLeaves (currentGeneration g sampleVolume + 1) g (page.map .ofEvent)) :
    PageSettles sampleVolume page g :=
  .inr (.inr fun _ _ _ _ => h.imp fun _ _ => TouchesLeaves.settles)

theorem sweepSettles_of_leaves {k : Nat} {g : FilesystemGraph}
    (h : ∀ session ∈ g.sessions.get sampleVolume,
      ∀ x ∈ staleLinkPage g sampleVolume session.scanGeneration k, ∀ y ∈ g.links.rows,
        y.2.parentKey ≠ some x.2.objectKey) : SweepSettles sampleVolume k g := by
  intro session staged hs _ x hx id row _ hbelow
  obtain ⟨y, hy, hp⟩ := hbelow.exists_child
  exact absurd hp (h session hs x hx y hy)

theorem rescan_pages :
    Scanning (PageSettles sampleVolume) RefreshStep sampleVolume rescanBegun crawlBefore.events
      (rescanPaged 3) := by
  have h₁ : applyObservationScanPage rescanBegun sampleVolume (crawlBefore.events.take 3) =
      .ok (rescanPaged 1, ⟨3, 3, 0, 2⟩) := by decide +kernel
  have h₂ : GraphOp.run (rescanPaged 1) (.refreshVolumeProjection 2) = .ok (rescanPaged 2) := by
    decide +kernel
  have h₃ : applyObservationScanPage (rescanPaged 2) sampleVolume (crawlBefore.events.drop 3) =
      .ok (rescanPaged 3, ⟨3, 4, 0, 0⟩) := by decide +kernel
  have hs₁ : PageSettles sampleVolume (crawlBefore.events.take 3) rescanBegun :=
    pageSettles_of_leaves (by decide +kernel)
  have hs₃ : PageSettles sampleVolume (crawlBefore.events.drop 3) (rescanPaged 2) :=
    pageSettles_of_leaves (by decide +kernel)
  have hrefresh : Step RefreshStep (rescanPaged 1) (rescanPaged 2) :=
    ⟨.refreshVolumeProjection 2, trivial, h₂⟩
  have hfirst : Scanning (PageSettles sampleVolume) RefreshStep sampleVolume rescanBegun
      ([] ++ crawlBefore.events.take 3) (rescanPaged 1) := .page .start hs₁ h₁
  have hboth := Scanning.page (.other hfirst hrefresh (volumeRows_refresh hrefresh)) hs₃ h₃
  rw [List.nil_append, List.take_append_drop] at hboth
  exact hboth

theorem rescan_sweeps :
    Finalizing (SweepSettles sampleVolume) RefreshStep sampleVolume rescanStaged 2 (rescanSwept 2) := by
  have h₁ : finalizeObservationScan rescanStaged sampleVolume 1 =
      .ok (rescanSwept 1, ⟨1, 0, false⟩) := by decide +kernel
  have h₂ : finalizeObservationScan (rescanSwept 1) sampleVolume 10 =
      .ok (rescanSwept 2, ⟨0, 0, false⟩) := by decide +kernel
  have hs₁ : SweepSettles sampleVolume 1 rescanStaged := sweepSettles_of_leaves (by decide +kernel)
  have hs₂ : SweepSettles sampleVolume 10 (rescanSwept 1) :=
    sweepSettles_of_leaves (by decide +kernel)
  exact .call (.call .start hs₁ (by decide) h₁ rfl) hs₂ (by decide) h₂ rfl

theorem rescan_restores :
    (desiredCatalogDocuments (rescanSwept 4)).toOption.map (·.map (·.resolvedPath)) =
        some ["C:", "C:/d/a", "C:/d"] ∧
    ∃ documents, desiredCatalogDocuments (rescanSwept 4) = .ok documents ∧
      (documents.map (·.identity.documentId)).Nodup ∧
      (∀ e ∈ crawlBefore.entries, ∃ document ∈ documents,
        EntryDocument (rescanSwept 4) sampleVolume e document) ∧
      ∀ document ∈ documents, document.identity.objectKey.volumeId = sampleVolume →
        ∃ e ∈ crawlBefore.entries, EntryDocument (rescanSwept 4) sampleVolume e document := by
  have hprior : runOps .empty [.applyBatch (sampleBatch (.upsertVolume sampleDescriptor ::
      (crawlBefore.events ++ deletedFile.events sampleVolume).map .ofEvent))] = .ok watchedGraph := by
    decide +kernel
  have hbegin : beginObservationScan watchedGraph sampleDescriptor .reconcile .providerRequested =
      .ok (rescanBegun, ⟨sampleVolume, 2, .reconcile, .scanning⟩) := by decide +kernel
  have hstage : stageObservationCheckpoint (rescanPaged 3) sampleVolume sampleCheckpoint =
      .ok rescanStaged := by decide +kernel
  have hlast : finalizeObservationScan (rescanSwept 2) sampleVolume 10 =
      .ok (rescanSwept 3, ⟨0, 0, true⟩) := by decide +kernel
  have hrefresh : GraphOp.run (rescanSwept 3) (.refreshVolumeProjection 10) = .ok (rescanSwept 4) := by
    decide +kernel
  have hdrained : Drained (rescanSwept 4) := by decide +kernel
  have hreach : Reachable watchedGraph := runOps_steps (fun _ _ _ => trivial) hprior
  exact ⟨by decide +kernel, scan_restores_catalog hreach sampleCrawl_depth hbegin rescan_pages hstage
    rescan_sweeps (by decide) hlast rfl (.single ⟨.refreshVolumeProjection 10, trivial, hrefresh⟩)
    hdrained⟩

end Example

end LocalSearch.Agent
