import LocalSearch.Content.FolderSync
import Mathlib.Data.List.Dedup

/-!
# When a folder sync reaches the tree

The identity of a link is the hash of its place, so a crawl collides with what
the graph holds only where an identity is bound to another object: such a tree
is rejected. What the crawl did not see is removed by way of its documents, so
every link to be removed needs one, and every object to be removed needs a link.
-/
namespace LocalSearch.Content

set_option autoImplicit false

open Core Lib Graph Windows

/-- The identity of a link by its place. -/
def placeIdentity (v : VolumeId) (parentKey : Option FileKey) (name : String) : FileLinkId :=
  match parentKey with
  | none => rootLinkId v
  | some _ => linkIdFor parentKey name

/-- Every link is stored under the identity of its place. -/
def Hashed (names : Names) : Prop :=
  ∀ id link, names.links id = some link → link.fileLinkId = id ∧
    id = placeIdentity link.objectKey.volumeId link.parentKey link.name

/-- A mutation of the volume that writes links under the identity of their place. -/
def Written (v : VolumeId) (m : GraphMutation) : Prop :=
  m.InVolume v ∧ ∀ link boundary, m = .upsertLink link boundary →
    link.fileLinkId = placeIdentity v link.parentKey link.name

/-- An entry and its directory are on the volume. -/
def OnVolume (v : VolumeId) (e : CrawlEntry) : Prop :=
  e.object.objectKey.volumeId = v ∧ ∀ p ∈ e.parentKey, p.volumeId = v

/-- What the sink makes of one entry. -/
def entryMutations (v : VolumeId) (e : CrawlEntry) : List GraphMutation :=
  [.upsertObject e.object, .upsertLink (e.link v) false]

section Scan

variable {v : VolumeId} {names : Names} {m : GraphMutation} {ms : List GraphMutation} {e : CrawlEntry}
  {entries : List CrawlEntry}

theorem apply_upsertVolume (names : Names) (descriptor : VolumeDescriptor) :
    names.apply (.upsertVolume descriptor) = names :=
  congrArg (Names.mk _) (funext fun _ => propext (or_iff_left not_false))

theorem foldl_links (ms : List GraphMutation) (names : Names) :
    (ms.foldl Names.apply names).links = replay names.links (linkLog ms) := by
  induction ms generalizing names with
  | nil => rfl
  | cons m ms ih =>
    have hlog : linkLog (m :: ms) = m.linkWrites ++ linkLog ms := List.flatMap_cons
    rw [List.foldl_cons, ih, hlog, replay_append]
    rfl

theorem Hashed.apply (h : Hashed names) (hm : Written v m) : Hashed (names.apply m) := by
  intro id link hlink
  cases m with
  | upsertLink observed boundary =>
    replace hlink : Function.update names.links observed.fileLinkId
      (some (storedLink observed boundary)) id = some link := hlink
    rw [Function.update_apply] at hlink
    split_ifs at hlink with hid
    · obtain rfl := Option.some.inj hlink
      have hvolume : observed.objectKey.volumeId = v := hm.1.1
      refine ⟨hid.symm, ?_⟩
      show id = placeIdentity observed.objectKey.volumeId observed.parentKey observed.name
      rw [hid, hvolume]
      exact hm.2 observed boundary rfl
    · exact h id link hlink
  | removeLink removed object =>
    replace hlink : Function.update names.links removed none id = some link := hlink
    rw [Function.update_apply] at hlink
    split_ifs at hlink
    exact h id link hlink
  | upsertVolume | setVolumeState | upsertObject | tombstoneObject | requireReconciliation =>
    exact h id link hlink

theorem Hashed.foldl (h : Hashed names) (hms : ∀ m ∈ ms, Written v m) :
    Hashed (ms.foldl Names.apply names) := by
  induction ms generalizing names with
  | nil => exact h
  | cons m ms ih =>
    exact ih (h.apply (hms m List.mem_cons_self)) fun x hx => hms x (List.mem_cons_of_mem _ hx)

theorem entryMutations_written (hvolume : OnVolume v e) : ∀ m ∈ entryMutations v e, Written v m := by
  intro m hm
  rcases List.mem_cons.mp hm with rfl | hm
  · exact ⟨hvolume.1, fun link boundary h => by cases h⟩
  · rw [List.mem_singleton.mp hm]
    refine ⟨hvolume, ?_⟩
    intro link boundary h
    obtain ⟨rfl, -⟩ := GraphMutation.upsertLink.inj h
    rfl

/-- Of two links at one place only the identity of the place is stored. -/
theorem entry_admitted (h : Hashed names) (hvolume : e.object.objectKey.volumeId = v)
    (hknown : names.known e.object.objectKey)
    (hbound : ∀ link, names.links (e.fileLinkId v) = some link → link.objectKey = e.object.objectKey) :
    names.Admits (.upsertLink (e.link v) false) := by
  refine ⟨hknown, ?_⟩
  intro id link hlink
  obtain ⟨hid, hplace⟩ := h id link hlink
  show if link.fileLinkId = e.fileLinkId v then _ else _
  split_ifs with hsame
  · apply hbound link
    rw [← hsame, hid]
    exact hlink
  · rintro ⟨hname, hparent, hroot⟩
    replace hname : link.name = e.name := hname
    replace hparent : link.parentKey = e.parentKey := hparent
    replace hroot : e.parentKey = none → link.objectKey.volumeId = e.object.objectKey.volumeId := hroot
    apply hsame
    rw [hid, hplace, hname, hparent]
    show placeIdentity link.objectKey.volumeId e.parentKey e.name = e.fileLinkId v
    cases hp : e.parentKey with
    | none =>
      rw [CrawlEntry.fileLinkId, hp, hroot hp, hvolume]
      rfl
    | some p =>
      rw [CrawlEntry.fileLinkId, hp]
      rfl

/-- A crawl is accepted if no identity it writes is bound to another object. -/
theorem scan_accepts (h : Hashed names)
    (hvolume : ∀ e ∈ entries, OnVolume v e)
    (hsizes : ∀ e ∈ entries, e.object.metadata.size < 2 ^ 63)
    (hbound : ∀ e ∈ entries, ∀ link, names.links (e.fileLinkId v) = some link →
      link.objectKey = e.object.objectKey)
    (hdistinct : ∀ a ∈ entries, ∀ b ∈ entries, a.fileLinkId v = b.fileLinkId v → a.link v = b.link v) :
    names.Accepts (entries.flatMap (entryMutations v)) := by
  induction entries generalizing names with
  | nil => trivial
  | cons e rest ih =>
    have he : e ∈ e :: rest := List.mem_cons_self
    have hrest : ∀ x ∈ rest, x ∈ e :: rest := fun x hx => List.mem_cons_of_mem _ hx
    have hobserved : Hashed (names.apply (.upsertObject e.object)) :=
      h.apply (entryMutations_written (hvolume e he) _ List.mem_cons_self)
    have hlinked : Hashed ((names.apply (.upsertObject e.object)).apply (.upsertLink (e.link v) false)) :=
      hobserved.apply (entryMutations_written (hvolume e he) _
        (List.mem_cons_of_mem _ List.mem_cons_self))
    refine ⟨⟨hsizes e he, fun _ _ _ => trivial⟩, ?_, ?_⟩
    · exact entry_admitted hobserved (hvolume e he).1 (.inr rfl) (hbound e he)
    · refine ih hlinked (fun x hx => hvolume x (hrest x hx)) (fun x hx => hsizes x (hrest x hx)) ?_
        (fun a ha b hb => hdistinct a (hrest a ha) b (hrest b hb))
      intro x hx link hlink
      replace hlink : Function.update names.links (e.fileLinkId v) (some (storedLink (e.link v) false))
        (x.fileLinkId v) = some link := hlink
      rw [Function.update_apply] at hlink
      split_ifs at hlink with hid
      · obtain rfl := Option.some.inj hlink
        have hsame : x.link v = e.link v := hdistinct x (hrest x hx) e he hid
        exact (congrArg FileLinkSnapshot.objectKey hsame).symm
      · exact hbound x (hrest x hx) link hlink

/-- The names hold the links of the entries. -/
def HoldsEntries (v : VolumeId) (entries : List CrawlEntry) (names : Names) : Prop :=
  ∀ e ∈ entries, names.links (e.fileLinkId v) = some (storedLink (e.link v) false)

theorem linkLog_entries : linkLog (entries.flatMap (entryMutations v)) =
    entries.map fun e => (e.fileLinkId v, some (storedLink (e.link v) false)) := by
  induction entries with
  | nil => rfl
  | cons e rest ih =>
    rw [List.flatMap_cons, linkLog_append, ih]
    rfl

theorem scan_holds
    (hdistinct : ∀ a ∈ entries, ∀ b ∈ entries, a.fileLinkId v = b.fileLinkId v → a.link v = b.link v) :
    HoldsEntries v entries ((entries.flatMap (entryMutations v)).foldl Names.apply names) := by
  intro e he
  rw [foldl_links, linkLog_entries, replay_apply]
  cases hlast : lastWrite (entries.map fun e => (e.fileLinkId v, some (storedLink (e.link v) false)))
      (e.fileLinkId v) with
  | none => exact absurd rfl (lastWrite_eq_none.mp hlast _ (List.mem_map_of_mem he))
  | some value =>
    obtain ⟨x, hx, hpair⟩ := List.mem_map.mp (lastWrite_mem hlast)
    obtain ⟨hid, rfl⟩ := Prod.mk.inj hpair
    rw [hdistinct x hx e he hid]
    rfl

end Scan

theorem foldl_known (ms : List GraphMutation) {names : Names} {key : FileKey} (h : names.known key) :
    (ms.foldl Names.apply names).known key := by
  induction ms generalizing names with
  | nil => exact h
  | cons m ms ih => exact ih (.inl h)

section Removals

variable {v : VolumeId} {names : Names}

/-- The names without the links. -/
theorem foldl_removeLink (removed : List (FileLinkId × FileKey)) (id : FileLinkId) :
    ((removed.map fun x => GraphMutation.removeLink x.1 x.2).foldl Names.apply names).links id =
      if id ∈ removed.map (·.1) then none else names.links id := by
  induction removed generalizing names with
  | nil => rfl
  | cons x rest ih =>
    rw [List.map_cons, List.foldl_cons, ih]
    have hfirst : (names.apply (.removeLink x.1 x.2)).links id =
        if id = x.1 then none else names.links id := Function.update_apply _ _ _ _
    rw [hfirst]
    simp only [List.map_cons, List.mem_cons]
    by_cases hid : id = x.1
    · rw [if_pos hid, ite_self, if_pos (Or.inl hid)]
    · rw [if_neg hid]
      simp only [hid, false_or]

theorem foldl_tombstone (names : Names) (objects : List FileKey) :
    (objects.map GraphMutation.tombstoneObject).foldl Names.apply names = names := by
  induction objects generalizing names with
  | nil => rfl
  | cons key rest ih =>
    rw [List.map_cons, List.foldl_cons, ih]
    exact congrArg (Names.mk _) (funext fun _ => propext (or_iff_left not_false))

theorem removeLinks_accepted {removed : List (FileLinkId × FileKey)}
    (hstored : ∀ id link, names.links id = some link → link.fileLinkId = id)
    (hbound : ∀ x ∈ removed, ∀ link, names.links x.1 = some link → link.objectKey = x.2) :
    names.Accepts (removed.map fun x => .removeLink x.1 x.2) := by
  induction removed generalizing names with
  | nil => trivial
  | cons x rest ih =>
    have hfewer : ∀ id link, (names.apply (.removeLink x.1 x.2)).links id = some link →
        names.links id = some link := by
      intro id link hlink
      replace hlink : Function.update names.links x.1 none id = some link := hlink
      rw [Function.update_apply] at hlink
      split_ifs at hlink
      exact hlink
    refine ⟨⟨trivial, fun id link hlink hid => ?_⟩, ih (fun id link hlink => hstored id link
      (hfewer id link hlink)) fun y hy link hlink => hbound y (List.mem_cons_of_mem _ hy) link
        (hfewer y.1 link hlink)⟩
    apply hbound x List.mem_cons_self
    rw [← hid, hstored id link hlink]
    exact hlink

theorem tombstones_accepted {objects : List FileKey} (hknown : ∀ key ∈ objects, names.known key)
    (hunlinked : ∀ key ∈ objects, ∀ id link, names.links id = some link → link.objectKey ≠ key) :
    names.Accepts (objects.map .tombstoneObject) := by
  induction objects with
  | nil => trivial
  | cons key rest ih =>
    have hsame : names.apply (.tombstoneObject key) = names := foldl_tombstone names [key]
    refine ⟨⟨hknown key List.mem_cons_self, hunlinked key List.mem_cons_self⟩, ?_⟩
    rw [hsame]
    exact ih (fun x hx => hknown x (List.mem_cons_of_mem _ hx))
      (fun x hx => hunlinked x (List.mem_cons_of_mem _ hx))

end Removals

section Objects

variable {v : VolumeId} {gen : Nat} {g g' : FilesystemGraph} {ms : List GraphMutation}

def IsRemoval : GraphMutation → Prop
  | .removeLink _ _ | .tombstoneObject _ => True
  | _ => False

/-- The object is not tombstoned. -/
def Live (g : FilesystemGraph) (key : FileKey) : Prop :=
  ∃ row, g.objects.get key = some row ∧ row.tombstoned = false

theorem live_of_fade {key : FileKey} (h : ObjectsFade g g') (hlive : Live g' key) : Live g key := by
  obtain ⟨row, hrow, hlive⟩ := hlive
  obtain ⟨old, hold, -, -, htombstoned⟩ := h key row hrow
  refine ⟨old, hold, ?_⟩
  cases hdead : old.tombstoned with
  | false => rfl
  | true =>
    rw [htombstoned hdead] at hlive
    cases hlive

/-- Removals revive no object, and those they tombstone stay so. -/
theorem mutates_removals (hms : ∀ m ∈ ms, IsRemoval m) (h : Mutates gen g ms g') :
    ObjectsFade g g' ∧ ∀ key, .tombstoneObject key ∈ ms → ¬ Live g' key := by
  induction ms generalizing g with
  | nil =>
    obtain rfl := mutates_nil.mp h
    exact ⟨.refl g', fun _ hmem => by cases hmem⟩
  | cons m ms ih =>
    obtain ⟨g₁, n, h₁, h⟩ := mutates_cons.mp h
    obtain ⟨hfade, hdead⟩ := ih (fun x hx => hms x (List.mem_cons_of_mem _ hx)) h
    have hfirst : ObjectsFade g g₁ ∧ ∀ key, m = .tombstoneObject key → ¬ Live g₁ key := by
      have hm := hms m List.mem_cons_self
      cases m with
      | removeLink id object => exact ⟨removeLinkInternal_fade h₁, fun _ heq => by cases heq⟩
      | tombstoneObject object =>
        obtain ⟨g₂, h₂, heq⟩ := bind_ok.mp h₁
        obtain ⟨rfl, -⟩ := Prod.mk.inj (Except.ok.inj heq)
        obtain ⟨-, -, rfl⟩ := tombstoneObject_ok h₂
        refine ⟨setTombstoned_fade g object, ?_⟩
        intro key heq
        obtain rfl := GraphMutation.tombstoneObject.inj heq
        rintro ⟨row, hrow, hlive⟩
        rw [setTombstoned_get, if_pos rfl] at hrow
        obtain ⟨old, -, rfl⟩ := Option.map_eq_some_iff.mp hrow
        cases hlive
      | upsertVolume | setVolumeState | upsertObject | upsertLink | requireReconciliation => exact hm.elim
    refine ⟨hfirst.1.trans hfade, ?_⟩
    intro key hmem
    rcases List.mem_cons.mp hmem with hm | hmem
    · exact fun hlive => hfirst.2 key hm.symm (live_of_fade hfade hlive)
    · exact hdead key hmem

end Objects

theorem mem_desiredCatalogIdentities {g : FilesystemGraph} {v : VolumeId} {id : FileLinkId} {key : FileKey}
    (hwf : WellFormed g) : (id, key) ∈ desiredCatalogIdentities g v ↔
      ∃ row, g.catalog.get (documentIdForLink id) = some row ∧ row.objectKey = key ∧ key.volumeId = v := by
  constructor
  · intro hmem
    obtain ⟨⟨d, row⟩, hselect, heq⟩ := List.mem_map.mp hmem
    obtain ⟨rfl, rfl⟩ := Prod.mk.inj heq
    obtain ⟨hrow, hvolume⟩ := Table.mem_select.mp hselect
    obtain ⟨document, rfl, hlink, -⟩ := hwf.catalog.compact d row hrow
    refine ⟨compactRow document, ?_, rfl, beq_iff_eq.mp hvolume⟩
    show g.catalog.get (documentIdForLink document.identity.fileLinkId) = _
    rw [hlink, documentIdForLink_linkOfDocument, hrow]
  · rintro ⟨row, hrow, rfl, hvolume⟩
    obtain ⟨document, rfl, hlink, -⟩ := hwf.catalog.compact _ row hrow
    refine List.mem_map.mpr ⟨(documentIdForLink id, compactRow document), ?_, ?_⟩
    · exact Table.mem_select.mpr ⟨hrow, beq_iff_eq.mpr hvolume⟩
    · exact Prod.ext hlink rfl

/-- A document is one of a stored link and its object. -/
theorem link_of_identity {g : FilesystemGraph} {v : VolumeId} {id : FileLinkId} {key : FileKey}
    (hwf : WellFormed g) (h : (id, key) ∈ desiredCatalogIdentities g v) :
    (∃ link, loadLink g id = some link ∧ link.objectKey = key) ∧ key.volumeId = v ∧
      (g.objects.get key).isSome := by
  obtain ⟨row, hrow, rfl, hvolume⟩ := (mem_desiredCatalogIdentities hwf).mp h
  obtain ⟨stored, hstored, hkey⟩ := hwf.catalog.link id row (Set.notMem_empty id) hrow
  obtain ⟨object, hobject, -⟩ := hwf.names.linkObject id stored hstored
  refine ⟨⟨storedLinkFromRow id stored, loadLink_eq_some.mpr ⟨stored, hstored, rfl⟩, hkey⟩, hvolume, ?_⟩
  rw [← hkey, hobject]
  rfl

section Conditions

variable [CaseMapping]

/-- Everything below a directory is on its volume. -/
theorem crawl_volume (options : ScopedScanOptions) (v : VolumeId) (parent : FileKey)
    (hparent : parent.volumeId = v) (found : List FoundEntry) :
    ∀ e ∈ crawl options v parent found, OnVolume v e := by
  refine crawl.induct v
    (fun parent entry => parent.volumeId = v → ∀ e ∈ crawlEntry options v parent entry, OnVolume v e)
    (fun parent found => parent.volumeId = v → ∀ e ∈ crawl options v parent found, OnVolume v e)
    ?_ ?_ ?_ parent found hparent
  · intro parent fileReference metadata reparsePoint name below ih hparent e he
    rw [crawlEntry] at he
    rcases List.mem_cons.mp he with rfl | he
    · exact ⟨rfl, fun p hp => Option.some.inj hp ▸ hparent⟩
    · split_ifs at he
      · exact ih rfl e he
      · cases he
  · intro parent _ e he
    rw [crawl] at he
    cases he
  · intro parent entry rest ihentry ihrest hparent e he
    rw [crawl] at he
    rcases List.mem_append.mp he with he | he
    · exact ihentry hparent e he
    · exact ihrest hparent e he

theorem FolderSync.entries_volume (sync : FolderSync) : ∀ e ∈ sync.entries, OnVolume sync.volumeId e := by
  intro e he
  rcases List.mem_cons.mp he with rfl | he
  · exact ⟨rfl, fun p hp => by cases hp⟩
  · exact crawl_volume sync.options sync.volumeId _ rfl sync.found e he

theorem FolderSync.scanMutations_eq (sync : FolderSync) :
    sync.scanMutations = sync.entries.flatMap (entryMutations sync.volumeId) := by
  rw [FolderSync.scanMutations, List.map_flatMap]
  rfl

/-- The tree does not collide with the graph or with itself: no identity it writes
is bound to another object, and each is written for one place. -/
structure FolderSync.Fits (sync : FolderSync) (g : FilesystemGraph) : Prop where
  sizes : ∀ e ∈ sync.entries, e.object.metadata.size < 2 ^ 63
  bound : ∀ e ∈ sync.entries, ∀ link, loadLink g (e.fileLinkId sync.volumeId) = some link →
    link.objectKey = e.object.objectKey
  distinct : ∀ a ∈ sync.entries, ∀ b ∈ sync.entries,
    a.fileLinkId sync.volumeId = b.fileLinkId sync.volumeId → a.link sync.volumeId = b.link sync.volumeId

/-- Every link the crawl did not see has a document, and every live object it did
not see has a link. -/
structure FolderSync.Listed (sync : FolderSync) (g : FilesystemGraph) : Prop where
  documented : ∀ id link, loadLink g id = some link → link.objectKey.volumeId = sync.volumeId →
    id ∉ sync.observedLinks → (g.catalog.get (documentIdForLink id)).isSome
  linked : ∀ key, Live g key → key.volumeId = sync.volumeId → key ∉ sync.observedObjects →
    ∃ id link, loadLink g id = some link ∧ link.objectKey = key

/-- The volume has a generation left. -/
def HasGeneration (g : FilesystemGraph) (sync : FolderSync) : Prop :=
  currentGeneration g sync.volumeId + 1 < 2 ^ 63

/-- A batch has a generation left. -/
def SyncState.HasRoom : SyncState → Prop
  | ⟨_, .idle⟩ | ⟨_, .complete _⟩ | ⟨_, .scanning _ []⟩ => True
  | ⟨g, .scanning sync (_ :: _)⟩ | ⟨g, .removing sync _⟩ => HasGeneration g sync

/-- A batch has a generation left, and the identities are read when they say what
to remove. -/
def SyncState.Ready : SyncState → Prop
  | ⟨_, .idle⟩ | ⟨_, .complete _⟩ => True
  | ⟨g, .scanning sync []⟩ => sync.Listed g
  | ⟨g, .scanning sync (_ :: _)⟩ | ⟨g, .removing sync _⟩ => HasGeneration g sync

/-- The volume holds exactly the links of the tree, and only objects of the tree
are live. -/
structure FolderSync.Converged (sync : FolderSync) (g : FilesystemGraph) : Prop where
  links : ∀ id link, (loadLink g id = some link ∧ link.objectKey.volumeId = sync.volumeId) ↔
    ∃ e ∈ sync.entries, id = e.fileLinkId sync.volumeId ∧ link = storedLink (e.link sync.volumeId) false
  objects : ∀ key, Live g key → key.volumeId = sync.volumeId → key ∈ sync.observedObjects

end Conditions

section Batch

variable [CaseMapping] {sync : FolderSync} {g g' : FilesystemGraph} {batch : GraphMutationBatch}
  {ms : List GraphMutation}

def FolderSync.mode (sync : FolderSync) : ProjectionOutboxMode :=
  if sync.rebuildableInitialIngest then .rebuildable else .durable

theorem applyFolderGraphBatch_ok : sync.applyFolderGraphBatch g batch = .ok g' ↔
    ∃ summary, applyBatchWithOutboxMode g batch sync.mode = .ok (g', summary) := by
  have hmode : (if sync.rebuildableInitialIngest then applyRebuildableBatch g batch
      else applyBatch g batch) = applyBatchWithOutboxMode g batch sync.mode := by
    unfold FolderSync.mode
    split_ifs <;> rfl
  rw [FolderSync.applyFolderGraphBatch, hmode]
  exact map_fst_ok

/-- No consumer stands in the way of the outbox mode. -/
def FolderSync.FitsConsumers (sync : FolderSync) (g : FilesystemGraph) : Prop :=
  sync.rebuildableInitialIngest = true → projectionConsumersExist g = false

theorem batch_accepted (hwf : WellFormed g) (hs : g.sessions = .empty) (hmode : sync.FitsConsumers g)
    (hvolume : batch.volumeId = sync.volumeId) (hcheckpoint : batch.checkpoint.volumeId = sync.volumeId)
    (hopen : batch.mutations = .upsertVolume sync.descriptor :: ms)
    (hms : ∀ m ∈ ms, Written sync.volumeId m) (hgen : HasGeneration g sync)
    (haccepts : (Names.of g).Accepts ms) : ∃ g', sync.applyFolderGraphBatch g batch = .ok g' := by
  have hinvolume : ∀ m ∈ batch.mutations, m.InVolume batch.volumeId := by
    intro m hm
    rw [hopen] at hm
    rw [hvolume]
    rcases List.mem_cons.mp hm with rfl | hm
    · rfl
    · exact (hms m hm).1
  have houtbox : ¬ (sync.mode = .rebuildable ∧ projectionConsumersExist g) := by
    rintro ⟨hrebuildable, hexist⟩
    have hflag : sync.rebuildableInitialIngest = true := by
      by_contra hflag
      rw [FolderSync.mode, if_neg hflag] at hrebuildable
      cases hrebuildable
    rw [hmode hflag] at hexist
    cases hexist
  have hclosed : g.sessions.get batch.volumeId = none := by
    rw [hs]
    rfl
  have haccepted := (openedBatch_accepts hwf hclosed (hcheckpoint.trans hvolume.symm) hinvolume houtbox
    hopen).mpr ⟨hvolume ▸ hgen, haccepts⟩
  obtain ⟨⟨g', summary⟩, h⟩ := haccepted
  exact ⟨g', applyFolderGraphBatch_ok.mpr ⟨summary, h⟩⟩

theorem scopedBatch_accepted {pending : List GraphMutation} (hwf : WellFormed g)
    (hs : g.sessions = .empty) (hmode : sync.FitsConsumers g)
    (hms : ∀ m ∈ pending, Written sync.volumeId m) (hgen : HasGeneration g sync)
    (haccepts : (Names.of g).Accepts pending) : ∃ g', sync.applyScopedBatch g pending = .ok g' := by
  show ∃ g', sync.applyFolderGraphBatch g
    ⟨sync.volumeId, sync.incomplete, .upsertVolume sync.descriptor :: pending⟩ = .ok g'
  exact batch_accepted hwf hs hmode rfl rfl rfl hms hgen haccepts

/-- What an accepted batch leaves of the graph. -/
structure Leaves (g : FilesystemGraph) (ms : List GraphMutation) (g' : FilesystemGraph) : Prop where
  wf : WellFormed g'
  sessions : g'.sessions = g.sessions
  consumers : g'.consumers = g.consumers
  names : Names.of g' = ms.foldl Names.apply (Names.of g)
  removals : (∀ m ∈ ms, IsRemoval m) → ObjectsFade g g' ∧
    ∀ key, .tombstoneObject key ∈ ms → ¬ Live g' key

theorem batch_leaves (hwf : WellFormed g) (hs : g.sessions = .empty)
    (hopen : batch.mutations = .upsertVolume sync.descriptor :: ms)
    (h : sync.applyFolderGraphBatch g batch = .ok g') : Leaves g ms g' := by
  obtain ⟨summary, h⟩ := applyFolderGraphBatch_ok.mp h
  have hclosed : g.sessions.get batch.volumeId = none := by
    rw [hs]
    rfl
  obtain ⟨hwf', hsessions, -, -, hnames⟩ := applyBatch_leaves hwf hclosed h
  rw [hopen, List.foldl_cons, apply_upsertVolume] at hnames
  obtain ⟨-, -, -, -, g₁, g₂, affected, jobs, appended, h₁, h₂, -, rfl⟩ := applyBatchWithOutboxMode_ok h
  have hrun : Mutates (currentGeneration g batch.volumeId + 1) g batch.mutations g₁ := ⟨_, _, _, h₁⟩
  refine ⟨hwf', hsessions, ?_, hnames, fun hms => ?_⟩
  · show g₂.consumers = g.consumers
    rw [syncLinks_frame h₂]
    show g₁.consumers = g.consumers
    rw [hrun.frame]
  · rw [hopen] at hrun
    obtain ⟨g₀, n, h₀, hrun⟩ := mutates_cons.mp hrun
    obtain ⟨rfl, -⟩ := Prod.mk.inj (Except.ok.inj h₀)
    have hobjects : (putCheckpoint (setGeneration g₂ batch.volumeId
        (currentGeneration g batch.volumeId + 1)) batch.volumeId
          (ProviderCheckpoint.row batch.checkpoint)).objects = g₁.objects := by
      show g₂.objects = g₁.objects
      rw [syncLinks_frame h₂]
    obtain ⟨hfade, hdead⟩ := mutates_removals hms hrun
    refine ⟨?_, ?_⟩
    · intro key row hrow
      rw [hobjects] at hrow
      exact hfade key row hrow
    · rintro key hmem ⟨row, hrow, hlive⟩
      rw [hobjects] at hrow
      exact hdead key hmem ⟨row, hrow, hlive⟩

end Batch

section Invariant

variable [CaseMapping] {sync : FolderSync} {g g' : FilesystemGraph} {flushed : List (List GraphMutation)}

/-- Batches of the sync that remain are accepted. -/
structure Remaining (sync : FolderSync) (flushed : List (List GraphMutation)) (g : FilesystemGraph) :
    Prop where
  mode : sync.FitsConsumers g
  written : ∀ m ∈ flushed.flatten, Written sync.volumeId m
  accepts : (Names.of g).Accepts flushed.flatten

/-- The links of the names are those of the tree. -/
def TreeLinks (sync : FolderSync) (names : Names) : Prop :=
  ∀ id link, (names.links id = some link ∧ link.objectKey.volumeId = sync.volumeId) ↔
    ∃ e ∈ sync.entries, id = e.fileLinkId sync.volumeId ∧ link = storedLink (e.link sync.volumeId) false

/-- The batches that remain lead to the links of the tree, and tombstone every
live object that is not of the tree. -/
structure Removing (sync : FolderSync) (flushed : List (List GraphMutation)) (g : FilesystemGraph) :
    Prop extends Remaining sync flushed g where
  removals : ∀ m ∈ flushed.flatten, IsRemoval m
  links : TreeLinks sync (flushed.flatten.foldl Names.apply (Names.of g))
  objects : ∀ key, Live g key → key.volumeId = sync.volumeId → key ∈ sync.observedObjects ∨
    .tombstoneObject key ∈ flushed.flatten

def SyncStage.Holds (g : FilesystemGraph) : SyncStage → Prop
  | .idle => True
  | .scanning sync flushed => Remaining sync flushed g ∧
      HoldsEntries sync.volumeId sync.entries (flushed.flatten.foldl Names.apply (Names.of g))
  | .removing sync flushed => Removing sync flushed g
  | .complete sync => sync.Converged g

structure SyncInvariant (s : SyncState) : Prop where
  wf : WellFormed s.graph
  sessions : s.graph.sessions = .empty
  hashed : Hashed (Names.of s.graph)
  stage : s.stage.Holds s.graph

omit [CaseMapping] in
theorem Remaining.next {pending : List GraphMutation} (h : Remaining sync (pending :: flushed) g)
    (hleaves : Leaves g pending g') : Remaining sync flushed g' := by
  obtain ⟨hpending, haccepts⟩ := (Names.accepts_append _ _ _).mp h.accepts
  refine ⟨fun hflag => ?_, fun m hm => h.written m (List.mem_append_right _ hm), ?_⟩
  · unfold projectionConsumersExist
    rw [hleaves.consumers]
    exact h.mode hflag
  · rw [hleaves.names]
    exact haccepts

omit [CaseMapping] in
theorem foldl_next {pending : List GraphMutation} (hleaves : Leaves g pending g') :
    (pending :: flushed).flatten.foldl Names.apply (Names.of g) =
      flushed.flatten.foldl Names.apply (Names.of g') := by
  rw [List.flatten_cons, List.foldl_append, hleaves.names]

theorem Removing.next {pending : List GraphMutation} (h : Removing sync (pending :: flushed) g)
    (hleaves : Leaves g pending g') : Removing sync flushed g' := by
  obtain ⟨hfade, hdead⟩ := hleaves.removals fun m hm => h.removals m (List.mem_append_left _ hm)
  refine ⟨h.toRemaining.next hleaves, fun m hm => h.removals m (List.mem_append_right _ hm), ?_, ?_⟩
  · rw [← foldl_next hleaves]
    exact h.links
  · intro key hlive hvolume
    rcases h.objects key (live_of_fade hfade hlive) hvolume with hobserved | hmem
    · exact .inl hobserved
    · rcases List.mem_append.mp hmem with hmem | hmem
      · exact absurd hlive (hdead key hmem)
      · exact .inr hmem

/-- A sync that starts will be accepted as far as its crawl goes. -/
theorem scanning_start (hinv : SyncInvariant ⟨g, .idle⟩) (hmode : sync.FitsConsumers g)
    (hfits : sync.Fits g) :
    SyncInvariant ⟨g, .scanning sync (flushes sync.scanBatchSize [] sync.scanMutations)⟩ := by
  have hflat : (flushes sync.scanBatchSize [] sync.scanMutations).flatten =
      sync.entries.flatMap (entryMutations sync.volumeId) := by
    rw [flushes_flatten, List.nil_append, sync.scanMutations_eq]
  refine ⟨hinv.wf, hinv.sessions, hinv.hashed, ⟨hmode, ?_, ?_⟩, ?_⟩
  · intro m hm
    rw [hflat] at hm
    obtain ⟨e, he, hm⟩ := List.mem_flatMap.mp hm
    exact entryMutations_written (sync.entries_volume e he) m hm
  · rw [hflat]
    exact scan_accepts hinv.hashed sync.entries_volume hfits.sizes hfits.bound hfits.distinct
  · rw [hflat]
    exact scan_holds hfits.distinct

/-- The link has a document and the crawl did not see it. -/
def Unseen (sync : FolderSync) (g : FilesystemGraph) (id : FileLinkId) : Prop :=
  id ∉ sync.observedLinks ∧ ∃ key, (id, key) ∈ desiredCatalogIdentities g sync.volumeId

theorem mem_unseen {id : FileLinkId} : id ∈ (((desiredCatalogIdentities g sync.volumeId).filter fun x =>
    !sync.observedLinks.contains x.1).map (·.1)) ↔ Unseen sync g id := by
  rw [List.mem_map]
  constructor
  · rintro ⟨⟨id, key⟩, hmem, rfl⟩
    obtain ⟨hmem, hunseen⟩ := List.mem_filter.mp hmem
    refine ⟨?_, key, hmem⟩
    simpa using hunseen
  · rintro ⟨hunseen, key, hmem⟩
    exact ⟨(id, key), List.mem_filter.mpr ⟨hmem, by simpa using hunseen⟩, rfl⟩

theorem mem_missingObjects {current : List (FileLinkId × FileKey)} {key : FileKey} :
    key ∈ sync.missingObjects current ↔ key ∉ sync.observedObjects ∧ ∃ id, (id, key) ∈ current := by
  rw [FolderSync.missingObjects, List.mem_insertionSort, List.mem_dedup, List.mem_filter, List.mem_map]
  constructor
  · rintro ⟨⟨⟨id, key⟩, hmem, rfl⟩, hunseen⟩
    refine ⟨?_, id, hmem⟩
    simpa using hunseen
  · rintro ⟨hunseen, id, hmem⟩
    exact ⟨⟨(id, key), hmem, rfl⟩, by simpa using hunseen⟩

/-- A link that stays behind the removals is of the tree. -/
theorem kept_entry (hwf : WellFormed g) (hlisted : sync.Listed g)
    (hholds : HoldsEntries sync.volumeId sync.entries (Names.of g)) {id : FileLinkId} {link : StoredLink}
    (hlink : loadLink g id = some link) (hvolume : link.objectKey.volumeId = sync.volumeId)
    (hkept : ¬ Unseen sync g id) : ∃ e ∈ sync.entries, id = e.fileLinkId sync.volumeId ∧
      link = storedLink (e.link sync.volumeId) false := by
  have hseen : id ∈ sync.observedLinks := by
    by_contra hunseen
    apply hkept
    refine ⟨hunseen, link.objectKey, ?_⟩
    obtain ⟨row, hrow⟩ := Option.isSome_iff_exists.mp (hlisted.documented id link hlink hvolume hunseen)
    -- the document is of the link's own object
    obtain ⟨stored, hstored, hkey⟩ := hwf.catalog.link id row (Set.notMem_empty id) hrow
    obtain ⟨stored', hstored', rfl⟩ := loadLink_eq_some.mp hlink
    obtain rfl := Option.some.inj (hstored.symm.trans hstored')
    exact (mem_desiredCatalogIdentities hwf).mpr ⟨row, hrow, hkey.symm, hvolume⟩
  obtain ⟨e, he, rfl⟩ := List.mem_map.mp hseen
  exact ⟨e, he, rfl, Option.some.inj (hlink.symm.trans (hholds e he))⟩

/-- Once the identities are read, the removals are accepted and leave the tree. -/
theorem removing_start (hwf : WellFormed g) (hhashed : Hashed (Names.of g)) (hmode : sync.FitsConsumers g)
    (hholds : HoldsEntries sync.volumeId sync.entries (Names.of g)) (hlisted : sync.Listed g)
    (hflat : flushed.flatten = sync.removalMutations (desiredCatalogIdentities g sync.volumeId)) :
    Removing sync flushed g := by
  set removed := (desiredCatalogIdentities g sync.volumeId).filter fun x =>
    !sync.observedLinks.contains x.1 with hremoved
  set after := (removed.map fun x => GraphMutation.removeLink x.1 x.2).foldl Names.apply (Names.of g)
    with hafter
  have hlinks : ∀ id link, after.links id = some link ↔ loadLink g id = some link ∧ ¬ Unseen sync g id := by
    intro id link
    rw [hafter, foldl_removeLink]
    split_ifs with hmem
    · exact iff_of_false (fun h => by cases h) fun h => h.2 (mem_unseen.mp hmem)
    · exact (and_iff_left fun h => hmem (mem_unseen.mpr h)).symm
  have hfold : flushed.flatten.foldl Names.apply (Names.of g) = after := by
    rw [hflat, FolderSync.removalMutations, List.foldl_append, foldl_tombstone]
  have hentry : ∀ id link, after.links id = some link → link.objectKey.volumeId = sync.volumeId →
      ∃ e ∈ sync.entries, id = e.fileLinkId sync.volumeId ∧
        link = storedLink (e.link sync.volumeId) false := by
    intro id link hlink hvolume
    obtain ⟨hlink, hkept⟩ := (hlinks id link).mp hlink
    exact kept_entry hwf hlisted hholds hlink hvolume hkept
  refine ⟨⟨hmode, ?_, ?_⟩, ?_, ?_, ?_⟩
  · intro m hm
    rw [hflat] at hm
    rcases List.mem_append.mp hm with hm | hm
    · obtain ⟨⟨id, key⟩, hx, rfl⟩ := List.mem_map.mp hm
      obtain ⟨-, hvolume, -⟩ := link_of_identity hwf (List.mem_filter.mp hx).1
      exact ⟨hvolume, fun _ _ heq => by cases heq⟩
    · obtain ⟨key, hkey, rfl⟩ := List.mem_map.mp hm
      obtain ⟨-, id, hmem⟩ := mem_missingObjects.mp hkey
      obtain ⟨-, hvolume, -⟩ := link_of_identity hwf hmem
      exact ⟨hvolume, fun _ _ heq => by cases heq⟩
  · rw [hflat, FolderSync.removalMutations, Names.accepts_append]
    constructor
    · refine removeLinks_accepted (fun id link hlink => (hhashed id link hlink).1) ?_
      rintro ⟨id, key⟩ hx link hlink
      obtain ⟨⟨link', hlink', hkey⟩, -⟩ := link_of_identity hwf (List.mem_filter.mp hx).1
      obtain rfl := Option.some.inj (hlink.symm.trans hlink')
      exact hkey
    · refine tombstones_accepted ?_ ?_
      · intro key hkey
        obtain ⟨-, id, hmem⟩ := mem_missingObjects.mp hkey
        obtain ⟨-, -, hknown⟩ := link_of_identity hwf hmem
        exact foldl_known _ hknown
      · rintro key hkey id link hlink rfl
        obtain ⟨hunseen, id', hmem⟩ := mem_missingObjects.mp hkey
        obtain ⟨-, hvolume, -⟩ := link_of_identity hwf hmem
        obtain ⟨e, he, -, rfl⟩ := hentry id link hlink hvolume
        exact hunseen (List.mem_map_of_mem he)
  · intro m hm
    rw [hflat] at hm
    rcases List.mem_append.mp hm with hm | hm
    · obtain ⟨x, -, rfl⟩ := List.mem_map.mp hm
      trivial
    · obtain ⟨x, -, rfl⟩ := List.mem_map.mp hm
      trivial
  · rw [hfold]
    intro id link
    constructor
    · rintro ⟨hlink, hvolume⟩
      exact hentry id link hlink hvolume
    · rintro ⟨e, he, rfl, rfl⟩
      refine ⟨(hlinks _ _).mpr ⟨hholds e he, ?_⟩, (sync.entries_volume e he).1⟩
      exact fun h => h.1 (List.mem_map_of_mem he)
  · intro key hlive hvolume
    by_cases hseen : key ∈ sync.observedObjects
    · exact .inl hseen
    · right
      obtain ⟨id, link, hlink, rfl⟩ := hlisted.linked key hlive hvolume hseen
      have hunseen : Unseen sync g id := by
        by_contra hkept
        obtain ⟨e, he, -, rfl⟩ := kept_entry hwf hlisted hholds hlink hvolume hkept
        exact hseen (List.mem_map_of_mem he)
      obtain ⟨-, key, hmem⟩ := hunseen
      obtain ⟨⟨link', hlink', hkey⟩, -⟩ := link_of_identity hwf hmem
      obtain rfl := Option.some.inj (hlink.symm.trans hlink')
      rw [hflat]
      refine List.mem_append_right _ (List.mem_map.mpr ⟨link.objectKey, ?_, rfl⟩)
      exact mem_missingObjects.mpr ⟨hseen, id, hkey ▸ hmem⟩

end Invariant

section Run

variable [CaseMapping] {g g' : FilesystemGraph} {s s' : SyncState} {stage : SyncStage}

/-- What a refresh leaves alone. -/
structure KeepsFiles (g g' : FilesystemGraph) : Prop where
  links : g'.links = g.links
  objects : g'.objects = g.objects
  sessions : g'.sessions = g.sessions
  consumers : g'.consumers = g.consumers

omit [CaseMapping] in
theorem KeepsFiles.names (h : KeepsFiles g g') : Names.of g' = Names.of g := by
  unfold Names.of loadLink
  rw [h.links, h.objects]

omit [CaseMapping] in
theorem KeepsFiles.live (h : KeepsFiles g g') {key : FileKey} (hlive : Live g' key) : Live g key := by
  unfold Live at hlive
  rw [h.objects] at hlive
  exact hlive

theorem KeepsFiles.holds (h : KeepsFiles g g') (hstage : stage.Holds g) : stage.Holds g' := by
  have hmode : ∀ {sync : FolderSync}, sync.FitsConsumers g → sync.FitsConsumers g' := by
    intro sync hmode hflag
    unfold projectionConsumersExist
    rw [h.consumers]
    exact hmode hflag
  cases stage with
  | idle => trivial
  | scanning sync flushed =>
    refine ⟨⟨hmode hstage.1.mode, hstage.1.written, ?_⟩, ?_⟩
    · rw [h.names]
      exact hstage.1.accepts
    · rw [h.names]
      exact hstage.2
  | removing sync flushed =>
    have hremoving : Removing sync flushed g := hstage
    refine ⟨⟨hmode hremoving.mode, hremoving.written, ?_⟩, hremoving.removals, ?_, fun key hlive =>
      hremoving.objects key (h.live hlive)⟩
    · rw [h.names]
      exact hremoving.accepts
    · rw [h.names]
      exact hremoving.links
  | complete sync =>
    have hconverged : sync.Converged g := hstage
    refine ⟨?_, fun key hlive => hconverged.objects key (h.live hlive)⟩
    have hload : loadLink g' = loadLink g := congrArg Names.links h.names
    rw [hload]
    exact hconverged.links

theorem KeepsFiles.invariant (h : KeepsFiles g g') (hwf : WellFormed g')
    (hinv : SyncInvariant ⟨g, stage⟩) : SyncInvariant ⟨g', stage⟩ := by
  refine ⟨hwf, h.sessions.trans hinv.sessions, ?_, h.holds hinv.stage⟩
  show Hashed (Names.of g')
  rw [h.names]
  exact hinv.hashed

theorem refreshProjectionPaths_keeps {k : Nat} {summary : ProjectionRefreshSummary}
    (h : refreshProjectionPaths g k = .ok (g', summary)) : KeepsFiles g g' := by
  rcases refreshProjectionPaths_ok h with ⟨-, rfl⟩ | ⟨_, _, _, g₁, _, -, -, -, hsync, hend⟩
  · exact ⟨rfl, rfl, rfl, rfl⟩
  · have hframe := syncLinks_frame hsync
    rcases hend with ⟨-, rfl⟩ | ⟨_, -, rfl⟩
    all_goals
      rw [hframe]
      exact ⟨rfl, rfl, rfl, rfl⟩

theorem refreshVolumeProjection_keeps {k : Nat} {summary : ProjectionRefreshSummary}
    (h : refreshVolumeProjection g k = .ok (g', summary)) : KeepsFiles g g' := by
  rcases refreshVolumeProjection_ok h with ⟨-, rfl⟩ | ⟨_, _, _, g₁, _, -, -, -, hsync, hend⟩
  · exact ⟨rfl, rfl, rfl, rfl⟩
  · have hframe := syncLinks_frame hsync
    rcases hend with ⟨-, rfl⟩ | ⟨_, -, rfl⟩
    all_goals
      rw [hframe]
      exact ⟨rfl, rfl, rfl, rfl⟩

/-- The next batch or reading succeeds. -/
theorem step_accepted (hinv : SyncInvariant s) (hready : s.Ready) : ∃ s', s.step = .ok s' := by
  obtain ⟨g, stage⟩ := s
  obtain ⟨hwf, hsessions, -, hstage⟩ := hinv
  cases stage with
  | idle => exact ⟨_, rfl⟩
  | complete sync => exact ⟨_, rfl⟩
  | scanning sync flushed =>
    cases flushed with
    | nil => exact ⟨_, rfl⟩
    | cons pending rest =>
      have hremaining : Remaining sync (pending :: rest) g := hstage.1
      have haccepts := ((Names.accepts_append _ _ _).mp hremaining.accepts).1
      obtain ⟨g', h⟩ := scopedBatch_accepted hwf hsessions hremaining.mode
        (fun m hm => hremaining.written m (List.mem_append_left _ hm)) hready haccepts
      exact ⟨_, bind_ok.mpr ⟨g', h, rfl⟩⟩
  | removing sync flushed =>
    have hremoving : Removing sync flushed g := hstage
    cases flushed with
    | nil =>
      have hopen : sync.finalBatch.mutations = [.upsertVolume sync.descriptor] := rfl
      have hnone : ∀ m ∈ ([] : List GraphMutation), Written sync.volumeId m := fun _ hm => by cases hm
      obtain ⟨g', h⟩ := batch_accepted hwf hsessions hremoving.mode rfl rfl hopen hnone hready trivial
      exact ⟨_, bind_ok.mpr ⟨g', h, rfl⟩⟩
    | cons pending rest =>
      have haccepts := ((Names.accepts_append _ _ _).mp hremoving.accepts).1
      obtain ⟨g', h⟩ := scopedBatch_accepted hwf hsessions hremoving.mode
        (fun m hm => hremoving.written m (List.mem_append_left _ hm)) hready haccepts
      exact ⟨_, bind_ok.mpr ⟨g', h, rfl⟩⟩

/-- What every batch leaves of the invariant. -/
theorem Leaves.invariant {ms : List GraphMutation} {v : VolumeId} (hleaves : Leaves g ms g')
    (hsessions : g.sessions = .empty) (hhashed : Hashed (Names.of g)) (hms : ∀ m ∈ ms, Written v m)
    (hstage : stage.Holds g') : SyncInvariant ⟨g', stage⟩ := by
  refine ⟨hleaves.wf, hleaves.sessions.trans hsessions, ?_, hstage⟩
  show Hashed (Names.of g')
  rw [hleaves.names]
  exact hhashed.foldl hms

theorem step_invariant (hinv : SyncInvariant s) (hready : s.Ready) (h : s.step = .ok s') :
    SyncInvariant s' := by
  obtain ⟨g, stage⟩ := s
  obtain ⟨hwf, hsessions, hhashed, hstage⟩ := id hinv
  cases stage with
  | idle =>
    obtain rfl := Except.ok.inj h
    exact hinv
  | complete sync =>
    obtain rfl := Except.ok.inj h
    exact hinv
  | scanning sync flushed =>
    cases flushed with
    | nil =>
      obtain rfl := Except.ok.inj h
      exact ⟨hwf, hsessions, hhashed, removing_start hwf hhashed hstage.1.mode hstage.2 hready
        (flushes_flatten _ _ _)⟩
    | cons pending rest =>
      obtain ⟨g', hbatch, heq⟩ := bind_ok.mp h
      obtain rfl := Except.ok.inj heq
      have hleaves : Leaves g pending g' := batch_leaves hwf hsessions rfl hbatch
      refine hleaves.invariant hsessions hhashed (fun m hm => hstage.1.written m
        (List.mem_append_left _ hm)) ⟨hstage.1.next hleaves, ?_⟩
      rw [← foldl_next hleaves]
      exact hstage.2
  | removing sync flushed =>
    have hremoving : Removing sync flushed g := hstage
    cases flushed with
    | nil =>
      obtain ⟨g', hbatch, heq⟩ := bind_ok.mp h
      obtain rfl := Except.ok.inj heq
      have hleaves : Leaves g [] g' := batch_leaves hwf hsessions rfl hbatch
      have hload : loadLink g' = loadLink g := congrArg Names.links hleaves.names
      have hfade : ObjectsFade g g' := (hleaves.removals fun _ hm => by cases hm).1
      refine hleaves.invariant (v := sync.volumeId) hsessions hhashed (fun _ hm => by cases hm) ⟨?_, ?_⟩
      · rw [hload]
        exact hremoving.links
      · intro key hlive hvolume
        exact (hremoving.objects key (live_of_fade hfade hlive) hvolume).resolve_right
          (fun hmem => by cases hmem)
    | cons pending rest =>
      obtain ⟨g', hbatch, heq⟩ := bind_ok.mp h
      obtain rfl := Except.ok.inj heq
      have hleaves : Leaves g pending g' := batch_leaves hwf hsessions rfl hbatch
      exact hleaves.invariant hsessions hhashed (fun m hm => hremoving.written m
        (List.mem_append_left _ hm)) (hremoving.next hleaves)

theorem syncInvariant_of_run (h : SyncRun FolderSync.Fits SyncState.Ready s) : SyncInvariant s := by
  induction h with
  | refl =>
    exact ⟨wellFormed_empty, rfl, (fun _ _ hlink => by cases hlink), trivial⟩
  | tail _ hstep ih =>
    cases hstep with
    | start hmode hfits => exact scanning_start ih hmode hfits
    | step hready h => exact step_invariant ih hready h
    | giveUp => exact ⟨ih.wf, ih.sessions, ih.hashed, trivial⟩
    | @refreshPaths g g' stage k summary h =>
      have hrun : (GraphOp.refreshProjectionPaths k).run g = .ok g' := map_fst_ok.mpr ⟨summary, h⟩
      exact (refreshProjectionPaths_keeps h).invariant (wellFormed_of_run ih.wf hrun) ih
    | @refreshVolume g g' stage k summary h =>
      have hrun : (GraphOp.refreshVolumeProjection k).run g = .ok g' := map_fst_ok.mpr ⟨summary, h⟩
      exact (refreshVolumeProjection_keeps h).invariant (wellFormed_of_run ih.wf hrun) ih
    | @acknowledge g g' consumer sequence generation h =>
      have hrun : (GraphOp.acknowledgeProjection consumer sequence generation).run g = .ok g' := h
      obtain ⟨-, -, -, -, rfl⟩ := acknowledgeProjection_ok.mp h
      exact ⟨wellFormed_of_run ih.wf hrun, ih.sessions, ih.hashed, trivial⟩

/-- In a run whose trees collide with nothing and whose identities say what to
remove, every batch is accepted and every sync that completes leaves its tree. -/
theorem folderSync_converges (h : SyncRun FolderSync.Fits SyncState.Ready s) :
    (s.Ready → ∃ s', s.step = .ok s') ∧
      ∀ sync, s.stage = .complete sync → sync.Converged s.graph := by
  have hinv := syncInvariant_of_run h
  refine ⟨step_accepted hinv, ?_⟩
  intro sync hstage
  have hholds := hinv.stage
  rw [hstage] at hholds
  exact hholds

end Run

section Example

attribute [local instance] asciiCaseMapping

/-- A sync of a folder that finds these entries. -/
def folderOf (found : List FoundEntry) : FolderSync where
  descriptor := sampleDescriptor
  rootReference := 1
  rootMetadata := (sampleObject 1 .directory).metadata
  displayRoot := "C:"
  rootFingerprint := []
  options := ScopedScanOptions.excluding []
  found := found
  scanBatchSize := 16
  rebuildableInitialIngest := false

def fileEntry (fileReference : Nat) (name : String) : FoundEntry :=
  .node fileReference (sampleObject fileReference .file).metadata false name []

def folderEntry (fileReference : Nat) (name : String) (below : List FoundEntry) : FoundEntry :=
  .node fileReference (sampleObject fileReference .directory).metadata false name below

/-- What the first batch of a sync leaves, and what the last one does. -/
def scannedWith (sync : FolderSync) (g : FilesystemGraph) : FilesystemGraph :=
  (sync.applyScopedBatch g sync.scanMutations).toOption.getD .empty

def finishedWith (sync : FolderSync) (g : FilesystemGraph) : FilesystemGraph :=
  (sync.applyFolderGraphBatch g sync.finalBatch).toOption.getD .empty

section Runs

variable {fits : FolderSync → FilesystemGraph → Prop} {ready : SyncState → Prop} {sync : FolderSync}
  {g g' : FilesystemGraph}

/-- A sync whose entries fit into one batch, up to what it has to remove. -/
theorem scanned_run (hrun : SyncRun fits ready ⟨g, .idle⟩) (hmode : sync.rebuildableInitialIngest = false)
    (hfits : fits sync g)
    (hone : flushes sync.scanBatchSize [] sync.scanMutations = [sync.scanMutations])
    (hscan : ready ⟨g, .scanning sync [sync.scanMutations]⟩)
    (hbatch : sync.applyScopedBatch g sync.scanMutations = .ok g')
    (hlisted : ready ⟨g', .scanning sync []⟩) :
    SyncRun fits ready ⟨g', .removing sync (flushes sync.scanBatchSize []
      (sync.removalMutations (desiredCatalogIdentities g' sync.volumeId)))⟩ := by
  have hstarted : SyncRun fits ready
      ⟨g, .scanning sync (flushes sync.scanBatchSize [] sync.scanMutations)⟩ := by
    refine hrun.tail (.start (fun hrebuild => ?_) hfits)
    rw [hmode] at hrebuild
    cases hrebuild
  rw [hone] at hstarted
  have hscanned := hstarted.tail (.step hscan (bind_ok.mpr ⟨g', hbatch, rfl⟩))
  exact hscanned.tail (.step hlisted rfl)

theorem finished_run (hrun : SyncRun fits ready ⟨g, .removing sync []⟩)
    (hfinal : ready ⟨g, .removing sync []⟩)
    (hlast : sync.applyFolderGraphBatch g sync.finalBatch = .ok g') :
    SyncRun fits ready ⟨g', .complete sync⟩ :=
  hrun.tail (.step hfinal (bind_ok.mpr ⟨g', hlast, rfl⟩))

end Runs

/-- The links and the objects that were not seen are as they have to be. -/
theorem listed_of_rows {sync : FolderSync} {g : FilesystemGraph}
    (hlinks : ∀ x ∈ g.links.rows, x.1 ∉ sync.observedLinks →
      (g.catalog.get (documentIdForLink x.1)).isSome = true)
    (hobjects : ∀ x ∈ g.objects.rows, x.1 ∉ sync.observedObjects →
      ∃ y ∈ g.links.rows, y.2.objectKey = x.1) : sync.Listed g := by
  constructor
  · intro id link hlink _ hunseen
    obtain ⟨row, hrow, -⟩ := loadLink_eq_some.mp hlink
    exact hlinks _ (Table.mem_rows.mpr hrow) hunseen
  · rintro key ⟨row, hrow, -⟩ _ hunseen
    obtain ⟨⟨id, link⟩, hmem, hkey⟩ := hobjects _ (Table.mem_rows.mpr hrow) hunseen
    exact ⟨id, _, loadLink_eq_some.mpr ⟨link, Table.mem_rows.mp hmem, rfl⟩, hkey⟩

/-- A file lies in a directory with another one beside it; then it is moved out of
the directory and the other one is gone. -/
def twoFiles : FolderSync := folderOf [folderEntry 2 "d" [fileEntry 3 "a"], fileEntry 4 "b"]

def movedFile : FolderSync := folderOf [folderEntry 2 "d" [], fileEntry 3 "a"]

def twoScanned : FilesystemGraph := scannedWith twoFiles .empty

def twoSynced : FilesystemGraph := finishedWith twoFiles twoScanned

def movedScanned : FilesystemGraph := scannedWith movedFile twoSynced

/-- The link at the old place, the link of the other file and that file. -/
def movedRemovals : List GraphMutation :=
  movedFile.removalMutations (desiredCatalogIdentities movedScanned sampleVolume)

def movedRemoved : FilesystemGraph :=
  (movedFile.applyScopedBatch movedScanned movedRemovals).toOption.getD .empty

def movedSynced : FilesystemGraph := finishedWith movedFile movedRemoved

theorem twoFiles_run : SyncRun FolderSync.Fits SyncState.Ready ⟨twoSynced, .complete twoFiles⟩ := by
  have hfits : twoFiles.Fits .empty :=
    ⟨by decide +kernel, (fun _ _ _ hlink => by cases hlink), by decide +kernel⟩
  have hbatch : twoFiles.applyScopedBatch .empty twoFiles.scanMutations = .ok twoScanned := by
    decide +kernel
  have hlast : twoFiles.applyFolderGraphBatch twoScanned twoFiles.finalBatch = .ok twoSynced := by
    decide +kernel
  have hlisted : twoFiles.Listed twoScanned := listed_of_rows (by decide +kernel) (by decide +kernel)
  have hgen : HasGeneration .empty twoFiles ∧ HasGeneration twoScanned twoFiles := by
    unfold HasGeneration
    decide +kernel
  have hnothing : flushes twoFiles.scanBatchSize [] (twoFiles.removalMutations
      (desiredCatalogIdentities twoScanned twoFiles.volumeId)) = [] := by decide +kernel
  have hscanned : SyncRun FolderSync.Fits SyncState.Ready _ :=
    scanned_run .refl rfl hfits (by decide +kernel) hgen.1 hbatch hlisted
  rw [hnothing] at hscanned
  exact finished_run hscanned hgen.2 hlast

/-- The second sync removes what it does not find any more. -/
theorem movedFile_converged : movedRemovals.length = 3 ∧ movedFile.Converged movedSynced := by
  have hfits : movedFile.Fits twoSynced := by
    refine ⟨by decide +kernel, fun e he link hlink => ?_, by decide +kernel⟩
    have hbound : ∀ e ∈ movedFile.entries, ∀ x ∈ twoSynced.links.rows,
        x.1 = e.fileLinkId movedFile.volumeId → x.2.objectKey = e.object.objectKey := by decide +kernel
    obtain ⟨row, hrow, rfl⟩ := loadLink_eq_some.mp hlink
    exact hbound e he _ (Table.mem_rows.mpr hrow) rfl
  have hbatch : movedFile.applyScopedBatch twoSynced movedFile.scanMutations = .ok movedScanned := by
    decide +kernel
  have hremove : movedFile.applyScopedBatch movedScanned movedRemovals = .ok movedRemoved := by
    decide +kernel
  have hlast : movedFile.applyFolderGraphBatch movedRemoved movedFile.finalBatch = .ok movedSynced := by
    decide +kernel
  have hlisted : movedFile.Listed movedScanned := listed_of_rows (by decide +kernel) (by decide +kernel)
  have hgen : HasGeneration twoSynced movedFile ∧ HasGeneration movedScanned movedFile ∧
      HasGeneration movedRemoved movedFile := by
    unfold HasGeneration
    decide +kernel
  have hone : flushes movedFile.scanBatchSize [] (movedFile.removalMutations
      (desiredCatalogIdentities movedScanned movedFile.volumeId)) = [movedRemovals] := by
    decide +kernel
  have hscanned : SyncRun FolderSync.Fits SyncState.Ready _ :=
    scanned_run (twoFiles_run.tail .giveUp) rfl hfits (by decide +kernel) hgen.1 hbatch hlisted
  rw [hone] at hscanned
  have hremoved := hscanned.tail (.step hgen.2.1 (bind_ok.mpr ⟨movedRemoved, hremove, rfl⟩))
  exact ⟨by decide +kernel, (folderSync_converges (finished_run hremoved hgen.2.2 hlast)).2 movedFile rfl⟩

/-- A folder with one file. -/
def oneFile (fileReference : Nat) : FolderSync := folderOf [fileEntry fileReference "a"]

def scannedFolder : FilesystemGraph := scannedWith (oneFile 2) .empty

def syncedFolder : FilesystemGraph := finishedWith (oneFile 2) scannedFolder

/-- The first sync of the folder. -/
theorem oneFile_run : SyncRun (fun _ _ => True) SyncState.HasRoom ⟨syncedFolder, .complete (oneFile 2)⟩ := by
  have hbatch : (oneFile 2).applyScopedBatch .empty (oneFile 2).scanMutations = .ok scannedFolder := by
    decide +kernel
  have hlast : (oneFile 2).applyFolderGraphBatch scannedFolder (oneFile 2).finalBatch =
      .ok syncedFolder := by
    decide +kernel
  have hgen : HasGeneration .empty (oneFile 2) ∧ HasGeneration scannedFolder (oneFile 2) := by
    unfold HasGeneration
    decide +kernel
  have hnothing : flushes (oneFile 2).scanBatchSize [] ((oneFile 2).removalMutations
      (desiredCatalogIdentities scannedFolder (oneFile 2).volumeId)) = [] := by decide +kernel
  have hscanned : SyncRun (fun _ _ => True) SyncState.HasRoom _ :=
    scanned_run .refl rfl trivial (by decide +kernel) hgen.1 hbatch trivial
  rw [hnothing] at hscanned
  exact finished_run hscanned hgen.2 hlast

/-- Another file has taken the name: its identity is still bound to the old one. -/
theorem replaced_rejected :
    ¬ ∀ s, SyncRun (fun _ _ => True) SyncState.HasRoom s → (s.HasRoom → ∃ s', s.step = .ok s') ∧
      ∀ sync, s.stage = .complete sync → sync.Converged s.graph := by
  intro h
  have hagain : HasGeneration syncedFolder (oneFile 3) := by
    unfold HasGeneration
    decide +kernel
  have hidle : SyncRun (fun _ _ => True) SyncState.HasRoom ⟨syncedFolder, .idle⟩ :=
    oneFile_run.tail .giveUp
  have hrun : SyncRun (fun _ _ => True) SyncState.HasRoom
      ⟨syncedFolder, .scanning (oneFile 3) [(oneFile 3).scanMutations]⟩ :=
    hidle.tail (.start (fun h => by cases h) trivial)
  obtain ⟨s', hstep⟩ := (h _ hrun).1 hagain
  obtain ⟨g', hbatch, -⟩ := bind_ok.mp hstep
  have hrejected : (oneFile 3).applyScopedBatch syncedFolder (oneFile 3).scanMutations =
      .error reboundError := by
    decide +kernel
  rw [hrejected] at hbatch
  cases hbatch

end Example

end LocalSearch.Content
