import LocalSearch.Graph.ObservationScan
import LocalSearch.Graph.OutboxTail

/-!
# What a write of one volume leaves of the others

Every statement of a transaction on a volume names rows of that volume, save
one: the identity of an observed link is looked up among the links of all
volumes, and while the volume is scanned a stale row found there is dropped.
-/
namespace LocalSearch.Graph

set_option autoImplicit false

open Core Lib

/-- The rows of all volumes but `v` are the same. -/
structure Outside (v : VolumeId) (g g' : FilesystemGraph) : Prop where
  volume : ∀ u ≠ v, g'.volumes.get u = g.volumes.get u
  checkpoint : ∀ u ≠ v, g'.checkpoints.get u = g.checkpoints.get u
  session : ∀ u ≠ v, g'.sessions.get u = g.sessions.get u
  volumeJob : ∀ u ≠ v, g'.volumeJobs.get u = g.volumeJobs.get u
  object : ∀ key : FileKey, key.volumeId ≠ v → g'.objects.get key = g.objects.get key
  link : ∀ id (row : LinkRow), row.objectKey.volumeId ≠ v →
    (g'.links.get id = some row ↔ g.links.get id = some row)
  document : ∀ d (row : CatalogRow), row.objectKey.volumeId ≠ v →
    (g'.catalog.get d = some row ↔ g.catalog.get d = some row)
  pathJob : ∀ id (job : PathJobRow), job.rootObject.volumeId ≠ v →
    (g'.pathJobs.get id = some job ↔ g.pathJobs.get id = some job)

/-- The link identity belongs to another volume. -/
def Foreign (g : FilesystemGraph) (v : VolumeId) (id : FileLinkId) : Prop :=
  ∃ row, g.links.get id = some row ∧ row.objectKey.volumeId ≠ v

/-- The outbox row is about no document of another volume. -/
def Concerns (g : FilesystemGraph) (v : VolumeId) (row : OutboxRow) : Prop :=
  (∀ document, row.mutation = .upsert document → document.identity.objectKey.volumeId = v) ∧
    ∀ stored, g.catalog.get row.documentId = some stored → stored.objectKey.volumeId = v

/-- A write of `v` leaves every other volume alone and appends nothing for it. -/
structure Isolated (v : VolumeId) (g g' : FilesystemGraph) : Prop where
  outside : Outside v g g'
  appended : ∀ n row, g'.outbox.get n = some row → highWater g < n → Concerns g v row

namespace Outside

variable {v : VolumeId} {g g' g'' : FilesystemGraph}

theorem refl (v : VolumeId) (g : FilesystemGraph) : Outside v g g :=
  ⟨fun _ _ => rfl, fun _ _ => rfl, fun _ _ => rfl, fun _ _ => rfl, fun _ _ => rfl,
    fun _ _ _ => Iff.rfl, fun _ _ _ => Iff.rfl, fun _ _ _ => Iff.rfl⟩

theorem trans (h : Outside v g g') (h' : Outside v g' g'') : Outside v g g'' where
  volume u hu := (h'.volume u hu).trans (h.volume u hu)
  checkpoint u hu := (h'.checkpoint u hu).trans (h.checkpoint u hu)
  session u hu := (h'.session u hu).trans (h.session u hu)
  volumeJob u hu := (h'.volumeJob u hu).trans (h.volumeJob u hu)
  object key hkey := (h'.object key hkey).trans (h.object key hkey)
  link id row hrow := (h'.link id row hrow).trans (h.link id row hrow)
  document d row hrow := (h'.document d row hrow).trans (h.document d row hrow)
  pathJob id job hjob := (h'.pathJob id job hjob).trans (h.pathJob id job hjob)

theorem foreign (h : Outside v g g') (id : FileLinkId) : Foreign g' v id ↔ Foreign g v id := by
  constructor
  · rintro ⟨row, hrow, hne⟩
    exact ⟨row, (h.link id row hne).1 hrow, hne⟩
  · rintro ⟨row, hrow, hne⟩
    exact ⟨row, (h.link id row hne).2 hrow, hne⟩

theorem volumes_insert (g : FilesystemGraph) (v : VolumeId) (row : VolumeRow) :
    Outside v g { g with volumes := g.volumes.insert v row } :=
  { refl v g with volume := fun _ hu => Table.get_insert_ne _ _ hu }

theorem volumes_modify (g : FilesystemGraph) (v : VolumeId) (f : VolumeRow → VolumeRow) :
    Outside v g { g with volumes := g.volumes.modify v f } :=
  { refl v g with volume := fun _ hu => (Table.get_modify _ _ _ _).trans (if_neg hu) }

theorem volumeJobs_insert (g : FilesystemGraph) (v : VolumeId) (job : VolumeJobRow) :
    Outside v g { g with volumeJobs := g.volumeJobs.insert v job } :=
  { refl v g with volumeJob := fun _ hu => Table.get_insert_ne _ _ hu }

theorem checkpoints_insert (g : FilesystemGraph) (v : VolumeId) (row : CheckpointRow) :
    Outside v g (putCheckpoint g v row) :=
  { refl v g with checkpoint := fun _ hu => Table.get_insert_ne _ _ hu }

theorem sessions_insert (g : FilesystemGraph) (v : VolumeId) (row : SessionRow) :
    Outside v g { g with sessions := g.sessions.insert v row } :=
  { refl v g with session := fun _ hu => Table.get_insert_ne _ _ hu }

theorem sessions_erase (g : FilesystemGraph) (v : VolumeId) :
    Outside v g { g with sessions := g.sessions.erase v } :=
  { refl v g with session := fun _ hu => (Table.get_erase _ _ _).trans (if_neg hu) }

theorem objects_insert (g : FilesystemGraph) {key : FileKey} (hkey : key.volumeId = v)
    (row : ObjectRow) : Outside v g { g with objects := g.objects.insert key row } :=
  { refl v g with
    object := fun _ hother =>
      Table.get_insert_ne _ _ fun heq => hother ((congrArg FileKey.volumeId heq).trans hkey) }

theorem setTombstoned (g : FilesystemGraph) {key : FileKey} (hkey : key.volumeId = v) (b : Bool) :
    Outside v g (Graph.setTombstoned g key b) :=
  { refl v g with
    object := fun other hother => (setTombstoned_get g key other b).trans
      (if_neg fun heq => hother ((congrArg FileKey.volumeId heq).trans hkey)) }

/-- A path job of the volume under a new identity. -/
theorem enqueueRefresh (g : FilesystemGraph) {key : FileKey} (hkey : key.volumeId = v) (gen : Nat) :
    Outside v g (Graph.enqueueRefresh g key gen).1 := by
  unfold Graph.enqueueRefresh
  split
  · exact refl v g
  · refine { refl v g with pathJob := fun id job hjob => ?_ }
    show (g.pathJobs.insert (nextJobId g) ⟨key, gen, none, .pending⟩).get id = some job ↔ _
    rw [Table.get_insert]
    split_ifs with hid
    · subst hid
      constructor
      · intro heq
        cases heq
        exact absurd hkey hjob
      · intro hget
        have hle := Table.le_lastKey hget
        unfold nextJobId at hle
        obtain ⟨last, hlast, hbound⟩ := hle
        rw [hlast] at hbound
        exact absurd hbound (by simp)
    · exact Iff.rfl

/-- A link of the volume is gone. -/
theorem links_erase (g : FilesystemGraph) {id : FileLinkId} (hid : ¬ Foreign g v id) :
    Outside v g { g with links := g.links.erase id } := by
  refine { refl v g with link := fun other row hrow => ?_ }
  show (g.links.erase id).get other = some row ↔ _
  rw [Table.get_erase]
  split_ifs with heq
  · subst heq
    constructor
    · intro h
      cases h
    · exact fun h => absurd ⟨row, h, hrow⟩ hid
  · exact Iff.rfl

theorem dropLink (g : FilesystemGraph) {id : FileLinkId} {key : FileKey} (hid : ¬ Foreign g v id)
    (hkey : key.volumeId = v) : Outside v g (Graph.dropLink g id key) := by
  have herase := links_erase g hid
  rcases dropLink_cases g id key with ⟨heq, -⟩ | ⟨heq, -⟩
  · rw [heq]
    exact herase
  · rw [heq]
    exact herase.trans (setTombstoned _ hkey true)

theorem putLink (g : FilesystemGraph) (link : FileLinkSnapshot) (boundary : Bool) (gen : Nat)
    (hlink : link.objectKey.volumeId = v) (hid : ¬ Foreign g v link.fileLinkId) :
    Outside v g (Graph.putLink g link boundary gen) := by
  let placed : LinkRow := ⟨link.objectKey, link.parentKey, link.name, boundary, gen⟩
  have hput : Outside v g { g with links := g.links.insert link.fileLinkId placed } := by
    refine { refl v g with link := fun other row hrow => ?_ }
    show (g.links.insert link.fileLinkId placed).get other = some row ↔ _
    rw [Table.get_insert]
    split_ifs with heq
    · subst heq
      constructor
      · intro h
        cases h
        exact absurd hlink hrow
      · exact fun h => absurd ⟨row, h, hrow⟩ hid
    · exact Iff.rfl
  exact hput.trans (setTombstoned _ hlink false)

theorem removeLinkInternal {id : FileLinkId} {expected : FileKey} {gen n : Nat} {refresh : Bool}
    (hexpected : expected.volumeId = v)
    (h : Graph.removeLinkInternal g id expected gen refresh = .ok (g', n)) : Outside v g g' := by
  rcases removeLinkInternal_ok h with ⟨-, rfl⟩ | ⟨row, object, hrow, hkey, -, rfl⟩
  · exact refl v g'
  · have hid : ¬ Foreign g v id := by
      rintro ⟨other, hother, hne⟩
      obtain rfl := Option.some.inj (hrow.symm.trans hother)
      exact hne (hkey ▸ hexpected)
    have hdrop := dropLink g hid hexpected
    split_ifs
    · exact hdrop.trans (enqueueRefresh _ hexpected gen)
    · exact hdrop

theorem removeStaleLinks {stale : List (FileLinkId × FileKey)} {gen : Nat}
    (hstale : ∀ x ∈ stale, x.2.volumeId = v)
    (h : Graph.removeStaleLinks g gen stale = .ok g') : Outside v g g' := by
  induction stale generalizing g with
  | nil =>
    obtain rfl := Except.ok.inj h
    exact refl v g
  | cons x rest ih =>
    obtain ⟨⟨g₁, n⟩, h₁, hrest⟩ := bind_ok.mp h
    exact (removeLinkInternal (hstale x List.mem_cons_self) h₁).trans
      (ih (fun y hy => hstale y (List.mem_cons_of_mem _ hy)) hrest)

end Outside

section Mutations

variable {v : VolumeId} {g g' : FilesystemGraph} {gen n : Nat}
  {L : CatalogDocument → CatalogRow → Prop}

theorem not_foreign_of_get {id : FileLinkId} {row : LinkRow} (hrow : g.links.get id = some row)
    (hv : row.objectKey.volumeId = v) : ¬ Foreign g v id := by
  rintro ⟨other, hother, hne⟩
  obtain rfl := Option.some.inj (hrow.symm.trans hother)
  exact hne hv

/-- The rows an observation drops are of the volume, unless its own identity is not. -/
theorem staleConflict_volume (hwf : NamespaceWF g) {link : FileLinkSnapshot}
    (hlink : link.objectKey.volumeId = v) (hparent : ∀ p ∈ link.parentKey, p.volumeId = v)
    (hid : ¬ Foreign g v link.fileLinkId) {x : FileLinkId × FileKey}
    (hx : x ∈ staleObservationLinkConflicts g link) : x.2.volumeId = v := by
  unfold staleObservationLinkConflicts at hx
  cases hcut : scanCutoff g link.objectKey.volumeId with
  | none =>
    rw [hcut] at hx
    cases hx
  | some cutoff =>
    rw [hcut] at hx
    rcases List.mem_append.1 hx with hx | hx
    · unfold staleIdentityConflict at hx
      cases hrow : g.links.get link.fileLinkId with
      | none =>
        rw [hrow] at hx
        cases hx
      | some row =>
        simp only [hrow] at hx
        split_ifs at hx
        · obtain rfl := List.mem_singleton.1 hx
          by_contra hne
          exact hid ⟨row, hrow, hne⟩
        · cases hx
    · obtain ⟨⟨id, row⟩, hmem, rfl⟩ := List.mem_map.1 hx
      obtain ⟨hrow, hc⟩ := Table.mem_select.1 (List.mem_of_mem_take hmem)
      simp only [Bool.and_eq_true, decide_eq_true_eq] at hc
      -- the slot names a parent of the volume, or the volume itself
      have hslot := hc.1.2
      simp only [sameSlot, Bool.and_eq_true, Bool.or_eq_true, beq_iff_eq] at hslot
      obtain ⟨⟨-, hsame⟩, hroot⟩ := hslot
      show row.objectKey.volumeId = v
      cases hp : link.parentKey with
      | none =>
        rw [hp] at hroot
        rcases hroot with hroot | hroot
        · cases hroot
        · exact hroot.trans hlink
      | some parent =>
        have hrowParent := hwf.linkParent id row hrow parent (hsame.trans hp)
        exact hrowParent.symm.trans (hparent parent hp)

theorem upsertLink_outside (hwf : NamespaceWF g) {link : FileLinkSnapshot} {boundary : Bool}
    (hlink : link.objectKey.volumeId = v) (hparent : ∀ p ∈ link.parentKey, p.volumeId = v)
    (hid : ¬ Foreign g v link.fileLinkId) (h : upsertLink g link boundary gen = .ok (g', n)) :
    Outside v g g' := by
  obtain ⟨-, g₁, g₂, h₁, h₂, -, rfl⟩ := upsertLink_ok h
  have hstale : Outside v g g₁ :=
    .removeStaleLinks (fun x hx => staleConflict_volume hwf hlink hparent hid hx) h₁
  have hmoved : Outside v g₁ g₂ := by
    rcases (refreshMovedDirectory_ok h₂).2 with rfl | ⟨rfl, -⟩
    · exact .refl v g₂
    · exact .enqueueRefresh g₁ hlink gen
  have hboth := hstale.trans hmoved
  exact hboth.trans (.putLink g₂ link boundary gen hlink (mt (hboth.foreign _).1 hid))

/-- The link identity a mutation names and the volume it uses it with. -/
def GraphMutation.linkUse : GraphMutation → Option (FileLinkId × VolumeId)
  | .upsertLink link _ => some (link.fileLinkId, link.objectKey.volumeId)
  | .removeLink fileLinkId object => some (fileLinkId, object.volumeId)
  | _ => none

/-- The links a mutation puts up for a sync: those that await one already, links
of the volume and the link it names. -/
theorem affectedLinks_cases (hL : Layout L) {A : Set FileLinkId} (hnames : NamespaceWF g)
    (hcat : CatalogRows L g A) {m : GraphMutation} (hm : m.InVolume v)
    (hid : ∀ link boundary, m = .upsertLink link boundary → ¬ Foreign g v link.fileLinkId)
    {id : FileLinkId} (h : id ∈ affectedLinks g m) :
    id ∈ A ∨ (∃ row, g.links.get id = some row ∧ row.objectKey.volumeId = v) ∨
      ∃ use ∈ m.linkUse, use.1 = id := by
  have hlinked : ∀ key : FileKey, key.volumeId = v → ∀ link ∈ linksOf g key,
      ∃ row, g.links.get link.fileLinkId = some row ∧ row.objectKey.volumeId = v := by
    intro key hkey link hlink
    obtain ⟨hload, hobject⟩ := mem_linksOf.1 hlink
    obtain ⟨row, hrow, hstored⟩ := loadLink_eq_some.1 hload
    refine ⟨row, hrow, ?_⟩
    rw [← hkey, ← hobject, ← hstored]
    rfl
  cases m with
  | upsertVolume | setVolumeState | requireReconciliation => cases h
  | upsertObject object =>
    obtain ⟨link, hlink, rfl⟩ := List.mem_map.1 h
    exact .inr (.inl (hlinked _ hm link hlink))
  | upsertLink link boundary =>
    rcases List.mem_cons.1 h with rfl | hstale
    · exact .inr (.inr ⟨_, rfl, rfl⟩)
    · obtain ⟨x, hx, rfl⟩ := List.mem_map.1 hstale
      obtain ⟨-, row, -, hrow, hkey, -⟩ := staleConflict_row hx
      have hvolume := staleConflict_volume hnames hm.1 hm.2 (hid link boundary rfl) hx
      exact .inr (.inl ⟨row, hrow, hkey ▸ hvolume⟩)
  | removeLink other object =>
    obtain rfl := List.mem_singleton.1 h
    exact .inr (.inr ⟨_, rfl, rfl⟩)
  | tombstoneObject object =>
    rcases List.mem_append.1 h with h | h
    · obtain ⟨link, hlink, rfl⟩ := List.mem_map.1 h
      exact .inr (.inl (hlinked _ hm link hlink))
    · -- a document of the object, whose link is its own or awaits a sync
      obtain ⟨⟨d, row⟩, hrow, rfl⟩ := List.mem_map.1 h
      obtain ⟨hget, hkey⟩ := Table.mem_select.1 hrow
      by_cases hdirty : row.fileLinkId ∈ A
      · exact .inl hdirty
      · obtain ⟨document, hrow, hlink, -⟩ := hcat.stored d row hget
        have hd : documentIdForLink row.fileLinkId = d := by
          rw [(hL.identity document row hrow).2, hlink, documentIdForLink_linkOfDocument]
        obtain ⟨link, hlinkRow, hsame⟩ := hcat.link _ _ hdirty (hd.symm ▸ hget)
        refine .inr (.inl ⟨link, hlinkRow, ?_⟩)
        rw [hsame, beq_iff_eq.1 hkey]
        exact hm

/-- One mutation of the volume, its identity not foreign, leaves the others. -/
theorem applyMutation_outside (hnames : NamespaceWF g) {m : GraphMutation} (hm : m.InVolume v)
    (hid : ∀ link boundary, m = .upsertLink link boundary → ¬ Foreign g v link.fileLinkId)
    (h : applyMutation g m gen = .ok (g', n)) : Outside v g g' := by
  cases m with
  | upsertVolume descriptor =>
    obtain ⟨rfl, rfl⟩ := Prod.mk.inj (Except.ok.inj h)
    obtain rfl : descriptor.volumeId = v := hm
    exact .volumes_insert g _ _
  | setVolumeState volumeId state =>
    obtain rfl : volumeId = v := hm
    simp only [applyMutation, setVolumeState] at h
    cases hrow : g.volumes.get volumeId with
    | none =>
      rw [hrow] at h
      cases h
    | some row =>
      rw [hrow] at h
      obtain ⟨rfl, rfl⟩ := Prod.mk.inj (Except.ok.inj h)
      exact (Outside.volumes_insert g _ _).trans (.volumeJobs_insert _ _ _)
  | requireReconciliation volumeId reason =>
    obtain rfl : volumeId = v := hm
    simp only [applyMutation, requireReconciliation] at h
    cases hrow : g.volumes.get volumeId with
    | none =>
      rw [hrow] at h
      cases h
    | some row =>
      rw [hrow] at h
      obtain ⟨rfl, rfl⟩ := Prod.mk.inj (Except.ok.inj h)
      exact (Outside.volumes_insert g _ _).trans (.volumeJobs_insert _ _ _)
  | upsertObject object =>
    obtain ⟨g₁, h₁, heq⟩ := bind_ok.mp h
    obtain ⟨rfl, rfl⟩ := Prod.mk.inj (Except.ok.inj heq)
    simp only [upsertObject, guard_ok] at h₁
    obtain rfl := Except.ok.inj h₁.2.2
    exact .objects_insert g hm _
  | upsertLink link boundary => exact upsertLink_outside hnames hm.1 hm.2 (hid link boundary rfl) h
  | removeLink id object => exact .removeLinkInternal hm h
  | tombstoneObject object =>
    obtain ⟨g₁, h₁, heq⟩ := bind_ok.mp h
    obtain ⟨rfl, rfl⟩ := Prod.mk.inj (Except.ok.inj heq)
    obtain ⟨-, -, rfl⟩ := tombstoneObject_ok h₁
    exact .setTombstoned g hm true

/-- No foreign link awaits a sync on account of an accepted mutation. -/
theorem affectedLinks_not_foreign (hL : Layout L) {A : Set FileLinkId} (hnames : NamespaceWF g)
    (hcat : CatalogRows L g A) (hA : ∀ id ∈ A, ¬ Foreign g v id) {m : GraphMutation}
    (hm : m.InVolume v)
    (hid : ∀ link boundary, m = .upsertLink link boundary → ¬ Foreign g v link.fileLinkId)
    (h : applyMutation g m gen = .ok (g', n)) : ∀ id ∈ affectedLinks g m, ¬ Foreign g v id := by
  intro id hmem
  rcases affectedLinks_cases hL hnames hcat hm hid hmem with hdirty | ⟨row, hrow, hv⟩ | ⟨use, huse, rfl⟩
  · exact hA id hdirty
  · exact not_foreign_of_get hrow hv
  cases m with
  | upsertVolume | setVolumeState | requireReconciliation | upsertObject | tombstoneObject => cases huse
  | upsertLink link boundary =>
    cases huse
    exact hid link boundary rfl
  | removeLink other object =>
    cases huse
    rintro ⟨row, hrow, hne⟩
    rcases removeLinkInternal_ok h with ⟨hnone, -⟩ | ⟨found, -, hfound, hkey, -⟩
    · cases hnone.symm.trans hrow
    · obtain rfl := Option.some.inj (hrow.symm.trans hfound)
      exact hne (hkey ▸ hm)

end Mutations

section Batches

variable [CaseMapping] {v : VolumeId} {g₀ g g' : FilesystemGraph} {gen n : Nat}
  {mode : ProjectionOutboxMode} {L : CatalogDocument → CatalogRow → Prop}

theorem applyMutations_outside (hL : Layout L) {affected affected' : LinkSet}
    (hnames : NamespaceWF g) (hcat : CatalogRows L g affected.members) (hA : ∀ id ∈ affected.members, ¬ Foreign g v id)
    (hle : currentGeneration g v ≤ gen) {ms : List GraphMutation} (hms : ∀ m ∈ ms, m.InVolume v)
    (hid : ∀ link boundary, .upsertLink link boundary ∈ ms → ¬ Foreign g v link.fileLinkId)
    (h : applyMutations gen g affected ms = .ok (g', affected', n)) :
    Outside v g g' ∧ ∀ id ∈ affected'.members, ¬ Foreign g v id := by
  induction ms generalizing g affected n with
  | nil =>
    obtain ⟨rfl, rfl, -⟩ := Prod.mk.inj (Except.ok.inj h) |>.imp id Prod.mk.inj
    exact ⟨.refl v g, hA⟩
  | cons m ms ih =>
    simp only [applyMutations, bind_ok] at h
    obtain ⟨⟨g₁, n₁⟩, h₁, ⟨g₂, affected₂, n₂⟩, h₂, heq⟩ := h
    obtain ⟨rfl, rfl, -⟩ := Prod.mk.inj (Except.ok.inj heq) |>.imp id Prod.mk.inj
    have hm := hms m List.mem_cons_self
    have hnamed : ∀ link boundary, m = .upsertLink link boundary → ¬ Foreign g v link.fileLinkId :=
      fun link boundary heq => hid link boundary (heq ▸ List.mem_cons_self)
    have hout := applyMutation_outside hnames hm hnamed h₁
    have haffected := affectedLinks_not_foreign hL hnames hcat hA hm hnamed h₁
    have hmembers : (collectAffectedLinks g m affected).members =
        affected.members ∪ {id | id ∈ affectedLinks g m} := by
      ext id
      exact LinkSet.get_addAll affected (affectedLinks g m) id
    have hchanges : Changes True v gen .durable (g, affected.members)
        (g₁, (collectAffectedLinks g m affected).members) := by
      rw [hmembers]
      exact applyMutation_changes hm (.inl trivial) hle h₁
    have hnames₁ := hchanges.names hnames
    have hcat₁ := hchanges.catalogRows hL hcat
    have hle₁ := Changes.induct (P := fun s => currentGeneration s.1 v ≤ gen)
      (fun _ _ => currentGeneration_le_of_change) hchanges hle
    have hA₁ : ∀ id ∈ (collectAffectedLinks g m affected).members, ¬ Foreign g₁ v id := by
      intro id hmem
      rw [hout.foreign id]
      rw [hmembers] at hmem
      exact hmem.elim (hA id) (haffected id)
    obtain ⟨hrest, hlast⟩ := ih hnames₁ hcat₁ hA₁ hle₁
      (fun x hx => hms x (List.mem_cons_of_mem _ hx))
      (fun link boundary hmem => mt (hout.foreign _).1 (hid link boundary (List.mem_cons_of_mem _ hmem)))
      h₂
    exact ⟨hout.trans hrest, fun id hmem => mt (hout.foreign id).2 (hlast id hmem)⟩

omit [CaseMapping] in
theorem Isolated.refl (hwf : OutboxWF g) (v : VolumeId) : Isolated v g g :=
  ⟨.refl v g, fun n row hrow hlt => absurd (hwf.rows n row hrow) (not_le.2 hlt)⟩

omit [CaseMapping] in
/-- Further changes that leave the outbox alone. -/
theorem Isolated.outside_trans (h : Isolated v g₀ g) (hout : Outside v g g')
    (hsame : g'.outbox = g.outbox) : Isolated v g₀ g' :=
  ⟨h.outside.trans hout, hsame ▸ h.appended⟩

omit [CaseMapping] in
/-- A document under an identity of the volume is the volume's. -/
theorem Outside.document_volume (h : Outside v g₀ g) (hcat : CatalogRows L g₀ ∅) {id : FileLinkId}
    (hid : ¬ Foreign g₀ v id) {row : CatalogRow}
    (hrow : g.catalog.get (documentIdForLink id) = some row) : row.objectKey.volumeId = v := by
  by_contra hne
  have hold := (h.document _ row hne).1 hrow
  obtain ⟨link, hlink, hsame⟩ := hcat.link id row (Set.notMem_empty _) hold
  exact hid ⟨link, hlink, hsame ▸ hne⟩

/-- The document of an identity of the volume is synced. -/
theorem Outside.sync (h : Outside v g₀ g) (hcat : CatalogRows L g₀ ∅) {id : FileLinkId}
    (hid : ¬ Foreign g₀ v id) (hsync : syncCatalogProjection g id gen mode = .ok (g', n)) :
    Outside v g₀ g' := by
  have hlink : ∀ link, loadLink g id = some link → link.objectKey.volumeId = v := by
    intro link hload
    obtain ⟨row, hrow, rfl⟩ := loadLink_eq_some.1 hload
    by_contra hne
    exact hid ((h.foreign id).1 ⟨row, hrow, hne⟩)
  have hown : ∀ row, g'.catalog.get (documentIdForLink id) = some row →
      row.objectKey.volumeId = v := by
    intro row hrow
    rcases syncCatalogProjection_ok hsync with ⟨-, hdelete⟩ | ⟨_, _, -, -, -, rfl⟩ |
      ⟨link, document, hload, hbuild, -, hput⟩
    · obtain rfl : _ = g' := congrArg Prod.fst hdelete
      rw [deleteCatalogProjection_catalog, Table.get_erase, if_pos rfl] at hrow
      cases hrow
    · exact h.document_volume hcat hid hrow
    · obtain rfl : _ = g' := congrArg Prod.fst hput
      rw [putCatalogDocument_catalog, (buildCatalogDocument_own hload hbuild).1,
        Table.get_insert_self] at hrow
      cases hrow
      show document.identity.objectKey.volumeId = v
      rw [buildCatalogDocument_identity hbuild]
      exact hlink link hload
  refine h.trans ?_
  rw [syncCatalogProjection_frame hsync]
  refine { Outside.refl v g with document := fun d row hne => ?_ }
  show g'.catalog.get d = some row ↔ _
  by_cases hd : d = documentIdForLink id
  · subst hd
    constructor
    · exact fun hrow => absurd (hown row hrow) hne
    · exact fun hrow => absurd (h.document_volume hcat hid hrow) hne
  · rw [syncCatalogProjection_get_ne hsync hd]

theorem Isolated.sync (h : Isolated v g₀ g) (hcat : CatalogRows L g₀ ∅) {id : FileLinkId}
    (hid : ¬ Foreign g₀ v id) (hsync : syncCatalogProjection g id gen mode = .ok (g', n)) :
    Isolated v g₀ g' := by
  refine ⟨h.outside.sync hcat hid hsync, fun k row hrow hlt => ?_⟩
  rcases syncCatalogProjection_appends hsync with
    ⟨hsame, -⟩ | ⟨mutation, hnew, -, -, -, hupsert⟩
  · exact h.appended k row (hsame ▸ hrow) hlt
  · rw [hnew, Table.get_insert] at hrow
    split_ifs at hrow with hk
    · cases hrow
      refine ⟨fun document heq => ?_, fun stored hstored => ?_⟩
      · obtain ⟨link, hload, hkey⟩ := hupsert document heq
        obtain ⟨lrow, hlrow, rfl⟩ := loadLink_eq_some.1 hload
        rw [hkey]
        by_contra hne
        exact hid ((h.outside.foreign id).1 ⟨lrow, hlrow, hne⟩)
      · exact (Outside.refl v g₀).document_volume hcat hid hstored
    · exact h.appended k row hrow hlt

theorem Isolated.syncLinks (h : Isolated v g₀ g) (hcat : CatalogRows L g₀ ∅) {ids : List FileLinkId}
    (hids : ∀ id ∈ ids, ¬ Foreign g₀ v id) (hsync : Graph.syncLinks g gen mode ids = .ok (g', n)) :
    Isolated v g₀ g' := by
  exact syncLinks_induct (P := Isolated v g₀)
    (fun id hid _ _ _ h hstep => h.sync hcat (hids id hid) hstep) hsync h

omit [CaseMapping] in
theorem applyMutations_outbox {affected affected' : LinkSet} {ms : List GraphMutation}
    (h : applyMutations gen g affected ms = .ok (g', affected', n)) :
    g'.outbox = g.outbox ∧ g'.sqliteSequence = g.sqliteSequence ∧ g'.consumers = g.consumers := by
  rw [applyMutations_frame h]
  exact ⟨rfl, rfl, rfl⟩

/-- A batch none of whose links is another volume's. -/
theorem applyBatchWithOutboxMode_isolated (hL : Layout L) (hnames : NamespaceWF g)
    (hcat : CatalogRows L g ∅) (hout : OutboxWF g) {batch : GraphMutationBatch} {summary : ApplySummary}
    (hid : ∀ link boundary, .upsertLink link boundary ∈ batch.mutations →
      ¬ Foreign g batch.volumeId link.fileLinkId)
    (h : applyBatchWithOutboxMode g batch mode = .ok (g', summary)) :
    Isolated batch.volumeId g g' := by
  obtain ⟨-, hms, -, -, g₁, g₂, affected, jobs, appended, h₁, h₂, -, rfl⟩ :=
    applyBatchWithOutboxMode_ok h
  have hnone : ∀ id ∈ LinkSet.members .empty, ¬ Foreign g batch.volumeId id := by
    intro id hmem
    rw [LinkSet.members_empty] at hmem
    cases hmem
  obtain ⟨hmutations, haffected⟩ := applyMutations_outside hL hnames (LinkSet.members_empty ▸ hcat) hnone
    (Nat.le_succ _) hms hid h₁
  have hstart : Isolated batch.volumeId g g₁ :=
    (Isolated.refl hout batch.volumeId).outside_trans hmutations (applyMutations_outbox h₁).1
  have hsynced := hstart.syncLinks hcat (fun id hmem => haffected id (LinkSet.mem_members.mpr hmem)) h₂
  exact hsynced.outside_trans ((Outside.volumes_modify g₂ _ _).trans (.checkpoints_insert _ _ _)) rfl

omit [CaseMapping] in
/-- A link found after a mutation was there before or is the one it observes. -/
theorem applyMutation_links_get {m : GraphMutation} (h : applyMutation g m gen = .ok (g', n))
    {id : FileLinkId} {row : LinkRow} (hrow : g'.links.get id = some row) :
    g.links.get id = some row ∨ ∃ link boundary, m = .upsertLink link boundary ∧
      link.fileLinkId = id ∧ row.objectKey = link.objectKey := by
  cases m with
  | upsertLink link boundary =>
    obtain ⟨-, g₁, g₂, h₁, h₂, -, rfl⟩ := upsertLink_ok h
    have hlinks : g₂.links = g₁.links := by
      rcases (refreshMovedDirectory_ok h₂).2 with rfl | ⟨rfl, -⟩
      · rfl
      · rw [enqueueRefresh_frame]
    rw [putLink_links, Table.get_insert] at hrow
    split_ifs at hrow with heq
    · cases hrow
      exact .inr ⟨link, boundary, rfl, heq.symm, rfl⟩
    · exact .inl (removeStaleLinks_get h₁ (hlinks ▸ hrow))
  | removeLink other key =>
    rw [removeLinkInternal_get h] at hrow
    split_ifs at hrow
    exact .inl hrow
  | upsertVolume | setVolumeState | requireReconciliation | upsertObject | tombstoneObject =>
    have hsame := applyMutation_rows (fun hlinks => by cases hlinks) h
    rw [hsame] at hrow
    exact .inl hrow

omit [CaseMapping] in
theorem applyMutations_links_get {affected affected' : LinkSet} {ms : List GraphMutation}
    (h : applyMutations gen g affected ms = .ok (g', affected', n)) {other : FileLinkId}
    {row : LinkRow} (hrow : g'.links.get other = some row) :
    g.links.get other = some row ∨ ∃ link boundary, .upsertLink link boundary ∈ ms ∧
      link.fileLinkId = other ∧ row.objectKey = link.objectKey := by
  refine applyMutations_induct (P := fun h _ => ∀ row, h.links.get other = some row →
    g.links.get other = some row ∨ ∃ link boundary, .upsertLink link boundary ∈ ms ∧
      link.fileLinkId = other ∧ row.objectKey = link.objectKey) ?_ h (fun _ => .inl) row hrow
  intro m hm g₁ affected₁ g₂ n₁ hbefore hstep row hrow
  rcases applyMutation_links_get hstep hrow with hold | ⟨link, boundary, rfl, hput⟩
  · exact hbefore row hold
  · exact .inr ⟨link, boundary, hm, hput⟩

omit [CaseMapping] in
/-- An observed identity is the volume's from then on. -/
theorem applyMutations_upserted {affected affected' : LinkSet} {ms : List GraphMutation}
    (hms : ∀ m ∈ ms, m.InVolume v) (h : applyMutations gen g affected ms = .ok (g', affected', n))
    {link : FileLinkSnapshot} {boundary : Bool} (hlink : .upsertLink link boundary ∈ ms)
    {row : LinkRow} (hrow : g'.links.get link.fileLinkId = some row) :
    row.objectKey.volumeId = v := by
  induction ms generalizing g affected n with
  | nil => cases hlink
  | cons m ms ih =>
    simp only [applyMutations, bind_ok] at h
    obtain ⟨⟨g₁, n₁⟩, h₁, ⟨g₂, affected₂, n₂⟩, h₂, heq⟩ := h
    obtain ⟨rfl, rfl, -⟩ := Prod.mk.inj (Except.ok.inj heq) |>.imp id Prod.mk.inj
    have hrest := fun x hx => hms x (List.mem_cons_of_mem _ hx)
    rcases List.mem_cons.1 hlink with rfl | hlater
    · rcases applyMutations_links_get h₂ hrow with hput | ⟨other, b, hmem, -, hkey⟩
      · obtain ⟨-, g₃, g₄, -, -, -, rfl⟩ := upsertLink_ok h₁
        rw [putLink_links, Table.get_insert_self] at hput
        cases hput
        exact (hms _ List.mem_cons_self).1
      · rw [hkey]
        exact (hrest _ hmem).1
    · exact ih hrest h₂ hlater

/-- The volume and the mutations a write ingests. -/
def GraphOp.ingests : GraphOp → Option (VolumeId × List GraphMutation)
  | .applyBatch batch | .applyRebuildableBatch batch => some (batch.volumeId, batch.mutations)
  | .applyObservationScanPage volumeId events => some (volumeId, events.map .ofEvent)
  | _ => none

/-- An accepted batch or page is an accepted batch of its mutations, or empty. -/
theorem run_ingests {op : GraphOp} {ms : List GraphMutation} (hop : op.ingests = some (v, ms))
    (h : op.run g = .ok g') :
    (ms = [] ∧ g' = g) ∨ ∃ batch mode summary, batch.volumeId = v ∧ batch.mutations = ms ∧
      applyBatchWithOutboxMode g batch mode = .ok (g', summary) := by
  cases op with
  | applyBatch batch =>
    cases hop
    obtain ⟨summary, h⟩ := map_fst_ok.mp h
    exact .inr ⟨batch, .durable, summary, rfl, rfl, h⟩
  | applyRebuildableBatch batch =>
    cases hop
    obtain ⟨summary, h⟩ := map_fst_ok.mp h
    exact .inr ⟨batch, .rebuildable, summary, rfl, rfl, h⟩
  | applyObservationScanPage volumeId events =>
    cases hop
    obtain ⟨summary, h⟩ := map_fst_ok.mp h
    obtain ⟨-, -, -, ⟨rfl, rfl⟩ | ⟨checkpoint, hbatch⟩⟩ := applyObservationScanPage_ok h
    · exact .inl ⟨rfl, rfl⟩
    · exact .inr ⟨_, .durable, summary, rfl, rfl, hbatch⟩
  | beginObservationScan | stageObservationCheckpoint | finalizeObservationScan
  | refreshProjectionPaths | refreshVolumeProjection | acknowledgeProjection
  | resetProjectionConsumer | pruneConsumedOutbox | pruneRebuildableOutboxBounded
  | completeRefreshJob | compactLegacyDesiredPayloadsBounded => cases hop

/-- An accepted batch or scan page of a volume leaves all other volumes alone
exactly where none of the links it observes has the identity of another
volume's link. -/
theorem ingestion_isolated (hg : Reachable g) {op : GraphOp} {ms : List GraphMutation}
    (hop : op.ingests = some (v, ms)) (h : op.run g = .ok g') :
    Isolated v g g' ↔ ∀ link boundary, .upsertLink link boundary ∈ ms →
      ¬ Foreign g v link.fileLinkId := by
  rcases run_ingests hop h with ⟨rfl, rfl⟩ | ⟨batch, mode, summary, rfl, rfl, hbatch⟩
  · exact ⟨fun _ _ _ hmem => (nomatch hmem), fun _ => .refl hg.outboxWF v⟩
  constructor
  · rintro hisolated link boundary hmem ⟨row, hrow, hne⟩
    obtain ⟨-, hms, -, -, g₁, g₂, affected, jobs, appended, h₁, h₂, -, rfl⟩ :=
      applyBatchWithOutboxMode_ok hbatch
    have hkept := (hisolated.outside.link _ row hne).2 hrow
    have hlinks : g₂.links = g₁.links := by rw [syncLinks_frame h₂]
    exact hne (applyMutations_upserted hms h₁ hmem (hlinks ▸ hkept))
  · intro hid
    exact applyBatchWithOutboxMode_isolated layout_compact hg.wellFormed.names
      (catalogWF_iff.mp hg.wellFormed.catalog) hg.outboxWF hid hbatch

end Batches

section Example

attribute [local instance] asciiCaseMapping

def otherVolume : VolumeId := .fromU128 2
def otherDescriptor : VolumeDescriptor := ⟨otherVolume, none, [], none, false, true⟩
def otherObject : FileObjectSnapshot :=
  ⟨⟨otherVolume, .fromU128 1⟩, ⟨.directory, 0, none, none, false, .online⟩⟩

/-- The root link of the other volume, under a given identity. -/
def otherLink (id : Nat) : FileLinkSnapshot := ⟨.fromU128 id, otherObject.objectKey, none, "d:"⟩

/-- One volume with its root, and another whose scan was just started. -/
def twoVolumeOps : List GraphOp :=
  [.applyBatch (sampleBatch [.upsertVolume sampleDescriptor, .upsertObject (sampleObject 1 .directory),
      .upsertLink (sampleLink 9 1 none "c:") false]),
    .applyBatch ⟨otherVolume, ⟨"usn", 1, otherVolume, []⟩, [.upsertVolume otherDescriptor]⟩,
    .beginObservationScan otherDescriptor .initial .providerRequested]

def twoVolumes : FilesystemGraph := (runOps .empty twoVolumeOps).toOption.getD .empty

theorem twoVolumes_reachable : Reachable twoVolumes := by
  have hrun : runOps .empty twoVolumeOps = .ok twoVolumes := by decide
  exact runOps_steps (fun _ _ _ => trivial) hrun

def otherPage (id : Nat) : GraphOp :=
  .applyObservationScanPage otherVolume
    [.objectObserved otherObject, .linkObserved (otherLink id)]

def otherPageMutations (id : Nat) : List GraphMutation :=
  [.upsertObject otherObject, .upsertLink (otherLink id) false]

/-- The other volume's root has the identity of the first one's: the first
volume's root and its document are gone. -/
theorem foreign_link_dropped :
    Reachable twoVolumes ∧ (otherPage 9).ingests = some (otherVolume, otherPageMutations 9) ∧
      ∃ g', (otherPage 9).run twoVolumes = .ok g' ∧ ¬ Isolated otherVolume twoVolumes g' := by
  have hrun : ((otherPage 9).run twoVolumes).toOption.map (fun g => (g.links.get (.fromU128 9)).map
      (·.objectKey.volumeId)) = some (some otherVolume) := by decide
  obtain ⟨g', hg', hlink⟩ := Option.map_eq_some_iff.1 hrun
  have hok : (otherPage 9).run twoVolumes = .ok g' := by
    cases hresult : (otherPage 9).run twoVolumes with
    | error e =>
      rw [hresult] at hg'
      cases hg'
    | ok found =>
      rw [hresult] at hg'
      exact congrArg Except.ok (Option.some.inj hg')
  refine ⟨twoVolumes_reachable, rfl, g', hok, fun hisolated => ?_⟩
  have hrow : twoVolumes.links.get (.fromU128 9) = some ⟨sampleKey 1, none, "c:", false, 1⟩ := by
    decide
  have hkept := (hisolated.outside.link _ _ (by decide)).2 hrow
  rw [hkept] at hlink
  exact absurd (Option.some.inj hlink) (by decide)

/-- Under an identity of its own it leaves the first volume alone. -/
theorem own_link_isolated :
    ∃ g', (otherPage 10).run twoVolumes = .ok g' ∧ Isolated otherVolume twoVolumes g' := by
  have hrun : ((otherPage 10).run twoVolumes).toOption.isSome = true := by decide
  cases hresult : (otherPage 10).run twoVolumes with
  | error e =>
    rw [hresult] at hrun
    cases hrun
  | ok g' =>
    refine ⟨g', rfl, ?_⟩
    have hfree : twoVolumes.links.get (.fromU128 10) = none := by decide
    have hingests : (otherPage 10).ingests = some (otherVolume, otherPageMutations 10) := rfl
    refine (ingestion_isolated twoVolumes_reachable hingests hresult).2 ?_
    rintro link boundary hmem ⟨row, hrow, -⟩
    rcases List.mem_cons.1 hmem with hmem | hmem
    · cases hmem
    · cases List.mem_singleton.1 hmem
      exact absurd (hfree.symm.trans hrow) (by simp)

end Example

end LocalSearch.Graph
