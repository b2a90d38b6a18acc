import LocalSearch.Graph.Isolation
import LocalSearch.Graph.ScanFinalize
import LocalSearch.Graph.Representation
import LocalSearch.Lib.Versions

/-!
# Outbox order is version order

A document is appended at the generation its volume has. Some writes raise that
generation and some, the refreshes, reuse it. A document appended at the present
generation is settled: it stores what a sync would store, so no further sync
appends it before the generation rises.
-/
namespace LocalSearch.Graph

set_option autoImplicit false

open Core Lib

def GraphOp.mutations : GraphOp → List GraphMutation
  | .applyBatch batch | .applyRebuildableBatch batch => batch.mutations
  | .applyObservationScanPage _ events => events.map .ofEvent
  | _ => []

/-- The write uses every link identity with the volume that owns it. -/
def GraphOp.Respects (owner : FileLinkId → VolumeId) (op : GraphOp) : Prop :=
  ∀ m ∈ op.mutations, ∀ use ∈ m.linkUse, owner use.1 = use.2

/-- Links are stored for the volume that owns them. -/
def Owned (owner : FileLinkId → VolumeId) (g : FilesystemGraph) : Prop :=
  ∀ id row, g.links.get id = some row → row.objectKey.volumeId = owner id

section Paths

variable {v : VolumeId} {g g' : FilesystemGraph}

theorem Outside.linksOf (h : Outside v g g') {key : FileKey} (hkey : key.volumeId ≠ v) :
    Graph.linksOf g key = Graph.linksOf g' key := by
  refine linksOf_congr fun link hlink => ?_
  have hvolume : ∀ row, storedLinkFromRow link.fileLinkId row = link →
      row.objectKey.volumeId ≠ v := by
    intro row hrow
    have hsame : row.objectKey = link.objectKey := congrArg StoredLink.objectKey hrow
    rw [hsame, hlink]
    exact hkey
  rw [loadLink_eq_some, loadLink_eq_some]
  constructor
  · rintro ⟨row, hget, hrow⟩
    exact ⟨row, (h.link _ row (hvolume row hrow)).2 hget, hrow⟩
  · rintro ⟨row, hget, hrow⟩
    exact ⟨row, (h.link _ row (hvolume row hrow)).1 hget, hrow⟩

/-- The path of a link of another volume stays. -/
theorem Outside.resolvePath (h : Outside v g g') (hnames : NamespaceWF g) {id : FileLinkId}
    {row : LinkRow} (hload : loadLink g id = loadLink g' id) (hrow : g.links.get id = some row)
    (hvolume : row.objectKey.volumeId ≠ v) (limit : Nat) :
    Graph.resolvePath g id limit = Graph.resolvePath g' id limit := by
  have hparent : ∀ id (row : LinkRow), g.links.get id = some row → row.objectKey.volumeId ≠ v →
      ∀ p ∈ row.parentKey, p.volumeId ≠ v := by
    intro id row hrow hvolume p hp
    rw [hnames.linkParent id row hrow p hp]
    exact hvolume
  refine resolvePath_congr (S := fun key => key.volumeId ≠ v) hload (fun key hkey => h.linksOf hkey)
    (fun key hkey link hlink => ?_) (fun link hlink => ?_) limit
  · obtain ⟨hl, rfl⟩ := mem_linksOf.1 hlink
    obtain ⟨found, hfound, hstored⟩ := loadLink_eq_some.1 hl
    rw [← hstored] at hkey ⊢
    exact hparent _ found hfound hkey
  · obtain ⟨found, hfound, rfl⟩ := loadLink_eq_some.1 hlink
    obtain rfl := Option.some.inj (hrow.symm.trans hfound)
    exact hparent id row hrow hvolume

end Paths

/-- The content a desired row stands for, in either layout. -/
def rowContent (row : CatalogRow) : Option CatalogContent :=
  match row.projectionFingerprint with
  | some content => some content
  | none => row.documentJson.map CatalogContent.ofDocument

theorem rowContent_stored {document : CatalogDocument} {row : CatalogRow} (h : Stored document row) :
    rowContent row = some (CatalogContent.ofDocument document) := by
  rcases h with rfl | rfl <;> rfl

section Settled

variable [CaseMapping] {g g' : FilesystemGraph} {A : Set FileLinkId} {id : FileLinkId} {gen n : Nat}
  {mode : ProjectionOutboxMode}

/-- The document of the link is what a sync would make it. -/
def Settled (g : FilesystemGraph) (id : FileLinkId) : Prop :=
  (g.catalog.get (documentIdForLink id)).bind rowContent = desiredContent g id

theorem settled_of_gone (hlink : g.links.get id = none)
    (hrow : g.catalog.get (documentIdForLink id) = none) : Settled g id := by
  have hload : loadLink g id = none := by rw [loadLink, hlink]; rfl
  rw [Settled, hrow, desiredContent, hload]
  rfl

theorem Settled.congr (h : Settled g id)
    (hrow : (g'.catalog.get (documentIdForLink id)).bind rowContent =
      (g.catalog.get (documentIdForLink id)).bind rowContent)
    (hlinks : g'.links = g.links) (hobjects : g'.objects = g.objects)
    (hstates : ∀ v, volumeState g' v = volumeState g v) : Settled g' id := by
  rw [Settled, hrow, desiredContent_state_congr hlinks hobjects hstates]
  exact h

/-- A sync settles its own document. -/
theorem settled_sync (hcat : CatalogRows Stored g A)
    (h : syncCatalogProjection g id gen mode = .ok (g', n)) : Settled g' id := by
  rw [Settled, desiredContent_sync h]
  cases hrow : g'.catalog.get (documentIdForLink id) with
  | some row =>
    obtain ⟨link, document, stored, hlink, hbuild, hstored, hcontent⟩ :=
      hcat.sync_get layout_stored h hrow
    rw [desiredContent_of_link hlink gen, hbuild, Option.bind_some, rowContent_stored hstored,
      hcontent]
    rfl
  | none =>
    rcases syncCatalogProjection_ok h with ⟨hgone, -⟩ | ⟨link, document, -, -, hun, rfl⟩ |
      ⟨link, document, hlink, hbuild, -, hput⟩
    · rcases hgone with hnone | ⟨link, error, hlink, hbuild, -⟩
      · rw [desiredContent, hnone]
        rfl
      · rw [desiredContent_of_link hlink gen, hbuild]
        rfl
    · rw [hrow] at hun
      cases hun
    · obtain rfl : _ = g' := congrArg Prod.fst hput
      rw [putCatalogDocument_catalog, (buildCatalogDocument_own hlink hbuild).1,
        Table.get_insert_self] at hrow
      cases hrow

/-- A settled document is not appended. -/
theorem Settled.quiet (hs : Settled g id) (hcat : CatalogRows Stored g A)
    (h : syncCatalogProjection g id gen mode = .ok (g', n)) :
    g'.outbox = g.outbox ∧ g'.sqliteSequence = g.sqliteSequence := by
  have hstored : ∀ row, g.catalog.get (documentIdForLink id) = some row → ∃ stored,
      Stored stored row ∧ desiredContent g id = some (CatalogContent.ofDocument stored) := by
    intro row hrow
    obtain ⟨stored, hstored, -, -⟩ := hcat.stored _ row hrow
    rw [Settled, hrow, Option.bind_some, rowContent_stored hstored] at hs
    exact ⟨stored, hstored, hs.symm⟩
  rcases syncCatalogProjection_ok h with ⟨hgone, h⟩ | ⟨_, _, -, -, -, rfl⟩ |
    ⟨link, document, hlink, hbuild, hun, -⟩
  · have hnone : desiredContent g id = none := by
      rcases hgone with hnone | ⟨link, error, hlink, hbuild, -⟩
      · rw [desiredContent, hnone]
        rfl
      · rw [desiredContent_of_link hlink gen, hbuild]
        rfl
    cases hrow : g.catalog.get (documentIdForLink id) with
    | none =>
      simp only [deleteCatalogProjection, hrow] at h
      obtain rfl : _ = g' := congrArg Prod.fst h
      exact ⟨rfl, rfl⟩
    | some row =>
      obtain ⟨stored, -, hdesired⟩ := hstored row hrow
      cases hnone.symm.trans hdesired
  · exact ⟨rfl, rfl⟩
  · have hdesired : desiredContent g id = some (CatalogContent.ofDocument document) := by
      rw [desiredContent_of_link hlink gen, hbuild]
      rfl
    cases hrow : g.catalog.get (documentIdForLink id) with
    | none =>
      rw [Settled, hrow, hdesired] at hs
      cases hs
    | some row =>
      obtain ⟨stored, hlayout, hsame⟩ := hstored row hrow
      rw [hrow, layout_stored.unchanged stored row hlayout] at hun
      have heq : CatalogContent.ofDocument stored = CatalogContent.ofDocument document :=
        Option.some.inj (hsame.symm.trans hdesired)
      simp [heq] at hun

theorem Settled.sync_other {j : FileLinkId} (hs : Settled g j) (hj : j ≠ id)
    (h : syncCatalogProjection g id gen mode = .ok (g', n)) : Settled g' j := by
  have hrow := syncCatalogProjection_get_ne h fun heq => hj (documentIdForLink_injective heq)
  refine hs.congr (by rw [hrow]) ?_ ?_ fun v => ?_
  · rw [syncCatalogProjection_frame h]
  · rw [syncCatalogProjection_frame h]
  · rw [syncCatalogProjection_frame h]
    rfl

/-- A write of another volume leaves a document settled. -/
theorem Settled.outside {owner : FileLinkId → VolumeId} {v : VolumeId} (hs : Settled g id)
    (hout : Outside v g g') (hrep : Represented g) (hrep' : Represented g') (hown : Owned owner g)
    (hown' : Owned owner g') (hid : owner id ≠ v) : Settled g' id := by
  have hlinks : g'.links.get id = g.links.get id := by
    refine Option.ext fun row => ⟨fun hrow => ?_, fun hrow => ?_⟩
    · exact (hout.link id row (hown' id row hrow ▸ hid)).1 hrow
    · exact (hout.link id row (hown id row hrow ▸ hid)).2 hrow
  have hrows : g'.catalog.get (documentIdForLink id) = g.catalog.get (documentIdForLink id) := by
    refine Option.ext fun row => ⟨fun hrow => ?_, fun hrow => ?_⟩
    · obtain ⟨link, hlink, hkey⟩ := hrep'.catalog.link id row (Set.notMem_empty _) hrow
      exact (hout.document _ row (hkey ▸ hown' id link hlink ▸ hid)).1 hrow
    · obtain ⟨link, hlink, hkey⟩ := hrep.catalog.link id row (Set.notMem_empty _) hrow
      exact (hout.document _ row (hkey ▸ hown id link hlink ▸ hid)).2 hrow
  have hload : loadLink g id = loadLink g' id := by rw [loadLink, loadLink, hlinks]
  have hdesired : desiredContent g id = desiredContent g' id := by
    rw [desiredContent, desiredContent, ← hload]
    refine Option.bind_congr fun link hlink => ?_
    obtain ⟨row, hrow, rfl⟩ := loadLink_eq_some.1 hlink
    have hvolume : row.objectKey.volumeId ≠ v := hown id row hrow ▸ hid
    have hpath := hout.resolvePath hrep.names hload hrow hvolume projectionDepth
    have hstate : volumeState g row.objectKey.volumeId = volumeState g' row.objectKey.volumeId := by
      simp only [volumeState, hout.volume _ hvolume]
    exact congrArg (fun r => (Except.toOption r).map CatalogContent.ofDocument)
      (buildCatalogDocument_congr (hout.object _ hvolume).symm hstate hpath)
  rw [Settled, hrows, ← hdesired]
  exact hs

end Settled

/-- The document and the version of an appended row. -/
def entry (x : Nat × OutboxRow) : DocumentId × Nat := (x.2.documentId, x.2.documentVersion)

/-- The columns of the row repeat its mutation. -/
def NamesMutation (x : Nat × OutboxRow) : Prop :=
  x.2.mutation.documentId = x.2.documentId ∧ x.2.mutation.documentVersion = x.2.documentVersion

/-- One accepted write of a run that uses every link identity with one volume,
and the rows it appends. A run may come upon a database whose desired rows are
still in the older layout. -/
inductive LogStep [CaseMapping] (owner : FileLinkId → VolumeId) :
    FilesystemGraph × List (Nat × OutboxRow) → FilesystemGraph × List (Nat × OutboxRow) → Prop
  | older {g g₀ : FilesystemGraph} {log : List (Nat × OutboxRow)} (hold : Upgraded g g₀) :
      LogStep owner (g, log) (g₀, log)
  | write {g g' : FilesystemGraph} {log : List (Nat × OutboxRow)} (op : GraphOp)
      (hop : op.Respects owner) (hrun : op.run g = .ok g') :
      LogStep owner (g, log) (g', log ++ outboxAfter g' (highWater g))

/-- The rows appended by a run, pruned or not. -/
abbrev LogRun [CaseMapping] (owner : FileLinkId → VolumeId) :
    FilesystemGraph × List (Nat × OutboxRow) → FilesystemGraph × List (Nat × OutboxRow) → Prop :=
  Relation.ReflTransGen (LogStep owner)

section Transactions

variable [CaseMapping] {owner : FileLinkId → VolumeId} {v : VolumeId} {gen n : Nat}
  {g₀ g g' : FilesystemGraph} {log : List (Nat × OutboxRow)} {here here' : FileLinkId → Prop}
  {mode : ProjectionOutboxMode}

/-- What holds between the writes of a run. -/
structure LogOrder (owner : FileLinkId → VolumeId) (g : FilesystemGraph)
    (log : List (Nat × OutboxRow)) : Prop where
  represented : Represented g
  outbox : OutboxWF g
  owned : Owned owner g
  sequences : log.Pairwise fun a b => a.1 < b.1
  below : ∀ x ∈ log, x.1 ≤ highWater g
  kept : ∀ n row, g.outbox.get n = some row → (n, row) ∈ log
  named : ∀ x ∈ log, NamesMutation x
  versions : VersionLog (fun d => currentGeneration g (owner (linkOfDocument d)))
    (fun d => Settled g (linkOfDocument d)) (log.map entry)

/-- A write from `g` to `g'` keeps the order, and the mark does not fall. -/
structure LogAdvances (owner : FileLinkId → VolumeId) (g : FilesystemGraph)
    (log : List (Nat × OutboxRow)) (g' : FilesystemGraph) : Prop where
  order : LogOrder owner g' (log ++ outboxAfter g' (highWater g))
  mark : highWater g ≤ highWater g'

omit [CaseMapping] in
/-- The ceilings during a transaction on `v` at `gen` that began at `g₀`. -/
def ceilingDuring (owner : FileLinkId → VolumeId) (v : VolumeId) (gen : Nat) (g₀ : FilesystemGraph)
    (d : DocumentId) : Nat :=
  if owner (linkOfDocument d) = v then gen else currentGeneration g₀ (owner (linkOfDocument d))

/-- Documents of `v` are settled as `here` says, all others as they were. -/
def SettledDuring (owner : FileLinkId → VolumeId) (v : VolumeId) (g₀ : FilesystemGraph)
    (here : FileLinkId → Prop) (d : DocumentId) : Prop :=
  if owner (linkOfDocument d) = v then here (linkOfDocument d) else Settled g₀ (linkOfDocument d)

/-- A transaction on `v` at `gen` that began at `g₀`, after `log`. -/
structure InOrder (owner : FileLinkId → VolumeId) (v : VolumeId) (gen : Nat) (g₀ : FilesystemGraph)
    (log : List (Nat × OutboxRow)) (here : FileLinkId → Prop) (g : FilesystemGraph) : Prop where
  grows : OutboxGrows g₀ g
  named : ∀ x ∈ outboxAfter g (highWater g₀), NamesMutation x
  versions : VersionLog (ceilingDuring owner v gen g₀) (SettledDuring owner v g₀ here)
    ((log ++ outboxAfter g (highWater g₀)).map entry)

theorem LogOrder.advances (h : LogOrder owner g log) : LogAdvances owner g log g := by
  refine ⟨?_, le_refl _⟩
  rw [outboxAfter_highWater h.outbox, List.append_nil]
  exact h

namespace InOrder

/-- A transaction that raises the generation has settled nothing yet. -/
theorem raised (v : VolumeId) (h : LogOrder owner g log) (hgen : currentGeneration g v < gen)
    (here : FileLinkId → Prop) : InOrder owner v gen g log here g := by
  have hnone := outboxAfter_highWater h.outbox
  refine ⟨.refl h.outbox, fun x hx => ?_, ?_⟩
  · rw [hnone] at hx
    cases hx
  · rw [hnone, List.append_nil]
    refine h.versions.raise (fun d => ?_) fun d hstay hsettled => ?_
    · unfold ceilingDuring
      split_ifs with hd
      · rw [hd]
        exact hgen.le
      · exact le_refl _
    · unfold ceilingDuring at hstay
      unfold SettledDuring
      split_ifs at hstay with hd
      · rw [hd] at hstay
        omega
      · rw [if_neg hd]
        exact hsettled

/-- A transaction at the present generation. -/
theorem current (h : LogOrder owner g log) :
    InOrder owner v (currentGeneration g v) g log (Settled g) g := by
  have hnone := outboxAfter_highWater h.outbox
  refine ⟨.refl h.outbox, fun x hx => ?_, ?_⟩
  · rw [hnone] at hx
    cases hx
  · rw [hnone, List.append_nil]
    refine h.versions.raise (fun d => ?_) fun d _ hsettled => ?_
    · unfold ceilingDuring
      split_ifs with hd
      · rw [hd]
      · exact le_refl _
    · unfold SettledDuring
      split_ifs
      · exact hsettled
      · exact hsettled

/-- Changes that leave the outbox alone. -/
theorem still (h : InOrder owner v gen g₀ log here g) (hout : g'.outbox = g.outbox)
    (hseq : g'.sqliteSequence = g.sqliteSequence) (hcons : g'.consumers = g.consumers)
    (hhere : ∀ id, owner id = v → here id → here' id) :
    InOrder owner v gen g₀ log here' g' := by
  have hmark : highWater g' = highWater g := by rw [highWater, hseq]; rfl
  have hafter : outboxAfter g' (highWater g₀) = outboxAfter g (highWater g₀) := by
    rw [outboxAfter, hout]
    rfl
  refine ⟨⟨?_, ⟨?_, ?_⟩, ?_, ?_⟩, ?_, ?_⟩
  · rw [hout]
    exact h.grows.rows
  · rw [hout, hmark]
    exact h.grows.wf.rows
  · rw [hcons, hmark]
    exact h.grows.wf.consumers
  · rw [hmark]
    exact h.grows.mono
  · rw [hcons]
    exact h.grows.consumers
  · rw [hafter]
    exact h.named
  · rw [hafter]
    refine h.versions.raise (fun _ => le_refl _) fun d _ hsettled => ?_
    unfold SettledDuring at hsettled ⊢
    split_ifs at hsettled with hd
    · rw [if_pos hd]
      exact hhere _ hd hsettled
    · rw [if_neg hd]
      exact hsettled

/-- A sync of a link of the volume, settled only if its document is. -/
theorem sync {A : Set FileLinkId} {id : FileLinkId} (h : InOrder owner v gen g₀ log here g)
    (hcat : CatalogRows Stored g A) (howner : owner id = v) (hhere : here id → Settled g id)
    (hnew : here' id) (hkeep : ∀ j, j ≠ id → here j → here' j)
    (hsync : syncCatalogProjection g id gen mode = .ok (g', n)) :
    InOrder owner v gen g₀ log here' g' := by
  have hgrows := outboxGrows_sync h.grows hsync
  have hconsumers : g'.consumers = g.consumers := by rw [syncCatalogProjection_frame hsync]
  have hquiet : g'.outbox = g.outbox ∧ g'.sqliteSequence = g.sqliteSequence →
      InOrder owner v gen g₀ log here' g' := by
    rintro ⟨hout, hseq⟩
    refine h.still hout hseq hconsumers fun j _ hj => ?_
    by_cases hji : j = id
    · rw [hji]
      exact hnew
    · exact hkeep j hji hj
  by_cases hsettled : Settled g id
  · exact hquiet (hsettled.quiet hcat hsync)
  rcases syncCatalogProjection_appends hsync with hsame | ⟨mutation, hout, -, hdoc, hversion, -⟩
  · exact hquiet hsame
  -- the new row is the last one past the position the transaction began at
  have hafter : outboxAfter g' (highWater g₀) = outboxAfter g (highWater g₀) ++
      [(nextOutboxSequence g, ⟨documentIdForLink id, gen, mutation⟩)] := by
    have hnext := nextOutboxSequence_eq h.grows.wf
    have hmono := h.grows.mono
    have hrows : g'.outbox.rows = g.outbox.rows ++
        [(nextOutboxSequence g, ⟨documentIdForLink id, gen, mutation⟩)] := by
      rw [hout]
      refine Table.insertRows_of_gt fun x hx => ?_
      have hle := h.grows.wf.rows x.1 x.2 (Table.mem_rows.mp hx)
      omega
    have hpast : highWater g₀ < nextOutboxSequence g := by omega
    simp only [outboxAfter, Table.select, hrows, List.filter_append]
    simp [hpast]
  refine ⟨hgrows, fun x hx => ?_, ?_⟩
  · rw [hafter] at hx
    rcases List.mem_append.1 hx with hx | hx
    · exact h.named x hx
    · obtain rfl := List.mem_singleton.1 hx
      exact ⟨hdoc, hversion⟩
  · have hself : owner (linkOfDocument (documentIdForLink id)) = v := by
      rw [linkOfDocument_documentIdForLink]
      exact howner
    have htop : ceilingDuring owner v gen g₀ (documentIdForLink id) = gen := if_pos hself
    rw [hafter, ← List.append_assoc, List.map_append]
    have happend : VersionLog (ceilingDuring owner v gen g₀) (SettledDuring owner v g₀ here')
        ((log ++ outboxAfter g (highWater g₀)).map entry ++
          [(documentIdForLink id, ceilingDuring owner v gen g₀ (documentIdForLink id))]) := by
      refine h.versions.append ?_ ?_ fun d hd hbefore => ?_
      · rw [SettledDuring, if_pos hself, linkOfDocument_documentIdForLink]
        exact fun hid => hsettled (hhere hid)
      · rw [SettledDuring, if_pos hself, linkOfDocument_documentIdForLink]
        exact hnew
      · unfold SettledDuring at hbefore ⊢
        split_ifs at hbefore with hv
        · rw [if_pos hv]
          refine hkeep _ (fun heq => hd ?_) hbefore
          rw [← heq, documentIdForLink_linkOfDocument]
        · rw [if_neg hv]
          exact hbefore
    rw [htop] at happend
    exact happend

/-- A page of syncs of the volume's links. -/
theorem syncLinks {A : Set FileLinkId} {ids : List FileLinkId}
    (h : InOrder owner v gen g₀ log (Settled g) g) (hcat : CatalogRows Stored g A)
    (howner : ∀ id ∈ ids, owner id = v) (hsync : Graph.syncLinks g gen mode ids = .ok (g', n)) :
    InOrder owner v gen g₀ log (Settled g') g' := by
  refine (syncLinks_induct (P := fun g => (∃ A, CatalogRows Stored g A) ∧
    InOrder owner v gen g₀ log (Settled g) g) ?_ hsync ⟨⟨A, hcat⟩, h⟩).2
  rintro id hid g₁ g₂ n₁ ⟨⟨B, hcat⟩, h⟩ hstep
  refine ⟨⟨_, hcat.sync layout_stored hstep⟩, ?_⟩
  exact h.sync hcat (howner id hid) (fun hs => hs) (settled_sync hcat hstep)
    (fun j hj hs => hs.sync_other hj hstep) hstep

/-- The transaction commits. -/
theorem commit (h : InOrder owner v gen g log here g') (hlog : LogOrder owner g log)
    (hrep : Represented g') (hown : Owned owner g') (hout : Outside v g g')
    (hgen : currentGeneration g' v = gen) (hhere : ∀ id, owner id = v → here id → Settled g' id) :
    LogAdvances owner g log g' := by
  have hpast : ∀ x ∈ outboxAfter g' (highWater g), g'.outbox.get x.1 = some x.2 ∧
      highWater g < x.1 := fun x hx => mem_outboxAfter.1 hx
  refine ⟨⟨hrep, h.grows.wf, hown, ?_, fun x hx => ?_, fun k row hrow => ?_, fun x hx => ?_, ?_⟩,
    h.grows.mono⟩
  · refine List.pairwise_append.2 ⟨hlog.sequences, Table.select_sorted _ _, fun a ha b hb => ?_⟩
    have hle := hlog.below a ha
    have hlt := (hpast b hb).2
    omega
  · rcases List.mem_append.1 hx with hx | hx
    · exact (hlog.below x hx).trans h.grows.mono
    · exact h.grows.wf.rows x.1 x.2 (hpast x hx).1
  · by_cases hk : highWater g < k
    · exact List.mem_append_right _ (mem_outboxAfter.2 ⟨hrow, hk⟩)
    · obtain ⟨added, hrows, hnew⟩ := h.grows.rows
      have hmem : (k, row) ∈ g.outbox.rows ++ added := hrows ▸ Table.mem_rows.2 hrow
      rcases List.mem_append.1 hmem with hold | hadded
      · exact List.mem_append_left _ (hlog.kept k row (Table.mem_rows.1 hold))
      · exact absurd (hnew _ hadded) hk
  · exact (List.mem_append.1 hx).elim (hlog.named x) (h.named x)
  · refine h.versions.raise (fun d => ?_) fun d _ hsettled => ?_
    · unfold ceilingDuring
      split_ifs with hd
      · rw [hd, hgen]
      · rw [currentGeneration, currentGeneration, hout.volume _ hd]
    · unfold SettledDuring at hsettled
      split_ifs at hsettled with hd
      · exact hhere _ hd hsettled
      · exact hsettled.outside hout hlog.represented hrep hlog.owned hown hd

end InOrder

omit [CaseMapping] in
theorem Owned.not_foreign (h : Owned owner g) {id : FileLinkId} (hid : owner id = v) :
    ¬ Foreign g v id := by
  rintro ⟨row, hrow, hne⟩
  exact hne ((h id row hrow).trans hid)

omit [CaseMapping] in
/-- Links that were there before are owned as before. -/
theorem Owned.fewer (h : Owned owner g)
    (hget : ∀ id row, g'.links.get id = some row → g.links.get id = some row) : Owned owner g' :=
  fun id row hrow => h id row (hget id row hrow)

omit [CaseMapping] in
theorem Owned.applyMutation {m : GraphMutation} (h : Owned owner g)
    (huse : ∀ use ∈ m.linkUse, owner use.1 = use.2)
    (happly : Graph.applyMutation g m gen = .ok (g', n)) : Owned owner g' := by
  intro id row hrow
  rcases applyMutation_links_get happly hrow with hold | ⟨link, boundary, rfl, rfl, hkey⟩
  · exact h id row hold
  · rw [hkey]
    exact (huse _ rfl).symm

omit [CaseMapping] in
/-- The identity a mutation names is used with its volume. -/
theorem owner_of_linkUse {m : GraphMutation} (hm : m.InVolume v)
    (huse : ∀ use ∈ m.linkUse, owner use.1 = use.2) :
    ∀ use ∈ m.linkUse, owner use.1 = v := by
  intro use hmem
  rw [huse use hmem]
  cases m with
  | upsertLink link boundary =>
    cases hmem
    exact hm.1
  | removeLink id object =>
    cases hmem
    exact hm
  | upsertVolume | setVolumeState | requireReconciliation | upsertObject | tombstoneObject =>
    cases hmem

/-- In the middle of a batch: the tables fit together, links are stored for their
owners and the links that await a sync are owned by the volume. -/
structure OwnedBatch (owner : FileLinkId → VolumeId) (v : VolumeId) (gen : Nat) (g : FilesystemGraph)
    (affected : LinkSet) : Prop where
  names : NamespaceWF g
  catalog : CatalogRows Stored g affected.members
  owned : Owned owner g
  affected : ∀ id ∈ affected.members, owner id = v
  generation : currentGeneration g v ≤ gen

theorem OwnedBatch.applyMutation {affected : LinkSet} {m : GraphMutation}
    (h : OwnedBatch owner v gen g affected) (hm : m.InVolume v)
    (huse : ∀ use ∈ m.linkUse, owner use.1 = use.2)
    (happly : Graph.applyMutation g m gen = .ok (g', n)) :
    OwnedBatch owner v gen g' (collectAffectedLinks g m affected) := by
  have hnamed := owner_of_linkUse hm huse
  have hmembers : (collectAffectedLinks g m affected).members =
      affected.members ∪ {id | id ∈ affectedLinks g m} := by
    ext id
    exact LinkSet.get_addAll affected (affectedLinks g m) id
  have hchanges : Changes True v gen .durable (g, affected.members)
      (g', (collectAffectedLinks g m affected).members) := by
    rw [hmembers]
    exact applyMutation_changes hm (.inl trivial) h.generation happly
  refine ⟨?_, ?_, h.owned.applyMutation huse happly, fun id hmem => ?_,
    currentGeneration_le_of_changes hchanges h.generation⟩
  · exact hchanges.names h.names
  · exact hchanges.catalogRows layout_stored h.catalog
  · rw [hmembers] at hmem
    rcases hmem with hmem | hmem
    · exact h.affected id hmem
    have hid : ∀ link boundary, m = .upsertLink link boundary → ¬ Foreign g v link.fileLinkId := by
      rintro link boundary rfl
      exact h.owned.not_foreign (hnamed _ rfl)
    rcases affectedLinks_cases layout_stored h.names h.catalog hm hid hmem with
      hdirty | ⟨row, hrow, hv⟩ | ⟨use, hnames, rfl⟩
    · exact h.affected id hdirty
    · exact (h.owned id row hrow).symm.trans hv
    · exact hnamed use hnames

omit [CaseMapping] in
theorem volumeState_setGeneration (g : FilesystemGraph) (v w : VolumeId) (gen : Nat) :
    volumeState (setGeneration g v gen) w = volumeState g w := by
  rw [volumeState, volumeState, setGeneration, Table.get_modify]
  split_ifs with hw
  · cases g.volumes.get w <;> rfl
  · rfl

theorem LogOrder.batch (h : LogOrder owner g log) {batch : GraphMutationBatch}
    {summary : ApplySummary} (huse : ∀ m ∈ batch.mutations, ∀ use ∈ m.linkUse, owner use.1 = use.2)
    (hbatch : applyBatchWithOutboxMode g batch mode = .ok (g', summary)) :
    LogAdvances owner g log g' := by
  have htransacts : Transacts True mode g g' :=
    applyBatchWithOutboxMode_transacts (.inl trivial) hbatch
  obtain ⟨-, hms, -, -, g₁, g₂, affected, jobs, appended, h₁, h₂, ⟨volume, hvol⟩, rfl⟩ :=
    applyBatchWithOutboxMode_ok hbatch
  have hopened : OwnedBatch owner batch.volumeId (currentGeneration g batch.volumeId + 1) g .empty := by
    refine ⟨h.represented.names, LinkSet.members_empty ▸ h.represented.catalog, h.owned,
      fun id hmem => ?_, Nat.le_succ _⟩
    rw [LinkSet.members_empty] at hmem
    cases hmem
  have happlied := applyMutations_induct
    (fun m hm _ _ _ _ hbatch => hbatch.applyMutation (hms m hm) (huse m hm)) h₁ hopened
  obtain ⟨hout₁, hseq₁, hcons₁⟩ := applyMutations_outbox h₁
  have hstart := (InOrder.raised batch.volumeId h (Nat.lt_succ_self _) (Settled g₁)).still hout₁
    hseq₁ hcons₁ fun _ _ hs => hs
  have hsynced := hstart.syncLinks happlied.catalog
    (fun id hmem => happlied.affected id (LinkSet.mem_members.mpr hmem)) h₂
  have hisolated := applyBatchWithOutboxMode_isolated layout_stored h.represented.names
    h.represented.catalog h.outbox (fun link boundary hmem => h.owned.not_foreign
      ((huse _ hmem _ rfl).trans (hms _ hmem).1)) hbatch
  have hlinks₂ : g₂.links = g₁.links := by rw [syncLinks_frame h₂]
  have hcommitted : InOrder owner batch.volumeId (currentGeneration g batch.volumeId + 1) g log
      (Settled g₂) (putCheckpoint (setGeneration g₂ batch.volumeId
        (currentGeneration g batch.volumeId + 1)) batch.volumeId
        (ProviderCheckpoint.row batch.checkpoint)) :=
    hsynced.still rfl rfl rfl fun _ _ hs => hs
  refine hcommitted.commit h (h.represented.of_transacts htransacts)
    (happlied.owned.fewer fun id row hrow => hlinks₂ ▸ hrow) hisolated.outside
    (currentGeneration_setGeneration hvol) fun id _ hs => ?_
  exact hs.congr rfl rfl rfl fun w => volumeState_setGeneration g₂ batch.volumeId w _

/-- A write that raises the generation of its volume and appends nothing. -/
theorem LogOrder.raise (h : LogOrder owner g log)
    (hgen : currentGeneration g v < currentGeneration g' v) (hrep : Represented g')
    (hlinks : g'.links = g.links) (hout : g'.outbox = g.outbox)
    (hseq : g'.sqliteSequence = g.sqliteSequence) (hcons : g'.consumers = g.consumers)
    (houtside : Outside v g g') : LogAdvances owner g log g' := by
  have hraised := (InOrder.raised v h hgen fun _ => False).still hout hseq hcons fun _ _ hf => hf
  exact hraised.commit h hrep (h.owned.fewer fun id row hrow => hlinks ▸ hrow) houtside rfl
    fun _ _ hf => hf.elim

theorem LogOrder.begin (h : LogOrder owner g log) {descriptor : VolumeDescriptor}
    {m : ObservationScanMode} {reason : ReconciliationReason} {session : ObservationSession}
    (hscan : beginObservationScan g descriptor m reason = .ok (g', session)) :
    LogAdvances owner g log g' := by
  have htransacts : Transacts True .durable g g' := beginObservationScan_transacts hscan
  obtain ⟨gen, hgen, heq⟩ := bind_ok.mp hscan
  obtain ⟨-, rfl⟩ := checkedSucc_ok.mp hgen
  obtain ⟨rfl, -⟩ := Prod.mk.inj (Except.ok.inj heq)
  refine h.raise (v := descriptor.volumeId) ?_ (h.represented.of_transacts htransacts) rfl rfl rfl rfl
    ?_
  · simp [currentGeneration, Table.get_modify, upsertVolume]
  · exact ((Outside.volumes_insert g _ _).trans (.volumes_modify _ _ _)).trans
      ((Outside.volumeJobs_insert _ _ _).trans (.sessions_insert _ _ _))

/-- The link and its document are gone. -/
def Gone (g : FilesystemGraph) (id : FileLinkId) : Prop :=
  g.links.get id = none ∧ g.catalog.get (documentIdForLink id) = none

/-- A sweep of links of the volume that began at `g₀`. -/
structure Sweeping (owner : FileLinkId → VolumeId) (v : VolumeId) (gen : Nat) (g₀ : FilesystemGraph)
    (log : List (Nat × OutboxRow)) (g : FilesystemGraph) : Prop where
  order : InOrder owner v gen g₀ log (Gone g) g
  catalog : CatalogRows Stored g ∅
  outside : Outside v g₀ g
  fewer : ∀ id row, g.links.get id = some row → g₀.links.get id = some row

/-- A swept link and its document are gone. -/
theorem Sweeping.remove {g₁ g₂ : FilesystemGraph} {id : FileLinkId} {key : FileKey} {n₁ n₂ : Nat}
    (h : Sweeping owner v gen g₀ log g) (hcat₀ : CatalogRows Stored g₀ ∅) (hown : Owned owner g₀)
    (howner : owner id = v) (hkey : key.volumeId = v)
    (h₁ : removeLinkInternal g id key gen false = .ok (g₁, n₁))
    (h₂ : syncCatalogProjection g₁ id gen .durable = .ok (g₂, n₂)) :
    Sweeping owner v gen g₀ log g₂ := by
  have hframe₁ := removeLinkInternal_frame h₁
  have hlinks₂ : g₂.links = g₁.links := by rw [syncCatalogProjection_frame h₂]
  have hremoved : g₁.links.get id = none := by rw [removeLinkInternal_get h₁, if_pos rfl]
  have hcatalog₁ : g₁.catalog = g.catalog := by rw [hframe₁]
  have hcat₁ : CatalogRows Stored g₁ (∅ ∪ {id}) :=
    (removeLinkInternal_changes h₁ : Changes True v gen .durable (g, ∅) (g₁, ∅ ∪ {id})).catalogRows
      layout_stored h.catalog
  have hgone₁ : ∀ j, Gone g j → Gone g₁ j := by
    rintro j ⟨hlink, hrow⟩
    refine ⟨?_, hcatalog₁ ▸ hrow⟩
    rw [removeLinkInternal_get h₁, hlink, ite_self]
  have horder₁ : InOrder owner v gen g₀ log (Gone g₁) g₁ :=
    h.order.still (by rw [hframe₁]) (by rw [hframe₁]) (by rw [hframe₁]) fun j _ hj => hgone₁ j hj
  have hdeleted : g₂.catalog.get (documentIdForLink id) = none := by
    have hload : loadLink g₁ id = none := by rw [loadLink, hremoved]; rfl
    rw [syncCatalogProjection, hload] at h₂
    obtain rfl : _ = g₂ := congrArg Prod.fst (Except.ok.inj h₂)
    rw [deleteCatalogProjection_catalog, Table.get_erase, if_pos rfl]
  have hclean : ((∅ : Set FileLinkId) ∪ {id}) \ {id} = ∅ := by simp
  refine ⟨?_, hclean ▸ hcat₁.sync layout_stored h₂, ?_, fun j row hrow => ?_⟩
  · refine horder₁.sync hcat₁ howner (fun hj => settled_of_gone hj.1 hj.2)
      ⟨hlinks₂ ▸ hremoved, hdeleted⟩ (fun j hj hgone => ?_) h₂
    refine ⟨hlinks₂ ▸ hgone.1, ?_⟩
    rw [syncCatalogProjection_get_ne h₂ fun heq => hj (documentIdForLink_injective heq)]
    exact hgone.2
  · exact (h.outside.trans (.removeLinkInternal hkey h₁)).sync hcat₀ (hown.not_foreign howner) h₂
  · rw [hlinks₂, removeLinkInternal_get h₁] at hrow
    split_ifs at hrow
    exact h.fewer j row hrow

theorem Sweeping.rows {rows : List (FileLinkId × LinkRow)} (h : Sweeping owner v gen g₀ log g)
    (hcat₀ : CatalogRows Stored g₀ ∅) (hown : Owned owner g₀)
    (hrows : ∀ x ∈ rows, owner x.1 = v ∧ x.2.objectKey.volumeId = v)
    (hsweep : sweepLinkRows gen g rows = .ok g') : Sweeping owner v gen g₀ log g' := by
  induction rows generalizing g with
  | nil =>
    obtain rfl := Except.ok.inj hsweep
    exact h
  | cons x rest ih =>
    obtain ⟨id, row⟩ := x
    simp only [sweepLinkRows, bind_ok] at hsweep
    obtain ⟨⟨g₁, n₁⟩, h₁, ⟨g₂, n₂⟩, h₂, hrest⟩ := hsweep
    obtain ⟨howner, hkey⟩ := hrows _ List.mem_cons_self
    exact ih (h.remove hcat₀ hown howner hkey h₁ h₂)
      (fun y hy => hrows y (List.mem_cons_of_mem _ hy)) hrest

theorem LogOrder.sweepLinks (h : LogOrder owner g log) {session : SessionRow} {staged : CheckpointRow}
    {volume : VolumeRow} {k removed : Nat} {g₁ : FilesystemGraph} (hvol : g.volumes.get v = some volume)
    (hrep : Represented (setGeneration g₁ v (volume.generation + 1)))
    (hsweep : sweepStaleObservationLinks g v session staged (volume.generation + 1) k =
      .ok (g₁, removed)) :
    LogAdvances owner g log (setGeneration g₁ v (volume.generation + 1)) := by
  have hlt : currentGeneration g v < volume.generation + 1 := by
    rw [currentGeneration_of_get hvol]
    omega
  obtain ⟨g₂, hrows, -, rfl⟩ := sweepStaleObservationLinks_ok hsweep
  have hstale : ∀ x ∈ staleLinkPage g v session.scanGeneration k,
      owner x.1 = v ∧ x.2.objectKey.volumeId = v := by
    intro x hx
    obtain ⟨hget, hp⟩ := Table.mem_select.1 (mem_byObservation.1 (List.mem_of_mem_take hx))
    simp only [Bool.and_eq_true, beq_iff_eq] at hp
    exact ⟨(h.owned x.1 x.2 hget).symm.trans hp.1, hp.1⟩
  have hstart : Sweeping owner v (volume.generation + 1) g log g :=
    ⟨.raised v h hlt _, h.represented.catalog, .refl v g, fun _ _ hrow => hrow⟩
  have hswept := hstart.rows h.represented.catalog h.owned hstale hrows
  have hvol₂ : ∃ row, g₂.volumes.get v = some row := by
    obtain ⟨row, hrow, -⟩ := volumes_mono_of_changes
      (sweepLinkRows_changes hrows : Changes True v _ .durable (g, ∅) (g₂, ∅)) hvol
    exact ⟨row, hrow⟩
  obtain ⟨row₂, hrow₂⟩ := hvol₂
  split_ifs at hrep ⊢
  · have hend : InOrder owner v (volume.generation + 1) g log (Gone g₂) (setGeneration { g₂ with
        sessions := g₂.sessions.insert v { session with phase := .sweepingObjects staged } } v
          (volume.generation + 1)) :=
      hswept.order.still rfl rfl rfl fun _ _ hj => hj
    exact hend.commit h hrep (h.owned.fewer hswept.fewer)
      (hswept.outside.trans ((Outside.sessions_insert g₂ v _).trans (.volumes_modify _ _ _)))
      (currentGeneration_setGeneration hrow₂) fun _ _ hj => settled_of_gone hj.1 hj.2
  · have hend : InOrder owner v (volume.generation + 1) g log (Gone g₂) (setGeneration g₂ v
        (volume.generation + 1)) :=
      hswept.order.still rfl rfl rfl fun _ _ hj => hj
    exact hend.commit h hrep (h.owned.fewer hswept.fewer)
      (hswept.outside.trans (.volumes_modify _ _ _))
      (currentGeneration_setGeneration hrow₂) fun _ _ hj => settled_of_gone hj.1 hj.2

omit [CaseMapping] in
theorem Outside.tombstones {stale : List (FileKey × ObjectRow)}
    (hstale : ∀ x ∈ stale, x.1.volumeId = v) :
    Outside v g (stale.foldl (fun g x => Graph.setTombstoned g x.1 true) g) := by
  induction stale generalizing g with
  | nil => exact .refl v g
  | cons x rest ih =>
    exact (Outside.setTombstoned g (hstale x List.mem_cons_self) true).trans
      (ih fun y hy => hstale y (List.mem_cons_of_mem _ hy))

theorem LogOrder.finalize (h : LogOrder owner g log) {k : Nat} {summary : ObservationFinalizeSummary}
    (hfinal : finalizeObservationScan g v k = .ok (g', summary)) :
    LogAdvances owner g log g' := by
  have hrep : Represented g' := h.represented.of_transacts
    (finalizeObservationScan_transacts h.represented.queues hfinal : Transacts True .durable g g')
  rcases finalizeObservationScan_ok hfinal with ⟨-, rfl, -⟩ |
    ⟨-, session, volume, -, hvol, -, hphase⟩
  · exact h.advances
  rcases hphase with ⟨staged, g₁, removed, -, hsweep, rfl, -⟩ |
    ⟨staged, g₁, tombstoned, terminal, -, hsweep, -, rfl⟩
  · exact h.sweepLinks hvol hrep hsweep
  · have hlt : currentGeneration g v < volume.generation + 1 := by
      rw [currentGeneration_of_get hvol]
      omega
    obtain ⟨rfl, -⟩ := Prod.mk.inj hsweep
    have hstale : ∀ x ∈ staleObjectPage g v session.scanGeneration k, x.1.volumeId = v := by
      intro x hx
      have hp := (Table.mem_select.1 (mem_byObservation.1 (List.mem_of_mem_take hx))).2
      simp only [Bool.and_eq_true, beq_iff_eq] at hp
      exact hp.1.1.1
    have houtside := Outside.tombstones (g := g) hstale
    have hframe := tombstones_frame (staleObjectPage g v session.scanGeneration k) g
    set g₂ := (staleObjectPage g v session.scanGeneration k).foldl
      (fun g x => setTombstoned g x.1 true) g with hg₂
    have hvol₂ : g₂.volumes.get v = some volume := by
      rw [hframe]
      exact hvol
    have hlinks : g₂.links = g.links := by rw [hframe]
    have hout : g₂.outbox = g.outbox := by rw [hframe]
    have hseq : g₂.sqliteSequence = g.sqliteSequence := by rw [hframe]
    have hcons : g₂.consumers = g.consumers := by rw [hframe]
    cases terminal with
    | true =>
      refine h.raise (v := v) ?_ hrep hlinks hout hseq hcons ?_
      · refine hlt.trans_eq (Eq.symm ?_)
        simp [currentGeneration, activateObservationCheckpoint, enqueueVolumeProjectionRefresh,
          putCheckpoint, Table.get_modify, hvol₂]
      · exact houtside.trans ((Outside.checkpoints_insert g₂ v staged).trans
          ((Outside.volumes_modify _ v _).trans
            ((Outside.volumeJobs_insert _ v _).trans (.sessions_erase _ v))))
    | false =>
      refine h.raise (v := v) ?_ hrep hlinks hout hseq hcons ?_
      · exact hlt.trans_eq (currentGeneration_setGeneration hvol₂).symm
      · exact houtside.trans (.volumes_modify _ _ _)

omit [CaseMapping] in
/-- A path job of the volume advances. -/
theorem Outside.pathJobs_insert {id : Nat} {old job : PathJobRow} (hold : g.pathJobs.get id = some old)
    (hroot : old.rootObject.volumeId = v) (hjob : job.rootObject.volumeId = v) :
    Outside v g { g with pathJobs := g.pathJobs.insert id job } := by
  refine { Outside.refl v g with pathJob := fun other row hrow => ?_ }
  show (g.pathJobs.insert id job).get other = some row ↔ _
  rw [Table.get_insert]
  split_ifs with hid
  · subst hid
    constructor
    · intro heq
      cases heq
      exact absurd hjob hrow
    · intro heq
      obtain rfl := Option.some.inj (hold.symm.trans heq)
      exact absurd hroot hrow
  · exact Iff.rfl

/-- A page of syncs at the present generation of the volume. -/
theorem LogOrder.refresh (h : LogOrder owner g log) {ids : List FileLinkId} {volume : VolumeRow}
    {g₁ : FilesystemGraph} (hvol : g.volumes.get v = some volume) (hids : ∀ id ∈ ids, owner id = v)
    (hsync : syncLinks g volume.generation .durable ids = .ok (g₁, n)) (hrep : Represented g')
    (hframe : g' = { g₁ with pathJobs := g'.pathJobs, volumeJobs := g'.volumeJobs })
    (hjobs : Outside v g₁ g') : LogAdvances owner g log g' := by
  have hgen : currentGeneration g v = volume.generation := currentGeneration_of_get hvol
  have hstart : InOrder owner v volume.generation g log (Settled g) g := hgen ▸ InOrder.current h
  have hsynced := hstart.syncLinks h.represented.catalog hids hsync
  have hsyncs := (Isolated.refl h.outbox v).syncLinks h.represented.catalog
    (fun id hid => h.owned.not_foreign (hids id hid)) hsync
  have hlinks : g'.links = g.links := by rw [hframe, syncLinks_frame hsync]
  have hend : InOrder owner v volume.generation g log (Settled g₁) g' :=
    hsynced.still (by rw [hframe]) (by rw [hframe]) (by rw [hframe]) fun _ _ hs => hs
  refine hend.commit h hrep (h.owned.fewer fun id row hrow => hlinks ▸ hrow)
    (hsyncs.outside.trans hjobs) ?_ fun id _ hs => ?_
  · rw [hframe, syncLinks_frame hsync]
    exact hgen
  · refine hs.congr ?_ ?_ ?_ fun w => ?_
    · rw [hframe]
    · rw [hframe]
    · rw [hframe]
    · rw [hframe]
      rfl

theorem LogOrder.refreshPaths (h : LogOrder owner g log) {k : Nat}
    {summary : ProjectionRefreshSummary} (hrep : Represented g')
    (hrun : refreshProjectionPaths g k = .ok (g', summary)) : LogAdvances owner g log g' := by
  rcases refreshProjectionPaths_ok hrun with ⟨-, rfl⟩ |
    ⟨id, job, volume, g₁, n, -, hjob, hvol, hsync, hend⟩
  · exact h.advances
  have hids : ∀ x ∈ pathRefreshPage g job.rootObject.volumeId job.projectionScanCursor k,
      owner x = job.rootObject.volumeId := by
    intro x hx
    obtain ⟨⟨i, row⟩, hmem, rfl⟩ := List.mem_map.1 hx
    obtain ⟨hget, hv, -⟩ := Table.mem_page hmem
    exact (h.owned i row hget).symm.trans (beq_iff_eq.1 hv)
  have hold : g₁.pathJobs.get id = some job := by
    rw [syncLinks_frame hsync]
    exact (nextPathJob_eq_some hjob).1
  rcases hend with ⟨-, rfl⟩ | ⟨last, -, rfl⟩
  · exact h.refresh hvol hids hsync hrep rfl (.pathJobs_insert hold rfl rfl)
  · exact h.refresh hvol hids hsync hrep rfl (.pathJobs_insert hold rfl rfl)

theorem LogOrder.refreshVolume (h : LogOrder owner g log) {k : Nat}
    {summary : ProjectionRefreshSummary} (hrep : Represented g')
    (hrun : refreshVolumeProjection g k = .ok (g', summary)) : LogAdvances owner g log g' := by
  rcases refreshVolumeProjection_ok hrun with ⟨-, rfl⟩ |
    ⟨v, job, volume, g₁, n, -, -, hvol, hsync, hend⟩
  · exact h.advances
  have hids : ∀ x ∈ volumeRefreshPage g v job.projectionScanCursor k, owner x = v := by
    intro x hx
    obtain ⟨⟨d, row⟩, hmem, rfl⟩ := List.mem_map.1 hx
    obtain ⟨hget, hv, -⟩ := Table.mem_page hmem
    -- the document is of its own link, which is there and of the same object
    obtain ⟨stored, hstored, hlinkId, -⟩ := h.represented.catalog.stored d row hget
    have hid : row.fileLinkId = linkOfDocument d :=
      (layout_stored.identity stored row hstored).2.trans hlinkId
    obtain ⟨link, hlink, hkey⟩ := h.represented.catalog.link (linkOfDocument d) row
      (Set.notMem_empty _) (by rw [documentIdForLink_linkOfDocument]; exact hget)
    show owner row.fileLinkId = v
    rw [hid, ← h.owned _ link hlink, hkey]
    exact beq_iff_eq.1 hv
  rcases hend with ⟨-, rfl⟩ | ⟨last, -, rfl⟩
  · exact h.refresh hvol hids hsync hrep rfl (.volumeJobs_insert _ _ _)
  · exact h.refresh hvol hids hsync hrep rfl (.volumeJobs_insert _ _ _)

theorem LogOrder.empty (owner : FileLinkId → VolumeId) : LogOrder owner .empty [] where
  represented := represented_empty
  outbox := outboxWF_empty
  owned _ _ h := by cases h
  sequences := .nil
  below _ h := by cases h
  kept _ _ h := by cases h
  named _ h := by cases h
  versions := .nil

/-- Writes that leave the rows, the contents of the documents and the mark. -/
theorem LogOrder.unchanged (h : LogOrder owner g log) (hrep : Represented g') (hwf : OutboxWF g')
    (hmark : highWater g' = highWater g) (hlinks : g'.links = g.links)
    (hobjects : g'.objects = g.objects) (hvolumes : g'.volumes = g.volumes)
    (hcontent : ∀ d, (g'.catalog.get d).bind rowContent = (g.catalog.get d).bind rowContent)
    (hrows : ∀ n row, g'.outbox.get n = some row → g.outbox.get n = some row) :
    LogOrder owner g' log := by
  refine ⟨hrep, hwf, h.owned.fewer fun id row hrow => hlinks ▸ hrow, h.sequences, ?_,
    fun n row hrow => h.kept n row (hrows n row hrow), h.named, ?_⟩
  · rw [hmark]
    exact h.below
  · refine h.versions.raise (fun d => ?_) fun d _ hs => ?_
    · rw [currentGeneration, currentGeneration, hvolumes]
    · exact hs.congr (hcontent _) hlinks hobjects fun w => by simp only [volumeState, hvolumes]

/-- Writes to the jobs and the sessions. -/
theorem LogOrder.aside (h : LogOrder owner g log) (hrep : Represented g')
    (hframe : g' = { g with pathJobs := g'.pathJobs, sessions := g'.sessions }) :
    LogOrder owner g' log := by
  refine h.unchanged hrep ?_ ?_ ?_ ?_ ?_ (fun d => ?_) ?_
  · rw [hframe]
    exact ⟨h.outbox.rows, h.outbox.consumers⟩
  · rw [hframe]
    rfl
  · rw [hframe]
  · rw [hframe]
  · rw [hframe]
  · rw [hframe]
  · rw [hframe]
    exact fun _ _ hrow => hrow

omit [CaseMapping] in
theorem Upgraded.content (h : Upgraded g g₀) (d : DocumentId) :
    (g₀.catalog.get d).bind rowContent = (g.catalog.get d).bind rowContent := by
  rcases h.rows d with hsame | ⟨document, hcompact, hlegacy⟩
  · rw [hsame]
  · rw [hcompact, hlegacy]
    rfl

theorem LogOrder.run {op : GraphOp} (h : LogOrder owner g log) (hop : op.Respects owner)
    (hrun : op.run g = .ok g') : LogAdvances owner g log g' := by
  have hrep := h.represented.run hrun
  have hstill : LogOrder owner g' log → highWater g' = highWater g →
      LogAdvances owner g log g' := by
    intro hlog hmark
    refine ⟨?_, hmark.ge⟩
    rw [← hmark, outboxAfter_highWater hlog.outbox, List.append_nil]
    exact hlog
  have hpruned : (g' = g ∨ ∃ p, Prunes g p ∧ g' = { g with outbox := g.outbox.deleteWhere p }) →
      LogAdvances owner g log g' := by
    rintro (rfl | ⟨p, -, rfl⟩)
    · exact h.advances
    · refine hstill (h.unchanged hrep (h.outbox.deleteWhere p) rfl rfl rfl rfl (fun _ => rfl) ?_) rfl
      intro n row hrow
      exact ((Table.get_deleteWhere _ _ _ _).1 hrow).1
  cases op with
  | applyBatch batch =>
    obtain ⟨summary, hrun⟩ := map_fst_ok.mp hrun
    exact h.batch hop hrun
  | applyRebuildableBatch batch =>
    obtain ⟨summary, hrun⟩ := map_fst_ok.mp hrun
    exact h.batch hop hrun
  | beginObservationScan descriptor m reason =>
    obtain ⟨session, hrun⟩ := map_fst_ok.mp hrun
    exact h.begin hrun
  | applyObservationScanPage v events =>
    obtain ⟨summary, hrun⟩ := map_fst_ok.mp hrun
    obtain ⟨-, -, -, ⟨rfl, rfl⟩ | ⟨checkpoint, hbatch⟩⟩ := applyObservationScanPage_ok hrun
    · exact h.advances
    · refine h.batch ?_ hbatch
      exact hop
  | stageObservationCheckpoint v checkpoint =>
    obtain ⟨session, -, -, rfl⟩ := stageObservationCheckpoint_ok hrun
    exact hstill (h.aside hrep rfl) rfl
  | finalizeObservationScan v k =>
    obtain ⟨summary, hrun⟩ := map_fst_ok.mp hrun
    exact h.finalize hrun
  | refreshProjectionPaths k =>
    obtain ⟨summary, hrun⟩ := map_fst_ok.mp hrun
    exact h.refreshPaths hrep hrun
  | refreshVolumeProjection k =>
    obtain ⟨summary, hrun⟩ := map_fst_ok.mp hrun
    exact h.refreshVolume hrep hrun
  | acknowledgeProjection consumer sequence generation =>
    have hwf := h.outbox.acknowledgeProjection hrun
    obtain ⟨-, -, -, -, rfl⟩ := acknowledgeProjection_ok.mp hrun
    exact hstill (h.unchanged hrep hwf rfl rfl rfl rfl (fun _ => rfl) fun _ _ hrow => hrow) rfl
  | resetProjectionConsumer consumer =>
    obtain rfl := Except.ok.inj hrun
    exact hstill (h.unchanged hrep (h.outbox.resetProjectionConsumer consumer) rfl rfl rfl rfl
      (fun _ => rfl) fun _ _ hrow => hrow) rfl
  | pruneConsumedOutbox =>
    obtain rfl := Except.ok.inj hrun
    exact hpruned (pruneConsumedOutbox_prunes g)
  | pruneRebuildableOutboxBounded k allow =>
    obtain ⟨summary, hrun⟩ := map_fst_ok.mp hrun
    exact hpruned (pruneRebuildableOutboxBounded_prunes hrun)
  | completeRefreshJob id =>
    obtain rfl := Except.ok.inj hrun
    have hframe : (completeRefreshJob g id).1 =
        { g with pathJobs := (completeRefreshJob g id).1.pathJobs } := by
      unfold completeRefreshJob
      split
      · split_ifs <;> rfl
      · rfl
    have hmark : highWater (completeRefreshJob g id).1 = highWater g := by rw [hframe]; rfl
    exact hstill (h.aside hrep (by rw [hframe])) hmark
  | compactLegacyDesiredPayloadsBounded k =>
    obtain ⟨⟨n, more⟩, hrun⟩ := map_fst_ok.mp hrun
    have hupgraded := (h.represented.compactLegacyDesiredPayloadsBounded hrun).2
    have hframe : g' = { g with catalog := g'.catalog } := by rw [hupgraded.frame]
    have hmark : highWater g' = highWater g := by rw [hframe]; rfl
    refine hstill (h.unchanged hrep ?_ hmark ?_ ?_ ?_ (fun d => (hupgraded.content d).symm) ?_) hmark
    · rw [hframe]
      exact ⟨h.outbox.rows, h.outbox.consumers⟩
    · rw [hframe]
    · rw [hframe]
    · rw [hframe]
    · rw [hframe]
      exact fun _ _ hrow => hrow

theorem LogOrder.step {s s' : FilesystemGraph × List (Nat × OutboxRow)} (h : LogOrder owner s.1 s.2)
    (hstep : LogStep owner s s') :
    LogOrder owner s'.1 s'.2 ∧ highWater s.1 ≤ highWater s'.1 ∧ s.2 <+: s'.2 := by
  cases hstep with
  | @older g g₀ log hold =>
    have hmark : highWater g₀ = highWater g := by rw [hold.frame]; rfl
    refine ⟨h.unchanged (h.represented.upgraded hold) ?_ hmark ?_ ?_ ?_ hold.content ?_, hmark.ge,
      List.prefix_refl _⟩
    · rw [hold.frame]
      exact ⟨h.outbox.rows, h.outbox.consumers⟩
    · rw [hold.frame]
    · rw [hold.frame]
    · rw [hold.frame]
    · rw [hold.frame]
      exact fun _ _ hrow => hrow
  | @write g g' log op hop hrun =>
    have hadvances := h.run hop hrun
    exact ⟨hadvances.order, hadvances.mark, List.prefix_append _ _⟩

theorem LogOrder.logRun {s s' : FilesystemGraph × List (Nat × OutboxRow)}
    (h : LogOrder owner s.1 s.2) (hrun : LogRun owner s s') :
    LogOrder owner s'.1 s'.2 ∧ highWater s.1 ≤ highWater s'.1 ∧ s.2 <+: s'.2 := by
  induction hrun with
  | refl => exact ⟨h, le_refl _, List.prefix_refl _⟩
  | tail _ hstep ih =>
    obtain ⟨horder, hmark, hbegins⟩ := ih
    obtain ⟨horder', hmark', hbegins'⟩ := horder.step hstep
    exact ⟨horder', hmark.trans hmark', hbegins.trans hbegins'⟩

/-- In every run that uses each link identity with one volume, whatever it
prunes: sequences are handed out once and in order, the newest sequence never
falls, and along the sequences the versions of every document increase. -/
theorem outbox_order_is_version_order {log' : List (Nat × OutboxRow)}
    (h : LogRun owner (.empty, []) (g, log)) (h' : LogRun owner (g, log) (g', log')) :
    latestOutboxSequence g ≤ latestOutboxSequence g' ∧ log <+: log' ∧
      (∀ n row, g'.outbox.get n = some row → (n, row) ∈ log') ∧
      log'.Pairwise (fun a b => a.1 < b.1) ∧
      log'.Pairwise fun a b => a.2.mutation.documentId = b.2.mutation.documentId →
        a.2.mutation.documentVersion < b.2.mutation.documentVersion := by
  obtain ⟨hlog, -, -⟩ := (LogOrder.empty owner).logRun h
  obtain ⟨hlog', hmark, hbegins⟩ := hlog.logRun h'
  rw [latestOutboxSequence_eq hlog.outbox, latestOutboxSequence_eq hlog'.outbox]
  refine ⟨hmark, hbegins, hlog'.kept, hlog'.sequences, ?_⟩
  refine (List.pairwise_map.1 hlog'.versions.increasing).imp_of_mem fun {a b} ha hb hlt heq => ?_
  obtain ⟨hdocument, hversion⟩ := hlog'.named a ha
  obtain ⟨hdocument', hversion'⟩ := hlog'.named b hb
  rw [hversion, hversion']
  exact hlt (hdocument.symm.trans (heq.trans hdocument'))

end Transactions

section Example

attribute [local instance] asciiCaseMapping

def runLogged : FilesystemGraph × List (Nat × OutboxRow) → List GraphOp →
    GraphResult (FilesystemGraph × List (Nat × OutboxRow))
  | s, [] => .ok s
  | s, op :: ops => do
      let g ← op.run s.1
      runLogged (g, s.2 ++ outboxAfter g (highWater s.1)) ops

theorem runLogged_logRun {owner : FileLinkId → VolumeId} {ops : List GraphOp}
    {s s' : FilesystemGraph × List (Nat × OutboxRow)} (hops : ∀ op ∈ ops, op.Respects owner)
    (h : runLogged s ops = .ok s') : LogRun owner s s' := by
  induction ops generalizing s with
  | nil =>
    obtain rfl := Except.ok.inj h
    exact .refl
  | cons op ops ih =>
    obtain ⟨g, hrun, hrest⟩ := bind_ok.mp h
    exact .head (.write op (hops op List.mem_cons_self) hrun)
      (ih (fun x hx => hops x (List.mem_cons_of_mem _ hx)) hrest)

/-- A tree, a rename with its refresh, and a consumer that reads it all. -/
def drainedOps : List GraphOp :=
  [.applyBatch (sampleBatch sampleTree),
    .applyBatch (sampleBatch [.upsertLink (sampleLink 8 2 (some 1) "e") false]),
    .refreshProjectionPaths 10, .acknowledgeProjection "catalog" 7 1, .pruneConsumedOutbox]

/-- The consumer is gone and the directory is renamed back. -/
def laterOps : List GraphOp :=
  [.resetProjectionConsumer "catalog",
    .applyBatch (sampleBatch [.upsertLink (sampleLink 8 2 (some 1) "d") false])]

def drainedRun : FilesystemGraph × List (Nat × OutboxRow) :=
  (runLogged (.empty, []) drainedOps).toOption.getD (.empty, [])

def laterRun : FilesystemGraph × List (Nat × OutboxRow) :=
  (runLogged drainedRun laterOps).toOption.getD (.empty, [])

theorem drainedRun_ordered :
    drainedRun.1.outbox.rows = [] ∧ laterRun.2.map (·.1) = [1, 2, 3, 4, 5, 6, 7, 8] ∧
      laterRun.2.map (·.2.documentVersion) = [1, 1, 1, 1, 2, 2, 2, 3] ∧
      latestOutboxSequence drainedRun.1 ≤ latestOutboxSequence laterRun.1 ∧
      laterRun.2.Pairwise fun a b => a.2.mutation.documentId = b.2.mutation.documentId →
        a.2.mutation.documentVersion < b.2.mutation.documentVersion := by
  have hdrained : runLogged (.empty, []) drainedOps = .ok drainedRun := by decide
  have hlater : runLogged drainedRun laterOps = .ok laterRun := by decide
  have huses : ∀ ops : List GraphOp, (∀ op ∈ ops, ∀ m ∈ op.mutations, ∀ use ∈ m.linkUse,
      use.2 = sampleVolume) → ∀ op ∈ ops, op.Respects fun _ => sampleVolume :=
    fun ops h op hop m hm use huse => (h op hop m hm use huse).symm
  obtain ⟨hlatest, -, -, -, hversions⟩ := outbox_order_is_version_order
    (runLogged_logRun (huses drainedOps (by decide)) hdrained)
    (runLogged_logRun (huses laterOps (by decide)) hlater)
  exact ⟨by decide, by decide, by decide, hlatest, hversions⟩

end Example

end LocalSearch.Graph
