import LocalSearch.Graph.Transaction
import LocalSearch.Lib.Replay

/-!
# Reading desired state

On a well-formed graph every desired row joins with its link, object and
volume, so the readers return one document per row, in document order, and a
page is a prefix of the documents behind its cursor.
-/
namespace LocalSearch.Graph

set_option autoImplicit false

open Core Lib

variable [CaseMapping]

/-- A reader of desired state sees the document. -/
def Desired (g : FilesystemGraph) (document : CatalogDocument) : Prop :=
  ∃ row, g.catalog.get document.identity.documentId = some row ∧
    joinedDocument g document.identity.documentId row = some (.ok document)

/-- The document a compact row joins to. -/
def viewDocument (d : DocumentId) (stored : CatalogDocument) (link : LinkRow) (object : ObjectRow)
    (volume : VolumeRow) : CatalogDocument where
  identity := ⟨stored.identity.objectKey, stored.identity.fileLinkId, d⟩
  documentVersion := stored.documentVersion
  name := link.name
  resolvedPath := stored.resolvedPath
  extension := extensionForName link.name
  metadata := { object.metadata with
    availability := effectiveAvailability volume.state object.metadata.availability }

section Rows

variable {g : FilesystemGraph}

/-- Every desired row of a well-formed graph joins. -/
theorem joinedDocument_view (hwf : WellFormed g) {d : DocumentId} {row : CatalogRow}
    (hrow : g.catalog.get d = some row) :
    ∃ stored link object volume, row = compactRow stored ∧
      stored.identity = ⟨link.objectKey, linkOfDocument d, d⟩ ∧
      g.links.get (linkOfDocument d) = some link ∧ g.objects.get link.objectKey = some object ∧
      g.volumes.get link.objectKey.volumeId = some volume ∧
      joinedDocument g d row = some (.ok (viewDocument d stored link object volume)) := by
  obtain ⟨stored, rfl, hid, hd⟩ := hwf.catalog.compact d row hrow
  obtain ⟨link, hlink, hkey⟩ :=
    hwf.catalog.link (linkOfDocument d) _ (Set.notMem_empty _) (by simpa using hrow)
  obtain ⟨object, hobj, -⟩ := hwf.names.linkObject _ link hlink
  obtain ⟨volume, hvol⟩ := Option.isSome_iff_exists.mp (hwf.names.objectVolume _ _ hobj)
  have hkey' : stored.identity.objectKey = link.objectKey := hkey.symm
  have hident : stored.identity = ⟨link.objectKey, linkOfDocument d, d⟩ := by
    rw [← hkey', ← hid]
    conv_rhs => rw [← hd]
  refine ⟨stored, link, object, volume, rfl, hident, hlink, hobj, hvol, ?_⟩
  simp [joinedDocument, compactRow, hid, hkey', hlink, hobj, hvol, intoDocument, viewDocument]

omit [CaseMapping] in
theorem collectDocuments_ok (documents : List CatalogDocument) :
    collectDocuments (documents.map Except.ok) = .ok documents := by
  induction documents with
  | nil => rfl
  | cons document rest ih => exact bind_ok.mpr ⟨document, rfl, bind_ok.mpr ⟨rest, ih, rfl⟩⟩

omit [CaseMapping] in
/-- A list of rows that all join reads as the list of their documents. -/
theorem filterMap_joined {α : Type} {f : α → Option (GraphResult CatalogDocument)} {rows : List α}
    (h : ∀ x ∈ rows, ∃ document, f x = some (.ok document)) :
    ∃ documents : List CatalogDocument, rows.filterMap f = documents.map Except.ok ∧
      List.Forall₂ (fun x document => f x = some (.ok document)) rows documents := by
  induction rows with
  | nil => exact ⟨[], rfl, .nil⟩
  | cons x rest ih =>
    obtain ⟨document, hx⟩ := h x List.mem_cons_self
    obtain ⟨documents, hmap, hall⟩ := ih fun y hy => h y (List.mem_cons_of_mem _ hy)
    exact ⟨document :: documents, by rw [List.filterMap_cons_some hx, hmap]; rfl, .cons hx hall⟩

omit [CaseMapping] in
theorem pairwise_of_forall₂ {α β : Type} {R : α → β → Prop} {S : α → α → Prop} {T : β → β → Prop}
    (hST : ∀ a a' b b', R a b → R a' b' → S a a' → T b b') {as : List α} {bs : List β}
    (h : List.Forall₂ R as bs) (hs : as.Pairwise S) : bs.Pairwise T := by
  induction h with
  | nil => exact .nil
  | @cons a b as bs hab hrest ih =>
    rw [List.pairwise_cons] at hs ⊢
    refine ⟨fun b' hb' => ?_, ih hs.2⟩
    obtain ⟨i, hi, rfl⟩ := List.getElem_of_mem hb'
    have hi' : i < as.length := by rw [hrest.length_eq]; exact hi
    exact hST a as[i] b bs[i] hab (hrest.get hi' hi) (hs.1 _ (List.getElem_mem hi'))

/-- The joined rows behind a cursor are the desired documents behind it, in
document order. -/
theorem joinedRows_eq (hwf : WellFormed g) (after : Option DocumentId) :
    ∃ documents : List CatalogDocument, joinedRows g after = documents.map Except.ok ∧
      documents.Pairwise (fun a b => a.identity.documentId < b.identity.documentId) ∧
      ∀ document, document ∈ documents ↔
        Table.After after document.identity.documentId ∧ Desired g document := by
  set rows := g.catalog.select fun id _ => decide (Table.After after id) with hrows
  have hmem : ∀ d row, (d, row) ∈ rows ↔ g.catalog.get d = some row ∧ Table.After after d := by
    intro d row
    rw [hrows, Table.mem_select, decide_eq_true_eq]
  have hjoin : ∀ x ∈ rows, ∃ document, joinedDocument g x.1 x.2 = some (.ok document) := by
    rintro ⟨d, row⟩ hx
    obtain ⟨stored, link, object, volume, -, -, -, -, -, h⟩ :=
      joinedDocument_view hwf ((hmem d row).mp hx).1
    exact ⟨_, h⟩
  have hident : ∀ x ∈ rows, ∀ document, joinedDocument g x.1 x.2 = some (.ok document) →
      document.identity.documentId = x.1 := by
    rintro ⟨d, row⟩ hx document hdoc
    obtain ⟨stored, link, object, volume, -, -, -, -, -, h⟩ :=
      joinedDocument_view hwf ((hmem d row).mp hx).1
    rw [h] at hdoc
    rw [← Except.ok.inj (Option.some.inj hdoc)]
    rfl
  obtain ⟨documents, hmap, hall⟩ := filterMap_joined hjoin
  have hzip : List.Forall₂ (fun x document => x ∈ rows ∧
      joinedDocument g x.1 x.2 = some (.ok document)) rows documents := by
    refine List.forall₂_iff_zip.mpr ⟨hall.length_eq, fun {a b} hab => ⟨?_, ?_⟩⟩
    · exact (List.of_mem_zip hab).1
    · exact (List.forall₂_iff_zip.mp hall).2 hab
  refine ⟨documents, hmap, ?_, fun document => ?_⟩
  · refine pairwise_of_forall₂ ?_ hzip (Table.select_sorted _ _)
    rintro x x' a a' ⟨hx, ha⟩ ⟨hx', ha'⟩ hlt
    rw [hident x hx a ha, hident x' hx' a' ha']
    exact hlt
  · have hiff : document ∈ documents ↔
        ∃ x ∈ rows, joinedDocument g x.1 x.2 = some (.ok document) := by
      have h := congrArg (fun l => Except.ok document ∈ l) hmap
      simp only [List.mem_filterMap, List.mem_map, eq_iff_iff] at h
      refine Iff.trans ?_ h.symm
      exact ⟨fun hm => ⟨document, hm, rfl⟩, fun ⟨d, hm, he⟩ => Except.ok.inj he ▸ hm⟩
    rw [hiff]
    constructor
    · rintro ⟨⟨d, row⟩, hx, hdoc⟩
      have hd := hident (d, row) hx document hdoc
      obtain ⟨hget, hafter⟩ := (hmem d row).mp hx
      rw [Desired, hd]
      exact ⟨hafter, row, hget, hdoc⟩
    · rintro ⟨hafter, row, hget, hdoc⟩
      exact ⟨(_, row), (hmem _ _).mpr ⟨hget, hafter⟩, hdoc⟩

theorem desiredCatalogDocuments_ok (hwf : WellFormed g) :
    ∃ documents, desiredCatalogDocuments g = .ok documents ∧
      documents.Pairwise (fun a b => a.identity.documentId < b.identity.documentId) ∧
      ∀ document, document ∈ documents ↔ Desired g document := by
  obtain ⟨documents, hrows, hsorted, hmem⟩ := joinedRows_eq hwf none
  refine ⟨documents, by rw [desiredCatalogDocuments, hrows, collectDocuments_ok], hsorted, ?_⟩
  intro document
  rw [hmem document]
  exact ⟨fun h => h.2, fun h => ⟨Table.after_none _, h⟩⟩

/-- A page is the front of the desired documents behind its cursor. -/
theorem desiredCatalogPage_ok (hwf : WellFormed g) {after : Option DocumentId} {limit : Nat}
    {page : List CatalogDocument} (h : desiredCatalogPage g after limit = .ok page) :
    page.Pairwise (fun a b => a.identity.documentId < b.identity.documentId) ∧
      (∀ document ∈ page, Table.After after document.identity.documentId ∧ Desired g document) ∧
      ∀ document, Desired g document → Table.After after document.identity.documentId →
        document ∈ page ∨ (page.length = limit ∧
          ∀ x ∈ page, x.identity.documentId < document.identity.documentId) := by
  obtain ⟨documents, hrows, hsorted, hmem⟩ := joinedRows_eq hwf after
  rw [desiredCatalogPage, hrows, ← List.map_take, collectDocuments_ok] at h
  obtain rfl := Except.ok.inj h
  refine ⟨hsorted.sublist (List.take_sublist _ _), fun document hdoc => ?_, fun document hd ha => ?_⟩
  · exact (hmem document).mp (List.mem_of_mem_take hdoc)
  · have hdoc : document ∈ documents := (hmem document).mpr ⟨ha, hd⟩
    rw [← List.take_append_drop limit documents] at hdoc hsorted
    rcases List.mem_append.mp hdoc with hdoc | hdoc
    · exact Or.inl hdoc
    · have hlen : limit ≤ documents.length := by
        by_contra hlt
        rw [List.drop_eq_nil_of_le (by omega)] at hdoc
        cases hdoc
      refine Or.inr ⟨List.length_take_of_le hlen, fun x hx => ?_⟩
      exact (List.pairwise_append.mp hsorted).2.2 x hx document hdoc

theorem desiredCatalogPage_length_le (hwf : WellFormed g) {after : Option DocumentId} {limit : Nat}
    {page : List CatalogDocument} (h : desiredCatalogPage g after limit = .ok page) :
    page.length ≤ limit := by
  obtain ⟨documents, hrows, -, -⟩ := joinedRows_eq hwf after
  rw [desiredCatalogPage, hrows, ← List.map_take, collectDocuments_ok] at h
  obtain rfl := Except.ok.inj h
  exact List.length_take_le _ _

/-- Behind the last of a front of the desired documents stand the others. -/
theorem desiredCatalogPage_rest (hwf : WellFormed g) {front rest : List CatalogDocument}
    (h : desiredCatalogDocuments g = .ok (front ++ rest)) (limit : Nat) :
    desiredCatalogPage g (front.getLast?.map (·.identity.documentId)) limit = .ok (rest.take limit) := by
  obtain ⟨documents, hall, hsorted, hmem⟩ := desiredCatalogDocuments_ok hwf
  obtain rfl := Except.ok.inj (hall.symm.trans h)
  obtain ⟨hfront, hrest, hcross⟩ := List.pairwise_append.mp hsorted
  obtain ⟨behind, hrows, hbehind, hafter⟩ :=
    joinedRows_eq hwf (front.getLast?.map (·.identity.documentId))
  have hsame : ∀ document, document ∈ behind ↔ document ∈ rest := by
    intro document
    rw [hafter, ← hmem, List.mem_append]
    constructor
    · rintro ⟨hcursor, hin | hin⟩
      · obtain ⟨last, hlast⟩ := Option.ne_none_iff_exists'.mp
          (mt List.getLast?_eq_none_iff.mp (List.ne_nil_of_mem hin))
        rw [hlast] at hcursor
        exact absurd (Table.after_some.mp hcursor)
          (not_lt.mpr (Table.le_last_of_sorted hfront hlast hin))
      · exact hin
    · intro hin
      refine ⟨fun cursor hcursor => ?_, .inr hin⟩
      obtain ⟨last, hlast, rfl⟩ := Option.map_eq_some_iff.mp hcursor
      exact hcross last (List.mem_of_getLast? hlast) document hin
  have hirreflexive : ∀ {l : List CatalogDocument},
      (l.Pairwise fun a b => a.identity.documentId < b.identity.documentId) → l.Nodup :=
    fun hl => List.Pairwise.imp (fun h => ne_of_apply_ne (·.identity.documentId) (ne_of_lt h)) hl
  have heq : behind = rest := by
    refine List.Perm.eq_of_pairwise (fun a b _ _ hab hba => absurd hba (lt_asymm hab)) hbehind hrest ?_
    exact (List.perm_ext_iff_of_nodup (hirreflexive hbehind) (hirreflexive hrest)).mpr hsame
  rw [desiredCatalogPage, hrows, heq, ← List.map_take, collectDocuments_ok]

theorem exists_desired (hwf : WellFormed g) {d : DocumentId} {row : CatalogRow}
    (hrow : g.catalog.get d = some row) :
    ∃ document, Desired g document ∧ document.identity.documentId = d := by
  obtain ⟨stored, link, object, volume, -, -, -, -, -, hview⟩ := joinedDocument_view hwf hrow
  exact ⟨viewDocument d stored link object volume, ⟨row, hrow, hview⟩, rfl⟩

/-- The reader of one document. -/
theorem desiredCatalogDocument_cases (hwf : WellFormed g) (d : DocumentId) :
    (g.catalog.get d = none ∧ desiredCatalogDocument g d = .ok none) ∨
      ∃ document, desiredCatalogDocument g d = .ok (some document) ∧ Desired g document ∧
        document.identity.documentId = d := by
  cases hrow : g.catalog.get d with
  | none =>
    refine Or.inl ⟨rfl, ?_⟩
    rw [desiredCatalogDocument, hrow]
    rfl
  | some row =>
    obtain ⟨stored, link, object, volume, -, -, -, -, -, hview⟩ := joinedDocument_view hwf hrow
    refine Or.inr ⟨viewDocument d stored link object volume, ?_, ⟨row, hrow, hview⟩, rfl⟩
    rw [desiredCatalogDocument, hrow, Option.bind_some, hview]
    rfl

/-- A desired document belongs to a present link of its object. -/
theorem Desired.link (hwf : WellFormed g) {document : CatalogDocument} (h : Desired g document) :
    document.identity.documentId = documentIdForLink document.identity.fileLinkId ∧
      ∃ row, g.links.get document.identity.fileLinkId = some row ∧
        row.objectKey = document.identity.objectKey := by
  obtain ⟨row, hrow, hjoin⟩ := h
  obtain ⟨stored, link, object, volume, rfl, hident, hlink, -, -, hview⟩ := joinedDocument_view hwf hrow
  rw [hview] at hjoin
  have hdoc := Except.ok.inj (Option.some.inj hjoin)
  have hid : document.identity =
      ⟨link.objectKey, linkOfDocument document.identity.documentId, document.identity.documentId⟩ := by
    conv_lhs => rw [← hdoc]
    simp only [viewDocument, hident]
  rw [hid]
  exact ⟨rfl, link, hlink, rfl⟩

/-- A desired document is named after its link. -/
theorem Desired.name (hwf : WellFormed g) {document : CatalogDocument} (h : Desired g document)
    {row : LinkRow} (hrow : g.links.get document.identity.fileLinkId = some row) :
    document.name = row.name := by
  obtain ⟨hid, -⟩ := h.link hwf
  obtain ⟨crow, hcrow, hjoin⟩ := h
  obtain ⟨stored, link, object, volume, -, -, hlink, -, -, hview⟩ := joinedDocument_view hwf hcrow
  rw [hid, linkOfDocument_documentIdForLink, hrow] at hlink
  rw [hview] at hjoin
  rw [← Except.ok.inj (Option.some.inj hjoin), Option.some.inj hlink]
  rfl

end Rows

end LocalSearch.Graph
