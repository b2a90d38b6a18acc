import LocalSearch.Graph.Schema
import LocalSearch.Lib.Replay
import LocalSearch.Lib.Keyed

/-!
# The materialized catalog

One generation of the catalog index, as the live documents of its last commit.
Inside one commit a deleted term takes every document added before it, and the
commit is atomic; nothing else of the search engine matters here.
-/
namespace LocalSearch.Catalog

set_option autoImplicit false

open Core Lib Graph

/-- Catalog failures a writer can report on a canonical document. -/
inductive CatalogIndexError where
  | poison (detail : String)
  deriving DecidableEq, Repr

def documentIdFromLink (document : CatalogDocument) : DocumentId :=
  documentIdForLink document.identity.fileLinkId

namespace CatalogWriter

def poisonedIdentity : CatalogIndexError :=
  .poison "document ID must be derived from the file-link ID"

/-- `delete_term` on the document id. -/
def delete (documents : List CatalogDocument) (documentId : DocumentId) : List CatalogDocument :=
  documents.filter (·.identity.documentId ≠ documentId)

def apply (documents : List CatalogDocument) :
    IndexMutation → Except CatalogIndexError (List CatalogDocument)
  | .upsert document =>
      if document.identity.documentId ≠ documentIdFromLink document then .error poisonedIdentity
      else .ok (delete documents document.identity.documentId ++ [document])
  | .delete documentId _ => .ok (delete documents documentId)

def addCurrent (documents : List CatalogDocument) (document : CatalogDocument) :
    Except CatalogIndexError (List CatalogDocument) :=
  if document.identity.documentId ≠ documentIdFromLink document then .error poisonedIdentity
  else .ok (documents ++ [document])

/-- The mutations of one batch, staged for one commit. -/
def applyAll : List CatalogDocument → List IndexMutation →
    Except CatalogIndexError (List CatalogDocument)
  | documents, [] => .ok documents
  | documents, mutation :: rest => do
      let documents ← apply documents mutation
      applyAll documents rest

/-- One page of a rebuild, staged for its single commit. -/
def addAll : List CatalogDocument → List CatalogDocument →
    Except CatalogIndexError (List CatalogDocument)
  | documents, [] => .ok documents
  | documents, document :: rest => do
      let documents ← addCurrent documents document
      addAll documents rest

end CatalogWriter

/-- The document a lookup by id finds. -/
def indexMap (documents : List CatalogDocument) (documentId : DocumentId) : Option CatalogDocument :=
  documents.find? (·.identity.documentId = documentId)

/-- No document id has two live documents. -/
def UniqueDocuments (documents : List CatalogDocument) : Prop :=
  (documents.map (·.identity.documentId)).Nodup

section Writer

variable {documents documents' : List CatalogDocument}

theorem indexMap_of_mem (hunique : UniqueDocuments documents) {document : CatalogDocument}
    (h : document ∈ documents) : indexMap documents document.identity.documentId = some document :=
  lookup_of_mem hunique h

theorem indexMap_eq_none {d : DocumentId} :
    indexMap documents d = none ↔ ∀ document ∈ documents, document.identity.documentId ≠ d :=
  lookup_eq_none

/-- Applying a mutation is one write to the map. -/
theorem indexMap_apply {mutation : IndexMutation}
    (h : CatalogWriter.apply documents mutation = .ok documents') :
    indexMap documents' = Function.update (indexMap documents) mutation.write.1 mutation.write.2 := by
  cases mutation with
  | delete d version =>
    obtain rfl := Except.ok.inj h
    exact lookup_remove documents d
  | upsert document =>
    rw [CatalogWriter.apply, guard_ok] at h
    obtain rfl := Except.ok.inj h.2
    exact lookup_replace documents document

theorem indexMap_applyAll {mutations : List IndexMutation}
    (h : CatalogWriter.applyAll documents mutations = .ok documents') :
    indexMap documents' = replay (indexMap documents) (mutations.map (·.write)) := by
  induction mutations generalizing documents with
  | nil => obtain rfl := Except.ok.inj h; rfl
  | cons mutation rest ih =>
    obtain ⟨staged, hstaged, hrest⟩ := bind_ok.mp h
    rw [ih hrest, indexMap_apply hstaged]
    rfl

theorem uniqueDocuments_apply {mutation : IndexMutation} (hunique : UniqueDocuments documents)
    (h : CatalogWriter.apply documents mutation = .ok documents') : UniqueDocuments documents' := by
  cases mutation with
  | delete d version =>
    obtain rfl := Except.ok.inj h
    exact nodup_remove hunique d
  | upsert document =>
    rw [CatalogWriter.apply, guard_ok] at h
    obtain rfl := Except.ok.inj h.2
    exact nodup_replace hunique

theorem uniqueDocuments_applyAll {mutations : List IndexMutation} (hunique : UniqueDocuments documents)
    (h : CatalogWriter.applyAll documents mutations = .ok documents') :
    UniqueDocuments documents' := by
  induction mutations generalizing documents with
  | nil => obtain rfl := Except.ok.inj h; exact hunique
  | cons mutation rest ih =>
    obtain ⟨staged, hstaged, hrest⟩ := bind_ok.mp h
    exact ih (uniqueDocuments_apply hunique hstaged) hrest

end Writer

end LocalSearch.Catalog
