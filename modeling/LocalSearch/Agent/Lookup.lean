import LocalSearch.Agent.Dispatch
import LocalSearch.Agent.Maintenance
import LocalSearch.Agent.SearchWindow
import LocalSearch.Graph.Desired

/-!
# What is found and what is current

A lookup answers from the graph, a content search from what its index finds as far as
the graph still desires it, and a catalog search from the cached reader alone. Once
maintenance has caught up, what a search finds can be looked up as it was found.
-/
namespace LocalSearch.Agent

set_option autoImplicit false

open Core Lib Graph Catalog Governor AgentApi
open Desktop (AgentWireError CatalogItem SearchResponse ContentSearchHit ContentSearchResponse)

section Lookup

variable [CaseMapping] {g : FilesystemGraph} {around : RequestSurroundings}

/-- A lookup in a well-formed graph finds the desired document of the identifier. -/
theorem desiredCatalogDocument_ok (hwf : WellFormed g) (documentId : DocumentId) :
    ∃ found, desiredCatalogDocument g documentId = .ok found ∧
      ∀ document, found = some document ↔
        Desired g document ∧ document.identity.documentId = documentId := by
  cases hrow : g.catalog.get documentId with
  | none =>
    refine ⟨none, by rw [desiredCatalogDocument, hrow]; rfl, fun document => ?_⟩
    constructor
    · intro h
      cases h
    · intro h
      obtain ⟨⟨row, hdesired, -⟩, hid⟩ := h
      rw [hid, hrow] at hdesired
      cases hdesired
  | some row =>
    obtain ⟨stored, link, object, volume, -, -, -, -, -, hjoin⟩ := joinedDocument_view hwf hrow
    refine ⟨some (viewDocument documentId stored link object volume), ?_, fun document => ?_⟩
    · rw [desiredCatalogDocument, hrow, Option.bind_some, hjoin]
      rfl
    · constructor
      · intro h
        obtain rfl := Option.some.inj h
        exact ⟨⟨row, hrow, hjoin⟩, rfl⟩
      · intro h
        obtain ⟨⟨row', hrow', hjoin'⟩, hid⟩ := h
        rw [hid] at hrow' hjoin'
        obtain rfl := Option.some.inj (hrow.symm.trans hrow')
        rw [hjoin] at hjoin'
        rw [Except.ok.inj (Option.some.inj hjoin')]

/-- What a lookup finds, if anything. -/
def currentItem (g : FilesystemGraph) (documentId : DocumentId) : Option CatalogItem :=
  ((desiredCatalogDocument g documentId).toOption.bind id).map itemFromDocument

theorem currentItem_eq_some (hwf : WellFormed g) {documentId : DocumentId} {item : CatalogItem} :
    currentItem g documentId = some item ↔
      ∃ document, Desired g document ∧ document.identity.documentId = documentId ∧
        item = itemFromDocument document := by
  obtain ⟨found, hlookup, hfound⟩ := desiredCatalogDocument_ok hwf documentId
  rw [currentItem, hlookup]
  show found.map itemFromDocument = some item ↔ _
  constructor
  · intro h
    obtain ⟨document, hdocument, rfl⟩ := Option.map_eq_some_iff.mp h
    obtain ⟨hdesired, hid⟩ := (hfound document).mp hdocument
    exact ⟨document, hdesired, hid, rfl⟩
  · intro h
    obtain ⟨document, hdesired, hid, hitem⟩ := h
    rw [(hfound document).mpr ⟨hdesired, hid⟩, hitem]
    rfl

theorem currentItem_documentId (hwf : WellFormed g) {documentId : DocumentId} {item : CatalogItem}
    (h : currentItem g documentId = some item) : item.documentId = documentId := by
  obtain ⟨document, -, hid, rfl⟩ := (currentItem_eq_some hwf).mp h
  exact hid

theorem getCatalogItem_eq {s : AgentService} (hwf : WellFormed s.files.graph)
    (hopens : around.graphOpens = true) (documentId : DocumentId) :
    s.getCatalogItem around documentId = match currentItem s.files.graph documentId with
      | none => .error ⟨.notFound, "catalog item is not current"⟩
      | some item => .ok item := by
  obtain ⟨found, hlookup, -⟩ := desiredCatalogDocument_ok hwf documentId
  unfold AgentService.getCatalogItem AgentService.openGraph currentItem
  rw [if_pos hopens, ok_bind, hlookup]
  cases found <;> rfl

/-- Looking identifiers up together omits the ones that are not current. -/
theorem currentItems_eq (hwf : WellFormed g) (documentIds : List DocumentId) :
    AgentService.currentItems g documentIds = .ok (documentIds.filterMap (currentItem g)) := by
  induction documentIds with
  | nil => rfl
  | cons documentId rest ih =>
    obtain ⟨found, hlookup, -⟩ := desiredCatalogDocument_ok hwf documentId
    rw [AgentService.currentItems, hlookup, ih, List.filterMap_cons, currentItem, hlookup]
    cases found <;> rfl

/-- The hits for the current ones among the candidates, in their order. -/
def hitsFrom (start : Nat) (items : List CatalogItem) : List ContentSearchHit :=
  items.mapIdx fun index item => ⟨item, min (start + index + 1) (2 ^ 32 - 1)⟩

omit [CaseMapping] in
theorem hitsFrom_cons (start : Nat) (item : CatalogItem) (rest : List CatalogItem) :
    hitsFrom start (item :: rest) =
      ⟨item, min (start + 1) (2 ^ 32 - 1)⟩ :: hitsFrom (start + 1) rest := by
  rw [hitsFrom, List.mapIdx_cons, hitsFrom]
  congr 1
  refine List.ext_getElem (by simp) fun index _ _ => ?_
  simp only [List.getElem_mapIdx, ContentSearchHit.mk.injEq, true_and]
  omega

theorem currentHits_interrupted (hwf : WellFormed g) (index : Nat) (candidates : List CatalogDocument)
    (hits : List ContentSearchHit) :
    Interrupted around.Stops
      (.ok (hits ++ hitsFrom hits.length
        (candidates.filterMap fun candidate => currentItem g candidate.identity.documentId)))
      (currentHits around g index candidates hits) := by
  induction candidates generalizing index hits with
  | nil =>
    refine Or.inl ?_
    rw [currentHits, List.filterMap_nil, hitsFrom, List.mapIdx_nil, List.append_nil]
  | cons candidate rest ih =>
    obtain ⟨found, hlookup, -⟩ := desiredCatalogDocument_ok hwf candidate.identity.documentId
    rw [currentHits]
    refine Interrupted.check (fun _ => checkRequest_stops) ?_
    rw [hlookup, List.filterMap_cons, currentItem, hlookup]
    cases found with
    | none => exact ih (index + 1) hits
    | some document =>
      have hnext := ih (index + 1)
        (hits ++ [⟨itemFromDocument document, min (hits.length + 1) (2 ^ 32 - 1)⟩])
      rw [List.length_append, List.length_singleton, List.append_assoc] at hnext
      show Interrupted around.Stops (.ok (hits ++ hitsFrom hits.length
        (itemFromDocument document :: rest.filterMap _))) _
      rw [hitsFrom_cons]
      exact hnext

/-- A reader keeps to the limit it is given. -/
def ContentReader.Bounded (reader : ContentReader) : Prop :=
  ∀ query limit documents, reader.candidates query limit = some documents → documents.length ≤ limit

/-- A content search that succeeds ran through every candidate of its reader. -/
theorem contentSearchImpl_ok {s : AgentService} (hwf : WellFormed s.files.graph) {query : String}
    {topK : Nat} {response : ContentSearchResponse}
    (h : s.contentSearchImpl around query topK = .ok response) :
    around.graphOpens = true ∧ ∃ reader candidates, s.contentReader = some reader ∧
      reader.search query (min topK maxTopK) = some candidates ∧
      response.hits = hitsFrom 0 (candidates.filterMap fun candidate =>
        currentItem s.files.graph candidate.identity.documentId) := by
  unfold AgentService.contentSearchImpl at h
  obtain ⟨_, -, h⟩ := bind_ok.mp h
  split at h
  · cases h
  · next reader hreader =>
    split at h
    · cases h
    · next candidates hcandidates =>
      obtain ⟨_, -, h⟩ := bind_ok.mp h
      obtain ⟨g, hopened, h⟩ := bind_ok.mp h
      obtain ⟨hits, hchecked, hresponse⟩ := bind_ok.mp h
      obtain rfl := Except.ok.inj hresponse
      have hopens : around.graphOpens = true := by
        unfold AgentService.openGraph at hopened
        split at hopened
        · assumption
        · cases hopened
      have hgraph : g = s.files.graph := by
        rw [AgentService.openGraph, if_pos hopens] at hopened
        exact (Except.ok.inj hopened).symm
      rw [hgraph] at hchecked
      have hplain := (currentHits_interrupted hwf 0 candidates []).ok hchecked
      have hhits := Except.ok.inj hplain
      rw [List.nil_append, List.length_nil] at hhits
      exact ⟨hopens, reader, candidates, hreader, hcandidates, hhits.symm⟩

omit [CaseMapping] in
theorem hitsFrom_item (start : Nat) (items : List CatalogItem) :
    (hitsFrom start items).map (·.item) = items := by
  refine List.ext_getElem (by simp [hitsFrom]) fun index _ _ => ?_
  simp [hitsFrom]

/-- Each hit is what a lookup of its document finds. -/
theorem contentSearchImpl_item {s : AgentService} (hwf : WellFormed s.files.graph) {query : String}
    {topK : Nat} {response : ContentSearchResponse}
    (h : s.contentSearchImpl around query topK = .ok response) :
    ∀ hit ∈ response.hits, s.getCatalogItem around hit.item.documentId = .ok hit.item := by
  intro hit hhit
  obtain ⟨hopens, reader, candidates, -, -, hhits⟩ := contentSearchImpl_ok hwf h
  have hitem : hit.item ∈ response.hits.map (·.item) := List.mem_map_of_mem hhit
  rw [hhits, hitsFrom_item] at hitem
  obtain ⟨candidate, -, hcurrent⟩ := List.mem_filterMap.mp hitem
  have hown := currentItem_documentId hwf hcurrent
  rw [getCatalogItem_eq hwf hopens, hown, hcurrent]

/-- Whatever the content index holds, a content search answers with the documents the
graph desires now: those among the candidates, in their order, numbered from one, as
looking them up together gives them and as each is looked up alone. -/
theorem content_hits_current {s : AgentService} (h : Reachable s.files.graph)
    (hbounded : ∀ reader, s.contentReader = some reader → reader.Bounded) {query : String} {topK : Nat}
    {response : ContentSearchResponse}
    (hsearch : s.contentSearchImpl around query topK = .ok response) :
    ∃ reader candidates, s.contentReader = some reader ∧
      reader.search query (min topK maxTopK) = some candidates ∧
      response.hits.map (·.rank) = (List.range response.hits.length).map (· + 1) ∧
      s.getCatalogItems around (candidates.map (·.identity.documentId)) =
        .ok (response.hits.map (·.item)) ∧
      ∀ hit ∈ response.hits, s.getCatalogItem around hit.item.documentId = .ok hit.item := by
  have hwf := h.wellFormed
  obtain ⟨hopens, reader, candidates, hreader, hcandidates, hhits⟩ := contentSearchImpl_ok hwf hsearch
  have hlength : candidates.length ≤ 100 := by
    unfold ContentReader.search at hcandidates
    dsimp only at hcandidates
    split at hcandidates
    · cases hcandidates
    · next hlimit =>
      have := hbounded reader hreader _ _ _ hcandidates
      omega
  have hcount := List.length_filterMap_le
    (fun candidate => currentItem s.files.graph candidate.identity.documentId) candidates
  refine ⟨reader, candidates, hreader, hcandidates, ?_, ?_, contentSearchImpl_item hwf hsearch⟩
  · rw [hhits, hitsFrom]
    refine List.ext_getElem (by simp) fun index hindex _ => ?_
    simp only [List.length_map, List.length_mapIdx] at hindex
    simp only [List.getElem_map, List.getElem_mapIdx, List.getElem_range]
    omega
  · rw [AgentService.getCatalogItems, AgentService.openGraph, if_pos hopens, ok_bind,
      currentItems_eq hwf, List.filterMap_map, hhits, hitsFrom_item]
    rfl

end Lookup

section Search

variable [TextRules] [ScoreOrder]

theorem search_snd (s : AgentService) (around : RequestSurroundings) (request : SearchRequest) :
    (s.search around request).2 = (searchChecked around s.reader.documents request).map fun hits =>
      (⟨s.reader.generation, around.tookMicros, hits⟩ : SearchResponse) := by
  unfold AgentService.search
  dsimp only
  split <;> next hresult => rw [hresult]; rfl

/-- A search that succeeds gives the whole ranking of the cached reader. -/
theorem search_ok {s : AgentService} {around : RequestSurroundings} {request : SearchRequest}
    {response : SearchResponse} (h : (s.search around request).2 = .ok response) :
    response.indexGeneration = s.reader.generation ∧
      searchImpl s.reader.documents request = .ok response.hits := by
  rw [search_snd] at h
  cases hchecked : searchChecked around s.reader.documents request with
  | error error =>
    rw [hchecked] at h
    cases h
  | ok hits =>
    rw [hchecked] at h
    obtain rfl := Except.ok.inj h
    refine ⟨rfl, ?_⟩
    have hplain := searchChecked_interrupted.ok hchecked
    cases hwhole : searchImpl s.reader.documents request with
    | error error =>
      rw [hwhole] at hplain
      cases hplain
    | ok found =>
      rw [hwhole] at hplain
      exact congrArg Except.ok (Except.ok.inj hplain)

/-- Whenever it is cancelled or runs out of time, a search answers with the error of
the first check on its way that notices, and if none does with the whole ranking of
the cached reader. -/
theorem search_all_or_nothing (s : AgentService) (around : RequestSurroundings)
    (request : SearchRequest) :
    (s.search around request).2 =
      behindChecks (around.checks (searchPoints s.reader.documents request))
        (((searchImpl s.reader.documents request).mapError SearchError.wire).map fun hits =>
          ⟨s.reader.generation, around.tookMicros, hits⟩) := by
  rw [search_snd, searchChecked_eq, behindChecks_map]

/-- Every hit is of a document of the index. -/
theorem searchImpl_document {documents : List CatalogDocument} (hunique : UniqueDocuments documents)
    {request : SearchRequest} {hits : List SearchHit} (h : searchImpl documents request = .ok hits) :
    ∀ hit ∈ hits, ∃ index matchType document, document ∈ documents ∧
      hit = searchHit index (matchType, document) := by
  intro hit hhit
  obtain ⟨-, ranked, hperm, rfl⟩ := searchImpl_ok h
  obtain ⟨index, hindex, rfl⟩ := List.getElem_of_mem hhit
  rw [List.getElem_mapIdx]
  have hlt : index < (ranked.take (min request.topK maxTopK)).length := by simpa using hindex
  generalize hentry : (ranked.take (min request.topK maxTopK))[index] = entry
  have hin : entry ∈ ranked := by
    rw [← hentry]
    exact List.mem_of_mem_take (List.getElem_mem _)
  obtain ⟨matchType, document⟩ := entry
  obtain ⟨hwindow, -, -⟩ := mem_verified.mp (hperm.mem_iff.mp hin)
  exact ⟨index, matchType, document, window_subset hunique (List.nil_subset _) hwindow, rfl⟩

/-- The item says of its document what the hit says. -/
structure Describes (item : CatalogItem) (hit : SearchHit) : Prop where
  documentId : item.documentId = hit.documentId
  objectKey : item.objectKey = hit.objectKey
  fileLinkId : item.fileLinkId = hit.fileLinkId
  name : item.name = hit.name
  resolvedPath : item.resolvedPath = hit.resolvedPath
  extension : item.extension = hit.extension
  kind : item.kind = hit.kind
  size : item.size = hit.size
  modifiedAtUnixMs : item.modifiedAtUnixMs = hit.modifiedAtUnixMs
  availability : item.availability = hit.availability

omit [TextRules] [ScoreOrder] in
theorem describes_document (index : Nat) (matchType : MatchType) (document : CatalogDocument) :
    Describes (itemFromDocument document) (searchHit index (matchType, document)) :=
  ⟨rfl, rfl, rfl, rfl, rfl, rfl, rfl, rfl, rfl, rfl⟩

variable [CaseMapping]

omit [TextRules] [ScoreOrder] in
theorem desired_of_documents {g : FilesystemGraph} (hwf : WellFormed g)
    {documents : List CatalogDocument} (h : desiredCatalogDocuments g = .ok documents) :
    UniqueDocuments documents ∧ ∀ document ∈ documents, Desired g document := by
  obtain ⟨joined, hjoined, hsorted, hmem⟩ := joinedRows_eq hwf none
  rw [desiredCatalogDocuments, hjoined, collectDocuments_ok] at h
  obtain rfl := Except.ok.inj h
  refine ⟨?_, fun document hdocument => ((hmem document).mp hdocument).2⟩
  exact List.pairwise_map.mpr (hsorted.imp fun hlt => ne_of_lt hlt)

/-- Without backlog, what a search finds is looked up as it was found. -/
theorem Upkept.hits {s : AgentService} (h : Upkept s)
    (hidle : projectionBacklog s.files.graph 0 = 0) {around : RequestSurroundings}
    (hopens : around.graphOpens = true) {request : SearchRequest} {response : SearchResponse}
    (hsearch : (s.search around request).2 = .ok response) :
    ∀ hit ∈ response.hits, ∃ item, s.getCatalogItem around hit.documentId = .ok item ∧
      Describes item hit := by
  intro hit hhit
  have hwf := h.sound.ingested.wellFormed
  obtain ⟨documents, status, hdocuments, hperm, -, -, -⟩ := h.exact hidle
  obtain ⟨hunique, hdesired⟩ := desired_of_documents hwf hdocuments
  have hreader : UniqueDocuments s.reader.documents := (hperm.map _).nodup_iff.mpr hunique
  obtain ⟨-, hplain⟩ := search_ok hsearch
  obtain ⟨index, matchType, document, hmem, rfl⟩ := searchImpl_document hreader hplain hit hhit
  have hitem : currentItem s.files.graph document.identity.documentId =
      some (itemFromDocument document) :=
    (currentItem_eq_some hwf).mpr ⟨document, hdesired document (hperm.mem_iff.mp hmem), rfl, rfl⟩
  refine ⟨itemFromDocument document, ?_, describes_document index matchType document⟩
  show s.getCatalogItem around document.identity.documentId = _
  rw [getCatalogItem_eq hwf hopens, hitem]

end Search

section Example

attribute [local instance] asciiTextRules indexOrder asciiCaseMapping

/-- An index that has not seen the rename. -/
def staleReader : ContentReader := ⟨fun _ limit => some (Content.contentSampleDocuments.take limit)⟩

/-- Nothing stops the request. -/
def undisturbed : RequestSurroundings := ⟨fun _ => none, true, ⟨0, 0, by decide⟩, 40⟩

def contentService : AgentService where
  files := ⟨Content.renamedContentSample, .empty⟩
  governor := .new .standard
  reader := ⟨[], 1⟩
  contentReader := some staleReader
  authorization := contentGrant

theorem content_hits_current_stale : ∃ response,
    contentService.contentSearchImpl undisturbed "plan" 5 = .ok response ∧
    ∃ reader candidates, contentService.contentReader = some reader ∧
      reader.search "plan" (min 5 maxTopK) = some candidates ∧
      response.hits.map (·.rank) = (List.range response.hits.length).map (· + 1) ∧
      contentService.getCatalogItems undisturbed (candidates.map (·.identity.documentId)) =
        .ok (response.hits.map (·.item)) ∧
      ∀ hit ∈ response.hits,
        contentService.getCatalogItem undisturbed hit.item.documentId = .ok hit.item := by
  have hsearch : ∃ response, contentService.contentSearchImpl undisturbed "plan" 5 = .ok response :=
    ok_of_isOk (by decide)
  obtain ⟨response, hresponse⟩ := hsearch
  have hrename : Content.renameTextFile.run Content.contentSample = .ok Content.renamedContentSample := by
    decide +kernel
  have hreachable : Reachable contentService.files.graph :=
    Content.contentSample_reachable.tail ⟨Content.renameTextFile, trivial, hrename⟩
  refine ⟨response, hresponse, content_hits_current hreachable ?_ hresponse⟩
  intro reader hreader query limit documents hdocuments
  obtain rfl := Option.some.inj hreader
  obtain rfl := Option.some.inj hdocuments
  exact List.length_take_le _ _

end Example

end LocalSearch.Agent
