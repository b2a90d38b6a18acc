import LocalSearch.Agent.Service
import LocalSearch.Agent.Search
import LocalSearch.Content.Projection
import LocalSearch.Lib.Interrupted

/-!
# Requests to the agent

A request is checked against the contract and against the grant of its client, and
answered from the cached reader, the graph or the content reader. Between two steps of
a search the request may turn out to be cancelled or too late.
-/
namespace LocalSearch.Agent

set_option autoImplicit false

open Core Lib Graph Catalog Governor AgentApi
open Desktop (AgentWireError AgentErrorCode WireContractError CatalogItem SearchResponse
  ContentSearchHit ContentSearchResponse ContentSearchRequest agentApiVersion agentCodecVersion
  maxRequestIdBytes isWhitespace)

/-- The checks of cancellation and deadline, by where they stand. -/
inductive CheckPoint where
  | entry
  | retrieval (mode : CatalogQueryMode)
  | verification (index : Nat)
  | ranking
  | retrieved
  | hit (index : Nat)

inductive RequestEnd where
  | cancelled
  | deadlineExceeded

def RequestEnd.error : RequestEnd → AgentWireError
  | .cancelled => ⟨.cancelled, "request was cancelled"⟩
  | .deadlineExceeded => ⟨.deadlineExceeded, "request deadline exceeded"⟩

/-- What a request meets: the outcome of each check, whether the graph can be opened
for reading, and how long the request takes. -/
structure RequestSurroundings where
  check : CheckPoint → Option RequestEnd
  graphOpens : Bool
  took : Duration
  tookMicros : Nat

def checkRequest (around : RequestSurroundings) (point : CheckPoint) : Except AgentWireError Unit :=
  match around.check point with
  | none => .ok ()
  | some stop => .error stop.error

/-- An error of one of the checks. -/
def RequestSurroundings.Stops (around : RequestSurroundings) (error : AgentWireError) : Prop :=
  ∃ point stop, around.check point = some stop ∧ error = stop.error

theorem checkRequest_stops {around : RequestSurroundings} {point : CheckPoint} {error : AgentWireError}
    (h : checkRequest around point = .error error) : around.Stops error := by
  unfold checkRequest at h
  split at h
  · cases h
  · next stop hstop => exact ⟨point, stop, hstop, (Except.error.inj h).symm⟩

def SearchError.wire : SearchError → AgentWireError
  | .emptyQuery => ⟨.invalidRequest, "query is empty after normalization"⟩
  | .internal _ => Agent.internal

section Search

variable [TextRules] [ScoreOrder]

open TextRules

def retrieveChecked (around : RequestSurroundings) (documents : List CatalogDocument)
    (normalizedQuery : Text) (candidateLimit : Nat) :
    List CatalogQueryMode → List CatalogDocument → Except AgentWireError (List CatalogDocument)
  | [], found => .ok found
  | mode :: modes, found => do
      checkRequest around (.retrieval mode)
      if candidateLimit - found.length = 0 then .ok found
      else do
        let candidates ← (searchCandidateDocuments documents normalizedQuery mode
          (candidateLimit - found.length)).mapError fun _ => internal
        retrieveChecked around documents normalizedQuery candidateLimit modes
          (pushUnseen found candidates)

def verifyChecked (around : RequestSurroundings) (request : SearchRequest) (normalizedQuery : Text) :
    Nat → List CatalogDocument → Except AgentWireError (List (MatchType × CatalogDocument))
  | _, [] => .ok []
  | index, document :: rest => do
      checkRequest around (.verification index)
      let ranked ← verifyChecked around request normalizedQuery (index + 1) rest
      .ok ((if matchesFilters document request then
        ((classify document normalizedQuery).map (·, document)).toList else []) ++ ranked)

/-- `search_impl` on one snapshot of the index. -/
def searchChecked (around : RequestSurroundings) (documents : List CatalogDocument)
    (request : SearchRequest) : Except AgentWireError (List SearchHit) :=
  let normalizedQuery := normalize request.query.toList
  if normalizedQuery = [] then .error SearchError.emptyQuery.wire
  else do
    let topK := min request.topK maxTopK
    let candidates ← retrieveChecked around documents normalizedQuery (candidateLimit topK)
      (searchModes normalizedQuery) []
    let ranked ← verifyChecked around request normalizedQuery 0 candidates
    checkRequest around .ranking
    .ok (((ranked.mergeSort fun left right => compareRanked left right ≠ .gt).take topK).mapIdx
      searchHit)

end Search

section Lookup

variable [CaseMapping]

/-- `str::trim`. -/
def trim (text : String) : String :=
  String.ofList ((text.toList.dropWhile isWhitespace).rdropWhile isWhitespace)

def ContentReader.search (reader : ContentReader) (query : String) (limit : Nat) :
    Option (List CatalogDocument) :=
  let query := trim query
  if query.isEmpty ∨ 1024 < query.utf8ByteSize ∨ ¬ (1 ≤ limit ∧ limit ≤ 100) then none
  else reader.candidates query limit

def itemFromDocument (document : CatalogDocument) : CatalogItem where
  documentId := document.identity.documentId
  objectKey := document.identity.objectKey
  fileLinkId := document.identity.fileLinkId
  documentVersion := document.documentVersion
  name := document.name
  resolvedPath := document.resolvedPath
  extension := document.extension
  kind := document.metadata.kind
  size := document.metadata.size
  modifiedAtUnixMs := document.metadata.modifiedAtUnixMs
  availability := document.metadata.availability

/-- The candidates that are still desired, in order, with what the graph says of them. -/
def currentHits (around : RequestSurroundings) (g : FilesystemGraph) :
    Nat → List CatalogDocument → List ContentSearchHit →
      Except AgentWireError (List ContentSearchHit)
  | _, [], hits => .ok hits
  | index, candidate :: rest, hits => do
      checkRequest around (.hit index)
      let current ← (desiredCatalogDocument g candidate.identity.documentId).mapError fun _ => internal
      match current with
      | none => currentHits around g (index + 1) rest hits
      | some document =>
          currentHits around g (index + 1) rest
            (hits ++ [⟨itemFromDocument document, min (hits.length + 1) (2 ^ 32 - 1)⟩])

namespace AgentService

def require (s : AgentService) (capability : Capability) : Except AgentWireError Unit :=
  if capability ∈ s.authorization then .ok ()
  else .error ⟨.forbidden, "client capability grant does not permit this method"⟩

/-- `FilesystemGraph::open_read_only`. -/
def openGraph (s : AgentService) (around : RequestSurroundings) :
    Except AgentWireError FilesystemGraph :=
  if around.graphOpens then .ok s.files.graph else .error internal

def getCatalogItem (s : AgentService) (around : RequestSurroundings) (documentId : DocumentId) :
    Except AgentWireError CatalogItem := do
  let g ← s.openGraph around
  let document ← (desiredCatalogDocument g documentId).mapError fun _ => internal
  match document with
  | none => .error ⟨.notFound, "catalog item is not current"⟩
  | some document => .ok (itemFromDocument document)

/-- The items that are current, in the order of the request. -/
def currentItems (g : FilesystemGraph) : List DocumentId → Except AgentWireError (List CatalogItem)
  | [] => .ok []
  | documentId :: rest => do
      let document ← (desiredCatalogDocument g documentId).mapError fun _ => internal
      let items ← currentItems g rest
      .ok ((document.map itemFromDocument).toList ++ items)

def getCatalogItems (s : AgentService) (around : RequestSurroundings) (documentIds : List DocumentId) :
    Except AgentWireError (List CatalogItem) := do
  let g ← s.openGraph around
  currentItems g documentIds

def contentSearchImpl (s : AgentService) (around : RequestSurroundings) (query : String) (topK : Nat) :
    Except AgentWireError ContentSearchResponse := do
  checkRequest around .entry
  match s.contentReader with
  | none => .error ⟨.indexNotReady, "content search is not enabled for this Agent"⟩
  | some reader =>
      match reader.search query (min topK maxTopK) with
      | none => .error internal
      | some candidates => do
          checkRequest around .retrieved
          let g ← s.openGraph around
          let hits ← currentHits around g 0 candidates []
          .ok ⟨Content.contentSchemaId, around.tookMicros, hits⟩

def capabilities (s : AgentService) : Capabilities where
  agentApiVersions := [agentApiVersion]
  codecVersions := [agentCodecVersion]
  granted := s.authorization
  maximumTopK := maxTopK
  maximumFrameBytes := maxFrameBytes
  rankingVersion := rankingVersion

/-- `query_state` before the status is read. -/
def status (s : AgentService) (around : RequestSurroundings) : Except AgentWireError IndexStatus := do
  let _ ← s.openGraph around
  s.indexStatus

def health (s : AgentService) (around : RequestSurroundings) : ServiceHealth :=
  ⟨(s.status around).isOk, around.graphOpens, (s.status around).isOk⟩

variable [TextRules] [ScoreOrder]

/-- A search counts as interactive, and a search that succeeds reports its latency. -/
def search (s : AgentService) (around : RequestSurroundings) (request : SearchRequest) :
    AgentService × Except AgentWireError SearchResponse :=
  let s := { s with governor := s.governor.beginInteractiveRequest }
  match searchChecked around s.reader.documents request with
  | .error error => (s, .error error)
  | .ok hits =>
      ({ s with governor := s.governor.reportSearchLatency around.took },
        .ok ⟨s.reader.generation, around.tookMicros, hits⟩)

def dispatchOperation (s : AgentService) (around : RequestSurroundings) :
    RequestOperation → AgentService × Except AgentWireError ResponsePayload
  | .catalogSearch request =>
      match s.require .searchCatalog with
      | .error error => (s, .error error)
      | .ok () => ((s.search around request).1, ResponsePayload.search <$> (s.search around request).2)
  | .contentSearch request =>
      (s, do
        s.require .searchContent
        ResponsePayload.contentSearch <$> s.contentSearchImpl around request.query request.topK)
  | .catalogGetItem documentId =>
      (s, do
        s.require .readMetadata
        ResponsePayload.catalogItem <$> s.getCatalogItem around documentId)
  | .catalogGetItems documentIds =>
      (s, do
        s.require .readMetadata
        ResponsePayload.catalogItems <$> s.getCatalogItems around documentIds)
  | .indexGetStatus =>
      (s, do
        s.require .indexStatus
        ResponsePayload.indexStatus <$> s.status around)
  | .agentGetCapabilities => (s, .ok (.capabilities s.capabilities))
  | .agentGetHealth => (s, .ok (.health (s.health around)))

def contractCode : WireContractError → AgentErrorCode
  | .unsupportedProtocolVersion => .unsupportedProtocolVersion
  | .unsupportedCodecVersion => .unsupportedCodecVersion
  | .invalidRequest _ | .invalidResponse => .invalidRequest

/-- `dispatch_cancellable`. -/
def dispatch (s : AgentService) (around : RequestSurroundings) (request : AgentRequest) :
    AgentService × AgentResponse :=
  let requestId := if request.requestId.utf8ByteSize ≤ 64 then request.requestId else ""
  match request.validate with
  | .error error => (s, .failure requestId (contractCode error) "request contract rejected")
  | .ok () =>
      let (s, result) := s.dispatchOperation around request.operation
      (s, match result with
        | .ok payload => .success requestId payload
        | .error error => ⟨agentApiVersion, requestId, none, some error⟩)

end AgentService

end Lookup

section Whole

variable [TextRules] [ScoreOrder] {around : RequestSurroundings} {documents : List CatalogDocument}
  {request : SearchRequest} {normalizedQuery : Text}

open TextRules

/-- The checks between the retrievals of a search. -/
def retrievalPoints (documents : List CatalogDocument) (normalizedQuery : Text) (candidateLimit : Nat) :
    List CatalogQueryMode → List CatalogDocument → List CheckPoint
  | [], _ => []
  | mode :: modes, found =>
      .retrieval mode ::
        if candidateLimit - found.length = 0 then []
        else match searchCandidateDocuments documents normalizedQuery mode
            (candidateLimit - found.length) with
          | .ok candidates =>
              retrievalPoints documents normalizedQuery candidateLimit modes (pushUnseen found candidates)
          | .error _ => []

def verificationPoints (start count : Nat) : List CheckPoint := (List.range' start count).map .verification

/-- The checks on the way of a search, in order. -/
def searchPoints (documents : List CatalogDocument) (request : SearchRequest) : List CheckPoint :=
  let normalizedQuery := normalize request.query.toList
  if normalizedQuery = [] then []
  else
    let limit := candidateLimit (min request.topK maxTopK)
    retrievalPoints documents normalizedQuery limit (searchModes normalizedQuery) [] ++
      match collectCandidates documents normalizedQuery limit (searchModes normalizedQuery) [] with
      | .ok candidates => verificationPoints 0 candidates.length ++ [.ranking]
      | .error _ => []

/-- What the checks at these points say. -/
def RequestSurroundings.checks (around : RequestSurroundings) (points : List CheckPoint) :
    List (Option AgentWireError) :=
  points.map fun point => (around.check point).map RequestEnd.error

omit [TextRules] [ScoreOrder] in
theorem checks_append (early late : List CheckPoint) :
    around.checks (early ++ late) = around.checks early ++ around.checks late := List.map_append

omit [TextRules] [ScoreOrder] in
theorem checkRequest_bind {α : Type} (point : CheckPoint) (points : List CheckPoint)
    (x : Except AgentWireError α) :
    (checkRequest around point >>= fun _ => behindChecks (around.checks points) x) =
      behindChecks (around.checks (point :: points)) x := by
  unfold checkRequest RequestSurroundings.checks behindChecks
  rw [List.map_cons, List.findSome?_cons]
  cases around.check point <;> rfl

theorem retrieveChecked_eq (limit : Nat) (modes : List CatalogQueryMode) (found : List CatalogDocument) :
    retrieveChecked around documents normalizedQuery limit modes found =
      behindChecks (around.checks (retrievalPoints documents normalizedQuery limit modes found))
        ((collectCandidates documents normalizedQuery limit modes found).mapError fun _ => internal) := by
  induction modes generalizing found with
  | nil => rfl
  | cons mode modes ih =>
    rw [retrieveChecked, retrievalPoints, collectCandidates, ← checkRequest_bind]
    refine congrArg (checkRequest around (.retrieval mode) >>= ·) (funext fun _ => ?_)
    split_ifs with hfull
    · rfl
    · cases hfound : searchCandidateDocuments documents normalizedQuery mode (limit - found.length) with
      | error e => rfl
      | ok candidates => exact ih (pushUnseen found candidates)

omit [ScoreOrder] in
theorem verified_cons (document : CatalogDocument) (rest : List CatalogDocument) :
    verified (document :: rest) request normalizedQuery =
      (if matchesFilters document request then
        ((classify document normalizedQuery).map (·, document)).toList else []) ++
        verified rest request normalizedQuery := by
  unfold verified
  rw [List.filter_cons]
  by_cases hfilters : matchesFilters document request = true
  · rw [if_pos hfilters, if_pos hfilters, List.filterMap_cons]
    cases classify document normalizedQuery <;> rfl
  · rw [if_neg hfilters, if_neg hfilters, List.nil_append]

omit [ScoreOrder] in
theorem verifyChecked_eq (index : Nat) (documents : List CatalogDocument) :
    verifyChecked around request normalizedQuery index documents =
      behindChecks (around.checks (verificationPoints index documents.length))
        (.ok (verified documents request normalizedQuery)) := by
  induction documents generalizing index with
  | nil => rfl
  | cons document rest ih =>
    rw [verified_cons, verifyChecked, List.length_cons, verificationPoints, List.range'_succ,
      List.map_cons, ← checkRequest_bind]
    refine congrArg (checkRequest around (.verification index) >>= ·) (funext fun _ => ?_)
    rw [ih (index + 1), behindChecks_bind]
    rfl

/-- A search ends with the error of the first check on its way that fails, or as it
does without checks. -/
theorem searchChecked_eq : searchChecked around documents request =
    behindChecks (around.checks (searchPoints documents request))
      ((searchImpl documents request).mapError SearchError.wire) := by
  unfold searchImpl searchChecked searchPoints
  dsimp only
  split_ifs with hempty
  · rfl
  · rw [retrieveChecked_eq, behindChecks_bind, checks_append, behindChecks_append]
    refine congrArg (behindChecks _) ?_
    cases hfound : collectCandidates documents (normalize request.query.toList)
        (candidateLimit (min request.topK maxTopK)) (searchModes (normalize request.query.toList)) [] with
    | error e => rfl
    | ok candidates =>
      show (verifyChecked around request _ 0 candidates >>= _) = _
      rw [verifyChecked_eq, behindChecks_bind, checks_append, behindChecks_append]
      exact congrArg (behindChecks _) (checkRequest_bind .ranking [] _)

theorem searchChecked_interrupted :
    Interrupted around.Stops ((searchImpl documents request).mapError SearchError.wire)
      (searchChecked around documents request) := by
  rw [searchChecked_eq]
  refine interrupted_behindChecks (fun error herror => ?_) _
  obtain ⟨point, -, hstop⟩ := List.mem_map.mp herror
  obtain ⟨stop, hcheck, rfl⟩ := Option.map_eq_some_iff.mp hstop
  exact ⟨point, stop, hcheck, rfl⟩

end Whole

end LocalSearch.Agent
