import LocalSearch.Agent.Lookup

/-!
# The answers of the agent

Every response carries the version and the identifier of its request and one payload or
one error, and a payload belongs to an operation that was granted. What a client was not
granted has no influence on the responses it gets, and the desktop gets what the agent
found.
-/
namespace LocalSearch.Agent

set_option autoImplicit false

open Core Lib Graph Catalog Governor AgentApi
open Desktop (AgentWireError CatalogItem SearchResponse ContentSearchResponse DesktopClientError
  DesktopSearchResult DesktopContentSearchResult agentApiVersion mapAgentError)

section Answers

variable [CaseMapping] [TextRules] [ScoreOrder]

/-- The capability an operation requires. -/
def requiredCapability : RequestOperation → Option Capability
  | .catalogSearch _ => some .searchCatalog
  | .contentSearch _ => some .searchContent
  | .catalogGetItem _ | .catalogGetItems _ => some .readMetadata
  | .indexGetStatus => some .indexStatus
  | .agentGetCapabilities | .agentGetHealth => none

/-- The payload is of the kind the operation asks for. -/
def AnswersTo : RequestOperation → ResponsePayload → Prop
  | .catalogSearch _, .search _ => True
  | .contentSearch _, .contentSearch _ => True
  | .catalogGetItem _, .catalogItem _ => True
  | .catalogGetItems _, .catalogItems _ => True
  | .indexGetStatus, .indexStatus _ => True
  | .agentGetCapabilities, .capabilities _ => True
  | .agentGetHealth, .health _ => True
  | _, _ => False

namespace AgentService

omit [CaseMapping] [TextRules] [ScoreOrder] in
theorem require_eq (s : AgentService) (capability : Capability) :
    s.require capability = .ok () ∧ capability ∈ s.authorization ∨
      s.require capability = .error ⟨.forbidden, "client capability grant does not permit this method"⟩ ∧
        capability ∉ s.authorization := by
  unfold require
  split
  · next hgranted => exact Or.inl ⟨rfl, hgranted⟩
  · next hdenied => exact Or.inr ⟨rfl, hdenied⟩

omit [CaseMapping] [TextRules] [ScoreOrder] in
theorem granted_of_require {s : AgentService} {capability : Capability}
    (h : s.require capability = .ok ()) : capability ∈ s.authorization := by
  rcases s.require_eq capability with ⟨-, hmem⟩ | ⟨hdenied, -⟩
  · exact hmem
  · rw [h] at hdenied
    cases hdenied

omit [CaseMapping] [TextRules] [ScoreOrder] in
theorem map_ok {ε α β : Type} {x : Except ε α} {f : α → β} {b : β} (h : f <$> x = .ok b) :
    ∃ a, x = .ok a ∧ b = f a := by
  cases x with
  | error e => cases h
  | ok a => exact ⟨a, rfl, (Except.ok.inj h).symm⟩

/-- A payload comes only with the grant, and is of its operation's kind. -/
theorem dispatchOperation_ok {s : AgentService} {around : RequestSurroundings}
    {operation : RequestOperation} {payload : ResponsePayload}
    (h : (s.dispatchOperation around operation).2 = .ok payload) :
    AnswersTo operation payload ∧
      ∀ capability, requiredCapability operation = some capability → capability ∈ s.authorization := by
  have hgranted : ∀ {capability : Capability} {α : Type} {f : α → ResponsePayload}
      {x : Except AgentWireError α},
      (s.require capability >>= fun _ => f <$> x) = .ok payload →
        (∃ a, payload = f a) ∧ capability ∈ s.authorization := by
    intro capability α f x hok
    obtain ⟨_, hrequire, hok⟩ := bind_ok.mp hok
    obtain ⟨a, -, hpayload⟩ := map_ok hok
    exact ⟨⟨a, hpayload⟩, granted_of_require hrequire⟩
  cases operation with
  | catalogSearch request =>
    simp only [dispatchOperation] at h
    split at h
    · cases h
    · next hrequire =>
      obtain ⟨response, -, rfl⟩ := map_ok h
      have hmem := granted_of_require hrequire
      exact ⟨trivial, fun capability hcapability => Option.some.inj hcapability ▸ hmem⟩
  | contentSearch request =>
    obtain ⟨⟨response, rfl⟩, hmem⟩ := hgranted h
    exact ⟨trivial, fun capability hcapability => Option.some.inj hcapability ▸ hmem⟩
  | catalogGetItem documentId =>
    obtain ⟨⟨item, rfl⟩, hmem⟩ := hgranted h
    exact ⟨trivial, fun capability hcapability => Option.some.inj hcapability ▸ hmem⟩
  | catalogGetItems documentIds =>
    obtain ⟨⟨items, rfl⟩, hmem⟩ := hgranted h
    exact ⟨trivial, fun capability hcapability => Option.some.inj hcapability ▸ hmem⟩
  | indexGetStatus =>
    obtain ⟨⟨status, rfl⟩, hmem⟩ := hgranted h
    exact ⟨trivial, fun capability hcapability => Option.some.inj hcapability ▸ hmem⟩
  | agentGetCapabilities =>
    obtain rfl := Except.ok.inj h
    exact ⟨trivial, fun capability hcapability => by cases hcapability⟩
  | agentGetHealth =>
    obtain rfl := Except.ok.inj h
    exact ⟨trivial, fun capability hcapability => by cases hcapability⟩

/-- What a dispatch of a valid request answers. -/
theorem dispatch_valid (s : AgentService) (around : RequestSurroundings) {request : AgentRequest}
    (hvalid : request.validate = .ok ()) :
    (s.dispatch around request).2 = ⟨agentApiVersion, request.requestId,
      (s.dispatchOperation around request.operation).2.toOption,
      match (s.dispatchOperation around request.operation).2 with
        | .ok _ => none
        | .error error => some error⟩ := by
  have hid : request.requestId.utf8ByteSize ≤ 64 := by
    unfold AgentRequest.validate at hvalid
    split at hvalid
    · cases hvalid
    · split at hvalid
      · cases hvalid
      · split at hvalid
        · cases hvalid
        · next hbounded =>
          have hsize : Desktop.maxRequestIdBytes = 64 := rfl
          omega
  unfold dispatch
  simp only [if_pos hid, hvalid]
  cases (s.dispatchOperation around request.operation).2 <;> rfl

/-- Two agents that a client with their grant cannot tell apart. -/
structure SameFor (a b : AgentService) : Prop where
  authorization : a.authorization = b.authorization
  catalog : .searchCatalog ∈ a.authorization → a.reader = b.reader
  content : .searchContent ∈ a.authorization → a.contentReader = b.contentReader
  lookup : .searchContent ∈ a.authorization ∨ .readMetadata ∈ a.authorization →
    ∀ documentId, desiredCatalogDocument a.files.graph documentId =
      desiredCatalogDocument b.files.graph documentId
  status : .indexStatus ∈ a.authorization → a.indexStatus = b.indexStatus
  ready : a.indexStatus.isOk = b.indexStatus.isOk

variable {a b : AgentService} {around : RequestSurroundings}

omit [CaseMapping] in
theorem search_snd_congr (h : a.reader = b.reader) (request : SearchRequest) :
    (a.search around request).2 = (b.search around request).2 := by
  unfold search
  simp only [h]
  split <;> rfl

omit [TextRules] [ScoreOrder] in
theorem currentHits_congr {g g' : FilesystemGraph}
    (h : ∀ documentId, desiredCatalogDocument g documentId = desiredCatalogDocument g' documentId)
    (index : Nat) (candidates : List CatalogDocument) (hits : List Desktop.ContentSearchHit) :
    currentHits around g index candidates hits = currentHits around g' index candidates hits := by
  induction candidates generalizing index hits with
  | nil => rfl
  | cons candidate rest ih => simp only [currentHits, h, ih]

omit [TextRules] [ScoreOrder] in
theorem currentItems_congr {g g' : FilesystemGraph}
    (h : ∀ documentId, desiredCatalogDocument g documentId = desiredCatalogDocument g' documentId)
    (documentIds : List DocumentId) : currentItems g documentIds = currentItems g' documentIds := by
  induction documentIds with
  | nil => rfl
  | cons documentId rest ih => simp only [currentItems, h, ih]

omit [CaseMapping] [TextRules] [ScoreOrder] in
/-- A computation on the opened graph that reads it only through lookups. -/
theorem openGraph_congr {α : Type} {f f' : FilesystemGraph → Except AgentWireError α}
    (h : f a.files.graph = f' b.files.graph) :
    (a.openGraph around >>= f) = (b.openGraph around >>= f') := by
  unfold openGraph
  cases around.graphOpens
  · rfl
  · exact h

theorem SameFor.operation (h : SameFor a b) (operation : RequestOperation) :
    (a.dispatchOperation around operation).2 = (b.dispatchOperation around operation).2 := by
  have hrequire : ∀ {capability : Capability} {α : Type} {x y : Except AgentWireError α},
      (capability ∈ a.authorization → x = y) →
      (a.require capability >>= fun _ => x) = (b.require capability >>= fun _ => y) := by
    intro capability α x y hsame
    unfold require
    rw [← h.authorization]
    split
    · next hgranted => exact hsame hgranted
    · rfl
  cases operation with
  | catalogSearch request =>
    simp only [dispatchOperation]
    rcases a.require_eq .searchCatalog with ⟨hgranted, hmem⟩ | ⟨hdenied, hmem⟩
    · have hother : b.require .searchCatalog = .ok () := by
        rw [require, if_pos (h.authorization ▸ hmem)]
      rw [hgranted, hother]
      exact congrArg (ResponsePayload.search <$> ·) (search_snd_congr (h.catalog hmem) request)
    · have hother : b.require .searchCatalog =
          .error ⟨.forbidden, "client capability grant does not permit this method"⟩ := by
        rw [require, if_neg (h.authorization ▸ hmem)]
      rw [hdenied, hother]
  | contentSearch request =>
    refine hrequire fun hgranted => ?_
    refine congrArg (ResponsePayload.contentSearch <$> ·) ?_
    unfold contentSearchImpl
    rw [← h.content hgranted]
    refine congrArg (checkRequest around .entry >>= ·) (funext fun _ => ?_)
    cases a.contentReader with
    | none => rfl
    | some reader =>
      dsimp only
      cases reader.search request.query (min request.topK maxTopK) with
      | none => rfl
      | some candidates =>
        refine congrArg (checkRequest around .retrieved >>= ·) (funext fun _ => ?_)
        exact openGraph_congr (by rw [currentHits_congr (h.lookup (Or.inl hgranted))])
  | catalogGetItem documentId =>
    refine hrequire fun hgranted => congrArg (ResponsePayload.catalogItem <$> ·) ?_
    exact openGraph_congr (by rw [h.lookup (Or.inr hgranted)])
  | catalogGetItems documentIds =>
    refine hrequire fun hgranted => congrArg (ResponsePayload.catalogItems <$> ·) ?_
    exact openGraph_congr (currentItems_congr (h.lookup (Or.inr hgranted)) documentIds)
  | indexGetStatus =>
    refine hrequire fun hgranted => congrArg (ResponsePayload.indexStatus <$> ·) ?_
    exact openGraph_congr (h.status hgranted)
  | agentGetCapabilities =>
    simp only [dispatchOperation, capabilities, h.authorization]
  | agentGetHealth =>
    have hstatus : (a.status around).isOk = (b.status around).isOk := by
      unfold AgentService.status openGraph
      cases around.graphOpens
      · rfl
      · exact h.ready
    simp only [dispatchOperation, health, hstatus]

/-- A request changes the governor at most. -/
theorem dispatch_governor (s : AgentService) (around : RequestSurroundings) (request : AgentRequest) :
    ∃ governor, (s.dispatch around request).1 = { s with governor := governor } := by
  unfold dispatch
  dsimp only
  split
  · exact ⟨s.governor, rfl⟩
  · show ∃ governor, (s.dispatchOperation around request.operation).1 = { s with governor := governor }
    cases request.operation with
    | catalogSearch search =>
      simp only [dispatchOperation]
      split
      · exact ⟨s.governor, rfl⟩
      · unfold AgentService.search
        dsimp only
        split <;> exact ⟨_, rfl⟩
    | contentSearch search => exact ⟨s.governor, rfl⟩
    | catalogGetItem documentId => exact ⟨s.governor, rfl⟩
    | catalogGetItems documentIds => exact ⟨s.governor, rfl⟩
    | indexGetStatus => exact ⟨s.governor, rfl⟩
    | agentGetCapabilities => exact ⟨s.governor, rfl⟩
    | agentGetHealth => exact ⟨s.governor, rfl⟩

theorem SameFor.dispatch (h : SameFor a b) (request : AgentRequest) :
    (a.dispatch around request).2 = (b.dispatch around request).2 := by
  unfold AgentService.dispatch
  dsimp only
  split
  · rfl
  · simp only [h.operation request.operation]

omit [TextRules] [ScoreOrder] in
theorem SameFor.governors (h : SameFor a b) (governor governor' : ResourceGovernor) :
    SameFor { a with governor := governor } { b with governor := governor' } :=
  ⟨h.authorization, h.catalog, h.content, h.lookup, h.status, h.ready⟩

/-- One request after another. -/
def serve : AgentService → List (RequestSurroundings × AgentRequest) → List AgentResponse
  | _, [] => []
  | s, (around, request) :: rest =>
      (s.dispatch around request).2 :: serve (s.dispatch around request).1 rest

/-- Whatever a client asks, in whatever order, its responses tell nothing of the data it
was not granted. -/
theorem responses_confined (h : SameFor a b) (requests : List (RequestSurroundings × AgentRequest)) :
    serve a requests = serve b requests := by
  induction requests generalizing a b with
  | nil => rfl
  | cons first rest ih =>
    obtain ⟨around, request⟩ := first
    obtain ⟨governor, hleft⟩ := dispatch_governor a around request
    obtain ⟨governor', hright⟩ := dispatch_governor b around request
    have hrest : serve (a.dispatch around request).1 rest = serve (b.dispatch around request).1 rest := by
      rw [hleft, hright]
      exact ih (h.governors governor governor')
    simp only [serve]
    rw [h.dispatch request, hrest]

end AgentService

/-- What the agent has for a call of the desktop. -/
def AgentService.answer (s : AgentService) (around : RequestSurroundings) (call : Desktop.Call) :
    Except AgentWireError (DesktopSearchResult ⊕ DesktopContentSearchResult) :=
  match call.kind with
  | .catalog => do
      s.require .searchCatalog
      let response ← (s.search around ⟨call.query, .all, ⟨[], none, none, none⟩, Desktop.desktopTopK⟩).2
      .ok (.inl ⟨call.requestId, response⟩)
  | .content => do
      s.require .searchContent
      let response ← s.contentSearchImpl around call.query Desktop.desktopTopK
      .ok (.inr ⟨call.requestId, response⟩)

omit [CaseMapping] [TextRules] [ScoreOrder] in
theorem interpret_failure (call : Desktop.Call) (error : AgentWireError) :
    call.interpret (.ok ⟨agentApiVersion, call.requestId, none, some error⟩) =
      .error (mapAgentError error.code) := by
  unfold Desktop.Call.interpret Desktop.validateResponseIdentity
  rw [ok_bind]
  dsimp only
  rw [if_neg (by simp)]
  rfl

omit [CaseMapping] [TextRules] [ScoreOrder] in
theorem interpret_success (call : Desktop.Call) (payload : ResponsePayload) :
    call.interpret (.ok (AgentResponse.success call.requestId payload).toDesktop) =
      match call.kind, payload with
      | .catalog, .search response => .ok (.inl ⟨call.requestId, response⟩)
      | .content, .contentSearch response => .ok (.inr ⟨call.requestId, response⟩)
      | .catalog, _ => .error ⟨.protocol, "Search service returned an unexpected response"⟩
      | .content, _ =>
          .error ⟨.protocol, "Search service returned an unexpected content response"⟩ := by
  unfold Desktop.Call.interpret Desktop.validateResponseIdentity
  rw [ok_bind, if_neg (by simp [AgentResponse.toDesktop, AgentResponse.success])]
  cases hkind : call.kind <;> cases payload <;> rfl

/-- The desktop makes of the response to its request what the agent has for its call. -/
theorem interpret_dispatch (s : AgentService) (around : RequestSurroundings) (call : Desktop.Call)
    (hvalid : call.request.validate = .ok ()) :
    call.interpret (.ok (s.dispatch around (.ofDesktop call.request)).2.toDesktop) =
      (s.answer around call).mapError fun error => mapAgentError error.code := by
  have hwire : (AgentRequest.ofDesktop call.request).validate = .ok () :=
    (validate_ofDesktop call.request).trans hvalid
  rw [AgentService.dispatch_valid s around hwire]
  obtain ⟨kind, requestId, query⟩ := call
  cases kind with
  | catalog =>
    simp only [AgentRequest.ofDesktop, Desktop.Call.request, RequestOperation.ofDesktop,
      AgentService.dispatchOperation, AgentService.answer]
    cases s.require .searchCatalog with
    | error error => exact interpret_failure ⟨.catalog, requestId, query⟩ error
    | ok _ =>
      dsimp only
      rw [ok_bind]
      cases (s.search around _).2 with
      | error error => exact interpret_failure ⟨.catalog, requestId, query⟩ error
      | ok response => exact interpret_success ⟨.catalog, requestId, query⟩ (.search response)
  | content =>
    simp only [AgentRequest.ofDesktop, Desktop.Call.request, RequestOperation.ofDesktop,
      AgentService.dispatchOperation, AgentService.answer]
    cases s.require .searchContent with
    | error error => exact interpret_failure ⟨.content, requestId, query⟩ error
    | ok _ =>
      rw [ok_bind, ok_bind]
      cases s.contentSearchImpl around query Desktop.desktopTopK with
      | error error => exact interpret_failure ⟨.content, requestId, query⟩ error
      | ok response => exact interpret_success ⟨.content, requestId, query⟩ (.contentSearch response)

end Answers

section Example

attribute [local instance] asciiTextRules indexOrder asciiCaseMapping

/-- The files of the content service under the grant without content search. -/
def metadataService (contentReader : Option ContentReader) : AgentService :=
  { contentService with authorization := metadataGrant, contentReader := contentReader }

theorem responses_confined_metadata :
    (metadataService (some staleReader)).contentSearchImpl undisturbed "plan" 5 ≠
      (metadataService none).contentSearchImpl undisturbed "plan" 5 ∧
    (metadataService (some staleReader)).serve
        [(undisturbed, ⟨2, 1, "request-1", 0, .contentSearch ⟨"plan", 5⟩⟩),
          (undisturbed, ⟨2, 1, "request-2", 0, .indexGetStatus⟩)] =
      (metadataService none).serve
        [(undisturbed, ⟨2, 1, "request-1", 0, .contentSearch ⟨"plan", 5⟩⟩),
          (undisturbed, ⟨2, 1, "request-2", 0, .indexGetStatus⟩)] :=
  ⟨by decide, AgentService.responses_confined
    ⟨rfl, fun _ => rfl, fun hcontent => absurd hcontent (by decide), fun _ _ => rfl, fun _ => rfl, rfl⟩ _⟩

end Example

end LocalSearch.Agent
