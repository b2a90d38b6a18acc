import LocalSearch.Mcp.Tools

/-!
# Listed tools and granted tools

What a client is told of the tools against what becomes of its calls: a session shows one
list, and a call is refused for its grant exactly where its tool is not on the list.
-/
namespace LocalSearch.Mcp

set_option autoImplicit false

open Core Lib Graph Catalog AgentApi
open Agent (AgentService RequestSurroundings searchChecked_interrupted internal)
open Desktop (AgentWireError AgentErrorCode)

/-- No error of the computation refuses for the grant. -/
abbrev Unrefused {α : Type} (x : Except AgentWireError α) : Prop :=
  ErrorsIn (fun error : AgentWireError => error.code ≠ .forbidden) x

theorem internal_unrefused : internal.code ≠ .forbidden := by decide

section Agent

variable [CaseMapping] [TextRules] [ScoreOrder]

omit [CaseMapping] in
theorem search_unrefused (s : AgentService) (around : RequestSurroundings)
    (request : Agent.SearchRequest) : Unrefused (s.search around request).2 := by
  rw [Agent.search_snd]
  refine ErrorsIn.map _ (searchChecked_interrupted.errorsIn ?_ ?_)
  · refine ErrorsIn.mapError _ fun e => ?_
    cases e with
    | emptyQuery => decide
    | internal _ => exact internal_unrefused
  · rintro _ ⟨_, stop, -, rfl⟩
    cases stop <;> decide

omit [CaseMapping] [TextRules] [ScoreOrder] in
theorem openGraph_unrefused (s : AgentService) (around : RequestSurroundings) :
    Unrefused (s.openGraph around) := by
  unfold AgentService.openGraph
  split
  · exact ErrorsIn.ok _
  · exact ErrorsIn.error internal_unrefused

omit [TextRules] [ScoreOrder] in
theorem getCatalogItem_unrefused (s : AgentService) (around : RequestSurroundings)
    (documentId : DocumentId) : Unrefused (s.getCatalogItem around documentId) := by
  unfold AgentService.getCatalogItem
  refine ErrorsIn.bind (openGraph_unrefused s around) fun g =>
    ErrorsIn.bind (ErrorsIn.mapError _ fun _ => internal_unrefused) fun document => ?_
  cases document with
  | none => exact ErrorsIn.error (by decide)
  | some document => exact ErrorsIn.ok _

omit [CaseMapping] [TextRules] [ScoreOrder] in
theorem status_unrefused (s : AgentService) (around : RequestSurroundings) :
    Unrefused (s.status around) := by
  unfold AgentService.status
  refine ErrorsIn.bind (openGraph_unrefused s around) fun _ => ?_
  unfold AgentService.indexStatus
  dsimp only
  split
  · exact ErrorsIn.error (by decide)
  · split
    · exact ErrorsIn.error (by decide)
    · exact ErrorsIn.ok _

omit [CaseMapping] [TextRules] [ScoreOrder] in
/-- An operation behind a check of the grant is refused exactly without the grant. -/
theorem refused_iff {s : AgentService} {capability : Capability} {α : Type} {x : Except AgentWireError α}
    (h : Unrefused x) :
    (∃ error, (s.require capability >>= fun _ => x) = .error error ∧ error.code = .forbidden) ↔
      capability ∉ s.authorization := by
  rcases s.require_eq capability with ⟨hrequire, hmem⟩ | ⟨hrequire, hmem⟩
  · rw [hrequire]
    exact ⟨fun ⟨error, herror, hcode⟩ => absurd hcode (h error herror), fun hnot => absurd hmem hnot⟩
  · rw [hrequire]
    exact ⟨fun _ => hmem, fun _ => ⟨_, rfl, rfl⟩⟩

theorem dispatchOperation_refused_iff (s : AgentService) (around : RequestSurroundings)
    {operation : RequestOperation} {capability : Capability} (hadmissible : Admissible operation)
    (hcapability : Agent.requiredCapability operation = some capability) :
    (∃ error, (s.dispatchOperation around operation).2 = .error error ∧ error.code = .forbidden) ↔
      capability ∉ s.authorization := by
  cases operation with
  | catalogSearch request =>
    obtain rfl := Option.some.inj hcapability
    have hsame : (s.dispatchOperation around (.catalogSearch request)).2 =
        (s.require .searchCatalog >>= fun _ => ResponsePayload.search <$> (s.search around request).2) := by
      simp only [AgentService.dispatchOperation]
      cases s.require .searchCatalog <;> rfl
    rw [hsame]
    exact refused_iff (ErrorsIn.map _ (search_unrefused s around request))
  | catalogGetItem documentId =>
    obtain rfl := Option.some.inj hcapability
    exact refused_iff (ErrorsIn.map _ (getCatalogItem_unrefused s around documentId))
  | indexGetStatus =>
    obtain rfl := Option.some.inj hcapability
    exact refused_iff (ErrorsIn.map _ (status_unrefused s around))
  | contentSearch _ => exact hadmissible.elim
  | catalogGetItems _ => exact hadmissible.elim
  | agentGetCapabilities => cases hcapability
  | agentGetHealth => cases hcapability

theorem dispatch_authorization (s : AgentService) (around : RequestSurroundings)
    (request : AgentRequest) : (s.dispatch around request).1.authorization = s.authorization := by
  have hsearch : ∀ search, (s.search around search).1.authorization = s.authorization := by
    intro search
    unfold AgentService.search
    dsimp only
    split <;> rfl
  unfold AgentService.dispatch
  dsimp only
  split
  · rfl
  · cases request.operation with
    | catalogSearch search =>
      simp only [AgentService.dispatchOperation]
      split
      · rfl
      · exact hsearch search
    | _ => rfl

end Agent

/-- The tools a grant covers, in the order of the manifest. -/
def listedFor (granted : Finset Capability) : List Tool :=
  tools.filter fun tool => (requiredCapability tool.name).any (· ∈ granted)

theorem grantedTools_eq (granted : Finset Capability) :
    grantedTools granted = (listedFor granted).map Tool.value := by
  unfold grantedTools toolManifest listedFor
  rw [List.filter_map]
  refine congrArg (List.map Tool.value) (List.filter_congr fun tool _ => ?_)
  rfl

theorem mem_listedFor {name : String} {capability : Capability}
    (h : requiredCapability name = some capability) (granted : Finset Capability) :
    name ∈ (listedFor granted).map (·.name) ↔ capability ∈ granted := by
  have htool : ∃ tool ∈ tools, tool.name = name := by
    unfold requiredCapability at h
    split at h
    · next hname => exact ⟨searchFilesTool, List.mem_cons_self, hname.symm⟩
    · split at h
      · next hname => exact ⟨getCatalogItemTool, by simp [tools], hname.symm⟩
      · split at h
        · next hname => exact ⟨getIndexStatusTool, by simp [tools], hname.symm⟩
        · cases h
  constructor
  · intro hlisted
    obtain ⟨tool, hmem, rfl⟩ := List.mem_map.mp hlisted
    have hgranted := (List.mem_filter.mp hmem).2
    rw [h] at hgranted
    exact of_decide_eq_true hgranted
  · intro hgranted
    obtain ⟨tool, htool, rfl⟩ := htool
    refine List.mem_map_of_mem (List.mem_filter.mpr ⟨htool, ?_⟩)
    rw [h]
    exact decide_eq_true hgranted

/-- The result of a call says that the grant does not permit it. -/
def Refused (result : Value) : Prop :=
  ((result.get "structuredContent").bind fun value => value.get "code") = some (.string "forbidden")

theorem refused_error (error : AgentWireError) :
    Refused (toolResult (errorValue error) true) ↔ error.code = .forbidden := by
  have hcode : Refused (toolResult (errorValue error) true) ↔
      some (Value.string (errorCodeName error.code)) = some (.string "forbidden") := Iff.rfl
  rw [hcode, Option.some.injEq, Value.string.injEq]
  cases error.code <;> decide

theorem not_refused_payload (payload : ResponsePayload) :
    ¬ Refused (toolResult (payloadValue payload) false) := by
  intro h
  have hnone : ((toolResult (payloadValue payload) false).get "structuredContent").bind
      (fun value => value.get "code") = none := by
    cases payload <;> rfl
  unfold Refused at h
  rw [hnone] at h
  cases h

/-- What a response is to the client of a grant. -/
structure Offered (granted : Finset Capability) (request : McpRequest) (response : McpResponse) :
    Prop where
  listed : request.method = "tools/list" → ∀ result, response.reply = .result result →
    result.get "tools" = some (.array ((listedFor granted).map Tool.value))
  called : request.method = "tools/call" → ∀ result, response.reply = .result result →
    ∃ call, ToolCallParams.fromValue request.params = some call ∧
      (Refused result ↔ call.name ∉ (listedFor granted).map (·.name))

section Sessions

variable [CaseMapping] [TextRules] [ScoreOrder]

theorem handle_authorization (adapter : McpAdapter) (s : AgentService) (lost : Option InvokeError)
    (around : RequestSurroundings) (request : McpRequest) :
    (adapter.handle (agentInvoker lost around) s request).2.1.authorization = s.authorization := by
  have hinvoke : ∀ operation, (adapter.invoke (agentInvoker lost around) s operation).2.1.authorization =
      s.authorization := by
    intro operation
    unfold McpAdapter.invoke agentInvoker
    cases lost with
    | some error => rfl
    | none => exact dispatch_authorization s around _
  rcases handle_cases (agentInvoker lost around) adapter request with
    ⟨response, -, hquiet⟩ | ⟨id, -, hlist⟩ | ⟨id, call, operation, -, -, -, hcall⟩
  · rw [hquiet]
  · rw [hlist]
    exact hinvoke .agentGetCapabilities
  · rw [hcall]
    exact hinvoke operation

/-- A list of tools that is answered is what the grant covers. -/
theorem list_result {adapter : McpAdapter} {s : AgentService} {lost : Option InvokeError}
    {around : RequestSurroundings} {request : McpRequest} {result : Value}
    (hmethod : request.method = "tools/list")
    (h : (adapter.handle (agentInvoker lost around) s request).2.2.reply = .result result) :
    result.get "tools" = some (.array ((listedFor s.authorization).map Tool.value)) := by
  rcases handle_cases (agentInvoker lost around) adapter request with
    ⟨response, herror, hquiet⟩ | ⟨id, -, hhandle⟩ | ⟨id, call, operation, hcall, -⟩
  · obtain ⟨error, herror⟩ := herror (by rw [hmethod]; decide)
    rw [hquiet, herror] at h
    cases h
  · rw [hhandle] at h
    cases lost with
    | some error => cases error <;> cases h
    | none =>
      have hvalid : (adapter.request .agentGetCapabilities).validate = .ok () :=
        request_validate adapter .agentGetCapabilities
      have hlisted : (listedTools id (.ok
          (s.dispatch around (adapter.request .agentGetCapabilities)).2)).reply = .result result := h
      rw [AgentService.dispatch_valid s around hvalid] at hlisted
      obtain rfl := McpReply.result.inj hlisted
      show some (Value.array (grantedTools s.authorization)) = _
      rw [grantedTools_eq]
  · exact absurd (hcall.symm.trans hmethod) (by decide)

theorem handle_offered (adapter : McpAdapter) (s : AgentService) (lost : Option InvokeError)
    (around : RequestSurroundings) (request : McpRequest) :
    Offered s.authorization request (adapter.handle (agentInvoker lost around) s request).2.2 where
  listed hmethod _ hresult := list_result hmethod hresult
  called := by
    intro hmethod result hresult
    obtain ⟨call, operation, hparams, hmap, hresult⟩ := call_result hmethod hresult
    obtain ⟨hadmissible, -, hcapability, schema, -, hanswers⟩ := mapTool_ok hmap
    obtain ⟨capability, hrequired⟩ :
        ∃ capability, Agent.requiredCapability operation = some capability := by
      cases operation with
      | agentGetCapabilities => cases hanswers
      | agentGetHealth => cases hanswers
      | _ => exact ⟨_, rfl⟩
    refine ⟨call, hparams, ?_⟩
    rw [mem_listedFor (hcapability.trans hrequired),
      ← dispatchOperation_refused_iff s around hadmissible hrequired]
    rcases hresult with ⟨error, hanswer, rfl⟩ | ⟨payload, hanswer, rfl⟩
    · rw [refused_error, hanswer]
      exact ⟨fun hcode => ⟨error, rfl, hcode⟩, fun ⟨other, hother, hcode⟩ =>
        (Except.error.inj hother) ▸ hcode⟩
    · rw [hanswer]
      exact ⟨fun h => absurd h (not_refused_payload payload), fun ⟨other, hother, _⟩ => by cases hother⟩

/-- Whatever the client sends and whatever is lost on the way: every list of tools a session
is answered with is the same, and a call that gets a result is refused for the grant exactly
where its tool is not on that list. -/
theorem session_offers_granted (adapter : McpAdapter) (s : AgentService)
    (session : List (Option InvokeError × RequestSurroundings × McpRequest)) :
    List.Forall₂ (fun turn response => Offered s.authorization turn.2.2 response) session
      (converse adapter s session) := by
  induction session generalizing adapter s with
  | nil => exact .nil
  | cons first rest ih =>
    obtain ⟨lost, around, request⟩ := first
    have hrest := ih (adapter.handle (agentInvoker lost around) s request).1
      (adapter.handle (agentInvoker lost around) s request).2.1
    rw [handle_authorization] at hrest
    exact .cons (handle_offered adapter s lost around request) hrest

end Sessions

end LocalSearch.Mcp
