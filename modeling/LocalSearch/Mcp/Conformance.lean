import LocalSearch.Mcp.Tools

/-!
# Results conform to their schemas

The results of the tools against the schemas they are published with, and sessions of the
adapter over agents that differ in their content readers.
-/
namespace LocalSearch.Mcp

set_option autoImplicit false

open Core Lib Graph Catalog AgentApi
open Agent (SearchRequest SearchHit AgentService RequestSurroundings AnswersTo)
open Desktop (CatalogItem SearchResponse)

theorem accepts_positive {n : Nat} (h : 1 ≤ n) : positive.Accepts (natValue n) := by
  unfold positive natValue Schema.Accepts
  refine ⟨fun bound hbound => ?_, fun bound hbound => (by cases hbound)⟩
  obtain rfl := Option.some.inj hbound
  omega

theorem accepts_optionString (text : Option String) : nullableText.Accepts (optionValue .string text) := by
  cases text with
  | none => rfl
  | some text => exact Schema.accepts_string text true

theorem accepts_optionInteger (n : Option Int) :
    (Schema.integer none none none true).Accepts (optionValue .integer n) := by
  cases n with
  | none => rfl
  | some n =>
    unfold optionValue Schema.Accepts
    exact ⟨fun bound hbound => (by cases hbound), fun bound hbound => (by cases hbound)⟩

theorem accepts_optionNat (n : Option Nat) :
    (Schema.integer (some 0) none none true).Accepts (optionValue natValue n) := by
  cases n with
  | none => rfl
  | some n => exact Schema.accepts_nat n true

theorem accepts_fileKind (kind : FileKind) : fileKindSchema.Accepts (.string (fileKindName kind)) := by
  unfold fileKindSchema Schema.Accepts
  cases kind <;> decide

theorem accepts_availability (availability : Availability) :
    availabilitySchema.Accepts (.string (availabilityName availability)) := by
  unfold availabilitySchema Schema.Accepts
  cases availability <;> decide

theorem accepts_matchType (matchType : Agent.MatchType) :
    matchTypeSchema.Accepts (.string (matchTypeName matchType)) := by
  unfold matchTypeSchema Schema.Accepts
  cases matchType <;> decide

theorem accepts_objectKey (key : FileKey) : objectKeySchema.Accepts (objectKeyValue key) := by
  refine Schema.accepts_record rfl (by decide) (by decide) ?_
  exact .cons (Schema.accepts_display _ _) (.cons (Schema.accepts_display _ _) .nil)

theorem accepts_result {kind : String} {schema : Schema} {value : Value} (h : schema.Accepts value) :
    (resultSchema kind schema).Accepts (tagged kind value) := by
  refine Schema.accepts_record rfl (by simp) (by simp) ?_
  exact .cons (by unfold Schema.Accepts; rfl) (.cons h .nil)

theorem accepts_searchHit {hit : SearchHit} (hrank : 1 ≤ hit.rank) (hversion : 1 ≤ hit.rankingVersion) :
    searchHitSchema.Accepts (searchHitValue hit) := by
  refine Schema.accepts_record rfl (by decide) (by decide) ?_
  exact .cons (accepts_availability _) (.cons (Schema.accepts_display _ _)
    (.cons (accepts_optionString _) (.cons (Schema.accepts_display _ _) (.cons (accepts_fileKind _)
    (.cons (accepts_matchType _) (.cons (accepts_optionInteger _)
    (.cons (Schema.accepts_string _ _) (.cons (accepts_objectKey _) (.cons (accepts_positive hrank)
    (.cons (accepts_positive hversion) (.cons (Schema.accepts_string _ _)
    (.cons (Schema.accepts_nat _ _) .nil))))))))))))

theorem accepts_catalogItem (item : CatalogItem) : catalogItemSchema.Accepts (catalogItemValue item) := by
  refine Schema.accepts_record rfl (by decide) (by decide) ?_
  exact .cons (accepts_availability _) (.cons (Schema.accepts_display _ _)
    (.cons (Schema.accepts_nat _ _) (.cons (accepts_optionString _)
    (.cons (Schema.accepts_display _ _) (.cons (accepts_fileKind _) (.cons (accepts_optionInteger _)
    (.cons (Schema.accepts_string _ _) (.cons (accepts_objectKey _)
    (.cons (Schema.accepts_string _ _) (.cons (Schema.accepts_nat _ _) .nil))))))))))

theorem accepts_indexStatus (status : IndexStatus) :
    indexStatusSchema.Accepts (indexStatusValue status) := by
  refine Schema.accepts_record rfl (by decide) (by decide) ?_
  exact .cons (Schema.accepts_nat _ _) (.cons (Schema.accepts_nat _ _)
    (.cons (Schema.accepts_nat _ _) (.cons (Schema.accepts_nat _ _) (.cons (accepts_optionNat _)
    (.cons (by unfold Schema.Accepts; trivial) .nil)))))

theorem accepts_searchResponse {response : SearchResponse}
    (hcount : response.hits.length ≤ 50)
    (hhits : ∀ hit ∈ response.hits, 1 ≤ hit.rank ∧ 1 ≤ hit.rankingVersion) :
    searchResponseSchema.Accepts (searchResponseValue response) := by
  refine Schema.accepts_record rfl (by decide) (by decide) ?_
  refine .cons (Schema.accepts_array hcount fun hit hhit => ?_)
    (.cons (Schema.accepts_nat _ _) (.cons (Schema.accepts_nat _ _) .nil))
  obtain ⟨hrank, hversion⟩ := hhits hit hhit
  exact accepts_searchHit hrank hversion

section Answers

variable [CaseMapping] [TextRules] [ScoreOrder]

omit [CaseMapping] in
/-- A search answers with no more than it was asked for, numbered from one. -/
theorem search_hits {s : AgentService} {around : RequestSurroundings} {request : SearchRequest}
    {response : SearchResponse} (h : (s.search around request).2 = .ok response) :
    response.hits.length ≤ request.topK ∧
      ∀ hit ∈ response.hits, 1 ≤ hit.rank ∧ 1 ≤ hit.rankingVersion := by
  obtain ⟨-, hplain⟩ := Agent.search_ok h
  obtain ⟨-, ranked, -, hhits⟩ := Agent.searchImpl_ok hplain
  rw [hhits]
  refine ⟨?_, fun hit hhit => ?_⟩
  · rw [List.length_mapIdx, List.length_take]
    omega
  · obtain ⟨index, hindex, rfl⟩ := List.getElem_of_mem hhit
    rw [List.getElem_mapIdx]
    exact ⟨Nat.succ_le_succ (Nat.zero_le index), Nat.le_refl 1⟩

theorem accepts_payload {s : AgentService} {around : RequestSurroundings} {operation : RequestOperation}
    {payload : ResponsePayload} {schema : Schema} (hadmissible : Admissible operation)
    (hschema : answerSchema operation = some schema)
    (h : (s.dispatchOperation around operation).2 = .ok payload) :
    schema.Accepts (payloadValue payload) := by
  have hanswers := (AgentService.dispatchOperation_ok h).1
  cases operation with
  | catalogSearch request =>
    obtain rfl := Option.some.inj hschema
    simp only [AgentService.dispatchOperation] at h
    split at h
    · cases h
    · obtain ⟨response, hsearch, rfl⟩ := AgentService.map_ok h
      obtain ⟨hcount, hhits⟩ := search_hits hsearch
      have htop : request.topK ≤ 50 := hadmissible.1
      exact accepts_result (accepts_searchResponse (Nat.le_trans hcount htop) hhits)
  | catalogGetItem documentId =>
    obtain rfl := Option.some.inj hschema
    cases payload with
    | catalogItem item => exact accepts_result (accepts_catalogItem item)
    | _ => exact hanswers.elim
  | indexGetStatus =>
    obtain rfl := Option.some.inj hschema
    cases payload with
    | indexStatus status => exact accepts_result (accepts_indexStatus status)
    | _ => exact hanswers.elim
  | contentSearch _ => cases hschema
  | catalogGetItems _ => cases hschema
  | agentGetCapabilities => cases hschema
  | agentGetHealth => cases hschema

/-- The result is what the agent answers to the operation the call is mapped to: its error,
or a payload that the schema accepts which the called tool is published with. -/
def ConformsTo (s : AgentService) (around : RequestSurroundings) (params result : Value) : Prop :=
  ∃ call operation, ToolCallParams.fromValue params = some call ∧
    mapTool call.name call.arguments = .ok operation ∧
    ((∃ error, (s.dispatchOperation around operation).2 = .error error ∧
        result = toolResult (errorValue error) true) ∨
      ∃ payload schema, (s.dispatchOperation around operation).2 = .ok payload ∧
        outputSchema call.name = some schema ∧ schema.Accepts (payloadValue payload) ∧
        result = toolResult (payloadValue payload) false)

theorem conformsTo_answer {s : AgentService} {lost : Option InvokeError} {around : RequestSurroundings}
    {adapter : McpAdapter} {request : McpRequest} {result : Value}
    (hmethod : request.method = "tools/call")
    (h : (adapter.handle (agentInvoker lost around) s request).2.2.reply = .result result) :
    ConformsTo s around request.params result := by
  obtain ⟨call, operation, hparams, hmap, hresult⟩ := call_result hmethod h
  obtain ⟨hadmissible, -, -, schema, hpublished, hanswer⟩ := mapTool_ok hmap
  refine ⟨call, operation, hparams, hmap, hresult.imp_right ?_⟩
  rintro ⟨payload, hpayload, rfl⟩
  exact ⟨payload, schema, hpayload, hpublished, accepts_payload hadmissible hanswer hpayload, rfl⟩

/-- Over any agent, in any state and with the exchange lost or not: a call that gets a
result gets what the agent answers to the operation it is mapped to, its error or a value
that the schema accepts which the called tool is published with. -/
theorem tool_results_conform (s : AgentService) (lost : Option InvokeError)
    (around : RequestSurroundings) (adapter : McpAdapter) {request : McpRequest} {result : Value}
    (hmethod : request.method = "tools/call")
    (h : (adapter.handle (agentInvoker lost around) s request).2.2.reply = .result result) :
    ∃ call operation, ToolCallParams.fromValue request.params = some call ∧
      mapTool call.name call.arguments = .ok operation ∧
      ((∃ error, (s.dispatchOperation around operation).2 = .error error ∧
          result = toolResult (errorValue error) true) ∨
        ∃ payload schema, (s.dispatchOperation around operation).2 = .ok payload ∧
          outputSchema call.name = some schema ∧ schema.Accepts (payloadValue payload) ∧
          result = toolResult (payloadValue payload) false) :=
  conformsTo_answer hmethod h

end Answers

section Example

attribute [local instance] asciiTextRules indexOrder asciiCaseMapping

def itemCall : McpRequest where
  jsonrpc := "2.0"
  id := some (.number 1)
  method := "tools/call"
  params :=
    .object [("_meta", .object [("io.modelcontextprotocol/clientCapabilities", .object []),
        ("io.modelcontextprotocol/protocolVersion", .string "2026-07-28")]),
      ("arguments", .object [("document_id", .string "document:00000000000000000000000000000001")]),
      ("name", .string "localsearch.get_catalog_item")]

theorem tool_results_conform_item : ∃ result,
    (McpAdapter.new.handle (agentInvoker none Agent.undisturbed) (Agent.metadataService none)
      itemCall).2.2.reply = .result result ∧
    ∃ call operation, ToolCallParams.fromValue itemCall.params = some call ∧
      mapTool call.name call.arguments = .ok operation ∧
      ((∃ error, ((Agent.metadataService none).dispatchOperation Agent.undisturbed operation).2 =
            .error error ∧ result = toolResult (errorValue error) true) ∨
        ∃ payload schema, ((Agent.metadataService none).dispatchOperation Agent.undisturbed
            operation).2 = .ok payload ∧ outputSchema call.name = some schema ∧
          schema.Accepts (payloadValue payload) ∧
          result = toolResult (payloadValue payload) false) := by
  obtain ⟨result, hresult⟩ : ∃ result, (McpAdapter.new.handle (agentInvoker none Agent.undisturbed)
      (Agent.metadataService none) itemCall).2.2.reply = .result result := ⟨_, rfl⟩
  exact ⟨result, hresult, tool_results_conform _ _ _ _ rfl hresult⟩

end Example

section Content

variable [CaseMapping] [TextRules] [ScoreOrder]

/-- The same agent with another content reader. -/
def withContent (s : AgentService) (reader : Option Agent.ContentReader) : AgentService :=
  { s with contentReader := reader }

theorem dispatchOperation_withContent (s : AgentService) (reader : Option Agent.ContentReader)
    (around : RequestSurroundings) {operation : RequestOperation} (h : Admissible operation) :
    (withContent s reader).dispatchOperation around operation =
      (withContent (s.dispatchOperation around operation).1 reader,
        (s.dispatchOperation around operation).2) := by
  cases operation with
  | catalogSearch request =>
    have hrequire : (withContent s reader).require .searchCatalog = s.require .searchCatalog := rfl
    simp only [AgentService.dispatchOperation, hrequire]
    cases s.require .searchCatalog with
    | error error => rfl
    | ok _ =>
      dsimp only
      unfold AgentService.search
      dsimp only
      have hreader : (withContent s reader).reader = s.reader := rfl
      rw [hreader]
      cases Agent.searchChecked around s.reader.documents request <;> rfl
  | contentSearch _ => exact h.elim
  | catalogGetItem documentId => rfl
  | catalogGetItems _ => exact h.elim
  | indexGetStatus => rfl
  | agentGetCapabilities => rfl
  | agentGetHealth => rfl

theorem dispatch_withContent (s : AgentService) (reader : Option Agent.ContentReader)
    (around : RequestSurroundings) {request : AgentRequest} (h : Admissible request.operation) :
    (withContent s reader).dispatch around request =
      (withContent (s.dispatch around request).1 reader, (s.dispatch around request).2) := by
  unfold AgentService.dispatch
  dsimp only
  cases request.validate with
  | error error => rfl
  | ok _ =>
    dsimp only
    rw [dispatchOperation_withContent s reader around h]

theorem invoke_withContent (adapter : McpAdapter) (s : AgentService)
    (reader : Option Agent.ContentReader) (lost : Option InvokeError) (around : RequestSurroundings)
    {operation : RequestOperation} (h : Admissible operation) :
    adapter.invoke (agentInvoker lost around) (withContent s reader) operation =
      ((adapter.invoke (agentInvoker lost around) s operation).1,
        withContent (adapter.invoke (agentInvoker lost around) s operation).2.1 reader,
        (adapter.invoke (agentInvoker lost around) s operation).2.2) := by
  unfold McpAdapter.invoke agentInvoker
  cases lost with
  | some error => rfl
  | none =>
    have hdispatch := @dispatch_withContent _ _ _ s reader around (adapter.request operation) h
    dsimp only
    rw [hdispatch]

theorem handle_withContent (adapter : McpAdapter) (s : AgentService)
    (reader : Option Agent.ContentReader) (lost : Option InvokeError) (around : RequestSurroundings)
    (request : McpRequest) :
    adapter.handle (agentInvoker lost around) (withContent s reader) request =
      ((adapter.handle (agentInvoker lost around) s request).1,
        withContent (adapter.handle (agentInvoker lost around) s request).2.1 reader,
        (adapter.handle (agentInvoker lost around) s request).2.2) := by
  rcases handle_cases (agentInvoker lost around) adapter request with
    ⟨response, -, hquiet⟩ | ⟨id, -, hlist⟩ | ⟨id, call, operation, -, -, hmap, hcall⟩
  · rw [hquiet, hquiet]
  · rw [hlist, hlist]
    unfold McpAdapter.listTools
    rw [@invoke_withContent _ _ _ adapter s reader lost around .agentGetCapabilities trivial]
  · rw [hcall, hcall, invoke_withContent adapter s reader lost around (mapTool_ok hmap).1]

/-- Whatever a client of the adapter sends, in whatever order, and even where the agent
grants content search: no response depends on the content index. -/
theorem sessions_ignore_content (adapter : McpAdapter) (s : AgentService)
    (reader : Option Agent.ContentReader)
    (session : List (Option InvokeError × RequestSurroundings × McpRequest)) :
    converse adapter (withContent s reader) session = converse adapter s session := by
  induction session generalizing adapter s with
  | nil => rfl
  | cons first rest ih =>
    obtain ⟨lost, around, request⟩ := first
    simp only [converse]
    rw [handle_withContent adapter s reader lost around request, ih]

end Content

end LocalSearch.Mcp
