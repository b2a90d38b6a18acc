import LocalSearch.Mcp.Adapter

/-!
# What the tools ask

Every request of the adapter passes the agent's own checks and asks for metadata at most,
whatever a client sends.
-/
namespace LocalSearch.Mcp

set_option autoImplicit false

open Core Lib Graph Catalog AgentApi
open Agent (SearchScope SearchRequest SearchHit AgentService RequestSurroundings)
open Desktop (CatalogItem SearchResponse agentApiVersion agentCodecVersion maxQueryBytes)

section Mapping

variable [CaseMapping] [TextRules]

/-- A filter as the agent compares it. -/
def Normalized (extension : String) : Prop :=
  extension.isEmpty = false ∧ extension.utf8ByteSize ≤ 32 ∧
    extension.toList.all TextRules.isAlphanumeric = true

/-- What the adapter may ask for. -/
def Admissible : RequestOperation → Prop
  | .catalogSearch request => request.topK ≤ mcpSearchMaxTopK ∧
      request.filters.extensions.Pairwise (· < ·) ∧ ∀ extension ∈ request.filters.extensions,
        Normalized extension
  | .catalogGetItem _ | .indexGetStatus | .agentGetCapabilities => True
  | .contentSearch _ | .catalogGetItems _ | .agentGetHealth => False

theorem normalizeExtension_ok {value extension : String} (h : normalizeExtension value = .ok extension) :
    Normalized extension := by
  unfold normalizeExtension at h
  dsimp only at h
  split at h
  · cases h
  · next hbounds =>
    obtain rfl := Except.ok.inj h
    obtain ⟨hempty, hrest⟩ := not_or.mp hbounds
    obtain ⟨hsize, hletters⟩ := not_or.mp hrest
    exact ⟨Bool.eq_false_iff.mpr hempty, Nat.le_of_not_lt hsize, not_not.mp hletters⟩

theorem mapM_ok {values extensions : List String}
    (h : values.mapM normalizeExtension = .ok extensions) :
    extensions.length = values.length ∧ ∀ extension ∈ extensions, Normalized extension := by
  induction values generalizing extensions with
  | nil =>
    rw [List.mapM_nil] at h
    obtain rfl := Except.ok.inj h
    exact ⟨rfl, fun extension hmem => absurd hmem List.not_mem_nil⟩
  | cons value values ih =>
    rw [List.mapM_cons] at h
    obtain ⟨first, hfirst, h⟩ := bind_ok.mp h
    obtain ⟨rest, hrest, h⟩ := bind_ok.mp h
    obtain rfl := Except.ok.inj h
    obtain ⟨hlength, hall⟩ := ih hrest
    refine ⟨by rw [List.length_cons, List.length_cons, hlength], fun extension hmem => ?_⟩
    rcases List.mem_cons.mp hmem with rfl | hmem
    · exact normalizeExtension_ok hfirst
    · exact hall extension hmem

theorem normalizeExtensions_ok {values extensions : List String}
    (h : normalizeExtensions values = .ok extensions) :
    extensions.length ≤ values.length ∧ extensions.Pairwise (· < ·) ∧
      ∀ extension ∈ extensions, Normalized extension := by
  unfold normalizeExtensions at h
  obtain ⟨normalized, hnormalized, h⟩ := bind_ok.mp h
  obtain rfl := Except.ok.inj h
  obtain ⟨hlength, hall⟩ := mapM_ok hnormalized
  have hperm := List.perm_insertionSort (· ≤ ·) normalized.dedup
  refine ⟨?_, ?_, fun extension hmem => ?_⟩
  · rw [hperm.length_eq, ← hlength]
    exact (List.dedup_sublist normalized).length_le
  · have hsorted := List.pairwise_insertionSort (· ≤ ·) normalized.dedup
    have hunique : (normalized.dedup.insertionSort (· ≤ ·)).Nodup :=
      hperm.nodup_iff.mpr (List.nodup_dedup normalized)
    exact (hsorted.and hunique).imp fun hboth => lt_of_le_of_ne hboth.1 hboth.2
  · exact hall extension (List.mem_dedup.mp (hperm.mem_iff.mp hmem))

/-- The schema of what an operation answers with. -/
def answerSchema : RequestOperation → Option Schema
  | .catalogSearch _ => some (resultSchema "search" searchResponseSchema)
  | .catalogGetItem _ => some (resultSchema "catalog_item" catalogItemSchema)
  | .indexGetStatus => some (resultSchema "index_status" indexStatusSchema)
  | _ => none

/-- What a tool is mapped to passes the agent's checks, needs what the tool needs and
answers with what the tool is published with. -/
theorem mapTool_ok {name : String} {arguments : Value} {operation : RequestOperation}
    (h : mapTool name arguments = .ok operation) :
    Admissible operation ∧ operation.validate = .ok () ∧
      requiredCapability name = Agent.requiredCapability operation ∧
      ∃ schema, outputSchema name = some schema ∧ answerSchema operation = some schema := by
  unfold mapTool at h
  split at h
  · next hname =>
    split at h
    · cases h
    · next args hargs =>
      split at h
      · cases h
      · next hpolicy =>
        obtain ⟨extensions, hextensions, h⟩ := bind_ok.mp h
        obtain rfl := Except.ok.inj h
        obtain ⟨hcount, hsorted, hnormalized⟩ := normalizeExtensions_ok hextensions
        have hbounds : args.query.isEmpty = false ∧ args.query.utf8ByteSize ≤ maxQueryBytes ∧
            args.topK ≠ 0 ∧ args.topK ≤ mcpSearchMaxTopK ∧ args.extensions.length ≤ 32 := by
          simp only [not_or, Bool.not_eq_true, Nat.not_lt] at hpolicy
          exact hpolicy
        obtain ⟨hquery, hsize, hzero, htop, hfilters⟩ := hbounds
        have hmaximum : mcpSearchMaxTopK ≤ Agent.maxTopK := by decide
        refine ⟨⟨htop, hsorted, hnormalized⟩, ?_, by rw [hname]; rfl, _, by rw [hname]; rfl, rfl⟩
        have hbounded : ¬ (args.query.isEmpty = true ∨ maxQueryBytes < args.query.utf8ByteSize) :=
          not_or.mpr ⟨Bool.eq_false_iff.mp hquery, Nat.not_lt.mpr hsize⟩
        unfold RequestOperation.validate Desktop.RequestOperation.validate
        dsimp only
        rw [if_neg hbounded, if_neg (by omega), if_neg (by omega)]
  · next hsearch =>
    split at h
    · next hname =>
      split at h
      · cases h
      · split at h
        · cases h
        · obtain rfl := Except.ok.inj h
          exact ⟨trivial, rfl, by rw [hname]; rfl, _, by rw [hname]; rfl, rfl⟩
    · split at h
      · next hname =>
        split at h
        · obtain rfl := Except.ok.inj h
          exact ⟨trivial, rfl, by rw [hname]; rfl, _, by rw [hname]; rfl, rfl⟩
        · cases h
      · cases h

/-- What a request comes to: a response without the agent, which is an error but for the
discovery; the list of tools; or the operation of a call. -/
theorem handle_cases {ω : Type} (invoker : AgentInvoker ω) (adapter : McpAdapter)
    (request : McpRequest) :
    (∃ response, (request.method ≠ "server/discover" → ∃ error, response.reply = .error error) ∧
      ∀ world, adapter.handle invoker world request = (adapter, world, response)) ∨
    (∃ id, request.method = "tools/list" ∧
      ∀ world, adapter.handle invoker world request = adapter.listTools invoker world id) ∨
    ∃ id call operation, request.method = "tools/call" ∧
      ToolCallParams.fromValue request.params = some call ∧
      mapTool call.name call.arguments = .ok operation ∧
      ∀ world, adapter.handle invoker world request =
        ((adapter.invoke invoker world operation).1, (adapter.invoke invoker world operation).2.1,
          toolAnswer id (adapter.invoke invoker world operation).2.2) := by
  unfold McpAdapter.handle
  cases request.id with
  | none => exact Or.inl ⟨_, fun _ => ⟨_, rfl⟩, fun _ => rfl⟩
  | some id =>
    by_cases hversion : request.jsonrpc ≠ "2.0"
    · exact Or.inl ⟨_, fun _ => ⟨_, rfl⟩, fun _ => if_pos hversion⟩
    · by_cases hlegacy : request.method = "initialize"
      · simp only [if_neg hversion, if_pos hlegacy]
        exact Or.inl ⟨_, fun _ => ⟨_, rfl⟩, fun _ => rfl⟩
      · simp only [if_neg hversion, if_neg hlegacy]
        cases validateModernMeta request.params with
        | error error =>
          refine Or.inl ⟨_, fun _ => ?_, fun _ => rfl⟩
          cases error <;> exact ⟨_, rfl⟩
        | ok _ =>
          by_cases hdiscover : request.method = "server/discover"
          · simp only [if_pos hdiscover]
            exact Or.inl ⟨_, fun hother => absurd hdiscover hother, fun _ => rfl⟩
          · by_cases hlist : request.method = "tools/list"
            · simp only [if_neg hdiscover, if_pos hlist]
              exact Or.inr (Or.inl ⟨id, hlist, fun _ => rfl⟩)
            · by_cases hcall : request.method = "tools/call"
              · simp only [if_neg hdiscover, if_neg hlist, if_pos hcall]
                unfold McpAdapter.callTool
                cases hparams : ToolCallParams.fromValue request.params with
                | none => exact Or.inl ⟨_, fun _ => ⟨_, rfl⟩, fun _ => rfl⟩
                | some call =>
                  dsimp only
                  cases hmap : mapTool call.name call.arguments with
                  | error message => exact Or.inl ⟨_, fun _ => ⟨_, rfl⟩, fun _ => rfl⟩
                  | ok operation =>
                    exact Or.inr (Or.inr ⟨id, call, operation, hcall, rfl, hmap, fun _ => rfl⟩)
              · simp only [if_neg hdiscover, if_neg hlist, if_neg hcall]
                exact Or.inl ⟨_, fun _ => ⟨_, rfl⟩, fun _ => rfl⟩

omit [CaseMapping] [TextRules] in
theorem requestId_size (adapter : McpAdapter) (operation : RequestOperation) :
    4 ≤ (adapter.request operation).requestId.utf8ByteSize ∧
      (adapter.request operation).requestId.utf8ByteSize ≤ 24 := by
  have hcounter : adapter.nextRequestId.toNat < 10 ^ 20 :=
    Nat.lt_trans adapter.nextRequestId.toNat_lt (by decide)
  have hdigits := utf8ByteSize_repr_le (by decide) hcounter
  have htag : ("mcp-" : String).utf8ByteSize = 4 := rfl
  have hid : (adapter.request operation).requestId = "mcp-" ++ adapter.nextRequestId.toNat.repr := rfl
  rw [hid, String.utf8ByteSize_append]
  omega

omit [CaseMapping] [TextRules] in
/-- The adapter's own part of a request is always in bounds. -/
theorem request_validate (adapter : McpAdapter) (operation : RequestOperation) :
    (adapter.request operation).validate = operation.validate := by
  obtain ⟨hlong, hshort⟩ := requestId_size adapter operation
  have hempty : ¬ (adapter.request operation).requestId.isEmpty = true := by
    intro hempty
    rw [String.isEmpty_iff.mp hempty] at hlong
    exact absurd hlong (by decide)
  have hbound : Desktop.maxRequestIdBytes = 64 := rfl
  have hprotocol : (adapter.request operation).protocolVersion = agentApiVersion := rfl
  have hcodec : (adapter.request operation).codecVersion = agentCodecVersion := rfl
  have hdeadline : ¬ Desktop.maxDeadlineMs < (adapter.request operation).deadlineMs := by
    show ¬ Desktop.maxDeadlineMs < agentDeadlineMs
    decide
  have hbounded : ¬ ((adapter.request operation).requestId.isEmpty = true ∨
      Desktop.maxRequestIdBytes < (adapter.request operation).requestId.utf8ByteSize) :=
    not_or.mpr ⟨hempty, by omega⟩
  unfold AgentRequest.validate
  rw [if_neg (not_not.mpr hprotocol), if_neg (not_not.mpr hcodec), if_neg hbounded, if_neg hdeadline]
  rfl

/-- A call that gets a result was mapped, and the result is what the agent answers to the
mapped operation. -/
theorem call_result [ScoreOrder] {adapter : McpAdapter} {s : AgentService} {lost : Option InvokeError}
    {around : RequestSurroundings} {request : McpRequest} {result : Value}
    (hmethod : request.method = "tools/call")
    (h : (adapter.handle (agentInvoker lost around) s request).2.2.reply = .result result) :
    ∃ call operation, ToolCallParams.fromValue request.params = some call ∧
      mapTool call.name call.arguments = .ok operation ∧
      ((∃ error, (s.dispatchOperation around operation).2 = .error error ∧
          result = toolResult (errorValue error) true) ∨
        ∃ payload, (s.dispatchOperation around operation).2 = .ok payload ∧
          result = toolResult (payloadValue payload) false) := by
  rcases handle_cases (agentInvoker lost around) adapter request with
    ⟨response, herror, hquiet⟩ | ⟨id, hlist, -⟩ | ⟨id, call, operation, -, hparams, hmap, hcall⟩
  · obtain ⟨error, herror⟩ := herror (by rw [hmethod]; decide)
    rw [hquiet, herror] at h
    cases h
  · exact absurd (hlist.symm.trans hmethod) (by decide)
  · refine ⟨call, operation, hparams, hmap, ?_⟩
    rw [hcall] at h
    cases lost with
    | some error =>
      have hlost : (toolAnswer id (.error error)).reply = .result result := h
      cases error <;> cases hlost
    | none =>
      have hvalid := (request_validate adapter operation).trans (mapTool_ok hmap).2.1
      have hresponse : (toolAnswer id (.ok (s.dispatch around (adapter.request operation)).2)).reply =
          .result result := h
      rw [AgentService.dispatch_valid s around hvalid] at hresponse
      have hoperation : (adapter.request operation).operation = operation := rfl
      rw [hoperation] at hresponse
      cases hresult : (s.dispatchOperation around operation).2 with
      | error error =>
        rw [hresult] at hresponse
        exact Or.inl ⟨error, rfl, (McpReply.result.inj hresponse).symm⟩
      | ok payload =>
        rw [hresult] at hresponse
        exact Or.inr ⟨payload, rfl, (McpReply.result.inj hresponse).symm⟩

section Session

variable {ω : Type} (invoker : AgentInvoker ω)

/-- What the requests to the agent so far are like. -/
structure Asked (adapter : McpAdapter) (sent : List AgentRequest) : Prop where
  admissible : ∀ request ∈ sent, request.validate = .ok () ∧ Admissible request.operation
  next : adapter.nextRequestId = UInt64.ofNat (sent.length + 1)
  ids : sent.map (·.requestId) = (List.range sent.length).map fun i =>
    "mcp-" ++ (UInt64.ofNat (i + 1)).toNat.repr

omit [CaseMapping] in
theorem asked_invoke {adapter : McpAdapter} {world : List AgentRequest × ω} (h : Asked adapter world.1)
    {operation : RequestOperation} (hadmissible : Admissible operation)
    (hvalid : operation.validate = .ok ()) :
    Asked (adapter.invoke (recording invoker) world operation).1
      (adapter.invoke (recording invoker) world operation).2.1.1 where
  admissible := by
    intro request hrequest
    rcases List.mem_append.mp hrequest with hrequest | hrequest
    · exact h.admissible request hrequest
    · obtain rfl := List.mem_singleton.mp hrequest
      exact ⟨(request_validate adapter operation).trans hvalid, hadmissible⟩
  next := by
    show adapter.nextRequestId + 1 = UInt64.ofNat ((world.1 ++ [_]).length + 1)
    rw [List.length_append, List.length_singleton, h.next, UInt64.ofNat_add (world.1.length + 1) 1]
    rfl
  ids := by
    show (world.1 ++ [adapter.request operation]).map (·.requestId) = _
    have hlength : (world.1 ++ [adapter.request operation]).length = world.1.length + 1 := by simp
    show _ = (List.range (world.1 ++ [adapter.request operation]).length).map _
    rw [hlength, List.range_succ, List.map_append, List.map_append, h.ids]
    show _ ++ ["mcp-" ++ adapter.nextRequestId.toNat.repr] = _
    rw [h.next]
    rfl

theorem asked_handle {adapter : McpAdapter} {world : List AgentRequest × ω} (h : Asked adapter world.1)
    (request : McpRequest) :
    Asked (adapter.handle (recording invoker) world request).1
        (adapter.handle (recording invoker) world request).2.1.1 ∧
      (adapter.handle (recording invoker) world request).2.1.1.length ≤ world.1.length + 1 := by
  have hcount : ∀ operation, (adapter.invoke (recording invoker) world operation).2.1.1.length =
      world.1.length + 1 := by
    intro operation
    show (world.1 ++ [_]).length = _
    simp
  rcases handle_cases (recording invoker) adapter request with
    ⟨response, -, hquiet⟩ | ⟨id, -, hlist⟩ | ⟨id, call, operation, -, -, hmap, hcall⟩
  · rw [hquiet]
    exact ⟨h, Nat.le_succ _⟩
  · rw [hlist]
    exact ⟨asked_invoke invoker h trivial rfl, Nat.le_of_eq (hcount .agentGetCapabilities)⟩
  · rw [hcall]
    obtain ⟨hadmissible, hvalid, -⟩ := mapTool_ok hmap
    exact ⟨asked_invoke invoker h hadmissible hvalid, Nat.le_of_eq (hcount operation)⟩

theorem asked_serve {adapter : McpAdapter} (world : List AgentRequest × ω) (h : Asked adapter world.1)
    (requests : List McpRequest) :
    Asked (adapter.serve (recording invoker) world requests).1
        (adapter.serve (recording invoker) world requests).2.1.1 ∧
      (adapter.serve (recording invoker) world requests).2.1.1.length ≤
        world.1.length + requests.length := by
  induction requests generalizing adapter world with
  | nil => exact ⟨h, Nat.le_refl _⟩
  | cons request rest ih =>
    obtain ⟨hfirst, hone⟩ := asked_handle invoker h request
    obtain ⟨hrest, hmore⟩ := ih _ hfirst
    refine ⟨hrest, Nat.le_trans hmore ?_⟩
    rw [List.length_cons]
    omega

/-- Whatever a client sends and whatever comes back: every request that reaches the agent
passes the agent's own checks and asks for the catalog, one item, the status or the
capabilities, with normalized filters and at most fifty results; and no two of fewer than
2^64 requests carry one identifier. -/
theorem agent_requests_admissible (world : ω) (requests : List McpRequest) :
    let sent := (McpAdapter.new.serve (recording invoker) ([], world) requests).2.1.1
    (∀ request ∈ sent, request.validate = .ok () ∧ Admissible request.operation) ∧
      (requests.length < 2 ^ 64 → (sent.map (·.requestId)).Nodup) := by
  have hstart : Asked McpAdapter.new ([] : List AgentRequest) :=
    ⟨fun request hrequest => absurd hrequest List.not_mem_nil, rfl, rfl⟩
  obtain ⟨hasked, hcount⟩ := asked_serve invoker ([], world) hstart requests
  refine ⟨hasked.admissible, fun hfew => ?_⟩
  rw [hasked.ids]
  refine List.Nodup.map_on ?_ List.nodup_range
  intro i hi j hj heq
  have hsame := repr_injective (append_left_injective "mcp-" heq)
  rw [List.mem_range] at hi hj
  rw [List.length_nil, Nat.zero_add] at hcount
  have hbound : ∀ {k}, k < _ → k + 1 < UInt64.size := fun hk =>
    Nat.lt_of_le_of_lt (Nat.succ_le_of_lt hk) (Nat.lt_of_le_of_lt hcount hfew)
  rw [UInt64.toNat_ofNat_of_lt' (hbound hi), UInt64.toNat_ofNat_of_lt' (hbound hj)] at hsame
  exact Nat.succ.inj hsame

end Session

end Mapping

end LocalSearch.Mcp
