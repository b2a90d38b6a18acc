import LocalSearch.Mcp.Manifest
import LocalSearch.Agent.Answers
import Mathlib.Data.List.Sort

/-!
# The MCP adapter

A request of the protocol is refused, answered without the agent, or mapped to one
request to the agent whose response is wrapped. The adapter keeps no more than a counter
for the identifiers of its own requests.
-/
namespace LocalSearch.Mcp

set_option autoImplicit false

open Core Lib Graph Catalog AgentApi
open Agent (SearchScope SearchRequest SearchHit MatchType AgentService RequestSurroundings)
open Desktop (AgentErrorCode AgentWireError CatalogItem SearchResponse ContentSearchHit
  ContentSearchResponse agentApiVersion agentCodecVersion maxQueryBytes)

def idValue {kind : IdKind} (id : Id128 kind) : Value := .string id.display

def objectKeyValue (key : FileKey) : Value :=
  .object [("file_id", idValue key.fileId), ("volume_id", idValue key.volumeId)]

def optionValue {α : Type} (value : α → Value) : Option α → Value
  | none => .null
  | some a => value a

def natValue (n : Nat) : Value := .integer n

def fileKindName : FileKind → String
  | .file => "file"
  | .directory => "directory"
  | .symlink => "symlink"
  | .special => "special"
  | .other => "other"

def availabilityName : Availability → String
  | .online => "online"
  | .offline => "offline"
  | .unknown => "unknown"

def matchTypeName : MatchType → String
  | .exactName => "exact_name"
  | .prefixName => "prefix_name"
  | .tokenName => "token_name"
  | .substringName => "substring_name"
  | .path => "path"

def capabilityName : Capability → String
  | .searchCatalog => "search.catalog"
  | .searchContent => "search.content"
  | .readMetadata => "read.metadata"
  | .indexStatus => "index.status"

def errorCodeName : AgentErrorCode → String
  | .invalidRequest => "invalid_request"
  | .unsupportedProtocolVersion => "unsupported_protocol_version"
  | .unsupportedCodecVersion => "unsupported_codec_version"
  | .unsupportedCapability => "unsupported_capability"
  | .unauthorized => "unauthorized"
  | .forbidden => "forbidden"
  | .queryPolicyRejected => "query_policy_rejected"
  | .deadlineExceeded => "deadline_exceeded"
  | .cancelled => "cancelled"
  | .notFound => "not_found"
  | .unavailable => "unavailable"
  | .indexNotReady => "index_not_ready"
  | .resourceExhausted => "resource_exhausted"
  | .internal => "internal"

def searchHitValue (hit : SearchHit) : Value :=
  .object [("availability", .string (availabilityName hit.availability)),
    ("document_id", idValue hit.documentId), ("extension", optionValue .string hit.extension),
    ("file_link_id", idValue hit.fileLinkId), ("kind", .string (fileKindName hit.kind)),
    ("match_type", .string (matchTypeName hit.matchType)),
    ("modified_at_unix_ms", optionValue .integer hit.modifiedAtUnixMs), ("name", .string hit.name),
    ("object_key", objectKeyValue hit.objectKey), ("rank", natValue hit.rank),
    ("ranking_version", natValue hit.rankingVersion), ("resolved_path", .string hit.resolvedPath),
    ("size", natValue hit.size)]

def searchResponseValue (response : SearchResponse) : Value :=
  .object [("hits", .array (response.hits.map searchHitValue)),
    ("index_generation", natValue response.indexGeneration),
    ("took_micros", natValue response.tookMicros)]

def catalogItemValue (item : CatalogItem) : Value :=
  .object [("availability", .string (availabilityName item.availability)),
    ("document_id", idValue item.documentId), ("document_version", natValue item.documentVersion),
    ("extension", optionValue .string item.extension), ("file_link_id", idValue item.fileLinkId),
    ("kind", .string (fileKindName item.kind)),
    ("modified_at_unix_ms", optionValue .integer item.modifiedAtUnixMs), ("name", .string item.name),
    ("object_key", objectKeyValue item.objectKey), ("resolved_path", .string item.resolvedPath),
    ("size", natValue item.size)]

def contentSearchHitValue (hit : ContentSearchHit) : Value :=
  .object [("item", catalogItemValue hit.item), ("rank", natValue hit.rank)]

def contentSearchResponseValue (response : ContentSearchResponse) : Value :=
  .object [("content_schema", .string response.contentSchema),
    ("hits", .array (response.hits.map contentSearchHitValue)),
    ("took_micros", natValue response.tookMicros)]

def indexStatusValue (status : IndexStatus) : Value :=
  .object [("applied_sequence", natValue status.appliedSequence),
    ("backlog_mutations", natValue status.backlogMutations),
    ("document_count", natValue status.documentCount),
    ("durable_sequence", natValue status.durableSequence),
    ("index_generation", optionValue natValue status.indexGeneration), ("ready", .bool status.ready)]

/-- A set is written in the order of the declaration. -/
def grantedValue (granted : Finset Capability) : Value :=
  .array (([.searchCatalog, .searchContent, .readMetadata, .indexStatus].filter (· ∈ granted)).map
    fun capability => .string (capabilityName capability))

def capabilitiesValue (capabilities : Capabilities) : Value :=
  .object [("agent_api_versions", .array (capabilities.agentApiVersions.map natValue)),
    ("codec_versions", .array (capabilities.codecVersions.map natValue)),
    ("granted", grantedValue capabilities.granted),
    ("maximum_frame_bytes", natValue capabilities.maximumFrameBytes),
    ("maximum_top_k", natValue capabilities.maximumTopK),
    ("ranking_version", natValue capabilities.rankingVersion)]

def healthValue (health : ServiceHealth) : Value :=
  .object [("graph_ready", .bool health.graphReady), ("index_ready", .bool health.indexReady),
    ("service_ready", .bool health.serviceReady)]

def tagged (type : String) (value : Value) : Value :=
  .object [("type", .string type), ("value", value)]

def payloadValue : ResponsePayload → Value
  | .search response => tagged "search" (searchResponseValue response)
  | .contentSearch response => tagged "content_search" (contentSearchResponseValue response)
  | .catalogItem item => tagged "catalog_item" (catalogItemValue item)
  | .catalogItems items => tagged "catalog_items" (.array (items.map catalogItemValue))
  | .indexStatus status => tagged "index_status" (indexStatusValue status)
  | .capabilities capabilities => tagged "capabilities" (capabilitiesValue capabilities)
  | .health health => tagged "health" (healthValue health)

/-- A derived reader's access to the fields: known fields only, or the fields in order. -/
def structFields (names : List String) : Value → Option (String → Option Value)
  | .object fields =>
      if fields.all fun field => field.1 ∈ names then some fun name => fields.lookup name else none
  | .array items =>
      if items.length ≤ names.length then some fun name => (names.zip items).lookup name else none
  | _ => none

/-- A field with a default. -/
def defaulted {α : Type} (read : Value → Option α) (default : α) : Option Value → Option α
  | none => some default
  | some value => read value

structure ToolCallParams where
  metadata : Value
  name : String
  arguments : Value

def ToolCallParams.fromValue (value : Value) : Option ToolCallParams := do
  let field ← structFields ["_meta", "name", "arguments"] value
  let metadata ← field "_meta"
  let name ← (field "name").bind Value.asStr
  some ⟨metadata, name, (field "arguments").getD .null⟩

structure SearchArguments where
  query : String
  scope : SearchScope
  extensions : List String
  directoryFilter : Option String
  topK : Nat

def defaultTopK : Nat := 10

def scopeOfName (name : String) : Option SearchScope :=
  if name = "all" then some .all
  else if name = "files" then some .files
  else if name = "folders" then some .folders
  else none

/-- A unit variant is a string, or an object with its name and `null`. -/
def scopeFromValue : Value → Option SearchScope
  | .string name => scopeOfName name
  | .object [(name, .null)] => scopeOfName name
  | _ => none

def stringsFromValue : Value → Option (List String)
  | .array items => items.mapM Value.asStr
  | _ => none

def optionalString : Value → Option (Option String)
  | .null => some none
  | value => value.asStr.map some

def Value.asU16 : Value → Option Nat
  | .integer value => if 0 ≤ value ∧ value < 2 ^ 16 then some value.toNat else none
  | _ => none

def SearchArguments.fromValue (value : Value) : Option SearchArguments := do
  let field ← structFields ["query", "scope", "extensions", "directory_filter", "top_k"] value
  let query ← (field "query").bind Value.asStr
  let scope ← defaulted scopeFromValue .all (field "scope")
  let extensions ← defaulted stringsFromValue [] (field "extensions")
  let directoryFilter ← defaulted optionalString none (field "directory_filter")
  let topK ← defaulted Value.asU16 defaultTopK (field "top_k")
  some ⟨query, scope, extensions, directoryFilter, topK⟩

structure ItemArguments where
  documentId : String

def ItemArguments.fromValue (value : Value) : Option ItemArguments := do
  let field ← structFields ["document_id"] value
  let documentId ← (field "document_id").bind Value.asStr
  some ⟨documentId⟩

def mcpProtocolVersion : String := "2026-07-28"
def agentDeadlineMs : Nat := 2000
def mcpSearchMaxTopK : Nat := 50

def requiredCapability (name : String) : Option Capability :=
  if name = "localsearch.search_files" then some .searchCatalog
  else if name = "localsearch.get_catalog_item" then some .readMetadata
  else if name = "localsearch.get_index_status" then some .indexStatus
  else none

section Mapping

variable [CaseMapping] [TextRules]

/-- One turn of the loop of `normalize_extensions`. -/
def normalizeExtension (value : String) : Except String String :=
  let normalized := CaseMapping.toLowercase (String.ofList (value.toList.dropWhile (· = '.')))
  if normalized.isEmpty ∨ 32 < normalized.utf8ByteSize ∨
      ¬ normalized.toList.all TextRules.isAlphanumeric then
    .error "extension filters must be bounded alphanumeric values"
  else .ok normalized

def normalizeExtensions (values : List String) : Except String (List String) := do
  let normalized ← values.mapM normalizeExtension
  .ok (normalized.dedup.insertionSort (· ≤ ·))

def mapTool (name : String) (arguments : Value) : Except String RequestOperation :=
  if name = "localsearch.search_files" then
    match SearchArguments.fromValue arguments with
    | none => .error "invalid localsearch.search_files arguments"
    | some args =>
        if args.query.isEmpty ∨ maxQueryBytes < args.query.utf8ByteSize ∨ args.topK = 0 ∨
            mcpSearchMaxTopK < args.topK ∨ 32 < args.extensions.length then
          .error "search arguments exceed bounded policy"
        else do
          let extensions ← normalizeExtensions args.extensions
          .ok (.catalogSearch
            ⟨args.query, args.scope, ⟨extensions, args.directoryFilter, none, none⟩, args.topK⟩)
  else if name = "localsearch.get_catalog_item" then
    match ItemArguments.fromValue arguments with
    | none => .error "invalid localsearch.get_catalog_item arguments"
    | some args =>
        match (Id128.fromStr args.documentId : Except IdParseError DocumentId) with
        | .error _ => .error "invalid canonical document_id"
        | .ok documentId => .ok (.catalogGetItem documentId)
  else if name = "localsearch.get_index_status" then
    match arguments.asObject with
    | some [] => .ok .indexGetStatus
    | _ => .error "localsearch.get_index_status takes no arguments"
  else .error "unknown or unavailable LocalSearch tool"

end Mapping

inductive MetaError where
  | missing
  | unsupported (requested : Option String)
  | invalidCapabilities

def validateModernMeta (params : Value) : Except MetaError Unit :=
  match (params.get "_meta").bind Value.asObject with
  | none => .error .missing
  | some fields =>
      let requested := (fields.lookup "io.modelcontextprotocol/protocolVersion").bind Value.asStr
      if requested ≠ some mcpProtocolVersion then .error (.unsupported requested)
      else if ((fields.lookup "io.modelcontextprotocol/clientCapabilities").bind Value.asObject).isNone then
        .error .invalidCapabilities
      else .ok ()

def McpResponse.success (id : McpId) (result : Value) : McpResponse := ⟨some id, .result result⟩

/-- An error with data. -/
def McpResponse.errorWith (id : McpId) (code : Int) (message : String) (data : Value) : McpResponse :=
  ⟨some id, .error ⟨code, message, some data⟩⟩

def supportedVersions : Value := .array [.string mcpProtocolVersion]

def metaError (id : McpId) : MetaError → McpResponse
  | .missing => .error (some id) (-32602) "modern MCP request metadata is required"
  | .unsupported requested =>
      .errorWith id (-32022) "unsupported MCP protocol version"
        (.object [("requestedVersion", optionValue .string requested),
          ("supportedVersions", supportedVersions)])
  | .invalidCapabilities => .error (some id) (-32602) "clientCapabilities metadata must be an object"

def discovery : Value :=
  .object [("_meta", .object [("io.modelcontextprotocol/serverInfo",
      .object [("name", .string "LocalSearch"), ("version", .string "0.1.0")])]),
    ("cacheScope", .string "private"),
    ("capabilities", .object [("tools", .object [("listChanged", .bool false)])]),
    ("resultType", .string "complete"), ("supportedVersions", supportedVersions),
    ("ttlMs", .integer 300000)]

def toolResult (structured : Value) (isError : Bool) : Value :=
  .object [("content", .array [.object [("text", .string structured.text), ("type", .string "text")]]),
    ("isError", .bool isError), ("resultType", .string "complete"), ("structuredContent", structured)]

inductive InvokeError where
  | unavailable
  | cancelled
  | incompatible

/-- What a request makes of the agent's side, and what comes back. -/
abbrev AgentInvoker (ω : Type) := ω → AgentRequest → ω × Except InvokeError AgentResponse

def invocationError (id : McpId) : InvokeError → McpResponse
  | .cancelled => .error (some id) (-32800) "request cancelled"
  | .unavailable => .error (some id) (-32603) "LocalSearch Agent is unavailable"
  | .incompatible => .error (some id) (-32603) "LocalSearch Agent response was incompatible"

/-- The tools whose capability is granted. -/
def grantedTools (granted : Finset Capability) : List Value :=
  toolManifest.filter fun tool =>
    (((tool.get "name").bind Value.asStr).bind requiredCapability).any (· ∈ granted)

/-- The end of `list_tools`. -/
def listedTools (id : McpId) : Except InvokeError AgentResponse → McpResponse
  | .error error => invocationError id error
  | .ok response =>
      match response.result with
      | some (.capabilities capabilities) =>
          .success id (.object [("cacheScope", .string "private"), ("resultType", .string "complete"),
            ("tools", .array (grantedTools capabilities.granted)), ("ttlMs", .integer 300000)])
      | _ => .error (some id) (-32603) "Agent capabilities response was incompatible"

def errorValue (error : AgentWireError) : Value :=
  .object [("code", .string (errorCodeName error.code)), ("message", .string error.message)]

/-- The end of `call_tool`. -/
def toolAnswer (id : McpId) : Except InvokeError AgentResponse → McpResponse
  | .error error => invocationError id error
  | .ok response =>
      match response.error with
      | some error => .success id (toolResult (errorValue error) true)
      | none =>
          match response.result with
          | none => .error (some id) (-32603) "Agent response was incompatible"
          | some payload => .success id (toolResult (payloadValue payload) false)

structure McpAdapter where
  nextRequestId : UInt64

namespace McpAdapter

def new : McpAdapter := ⟨1⟩

/-- The next request to the agent. -/
def request (adapter : McpAdapter) (operation : RequestOperation) : AgentRequest where
  protocolVersion := agentApiVersion
  codecVersion := agentCodecVersion
  requestId := "mcp-" ++ adapter.nextRequestId.toNat.repr
  deadlineMs := agentDeadlineMs
  operation := operation

section Handle

variable {ω : Type} (invoker : AgentInvoker ω)

def invoke (adapter : McpAdapter) (world : ω) (operation : RequestOperation) :
    McpAdapter × ω × Except InvokeError AgentResponse :=
  (⟨adapter.nextRequestId + 1⟩, invoker world (adapter.request operation))

def listTools (adapter : McpAdapter) (world : ω) (id : McpId) : McpAdapter × ω × McpResponse :=
  let (adapter, world, answer) := invoke invoker adapter world .agentGetCapabilities
  (adapter, world, listedTools id answer)

variable [CaseMapping] [TextRules]

def callTool (adapter : McpAdapter) (world : ω) (id : McpId) (params : Value) :
    McpAdapter × ω × McpResponse :=
  match ToolCallParams.fromValue params with
  | none => (adapter, world, .error (some id) (-32602) "invalid tools/call params")
  | some call =>
      match mapTool call.name call.arguments with
      | .error message => (adapter, world, .error (some id) (-32602) message)
      | .ok operation =>
          let (adapter, world, answer) := invoke invoker adapter world operation
          (adapter, world, toolAnswer id answer)

def handle (adapter : McpAdapter) (world : ω) (request : McpRequest) : McpAdapter × ω × McpResponse :=
  match request.id with
  | none => (adapter, world, .error none (-32600) "request id is required")
  | some id =>
      if request.jsonrpc ≠ "2.0" then
        (adapter, world, .error (some id) (-32600) "jsonrpc must be 2.0")
      else if request.method = "initialize" then
        (adapter, world, .errorWith id (-32601)
          "legacy initialize is not supported; use MCP 2026-07-28 server/discover"
          (.object [("supportedVersions", supportedVersions)]))
      else
        match validateModernMeta request.params with
        | .error error => (adapter, world, metaError id error)
        | .ok () =>
            if request.method = "server/discover" then (adapter, world, .success id discovery)
            else if request.method = "tools/list" then listTools invoker adapter world id
            else if request.method = "tools/call" then callTool invoker adapter world id request.params
            else (adapter, world, .error (some id) (-32601) "method not found")

/-- One request after another. -/
def serve (adapter : McpAdapter) (world : ω) : List McpRequest → McpAdapter × ω × List McpResponse
  | [] => (adapter, world, [])
  | request :: rest =>
      let first := handle invoker adapter world request
      let others := serve first.1 first.2.1 rest
      (others.1, others.2.1, first.2.2 :: others.2.2)

end Handle

end McpAdapter

/-- The agent at the other end, unless the exchange is lost. -/
def agentInvoker [CaseMapping] [TextRules] [ScoreOrder] (lost : Option InvokeError)
    (around : RequestSurroundings) : AgentInvoker AgentService := fun s request =>
  match lost with
  | some error => (s, .error error)
  | none => ((s.dispatch around request).1, .ok (s.dispatch around request).2)

/-- A session of the adapter: what each request meets on its way. -/
def converse [CaseMapping] [TextRules] [ScoreOrder] (adapter : McpAdapter) (s : AgentService) :
    List (Option InvokeError × RequestSurroundings × McpRequest) → List McpResponse
  | [] => []
  | ⟨lost, around, request⟩ :: rest =>
      (adapter.handle (agentInvoker lost around) s request).2.2 ::
        converse (adapter.handle (agentInvoker lost around) s request).1
          (adapter.handle (agentInvoker lost around) s request).2.1 rest

/-- An invoker that keeps the requests it is given. -/
def recording {ω : Type} (invoker : AgentInvoker ω) : AgentInvoker (List AgentRequest × ω) :=
  fun world request =>
    ((world.1 ++ [request], (invoker world.2 request).1), (invoker world.2 request).2)

end LocalSearch.Mcp
