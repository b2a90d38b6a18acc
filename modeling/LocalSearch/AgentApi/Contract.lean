import LocalSearch.Desktop.Client
import Mathlib.Data.Finset.Card
import Mathlib.Data.Finset.Dedup

/-!
# The contract of the agent

The operations a local client may ask for, with the bounds each request is checked
against. The desktop sends two of them; its requests and the responses it reads are
those of this contract.
-/
namespace LocalSearch.AgentApi

set_option autoImplicit false

open Core Agent Desktop

def maxFrameBytes : Nat := 1048576
def maxLookupItems : Nat := 100

/-- The data capabilities a client can be granted. -/
inductive Capability where
  | searchCatalog
  | searchContent
  | readMetadata
  | indexStatus
  deriving DecidableEq, Repr

structure Capabilities where
  agentApiVersions : List Nat
  codecVersions : List Nat
  granted : Finset Capability
  maximumTopK : Nat
  maximumFrameBytes : Nat
  rankingVersion : Nat
  deriving DecidableEq

structure IndexStatus where
  ready : Bool
  indexGeneration : Option Nat
  documentCount : Nat
  durableSequence : Nat
  appliedSequence : Nat
  backlogMutations : Nat
  deriving DecidableEq, Repr

structure ServiceHealth where
  serviceReady : Bool
  graphReady : Bool
  indexReady : Bool
  deriving DecidableEq, Repr

inductive RequestOperation where
  | catalogSearch (request : SearchRequest)
  | contentSearch (request : ContentSearchRequest)
  | catalogGetItem (documentId : DocumentId)
  | catalogGetItems (documentIds : List DocumentId)
  | indexGetStatus
  | agentGetCapabilities
  | agentGetHealth
  deriving DecidableEq, Repr

structure AgentRequest where
  protocolVersion : Nat
  codecVersion : Nat
  requestId : String
  deadlineMs : Nat
  operation : RequestOperation
  deriving DecidableEq, Repr

def RequestOperation.validate : RequestOperation → Except WireContractError Unit
  | .catalogSearch request => (Desktop.RequestOperation.catalogSearch request).validate
  | .contentSearch request => (Desktop.RequestOperation.contentSearch request).validate
  | .catalogGetItems documentIds =>
      if documentIds.isEmpty ∨ maxLookupItems < documentIds.length then
        .error (.invalidRequest "document lookup collection must be non-empty and bounded")
      else if documentIds.toFinset.card ≠ documentIds.length then
        .error (.invalidRequest "document lookup IDs must be unique")
      else .ok ()
  | .catalogGetItem _ | .indexGetStatus | .agentGetCapabilities | .agentGetHealth => .ok ()

def AgentRequest.validate (request : AgentRequest) : Except WireContractError Unit :=
  if request.protocolVersion ≠ agentApiVersion then .error .unsupportedProtocolVersion
  else if request.codecVersion ≠ agentCodecVersion then .error .unsupportedCodecVersion
  else if request.requestId.isEmpty ∨ maxRequestIdBytes < request.requestId.utf8ByteSize then
    .error (.invalidRequest "request_id must be non-empty and bounded")
  else if maxDeadlineMs < request.deadlineMs then
    .error (.invalidRequest "deadline exceeds the v0.1 policy maximum")
  else request.operation.validate

inductive ResponsePayload where
  | search (response : SearchResponse)
  | contentSearch (response : ContentSearchResponse)
  | catalogItem (item : CatalogItem)
  | catalogItems (items : List CatalogItem)
  | indexStatus (status : IndexStatus)
  | capabilities (capabilities : Capabilities)
  | health (health : ServiceHealth)
  deriving DecidableEq

structure AgentResponse where
  protocolVersion : Nat
  requestId : String
  result : Option ResponsePayload
  error : Option AgentWireError
  deriving DecidableEq

def AgentResponse.success (requestId : String) (payload : ResponsePayload) : AgentResponse :=
  ⟨agentApiVersion, requestId, some payload, none⟩

def AgentResponse.failure (requestId : String) (code : AgentErrorCode) (message : String) :
    AgentResponse :=
  ⟨agentApiVersion, requestId, none, some ⟨code, message⟩⟩

def AgentResponse.validate (response : AgentResponse) : Except WireContractError Unit :=
  match response.result, response.error with
  | some _, none | none, some _ => .ok ()
  | _, _ => .error .invalidResponse

def RequestOperation.ofDesktop : Desktop.RequestOperation → RequestOperation
  | .catalogSearch request => .catalogSearch request
  | .contentSearch request => .contentSearch request

/-- A request of the desktop on the wire. -/
def AgentRequest.ofDesktop (request : Desktop.AgentRequest) : AgentRequest :=
  ⟨request.protocolVersion, request.codecVersion, request.requestId, request.deadlineMs,
    .ofDesktop request.operation⟩

def ResponsePayload.toDesktop : ResponsePayload → Desktop.ResponsePayload
  | .search response => .search response
  | .contentSearch response => .contentSearch response
  | .catalogItem item => .catalogItem item
  | .catalogItems items => .catalogItems items
  | .indexStatus _ => .indexStatus
  | .capabilities _ => .capabilities
  | .health _ => .health

/-- What the desktop looks at of a response. -/
def AgentResponse.toDesktop (response : AgentResponse) : Desktop.AgentResponse :=
  ⟨response.protocolVersion, response.requestId, response.result.map ResponsePayload.toDesktop,
    response.error⟩

theorem validate_ofDesktop (request : Desktop.AgentRequest) :
    (AgentRequest.ofDesktop request).validate = request.validate := by
  unfold AgentRequest.validate Desktop.AgentRequest.validate
  cases hoperation : request.operation <;> simp only [AgentRequest.ofDesktop, hoperation] <;> rfl

theorem validate_toDesktop (response : AgentResponse) :
    response.toDesktop.validate = response.validate := by
  unfold AgentResponse.validate Desktop.AgentResponse.validate AgentResponse.toDesktop
  cases response.result <;> cases response.error <;> rfl

end LocalSearch.AgentApi
