import LocalSearch.AgentApi.Contract
import LocalSearch.Catalog.Serving
import LocalSearch.Graph.Upkeep
import LocalSearch.Governor.Policy

/-!
# The agent

What the agent owns: the graph with the directories of the catalog index, the
governor, the readers its requests are answered from, and the grant of its clients.
-/
namespace LocalSearch.Agent

set_option autoImplicit false

open Core Lib Graph Catalog Governor
open Desktop (AgentWireError)
open AgentApi (Capability IndexStatus)

/-- `CATALOG_SCHEMA_ID`, which also names the consumer of the worker. -/
def catalogSchemaId : String := "TANTIVY-SCHEMA-v1"

structure CachedCatalogReader where
  documents : List CatalogDocument
  generation : Nat

/-- The reader of a content generation: what its index finds for a query, at most so
many documents. -/
structure ContentReader where
  candidates : String → Nat → Option (List CatalogDocument)

structure AgentService where
  files : CatalogFiles
  governor : ResourceGovernor
  reader : CachedCatalogReader
  contentReader : Option ContentReader
  authorization : Finset Capability

/-- `v0_1_metadata`. -/
def metadataGrant : Finset Capability := {.searchCatalog, .readMetadata, .indexStatus}

/-- `v0_2_with_content`. -/
def contentGrant : Finset Capability := {.searchCatalog, .searchContent, .readMetadata, .indexStatus}

/-- Backend errors are reported without their text. -/
def internal : AgentWireError := ⟨.internal, "agent backend operation failed"⟩

/-- The sequence the catalog worker has acknowledged. -/
def appliedSequence (g : FilesystemGraph) : Nat :=
  ((projectorCheckpoint g catalogSchemaId).map (·.lastSequence)).getD 0

/-- `projection_backlog`, with the backlog of the content projector. -/
def projectionBacklog (g : FilesystemGraph) (contentBacklog : Nat) : Nat :=
  let maintenance := consumedOutboxMaintenancePending g ||
    legacyDesiredPayloadMaintenancePending g || projectionRefreshMaintenancePending g
  max (max (latestOutboxSequence g - appliedSequence g) contentBacklog) maintenance.toNat

namespace AgentService

/-- `query_state` with `index_status_from_state`. -/
def indexStatus (s : AgentService) : Except AgentWireError IndexStatus :=
  let g := s.files.graph
  match projectorCheckpoint g catalogSchemaId with
  | none => .error ⟨.indexNotReady, "no active catalog generation"⟩
  | some checkpoint =>
      if s.reader.generation ≠ checkpoint.indexGeneration then
        .error ⟨.indexNotReady, "catalog reader generation is not active"⟩
      else
        .ok
          { ready := true
            indexGeneration := some checkpoint.indexGeneration
            documentCount := s.reader.documents.length
            durableSequence := latestOutboxSequence g
            appliedSequence := checkpoint.lastSequence
            backlogMutations := latestOutboxSequence g - checkpoint.lastSequence }

end AgentService

end LocalSearch.Agent
