import LocalSearch.Mcp.Schema

/-!
# The tools

The published manifest: three tools, with the schemas of their arguments and of their
results. The properties of an object stand in the order of their names.
-/
namespace LocalSearch.Mcp

set_option autoImplicit false

open Core

structure Tool where
  name : String
  title : String
  description : String
  inputSchema : Schema
  outputSchema : Schema

def Tool.value (tool : Tool) : Value :=
  .object [("description", .string tool.description), ("inputSchema", tool.inputSchema.document),
    ("name", .string tool.name), ("outputSchema", tool.outputSchema.document),
    ("resultType", .string "complete"), ("title", .string tool.title)]

def anyText : Schema := .string none none false

def nullableText : Schema := .string none none true

def natural : Schema := .integer (some 0) none none false

def positive : Schema := .integer (some 1) none none false

/-- A result is a kind and a value. -/
def resultSchema (kind : String) (value : Schema) : Schema :=
  .object [("type", .const kind), ("value", value)] (some ["type", "value"])

def objectKeySchema : Schema :=
  .object [("file_id", .pattern .file false), ("volume_id", .pattern .volume false)]
    (some ["volume_id", "file_id"])

def fileKindSchema : Schema := .enum ["file", "directory", "symlink", "special", "other"] none

def availabilitySchema : Schema := .enum ["online", "offline", "unknown"] none

def matchTypeSchema : Schema :=
  .enum ["exact_name", "prefix_name", "token_name", "substring_name", "path"] none

def searchHitSchema : Schema :=
  .object
    [("availability", availabilitySchema), ("document_id", .pattern .document false),
      ("extension", nullableText), ("file_link_id", .pattern .link false), ("kind", fileKindSchema),
      ("match_type", matchTypeSchema), ("modified_at_unix_ms", .integer none none none true),
      ("name", anyText), ("object_key", objectKeySchema), ("rank", positive),
      ("ranking_version", positive), ("resolved_path", anyText), ("size", natural)]
    (some ["document_id", "object_key", "file_link_id", "name", "resolved_path", "extension", "kind",
      "size", "modified_at_unix_ms", "availability", "match_type", "rank", "ranking_version"])

def searchResponseSchema : Schema :=
  .object
    [("hits", .array searchHitSchema 50 false), ("index_generation", natural), ("took_micros", natural)]
    (some ["index_generation", "took_micros", "hits"])

def catalogItemSchema : Schema :=
  .object
    [("availability", availabilitySchema), ("document_id", .pattern .document false),
      ("document_version", natural), ("extension", nullableText),
      ("file_link_id", .pattern .link false), ("kind", fileKindSchema),
      ("modified_at_unix_ms", .integer none none none true), ("name", anyText),
      ("object_key", objectKeySchema), ("resolved_path", anyText), ("size", natural)]
    (some ["document_id", "object_key", "file_link_id", "document_version", "name", "resolved_path",
      "extension", "kind", "size", "modified_at_unix_ms", "availability"])

def indexStatusSchema : Schema :=
  .object
    [("applied_sequence", natural), ("backlog_mutations", natural), ("document_count", natural),
      ("durable_sequence", natural), ("index_generation", .integer (some 0) none none true),
      ("ready", .boolean)]
    (some ["ready", "index_generation", "document_count", "durable_sequence", "applied_sequence",
      "backlog_mutations"])

def searchFilesTool : Tool where
  name := "localsearch.search_files"
  title := "Search local file catalog"
  description := "Search bounded file and folder metadata through the LocalSearch Agent. This tool never reads file content."
  inputSchema :=
    .object
      [("directory_filter", .string (some 1) (some 4096) false),
        ("extensions", .array (.string (some 1) (some 32) false) 32 true),
        ("query", .string (some 1) (some 1024) false),
        ("scope", .enum ["all", "files", "folders"] (some "all")),
        ("top_k", .integer (some 1) (some 50) (some 10) false)]
      (some ["query"])
  outputSchema := resultSchema "search" searchResponseSchema

def getCatalogItemTool : Tool where
  name := "localsearch.get_catalog_item"
  title := "Get catalog metadata"
  description := "Read current bounded metadata for one stable LocalSearch document identity. This tool never reads file content."
  inputSchema := .object [("document_id", .pattern .document true)] (some ["document_id"])
  outputSchema := resultSchema "catalog_item" catalogItemSchema

def getIndexStatusTool : Tool where
  name := "localsearch.get_index_status"
  title := "Get LocalSearch index status"
  description := "Return sanitized LocalSearch readiness and durable projection backlog status."
  inputSchema := .object [] none
  outputSchema := resultSchema "index_status" indexStatusSchema

def tools : List Tool := [searchFilesTool, getCatalogItemTool, getIndexStatusTool]

/-- `tool_manifest`. -/
def toolManifest : List Value := tools.map Tool.value

/-- The schema the results of a tool are published with. -/
def outputSchema (name : String) : Option Schema :=
  (tools.find? fun tool => tool.name = name).map (·.outputSchema)

end LocalSearch.Mcp
