import LocalSearch.Core.Models
import LocalSearch.Lib.Json

/-!
# Observations as JSON

The texts the derived serializers write for identifiers, metadata and events.
-/
namespace LocalSearch.Core

set_option autoImplicit false

open Lib

def IdKind.tag : IdKind → String
  | .machine => "machine:"
  | .volume => "volume:"
  | .file => "file:"
  | .link => "link:"
  | .document => "document:"

def Id128.display {kind : IdKind} (id : Id128 kind) : String :=
  kind.tag ++ concatenated (id.asBytes.map fun byte => hexByte byte.toNat)

def jsonId {kind : IdKind} (id : Id128 kind) : String := "\"" ++ id.display ++ "\""

def FileKey.json (key : FileKey) : String :=
  jsonObject [("volume_id", jsonId key.volumeId), ("file_id", jsonId key.fileId)]

def FileKind.json : FileKind → String
  | .file => "\"file\""
  | .directory => "\"directory\""
  | .symlink => "\"symlink\""
  | .special => "\"special\""
  | .other => "\"other\""

def Availability.json : Availability → String
  | .online => "\"online\""
  | .offline => "\"offline\""
  | .unknown => "\"unknown\""

def FileMetadata.json (metadata : FileMetadata) : String :=
  jsonObject [("kind", metadata.kind.json), ("size", jsonNat metadata.size),
    ("created_at_unix_ms", jsonOption jsonInt metadata.createdAtUnixMs),
    ("modified_at_unix_ms", jsonOption jsonInt metadata.modifiedAtUnixMs),
    ("hidden", jsonBool metadata.hidden), ("availability", metadata.availability.json)]

def FileObjectSnapshot.json (object : FileObjectSnapshot) : String :=
  jsonObject [("object_key", object.objectKey.json), ("metadata", object.metadata.json)]

def FileLinkSnapshot.json (link : FileLinkSnapshot) : String :=
  jsonObject [("file_link_id", jsonId link.fileLinkId), ("object_key", link.objectKey.json),
    ("parent_key", jsonOption FileKey.json link.parentKey), ("name", jsonString link.name)]

def ReconciliationReason.json : ReconciliationReason → String
  | .sourceHistoryUnavailable => "\"source_history_unavailable\""
  | .eventOverflow => "\"event_overflow\""
  | .inconsistentSnapshot => "\"inconsistent_snapshot\""
  | .providerRequested => "\"provider_requested\""

def FilesystemEvent.json : FilesystemEvent → String
  | .objectObserved object =>
      jsonObject [("event", "\"object_observed\""), ("object", object.json)]
  | .linkObserved link => jsonObject [("event", "\"link_observed\""), ("link", link.json)]
  | .linkRemoved fileLinkId objectKey =>
      jsonObject [("event", "\"link_removed\""), ("file_link_id", jsonId fileLinkId),
        ("object_key", objectKey.json)]
  | .objectRemoved objectKey =>
      jsonObject [("event", "\"object_removed\""), ("object_key", objectKey.json)]
  | .reconciliationRequired volumeId reason =>
      jsonObject [("event", "\"reconciliation_required\""), ("volume_id", jsonId volumeId),
        ("reason", reason.json)]

/-- Every identifier of a type takes the same space. -/
theorem jsonId_size {kind : IdKind} (id : Id128 kind) :
    (jsonId id).utf8ByteSize = kind.tag.utf8ByteSize + 34 := by
  have hquote : ("\"" : String).utf8ByteSize = 1 := rfl
  have hhex : ((id.asBytes.map fun byte => hexByte byte.toNat).map String.utf8ByteSize).sum = 32 := by
    rw [List.map_map, List.map_congr_left fun byte _ => hexByte_size byte.toNat, List.map_const',
      Id128.asBytes, List.length_map, List.length_range]
    rfl
  simp only [jsonId, Id128.display, String.utf8ByteSize_append, concatenated_size, hhex, hquote]
  omega

end LocalSearch.Core
