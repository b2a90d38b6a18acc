import LocalSearch.Windows.Provider
import LocalSearch.Core.Json
import LocalSearch.Lib.Replay

/-!
# The provider's continuation point

What the provider keeps between two reads of the journal, and the JSON it is
handed out as. Identities take the same space whatever they are, so the size of
a checkpoint depends on the keys of its two maps only.
-/
namespace LocalSearch.Windows

set_option autoImplicit false

open Core Lib

def providerId : String := "localsearch.windows-fs"

/-- The saved value as a whole; record interpretation reads and writes its two maps. -/
structure SavedCheckpoint extends WindowsCheckpoint where
  journalIdentity : UInt64
  nextPosition : Int64
  lowestValidPosition : Int64
  snapshotGeneration : UInt64
  pendingEvents : List FilesystemEvent
  deriving DecidableEq

/-- The journal as the volume reports it. -/
structure UsnJournalState where
  identity : UInt64
  firstPosition : Int64
  nextPosition : Int64
  lowestValidPosition : Int64
  deriving DecidableEq

def retainedStart (state : UsnJournalState) : Int64 :=
  max state.firstPosition state.lowestValidPosition

def pendingRenameJson (row : Nat × FileLinkId) : String :=
  jsonObject [("file_reference", jsonNat row.1), ("file_link_id", jsonId row.2)]

def knownLinkJson (row : Place × FileLinkId) : String :=
  jsonObject [("parent_reference", jsonNat (ofLex row.1).1), ("name", jsonString (ofLex row.1).2),
    ("file_link_id", jsonId row.2)]

def SavedCheckpoint.json (saved : SavedCheckpoint) : String :=
  jsonObject [("journal_identity", jsonNat saved.journalIdentity.toNat),
    ("next_position", jsonInt saved.nextPosition.toInt),
    ("lowest_valid_position", jsonInt saved.lowestValidPosition.toInt),
    ("snapshot_generation", jsonNat saved.snapshotGeneration.toNat),
    ("pending_events", jsonArray (saved.pendingEvents.map FilesystemEvent.json)),
    ("pending_renames", jsonArray (saved.pendingRenames.rows.map pendingRenameJson)),
    ("known_links", jsonArray (saved.knownLinks.rows.map knownLinkJson))]

def toVec (saved : SavedCheckpoint) : List UInt8 := saved.json.toUTF8.data.toList

def encode (volumeId : VolumeId) (saved : SavedCheckpoint) : ProviderCheckpoint where
  providerId := providerId
  formatVersion := 3
  volumeId := volumeId
  opaqueBytes := toVec saved

def SavedCheckpoint.validate (saved : SavedCheckpoint) (currentJournalIdentity : UInt64)
    (currentLowest : Int64) : PlatformResult Unit :=
  if saved.journalIdentity ≠ currentJournalIdentity ∨ saved.nextPosition < currentLowest then
    .error ⟨.sourceHistoryGap, "validate_checkpoint",
      "journal identity changed or cursor fell below retained history"⟩
  else .ok ()

/-- The checkpoint of a completed scan, taken from the journal as it was before. -/
def initialCheckpoint (before after : UsnJournalState) : PlatformResult SavedCheckpoint := do
  let saved := {
    pendingRenames := .empty
    knownLinks := .empty
    journalIdentity := before.identity
    nextPosition := before.nextPosition
    lowestValidPosition := retainedStart before
    snapshotGeneration := 1
    pendingEvents := [] }
  saved.validate after.identity (retainedStart after)
  .ok saved

theorem toVec_length (saved : SavedCheckpoint) : (toVec saved).length = saved.json.utf8ByteSize := by
  rw [toVec, Array.length_toList]
  rfl

def noId : FileLinkId := .fromU128 0

/-- The maps with every identity left blank. -/
def WindowsCheckpoint.blank (saved : WindowsCheckpoint) : WindowsCheckpoint :=
  ⟨saved.pendingRenames.mapRows fun _ _ => noId, saved.knownLinks.mapRows fun _ _ => noId⟩

/-- Checkpoints that differ in identities only. -/
structure Alike (a b : SavedCheckpoint) : Prop where
  journalIdentity : a.journalIdentity = b.journalIdentity
  nextPosition : a.nextPosition = b.nextPosition
  lowestValidPosition : a.lowestValidPosition = b.lowestValidPosition
  snapshotGeneration : a.snapshotGeneration = b.snapshotGeneration
  pendingEvents : a.pendingEvents.map (·.json.utf8ByteSize) =
    b.pendingEvents.map (·.json.utf8ByteSize)
  links : a.toWindowsCheckpoint.blank = b.toWindowsCheckpoint.blank

theorem pendingRenameJson_size (row : Nat × FileLinkId) :
    (pendingRenameJson row).utf8ByteSize = (pendingRenameJson (row.1, noId)).utf8ByteSize := by
  apply jsonObject_congr
  simp only [List.map_cons, List.map_nil, jsonId_size]

theorem knownLinkJson_size (row : Place × FileLinkId) :
    (knownLinkJson row).utf8ByteSize = (knownLinkJson (row.1, noId)).utf8ByteSize := by
  apply jsonObject_congr
  simp only [List.map_cons, List.map_nil, jsonId_size]

/-- Rows whose texts have the sizes of their blank forms. -/
theorem rows_size {κ : Type} [LinearOrder κ] {text : κ × FileLinkId → String}
    (htext : ∀ row, (text row).utf8ByteSize = (text (row.1, noId)).utf8ByteSize)
    {s t : Table κ FileLinkId} (h : (s.mapRows fun _ _ => noId) = t.mapRows fun _ _ => noId) :
    (s.rows.map text).map String.utf8ByteSize = (t.rows.map text).map String.utf8ByteSize := by
  have hblank : ∀ u : Table κ FileLinkId, (u.rows.map text).map String.utf8ByteSize =
      (u.mapRows fun _ _ => noId).rows.map fun row => (text row).utf8ByteSize := by
    intro u
    rw [Table.mapRows, List.map_map, List.map_map]
    exact List.map_congr_left fun row _ => htext row
  rw [hblank, hblank, h]

theorem Alike.size {a b : SavedCheckpoint} (h : Alike a b) :
    (toVec a).length = (toVec b).length := by
  have hlinks := WindowsCheckpoint.mk.inj h.links
  have hrenames := jsonArray_congr (rows_size pendingRenameJson_size hlinks.1)
  have hnames := jsonArray_congr (rows_size knownLinkJson_size hlinks.2)
  have hevents : (jsonArray (a.pendingEvents.map FilesystemEvent.json)).utf8ByteSize =
      (jsonArray (b.pendingEvents.map FilesystemEvent.json)).utf8ByteSize := by
    apply jsonArray_congr
    rw [List.map_map, List.map_map]
    exact h.pendingEvents
  rw [toVec_length, toVec_length]
  apply jsonObject_congr
  simp only [List.map_cons, List.map_nil, hrenames, hnames, hevents, h.journalIdentity,
    h.nextPosition, h.lowestValidPosition, h.snapshotGeneration]

/-- The names alone take at least this much. -/
theorem knownLinks_le_size (saved : SavedCheckpoint) :
    saved.knownLinks.rows.length * 39 ≤ (toVec saved).length := by
  have hrow : ∀ text ∈ saved.knownLinks.rows.map knownLinkJson, 39 ≤ text.utf8ByteSize := by
    intro text htext
    obtain ⟨row, -, rfl⟩ := List.mem_map.mp htext
    have hid : (jsonId row.2).utf8ByteSize = 39 := jsonId_size row.2
    rw [← hid]
    exact field_le_jsonObject (f := ("file_link_id", jsonId row.2)) (by simp)
  have harray := length_mul_le_jsonArray hrow
  rw [List.length_map] at harray
  rw [toVec_length]
  refine harray.trans ?_
  exact field_le_jsonObject
    (f := ("known_links", jsonArray (saved.knownLinks.rows.map knownLinkJson))) (by simp)

end LocalSearch.Windows
