import LocalSearch.Lib.SortedVec
import LocalSearch.Lib.Replay
import LocalSearch.Windows.Paging

/-!
# The maps as vectors

The checkpoint stores its two maps as vectors, searches them by halving and
sorts them again when it is read back. From the empty checkpoint on they are the
rows of keyed tables, so they behave as the maps record interpretation reads.
-/
namespace LocalSearch.Windows

set_option autoImplicit false

open Core Lib

namespace CheckpointData

def rememberRename (saved : CheckpointData) (fileReference : Nat) (fileLinkId : FileLinkId) :
    CheckpointData :=
  { saved with pendingRenames := vecInsert saved.pendingRenames fileReference fileLinkId }

def takeRename (saved : CheckpointData) (fileReference : Nat) : CheckpointData × Option FileLinkId :=
  let (pendingRenames, fileLinkId) := vecTake saved.pendingRenames fileReference
  ({ saved with pendingRenames }, fileLinkId)

def knownLinkId (saved : CheckpointData) (place : Place) : Option FileLinkId :=
  vecGet saved.knownLinks place

def rememberKnownLink (saved : CheckpointData) (place : Place) (fileLinkId : FileLinkId) :
    CheckpointData :=
  { saved with knownLinks := vecInsert saved.knownLinks place fileLinkId }

def forgetKnownLink (saved : CheckpointData) (place : Place) : CheckpointData :=
  { saved with knownLinks := (vecTake saved.knownLinks place).1 }

def json (saved : CheckpointData) : String :=
  jsonObject [("journal_identity", jsonNat saved.journalIdentity.toNat),
    ("next_position", jsonInt saved.nextPosition.toInt),
    ("lowest_valid_position", jsonInt saved.lowestValidPosition.toInt),
    ("snapshot_generation", jsonNat saved.snapshotGeneration.toNat),
    ("pending_events", jsonArray (saved.pendingEvents.map FilesystemEvent.json)),
    ("pending_renames", jsonArray (saved.pendingRenames.map pendingRenameJson)),
    ("known_links", jsonArray (saved.knownLinks.map knownLinkJson))]

def toVec (saved : CheckpointData) : List UInt8 := saved.json.toUTF8.data.toList

def encode (volumeId : VolumeId) (saved : CheckpointData) : ProviderCheckpoint where
  providerId := providerId
  formatVersion := 3
  volumeId := volumeId
  opaqueBytes := saved.toVec

end CheckpointData

/-- The vectors are the rows of the two maps. -/
structure CheckpointData.Holds (saved : CheckpointData) (maps : WindowsCheckpoint) : Prop where
  pendingRenames : saved.pendingRenames = maps.pendingRenames.rows
  knownLinks : saved.knownLinks = maps.knownLinks.rows

namespace CheckpointData.Holds

variable {saved : CheckpointData} {maps : WindowsCheckpoint} (h : saved.Holds maps)

include h

theorem rememberRename (fileReference : Nat) (fileLinkId : FileLinkId) :
    (saved.rememberRename fileReference fileLinkId).Holds
      (Windows.rememberRename maps fileReference fileLinkId) where
  pendingRenames := by
    rw [CheckpointData.rememberRename, h.pendingRenames, vecInsert_rows]
    rfl
  knownLinks := h.knownLinks

theorem takeRename (fileReference : Nat) :
    (saved.takeRename fileReference).1.Holds (Windows.takeRename maps fileReference).1 ∧
      (saved.takeRename fileReference).2 = (Windows.takeRename maps fileReference).2 := by
  have htake : vecTake saved.pendingRenames fileReference =
      ((maps.pendingRenames.erase fileReference).rows, maps.pendingRenames.get fileReference) := by
    rw [h.pendingRenames, vecTake_rows]
  rw [CheckpointData.takeRename, htake]
  exact ⟨⟨rfl, h.knownLinks⟩, rfl⟩

theorem knownLinkId (place : Place) : saved.knownLinkId place = Windows.knownLinkId maps place := by
  rw [CheckpointData.knownLinkId, h.knownLinks, vecGet_rows]
  rfl

theorem rememberKnownLink (place : Place) (fileLinkId : FileLinkId) :
    (saved.rememberKnownLink place fileLinkId).Holds
      (Windows.rememberKnownLink maps place fileLinkId) where
  pendingRenames := h.pendingRenames
  knownLinks := by
    rw [CheckpointData.rememberKnownLink, h.knownLinks, vecInsert_rows]
    rfl

theorem forgetKnownLink (place : Place) :
    (saved.forgetKnownLink place).Holds (Windows.forgetKnownLink maps place) where
  pendingRenames := h.pendingRenames
  knownLinks := by
    rw [CheckpointData.forgetKnownLink, h.knownLinks, vecTake_rows]
    rfl

/-- Sorting again leaves the vectors as they are. -/
theorem reload {fromSlice : FromSlice} (hread : fromSlice saved.toVec = .ok saved) (v : VolumeId) :
    decode fromSlice (saved.encode v) = .ok saved := by
  have hformat : ¬ ((saved.encode v).providerId ≠ providerId ∨
      ¬ ((saved.encode v).formatVersion = 2 ∨ (saved.encode v).formatVersion = 3)) := by
    rintro (hid | hversion)
    · exact hid rfl
    · exact hversion (.inr rfl)
  rw [decode, if_neg hformat, show (saved.encode v).opaqueBytes = saved.toVec from rfl, hread]
  simp only [h.pendingRenames, h.knownLinks, rows_mergeSort]
  rw [← h.pendingRenames, ← h.knownLinks]

end CheckpointData.Holds

inductive MapStep where
  | rememberRename (fileReference : Nat) (fileLinkId : FileLinkId)
  | takeRename (fileReference : Nat)
  | rememberKnownLink (place : Place) (fileLinkId : FileLinkId)
  | forgetKnownLink (place : Place)
  | reload
  deriving DecidableEq

def MapStep.apply (fromSlice : FromSlice) (v : VolumeId) (saved : CheckpointData) :
    MapStep → PlatformResult CheckpointData
  | .rememberRename fileReference fileLinkId => .ok (saved.rememberRename fileReference fileLinkId)
  | .takeRename fileReference => .ok (saved.takeRename fileReference).1
  | .rememberKnownLink place fileLinkId => .ok (saved.rememberKnownLink place fileLinkId)
  | .forgetKnownLink place => .ok (saved.forgetKnownLink place)
  | .reload => decode fromSlice (saved.encode v)

def applySteps (fromSlice : FromSlice) (v : VolumeId) (saved : CheckpointData)
    (steps : List MapStep) : PlatformResult CheckpointData :=
  steps.foldlM (MapStep.apply fromSlice v) saved

/-- What the step writes to the pending renames. -/
def MapStep.renameWrite : MapStep → Option (Nat × Option FileLinkId)
  | .rememberRename fileReference fileLinkId => some (fileReference, some fileLinkId)
  | .takeRename fileReference => some (fileReference, none)
  | _ => none

def MapStep.linkWrite : MapStep → Option (Place × Option FileLinkId)
  | .rememberKnownLink place fileLinkId => some (place, some fileLinkId)
  | .forgetKnownLink place => some (place, none)
  | _ => none

/-- The maps after the writes of some steps. -/
def writtenMaps (steps : List MapStep) : WindowsCheckpoint where
  pendingRenames := Table.empty.replay (steps.filterMap MapStep.renameWrite)
  knownLinks := Table.empty.replay (steps.filterMap MapStep.linkWrite)

theorem writtenMaps_concat (steps : List MapStep) (step : MapStep) :
    writtenMaps (steps ++ [step]) =
      ⟨(writtenMaps steps).pendingRenames.replay step.renameWrite.toList,
        (writtenMaps steps).knownLinks.replay step.linkWrite.toList⟩ := by
  rw [writtenMaps, List.filterMap_append, List.filterMap_append, Table.replay_append,
    Table.replay_append]
  cases step <;> rfl

/-- A step keeps the vectors at what was written. -/
theorem MapStep.holds (step : MapStep) (v : VolumeId) {fromSlice : FromSlice}
    {saved : CheckpointData} {steps : List MapStep} (h : saved.Holds (writtenMaps steps))
    (hread : step = .reload → fromSlice saved.toVec = .ok saved) :
    ∃ saved', step.apply fromSlice v saved = .ok saved' ∧
      saved'.Holds (writtenMaps (steps ++ [step])) := by
  rw [writtenMaps_concat]
  cases step with
  | rememberRename fileReference fileLinkId => exact ⟨_, rfl, h.rememberRename fileReference fileLinkId⟩
  | takeRename fileReference => exact ⟨_, rfl, (h.takeRename fileReference).1⟩
  | rememberKnownLink place fileLinkId => exact ⟨_, rfl, h.rememberKnownLink place fileLinkId⟩
  | forgetKnownLink place => exact ⟨_, rfl, h.forgetKnownLink place⟩
  | reload => exact ⟨saved, h.reload (hread rfl) v, h⟩

theorem applySteps_concat (fromSlice : FromSlice) (v : VolumeId) (saved : CheckpointData)
    (steps : List MapStep) (step : MapStep) :
    applySteps fromSlice v saved (steps ++ [step]) =
      applySteps fromSlice v saved steps >>= fun saved' => step.apply fromSlice v saved' := by
  rw [applySteps, List.foldlM_append]
  simp only [List.foldlM_cons, List.foldlM_nil, bind_pure]
  rfl

theorem applySteps_holds {fromSlice : FromSlice} {v : VolumeId} {start : CheckpointData}
    (hrenames : start.pendingRenames = []) (hlinks : start.knownLinks = []) (steps : List MapStep)
    (hcodec : ∀ earlier later saved, steps = earlier ++ .reload :: later →
      applySteps fromSlice v start earlier = .ok saved → fromSlice saved.toVec = .ok saved) :
    ∃ saved, applySteps fromSlice v start steps = .ok saved ∧ saved.Holds (writtenMaps steps) := by
  induction steps using List.reverseRecOn with
  | nil => exact ⟨start, rfl, hrenames, hlinks⟩
  | append_singleton steps step ih =>
    obtain ⟨saved, hrun, hholds⟩ := ih fun earlier later saved heq =>
      hcodec earlier (later ++ [step]) saved (by rw [heq, List.append_assoc]; rfl)
    have hread : step = .reload → fromSlice saved.toVec = .ok saved := fun heq =>
      hcodec steps [] saved (by rw [heq]) hrun
    obtain ⟨saved', hstep, hholds'⟩ := step.holds v hholds hread
    refine ⟨saved', ?_, hholds'⟩
    rw [applySteps_concat, hrun, ok_bind, hstep]

/-- Over any steps from the empty maps, a lookup returns what was last stored
under its key, if nothing took or forgot it since. -/
theorem rename_maps_exact {fromSlice : FromSlice} {v : VolumeId} {start : CheckpointData}
    (hrenames : start.pendingRenames = []) (hlinks : start.knownLinks = []) (steps : List MapStep)
    (hcodec : ∀ earlier later saved, steps = earlier ++ .reload :: later →
      applySteps fromSlice v start earlier = .ok saved → fromSlice saved.toVec = .ok saved) :
    ∃ saved, applySteps fromSlice v start steps = .ok saved ∧
      (saved.pendingRenames.Pairwise fun a b => a.1 < b.1) ∧
      (saved.knownLinks.Pairwise fun a b => a.1 < b.1) ∧
      (∀ fileReference, (saved.takeRename fileReference).2 =
        (lastWrite (steps.filterMap MapStep.renameWrite) fileReference).getD none) ∧
      ∀ place, saved.knownLinkId place =
        (lastWrite (steps.filterMap MapStep.linkWrite) place).getD none := by
  obtain ⟨saved, hrun, hholds⟩ := applySteps_holds hrenames hlinks steps hcodec
  refine ⟨saved, hrun, ?_, ?_, fun fileReference => ?_, fun place => ?_⟩
  · rw [hholds.pendingRenames]
    exact Table.sorted _
  · rw [hholds.knownLinks]
    exact Table.sorted _
  · rw [(hholds.takeRename fileReference).2]
    show (writtenMaps steps).pendingRenames.get fileReference = _
    rw [writtenMaps, Table.get_replay, replay_apply]
    rfl
  · rw [hholds.knownLinkId place]
    show (writtenMaps steps).knownLinks.get place = _
    rw [writtenMaps, Table.get_replay, replay_apply]
    rfl

section Example

def emptyCheckpoint : CheckpointData := ⟨1, 0, 0, 1, [], [], []⟩

def renamedTwice : List MapStep :=
  [.rememberRename 9 (.fromU128 1), .rememberRename 7 (.fromU128 2), .reload, .takeRename 7]

def twoPending : CheckpointData :=
  { emptyCheckpoint with pendingRenames := [(7, .fromU128 2), (9, .fromU128 1)] }

/-- `from_slice` as far as the sample needs it. -/
def pendingSlice : FromSlice := fun bytes =>
  if bytes = twoPending.toVec then .ok twoPending else .error "expected value at line 1 column 1"

theorem twoPending_applied :
    applySteps pendingSlice (.fromU128 1) emptyCheckpoint (renamedTwice.take 2) = .ok twoPending := by
  decide +kernel

theorem renamedTwice_exact :
    ∃ saved, applySteps pendingSlice (.fromU128 1) emptyCheckpoint renamedTwice = .ok saved ∧
      (saved.takeRename 7).2 = none ∧ (saved.takeRename 9).2 = some (.fromU128 1) := by
  have hcodec : ∀ earlier later saved, renamedTwice = earlier ++ .reload :: later →
      applySteps pendingSlice (.fromU128 1) emptyCheckpoint earlier = .ok saved →
        pendingSlice saved.toVec = .ok saved := by
    intro earlier later saved heq hrun
    have hearlier : earlier = renamedTwice.take 2 := by
      rcases earlier with _ | ⟨a, _ | ⟨b, _ | ⟨c, _ | ⟨d, _ | ⟨e, rest⟩⟩⟩⟩⟩ <;>
        simp_all [renamedTwice]
    rw [hearlier, twoPending_applied] at hrun
    obtain rfl := Except.ok.inj hrun
    exact if_pos rfl
  obtain ⟨saved, hrun, -, -, hrenames, -⟩ := rename_maps_exact rfl rfl renamedTwice hcodec
  exact ⟨saved, hrun, (hrenames 7).trans (by decide), (hrenames 9).trans (by decide)⟩

end Example

end LocalSearch.Windows
