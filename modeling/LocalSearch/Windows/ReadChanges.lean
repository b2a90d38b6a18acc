import LocalSearch.Windows.Checkpoint
import LocalSearch.Windows.Namespace
import LocalSearch.Broker.Client

/-!
# Reading the journal in bounded steps

A read hands out what the last one left over, then the events of one journal
page up to its budget, and a checkpoint to continue from. The maps inside it
follow the records that were read, so its size follows the history.
-/
namespace LocalSearch.Windows

set_option autoImplicit false

open Core Lib Broker

/-- A record as a page holds it. -/
structure JournalRecord extends SanitizedUsnRecord where
  position : Int64
  deriving DecidableEq

/-- The records of a page, each with the answer to its lookup. -/
structure JournalPage where
  nextPosition : Int64
  records : List (JournalRecord × MetadataAnswer)

/-- What journal and file system answer during one read. -/
structure JournalSession where
  before : PlatformResult UsnJournalState
  page : PlatformResult JournalPage
  after : PlatformResult UsnJournalState

inductive RecordsOutcome where
  | stopped (saved : SavedCheckpoint) (emitted : List FilesystemEvent) (hasMore : Bool)
  | finished (saved : SavedCheckpoint) (emitted : List FilesystemEvent)

def readRecords (volumeId : VolumeId) (journalEnd pageEnd : Int64) (maximumEvents : Nat) :
    List (JournalRecord × MetadataAnswer) → SavedCheckpoint → List FilesystemEvent →
      PlatformResult RecordsOutcome
  | [], saved, emitted => .ok (.finished saved emitted)
  | (record, answer) :: rest, saved, emitted => do
      let nextPosition := (rest.head?.map (·.1.position)).getD pageEnd
      let (links, events) ← canonicalEvents answer saved.toWindowsCheckpoint volumeId
        record.toSanitizedUsnRecord
      let accepted := min (maximumEvents - emitted.length) events.length
      let saved := { saved with toWindowsCheckpoint := links, nextPosition := nextPosition }
      let emitted := emitted ++ events.take accepted
      if accepted < events.length then
        .ok (.stopped { saved with pendingEvents := events.drop accepted } emitted true)
      else if emitted.length = maximumEvents then
        .ok (.stopped saved emitted (saved.nextPosition < journalEnd))
      else readRecords volumeId journalEnd pageEnd maximumEvents rest saved emitted

/-- The read up to the encoding of its checkpoint. -/
def readSaved (volumeId : VolumeId) (session : JournalSession) (saved : SavedCheckpoint)
    (maximumEvents : Nat) : PlatformResult (SavedCheckpoint × List FilesystemEvent × Bool) := do
  let before ← session.before
  saved.validate before.identity (retainedStart before)
  let emitted := saved.pendingEvents.take maximumEvents
  let saved := { saved with
    lowestValidPosition := retainedStart before
    pendingEvents := saved.pendingEvents.drop maximumEvents }
  if saved.pendingEvents ≠ [] ∨ emitted.length = maximumEvents then
    .ok (saved, emitted, saved.pendingEvents ≠ [] || saved.nextPosition < before.nextPosition)
  else do
    let page ← session.page
    if page.nextPosition < saved.nextPosition then
      .error ⟨.io, "read_changes", "journal cursor moved backwards"⟩
    else do
      match ← readRecords volumeId before.nextPosition page.nextPosition maximumEvents page.records
        saved emitted with
      | .stopped saved emitted hasMore => .ok (saved, emitted, hasMore)
      | .finished saved emitted => do
          let after ← session.after
          saved.validate after.identity (retainedStart after)
          let saved := { saved with lowestValidPosition := retainedStart after }
          .ok (saved, emitted, saved.nextPosition < after.nextPosition)

def readChanges (volumeId : VolumeId) (session : JournalSession) (saved : SavedCheckpoint)
    (maximumEvents : Nat) : PlatformResult (List FilesystemEvent × ChangeBatch) := do
  let (saved, events, hasMore) ← readSaved volumeId session saved maximumEvents
  .ok (events, ⟨encode volumeId saved, events.length, hasMore⟩)

/-- What a record does to the names that renames have given. -/
def nameWrites (record : SanitizedUsnRecord) : List (Place × Option FileLinkId) :=
  if record.hadInvalidUtf16 then []
  else if record.has reasonRenameOldName ∨ record.has reasonFileDelete then [(record.place, none)]
  else if record.has reasonRenameNewName then [(record.place, some noId)]
  else []

/-- What a record does to the renames that are half done. -/
def renameWrites (record : SanitizedUsnRecord) : List (Nat × Option FileLinkId) :=
  if record.hadInvalidUtf16 then []
  else if record.has reasonRenameOldName then [(record.fileReference, some noId)]
  else if record.has reasonRenameNewName then [(record.fileReference, none)]
  else []

def WindowsCheckpoint.after (saved : WindowsCheckpoint) (history : List SanitizedUsnRecord) :
    WindowsCheckpoint :=
  ⟨saved.pendingRenames.replay (history.flatMap renameWrites),
    saved.knownLinks.replay (history.flatMap nameWrites)⟩

/-- The names given by renames and not taken back, and the unfinished renames. -/
def carried (history : List SanitizedUsnRecord) : WindowsCheckpoint := WindowsCheckpoint.fresh.after history

/-- The events of a record that finds nothing carried over. -/
def plainEvents (volumeId : VolumeId) (entry : JournalRecord × MetadataAnswer) :
    List FilesystemEvent :=
  ((canonicalEvents entry.2 .fresh volumeId entry.1.toSanitizedUsnRecord).toOption.map (·.2)).getD []

/-- The entries of a page that a read with this much room takes: it stops at the
one that uses the room up. -/
def takenEntries (volumeId : VolumeId) : Nat → List (JournalRecord × MetadataAnswer) →
    List (JournalRecord × MetadataAnswer)
  | 0, _ => []
  | _ + 1, [] => []
  | room + 1, entry :: rest =>
      if (plainEvents volumeId entry).length < room + 1 then
        entry :: takenEntries volumeId (room + 1 - (plainEvents volumeId entry).length) rest
      else [entry]

theorem WindowsCheckpoint.after_append (saved : WindowsCheckpoint) (a b : List SanitizedUsnRecord) :
    saved.after (a ++ b) = (saved.after a).after b := by
  simp only [WindowsCheckpoint.after, List.flatMap_append, Table.replay_append]

theorem WindowsCheckpoint.after_cons (saved : WindowsCheckpoint) (record : SanitizedUsnRecord)
    (rest : List SanitizedUsnRecord) : saved.after (record :: rest) = (saved.after [record]).after rest :=
  saved.after_append [record] rest

theorem WindowsCheckpoint.blank_after (saved : WindowsCheckpoint) (history : List SanitizedUsnRecord) :
    (saved.after history).blank = saved.blank.after history := by
  have hrenames : (history.flatMap renameWrites).map (fun w => (w.1, w.2.map fun _ => noId)) =
      history.flatMap renameWrites := by
    rw [List.map_flatMap]
    congr 1
    funext record
    unfold renameWrites
    split_ifs <;> rfl
  have hnames : (history.flatMap nameWrites).map (fun w => (w.1, w.2.map fun _ => noId)) =
      history.flatMap nameWrites := by
    rw [List.map_flatMap]
    congr 1
    funext record
    unfold nameWrites
    split_ifs <;> rfl
  simp only [WindowsCheckpoint.after, WindowsCheckpoint.blank, Table.mapRows_replay, hrenames, hnames]

theorem linkObserved_size (link : FileLinkSnapshot) :
    (FilesystemEvent.linkObserved link).json.utf8ByteSize =
      (FilesystemEvent.linkObserved { link with fileLinkId := noId }).json.utf8ByteSize := by
  have hlink : link.json.utf8ByteSize =
      (FileLinkSnapshot.json { link with fileLinkId := noId }).utf8ByteSize := by
    apply jsonObject_congr
    simp only [List.map_cons, List.map_nil, jsonId_size]
  apply jsonObject_congr
  simp only [List.map_cons, List.map_nil, hlink]

theorem linkRemoved_size (id : FileLinkId) (key : FileKey) :
    (FilesystemEvent.linkRemoved id key).json.utf8ByteSize =
      (FilesystemEvent.linkRemoved noId key).json.utf8ByteSize := by
  apply jsonObject_congr
  simp only [List.map_cons, List.map_nil, jsonId_size]

/-- Observations of links that differ in the identity only. -/
theorem observedEvents_size (record : SanitizedUsnRecord) (lookup : ObjectLookup)
    (link : FileLinkSnapshot) :
    (observedEvents record link lookup).map (·.json.utf8ByteSize) =
      (observedEvents record { link with fileLinkId := noId } lookup).map (·.json.utf8ByteSize) := by
  unfold observedEvents
  cases lookup with
  | observed object =>
    split_ifs <;> simp only [List.map_append, List.map_cons, List.map_nil, linkObserved_size link]
  | missing =>
    split_ifs <;> simp only [List.map_append, List.map_cons, List.map_nil, linkObserved_size link,
      linkRemoved_size link.fileLinkId]
  | unavailable => rfl

section Record

variable {v : VolumeId} {answer : MetadataAnswer} {saved saved' : WindowsCheckpoint}
  {record : SanitizedUsnRecord} {events : List FilesystemEvent}

/-- A lookup that was needed succeeded. -/
theorem canonicalEvents_looked (hname : record.hadInvalidUtf16 = false)
    (hold : record.has reasonRenameOldName = false) (hdelete : record.has reasonFileDelete = false)
    (h : canonicalEvents answer saved v record = .ok (saved', events)) :
    ∃ lookup, lookupObject answer = .ok lookup ∧ saved' = (assignLinkId saved v record).1 ∧
      events = observedEvents record (observedLink v record (assignLinkId saved v record).2) lookup := by
  simp only [canonicalEvents, hname, hold, hdelete, Bool.false_eq_true, if_false] at h
  obtain ⟨lookup, hlookup, h⟩ := bind_ok.mp h
  obtain ⟨rfl, rfl⟩ := Prod.mk.inj (Except.ok.inj h)
  exact ⟨lookup, hlookup, rfl, rfl⟩

theorem assignLinkId_blank (hname : record.hadInvalidUtf16 = false)
    (hold : record.has reasonRenameOldName = false) (hdelete : record.has reasonFileDelete = false) :
    (assignLinkId saved v record).1.blank = saved.blank.after [record] := by
  simp only [WindowsCheckpoint.after, List.flatMap_cons, List.flatMap_nil, List.append_nil,
    renameWrites, nameWrites, hname, hold, hdelete, Bool.false_eq_true, if_false, or_self]
  cases hnew : record.has reasonRenameNewName with
  | true =>
    simp only [assignLinkId, hnew, if_true, takeRename, rememberKnownLink, WindowsCheckpoint.blank,
      Table.mapRows_erase, Table.mapRows_insert]
    rfl
  | false =>
    simp only [assignLinkId, hnew, Bool.false_eq_true, if_false]
    rfl

/-- The keys of the maps after a record. -/
theorem canonicalEvents_blank (h : canonicalEvents answer saved v record = .ok (saved', events)) :
    saved'.blank = saved.blank.after [record] := by
  cases hname : record.hadInvalidUtf16 with
  | true =>
    simp only [canonicalEvents, hname, if_true] at h
    obtain ⟨rfl, -⟩ := Prod.mk.inj (Except.ok.inj h)
    simp only [WindowsCheckpoint.after, List.flatMap_cons, List.flatMap_nil, renameWrites, nameWrites,
      hname, if_true]
    rfl
  | false =>
    cases hold : record.has reasonRenameOldName with
    | true =>
      obtain ⟨rfl, -⟩ := canonicalEvents_old hname hold h
      simp only [WindowsCheckpoint.after, List.flatMap_cons, List.flatMap_nil, renameWrites, nameWrites,
        hname, hold, Bool.false_eq_true, if_false, if_true, true_or, WindowsCheckpoint.blank,
        rememberRename, forgetKnownLink, Table.mapRows_erase, Table.mapRows_insert]
      rfl
    | false =>
      cases hdelete : record.has reasonFileDelete with
      | true =>
        obtain ⟨rfl, -⟩ := canonicalEvents_delete hname hold hdelete h
        simp only [WindowsCheckpoint.after, List.flatMap_cons, List.flatMap_nil, renameWrites,
          nameWrites, hname, hold, hdelete, Bool.false_eq_true, if_false, if_true, or_true]
        cases hnew : record.has reasonRenameNewName with
        | true =>
          simp only [forgetKnownLink, assignLinkId, hnew, if_true, takeRename, rememberKnownLink,
            WindowsCheckpoint.blank, Table.mapRows_erase, Table.erase_insert]
          rfl
        | false =>
          simp only [forgetKnownLink, assignLinkId, hnew, Bool.false_eq_true, if_false,
            WindowsCheckpoint.blank, Table.mapRows_erase]
          rfl
      | false =>
        obtain ⟨lookup, -, rfl, -⟩ := canonicalEvents_looked hname hold hdelete h
        exact assignLinkId_blank hname hold hdelete

/-- The sizes of the events do not depend on what is carried over. -/
theorem canonicalEvents_size (h : canonicalEvents answer saved v record = .ok (saved', events)) :
    ∃ fresh' events', canonicalEvents answer .fresh v record = .ok (fresh', events') ∧
      events.map (·.json.utf8ByteSize) = events'.map (·.json.utf8ByteSize) := by
  cases hname : record.hadInvalidUtf16 with
  | true =>
    simp only [canonicalEvents, hname, if_true] at h ⊢
    obtain ⟨-, rfl⟩ := Prod.mk.inj (Except.ok.inj h)
    exact ⟨_, _, rfl, rfl⟩
  | false =>
    cases hold : record.has reasonRenameOldName with
    | true =>
      obtain ⟨-, rfl⟩ := canonicalEvents_old hname hold h
      have hrun : canonicalEvents answer .fresh v record =
          .ok (rememberRename (forgetKnownLink .fresh record.place) record.fileReference
            (pathLinkId .fresh v record.place), []) := by
        simp only [canonicalEvents, hname, hold, Bool.false_eq_true, if_false, if_true]
      exact ⟨_, _, hrun, rfl⟩
    | false =>
      cases hdelete : record.has reasonFileDelete with
      | true =>
        obtain ⟨-, rfl⟩ := canonicalEvents_delete hname hold hdelete h
        have hrun : canonicalEvents answer .fresh v record =
            .ok (forgetKnownLink (assignLinkId .fresh v record).1 record.place,
              [.linkRemoved (assignLinkId .fresh v record).2 (fileKey v record.fileReference),
                .objectRemoved (fileKey v record.fileReference)]) := by
          simp only [canonicalEvents, hname, hold, hdelete, Bool.false_eq_true, if_false, if_true]
        refine ⟨_, _, hrun, ?_⟩
        simp only [List.map_cons, List.map_nil, linkRemoved_size (assignLinkId _ v record).2]
      | false =>
        obtain ⟨lookup, hlookup, -, rfl⟩ := canonicalEvents_looked hname hold hdelete h
        have hrun : canonicalEvents answer .fresh v record = .ok ((assignLinkId .fresh v record).1,
            observedEvents record (observedLink v record (assignLinkId .fresh v record).2) lookup) := by
          simp only [canonicalEvents, hname, hold, hdelete, Bool.false_eq_true, if_false, hlookup]
          rfl
        refine ⟨_, _, hrun, ?_⟩
        rw [observedEvents_size, observedEvents_size record lookup (observedLink v record _)]
        rfl

/-- The events of an entry have the sizes of its plain ones. -/
theorem plainEvents_size {record : JournalRecord}
    (h : canonicalEvents answer saved v record.toSanitizedUsnRecord = .ok (saved', events)) :
    events.map (·.json.utf8ByteSize) =
      (plainEvents v (record, answer)).map (·.json.utf8ByteSize) := by
  obtain ⟨fresh', events', hrun, hsize⟩ := canonicalEvents_size h
  rw [hsize, plainEvents, hrun]
  rfl

end Record

/-- The position a read ends at, when it began at `start` and took some entries. -/
def endPosition (start pageEnd : Int64) (taken entries : List (JournalRecord × MetadataAnswer)) :
    Int64 :=
  if taken = [] then start
  else ((entries.drop taken.length).head?.map (·.1.position)).getD pageEnd

/-- The checkpoint after some entries of a page, with `room` of their events handed out. -/
def SavedCheckpoint.advanced (saved : SavedCheckpoint) (volumeId : VolumeId) (room : Nat)
    (taken : List (JournalRecord × MetadataAnswer)) (nextPosition : Int64) : SavedCheckpoint :=
  { saved with
    toWindowsCheckpoint := saved.toWindowsCheckpoint.after (taken.map (·.1.toSanitizedUsnRecord))
    nextPosition := nextPosition
    pendingEvents := (taken.flatMap (plainEvents volumeId)).drop room }

def RecordsOutcome.saved : RecordsOutcome → SavedCheckpoint
  | .stopped saved _ _ => saved
  | .finished saved _ => saved

def RecordsOutcome.isStopped : RecordsOutcome → Bool
  | .stopped _ _ _ => true
  | .finished _ _ => false

section Loop

variable {v : VolumeId} {journalEnd pageEnd : Int64} {maximum : Nat}

theorem Alike.trans {a b c : SavedCheckpoint} (hab : Alike a b) (hbc : Alike b c) : Alike a c where
  journalIdentity := hab.journalIdentity.trans hbc.journalIdentity
  nextPosition := hab.nextPosition.trans hbc.nextPosition
  lowestValidPosition := hab.lowestValidPosition.trans hbc.lowestValidPosition
  snapshotGeneration := hab.snapshotGeneration.trans hbc.snapshotGeneration
  pendingEvents := hab.pendingEvents.trans hbc.pendingEvents
  links := hab.links.trans hbc.links

theorem links_advanced {saved : SavedCheckpoint} {entry : JournalRecord × MetadataAnswer}
    {links : WindowsCheckpoint} {events : List FilesystemEvent}
    (h : canonicalEvents entry.2 saved.toWindowsCheckpoint v entry.1.toSanitizedUsnRecord =
      .ok (links, events)) (rest : List SanitizedUsnRecord) :
    (links.after rest).blank =
      (saved.toWindowsCheckpoint.after (entry.1.toSanitizedUsnRecord :: rest)).blank := by
  rw [WindowsCheckpoint.blank_after, WindowsCheckpoint.blank_after, canonicalEvents_blank h]
  exact (WindowsCheckpoint.after_cons _ _ rest).symm

/-- The loop takes records while there is room and keeps what does not fit. -/
theorem readRecords_alike {entries : List (JournalRecord × MetadataAnswer)} {saved : SavedCheckpoint}
    {emitted : List FilesystemEvent} {outcome : RecordsOutcome} {room : Nat}
    (hpending : saved.pendingEvents = []) (hroom : emitted.length + (room + 1) = maximum)
    (h : readRecords v journalEnd pageEnd maximum entries saved emitted = .ok outcome) :
    Alike outcome.saved (saved.advanced v (room + 1) (takenEntries v (room + 1) entries)
        (endPosition saved.nextPosition pageEnd (takenEntries v (room + 1) entries) entries)) ∧
      outcome.isStopped =
        decide (room + 1 ≤ ((takenEntries v (room + 1) entries).flatMap (plainEvents v)).length) := by
  induction entries generalizing saved emitted room with
  | nil =>
    obtain rfl := Except.ok.inj h
    exact ⟨⟨rfl, rfl, rfl, rfl, by rw [RecordsOutcome.saved, hpending]; rfl, rfl⟩, rfl⟩
  | cons entry rest ih =>
    obtain ⟨⟨links, events⟩, hevents, h⟩ := bind_ok.mp h
    have hsize := plainEvents_size hevents
    have hcount : events.length = (plainEvents v entry).length := by
      simpa using congrArg List.length hsize
    have hleft : maximum - emitted.length = room + 1 := by omega
    simp only [hleft] at h
    rw [takenEntries, ← hcount]
    by_cases hfits : events.length < room + 1
    · -- everything fits and there is room left
      have haccepted : min (room + 1) events.length = events.length := by omega
      have hmore : (emitted ++ events).length ≠ maximum := by
        rw [List.length_append]
        omega
      rw [haccepted, List.take_length, if_neg (lt_irrefl _), if_neg hmore] at h
      obtain ⟨room', hroom'⟩ : ∃ room', room + 1 - events.length = room' + 1 :=
        ⟨room - events.length, by omega⟩
      have hnext : (emitted ++ events).length + (room' + 1) = maximum := by
        rw [List.length_append]
        omega
      have hcleared : SavedCheckpoint.pendingEvents { saved with
          toWindowsCheckpoint := links
          nextPosition := (rest.head?.map fun x => x.1.position).getD pageEnd } = [] := hpending
      obtain ⟨halike, hstopped⟩ := ih hcleared hnext h
      rw [if_pos hfits, hroom']
      have hall : ((entry :: takenEntries v (room' + 1) rest).flatMap (plainEvents v)) =
          plainEvents v entry ++ (takenEntries v (room' + 1) rest).flatMap (plainEvents v) :=
        List.flatMap_cons
      refine ⟨halike.trans ⟨rfl, ?_, rfl, rfl, ?_, links_advanced hevents _⟩, hstopped.trans ?_⟩
      · simp only [SavedCheckpoint.advanced, endPosition, List.length_cons, List.drop_succ_cons,
          reduceCtorEq, if_false]
        split_ifs with hnone
        · rw [hnone]
          rfl
        · rfl
      · simp only [SavedCheckpoint.advanced, hall]
        have hspent : (plainEvents v entry).drop (room + 1) = [] :=
          List.drop_eq_nil_of_le (by omega)
        rw [List.drop_append, hspent, ← hcount, hroom', List.nil_append]
      · rw [hall, List.length_append, ← hcount]
        exact decide_eq_decide.mpr (by omega)
    · -- the events of this record use the room up
      have haccepted : min (room + 1) events.length = room + 1 := by omega
      have hall : [entry].flatMap (plainEvents v) = plainEvents v entry := by simp
      rw [haccepted] at h
      rw [if_neg hfits, hall, ← hcount]
      have hlinks := links_advanced hevents []
      have hroomLe : decide (room + 1 ≤ events.length) = true := decide_eq_true (by omega)
      rw [hroomLe]
      split_ifs at h with hkeep hfull
      · obtain rfl := Except.ok.inj h
        refine ⟨⟨rfl, rfl, rfl, rfl, ?_, hlinks⟩, rfl⟩
        simp only [RecordsOutcome.saved, SavedCheckpoint.advanced, hall, List.map_drop, hsize]
      · obtain rfl := Except.ok.inj h
        refine ⟨⟨rfl, rfl, rfl, rfl, ?_, hlinks⟩, rfl⟩
        simp only [RecordsOutcome.saved, SavedCheckpoint.advanced, hall, hpending]
        rw [List.drop_eq_nil_of_le (by omega)]
      · rw [List.length_append, List.length_take] at hfull
        omega

end Loop

def JournalSession.entries (session : JournalSession) : List (JournalRecord × MetadataAnswer) :=
  match session.page with
  | .ok page => page.records
  | .error _ => []

def JournalSession.pageEnd (session : JournalSession) : Int64 :=
  match session.page with
  | .ok page => page.nextPosition
  | .error _ => 0

def startOf : PlatformResult UsnJournalState → Int64
  | .ok state => retainedStart state
  | .error _ => 0

/-- The entries a read takes after the events that were left over before. -/
def JournalSession.taken (session : JournalSession) (volumeId : VolumeId) (saved : SavedCheckpoint)
    (maximumEvents : Nat) : List (JournalRecord × MetadataAnswer) :=
  takenEntries volumeId (maximumEvents - saved.pendingEvents.length) session.entries

/-- The records among them. -/
def JournalSession.records (session : JournalSession) (volumeId : VolumeId) (saved : SavedCheckpoint)
    (maximumEvents : Nat) : List SanitizedUsnRecord :=
  (session.taken volumeId saved maximumEvents).map (·.1.toSanitizedUsnRecord)

def JournalSession.offered (session : JournalSession) (volumeId : VolumeId) (saved : SavedCheckpoint)
    (maximumEvents : Nat) : List FilesystemEvent :=
  saved.pendingEvents ++ (session.taken volumeId saved maximumEvents).flatMap (plainEvents volumeId)

/-- The checkpoint that the history with the records of one more read calls for,
with blank identities: names in use, unfinished renames and events left over. -/
def outlineRead (volumeId : VolumeId) (history : List SanitizedUsnRecord) (session : JournalSession)
    (saved : SavedCheckpoint) (maximumEvents : Nat) : SavedCheckpoint where
  toWindowsCheckpoint := carried (history ++ session.records volumeId saved maximumEvents)
  journalIdentity := saved.journalIdentity
  nextPosition := endPosition saved.nextPosition session.pageEnd
    (session.taken volumeId saved maximumEvents) session.entries
  lowestValidPosition :=
    if maximumEvents ≤ (session.offered volumeId saved maximumEvents).length then startOf session.before
    else startOf session.after
  snapshotGeneration := saved.snapshotGeneration
  pendingEvents := (session.offered volumeId saved maximumEvents).drop maximumEvents

section Reads

variable {v : VolumeId}

/-- The checkpoint of a read has the size its history calls for. -/
theorem readSaved_alike {history : List SanitizedUsnRecord} {session : JournalSession}
    {saved saved' : SavedCheckpoint} {maximum : Nat} {events : List FilesystemEvent} {more : Bool}
    (hlinks : saved.toWindowsCheckpoint.blank = (carried history).blank)
    (h : readSaved v session saved maximum = .ok (saved', events, more)) :
    Alike saved' (outlineRead v history session saved maximum) := by
  obtain ⟨before, hbefore, h⟩ := bind_ok.mp h
  obtain ⟨-, -, h⟩ := bind_ok.mp h
  dsimp only at h
  have hbegin : startOf session.before = retainedStart before := by rw [hbefore, startOf]
  by_cases hfull : maximum ≤ saved.pendingEvents.length
  · -- what was left over uses the whole budget
    have hroom : maximum - saved.pendingEvents.length = 0 := by omega
    have htaken : session.taken v saved maximum = [] := by
      rw [JournalSession.taken, hroom, takenEntries]
    have hoffered : session.offered v saved maximum = saved.pendingEvents := by
      rw [JournalSession.offered, htaken, List.flatMap_nil, List.append_nil]
    have hrecords : session.records v saved maximum = [] := by rw [JournalSession.records, htaken]; rfl
    have hstop : saved.pendingEvents.drop maximum ≠ [] ∨
        (saved.pendingEvents.take maximum).length = maximum := by
      refine Or.inr ?_
      rw [List.length_take]
      omega
    rw [if_pos hstop] at h
    obtain ⟨rfl, -⟩ := Prod.mk.inj (Except.ok.inj h)
    refine ⟨rfl, ?_, ?_, rfl, ?_, ?_⟩
    · rw [outlineRead, htaken, endPosition, if_pos rfl]
    · rw [outlineRead, hoffered, if_pos hfull, hbegin]
    · rw [outlineRead, hoffered]
    · rw [outlineRead, hrecords, List.append_nil]
      exact hlinks
  · obtain ⟨room, hroom⟩ : ∃ room, maximum - saved.pendingEvents.length = room + 1 :=
      ⟨maximum - saved.pendingEvents.length - 1, by omega⟩
    have hall : saved.pendingEvents.take maximum = saved.pendingEvents :=
      List.take_of_length_le (by omega)
    have hnone : saved.pendingEvents.drop maximum = [] := List.drop_eq_nil_of_le (by omega)
    have hgo : ¬ (saved.pendingEvents.drop maximum ≠ [] ∨
        (saved.pendingEvents.take maximum).length = maximum) := by
      rw [hnone, hall]
      rintro (hne | hlength)
      · exact hne rfl
      · omega
    rw [if_neg hgo] at h
    obtain ⟨page, hpage, h⟩ := bind_ok.mp h
    have hentries : session.entries = page.records := by rw [JournalSession.entries, hpage]
    have hend : session.pageEnd = page.nextPosition := by rw [JournalSession.pageEnd, hpage]
    split_ifs at h with hback
    obtain ⟨outcome, houtcome, h⟩ := bind_ok.mp h
    rw [hall] at houtcome
    have hsum : saved.pendingEvents.length + (room + 1) = maximum := by omega
    obtain ⟨halike, hstopped⟩ := readRecords_alike (by exact hnone) hsum houtcome
    have htaken : session.taken v saved maximum = takenEntries v (room + 1) page.records := by
      rw [JournalSession.taken, hroom, hentries]
    rw [← htaken] at halike hstopped
    have hlength : (session.offered v saved maximum).length =
        saved.pendingEvents.length + ((session.taken v saved maximum).flatMap (plainEvents v)).length :=
      List.length_append
    have hleft : (session.offered v saved maximum).drop maximum =
        ((session.taken v saved maximum).flatMap (plainEvents v)).drop (room + 1) := by
      rw [JournalSession.offered, List.drop_append, hnone, hroom, List.nil_append]
    have hpending : outcome.saved.pendingEvents.map (·.json.utf8ByteSize) =
        ((session.offered v saved maximum).drop maximum).map (·.json.utf8ByteSize) := by
      rw [hleft]
      exact halike.pendingEvents
    have hposition : outcome.saved.nextPosition = endPosition saved.nextPosition session.pageEnd
        (session.taken v saved maximum) session.entries := by
      rw [hend, hentries]
      exact halike.nextPosition
    have hcarried : outcome.saved.toWindowsCheckpoint.blank =
        (carried (history ++ session.records v saved maximum)).blank := by
      have hstep : outcome.saved.toWindowsCheckpoint.blank =
          (saved.toWindowsCheckpoint.after (session.records v saved maximum)).blank := halike.links
      rw [hstep, carried, WindowsCheckpoint.after_append, WindowsCheckpoint.blank_after, hlinks,
        ← WindowsCheckpoint.blank_after, carried]
    cases outcome with
    | stopped saved₁ out hasMore =>
      obtain ⟨rfl, -⟩ := Prod.mk.inj (Except.ok.inj h)
      have hover : maximum ≤ (session.offered v saved maximum).length := by
        have := of_decide_eq_true hstopped.symm
        omega
      refine ⟨halike.journalIdentity, hposition, ?_, halike.snapshotGeneration, hpending, hcarried⟩
      rw [outlineRead, if_pos hover, hbegin]
      exact halike.lowestValidPosition
    | finished saved₁ out =>
      obtain ⟨after, hafter, h⟩ := bind_ok.mp h
      obtain ⟨-, -, h⟩ := bind_ok.mp h
      obtain ⟨rfl, -⟩ := Prod.mk.inj (Except.ok.inj h)
      have hunder : ¬ maximum ≤ (session.offered v saved maximum).length := by
        have := of_decide_eq_false hstopped.symm
        omega
      refine ⟨halike.journalIdentity, hposition, ?_, halike.snapshotGeneration, hpending, hcarried⟩
      rw [outlineRead, if_neg hunder, hafter]
      rfl

def maxOpaqueBytes : Nat := 65536

/-- A condition on a read: the history before it, what it is answered and the state. -/
abbrev ReadCondition := List SanitizedUsnRecord → JournalSession → SavedCheckpoint → Nat → Prop

/-- Reads through the broker after a scan, each meeting `C`. -/
inductive BrokerReads (v : VolumeId) (C : ReadCondition) : List SanitizedUsnRecord → SavedCheckpoint → Prop
  | scanned {before after : UsnJournalState} {saved : SavedCheckpoint}
      (hscan : initialCheckpoint before after = .ok saved) : BrokerReads v C [] saved
  | read {history : List SanitizedUsnRecord} {saved saved' : SavedCheckpoint} {session : JournalSession}
      {maximum sequence : Nat} {events : List FilesystemEvent} {more : Bool}
      (hrun : BrokerReads v C history saved)
      (hrequest : (clientRequest sequence (.readChanges (encode v saved) maximum)).validate = .ok ())
      (hread : readSaved v session saved maximum = .ok (saved', events, more))
      (hC : C history session saved maximum) :
      BrokerReads v C (history ++ session.records v saved maximum) saved'

/-- Every request of the client to read on from the checkpoint is accepted. -/
def Readable (checkpoint : ProviderCheckpoint) : Prop :=
  ∀ sequence < 2 ^ 64, ∀ maximum, 0 < maximum → maximum ≤ maxBrokerPageEvents →
    (clientRequest sequence (.readChanges checkpoint maximum)).validate = .ok ()

/-- What the history calls for fits into a request. -/
def FitsRequest (v : VolumeId) : ReadCondition := fun history session saved maximum =>
  (toVec (outlineRead v history session saved maximum)).length ≤ maxOpaqueBytes

theorem readable_iff {saved : SavedCheckpoint} :
    Readable (encode v saved) ↔ (toVec saved).length ≤ maxOpaqueBytes := by
  have hname : providerId.utf8ByteSize ≤ 64 ∧ providerId ≠ "" := by decide
  constructor
  · intro h
    by_contra hlong
    have hrequest := h 0 (by decide) 1 (by decide) (by decide)
    rw [clientRequest_validate (by decide)] at hrequest
    have hover : 65536 < (toVec saved).length := not_le.mp hlong
    simp [BrokerOperation.validate, encode, hover, maxBrokerPageEvents] at hrequest
  · intro hfits sequence hsequence maximum hpos hmax
    have hpage : ¬ (maximum = 0 ∨ maxBrokerPageEvents < maximum) := by omega
    have hopaque : ¬ (65536 < (toVec saved).length ∨ 64 < providerId.utf8ByteSize ∨ providerId = "") := by
      rintro (h | h | h)
      · exact absurd hfits (not_le.mpr h)
      · exact absurd hname.1 (not_le.mpr h)
      · exact hname.2 h
    rw [clientRequest_validate hsequence, BrokerOperation.validate, if_neg hpage]
    exact if_neg hopaque

/-- The maps follow the history. -/
theorem links_of_reads {C : ReadCondition} {history : List SanitizedUsnRecord} {saved : SavedCheckpoint}
    (h : BrokerReads v C history saved) :
    saved.toWindowsCheckpoint.blank = (carried history).blank := by
  induction h with
  | scanned hscan =>
    obtain ⟨-, -, h⟩ := bind_ok.mp hscan
    obtain rfl := Except.ok.inj h
    rfl
  | read hrun hrequest hread hC ih => exact (readSaved_alike ih hread).links

theorem jsonInt64_size (n : Int64) : (jsonInt n.toInt).utf8ByteSize ≤ 21 := by
  have hlow := n.le_toInt
  have hhigh := n.toInt_lt
  have habs : n.toInt.natAbs.repr.utf8ByteSize ≤ 20 :=
    utf8ByteSize_repr_le (by decide) (by omega)
  have hsign : ("-" : String).utf8ByteSize = 1 := rfl
  unfold jsonInt
  split_ifs
  · rw [String.utf8ByteSize_append]
    omega
  · omega

theorem initialCheckpoint_size {before after : UsnJournalState} {saved : SavedCheckpoint}
    (h : initialCheckpoint before after = .ok saved) : (toVec saved).length ≤ maxOpaqueBytes := by
  obtain ⟨-, -, h⟩ := bind_ok.mp h
  obtain rfl := Except.ok.inj h
  have hnat : ∀ n : UInt64, (jsonNat n.toNat).utf8ByteSize ≤ 20 := fun n =>
    utf8ByteSize_repr_le (by decide) (lt_of_lt_of_le n.toNat_lt (by decide))
  have hnone : (jsonArray []).utf8ByteSize = 2 := rfl
  have hidentity := hnat before.identity
  have hposition := jsonInt64_size before.nextPosition
  have hlowest := jsonInt64_size (retainedStart before)
  have hgeneration := hnat 1
  have h₁ : ("journal_identity" : String).utf8ByteSize = 16 := rfl
  have h₂ : ("next_position" : String).utf8ByteSize = 13 := rfl
  have h₃ : ("lowest_valid_position" : String).utf8ByteSize = 21 := rfl
  have h₄ : ("snapshot_generation" : String).utf8ByteSize = 19 := rfl
  have h₅ : ("pending_events" : String).utf8ByteSize = 14 := rfl
  have h₆ : ("pending_renames" : String).utf8ByteSize = 15 := rfl
  have h₇ : ("known_links" : String).utf8ByteSize = 11 := rfl
  rw [toVec_length, SavedCheckpoint.json, jsonObject_size]
  simp only [List.map_cons, List.map_nil, List.length_cons, List.length_nil, List.sum_cons,
    List.sum_nil, Table.empty, hnone, maxOpaqueBytes, h₁, h₂, h₃, h₄, h₅, h₆, h₇]
  omega

/-- A checkpoint handed out by a read can be handed back exactly when the names
that renames gave, the unfinished renames and the left-over events fit. -/
theorem checkpoints_readable :
    (∀ history saved, BrokerReads v (FitsRequest v) history saved → Readable (encode v saved)) ∧
      ∀ C history saved, BrokerReads v C history saved → ∀ session maximum events batch,
        readChanges v session saved maximum = .ok (events, batch) →
          (Readable batch.checkpoint ↔ FitsRequest v history session saved maximum) := by
  constructor
  · intro history saved h
    cases h with
    | scanned hscan => exact readable_iff.mpr (initialCheckpoint_size hscan)
    | read hrun hrequest hread hC =>
      rw [readable_iff, (readSaved_alike (links_of_reads hrun) hread).size]
      exact hC
  · intro C history saved hrun session maximum events batch hread
    obtain ⟨⟨saved', events', more⟩, hsaved, h⟩ := bind_ok.mp hread
    obtain ⟨rfl, rfl⟩ := Prod.mk.inj (Except.ok.inj h)
    rw [readable_iff, (readSaved_alike (links_of_reads hrun) hsaved).size]
    rfl

theorem canonicalEvents_total {answer : MetadataAnswer} {lookup : ObjectLookup}
    (h : lookupObject answer = .ok lookup) (saved : WindowsCheckpoint) (record : SanitizedUsnRecord) :
    ∃ result, canonicalEvents answer saved v record = .ok result := by
  unfold canonicalEvents
  split_ifs
  · exact ⟨_, rfl⟩
  · exact ⟨_, rfl⟩
  · exact ⟨_, rfl⟩
  · dsimp only
    rw [h]
    exact ⟨_, rfl⟩

theorem readRecords_total (journalEnd pageEnd : Int64) (maximum : Nat)
    {entries : List (JournalRecord × MetadataAnswer)}
    (h : ∀ entry ∈ entries, ∃ lookup, lookupObject entry.2 = .ok lookup) (saved : SavedCheckpoint)
    (emitted : List FilesystemEvent) :
    ∃ outcome, readRecords v journalEnd pageEnd maximum entries saved emitted = .ok outcome := by
  induction entries generalizing saved emitted with
  | nil => exact ⟨_, rfl⟩
  | cons entry rest ih =>
    obtain ⟨lookup, hlookup⟩ := h entry List.mem_cons_self
    obtain ⟨⟨links, events⟩, hevents⟩ :=
      canonicalEvents_total (v := v) hlookup saved.toWindowsCheckpoint entry.1.toSanitizedUsnRecord
    rw [readRecords, hevents]
    dsimp only [bind, Except.bind]
    split_ifs
    · exact ⟨_, rfl⟩
    · exact ⟨_, rfl⟩
    · exact ih (fun entry hentry => h entry (List.mem_cons_of_mem _ hentry)) _ _

theorem takenEntries_all {room : Nat} {entries : List (JournalRecord × MetadataAnswer)}
    (h : (entries.flatMap (plainEvents v)).length < room) : takenEntries v room entries = entries := by
  induction entries generalizing room with
  | nil => cases room <;> rfl
  | cons entry rest ih =>
    rw [List.flatMap_cons, List.length_append] at h
    obtain ⟨room, rfl⟩ : ∃ room', room = room' + 1 := ⟨room - 1, by omega⟩
    rw [takenEntries, if_pos (by omega), ih (by omega)]

/-- A record gives at most two events. -/
theorem plainEvents_length (entry : JournalRecord × MetadataAnswer) : (plainEvents v entry).length ≤ 2 := by
  obtain ⟨record, answer⟩ := entry
  cases hrun : canonicalEvents answer .fresh v record.toSanitizedUsnRecord with
  | error error => rw [plainEvents, hrun]; exact Nat.zero_le 2
  | ok result =>
    obtain ⟨saved', events⟩ := result
    have hplain : plainEvents v (record, answer) = events := by rw [plainEvents, hrun]; rfl
    rw [hplain]
    cases hname : record.hadInvalidUtf16 with
    | true =>
      simp only [canonicalEvents, hname, if_true] at hrun
      obtain ⟨-, rfl⟩ := Prod.mk.inj (Except.ok.inj hrun)
      exact Nat.le_succ 1
    | false =>
      cases hold : record.has reasonRenameOldName with
      | true =>
        obtain ⟨-, rfl⟩ := canonicalEvents_old hname hold hrun
        exact Nat.zero_le 2
      | false =>
        cases hdelete : record.has reasonFileDelete with
        | true =>
          obtain ⟨-, rfl⟩ := canonicalEvents_delete hname hold hdelete hrun
          exact le_rfl
        | false =>
          obtain ⟨lookup, -, -, rfl⟩ := canonicalEvents_looked hname hold hdelete hrun
          unfold observedEvents
          cases lookup <;> split_ifs <;> simp

/-- A read with room to spare takes the page whole. -/
theorem readSaved_whole {session : JournalSession} {saved : SavedCheckpoint} {maximum : Nat}
    {state : UsnJournalState} {page : JournalPage} (hpending : saved.pendingEvents = []) (hbefore : session.before = .ok state)
    (hpage : session.page = .ok page) (hafter : session.after = .ok state)
    (hidentity : saved.journalIdentity = state.identity) (hstart : retainedStart state ≤ saved.nextPosition)
    (hforward : saved.nextPosition ≤ page.nextPosition) (hrecords : page.records ≠ [])
    (hlookups : ∀ entry ∈ page.records, ∃ lookup, lookupObject entry.2 = .ok lookup)
    (hroom : (page.records.flatMap (plainEvents v)).length < maximum) :
    session.records v saved maximum = page.records.map (·.1.toSanitizedUsnRecord) ∧
      ∃ saved' events more, readSaved v session saved maximum = .ok (saved', events, more) ∧
        saved'.pendingEvents = [] ∧ saved'.journalIdentity = state.identity ∧
        saved'.nextPosition = page.nextPosition := by
  obtain ⟨room, rfl⟩ : ∃ room, maximum = room + 1 := ⟨maximum - 1, by omega⟩
  have hentries : session.entries = page.records := by rw [JournalSession.entries, hpage]
  have hall := takenEntries_all hroom
  have htaken : session.taken v saved (room + 1) = page.records := by
    rw [JournalSession.taken, hpending, hentries]
    exact hall
  have hend : endPosition saved.nextPosition page.nextPosition page.records page.records =
      page.nextPosition := by
    rw [endPosition, if_neg hrecords, List.drop_length]
    rfl
  have hvalid : ∀ checkpoint : SavedCheckpoint, checkpoint.journalIdentity = state.identity →
      retainedStart state ≤ checkpoint.nextPosition →
      checkpoint.validate state.identity (retainedStart state) = .ok () := by
    intro checkpoint hsame hkept
    rw [SavedCheckpoint.validate, if_neg]
    rintro (hne | hlost)
    · exact hne hsame
    · exact Int64.not_le.mpr hlost hkept
  refine ⟨by rw [JournalSession.records, htaken], ?_⟩
  obtain ⟨outcome, houtcome⟩ := readRecords_total (v := v) state.nextPosition page.nextPosition
    (room + 1) hlookups { saved with lowestValidPosition := retainedStart state, pendingEvents := [] } []
  obtain ⟨halike, hstopped⟩ := readRecords_alike rfl (Nat.zero_add _) houtcome
  rw [hall, hend] at halike
  rw [hall, decide_eq_false (not_le.mpr hroom)] at hstopped
  cases outcome with
  | stopped saved₁ out hasMore => cases hstopped
  | finished saved₁ out =>
    have hsame : saved₁.journalIdentity = state.identity := halike.journalIdentity.trans hidentity
    have hposition : saved₁.nextPosition = page.nextPosition := halike.nextPosition
    have hdone : saved₁.pendingEvents = [] := by
      have hsizes := halike.pendingEvents
      rw [SavedCheckpoint.advanced, List.drop_eq_nil_of_le hroom.le, List.map_nil, List.map_eq_nil_iff]
        at hsizes
      exact hsizes
    have hkept : retainedStart state ≤ saved₁.nextPosition := by
      rw [hposition]
      exact Int64.le_trans hstart hforward
    refine ⟨{ saved₁ with lowestValidPosition := retainedStart state }, out,
      decide (saved₁.nextPosition < state.nextPosition), ?_, hdone, hsame, hposition⟩
    rw [readSaved, hbefore]
    simp only [bind, Except.bind, hvalid saved hidentity hstart, hpending, List.drop_nil,
      List.take_nil, ne_eq, not_true_eq_false, List.length_nil, false_or, hpage, hafter]
    rw [if_neg (by omega), if_neg (Int64.not_lt.mpr hforward), houtcome]
    simp only [hvalid saved₁ hsame hkept]

end Reads

section Example

open Graph (sampleVolume sampleObject)

/-- The answer to a lookup once the namespace has become `ns`. -/
def Truthful (ns : Namespace) (entry : JournalRecord × MetadataAnswer) : Prop :=
  match entry.2 with
  | .ok (.ok (.observed _)) => ns (.named entry.1.place) ≠ none
  | .ok (.ok .missing) => ns (.named entry.1.place) = none
  | _ => True

/-- The page of a read continues a legal history. -/
def Serves (root : Nat) (start : Namespace) : ReadCondition := fun history session saved _ =>
  ∃ page ns, session.page = .ok page ∧
    LegalHistory root start (history ++ page.records.map (·.1.toSanitizedUsnRecord)) ns ∧
    (page.records.map (·.1.position)).Pairwise (· < ·) ∧
    ∀ entry ∈ page.records, saved.nextPosition ≤ entry.1.position ∧
      entry.1.position < page.nextPosition ∧ utf16Units entry.1.name ≤ 255 ∧ Truthful ns entry

def grownName (n : Nat) : String := "b" ++ n.repr

def createNew (n : Nat) : SanitizedUsnRecord := recordOf (100 + n) "new" reasonFileCreate
def oldNew (n : Nat) : SanitizedUsnRecord := recordOf (100 + n) "new" reasonRenameOldName
def newGrown (n : Nat) : SanitizedUsnRecord := recordOf (100 + n) (grownName n) reasonRenameNewName

/-- Files are created one after the other and renamed right away. -/
def grown : Nat → List SanitizedUsnRecord
  | 0 => []
  | n + 1 => grown n ++ [createNew n] ++ [oldNew n, newGrown n]

def withNew (ns : Namespace) (n : Nat) : Namespace :=
  Function.update ns (.named (nameIn "new")) (some (100 + n))

def withMoving (ns : Namespace) (n : Nat) : Namespace :=
  Function.update (Function.update ns (.named (nameIn "new")) none) (.moving (100 + n)) (some (100 + n))

def withGrown (ns : Namespace) (n : Nat) : Namespace :=
  Function.update (Function.update ns (.moving (100 + n)) none) (.named (nameIn (grownName n)))
    (some (100 + n))

def grownNames : Nat → Namespace
  | 0 => fun _ => none
  | n + 1 => withGrown (withMoving (withNew (grownNames n) n) n) n

theorem recordOf_has (f : Nat) (name : String) (reason mask : BitVec 32) :
    (recordOf f name reason).has mask = (reason &&& mask != 0) := rfl

theorem createNew_writes (n : Nat) : nameWrites (createNew n) = [] := by
  have hold : (createNew n).has reasonRenameOldName = false := by rw [createNew, recordOf_has]; decide
  have hnew : (createNew n).has reasonRenameNewName = false := by rw [createNew, recordOf_has]; decide
  have hdelete : (createNew n).has reasonFileDelete = false := by rw [createNew, recordOf_has]; decide
  rw [nameWrites, hold, hnew, hdelete]
  rfl

theorem oldNew_writes (n : Nat) : nameWrites (oldNew n) = [(nameIn "new", none)] := by
  have hold : (oldNew n).has reasonRenameOldName = true := by rw [oldNew, recordOf_has]; decide
  rw [nameWrites, hold]
  rfl

theorem newGrown_writes (n : Nat) : nameWrites (newGrown n) = [(nameIn (grownName n), some noId)] := by
  have hold : (newGrown n).has reasonRenameOldName = false := by rw [newGrown, recordOf_has]; decide
  have hnew : (newGrown n).has reasonRenameNewName = true := by rw [newGrown, recordOf_has]; decide
  have hdelete : (newGrown n).has reasonFileDelete = false := by rw [newGrown, recordOf_has]; decide
  rw [nameWrites, hold, hnew, hdelete]
  rfl

theorem grownName_ne_new (n : Nat) : grownName n ≠ "new" := by
  intro h
  have hchars := congrArg String.toList h
  rw [grownName, String.toList_append] at hchars
  exact absurd (List.cons.inj hchars).1 (by decide)

theorem grownName_injective : Function.Injective grownName := by
  intro a b h
  have hchars := congrArg String.toList h
  rw [grownName, grownName, String.toList_append, String.toList_append] at hchars
  exact repr_injective (String.toList_inj.mp (List.append_cancel_left hchars))

theorem grownNames_some {n : Nat} {slot : Slot} {f : Nat} (h : grownNames n slot = some f) :
    ∃ j < n, slot = .named (nameIn (grownName j)) ∧ f = 100 + j := by
  induction n with
  | zero => cases h
  | succ n ih =>
    simp only [grownNames, withGrown, withMoving, withNew, Function.update_apply] at h
    split_ifs at h with hgrown hmoving hnew
    · exact ⟨n, Nat.lt_succ_self n, hgrown, (Option.some.inj h).symm⟩
    · obtain ⟨j, hj, hslot, hf⟩ := ih h
      exact ⟨j, Nat.lt_succ_of_lt hj, hslot, hf⟩

theorem grown_created (n : Nat) :
    LegalRecord 5 (grownNames n) (createNew n) (withNew (grownNames n) n) := by
  have hroot : (createNew n).fileReference ≠ 5 := by
    show 100 + n ≠ 5
    omega
  refine .create rfl (by rw [createNew, recordOf_has]; decide) (by rw [createNew, recordOf_has]; decide)
    (by rw [createNew, recordOf_has]; decide) ?_ ⟨hroot, ?_⟩ (Or.inl rfl)
  · -- the place is free
    refine Option.eq_none_iff_forall_ne_some.mpr fun f hf => ?_
    obtain ⟨j, -, hslot, -⟩ := grownNames_some hf
    have hname : "new" = grownName j := (Prod.mk.inj (toLex.injective (Slot.named.inj hslot))).2
    exact grownName_ne_new j hname.symm
  · intro slot hslot
    obtain ⟨j, hj, -, hf⟩ := grownNames_some hslot
    have hsame : 100 + n = 100 + j := hf
    omega

theorem grown_oldName (n : Nat) : LegalRecord 5 (withNew (grownNames n) n) (oldNew n)
    (withMoving (withNew (grownNames n) n) n) := by
  refine .oldName rfl (by rw [oldNew, recordOf_has]; decide) (Function.update_self ..) ?_
  refine Option.eq_none_iff_forall_ne_some.mpr fun f hf => ?_
  have hmoving : Slot.moving (oldNew n).fileReference ≠ .named (nameIn "new") := nofun
  rw [withNew, Function.update_of_ne hmoving] at hf
  obtain ⟨j, -, hslot, -⟩ := grownNames_some hf
  cases hslot

theorem grown_newName (n : Nat) : LegalRecord 5 (withMoving (withNew (grownNames n) n) n) (newGrown n)
    (grownNames (n + 1)) := by
  refine .newName rfl (by rw [newGrown, recordOf_has]; decide) (by rw [newGrown, recordOf_has]; decide)
    (Function.update_self ..) ?_ (Or.inl rfl)
  refine Option.eq_none_iff_forall_ne_some.mpr fun f hf => ?_
  have hne : Slot.named (nameIn (grownName n)) ≠ .named (nameIn "new") := fun h =>
    grownName_ne_new n (Prod.mk.inj (toLex.injective (Slot.named.inj h))).2
  have hslot : withMoving (withNew (grownNames n) n) n (.named (nameIn (grownName n))) = some f := hf
  have hnamed : Slot.named (nameIn (grownName n)) ≠ .moving (100 + n) := nofun
  rw [withMoving, Function.update_of_ne hnamed, Function.update_of_ne hne, withNew,
    Function.update_of_ne hne] at hslot
  obtain ⟨j, hj, hplace, -⟩ := grownNames_some hslot
  have hname := (Prod.mk.inj (toLex.injective (Slot.named.inj hplace))).2
  exact absurd (grownName_injective hname) (by omega)

theorem grown_legal (n : Nat) : LegalHistory 5 (fun _ => none) (grown n) (grownNames n) := by
  induction n with
  | zero => exact .nil
  | succ n ih =>
    have hcreated := LegalHistory.snoc ih (grown_created n)
    have hmoving := LegalHistory.snoc hcreated (grown_oldName n)
    have hgrown := LegalHistory.snoc hmoving (grown_newName n)
    rw [List.append_assoc _ [oldNew n] [newGrown n]] at hgrown
    exact hgrown

theorem grown_name (n : Nat) (place : Place) : (carried (grown (n + 1))).knownLinks.get place =
    if place = nameIn (grownName n) then some noId
    else if place = nameIn "new" then none else (carried (grown n)).knownLinks.get place := by
  have hnames : (carried (grown (n + 1))).knownLinks =
      ((carried (grown n)).knownLinks.erase (nameIn "new")).insert (nameIn (grownName n)) noId := by
    rw [carried, grown, WindowsCheckpoint.after_append, WindowsCheckpoint.after_append]
    simp only [WindowsCheckpoint.after, List.flatMap_cons, List.flatMap_nil, createNew_writes,
      oldNew_writes, newGrown_writes]
    rfl
  rw [hnames, Table.get_insert, Table.get_erase]

/-- Every renamed file leaves an entry. -/
theorem grown_knownLinks (n : Nat) : n ≤ (carried (grown n)).knownLinks.rows.length := by
  have hget : ∀ j < n, (carried (grown n)).knownLinks.get (nameIn (grownName j)) = some noId := by
    induction n with
    | zero => exact fun j hj => absurd hj (Nat.not_lt_zero j)
    | succ n ih =>
      intro j hj
      rw [grown_name]
      have hnew : nameIn (grownName j) ≠ nameIn "new" := fun h =>
        grownName_ne_new j (Prod.mk.inj (toLex.injective h)).2
      split_ifs with hlast
      · rfl
      · have hne : j ≠ n := fun h => hlast (by rw [h])
        exact ih j (by omega)
  have hnodup : ((List.range n).map fun j => nameIn (grownName j)).Nodup :=
    List.Nodup.map (fun a b h => grownName_injective (Prod.mk.inj (toLex.injective h)).2) List.nodup_range
  have hsub : ((List.range n).map fun j => nameIn (grownName j)) ⊆
      (carried (grown n)).knownLinks.rows.map (·.1) := by
    intro place hplace
    obtain ⟨j, hj, rfl⟩ := List.mem_map.mp hplace
    exact List.mem_map_of_mem (Table.mem_rows.mpr (hget j (List.mem_range.mp hj)))
  have hlength := (List.subperm_of_subset hnodup hsub).length_le
  simpa using hlength

/-- A read of the sample volume that ends two positions further. -/
def grownSession (p : Nat) (entries : List (JournalRecord × MetadataAnswer)) : JournalSession :=
  ⟨.ok ⟨1, 0, 0, 0⟩, .ok ⟨Int64.ofNat (p + 2), entries⟩, .ok ⟨1, 0, 0, 0⟩⟩

/-- A record at one of the two positions from `p` on, read when the namespace is `ns`. -/
structure ServedAt (p : Nat) (ns : Namespace) (entry : JournalRecord × MetadataAnswer) : Prop where
  lookup : ∃ lookup, lookupObject entry.2 = .ok lookup
  low : Int64.ofNat p ≤ entry.1.position
  high : entry.1.position < Int64.ofNat (p + 2)
  name : utf16Units entry.1.name ≤ 255
  truthful : Truthful ns entry

/-- One read of the sample volume. -/
theorem grown_read {history : List SanitizedUsnRecord} {saved : SavedCheckpoint} {p : Nat}
    (hp : p < 2 ^ 62) (hrun : BrokerReads sampleVolume (Serves 5 fun _ => none) history saved)
    (hreadable : Readable (encode sampleVolume saved)) (hpending : saved.pendingEvents = [])
    (hidentity : saved.journalIdentity = 1) (hposition : saved.nextPosition = Int64.ofNat p)
    {entries : List (JournalRecord × MetadataAnswer)} {ns : Namespace} (hentries : entries ≠ [])
    (hfew : entries.length ≤ 2)
    (hlegal : LegalHistory 5 (fun _ => none) (history ++ entries.map (·.1.toSanitizedUsnRecord)) ns)
    (hascending : (entries.map (·.1.position)).Pairwise (· < ·))
    (hserved : ∀ entry ∈ entries, ServedAt p ns entry) :
    ∃ saved', BrokerReads sampleVolume (Serves 5 fun _ => none)
        (history ++ entries.map (·.1.toSanitizedUsnRecord)) saved' ∧
      saved'.pendingEvents = [] ∧ saved'.journalIdentity = 1 ∧
      saved'.nextPosition = Int64.ofNat (p + 2) := by
  have hroom : (entries.flatMap (plainEvents sampleVolume)).length < 256 := by
    have hsum : (entries.map fun entry => (plainEvents sampleVolume entry).length).sum ≤
        (entries.map fun _ => 2).sum := List.sum_le_sum fun entry _ => plainEvents_length entry
    rw [List.map_const', List.sum_replicate_nat] at hsum
    rw [List.length_flatMap]
    omega
  have hforward : Int64.ofNat p ≤ Int64.ofNat (p + 2) :=
    (Int64.ofNat_le_iff_le (by omega) (by omega)).mpr (by omega)
  have hstart : (0 : Int64) ≤ Int64.ofNat p :=
    (Int64.ofNat_le_iff_le (a := 0) (by omega) (by omega)).mpr (Nat.zero_le p)
  have hbefore : (grownSession p entries).before = .ok ⟨1, 0, 0, 0⟩ := rfl
  obtain ⟨hrecords, saved', events, more, hread, hdone, hsame, hnext⟩ := readSaved_whole
    (v := sampleVolume) hpending hbefore rfl rfl hidentity (hposition ▸ hstart) (hposition ▸ hforward)
    hentries (fun entry hentry => (hserved entry hentry).lookup) hroom
  refine ⟨saved', ?_, hdone, hsame, hnext⟩
  rw [← hrecords]
  refine .read hrun (hreadable 0 (by decide) 256 (by decide) (by decide)) hread ?_
  refine ⟨_, ns, rfl, hlegal, hascending, fun entry hentry => ?_⟩
  rw [hposition]
  have hentry := hserved entry hentry
  exact ⟨hentry.low, hentry.high, hentry.name, hentry.truthful⟩

def createdPage (n : Nat) : List (JournalRecord × MetadataAnswer) :=
  [(⟨createNew n, Int64.ofNat (4 * n)⟩, .ok (.ok (.observed (sampleObject 7 .file))))]

def renamedPage (n : Nat) : List (JournalRecord × MetadataAnswer) :=
  [(⟨oldNew n, Int64.ofNat (4 * n + 2)⟩, .ok (.ok .missing)),
    (⟨newGrown n, Int64.ofNat (4 * n + 3)⟩, .ok (.ok (.observed (sampleObject 7 .file))))]

theorem ofNat_mono {a b : Nat} (hab : a ≤ b) (hb : b < 2 ^ 62) : Int64.ofNat a ≤ Int64.ofNat b :=
  (Int64.ofNat_le_iff_le (by omega) (by omega)).mpr hab

theorem ofNat_strictMono {a b : Nat} (hab : a < b) (hb : b < 2 ^ 62) : Int64.ofNat a < Int64.ofNat b :=
  (Int64.ofNat_lt_iff_lt (by omega) (by omega)).mpr hab

theorem createdPage_served {n : Nat} (hn : n ≤ 2000) {entry : JournalRecord × MetadataAnswer}
    (h : entry ∈ createdPage n) : ServedAt (4 * n) (withNew (grownNames n) n) entry := by
  obtain rfl := List.mem_singleton.mp h
  refine ⟨⟨_, rfl⟩, ofNat_mono le_rfl (by omega), ofNat_strictMono (by omega) (by omega), ?_, ?_⟩
  · show utf16Units "new" ≤ 255
    decide
  · show withNew (grownNames n) n (.named (nameIn "new")) ≠ none
    rw [withNew, Function.update_self]
    exact Option.some_ne_none _

theorem renamedPage_served {n : Nat} (hn : n ≤ 2000) {entry : JournalRecord × MetadataAnswer}
    (h : entry ∈ renamedPage n) : ServedAt (4 * n + 2) (grownNames (n + 1)) entry := by
  rcases List.mem_pair.mp h with rfl | rfl
  · refine ⟨⟨_, rfl⟩, ofNat_mono le_rfl (by omega), ofNat_strictMono (by omega) (by omega), ?_, ?_⟩
    · show utf16Units "new" ≤ 255
      decide
    · show grownNames (n + 1) (.named (nameIn "new")) = none
      refine Option.eq_none_iff_forall_ne_some.mpr fun f hf => ?_
      obtain ⟨j, -, hslot, -⟩ := grownNames_some hf
      exact grownName_ne_new j (Prod.mk.inj (toLex.injective (Slot.named.inj hslot))).2.symm
  · refine ⟨⟨_, rfl⟩, ofNat_mono (by omega) (by omega), ofNat_strictMono (by omega) (by omega), ?_, ?_⟩
    · show utf16Units (grownName n) ≤ 255
      have hletter : ("b" : String).utf8ByteSize = 1 := rfl
      have hdigits : n.repr.utf8ByteSize ≤ 4 := utf8ByteSize_repr_le (by decide) (by omega)
      have hunits := utf16Units_le (grownName n)
      rw [grownName, String.utf8ByteSize_append] at hunits
      rw [grownName]
      omega
    · show grownNames (n + 1) (.named (nameIn (grownName n))) ≠ none
      rw [grownNames, withGrown, Function.update_self]
      exact Option.some_ne_none _

/-- The checkpoint of a scan of the empty volume. -/
def scannedSaved : SavedCheckpoint := ⟨.fresh, 1, 0, 0, 1, []⟩

theorem grown_scanned :
    initialCheckpoint ⟨1, 0, 0, 0⟩ ⟨1, 0, 0, 0⟩ = .ok scannedSaved := by
  decide

/-- If every checkpoint could be handed back, the history could go on for ever. -/
theorem grown_reads (hclaim : ∀ history saved,
      BrokerReads sampleVolume (Serves 5 fun _ => none) history saved → Readable (encode sampleVolume saved))
    {n : Nat} (hn : n ≤ 2000) :
    ∃ saved, BrokerReads sampleVolume (Serves 5 fun _ => none) (grown n) saved ∧
      saved.pendingEvents = [] ∧ saved.journalIdentity = 1 ∧ saved.nextPosition = Int64.ofNat (4 * n) := by
  induction n with
  | zero =>
    exact ⟨_, .scanned grown_scanned, rfl, rfl, rfl⟩
  | succ n ih =>
    obtain ⟨saved, hrun, hpending, hidentity, hposition⟩ := ih (by omega)
    have hcreated : LegalHistory 5 (fun _ => none)
        (grown n ++ (createdPage n).map (·.1.toSanitizedUsnRecord)) (withNew (grownNames n) n) :=
      .snoc (grown_legal n) (grown_created n)
    have hone : createdPage n ≠ [] := List.cons_ne_nil _ _
    have htwo : renamedPage n ≠ [] := List.cons_ne_nil _ _
    obtain ⟨saved₁, hrun₁, hpending₁, hidentity₁, hposition₁⟩ := grown_read (by omega) hrun
      (hclaim _ _ hrun) hpending hidentity hposition hone (Nat.le_succ 1) hcreated
      (List.pairwise_singleton _ _) (fun _ => createdPage_served (by omega))
    have hrenamed : LegalHistory 5 (fun _ => none)
        ((grown n ++ (createdPage n).map (·.1.toSanitizedUsnRecord)) ++
          (renamedPage n).map (·.1.toSanitizedUsnRecord)) (grownNames (n + 1)) := grown_legal (n + 1)
    have hascending : ((renamedPage n).map (·.1.position)).Pairwise (· < ·) :=
      List.pairwise_pair.mpr (ofNat_strictMono (by omega) (by omega))
    exact grown_read (by omega) hrun₁ (hclaim _ _ hrun₁) hpending₁ hidentity₁ hposition₁
      htwo le_rfl hrenamed hascending (fun _ => renamedPage_served (by omega))

/-- Renames make the checkpoint grow until it cannot be handed back. -/
theorem checkpoints_outgrow :
    ¬ ∀ v history saved, BrokerReads v (Serves 5 fun _ => none) history saved →
      Readable (encode v saved) := by
  intro hclaim
  obtain ⟨saved, hrun, -⟩ := grown_reads (hclaim sampleVolume) (le_refl 2000)
  have hfits := readable_iff.mp (hclaim _ _ _ hrun)
  have hrows := knownLinks_le_size saved
  have hblank := (WindowsCheckpoint.mk.inj (links_of_reads hrun)).2
  have hsame : saved.knownLinks.rows.length = (carried (grown 2000)).knownLinks.rows.length := by
    simpa [Table.mapRows] using congrArg (fun t => t.rows.length) hblank
  have hmany := grown_knownLinks 2000
  rw [maxOpaqueBytes] at hfits
  omega

/-- The checkpoint after one created file can be handed back. -/
theorem created_readable :
    ∃ saved' events more, readSaved sampleVolume (grownSession 0 (createdPage 0)) scannedSaved 256 =
      .ok (saved', events, more) ∧ Readable (encode sampleVolume saved') := by
  have hbefore : (grownSession 0 (createdPage 0)).before = .ok ⟨1, 0, 0, 0⟩ := rfl
  have hone : createdPage 0 ≠ [] := List.cons_ne_nil _ _
  have hpending : scannedSaved.pendingEvents = [] := rfl
  have hroom : ((createdPage 0).flatMap (plainEvents sampleVolume)).length < 256 := by decide
  obtain ⟨-, saved', events, more, hread, -⟩ := readSaved_whole hpending hbefore rfl rfl rfl
    (by decide) (by decide) hone (fun _ h => (createdPage_served (by decide) h).lookup) hroom
  have hscanned : Readable (encode sampleVolume scannedSaved) :=
    readable_iff.mpr (initialCheckpoint_size grown_scanned)
  have hrequest := hscanned 0 (by decide) 256 (by decide) (by decide)
  have hfits : FitsRequest sampleVolume [] (grownSession 0 (createdPage 0)) scannedSaved 256 := by
    rw [FitsRequest]
    decide +kernel
  exact ⟨saved', events, more, hread,
    checkpoints_readable.1 _ _ (.read (.scanned grown_scanned) hrequest hread hfits)⟩

end Example

end LocalSearch.Windows
