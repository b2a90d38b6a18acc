import LocalSearch.Windows.ReadChanges

/-!
# Reads in a row

A record yields up to two events, a budget may end between them, and what is
left over travels through the encoded checkpoint together with the maps. Over
any reads in a row the events handed out and the ones still pending are the
canonical events of the records taken, in order, each interpreted once.
-/
namespace LocalSearch.Windows

set_option autoImplicit false

open Core Lib

abbrev JournalEntry := JournalRecord × MetadataAnswer

/-- The value as it is deserialised: the maps are vectors in any order. -/
structure CheckpointData where
  journalIdentity : UInt64
  nextPosition : Int64
  lowestValidPosition : Int64
  snapshotGeneration : UInt64
  pendingEvents : List FilesystemEvent
  pendingRenames : List (Nat × FileLinkId)
  knownLinks : List (Place × FileLinkId)
  deriving DecidableEq

def SavedCheckpoint.data (saved : SavedCheckpoint) : CheckpointData where
  journalIdentity := saved.journalIdentity
  nextPosition := saved.nextPosition
  lowestValidPosition := saved.lowestValidPosition
  snapshotGeneration := saved.snapshotGeneration
  pendingEvents := saved.pendingEvents
  pendingRenames := saved.pendingRenames.rows
  knownLinks := saved.knownLinks.rows

/-- `serde_json::from_slice` at the checkpoint type; its error is a message. -/
abbrev FromSlice := List UInt8 → Except String CheckpointData

def decode (fromSlice : FromSlice) (value : ProviderCheckpoint) : PlatformResult CheckpointData :=
  if value.providerId ≠ providerId ∨ ¬ (value.formatVersion = 2 ∨ value.formatVersion = 3) then
    .error ⟨.invalidCheckpoint, "decode_checkpoint", "provider or format mismatch"⟩
  else
    match fromSlice value.opaqueBytes with
    | .error message => .error ⟨.invalidCheckpoint, "decode_checkpoint", message⟩
    | .ok decoded => .ok { decoded with
        pendingRenames := decoded.pendingRenames.mergeSort fun a b => a.1 ≤ b.1
        knownLinks := decoded.knownLinks.mergeSort fun a b => a.1 ≤ b.1 }

theorem SavedCheckpoint.data_injective {a b : SavedCheckpoint} (h : a.data = b.data) : a = b := by
  obtain ⟨⟨⟨renames, _⟩, ⟨names, _⟩⟩, identity, position, lowest, generation, pending⟩ := a
  obtain ⟨⟨⟨renames', _⟩, ⟨names', _⟩⟩, identity', position', lowest', generation', pending'⟩ := b
  obtain ⟨rfl, rfl, rfl, rfl, rfl, rfl, rfl⟩ := CheckpointData.mk.inj h
  rfl

theorem rows_mergeSort {κ : Type} [LinearOrder κ] (t : Table κ FileLinkId) :
    t.rows.mergeSort (fun a b => a.1 ≤ b.1) = t.rows := by
  apply List.mergeSort_of_pairwise
  exact t.sorted.imp fun hlt => decide_eq_true (le_of_lt hlt)

/-- A reader that gives back what was written sees the checkpoint that was saved. -/
theorem decode_encode {fromSlice : FromSlice} {v : VolumeId} {saved : SavedCheckpoint}
    (h : fromSlice (toVec saved) = .ok saved.data) :
    decode fromSlice (encode v saved) = .ok saved.data := by
  have hformat : ¬ ((encode v saved).providerId ≠ providerId ∨
      ¬ ((encode v saved).formatVersion = 2 ∨ (encode v saved).formatVersion = 3)) := by
    rintro (hid | hversion)
    · exact hid rfl
    · exact hversion (.inr rfl)
  rw [decode, if_neg hformat, show (encode v saved).opaqueBytes = toVec saved from rfl, h]
  simp only [SavedCheckpoint.data, rows_mergeSort]

/-- Record after record, each against the maps the ones before it left. -/
def canonicalRun (v : VolumeId) : WindowsCheckpoint → List JournalEntry →
    PlatformResult (WindowsCheckpoint × List FilesystemEvent)
  | links, [] => .ok (links, [])
  | links, (record, answer) :: rest => do
      let (links, events) ← canonicalEvents answer links v record.toSanitizedUsnRecord
      let (links, later) ← canonicalRun v links rest
      .ok (links, events ++ later)

section Run

variable {v : VolumeId} {links links' : WindowsCheckpoint} {events : List FilesystemEvent}

theorem canonicalRun_cons {entry : JournalEntry} {rest : List JournalEntry} :
    canonicalRun v links (entry :: rest) = .ok (links', events) ↔
      ∃ links₁ first later,
        canonicalEvents entry.2 links v entry.1.toSanitizedUsnRecord = .ok (links₁, first) ∧
        canonicalRun v links₁ rest = .ok (links', later) ∧ events = first ++ later := by
  constructor
  · intro h
    obtain ⟨⟨links₁, first⟩, h₁, h⟩ := bind_ok.mp h
    obtain ⟨⟨links₂, later⟩, h₂, h⟩ := bind_ok.mp h
    obtain ⟨rfl, rfl⟩ := Prod.mk.inj (Except.ok.inj h)
    exact ⟨links₁, first, later, h₁, h₂, rfl⟩
  · rintro ⟨links₁, first, later, h₁, h₂, rfl⟩
    exact bind_ok.mpr ⟨_, h₁, bind_ok.mpr ⟨_, h₂, rfl⟩⟩

theorem canonicalRun_append {a b : List JournalEntry} :
    canonicalRun v links (a ++ b) = .ok (links', events) ↔
      ∃ links₁ first later, canonicalRun v links a = .ok (links₁, first) ∧
        canonicalRun v links₁ b = .ok (links', later) ∧ events = first ++ later := by
  induction a generalizing links events with
  | nil =>
    constructor
    · intro h
      exact ⟨links, [], events, rfl, h, rfl⟩
    · rintro ⟨links₁, first, later, h₁, h₂, rfl⟩
      obtain ⟨rfl, rfl⟩ := Prod.mk.inj (Except.ok.inj h₁)
      exact h₂
  | cons entry a ih =>
    rw [List.cons_append, canonicalRun_cons]
    constructor
    · rintro ⟨links₁, first, later, h₁, h₂, rfl⟩
      obtain ⟨links₂, second, last, h₃, h₄, rfl⟩ := ih.mp h₂
      exact ⟨links₂, first ++ second, last, canonicalRun_cons.mpr ⟨_, _, _, h₁, h₃, rfl⟩, h₄,
        (List.append_assoc _ _ _).symm⟩
    · rintro ⟨links₂, whole, last, hwhole, hlast, rfl⟩
      obtain ⟨links₁, first, second, hfirst, hsecond, rfl⟩ := canonicalRun_cons.mp hwhole
      exact ⟨links₁, first, second ++ last, hfirst, ih.mpr ⟨_, _, _, hsecond, hlast, rfl⟩,
        List.append_assoc _ _ _⟩

end Run

section Read

variable {v : VolumeId} {journalEnd pageEnd : Int64} {maximum : Nat}

def RecordsOutcome.emitted : RecordsOutcome → List FilesystemEvent
  | .stopped _ emitted _ => emitted
  | .finished _ emitted => emitted

/-- What a read has done once it took some entries of what was before it. -/
structure Takes (v : VolumeId) (saved next : SavedCheckpoint) (taken : List JournalEntry)
    (early emitted : List FilesystemEvent) : Prop where
  run : ∃ events,
    canonicalRun v saved.toWindowsCheckpoint taken = .ok (next.toWindowsCheckpoint, events) ∧
    emitted ++ next.pendingEvents = early ++ events

/-- The loop over a page takes its first entries and loses none of their events. -/
theorem readRecords_takes {entries : List JournalEntry} {saved : SavedCheckpoint}
    {emitted : List FilesystemEvent} {outcome : RecordsOutcome} (hpending : saved.pendingEvents = [])
    (hroom : emitted.length ≤ maximum)
    (h : readRecords v journalEnd pageEnd maximum entries saved emitted = .ok outcome) :
    ∃ taken rest, entries = taken ++ rest ∧ Takes v saved outcome.saved taken emitted outcome.emitted ∧
      outcome.saved.nextPosition =
        (if taken = [] then saved.nextPosition else (rest.head?.map (·.1.position)).getD pageEnd) ∧
      outcome.emitted.length ≤ maximum := by
  induction entries generalizing saved emitted with
  | nil =>
    obtain rfl := Except.ok.inj h
    refine ⟨[], [], rfl, ⟨[], rfl, ?_⟩, rfl, hroom⟩
    show emitted ++ saved.pendingEvents = emitted ++ []
    rw [hpending]
  | cons entry rest ih =>
    obtain ⟨⟨links, events⟩, hevents, h⟩ := bind_ok.mp h
    dsimp only at h
    have hlength : (emitted ++ events.take (min (maximum - emitted.length) events.length)).length ≤
        maximum := by
      rw [List.length_append, List.length_take]
      omega
    have hone : canonicalRun v saved.toWindowsCheckpoint [entry] = .ok (links, events) :=
      canonicalRun_cons.mpr ⟨links, events, [], hevents, rfl, (List.append_nil _).symm⟩
    split_ifs at h with hkeep hfull
    · -- the budget ends within the events of this record
      obtain rfl := Except.ok.inj h
      refine ⟨[entry], rest, rfl, ⟨events, hone, ?_⟩, rfl, hlength⟩
      show emitted ++ _ ++ events.drop _ = emitted ++ events
      rw [List.append_assoc, List.take_append_drop]
    all_goals
      have hall : min (maximum - emitted.length) events.length = events.length := by omega
      rw [hall, List.take_length] at h hlength
    · obtain rfl := Except.ok.inj h
      refine ⟨[entry], rest, rfl, ⟨events, hone, ?_⟩, rfl, hlength⟩
      show emitted ++ events ++ saved.pendingEvents = emitted ++ events
      rw [hpending, List.append_nil]
    · obtain ⟨taken, rest', rfl, ⟨later, hrun, hemitted⟩, hposition, hbudget⟩ :=
        ih (by exact hpending) hlength h
      refine ⟨entry :: taken, rest', rfl, ⟨events ++ later, ?_, ?_⟩, ?_, hbudget⟩
      · exact canonicalRun_cons.mpr ⟨links, events, later, hevents, hrun, rfl⟩
      · rw [hemitted, List.append_assoc]
      · rw [hposition, if_neg (List.cons_ne_nil _ _)]
        split_ifs with hnone
        · rw [hnone]
          rfl
        · rfl

/-- A whole read: either nothing of the page is taken, or its first entries. -/
theorem readSaved_takes {session : JournalSession} {saved next : SavedCheckpoint}
    {emitted : List FilesystemEvent} {more : Bool}
    (h : readSaved v session saved maximum = .ok (next, emitted, more)) :
    emitted.length ≤ maximum ∧ ∃ taken, Takes v saved next taken saved.pendingEvents emitted ∧
      ((taken = [] ∧ next.nextPosition = saved.nextPosition) ∨
        ∃ page rest, session.page = .ok page ∧ page.records = taken ++ rest ∧ taken ≠ [] ∧
          next.nextPosition = (rest.head?.map (·.1.position)).getD page.nextPosition) := by
  obtain ⟨before, hbefore, h⟩ := bind_ok.mp h
  obtain ⟨-, -, h⟩ := bind_ok.mp h
  dsimp only at h
  have hsplit := List.take_append_drop maximum saved.pendingEvents
  split_ifs at h with hstop
  · obtain ⟨rfl, hrest⟩ := Prod.mk.inj (Except.ok.inj h)
    obtain ⟨rfl, -⟩ := Prod.mk.inj hrest
    refine ⟨List.length_take_le _ _, [], ⟨[], rfl, ?_⟩, .inl ⟨rfl, rfl⟩⟩
    rw [List.append_nil]
    exact hsplit
  · obtain ⟨hnone, -⟩ := not_or.mp hstop
    have hnone' : saved.pendingEvents.drop maximum = [] := not_not.mp hnone
    obtain ⟨page, hpage, h⟩ := bind_ok.mp h
    split_ifs at h with hback
    obtain ⟨outcome, houtcome, h⟩ := bind_ok.mp h
    obtain ⟨taken, rest, hrecords, ⟨events, hrun, hemitted⟩, hposition, hbudget⟩ :=
      readRecords_takes (by exact hnone') (List.length_take_le _ _) houtcome
    have hpending : saved.pendingEvents.take maximum = saved.pendingEvents := by
      rw [hnone', List.append_nil] at hsplit
      exact hsplit
    rw [hpending] at hemitted
    have htaken : ∀ {final : SavedCheckpoint} {out : List FilesystemEvent},
        final.toWindowsCheckpoint = outcome.saved.toWindowsCheckpoint →
        final.pendingEvents = outcome.saved.pendingEvents →
        final.nextPosition = outcome.saved.nextPosition → out = outcome.emitted →
        out.length ≤ maximum ∧ ∃ taken, Takes v saved final taken saved.pendingEvents out ∧
          ((taken = [] ∧ final.nextPosition = saved.nextPosition) ∨
            ∃ page rest, session.page = .ok page ∧ page.records = taken ++ rest ∧ taken ≠ [] ∧
              final.nextPosition = (rest.head?.map (·.1.position)).getD page.nextPosition) := by
      rintro final out hlinks hleft hnext rfl
      refine ⟨hbudget, taken, ⟨events, ?_, ?_⟩, ?_⟩
      · rw [hlinks]
        exact hrun
      · rw [hleft]
        exact hemitted
      · rw [hnext, hposition]
        by_cases hempty : taken = []
        · rw [if_pos hempty]
          exact .inl ⟨hempty, rfl⟩
        · rw [if_neg hempty]
          exact .inr ⟨page, rest, hpage, hrecords, hempty, rfl⟩
    cases outcome with
    | stopped saved₁ out hasMore =>
      obtain ⟨rfl, hrest⟩ := Prod.mk.inj (Except.ok.inj h)
      obtain ⟨rfl, -⟩ := Prod.mk.inj hrest
      exact htaken rfl rfl rfl rfl
    | finished saved₁ out =>
      obtain ⟨after, -, h⟩ := bind_ok.mp h
      obtain ⟨-, -, h⟩ := bind_ok.mp h
      obtain ⟨rfl, hrest⟩ := Prod.mk.inj (Except.ok.inj h)
      obtain ⟨rfl, -⟩ := Prod.mk.inj hrest
      exact htaken rfl rfl rfl rfl

end Read

/-- The records at or after a position. -/
def aheadOf (journal : List JournalEntry) (position : Int64) : List JournalEntry :=
  journal.filter fun entry => position ≤ entry.1.position

/-- A page as the journal serves it: first of the records ahead, with a next
position past them. -/
structure ServesPage (journal : List JournalEntry) (position : Int64) (page : JournalPage) : Prop where
  records : page.records <+: aheadOf journal position
  past : ∀ entry ∈ page.records, entry.1.position < page.nextPosition

/-- The next position passes over no record that the page does not hold. -/
def JournalPage.Gapless (journal : List JournalEntry) (position : Int64) (page : JournalPage) : Prop :=
  ∀ entry ∈ aheadOf journal position, entry ∈ page.records ∨ page.nextPosition ≤ entry.1.position

section Journal

variable {journal : List JournalEntry} {p q : Int64}

theorem mem_aheadOf {entry : JournalEntry} :
    entry ∈ aheadOf journal p ↔ entry ∈ journal ∧ p ≤ entry.1.position := by
  rw [aheadOf, List.mem_filter, decide_eq_true_iff]

theorem aheadOf_aheadOf (h : p ≤ q) : aheadOf (aheadOf journal p) q = aheadOf journal q := by
  rw [aheadOf, aheadOf, aheadOf, List.filter_filter]
  refine List.filter_congr fun entry _ => ?_
  by_cases hq : q ≤ entry.1.position
  · simp [hq, Int64.le_trans h hq]
  · simp [hq]

/-- A part before a position and a part from it on. -/
theorem aheadOf_append {early late : List JournalEntry} (hearly : ∀ entry ∈ early, entry.1.position < q)
    (hlate : ∀ entry ∈ late, q ≤ entry.1.position) : aheadOf (early ++ late) q = late := by
  rw [aheadOf, List.filter_append]
  have hnone : early.filter (fun entry => decide (q ≤ entry.1.position)) = [] := by
    rw [List.filter_eq_nil_iff]
    intro entry hentry
    simpa using Int64.not_le.mpr (hearly entry hentry)
  have hall : late.filter (fun entry => decide (q ≤ entry.1.position)) = late := by
    rw [List.filter_eq_self]
    intro entry hentry
    simpa using hlate entry hentry
  rw [hnone, hall, List.nil_append]

/-- Records taken from before a position, followed by records from it on. -/
theorem sublist_aheadOf (hsorted : journal.Pairwise fun a b => a.1.position < b.1.position)
    {early late : List JournalEntry} (hearly : early.Sublist journal)
    (hbefore : ∀ entry ∈ early, entry.1.position < q) (hlate : late.Sublist (aheadOf journal q)) :
    (early ++ late).Sublist journal := by
  induction journal generalizing early with
  | nil =>
    obtain rfl := List.sublist_nil.mp hearly
    exact hlate
  | cons entry journal ih =>
    obtain ⟨hfirst, hrest⟩ := List.pairwise_cons.mp hsorted
    by_cases hq : q ≤ entry.1.position
    · -- nothing of the journal is before the position
      cases early with
      | nil => exact hlate.trans List.filter_sublist
      | cons e early =>
        have hmem := hearly.subset List.mem_cons_self
        have hlt := hbefore e List.mem_cons_self
        rcases List.mem_cons.mp hmem with rfl | hmem
        · exact absurd hq (Int64.not_le.mpr hlt)
        · exact absurd (Int64.le_trans hq (Int64.le_of_lt (hfirst e hmem))) (Int64.not_le.mpr hlt)
    · have hlate' : late.Sublist (aheadOf journal q) := by
        rw [aheadOf, List.filter_cons_of_neg (by simpa using hq)] at hlate
        exact hlate
      cases hearly with
      | cons _ hearly => exact (ih hrest hearly hbefore hlate').cons entry
      | cons_cons _ hearly =>
        exact (ih hrest hearly (fun e he => hbefore e (List.mem_cons_of_mem _ he)) hlate').cons_cons
          entry

/-- One read of a page: its records are taken in order up to the next position. -/
theorem takes_ahead (hsorted : journal.Pairwise fun a b => a.1.position < b.1.position)
    {page : JournalPage} (hserves : ServesPage journal p page) {taken rest : List JournalEntry}
    (hrecords : page.records = taken ++ rest) (htaken : taken ≠ [])
    (hq : q = (rest.head?.map (·.1.position)).getD page.nextPosition) :
    p ≤ q ∧ taken.Sublist (aheadOf journal p) ∧ (∀ entry ∈ taken, entry.1.position < q) ∧
      (page.Gapless journal p → aheadOf journal p = taken ++ aheadOf journal q) := by
  obtain ⟨⟨unread, hunread⟩, hpast⟩ := hserves
  rw [hrecords, List.append_assoc] at hunread
  have hahead : (aheadOf journal p).Pairwise fun a b => a.1.position < b.1.position :=
    hsorted.filter _
  rw [← hunread, List.pairwise_append] at hahead
  obtain ⟨-, hlater, hacross⟩ := hahead
  have hbefore : ∀ entry ∈ taken, entry.1.position < q := by
    intro entry hentry
    cases rest with
    | nil =>
      rw [hq]
      apply hpast
      rw [hrecords]
      exact List.mem_append_left _ hentry
    | cons next rest =>
      rw [hq]
      exact hacross entry hentry next (List.mem_append_left _ List.mem_cons_self)
  have hle : p ≤ q := by
    obtain ⟨first, hfirst⟩ := List.exists_mem_of_ne_nil taken htaken
    have hmem : first ∈ aheadOf journal p := hunread ▸ List.mem_append_left _ hfirst
    exact Int64.le_trans (mem_aheadOf.mp hmem).2 (Int64.le_of_lt (hbefore first hfirst))
  refine ⟨hle, ?_, hbefore, fun hgapless => ?_⟩
  · rw [← hunread]
    exact List.sublist_append_left _ _
  · have hfrom : ∀ entry ∈ rest ++ unread, q ≤ entry.1.position := by
      intro entry hentry
      cases rest with
      | nil =>
        -- the page was read to its end, so its own next position counts
        have hmem : entry ∈ aheadOf journal p := hunread ▸ List.mem_append_right _ hentry
        rcases hgapless entry hmem with hheld | hbeyond
        · rw [hrecords, List.append_nil] at hheld
          have hlt := hacross entry hheld entry hentry
          exact (Int64.lt_irrefl hlt).elim
        · rw [hq]
          exact hbeyond
      | cons next rest =>
        rw [hq]
        rcases List.mem_cons.mp hentry with rfl | hentry
        · exact Int64.le_refl _
        · exact Int64.le_of_lt ((List.pairwise_cons.mp hlater).1 entry hentry)
    have hrest := aheadOf_append hbefore hfrom
    rw [hunread, aheadOf_aheadOf hle] at hrest
    rw [hrest, hunread]

end Journal

/-- One read: the checkpoint it was decoded from, what journal and file system
answered, the budget, the events handed out and the checkpoint that was encoded. -/
structure PagingCall where
  start : SavedCheckpoint
  session : JournalSession
  maximumEvents : Nat
  events : List FilesystemEvent
  finish : SavedCheckpoint

/-- No page that the call reads passes over a record. -/
def PagingCall.Gapless (journal : List JournalEntry) (call : PagingCall) : Prop :=
  ∀ page, call.session.page = .ok page → page.Gapless journal call.start.nextPosition

/-- What the call took: nothing, and it stays where it is, or the first records of
its page, and it goes to the record behind them or to the end of the page. -/
structure PagingCall.Took (v : VolumeId) (call : PagingCall) (read : List JournalEntry) : Prop where
  kept : Takes v call.start call.finish read call.start.pendingEvents call.events
  position : (read = [] ∧ call.finish.nextPosition = call.start.nextPosition) ∨
    ∃ page rest, call.session.page = .ok page ∧ page.records = read ++ rest ∧ read ≠ [] ∧
      call.finish.nextPosition = (rest.head?.map (·.1.position)).getD page.nextPosition

/-- Successful reads in a row, each from the checkpoint the one before encoded. -/
inductive Paging (fromSlice : FromSlice) (journal : List JournalEntry) (v : VolumeId)
    (start : SavedCheckpoint) : List PagingCall → SavedCheckpoint → Prop
  | start : Paging fromSlice journal v start [] start
  | read {calls : List PagingCall} {call : PagingCall} {next : SavedCheckpoint} {more : Bool}
      (h : Paging fromSlice journal v start calls call.start)
      (hserves : ∀ page, call.session.page = .ok page →
        ServesPage journal call.start.nextPosition page)
      (hread : readSaved v call.session call.start call.maximumEvents =
        .ok (call.finish, call.events, more))
      (hdecode : decode fromSlice (encode v call.finish) = .ok next.data) :
      Paging fromSlice journal v start (calls ++ [call]) next

/-- Reads in a row neither lose nor repeat an event: over the records that they took,
in order and once each, what is handed out and what is still pending are the
canonical events, and no read hands out more than its budget. Where no page passes
over a record, nothing ahead of the start is left out either. -/
theorem paging_exact {fromSlice : FromSlice} {journal : List JournalEntry} {v : VolumeId}
    {start finish : SavedCheckpoint} {calls : List PagingCall}
    (hsorted : journal.Pairwise fun a b => a.1.position < b.1.position)
    (hcodec : ∀ call ∈ calls, fromSlice (toVec call.finish) = .ok call.finish.data)
    (h : Paging fromSlice journal v start calls finish) :
    (∀ call ∈ calls, call.events.length ≤ call.maximumEvents) ∧
    ∃ reads events, List.Forall₂ (PagingCall.Took v) calls reads ∧
      reads.flatten.Sublist (aheadOf journal start.nextPosition) ∧
      canonicalRun v start.toWindowsCheckpoint reads.flatten = .ok (finish.toWindowsCheckpoint, events) ∧
      calls.flatMap (·.events) ++ finish.pendingEvents = start.pendingEvents ++ events ∧
      ((∀ call ∈ calls, call.Gapless journal) →
        aheadOf journal start.nextPosition = reads.flatten ++ aheadOf journal finish.nextPosition) := by
  suffices hstrong : (∀ call ∈ calls, call.events.length ≤ call.maximumEvents) ∧
      start.nextPosition ≤ finish.nextPosition ∧
      ∃ reads taken events, List.Forall₂ (PagingCall.Took v) calls reads ∧ reads.flatten = taken ∧
        taken.Sublist (aheadOf journal start.nextPosition) ∧
        (∀ entry ∈ taken, entry.1.position < finish.nextPosition) ∧
        canonicalRun v start.toWindowsCheckpoint taken = .ok (finish.toWindowsCheckpoint, events) ∧
        calls.flatMap (·.events) ++ finish.pendingEvents = start.pendingEvents ++ events ∧
        ((∀ call ∈ calls, call.Gapless journal) →
          aheadOf journal start.nextPosition = taken ++ aheadOf journal finish.nextPosition) by
    obtain ⟨hbudget, -, reads, _, events, htook, rfl, htaken, -, hrun, hevents, hall⟩ := hstrong
    exact ⟨hbudget, reads, events, htook, htaken, hrun, hevents, hall⟩
  induction h with
  | start =>
    refine ⟨fun _ h => (nomatch h), Int64.le_refl _, [], [], [], .nil, rfl, List.nil_sublist _,
      fun _ h => (nomatch h), rfl, ?_, fun _ => rfl⟩
    rw [List.append_nil]
    rfl
  | @read calls call next more h hserves hread hdecode ih =>
    obtain ⟨hbudget, hle, reads, taken, events, htook, hreads, htaken, hbefore, hrun, hevents, hall⟩ :=
      ih fun c hc => hcodec c (List.mem_append_left _ hc)
    -- the next read starts from the very checkpoint that was encoded
    have hcall := List.mem_append_right calls (List.mem_singleton.mpr (rfl : call = call))
    rw [decode_encode (hcodec call hcall)] at hdecode
    obtain rfl := SavedCheckpoint.data_injective (Except.ok.inj hdecode)
    obtain ⟨hcallBudget, read, htakes, hposition⟩ := readSaved_takes hread
    have htook' : List.Forall₂ (PagingCall.Took v) (calls ++ [call]) (reads ++ [read]) :=
      List.rel_append htook (.cons ⟨htakes, hposition⟩ .nil)
    have hreads' : (reads ++ [read]).flatten = taken ++ read := by
      rw [List.flatten_append, hreads, List.flatten_singleton]
    obtain ⟨later, hlater, hkept⟩ := htakes
    have hrun' : canonicalRun v start.toWindowsCheckpoint (taken ++ read) =
        .ok (call.finish.toWindowsCheckpoint, events ++ later) :=
      canonicalRun_append.mpr ⟨_, events, later, hrun, hlater, rfl⟩
    have hevents' : (calls ++ [call]).flatMap (·.events) ++ call.finish.pendingEvents =
        start.pendingEvents ++ (events ++ later) := by
      rw [List.flatMap_append, List.flatMap_singleton, List.append_assoc, hkept,
        ← List.append_assoc, hevents, List.append_assoc]
    have hbudget' : ∀ c ∈ calls ++ [call], c.events.length ≤ c.maximumEvents := by
      intro c hc
      rcases List.mem_append.mp hc with hc | hc
      · exact hbudget c hc
      · obtain rfl := List.mem_singleton.mp hc
        exact hcallBudget
    have hearlier : (∀ c ∈ calls ++ [call], c.Gapless journal) → ∀ c ∈ calls, c.Gapless journal :=
      fun hgapless c hc => hgapless c (List.mem_append_left _ hc)
    rcases hposition with ⟨rfl, hsame⟩ | ⟨page, rest, hpage, hrecords, hne, hnext⟩
    · rw [hsame]
      refine ⟨hbudget', hle, reads ++ [[]], taken ++ [], events ++ later, htook', hreads', ?_, ?_, hrun',
        hevents', ?_⟩
      · rw [List.append_nil]
        exact htaken
      · rw [List.append_nil]
        exact hbefore
      · rw [List.append_nil]
        exact fun hgapless => hall (hearlier hgapless)
    · obtain ⟨hstep, hread', hpast, hwhole⟩ :=
        takes_ahead hsorted (hserves page hpage) hrecords hne hnext
      refine ⟨hbudget', Int64.le_trans hle hstep, reads ++ [read], taken ++ read, events ++ later, htook',
        hreads', ?_, ?_, hrun', hevents', fun hgapless => ?_⟩
      · have hahead : (aheadOf journal start.nextPosition).Pairwise
            fun a b => a.1.position < b.1.position := hsorted.filter _
        apply sublist_aheadOf hahead htaken hbefore
        rw [aheadOf_aheadOf hle]
        exact hread'
      · intro entry hentry
        rcases List.mem_append.mp hentry with hentry | hentry
        · exact Int64.lt_of_lt_of_le (hbefore entry hentry) hstep
        · exact hpast entry hentry
      · rw [hall (hearlier hgapless), hwhole (hgapless call hcall page hpage), List.append_assoc]

section Example

open Graph (sampleVolume)

/-- A read of these entries with a budget of one event. -/
def pagedCall (entries : List JournalEntry) (saved : SavedCheckpoint) : PagingCall :=
  let read := (readSaved sampleVolume (grownSession 0 entries) saved 1).toOption.getD
    (saved, [], false)
  ⟨saved, grownSession 0 entries, 1, read.2.1, read.1⟩

/-- A created file has two events: one is left over. -/
def firstCall : PagingCall := pagedCall (createdPage 0) scannedSaved

def secondCall : PagingCall := pagedCall [] firstCall.finish

/-- It reads the two texts that are written below. -/
def pagedSlice : FromSlice := fun bytes =>
  if bytes = toVec firstCall.finish then .ok firstCall.finish.data
  else if bytes = toVec secondCall.finish then .ok secondCall.finish.data
  else .error "expected value at line 1 column 1"

theorem pagedSlice_first : pagedSlice (toVec firstCall.finish) = .ok firstCall.finish.data :=
  if_pos rfl

theorem paged_distinct : toVec secondCall.finish ≠ toVec firstCall.finish := by
  decide

/-- One event of the created file for each read, and the file once. -/
theorem created_paged :
    (∀ call ∈ [firstCall, secondCall], call.events.length ≤ call.maximumEvents) ∧
    ∃ reads events, List.Forall₂ (PagingCall.Took sampleVolume) [firstCall, secondCall] reads ∧
      reads.flatten.Sublist (aheadOf (createdPage 0) scannedSaved.nextPosition) ∧
      canonicalRun sampleVolume scannedSaved.toWindowsCheckpoint reads.flatten =
        .ok (secondCall.finish.toWindowsCheckpoint, events) ∧
      [firstCall, secondCall].flatMap (·.events) ++ secondCall.finish.pendingEvents =
        scannedSaved.pendingEvents ++ events ∧
      ((∀ call ∈ [firstCall, secondCall], call.Gapless (createdPage 0)) →
        aheadOf (createdPage 0) scannedSaved.nextPosition =
          reads.flatten ++ aheadOf (createdPage 0) secondCall.finish.nextPosition) := by
  have hcodec : ∀ call ∈ [firstCall, secondCall],
      pagedSlice (toVec call.finish) = .ok call.finish.data := by
    intro call hcall
    rcases List.mem_cons.mp hcall with rfl | hcall
    · exact pagedSlice_first
    · obtain rfl := List.mem_singleton.mp hcall
      rw [pagedSlice, if_neg paged_distinct, if_pos rfl]
  have hfirst : Paging pagedSlice (createdPage 0) sampleVolume scannedSaved ([] ++ [firstCall])
      firstCall.finish := by
    have hread : readSaved sampleVolume firstCall.session firstCall.start 1 =
        .ok (firstCall.finish, firstCall.events, true) := by decide +kernel
    refine Paging.read .start (fun page hpage => ?_) hread (decode_encode pagedSlice_first)
    obtain rfl := Except.ok.inj hpage
    exact ⟨List.prefix_rfl, fun entry hentry => (createdPage_served (by decide) hentry).high⟩
  have hsecond : Paging pagedSlice (createdPage 0) sampleVolume scannedSaved
      ([] ++ [firstCall] ++ [secondCall]) secondCall.finish := by
    have hread : readSaved sampleVolume secondCall.session secondCall.start 1 =
        .ok (secondCall.finish, secondCall.events, false) := by decide +kernel
    refine Paging.read hfirst (fun page hpage => ?_) hread
      (decode_encode (hcodec secondCall (by simp)))
    obtain rfl := Except.ok.inj hpage
    exact ⟨List.nil_prefix, fun entry hentry => (nomatch hentry)⟩
  exact paging_exact (List.pairwise_singleton _ _) hcodec hsecond

end Example

end LocalSearch.Windows
