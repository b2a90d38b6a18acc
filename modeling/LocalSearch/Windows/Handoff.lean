import LocalSearch.Graph.ScanFinalize
import LocalSearch.Windows.Replica

/-!
# From a scan to the journal

A scan keeps the journal position from before its crawl, and all that happened
since is replayed onto what the crawl found. An entry the crawl found is known by
the hash of its place, a replayed one by the identity that renames brought along,
and the two have to meet.
-/
namespace LocalSearch.Windows

set_option autoImplicit false

open Core Lib Graph

/-- What is true in the namespace, where an entry that is there is found. -/
def ObjectLookup.SeenIn (v : VolumeId) (ns : Namespace) (record : SanitizedUsnRecord)
    (lookup : ObjectLookup) : Prop :=
  lookup.TrueIn v ns record ∧
    (ns (.named record.place) = some record.fileReference → lookup ≠ .unavailable)

/-- A record as it is read, and what it did when it was written. -/
abbrev ReadRecord := JournalEntry × NameChange Place Nat

def ReadRecord.written (t : ReadRecord) : WrittenRecord := (t.1.1, t.2)

/-- The record is of an entry that was there, and its link is not told again. -/
def ReadRecord.quiet (t : ReadRecord) : Bool :=
  quietRecord t.1.1.toSanitizedUsnRecord (lookupOf t.1.2) t.2

def ReadRecord.notice (t : ReadRecord) : Option (Notice Place Nat) :=
  noticeOf t.1.1.toSanitizedUsnRecord (lookupOf t.1.2) t.2

/-- Places that have a name at the start, are found or are in a record. -/
def occurring (start final : CrawlState) (history : List ReadRecord) : Set Place :=
  {place | (∃ file, start.names (.named place) = some file ∨ final.Found place file) ∨
    ∃ t ∈ history, t.1.1.place = place}

/-- The hash keeps these places apart, from each other and from the root. -/
structure HashesApart (v : VolumeId) (S : Set Place) : Prop where
  injective : Set.InjOn (placeLinkId v) S
  root : ∀ place ∈ S, placeLinkId v place ≠ rootLinkId v

/-- A crawl, the changes around it and what is read of their records behind them. -/
structure Handoff (v : VolumeId) (root : Nat) (start final : CrawlState) (history : List ReadRecord) :
    Prop where
  starts : start.Starts v root
  small : start.names.Small root
  still : ∀ file, start.names (.moving file) = none
  run : CrawlRun v root start (history.map ReadRecord.written) final
  crawled : final.frames = []
  settled : ∀ file, final.names (.moving file) = none
  seen : ∀ t ∈ history, ∃ lookup, lookupObject t.1.2 = .ok lookup ∧
    lookup.SeenIn v final.names t.1.1.toSanitizedUsnRecord
  apart : HashesApart v (occurring start final history)

/-- The volume was scanned into an empty graph. -/
inductive Scanned [CaseMapping] (v : VolumeId) (events : List FilesystemEvent)
    (checkpoint : ProviderCheckpoint) : FilesystemGraph → Prop
  | complete {g₀ g₁ g₂ g₃ g : FilesystemGraph} {descriptor : VolumeDescriptor}
      {mode : ObservationScanMode} {reason : ReconciliationReason} {session : ObservationSession}
      {calls k : Nat} {summary : ObservationFinalizeSummary} (hvolume : descriptor.volumeId = v)
      (hbegin : beginObservationScan .empty descriptor mode reason = .ok (g₀, session))
      (hpages : Scanning (fun _ _ => True) (fun _ _ => False) v g₀ events g₁)
      (hstage : stageObservationCheckpoint g₁ v checkpoint = .ok g₂)
      (hsweeps : Finalizing (fun _ _ => True) (fun _ _ => False) v g₂ calls g₃)
      (hfinalize : finalizeObservationScan g₃ v k = .ok (g, summary))
      (hcompleted : summary.completed = true) : Scanned v events checkpoint g

/-- The links of the volume are those of the namespace, and that of the root. -/
structure LinksAre (g : FilesystemGraph) (v : VolumeId) (root : Nat) (ns : Namespace) : Prop where
  entry : ∀ place file, ns (.named place) = some file →
    ∃ id link, volumeLinks g v id = some link ∧ EntryLink v place file link
  link : ∀ id link, volumeLinks g v id = some link →
    link.parentKey = none ∧ link.objectKey = fileKey v root ∨
    ∃ place file, ns (.named place) = some file ∧ EntryLink v place file link

/-- Everything the crawl found was there when the position was taken or was
created since; none of it was put there by a rename. -/
def FoundOriginal (start final : CrawlState) (history : List ReadRecord) : Prop :=
  ∀ place file, final.Found place file → start.names (.named place) = some file ∨
    ∃ t ∈ history, t.2 = .create place file

/-- Every entry that no record is about was found, where a record that leaves the
entry and does not tell its link again does not count. -/
def FoundUntouched (start final : CrawlState) (history : List ReadRecord) : Prop :=
  ∀ place file, start.names (.named place) = some file →
    (∀ t ∈ history, t.quiet = false → t.1.1.place ≠ place) → final.Found place file

section Handoff

variable {v : VolumeId} {root : Nat} {start final s : CrawlState} {entries : List JournalEntry}
  {history : List ReadRecord} {records : List WrittenRecord} {saved saved' : WindowsCheckpoint}
  {r : Replica} {events : List FilesystemEvent} {g : FilesystemGraph}

/-- A record, as far as it decides what is told. -/
structure PlainRecord (record : SanitizedUsnRecord) : Prop where
  name : record.hadInvalidUtf16 = false
  plain : record.has reasonHardLinkChange = false

/-- A record of a crawl is of the entry it changes. -/
structure PlainChange (t : WrittenRecord) : Prop extends PlainRecord t.1.toSanitizedUsnRecord where
  flags : ChangeFlags t.1.toSanitizedUsnRecord True t.2

theorem CrawlRun.plain (hrun : CrawlRun v root start records s) : ∀ t ∈ records, PlainChange t := by
  induction hrun with
  | start => simp
  | @step records record s s' _ hstep ih =>
    intro t ht
    rcases List.mem_append.mp ht with ht | ht
    · exact ih t ht
    · cases hstep with
      | change hrecord _ hplain | report hrecord hplain =>
        obtain rfl := List.mem_singleton.mp ht
        exact ⟨⟨legalRecord_name hrecord, hplain⟩,
          (legalRecord_change hrecord hplain).1.imp fun _ => trivial⟩
      | readDirectory | unreadable | next | skip | identify | finish => cases ht

theorem Handoff.plain (h : Handoff v root start final history) {t : ReadRecord} (ht : t ∈ history) :
    PlainChange t.written :=
  h.run.plain t.written (List.mem_map.mpr ⟨t, ht, rfl⟩)

/-- The records of a crawl that fit replay onto the listing. -/
theorem CrawlRun.replayed (hfresh : Listing.Fresh (placeLinkId v) start.names.space (r.listing v))
    (hrun : CrawlRun v root start (history.map ReadRecord.written) s)
    (hfit : r.FitAll v (history.map (·.1))) :
    Replayed (placeLinkId v) start.names.space (r.listing v) (history.filterMap ReadRecord.notice)
      s.names.space ((r.readAll v (history.map (·.1))).listing v) := by
  generalize hrecords : history.map ReadRecord.written = records at hrun
  induction hrun generalizing history with
  | start =>
    obtain rfl := List.map_eq_nil_iff.mp hrecords
    exact .start
  | @step records written s s' _ hstep ih =>
    -- a record at the end, whether it moves names or not
    have hlast : ∀ {record : JournalRecord} {ns' : Namespace},
        LegalRecord root s.names record.toSanitizedUsnRecord ns' →
        record.has reasonHardLinkChange = false → record.fileReference < 2 ^ 64 →
        record.parentReference < 2 ^ 64 →
        history.map ReadRecord.written =
          records ++ [(record, s.names.changeBy record.toSanitizedUsnRecord)] →
        Replayed (placeLinkId v) start.names.space (r.listing v) (history.filterMap ReadRecord.notice)
          ns'.space ((r.readAll v (history.map (·.1))).listing v) := by
      intro record ns' hrecord hplain hfile hparent hrecords
      obtain ⟨early, last, rfl, hearly, hlast⟩ := List.map_eq_append_iff.mp hrecords
      obtain ⟨t, rfl, ht⟩ := List.map_eq_singleton_iff.mp hlast
      obtain ⟨rfl, hchange⟩ := Prod.mk.inj ht
      rw [List.map_append] at hfit ⊢
      obtain ⟨hbefore, hfits, -⟩ := Replica.fitAll_append.mp hfit
      obtain ⟨hflags, hlegal, hspace⟩ := legalRecord_change hrecord hplain
      have hrun := ih hbefore hearly
      have htold := Replica.tell_replayed (hflags.imp fun hidle => hrun.idle hfresh hidle) hfile hparent
        hlegal hfits hrun
      rw [← hspace, ← hchange] at htold
      have hnotices : [t].filterMap ReadRecord.notice = t.notice.toList := by
        cases hnotice : t.notice <;> simp [hnotice]
      rw [List.filterMap_append, hnotices, Replica.readAll, List.foldl_append]
      exact htold
    cases hstep with
    | change hrecord _ hplain hfile hparent | report hrecord hplain hfile hparent =>
      exact hlast hrecord hplain hfile hparent hrecords
    | readDirectory | unreadable | next | skip | identify | finish =>
      exact ih hfit (hrecords.trans (List.append_nil _))

/-- The events of records in order are admitted exactly if every record fits. -/
theorem Replica.carries_all (hstored : r.Stored)
    (hplain : ∀ entry ∈ entries, PlainRecord entry.1.toSanitizedUsnRecord)
    (hkey : ∀ entry ∈ entries, ∃ lookup, lookupObject entry.2 = .ok lookup ∧
      ∀ object, lookup = .observed object → object.objectKey = fileKey v entry.1.fileReference)
    (hrun : canonicalRun v r.saved entries = .ok (saved', events)) :
    (r.names.Accepts (events.map GraphMutation.ofEvent) ↔ r.FitAll v entries) ∧
      (events.map GraphMutation.ofEvent).foldl Names.apply r.names = (r.readAll v entries).names ∧
      ∀ m ∈ events.map GraphMutation.ofEvent, m.InVolume v := by
  induction entries generalizing r saved' events with
  | nil =>
    obtain ⟨-, rfl⟩ := Prod.mk.inj (Except.ok.inj hrun)
    exact ⟨iff_of_true trivial trivial, rfl, by simp⟩
  | cons entry rest ih =>
    obtain ⟨saved₁, first, later, hfirst, hnext, rfl⟩ := canonicalRun_cons.mp hrun
    obtain ⟨lookup, hlookup, hobject⟩ := hkey entry List.mem_cons_self
    have hrecord := hplain entry List.mem_cons_self
    have hcarries := Replica.carries hstored hrecord.name hrecord.plain hlookup hobject hfirst
    have hread : r.tell v entry.1.toSanitizedUsnRecord lookup = r.read v entry := by
      unfold Replica.read
      rw [lookupOf_eq hlookup]
    have htold := hcarries.told.trans hread
    have hsaved : saved₁ = (r.read v entry).saved := congrArg Replica.saved htold
    have hnames : (first.map GraphMutation.ofEvent).foldl Names.apply r.names =
        (r.read v entry).names := congrArg Replica.names htold
    rw [hsaved] at hnext
    obtain ⟨haccepts, hrest, hvolume⟩ := ih (hread ▸ hstored.tell)
      (fun e he => hplain e (List.mem_cons_of_mem _ he))
      (fun e he => hkey e (List.mem_cons_of_mem _ he)) hnext
    refine ⟨?_, ?_, fun m hm => ?_⟩
    · rw [List.map_append, Names.accepts_append, hcarries.accepts, hnames, haccepts, Replica.FitAll,
        lookupOf_eq hlookup]
    · rw [List.map_append, List.foldl_append, hnames, hrest]
      rfl
    · rw [List.map_append] at hm
      rcases List.mem_append.mp hm with hm | hm
      · exact hcarries.volume m hm
      · exact hvolume m hm

/-- A link of the volume without a parent is that of its root. -/
def RootOnly (v : VolumeId) (root : Nat) (names : Names) : Prop :=
  ∀ id link, names.links id = some link → link.objectKey.volumeId = v → link.parentKey = none →
    link.objectKey = fileKey v root

theorem RootOnly.readAll (hroot : RootOnly v root r.names) :
    RootOnly v root (r.readAll v entries).names := by
  induction entries generalizing r with
  | nil => exact hroot
  | cons entry rest ih =>
    refine @ih (r.read v entry) fun id link hlink hvolume hparent => ?_
    unfold Replica.read Replica.tell at hlink
    dsimp only at hlink
    split_ifs at hlink
    · rw [Function.update_apply] at hlink
      split_ifs at hlink
      exact hroot id link hlink hvolume hparent
    · rw [Function.update_apply] at hlink
      split_ifs at hlink
      · rw [← Option.some.inj hlink] at hparent
        cases hparent
      · exact hroot id link hlink hvolume hparent
    · exact hroot id link hlink hvolume hparent

/-- The links of the volume are those of a namespace if the listing is. -/
theorem linksAre_iff {ns : Namespace} (hwf : WellFormed g) (hsmall : ns.Small root)
    (hroot : RootOnly v root (Names.of g)) : LinksAre g v root ns ↔
      ∀ place file, (∃ id, (Replica.listing v ⟨saved, Names.of g⟩).held id = some (place, file)) ↔
        ns (.named place) = some file := by
  have hheld : ∀ {id place file}, (Replica.listing v ⟨saved, Names.of g⟩).held id = some (place, file) →
      ∃ link, volumeLinks g v id = some link ∧ entryOf v link = some (place, file) := by
    intro id place file hid
    obtain ⟨link, hlink, hentry⟩ := Option.bind_eq_some_iff.mp hid
    have hvolume : link.objectKey.volumeId = v := by
      rw [(entryLink_of_entryOf hentry).object]
      rfl
    exact ⟨link, mem_volumeLinks.mpr ⟨hlink, hvolume⟩, hentry⟩
  constructor
  · intro h place file
    constructor
    · rintro ⟨id, hid⟩
      obtain ⟨link, hlink, hentry⟩ := hheld hid
      rcases h.link id link hlink with ⟨hnone, -⟩ | ⟨place', file', hnamed, hlinked⟩
      · have hparent := (entryLink_of_entryOf hentry).parent
        rw [hnone] at hparent
        cases hparent
      · obtain ⟨hplace, hfile⟩ := hsmall.entry place' file' hnamed
        rw [entryOf_of_entryLink hplace hfile hlinked] at hentry
        obtain ⟨rfl, rfl⟩ := Prod.mk.inj (Option.some.inj hentry)
        exact hnamed
    · intro hnamed
      obtain ⟨id, link, hlink, hlinked⟩ := h.entry place file hnamed
      obtain ⟨hplace, hfile⟩ := hsmall.entry place file hnamed
      exact ⟨id, Option.bind_eq_some_iff.mpr ⟨link, (mem_volumeLinks.mp hlink).1,
        entryOf_of_entryLink hplace hfile hlinked⟩⟩
  · intro h
    refine ⟨fun place file hnamed => ?_, fun id link hlink => ?_⟩
    · obtain ⟨id, hid⟩ := (h place file).mpr hnamed
      obtain ⟨link, hlink, hentry⟩ := hheld hid
      exact ⟨id, link, hlink, entryLink_of_entryOf hentry⟩
    · obtain ⟨hload, hvolume⟩ := mem_volumeLinks.mp hlink
      cases hparent : link.parentKey with
      | none => exact .inl ⟨rfl, hroot id link hload hvolume hparent⟩
      | some parent =>
        obtain ⟨row, hrow, rfl⟩ := loadLink_eq_some.mp hload
        have hside : parent.volumeId = v :=
          (hwf.names.linkParent id row hrow parent hparent).trans hvolume
        have hentry : entryOf v (storedLinkFromRow id row) =
            some (toLex (fileReferenceOf parent, row.name), fileReferenceOf row.objectKey) := by
          unfold entryOf
          rw [hparent]
          exact if_pos ⟨hvolume, hside⟩
        exact .inr ⟨_, _, (h _ _).mp ⟨id, Option.bind_eq_some_iff.mpr ⟨_, hload, hentry⟩⟩,
          entryLink_of_entryOf hentry⟩

theorem crawl_keeps (found : List CrawlEntry) (id : FileLinkId) (object : FileKey) :
    .linkRemoved id object ∉ found.flatMap (CrawlEntry.events v) := by
  rw [List.mem_flatMap]
  rintro ⟨e, -, hmem⟩
  simp [CrawlEntry.events] at hmem

variable [CaseMapping]

/-- What the graph of a scan holds. -/
theorem Scanned.exact {checkpoint : ProviderCheckpoint} (hscanned : Scanned v events checkpoint g)
    (hkept : ∀ id object, .linkRemoved id object ∉ events) :
    WellFormed g ∧ ScanExact v events (ProviderCheckpoint.row checkpoint) g ∧ Agree events := by
  obtain @⟨g₀, g₁, g₂, g₃, _, descriptor, mode, reason, session, calls, k, summary, rfl, hbegin, hpages,
    hstage, hsweeps, hfinalize, hcompleted⟩ := hscanned
  obtain ⟨hinv₀, hsession₀⟩ := scanInvariant_begin wellFormed_empty hbegin
  obtain ⟨hinv₁, hsession₁⟩ := hpages.invariant hinv₀ hsession₀ rfl
  have hagree := hpages.agree hinv₀ hsession₀ rfl hkept
  have hstaged : Transacts True .durable _ _ :=
    stageObservationCheckpoint_transacts hinv₁.wellFormed.queues hstage
  have hwf₂ := wellFormed_of_transacts hstaged hinv₁.wellFormed
  obtain ⟨hinv₃, -⟩ := hsweeps.invariant (sweepInvariant_stage hinv₁ hsession₁ hwf₂ hstage)
  have hfinalized : Transacts True .durable _ g :=
    finalizeObservationScan_transacts hinv₃.scan.wellFormed.queues hfinalize
  refine ⟨wellFormed_of_transacts hfinalized hinv₃.scan.wellFormed, ?_, hagree⟩
  have hk : 1 ≤ k := by
    rcases finalizeObservationScan_ok hfinalize with ⟨-, -, rfl⟩ | ⟨hk, -⟩
    · cases hcompleted
    · exact Nat.one_le_iff_ne_zero.mpr hk
  rcases finalizeObservationScan_call hinv₃ hk with ⟨herror, -⟩ | ⟨g₄, summary₄, hok, -, hdone⟩
  · rw [herror] at hfinalize
    cases hfinalize
  · obtain ⟨rfl, rfl⟩ := Prod.mk.inj (Except.ok.inj (hok.symm.trans hfinalize))
    exact hdone hcompleted

omit [CaseMapping] in
theorem observedLinks_found {found : List CrawlEntry} {id : FileLinkId} {link : StoredLink}
    (h : observedLinks (found.flatMap (CrawlEntry.events v)) id = some link) :
    ∃ e ∈ found, e.fileLinkId v = id ∧ storedLink (e.link v) false = link := by
  rw [observedLinks, linkWrites_entries, replay_apply] at h
  cases hlast : lastWrite (found.map fun e => (e.fileLinkId v, some (storedLink (e.link v) false))) id with
  | none =>
    rw [hlast] at h
    cases h
  | some value =>
    rw [hlast] at h
    obtain rfl : value = some link := h
    obtain ⟨e, he, heq⟩ := List.mem_map.mp (lastWrite_mem hlast)
    obtain ⟨hid, hlink⟩ := Prod.mk.inj heq
    exact ⟨e, he, hid, Option.some.inj hlink⟩

omit [CaseMapping] in
/-- What the crawl emits is the root or an entry under the hash of its place. -/
theorem Handoff.entry_cases (h : Handoff v root start final history) {e : CrawlEntry}
    (he : e ∈ final.found) :
    e.parentKey = none ∧ e.object.objectKey = fileKey v root ∨
    ∃ place file, e.seen = some (place, file) ∧ e.fileLinkId v = placeLinkId v place ∧
      entryOf v (storedLink (e.link v) false) = some (place, file) := by
  obtain ⟨-, below, hfound, hbelow⟩ := h.run.found h.starts h.small.root
  obtain ⟨object, name, hobject, hstart⟩ := h.starts.found
  rw [hfound, hstart] at he
  rcases List.mem_append.mp he with he | he
  · obtain rfl := List.mem_singleton.mp he
    exact .inl ⟨rfl, hobject⟩
  · obtain ⟨parent, file, hparent, hfile, hparentKey, hkey⟩ := hbelow e he
    refine .inr ⟨toLex (parent, e.name), file, ?_, ?_, ?_⟩
    · unfold CrawlEntry.seen
      rw [hparentKey, hkey, fileReferenceOf_fileKey hfile]
      show some (toLex (fileReferenceOf (fileKey v parent), e.name), file) = _
      rw [fileReferenceOf_fileKey hparent]
    · unfold CrawlEntry.fileLinkId
      rw [hparentKey]
      rfl
    · exact entryOf_of_entryLink hparent hfile ⟨hkey, hparentKey, rfl⟩

/-- What the crawl told of a place is in the graph, under the hash of the place. -/
theorem Handoff.held_iff {checkpoint : ProviderCheckpoint} (h : Handoff v root start final history)
    (hscanned : Scanned v (final.found.flatMap (CrawlEntry.events v)) checkpoint g) (id : FileLinkId)
    (place : Place) (file : Nat) :
    (Replica.listing v ⟨.fresh, Names.of g⟩).held id = some (place, file) ↔
      id = placeLinkId v place ∧ final.Found place file := by
  obtain ⟨-, hexact, hagree⟩ := hscanned.exact (crawl_keeps final.found)
  constructor
  · intro hheld
    obtain ⟨link, hlink, hentry⟩ := Option.bind_eq_some_iff.mp hheld
    have hvolume : link.objectKey.volumeId = v := by
      rw [(entryLink_of_entryOf hentry).object]
      rfl
    have hobserved := mem_volumeLinks.mpr ⟨hlink, hvolume⟩
    rw [hexact.links] at hobserved
    obtain ⟨e, he, rfl, rfl⟩ := observedLinks_found hobserved
    rcases h.entry_cases he with ⟨hnone, -⟩ | ⟨place', file', hseen, hid, hentry'⟩
    · have hparent := (entryLink_of_entryOf hentry).parent
      replace hparent : e.parentKey = _ := hparent
      rw [hnone] at hparent
      cases hparent
    · obtain ⟨rfl, rfl⟩ := Prod.mk.inj (Option.some.inj (hentry.symm.trans hentry'))
      exact ⟨hid, e, he, hseen⟩
  · rintro ⟨rfl, e, he, hseen⟩
    have hplace : place ∈ occurring start final history := .inl ⟨file, .inr ⟨e, he, hseen⟩⟩
    rcases h.entry_cases he with ⟨hnone, -⟩ | ⟨place', file', hseen', hid, hentry⟩
    · unfold CrawlEntry.seen at hseen
      rw [hnone] at hseen
      cases hseen
    · obtain ⟨rfl, rfl⟩ := Prod.mk.inj (Option.some.inj (hseen.symm.trans hseen'))
      have hmem : FilesystemEvent.linkObserved (e.link v) ∈ final.found.flatMap (CrawlEntry.events v) :=
        List.mem_flatMap.mpr ⟨e, he, by simp [CrawlEntry.events]⟩
      obtain ⟨stored, hobserved, hobject⟩ := hagree (e.link v) hmem
      replace hobserved : observedLinks _ (e.fileLinkId v) = some stored := hobserved
      rw [hid] at hobserved
      have hlink := hobserved
      rw [← hexact.links] at hlink
      refine Option.bind_eq_some_iff.mpr ⟨stored, (mem_volumeLinks.mp hlink).1, ?_⟩
      -- whatever was observed last under the identity is the entry again
      obtain ⟨e', he', hid', rfl⟩ := observedLinks_found hobserved
      rcases h.entry_cases he' with ⟨hnone, -⟩ | ⟨place', file', hseen₂, hid₂, hentry₂⟩
      · have hroot : e'.fileLinkId v = rootLinkId v := by
          unfold CrawlEntry.fileLinkId
          rw [hnone]
        exact absurd (hid'.symm.trans hroot) (h.apart.root place hplace)
      · have hplace' : place' ∈ occurring start final history := .inl ⟨file', .inr ⟨e', he', hseen₂⟩⟩
        obtain rfl := h.apart.injective hplace' hplace (hid₂.symm.trans hid')
        have hfile := entryOf_file hentry
        have hfile' := entryOf_file hentry₂
        replace hobject : (storedLink (e'.link v) false).objectKey =
          (storedLink (e.link v) false).objectKey := hobject
        rw [hobject, ← hfile] at hfile'
        rw [hentry₂, hfile']

/-- The listing a replay starts from. -/
theorem Handoff.fresh {checkpoint : ProviderCheckpoint} (h : Handoff v root start final history)
    (hscanned : Scanned v (final.found.flatMap (CrawlEntry.events v)) checkpoint g) :
    Listing.Fresh (placeLinkId v) start.names.space
      (Replica.listing v ⟨.fresh, Names.of g⟩) := by
  refine ⟨fun file => not_moving_of_none (h.still file), fun _ => rfl, fun _ => rfl,
    fun id place file hheld => ?_⟩
  exact ((h.held_iff hscanned id place file).mp hheld).1

omit [CaseMapping] in
theorem mem_notices {n : Notice Place Nat} : n ∈ history.filterMap ReadRecord.notice ↔
    ∃ t ∈ history, t.quiet = false ∧ (t.2, lookupOf t.1.2 != .unavailable) = n := by
  simp only [List.mem_filterMap, ReadRecord.notice, noticeOf, ReadRecord.quiet]
  refine exists_congr fun t => and_congr_right fun _ => ?_
  split_ifs with hquiet
  · simp [hquiet]
  · simp [hquiet]

omit [CaseMapping] in
theorem Handoff.change_place (h : Handoff v root start final history) {t : ReadRecord} (ht : t ∈ history) :
    t.2.place = t.1.1.place := by
  have hflags : ChangeFlags t.1.1.toSanitizedUsnRecord True t.2 := (h.plain ht).flags
  generalize t.2 = c at hflags
  cases hflags <;> rfl

omit [CaseMapping] in
theorem Handoff.touched_iff (h : Handoff v root start final history) {place : Place} :
    Touched (history.filterMap ReadRecord.notice) place ↔
      ∃ t ∈ history, t.quiet = false ∧ t.1.1.place = place := by
  constructor
  · rintro ⟨n, hn, rfl⟩
    obtain ⟨t, ht, hquiet, rfl⟩ := mem_notices.mp hn
    exact ⟨t, ht, hquiet, (h.change_place ht).symm⟩
  · rintro ⟨t, ht, hquiet, rfl⟩
    exact ⟨_, mem_notices.mpr ⟨t, ht, hquiet, rfl⟩, h.change_place ht⟩

omit [CaseMapping] in
theorem original_iff {place : Place} {file : Nat} :
    Original start.names.space (history.filterMap ReadRecord.notice) place file ↔
      start.names (.named place) = some file ∨ ∃ t ∈ history, t.2 = .create place file := by
  unfold Original
  refine or_congr_right ⟨?_, ?_⟩
  · rintro ⟨told, hmem⟩
    obtain ⟨t, ht, -, heq⟩ := mem_notices.mp hmem
    exact ⟨t, ht, congrArg Prod.fst heq⟩
  · rintro ⟨t, ht, hchange⟩
    refine ⟨_, mem_notices.mpr ⟨t, ht, ?_, Prod.ext hchange rfl⟩⟩
    rw [ReadRecord.quiet, hchange]
    rfl

omit [CaseMapping] in
/-- An entry whose record was not told of is not there at the end. -/
theorem Handoff.missed (h : Handoff v root start final history) {place : Place} {file : Nat}
    (hmissed : Missed (history.filterMap ReadRecord.notice) place file) :
    final.names (.named place) ≠ some file := by
  have huntold : ∀ {c : NameChange Place Nat}, (c = .create place file ∨ c = .arrive place file) →
      (c, false) ∈ history.filterMap ReadRecord.notice → final.names (.named place) ≠ some file := by
    rintro c hc hmem
    obtain ⟨t, ht, -, heq⟩ := mem_notices.mp hmem
    obtain ⟨hchange, htold⟩ := Prod.mk.inj heq
    obtain ⟨lookup, hlookup, -, hfound⟩ := h.seen t ht
    rw [lookupOf_eq hlookup] at htold
    have hflags := (h.plain ht).flags
    replace hflags : ChangeFlags t.1.1.toSanitizedUsnRecord True t.2 := hflags
    rw [hchange] at hflags
    have hsame : t.1.1.place = place ∧ t.1.1.fileReference = file := by
      rcases hc with rfl | rfl <;> cases hflags <;> exact ⟨rfl, rfl⟩
    intro hnamed
    rw [← hsame.1, ← hsame.2] at hnamed
    exact hfound hnamed (by simpa using htold)
  rcases hmissed with hcreate | harrive
  · exact huntold (.inl rfl) hcreate
  · exact huntold (.inr rfl) harrive

/-- Records that fit turn the scanned links into the final ones exactly if the
crawl found nothing that a rename put in place and missed nothing that stayed. -/
theorem Handoff.exact_iff {checkpoint : ProviderCheckpoint} (h : Handoff v root start final history)
    (hscanned : Scanned v (final.found.flatMap (CrawlEntry.events v)) checkpoint g)
    (hfit : Replica.FitAll v ⟨.fresh, Names.of g⟩ (history.map (·.1))) :
    (∀ place file, (∃ id, ((Replica.readAll v ⟨.fresh, Names.of g⟩ (history.map (·.1))).listing v).held id =
      some (place, file)) ↔ final.names (.named place) = some file) ↔
      FoundOriginal start final history ∧ FoundUntouched start final history := by
  have hreplayed := h.run.replayed (h.fresh hscanned) hfit
  have hS : ∀ n ∈ history.filterMap ReadRecord.notice, n.1.place ∈ occurring start final history := by
    intro n hn
    obtain ⟨t, ht, -, rfl⟩ := mem_notices.mp hn
    exact .inr ⟨t, ht, (h.change_place ht).symm⟩
  have hlisted : ∀ id place file, (Replica.listing v ⟨.fresh, Names.of g⟩).held id =
      some (place, file) → place ∈ occurring start final history := fun id place file hheld =>
    .inl ⟨file, .inr ((h.held_iff hscanned id place file).mp hheld).2⟩
  have hexact := hreplayed.exact_iff h.apart.injective (h.fresh hscanned) hS hlisted
    (fun file => not_moving_of_none (h.settled file)) fun place file hmissed => h.missed hmissed
  refine hexact.trans (and_congr ?_ ?_)
  · refine forall₂_congr fun place file => ?_
    rw [h.held_iff hscanned, original_iff]
    exact imp_congr_left (and_iff_right rfl)
  · refine forall₂_congr fun place file => imp_congr_right fun _ => ?_
    rw [h.held_iff hscanned, h.touched_iff, and_iff_right rfl]
    simp only [not_exists, not_and, ne_eq]

/-- The records from the position on are accepted, in any batches, and leave the
names at their end, exactly if every record fits what was told before it, the
crawl found only what was there at the position or was created since, everything
was found that no record is about (but for records of an entry that stays), and the
volume has a generation for each batch. -/
theorem handoff_exact {before after : UsnJournalState} {checkpoint : SavedCheckpoint}
    {journal : List JournalEntry} {batches : List GraphMutationBatch}
    (hcheckpoint : initialCheckpoint before after = .ok checkpoint)
    (hhandoff : Handoff v root start final history)
    (hhistory : aheadOf journal before.nextPosition = history.map (·.1))
    (hscanned : Scanned v (final.found.flatMap (CrawlEntry.events v)) (encode v checkpoint) g)
    (hrun : canonicalRun v checkpoint.toWindowsCheckpoint (aheadOf journal checkpoint.nextPosition) =
      .ok (saved', events))
    (hsplit : SplitsInto v events batches) :
    (∃ g', applyBatches g batches = .ok g' ∧ LinksAre g' v root final.names) ↔
      (batches = [] ∨ currentGeneration g v + batches.length < 2 ^ 63) ∧
        Replica.FitAll v ⟨checkpoint.toWindowsCheckpoint, Names.of g⟩
          (aheadOf journal checkpoint.nextPosition) ∧
        FoundOriginal start final history ∧ FoundUntouched start final history := by
  obtain ⟨hfresh, hposition⟩ : checkpoint.toWindowsCheckpoint = .fresh ∧
      checkpoint.nextPosition = before.nextPosition := by
    obtain ⟨-, -, heq⟩ := bind_ok.mp hcheckpoint
    rw [← Except.ok.inj heq]
    exact ⟨rfl, rfl⟩
  rw [hfresh, hposition, hhistory] at hrun ⊢
  obtain ⟨hwf, hexact, -⟩ := hscanned.exact (crawl_keeps final.found)
  have hstored : Replica.Stored ⟨.fresh, Names.of g⟩ := by
    intro id link hlink
    obtain ⟨row, -, rfl⟩ := loadLink_eq_some.mp hlink
    rfl
  have hkey : ∀ entry ∈ history.map (·.1), ∃ lookup, lookupObject entry.2 = .ok lookup ∧
      ∀ object, lookup = .observed object → object.objectKey = fileKey v entry.1.fileReference := by
    rintro _ hentry
    obtain ⟨t, ht, rfl⟩ := List.mem_map.mp hentry
    obtain ⟨lookup, hlookup, htrue, -⟩ := hhandoff.seen t ht
    exact ⟨lookup, hlookup, trueIn_key htrue⟩
  have hplain : ∀ entry ∈ history.map (·.1), PlainRecord entry.1.toSanitizedUsnRecord := by
    rintro _ hentry
    obtain ⟨t, ht, rfl⟩ := List.mem_map.mp hentry
    exact (hhandoff.plain ht).toPlainRecord
  obtain ⟨haccepts, hnames, hvolume⟩ := Replica.carries_all (r := ⟨.fresh, Names.of g⟩)
    hstored hplain hkey hrun
  rw [← hsplit.mutations] at haccepts hnames hvolume
  have hbatches : ∀ batch ∈ batches, batch.volumeId = v ∧ batch.checkpoint.volumeId = v ∧
      ∀ m ∈ batch.mutations, m.InVolume v := fun batch hbatch =>
    ⟨(hsplit.volume batch hbatch).1, (hsplit.volume batch hbatch).2,
      fun m hm => hvolume m (List.mem_flatMap.mpr ⟨batch, hbatch, hm⟩)⟩
  obtain ⟨volume, honline, -⟩ := hexact.online
  have haccepted := applyBatches_accepts hwf hexact.closed (Option.isSome_iff_exists.mpr ⟨volume, honline⟩)
    hbatches
  rw [haccepts] at haccepted
  have hroot : RootOnly v root (Names.of g) := by
    intro id link hlink hkey hparent
    have hobserved := mem_volumeLinks.mpr ⟨hlink, hkey⟩
    rw [hexact.links] at hobserved
    obtain ⟨e, he, rfl, rfl⟩ := observedLinks_found hobserved
    rcases hhandoff.entry_cases he with ⟨-, hobject⟩ | ⟨place, file, -, -, hentry⟩
    · exact hobject
    · have hsome := (entryLink_of_entryOf hentry).parent
      rw [hparent] at hsome
      cases hsome
  -- what an accepted replay leaves is the listing of the replica
  have hleaves : ∀ {g'}, applyBatches g batches = .ok g' →
      Replica.FitAll v ⟨.fresh, Names.of g⟩ (history.map (·.1)) →
      (LinksAre g' v root final.names ↔
        FoundOriginal start final history ∧ FoundUntouched start final history) := by
    intro g' hok hfit
    obtain ⟨hwf', hnames'⟩ := applyBatches_leaves hwf hexact.closed (fun b hb => (hbatches b hb).1) hok
    have hread : (Names.of g') = (Replica.readAll v ⟨.fresh, Names.of g⟩ (history.map (·.1))).names :=
      hnames'.trans hnames
    have hroot' : RootOnly v root (Names.of g') := by
      rw [hread]
      exact @RootOnly.readAll v root _ ⟨.fresh, Names.of g⟩ hroot
    rw [linksAre_iff hwf' (hhandoff.run.small hhandoff.small) hroot', ← hhandoff.exact_iff hscanned hfit,
      hread]
  constructor
  · rintro ⟨g', hok, hlinks⟩
    obtain ⟨hroom, hfit⟩ := haccepted.mp ⟨g', hok⟩
    exact ⟨hroom, hfit, (hleaves hok hfit).mp hlinks⟩
  · rintro ⟨hroom, hfit, hfound⟩
    obtain ⟨g', hok⟩ := haccepted.mpr ⟨hroom, hfit⟩
    exact ⟨g', hok, (hleaves hok hfit).mpr hfound⟩

end Handoff

section Example

attribute [local instance] asciiCaseMapping

/-- One file under the root. -/
def oneFile (name : String) : Namespace :=
  Function.update bareNamespace (.named (toLex (1, name))) (some 7)

theorem oneFile_named {name : String} {place : Place} {file : Nat} :
    oneFile name (.named place) = some file ↔ place = toLex (1, name) ∧ file = 7 := by
  rw [oneFile, Function.update_apply]
  split_ifs with hslot
  · simp [Slot.named.inj hslot, eq_comm]
  · refine iff_of_false (fun h => by cases h) fun h => hslot ?_
    rw [h.1]

theorem oneFile_moving (name : String) (file : Nat) : oneFile name (.moving file) = none :=
  Function.update_of_ne (by simp) _ _

def oneFileStart : CrawlState where
  names := oneFile "a"
  frames := [.enter [] 1]
  found := [⟨sampleObject 1 .directory, none, "C:"⟩]

def oneFileFound (name : String) : List CrawlEntry :=
  [⟨sampleObject 1 .directory, none, "C:"⟩, ⟨sampleObject 7 .file, some (sampleKey 1), name⟩]

theorem CrawlFrame.release_enter (place : Place) (path : List String) (parent : Nat) :
    (CrawlFrame.enter path parent).release place = .enter path parent := by
  simp [CrawlFrame.release, CrawlFrame.enter]

/-- The crawl lists the root and ends. -/
theorem oneFile_crawl {name : String} {records : List WrittenRecord}
    (hrun : CrawlRun sampleVolume 1 oneFileStart records
      ⟨oneFile name, [.enter [] 1], oneFileStart.found⟩) :
    CrawlRun sampleVolume 1 oneFileStart records ⟨oneFile name, [], oneFileFound name⟩ := by
  have hthere : oneFile name (.named (toLex (1, name))) = some 7 := oneFile_named.mpr ⟨rfl, rfl⟩
  have hpath : (oneFile name).at 1 ([] ++ [name]) = some 7 := by
    rw [List.nil_append, Namespace.at, List.foldlM_cons, hthere]
    rfl
  have hopened := hrun.step (.readDirectory rfl rfl (show (oneFile name).at 1 [] = some 1 from rfl))
  have hlisted := hopened.step (.next rfl rfl rfl (ne_of_eq_of_ne hthere (by simp)))
  have hidentified := hlisted.step (.identify rfl rfl (fun _ : false = false => hpath) (by decide)
    (show (sampleObject 7 .file).objectKey = _ from rfl))
  have hfinished := hidentified.step (.finish rfl rfl rfl ?_)
  · simp only [Option.toList_none, List.append_nil] at hfinished
    exact hfinished
  · rw [Set.eq_empty_iff_forall_notMem]
    rintro other ⟨hother, hne⟩
    obtain ⟨file, hfile⟩ := Option.ne_none_iff_exists'.mp hother
    exact hne (Prod.mk.inj (oneFile_named.mp hfile).1).2

def renamedAway : JournalRecord := ⟨⟨7, 1, reasonRenameOldName, "a", false⟩, 1⟩

def renamedTo : JournalRecord := ⟨⟨7, 1, reasonRenameNewName, "b", false⟩, 2⟩

def renamedClosed : JournalRecord := ⟨⟨7, 1, reasonRenameNewName ||| reasonClose, "b", false⟩, 3⟩

/-- The file is renamed and closed, and found under its new name. -/
def renameHistory : List ReadRecord :=
  [((renamedAway, .ok (.ok .unavailable)), .leave renamedAway.place 7),
    ((renamedTo, .ok (.ok (.observed (sampleObject 7 .file)))), .arrive renamedTo.place 7),
    ((renamedClosed, .ok (.ok (.observed (sampleObject 7 .file)))), .report renamedClosed.place 7)]

def renameJournal : List JournalEntry := renameHistory.map (·.1)

/-- The names once the file has left its old place. -/
def betweenNames : Namespace :=
  Function.update (Function.update (oneFile "a") (.named renamedAway.place) none) (.moving 7) (some 7)

theorem betweenNames_named (place : Place) : betweenNames (.named place) = none := by
  rw [betweenNames, Function.update_of_ne (by simp), Function.update_apply]
  split_ifs with hplace
  · rfl
  · exact Function.update_of_ne hplace _ _

theorem betweenNames_arrived : Function.update (Function.update betweenNames (.moving 7) none)
    (.named renamedTo.place) (some 7) = oneFile "b" := by
  funext slot
  by_cases hplace : slot = .named renamedTo.place
  · rw [hplace, Function.update_self]
    exact (oneFile_named.mpr ⟨rfl, rfl⟩).symm
  have hright : oneFile "b" slot = none := Function.update_of_ne hplace _ _
  rw [Function.update_of_ne hplace, hright]
  cases slot with
  | named place =>
    rw [Function.update_of_ne (by simp)]
    exact betweenNames_named place
  | moving file =>
    rw [Function.update_apply]
    split_ifs with hfile
    · rfl
    · rw [betweenNames, Function.update_of_ne hfile, Function.update_of_ne (by simp)]
      exact oneFile_moving "a" file

/-- The rename is written while no directory is being listed. -/
theorem rename_run {frames : List CrawlFrame} {found : List CrawlEntry}
    (hidle : ∀ place, frames.map (.release place) = frames)
    (hrun : CrawlRun sampleVolume 1 oneFileStart [] ⟨oneFile "a", frames, found⟩) :
    CrawlRun sampleVolume 1 oneFileStart (renameHistory.map ReadRecord.written)
      ⟨oneFile "b", frames, found⟩ := by
  have hleft : LegalRecord 1 (oneFile "a") renamedAway.toSanitizedUsnRecord betweenNames :=
    .oldName rfl rfl (oneFile_named.mpr ⟨rfl, rfl⟩) (oneFile_moving "a" 7)
  have harrived : LegalRecord 1 betweenNames renamedTo.toSanitizedUsnRecord (oneFile "b") := by
    rw [← betweenNames_arrived]
    exact .newName rfl rfl rfl (Function.update_self _ _ _) (betweenNames_named _) (.inl rfl)
  have hmoved : ∀ {name : String}, betweenNames ≠ oneFile name := fun heq => by
    have hnamed := congrFun heq (.moving 7)
    rw [oneFile_moving, betweenNames, Function.update_self] at hnamed
    cases hnamed
  have hthere : oneFile "b" (.named renamedClosed.place) = some 7 := oneFile_named.mpr ⟨rfl, rfl⟩
  have hclosed : LegalRecord 1 (oneFile "b") renamedClosed.toSanitizedUsnRecord (oneFile "b") :=
    .report rfl rfl hthere fun _ => oneFile_moving "b" 7
  have harrive : betweenNames.changeBy renamedTo.toSanitizedUsnRecord = .arrive renamedTo.place 7 := by
    unfold Namespace.changeBy
    rw [betweenNames_named]
    rfl
  have hreport : (oneFile "b").changeBy renamedClosed.toSanitizedUsnRecord =
      .report renamedClosed.place 7 := by
    unfold Namespace.changeBy
    rw [hthere]
    rfl
  have hbetween := hrun.step (.change hleft hmoved rfl (by decide) (by decide))
  rw [hidle] at hbetween
  have hafter := hbetween.step (.change harrived (Ne.symm hmoved) rfl (by decide) (by decide))
  rw [hidle] at hafter
  have hend := hafter.step (.report hclosed rfl (by decide) (by decide))
  rw [harrive, hreport] at hend
  exact hend

/-- Both runs end with the new name; the crawl has found one of the two. -/
theorem rename_crawl {name : String} (hname : name = "a" ∨ name = "b") :
    CrawlRun sampleVolume 1 oneFileStart (renameHistory.map ReadRecord.written)
      ⟨oneFile "b", [], oneFileFound name⟩ := by
  rcases hname with rfl | rfl
  · exact rename_run (fun _ => rfl) (oneFile_crawl .start)
  · refine oneFile_crawl (rename_run (fun place => ?_) .start)
    rw [List.map_singleton, CrawlFrame.release_enter]

theorem oneFileFound_iff {name : String} {place : Place} {file : Nat} :
    CrawlState.Found ⟨oneFile "b", [], oneFileFound name⟩ place file ↔
      place = toLex (1, name) ∧ file = 7 := by
  have hseen : CrawlEntry.seen ⟨sampleObject 7 .file, some (sampleKey 1), name⟩ =
      some (toLex (1, name), 7) := rfl
  constructor
  · rintro ⟨e, he, heq⟩
    rcases List.mem_pair.mp he with rfl | rfl
    · cases heq
    · rw [hseen] at heq
      exact ⟨(Prod.mk.inj (Option.some.inj heq)).1.symm, (Prod.mk.inj (Option.some.inj heq)).2.symm⟩
  · rintro ⟨rfl, rfl⟩
    exact ⟨_, List.mem_pair.mpr (.inr rfl), hseen⟩

theorem mem_renameHistory {t : ReadRecord} : t ∈ renameHistory ↔
    t = ((renamedAway, .ok (.ok .unavailable)), .leave renamedAway.place 7) ∨
    t = ((renamedTo, .ok (.ok (.observed (sampleObject 7 .file)))), .arrive renamedTo.place 7) ∨
    t = ((renamedClosed, .ok (.ok (.observed (sampleObject 7 .file)))), .report renamedClosed.place 7) := by
  simp [renameHistory]

theorem rename_handoff {name : String} (hname : name = "a" ∨ name = "b") :
    Handoff sampleVolume 1 oneFileStart ⟨oneFile "b", [], oneFileFound name⟩ renameHistory where
  starts := ⟨rfl, sampleObject 1 .directory, "C:", rfl, rfl⟩
  small := by
    refine ⟨by decide, fun place file hnamed => ?_⟩
    obtain ⟨rfl, rfl⟩ := oneFile_named.mp hnamed
    exact ⟨by decide, by decide⟩
  still := oneFile_moving "a"
  run := rename_crawl hname
  crawled := rfl
  settled := oneFile_moving "b"
  seen := by
    intro t ht
    have hnamed : oneFile "b" (.named renamedTo.place) = some 7 := oneFile_named.mpr ⟨rfl, rfl⟩
    rcases mem_renameHistory.mp ht with rfl | rfl | rfl
    · refine ⟨.unavailable, rfl, trivial, fun hnamed => ?_⟩
      have hplace : renamedAway.place = toLex (1, "b") := (oneFile_named.mp hnamed).1
      exact absurd hplace (by decide)
    · exact ⟨.observed (sampleObject 7 .file), rfl, ⟨ne_of_eq_of_ne hnamed (by simp), rfl⟩, fun _ h => by cases h⟩
    · exact ⟨.observed (sampleObject 7 .file), rfl, ⟨ne_of_eq_of_ne hnamed (by simp), rfl⟩, fun _ h => by cases h⟩
  apart := by
    have hplaces : ∀ place ∈ occurring oneFileStart ⟨oneFile "b", [], oneFileFound name⟩ renameHistory,
        place = toLex (1, "a") ∨ place = toLex (1, "b") := by
      rintro place (⟨file, hnamed | hfound⟩ | ⟨t, ht, rfl⟩)
      · exact .inl (oneFile_named.mp hnamed).1
      · rw [(oneFileFound_iff.mp hfound).1]
        exact hname.imp (congrArg fun n => toLex (1, n)) (congrArg fun n => toLex (1, n))
      · rcases mem_renameHistory.mp ht with rfl | rfl | rfl
        · exact .inl rfl
        · exact .inr rfl
        · exact .inr rfl
    have hapart : placeLinkId sampleVolume (toLex (1, "a")) ≠ placeLinkId sampleVolume (toLex (1, "b")) := by
      decide +kernel
    refine ⟨fun p hp q hq heq => ?_, fun place hplace => ?_⟩
    · rcases hplaces p hp with rfl | rfl <;> rcases hplaces q hq with rfl | rfl
      · rfl
      · exact absurd heq hapart
      · exact absurd heq.symm hapart
      · rfl
    · rcases hplaces place hplace with rfl | rfl <;> decide +kernel

/-- A journal that has been idle. -/
def idleJournal : UsnJournalState := ⟨1, 0, 1, 0⟩

def idleCheckpoint : SavedCheckpoint := ⟨.fresh, 1, 1, 0, 1, []⟩

theorem idleJournal_checkpoint : initialCheckpoint idleJournal idleJournal = .ok idleCheckpoint := rfl

def oneFileScan (name : String) : List GraphOp :=
  [.beginObservationScan sampleDescriptor .initial .providerRequested,
    .applyObservationScanPage sampleVolume ((oneFileFound name).flatMap (CrawlEntry.events sampleVolume)),
    .stageObservationCheckpoint sampleVolume (encode sampleVolume idleCheckpoint),
    .finalizeObservationScan sampleVolume 10, .finalizeObservationScan sampleVolume 10]

def oneFileGraph (name : String) (n : Nat) : FilesystemGraph :=
  (runOps .empty ((oneFileScan name).take n)).toOption.getD .empty

theorem oneFile_scanned {name : String} (hname : name = "a" ∨ name = "b") :
    Scanned sampleVolume ((oneFileFound name).flatMap (CrawlEntry.events sampleVolume))
      (encode sampleVolume idleCheckpoint) (oneFileGraph name 5) := by
  have hbegin : beginObservationScan .empty sampleDescriptor .initial .providerRequested =
      .ok (oneFileGraph name 1, ⟨sampleVolume, 1, .initial, .scanning⟩) := by
    rcases hname with rfl | rfl <;> decide +kernel
  have hpage : applyObservationScanPage (oneFileGraph name 1) sampleVolume
      ((oneFileFound name).flatMap (CrawlEntry.events sampleVolume)) =
        .ok (oneFileGraph name 2, ⟨4, 2, 0, 2⟩) := by
    rcases hname with rfl | rfl <;> decide +kernel
  have hstage : stageObservationCheckpoint (oneFileGraph name 2) sampleVolume
      (encode sampleVolume idleCheckpoint) = .ok (oneFileGraph name 3) := by
    rcases hname with rfl | rfl <;> decide +kernel
  have hsweep : finalizeObservationScan (oneFileGraph name 3) sampleVolume 10 =
      .ok (oneFileGraph name 4, ⟨0, 0, false⟩) := by
    rcases hname with rfl | rfl <;> decide +kernel
  have hfinalize : finalizeObservationScan (oneFileGraph name 4) sampleVolume 10 =
      .ok (oneFileGraph name 5, ⟨0, 0, true⟩) := by
    rcases hname with rfl | rfl <;> decide +kernel
  have hpages : Scanning (fun _ _ => True) (fun _ _ => False) sampleVolume (oneFileGraph name 1)
      ([] ++ (oneFileFound name).flatMap (CrawlEntry.events sampleVolume)) (oneFileGraph name 2) :=
    .page .start trivial hpage
  exact .complete rfl hbegin hpages hstage
    (.call .start trivial (by decide) hsweep rfl) hfinalize rfl

/-- The link keeps the identity of its old name, and is told again with the close. -/
def renameEvents : List FilesystemEvent :=
  [.linkObserved (observedLink sampleVolume renamedTo.toSanitizedUsnRecord
      (placeLinkId sampleVolume renamedAway.place)),
    .linkObserved (observedLink sampleVolume renamedTo.toSanitizedUsnRecord
      (placeLinkId sampleVolume renamedAway.place))]

def renameBatches : List GraphMutationBatch := [sampleBatch (renameEvents.map .ofEvent)]

def renamedSaved : WindowsCheckpoint :=
  rememberKnownLink .fresh renamedTo.place (placeLinkId sampleVolume renamedAway.place)

theorem renameJournal_ahead : aheadOf renameJournal idleJournal.nextPosition = renameHistory.map (·.1) := rfl

theorem renameJournal_run : canonicalRun sampleVolume idleCheckpoint.toWindowsCheckpoint
    (aheadOf renameJournal idleCheckpoint.nextPosition) = .ok (renamedSaved, renameEvents) := by
  decide +kernel

/-- The crawl finds the file after it was renamed: the record that gives the file
its new name again, under the identity of the old one, is rejected. -/
theorem renamed_rejected :
    ¬ ∀ (v : VolumeId) (root : Nat) (start final : CrawlState) (before after : UsnJournalState)
        (checkpoint : SavedCheckpoint) (journal : List JournalEntry) (history : List ReadRecord)
        (g : FilesystemGraph) (saved' : WindowsCheckpoint) (events : List FilesystemEvent)
        (batches : List GraphMutationBatch),
      initialCheckpoint before after = .ok checkpoint →
      Handoff v root start final history →
      aheadOf journal before.nextPosition = history.map (·.1) →
      Scanned v (final.found.flatMap (CrawlEntry.events v)) (encode v checkpoint) g →
      canonicalRun v checkpoint.toWindowsCheckpoint (aheadOf journal checkpoint.nextPosition) =
        .ok (saved', events) →
      SplitsInto v events batches → currentGeneration g v + batches.length < 2 ^ 63 →
      ∃ g', applyBatches g batches = .ok g' ∧ LinksAre g' v root final.names := by
  intro h
  obtain ⟨g', haccepted, -⟩ := h sampleVolume 1 oneFileStart ⟨oneFile "b", [], oneFileFound "b"⟩ idleJournal
    idleJournal idleCheckpoint renameJournal renameHistory (oneFileGraph "b" 5) renamedSaved renameEvents
    renameBatches idleJournal_checkpoint (rename_handoff (.inr rfl)) renameJournal_ahead
    (oneFile_scanned (.inr rfl)) renameJournal_run
    ⟨by decide, rfl⟩ (by decide +kernel)
  have hrejected : (applyBatches (oneFileGraph "b" 5) renameBatches).toOption = none := by decide +kernel
  rw [haccepted] at hrejected
  cases hrejected

/-- What the scan stored of the file before its rename. -/
theorem oneFileGraph_link {id : FileLinkId} {link : StoredLink}
    (hlink : loadLink (oneFileGraph "a" 5) id = some link) :
    link.name = "C:" ∧ id = rootLinkId sampleVolume ∨ link.name = "a" ∧ link.objectKey = sampleKey 7 := by
  have hrows : (oneFileGraph "a" 5).links.rows =
      [(rootLinkId sampleVolume, ⟨sampleKey 1, none, "C:", false, 2⟩),
        (placeLinkId sampleVolume renamedAway.place, ⟨sampleKey 7, some (sampleKey 1), "a", false, 2⟩)] := by
    decide +kernel
  obtain ⟨row, hrow, rfl⟩ := loadLink_eq_some.mp hlink
  have hmem := Table.mem_rows.mpr hrow
  rw [hrows] at hmem
  rcases List.mem_pair.mp hmem with heq | heq <;> obtain ⟨rfl, rfl⟩ := Prod.mk.inj heq
  · exact .inl ⟨rfl, rfl⟩
  · exact .inr ⟨rfl, rfl⟩

theorem rename_fits : Replica.FitAll sampleVolume ⟨.fresh, Names.of (oneFileGraph "a" 5)⟩ renameJournal := by
  have hquiet : ∀ lookup, renamedAway.announces lookup = false ∧ renamedAway.describes lookup = false :=
    fun _ => ⟨rfl, rfl⟩
  have hkept : renamedAway.removes = false ∧ renamedTo.removes = false ∧ renamedClosed.removes = false :=
    ⟨rfl, rfl, rfl⟩
  have hundescribed : ∀ lookup, renamedTo.describes lookup = false ∧ renamedClosed.describes lookup = false :=
    fun lookup => by
      simp [SanitizedUsnRecord.describes, show renamedTo.has (reasonFileCreate ||| reasonBasicInfoChange |||
        reasonDataChange) = false from rfl, show renamedClosed.has (reasonFileCreate |||
          reasonBasicInfoChange ||| reasonDataChange) = false from rfl]
  have hid : (assignLinkId (WindowsCheckpoint.fresh.follow sampleVolume renamedAway.toSanitizedUsnRecord)
      sampleVolume renamedTo.toSanitizedUsnRecord).2 = placeLinkId sampleVolume renamedAway.place := by
    decide +kernel
  have hidClosed : (assignLinkId ((WindowsCheckpoint.fresh.follow sampleVolume
      renamedAway.toSanitizedUsnRecord).follow sampleVolume renamedTo.toSanitizedUsnRecord)
        sampleVolume renamedClosed.toSanitizedUsnRecord).2 = placeLinkId sampleVolume renamedAway.place := by
    decide +kernel
  have hknown : ((oneFileGraph "a" 5).objects.get (sampleKey 7)).isSome := by decide +kernel
  have happart : placeLinkId sampleVolume renamedAway.place ≠ rootLinkId sampleVolume := by decide +kernel
  have hold : ∀ {id : FileLinkId} {link : StoredLink}, loadLink (oneFileGraph "a" 5) id = some link →
      link.name ≠ "b" ∧ (id = placeLinkId sampleVolume renamedAway.place → link.objectKey = sampleKey 7) := by
    intro id link hlink
    rcases oneFileGraph_link hlink with ⟨hname, hroot⟩ | ⟨hname, hobject⟩
    · exact ⟨(by rw [hname]; decide), fun hsame => absurd (hsame.symm.trans hroot) happart⟩
    · exact ⟨(by rw [hname]; decide), fun _ => hobject⟩
  refine ⟨?_, ⟨?_, ?_, ?_, ?_, ?_⟩, ⟨?_, ?_, ?_, ?_, ?_⟩, trivial⟩
  · refine ⟨?_, ?_, ?_, ?_, ?_⟩ <;> simp [hquiet, hkept]
  · simp [hundescribed]
  · exact fun _ => .inr (.inl hknown)
  · exact fun _ link hlink => (hold hlink).2 hid
  · exact fun _ id link hlink hname => absurd hname (hold hlink).1
  · simp [hkept]
  · simp [hundescribed]
  · exact fun _ => .inr (.inl (.inl hknown))
  · intro _ link hlink
    replace hlink : Function.update (loadLink (oneFileGraph "a" 5)) _ _ _ = some link := hlink
    rw [Function.update_apply] at hlink
    split_ifs at hlink
    · rw [← Option.some.inj hlink]
      rfl
    · exact (hold hlink).2 hidClosed
  · intro _ id link hlink hname _
    replace hlink : Function.update (loadLink (oneFileGraph "a" 5)) _ _ _ = some link := hlink
    rw [Function.update_apply] at hlink
    split_ifs at hlink with hsame
    · exact hsame.trans (hid.trans hidClosed.symm)
    · exact absurd hname (hold hlink).1
  · simp [hkept]

/-- The crawl finds the file before it is renamed: the records move its link. -/
theorem renamed_followed :
    ∃ g', applyBatches (oneFileGraph "a" 5) renameBatches = .ok g' ∧
      LinksAre g' sampleVolume 1 (oneFile "b") := by
  have hsplit : SplitsInto sampleVolume renameEvents renameBatches := ⟨by decide, rfl⟩
  have hroom : currentGeneration (oneFileGraph "a" 5) sampleVolume + renameBatches.length < 2 ^ 63 := by
    decide +kernel
  refine (handoff_exact idleJournal_checkpoint (rename_handoff (.inl rfl)) renameJournal_ahead
    (oneFile_scanned (.inl rfl)) renameJournal_run hsplit).mpr ⟨.inr hroom, ?_, ?_, ?_⟩
  · exact rename_fits
  · intro place file hfound
    exact .inl (oneFile_named.mpr (oneFileFound_iff.mp hfound))
  · intro place file hnamed huntouched
    exact absurd (oneFile_named.mp hnamed).1.symm (huntouched _ List.mem_cons_self rfl)

end Example

end LocalSearch.Windows
