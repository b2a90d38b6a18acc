import LocalSearch.Windows.Paging

/-!
# Progress of a read

A consumer reads on while a batch says there is more. The position moves with
the records of a page, so a page without records leaves it where it was, even
when the page itself ends further on.
-/
namespace LocalSearch.Windows

set_option autoImplicit false

open Core Lib

variable {v : VolumeId} {journalEnd pageEnd : Int64} {maximum : Nat}

/-- The read has something to hand out, or records that lead on. -/
def MovesOn (v : VolumeId) (session : JournalSession) (saved : SavedCheckpoint) : Prop :=
  saved.pendingEvents ≠ [] ∨ ∃ page, session.page = .ok page ∧ page.records ≠ [] ∧
    (saved.nextPosition < page.nextPosition ∨ ∃ entry ∈ page.records, plainEvents v entry ≠ [])

theorem plainEvents_eq_nil {entry : JournalEntry} {links links' : WindowsCheckpoint}
    {events : List FilesystemEvent}
    (h : canonicalEvents entry.2 links v entry.1.toSanitizedUsnRecord = .ok (links', events)) :
    plainEvents v entry = [] ↔ events = [] := by
  have hsize : events.map (·.json.utf8ByteSize) = (plainEvents v entry).map (·.json.utf8ByteSize) :=
    plainEvents_size h
  rw [← List.map_eq_nil_iff, ← hsize, List.map_eq_nil_iff]

theorem readRecords_extends {entries : List JournalEntry} {saved : SavedCheckpoint}
    {emitted : List FilesystemEvent} {outcome : RecordsOutcome}
    (h : readRecords v journalEnd pageEnd maximum entries saved emitted = .ok outcome) :
    emitted <+: outcome.emitted := by
  induction entries generalizing saved emitted with
  | nil =>
    obtain rfl := Except.ok.inj h
    exact List.prefix_rfl
  | cons entry rest ih =>
    obtain ⟨⟨links, events⟩, -, h⟩ := bind_ok.mp h
    dsimp only at h
    split_ifs at h
    · obtain rfl := Except.ok.inj h
      exact List.prefix_append _ _
    · obtain rfl := Except.ok.inj h
      exact List.prefix_append _ _
    · exact (List.prefix_append _ _).trans (ih h)

/-- Silent records lead to the end of the page, and any other is heard. -/
theorem readRecords_progress (hbudget : 0 < maximum) {entries : List JournalEntry}
    {saved : SavedCheckpoint} {outcome : RecordsOutcome}
    (h : readRecords v journalEnd pageEnd maximum entries saved [] = .ok outcome) :
    (outcome.emitted ≠ [] ∧ ∃ entry ∈ entries, plainEvents v entry ≠ []) ∨
      (outcome.emitted = [] ∧ (∀ entry ∈ entries, plainEvents v entry = []) ∧
        outcome.saved.nextPosition = if entries = [] then saved.nextPosition else pageEnd) := by
  induction entries generalizing saved with
  | nil =>
    obtain rfl := Except.ok.inj h
    exact .inr ⟨rfl, nofun, rfl⟩
  | cons entry rest ih =>
    obtain ⟨⟨links, events⟩, hevents, h⟩ := bind_ok.mp h
    dsimp only at h
    have hplain : plainEvents v entry = [] ↔ events = [] := plainEvents_eq_nil hevents
    by_cases hsilent : events = []
    · rw [hsilent] at h
      have hroom : ¬ 0 = maximum := by omega
      simp only [List.length_nil, Nat.not_lt_zero, if_false, List.take_nil, List.append_nil,
        hroom] at h
      rcases ih h with ⟨hheard, other, hother, hspeaks⟩ | ⟨hquiet, hrest, hposition⟩
      · exact .inl ⟨hheard, other, List.mem_cons_of_mem _ hother, hspeaks⟩
      · refine .inr ⟨hquiet, ?_, ?_⟩
        · intro other hother
          rcases List.mem_cons.mp hother with rfl | hother
          · exact hplain.mpr hsilent
          · exact hrest other hother
        · rw [hposition, if_neg (List.cons_ne_nil _ _)]
          split_ifs with hlast
          · rw [hlast]
            rfl
          · rfl
    · refine .inl ⟨?_, entry, List.mem_cons_self, fun hnil => hsilent (hplain.mp hnil)⟩
      have htaken : ([] : List FilesystemEvent) ++
          events.take (min (maximum - ([] : List FilesystemEvent).length) events.length) ≠ [] := by
        rw [List.nil_append, List.length_nil, ne_eq, List.take_eq_nil_iff]
        have hlength : 0 < events.length := List.length_pos_iff.mpr hsilent
        rintro (hzero | hnil)
        · omega
        · exact hsilent hnil
      split_ifs at h
      · obtain rfl := Except.ok.inj h
        exact htaken
      · obtain rfl := Except.ok.inj h
        exact htaken
      · intro hnil
        have hextends := readRecords_extends h
        rw [hnil] at hextends
        exact htaken (List.prefix_nil.mp hextends)

theorem readSaved_progress (hbudget : 0 < maximum) {session : JournalSession}
    {saved next : SavedCheckpoint} {emitted : List FilesystemEvent} {more : Bool}
    (h : readSaved v session saved maximum = .ok (next, emitted, more)) :
    (emitted ≠ [] ∨ saved.nextPosition < next.nextPosition) ↔ MovesOn v session saved := by
  obtain ⟨before, -, h⟩ := bind_ok.mp h
  obtain ⟨-, -, h⟩ := bind_ok.mp h
  dsimp only at h
  by_cases hpending : saved.pendingEvents = []
  · have hstop : ¬ (saved.pendingEvents.drop maximum ≠ [] ∨
        (saved.pendingEvents.take maximum).length = maximum) := by
      rw [hpending, List.drop_nil, List.take_nil, List.length_nil]
      rintro (hleft | hfull)
      · exact hleft rfl
      · omega
    rw [if_neg hstop] at h
    obtain ⟨page, hpage, h⟩ := bind_ok.mp h
    split_ifs at h with hback
    obtain ⟨outcome, houtcome, h⟩ := bind_ok.mp h
    have hresult : emitted = outcome.emitted ∧ next.nextPosition = outcome.saved.nextPosition := by
      cases outcome with
      | stopped saved₁ out hasMore =>
        obtain ⟨rfl, hrest⟩ := Prod.mk.inj (Except.ok.inj h)
        obtain ⟨rfl, -⟩ := Prod.mk.inj hrest
        exact ⟨rfl, rfl⟩
      | finished saved₁ out =>
        obtain ⟨after, -, h⟩ := bind_ok.mp h
        obtain ⟨-, -, h⟩ := bind_ok.mp h
        obtain ⟨rfl, hrest⟩ := Prod.mk.inj (Except.ok.inj h)
        obtain ⟨rfl, -⟩ := Prod.mk.inj hrest
        exact ⟨rfl, rfl⟩
    obtain ⟨rfl, hnext⟩ := hresult
    have hempty : saved.pendingEvents.take maximum = [] := by rw [hpending, List.take_nil]
    rw [hempty] at houtcome
    have hmoves : MovesOn v session saved ↔ page.records ≠ [] ∧
        (saved.nextPosition < page.nextPosition ∨ ∃ entry ∈ page.records, plainEvents v entry ≠ []) := by
      constructor
      · rintro (hleft | ⟨page', hpage', hmoves⟩)
        · exact absurd hpending hleft
        · obtain rfl := Except.ok.inj (hpage.symm.trans hpage')
          exact hmoves
      · exact fun hmoves => .inr ⟨page, hpage, hmoves⟩
    rw [hmoves]
    rcases readRecords_progress hbudget houtcome with ⟨hheard, entry, hentry, hspeaks⟩ |
      ⟨hquiet, hsilent, hposition⟩
    · exact iff_of_true (.inl hheard)
        ⟨List.ne_nil_of_mem hentry, .inr ⟨entry, hentry, hspeaks⟩⟩
    · have hnone : ¬ ∃ entry ∈ page.records, plainEvents v entry ≠ [] := by
        rintro ⟨entry, hentry, hspeaks⟩
        exact hspeaks (hsilent entry hentry)
      rw [hquiet, hnext, hposition]
      by_cases hrecords : page.records = []
      · rw [if_pos hrecords]
        exact iff_of_false (not_or.mpr ⟨fun hne => hne rfl, fun hlt => Int64.lt_irrefl hlt⟩)
          fun hmoves => hmoves.1 hrecords
      · rw [if_neg hrecords]
        constructor
        · rintro (hne | hlt)
          · exact absurd rfl hne
          · exact ⟨hrecords, .inl hlt⟩
        · rintro ⟨-, hlt | hspeaks⟩
          · exact .inr hlt
          · exact absurd hspeaks hnone
  · have hemitted : saved.pendingEvents.take maximum ≠ [] := by
      rw [ne_eq, List.take_eq_nil_iff]
      rintro (hzero | hnil)
      · omega
      · exact hpending hnil
    refine iff_of_true (.inl ?_) (.inl hpending)
    split_ifs at h
    · obtain ⟨-, hrest⟩ := Prod.mk.inj (Except.ok.inj h)
      obtain ⟨rfl, -⟩ := Prod.mk.inj hrest
      exact hemitted
    · obtain ⟨page, -, h⟩ := bind_ok.mp h
      split_ifs at h
      obtain ⟨outcome, houtcome, h⟩ := bind_ok.mp h
      have hextends := readRecords_extends houtcome
      have hheard : outcome.emitted ≠ [] := fun hnil =>
        hemitted (List.prefix_nil.mp (hnil ▸ hextends))
      cases outcome with
      | stopped saved₁ out hasMore =>
        obtain ⟨-, hrest⟩ := Prod.mk.inj (Except.ok.inj h)
        obtain ⟨rfl, -⟩ := Prod.mk.inj hrest
        exact hheard
      | finished saved₁ out =>
        obtain ⟨after, -, h⟩ := bind_ok.mp h
        obtain ⟨-, -, h⟩ := bind_ok.mp h
        obtain ⟨-, hrest⟩ := Prod.mk.inj (Except.ok.inj h)
        obtain ⟨rfl, -⟩ := Prod.mk.inj hrest
        exact hheard

/-- A read that says there is more has got somewhere exactly when it moves on. -/
theorem has_more_progresses {session : JournalSession} {saved : SavedCheckpoint}
    {events : List FilesystemEvent} {batch : ChangeBatch} (hbudget : 0 < maximum)
    (h : readChanges v session saved maximum = .ok (events, batch)) (hmore : batch.hasMore = true) :
    ∃ next, readSaved v session saved maximum = .ok (next, events, true) ∧
      batch.checkpoint = encode v next ∧
      ((events ≠ [] ∨ saved.nextPosition < next.nextPosition) ↔ MovesOn v session saved) := by
  obtain ⟨⟨next, emitted, more⟩, hread, h⟩ := bind_ok.mp h
  obtain ⟨rfl, rfl⟩ := Prod.mk.inj (Except.ok.inj h)
  obtain rfl : more = true := hmore
  exact ⟨next, hread, rfl, readSaved_progress hbudget hread⟩

section Example

open Graph (sampleVolume)

/-- The journal ends at 8, and so does the page that is read at 0. -/
def journalOf (entries : List JournalEntry) : JournalSession :=
  ⟨.ok ⟨1, 0, 8, 0⟩, .ok ⟨4, entries⟩, .ok ⟨1, 0, 8, 0⟩⟩

def atStart : SavedCheckpoint := ⟨.fresh, 1, 0, 0, 1, []⟩

/-- The one read of a file that was created. -/
def heardRead : SavedCheckpoint × List FilesystemEvent × Bool :=
  (readSaved sampleVolume (journalOf (createdPage 0)) atStart 1).toOption.getD (atStart, [], false)

/-- A created file is heard. -/
theorem created_progresses :
    ∃ next, readSaved sampleVolume (journalOf (createdPage 0)) atStart 1 =
        .ok (next, heardRead.2.1, true) ∧
      encode sampleVolume heardRead.1 = encode sampleVolume next ∧
      ((heardRead.2.1 ≠ [] ∨ atStart.nextPosition < next.nextPosition) ↔
        MovesOn sampleVolume (journalOf (createdPage 0)) atStart) := by
  have hread : readChanges sampleVolume (journalOf (createdPage 0)) atStart 1 =
      .ok (heardRead.2.1, ⟨encode sampleVolume heardRead.1, heardRead.2.1.length, true⟩) := rfl
  exact has_more_progresses (by decide) hread rfl

/-- A page without records that ends ahead of the cursor: the consumer is told
that there is more, and given its own checkpoint. -/
theorem empty_page_spins :
    readSaved sampleVolume (journalOf []) atStart 1 = .ok (atStart, [], true) ∧
    readChanges sampleVolume (journalOf []) atStart 1 =
      .ok ([], ⟨encode sampleVolume atStart, 0, true⟩) :=
  ⟨rfl, rfl⟩

end Example

end LocalSearch.Windows
