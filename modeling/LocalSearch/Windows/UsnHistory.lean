import LocalSearch.Windows.Provider
import LocalSearch.Graph.Store
import Mathlib.Data.Set.Function
import Mathlib.Logic.Relation

/-!
# Link identities over a journal history

An entry is known to the graph by the identity its last observation carried. A
crawled or created entry gets the hash of its place, and renames carry that
identity along, so two entries clash exactly when a place is given to a new
entry while the one that was first seen there lives on elsewhere.
-/
namespace LocalSearch.Windows

set_option autoImplicit false

open Core Lib

/-- An existing entry: the file it names, the identity it was last observed
under and the place it was crawled or created at. -/
structure Entry where
  reference : Nat
  linkId : FileLinkId
  origin : Place
  deriving DecidableEq

/-- Where an entry is: under a name, or between the two records of a rename. -/
inductive Slot where
  | named (place : Place)
  | moving (fileReference : Nat)
  deriving DecidableEq

structure JournalState where
  saved : WindowsCheckpoint
  holders : Slot → Option Entry

/-- The identity the events give to the entry they observe. -/
def observedId (events : List FilesystemEvent) : Option FileLinkId :=
  events.findSome? fun
    | .linkObserved link => some link.fileLinkId
    | _ => none

/-- One record of a legal history, read with a successful lookup. `S` holds the
places at which entries appear and `C` restricts them. -/
inductive RecordStep (v : VolumeId) (S : Set Place) (C : JournalState → Place → Prop) :
    JournalState → List FilesystemEvent → JournalState → Prop
  | create {s : JournalState} {saved' : WindowsCheckpoint} {events : List FilesystemEvent}
      {record : SanitizedUsnRecord} {object : FileObjectSnapshot} {id : FileLinkId}
      (hname : record.hadInvalidUtf16 = false) (hreason : record.has reasonFileCreate = true)
      (hold : record.has reasonRenameOldName = false) (hdelete : record.has reasonFileDelete = false)
      (hfree : s.holders (.named record.place) = none)
      (hnew : ∀ slot e, s.holders slot = some e → e.reference ≠ record.fileReference)
      (hS : record.place ∈ S) (hC : C s record.place)
      (hrun : canonicalEvents (.ok (.ok (.observed object))) s.saved v record = .ok (saved', events))
      (hid : observedId events = some id) :
      RecordStep v S C s events ⟨saved', Function.update s.holders (.named record.place)
        (some ⟨record.fileReference, id, record.place⟩)⟩
  | oldName {s : JournalState} {saved' : WindowsCheckpoint} {events : List FilesystemEvent}
      {record : SanitizedUsnRecord} {object : FileObjectSnapshot} {e : Entry}
      (hname : record.hadInvalidUtf16 = false) (hold : record.has reasonRenameOldName = true)
      (hentry : s.holders (.named record.place) = some e) (hfile : e.reference = record.fileReference)
      (hidle : s.holders (.moving record.fileReference) = none)
      (hrun : canonicalEvents (.ok (.ok (.observed object))) s.saved v record = .ok (saved', events)) :
      RecordStep v S C s events ⟨saved', Function.update
        (Function.update s.holders (.named record.place) none) (.moving record.fileReference) (some e)⟩
  | newName {s : JournalState} {saved' : WindowsCheckpoint} {events : List FilesystemEvent}
      {record : SanitizedUsnRecord} {object : FileObjectSnapshot} {e : Entry} {id : FileLinkId}
      (hname : record.hadInvalidUtf16 = false) (hreason : record.has reasonRenameNewName = true)
      (hold : record.has reasonRenameOldName = false) (hdelete : record.has reasonFileDelete = false)
      (hentry : s.holders (.moving record.fileReference) = some e)
      (hfree : s.holders (.named record.place) = none)
      (hrun : canonicalEvents (.ok (.ok (.observed object))) s.saved v record = .ok (saved', events))
      (hid : observedId events = some id) :
      RecordStep v S C s events ⟨saved', Function.update
        (Function.update s.holders (.moving record.fileReference) none) (.named record.place)
        (some { e with linkId := id })⟩
  | delete {s : JournalState} {saved' : WindowsCheckpoint} {events : List FilesystemEvent}
      {record : SanitizedUsnRecord} {object : FileObjectSnapshot} {e : Entry}
      (hname : record.hadInvalidUtf16 = false) (hreason : record.has reasonFileDelete = true)
      (hold : record.has reasonRenameOldName = false)
      (hentry : s.holders (.named record.place) = some e) (hfile : e.reference = record.fileReference)
      (hidle : s.holders (.moving record.fileReference) = none)
      (hrun : canonicalEvents (.ok (.ok (.observed object))) s.saved v record = .ok (saved', events)) :
      RecordStep v S C s events ⟨saved', Function.update s.holders (.named record.place) none⟩
  | report {s : JournalState} {saved' : WindowsCheckpoint} {events : List FilesystemEvent}
      {record : SanitizedUsnRecord} {object : FileObjectSnapshot} {e : Entry}
      (hname : record.hadInvalidUtf16 = false) (hold : record.has reasonRenameOldName = false)
      (hdelete : record.has reasonFileDelete = false)
      (hentry : s.holders (.named record.place) = some e) (hfile : e.reference = record.fileReference)
      (hidle : s.holders (.moving record.fileReference) = none)
      (hrun : canonicalEvents (.ok (.ok (.observed object))) s.saved v record = .ok (saved', events)) :
      RecordStep v S C s events ⟨saved', Function.update s.holders (.named record.place)
        (some { e with linkId := (observedId events).getD e.linkId })⟩

/-- A crawled namespace with nothing carried over from earlier records. -/
structure Crawled (v : VolumeId) (S : Set Place) (s : JournalState) : Prop where
  saved : s.saved = .fresh
  still : ∀ f, s.holders (.moving f) = none
  entry : ∀ place e, s.holders (.named place) = some e →
    e.linkId = placeLinkId v place ∧ e.origin = place ∧ place ∈ S

/-- No living entry was first seen at the place. -/
def Vacant (s : JournalState) (place : Place) : Prop :=
  ∀ slot e, s.holders slot = some e → e.origin ≠ place

def JournalRun (v : VolumeId) (S : Set Place) (C : JournalState → Place → Prop) :
    JournalState → JournalState → Prop :=
  Relation.ReflTransGen fun s s' => ∃ events, RecordStep v S C s events s'

section Records

variable {v : VolumeId} {saved saved' : WindowsCheckpoint} {record : SanitizedUsnRecord}
  {object : FileObjectSnapshot} {events : List FilesystemEvent}

/-- The link a record observes. -/
def observedLink (v : VolumeId) (record : SanitizedUsnRecord) (id : FileLinkId) : FileLinkSnapshot :=
  ⟨id, fileKey v record.fileReference, some (fileKey v record.parentReference), record.name⟩

theorem canonicalEvents_old (hname : record.hadInvalidUtf16 = false)
    (hold : record.has reasonRenameOldName = true) {answer : MetadataAnswer}
    (h : canonicalEvents answer saved v record = .ok (saved', events)) :
    saved' = rememberRename (forgetKnownLink saved record.place) record.fileReference
      (pathLinkId saved v record.place) ∧ events = [] := by
  simp only [canonicalEvents, hname, hold, Bool.false_eq_true, if_false, if_true] at h
  obtain ⟨rfl, rfl⟩ := Prod.mk.inj (Except.ok.inj h)
  exact ⟨rfl, rfl⟩

theorem canonicalEvents_delete (hname : record.hadInvalidUtf16 = false)
    (hold : record.has reasonRenameOldName = false) (hdelete : record.has reasonFileDelete = true)
    {answer : MetadataAnswer} (h : canonicalEvents answer saved v record = .ok (saved', events)) :
    saved' = forgetKnownLink (assignLinkId saved v record).1 record.place ∧
      events = [.linkRemoved (assignLinkId saved v record).2 (fileKey v record.fileReference),
        .objectRemoved (fileKey v record.fileReference)] := by
  simp only [canonicalEvents, hname, hold, hdelete, Bool.false_eq_true, if_false, if_true] at h
  obtain ⟨rfl, rfl⟩ := Prod.mk.inj (Except.ok.inj h)
  exact ⟨rfl, rfl⟩

theorem canonicalEvents_observed (hname : record.hadInvalidUtf16 = false)
    (hold : record.has reasonRenameOldName = false) (hdelete : record.has reasonFileDelete = false)
    {lookup : ObjectLookup}
    (h : canonicalEvents (.ok (.ok lookup)) saved v record = .ok (saved', events)) :
    saved' = (assignLinkId saved v record).1 ∧
      events = observedEvents record (observedLink v record (assignLinkId saved v record).2) lookup := by
  simp only [canonicalEvents, hname, hold, hdelete, Bool.false_eq_true, if_false] at h
  obtain ⟨rfl, rfl⟩ := Prod.mk.inj (Except.ok.inj h)
  exact ⟨rfl, rfl⟩

/-- A record observes at most the link it is about. -/
theorem eq_of_linkObserved {link link' : FileLinkSnapshot} {lookup : ObjectLookup}
    (h : .linkObserved link' ∈ observedEvents record link lookup) : link' = link := by
  unfold observedEvents at h
  cases lookup with
  | observed object => split_ifs at h <;> simp_all
  | missing => split_ifs at h <;> simp_all
  | unavailable => simp at h

theorem observedId_observedEvents {link : FileLinkSnapshot} {lookup : ObjectLookup} {id : FileLinkId}
    (h : observedId (observedEvents record link lookup) = some id) : id = link.fileLinkId := by
  obtain ⟨event, hmem, hevent⟩ := List.exists_of_findSome?_eq_some h
  cases event with
  | linkObserved link' =>
    obtain rfl := eq_of_linkObserved hmem
    exact (Option.some.inj hevent).symm
  | objectObserved | linkRemoved | objectRemoved | reconciliationRequired => cases hevent

/-- What assigning an identity leaves in the two maps. -/
theorem assignLinkId_spec (saved : WindowsCheckpoint) (v : VolumeId) (record : SanitizedUsnRecord) :
    (∀ f, (assignLinkId saved v record).1.pendingRenames.get f =
      if record.has reasonRenameNewName = true ∧ f = record.fileReference then none
      else saved.pendingRenames.get f) ∧
    pathLinkId (assignLinkId saved v record).1 v record.place = (assignLinkId saved v record).2 ∧
    ∀ place, place ≠ record.place →
      knownLinkId (assignLinkId saved v record).1 place = knownLinkId saved place := by
  cases hnew : record.has reasonRenameNewName with
  | false => simp [assignLinkId, hnew]
  | true =>
    refine ⟨fun f => ?_, ?_, fun place hplace => ?_⟩
    · simp [assignLinkId, hnew, takeRename, rememberKnownLink]
    · simp [assignLinkId, hnew, takeRename, rememberKnownLink, pathLinkId, knownLinkId]
    · simp [assignLinkId, hnew, takeRename, rememberKnownLink, knownLinkId, hplace]

/-- Without a rename in flight the entry keeps the identity of its place. -/
theorem assignLinkId_still (h : saved.pendingRenames.get record.fileReference = none) :
    (assignLinkId saved v record).2 = pathLinkId saved v record.place := by
  cases hnew : record.has reasonRenameNewName with
  | false => simp [assignLinkId, hnew]
  | true => simp [assignLinkId, hnew, takeRename, h]

end Records

/-- Identities are the hashes of origins, the maps agree with the entries, and
no two entries share an origin. -/
structure IdentityInvariant (v : VolumeId) (S : Set Place) (saved : WindowsCheckpoint)
    (holders : Slot → Option Entry) : Prop where
  origin : ∀ slot e, holders slot = some e → e.linkId = placeLinkId v e.origin ∧ e.origin ∈ S
  known : ∀ place e, holders (.named place) = some e → pathLinkId saved v place = e.linkId
  free : ∀ place, holders (.named place) = none → knownLinkId saved place = none
  pending : ∀ f, saved.pendingRenames.get f = (holders (.moving f)).map (·.linkId)
  file : ∀ f e, holders (.moving f) = some e → e.reference = f
  distinct : ∀ x y a b, holders x = some a → holders y = some b → a.origin = b.origin → x = y

section Invariant

variable {v : VolumeId} {S : Set Place} {s s' : JournalState} {events : List FilesystemEvent}

theorem identityInvariant_crawled (h : Crawled v S s) : IdentityInvariant v S s.saved s.holders := by
  have hnamed : ∀ slot e, s.holders slot = some e → ∃ place, slot = .named place := by
    intro slot e he
    cases slot with
    | named place => exact ⟨place, rfl⟩
    | moving f => rw [h.still f] at he; cases he
  refine ⟨fun slot e he => ?_, fun place e he => ?_, fun place _ => ?_, fun f => ?_, fun f e he => ?_,
    fun x y a b hx hy hab => ?_⟩
  · obtain ⟨place, rfl⟩ := hnamed slot e he
    obtain ⟨hid, horigin, hS⟩ := h.entry place e he
    rw [horigin]
    exact ⟨hid, hS⟩
  · rw [(h.entry place e he).1, pathLinkId, knownLinkId, h.saved]
    rfl
  · rw [knownLinkId, h.saved]
    rfl
  · rw [h.saved, h.still f]
    rfl
  · rw [h.still f] at he
    cases he
  · obtain ⟨p, rfl⟩ := hnamed x a hx
    obtain ⟨q, rfl⟩ := hnamed y b hy
    rw [(h.entry p a hx).2.1, (h.entry q b hy).2.1] at hab
    rw [hab]

/-- Holders after an entry went from one slot to another. -/
theorem holders_moved {x y z : Slot} {e a : Entry} (hx : s.holders x = some e)
    (h : Function.update (Function.update s.holders x none) y (some e) z = some a) :
    s.holders (if z = y then x else z) = some a ∧ (z = y ∨ z ≠ x) := by
  rw [Function.update_apply] at h
  split_ifs at h ⊢ with hy
  · exact ⟨by rw [hx, ← h], Or.inl hy⟩
  · rw [Function.update_apply] at h
    split_ifs at h with hzx
    exact ⟨h, Or.inr hzx⟩

theorem distinct_moved {x y : Slot} {e : Entry} (hinv : IdentityInvariant v S s.saved s.holders)
    (hx : s.holders x = some e) {z w : Slot} {a b : Entry}
    (hz : Function.update (Function.update s.holders x none) y (some e) z = some a)
    (hw : Function.update (Function.update s.holders x none) y (some e) w = some b)
    (hab : a.origin = b.origin) : z = w := by
  obtain ⟨ha, hzx⟩ := holders_moved hx hz
  obtain ⟨hb, hwx⟩ := holders_moved hx hw
  have hsame := hinv.distinct _ _ a b ha hb hab
  split_ifs at hsame with h1 h2 h2
  · rw [h1, h2]
  · exact absurd hsame.symm (hwx.resolve_left h2)
  · exact absurd hsame (hzx.resolve_left h1)
  · exact hsame

/-- The identity a record assigns is the one its entry already has. -/
theorem assignLinkId_entry (hinv : IdentityInvariant v S s.saved s.holders) {record : SanitizedUsnRecord} {e : Entry}
    (hentry : s.holders (.named record.place) = some e)
    (hidle : s.holders (.moving record.fileReference) = none) :
    (assignLinkId s.saved v record).2 = e.linkId := by
  rw [assignLinkId_still (by rw [hinv.pending, hidle]; rfl)]
  exact hinv.known _ e hentry

theorem assignLinkId_moving (hinv : IdentityInvariant v S s.saved s.holders) {record : SanitizedUsnRecord} {e : Entry}
    (hreason : record.has reasonRenameNewName = true)
    (hentry : s.holders (.moving record.fileReference) = some e) :
    (assignLinkId s.saved v record).2 = e.linkId := by
  simp [assignLinkId, hreason, takeRename, hinv.pending, hentry]

theorem assignLinkId_create (hinv : IdentityInvariant v S s.saved s.holders) {record : SanitizedUsnRecord}
    (hfree : s.holders (.named record.place) = none)
    (hidle : s.holders (.moving record.fileReference) = none) :
    (assignLinkId s.saved v record).2 = placeLinkId v record.place := by
  rw [assignLinkId_still (by rw [hinv.pending, hidle]; rfl), pathLinkId, hinv.free _ hfree]
  rfl

/-- A report leaves its entry the identity it has. -/
theorem reported_linkId {record : SanitizedUsnRecord} {object : FileObjectSnapshot} {e : Entry}
    {saved : WindowsCheckpoint} (h : (assignLinkId saved v record).2 = e.linkId) :
    (observedId (observedEvents record (observedLink v record (assignLinkId saved v record).2)
      (.observed object))).getD e.linkId = e.linkId := by
  cases hseen : observedId (observedEvents record (observedLink v record
      (assignLinkId saved v record).2) (.observed object)) with
  | none => rfl
  | some id => exact (observedId_observedEvents hseen).trans h

/-- The pending renames follow the entries between two names. -/
theorem pending_assigned (hinv : IdentityInvariant v S s.saved s.holders) {record : SanitizedUsnRecord}
    (hidle : s.holders (.moving record.fileReference) = none) (f : Nat) :
    (assignLinkId s.saved v record).1.pendingRenames.get f = (s.holders (.moving f)).map (·.linkId) := by
  rw [(assignLinkId_spec s.saved v record).1]
  split_ifs with hf
  · rw [hf.2, hidle]
    rfl
  · exact hinv.pending f

/-- An entry appears, or is observed again, at the place of the record. -/
theorem identityInvariant_place (hinv : IdentityInvariant v S s.saved s.holders) {record : SanitizedUsnRecord}
    {e : Entry} (hidle : s.holders (.moving record.fileReference) = none)
    (hid : (assignLinkId s.saved v record).2 = e.linkId)
    (horigin : e.linkId = placeLinkId v e.origin ∧ e.origin ∈ S)
    (hvacant : ∀ slot a, s.holders slot = some a → a.origin = e.origin → slot = .named record.place) :
    IdentityInvariant v S (assignLinkId s.saved v record).1
      (Function.update s.holders (.named record.place) (some e)) := by
  obtain ⟨-, hown, hother⟩ := assignLinkId_spec s.saved v record
  refine ⟨fun slot a ha => ?_, fun place a ha => ?_, fun place hnone => ?_, fun f => ?_,
    fun f a ha => ?_, fun x y a b hx hy hab => ?_⟩
  · rw [Function.update_apply] at ha
    split_ifs at ha with hslot
    · exact Option.some.inj ha ▸ horigin
    · exact hinv.origin slot a ha
  · rw [Function.update_apply] at ha
    split_ifs at ha with hplace
    · rw [Slot.named.inj hplace, hown, hid, Option.some.inj ha]
    · rw [pathLinkId, hother place fun he => hplace (congrArg _ he)]
      exact hinv.known place a ha
  · rw [Function.update_apply] at hnone
    split_ifs at hnone with hplace
    rw [hother place fun he => hplace (congrArg _ he)]
    exact hinv.free place hnone
  · exact pending_assigned hinv hidle f
  · exact hinv.file f a ha
  · rw [Function.update_apply] at hx hy
    split_ifs at hx hy with h1 h2 h2
    · rw [h1, h2]
    · rw [h1]
      exact (hvacant y b hy (by rw [← hab, Option.some.inj hx])).symm
    · rw [h2]
      exact hvacant x a hx (by rw [hab, Option.some.inj hy])
    · exact hinv.distinct x y a b hx hy hab

/-- An entry leaves its name: the identity goes from the links to the renames. -/
theorem identityInvariant_leave (hinv : IdentityInvariant v S s.saved s.holders)
    {record : SanitizedUsnRecord} {e : Entry} (hentry : s.holders (.named record.place) = some e)
    (hfile : e.reference = record.fileReference) :
    IdentityInvariant v S
      (rememberRename (forgetKnownLink s.saved record.place) record.fileReference
        (pathLinkId s.saved v record.place))
      (Function.update (Function.update s.holders (.named record.place) none)
        (.moving record.fileReference) (some e)) := by
  refine ⟨fun slot a ha => ?_, fun place a ha => ?_, fun place hnone => ?_, fun f => ?_,
    fun f a ha => ?_, fun x y a b hx hy hab => distinct_moved hinv hentry hx hy hab⟩
  · exact hinv.origin _ a (holders_moved hentry ha).1
  · obtain ⟨ha', hne⟩ := holders_moved hentry ha
    rw [if_neg (by simp)] at ha'
    have hplace : place ≠ record.place := fun he => hne.resolve_left (by simp) (congrArg _ he)
    rw [pathLinkId, knownLinkId, rememberRename, forgetKnownLink, Table.get_erase, if_neg hplace]
    exact hinv.known place a ha'
  · rw [knownLinkId, rememberRename, forgetKnownLink, Table.get_erase]
    split_ifs with hplace
    · rfl
    · rw [Function.update_of_ne (by simp), Function.update_of_ne (by simpa using hplace)] at hnone
      exact hinv.free place hnone
  · rw [rememberRename, forgetKnownLink, Table.get_insert, Function.update_apply]
    by_cases hf : f = record.fileReference
    · rw [if_pos hf, if_pos (by rw [hf]), hinv.known _ e hentry]
      rfl
    · rw [if_neg hf, if_neg (by simpa using hf), Function.update_of_ne (by simp)]
      exact hinv.pending f
  · rw [Function.update_apply] at ha
    split_ifs at ha with hf
    · rw [← Option.some.inj ha, hfile]
      exact (Slot.moving.inj hf).symm
    · rw [Function.update_of_ne (by simp)] at ha
      exact hinv.file f a ha

/-- An entry arrives at its new name with the identity it left the old one with. -/
theorem identityInvariant_arrive (hinv : IdentityInvariant v S s.saved s.holders)
    {record : SanitizedUsnRecord} {e : Entry} (hreason : record.has reasonRenameNewName = true)
    (hentry : s.holders (.moving record.fileReference) = some e) :
    IdentityInvariant v S (assignLinkId s.saved v record).1
      (Function.update (Function.update s.holders (.moving record.fileReference) none)
        (.named record.place) (some e)) := by
  have hassigned := assignLinkId_moving hinv hreason hentry
  obtain ⟨hpending, hown, hother⟩ := assignLinkId_spec s.saved v record
  refine ⟨fun slot a ha => ?_, fun place a ha => ?_, fun place hnone => ?_, fun f => ?_,
    fun f a ha => ?_, fun x y a b hx hy hab => distinct_moved hinv hentry hx hy hab⟩
  · exact hinv.origin _ a (holders_moved hentry ha).1
  · rw [Function.update_apply] at ha
    split_ifs at ha with hplace
    · rw [Slot.named.inj hplace, hown, hassigned, ← Option.some.inj ha]
    · rw [Function.update_of_ne (by simp)] at ha
      rw [pathLinkId, hother place fun he => hplace (congrArg _ he)]
      exact hinv.known place a ha
  · rw [Function.update_apply] at hnone
    split_ifs at hnone with hplace
    rw [Function.update_of_ne (by simp)] at hnone
    rw [hother place fun he => hplace (congrArg _ he)]
    exact hinv.free place hnone
  · rw [hpending, Function.update_of_ne (by simp), Function.update_apply]
    by_cases hf : f = record.fileReference
    · rw [if_pos ⟨hreason, hf⟩, if_pos (by rw [hf])]
      rfl
    · rw [if_neg fun h => hf h.2, if_neg (by simpa using hf)]
      exact hinv.pending f
  · rw [Function.update_of_ne (by simp), Function.update_apply] at ha
    split_ifs at ha
    exact hinv.file f a ha

/-- An entry goes with its name. -/
theorem identityInvariant_forget (hinv : IdentityInvariant v S s.saved s.holders)
    {record : SanitizedUsnRecord} (hidle : s.holders (.moving record.fileReference) = none) :
    IdentityInvariant v S (forgetKnownLink (assignLinkId s.saved v record).1 record.place)
      (Function.update s.holders (.named record.place) none) := by
  obtain ⟨-, -, hother⟩ := assignLinkId_spec s.saved v record
  have hkept : ∀ slot a, Function.update s.holders (.named record.place) none slot = some a →
      s.holders slot = some a ∧ slot ≠ .named record.place := by
    intro slot a ha
    rw [Function.update_apply] at ha
    split_ifs at ha with hslot
    exact ⟨ha, hslot⟩
  refine ⟨fun slot a ha => ?_, fun place a ha => ?_, fun place hnone => ?_, fun f => ?_,
    fun f a ha => ?_, fun x y a b hx hy hab => ?_⟩
  · exact hinv.origin slot a (hkept slot a ha).1
  · obtain ⟨ha', hne⟩ := hkept _ a ha
    have hplace : place ≠ record.place := fun he => hne (congrArg _ he)
    rw [pathLinkId, knownLinkId, forgetKnownLink, Table.get_erase, if_neg hplace, ← knownLinkId,
      hother place hplace]
    exact hinv.known place a ha'
  · rw [knownLinkId, forgetKnownLink, Table.get_erase]
    split_ifs with hplace
    · rfl
    · rw [Function.update_of_ne (by simpa using hplace)] at hnone
      rw [← knownLinkId, hother place hplace]
      exact hinv.free place hnone
  · exact pending_assigned hinv hidle f
  · exact hinv.file f a (hkept _ a ha).1
  · exact hinv.distinct x y a b (hkept x a hx).1 (hkept y b hy).1 hab

theorem identityInvariant_step (hinv : IdentityInvariant v S s.saved s.holders)
    (h : RecordStep v S Vacant s events s') : IdentityInvariant v S s'.saved s'.holders := by
  cases h with
  | @create saved' _ record object id hname hreason hold hdelete hfree hnew hS hvacant hrun hid =>
    obtain ⟨rfl, rfl⟩ := canonicalEvents_observed hname hold hdelete hrun
    have hidle : s.holders (.moving record.fileReference) = none := by
      rw [Option.eq_none_iff_forall_ne_some]
      intro e he
      exact hnew _ e he (hinv.file _ e he)
    have hlink := observedId_observedEvents hid
    refine identityInvariant_place hinv hidle hlink.symm ⟨?_, hS⟩ fun slot a ha hsame => ?_
    · rw [← assignLinkId_create hinv hfree hidle]
      exact hlink
    · exact absurd hsame (hvacant slot a ha)
  | @report saved' _ record object e hname hold hdelete hentry hfile hidle hrun =>
    obtain ⟨rfl, rfl⟩ := canonicalEvents_observed hname hold hdelete hrun
    have hassigned := assignLinkId_entry hinv hentry hidle
    rw [reported_linkId hassigned]
    refine identityInvariant_place hinv hidle hassigned (hinv.origin _ e hentry) fun slot a ha hsame => ?_
    exact hinv.distinct slot _ a e ha hentry hsame
  | @oldName saved' _ record object e hname hold hentry hfile hidle hrun =>
    obtain ⟨rfl, rfl⟩ := canonicalEvents_old hname hold hrun
    exact identityInvariant_leave hinv hentry hfile
  | @newName saved' _ record object e id hname hreason hold hdelete hentry hfree hrun hid =>
    obtain ⟨rfl, rfl⟩ := canonicalEvents_observed hname hold hdelete hrun
    obtain rfl : id = e.linkId :=
      (observedId_observedEvents hid).trans (assignLinkId_moving hinv hreason hentry)
    exact identityInvariant_arrive hinv hreason hentry
  | @delete saved' _ record object e hname hreason hold hentry hfile hidle hrun =>
    obtain ⟨rfl, rfl⟩ := canonicalEvents_delete hname hold hreason hrun
    exact identityInvariant_forget hinv hidle

theorem identityInvariant_run {s₀ : JournalState} (hstart : Crawled v S s₀)
    (h : JournalRun v S Vacant s₀ s) : IdentityInvariant v S s.saved s.holders := by
  induction h with
  | refl => exact identityInvariant_crawled hstart
  | tail _ hstep ih =>
    obtain ⟨events, hstep⟩ := hstep
    exact identityInvariant_step ih hstep

/-- Two entries with one identity are one entry. -/
theorem IdentityInvariant.eq_of_linkId (hinv : IdentityInvariant v S s.saved s.holders)
    (hinj : Set.InjOn (placeLinkId v) S) {x y : Slot} {a b : Entry} (hx : s.holders x = some a)
    (hy : s.holders y = some b) (hid : a.linkId = b.linkId) : x = y := by
  obtain ⟨ha, haS⟩ := hinv.origin x a hx
  obtain ⟨hb, hbS⟩ := hinv.origin y b hy
  rw [ha, hb] at hid
  exact hinv.distinct x y a b hx hy (hinj haS hbS hid)

/-- Entries that exist together have different identities. -/
def DistinctLinks (s : JournalState) : Prop :=
  ∀ x y a b, s.holders (.named x) = some a → s.holders (.named y) = some b →
    a.linkId = b.linkId → x = y

/-- No observation takes the identity of a living entry of another object. -/
def NeverRebinds (v : VolumeId) (s : JournalState) (events : List FilesystemEvent) : Prop :=
  ∀ link, .linkObserved link ∈ events → ∀ slot e, s.holders slot = some e →
    e.linkId = link.fileLinkId → fileKey v e.reference = link.objectKey

/-- The link rows of the graph are those of living entries and of the root. -/
def GraphLinks (v : VolumeId) (s : JournalState) (g : Graph.FilesystemGraph) : Prop :=
  ∀ id row, g.links.get id = some row → id = rootLinkId v ∨
    ∃ slot e, s.holders slot = some e ∧ e.linkId = id ∧ row.objectKey = fileKey v e.reference

/-- The identity an observation carries is the hash of some origin. -/
theorem linkObserved_cases (hinv : IdentityInvariant v S s.saved s.holders)
    (h : RecordStep v S Vacant s events s') {link : FileLinkSnapshot}
    (hlink : .linkObserved link ∈ events) :
    (∃ place ∈ S, Vacant s place ∧ link.fileLinkId = placeLinkId v place) ∨
      ∃ slot e, s.holders slot = some e ∧ e.linkId = link.fileLinkId ∧
        fileKey v e.reference = link.objectKey := by
  cases h with
  | @create saved' _ record object id hname hreason hold hdelete hfree hnew hS hvacant hrun hid =>
    obtain ⟨-, rfl⟩ := canonicalEvents_observed hname hold hdelete hrun
    have hidle : s.holders (.moving record.fileReference) = none := by
      rw [Option.eq_none_iff_forall_ne_some]
      intro e he
      exact hnew _ e he (hinv.file _ e he)
    rw [eq_of_linkObserved hlink]
    exact Or.inl ⟨record.place, hS, hvacant, assignLinkId_create hinv hfree hidle⟩
  | @newName saved' _ record object e id hname hreason hold hdelete hentry hfree hrun hid =>
    obtain ⟨-, rfl⟩ := canonicalEvents_observed hname hold hdelete hrun
    rw [eq_of_linkObserved hlink]
    refine Or.inr ⟨_, e, hentry, (assignLinkId_moving hinv hreason hentry).symm, ?_⟩
    rw [hinv.file _ e hentry]
    rfl
  | @report saved' _ record object e hname hold hdelete hentry hfile hidle hrun =>
    obtain ⟨-, rfl⟩ := canonicalEvents_observed hname hold hdelete hrun
    rw [eq_of_linkObserved hlink]
    refine Or.inr ⟨_, e, hentry, (assignLinkId_entry hinv hentry hidle).symm, ?_⟩
    rw [hfile]
    rfl
  | @oldName saved' _ record object e hname hold hentry hfile hidle hrun =>
    obtain ⟨-, rfl⟩ := canonicalEvents_old hname hold hrun
    cases hlink
  | @delete saved' _ record object e hname hreason hold hentry hfile hidle hrun =>
    obtain ⟨-, rfl⟩ := canonicalEvents_delete hname hold hreason hrun
    simp at hlink

theorem neverRebinds_step (hinv : IdentityInvariant v S s.saved s.holders)
    (hinj : Set.InjOn (placeLinkId v) S) (h : RecordStep v S Vacant s events s') :
    NeverRebinds v s events := by
  intro link hlink slot e he hid
  rcases linkObserved_cases hinv h hlink with ⟨place, hS, hvacant, hplace⟩ | ⟨slot', e', he', hid', hkey⟩
  · obtain ⟨horigin, hmem⟩ := hinv.origin slot e he
    rw [hplace, horigin] at hid
    exact absurd (hinj hmem hS hid) (hvacant slot e he)
  · have hslot := hinv.eq_of_linkId hinj he he' (hid.trans hid'.symm)
    rw [hslot, he'] at he
    rw [← Option.some.inj he]
    exact hkey

/-- A link row after one accepted event was observed by it or was there before
and not removed. -/
theorem linkRow_of_event {g g' : Graph.FilesystemGraph} {event : FilesystemEvent} {gen n : Nat}
    (h : Graph.applyMutation g (.ofEvent event) gen = .ok (g', n)) {id : FileLinkId}
    {row : Graph.LinkRow} (hrow : g'.links.get id = some row) :
    (∃ link, event = .linkObserved link ∧ link.fileLinkId = id ∧ row.objectKey = link.objectKey) ∨
      (g.links.get id = some row ∧ ∀ key, event ≠ .linkRemoved id key) := by
  cases event with
  | linkObserved link =>
    obtain ⟨-, g₁, g₂, h₁, h₂, -, rfl⟩ := Graph.upsertLink_ok h
    rw [Graph.putLink_links, Table.get_insert] at hrow
    split_ifs at hrow with hid
    · exact Or.inl ⟨link, rfl, hid.symm, by rw [← Option.some.inj hrow]⟩
    · rw [Graph.refreshMovedDirectory_frame h₂] at hrow
      exact Or.inr ⟨Graph.removeStaleLinks_get h₁ hrow, nofun⟩
  | linkRemoved link object =>
    have hget := Graph.removeLinkInternal_get h id
    rw [hrow] at hget
    split_ifs at hget with hid
    exact Or.inr ⟨hget.symm, fun key he => hid (FilesystemEvent.linkRemoved.inj he).1.symm⟩
  | objectObserved object =>
    rw [Graph.applyMutation_rows (m := .upsertObject object) not_false h] at hrow
    exact Or.inr ⟨hrow, nofun⟩
  | objectRemoved object =>
    rw [Graph.applyMutation_rows (m := .tombstoneObject object) not_false h] at hrow
    exact Or.inr ⟨hrow, nofun⟩
  | reconciliationRequired volume reason =>
    rw [Graph.applyMutation_rows (m := .requireReconciliation volume reason) not_false h] at hrow
    exact Or.inr ⟨hrow, nofun⟩

theorem linkRow_of_events {g g' : Graph.FilesystemGraph} {affected affected' : Graph.LinkSet}
    {gen n : Nat} (h : Graph.applyMutations gen g affected (events.map .ofEvent) = .ok (g', affected', n))
    {id : FileLinkId} {row : Graph.LinkRow} (hrow : g'.links.get id = some row) :
    (∃ link, .linkObserved link ∈ events ∧ link.fileLinkId = id ∧ row.objectKey = link.objectKey) ∨
      (g.links.get id = some row ∧ ∀ key, .linkRemoved id key ∉ events) := by
  induction events generalizing g affected affected' n with
  | nil =>
    obtain ⟨rfl, -⟩ := Prod.mk.inj (Except.ok.inj h)
    exact Or.inr ⟨hrow, fun _ => List.not_mem_nil⟩
  | cons event rest ih =>
    obtain ⟨⟨g₁, n₁⟩, h₁, h⟩ := bind_ok.mp h
    obtain ⟨⟨g₂, affected₂, n₂⟩, h₂, h⟩ := bind_ok.mp h
    obtain ⟨rfl, -⟩ := Prod.mk.inj (Except.ok.inj h)
    rcases ih h₂ with ⟨link, hmem, hlink⟩ | ⟨hold, hkeep⟩
    · exact Or.inl ⟨link, List.mem_cons_of_mem _ hmem, hlink⟩
    · rcases linkRow_of_event h₁ hold with ⟨link, rfl, hlink⟩ | ⟨hfirst, hne⟩
      · exact Or.inl ⟨link, List.mem_cons_self, hlink⟩
      · refine Or.inr ⟨hfirst, fun key hmem => ?_⟩
        rcases List.mem_cons.mp hmem with he | hmem
        · exact hne key he.symm
        · exact hkeep key hmem

/-- A living entry lives on under its identity unless the record removes it. -/
theorem holder_step (hinv : IdentityInvariant v S s.saved s.holders)
    (h : RecordStep v S Vacant s events s') {slot : Slot} {e : Entry} (he : s.holders slot = some e) :
    (∃ slot' e', s'.holders slot' = some e' ∧ e'.linkId = e.linkId ∧ e'.reference = e.reference) ∨
      ∃ key, .linkRemoved e.linkId key ∈ events := by
  have hstays : ∀ {place : Place} {holder : Option Entry}, slot ≠ .named place →
      Function.update s.holders (.named place) holder slot = some e := by
    intro place holder hne
    rw [Function.update_of_ne hne]
    exact he
  cases h with
  | @create saved' _ record object id hname hreason hold hdelete hfree hnew hS hvacant hrun hid =>
    refine Or.inl ⟨slot, e, hstays fun hslot => ?_, rfl, rfl⟩
    rw [hslot, hfree] at he
    cases he
  | @oldName saved' _ record object a hname hold hentry hfile hidle hrun =>
    by_cases hslot : slot = .named record.place
    · obtain rfl : a = e := Option.some.inj (hentry.symm.trans (hslot ▸ he))
      exact Or.inl ⟨.moving record.fileReference, a, Function.update_self _ _ _, rfl, rfl⟩
    · have hmoving : slot ≠ .moving record.fileReference := by
        rintro rfl
        rw [hidle] at he
        cases he
      refine Or.inl ⟨slot, e, ?_, rfl, rfl⟩
      exact (Function.update_of_ne hmoving _ _).trans (hstays hslot)
  | @newName saved' _ record object a id hname hreason hold hdelete hentry hfree hrun hid =>
    obtain ⟨-, rfl⟩ := canonicalEvents_observed hname hold hdelete hrun
    have hassigned := assignLinkId_moving hinv hreason hentry
    by_cases hslot : slot = .moving record.fileReference
    · obtain rfl : a = e := Option.some.inj (hentry.symm.trans (hslot ▸ he))
      refine Or.inl ⟨.named record.place, _, Function.update_self _ _ _, ?_, rfl⟩
      exact (observedId_observedEvents hid).trans hassigned
    · have hnamed : slot ≠ .named record.place := by
        rintro rfl
        rw [hfree] at he
        cases he
      refine Or.inl ⟨slot, e, ?_, rfl, rfl⟩
      exact (Function.update_of_ne hnamed _ _).trans ((Function.update_of_ne hslot _ _).trans he)
  | @delete saved' _ record object a hname hreason hold hentry hfile hidle hrun =>
    obtain ⟨-, rfl⟩ := canonicalEvents_delete hname hold hreason hrun
    by_cases hslot : slot = .named record.place
    · obtain rfl : a = e := Option.some.inj (hentry.symm.trans (hslot ▸ he))
      refine Or.inr ⟨fileKey v record.fileReference, ?_⟩
      rw [assignLinkId_entry hinv hentry hidle]
      exact List.mem_cons_self
    · exact Or.inl ⟨slot, e, hstays hslot, rfl, rfl⟩
  | @report saved' _ record object a hname hold hdelete hentry hfile hidle hrun =>
    obtain ⟨-, rfl⟩ := canonicalEvents_observed hname hold hdelete hrun
    by_cases hslot : slot = .named record.place
    · obtain rfl : a = e := Option.some.inj (hentry.symm.trans (hslot ▸ he))
      refine Or.inl ⟨.named record.place, _, Function.update_self _ _ _, ?_, rfl⟩
      exact reported_linkId (assignLinkId_entry hinv hentry hidle)
    · exact Or.inl ⟨slot, e, hstays hslot, rfl, rfl⟩

/-- An observed entry lives under the identity it was observed with. -/
theorem observed_step (hinv : IdentityInvariant v S s.saved s.holders)
    (h : RecordStep v S Vacant s events s') {link : FileLinkSnapshot}
    (hlink : .linkObserved link ∈ events) :
    ∃ slot e, s'.holders slot = some e ∧ e.linkId = link.fileLinkId ∧
      fileKey v e.reference = link.objectKey := by
  cases h with
  | @create saved' _ record object id hname hreason hold hdelete hfree hnew hS hvacant hrun hid =>
    obtain ⟨-, rfl⟩ := canonicalEvents_observed hname hold hdelete hrun
    rw [eq_of_linkObserved hlink]
    exact ⟨.named record.place, _, Function.update_self _ _ _, observedId_observedEvents hid, rfl⟩
  | @newName saved' _ record object e id hname hreason hold hdelete hentry hfree hrun hid =>
    obtain ⟨-, rfl⟩ := canonicalEvents_observed hname hold hdelete hrun
    rw [eq_of_linkObserved hlink]
    refine ⟨.named record.place, _, Function.update_self _ _ _, observedId_observedEvents hid, ?_⟩
    change fileKey v e.reference = _
    rw [hinv.file _ e hentry]
    rfl
  | @report saved' _ record object e hname hold hdelete hentry hfile hidle hrun =>
    obtain ⟨-, rfl⟩ := canonicalEvents_observed hname hold hdelete hrun
    rw [eq_of_linkObserved hlink]
    have hassigned := assignLinkId_entry hinv hentry hidle
    refine ⟨.named record.place, _, Function.update_self _ _ _, ?_, ?_⟩
    · exact (reported_linkId hassigned).trans hassigned.symm
    · change fileKey v e.reference = _
      rw [hfile]
      rfl
  | @oldName saved' _ record object e hname hold hentry hfile hidle hrun =>
    obtain ⟨-, rfl⟩ := canonicalEvents_old hname hold hrun
    cases hlink
  | @delete saved' _ record object e hname hreason hold hentry hfile hidle hrun =>
    obtain ⟨-, rfl⟩ := canonicalEvents_delete hname hold hreason hrun
    simp at hlink

/-- The graph that accepts the events of a record follows the entries. -/
theorem graphLinks_step (hinv : IdentityInvariant v S s.saved s.holders)
    (h : RecordStep v S Vacant s events s') {g g' : Graph.FilesystemGraph} {gen n : Nat}
    {affected affected' : Graph.LinkSet} (hgraph : GraphLinks v s g)
    (happly : Graph.applyMutations gen g affected (events.map .ofEvent) = .ok (g', affected', n)) :
    GraphLinks v s' g' := by
  intro id row hrow
  rcases linkRow_of_events happly hrow with ⟨link, hlink, rfl, hkey⟩ | ⟨hold, hkeep⟩
  · obtain ⟨slot, e, he, hid, hobject⟩ := observed_step hinv h hlink
    exact Or.inr ⟨slot, e, he, hid, hkey.trans hobject.symm⟩
  · rcases hgraph id row hold with hroot | ⟨slot, e, he, rfl, hkey⟩
    · exact Or.inl hroot
    · rcases holder_step hinv h he with ⟨slot', e', he', hid, href⟩ | ⟨key, hremoved⟩
      · exact Or.inr ⟨slot', e', he', hid, by rw [href]; exact hkey⟩
      · exact absurd hremoved (hkeep key)

/-- Journal and graph together: the graph accepts the events of each record. -/
def FeedStep (v : VolumeId) (S : Set Place) (C : JournalState → Place → Prop)
    (x x' : JournalState × Graph.FilesystemGraph) : Prop :=
  ∃ events gen affected affected' n, RecordStep v S C x.1 events x'.1 ∧
    Graph.applyMutations gen x.2 affected (events.map .ofEvent) = .ok (x'.2, affected', n)

theorem graphLinks_feed {x₀ x : JournalState × Graph.FilesystemGraph} (hstart : Crawled v S x₀.1)
    (hgraph : GraphLinks v x₀.1 x₀.2) (h : Relation.ReflTransGen (FeedStep v S Vacant) x₀ x) :
    IdentityInvariant v S x.1.saved x.1.holders ∧ GraphLinks v x.1 x.2 := by
  induction h with
  | refl => exact ⟨identityInvariant_crawled hstart, hgraph⟩
  | tail _ hstep ih =>
    obtain ⟨events, gen, affected, affected', n, hrecord, happly⟩ := hstep
    exact ⟨identityInvariant_step ih.1 hrecord, graphLinks_step ih.1 hrecord ih.2 happly⟩

/-- Only an observed link is ever refused as a rebinding. -/
theorem rebound_of_event {g : Graph.FilesystemGraph} {event : FilesystemEvent} {gen : Nat}
    (h : Graph.applyMutation g (.ofEvent event) gen = .error Graph.reboundError) :
    ∃ link row, event = .linkObserved link ∧ g.links.get link.fileLinkId = some row ∧
      row.objectKey ≠ link.objectKey := by
  cases event with
  | linkObserved link =>
    obtain ⟨row, hrow, hne⟩ := Graph.upsertLink_rebound h
    exact ⟨link, row, rfl, hrow, hne⟩
  | linkRemoved link object => exact absurd h Graph.removeLinkInternal_error
  | objectObserved object =>
    rcases bind_error.mp h with h | ⟨_, -, h⟩
    · unfold Graph.upsertObject at h
      split_ifs at h <;> simp [Graph.reboundError] at h
    · cases h
  | objectRemoved object =>
    rcases bind_error.mp h with h | ⟨_, -, h⟩
    · unfold Graph.tombstoneObject at h
      split_ifs at h <;> simp [Graph.reboundError] at h
    · cases h
  | reconciliationRequired volume reason =>
    simp only [Graph.GraphMutation.ofEvent, Graph.applyMutation, Graph.requireReconciliation] at h
    cases hrow : g.volumes.get volume with
    | none => rw [hrow] at h; simp [Graph.reboundError] at h
    | some row => rw [hrow] at h; cases h

/-- Some observed link meets a row, or a link observed with it, of another object
under its identity. -/
theorem rebound_of_events {g : Graph.FilesystemGraph} {affected : Graph.LinkSet} {gen : Nat}
    (h : Graph.applyMutations gen g affected (events.map .ofEvent) = .error Graph.reboundError) :
    ∃ link, .linkObserved link ∈ events ∧
      ((∃ row, g.links.get link.fileLinkId = some row ∧ row.objectKey ≠ link.objectKey) ∨
        ∃ other, .linkObserved other ∈ events ∧ other.objectKey ≠ link.objectKey) := by
  induction events generalizing g affected with
  | nil => cases h
  | cons event rest ih =>
    rcases bind_error.mp h with h | ⟨⟨g₁, n₁⟩, h₁, h⟩
    · obtain ⟨link, row, rfl, hrow, hne⟩ := rebound_of_event h
      exact ⟨link, List.mem_cons_self, Or.inl ⟨row, hrow, hne⟩⟩
    · rcases bind_error.mp h with h | ⟨_, -, h⟩
      · obtain ⟨link, hmem, ⟨row, hrow, hne⟩ | ⟨other, hother, hne⟩⟩ := ih h
        · rcases linkRow_of_event h₁ hrow with ⟨first, rfl, -, hkey⟩ | ⟨hold, -⟩
          · refine ⟨link, List.mem_cons_of_mem _ hmem, Or.inr ⟨first, List.mem_cons_self, ?_⟩⟩
            rw [← hkey]
            exact hne
          · exact ⟨link, List.mem_cons_of_mem _ hmem, Or.inl ⟨row, hold, hne⟩⟩
        · exact ⟨link, List.mem_cons_of_mem _ hmem,
            Or.inr ⟨other, List.mem_cons_of_mem _ hother, hne⟩⟩
      · cases h

/-- A record observes links of its own file only. -/
theorem linkObserved_unique (h : RecordStep v S Vacant s events s') {a b : FileLinkSnapshot}
    (ha : .linkObserved a ∈ events) (hb : .linkObserved b ∈ events) : a = b := by
  cases h with
  | create hname hreason hold hdelete hfree hnew hS hvacant hrun hid =>
    obtain ⟨-, rfl⟩ := canonicalEvents_observed hname hold hdelete hrun
    rw [eq_of_linkObserved ha, eq_of_linkObserved hb]
  | newName hname hreason hold hdelete hentry hfree hrun hid =>
    obtain ⟨-, rfl⟩ := canonicalEvents_observed hname hold hdelete hrun
    rw [eq_of_linkObserved ha, eq_of_linkObserved hb]
  | report hname hold hdelete hentry hfile hidle hrun =>
    obtain ⟨-, rfl⟩ := canonicalEvents_observed hname hold hdelete hrun
    rw [eq_of_linkObserved ha, eq_of_linkObserved hb]
  | oldName hname hold hentry hfile hidle hrun =>
    obtain ⟨-, rfl⟩ := canonicalEvents_old hname hold hrun
    cases ha
  | delete hname hreason hold hentry hfile hidle hrun =>
    obtain ⟨-, rfl⟩ := canonicalEvents_delete hname hold hreason hrun
    simp at ha

/-- As long as no entry appears at a place where a living entry was first seen,
existing entries have different identities, no observation takes over the
identity of another object's entry, and a graph that follows the events never
refuses one as a rebinding. -/
theorem usn_link_ids_unique {s₀ : JournalState} (hinj : Set.InjOn (placeLinkId v) S)
    (hroot : ∀ place ∈ S, placeLinkId v place ≠ rootLinkId v) (hstart : Crawled v S s₀) :
    (∀ s, JournalRun v S Vacant s₀ s → DistinctLinks s ∧
      ∀ events s', RecordStep v S Vacant s events s' → NeverRebinds v s events) ∧
    ∀ g₀ s g, GraphLinks v s₀ g₀ → Relation.ReflTransGen (FeedStep v S Vacant) (s₀, g₀) (s, g) →
      ∀ events s', RecordStep v S Vacant s events s' → ∀ gen affected,
        Graph.applyMutations gen g affected (events.map .ofEvent) ≠ .error Graph.reboundError := by
  refine ⟨fun s hrun => ?_, fun g₀ s g hgraph₀ hfeed events s' hstep gen affected herror => ?_⟩
  · have hinv := identityInvariant_run hstart hrun
    exact ⟨fun x y a b hx hy hid => Slot.named.inj (hinv.eq_of_linkId hinj hx hy hid),
      fun events s' hstep => neverRebinds_step hinv hinj hstep⟩
  · obtain ⟨hinv, hgraph⟩ := graphLinks_feed hstart hgraph₀ hfeed
    obtain ⟨link, hlink, ⟨row, hrow, hother⟩ | ⟨other, hsecond, hother⟩⟩ := rebound_of_events herror
    · rcases hgraph _ row hrow with hid | ⟨slot, e, he, hid, hkey⟩
      · obtain ⟨place, hS, hplace⟩ : ∃ place ∈ S, link.fileLinkId = placeLinkId v place := by
          rcases linkObserved_cases hinv hstep hlink with ⟨place, hS, -, hplace⟩ | ⟨slot, e, he, hid', -⟩
          · exact ⟨place, hS, hplace⟩
          · obtain ⟨horigin, hmem⟩ := hinv.origin slot e he
            exact ⟨e.origin, hmem, hid'.symm.trans horigin⟩
        exact hroot place hS (hplace.symm.trans hid)
      · exact hother (hkey.trans (neverRebinds_step hinv hinj hstep link hlink slot e he hid))
    · exact hother (by rw [linkObserved_unique hstep hsecond hlink])

end Invariant

section Example

open Graph (sampleVolume sampleObject)

def recordOf (fileReference : Nat) (name : String) (reason : BitVec 32) : SanitizedUsnRecord :=
  ⟨fileReference, 5, reason, name, false⟩

def nameIn (name : String) : Place := toLex (5, name)

/-- Process a record of the sample directory. -/
def processed (saved : WindowsCheckpoint) (record : SanitizedUsnRecord) :
    WindowsCheckpoint × List FilesystemEvent :=
  (canonicalEvents (.ok (.ok (.observed (sampleObject 7 .file)))) saved sampleVolume
    record).toOption.getD (saved, [])

def crawledEntry (fileReference : Nat) (name : String) : Entry :=
  ⟨fileReference, placeLinkId sampleVolume (nameIn name), nameIn name⟩

/-- A directory with the files `a` and `c`. -/
def crawledPair : JournalState :=
  ⟨.fresh, Function.update (Function.update (fun _ => none) (.named (nameIn "a"))
    (some (crawledEntry 7 "a"))) (.named (nameIn "c")) (some (crawledEntry 9 "c"))⟩

theorem crawledPair_crawled : Crawled sampleVolume {nameIn "a", nameIn "c"} crawledPair := by
  refine ⟨rfl, fun f => rfl, fun place e he => ?_⟩
  simp only [crawledPair, Function.update_apply, Slot.named.injEq] at he
  split_ifs at he with hc ha
  · subst hc
    obtain rfl := Option.some.inj he
    exact ⟨rfl, rfl, Or.inr rfl⟩
  · subst ha
    obtain rfl := Option.some.inj he
    exact ⟨rfl, rfl, Or.inl rfl⟩

def oldA : SanitizedUsnRecord := recordOf 7 "a" reasonRenameOldName
def newB : SanitizedUsnRecord := recordOf 7 "b" reasonRenameNewName

/-- The file `a` between its names. -/
def movingA : JournalState :=
  ⟨(processed .fresh oldA).1, Function.update (Function.update crawledPair.holders
    (.named (nameIn "a")) none) (.moving 7) (some (crawledEntry 7 "a"))⟩

/-- It is called `b` now, under the identity of `a`. -/
def renamedB : JournalState :=
  ⟨(processed movingA.saved newB).1, Function.update (Function.update movingA.holders (.moving 7)
    none) (.named (nameIn "b")) (some { crawledEntry 7 "a" with
      linkId := placeLinkId sampleVolume (nameIn "a") })⟩

theorem renamedB_run {C : JournalState → Place → Prop} :
    JournalRun sampleVolume {nameIn "a", nameIn "c"} C crawledPair renamedB := by
  have hold : RecordStep sampleVolume {nameIn "a", nameIn "c"} C crawledPair
      (processed .fresh oldA).2 movingA :=
    @RecordStep.oldName _ _ _ _ _ _ oldA (sampleObject 7 .file) _ rfl (by decide) rfl rfl rfl
      (by decide +kernel)
  have hnew : RecordStep sampleVolume {nameIn "a", nameIn "c"} C movingA
      (processed movingA.saved newB).2 renamedB :=
    @RecordStep.newName _ _ _ _ _ _ newB (sampleObject 7 .file) _ _ rfl (by decide) (by decide)
      (by decide) rfl rfl (by decide +kernel) (by decide +kernel)
  exact (Relation.ReflTransGen.single ⟨_, hold⟩).tail ⟨_, hnew⟩

def createA : SanitizedUsnRecord := recordOf 8 "a" reasonFileCreate

/-- Another file takes the name `a`. -/
def recreatedA : JournalState :=
  ⟨(processed renamedB.saved createA).1, Function.update renamedB.holders (.named (nameIn "a"))
    (some (crawledEntry 8 "a"))⟩

theorem sampleNames_injOn : Set.InjOn (placeLinkId sampleVolume) {nameIn "a", nameIn "c"} := by
  have hne : placeLinkId sampleVolume (nameIn "a") ≠ placeLinkId sampleVolume (nameIn "c") := by
    decide +kernel
  rintro x (rfl | rfl) y (rfl | rfl) hxy
  · rfl
  · exact absurd hxy hne
  · exact absurd hxy.symm hne
  · rfl

theorem sampleNames_root {place : Place} (h : place ∈ ({nameIn "a", nameIn "c"} : Set Place)) :
    placeLinkId sampleVolume place ≠ rootLinkId sampleVolume := by
  rcases h with rfl | rfl <;> decide +kernel

theorem renamedB_holders {slot : Slot} {e : Entry} (h : renamedB.holders slot = some e) :
    slot = .named (nameIn "b") ∧ e = crawledEntry 7 "a" ∨
      slot = .named (nameIn "c") ∧ e = crawledEntry 9 "c" := by
  simp only [renamedB, movingA, crawledPair, Function.update_apply] at h
  split_ifs at h with hb _ _ hc
  · exact Or.inl ⟨hb, (Option.some.inj h).symm⟩
  · exact Or.inr ⟨hc, (Option.some.inj h).symm⟩

/-- A file that takes the freed name of a renamed one also takes its identity. -/
theorem recreatedName_shares_id :
    ¬ ∀ (v : VolumeId) (S : Set Place) (s₀ s : JournalState), Set.InjOn (placeLinkId v) S →
      (∀ place ∈ S, placeLinkId v place ≠ rootLinkId v) → Crawled v S s₀ →
      JournalRun v S (fun _ _ => True) s₀ s → DistinctLinks s := by
  intro hclaim
  have hcreate : RecordStep sampleVolume {nameIn "a", nameIn "c"} (fun _ _ => True) renamedB
      (processed renamedB.saved createA).2 recreatedA := by
    refine @RecordStep.create _ _ _ _ _ _ createA (sampleObject 7 .file) _ rfl (by decide) (by decide)
      (by decide) rfl (fun slot e he => ?_) (Or.inl rfl) trivial (by decide +kernel)
      (by decide +kernel)
    rcases renamedB_holders he with ⟨-, rfl⟩ | ⟨-, rfl⟩ <;> decide
  have hdistinct := hclaim sampleVolume {nameIn "a", nameIn "c"} crawledPair recreatedA
    sampleNames_injOn (fun _ => sampleNames_root) crawledPair_crawled
    (renamedB_run.tail ⟨_, hcreate⟩)
  have hsame : nameIn "a" = nameIn "b" :=
    hdistinct _ _ (crawledEntry 8 "a") (crawledEntry 7 "a") rfl rfl rfl
  exact absurd hsame (by decide)

def deleteC : SanitizedUsnRecord := recordOf 9 "c" reasonFileDelete
def createC : SanitizedUsnRecord := recordOf 8 "c" reasonFileCreate

def deletedC : JournalState :=
  ⟨(processed renamedB.saved deleteC).1, Function.update renamedB.holders (.named (nameIn "c")) none⟩

/-- The name of a deleted file is free for another one. -/
def recreatedC : JournalState :=
  ⟨(processed deletedC.saved createC).1, Function.update deletedC.holders (.named (nameIn "c"))
    (some (crawledEntry 8 "c"))⟩

theorem deletedC_holders {slot : Slot} {e : Entry} (h : deletedC.holders slot = some e) :
    e = crawledEntry 7 "a" := by
  simp only [deletedC, Function.update_apply] at h
  split_ifs at h with hc
  rcases renamedB_holders h with ⟨-, rfl⟩ | ⟨rfl, -⟩
  · rfl
  · exact absurd rfl hc

theorem recreatedC_run :
    JournalRun sampleVolume {nameIn "a", nameIn "c"} Vacant crawledPair recreatedC := by
  have hdelete : RecordStep sampleVolume {nameIn "a", nameIn "c"} Vacant renamedB
      (processed renamedB.saved deleteC).2 deletedC :=
    @RecordStep.delete _ _ _ _ _ _ deleteC (sampleObject 7 .file) _ rfl (by decide) (by decide) rfl rfl
      rfl (by decide +kernel)
  have hcreate : RecordStep sampleVolume {nameIn "a", nameIn "c"} Vacant deletedC
      (processed deletedC.saved createC).2 recreatedC := by
    refine @RecordStep.create _ _ _ _ _ _ createC (sampleObject 7 .file) _ rfl (by decide) (by decide)
      (by decide) rfl (fun slot e he => ?_) (Or.inr rfl) (fun slot e he => ?_) (by decide +kernel)
      (by decide +kernel)
    · rw [deletedC_holders he]
      decide
    · rw [deletedC_holders he]
      decide
  exact (renamedB_run.tail ⟨_, hdelete⟩).tail ⟨_, hcreate⟩

/-- The renamed file and the new one have different identities. -/
theorem recreatedC_distinct :
    recreatedC.holders (.named (nameIn "b")) = some (crawledEntry 7 "a") ∧
      recreatedC.holders (.named (nameIn "c")) = some (crawledEntry 8 "c") ∧
      DistinctLinks recreatedC ∧ ∀ events s',
        RecordStep sampleVolume {nameIn "a", nameIn "c"} Vacant recreatedC events s' →
        NeverRebinds sampleVolume recreatedC events :=
  ⟨rfl, rfl, (usn_link_ids_unique sampleNames_injOn (fun _ => sampleNames_root)
    crawledPair_crawled).1 recreatedC recreatedC_run⟩

end Example

end LocalSearch.Windows
