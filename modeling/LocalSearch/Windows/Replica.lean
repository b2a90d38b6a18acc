import LocalSearch.Windows.Admissible
import LocalSearch.Windows.CrawlRun

/-!
# What the records told

The names in the graph and the maps a provider keeps are read off the records
alone. Every record is either admitted by what the ones before it told, or its
batch is rejected.
-/
namespace LocalSearch.Windows

set_option autoImplicit false

open Core Lib Graph

namespace SanitizedUsnRecord

def removes (record : SanitizedUsnRecord) : Bool :=
  !record.has reasonRenameOldName && record.has reasonFileDelete

/-- The place is looked up. -/
def looks (record : SanitizedUsnRecord) : Bool :=
  !record.has reasonRenameOldName && !record.has reasonFileDelete

/-- A link is told, even if it is missing by now. -/
def announces (record : SanitizedUsnRecord) (lookup : ObjectLookup) : Bool :=
  record.looks && lookup != .unavailable && record.has (reasonFileCreate ||| reasonRenameNewName)

/-- An object is told. -/
def describes (record : SanitizedUsnRecord) (lookup : ObjectLookup) : Bool :=
  record.looks && lookup.isObserved &&
    record.has (reasonFileCreate ||| reasonBasicInfoChange ||| reasonDataChange)

end SanitizedUsnRecord

/-- The maps behind a record. -/
def WindowsCheckpoint.follow (saved : WindowsCheckpoint) (v : VolumeId) (record : SanitizedUsnRecord) :
    WindowsCheckpoint :=
  if record.has reasonRenameOldName then
    rememberRename (forgetKnownLink saved record.place) record.fileReference
      (pathLinkId saved v record.place)
  else if record.has reasonFileDelete then forgetKnownLink (assignLinkId saved v record).1 record.place
  else (assignLinkId saved v record).1

/-- The names in the graph and the maps its next record is read with. -/
structure Replica where
  saved : WindowsCheckpoint
  names : Names

namespace Replica

variable (v : VolumeId) (r : Replica) (record : SanitizedUsnRecord) (lookup : ObjectLookup)

/-- What was told once the record is. -/
def tell : Replica where
  saved := r.saved.follow v record
  names := {
    links :=
      if record.removes then Function.update r.names.links (assignLinkId r.saved v record).2 none
      else if record.announces lookup then
        Function.update r.names.links (assignLinkId r.saved v record).2
          (some (storedLink (observedLink v record (assignLinkId r.saved v record).2) false))
      else r.names.links
    known := fun key => r.names.known key ∨
      record.describes lookup = true ∧ key = fileKey v record.fileReference }

/-- The record fits what was told before it. -/
structure Fits : Prop where
  size : record.describes lookup = true → ∀ object, lookup = .observed object →
    object.metadata.size < 2 ^ 63
  observed : record.announces lookup = true → record.describes lookup = true ∨
    r.names.known (fileKey v record.fileReference)
  own : record.announces lookup = true ∨ record.removes = true → ∀ link,
    r.names.links (assignLinkId r.saved v record).2 = some link →
      link.objectKey = fileKey v record.fileReference
  place : record.announces lookup = true → ∀ id link, r.names.links id = some link →
    link.name = record.name → link.parentKey = some (fileKey v record.parentReference) →
      id = (assignLinkId r.saved v record).2
  deleted : record.removes = true → r.names.known (fileKey v record.fileReference) ∧
    ∀ id link, r.names.links id = some link → link.objectKey = fileKey v record.fileReference →
      id = (assignLinkId r.saved v record).2

def read (entry : JournalEntry) : Replica := r.tell v entry.1.toSanitizedUsnRecord (lookupOf entry.2)

def readAll (entries : List JournalEntry) : Replica := entries.foldl (read v) r

/-- Every record fits what the ones before it told. -/
def FitAll (v : VolumeId) : Replica → List JournalEntry → Prop
  | _, [] => True
  | r, entry :: rest => r.Fits v entry.1.toSanitizedUsnRecord (lookupOf entry.2) ∧
      FitAll v (r.read v entry) rest

/-- Every link is stored under its identity. -/
def Stored (r : Replica) : Prop := ∀ id link, r.names.links id = some link → link.fileLinkId = id

end Replica

section Record

variable {v : VolumeId} {r : Replica} {record : SanitizedUsnRecord} {lookup : ObjectLookup}
  {saved' : WindowsCheckpoint} {id : FileLinkId} {key : FileKey}

theorem Replica.fitAll_append {a b : List JournalEntry} :
    r.FitAll v (a ++ b) ↔ r.FitAll v a ∧ (r.readAll v a).FitAll v b := by
  induction a generalizing r with
  | nil => exact (and_iff_right trivial).symm
  | cons entry a ih =>
    rw [List.cons_append, Replica.FitAll, Replica.FitAll, ih, and_assoc]
    rfl

theorem Replica.Stored.tell (hstored : r.Stored) : (r.tell v record lookup).Stored := by
  intro id link hlink
  unfold Replica.tell at hlink
  dsimp only at hlink
  split_ifs at hlink
  · rw [Function.update_apply] at hlink
    split_ifs at hlink
    exact hstored id link hlink
  · rw [Function.update_apply] at hlink
    split_ifs at hlink with hid
    · rw [hid, ← Option.some.inj hlink]
      rfl
    · exact hstored id link hlink
  · exact hstored id link hlink

theorem Replica.Stored.admits_remove (hstored : r.Stored) :
    r.names.Admits (.removeLink id key) ↔
      ∀ link, r.names.links id = some link → link.objectKey = key := by
  constructor
  · rintro ⟨-, hlinks⟩ link hlink
    exact hlinks id link hlink (hstored id link hlink)
  · intro h
    refine ⟨trivial, fun id' link hlink hid => ?_⟩
    rw [hstored id' link hlink] at hid
    exact h link (hid ▸ hlink)

theorem Replica.Stored.admits_link (hstored : r.Stored) :
    r.names.Admits (.upsertLink (observedLink v record id) false) ↔
      r.names.known (fileKey v record.fileReference) ∧
      (∀ link, r.names.links id = some link → link.objectKey = fileKey v record.fileReference) ∧
      ∀ id' link, r.names.links id' = some link → link.name = record.name →
        link.parentKey = some (fileKey v record.parentReference) → id' = id := by
  refine and_congr_right fun _ => ⟨fun h => ⟨fun link hlink => ?_, fun id' link hlink hname hparent => ?_⟩,
    ?_⟩
  · have hadmits : if link.fileLinkId = id then link.objectKey = fileKey v record.fileReference
      else _ := h id link hlink
    rw [if_pos (hstored id link hlink)] at hadmits
    exact hadmits
  · by_contra hne
    have hadmits : if link.fileLinkId = id then _ else _ := h id' link hlink
    rw [hstored id' link hlink, if_neg hne] at hadmits
    exact hadmits ⟨hname, hparent, fun hnone => by cases hnone⟩
  · rintro ⟨hown, hplace⟩ id' link hlink
    show if link.fileLinkId = id then _ else _
    rw [hstored id' link hlink]
    split_ifs with hid
    · exact hown link (hid ▸ hlink)
    · rintro ⟨hname, hparent, -⟩
      exact hid (hplace id' link hlink hname hparent)

/-- The mutations of a record are admitted exactly if it fits, and then the graph
holds what was told. -/
structure Replica.Carries (v : VolumeId) (r : Replica) (record : SanitizedUsnRecord)
    (lookup : ObjectLookup) (saved' : WindowsCheckpoint) (mutations : List GraphMutation) : Prop where
  accepts : r.names.Accepts mutations ↔ r.Fits v record lookup
  told : ⟨saved', mutations.foldl Names.apply r.names⟩ = r.tell v record lookup
  volume : ∀ m ∈ mutations, m.InVolume v

/-- The first record of a rename tells nothing. -/
theorem Replica.carries_old (hold : record.has reasonRenameOldName = true) :
    r.Carries v record lookup (rememberRename (forgetKnownLink r.saved record.place)
      record.fileReference (pathLinkId r.saved v record.place)) [] := by
  have hremoves : record.removes = false := by simp [SanitizedUsnRecord.removes, hold]
  have hlooks : record.looks = false := by simp [SanitizedUsnRecord.looks, hold]
  have hannounces : record.announces lookup = false := by simp [SanitizedUsnRecord.announces, hlooks]
  have hdescribes : record.describes lookup = false := by simp [SanitizedUsnRecord.describes, hlooks]
  refine ⟨iff_of_true trivial ?_, ?_, by simp⟩
  · refine ⟨?_, ?_, ?_, ?_, ?_⟩ <;> simp [hremoves, hannounces, hdescribes]
  · unfold Replica.tell WindowsCheckpoint.follow
    simp [hold, hremoves, hannounces, hdescribes]

theorem Replica.carries_deletion (hstored : r.Stored) (hold : record.has reasonRenameOldName = false)
    (hdelete : record.has reasonFileDelete = true) :
    r.Carries v record lookup (forgetKnownLink (assignLinkId r.saved v record).1 record.place)
      [.removeLink (assignLinkId r.saved v record).2 (fileKey v record.fileReference),
        .tombstoneObject (fileKey v record.fileReference)] := by
  have hremoves : record.removes = true := by simp [SanitizedUsnRecord.removes, hold, hdelete]
  have hlooks : record.looks = false := by simp [SanitizedUsnRecord.looks, hdelete]
  have hannounces : record.announces lookup = false := by simp [SanitizedUsnRecord.announces, hlooks]
  have hdescribes : record.describes lookup = false := by simp [SanitizedUsnRecord.describes, hlooks]
  refine ⟨?_, ?_, by simp [GraphMutation.InVolume, fileKey]⟩
  · rw [Names.Accepts, Names.Accepts, hstored.admits_remove]
    have hothers : (r.names.apply (.removeLink (assignLinkId r.saved v record).2
        (fileKey v record.fileReference))).Admits (.tombstoneObject (fileKey v record.fileReference)) ↔
        r.names.known (fileKey v record.fileReference) ∧ ∀ id link, r.names.links id = some link →
          link.objectKey = fileKey v record.fileReference → id = (assignLinkId r.saved v record).2 := by
      refine and_congr (or_iff_left not_false) ⟨fun h id link hlink hkey => ?_, fun h id link hlink => ?_⟩
      · by_contra hne
        have hkept : Function.update r.names.links (assignLinkId r.saved v record).2 none id = some link := by
          rw [Function.update_of_ne hne]
          exact hlink
        exact h id link hkept hkey
      · replace hlink : Function.update r.names.links (assignLinkId r.saved v record).2 none id =
          some link := hlink
        rw [Function.update_apply] at hlink
        split_ifs at hlink with hid
        exact fun hkey => hid (h id link hlink hkey)
    rw [hothers]
    constructor
    · rintro ⟨hown, hdeleted, -⟩
      refine ⟨?_, ?_, fun _ => hown, ?_, fun _ => hdeleted⟩ <;> simp [hannounces, hdescribes]
    · intro hfits
      exact ⟨hfits.own (.inr hremoves), hfits.deleted hremoves, trivial⟩
  · unfold Replica.tell WindowsCheckpoint.follow
    simp [hold, hdelete, hremoves, hdescribes, Names.apply, GraphMutation.Observes,
      GraphMutation.linkWrites, replay]

/-- The object a record whose place is looked up tells. -/
def toldObject (record : SanitizedUsnRecord) (lookup : ObjectLookup) : List GraphMutation :=
  match lookup with
  | .observed object => if record.describes lookup then [.upsertObject object] else []
  | .missing | .unavailable => []

def toldLink (v : VolumeId) (record : SanitizedUsnRecord) (id : FileLinkId) (lookup : ObjectLookup) :
    List GraphMutation :=
  if record.announces lookup then [.upsertLink (observedLink v record id) false] else []

theorem observedEvents_told (hlooks : record.looks = true)
    (hplain : record.has reasonHardLinkChange = false) :
    (observedEvents record (observedLink v record id) lookup).map GraphMutation.ofEvent =
      toldObject record lookup ++ toldLink v record id lookup := by
  unfold observedEvents toldObject toldLink SanitizedUsnRecord.describes SanitizedUsnRecord.announces
  rw [hplain, hlooks]
  cases lookup with
  | unavailable => simp
  | missing =>
    cases record.has (reasonFileCreate ||| reasonRenameNewName) <;>
      simp [GraphMutation.ofEvent]
  | observed object =>
    cases record.has (reasonFileCreate ||| reasonBasicInfoChange ||| reasonDataChange) <;>
      cases record.has (reasonFileCreate ||| reasonRenameNewName) <;>
        simp [GraphMutation.ofEvent, ObjectLookup.isObserved]

/-- The names once the object is told. -/
def describedNames (v : VolumeId) (names : Names) (record : SanitizedUsnRecord) (lookup : ObjectLookup) :
    Names where
  links := names.links
  known key := names.known key ∨ record.describes lookup = true ∧ key = fileKey v record.fileReference

theorem toldObject_accepts (names : Names) : names.Accepts (toldObject record lookup) ↔
    (record.describes lookup = true → ∀ object, lookup = .observed object →
      object.metadata.size < 2 ^ 63) := by
  cases lookup with
  | missing | unavailable => simp [toldObject, Names.Accepts]
  | observed object =>
    unfold toldObject
    cases record.describes (.observed object) <;>
      simp [Names.Accepts, Names.Admits, GraphMutation.Needs, GraphMutation.Admits]

theorem toldObject_names (names : Names)
    (hkey : ∀ object, lookup = .observed object → object.objectKey = fileKey v record.fileReference) :
    (toldObject record lookup).foldl Names.apply names = describedNames v names record lookup := by
  unfold describedNames
  cases lookup with
  | missing | unavailable =>
    simp [toldObject, SanitizedUsnRecord.describes, ObjectLookup.isObserved]
  | observed object =>
    unfold toldObject
    cases record.describes (.observed object) <;>
      simp [Names.apply, GraphMutation.linkWrites, GraphMutation.Observes, replay, hkey object rfl,
        eq_comm]

theorem Replica.carries_told (hstored : r.Stored) (hlooks : record.looks = true)
    (hkey : ∀ object, lookup = .observed object → object.objectKey = fileKey v record.fileReference) :
    r.Carries v record lookup (assignLinkId r.saved v record).1
      (toldObject record lookup ++ toldLink v record (assignLinkId r.saved v record).2 lookup) := by
  have hflags : record.has reasonRenameOldName = false ∧ record.has reasonFileDelete = false := by
    unfold SanitizedUsnRecord.looks at hlooks
    simpa using hlooks
  have hremoves : record.removes = false := by simp [SanitizedUsnRecord.removes, hflags.2]
  have hstored₁ : Replica.Stored ⟨r.saved, describedNames v r.names record lookup⟩ := hstored
  refine ⟨?_, ?_, fun m hm => ?_⟩
  · rw [Names.accepts_append, toldObject_accepts, toldObject_names r.names hkey, toldLink]
    cases hannounces : record.announces lookup with
    | false =>
      refine ⟨fun h => ⟨h.1, ?_, ?_, ?_, ?_⟩, fun hfits => ⟨hfits.size, trivial⟩⟩ <;>
        simp [hannounces, hremoves]
    | true =>
      rw [if_pos rfl, Names.Accepts, hstored₁.admits_link]
      constructor
      · rintro ⟨hsize, ⟨hknown, hown, hplace⟩, -⟩
        refine ⟨hsize, fun _ => ?_, fun _ => hown, fun _ => hplace, fun h => ?_⟩
        · exact hknown.symm.imp_left And.left
        · rw [hremoves] at h
          cases h
      · intro hfits
        refine ⟨hfits.size, ⟨?_, hfits.own (.inl hannounces), hfits.place hannounces⟩, trivial⟩
        exact (hfits.observed hannounces).symm.imp_right fun hdescribes => ⟨hdescribes, rfl⟩
  · rw [List.foldl_append, toldObject_names r.names hkey, toldLink]
    unfold Replica.tell WindowsCheckpoint.follow
    rw [hflags.1, hflags.2, hremoves]
    cases record.announces lookup <;>
      simp [describedNames, Names.apply, GraphMutation.linkWrites, GraphMutation.Observes, replay,
        observedLink, storedLink]
  · rcases List.mem_append.mp hm with hm | hm
    · cases lookup with
      | missing | unavailable => cases hm
      | observed object =>
        unfold toldObject at hm
        split_ifs at hm with hdescribes
        · rw [List.mem_singleton.mp hm]
          show object.objectKey.volumeId = v
          rw [hkey object rfl]
          rfl
        · cases hm
    · unfold toldLink at hm
      split_ifs at hm
      · rw [List.mem_singleton.mp hm]
        simp [GraphMutation.InVolume, observedLink, fileKey]
      · cases hm

/-- What a record of a legal history tells. -/
theorem Replica.carries {answer : MetadataAnswer} {events : List FilesystemEvent} (hstored : r.Stored)
    (hname : record.hadInvalidUtf16 = false) (hplain : record.has reasonHardLinkChange = false)
    (hlookup : lookupObject answer = .ok lookup)
    (hkey : ∀ object, lookup = .observed object → object.objectKey = fileKey v record.fileReference)
    (h : canonicalEvents answer r.saved v record = .ok (saved', events)) :
    r.Carries v record lookup saved' (events.map GraphMutation.ofEvent) := by
  cases hold : record.has reasonRenameOldName with
  | true =>
    obtain ⟨rfl, rfl⟩ := canonicalEvents_old hname hold h
    exact Replica.carries_old hold
  | false =>
    cases hdelete : record.has reasonFileDelete with
    | true =>
      obtain ⟨rfl, rfl⟩ := canonicalEvents_delete hname hold hdelete h
      exact Replica.carries_deletion hstored hold hdelete
    | false =>
      obtain ⟨looked, hlooked, rfl, rfl⟩ := canonicalEvents_looked hname hold hdelete h
      obtain rfl := Except.ok.inj (hlookup.symm.trans hlooked)
      have hlooks : record.looks = true := by simp [SanitizedUsnRecord.looks, hold, hdelete]
      rw [observedEvents_told hlooks hplain]
      exact Replica.carries_told hstored hlooks hkey

end Record

def Namespace.space (ns : Namespace) : NameSpace Place Nat :=
  ⟨fun place => ns (.named place), fun file => ns (.moving file) = some file⟩

/-- The entry a link of the volume stands for; that of the root stands for none. -/
def entryOf (v : VolumeId) (link : StoredLink) : Option (Place × Nat) :=
  match link.parentKey with
  | some parent =>
      if link.objectKey.volumeId = v ∧ parent.volumeId = v then
        some (toLex (fileReferenceOf parent, link.name), fileReferenceOf link.objectKey)
      else none
  | none => none

def Replica.listing (v : VolumeId) (r : Replica) : Listing Place Nat FileLinkId where
  held id := (r.names.links id).bind (entryOf v)
  carried := knownLinkId r.saved
  pending := r.saved.pendingRenames.get

/-- The record is of an entry that is there and tells no link. -/
def quietRecord (record : SanitizedUsnRecord) (lookup : ObjectLookup) : NameChange Place Nat → Bool
  | .report _ _ => !record.announces lookup
  | .create _ _ | .leave _ _ | .arrive _ _ | .delete _ _ => false

/-- What a record did and whether its entry is told. -/
def noticeOf (record : SanitizedUsnRecord) (lookup : ObjectLookup) (c : NameChange Place Nat) :
    Option (Notice Place Nat) :=
  if quietRecord record lookup c then none else some (c, lookup != .unavailable)

section Listing

variable {v : VolumeId} {root : Nat} {r : Replica} {ns ns' : Namespace} {record : SanitizedUsnRecord}
  {lookup : ObjectLookup} {link : StoredLink} {place : Place} {file : Nat}

theorem entryLink_of_entryOf (h : entryOf v link = some (place, file)) : EntryLink v place file link := by
  unfold entryOf at h
  cases hparent : link.parentKey with
  | none =>
    rw [hparent] at h
    cases h
  | some parent =>
    rw [hparent] at h
    dsimp only at h
    split_ifs at h with hvolume
    obtain ⟨rfl, rfl⟩ := Prod.mk.inj (Option.some.inj h)
    refine ⟨(fileKey_fileReferenceOf hvolume.1).symm, ?_, rfl⟩
    rw [hparent]
    exact congrArg some (fileKey_fileReferenceOf hvolume.2).symm

theorem entryOf_of_entryLink (hplace : (ofLex place).1 < 2 ^ 64) (hfile : file < 2 ^ 64)
    (h : EntryLink v place file link) : entryOf v link = some (place, file) := by
  unfold entryOf
  rw [h.parent, h.object, h.name]
  dsimp only
  rw [if_pos ⟨rfl, rfl⟩, fileReferenceOf_fileKey hplace, fileReferenceOf_fileKey hfile]
  rfl

theorem space_named (q : Place) (o : Option Nat) :
    Namespace.space (Function.update ns (.named q) o) =
      ⟨Function.update ns.space.named q o, ns.space.moving⟩ := by
  refine congrArg₂ NameSpace.mk (funext fun p => ?_) (funext fun f => ?_)
  · rw [Function.update_apply, Function.update_apply]
    by_cases hp : p = q
    · rw [if_pos hp, if_pos (congrArg _ hp)]
    · rw [if_neg hp, if_neg fun h => hp (Slot.named.inj h)]
      rfl
  · rw [Function.update_of_ne (by simp)]
    rfl

theorem space_moving (f : Nat) (o : Option Nat) :
    Namespace.space (Function.update ns (.moving f) o) =
      ⟨ns.space.named, fun g => if g = f then o = some f else ns.space.moving g⟩ := by
  refine congrArg₂ NameSpace.mk (funext fun p => Function.update_of_ne (by simp) _ _)
    (funext fun g => ?_)
  rw [Function.update_apply]
  by_cases hg : g = f
  · rw [if_pos hg, if_pos (congrArg _ hg), hg]
  · rw [if_neg hg, if_neg fun h => hg (Slot.moving.inj h)]
    rfl

/-- The flags of a record, and what it did. A file that is told of under its new name
again is idle. -/
inductive ChangeFlags (record : SanitizedUsnRecord) (idle : Prop) : NameChange Place Nat → Prop
  | leave (hold : record.has reasonRenameOldName = true) :
      ChangeFlags record idle (.leave record.place record.fileReference)
  | delete (hold : record.has reasonRenameOldName = false) (hdelete : record.has reasonFileDelete = true)
      (hidle : record.has reasonRenameNewName = true → idle) :
      ChangeFlags record idle (.delete record.place record.fileReference)
  | arrive (hold : record.has reasonRenameOldName = false)
      (hdelete : record.has reasonFileDelete = false) (hnew : record.has reasonRenameNewName = true) :
      ChangeFlags record idle (.arrive record.place record.fileReference)
  | create (hold : record.has reasonRenameOldName = false)
      (hdelete : record.has reasonFileDelete = false) (hnew : record.has reasonRenameNewName = false)
      (hcreate : record.has reasonFileCreate = true) :
      ChangeFlags record idle (.create record.place record.fileReference)
  | report (hold : record.has reasonRenameOldName = false)
      (hdelete : record.has reasonFileDelete = false)
      (hidle : record.has reasonRenameNewName = true → idle) :
      ChangeFlags record idle (.report record.place record.fileReference)

theorem ChangeFlags.imp {p q : Prop} {c : NameChange Place Nat} (h : ChangeFlags record p c) (hpq : p → q) :
    ChangeFlags record q c := by
  cases h with
  | leave hold => exact .leave hold
  | delete hold hdelete hidle => exact .delete hold hdelete fun hnew => hpq (hidle hnew)
  | arrive hold hdelete hnew => exact .arrive hold hdelete hnew
  | create hold hdelete hnew hcreate => exact .create hold hdelete hnew hcreate
  | report hold hdelete hidle => exact .report hold hdelete fun hnew => hpq (hidle hnew)

theorem not_moving_of_none (hidle : ns (.moving file) = none) : ¬ ns.space.moving file := by
  intro h
  have hmoving : ns (.moving file) = some file := h
  rw [hidle] at hmoving
  cases hmoving

/-- A legal record is a legal change. -/
theorem legalRecord_change (h : LegalRecord root ns record ns')
    (hplain : record.has reasonHardLinkChange = false) :
    ChangeFlags record (¬ ns.space.moving record.fileReference) (ns.changeBy record) ∧
      ns.space.Legal (ns.changeBy record) ∧ ns'.space = ns.space.change (ns.changeBy record) := by
  cases h with
  | create hname hreason hrename hdelete hfree hnew =>
    rw [has_or] at hrename
    obtain ⟨hold, hnewName⟩ := Bool.or_eq_false_iff.mp hrename
    have hchange : ns.changeBy record = .create record.place record.fileReference := by
      simp [Namespace.changeBy, hold, hdelete, hfree, hnewName]
    rw [hchange]
    exact ⟨.create hold hdelete hnewName hreason, ⟨hfree, hnew.2 _, fun p => hnew.2 _⟩, space_named _ _⟩
  | oldName hname hreason hentry hidle =>
    have hchange : ns.changeBy record = .leave record.place record.fileReference := by
      simp [Namespace.changeBy, hreason]
    rw [hchange]
    refine ⟨.leave hreason, ⟨hentry, not_moving_of_none hidle⟩, ?_⟩
    rw [space_moving, space_named]
    refine congrArg (NameSpace.mk _) (funext fun g => ?_)
    by_cases hg : g = record.fileReference <;> simp [hg]
  | newName hname hreason hdelete hmoving hfree =>
    rw [has_or] at hdelete
    obtain ⟨hdelete, hold⟩ := Bool.or_eq_false_iff.mp hdelete
    have hchange : ns.changeBy record = .arrive record.place record.fileReference := by
      simp [Namespace.changeBy, hold, hdelete, hfree, hreason]
    rw [hchange]
    refine ⟨.arrive hold hdelete hreason, ⟨hfree, hmoving⟩, ?_⟩
    rw [space_named, space_moving]
    refine congrArg (NameSpace.mk _) (funext fun g => ?_)
    by_cases hg : g = record.fileReference <;> simp [hg]
  | delete hname hreason hold hentry honly =>
    have hchange : ns.changeBy record = .delete record.place record.fileReference := by
      simp [Namespace.changeBy, hold, hreason]
    rw [hchange]
    refine ⟨.delete hold hreason fun _ hmoving => ?_, ⟨hentry, fun p hp => Slot.named.inj (honly _ hp)⟩,
      space_named _ _⟩
    cases honly _ hmoving
  | link hname hreason =>
    rw [hplain] at hreason
    cases hreason
  | unlink hname hreason =>
    rw [hplain] at hreason
    cases hreason
  | unlinked hname hreason =>
    rw [hplain] at hreason
    cases hreason
  | report hname hother hentry hidle =>
    rw [has_or] at hother
    obtain ⟨hdelete, hold⟩ := Bool.or_eq_false_iff.mp hother
    have hchange : ns.changeBy record = .report record.place record.fileReference := by
      simp [Namespace.changeBy, hold, hdelete, hentry]
    rw [hchange]
    exact ⟨.report hold hdelete fun hnew => not_moving_of_none (hidle hnew), hentry, rfl⟩

/-- The link a record tells stands for its entry. -/
theorem entryOf_observedLink (hfile : record.fileReference < 2 ^ 64)
    (hparent : record.parentReference < 2 ^ 64) (id : FileLinkId) :
    entryOf v (storedLink (observedLink v record id) false) =
      some (record.place, record.fileReference) :=
  entryOf_of_entryLink hparent hfile ⟨rfl, rfl, rfl⟩

theorem entryOf_file (h : entryOf v link = some (place, file)) :
    file = fileReferenceOf link.objectKey := by
  unfold entryOf at h
  split at h
  · split_ifs at h
    exact (Prod.mk.inj (Option.some.inj h)).2.symm
  · cases h

theorem assignLinkId_named (hnew : record.has reasonRenameNewName = true) :
    (assignLinkId r.saved v record).2 =
      (r.saved.pendingRenames.get record.fileReference).getD (pathLinkId r.saved v record.place) := by
  unfold assignLinkId
  rw [hnew]
  rfl

theorem announces_eq (hlooks : record.looks = true)
    (hreason : record.has (reasonFileCreate ||| reasonRenameNewName) = true) :
    record.announces lookup = (lookup != .unavailable) := by
  unfold SanitizedUsnRecord.announces
  rw [hlooks, hreason, Bool.true_and, Bool.and_true]

theorem listing_own {id : FileLinkId} (hfile : record.fileReference < 2 ^ 64)
    (hown : ∀ link, r.names.links id = some link → link.objectKey = fileKey v record.fileReference)
    {p : Place} {g : Nat} (hheld : (r.listing v).held id = some (p, g)) : g = record.fileReference := by
  obtain ⟨link, hlink, hentry⟩ := Option.bind_eq_some_iff.mp hheld
  rw [entryOf_file hentry, hown link hlink, fileReferenceOf_fileKey hfile]

/-- A told link that fits the graph fits its listing. -/
theorem Replica.Fits.admits (hfile : record.fileReference < 2 ^ 64) (hfits : r.Fits v record lookup)
    (hannounces : record.announces lookup = true) :
    (r.listing v).Admits (assignLinkId r.saved v record).2 record.place record.fileReference := by
  refine ⟨fun p g hheld => listing_own hfile (hfits.own (.inl hannounces)) hheld, fun x g hheld => ?_⟩
  obtain ⟨link, hlink, hentry⟩ := Option.bind_eq_some_iff.mp hheld
  have hlinked := entryLink_of_entryOf hentry
  exact hfits.place hannounces x link hlink hlinked.name hlinked.parent

/-- The place of the record is known by the identity it goes by. -/
def Replica.settle (v : VolumeId) (r : Replica) (record : SanitizedUsnRecord) : Replica :=
  ⟨(assignLinkId r.saved v record).1, r.names⟩

theorem assignLinkId_idle
    (hidle : record.has reasonRenameNewName = true → (r.listing v).pending record.fileReference = none) :
    (assignLinkId r.saved v record).2 = (r.listing v).path (placeLinkId v) record.place := by
  cases hnew : record.has reasonRenameNewName with
  | false =>
    rw [assignLinkId_unrenamed hnew]
    rfl
  | true =>
    have hnone : r.saved.pendingRenames.get record.fileReference = none := hidle hnew
    rw [assignLinkId_named hnew, hnone]
    rfl

theorem Replica.settle_listing
    (hidle : record.has reasonRenameNewName = true → (r.listing v).pending record.fileReference = none) :
    (r.settle v record).listing v =
      if record.has reasonRenameNewName then (r.listing v).remember (placeLinkId v) record.place
      else r.listing v := by
  split_ifs with hnew
  · have hnone := hidle hnew
    have hid := assignLinkId_idle hidle
    rw [assignLinkId_named hnew] at hid
    have hsaved : (r.settle v record).saved = rememberKnownLink (takeRename r.saved record.fileReference).1
        record.place ((r.listing v).path (placeLinkId v) record.place) := by
      rw [← hid]
      unfold Replica.settle assignLinkId
      rw [hnew]
      rfl
    refine Listing.ext rfl ?_ ?_
    · show knownLinkId (r.settle v record).saved = _
      rw [hsaved]
      funext q
      exact (Table.get_insert _ _ _ _).trans (Function.update_apply _ _ _ _).symm
    · show (r.settle v record).saved.pendingRenames.get = _
      rw [hsaved]
      funext f
      refine (Table.get_erase _ _ _).trans ?_
      split_ifs with hf
      · rw [hf]
        exact hnone.symm
      · rfl
  · rw [Bool.not_eq_true] at hnew
    unfold Replica.settle
    rw [assignLinkId_unrenamed hnew]

theorem Replica.settle_path
    (hidle : record.has reasonRenameNewName = true → (r.listing v).pending record.fileReference = none) :
    ((r.settle v record).listing v).path (placeLinkId v) record.place = (assignLinkId r.saved v record).2 := by
  rw [Replica.settle_listing hidle, assignLinkId_idle hidle]
  split_ifs
  · exact Listing.path_remember _ _ _ _
  · rfl

theorem Replica.settle_admits
    (hidle : record.has reasonRenameNewName = true → (r.listing v).pending record.fileReference = none)
    (h : (r.listing v).Admits (assignLinkId r.saved v record).2 place file) :
    ((r.settle v record).listing v).Admits
      (((r.settle v record).listing v).path (placeLinkId v) record.place) place file := by
  rw [Replica.settle_path hidle]
  exact ⟨h.own, h.place⟩

theorem listing_forget (saved : WindowsCheckpoint) (q : Place) :
    knownLinkId (forgetKnownLink saved q) = Function.update (knownLinkId saved) q none := by
  funext p
  rw [Function.update_apply]
  exact Table.get_erase _ _ _

theorem held_update (links : FileLinkId → Option StoredLink) (id : FileLinkId) (o : Option StoredLink) :
    (fun x => (Function.update links id o x).bind (entryOf v)) =
      Function.update (fun x => (links x).bind (entryOf v)) id (o.bind (entryOf v)) :=
  Function.comp_update (fun o : Option StoredLink => o.bind (entryOf v)) links id o

/-- What a looked-up record leaves held. -/
theorem tell_held (hfile : record.fileReference < 2 ^ 64) (hparent : record.parentReference < 2 ^ 64)
    (hlooks : record.looks = true) :
    ((r.tell v record lookup).listing v).held =
      (r.listing v).hold (assignLinkId r.saved v record).2 record.place record.fileReference
        (record.announces lookup) := by
  have hremoves : record.removes = false := by
    unfold SanitizedUsnRecord.looks at hlooks
    unfold SanitizedUsnRecord.removes
    simp_all
  unfold Replica.tell Replica.listing Listing.hold
  dsimp only
  rw [hremoves, if_neg Bool.false_ne_true]
  split_ifs
  · rw [held_update]
    exact congrArg _ (entryOf_observedLink hfile hparent _)
  · rfl

theorem follow_looked (hlooks : record.looks = true) :
    r.saved.follow v record = (r.settle v record).saved := by
  unfold SanitizedUsnRecord.looks at hlooks
  rw [Bool.and_eq_true, Bool.not_eq_true', Bool.not_eq_true'] at hlooks
  unfold WindowsCheckpoint.follow
  rw [hlooks.1, hlooks.2]
  rfl

theorem Replica.tell_leave (hold : record.has reasonRenameOldName = true) (told : Bool) :
    (r.tell v record lookup).listing v =
      (r.listing v).note (placeLinkId v) (.leave record.place record.fileReference, told) := by
  have hremoves : record.removes = false := by simp [SanitizedUsnRecord.removes, hold]
  have hannounces : record.announces lookup = false := by
    simp [SanitizedUsnRecord.announces, SanitizedUsnRecord.looks, hold]
  have hfollow : r.saved.follow v record = rememberRename (forgetKnownLink r.saved record.place)
      record.fileReference (pathLinkId r.saved v record.place) := if_pos hold
  refine Listing.ext ?_ ?_ ?_
  · unfold Replica.tell
    rw [hremoves, hannounces]
    rfl
  · show knownLinkId (r.saved.follow v record) = _
    rw [hfollow]
    exact listing_forget r.saved record.place
  · show (r.saved.follow v record).pendingRenames.get = _
    rw [hfollow]
    funext f
    exact (Table.get_insert _ _ _ _).trans (Function.update_apply _ _ _ _).symm

theorem Replica.tell_delete (hold : record.has reasonRenameOldName = false)
    (hdelete : record.has reasonFileDelete = true)
    (hidle : record.has reasonRenameNewName = true → (r.listing v).pending record.fileReference = none)
    (told : Bool) :
    (r.tell v record lookup).listing v = ((r.settle v record).listing v).note (placeLinkId v)
      (.delete record.place record.fileReference, told) := by
  have hremoves : record.removes = true := by simp [SanitizedUsnRecord.removes, hold, hdelete]
  have hfollow : r.saved.follow v record = forgetKnownLink (r.settle v record).saved record.place := by
    unfold WindowsCheckpoint.follow
    rw [hold, hdelete]
    rfl
  refine Listing.ext ?_ ?_ ?_
  · unfold Replica.tell
    rw [hremoves]
    refine (held_update _ _ _).trans ?_
    rw [← Replica.settle_path hidle]
    rfl
  · show knownLinkId (r.saved.follow v record) = _
    rw [hfollow]
    exact listing_forget (r.settle v record).saved record.place
  · show (r.saved.follow v record).pendingRenames.get = _
    rw [hfollow]
    rfl

theorem Replica.tell_arrive (hfile : record.fileReference < 2 ^ 64)
    (hparent : record.parentReference < 2 ^ 64) (hold : record.has reasonRenameOldName = false)
    (hdelete : record.has reasonFileDelete = false) (hnew : record.has reasonRenameNewName = true) :
    (r.tell v record lookup).listing v = (r.listing v).note (placeLinkId v)
      (.arrive record.place record.fileReference, lookup != .unavailable) := by
  have hlooks : record.looks = true := by simp [SanitizedUsnRecord.looks, hold, hdelete]
  have hheld := @tell_held v r record lookup hfile hparent hlooks
  rw [assignLinkId_named hnew, announces_eq hlooks (by simp [has_or, hnew])] at hheld
  have hfollow : r.saved.follow v record = rememberKnownLink (takeRename r.saved record.fileReference).1
      record.place ((r.saved.pendingRenames.get record.fileReference).getD
        (pathLinkId r.saved v record.place)) := by
    unfold WindowsCheckpoint.follow assignLinkId
    rw [hold, hdelete, hnew]
    rfl
  refine Listing.ext hheld ?_ ?_
  · show knownLinkId (r.saved.follow v record) = _
    rw [hfollow]
    funext q
    exact (Table.get_insert _ _ _ _).trans (Function.update_apply _ _ _ _).symm
  · show (r.saved.follow v record).pendingRenames.get = _
    rw [hfollow]
    funext f
    exact (Table.get_erase _ _ _).trans (Function.update_apply _ _ _ _).symm

/-- A record that brings no identity along holds its entry under that of its place. -/
theorem Replica.tell_settled {c : NameChange Place Nat} (hfile : record.fileReference < 2 ^ 64)
    (hparent : record.parentReference < 2 ^ 64) (hlooks : record.looks = true)
    (hidle : record.has reasonRenameNewName = true → (r.listing v).pending record.fileReference = none)
    (hc : c = .create record.place record.fileReference ∨ c = .report record.place record.fileReference) :
    (r.tell v record lookup).listing v =
      ((r.settle v record).listing v).note (placeLinkId v) (c, record.announces lookup) := by
  have hheld := @tell_held v r record lookup hfile hparent hlooks
  rw [← Replica.settle_path hidle] at hheld
  have hfollow := @follow_looked v r record hlooks
  have hknown : knownLinkId (r.saved.follow v record) = knownLinkId (r.settle v record).saved :=
    congrArg knownLinkId hfollow
  have hpending : (r.saved.follow v record).pendingRenames.get =
      (r.settle v record).saved.pendingRenames.get := congrArg (fun saved => saved.pendingRenames.get) hfollow
  rcases hc with rfl | rfl <;> exact Listing.ext hheld hknown hpending

theorem Replica.tell_quiet (hlooks : record.looks = true) (hquiet : record.announces lookup = false) :
    (r.tell v record lookup).listing v = (r.settle v record).listing v := by
  have hremoves : record.removes = false := by
    unfold SanitizedUsnRecord.looks at hlooks
    unfold SanitizedUsnRecord.removes
    simp_all
  unfold Replica.tell Replica.listing
  rw [hremoves, hquiet, follow_looked hlooks]
  rfl

section Replayed

variable {s₀ s : NameSpace Place Nat} {l₀ : Listing Place Nat FileLinkId} {past : List (Notice Place Nat)}
  {c : NameChange Place Nat}

theorem Replica.settle_replayed
    (hidle : record.has reasonRenameNewName = true → (r.listing v).pending record.fileReference = none)
    (hrun : Replayed (placeLinkId v) s₀ l₀ past s (r.listing v)) :
    Replayed (placeLinkId v) s₀ l₀ past s ((r.settle v record).listing v) := by
  rw [Replica.settle_listing hidle]
  split_ifs
  · exact hrun.remember record.place
  · exact hrun

/-- A record that fits is replayed onto the listing. -/
theorem Replica.tell_replayed
    (hflags : ChangeFlags record ((r.listing v).pending record.fileReference = none) c)
    (hfile : record.fileReference < 2 ^ 64) (hparent : record.parentReference < 2 ^ 64)
    (hlegal : s.Legal c) (hfits : r.Fits v record lookup)
    (hrun : Replayed (placeLinkId v) s₀ l₀ past s (r.listing v)) :
    Replayed (placeLinkId v) s₀ l₀ (past ++ (noticeOf record lookup c).toList) (s.change c)
      ((r.tell v record lookup).listing v) := by
  cases hflags with
  | leave hold =>
    rw [Replica.tell_leave hold (lookup != .unavailable)]
    exact hrun.notice hlegal trivial
  | delete hold hdelete hidle =>
    rw [Replica.tell_delete hold hdelete hidle (lookup != .unavailable)]
    refine (Replica.settle_replayed hidle hrun).notice hlegal fun p g hheld => ?_
    have hremoves : record.removes = true := by simp [SanitizedUsnRecord.removes, hold, hdelete]
    rw [Replica.settle_path hidle] at hheld
    exact listing_own hfile (hfits.own (.inr hremoves)) hheld
  | arrive hold hdelete hnew =>
    rw [Replica.tell_arrive hfile hparent hold hdelete hnew]
    refine hrun.notice hlegal fun htold => ?_
    have hadmits := hfits.admits hfile
    rw [announces_eq (by simp [SanitizedUsnRecord.looks, hold, hdelete]) (by simp [has_or, hnew]),
      assignLinkId_named hnew] at hadmits
    exact hadmits htold
  | create hold hdelete hnew hcreate =>
    have hidle : record.has reasonRenameNewName = true →
        (r.listing v).pending record.fileReference = none := fun hrename => by
      rw [hnew] at hrename
      cases hrename
    have hlooks : record.looks = true := by simp [SanitizedUsnRecord.looks, hold, hdelete]
    have hannounces : record.announces lookup = (lookup != .unavailable) :=
      announces_eq hlooks (by simp [has_or, hcreate])
    rw [Replica.tell_settled hfile hparent hlooks hidle (.inl rfl), hannounces]
    exact (Replica.settle_replayed hidle hrun).notice hlegal fun htold =>
      Replica.settle_admits hidle (hfits.admits hfile (hannounces.trans htold))
  | report hold hdelete hidle =>
    have hlooks : record.looks = true := by simp [SanitizedUsnRecord.looks, hold, hdelete]
    have hsettled := Replica.settle_replayed hidle hrun
    cases hannounces : record.announces lookup with
    | false =>
      rw [Replica.tell_quiet hlooks hannounces]
      have hquiet : noticeOf record lookup (.report record.place record.fileReference) = none := by
        simp [noticeOf, quietRecord, hannounces]
      rw [hquiet, Option.toList_none, List.append_nil]
      exact hsettled
    | true =>
      have htold : (lookup != .unavailable) = true := by
        unfold SanitizedUsnRecord.announces at hannounces
        rw [Bool.and_eq_true, Bool.and_eq_true] at hannounces
        exact hannounces.1.2
      have hnotice : noticeOf record lookup (.report record.place record.fileReference) =
          some (.report record.place record.fileReference, true) := by
        simp [noticeOf, quietRecord, hannounces, htold]
      rw [Replica.tell_settled hfile hparent hlooks hidle (.inr rfl), hannounces, hnotice]
      exact hsettled.notice hlegal ⟨rfl, Replica.settle_admits hidle (hfits.admits hfile hannounces)⟩

end Replayed

end Listing

end LocalSearch.Windows
