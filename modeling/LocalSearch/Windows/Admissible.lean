import LocalSearch.Windows.Paging
import LocalSearch.Graph.Admission

/-!
# Admission of journal events

A record is interpreted by what is looked up later, and tells the graph of an
object, of a link or of a removal. What the graph admits is decided by what it
has been told before: the object of a link and of a deletion has to be known,
and the identity of a place must not still be bound to another file.
-/
namespace LocalSearch.Windows

set_option autoImplicit false

open Core Lib Graph

def ObjectLookup.isObserved : ObjectLookup → Bool
  | .observed _ => true
  | .missing | .unavailable => false

namespace SanitizedUsnRecord

/-- The record is about a name of a file that exists. -/
def relinks (record : SanitizedUsnRecord) : Bool :=
  record.has reasonHardLinkChange && !record.has reasonFileCreate

/-- A link is told: an entry that appeared, even if it is missing by now, or a
name that is found. -/
def tellsLink (record : SanitizedUsnRecord) (lookup : ObjectLookup) : Bool :=
  !record.has reasonFileDelete && (lookup.isObserved && record.relinks ||
    lookup != .unavailable && record.has reasonFileCreate)

/-- A removal is told: a deletion, or a name that is missing. -/
def tellsRemoval (record : SanitizedUsnRecord) (lookup : ObjectLookup) : Bool :=
  record.has reasonFileDelete || record.relinks && lookup == .missing

/-- An object is told. -/
def tellsObject (record : SanitizedUsnRecord) (lookup : ObjectLookup) : Bool :=
  !record.has reasonFileDelete && !record.relinks && lookup.isObserved &&
    record.has (reasonFileCreate ||| reasonBasicInfoChange ||| reasonDataChange)

end SanitizedUsnRecord

/-- What the graph has been told: the file an identity is bound to, and the
objects. -/
structure Told where
  bound : FileLinkId → Option FileKey
  known : FileKey → Prop

def Told.of (names : Names) : Told := ⟨fun id => (names.links id).map (·.objectKey), names.known⟩

namespace Told

variable (v : VolumeId) (saved : WindowsCheckpoint) (told : Told) (record : SanitizedUsnRecord)
  (lookup : ObjectLookup)

/-- What was told once the record is. -/
def tell : Told where
  bound :=
    if record.tellsRemoval lookup then
      Function.update told.bound (pathLinkId saved v record.place) none
    else if record.tellsLink lookup then
      Function.update told.bound (pathLinkId saved v record.place)
        (some (fileKey v record.fileReference))
    else told.bound
  known key := told.known key ∨
    record.tellsObject lookup = true ∧ key = fileKey v record.fileReference

/-- The record fits what was told before it. -/
@[mk_iff]
structure Fits : Prop where
  size : ∀ object, lookup = .observed object → record.tellsObject lookup = true →
    object.metadata.size < 2 ^ 63
  observed : record.tellsLink lookup = true → record.tellsObject lookup = true ∨
    told.known (fileKey v record.fileReference)
  free : record.tellsLink lookup = true ∨ record.tellsRemoval lookup = true →
    ∀ key, told.bound (pathLinkId saved v record.place) = some key → key = fileKey v record.fileReference
  deleted : record.has reasonFileDelete = true → told.known (fileKey v record.fileReference) ∧
    ∀ id, told.bound id = some (fileKey v record.fileReference) → id = pathLinkId saved v record.place

end Told

/-- Every link but those of roots is stored under the identity of its place. -/
structure Placed (v : VolumeId) (saved : WindowsCheckpoint) (names : Names) : Prop where
  stored : ∀ id link, names.links id = some link → link.fileLinkId = id
  place : ∀ id link parent, names.links id = some link → link.parentKey = some parent →
    ∃ place : Place, (ofLex place).1 < 2 ^ 64 ∧ parent = fileKey v (ofLex place).1 ∧
      link.name = (ofLex place).2 ∧ pathLinkId saved v place = id

section Admits

variable {v : VolumeId} {saved : WindowsCheckpoint} {names : Names} {record : SanitizedUsnRecord}
  {id : FileLinkId} {key : FileKey}

theorem fileKey_injective {a b : Nat} (ha : a < 2 ^ 64) (hb : b < 2 ^ 64) (h : fileKey v a = fileKey v b) :
    a = b := by
  have hnat := congrArg (fun key : FileKey => key.fileId.bits.toNat) h
  simp only [fileKey, Id128.fromU128, BitVec.toNat_ofNat] at hnat
  omega

theorem bound_of_link {link : StoredLink} (h : names.links id = some link) :
    (Told.of names).bound id = some link.objectKey := congrArg (Option.map _) h

theorem link_of_bound (h : (Told.of names).bound id = some key) :
    ∃ link, names.links id = some link ∧ link.objectKey = key := Option.map_eq_some_iff.mp h

theorem admits_removeLink (hplaced : Placed v saved names) :
    names.Admits (.removeLink id key) ↔
      ∀ key', (Told.of names).bound id = some key' → key' = key := by
  constructor
  · rintro ⟨-, hlinks⟩ key' hbound
    obtain ⟨link, hlink, rfl⟩ := link_of_bound hbound
    exact hlinks id link hlink (hplaced.stored id link hlink)
  · intro h
    refine ⟨trivial, fun id' link hlink hid => ?_⟩
    rw [hplaced.stored id' link hlink] at hid
    exact h _ (bound_of_link (hid ▸ hlink))

theorem admits_tombstoneObject : names.Admits (.tombstoneObject key) ↔
    names.known key ∧ ∀ id, (Told.of names).bound id ≠ some key := by
  refine and_congr_right fun _ => ⟨fun h id hbound => ?_, fun h id link hlink hkey => ?_⟩
  · obtain ⟨link, hlink, hkey⟩ := link_of_bound hbound
    exact h id link hlink hkey
  · exact h id (hkey ▸ bound_of_link hlink)

/-- No other identity is at the place, so only its own is in the way. -/
theorem admits_upsertLink (hplaced : Placed v saved names) (hparent : record.parentReference < 2 ^ 64) :
    names.Admits (.upsertLink (observedLink v record (pathLinkId saved v record.place)) false) ↔
      names.known (fileKey v record.fileReference) ∧
      ∀ key, (Told.of names).bound (pathLinkId saved v record.place) = some key →
        key = fileKey v record.fileReference := by
  refine and_congr_right fun _ => ⟨fun h key hbound => ?_, fun h id link hlink => ?_⟩
  · obtain ⟨link, hlink, rfl⟩ := link_of_bound hbound
    have hadmits : if link.fileLinkId = pathLinkId saved v record.place then
        link.objectKey = fileKey v record.fileReference else _ := h _ link hlink
    rw [if_pos (hplaced.stored _ link hlink)] at hadmits
    exact hadmits
  · show if link.fileLinkId = pathLinkId saved v record.place then _ else _
    split_ifs with hid
    · refine h _ (bound_of_link ?_)
      rw [← hlink, ← hid, hplaced.stored id link hlink]
    · rintro ⟨hname, hsame, -⟩
      replace hname : link.name = record.name := hname
      obtain ⟨place, hbound, hkey, hplace, rfl⟩ := hplaced.place id link _ hlink hsame
      have href : (ofLex place).1 = record.parentReference :=
        (fileKey_injective hparent hbound hkey).symm
      have hat : place = record.place := by
        show place = toLex (record.parentReference, record.name)
        rw [← href, ← hname, hplace]
        rfl
      exact hid (by rw [hplaced.stored _ link hlink, hat])

theorem Placed.fewer {names' : Names} (h : Placed v saved names)
    (hlinks : ∀ id link, names'.links id = some link → names.links id = some link) :
    Placed v saved names' :=
  ⟨fun id link hlink => h.stored id link (hlinks id link hlink),
    fun id link parent hlink => h.place id link parent (hlinks id link hlink)⟩

theorem Placed.remove (h : Placed v saved names) :
    Placed v saved (names.apply (.removeLink id key)) := by
  refine h.fewer fun id' link hlink => ?_
  replace hlink : Function.update names.links id none id' = some link := hlink
  rw [Function.update_apply] at hlink
  split_ifs at hlink
  exact hlink

theorem Placed.observe (h : Placed v saved names) (hparent : record.parentReference < 2 ^ 64) :
    Placed v saved (names.apply
      (.upsertLink (observedLink v record (pathLinkId saved v record.place)) false)) := by
  have hlinks : ∀ id link, (names.apply (.upsertLink (observedLink v record
      (pathLinkId saved v record.place)) false)).links id = some link →
      (id = pathLinkId saved v record.place ∧
        link = storedLink (observedLink v record (pathLinkId saved v record.place)) false) ∨
      names.links id = some link := by
    intro id link hlink
    replace hlink : Function.update names.links (pathLinkId saved v record.place)
      (some (storedLink (observedLink v record (pathLinkId saved v record.place)) false)) id =
        some link := hlink
    rw [Function.update_apply] at hlink
    split_ifs at hlink with hid
    · exact .inl ⟨hid, (Option.some.inj hlink).symm⟩
    · exact .inr hlink
  refine ⟨fun id link hlink => ?_, fun id link parent hlink hsome => ?_⟩
  · rcases hlinks id link hlink with ⟨rfl, rfl⟩ | hlink
    · rfl
    · exact h.stored id link hlink
  · rcases hlinks id link hlink with ⟨rfl, rfl⟩ | hlink
    · exact ⟨record.place, hparent, (Option.some.inj hsome).symm, rfl, rfl⟩
    · exact h.place id link parent hlink hsome

/-- A place whose link is gone may lose the identity it was known by. -/
theorem Placed.forget (h : Placed v saved names)
    (hgone : names.links (pathLinkId saved v record.place) = none) :
    Placed v (forgetKnownLink saved record.place) names := by
  refine ⟨h.stored, fun id link parent hlink hsome => ?_⟩
  obtain ⟨place, hbound, hkey, hname, rfl⟩ := h.place id link parent hlink hsome
  have hne : place ≠ record.place := by
    rintro rfl
    rw [hgone] at hlink
    cases hlink
  refine ⟨place, hbound, hkey, hname, ?_⟩
  unfold pathLinkId knownLinkId forgetKnownLink
  rw [Table.get_erase, if_neg hne]

theorem told_object (object : FileObjectSnapshot) :
    Told.of (names.apply (.upsertObject object)) =
      ⟨(Told.of names).bound, fun key => names.known key ∨ key = object.objectKey⟩ := by
  refine congrArg (Told.mk _) (funext fun key => propext ?_)
  exact or_congr_right eq_comm

theorem told_remove : Told.of (names.apply (.removeLink id key)) =
    ⟨Function.update (Told.of names).bound id none, names.known⟩ := by
  have hbound : (Told.of (names.apply (.removeLink id key))).bound =
      Function.update (Told.of names).bound id none :=
    Function.comp_update (Option.map _) names.links id none
  rw [← hbound]
  exact congrArg (Told.mk _) (funext fun _ => propext (or_iff_left not_false))

theorem told_tombstone : Told.of (names.apply (.tombstoneObject key)) = Told.of names :=
  congrArg (Told.mk _) (funext fun _ => propext (or_iff_left not_false))

theorem told_link (link : FileLinkSnapshot) : Told.of (names.apply (.upsertLink link false)) =
    ⟨Function.update (Told.of names).bound link.fileLinkId (some link.objectKey), names.known⟩ := by
  have hbound : (Told.of (names.apply (.upsertLink link false))).bound =
      Function.update (Told.of names).bound link.fileLinkId (some link.objectKey) :=
    Function.comp_update (Option.map _) names.links link.fileLinkId (some (storedLink link false))
  rw [← hbound]
  exact congrArg (Told.mk _) (funext fun _ => propext (or_iff_left not_false))

end Admits

/-- The mutations of a record are admitted exactly if it fits, and then the graph
holds what was told. -/
structure Conveys (v : VolumeId) (saved saved' : WindowsCheckpoint) (names : Names)
    (record : SanitizedUsnRecord) (lookup : ObjectLookup) (mutations : List GraphMutation) : Prop where
  admits : names.Accepts mutations ↔ (Told.of names).Fits v saved record lookup
  placed : (Told.of names).Fits v saved record lookup →
    Placed v saved' (mutations.foldl Names.apply names)
  told : Told.of (mutations.foldl Names.apply names) = (Told.of names).tell v saved record lookup
  volume : ∀ m ∈ mutations, m.InVolume v

section Record

variable {v : VolumeId} {saved saved' : WindowsCheckpoint} {names : Names} {record : SanitizedUsnRecord}
  {lookup : ObjectLookup}

theorem has_or (record : SanitizedUsnRecord) (a b : BitVec 32) :
    record.has (a ||| b) = (record.has a || record.has b) := by
  unfold SanitizedUsnRecord.has
  have hzero : record.reason &&& a ||| record.reason &&& b = 0 ↔ _ := BitVec.or_eq_zero_iff
  rw [BitVec.and_or_distrib_left, Bool.eq_iff_iff]
  simp only [bne_iff_ne, ne_eq, Bool.or_eq_true]
  rw [hzero, not_and_or]
  rfl

theorem not_deletes (h : record.tellsRemoval lookup = false) : record.has reasonFileDelete = false := by
  unfold SanitizedUsnRecord.tellsRemoval at h
  exact (Bool.or_eq_false_iff.mp h).1

/-- A record that tells nothing. -/
theorem conveys_nothing (hplaced : Placed v saved names) (hobject : record.tellsObject lookup = false)
    (hlink : record.tellsLink lookup = false) (hremoval : record.tellsRemoval lookup = false) :
    Conveys v saved saved names record lookup [] := by
  refine ⟨iff_of_true trivial ?_, fun _ => hplaced, ?_, by simp⟩
  · rw [Told.fits_iff, hobject, hlink, hremoval, not_deletes hremoval]
    simp
  · unfold Told.tell
    rw [hobject, hlink, hremoval]
    simp

/-- A record that tells an object only. -/
theorem conveys_object {object : FileObjectSnapshot} (hplaced : Placed v saved names)
    (hkey : object.objectKey = fileKey v record.fileReference)
    (hobject : record.tellsObject (.observed object) = true)
    (hlink : record.tellsLink (.observed object) = false)
    (hremoval : record.tellsRemoval (.observed object) = false) :
    Conveys v saved saved names record (.observed object) [.upsertObject object] := by
  refine ⟨?_, fun _ => hplaced.fewer fun _ _ hlink => hlink, ?_, ?_⟩
  · rw [Told.fits_iff, hobject, hlink, hremoval, not_deletes hremoval]
    simp [Names.Accepts, Names.Admits, GraphMutation.Needs, GraphMutation.Admits]
  · rw [List.foldl_cons, List.foldl_nil, told_object]
    unfold Told.tell
    rw [hobject, hlink, hremoval, hkey]
    simp [Told.of]
  · simp [GraphMutation.InVolume, hkey, fileKey]

/-- A record that tells a link only. -/
theorem conveys_link (hplaced : Placed v saved names) (hparent : record.parentReference < 2 ^ 64)
    (hobject : record.tellsObject lookup = false) (hlink : record.tellsLink lookup = true)
    (hremoval : record.tellsRemoval lookup = false) :
    Conveys v saved saved names record lookup
      [.upsertLink (observedLink v record (pathLinkId saved v record.place)) false] := by
  refine ⟨?_, fun _ => hplaced.observe hparent, ?_, ?_⟩
  · rw [Told.fits_iff, hobject, hlink, hremoval, not_deletes hremoval, Names.Accepts,
      admits_upsertLink hplaced hparent]
    simp [Names.Accepts, Told.of]
  · rw [List.foldl_cons, List.foldl_nil, told_link]
    unfold Told.tell
    rw [hobject, hlink, hremoval]
    simp [observedLink, Told.of]
  · simp [GraphMutation.InVolume, observedLink, fileKey]

/-- A record that tells an object and its link. -/
theorem conveys_objectLink {object : FileObjectSnapshot} (hplaced : Placed v saved names)
    (hparent : record.parentReference < 2 ^ 64)
    (hkey : object.objectKey = fileKey v record.fileReference)
    (hobject : record.tellsObject (.observed object) = true)
    (hlink : record.tellsLink (.observed object) = true)
    (hremoval : record.tellsRemoval (.observed object) = false) :
    Conveys v saved saved names record (.observed object) [.upsertObject object,
      .upsertLink (observedLink v record (pathLinkId saved v record.place)) false] := by
  have hplaced₁ : Placed v saved (names.apply (.upsertObject object)) :=
    hplaced.fewer fun _ _ hlink => hlink
  refine ⟨?_, fun _ => hplaced₁.observe hparent, ?_, ?_⟩
  · rw [Told.fits_iff, hobject, hlink, hremoval, not_deletes hremoval, Names.Accepts, Names.Accepts,
      admits_upsertLink hplaced₁ hparent, told_object]
    simp [Names.Accepts, Names.Admits, GraphMutation.Needs, GraphMutation.Admits, Names.apply,
      GraphMutation.Observes, hkey]
  · rw [List.foldl_cons, List.foldl_cons, List.foldl_nil, told_link, told_object]
    unfold Told.tell
    rw [hobject, hlink, hremoval]
    simp [observedLink, Told.of, Names.apply, GraphMutation.Observes, hkey, eq_comm]
  · simp [GraphMutation.InVolume, observedLink, hkey, fileKey]

/-- A record that tells of a name that is gone. -/
theorem conveys_removal (hplaced : Placed v saved names) (hdelete : record.has reasonFileDelete = false)
    (hobject : record.tellsObject lookup = false) (hlink : record.tellsLink lookup = false)
    (hremoval : record.tellsRemoval lookup = true) :
    Conveys v saved saved names record lookup
      [.removeLink (pathLinkId saved v record.place) (fileKey v record.fileReference)] := by
  refine ⟨?_, fun _ => hplaced.remove, ?_, ?_⟩
  · rw [Told.fits_iff, hobject, hlink, hremoval, hdelete, Names.Accepts, admits_removeLink hplaced]
    simp [Names.Accepts]
  · rw [List.foldl_cons, List.foldl_nil, told_remove]
    unfold Told.tell
    rw [hobject, hlink, hremoval]
    simp [Told.of]
  · simp [GraphMutation.InVolume, fileKey]

/-- A record that tells of a deletion. -/
theorem conveys_deletion (hplaced : Placed v saved names)
    (hdelete : record.has reasonFileDelete = true) :
    Conveys v saved (forgetKnownLink saved record.place) names record lookup
      [.removeLink (pathLinkId saved v record.place) (fileKey v record.fileReference),
        .tombstoneObject (fileKey v record.fileReference)] := by
  have hobject : record.tellsObject lookup = false := by
    simp [SanitizedUsnRecord.tellsObject, hdelete]
  have hlink : record.tellsLink lookup = false := by simp [SanitizedUsnRecord.tellsLink, hdelete]
  have hremoval : record.tellsRemoval lookup = true := by
    simp [SanitizedUsnRecord.tellsRemoval, hdelete]
  have hplaced₁ : Placed v saved (names.apply (.removeLink (pathLinkId saved v record.place)
      (fileKey v record.fileReference))) := hplaced.remove
  refine ⟨?_, fun _ => Placed.forget (hplaced₁.fewer fun _ _ hlink => hlink)
    (Function.update_self _ _ _), ?_, ?_⟩
  · rw [Told.fits_iff, hobject, hlink, hremoval, hdelete, Names.Accepts, Names.Accepts,
      admits_removeLink hplaced, admits_tombstoneObject, told_remove]
    have hothers : (∀ id, Function.update (Told.of names).bound (pathLinkId saved v record.place) none id ≠
        some (fileKey v record.fileReference)) ↔ ∀ id, (Told.of names).bound id =
          some (fileKey v record.fileReference) → id = pathLinkId saved v record.place := by
      refine forall_congr' fun id => ?_
      rw [Function.update_apply]
      split_ifs with hid
      · exact iff_of_true (by simp) fun _ => hid
      · exact ⟨fun h hbound => absurd hbound h, fun h hbound => hid (h hbound)⟩
    rw [hothers]
    simp [Names.Accepts, Names.apply, GraphMutation.Observes, Told.of]
  · rw [List.foldl_cons, List.foldl_cons, List.foldl_nil, told_tombstone, told_remove]
    unfold Told.tell
    rw [hobject, hlink, hremoval]
    simp [Told.of]
  · simp [GraphMutation.InVolume, fileKey]

theorem assignLinkId_unrenamed (hnew : record.has reasonRenameNewName = false) :
    assignLinkId saved v record = (saved, pathLinkId saved v record.place) := by
  unfold assignLinkId
  rw [hnew]
  rfl

/-- The events of a record that is no rename. -/
theorem record_conveys {answer : MetadataAnswer} {events : List FilesystemEvent}
    (hplaced : Placed v saved names) (hname : record.hadInvalidUtf16 = false)
    (hrename : record.has (reasonRenameOldName ||| reasonRenameNewName) = false)
    (hparent : record.parentReference < 2 ^ 64) (hlookup : lookupObject answer = .ok lookup)
    (hkey : ∀ object, lookup = .observed object → object.objectKey = fileKey v record.fileReference)
    (h : canonicalEvents answer saved v record = .ok (saved', events)) :
    Conveys v saved saved' names record lookup (events.map GraphMutation.ofEvent) := by
  rw [has_or] at hrename
  obtain ⟨hold, hnew⟩ := Bool.or_eq_false_iff.mp hrename
  cases hdelete : record.has reasonFileDelete with
  | true =>
    obtain ⟨rfl, rfl⟩ := canonicalEvents_delete hname hold hdelete h
    rw [assignLinkId_unrenamed hnew]
    exact conveys_deletion hplaced hdelete
  | false =>
    obtain ⟨looked, hlooked, rfl, rfl⟩ := canonicalEvents_looked hname hold hdelete h
    obtain rfl := Except.ok.inj (hlookup.symm.trans hlooked)
    rw [assignLinkId_unrenamed hnew]
    unfold observedEvents
    rw [has_or record reasonFileCreate reasonRenameNewName, hnew, Bool.or_false]
    cases lookup with
    | unavailable =>
      apply conveys_nothing hplaced
      · simp [SanitizedUsnRecord.tellsObject, ObjectLookup.isObserved]
      · simp [SanitizedUsnRecord.tellsLink, ObjectLookup.isObserved]
      · simp [SanitizedUsnRecord.tellsRemoval, hdelete]
    | missing =>
      have hobject : record.tellsObject .missing = false := by
        simp [SanitizedUsnRecord.tellsObject, ObjectLookup.isObserved]
      cases hcreate : record.has reasonFileCreate with
      | true =>
        have hlink : record.tellsLink .missing = true := by
          simp [SanitizedUsnRecord.tellsLink, hdelete, hcreate]
        have hremoval : record.tellsRemoval .missing = false := by
          simp [SanitizedUsnRecord.tellsRemoval, SanitizedUsnRecord.relinks, hdelete, hcreate]
        simpa [GraphMutation.ofEvent] using conveys_link hplaced hparent hobject hlink hremoval
      | false =>
        have hlink : record.tellsLink .missing = false := by
          simp [SanitizedUsnRecord.tellsLink, ObjectLookup.isObserved, hcreate]
        cases hhard : record.has reasonHardLinkChange with
        | true =>
          have hremoval : record.tellsRemoval .missing = true := by
            simp [SanitizedUsnRecord.tellsRemoval, SanitizedUsnRecord.relinks, hcreate, hhard]
          simpa [GraphMutation.ofEvent, observedLink] using conveys_removal hplaced hdelete hobject hlink hremoval
        | false =>
          have hremoval : record.tellsRemoval .missing = false := by
            simp [SanitizedUsnRecord.tellsRemoval, SanitizedUsnRecord.relinks, hdelete, hhard]
          simpa using conveys_nothing hplaced hobject hlink hremoval
    | observed object =>
      have hremoval : record.tellsRemoval (.observed object) = false := by
        simp [SanitizedUsnRecord.tellsRemoval, hdelete]
      cases hcreate : record.has reasonFileCreate with
      | true =>
        have hdescribes : record.has (reasonFileCreate ||| reasonBasicInfoChange ||| reasonDataChange) =
            true := by
          rw [has_or, has_or, hcreate]
          rfl
        have hobject : record.tellsObject (.observed object) = true := by
          simp [SanitizedUsnRecord.tellsObject, SanitizedUsnRecord.relinks, ObjectLookup.isObserved,
            hdelete, hcreate, hdescribes]
        have hlink : record.tellsLink (.observed object) = true := by
          simp [SanitizedUsnRecord.tellsLink, hdelete, hcreate]
        simpa [GraphMutation.ofEvent, hdescribes] using
          conveys_objectLink hplaced hparent (hkey object rfl) hobject hlink hremoval
      | false =>
        cases hhard : record.has reasonHardLinkChange with
        | true =>
          have hobject : record.tellsObject (.observed object) = false := by
            simp [SanitizedUsnRecord.tellsObject, SanitizedUsnRecord.relinks, hcreate, hhard]
          have hlink : record.tellsLink (.observed object) = true := by
            simp [SanitizedUsnRecord.tellsLink, SanitizedUsnRecord.relinks, ObjectLookup.isObserved,
              hdelete, hcreate, hhard]
          simpa [GraphMutation.ofEvent] using conveys_link hplaced hparent hobject hlink hremoval
        | false =>
          have hlink : record.tellsLink (.observed object) = false := by
            simp [SanitizedUsnRecord.tellsLink, SanitizedUsnRecord.relinks, hcreate, hhard]
          cases hdescribes : record.has
              (reasonFileCreate ||| reasonBasicInfoChange ||| reasonDataChange) with
          | true =>
            have hobject : record.tellsObject (.observed object) = true := by
              simp [SanitizedUsnRecord.tellsObject, SanitizedUsnRecord.relinks,
                ObjectLookup.isObserved, hdelete, hhard, hdescribes]
            simpa [GraphMutation.ofEvent] using conveys_object hplaced (hkey object rfl) hobject hlink hremoval
          | false =>
            have hobject : record.tellsObject (.observed object) = false := by
              simp [SanitizedUsnRecord.tellsObject, hdescribes]
            simpa using conveys_nothing hplaced hobject hlink hremoval

end Record

/-- What the lookup says of the place of the record holds in the namespace. Whatever
is found there goes by the file of the record. -/
def ObjectLookup.TrueIn (v : VolumeId) (ns : Namespace) (record : SanitizedUsnRecord) :
    ObjectLookup → Prop
  | .observed object => ns (.named record.place) ≠ none ∧
      object.objectKey = fileKey v record.fileReference
  | .missing => ns (.named record.place) ≠ some record.fileReference
  | .unavailable => True

/-- A legal history without renames and the namespaces it leads through. Each
lookup is true at the time of its record or at a later one. -/
inductive TruthfulHistory (v : VolumeId) (root : Nat) :
    Namespace → List JournalEntry → List Namespace → Prop
  | nil (ns : Namespace) : TruthfulHistory v root ns [] []
  | cons {ns ns' seen : Namespace} {record : JournalRecord} {answer : MetadataAnswer}
      {lookup : ObjectLookup} {entries : List JournalEntry} {later : List Namespace}
      (hrecord : LegalRecord root ns record.toSanitizedUsnRecord ns')
      (hrename : record.has (reasonRenameOldName ||| reasonRenameNewName) = false)
      (hparent : record.parentReference < 2 ^ 64) (hlookup : lookupObject answer = .ok lookup)
      (hseen : seen ∈ ns' :: later) (htrue : lookup.TrueIn v seen record.toSanitizedUsnRecord)
      (hrest : TruthfulHistory v root ns' entries later) :
      TruthfulHistory v root ns ((record, answer) :: entries) (ns' :: later)

/-- The link is the one of the entry. -/
structure EntryLink (v : VolumeId) (place : Place) (fileReference : Nat) (link : StoredLink) : Prop where
  object : link.objectKey = fileKey v fileReference
  parent : link.parentKey = some (fileKey v (ofLex place).1)
  name : link.name = (ofLex place).2

/-- The graph holds exactly the objects and links of the namespace, and the root
with its link. -/
structure HoldsNamespace (g : FilesystemGraph) (v : VolumeId) (saved : WindowsCheckpoint) (root : Nat)
    (ns : Namespace) : Prop where
  entry : ∀ place fileReference, ns (.named place) = some fileReference →
    (ofLex place).1 < 2 ^ 64 ∧ ∃ link, loadLink g (pathLinkId saved v place) = some link ∧
      EntryLink v place fileReference link
  link : ∀ id link, loadLink g id = some link →
    (link.parentKey = none ∧ link.objectKey = fileKey v root) ∨
    ∃ place fileReference, ns (.named place) = some fileReference ∧ id = pathLinkId saved v place ∧
      EntryLink v place fileReference link
  object : ∀ key, (∃ row, g.objects.get key = some row ∧ row.tombstoned = false) ↔
    ∃ fileReference, key = fileKey v fileReference ∧
      (fileReference = root ∨ ∃ place, ns (.named place) = some fileReference)
  still : ∀ fileReference, ns (.moving fileReference) = none

/-- The lookup an answer stands for. -/
def lookupOf (answer : MetadataAnswer) : ObjectLookup := (lookupObject answer).toOption.getD .unavailable

/-- A deleted entry leaves no identity for its place. -/
def WindowsCheckpoint.pass (saved : WindowsCheckpoint) (record : SanitizedUsnRecord) : WindowsCheckpoint :=
  if record.has reasonFileDelete then forgetKnownLink saved record.place else saved

/-- Every record fits what the ones before it told. -/
def FitsAll (v : VolumeId) : WindowsCheckpoint → Told → List JournalEntry → Prop
  | _, _, [] => True
  | saved, told, (record, answer) :: rest =>
      told.Fits v saved record.toSanitizedUsnRecord (lookupOf answer) ∧
        FitsAll v (saved.pass record.toSanitizedUsnRecord)
          (told.tell v saved record.toSanitizedUsnRecord (lookupOf answer)) rest

/-- The events, cut into batches of the volume anywhere. -/
structure SplitsInto (v : VolumeId) (events : List FilesystemEvent) (batches : List GraphMutationBatch) :
    Prop where
  volume : ∀ batch ∈ batches, batch.volumeId = v ∧ batch.checkpoint.volumeId = v
  mutations : batches.flatMap (·.mutations) = events.map GraphMutation.ofEvent

section History

variable {v : VolumeId} {root : Nat} {saved saved' : WindowsCheckpoint} {ns : Namespace}
  {entries : List JournalEntry} {later : List Namespace} {events : List FilesystemEvent}
  {names : Names} {g : FilesystemGraph}

theorem holdsNamespace_placed (h : HoldsNamespace g v saved root ns) : Placed v saved (Names.of g) := by
  refine ⟨fun id link hlink => ?_, fun id link parent hlink hparent => ?_⟩
  · obtain ⟨row, -, rfl⟩ := loadLink_eq_some.mp hlink
    rfl
  · rcases h.link id link hlink with ⟨hroot, -⟩ | ⟨place, f, hentry, rfl, hplace⟩
    · rw [hroot] at hparent
      cases hparent
    · exact ⟨place, (h.entry place f hentry).1, Option.some.inj (hparent.symm.trans hplace.parent),
        hplace.name, rfl⟩

theorem canonicalEvents_pass {record : SanitizedUsnRecord} {answer : MetadataAnswer}
    (hname : record.hadInvalidUtf16 = false)
    (hrename : record.has (reasonRenameOldName ||| reasonRenameNewName) = false)
    (h : canonicalEvents answer saved v record = .ok (saved', events)) : saved' = saved.pass record := by
  rw [has_or] at hrename
  obtain ⟨hold, hnew⟩ := Bool.or_eq_false_iff.mp hrename
  unfold WindowsCheckpoint.pass
  cases hdelete : record.has reasonFileDelete with
  | true =>
    obtain ⟨rfl, -⟩ := canonicalEvents_delete hname hold hdelete h
    rw [assignLinkId_unrenamed hnew]
    rfl
  | false =>
    obtain ⟨-, -, rfl, -⟩ := canonicalEvents_looked hname hold hdelete h
    rw [assignLinkId_unrenamed hnew]
    rfl

theorem legalRecord_name {record : SanitizedUsnRecord} {ns' : Namespace}
    (h : LegalRecord root ns record ns') : record.hadInvalidUtf16 = false := by
  cases h <;> assumption

theorem trueIn_key {lookup : ObjectLookup} {record : SanitizedUsnRecord} {seen : Namespace}
    (h : lookup.TrueIn v seen record) : ∀ object, lookup = .observed object →
      object.objectKey = fileKey v record.fileReference := by
  rintro object rfl
  exact h.2

theorem lookupOf_eq {answer : MetadataAnswer} {lookup : ObjectLookup}
    (h : lookupObject answer = .ok lookup) : lookupOf answer = lookup := by
  unfold lookupOf
  rw [h]
  rfl

theorem history_inVolume (hhistory : TruthfulHistory v root ns entries later)
    (hrun : canonicalRun v saved entries = .ok (saved', events)) :
    ∀ m ∈ events.map GraphMutation.ofEvent, m.InVolume v := by
  induction hhistory generalizing saved saved' events with
  | nil ns =>
    obtain ⟨-, rfl⟩ := Prod.mk.inj (Except.ok.inj hrun)
    simp
  | @cons ns ns' seen record answer lookup entries later hrecord hrename hparent hlookup hseen htrue hrest ih =>
    obtain ⟨saved₁, first, rest, hfirst, hnext, rfl⟩ := canonicalRun_cons.mp hrun
    -- what a record tells does not depend on the names that stand
    have hnone : Placed v saved ⟨fun _ => none, fun _ => False⟩ :=
      ⟨(fun _ _ hlink => by cases hlink), (fun _ _ _ hlink => by cases hlink)⟩
    have hconveys := record_conveys hnone (legalRecord_name hrecord) hrename hparent hlookup
      (trueIn_key htrue) hfirst
    intro m hm
    rw [List.map_append] at hm
    rcases List.mem_append.mp hm with hm | hm
    · exact hconveys.volume m hm
    · exact ih hnext m hm

/-- The events of a whole history are admitted exactly if every record fits. -/
theorem history_admitted (hplaced : Placed v saved names)
    (hhistory : TruthfulHistory v root ns entries later)
    (hrun : canonicalRun v saved entries = .ok (saved', events)) :
    names.Accepts (events.map GraphMutation.ofEvent) ↔ FitsAll v saved (Told.of names) entries := by
  induction hhistory generalizing names saved saved' events with
  | nil ns =>
    obtain ⟨-, rfl⟩ := Prod.mk.inj (Except.ok.inj hrun)
    exact iff_of_true trivial trivial
  | @cons ns ns' seen record answer lookup entries later hrecord hrename hparent hlookup hseen htrue hrest ih =>
    obtain ⟨saved₁, first, rest, hfirst, hnext, rfl⟩ := canonicalRun_cons.mp hrun
    have hname := legalRecord_name hrecord
    have hconveys := record_conveys hplaced hname hrename hparent hlookup (trueIn_key htrue) hfirst
    obtain rfl := canonicalEvents_pass hname hrename hfirst
    rw [List.map_append, Names.accepts_append, hconveys.admits, FitsAll, lookupOf_eq hlookup]
    refine and_congr_right fun hfits => ?_
    rw [ih (hconveys.placed hfits) hnext, hconveys.told]

/-- The batches of a truthful history are accepted, wherever they are cut, exactly
if every record fits what was told before it and the volume has a generation for
each batch. -/
theorem history_accepted_iff [CaseMapping] {batches : List GraphMutationBatch} (hg : Reachable g)
    (hs : g.sessions.get v = none) (hv : (g.volumes.get v).isSome)
    (hholds : HoldsNamespace g v saved root ns) (hhistory : TruthfulHistory v root ns entries later)
    (hrun : canonicalRun v saved entries = .ok (saved', events)) (hsplit : SplitsInto v events batches) :
    (∃ g', applyBatches g batches = .ok g') ↔
      (batches = [] ∨ currentGeneration g v + batches.length < 2 ^ 63) ∧
        FitsAll v saved (Told.of (Names.of g)) entries := by
  have hmutations := history_inVolume hhistory hrun
  rw [← hsplit.mutations] at hmutations
  have hbatches : ∀ batch ∈ batches, batch.volumeId = v ∧ batch.checkpoint.volumeId = v ∧
      ∀ m ∈ batch.mutations, m.InVolume v := fun batch hbatch =>
    ⟨(hsplit.volume batch hbatch).1, (hsplit.volume batch hbatch).2,
      fun m hm => hmutations m (List.mem_flatMap.mpr ⟨batch, hbatch, hm⟩)⟩
  rw [applyBatches_accepts hg.wellFormed hs hv hbatches, hsplit.mutations,
    history_admitted (holdsNamespace_placed hholds) hhistory hrun]

end History

section Example

attribute [local instance] asciiCaseMapping

/-- A volume with nothing below its root. -/
def bareGraph : FilesystemGraph :=
  (runOps .empty [.applyBatch (sampleBatch [.upsertVolume sampleDescriptor,
    .upsertObject (sampleObject 1 .directory), .upsertLink (sampleLink 9 1 none "C:") false])]).toOption.getD
      .empty

def bareNamespace : Namespace := fun _ => none

theorem bareGraph_reachable : Reachable bareGraph := by
  have hrun : runOps .empty [.applyBatch (sampleBatch [.upsertVolume sampleDescriptor,
      .upsertObject (sampleObject 1 .directory), .upsertLink (sampleLink 9 1 none "C:") false])] =
        .ok bareGraph := by
    decide
  exact runOps_steps (fun _ _ _ => trivial) hrun

theorem bareGraph_holds : HoldsNamespace bareGraph sampleVolume .fresh 1 bareNamespace := by
  refine ⟨(fun _ _ hentry => by cases hentry), fun id link hlink => .inl ?_, fun key => ?_, fun _ => rfl⟩
  · obtain ⟨row, hrow, rfl⟩ := loadLink_eq_some.mp hlink
    have hmem := Table.mem_rows.mpr hrow
    have hrows : bareGraph.links.rows = [(.fromU128 9, ⟨sampleKey 1, none, "C:", false, 1⟩)] := by decide
    rw [hrows] at hmem
    obtain ⟨rfl, rfl⟩ := Prod.mk.inj (List.mem_singleton.mp hmem)
    exact ⟨rfl, rfl⟩
  · have hrows : bareGraph.objects.rows =
        [(sampleKey 1, ⟨⟨.directory, 0, none, none, false, .online⟩, false, 1⟩)] := by
      decide
    constructor
    · rintro ⟨row, hrow, -⟩
      have hmem := Table.mem_rows.mpr hrow
      rw [hrows] at hmem
      obtain ⟨rfl, -⟩ := Prod.mk.inj (List.mem_singleton.mp hmem)
      exact ⟨1, rfl, .inl rfl⟩
    · rintro ⟨_, rfl, rfl | ⟨_, hentry⟩⟩
      · exact ⟨⟨⟨.directory, 0, none, none, false, .online⟩, false, 1⟩, by decide, rfl⟩
      · cases hentry

def appeared : JournalRecord := ⟨⟨7, 1, reasonFileCreate, "a", false⟩, 1⟩

/-- The flag that the file was closed. -/
def reasonClose : BitVec 32 := 0x80000000#32

def closed : JournalRecord := ⟨⟨7, 1, reasonFileCreate ||| reasonClose, "a", false⟩, 2⟩

def disappeared : JournalRecord := ⟨⟨7, 1, reasonFileDelete ||| reasonClose, "a", false⟩, 3⟩

/-- A file is created, closed and deleted again. -/
def shortLived (lookup : ObjectLookup) : List JournalEntry :=
  [(appeared, .ok (.ok lookup)), (closed, .ok (.ok lookup)), (disappeared, .ok (.ok .unavailable))]

def appearedNamespace : Namespace :=
  Function.update bareNamespace (.named appeared.place) (some 7)

def shortLivedSpaces : List Namespace :=
  [appearedNamespace, appearedNamespace,
    Function.update appearedNamespace (.named disappeared.place) none]

theorem shortLived_truthful {lookup : ObjectLookup} {seen : Namespace}
    (hseen : seen ∈ shortLivedSpaces.tail) (htrue : lookup.TrueIn sampleVolume seen appeared.toSanitizedUsnRecord) :
    TruthfulHistory sampleVolume 1 bareNamespace (shortLived lookup) shortLivedSpaces := by
  have hplace : ∀ slot, appearedNamespace slot = some 7 → slot = .named disappeared.place := by
    intro slot hslot
    by_contra hne
    have hbare : appearedNamespace slot = none := Function.update_of_ne hne _ _
    rw [hbare] at hslot
    cases hslot
  have hempty : ∀ name, appearedNamespace (.named (toLex (7, name))) = none := by
    intro name
    rw [appearedNamespace, Function.update_of_ne]
    · rfl
    · intro h
      have hparent : (7 : Nat) = 1 := congrArg Prod.fst (Slot.named.inj h)
      omega
  refine .cons (.create rfl rfl rfl rfl rfl ⟨by decide, by simp [bareNamespace]⟩ (.inl rfl)) rfl (by decide) rfl
    (List.mem_cons_of_mem _ hseen) htrue ?_
  refine .cons (.report rfl rfl (Function.update_self _ _ _) nofun) rfl (by decide) rfl hseen htrue ?_
  exact .cons (.delete rfl rfl rfl (Function.update_self _ _ _) hplace hempty) rfl (by decide) rfl
    List.mem_cons_self trivial (.nil _)

def shortLivedId : FileLinkId := placeLinkId sampleVolume appeared.place

/-- The three records, each in a batch of its own. -/
def shortLivedBatches (mutations : List GraphMutation) : List GraphMutationBatch :=
  [sampleBatch mutations, sampleBatch mutations,
    sampleBatch [.removeLink shortLivedId (sampleKey 7), .tombstoneObject (sampleKey 7)]]

/-- The file is gone by the time its creation is looked up: the link of a file the
graph has not seen is rejected. -/
theorem vanished_rejected :
    ¬ ∀ (g : FilesystemGraph) (v : VolumeId) (root : Nat) (saved saved' : WindowsCheckpoint)
        (ns : Namespace) (entries : List JournalEntry) (later : List Namespace)
        (events : List FilesystemEvent) (batches : List GraphMutationBatch),
      Reachable g → g.sessions.get v = none → (g.volumes.get v).isSome →
      HoldsNamespace g v saved root ns → TruthfulHistory v root ns entries later →
      canonicalRun v saved entries = .ok (saved', events) → SplitsInto v events batches →
      currentGeneration g v + batches.length < 2 ^ 63 →
      ∃ g', applyBatches g batches = .ok g' := by
  intro h
  have hsession : bareGraph.sessions.get sampleVolume = none := by decide
  have hvolume : (bareGraph.volumes.get sampleVolume).isSome := by decide
  have hbatches : ∀ batch ∈ shortLivedBatches [.upsertLink (observedLink sampleVolume
      appeared.toSanitizedUsnRecord shortLivedId) false], batch.volumeId = sampleVolume ∧
        batch.checkpoint.volumeId = sampleVolume ∧ ∀ m ∈ batch.mutations, m.InVolume sampleVolume := by
    simp [shortLivedBatches, sampleBatch, GraphMutation.InVolume, observedLink, fileKey, sampleKey,
      sampleCheckpoint]
  have hgone : ObjectLookup.TrueIn sampleVolume (Function.update appearedNamespace
      (.named disappeared.place) none) appeared.toSanitizedUsnRecord .missing := by
    show Function.update appearedNamespace (.named disappeared.place) none
      (.named disappeared.place) ≠ some 7
    rw [Function.update_self]
    exact (fun h => by cases h)
  have haccepted := h bareGraph sampleVolume 1 .fresh .fresh bareNamespace (shortLived .missing)
    shortLivedSpaces
    [.linkObserved (observedLink sampleVolume appeared.toSanitizedUsnRecord shortLivedId),
      .linkObserved (observedLink sampleVolume appeared.toSanitizedUsnRecord shortLivedId),
      .linkRemoved shortLivedId (sampleKey 7), .objectRemoved (sampleKey 7)]
    (shortLivedBatches
      [.upsertLink (observedLink sampleVolume appeared.toSanitizedUsnRecord shortLivedId) false])
    bareGraph_reachable hsession hvolume bareGraph_holds
    (shortLived_truthful (List.mem_cons_of_mem _ List.mem_cons_self) hgone) rfl ⟨by decide, rfl⟩ (by decide)
  obtain ⟨-, hadmits, -⟩ := (applyBatches_accepts bareGraph_reachable.wellFormed hsession hvolume
    hbatches).mp haccepted
  -- the link is observed before its object
  have hknown : (bareGraph.objects.get (sampleKey 7)).isSome = true := hadmits.1
  exact absurd hknown (by decide)

def foundEvents : List FilesystemEvent :=
  [.objectObserved (sampleObject 7 .file),
    .linkObserved (observedLink sampleVolume appeared.toSanitizedUsnRecord shortLivedId),
    .objectObserved (sampleObject 7 .file),
    .linkObserved (observedLink sampleVolume appeared.toSanitizedUsnRecord shortLivedId),
    .linkRemoved shortLivedId (sampleKey 7), .objectRemoved (sampleKey 7)]

def foundBatches : List GraphMutationBatch :=
  shortLivedBatches [.upsertObject (sampleObject 7 .file),
    .upsertLink (observedLink sampleVolume appeared.toSanitizedUsnRecord shortLivedId) false]

/-- If the file is found, the batches are accepted. -/
theorem found_accepted : ∃ g', applyBatches bareGraph foundBatches = .ok g' := by
  have hrun : canonicalRun sampleVolume .fresh (shortLived (.observed (sampleObject 7 .file))) =
      .ok (.fresh, foundEvents) := rfl
  have hhistory : TruthfulHistory sampleVolume 1 bareNamespace
      (shortLived (.observed (sampleObject 7 .file))) shortLivedSpaces :=
    shortLived_truthful List.mem_cons_self ⟨(fun hnone => by cases hnone), rfl⟩
  have hbare : (Told.of (Names.of bareGraph)).bound shortLivedId = none := by decide +kernel
  -- the second record tells of the same link again
  have htwice : Function.update (Function.update (Told.of (Names.of bareGraph)).bound shortLivedId
      (some (sampleKey 7))) shortLivedId (some (sampleKey 7)) =
        Function.update (Told.of (Names.of bareGraph)).bound shortLivedId (some (sampleKey 7)) :=
    Function.update_idem _ _ _
  refine (history_accepted_iff bareGraph_reachable (by decide) (by decide) bareGraph_holds hhistory hrun
    ⟨by decide, rfl⟩).mpr ⟨.inr (by decide), ?_, ?_, ?_, trivial⟩
  · refine ⟨?_, fun _ => .inl rfl, ?_, ?_⟩
    · rintro object hobject -
      obtain rfl := ObjectLookup.observed.inj hobject
      decide
    · intro _ key hbound
      have hnone : none = some key := hbare.symm.trans hbound
      cases hnone
    · intro h
      cases h
  · refine ⟨?_, fun _ => .inl rfl, ?_, ?_⟩
    · rintro object hobject -
      obtain rfl := ObjectLookup.observed.inj hobject
      decide
    · intro _ key hbound
      have hown : Function.update (Told.of (Names.of bareGraph)).bound shortLivedId
        (some (sampleKey 7)) shortLivedId = some key := hbound
      rw [Function.update_self] at hown
      exact (Option.some.inj hown).symm
    · intro h
      cases h
  · refine ⟨?_, ?_, ?_, ?_⟩
    · rintro _ _ h
      cases h
    · intro h
      cases h
    · intro _ key hbound
      have hown : Function.update (Told.of (Names.of bareGraph)).bound shortLivedId
        (some (sampleKey 7)) shortLivedId = some key := (congrFun htwice _).symm.trans hbound
      rw [Function.update_self] at hown
      exact (Option.some.inj hown).symm
    · refine fun _ => ⟨.inr ⟨rfl, rfl⟩, fun id hbound => ?_⟩
      by_contra hne
      -- the graph has only the link of the root
      have hroot : (Told.of (Names.of bareGraph)).bound id = some (sampleKey 7) :=
        (Function.update_of_ne hne _ _).symm.trans ((congrFun htwice id).symm.trans hbound)
      obtain ⟨link, hlink, hkey⟩ := link_of_bound hroot
      rcases bareGraph_holds.link id link hlink with ⟨-, hobject⟩ | ⟨_, _, hentry, -, -⟩
      · rw [hobject] at hkey
        exact absurd hkey (by decide)
      · cases hentry

end Example

end LocalSearch.Windows
