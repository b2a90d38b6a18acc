import LocalSearch.Windows.Crawl
import LocalSearch.Windows.Paging
import LocalSearch.Lib.Listing

/-!
# A crawl while names change

A crawl reads a volume one path at a time, and between any two of its steps the
journal may write a record of a name that changes or of a file that has changed.
Every step looks its path up again, so what is found below a path need not be in
the directory that was read.
-/
namespace LocalSearch.Windows

set_option autoImplicit false

open Core Lib

/-- The file at the end of a path from the root. -/
def Namespace.at (ns : Namespace) (root : Nat) (path : List String) : Option Nat :=
  path.foldlM (fun directory name => ns (.named (toLex (directory, name)))) root

/-- What a record did to the names that stood when it was written. -/
def Namespace.changeBy (ns : Namespace) (record : SanitizedUsnRecord) : NameChange Place Nat :=
  if record.has reasonRenameOldName then .leave record.place record.fileReference
  else if record.has reasonFileDelete then .delete record.place record.fileReference
  else if ns (.named record.place) = some record.fileReference then
    .report record.place record.fileReference
  else if record.has reasonRenameNewName then .arrive record.place record.fileReference
  else .create record.place record.fileReference

/-- A record and what it did where it was written. -/
abbrev WrittenRecord := JournalRecord × NameChange Place Nat

/-- One call of `crawl`. Its entries are put under `parent`, whatever directory
the path was opened as. -/
structure CrawlFrame where
  path : List String
  parent : Nat
  directory : Option Nat
  /-- Names that were in the directory since it was opened and were not returned. -/
  standing : Set String
  /-- The entry that was returned and not identified yet. -/
  returned : Option String

def CrawlFrame.enter (path : List String) (parent : Nat) : CrawlFrame := ⟨path, parent, none, ∅, none⟩

/-- A change at the place frees the enumeration from returning its name. -/
def CrawlFrame.release (place : Place) (frame : CrawlFrame) : CrawlFrame :=
  { frame with standing := frame.standing \ {name | ∃ d ∈ frame.directory, toLex (d, name) = place} }

structure CrawlState where
  names : Namespace
  frames : List CrawlFrame
  found : List CrawlEntry

/-- A crawl that has reported the root of its volume. -/
structure CrawlState.Starts (v : VolumeId) (root : Nat) (s : CrawlState) : Prop where
  frames : s.frames = [.enter [] root]
  found : ∃ object name, object.objectKey = fileKey v root ∧ s.found = [⟨object, none, name⟩]

/-- A step of the crawl, or a record of a file that is created, renamed, moved,
deleted or written. -/
inductive CrawlStep (v : VolumeId) (root : Nat) : CrawlState → Option WrittenRecord → CrawlState → Prop
  | change {s : CrawlState} {record : JournalRecord} {ns' : Namespace}
      (hrecord : LegalRecord root s.names record.toSanitizedUsnRecord ns') (hmoves : ns' ≠ s.names)
      (hplain : record.has reasonHardLinkChange = false)
      (hfile : record.fileReference < 2 ^ 64) (hparent : record.parentReference < 2 ^ 64) :
      CrawlStep v root s (some (record, s.names.changeBy record.toSanitizedUsnRecord))
        { s with names := ns', frames := s.frames.map (.release record.place) }
  -- the names stay as they are
  | report {s : CrawlState} {record : JournalRecord}
      (hrecord : LegalRecord root s.names record.toSanitizedUsnRecord s.names)
      (hplain : record.has reasonHardLinkChange = false)
      (hfile : record.fileReference < 2 ^ 64) (hparent : record.parentReference < 2 ^ 64) :
      CrawlStep v root s (some (record, s.names.changeBy record.toSanitizedUsnRecord)) s
  | readDirectory {s : CrawlState} {frame : CrawlFrame} {frames : List CrawlFrame} {directory : Nat}
      (hframe : s.frames = frame :: frames) (hentered : frame.directory = none)
      (hpath : s.names.at root frame.path = some directory) :
      CrawlStep v root s none { s with frames := { frame with
        directory := some directory
        standing := {name | s.names (.named (toLex (directory, name))) ≠ none} } :: frames }
  -- the directory is gone or may not be read
  | unreadable {s : CrawlState} {frame : CrawlFrame} {frames : List CrawlFrame}
      (hframe : s.frames = frame :: frames) (hentered : frame.directory = none) :
      CrawlStep v root s none { s with frames := frames }
  | next {s : CrawlState} {frame : CrawlFrame} {frames : List CrawlFrame} {directory : Nat} {name : String}
      (hframe : s.frames = frame :: frames) (hopen : frame.directory = some directory)
      (hidle : frame.returned = none) (hthere : s.names (.named (toLex (directory, name))) ≠ none) :
      CrawlStep v root s none { s with frames := { frame with
        standing := frame.standing \ {name}
        returned := some name } :: frames }
  -- the entry is gone or may not be read
  | skip {s : CrawlState} {frame : CrawlFrame} {frames : List CrawlFrame} {name : String}
      (hframe : s.frames = frame :: frames) (hreturned : frame.returned = some name) :
      CrawlStep v root s none { s with frames := { frame with returned := none } :: frames }
  -- the path is opened through a reparse point, to whatever it stands for
  | identify {s : CrawlState} {frame : CrawlFrame} {frames : List CrawlFrame} {name : String}
      {object : FileObjectSnapshot} {file : Nat} {reparse : Bool}
      (hframe : s.frames = frame :: frames) (hreturned : frame.returned = some name)
      (hpath : reparse = false → s.names.at root (frame.path ++ [name]) = some file)
      (hfile : file < 2 ^ 64) (hkey : object.objectKey = fileKey v file) :
      CrawlStep v root s none { s with
        frames := (if object.metadata.kind = .directory ∧ reparse = false then
          [.enter (frame.path ++ [name]) file] else []) ++ { frame with returned := none } :: frames
        found := s.found ++ [⟨object, some (fileKey v frame.parent), name⟩] }
  | finish {s : CrawlState} {frame : CrawlFrame} {frames : List CrawlFrame} {directory : Nat}
      (hframe : s.frames = frame :: frames) (hopen : frame.directory = some directory)
      (hidle : frame.returned = none) (hdone : frame.standing = ∅) :
      CrawlStep v root s none { s with frames := frames }

/-- Steps in a row and the records written meanwhile. -/
inductive CrawlRun (v : VolumeId) (root : Nat) (start : CrawlState) : List WrittenRecord → CrawlState → Prop
  | start : CrawlRun v root start [] start
  | step {records : List WrittenRecord} {record : Option WrittenRecord} {s s' : CrawlState}
      (hrun : CrawlRun v root start records s) (hstep : CrawlStep v root s record s') :
      CrawlRun v root start (records ++ record.toList) s'

/-- The number of the file. -/
def fileReferenceOf (key : FileKey) : Nat := key.fileId.bits.toNat

/-- The entry that was seen; the root is none. -/
def CrawlEntry.seen (e : CrawlEntry) : Option (Place × Nat) :=
  e.parentKey.map fun parent =>
    (toLex (fileReferenceOf parent, e.name), fileReferenceOf e.object.objectKey)

def CrawlState.Found (s : CrawlState) (place : Place) (fileReference : Nat) : Prop :=
  ∃ e ∈ s.found, e.seen = some (place, fileReference)

/-- References are unsigned 64-bit integers. -/
structure Namespace.Small (ns : Namespace) (root : Nat) : Prop where
  root : root < 2 ^ 64
  entry : ∀ place fileReference, ns (.named place) = some fileReference →
    (ofLex place).1 < 2 ^ 64 ∧ fileReference < 2 ^ 64

section Found

variable {v : VolumeId} {root : Nat} {start s : CrawlState} {records : List WrittenRecord}

theorem fileReferenceOf_fileKey {n : Nat} (hn : n < 2 ^ 64) : fileReferenceOf (fileKey v n) = n := by
  simp only [fileReferenceOf, fileKey, Id128.fromU128, BitVec.toNat_ofNat]
  omega

theorem fileKey_fileReferenceOf {key : FileKey} (hkey : key.volumeId = v) :
    fileKey v (fileReferenceOf key) = key := by
  obtain ⟨volumeId, ⟨bits⟩⟩ := key
  obtain rfl : volumeId = v := hkey
  simp [fileKey, fileReferenceOf, Id128.fromU128]

/-- A record adds at most the entry it is about. -/
theorem legalRecord_entry {ns ns' : Namespace} {record : SanitizedUsnRecord} {place : Place} {file : Nat}
    (h : LegalRecord root ns record ns') (hnamed : ns' (.named place) = some file) :
    ns (.named place) = some file ∨ place = record.place ∧ file = record.fileReference := by
  have hset : ∀ {m : Namespace} {o : Option Nat},
      Function.update m (.named record.place) o (.named place) = some file →
        m (.named place) = some file ∨ place = record.place ∧ o = some file := by
    intro m o hupdate
    rw [Function.update_apply] at hupdate
    split_ifs at hupdate with hplace
    · exact .inr ⟨Slot.named.inj hplace, hupdate⟩
    · exact .inl hupdate
  have hmoved : ∀ {m : Namespace} {o : Option Nat},
      Function.update m (.moving record.fileReference) o (.named place) = m (.named place) :=
    Function.update_of_ne (by simp) _ _
  cases h with
  | create | link =>
    exact (hset hnamed).imp_right fun hnew => ⟨hnew.1, (Option.some.inj hnew.2).symm⟩
  | oldName =>
    rw [hmoved] at hnamed
    exact (hset hnamed).imp_right fun hnew => by cases hnew.2
  | newName =>
    rcases hset hnamed with hold | ⟨hplace, hfile⟩
    · rw [hmoved] at hold
      exact .inl hold
    · exact .inr ⟨hplace, (Option.some.inj hfile).symm⟩
  | delete | unlink => exact (hset hnamed).imp_right fun hnew => by cases hnew.2
  | report | unlinked => exact .inl hnamed

/-- References stay in their range. -/
theorem CrawlRun.small (hsmall : start.names.Small root) (hrun : CrawlRun v root start records s) :
    s.names.Small root := by
  induction hrun with
  | start => exact hsmall
  | step _ hstep ih =>
    cases hstep with
    | change hrecord hmoves hplain hfile hparent =>
      refine ⟨ih.root, fun place file hnamed => ?_⟩
      rcases legalRecord_entry hrecord hnamed with hold | ⟨rfl, rfl⟩
      · exact ih.entry place file hold
      · exact ⟨hparent, hfile⟩
    | report | readDirectory | unreadable | next | skip | identify | finish => exact ih

/-- An entry below the root, as it was emitted. -/
def CrawlEntry.Below (v : VolumeId) (e : CrawlEntry) : Prop :=
  ∃ parent file, parent < 2 ^ 64 ∧ file < 2 ^ 64 ∧ e.parentKey = some (fileKey v parent) ∧
    e.object.objectKey = fileKey v file

/-- The crawl emits the root and entries below it. -/
theorem CrawlRun.found (hstarts : start.Starts v root) (hroot : root < 2 ^ 64)
    (hrun : CrawlRun v root start records s) :
    (∀ frame ∈ s.frames, frame.parent < 2 ^ 64) ∧
      ∃ below, s.found = start.found ++ below ∧ ∀ e ∈ below, CrawlEntry.Below v e := by
  induction hrun with
  | start =>
    refine ⟨fun frame hframe => ?_, [], (List.append_nil _).symm, by simp⟩
    rw [hstarts.frames] at hframe
    rw [List.mem_singleton.mp hframe]
    exact hroot
  | @step records record s s' _ hstep ih =>
    obtain ⟨hframes, hbelow⟩ := ih
    -- a step that only changes the frame on top
    have htop : ∀ {frame : CrawlFrame} {frames : List CrawlFrame} (frame' : CrawlFrame),
        s.frames = frame :: frames → frame'.parent = frame.parent →
          ∀ f ∈ frame' :: frames, f.parent < 2 ^ 64 := by
      intro frame frames frame' hframe hparent f hf
      rcases List.mem_cons.mp hf with rfl | hf
      · rw [hparent]
        exact hframes frame (hframe ▸ List.mem_cons_self)
      · exact hframes f (hframe ▸ List.mem_cons_of_mem _ hf)
    have hpop : ∀ {frame : CrawlFrame} {frames : List CrawlFrame}, s.frames = frame :: frames →
        ∀ f ∈ frames, f.parent < 2 ^ 64 := fun hframe f hf =>
      hframes f (hframe ▸ List.mem_cons_of_mem _ hf)
    cases hstep with
    | change =>
      refine ⟨fun frame' hframe' => ?_, hbelow⟩
      obtain ⟨frame, hframe, rfl⟩ := List.mem_map.mp hframe'
      exact hframes frame hframe
    | report => exact ⟨hframes, hbelow⟩
    | readDirectory hframe => exact ⟨htop _ hframe rfl, hbelow⟩
    | unreadable hframe => exact ⟨hpop hframe, hbelow⟩
    | next hframe => exact ⟨htop _ hframe rfl, hbelow⟩
    | skip hframe => exact ⟨htop _ hframe rfl, hbelow⟩
    | finish hframe => exact ⟨hpop hframe, hbelow⟩
    | @identify frame frames name object file reparse hframe hreturned hpath hfile hkey =>
      refine ⟨fun f hf => ?_, ?_⟩
      · rcases List.mem_append.mp hf with hf | hf
        · split_ifs at hf
          · rw [List.mem_singleton.mp hf]
            exact hfile
          · cases hf
        · exact htop { frame with returned := none } hframe rfl f hf
      · obtain ⟨below, hfound, hentries⟩ := hbelow
        refine ⟨below ++ [⟨object, some (fileKey v frame.parent), name⟩], ?_, fun e he => ?_⟩
        · rw [← List.append_assoc, ← hfound]
        · rcases List.mem_append.mp he with he | he
          · exact hentries e he
          · obtain rfl := List.mem_singleton.mp he
            exact ⟨frame.parent, file, hframes frame (hframe ▸ List.mem_cons_self), hfile, rfl, hkey⟩

end Found

end LocalSearch.Windows
