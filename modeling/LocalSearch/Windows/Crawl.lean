import LocalSearch.Graph.ObservationScan
import LocalSearch.Windows.LinkIdentity
import Mathlib.Data.Fin.Basic

/-!
# What a crawl emits

A crawl reports every entry of a directory tree as an object followed by its
link, parents before children. Directories are entered once; a file may have
several entries.
-/
namespace LocalSearch.Windows

set_option autoImplicit false

open Core Graph

/-- One visited entry; the volume root has no parent. -/
structure CrawlEntry where
  object : FileObjectSnapshot
  parentKey : Option FileKey
  name : String
  deriving DecidableEq, Repr

namespace CrawlEntry

def fileLinkId (v : VolumeId) (e : CrawlEntry) : FileLinkId :=
  match e.parentKey with
  | none => rootLinkId v
  | some _ => linkIdFor e.parentKey e.name

def link (v : VolumeId) (e : CrawlEntry) : FileLinkSnapshot :=
  ⟨e.fileLinkId v, e.object.objectKey, e.parentKey, e.name⟩

def events (v : VolumeId) (e : CrawlEntry) : List FilesystemEvent :=
  [.objectObserved e.object, .linkObserved (e.link v)]

end CrawlEntry

/-- A scan of a crawl writes the link of each entry. -/
theorem linkWrites_entries {v : VolumeId} (entries : List CrawlEntry) :
    (entries.flatMap (CrawlEntry.events v)).filterMap linkWrite =
      entries.map fun e => (e.fileLinkId v, some (storedLink (e.link v) false)) := by
  induction entries with
  | nil => rfl
  | cons e entries ih =>
    rw [List.flatMap_cons, List.filterMap_append, ih]
    rfl

/-- A directory tree in the order a crawl visits it. -/
structure CrawlTree (v : VolumeId) where
  entries : List CrawlEntry
  onVolume : ∀ e ∈ entries, e.object.objectKey.volumeId = v
  /-- The directory of an entry was visited before it. -/
  parentsFirst : ∀ i : Fin entries.length, ∀ p ∈ (entries.get i).parentKey,
    ∃ parent ∈ entries.take i, parent.object.objectKey = p
  /-- An object that has entries below it is visited once. -/
  directories : ∀ a ∈ entries, ∀ b ∈ entries, ∀ c ∈ entries,
    c.parentKey = some a.object.objectKey → b.object.objectKey = a.object.objectKey → b = a
  /-- Names are unique in a directory and their hashes do not collide. -/
  linkIds : (entries.map (CrawlEntry.fileLinkId v)).Nodup

namespace CrawlTree

variable {v : VolumeId}

def events (tree : CrawlTree v) : List FilesystemEvent := tree.entries.flatMap (CrawlEntry.events v)

/-- Number of components of the path to an entry. -/
inductive AtDepth (tree : CrawlTree v) : CrawlEntry → Nat → Prop
  | root {e : CrawlEntry} (h : e ∈ tree.entries) (hp : e.parentKey = none) : AtDepth tree e 1
  | child {e parent : CrawlEntry} {d : Nat} (h : e ∈ tree.entries) (hparent : AtDepth tree parent d)
      (hp : e.parentKey = some parent.object.objectKey) : AtDepth tree e (d + 1)

variable {tree : CrawlTree v} {e : CrawlEntry} {d d' : Nat}

theorem AtDepth.mem (h : AtDepth tree e d) : e ∈ tree.entries := by
  cases h with
  | root h => exact h
  | child h => exact h

theorem AtDepth.unique (h : AtDepth tree e d) (h' : AtDepth tree e d') : d = d' := by
  induction h generalizing d' with
  | root _ hp =>
    cases h' with
    | root => rfl
    | child _ _ hp' => rw [hp] at hp'; cases hp'
  | @child e parent d hmem hparent hp ih =>
    cases h' with
    | root _ hp' => rw [hp'] at hp; cases hp
    | @child _ parent' d' _ hparent' hp' =>
      have hkey : parent'.object.objectKey = parent.object.objectKey :=
        Option.some.inj (hp'.symm.trans hp)
      obtain rfl := tree.directories parent hparent.mem parent' hparent'.mem e hmem hp hkey
      rw [ih hparent']

theorem exists_parent (tree : CrawlTree v) (i : Fin tree.entries.length) {p : FileKey}
    (hp : (tree.entries.get i).parentKey = some p) :
    ∃ j : Fin tree.entries.length, j < i ∧ (tree.entries.get j).object.objectKey = p := by
  obtain ⟨parent, hmem, hkey⟩ := tree.parentsFirst i p hp
  obtain ⟨j, hj, rfl⟩ := List.mem_take_iff_getElem.mp hmem
  have hlt : j < i ∧ j < tree.entries.length := by omega
  exact ⟨⟨j, hlt.2⟩, hlt.1, hkey⟩

/-- Every entry hangs at some depth: its directory was visited before. -/
theorem exists_depth (tree : CrawlTree v) (i : Fin tree.entries.length) :
    ∃ d, AtDepth tree (tree.entries.get i) d := by
  induction i using Fin.strong_induction_on with
  | h i ih =>
    have hmem := List.get_mem tree.entries i
    cases hp : (tree.entries.get i).parentKey with
    | none => exact ⟨1, .root hmem hp⟩
    | some p =>
      obtain ⟨j, hlt, rfl⟩ := tree.exists_parent i hp
      obtain ⟨d, hd⟩ := ih j hlt
      exact ⟨d + 1, .child hmem hd hp⟩

/-- The depth of an entry is bounded by its position. -/
theorem AtDepth.le_position (i : Fin tree.entries.length) (h : AtDepth tree (tree.entries.get i) d) :
    d ≤ i + 1 := by
  induction i using Fin.strong_induction_on generalizing d with
  | h i ih =>
    cases hp : (tree.entries.get i).parentKey with
    | none =>
      rw [h.unique (.root h.mem hp)]
      exact Nat.le_add_left 1 i
    | some p =>
      obtain ⟨j, hlt, rfl⟩ := tree.exists_parent i hp
      obtain ⟨d', hd'⟩ := tree.exists_depth j
      have hle := ih j hlt hd'
      have hji : (j : Nat) < i := hlt
      rw [h.unique (.child h.mem hd' hp)]
      omega

end CrawlTree

end LocalSearch.Windows
