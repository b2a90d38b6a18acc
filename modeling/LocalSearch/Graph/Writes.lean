import LocalSearch.Graph.Transaction
import LocalSearch.Lib.Replay

/-!
# Mutations as keyed writes

While no scan of its volume is open, a mutation that is accepted writes values
that do not depend on the state: the link it observes or removes, the metadata
of the object, the descriptor, state and reason of the volume. A whole batch is
then a log of such writes. Only the tombstone of an object depends on more than
the last write, namely on the links that stand when one is removed.
-/
namespace LocalSearch.Graph

set_option autoImplicit false

open Core Lib

section Loop

variable {gen n : Nat} {g g' g₁ : FilesystemGraph} {m : GraphMutation} {ms pre post : List GraphMutation}

/-- The mutation loop of a batch, without what it gathers on the way. -/
def Mutates (gen : Nat) (g : FilesystemGraph) (ms : List GraphMutation) (g' : FilesystemGraph) : Prop :=
  ∃ affected affected' n, applyMutations gen g affected ms = .ok (g', affected', n)

/-- The affected links gathered so far do not decide what is accepted. -/
theorem applyMutations_gathered {affected affected' : LinkSet}
    (h : applyMutations gen g affected ms = .ok (g', affected', n)) (other : LinkSet) :
    ∃ other', applyMutations gen g other ms = .ok (g', other', n) := by
  induction ms generalizing g affected affected' other n with
  | nil =>
    obtain ⟨rfl, -, rfl⟩ := Prod.mk.inj (Except.ok.inj h) |>.imp id Prod.mk.inj
    exact ⟨other, rfl⟩
  | cons m ms ih =>
    simp only [applyMutations, bind_ok] at h
    obtain ⟨⟨g₁, n₁⟩, h₁, ⟨g₂, affected₂, n₂⟩, h₂, heq⟩ := h
    obtain ⟨rfl, -, rfl⟩ := Prod.mk.inj (Except.ok.inj heq) |>.imp id Prod.mk.inj
    obtain ⟨other', hother⟩ := ih h₂ (collectAffectedLinks g m other)
    refine ⟨other', ?_⟩
    simp only [applyMutations, bind_ok]
    exact ⟨_, h₁, _, hother, rfl⟩

theorem mutates_nil : Mutates gen g [] g' ↔ g' = g := by
  constructor
  · rintro ⟨affected, affected', n, h⟩
    exact (Prod.mk.inj (Except.ok.inj h)).1.symm
  · rintro rfl
    exact ⟨.empty, .empty, 0, rfl⟩

theorem mutates_cons :
    Mutates gen g (m :: ms) g' ↔ ∃ g₁ n, applyMutation g m gen = .ok (g₁, n) ∧ Mutates gen g₁ ms g' := by
  constructor
  · rintro ⟨affected, affected', n, h⟩
    simp only [applyMutations, bind_ok] at h
    obtain ⟨⟨g₁, n₁⟩, h₁, ⟨g₂, affected₂, n₂⟩, h₂, heq⟩ := h
    obtain ⟨rfl, -, -⟩ := Prod.mk.inj (Except.ok.inj heq) |>.imp id Prod.mk.inj
    exact ⟨g₁, n₁, h₁, _, _, _, h₂⟩
  · rintro ⟨g₁, n₁, h₁, affected, affected', n₂, h₂⟩
    obtain ⟨affected₂, h₂⟩ := applyMutations_gathered h₂ (collectAffectedLinks g m .empty)
    refine ⟨.empty, affected₂, n₁ + n₂, ?_⟩
    simp only [applyMutations, bind_ok]
    exact ⟨_, h₁, _, h₂, rfl⟩

theorem mutates_append :
    Mutates gen g (pre ++ post) g' ↔ ∃ g₁, Mutates gen g pre g₁ ∧ Mutates gen g₁ post g' := by
  induction pre generalizing g with
  | nil =>
    constructor
    · intro h
      exact ⟨g, mutates_nil.mpr rfl, h⟩
    · rintro ⟨g₁, h₁, h⟩
      obtain rfl := mutates_nil.mp h₁
      exact h
  | cons m pre ih =>
    rw [List.cons_append, mutates_cons]
    constructor
    · rintro ⟨g₁, n, h₁, h⟩
      obtain ⟨g₂, h₂, h⟩ := ih.mp h
      exact ⟨g₂, mutates_cons.mpr ⟨g₁, n, h₁, h₂⟩, h⟩
    · rintro ⟨g₂, h₂, h⟩
      obtain ⟨g₁, n, h₁, h₂⟩ := mutates_cons.mp h₂
      exact ⟨g₁, n, h₁, ih.mpr ⟨g₂, h₂, h⟩⟩

/-- What every accepted mutation of the list preserves, its run preserves. -/
theorem Mutates.induct {P : FilesystemGraph → Prop}
    (hstep : ∀ m ∈ ms, ∀ g g' n, P g → applyMutation g m gen = .ok (g', n) → P g')
    (h : Mutates gen g ms g') (h₀ : P g) : P g' := by
  obtain ⟨affected, affected', n, h⟩ := h
  exact applyMutations_induct (P := fun g _ => P g) (fun m hm g _ g' n => hstep m hm g g' n) h h₀

theorem Mutates.frame (h : Mutates gen g ms g') :
    g' = { g with
      volumes := g'.volumes, objects := g'.objects, links := g'.links
      pathJobs := g'.pathJobs, volumeJobs := g'.volumeJobs } := by
  obtain ⟨affected, affected', n, h⟩ := h
  exact applyMutations_frame h

end Loop

namespace GraphMutation

/-- The link a mutation leaves behind or removes. -/
def linkWrites : GraphMutation → List (FileLinkId × Option StoredLink)
  | .upsertLink link boundary => [(link.fileLinkId, some (storedLink link boundary))]
  | .removeLink id _ => [(id, none)]
  | _ => []

def metadataWrites : GraphMutation → List (FileKey × Option FileMetadata)
  | .upsertObject object => [(object.objectKey, some object.metadata)]
  | _ => []

def descriptorWrites : GraphMutation → List (VolumeId × Option VolumeDescriptor)
  | .upsertVolume descriptor => [(descriptor.volumeId, some descriptor)]
  | _ => []

def stateWrites : GraphMutation → List (VolumeId × Option VolumeState)
  | .upsertVolume descriptor => [(descriptor.volumeId, some .online)]
  | .setVolumeState volumeId state => [(volumeId, some state)]
  | .requireReconciliation volumeId _ => [(volumeId, some .needsReconciliation)]
  | _ => []

def reasonWrites : GraphMutation → List (VolumeId × Option (Option ReconciliationReason))
  | .upsertVolume descriptor => [(descriptor.volumeId, some none)]
  | .requireReconciliation volumeId reason => [(volumeId, some (some reason))]
  | _ => []

end GraphMutation

/-- The links a batch writes, in order. -/
def linkLog (ms : List GraphMutation) : List (FileLinkId × Option StoredLink) :=
  ms.flatMap GraphMutation.linkWrites

@[simp] theorem linkLog_append (a b : List GraphMutation) : linkLog (a ++ b) = linkLog a ++ linkLog b :=
  List.flatMap_append

section Writes

variable {v : VolumeId} {gen n : Nat} {g g' : FilesystemGraph} {m : GraphMutation}
  {ms : List GraphMutation}

/-- What each mutation writes in one step, a run writes as a log. -/
theorem Mutates.replays {κ β : Type} [DecidableEq κ] {view : FilesystemGraph → κ → Option β}
    {writes : GraphMutation → List (κ × Option β)} (hs : g.sessions.get v = none)
    (hms : ∀ m ∈ ms, m.InVolume v)
    (hstep : ∀ g m g' n, g.sessions.get v = none → m.InVolume v →
      applyMutation g m gen = .ok (g', n) → view g' = replay (view g) (writes m))
    (h : Mutates gen g ms g') : view g' = replay (view g) (ms.flatMap writes) := by
  induction ms generalizing g with
  | nil =>
    obtain rfl := mutates_nil.mp h
    rfl
  | cons m ms ih =>
    obtain ⟨g₁, n, h₁, h⟩ := mutates_cons.mp h
    have hs₁ : g₁.sessions.get v = none := by
      rw [applyMutation_frame h₁]
      exact hs
    rw [ih hs₁ (fun x hx => hms x (List.mem_cons_of_mem _ hx)) h,
      hstep g m g₁ n hs (hms m List.mem_cons_self) h₁, List.flatMap_cons, replay_append]

/-- Without an open scan nothing counts as stale. -/
theorem staleObservationLinkConflicts_nil {link : FileLinkSnapshot}
    (hs : g.sessions.get link.objectKey.volumeId = none) :
    staleObservationLinkConflicts g link = [] := by
  simp [staleObservationLinkConflicts, scanCutoff, hs]

/-- An observed link, without an open scan: the object is known, the refresh
queue may grow, and the link is put. -/
theorem upsertLink_closed {link : FileLinkSnapshot} {boundary : Bool}
    (hs : g.sessions.get link.objectKey.volumeId = none)
    (h : upsertLink g link boundary gen = .ok (g', n)) :
    ∃ g₂, g₂ = { g with pathJobs := g₂.pathJobs } ∧ g' = putLink g₂ link boundary gen := by
  obtain ⟨-, g₁, g₂, h₁, h₂, -, rfl⟩ := upsertLink_ok h
  rw [staleObservationLinkConflicts_nil hs] at h₁
  obtain rfl := Except.ok.inj h₁
  exact ⟨g₂, refreshMovedDirectory_frame h₂, rfl⟩

theorem loadLink_putLink (g : FilesystemGraph) (link : FileLinkSnapshot) (boundary : Bool) (gen : Nat) :
    loadLink (putLink g link boundary gen) =
      Function.update (loadLink g) link.fileLinkId (some (storedLink link boundary)) := by
  funext id
  rw [loadLink, putLink_links, Table.get_insert, Function.update_apply]
  split_ifs with hid
  · subst hid
    rfl
  · rfl

/-- The links after a mutation. -/
theorem loadLink_applyMutation (hs : g.sessions.get v = none) (hm : m.InVolume v)
    (h : applyMutation g m gen = .ok (g', n)) : loadLink g' = replay (loadLink g) m.linkWrites := by
  cases m with
  | upsertLink link boundary =>
    rw [← hm.1] at hs
    obtain ⟨g₂, hframe, rfl⟩ := upsertLink_closed hs h
    rw [loadLink_putLink, hframe]
    rfl
  | removeLink id object =>
    funext j
    rw [loadLink, removeLinkInternal_get h]
    change _ = Function.update (loadLink g) id none j
    rw [Function.update_apply]
    split_ifs
    · rfl
    · rfl
  | upsertVolume | setVolumeState | requireReconciliation | upsertObject | tombstoneObject =>
    funext j
    rw [loadLink, applyMutation_rows (fun hlinks => by cases hlinks) h]
    rfl

/-- The links after a batch are what the log of its writes leaves. -/
theorem Mutates.links (hs : g.sessions.get v = none) (hms : ∀ m ∈ ms, m.InVolume v)
    (h : Mutates gen g ms g') : loadLink g' = replay (loadLink g) (linkLog ms) :=
  h.replays hs hms fun _ _ _ _ hs hm h => loadLink_applyMutation hs hm h

def metadataOf (g : FilesystemGraph) (key : FileKey) : Option FileMetadata :=
  (g.objects.get key).map (·.metadata)

theorem metadataOf_setTombstoned (g : FilesystemGraph) (o : FileKey) (b : Bool) :
    metadataOf (setTombstoned g o b) = metadataOf g := by
  funext key
  rw [metadataOf, setTombstoned_get, metadataOf]
  split_ifs
  · rw [Option.map_map]
    rfl
  · rfl

theorem metadataOf_dropLink (g : FilesystemGraph) (id : FileLinkId) (o : FileKey) :
    metadataOf (dropLink g id o) = metadataOf g := by
  rcases dropLink_cases g id o with ⟨h, -⟩ | ⟨h, -⟩ <;> rw [h]
  · rfl
  · rw [metadataOf_setTombstoned]
    rfl

theorem upsertObject_ok {object : FileObjectSnapshot} (h : upsertObject g object gen = .ok g') :
    object.metadata.size < 2 ^ 63 ∧ (g.volumes.get object.objectKey.volumeId).isSome ∧
      g' = { g with objects := g.objects.insert object.objectKey ⟨object.metadata, false, gen⟩ } := by
  simp only [upsertObject, guard_ok, not_le] at h
  obtain ⟨hsize, hvol, heq⟩ := h
  refine ⟨hsize, ?_, (Except.ok.inj heq).symm⟩
  cases hget : g.volumes.get object.objectKey.volumeId with
  | none => simp [hget] at hvol
  | some row => rfl

/-- A volume mutation writes the row of its volume and leaves objects alone. -/
theorem applyMutation_volume_cases (h : applyMutation g m gen = .ok (g', n)) :
    (∃ descriptor, m = .upsertVolume descriptor ∧ g'.objects = g.objects ∧
      g'.volumes = g.volumes.insert descriptor.volumeId
        ⟨descriptor, .online, none, currentGeneration g descriptor.volumeId⟩) ∨
    (∃ w state row, m = .setVolumeState w state ∧ g'.objects = g.objects ∧
      g.volumes.get w = some row ∧ g'.volumes = g.volumes.insert w { row with state := state }) ∨
    (∃ w reason row, m = .requireReconciliation w reason ∧ g'.objects = g.objects ∧
      g.volumes.get w = some row ∧ g'.volumes = g.volumes.insert w
        { row with state := .needsReconciliation, reconciliationReason := some reason }) ∨
    (g'.volumes = g.volumes ∧ m.descriptorWrites = [] ∧ m.stateWrites = [] ∧ m.reasonWrites = []) := by
  cases m with
  | upsertVolume descriptor =>
    obtain ⟨rfl, -⟩ := Prod.mk.inj (Except.ok.inj h)
    exact .inl ⟨descriptor, rfl, rfl, rfl⟩
  | setVolumeState w state =>
    simp only [applyMutation, setVolumeState] at h
    cases hrow : g.volumes.get w with
    | none => rw [hrow] at h; cases h
    | some row =>
      rw [hrow] at h
      obtain ⟨rfl, -⟩ := Prod.mk.inj (Except.ok.inj h)
      exact .inr (.inl ⟨w, state, row, rfl, rfl, hrow, rfl⟩)
  | requireReconciliation w reason =>
    simp only [applyMutation, requireReconciliation] at h
    cases hrow : g.volumes.get w with
    | none => rw [hrow] at h; cases h
    | some row =>
      rw [hrow] at h
      obtain ⟨rfl, -⟩ := Prod.mk.inj (Except.ok.inj h)
      exact .inr (.inr (.inl ⟨w, reason, row, rfl, rfl, hrow, rfl⟩))
  | upsertObject object =>
    obtain ⟨g₁, h₁, heq⟩ := bind_ok.mp h
    obtain ⟨rfl, -⟩ := Prod.mk.inj (Except.ok.inj heq)
    obtain ⟨-, -, rfl⟩ := upsertObject_ok h₁
    exact .inr (.inr (.inr ⟨rfl, rfl, rfl, rfl⟩))
  | tombstoneObject object =>
    obtain ⟨g₁, h₁, heq⟩ := bind_ok.mp h
    obtain ⟨rfl, -⟩ := Prod.mk.inj (Except.ok.inj heq)
    obtain ⟨-, -, rfl⟩ := tombstoneObject_ok h₁
    exact .inr (.inr (.inr ⟨rfl, rfl, rfl, rfl⟩))
  | upsertLink link boundary =>
    refine .inr (.inr (.inr ⟨?_, rfl, rfl, rfl⟩))
    rw [upsertLink_frame h]
  | removeLink id object =>
    refine .inr (.inr (.inr ⟨?_, rfl, rfl, rfl⟩))
    rw [removeLinkInternal_frame h]

theorem applyMutation_volume_objects (h : applyMutation g m gen = .ok (g', n))
    (hm : m.stateWrites ≠ []) : g'.objects = g.objects := by
  rcases applyMutation_volume_cases h with ⟨_, -, h, -⟩ | ⟨_, _, _, -, h, -⟩ | ⟨_, _, _, -, h, -⟩ |
    ⟨-, -, h, -⟩
  · exact h
  · exact h
  · exact h
  · exact absurd h hm

theorem metadataOf_of_objects (h : g'.objects = g.objects) : metadataOf g' = metadataOf g := by
  funext key
  rw [metadataOf, metadataOf, h]

theorem metadataOf_removeLink {id : FileLinkId} {object : FileKey}
    (h : removeLink g id object gen = .ok (g', n)) : metadataOf g' = metadataOf g := by
  rcases removeLinkInternal_ok h with ⟨-, rfl⟩ | ⟨row, stored, -, -, -, rfl⟩
  · rfl
  · split_ifs
    · rw [enqueueRefresh_frame]
      exact metadataOf_dropLink g id object
    · exact metadataOf_dropLink g id object

theorem metadataOf_upsertObject {object : FileObjectSnapshot}
    (h : upsertObject g object gen = .ok g') :
    metadataOf g' = Function.update (metadataOf g) object.objectKey (some object.metadata) := by
  obtain ⟨-, -, rfl⟩ := upsertObject_ok h
  funext key
  rw [metadataOf, Table.get_insert, Function.update_apply]
  split_ifs
  · rfl
  · rfl

theorem metadataOf_applyMutation (hs : g.sessions.get v = none) (hm : m.InVolume v)
    (h : applyMutation g m gen = .ok (g', n)) :
    metadataOf g' = replay (metadataOf g) m.metadataWrites := by
  cases m with
  | upsertLink link boundary =>
    rw [← hm.1] at hs
    obtain ⟨g₂, hframe, rfl⟩ := upsertLink_closed hs h
    rw [putLink, metadataOf_setTombstoned]
    exact metadataOf_of_objects (by rw [hframe])
  | removeLink id object => exact metadataOf_removeLink h
  | upsertObject object =>
    obtain ⟨g₁, h₁, heq⟩ := bind_ok.mp h
    obtain ⟨rfl, -⟩ := Prod.mk.inj (Except.ok.inj heq)
    exact metadataOf_upsertObject h₁
  | tombstoneObject object =>
    obtain ⟨g₁, h₁, heq⟩ := bind_ok.mp h
    obtain ⟨rfl, -⟩ := Prod.mk.inj (Except.ok.inj heq)
    obtain ⟨-, -, rfl⟩ := tombstoneObject_ok h₁
    exact metadataOf_setTombstoned g object true
  | upsertVolume | setVolumeState | requireReconciliation =>
    exact metadataOf_of_objects (applyMutation_volume_objects h (List.cons_ne_nil _ _))

/-- One column of the volume rows. -/
def volumeColumn {β : Type} (column : VolumeRow → β) (g : FilesystemGraph) (w : VolumeId) : Option β :=
  (g.volumes.get w).map column

theorem volumeColumn_insert {β : Type} (column : VolumeRow → β) {w : VolumeId} {row : VolumeRow}
    (h : g'.volumes = g.volumes.insert w row) :
    volumeColumn column g' = Function.update (volumeColumn column g) w (some (column row)) := by
  funext w'
  rw [volumeColumn, h, Table.get_insert, Function.update_apply]
  split_ifs
  · rfl
  · rfl

/-- A row that keeps the column. -/
theorem volumeColumn_kept {β : Type} {column : VolumeRow → β} {w : VolumeId} {old row : VolumeRow}
    (hold : g.volumes.get w = some old) (h : g'.volumes = g.volumes.insert w row)
    (hkept : column row = column old) : volumeColumn column g' = volumeColumn column g := by
  rw [volumeColumn_insert column h, hkept]
  refine Function.update_eq_self_iff.mpr ?_
  rw [volumeColumn, hold]
  rfl

theorem volumeColumn_of_volumes {β : Type} {column : VolumeRow → β} (h : g'.volumes = g.volumes) :
    volumeColumn column g' = volumeColumn column g := by
  funext w
  rw [volumeColumn, volumeColumn, h]

theorem descriptor_applyMutation (h : applyMutation g m gen = .ok (g', n)) :
    volumeColumn (·.descriptor) g' = replay (volumeColumn (·.descriptor) g) m.descriptorWrites := by
  rcases applyMutation_volume_cases h with ⟨d, rfl, -, h⟩ | ⟨w, state, row, rfl, -, hrow, h⟩ |
    ⟨w, reason, row, rfl, -, hrow, h⟩ | ⟨hvol, hw, -, -⟩
  · exact volumeColumn_insert _ h
  · exact volumeColumn_kept hrow h rfl
  · exact volumeColumn_kept hrow h rfl
  · rw [hw]
    exact volumeColumn_of_volumes hvol

theorem state_applyMutation (h : applyMutation g m gen = .ok (g', n)) :
    volumeColumn (·.state) g' = replay (volumeColumn (·.state) g) m.stateWrites := by
  rcases applyMutation_volume_cases h with ⟨d, rfl, -, h⟩ | ⟨w, state, row, rfl, -, hrow, h⟩ |
    ⟨w, reason, row, rfl, -, hrow, h⟩ | ⟨hvol, -, hw, -⟩
  · exact volumeColumn_insert _ h
  · exact volumeColumn_insert _ h
  · exact volumeColumn_insert _ h
  · rw [hw]
    exact volumeColumn_of_volumes hvol

theorem reason_applyMutation (h : applyMutation g m gen = .ok (g', n)) :
    volumeColumn (·.reconciliationReason) g' =
      replay (volumeColumn (·.reconciliationReason) g) m.reasonWrites := by
  rcases applyMutation_volume_cases h with ⟨d, rfl, -, h⟩ | ⟨w, state, row, rfl, -, hrow, h⟩ |
    ⟨w, reason, row, rfl, -, hrow, h⟩ | ⟨hvol, -, -, hw⟩
  · exact volumeColumn_insert _ h
  · exact volumeColumn_kept hrow h rfl
  · exact volumeColumn_insert _ h
  · rw [hw]
    exact volumeColumn_of_volumes hvol

/-- The volume and object rows a mutation relies on. -/
def GraphMutation.Grounded (g : FilesystemGraph) : GraphMutation → Prop
  | .setVolumeState volumeId _ | .requireReconciliation volumeId _ => (g.volumes.get volumeId).isSome
  | .upsertObject object =>
      object.metadata.size < 2 ^ 63 ∧ (g.volumes.get object.objectKey.volumeId).isSome
  | .upsertLink link _ => (g.objects.get link.objectKey).isSome
  | .tombstoneObject objectKey => (g.objects.get objectKey).isSome
  | .upsertVolume _ | .removeLink _ _ => True

/-- The mutation can be applied while the link stands. -/
def GraphMutation.Admits (link : StoredLink) : GraphMutation → Prop
  | .upsertLink observed _ =>
      if link.fileLinkId = observed.fileLinkId then link.objectKey = observed.objectKey
      else ¬ (link.name = observed.name ∧ link.parentKey = observed.parentKey ∧
        (observed.parentKey = none → link.objectKey.volumeId = observed.objectKey.volumeId))
  | .removeLink id objectKey => link.fileLinkId = id → link.objectKey = objectKey
  | .tombstoneObject objectKey => link.objectKey ≠ objectKey
  | .upsertVolume _ | .setVolumeState _ _ | .upsertObject _ | .requireReconciliation _ _ => True

instance (link : StoredLink) : ∀ m : GraphMutation, Decidable (m.Admits link)
  | .upsertLink observed _ => inferInstanceAs (Decidable (if link.fileLinkId = observed.fileLinkId then
      link.objectKey = observed.objectKey else ¬ (link.name = observed.name ∧
        link.parentKey = observed.parentKey ∧
        (observed.parentKey = none → link.objectKey.volumeId = observed.objectKey.volumeId))))
  | .removeLink id objectKey =>
      inferInstanceAs (Decidable (link.fileLinkId = id → link.objectKey = objectKey))
  | .tombstoneObject objectKey => inferInstanceAs (Decidable (link.objectKey ≠ objectKey))
  | .upsertVolume _ | .setVolumeState _ _ | .upsertObject _ | .requireReconciliation _ _ =>
      isTrue trivial

theorem not_isNone {α : Type} {o : Option α} (h : o.isSome) : ¬ o.isNone = true := by
  rw [Bool.not_eq_true, Option.isNone_eq_false_iff]
  exact h

theorem refreshMovedDirectory_accepts {link : FileLinkSnapshot}
    (hobj : (g.objects.get link.objectKey).isSome) :
    (∃ r, refreshMovedDirectory g link gen = .ok r) ↔
      ∀ row, g.links.get link.fileLinkId = some row → row.objectKey = link.objectKey := by
  constructor
  · rintro ⟨⟨g', n⟩, h⟩
    exact (refreshMovedDirectory_ok h).1
  · intro hbound
    unfold refreshMovedDirectory
    cases hrow : g.links.get link.fileLinkId with
    | none => exact ⟨_, rfl⟩
    | some row =>
      obtain ⟨object, hget⟩ := Option.isSome_iff_exists.mp hobj
      have hdir : isDirectory g link.objectKey = .ok (object.metadata.kind == .directory) :=
        isDirectory_ok.mpr ⟨object, hget, rfl⟩
      simp only [hbound row hrow, ne_eq, not_true_eq_false, if_false, hdir, ok_bind]
      split_ifs
      · exact ⟨_, rfl⟩
      · exact ⟨_, rfl⟩
      · exact ⟨_, rfl⟩

theorem upsertLink_accepts {link : FileLinkSnapshot} {boundary : Bool}
    (hs : g.sessions.get link.objectKey.volumeId = none) :
    (∃ r, upsertLink g link boundary gen = .ok r) ↔ (g.objects.get link.objectKey).isSome ∧
      (∀ row, g.links.get link.fileLinkId = some row → row.objectKey = link.objectKey) ∧
      slotTaken g link = false := by
  have hstale := staleObservationLinkConflicts_nil hs
  constructor
  · rintro ⟨⟨g', n⟩, h⟩
    obtain ⟨hobj, g₁, g₂, h₁, h₂, hslot, -⟩ := upsertLink_ok h
    rw [hstale] at h₁
    obtain rfl := Except.ok.inj h₁
    rw [refreshMovedDirectory_frame h₂] at hslot
    exact ⟨hobj, (refreshMovedDirectory_accepts hobj).mp ⟨_, h₂⟩, hslot⟩
  · rintro ⟨hobj, hbound, hslot⟩
    obtain ⟨⟨g₂, n⟩, h₂⟩ : ∃ r, refreshMovedDirectory g link gen = .ok r :=
      (refreshMovedDirectory_accepts hobj).mpr hbound
    have hslot₂ : slotTaken g₂ link = false := by
      rw [refreshMovedDirectory_frame h₂]
      exact hslot
    refine ⟨(putLink g₂ link boundary gen, n), ?_⟩
    rw [upsertLink, guard_ok, hstale]
    refine ⟨not_isNone hobj, bind_ok.mpr ⟨g, rfl, bind_ok.mpr ⟨_, h₂, ?_⟩⟩⟩
    simp [hslot₂]

theorem removeLink_accepts (hn : NamespaceWF g) {id : FileLinkId} {object : FileKey} :
    (∃ r, removeLink g id object gen = .ok r) ↔
      ∀ row, g.links.get id = some row → row.objectKey = object := by
  constructor
  · rintro ⟨⟨g', n⟩, h⟩ row hrow
    rcases removeLinkInternal_ok h with ⟨hnone, -⟩ | ⟨row', stored, hrow', hkey, -⟩
    · rw [hnone] at hrow
      cases hrow
    · rw [hrow'] at hrow
      obtain rfl := Option.some.inj hrow
      exact hkey
  · intro hbound
    unfold removeLink removeLinkInternal
    cases hrow : g.links.get id with
    | none => exact ⟨_, rfl⟩
    | some row =>
      obtain ⟨stored, hget, -⟩ := hn.linkObject id row hrow
      obtain rfl := hbound row hrow
      have hdir : isDirectory g row.objectKey = .ok (stored.metadata.kind == .directory) :=
        isDirectory_ok.mpr ⟨stored, hget, rfl⟩
      simp only [ne_eq, not_true_eq_false, if_false, hdir, ok_bind]
      split_ifs
      · exact ⟨_, rfl⟩
      · exact ⟨_, rfl⟩

theorem tombstoneObject_accepts {object : FileKey} :
    (∃ g', tombstoneObject g object = .ok g') ↔
      (g.objects.get object).isSome ∧ linksOf g object = [] := by
  constructor
  · rintro ⟨g', h⟩
    obtain ⟨hlinks, hobj, -⟩ := tombstoneObject_ok h
    exact ⟨hobj, hlinks⟩
  · rintro ⟨hobj, hlinks⟩
    refine ⟨setTombstoned g object true, ?_⟩
    rw [tombstoneObject, guard_ok, guard_ok]
    exact ⟨by simp [hlinks], not_isNone hobj, rfl⟩

/-- Without an open scan a mutation is accepted when its rows are known and no
link stands in its way. -/
theorem applyMutation_accepts (hn : NamespaceWF g) (hs : g.sessions.get v = none)
    (hm : m.InVolume v) :
    (∃ r, applyMutation g m gen = .ok r) ↔
      m.Grounded g ∧ ∀ id link, loadLink g id = some link → m.Admits link := by
  have hload : ∀ {P : StoredLink → Prop}, (∀ id link, loadLink g id = some link → P link) ↔
      ∀ id row, g.links.get id = some row → P (storedLinkFromRow id row) := by
    intro P
    simp [loadLink]
  rw [hload]
  cases m with
  | upsertVolume descriptor => simp [applyMutation, GraphMutation.Grounded, GraphMutation.Admits]
  | setVolumeState w state =>
    cases hrow : g.volumes.get w <;>
      simp [applyMutation, setVolumeState, GraphMutation.Grounded, GraphMutation.Admits, hrow]
  | requireReconciliation w reason =>
    cases hrow : g.volumes.get w <;>
      simp [applyMutation, requireReconciliation, GraphMutation.Grounded, GraphMutation.Admits, hrow]
  | upsertObject object =>
    constructor
    · rintro ⟨r, h⟩
      obtain ⟨g₁, h₁, -⟩ := bind_ok.mp h
      obtain ⟨hsize, hvol, -⟩ := upsertObject_ok h₁
      exact ⟨⟨hsize, hvol⟩, fun _ _ _ => trivial⟩
    · rintro ⟨⟨hsize, hvol⟩, -⟩
      have h₁ : upsertObject g object gen = .ok { g with
          objects := g.objects.insert object.objectKey ⟨object.metadata, false, gen⟩ } := by
        rw [upsertObject, guard_ok, guard_ok]
        exact ⟨not_le.mpr hsize, not_isNone hvol, rfl⟩
      exact ⟨_, bind_ok.mpr ⟨_, h₁, rfl⟩⟩
  | upsertLink link boundary =>
    rw [← hm.1] at hs
    refine (upsertLink_accepts hs).trans (and_congr_right fun _ => ?_)
    rw [slotTaken_eq_false]
    constructor
    · rintro ⟨hbound, hslot⟩ id row hrow
      by_cases hid : id = link.fileLinkId
      · subst hid
        simpa [GraphMutation.Admits, storedLinkFromRow] using hbound row hrow
      · have hfree := hslot id row hrow hid
        rw [← Bool.not_eq_true, sameSlot_eq_true] at hfree
        simpa [GraphMutation.Admits, storedLinkFromRow, hid] using hfree
    · intro h
      refine ⟨fun row hrow => ?_, fun id row hrow hid => ?_⟩
      · simpa [GraphMutation.Admits, storedLinkFromRow] using h _ row hrow
      · rw [← Bool.not_eq_true, sameSlot_eq_true]
        simpa [GraphMutation.Admits, storedLinkFromRow, hid] using h id row hrow
  | removeLink id object =>
    refine (removeLink_accepts hn).trans ?_
    simp only [GraphMutation.Grounded, GraphMutation.Admits, storedLinkFromRow, true_and]
    constructor
    · rintro h j row hrow rfl
      exact h row hrow
    · intro h row hrow
      exact h id row hrow rfl
  | tombstoneObject object =>
    refine Iff.trans ?_ (tombstoneObject_accepts.trans (and_congr_right fun _ => linksOf_eq_nil))
    constructor
    · rintro ⟨r, h⟩
      obtain ⟨g₁, h₁, -⟩ := bind_ok.mp h
      exact ⟨g₁, h₁⟩
    · rintro ⟨g₁, h₁⟩
      exact ⟨_, bind_ok.mpr ⟨g₁, h₁, rfl⟩⟩

def Linked (g : FilesystemGraph) (key : FileKey) : Prop :=
  ∃ id link, loadLink g id = some link ∧ link.objectKey = key

def Tombstoned (g : FilesystemGraph) (key : FileKey) : Prop :=
  ∃ row, g.objects.get key = some row ∧ row.tombstoned = true

/-- The object has a link or its tombstone. Only an observation of the object
itself can end this. -/
def Accounted (g : FilesystemGraph) (key : FileKey) : Prop := Linked g key ∨ Tombstoned g key

def GraphMutation.Observes (key : FileKey) : GraphMutation → Prop
  | .upsertObject object => object.objectKey = key
  | _ => False

/-- The mutation links the object or puts its tombstone. -/
def GraphMutation.Binds (key : FileKey) : GraphMutation → Prop
  | .upsertLink link _ => link.objectKey = key
  | .tombstoneObject objectKey => objectKey = key
  | _ => False

theorem linked_congr {key : FileKey} (h : loadLink g' = loadLink g) : Linked g' key ↔ Linked g key := by
  rw [Linked, Linked, h]

theorem tombstoned_congr {key : FileKey} (h : g'.objects.get key = g.objects.get key) :
    Tombstoned g' key ↔ Tombstoned g key := by
  rw [Tombstoned, Tombstoned, h]

theorem accounted_congr {key : FileKey} (hlinked : Linked g' key ↔ Linked g key)
    (hobjects : g'.objects.get key = g.objects.get key) : Accounted g' key ↔ Accounted g key :=
  or_congr hlinked (tombstoned_congr hobjects)

/-- A mutation that leaves the object's links and row alone. -/
theorem accounted_unbound {key : FileKey} (hlinked : Linked g' key ↔ Linked g key)
    (hobjects : g'.objects.get key = g.objects.get key) (hm : ¬ m.Binds key) :
    Accounted g' key ↔ Accounted g key ∨ m.Binds key :=
  (accounted_congr hlinked hobjects).trans ⟨.inl, fun hor => hor.resolve_right hm⟩

/-- A write to a link that neither was nor becomes one of the object. -/
theorem linked_update {key : FileKey} {id : FileLinkId} {value : Option StoredLink}
    (h : loadLink g' = Function.update (loadLink g) id value)
    (hold : ∀ link, loadLink g id = some link → link.objectKey ≠ key)
    (hnew : ∀ link, value = some link → link.objectKey ≠ key) : Linked g' key ↔ Linked g key := by
  rw [Linked, Linked, h]
  constructor
  · rintro ⟨j, link, hload, hkey⟩
    by_cases hj : j = id
    · rw [hj, Function.update_self] at hload
      exact absurd hkey (hnew link hload)
    · rw [Function.update_of_ne hj] at hload
      exact ⟨j, link, hload, hkey⟩
  · rintro ⟨j, link, hload, hkey⟩
    have hj : j ≠ id := by
      rintro rfl
      exact hold link hload hkey
    exact ⟨j, link, by rw [Function.update_of_ne hj]; exact hload, hkey⟩

theorem linked_iff_linksOf {key : FileKey} : Linked g key ↔ linksOf g key ≠ [] := by
  constructor
  · rintro ⟨id, link, hload, hkey⟩ hnil
    obtain ⟨row, hrow, rfl⟩ := loadLink_eq_some.mp hload
    exact linksOf_eq_nil.mp hnil id row hrow hkey
  · intro hne
    obtain ⟨link, hmem⟩ := List.exists_mem_of_ne_nil _ hne
    obtain ⟨hload, hkey⟩ := mem_linksOf.mp hmem
    exact ⟨_, link, hload, hkey⟩

/-- Dropping a link of the object leaves it linked or tombstoned. -/
theorem accounted_dropLink {id : FileLinkId} {key : FileKey} (h : (g.objects.get key).isSome) :
    Accounted (dropLink g id key) key := by
  rcases dropLink_cases g id key with ⟨he, hlinks⟩ | ⟨he, -⟩ <;> rw [he]
  · exact .inl (linked_iff_linksOf.mpr hlinks)
  · obtain ⟨row, hrow⟩ := Option.isSome_iff_exists.mp h
    refine .inr ⟨{ row with tombstoned := true }, ?_, rfl⟩
    rw [setTombstoned_get, if_pos rfl]
    exact congrArg _ hrow

theorem dropLink_get_ne {id : FileLinkId} {o key : FileKey} (h : key ≠ o) :
    (dropLink g id o).objects.get key = g.objects.get key := by
  rcases dropLink_cases g id o with ⟨he, -⟩ | ⟨he, -⟩ <;> rw [he]
  rw [setTombstoned_get, if_neg h]

/-- An accepted removal drops the link, if it is there. -/
theorem removeLink_drops {id : FileLinkId} {object : FileKey}
    (h : removeLink g id object gen = .ok (g', n)) :
    (loadLink g id = none ∧ g' = g) ∨ ∃ row, g.links.get id = some row ∧ row.objectKey = object ∧
      (g.objects.get object).isSome ∧ loadLink g' = loadLink (dropLink g id object) ∧
      g'.objects = (dropLink g id object).objects := by
  rcases removeLinkInternal_ok h with ⟨hnone, rfl⟩ | ⟨row, stored, hrow, hkey, hobj, rfl⟩
  · exact .inl ⟨by rw [loadLink, hnone]; rfl, rfl⟩
  · refine .inr ⟨row, hrow, hkey, by rw [hobj]; rfl, ?_, ?_⟩
    · split_ifs
      · rw [enqueueRefresh_frame]
        rfl
      · rfl
    · split_ifs
      · rw [enqueueRefresh_frame]
      · rfl

theorem accounted_applyMutation {key : FileKey} (hs : g.sessions.get v = none) (hm : m.InVolume v)
    (hknown : (g.objects.get key).isSome) (hobs : ¬ m.Observes key)
    (h : applyMutation g m gen = .ok (g', n)) : Accounted g' key ↔ Accounted g key ∨ m.Binds key := by
  have hlinks := loadLink_applyMutation hs hm h
  cases m with
  | upsertLink link boundary =>
    rw [← hm.1] at hs
    obtain ⟨-, hbound, -⟩ := (upsertLink_accepts hs).mp ⟨_, h⟩
    obtain ⟨g₂, hframe, rfl⟩ := upsertLink_closed hs h
    by_cases hkey : link.objectKey = key
    · refine iff_of_true (.inl ⟨link.fileLinkId, storedLink link boundary, ?_, hkey⟩) (.inr hkey)
      rw [hlinks]
      exact Function.update_self _ _ _
    · have hlinked : Linked (putLink g₂ link boundary gen) key ↔ Linked g key := by
        refine linked_update hlinks (fun old hload => ?_) (fun new hnew => ?_)
        · obtain ⟨row, hrow, rfl⟩ := loadLink_eq_some.mp hload
          exact fun hold => hkey ((hbound row hrow).symm.trans hold)
        · obtain rfl := Option.some.inj hnew
          exact hkey
      refine accounted_unbound hlinked ?_ hkey
      rw [putLink, setTombstoned_get, if_neg (Ne.symm hkey), hframe]
  | removeLink id object =>
    rcases removeLink_drops h with ⟨-, rfl⟩ | ⟨row, hrow, rfl, hobj, hload, hobjects⟩
    · exact accounted_unbound Iff.rfl rfl not_false
    · by_cases hkey : row.objectKey = key
      · subst hkey
        refine iff_of_true ?_ (.inl (.inl ⟨id, _, loadLink_eq_some.mpr ⟨row, hrow, rfl⟩, rfl⟩))
        exact (accounted_congr (linked_congr hload) (by rw [hobjects])).mpr (accounted_dropLink hobj)
      · have hlinked : Linked g' key ↔ Linked g key := by
          refine linked_update hlinks (fun old hold => ?_) (fun _ hnew => by cases hnew)
          rw [loadLink, hrow] at hold
          obtain rfl := Option.some.inj hold
          exact hkey
        exact accounted_unbound hlinked (by rw [hobjects, dropLink_get_ne (Ne.symm hkey)]) not_false
  | upsertObject object =>
    obtain ⟨g₁, h₁, heq⟩ := bind_ok.mp h
    obtain ⟨rfl, -⟩ := Prod.mk.inj (Except.ok.inj heq)
    obtain ⟨-, -, rfl⟩ := upsertObject_ok h₁
    exact accounted_unbound (linked_congr hlinks) (Table.get_insert_ne _ _ (Ne.symm hobs)) not_false
  | tombstoneObject object =>
    obtain ⟨g₁, h₁, heq⟩ := bind_ok.mp h
    obtain ⟨rfl, -⟩ := Prod.mk.inj (Except.ok.inj heq)
    obtain ⟨-, -, rfl⟩ := tombstoneObject_ok h₁
    by_cases hkey : object = key
    · subst hkey
      refine iff_of_true (.inr ?_) (.inr rfl)
      obtain ⟨row, hrow⟩ := Option.isSome_iff_exists.mp hknown
      refine ⟨{ row with tombstoned := true }, ?_, rfl⟩
      rw [setTombstoned_get, if_pos rfl, hrow]
      rfl
    · refine accounted_unbound (linked_congr hlinks) ?_ hkey
      rw [setTombstoned_get, if_neg (Ne.symm hkey)]
  | upsertVolume | setVolumeState | requireReconciliation =>
    have hobjects := applyMutation_volume_objects h (List.cons_ne_nil _ _)
    exact accounted_unbound (linked_congr hlinks) (by rw [hobjects]) not_false

/-- Right after an observation only a link accounts for the object. -/
theorem accounted_upsertObject {object : FileObjectSnapshot}
    (h : applyMutation g (.upsertObject object) gen = .ok (g', n)) :
    Accounted g' object.objectKey ↔ Linked g object.objectKey := by
  obtain ⟨g₁, h₁, heq⟩ := bind_ok.mp h
  obtain ⟨rfl, -⟩ := Prod.mk.inj (Except.ok.inj heq)
  obtain ⟨-, -, rfl⟩ := upsertObject_ok h₁
  have hlive : ¬ Tombstoned { g with
      objects := g.objects.insert object.objectKey ⟨object.metadata, false, gen⟩ } object.objectKey := by
    rintro ⟨row, hrow, htomb⟩
    rw [Table.get_insert_self] at hrow
    cases hrow
    cases htomb
  exact ⟨fun hor => hor.resolve_right hlive, .inl⟩

theorem Mutates.sessions (h : Mutates gen g ms g') : g'.sessions = g.sessions := by
  rw [h.frame]

/-- A log that only sets values forgets no key. -/
theorem replay_isSome {κ β : Type} [DecidableEq κ] {view : κ → Option β} {log : List (κ × Option β)}
    (hlog : ∀ w ∈ log, w.2.isSome) {k : κ} (h : (view k).isSome) : (replay view log k).isSome := by
  rw [replay_apply]
  cases hlast : lastWrite log k with
  | none => exact h
  | some value => exact hlog _ (lastWrite_mem hlast)

theorem Mutates.knownObject (hs : g.sessions.get v = none) (hms : ∀ m ∈ ms, m.InVolume v)
    (h : Mutates gen g ms g') {key : FileKey} (hkey : (g.objects.get key).isSome) :
    (g'.objects.get key).isSome := by
  have hview := congrFun
    (h.replays hs hms fun _ _ _ _ hs hm h => metadataOf_applyMutation hs hm h) key
  have hsome : (metadataOf g' key).isSome := by
    rw [hview]
    refine replay_isSome (fun w hw => ?_) (by rw [metadataOf, Option.isSome_map]; exact hkey)
    obtain ⟨m, -, hw⟩ := List.mem_flatMap.mp hw
    cases m with
    | upsertObject object =>
      rw [List.mem_singleton.mp hw]
      rfl
    | _ => cases hw
  rw [metadataOf, Option.isSome_map] at hsome
  exact hsome

theorem Mutates.knownVolume (hs : g.sessions.get v = none) (hms : ∀ m ∈ ms, m.InVolume v)
    (h : Mutates gen g ms g') {w : VolumeId} (hw : (g.volumes.get w).isSome) :
    (g'.volumes.get w).isSome := by
  have hview := congrFun (h.replays hs hms fun _ _ _ _ _ _ h => descriptor_applyMutation h) w
  have hsome : (volumeColumn (·.descriptor) g' w).isSome := by
    rw [hview]
    refine replay_isSome (fun w hw => ?_) (by rw [volumeColumn, Option.isSome_map]; exact hw)
    obtain ⟨m, -, hw⟩ := List.mem_flatMap.mp hw
    cases m with
    | upsertVolume descriptor =>
      rw [List.mem_singleton.mp hw]
      rfl
    | _ => cases hw
  rw [volumeColumn, Option.isSome_map] at hsome
  exact hsome

theorem GraphMutation.Grounded.mono (h : m.Grounded g)
    (hobjects : ∀ key, (g.objects.get key).isSome → (g'.objects.get key).isSome)
    (hvolumes : ∀ w, (g.volumes.get w).isSome → (g'.volumes.get w).isSome) : m.Grounded g' := by
  cases m with
  | upsertVolume | removeLink => trivial
  | setVolumeState w state => exact hvolumes w h
  | requireReconciliation w reason => exact hvolumes w h
  | upsertObject object => exact ⟨h.1, hvolumes _ h.2⟩
  | upsertLink link boundary => exact hobjects _ h
  | tombstoneObject key => exact hobjects key h

/-- As long as the batch does not observe the object, it stays linked or
tombstoned, and otherwise becomes so by a mutation that says it. -/
theorem Mutates.accounted {key : FileKey} (hs : g.sessions.get v = none)
    (hms : ∀ m ∈ ms, m.InVolume v) (hknown : (g.objects.get key).isSome)
    (hobs : ∀ m ∈ ms, ¬ m.Observes key) (h : Mutates gen g ms g') :
    Accounted g' key ↔ Accounted g key ∨ ∃ m ∈ ms, m.Binds key := by
  induction ms generalizing g with
  | nil =>
    obtain rfl := mutates_nil.mp h
    simp
  | cons m ms ih =>
    obtain ⟨g₁, n, h₁, h⟩ := mutates_cons.mp h
    have hm := hms m List.mem_cons_self
    have hone : Mutates gen g [m] g₁ := mutates_cons.mpr ⟨g₁, n, h₁, mutates_nil.mpr rfl⟩
    have hknown₁ := hone.knownObject hs (fun x hx => hms x (by simp_all)) hknown
    have hs₁ : g₁.sessions.get v = none := by rw [hone.sessions]; exact hs
    rw [ih hs₁ (fun x hx => hms x (List.mem_cons_of_mem _ hx)) hknown₁
        (fun x hx => hobs x (List.mem_cons_of_mem _ hx)) h,
      accounted_applyMutation hs hm hknown (hobs m List.mem_cons_self) h₁, or_assoc]
    simp only [List.mem_cons, exists_eq_or_imp]

theorem Mutates.namespaceWF [CaseMapping] (hn : NamespaceWF g) (hms : ∀ m ∈ ms, m.InVolume v)
    (hle : currentGeneration g v ≤ gen) (h : Mutates gen g ms g') : NamespaceWF g' := by
  obtain ⟨affected, affected', n, h⟩ := h
  have hch : Changes True v gen .durable _ _ := applyMutations_changes hms (.inl trivial) hle h
  exact hch.names hn

end Writes

end LocalSearch.Graph
