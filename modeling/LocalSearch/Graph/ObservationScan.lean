import LocalSearch.Graph.Transaction
import LocalSearch.Lib.Replay

/-!
# The pages of an observation scan

A scan stamps every link it sees with a generation past the one it began at.
The links of the volume stamped since the begin are a replay of the events of
its pages: an accepted page never removes a link another page of the scan has
observed, except by an event that says so.
-/
namespace LocalSearch.Graph

set_option autoImplicit false

open Core Lib

/-- Links of the volume observed at generation `since` or later. -/
def linksSince (g : FilesystemGraph) (v : VolumeId) (since : Nat) (id : FileLinkId) :
    Option StoredLink :=
  ((g.links.get id).filter fun row =>
    row.objectKey.volumeId == v && decide (since ≤ row.observationGeneration)).map (storedLinkFromRow id)

/-- All links of the volume. -/
def volumeLinks (g : FilesystemGraph) (v : VolumeId) : FileLinkId → Option StoredLink :=
  linksSince g v 0

/-- What an event says about a link. -/
def linkWrite : FilesystemEvent → Option (FileLinkId × Option StoredLink)
  | .linkObserved link => some (link.fileLinkId, some (storedLink link false))
  | .linkRemoved id _ => some (id, none)
  | _ => none

/-- The links observed, and not removed later, by a list of events. -/
def observedLinks (events : List FilesystemEvent) : FileLinkId → Option StoredLink :=
  replay (fun _ => none) (events.filterMap linkWrite)

/-- Some event observes the object. -/
def ObservesObject (events : List FilesystemEvent) (key : FileKey) : Prop :=
  ∃ object, FilesystemEvent.objectObserved object ∈ events ∧ object.objectKey = key

/-- The rows that belong to one volume. -/
structure VolumeRows where
  volume : Option VolumeRow
  session : Option SessionRow
  checkpoint : Option CheckpointRow
  links : List (FileLinkId × LinkRow)
  objects : List (FileKey × ObjectRow)

def volumeRows (g : FilesystemGraph) (v : VolumeId) : VolumeRows where
  volume := g.volumes.get v
  session := g.sessions.get v
  checkpoint := g.checkpoints.get v
  links := g.links.select fun _ row => row.objectKey.volumeId == v
  objects := g.objects.select fun key _ => key.volumeId == v

section Since

variable {g : FilesystemGraph} {v : VolumeId} {since : Nat}

theorem linksSince_congr {g' : FilesystemGraph} (h : g'.links = g.links) :
    linksSince g' v since = linksSince g v since := by
  funext id
  rw [linksSince, linksSince, h]

theorem linksSince_eq_none_of_stale {id : FileLinkId} {row : LinkRow} (hrow : g.links.get id = some row)
    (hstale : row.observationGeneration < since) : linksSince g v since id = none := by
  simp [linksSince, hrow, hstale]

theorem linksSince_eq_none_of_get {id : FileLinkId} (h : g.links.get id = none) :
    linksSince g v since id = none := by
  simp [linksSince, h]

theorem linksSince_eq_some {id : FileLinkId} {link : StoredLink} :
    linksSince g v since id = some link ↔ ∃ row, g.links.get id = some row ∧
      row.objectKey.volumeId = v ∧ since ≤ row.observationGeneration ∧ storedLinkFromRow id row = link := by
  simp only [linksSince, Option.map_eq_some_iff, Option.filter_eq_some_iff, Bool.and_eq_true,
    beq_iff_eq, decide_eq_true_eq]
  constructor
  · rintro ⟨row, ⟨hrow, hv, hs⟩, hlink⟩
    exact ⟨row, hrow, hv, hs, hlink⟩
  · rintro ⟨row, hrow, hv, hs, hlink⟩
    exact ⟨row, ⟨hrow, hv, hs⟩, hlink⟩

theorem mem_volumeLinks {id : FileLinkId} {link : StoredLink} :
    volumeLinks g v id = some link ↔ loadLink g id = some link ∧ link.objectKey.volumeId = v := by
  rw [volumeLinks, linksSince_eq_some, loadLink_eq_some]
  constructor
  · rintro ⟨row, hrow, hv, -, rfl⟩
    exact ⟨⟨row, hrow, rfl⟩, hv⟩
  · rintro ⟨⟨row, hrow, rfl⟩, hv⟩
    exact ⟨row, hrow, hv, Nat.zero_le _, rfl⟩

theorem linksSince_erase {g' : FilesystemGraph} {id : FileLinkId} (h : g'.links = g.links.erase id) :
    linksSince g' v since = Function.update (linksSince g v since) id none := by
  funext j
  by_cases hj : j = id
  · rw [hj, Function.update_self, linksSince, h, Table.get_erase, if_pos rfl]
    rfl
  · rw [Function.update_of_ne hj, linksSince, h, Table.get_erase, if_neg hj]
    rfl

theorem linksSince_putLink {link : FileLinkSnapshot} {boundary : Bool} {gen : Nat}
    (hv : link.objectKey.volumeId = v) (hgen : since ≤ gen) :
    linksSince (putLink g link boundary gen) v since =
      Function.update (linksSince g v since) link.fileLinkId (some (storedLink link boundary)) := by
  funext j
  by_cases hj : j = link.fileLinkId
  · rw [hj, Function.update_self, linksSince, putLink_links, Table.get_insert_self]
    simp [hv, hgen, storedLinkFromRow, storedLink]
  · rw [Function.update_of_ne hj, linksSince, putLink_links, Table.get_insert_ne _ _ hj]
    rfl

end Since

section Events

variable {g g' : FilesystemGraph} {v : VolumeId} {since gen n : Nat}

theorem removeLinkInternal_linksSince {id : FileLinkId} {expected : FileKey} {refresh : Bool}
    (h : removeLinkInternal g id expected gen refresh = .ok (g', n)) :
    linksSince g' v since = Function.update (linksSince g v since) id none := by
  rcases removeLinkInternal_ok h with ⟨hnone, rfl⟩ | ⟨row, object, -, -, -, rfl⟩
  · exact (Function.update_eq_self_iff.mpr (linksSince_eq_none_of_get hnone).symm).symm
  · refine linksSince_erase ?_
    split_ifs
    · rw [enqueueRefresh_frame]
      exact dropLink_links _ _ _
    · exact dropLink_links _ _ _

/-- Removing links that were not observed since leaves the others. -/
theorem removeStaleLinks_linksSince {stale : List (FileLinkId × FileKey)}
    (hstale : ∀ x ∈ stale, linksSince g v since x.1 = none)
    (h : removeStaleLinks g gen stale = .ok g') : linksSince g' v since = linksSince g v since := by
  induction stale generalizing g with
  | nil => obtain rfl := Except.ok.inj h; rfl
  | cons x rest ih =>
    obtain ⟨id, object⟩ := x
    obtain ⟨⟨g₁, n⟩, h₁, hrest⟩ := bind_ok.mp h
    have hsame : linksSince g₁ v since = linksSince g v since := by
      rw [removeLinkInternal_linksSince h₁]
      exact Function.update_eq_self_iff.mpr (hstale (id, object) List.mem_cons_self).symm
    rw [ih (fun y hy => by rw [hsame]; exact hstale y (List.mem_cons_of_mem _ hy)) hrest, hsame]

/-- The conflicts a scanning session removes carry an older generation. -/
theorem staleConflict_row {link : FileLinkSnapshot} {x : FileLinkId × FileKey}
    (h : x ∈ staleObservationLinkConflicts g link) :
    ∃ cutoff row, scanCutoff g link.objectKey.volumeId = some cutoff ∧
      g.links.get x.1 = some row ∧ row.objectKey = x.2 ∧ row.observationGeneration < cutoff := by
  unfold staleObservationLinkConflicts at h
  cases hcut : scanCutoff g link.objectKey.volumeId with
  | none => rw [hcut] at h; cases h
  | some cutoff =>
    rw [hcut] at h
    refine ⟨cutoff, ?_⟩
    rcases List.mem_append.mp h with h | h
    · unfold staleIdentityConflict at h
      cases hrow : g.links.get link.fileLinkId with
      | none => rw [hrow] at h; cases h
      | some row =>
        simp only [hrow] at h
        split_ifs at h with hc
        · obtain rfl := List.mem_singleton.mp h
          exact ⟨row, rfl, hrow, rfl, hc.2⟩
        · cases h
    · obtain ⟨⟨id, row⟩, hmem, rfl⟩ := List.mem_map.mp h
      obtain ⟨hrow, hc⟩ := Table.mem_select.mp (List.mem_of_mem_take hmem)
      simp only [Bool.and_eq_true, decide_eq_true_eq] at hc
      exact ⟨row, rfl, hrow, rfl, hc.2⟩

theorem scanCutoff_eq {session : SessionRow} (hs : g.sessions.get v = some session)
    (hp : session.phase = .scanning) : scanCutoff g v = some session.scanGeneration := by
  obtain ⟨gen, mode, phase⟩ := session
  obtain rfl : phase = .scanning := hp
  rw [scanCutoff, hs]

theorem upsertLink_linksSince {link : FileLinkSnapshot} {boundary : Bool}
    (hv : link.objectKey.volumeId = v) (hgen : since ≤ gen)
    (hcut : scanCutoff g v = some since) (h : upsertLink g link boundary gen = .ok (g', n)) :
    linksSince g' v since =
      Function.update (linksSince g v since) link.fileLinkId (some (storedLink link boundary)) := by
  obtain ⟨-, g₁, g₂, h₁, h₂, -, rfl⟩ := upsertLink_ok h
  have hstale : ∀ x ∈ staleObservationLinkConflicts g link, linksSince g v since x.1 = none := by
    intro x hx
    obtain ⟨cutoff, row, hc, hrow, -, hlt⟩ := staleConflict_row hx
    rw [hv, hcut] at hc
    obtain rfl := Option.some.inj hc
    exact linksSince_eq_none_of_stale hrow hlt
  have hlinks : g₂.links = g₁.links := by
    rcases (refreshMovedDirectory_ok h₂).2 with rfl | ⟨rfl, -⟩
    · rfl
    · rw [enqueueRefresh_frame]
  rw [linksSince_putLink hv hgen, linksSince_congr hlinks, removeStaleLinks_linksSince hstale h₁]

/-- What one accepted event does to the session, the scanned links and the
stamps of object rows. -/
theorem applyMutation_event {event : FilesystemEvent} (hv : (GraphMutation.ofEvent event).InVolume v)
    (hgen : since ≤ gen) (hcut : scanCutoff g v = some since)
    (h : applyMutation g (.ofEvent event) gen = .ok (g', n)) :
    g'.sessions = g.sessions ∧
      linksSince g' v since = replay (linksSince g v since) (linkWrite event).toList ∧
      ∀ key row, g'.objects.get key = some row → (∃ old, g.objects.get key = some old ∧
        row.observationGeneration = old.observationGeneration) ∨ ObservesObject [event] key := by
  cases event with
  | objectObserved object =>
    obtain ⟨g₁, h₁, heq⟩ := bind_ok.mp h
    obtain ⟨rfl, -⟩ := Prod.mk.inj (Except.ok.inj heq)
    simp only [upsertObject, guard_ok] at h₁
    obtain rfl := Except.ok.inj h₁.2.2
    refine ⟨rfl, linksSince_congr rfl, fun key row hrow => ?_⟩
    simp only [Table.get_insert] at hrow
    split_ifs at hrow with hk
    · exact Or.inr ⟨object, List.mem_singleton.mpr rfl, hk.symm⟩
    · exact Or.inl ⟨row, hrow, rfl⟩
  | linkObserved link =>
    refine ⟨by rw [upsertLink_frame h], upsertLink_linksSince hv.1 hgen hcut h,
      fun key row hrow => Or.inl ?_⟩
    obtain ⟨-, g₁, g₂, h₁, h₂, -, rfl⟩ := upsertLink_ok h
    have hobjects : g₂.objects = g₁.objects := by rw [refreshMovedDirectory_frame h₂]
    have hrow₁ : ∃ old, g₁.objects.get key = some old ∧
        row.observationGeneration = old.observationGeneration := by
      rw [putLink, setTombstoned_get, hobjects] at hrow
      split_ifs at hrow
      · obtain ⟨old, hold, rfl⟩ := Option.map_eq_some_iff.mp hrow
        exact ⟨old, hold, rfl⟩
      · exact ⟨row, hrow, rfl⟩
    obtain ⟨mid, hmid, hsame⟩ := hrow₁
    obtain ⟨old, hold, -, hsame', -⟩ := removeStaleLinks_fade h₁ key mid hmid
    exact ⟨old, hold, hsame.trans hsame'⟩
  | linkRemoved id object =>
    refine ⟨by rw [removeLinkInternal_frame h], removeLinkInternal_linksSince h,
      fun key row hrow => Or.inl ?_⟩
    obtain ⟨old, hold, -, hsame, -⟩ := removeLinkInternal_fade h key row hrow
    exact ⟨old, hold, hsame⟩
  | objectRemoved object =>
    obtain ⟨g₁, h₁, heq⟩ := bind_ok.mp h
    obtain ⟨rfl, -⟩ := Prod.mk.inj (Except.ok.inj heq)
    obtain ⟨-, -, rfl⟩ := tombstoneObject_ok h₁
    refine ⟨rfl, linksSince_congr rfl, fun key row hrow => Or.inl ?_⟩
    obtain ⟨old, hold, -, hsame, -⟩ := setTombstoned_fade g object key row hrow
    exact ⟨old, hold, hsame⟩
  | reconciliationRequired w reason =>
    have h : requireReconciliation g w reason gen = .ok (g', n) := h
    unfold requireReconciliation at h
    cases hw : g.volumes.get w with
    | none => rw [hw] at h; cases h
    | some row =>
      rw [hw] at h
      obtain ⟨rfl, -⟩ := Prod.mk.inj (Except.ok.inj h)
      exact ⟨rfl, linksSince_congr rfl, fun key row hrow => Or.inl ⟨row, hrow, rfl⟩⟩

theorem scanCutoff_congr (h : g'.sessions = g.sessions) : scanCutoff g' v = scanCutoff g v := by
  rw [scanCutoff, scanCutoff, h]

theorem applyMutations_events {events : List FilesystemEvent} {affected affected' : LinkSet}
    (hv : ∀ event ∈ events, (GraphMutation.ofEvent event).InVolume v) (hgen : since ≤ gen)
    (hcut : scanCutoff g v = some since)
    (h : applyMutations gen g affected (events.map .ofEvent) = .ok (g', affected', n)) :
    g'.sessions = g.sessions ∧
      linksSince g' v since = replay (linksSince g v since) (events.filterMap linkWrite) ∧
      ∀ key row, g'.objects.get key = some row → (∃ old, g.objects.get key = some old ∧
        row.observationGeneration = old.observationGeneration) ∨ ObservesObject events key := by
  induction events generalizing g affected affected' n with
  | nil =>
    obtain ⟨rfl, -⟩ := Prod.mk.inj (Except.ok.inj h)
    exact ⟨rfl, rfl, fun key row hrow => Or.inl ⟨row, hrow, rfl⟩⟩
  | cons event events ih =>
    simp only [List.map_cons, applyMutations, bind_ok] at h
    obtain ⟨⟨g₁, n₁⟩, h₁, ⟨g₂, affected₂, n₂⟩, h₂, heq⟩ := h
    obtain ⟨rfl, -⟩ := Prod.mk.inj (Except.ok.inj heq)
    obtain ⟨hs, hlinks, hobjects⟩ :=
      applyMutation_event (hv event List.mem_cons_self) hgen hcut h₁
    obtain ⟨hs', hlinks', hobjects'⟩ := ih (fun x hx => hv x (List.mem_cons_of_mem _ hx))
      ((scanCutoff_congr hs).trans hcut) h₂
    refine ⟨hs'.trans hs, ?_, fun key row hrow => ?_⟩
    · rw [hlinks', hlinks, ← replay_append]
      cases hw : linkWrite event with
      | none => rw [List.filterMap_cons_none hw]; rfl
      | some write => rw [List.filterMap_cons_some hw]; rfl
    · rcases hobjects' key row hrow with ⟨mid, hmid, hsame⟩ | ⟨object, hmem, hkey⟩
      · rcases hobjects key mid hmid with ⟨old, hold, hsame'⟩ | ⟨object, hmem, hkey⟩
        · exact Or.inl ⟨old, hold, hsame.trans hsame'⟩
        · exact Or.inr ⟨object, List.mem_singleton.mp hmem ▸ List.mem_cons_self, hkey⟩
      · exact Or.inr ⟨object, List.mem_cons_of_mem _ hmem, hkey⟩

/-- A scan does not see an identity at two objects. -/
theorem upsertLink_agrees {link : FileLinkSnapshot} {boundary : Bool} {stored : StoredLink}
    (hv : link.objectKey.volumeId = v) (hcut : scanCutoff g v = some since)
    (hseen : linksSince g v since link.fileLinkId = some stored)
    (h : upsertLink g link boundary gen = .ok (g', n)) : stored.objectKey = link.objectKey := by
  obtain ⟨-, g₁, g₂, h₁, h₂, -, -⟩ := upsertLink_ok h
  have hstale : ∀ x ∈ staleObservationLinkConflicts g link, linksSince g v since x.1 = none := by
    intro x hx
    obtain ⟨cutoff, row, hc, hrow, -, hlt⟩ := staleConflict_row hx
    rw [hv, hcut] at hc
    obtain rfl := Option.some.inj hc
    exact linksSince_eq_none_of_stale hrow hlt
  rw [← removeStaleLinks_linksSince hstale h₁] at hseen
  obtain ⟨row, hrow, -, -, rfl⟩ := linksSince_eq_some.mp hseen
  exact (refreshMovedDirectory_ok h₂).1 row hrow

/-- Every observed link is the one last observed under its identity, as far as
the object goes. -/
def Agree (events : List FilesystemEvent) : Prop :=
  ∀ link, .linkObserved link ∈ events →
    ∃ stored, observedLinks events link.fileLinkId = some stored ∧ stored.objectKey = link.objectKey

theorem observedLinks_concat (events : List FilesystemEvent) (event : FilesystemEvent) :
    observedLinks (events ++ [event]) = replay (observedLinks events) (linkWrite event).toList := by
  rw [observedLinks, List.filterMap_append, replay_append, ← observedLinks]
  cases hw : linkWrite event with
  | none => rw [List.filterMap_cons_none hw]; rfl
  | some write => rw [List.filterMap_cons_some hw]; rfl

theorem agree_concat {seen : List FilesystemEvent} {event : FilesystemEvent} (hagree : Agree seen)
    (hkept : ∀ id object, event ≠ .linkRemoved id object)
    (hsame : ∀ link stored, event = .linkObserved link →
      observedLinks seen link.fileLinkId = some stored → stored.objectKey = link.objectKey) :
    Agree (seen ++ [event]) := by
  intro link hlink
  rw [observedLinks_concat]
  cases event with
  | linkObserved new =>
    show ∃ stored, Function.update (observedLinks seen) new.fileLinkId (some (storedLink new false))
      link.fileLinkId = some stored ∧ _
    rw [Function.update_apply]
    split_ifs with hid
    · refine ⟨_, rfl, ?_⟩
      rcases List.mem_append.mp hlink with hold | hnew
      · obtain ⟨stored, hstored, hobject⟩ := hagree link hold
        rw [← hobject, hsame new stored rfl (hid ▸ hstored)]
        rfl
      · obtain rfl := FilesystemEvent.linkObserved.inj (List.mem_singleton.mp hnew)
        rfl
    · rcases List.mem_append.mp hlink with hold | hnew
      · exact hagree link hold
      · exact absurd (congrArg _ (FilesystemEvent.linkObserved.inj (List.mem_singleton.mp hnew))) hid
  | linkRemoved id object => exact absurd rfl (hkept id object)
  | objectObserved | objectRemoved | reconciliationRequired =>
    exact hagree link ((List.mem_append.mp hlink).resolve_right (by simp))

theorem applyMutations_agree {seen events : List FilesystemEvent} {affected affected' : LinkSet}
    (hv : ∀ event ∈ events, (GraphMutation.ofEvent event).InVolume v) (hgen : since ≤ gen)
    (hcut : scanCutoff g v = some since) (hlinks : linksSince g v since = observedLinks seen)
    (hagree : Agree seen) (hkept : ∀ id object, .linkRemoved id object ∉ events)
    (h : applyMutations gen g affected (events.map .ofEvent) = .ok (g', affected', n)) :
    Agree (seen ++ events) := by
  induction events generalizing g seen affected affected' n with
  | nil =>
    rw [List.append_nil]
    exact hagree
  | cons event events ih =>
    simp only [List.map_cons, applyMutations, bind_ok] at h
    obtain ⟨⟨g₁, n₁⟩, h₁, ⟨g₂, affected₂, n₂⟩, h₂, heq⟩ := h
    obtain ⟨rfl, -⟩ := Prod.mk.inj (Except.ok.inj heq)
    have hevent := hv event List.mem_cons_self
    obtain ⟨hs, hlinks₁, -⟩ := applyMutation_event hevent hgen hcut h₁
    rw [hlinks, ← observedLinks_concat] at hlinks₁
    have hagree₁ : Agree (seen ++ [event]) := by
      refine agree_concat hagree (fun id object heq => hkept id object (heq ▸ List.mem_cons_self)) ?_
      rintro link stored rfl hstored
      rw [← hlinks] at hstored
      exact upsertLink_agrees hevent.1 hcut hstored h₁
    have hrest := ih (fun x hx => hv x (List.mem_cons_of_mem _ hx)) ((scanCutoff_congr hs).trans hcut)
      hlinks₁ hagree₁ (fun id object hmem => hkept id object (List.mem_cons_of_mem _ hmem)) h₂
    rw [List.append_assoc] at hrest
    exact hrest

end Events

/-- What holds of the volume while a scan begun at generation `since` has
observed `events`. -/
structure ScanInvariant (v : VolumeId) (since : Nat) (events : List FilesystemEvent)
    (g : FilesystemGraph) : Prop where
  wellFormed : WellFormed g
  links : linksSince g v since = observedLinks events
  objects : ∀ key row, g.objects.get key = some row → key.volumeId = v →
    since ≤ row.observationGeneration → ObservesObject events key
  volume : ∃ row, g.volumes.get v = some row ∧ since ≤ row.generation

section Scanning

variable [CaseMapping]

/-- Pages that meet `P` applied after the begin, with steps that meet `R` in
between, where they leave the rows of the volume alone. -/
inductive Scanning (P : List FilesystemEvent → FilesystemGraph → Prop)
    (R : GraphOp → FilesystemGraph → Prop) (v : VolumeId) (g₀ : FilesystemGraph) :
    List FilesystemEvent → FilesystemGraph → Prop
  | start : Scanning P R v g₀ [] g₀
  | page {events page : List FilesystemEvent} {g g' : FilesystemGraph} {summary : ApplySummary}
      (h : Scanning P R v g₀ events g) (hP : P page g)
      (hpage : applyObservationScanPage g v page = .ok (g', summary)) :
      Scanning P R v g₀ (events ++ page) g'
  | other {events : List FilesystemEvent} {g g' : FilesystemGraph}
      (h : Scanning P R v g₀ events g) (hstep : Step R g g')
      (hrows : volumeRows g' v = volumeRows g v) : Scanning P R v g₀ events g'

variable {P : List FilesystemEvent → FilesystemGraph → Prop} {R : GraphOp → FilesystemGraph → Prop}
  {v : VolumeId} {since : Nat} {events : List FilesystemEvent} {g g' : FilesystemGraph}

omit [CaseMapping] in
theorem mem_volumeRows_links {id : FileLinkId} {row : LinkRow} :
    (id, row) ∈ (volumeRows g v).links ↔ g.links.get id = some row ∧ row.objectKey.volumeId = v := by
  simp [volumeRows, Table.mem_select]

omit [CaseMapping] in
theorem mem_volumeRows_objects {key : FileKey} {row : ObjectRow} :
    (key, row) ∈ (volumeRows g v).objects ↔ g.objects.get key = some row ∧ key.volumeId = v := by
  simp [volumeRows, Table.mem_select]

omit [CaseMapping] in
theorem linksSince_of_volumeRows (h : volumeRows g' v = volumeRows g v) :
    linksSince g' v since = linksSince g v since := by
  funext id
  refine Option.ext fun link => ?_
  simp only [linksSince_eq_some]
  have hmem : ∀ row, (g'.links.get id = some row ∧ row.objectKey.volumeId = v) ↔
      (g.links.get id = some row ∧ row.objectKey.volumeId = v) := fun row => by
    rw [← mem_volumeRows_links, ← mem_volumeRows_links, h]
  constructor
  · rintro ⟨row, hrow, hv, hrest⟩
    exact ⟨row, ((hmem row).mp ⟨hrow, hv⟩).1, hv, hrest⟩
  · rintro ⟨row, hrow, hv, hrest⟩
    exact ⟨row, ((hmem row).mpr ⟨hrow, hv⟩).1, hv, hrest⟩

omit [CaseMapping] in
theorem ScanInvariant.of_volumeRows (hinv : ScanInvariant v since events g) (hwf : WellFormed g')
    (h : volumeRows g' v = volumeRows g v) : ScanInvariant v since events g' := by
  refine ⟨hwf, (linksSince_of_volumeRows h).trans hinv.links, fun key row hrow hkey hs => ?_, ?_⟩
  · have hold := mem_volumeRows_objects.mpr ⟨hrow, hkey⟩
    rw [h] at hold
    exact hinv.objects key row (mem_volumeRows_objects.mp hold).1 hkey hs
  · have hvolume : g'.volumes.get v = g.volumes.get v := congrArg VolumeRows.volume h
    rw [hvolume]
    exact hinv.volume

/-- A begun scan has observed nothing yet. -/
theorem scanInvariant_begin {descriptor : VolumeDescriptor} {m : ObservationScanMode}
    {reason : ReconciliationReason} {session : ObservationSession} (hwf : WellFormed g)
    (h : beginObservationScan g descriptor m reason = .ok (g', session)) :
    ScanInvariant descriptor.volumeId session.scanGeneration [] g' ∧
      g'.sessions.get descriptor.volumeId = some ⟨session.scanGeneration, m, .scanning⟩ := by
  have htrans : Transacts True .durable g g' := beginObservationScan_transacts h
  have hwf' : WellFormed g' := wellFormed_of_transacts htrans hwf
  obtain ⟨gen, hgen, heq⟩ := bind_ok.mp h
  obtain ⟨-, rfl⟩ := checkedSucc_ok.mp hgen
  obtain ⟨rfl, rfl⟩ := Prod.mk.inj (Except.ok.inj heq)
  refine ⟨⟨hwf', ?_, fun key row hrow hkey hs => ?_, ?_⟩, Table.get_insert_self _ _ _⟩
  · funext id
    cases hrow : g.links.get id with
    | none => exact linksSince_eq_none_of_get hrow
    | some row =>
      by_cases hv : row.objectKey.volumeId = descriptor.volumeId
      · refine linksSince_eq_none_of_stale hrow ?_
        have hle := hwf.bounded.links id row hrow
        rw [hv] at hle
        exact Nat.lt_succ_of_le hle
      · change ((g.links.get id).filter _).map _ = none
        rw [hrow]
        simp [hv]
  · have hle := hwf.bounded.objects key row hrow
    rw [hkey] at hle
    exact absurd (hs.trans hle) (Nat.not_succ_le_self _)
  · obtain ⟨volume, hvol, hle⟩ := hwf'.queues.session _ _ (Table.get_insert_self _ _ _)
    exact ⟨volume, hvol, hle⟩

/-- An accepted page adds its events to what the scan has observed. -/
theorem scanInvariant_page {page : List FilesystemEvent} {summary : ApplySummary}
    {session : SessionRow} (hinv : ScanInvariant v since events g)
    (hsession : g.sessions.get v = some session) (hsince : session.scanGeneration = since)
    (h : applyObservationScanPage g v page = .ok (g', summary)) :
    ScanInvariant v since (events ++ page) g' ∧ g'.sessions.get v = some session := by
  have hwf' : WellFormed g' :=
    wellFormed_of_transacts (applyObservationScanPage_transacts (R := True) h) hinv.wellFormed
  obtain ⟨session', hs', hphase, hcase⟩ := applyObservationScanPage_ok h
  obtain rfl : session' = session := Option.some.inj (hs'.symm.trans hsession)
  rcases hcase with ⟨rfl, rfl⟩ | ⟨checkpoint, hbatch⟩
  · rw [List.append_nil]
    exact ⟨hinv, hsession⟩
  · obtain ⟨-, hms, -, -, g₁, g₂, affected, jobs, appended, h₁, h₂, ⟨volume, hvol⟩, rfl⟩ :=
      applyBatchWithOutboxMode_ok hbatch
    simp only [GraphMutationBatch.fromEvents] at h₁ h₂ hms hvol
    obtain ⟨old, hold, hle⟩ := hinv.volume
    have hcur : since ≤ currentGeneration g v + 1 := by
      rw [currentGeneration_of_get hold]
      omega
    have hcut : scanCutoff g v = some since := by rw [scanCutoff_eq hsession hphase, hsince]
    obtain ⟨hsess, hlinks, hobjects⟩ := applyMutations_events
      (fun event he => hms _ (List.mem_map.mpr ⟨event, he, rfl⟩)) hcur hcut h₁
    have hframe := syncLinks_frame h₂
    refine ⟨⟨hwf', ?_, fun key row hrow hkey hs => ?_, ?_⟩, ?_⟩
    · have hsame : (putCheckpoint (setGeneration g₂ v (currentGeneration g v + 1)) v
          (ProviderCheckpoint.row checkpoint)).links = g₁.links := by rw [hframe]; rfl
      rw [observedLinks, List.filterMap_append, replay_append, ← observedLinks, ← hinv.links,
        ← hlinks]
      exact linksSince_congr hsame
    · have hrow₁ : g₁.objects.get key = some row := by
        rw [hframe] at hrow
        exact hrow
      rcases hobjects key row hrow₁ with ⟨old, hold, hsame⟩ | ⟨object, hmem, hobj⟩
      · obtain ⟨object, hmem, hobj⟩ := hinv.objects key old hold hkey (hsame ▸ hs)
        exact ⟨object, List.mem_append_left _ hmem, hobj⟩
      · exact ⟨object, List.mem_append_right _ hmem, hobj⟩
    · refine ⟨{ volume with generation := currentGeneration g v + 1 }, ?_, hcur⟩
      simp [putCheckpoint, setGeneration, GraphMutationBatch.fromEvents, Table.get_modify, hvol]
    · have hsame : (putCheckpoint (setGeneration g₂ v (currentGeneration g v + 1)) v
          (ProviderCheckpoint.row checkpoint)).sessions = g.sessions := by
        rw [hframe]
        exact hsess
      rw [← hsession, ← hsame]
      rfl

theorem Scanning.invariant {g₀ : FilesystemGraph} {session : SessionRow}
    (hinv : ScanInvariant v since [] g₀) (hsession : g₀.sessions.get v = some session)
    (hsince : session.scanGeneration = since) (h : Scanning P R v g₀ events g) :
    ScanInvariant v since events g ∧ g.sessions.get v = some session := by
  induction h with
  | start => exact ⟨hinv, hsession⟩
  | page _ _ hpage ih => exact scanInvariant_page ih.1 ih.2 hsince hpage
  | other _ hstep hrows ih =>
    have hs := congrArg VolumeRows.session hrows
    exact ⟨ih.1.of_volumeRows (hstep.wellFormed ih.1.wellFormed) hrows, hs.trans ih.2⟩

/-- A scan whose pages were accepted saw one object under each identity. -/
theorem Scanning.agree {g₀ : FilesystemGraph} {session : SessionRow}
    (hinv : ScanInvariant v since [] g₀) (hsession : g₀.sessions.get v = some session)
    (hsince : session.scanGeneration = since) (h : Scanning P R v g₀ events g)
    (hkept : ∀ id object, .linkRemoved id object ∉ events) : Agree events := by
  induction h with
  | start => exact fun _ hlink => absurd hlink List.not_mem_nil
  | @page events page g g' summary hscan _ hpage ih =>
    have hagree := ih fun id object hmem => hkept id object (List.mem_append_left _ hmem)
    obtain ⟨hinv, hsession⟩ := hscan.invariant hinv hsession hsince
    obtain ⟨session', hs', hphase, hcase⟩ := applyObservationScanPage_ok hpage
    obtain rfl : session' = session := Option.some.inj (hs'.symm.trans hsession)
    rcases hcase with ⟨rfl, -⟩ | ⟨checkpoint, hbatch⟩
    · rw [List.append_nil]
      exact hagree
    · obtain ⟨-, hms, -, -, g₁, g₂, affected, jobs, appended, h₁, -⟩ :=
        applyBatchWithOutboxMode_ok hbatch
      simp only [GraphMutationBatch.fromEvents] at h₁ hms
      obtain ⟨old, hold, hle⟩ := hinv.volume
      have hcur : since ≤ currentGeneration g v + 1 := by
        rw [currentGeneration_of_get hold]
        omega
      have hcut : scanCutoff g v = some since := by rw [scanCutoff_eq hsession hphase, hsince]
      exact applyMutations_agree (fun event he => hms _ (List.mem_map.mpr ⟨event, he, rfl⟩)) hcur hcut
        hinv.links hagree (fun id object hmem => hkept id object (List.mem_append_right _ hmem)) h₁
  | other hscan _ _ ih => exact ih hkept

end Scanning

end LocalSearch.Graph
