import LocalSearch.Graph.ObservationScan

/-!
# Finalization of an observation scan

A finalization call sweeps one bounded page: first of the stale links, then of
the live objects that were neither observed nor kept a link. Each call lowers a
bound on the calls left, and the call that completes leaves exactly the links
the pages observed.
-/
namespace LocalSearch.Graph

set_option autoImplicit false

open Core Lib

/-- Links of the volume not observed since. -/
def staleLinks (g : FilesystemGraph) (v : VolumeId) (since : Nat) : List (FileLinkId × LinkRow) :=
  g.links.select fun _ row =>
    row.objectKey.volumeId == v && decide (row.observationGeneration < since)

/-- Live objects of the volume not observed since, linked or not. -/
def liveStaleObjects (g : FilesystemGraph) (v : VolumeId) (since : Nat) : List (FileKey × ObjectRow) :=
  g.objects.select fun key row =>
    key.volumeId == v && !row.tombstoned && decide (row.observationGeneration < since)

section Sweeps

variable {g g' : FilesystemGraph} {v : VolumeId} {since gen n k : Nat}

theorem liveStaleObjects_length_le (h : ObjectsFade g g') :
    (liveStaleObjects g' v since).length ≤ (liveStaleObjects g v since).length := by
  refine Table.select_length_le fun key row hrow hp => ?_
  obtain ⟨old, hold, -, hgen, htomb⟩ := h key row hrow
  simp only [Bool.and_eq_true, Bool.not_eq_true', beq_iff_eq, decide_eq_true_eq] at hp ⊢
  refine ⟨old, hold, ⟨hp.1.1, ?_⟩, hgen ▸ hp.2⟩
  cases ht : old.tombstoned with
  | false => rfl
  | true => rw [htomb ht] at hp; exact absurd hp.1.2 (by simp)

theorem mem_staleLinkPage {id : FileLinkId} {row : LinkRow}
    (h : (id, row) ∈ staleLinkPage g v since k) :
    g.links.get id = some row ∧ row.objectKey.volumeId = v ∧ row.observationGeneration < since := by
  obtain ⟨hrow, hp⟩ := Table.mem_select.mp (mem_byObservation.mp (List.mem_of_mem_take h))
  simp only [Bool.and_eq_true, beq_iff_eq, decide_eq_true_eq] at hp
  exact ⟨hrow, hp⟩

theorem staleLinkPage_nodup : ((staleLinkPage g v since k).map (·.1)).Nodup := by
  have hperm : (byObservation (·.observationGeneration) (staleLinks g v since)).Perm
      (staleLinks g v since) := List.perm_insertionSort _ _
  have hkeys := (hperm.map (·.1)).nodup_iff.mpr (Table.select_keys_nodup _ _)
  rw [staleLinkPage, List.map_take]
  exact hkeys.sublist (List.take_sublist _ _)

/-- A short page holds every stale link. -/
theorem mem_staleLinkPage_of_short (hshort : (staleLinkPage g v since k).length < k)
    {id : FileLinkId} {row : LinkRow} (hrow : g.links.get id = some row)
    (hv : row.objectKey.volumeId = v) (hstale : row.observationGeneration < since) :
    (id, row) ∈ staleLinkPage g v since k := by
  refine Table.mem_take_of_short hshort (mem_byObservation.mpr (Table.mem_select.mpr ⟨hrow, ?_⟩))
  simp [hv, hstale]

theorem mem_staleObjectPage {key : FileKey} {row : ObjectRow}
    (h : (key, row) ∈ staleObjectPage g v since k) :
    g.objects.get key = some row ∧ key.volumeId = v ∧ row.tombstoned = false ∧
      row.observationGeneration < since := by
  obtain ⟨hrow, hp⟩ := Table.mem_select.mp (mem_byObservation.mp (List.mem_of_mem_take h))
  simp only [Bool.and_eq_true, Bool.not_eq_true', beq_iff_eq, decide_eq_true_eq] at hp
  exact ⟨hrow, hp.1.1.1, hp.1.1.2, hp.1.2⟩

theorem mem_staleObjectPage_of_short (hshort : (staleObjectPage g v since k).length < k)
    {key : FileKey} {row : ObjectRow} (hrow : g.objects.get key = some row) (hv : key.volumeId = v)
    (hlive : row.tombstoned = false) (hstale : row.observationGeneration < since)
    (hlinks : linksOf g key = []) : (key, row) ∈ staleObjectPage g v since k := by
  refine Table.mem_take_of_short hshort (mem_byObservation.mpr (Table.mem_select.mpr ⟨hrow, ?_⟩))
  simp [hv, hlive, hstale, hlinks]

/-- Tombstoning a page marks its objects and no others. -/
theorem tombstones_get {stale : List (FileKey × ObjectRow)} (key : FileKey) :
    (stale.foldl (fun g x => setTombstoned g x.1 true) g).objects.get key =
      if key ∈ stale.map (·.1) then
        (g.objects.get key).map fun row => { row with tombstoned := true }
      else g.objects.get key := by
  induction stale generalizing g with
  | nil => rfl
  | cons x rest ih =>
    rw [List.foldl_cons, ih, setTombstoned_get]
    simp only [List.map_cons, List.mem_cons]
    by_cases hx : key = x.1 <;> by_cases hrest : key ∈ rest.map (·.1) <;>
      cases g.objects.get key <;> simp [hx, hrest]

theorem tombstones_frame (stale : List (FileKey × ObjectRow)) (g : FilesystemGraph) :
    (stale.foldl (fun g x => setTombstoned g x.1 true) g) =
      { g with objects := (stale.foldl (fun g x => setTombstoned g x.1 true) g).objects } := by
  induction stale generalizing g with
  | nil => rfl
  | cons x rest ih => rw [List.foldl_cons, ih]; rfl

theorem objectsFade_tombstones (stale : List (FileKey × ObjectRow)) (g : FilesystemGraph) :
    ObjectsFade g (stale.foldl (fun g x => setTombstoned g x.1 true) g) := by
  induction stale generalizing g with
  | nil => exact .refl g
  | cons x rest ih => exact (setTombstoned_fade g x.1).trans (ih _)

variable [CaseMapping]

/-- A sweep of links removes its rows and touches nothing else of the volume but
the marks of objects that lost their last link. -/
theorem sweepLinkRows_spec {rows : List (FileLinkId × LinkRow)}
    (h : sweepLinkRows gen g rows = .ok g') :
    g'.sessions = g.sessions ∧ g'.volumes = g.volumes ∧ ObjectsFade g g' ∧
      ∀ id, g'.links.get id = if id ∈ rows.map (·.1) then none else g.links.get id := by
  induction rows generalizing g with
  | nil =>
    obtain rfl := Except.ok.inj h
    exact ⟨rfl, rfl, .refl _, fun id => by simp⟩
  | cons x rest ih =>
    obtain ⟨link, row⟩ := x
    simp only [sweepLinkRows, bind_ok] at h
    obtain ⟨⟨g₁, n₁⟩, h₁, ⟨g₂, n₂⟩, h₂, hrest⟩ := h
    have hframe₁ := removeLinkInternal_frame h₁
    have hs₁ : g₁.sessions = g.sessions := by rw [hframe₁]
    have hv₁ : g₁.volumes = g.volumes := by rw [hframe₁]
    have hframe := syncCatalogProjection_frame h₂
    obtain ⟨hs, hv, ho, hl⟩ := ih hrest
    rw [hframe] at hs hv ho
    refine ⟨hs.trans hs₁, hv.trans hv₁, (removeLinkInternal_fade h₁).trans ho, fun id => ?_⟩
    have hlinks : g₂.links = g₁.links := by rw [hframe]
    rw [hl id, hlinks, removeLinkInternal_get h₁ id]
    simp only [List.map_cons, List.mem_cons]
    by_cases hid : id = link <;> by_cases hmem : id ∈ rest.map (·.1) <;> simp [hid, hmem]

/-- A sweep of present links with distinct identities succeeds. -/
theorem sweepLinkRows_total {rows : List (FileLinkId × LinkRow)} (hn : NamespaceWF g)
    (hc : CatalogWF g ∅) (hrows : ∀ x ∈ rows, g.links.get x.1 = some x.2)
    (hnodup : (rows.map (·.1)).Nodup) : ∃ g', sweepLinkRows gen g rows = .ok g' := by
  induction rows generalizing g with
  | nil => exact ⟨g, rfl⟩
  | cons x rest ih =>
    obtain ⟨link, row⟩ := x
    rw [List.map_cons, List.nodup_cons] at hnodup
    have hrow : g.links.get link = some row := hrows (link, row) List.mem_cons_self
    obtain ⟨object, hobj, -⟩ := hn.linkObject link row hrow
    have hremove : ∃ g₁ n₁, removeLinkInternal g link row.objectKey gen false = .ok (g₁, n₁) := by
      rw [removeLinkInternal, hrow]
      simp only [ne_eq, not_true_eq_false, if_false, Bool.and_false, Bool.false_eq_true]
      exact ⟨_, _, bind_ok.mpr ⟨_, isDirectory_ok.mpr ⟨object, hobj, rfl⟩, rfl⟩⟩
    obtain ⟨g₁, n₁, h₁⟩ := hremove
    have hch : Changes True row.objectKey.volumeId gen .durable (g, ∅) (g₁, ∅ ∪ {link}) :=
      removeLinkInternal_changes h₁
    have hn₁ : NamespaceWF g₁ :=
      hch.names hn
    have hc₁ : CatalogWF g₁ (∅ ∪ {link}) :=
      hch.catalog hc
    obtain ⟨g₂, n₂, h₂⟩ := syncCatalogProjection_total hn₁ hc₁ link gen .durable
    have hframe := syncCatalogProjection_frame h₂
    have hswept : Changes True row.objectKey.volumeId gen .durable (g, ∅) (g₂, ∅) :=
      sweepRow_changes h₁ h₂
    have hrest : ∀ y ∈ rest, g₂.links.get y.1 = some y.2 := by
      intro y hy
      have hne : y.1 ≠ link := fun he => hnodup.1 (he ▸ List.mem_map.mpr ⟨y, hy, rfl⟩)
      have hlinks : g₂.links = g₁.links := by rw [hframe]
      rw [hlinks, removeLinkInternal_get h₁, if_neg hne]
      exact hrows y (List.mem_cons_of_mem _ hy)
    obtain ⟨g', h'⟩ := ih (hswept.names hn) (hswept.catalog hc) hrest hnodup.2
    exact ⟨g', bind_ok.mpr ⟨_, h₁, bind_ok.mpr ⟨_, h₂, h'⟩⟩⟩

end Sweeps

/-- What holds of the volume between two finalization calls. -/
structure SweepInvariant (v : VolumeId) (since : Nat) (events : List FilesystemEvent)
    (staged : CheckpointRow) (g : FilesystemGraph) : Prop where
  scan : ScanInvariant v since events g
  session : ∃ mode, g.sessions.get v = some ⟨since, mode, .sweepingLinks staged⟩ ∨
    (g.sessions.get v = some ⟨since, mode, .sweepingObjects staged⟩ ∧ staleLinks g v since = [])

/-- What a completed scan leaves behind. -/
structure ScanExact (v : VolumeId) (events : List FilesystemEvent) (staged : CheckpointRow)
    (g : FilesystemGraph) : Prop where
  links : volumeLinks g v = observedLinks events
  objects : ∀ key row, g.objects.get key = some row → key.volumeId = v → row.tombstoned = false →
    (∃ id link, g.links.get id = some link ∧ link.objectKey = key) ∨ ObservesObject events key
  live : ∀ id link, g.links.get id = some link →
    ∃ object, g.objects.get link.objectKey = some object ∧ object.tombstoned = false
  checkpoint : g.checkpoints.get v = some staged
  online : ∃ row, g.volumes.get v = some row ∧ row.state = .online
  closed : g.sessions.get v = none

/-- Calls a session still needs besides those that sweep a full page. -/
def phaseWork (session : Option SessionRow) : Nat :=
  match session with
  | some ⟨_, _, .sweepingLinks _⟩ => 2
  | some ⟨_, _, .sweepingObjects _⟩ => 1
  | _ => 0

/-- A bound on the calls left. -/
def finalizeWork (g : FilesystemGraph) (v : VolumeId) (since : Nat) : Nat :=
  (staleLinks g v since).length + (liveStaleObjects g v since).length + phaseWork (g.sessions.get v)

section Finalize

variable [CaseMapping] {P : Nat → FilesystemGraph → Prop} {R : GraphOp → FilesystemGraph → Prop}
  {g g' : FilesystemGraph}
  {v : VolumeId} {since k : Nat} {events : List FilesystemEvent} {staged : CheckpointRow}

omit [CaseMapping] in
/-- Losing stale links leaves the observed ones. -/
theorem linksSince_of_swept {rows : List (FileLinkId × LinkRow)}
    (hstale : ∀ x ∈ rows, linksSince g v since x.1 = none)
    (hlinks : ∀ id, g'.links.get id = if id ∈ rows.map (·.1) then none else g.links.get id) :
    linksSince g' v since = linksSince g v since := by
  funext id
  by_cases hmem : id ∈ rows.map (·.1)
  · obtain ⟨x, hx, rfl⟩ := List.mem_map.mp hmem
    have hnone : g'.links.get x.1 = none := by rw [hlinks, if_pos hmem]
    rw [linksSince_eq_none_of_get hnone, hstale x hx]
  · rw [linksSince, linksSince, hlinks, if_neg hmem]

omit [CaseMapping] in
theorem staleLinks_length_le (hlinks : ∀ id row, g'.links.get id = some row → g.links.get id = some row) :
    (staleLinks g' v since).length ≤ (staleLinks g v since).length :=
  Table.select_length_le fun id row hrow hp => ⟨row, hlinks id row hrow, hp⟩

omit [CaseMapping] in
/-- The scan invariant does not see the generation of the volume grow. -/
theorem ScanInvariant.of_sweep (hinv : ScanInvariant v since events g) (hwf : WellFormed g')
    (hlinks : linksSince g' v since = linksSince g v since) (hfade : ObjectsFade g g')
    (hvolume : ∃ row, g'.volumes.get v = some row ∧ since ≤ row.generation) :
    ScanInvariant v since events g' := by
  refine ⟨hwf, hlinks.trans hinv.links, fun key row hrow hkey hs => ?_, hvolume⟩
  obtain ⟨old, hold, -, hgen, -⟩ := hfade key row hrow
  exact hinv.objects key old hold hkey (hgen ▸ hs)

omit [CaseMapping] in
theorem setGeneration_volume {gen : Nat} {row : VolumeRow} (hrow : g.volumes.get v = some row) :
    (setGeneration g v gen).volumes.get v = some { row with generation := gen } := by
  simp [setGeneration, Table.get_modify, hrow]

/-- One call of the link sweep. -/
theorem finalize_sweepsLinks {mode : ObservationScanMode} {volume : VolumeRow}
    (hinv : ScanInvariant v since events g)
    (hsession : g.sessions.get v = some ⟨since, mode, .sweepingLinks staged⟩) (hk : 1 ≤ k)
    (hvol : g.volumes.get v = some volume) (hgen : volume.generation + 1 < 2 ^ 63) :
    ∃ g' summary, finalizeObservationScan g v k = .ok (g', summary) ∧ summary.completed = false ∧
      SweepInvariant v since events staged g' ∧ finalizeWork g' v since < finalizeWork g v since := by
  set rows := staleLinkPage g v since k with hrows
  have hpage : ∀ x ∈ rows, g.links.get x.1 = some x.2 ∧ x.2.objectKey.volumeId = v ∧
      x.2.observationGeneration < since := fun x hx => mem_staleLinkPage hx
  obtain ⟨g₁, hsweep⟩ : ∃ g₁, sweepLinkRows (volume.generation + 1) g rows = .ok g₁ :=
    sweepLinkRows_total hinv.wellFormed.names hinv.wellFormed.catalog (fun x hx => (hpage x hx).1)
      staleLinkPage_nodup
  obtain ⟨hs₁, hv₁, hfade, hlinks⟩ := sweepLinkRows_spec hsweep
  have hstale : ∀ x ∈ rows, linksSince g v since x.1 = none := fun x hx =>
    linksSince_eq_none_of_stale (hpage x hx).1 (hpage x hx).2.2
  have hkept : ∀ id row, g₁.links.get id = some row →
      id ∉ rows.map (·.1) ∧ g.links.get id = some row := by
    intro id row hrow
    rw [hlinks] at hrow
    split_ifs at hrow with hmem
    exact ⟨hmem, hrow⟩
  -- the state before the generation is written back
  set g₂ : FilesystemGraph := if rows.length < k then
      { g₁ with sessions := g₁.sessions.insert v ⟨since, mode, .sweepingObjects staged⟩ }
    else g₁ with hg₂
  have hcall : finalizeObservationScan g v k =
      .ok (setGeneration g₂ v (volume.generation + 1), ⟨rows.length, 0, false⟩) := by
    rw [finalizeObservationScan, if_neg (by omega)]
    simp only [hsession, finalizationGeneration, hvol, checkedSucc, if_neg (not_le.mpr hgen)]
    refine bind_ok.mpr ⟨_, rfl, bind_ok.mpr ⟨(g₂, rows.length), ?_, rfl⟩⟩
    refine bind_ok.mpr ⟨g₁, hsweep, ?_⟩
    rw [hg₂]
    split_ifs <;> rfl
  have hsame : g₂.links = g₁.links ∧ g₂.objects = g₁.objects ∧ g₂.volumes = g₁.volumes := by
    rw [hg₂]
    split_ifs <;> exact ⟨rfl, rfl, rfl⟩
  have hwf' := wellFormed_of_transacts
    (finalizeObservationScan_transacts (R := True) hinv.wellFormed.queues hcall) hinv.wellFormed
  have hvol₂ : g₂.volumes.get v = some volume := by rw [hsame.2.2, hv₁]; exact hvol
  have hfade₂ : ObjectsFade g (setGeneration g₂ v (volume.generation + 1)) := fun key row hrow =>
    hfade key row (by rw [← hsame.2.1]; exact hrow)
  have hscan : ScanInvariant v since events (setGeneration g₂ v (volume.generation + 1)) := by
    obtain ⟨old, hold, hle⟩ := hinv.volume
    refine hinv.of_sweep hwf' ?_ hfade₂ ⟨_, setGeneration_volume hvol₂, ?_⟩
    · have hl : (setGeneration g₂ v (volume.generation + 1)).links = g₁.links := hsame.1
      rw [linksSince_congr hl]
      exact linksSince_of_swept hstale hlinks
    · rw [hvol] at hold
      obtain rfl := Option.some.inj hold
      exact hle.trans (Nat.le_succ _)
  have hlive : (liveStaleObjects (setGeneration g₂ v (volume.generation + 1)) v since).length ≤
      (liveStaleObjects g v since).length := liveStaleObjects_length_le hfade₂
  refine ⟨_, _, hcall, rfl, ⟨hscan, mode, ?_⟩, ?_⟩
  · by_cases hshort : rows.length < k
    · refine Or.inr ⟨?_, ?_⟩
      · change g₂.sessions.get v = _
        rw [hg₂, if_pos hshort]
        exact Table.get_insert_self _ _ _
      · refine List.eq_nil_iff_forall_not_mem.mpr fun x hmem => ?_
        obtain ⟨id, row⟩ := x
        obtain ⟨hrow, hp⟩ := Table.mem_select.mp hmem
        simp only [Bool.and_eq_true, beq_iff_eq, decide_eq_true_eq] at hp
        obtain ⟨hout, hold⟩ := hkept id row (by rw [← hsame.1]; exact hrow)
        exact hout (List.mem_map.mpr ⟨_, mem_staleLinkPage_of_short hshort hold hp.1 hp.2, rfl⟩)
    · refine Or.inl ?_
      change g₂.sessions.get v = _
      rw [hg₂, if_neg hshort, hs₁, hsession]
  · by_cases hshort : rows.length < k
    · have hl : (staleLinks (setGeneration g₂ v (volume.generation + 1)) v since).length ≤
          (staleLinks g v since).length :=
        staleLinks_length_le fun id row hrow => (hkept id row (by rw [← hsame.1]; exact hrow)).2
      have hs' : (setGeneration g₂ v (volume.generation + 1)).sessions.get v =
          some ⟨since, mode, .sweepingObjects staged⟩ := by
        change g₂.sessions.get v = _
        rw [hg₂, if_pos hshort]
        exact Table.get_insert_self _ _ _
      have hbefore : phaseWork (g.sessions.get v) = 2 := by rw [hsession]; rfl
      have hafter : phaseWork ((setGeneration g₂ v (volume.generation + 1)).sessions.get v) = 1 := by
        rw [hs']; rfl
      rw [finalizeWork, finalizeWork, hbefore, hafter]
      omega
    · obtain ⟨x, hx⟩ := List.exists_mem_of_length_pos (by omega : 0 < rows.length)
      have hl : (staleLinks (setGeneration g₂ v (volume.generation + 1)) v since).length <
          (staleLinks g v since).length := by
        refine Table.select_length_lt (fun id row hrow hp => ?_) (hpage x hx).1 ?_ fun row hrow => ?_
        · exact ⟨row, (hkept id row (by rw [← hsame.1]; exact hrow)).2, hp⟩
        · simp [(hpage x hx).2.1, (hpage x hx).2.2]
        · exact absurd (List.mem_map.mpr ⟨x, hx, rfl⟩)
            (hkept x.1 row (by rw [← hsame.1]; exact hrow)).1
      have hs' : (setGeneration g₂ v (volume.generation + 1)).sessions.get v = g.sessions.get v := by
        change g₂.sessions.get v = _
        rw [hg₂, if_neg hshort, hs₁]
      rw [finalizeWork, finalizeWork, hs']
      omega

omit [CaseMapping] in
/-- With no stale link left, all links of the volume were observed. -/
theorem volumeLinks_of_swept (hinv : ScanInvariant v since events g)
    (hswept : staleLinks g v since = []) : volumeLinks g v = observedLinks events := by
  rw [← hinv.links]
  funext id
  refine Option.ext fun link => ?_
  rw [volumeLinks, linksSince_eq_some, linksSince_eq_some]
  constructor
  · rintro ⟨row, hrow, hv, -, hlink⟩
    refine ⟨row, hrow, hv, not_lt.mp fun hlt => ?_, hlink⟩
    have hmem : (id, row) ∈ staleLinks g v since :=
      Table.mem_select.mpr ⟨hrow, by simp [hv, hlt]⟩
    rw [hswept] at hmem
    cases hmem
  · rintro ⟨row, hrow, hv, -, hlink⟩
    exact ⟨row, hrow, hv, Nat.zero_le _, hlink⟩

/-- A call whose page of stale objects is short completes the scan. -/
theorem finalize_completes {mode : ObservationScanMode} {volume : VolumeRow}
    (hinv : ScanInvariant v since events g)
    (hsession : g.sessions.get v = some ⟨since, mode, .sweepingObjects staged⟩)
    (hswept : staleLinks g v since = []) (hk : 1 ≤ k) (hvol : g.volumes.get v = some volume)
    (hgen : volume.generation + 1 < 2 ^ 63) (hshort : (staleObjectPage g v since k).length < k) :
    ∃ g' summary, finalizeObservationScan g v k = .ok (g', summary) ∧ summary.completed = true ∧
      ScanExact v events staged g' := by
  set stale := staleObjectPage g v since k with hstale
  set g₁ := stale.foldl (fun g x => setTombstoned g x.1 true) g with hg₁
  have hframe : g₁ = { g with objects := g₁.objects } := tombstones_frame stale g
  have hfade : ObjectsFade g g₁ := objectsFade_tombstones stale g
  have hlinks₁ : g₁.links = g.links := by rw [hframe]
  have hvol₁ : g₁.volumes.get v = some volume := by rw [hframe]; exact hvol
  have hsweep : sweepStaleObservationObjects g v since k =
      (g₁, stale.length, decide (stale.length < k)) := rfl
  have hcall : finalizeObservationScan g v k = .ok
      (activateObservationCheckpoint g₁ v (volume.generation + 1) staged,
        ⟨0, stale.length, true⟩) := by
    rw [finalizeObservationScan, if_neg (by omega)]
    simp only [hsession, finalizationGeneration, hvol, checkedSucc, if_neg (not_le.mpr hgen),
      hsweep, decide_eq_true hshort]
    rfl
  have hwf' := wellFormed_of_transacts
    (finalizeObservationScan_transacts (R := True) hinv.wellFormed.queues hcall) hinv.wellFormed
  refine ⟨_, _, hcall, rfl, ?_, fun key row hrow hkey hlive => ?_, hwf'.names.linkObject,
    Table.get_insert_self _ _ _, ?_, ?_⟩
  · have hl : (activateObservationCheckpoint g₁ v (volume.generation + 1) staged).links =
      g.links := hlinks₁
    rw [volumeLinks, linksSince_congr hl]
    exact volumeLinks_of_swept hinv hswept
  · have hrow₁ : g₁.objects.get key = some row := hrow
    obtain ⟨old, hold, -, hsame, htomb⟩ := hfade key row hrow₁
    have hold_live : old.tombstoned = false := by
      cases ht : old.tombstoned with
      | false => rfl
      | true => rw [htomb ht] at hlive; cases hlive
    by_cases hobserved : since ≤ old.observationGeneration
    · exact Or.inr (hinv.objects key old hold hkey hobserved)
    · refine Or.inl ?_
      by_contra hunlinked
      have hnil : linksOf g key = [] := linksOf_eq_nil.mpr fun id link hlink hobj =>
        hunlinked ⟨id, link, by rw [← hlinks₁] at hlink; exact hlink, hobj⟩
      -- the short page held the object, so it was tombstoned
      have hmem := mem_staleObjectPage_of_short hshort hold hkey hold_live (not_le.mp hobserved) hnil
      rw [hg₁, tombstones_get, if_pos (List.mem_map.mpr ⟨_, hmem, rfl⟩), hold] at hrow₁
      obtain rfl := Option.some.inj hrow₁
      cases hlive
  · refine ⟨{ volume with state := .online, reconciliationReason := none,
                          generation := volume.generation + 1 }, ?_, rfl⟩
    change (g₁.volumes.modify v _).get v = _
    rw [Table.get_modify, if_pos rfl, hvol₁]
    rfl
  · change (g₁.sessions.erase v).get v = none
    rw [Table.get_erase, if_pos rfl]

/-- One whose page is full leaves fewer of them. -/
theorem finalize_sweepsPage {mode : ObservationScanMode} {volume : VolumeRow}
    (hinv : ScanInvariant v since events g)
    (hsession : g.sessions.get v = some ⟨since, mode, .sweepingObjects staged⟩)
    (hswept : staleLinks g v since = []) (hk : 1 ≤ k) (hvol : g.volumes.get v = some volume)
    (hgen : volume.generation + 1 < 2 ^ 63) (hfull : ¬ (staleObjectPage g v since k).length < k) :
    ∃ g' summary, finalizeObservationScan g v k = .ok (g', summary) ∧ summary.completed = false ∧
      SweepInvariant v since events staged g' ∧ finalizeWork g' v since < finalizeWork g v since := by
  set stale := staleObjectPage g v since k with hstale
  set g₁ := stale.foldl (fun g x => setTombstoned g x.1 true) g with hg₁
  have hframe : g₁ = { g with objects := g₁.objects } := tombstones_frame stale g
  have hfade : ObjectsFade g g₁ := objectsFade_tombstones stale g
  have hlinks₁ : g₁.links = g.links := by rw [hframe]
  have hvol₁ : g₁.volumes.get v = some volume := by rw [hframe]; exact hvol
  have hsweep : sweepStaleObservationObjects g v since k =
      (g₁, stale.length, decide (stale.length < k)) := rfl
  have hcall : finalizeObservationScan g v k = .ok
      (setGeneration g₁ v (volume.generation + 1), ⟨0, stale.length, false⟩) := by
    rw [finalizeObservationScan, if_neg (by omega)]
    simp only [hsession, finalizationGeneration, hvol, checkedSucc, if_neg (not_le.mpr hgen),
      hsweep, decide_eq_false hfull]
    rfl
  have hwf' := wellFormed_of_transacts
    (finalizeObservationScan_transacts (R := True) hinv.wellFormed.queues hcall) hinv.wellFormed
  have hlinks' : (setGeneration g₁ v (volume.generation + 1)).links = g.links := hlinks₁
  have hsessions' : (setGeneration g₁ v (volume.generation + 1)).sessions = g.sessions := by
    change g₁.sessions = g.sessions
    rw [hframe]
  have hstaleLinks : staleLinks (setGeneration g₁ v (volume.generation + 1)) v since =
      staleLinks g v since := by rw [staleLinks, staleLinks, hlinks']
  refine ⟨_, _, hcall, rfl, ⟨?_, mode, Or.inr ⟨?_, ?_⟩⟩, ?_⟩
  · obtain ⟨old, hold, hle⟩ := hinv.volume
    rw [hvol] at hold
    obtain rfl := Option.some.inj hold
    exact hinv.of_sweep hwf' (linksSince_congr hlinks') hfade
      ⟨_, setGeneration_volume hvol₁, hle.trans (Nat.le_succ _)⟩
  · rw [hsessions', hsession]
  · rw [hstaleLinks, hswept]
  · obtain ⟨x, hx⟩ := List.exists_mem_of_length_pos (by omega : 0 < stale.length)
    obtain ⟨hrow, hv, hlive, hlt⟩ := mem_staleObjectPage hx
    have hless : (liveStaleObjects (setGeneration g₁ v (volume.generation + 1)) v since).length <
        (liveStaleObjects g v since).length := by
      refine Table.select_length_lt (fun key row hr hp => ?_) hrow ?_ fun row hr => ?_
      · obtain ⟨old, hold, -, hsame, htomb⟩ := hfade key row hr
        simp only [Bool.and_eq_true, Bool.not_eq_true', beq_iff_eq, decide_eq_true_eq] at hp ⊢
        refine ⟨old, hold, ⟨hp.1.1, ?_⟩, hsame ▸ hp.2⟩
        cases ht : old.tombstoned with
        | false => rfl
        | true => rw [htomb ht] at hp; exact absurd hp.1.2 (by simp)
      · simp [hv, hlive, hlt]
      · have hr₁ : g₁.objects.get x.1 = some row := hr
        rw [hg₁, tombstones_get, if_pos (List.mem_map.mpr ⟨x, hx, rfl⟩), hrow] at hr₁
        obtain rfl := Option.some.inj hr₁
        simp
    rw [finalizeWork, finalizeWork, hsessions', hstaleLinks]
    omega

/-- One call of the object sweep, completing or not. -/
theorem finalize_sweepsObjects {mode : ObservationScanMode} {volume : VolumeRow}
    (hinv : ScanInvariant v since events g)
    (hsession : g.sessions.get v = some ⟨since, mode, .sweepingObjects staged⟩)
    (hswept : staleLinks g v since = []) (hk : 1 ≤ k) (hvol : g.volumes.get v = some volume)
    (hgen : volume.generation + 1 < 2 ^ 63) :
    ∃ g' summary, finalizeObservationScan g v k = .ok (g', summary) ∧
      (summary.completed = false → SweepInvariant v since events staged g' ∧
        finalizeWork g' v since < finalizeWork g v since) ∧
      (summary.completed = true → ScanExact v events staged g') := by
  by_cases hshort : (staleObjectPage g v since k).length < k
  · obtain ⟨g', summary, hcall, hdone, hexact⟩ :=
      finalize_completes hinv hsession hswept hk hvol hgen hshort
    exact ⟨g', summary, hcall, fun hopen => absurd (hdone.symm.trans hopen) (by simp), fun _ => hexact⟩
  · obtain ⟨g', summary, hcall, hopen, hless⟩ :=
      finalize_sweepsPage hinv hsession hswept hk hvol hgen hshort
    exact ⟨g', summary, hcall, fun _ => hless, fun hdone => absurd (hopen.symm.trans hdone) (by simp)⟩

/-- One call with a positive bound: it is refused for want of a generation,
lowers the bound on the calls left, or completes the scan. -/
theorem finalizeObservationScan_call (hinv : SweepInvariant v since events staged g) (hk : 1 ≤ k) :
    (finalizeObservationScan g v k =
        .error (.numericRange "observation finalization generation") ∧
      2 ^ 63 ≤ currentGeneration g v + 1) ∨
    ∃ g' summary, finalizeObservationScan g v k = .ok (g', summary) ∧
      (summary.completed = false → SweepInvariant v since events staged g' ∧
        finalizeWork g' v since < finalizeWork g v since) ∧
      (summary.completed = true → ScanExact v events staged g') := by
  obtain ⟨volume, hvol, -⟩ := hinv.scan.volume
  obtain ⟨mode, hphase⟩ := hinv.session
  by_cases hgen : volume.generation + 1 < 2 ^ 63
  · refine Or.inr ?_
    rcases hphase with hlinks | ⟨hobjects, hswept⟩
    · obtain ⟨g', summary, hcall, hopen, hinv', hwork⟩ :=
        finalize_sweepsLinks hinv.scan hlinks hk hvol hgen
      exact ⟨g', summary, hcall, fun _ => ⟨hinv', hwork⟩, fun h => by rw [hopen] at h; cases h⟩
    · exact finalize_sweepsObjects hinv.scan hobjects hswept hk hvol hgen
  · refine Or.inl ⟨?_, by rw [currentGeneration_of_get hvol]; exact not_lt.mp hgen⟩
    rw [finalizeObservationScan, if_neg (by omega)]
    rcases hphase with hlinks | ⟨hobjects, -⟩
    · simp only [hlinks, finalizationGeneration, hvol, checkedSucc, if_pos (not_lt.mp hgen)]
      rfl
    · simp only [hobjects, finalizationGeneration, hvol, checkedSucc, if_pos (not_lt.mp hgen)]
      rfl

/-- Calls with positive bounds that meet `P` and did not complete, with steps
that meet `R` in between, where they leave the rows of the volume alone. -/
inductive Finalizing (P : Nat → FilesystemGraph → Prop) (R : GraphOp → FilesystemGraph → Prop)
    (v : VolumeId) (g₀ : FilesystemGraph) : Nat → FilesystemGraph → Prop
  | start : Finalizing P R v g₀ 0 g₀
  | call {calls k : Nat} {g g' : FilesystemGraph} {summary : ObservationFinalizeSummary}
      (h : Finalizing P R v g₀ calls g) (hP : P k g) (hk : 1 ≤ k)
      (hcall : finalizeObservationScan g v k = .ok (g', summary))
      (hopen : summary.completed = false) : Finalizing P R v g₀ (calls + 1) g'
  | other {calls : Nat} {g g' : FilesystemGraph} (h : Finalizing P R v g₀ calls g)
      (hstep : Step R g g') (hrows : volumeRows g' v = volumeRows g v) :
      Finalizing P R v g₀ calls g'

omit [CaseMapping] in
theorem sessions_of_volumeRows (h : volumeRows g' v = volumeRows g v) :
    g'.sessions.get v = g.sessions.get v :=
  congrArg VolumeRows.session h

omit [CaseMapping] in
theorem staleLinks_of_volumeRows (h : volumeRows g' v = volumeRows g v) :
    staleLinks g' v since = staleLinks g v since := by
  have hfilter : ∀ g, staleLinks g v since =
      (volumeRows g v).links.filter fun x => decide (x.2.observationGeneration < since) := by
    intro g
    simp only [staleLinks, volumeRows, Table.select, List.filter_filter]
    exact List.filter_congr fun x _ => Bool.and_comm _ _
  rw [hfilter, hfilter, h]

omit [CaseMapping] in
theorem liveStaleObjects_of_volumeRows (h : volumeRows g' v = volumeRows g v) :
    liveStaleObjects g' v since = liveStaleObjects g v since := by
  have hfilter : ∀ g, liveStaleObjects g v since = (volumeRows g v).objects.filter fun x =>
      !x.2.tombstoned && decide (x.2.observationGeneration < since) := by
    intro g
    simp only [liveStaleObjects, volumeRows, Table.select, List.filter_filter]
    refine List.filter_congr fun x _ => ?_
    rw [Bool.and_assoc, Bool.and_comm]
  rw [hfilter, hfilter, h]

theorem Finalizing.invariant {g₀ : FilesystemGraph} {calls : Nat}
    (hinv : SweepInvariant v since events staged g₀) (h : Finalizing P R v g₀ calls g) :
    SweepInvariant v since events staged g ∧
      calls + finalizeWork g v since ≤ finalizeWork g₀ v since := by
  induction h with
  | start => exact ⟨hinv, by omega⟩
  | call _ _ hk hcall hopen ih =>
    rcases finalizeObservationScan_call ih.1 hk with ⟨herr, -⟩ | ⟨g₁, summary₁, hok, hstep, -⟩
    · rw [herr] at hcall
      cases hcall
    · obtain ⟨rfl, rfl⟩ := Prod.mk.inj (Except.ok.inj (hok.symm.trans hcall))
      obtain ⟨hinv', hwork⟩ := hstep hopen
      exact ⟨hinv', by omega⟩
  | other _ hstep hrows ih =>
    have hs := sessions_of_volumeRows hrows
    refine ⟨⟨ih.1.scan.of_volumeRows (hstep.wellFormed ih.1.scan.wellFormed) hrows, ?_⟩, ?_⟩
    · obtain ⟨mode, hphase⟩ := ih.1.session
      rw [staleLinks_of_volumeRows hrows]
      exact ⟨mode, hphase.imp hs.trans fun h => ⟨hs.trans h.1, h.2⟩⟩
    · rw [finalizeWork, staleLinks_of_volumeRows hrows, liveStaleObjects_of_volumeRows hrows, hs]
      exact ih.2

omit [CaseMapping] in
/-- Staging the checkpoint opens the first sweep. -/
theorem sweepInvariant_stage {checkpoint : ProviderCheckpoint} {mode : ObservationScanMode}
    (hinv : ScanInvariant v since events g)
    (hsession : g.sessions.get v = some ⟨since, mode, .scanning⟩) (hwf : WellFormed g')
    (h : stageObservationCheckpoint g v checkpoint = .ok g') :
    SweepInvariant v since events (ProviderCheckpoint.row checkpoint) g' := by
  obtain ⟨session, hs, -, rfl⟩ := stageObservationCheckpoint_ok h
  obtain rfl := Option.some.inj (hs.symm.trans hsession)
  exact ⟨⟨hwf, (linksSince_congr rfl).trans hinv.links, hinv.objects, hinv.volume⟩, mode,
    Or.inl (Table.get_insert_self _ _ _)⟩

omit [CaseMapping] in
theorem SweepInvariant.finalizeWork_pos (hinv : SweepInvariant v since events staged g) :
    0 < finalizeWork g v since := by
  obtain ⟨mode, hphase⟩ := hinv.session
  rcases hphase with hs | ⟨hs, -⟩ <;> rw [finalizeWork, hs, phaseWork] <;> omega

/-- From any reachable state: begin a scan, apply accepted pages, stage a
checkpoint and finalize with positive bounds, other work on other rows in
between. Only boundedly many calls are incomplete, a call is refused only when
the generation counter of the volume is used up, and the call that completes
leaves exactly what the pages observed. -/
theorem observation_scan_exact {g g₀ g₁ g₂ : FilesystemGraph} {descriptor : VolumeDescriptor}
    {mode : ObservationScanMode} {reason : ReconciliationReason} {session : ObservationSession}
    {events : List FilesystemEvent} {checkpoint : ProviderCheckpoint} (hreach : Reachable g)
    (hbegin : beginObservationScan g descriptor mode reason = .ok (g₀, session))
    (hpages : Scanning (fun _ _ => True) (fun _ _ => True) descriptor.volumeId g₀ events g₁)
    (hstage : stageObservationCheckpoint g₁ descriptor.volumeId checkpoint = .ok g₂) :
    ∃ bound, ∀ calls g₃, Finalizing (fun _ _ => True) (fun _ _ => True) descriptor.volumeId g₂ calls g₃ → calls < bound ∧
      ∀ k, 1 ≤ k →
        (finalizeObservationScan g₃ descriptor.volumeId k =
            .error (.numericRange "observation finalization generation") ∧
          2 ^ 63 ≤ currentGeneration g₃ descriptor.volumeId + 1) ∨
        ∃ g₄ summary, finalizeObservationScan g₃ descriptor.volumeId k = .ok (g₄, summary) ∧
          (summary.completed = true →
            ScanExact descriptor.volumeId events (ProviderCheckpoint.row checkpoint) g₄) := by
  obtain ⟨hinv₀, hsession₀⟩ := scanInvariant_begin hreach.wellFormed hbegin
  obtain ⟨hinv₁, hsession₁⟩ := hpages.invariant hinv₀ hsession₀ rfl
  have htrans : Transacts True .durable g₁ g₂ :=
    stageObservationCheckpoint_transacts hinv₁.wellFormed.queues hstage
  have hwf₂ := wellFormed_of_transacts htrans hinv₁.wellFormed
  have hinv₂ := sweepInvariant_stage hinv₁ hsession₁ hwf₂ hstage
  refine ⟨finalizeWork g₂ descriptor.volumeId session.scanGeneration, fun calls g₃ hrun => ?_⟩
  obtain ⟨hinv₃, hbound⟩ := hrun.invariant hinv₂
  have hpos := hinv₃.finalizeWork_pos
  refine ⟨by omega, fun k hk => ?_⟩
  refine (finalizeObservationScan_call hinv₃ hk).imp_right ?_
  rintro ⟨g₄, summary, hcall, -, hdone⟩
  exact ⟨g₄, summary, hcall, hdone⟩

end Finalize

section Example

attribute [local instance] asciiCaseMapping

def scanSamplePrior : FilesystemGraph :=
  (runOps .empty [.applyBatch (sampleBatch sampleTree)]).toOption.getD .empty

def scanSampleBegun : FilesystemGraph :=
  (runOps scanSamplePrior [.beginObservationScan sampleDescriptor .reconcile
    .providerRequested]).toOption.getD .empty

/-- The scan finds the root and one file, now right under it. -/
def scanSampleEvents : List FilesystemEvent :=
  [.objectObserved (sampleObject 1 .directory), .linkObserved (sampleLink 9 1 none "C:"),
    .objectObserved (sampleObject 3 .file), .linkObserved (sampleLink 7 3 (some 1) "a")]

def scanSampleSeen : FilesystemGraph :=
  (runOps scanSampleBegun [.applyObservationScanPage sampleVolume scanSampleEvents]).toOption.getD
    .empty

def scanSampleStaged : FilesystemGraph :=
  (runOps scanSampleSeen [.stageObservationCheckpoint sampleVolume sampleCheckpoint]).toOption.getD
    .empty

theorem scanSample_exact :
    ∃ bound, ∀ calls g₃, Finalizing (fun _ _ => True) (fun _ _ => True) sampleVolume scanSampleStaged calls g₃ → calls < bound ∧
      ∀ k, 1 ≤ k →
        (finalizeObservationScan g₃ sampleVolume k =
            .error (.numericRange "observation finalization generation") ∧
          2 ^ 63 ≤ currentGeneration g₃ sampleVolume + 1) ∨
        ∃ g₄ summary, finalizeObservationScan g₃ sampleVolume k = .ok (g₄, summary) ∧
          (summary.completed = true → ScanExact sampleVolume scanSampleEvents
            (ProviderCheckpoint.row sampleCheckpoint) g₄) := by
  have hprior : runOps .empty [.applyBatch (sampleBatch sampleTree)] = .ok scanSamplePrior := by
    decide
  have hbegin : beginObservationScan scanSamplePrior sampleDescriptor .reconcile .providerRequested =
      .ok (scanSampleBegun, ⟨sampleVolume, 2, .reconcile, .scanning⟩) := by decide
  have hpage : applyObservationScanPage scanSampleBegun sampleVolume scanSampleEvents =
      .ok (scanSampleSeen, ⟨4, 3, 0, 3⟩) := by decide
  have hstage : stageObservationCheckpoint scanSampleSeen sampleVolume sampleCheckpoint =
      .ok scanSampleStaged := by decide
  exact observation_scan_exact (runOps_steps (fun _ _ _ => trivial) hprior) hbegin
    (.page .start trivial hpage) hstage

/-- A volume that has seen `generation` batches and holds nothing. -/
def agedGraph (generation : Nat) : FilesystemGraph :=
  { FilesystemGraph.empty with
    volumes := Table.empty.insert sampleVolume ⟨sampleDescriptor, .online, none, generation⟩
    checkpoints := Table.empty.insert sampleVolume (ProviderCheckpoint.row sampleCheckpoint) }

theorem agedGraph_step {n : Nat} (hn : n + 1 < 2 ^ 63) :
    GraphOp.run (agedGraph n) (.applyBatch (sampleBatch [])) = .ok (agedGraph (n + 1)) := by
  have hgen : checkedSucc (currentGeneration (agedGraph n) sampleVolume) "graph generation" =
      .ok (n + 1) := checkedSucc_ok.mpr ⟨hn, rfl⟩
  refine map_fst_ok.mpr ⟨⟨0, n + 1, 0, 0⟩, bind_ok.mpr ⟨(), rfl, ?_⟩⟩
  exact bind_ok.mpr ⟨n + 1, hgen, rfl⟩

theorem agedGraph_reachable (n : Nat) (hn : n + 1 < 2 ^ 63) : Reachable (agedGraph (n + 1)) := by
  induction n with
  | zero =>
    refine .single ⟨.applyBatch (sampleBatch [.upsertVolume sampleDescriptor]), trivial, ?_⟩
    decide
  | succ n ih => exact (ih (by omega)).tail ⟨_, trivial, agedGraph_step hn⟩

/-- A volume at the last generation refuses every finalization call. -/
theorem finalizeObservationScan_exhausted {g g' : FilesystemGraph} {v : VolumeId} {k : Nat}
    {summary : ObservationFinalizeSummary} {volume : VolumeRow} (hvol : g.volumes.get v = some volume)
    (hgen : 2 ^ 63 ≤ volume.generation + 1) (hk : 1 ≤ k) :
    finalizeObservationScan g v k ≠ .ok (g', summary) := by
  intro h
  rcases finalizeObservationScan_ok h with ⟨hzero, -⟩ | ⟨-, session, volume', -, hvol', hlt, -⟩
  · omega
  · rw [hvol] at hvol'
    obtain rfl := Option.some.inj hvol'
    omega

def exhaustedVolume : VolumeRow :=
  ⟨sampleDescriptor, .needsReconciliation, some .providerRequested, 2 ^ 63 - 1⟩

/-- The aged volume after a scan began at its last generation. -/
def exhaustedScan : FilesystemGraph :=
  { agedGraph (2 ^ 63 - 2) with
    volumes := Table.empty.insert sampleVolume exhaustedVolume
    volumeJobs := Table.empty.insert sampleVolume ⟨2 ^ 63 - 1, none, .pending⟩
    sessions := Table.empty.insert sampleVolume ⟨2 ^ 63 - 1, .reconcile, .scanning⟩ }

def exhaustedStage : FilesystemGraph :=
  { exhaustedScan with
    sessions := Table.empty.insert sampleVolume
      ⟨2 ^ 63 - 1, .reconcile, .sweepingLinks (ProviderCheckpoint.row sampleCheckpoint)⟩ }

/-- After 2 ^ 63 - 2 batches a scan can begin and stage its checkpoint, but no
finalization call is ever accepted. -/
theorem exhausted_scan_never_completes :
    Reachable (agedGraph (2 ^ 63 - 2)) ∧
      beginObservationScan (agedGraph (2 ^ 63 - 2)) sampleDescriptor .reconcile .providerRequested =
        .ok (exhaustedScan, ⟨sampleVolume, 2 ^ 63 - 1, .reconcile, .scanning⟩) ∧
      stageObservationCheckpoint exhaustedScan sampleVolume sampleCheckpoint = .ok exhaustedStage ∧
      ∀ calls g, Finalizing (fun _ _ => True) (fun _ _ => True) sampleVolume exhaustedStage calls g → ∀ k g' summary, 1 ≤ k →
        finalizeObservationScan g sampleVolume k ≠ .ok (g', summary) := by
  refine ⟨agedGraph_reachable (2 ^ 63 - 3) (by omega), by decide, by decide, ?_⟩
  have hgen : 2 ^ 63 ≤ exhaustedVolume.generation + 1 := by decide
  intro calls g hrun
  -- nothing between two refused calls moves the volume's row
  have hvol : g.volumes.get sampleVolume = some exhaustedVolume := by
    induction hrun with
    | start => exact Table.get_insert_self _ _ _
    | call _ _ hk hcall _ ih => exact absurd hcall (finalizeObservationScan_exhausted ih hgen hk)
    | other _ _ hrows ih => exact (congrArg VolumeRows.volume hrows).trans ih
  intro k g' summary hk
  exact finalizeObservationScan_exhausted hvol hgen hk

end Example

end LocalSearch.Graph
