import LocalSearch.Graph.ScanFinalize
import LocalSearch.Graph.PathRefresh

/-!
# Paths during an observation scan

While a scan is open the links it has observed keep right paths in the catalog,
or stay ahead of a path job, as long as every page and every sweep settles the
links it moves. Links the scan has not observed are left to the sweep.
-/
namespace LocalSearch.Graph

set_option autoImplicit false

open Core Lib

/-- Links of the volume the open scan has not observed. -/
def unobserved (g : FilesystemGraph) (v : VolumeId) : Set FileLinkId :=
  {id | ∀ session, g.sessions.get v = some session →
    linksSince g v session.scanGeneration id = none}

/-- The page settles what it moves of the links earlier pages observed. -/
def PageSettles (v : VolumeId) (page : List FilesystemEvent) (g : FilesystemGraph) : Prop :=
  BatchSettles (unobserved g v) g v (page.map .ofEvent)

/-- The next sweep of links settles what it moves of the links the pages
observed. -/
def SweepSettles (v : VolumeId) (k : Nat) (g : FilesystemGraph) : Prop :=
  ∀ session staged, g.sessions.get v = some session → session.phase = .sweepingLinks staged →
    ∀ x ∈ staleLinkPage g v session.scanGeneration k,
      SettledBelow {v} (unobserved g v) g x.2.objectKey

/-- Links the events do not observe, or remove again. -/
def unseen (events : List FilesystemEvent) : Set FileLinkId := {id | observedLinks events id = none}

section Paths

variable {g g' : FilesystemGraph} {v : VolumeId} {since : Nat} {events : List FilesystemEvent}

theorem ScanInvariant.unobserved_eq (hinv : ScanInvariant v since events g) {session : SessionRow}
    (hsession : g.sessions.get v = some session) (hsince : session.scanGeneration = since) :
    unobserved g v = unseen events := by
  ext id
  constructor
  · intro h
    have hnone := h session hsession
    rw [hsince, hinv.links] at hnone
    exact hnone
  · intro h s hs
    obtain rfl := Option.some.inj (hs.symm.trans hsession)
    rw [hsince, hinv.links]
    exact h

/-- The loop gathers every link its events write. -/
theorem applyMutations_gathers {page : List FilesystemEvent} {affected affected' : LinkSet}
    {gen n : Nat} (h : applyMutations gen g affected (page.map .ofEvent) = .ok (g', affected', n))
    {id : FileLinkId} {value : Option StoredLink} (hwrite : (id, value) ∈ page.filterMap linkWrite) :
    id ∈ affected'.members := by
  induction page generalizing g g' affected affected' n with
  | nil => cases hwrite
  | cons event page ih =>
    simp only [List.map_cons, applyMutations, bind_ok] at h
    obtain ⟨⟨g₁, n₁⟩, -, ⟨g₂, affected₂, n₂⟩, h₂, heq⟩ := h
    obtain ⟨-, heq⟩ := Prod.mk.inj (Except.ok.inj heq)
    obtain ⟨rfl, -⟩ := Prod.mk.inj heq
    obtain ⟨e, he, hw⟩ := List.mem_filterMap.mp hwrite
    rcases List.mem_cons.mp he with rfl | he
    · have hmem : id ∈ affectedLinks g (.ofEvent e) := by
        cases e with
        | linkObserved link =>
          obtain ⟨rfl, -⟩ := Prod.mk.inj (Option.some.inj hw)
          exact List.mem_cons_self
        | linkRemoved link object =>
          obtain ⟨rfl, -⟩ := Prod.mk.inj (Option.some.inj hw)
          exact List.mem_cons_self
        | objectObserved | objectRemoved | reconciliationRequired => cases hw
      exact applyMutations_affected h₂ ((LinkSet.get_addAll affected _ id).mpr (Or.inr hmem))
    · exact ih h₂ (List.mem_filterMap.mpr ⟨e, he, hw⟩)

/-- Links neither seen before nor written by the page are unseen after it. -/
theorem unseen_append {page : List FilesystemEvent} {id : FileLinkId} (hunseen : id ∈ unseen events)
    (hpage : ∀ value, (id, value) ∉ page.filterMap linkWrite) : id ∈ unseen (events ++ page) := by
  change observedLinks (events ++ page) id = none
  have hlast : lastWrite (page.filterMap linkWrite) id = none :=
    lastWrite_eq_none.mpr fun w hw he => hpage w.2 (he ▸ hw)
  rw [observedLinks, List.filterMap_append, replay_append, replay_apply _ (page.filterMap linkWrite),
    hlast]
  exact hunseen

variable [CaseMapping]

/-- Refreshes leave the rows of every volume alone. -/
theorem volumeRows_refresh (h : Step RefreshStep g g') : volumeRows g' v = volumeRows g v := by
  rw [refreshStep_frame h]
  rfl

theorem pathInvariant_page {page : List FilesystemEvent} {summary : ApplySummary}
    {session : SessionRow} (hinv : ScanInvariant v since events g)
    (hsession : g.sessions.get v = some session) (hsince : session.scanGeneration = since)
    (hpaths : PathInvariant Eq {v} g (unseen events)) (hset : PageSettles v page g)
    (h : applyObservationScanPage g v page = .ok (g', summary)) :
    PathInvariant Eq {v} g' (unseen (events ++ page)) := by
  obtain ⟨session', -, -, hcase⟩ := applyObservationScanPage_ok h
  rcases hcase with ⟨rfl, rfl⟩ | ⟨checkpoint, hbatch⟩
  · rw [List.append_nil]
    exact hpaths
  · rw [PageSettles, hinv.unobserved_eq hsession hsince] at hset
    obtain ⟨g₁, affected, jobs, h₁, hpaths'⟩ :=
      pathInvariant_batch (fun _ => rfl) hinv.wellFormed hpaths hset hbatch
    refine hpaths'.mono ?_
    rintro id ⟨hunseen, hnot⟩
    exact unseen_append hunseen fun value hw => hnot (applyMutations_gathers h₁ hw)

theorem pathInvariant_scanning {g₀ : FilesystemGraph} {session : SessionRow} (hinv : ScanInvariant v since [] g₀)
    (hsession : g₀.sessions.get v = some session) (hsince : session.scanGeneration = since)
    (h : Scanning (PageSettles v) RefreshStep v g₀ events g) : PathInvariant Eq {v} g (unseen events) := by
  induction h with
  | start => exact fun id row hid => absurd rfl hid
  | page hscan hpage happly ih =>
    obtain ⟨hinv', hsession'⟩ := hscan.invariant hinv hsession hsince
    exact pathInvariant_page hinv' hsession' hsince ih hpage happly
  | other hscan hstep _ ih =>
    obtain ⟨hinv', -⟩ := hscan.invariant hinv hsession hsince
    exact pathInvariant_refresh (fun _ => rfl) hinv'.wellFormed ih hstep

/-- The sweep of one page, link by link. -/
theorem pathInvariant_sweepLinkRows {A : Set FileLinkId} {gen : Nat}
    {rows : List (FileLinkId × LinkRow)} (hids : ∀ x ∈ rows, x.1 ∈ A) (hn : NamespaceWF g)
    (hc : CatalogWF g ∅) (hinv : PathInvariant Eq {v} g A)
    (hset : ∀ x ∈ rows, SettledBelow {v} A g x.2.objectKey)
    (h : sweepLinkRows gen g rows = .ok g') : PathInvariant Eq {v} g' A := by
  induction rows generalizing g with
  | nil =>
    obtain rfl := Except.ok.inj h
    exact hinv
  | cons x rest ih =>
    obtain ⟨link, row⟩ := x
    simp only [sweepLinkRows, bind_ok] at h
    obtain ⟨⟨g₁, n₁⟩, h₁, ⟨g₂, n₂⟩, h₂, hrest⟩ := h
    have hch : Changes True row.objectKey.volumeId gen .durable (g, ∅) (g₁, ∅ ∪ {link}) :=
      removeLinkInternal_changes h₁
    have hn₁ : NamespaceWF g₁ :=
      hch.names hn
    have hc₁ : CatalogWF g₁ (∅ ∪ {link}) :=
      hch.catalog hc
    have hinv₁ := pathInvariant_removeLinkInternal (hids (link, row) List.mem_cons_self) hinv
      (fun _ => hset (link, row) List.mem_cons_self) h₁
    have hsync : syncLinks g₁ gen .durable [link] = .ok (g₂, n₂) :=
      bind_ok.mpr ⟨(g₂, n₂), h₂, rfl⟩
    have hinv₂ := (pathInvariant_syncLinks (fun _ => rfl) hinv₁ hn₁ hc₁ hsync).mono Set.sdiff_subset
    have hframe := syncCatalogProjection_frame h₂
    have hlinks₂ : g₂.links = g₁.links := by rw [hframe]
    have hjobs₂ : g₂.pathJobs = g₁.pathJobs := by rw [hframe]
    have hswept : Changes True row.objectKey.volumeId gen .durable (g, ∅) (g₂, ∅) :=
      sweepRow_changes h₁ h₂
    refine ih (fun y hy => hids y (List.mem_cons_of_mem _ hy)) (hswept.names hn) (hswept.catalog hc) hinv₂
      (fun y hy => ?_) hrest
    refine (hset y (List.mem_cons_of_mem _ hy)).of_fewer (fun id r hr => ?_) fun n job hjob => ?_
    · exact (removeLinkInternal_fewer h₁).2 id r (hlinks₂ ▸ hr)
    · exact hjobs₂ ▸ removeLinkInternal_keepsJobs h₁ n job hjob

theorem pathInvariant_finalize {staged : CheckpointRow} {k : Nat}
    {summary : ObservationFinalizeSummary} (hinv : SweepInvariant v since events staged g)
    (hpaths : PathInvariant Eq {v} g (unseen events)) (hset : SweepSettles v k g)
    (h : finalizeObservationScan g v k = .ok (g', summary)) :
    PathInvariant Eq {v} g' (unseen events) := by
  rcases finalizeObservationScan_ok h with ⟨-, rfl, -⟩ | ⟨-, session, volume, hs, hvol, -, hphase⟩
  · exact hpaths
  · have hsince : session.scanGeneration = since := by
      obtain ⟨mode, hcase⟩ := hinv.session
      rcases hcase with hcase | ⟨hcase, -⟩ <;>
      · rw [hs] at hcase
        rw [Option.some.inj hcase]
    rcases hphase with ⟨staged', g₁, removed, hp, hsweep, rfl, -⟩ |
      ⟨staged', g₁, tombstoned, terminal, hp, hsweep, -, rfl⟩
    · have hrows := hset session staged' hs hp
      rw [hinv.scan.unobserved_eq hs hsince] at hrows
      obtain ⟨g₂, hrun, -, rfl⟩ := sweepStaleObservationLinks_ok hsweep
      have hpaths₂ := pathInvariant_sweepLinkRows (fun x hx => ?_) hinv.scan.wellFormed.names
        hinv.scan.wellFormed.catalog hpaths hrows hrun
      · split_ifs <;> exact hpaths₂.of_frame rfl rfl (.of_eq rfl)
      · -- a swept link was not observed
        obtain ⟨hrow, -, hlt⟩ := mem_staleLinkPage hx
        change observedLinks events x.1 = none
        rw [← hinv.scan.links, ← hsince]
        exact linksSince_eq_none_of_stale hrow hlt
    · obtain ⟨rfl, -⟩ := Prod.mk.inj hsweep
      have hframe := tombstones_frame (staleObjectPage g v session.scanGeneration k) g
      have hlinks := congrArg FilesystemGraph.links hframe
      have hcatalog := congrArg FilesystemGraph.catalog hframe
      have hjobs := congrArg FilesystemGraph.pathJobs hframe
      have hpaths₁ := hpaths.of_frame hlinks hcatalog (.of_eq hjobs)
      split_ifs <;> exact hpaths₁.of_frame rfl rfl (.of_eq rfl)

theorem pathInvariant_finalizing {g₀ : FilesystemGraph} {staged : CheckpointRow} {calls : Nat}
    (hinv : SweepInvariant v since events staged g₀)
    (hpaths : PathInvariant Eq {v} g₀ (unseen events))
    (h : Finalizing (SweepSettles v) RefreshStep v g₀ calls g) :
    PathInvariant Eq {v} g (unseen events) := by
  induction h with
  | start => exact hpaths
  | call hrun hp _ hcall _ ih =>
    exact pathInvariant_finalize (hrun.invariant hinv).1 ih hp hcall
  | other hrun hstep _ ih =>
    exact pathInvariant_refresh (fun _ => rfl) (hrun.invariant hinv).1.scan.wellFormed ih hstep

end Paths

end LocalSearch.Graph
