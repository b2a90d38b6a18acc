import LocalSearch.Graph.Availability
import LocalSearch.Graph.OutboxRows
import LocalSearch.Lib.Behind

/-!
# Draining the refresh queues

The loop of a maintenance pass refreshes volumes first and paths only when no
volume waits. What a call has still to do is bounded by the rows behind the
cursors of the pending jobs, and each call takes off what it scans. A path
refresh finds the volume queue empty and adds nothing to it, so the sum over
both queues falls with every call until both are empty.
-/
namespace LocalSearch.Graph

set_option autoImplicit false

open Core Lib

/-- Links a path job has still to pass, and one more for closing it. -/
def pathJobWork (g : FilesystemGraph) (job : PathJobRow) : Nat :=
  if job.state = .pending then 1 + g.links.behind job.projectionScanCursor else 0

/-- Work left in the whole path queue. -/
def pathRefreshWork (g : FilesystemGraph) : Nat :=
  (g.pathJobs.rows.map fun x => pathJobWork g x.2).sum

/-- Work left in both queues. -/
def refreshWork (g : FilesystemGraph) : Nat := volumeRefreshWork g + pathRefreshWork g

theorem pathRefreshWork_eq_zero {g : FilesystemGraph} :
    pathRefreshWork g = 0 ↔ nextPathJob g = none := by
  rw [pathRefreshWork, List.sum_eq_zero_iff, nextPathJob, List.head?_eq_none_iff,
    List.eq_nil_iff_forall_not_mem]
  constructor
  · rintro h ⟨id, job⟩ hmem
    obtain ⟨hget, hpending⟩ := Table.mem_select.mp hmem
    have hzero := h _ (List.mem_map.mpr ⟨(id, job), Table.mem_rows.mpr hget, rfl⟩)
    rw [pathJobWork, if_pos (beq_iff_eq.mp hpending)] at hzero
    omega
  · intro h n hn
    obtain ⟨⟨id, job⟩, hmem, rfl⟩ := List.mem_map.mp hn
    refine if_neg fun hpending => h (id, job) (Table.mem_select.mpr ⟨Table.mem_rows.mp hmem, ?_⟩)
    exact beq_iff_eq.mpr hpending

theorem refreshWork_eq_zero {g : FilesystemGraph} :
    refreshWork g = 0 ↔ nextPathJob g = none ∧ nextVolumeJob g = none := by
  rw [refreshWork, Nat.add_eq_zero_iff, volumeRefreshWork_eq_zero, pathRefreshWork_eq_zero]
  exact and_comm

section Refresh

variable [CaseMapping]

/-- What one refresh call with something to do makes of the graph. -/
structure Refreshes (g g' : FilesystemGraph) (summary : ProjectionRefreshSummary) : Prop where
  seen : 0 < summary.linksScanned ∨ summary.jobCompleted = true
  work : refreshWork g' + max 1 summary.linksScanned ≤ refreshWork g
  mark : highWater g' ≤ highWater g + summary.linksScanned
  rows : g'.outbox.rows.length ≤ g.outbox.rows.length + summary.linksScanned
  objects : g'.objects = g.objects
  volumes : g'.volumes = g.volumes

/-- A refresh of either queue. -/
inductive RefreshCall (maximumLinks : Nat) (g g' : FilesystemGraph) : Prop
  | volume {summary : ProjectionRefreshSummary}
      (hcall : refreshVolumeProjection g maximumLinks = .ok (g', summary))
      (hrefreshes : Refreshes g g' summary)
  | paths {summary : ProjectionRefreshSummary}
      (hcall : refreshProjectionPaths g maximumLinks = .ok (g', summary))
      (hrefreshes : Refreshes g g' summary)

theorem RefreshCall.run {maximumLinks : Nat} {g g' : FilesystemGraph}
    (h : RefreshCall maximumLinks g g') :
    ∃ op : GraphOp, (op = .refreshVolumeProjection maximumLinks ∨
      op = .refreshProjectionPaths maximumLinks) ∧ op.run g = .ok g' := by
  cases h with
  | volume hcall _ => exact ⟨_, Or.inl rfl, map_fst_ok.mpr ⟨_, hcall⟩⟩
  | paths hcall _ => exact ⟨_, Or.inr rfl, map_fst_ok.mpr ⟨_, hcall⟩⟩

end Refresh

end LocalSearch.Graph
