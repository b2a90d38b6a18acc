import LocalSearch.Graph.OutboxRows
import LocalSearch.Graph.RefreshDrain

/-!
# What maintenance still has to do

Three flags of the store: consumed rows of the outbox, desired payloads in the
legacy layout and refresh jobs. A bounded pruning clears the first or takes rows
away, and well-formed stores never raise the second.
-/
namespace LocalSearch.Graph

set_option autoImplicit false

open Core Lib

/-- A row no consumer needs; without consumers the minimum is no number. -/
def consumedOutboxMaintenancePending (g : FilesystemGraph) : Bool :=
  match consumerMinimum g with
  | none => false
  | some minimum => g.outbox.rows.any fun x => decide (x.1 ≤ minimum)

def legacyDesiredPayloadMaintenancePending (g : FilesystemGraph) : Bool :=
  g.catalog.rows.any fun x => x.2.projectionPath.isNone

def projectionRefreshMaintenancePending (g : FilesystemGraph) : Bool :=
  (g.pathJobs.rows.any fun x => x.2.state == .pending) ||
    g.volumeJobs.rows.any fun x => x.2.state == .pending

variable {g : FilesystemGraph}

theorem nextPathJob_eq_none :
    nextPathJob g = none ↔ (g.pathJobs.rows.any fun x => x.2.state == .pending) = false := by
  rw [nextPathJob, List.head?_eq_none_iff, Table.select, List.filter_eq_nil_iff, List.any_eq_false]

theorem nextVolumeJob_eq_none :
    nextVolumeJob g = none ↔ (g.volumeJobs.rows.any fun x => x.2.state == .pending) = false := by
  rw [nextVolumeJob, List.head?_eq_none_iff, Table.select, List.filter_eq_nil_iff, List.any_eq_false]

theorem projectionRefreshMaintenancePending_eq_false :
    projectionRefreshMaintenancePending g = false ↔ refreshWork g = 0 := by
  rw [projectionRefreshMaintenancePending, Bool.or_eq_false_iff, refreshWork_eq_zero,
    nextPathJob_eq_none, nextVolumeJob_eq_none]

theorem legacyDesiredPayloadMaintenancePending_eq_false (hwf : WellFormed g) :
    legacyDesiredPayloadMaintenancePending g = false := by
  refine List.any_eq_false.mpr fun x hx => ?_
  obtain ⟨document, hrow, -⟩ := hwf.catalog.compact x.1 x.2 (Table.mem_rows.mp hx)
  rw [hrow]
  simp [compactRow]

end LocalSearch.Graph
