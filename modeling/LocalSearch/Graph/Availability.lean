import LocalSearch.Graph.OutboxLog
import Mathlib.Algebra.Order.BigOperators.Group.List

/-!
# Volume availability

A document stores the availability its volume had when it was last synced. A
transition of the volume queues a pass over its documents, and a newer
transition restarts the pass, so where a stored availability is out of date a
pending job of the volume still has the document ahead of its cursor. Passes
end: every page shortens the rest of its job.
-/
namespace LocalSearch.Graph

set_option autoImplicit false

open Core Lib

section Convergence

variable [CaseMapping] {R : Prop} {v : VolumeId} {gen : Nat}

/-- Each document reports the availability of its volume, or a pending job of
the volume has not passed it yet. -/
def Converging (g : FilesystemGraph) (A : Set FileLinkId) : Prop :=
  ∀ id row, id ∉ A → g.catalog.get (documentIdForLink id) = some row →
    ReportsAvailability g row ∨ ∃ job, g.volumeJobs.get row.objectKey.volumeId = some job ∧
      job.state = .pending ∧ Table.After job.projectionScanCursor id

omit [CaseMapping] in
/-- Reported availability reads metadata and volume states only. -/
theorem ReportsAvailability.of_rows {g g' : FilesystemGraph} {row : CatalogRow}
    (h : ReportsAvailability g row)
    (hobjects : ∀ object, g'.objects.get row.objectKey = some object →
      ∃ old, g.objects.get row.objectKey = some old ∧ object.metadata = old.metadata)
    (hvolumes : ∀ volume, g'.volumes.get row.objectKey.volumeId = some volume →
      ∃ old, g.volumes.get row.objectKey.volumeId = some old ∧ volume.state = old.state) :
    ReportsAvailability g' row := by
  intro content hcontent object hobj volume hvol
  obtain ⟨o, ho, hmeta⟩ := hobjects object hobj
  obtain ⟨w, hw, hstate⟩ := hvolumes volume hvol
  rw [hmeta, hstate]
  exact h content hcontent o ho w hw

omit [CaseMapping] in
theorem Converging.mono {g : FilesystemGraph} {A A' : Set FileLinkId} (h : Converging g A)
    (hA : A ⊆ A') : Converging g A' :=
  fun id row hid => h id row fun hm => hid (hA hm)

omit [CaseMapping] in
/-- The step shared by the changes that touch neither the catalog nor the volume
queue nor a volume's state. -/
theorem Converging.of_rows {g g' : FilesystemGraph} {A : Set FileLinkId} (h : Converging g A)
    (hcat : g'.catalog = g.catalog) (hjobs : g'.volumeJobs = g.volumeJobs)
    (hobjects : ∀ key object, g'.objects.get key = some object →
      ∃ old, g.objects.get key = some old ∧ object.metadata = old.metadata)
    (hvolumes : ∀ w volume, g'.volumes.get w = some volume →
      ∃ old, g.volumes.get w = some old ∧ volume.state = old.state) : Converging g' A := by
  intro id row hid hrow
  rw [hcat] at hrow
  rw [hjobs]
  exact (h id row hid hrow).imp_left fun hr => hr.of_rows (hobjects _) (hvolumes _)

omit [CaseMapping] in
/-- A change of the volume's row that queues a refresh of the whole volume. -/
theorem converging_transition {g : FilesystemGraph} {A : Set FileLinkId} (h : Converging g A)
    (row : VolumeRow) : Converging (enqueueVolumeProjectionRefresh
      { g with volumes := g.volumes.insert v row } v gen).1 A := by
  intro id crow hid hrow
  by_cases hv : crow.objectKey.volumeId = v
  · refine Or.inr ⟨⟨gen, none, .pending⟩, ?_, rfl, Table.after_none _⟩
    rw [hv]
    exact Table.get_insert_self _ _ _
  · rcases h id crow hid hrow with hr | ⟨job, hjob, hpending⟩
    · refine Or.inl (hr.of_rows (fun o ho => ⟨o, ho, rfl⟩) fun w hw => ?_)
      exact ⟨w, (Table.get_insert_ne _ _ hv).symm.trans hw, rfl⟩
    · exact Or.inr ⟨job, (Table.get_insert_ne _ _ hv).trans hjob, hpending⟩

omit [CaseMapping] in
/-- An `UpsertVolume` on a new or online volume changes no availability. -/
theorem converging_upsertVolume {g : FilesystemGraph} {A : Set FileLinkId} (h : Converging g A)
    (hwf : NamespaceWF g) {descriptor : VolumeDescriptor}
    (hopen : OpenVolume g descriptor.volumeId) : Converging (upsertVolume g descriptor) A := by
  intro id row hid hrow
  refine (h id row hid hrow).imp_left fun hr content hcontent object hobj volume hvol => ?_
  obtain ⟨old, hold⟩ := Option.isSome_iff_exists.mp (hwf.objectVolume _ _ hobj)
  have hstate : volume.state = old.state := by
    by_cases hv : row.objectKey.volumeId = descriptor.volumeId
    · rw [upsertVolume, hv, Option.mem_def, Table.get_insert_self] at hvol
      rw [← Option.some.inj hvol, hopen old (hv ▸ hold)]
    · rw [upsertVolume, Option.mem_def, Table.get_insert_ne _ _ hv, hold] at hvol
      rw [Option.some.inj hvol]
  rw [hstate]
  exact hr content hcontent object hobj old hold

theorem converging_sync {g g' : FilesystemGraph} {A : Set FileLinkId} {id : FileLinkId} {n : Nat}
    {mode : ProjectionOutboxMode} (hc : Converging g A) (hwf : CatalogWF g A)
    (h : syncCatalogProjection g id gen mode = .ok (g', n)) : Converging g' (A \ {id}) := by
  have hframe := syncCatalogProjection_frame h
  intro j row hj hrow
  by_cases hji : j = id
  · subst hji
    exact Or.inl ((fresh_sync hwf h).reportsAvailability (catalogWF_sync hwf h) hrow)
  · have hd : documentIdForLink j ≠ documentIdForLink id :=
      fun he => hji (documentIdForLink_injective he)
    rw [syncCatalogProjection_get_ne h hd] at hrow
    rw [hframe]
    exact hc j row (fun hA => hj ⟨hA, hji⟩) hrow

theorem converging_of_change {mode : ProjectionOutboxMode} {s s' : Dirty} (hR : ¬ R)
    (h : Change R v gen mode s s') (hn : NamespaceWF s.1) (hwf : CatalogWF s.1 s.2)
    (hc : Converging s.1 s.2) : Converging s'.1 s'.2 := by
  cases h with
  | upsertVolume descriptor hv hopen =>
    subst hv
    exact converging_upsertVolume hc hn (hopen.resolve_left hR)
  | transition row hlow hhigh => exact converging_transition hc row
  | @setGeneration g A hle =>
    refine hc.of_rows rfl rfl (fun _ o ho => ⟨o, ho, rfl⟩) fun w volume hvol => ?_
    simp only [Graph.setGeneration, Table.get_modify] at hvol
    split_ifs at hvol
    · obtain ⟨old, hold, rfl⟩ := Option.map_eq_some_iff.mp hvol
      exact ⟨old, hold, rfl⟩
    · exact ⟨volume, hvol, rfl⟩
  | @upsertObject g g' A object hv h =>
    simp only [Graph.upsertObject, guard_ok] at h
    obtain rfl := Except.ok.inj h.2.2
    intro id row hid hrow
    obtain ⟨link, hlink, hkey⟩ := hwf.link id row (fun hA => hid (Or.inl hA)) hrow
    have hne : row.objectKey ≠ object.objectKey := fun he =>
      hid (Or.inr ⟨storedLinkFromRow id link,
        mem_linksOf.mpr ⟨loadLink_eq_some.mpr ⟨link, hlink, rfl⟩, hkey.trans he⟩, rfl⟩)
    refine (hc id row (fun hA => hid (Or.inl hA)) hrow).imp_left fun hr =>
      hr.of_rows (fun o ho => ⟨o, ?_, rfl⟩) fun w hw => ⟨w, hw, rfl⟩
    rw [Table.get_insert_ne _ _ hne] at ho
    exact ho
  | @dropLink g A id row h =>
    have hsame : (dropLink g id row.objectKey).catalog = g.catalog ∧
        (dropLink g id row.objectKey).volumeJobs = g.volumeJobs ∧
        (dropLink g id row.objectKey).volumes = g.volumes := by
      rcases dropLink_cases g id row.objectKey with ⟨he, -⟩ | ⟨he, -⟩ <;> rw [he]
      · exact ⟨rfl, rfl, rfl⟩
      · exact ⟨rfl, rfl, rfl⟩
    refine (hc.mono Set.subset_union_left).of_rows hsame.1 hsame.2.1 (fun key object hobj => ?_)
      fun w volume hvol => ⟨volume, hsame.2.2 ▸ hvol, rfl⟩
    obtain ⟨old, hold, hmeta, -⟩ := dropLink_get hobj
    exact ⟨old, hold, hmeta⟩
  | putLink link boundary hv hparent hobject hbound hslot =>
    exact (hc.mono Set.subset_union_left).of_rows rfl rfl
      (fun _ _ hobj => setTombstoned_metadata hobj) fun _ w hw => ⟨w, hw, rfl⟩
  | tombstone h =>
    exact hc.of_rows rfl rfl (fun _ _ hobj => setTombstoned_metadata hobj)
      fun _ w hw => ⟨w, hw, rfl⟩
  | @enqueueRefresh g A object h => rw [enqueueRefresh_frame]; exact hc
  | @advanceVolumeJob g A job job' hjob hpass =>
    intro id row hid hrow
    rcases hc id row hid hrow with hr | ⟨old, hold, hpending, hafter⟩
    · exact Or.inl hr
    · by_cases hv : row.objectKey.volumeId = v
      · obtain rfl : old = job := by
          rw [hv, hjob] at hold
          exact (Option.some.inj hold).symm
        rw [hv]
        exact (hpass id row hrow hv hafter).imp_right fun hp => ⟨job', Table.get_insert_self _ _ _, hp⟩
      · exact Or.inr ⟨old, (Table.get_insert_ne _ _ hv).trans hold, hpending, hafter⟩
  | widen h => exact hc.mono h
  | sync h => exact converging_sync hc hwf h
  | advancePathJob | putSession | eraseSession | putCheckpoint => exact hc

theorem converging_of_transacts {mode : ProjectionOutboxMode} {g g' : FilesystemGraph}
    (h : Transacts False mode g g') (hwf : WellFormed g) (hc : Converging g ∅) :
    Converging g' ∅ := by
  obtain ⟨v, gen, -, -, hch⟩ := h
  exact (Changes.induct
    (P := fun s => NamespaceWF s.1 ∧ CatalogWF s.1 s.2 ∧ Converging s.1 s.2)
    (fun _ _ hstep hs => ⟨namespaceWF_of_change hstep hs.1, catalogWF_of_change hstep hs.2.1,
      converging_of_change id hstep hs.1 hs.2.1 hs.2.2⟩) hch ⟨hwf.names, hwf.catalog, hc⟩).2.2

/-- Documents a job has still to pass, and one more for closing it. -/
def jobWork (g : FilesystemGraph) (job : VolumeJobRow) : Nat :=
  if job.state = .pending then
    1 + (g.catalog.select fun d _ =>
      decide (Table.After (job.projectionScanCursor.map documentIdForLink) d)).length
  else 0

/-- Work left in the whole volume queue. -/
def volumeRefreshWork (g : FilesystemGraph) : Nat :=
  (g.volumeJobs.rows.map fun x => jobWork g x.2).sum

omit [CaseMapping] in
theorem volumeRefreshWork_eq_zero {g : FilesystemGraph} :
    volumeRefreshWork g = 0 ↔ nextVolumeJob g = none := by
  rw [volumeRefreshWork, List.sum_eq_zero_iff, nextVolumeJob, List.head?_eq_none_iff,
    List.eq_nil_iff_forall_not_mem]
  constructor
  · rintro h ⟨v, job⟩ hmem
    obtain ⟨hget, hpending⟩ := Table.mem_select.mp hmem
    have hzero := h _ (List.mem_map.mpr ⟨(v, job), Table.mem_rows.mpr hget, rfl⟩)
    rw [jobWork, if_pos (beq_iff_eq.mp hpending)] at hzero
    omega
  · intro h n hn
    obtain ⟨⟨v, job⟩, hmem, rfl⟩ := List.mem_map.mp hn
    refine if_neg fun hpending => h (v, job) (Table.mem_select.mpr ⟨Table.mem_rows.mp hmem, ?_⟩)
    exact beq_iff_eq.mpr hpending

omit [CaseMapping] in
/-- Work depends on the documents present; losing some only lowers it. -/
theorem jobWork_le {g g' : FilesystemGraph}
    (h : ∀ d, (g'.catalog.get d).isSome → (g.catalog.get d).isSome) (job : VolumeJobRow) :
    jobWork g' job ≤ jobWork g job := by
  unfold jobWork
  split_ifs
  · refine Nat.add_le_add_left (Table.select_length_le fun d row hrow hp => ?_) 1
    obtain ⟨old, hold⟩ := Option.isSome_iff_exists.mp (h d (by rw [hrow]; rfl))
    exact ⟨old, hold, hp⟩
  · exact le_rfl

/-- Syncing a page of documents adds none. -/
theorem syncLinks_documents {g g' : FilesystemGraph} {v : VolumeId} {cursor : Option FileLinkId}
    {k gen n : Nat} {mode : ProjectionOutboxMode} (hwf : WellFormed g)
    (h : syncLinks g gen mode (volumeRefreshPage g v cursor k) = .ok (g', n)) (d : DocumentId)
    (hd : (g'.catalog.get d).isSome) : (g.catalog.get d).isSome := by
  by_cases hmem : linkOfDocument d ∈ volumeRefreshPage g v cursor k
  · obtain ⟨⟨d', row⟩, hpage, hlink⟩ := List.mem_map.mp hmem
    obtain ⟨hget, -, -⟩ := Table.mem_page hpage
    obtain ⟨stored, rfl, hid, -⟩ := hwf.catalog.compact d' row hget
    have hdd : d' = d := by
      have hlinks : linkOfDocument d' = linkOfDocument d := hid.symm.trans hlink
      simpa using congrArg documentIdForLink hlinks
    rw [← hdd, hget]
    rfl
  · rw [← documentIdForLink_linkOfDocument d, ← syncLinks_get_notMem h hmem]
    exact hd

/-- A page of a pending job succeeds and leaves less work. -/
theorem refreshVolumeProjection_progress {g : FilesystemGraph} {k : Nat} (hwf : WellFormed g)
    (hk : 1 ≤ k) (hpending : nextVolumeJob g ≠ none) :
    ∃ g' summary, refreshVolumeProjection g k = .ok (g', summary) ∧
      volumeRefreshWork g' < volumeRefreshWork g := by
  have hok : ∃ x, refreshVolumeProjection g k = .ok x := by
    obtain ⟨⟨v, job⟩, hjob⟩ := Option.ne_none_iff_exists'.mp hpending
    obtain ⟨volume, hvol⟩ := Option.isSome_iff_exists.mp
      (hwf.queues.volumeJob v job (nextVolumeJob_eq_some hjob).1)
    obtain ⟨g₁, n, hsync⟩ := syncLinks_total hwf.names hwf.catalog volume.generation .durable
      (volumeRefreshPage g v job.projectionScanCursor k)
    rw [refreshVolumeProjection, if_neg (by omega)]
    simp only [hjob, hvol]
    exact ⟨_, bind_ok.mpr ⟨_, hsync, rfl⟩⟩
  obtain ⟨⟨g', summary⟩, h⟩ := hok
  refine ⟨g', summary, h, ?_⟩
  rcases refreshVolumeProjection_ok h with ⟨h0 | hnone, -⟩ |
    ⟨v, job, volume, g₁, n, -, hjob, hvol, hsync, hend⟩
  · omega
  · exact absurd hnone hpending
  · obtain ⟨hget, hstate⟩ := nextVolumeJob_eq_some hjob
    have hjobs : g₁.volumeJobs = g.volumeJobs := by rw [syncLinks_frame hsync]
    -- the job that replaces the head of the queue has strictly less to do
    have hless : ∃ job', g'.volumeJobs = g.volumeJobs.insert v job' ∧ g'.catalog = g₁.catalog ∧
        jobWork g job' < jobWork g job := by
      rcases hend with ⟨-, rfl⟩ | ⟨last, hlast, rfl⟩
      · refine ⟨_, by rw [hjobs], rfl, ?_⟩
        rw [jobWork, if_neg (by simp), jobWork, if_pos hstate]
        omega
      · refine ⟨_, by rw [hjobs], rfl, ?_⟩
        rw [volumeRefreshPage, List.getLast?_map] at hlast
        obtain ⟨⟨d, row⟩, hd, rfl⟩ := Option.map_eq_some_iff.mp hlast
        obtain ⟨hrow, -, hafter⟩ := Table.mem_page (List.mem_of_getLast? hd)
        obtain ⟨stored, rfl, hid, -⟩ := hwf.catalog.compact d row hrow
        have hcursor : documentIdForLink (compactRow stored).fileLinkId = d := by
          rw [compactRow, hid, documentIdForLink_linkOfDocument]
        rw [jobWork, jobWork, if_pos hstate, if_pos hstate]
        apply Nat.add_lt_add_left
        refine Table.select_length_lt (fun d' r hr hp => ?_) hrow (decide_eq_true hafter) ?_
        · simp only [Option.map_some, hcursor, decide_eq_true_eq, Table.after_some] at hp
          exact ⟨r, hr, decide_eq_true fun c hc => (hafter c hc).trans hp⟩
        · simp [hcursor]
    obtain ⟨job', hjobs', hcat, hlt⟩ := hless
    have hle : ∀ x, jobWork g' x ≤ jobWork g x :=
      jobWork_le fun d hd => syncLinks_documents hwf hsync d (by rw [← hcat]; exact hd)
    have hsum := Table.sum_insert hget (jobWork g) job'
    have hbound : volumeRefreshWork g' ≤
        ((g.volumeJobs.insert v job').rows.map fun x => jobWork g x.2).sum := by
      rw [volumeRefreshWork, hjobs']
      exact List.sum_le_sum fun x _ => hle x.2
    have hdef : volumeRefreshWork g = (g.volumeJobs.rows.map fun x => jobWork g x.2).sum := rfl
    omega

/-- Volume refresh calls with the given bounds, one after another. -/
def refreshVolumes : FilesystemGraph → List Nat → GraphResult FilesystemGraph
  | g, [] => .ok g
  | g, k :: ks => do
      let (g, _) ← refreshVolumeProjection g k
      refreshVolumes g ks

theorem refreshVolumes_drains {g : FilesystemGraph} {ks : List Nat} (hwf : WellFormed g)
    (hks : ∀ k ∈ ks, 1 ≤ k) (hlen : volumeRefreshWork g ≤ ks.length) :
    ∃ g', refreshVolumes g ks = .ok g' ∧ nextVolumeJob g' = none := by
  induction ks generalizing g with
  | nil => exact ⟨g, rfl, volumeRefreshWork_eq_zero.mp (Nat.le_zero.mp hlen)⟩
  | cons k ks ih =>
    have hk : 1 ≤ k := hks k List.mem_cons_self
    have hks' : ∀ x ∈ ks, 1 ≤ x := fun x hx => hks x (List.mem_cons_of_mem _ hx)
    by_cases hpending : nextVolumeJob g = none
    · have hidle : refreshVolumeProjection g k = .ok (g, ⟨0, 0, false⟩) := by
        rw [refreshVolumeProjection, if_neg (by omega), hpending]
      have hzero := volumeRefreshWork_eq_zero.mpr hpending
      obtain ⟨g', hrun, hdone⟩ := ih hwf hks' (by omega)
      exact ⟨g', bind_ok.mpr ⟨_, hidle, hrun⟩, hdone⟩
    · obtain ⟨g₁, summary, hcall, hless⟩ := refreshVolumeProjection_progress hwf hk hpending
      have hwf₁ : WellFormed g₁ :=
        wellFormed_of_transacts (R := True) (refreshVolumeProjection_transacts hwf hcall) hwf
      rw [List.length_cons] at hlen
      obtain ⟨g', hrun, hdone⟩ := ih hwf₁ hks' (by omega)
      exact ⟨g', bind_ok.mpr ⟨_, hcall, hrun⟩, hdone⟩

/-- Durable runs in which an `UpsertVolume` meets new or online volumes only. -/
def OpenlyReachable (g : FilesystemGraph) : Prop :=
  Relation.ReflTransGen (Step fun op g => op.Durable ∧ op.OpensVolumes g) .empty g

theorem OpenlyReachable.invariant {g : FilesystemGraph} (h : OpenlyReachable g) :
    LogInvariant g ∧ Converging g ∅ := by
  induction h with
  | refl => exact ⟨logInvariant_empty, fun _ _ _ h => (nomatch h)⟩
  | tail _ hstep ih =>
    obtain ⟨op, ⟨hop, hopen⟩, hrun⟩ := hstep
    have htrans := hop.transacts (R := False) (Or.inr hopen) ih.1.wellFormed hrun
    exact ⟨ih.1.of_transacts htrans, converging_of_transacts htrans ih.1.wellFormed ih.2⟩

/-- A volume without pending job shows every document with the availability last
logged for it. -/
theorem Converging.availability {g : FilesystemGraph} (hc : Converging g ∅) (hinv : LogInvariant g)
    {document : CatalogDocument} (h : Desired g document)
    (hidle : ∀ job, g.volumeJobs.get document.identity.objectKey.volumeId = some job →
      job.state ≠ .pending) :
    ∃ logged, loggedDocuments g document.identity.documentId = some logged ∧
      logged.metadata.availability = document.metadata.availability := by
  obtain ⟨logged, hlogged, -, hrow⟩ := hinv.logged h
  refine ⟨logged, hlogged, ?_⟩
  obtain ⟨row, hrow', hjoin⟩ := h
  obtain ⟨stored, link, object, volume, rfl, hident, hlink, hobj, hvol, hview⟩ :=
    joinedDocument_view hinv.wellFormed hrow'
  obtain rfl : stored = logged := compactRow_injective (Option.some.inj (hrow'.symm.trans hrow))
  rw [hview] at hjoin
  have hdoc := Except.ok.inj (Option.some.inj hjoin)
  have hkey : document.identity.objectKey = link.objectKey := by
    rw [← hdoc]
    exact congrArg (·.objectKey) hident
  have hreports : ReportsAvailability g (compactRow stored) := by
    rcases hc (linkOfDocument document.identity.documentId) _ (Set.notMem_empty _) hrow with
      hr | ⟨job, hjob, hpending, -⟩
    · exact hr
    · have hvolume : (compactRow stored).objectKey = document.identity.objectKey := by
        rw [hkey, compactRow, hident]
      rw [hvolume] at hjob
      exact absurd hpending (hidle job hjob)
  have hstored : (compactRow stored).objectKey = link.objectKey := by rw [compactRow, hident]
  have havail := hreports _ rfl object (by rw [hstored]; exact hobj) volume (by rw [hstored]; exact hvol)
  rw [← hdoc]
  exact havail

/-- Once a volume's queue entry is finished its desired documents carry the
availability of their last outbox mutation; and from every state, refresh calls
with any positive bounds finish every entry. -/
theorem volume_availability_converges {g : FilesystemGraph} (h : OpenlyReachable g) :
    (∃ documents, desiredCatalogDocuments g = .ok documents ∧
      ∀ document ∈ documents,
        (∀ job, g.volumeJobs.get document.identity.objectKey.volumeId = some job →
          job.state ≠ .pending) →
        ∃ logged, lastMutation g document.identity.documentId = some (.upsert logged) ∧
          logged.metadata.availability = document.metadata.availability) ∧
    ∀ s, Reachable s → ∃ calls, ∀ ks : List Nat, (∀ k ∈ ks, 1 ≤ k) → calls ≤ ks.length →
      ∃ s', refreshVolumes s ks = .ok s' ∧ nextVolumeJob s' = none := by
  obtain ⟨hinv, hc⟩ := h.invariant
  obtain ⟨documents, hdocs, -, hmem⟩ := desiredCatalogDocuments_ok hinv.wellFormed
  refine ⟨⟨documents, hdocs, fun document hdoc hidle => ?_⟩, fun s hs =>
    ⟨volumeRefreshWork s, fun ks hks hlen => refreshVolumes_drains hs.wellFormed hks hlen⟩⟩
  obtain ⟨logged, hlogged, havail⟩ := hc.availability hinv ((hmem document).mp hdoc) hidle
  exact ⟨logged, loggedDocuments_eq_some hlogged, havail⟩

end Convergence

section Example

attribute [local instance] asciiCaseMapping

/-- The sample tree after its volume went offline and two pages of the pass. -/
def offlineSample : List GraphOp :=
  [.applyBatch (sampleBatch sampleTree),
    .applyBatch (sampleBatch [.setVolumeState sampleVolume .offline]),
    .refreshVolumeProjection 2, .refreshVolumeProjection 10]

def offlineSampleGraph : FilesystemGraph := (runOps .empty offlineSample).toOption.getD .empty

theorem offlineSample_run : runOps .empty offlineSample = .ok offlineSampleGraph := by
  decide

theorem opensVolumes_sampleTree :
    (GraphOp.applyBatch (sampleBatch sampleTree)).OpensVolumes .empty := by
  refine ⟨fun _ h => (nomatch h), fun g' _ _ => EachMutation.of_forall (fun m hm g => ?_) g'⟩
  simp only [List.mem_cons, List.not_mem_nil, or_false] at hm
  rcases hm with rfl | rfl | rfl | rfl | rfl | rfl | rfl | rfl <;> trivial

theorem offlineSample_reachable : OpenlyReachable offlineSampleGraph := by
  obtain ⟨g₁, h₁, hrest⟩ := bind_ok.mp offlineSample_run
  obtain ⟨g₂, h₂, hrest⟩ := bind_ok.mp hrest
  obtain ⟨g₃, h₃, hrest⟩ := bind_ok.mp hrest
  obtain ⟨g₄, h₄, hrest⟩ := bind_ok.mp hrest
  obtain rfl := Except.ok.inj hrest
  refine .head ⟨.applyBatch (sampleBatch sampleTree), ⟨trivial, opensVolumes_sampleTree⟩, h₁⟩ ?_
  refine .head ⟨.applyBatch (sampleBatch [.setVolumeState sampleVolume .offline]),
    ⟨trivial, ⟨trivial, fun _ _ _ => trivial⟩⟩, h₂⟩ ?_
  exact .head ⟨.refreshVolumeProjection 2, ⟨trivial, trivial⟩, h₃⟩
    (.single ⟨.refreshVolumeProjection 10, ⟨trivial, trivial⟩, h₄⟩)

/-- The pass of the sample is over and its four documents went offline. -/
theorem offlineSample_converges :
    nextVolumeJob offlineSampleGraph = none ∧
      ((desiredCatalogDocuments offlineSampleGraph).toOption.map fun documents =>
        documents.map (·.metadata.availability)) = some (List.replicate 4 .offline) ∧
      (∃ documents, desiredCatalogDocuments offlineSampleGraph = .ok documents ∧
        ∀ document ∈ documents,
          (∀ job, offlineSampleGraph.volumeJobs.get document.identity.objectKey.volumeId =
            some job → job.state ≠ .pending) →
          ∃ logged, lastMutation offlineSampleGraph document.identity.documentId =
              some (.upsert logged) ∧
            logged.metadata.availability = document.metadata.availability) ∧
      ∀ s, Reachable s → ∃ calls, ∀ ks : List Nat, (∀ k ∈ ks, 1 ≤ k) → calls ≤ ks.length →
        ∃ s', refreshVolumes s ks = .ok s' ∧ nextVolumeJob s' = none :=
  ⟨by decide, by decide, volume_availability_converges offlineSample_reachable⟩

end Example

end LocalSearch.Graph
