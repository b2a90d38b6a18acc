import LocalSearch.Graph.OutboxTail

/-!
# Retention of the outbox

Sequences are handed out without gaps and rows are pruned from the oldest on, so
what is left reaches from some row to the newest. Pruning stops at the slowest
consumer registered at that moment; a consumer that registers later must not be
behind the oldest row.
-/
namespace LocalSearch.Graph

set_option autoImplicit false

open Core Lib

/-- A row means rows for every later sequence. -/
def Contiguous (g : FilesystemGraph) : Prop :=
  ∀ n m, (∃ row, g.outbox.get n = some row) → n ≤ m → m ≤ highWater g →
    ∃ row, g.outbox.get m = some row

/-- Every registered consumer still finds every sequence past its own. -/
def Retained (g : FilesystemGraph) : Prop :=
  ∀ id row, projectorCheckpoint g id = some row → ∀ n, row.lastSequence < n →
    n ≤ latestOutboxSequence g → ∃ row, g.outbox.get n = some row

/-- The oldest sequence that still has a row; past the newest one if none has. -/
def firstRetained (g : FilesystemGraph) : Nat :=
  (g.outbox.rows.head?.map (·.1)).getD (highWater g + 1)

/-- A consumer that registers does so right before the oldest row or later. -/
def RegistersRetained (g g' : FilesystemGraph) : Prop :=
  ∀ id row, projectorCheckpoint g id = none → projectorCheckpoint g' id = some row →
    firstRetained g ≤ row.lastSequence + 1

section Retention

variable {g g' : FilesystemGraph}

theorem retained_past (hcontiguous : Contiguous g) {position : Nat}
    (h : firstRetained g ≤ position + 1) {n : Nat} (hlow : position < n) (hhigh : n ≤ highWater g) :
    ∃ row, g.outbox.get n = some row := by
  cases hhead : g.outbox.rows.head? with
  | none =>
    rw [firstRetained, hhead] at h
    simp only [Option.map_none, Option.getD_none] at h
    omega
  | some x =>
    rw [firstRetained, hhead] at h
    simp only [Option.map_some, Option.getD_some] at h
    have hx : g.outbox.get x.1 = some x.2 := Table.mem_rows.mp (List.mem_of_head? hhead)
    exact hcontiguous x.1 n ⟨x.2, hx⟩ (by omega) hhigh

/-- The sequences handed out since have their rows. -/
def Fills (g g' : FilesystemGraph) : Prop :=
  ∀ n, highWater g < n → n ≤ highWater g' → ∃ row, g'.outbox.get n = some row

theorem contiguous_grow (hgrow : OutboxGrows g g') (hfill : Fills g g')
    (h : Contiguous g) : Contiguous g' := by
  obtain ⟨added, hrows, hnew⟩ := hgrow.rows
  intro n m hn hnm hm
  by_cases hlate : highWater g < m
  · exact hfill m hlate hm
  · -- both rows are old ones
    obtain ⟨row, hrow⟩ := hn
    have hmem : (n, row) ∈ g.outbox.rows ++ added := hrows ▸ Table.mem_rows.mpr hrow
    have hold : (n, row) ∈ g.outbox.rows := by
      rcases List.mem_append.mp hmem with hmem | hmem
      · exact hmem
      · have hlt := hnew _ hmem
        omega
    obtain ⟨row', hrow'⟩ := h n m ⟨row, Table.mem_rows.mp hold⟩ hnm (not_lt.mp hlate)
    refine ⟨row', Table.mem_rows.mp ?_⟩
    rw [hrows]
    exact List.mem_append_left _ (Table.mem_rows.mpr hrow')

theorem contiguous_prune {p : Nat → OutboxRow → Bool} (h : Contiguous g) (hp : Prunes g p) :
    Contiguous { g with outbox := g.outbox.deleteWhere p } := by
  rintro n m ⟨row, hrow⟩ hnm hm
  obtain ⟨hold, hkept⟩ := (Table.get_deleteWhere ..).mp hrow
  obtain ⟨row', hrow'⟩ := h n m ⟨row, hold⟩ hnm hm
  refine ⟨row', (Table.get_deleteWhere ..).mpr ⟨hrow', Bool.eq_false_iff.mpr fun hdoomed => ?_⟩⟩
  rw [hp.oldest n m row row' hold hrow' hnm hdoomed] at hkept
  cases hkept

section Writes

variable [CaseMapping] {R : Prop} {mode : ProjectionOutboxMode}

theorem fills_sync {g₀ : FilesystemGraph} {id : FileLinkId} {gen n : Nat}
    (hgrows : OutboxGrows g₀ g) (hfill : Fills g₀ g)
    (h : syncCatalogProjection g id gen mode = .ok (g', n)) : Fills g₀ g' := by
  have hnext := nextOutboxSequence_eq hgrows.wf
  rcases syncCatalogProjection_outbox h with ⟨hout, hseq⟩ | ⟨row, hout, hseq⟩
  · have hsame : highWater g' = highWater g := by rw [highWater, hseq]; rfl
    intro k hlow hhigh
    rw [hout]
    exact hfill k hlow (hsame ▸ hhigh)
  · have hmark : highWater g' = highWater g + 1 := by rw [highWater, hseq, Option.getD_some, hnext]
    intro k hlow hhigh
    rw [hout, Table.get_insert]
    split_ifs with he
    · exact ⟨row, rfl⟩
    · exact hfill k hlow (by omega)

theorem fills_of_transacts (h : Transacts R mode g g') (hout : OutboxWF g) : Fills g g' := by
  obtain ⟨v, gen, -, -, hch⟩ := h
  have hboth : OutboxGrows g g' ∧ Fills g g' := by
    refine Changes.induct (P := fun s => OutboxGrows g s.1 ∧ Fills g s.1) (fun s s' hchange hs => ?_)
      hch ⟨.refl hout, fun n hlow hhigh => absurd hhigh (not_le.mpr hlow)⟩
    obtain ⟨hgrows, hfill⟩ := hs
    refine ⟨outboxGrows_of_change hchange hgrows, ?_⟩
    rcases change_outbox hchange with ⟨houtbox, hseq, -⟩ | ⟨id, n, h⟩
    · have hsame : highWater s'.1 = highWater s.1 := by rw [highWater, hseq]; rfl
      intro n hlow hhigh
      rw [houtbox]
      exact hfill n hlow (hsame ▸ hhigh)
    · exact fills_sync hgrows hfill h
  exact hboth.2

/-- New rows leave no gap, and pruning starts at the oldest row. -/
theorem contiguous_of_run {op : GraphOp} (hwf : WellFormed g) (hout : OutboxWF g)
    (hcontiguous : Contiguous g) (h : op.run g = .ok g') : Contiguous g' ∧ Fills g g' := by
  have hsame : ∀ {t : FilesystemGraph}, t.sqliteSequence = g.sqliteSequence → Fills g t := by
    intro t hseq n hlow hhigh
    rw [highWater, hseq] at hhigh
    exact absurd hhigh (not_le.mpr hlow)
  rcases run_outbox hwf h with
    ⟨mode, ht⟩ | rfl | ⟨p, hp, rfl⟩ | ⟨id, sequence, generation, rfl⟩ | ⟨id, rfl⟩
  · have hfill := fills_of_transacts ht hout
    exact ⟨contiguous_grow (outboxGrows_of_transacts ht hout) hfill hcontiguous, hfill⟩
  · exact ⟨hcontiguous, hsame rfl⟩
  · exact ⟨contiguous_prune hcontiguous hp, hsame rfl⟩
  · obtain ⟨-, -, -, -, rfl⟩ := acknowledgeProjection_ok.mp h
    exact ⟨hcontiguous, hsame rfl⟩
  · obtain rfl := Except.ok.inj h
    exact ⟨hcontiguous, hsame rfl⟩

/-- What every state keeps while consumers register in time. -/
structure RetentionInvariant (g : FilesystemGraph) : Prop where
  wellFormed : WellFormed g
  outbox : OutboxWF g
  contiguous : Contiguous g
  retained : Retained g

omit [CaseMapping] in
theorem retentionInvariant_empty : RetentionInvariant .empty :=
  ⟨wellFormed_empty, outboxWF_empty, fun _ _ ⟨_, h⟩ => (nomatch h), fun _ _ h => (nomatch h)⟩

/-- A consumer that was registered before keeps what it has still to read. -/
theorem Retained.spared {op : GraphOp} (hinv : RetentionInvariant g) (h : op.run g = .ok g')
    {id : String} {row : ConsumerRow} (hop : op.SparesConsumer id)
    (hrow : projectorCheckpoint g id = some row) {n : Nat} (hlow : row.lastSequence < n)
    (hhigh : n ≤ highWater g') : ∃ r, g'.outbox.get n = some r := by
  have hkeeps := keepsTail_of_run hinv.wellFormed hinv.outbox hop hrow h
  by_cases hlate : highWater g < n
  · exact (contiguous_of_run hinv.wellFormed hinv.outbox hinv.contiguous h).2 n hlate hhigh
  · rw [not_lt, ← latestOutboxSequence_eq hinv.outbox] at hlate
    obtain ⟨r, hr⟩ := hinv.retained id row hrow n hlow hlate
    have hmem : (n, r) ∈ outboxAfter g' row.lastSequence := by
      rw [hkeeps.tail]
      exact List.mem_append_left _ (mem_outboxAfter.mpr ⟨hr, hlow⟩)
    exact ⟨r, (mem_outboxAfter.mp hmem).1⟩

theorem retentionInvariant_run {op : GraphOp} (hinv : RetentionInvariant g)
    (hregisters : RegistersRetained g g') (h : op.run g = .ok g') : RetentionInvariant g' := by
  have hwf' := wellFormed_of_run hinv.wellFormed h
  have hout' := outboxWF_of_run hinv.wellFormed hinv.outbox h
  refine ⟨hwf', hout', (contiguous_of_run hinv.wellFormed hinv.outbox hinv.contiguous h).1, ?_⟩
  intro id row' hrow' n hlow hhigh
  rw [latestOutboxSequence_eq hout'] at hhigh
  by_cases hop : op.SparesConsumer id
  · have hrow := checkpoint_of_run hinv.wellFormed hinv.outbox hop h
    exact Retained.spared hinv h hop (hrow ▸ hrow') hlow hhigh
  · cases op with
    | acknowledgeProjection consumer last generation =>
      obtain rfl : consumer = id := not_not.mp hop
      obtain ⟨-, hforward, -, -, rfl⟩ := acknowledgeProjection_ok.mp h
      obtain rfl := Option.some.inj ((Table.get_insert_self _ _ _).symm.trans hrow')
      cases hrow : projectorCheckpoint g consumer with
      | none => exact retained_past hinv.contiguous (hregisters consumer _ hrow hrow') hlow hhigh
      | some row =>
        have hle := hforward row hrow
        have hlatest := latestOutboxSequence_eq hinv.outbox
        exact hinv.retained consumer row hrow n (hle.trans_lt hlow) (hlatest.ge.trans' hhigh)
    | resetProjectionConsumer consumer =>
      obtain rfl : consumer = id := not_not.mp hop
      obtain rfl := Except.ok.inj h
      rw [projectorCheckpoint, resetProjectionConsumer, Table.get_erase, if_pos rfl] at hrow'
      cases hrow'
    | applyBatch | applyRebuildableBatch | beginObservationScan | applyObservationScanPage
    | stageObservationCheckpoint | finalizeObservationScan | refreshProjectionPaths
    | refreshVolumeProjection | pruneConsumedOutbox | pruneRebuildableOutboxBounded
    | completeRefreshJob | compactLegacyDesiredPayloadsBounded => exact absurd trivial hop

end Writes

end Retention

end LocalSearch.Graph
