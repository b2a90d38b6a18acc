import LocalSearch.Graph.Retention

/-!
# The rows a projection worker finds

What is left of the outbox runs without a gap up to the newest sequence, and
every upsert addresses the document of its own link. A worker that reads a batch
behind any position therefore never finds one that it has to refuse.
-/
namespace LocalSearch.Graph

set_option autoImplicit false

open Core Lib

/-- Every upsert carries the document id that belongs to its link. -/
def OwnDocuments (g : FilesystemGraph) : Prop :=
  ∀ n row document, g.outbox.get n = some row → row.mutation = .upsert document →
    document.identity.documentId = documentIdForLink document.identity.fileLinkId

/-- What every write keeps of the rows. -/
structure OutboxRows (g : FilesystemGraph) : Prop where
  wf : OutboxWF g
  contiguous : Contiguous g
  own : OwnDocuments g

theorem outboxRows_empty : OutboxRows .empty where
  wf := outboxWF_empty
  contiguous := by
    rintro n m ⟨row, hrow⟩
    cases hrow
  own := by
    intro n row document hrow
    cases hrow

variable {g g' : FilesystemGraph}

theorem OwnDocuments.of_outbox (h : OwnDocuments g)
    (hrows : ∀ n row, g'.outbox.get n = some row → g.outbox.get n = some row) :
    OwnDocuments g' :=
  fun n row document hrow => h n row document (hrows n row hrow)

section Writes

variable [CaseMapping] {R : Prop} {v : VolumeId} {gen : Nat} {mode : ProjectionOutboxMode}

theorem ownDocuments_sync {id : FileLinkId} {n : Nat} (h : OwnDocuments g)
    (hsync : syncCatalogProjection g id gen mode = .ok (g', n)) : OwnDocuments g' := by
  have happend : ∀ row : OutboxRow,
      (∀ document, row.mutation = .upsert document →
        document.identity.documentId = documentIdForLink document.identity.fileLinkId) →
      ∀ t : FilesystemGraph, t.outbox = g.outbox.insert (nextOutboxSequence g) row →
        OwnDocuments t := by
    intro row hrow t hout n old document hold hdocument
    rw [hout, Table.get_insert] at hold
    split_ifs at hold
    · obtain rfl := Option.some.inj hold
      exact hrow document hdocument
    · exact h n old document hold hdocument
  rcases syncCatalogProjection_ok hsync with ⟨-, hdelete⟩ | ⟨_, _, -, -, -, rfl⟩ |
    ⟨link, document, hlink, hbuild, -, hput⟩
  · obtain rfl : _ = g' := congrArg Prod.fst hdelete
    unfold deleteCatalogProjection
    cases g.catalog.get (documentIdForLink id) with
    | none => exact h
    | some row =>
      cases mode with
      | durable => exact happend _ (fun document heq => by cases heq) _ rfl
      | rebuildable => exact h
  · exact h
  · obtain rfl : _ = g' := congrArg Prod.fst hput
    cases mode with
    | durable =>
      refine happend _ (fun other heq => ?_) _ rfl
      cases heq
      obtain ⟨row, -, rfl⟩ := loadLink_eq_some.mp hlink
      rw [buildCatalogDocument_identity hbuild]
    | rebuildable => exact h

theorem ownDocuments_of_change {s s' : Dirty} (hchange : Change R v gen mode s s')
    (h : OwnDocuments s.1) : OwnDocuments s'.1 := by
  rcases change_outbox hchange with ⟨hout, -, -⟩ | ⟨id, n, hsync⟩
  · exact h.of_outbox fun n row hrow => hout ▸ hrow
  · exact ownDocuments_sync h hsync

theorem outboxRows_of_run {op : GraphOp} (hwf : WellFormed g) (h : OutboxRows g)
    (hrun : op.run g = .ok g') : OutboxRows g' := by
  refine ⟨outboxWF_of_run hwf h.wf hrun, (contiguous_of_run hwf h.wf h.contiguous hrun).1, ?_⟩
  rcases run_outbox hwf hrun with
    ⟨mode, ht⟩ | rfl | ⟨p, -, rfl⟩ | ⟨id, sequence, generation, rfl⟩ | ⟨id, rfl⟩
  · obtain ⟨v, gen, -, -, hch⟩ := ht
    exact Changes.induct (P := fun s => OwnDocuments s.1) (fun _ _ => ownDocuments_of_change) hch
      h.own
  · exact h.own
  · exact h.own.of_outbox fun n row hrow => ((Table.get_deleteWhere _ _ _ _).mp hrow).1
  · obtain ⟨-, -, -, -, rfl⟩ := acknowledgeProjection_ok.mp hrun
    exact h.own
  · obtain rfl := Except.ok.inj hrun
    exact h.own

/-- Every sequence behind the position still has its row. -/
def Unread (g : FilesystemGraph) (sequence : Nat) : Prop :=
  ∀ n, sequence < n → n ≤ highWater g → ∃ row, g.outbox.get n = some row

/-- A registered consumer keeps what it has still to read. -/
theorem unread_of_run {op : GraphOp} {consumer : String} {row : ConsumerRow} (hwf : WellFormed g)
    (h : OutboxRows g) (hspares : op.SparesConsumer consumer)
    (hrow : projectorCheckpoint g consumer = some row) (hunread : Unread g row.lastSequence)
    (hrun : op.run g = .ok g') : Unread g' row.lastSequence := by
  have hkeeps := keepsTail_of_run hwf h.wf hspares hrow hrun
  intro n hlow hhigh
  by_cases hlate : highWater g < n
  · exact (contiguous_of_run hwf h.wf h.contiguous hrun).2 n hlate hhigh
  · obtain ⟨old, hold⟩ := hunread n hlow (by omega)
    have hmem : (n, old) ∈ outboxAfter g' row.lastSequence := by
      rw [hkeeps.tail]
      exact List.mem_append_left _ (mem_outboxAfter.mpr ⟨hold, hlow⟩)
    exact ⟨old, (mem_outboxAfter.mp hmem).1⟩

end Writes

/-- Keys in order without a gap count up. -/
theorem validateFrom_of_contiguous {rows : List (Nat × OutboxRow)} {expected bound : Nat}
    (hsorted : rows.Pairwise fun a b => a.1 < b.1) (hbound : ∀ x ∈ rows, x.1 ≤ bound)
    (hall : ∀ n, expected ≤ n → (∃ x ∈ rows, n ≤ x.1) → ∃ row, (n, row) ∈ rows)
    (hlow : ∀ x ∈ rows, expected ≤ x.1) (hsmall : bound + 1 < 2 ^ 64) :
    MutationBatch.validateFrom expected (rows.map fun x => ⟨x.1, x.2.mutation⟩) = .ok () := by
  induction rows generalizing expected with
  | nil => rfl
  | cons first rest ih =>
    rw [List.pairwise_cons] at hsorted
    have hfirst : first.1 = expected := by
      obtain ⟨row, hrow⟩ := hall expected (Nat.le_refl _) ⟨first, List.mem_cons_self,
        hlow first List.mem_cons_self⟩
      rcases List.mem_cons.mp hrow with heq | hmem
      · rw [← heq]
      · have hlt := hsorted.1 _ hmem
        have hle := hlow first List.mem_cons_self
        have hkey : expected = (expected, row).1 := rfl
        omega
    have hle := hbound first List.mem_cons_self
    rw [List.map_cons, MutationBatch.validateFrom, if_neg (by simpa using hfirst),
      if_neg (by omega)]
    refine ih hsorted.2 (fun x hx => hbound x (List.mem_cons_of_mem _ hx)) ?_ ?_
    · rintro n hn ⟨x, hx, hnx⟩
      obtain ⟨row, hrow⟩ := hall n (by omega) ⟨x, List.mem_cons_of_mem _ hx, hnx⟩
      rcases List.mem_cons.mp hrow with heq | hmem
      · have hkey : n = first.1 := congrArg Prod.fst heq
        omega
      · exact ⟨row, hmem⟩
    · intro x hx
      have hlt := hsorted.1 x hx
      omega

/-- A batch read behind any position is empty or passes its check. -/
theorem OutboxRows.readOutbox_validate (h : OutboxRows g) (hsmall : highWater g + 1 < 2 ^ 64)
    {sequence limit : Nat} {batch : MutationBatch}
    (hread : readOutbox g (some sequence) limit = .ok batch) :
    batch.mutations = [] ∨ batch.validate = .ok () := by
  rw [readOutbox, guard_ok] at hread
  obtain rfl := Except.ok.inj hread.2
  have hpage : g.outbox.page (fun _ _ => true) (some sequence) limit =
      (outboxAfter g sequence).take limit := by
    simp [Table.page, outboxAfter]
  rw [Option.getD_some, hpage]
  have hsorted : (outboxAfter g sequence).Pairwise fun a b => a.1 < b.1 := Table.select_sorted _ _
  have hmem : ∀ x ∈ outboxAfter g sequence, g.outbox.get x.1 = some x.2 ∧ sequence < x.1 :=
    fun x hx => mem_outboxAfter.mp hx
  generalize hrows : (outboxAfter g sequence).take limit = rows
  have hsub : ∀ x ∈ rows, x ∈ outboxAfter g sequence := fun x hx => by
    rw [← hrows] at hx
    exact List.mem_of_mem_take hx
  have hrowsSorted : rows.Pairwise fun a b => a.1 < b.1 := by
    rw [← hrows]
    exact hsorted.sublist (List.take_sublist _ _)
  cases rows with
  | nil => exact Or.inl rfl
  | cons first rest =>
    right
    have hfirst := hmem first (hsub first List.mem_cons_self)
    refine validateFrom_of_contiguous hrowsSorted
      (fun x hx => h.wf.rows x.1 x.2 (hmem x (hsub x hx)).1) ?_ ?_ hsmall
    · rintro n hn ⟨x, hx, hnx⟩
      have hkept := hmem x (hsub x hx)
      obtain ⟨row, hrow⟩ := h.contiguous first.1 n ⟨first.2, hfirst.1⟩ hn
        (hnx.trans (h.wf.rows x.1 x.2 hkept.1))
      have hafter : (n, row) ∈ outboxAfter g sequence := by
        refine mem_outboxAfter.mpr ⟨hrow, ?_⟩
        have hlt := hfirst.2
        have hle : first.1 ≤ n := hn
        omega
      rw [← hrows] at hx ⊢
      exact ⟨row, mem_take_of_le hsorted hafter hx hnx⟩
    · intro x hx
      rcases List.mem_cons.mp hx with rfl | hx
      · exact Nat.le_refl _
      · exact ((List.pairwise_cons.mp hrowsSorted).1 x hx).le

end LocalSearch.Graph
