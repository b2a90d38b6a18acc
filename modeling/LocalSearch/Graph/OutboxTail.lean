import LocalSearch.Graph.OutboxLog

/-!
# The outbox behind a position

Sequences are handed out once and in order, so whatever a write appends lies
past every position a consumer can hold, and pruning takes rows only at or
before the position of every consumer. What a consumer has still to read
therefore only grows at its end.
-/
namespace LocalSearch.Graph

set_option autoImplicit false

open Core Lib

/-- The highest sequence ever handed out. -/
def highWater (g : FilesystemGraph) : Nat := g.sqliteSequence.getD 0

/-- Rows past a position, in sequence order. -/
def outboxAfter (g : FilesystemGraph) (sequence : Nat) : List (Nat × OutboxRow) :=
  g.outbox.select fun n _ => decide (sequence < n)

def rowWrites (rows : List (Nat × OutboxRow)) : List (DocumentId × Option CatalogDocument) :=
  rows.map (·.2.mutation.write)

theorem rowWrites_append (a b : List (Nat × OutboxRow)) :
    rowWrites (a ++ b) = rowWrites a ++ rowWrites b :=
  List.map_append

/-- Neither rows nor consumers are past the high-water mark. -/
structure OutboxWF (g : FilesystemGraph) : Prop where
  rows : ∀ n row, g.outbox.get n = some row → n ≤ highWater g
  consumers : ∀ id row, g.consumers.get id = some row → row.lastSequence ≤ highWater g

/-- The rows of `g` are kept and new ones follow past its high-water mark. -/
structure OutboxGrows (g g' : FilesystemGraph) : Prop where
  rows : ∃ added, g'.outbox.rows = g.outbox.rows ++ added ∧ ∀ x ∈ added, highWater g < x.1
  wf : OutboxWF g'
  mono : highWater g ≤ highWater g'
  consumers : g'.consumers = g.consumers

section Rows

variable {g g' : FilesystemGraph}

theorem outboxWF_empty : OutboxWF .empty := ⟨fun _ _ h => (nomatch h), fun _ _ h => (nomatch h)⟩

theorem lastKey_le_highWater (h : OutboxWF g) : g.outbox.lastKey.getD 0 ≤ highWater g := by
  cases hlast : g.outbox.rows.getLast? with
  | none => rw [Table.lastKey, hlast]; exact Nat.zero_le _
  | some x =>
    rw [Table.lastKey, hlast]
    exact h.rows x.1 x.2 (Table.mem_rows.mp (List.mem_of_getLast? hlast))

theorem nextOutboxSequence_eq (h : OutboxWF g) : nextOutboxSequence g = highWater g + 1 := by
  have hle := lastKey_le_highWater h
  rw [nextOutboxSequence, ← highWater]
  omega

theorem foldr_max_le {l : List Nat} {bound : Nat} (h : ∀ n ∈ l, n ≤ bound) : l.foldr max 0 ≤ bound := by
  induction l with
  | nil => exact Nat.zero_le _
  | cons n l ih =>
    exact max_le (h n List.mem_cons_self) (ih fun m hm => h m (List.mem_cons_of_mem _ hm))

theorem latestOutboxSequence_eq (h : OutboxWF g) : latestOutboxSequence g = highWater g := by
  have hrows := lastKey_le_highWater h
  have hconsumers : (g.consumers.rows.map (·.2.lastSequence)).foldr max 0 ≤ highWater g := by
    refine foldr_max_le fun n hn => ?_
    obtain ⟨x, hx, rfl⟩ := List.mem_map.mp hn
    exact h.consumers x.1 x.2 (Table.mem_rows.mp hx)
  rw [latestOutboxSequence, ← highWater]
  omega

theorem mem_outboxAfter {sequence n : Nat} {row : OutboxRow} :
    (n, row) ∈ outboxAfter g sequence ↔ g.outbox.get n = some row ∧ sequence < n := by
  rw [outboxAfter, Table.mem_select, decide_eq_true_eq]

theorem outboxAfter_highWater (h : OutboxWF g) : outboxAfter g (highWater g) = [] := by
  refine List.eq_nil_iff_forall_not_mem.mpr fun ⟨n, row⟩ hmem => ?_
  obtain ⟨hrow, hlt⟩ := mem_outboxAfter.mp hmem
  exact absurd (h.rows n row hrow) (not_le.mpr hlt)

theorem OutboxGrows.refl (h : OutboxWF g) : OutboxGrows g g :=
  ⟨⟨[], (List.append_nil _).symm, fun _ hx => (nomatch hx)⟩, h, le_rfl, rfl⟩

/-- The rows past a position at or before the mark: the old ones and the new. -/
theorem OutboxGrows.outboxAfter (h : OutboxGrows g g') (hwf : OutboxWF g) {sequence : Nat}
    (hle : sequence ≤ highWater g) :
    Graph.outboxAfter g' sequence =
      Graph.outboxAfter g sequence ++ Graph.outboxAfter g' (highWater g) := by
  obtain ⟨added, hrows, hnew⟩ := h.rows
  have hold : ∀ x ∈ g.outbox.rows, x.1 ≤ highWater g := fun x hx =>
    hwf.rows x.1 x.2 (Table.mem_rows.mp hx)
  simp only [Graph.outboxAfter, Table.select, hrows, List.filter_append]
  have hkeep : added.filter (fun x => decide (sequence < x.1)) = added :=
    List.filter_eq_self.mpr fun x hx => decide_eq_true (lt_of_le_of_lt hle (hnew x hx))
  have hkeep' : added.filter (fun x => decide (highWater g < x.1)) = added :=
    List.filter_eq_self.mpr fun x hx => decide_eq_true (hnew x hx)
  have hdrop : g.outbox.rows.filter (fun x => decide (highWater g < x.1)) = [] :=
    List.filter_eq_nil_iff.mpr fun x hx => by simpa using hold x hx
  rw [hkeep, hkeep', hdrop, List.nil_append]

end Rows

section Transactions

variable [CaseMapping] {R : Prop} {v : VolumeId} {gen : Nat} {mode : ProjectionOutboxMode}
  {g g' : FilesystemGraph}

/-- What a sync appends: nothing, or one row for the document of its link, at the
generation of the sync. -/
theorem syncCatalogProjection_appends {id : FileLinkId} {n : Nat}
    (h : syncCatalogProjection g id gen mode = .ok (g', n)) :
    (g'.outbox = g.outbox ∧ g'.sqliteSequence = g.sqliteSequence) ∨
      ∃ mutation : IndexMutation, g'.outbox = g.outbox.insert (nextOutboxSequence g)
          ⟨documentIdForLink id, gen, mutation⟩ ∧
        g'.sqliteSequence = some (nextOutboxSequence g) ∧
        mutation.documentId = documentIdForLink id ∧ mutation.documentVersion = gen ∧
        ∀ document, mutation = .upsert document →
          ∃ link, loadLink g id = some link ∧ document.identity.objectKey = link.objectKey := by
  rcases syncCatalogProjection_ok h with ⟨-, h⟩ | ⟨_, _, -, -, -, rfl⟩ |
    ⟨link, document, hlink, hbuild, -, h⟩
  · obtain rfl : _ = g' := congrArg Prod.fst h
    unfold deleteCatalogProjection
    cases g.catalog.get (documentIdForLink id) with
    | none => exact .inl ⟨rfl, rfl⟩
    | some row =>
      cases mode with
      | durable => exact .inr ⟨_, rfl, rfl, rfl, rfl, fun document heq => by cases heq⟩
      | rebuildable => exact .inl ⟨rfl, rfl⟩
  · exact .inl ⟨rfl, rfl⟩
  · obtain rfl : _ = g' := congrArg Prod.fst h
    obtain ⟨hd, hversion⟩ := buildCatalogDocument_own hlink hbuild
    cases mode with
    | durable =>
      refine .inr ⟨.upsert document, ?_, rfl, hd, hversion, fun other heq => ?_⟩
      · simp only [putCatalogDocument, appendOutbox, hversion, hd]
        rfl
      · cases heq
        exact ⟨_, hlink, by rw [buildCatalogDocument_identity hbuild]⟩
    | rebuildable => exact .inl ⟨rfl, rfl⟩

/-- A sync leaves the outbox or hands out the next sequence. -/
theorem syncCatalogProjection_outbox {id : FileLinkId} {n : Nat}
    (h : syncCatalogProjection g id gen mode = .ok (g', n)) :
    (g'.outbox = g.outbox ∧ g'.sqliteSequence = g.sqliteSequence) ∨
      ∃ row, g'.outbox = g.outbox.insert (nextOutboxSequence g) row ∧
        g'.sqliteSequence = some (nextOutboxSequence g) := by
  rcases syncCatalogProjection_appends h with hsame | ⟨mutation, hout, hseq, -⟩
  · exact Or.inl hsame
  · exact Or.inr ⟨_, hout, hseq⟩

theorem outboxGrows_sync {g₀ : FilesystemGraph} {id : FileLinkId} {n : Nat}
    (hgrows : OutboxGrows g₀ g) (h : syncCatalogProjection g id gen mode = .ok (g', n)) :
    OutboxGrows g₀ g' := by
  have hconsumers : g'.consumers = g.consumers := by rw [syncCatalogProjection_frame h]
  have hnext := nextOutboxSequence_eq hgrows.wf
  obtain ⟨added, hrows, hnew⟩ := hgrows.rows
  have hmono := hgrows.mono
  rcases syncCatalogProjection_outbox h with ⟨hout, hseq⟩ | ⟨row, hout, hseq⟩
  · have hsame : highWater g' = highWater g := by rw [highWater, hseq]; rfl
    refine ⟨⟨added, by rw [hout, hrows], hnew⟩, ⟨?_, ?_⟩, by rw [hsame]; exact hmono, ?_⟩
    · rw [hout, hsame]
      exact hgrows.wf.rows
    · rw [hconsumers, hsame]
      exact hgrows.wf.consumers
    · rw [hconsumers, hgrows.consumers]
  · have hmark : highWater g' = highWater g + 1 := by rw [highWater, hseq, Option.getD_some, hnext]
    have hlast : g'.outbox.rows = g.outbox.rows ++ [(nextOutboxSequence g, row)] := by
      rw [hout]
      refine Table.insertRows_of_gt fun x hx => ?_
      have hle := hgrows.wf.rows x.1 x.2 (Table.mem_rows.mp hx)
      omega
    refine ⟨⟨added ++ [(nextOutboxSequence g, row)], ?_, ?_⟩, ⟨fun k r hk => ?_, fun c r hc => ?_⟩,
      by omega, ?_⟩
    · rw [hlast, hrows, List.append_assoc]
    · intro x hx
      rcases List.mem_append.mp hx with hx | hx
      · exact hnew x hx
      · rw [List.mem_singleton.mp hx, hnext]
        omega
    · rw [hout, Table.get_insert] at hk
      split_ifs at hk with he
      · omega
      · have hle := hgrows.wf.rows k r hk
        omega
    · rw [hconsumers] at hc
      have hle := hgrows.wf.consumers c r hc
      omega
    · rw [hconsumers, hgrows.consumers]

/-- Only a sync touches the outbox and its mark. -/
theorem change_outbox {s s' : Dirty} (h : Change R v gen mode s s') :
    (s'.1.outbox = s.1.outbox ∧ s'.1.sqliteSequence = s.1.sqliteSequence ∧
      s'.1.consumers = s.1.consumers) ∨
    ∃ id n, syncCatalogProjection s.1 id gen mode = .ok (s'.1, n) := by
  cases h with
  | upsertObject object hv h =>
    simp only [Graph.upsertObject, guard_ok] at h
    obtain rfl := Except.ok.inj h.2.2
    exact Or.inl ⟨rfl, rfl, rfl⟩
  | @dropLink g A id row h =>
    rcases dropLink_cases g id row.objectKey with ⟨he, -⟩ | ⟨he, -⟩ <;> rw [he] <;>
      exact Or.inl ⟨rfl, rfl, rfl⟩
  | @enqueueRefresh g A object h =>
    refine Or.inl ⟨?_, ?_, ?_⟩ <;> rw [enqueueRefresh_frame]
  | sync h => exact Or.inr ⟨_, _, h⟩
  | upsertVolume | transition | setGeneration | putLink | tombstone | advancePathJob
  | advanceVolumeJob | putSession | eraseSession | putCheckpoint | widen =>
    exact Or.inl ⟨rfl, rfl, rfl⟩

theorem outboxGrows_of_change {g₀ : FilesystemGraph} {s s' : Dirty} (h : Change R v gen mode s s')
    (hgrows : OutboxGrows g₀ s.1) : OutboxGrows g₀ s'.1 := by
  rcases change_outbox h with ⟨hout, hseq, hcons⟩ | ⟨id, n, h⟩
  · have hsame : highWater s'.1 = highWater s.1 := by rw [highWater, hseq]; rfl
    refine ⟨by rw [hout]; exact hgrows.rows, ⟨?_, ?_⟩, by rw [hsame]; exact hgrows.mono, ?_⟩
    · rw [hout, hsame]
      exact hgrows.wf.rows
    · rw [hcons, hsame]
      exact hgrows.wf.consumers
    · rw [hcons, hgrows.consumers]
  · exact outboxGrows_sync hgrows h

theorem outboxGrows_of_transacts (h : Transacts R mode g g') (hwf : OutboxWF g) :
    OutboxGrows g g' := by
  obtain ⟨v, gen, -, -, hch⟩ := h
  exact Changes.induct (P := fun s => OutboxGrows g s.1) (fun _ _ => outboxGrows_of_change) hch
    (.refl hwf)

/-- What a transaction and the rows it appends do to one document: nothing, or
the last of the rows describes what is stored. -/
def FollowsLog (g g' : FilesystemGraph) (E : DocumentId → Option CatalogDocument) (since : Nat)
    (d : DocumentId) : Prop :=
  (g'.catalog.get d = g.catalog.get d ∧ replay E (rowWrites (outboxAfter g' since)) d = E d) ∨
    g'.catalog.get d = (replay E (rowWrites (outboxAfter g' since)) d).map compactRow

theorem followsLog_of_transacts {E : DocumentId → Option CatalogDocument}
    (h : Transacts R .durable g g') (hwf : OutboxWF g) (d : DocumentId) :
    FollowsLog g g' E (highWater g) d := by
  obtain ⟨v, gen, -, -, hch⟩ := h
  have hstep : ∀ s s', Change R v gen .durable s s' →
      (OutboxGrows g s.1 ∧ ∀ d, FollowsLog g s.1 E (highWater g) d) →
      OutboxGrows g s'.1 ∧ ∀ d, FollowsLog g s'.1 E (highWater g) d := by
    rintro s s' hchange ⟨hgrows, hlog⟩
    refine ⟨outboxGrows_of_change hchange hgrows, ?_⟩
    cases hchange with
    | upsertObject object hv h =>
      simp only [Graph.upsertObject, guard_ok] at h
      obtain rfl := Except.ok.inj h.2.2
      exact hlog
    | @dropLink g A id row h =>
      rcases dropLink_cases g id row.objectKey with ⟨he, -⟩ | ⟨he, -⟩ <;> rw [he] <;> exact hlog
    | @enqueueRefresh g A object h => rw [enqueueRefresh_frame]; exact hlog
    | @sync g₁ g₂ A id n h =>
      rcases syncCatalogProjection_durable h with ⟨hout, hsame⟩ | ⟨m, hm, hout, hset⟩
      · simp only [FollowsLog, hsame, outboxAfter, Table.select, hout]
        exact hlog
      · have hpast : highWater g < nextOutboxSequence g₁ := by
          have hmono : highWater g ≤ highWater g₁ := hgrows.mono
          rw [nextOutboxSequence_eq hgrows.wf]
          exact Nat.lt_succ_of_le hmono
        have hwrites : rowWrites (outboxAfter g₂ (highWater g)) =
            rowWrites (outboxAfter g₁ (highWater g)) ++ [m.write] := by
          simp [rowWrites, outboxAfter, Table.select, hout, List.filter_append, hpast]
        intro d
        rw [FollowsLog, hset, hwrites, replay_concat, IndexMutation.write, hm]
        by_cases hd : d = documentIdForLink id
        · rw [if_pos hd, hd, Function.update_self]
          exact Or.inr rfl
        · rw [if_neg hd, Function.update_of_ne hd]
          exact hlog d
    | upsertVolume | transition | setGeneration | putLink | tombstone | advancePathJob
    | advanceVolumeJob | putSession | eraseSession | putCheckpoint | widen => exact hlog
  refine (Changes.induct hstep hch ⟨.refl hwf, fun d => Or.inl ⟨rfl, ?_⟩⟩).2 d
  rw [outboxAfter_highWater hwf]
  rfl

/-- A rebuildable transaction leaves the outbox alone. -/
theorem outbox_of_rebuildable (h : Transacts R .rebuildable g g') :
    g'.outbox = g.outbox ∧ g'.sqliteSequence = g.sqliteSequence := by
  obtain ⟨v, gen, -, -, hch⟩ := h
  refine Changes.induct (P := fun s => s.1.outbox = g.outbox ∧ s.1.sqliteSequence = g.sqliteSequence)
    (fun s s' hchange hsame => ?_) hch ⟨rfl, rfl⟩
  cases hchange with
  | upsertObject object hv h =>
    simp only [Graph.upsertObject, guard_ok] at h
    obtain rfl := Except.ok.inj h.2.2
    exact hsame
  | @dropLink g A id row h =>
    rcases dropLink_cases g id row.objectKey with ⟨he, -⟩ | ⟨he, -⟩ <;> rw [he] <;> exact hsame
  | @enqueueRefresh g A object h => rw [enqueueRefresh_frame]; exact hsame
  | @sync g₁ g₂ A id n h =>
    rcases syncCatalogProjection_ok h with ⟨-, h⟩ | ⟨_, _, -, -, -, rfl⟩ | ⟨_, document, -, -, -, h⟩
    · obtain rfl : _ = g₂ := congrArg Prod.fst h
      unfold deleteCatalogProjection
      cases g₁.catalog.get (documentIdForLink id) <;> exact hsame
    · exact hsame
    · obtain rfl : _ = g₂ := congrArg Prod.fst h
      exact hsame
  | upsertVolume | transition | setGeneration | putLink | tombstone | advancePathJob
  | advanceVolumeJob | putSession | eraseSession | putCheckpoint | widen => exact hsame

/-- The write is no bookkeeping of the consumer. -/
def GraphOp.SparesConsumer (consumer : String) : GraphOp → Prop
  | .acknowledgeProjection id _ _ | .resetProjectionConsumer id => id ≠ consumer
  | _ => True

/-- What a write means to a registered consumer: its row stays, what it has
still to read stays, and new rows follow. -/
structure KeepsTail (consumer : String) (row : ConsumerRow) (g g' : FilesystemGraph) : Prop where
  checkpoint : projectorCheckpoint g' consumer = some row
  tail : outboxAfter g' row.lastSequence =
    outboxAfter g row.lastSequence ++ outboxAfter g' (highWater g)
  mono : highWater g ≤ highWater g'

section Consumers

variable {consumer : String} {row : ConsumerRow}

omit [CaseMapping] in
theorem OutboxGrows.keepsTail (h : OutboxGrows g g') (hout : OutboxWF g)
    (hrow : projectorCheckpoint g consumer = some row) : KeepsTail consumer row g g' := by
  refine ⟨?_, h.outboxAfter hout (hout.consumers consumer row hrow), h.mono⟩
  rw [projectorCheckpoint, h.consumers]
  exact hrow

omit [CaseMapping] in
/-- A change of other consumers. -/
theorem keepsTail_consumers {consumers : Table String ConsumerRow} (hout : OutboxWF g)
    (hrow : consumers.get consumer = some row) :
    KeepsTail consumer row g { g with consumers := consumers } := by
  refine ⟨hrow, ?_, le_rfl⟩
  change outboxAfter g _ = outboxAfter g _ ++ outboxAfter g (highWater g)
  rw [outboxAfter_highWater hout, List.append_nil]

omit [CaseMapping] in
theorem OutboxWF.deleteWhere (h : OutboxWF g) (p : Nat → OutboxRow → Bool) :
    OutboxWF { g with outbox := g.outbox.deleteWhere p } :=
  ⟨fun n r hr => h.rows n r ((Table.get_deleteWhere _ _ _ _).mp hr).1, h.consumers⟩

omit [CaseMapping] in
theorem consumerMinimum_le {minimum : Nat} (hrow : projectorCheckpoint g consumer = some row)
    (h : consumerMinimum g = some minimum) : minimum ≤ row.lastSequence := by
  rw [consumerMinimum, List.min?_eq_some_iff] at h
  exact h.2 _ (List.mem_map.mpr ⟨(consumer, row), Table.mem_rows.mpr hrow, rfl⟩)

/-- Rows that may be pruned: the oldest ones, none of them unread by a consumer. -/
structure Prunes (g : FilesystemGraph) (p : Nat → OutboxRow → Bool) : Prop where
  consumed : ∀ id row n r, projectorCheckpoint g id = some row → p n r = true →
    n ≤ row.lastSequence
  oldest : ∀ n m r r', g.outbox.get n = some r → g.outbox.get m = some r' → n ≤ m →
    p m r' = true → p n r = true

omit [CaseMapping] in
/-- Of two rows in order the earlier one is among the first `k` if the later is. -/
theorem mem_take_of_le {l : List (Nat × OutboxRow)} (hsorted : l.Pairwise fun a b => a.1 < b.1)
    {k : Nat} {x y : Nat × OutboxRow} (hx : x ∈ l) (hy : y ∈ l.take k) (hle : x.1 ≤ y.1) :
    x ∈ l.take k := by
  rw [← List.take_append_drop k l] at hsorted hx
  rcases List.mem_append.mp hx with hx | hx
  · exact hx
  · have hlt := (List.pairwise_append.mp hsorted).2.2 y hy x hx
    omega

omit [CaseMapping] in
theorem prunes_consumed {minimum : Nat} (h : consumerMinimum g = some minimum) :
    Prunes g fun sequence _ => decide (sequence ≤ minimum) := by
  refine ⟨fun id row n r hrow hn => ?_, fun n m r r' _ _ hnm hm => ?_⟩
  · exact (of_decide_eq_true hn).trans (consumerMinimum_le hrow h)
  · exact decide_eq_true (hnm.trans (of_decide_eq_true hm))

omit [CaseMapping] in
theorem prunes_bounded {allow : Bool} {through k : Nat} (h : safeThrough g allow = some through) :
    Prunes g fun sequence _ => (((g.outbox.select fun sequence _ =>
      decide (sequence ≤ through)).take k).map (·.1)).contains sequence := by
  refine ⟨fun id row n r hrow hn => ?_, fun n m r r' hn _ hnm hm => ?_⟩
  · have hsafe : through ≤ row.lastSequence := by
      rw [safeThrough] at h
      cases hmin : consumerMinimum g with
      | none =>
        rw [consumerMinimum, List.min?_eq_none_iff, List.map_eq_nil_iff] at hmin
        have hmem := Table.mem_rows.mpr hrow
        rw [hmin] at hmem
        cases hmem
      | some minimum =>
        rw [hmin] at h
        exact Option.some.inj h ▸ consumerMinimum_le hrow hmin
    rw [List.contains_iff_mem] at hn
    obtain ⟨x, hx, rfl⟩ := List.mem_map.mp hn
    exact (of_decide_eq_true (Table.mem_select.mp (List.mem_of_mem_take hx)).2).trans hsafe
  · rw [List.contains_iff_mem] at hm ⊢
    obtain ⟨y, hy, rfl⟩ := List.mem_map.mp hm
    have hthrough := of_decide_eq_true (Table.mem_select.mp (List.mem_of_mem_take hy)).2
    have hx : (n, r) ∈ g.outbox.select fun sequence _ => decide (sequence ≤ through) :=
      Table.mem_select.mpr ⟨hn, decide_eq_true (hnm.trans hthrough)⟩
    exact List.mem_map_of_mem (mem_take_of_le (Table.select_sorted _ _) hx hy hnm)

omit [CaseMapping] in
theorem pruneConsumedOutbox_prunes (g : FilesystemGraph) : (pruneConsumedOutbox g).1 = g ∨
    ∃ p, Prunes g p ∧ (pruneConsumedOutbox g).1 = { g with outbox := g.outbox.deleteWhere p } := by
  unfold pruneConsumedOutbox
  cases hmin : consumerMinimum g with
  | none => exact Or.inl rfl
  | some minimum => exact Or.inr ⟨_, prunes_consumed hmin, rfl⟩

omit [CaseMapping] in
theorem pruneRebuildableOutboxBounded_prunes {k : Nat} {allow : Bool}
    {summary : OutboxMaintenanceSummary}
    (h : pruneRebuildableOutboxBounded g k allow = .ok (g', summary)) :
    g' = g ∨ ∃ p, Prunes g p ∧ g' = { g with outbox := g.outbox.deleteWhere p } := by
  rw [pruneRebuildableOutboxBounded, guard_ok] at h
  cases hthrough : safeThrough g allow with
  | none =>
    rw [hthrough] at h
    obtain ⟨rfl, -⟩ := Prod.mk.inj (Except.ok.inj h.2)
    exact Or.inl rfl
  | some through =>
    rw [hthrough] at h
    obtain ⟨rfl, -⟩ := Prod.mk.inj (Except.ok.inj h.2)
    exact Or.inr ⟨_, prunes_bounded hthrough, rfl⟩

/-- What a write is to the outbox and its consumers. -/
theorem run_outbox {op : GraphOp} (hwf : WellFormed g) (h : op.run g = .ok g') :
    (∃ mode, Transacts True mode g g') ∨ g' = g ∨
      (∃ p, Prunes g p ∧ g' = { g with outbox := g.outbox.deleteWhere p }) ∨
      (∃ id sequence generation, op = .acknowledgeProjection id sequence generation) ∨
      ∃ id, op = .resetProjectionConsumer id := by
  by_cases hdurable : op.Durable
  · exact Or.inl ⟨_, hdurable.transacts (Or.inl trivial) hwf h⟩
  · cases op with
    | applyRebuildableBatch batch =>
      obtain ⟨summary, h⟩ := map_fst_ok.mp h
      exact Or.inl ⟨_, applyBatchWithOutboxMode_transacts (Or.inl trivial) h⟩
    | acknowledgeProjection id sequence generation =>
      exact Or.inr (Or.inr (Or.inr (Or.inl ⟨id, sequence, generation, rfl⟩)))
    | resetProjectionConsumer id => exact Or.inr (Or.inr (Or.inr (Or.inr ⟨id, rfl⟩)))
    | pruneConsumedOutbox =>
      obtain rfl := Except.ok.inj h
      exact (pruneConsumedOutbox_prunes g).elim (fun heq => Or.inr (Or.inl heq))
        fun hp => Or.inr (Or.inr (Or.inl hp))
    | pruneRebuildableOutboxBounded k allow =>
      obtain ⟨summary, h⟩ := map_fst_ok.mp h
      exact (pruneRebuildableOutboxBounded_prunes h).elim (fun heq => Or.inr (Or.inl heq))
        fun hp => Or.inr (Or.inr (Or.inl hp))
    | completeRefreshJob id =>
      obtain rfl := Except.ok.inj h
      have hjob : Transacts True .durable g (completeRefreshJob g id).1 :=
        completeRefreshJob_transacts id
      exact Or.inl ⟨_, hjob⟩
    | compactLegacyDesiredPayloadsBounded k =>
      obtain ⟨⟨n, more⟩, h⟩ := map_fst_ok.mp h
      exact Or.inr (Or.inl (compactLegacyDesiredPayloadsBounded_eq hwf h))
    | applyBatch | beginObservationScan | applyObservationScanPage | stageObservationCheckpoint
    | finalizeObservationScan | refreshProjectionPaths | refreshVolumeProjection =>
      exact absurd trivial hdurable

omit [CaseMapping] in
theorem OutboxWF.acknowledgeProjection (hout : OutboxWF g) {id : String} {sequence generation : Nat}
    (h : Graph.acknowledgeProjection g id sequence generation = .ok g') : OutboxWF g' := by
  obtain ⟨hseq, -, -, -, rfl⟩ := acknowledgeProjection_ok.mp h
  rw [latestOutboxSequence_eq hout] at hseq
  refine ⟨hout.rows, fun c r hc => ?_⟩
  rw [Table.get_insert] at hc
  split_ifs at hc
  · obtain rfl := Option.some.inj hc
    exact hseq
  · exact hout.consumers c r hc

omit [CaseMapping] in
theorem OutboxWF.resetProjectionConsumer (hout : OutboxWF g) (id : String) :
    OutboxWF (Graph.resetProjectionConsumer g id).1 := by
  refine ⟨hout.rows, fun c r hc => ?_⟩
  simp only [Graph.resetProjectionConsumer, Table.get_erase] at hc
  split_ifs at hc
  exact hout.consumers c r hc

/-- Sequences stay below the mark in every write. -/
theorem outboxWF_of_run {op : GraphOp} (hwf : WellFormed g) (hout : OutboxWF g)
    (h : op.run g = .ok g') : OutboxWF g' := by
  rcases run_outbox hwf h with
    ⟨mode, ht⟩ | rfl | ⟨p, -, rfl⟩ | ⟨id, sequence, generation, rfl⟩ | ⟨id, rfl⟩
  · exact (outboxGrows_of_transacts ht hout).wf
  · exact hout
  · exact hout.deleteWhere p
  · exact hout.acknowledgeProjection h
  · obtain rfl := Except.ok.inj h
    exact hout.resetProjectionConsumer id

theorem Reachable.outboxWF (h : Reachable g) : OutboxWF g := by
  have hboth : WellFormed g ∧ OutboxWF g := by
    induction h with
    | refl => exact ⟨wellFormed_empty, outboxWF_empty⟩
    | tail _ hstep ih =>
      obtain ⟨op, -, hrun⟩ := hstep
      exact ⟨wellFormed_of_run ih.1 hrun, outboxWF_of_run ih.1 ih.2 hrun⟩
  exact hboth.2

omit [CaseMapping] in
/-- Pruning at or before the consumer's position. -/
theorem keepsTail_prune {p : Nat → OutboxRow → Bool} (hout : OutboxWF g)
    (hrow : projectorCheckpoint g consumer = some row)
    (hp : ∀ n r, p n r = true → n ≤ row.lastSequence) :
    KeepsTail consumer row g { g with outbox := g.outbox.deleteWhere p } := by
  have hnil : outboxAfter { g with outbox := g.outbox.deleteWhere p } (highWater g) = [] :=
    outboxAfter_highWater (hout.deleteWhere p)
  refine ⟨hrow, ?_, le_rfl⟩
  rw [hnil, List.append_nil]
  simp only [outboxAfter, Table.select, Table.deleteWhere, List.filter_filter]
  refine List.filter_congr fun x _ => ?_
  by_cases hx : row.lastSequence < x.1
  · have hnot : p x.1 x.2 = false := by
      cases hpx : p x.1 x.2 with
      | false => rfl
      | true => exact absurd (hp _ _ hpx) (not_le.mpr hx)
    simp [hx, hnot]
  · simp [hx]

/-- Only an acknowledgement or a reset of the consumer moves its row. -/
theorem checkpoint_of_run {op : GraphOp} (hwf : WellFormed g) (hout : OutboxWF g)
    (hop : op.SparesConsumer consumer) (h : op.run g = .ok g') :
    projectorCheckpoint g' consumer = projectorCheckpoint g consumer := by
  rcases run_outbox hwf h with
    ⟨mode, ht⟩ | rfl | ⟨p, -, rfl⟩ | ⟨id, sequence, generation, rfl⟩ | ⟨id, rfl⟩
  · rw [projectorCheckpoint, (outboxGrows_of_transacts ht hout).consumers]
    rfl
  · rfl
  · rfl
  · obtain ⟨-, -, -, -, rfl⟩ := acknowledgeProjection_ok.mp h
    exact Table.get_insert_ne _ _ (Ne.symm hop)
  · obtain rfl := Except.ok.inj h
    exact (Table.get_erase ..).trans (if_neg (Ne.symm hop))

theorem keepsTail_of_run {op : GraphOp} (hwf : WellFormed g) (hout : OutboxWF g)
    (hop : op.SparesConsumer consumer) (hrow : projectorCheckpoint g consumer = some row)
    (h : op.run g = .ok g') : KeepsTail consumer row g g' := by
  rcases run_outbox hwf h with
    ⟨mode, ht⟩ | rfl | ⟨p, hp, rfl⟩ | ⟨id, sequence, generation, rfl⟩ | ⟨id, rfl⟩
  · exact (outboxGrows_of_transacts ht hout).keepsTail hout hrow
  · exact (OutboxGrows.refl hout).keepsTail hout hrow
  · exact keepsTail_prune hout hrow fun n r => hp.consumed consumer row n r hrow
  · obtain ⟨-, -, -, -, rfl⟩ := acknowledgeProjection_ok.mp h
    exact keepsTail_consumers hout ((Table.get_insert_ne _ _ (Ne.symm hop)).trans hrow)
  · obtain rfl := Except.ok.inj h
    refine keepsTail_consumers hout ?_
    rw [Table.get_erase, if_neg (Ne.symm hop)]
    exact hrow

end Consumers

end Transactions

end LocalSearch.Graph
