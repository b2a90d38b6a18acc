import LocalSearch.Content.Counting

/-!
# Completion of a candidate

On one graph, with files that stay, every turn passes at least one document, and
the counter is the number of readable ones so far. Whether the candidate is
complete is only noticed on an empty page, behind the check of the counter
against `max_documents`: a catalog with exactly that many readable documents is
filled and never activated.
-/
namespace LocalSearch.Content

set_option autoImplicit false

open Core Lib Graph Catalog

section Completion

variable [CaseMapping]

/-- The document's text gets into a candidate. -/
def Readable (sources : Sources) (policy : ContentIndexPolicy) (document : CatalogDocument) : Bool :=
  (extractText sources document policy).isOk

/-- The call works on these, and neither dies nor reaches a limit of index bytes
or free disk. -/
structure ResumeCall.Undisturbed (call : ResumeCall) (graph : FilesystemGraph) (sources : Sources)
    (policy : ContentIndexPolicy) (limits : ContentGenerationLimits) : Prop where
  sameGraph : call.graph = graph
  sameSources : call.sources = sources
  samePolicy : call.policy = policy
  sameLimits : call.limits = limits
  steady : ∀ n, call.crashAfterCommit n = false
  room : ∀ n record, limitBefore limits (call.disk n) record = none ∨
    limitBefore limits (call.disk n) record = some .documents
  roomAfter : ∀ n after size page, size ≤ limits.batchDocuments →
    desiredCatalogPage graph after size = .ok page →
    limitAfter limits (call.disk n) (declaredBytes policy page) page.length = none

/-- The manager after so many calls on an empty one. -/
def managerAfter (contentHash : String → String) (calls : Nat → ResumeCall) :
    Nat → ContentGenerationManager
  | 0 => .empty
  | n + 1 => ((managerAfter contentHash calls n).resumeInitialGeneration contentHash (calls n)).1

/-- The call with this number returns `complete = true`. -/
def Completes (contentHash : String → String) (calls : Nat → ResumeCall) (n : Nat) : Prop :=
  ∃ summary, ((managerAfter contentHash calls n).resumeInitialGeneration contentHash (calls n)).2 =
    .ok summary ∧ summary.complete = true

/-- The active generation holds exactly these documents. -/
def ActiveHolds (manager : ContentGenerationManager) (documents : List CatalogDocument) : Prop :=
  ∃ id generation, manager.activePointer = some id ∧ manager.generations.get id = some generation ∧
    generation.record.state = .active ∧ generation.index.map (·.document) = documents

variable {contentHash : String → String} {sources : Sources} {policy : ContentIndexPolicy}
  {limits : ContentGenerationLimits} {graph : FilesystemGraph} {call : ResumeCall}

/-- A document without an entry is skipped or added. -/
theorem syncOne_none (pending : Entries) (document : CatalogDocument) :
    (Readable sources policy document = false ∧ ∃ reason,
      syncOne sources contentHash policy none pending document = (pending, .skipped reason false)) ∨
    (Readable sources policy document = true ∧ ∃ entry : ContentEntry, entry.document = document ∧
      syncOne sources contentHash policy none pending document =
        (deleteTerm pending document.identity.documentId ++ [entry], .added)) := by
  unfold Readable extractText syncOne
  dsimp only
  cases prepareSource sources document policy with
  | error reason => exact .inl ⟨rfl, reason, rfl⟩
  | ok prepared =>
    dsimp only
    rw [ok_bind, if_neg (by simp), if_neg (by simp)]
    cases readText prepared policy with
    | error reason => exact .inl ⟨rfl, reason, rfl⟩
    | ok text => exact .inr ⟨rfl, ⟨document, text, contentHash text⟩, rfl, if_neg (by simp)⟩

/-- Documents without entries are all taken, and the readable ones are added. -/
theorem upsertLoop_fresh {committed : Entries} {seen : List DocumentId} {pending : Entries}
    {page : List CatalogDocument} (hpage : (page.map (·.identity.documentId)).Nodup)
    (hseen : ∀ document ∈ page, document.identity.documentId ∉ seen)
    (hcommitted : ∀ document ∈ page, storedDocument committed document.identity.documentId = none)
    (hpending : ∀ document ∈ page, storedDocument pending document.identity.documentId = none) :
    ∃ pending' seen' outcomes, upsertLoop sources contentHash policy committed seen pending page =
        .ok (pending', seen', outcomes) ∧
      pending'.map (·.document) = pending.map (·.document) ++ page.filter (Readable sources policy) ∧
      projectedDocuments outcomes = (page.filter (Readable sources policy)).length := by
  induction page generalizing seen pending with
  | nil => exact ⟨pending, seen, [], rfl, (List.append_nil _).symm, rfl⟩
  | cons document rest ih =>
    obtain ⟨hhead, hrest⟩ := List.nodup_cons.mp hpage
    obtain ⟨hunseen, hunseens⟩ := List.forall_mem_cons.mp hseen
    obtain ⟨hnone, hcommitteds⟩ := List.forall_mem_cons.mp hcommitted
    obtain ⟨hfree, hpendings⟩ := List.forall_mem_cons.mp hpending
    have hothers : ∀ d ∈ rest, d.identity.documentId ≠ document.identity.documentId := fun d hd heq =>
      hhead (List.mem_map.mpr ⟨d, hd, heq⟩)
    have hseen' : ∀ d ∈ rest, d.identity.documentId ∉ document.identity.documentId :: seen :=
      fun d hd => List.not_mem_cons_of_ne_of_not_mem (hothers d hd) (hunseens d hd)
    rw [upsertLoop, hnone]
    dsimp only
    rw [if_neg hunseen]
    rcases @syncOne_none _ contentHash sources policy pending document with
      ⟨hreadable, reason, hsync⟩ | ⟨hreadable, entry, rfl, hsync⟩
    · obtain ⟨pending', seen', outcomes, hloop, hdocuments, hprojected⟩ :=
        ih hrest hseen' hcommitteds hpendings
      refine ⟨pending', seen', .skipped reason false :: outcomes, ?_, ?_, ?_⟩
      · rw [hsync]
        dsimp only
        rw [hloop]
        rfl
      · rw [List.filter_cons_of_neg (by rw [hreadable]; exact Bool.false_ne_true)]
        exact hdocuments
      · rw [List.filter_cons_of_neg (by rw [hreadable]; exact Bool.false_ne_true), ← hprojected]
        unfold projectedDocuments
        rw [List.count_cons_of_ne (by simp), List.count_cons_of_ne (by simp)]
    · have hsame : deleteTerm pending entry.document.identity.documentId = pending :=
        remove_eq_self hfree
      rw [hsame] at hsync
      have hnext : ∀ d ∈ rest, storedDocument (pending ++ [entry]) d.identity.documentId = none := by
        intro d hd
        have hlookup : storedDocument (pending ++ [entry]) =
            Function.update (storedDocument pending) entry.documentId (some entry) :=
          lookup_concat hfree
        have hne : d.identity.documentId ≠ entry.documentId := hothers d hd
        rw [hlookup, Function.update_of_ne hne]
        exact hpendings d hd
      obtain ⟨pending', seen', outcomes, hloop, hdocuments, hprojected⟩ :=
        ih hrest hseen' hcommitteds hnext
      refine ⟨pending', seen', .added :: outcomes, ?_, ?_, ?_⟩
      · rw [hsync]
        dsimp only
        rw [hloop]
        rfl
      · rw [List.filter_cons_of_pos hreadable, hdocuments, List.map_append, List.append_assoc]
        rfl
      · rw [List.filter_cons_of_pos hreadable, List.length_cons, ← hprojected]
        unfold projectedDocuments
        rw [List.count_cons_self, List.count_cons_of_ne (by simp)]
        omega

theorem applyDelta_fresh {committed : Entries} {page : List CatalogDocument}
    (hpage : (page.map (·.identity.documentId)).Nodup)
    (hfresh : ∀ document ∈ page, storedDocument committed document.identity.documentId = none) :
    ∃ index outcomes, applyDelta sources contentHash policy committed page [] = .ok (index, outcomes) ∧
      index.map (·.document) = committed.map (·.document) ++ page.filter (Readable sources policy) ∧
      projectedDocuments outcomes = (page.filter (Readable sources policy)).length := by
  obtain ⟨index, seen, outcomes, hloop, hdocuments, hprojected⟩ :=
    @upsertLoop_fresh _ contentHash sources policy committed [] committed page
      hpage (fun _ _ => List.not_mem_nil) hfresh hfresh
  refine ⟨index, outcomes ++ [], ?_, hdocuments, by rw [List.append_nil]; exact hprojected⟩
  unfold applyDelta
  rw [hloop]
  rfl

/-- The candidate has taken these documents. -/
structure Filled (sources : Sources) (policy : ContentIndexPolicy) (taken : List CatalogDocument)
    (generation : Generation) : Prop where
  state : generation.record.state = .building
  roots : generation.record.rootIds = policy.roots
  cursor : generation.record.lastCheckpoint = taken.getLast?.map (·.identity.documentId)
  index : generation.index.map (·.document) = taken.filter (Readable sources policy)
  projected : generation.record.documentsProjected = (taken.filter (Readable sources policy)).length

variable {taken rest : List CatalogDocument} {generation : Generation}

/-- The documents behind the cursor have no entries, and their ids ascend. -/
theorem Filled.fresh (h : Filled sources policy taken generation) (hgraph : Reachable graph)
    (hdocuments : desiredCatalogDocuments graph = .ok (taken ++ rest)) :
    (rest.map (·.identity.documentId)).Nodup ∧
      ∀ document ∈ rest, storedDocument generation.index document.identity.documentId = none := by
  obtain ⟨documents, hall, hsorted, -⟩ := desiredCatalogDocuments_ok hgraph.wellFormed
  obtain rfl := Except.ok.inj (hall.symm.trans hdocuments)
  obtain ⟨-, hrest, hcross⟩ := List.pairwise_append.mp hsorted
  refine ⟨List.pairwise_map.mpr (hrest.imp ne_of_lt), fun document hin => ?_⟩
  refine lookup_eq_none.mpr fun entry hentry hid => ?_
  have hmem : entry.document ∈ taken.filter (Readable sources policy) :=
    h.index ▸ List.mem_map_of_mem hentry
  exact ne_of_lt (hcross _ (List.mem_of_mem_filter hmem) document hin) hid

/-- A turn stops at the number of documents, notices that nothing is left, or
takes the next page. -/
theorem turn_fills (hcall : call.Undisturbed graph sources policy limits) (hgraph : Reachable graph)
    (hbatch : 0 < limits.batchDocuments)
    (hdocuments : desiredCatalogDocuments graph = .ok (taken ++ rest))
    (h : Filled sources policy taken generation) (n : Nat) :
    (limits.maxDocuments ≤ generation.record.documentsProjected ∧
      call.turn contentHash n generation = .limited .documents) ∨
    (generation.record.documentsProjected < limits.maxDocuments ∧ rest = [] ∧
      call.turn contentHash n generation = .noPage) ∨
    ∃ page rest' generation', page ≠ [] ∧ rest = page ++ rest' ∧
      call.turn contentHash n generation = .recorded generation' ∧
      Filled sources policy (taken ++ page) generation' := by
  obtain ⟨rfl, rfl, rfl, rfl, hsteady, hroom, hroomAfter⟩ := hcall
  have hspec := turn_spec contentHash call n generation
  have hsize : pageLimit call.limits generation.record ≤ call.limits.batchDocuments := Nat.min_le_right _ _
  have hpage : call.page generation =
      .ok (rest.take (pageLimit call.limits generation.record)) := by
    unfold ResumeCall.page
    rw [h.cursor]
    exact desiredCatalogPage_rest hgraph.wellFormed hdocuments _
  by_cases hmax : call.limits.maxDocuments ≤ generation.record.documentsProjected
  · refine .inl ⟨hmax, ?_⟩
    have hbefore : limitBefore call.limits (call.disk n) generation.record = some .documents := by
      refine (hroom n generation.record).resolve_left fun hnone => ?_
      unfold limitBefore at hnone
      rw [if_pos hmax] at hnone
      split_ifs at hnone
    unfold ResumeCall.turn
    dsimp only
    rw [hbefore]
  have hbefore : limitBefore call.limits (call.disk n) generation.record = none := by
    refine (hroom n generation.record).resolve_right fun hsome => ?_
    unfold limitBefore at hsome
    rw [if_neg hmax] at hsome
    split_ifs at hsome <;> cases hsome
  have hpositive : 0 < pageLimit call.limits generation.record := by
    unfold pageLimit
    omega
  obtain ⟨hnodup, hfresh⟩ := h.fresh hgraph hdocuments
  obtain ⟨index, outcomes, hdelta, hindex, hprojected⟩ :=
    @applyDelta_fresh _ contentHash call.sources call.policy generation.index
      (rest.take (pageLimit call.limits generation.record))
      (hnodup.sublist ((List.take_sublist _ _).map _))
      fun document hin => hfresh document (List.mem_of_mem_take hin)
  have hafter := hroomAfter n _ _ _ hsize hpage
  refine .inr ?_
  generalize hturn : call.turn contentHash n generation = ended at hspec ⊢
  cases hspec with
  | limited hlimited => cases hbefore.symm.trans hlimited
  | unreadable _ hunreadable => cases hpage.symm.trans hunreadable
  | noPage _ hnoPage =>
    refine .inl ⟨Nat.lt_of_not_le hmax, ?_, rfl⟩
    have hempty := Except.ok.inj (hpage.symm.trans hnoPage)
    rcases List.take_eq_nil_iff.mp hempty with hzero | hrest
    · omega
    · exact hrest
  | full _ hfull hlimited =>
    obtain rfl := Except.ok.inj (hpage.symm.trans hfull)
    cases hafter.symm.trans hlimited
  | refused _ hread hrefused =>
    obtain rfl := Except.ok.inj (hpage.symm.trans hread)
    cases hdelta.symm.trans hrefused
  | crashed _ _ hcrash => exact absurd hcrash (by rw [hsteady]; nofun)
  | recorded _ hread hnonempty hrecorded =>
    obtain rfl := Except.ok.inj (hpage.symm.trans hread)
    obtain ⟨rfl, rfl⟩ := Prod.mk.inj (Except.ok.inj (hdelta.symm.trans hrecorded))
    refine .inr ⟨_, rest.drop (pageLimit call.limits generation.record), _, hnonempty,
      (List.take_append_drop _ _).symm, rfl, h.state, h.roots, ?_, ?_, ?_⟩
    · obtain ⟨last, hlast⟩ := Option.ne_none_iff_exists'.mp
        (mt List.getLast?_eq_none_iff.mp hnonempty)
      show (List.getLast? _).map _ = _
      rw [List.getLast?_append, hlast]
      rfl
    · show index.map (·.document) = _
      rw [hindex, h.index, List.filter_append]
    · show generation.record.documentsProjected + projectedDocuments outcomes = _
      rw [hprojected, h.projected, List.filter_append, List.length_append]

/-- How the turns of a call end: with everything taken below the limit, or with
some of the rest taken, at least one document a turn below the limit. -/
theorem turns_fill (hcall : call.Undisturbed graph sources policy limits) (hgraph : Reachable graph)
    (hbatch : 0 < limits.batchDocuments)
    (hdocuments : desiredCatalogDocuments graph = .ok (taken ++ rest))
    (h : Filled sources policy taken generation) (n : Nat) :
    (∃ generation', call.turns contentHash n generation = (generation', .complete) ∧
      generation'.record.state = .active ∧
      generation'.index.map (·.document) = (taken ++ rest).filter (Readable sources policy) ∧
      ((taken ++ rest).filter (Readable sources policy)).length < limits.maxDocuments) ∨
    ∃ generation' limit taken' rest', call.turns contentHash n generation = (generation', .paused limit) ∧
      taken' ++ rest' = taken ++ rest ∧ Filled sources policy taken' generation' ∧
      (((taken ++ rest).filter (Readable sources policy)).length < limits.maxDocuments →
        rest'.length + n ≤ rest.length) := by
  induction n generalizing taken rest generation with
  | zero =>
    exact .inr ⟨_, _, taken, rest, rfl, rfl, ⟨h.state, h.roots, h.cursor, h.index, h.projected⟩,
      fun _ => Nat.le_refl _⟩
  | succ n ih =>
    unfold ResumeCall.turns
    rcases @turn_fills _ contentHash _ _ _ _ _ _ _ _ hcall hgraph hbatch hdocuments h n with
      ⟨hmax, hturn⟩ | ⟨hmax, rfl, hturn⟩ | ⟨page, rest', generation', hnonempty, rfl, hturn, hfilled⟩
    · rw [hturn]
      refine .inr ⟨_, _, taken, rest, rfl, rfl,
        ⟨h.state, h.roots, h.cursor, h.index, h.projected⟩, fun hless => ?_⟩
      rw [h.projected] at hmax
      rw [List.filter_append, List.length_append] at hless
      omega
    · rw [hturn]
      have hcount : generation.index.length = generation.record.documentsProjected := by
        rw [h.projected, ← h.index, List.length_map]
      refine .inl ⟨_, if_neg (not_not.mpr hcount), rfl, ?_, ?_⟩
      · rw [List.append_nil]
        exact h.index
      · rw [List.append_nil, ← h.projected]
        exact hmax
    · rw [hturn]
      rw [← List.append_assoc] at hdocuments ⊢
      have hpage : 0 < page.length := List.length_pos_of_ne_nil hnonempty
      rcases ih hdocuments hfilled with hdone | ⟨generation₁, limit, taken₁, rest₁, hturns, hsplit,
        hfilled₁, hprogress⟩
      · exact .inl hdone
      · refine .inr ⟨generation₁, limit, taken₁, rest₁, hturns, hsplit, hfilled₁, fun hless => ?_⟩
        have := hprogress hless
        rw [List.length_append]
        omega

/-- The manager has no active generation, and at most one candidate, which has
taken these documents. -/
structure Underway (sources : Sources) (policy : ContentIndexPolicy) (taken : List CatalogDocument)
    (manager : ContentGenerationManager) : Prop where
  pointer : manager.activePointer = none
  candidate : manager.generations.rows = [] ∧ taken = [] ∨ ∃ id generation,
    manager.generations.rows = [(id, generation)] ∧ Filled sources policy taken generation

variable {manager : ContentGenerationManager}

omit [CaseMapping] in
theorem get_single {id : String} (h : manager.generations.rows = [(id, generation)]) :
    manager.generations.get id = some generation :=
  Table.mem_rows.mp (h ▸ List.mem_singleton_self _)

/-- A call goes on with the only candidate, or makes the first one. -/
theorem recoverOrCreateBuilding_single (hpolicy : call.policy = policy)
    (h : Underway sources policy taken manager) :
    ∃ manager' id generation, manager.recoverOrCreateBuilding call = (manager', id) ∧
      manager'.activePointer = none ∧ manager'.generations.rows = [(id, generation)] ∧
      Filled sources policy taken generation := by
  subst hpolicy
  rcases h.candidate with ⟨hrows, rfl⟩ | ⟨id, generation, hrows, hfilled⟩
  · have hnone : manager.newestBuilding = none := by
      unfold ContentGenerationManager.newestBuilding Table.select
      rw [hrows]
      rfl
    refine ⟨manager.createBuilding call.newId call.policy.roots (latestOutboxSequence call.graph)
        (call.stamp 0) (call.bytes 0) call.now, call.newId,
      createdGeneration call.policy.roots (latestOutboxSequence call.graph) (call.stamp 0)
        (call.bytes 0) call.now, ?_, h.pointer, ?_, ⟨rfl, rfl, rfl, rfl, rfl⟩⟩
    · unfold ContentGenerationManager.recoverOrCreateBuilding
      dsimp only
      rw [hnone]
    · show Table.insertRows _ _ manager.generations.rows = _
      rw [hrows]
      rfl
  · have hnewest : manager.newestBuilding = some (id, generation) := by
      unfold ContentGenerationManager.newestBuilding Table.select
      rw [hrows]
      simp [hfilled.state]
    refine ⟨manager.failBuilding (some id) call.now, id, generation, ?_, h.pointer, ?_, hfilled⟩
    · unfold ContentGenerationManager.recoverOrCreateBuilding
      dsimp only
      rw [hnewest]
      dsimp only
      rw [if_pos hfilled.roots]
    · show List.map _ manager.generations.rows = _
      rw [hrows]
      simp

omit [CaseMapping] in
/-- The candidate that takes the pointer is active, and is not collected. -/
theorem finishActivation_active {id : String} {now : Nat} {documents : List CatalogDocument}
    (hpointer : manager.activePointer = some id) (hget : manager.generations.get id = some generation)
    (hindex : generation.index.map (·.document) = documents) :
    ActiveHolds (manager.finishActivation id none now) documents := by
  refine ⟨id, { generation with record :=
      { generation.record with state := .active, updatedAtUnixMs := now } }, hpointer,
    (Table.get_deleteWhere ..).mpr ⟨?_, decide_eq_false fun hmem => ?_⟩, rfl, hindex⟩
  · refine (Table.get_modify ..).trans ?_
    rw [if_pos rfl, hget]
    rfl
  · have hkeep := of_decide_eq_true (List.mem_filter.mp hmem).2
    exact hkeep hpointer

/-- How a call ends on a manager that is underway. -/
theorem resumeInitialGeneration_fills (hcall : call.Undisturbed graph sources policy limits)
    (hgraph : Reachable graph) (hvalid : limits.validate = .ok limits) (hbatch : 0 < limits.batchDocuments)
    (hdocuments : desiredCatalogDocuments graph = .ok (taken ++ rest))
    (h : Underway sources policy taken manager) :
    (∃ summary, (manager.resumeInitialGeneration contentHash call).2 = .ok summary ∧
      summary.complete = true ∧
      ActiveHolds (manager.resumeInitialGeneration contentHash call).1
        ((taken ++ rest).filter (Readable sources policy)) ∧
      ((taken ++ rest).filter (Readable sources policy)).length < limits.maxDocuments) ∨
    ∃ summary taken' rest', (manager.resumeInitialGeneration contentHash call).2 = .ok summary ∧
      summary.complete = false ∧ taken' ++ rest' = taken ++ rest ∧
      Underway sources policy taken' (manager.resumeInitialGeneration contentHash call).1 ∧
      (((taken ++ rest).filter (Readable sources policy)).length < limits.maxDocuments →
        rest'.length + limits.maximumBatches ≤ rest.length) := by
  obtain ⟨manager', id, generation, hrecover, hpointer, hrows, hfilled⟩ :=
    recoverOrCreateBuilding_single hcall.samePolicy h
  have hlimits : call.limits.validate = .ok limits := by rw [hcall.sameLimits, hvalid]
  have hinsert : ∀ generation', (manager'.generations.insert id generation').rows =
      [(id, generation')] := by
    intro generation'
    show Table.insertRows id generation' manager'.generations.rows = _
    rw [hrows]
    simp [Table.insertRows]
  unfold ContentGenerationManager.resumeInitialGeneration
  rw [hlimits]
  dsimp only
  rw [hrecover]
  dsimp only
  rw [get_single hrows]
  dsimp only
  rcases @turns_fill _ contentHash _ _ _ _ _ _ _ _ hcall hgraph hbatch hdocuments hfilled
    limits.maximumBatches with ⟨generation', hturns, hstate, hindex, hless⟩ |
      ⟨generation', limit, taken', rest', hturns, hsplit, hfilled', hprogress⟩
  · refine .inl ⟨⟨generation'.record, true, false⟩, ?_, rfl, ?_, hless⟩
    · rw [hturns]
    · rw [hturns]
      dsimp only
      rw [hpointer]
      exact finishActivation_active rfl (Table.get_insert_self ..) hindex
  · refine .inr ⟨⟨generation'.record, false, limit.isSome⟩, taken', rest', ?_, rfl, hsplit, ?_, hprogress⟩
    · rw [hturns]
    · rw [hturns]
      exact ⟨hpointer, .inr ⟨id, generation', hinsert generation', hfilled'⟩⟩

omit [CaseMapping] in
theorem validate_eq {limits' : ContentGenerationLimits} (h : limits.validate = .ok limits') :
    limits' = limits ∧ 0 < limits.batchDocuments ∧ 0 < limits.maximumBatches := by
  unfold ContentGenerationLimits.validate at h
  rw [guard_ok] at h
  obtain ⟨hvalid, h⟩ := h
  refine ⟨(Except.ok.inj h).symm, ?_, ?_⟩ <;> omega

variable {calls : Nat → ResumeCall} {documents : List CatalogDocument}

/-- After any number of calls, one of them was complete, or the candidate is
underway and every call has passed a document below the limit. -/
theorem managerAfter_fills (hcalls : ∀ n, (calls n).Undisturbed graph sources policy limits)
    (hgraph : Reachable graph) (hvalid : limits.validate = .ok limits)
    (hdocuments : desiredCatalogDocuments graph = .ok documents) (n : Nat) :
    (∃ k, Completes contentHash calls k ∧
      ActiveHolds (managerAfter contentHash calls (k + 1))
        (documents.filter (Readable sources policy)) ∧
      (documents.filter (Readable sources policy)).length < limits.maxDocuments) ∨
    ∃ taken rest, taken ++ rest = documents ∧
      Underway sources policy taken (managerAfter contentHash calls n) ∧
      ((documents.filter (Readable sources policy)).length < limits.maxDocuments →
        rest.length + n ≤ documents.length) := by
  obtain ⟨-, hbatch, hbatches⟩ := validate_eq hvalid
  induction n with
  | zero => exact .inr ⟨[], documents, rfl, ⟨rfl, .inl ⟨rfl, rfl⟩⟩, fun _ => Nat.le_refl _⟩
  | succ n ih =>
    rcases ih with hdone | ⟨taken, rest, rfl, hunderway, hprogress⟩
    · exact .inl hdone
    · rcases @resumeInitialGeneration_fills _ contentHash _ _ _ _ _ _ _ _ (hcalls n) hgraph hvalid
        hbatch hdocuments hunderway with ⟨summary, hok, hcomplete, hactive, hless⟩ |
          ⟨summary, taken', rest', hok, hcomplete, hsplit, hunderway', hless⟩
      · exact .inl ⟨n, ⟨summary, hok, hcomplete⟩, hactive, hless⟩
      · refine .inr ⟨taken', rest', hsplit, hunderway', fun hbelow => ?_⟩
        have := hless hbelow
        have := hprogress hbelow
        omega

omit [CaseMapping] in
theorem validate_cases (limits : ContentGenerationLimits) :
    limits.validate = .ok limits ∨ ∃ error, limits.validate = .error error := by
  cases h : limits.validate with
  | error error => exact .inr ⟨error, rfl⟩
  | ok limits' => exact .inl (congrArg Except.ok (validate_eq h).1)

/-- A call that completes found the limits valid and fewer readable documents than
`max_documents`. -/
theorem completes_below (hcalls : ∀ n, (calls n).Undisturbed graph sources policy limits)
    (hgraph : Reachable graph) (hdocuments : desiredCatalogDocuments graph = .ok documents) {n : Nat}
    (h : Completes contentHash calls n) : limits.validate = .ok limits ∧
      (documents.filter (Readable sources policy)).length < limits.maxDocuments := by
  obtain ⟨summary, hok, hcomplete⟩ := h
  rcases validate_cases limits with hvalid | ⟨error, hinvalid⟩
  · refine ⟨hvalid, ?_⟩
    rcases @managerAfter_fills _ contentHash _ _ _ _ _ _ hcalls hgraph hvalid hdocuments n with
      ⟨-, -, -, hless⟩ | ⟨taken, rest, rfl, hunderway, -⟩
    · exact hless
    · obtain ⟨-, hbatch, -⟩ := validate_eq hvalid
      rcases @resumeInitialGeneration_fills _ contentHash _ _ _ _ _ _ _ _ (hcalls n) hgraph hvalid
        hbatch hdocuments hunderway with ⟨-, -, -, -, hless⟩ | ⟨other, -, -, hother, hpaused, -⟩
      · exact hless
      · obtain rfl := Except.ok.inj (hok.symm.trans hother)
        cases hcomplete.symm.trans hpaused
  · have hlimits : (calls n).limits.validate = .error error := by
      rw [(hcalls n).sameLimits, hinvalid]
    unfold ContentGenerationManager.resumeInitialGeneration at hok
    rw [hlimits] at hok
    cases hok

/-- Repeated calls complete the candidate, which then holds exactly the readable
documents, exactly if the limits are valid and there are fewer such documents
than `max_documents`; otherwise no call ever completes. -/
theorem build_completes_iff (hcalls : ∀ n, (calls n).Undisturbed graph sources policy limits)
    (hgraph : Reachable graph) (hdocuments : desiredCatalogDocuments graph = .ok documents) :
    ((∃ n, Completes contentHash calls n ∧ ActiveHolds (managerAfter contentHash calls (n + 1))
        (documents.filter (Readable sources policy))) ↔
      limits.validate = .ok limits ∧
        (documents.filter (Readable sources policy)).length < limits.maxDocuments) ∧
    ∀ n, Completes contentHash calls n → limits.validate = .ok limits ∧
      (documents.filter (Readable sources policy)).length < limits.maxDocuments := by
  refine ⟨⟨fun ⟨n, hcompletes, _⟩ => completes_below hcalls hgraph hdocuments hcompletes,
    fun ⟨hvalid, hless⟩ => ?_⟩, fun n => completes_below hcalls hgraph hdocuments⟩
  -- one call more than there are documents
  rcases @managerAfter_fills _ contentHash _ _ _ _ _ _ hcalls hgraph hvalid hdocuments
    (documents.length + 1) with ⟨k, hcompletes, hactive, -⟩ | ⟨taken, rest, -, -, hprogress⟩
  · exact ⟨k, hcompletes, hactive⟩
  · have := hprogress hless
    omega

end Completion

section Example

attribute [local instance] asciiCaseMapping

/-- A call with room for so many documents. -/
def roomFor (maxDocuments : Nat) : ResumeCall :=
  { sampleCall contentSample false with limits := ⟨2 ^ 40, maxDocuments, 0, 0, 16, 4⟩ }

def sampleCatalog : List CatalogDocument := (desiredCatalogDocuments contentSample).toOption.getD []

theorem foldl_saturatingAdd_le (sizes : List Nat) (n : Nat) :
    sizes.foldl saturatingAdd n ≤ n + sizes.sum := by
  induction sizes generalizing n with
  | nil => exact Nat.le_refl n
  | cons size rest ih =>
    have hsize : saturatingAdd n size ≤ n + size := Nat.min_le_left _ _
    have hrest := ih (saturatingAdd n size)
    rw [List.foldl_cons, List.sum_cons]
    omega

theorem declaredBytes_le (page : List CatalogDocument) :
    declaredBytes sampleContentPolicy page ≤ page.length * 1024 := by
  refine (foldl_saturatingAdd_le _ 0).trans ?_
  rw [Nat.zero_add]
  induction page with
  | nil => exact Nat.zero_le _
  | cons document rest ih =>
    have hdocument : sampleContentPolicy.declaredEligibleBytes document ≤ 1024 := by
      unfold ContentIndexPolicy.declaredEligibleBytes
      split_ifs with h
      · exact h.2.2.1
      · exact Nat.zero_le _
    rw [List.map_cons, List.sum_cons, List.length_cons]
    omega

theorem roomFor_undisturbed (maxDocuments : Nat) : (roomFor maxDocuments).Undisturbed contentSample
    sampleSources sampleContentPolicy ⟨2 ^ 40, maxDocuments, 0, 0, 16, 4⟩ where
  sameGraph := rfl
  sameSources := rfl
  samePolicy := rfl
  sameLimits := rfl
  steady _ := rfl
  room n record := by
    have hbytes : ¬ 2 ^ 40 ≤ ((roomFor maxDocuments).disk n).indexBytes := by
      show ¬ 2 ^ 40 ≤ 0
      decide
    have hdisk : ¬ ((roomFor maxDocuments).disk n).available ≤ saturatingAdd (requiredDiskReserve (2 ^ 50)
        ⟨2 ^ 40, maxDocuments, 0, 0, 16, 4⟩) writerHeapBytes := by
      show ¬ 2 ^ 50 ≤ _
      simp [requiredDiskReserve, saturatingAdd, saturatingMul, writerHeapBytes]
    unfold limitBefore
    rw [if_neg hbytes]
    split_ifs with hmax hfull
    · exact .inr rfl
    · exact absurd hfull hdisk
    · exact .inl rfl
  roomAfter n after size page hsize hpage := by
    have hlength := desiredCatalogPage_length_le contentSample_reachable.wellFormed hpage
    have hbytes := declaredBytes_le page
    replace hsize : size ≤ 16 := hsize
    have hforecast : forecastIndexGrowth (declaredBytes sampleContentPolicy page) page.length ≤
        2 ^ 20 := by
      unfold forecastIndexGrowth saturatingAdd saturatingMul
      omega
    unfold limitAfter
    rw [if_neg, if_neg]
    · show ¬ 2 ^ 50 ≤ _
      simp only [requiredDiskReserve, saturatingAdd, saturatingMul, writerHeapBytes, roomFor]
      omega
    · show ¬ 2 ^ 40 < saturatingAdd 0 _
      unfold saturatingAdd
      omega

theorem sampleCatalog_ok : desiredCatalogDocuments contentSample = .ok sampleCatalog := by
  decide +kernel

/-- Two documents are allowed, and the one there is gets activated. -/
theorem roomy_build_completes :
    ((∃ n, Completes sampleHash (fun _ => roomFor 2) n ∧
        ActiveHolds (managerAfter sampleHash (fun _ => roomFor 2) (n + 1))
          (sampleCatalog.filter (Readable sampleSources sampleContentPolicy))) ↔
      (⟨2 ^ 40, 2, 0, 0, 16, 4⟩ : ContentGenerationLimits).validate = .ok ⟨2 ^ 40, 2, 0, 0, 16, 4⟩ ∧
        (sampleCatalog.filter (Readable sampleSources sampleContentPolicy)).length < 2) ∧
    ∀ n, Completes sampleHash (fun _ => roomFor 2) n →
      (⟨2 ^ 40, 2, 0, 0, 16, 4⟩ : ContentGenerationLimits).validate = .ok ⟨2 ^ 40, 2, 0, 0, 16, 4⟩ ∧
        (sampleCatalog.filter (Readable sampleSources sampleContentPolicy)).length < 2 :=
  build_completes_iff (fun _ => roomFor_undisturbed 2) contentSample_reachable sampleCatalog_ok

/-- One document is allowed and there is one: the candidate holds it, and no call
looks for the empty page behind it. -/
theorem exact_fit_never_completes :
    ¬ ∀ (contentHash : String → String) (sources : Sources) (policy : ContentIndexPolicy)
        (limits : ContentGenerationLimits) (graph : FilesystemGraph) (calls : Nat → ResumeCall)
        (documents : List CatalogDocument),
        (∀ n, (calls n).Undisturbed graph sources policy limits) → Reachable graph →
        desiredCatalogDocuments graph = .ok documents → limits.validate = .ok limits →
        (documents.filter (Readable sources policy)).length ≤ limits.maxDocuments →
        ∃ n, Completes contentHash calls n ∧ ActiveHolds (managerAfter contentHash calls (n + 1))
          (documents.filter (Readable sources policy)) := by
  intro h
  have hcount : (sampleCatalog.filter (Readable sampleSources sampleContentPolicy)).length = 1 := by
    decide +kernel
  have hvalid : (⟨2 ^ 40, 1, 0, 0, 16, 4⟩ : ContentGenerationLimits).validate =
      .ok ⟨2 ^ 40, 1, 0, 0, 16, 4⟩ := by decide +kernel
  obtain ⟨n, hcompletes, -⟩ := h sampleHash sampleSources sampleContentPolicy ⟨2 ^ 40, 1, 0, 0, 16, 4⟩
    contentSample (fun _ => roomFor 1) sampleCatalog (fun _ => roomFor_undisturbed 1)
    contentSample_reachable sampleCatalog_ok hvalid hcount.le
  have hless := (completes_below (fun _ => roomFor_undisturbed 1) contentSample_reachable
    sampleCatalog_ok hcompletes).2
  rw [hcount] at hless
  exact Nat.lt_irrefl _ hless

end Example

end LocalSearch.Content
