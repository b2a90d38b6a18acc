import LocalSearch.Content.Resume

/-!
# Counting a candidate

A commit without its record leaves entries behind the cursor that the record has
not counted. When a later turn records their page, the counter makes up for those
whose documents are the same as before or are refused; the others stay in the
index uncounted, and the count check fails. Otherwise the counter is exact.
-/
namespace LocalSearch.Content

set_option autoImplicit false

open Core Lib Graph Catalog

/-- The entry was there before and is gone. -/
def SyncOutcome.evicts : SyncOutcome → Bool
  | .skipped _ true => true
  | _ => false

/-- The entry was there before, and the record counts whether it still is. -/
def SyncOutcome.recounts : SyncOutcome → Bool
  | .skipped _ true | .unchanged => true
  | _ => false

section Counting

variable [CaseMapping]

/-- A delta that finds the previous document in the index and is given the
current one evicts it or finds it unchanged. -/
def ResumeCall.recounts (call : ResumeCall) (previous current : CatalogDocument) : Bool :=
  match prepareSource call.sources current call.policy with
  | .error _ => true
  | .ok prepared => previous == current ||
      (!contentSourceUnchanged previous current && !(readText prepared call.policy).isOk)

/-- The page holds a document that the entry is recounted with. -/
def ResumeCall.settles (call : ResumeCall) (page : List CatalogDocument) (entry : ContentEntry) : Bool :=
  page.any fun document =>
    document.identity.documentId = entry.documentId && call.recounts entry.document document

/-- The turn recounts every entry between the cursor and the end of its page. -/
def ResumeCall.Keeps (call : ResumeCall) (generation : Generation) : Prop :=
  ∀ page last, call.page generation = .ok page → page.getLast? = some last →
    ∀ entry ∈ generation.index, Table.After generation.record.lastCheckpoint entry.documentId →
      entry.documentId ≤ last.identity.documentId → call.settles page entry = true

/-- Every turn that the call records does so, and no entry is left behind the
cursor where the call finds no page. -/
def ResumeCall.KeepsCount (contentHash : String → String) (call : ResumeCall) : Nat → Generation → Prop
  | 0, _ => True
  | n + 1, generation =>
      match call.turn contentHash n generation with
      | .limited _ | .failed _ _ => True
      | .noPage => ∀ entry ∈ generation.index,
          ¬ Table.After generation.record.lastCheckpoint entry.documentId
      | .recorded generation' => call.Keeps generation ∧ call.KeepsCount contentHash n generation'

/-- The generation that `activate_validated` is given, if the call reaches it. -/
def ResumeCall.activates (contentHash : String → String) (call : ResumeCall) :
    Nat → Generation → Option Generation
  | 0, _ => none
  | n + 1, generation =>
      match call.turn contentHash n generation with
      | .limited _ | .failed _ _ => none
      | .noPage => some generation
      | .recorded generation' => call.activates contentHash n generation'

variable {sources : Sources} {contentHash : String → String} {policy : ContentIndexPolicy}

/-- The entry of a document is taken out, left alone, or replaced. -/
theorem syncOne_cases (prior : Option ContentEntry) (pending : Entries) (document : CatalogDocument) :
    (∃ reason, prior.isSome ∧ syncOne sources contentHash policy prior pending document =
      (deleteTerm pending document.identity.documentId, .skipped reason true)) ∨
    (∃ outcome : SyncOutcome, outcome.evicts = false ∧ outcome ≠ .added ∧
      syncOne sources contentHash policy prior pending document = (pending, outcome)) ∨
    ∃ entry : ContentEntry, entry.document = document ∧
      syncOne sources contentHash policy prior pending document =
        (deleteTerm pending document.identity.documentId ++ [entry],
          if prior.isSome then .updated else .added) := by
  unfold syncOne
  dsimp only
  cases prior with
  | none =>
    cases prepareSource sources document policy with
    | error reason => exact .inr (.inl ⟨.skipped reason false, rfl, nofun, rfl⟩)
    | ok prepared =>
      dsimp only
      rw [if_neg (by simp), if_neg (by simp)]
      cases readText prepared policy with
      | error reason => exact .inr (.inl ⟨.skipped reason false, rfl, nofun, rfl⟩)
      | ok text => exact .inr (.inr ⟨⟨document, text, contentHash text⟩, rfl, if_neg (by simp)⟩)
  | some stored =>
    cases prepareSource sources document policy with
    | error reason => exact .inl ⟨reason, rfl, rfl⟩
    | ok prepared =>
      have hany : ∀ p : ContentEntry → Bool, (some stored).any p = p stored := fun _ => rfl
      dsimp only
      rw [hany, hany]
      by_cases hsame : (stored.document == document) = true
      · rw [if_pos hsame]
        exact .inr (.inl ⟨.unchanged, rfl, nofun, rfl⟩)
      rw [if_neg hsame]
      by_cases hmetadata : contentSourceUnchanged stored.document document = true
      · rw [if_pos hmetadata]
        exact .inr (.inl ⟨.metadataOnly, rfl, nofun, rfl⟩)
      rw [if_neg hmetadata]
      cases readText prepared policy with
      | error reason => exact .inl ⟨reason, rfl, rfl⟩
      | ok text =>
        by_cases hhash : some stored.contentHash = some (contentHash text)
        · exact .inr (.inl ⟨.unchangedHash, rfl, nofun, if_pos hhash⟩)
        · exact .inr (.inr ⟨⟨document, text, contentHash text⟩, rfl, if_neg hhash⟩)

/-- An outcome recounts exactly the entries that the call recounts. -/
theorem syncOne_recounts (call : ResumeCall) (prior : Option ContentEntry) (pending : Entries)
    (document : CatalogDocument) :
    (syncOne call.sources contentHash call.policy prior pending document).2.recounts =
      prior.any fun stored => call.recounts stored.document document := by
  unfold syncOne ResumeCall.recounts
  dsimp only
  cases prior with
  | none =>
    cases prepareSource call.sources document call.policy with
    | error reason => rfl
    | ok prepared =>
      dsimp only
      rw [if_neg (by simp), if_neg (by simp)]
      cases readText prepared call.policy with
      | error reason => rfl
      | ok text => rfl
  | some stored =>
    have hany : ∀ p : ContentEntry → Bool, (some stored).any p = p stored := fun _ => rfl
    rw [hany]
    cases prepareSource call.sources document call.policy with
    | error reason => rfl
    | ok prepared =>
      dsimp only
      rw [hany, hany]
      by_cases hsame : (stored.document == document) = true
      · rw [if_pos hsame, hsame]
        rfl
      rw [if_neg hsame, Bool.eq_false_iff.mpr hsame]
      by_cases hmetadata : contentSourceUnchanged stored.document document = true
      · rw [if_pos hmetadata, hmetadata]
        rfl
      rw [if_neg hmetadata, Bool.eq_false_iff.mpr hmetadata]
      cases readText prepared call.policy with
      | error reason => rfl
      | ok text =>
        by_cases hhash : some stored.contentHash = some (contentHash text)
        · exact congrArg (fun x : Entries × SyncOutcome => x.2.recounts) (if_pos hhash)
        · exact congrArg (fun x : Entries × SyncOutcome => x.2.recounts) (if_neg hhash)

/-- What became of a document depends on its entry alone, not on the writer. -/
theorem syncOne_outcome (prior : Option ContentEntry) (pending pending' : Entries)
    (document : CatalogDocument) :
    (syncOne sources contentHash policy prior pending document).2 =
      (syncOne sources contentHash policy prior pending' document).2 := by
  unfold syncOne
  dsimp only
  cases prepareSource sources document policy with
  | error reason =>
    dsimp only
    split_ifs <;> rfl
  | ok prepared =>
    dsimp only
    split
    · rfl
    split
    · rfl
    cases readText prepared policy with
    | error reason =>
      dsimp only
      split_ifs <;> rfl
    | ok text =>
      dsimp only
      split <;> rfl

/-- The entries with these ids. -/
def countIds (q : DocumentId → Bool) (entries : Entries) : Nat :=
  entries.countP fun entry => q entry.documentId

/-- One document was synchronized; counts of entries by id follow its outcome. -/
structure Synced (pending : Entries) (d : DocumentId) (pending' : Entries) (outcome : SyncOutcome) :
    Prop where
  unique : (pending'.map ContentEntry.documentId).Nodup
  others : ∀ k, k ≠ d → storedDocument pending' k = storedDocument pending k
  counted : ∀ q : DocumentId → Bool, q d = true →
    countIds q pending' + (if outcome.evicts then 1 else 0) =
      countIds q pending + if outcome = .added then 1 else 0
  unseen : ∀ q : DocumentId → Bool, q d = false → countIds q pending' = countIds q pending

omit [CaseMapping] in
theorem synced_deleteTerm {pending : Entries} {d : DocumentId} {reason : SkipReason}
    (hunique : (pending.map ContentEntry.documentId).Nodup)
    (hstored : (storedDocument pending d).isSome) :
    Synced pending d (deleteTerm pending d) (.skipped reason true) where
  unique := nodup_remove hunique d
  others k hk := (congrFun (lookup_remove pending d) k).trans (Function.update_of_ne hk _ _)
  counted q hq := countP_remove_of_mem q hunique hstored hq
  unseen q hq := countP_remove_of_neg q pending hq

omit [CaseMapping] in
theorem synced_replace {pending : Entries} (entry : ContentEntry)
    (hunique : (pending.map ContentEntry.documentId).Nodup) :
    Synced pending entry.documentId (deleteTerm pending entry.documentId ++ [entry])
      (if (storedDocument pending entry.documentId).isSome then .updated else .added) where
  unique := nodup_replace hunique
  others k hk := (congrFun (lookup_replace pending entry) k).trans (Function.update_of_ne hk _ _)
  counted q hq := by
    have hone : countIds q [entry] = 1 := by
      unfold countIds
      rw [List.countP_singleton, if_pos hq]
    have happend : countIds q (deleteTerm pending entry.documentId ++ [entry]) =
        countIds q (deleteTerm pending entry.documentId) + countIds q [entry] := List.countP_append
    rw [happend, hone]
    by_cases hstored : (storedDocument pending entry.documentId).isSome = true
    · rw [if_pos hstored]
      exact countP_remove_of_mem q hunique hstored hq
    · have hsame : deleteTerm pending entry.documentId = pending :=
        remove_eq_self (Option.not_isSome_iff_eq_none.mp hstored)
      rw [if_neg hstored, hsame]
      rfl
  unseen q hq := by
    have hzero : countIds q [entry] = 0 := by
      unfold countIds
      rw [List.countP_singleton, if_neg (by rw [hq]; nofun)]
    have happend : countIds q (deleteTerm pending entry.documentId ++ [entry]) =
        countIds q (deleteTerm pending entry.documentId) + countIds q [entry] := List.countP_append
    rw [happend, hzero]
    exact countP_remove_of_neg q pending hq

theorem syncOne_synced {pending : Entries} (hunique : (pending.map ContentEntry.documentId).Nodup)
    (document : CatalogDocument) {synced : Entries × SyncOutcome}
    (h : syncOne sources contentHash policy (storedDocument pending document.identity.documentId)
      pending document = synced) :
    Synced pending document.identity.documentId synced.1 synced.2 := by
  subst h
  rcases syncOne_cases (storedDocument pending document.identity.documentId) pending document with
    ⟨reason, hstored, heq⟩ | ⟨outcome, hevicts, hadded, heq⟩ | ⟨entry, rfl, heq⟩
  · rw [heq]
    exact synced_deleteTerm hunique hstored
  · rw [heq]
    refine ⟨hunique, fun _ _ => rfl, fun q _ => ?_, fun _ _ => rfl⟩
    rw [if_neg hadded, if_neg (by rw [hevicts]; exact Bool.false_ne_true)]
  · rw [heq]
    exact synced_replace entry hunique

/-- The outcomes of a page are those of its documents against the index, and
counts of entries by id follow them. -/
theorem upsertLoop_counts {committed : Entries} {seen seen' : List DocumentId}
    {pending pending' : Entries} {page : List CatalogDocument} {outcomes : List SyncOutcome}
    (h : upsertLoop sources contentHash policy committed seen pending page =
      .ok (pending', seen', outcomes))
    (hunique : (pending.map ContentEntry.documentId).Nodup)
    (hpage : (page.map (·.identity.documentId)).Nodup)
    (hsame : ∀ document ∈ page, storedDocument pending document.identity.documentId =
      storedDocument committed document.identity.documentId) :
    (pending'.map ContentEntry.documentId).Nodup ∧
    outcomes = page.map (fun document => (syncOne sources contentHash policy
      (storedDocument committed document.identity.documentId) [] document).2) ∧
    (∀ q : DocumentId → Bool, (∀ document ∈ page, q document.identity.documentId = true) →
      countIds q pending' + outcomes.countP (·.evicts) =
        countIds q pending + outcomes.countP (· = .added)) ∧
    ∀ q : DocumentId → Bool, (∀ document ∈ page, q document.identity.documentId = false) →
      countIds q pending' = countIds q pending := by
  induction page generalizing seen pending outcomes with
  | nil =>
    obtain ⟨rfl, -, rfl⟩ := by simpa [upsertLoop] using h
    exact ⟨hunique, rfl, fun _ _ => rfl, fun _ _ => rfl⟩
  | cons document rest ih =>
    obtain ⟨hhead, hrest⟩ := List.nodup_cons.mp hpage
    obtain ⟨hfirst, hothers⟩ := List.forall_mem_cons.mp hsame
    rw [upsertLoop] at h
    dsimp only at h
    rw [guard_ok] at h
    obtain ⟨-, h⟩ := h
    rw [← hfirst] at h
    cases hsync : syncOne sources contentHash policy
      (storedDocument pending document.identity.documentId) pending document with
    | mk staged outcome =>
    rw [hsync] at h
    dsimp only at h
    obtain ⟨⟨pending₁, seen₁, outcomes₁⟩, hloop, h⟩ := bind_ok.mp h
    obtain ⟨rfl, rfl, rfl⟩ : pending₁ = pending' ∧ seen₁ = seen' ∧ outcome :: outcomes₁ = outcomes := by
      simpa using h
    have hstep := syncOne_synced hunique document hsync
    have hnext : ∀ d ∈ rest, storedDocument staged d.identity.documentId =
        storedDocument committed d.identity.documentId := by
      intro d hd
      have hne : d.identity.documentId ≠ document.identity.documentId := fun heq =>
        hhead (List.mem_map.mpr ⟨d, hd, heq⟩)
      exact (hstep.others _ hne).trans (hothers d hd)
    obtain ⟨hunique', houtcomes, hcounted, hunseen⟩ := ih hloop hstep.unique hrest hnext
    refine ⟨hunique', ?_, fun q hq => ?_, fun q hq => ?_⟩
    · rw [List.map_cons, ← houtcomes, ← hfirst, syncOne_outcome _ [] pending, hsync]
    · obtain ⟨hq₁, hq⟩ := List.forall_mem_cons.mp hq
      have h₁ := hstep.counted q hq₁
      have h₂ := hcounted q hq
      rw [List.countP_cons, List.countP_cons]
      simp only [decide_eq_true_eq]
      dsimp only at h₁
      omega
    · obtain ⟨hq₁, hq⟩ := List.forall_mem_cons.mp hq
      exact (hunseen q hq).trans (hstep.unseen q hq₁)

/-- As many outcomes recount as there are entries that the page settles. -/
theorem countP_recounts (call : ResumeCall) {index : Entries} {page : List CatalogDocument}
    (hunique : (index.map ContentEntry.documentId).Nodup)
    (hpage : (page.map (·.identity.documentId)).Nodup) :
    (page.map fun document => (syncOne call.sources contentHash call.policy
      (storedDocument index document.identity.documentId) [] document).2).countP (·.recounts) =
      index.countP (call.settles page) := by
  have hperm : ((page.filter fun document => (storedDocument index
        document.identity.documentId).any fun stored => call.recounts stored.document document).map
          (·.identity.documentId)).Perm
      ((index.filter (call.settles page)).map ContentEntry.documentId) := by
    refine (List.perm_ext_iff_of_nodup (hpage.sublist (List.filter_sublist.map _))
      (hunique.sublist (List.filter_sublist.map _))).mpr fun d => ?_
    rw [List.mem_map, List.mem_map]
    constructor
    · rintro ⟨document, hmem, rfl⟩
      obtain ⟨hin, hany⟩ := List.mem_filter.mp hmem
      obtain ⟨stored, hstored, hrecounts⟩ := (Option.any_eq_true _ _).mp hany
      obtain ⟨hindex, hid⟩ := lookup_eq_some hstored
      refine ⟨stored, List.mem_filter.mpr ⟨hindex, List.any_eq_true.mpr ⟨document, hin, ?_⟩⟩, hid⟩
      rw [hrecounts, Bool.and_true]
      exact decide_eq_true hid.symm
    · rintro ⟨stored, hmem, rfl⟩
      obtain ⟨hindex, hany⟩ := List.mem_filter.mp hmem
      obtain ⟨document, hin, hboth⟩ := List.any_eq_true.mp hany
      obtain ⟨hid, hrecounts⟩ := Bool.and_eq_true_iff.mp hboth
      have hid := of_decide_eq_true hid
      refine ⟨document, List.mem_filter.mpr ⟨hin, ?_⟩, hid⟩
      have hstored : storedDocument index document.identity.documentId = some stored :=
        hid ▸ lookup_of_mem hunique hindex
      rw [hstored]
      exact hrecounts
  have hlength := hperm.length_eq
  rw [List.length_map, List.length_map] at hlength
  rw [List.countP_map, List.countP_eq_length_filter, List.countP_eq_length_filter, ← hlength]
  congr 1
  refine List.filter_congr fun document _ => ?_
  exact syncOne_recounts call _ _ document

/-- The ids up to the cursor. -/
def behind (cursor : Option DocumentId) (d : DocumentId) : Bool := ¬ Table.After cursor d

theorem applyDelta_page {committed index : Entries} {page : List CatalogDocument}
    {outcomes : List SyncOutcome}
    (h : applyDelta sources contentHash policy committed page [] = .ok (index, outcomes)) :
    ∃ seen, upsertLoop sources contentHash policy committed [] committed page =
      .ok (index, seen, outcomes) := by
  unfold applyDelta at h
  obtain ⟨⟨pending, seen, first⟩, hloop, h⟩ := bind_ok.mp h
  obtain ⟨⟨rest, more⟩, hdeletions, h⟩ := bind_ok.mp h
  obtain ⟨rfl, rfl⟩ : pending = rest ∧ [] = more := by simpa [deletionLoop] using hdeletions
  obtain ⟨rfl, rfl⟩ : pending = index ∧ first ++ [] = outcomes := by simpa using h
  exact ⟨seen, by rw [List.append_nil]; exact hloop⟩

/-- What a page leaves uncounted between the cursor and its end. -/
def ResumeCall.missed (call : ResumeCall) (index : Entries) (cursor : Option DocumentId)
    (page : List CatalogDocument) (last : DocumentId) : Nat :=
  index.countP fun entry => !call.settles page entry &&
    (!behind cursor entry.documentId && behind (some last) entry.documentId)

omit [CaseMapping] in
theorem behind_eq_false {cursor : Option DocumentId} {d : DocumentId} :
    behind cursor d = false ↔ Table.After cursor d := by
  unfold behind
  rw [decide_eq_false_iff_not, not_not]

omit [CaseMapping] in
theorem behind_some {c d : DocumentId} : behind (some c) d = true ↔ d ≤ c := by
  unfold behind
  rw [decide_eq_true_eq, Table.after_some, not_lt]

omit [CaseMapping] in
theorem projectedDocuments_add (outcomes : List SyncOutcome) :
    projectedDocuments outcomes + outcomes.countP (·.evicts) =
      outcomes.countP (· = .added) + outcomes.countP (·.recounts) := by
  unfold projectedDocuments
  induction outcomes with
  | nil => rfl
  | cons outcome rest ih =>
    have hone : (if outcome == .unchanged then 1 else 0) + (if outcome.evicts then 1 else 0) =
        if outcome.recounts then 1 else 0 := by
      cases outcome with
      | skipped reason evicted => cases evicted <;> rfl
      | _ => rfl
    simp only [List.count_cons, List.countP_cons, beq_iff_eq, decide_eq_true_eq] at hone ⊢
    omega

/-- The entries up to the end of a page are those up to the cursor, those the
record counts for the page, and those it misses. -/
theorem countIds_page (call : ResumeCall) {index index' : Entries} {cursor : Option DocumentId}
    {page : List CatalogDocument} {outcomes : List SyncOutcome} {last : CatalogDocument}
    (hunique : (index.map ContentEntry.documentId).Nodup)
    (hsorted : page.Pairwise fun a b => a.identity.documentId < b.identity.documentId)
    (hafter : ∀ document ∈ page, Table.After cursor document.identity.documentId)
    (hlast : page.getLast? = some last)
    (hdelta : applyDelta call.sources contentHash call.policy index page [] = .ok (index', outcomes)) :
    (index'.map ContentEntry.documentId).Nodup ∧
    countIds (behind cursor) index' = countIds (behind cursor) index ∧
    countIds (behind (some last.identity.documentId)) index' =
      countIds (behind cursor) index + projectedDocuments outcomes +
        call.missed index cursor page last.identity.documentId := by
  obtain ⟨seen, hloop⟩ := applyDelta_page hdelta
  have hpage : (page.map (·.identity.documentId)).Nodup :=
    List.pairwise_map.mpr (hsorted.imp ne_of_lt)
  obtain ⟨hunique', houtcomes, hcounted, hunseen⟩ :=
    upsertLoop_counts hloop hunique hpage fun _ _ => rfl
  have hbefore : ∀ document ∈ page, behind cursor document.identity.documentId = false :=
    fun document hin => behind_eq_false.mpr (hafter document hin)
  have hbelow : ∀ document ∈ page,
      behind (some last.identity.documentId) document.identity.documentId = true :=
    fun document hin => behind_some.mpr (Table.le_last_of_sorted hsorted hlast hin)
  refine ⟨hunique', hunseen _ hbefore, ?_⟩
  have htotal := hcounted _ hbelow
  -- the entries up to the cursor are among those up to the end of the page
  have hregion : countIds (behind (some last.identity.documentId)) index =
      countIds (behind cursor) index + index.countP fun entry =>
        !behind cursor entry.documentId && behind (some last.identity.documentId) entry.documentId := by
    refine countP_split (fun entry h => ?_) index
    cases cursor with
    | none => exact absurd h (by rw [behind_eq_false.mpr (Table.after_none _)]; nofun)
    | some c =>
      have hc := Table.after_some.mp (hafter last (List.mem_of_getLast? hlast))
      exact behind_some.mpr ((behind_some.mp h).trans (le_of_lt hc))
  have hsettled : (index.countP fun entry => !behind cursor entry.documentId &&
        behind (some last.identity.documentId) entry.documentId) =
      index.countP (call.settles page) + call.missed index cursor page last.identity.documentId := by
    refine countP_split (fun entry h => ?_) index
    obtain ⟨document, hin, hboth⟩ := List.any_eq_true.mp h
    have hid := of_decide_eq_true (Bool.and_eq_true_iff.mp hboth).1
    rw [← hid, hbefore document hin, hbelow document hin]
    rfl
  have hrecounts := @countP_recounts _ contentHash call index page hunique hpage
  rw [← houtcomes] at hrecounts
  have hprojected := projectedDocuments_add outcomes
  omega

/-- The record counts the entries up to its cursor, up to those it has missed. -/
structure Tallies (exact : Prop) (generation : Generation) : Prop where
  unique : (generation.index.map ContentEntry.documentId).Nodup
  counted : ∃ missed, countIds (behind generation.record.lastCheckpoint) generation.index =
    generation.record.documentsProjected + missed ∧ (missed = 0 ↔ exact)

variable {call : ResumeCall} {generation : Generation} {exact : Prop}

omit [CaseMapping] in
theorem Tallies.of_record {generation' : Generation} (h : Tallies exact generation)
    (hindex : generation'.index = generation.index)
    (hcursor : generation'.record.lastCheckpoint = generation.record.lastCheckpoint)
    (hprojected : generation'.record.documentsProjected = generation.record.documentsProjected) :
    Tallies exact generation' := by
  refine ⟨hindex ▸ h.unique, ?_⟩
  rw [hindex, hcursor, hprojected]
  exact h.counted

/-- A turn misses nothing exactly when it keeps the count. -/
theorem missed_eq_zero {page : List CatalogDocument} {last : CatalogDocument}
    (hpage : call.page generation = .ok page) (hlast : page.getLast? = some last) :
    call.missed generation.index generation.record.lastCheckpoint page last.identity.documentId = 0 ↔
      call.Keeps generation := by
  unfold ResumeCall.missed
  rw [List.countP_eq_zero]
  constructor
  · intro h page' last' hpage' hlast' entry hin hafter hle
    obtain rfl := Except.ok.inj (hpage.symm.trans hpage')
    obtain rfl := Option.some.inj (hlast.symm.trans hlast')
    by_contra hunsettled
    refine h entry hin ?_
    rw [Bool.eq_false_iff.mpr hunsettled, behind_eq_false.mpr hafter, behind_some.mpr hle]
    rfl
  · intro h entry hin hmissed
    rw [Bool.and_eq_true, Bool.and_eq_true, Bool.not_eq_true', Bool.not_eq_true'] at hmissed
    obtain ⟨hunsettled, hafter, hle⟩ := hmissed
    have hsettled := h page last hpage hlast entry hin (behind_eq_false.mp hafter)
      (behind_some.mp hle)
    exact Bool.false_ne_true (hunsettled.symm.trans hsettled)

theorem page_ok {page : List CatalogDocument} (hgraph : Reachable call.graph)
    (hpage : call.page generation = .ok page) :
    (page.Pairwise fun a b => a.identity.documentId < b.identity.documentId) ∧
      ∀ document ∈ page,
        Table.After generation.record.lastCheckpoint document.identity.documentId := by
  obtain ⟨hsorted, hmem, -⟩ := desiredCatalogPage_ok hgraph.wellFormed hpage
  exact ⟨hsorted, fun document hin => (hmem document hin).1⟩

/-- A commit whose record is lost changes no entry up to the cursor. -/
theorem Tallies.crashed (h : Tallies exact generation) (hgraph : Reachable call.graph)
    {page : List CatalogDocument} {index : Entries} {outcomes : List SyncOutcome}
    (hpage : call.page generation = .ok page)
    (hdelta : applyDelta call.sources contentHash call.policy generation.index page [] =
      .ok (index, outcomes)) : Tallies exact { generation with index := index } := by
  obtain ⟨hsorted, hafter⟩ := page_ok hgraph hpage
  obtain ⟨seen, hloop⟩ := applyDelta_page hdelta
  obtain ⟨hunique, -, -, hunseen⟩ := upsertLoop_counts hloop h.unique
    (List.pairwise_map.mpr (hsorted.imp ne_of_lt)) fun _ _ => rfl
  refine ⟨hunique, ?_⟩
  obtain ⟨missed, hcounted, hexact⟩ := h.counted
  refine ⟨missed, ?_, hexact⟩
  exact (hunseen _ fun document hin => behind_eq_false.mpr (hafter document hin)).trans hcounted

theorem Tallies.recorded (h : Tallies exact generation) (hgraph : Reachable call.graph)
    {page : List CatalogDocument} {index : Entries} {outcomes : List SyncOutcome}
    (hpage : call.page generation = .ok page) (hnonempty : page ≠ [])
    (hdelta : applyDelta call.sources contentHash call.policy generation.index page [] =
      .ok (index, outcomes)) (declared stamp bytes now : Nat) :
    Tallies (exact ∧ call.Keeps generation)
      ⟨generation.record.advance page declared outcomes stamp bytes now, index⟩ := by
  obtain ⟨hsorted, hafter⟩ := page_ok hgraph hpage
  obtain ⟨last, hlast⟩ := Option.ne_none_iff_exists'.mp (mt List.getLast?_eq_none_iff.mp hnonempty)
  obtain ⟨hunique, -, hend⟩ := countIds_page call h.unique hsorted hafter hlast hdelta
  obtain ⟨missed, hcounted, hexact⟩ := h.counted
  refine ⟨hunique, missed + call.missed generation.index generation.record.lastCheckpoint page
    last.identity.documentId, ?_, ?_⟩
  · show countIds (behind (page.getLast?.map (·.identity.documentId))) index =
      generation.record.documentsProjected + projectedDocuments outcomes + _
    rw [hlast]
    show countIds (behind (some last.identity.documentId)) index = _
    omega
  · rw [Nat.add_eq_zero_iff, hexact, missed_eq_zero hpage hlast]

omit [CaseMapping] in
/-- Where no page is left, the count check sees what was missed and what stands
behind the cursor. -/
theorem Tallies.checked (h : Tallies exact generation) :
    generation.index.length = generation.record.documentsProjected ↔ exact ∧
      ∀ entry ∈ generation.index, ¬ Table.After generation.record.lastCheckpoint entry.documentId := by
  obtain ⟨missed, hcounted, hexact⟩ := h.counted
  have hsplit : generation.index.length =
      countIds (behind generation.record.lastCheckpoint) generation.index +
        generation.index.countP fun entry =>
          !behind generation.record.lastCheckpoint entry.documentId && true := by
    rw [← List.countP_true]
    exact countP_split (fun _ _ => rfl) generation.index
  have hrest : (generation.index.countP fun entry =>
        !behind generation.record.lastCheckpoint entry.documentId && true) = 0 ↔
      ∀ entry ∈ generation.index, ¬ Table.After generation.record.lastCheckpoint entry.documentId := by
    rw [List.countP_eq_zero]
    refine forall₂_congr fun entry _ => not_congr ?_
    rw [Bool.and_true, Bool.not_eq_true', behind_eq_false]
  rw [← hexact, ← hrest]
  omega

/-- A call leaves the state of the candidate alone unless it reaches the count
check, with which it ends. -/
theorem turns_end (contentHash : String → String) (call : ResumeCall) (n : Nat)
    (generation : Generation) :
    (∀ arrived, call.activates contentHash n generation = some arrived →
      call.turns contentHash n generation = call.activateValidated arrived) ∧
    (call.activates contentHash n generation = none →
      (call.turns contentHash n generation).1.record.state = generation.record.state) := by
  induction n generalizing generation with
  | zero => exact ⟨nofun, fun _ => rfl⟩
  | succ n ih =>
    unfold ResumeCall.activates ResumeCall.turns
    have hspec := turn_spec contentHash call n generation
    cases hturn : call.turn contentHash n generation with
    | limited limit => exact ⟨nofun, fun _ => rfl⟩
    | failed generation' error =>
      rw [hturn] at hspec
      cases hspec <;> exact ⟨nofun, fun _ => rfl⟩
    | noPage => exact ⟨fun _ harrived => Option.some.inj harrived ▸ rfl, nofun⟩
    | recorded generation' =>
      rw [hturn] at hspec
      cases hspec
      exact ih _

theorem turns_tallies (hgraph : Reachable call.graph) (n : Nat) (h : Tallies exact generation) :
    (∀ arrived, call.activates contentHash n generation = some arrived →
      (arrived.index.length = arrived.record.documentsProjected ↔
        exact ∧ call.KeepsCount contentHash n generation)) ∧
    (call.activates contentHash n generation = none →
      Tallies (exact ∧ call.KeepsCount contentHash n generation)
        (call.turns contentHash n generation).1) := by
  induction n generalizing generation exact with
  | zero =>
    refine ⟨nofun, fun _ => ?_⟩
    unfold ResumeCall.KeepsCount
    rw [and_true]
    exact h.of_record rfl rfl rfl
  | succ n ih =>
    unfold ResumeCall.activates ResumeCall.turns ResumeCall.KeepsCount
    have hspec := turn_spec contentHash call n generation
    cases hturn : call.turn contentHash n generation with
    | limited limit =>
      refine ⟨nofun, fun _ => ?_⟩
      dsimp only
      rw [and_true]
      exact h.of_record rfl rfl rfl
    | failed generation' error =>
      refine ⟨nofun, fun _ => ?_⟩
      dsimp only
      rw [and_true]
      rw [hturn] at hspec
      cases hspec with
      | unreadable | refused => exact h
      | crashed hpage hdelta _ => exact h.crashed hgraph hpage hdelta
    | noPage =>
      refine ⟨fun arrived harrived => ?_, nofun⟩
      obtain rfl := Option.some.inj harrived
      exact h.checked
    | recorded generation' =>
      rw [hturn] at hspec
      cases hspec with
      | recorded _ hpage hnonempty hdelta =>
        dsimp only
        rw [← and_assoc]
        exact ih (h.recorded hgraph hpage hnonempty hdelta _ _ _ _)

/-- The calls of a run, one after the other. -/
def resumeAll (contentHash : String → String) (calls : List ResumeCall) (generation : Generation) :
    Generation :=
  calls.foldl (fun generation call => (call.resume contentHash generation).1) generation

/-- The generation with which a call reaches `activate_validated`. -/
def ResumeCall.activated (contentHash : String → String) (call : ResumeCall) (generation : Generation) :
    Option Generation :=
  match call.limits.validate with
  | .error _ => none
  | .ok limits => call.activates contentHash limits.maximumBatches generation

/-- Every turn that the call records recounts what it finds. -/
def ResumeCall.Counts (contentHash : String → String) (call : ResumeCall) (generation : Generation) :
    Prop :=
  match call.limits.validate with
  | .error _ => True
  | .ok limits => call.KeepsCount contentHash limits.maximumBatches generation

/-- Every call of the run does so. -/
def CountsAll (contentHash : String → String) : List ResumeCall → Generation → Prop
  | [], _ => True
  | call :: calls, generation => call.Counts contentHash generation ∧
      CountsAll contentHash calls (call.resume contentHash generation).1

theorem countsAll_append (first rest : List ResumeCall) (generation : Generation) :
    CountsAll contentHash (first ++ rest) generation ↔ CountsAll contentHash first generation ∧
      CountsAll contentHash rest (resumeAll contentHash first generation) := by
  induction first generalizing generation with
  | nil => exact iff_of_eq (true_and _).symm
  | cons call calls ih =>
    show call.Counts contentHash generation ∧ _ ↔ (call.Counts contentHash generation ∧ _) ∧ _
    rw [and_assoc]
    exact and_congr_right fun _ => ih _

theorem resume_tallies (hgraph : Reachable call.graph) (h : Tallies exact generation) :
    (∀ arrived, call.activated contentHash generation = some arrived →
      (arrived.index.length = arrived.record.documentsProjected ↔
        exact ∧ call.Counts contentHash generation)) ∧
    (call.activated contentHash generation = none →
      Tallies (exact ∧ call.Counts contentHash generation) (call.resume contentHash generation).1) := by
  unfold ResumeCall.activated ResumeCall.Counts ResumeCall.resume
  cases call.limits.validate with
  | error error => exact ⟨nofun, fun _ => (and_true exact).symm ▸ h⟩
  | ok limits => exact turns_tallies hgraph limits.maximumBatches h

/-- A candidate that is still building has not reached the count check. -/
theorem resume_building (hbuilding : (call.resume contentHash generation).1.record.state = .building) :
    call.activated contentHash generation = none ∧ generation.record.state = .building := by
  unfold ResumeCall.activated
  unfold ResumeCall.resume at hbuilding
  cases hvalid : call.limits.validate with
  | error error =>
    rw [hvalid] at hbuilding
    exact ⟨rfl, hbuilding⟩
  | ok limits =>
    rw [hvalid] at hbuilding
    dsimp only at hbuilding ⊢
    obtain ⟨hsome, hnone⟩ := turns_end contentHash call limits.maximumBatches generation
    cases harrived : call.activates contentHash limits.maximumBatches generation with
    | none => exact ⟨rfl, (hnone harrived).symm.trans hbuilding⟩
    | some arrived =>
      rw [hsome arrived harrived] at hbuilding
      unfold ResumeCall.activateValidated at hbuilding
      dsimp only at hbuilding
      split_ifs at hbuilding <;> cases hbuilding

theorem resumeAll_building {calls : List ResumeCall}
    (hbuilding : (resumeAll contentHash calls generation).record.state = .building) :
    generation.record.state = .building := by
  induction calls generalizing generation with
  | nil => exact hbuilding
  | cons call calls ih => exact (resume_building (ih hbuilding)).2

theorem resumeAll_tallies {calls : List ResumeCall} (hgraphs : ∀ c ∈ calls, Reachable c.graph)
    (h : Tallies exact generation)
    (hbuilding : (resumeAll contentHash calls generation).record.state = .building) :
    Tallies (exact ∧ CountsAll contentHash calls generation)
      (resumeAll contentHash calls generation) := by
  induction calls generalizing generation exact with
  | nil => exact (and_true exact).symm ▸ h
  | cons call calls ih =>
    obtain ⟨hgraph, hgraphs⟩ := List.forall_mem_cons.mp hgraphs
    have hnone := (resume_building (resumeAll_building hbuilding)).1
    have hrest := ih hgraphs ((resume_tallies hgraph h).2 hnone) hbuilding
    rw [and_assoc] at hrest
    exact hrest

/-- The generation that `recover_or_create_building` makes. -/
def createdGeneration (roots : List (List String)) (target stamp bytes now : Nat) : Generation :=
  ⟨⟨.building, target, roots, none, 0, 0, 0, 0, stamp, bytes, none, now, now⟩, []⟩

omit [CaseMapping] in
theorem createdGeneration_tallies (roots : List (List String)) (target stamp bytes now : Nat) :
    Tallies True (createdGeneration roots target stamp bytes now) :=
  ⟨List.nodup_nil, 0, rfl, iff_of_true rfl trivial⟩

/-- The counter is exact when the count is checked exactly if every turn that was
recorded has recounted what it found, and nothing is left behind the cursor. -/
theorem counter_exact_iff {roots : List (List String)} {target stamp bytes now : Nat}
    {calls : List ResumeCall} {arrived : Generation}
    (hgraphs : ∀ c ∈ calls ++ [call], Reachable c.graph)
    (hbuilding : (resumeAll contentHash calls
      (createdGeneration roots target stamp bytes now)).record.state = .building)
    (harrived : call.activated contentHash
      (resumeAll contentHash calls (createdGeneration roots target stamp bytes now)) = some arrived) :
    (arrived.index.length = arrived.record.documentsProjected ↔
      CountsAll contentHash (calls ++ [call]) (createdGeneration roots target stamp bytes now)) ∧
    ((call.resume contentHash (resumeAll contentHash calls
        (createdGeneration roots target stamp bytes now))).1.record.state = .failed ↔
      ¬ CountsAll contentHash (calls ++ [call]) (createdGeneration roots target stamp bytes now)) := by
  have htallies := resumeAll_tallies (fun c hc => hgraphs c (List.mem_append_left _ hc))
    (createdGeneration_tallies roots target stamp bytes now) hbuilding
  have hgraph : Reachable call.graph := hgraphs call (List.mem_append_right _ (List.mem_singleton_self _))
  have hexact : arrived.index.length = arrived.record.documentsProjected ↔
      CountsAll contentHash (calls ++ [call]) (createdGeneration roots target stamp bytes now) := by
    rw [(resume_tallies hgraph htallies).1 arrived harrived, countsAll_append, true_and]
    exact and_congr_right fun _ => iff_of_eq (and_true _).symm
  refine ⟨hexact, ?_⟩
  rw [← hexact]
  unfold ResumeCall.activated at harrived
  unfold ResumeCall.resume
  cases hvalid : call.limits.validate with
  | error error =>
    rw [hvalid] at harrived
    cases harrived
  | ok limits =>
    rw [hvalid] at harrived
    dsimp only at harrived ⊢
    rw [(turns_end contentHash call limits.maximumBatches _).1 arrived harrived]
    unfold ResumeCall.activateValidated
    dsimp only
    split_ifs with hcount
    · exact iff_of_true rfl hcount
    · exact iff_of_false nofun hcount

end Counting

section Example

attribute [local instance] asciiCaseMapping

/-- A call with room for everything, on one of the sample graphs. -/
def sampleCall (graph : FilesystemGraph) (crashes : Bool) : ResumeCall where
  graph := graph
  sources := sampleSources
  policy := sampleContentPolicy
  limits := ⟨2 ^ 40, 100, 0, 0, 16, 4⟩
  disk := fun _ => ⟨2 ^ 50, 2 ^ 50, 0⟩
  stamp := fun _ => 1
  bytes := fun _ => 0
  now := 1
  newId := "a"
  crashAfterCommit := fun _ => crashes

/-- A call that dies behind its first commit, one that comes after it, and one
that comes after a rename as well. -/
def crashing : ResumeCall := sampleCall contentSample true
def following : ResumeCall := sampleCall contentSample false
def followingRename : ResumeCall := sampleCall renamedContentSample false

/-- What the call hands to the count check after the crash. -/
def arrivedAt (call : ResumeCall) : Generation :=
  (call.activated sampleHash (resumeAll sampleHash [crashing]
    (createdGeneration sampleContentPolicy.roots 2 1 0 1))).getD ⟨⟨.failed, 0, [], none, 0, 0, 0, 0, 0, 0,
      none, 0, 0⟩, []⟩

theorem renamedContentSample_reachable : Reachable renamedContentSample := by
  have hrun : renameTextFile.run contentSample = .ok renamedContentSample := by decide +kernel
  exact contentSample_reachable.tail ⟨renameTextFile, trivial, hrun⟩

theorem crashing_building : (resumeAll sampleHash [crashing]
    (createdGeneration sampleContentPolicy.roots 2 1 0 1)).record.state = .building := by
  decide +kernel

/-- The page is recorded by the next call, with the document as it was. -/
theorem crashed_page_recounted :
    ((arrivedAt following).index.length = (arrivedAt following).record.documentsProjected ↔
      CountsAll sampleHash ([crashing] ++ [following])
        (createdGeneration sampleContentPolicy.roots 2 1 0 1)) ∧
    ((following.resume sampleHash (resumeAll sampleHash [crashing]
        (createdGeneration sampleContentPolicy.roots 2 1 0 1))).1.record.state = .failed ↔
      ¬ CountsAll sampleHash ([crashing] ++ [following])
        (createdGeneration sampleContentPolicy.roots 2 1 0 1)) := by
  have hgraphs : ∀ c ∈ [crashing] ++ [following], Reachable c.graph := by
    intro c hc
    rcases List.mem_cons.mp hc with rfl | hc
    · exact contentSample_reachable
    · rw [List.mem_singleton.mp hc]
      exact contentSample_reachable
  have harrived : following.activated sampleHash (resumeAll sampleHash [crashing]
      (createdGeneration sampleContentPolicy.roots 2 1 0 1)) = some (arrivedAt following) := by
    decide +kernel
  exact counter_exact_iff hgraphs crashing_building harrived

/-- The file is renamed between the commit and the next call: the replay leaves
its entry alone, the record does not count it, and the candidate fails. -/
theorem renamed_page_uncounted :
    ¬ ∀ (contentHash : String → String) (roots : List (List String)) (target stamp bytes now : Nat)
        (calls : List ResumeCall) (call : ResumeCall) (arrived : Generation),
        (∀ c ∈ calls ++ [call], Reachable c.graph) →
        (resumeAll contentHash calls
          (createdGeneration roots target stamp bytes now)).record.state = .building →
        call.activated contentHash (resumeAll contentHash calls
          (createdGeneration roots target stamp bytes now)) = some arrived →
        arrived.index.length = arrived.record.documentsProjected := by
  intro h
  have hgraphs : ∀ c ∈ [crashing] ++ [followingRename], Reachable c.graph := by
    intro c hc
    rcases List.mem_cons.mp hc with rfl | hc
    · exact contentSample_reachable
    · rw [List.mem_singleton.mp hc]
      exact renamedContentSample_reachable
  have harrived : followingRename.activated sampleHash (resumeAll sampleHash [crashing]
      (createdGeneration sampleContentPolicy.roots 2 1 0 1)) = some (arrivedAt followingRename) := by
    decide +kernel
  have hcount := h sampleHash sampleContentPolicy.roots 2 1 0 1 [crashing] followingRename
    (arrivedAt followingRename) hgraphs crashing_building harrived
  have hlive : (arrivedAt followingRename).index.length = 1 := by decide +kernel
  have hprojected : (arrivedAt followingRename).record.documentsProjected = 0 := by decide +kernel
  rw [hlive, hprojected] at hcount
  cases hcount

end Example

end LocalSearch.Content
