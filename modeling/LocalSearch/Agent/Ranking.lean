import LocalSearch.Agent.SearchWindow
import LocalSearch.Lib.Ranked
import Mathlib.Data.List.Dedup

/-!
# Canonical responses

While the candidates stay below the limit, the response is decided by which
documents the modes returned. Their order, and how many modes returned a
document, is lost in the list of distinct candidates and in the ranking, which
tells any two of them apart.
-/
namespace LocalSearch.Agent

set_option autoImplicit false

open Core Lib Catalog TextRules

section Rules

variable [TextRules]

/-- The candidates of the modes, from any retrieval. -/
def collectWith (retrieve : CatalogQueryMode → Nat → Except CatalogQueryError (List CatalogDocument))
    (candidateLimit : Nat) :
    List CatalogQueryMode → List CatalogDocument → Except CatalogQueryError (List CatalogDocument)
  | [], found => .ok found
  | mode :: modes, found =>
      if candidateLimit - found.length = 0 then .ok found
      else do
        let candidates ← retrieve mode (candidateLimit - found.length)
        collectWith retrieve candidateLimit modes (pushUnseen found candidates)

/-- `search_impl` over any retrieval. -/
def searchWith (retrieve : CatalogQueryMode → Nat → Except CatalogQueryError (List CatalogDocument))
    (request : SearchRequest) : Except SearchError (List SearchHit) :=
  let normalizedQuery := normalize request.query.toList
  if normalizedQuery = [] then .error .emptyQuery
  else do
    let topK := min request.topK maxTopK
    let candidates ← (collectWith retrieve (candidateLimit topK) (searchModes normalizedQuery)
      []).mapError .internal
    let ranked := (verified candidates request normalizedQuery).mergeSort
      fun left right => compareRanked left right ≠ .gt
    .ok ((ranked.take topK).mapIdx searchHit)

theorem collectCandidates_with [ScoreOrder] (documents : List CatalogDocument) (query : Text)
    (limit : Nat) (modes : List CatalogQueryMode) (found : List CatalogDocument) :
    collectCandidates documents query limit modes found =
      collectWith (searchCandidateDocuments documents query) limit modes found := by
  induction modes generalizing found with
  | nil => rfl
  | cons mode modes ih =>
    unfold collectCandidates collectWith
    split_ifs
    · rfl
    · exact congrArg _ (funext fun candidates => ih _)

/-- A search of the index is a search over its retrieval. -/
theorem searchImpl_with [ScoreOrder] (documents : List CatalogDocument) (request : SearchRequest) :
    searchImpl documents request =
      searchWith (searchCandidateDocuments documents (normalize request.query.toList)) request := by
  unfold searchImpl searchWith
  simp only [collectCandidates_with]

/-- The hits that the collected candidates come to. -/
def response (collected : List CatalogDocument) (request : SearchRequest) : List SearchHit :=
  (((verified collected request (normalize request.query.toList)).mergeSort
    (notAfter compareRanked)).take (min request.topK maxTopK)).mapIdx searchHit

theorem searchWith_ok
    {retrieve : CatalogQueryMode → Nat → Except CatalogQueryError (List CatalogDocument)}
    {request : SearchRequest} {hits : List SearchHit} :
    searchWith retrieve request = .ok hits ↔ normalize request.query.toList ≠ [] ∧
      ∃ collected, collectWith retrieve (candidateLimit (min request.topK maxTopK))
        (searchModes (normalize request.query.toList)) [] = .ok collected ∧
        hits = response collected request := by
  unfold searchWith
  dsimp only
  split_ifs with hempty
  · exact iff_of_false nofun fun h => h.1 hempty
  · rw [bind_ok]
    constructor
    · rintro ⟨collected, hcollected, hhits⟩
      exact ⟨hempty, collected, mapError_ok hcollected, (Except.ok.inj hhits).symm⟩
    · rintro ⟨-, collected, hcollected, rfl⟩
      exact ⟨collected, by rw [hcollected]; rfl, rfl⟩

instance : Std.TransCmp compareRanked :=
  inferInstanceAs (Std.TransCmp (compareLex
    (compareOn fun ranked : MatchType × CatalogDocument => rankClass ranked.1)
    (compareLex (compareOn fun ranked => normalize ranked.2.name.toList)
      (compareLex (compareOn fun ranked => normalize ranked.2.resolvedPath.toList)
        (compareOn fun ranked => ranked.2.identity.documentId)))))

/-- The last key of the comparison tells documents apart. -/
theorem documentId_of_compareRanked {a b : MatchType × CatalogDocument}
    (h : compareRanked a b = .eq) : a.2.identity.documentId = b.2.identity.documentId := by
  unfold compareRanked at h
  rw [Ordering.then_eq_eq, Ordering.then_eq_eq, Ordering.then_eq_eq] at h
  exact compare_eq_iff_eq.mp h.2.2.2

variable {documents : List CatalogDocument} {request : SearchRequest} {query : Text}

theorem verified_ids (h : UniqueDocuments documents) :
    (verified documents request query).Pairwise fun a b =>
      a.2.identity.documentId ≠ b.2.identity.documentId := by
  have hpairs : documents.Pairwise fun a b => a.identity.documentId ≠ b.identity.documentId :=
    List.pairwise_map.mp h
  refine (hpairs.filter _).filterMap _ ?_
  intro a b hne x hx y hy
  obtain ⟨_, -, rfl⟩ := Option.map_eq_some_iff.mp hx
  obtain ⟨_, -, rfl⟩ := Option.map_eq_some_iff.mp hy
  exact hne

theorem verified_apart (h : UniqueDocuments documents) :
    Apart compareRanked (verified documents request query) :=
  (verified_ids h).imp fun hne heq => hne (documentId_of_compareRanked heq)

theorem verified_nodup (h : UniqueDocuments documents) :
    (verified documents request query).Nodup :=
  (verified_ids h).imp fun hne heq => hne (congrArg (·.2.identity.documentId) heq)

/-- Which documents are verified decides the ranked list. -/
theorem ranked_eq {documents' : List CatalogDocument} (h : UniqueDocuments documents)
    (h' : UniqueDocuments documents') (hsame : ∀ d, d ∈ documents ↔ d ∈ documents') :
    (verified documents request query).mergeSort (notAfter compareRanked) =
      (verified documents' request query).mergeSort (notAfter compareRanked) := by
  refine (verified_apart h).ranked_eq ?_
  refine (List.perm_ext_iff_of_nodup (verified_nodup h) (verified_nodup h')).mpr ?_
  rintro ⟨matchType, document⟩
  rw [mem_verified, mem_verified, hsame]

/-- All that the modes of the search return. -/
def returned (lists : CatalogQueryMode → List CatalogDocument) (query : Text) : List CatalogDocument :=
  (searchModes query).flatMap lists

/-- The modes return fewer distinct documents than the candidate limit. -/
def BelowLimit (lists : CatalogQueryMode → List CatalogDocument) (request : SearchRequest) : Prop :=
  ((returned lists (normalize request.query.toList)).map (·.identity.documentId)).dedup.length <
    candidateLimit (min request.topK maxTopK)

variable {lists : CatalogQueryMode → List CatalogDocument}

omit [TextRules] in
/-- Below the limit every mode is asked, and every candidate is found. -/
theorem collectWith_lists {all : List CatalogDocument} {limit : Nat}
    (hunique : UniqueDocuments documents) (hall : all ⊆ documents)
    (hbelow : (all.map (·.identity.documentId)).dedup.length < limit) {modes : List CatalogQueryMode}
    (hmodes : ∀ mode ∈ modes, lists mode ⊆ all) {found : List CatalogDocument} (hfound : found ⊆ all)
    (hnodup : UniqueDocuments found) :
    ∃ collected, collectWith (fun mode _ => .ok (lists mode)) limit modes found = .ok collected ∧
      UniqueDocuments collected ∧
      ∀ d, d ∈ collected ↔ d ∈ found ∨ ∃ mode ∈ modes, d ∈ lists mode := by
  induction modes generalizing found with
  | nil => exact ⟨found, rfl, hnodup, fun d => by simp⟩
  | cons mode modes ih =>
    obtain ⟨hmode, hrest⟩ := List.forall_mem_cons.mp hmodes
    have hlength : found.length < limit := by
      have hids : found.map (·.identity.documentId) ⊆
          (all.map (·.identity.documentId)).dedup := by
        intro id hid
        rw [List.mem_dedup]
        exact List.map_subset _ hfound hid
      have hle := (hnodup.subperm hids).length_le
      rw [List.length_map] at hle
      omega
    have hmem : ∀ d, d ∈ pushUnseen found (lists mode) ↔ d ∈ found ∨ d ∈ lists mode :=
      fun d => mem_pushUnseen hunique (List.Subset.trans hfound hall) (List.Subset.trans hmode hall)
    have hpush : pushUnseen found (lists mode) ⊆ all := by
      intro d hd
      rcases (hmem d).mp hd with h | h
      · exact hfound h
      · exact hmode h
    obtain ⟨collected, hok, hcollected, hspec⟩ :=
      ih hrest hpush (uniqueDocuments_pushUnseen hnodup)
    refine ⟨collected, ?_, hcollected, fun d => ?_⟩
    · unfold collectWith
      rw [if_neg (by omega)]
      exact hok
    · rw [hspec, hmem, or_assoc, List.exists_mem_cons_iff]

/-- A candidate that passes the filters, with the type its match is classified as. -/
def Eligible (request : SearchRequest) (candidates : List CatalogDocument)
    (entry : MatchType × CatalogDocument) : Prop :=
  entry.2 ∈ candidates ∧ matchesFilters entry.2 request = true ∧
    classify entry.2 (normalize request.query.toList) = some entry.1

/-- The hits are the first of the eligible candidates, in strict order. -/
structure Canonical (request : SearchRequest) (candidates : List CatalogDocument)
    (hits : List SearchHit) : Prop where
  distinct : (hits.map (·.documentId)).Nodup
  bounded : hits.length ≤ request.topK
  numbered : ∀ index hit, hits[index]? = some hit → hit.rank = index + 1
  ranked : ∃ ranked : List (MatchType × CatalogDocument), hits = ranked.mapIdx searchHit ∧
    (∀ entry ∈ ranked, Eligible request candidates entry) ∧
    (ranked.Pairwise fun a b => compareRanked a b = .lt) ∧
    ∀ entry, Eligible request candidates entry → entry ∉ ranked →
      ranked.length = min request.topK maxTopK ∧ ∀ kept ∈ ranked, compareRanked kept entry = .lt

omit [TextRules] in
theorem documentIds_mapIdx (ranked : List (MatchType × CatalogDocument)) :
    (ranked.mapIdx searchHit).map (·.documentId) = ranked.map (·.2.identity.documentId) := by
  apply List.ext_getElem?
  intro index
  rw [List.getElem?_map, List.getElem?_mapIdx, List.getElem?_map, Option.map_map]
  rfl

/-- What is ranked and cut is canonical for the documents it comes from. -/
theorem ranked_canonical (h : UniqueDocuments documents) (candidates : List CatalogDocument)
    (hsame : ∀ d, d ∈ documents ↔ d ∈ candidates) :
    Canonical request candidates
      (response documents request) := by
  have hsorted : ((verified documents request (normalize request.query.toList)).mergeSort
      (notAfter compareRanked)).Pairwise fun a b => compareRanked a b = .lt :=
    (verified_apart h).ranked
  have hmem : ∀ entry, entry ∈ (verified documents request
      (normalize request.query.toList)).mergeSort (notAfter compareRanked) ↔
      Eligible request candidates entry := by
    rintro ⟨matchType, document⟩
    rw [List.mem_mergeSort, mem_verified, hsame]
    rfl
  have hids : ((verified documents request (normalize request.query.toList)).mergeSort
      (notAfter compareRanked)).Pairwise fun a b =>
        a.2.identity.documentId ≠ b.2.identity.documentId :=
    (verified_ids h).perm (List.mergeSort_perm _ _).symm Ne.symm
  unfold response
  generalize (verified documents request (normalize request.query.toList)).mergeSort
    (notAfter compareRanked) = all at hsorted hmem hids ⊢
  refine ⟨?_, ?_, ?_, all.take (min request.topK maxTopK), rfl, ?_, hsorted.take, ?_⟩
  · rw [documentIds_mapIdx]
    exact List.pairwise_map.mpr hids.take
  · rw [List.length_mapIdx, List.length_take]
    omega
  · intro index hit hhit
    rw [List.getElem?_mapIdx, Option.map_eq_some_iff] at hhit
    obtain ⟨entry, -, rfl⟩ := hhit
    rfl
  · exact fun entry hentry => (hmem entry).mp (List.mem_of_mem_take hentry)
  · exact fun entry heligible hcut => cut_after hsorted ((hmem entry).mpr heligible) hcut

/-- Below the limit the response is the ranking of all that the modes return. -/
theorem searchWith_lists (hne : normalize request.query.toList ≠ [])
    (hunique : UniqueDocuments documents)
    (hlists : returned lists (normalize request.query.toList) ⊆ documents)
    (hbelow : BelowLimit lists request) :
    ∃ collected, UniqueDocuments collected ∧
      (∀ d, d ∈ collected ↔ d ∈ returned lists (normalize request.query.toList)) ∧
      searchWith (fun mode _ => .ok (lists mode)) request = .ok (response collected request) := by
  obtain ⟨collected, hok, hcollected, hspec⟩ := collectWith_lists hunique hlists hbelow
    (fun mode hmode d hd => List.mem_flatMap.mpr ⟨mode, hmode, hd⟩) (List.nil_subset _)
    List.nodup_nil
  refine ⟨collected, hcollected, fun d => ?_, ?_⟩
  · rw [hspec, returned, List.mem_flatMap]
    exact or_iff_right List.not_mem_nil
  · exact searchWith_ok.mpr ⟨hne, collected, hok, rfl⟩

/-- The response is canonical, and the set of returned documents decides it. -/
theorem search_canonical (hne : normalize request.query.toList ≠ [])
    (hunique : UniqueDocuments documents)
    (hlists : returned lists (normalize request.query.toList) ⊆ documents)
    (hbelow : BelowLimit lists request) :
    ∃ hits, searchWith (fun mode _ => .ok (lists mode)) request = .ok hits ∧
      Canonical request (returned lists (normalize request.query.toList)) hits ∧
      ∀ lists' : CatalogQueryMode → List CatalogDocument, BelowLimit lists' request →
        (∀ d, d ∈ returned lists' (normalize request.query.toList) ↔
          d ∈ returned lists (normalize request.query.toList)) →
        searchWith (fun mode _ => .ok (lists' mode)) request = .ok hits := by
  obtain ⟨collected, hcollected, hspec, hsearch⟩ := searchWith_lists hne hunique hlists hbelow
  refine ⟨_, hsearch, ranked_canonical hcollected _ hspec, fun lists' hbelow' hsame => ?_⟩
  obtain ⟨collected', hcollected', hspec', hsearch'⟩ :=
    searchWith_lists hne hunique (fun d hd => hlists ((hsame d).mp hd)) hbelow'
  rw [hsearch', response, response,
    ranked_eq hcollected' hcollected fun d => by rw [hspec', hspec, hsame]]

omit [TextRules] in
theorem collectWith_congr
    {retrieve retrieve' : CatalogQueryMode → Nat → Except CatalogQueryError (List CatalogDocument)}
    {limit : Nat} {modes : List CatalogQueryMode} {found : List CatalogDocument}
    (h : ∀ mode ∈ modes, retrieve mode = retrieve' mode) :
    collectWith retrieve limit modes found = collectWith retrieve' limit modes found := by
  induction modes generalizing found with
  | nil => rfl
  | cons mode modes ih =>
    obtain ⟨hmode, hrest⟩ := List.forall_mem_cons.mp h
    unfold collectWith
    rw [hmode]
    split_ifs
    · rfl
    · exact congrArg _ (funext fun candidates => ih hrest)

omit [TextRules] in
/-- A loop that succeeds has been returned some list by every mode it asked. -/
theorem collectWith_returns
    {retrieve : CatalogQueryMode → Nat → Except CatalogQueryError (List CatalogDocument)}
    {limit : Nat} {modes : List CatalogQueryMode} (hmodes : modes.Nodup)
    {found collected : List CatalogDocument}
    (h : collectWith retrieve limit modes found = .ok collected) :
    ∃ lists : CatalogQueryMode → List CatalogDocument,
      (∀ mode, lists mode = [] ∨ ∃ remaining, retrieve mode remaining = .ok (lists mode)) ∧
      collectWith (fun mode _ => .ok (lists mode)) limit modes found = .ok collected := by
  induction modes generalizing found with
  | nil => exact ⟨fun _ => [], fun _ => .inl rfl, h⟩
  | cons mode modes ih =>
    obtain ⟨hmode, hmodes⟩ := List.nodup_cons.mp hmodes
    unfold collectWith at h
    split_ifs at h with hfull
    · refine ⟨fun _ => [], fun _ => .inl rfl, ?_⟩
      unfold collectWith
      rw [if_pos hfull]
      exact h
    · obtain ⟨candidates, hcandidates, hrest⟩ := bind_ok.mp h
      obtain ⟨lists, hlists, hcollect⟩ := ih hmodes hrest
      have hothers : ∀ m ∈ modes, Function.update lists mode candidates m = lists m :=
        fun m hm => Function.update_of_ne (ne_of_mem_of_not_mem hm hmode) _ _
      refine ⟨Function.update lists mode candidates, fun m => ?_, ?_⟩
      · by_cases hm : m = mode
        · subst hm
          rw [Function.update_self]
          exact .inr ⟨_, hcandidates⟩
        · rw [Function.update_of_ne hm]
          exact hlists m
      · unfold collectWith
        rw [if_neg hfull, Function.update_self, ok_bind,
          collectWith_congr fun m hm => funext fun _ => congrArg Except.ok (hothers m hm)]
        exact hcollect

/-- Every search of an index is one over lists of its documents, and its response
is canonical when these stay below the limit. -/
theorem searchImpl_canonical [ScoreOrder] {hits : List SearchHit} (hunique : UniqueDocuments documents)
    (h : searchImpl documents request = .ok hits) :
    ∃ lists, returned lists (normalize request.query.toList) ⊆ documents ∧
      searchWith (fun mode _ => .ok (lists mode)) request = .ok hits ∧
      (BelowLimit lists request →
        Canonical request (returned lists (normalize request.query.toList)) hits) := by
  rw [searchImpl_with, searchWith_ok] at h
  obtain ⟨hne, collected, hcollected, hhits⟩ := h
  have hmodes : (searchModes (normalize request.query.toList)).Nodup := by
    unfold searchModes
    split_ifs <;> decide
  obtain ⟨lists, hlists, hcollect⟩ := collectWith_returns hmodes hcollected
  have hsubset : returned lists (normalize request.query.toList) ⊆ documents := by
    intro d hd
    obtain ⟨mode, -, hd⟩ := List.mem_flatMap.mp hd
    rcases hlists mode with hnone | ⟨remaining, hsome⟩
    · rw [hnone] at hd
      cases hd
    · obtain ⟨candidates, hcandidates, htake⟩ := bind_ok.mp hsome
      obtain ⟨textQuery, -, hspec⟩ := mem_candidateDocuments hcandidates
      rw [← Except.ok.inj htake] at hd
      exact ((hspec d).mp (List.mem_of_mem_take hd)).1
  have hsearch : searchWith (fun mode _ => .ok (lists mode)) request = .ok hits :=
    searchWith_ok.mpr ⟨hne, collected, hcollect, hhits⟩
  refine ⟨lists, hsubset, hsearch, fun hbelow => ?_⟩
  obtain ⟨distinct, hdistinct, hspec, hranked⟩ := searchWith_lists hne hunique hsubset hbelow
  rw [Except.ok.inj (hsearch.symm.trans hranked)]
  exact ranked_canonical hdistinct _ hspec

end Rules

section Example

attribute [local instance] asciiTextRules

/-- A mode that returns nothing new, and one that returns the same twice. -/
def overlapping : CatalogQueryMode → List CatalogDocument
  | .substring => [report, report]
  | .token => [report]
  | _ => []

theorem port_canonical : ∃ hits,
    searchWith (fun mode _ => .ok (overlapping mode)) portFiles = .ok hits ∧
    Canonical portFiles (returned overlapping (normalize portFiles.query.toList)) hits ∧
    ∀ lists' : CatalogQueryMode → List CatalogDocument, BelowLimit lists' portFiles →
      (∀ d, d ∈ returned lists' (normalize portFiles.query.toList) ↔
        d ∈ returned overlapping (normalize portFiles.query.toList)) →
      searchWith (fun mode _ => .ok (lists' mode)) portFiles = .ok hits :=
  @search_canonical _ [report] portFiles overlapping (by decide)
    (List.nodup_singleton _) (by decide) (by unfold BelowLimit; decide)

end Example

end LocalSearch.Agent
