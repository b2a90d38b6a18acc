import LocalSearch.Agent.Search
import Mathlib.Data.List.Perm.Basic

/-!
# The candidate window

A search looks at no more candidates than its limit, over all its modes together.
A response with fewer than `top_k` hits therefore has every match of this window,
and every match of the index when the limit cut no mode short.
-/
namespace LocalSearch.Agent

set_option autoImplicit false

open Core Lib Catalog TextRules

section Rules

variable [TextRules] [ScoreOrder]

/-- What a mode finds without a limit. -/
def matching (documents : List CatalogDocument) (query : Text) (mode : CatalogQueryMode) :
    List CatalogDocument :=
  match candidateDocuments documents query mode with
  | .ok candidates => candidates
  | .error _ => []

/-- The candidates that a search looks at: each mode adds from what it finds, in
the order of the engine, as many as the modes before it leave of the limit. -/
def window (documents : List CatalogDocument) (query : Text) (limit : Nat) :
    List CatalogQueryMode → List CatalogDocument → List CatalogDocument
  | [], found => found
  | mode :: modes, found =>
      window documents query limit modes
        (pushUnseen found ((matching documents query mode).take (limit - found.length)))

/-- The documents that one of the modes finds. -/
def foundBy (documents : List CatalogDocument) (query : Text) (modes : List CatalogQueryMode) :
    List CatalogDocument :=
  documents.filter fun document => modes.any fun mode => document ∈ matching documents query mode

/-- What a mode finds fits what the documents of the modes before it leave of the
limit, for every mode of the search. -/
def Fits (documents : List CatalogDocument) (query : Text) (limit : Nat) : Prop :=
  ∀ earlier mode later, searchModes query = earlier ++ mode :: later →
    (foundBy documents query earlier).length + (matching documents query mode).length ≤ limit

/-- One of the hits is the document. -/
def Returned (hits : List SearchHit) (document : CatalogDocument) : Prop :=
  ∃ index matchType, hits[index]? = some (searchHit index (matchType, document))

variable {documents found candidates : List CatalogDocument} {document : CatalogDocument}
  {query : Text} {limit : Nat} {modes : List CatalogQueryMode}

section Unseen

omit [TextRules] [ScoreOrder]

theorem eq_of_documentId (hunique : UniqueDocuments documents) {a b : CatalogDocument}
    (ha : a ∈ documents) (hb : b ∈ documents)
    (h : a.identity.documentId = b.identity.documentId) : a = b :=
  List.inj_on_of_nodup_map hunique ha hb h

theorem mem_pushUnseen (hunique : UniqueDocuments documents) (hfound : found ⊆ documents)
    (hcandidates : candidates ⊆ documents) :
    document ∈ pushUnseen found candidates ↔ document ∈ found ∨ document ∈ candidates := by
  induction candidates generalizing found with
  | nil => simp [pushUnseen]
  | cons c rest ih =>
    obtain ⟨hc, hrest⟩ := List.cons_subset.mp hcandidates
    rw [pushUnseen]
    split
    · next hseen =>
      obtain ⟨d, hd, hid⟩ := List.mem_map.mp hseen
      have hin : c ∈ found := eq_of_documentId hunique (hfound hd) hc hid ▸ hd
      rw [ih hfound hrest, List.mem_cons]
      constructor
      · rintro (h | h)
        · exact .inl h
        · exact .inr (.inr h)
      · rintro (h | rfl | h)
        · exact .inl h
        · exact .inl hin
        · exact .inr h
    · have hpush : found ++ [c] ⊆ documents :=
        List.append_subset.mpr ⟨hfound, List.cons_subset.mpr ⟨hc, List.nil_subset _⟩⟩
      rw [ih hpush hrest, List.mem_append, List.mem_singleton, List.mem_cons, or_assoc]

theorem uniqueDocuments_pushUnseen (h : UniqueDocuments found) :
    UniqueDocuments (pushUnseen found candidates) := by
  induction candidates generalizing found with
  | nil => exact h
  | cons c rest ih =>
    rw [pushUnseen]
    split
    · exact ih h
    · next hunseen =>
      refine ih ?_
      rw [UniqueDocuments, List.map_append, List.map_singleton]
      exact List.nodup_append.mpr ⟨h, List.nodup_singleton _, fun a ha b hb => by
        obtain rfl := List.mem_singleton.mp hb
        rintro rfl
        exact hunseen ha⟩

end Unseen

theorem matching_subset (mode : CatalogQueryMode) : matching documents query mode ⊆ documents := by
  intro d hd
  rw [matching] at hd
  split at hd
  · next candidates hok =>
    obtain ⟨textQuery, -, hspec⟩ := mem_candidateDocuments hok
    exact ((hspec d).mp hd).1
  · cases hd

theorem matching_length_le (mode : CatalogQueryMode) :
    (matching documents query mode).length ≤ documents.length := by
  rw [matching]
  split
  · next candidates hok =>
    obtain ⟨textQuery, -, h⟩ := bind_ok.mp hok
    obtain rfl := Except.ok.inj h
    rw [(ScoreOrder.order_perm _ _).length_eq]
    exact List.length_filter_le _ _
  · exact Nat.zero_le _

/-- A catalog of at most half the limit is never cut. -/
theorem fits_of_length_le (h : 2 * documents.length ≤ limit) : Fits documents query limit := by
  intro earlier mode later _
  have hfound : (foundBy documents query earlier).length ≤ documents.length :=
    List.length_filter_le _ _
  have hmatching : (matching documents query mode).length ≤ documents.length :=
    matching_length_le mode
  omega

theorem window_full (h : limit ≤ found.length) :
    window documents query limit modes found = found := by
  induction modes with
  | nil => rfl
  | cons mode modes ih =>
    rw [window, Nat.sub_eq_zero_of_le h, List.take_zero, pushUnseen]
    exact ih

theorem window_subset (hunique : UniqueDocuments documents) (hfound : found ⊆ documents) :
    window documents query limit modes found ⊆ documents := by
  induction modes generalizing found with
  | nil => exact hfound
  | cons mode modes ih =>
    have htake : (matching documents query mode).take (limit - found.length) ⊆ documents :=
      List.Subset.trans (List.take_subset _ _) (matching_subset mode)
    rw [window]
    apply ih
    intro d hd
    rcases (mem_pushUnseen hunique hfound htake).mp hd with h | h
    · exact hfound h
    · exact htake h

theorem collectCandidates_window
    (h : collectCandidates documents query limit modes found = .ok candidates) :
    candidates = window documents query limit modes found := by
  induction modes generalizing found with
  | nil => exact (Except.ok.inj h).symm
  | cons mode modes ih =>
    rw [collectCandidates] at h
    split at h
    · next hfull =>
      rw [window_full (Nat.sub_eq_zero_iff_le.mp hfull)]
      exact (Except.ok.inj h).symm
    · obtain ⟨retrieved, hretrieved, h⟩ := bind_ok.mp h
      obtain ⟨all, hall, hretrieved⟩ := bind_ok.mp hretrieved
      obtain rfl := Except.ok.inj hretrieved
      have hmatching : matching documents query mode = all := by rw [matching, hall]
      rw [window, hmatching]
      exact ih h

theorem mem_foundBy : document ∈ foundBy documents query modes ↔
    document ∈ documents ∧ ∃ mode ∈ modes, document ∈ matching documents query mode := by
  simp [foundBy]

/-- While nothing is cut, the collected candidates are what the modes so far find. -/
theorem mem_window_of_fits (hunique : UniqueDocuments documents)
    (hfits : Fits documents query limit) {earlier : List CatalogQueryMode}
    (hmodes : searchModes query = earlier ++ modes) (hfound : found ⊆ documents)
    (hnodup : UniqueDocuments found)
    (hearlier : ∀ d, d ∈ found ↔ d ∈ foundBy documents query earlier) :
    document ∈ window documents query limit modes found ↔
      document ∈ foundBy documents query (searchModes query) := by
  induction modes generalizing found earlier with
  | nil =>
    rw [hmodes, List.append_nil]
    exact hearlier document
  | cons mode modes ih =>
    have hlength : found.length = (foundBy documents query earlier).length := by
      have hfoundBy : (foundBy documents query earlier).Nodup :=
        (List.Nodup.of_map _ hunique).filter _
      exact ((List.perm_ext_iff_of_nodup (List.Nodup.of_map _ hnodup) hfoundBy).mpr
        hearlier).length_eq
    have hwhole : (matching documents query mode).take (limit - found.length) =
        matching documents query mode := by
      apply List.take_of_length_le
      have := hfits earlier mode modes hmodes
      omega
    have hmem : ∀ d, d ∈ pushUnseen found (matching documents query mode) ↔
        d ∈ found ∨ d ∈ matching documents query mode :=
      fun d => mem_pushUnseen hunique hfound (matching_subset mode)
    have hmodes' : searchModes query = (earlier ++ [mode]) ++ modes := by
      rw [hmodes, List.append_assoc]
      rfl
    rw [window, hwhole]
    apply ih hmodes'
    · intro d hd
      rcases (hmem d).mp hd with h | h
      · exact hfound h
      · exact matching_subset mode h
    · exact uniqueDocuments_pushUnseen hnodup
    · intro d
      rw [hmem, hearlier, mem_foundBy, mem_foundBy]
      constructor
      · rintro (⟨hd, m, hm, h⟩ | h)
        · exact ⟨hd, m, List.mem_append_left _ hm, h⟩
        · exact ⟨matching_subset mode h, mode, by simp, h⟩
      · rintro ⟨hd, m, hm, h⟩
        rcases List.mem_append.mp hm with hm | hm
        · exact .inl ⟨hd, m, hm, h⟩
        · obtain rfl := List.mem_singleton.mp hm
          exact .inr h

section Verified

omit [ScoreOrder]

theorem mem_verified {request : SearchRequest} {matchType : MatchType} :
    (matchType, document) ∈ verified documents request query ↔
      document ∈ documents ∧ matchesFilters document request = true ∧
        classify document query = some matchType := by
  rw [verified, List.mem_filterMap]
  constructor
  · rintro ⟨d, hd, heq⟩
    obtain ⟨m, hm, heq⟩ := Option.map_eq_some_iff.mp heq
    obtain ⟨rfl, rfl⟩ := Prod.mk.inj heq
    obtain ⟨hmem, hfilters⟩ := List.mem_filter.mp hd
    exact ⟨hmem, hfilters, hm⟩
  · rintro ⟨hmem, hfilters, hclass⟩
    exact ⟨document, List.mem_filter.mpr ⟨hmem, hfilters⟩, by rw [hclass]; rfl⟩

omit [TextRules] in
/-- A document is returned where it stands among the ranked ones. -/
theorem returned_mapIdx (hunique : UniqueDocuments documents) (hmem : document ∈ documents)
    {ranked : List (MatchType × CatalogDocument)} (hranked : ∀ entry ∈ ranked, entry.2 ∈ documents) :
    Returned (ranked.mapIdx searchHit) document ↔ ∃ matchType, (matchType, document) ∈ ranked := by
  constructor
  · rintro ⟨index, matchType, h⟩
    rw [List.getElem?_mapIdx, Option.map_eq_some_iff] at h
    obtain ⟨entry, hentry, heq⟩ := h
    have hin := List.mem_of_getElem? hentry
    have hid : entry.2.identity.documentId = document.identity.documentId :=
      congrArg SearchHit.documentId heq
    obtain rfl := eq_of_documentId hunique (hranked entry hin) hmem hid
    exact ⟨entry.1, hin⟩
  · rintro ⟨matchType, h⟩
    obtain ⟨index, hindex⟩ := List.mem_iff_getElem?.mp h
    exact ⟨index, matchType, by rw [List.getElem?_mapIdx, hindex]; rfl⟩

end Verified

theorem searchImpl_ok {request : SearchRequest} {hits : List SearchHit}
    (h : searchImpl documents request = .ok hits) :
    normalize request.query.toList ≠ [] ∧
    ∃ ranked : List (MatchType × CatalogDocument),
      ranked.Perm (verified (window documents (normalize request.query.toList)
        (candidateLimit (min request.topK maxTopK)) (searchModes (normalize request.query.toList))
        []) request (normalize request.query.toList)) ∧
      hits = (ranked.take (min request.topK maxTopK)).mapIdx searchHit := by
  rw [searchImpl] at h
  split at h
  · cases h
  · next hne =>
    obtain ⟨candidates, hcandidates, h⟩ := bind_ok.mp h
    cases hcollect : collectCandidates documents (normalize request.query.toList)
        (candidateLimit (min request.topK maxTopK))
        (searchModes (normalize request.query.toList)) [] with
    | error e =>
      rw [hcollect] at hcandidates
      cases hcandidates
    | ok all =>
      rw [hcollect] at hcandidates
      obtain rfl : all = candidates := Except.ok.inj hcandidates
      rw [← collectCandidates_window hcollect]
      exact ⟨hne, _, List.mergeSort_perm _ _, (Except.ok.inj h).symm⟩

/-- A response with fewer than `top_k` hits has every document of the window that
matches by name, and every such document when the limit cuts no mode short. -/
theorem under_full_response_complete {request : SearchRequest} {hits : List SearchHit}
    (hunique : UniqueDocuments documents) (htop : request.topK ≤ maxTopK)
    (hnormalized : Normalized (normalize request.query.toList))
    (hall : Alphanumeric (normalize request.query.toList))
    (hsearch : searchImpl documents request = .ok hits) (hlt : hits.length < request.topK)
    (hmem : document ∈ documents) (hfilters : matchesFilters document request = true)
    (hmatch : MatchesName document (normalize request.query.toList)) :
    (Returned hits document ↔
      document ∈ window documents (normalize request.query.toList) (candidateLimit request.topK)
        (searchModes (normalize request.query.toList)) []) ∧
    (Fits documents (normalize request.query.toList) (candidateLimit request.topK) →
      Returned hits document) := by
  obtain ⟨hne, ranked, hperm, rfl⟩ := searchImpl_ok hsearch
  rw [Nat.min_eq_left htop] at hperm hlt ⊢
  have hwhole : ranked.take request.topK = ranked := by
    rw [List.length_mapIdx, List.length_take] at hlt
    apply List.take_of_length_le
    omega
  have hwindow : window documents (normalize request.query.toList) (candidateLimit request.topK)
      (searchModes (normalize request.query.toList)) [] ⊆ documents :=
    window_subset hunique (List.nil_subset _)
  have hreturned : Returned (ranked.mapIdx searchHit) document ↔
      document ∈ window documents (normalize request.query.toList) (candidateLimit request.topK)
        (searchModes (normalize request.query.toList)) [] := by
    rw [returned_mapIdx hunique hmem fun entry hentry =>
      hwindow (mem_verified.mp (hperm.mem_iff.mp hentry)).1]
    constructor
    · rintro ⟨matchType, h⟩
      exact (mem_verified.mp (hperm.mem_iff.mp h)).1
    · intro h
      obtain ⟨matchType, hclass, -⟩ := hmatch
      exact ⟨matchType, hperm.mem_iff.mpr (mem_verified.mpr ⟨h, hfilters, hclass⟩)⟩
  rw [hwhole]
  refine ⟨hreturned, fun hfits => hreturned.mpr ?_⟩
  obtain ⟨mode, hmode, candidates, hcandidates, hfound⟩ :=
    exists_mode hnormalized hall hne hmem hmatch
  have hfoundBy : document ∈ foundBy documents (normalize request.query.toList)
      (searchModes (normalize request.query.toList)) :=
    mem_foundBy.mpr ⟨hmem, mode, hmode, by rw [matching, hcandidates]; exact hfound⟩
  have hnone : ∀ d, d ∈ ([] : List CatalogDocument) ↔
      d ∈ foundBy documents (normalize request.query.toList) [] := by
    simp [foundBy]
  exact (mem_window_of_fits hunique hfits (List.nil_append _).symm (List.nil_subset _)
    List.nodup_nil hnone).mpr hfoundBy

end Rules

section Example

attribute [local instance] asciiTextRules indexOrder

def portFiles : SearchRequest := ⟨"Port", .files, ⟨[], none, none, none⟩, 5⟩

theorem port_response_complete :
    Returned [searchHit 0 (.substringName, report)] report := by
  have hunique : UniqueDocuments [report] := List.nodup_singleton _
  have hsearch : searchImpl [report] portFiles = .ok [searchHit 0 (.substringName, report)] := by
    decide +kernel
  exact (under_full_response_complete hunique (by decide) (by decide) (by decide)
    hsearch (by decide) (List.mem_singleton.mpr rfl) (by decide)
    ⟨.substringName, by decide, by decide⟩).2 (fits_of_length_le (by decide))

/-- Two hundred directories and then a file, all of one name. -/
def namesakes : List CatalogDocument :=
  (List.range 200).map (fun n => sampleDocument n .directory "ab" "c:/ab") ++
    [sampleDocument 200 .file "ab" "c:/ab"]

def abFiles : SearchRequest := ⟨"ab", .files, ⟨[], none, none, none⟩, 1⟩

/-- The directories fill the window, the scope drops them, and the file is lost. -/
theorem namesakes_hide_file :
    ¬ ∀ (documents : List CatalogDocument) (request : SearchRequest) (hits : List SearchHit)
        (document : CatalogDocument), UniqueDocuments documents → request.topK ≤ maxTopK →
        Normalized (normalize request.query.toList) →
        Alphanumeric (normalize request.query.toList) →
        searchImpl documents request = .ok hits → hits.length < request.topK →
        document ∈ documents → matchesFilters document request = true →
        MatchesName document (normalize request.query.toList) → Returned hits document := by
  intro h
  have hsearch : searchImpl namesakes abFiles = .ok [] := by decide +kernel
  have hids : namesakes.map (·.identity.documentId) =
      (List.range 201).map fun n => .fromU128 n := rfl
  have hunique : UniqueDocuments namesakes := by
    rw [UniqueDocuments, hids]
    refine List.nodup_range.map_on fun m hm n hn heq => ?_
    have hbits := congrArg Id128.asU128 heq
    simp only [Id128.asU128, Id128.fromU128, BitVec.toNat_ofNat] at hbits
    have := List.mem_range.mp hm
    have := List.mem_range.mp hn
    omega
  obtain ⟨index, matchType, hindex⟩ :=
    h namesakes abFiles [] (sampleDocument 200 .file "ab" "c:/ab") hunique (by decide)
      (by decide) (by decide) hsearch (by decide)
      (List.mem_append_right _ (List.mem_singleton.mpr rfl)) (by decide)
      ⟨.exactName, by decide, by decide⟩
  cases hindex

end Example

end LocalSearch.Agent
