import LocalSearch.Catalog.Retrieval

/-!
# Catalog search

A search collects candidates mode by mode within one limit, drops what the
filters exclude, classifies the rest on name and path, ranks and cuts at `top_k`.
Classification looks at the raw name and retrieval at the fields of the index:
for alphanumeric queries they agree, for queries with separators they do not.
-/
namespace LocalSearch.Agent

set_option autoImplicit false

open Core Lib Catalog

inductive SearchScope where
  | all
  | files
  | folders
  deriving DecidableEq, Repr

structure SearchFilter where
  extensions : List String
  directoryPrefix : Option String
  minimumSize : Option Nat
  maximumSize : Option Nat
  deriving DecidableEq, Repr

structure SearchRequest where
  query : String
  scope : SearchScope
  filters : SearchFilter
  topK : Nat
  deriving DecidableEq, Repr

inductive MatchType where
  | exactName
  | prefixName
  | tokenName
  | substringName
  | path
  deriving DecidableEq, Repr

structure SearchHit where
  documentId : DocumentId
  objectKey : FileKey
  fileLinkId : FileLinkId
  name : String
  resolvedPath : String
  extension : Option String
  kind : FileKind
  size : Nat
  modifiedAtUnixMs : Option Int
  availability : Availability
  matchType : MatchType
  rank : Nat
  rankingVersion : Nat
  deriving DecidableEq, Repr

inductive SearchError where
  | emptyQuery
  | internal (error : CatalogQueryError)
  deriving DecidableEq, Repr

def maxTopK : Nat := 100

def maxCandidates : Nat := 5000

def rankingVersion : Nat := 1

section Rules

variable [TextRules]

open TextRules

def matchesFilters (document : CatalogDocument) (request : SearchRequest) : Bool :=
  !(request.scope = .files && document.metadata.kind = .directory) &&
  !(request.scope = .folders && document.metadata.kind ≠ .directory) &&
  (request.filters.extensions.isEmpty || document.extension.any fun extension =>
    request.filters.extensions.any fun expected =>
      TextRules.normalize expected.toList = TextRules.normalize extension.toList) &&
  !(request.filters.directoryPrefix.any fun directory =>
    !(normalize directory.toList).isPrefixOf (normalize document.resolvedPath.toList)) &&
  !(request.filters.minimumSize.any fun minimum => document.metadata.size < minimum) &&
  !(request.filters.maximumSize.any fun maximum => document.metadata.size > maximum)

def classify (document : CatalogDocument) (query : Text) : Option MatchType :=
  let name := normalize document.name.toList
  if name = query then some .exactName
  else if query <+: name then some .prefixName
  else if query ∈ tokens name then some .tokenName
  else if 3 ≤ query.length ∧ query <:+: name then some .substringName
  else if query <:+: normalize document.resolvedPath.toList then some .path
  else none

def rankClass : MatchType → Nat
  | .exactName => 0
  | .prefixName => 1
  | .tokenName => 2
  | .substringName => 3
  | .path => 4

/-- `compare_ranked` with names and paths compared by their characters. -/
def compareRanked (left right : MatchType × CatalogDocument) : Ordering :=
  (compare (rankClass left.1) (rankClass right.1)).then <|
  (compare (normalize left.2.name.toList) (normalize right.2.name.toList)).then <|
  (compare (normalize left.2.resolvedPath.toList) (normalize right.2.resolvedPath.toList)).then <|
  compare left.2.identity.documentId right.2.identity.documentId

/-- The modes a search tries, in order. -/
def searchModes (normalizedQuery : Text) : List CatalogQueryMode :=
  if 3 ≤ normalizedQuery.length then [.exact, .prefixed, .token, .path, .substring]
  else [.exact, .prefixed, .token, .path]

/-- Candidates not yet seen are added at the end. -/
def pushUnseen (found : List CatalogDocument) : List CatalogDocument → List CatalogDocument
  | [] => found
  | document :: rest =>
      if document.identity.documentId ∈ found.map (·.identity.documentId) then pushUnseen found rest
      else pushUnseen (found ++ [document]) rest

/-- The candidates of the modes, together within the limit. -/
def collectCandidates [ScoreOrder] (documents : List CatalogDocument) (normalizedQuery : Text)
    (candidateLimit : Nat) : List CatalogQueryMode → List CatalogDocument →
      Except CatalogQueryError (List CatalogDocument)
  | [], found => .ok found
  | mode :: modes, found =>
      if candidateLimit - found.length = 0 then .ok found
      else do
        let candidates ← searchCandidateDocuments documents normalizedQuery mode
          (candidateLimit - found.length)
        collectCandidates documents normalizedQuery candidateLimit modes (pushUnseen found candidates)

def candidateLimit (topK : Nat) : Nat := min (max (topK * 40) 200) maxCandidates

/-- The candidates that pass the filters and match, with how they match. -/
def verified (documents : List CatalogDocument) (request : SearchRequest) (normalizedQuery : Text) :
    List (MatchType × CatalogDocument) :=
  (documents.filter (matchesFilters · request)).filterMap fun document =>
    (classify document normalizedQuery).map (·, document)

def searchHit (index : Nat) (ranked : MatchType × CatalogDocument) : SearchHit where
  documentId := ranked.2.identity.documentId
  objectKey := ranked.2.identity.objectKey
  fileLinkId := ranked.2.identity.fileLinkId
  name := ranked.2.name
  resolvedPath := ranked.2.resolvedPath
  extension := ranked.2.extension
  kind := ranked.2.metadata.kind
  size := ranked.2.metadata.size
  modifiedAtUnixMs := ranked.2.metadata.modifiedAtUnixMs
  availability := ranked.2.metadata.availability
  matchType := ranked.1
  rank := index + 1
  rankingVersion := rankingVersion

/-- `search_impl` on one snapshot of the index, without deadline or cancellation. -/
def searchImpl [ScoreOrder] (documents : List CatalogDocument) (request : SearchRequest) :
    Except SearchError (List SearchHit) :=
  let normalizedQuery := normalize request.query.toList
  if normalizedQuery = [] then .error .emptyQuery
  else do
    let topK := min request.topK maxTopK
    let candidates ← (collectCandidates documents normalizedQuery (candidateLimit topK)
      (searchModes normalizedQuery) []).mapError .internal
    let ranked := (verified candidates request normalizedQuery).mergeSort
      fun left right => compareRanked left right ≠ .gt
    .ok ((ranked.take topK).mapIdx searchHit)

/-- The document is classified by its name. -/
def MatchesName (document : CatalogDocument) (query : Text) : Prop :=
  ∃ matchType, classify document query = some matchType ∧ matchType ≠ .path

theorem matchesName_iff {document : CatalogDocument} {query : Text} :
    MatchesName document query ↔
      normalize document.name.toList = query ∨ query <+: normalize document.name.toList ∨
        query ∈ tokens (normalize document.name.toList) ∨
        (3 ≤ query.length ∧ query <:+: normalize document.name.toList) := by
  unfold MatchesName classify
  dsimp only
  split
  · next h => exact iff_of_true ⟨_, rfl, by decide⟩ (.inl h)
  next hexact =>
  split
  · next h => exact iff_of_true ⟨_, rfl, by decide⟩ (.inr (.inl h))
  next hbegins =>
  split
  · next h => exact iff_of_true ⟨_, rfl, by decide⟩ (.inr (.inr (.inl h)))
  next htoken =>
  split
  · next h => exact iff_of_true ⟨_, rfl, by decide⟩ (.inr (.inr (.inr h)))
  next hsubstring =>
  refine iff_of_false ?_ ?_
  · rintro ⟨matchType, heq, hne⟩
    split at heq
    · exact hne (Option.some.inj heq).symm
    · cases heq
  · rintro (h | h | h | h)
    · exact hexact h
    · exact hbegins h
    · exact htoken h
    · exact hsubstring h

section Retrieval

variable [ScoreOrder] {documents : List CatalogDocument} {document : CatalogDocument} {query : Text}

theorem mem_candidateDocuments {mode : CatalogQueryMode} {candidates : List CatalogDocument}
    (h : candidateDocuments documents query mode = .ok candidates) :
    ∃ textQuery, queryFor (normalize query) mode = .ok textQuery ∧
      ∀ d, d ∈ candidates ↔ d ∈ documents ∧ textQuery.matches d = true := by
  obtain ⟨textQuery, hquery, h⟩ := bind_ok.mp h
  obtain rfl := Except.ok.inj h
  refine ⟨textQuery, hquery, fun d => ?_⟩
  rw [(ScoreOrder.order_perm _ _).mem_iff, List.mem_filter]

/-- A query of some mode that finds the document. -/
theorem candidateDocuments_of {mode : CatalogQueryMode} {textQuery : TextQuery}
    (hnormalized : Normalized query) (hmem : document ∈ documents)
    (hquery : queryFor query mode = .ok textQuery) (hmatches : textQuery.matches document = true) :
    ∃ candidates, candidateDocuments documents query mode = .ok candidates ∧
      document ∈ candidates := by
  refine ⟨ScoreOrder.order textQuery (documents.filter textQuery.matches), ?_, ?_⟩
  · rw [candidateDocuments, hnormalized, hquery]
    rfl
  · rw [(ScoreOrder.order_perm _ _).mem_iff, List.mem_filter]
    exact ⟨hmem, hmatches⟩

/-- Some mode finds what the name matches: the substring mode where the query is
long enough for it, and the fields of whole names, prefixes and tokens where the
query is too short to meet their bounds. -/
theorem exists_mode (hnormalized : Normalized query) (hall : Alphanumeric query) (hne : query ≠ [])
    (hmem : document ∈ documents) (hmatch : MatchesName document query) :
    ∃ mode ∈ searchModes query, ∃ candidates,
      candidateDocuments documents query mode = .ok candidates ∧ document ∈ candidates := by
  by_cases hthree : 3 ≤ query.length
  · have hwithin : query <:+: normalize document.name.toList := by
      rcases matchesName_iff.mp hmatch with h | h | h | h
      · exact h ▸ List.infix_rfl
      · exact h.isInfix
      · exact (mem_runs h).2.2
      · exact h.2
    obtain ⟨textQuery, hquery, hmatches⟩ := matches_substring hall hthree hwithin
    refine ⟨.substring, ?_, candidateDocuments_of hnormalized hmem hquery hmatches⟩
    rw [searchModes, if_pos hthree]
    decide
  · have hbytes : textBytes query < 40 := by
      have := textBytes_le query
      omega
    have hmodes : searchModes query = [.exact, .prefixed, .token, .path] := if_neg hthree
    rw [hmodes]
    rcases matchesName_iff.mp hmatch with h | h | h | h
    · exact ⟨.exact, by decide, candidateDocuments_of hnormalized hmem rfl (matches_exact.mpr h)⟩
    · obtain ⟨token, htoken, hbegins⟩ := exists_run_of_prefix hall hne h
      exact ⟨.prefixed, by decide, candidateDocuments_of hnormalized hmem rfl
        (matches_prefixed htoken hbegins hne (by omega) hbytes)⟩
    · refine ⟨.token, by decide, candidateDocuments_of hnormalized hmem rfl ?_⟩
      rw [matches_term (by decide), indexDocument, runs_joined]
      refine ⟨List.mem_flatMap.mpr ⟨query, h, ?_⟩, hbytes⟩
      rw [runs_all hall hne]
      exact List.mem_singleton.mpr rfl
    · exact absurd h.1 hthree

/-- No limit cuts what its mode finds. -/
def Uncut (documents : List CatalogDocument) (query : Text) (limits : CatalogQueryMode → Nat) : Prop :=
  ∀ mode ∈ searchModes query, ∀ candidates, candidateDocuments documents query mode = .ok candidates →
    candidates.length ≤ limits mode

/-- Some mode that the search tries returns the document. -/
def Retrieves (documents : List CatalogDocument) (query : Text) (limits : CatalogQueryMode → Nat)
    (document : CatalogDocument) : Prop :=
  ∃ mode ∈ searchModes query, ∃ candidates,
    searchCandidateDocuments documents query mode (limits mode) = .ok candidates ∧
      document ∈ candidates

/-- A document of this name and path. -/
def namedAlone (name : Text) : CatalogDocument where
  identity := ⟨⟨.fromU128 1, .fromU128 1⟩, .fromU128 1, .fromU128 1⟩
  documentVersion := 1
  name := String.ofList name
  resolvedPath := String.ofList name
  extension := none
  metadata := ⟨.file, 0, none, none, false, .online⟩

/-- The query is normalized a second time, and what that gives has to be a part of it if the
document of that very name is to be found. -/
theorem part_of_retrieves {raw : Text} (hall : Alphanumeric (normalize raw))
    {limits : CatalogQueryMode → Nat}
    (h : Retrieves [namedAlone raw] (normalize raw) limits (namedAlone raw)) :
    normalize (normalize raw) <:+: normalize raw := by
  obtain ⟨mode, -, candidates, hsearch, hfound⟩ := h
  obtain ⟨found, hcandidates, hsearch⟩ := bind_ok.mp hsearch
  obtain rfl := Except.ok.inj hsearch
  obtain ⟨textQuery, hquery, hspec⟩ := mem_candidateDocuments hcandidates
  have hmatches := ((hspec _).mp (List.mem_of_mem_take hfound)).2
  have hname : normalize (namedAlone raw).name.toList = normalize raw := by
    rw [namedAlone, String.toList_ofList]
  exact part_of_matches hall hname hname hquery hmatches

/-- A normalized alphanumeric query retrieves, whatever is indexed and wherever no limit
cuts, every document that its name classifies, exactly if normalizing the query again
leaves it alone. -/
theorem alphanumeric_query_retrieves (hquery : ∃ raw, query = normalize raw)
    (hall : Alphanumeric query) (hne : query ≠ [])
    (hparts : normalize query <:+: query → normalize query = query) :
    (∀ (documents : List CatalogDocument) (document : CatalogDocument)
        (limits : CatalogQueryMode → Nat), document ∈ documents → MatchesName document query →
        Uncut documents query limits → Retrieves documents query limits document) ↔
      normalize query = query := by
  constructor
  · intro h
    obtain ⟨raw, rfl⟩ := hquery
    have hname : normalize (namedAlone raw).name.toList = normalize raw := by
      rw [namedAlone, String.toList_ofList]
    have huncut : Uncut [namedAlone raw] (normalize raw) fun _ => 1 := by
      rintro mode - candidates hcandidates
      obtain ⟨textQuery, -, hfound⟩ := bind_ok.mp hcandidates
      obtain rfl := Except.ok.inj hfound
      rw [(ScoreOrder.order_perm _ _).length_eq]
      exact List.length_filter_le _ _
    exact hparts (part_of_retrieves hall (h _ _ _ (List.mem_singleton.mpr rfl)
      (matchesName_iff.mpr (.inl hname)) huncut))
  · intro hnormalized documents document limits hmem hmatch huncut
    obtain ⟨mode, hmode, candidates, hcandidates, hfound⟩ :=
      exists_mode hnormalized hall hne hmem hmatch
    refine ⟨mode, hmode, candidates, ?_, hfound⟩
    rw [searchCandidateDocuments, hcandidates, ok_bind,
      List.take_of_length_le (huncut mode hmode candidates hcandidates)]

omit [ScoreOrder] in
/-- A query with a separator in it finds nothing but names equal to it. -/
theorem separator_matches {mode : CatalogQueryMode} {textQuery : TextQuery}
    (hseparator : ¬ Alphanumeric query) (hthree : 3 ≤ query.length)
    (hquery : queryFor query mode = .ok textQuery) (hmatches : textQuery.matches document = true) :
    normalize document.name.toList = query := by
  have hterm : ∀ field, field ≠ .exactName →
      ¬ TextQuery.matches document (.term field query) = true :=
    fun field hfield h => separator_unfound hseparator ((matches_term hfield).mp h).1
  cases mode with
  | exact =>
    obtain rfl := Except.ok.inj hquery
    exact matches_exact.mp hmatches
  | token =>
    obtain rfl := Except.ok.inj hquery
    exact absurd hmatches (hterm _ (by decide))
  | prefixed =>
    obtain rfl := Except.ok.inj hquery
    exact absurd hmatches (hterm _ (by decide))
  | path =>
    obtain rfl := Except.ok.inj hquery
    exact absurd hmatches (hterm _ (by decide))
  | substring =>
    -- some trigram holds the separator, and no term of the field does
    obtain ⟨c, hc, hsep⟩ : ∃ c ∈ query, isAlphanumeric c = false := by
      simpa [Alphanumeric] using hseparator
    obtain ⟨gram, hgram, hcgram⟩ := exists_window (n := 3) (by decide) hthree hc
    have hbad : ¬ Alphanumeric gram := fun h => by simp [h c hcgram] at hsep
    have hunfound : gram ∉ runs isAlphanumeric (indexDocument document .nameTrigrams) :=
      separator_unfound hbad
    have hgrams : gram ∈ grams query 3 := hgram
    rw [queryFor] at hquery
    split at hquery
    · cases hquery
    · next only heq =>
      obtain rfl := Except.ok.inj hquery
      rw [heq, List.mem_singleton] at hgrams
      subst hgrams
      exact absurd ((matches_term (by decide)).mp hmatches).1 hunfound
    · next values hnil _ =>
      obtain rfl := Except.ok.inj hquery
      have hwithin := ((matches_phrase (by decide) hnil).mp hmatches).1
      exact absurd (hwithin.subset hgrams) hunfound

/-- A name that merely starts with a query with a separator, or contains it, is
returned by no mode that the search tries, whatever the limit. -/
theorem separator_query_misses (hseparator : ¬ Alphanumeric query) (hthree : 3 ≤ query.length)
    (hnormalized : Normalized query)
    (hclass : classify document query = some .prefixName ∨
      classify document query = some .substringName) :
    ∀ documents limit, ∀ mode ∈ searchModes query, ∀ candidates,
      searchCandidateDocuments documents query mode limit = .ok candidates →
        document ∉ candidates := by
  intro documents limit mode _ candidates hsearch hmem
  obtain ⟨found, hfound, hsearch⟩ := bind_ok.mp hsearch
  obtain rfl := Except.ok.inj hsearch
  obtain ⟨textQuery, hquery, hspec⟩ := mem_candidateDocuments hfound
  rw [hnormalized] at hquery
  have hname : normalize document.name.toList = query :=
    separator_matches hseparator hthree hquery ((hspec document).mp (List.mem_of_mem_take hmem)).2
  have hexact : classify document query = some .exactName := by
    unfold classify
    exact if_pos hname
  rcases hclass with h | h <;> exact absurd (hexact.symm.trans h) (by decide)

end Retrieval

end Rules

section Example

attribute [local instance] asciiTextRules indexOrder

def sampleDocument (n : Nat) (kind : FileKind) (name path : String) : CatalogDocument where
  identity := ⟨⟨.fromU128 1, .fromU128 n⟩, .fromU128 n, .fromU128 n⟩
  documentVersion := n
  name := name
  resolvedPath := path
  extension := none
  metadata := ⟨kind, 0, none, none, false, .online⟩

/-- A report with separators in its name. -/
def report : CatalogDocument := sampleDocument 1 .file "Report-2024.txt" "c:/Report-2024.txt"

theorem port_retrieves_report :
    (∀ (documents : List CatalogDocument) (document : CatalogDocument)
        (limits : CatalogQueryMode → Nat), document ∈ documents →
        MatchesName document "port".toList → Uncut documents "port".toList limits →
        Retrieves documents "port".toList limits document) ↔
      TextRules.normalize "port".toList = "port".toList :=
  alphanumeric_query_retrieves ⟨"Port".toList, by decide⟩ (by decide) (by decide) fun _ => by decide

theorem report_dash_misses :
    classify report "report-".toList = some .prefixName ∧
    ∀ documents limit, ∀ mode ∈ searchModes "report-".toList, ∀ candidates,
      searchCandidateDocuments documents "report-".toList mode limit = .ok candidates →
        report ∉ candidates :=
  ⟨by decide, separator_query_misses (by decide) (by decide) (by decide) (.inl (by decide))⟩

theorem report_dash_unretrieved :
    ¬ ∀ (document : CatalogDocument) (query : Text), Normalized query → 3 ≤ query.length →
      ¬ Alphanumeric query →
      (classify document query = some .prefixName ∨
        classify document query = some .substringName) →
      ∃ mode ∈ searchModes query, ∃ candidates,
        searchCandidateDocuments [document] query mode 200 = .ok candidates ∧
          document ∈ candidates := by
  intro h
  obtain ⟨mode, hmode, candidates, hsearch, hmem⟩ :=
    h report "report-".toList (by decide) (by decide)
      (by decide) (.inl (by decide))
  have hnone : ∀ mode ∈ searchModes "report-".toList,
      searchCandidateDocuments [report] "report-".toList mode 200 = .ok [] := by
    decide
  rw [hnone mode hmode] at hsearch
  obtain rfl := Except.ok.inj hsearch
  cases hmem

end Example

section Greek

attribute [local instance] greekTextRules indexOrder

/-- A capital letter with an iota below it. -/
def iotaName : Text := ['\u0386', '\u0345']

/-- The lower-case letter and its iota become one character when the query is normalized
again, and the document of exactly that name is not found. -/
theorem iota_query_misses :
    ¬ ∀ (documents : List CatalogDocument) (document : CatalogDocument) (query : Text)
        (limits : CatalogQueryMode → Nat), (∃ raw, query = TextRules.normalize raw) →
      Alphanumeric query → query ≠ [] → document ∈ documents → MatchesName document query →
      Uncut documents query limits → Retrieves documents query limits document := by
  intro h
  have hquery : TextRules.normalize iotaName = ['\u03ac', '\u0345'] := by decide
  have hagain : TextRules.normalize ['\u03ac', '\u0345'] = ['\u1fb4'] := by decide
  have hcandidates : ∀ mode ∈ searchModes ['\u03ac', '\u0345'],
      candidateDocuments [namedAlone iotaName] ['\u03ac', '\u0345'] mode = .ok [] := by decide
  obtain ⟨mode, hmode, candidates, hsearch, hfound⟩ := h [namedAlone iotaName] (namedAlone iotaName)
    ['\u03ac', '\u0345'] (fun _ => 200) ⟨iotaName, hquery.symm⟩ (by decide) (by decide)
    (List.mem_singleton.mpr rfl) ⟨.exactName, by decide, by decide⟩ (fun mode hmode candidates hok => by
      rw [hcandidates mode hmode] at hok
      rw [← Except.ok.inj hok]
      exact Nat.zero_le _)
  rw [searchCandidateDocuments, hcandidates mode hmode, ok_bind] at hsearch
  obtain rfl := Except.ok.inj hsearch
  cases hfound

end Greek

end LocalSearch.Agent
