import LocalSearch.Catalog.Index
import LocalSearch.Lib.Runs
import Mathlib

/-!
# Candidate retrieval

What the catalog index stores of a document's name and path, and which documents
a query finds in each mode. The search engine cuts a text field at characters
that are not alphanumeric and drops long tokens; a term or a phrase of a query
is looked up as it is.
-/
namespace LocalSearch.Catalog

set_option autoImplicit false

open Core Lib

/-- The characters of a string. -/
abbrev Text := List Char

/-- Unicode as the two crates use it, with the lower-casing of the search engine,
which changes no part of a normalized text. -/
class TextRules where
  normalize : Text → Text
  isAlphanumeric : Char → Bool
  lowercase : Text → Text
  space_separates : isAlphanumeric ' ' = false
  lowercase_normalized : ∀ value piece, piece <:+: normalize value → lowercase piece = piece

inductive CatalogQueryMode where
  | exact
  | token
  | prefixed
  | substring
  | path
  deriving DecidableEq, Repr

inductive CatalogQueryError where
  | shortSubstring
  deriving DecidableEq, Repr

/-- The fields of the schema that are searched. -/
inductive TextField where
  | exactName
  | nameTokens
  | namePrefixes
  | nameTrigrams
  | pathTokens
  deriving DecidableEq, Repr

/-- A term query, or a phrase query over the positions of a field. -/
inductive TextQuery where
  | term (field : TextField) (value : Text)
  | phrase (field : TextField) (values : List Text)
  deriving DecidableEq, Repr

section Rules

variable [TextRules]

open TextRules

def tokens (value : Text) : List Text := runs isAlphanumeric value

def prefixes (value : Text) (maximumLength : Nat) : List Text :=
  (List.range (min value.length maximumLength)).map fun length => value.take (length + 1)

def grams (value : Text) (width : Nat) : List Text := windows width value

/-- `join(" ")`. -/
def joined (pieces : List Text) : Text := [' '].intercalate pieces

/-- The text of each field of an indexed document. -/
def indexDocument (document : CatalogDocument) : TextField → Text
  | .exactName => normalize document.name.toList
  | .nameTokens => joined (tokens (normalize document.name.toList))
  | .namePrefixes =>
      joined ((tokens (normalize document.name.toList)).flatMap fun token => prefixes token 32)
  | .nameTrigrams => joined (grams (normalize document.name.toList) 3)
  | .pathTokens => normalize document.resolvedPath.toList

def textBytes (text : Text) : Nat := (text.map Char.utf8Size).sum

/-- The positioned terms of a `TEXT` field: tokens of forty bytes and more are
dropped and leave a gap. -/
def textTerms (text : Text) : List (Nat × Text) :=
  ((runs isAlphanumeric text).zipIdx.filter fun token => textBytes token.1 < 40).map
    fun token => (token.2, lowercase token.1)

/-- The terms of a document in a field. `exact_name` is a `STRING` field. -/
def fieldTerms (document : CatalogDocument) : TextField → List (Nat × Text)
  | .exactName => [(0, indexDocument document .exactName)]
  | field => textTerms (indexDocument document field)

def TextQuery.matches (document : CatalogDocument) : TextQuery → Bool
  | .term field value => (fieldTerms document field).any fun entry => entry.2 = value
  | .phrase field values => (fieldTerms document field).any fun entry =>
      values.zipIdx.all fun value =>
        (fieldTerms document field).contains (entry.1 + value.2, value.1)

/-- The query of a mode for a normalized text. -/
def queryFor (normalized : Text) : CatalogQueryMode → Except CatalogQueryError TextQuery
  | .exact => .ok (.term .exactName normalized)
  | .token => .ok (.term .nameTokens normalized)
  | .prefixed => .ok (.term .namePrefixes normalized)
  | .substring =>
      match grams normalized 3 with
      | [] => .error .shortSubstring
      | [gram] => .ok (.term .nameTrigrams gram)
      | values => .ok (.phrase .nameTrigrams values)
  | .path => .ok (.term .pathTokens normalized)

/-- The order in which the search engine hands out what a query matches: by
score, a reordering. -/
class ScoreOrder where
  order : TextQuery → List CatalogDocument → List CatalogDocument
  order_perm : ∀ query documents, (order query documents).Perm documents

def candidateDocuments [ScoreOrder] (documents : List CatalogDocument) (query : Text)
    (mode : CatalogQueryMode) : Except CatalogQueryError (List CatalogDocument) := do
  let query ← queryFor (normalize query) mode
  .ok (ScoreOrder.order query (documents.filter query.matches))

def searchCandidateDocuments [ScoreOrder] (documents : List CatalogDocument) (query : Text)
    (mode : CatalogQueryMode) (limit : Nat) : Except CatalogQueryError (List CatalogDocument) := do
  let candidates ← candidateDocuments documents query mode
  .ok (candidates.take limit)

/-- A query that normalization leaves alone. -/
def Normalized (query : Text) : Prop := normalize query = query

/-- Every character is alphanumeric. -/
def Alphanumeric (query : Text) : Prop := ∀ c ∈ query, isAlphanumeric c = true

instance (query : Text) : Decidable (Normalized query) :=
  inferInstanceAs (Decidable (normalize query = query))

instance (query : Text) : Decidable (Alphanumeric query) :=
  List.decidableBAll (fun c => isAlphanumeric c = true) query

theorem runs_joined (pieces : List Text) :
    runs isAlphanumeric (joined pieces) = pieces.flatMap (runs isAlphanumeric) :=
  runs_intercalate space_separates pieces

theorem mem_textTerms {text term : Text} {i : Nat} :
    (i, term) ∈ textTerms text ↔ ∃ run, (runs isAlphanumeric text)[i]? = some run ∧
      textBytes run < 40 ∧ lowercase run = term := by
  rw [textTerms, List.mem_map]
  constructor
  · rintro ⟨⟨run, j⟩, hmem, heq⟩
    obtain ⟨rfl, rfl⟩ := Prod.mk.inj heq
    obtain ⟨hzip, hbytes⟩ := List.mem_filter.mp hmem
    exact ⟨run, List.mem_zipIdx_iff_getElem?.mp hzip, by simpa using hbytes, rfl⟩
  · rintro ⟨run, hrun, hbytes, rfl⟩
    refine ⟨(run, i), List.mem_filter.mpr ⟨List.mem_zipIdx_iff_getElem?.mpr hrun, ?_⟩, rfl⟩
    simpa using hbytes

/-- The runs of a text field are parts of the normalized name or path. -/
theorem run_infix_normalize {document : CatalogDocument} {field : TextField} {run : Text}
    (hfield : field ≠ .exactName) (h : run ∈ runs isAlphanumeric (indexDocument document field)) :
    run <:+: normalize document.name.toList ∨ run <:+: normalize document.resolvedPath.toList := by
  have hpieces : ∀ pieces : List Text, (∀ piece ∈ pieces, piece <:+: normalize document.name.toList) →
      run ∈ runs isAlphanumeric (joined pieces) → run <:+: normalize document.name.toList := by
    intro pieces hwithin hrun
    rw [runs_joined, List.mem_flatMap] at hrun
    obtain ⟨piece, hpiece, hrun⟩ := hrun
    exact (mem_runs hrun).2.2.trans (hwithin piece hpiece)
  cases field with
  | exactName => exact absurd rfl hfield
  | nameTokens => exact .inl (hpieces _ (fun piece hpiece => (mem_runs hpiece).2.2) h)
  | namePrefixes =>
    refine .inl (hpieces _ (fun piece hpiece => ?_) h)
    obtain ⟨token, htoken, hpiece⟩ := List.mem_flatMap.mp hpiece
    obtain ⟨length, -, rfl⟩ := List.mem_map.mp hpiece
    exact (List.take_prefix _ _).isInfix.trans (mem_runs htoken).2.2
  | nameTrigrams => exact .inl (hpieces _ (fun piece hpiece => (mem_windows hpiece).1) h)
  | pathTokens => exact .inr (mem_runs h).2.2

/-- The terms of a text field are its shorter runs, each at its own position. -/
theorem mem_fieldTerms {document : CatalogDocument} {field : TextField} {term : Text} {i : Nat}
    (hfield : field ≠ .exactName) :
    (i, term) ∈ fieldTerms document field ↔
      (runs isAlphanumeric (indexDocument document field))[i]? = some term ∧ textBytes term < 40 := by
  have hterms : fieldTerms document field = textTerms (indexDocument document field) := by
    cases field with
    | exactName => exact absurd rfl hfield
    | _ => rfl
  have hlower : ∀ run, (runs isAlphanumeric (indexDocument document field))[i]? = some run →
      lowercase run = run := by
    intro run hrun
    rcases run_infix_normalize hfield (List.mem_of_getElem? hrun) with hname | hpath
    · exact lowercase_normalized _ run hname
    · exact lowercase_normalized _ run hpath
  rw [hterms, mem_textTerms]
  constructor
  · rintro ⟨run, hrun, hbytes, rfl⟩
    rw [hlower run hrun]
    exact ⟨hrun, hbytes⟩
  · rintro ⟨hrun, hbytes⟩
    exact ⟨term, hrun, hbytes, hlower term hrun⟩

theorem matches_exact {document : CatalogDocument} {query : Text} :
    TextQuery.matches document (.term .exactName query) = true ↔
      normalize document.name.toList = query := by
  simp [TextQuery.matches, fieldTerms, indexDocument]

theorem matches_term {document : CatalogDocument} {field : TextField} {query : Text}
    (hfield : field ≠ .exactName) :
    TextQuery.matches document (.term field query) = true ↔
      query ∈ runs isAlphanumeric (indexDocument document field) ∧ textBytes query < 40 := by
  rw [TextQuery.matches, List.any_eq_true]
  constructor
  · rintro ⟨⟨i, term⟩, hmem, heq⟩
    obtain rfl : term = query := by simpa using heq
    obtain ⟨hrun, hbytes⟩ := (mem_fieldTerms hfield).mp hmem
    exact ⟨List.mem_of_getElem? hrun, hbytes⟩
  · rintro ⟨hrun, hbytes⟩
    obtain ⟨i, hi⟩ := List.mem_iff_getElem?.mp hrun
    exact ⟨(i, query), (mem_fieldTerms hfield).mpr ⟨hi, hbytes⟩, by simp⟩

/-- A phrase is found exactly where its terms follow each other. -/
theorem matches_phrase {document : CatalogDocument} {field : TextField} {values : List Text}
    (hfield : field ≠ .exactName) (hne : values ≠ []) :
    TextQuery.matches document (.phrase field values) = true ↔
      values <:+: runs isAlphanumeric (indexDocument document field) ∧
        ∀ value ∈ values, textBytes value < 40 := by
  have hat : ∀ start, (values.zipIdx.all fun value =>
      (fieldTerms document field).contains (start + value.2, value.1)) = true ↔
      ∀ k value, values[k]? = some value →
        (runs isAlphanumeric (indexDocument document field))[start + k]? = some value ∧
          textBytes value < 40 := by
    intro start
    rw [List.all_eq_true]
    constructor
    · intro h k value hk
      have hmem := h (value, k) (List.mem_zipIdx_iff_getElem?.mpr hk)
      exact (mem_fieldTerms hfield).mp (by simpa using hmem)
    · rintro h ⟨value, k⟩ hmem
      have hterm := (mem_fieldTerms hfield).mpr (h k value (List.mem_zipIdx_iff_getElem?.mp hmem))
      simpa using hterm
  rw [TextQuery.matches, List.any_eq_true]
  constructor
  · rintro ⟨⟨start, term⟩, -, hall⟩
    have hfollow := (hat start).mp hall
    refine ⟨List.infix_iff_getElem?.mpr ⟨start, ?_, fun k hk => ?_⟩, fun value hvalue => ?_⟩
    · -- the last term of the phrase bounds its place
      have hpos := List.length_pos_of_ne_nil hne
      have hlast := (hfollow (values.length - 1) _ (List.getElem?_eq_getElem (by omega))).1
      have hlt := (List.getElem?_eq_some_iff.mp hlast).1
      omega
    · rw [Nat.add_comm]
      exact (hfollow k _ (List.getElem?_eq_getElem hk)).1
    · obtain ⟨k, hk⟩ := List.mem_iff_getElem?.mp hvalue
      exact (hfollow k value hk).2
  · rintro ⟨hwithin, hbytes⟩
    obtain ⟨start, -, hfollow⟩ := List.infix_iff_getElem?.mp hwithin
    have hall : ∀ k value, values[k]? = some value →
        (runs isAlphanumeric (indexDocument document field))[start + k]? = some value ∧
          textBytes value < 40 := by
      intro k value hk
      obtain ⟨hlt, rfl⟩ := List.getElem?_eq_some_iff.mp hk
      rw [Nat.add_comm]
      exact ⟨hfollow k hlt, hbytes _ (List.getElem_mem hlt)⟩
    obtain ⟨first, rest, rfl⟩ := List.exists_cons_of_ne_nil hne
    exact ⟨(start, first), (mem_fieldTerms hfield).mpr (hall 0 first rfl), (hat start).mpr hall⟩

/-- A short enough beginning of a token is among its prefixes. -/
theorem matches_prefixed {document : CatalogDocument} {query token : Text}
    (htoken : token ∈ tokens (normalize document.name.toList)) (hbegins : query <+: token)
    (hne : query ≠ []) (hlength : query.length ≤ 32) (hbytes : textBytes query < 40) :
    TextQuery.matches document (.term .namePrefixes query) = true := by
  obtain ⟨-, htokenAll, -⟩ := mem_runs htoken
  have hall : Alphanumeric query := fun c hc => htokenAll c (hbegins.subset hc)
  have hpiece : query ∈ prefixes token 32 := by
    have hpos := List.length_pos_of_ne_nil hne
    have hle := hbegins.length_le
    refine List.mem_map.mpr ⟨query.length - 1, List.mem_range.mpr (by omega), ?_⟩
    rw [show query.length - 1 + 1 = query.length by omega]
    exact (List.prefix_iff_eq_take.mp hbegins).symm
  rw [matches_term (by decide)]
  refine ⟨?_, hbytes⟩
  rw [indexDocument, runs_joined]
  refine List.mem_flatMap.mpr ⟨query, List.mem_flatMap.mpr ⟨token, htoken, hpiece⟩, ?_⟩
  rw [runs_all hall hne]
  exact List.mem_singleton.mpr rfl

omit [TextRules] in
theorem textBytes_le (text : Text) : textBytes text ≤ 4 * text.length := by
  induction text with
  | nil => exact Nat.le_refl 0
  | cons c text ih =>
    have hc := c.utf8Size_le_four
    simp only [textBytes, List.map_cons, List.sum_cons, List.length_cons] at ih ⊢
    omega

theorem run_of_gram {value gram : Text} (hall : Alphanumeric value) (hgram : gram ∈ grams value 3) :
    runs isAlphanumeric gram = [gram] := by
  obtain ⟨hpart, hthree⟩ := mem_windows hgram
  apply runs_all fun c hc => hall c (hpart.subset hc)
  rintro rfl
  cases hthree

/-- The trigrams of an alphanumeric text are the tokens of their field. -/
theorem runs_grams {value : Text} (hall : Alphanumeric value) :
    (grams value 3).flatMap (runs isAlphanumeric) = grams value 3 := by
  rw [List.flatMap_congr fun gram hgram => run_of_gram hall hgram]
  exact List.flatMap_singleton' _

/-- The trigrams of an alphanumeric part of the name follow each other. -/
theorem matches_substring {document : CatalogDocument} {query : Text} (hall : Alphanumeric query)
    (hlength : 3 ≤ query.length) (hwithin : query <:+: normalize document.name.toList) :
    ∃ textQuery, queryFor query .substring = .ok textQuery ∧ textQuery.matches document = true := by
  have hne : grams query 3 ≠ [] := windows_ne_nil (by decide) hlength
  have hgram : ∀ gram ∈ grams query 3, textBytes gram < 40 := by
    intro gram hmem
    have hthree := (mem_windows hmem).2
    have hbytes := textBytes_le gram
    omega
  have hruns : grams query 3 <:+: runs isAlphanumeric (indexDocument document .nameTrigrams) := by
    obtain ⟨a, b, hab⟩ := windows_infix (n := 3) hwithin
    refine ⟨a.flatMap (runs isAlphanumeric), b.flatMap (runs isAlphanumeric), ?_⟩
    have hname : grams (normalize document.name.toList) 3 = a ++ grams query 3 ++ b := hab.symm
    rw [indexDocument, runs_joined, hname, List.flatMap_append, List.flatMap_append, runs_grams hall]
  cases hgrams : grams query 3 with
  | nil => exact absurd hgrams hne
  | cons gram rest =>
    rw [hgrams] at hruns hgram
    cases rest with
    | nil =>
      refine ⟨.term .nameTrigrams gram, by rw [queryFor, hgrams], ?_⟩
      exact (matches_term (by decide)).mpr ⟨hruns.subset List.mem_cons_self,
        hgram gram List.mem_cons_self⟩
    | cons next rest =>
      refine ⟨.phrase .nameTrigrams (gram :: next :: rest), by rw [queryFor, hgrams], ?_⟩
      exact (matches_phrase (by decide) (List.cons_ne_nil _ _)).mpr
        ⟨hruns, hgram⟩

/-- What finds a document of an alphanumeric name and path is a part of them. -/
theorem part_of_matches {document : CatalogDocument} {name query : Text} (hall : Alphanumeric name)
    (hname : normalize document.name.toList = name) (hpath : normalize document.resolvedPath.toList = name)
    {mode : CatalogQueryMode} {textQuery : TextQuery} (hquery : queryFor query mode = .ok textQuery)
    (hmatches : textQuery.matches document = true) : query <:+: name := by
  have hterm : ∀ field, field ≠ .exactName →
      TextQuery.matches document (.term field query) = true → query <:+: name := by
    intro field hfield hfound
    have hwithin := run_infix_normalize hfield ((matches_term hfield).mp hfound).1
    rwa [hname, hpath, or_self] at hwithin
  cases mode with
  | exact =>
    obtain rfl := Except.ok.inj hquery
    rw [← hname, matches_exact.mp hmatches]
  | token =>
    obtain rfl := Except.ok.inj hquery
    exact hterm _ (by decide) hmatches
  | prefixed =>
    obtain rfl := Except.ok.inj hquery
    exact hterm _ (by decide) hmatches
  | path =>
    obtain rfl := Except.ok.inj hquery
    exact hterm _ (by decide) hmatches
  | substring =>
    have htokens : runs isAlphanumeric (indexDocument document .nameTrigrams) = grams name 3 := by
      rw [indexDocument, runs_joined, hname, runs_grams hall]
    have hthree : grams query 3 ≠ [] → 3 ≤ query.length := fun hne => by
      by_contra hshort
      exact hne (windows_short (by omega))
    rw [queryFor] at hquery
    split at hquery
    · cases hquery
    · next gram heq =>
      obtain rfl := Except.ok.inj hquery
      have hfound := ((matches_term (by decide)).mp hmatches).1
      rw [htokens] at hfound
      refine infix_of_windows (n := 3) (by decide) (hthree (by rw [heq]; exact List.cons_ne_nil _ _)) ?_
      have hwindows : windows 3 query = [gram] := heq
      obtain ⟨before, after, hsplit⟩ := List.append_of_mem hfound
      exact hwindows ▸ ⟨before, after, by rw [List.append_assoc]; exact hsplit.symm⟩
    · next values hnil _ =>
      obtain rfl := Except.ok.inj hquery
      have hwithin := ((matches_phrase (by decide) hnil).mp hmatches).1
      rw [htokens] at hwithin
      exact infix_of_windows (by decide) (hthree hnil) hwithin

/-- A term with a separator in it is found in no text field. -/
theorem separator_unfound {document : CatalogDocument} {field : TextField} {term : Text}
    (hseparator : ¬ Alphanumeric term) :
    term ∉ runs isAlphanumeric (indexDocument document field) :=
  fun h => hseparator (mem_runs h).2.1

end Rules

theorem lowercase_ascii {value piece : Text} (h : piece <:+: value.map Char.toLower) :
    piece.map Char.toLower = piece := by
  have hfixed : ∀ c ∈ piece, c.toLower = id c := by
    intro c hc
    obtain ⟨c', -, rfl⟩ := List.mem_map.mp (h.subset hc)
    exact Char.toLower_toLower_eq_toLower c'
  rw [List.map_congr_left hfixed, List.map_id]

/-- The rules on names of ASCII characters. -/
@[reducible] def asciiTextRules : TextRules where
  normalize := List.map Char.toLower
  isAlphanumeric := Char.isAlphanum
  lowercase := List.map Char.toLower
  space_separates := rfl
  lowercase_normalized := fun _ _ h => lowercase_ascii h

/-- Lower case with one Greek letter. -/
def greekLower (c : Char) : Char := if c.toLower = '\u0386' then '\u03ac' else c.toLower

/-- One letter and its iota below are one character. -/
def composeIota : Text → Text
  | [] => []
  | c :: rest =>
      match c, composeIota rest with
      | '\u03ac', '\u0345' :: rest => '\u1fb4' :: rest
      | c, rest => c :: rest

theorem greekLower_greekLower (c : Char) : greekLower (greekLower c) = greekLower c := by
  unfold greekLower
  by_cases hcapital : c.toLower = '\u0386'
  · rw [if_pos hcapital]
    decide
  · rw [if_neg hcapital, Char.toLower_toLower_eq_toLower, if_neg hcapital]

/-- The rules on names that may hold a Greek letter: it is composed before it is lowered. -/
@[reducible] def greekTextRules : TextRules where
  normalize text := (composeIota text).map greekLower
  isAlphanumeric c := c.isAlphanum || c ∈ ['\u0386', '\u03ac', '\u0345', '\u1fb4']
  lowercase := List.map greekLower
  space_separates := by decide
  lowercase_normalized := by
    intro value piece h
    have hfixed : ∀ c ∈ piece, greekLower c = id c := by
      intro c hc
      obtain ⟨c', -, rfl⟩ := List.mem_map.mp (h.subset hc)
      exact greekLower_greekLower c'
    rw [List.map_congr_left hfixed, List.map_id]

/-- Matches of one score, handed out in the order of the index. -/
@[reducible] def indexOrder : ScoreOrder where
  order := fun _ documents => documents
  order_perm := fun _ _ => .refl _

end LocalSearch.Catalog
