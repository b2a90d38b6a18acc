import LocalSearch.Catalog.Projector

/-!
# The content index

Plain text of the catalog's files, one entry a document. An index is built from
a list of documents, brought up to date with a whole snapshot, or moved on by a
delta. The last two read a file again only when they must, and then leave the
older payload beside the text.
-/
namespace LocalSearch.Content

set_option autoImplicit false

open Core Lib Graph Catalog

structure ContentIndexPolicy where
  /-- Canonical roots, as path components. -/
  roots : List (List String)
  extensions : List String
  maxFileBytes : Nat
  deriving DecidableEq, Repr

inductive SkipReason where
  | outsideRoots
  | unavailable
  | extension
  | tooLarge
  | nonText
  | io
  deriving DecidableEq, Repr

/-- What the path of a document leads to while that version of it is current. -/
inductive Found where
  | nothing
  | unreadable (canonical : List String)
  | notFile (canonical : List String)
  | file (canonical : List String) (bytes : ByteArray) (opens : Bool)

abbrev Sources := CatalogDocument → Found

structure PreparedSource where
  bytes : ByteArray
  opens : Bool

section Source

variable [CaseMapping] (sources : Sources)

/-- The checks before a file is opened. -/
def prepareSource (document : CatalogDocument) (policy : ContentIndexPolicy) :
    Except SkipReason PreparedSource :=
  if document.metadata.kind ≠ .file ∨ document.metadata.availability ≠ .online then
    .error .unavailable
  else
    match document.extension with
    | none => .error .extension
    | some extension =>
        if CaseMapping.toLowercase extension ∉ policy.extensions then .error .extension
        else if policy.maxFileBytes < document.metadata.size then .error .tooLarge
        else
          let inside (canonical : List String) : Prop := ∃ root ∈ policy.roots, root <+: canonical
          match sources document with
          | .nothing => .error .io
          | .unreadable canonical =>
              if ¬ inside canonical then .error .outsideRoots else .error .io
          | .notFile canonical =>
              if ¬ inside canonical then .error .outsideRoots else .error .unavailable
          | .file canonical bytes opens =>
              if ¬ inside canonical then .error .outsideRoots
              else if policy.maxFileBytes < bytes.size then .error .tooLarge
              else .ok ⟨bytes, opens⟩

omit [CaseMapping] in
def readText (prepared : PreparedSource) (policy : ContentIndexPolicy) : Except SkipReason String :=
  if prepared.opens = false then .error .io
  else if policy.maxFileBytes < prepared.bytes.size then .error .tooLarge
  else if prepared.bytes.data.contains 0 then .error .nonText
  else
    match String.fromUTF8? prepared.bytes with
    | some text => .ok text
    | none => .error .nonText

def extractText (document : CatalogDocument) (policy : ContentIndexPolicy) :
    Except SkipReason String := do
  let prepared ← prepareSource sources document policy
  readText prepared policy

end Source

/-- One live document of the index. -/
structure ContentEntry where
  document : CatalogDocument
  text : String
  contentHash : String
  deriving DecidableEq, Repr

abbrev Entries := List ContentEntry

def ContentEntry.documentId (entry : ContentEntry) : DocumentId := entry.document.identity.documentId

def deleteTerm (entries : Entries) (documentId : DocumentId) : Entries :=
  entries.filter fun entry => entry.documentId ≠ documentId

def storedDocument (entries : Entries) (documentId : DocumentId) : Option ContentEntry :=
  entries.find? fun entry => entry.documentId = documentId

def contentSourceUnchanged (previous current : CatalogDocument) : Bool :=
  previous.identity.objectKey == current.identity.objectKey &&
    previous.metadata.kind == current.metadata.kind &&
    previous.metadata.size == current.metadata.size &&
    previous.metadata.modifiedAtUnixMs.isSome &&
    previous.metadata.modifiedAtUnixMs == current.metadata.modifiedAtUnixMs &&
    previous.metadata.availability == current.metadata.availability

/-- Failures of the content index and its worker, the engine's own left out. -/
inductive ContentIndexError where
  | duplicateDocument
  | missingPayload
  | invalidPolicy
  | schemaMismatch
  | serialization
  | io (detail : String)
  | graph (error : GraphError)
  deriving DecidableEq, Repr

/-- What became of one document; the counters of a summary count these. -/
inductive SyncOutcome where
  | skipped (reason : SkipReason) (evicted : Bool)
  | unchanged
  | metadataOnly
  | unchangedHash
  | updated
  | added
  | removed
  | absent
  deriving DecidableEq, Repr

section Operations

variable [CaseMapping] (sources : Sources) (contentHash : String → String)

/-- One document of a build. -/
def buildOne (policy : ContentIndexPolicy) (entries : Entries) (document : CatalogDocument) : Entries :=
  match extractText sources document policy with
  | .ok text => entries ++ [⟨document, text, contentHash text⟩]
  | .error _ => entries

def build (policy : ContentIndexPolicy) (documents : List CatalogDocument) : Entries :=
  documents.foldl (buildOne sources contentHash policy) []

/-- One document of a sync or a delta: `prior` is its entry at the last commit,
`pending` what the writer has so far. -/
def syncOne (policy : ContentIndexPolicy) (prior : Option ContentEntry) (pending : Entries)
    (document : CatalogDocument) : Entries × SyncOutcome :=
  let documentId := document.identity.documentId
  let evict (reason : SkipReason) : Entries × SyncOutcome :=
    if prior.isSome then (deleteTerm pending documentId, .skipped reason true)
    else (pending, .skipped reason false)
  match prepareSource sources document policy with
  | .error reason => evict reason
  | .ok prepared =>
      if prior.any fun stored => stored.document == document then (pending, .unchanged)
      else if prior.any fun stored => contentSourceUnchanged stored.document document then
        (pending, .metadataOnly)
      else
        match readText prepared policy with
        | .error reason => evict reason
        | .ok text =>
            if prior.map (·.contentHash) = some (contentHash text) then (pending, .unchangedHash)
            else (deleteTerm pending documentId ++ [⟨document, text, contentHash text⟩],
              if prior.isSome then .updated else .added)

/-- The loop of `apply_delta` over its upserts. -/
def upsertLoop (policy : ContentIndexPolicy) (committed : Entries) :
    List DocumentId → Entries → List CatalogDocument →
      Except ContentIndexError (Entries × List DocumentId × List SyncOutcome)
  | seen, pending, [] => .ok (pending, seen, [])
  | seen, pending, document :: rest =>
      let documentId := document.identity.documentId
      if documentId ∈ seen then .error .duplicateDocument
      else do
        let (pending, outcome) := syncOne sources contentHash policy
          (storedDocument committed documentId) pending document
        let (pending, seen, outcomes) ← upsertLoop policy committed (documentId :: seen) pending rest
        .ok (pending, seen, outcome :: outcomes)

omit [CaseMapping] in
/-- The loop over its deletions. -/
def deletionLoop (committed : Entries) : List DocumentId → Entries → List DocumentId →
    Except ContentIndexError (Entries × List SyncOutcome)
  | _, pending, [] => .ok (pending, [])
  | seen, pending, documentId :: rest =>
      if documentId ∈ seen then .error .duplicateDocument
      else do
        let stored := (storedDocument committed documentId).isSome
        let pending := if stored then deleteTerm pending documentId else pending
        let (pending, outcomes) ← deletionLoop committed (documentId :: seen) pending rest
        .ok (pending, (if stored then .removed else .absent) :: outcomes)

def applyDelta (policy : ContentIndexPolicy) (committed : Entries) (upserts : List CatalogDocument)
    (deletions : List DocumentId) : Except ContentIndexError (Entries × List SyncOutcome) := do
  let (pending, seen, outcomes) ←
    upsertLoop sources contentHash policy committed [] committed upserts
  let (pending, more) ← deletionLoop committed seen pending deletions
  .ok (pending, outcomes ++ more)

/-- Synchronizes to a whole snapshot: what the snapshot does not name is removed. -/
def sync (policy : ContentIndexPolicy) (committed : Entries) (documents : List CatalogDocument) :
    Except ContentIndexError (Entries × List SyncOutcome) := do
  let (pending, seen, outcomes) ←
    upsertLoop sources contentHash policy committed [] committed documents
  let missing := committed.filter fun entry => entry.documentId ∉ seen
  .ok (missing.foldl (fun pending entry => deleteTerm pending entry.documentId) pending,
    outcomes ++ missing.map fun _ => .removed)

end Operations

/-- The text a lookup by id finds. -/
def textMap (entries : Entries) (documentId : DocumentId) : Option String :=
  (storedDocument entries documentId).map (·.text)

section Texts

variable [CaseMapping] {sources : Sources} {contentHash : String → String}

/-- The text of a document under a policy, if it has one. -/
def textOf (sources : Sources) (policy : ContentIndexPolicy) (document : CatalogDocument) :
    Option String :=
  (extractText sources document policy).toOption

omit [CaseMapping] in
/-- The text of a file, whatever the policy. -/
def decodeText (prepared : PreparedSource) : Except SkipReason String :=
  if prepared.opens = false then .error .io
  else if prepared.bytes.data.contains 0 then .error .nonText
  else
    match String.fromUTF8? prepared.bytes with
    | some text => .ok text
    | none => .error .nonText

/-- What the file says depends only on its identity, kind, size and modified
time, for documents that have one. -/
def SourcesStable (sources : Sources) : Prop :=
  ∀ d d' policy policy' prepared prepared',
    prepareSource sources d policy = .ok prepared → prepareSource sources d' policy' = .ok prepared' →
    d.identity.objectKey = d'.identity.objectKey → d.metadata.kind = d'.metadata.kind →
    d.metadata.size = d'.metadata.size → d.metadata.modifiedAtUnixMs.isSome →
    d.metadata.modifiedAtUnixMs = d'.metadata.modifiedAtUnixMs →
    readText prepared policy = readText prepared' policy'

/-- A prepared source is the document's file, within the size limit. -/
theorem prepareSource_ok {document : CatalogDocument} {policy : ContentIndexPolicy}
    {prepared : PreparedSource} (h : prepareSource sources document policy = .ok prepared) :
    (∃ canonical, sources document = .file canonical prepared.bytes prepared.opens) ∧
      prepared.bytes.size ≤ policy.maxFileBytes := by
  rw [prepareSource, guard_ok] at h
  obtain ⟨-, h⟩ := h
  cases hextension : document.extension with
  | none => rw [hextension] at h; cases h
  | some extension =>
    simp only [hextension, guard_ok] at h
    obtain ⟨-, -, h⟩ := h
    cases hfound : sources document with
    | nothing => rw [hfound] at h; cases h
    | unreadable canonical => simp only [hfound, guard_ok] at h; cases h.2
    | notFile canonical => simp only [hfound, guard_ok] at h; cases h.2
    | file canonical bytes opens =>
      simp only [hfound, guard_ok] at h
      obtain ⟨-, hsize, h⟩ := h
      obtain rfl := Except.ok.inj h
      exact ⟨⟨canonical, rfl⟩, not_lt.mp hsize⟩

theorem readText_prepared {document : CatalogDocument} {policy : ContentIndexPolicy}
    {prepared : PreparedSource} (h : prepareSource sources document policy = .ok prepared) :
    readText prepared policy = decodeText prepared := by
  rw [readText, decodeText, if_neg (not_lt.mpr (prepareSource_ok h).2)]

/-- A document reads the same under every policy that lets it through. -/
theorem readText_policy {document : CatalogDocument} {policy policy' : ContentIndexPolicy}
    {prepared prepared' : PreparedSource} (h : prepareSource sources document policy = .ok prepared)
    (h' : prepareSource sources document policy' = .ok prepared') :
    readText prepared policy = readText prepared' policy' := by
  obtain ⟨⟨canonical, hfile⟩, -⟩ := prepareSource_ok h
  obtain ⟨⟨canonical', hfile'⟩, -⟩ := prepareSource_ok h'
  obtain ⟨-, hbytes, hopens⟩ := Found.file.inj (hfile.symm.trans hfile')
  have hsame : prepared = prepared' := by
    cases prepared
    cases prepared'
    simp_all
  rw [readText_prepared h, readText_prepared h', hsame]

theorem textOf_prepared {document : CatalogDocument} {policy : ContentIndexPolicy}
    {prepared : PreparedSource} (h : prepareSource sources document policy = .ok prepared) :
    textOf sources policy document = (readText prepared policy).toOption := by
  rw [textOf, extractText, h]
  rfl

theorem textOf_refused {document : CatalogDocument} {policy : ContentIndexPolicy} {reason : SkipReason}
    (h : prepareSource sources document policy = .error reason) :
    textOf sources policy document = none := by
  rw [textOf, extractText, h]
  rfl

/-- Ids are unique, and every text was read from the payload beside it. -/
structure EntriesWF (sources : Sources) (contentHash : String → String) (entries : Entries) : Prop where
  unique : (entries.map ContentEntry.documentId).Nodup
  read : ∀ e ∈ entries, e.contentHash = contentHash e.text ∧ ∃ policy prepared,
    prepareSource sources e.document policy = .ok prepared ∧ readText prepared policy = .ok e.text

theorem EntriesWF.nil : EntriesWF sources contentHash [] :=
  ⟨List.nodup_nil, fun _ he => absurd he List.not_mem_nil⟩

omit [CaseMapping] in
theorem textMap_of_lookup {entries entries' : Entries} {d : DocumentId} {e : Option ContentEntry}
    (h : storedDocument entries' = Function.update (storedDocument entries) d e) :
    textMap entries' = Function.update (textMap entries) d (e.map (·.text)) := by
  funext k
  rw [textMap, h]
  by_cases hk : k = d
  · rw [hk, Function.update_self, Function.update_self]
  · rw [Function.update_of_ne hk, Function.update_of_ne hk]
    rfl

omit [CaseMapping] in
theorem textMap_deleteTerm (entries : Entries) (d : DocumentId) :
    textMap (deleteTerm entries d) = Function.update (textMap entries) d none :=
  textMap_of_lookup (lookup_remove entries d)

theorem EntriesWF.deleteTerm {entries : Entries} (h : EntriesWF sources contentHash entries)
    (d : DocumentId) : EntriesWF sources contentHash (deleteTerm entries d) :=
  ⟨nodup_remove h.unique d, fun e he => h.read e (List.mem_filter.mp he).1⟩

/-- `entries'` differs from `entries` by one write of the document's text, or of
its absence. -/
structure WritesText (sources : Sources) (contentHash : String → String) (policy : ContentIndexPolicy)
    (entries : Entries) (document : CatalogDocument) (entries' : Entries) : Prop where
  wf : EntriesWF sources contentHash entries'
  text : textMap entries' = Function.update (textMap entries) document.identity.documentId
    (textOf sources policy document)

/-- A payload with the identity, kind, size and time of the document, or the
document itself, was read from the same text. -/
theorem EntriesWF.textOf_same {entries : Entries} (h : EntriesWF sources contentHash entries)
    (hstable : SourcesStable sources) {e : ContentEntry} (he : e ∈ entries) {document : CatalogDocument}
    {policy : ContentIndexPolicy} {prepared : PreparedSource}
    (hprepared : prepareSource sources document policy = .ok prepared)
    (hsame : e.document = document ∨ contentSourceUnchanged e.document document = true) :
    textOf sources policy document = some e.text := by
  obtain ⟨-, policy₀, prepared₀, hprepared₀, hread⟩ := h.read e he
  have htext : readText prepared policy = .ok e.text := by
    rw [← hread]
    rcases hsame with rfl | hunchanged
    · exact readText_policy hprepared hprepared₀
    · simp only [contentSourceUnchanged, Bool.and_eq_true, beq_iff_eq] at hunchanged
      obtain ⟨⟨⟨⟨⟨hkey, hkind⟩, hsize⟩, hsome⟩, htime⟩, -⟩ := hunchanged
      exact (hstable _ _ _ _ _ _ hprepared₀ hprepared hkey hkind hsize hsome htime).symm
  rw [textOf_prepared hprepared, htext]
  rfl

theorem syncOne_writes (hstable : SourcesStable sources) (hhash : Function.Injective contentHash)
    (policy : ContentIndexPolicy) {committed pending : Entries} {document : CatalogDocument}
    (hcommitted : EntriesWF sources contentHash committed)
    (hpending : EntriesWF sources contentHash pending)
    (hsame : textMap pending document.identity.documentId =
      textMap committed document.identity.documentId) :
    WritesText sources contentHash policy pending document (syncOne sources contentHash policy
      (storedDocument committed document.identity.documentId) pending document).1 := by
  set d := document.identity.documentId with hd
  -- an entry kept in place already holds the text
  have hkeep : ∀ e, storedDocument committed d = some e → textOf sources policy document = some e.text →
      WritesText sources contentHash policy pending document pending := by
    intro e he htext
    refine ⟨hpending, ?_⟩
    rw [htext]
    refine (Function.update_eq_self_iff.mpr ?_).symm
    rw [hsame, textMap, he]
    rfl
  -- an evicted or missing entry leaves no text
  have hevict : ∀ reason, textOf sources policy document = none →
      WritesText sources contentHash policy pending document
        (if (storedDocument committed d).isSome then
          (deleteTerm pending d, SyncOutcome.skipped reason true)
        else (pending, SyncOutcome.skipped reason false)).1 := by
    intro reason htext
    cases hstored : storedDocument committed d with
    | some e =>
      refine ⟨hpending.deleteTerm d, ?_⟩
      rw [htext]
      exact textMap_deleteTerm _ _
    | none =>
      have htext' : textMap pending d = none := by
        rw [hsame, textMap, hstored]
        rfl
      refine ⟨hpending, ?_⟩
      rw [htext]
      exact (Function.update_eq_self_iff.mpr htext'.symm).symm
  unfold syncOne
  cases hprepare : prepareSource sources document policy with
  | error reason => exact hevict reason (textOf_refused hprepare)
  | ok prepared =>
    have htext := textOf_prepared hprepare
    dsimp only
    by_cases hidentical : (storedDocument committed d).any (fun stored => stored.document == document)
    · rw [if_pos hidentical]
      obtain ⟨e, he, heq⟩ := (Option.any_eq_true _ _).mp hidentical
      exact hkeep e he (hcommitted.textOf_same hstable (lookup_eq_some he).1 hprepare
        (Or.inl (beq_iff_eq.mp heq)))
    rw [if_neg hidentical]
    by_cases hunchanged :
        (storedDocument committed d).any (fun stored => contentSourceUnchanged stored.document document)
    · rw [if_pos hunchanged]
      obtain ⟨e, he, heq⟩ := (Option.any_eq_true _ _).mp hunchanged
      exact hkeep e he (hcommitted.textOf_same hstable (lookup_eq_some he).1 hprepare (Or.inr heq))
    rw [if_neg hunchanged]
    cases hread : readText prepared policy with
    | error reason =>
      rw [hread] at htext
      exact hevict reason htext
    | ok text =>
      rw [hread] at htext
      dsimp only
      by_cases hequal : (storedDocument committed d).map (·.contentHash) = some (contentHash text)
      · rw [if_pos hequal]
        obtain ⟨e, he, heq⟩ := Option.map_eq_some_iff.mp hequal
        have hsameText : e.text = text := by
          rw [(hcommitted.read e (lookup_eq_some he).1).1] at heq
          exact hhash heq
        exact hkeep e he (hsameText ▸ htext)
      · rw [if_neg hequal]
        have hunique := nodup_replace (a := (⟨document, text, contentHash text⟩ : ContentEntry))
          hpending.unique
        refine ⟨⟨hunique, fun e he => ?_⟩, ?_⟩
        · rcases List.mem_append.mp he with he | he
          · exact hpending.read e (List.mem_filter.mp he).1
          · obtain rfl := List.mem_singleton.mp he
            exact ⟨rfl, policy, prepared, hprepare, hread⟩
        · rw [htext]
          exact textMap_of_lookup (lookup_replace pending ⟨document, text, contentHash text⟩)

/-- The texts a list of documents writes, one a document. -/
def textWrites (sources : Sources) (policy : ContentIndexPolicy) (documents : List CatalogDocument) :
    List (DocumentId × Option String) :=
  documents.map fun document => (document.identity.documentId, textOf sources policy document)

/-- The texts a delta writes. -/
def deltaWrites (sources : Sources) (policy : ContentIndexPolicy) (upserts : List CatalogDocument)
    (deletions : List DocumentId) : List (DocumentId × Option String) :=
  textWrites sources policy upserts ++ deletions.map fun d => (d, none)

/-- The upserts of a delta write their texts, each over an entry that still is
as it was committed. -/
theorem upsertLoop_writes (hstable : SourcesStable sources) (hhash : Function.Injective contentHash)
    (policy : ContentIndexPolicy) {committed : Entries}
    (hcommitted : EntriesWF sources contentHash committed) (seen : List DocumentId)
    {pending : Entries} (hpending : EntriesWF sources contentHash pending)
    {documents : List CatalogDocument} (hunique : UniqueDocuments documents)
    (hfresh : ∀ d ∈ documents, d.identity.documentId ∉ seen)
    (hsame : ∀ k, k ∉ seen → textMap pending k = textMap committed k) :
    ∃ pending' seen' outcomes,
      upsertLoop sources contentHash policy committed seen pending documents =
        .ok (pending', seen', outcomes) ∧
      EntriesWF sources contentHash pending' ∧
      textMap pending' = replay (textMap pending) (textWrites sources policy documents) ∧
      (∀ k, k ∈ seen' ↔ k ∈ seen ∨ ∃ d ∈ documents, d.identity.documentId = k) ∧
      ∀ k, k ∉ seen' → textMap pending' k = textMap committed k := by
  induction documents generalizing seen pending with
  | nil => exact ⟨pending, seen, [], rfl, hpending, rfl, by simp, hsame⟩
  | cons document rest ih =>
    have hnot := hfresh document List.mem_cons_self
    obtain ⟨hhead, hrest⟩ := List.nodup_cons.mp hunique
    have hone := syncOne_writes hstable hhash policy hcommitted hpending (hsame _ hnot)
    obtain ⟨pending', seen', outcomes, hloop, hwf, hmap, hseen, hsame'⟩ :=
      ih (document.identity.documentId :: seen) hone.wf hrest
        (fun d hd hin => by
          rcases List.mem_cons.mp hin with heq | hin
          · exact hhead (List.mem_map.mpr ⟨d, hd, heq⟩)
          · exact hfresh d (List.mem_cons_of_mem _ hd) hin)
        (fun k hk => by
          obtain ⟨hne, hk⟩ := not_or.mp (mt List.mem_cons.mpr hk)
          rw [hone.text, Function.update_of_ne hne, hsame k hk])
    refine ⟨pending', seen', (syncOne sources contentHash policy (storedDocument committed
      document.identity.documentId) pending document).2 :: outcomes, ?_, hwf, ?_, ?_, hsame'⟩
    · rw [upsertLoop]
      dsimp only
      rw [if_neg hnot, hloop]
      rfl
    · rw [hmap, hone.text]
      rfl
    · intro k
      rw [hseen]
      simp only [List.mem_cons, exists_eq_or_imp]
      tauto

omit [CaseMapping] in
/-- The deletions of a delta remove their entries, whether or not there were any. -/
theorem deletionLoop_writes {P : Entries → Prop} (hP : ∀ entries d, P entries → P (deleteTerm entries d))
    {committed : Entries} (seen : List DocumentId) {pending : Entries} (hpending : P pending)
    {ids : List DocumentId} (hunique : ids.Nodup) (hfresh : ∀ d ∈ ids, d ∉ seen)
    (hsame : ∀ k, k ∉ seen → textMap pending k = textMap committed k) :
    ∃ pending' outcomes, deletionLoop committed seen pending ids = .ok (pending', outcomes) ∧
      P pending' ∧ textMap pending' = replay (textMap pending) (ids.map fun d => (d, none)) := by
  induction ids generalizing seen pending with
  | nil => exact ⟨pending, [], rfl, hpending, rfl⟩
  | cons d rest ih =>
    have hnot := hfresh d List.mem_cons_self
    obtain ⟨hhead, hrest⟩ := List.nodup_cons.mp hunique
    set next := if (storedDocument committed d).isSome then deleteTerm pending d else pending with hnext
    have hmap : textMap next = Function.update (textMap pending) d none := by
      cases hstored : storedDocument committed d with
      | some e =>
        rw [hnext, hstored]
        exact textMap_deleteTerm _ _
      | none =>
        have hnone : textMap pending d = none := by
          rw [hsame d hnot, textMap, hstored]
          rfl
        rw [hnext, hstored]
        exact (Function.update_eq_self_iff.mpr hnone.symm).symm
    have hkeep : P next := by
      rw [hnext]
      split_ifs
      · exact hP _ _ hpending
      · exact hpending
    obtain ⟨pending', outcomes, hloop, hwf, htext⟩ :=
      ih (d :: seen) hkeep hrest
        (fun k hk hin => by
          rcases List.mem_cons.mp hin with rfl | hin
          · exact hhead hk
          · exact hfresh k (List.mem_cons_of_mem _ hk) hin)
        (fun k hk => by
          obtain ⟨hne, hk⟩ := not_or.mp (mt List.mem_cons.mpr hk)
          rw [hmap, Function.update_of_ne hne, hsame k hk])
    refine ⟨pending', (if (storedDocument committed d).isSome then .removed else .absent) :: outcomes,
      ?_, hwf, ?_⟩
    · rw [deletionLoop, if_neg hnot]
      dsimp only
      rw [← hnext, hloop]
      rfl
    · rw [htext, hmap]
      rfl

/-- A delta that names every document once is accepted, and writes the texts of
its upserts and the absence of its deletions. -/
theorem applyDelta_writes (hstable : SourcesStable sources) (hhash : Function.Injective contentHash)
    (policy : ContentIndexPolicy) {committed : Entries}
    (hcommitted : EntriesWF sources contentHash committed) {upserts : List CatalogDocument}
    {deletions : List DocumentId}
    (hunique : (upserts.map (·.identity.documentId) ++ deletions).Nodup) :
    ∃ entries outcomes,
      applyDelta sources contentHash policy committed upserts deletions = .ok (entries, outcomes) ∧
      EntriesWF sources contentHash entries ∧
      textMap entries = replay (textMap committed)
        (deltaWrites sources policy upserts deletions) := by
  obtain ⟨hupserts, hdeletions, hcross⟩ := List.nodup_append.mp hunique
  obtain ⟨staged, seen, outcomes, hloop, hstaged, hmap, hseen, hsame⟩ :=
    upsertLoop_writes hstable hhash policy hcommitted [] hcommitted hupserts (by simp)
      (fun _ _ => rfl)
  obtain ⟨entries, more, hdelete, hentries, htext⟩ :=
    deletionLoop_writes (P := EntriesWF sources contentHash) (fun _ d h => h.deleteTerm d) seen
      hstaged hdeletions
      (fun d hd hin => by
        obtain hin | ⟨e, he, heq⟩ := (hseen d).mp hin
        · cases hin
        · exact hcross d (List.mem_map.mpr ⟨e, he, heq⟩) d hd rfl)
      hsame
  refine ⟨entries, outcomes ++ more, ?_, hentries, ?_⟩
  · rw [applyDelta, hloop, ok_bind]
    dsimp only
    rw [hdelete]
    rfl
  · rw [htext, hmap, deltaWrites, replay_append]

theorem buildOne_writes (policy : ContentIndexPolicy) {entries : Entries}
    (h : EntriesWF sources contentHash entries) {document : CatalogDocument}
    (hfresh : storedDocument entries document.identity.documentId = none) :
    WritesText sources contentHash policy entries document
      (buildOne sources contentHash policy entries document) := by
  cases hextract : extractText sources document policy with
  | error reason =>
    have htext : textOf sources policy document = none := by rw [textOf, hextract]; rfl
    rw [buildOne, hextract]
    refine ⟨h, ?_⟩
    rw [htext]
    refine (Function.update_eq_self_iff.mpr ?_).symm
    rw [textMap, hfresh]
    rfl
  | ok text =>
    have htext : textOf sources policy document = some text := by rw [textOf, hextract]; rfl
    obtain ⟨prepared, hprepare, hread⟩ := bind_ok.mp hextract
    have hfresh' : lookup ContentEntry.documentId entries document.identity.documentId = none := hfresh
    have hunique := nodup_concat (a := (⟨document, text, contentHash text⟩ : ContentEntry)) h.unique
      hfresh'
    rw [buildOne, hextract]
    refine ⟨⟨hunique, fun e he => ?_⟩, ?_⟩
    · rcases List.mem_append.mp he with he | he
      · exact h.read e he
      · obtain rfl := List.mem_singleton.mp he
        exact ⟨rfl, policy, prepared, hprepare, hread⟩
    · rw [htext]
      exact textMap_of_lookup
        (lookup_concat (a := (⟨document, text, contentHash text⟩ : ContentEntry)) hfresh')

/-- A build of distinct documents holds the text of each. -/
theorem build_writes (policy : ContentIndexPolicy) {documents : List CatalogDocument}
    (hunique : UniqueDocuments documents) :
    EntriesWF sources contentHash (build sources contentHash policy documents) ∧
      textMap (build sources contentHash policy documents) =
        fun k => (indexMap documents k).bind (textOf sources policy) := by
  induction documents using List.reverseRecOn with
  | nil => exact ⟨⟨List.nodup_nil, by simp [build]⟩, rfl⟩
  | append_singleton documents document ih =>
    have hsplit : ((documents ++ [document]).map (·.identity.documentId)).Nodup := hunique
    rw [List.map_append, List.nodup_append] at hsplit
    obtain ⟨hdocuments, -, hcross⟩ := hsplit
    obtain ⟨hwf, hmap⟩ := ih hdocuments
    have hfresh : indexMap documents document.identity.documentId = none :=
      lookup_eq_none.mpr fun d hd he =>
        hcross _ (List.mem_map_of_mem hd) _ (List.mem_singleton_self _) he
    have hnone : storedDocument (build sources contentHash policy documents)
        document.identity.documentId = none := by
      have htext := congrFun hmap document.identity.documentId
      rw [hfresh] at htext
      exact Option.map_eq_none_iff.mp htext
    have hone := buildOne_writes policy hwf hnone
    have hconcat : build sources contentHash policy (documents ++ [document]) =
        buildOne sources contentHash policy (build sources contentHash policy documents) document :=
      List.foldl_concat ..
    have hindex : indexMap (documents ++ [document]) =
        Function.update (indexMap documents) document.identity.documentId (some document) :=
      lookup_concat hfresh
    refine ⟨hconcat ▸ hone.wf, ?_⟩
    rw [hconcat, hone.text, hmap, hindex]
    funext k
    by_cases hk : k = document.identity.documentId
    · rw [hk, Function.update_self, Function.update_self]
      rfl
    · rw [Function.update_of_ne hk, Function.update_of_ne hk]

/-- Writing the texts of distinct documents leaves every other entry alone. -/
theorem replay_textWrites {policy : ContentIndexPolicy} {documents : List CatalogDocument}
    (hunique : UniqueDocuments documents) (m : DocumentId → Option String) (k : DocumentId) :
    replay m (textWrites sources policy documents) k =
      if ∃ d ∈ documents, d.identity.documentId = k then (indexMap documents k).bind (textOf sources policy)
      else m k := by
  rw [replay_apply]
  split_ifs with hk
  · obtain ⟨d, hd, rfl⟩ := hk
    have hnodup : ((textWrites sources policy documents).map (·.1)).Nodup := by
      rw [textWrites, List.map_map]
      exact hunique
    rw [lastWrite_of_nodup hnodup (List.mem_map_of_mem hd), indexMap_of_mem hunique hd]
    rfl
  · have hnone : lastWrite (textWrites sources policy documents) k = none := by
      refine lastWrite_eq_none.mpr fun w hw he => hk ?_
      obtain ⟨d, hd, rfl⟩ := List.mem_map.mp hw
      exact ⟨d, hd, he⟩
    rw [hnone]
    rfl

/-- Removing the entries of a list leaves no text for their ids and the rest alone. -/
theorem removeAll_writes (missing : Entries) {entries : Entries} (h : EntriesWF sources contentHash entries) :
    EntriesWF sources contentHash
        (missing.foldl (fun pending e => deleteTerm pending e.documentId) entries) ∧
      ∀ k, textMap (missing.foldl (fun pending e => deleteTerm pending e.documentId) entries) k =
        if ∃ e ∈ missing, e.documentId = k then none else textMap entries k := by
  induction missing generalizing entries with
  | nil => exact ⟨h, fun k => by simp⟩
  | cons e rest ih =>
    obtain ⟨hwf, hmap⟩ := ih (h.deleteTerm e.documentId)
    refine ⟨hwf, fun k => ?_⟩
    rw [List.foldl_cons, hmap, textMap_deleteTerm]
    by_cases hrest : ∃ e ∈ rest, e.documentId = k
    · rw [if_pos hrest, if_pos (hrest.imp fun _ h => ⟨List.mem_cons_of_mem _ h.1, h.2⟩)]
    · rw [if_neg hrest]
      by_cases hk : k = e.documentId
      · rw [hk, Function.update_self, if_pos ⟨e, List.mem_cons_self, rfl⟩]
      · rw [Function.update_of_ne hk, if_neg]
        rintro ⟨e', he', heq⟩
        rcases List.mem_cons.mp he' with rfl | he'
        · exact hk heq.symm
        · exact hrest ⟨e', he', heq⟩

/-- Synchronizing to distinct documents is as good as building from them. -/
theorem sync_writes (hstable : SourcesStable sources) (hhash : Function.Injective contentHash)
    (policy : ContentIndexPolicy) {committed : Entries}
    (hcommitted : EntriesWF sources contentHash committed) {documents : List CatalogDocument}
    (hunique : UniqueDocuments documents) :
    ∃ entries outcomes,
      sync sources contentHash policy committed documents = .ok (entries, outcomes) ∧
      EntriesWF sources contentHash entries ∧
      textMap entries = textMap (build sources contentHash policy documents) := by
  obtain ⟨staged, seen, outcomes, hloop, hstaged, hmap, hseen, -⟩ :=
    upsertLoop_writes hstable hhash policy hcommitted [] hcommitted hunique (by simp) (fun _ _ => rfl)
  set missing := committed.filter fun e => e.documentId ∉ seen with hmissing
  obtain ⟨hwf, hremoved⟩ := removeAll_writes missing hstaged
  refine ⟨_, outcomes ++ missing.map fun _ => .removed, ?_, hwf, ?_⟩
  · rw [sync, hloop]
    rfl
  funext k
  rw [hremoved, hmap, replay_textWrites hunique, (build_writes policy hunique).2]
  dsimp only
  have hk := hseen k
  by_cases hnamed : ∃ d ∈ documents, d.identity.documentId = k
  · have hkept : ¬ ∃ e ∈ missing, e.documentId = k := by
      rintro ⟨e, he, rfl⟩
      simp only [hmissing, List.mem_filter, decide_eq_true_eq] at he
      exact he.2 (hk.mpr (Or.inr hnamed))
    rw [if_neg hkept, if_pos hnamed]
  · have hnone : indexMap documents k = none :=
      lookup_eq_none.mpr fun d hd he => hnamed ⟨d, hd, he⟩
    rw [if_neg hnamed, hnone]
    split_ifs with hgone
    · rfl
    · -- no entry had the id, or it would be among the missing ones
      have hstored : storedDocument committed k = none := by
        refine lookup_eq_none.mpr fun e he hid => hgone ⟨e, ?_, hid⟩
        simp only [hmissing, List.mem_filter, decide_eq_true_eq]
        refine ⟨he, fun hin => ?_⟩
        rcases hk.mp (hid ▸ hin) with hin | hin
        · cases hin
        · exact hnamed hin
      rw [textMap, hstored]
      rfl

end Texts

end LocalSearch.Content
