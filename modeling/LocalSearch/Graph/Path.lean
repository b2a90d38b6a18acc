import LocalSearch.Graph.Schema

/-!
# Path resolution over parent-object links

`resolvePath` walks from a link to a provider root through the only link of
each parent object. The walk reads nothing of a row but its stored link, so two
graphs that hold the same links for every object on the way resolve alike.
-/
namespace LocalSearch.Graph

set_option autoImplicit false

open Core Lib

/-- A link row without its observation generation. -/
structure StoredLink where
  fileLinkId : FileLinkId
  objectKey : FileKey
  parentKey : Option FileKey
  name : String
  traversalBoundary : Bool
  deriving DecidableEq, Repr

def storedLinkFromRow (id : FileLinkId) (row : LinkRow) : StoredLink :=
  ⟨id, row.objectKey, row.parentKey, row.name, row.traversalBoundary⟩

/-- An observed link as it is stored. -/
def storedLink (link : FileLinkSnapshot) (boundary : Bool) : StoredLink :=
  ⟨link.fileLinkId, link.objectKey, link.parentKey, link.name, boundary⟩

def loadLink (g : FilesystemGraph) (id : FileLinkId) : Option StoredLink :=
  (g.links.get id).map (storedLinkFromRow id)

/-- All links of one object, in link order. -/
def linksOf (g : FilesystemGraph) (object : FileKey) : List StoredLink :=
  (g.links.select fun _ row => row.objectKey == object).map fun x => storedLinkFromRow x.1 x.2

/-- The query reads at most two rows: none, the only one, or an ambiguity. -/
def loadOnlyLinkForObject (g : FilesystemGraph) (object : FileKey) : GraphResult StoredLink :=
  match (linksOf g object).take 2 with
  | [] => .error (.missingParent object)
  | [first] => .ok first
  | _ => .error (.ambiguousParent object)

/-- The loop of `resolve_path_connection`. The first argument counts the
components that may still be pushed, so it is spent exactly when the component
count reaches the limit; `components` is kept in root-to-leaf order. -/
def resolveLoop (g : FilesystemGraph) (depthLimit : Nat) :
    Nat → StoredLink → List String → List FileKey → Bool → GraphResult (List String)
  | 0, _, _, _, _ => .error (.depthLimit depthLimit)
  | fuel + 1, current, components, seen, isTarget =>
      if current.traversalBoundary && !isTarget then
        .error (.traversalBoundary current.fileLinkId)
      else
        match current.parentKey with
        | none => .ok (current.name :: components)
        | some parent =>
            if parent ∈ seen then .error (.parentCycle parent)
            else do
              let next ← loadOnlyLinkForObject g parent
              resolveLoop g depthLimit fuel next (current.name :: components) (parent :: seen) false

/-- Components from the provider root to the link. -/
def resolvePath (g : FilesystemGraph) (fileLinkId : FileLinkId) (depthLimit : Nat) :
    GraphResult (List String) :=
  if depthLimit = 0 then .error (.depthLimit 0)
  else
    match loadLink g fileLinkId with
    | none => .error (.linkNotFound fileLinkId)
    | some link => resolveLoop g depthLimit depthLimit link [] [] true

/-- `ResolvedPath::display`. -/
def displayPath (components : List String) : String := String.intercalate "/" components

theorem loadLink_eq_some {g : FilesystemGraph} {id : FileLinkId} {link : StoredLink} :
    loadLink g id = some link ↔
      ∃ row, g.links.get id = some row ∧ storedLinkFromRow id row = link := by
  simp [loadLink]

theorem mem_linksOf {g : FilesystemGraph} {object : FileKey} {link : StoredLink} :
    link ∈ linksOf g object ↔ loadLink g link.fileLinkId = some link ∧ link.objectKey = object := by
  rw [linksOf, List.mem_map]
  constructor
  · rintro ⟨⟨id, row⟩, hmem, rfl⟩
    obtain ⟨hrow, hobj⟩ := Table.mem_select.mp hmem
    exact ⟨loadLink_eq_some.mpr ⟨row, hrow, rfl⟩, beq_iff_eq.mp hobj⟩
  · rintro ⟨hload, hobj⟩
    obtain ⟨row, hrow, hst⟩ := loadLink_eq_some.mp hload
    refine ⟨(link.fileLinkId, row), Table.mem_select.mpr ⟨hrow, ?_⟩, hst⟩
    rw [← hst] at hobj
    exact beq_iff_eq.mpr hobj

theorem linksOf_sorted (g : FilesystemGraph) (object : FileKey) :
    (linksOf g object).Pairwise fun a b => a.fileLinkId < b.fileLinkId :=
  List.pairwise_map.mpr (Table.select_sorted _ _)

theorem linksOf_nodup (g : FilesystemGraph) (object : FileKey) : (linksOf g object).Nodup :=
  (linksOf_sorted g object).imp fun hlt he => absurd (he ▸ hlt) (lt_irrefl _)

/-- Equal stored links of an object are equal as lists: both are in link order. -/
theorem linksOf_congr {g g' : FilesystemGraph} {object : FileKey}
    (h : ∀ link : StoredLink, link.objectKey = object →
      (loadLink g link.fileLinkId = some link ↔ loadLink g' link.fileLinkId = some link)) :
    linksOf g object = linksOf g' object := by
  have hmem : ∀ link, link ∈ linksOf g object ↔ link ∈ linksOf g' object := by
    intro link
    rw [mem_linksOf, mem_linksOf]
    exact ⟨fun ⟨hl, ho⟩ => ⟨(h link ho).mp hl, ho⟩, fun ⟨hl, ho⟩ => ⟨(h link ho).mpr hl, ho⟩⟩
  have hperm := (List.perm_ext_iff_of_nodup (linksOf_nodup g object) (linksOf_nodup g' object)).mpr hmem
  exact hperm.eq_of_pairwise (fun _ _ _ _ hab hba => absurd hba (lt_asymm hab))
    (linksOf_sorted g object) (linksOf_sorted g' object)

theorem loadOnlyLinkForObject_congr {g g' : FilesystemGraph} {object : FileKey}
    (h : linksOf g object = linksOf g' object) :
    loadOnlyLinkForObject g object = loadOnlyLinkForObject g' object := by
  simp only [loadOnlyLinkForObject, h]

/-- The only link of a parent is the single element of its link list. -/
theorem loadOnlyLinkForObject_ok {g : FilesystemGraph} {object : FileKey} {link : StoredLink} :
    loadOnlyLinkForObject g object = .ok link ↔ linksOf g object = [link] := by
  unfold loadOnlyLinkForObject
  rcases h : linksOf g object with _ | ⟨a, _ | ⟨b, rest⟩⟩
  · exact ⟨fun h => (nomatch h), fun h => (nomatch h)⟩
  · simp
  · simp

/-- Two graphs with the same links for every object of an ancestor-closed set
resolve alike from any link whose parent is in the set. -/
theorem resolveLoop_congr {g g' : FilesystemGraph} {S : FileKey → Prop}
    (hsame : ∀ o, S o → linksOf g o = linksOf g' o)
    (hclosed : ∀ o, S o → ∀ link ∈ linksOf g o, ∀ p ∈ link.parentKey, S p)
    (limit fuel : Nat) (current : StoredLink) (hcur : ∀ p ∈ current.parentKey, S p)
    (components : List String) (seen : List FileKey) (target : Bool) :
    resolveLoop g limit fuel current components seen target =
      resolveLoop g' limit fuel current components seen target := by
  induction fuel generalizing current components seen target with
  | zero => rfl
  | succ fuel ih =>
    simp only [resolveLoop]
    split
    · rfl
    · cases hp : current.parentKey with
      | none => rfl
      | some parent =>
        have hS : S parent := hcur parent hp
        have hload := loadOnlyLinkForObject_congr (hsame parent hS)
        simp only [← hload]
        split
        · rfl
        · cases hl : loadOnlyLinkForObject g parent with
          | error e => rfl
          | ok next =>
            have hnext : next ∈ linksOf g parent := by
              rw [loadOnlyLinkForObject_ok.mp hl]
              exact List.mem_singleton.mpr rfl
            exact ih next (hclosed parent hS next hnext) _ _ _

theorem resolvePath_congr {g g' : FilesystemGraph} {S : FileKey → Prop} {id : FileLinkId}
    (hlink : loadLink g id = loadLink g' id)
    (hsame : ∀ o, S o → linksOf g o = linksOf g' o)
    (hclosed : ∀ o, S o → ∀ link ∈ linksOf g o, ∀ p ∈ link.parentKey, S p)
    (hcur : ∀ link, loadLink g id = some link → ∀ p ∈ link.parentKey, S p) (limit : Nat) :
    resolvePath g id limit = resolvePath g' id limit := by
  simp only [resolvePath, ← hlink]
  split
  · rfl
  · cases hl : loadLink g id with
    | none => rfl
    | some link => exact resolveLoop_congr hsame hclosed _ _ link (hcur link hl) _ _ _

/-- Resolution reads the links only. -/
theorem resolvePath_of_links {g g' : FilesystemGraph} (h : g.links = g'.links) (id : FileLinkId)
    (limit : Nat) : resolvePath g id limit = resolvePath g' id limit := by
  have hload : ∀ i, loadLink g i = loadLink g' i := fun i => by simp only [loadLink, h]
  exact resolvePath_congr (S := fun _ => True) (hload id)
    (fun o _ => linksOf_congr fun link _ => by rw [hload]) (fun _ _ _ _ _ _ => trivial)
    (fun _ _ _ _ => trivial) limit

/-- A resolved link is present. -/
theorem loadLink_of_resolvePath {g : FilesystemGraph} {id : FileLinkId} {limit : Nat}
    {path : List String} (h : resolvePath g id limit = .ok path) : ∃ link, loadLink g id = some link := by
  rw [resolvePath, guard_ok] at h
  cases hl : loadLink g id with
  | none => rw [hl] at h; cases h.2
  | some link => exact ⟨link, rfl⟩

end LocalSearch.Graph
