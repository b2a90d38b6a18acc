import LocalSearch.Graph.Path
import LocalSearch.Lib.Walk

/-!
# Exactness of path resolution

What `resolvePath` returns is said without its loop: the chain from the link to a
root, and the first link at which a chain breaks. No assumption is made on the
link table. That the cycle check is harmless is a fact about walks: a parent met
twice leads round for ever, so the chain has no root.
-/
namespace LocalSearch.Graph

set_option autoImplicit false

open Core Lib

variable {g : FilesystemGraph} {id : FileLinkId} {d : Nat}

/-- The link is stored and no other stored link names the object. -/
def OnlyLink (g : FilesystemGraph) (object : FileKey) (link : StoredLink) : Prop :=
  ∀ other : StoredLink,
    (loadLink g other.fileLinkId = some other ∧ other.objectKey = object) ↔ other = link

/-- The way up from a parent column. -/
def LeadsTo (g : FilesystemGraph) (parent : Option FileKey) (link : StoredLink) : Prop :=
  ∃ object, parent = some object ∧ OnlyLink g object link

/-- Each link is the only link of the parent object of the one before it. -/
def Climbs (g : FilesystemGraph) (chain : List StoredLink) : Prop :=
  chain.IsChain fun link next => LeadsTo g link.parentKey next

/-- A chain from the link up to one that has no parent. -/
structure ReachesRoot (g : FilesystemGraph) (id : FileLinkId) (chain : List StoredLink) : Prop where
  nonempty : chain ≠ []
  starts : chain.head? = loadLink g id
  climbs : Climbs g chain
  root : ∀ last ∈ chain.getLast?, last.parentKey = none

/-- The walk stands at `current`: it has passed the links before it within the
limit, no boundary among them but the target, and no parent twice. -/
structure Standing (g : FilesystemGraph) (id : FileLinkId) (d : Nat) (passed : List StoredLink)
    (current : StoredLink) : Prop where
  starts : (passed ++ [current]).head? = loadLink g id
  climbs : Climbs g (passed ++ [current])
  within : passed.length ≤ d
  unbounded : ∀ link ∈ passed.tail, link.traversalBoundary = false
  fresh : (passed.map (·.parentKey)).Nodup

/-- The link at which the walk stands is within the limit and may be passed. -/
structure Passable (d : Nat) (passed : List StoredLink) (current : StoredLink) : Prop where
  within : passed.length < d
  unbounded : passed ≠ [] → current.traversalBoundary = false

/-- The first break of the chain and the error that names it. -/
inductive Breaks (g : FilesystemGraph) (id : FileLinkId) (d : Nat) : GraphError → Prop
  | linkNotFound (h : loadLink g id = none) : Breaks g id d (.linkNotFound id)
  | depthLimit {passed current} (h : Standing g id d passed current) (hlength : passed.length = d) :
      Breaks g id d (.depthLimit d)
  | traversalBoundary {passed current} (h : Standing g id d passed current)
      (hlength : passed.length < d) (hpassed : passed ≠ [])
      (hboundary : current.traversalBoundary = true) :
      Breaks g id d (.traversalBoundary current.fileLinkId)
  | parentCycle {passed current parent} (h : Standing g id d passed current)
      (hpass : Passable d passed current) (hparent : current.parentKey = some parent)
      (hseen : ∃ link ∈ passed, link.parentKey = some parent) :
      Breaks g id d (.parentCycle parent)
  | missingParent {passed current parent} (h : Standing g id d passed current)
      (hpass : Passable d passed current) (hparent : current.parentKey = some parent)
      (hnone : ∀ link, loadLink g link.fileLinkId = some link → link.objectKey ≠ parent) :
      Breaks g id d (.missingParent parent)
  | ambiguousParent {passed current parent first second} (h : Standing g id d passed current)
      (hpass : Passable d passed current) (hparent : current.parentKey = some parent)
      (hfirst : loadLink g first.fileLinkId = some first ∧ first.objectKey = parent)
      (hsecond : loadLink g second.fileLinkId = some second ∧ second.objectKey = parent)
      (hne : first ≠ second) : Breaks g id d (.ambiguousParent parent)

theorem leadsTo_rightUnique : Relator.RightUnique (LeadsTo g) := by
  rintro parent link link' ⟨object, rfl, hlink⟩ ⟨object', hobject, hlink'⟩
  obtain rfl := Option.some.inj hobject
  exact (hlink' link).mp ((hlink link).mpr rfl)

theorem onlyLink_iff {object : FileKey} {link : StoredLink} :
    OnlyLink g object link ↔ linksOf g object = [link] := by
  constructor
  · intro h
    have hmem : ∀ other, other ∈ linksOf g object ↔ other ∈ [link] := by
      intro other
      rw [mem_linksOf, h other, List.mem_singleton]
    have hperm := (List.perm_ext_iff_of_nodup (linksOf_nodup g object)
      (List.pairwise_singleton _ link)).mpr hmem
    exact List.perm_singleton.mp hperm
  · intro h other
    rw [← mem_linksOf, h, List.mem_singleton]

/-- The three answers of the lookup. -/
theorem loadOnlyLinkForObject_cases (g : FilesystemGraph) (object : FileKey) :
    (∃ link, OnlyLink g object link) ∨
    (∀ link, loadLink g link.fileLinkId = some link → link.objectKey ≠ object) ∨
    (∃ first second : StoredLink, first ≠ second ∧
      (loadLink g first.fileLinkId = some first ∧ first.objectKey = object) ∧
      (loadLink g second.fileLinkId = some second ∧ second.objectKey = object)) := by
  have hnodup := linksOf_nodup g object
  rcases h : linksOf g object with _ | ⟨a, _ | ⟨b, rest⟩⟩
  · refine .inr (.inl fun link hlink hobject => ?_)
    have hmem := mem_linksOf.mpr ⟨hlink, hobject⟩
    rw [h] at hmem
    cases hmem
  · exact .inl ⟨a, onlyLink_iff.mpr h⟩
  · refine .inr (.inr ⟨a, b, ?_, mem_linksOf.mp ?_, mem_linksOf.mp ?_⟩)
    · rintro rfl
      rw [h] at hnodup
      simp at hnodup
    · rw [h]
      exact List.mem_cons_self
    · rw [h]
      exact List.mem_cons_of_mem _ List.mem_cons_self

theorem loadOnlyLinkForObject_only {object : FileKey} {link : StoredLink}
    (h : OnlyLink g object link) : loadOnlyLinkForObject g object = .ok link :=
  loadOnlyLinkForObject_ok.mpr (onlyLink_iff.mp h)

theorem loadOnlyLinkForObject_missing {object : FileKey}
    (h : ∀ link, loadLink g link.fileLinkId = some link → link.objectKey ≠ object) :
    loadOnlyLinkForObject g object = .error (.missingParent object) := by
  have hnil : linksOf g object = [] := by
    rw [List.eq_nil_iff_forall_not_mem]
    intro link hlink
    obtain ⟨hload, hobject⟩ := mem_linksOf.mp hlink
    exact h link hload hobject
  rw [loadOnlyLinkForObject, hnil]
  rfl

theorem loadOnlyLinkForObject_ambiguous {object : FileKey} {first second : StoredLink}
    (hfirst : loadLink g first.fileLinkId = some first ∧ first.objectKey = object)
    (hsecond : loadLink g second.fileLinkId = some second ∧ second.objectKey = object)
    (hne : first ≠ second) : loadOnlyLinkForObject g object = .error (.ambiguousParent object) := by
  have h₁ := mem_linksOf.mpr hfirst
  have h₂ := mem_linksOf.mpr hsecond
  unfold loadOnlyLinkForObject
  rcases h : linksOf g object with _ | ⟨a, _ | ⟨b, rest⟩⟩
  · rw [h] at h₁
    cases h₁
  · rw [h, List.mem_singleton] at h₁ h₂
    exact absurd (h₁.trans h₂.symm) hne
  · rfl

/-- The loop when the walk stands at `current` after `passed`. -/
def resolveFrom (g : FilesystemGraph) (d : Nat) (passed : List StoredLink) (current : StoredLink) :
    GraphResult (List String) :=
  resolveLoop g d (d - passed.length) current (passed.map (·.name)).reverse
    (passed.filterMap (·.parentKey)).reverse passed.isEmpty

theorem mem_seen {passed : List StoredLink} {parent : FileKey} :
    parent ∈ (passed.filterMap (·.parentKey)).reverse ↔
      ∃ link ∈ passed, link.parentKey = some parent := by
  rw [List.mem_reverse, List.mem_filterMap]

/-- Within the limit and past the boundary check, the parent decides. -/
theorem resolveFrom_passable {passed : List StoredLink} {current : StoredLink}
    (h : Passable d passed current) :
    resolveFrom g d passed current =
      match current.parentKey with
      | none => .ok ((passed ++ [current]).map (·.name)).reverse
      | some parent =>
          if ∃ link ∈ passed, link.parentKey = some parent then .error (.parentCycle parent)
          else loadOnlyLinkForObject g parent >>= resolveFrom g d (passed ++ [current]) := by
  obtain ⟨fuel, hfuel⟩ : ∃ fuel, d - passed.length = fuel + 1 :=
    ⟨d - passed.length - 1, by have := h.within; omega⟩
  have hboundary : (current.traversalBoundary && !passed.isEmpty) = false := by
    cases hp : passed.isEmpty with
    | true => simp
    | false =>
      rw [h.unbounded (by rintro rfl; cases hp)]
      rfl
  rw [resolveFrom, hfuel, resolveLoop, hboundary, if_neg Bool.false_ne_true]
  cases hparent : current.parentKey with
  | none => simp
  | some parent =>
    have hfuel' : d - (passed ++ [current]).length = fuel := by
      rw [List.length_append, List.length_singleton]
      omega
    simp only [mem_seen]
    split
    · rfl
    · congr 1
      funext next
      have hempty : (passed ++ [current]).isEmpty = false := by cases passed <;> rfl
      rw [resolveFrom, hfuel', hempty]
      simp [hparent]

theorem Standing.passed_passable {passed : List StoredLink} {link current : StoredLink}
    (h : Standing g id d (passed ++ [link]) current) : Passable d passed link := by
  constructor
  · have hwithin := h.within
    rw [List.length_append, List.length_singleton] at hwithin
    omega
  · intro hne
    apply h.unbounded
    rw [List.tail_append_of_ne_nil hne]
    exact List.mem_append_right _ (List.mem_singleton.mpr rfl)

theorem Standing.back {passed : List StoredLink} {link current : StoredLink}
    (h : Standing g id d (passed ++ [link]) current) : Standing g id d passed link := by
  have hstarts := h.starts
  have hclimbs : Climbs g (passed ++ [link]) := List.IsChain.left_of_append h.climbs
  refine ⟨?_, hclimbs, ?_, fun l hl => ?_, ?_⟩
  · rw [← hstarts]
    cases passed <;> rfl
  · exact Nat.le_of_lt h.passed_passable.within
  · apply h.unbounded
    cases passed with
    | nil => cases hl
    | cons first rest => exact List.mem_append_left _ hl
  · have hfresh := h.fresh
    rw [List.map_append] at hfresh
    exact (List.nodup_append.mp hfresh).1

/-- The step by which the walk got where it stands. -/
theorem Standing.leads {passed : List StoredLink} {link current : StoredLink}
    (h : Standing g id d (passed ++ [link]) current) : LeadsTo g link.parentKey current := by
  have hclimbs : (passed ++ ([link] ++ [current])).IsChain
      fun link next => LeadsTo g link.parentKey next := by
    rw [← List.append_assoc]
    exact h.climbs
  exact (List.isChain_cons_cons.mp hclimbs.right_of_append).1

/-- Where the walk stands, the loop is there. -/
theorem Standing.resolves (hd : 0 < d) {passed : List StoredLink} {current : StoredLink}
    (h : Standing g id d passed current) : resolvePath g id d = resolveFrom g d passed current := by
  induction passed using List.reverseRecOn generalizing current with
  | nil =>
    have hload : loadLink g id = some current := h.starts.symm
    rw [resolvePath, if_neg (Nat.ne_of_gt hd), hload]
    rfl
  | append_singleton passed link ih =>
    obtain ⟨parent, hparent, honly⟩ := h.leads
    have hfresh : ¬ ∃ earlier ∈ passed, earlier.parentKey = some parent := by
      rintro ⟨earlier, hearlier, heq⟩
      have hnodup := h.fresh
      rw [List.map_append, List.nodup_append] at hnodup
      exact hnodup.2.2 _ (List.mem_map.mpr ⟨earlier, hearlier, rfl⟩) link.parentKey
        (by simp) (heq.trans hparent.symm)
    rw [ih h.back, resolveFrom_passable h.passed_passable, hparent]
    simp only
    rw [if_neg hfresh, loadOnlyLinkForObject_only honly, ok_bind]

/-- At a root the chain is complete. -/
theorem Standing.root (hd : 0 < d) {passed : List StoredLink} {current : StoredLink}
    (h : Standing g id d passed current) (hpass : Passable d passed current)
    (hroot : current.parentKey = none) :
    resolvePath g id d = .ok ((passed ++ [current]).map (·.name)).reverse := by
  rw [h.resolves hd, resolveFrom_passable hpass, hroot]

/-- A link that was passed has a way up. -/
theorem Standing.left {passed : List StoredLink} {current : StoredLink}
    (h : Standing g id d passed current) {link : StoredLink} (hlink : link ∈ passed) :
    ∃ next, LeadsTo g link.parentKey next := by
  induction passed using List.reverseRecOn generalizing current with
  | nil => cases hlink
  | append_singleton passed last ih =>
    rcases List.mem_append.mp hlink with hlink | hlink
    · exact ih h.back hlink
    · obtain rfl := List.mem_singleton.mp hlink
      exact ⟨current, h.leads⟩

/-- A parent without an only link was not met before: the lookup decides. -/
theorem Standing.unled (hd : 0 < d) {passed : List StoredLink} {current : StoredLink}
    {parent : FileKey} (h : Standing g id d passed current) (hpass : Passable d passed current)
    (hparent : current.parentKey = some parent) (hnone : ¬ ∃ next, OnlyLink g parent next) :
    resolvePath g id d =
      (loadOnlyLinkForObject g parent >>= resolveFrom g d (passed ++ [current])) := by
  have hfresh : ¬ ∃ link ∈ passed, link.parentKey = some parent := by
    rintro ⟨link, hlink, heq⟩
    obtain ⟨next, object, hobject, honly⟩ := h.left hlink
    obtain rfl := Option.some.inj (heq.symm.trans hobject)
    exact hnone ⟨next, honly⟩
  rw [h.resolves hd, resolveFrom_passable hpass, hparent]
  simp only
  rw [if_neg hfresh]

/-- One step up. -/
theorem Standing.forward {passed : List StoredLink} {current next : StoredLink} {parent : FileKey}
    (h : Standing g id d passed current) (hpass : Passable d passed current)
    (hparent : current.parentKey = some parent)
    (hfresh : ¬ ∃ link ∈ passed, link.parentKey = some parent) (honly : OnlyLink g parent next) :
    Standing g id d (passed ++ [current]) next := by
  refine ⟨?_, ?_, ?_, fun link hlink => ?_, ?_⟩
  · rw [← h.starts]
    cases passed <;> rfl
  · refine List.IsChain.append h.climbs (List.isChain_singleton next) fun x hx y hy => ?_
    simp only [List.getLast?_concat, Option.mem_def, Option.some.injEq] at hx
    simp only [List.head?_cons, Option.mem_def, Option.some.injEq] at hy
    subst hx hy
    exact ⟨parent, hparent, honly⟩
  · rw [List.length_append, List.length_singleton]
    exact hpass.within
  · cases passed with
    | nil => cases hlink
    | cons first rest =>
      rcases List.mem_append.mp hlink with hlink | hlink
      · exact h.unbounded link hlink
      · obtain rfl := List.mem_singleton.mp hlink
        exact hpass.unbounded (List.cons_ne_nil _ _)
  · rw [List.map_append, List.nodup_append]
    refine ⟨h.fresh, List.pairwise_singleton _ _, fun key hkey key' hkey' heq => ?_⟩
    obtain ⟨link, hlink, rfl⟩ := List.mem_map.mp hkey
    obtain rfl := List.mem_singleton.mp hkey'
    exact hfresh ⟨link, hlink, heq.trans hparent⟩

/-- A break is reported as it is. -/
theorem Breaks.resolvePath_eq (hd : 0 < d) {e : GraphError} (h : Breaks g id d e) :
    resolvePath g id d = .error e := by
  cases h with
  | linkNotFound hnone => rw [resolvePath, if_neg (Nat.ne_of_gt hd), hnone]
  | depthLimit h hlength =>
    rw [h.resolves hd, resolveFrom, hlength, Nat.sub_self, resolveLoop]
  | @traversalBoundary passed current h hlength hpassed hboundary =>
    obtain ⟨fuel, hfuel⟩ : ∃ fuel, d - passed.length = fuel + 1 :=
      ⟨d - passed.length - 1, by omega⟩
    have hempty : passed.isEmpty = false := by simpa using hpassed
    rw [h.resolves hd, resolveFrom, hfuel, resolveLoop, hboundary, hempty]
    rfl
  | parentCycle h hpass hparent hseen =>
    rw [h.resolves hd, resolveFrom_passable hpass, hparent]
    simp only
    rw [if_pos hseen]
  | missingParent h hpass hparent hnone =>
    rw [h.unled hd hpass hparent, loadOnlyLinkForObject_missing hnone, error_bind]
    rintro ⟨next, hnext⟩
    obtain ⟨hload, hobject⟩ := (hnext next).mpr rfl
    exact hnone next hload hobject
  | ambiguousParent h hpass hparent hfirst hsecond hne =>
    rw [h.unled hd hpass hparent, loadOnlyLinkForObject_ambiguous hfirst hsecond hne, error_bind]
    rintro ⟨next, hnext⟩
    exact hne (((hnext _).mp hfirst).trans ((hnext _).mp hsecond).symm)

/-- From wherever the walk stands it comes to a root or to a break. -/
theorem Standing.outcome {passed : List StoredLink} {current : StoredLink}
    (h : Standing g id d passed current) :
    (∃ passed' current', Standing g id d passed' current' ∧ Passable d passed' current' ∧
      current'.parentKey = none) ∨ ∃ e, Breaks g id d e := by
  -- on the number of links that may still be passed
  induction hn : d - passed.length generalizing passed current with
  | zero =>
    have hlength : passed.length = d := by
      have := h.within
      omega
    exact .inr ⟨_, .depthLimit h hlength⟩
  | succ n ih =>
    have hlength : passed.length < d := by omega
    by_cases hboundary : passed ≠ [] ∧ current.traversalBoundary = true
    · exact .inr ⟨_, .traversalBoundary h hlength hboundary.1 hboundary.2⟩
    have hpass : Passable d passed current :=
      ⟨hlength, fun hne => by simpa using fun hb => hboundary ⟨hne, hb⟩⟩
    cases hparent : current.parentKey with
    | none => exact .inl ⟨passed, current, h, hpass, hparent⟩
    | some parent =>
      by_cases hseen : ∃ link ∈ passed, link.parentKey = some parent
      · exact .inr ⟨_, .parentCycle h hpass hparent hseen⟩
      rcases loadOnlyLinkForObject_cases g parent with ⟨next, honly⟩ | hnone | hmany
      · exact ih (h.forward hpass hparent hseen honly) (by simp; omega)
      · exact .inr ⟨_, .missingParent h hpass hparent hnone⟩
      · obtain ⟨first, second, hne, hfirst, hsecond⟩ := hmany
        exact .inr ⟨_, .ambiguousParent h hpass hparent hfirst hsecond hne⟩

theorem ReachesRoot.ends {chain : List StoredLink} (h : ReachesRoot g id chain) :
    Ends (·.parentKey) (LeadsTo g) chain := by
  rintro last hlast next ⟨object, hobject, -⟩
  have hnone : some object = none := hobject.symm.trans (h.root last hlast)
  cases hnone

/-- A chain to a root without boundaries is walked to its end. -/
theorem ReachesRoot.standing {passed : List StoredLink} {last : StoredLink}
    (h : ReachesRoot g id (passed ++ [last]))
    (hunbounded : ∀ link ∈ (passed ++ [last]).tail, link.traversalBoundary = false)
    (hlength : (passed ++ [last]).length ≤ d) :
    Standing g id d passed last ∧ Passable d passed last := by
  rw [List.length_append, List.length_singleton] at hlength
  have hnodup := keys_nodup_of_ends leadsTo_rightUnique h.climbs h.ends
  rw [List.dropLast_concat] at hnodup
  refine ⟨⟨h.starts, h.climbs, by omega, fun link hlink => ?_, hnodup⟩, hlength, fun hne => ?_⟩
  · apply hunbounded
    cases passed with
    | nil => cases hlink
    | cons first rest => exact List.mem_append_left _ hlink
  · apply hunbounded
    rw [List.tail_append_of_ne_nil hne]
    exact List.mem_append_right _ (List.mem_singleton.mpr rfl)

/-- The converse: a walk that stands at a root has a chain behind it. -/
theorem Standing.reachesRoot {passed : List StoredLink} {current : StoredLink}
    (h : Standing g id d passed current) (hpass : Passable d passed current)
    (hroot : current.parentKey = none) :
    ReachesRoot g id (passed ++ [current]) ∧
      (∀ link ∈ (passed ++ [current]).tail, link.traversalBoundary = false) ∧
      (passed ++ [current]).length ≤ d := by
  refine ⟨⟨by simp, h.starts, h.climbs, fun last hlast => ?_⟩, fun link hlink => ?_, ?_⟩
  · rw [List.getLast?_concat] at hlast
    obtain rfl := Option.some.inj hlast
    exact hroot
  · cases passed with
    | nil => cases hlink
    | cons first rest =>
      rcases List.mem_append.mp hlink with hlink | hlink
      · exact h.unbounded link hlink
      · obtain rfl := List.mem_singleton.mp hlink
        exact hpass.unbounded (List.cons_ne_nil _ _)
  · rw [List.length_append, List.length_singleton]
    exact hpass.within

/-- A chain that reaches a root, however long and whatever its boundaries, is not
broken by the cycle check. -/
theorem ReachesRoot.not_parentCycle {chain : List StoredLink} (h : ReachesRoot g id chain)
    (parent : FileKey) : ¬ Breaks g id d (.parentCycle parent) := by
  intro hbreaks
  cases hbreaks with
  | @parentCycle passed current _ hs hpass hparent hseen =>
    have hnodup := keys_nodup_of_ends leadsTo_rightUnique h.climbs h.ends
    -- the walk is a beginning of the chain, and not all of it
    have hbegins : passed ++ [current] <+: chain := by
      have hclimbs := hs.climbs
      have hstarts := hs.starts
      cases chain with
      | nil => exact absurd rfl h.nonempty
      | cons first rest =>
        generalize passed ++ [current] = walk at hclimbs hstarts ⊢
        cases walk with
        | nil => exact List.nil_prefix
        | cons first' rest' =>
          obtain rfl := Option.some.inj (hstarts.trans h.starts.symm)
          exact isPrefix_of_ends leadsTo_rightUnique h.climbs h.ends hclimbs
    obtain ⟨rest, rfl⟩ := hbegins
    cases rest with
    | nil =>
      have hroot := h.root current (by simp)
      rw [hparent] at hroot
      cases hroot
    | cons next rest =>
      obtain ⟨link, hlink, heq⟩ := hseen
      rw [List.dropLast_append_cons, List.map_append, List.nodup_append, List.map_append,
        List.nodup_append] at hnodup
      exact hnodup.1.2.2 _ (List.mem_map.mpr ⟨link, hlink, rfl⟩) current.parentKey (by simp)
        (heq.trans hparent.symm)

theorem resolvePath_outcome (g : FilesystemGraph) (id : FileLinkId) (d : Nat) :
    (∃ passed current, Standing g id d passed current ∧ Passable d passed current ∧
      current.parentKey = none) ∨ ∃ e, Breaks g id d e := by
  cases hload : loadLink g id with
  | none => exact .inr ⟨_, .linkNotFound hload⟩
  | some link =>
    have hstart : Standing g id d [] link :=
      ⟨hload.symm, List.isChain_singleton link, Nat.zero_le _, fun _ h => (nomatch h), List.nodup_nil⟩
    exact hstart.outcome

/-- For every link table, link and depth limit: the components are returned
exactly for a chain to a root within the limit and without boundaries above the
link, any other outcome is the first break, and a chain to a root is never called
a cycle. -/
theorem resolvePath_exact (g : FilesystemGraph) (id : FileLinkId) (hd : 0 < d) :
    (∀ components, resolvePath g id d = .ok components ↔
      ∃ chain, ReachesRoot g id chain ∧
        (∀ link ∈ chain.tail, link.traversalBoundary = false) ∧ chain.length ≤ d ∧
        components = (chain.map (·.name)).reverse) ∧
    (∀ e, resolvePath g id d = .error e ↔ Breaks g id d e) ∧
    (∀ chain, ReachesRoot g id chain → ∀ parent, resolvePath g id d ≠ .error (.parentCycle parent)) := by
  have herror : ∀ e, resolvePath g id d = .error e ↔ Breaks g id d e := by
    intro e
    refine ⟨fun h => ?_, fun h => h.resolvePath_eq hd⟩
    rcases resolvePath_outcome g id d with ⟨passed, current, hs, hpass, hroot⟩ | ⟨e', hbreaks⟩
    · rw [hs.root hd hpass hroot] at h
      cases h
    · rw [hbreaks.resolvePath_eq hd] at h
      exact Except.error.inj h ▸ hbreaks
  refine ⟨fun components => ⟨fun h => ?_, ?_⟩, herror, fun chain hchain parent h => ?_⟩
  · rcases resolvePath_outcome g id d with ⟨passed, current, hs, hpass, hroot⟩ | ⟨e, hbreaks⟩
    · obtain ⟨hchain, hunbounded, hlength⟩ := hs.reachesRoot hpass hroot
      rw [hs.root hd hpass hroot] at h
      exact ⟨passed ++ [current], hchain, hunbounded, hlength, (Except.ok.inj h).symm⟩
    · rw [hbreaks.resolvePath_eq hd] at h
      cases h
  · rintro ⟨chain, hchain, hunbounded, hlength, rfl⟩
    rcases List.eq_nil_or_concat' chain with rfl | ⟨passed, last, rfl⟩
    · exact absurd rfl hchain.nonempty
    · obtain ⟨hs, hpass⟩ := hchain.standing hunbounded hlength
      have hroot := hchain.root last (by simp)
      exact hs.root hd hpass hroot
  · exact hchain.not_parentCycle parent ((herror _).mp h)

/-- A directory under the root, and a second pair of directories above each
other. -/
def loopedGraph : FilesystemGraph :=
  let key n : FileKey := ⟨.fromU128 1, .fromU128 n⟩
  let row object parent name : LinkRow := ⟨key object, parent, name, false, 0⟩
  { FilesystemGraph.empty with
    links := (((Table.empty.insert (.fromU128 1) (row 1 none "root")).insert (.fromU128 2)
      (row 2 (some (key 1)) "docs")).insert (.fromU128 3) (row 3 (some (key 4)) "a")).insert
        (.fromU128 4) (row 4 (some (key 3)) "b") }

/-- The directory has its chain, and the loop is the first break of the other. -/
theorem loopedGraph_exact :
    (∃ chain, ReachesRoot loopedGraph (.fromU128 2) chain ∧
      (∀ link ∈ chain.tail, link.traversalBoundary = false) ∧ chain.length ≤ 2 ∧
      ["root", "docs"] = (chain.map (·.name)).reverse) ∧
    Breaks loopedGraph (.fromU128 3) 8 (.parentCycle ⟨.fromU128 1, .fromU128 4⟩) := by
  have hdocs : resolvePath loopedGraph (.fromU128 2) 2 = .ok ["root", "docs"] := by decide
  have hloop : resolvePath loopedGraph (.fromU128 3) 8 =
      .error (.parentCycle ⟨.fromU128 1, .fromU128 4⟩) := by decide
  exact ⟨((resolvePath_exact loopedGraph (.fromU128 2) (by decide)).1 _).mp hdocs,
    ((resolvePath_exact loopedGraph (.fromU128 3) (by decide)).2.1 _).mp hloop⟩

end LocalSearch.Graph
