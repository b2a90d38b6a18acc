import Mathlib.Data.Set.Function
import Mathlib.Logic.Function.Basic

/-!
# A listing and the changes since

Names come and go while a listing of them is taken, and the changes are replayed
onto it. A listed entry is held under the hash of its place. A change holds or
drops an entry under the identity of its place, which an entry that is renamed
takes along. A change may also fail to tell of its entry, and an entry that is
there may be told of again.
-/
namespace LocalSearch.Lib

set_option autoImplicit false

/-- An entry of file `f` at place `q` changes; a rename leaves and arrives. A
report is of an entry that is there. -/
inductive NameChange (π φ : Type) where
  | create (q : π) (f : φ)
  | leave (q : π) (f : φ)
  | arrive (q : π) (f : φ)
  | delete (q : π) (f : φ)
  | report (q : π) (f : φ)
  deriving DecidableEq

/-- A change, and whether it tells of the entry that is there behind it. -/
abbrev Notice (π φ : Type) := NameChange π φ × Bool

/-- The file at each place, and the files that are between two places. -/
structure NameSpace (π φ : Type) where
  named : π → Option φ
  moving : φ → Prop

/-- The entries held under identities, the identities that renames brought to
places and those of the files between two places. -/
@[ext]
structure Listing (π φ ι : Type) where
  held : ι → Option (π × φ)
  carried : π → Option ι
  pending : φ → Option ι

section Model

variable {π φ ι : Type}

def NameChange.place : NameChange π φ → π
  | .create q _ | .leave q _ | .arrive q _ | .delete q _ | .report q _ => q

def NameSpace.Legal (s : NameSpace π φ) : NameChange π φ → Prop
  | .create q f => s.named q = none ∧ ¬ s.moving f ∧ ∀ p, s.named p ≠ some f
  | .leave q f => s.named q = some f ∧ ¬ s.moving f
  | .arrive q f => s.named q = none ∧ s.moving f
  | .delete q f => s.named q = some f ∧ ∀ p, s.named p = some f → p = q
  | .report q f => s.named q = some f

def Listing.path (l : Listing π φ ι) (h : π → ι) (q : π) : ι := (l.carried q).getD (h q)

/-- The identity is not that of another file, and the place is not held under
another identity. -/
structure Listing.Admits (l : Listing π φ ι) (id : ι) (q : π) (f : φ) : Prop where
  own : ∀ p g, l.held id = some (p, g) → g = f
  place : ∀ x g, l.held x = some (q, g) → x = id

def Listing.Fits (l : Listing π φ ι) (h : π → ι) : Notice π φ → Prop
  | (.create q f, told) => told = true → l.Admits (l.path h q) q f
  | (.leave _ _, _) => True
  | (.arrive q f, told) => told = true → l.Admits ((l.pending f).getD (l.path h q)) q f
  | (.delete q f, _) => ∀ p g, l.held (l.path h q) = some (p, g) → g = f
  | (.report q f, told) => told = true ∧ l.Admits (l.path h q) q f

variable [DecidableEq π]

def NameSpace.change (s : NameSpace π φ) : NameChange π φ → NameSpace π φ
  | .create q f => { s with named := Function.update s.named q (some f) }
  | .leave q f => ⟨Function.update s.named q none, fun g => g = f ∨ s.moving g⟩
  | .arrive q f => ⟨Function.update s.named q (some f), fun g => g ≠ f ∧ s.moving g⟩
  | .delete q _ => { s with named := Function.update s.named q none }
  | .report _ _ => s

/-- The place keeps the identity it goes by. -/
def Listing.remember (l : Listing π φ ι) (h : π → ι) (q : π) : Listing π φ ι :=
  { l with carried := Function.update l.carried q (some (l.path h q)) }

variable [DecidableEq φ] [DecidableEq ι]

def Listing.hold (l : Listing π φ ι) (id : ι) (q : π) (f : φ) (told : Bool) : ι → Option (π × φ) :=
  if told then Function.update l.held id (some (q, f)) else l.held

def Listing.note (l : Listing π φ ι) (h : π → ι) : Notice π φ → Listing π φ ι
  | (.create q f, told) => { l with held := l.hold (l.path h q) q f told }
  | (.leave q f, _) => { l with
      carried := Function.update l.carried q none
      pending := Function.update l.pending f (some (l.path h q)) }
  | (.arrive q f, told) => {
      held := l.hold ((l.pending f).getD (l.path h q)) q f told
      carried := Function.update l.carried q (some ((l.pending f).getD (l.path h q)))
      pending := Function.update l.pending f none }
  | (.delete q _, _) => { l with
      held := Function.update l.held (l.path h q) none
      carried := Function.update l.carried q none }
  | (.report q f, told) => { l with held := l.hold (l.path h q) q f told }

/-- Legal changes that fit, replayed in order. An identity may be remembered at any
time. -/
inductive Replayed (h : π → ι) (s₀ : NameSpace π φ) (l₀ : Listing π φ ι) :
    List (Notice π φ) → NameSpace π φ → Listing π φ ι → Prop
  | start : Replayed h s₀ l₀ [] s₀ l₀
  | notice {past : List (Notice π φ)} {s : NameSpace π φ} {l : Listing π φ ι} {c : NameChange π φ}
      {told : Bool} (hrun : Replayed h s₀ l₀ past s l) (hlegal : s.Legal c)
      (hfits : l.Fits h (c, told)) :
      Replayed h s₀ l₀ (past ++ [(c, told)]) (s.change c) (l.note h (c, told))
  | remember {past : List (Notice π φ)} {s : NameSpace π φ} {l : Listing π φ ι}
      (hrun : Replayed h s₀ l₀ past s l) (q : π) : Replayed h s₀ l₀ past s (l.remember h q)

end Model

section Tracks

variable {π φ ι : Type} {h : π → ι} {S : Set π} {s₀ s s' : NameSpace π φ} {l₀ l l' : Listing π φ ι}
  {past : List (Notice π φ)} {n : Notice π φ} {q : π} {f : φ} {x : ι} {told : Bool}

/-- Some change was about the place. -/
def Touched (past : List (Notice π φ)) (q : π) : Prop := ∃ n ∈ past, n.1.place = q

/-- The entry was there at the start or was created since. -/
def Original (s₀ : NameSpace π φ) (past : List (Notice π φ)) (q : π) (f : φ) : Prop :=
  s₀.named q = some f ∨ ∃ told, (.create q f, told) ∈ past

/-- The entry appeared without being told. -/
def Missed (past : List (Notice π φ)) (q : π) (f : φ) : Prop :=
  (.create q f, false) ∈ past ∨ (.arrive q f, false) ∈ past

theorem touched_concat {p : π} : Touched (past ++ [n]) p ↔ Touched past p ∨ p = n.1.place := by
  unfold Touched
  simp only [List.mem_append, List.mem_singleton, or_and_right, exists_or, exists_eq_left]
  exact or_congr_right eq_comm

theorem Touched.later {p : π} (htouched : Touched past p) : Touched (past ++ [n]) p :=
  touched_concat.mpr (.inl htouched)

theorem original_concat {p : π} {g : φ} :
    Original s₀ (past ++ [n]) p g ↔ Original s₀ past p g ∨ n.1 = .create p g := by
  unfold Original
  simp only [List.mem_append, List.mem_singleton, exists_or, or_assoc]
  refine or_congr_right (or_congr_right ⟨?_, fun hn => ⟨n.2, ?_⟩⟩)
  · rintro ⟨told, rfl⟩
    rfl
  · rw [← hn]

theorem Original.later {p : π} {g : φ} (horiginal : Original s₀ past p g) :
    Original s₀ (past ++ [n]) p g :=
  original_concat.mpr (.inl horiginal)

theorem Missed.later {p : π} {g : φ} (hmissed : Missed past p g) : Missed (past ++ [n]) p g :=
  hmissed.imp (List.mem_append_left _) (List.mem_append_left _)

/-- A place that was touched, with its identity and the place that one is hashed
from. -/
structure HashedFrom (h : π → ι) (S : Set π) (s₀ : NameSpace π φ) (past : List (Notice π φ)) (o : π)
    (f : φ) (id : ι) : Prop where
  touched : Touched past o
  mem : o ∈ S
  hash : id = h o
  original : Original s₀ past o f

theorem HashedFrom.later {o : π} (hfrom : HashedFrom h S s₀ past o f x) :
    HashedFrom h S s₀ (past ++ [n]) o f x :=
  ⟨hfrom.touched.later, hfrom.mem, hfrom.hash, hfrom.original.later⟩

/-- The file is at a place that has the identity, or takes it along. -/
def InUse (h : π → ι) (past : List (Notice π φ)) (s : NameSpace π φ) (l : Listing π φ ι) (id : ι) (f : φ) :
    Prop :=
  (∃ q, Touched past q ∧ s.named q = some f ∧ l.path h q = id) ∨ s.moving f ∧ l.pending f = some id

/-- What holds between the listing the changes started from and what they have
made of it. -/
structure Tracks (h : π → ι) (S : Set π) (s₀ : NameSpace π φ) (l₀ : Listing π φ ι)
    (past : List (Notice π φ)) (s : NameSpace π φ) (l : Listing π φ ι) : Prop where
  named : ∀ q, ¬ Touched past q → s.named q = s₀.named q
  own : ∀ q, ¬ Touched past q ∨ s.named q = none → l.path h q = h q
  listed : ∀ q ∈ S, ¬ Touched past q → l.held (h q) = l₀.held (h q)
  origin : ∀ q f, Touched past q → s.named q = some f → ∃ o, HashedFrom h S s₀ past o f (l.path h q)
  transit : ∀ f, s.moving f → ∃ o id, l.pending f = some id ∧ HashedFrom h S s₀ past o f id
  distinct : ∀ q r f, Touched past q → Touched past r → s.named q = some f → s.named r = some f →
    l.path h q = l.path h r → q = r
  apart : ∀ q f, Touched past q → s.named q = some f → s.moving f → l.pending f ≠ some (l.path h q)
  settled : ∀ q f, Touched past q → s.named q = some f →
    l.held (l.path h q) = some (q, f) ∨ Missed past q f
  unique : ∀ id id' q f g, l.held id = some (q, f) → l.held id' = some (q, g) → id = id'
  first : ∀ id q f, l.held id = some (q, f) → ¬ Touched past q → id = h q ∧ l₀.held id = some (q, f)
  standing : ∀ id q f, l.held id = some (q, f) → InUse h past s l id f ∨
    id = h q ∧ l₀.held id = some (q, f) ∧ ¬ (Touched past q ∧ Original s₀ past q f)

/-- Everything listed is under the hash of its place, and nothing is renamed. -/
structure Listing.Fresh (h : π → ι) (s₀ : NameSpace π φ) (l₀ : Listing π φ ι) : Prop where
  still : ∀ f, ¬ s₀.moving f
  carried : ∀ q, l₀.carried q = none
  pending : ∀ f, l₀.pending f = none
  hash : ∀ id q f, l₀.held id = some (q, f) → id = h q

theorem Listing.Fresh.tracks (hfresh : Listing.Fresh h s₀ l₀) : Tracks h S s₀ l₀ [] s₀ l₀ := by
  have hnone : ∀ q, ¬ Touched ([] : List (Notice π φ)) q := by
    rintro q ⟨_, hn, -⟩
    cases hn
  have hown : ∀ q, l₀.path h q = h q := by
    intro q
    rw [Listing.path, hfresh.carried q]
    rfl
  refine ⟨fun _ _ => rfl, fun q _ => hown q, fun _ _ _ => rfl,
    fun q _ htouched => absurd htouched (hnone q), fun f hmoving => absurd hmoving (hfresh.still f),
    fun q _ _ htouched => absurd htouched (hnone q), fun q _ htouched => absurd htouched (hnone q),
    fun q _ htouched => absurd htouched (hnone q), fun id id' q f g hid hid' => ?_,
    fun id q f hid _ => ⟨hfresh.hash id q f hid, hid⟩,
    fun id q f hid => .inr ⟨hfresh.hash id q f hid, hid, fun htouched => hnone q htouched.1⟩⟩
  rw [hfresh.hash id q f hid, hfresh.hash id' q g hid']

/-- The identity of an entry that is about to be touched. -/
theorem Tracks.hashedFrom (htracks : Tracks h S s₀ l₀ past s l) (hq : n.1.place = q) (hS : q ∈ S)
    (hnamed : s.named q = some f) : ∃ o, HashedFrom h S s₀ (past ++ [n]) o f (l.path h q) := by
  by_cases htouched : Touched past q
  · obtain ⟨o, hfrom⟩ := htracks.origin q f htouched hnamed
    exact ⟨o, hfrom.later⟩
  · have horiginal : s₀.named q = some f := (htracks.named q htouched).symm.trans hnamed
    exact ⟨q, touched_concat.mpr (.inr hq.symm), hS, htracks.own q (.inl htouched), .inl horiginal⟩

/-- A place that is not touched yet has an identity of its own. -/
theorem HashedFrom.ne_untouched {o r : π} (hinj : Set.InjOn h S) (hfrom : HashedFrom h S s₀ past o f x)
    (hr : r ∈ S) (htouched : ¬ Touched past r) : h r ≠ x := by
  intro heq
  have hsame : r = o := hinj hr hfrom.mem (heq.trans hfrom.hash)
  exact htouched (hsame ▸ hfrom.touched)

/-- Two places of a file go by identities of their own, if one was touched. -/
theorem Tracks.path_ne {r : π} (hinj : Set.InjOn h S) (htracks : Tracks h S s₀ l₀ past s l) (hS : q ∈ S)
    (hrq : r ≠ q) (hr : Touched past r) (hnamed : s.named r = some f) (hentry : s.named q = some f) :
    l.path h r ≠ l.path h q := by
  intro hpath
  by_cases htouched : Touched past q
  · exact hrq (htracks.distinct r q f hr htouched hnamed hentry hpath)
  · obtain ⟨o, hfrom⟩ := htracks.origin r f hr hnamed
    rw [htracks.own q (.inl htouched)] at hpath
    exact hfrom.ne_untouched hinj hS htouched hpath.symm

/-- Nothing changes away from the place. -/
structure Elsewhere (s s' : NameSpace π φ) (l l' : Listing π φ ι) (q : π) : Prop where
  named : ∀ r, r ≠ q → s'.named r = s.named r
  carried : ∀ r, r ≠ q → l'.carried r = l.carried r

theorem Elsewhere.path {r : π} (helsewhere : Elsewhere s s' l l' q) (hr : r ≠ q) :
    l'.path h r = l.path h r := by
  rw [Listing.path, helsewhere.carried r hr, Listing.path]

theorem touched_of_ne {r : π} (hq : n.1.place = q) (hr : r ≠ q) :
    Touched (past ++ [n]) r ↔ Touched past r :=
  touched_concat.trans (or_iff_left (hq ▸ hr))

theorem touched_self (hq : n.1.place = q) : Touched (past ++ [n]) q :=
  touched_concat.mpr (.inr hq.symm)

theorem ne_of_untouched {r : π} (hq : n.1.place = q) (hr : ¬ Touched (past ++ [n]) r) : r ≠ q :=
  fun heq => hr (heq ▸ touched_self hq)

section Elsewhere

variable (helsewhere : Elsewhere s s' l l' q) (htracks : Tracks h S s₀ l₀ past s l) (hq : n.1.place = q)

include helsewhere htracks hq

theorem Tracks.named_elsewhere {r : π} (hr : ¬ Touched (past ++ [n]) r) :
    s'.named r = s₀.named r := by
  have hne := ne_of_untouched hq hr
  rw [helsewhere.named r hne]
  exact htracks.named r ((touched_of_ne hq hne).not.mp hr)

theorem Tracks.own_elsewhere {r : π} (hne : r ≠ q)
    (hr : ¬ Touched (past ++ [n]) r ∨ s'.named r = none) : l'.path h r = h r := by
  rw [touched_of_ne hq hne, helsewhere.named r hne] at hr
  rw [helsewhere.path hne]
  exact htracks.own r hr

theorem Tracks.origin_elsewhere {r : π} {g : φ} (hne : r ≠ q) (hr : Touched (past ++ [n]) r)
    (hnamed : s'.named r = some g) : ∃ o, HashedFrom h S s₀ (past ++ [n]) o g (l'.path h r) := by
  rw [helsewhere.named r hne] at hnamed
  rw [helsewhere.path hne]
  obtain ⟨o, hfrom⟩ := htracks.origin r g ((touched_of_ne hq hne).mp hr) hnamed
  exact ⟨o, hfrom.later⟩

theorem Tracks.distinct_elsewhere {r r' : π} {g : φ} (hne : r ≠ q) (hne' : r' ≠ q)
    (hr : Touched (past ++ [n]) r) (hr' : Touched (past ++ [n]) r') (hnamed : s'.named r = some g)
    (hnamed' : s'.named r' = some g) (hpath : l'.path h r = l'.path h r') : r = r' := by
  rw [helsewhere.named r hne] at hnamed
  rw [helsewhere.named r' hne'] at hnamed'
  rw [helsewhere.path hne, helsewhere.path hne'] at hpath
  exact htracks.distinct r r' g ((touched_of_ne hq hne).mp hr) ((touched_of_ne hq hne').mp hr')
    hnamed hnamed' hpath

omit helsewhere in
/-- An original entry at a place that is touched for the first time is there. -/
theorem Tracks.named_of_original {p : π} {g : φ} (hclaim : ¬ (Touched past p ∧ Original s₀ past p g))
    (hp : Touched (past ++ [n]) p) (horiginal : Original s₀ past p g) :
    p = q ∧ ¬ Touched past p ∧ s.named p = some g := by
  have huntouched : ¬ Touched past p := fun hp => hclaim ⟨hp, horiginal⟩
  refine ⟨?_, huntouched, (htracks.named p huntouched).trans (horiginal.resolve_right ?_)⟩
  · by_contra hne
    exact huntouched ((touched_of_ne hq hne).mp hp)
  · rintro ⟨told', hmem⟩
    exact huntouched ⟨_, hmem, rfl⟩

end Elsewhere

variable [DecidableEq ι]

/-- The entry is held under the identity, if it is told. -/
structure Holds (l l' : Listing π φ ι) (q : π) (f : φ) (x : ι) (told : Bool) : Prop where
  held : l'.held = l.hold x q f told
  admits : told = true → l.Admits x q f

section Holds

variable (hholds : Holds l l' q f x told)

include hholds

/-- An entry held afterwards is the one that is told or was held before. -/
theorem Holds.cases {id : ι} {p : π} {g : φ} (hid : l'.held id = some (p, g)) :
    told = true ∧ id = x ∧ p = q ∧ g = f ∨ (told = true → id ≠ x) ∧ l.held id = some (p, g) := by
  rw [hholds.held, Listing.hold] at hid
  split_ifs at hid with htold
  · rw [Function.update_apply] at hid
    split_ifs at hid with hx
    · obtain ⟨rfl, rfl⟩ := Prod.mk.inj (Option.some.inj hid)
      exact .inl ⟨htold, hx, rfl, rfl⟩
    · exact .inr ⟨fun _ => hx, hid⟩
  · exact .inr ⟨fun h => absurd h htold, hid⟩

theorem Holds.held_of_ne {id : ι} (hid : id ≠ x) : l'.held id = l.held id := by
  rw [hholds.held, Listing.hold]
  split_ifs
  · exact Function.update_of_ne hid _ _
  · rfl

theorem Holds.held_self (htold : told = true) : l'.held x = some (q, f) := by
  rw [hholds.held, Listing.hold, if_pos htold, Function.update_self]

/-- An entry of another file, or of another identity, is held as before. -/
theorem Holds.held_other {id : ι} {p : π} {g : φ} (hid : l.held id = some (p, g)) (hother : g = f → id ≠ x) :
    l'.held id = some (p, g) := by
  by_cases hx : id = x
  · cases htold : told with
    | false =>
      rw [hholds.held, Listing.hold, htold, if_neg Bool.false_ne_true]
      exact hid
    | true =>
      have hgf : g = f := (hholds.admits htold).own p g (hx ▸ hid)
      exact absurd hx (hother hgf)
  · rw [hholds.held_of_ne hx]
    exact hid

variable (htracks : Tracks h S s₀ l₀ past s l)

include htracks

theorem Holds.unique {id id' : ι} {p : π} {g g' : φ} (hid : l'.held id = some (p, g))
    (hid' : l'.held id' = some (p, g')) : id = id' := by
  rcases hholds.cases hid with ⟨htold, rfl, rfl, rfl⟩ | ⟨-, hold⟩ <;>
    rcases hholds.cases hid' with ⟨htold', rfl, heq, rfl⟩ | ⟨-, hold'⟩
  · rfl
  · exact ((hholds.admits htold).place id' g' hold').symm
  · rw [heq] at hold
    exact (hholds.admits htold').place id g hold
  · exact htracks.unique id id' p g g' hold hold'

theorem Holds.first (hq : n.1.place = q) {id : ι} {p : π} {g : φ} (hid : l'.held id = some (p, g))
    (hp : ¬ Touched (past ++ [n]) p) : id = h p ∧ l₀.held id = some (p, g) := by
  rcases hholds.cases hid with ⟨-, -, rfl, -⟩ | ⟨-, hold⟩
  · exact absurd (touched_self hq) hp
  · exact htracks.first id p g hold ((touched_of_ne hq (ne_of_untouched hq hp)).not.mp hp)

theorem Holds.listed {o r : π} (hinj : Set.InjOn h S) (hq : n.1.place = q)
    (hfrom : HashedFrom h S s₀ (past ++ [n]) o f x) (hr : r ∈ S)
    (htouched : ¬ Touched (past ++ [n]) r) : l'.held (h r) = l₀.held (h r) := by
  rw [hholds.held_of_ne (hfrom.ne_untouched hinj hr htouched)]
  exact htracks.listed r hr ((touched_of_ne hq (ne_of_untouched hq htouched)).not.mp htouched)

theorem Holds.standing (hq : n.1.place = q) (hnew : InUse h (past ++ [n]) s' l' x f)
    (hkept : ∀ id g, InUse h past s l id g → InUse h (past ++ [n]) s' l' id g)
    (hcreated : ∀ p g, n.1 = .create p g → x = h p ∧ g = f)
    (hblocked : ∀ g, ¬ Touched past q → s.named q = some g → told = true ∧ x = h q)
    {id : ι} {p : π} {g : φ} (hid : l'.held id = some (p, g)) :
    InUse h (past ++ [n]) s' l' id g ∨ id = h p ∧ l₀.held id = some (p, g) ∧
      ¬ (Touched (past ++ [n]) p ∧ Original s₀ (past ++ [n]) p g) := by
  rcases hholds.cases hid with ⟨-, rfl, rfl, rfl⟩ | ⟨hidx, hold⟩
  · exact .inl hnew
  rcases htracks.standing id p g hold with huse | ⟨rfl, hlisted, hclaim⟩
  · exact .inl (hkept id g huse)
  by_cases hclaim' : Touched (past ++ [n]) p ∧ Original s₀ (past ++ [n]) p g
  · rcases original_concat.mp hclaim'.2 with horiginal | hcreate
    · -- the identity of an original entry at the place is the one that is held
      obtain ⟨rfl, huntouched, hthere⟩ := htracks.named_of_original hq hclaim hclaim'.1 horiginal
      obtain ⟨htold, hx⟩ := hblocked g huntouched hthere
      exact absurd hx.symm (hidx htold)
    · obtain ⟨hx, rfl⟩ := hcreated p g hcreate
      rw [← hx]
      exact .inl hnew
  · exact .inr ⟨rfl, hlisted, hclaim'⟩

end Holds

/-- An entry that is there and is told has been settled. -/
theorem Tracks.report (hinj : Set.InjOn h S) (htracks : Tracks h S s₀ l₀ past s l)
    (hn : n.1 = .report q f) (hS : q ∈ S) (hentry : s.named q = some f)
    (hholds : Holds l l' q f (l.path h q) true) (hcarried : l'.carried = l.carried)
    (hpending : l'.pending = l.pending) : Tracks h S s₀ l₀ (past ++ [n]) s l' := by
  have hq : n.1.place = q := by
    rw [hn]
    rfl
  have hpath : ∀ r, l'.path h r = l.path h r := fun r => by
    rw [Listing.path, hcarried, Listing.path]
  obtain ⟨o, hfrom⟩ := htracks.hashedFrom hq hS hentry
  have hnew : InUse h (past ++ [n]) s l' (l.path h q) f :=
    .inl ⟨q, touched_self hq, hentry, hpath q⟩
  have hkept : ∀ id g, InUse h past s l id g → InUse h (past ++ [n]) s l' id g := by
    rintro id g (⟨r, hr, hnamed, hid⟩ | ⟨hmoving, hid⟩)
    · exact .inl ⟨r, hr.later, hnamed, (hpath r).trans hid⟩
    · exact .inr ⟨hmoving, hpending ▸ hid⟩
  refine ⟨fun r hr => htracks.named r fun hpast => hr hpast.later, fun r hr => ?_,
    fun r hr htouched => hholds.listed htracks hinj hq hfrom hr htouched, fun r g hr hnamed => ?_,
    fun g hg => ?_, fun r r' g hr hr' hnamed hnamed' hsame => ?_, fun r g hr hnamed hg => ?_,
    fun r g hr hnamed => ?_, fun id id' p g g' hid hid' => hholds.unique htracks hid hid',
    fun id p g hid hp => hholds.first htracks hq hid hp,
    fun id p g hid => hholds.standing htracks hq hnew hkept ?_ (fun g huntouched _ => ?_) hid⟩
  · rw [hpath]
    exact htracks.own r (hr.imp_left fun huntouched hpast => huntouched hpast.later)
  · rw [hpath]
    by_cases hrq : r = q
    · subst hrq
      obtain rfl := Option.some.inj (hentry.symm.trans hnamed)
      exact ⟨o, hfrom⟩
    · obtain ⟨o', hfrom'⟩ := htracks.origin r g ((touched_of_ne hq hrq).mp hr) hnamed
      exact ⟨o', hfrom'.later⟩
  · obtain ⟨o', id, hid, hfrom'⟩ := htracks.transit g hg
    exact ⟨o', id, hpending ▸ hid, hfrom'.later⟩
  · rw [hpath, hpath] at hsame
    by_contra hne
    by_cases hrq : r = q
    · subst hrq
      exact htracks.path_ne hinj hS (Ne.symm hne) ((touched_of_ne hq (Ne.symm hne)).mp hr') hnamed' hnamed
        hsame.symm
    · have hpast := (touched_of_ne hq hrq).mp hr
      by_cases hrq' : r' = q
      · subst hrq'
        exact htracks.path_ne hinj hS hrq hpast hnamed hnamed' hsame
      · exact hne (htracks.distinct r r' g hpast ((touched_of_ne hq hrq').mp hr') hnamed hnamed' hsame)
  · rw [hpath, hpending]
    by_cases hpast : Touched past r
    · exact htracks.apart r g hpast hnamed hg
    · -- a place that was never touched has an identity that no rename takes along
      obtain rfl : r = q := by
        by_contra hrq
        exact hpast ((touched_of_ne hq hrq).mp hr)
      obtain ⟨o', id, hid, hfrom'⟩ := htracks.transit g hg
      rw [hid, htracks.own r (.inl hpast)]
      exact fun heq => hfrom'.ne_untouched hinj hS hpast (Option.some.inj heq).symm
  · rw [hpath]
    by_cases hrq : r = q
    · subst hrq
      obtain rfl := Option.some.inj (hentry.symm.trans hnamed)
      exact .inl (hholds.held_self rfl)
    · have hpast := (touched_of_ne hq hrq).mp hr
      refine (htracks.settled r g hpast hnamed).imp (fun hheld => ?_) Missed.later
      refine hholds.held_other hheld ?_
      rintro rfl
      exact htracks.path_ne hinj hS hrq hpast hnamed hentry
  · intro p g hcreate
    rw [hn] at hcreate
    cases hcreate
  · exact ⟨rfl, htracks.own q (.inl huntouched)⟩

variable [DecidableEq π]

/-- An entry appears at a free place under an identity that the file has at no
other place. -/
structure Appears (h : π → ι) (past : List (Notice π φ)) (s s' : NameSpace π φ) (l l' : Listing π φ ι)
    (q : π) (f : φ) (x : ι) (told : Bool) : Prop where
  free : s.named q = none
  named : s'.named = Function.update s.named q (some f)
  holds : Holds l l' q f x told
  path : l'.path h q = x
  carried : ∀ r, r ≠ q → l'.carried r = l.carried r
  moving : ∀ g, s'.moving g → g ≠ f ∧ s.moving g ∧ l'.pending g = l.pending g
  landed : ∀ g, s.moving g → s'.moving g ∨ g = f ∧ l.pending f = some x
  unused : ∀ r, Touched past r → s.named r = some f → l.path h r ≠ x

section Appears

variable (happears : Appears h past s s' l l' q f x told)

include happears

theorem Appears.elsewhere : Elsewhere s s' l l' q :=
  ⟨fun r hr => by rw [happears.named, Function.update_of_ne hr], happears.carried⟩

theorem Appears.named_self : s'.named q = some f := by
  rw [happears.named, Function.update_self]

theorem Appears.ne_of_named {r : π} {g : φ} (hnamed : s.named r = some g) : r ≠ q := by
  rintro rfl
  rw [happears.free] at hnamed
  cases hnamed

/-- A file that had the identity in use still has it. -/
theorem Appears.inUse {id : ι} {g : φ} (hq : n.1.place = q) (hid : InUse h past s l id g) :
    InUse h (past ++ [n]) s' l' id g := by
  rcases hid with ⟨r, hr, hnamed, hpath⟩ | ⟨hmoving, hpending⟩
  · have hne := happears.ne_of_named hnamed
    exact .inl ⟨r, hr.later, (happears.elsewhere.named r hne).trans hnamed,
      (happears.elsewhere.path hne).trans hpath⟩
  · rcases happears.landed g hmoving with hmoving' | ⟨rfl, hx⟩
    · exact .inr ⟨hmoving', (happears.moving g hmoving').2.2.trans hpending⟩
    · rw [hx] at hpending
      exact .inl ⟨q, touched_self hq, happears.named_self,
        happears.path.trans (Option.some.inj hpending)⟩

/-- The new entry shares its identity with no other place of its file. -/
theorem Appears.path_ne {r : π} (hq : n.1.place = q) (hrq : r ≠ q) (hr : Touched (past ++ [n]) r)
    (hnamed : s'.named r = some f) : l'.path h r ≠ l'.path h q := by
  have helsewhere := happears.elsewhere
  rw [helsewhere.path hrq, happears.path]
  rw [helsewhere.named r hrq] at hnamed
  exact happears.unused r ((touched_of_ne hq hrq).mp hr) hnamed

variable (htracks : Tracks h S s₀ l₀ past s l) (hq : n.1.place = q)

include htracks hq

theorem Appears.own {r : π} (hr : ¬ Touched (past ++ [n]) r ∨ s'.named r = none) : l'.path h r = h r := by
  refine htracks.own_elsewhere happears.elsewhere hq ?_ hr
  rintro rfl
  rcases hr with hr | hr
  · exact hr (touched_self hq)
  · rw [happears.named_self] at hr
    cases hr

theorem Appears.origin {o r : π} {g : φ} (hfrom : HashedFrom h S s₀ (past ++ [n]) o f x)
    (hr : Touched (past ++ [n]) r) (hnamed : s'.named r = some g) :
    ∃ o, HashedFrom h S s₀ (past ++ [n]) o g (l'.path h r) := by
  by_cases hrq : r = q
  · subst hrq
    rw [happears.named_self] at hnamed
    obtain rfl := Option.some.inj hnamed
    rw [happears.path]
    exact ⟨o, hfrom⟩
  · exact htracks.origin_elsewhere happears.elsewhere hq hrq hr hnamed

theorem Appears.distinct {r r' : π} {g : φ} (hr : Touched (past ++ [n]) r) (hr' : Touched (past ++ [n]) r')
    (hnamed : s'.named r = some g) (hnamed' : s'.named r' = some g) (hpath : l'.path h r = l'.path h r') :
    r = r' := by
  by_cases hrq : r = q <;> by_cases hrq' : r' = q
  · rw [hrq, hrq']
  · subst hrq
    obtain rfl := Option.some.inj (happears.named_self.symm.trans hnamed)
    exact absurd hpath.symm (happears.path_ne hq hrq' hr' hnamed')
  · subst hrq'
    obtain rfl := Option.some.inj (happears.named_self.symm.trans hnamed')
    exact absurd hpath (happears.path_ne hq hrq hr hnamed)
  · exact htracks.distinct_elsewhere happears.elsewhere hq hrq hrq' hr hr' hnamed hnamed' hpath

theorem Appears.apart {r : π} {g : φ} (hr : Touched (past ++ [n]) r) (hnamed : s'.named r = some g)
    (hg : s'.moving g) : l'.pending g ≠ some (l'.path h r) := by
  have helsewhere := happears.elsewhere
  obtain ⟨hgf, hmoving, hpending⟩ := happears.moving g hg
  have hrq : r ≠ q := by
    rintro rfl
    exact hgf (Option.some.inj (hnamed.symm.trans happears.named_self))
  rw [helsewhere.named r hrq] at hnamed
  rw [hpending, helsewhere.path hrq]
  exact htracks.apart r g ((touched_of_ne hq hrq).mp hr) hnamed hmoving

theorem Appears.settled {r : π} {g : φ} (hmissed : told = false → Missed (past ++ [n]) q f)
    (hr : Touched (past ++ [n]) r) (hnamed : s'.named r = some g) :
    l'.held (l'.path h r) = some (r, g) ∨ Missed (past ++ [n]) r g := by
  have helsewhere := happears.elsewhere
  by_cases hrq : r = q
  · subst hrq
    obtain rfl := Option.some.inj (happears.named_self.symm.trans hnamed)
    cases htold : told with
    | false => exact .inr (hmissed htold)
    | true =>
      rw [happears.path]
      exact .inl (happears.holds.held_self htold)
  · rw [helsewhere.named r hrq] at hnamed
    rw [helsewhere.path hrq]
    have hr := (touched_of_ne hq hrq).mp hr
    refine (htracks.settled r g hr hnamed).imp (fun hheld => ?_) Missed.later
    refine happears.holds.held_other hheld ?_
    rintro rfl
    exact happears.unused r hr hnamed

theorem Tracks.appear (hinj : Set.InjOn h S) {o : π} (hfrom : HashedFrom h S s₀ (past ++ [n]) o f x)
    (hcreated : ∀ p g, n.1 = .create p g → x = h p ∧ g = f)
    (hmissed : told = false → Missed (past ++ [n]) q f) : Tracks h S s₀ l₀ (past ++ [n]) s' l' where
  named _ hr := htracks.named_elsewhere happears.elsewhere hq hr
  own _ hr := happears.own htracks hq hr
  listed _ hr htouched := happears.holds.listed htracks hinj hq hfrom hr htouched
  origin _ _ hr hnamed := happears.origin htracks hq hfrom hr hnamed
  transit g hg := by
    obtain ⟨-, hmoving, hpending⟩ := happears.moving g hg
    obtain ⟨o', id, hid, hfrom'⟩ := htracks.transit g hmoving
    exact ⟨o', id, hpending.trans hid, hfrom'.later⟩
  distinct _ _ _ hr hr' hnamed hnamed' hpath := happears.distinct htracks hq hr hr' hnamed hnamed' hpath
  apart _ _ hr hnamed hg := happears.apart htracks hq hr hnamed hg
  settled _ _ hr hnamed := happears.settled htracks hq hmissed hr hnamed
  unique _ _ _ _ _ hid hid' := happears.holds.unique htracks hid hid'
  first _ _ _ hid hp := happears.holds.first htracks hq hid hp
  standing _ _ _ hid := by
    have hnew : InUse h (past ++ [n]) s' l' x f :=
      .inl ⟨q, touched_self hq, happears.named_self, happears.path⟩
    refine happears.holds.standing htracks hq hnew (fun _ _ => happears.inUse hq) hcreated ?_ hid
    -- an original entry at the place would be in the way
    intro g _ hthere
    rw [happears.free] at hthere
    cases hthere

end Appears

/-- An entry goes from its place: the file takes the identity along, or it is
held no more. -/
structure Departs (h : π → ι) (s s' : NameSpace π φ) (l l' : Listing π φ ι) (q : π) (f : φ) : Prop where
  entry : s.named q = some f
  named : s'.named = Function.update s.named q none
  carried : l'.carried = Function.update l.carried q none
  moving : ∀ g, s'.moving g → g = f ∧ l'.pending g = some (l.path h q) ∨
    s.moving g ∧ l'.pending g = l.pending g
  kept : ∀ g, s.moving g → s'.moving g ∧ l'.pending g = l.pending g
  held : ∀ id, l'.held id = l.held id ∨ id = l.path h q ∧ l'.held id = none
  away : s'.moving f ∧ l'.pending f = some (l.path h q) ∨ l'.held (l.path h q) = none
  others : ∀ r g, r ≠ q → s.named r = some g → l.held (l.path h q) = some (r, g) →
    l'.held (l.path h q) = some (r, g)

section Departs

omit [DecidableEq ι]

variable (hdeparts : Departs h s s' l l' q f)

include hdeparts

theorem Departs.ne_of_named {r : π} {g : φ} (hnamed : s'.named r = some g) : r ≠ q := by
  rintro rfl
  rw [hdeparts.named, Function.update_self] at hnamed
  cases hnamed

theorem Departs.elsewhere : Elsewhere s s' l l' q :=
  ⟨fun r hr => by rw [hdeparts.named, Function.update_of_ne hr],
    fun r hr => by rw [hdeparts.carried, Function.update_of_ne hr]⟩

theorem Departs.held_of_some {id : ι} {p : π} {g : φ} (hid : l'.held id = some (p, g)) :
    l.held id = some (p, g) := by
  rcases hdeparts.held id with hsame | ⟨-, hnone⟩
  · exact hsame ▸ hid
  · rw [hnone] at hid
    cases hid

/-- What is still held of the file under the identity is held of a file between
two places. -/
theorem Departs.inUse {id : ι} {p : π} {g : φ} (hheld : l'.held id = some (p, g))
    (hid : InUse h past s l id g) : InUse h (past ++ [n]) s' l' id g := by
  rcases hid with ⟨r, hr, hnamed, rfl⟩ | ⟨hmoving, hpending⟩
  · by_cases hrq : r = q
    · subst hrq
      obtain rfl := Option.some.inj (hdeparts.entry.symm.trans hnamed)
      rcases hdeparts.away with haway | hnone
      · exact .inr haway
      · rw [hnone] at hheld
        cases hheld
    · exact .inl ⟨r, hr.later, (hdeparts.elsewhere.named r hrq).trans hnamed,
        hdeparts.elsewhere.path hrq⟩
  · obtain ⟨hmoving', hsame⟩ := hdeparts.kept g hmoving
    exact .inr ⟨hmoving', hsame.trans hpending⟩

theorem Tracks.depart (hinj : Set.InjOn h S) (htracks : Tracks h S s₀ l₀ past s l)
    (hq : n.1.place = q) (hS : q ∈ S) (hcreated : ∀ p g, n.1 ≠ .create p g) :
    Tracks h S s₀ l₀ (past ++ [n]) s' l' := by
  obtain ⟨o, hfrom⟩ := htracks.hashedFrom hq hS hdeparts.entry
  have helsewhere := hdeparts.elsewhere
  refine ⟨fun r hr => htracks.named_elsewhere helsewhere hq hr, fun r hr => ?_, fun r hr htouched => ?_,
    fun r g hr hnamed => ?_, fun g hg => ?_, fun r r' g hr hr' hnamed hnamed' hpath => ?_,
    fun r g hr hnamed hg => ?_, fun r g hr hnamed => ?_, fun id id' p g g' hid hid' => ?_,
    fun id p g hid hp => ?_, fun id p g hid => ?_⟩
  · by_cases hrq : r = q
    · rw [Listing.path, hdeparts.carried, hrq, Function.update_self]
      rfl
    · exact htracks.own_elsewhere helsewhere hq hrq hr
  · rw [← htracks.listed r hr ((touched_of_ne hq (ne_of_untouched hq htouched)).not.mp htouched)]
    refine (hdeparts.held (h r)).resolve_right ?_
    rintro ⟨hpath, -⟩
    exact hfrom.ne_untouched hinj hr htouched hpath
  · exact htracks.origin_elsewhere helsewhere hq (hdeparts.ne_of_named hnamed) hr hnamed
  · rcases hdeparts.moving g hg with ⟨rfl, hpending⟩ | ⟨hmoving, hpending⟩
    · exact ⟨o, _, hpending, hfrom⟩
    · obtain ⟨o', id, hid, hfrom'⟩ := htracks.transit g hmoving
      exact ⟨o', id, hpending.trans hid, hfrom'.later⟩
  · exact htracks.distinct_elsewhere helsewhere hq (hdeparts.ne_of_named hnamed)
      (hdeparts.ne_of_named hnamed') hr hr' hnamed hnamed' hpath
  · have hrq := hdeparts.ne_of_named hnamed
    rw [helsewhere.named r hrq] at hnamed
    rw [helsewhere.path hrq]
    have hr := (touched_of_ne hq hrq).mp hr
    rcases hdeparts.moving g hg with ⟨rfl, hpending⟩ | ⟨hmoving, hpending⟩
    · rw [hpending]
      exact fun heq => htracks.path_ne hinj hS hrq hr hnamed hdeparts.entry (Option.some.inj heq).symm
    · rw [hpending]
      exact htracks.apart r g hr hnamed hmoving
  · have hrq := hdeparts.ne_of_named hnamed
    rw [helsewhere.named r hrq] at hnamed
    rw [helsewhere.path hrq]
    refine (htracks.settled r g ((touched_of_ne hq hrq).mp hr) hnamed).imp (fun hheld => ?_) Missed.later
    rcases hdeparts.held (l.path h r) with hsame | ⟨hpath, -⟩
    · exact hsame.trans hheld
    · rw [hpath] at hheld ⊢
      exact hdeparts.others r g hrq hnamed hheld
  · exact htracks.unique id id' p g g' (hdeparts.held_of_some hid) (hdeparts.held_of_some hid')
  · exact htracks.first id p g (hdeparts.held_of_some hid)
      ((touched_of_ne hq (ne_of_untouched hq hp)).not.mp hp)
  · rcases htracks.standing id p g (hdeparts.held_of_some hid) with huse | ⟨rfl, hlisted, hclaim⟩
    · exact .inl (hdeparts.inUse hid huse)
    · by_cases hclaim' : Touched (past ++ [n]) p ∧ Original s₀ (past ++ [n]) p g
      · have horiginal : Original s₀ past p g :=
          (original_concat.mp hclaim'.2).resolve_right (hcreated p g)
        -- the entry that goes is the one that was listed
        obtain ⟨rfl, hp, hthere⟩ := htracks.named_of_original hq hclaim hclaim'.1 horiginal
        rw [hdeparts.entry] at hthere
        obtain rfl := Option.some.inj hthere
        rw [← htracks.own p (.inl hp)] at hid ⊢
        rcases hdeparts.away with haway | hnone
        · exact .inl (.inr haway)
        · rw [hnone] at hid
          cases hid
      · exact .inr ⟨rfl, hlisted, hclaim'⟩

end Departs

variable [DecidableEq φ]

/-- A change that fits keeps what is tracked. -/
theorem Tracks.note {c : NameChange π φ} (hinj : Set.InjOn h S)
    (htracks : Tracks h S s₀ l₀ past s l) (hlegal : s.Legal c) (hS : c.place ∈ S)
    (hfits : l.Fits h (c, told)) :
    Tracks h S s₀ l₀ (past ++ [(c, told)]) (s.change c) (l.note h (c, told)) := by
  cases c with
  | create q f =>
    obtain ⟨hfree, hidle, hnew⟩ := hlegal
    have hpath : l.path h q = h q := htracks.own q (.inr hfree)
    have happears : Appears h past s (s.change (.create q f)) l (l.note h (.create q f, told)) q f
        (l.path h q) told := {
      free := hfree
      named := rfl
      holds := ⟨rfl, hfits⟩
      path := rfl
      carried := fun _ _ => rfl
      moving := fun g hg => ⟨(fun heq => hidle (heq ▸ hg)), hg, rfl⟩
      landed := fun g hg => .inl hg
      unused := fun r _ hnamed => absurd hnamed (hnew r) }
    refine Tracks.appear happears htracks rfl hinj
      ⟨touched_concat.mpr (.inr rfl), hS, hpath, original_concat.mpr (.inr rfl)⟩ ?_ ?_
    · rintro p g heq
      obtain ⟨rfl, rfl⟩ := NameChange.create.inj heq
      exact ⟨hpath, rfl⟩
    · rintro rfl
      exact .inl (List.mem_append_right _ List.mem_cons_self)
  | arrive q f =>
    obtain ⟨hfree, hmoving⟩ := hlegal
    obtain ⟨o, id, hpending, hfrom⟩ := htracks.transit f hmoving
    have hid : (l.pending f).getD (l.path h q) = id := by
      rw [hpending]
      rfl
    have happears : Appears h past s (s.change (.arrive q f)) l (l.note h (.arrive q f, told)) q f
        id told := {
      free := hfree
      named := rfl
      holds := by
        rw [← hid]
        exact ⟨rfl, hfits⟩
      path := by
        rw [← hid]
        show (Function.update l.carried q _ q).getD _ = _
        rw [Function.update_self]
        rfl
      carried := fun r hr => Function.update_of_ne hr _ _
      moving := fun g hg => ⟨hg.1, hg.2, Function.update_of_ne hg.1 _ _⟩
      landed := fun g hg => by
        by_cases hgf : g = f
        · exact .inr ⟨hgf, hpending⟩
        · exact .inl ⟨hgf, hg⟩
      unused := fun r hr hnamed hpath => by
        refine htracks.apart r f hr hnamed hmoving ?_
        rw [hpending, hpath] }
    refine Tracks.appear happears htracks rfl hinj hfrom.later ?_ ?_
    · rintro p g heq
      cases heq
    · rintro rfl
      exact .inr (List.mem_append_right _ List.mem_cons_self)
  | leave q f =>
    obtain ⟨hentry, hidle⟩ := hlegal
    have hdeparts : Departs h s (s.change (.leave q f)) l (l.note h (.leave q f, told)) q f := {
      entry := hentry
      named := rfl
      carried := rfl
      moving := fun g hg => by
        by_cases hgf : g = f
        · subst hgf
          exact .inl ⟨rfl, Function.update_self _ _ _⟩
        · exact .inr ⟨hg.resolve_left hgf, Function.update_of_ne hgf _ _⟩
      kept := fun g hg => ⟨.inr hg, Function.update_of_ne (fun heq : g = f => hidle (heq ▸ hg)) _ _⟩
      held := fun _ => .inl rfl
      away := .inl ⟨.inl rfl, Function.update_self _ _ _⟩
      others := fun _ _ _ _ hheld => hheld }
    exact htracks.depart hdeparts hinj rfl hS (by simp)
  | delete q f =>
    obtain ⟨hentry, honly⟩ := hlegal
    have hdeparts : Departs h s (s.change (.delete q f)) l (l.note h (.delete q f, told)) q f := {
      entry := hentry
      named := rfl
      carried := rfl
      moving := fun g hg => .inr ⟨hg, rfl⟩
      kept := fun g hg => ⟨hg, rfl⟩
      held := fun id => by
        by_cases hid : id = l.path h q
        · exact .inr ⟨hid, hid ▸ Function.update_self _ _ _⟩
        · exact .inl (Function.update_of_ne hid _ _)
      away := .inr (Function.update_self _ _ _)
      others := fun r g hr hnamed hheld => by
        obtain rfl : g = f := hfits r g hheld
        exact absurd (honly r hnamed) hr }
    exact htracks.depart hdeparts hinj rfl hS (by simp)
  | report q f =>
    obtain ⟨rfl, hadmits⟩ := hfits
    exact htracks.report hinj rfl hS hlegal ⟨rfl, fun _ => hadmits⟩ rfl rfl

omit [DecidableEq ι] [DecidableEq φ] in
theorem Listing.path_remember (l : Listing π φ ι) (h : π → ι) (p q : π) :
    (l.remember h p).path h q = l.path h q := by
  show (Function.update l.carried p (some (l.path h p)) q).getD (h q) = _
  rw [Function.update_apply]
  split_ifs with hqp
  · rw [hqp]
    rfl
  · rfl

omit [DecidableEq ι] [DecidableEq φ] in
/-- What is tracked are the identities of places, not how they are remembered. -/
theorem Tracks.remember (htracks : Tracks h S s₀ l₀ past s l) (p : π) :
    Tracks h S s₀ l₀ past s (l.remember h p) := by
  have hpath := l.path_remember h p
  have huse : ∀ {id g}, InUse h past s l id g → InUse h past s (l.remember h p) id g :=
    fun huse => huse.imp_left fun ⟨q, hq, hnamed, hid⟩ => ⟨q, hq, hnamed, (hpath q).trans hid⟩
  refine ⟨htracks.named, fun q hq => (hpath q).trans (htracks.own q hq), htracks.listed, ?_,
    htracks.transit, ?_, ?_, ?_, htracks.unique, htracks.first,
    fun id q f hid => (htracks.standing id q f hid).imp_left huse⟩
  · simp only [hpath]
    exact htracks.origin
  · simp only [hpath]
    exact htracks.distinct
  · simp only [hpath]
    exact htracks.apart
  · simp only [hpath]
    exact htracks.settled

theorem Replayed.tracks (hinj : Set.InjOn h S) (hfresh : Listing.Fresh h s₀ l₀)
    (hS : ∀ n ∈ past, n.1.place ∈ S) (hrun : Replayed h s₀ l₀ past s l) :
    Tracks h S s₀ l₀ past s l := by
  induction hrun with
  | start => exact hfresh.tracks
  | notice _ hlegal hfits ih =>
    exact (ih fun n hn => hS n (List.mem_append_left _ hn)).note hinj hlegal
      (hS _ (List.mem_append_right _ List.mem_cons_self)) hfits
  | remember _ p ih => exact (ih hS).remember p

/-- Only a file between two places takes an identity along. -/
theorem Replayed.idle (hfresh : Listing.Fresh h s₀ l₀) (hrun : Replayed h s₀ l₀ past s l)
    (hidle : ¬ s.moving f) : l.pending f = none := by
  induction hrun with
  | start => exact hfresh.pending f
  | @notice past s l c told _ hlegal hfits ih =>
    cases c with
    | create | delete | report => exact ih hidle
    | leave q g =>
      obtain ⟨hne, hbefore⟩ := not_or.mp hidle
      exact (Function.update_of_ne hne _ _).trans (ih hbefore)
    | arrive q g =>
      by_cases hgf : f = g
      · exact hgf ▸ Function.update_self _ _ _
      · exact (Function.update_of_ne hgf _ _).trans (ih fun hmoving => hidle ⟨hgf, hmoving⟩)
  | remember _ _ ih => exact ih hidle

/-- What is listed and neither was there nor is created is held for ever. -/
theorem Replayed.stays {p : π} {g : φ} (hinj : Set.InjOn h S) (hfresh : Listing.Fresh h s₀ l₀)
    (hS : ∀ n ∈ past, n.1.place ∈ S) (hp : p ∈ S) (hlisted : l₀.held (h p) = some (p, g))
    (hrun : Replayed h s₀ l₀ past s l) (hfalse : ¬ Original s₀ past p g) :
    l.held (h p) = some (p, g) := by
  induction hrun with
  | start => exact hlisted
  | remember _ _ ih => exact ih hS hfalse
  | @notice past s l c told hrun hlegal hfits ih =>
    have hSpast : ∀ n ∈ past, n.1.place ∈ S := fun n hn => hS n (List.mem_append_left _ hn)
    have hplace : c.place ∈ S := hS _ (List.mem_append_right _ List.mem_cons_self)
    have htracks := hrun.tracks hinj hfresh hSpast
    have hheld := ih hSpast fun horiginal => hfalse horiginal.later
    -- the identity is never one of the file it is held for
    have hforeign : ∀ o id, HashedFrom h S s₀ (past ++ [(c, told)]) o g id → id ≠ h p := by
      rintro o id hfrom heq
      obtain rfl : o = p := hinj hfrom.mem hp (hfrom.hash.symm.trans heq)
      exact hfalse hfrom.original
    have hentry : s.named c.place = some g →
        ∃ o, HashedFrom h S s₀ (past ++ [(c, told)]) o g (l.path h c.place) := fun hnamed =>
      htracks.hashedFrom rfl hplace hnamed
    cases c with
    | create q f =>
      show l.hold (l.path h q) q f told (h p) = _
      rw [Listing.hold]
      split_ifs with htold
      · rw [Function.update_of_ne]
        · exact hheld
        · intro heq
          obtain rfl : g = f := (hfits htold).own p g (heq ▸ hheld)
          exact hforeign q _ ⟨touched_concat.mpr (.inr rfl), hplace, htracks.own q (.inr hlegal.1),
            original_concat.mpr (.inr rfl)⟩ heq.symm
      · exact hheld
    | leave q f => exact hheld
    | arrive q f =>
      show l.hold ((l.pending f).getD (l.path h q)) q f told (h p) = _
      rw [Listing.hold]
      split_ifs with htold
      · rw [Function.update_of_ne]
        · exact hheld
        · intro heq
          obtain rfl : g = f := (hfits htold).own p g (heq ▸ hheld)
          obtain ⟨o, id, hpending, hfrom⟩ := htracks.transit g hlegal.2
          rw [hpending] at heq
          exact hforeign o id hfrom.later heq.symm
      · exact hheld
    | delete q f =>
      show Function.update l.held (l.path h q) none (h p) = _
      rw [Function.update_of_ne]
      · exact hheld
      · intro heq
        obtain rfl : g = f := hfits p g (heq ▸ hheld)
        obtain ⟨o, hfrom⟩ := hentry hlegal.1
        exact hforeign o _ hfrom heq.symm
    | report q f =>
      obtain ⟨rfl, hadmits⟩ := hfits
      show l.hold (l.path h q) q f true (h p) = _
      rw [Listing.hold, if_pos rfl, Function.update_of_ne]
      · exact hheld
      · intro heq
        obtain rfl : g = f := hadmits.own p g (heq ▸ hheld)
        obtain ⟨o, hfrom⟩ := hentry hlegal
        exact hforeign o _ hfrom heq.symm

/-- Everything listed was there or is created. -/
def Listing.Honest (h : π → ι) (s₀ : NameSpace π φ) (l₀ : Listing π φ ι) (changes : List (Notice π φ)) :
    Prop :=
  ∀ q f, l₀.held (h q) = some (q, f) → Original s₀ changes q f

/-- Every entry that nothing changes is listed. -/
def Listing.Covers (h : π → ι) (s₀ : NameSpace π φ) (l₀ : Listing π φ ι) (changes : List (Notice π φ)) :
    Prop :=
  ∀ q f, s₀.named q = some f → ¬ Touched changes q → l₀.held (h q) = some (q, f)

/-- The changes turn the listing into the names at their end exactly if it listed
nothing that a rename put in place, and missed nothing that stayed. -/
theorem Replayed.exact_iff (hinj : Set.InjOn h S) (hfresh : Listing.Fresh h s₀ l₀)
    (hS : ∀ n ∈ past, n.1.place ∈ S) (hlisted : ∀ id q f, l₀.held id = some (q, f) → q ∈ S)
    (hrun : Replayed h s₀ l₀ past s l) (hstill : ∀ f, ¬ s.moving f)
    (htold : ∀ q f, Missed past q f → s.named q ≠ some f) :
    (∀ q f, (∃ id, l.held id = some (q, f)) ↔ s.named q = some f) ↔
      Listing.Honest h s₀ l₀ past ∧ Listing.Covers h s₀ l₀ past := by
  have htracks := hrun.tracks hinj hfresh hS
  have hsettled : ∀ q f, Touched past q → s.named q = some f →
      l.held (l.path h q) = some (q, f) := fun q f htouched hnamed =>
    (htracks.settled q f htouched hnamed).resolve_right fun hmissed => htold q f hmissed hnamed
  constructor
  · intro hsame
    refine ⟨fun q f hheld => ?_, fun q f hnamed htouched => ?_⟩
    · by_contra hfalse
      have hstays := hrun.stays hinj hfresh hS (hlisted _ _ _ hheld) hheld hfalse
      have hnamed := (hsame q f).mp ⟨_, hstays⟩
      by_cases htouched : Touched past q
      · -- the entry is held once, so its identity is the hash of its place
        have hpath := htracks.unique _ _ q f f (hsettled q f htouched hnamed) hstays
        obtain ⟨o, hfrom⟩ := htracks.origin q f htouched hnamed
        obtain rfl : o = q := hinj hfrom.mem (hlisted _ _ _ hheld) (hfrom.hash.symm.trans hpath)
        exact hfalse hfrom.original
      · exact hfalse (.inl ((htracks.named q htouched).symm.trans hnamed))
    · obtain ⟨id, hid⟩ := (hsame q f).mpr ((htracks.named q htouched).trans hnamed)
      obtain ⟨rfl, hheld⟩ := htracks.first id q f hid htouched
      exact hheld
  · rintro ⟨hhonest, hcovers⟩ q f
    constructor
    · rintro ⟨id, hid⟩
      rcases htracks.standing id q f hid with (⟨r, hr, hnamed, hpath⟩ | ⟨hmoving, -⟩) |
        ⟨rfl, hheld, hclaim⟩
      · have hown := hsettled r f hr hnamed
        rw [hpath, hid] at hown
        obtain ⟨rfl, -⟩ := Prod.mk.inj (Option.some.inj hown)
        exact hnamed
      · exact absurd hmoving (hstill f)
      · have horiginal := hhonest q f hheld
        have htouched : ¬ Touched past q := fun htouched => hclaim ⟨htouched, horiginal⟩
        rw [htracks.named q htouched]
        refine horiginal.resolve_right ?_
        rintro ⟨told, hmem⟩
        exact htouched ⟨_, hmem, rfl⟩
    · intro hnamed
      by_cases htouched : Touched past q
      · exact ⟨_, hsettled q f htouched hnamed⟩
      · have hthere := (htracks.named q htouched).symm.trans hnamed
        have hheld := hcovers q f hthere htouched
        rw [← htracks.listed q (hlisted _ _ _ hheld) htouched] at hheld
        exact ⟨_, hheld⟩

end Tracks

end LocalSearch.Lib
