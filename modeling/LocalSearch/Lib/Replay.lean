import LocalSearch.Lib.Table
import Mathlib.Logic.Function.Basic
import Mathlib.Data.List.Induction

/-!
# Logs of keyed writes

A log is a list of writes, each to one key, where writing `none` removes the
key. Replaying a log over a map keeps the last write to every key, so a part of
the log that was applied before is absorbed when the log is replayed.
-/
namespace LocalSearch.Lib

set_option autoImplicit false

variable {κ β : Type} [DecidableEq κ]

/-- Apply the writes of a log in order. -/
def replay (m : κ → Option β) (log : List (κ × Option β)) : κ → Option β :=
  log.foldl (fun m w => Function.update m w.1 w.2) m

/-- The value of the last write to a key, if the log writes it at all. -/
def lastWrite (log : List (κ × Option β)) (k : κ) : Option (Option β) :=
  ((log.filter fun w => w.1 = k).getLast?).map (·.2)

theorem replay_append (m : κ → Option β) (a b : List (κ × Option β)) :
    replay m (a ++ b) = replay (replay m a) b :=
  List.foldl_append

theorem replay_concat (m : κ → Option β) (log : List (κ × Option β)) (w : κ × Option β) :
    replay m (log ++ [w]) = Function.update (replay m log) w.1 w.2 :=
  replay_append m log [w]

theorem lastWrite_concat (log : List (κ × Option β)) (w : κ × Option β) (k : κ) :
    lastWrite (log ++ [w]) k = if w.1 = k then some w.2 else lastWrite log k := by
  by_cases h : w.1 = k <;> simp [lastWrite, h]

theorem lastWrite_eq_none {log : List (κ × Option β)} {k : κ} :
    lastWrite log k = none ↔ ∀ w ∈ log, w.1 ≠ k := by
  simp [lastWrite]

/-- The last write to a key decides its value. -/
theorem replay_apply (m : κ → Option β) (log : List (κ × Option β)) (k : κ) :
    replay m log k = (lastWrite log k).getD (m k) := by
  induction log using List.reverseRecOn with
  | nil => rfl
  | append_singleton log w ih =>
    rw [replay_concat, lastWrite_concat]
    by_cases h : w.1 = k
    · rw [if_pos h, ← h, Function.update_self]
      rfl
    · rw [if_neg h, Function.update_of_ne (Ne.symm h), ih]

/-- Replaying a log absorbs any writes to the keys it writes itself. -/
theorem replay_absorb (m : κ → Option β) {early log : List (κ × Option β)}
    (h : ∀ w ∈ early, ∃ w' ∈ log, w'.1 = w.1) : replay (replay m early) log = replay m log := by
  funext k
  rw [replay_apply _ log, replay_apply _ log]
  cases hlast : lastWrite log k with
  | some value => rfl
  | none =>
    have hlog := lastWrite_eq_none.mp hlast
    have hearly : lastWrite early k = none := by
      refine lastWrite_eq_none.mpr fun w hw hk => ?_
      obtain ⟨w', hw', hkey⟩ := h w hw
      exact hlog w' hw' (hkey.trans hk)
    rw [replay_apply, hearly]
    rfl

/-- A log that was begun before is replayed whole. -/
theorem replay_again (m : κ → Option β) (early rest : List (κ × Option β)) :
    replay (replay m early) (early ++ rest) = replay m (early ++ rest) :=
  replay_absorb m fun w hw => ⟨w, List.mem_append_left rest hw, rfl⟩

/-- A write to a key that is written once is the last one. -/
theorem lastWrite_of_nodup {log : List (κ × Option β)} (h : (log.map (·.1)).Nodup)
    {w : κ × Option β} (hw : w ∈ log) : lastWrite log w.1 = some w.2 := by
  induction log using List.reverseRecOn with
  | nil => cases hw
  | append_singleton log last ih =>
    rw [List.map_append, List.nodup_append] at h
    rw [lastWrite_concat]
    rcases List.mem_append.mp hw with hw | hw
    · have hne : last.1 ≠ w.1 := fun he =>
        h.2.2 w.1 (List.mem_map_of_mem hw) last.1 (by simp) he.symm
      rw [if_neg hne, ih h.1 hw]
    · rw [List.mem_singleton.mp hw, if_pos rfl]

theorem lastWrite_map {γ : Type} (f : Option β → Option γ) (log : List (κ × Option β)) (k : κ) :
    lastWrite (log.map fun w => (w.1, f w.2)) k = (lastWrite log k).map f := by
  induction log using List.reverseRecOn with
  | nil => rfl
  | append_singleton log w ih =>
    rw [List.map_append, List.map_singleton, lastWrite_concat, lastWrite_concat, ih]
    by_cases h : w.1 = k
    · rw [if_pos h, if_pos h]
      rfl
    · rw [if_neg h, if_neg h]

/-- What is derived from each value can be derived after the replay. -/
theorem replay_bind {γ : Type} (f : β → Option γ) (m : κ → Option β) (log : List (κ × Option β)) :
    replay (fun k => (m k).bind f) (log.map fun w => (w.1, w.2.bind f)) =
      fun k => (replay m log k).bind f := by
  induction log using List.reverseRecOn with
  | nil => rfl
  | append_singleton log w ih =>
    rw [List.map_append, List.map_singleton, replay_concat, replay_concat, ih]
    funext k
    by_cases hk : k = w.1
    · rw [hk, Function.update_self, Function.update_self]
    · rw [Function.update_of_ne hk, Function.update_of_ne hk]

theorem lastWrite_append (a b : List (κ × Option β)) (k : κ) :
    lastWrite (a ++ b) k = (lastWrite b k).or (lastWrite a k) := by
  induction b using List.reverseRecOn with
  | nil => simp [lastWrite]
  | append_singleton b w ih =>
    rw [← List.append_assoc, lastWrite_concat, lastWrite_concat, ih]
    by_cases h : w.1 = k
    · rw [if_pos h, if_pos h]
      rfl
    · rw [if_neg h, if_neg h]

/-- The front of a log over what the whole log left: a key it does not write
still holds what a later write made of it. -/
theorem replay_restart (m : κ → Option β) (early rest : List (κ × Option β)) (k : κ) :
    replay (replay m (early ++ rest)) early k =
      ((lastWrite early k).or (lastWrite rest k)).getD (m k) := by
  rw [replay_apply, replay_apply, lastWrite_append]
  cases lastWrite early k with
  | some value => rfl
  | none => rw [Option.none_or, Option.or_none]; rfl

theorem lastWrite_mem {log : List (κ × Option β)} {k : κ} {value : Option β}
    (h : lastWrite log k = some value) : (k, value) ∈ log := by
  obtain ⟨w, hw, rfl⟩ := Option.map_eq_some_iff.mp h
  obtain ⟨hmem, hkey⟩ := List.mem_filter.mp (List.mem_of_getLast? hw)
  rw [← of_decide_eq_true hkey]
  exact hmem

section Settles

variable {γ : Type} {f : β → Option γ} {m : κ → Option γ} {unread recent : List (κ × Option β)}

/-- The log with what is derived from each value. -/
def derived (f : β → Option γ) (log : List (κ × Option β)) : List (κ × Option γ) :=
  log.map fun w => (w.1, w.2.bind f)

omit [DecidableEq κ] in
theorem derived_append (f : β → Option γ) (a b : List (κ × Option β)) :
    derived f (a ++ b) = derived f a ++ derived f b :=
  List.map_append

theorem replay_derived (f : β → Option γ) (m : κ → Option γ) (log : List (κ × Option β)) (k : κ) :
    replay m (derived f log) k = ((lastWrite log k).map (·.bind f)).getD (m k) := by
  rw [replay_apply, derived, lastWrite_map fun v => v.bind f]

/-- A map that reads the log on will hold the last write of `recent` to every key. -/
def Settles (f : β → Option γ) (m : κ → Option γ) (unread recent : List (κ × Option β)) : Prop :=
  ∀ k w, lastWrite recent k = some w → replay m (derived f unread) k = w.bind f

/-- What is still to be read whole settles any map. -/
theorem settles_of_unread (early recent : List (κ × Option β)) :
    Settles f m (early ++ recent) recent := by
  intro k w hw
  rw [replay_derived, lastWrite_append, hw]
  rfl

theorem Settles.append (h : Settles f m unread recent) (added : List (κ × Option β)) :
    Settles f m (unread ++ added) (recent ++ added) := by
  intro k w hw
  rw [lastWrite_append] at hw
  rw [derived_append, replay_append, replay_derived]
  cases hadded : lastWrite added k with
  | some w' =>
    rw [hadded, Option.some_or] at hw
    rw [← Option.some.inj hw]
    rfl
  | none =>
    rw [hadded, Option.none_or] at hw
    exact h k w hw

/-- Applying the front of the unread log, without marking it read. -/
theorem Settles.apply {taken rest : List (κ × Option β)} (h : Settles f m (taken ++ rest) recent) :
    Settles f (replay m (derived f taken)) (taken ++ rest) recent := by
  intro k w hw
  rw [derived_append, replay_again, ← derived_append]
  exact h k w hw

/-- Marking the front read once the map contains it. -/
theorem Settles.drop {taken rest : List (κ × Option β)} (h : Settles f m (taken ++ rest) recent)
    (hcontained : replay m (derived f taken) = m) : Settles f m rest recent := by
  intro k w hw
  have hk := h k w hw
  rw [derived_append, replay_append, hcontained] at hk
  exact hk

end Settles

section Rows

variable {κ ρ : Type} [LinearOrder κ]

/-- One write to a table. -/
def Table.write (t : Table κ ρ) (w : κ × Option ρ) : Table κ ρ :=
  match w.2 with
  | some row => t.insert w.1 row
  | none => t.erase w.1

def Table.replay (t : Table κ ρ) (log : List (κ × Option ρ)) : Table κ ρ := log.foldl Table.write t

theorem Table.get_write (t : Table κ ρ) (w : κ × Option ρ) :
    (t.write w).get = Function.update t.get w.1 w.2 := by
  obtain ⟨k, value⟩ := w
  funext k'
  cases value with
  | none => simp [Table.write, Function.update_apply]
  | some row => simp [Table.write, Function.update_apply]

theorem Table.get_replay (t : Table κ ρ) (log : List (κ × Option ρ)) :
    (t.replay log).get = Lib.replay t.get log := by
  induction log generalizing t with
  | nil => rfl
  | cons w rest ih =>
    rw [Table.replay, List.foldl_cons]
    exact (ih (t.write w)).trans (by rw [Table.get_write]; rfl)

theorem Table.replay_append (t : Table κ ρ) (a b : List (κ × Option ρ)) :
    t.replay (a ++ b) = (t.replay a).replay b :=
  List.foldl_append

/-- Rewriting the rows in place rewrites what the log writes. -/
theorem Table.mapRows_replay (t : Table κ ρ) (f : κ → ρ → ρ) (log : List (κ × Option ρ)) :
    (t.replay log).mapRows f = (t.mapRows f).replay (log.map fun w => (w.1, w.2.map (f w.1))) := by
  refine Table.ext_get fun k => ?_
  rw [Table.get_mapRows, Table.get_replay, Table.get_replay]
  induction log using List.reverseRecOn with
  | nil => exact (Table.get_mapRows t f k).symm
  | append_singleton log w ih =>
    rw [List.map_append, List.map_singleton, replay_concat, replay_concat]
    by_cases hk : k = w.1
    · subst hk
      rw [Function.update_self, Function.update_self]
    · rw [Function.update_of_ne hk, Function.update_of_ne hk, ih]

end Rows

end LocalSearch.Lib
