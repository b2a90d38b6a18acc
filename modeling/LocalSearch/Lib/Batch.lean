import Mathlib.Data.List.Basic

/-!
# Batches of statements

Statements that commit on their own, one after another until one fails: what was
done before a failure, or before a cut, stays done.
-/
namespace LocalSearch.Lib

set_option autoImplicit false

variable {α σ ε : Type} {f : α → σ → Except ε σ}

/-- The state a batch leaves, and the error that ended it. -/
def runBatch (f : α → σ → Except ε σ) : List α → σ → σ × Option ε
  | [], s => (s, none)
  | a :: rest, s =>
      match f a s with
      | .error e => (s, some e)
      | .ok s' => runBatch f rest s'

theorem runBatch_append {a b : List α} {s s' : σ} (h : runBatch f a s = (s', none)) :
    runBatch f (a ++ b) s = runBatch f b s' := by
  induction a generalizing s with
  | nil =>
    obtain rfl := (Prod.mk.inj h).1
    rfl
  | cons x rest ih =>
    rw [List.cons_append, runBatch]
    rw [runBatch] at h
    cases hx : f x s with
    | error e =>
      rw [hx] at h
      cases h
    | ok s₁ =>
      rw [hx] at h
      exact ih h

/-- A batch whose first statement fails does nothing, wherever it is cut. -/
theorem runBatch_stuck {a : α} {rest : List α} {s : σ} {e : ε} (h : f a s = .error e) (k : Nat) :
    (runBatch f ((a :: rest).take k) s).1 = s := by
  cases k with
  | zero => rfl
  | succ k =>
    rw [List.take_succ_cons, runBatch, h]

/-- A relation that every statement keeps is kept by the batch. -/
theorem runBatch_keeps {R : σ → σ → Prop} (hrefl : ∀ s, R s s)
    (htrans : ∀ {s t u}, R s t → R t u → R s u) {l : List α}
    (hstep : ∀ a ∈ l, ∀ {s s'}, f a s = .ok s' → R s s') (s : σ) : R s (runBatch f l s).1 := by
  induction l generalizing s with
  | nil => exact hrefl s
  | cons a rest ih =>
    rw [runBatch]
    cases ha : f a s with
    | error e => exact hrefl s
    | ok s' =>
      have hfirst : R s s' := hstep a List.mem_cons_self ha
      exact htrans hfirst (ih (fun x hx => hstep x (List.mem_cons_of_mem _ hx)) s')

/-- A view that every statement commutes with can be run in place of the state. -/
theorem runBatch_map {φ : σ → σ} {l : List α}
    (h : ∀ a ∈ l, ∀ s, f a (φ s) = φ <$> f a s) (s : σ) :
    runBatch f l (φ s) = (φ (runBatch f l s).1, (runBatch f l s).2) := by
  induction l generalizing s with
  | nil => rfl
  | cons a rest ih =>
    rw [runBatch, runBatch, h a List.mem_cons_self s]
    cases f a s with
    | error e => rfl
    | ok s' => exact ih (fun x hx => h x (List.mem_cons_of_mem _ hx)) s'

/-- The parts of a batch that succeeds. -/
theorem runBatch_split {a b : List α} {s : σ} (h : (runBatch f (a ++ b) s).2 = none) :
    runBatch f a s = ((runBatch f a s).1, none) ∧
      runBatch f b (runBatch f a s).1 = ((runBatch f (a ++ b) s).1, none) := by
  induction a generalizing s with
  | nil => exact ⟨rfl, Prod.ext rfl h⟩
  | cons x rest ih =>
    rw [List.cons_append, runBatch] at h
    rw [List.cons_append, runBatch, runBatch]
    cases hx : f x s with
    | error e =>
      rw [hx] at h
      cases h
    | ok s' =>
      rw [hx] at h
      exact ih h

theorem runBatch_take {l : List α} {s : σ} (h : (runBatch f l s).2 = none) (k : Nat) :
    (runBatch f (l.take k) s).2 = none := by
  rw [← List.take_append_drop k l] at h
  exact congrArg Prod.snd (runBatch_split h).1

section Repeats

variable {R : σ → σ → Prop} (hrefl : ∀ s, R s s) (htrans : ∀ {s t u}, R s t → R t u → R s u)
  (hstep : ∀ {a s s'}, f a s = .ok s' → R s s')

include hrefl htrans hstep

/-- Statements that do nothing once they were done: the batch does nothing later. -/
theorem runBatch_again {l : List α} (hrepeat : ∀ a ∈ l, ∀ s s' t, f a s = .ok s' → R s' t → f a t = .ok t)
    {s t : σ} (h : (runBatch f l s).2 = none) (ht : R (runBatch f l s).1 t) :
    runBatch f l t = (t, none) := by
  induction l generalizing s with
  | nil => rfl
  | cons a rest ih =>
    rw [runBatch] at h ht
    cases ha : f a s with
    | error e =>
      rw [ha] at h
      cases h
    | ok s' =>
      rw [ha] at h ht
      have hlater : R s' t := htrans (runBatch_keeps hrefl htrans (fun _ _ => hstep) s') ht
      rw [runBatch, hrepeat a List.mem_cons_self s s' t ha hlater]
      exact ih (fun x hx => hrepeat x (List.mem_cons_of_mem _ hx)) h ht

/-- Begun again after a cut, the batch passes what was done and goes on from there. -/
theorem runBatch_resume {l : List α} {p : Nat}
    (hrepeat : ∀ a ∈ l.take p, ∀ s s' t, f a s = .ok s' → R s' t → f a t = .ok t) {s : σ}
    (h : (runBatch f l s).2 = none) (k : Nat) :
    runBatch f (l.take k) (runBatch f (l.take p) s).1 = ((runBatch f (l.take (max p k)) s).1, none) := by
  have hp := runBatch_take h p
  rcases Nat.le_total k p with hle | hle
  · have htake : (l.take p).take k = l.take k := by rw [List.take_take, Nat.min_eq_left hle]
    have hk := runBatch_take hp k
    rw [Nat.max_eq_left hle]
    have hlater : R (runBatch f (l.take k) s).1 (runBatch f (l.take p) s).1 := by
      have hsplit := List.take_append_drop k (l.take p)
      rw [htake] at hsplit hk
      have hrun : runBatch f (l.take k) s = ((runBatch f (l.take k) s).1, none) := Prod.ext rfl hk
      rw [← hsplit, runBatch_append hrun]
      exact runBatch_keeps hrefl htrans (fun _ _ => hstep) _
    rw [htake] at hk
    refine runBatch_again hrefl htrans hstep (fun a ha => hrepeat a ?_) hk hlater
    rw [← htake] at ha
    exact List.mem_of_mem_take ha
  · have htake : (l.take k).take p = l.take p := by rw [List.take_take, Nat.min_eq_left hle]
    have hsplit := List.take_append_drop p (l.take k)
    rw [htake] at hsplit
    have hagain : runBatch f (l.take p) (runBatch f (l.take p) s).1 =
        ((runBatch f (l.take p) s).1, none) :=
      runBatch_again hrefl htrans hstep hrepeat hp (hrefl _)
    have hk := runBatch_take h k
    rw [Nat.max_eq_right hle]
    rw [← hsplit] at hk ⊢
    rw [runBatch_append hagain]
    exact (runBatch_split hk).2

end Repeats

/-- Items in the groups they are flushed in: as soon as `size` are pending, and
what is pending at the end. -/
def flushes (size : Nat) : List α → List α → List (List α)
  | pending, [] => if pending.isEmpty then [] else [pending]
  | pending, a :: rest =>
      if size ≤ (pending ++ [a]).length then (pending ++ [a]) :: flushes size [] rest
      else flushes size (pending ++ [a]) rest

theorem flushes_flatten (size : Nat) (pending rest : List α) :
    (flushes size pending rest).flatten = pending ++ rest := by
  induction rest generalizing pending with
  | nil =>
    rw [flushes, List.append_nil]
    split_ifs with h
    · exact (List.isEmpty_iff.mp h).symm
    · exact List.append_nil pending
  | cons a rest ih =>
    rw [flushes]
    split_ifs
    · rw [List.flatten_cons, ih, List.nil_append, List.append_assoc]
      rfl
    · rw [ih, List.append_assoc]
      rfl

end LocalSearch.Lib
