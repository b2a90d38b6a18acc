import Mathlib.Data.List.Basic

/-!
# Terminated segments

A stream is cut behind every terminator. What follows the last terminator is a
segment too, unless it is empty.
-/
namespace LocalSearch.Lib

set_option autoImplicit false

variable {α : Type} [DecidableEq α]

/-- The segments of a stream, without their terminators. -/
def segments (terminator : α) : List α → List (List α)
  | [] => []
  | x :: rest =>
      if x = terminator then [] :: segments terminator rest
      else
        match segments terminator rest with
        | [] => [[x]]
        | segment :: others => (x :: segment) :: others

variable {terminator : α} {segment : List α}

theorem segments_terminated (h : terminator ∉ segment) (rest : List α) :
    segments terminator (segment ++ terminator :: rest) = segment :: segments terminator rest := by
  induction segment with
  | nil => exact if_pos rfl
  | cons x segment ih =>
    obtain ⟨hne, hsegment⟩ := List.ne_and_not_mem_of_not_mem_cons h
    rw [List.cons_append, segments, if_neg (Ne.symm hne), ih hsegment]

theorem segments_tail (h : terminator ∉ segment) (hnonempty : segment ≠ []) :
    segments terminator segment = [segment] := by
  induction segment with
  | nil => exact absurd rfl hnonempty
  | cons x rest ih =>
    obtain ⟨hne, hrest⟩ := List.ne_and_not_mem_of_not_mem_cons h
    rw [segments, if_neg (Ne.symm hne)]
    cases rest with
    | nil => rfl
    | cons y others => rw [ih hrest (List.cons_ne_nil y others)]

/-- No segment holds a terminator. -/
theorem notMem_of_mem_segments {stream : List α} (h : segment ∈ segments terminator stream) :
    terminator ∉ segment := by
  induction stream generalizing segment with
  | nil => exact absurd h List.not_mem_nil
  | cons x rest ih =>
    rw [segments] at h
    split_ifs at h with hx
    · rcases List.mem_cons.mp h with rfl | h
      · exact List.not_mem_nil
      · exact ih h
    · cases hrest : segments terminator rest with
      | nil =>
        rw [hrest] at h
        rw [List.mem_singleton.mp h]
        exact List.not_mem_cons_of_ne_of_not_mem (Ne.symm hx) List.not_mem_nil
      | cons first others =>
        rw [hrest] at h ih
        rcases List.mem_cons.mp h with rfl | h
        · exact List.not_mem_cons_of_ne_of_not_mem (Ne.symm hx) (ih List.mem_cons_self)
        · exact ih (List.mem_cons_of_mem _ h)

/-- The segments with their terminators make up the stream; only the last one may
lack its own. -/
theorem segments_joined (terminator : α) (stream : List α) :
    (segments terminator stream).flatMap (· ++ [terminator]) = stream ∨
      (segments terminator stream).flatMap (· ++ [terminator]) = stream ++ [terminator] := by
  induction stream with
  | nil => exact .inl rfl
  | cons x rest ih =>
    rw [segments]
    split_ifs with hx
    · subst hx
      exact ih.imp (congrArg (x :: ·)) (congrArg (x :: ·))
    · cases hrest : segments terminator rest with
      | nil =>
        rw [hrest] at ih
        rcases ih with h | h
        · exact .inr (by rw [← h]; rfl)
        · exact absurd h.symm (List.append_ne_nil_of_right_ne_nil _ (List.cons_ne_nil _ _))
      | cons first others =>
        rw [hrest] at ih
        exact ih.imp (congrArg (x :: ·)) (congrArg (x :: ·))

end LocalSearch.Lib
