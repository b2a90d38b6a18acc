import LocalSearch.Mcp.Stdio
import LocalSearch.Lib.Segments

/-!
# The bounded reader

The bytes arrive in buffers, and the loop of `read_bounded_line` takes what each
of them holds of the line. Its state after any number of buffers is decided by
the bytes of the line so far, so the buffers leave no trace in the lines.
-/
namespace LocalSearch.Mcp

set_option autoImplicit false

open Lib

def maxStdioMessageBytes : Nat := 1048576

def newline : UInt8 := 10

def carriageReturn : UInt8 := 13

/-- A buffered reader: the rest of the buffer it has filled, and the buffers that
are still to come. At the end of the input there is none. -/
structure BufReader where
  buffers : List (List UInt8)
  nonempty : ∀ buffer ∈ buffers, buffer ≠ []

namespace BufReader

def bytes (reader : BufReader) : List UInt8 := reader.buffers.flatten

def fillBuf (reader : BufReader) : List UInt8 := reader.buffers.headD []

/-- The buffers behind so many bytes of the first. -/
def advance (amount : Nat) : List (List UInt8) → List (List UInt8)
  | [] => []
  | buffer :: rest => if buffer.length ≤ amount then rest else buffer.drop amount :: rest

theorem advance_nonempty {amount : Nat} {buffers : List (List UInt8)}
    (h : ∀ buffer ∈ buffers, buffer ≠ []) : ∀ buffer ∈ advance amount buffers, buffer ≠ [] := by
  cases buffers with
  | nil => exact h
  | cons first rest =>
    obtain ⟨-, hrest⟩ := List.forall_mem_cons.mp h
    rw [advance]
    split_ifs with hwhole
    · exact hrest
    · exact List.forall_mem_cons.mpr ⟨mt List.drop_eq_nil_iff.mp hwhole, hrest⟩

def consume (reader : BufReader) (amount : Nat) : BufReader :=
  ⟨advance amount reader.buffers, advance_nonempty reader.nonempty⟩

variable {reader : BufReader}

theorem bytes_eq_nil (h : reader.fillBuf = []) : reader.bytes = [] := by
  unfold fillBuf at h
  unfold bytes
  cases hbuffers : reader.buffers with
  | nil => rfl
  | cons buffer rest =>
    rw [hbuffers] at h
    exact absurd h (reader.nonempty buffer (hbuffers ▸ List.mem_cons_self))

/-- What is consumed of the buffer is gone from the front of the bytes. -/
theorem bytes_consume (reader : BufReader) (amount : Nat) :
    reader.fillBuf.take amount ++ (reader.consume amount).bytes = reader.bytes := by
  unfold fillBuf
  show _ ++ (advance amount reader.buffers).flatten = reader.buffers.flatten
  cases reader.buffers with
  | nil => exact (List.append_nil _).trans List.take_nil
  | cons buffer rest =>
    rw [List.headD_cons, advance]
    split_ifs with hwhole
    · rw [List.take_of_length_le hwhole]
      rfl
    · rw [List.flatten_cons, List.flatten_cons, ← List.append_assoc, List.take_append_drop]

theorem consume_length_lt {amount : Nat} (hamount : 0 < amount)
    (h : amount ≤ reader.fillBuf.length) :
    (reader.consume amount).bytes.length < reader.bytes.length := by
  have hlength := congrArg List.length (reader.bytes_consume amount)
  rw [List.length_append, List.length_take, Nat.min_eq_left h] at hlength
  omega

end BufReader

/-- What the loop holds of the line. -/
structure Held where
  message : List UInt8
  oversized : Bool

def Held.empty : Held := ⟨[], false⟩

/-- The front of a buffer is taken, if the line is not too long with it. -/
def Held.extend (held : Held) (buffer : List UInt8) (contentEnd : Nat) : Held :=
  if held.oversized then held
  else if maxStdioMessageBytes < min (held.message.length + contentEnd) (2 ^ 64 - 1) then ⟨[], true⟩
  else { held with message := held.message ++ buffer.take contentEnd }

def trimCr (message : List UInt8) : List UInt8 :=
  if message.getLast? = some carriageReturn then message.dropLast else message

def Held.line (held : Held) : Line :=
  if held.oversized then .oversized else .message (trimCr held.message)

/-- The bytes up to the newline, which stands behind them. -/
theorem position_some {buffer : List UInt8} {index : Nat}
    (h : buffer.findIdx? (· == newline) = some index) :
    index < buffer.length ∧ newline ∉ buffer.take index ∧
      buffer.take (index + 1) = buffer.take index ++ [newline] := by
  obtain ⟨hindex, hfound, hbefore⟩ := List.findIdx?_eq_some_iff_getElem.mp h
  refine ⟨hindex, fun hmem => ?_, ?_⟩
  · obtain ⟨j, hj, hbyte⟩ := List.mem_iff_getElem.mp hmem
    rw [List.getElem_take] at hbyte
    rw [List.length_take] at hj
    exact hbefore j (by omega) (beq_iff_eq.mpr hbyte)
  · rw [List.take_add_one, List.getElem?_eq_getElem hindex, beq_iff_eq.mp hfound]
    rfl

theorem position_none {buffer : List UInt8} (h : buffer.findIdx? (· == newline) = none) :
    newline ∉ buffer :=
  fun hmem => absurd (List.findIdx?_eq_none_iff.mp h newline hmem) (by simp)

/-- The loop of `read_bounded_line`. -/
def readLoop (reader : BufReader) (held : Held) : Line × BufReader :=
  let buffer := reader.fillBuf
  if hempty : buffer = [] then
    (if held.message.isEmpty && !held.oversized then .eof else held.line, reader)
  else
    let position := buffer.findIdx? (· == newline)
    let consumed := position.elim buffer.length (· + 1)
    let contentEnd := position.getD buffer.length
    let held := held.extend buffer contentEnd
    if position.isSome then (held.line, reader.consume consumed)
    else readLoop (reader.consume consumed) held
termination_by reader.bytes.length
decreasing_by
  next hposition =>
  replace hposition : reader.fillBuf.findIdx? (· == newline) = none :=
    Option.not_isSome_iff_eq_none.mp hposition
  rw [hposition]
  exact BufReader.consume_length_lt (List.length_pos_of_ne_nil hempty) (Nat.le_refl _)

section Loop

variable {reader : BufReader} {held : Held}

theorem readLoop_end (h : reader.fillBuf = []) : readLoop reader held =
    (if held.message.isEmpty && !held.oversized then .eof else held.line, reader) := by
  rw [readLoop]
  exact dif_pos h

theorem readLoop_stop {index : Nat} (h : reader.fillBuf.findIdx? (· == newline) = some index) :
    readLoop reader held =
      ((held.extend reader.fillBuf index).line, reader.consume (index + 1)) := by
  have hempty : reader.fillBuf ≠ [] := by
    intro hempty
    rw [hempty] at h
    cases h
  rw [readLoop]
  dsimp only
  rw [dif_neg hempty, h]
  rfl

theorem readLoop_more (hempty : reader.fillBuf ≠ [])
    (h : reader.fillBuf.findIdx? (· == newline) = none) :
    readLoop reader held = readLoop (reader.consume reader.fillBuf.length)
      (held.extend reader.fillBuf reader.fillBuf.length) := by
  rw [readLoop]
  dsimp only
  rw [dif_neg hempty, h]
  rfl

end Loop

def readBoundedLine (reader : BufReader) : Line × BufReader := readLoop reader .empty

/-- The line that the call with this number returns. -/
def BufReader.lineAt (reader : BufReader) : Nat → Line
  | 0 => (readBoundedLine reader).1
  | n + 1 => (readBoundedLine reader).2.lineAt n

/-- What the loop holds once it has seen these bytes of the line. -/
def Held.ofSeen (seen : List UInt8) : Held :=
  if seen.length ≤ maxStdioMessageBytes then ⟨seen, false⟩ else ⟨[], true⟩

/-- The line of a whole segment. -/
def segmentLine (segment : List UInt8) : Line :=
  if segment.length ≤ maxStdioMessageBytes then .message (trimCr segment) else .oversized

theorem ofSeen_line (seen : List UInt8) : (Held.ofSeen seen).line = segmentLine seen := by
  unfold Held.ofSeen segmentLine
  split_ifs <;> rfl

theorem ofSeen_extend {seen buffer : List UInt8} {contentEnd : Nat} (h : contentEnd ≤ buffer.length) :
    (Held.ofSeen seen).extend buffer contentEnd = .ofSeen (seen ++ buffer.take contentEnd) := by
  have hlength : (seen ++ buffer.take contentEnd).length = seen.length + contentEnd := by
    rw [List.length_append, List.length_take, Nat.min_eq_left h]
  have hsaturated : maxStdioMessageBytes < min (seen.length + contentEnd) (2 ^ 64 - 1) ↔
      maxStdioMessageBytes < seen.length + contentEnd := by
    unfold maxStdioMessageBytes
    omega
  unfold Held.ofSeen Held.extend
  rw [hlength]
  by_cases hseen : seen.length ≤ maxStdioMessageBytes
  · rw [if_pos hseen]
    dsimp only
    rw [if_neg Bool.false_ne_true]
    by_cases hfits : seen.length + contentEnd ≤ maxStdioMessageBytes
    · rw [if_pos hfits, if_neg (by omega)]
    · rw [if_neg hfits, if_pos (by omega)]
  · rw [if_neg hseen, if_pos rfl, if_neg (by omega)]

/-- Nothing is held exactly if nothing was seen. -/
theorem ofSeen_empty {seen : List UInt8} :
    ((Held.ofSeen seen).message.isEmpty && !(Held.ofSeen seen).oversized) = true ↔ seen = [] := by
  unfold Held.ofSeen
  split_ifs with h
  · simp
  · refine iff_of_false (by simp) ?_
    rintro rfl
    exact h (Nat.zero_le _)

/-- A call returns the line of the first segment and leaves the others, or finds
the end of the input. -/
def Reads (result : Line × BufReader) : List (List UInt8) → Prop
  | [] => result.1 = .eof ∧ segments newline result.2.bytes = []
  | segment :: rest => result.1 = segmentLine segment ∧ segments newline result.2.bytes = rest

theorem readLoop_reads (reader : BufReader) {seen : List UInt8} (hseen : newline ∉ seen) :
    Reads (readLoop reader (.ofSeen seen)) (segments newline (seen ++ reader.bytes)) := by
  -- on the bytes that are left: every buffer without a newline leaves fewer
  generalize hlength : reader.bytes.length = length
  induction length using Nat.strongRecOn generalizing reader seen with
  | ind length ih =>
    by_cases hempty : reader.fillBuf = []
    · rw [readLoop_end hempty, BufReader.bytes_eq_nil hempty, List.append_nil]
      have hrest : segments newline reader.bytes = [] := by
        rw [BufReader.bytes_eq_nil hempty]
        rfl
      by_cases hnone : seen = []
      · rw [if_pos (ofSeen_empty.mpr hnone), hnone]
        exact ⟨rfl, hrest⟩
      · rw [if_neg (mt ofSeen_empty.mp hnone), segments_tail hseen hnone, ofSeen_line]
        exact ⟨rfl, hrest⟩
    cases hposition : reader.fillBuf.findIdx? (· == newline) with
    | some index =>
      obtain ⟨hindex, hcontent, htake⟩ := position_some hposition
      have hbytes : seen ++ reader.bytes = (seen ++ reader.fillBuf.take index) ++
          newline :: (reader.consume (index + 1)).bytes := by
        rw [← reader.bytes_consume (index + 1), htake]
        simp only [List.append_assoc, List.cons_append, List.nil_append]
      have hsegment : newline ∉ seen ++ reader.fillBuf.take index := by
        rw [List.mem_append]
        exact not_or.mpr ⟨hseen, hcontent⟩
      rw [readLoop_stop hposition, ofSeen_extend hindex.le, ofSeen_line, hbytes,
        segments_terminated hsegment]
      exact ⟨rfl, rfl⟩
    | none =>
      have hbytes : seen ++ reader.bytes =
          (seen ++ reader.fillBuf) ++ (reader.consume reader.fillBuf.length).bytes := by
        rw [← reader.bytes_consume reader.fillBuf.length, List.take_length, List.append_assoc]
      have hnext : newline ∉ seen ++ reader.fillBuf := by
        rw [List.mem_append]
        exact not_or.mpr ⟨hseen, position_none hposition⟩
      have hless := BufReader.consume_length_lt (List.length_pos_of_ne_nil hempty)
        (Nat.le_refl reader.fillBuf.length)
      rw [readLoop_more hempty hposition, ofSeen_extend (Nat.le_refl _), List.take_length, hbytes]
      exact ih _ (hlength ▸ hless) _ hnext rfl

theorem readBoundedLine_reads (reader : BufReader) :
    Reads (readBoundedLine reader) (segments newline reader.bytes) :=
  readLoop_reads reader List.not_mem_nil

theorem lineAt_eq (reader : BufReader) (n : Nat) :
    reader.lineAt n = ((segments newline reader.bytes)[n]?).elim .eof segmentLine := by
  induction n generalizing reader with
  | zero =>
    have hreads := readBoundedLine_reads reader
    cases hsegments : segments newline reader.bytes with
    | nil =>
      rw [hsegments] at hreads
      exact hreads.1
    | cons segment rest =>
      rw [hsegments] at hreads
      exact hreads.1
  | succ n ih =>
    have hreads := readBoundedLine_reads reader
    show (readBoundedLine reader).2.lineAt n = _
    rw [ih]
    cases hsegments : segments newline reader.bytes with
    | nil =>
      rw [hsegments] at hreads
      rw [hreads.2]
      rfl
    | cons segment rest =>
      rw [hsegments] at hreads
      rw [hreads.2]
      rfl

/-- Each call returns the line of the next segment, whatever the buffers are, and
`Eof` once there is none; the segments are the parts of the stream between its
newlines. -/
theorem framing_ignores_buffers (reader : BufReader) :
    (∀ n, reader.lineAt n = ((segments newline reader.bytes)[n]?).elim .eof segmentLine) ∧
    (∀ segment ∈ segments newline reader.bytes, newline ∉ segment) ∧
    ((segments newline reader.bytes).flatMap (· ++ [newline]) = reader.bytes ∨
      (segments newline reader.bytes).flatMap (· ++ [newline]) = reader.bytes ++ [newline]) :=
  ⟨lineAt_eq reader, fun _ => notMem_of_mem_segments, segments_joined newline reader.bytes⟩

end LocalSearch.Mcp
