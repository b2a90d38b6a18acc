import LocalSearch.Lib.Frame
import Mathlib.Data.List.Nodup

/-!
# Frames of the local transport

The pipe moves frames without looking into them; the two protocols above it
encode and decode their JSON values in the same frames.
-/
namespace LocalSearch.Transport

set_option autoImplicit false

open Lib

def maxTransportFrameBytes : Nat := 1048576

/-- Bytes of the length before the payload. -/
def prefixBytes : Nat := 4

def responseAck : UInt8 := 0xAC

inductive TransportFrameError where
  | tooLarge
  | incomplete
  deriving DecidableEq, Repr

inductive WindowsPipeError where
  | io (operation : String)
  | frame (error : TransportFrameError)
  | unauthorized
  | deadlineExceeded
  | cancelled
  | invalidEndpoint
  | protocol (detail : String)
  deriving DecidableEq, Repr

def validatePipeName (pipeName : String) : Except WindowsPipeError Unit :=
  if ¬ ("\\\\.\\pipe\\LocalSearch\\Agent\\v1\\".toList <+: pipeName.toList ∨
      "\\\\.\\pipe\\LocalSearch\\WinFS\\v1\\".toList <+: pipeName.toList) ∨
      256 < pipeName.utf8ByteSize ∨ Char.ofNat 0 ∈ pipeName.toList then
    .error .invalidEndpoint
  else .ok ()

def validateEncodedFrame (frame : List UInt8) : Except WindowsPipeError Unit :=
  if frame.length < prefixBytes then .error (.frame .incomplete)
  else if maxTransportFrameBytes < announced prefixBytes frame then .error (.frame .tooLarge)
  else if frame.length - prefixBytes ≠ announced prefixBytes frame then .error (.frame .incomplete)
  else .ok ()

/-- What the transport takes for a frame. -/
def Framed (frame : List UInt8) : Prop :=
  IsFrame prefixBytes frame ∧ announced prefixBytes frame ≤ maxTransportFrameBytes

theorem validateEncodedFrame_eq_ok {frame : List UInt8} :
    validateEncodedFrame frame = .ok () ↔ Framed frame := by
  unfold validateEncodedFrame Framed IsFrame
  constructor
  · intro h
    split_ifs at h with hshort hlarge hlength
    omega
  · rintro ⟨hlength, hlimit⟩
    rw [if_neg (by omega), if_neg (by omega), if_neg (by omega)]

theorem Framed.ne_nil {frame : List UInt8} (h : Framed frame) : frame ≠ [] := by
  intro hnil
  have hwidth := h.1.width_le
  rw [hnil] at hwidth
  exact absurd hwidth (by decide)

theorem Framed.length_le {frame : List UInt8} (h : Framed frame) :
    frame.length ≤ prefixBytes + maxTransportFrameBytes := by
  have hlength : frame.length = prefixBytes + announced prefixBytes frame := h.1
  have hlimit := h.2
  omega

/-- What a party reading a frame does with the bytes it has. -/
def readNext (got : List UInt8) : Reading := reading prefixBytes maxTransportFrameBytes got

theorem readNext_nil : readNext [] = .wants 4 := by decide

theorem readNext_framed {frame : List UInt8} (h : Framed frame) : readNext frame = .whole :=
  reading_isFrame h.1 h.2

/-- A party that reads within a frame either has all of it or wants a part of
what is left. -/
theorem readNext_of_prefix {got rest : List UInt8} (h : Framed (got ++ rest)) :
    rest = [] ∧ readNext got = .whole ∨
      ∃ count, readNext got = .wants count ∧ 0 < count ∧ count ≤ rest.length :=
  reading_of_prefix h.1 h.2

theorem Framed.eq_of_isPrefix {a b : List UInt8} (ha : Framed a) (hb : Framed b) (h : a <+: b) :
    a = b :=
  ha.1.eq_of_isPrefix hb.1 h

inductive CodecError where
  | frameTooLarge
  | incompleteFrame
  | invalidJson
  deriving DecidableEq, Repr

/-- The JSON serializer and parser of one type. -/
structure JsonBytes (α : Type) where
  toVec : α → Option (List UInt8)
  fromSlice : List UInt8 → Option α

/-- The parser reads back what the serializer writes. -/
def JsonBytes.Lawful {α : Type} (json : JsonBytes α) : Prop :=
  ∀ value bytes, json.toVec value = some bytes → json.fromSlice bytes = some value

/-- The JSON of finitely many values. -/
def JsonBytes.ofPairs {α : Type} [DecidableEq α] (pairs : List (α × List UInt8)) : JsonBytes α where
  toVec value := (pairs.find? (·.1 = value)).map (·.2)
  fromSlice bytes := (pairs.find? (·.2 = bytes)).map (·.1)

theorem lawful_ofPairs {α : Type} [DecidableEq α] {pairs : List (α × List UInt8)}
    (h : (pairs.map (·.2)).Nodup) : (JsonBytes.ofPairs pairs).Lawful := by
  intro value bytes hbytes
  obtain ⟨pair, hpair, rfl⟩ := Option.map_eq_some_iff.mp hbytes
  have hmem := List.mem_of_find?_eq_some hpair
  have hvalue : pair.1 = value := by simpa using List.find?_some hpair
  have hfound : pairs.find? (·.2 = pair.2) = some pair := by
    cases hother : pairs.find? (·.2 = pair.2) with
    | none => exact absurd (List.find?_eq_none.mp hother pair hmem) (by simp)
    | some other =>
      have hbytes : other.2 = pair.2 := by simpa using List.find?_some hother
      rw [List.inj_on_of_nodup_map h (List.mem_of_find?_eq_some hother) hmem hbytes]
  show (pairs.find? (·.2 = pair.2)).map (·.1) = some value
  rw [hfound, ← hvalue]
  rfl

section Codec

variable {α : Type} (json : JsonBytes α)

/-- The codec of both protocols: the bounds of the two are the same. -/
def encodeFrame (value : α) : Except CodecError (List UInt8) :=
  match json.toVec value with
  | none => .error .invalidJson
  | some payload =>
      if maxTransportFrameBytes < payload.length then .error .frameTooLarge
      else .ok (frame prefixBytes payload)

def decodeFrame (frame : List UInt8) : Except CodecError α :=
  if frame.length < prefixBytes then .error .incompleteFrame
  else if maxTransportFrameBytes < announced prefixBytes frame then .error .frameTooLarge
  else if frame.length - prefixBytes ≠ announced prefixBytes frame then .error .incompleteFrame
  else
    match json.fromSlice (frame.drop prefixBytes) with
    | none => .error .invalidJson
    | some value => .ok value

variable {json}

theorem framed_frame {payload : List UInt8} (h : payload.length ≤ maxTransportFrameBytes) :
    Framed (frame prefixBytes payload) := by
  have hlt : payload.length < 256 ^ prefixBytes := by
    have hmax : maxTransportFrameBytes < 256 ^ prefixBytes := by decide
    omega
  refine ⟨isFrame_frame hlt, ?_⟩
  rw [announced_frame hlt]
  exact h

theorem encodeFrame_framed {value : α} {bytes : List UInt8} (h : encodeFrame json value = .ok bytes) :
    Framed bytes := by
  unfold encodeFrame at h
  split at h
  · cases h
  · next payload hpayload =>
    split_ifs at h with hlarge
    obtain rfl := Except.ok.inj h
    exact framed_frame (by omega)

/-- Of a frame only the payload can be wrong. -/
theorem decodeFrame_framed {bytes : List UInt8} (h : Framed bytes) :
    decodeFrame json bytes =
      match json.fromSlice (bytes.drop prefixBytes) with
      | none => .error .invalidJson
      | some value => .ok value := by
  have hlength : bytes.length = prefixBytes + announced prefixBytes bytes := h.1
  have hlimit := h.2
  unfold decodeFrame
  rw [if_neg (by omega), if_neg (by omega), if_neg (by omega)]

theorem decodeFrame_encodeFrame (hjson : json.Lawful) {value : α} {bytes : List UInt8}
    (h : encodeFrame json value = .ok bytes) : decodeFrame json bytes = .ok value := by
  rw [decodeFrame_framed (encodeFrame_framed h)]
  unfold encodeFrame at h
  split at h
  · cases h
  · next payload hpayload =>
    split_ifs at h with hlarge
    obtain rfl := Except.ok.inj h
    have hdrop : (frame prefixBytes payload).drop prefixBytes = payload :=
      List.drop_left' (length_leBytes _ _)
    rw [hdrop, hjson value payload hpayload]

end Codec

end LocalSearch.Transport
