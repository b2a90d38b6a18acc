import LocalSearch.Lib.TwoSlot
import LocalSearch.Content.Index

/-!
# Durable JSON state

A record is written into one of two slot files, in an envelope with a sequence
number and a checksum. A crash may leave any beginning of the bytes in the slot
that was being written. Encoding and decoding are a library's and come in as
parameters.
-/
namespace LocalSearch.Content

set_option autoImplicit false

open Lib

def generationManagerVersion : Nat := 1

structure DurableJsonEnvelope (V : Type) where
  version : Nat
  sequence : Nat
  checksum : UInt64
  payload : V
  deriving DecidableEq, Repr

/-- The JSON library at values `V` and a serializable type `T`. -/
structure JsonCodec (V T : Type) where
  toValue : T → V
  fromValue : V → Option T
  /-- The compact text of a value. -/
  toVec : V → List UInt8
  /-- The indented text of an envelope. -/
  toVecPretty : DurableJsonEnvelope V → List UInt8
  /-- An envelope read back. -/
  fromSlice : List UInt8 → Option (DurableJsonEnvelope V)
  /-- A record read from a file without envelope. -/
  fromPlain : List UInt8 → Option T

section Codec

variable {V T : Type} (json : JsonCodec V T)

/-- FNV-1a over the compact text. -/
def jsonChecksum (value : V) : UInt64 :=
  (json.toVec value).foldl
    (fun hash byte => (hash ^^^ byte.toUInt64) * 0x00000100000001b3) 0xcbf29ce484222325

/-- An envelope whose checksum is that of its payload. -/
def decodeEnvelope (bytes : List UInt8) : Option (DurableJsonEnvelope V) :=
  (json.fromSlice bytes).filter fun envelope =>
    envelope.checksum == jsonChecksum json envelope.payload

/-- What the library does: values and envelopes come back as they were, and no
text short of its end passes for a whole one. -/
structure JsonCodec.Lawful : Prop where
  fromValue_toValue : ∀ t, json.fromValue (json.toValue t) = some t
  fromSlice_toVecPretty : ∀ e : DurableJsonEnvelope V, e.version < 2 ^ 32 → e.sequence < 2 ^ 64 →
    json.fromSlice (json.toVecPretty e) = some e
  torn : ∀ e bytes, bytes <+: (json.toVecPretty e).dropLast → decodeEnvelope json bytes = none

end Codec

/-- The two slot files of a path, and a plain file from before there were slots. -/
structure DurableFile where
  slots : Fin 2 → Option (List UInt8)
  plain : Option (List UInt8)

namespace DurableFile

def fresh (plain : Option (List UInt8)) : DurableFile := ⟨fun _ => none, plain⟩

def setSlot (file : DurableFile) (i : Fin 2) (bytes : List UInt8) : DurableFile :=
  { file with slots := Function.update file.slots i (some bytes) }

end DurableFile

section Files

variable {V T : Type} (json : JsonCodec V T)

/-- The envelopes in the slots, of any version. -/
def durableEnvelopes (file : DurableFile) : List (DurableJsonEnvelope V) :=
  ([file.slots 0, file.slots 1].filterMap id).filterMap (decodeEnvelope json)

def readJson (file : DurableFile) : Except ContentIndexError T :=
  let valid := (durableEnvelopes json file).filter fun e => e.version = generationManagerVersion
  match (valid.insertionSort fun a b => b.sequence ≤ a.sequence).head? with
  | some envelope =>
      match json.fromValue envelope.payload with
      | some value => .ok value
      | none => .error .serialization
  | none =>
      match file.plain with
      | none => .error (.io "not found")
      | some bytes =>
          match json.fromPlain bytes with
          | some value => .ok value
          | none => .error .serialization

def nextSequence (file : DurableFile) : Nat :=
  min ((((durableEnvelopes json file).map (·.sequence)).max?).getD 0 + 1) (2 ^ 64 - 1)

def newEnvelope (sequence : Nat) (value : T) : DurableJsonEnvelope V :=
  let payload := json.toValue value
  ⟨generationManagerVersion, sequence, jsonChecksum json payload, payload⟩

/-- Where a call of `write_json_atomic` got to. -/
inductive WriteEnd where
  /-- The slot was not opened yet. -/
  | unopened
  /-- The slot was truncated and has at most `written` bytes, the last one not among them. -/
  | torn (written : Nat)
  /-- All bytes are in the slot, and the call did not return. -/
  | whole
  | returned
  deriving DecidableEq, Repr

/-- All bytes of the write are on the disk. -/
def WriteEnd.landed : WriteEnd → Bool
  | .unopened | .torn _ => false
  | .whole | .returned => true

def writeJsonAtomic (file : DurableFile) (value : T) (ended : WriteEnd) : DurableFile :=
  let sequence := nextSequence json file
  let bytes := json.toVecPretty (newEnvelope json sequence value)
  match ended with
  | .unopened => file
  | .torn written => file.setSlot (Slots.side sequence) (bytes.dropLast.take written)
  | .whole | .returned => file.setSlot (Slots.side sequence) bytes

/-- The calls on one path, one after the other. -/
def writeAll (file : DurableFile) (history : List (T × WriteEnd)) : DurableFile :=
  history.foldl (fun file write => writeJsonAtomic json file write.1 write.2) file

end Files

section Register

variable {V T : Type} (json : JsonCodec V T)

/-- What the slots say, with the sequence of each. -/
def decoded (file : DurableFile) : Slots V := fun i =>
  (file.slots i).bind fun bytes => (decodeEnvelope json bytes).map fun e => (e.sequence, e.payload)

/-- The file holds `value` under number `n`, in envelopes of the version that is read. -/
structure Stored (file : DurableFile) (n : Nat) (value : T) : Prop where
  holds : (decoded json file).Holds n (json.toValue value)
  version : ∀ e ∈ durableEnvelopes json file, e.version = generationManagerVersion

variable {json}

theorem mem_durableEnvelopes {file : DurableFile} {e : DurableJsonEnvelope V} :
    e ∈ durableEnvelopes json file ↔
      ∃ i bytes, file.slots i = some bytes ∧ decodeEnvelope json bytes = some e := by
  simp only [durableEnvelopes, List.mem_filterMap, List.mem_cons, List.not_mem_nil, or_false, id]
  constructor
  · rintro ⟨bytes, ⟨slot, rfl | rfl, hslot⟩, he⟩
    · exact ⟨0, bytes, hslot, he⟩
    · exact ⟨1, bytes, hslot, he⟩
  · rintro ⟨i, bytes, hslot, he⟩
    refine ⟨bytes, ⟨file.slots i, ?_, hslot⟩, he⟩
    rcases Fin.exists_fin_two.1 ⟨i, rfl⟩ with rfl | rfl
    · exact .inl rfl
    · exact .inr rfl

/-- The envelopes are those the slots decode to. -/
theorem decoded_of_mem {file : DurableFile} {e : DurableJsonEnvelope V}
    (he : e ∈ durableEnvelopes json file) : ∃ i, decoded json file i = some (e.sequence, e.payload) := by
  obtain ⟨i, bytes, hslot, hdecode⟩ := mem_durableEnvelopes.1 he
  refine ⟨i, ?_⟩
  simp only [decoded, hslot, Option.bind_some, hdecode, Option.map_some]

theorem mem_of_decoded {file : DurableFile} {i : Fin 2} {x : Nat × V}
    (hx : decoded json file i = some x) :
    ∃ e ∈ durableEnvelopes json file, e.sequence = x.1 ∧ e.payload = x.2 := by
  simp only [decoded, Option.bind_eq_some_iff, Option.map_eq_some_iff] at hx
  obtain ⟨bytes, hslot, e, hdecode, rfl⟩ := hx
  exact ⟨e, mem_durableEnvelopes.2 ⟨i, bytes, hslot, hdecode⟩, rfl, rfl⟩

/-- The next write takes the next number. -/
theorem Stored.next {file : DurableFile} {n : Nat} {value : T} (h : Stored json file n value)
    (hn : n + 1 < 2 ^ 64) : nextSequence json file = n + 1 := by
  have hmax : ((durableEnvelopes json file).map (·.sequence)).max? = some n := by
    rw [List.max?_eq_some_iff]
    constructor
    · obtain ⟨e, he, hseq, -⟩ := mem_of_decoded h.holds.newest
      exact List.mem_map.2 ⟨e, he, hseq⟩
    · intro m hm
      obtain ⟨e, he, rfl⟩ := List.mem_map.1 hm
      obtain ⟨i, hi⟩ := decoded_of_mem he
      exact h.holds.bound i _ hi
  unfold nextSequence
  rw [hmax]
  show min (n + 1) (2 ^ 64 - 1) = n + 1
  omega

/-- The envelope sorted to the front is a newest one. -/
theorem head_insertionSort {l : List (DurableJsonEnvelope V)} {e : DurableJsonEnvelope V}
    (h : (l.insertionSort fun a b => b.sequence ≤ a.sequence).head? = some e) :
    e ∈ l ∧ ∀ x ∈ l, x.sequence ≤ e.sequence := by
  have hsorted := List.pairwise_insertionSort (fun a b : DurableJsonEnvelope V =>
    b.sequence ≤ a.sequence) l
  cases hl : l.insertionSort fun a b => b.sequence ≤ a.sequence with
  | nil =>
    rw [hl] at h
    cases h
  | cons first rest =>
    rw [hl] at h hsorted
    cases h
    have hmem : ∀ x, x ∈ l ↔ x ∈ e :: rest := by
      intro x
      rw [← hl, List.mem_insertionSort]
    refine ⟨(hmem e).2 List.mem_cons_self, fun x hx => ?_⟩
    rcases List.mem_cons.1 ((hmem x).1 hx) with rfl | hrest
    · exact le_refl _
    · exact (List.pairwise_cons.1 hsorted).1 x hrest

/-- A stored value is the one that is read. -/
theorem Stored.read {file : DurableFile} {n : Nat} {value : T} (hjson : json.Lawful)
    (h : Stored json file n value) : readJson json file = .ok value := by
  have hall : (durableEnvelopes json file).filter (fun e => e.version = generationManagerVersion) =
      durableEnvelopes json file :=
    List.filter_eq_self.2 fun e he => decide_eq_true (h.version e he)
  obtain ⟨top, htop, hseq, hpayload⟩ := mem_of_decoded h.holds.newest
  unfold readJson
  simp only [hall]
  cases hhead : ((durableEnvelopes json file).insertionSort
      fun a b => b.sequence ≤ a.sequence).head? with
  | none =>
    have hempty := List.head?_eq_none_iff.1 hhead
    have hmem := (List.mem_insertionSort (fun a b : DurableJsonEnvelope V =>
      b.sequence ≤ a.sequence)).2 htop
    rw [hempty] at hmem
    cases hmem
  | some e =>
    obtain ⟨he, hbest⟩ := head_insertionSort hhead
    obtain ⟨i, hi⟩ := decoded_of_mem he
    -- the newest number stands in the slot of its parity only
    have heq : e.sequence = n :=
      le_antisymm (h.holds.bound i _ hi) (hseq.symm.le.trans (hbest top htop))
    have hside : i = Slots.side n := by
      rw [← h.holds.parity i _ hi, heq]
    rw [hside, h.holds.newest] at hi
    have hpay : json.toValue value = e.payload := congrArg Prod.snd (Option.some.inj hi)
    simp only [← hpay, hjson.fromValue_toValue]

theorem decoded_setSlot (file : DurableFile) (i : Fin 2) (bytes : List UInt8) :
    decoded json (file.setSlot i bytes) = Function.update (decoded json file) i
      ((decodeEnvelope json bytes).map fun e => (e.sequence, e.payload)) := by
  funext j
  by_cases hj : j = i
  · subst hj
    simp only [decoded, DurableFile.setSlot, Function.update_self, Option.bind_some]
  · simp only [decoded, DurableFile.setSlot, Function.update_of_ne hj]

/-- An envelope just written reads back. -/
theorem decodeEnvelope_new (hjson : json.Lawful) {sequence : Nat} (hsequence : sequence < 2 ^ 64)
    (value : T) : decodeEnvelope json (json.toVecPretty (newEnvelope json sequence value)) =
      some (newEnvelope json sequence value) := by
  have hversion : (newEnvelope json sequence value).version < 2 ^ 32 := by
    show generationManagerVersion < 2 ^ 32
    decide
  unfold decodeEnvelope
  rw [hjson.fromSlice_toVecPretty _ hversion hsequence]
  simp [newEnvelope]

/-- The envelopes after a slot was written are the one in it and some of those before. -/
theorem mem_durableEnvelopes_setSlot {file : DurableFile} {i : Fin 2} {bytes : List UInt8}
    {e : DurableJsonEnvelope V} (he : e ∈ durableEnvelopes json (file.setSlot i bytes)) :
    decodeEnvelope json bytes = some e ∨ e ∈ durableEnvelopes json file := by
  obtain ⟨j, found, hslot, hdecode⟩ := mem_durableEnvelopes.1 he
  by_cases hj : j = i
  · subst hj
    simp only [DurableFile.setSlot, Function.update_self, Option.some.injEq] at hslot
    subst hslot
    exact .inl hdecode
  · simp only [DurableFile.setSlot, Function.update_of_ne hj] at hslot
    exact .inr (mem_durableEnvelopes.2 ⟨j, found, hslot, hdecode⟩)

/-- A write all of whose bytes are there. -/
theorem Stored.whole (hjson : json.Lawful) {file : DurableFile} {n : Nat} {old : T}
    (h : Stored json file n old) (hn : n + 1 < 2 ^ 64) (value : T) :
    Stored json (file.setSlot (Slots.side (n + 1))
      (json.toVecPretty (newEnvelope json (n + 1) value))) (n + 1) value := by
  have hdecode := decodeEnvelope_new hjson hn value
  constructor
  · rw [decoded_setSlot, hdecode]
    exact h.holds.put (json.toValue value)
  · intro e he
    rcases mem_durableEnvelopes_setSlot he with hnew | hold
    · rw [hdecode] at hnew
      cases hnew
      rfl
    · exact h.version e hold

/-- A write cut short. -/
theorem Stored.torn (hjson : json.Lawful) {file : DurableFile} {n : Nat} {old : T}
    (h : Stored json file n old) (value : T) (written : Nat) :
    Stored json (file.setSlot (Slots.side (n + 1))
      ((json.toVecPretty (newEnvelope json (n + 1) value)).dropLast.take written)) n old := by
  have hdecode := hjson.torn (newEnvelope json (n + 1) value) _ (List.take_prefix written _)
  constructor
  · rw [decoded_setSlot, hdecode]
    exact h.holds.spoil
  · intro e he
    rcases mem_durableEnvelopes_setSlot he with hnew | hold
    · rw [hdecode] at hnew
      cases hnew
    · exact h.version e hold

/-- One call, however it ended. The number grows by one at most. -/
theorem Stored.write (hjson : json.Lawful) {file : DurableFile} {n : Nat} {old : T}
    (h : Stored json file n old) (hn : n + 1 < 2 ^ 64) (value : T) (ended : WriteEnd) :
    ∃ m ≤ n + 1, Stored json (writeJsonAtomic json file value ended) m
      (if ended.landed then value else old) := by
  unfold writeJsonAtomic
  rw [h.next hn]
  cases ended with
  | unopened => exact ⟨n, Nat.le_succ n, h⟩
  | torn written => exact ⟨n, Nat.le_succ n, h.torn hjson value written⟩
  | whole => exact ⟨n + 1, le_refl _, h.whole hjson hn value⟩
  | returned => exact ⟨n + 1, le_refl _, h.whole hjson hn value⟩

/-- The first call, on a path without slots. -/
theorem stored_first (hjson : json.Lawful) (plain : Option (List UInt8)) (value : T) :
    Stored json (writeJsonAtomic json (.fresh plain) value .returned) 1 value := by
  have hnone : durableEnvelopes json (DurableFile.fresh plain) = [] := rfl
  have hnext : nextSequence json (DurableFile.fresh plain) = 1 := by
    unfold nextSequence
    rw [hnone]
    rfl
  have hdecode := decodeEnvelope_new hjson (show 1 < 2 ^ 64 by decide) value
  unfold writeJsonAtomic
  rw [hnext]
  constructor
  · rw [decoded_setSlot, hdecode]
    exact Slots.holds_first (json.toValue value)
  · intro e he
    rcases mem_durableEnvelopes_setSlot he with hnew | hold
    · rw [hdecode] at hnew
      cases hnew
      rfl
    · rw [hnone] at hold
      cases hold

end Register

section Histories

variable {V T : Type} {json : JsonCodec V T}

/-- The value of the last write all of whose bytes reached the disk. -/
def lastLanded (first : T) (history : List (T × WriteEnd)) : T :=
  history.foldl (fun value write => if write.2.landed then write.1 else value) first

/-- The value of the last call that returned. -/
def lastCompleted (first : T) (history : List (T × WriteEnd)) : T :=
  history.foldl (fun value write => if write.2 = .returned then write.1 else value) first

/-- The values of the calls that were cut after it. -/
def inFlight (history : List (T × WriteEnd)) : List T :=
  history.foldl (fun values write => if write.2 = .returned then [] else values ++ [write.1]) []

/-- The slot the next write opens is the only one a reader can use. -/
def TruncatesOnlyValid (json : JsonCodec V T) (file : DurableFile) : Prop :=
  (decoded json file (Slots.side (nextSequence json file))).isSome ∧
    ∀ i, (decoded json file i).isSome → i = Slots.side (nextSequence json file)

/-- Run of `Stored`. -/
theorem Stored.writeAll (hjson : json.Lawful) {file : DurableFile} {n : Nat} {old : T}
    (h : Stored json file n old) (history : List (T × WriteEnd))
    (hn : n + history.length < 2 ^ 64) :
    ∃ m ≤ n + history.length,
      Stored json (Content.writeAll json file history) m (lastLanded old history) := by
  induction history generalizing file n old with
  | nil => exact ⟨n, le_refl _, h⟩
  | cons write history ih =>
    rw [List.length_cons] at hn
    obtain ⟨k, hk, hstored⟩ := h.write hjson (by omega) write.1 write.2
    obtain ⟨m, hm, hlast⟩ := ih hstored (by omega)
    exact ⟨m, by rw [List.length_cons]; omega, hlast⟩

/-- A landed write returned, or was in flight after the last that did. -/
theorem lastLanded_cases (first : T) (history : List (T × WriteEnd)) :
    lastLanded first history = lastCompleted first history ∨
      lastLanded first history ∈ inFlight history := by
  induction history using List.reverseRecOn with
  | nil => exact .inl rfl
  | append_singleton history write ih =>
    simp only [lastLanded, lastCompleted, inFlight, List.foldl_append, List.foldl_cons,
      List.foldl_nil] at ih ⊢
    by_cases hreturned : write.2 = .returned
    · simp [hreturned, WriteEnd.landed]
    · by_cases hlanded : write.2.landed = true
      · right
        simp [hreturned, hlanded]
      · simp only [hreturned, if_false, hlanded]
        rcases ih with ih | ih
        · exact .inl ih
        · exact .inr (List.mem_append_left _ ih)

/-- While a value is stored, a write opens the other slot. -/
theorem Stored.spares {file : DurableFile} {n : Nat} {value : T} (h : Stored json file n value)
    (hn : n + 1 < 2 ^ 64) : ¬ TruncatesOnlyValid json file := by
  rintro ⟨-, honly⟩
  have hnewest := honly (Slots.side n) (by rw [h.holds.newest]; rfl)
  rw [h.next hn] at hnewest
  exact Slots.side_succ_ne n hnewest.symm

/-- After a first write that returned, whatever became of the later ones, a
reader gets the last value that is whole on the disk: that of the last call that
returned, or of one in flight after it. No call ever truncates the only slot
that can be read. -/
theorem durable_state_survives (hjson : json.Lawful) (plain : Option (List UInt8)) (first : T)
    (history : List (T × WriteEnd)) (hcount : history.length + 1 < 2 ^ 64) :
    let start := writeJsonAtomic json (.fresh plain) first .returned
    (readJson json (writeAll json start history) = .ok (lastLanded first history) ∧
      (lastLanded first history = lastCompleted first history ∨
        lastLanded first history ∈ inFlight history)) ∧
    (∀ earlier value, history = earlier ++ [(value, .returned)] →
      readJson json (writeAll json start history) = .ok value) ∧
    ¬ TruncatesOnlyValid json (.fresh plain) ∧
    ∀ before write after, history = before ++ write :: after →
      ¬ TruncatesOnlyValid json (writeAll json start before) := by
  intro start
  have hstart : Stored json start 1 first := stored_first hjson plain first
  obtain ⟨n, -, hstored⟩ := hstart.writeAll hjson history (by omega)
  have hread := hstored.read hjson
  refine ⟨⟨hread, lastLanded_cases first history⟩, ?_, ?_, ?_⟩
  · intro earlier value hhistory
    rw [hread, hhistory]
    simp [lastLanded, WriteEnd.landed]
  · rintro ⟨hsome, -⟩
    cases hsome
  · intro before write after hhistory
    have hlength : before.length + 1 ≤ history.length := by
      rw [hhistory, List.length_append, List.length_cons]
      omega
    obtain ⟨m, hm, hbefore⟩ := hstart.writeAll hjson before (by omega)
    exact hbefore.spares (by omega)

end Histories

section Shows

variable {V T : Type} (json : JsonCodec V T)

def durableJsonExists (file : DurableFile) : Bool :=
  file.plain.isSome || (file.slots 0).isSome || (file.slots 1).isSome

/-- The bytes of a slot file are what the slot says. -/
def ShowsSlot (bytes : Option (List UInt8)) : Slot T → Prop
  | .absent => bytes = none
  | .torn => ∃ b, bytes = some b ∧ decodeEnvelope json b = none
  | .whole n v => ∃ b, bytes = some b ∧ decodeEnvelope json b = some (newEnvelope json n v)

/-- Two slot files without a plain one, by what they decode to. -/
structure Shows (file : DurableFile) (slots : SlotFile T) : Prop where
  plain : file.plain = none
  slot : ∀ i, ShowsSlot json (file.slots i) (slots.slot i)

variable {json}

theorem Shows.blank : Shows json (.fresh none) (SlotFile.blank : SlotFile T) := ⟨rfl, fun _ => rfl⟩

theorem Shows.durableJsonExists_eq {file : DurableFile} {slots : SlotFile T} (h : Shows json file slots) :
    durableJsonExists file = slots.present := by
  have hthere : ∀ i, (file.slots i).isSome = (slots.slot i).there := by
    intro i
    have hi := h.slot i
    cases hslot : slots.slot i <;> rw [hslot] at hi
    · rw [show file.slots i = none from hi]
      rfl
    · obtain ⟨b, hb, -⟩ := hi
      rw [hb]
      rfl
    · obtain ⟨b, hb, -⟩ := hi
      rw [hb]
      rfl
  simp only [durableJsonExists, SlotFile.present, h.plain, hthere, Option.isSome_none, Bool.false_or]

theorem Shows.decoded {file : DurableFile} {slots : SlotFile T} (h : Shows json file slots) (i : Fin 2) :
    Content.decoded json file i = (slots.slots i).map fun x => (x.1, json.toValue x.2) := by
  have hi := h.slot i
  unfold Content.decoded SlotFile.slots
  cases hslot : slots.slot i <;> rw [hslot] at hi
  · rw [show file.slots i = none from hi]
    rfl
  · obtain ⟨b, hb, hdecode⟩ := hi
    rw [hb, Option.bind_some, hdecode]
    rfl
  · obtain ⟨b, hb, hdecode⟩ := hi
    rw [hb, Option.bind_some, hdecode]
    rfl

/-- The envelopes are those of the whole writes. -/
theorem Shows.envelope {file : DurableFile} {slots : SlotFile T} (h : Shows json file slots)
    {e : DurableJsonEnvelope V} (he : e ∈ durableEnvelopes json file) :
    ∃ i x, slots.slots i = some x ∧ e = newEnvelope json x.1 x.2 := by
  obtain ⟨i, bytes, hbytes, hdecode⟩ := mem_durableEnvelopes.1 he
  have hi := h.slot i
  cases hslot : slots.slot i <;> rw [hslot] at hi
  · rw [show file.slots i = none from hi] at hbytes
    cases hbytes
  · obtain ⟨b, hb, hnone⟩ := hi
    rw [hb] at hbytes
    cases hbytes
    rw [hnone] at hdecode
    cases hdecode
  · next n v =>
    obtain ⟨b, hb, hsome⟩ := hi
    rw [hb] at hbytes
    cases hbytes
    rw [hsome] at hdecode
    exact ⟨i, (n, v), by simp [SlotFile.slots, hslot, Slot.write?], (Option.some.inj hdecode).symm⟩

theorem Shows.stored {file : DurableFile} {slots : SlotFile T} (h : Shows json file slots)
    {x : Nat × T} (hx : slots.newest = some x) : Stored json file x.1 x.2 := by
  have hholds := SlotFile.newest_holds hx
  constructor
  · constructor
    · intro i y hy
      rw [h.decoded, Option.map_eq_some_iff] at hy
      obtain ⟨z, hz, rfl⟩ := hy
      exact hholds.parity i z hz
    · rw [h.decoded, hholds.newest]
      rfl
    · intro i y hy
      rw [h.decoded, Option.map_eq_some_iff] at hy
      obtain ⟨z, hz, rfl⟩ := hy
      exact hholds.bound i z hz
  · intro e he
    obtain ⟨i, y, -, rfl⟩ := h.envelope he
    rfl

theorem Shows.no_envelopes {file : DurableFile} {slots : SlotFile T} (h : Shows json file slots)
    (hnone : slots.newest = none) : durableEnvelopes json file = [] := by
  refine List.eq_nil_iff_forall_not_mem.2 fun e he => ?_
  obtain ⟨i, x, hx, -⟩ := h.envelope he
  rw [SlotFile.newest_eq_none.1 hnone] at hx
  cases hx

/-- A reader gets the newest whole write. -/
theorem Shows.read (hjson : json.Lawful) {file : DurableFile} {slots : SlotFile T}
    (h : Shows json file slots) : (readJson json file).toOption = slots.read := by
  unfold SlotFile.read
  cases hnewest : slots.newest with
  | none =>
    unfold readJson
    rw [h.no_envelopes hnewest, h.plain]
    rfl
  | some x =>
    rw [(h.stored hnewest).read hjson]
    rfl

theorem Shows.next {file : DurableFile} {slots : SlotFile T} (h : Shows json file slots)
    (hnext : slots.next < 2 ^ 64) : nextSequence json file = slots.next := by
  unfold SlotFile.next at hnext ⊢
  cases hnewest : slots.newest with
  | none =>
    unfold nextSequence
    rw [h.no_envelopes hnewest]
    rfl
  | some x =>
    rw [hnewest] at hnext
    exact (h.stored hnewest).next hnext

/-- A write does to the files what it does to the slots. -/
theorem Shows.write (hjson : json.Lawful) {file : DurableFile} {slots : SlotFile T}
    (h : Shows json file slots) (hnext : slots.next < 2 ^ 64) (value : T) (ended : WriteEnd) :
    Shows json (writeJsonAtomic json file value ended)
      (match ended with
        | .unopened => slots
        | .torn _ => slots.tear
        | .whole | .returned => slots.write value) := by
  have hput : ∀ (bytes : List UInt8) (slot : Slot T) (hparity),
      ShowsSlot json (some bytes) slot →
      Shows json (file.setSlot (Slots.side slots.next) bytes)
        (slots.put (Slots.side slots.next) slot hparity) := by
    intro bytes slot hparity hshows
    refine ⟨h.plain, fun i => ?_⟩
    by_cases hi : i = Slots.side slots.next
    · subst hi
      simpa only [DurableFile.setSlot, SlotFile.put, Function.update_self] using hshows
    · simpa only [DurableFile.setSlot, SlotFile.put, Function.update_of_ne hi] using h.slot i
  have hwhole := hput _ (.whole slots.next value) (fun n v hv => by cases hv; rfl)
    ⟨_, rfl, decodeEnvelope_new hjson hnext value⟩
  unfold writeJsonAtomic
  rw [h.next hnext]
  cases ended with
  | unopened => exact h
  | torn written =>
    exact hput _ .torn (fun n v hv => by cases hv)
      ⟨_, rfl, hjson.torn (newEnvelope json slots.next value) _ (List.take_prefix written _)⟩
  | whole => exact hwhole
  | returned => exact hwhole

end Shows

section Example

def expectText (text rest : List Char) : Option (List Char) :=
  if text <+: rest then some (rest.drop text.length) else none

/-- The digits in front, and what follows them. -/
def readNumber (rest : List Char) : Nat × List Char :=
  (Nat.ofDigitChars 10 (rest.takeWhile Char.isDigit) 0, rest.dropWhile Char.isDigit)

def openText : List Char := "\x7b\n  \"version\": ".toList
def sequenceText : List Char := ",\n  \"sequence\": ".toList
def checksumText : List Char := ",\n  \"checksum\": ".toList
def payloadText : List Char := ",\n  \"payload\": ".toList
def flagText (flag : Bool) : List Char := if flag then "true".toList else "false".toList

/-- Everything up to the closing brace. -/
def envelopeFront (e : DurableJsonEnvelope Bool) : List Char :=
  openText ++ (Nat.toDigits 10 e.version ++ (sequenceText ++ (Nat.toDigits 10 e.sequence ++
    (checksumText ++ (Nat.toDigits 10 e.checksum.toNat ++ (payloadText ++ (flagText e.payload ++
      ['\n'])))))))

def envelopeText (e : DurableJsonEnvelope Bool) : List Char := envelopeFront e ++ ['\x7d']

def readFlag (rest : List Char) : Option Bool :=
  if rest = flagText true ++ ['\n', '\x7d'] then some true
  else if rest = flagText false ++ ['\n', '\x7d'] then some false
  else none

def readEnvelope (text : List Char) : Option (DurableJsonEnvelope Bool) := do
  let rest ← expectText openText text
  let version := readNumber rest
  let rest ← expectText sequenceText version.2
  let sequence := readNumber rest
  let rest ← expectText checksumText sequence.2
  let checksum := readNumber rest
  let rest ← expectText payloadText checksum.2
  let flag ← readFlag rest
  some ⟨version.1, sequence.1, UInt64.ofNat checksum.1, flag⟩

def toBytes (text : List Char) : List UInt8 := text.map fun c => UInt8.ofNat c.toNat
def ofBytes (bytes : List UInt8) : List Char := bytes.map fun b => Char.ofNat b.toNat

/-- The JSON of `true` and `false`. -/
def flagJson : JsonCodec Bool Bool where
  toValue := id
  fromValue := some
  toVec flag := toBytes (flagText flag)
  toVecPretty e := toBytes (envelopeText e)
  fromSlice bytes := readEnvelope (ofBytes bytes)
  fromPlain bytes :=
    if ofBytes bytes = flagText true then some true
    else if ofBytes bytes = flagText false then some false
    else none

theorem expectText_append (text rest : List Char) : expectText text (text ++ rest) = some rest := by
  simp [expectText]

theorem readNumber_append (n : Nat) {c : Char} (hc : c.isDigit = false) (rest : List Char) :
    readNumber (Nat.toDigits 10 n ++ c :: rest) = (n, c :: rest) := by
  have hdigits : ∀ d ∈ Nat.toDigits 10 n, d.isDigit = true := fun d hd =>
    Nat.isDigit_of_mem_toDigits (by decide) (by decide) hd
  simp only [readNumber, List.takeWhile_append_of_pos hdigits, List.dropWhile_append_of_pos hdigits,
    List.takeWhile_cons, List.dropWhile_cons, hc, Bool.false_eq_true, if_false, List.append_nil,
    Nat.ofDigitChars_ten_toDigits]

theorem readFlag_flagText (flag : Bool) : readFlag (flagText flag ++ ['\n', '\x7d']) = some flag := by
  cases flag <;> decide

theorem readEnvelope_envelopeText (e : DurableJsonEnvelope Bool) :
    readEnvelope (envelopeText e) = some e := by
  have hsequence : ∃ rest, sequenceText = ',' :: rest := ⟨_, rfl⟩
  have hchecksum : ∃ rest, checksumText = ',' :: rest := ⟨_, rfl⟩
  have hpayload : ∃ rest, payloadText = ',' :: rest := ⟨_, rfl⟩
  have hnumber : ∀ (n : Nat) (text rest : List Char), (∃ r, text = ',' :: r) →
      readNumber (Nat.toDigits 10 n ++ (text ++ rest)) = (n, text ++ rest) := by
    rintro n text rest ⟨r, rfl⟩
    exact readNumber_append n (by decide) (r ++ rest)
  simp only [readEnvelope, envelopeText, envelopeFront, List.append_assoc, expectText_append,
    Option.bind_eq_bind, Option.bind_some, hnumber _ _ _ hsequence, hnumber _ _ _ hchecksum,
    hnumber _ _ _ hpayload]
  rw [show flagText e.payload ++ (['\n'] ++ ['\x7d']) = flagText e.payload ++ ['\n', '\x7d'] from rfl,
    readFlag_flagText]
  simp

theorem digit_lt {c : Char} (h : c.isDigit = true) : c.toNat < 125 := by
  have hle : c.val ≤ '9'.val := by
    simp only [Char.isDigit, Bool.and_eq_true, decide_eq_true_eq] at h
    exact h.2
  have hnat : c.val.toNat ≤ 57 := UInt32.le_iff_toNat_le.1 hle
  exact lt_of_le_of_lt hnat (by decide)

theorem below_of_all {text : List Char} (h : text.all (fun c => decide (c.toNat < 125)) = true) :
    ∀ c ∈ text, c.toNat < 125 :=
  fun c hc => of_decide_eq_true (List.all_eq_true.mp h c hc)

/-- No closing brace before the end, and nothing beyond ASCII. -/
theorem envelopeFront_lt (e : DurableJsonEnvelope Bool) : ∀ c ∈ envelopeFront e, c.toNat < 125 := by
  have hnumber : ∀ n, ∀ c ∈ Nat.toDigits 10 n, c.toNat < 125 := fun n c hc =>
    digit_lt (Nat.isDigit_of_mem_toDigits (by decide) (by decide) hc)
  have hopen : ∀ c ∈ openText, c.toNat < 125 := below_of_all (by decide)
  have hsequence : ∀ c ∈ sequenceText, c.toNat < 125 := below_of_all (by decide)
  have hchecksum : ∀ c ∈ checksumText, c.toNat < 125 := below_of_all (by decide)
  have hpayload : ∀ c ∈ payloadText, c.toNat < 125 := below_of_all (by decide)
  have hflag : ∀ c ∈ flagText e.payload, c.toNat < 125 := by
    cases e.payload <;> exact below_of_all (by decide)
  have hline : ∀ c ∈ ['\n'], c.toNat < 125 := below_of_all (by decide)
  intro c hc
  simp only [envelopeFront, List.mem_append] at hc
  rcases hc with h | h | h | h | h | h | h | h | h
  · exact hopen c h
  · exact hnumber _ c h
  · exact hsequence c h
  · exact hnumber _ c h
  · exact hchecksum c h
  · exact hnumber _ c h
  · exact hpayload c h
  · exact hflag c h
  · exact hline c h

theorem expectText_suffix {text rest tail : List Char} (h : expectText text rest = some tail) :
    tail <:+ rest := by
  unfold expectText at h
  split at h
  · cases h
    exact List.drop_suffix _ _
  · cases h

/-- What is read as an envelope has a closing brace. -/
theorem brace_of_readEnvelope {text : List Char} {e : DurableJsonEnvelope Bool}
    (h : readEnvelope text = some e) : '\x7d' ∈ text := by
  simp only [readEnvelope, Option.bind_eq_bind, Option.bind_eq_some_iff] at h
  obtain ⟨r₁, h₁, r₂, h₂, r₃, h₃, r₄, h₄, flag, hflag, -⟩ := h
  have hlast : '\x7d' ∈ r₄ := by
    unfold readFlag at hflag
    split at hflag
    · next heq => simp [heq]
    · split at hflag
      · next heq => simp [heq]
      · cases hflag
  have hmem₃ := (List.dropWhile_suffix _).subset ((expectText_suffix h₄).subset hlast)
  have hmem₂ := (List.dropWhile_suffix _).subset ((expectText_suffix h₃).subset hmem₃)
  have hmem₁ := (List.dropWhile_suffix _).subset ((expectText_suffix h₂).subset hmem₂)
  exact (expectText_suffix h₁).subset hmem₁

theorem ofBytes_toBytes {text : List Char} (h : ∀ c ∈ text, c.toNat < 256) :
    ofBytes (toBytes text) = text := by
  unfold ofBytes toBytes
  rw [List.map_map]
  conv_rhs => rw [← List.map_id text]
  refine List.map_congr_left fun c hc => ?_
  show Char.ofNat (UInt8.ofNat c.toNat).toNat = c
  rw [UInt8.toNat_ofNat_of_lt' (h c hc)]
  exact Char.ofNat_toNat c

theorem flagJson_lawful : flagJson.Lawful := by
  constructor
  · exact fun _ => rfl
  · intro e _ _
    have hascii : ∀ c ∈ envelopeText e, c.toNat < 256 := by
      intro c hc
      rcases List.mem_append.1 hc with hfront | hlast
      · exact (envelopeFront_lt e c hfront).trans (by decide)
      · rw [List.mem_singleton.1 hlast]
        decide
    show readEnvelope (ofBytes (toBytes (envelopeText e))) = some e
    rw [ofBytes_toBytes hascii, readEnvelope_envelopeText]
  · intro e bytes hbegins
    have hfront : (toBytes (envelopeText e)).dropLast = toBytes (envelopeFront e) := by
      simp [toBytes, envelopeText]
    have hnone : flagJson.fromSlice bytes = none := by
      cases hread : readEnvelope (ofBytes bytes) with
      | none => exact hread
      | some found =>
        obtain ⟨b, hb, hbrace⟩ := List.mem_map.1 (brace_of_readEnvelope hread)
        have hmem : b ∈ toBytes (envelopeFront e) := hfront ▸ hbegins.subset hb
        obtain ⟨c, hc, rfl⟩ := List.mem_map.1 hmem
        have hlt := envelopeFront_lt e c hc
        rw [UInt8.toNat_ofNat_of_lt' (hlt.trans (by decide)), Char.ofNat_toNat] at hbrace
        rw [hbrace] at hlt
        exact absurd hlt (by decide)
    show (flagJson.fromSlice bytes).filter _ = none
    rw [hnone]
    rfl

/-- A torn write, a whole one that did not return, another torn one: the whole
one is read, and it went into the slot of the first torn one. -/
theorem flags_survive :
    flagJson.Lawful ∧
      readJson flagJson (writeAll flagJson (writeJsonAtomic flagJson (.fresh none) true .returned)
        [(true, .torn 40), (false, .whole), (true, .torn 0)]) = .ok false :=
  ⟨flagJson_lawful,
    (durable_state_survives flagJson_lawful none true
      [(true, .torn 40), (false, .whole), (true, .torn 0)] (by decide)).1.1⟩

end Example

end LocalSearch.Content
