import LocalSearch.Lib.Wire
import LocalSearch.Windows.ReadChanges

/-!
# Decoding journal pages

A page is a position and the records behind it. What the kernel returns is read
with checked accesses; a page is accepted when it is exactly a concatenation of
records.
-/
namespace LocalSearch.Windows

set_option autoImplicit false

open Core Lib

def v2FixedBytes : Nat := 60
def maxRecordBytes : Nat := 1048576

/-- A record with all that the decoder returns of it. -/
structure DecodedRecord extends JournalRecord where
  attributes : BitVec 32
  deriving DecidableEq

/-- The slice operator panics where its range is not in the input. -/
inductive Fault where
  | outOfRange
  | failed (error : PlatformError)

def malformed (detail : String) : Fault := .failed ⟨.io, "decode_usn_record", detail⟩

def slice (input : List UInt8) (start stop : Nat) : Except Fault (List UInt8) :=
  if start ≤ stop ∧ stop ≤ input.length then .ok ((input.drop start).take (stop - start))
  else .error .outOfRange

def bytes (input : List UInt8) (offset length : Nat) : Except Fault (List UInt8) :=
  if offset + length ≤ input.length then .ok ((input.drop offset).take length)
  else .error (malformed "field outside input")

/-- What the `read_*` functions share: the bytes, and their width once more. -/
def readBytes (width : Nat) (detail : String) (input : List UInt8) (offset : Nat) :
    Except Fault Nat := do
  let value ← bytes input offset width
  if value.length = width then .ok (leNat value) else .error (malformed detail)

def readU16 (input : List UInt8) (offset : Nat) : Except Fault Nat :=
  readBytes 2 "u16 width" input offset

def readU32 (input : List UInt8) (offset : Nat) : Except Fault Nat :=
  readBytes 4 "u32 width" input offset

def readU64 (input : List UInt8) (offset : Nat) : Except Fault Nat :=
  readBytes 8 "u64 width" input offset

/-- The signed number with these 64 bits. -/
def signed (n : Nat) : Int64 := (UInt64.ofNat n).toInt64

def readI64 (input : List UInt8) (offset : Nat) : Except Fault Int64 := do
  .ok (signed (← readBytes 8 "i64 width" input offset))

/-- The record at the front of the input, and how many bytes it takes. -/
def decodeV2 (input : List UInt8) : Except Fault (DecodedRecord × Nat) := do
  let length ← readU32 input 0
  if ¬ (v2FixedBytes ≤ length ∧ length ≤ maxRecordBytes) ∨ input.length < length ∨
      length % 8 ≠ 0 then
    .error (malformed "invalid, truncated, oversized, or misaligned record length")
  else do
    let version ← readU16 input 4
    if version ≠ 2 then
      .error (.failed ⟨.unsupported, "decode_usn_record",
        "only USN record version 2 is supported by this spike"⟩)
    else do
      let nameLen ← readU16 input 56
      let nameOffset ← readU16 input 58
      if nameLen % 2 ≠ 0 ∨ nameOffset < v2FixedBytes ∨ length < nameOffset + nameLen then
        .error (malformed "filename range is outside the record")
      else do
        let name ← slice input nameOffset (nameOffset + nameLen)
        let fileReference ← readU64 input 8
        let parentReference ← readU64 input 16
        let position ← readI64 input 24
        let reason ← readU32 input 40
        let attributes ← readU32 input 52
        .ok ({ fileReference, parentReference, position,
               reason := BitVec.ofNat 32 reason
               attributes := BitVec.ofNat 32 attributes
               name := fromUtf16Lossy (leUnits name)
               hadInvalidUtf16 := hasInvalidUtf16 (leUnits name) }, length)

def nameLength (block : List UInt8) : Nat := field block 56 2

def nameOffset (block : List UInt8) : Nat := field block 58 2

def nameUnits (block : List UInt8) : List UInt16 :=
  leUnits ((block.drop (nameOffset block)).take (nameLength block))

/-- These bytes are one record. -/
structure IsRecord (block : List UInt8) : Prop where
  length : field block 0 4 = block.length
  fixed : v2FixedBytes ≤ block.length
  bounded : block.length ≤ maxRecordBytes
  aligned : 8 ∣ block.length
  version : field block 4 2 = 2
  even : 2 ∣ nameLength block
  behind : v2FixedBytes ≤ nameOffset block
  inside : nameOffset block + nameLength block ≤ block.length

/-- What a record says. -/
structure Decodes (block : List UInt8) (record : DecodedRecord) : Prop where
  fileReference : record.fileReference = field block 8 8
  parentReference : record.parentReference = field block 16 8
  position : record.position = signed (field block 24 8)
  reason : record.reason = BitVec.ofNat 32 (field block 40 4)
  attributes : record.attributes = BitVec.ofNat 32 (field block 52 4)
  name : record.name = fromUtf16Lossy (nameUnits block)
  hadInvalidUtf16 : record.hadInvalidUtf16 = true ↔ ∃ i, Unpaired (nameUnits block) i

theorem readBytes_eq {width : Nat} {detail : String} {input : List UInt8} {offset : Nat} :
    readBytes width detail input offset =
      if offset + width ≤ input.length then .ok (field input offset width)
      else .error (malformed "field outside input") := by
  unfold readBytes bytes
  split_ifs with h
  · have hlength : ((input.drop offset).take width).length = width := by
      rw [List.length_take, List.length_drop]
      omega
    rw [ok_bind, if_pos hlength]
    rfl
  · rfl

theorem readBytes_ok {width : Nat} {detail : String} {input : List UInt8} {offset : Nat}
    (h : offset + width ≤ input.length) :
    readBytes width detail input offset = .ok (field input offset width) := by
  rw [readBytes_eq, if_pos h]

/-- What the decoder builds from an input whose ranges are sound. -/
def decodedAt (input : List UInt8) : DecodedRecord where
  fileReference := field input 8 8
  parentReference := field input 16 8
  position := signed (field input 24 8)
  reason := BitVec.ofNat 32 (field input 40 4)
  attributes := BitVec.ofNat 32 (field input 52 4)
  name := fromUtf16Lossy (nameUnits input)
  hadInvalidUtf16 := hasInvalidUtf16 (nameUnits input)

/-- The length at the front of the input is one that a record may have. -/
def LengthSound (input : List UInt8) : Prop :=
  (v2FixedBytes ≤ field input 0 4 ∧ field input 0 4 ≤ maxRecordBytes) ∧
    field input 0 4 ≤ input.length ∧ field input 0 4 % 8 = 0

theorem decodeV2_sound {input : List UInt8} (h : LengthSound input) :
    decodeV2 input =
      if field input 4 2 ≠ 2 then
        .error (.failed ⟨.unsupported, "decode_usn_record",
          "only USN record version 2 is supported by this spike"⟩)
      else if nameLength input % 2 ≠ 0 ∨ nameOffset input < v2FixedBytes ∨
          field input 0 4 < nameOffset input + nameLength input then
        .error (malformed "filename range is outside the record")
      else .ok (decodedAt input, field input 0 4) := by
  obtain ⟨⟨hfixed, hbounded⟩, hinside, haligned⟩ := h
  have hroom : 60 ≤ input.length := Nat.le_trans hfixed hinside
  have hpasses : ¬ (¬ (v2FixedBytes ≤ field input 0 4 ∧ field input 0 4 ≤ maxRecordBytes) ∨
      input.length < field input 0 4 ∨ field input 0 4 % 8 ≠ 0) := by
    rintro (hrange | hshort | hodd)
    · exact hrange ⟨hfixed, hbounded⟩
    · omega
    · exact hodd haligned
  unfold decodeV2 readI64 readU64 readU32 readU16
  rw [readBytes_ok (by omega), ok_bind, if_neg hpasses, readBytes_ok (by omega), ok_bind]
  refine if_congr Iff.rfl rfl ?_
  rw [readBytes_ok (by omega), ok_bind, readBytes_ok (by omega), ok_bind]
  refine ite_congr rfl (fun _ => rfl) fun hname => ?_
  obtain ⟨-, hname⟩ := not_or.mp hname
  obtain ⟨-, hend⟩ := not_or.mp hname
  have hwithin : field input 58 2 + field input 56 2 ≤ input.length :=
    Nat.le_trans (Nat.le_of_not_lt hend) hinside
  have hslice : slice input (field input 58 2) (field input 58 2 + field input 56 2) =
      .ok ((input.drop (field input 58 2)).take (field input 56 2)) := by
    unfold slice
    rw [if_pos ⟨Nat.le_add_right _ _, hwithin⟩, Nat.add_sub_cancel_left]
  rw [hslice, ok_bind, readBytes_ok (by omega), ok_bind, readBytes_ok (by omega), ok_bind,
    readBytes_ok (by omega), ok_bind, ok_bind, readBytes_ok (by omega), ok_bind,
    readBytes_ok (by omega), ok_bind]
  rfl

theorem decodeV2_unsound {input : List UInt8} (h : ¬ LengthSound input) :
    ∃ detail, decodeV2 input = .error (malformed detail) := by
  unfold decodeV2 readU32
  rw [readBytes_eq]
  split_ifs with hread
  · rw [ok_bind, if_pos]
    · exact ⟨_, rfl⟩
    · by_contra hpasses
      obtain ⟨hrange, hpasses⟩ := not_or.mp hpasses
      obtain ⟨hinside, haligned⟩ := not_or.mp hpasses
      exact h ⟨Decidable.of_not_not hrange, Nat.le_of_not_lt hinside, Decidable.of_not_not haligned⟩
  · exact ⟨_, rfl⟩

theorem decodes_iff {block : List UInt8} {record : DecodedRecord} :
    Decodes block record ↔ decodedAt block = record := by
  constructor
  · intro h
    obtain ⟨⟨⟨fileReference, parentReference, reason, name, hadInvalidUtf16⟩, position⟩, attributes⟩ :=
      record
    obtain ⟨rfl, rfl, rfl, rfl, rfl, rfl, hinvalid⟩ := h
    have hflag : hasInvalidUtf16 (nameUnits block) = hadInvalidUtf16 :=
      Bool.eq_iff_iff.mpr (hasInvalidUtf16_iff.trans hinvalid.symm)
    unfold decodedAt
    rw [hflag]
  · rintro rfl
    exact ⟨rfl, rfl, rfl, rfl, rfl, rfl, hasInvalidUtf16_iff⟩

theorem forall₂_decodes {blocks : List (List UInt8)} {records : List DecodedRecord} :
    List.Forall₂ Decodes blocks records ↔ blocks.map decodedAt = records := by
  have hsame : Decodes = fun block record => decodedAt block = record :=
    funext₂ fun _ _ => propext decodes_iff
  rw [hsame, ← List.forall₂_map_left_iff, List.forall₂_eq_eq_eq]

section Front

variable {block : List UInt8} (rest : List UInt8)

theorem nameOffset_append (h : v2FixedBytes ≤ block.length) :
    nameOffset (block ++ rest) = nameOffset block :=
  field_append h

theorem nameLength_append (h : v2FixedBytes ≤ block.length) :
    nameLength (block ++ rest) = nameLength block :=
  field_append (Nat.le_trans (by decide) h)

/-- What is read from a record does not depend on what is behind it. -/
theorem decodedAt_append (hfixed : v2FixedBytes ≤ block.length)
    (hinside : nameOffset block + nameLength block ≤ block.length) :
    decodedAt (block ++ rest) = decodedAt block := by
  have hfield : ∀ offset width, offset + width ≤ v2FixedBytes →
      field (block ++ rest) offset width = field block offset width :=
    fun offset width hrange => field_append (Nat.le_trans hrange hfixed)
  have hunits : nameUnits (block ++ rest) = nameUnits block := by
    unfold nameUnits
    rw [nameOffset_append rest hfixed, nameLength_append rest hfixed,
      List.drop_append_of_le_length (by omega), List.take_append_of_le_length]
    rw [List.length_drop]
    omega
  unfold decodedAt
  rw [hunits, hfield 8 8 (by decide), hfield 16 8 (by decide), hfield 24 8 (by decide),
    hfield 40 4 (by decide), hfield 52 4 (by decide)]

theorem decodeV2_block (h : IsRecord block) :
    decodeV2 (block ++ rest) = .ok (decodedAt block, block.length) := by
  have hlength : field (block ++ rest) 0 4 = block.length := by
    rw [field_append (Nat.le_trans (by decide) h.fixed), h.length]
  have hsound : LengthSound (block ++ rest) := by
    unfold LengthSound
    rw [hlength, List.length_append]
    exact ⟨⟨h.fixed, h.bounded⟩, Nat.le_add_right _ _, Nat.mod_eq_zero_of_dvd h.aligned⟩
  have hversion : field (block ++ rest) 4 2 = 2 := by
    rw [field_append (Nat.le_trans (by decide) h.fixed), h.version]
  have hname : ¬ (nameLength (block ++ rest) % 2 ≠ 0 ∨ nameOffset (block ++ rest) < v2FixedBytes ∨
      block.length < nameOffset (block ++ rest) + nameLength (block ++ rest)) := by
    rw [nameOffset_append rest h.fixed, nameLength_append rest h.fixed]
    rintro (hodd | hfront | houtside)
    · exact hodd (Nat.mod_eq_zero_of_dvd h.even)
    · exact Nat.not_lt.mpr h.behind hfront
    · exact Nat.not_lt.mpr h.inside houtside
  rw [decodeV2_sound hsound, if_neg (not_not_intro hversion), hlength, if_neg hname,
    decodedAt_append rest h.fixed h.inside]

end Front

theorem decodeV2_ok {input : List UInt8} {record : DecodedRecord} {consumed : Nat}
    (h : decodeV2 input = .ok (record, consumed)) :
    ∃ block rest, input = block ++ rest ∧ IsRecord block ∧ record = decodedAt block ∧
      consumed = block.length := by
  by_cases hsound : LengthSound input
  · rw [decodeV2_sound hsound] at h
    obtain ⟨hversion, h⟩ := guard_ok.mp h
    obtain ⟨hname, h⟩ := guard_ok.mp h
    obtain ⟨rfl, rfl⟩ := Prod.mk.inj (Except.ok.inj h)
    obtain ⟨⟨hfixed, hbounded⟩, hinside, haligned⟩ := hsound
    obtain ⟨hodd, hname⟩ := not_or.mp hname
    obtain ⟨hfront, houtside⟩ := not_or.mp hname
    obtain ⟨block, rest, rfl, hlength⟩ : ∃ block rest, input = block ++ rest ∧
        block.length = field input 0 4 :=
      ⟨input.take (field input 0 4), input.drop (field input 0 4), (List.take_append_drop _ _).symm,
        by rw [List.length_take, Nat.min_eq_left hinside]⟩
    have hfixed' : v2FixedBytes ≤ block.length := hlength ▸ hfixed
    rw [nameOffset_append rest hfixed'] at hfront houtside
    rw [nameLength_append rest hfixed'] at hodd houtside
    rw [← hlength] at hbounded haligned houtside
    rw [field_append (Nat.le_trans (by decide) hfixed')] at hversion
    have hrecord : IsRecord block := {
      length := by rw [hlength, field_append (Nat.le_trans (by decide) hfixed')]
      fixed := hfixed'
      bounded := hbounded
      aligned := Nat.dvd_of_mod_eq_zero haligned
      version := Decidable.of_not_not hversion
      even := Nat.dvd_of_mod_eq_zero (Decidable.of_not_not hodd)
      behind := Nat.le_of_not_lt hfront
      inside := Nat.le_of_not_lt houtside }
    exact ⟨block, rest, rfl, hrecord, decodedAt_append rest hfixed' hrecord.inside, hlength.symm⟩
  · obtain ⟨detail, herror⟩ := decodeV2_unsound hsound
    rw [herror] at h
    cases h

/-- No range of the decoder leaves the input. -/
theorem decodeV2_inRange (input : List UInt8) : decodeV2 input ≠ .error .outOfRange := by
  by_cases hsound : LengthSound input
  · rw [decodeV2_sound hsound]
    split_ifs <;> exact nofun
  · obtain ⟨detail, herror⟩ := decodeV2_unsound hsound
    rw [herror]
    exact nofun

def decodeRecords (input : List UInt8) (offset : Nat) (records : List DecodedRecord) :
    Except Fault (List DecodedRecord) :=
  if offset < input.length then
    match slice input offset input.length with
    | .error fault => .error fault
    | .ok remaining =>
        match _hdecode : decodeV2 remaining with
        | .error fault => .error fault
        | .ok (record, consumed) => decodeRecords input (offset + consumed) (records ++ [record])
  else .ok records
termination_by input.length - offset
decreasing_by
  obtain ⟨block, rest, -, hrecord, -, rfl⟩ := decodeV2_ok _hdecode
  have hfixed : 60 ≤ block.length := hrecord.fixed
  omega

def decodePage (input : List UInt8) : Except Fault (Int64 × List DecodedRecord) := do
  let nextPosition ← readI64 input 0
  let records ← decodeRecords input 8 []
  .ok (nextPosition, records)

theorem slice_drop {input : List UInt8} {offset : Nat} (h : offset ≤ input.length) :
    slice input offset input.length = .ok (input.drop offset) := by
  unfold slice
  rw [if_pos ⟨h, Nat.le_refl _⟩, List.take_of_length_le]
  rw [List.length_drop]

theorem decodeRecords_end {input : List UInt8} {offset : Nat} {records : List DecodedRecord}
    (h : input.length ≤ offset) : decodeRecords input offset records = .ok records := by
  rw [decodeRecords, if_neg (Nat.not_lt.mpr h)]

theorem decodeRecords_step {input : List UInt8} {offset : Nat} {records : List DecodedRecord}
    (h : offset < input.length) :
    decodeRecords input offset records = (do
      let (record, consumed) ← decodeV2 (input.drop offset)
      decodeRecords input (offset + consumed) (records ++ [record])) := by
  rw [decodeRecords, if_pos h, slice_drop (Nat.le_of_lt h)]
  dsimp only
  split
  next fault hdecode => rw [hdecode, error_bind]
  next record consumed hdecode => rw [hdecode, ok_bind]

/-- A concatenation of records is read record by record. -/
theorem decodeRecords_blocks {blocks : List (List UInt8)} (before : List UInt8)
    (records : List DecodedRecord) (h : ∀ block ∈ blocks, IsRecord block) :
    decodeRecords (before ++ blocks.flatten) before.length records =
      .ok (records ++ blocks.map decodedAt) := by
  induction blocks generalizing before records with
  | nil =>
    rw [List.flatten_nil, List.append_nil, List.map_nil, List.append_nil]
    exact decodeRecords_end (Nat.le_refl _)
  | cons block rest ih =>
    have hrecord : IsRecord block := h block List.mem_cons_self
    have hfixed : 60 ≤ block.length := hrecord.fixed
    have hmore : before.length < (before ++ (block :: rest).flatten).length := by
      rw [List.flatten_cons, List.length_append, List.length_append]
      omega
    rw [decodeRecords_step hmore, List.drop_left, List.flatten_cons, decodeV2_block _ hrecord,
      ok_bind, ← List.append_assoc]
    dsimp only
    rw [← List.length_append,
      ih (before ++ block) _ fun other hother => h other (List.mem_cons_of_mem _ hother),
      List.append_assoc]
    rfl

/-- What was accepted is a concatenation of records. -/
theorem decodeRecords_ok {input : List UInt8} {offset : Nat} {records result : List DecodedRecord}
    (h : decodeRecords input offset records = .ok result) :
    ∃ blocks : List (List UInt8), input.drop offset = blocks.flatten ∧
      (∀ block ∈ blocks, IsRecord block) ∧ result = records ++ blocks.map decodedAt := by
  induction hsize : input.length - offset using Nat.strongRecOn generalizing offset records with
  | ind size ih =>
    by_cases hmore : offset < input.length
    · rw [decodeRecords_step hmore] at h
      obtain ⟨⟨record, consumed⟩, hdecode, h⟩ := bind_ok.mp h
      obtain ⟨block, rest, hinput, hrecord, rfl, rfl⟩ := decodeV2_ok hdecode
      have hfixed : 60 ≤ block.length := hrecord.fixed
      obtain ⟨blocks, hrest, hblocks, rfl⟩ := ih _ (by omega) h rfl
      refine ⟨block :: blocks, ?_, ?_, ?_⟩
      · rw [← List.drop_drop, hinput, List.drop_left] at hrest
        rw [hinput, hrest, List.flatten_cons]
      · rintro other (_ | ⟨_, hother⟩)
        · exact hrecord
        · exact hblocks other hother
      · rw [List.map_cons, List.append_assoc, List.singleton_append]
    · rw [decodeRecords_end (Nat.le_of_not_lt hmore)] at h
      obtain rfl := Except.ok.inj h
      refine ⟨[], ?_, nofun, (List.append_nil _).symm⟩
      rw [List.drop_of_length_le (Nat.le_of_not_lt hmore), List.flatten_nil]

theorem decodeRecords_inRange (input : List UInt8) (offset : Nat) (records : List DecodedRecord) :
    decodeRecords input offset records ≠ .error .outOfRange := by
  induction hsize : input.length - offset using Nat.strongRecOn generalizing offset records with
  | ind size ih =>
    by_cases hmore : offset < input.length
    · rw [decodeRecords_step hmore]
      intro h
      rcases bind_error.mp h with h | ⟨⟨record, consumed⟩, hdecode, h⟩
      · exact decodeV2_inRange _ h
      · obtain ⟨block, rest, -, hrecord, -, rfl⟩ := decodeV2_ok hdecode
        have hfixed : 60 ≤ block.length := hrecord.fixed
        exact ih _ (by omega) _ _ rfl h
    · rw [decodeRecords_end (Nat.le_of_not_lt hmore)]
      exact nofun

/-- The decoder accepts exactly a position and the records behind it, and never
reads outside its input. -/
theorem decodePage_exact (input : List UInt8) :
    decodePage input ≠ .error .outOfRange ∧
      ∀ position records, decodePage input = .ok (position, records) ↔
        ∃ (header : List UInt8) (blocks : List (List UInt8)),
          input = header ++ blocks.flatten ∧ header.length = 8 ∧ position = signed (leNat header) ∧
          (∀ block ∈ blocks, IsRecord block) ∧ List.Forall₂ Decodes blocks records := by
  have hheader : readI64 input 0 =
      if 8 ≤ input.length then .ok (signed (field input 0 8))
      else .error (malformed "field outside input") := by
    unfold readI64
    rw [readBytes_eq]
    split_ifs <;> rfl
  have hfront : field input 0 8 = leNat (input.take 8) := rfl
  refine ⟨fun h => ?_, fun position records => ⟨fun h => ?_, ?_⟩⟩
  · rcases bind_error.mp h with h | ⟨nextPosition, -, h⟩
    · rw [hheader] at h
      split_ifs at h
      cases h
    · rcases bind_error.mp h with h | ⟨records, -, h⟩
      · exact decodeRecords_inRange _ _ _ h
      · cases h
  · obtain ⟨nextPosition, hposition, h⟩ := bind_ok.mp h
    obtain ⟨decoded, hdecoded, h⟩ := bind_ok.mp h
    obtain ⟨rfl, rfl⟩ := Prod.mk.inj (Except.ok.inj h)
    rw [hheader] at hposition
    split_ifs at hposition with hlong
    obtain rfl := Except.ok.inj hposition
    obtain ⟨blocks, hrest, hblocks, rfl⟩ := decodeRecords_ok hdecoded
    refine ⟨input.take 8, blocks, ?_, ?_, rfl, hblocks, ?_⟩
    · rw [← hrest, List.take_append_drop]
    · rw [List.length_take, Nat.min_eq_left hlong]
    · exact forall₂_decodes.mpr rfl
  · rintro ⟨header, blocks, rfl, height, rfl, hblocks, hdecodes⟩
    have hlong : 8 ≤ (header ++ blocks.flatten).length := by
      rw [List.length_append]
      omega
    have hrecords := decodeRecords_blocks header [] hblocks
    rw [height, List.nil_append, forall₂_decodes.mp hdecodes] at hrecords
    unfold decodePage
    rw [hheader, if_pos hlong, ok_bind, hrecords, ok_bind, hfront, List.take_left' height]

end LocalSearch.Windows
