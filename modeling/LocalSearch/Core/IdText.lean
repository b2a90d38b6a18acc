import LocalSearch.Core.Json
import LocalSearch.Lib.Frame
import LocalSearch.Lib.Result

/-!
# Identifiers as text

An identifier is written as the tag of its type and thirty-two lower-case digits. The
parser reads digits of either case: what it accepts is what an identifier is written as,
up to the case of the digits, so a text denotes one identifier of one type.
-/
namespace LocalSearch.Core

set_option autoImplicit false

open Lib

inductive IdParseError where
  | invalidPrefix (kind : String) (expected : String)
  | invalidLength (kind : String) (expected actual : Nat)
  | invalidHex (kind : String) (offset : Nat) (byte : UInt8)
  deriving DecidableEq, Repr

def IdKind.noun : IdKind → String
  | .machine => "machine ID"
  | .volume => "volume ID"
  | .file => "file ID"
  | .link => "file-link ID"
  | .document => "document ID"

def hexLength : Nat := 32

def hexNibble (byte : UInt8) : Option Nat :=
  let digit := byte.toNat
  if 48 ≤ digit ∧ digit ≤ 57 then some (digit - 48)
  else if 97 ≤ digit ∧ digit ≤ 102 then some (digit - 97 + 10)
  else if 65 ≤ digit ∧ digit ≤ 70 then some (digit - 65 + 10)
  else none

/-- `str::as_bytes`. -/
def utf8 (text : List Char) : List UInt8 := text.flatMap String.utf8EncodeChar

/-- The loop of `parse_id`: one byte for every two digits. -/
def decodePairs (kind : IdKind) (offset : Nat) : List UInt8 → Except IdParseError (List UInt8)
  | high :: low :: rest =>
      match hexNibble high, hexNibble low with
      | none, _ => .error (.invalidHex kind.noun offset high)
      | some _, none => .error (.invalidHex kind.noun (offset + 1) low)
      | some upper, some lower => do
          let decoded ← decodePairs kind (offset + 2) rest
          .ok (UInt8.ofNat (16 * upper + lower) :: decoded)
  | _ => .ok []

def parseId (input : String) (kind : IdKind) : Except IdParseError (List UInt8) :=
  if kind.tag.toList <+: input.toList then
    let encoded := utf8 (input.toList.drop kind.tag.toList.length)
    if encoded.length ≠ hexLength then
      .error (.invalidLength kind.noun hexLength encoded.length)
    else decodePairs kind 0 encoded
  else .error (.invalidPrefix kind.noun kind.tag)

namespace Id128

variable {kind : IdKind}

def fromBytes (bytes : List UInt8) : Id128 kind := fromU128 (leNat bytes.reverse)

/-- `FromStr`. -/
def fromStr (input : String) : Except IdParseError (Id128 kind) :=
  (parseId input kind).map fromBytes

end Id128

theorem getElem_leBytes {width : Nat} (n i : Nat) (h : i < (leBytes width n).length) :
    (leBytes width n)[i] = UInt8.ofNat (n / 256 ^ i) := by
  induction width generalizing n i with
  | zero => cases h
  | succ width ih =>
    cases i with
    | zero => simp [leBytes]
    | succ i =>
      simp only [leBytes, List.getElem_cons_succ]
      rw [ih, Nat.div_div_eq_div_mul, ← Nat.pow_succ']

namespace Id128

variable {kind : IdKind}

theorem asBytes_eq (id : Id128 kind) : id.asBytes = (leBytes 16 id.asU128).reverse := by
  refine List.ext_getElem (by simp [asBytes]) fun i _ _ => ?_
  simp only [asBytes, List.getElem_map, List.getElem_range, List.getElem_reverse, getElem_leBytes,
    length_leBytes]

theorem fromBytes_asBytes (id : Id128 kind) : fromBytes id.asBytes = id := by
  apply asU128_injective
  have hbits : id.asU128 < 256 ^ 16 := id.bits.isLt
  rw [asBytes_eq, fromBytes, List.reverse_reverse, leNat_leBytes hbits]
  exact Nat.mod_eq_of_lt hbits

theorem asBytes_fromBytes {bytes : List UInt8} (h : bytes.length = 16) :
    (fromBytes bytes : Id128 kind).asBytes = bytes := by
  have hlength : bytes.reverse.length = 16 := by rw [List.length_reverse, h]
  have hbound : leNat bytes.reverse < 2 ^ 128 := by
    have hlt := leNat_lt bytes.reverse
    rw [hlength] at hlt
    exact hlt
  have hvalue : (fromBytes bytes : Id128 kind).asU128 = leNat bytes.reverse :=
    Nat.mod_eq_of_lt hbound
  rw [asBytes_eq, hvalue, ← hlength, leBytes_leNat, List.reverse_reverse]

end Id128

/-- The two digits of a byte. -/
def hexChars (byte : UInt8) : List Char := [hexDigit (byte.toNat / 16), hexDigit byte.toNat]

theorem utf8_ascii {c : Char} (h : c.toNat < 128) (rest : List Char) :
    utf8 (c :: rest) = UInt8.ofNat c.toNat :: utf8 rest := by
  have hsmall : c.val.toNat ≤ 127 := Nat.le_of_lt_succ h
  show String.utf8EncodeChar c ++ _ = _
  rw [String.utf8EncodeChar]
  rw [if_pos hsmall]
  rfl

/-- Another character starts with a byte that is no digit. -/
theorem utf8_wide {c : Char} (h : 128 ≤ c.toNat) (rest : List Char) :
    ∃ first second bytes, utf8 (c :: rest) = first :: second :: bytes ∧ hexNibble first = none := by
  have hlead : ∀ n, 192 ≤ n → n < 256 → hexNibble (UInt8.ofNat n) = none := by
    intro n hlow hhigh
    have hvalue : (UInt8.ofNat n).toNat = n := Nat.mod_eq_of_lt hhigh
    unfold hexNibble
    dsimp only
    rw [hvalue, if_neg (by omega), if_neg (by omega), if_neg (by omega)]
  have hlarge : ¬ c.val.toNat ≤ 127 := by
    have : c.toNat = c.val.toNat := rfl
    omega
  show ∃ first second bytes, String.utf8EncodeChar c ++ utf8 rest = _ ∧ _
  rw [String.utf8EncodeChar]
  rw [if_neg hlarge]
  split
  · exact ⟨_, _, _, rfl, hlead _ (by omega) (by omega)⟩
  · split
    · exact ⟨_, _, _, rfl, hlead _ (by omega) (by omega)⟩
    · exact ⟨_, _, _, rfl, hlead _ (by omega) (by omega)⟩

theorem hexNibble_eq_some {c : Char} (h : c.toNat < 128) {v : Nat} :
    hexNibble (UInt8.ofNat c.toNat) = some v ↔ v < 16 ∧ c.toLower = hexDigit v := by
  have htable : ∀ n < 128, ∀ v < 16,
      hexNibble (UInt8.ofNat n) = some v ↔ (Char.ofNat n).toLower = hexDigit v := by
    decide +kernel
  have hbound : ∀ n < 128, ∀ v, hexNibble (UInt8.ofNat n) = some v → v < 16 := by
    intro n _ v hv
    unfold hexNibble at hv
    dsimp only at hv
    split_ifs at hv
    all_goals
      have := Option.some.inj hv
      omega
  have hc : Char.ofNat c.toNat = c := Char.ofNat_toNat c
  constructor
  · intro hv
    have hv16 := hbound c.toNat h v hv
    have hdigit := (htable c.toNat h v hv16).mp hv
    rw [hc] at hdigit
    exact ⟨hv16, hdigit⟩
  · intro hv
    apply (htable c.toNat h v hv.1).mpr
    rw [hc]
    exact hv.2

/-- No other character is a digit in another case. -/
theorem toLower_wide {c : Char} (h : 128 ≤ c.toNat) (n : Nat) : c.toLower ≠ hexDigit n := by
  have hdigits : ∀ v < 16, (hexDigit v).toNat < 128 := by decide
  have hsame : c.toLower = c := by
    unfold Char.toLower
    rw [dif_neg]
    intro hupper
    have hnat : c.toNat ≤ 90 := hupper.2
    omega
  have hmod : hexDigit n = hexDigit (n % 16) := by
    unfold hexDigit
    rw [Nat.mod_mod]
  intro hdigit
  rw [hsame, hmod] at hdigit
  have hsmall := hdigits (n % 16) (Nat.mod_lt _ (by decide))
  rw [← hdigit] at hsmall
  omega

/-- One digit more of a text whose bytes are all digits. -/
theorem utf8_cons (c : Char) (rest : List Char) :
    (∃ first second bytes, utf8 (c :: rest) = first :: second :: bytes ∧ hexNibble first = none ∧
      ∀ n, c.toLower ≠ hexDigit n) ∨
    ∃ first, utf8 (c :: rest) = first :: utf8 rest ∧
      ∀ v, hexNibble first = some v ↔ v < 16 ∧ c.toLower = hexDigit v := by
  by_cases hascii : c.toNat < 128
  · exact Or.inr ⟨_, utf8_ascii hascii rest, fun v => hexNibble_eq_some hascii⟩
  · obtain ⟨first, second, bytes, hbytes, hnone⟩ := utf8_wide (Nat.le_of_not_lt hascii) rest
    exact Or.inl ⟨first, second, bytes, hbytes, hnone, toLower_wide (Nat.le_of_not_lt hascii)⟩

/-- Two bytes are read as one, when both are digits. -/
theorem decodePairs_cons {kind : IdKind} {offset : Nat} {first second : UInt8} {tail bytes : List UInt8} :
    decodePairs kind offset (first :: second :: tail) = .ok bytes ↔
      ∃ upper lower rest, hexNibble first = some upper ∧ hexNibble second = some lower ∧
        decodePairs kind (offset + 2) tail = .ok rest ∧
        bytes = UInt8.ofNat (16 * upper + lower) :: rest := by
  rw [decodePairs]
  constructor
  · intro h
    cases hfirst : hexNibble first with
    | none =>
      rw [hfirst] at h
      cases h
    | some upper =>
      cases hsecond : hexNibble second with
      | none =>
        rw [hfirst, hsecond] at h
        cases h
      | some lower =>
        rw [hfirst, hsecond] at h
        obtain ⟨rest, hrest, hbytes⟩ := bind_ok.mp h
        exact ⟨upper, lower, rest, rfl, rfl, hrest, (Except.ok.inj hbytes).symm⟩
  · intro h
    obtain ⟨upper, lower, rest, hfirst, hsecond, hrest, rfl⟩ := h
    rw [hfirst, hsecond]
    dsimp only
    rw [hrest]
    rfl

/-- The digits of a byte are those of its halves. -/
theorem hexChars_eq_iff {high low : Char} {byte : UInt8} :
    [high, low] = hexChars byte ↔ ∃ upper lower, (upper < 16 ∧ high = hexDigit upper) ∧
      (lower < 16 ∧ low = hexDigit lower) ∧ byte = UInt8.ofNat (16 * upper + lower) := by
  have hbyte := byte.toNat_lt
  constructor
  · intro h
    obtain ⟨hhigh, htail⟩ := List.cons.inj h
    have hlow := (List.cons.inj htail).1
    refine ⟨byte.toNat / 16, byte.toNat % 16, ⟨by omega, hhigh⟩, ⟨by omega, ?_⟩, ?_⟩
    · rw [hlow, hexDigit, hexDigit, Nat.mod_mod]
    · rw [Nat.div_add_mod, UInt8.ofNat_toNat]
  · intro h
    obtain ⟨upper, lower, ⟨hupper, rfl⟩, ⟨hlower, rfl⟩, rfl⟩ := h
    have hvalue : (UInt8.ofNat (16 * upper + lower)).toNat = 16 * upper + lower :=
      Nat.mod_eq_of_lt (by omega)
    have hquot : (16 * upper + lower) / 16 = upper := by omega
    have hlast : hexDigit (16 * upper + lower) = hexDigit lower := by
      unfold hexDigit
      rw [Nat.mul_add_mod]
    rw [hexChars, hvalue, hquot, hlast]

/-- Two characters are read as the byte that has them as its digits, in either case. -/
theorem decodePairs_utf8 {kind : IdKind} {offset : Nat} {c d : Char} {payload : List Char}
    {bytes : List UInt8} :
    decodePairs kind offset (utf8 (c :: d :: payload)) = .ok bytes ↔
      ∃ byte rest, [c.toLower, d.toLower] = hexChars byte ∧
        decodePairs kind (offset + 2) (utf8 payload) = .ok rest ∧ bytes = byte :: rest := by
  rcases utf8_cons c (d :: payload) with
    ⟨first, second, tail, hutf8, hnone, hwide⟩ | ⟨first, hutf8, hdigit⟩
  · rw [hutf8, decodePairs_cons]
    refine iff_of_false (fun h => ?_) fun h => ?_
    · obtain ⟨upper, lower, rest, hfirst, -⟩ := h
      rw [hnone] at hfirst
      cases hfirst
    · obtain ⟨byte, rest, hdigits, -⟩ := h
      exact hwide _ (List.cons.inj hdigits).1
  · rcases utf8_cons d payload with
      ⟨second, third, tail, hutf8', hnone, hwide⟩ | ⟨second, hutf8', hdigit'⟩
    · rw [hutf8, hutf8', decodePairs_cons]
      refine iff_of_false (fun h => ?_) fun h => ?_
      · obtain ⟨upper, lower, rest, -, hsecond, -⟩ := h
        rw [hnone] at hsecond
        cases hsecond
      · obtain ⟨byte, rest, hdigits, -⟩ := h
        exact hwide _ (List.cons.inj (List.cons.inj hdigits).2).1
    · rw [hutf8, hutf8', decodePairs_cons]
      constructor
      · intro h
        obtain ⟨upper, lower, rest, hfirst, hsecond, hrest, hbytes⟩ := h
        refine ⟨_, rest, hexChars_eq_iff.mpr ?_, hrest, hbytes⟩
        exact ⟨upper, lower, (hdigit upper).mp hfirst, (hdigit' lower).mp hsecond, rfl⟩
      · intro h
        obtain ⟨byte, rest, hdigits, hrest, hbytes⟩ := h
        obtain ⟨upper, lower, hupper, hlower, rfl⟩ := hexChars_eq_iff.mp hdigits
        exact ⟨upper, lower, rest, (hdigit upper).mpr hupper, (hdigit' lower).mpr hlower, hrest,
          hbytes⟩

theorem utf8_length_cons (c : Char) (payload : List Char) :
    (utf8 payload).length < (utf8 (c :: payload)).length := by
  have hsize : 0 < (String.utf8EncodeChar c).length := by
    rw [String.length_utf8EncodeChar]
    exact Char.utf8Size_pos c
  show _ < (String.utf8EncodeChar c ++ utf8 payload).length
  rw [List.length_append]
  omega

theorem utf8_length_digit {c : Char} {n : Nat} (h : c.toLower = hexDigit n) (payload : List Char) :
    (utf8 (c :: payload)).length = (utf8 payload).length + 1 := by
  rcases utf8_cons c payload with ⟨first, second, tail, -, -, hwide⟩ | ⟨first, hutf8, -⟩
  · exact absurd h (hwide n)
  · rw [hutf8, List.length_cons]

theorem utf8_length_digits {payload : List Char}
    (h : ∀ c ∈ payload, ∃ n, c.toLower = hexDigit n) : (utf8 payload).length = payload.length := by
  induction payload with
  | nil => rfl
  | cons c payload ih =>
    obtain ⟨n, hdigit⟩ := h c List.mem_cons_self
    rw [utf8_length_digit hdigit, ih fun d hd => h d (List.mem_cons_of_mem _ hd), List.length_cons]

theorem toLower_hexDigit (n : Nat) : (hexDigit n).toLower = hexDigit n := by
  have hdigits : ∀ v < 16, (hexDigit v).toLower = hexDigit v := by decide
  have hmod : hexDigit n = hexDigit (n % 16) := by
    unfold hexDigit
    rw [Nat.mod_mod]
  rw [hmod]
  exact hdigits _ (Nat.mod_lt _ (by decide))

theorem decodePairs_length {kind : IdKind} {offset : Nat} {bytes decoded : List UInt8}
    (h : decodePairs kind offset bytes = .ok decoded) : decoded.length = bytes.length / 2 := by
  induction decoded generalizing offset bytes with
  | nil =>
    match bytes with
    | [] | [_] => simp
    | first :: second :: tail =>
      obtain ⟨_, _, _, -, -, -, heq⟩ := decodePairs_cons.mp h
      cases heq
  | cons byte decoded ih =>
    match bytes with
    | [] | [_] => cases h
    | first :: second :: tail =>
      obtain ⟨_, _, rest, -, -, htail, heq⟩ := decodePairs_cons.mp h
      obtain ⟨-, rfl⟩ := List.cons.inj heq
      rw [List.length_cons, List.length_cons, List.length_cons, ih htail]
      omega

/-- A text of as many bytes as there are digits is read as the bytes with these digits. -/
theorem decodePairs_ok_iff (kind : IdKind) (offset : Nat) {payload : List Char} (bytes : List UInt8)
    (hlength : (utf8 payload).length = 2 * bytes.length) :
    decodePairs kind offset (utf8 payload) = .ok bytes ↔
      payload.map Char.toLower = bytes.flatMap hexChars := by
  induction bytes generalizing offset payload with
  | nil =>
    cases payload with
    | nil => exact iff_of_true rfl rfl
    | cons c rest =>
      have := utf8_length_cons c rest
      rw [hlength] at this
      cases this
  | cons byte bytes ih =>
    match payload with
    | [] => cases hlength
    | [c] =>
      rcases utf8_cons c [] with ⟨first, second, tail, hutf8, hnone, hwide⟩ | ⟨first, hutf8, -⟩
      · rw [hutf8, decodePairs_cons]
        refine iff_of_false (fun h => ?_) fun h => hwide _ (List.cons.inj h).1
        obtain ⟨upper, lower, rest, hfirst, -⟩ := h
        rw [hnone] at hfirst
        cases hfirst
      · have hone : (utf8 ([] : List Char)).length = 0 := rfl
        rw [hutf8, List.length_cons, List.length_cons, hone] at hlength
        omega
    | c :: d :: payload =>
      rw [decodePairs_utf8]
      have hshorter : [c.toLower, d.toLower] = hexChars byte →
          (utf8 payload).length = 2 * bytes.length := by
        intro hdigits
        obtain ⟨hhigh, htail⟩ := List.cons.inj hdigits
        rw [utf8_length_digit hhigh, utf8_length_digit (List.cons.inj htail).1,
          List.length_cons] at hlength
        omega
      constructor
      · intro h
        obtain ⟨byte', rest, hdigits, hrest, heq⟩ := h
        obtain ⟨rfl, rfl⟩ := List.cons.inj heq
        show [c.toLower, d.toLower] ++ payload.map Char.toLower = hexChars byte ++ bytes.flatMap hexChars
        rw [hdigits, (ih (offset + 2) (hshorter hdigits)).mp hrest]
      · intro h
        obtain ⟨hhigh, htail⟩ := List.cons.inj h
        obtain ⟨hlow, hrest⟩ := List.cons.inj htail
        have hdigits : [c.toLower, d.toLower] = hexChars byte := by rw [hhigh, hlow, hexChars]
        exact ⟨byte, bytes, hdigits, (ih (offset + 2) (hshorter hdigits)).mpr hrest, rfl⟩

/-- The error is about the first byte that is no digit. -/
theorem decodePairs_error {kind : IdKind} {offset : Nat} {bytes : List UInt8} {error : IdParseError}
    (h : decodePairs kind offset bytes = .error error) :
    ∃ i byte, error = .invalidHex kind.noun (offset + i) byte ∧ bytes[i]? = some byte ∧
      hexNibble byte = none ∧ ∀ j < i, ∃ digit value, bytes[j]? = some digit ∧
        hexNibble digit = some value := by
  fun_induction decodePairs kind offset bytes with
  | case1 offset high low rest hhigh =>
    obtain rfl := Except.error.inj h
    exact ⟨0, high, rfl, rfl, hhigh, fun j hj => absurd hj (Nat.not_lt_zero j)⟩
  | case2 offset high low rest upper hlow hhigh =>
    obtain rfl := Except.error.inj h
    refine ⟨1, low, rfl, rfl, hlow, fun j hj => ?_⟩
    obtain rfl : j = 0 := by omega
    exact ⟨high, upper, rfl, hhigh⟩
  | case3 offset high low rest upper lower hlow hhigh ih =>
    cases hrest : decodePairs kind (offset + 2) rest with
    | ok decoded =>
      rw [hrest] at h
      cases h
    | error e =>
      rw [hrest] at h
      obtain rfl := Except.error.inj h
      obtain ⟨i, byte, herror, hbyte, hnone, hearlier⟩ := ih hrest
      refine ⟨i + 2, byte, ?_, hbyte, hnone, fun j hj => ?_⟩
      · rw [herror, Nat.add_assoc, Nat.add_comm 2 i]
      · match j with
        | 0 => exact ⟨high, upper, rfl, hhigh⟩
        | 1 => exact ⟨low, lower, rfl, hlow⟩
        | j + 2 => exact hearlier j (by omega)
  | case4 => cases h

namespace Id128

variable {kind : IdKind}

def digits (id : Id128 kind) : List Char := id.asBytes.flatMap hexChars

theorem toList_display (id : Id128 kind) : id.display.toList = kind.tag.toList ++ id.digits := by
  have hbytes : ∀ bytes : List UInt8,
      (concatenated (bytes.map fun byte => hexByte byte.toNat)).toList = bytes.flatMap hexChars := by
    intro bytes
    induction bytes with
    | nil => rfl
    | cons byte rest ih =>
      rw [List.map_cons, concatenated, String.toList_append, ih, List.flatMap_cons, hexByte,
        String.toList_ofList]
      rfl
  rw [display, String.toList_append, hbytes, digits]

theorem digits_hexDigit (id : Id128 kind) : ∀ c ∈ id.digits, ∃ n, c = hexDigit n := by
  intro c hc
  obtain ⟨byte, -, hmem⟩ := List.mem_flatMap.mp hc
  rcases List.mem_cons.mp hmem with rfl | hmem
  · exact ⟨_, rfl⟩
  · exact ⟨_, List.mem_singleton.mp hmem⟩

theorem length_digits (id : Id128 kind) : id.digits.length = hexLength := by
  have hbytes : ∀ bytes : List UInt8, (bytes.flatMap hexChars).length = 2 * bytes.length := by
    intro bytes
    induction bytes with
    | nil => rfl
    | cons byte rest ih =>
      rw [List.flatMap_cons, List.length_append, ih, List.length_cons]
      show 2 + 2 * rest.length = _
      omega
  have hsize : id.asBytes.length = 16 := by simp [asBytes]
  rw [digits, hbytes, hsize]
  rfl

/-- An identifier is read from a text exactly when the text is what it is written as, up
to the case of the digits. -/
theorem fromStr_ok_iff {input : String} {id : Id128 kind} :
    fromStr input = .ok id ↔ ∃ payload, input.toList = kind.tag.toList ++ payload ∧
      payload.map Char.toLower = id.digits := by
  have hbytes : id.asBytes.length = 16 := by simp [asBytes]
  unfold fromStr parseId
  constructor
  · intro h
    split at h
    · next htag =>
      obtain ⟨payload, hinput⟩ := htag
      rw [← hinput, List.drop_left] at h
      dsimp only at h
      split at h
      · cases h
      · next hlength =>
        have hlength : (utf8 payload).length = hexLength := not_not.mp hlength
        have hsize : hexLength = 32 := rfl
        cases hdecoded : decodePairs kind 0 (utf8 payload) with
        | error error =>
          rw [hdecoded] at h
          cases h
        | ok decoded =>
          rw [hdecoded] at h
          have hid : fromBytes decoded = id := Except.ok.inj h
          have hcount := decodePairs_length hdecoded
          have hsame : id.asBytes = decoded := by rw [← hid, asBytes_fromBytes (by omega)]
          refine ⟨payload, hinput.symm, ?_⟩
          rw [(decodePairs_ok_iff kind 0 decoded (by omega)).mp hdecoded, digits, hsame]
    · cases h
  · intro h
    obtain ⟨payload, hinput, hdigits⟩ := h
    have hsize : hexLength = 32 := rfl
    have hlength : (utf8 payload).length = hexLength := by
      have hcount := congrArg List.length hdigits
      rw [List.length_map, length_digits] at hcount
      rw [utf8_length_digits, hcount]
      intro c hc
      have hmem : c.toLower ∈ id.digits := hdigits ▸ List.mem_map_of_mem hc
      exact digits_hexDigit id _ hmem
    rw [if_pos ⟨payload, hinput.symm⟩, hinput, List.drop_left]
    dsimp only
    rw [if_neg (not_not.mpr hlength)]
    have hdecoded := (decodePairs_ok_iff kind 0 id.asBytes (by omega)).mpr hdigits
    rw [hdecoded]
    exact congrArg Except.ok (fromBytes_asBytes id)

theorem fromStr_display (id : Id128 kind) : fromStr id.display = .ok id := by
  refine fromStr_ok_iff.mpr ⟨id.digits, toList_display id, ?_⟩
  refine (List.map_congr_left fun c hc => ?_).trans (List.map_id _)
  obtain ⟨n, rfl⟩ := digits_hexDigit id c hc
  exact toLower_hexDigit n

/-- No tag starts another. -/
theorem tag_unique {kind' : IdKind} {payload payload' : List Char}
    (h : kind.tag.toList ++ payload = kind'.tag.toList ++ payload') : kind = kind' := by
  cases kind <;> cases kind' <;> first | rfl | exact absurd (List.cons.inj h).1 (by decide)

/-- What identifiers are written as is read back, a text is read as one identifier of one
type, and a text of the right tag and length that is refused is refused for its first
byte that is no digit. -/
theorem text_denotes_one (id : Id128 kind) (input : String) :
    fromStr id.display = .ok id ∧
    (fromStr input = .ok id ↔ ∃ payload, input.toList = kind.tag.toList ++ payload ∧
      payload.map Char.toLower = id.digits) ∧
    (∀ {kind' : IdKind} (id' : Id128 kind'), fromStr input = .ok id → fromStr input = .ok id' →
      kind = kind' ∧ id.bits = id'.bits) ∧
    ∀ payload error, input.toList = kind.tag.toList ++ payload → (utf8 payload).length = hexLength →
      parseId input kind = .error error →
      ∃ i byte, error = .invalidHex kind.noun i byte ∧ (utf8 payload)[i]? = some byte ∧
        hexNibble byte = none ∧ ∀ j < i, ∃ digit value, (utf8 payload)[j]? = some digit ∧
          hexNibble digit = some value := by
  refine ⟨fromStr_display id, fromStr_ok_iff, fun id' hid hid' => ?_, ?_⟩
  · obtain ⟨payload, hinput, hdigits⟩ := fromStr_ok_iff.mp hid
    obtain ⟨payload', hinput', hdigits'⟩ := fromStr_ok_iff.mp hid'
    obtain rfl := tag_unique (hinput.symm.trans hinput')
    refine ⟨rfl, ?_⟩
    rw [hid] at hid'
    rw [Except.ok.inj hid']
  · intro payload error hinput hlength herror
    unfold parseId at herror
    rw [if_pos ⟨payload, hinput.symm⟩, hinput, List.drop_left] at herror
    dsimp only at herror
    rw [if_neg (not_not.mpr hlength)] at herror
    obtain ⟨i, byte, herror, hbyte, hnone, hearlier⟩ := decodePairs_error herror
    exact ⟨i, byte, by rw [herror, Nat.zero_add], hbyte, hnone, hearlier⟩

/-- A machine identifier is refused as one of a volume. -/
example : (fromStr (fromU128 1 : MachineId).display : Except IdParseError VolumeId) =
    .error (.invalidPrefix "volume ID" "volume:") := by decide

end Id128

end LocalSearch.Core
