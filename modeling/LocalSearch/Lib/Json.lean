import LocalSearch.Lib.Bytes
import Mathlib.Algebra.Order.BigOperators.Group.List
import Mathlib.Algebra.Order.Group.Nat

/-!
# Compact JSON text

What a serializer writes without any white space, from the texts of the parts,
and how many bytes that takes.
-/
namespace LocalSearch.Lib

set_option autoImplicit false

def hexDigit (n : Nat) : Char := Nat.digitChar (n % 16)

/-- Two lower-case hexadecimal digits. -/
def hexByte (n : Nat) : String := String.ofList [hexDigit (n / 16), hexDigit n]

/-- Quotes, backslashes and control characters are escaped. -/
def jsonEscape (c : Char) : String :=
  if c = '"' then "\\\""
  else if c = '\\' then "\\\\"
  else if c = Char.ofNat 8 then "\\b"
  else if c = Char.ofNat 9 then "\\t"
  else if c = Char.ofNat 10 then "\\n"
  else if c = Char.ofNat 12 then "\\f"
  else if c = Char.ofNat 13 then "\\r"
  else if c.toNat < 32 then "\\u00" ++ hexByte c.toNat
  else String.singleton c

def concatenated : List String → String
  | [] => ""
  | text :: rest => text ++ concatenated rest

def commaSeparated : List String → String
  | [] => ""
  | text :: rest => text ++ concatenated (rest.map ("," ++ ·))

def jsonString (s : String) : String := "\"" ++ concatenated (s.toList.map jsonEscape) ++ "\""

def jsonNat (n : Nat) : String := n.repr

def jsonInt (n : Int) : String := if n < 0 then "-" ++ n.natAbs.repr else n.natAbs.repr

def jsonBool (b : Bool) : String := if b then "true" else "false"

def jsonOption {α : Type} (text : α → String) : Option α → String
  | none => "null"
  | some value => text value

def jsonArray (items : List String) : String := "[" ++ commaSeparated items ++ "]"

/-- Field names are plain words and need no escapes. -/
def jsonField (field : String × String) : String := "\"" ++ field.1 ++ "\":" ++ field.2

def jsonObject (fields : List (String × String)) : String :=
  "\x7b" ++ commaSeparated (fields.map jsonField) ++ "\x7d"

theorem append_left_injective (p : String) : Function.Injective (p ++ ·) := by
  intro a b hab
  have htexts := congrArg String.toList hab
  simp only [String.toList_append] at htexts
  exact String.toList_inj.mp (List.append_cancel_left htexts)

/-- Digits do not start with a sign. -/
theorem repr_ne_minus (n m : Nat) : n.repr ≠ "-" ++ m.repr := by
  intro h
  have hsign : '-' ∈ Nat.toDigits 10 n := by
    rw [← Nat.toList_repr, h, String.toList_append]
    exact List.mem_append_left _ (by decide)
  exact absurd (Nat.isDigit_of_mem_toDigits (by decide) (by decide) hsign) (by decide)

theorem jsonInt_injective : Function.Injective jsonInt := by
  intro a b hab
  unfold jsonInt at hab
  split_ifs at hab with ha hb hb
  · have hsize := repr_injective (append_left_injective "-" hab)
    omega
  · exact absurd hab.symm (repr_ne_minus _ _)
  · exact absurd hab (repr_ne_minus _ _)
  · have hsize := repr_injective hab
    omega

theorem concatenated_size (texts : List String) :
    (concatenated texts).utf8ByteSize = (texts.map String.utf8ByteSize).sum := by
  induction texts with
  | nil => rfl
  | cons text rest ih =>
    rw [concatenated, String.utf8ByteSize_append, ih]
    rfl

theorem separated_size (texts : List String) :
    (concatenated (texts.map ("," ++ ·))).utf8ByteSize =
      texts.length + (texts.map String.utf8ByteSize).sum := by
  induction texts with
  | nil => rfl
  | cons text rest ih =>
    have hcomma : ("," : String).utf8ByteSize = 1 := rfl
    rw [List.map_cons, concatenated, String.utf8ByteSize_append, String.utf8ByteSize_append, ih,
      hcomma, List.length_cons, List.map_cons, List.sum_cons]
    omega

theorem commaSeparated_size (texts : List String) :
    (commaSeparated texts).utf8ByteSize =
      texts.length - 1 + (texts.map String.utf8ByteSize).sum := by
  cases texts with
  | nil => rfl
  | cons text rest =>
    rw [commaSeparated, String.utf8ByteSize_append, separated_size, List.length_cons, List.map_cons,
      List.sum_cons]
    omega

/-- Texts of the same sizes are separated in the same space. -/
theorem commaSeparated_congr {a b : List String}
    (h : a.map String.utf8ByteSize = b.map String.utf8ByteSize) :
    (commaSeparated a).utf8ByteSize = (commaSeparated b).utf8ByteSize := by
  have hlength : a.length = b.length := by simpa using congrArg List.length h
  rw [commaSeparated_size, commaSeparated_size, h, hlength]

theorem jsonArray_congr {a b : List String}
    (h : a.map String.utf8ByteSize = b.map String.utf8ByteSize) :
    (jsonArray a).utf8ByteSize = (jsonArray b).utf8ByteSize := by
  simp only [jsonArray, String.utf8ByteSize_append, commaSeparated_congr h]

theorem jsonField_size (name text : String) :
    (jsonField (name, text)).utf8ByteSize = name.utf8ByteSize + text.utf8ByteSize + 3 := by
  have hopen : ("\"" : String).utf8ByteSize = 1 := rfl
  have hclose : ("\":" : String).utf8ByteSize = 2 := rfl
  simp only [jsonField, String.utf8ByteSize_append, hopen, hclose]
  omega

theorem jsonObject_size (fields : List (String × String)) :
    (jsonObject fields).utf8ByteSize = 2 + (fields.length - 1) +
      (fields.map fun f => f.1.utf8ByteSize + f.2.utf8ByteSize + 3).sum := by
  have hopen : ("\x7b" : String).utf8ByteSize = 1 := rfl
  have hclose : ("\x7d" : String).utf8ByteSize = 1 := rfl
  have hfields : (fields.map jsonField).map String.utf8ByteSize =
      fields.map fun f => f.1.utf8ByteSize + f.2.utf8ByteSize + 3 := by
    rw [List.map_map]
    exact List.map_congr_left fun f _ => jsonField_size f.1 f.2
  rw [jsonObject, String.utf8ByteSize_append, String.utf8ByteSize_append, commaSeparated_size, hfields,
    hopen, hclose, List.length_map]
  omega

/-- Objects of the same fields, with values of the same sizes. -/
theorem jsonObject_congr {a b : List (String × String)}
    (h : a.map (fun f => (f.1, f.2.utf8ByteSize)) = b.map fun f => (f.1, f.2.utf8ByteSize)) :
    (jsonObject a).utf8ByteSize = (jsonObject b).utf8ByteSize := by
  have hlength : a.length = b.length := by simpa using congrArg List.length h
  have hsum : ∀ l : List (String × String), (l.map fun f => f.1.utf8ByteSize + f.2.utf8ByteSize + 3) =
      (l.map fun f => (f.1, f.2.utf8ByteSize)).map fun f => f.1.utf8ByteSize + f.2 + 3 := by
    intro l
    rw [List.map_map]
    rfl
  rw [jsonObject_size, jsonObject_size, hlength, hsum, hsum, h]

/-- An object takes more space than its fields. -/
theorem field_le_jsonObject {fields : List (String × String)} {f : String × String}
    (h : f ∈ fields) : f.2.utf8ByteSize ≤ (jsonObject fields).utf8ByteSize := by
  have hmem := List.mem_map_of_mem (f := fun f => f.1.utf8ByteSize + f.2.utf8ByteSize + 3) h
  have hsum := List.single_le_sum (fun _ _ => Nat.zero_le _) _ hmem
  rw [jsonObject_size]
  omega

/-- An array of texts of at least `k` bytes. -/
theorem length_mul_le_jsonArray {items : List String} {k : Nat}
    (h : ∀ item ∈ items, k ≤ item.utf8ByteSize) :
    items.length * k ≤ (jsonArray items).utf8ByteSize := by
  have hsum : items.length * k ≤ (items.map String.utf8ByteSize).sum := by
    induction items with
    | nil => simp
    | cons item rest ih =>
      have hitem := h item List.mem_cons_self
      have hrest := ih fun item hitem => h item (List.mem_cons_of_mem _ hitem)
      rw [List.length_cons, Nat.succ_mul, List.map_cons, List.sum_cons]
      omega
  simp only [jsonArray, String.utf8ByteSize_append, commaSeparated_size]
  omega

theorem hexByte_size (n : Nat) : (hexByte n).utf8ByteSize = 2 := by
  have hdigit : ∀ m < 16, (Nat.digitChar m).utf8Size = 1 := by decide
  have hone : ∀ m : Nat, (hexDigit m).utf8Size = 1 := fun m => hdigit _ (Nat.mod_lt _ (by decide))
  rw [hexByte, utf8ByteSize_ofList]
  simp [hone]

end LocalSearch.Lib
