import LocalSearch.Mcp.Stdio
import LocalSearch.Core.IdText
import Mathlib.Data.List.Forall2
import Mathlib.Data.List.Nodup

/-!
# Schemas of tools

The part of JSON Schema that the published tool contracts use: what a schema accepts,
and the JSON it is written as.
-/
namespace LocalSearch.Mcp

set_option autoImplicit false

open Core Lib

namespace Value

mutual

/-- `serde_json::to_string`. -/
def text : Value → String
  | .null => "null"
  | .bool value => jsonBool value
  | .integer value => jsonInt value
  | .float digits => digits
  | .string value => jsonString value
  | .array items => jsonArray (itemTexts items)
  | .object fields => jsonObject (fieldTexts fields)

def itemTexts : List Value → List String
  | [] => []
  | item :: rest => item.text :: itemTexts rest

def fieldTexts : List (String × Value) → List (String × String)
  | [] => []
  | (name, value) :: rest => (name, value.text) :: fieldTexts rest

end

def asObject : Value → Option (List (String × Value))
  | .object fields => some fields
  | _ => none

end Value

/-- Objects admit no other properties; an identifier is a tag and thirty-two digits. -/
inductive Schema where
  | const (value : String)
  | boolean
  | string (minLength maxLength : Option Nat) (nullable : Bool)
  | pattern (kind : IdKind) (anyCase : Bool)
  | enum (values : List String) (default : Option String)
  | integer (minimum maximum default : Option Int) (nullable : Bool)
  | array (items : Schema) (maxItems : Nat) (uniqueItems : Bool)
  | object (properties : List (String × Schema)) (required : Option (List String))

namespace Schema

def Within {α : Type} [LE α] (minimum maximum : Option α) (value : α) : Prop :=
  (∀ bound ∈ minimum, bound ≤ value) ∧ ∀ bound ∈ maximum, value ≤ bound

def Digits (anyCase : Bool) (c : Char) : Prop :=
  c.isDigit ∨ ('a' ≤ c ∧ c ≤ 'f') ∨ (anyCase = true ∧ 'A' ≤ c ∧ c ≤ 'F')

mutual

/-- What a validator accepts. -/
def Accepts : Schema → Value → Prop
  | .const text, .string value => value = text
  | .boolean, .bool _ => True
  | .string minLength maxLength _, .string value => Within minLength maxLength value.length
  | .string _ _ nullable, .null => nullable = true
  | .pattern kind anyCase, .string value =>
      ∃ payload, value.toList = kind.tag.toList ++ payload ∧ payload.length = 32 ∧
        ∀ c ∈ payload, Digits anyCase c
  | .enum values _, .string value => value ∈ values
  | .integer minimum maximum _ _, .integer value => Within minimum maximum value
  | .integer _ _ _ nullable, .null => nullable = true
  | .array items maxItems uniqueItems, .array values =>
      values.length ≤ maxItems ∧ (uniqueItems = true → values.Nodup) ∧
        ∀ value ∈ values, items.Accepts value
  | .object properties required, .object fields =>
      (∀ name ∈ required.getD [], ∃ value, (name, value) ∈ fields) ∧
        ∀ field ∈ fields, PropertyAccepts properties field.1 field.2
  | _, _ => False

/-- The property of this name accepts the value. -/
def PropertyAccepts : List (String × Schema) → String → Value → Prop
  | [], _, _ => False
  | (name, schema) :: rest, key, value =>
      if key = name then schema.Accepts value else PropertyAccepts rest key value

end

def keyword (name : String) (value : Option Value) : List (String × Value) :=
  (value.map fun value => (name, value)).toList

def typeName (name : String) (nullable : Bool) : Value :=
  if nullable then .array [.string name, .string "null"] else .string name

mutual

def value : Schema → Value
  | .const text => .object [("const", .string text)]
  | .boolean => .object [("type", typeName "boolean" false)]
  | .string minLength maxLength nullable =>
      .object (keyword "maxLength" (maxLength.map fun bound => .integer bound) ++
        keyword "minLength" (minLength.map fun bound => .integer bound) ++
        [("type", typeName "string" nullable)])
  | .pattern kind anyCase =>
      .object [("pattern", .string ("^" ++ kind.tag ++
          (if anyCase then "[0-9a-fA-F]" else "[0-9a-f]") ++ "\x7b32\x7d$")),
        ("type", typeName "string" false)]
  | .enum values default =>
      .object (keyword "default" (default.map .string) ++
        [("enum", .array (values.map .string)), ("type", typeName "string" false)])
  | .integer minimum maximum default nullable =>
      .object (keyword "default" (default.map .integer) ++ keyword "maximum" (maximum.map .integer) ++
        keyword "minimum" (minimum.map .integer) ++ [("type", typeName "integer" nullable)])
  | .array items maxItems uniqueItems =>
      .object ([("items", items.value), ("maxItems", .integer maxItems), ("type", typeName "array" false)] ++
        keyword "uniqueItems" (if uniqueItems then some (.bool true) else none))
  | .object properties required =>
      .object ([("additionalProperties", .bool false), ("properties", .object (propertyValues properties))] ++
        keyword "required" (required.map fun names => .array (names.map .string)) ++
        [("type", typeName "object" false)])

def propertyValues : List (String × Schema) → List (String × Value)
  | [] => []
  | (name, schema) :: rest => (name, schema.value) :: propertyValues rest

end

/-- A schema that stands on its own names its dialect. -/
def document (schema : Schema) : Value :=
  match schema.value with
  | .object fields =>
      .object (("$schema", .string "https://json-schema.org/draft/2020-12/schema") :: fields)
  | other => other

theorem propertyAccepts_of_mem {properties : List (String × Schema)} {fields : List (String × Value)}
    (hnames : properties.map (·.1) = fields.map (·.1)) (hunique : (properties.map (·.1)).Nodup)
    (haccepts : List.Forall₂ (fun property field => property.2.Accepts field.2) properties fields) :
    ∀ field ∈ fields, PropertyAccepts properties field.1 field.2 := by
  induction haccepts with
  | nil => exact fun field hfield => absurd hfield List.not_mem_nil
  | @cons property field properties fields hfirst _ ih =>
    obtain ⟨name, schema⟩ := property
    obtain ⟨hname, hrest⟩ := List.cons.inj hnames
    obtain ⟨hfresh, hunique⟩ := List.nodup_cons.mp hunique
    intro other hother
    unfold PropertyAccepts
    rcases List.mem_cons.mp hother with rfl | hother
    · rw [if_pos hname.symm]
      exact hfirst
    · have hmem : other.1 ∈ properties.map (·.1) := hrest ▸ List.mem_map_of_mem hother
      have hne : other.1 ≠ name := by
        rintro rfl
        exact hfresh hmem
      rw [if_neg hne]
      exact ih hrest hunique other hother

/-- A record with exactly the properties of the schema. -/
theorem accepts_record {properties : List (String × Schema)} {fields : List (String × Value)}
    {required : List String} (hnames : properties.map (·.1) = fields.map (·.1))
    (hunique : (properties.map (·.1)).Nodup) (hrequired : required ⊆ properties.map (·.1))
    (haccepts : List.Forall₂ (fun property field => property.2.Accepts field.2) properties fields) :
    (Schema.object properties (some required)).Accepts (.object fields) := by
  unfold Accepts
  refine ⟨fun name hname => ?_, propertyAccepts_of_mem hnames hunique haccepts⟩
  have hfield := hrequired hname
  rw [hnames] at hfield
  obtain ⟨⟨key, value⟩, hmem, rfl⟩ := List.mem_map.mp hfield
  exact ⟨value, hmem⟩

/-- A list of accepted items within the bound. -/
theorem accepts_array {α : Type} {items : Schema} {maxItems : Nat} {entries : List α} {f : α → Value}
    (hcount : entries.length ≤ maxItems) (haccepts : ∀ entry ∈ entries, items.Accepts (f entry)) :
    (Schema.array items maxItems false).Accepts (.array (entries.map f)) := by
  unfold Accepts
  refine ⟨by rwa [List.length_map], fun h => absurd h Bool.false_ne_true, fun value hvalue => ?_⟩
  obtain ⟨entry, hentry, rfl⟩ := List.mem_map.mp hvalue
  exact haccepts entry hentry

/-- What an identifier is written as. -/
theorem accepts_display {kind : IdKind} (id : Id128 kind) (anyCase : Bool) :
    (Schema.pattern kind anyCase).Accepts (.string id.display) := by
  have hdigits : ∀ n < 16, Digits anyCase (hexDigit n) := by
    unfold Digits
    intro n hn
    refine (show (hexDigit n).isDigit ∨ ('a' ≤ hexDigit n ∧ hexDigit n ≤ 'f') from ?_).imp_right Or.inl
    revert n
    decide
  unfold Accepts
  refine ⟨id.digits, id.toList_display, id.length_digits, fun c hc => ?_⟩
  obtain ⟨n, rfl⟩ := id.digits_hexDigit c hc
  have hmod : hexDigit n = hexDigit (n % 16) := by
    unfold hexDigit
    rw [Nat.mod_mod]
  rw [hmod]
  exact hdigits _ (Nat.mod_lt _ (by decide))

theorem accepts_nat (n : Nat) (nullable : Bool) :
    (Schema.integer (some 0) none none nullable).Accepts (.integer n) := by
  unfold Accepts
  refine ⟨fun bound hbound => ?_, fun bound hbound => (by cases hbound)⟩
  obtain rfl := Option.some.inj hbound
  exact Int.natCast_nonneg n

theorem accepts_string (text : String) (nullable : Bool) :
    (Schema.string none none nullable).Accepts (.string text) := by
  unfold Accepts
  exact ⟨fun bound hbound => (by cases hbound), fun bound hbound => (by cases hbound)⟩

end Schema

end LocalSearch.Mcp
