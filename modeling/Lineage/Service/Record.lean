import Lineage.Decimal.Layout
import Lineage.Sorted
import Lineage.Text.Quoted

namespace Lineage.Service

/-!
# Records

* `Value`  — the value of a field; a nested message carries its name and its set fields,
* `Record` — a message: its full name and its set fields by name; a oneof is one entry under its own
  name, which holds the variant that is set,
* `Value.depth`, `Record.depth` — how deep values nest,
* `Value.text` — a value as diagnostics show it.
-/

/-- The value of a field. -/
inductive Value where
  | bool (b : Bool)
  /-- A signed integer of sixty-four bits. -/
  | int (n : Int)
  /-- An unsigned integer of sixty-four bits. -/
  | uint (n : Nat)
  | float (x : Binary64)
  | str (s : String)
  | bytes (bs : List UInt8)
  /-- A value of an enum, by name. -/
  | enumeration (name : String)
  /-- A nested message: its full name and its set fields, sorted by name. -/
  | message (name : String) (fields : List (String × Value))
  | list (items : List Value)
  /-- The variant of a oneof that is set. -/
  | oneof (variant : String) (value : Value)

/-- A message: its full name and its set fields, sorted by name. -/
structure Record where
  message : String := ""
  fields : List (String × Value) := []

instance : Inhabited Value := ⟨.bool false⟩

namespace Value

/-- The zero value of its kind.  Messages, enum values and variants are never empty. -/
def isEmpty : Value → Bool
  | bool b => !b
  | int n => n == 0
  | uint n => n == 0
  | float x => x.isZero
  | str s => s.isEmpty
  | bytes bs => bs.isEmpty
  | list items => items.isEmpty
  | enumeration _ | message _ _ | oneof _ _ => false

/-- The values that a rule applies to: the items of a list, or the value itself. -/
def elements : Value → List Value
  | list items => items
  | v => [v]

/-- The text, if the value is one. -/
def string? : Value → Option String
  | str s => some s
  | _ => none

/-- The record, if the value is a nested message. -/
def record? : Value → Option Record
  | message name fields => some ⟨name, fields⟩
  | _ => none

mutual

/-- How deep a value nests. -/
def depth : Value → Nat
  | message _ fields => depthOfFields fields + 1
  | list items => depthOfItems items + 1
  | oneof _ v => v.depth + 1
  | _ => 0

/-- How deep the deepest of some items nests. -/
def depthOfItems : List Value → Nat
  | [] => 0
  | v :: rest => max v.depth (depthOfItems rest)

/-- How deep the deepest of some field values nests. -/
def depthOfFields : List (String × Value) → Nat
  | [] => 0
  | (_, v) :: rest => max v.depth (depthOfFields rest)

end

mutual

/-- Numerical equality: zeros are equal, and no value that holds a NaN equals any. -/
def equal : Value → Value → Bool
  | bool a, bool b => a == b
  | int a, int b => a == b
  | uint a, uint b => a == b
  | float x, float y => x.eq y
  | str a, str b => a == b
  | bytes a, bytes b => a == b
  | enumeration a, enumeration b => a == b
  | message a fs, message b gs => a == b && equalFields fs gs
  | list xs, list ys => equalItems xs ys
  | oneof a x, oneof b y => a == b && equal x y
  | _, _ => false

/-- Numerical equality, item by item. -/
def equalItems : List Value → List Value → Bool
  | [], [] => true
  | x :: xs, y :: ys => equal x y && equalItems xs ys
  | _, _ => false

/-- Numerical equality, field by field; the names must be the same. -/
def equalFields : List (String × Value) → List (String × Value) → Bool
  | [], [] => true
  | (a, x) :: fs, (b, y) :: gs => a == b && equal x y && equalFields fs gs
  | _, _ => false

end

/-- Texts separated by commas. -/
def separated (texts : List String) : String := ", ".intercalate texts

mutual

/-- A value as diagnostics show it. -/
def text : Value → String
  | bool b => "Bool(" ++ toString b ++ ")"
  | int n => "Int(" ++ toString n ++ ")"
  | uint n => "Uint(" ++ toString n ++ ")"
  | float x => "Float(" ++ Decimal.Layout.literal.text x ++ ")"
  | str s => "Str(" ++ Text.quoted s ++ ")"
  | bytes bs => "Bytes([" ++ separated (bs.map fun b => toString b.toNat) ++ "])"
  | enumeration name => "Enum(" ++ Text.quoted name ++ ")"
  | message name fields =>
    "Message(Record \x7b message: " ++ Text.quoted name ++ ", fields: \x7b"
      ++ separated (fieldTexts fields) ++ "\x7d \x7d)"
  | list items => "List([" ++ separated (itemTexts items) ++ "])"
  | oneof variant v =>
    "Oneof \x7b variant: " ++ Text.quoted variant ++ ", value: " ++ v.text ++ " \x7d"

/-- The items of a list as diagnostics show them. -/
def itemTexts : List Value → List String
  | [] => []
  | v :: rest => v.text :: itemTexts rest

/-- The fields of a record as diagnostics show them, name first. -/
def fieldTexts : List (String × Value) → List String
  | [] => []
  | (name, v) :: rest => (Text.quoted name ++ ": " ++ v.text) :: fieldTexts rest

end

end Value

namespace Record

/-- A record as the value of a field. -/
def toValue (r : Record) : Value := .message r.message r.fields

/-- The value of a field, if the record has one. -/
def get? (r : Record) (field : String) : Option Value := Sorted.get? r.fields field

/-- A record with the value of a field replaced, or added if there was none. -/
def set (r : Record) (field : String) (v : Value) : Record :=
  { r with fields := Sorted.insert field v r.fields }

/-- Whether a field is present and not the zero value. -/
def isSet (r : Record) (field : String) : Bool := (r.get? field).any (!·.isEmpty)

/-- How deep the values of a record nest. -/
def depth (r : Record) : Nat := Value.depthOfFields r.fields

/-- Setting a field changes that field and no other. -/
theorem get?_set (r : Record) (field other : String) (v : Value) :
    (r.set field v).get? other = if other = field then some v else r.get? other :=
  Sorted.get?_insert field other v r.fields

end Record

end Lineage.Service
