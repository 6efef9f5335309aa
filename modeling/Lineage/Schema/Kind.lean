namespace Lineage

/-!
# Kinds of fields

* `ScalarKind` — the fifteen scalar kinds, with their classes,
* `FieldKind`  — a scalar, a message or an enum,
* `FieldKind.ofLabel?` — the kind that a type label such as `TYPE_INT32` names.
-/

/-- A scalar kind. -/
inductive ScalarKind where
  | double
  | float
  | int32
  | int64
  | uint32
  | uint64
  | sint32
  | sint64
  | fixed32
  | fixed64
  | sfixed32
  | sfixed64
  | bool
  | string
  | bytes
deriving DecidableEq

namespace ScalarKind

/-- All scalar kinds. -/
def all : List ScalarKind :=
  [double, float, int32, int64, uint32, uint64, sint32, sint64, fixed32, fixed64, sfixed32,
    sfixed64, bool, string, bytes]

/-- The name of a kind. -/
def name : ScalarKind → String
  | double => "double"
  | float => "float"
  | int32 => "int32"
  | int64 => "int64"
  | uint32 => "uint32"
  | uint64 => "uint64"
  | sint32 => "sint32"
  | sint64 => "sint64"
  | fixed32 => "fixed32"
  | fixed64 => "fixed64"
  | sfixed32 => "sfixed32"
  | sfixed64 => "sfixed64"
  | bool => "bool"
  | string => "string"
  | bytes => "bytes"

/-- The type label of a kind in a descriptor. -/
def label (k : ScalarKind) : String := "TYPE_" ++ k.name.toUpper

/-- Floating point kinds. -/
def isFloat : ScalarKind → Bool
  | double | float => true
  | _ => false

/-- Integer kinds, signed and unsigned. -/
def isInteger : ScalarKind → Bool
  | double | float | bool | string | bytes => false
  | _ => true

/-- Unsigned integer kinds. -/
def isUnsigned : ScalarKind → Bool
  | uint32 | uint64 | fixed32 | fixed64 => true
  | _ => false

/-- Kinds that have an order. -/
def isNumeric (k : ScalarKind) : Bool := k.isFloat || k.isInteger

end ScalarKind

/-- The kind of a field. -/
inductive FieldKind where
  | scalar (kind : ScalarKind)
  | message
  | enumeration
deriving DecidableEq

namespace FieldKind

/-- The kind that a type label names. -/
def ofLabel? (label : String) : Option FieldKind :=
  if label == "TYPE_MESSAGE" then some message
  else if label == "TYPE_ENUM" then some enumeration
  else (ScalarKind.all.find? (·.label == label)).map scalar

/-- The name of a kind. -/
def name : FieldKind → String
  | scalar k => k.name
  | message => "message"
  | enumeration => "enum"

/-- The scalar kind, if the field is a scalar. -/
def scalar? : FieldKind → Option ScalarKind
  | scalar k => some k
  | _ => none

end FieldKind

end Lineage
