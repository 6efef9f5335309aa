import Lineage.Descriptor.Basic
import Lineage.Wire.Message

namespace Lineage.Exchange

/-!
# Requests of a compiler

A compiler hands over its descriptors and a parameter in one encoded message.

* `Request` — a descriptor set and the parameter,
* `Request.ofBytes?` — the request that a sequence of bytes is.

The encoded descriptors do not show custom options, so every list of options is empty.
-/

/-- What a compiler asks for. -/
structure Request where
  parameter : String := ""
  set : DescriptorSet := {}

namespace Request

open Wire (Entries)

/-- The label of a field by its number; what is unknown counts as optional. -/
def label (n : Int) : String :=
  match n with
  | 2 => "LABEL_REQUIRED"
  | 3 => "LABEL_REPEATED"
  | _ => "LABEL_OPTIONAL"

/-- The types of fields in the order of their numbers, which start at one. -/
def typeLabels : List String :=
  ["TYPE_DOUBLE", "TYPE_FLOAT", "TYPE_INT64", "TYPE_UINT64", "TYPE_INT32", "TYPE_FIXED64",
    "TYPE_FIXED32", "TYPE_BOOL", "TYPE_STRING", "TYPE_GROUP", "TYPE_MESSAGE", "TYPE_BYTES",
    "TYPE_UINT32", "TYPE_ENUM", "TYPE_SFIXED32", "TYPE_SFIXED64", "TYPE_SINT32", "TYPE_SINT64"]

/-- The label of a type by its number; what is unknown counts as the first. -/
def typeLabel (n : Int) : String := (typeLabels[(n - 1).toNat]?).getD "TYPE_DOUBLE"

/-- A oneof declaration. -/
def oneof (es : Entries) : OneofDescriptor := { name := es.text? 1 }

/-- A field declaration. -/
def field (es : Entries) : FieldDescriptor where
  name := es.text? 1
  number := es.int? 3
  label := (es.int? 4).map label
  type := (es.int? 5).map typeLabel
  typeName := es.text? 6
  oneofIndex := es.int? 9
  proto3Optional := es.flag? 17

/-- The declaration of an enum value. -/
def enumValue (es : Entries) : EnumValueDescriptor := { name := es.text? 1, number := es.int? 2 }

/-- An enum declaration. -/
def enumeration (es : Entries) : EnumDescriptor :=
  { name := es.text? 1, values := (es.messages 2).map enumValue }

/-- A message declaration with the declarations inside it, at most so many levels deep. -/
def messageWithin : Nat → Entries → MessageDescriptor
  | 0, _ => {}
  | levels + 1, es =>
    { name := es.text? 1
      fields := (es.messages 2).map field
      nested := (es.messages 3).map (messageWithin levels)
      enums := (es.messages 4).map enumeration
      oneofs := (es.messages 8).map oneof }

/-- A message declaration.  None nests deeper than a decoded message may. -/
def message (es : Entries) : MessageDescriptor := messageWithin Wire.maxNesting es

/-- A method declaration. -/
def method (es : Entries) : MethodDescriptor :=
  { name := es.text? 1, inputType := es.text? 2, outputType := es.text? 3 }

/-- A service declaration. -/
def service (es : Entries) : ServiceDescriptor :=
  { name := es.text? 1, methods := (es.messages 2).map method }

/-- A location of source information, with its comments. -/
def location (es : Entries) : Location where
  path := (es.numbers 1).map Wire.Entries.int32
  leading := es.text? 3
  trailing := es.text? 4
  detached := es.texts 6

/-- A file with its package and declarations. -/
def file (es : Entries) : FileDescriptor where
  name := es.text? 1
  package := es.text? 2
  messages := (es.messages 4).map message
  enums := (es.messages 5).map enumeration
  services := (es.messages 6).map service
  locations := (es.message? 9).map fun info => (info.messages 1).map location

/-- The request that a sequence of bytes is. -/
def ofBytes? (bs : Wire.Bytes) : Option Request :=
  (Wire.decode? .request bs).map fun es =>
    { parameter := (es.text? 2).getD "", set := { files := (es.messages 15).map file } }

end Request

end Lineage.Exchange
