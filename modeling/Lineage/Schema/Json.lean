import Lineage.Json.Encode
import Lineage.Schema.Basic

namespace Lineage

/-!
# Schemas as JSON
-/

instance : ToJson FieldKind := ⟨fun
  | .scalar k => .ofCase "kind" "scalar" [("scalar", toJson k.name)]
  | k => .ofCase "kind" k.name []⟩

instance : ToJson Comments := ⟨fun c =>
  .object [("leading", toJson c.leading), ("detached", toJson c.detached)]⟩

instance : ToJson Carrier := ⟨fun c =>
  .object [("comments", toJson c.comments), ("options", .object c.options)]⟩

instance : ToJson FieldSchema := ⟨fun f =>
  .object [("name", toJson f.name), ("number", toJson f.number), ("kind", toJson f.kind),
    ("repeated", toJson f.repeated), ("type_name", toJson f.typeName), ("oneof", toJson f.oneof),
    ("carrier", toJson f.carrier)]⟩

instance : ToJson OneofSchema := ⟨fun o =>
  .object [("name", toJson o.name), ("carrier", toJson o.carrier)]⟩

instance : ToJson MessageSchema := ⟨fun m =>
  .object [("name", toJson m.name), ("local_name", toJson m.localName),
    ("full_name", toJson m.fullName), ("parent", toJson m.parent), ("fields", toJson m.fields),
    ("oneofs", toJson m.oneofs), ("carrier", toJson m.carrier)]⟩

instance : ToJson EnumValueSchema := ⟨fun v =>
  .object [("name", toJson v.name), ("number", toJson v.number), ("carrier", toJson v.carrier)]⟩

instance : ToJson EnumSchema := ⟨fun e =>
  .object [("name", toJson e.name), ("local_name", toJson e.localName),
    ("full_name", toJson e.fullName), ("parent", toJson e.parent), ("values", toJson e.values),
    ("carrier", toJson e.carrier)]⟩

instance : ToJson MethodSchema := ⟨fun m =>
  .object [("name", toJson m.name), ("input", toJson m.input), ("output", toJson m.output),
    ("carrier", toJson m.carrier)]⟩

instance : ToJson ServiceSchema := ⟨fun s =>
  .object [("name", toJson s.name), ("methods", toJson s.methods), ("carrier", toJson s.carrier)]⟩

instance : ToJson PackageSchema := ⟨fun p =>
  .object [("name", toJson p.name), ("services", toJson p.services),
    ("messages", toJson p.messages), ("enums", toJson p.enums)]⟩

end Lineage
