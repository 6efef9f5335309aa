import Lineage.Descriptor.Basic
import Lineage.Json.Encode

namespace Lineage

/-!
# Descriptor sets as JSON

Written with the names under which they are read, and with every entry present.
-/

instance : ToJson OneofDescriptor := ⟨fun o =>
  .object [("name", toJson o.name), ("options", .object o.options)]⟩

instance : ToJson FieldDescriptor := ⟨fun f =>
  .object [("name", toJson f.name), ("number", toJson f.number), ("label", toJson f.label),
    ("type", toJson f.type), ("typeName", toJson f.typeName), ("oneofIndex", toJson f.oneofIndex),
    ("proto3Optional", toJson f.proto3Optional), ("options", .object f.options)]⟩

instance : ToJson EnumValueDescriptor := ⟨fun v =>
  .object [("name", toJson v.name), ("number", toJson v.number), ("options", .object v.options)]⟩

instance : ToJson EnumDescriptor := ⟨fun e =>
  .object [("name", toJson e.name), ("value", toJson e.values), ("options", .object e.options)]⟩

mutual

/-- A message declaration with all that is declared inside it. -/
def MessageDescriptor.toJson : MessageDescriptor → Json
  | ⟨name, fields, nested, enums, oneofs, options⟩ =>
    .object [("name", ToJson.toJson name), ("field", ToJson.toJson fields),
      ("nestedType", .array (nestedToJson nested)), ("enumType", ToJson.toJson enums),
      ("oneofDecl", ToJson.toJson oneofs), ("options", .object options)]

/-- The messages declared inside a message. -/
def MessageDescriptor.nestedToJson : List MessageDescriptor → List Json
  | [] => []
  | m :: rest => m.toJson :: nestedToJson rest

end

instance : ToJson MessageDescriptor := ⟨MessageDescriptor.toJson⟩

instance : ToJson MethodDescriptor := ⟨fun m =>
  .object [("name", toJson m.name), ("inputType", toJson m.inputType),
    ("outputType", toJson m.outputType), ("options", .object m.options)]⟩

instance : ToJson ServiceDescriptor := ⟨fun s =>
  .object [("name", toJson s.name), ("method", toJson s.methods), ("options", .object s.options)]⟩

instance : ToJson Location := ⟨fun l =>
  .object [("path", toJson l.path), ("leadingComments", toJson l.leading),
    ("trailingComments", toJson l.trailing), ("leadingDetachedComments", toJson l.detached)]⟩

instance : ToJson FileDescriptor := ⟨fun f =>
  .object [("name", toJson f.name), ("package", toJson f.package),
    ("messageType", toJson f.messages), ("enumType", toJson f.enums),
    ("service", toJson f.services),
    ("sourceCodeInfo", toJson (f.locations.map fun ls => Json.object [("location", toJson ls)]))]⟩

instance : ToJson DescriptorSet := ⟨fun s => .object [("file", toJson s.files)]⟩

end Lineage
