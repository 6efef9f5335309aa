import Lineage.Chain.Basic
import Lineage.Schema.Json

namespace Lineage

/-!
# Chains as JSON

A node is referred to by its position among the nodes of its kind.
-/

instance : ToJson VersionId := ⟨fun i => toJson i.index⟩
instance : ToJson MessageId := ⟨fun i => toJson i.index⟩
instance : ToJson FieldId := ⟨fun i => toJson i.index⟩
instance : ToJson OneofId := ⟨fun i => toJson i.index⟩
instance : ToJson EnumId := ⟨fun i => toJson i.index⟩
instance : ToJson ValueId := ⟨fun i => toJson i.index⟩
instance : ToJson MethodId := ⟨fun i => toJson i.index⟩

/-- The entries for the counterparts of a node. -/
def Link.entries {Id : Type} [ToJson Id] (l : Link Id) : List (String × Json) :=
  [("next", toJson l.next), ("private", toJson l.final)]

instance : ToJson ValidateDirectives := ⟨fun v =>
  .object [("required", toJson v.required), ("min", toJson v.min), ("max", toJson v.max),
    ("members", toJson v.members), ("format", toJson v.format)]⟩

instance : ToJson ReceiveDirectives := ⟨fun r =>
  .object [("required", toJson r.required), ("names", toJson r.names)]⟩

instance : ToJson TypeRef := ⟨fun
  | .message m => .object [("message", toJson m)]
  | .enumeration e => .object [("enum", toJson e)]
  | .external name => .object [("external", toJson name)]⟩

instance : ToJson Propagation := ⟨fun
  | .copy => .ofCase "propagation" "copy" []
  | .convert .message => .ofCase "propagation" "convert" [("kind", .string "message")]
  | .convert .enumeration => .ofCase "propagation" "convert" [("kind", .string "enum")]
  | .shared => .ofCase "propagation" "shared" []
  | .unconvertible => .ofCase "propagation" "unconvertible" []⟩

instance : ToJson Version := ⟨fun v =>
  .object ([("id", toJson v.id), ("package", toJson v.package), ("service", toJson v.service),
    ("is_private", toJson v.isPrivate), ("is_latest", toJson v.isLatest),
    ("messages", toJson v.messages), ("enums", toJson v.enums), ("methods", toJson v.methods)]
    ++ v.link.entries)⟩

instance : ToJson Message := ⟨fun m =>
  .object ([("id", toJson m.id), ("version", toJson m.version), ("name", toJson m.name),
    ("local_name", toJson m.localName), ("full_name", toJson m.fullName),
    ("parent", toJson m.parent), ("fields", toJson m.fields), ("oneofs", toJson m.oneofs),
    ("deprecated", toJson m.deprecated), ("delegate", toJson m.delegate),
    ("is_input", toJson m.isInput), ("is_output", toJson m.isOutput)] ++ m.link.entries)⟩

instance : ToJson Field := ⟨fun f =>
  .object ([("id", toJson f.id), ("message", toJson f.message), ("name", toJson f.name),
    ("number", toJson f.number), ("kind", toJson f.kind), ("repeated", toJson f.repeated),
    ("type_ref", toJson f.typeRef), ("oneof", toJson f.oneof), ("deprecated", toJson f.deprecated),
    ("delegate", toJson f.delegate), ("validate", toJson f.validate),
    ("receive_required", toJson f.receiveRequired), ("propagation", toJson f.propagation)]
    ++ f.link.entries)⟩

instance : ToJson Oneof := ⟨fun o =>
  .object ([("id", toJson o.id), ("message", toJson o.message), ("name", toJson o.name),
    ("fields", toJson o.fields), ("deprecated", toJson o.deprecated),
    ("delegate", toJson o.delegate), ("required", toJson o.required),
    ("receive_required", toJson o.receiveRequired)] ++ o.link.entries)⟩

instance : ToJson Enum := ⟨fun e =>
  .object ([("id", toJson e.id), ("version", toJson e.version), ("name", toJson e.name),
    ("local_name", toJson e.localName), ("full_name", toJson e.fullName),
    ("parent", toJson e.parent), ("values", toJson e.values), ("deprecated", toJson e.deprecated),
    ("delegate", toJson e.delegate)] ++ e.link.entries)⟩

instance : ToJson EnumValue := ⟨fun v =>
  .object ([("id", toJson v.id), ("enumeration", toJson v.enumeration), ("name", toJson v.name),
    ("number", toJson v.number), ("deprecated", toJson v.deprecated),
    ("delegate", toJson v.delegate), ("receive", toJson v.receive)] ++ v.link.entries)⟩

instance : ToJson Method := ⟨fun m =>
  .object ([("id", toJson m.id), ("version", toJson m.version), ("name", toJson m.name),
    ("input", toJson m.input), ("output", toJson m.output), ("deprecated", toJson m.deprecated),
    ("delegate", toJson m.delegate)] ++ m.link.entries)⟩

instance : ToJson Chain := ⟨fun c =>
  .object [("versions", toJson c.versions), ("messages", toJson c.messages),
    ("fields", toJson c.fields), ("oneofs", toJson c.oneofs), ("enums", toJson c.enums),
    ("values", toJson c.values), ("methods", toJson c.methods)]⟩

end Lineage
