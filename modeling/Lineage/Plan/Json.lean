import Lineage.Chain.Json
import Lineage.Plan.Basic

namespace Lineage

/-!
# Plans as JSON
-/

/-! ### Rules -/

instance : ToJson Number := ⟨fun
  | .integer n => toJson n
  | .float x => toJson x⟩

instance : ToJson MemberSet := ⟨fun
  | .bools ms => .ofCase "type" "bools" [("values", toJson ms)]
  | .ints ms => .ofCase "type" "ints" [("values", toJson ms)]
  | .uints ms => .ofCase "type" "uints" [("values", toJson ms)]
  | .floats ms => .ofCase "type" "floats" [("values", toJson ms)]
  | .strings ms => .ofCase "type" "strings" [("values", toJson ms)]
  | .bytes ms => .ofCase "type" "bytes" [("values", toJson ms)]
  | .enumValues ms => .ofCase "type" "enum_values" [("values", toJson ms)]⟩

instance : ToJson Rule := ⟨fun
  | .required => .ofCase "rule" "required" []
  | .nested m => .ofCase "rule" "nested" [("message", toJson m)]
  | .format f => .ofCase "rule" "format" [("format", toJson f.name)]
  | .oneOf ms => .ofCase "rule" "in" [("members", toJson ms)]
  | .range min max => .ofCase "rule" "range" [("min", toJson min), ("max", toJson max)]
  | .length min max => .ofCase "rule" "length" [("min", toJson min), ("max", toJson max)]⟩

instance : ToJson FieldRules := ⟨fun f =>
  .object [("field", toJson f.field), ("name", toJson f.name), ("rules", toJson f.rules)]⟩

instance : ToJson OneofRules := ⟨fun o =>
  .object [("oneof", toJson o.oneof), ("name", toJson o.name), ("required", toJson o.required)]⟩

instance : ToJson MessageRules := ⟨fun m =>
  .object [("message", toJson m.message), ("function", toJson m.function),
    ("fields", toJson m.fields), ("oneofs", toJson m.oneofs)]⟩

/-! ### Converters -/

instance : ToJson ConverterRef := ⟨fun r =>
  .object [("kind", toJson r.kind.name), ("function", toJson r.function)]⟩

instance : ToJson Action := ⟨fun
  | .copy => .ofCase "action" "copy" []
  | .convert r => .ofCase "action" "convert" [("converter", toJson r)]⟩

instance : ToJson Side := ⟨fun
  | .ofPublic => .string "public"
  | .ofNext => .string "next"
  | .ofPrivate => .string "private"⟩

instance : ToJson Shape := ⟨fun
  | .down => .string "down"
  | .upFromPrivate => .string "up_from_private"
  | .upFromNext => .string "up_from_next"⟩

instance : ToJson CheckTarget := ⟨fun
  | .field => .string "field"
  | .oneof => .string "oneof"⟩

instance : ToJson RequiredCheck := ⟨fun r =>
  .object [("read", toJson r.side), ("name", toJson r.name), ("target", toJson r.target),
    ("public_name", toJson r.publicName)]⟩

instance : ToJson Assignment := ⟨fun a =>
  .object [("field", toJson a.field), ("read", toJson a.side), ("from", toJson a.source),
    ("to", toJson a.target), ("private_from", toJson a.privateSource),
    ("repeated", toJson a.repeated), ("action", toJson a.action)]⟩

instance : ToJson VariantArm := ⟨fun a =>
  .object [("from", toJson a.source), ("to", toJson a.target),
    ("private_from", toJson a.privateSource), ("action", toJson a.action)]⟩

instance : ToJson OneofMapping := ⟨fun o =>
  .object [("oneof", toJson o.oneof), ("read", toJson o.side), ("from", toJson o.source),
    ("to", toJson o.target), ("private_from", toJson o.privateSource), ("arms", toJson o.arms)]⟩

instance : ToJson EnumCase := ⟨fun k =>
  .object [("from", toJson k.source), ("to", toJson k.target)]⟩

instance : ToJson Converter := ⟨fun
  | .message m => .ofCase "subject" "message"
      [("function", toJson m.function), ("kind", toJson m.kind.name), ("shape", toJson m.shape),
        ("message", toJson m.message), ("public_name", toJson m.publicName),
        ("counterpart", toJson m.counterpart), ("counterpart_name", toJson m.counterpartName),
        ("private", toJson m.privateMessage), ("required", toJson m.required),
        ("assignments", toJson m.assignments), ("oneofs", toJson m.oneofs),
        ("unconverted", toJson m.unconverted)]
  | .enumeration e => .ofCase "subject" "enum"
      [("function", toJson e.function), ("kind", toJson e.kind.name),
        ("enumeration", toJson e.enumeration), ("counterpart", toJson e.counterpart),
        ("cases", toJson e.cases), ("fallback", toJson e.fallback)]⟩

instance : ToJson Claim := ⟨fun
  | .canonical => .string "canonical"
  | .explicit => .string "explicit"⟩

instance : ToJson Receive := ⟨fun r =>
  .object [("source", toJson r.source), ("source_name", toJson r.sourceName),
    ("public", toJson r.target), ("public_name", toJson r.targetName), ("claim", toJson r.claim)]⟩

instance : ToJson ReceiveTable := ⟨fun t =>
  .object [("public", toJson t.enumeration), ("source", toJson t.source),
    ("entries", toJson t.entries)]⟩

/-! ### Versions -/

instance : ToJson Route := ⟨fun
  | .toNext => .string "next"
  | .toPrivate => .string "private"
  | .backend => .string "backend"⟩

instance : ToJson DeprecatedInput := ⟨fun i =>
  .object [("field", toJson i.field), ("private_field", toJson i.privateField),
    ("setter", toJson i.setter), ("repeated", toJson i.repeated), ("action", toJson i.action)]⟩

instance : ToJson MethodPlan := ⟨fun m =>
  .object [("method", toJson m.method), ("name", toJson m.name),
    ("deprecated", toJson m.deprecated),
    ("route", toJson m.route), ("input", toJson m.input), ("output", toJson m.output),
    ("validate", toJson m.validate), ("down", toJson m.down), ("up", toJson m.up),
    ("target", toJson m.target), ("deprecated_inputs", toJson m.deprecatedInputs)]⟩

instance : ToJson Setter := ⟨fun s =>
  .object [("field", toJson s.field), ("function", toJson s.function)]⟩

instance : ToJson Mutator := ⟨fun m =>
  .object [("message", toJson m.message), ("message_name", toJson m.messageName),
    ("setters", toJson m.setters)]⟩

instance : ToJson VersionPlan := ⟨fun v =>
  .object [("version", toJson v.version), ("package", toJson v.package),
    ("service", toJson v.service), ("validator_name", toJson v.validatorName),
    ("converter_name", toJson v.converterName), ("validators", toJson v.validators),
    ("converters", .ofTable v.converters), ("methods", toJson v.methods),
    ("mutators", toJson v.mutators), ("receive_tables", toJson v.tables)]⟩

end Lineage
