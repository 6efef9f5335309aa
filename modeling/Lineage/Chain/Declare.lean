import Lineage.Chain.Basic
import Lineage.Chain.Error

namespace Lineage.Chain

/-!
# Declaring the nodes of a chain

Versions are declared one after the other, each with its messages, its enums with their values, the
oneofs and fields of its messages, and its methods.  A node gets the next free position of its kind.

* `addMessage`, `addEnum`, `addFields`, `addMethod` — one declaration each,
* `addVersion` — everything a package declares,
* `inheritDeprecation` — members of what is deprecated are deprecated themselves.

A field or method refers to the last message or enum of a full name that is declared so far;
messages of later versions are outside the chain for it.
-/

/-- A reading of an annotation, an error naming the annotated declaration. -/
def annotated (kind : EntityKind) (entity : String) (r : Except AnnotationError α) :
    Except ChainError α :=
  r.mapError (.unreadable kind entity)

/-! ### Changing nodes -/

/-- The chain with one version changed. -/
def modifyVersion (c : Chain) (id : VersionId) (f : Version → Version) : Chain :=
  { c with versions := c.versions.modify id.index f }

/-- The chain with one message changed. -/
def modifyMessage (c : Chain) (id : MessageId) (f : Message → Message) : Chain :=
  { c with messages := c.messages.modify id.index f }

/-- The chain with one field changed. -/
def modifyField (c : Chain) (id : FieldId) (f : Field → Field) : Chain :=
  { c with fields := c.fields.modify id.index f }

/-- The chain with one oneof changed. -/
def modifyOneof (c : Chain) (id : OneofId) (f : Oneof → Oneof) : Chain :=
  { c with oneofs := c.oneofs.modify id.index f }

/-- The chain with one enum changed. -/
def modifyEnum (c : Chain) (id : EnumId) (f : Enum → Enum) : Chain :=
  { c with enums := c.enums.modify id.index f }

/-- The chain with one enum value changed. -/
def modifyValue (c : Chain) (id : ValueId) (f : EnumValue → EnumValue) : Chain :=
  { c with values := c.values.modify id.index f }

/-- The chain with one method changed. -/
def modifyMethod (c : Chain) (id : MethodId) (f : Method → Method) : Chain :=
  { c with methods := c.methods.modify id.index f }

/-! ### Types by full name -/

/-- The last message declared under a full name. -/
def messageNamed? (c : Chain) (fullName : String) : Option MessageId :=
  (c.messages.toList.reverse.find? (·.fullName == fullName)).map (·.id)

/-- The last enum declared under a full name. -/
def enumNamed? (c : Chain) (fullName : String) : Option EnumId :=
  (c.enums.toList.reverse.find? (·.fullName == fullName)).map (·.id)

/-! ### Messages and enums -/

/-- A message, without its members. -/
def addMessage (source : AnnotationSource) (version : VersionId) (c : Chain) (s : MessageSchema) :
    Except ChainError Chain := do
  let read {α} := @annotated α .message s.fullName
  let deprecated ← read (source.isDeprecated .message s.carrier)
  let delegate ← read (source.delegate? .message s.carrier)
  let id : MessageId := ⟨c.messages.size⟩
  let node : Message :=
    { id, version, name := s.name, localName := s.localName, fullName := s.fullName
      parent := s.parent.bind (c.findMessage version), deprecated, delegate }
  return { c with messages := c.messages.push node }.modifyVersion version fun v =>
    { v with messages := v.messages ++ [id] }

/-- A value of the enum that is declared next. -/
def addValue (source : AnnotationSource) (enumName : String) (enumeration : EnumId) (c : Chain)
    (s : EnumValueSchema) : Except ChainError Chain := do
  let read {α} := @annotated α .enumValue (enumName ++ "." ++ s.name)
  let deprecated ← read (source.isDeprecated .enumValue s.carrier)
  let delegate ← read (source.delegate? .enumValue s.carrier)
  let receive ← read (source.receive .enumValue s.carrier)
  let node : EnumValue :=
    { id := ⟨c.values.size⟩, enumeration, name := s.name, number := s.number, deprecated, delegate
      receive := receive.names }
  return { c with values := c.values.push node }

/-- An enum with its values. -/
def addEnum (source : AnnotationSource) (version : VersionId) (c : Chain) (s : EnumSchema) :
    Except ChainError Chain := do
  let read {α} := @annotated α .enumeration s.fullName
  let deprecated ← read (source.isDeprecated .enumeration s.carrier)
  let delegate ← read (source.delegate? .enumeration s.carrier)
  let id : EnumId := ⟨c.enums.size⟩
  let withValues ← s.values.foldlM (addValue source s.fullName id) c
  let node : Enum :=
    { id, version, name := s.name, localName := s.localName, fullName := s.fullName
      parent := s.parent.bind (c.findMessage version)
      values := (List.range s.values.length).map fun i => ⟨c.values.size + i⟩
      deprecated, delegate }
  return { withValues with enums := withValues.enums.push node }.modifyVersion version fun v =>
    { v with enums := v.enums ++ [id] }

/-! ### Oneofs and fields -/

/-- A oneof of a message, without its variants. -/
def addOneof (source : AnnotationSource) (message : MessageId) (messageName : String) (c : Chain)
    (s : OneofSchema) : Except ChainError Chain := do
  let read {α} := @annotated α .oneof (messageName ++ "." ++ s.name)
  let deprecated ← read (source.isDeprecated .oneof s.carrier)
  let delegate ← read (source.delegate? .oneof s.carrier)
  let validate ← read (source.validate .oneof s.carrier)
  let receive ← read (source.receive .oneof s.carrier)
  let id : OneofId := ⟨c.oneofs.size⟩
  let node : Oneof :=
    { id, message, name := s.name, deprecated, delegate
      required := validate.required, receiveRequired := receive.required }
  return { c with oneofs := c.oneofs.push node }.modifyMessage message fun m =>
    { m with oneofs := m.oneofs ++ [id] }

/-- What a field of a kind refers to by a full name. -/
def typeRef (c : Chain) (kind : FieldKind) (name : String) : TypeRef :=
  match kind with
  | .message => ((c.messageNamed? name).map TypeRef.message).getD (.external name)
  | .enumeration => ((c.enumNamed? name).map TypeRef.enumeration).getD (.external name)
  | .scalar _ => .external name

/-- An enum outside the chain has no values that could be converted, so it is refused. -/
def checkType (entity : String) (kind : FieldKind) (type : Option TypeRef) :
    Except ChainError Unit :=
  match kind, type with
  | .enumeration, some (.external name) => .error (.typeNotFound entity name)
  | _, _ => .ok ()

/-- A field of a message whose oneofs are declared. -/
def addField (source : AnnotationSource) (message : MessageId) (messageName : String) (c : Chain)
    (s : FieldSchema) : Except ChainError Chain := do
  let entity := messageName ++ "." ++ s.name
  let read {α} := @annotated α .field entity
  let deprecated ← read (source.isDeprecated .field s.carrier)
  let delegate ← read (source.delegate? .field s.carrier)
  let validate ← read (source.validate .field s.carrier)
  let receive ← read (source.receive .field s.carrier)
  let type := s.typeName.map (c.typeRef s.kind)
  checkType entity s.kind type
  let id : FieldId := ⟨c.fields.size⟩
  let oneof := s.oneof.bind fun k => (c.message message).oneofs[k]?
  let node : Field :=
    { id, message, name := s.name, number := s.number, kind := s.kind, repeated := s.repeated
      typeRef := type, oneof, deprecated, delegate, validate
      receiveRequired := receive.required }
  let c := { c with fields := c.fields.push node }
  let c := match oneof with
    | some o => c.modifyOneof o fun n => { n with fields := n.fields ++ [id] }
    | none => c
  return c.modifyMessage message fun m => { m with fields := m.fields ++ [id] }

/-- The oneofs of a message, then its fields. -/
def addMembers (source : AnnotationSource) (c : Chain) (m : MessageId × MessageSchema) :
    Except ChainError Chain := do
  let c ← m.2.oneofs.foldlM (addOneof source m.1 m.2.fullName) c
  m.2.fields.foldlM (addField source m.1 m.2.fullName) c

/-! ### Methods and versions -/

/-- The message a method takes or returns. -/
def methodType (c : Chain) (entity name : String) : Except ChainError MessageId :=
  match c.messageNamed? name with
  | some id => .ok id
  | none => .error (.typeNotFound entity name)

/-- A method of a version; the messages that it takes and returns are marked as such. -/
def addMethod (source : AnnotationSource) (version : VersionId) (package : String) (c : Chain)
    (s : MethodSchema) : Except ChainError Chain := do
  let entity := package ++ "." ++ s.name
  let read {α} := @annotated α .method entity
  let deprecated ← read (source.isDeprecated .method s.carrier)
  let delegate ← read (source.delegate? .method s.carrier)
  let input ← c.methodType entity s.input
  let output ← c.methodType entity s.output
  let id : MethodId := ⟨c.methods.size⟩
  let node : Method := { id, version, name := s.name, input, output, deprecated, delegate }
  let c := c.modifyMessage input fun m => { m with isInput := true }
  let c := c.modifyMessage output fun m => { m with isOutput := true }
  return { c with methods := c.methods.push node }.modifyVersion version fun v =>
    { v with methods := v.methods ++ [id] }

/-- The node of the version at a position in a chain of so many versions: the last one is private,
    all others lead to the one behind them and to the last. -/
def versionNode (count index : Nat) (package service : String) : Version :=
  let isPrivate := index + 1 == count
  { id := ⟨index⟩, package, service, isPrivate, isLatest := index + 2 == count
    link := if isPrivate then {} else { next := some ⟨index + 1⟩, final := some ⟨count - 1⟩ } }

/-- A version of a chain of so many versions, with everything its package declares. -/
def addVersion (source : AnnotationSource) (count : Nat) (c : Chain)
    (v : PackageSchema × ServiceSchema) : Except ChainError Chain := do
  let id : VersionId := ⟨c.versions.size⟩
  let first := c.messages.size
  let c := { c with versions := c.versions.push (versionNode count id.index v.1.name v.2.name) }
  let c ← v.1.messages.foldlM (addMessage source id) c
  let c ← v.1.enums.foldlM (addEnum source id) c
  let c ← (v.1.messages.zipIdx first).foldlM (fun c m => addMembers source c (⟨m.2⟩, m.1)) c
  v.2.methods.foldlM (addMethod source id v.1.name) c

/-! ### Deprecation -/

/-- Whether an enum is referred to, and only by fields of deprecated messages. -/
def onlyFromDeprecated (c : Chain) (e : EnumId) : Bool :=
  let referring := c.fields.toList.filter (·.typeRef == some (.enumeration e))
  !referring.isEmpty && referring.all fun f => (c.message f.message).deprecated

/-- Enums that are referred to only from deprecated messages are deprecated. -/
def deprecateEnums (c : Chain) : Chain :=
  let inherit (e : Enum) : Enum :=
    { e with deprecated := e.deprecated || c.onlyFromDeprecated e.id }
  { c with enums := c.enums.map inherit }

/-- Fields and oneofs inherit the deprecation of their message, values that of their enum. -/
def deprecateMembers (c : Chain) : Chain :=
  let field (f : Field) : Field :=
    { f with deprecated := f.deprecated || (c.message f.message).deprecated }
  let oneof (o : Oneof) : Oneof :=
    { o with deprecated := o.deprecated || (c.message o.message).deprecated }
  let value (v : EnumValue) : EnumValue :=
    { v with deprecated := v.deprecated || (c.enumeration v.enumeration).deprecated }
  { c with
    fields := c.fields.map field
    oneofs := c.oneofs.map oneof
    values := c.values.map value }

/-- What belongs to something deprecated is deprecated. -/
def inheritDeprecation (c : Chain) : Chain := c.deprecateEnums.deprecateMembers

end Lineage.Chain
