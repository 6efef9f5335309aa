import Lineage.Schema.Basic

namespace Lineage

/-!
# Package schemas of a descriptor set

* `messageTypes` — a message and all messages in it, each before what it encloses, and
  the enums inside them,
* `FileDescriptor.schema` — what one file contributes to its package,
* `DescriptorSet.packages` — the packages of a set, sorted by name.

Comments belong to the declaration whose path of descriptor positions a location gives; the numbers
in a path are the field numbers of the descriptor messages.
-/

/-- Why a descriptor set cannot be used. -/
inductive DescriptorError where
  /-- The text is no descriptor set. -/
  | malformed
  | missingName (kind : EntityKind) (file : String)
  | unknownType (field type : String)
deriving DecidableEq

/-- What is wrong, in words. -/
def DescriptorError.message : DescriptorError → String
  | malformed => "failed to parse descriptor set"
  | missingName kind file => kind.name ++ " in file '" ++ file ++ "' has no name"
  | unknownType field type => "field " ++ field ++ " has unsupported type '" ++ type ++ "'"

namespace Schema

/-- A path of descriptor positions. -/
abbrev Path := List Int

/-- The field numbers that the steps of a path are made of. -/
inductive Step where
  | fileMessage
  | fileEnum
  | fileService
  | messageField
  | messageNested
  | messageEnum
  | messageOneof
  | enumValue
  | serviceMethod

/-- The number that a path has for a step. -/
def Step.number : Step → Int
  | fileMessage => 4
  | fileEnum => 5
  | fileService => 6
  | messageField => 2
  | messageNested => 3
  | messageEnum => 4
  | messageOneof => 8
  | enumValue => 2
  | serviceMethod => 2

/-- The path of a part: the number of the list it is in, and its position there. -/
def Path.child (path : Path) (step : Step) (index : Nat) : Path :=
  path ++ [step.number, min (index : Int) 0x7FFFFFFF]

/-- What holds for all declarations of a file. -/
structure Context where
  file : String
  package : String
  locations : List Location

/-- A location that carries comments in front of its declaration. -/
def carriesComments (l : Location) : Bool := l.leading.isSome || !l.detached.isEmpty

/-- The comments at a path: those of the last location that has the path and carries any. -/
def Context.comments (ctx : Context) (path : Path) : Comments :=
  match ctx.locations.reverse.find? fun l => carriesComments l && l.path == path with
  | some l => { leading := l.leading.getD "", detached := l.detached }
  | none => {}

/-- What a declaration carries: the comments at its path, and its options. -/
def Context.carrier (ctx : Context) (path : Path) (options : Options) : Carrier :=
  { comments := ctx.comments path, options := options }

/-- The name of a declaration, which it must have. -/
def Context.name (ctx : Context) (kind : EntityKind) (name : Option String) :
    Except DescriptorError String :=
  match name with
  | some n => .ok n
  | none => .error (.missingName kind ctx.file)

/-! ### Enums -/

/-- A value at its position in the enum. -/
def enumValueSchema (ctx : Context) (path : Path) (v : EnumValueDescriptor × Nat) :
    Except DescriptorError EnumValueSchema := do
  return {
    name := ← ctx.name .enumValue v.1.name
    number := v.1.number.getD 0
    carrier := ctx.carrier (path.child .enumValue v.2) v.1.options }

/-- An enum, inside a message or on its own. -/
def enumSchema (ctx : Context) (parent : Option String) (path : Path) (e : EnumDescriptor) :
    Except DescriptorError EnumSchema := do
  let name ← ctx.name .enumeration e.name
  let localName := nestedName parent name
  return {
    name
    localName
    fullName := qualify ctx.package localName
    parent
    values := ← e.values.zipIdx.mapM (enumValueSchema ctx path)
    carrier := ctx.carrier path e.options }

/-! ### Fields and oneofs -/

/-- Whether a field is a variant of the oneof at a position, and not an optional field. -/
def isVariantOf (index : Nat) (f : FieldDescriptor) : Bool :=
  f.oneofIndex == some (index : Int) && !f.proto3Optional.getD false

/-- The oneofs that some field is a variant of, with their positions; all others are dropped. -/
def realOneofs (m : MessageDescriptor) : List (OneofDescriptor × Nat) :=
  m.oneofs.zipIdx.filter fun o => m.fields.any (isVariantOf o.2)

/-- The position among the kept oneofs of the one that a field is a variant of. -/
def oneofSlot (m : MessageDescriptor) (f : FieldDescriptor) : Option Nat :=
  if f.proto3Optional.getD false then none
  else (realOneofs m).findIdx? fun o => f.oneofIndex == some (o.2 : Int)

/-- A oneof at its position among all oneofs that were declared. -/
def oneofSchema (ctx : Context) (path : Path) (o : OneofDescriptor × Nat) :
    Except DescriptorError OneofSchema := do
  return {
    name := ← ctx.name .oneof o.1.name
    carrier := ctx.carrier (path.child .messageOneof o.2) o.1.options }

/-- A field at its position in the message; its label must be that of a kind. -/
def fieldSchema (ctx : Context) (m : MessageDescriptor) (fullName : String) (path : Path)
    (f : FieldDescriptor × Nat) : Except DescriptorError FieldSchema := do
  let name ← ctx.name .field f.1.name
  let label := f.1.type.getD ""
  match FieldKind.ofLabel? label with
  | none => .error (.unknownType (fullName ++ "." ++ name) label)
  | some kind =>
    return {
      name
      number := f.1.number.getD 0
      kind
      repeated := f.1.label == some "LABEL_REPEATED"
      typeName := f.1.typeName.map trimReference
      oneof := oneofSlot m f.1
      carrier := ctx.carrier (path.child .messageField f.2) f.1.options }

/-! ### Messages -/

/-- A message without what is nested in it. -/
def messageSchema (ctx : Context) (parent : Option String) (path : Path) (m : MessageDescriptor) :
    Except DescriptorError MessageSchema := do
  let name ← ctx.name .message m.name
  let localName := nestedName parent name
  let fullName := qualify ctx.package localName
  return {
    name
    localName
    fullName
    parent
    oneofs := ← (realOneofs m).mapM (oneofSchema ctx path)
    fields := ← m.fields.zipIdx.mapM (fieldSchema ctx m fullName path)
    carrier := ctx.carrier path m.options }

/-- Messages and enums, in the order in which a package lists them. -/
structure Types where
  messages : List MessageSchema := []
  enums : List EnumSchema := []

/-- First the one, then the other. -/
def Types.append (a b : Types) : Types :=
  { messages := a.messages ++ b.messages, enums := a.enums ++ b.enums }

instance : Append Types := ⟨Types.append⟩

mutual

/-- A message, then the messages nested in it with all they enclose, then its own enums. -/
def messageTypes (ctx : Context) (parent : Option String) (path : Path) :
    MessageDescriptor → Except DescriptorError Types
  | m@⟨_, _, nested, enums, _, _⟩ => do
    let schema ← messageSchema ctx parent path m
    let inner ← nestedTypes ctx schema.localName path 0 nested
    let own ← enums.zipIdx.mapM fun e =>
      enumSchema ctx (some schema.localName) (path.child .messageEnum e.2) e.1
    return { messages := [schema] } ++ inner ++ { enums := own }

/-- The messages nested in one message, from a position on. -/
def nestedTypes (ctx : Context) (outer : String) (path : Path) (index : Nat) :
    List MessageDescriptor → Except DescriptorError Types
  | [] => return {}
  | m :: rest => do
    let first ← messageTypes ctx (some outer) (path.child .messageNested index) m
    return first ++ (← nestedTypes ctx outer path (index + 1) rest)

end

/-! ### Services -/

/-- A method at its position in the service. -/
def methodSchema (ctx : Context) (path : Path) (m : MethodDescriptor × Nat) :
    Except DescriptorError MethodSchema := do
  return {
    name := ← ctx.name .method m.1.name
    input := trimReference (m.1.inputType.getD "")
    output := trimReference (m.1.outputType.getD "")
    carrier := ctx.carrier (path.child .serviceMethod m.2) m.1.options }

/-- A method without a name is found before the service itself lacks one. -/
def serviceSchema (ctx : Context) (path : Path) (s : ServiceDescriptor) :
    Except DescriptorError ServiceSchema := do
  let methods ← s.methods.zipIdx.mapM (methodSchema ctx path)
  return {
    name := ← ctx.name .service s.name
    methods
    carrier := ctx.carrier path s.options }

end Schema

open Schema

/-- What a file contributes to its package. -/
def FileDescriptor.schema (f : FileDescriptor) : Except DescriptorError PackageSchema := do
  let ctx : Context :=
    { file := f.name.getD "", package := f.package.getD "", locations := f.locations.getD [] }
  let types ← f.messages.zipIdx.mapM fun m =>
    messageTypes ctx none (Path.child [] .fileMessage m.2) m.1
  let inner := types.foldl (· ++ ·) ({} : Types)
  let enums ← f.enums.zipIdx.mapM fun e =>
    enumSchema ctx none (Path.child [] .fileEnum e.2) e.1
  let services ← f.services.zipIdx.mapM fun s =>
    serviceSchema ctx (Path.child [] .fileService s.2) s.1
  return {
    name := ctx.package, services
    messages := inner.messages, enums := inner.enums ++ enums }

/-- One package with the declarations of two of its parts. -/
def PackageSchema.merge (a b : PackageSchema) : PackageSchema :=
  { a with
    services := a.services ++ b.services
    messages := a.messages ++ b.messages
    enums := a.enums ++ b.enums }

/-- A further part of some package. -/
def addPart (packages : List (String × PackageSchema)) (part : PackageSchema) :
    List (String × PackageSchema) :=
  let known := (Sorted.get? packages part.name).getD { name := part.name }
  Sorted.insert part.name (known.merge part) packages

/-- The packages of a descriptor set, sorted by name. -/
def DescriptorSet.packages (set : DescriptorSet) : Except DescriptorError (List PackageSchema) := do
  let parts ← set.files.mapM FileDescriptor.schema
  return (parts.foldl addPart []).map (·.2)

end Lineage
