import Lineage.Annotation.Basic
import Lineage.Chain.Id

namespace Lineage

/-!
# The chain of versions

A chain holds the versions of one service, the oldest public version first and the private version
last, and the nodes of all of them, one array per kind of node.  A node refers to others by position
only; its links lead to versions behind its own.

* `Chain` — versions and nodes,
* `Chain.message`, `Chain.field`, … — the node at a position,
* `Chain.findMessage`, `Chain.findField`, … — look-up by name inside a version, message or enum.
-/

/-! ### Nodes -/

/-- One version of the service. -/
structure Version where
  id : VersionId
  package : String
  service : String
  /-- The version at the end of the chain, which implements the service. -/
  isPrivate : Bool
  /-- The public version next to the private one. -/
  isLatest : Bool
  link : Link VersionId
  messages : List MessageId := []
  enums : List EnumId := []
  methods : List MethodId := []
deriving DecidableEq, Inhabited

/-- What a field of message or enum kind refers to. -/
inductive TypeRef where
  | message (id : MessageId)
  | enumeration (id : EnumId)
  /-- A type that no version owns, by its full name. -/
  | external (name : String)
deriving DecidableEq

/-- What a nested conversion converts. -/
inductive ConvertKind where
  | message
  | enumeration
deriving DecidableEq

/-- How the value of a field crosses one hop. -/
inductive Propagation where
  /-- The scalar kinds agree; the value is copied. -/
  | copy
  /-- A nested conversion is needed. -/
  | convert (kind : ConvertKind)
  /-- Both sides refer to one message type outside the chain; the value is copied. -/
  | shared
  /-- There is no way across. -/
  | unconvertible
deriving DecidableEq, Inhabited

/-- Whether the value is copied as a scalar. -/
def Propagation.isMatch (p : Propagation) : Bool := p == copy

/-- Whether the value crosses at all. -/
def Propagation.isPropagated (p : Propagation) : Bool := p != unconvertible

/-- A message of one version. -/
structure Message where
  id : MessageId
  version : VersionId
  name : String
  localName : String
  fullName : String
  /-- The enclosing message. -/
  parent : Option MessageId
  /-- The fields as declared, variants of oneofs included. -/
  fields : List FieldId := []
  oneofs : List OneofId := []
  deprecated : Bool
  delegate : Option String
  /-- Some method takes it. -/
  isInput : Bool := false
  /-- Some method returns it. -/
  isOutput : Bool := false
  link : Link MessageId := {}
deriving DecidableEq, Inhabited

/-- A field of a message, or a variant of one of its oneofs. -/
structure Field where
  id : FieldId
  message : MessageId
  name : String
  number : Int
  kind : FieldKind
  repeated : Bool
  typeRef : Option TypeRef
  /-- The oneof that the field is a variant of. -/
  oneof : Option OneofId
  /-- Declared so, or the message is. -/
  deprecated : Bool
  delegate : Option String
  validate : ValidateDirectives
  /-- Must be set on the record it is received from. -/
  receiveRequired : Bool
  link : Link FieldId := {}
  /-- How its value reaches its counterpart across the hop. -/
  propagation : Propagation := .unconvertible
deriving DecidableEq

instance : Inhabited Field :=
  ⟨⟨default, default, "", 0, .message, false, none, none, false, none, {}, false, {}, default⟩⟩

/-- A oneof of a message. -/
structure Oneof where
  id : OneofId
  message : MessageId
  name : String
  /-- Its variants. -/
  fields : List FieldId := []
  /-- Declared so, or the message is. -/
  deprecated : Bool
  delegate : Option String
  /-- A variant must be set on valid input. -/
  required : Bool
  /-- A variant must be set on the record it is received from. -/
  receiveRequired : Bool
  link : Link OneofId := {}
deriving DecidableEq, Inhabited

/-- An enum of one version. -/
structure Enum where
  id : EnumId
  version : VersionId
  name : String
  localName : String
  fullName : String
  /-- The enclosing message. -/
  parent : Option MessageId
  values : List ValueId
  /-- Declared so, or only fields of deprecated messages refer to it. -/
  deprecated : Bool
  delegate : Option String
  link : Link EnumId := {}
deriving DecidableEq, Inhabited

/-- A value of an enum. -/
structure EnumValue where
  id : ValueId
  enumeration : EnumId
  name : String
  number : Int
  /-- Declared so, or the enum is. -/
  deprecated : Bool
  delegate : Option String
  /-- Further values of the counterpart that are received as this one. -/
  receive : List String
  link : Link ValueId := {}
deriving DecidableEq, Inhabited

/-- A method of the service of one version. -/
structure Method where
  id : MethodId
  version : VersionId
  name : String
  input : MessageId
  output : MessageId
  deprecated : Bool
  delegate : Option String
  link : Link MethodId := {}
deriving DecidableEq, Inhabited

/-- Versions and nodes, each at its position. -/
structure Chain where
  versions : Array Version := #[]
  messages : Array Message := #[]
  fields : Array Field := #[]
  oneofs : Array Oneof := #[]
  enums : Array Enum := #[]
  values : Array EnumValue := #[]
  methods : Array Method := #[]
deriving DecidableEq, Inhabited

/-- The last segment of a dotted name. -/
def lastSegment (name : String) : String :=
  String.ofList (((Text.pieces '.' name.toList).getLast?).getD [])

/-- The short name of a version: the last segment of its package. -/
def Version.shortName (v : Version) : String := lastSegment v.package

/-- A local name as part of an identifier: the dots become underscores. -/
def typeIdent (localName : String) : String :=
  String.ofList (localName.toList.map fun c => if c == '.' then '_' else c)

namespace Chain

/-! ### Nodes by position

A position that the chain does not have stands for a default node. -/

/-- The version at a position. -/
def version (c : Chain) (id : VersionId) : Version := c.versions.getD id.index default

/-- The message at a position. -/
def message (c : Chain) (id : MessageId) : Message := c.messages.getD id.index default

/-- The field at a position. -/
def field (c : Chain) (id : FieldId) : Field := c.fields.getD id.index default

/-- The oneof at a position. -/
def oneof (c : Chain) (id : OneofId) : Oneof := c.oneofs.getD id.index default

/-- The enum at a position. -/
def enumeration (c : Chain) (id : EnumId) : Enum := c.enums.getD id.index default

/-- The enum value at a position. -/
def value (c : Chain) (id : ValueId) : EnumValue := c.values.getD id.index default

/-- The method at a position. -/
def method (c : Chain) (id : MethodId) : Method := c.methods.getD id.index default

/-! ### Nodes by name -/

/-- The public versions, oldest first. -/
def publicVersions (c : Chain) : List Version := c.versions.toList.filter (!·.isPrivate)

/-- The first version of a package. -/
def versionOf? (c : Chain) (package : String) : Option Version :=
  c.versions.toList.find? (·.package == package)

/-- The message of a version with a local name; of several the last one. -/
def findMessage (c : Chain) (version : VersionId) (localName : String) : Option MessageId :=
  (c.version version).messages.reverse.find? fun m => (c.message m).localName == localName

/-- The enum of a version with a local name; of several the last one. -/
def findEnum (c : Chain) (version : VersionId) (localName : String) : Option EnumId :=
  (c.version version).enums.reverse.find? fun e => (c.enumeration e).localName == localName

/-- The method of a version with a name; of several the last one. -/
def findMethod (c : Chain) (version : VersionId) (name : String) : Option MethodId :=
  (c.version version).methods.reverse.find? fun m => (c.method m).name == name

/-- The first field of a message with a name. -/
def findField (c : Chain) (message : MessageId) (name : String) : Option FieldId :=
  (c.message message).fields.find? fun f => (c.field f).name == name

/-- The first oneof of a message with a name. -/
def findOneof (c : Chain) (message : MessageId) (name : String) : Option OneofId :=
  (c.message message).oneofs.find? fun o => (c.oneof o).name == name

/-- The first variant of a oneof with a name. -/
def findVariant (c : Chain) (oneof : OneofId) (name : String) : Option FieldId :=
  (c.oneof oneof).fields.find? fun f => (c.field f).name == name

/-- The first value of an enum with a name. -/
def findValue (c : Chain) (enumeration : EnumId) (name : String) : Option ValueId :=
  (c.enumeration enumeration).values.find? fun v => (c.value v).name == name

/-! ### Parts and names -/

/-- The fields of a message that are no variants. -/
def plainFields (c : Chain) (message : MessageId) : List Field :=
  ((c.message message).fields.map c.field).filter (·.oneof.isNone)

/-- The full name of a field. -/
def fieldPath (c : Chain) (f : FieldId) : String :=
  (c.message (c.field f).message).fullName ++ "." ++ (c.field f).name

/-- The package that owns a message. -/
def messagePackage (c : Chain) (m : MessageId) : String := (c.version (c.message m).version).package

/-- The package that owns an enum. -/
def enumPackage (c : Chain) (e : EnumId) : String :=
  (c.version (c.enumeration e).version).package

end Chain

end Lineage
