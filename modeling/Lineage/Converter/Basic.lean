import Lineage.Chain.Basic
import Lineage.Text.Upper

namespace Lineage

/-!
# Converters, methods and mutators

What is generated for one version, by the names of records and fields alone.

* `MessageConverter`, `EnumConverter`, `Converter` — a conversion between a public type and its
  counterpart,
* `ReceiveTable` — which values of a counterpart are received as which public values,
* `MethodPlan` — how a method handles a request,
* `Mutator` — setters that write deprecated inputs into a private request.
-/

/-! ### Kinds of converters -/

/-- Where a converter leads. -/
inductive ConverterKind where
  /-- Down to the next version. -/
  | toNext
  /-- Down to the private version. -/
  | toPrivate
  /-- Up to a public type. -/
  | toPublic
  /-- Up to a deprecated public type, from the private version only. -/
  | toDeprecatedPublic
deriving DecidableEq

namespace ConverterKind

/-- How the names of converters of a kind begin. -/
def name : ConverterKind → String
  | toNext => "ToNext"
  | toPrivate => "ToPrivate"
  | toPublic => "ToPublic"
  | toDeprecatedPublic => "ToDeprecatedPublic"

/-- Whether data moves towards the private version. -/
def isDown : ConverterKind → Bool
  | toNext | toPrivate => true
  | toPublic | toDeprecatedPublic => false

/-- The name of a converter for a type, such as `ToPublicPerson_Employment`. -/
def functionName (kind : ConverterKind) (localName : String) : String :=
  kind.name ++ typeIdent localName

end ConverterKind

/-- Which records a message converter reads. -/
inductive Shape where
  /-- The public record; its counterpart is written. -/
  | down
  /-- The private record alone. -/
  | upFromPrivate
  /-- The next version's record and the private record together. -/
  | upFromNext
deriving DecidableEq

/-- The record that a value is read from. -/
inductive Side where
  | ofPublic
  | ofNext
  | ofPrivate
deriving DecidableEq

/-- A converter of the same version, by name. -/
structure ConverterRef where
  kind : ConverterKind
  function : String
deriving DecidableEq

/-- How a value gets to its place. -/
inductive Action where
  | copy
  | convert (converter : ConverterRef)
deriving DecidableEq

/-! ### Message converters -/

/-- A plain field written by a message converter. -/
structure Assignment where
  /-- The public field that it belongs to. -/
  field : FieldId
  side : Side
  /-- The field that is read. -/
  source : String
  /-- The field that is written. -/
  target : String
  /-- The private field that a nested conversion reads besides. -/
  privateSource : Option String
  /-- Element by element. -/
  repeated : Bool
  action : Action
deriving DecidableEq

/-- What happens to one variant of a oneof. -/
structure VariantArm where
  source : String
  target : String
  /-- The private variant that a nested conversion reads besides. -/
  privateSource : Option String
  action : Action
deriving DecidableEq

/-- A oneof written by a message converter, by the variant that is set. -/
structure OneofMapping where
  /-- The public oneof. -/
  oneof : OneofId
  side : Side
  source : String
  target : String
  /-- The private oneof that nested conversions read besides. -/
  privateSource : Option String
  arms : List VariantArm
deriving DecidableEq

/-- What a check of a received record looks at. -/
inductive CheckTarget where
  | field
  | oneof
deriving DecidableEq

/-- A member that must be present on the record it is received from. -/
structure RequiredCheck where
  side : Side
  /-- The name of the member on that record. -/
  name : String
  target : CheckTarget
  /-- The public name, for the report. -/
  publicName : String
deriving DecidableEq

/-- The converter between a public message and its counterpart. -/
structure MessageConverter where
  function : String
  kind : ConverterKind
  shape : Shape
  message : MessageId
  publicName : String
  counterpart : MessageId
  counterpartName : String
  /-- The private message, if the next version's record is read. -/
  privateMessage : Option MessageId
  /-- Checked before anything is written. -/
  required : List RequiredCheck
  assignments : List Assignment
  oneofs : List OneofMapping
  /-- The fields for which there is no way across. -/
  unconverted : List String
deriving DecidableEq

/-- The full name of the record that a converter produces. -/
def MessageConverter.outputName (m : MessageConverter) : String :=
  if m.kind.isDown then m.counterpartName else m.publicName

/-! ### Enum converters -/

/-- A value of an enum, by name, and what it becomes. -/
structure EnumCase where
  source : String
  target : String
deriving DecidableEq

/-- The converter between a public enum and its counterpart. -/
structure EnumConverter where
  function : String
  kind : ConverterKind
  enumeration : EnumId
  counterpart : EnumId
  cases : List EnumCase
  /-- What a value without a case becomes; without it the conversion fails. -/
  fallback : Option String
deriving DecidableEq

/-- A converter. -/
inductive Converter where
  | message (m : MessageConverter)
  | enumeration (e : EnumConverter)
deriving DecidableEq

/-- The name that a converter is called by. -/
def Converter.function : Converter → String
  | message m => m.function
  | enumeration e => e.function

/-- The kind that a converter was asked for as. -/
def Converter.kind : Converter → ConverterKind
  | message m => m.kind
  | enumeration e => e.kind

/-! ### Receive tables -/

/-- Why a value is received as a public value. -/
inductive Claim where
  /-- It is the public value's delegate. -/
  | canonical
  /-- The public value says so. -/
  | explicit
deriving DecidableEq

/-- A value that is received as a public value. -/
structure Receive where
  source : ValueId
  sourceName : String
  target : ValueId
  targetName : String
  claim : Claim
deriving DecidableEq

/-- What the values of an enum are received as. -/
structure ReceiveTable where
  /-- The public enum. -/
  enumeration : EnumId
  /-- Its counterpart, whose values are received. -/
  source : EnumId
  /-- By public value as declared; of each the delegate first. -/
  entries : List Receive
deriving DecidableEq

namespace ReceiveTable

/-- The public value that a value is received as. -/
def lookup (t : ReceiveTable) (source : ValueId) : Option ValueId :=
  (t.entries.find? (·.source == source)).map (·.target)

/-- The entries of a public value. -/
def receivedBy (t : ReceiveTable) (target : ValueId) : List Receive :=
  t.entries.filter (·.target == target)

end ReceiveTable

/-! ### Methods and mutators -/

/-- Where a request goes. -/
inductive Route where
  | toNext
  /-- Past all versions in between. -/
  | toPrivate
  /-- To the implementation itself. -/
  | backend
deriving DecidableEq

/-- A deprecated input, which is written straight into the private request. -/
structure DeprecatedInput where
  field : String
  privateField : String
  setter : String
  repeated : Bool
  action : Action
deriving DecidableEq

/-- How a method handles a request. -/
structure MethodPlan where
  method : MethodId
  name : String
  deprecated : Bool
  route : Route
  input : MessageId
  output : MessageId
  /-- The validator of the request. -/
  validate : String
  /-- The converter of the request. -/
  down : Option String
  /-- The converter of the response. -/
  up : Option String
  /-- The method that is called where the request goes. -/
  target : String
  deprecatedInputs : List DeprecatedInput
deriving DecidableEq

/-- A setter of a private field. -/
structure Setter where
  field : String
  function : String
deriving DecidableEq

/-- The setters of a private request message. -/
structure Mutator where
  message : MessageId
  messageName : String
  setters : List Setter
deriving DecidableEq

/-- The name of the setter of a field: its words, each with its first character in upper case. -/
def setterName (field : String) : String :=
  "Set" ++ String.join ((Text.splitAt '_' field).map Text.upperFirst)

/-! ### Errors -/

/-- Whether a method mismatch concerns the request or the response. -/
inductive Role where
  | input
  | output
deriving DecidableEq

/-- A role as errors name it. -/
def Role.name : Role → String
  | input => "input"
  | output => "output"

/-- Why conversions cannot be specified. -/
inductive ConversionError where
  /-- A deprecated message is not converted down. -/
  | deprecatedDown (message function : String)
  /-- Something has no counterpart where the converter needs one. -/
  | unresolved (entity function : String)
  /-- A nested converter does not produce the type of the field it is for. -/
  | missingConverter (field function expected : String)
  /-- The request or response of a method does not correspond to that of its target. -/
  | methodMismatch (method : String) (role : Role) (found expected : String)
  | receiveValueNotFound (value enumeration target : String)
  /-- Two public values claim one value. -/
  | receiveConflict (source first second : String)
deriving DecidableEq

/-- What is wrong, in words. -/
def ConversionError.message : ConversionError → String
  | deprecatedDown m function =>
    "deprecated message " ++ m ++ " has no Down converter (" ++ function ++ ")"
  | unresolved entity function => entity ++ " has no counterpart for " ++ function
  | missingConverter field function expected =>
    "field " ++ field ++ ": " ++ function ++ " does not produce " ++ expected
  | methodMismatch m role found expected =>
    "method " ++ m ++ ": " ++ role.name ++ " " ++ found ++ " does not correspond to " ++ expected
  | receiveValueNotFound value enumeration target =>
    "enum value " ++ value ++ " receives unknown value '" ++ target ++ "' of " ++ enumeration
  | receiveConflict source first second =>
    "enum value " ++ source ++ " is received by both " ++ first ++ " and " ++ second

end Lineage
