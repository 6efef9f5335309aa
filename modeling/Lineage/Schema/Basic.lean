import Lineage.Descriptor.Basic
import Lineage.Schema.Kind
import Lineage.Text.Blank

namespace Lineage

/-!
# Package schemas

The declarations of one package, gathered from all files that declare it.  Nested messages and enums
are flattened into the lists of the package, parents first; `localName` is the dotted path of names
inside the package.  References have no leading dot.

* `Carrier` — what the annotations of one declaration are read from: its comments and its options,
* `PackageSchema` — services, messages and enums of a package.
-/

/-- What a declaration is. -/
inductive EntityKind where
  | message
  | field
  | oneof
  | enumeration
  | enumValue
  | method
  | service
deriving DecidableEq

/-- The name of a kind of declaration. -/
def EntityKind.name : EntityKind → String
  | message => "message"
  | field => "field"
  | oneof => "oneof"
  | enumeration => "enum"
  | enumValue => "enum value"
  | method => "method"
  | service => "service"

/-- The comments in front of a declaration. -/
structure Comments where
  /-- The block directly above the declaration. -/
  leading : String := ""
  /-- The blocks above, separated from it by blank lines. -/
  detached : List String := []
deriving DecidableEq

/-- All lines of the comments, trimmed. -/
def Comments.lines (c : Comments) : List String := (c.leading :: c.detached).flatMap Text.lines

/-- What the annotations of a declaration are read from. -/
structure Carrier where
  comments : Comments := {}
  options : Options := []

/-- A field declaration. -/
structure FieldSchema where
  name : String
  number : Int
  kind : FieldKind
  repeated : Bool
  /-- The full name of the message or enum referred to. -/
  typeName : Option String
  /-- The position of the field's oneof among the message's oneofs. -/
  oneof : Option Nat
  carrier : Carrier

/-- A oneof declaration. -/
structure OneofSchema where
  name : String
  carrier : Carrier

/-- A message declaration. -/
structure MessageSchema where
  name : String
  localName : String
  fullName : String
  /-- The local name of the enclosing message. -/
  parent : Option String
  fields : List FieldSchema
  /-- The oneofs, without the synthetic ones of optional fields. -/
  oneofs : List OneofSchema
  carrier : Carrier

/-- An enum value declaration. -/
structure EnumValueSchema where
  name : String
  number : Int
  carrier : Carrier

/-- An enum declaration. -/
structure EnumSchema where
  name : String
  localName : String
  fullName : String
  /-- The local name of the enclosing message. -/
  parent : Option String
  values : List EnumValueSchema
  carrier : Carrier

/-- A method declaration. -/
structure MethodSchema where
  name : String
  /-- The full name of the request message. -/
  input : String
  /-- The full name of the response message. -/
  output : String
  carrier : Carrier

/-- A service declaration. -/
structure ServiceSchema where
  name : String
  methods : List MethodSchema
  carrier : Carrier

/-- Everything declared in one package. -/
structure PackageSchema where
  name : String
  services : List ServiceSchema := []
  messages : List MessageSchema := []
  enums : List EnumSchema := []

/-- A reference without the leading dot of a fully qualified one. -/
def trimReference (reference : String) : String :=
  match reference.toList with
  | '.' :: rest => String.ofList rest
  | _ => reference

/-- A name inside a package; the unnamed package adds nothing. -/
def qualify (package name : String) : String :=
  if package.isEmpty then name else package ++ "." ++ name

/-- A name inside an enclosing declaration, if there is one. -/
def nestedName (outer : Option String) (name : String) : String :=
  match outer with
  | some o => o ++ "." ++ name
  | none => name

end Lineage
