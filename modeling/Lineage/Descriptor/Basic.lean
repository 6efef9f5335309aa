import Lineage.Json.Basic

namespace Lineage

/-!
# Descriptors

A descriptor set is the compiled form of schema files: for each file its messages, enums and
services, and the source locations that carry comments.  Whatever a descriptor may leave out is
optional here; custom options stay JSON values under their keys.
-/

/-- The options of one declaration, sorted by key. -/
abbrev Options := List (String × Json)

/-- A oneof declaration. -/
structure OneofDescriptor where
  name : Option String := none
  options : Options := []

/-- A field declaration. -/
structure FieldDescriptor where
  name : Option String := none
  number : Option Int := none
  /-- `LABEL_REPEATED` marks a list. -/
  label : Option String := none
  /-- The label of the type, such as `TYPE_STRING`. -/
  type : Option String := none
  /-- The message or enum referred to, with a leading dot if it is fully qualified. -/
  typeName : Option String := none
  /-- The position of the field's oneof among the message's oneofs. -/
  oneofIndex : Option Int := none
  /-- Set on optional fields, whose oneof is synthetic. -/
  proto3Optional : Option Bool := none
  options : Options := []

/-- An enum value declaration. -/
structure EnumValueDescriptor where
  name : Option String := none
  number : Option Int := none
  options : Options := []

/-- An enum declaration. -/
structure EnumDescriptor where
  name : Option String := none
  values : List EnumValueDescriptor := []
  options : Options := []

/-- A message declaration with everything declared inside it. -/
structure MessageDescriptor where
  name : Option String := none
  fields : List FieldDescriptor := []
  nested : List MessageDescriptor := []
  enums : List EnumDescriptor := []
  oneofs : List OneofDescriptor := []
  options : Options := []

/-- A method declaration. -/
structure MethodDescriptor where
  name : Option String := none
  inputType : Option String := none
  outputType : Option String := none
  options : Options := []

/-- A service declaration. -/
structure ServiceDescriptor where
  name : Option String := none
  methods : List MethodDescriptor := []
  options : Options := []

/-- A place in the source, addressed by the path of descriptor positions that leads to the
    declaration, with the comments around it. -/
structure Location where
  path : List Int := []
  leading : Option String := none
  trailing : Option String := none
  detached : List String := []

/-- One compiled schema file. -/
structure FileDescriptor where
  name : Option String := none
  package : Option String := none
  messages : List MessageDescriptor := []
  enums : List EnumDescriptor := []
  services : List ServiceDescriptor := []
  /-- The source locations, absent if the file carries no source information. -/
  locations : Option (List Location) := none

/-- A set of compiled schema files, in dependency order. -/
structure DescriptorSet where
  files : List FileDescriptor := []

instance : Inhabited MessageDescriptor := ⟨{}⟩

end Lineage
