import Lineage.Descriptor.Basic

namespace Lineage.Descriptor

open Json

/-!
# Reading descriptor sets from JSON

A reader takes a bound on the nesting that is still allowed and a document.  An object is read by
the names of its entries: unknown entries are skipped whatever they hold, a known name may occur
once, a missing one stands for the default.  An array in place of an object gives the entries in the
order of their declaration.

* `Slots` — the entries of one object, by name,
* `set` — the reader of descriptor sets, built from one reader per kind of declaration,
* `DescriptorSet.ofText?` — the descriptor set that a text is.
-/

/-- Reads a document that may nest at most so many containers. -/
abbrev Reader (α : Type) := Nat → Document → Option α

/-! ### Plain values -/

/-- A text. -/
def text : Reader String
  | _, .text s => s
  | _, _ => none

/-- A truth value. -/
def flag : Reader Bool
  | _, .bool b => some b
  | _, _ => none

/-- An integer literal of thirty-two bits; no other way to write a number counts as one. -/
def int32 : Reader Int
  | _, .number n =>
    match n.value? with
    | some (.integer k) => if -0x80000000 ≤ k && k < 0x80000000 then some k else none
    | _ => none
  | _, _ => none

/-- A value that `null` leaves out. -/
def optional (read : Reader α) : Reader (Option α)
  | _, .null => some none
  | depth, d => (read depth d).map some

/-- An array of what one reader reads, one level deeper. -/
def list (read : Reader α) : Reader (List α)
  | depth + 1, .array items => items.mapM (read depth)
  | _, _ => none

/-- Options are an object of arbitrary values; the last entry of a key counts. -/
def options : Reader Options := fun depth d =>
  match d with
  | .object _ =>
    match Json.ofDocument? depth d with
    | some (.object entries) => some entries
    | _ => none
  | _ => none

/-! ### Objects -/

/-- The entries of an object by name, and how deep they may nest. -/
structure Slots where
  depth : Nat
  entries : List (String × Document)

/-- Whether no name occurs twice. -/
def distinct : List String → Bool
  | [] => true
  | k :: ks => !ks.contains k && distinct ks

/-- The slots of an object whose entries have the given names. -/
def slots? (names : List String) : Reader Slots
  | depth + 1, .object entries => do
    let keyed ← entries.mapM fun (e : Option String × Document) => e.1.map (·, e.2)
    let known := keyed.filter fun e => names.contains e.1
    if distinct (known.map (·.1)) then some ⟨depth, known⟩ else none
  | depth + 1, .array items =>
    if items.length ≤ names.length then some ⟨depth, names.zip items⟩ else none
  | _, _ => none

/-- The value of one slot, or the default if the object leaves it out. -/
def Slots.get (s : Slots) (name : String) (read : Reader α) (default : α) : Option α :=
  match s.entries.lookup name with
  | some d => read s.depth d
  | none => some default

/-- An entry that may be missing or `null`. -/
def Slots.opt (s : Slots) (name : String) (read : Reader α) : Option (Option α) :=
  s.get name (optional read) none

/-- An entry that is an array, empty if missing. -/
def Slots.items (s : Slots) (name : String) (read : Reader α) : Option (List α) :=
  s.get name (list read) []

/-- The entry `options`, empty if missing. -/
def Slots.options (s : Slots) : Option Options := s.get "options" Descriptor.options []

/-- Reads an object by its slots. -/
def object (names : List String) (build : Slots → Option α) : Reader α := fun depth d =>
  (slots? names depth d).bind build

/-! ### Declarations -/

/-- A oneof declaration. -/
def oneof : Reader OneofDescriptor := object ["name", "options"] fun s => do
  return { name := ← s.opt "name" text, options := ← s.options }

/-- A field declaration. -/
def field : Reader FieldDescriptor :=
  object ["name", "number", "label", "type", "typeName", "oneofIndex", "proto3Optional",
    "options"] fun s => do
  return {
    name := ← s.opt "name" text
    number := ← s.opt "number" int32
    label := ← s.opt "label" text
    type := ← s.opt "type" text
    typeName := ← s.opt "typeName" text
    oneofIndex := ← s.opt "oneofIndex" int32
    proto3Optional := ← s.opt "proto3Optional" flag
    options := ← s.options }

/-- The declaration of an enum value. -/
def enumValue : Reader EnumValueDescriptor := object ["name", "number", "options"] fun s => do
  return {
    name := ← s.opt "name" text
    number := ← s.opt "number" int32
    options := ← s.options }

/-- An enum declaration. -/
def enumeration : Reader EnumDescriptor := object ["name", "value", "options"] fun s => do
  return {
    name := ← s.opt "name" text
    values := ← s.items "value" enumValue
    options := ← s.options }

/-- A message, given the reader of the messages nested in it. -/
def messageWith (nested : Reader MessageDescriptor) : Reader MessageDescriptor :=
  object ["name", "field", "nestedType", "enumType", "oneofDecl", "options"] fun s => do
  return {
    name := ← s.opt "name" text
    fields := ← s.items "field" field
    nested := ← s.items "nestedType" nested
    enums := ← s.items "enumType" enumeration
    oneofs := ← s.items "oneofDecl" oneof
    options := ← s.options }

/-- A nested message lies two containers deeper: in the list, and in itself. -/
def message : Reader MessageDescriptor
  | depth + 2, d => messageWith (fun _ => message depth) (depth + 2) d
  | depth, d => messageWith (fun _ _ => none) depth d

/-- A method declaration. -/
def method : Reader MethodDescriptor :=
  object ["name", "inputType", "outputType", "options"] fun s => do
  return {
    name := ← s.opt "name" text
    inputType := ← s.opt "inputType" text
    outputType := ← s.opt "outputType" text
    options := ← s.options }

/-- A service declaration. -/
def service : Reader ServiceDescriptor := object ["name", "method", "options"] fun s => do
  return {
    name := ← s.opt "name" text
    methods := ← s.items "method" method
    options := ← s.options }

/-- A location of source information, with its comments. -/
def location : Reader Location :=
  object ["path", "leadingComments", "trailingComments", "leadingDetachedComments"] fun s => do
  return {
    path := ← s.items "path" int32
    leading := ← s.opt "leadingComments" text
    trailing := ← s.opt "trailingComments" text
    detached := ← s.items "leadingDetachedComments" text }

/-- Source information holds the locations. -/
def sourceInfo : Reader (List Location) := object ["location"] fun s => s.items "location" location

/-- A file with its package and declarations. -/
def file : Reader FileDescriptor :=
  object ["name", "package", "messageType", "enumType", "service", "sourceCodeInfo"] fun s => do
  return {
    name := ← s.opt "name" text
    package := ← s.opt "package" text
    messages := ← s.items "messageType" message
    enums := ← s.items "enumType" enumeration
    services := ← s.items "service" service
    locations := ← s.opt "sourceCodeInfo" sourceInfo }

/-- A descriptor set, the files in their order. -/
def set : Reader DescriptorSet := object ["file"] fun s => do
  return { files := ← s.items "file" file }

end Lineage.Descriptor

namespace Lineage

/-- The descriptor set that a text is, if it is one. -/
def DescriptorSet.ofText? (s : String) : Option DescriptorSet :=
  (Json.Document.ofText? s).bind (Descriptor.set Json.maxDepth)

end Lineage
