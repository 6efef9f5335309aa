import Lineage.Annotation.Basic
import Lineage.Json.Printer

namespace Lineage.Annotation.Options

/-!
# Annotations in options

Each kind of declaration has an extension option that holds its annotations as an object with the
entries `delegate`, `deprecated`, `validate` and `receive`, all of them optional.  An entry that the
object should not have makes it unreadable; an array is read as the object's entries in order.

* `Payload` — the content of such an option,
* `payload` — the payload of a carrier for a kind of declaration, empty if the option is absent,
* `literal` — a bound or member as it would be written in a comment.
-/

/-- The key of the option that annotates a kind of declaration. -/
def extensionKey : EntityKind → String
  | .message => "[gen.svc.message]"
  | .field => "[gen.svc.field]"
  | .oneof => "[gen.svc.oneof]"
  | .enumeration => "[gen.svc.enum]"
  | .enumValue => "[gen.svc.enum_value]"
  | .method => "[gen.svc.method]"
  | .service => "[gen.svc.service]"

/-! ### Reading -/

/-- The text, if the value is one. -/
def text? : Json → Option String
  | .string s => some s
  | _ => none

/-- The truth value, if the value is one. -/
def flag? : Json → Option Bool
  | .bool b => some b
  | _ => none

/-- The items, if the value is an array and all of them can be read. -/
def list? (read : Json → Option α) : Json → Option (List α)
  | .array items => items.mapM read
  | _ => none

/-- A value that `null` leaves out. -/
def optional? (read : Json → Option α) : Json → Option (Option α)
  | .null => some none
  | j => (read j).map some

/-- The entries of an object that has no other than the given names. -/
def entries? (names : List String) : Json → Option (List (String × Json))
  | .object entries => if entries.all fun e => names.contains e.1 then some entries else none
  | .array items => if items.length ≤ names.length then some (names.zip items) else none
  | _ => none

/-- The value of an entry, or the default if it is missing. -/
def entry (entries : List (String × Json)) (name : String) (read : Json → Option α) (default : α) :
    Option α :=
  match entries.lookup name with
  | some j => read j
  | none => some default

/-! ### Payloads -/

/-- Constraints on a field or oneof. -/
structure Constraints where
  required : Bool
  min : Option Json
  max : Option Json
  members : Option (List Json)
  format : Option String

/-- The content of an annotation option. -/
structure Payload where
  /-- The delegate's name, possibly empty. -/
  delegate : Option String := none
  deprecated : Bool := false
  validate : Option Constraints := none
  receive : Option ReceiveDirectives := none

/-- The name of a delegate; an object without one has the empty name. -/
def delegate? (j : Json) : Option String := do
  entry (← entries? ["name"] j) "name" text? ""

/-- The constraints that an object states; bounds and members may be any values. -/
def constraints? (j : Json) : Option Constraints := do
  let es ← entries? ["required", "min", "max", "in", "is"] j
  return {
    required := ← entry es "required" flag? false
    min := ← entry es "min" (optional? some) none
    max := ← entry es "max" (optional? some) none
    members := ← entry es "in" (optional? (list? some)) none
    format := ← entry es "is" (optional? text?) none }

/-- The demands that an object states. -/
def demands? (j : Json) : Option ReceiveDirectives := do
  let es ← entries? ["required", "names"] j
  return {
    required := ← entry es "required" flag? false
    names := ← entry es "names" (list? text?) [] }

/-- The payload that a value is. -/
def payload? (j : Json) : Option Payload := do
  let es ← entries? ["delegate", "deprecated", "validate", "receive"] j
  return {
    delegate := ← entry es "delegate" (optional? delegate?) none
    deprecated := ← entry es "deprecated" flag? false
    validate := ← entry es "validate" (optional? constraints?) none
    receive := ← entry es "receive" (optional? demands?) none }

/-- The payload that a carrier holds for a kind of declaration. -/
def payload (kind : EntityKind) (carrier : Carrier) : Except AnnotationError Payload :=
  match Sorted.get? carrier.options (extensionKey kind) with
  | none => .ok {}
  | some j =>
    match payload? j with
    | some p => .ok p
    | none => .error (.invalidOption (extensionKey kind))

/-- A value as it would be written in a comment: texts bare, all else as compact JSON. -/
def literal : Json → String
  | .string s => s
  | j => j.print

/-- Constraints with their values as they would be written in a comment. -/
def Constraints.directives (c : Constraints) : ValidateDirectives :=
  { required := c.required, min := c.min.map literal, max := c.max.map literal,
    members := c.members.map (·.map literal), format := c.format }

end Lineage.Annotation.Options
