import Lineage.Schema.Basic

namespace Lineage

/-!
# Annotations

What the author of a schema says about a declaration beyond its structure:

* a delegate — the name of its counterpart in the next version,
* deprecation,
* `ValidateDirectives` — constraints on a field or oneof,
* `ReceiveDirectives`  — what a field, oneof or enum value demands of the record it is received
  from,
* `AnnotationSource` — anything that answers these four questions about a declaration.

Bounds, members and formats are kept as written; they are read against the field later.
-/

/-- The four things an annotation can say. -/
inductive Verb where
  | delegate
  | deprecated
  | validate
  | receive
deriving DecidableEq

/-- The word for a verb. -/
def Verb.name : Verb → String
  | delegate => "delegate"
  | deprecated => "deprecated"
  | validate => "validate"
  | receive => "receive"

/-- Why an annotation cannot be read. -/
inductive AnnotationError where
  | invalidDelegateKey (key : String)
  /-- A token is no `key=value` pair that the verb knows. -/
  | malformedToken (verb : Verb) (token : String)
  /-- An option does not have the shape of an annotation. -/
  | invalidOption (extension : String)
deriving DecidableEq

/-- What is wrong, in words. -/
def AnnotationError.message : AnnotationError → String
  | invalidDelegateKey key => "invalid key for delegate annotation: " ++ key
  | malformedToken verb token =>
    "malformed " ++ verb.name ++ " directive token '" ++ token ++ "'"
  | invalidOption extension => "invalid " ++ extension ++ " option"

/-- Constraints on a field or oneof, as written. -/
structure ValidateDirectives where
  required : Bool := false
  min : Option String := none
  max : Option String := none
  /-- The members of an `in` constraint. -/
  members : Option (List String) := none
  /-- The name of a format. -/
  format : Option String := none
deriving DecidableEq

/-- Whether anything is demanded. -/
def ValidateDirectives.isDeclared (d : ValidateDirectives) : Bool :=
  d.required || d.min.isSome || d.max.isSome || d.members.isSome || d.format.isSome

/-- Demands on what is received. -/
structure ReceiveDirectives where
  /-- The member must be set on the record it is received from. -/
  required : Bool := false
  /-- Further source values that are received as this one. -/
  names : List String := []
deriving DecidableEq

/-- Where the annotations of a declaration are read: four readings, each of which may fail. -/
structure AnnotationSource where
  delegate? : EntityKind → Carrier → Except AnnotationError (Option String)
  isDeprecated : EntityKind → Carrier → Except AnnotationError Bool
  validate : EntityKind → Carrier → Except AnnotationError ValidateDirectives
  receive : EntityKind → Carrier → Except AnnotationError ReceiveDirectives

end Lineage
