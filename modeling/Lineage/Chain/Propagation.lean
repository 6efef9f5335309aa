import Lineage.Chain.Declare

namespace Lineage

/-!
# How values cross a hop

* `classifyPair` — how the value of one field reaches another,
* `Chain.classify` — every field with a counterpart is classified against it.

Only equal scalar kinds are copied.  Messages and enums are always converted, even if both sides
look alike, because they drift apart between versions.
-/

/-- How the value of a field reaches another field. -/
def classifyPair (source target : Field) : Propagation :=
  if source.repeated != target.repeated then .unconvertible
  else match source.kind, target.kind with
    | .scalar a, .scalar b => if a == b then .copy else .unconvertible
    | .enumeration, .enumeration => .convert .enumeration
    | .message, .message =>
      match source.typeRef, target.typeRef with
      | some (.message _), some (.message _) => .convert .message
      | some (.external a), some (.external b) => if a == b then .shared else .unconvertible
      | _, _ => .unconvertible
    | _, _ => .unconvertible

namespace Chain

/-- A field classified against its counterpart across the hop, if it has one. -/
def classifyField (c : Chain) (f : Field) : Field :=
  match f.link.hop with
  | some target => { f with propagation := classifyPair f (c.field target) }
  | none => f

/-- All fields classified. -/
def classify (c : Chain) : Chain := { c with fields := c.fields.map c.classifyField }

end Chain

end Lineage
