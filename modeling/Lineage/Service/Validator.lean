import Lineage.Plan.Basic
import Lineage.Service.Format
import Lineage.Service.Record
import Lineage.Service.Status

namespace Lineage.Service

/-!
# Validating records

* `Validator` — the rules of one version, and the checks of formats,
* `Validator.validate` — the check of a record by a named validator.

A value that is absent or zero passes every rule but `required`.  Rules apply to each item of a
list.  A nested message is checked by the validator of its type.
-/

/-- The rules of one version, with the chain that names the types and the checks of formats. -/
structure Validator where
  chain : Chain
  plan : VersionPlan
  formats : Formats := .standard

/-! ### Single values -/

/-- Whether a value is among the members of a rule.  Floats are members within a tolerance. -/
def isMember (members : MemberSet) (v : Value) : Bool :=
  match members, v with
  | .bools bs, .bool b => bs.contains b
  | .ints ns, .int n => ns.contains n
  | .ints ns, .uint n => ns.contains (n : Int)
  | .uints ns, .int n => ns.contains n
  | .uints ns, .uint n => ns.contains (n : Int)
  | .bytes ss, .bytes bs => ss.any fun s => s.toUTF8.toList == bs
  | .floats xs, .float x => xs.any fun m => (m.sub x).abs.le .epsilon
  | .strings ss, .str s => ss.contains s
  | .enumValues ss, .enumeration s => ss.contains s
  | _, _ => false

/-- The integer that a value is. -/
def integerOf : Value → Option Int
  | .int n => some n
  | .uint n => some n
  | _ => none

/-- The number that a value is, as binary64. -/
def floatOf : Value → Option Binary64
  | .int n => some (.ofInt n)
  | .uint n => some (.ofInt n)
  | .float x => some x
  | _ => none

/-- Whether a value lies below a bound.  Integers are compared exactly, all else as binary64; what
    is no number has no order. -/
def isBelow (v : Value) (bound : Number) : Bool :=
  match integerOf v, bound.integer? with
  | some n, some b => n < b
  | _, _ => (floatOf v).any fun x => x.lt bound.toFloat

/-- Whether a value lies above a bound. -/
def isAbove (v : Value) (bound : Number) : Bool :=
  match integerOf v, bound.integer? with
  | some n, some b => b < n
  | _, _ => (floatOf v).any fun x => bound.toFloat.lt x

/-- A failed check of a field. -/
def invalid (message : String) : Except Status Unit := .error ⟨.invalidArgument, message⟩

/-- A check of a field. -/
def ensure (holds : Bool) (message : String) : Except Status Unit :=
  if holds then .ok () else invalid message

/-- A rule applied to one value, `nested` being the check of a nested message. -/
def checkElement (formats : Formats) (nested : MessageId → Record → Except Status Unit)
    (name : String) (rule : Rule) (v : Value) : Except Status Unit :=
  match rule with
  | .required => .ok ()
  | .nested m =>
    match v.record? with
    | some r => nested m r
    | none => .ok ()
  | .format f =>
    ensure (formats.accepts f (v.string?.getD "")) (name ++ " must be a valid " ++ f.name)
  | .oneOf members => ensure (isMember members v) (name ++ " must be one of the allowed values")
  | .range min max =>
    let shown (word : String) (bound : Option Number) : String :=
      (bound.map fun b => ", " ++ word ++ " " ++ b.text).getD ""
    ensure (!min.any (isBelow v) && !max.any (isAbove v))
      (name ++ " is out of range" ++ shown "min" min ++ shown "max" max)
  | .length min max =>
    let length := (v.string?.map (·.length)).getD 0
    ensure (min ≤ length && (max == 0 || length ≤ max)) (name ++ " has an invalid length")

/-- A rule applied to a field. -/
def checkRule (formats : Formats) (nested : MessageId → Record → Except Status Unit)
    (name : String) (v : Option Value) (rule : Rule) : Except Status Unit :=
  match rule, v.filter (!·.isEmpty) with
  | .required, some _ => .ok ()
  | .required, none => .error (.required name)
  | _, none => .ok ()
  | rule, some v => v.elements.forM (checkElement formats nested name rule)

/-! ### Records -/

namespace Validator

/-- The value of a field; a variant's lies under the name of its oneof. -/
def fieldValue (w : Validator) (r : Record) (f : FieldRules) : Option Value :=
  match (w.chain.field f.field).oneof with
  | none => r.get? f.name
  | some o =>
    match r.get? (w.chain.oneof o).name with
    | some (.oneof variant v) => if variant == f.name then some v else none
    | _ => none

/-- The rules of a message applied to a record: fields first, then oneofs. -/
def checkRecord (w : Validator) (nested : MessageId → Record → Except Status Unit)
    (rules : MessageRules) (r : Record) : Except Status Unit := do
  rules.fields.forM fun f =>
    f.rules.forM (checkRule w.formats nested f.name (w.fieldValue r f))
  (rules.oneofs.filter (·.required)).forM fun o =>
    if (r.get? o.name).isSome then .ok () else .error (.required o.name)

/-- The rules of a validator. -/
def rulesOf (w : Validator) (function : String) : Except Status MessageRules :=
  match w.plan.validator? function with
  | some rules => .ok rules
  | none => .error ⟨.internal, w.plan.package ++ " has no validator " ++ function⟩

/-- The check of a record in which at most so many messages enclose one another. -/
def validateWithin (w : Validator) : Nat → String → Record → Except Status Unit
  | 0, _, _ => .ok ()
  | n + 1, function, r => do
    let rules ← w.rulesOf function
    w.checkRecord (fun m => w.validateWithin n (w.chain.validatorOf m)) rules r

/-- The check of a record by the validator of a name. -/
def validate (w : Validator) (function : String) (r : Record) : Except Status Unit :=
  w.validateWithin (r.depth + 1) function r

end Validator

end Lineage.Service
