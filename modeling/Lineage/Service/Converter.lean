import Lineage.Plan.Basic
import Lineage.Service.Record
import Lineage.Service.Status

namespace Lineage.Service

/-!
# Converting records

* `convertDown` — a public record made into its counterpart,
* `convertUp`   — a public record made from the next version's record and the private one,
* `applyAction` — an action applied to a value on the way down.

A list is converted item by item, each with the item of the private list at its position.  Nested
messages are converted by the converter that the action names; one that reads the next version's
record besides the private one is given the private value that belongs to it, or an empty record.
-/

/-! ### Parts -/

/-- A failure that no caller is to blame for. -/
def internal (message : String) : Status := ⟨.internal, message⟩

/-- A value that a converter has no use for. -/
def mismatch (function : String) (v : Value) : Status :=
  internal (function ++ " cannot convert " ++ v.text)

/-- The record that a value is read from. -/
def pick (function : String) (next : Option Record) (final : Record) :
    Side → Except Status Record
  | .ofNext =>
    match next with
    | some r => .ok r
    | none => .error (internal (function ++ " needs the next version's record"))
  | .ofPrivate => .ok final
  | .ofPublic => .error (internal (function ++ " cannot read a public record"))

/-- The arm for the variant that is set, with the variant's value. -/
def selectArm (o : OneofMapping) (r : Record) : Option (VariantArm × Value) :=
  match r.get? o.source with
  | some (.oneof variant v) => (o.arms.find? (·.source == variant)).map (·, v)
  | _ => none

/-- The value of the private variant that belongs to an arm. -/
def privateVariant (o : OneofMapping) (a : VariantArm) (final : Record) : Option Value :=
  match o.privateSource.bind final.get? with
  | some (.oneof variant v) => if a.privateSource == some variant then some v else none
  | _ => none

/-- What an enum value becomes. -/
def convertName (e : EnumConverter) (name : String) : Except Status String :=
  match ((e.cases.find? (·.source == name)).map (·.target)).or e.fallback with
  | some target => .ok target
  | none =>
    .error ⟨.failedPrecondition, "unexpected value " ++ name ++ " in " ++ e.function⟩

/-- Converts a value by an action, given the private value that belongs to it. -/
abbrev Convert := Action → Value → Option Value → Except Status Value

/-- A plain field on the way down; an absent value stays absent. -/
def assignDown (convert : Convert) (input : Record) (output : Record) (a : Assignment) :
    Except Status Record :=
  match input.get? a.source with
  | none => .ok output
  | some v => do return output.set a.target (← convert a.action v none)

/-- A oneof on the way down. -/
def mapDown (convert : Convert) (input : Record) (output : Record) (o : OneofMapping) :
    Except Status Record :=
  match selectArm o input with
  | none => .ok output
  | some (a, v) => do
    return output.set o.target (.oneof a.target (← convert a.action v none))

/-- A public record made into its counterpart. -/
def runDown (convert : Convert) (m : MessageConverter) (input : Record) :
    Except Status Record := do
  let output ← m.assignments.foldlM (assignDown convert input) { message := m.counterpartName }
  m.oneofs.foldlM (mapDown convert input) output

/-- A member that must be present on the record it is received from. -/
def checkReceived (function : String) (next : Option Record) (final : Record)
    (r : RequiredCheck) : Except Status Unit := do
  let record ← pick function next final r.side
  let present := match r.target with
    | .field => record.isSet r.name
    | .oneof => (record.get? r.name).isSome
  if present then return () else throw (.required r.publicName)

/-- A plain field on the way up. -/
def assignUp (convert : Convert) (function : String) (next : Option Record) (final : Record)
    (output : Record) (a : Assignment) : Except Status Record := do
  let source ← pick function next final a.side
  match source.get? a.source with
  | none => return output
  | some v =>
    let besides := if a.side == .ofPrivate then some v else a.privateSource.bind final.get?
    return output.set a.target (← convert a.action v besides)

/-- A oneof on the way up. -/
def mapUp (convert : Convert) (function : String) (next : Option Record) (final : Record)
    (output : Record) (o : OneofMapping) : Except Status Record := do
  let source ← pick function next final o.side
  match selectArm o source with
  | none => return output
  | some (a, v) =>
    let besides := if o.side == .ofPrivate then some v else privateVariant o a final
    return output.set o.target (.oneof a.target (← convert a.action v besides))

/-- A public record made from the next version's record and the private one. -/
def runUp (convert : Convert) (m : MessageConverter) (next : Option Record) (final : Record) :
    Except Status Record := do
  m.required.forM (checkReceived m.function next final)
  let output ← m.assignments.foldlM (assignUp convert m.function next final)
    { message := m.publicName }
  m.oneofs.foldlM (mapUp convert m.function next final) output

/-- A nested record converted, `convert` converting what it holds. -/
def convertRecord (convert : Convert) (m : MessageConverter) (r : Record) (besides : Option Value) :
    Except Status Record :=
  match m.shape with
  | .down => runDown convert m r
  | .upFromPrivate => runUp convert m none r
  | .upFromNext => runUp convert m (some r) ((besides.bind Value.record?).getD {})

/-- A named converter of a version applied to a value. -/
def convertNamed (plan : VersionPlan) (convert : Convert) (function : String) (v : Value)
    (besides : Option Value) : Except Status Value :=
  match plan.converter? function, v with
  | some (.enumeration e), .enumeration name => (convertName e name).map .enumeration
  | some (.message m), .message name fields =>
    (convertRecord convert m ⟨name, fields⟩ besides).map Record.toValue
  | some _, v => .error (mismatch function v)
  | none, _ => .error (internal (plan.package ++ " has no converter " ++ function))

/-- The items of a list, each converted with the private item at its position. -/
def convertItems (convert : Value → Option Value → Except Status Value) :
    List Value → List Value → Except Status (List Value)
  | [], _ => .ok []
  | v :: rest, privates => do
    let first ← convert v privates.head?
    return first :: (← convertItems convert rest privates.tail)

/-- Converts values that nest at most so deep. -/
def convertWithin (plan : VersionPlan) : Nat → Convert
  | _, .copy, v, _ => .ok v
  | 0, .convert r, v, _ => .error (mismatch r.function v)
  | n + 1, .convert r, v, besides =>
    match v with
    | .list items =>
      let privates := match besides with
        | some (.list ps) => ps
        | _ => []
      (convertItems (convertWithin plan n (.convert r)) items privates).map .list
    | v => convertNamed plan (convertWithin plan n) r.function v besides

@[simp] theorem convertWithin_copy (plan : VersionPlan) (n : Nat) (v : Value)
    (besides : Option Value) :
    convertWithin plan n .copy v besides = .ok v := by
  cases n <;> rfl

/-! ### Converters of a version -/

/-- The message converter of a name. -/
def messageConverter? (plan : VersionPlan) (function : String) : Except Status MessageConverter :=
  match plan.converter? function with
  | some (.message m) => .ok m
  | some (.enumeration _) => .error (internal (function ++ " converts enums, not messages"))
  | none => .error (internal (plan.package ++ " has no converter " ++ function))

/-- A public record made into its counterpart by the converter of a name. -/
def convertDown (plan : VersionPlan) (function : String) (input : Record) :
    Except Status Record := do
  let m ← messageConverter? plan function
  if m.shape == .down then runDown (convertWithin plan (input.depth + 1)) m input
  else throw (internal (function ++ " is not a down converter"))

/-- A public record made by the converter of a name from the next version's record, if it reads
    one, and the private record. -/
def convertUp (plan : VersionPlan) (function : String) (next : Option Record) (final : Record) :
    Except Status Record := do
  let m ← messageConverter? plan function
  if m.shape == .down then throw (internal (function ++ " is not an up converter"))
  else
    let depth := max ((next.map Record.depth).getD 0) final.depth
    runUp (convertWithin plan (depth + 1)) m next final

/-- An action applied to a value on the way down. -/
def applyAction (plan : VersionPlan) (action : Action) (v : Value) : Except Status Value :=
  convertWithin plan (v.depth + 1) action v none

end Lineage.Service
