import Lineage.Converter.Planner
import Lineage.Rule.Basic

namespace Lineage

/-!
# The conversions of a version

* `View.methodPlan` — how a public method handles a request,
* `View.mutators` — the setters for deprecated inputs, by private request message,
* `Chain.conversions` — the converters, tables, methods and mutators of one version.

A method goes to the next version, unless it is deprecated or belongs to the latest version; its
request and response must correspond to those of the method it goes to.
-/

/-- The conversions of one version. -/
structure Conversions where
  converters : List (String × Converter) := []
  tables : List ReceiveTable := []
  methods : List MethodPlan := []
  mutators : List Mutator := []
deriving DecidableEq

namespace Chain

/-- The name of the validator of a message. -/
def validatorOf (c : Chain) (m : MessageId) : String := validatorName (c.message m).localName

/-- The full name of a method. -/
def methodPath (c : Chain) (m : Method) : String :=
  (c.version m.version).package ++ "." ++ m.name

/-- A method of the private version calls the implementation. -/
def backendMethod (c : Chain) (m : Method) : MethodPlan :=
  { method := m.id, name := m.name, deprecated := m.deprecated, route := .backend
    input := m.input, output := m.output, validate := c.validatorOf m.input
    down := none, up := none, target := m.name, deprecatedInputs := [] }

end Chain

namespace View

/-- The way of a method: its route, the kinds of its converters, and the method it leads to. -/
structure Way where
  route : Route
  down : ConverterKind
  up : ConverterKind
  target : Option MethodId

/-- A method that is deprecated or of the latest version leads to the private version, any other one
    to the next. -/
def way (w : View) (m : Method) : Way :=
  if m.deprecated || (w.chain.version m.version).isLatest then
    { route := .toPrivate, down := .toPrivate
      up := if m.deprecated then .toDeprecatedPublic else .toPublic, target := m.link.final }
  else { route := .toNext, down := .toNext, up := .toPublic, target := m.link.next }

/-- What is found for the request or response of a method must be what is expected. -/
def checkCorrespondence (w : View) (m : Method) (role : Role) (found : Option MessageId)
    (expected : MessageId) : Except ConversionError Unit :=
  if found == some expected then .ok ()
  else
    let own := match role with
      | .input => m.input
      | .output => m.output
    .error (.methodMismatch (w.chain.methodPath m) role
      (w.chain.message (found.getD own)).fullName (w.chain.message expected).fullName)

/-- The request of a method must lead to the request of its target, and its response to that of its
    target.  A deprecated response bypasses the next version and is held against the response of
    the private method. -/
def checkTypes (w : View) (m : Method) (route : Route) (target : Method) :
    Except ConversionError Unit := do
  let input := w.chain.message m.input
  let output := w.chain.message m.output
  let next := route == .toNext
  w.checkCorrespondence m .input (if next then input.link.next else input.link.final) target.input
  let bypass := next && output.deprecated
  w.checkCorrespondence m .output
    (if next && !output.deprecated then output.link.next else output.link.final)
    (if bypass then
      (target.link.final.map fun p => (w.chain.method p).output).getD target.output
    else target.output)

/-- The deprecated plain fields of a message that have a private counterpart. -/
def deprecatedFields (w : View) (m : MessageId) : List (Field × FieldId) :=
  ((w.chain.plainFields m).filter (·.deprecated)).filterMap fun f => f.link.final.map (f, ·)

/-- The deprecated inputs among some fields: those whose value gets to the private request. -/
def deprecatedInputs (w : View) :
    List (Field × FieldId) → Planner → Planner.Outcome (List DeprecatedInput)
  | [], p => (p, .ok [])
  | (f, target) :: rest, p =>
    match p.downAction .toPrivate f.id target with
    | (p, .error e) => (p, .error e)
    | (p, .ok action) =>
      match w.deprecatedInputs rest p with
      | (p, .error e) => (p, .error e)
      | (p, .ok inputs) =>
        let name := (w.chain.field target).name
        let input (action : Action) : DeprecatedInput :=
          { field := f.name, privateField := name, setter := setterName name
            repeated := f.repeated, action }
        (p, .ok ((action.map input).toList ++ inputs))

/-- A method whose target is found, its converters being asked for. -/
def plannedMethod (w : View) (m : Method) (way : Way) (target : Method) (p : Planner) :
    Planner.Outcome MethodPlan :=
  match w.checkTypes m way.route target with
  | .error e => (p, .error e)
  | .ok _ =>
    match p.requestMessage way.down m.input with
    | (p, .error e) => (p, .error e)
    | (p, .ok down) =>
      match p.requestMessage way.up m.output with
      | (p, .error e) => (p, .error e)
      | (p, .ok up) =>
        let fields := if way.route == .toNext then w.deprecatedFields m.input else []
        match w.deprecatedInputs fields p with
        | (p, .error e) => (p, .error e)
        | (p, .ok deprecatedInputs) =>
          (p, .ok {
            method := m.id, name := m.name, deprecated := m.deprecated, route := way.route
            input := m.input, output := m.output, validate := w.chain.validatorOf m.input
            down := some down.function, up := some up.function, target := target.name
            deprecatedInputs })

/-- How a public method handles a request. -/
def methodPlan (w : View) (m : Method) (p : Planner) : Planner.Outcome MethodPlan :=
  let way := w.way m
  match way.target with
  | none =>
    let function := way.down.functionName (w.chain.message m.input).localName
    (p, .error (.unresolved (w.chain.methodPath m) function))
  | some target => w.plannedMethod m way (w.chain.method target) p

/-- How a list of public methods handle requests. -/
def methodPlans (w : View) : List Method → Planner → Planner.Outcome (List MethodPlan)
  | [], p => (p, .ok [])
  | m :: rest, p =>
    match w.methodPlan m p with
    | (p, .error e) => (p, .error e)
    | (p, .ok plan) =>
      match w.methodPlans rest p with
      | (p, .error e) => (p, .error e)
      | (p, .ok plans) => (p, .ok (plan :: plans))

/-! ### Mutators -/

/-- A setter for every deprecated input whose private field has none yet. -/
def addSetter (setters : List Setter) (i : DeprecatedInput) : List Setter :=
  if setters.any (·.field == i.privateField) then setters
  else setters ++ [{ field := i.privateField, function := i.setter }]

/-- The mutators with the setters that one more method needs, by position of the message. -/
def addMutator (w : View) (plan : MethodPlan) : MessageId → List Mutator → List Mutator
  | m, [] => [newMutator m]
  | m, k :: rest =>
    if k.message == m then
      { k with setters := plan.deprecatedInputs.foldl addSetter k.setters } :: rest
    else if m.index < k.message.index then newMutator m :: k :: rest
    else k :: w.addMutator plan m rest
where
  newMutator (m : MessageId) : Mutator :=
    { message := m, messageName := (w.chain.message m).fullName
      setters := plan.deprecatedInputs.foldl addSetter [] }

/-- The mutators of a version's methods. -/
def mutators (w : View) (plans : List MethodPlan) : List Mutator :=
  plans.foldl (fun ms plan =>
    if plan.deprecatedInputs.isEmpty then ms
    else match (w.chain.message plan.input).link.final with
      | some m => w.addMutator plan m ms
      | none => ms) []

end View

namespace Chain

/-- The conversions of a public version. -/
def publicConversions (c : Chain) (v : Version) : Except ConversionError Conversions :=
  let w : View := { chain := c, version := v.id }
  let (p, plans) := w.methodPlans (v.methods.map c.method) { view := w }
  plans.map fun methods =>
    { converters := p.converters, tables := p.tables, methods, mutators := w.mutators methods }

/-- The conversions of a version.  The private one has methods only. -/
def conversions (c : Chain) (v : Version) : Except ConversionError Conversions :=
  if v.isPrivate then .ok { methods := v.methods.map fun m => c.backendMethod (c.method m) }
  else c.publicConversions v

end Chain

end Lineage
