import Lineage.Plan.Basic
import Lineage.Text.Quoted

namespace Lineage.Generated

/-!
# Statements of generated functions

* `Call`       — a converter called with what it is given,
* `Expression` — a value that is cloned or converted,
* `Statement`  — one line of a converter's body,
* `Signature`  — the parameters and the result of a converter,
* `Step`       — one line of a service method's body,
* `messageBody`, `enumBody` — the bodies of converters, `checks` the body of a validator, `steps`
  that of a service method.
-/

/-- Words separated by commas. -/
def commas (words : List String) : String := ", ".intercalate words

/-! ### Expressions -/

/-- A call of a converter of the same unit. -/
structure Call where
  function : String
  arguments : List String
deriving DecidableEq

/-- A call as it is written. -/
def Call.text (c : Call) : String := c.function ++ "(" ++ commas c.arguments ++ ")"

/-- A value to be written. -/
inductive Expression where
  | clone (place : String)
  | convert (call : Call)
deriving DecidableEq

/-- An expression as it is written; a conversion hands its failure on. -/
def Expression.text : Expression → String
  | clone place => place ++ ".clone()"
  | convert call => call.text ++ "?"

/-- How an action makes a value of a place, the private record's place being there for nested
    converters that read it besides. -/
def expression (action : Action) (place : String) (besides : Option String) : Expression :=
  match action with
  | .copy => .clone place
  | .convert r => .convert ⟨r.function, ("&" ++ place) :: besides.toList⟩

/-! ### Statements -/

/-- One line of a converter's body. -/
inductive Statement where
  | requireField (place name : String)
  | requireVariant (place name : String)
  | create (type : String)
  | assign (target : String) (value : Expression)
  | assignEach (target place : String) (element : Expression)
  | matchOneof (place : String)
  | arm (variant target targetVariant : String) (value : Expression)
  | otherwiseNothing
  | unconverted (field : String)
  | returnOut
  | matchValue
  | case (source target : String)
  | otherwiseValue (value : String)
  | otherwiseFail
  | close
deriving DecidableEq

/-- A statement as it is written. -/
def Statement.text : Statement → String
  | requireField place name => "require_received(&" ++ place ++ ", \"" ++ name ++ "\")?;"
  | requireVariant place name =>
    "require_received_variant(&" ++ place ++ ", \"" ++ name ++ "\")?;"
  | create type => "let mut out = " ++ type ++ "::default();"
  | assign target value => "out." ++ target ++ " = " ++ value.text ++ ";"
  | assignEach target place element =>
    "out." ++ target ++ " = " ++ place ++ ".iter().map(|item| Ok(" ++ element.text
      ++ ")).collect::<Result<_, Status>>()?;"
  | matchOneof place => "match &" ++ place ++ " \x7b"
  | arm variant target targetVariant value =>
    "    Some(" ++ variant ++ "(value)) => out." ++ target ++ " = Some(" ++ targetVariant ++ "("
      ++ value.text ++ ")),"
  | otherwiseNothing => "    _ => \x7b\x7d"
  | unconverted field => "// " ++ field ++ ": no automatic conversion"
  | returnOut => "Ok(out)"
  | matchValue => "match value \x7b"
  | case source target => "    " ++ Text.quoted source ++ " => Ok(" ++ Text.quoted target ++ "),"
  | otherwiseValue value => "    _ => Ok(" ++ Text.quoted value ++ "),"
  | otherwiseFail => "    _ => Err(Status::failed_precondition(\"unexpected value\")),"
  | close => "\x7d"

/-! ### Converters -/

/-- A converter's parameters with their types, and the type of its result. -/
structure Signature where
  function : String
  parameters : List (String × String)
  result : String
deriving DecidableEq

/-- A signature as it is written. -/
def Signature.text (s : Signature) : String :=
  "fn " ++ s.function ++ "(" ++ commas ("&self" :: s.parameters.map fun p => p.1 ++ ": " ++ p.2)
    ++ ") -> Result<" ++ s.result ++ ", Status>"

/-- The signature of a message converter: what it is given depends on its shape. -/
def messageSignature (m : MessageConverter) : Signature :=
  match m.shape with
  | .down => ⟨m.function, [("input", "&" ++ m.publicName)], m.counterpartName⟩
  | .upFromPrivate => ⟨m.function, [("private", "&" ++ m.counterpartName)], m.publicName⟩
  | .upFromNext =>
    ⟨m.function, [("next", "&" ++ m.counterpartName), ("private", "&Private")], m.publicName⟩

/-- The signature of an enum converter, from names to names. -/
def enumSignature (e : EnumConverter) : Signature :=
  ⟨e.function, [("value", "&str")], "&'static str"⟩

/-- The parameter in which a record is given. -/
def record : Side → String
  | .ofPublic => "input"
  | .ofNext => "next"
  | .ofPrivate => "private"

/-- A member of a record. -/
def place (side : Side) (name : String) : String := record side ++ "." ++ name

/-- The statement that a check of the received record becomes. -/
def checkStatement (r : RequiredCheck) : Statement :=
  match r.target with
  | .field => .requireField (place r.side r.name) r.publicName
  | .oneof => .requireVariant (place r.side r.name) r.publicName

/-- The statement that a plain field is assigned by. -/
def assignment (a : Assignment) : Statement :=
  let besides := a.privateSource.map fun name => "&private." ++ name
  if a.repeated then
    .assignEach a.target (place a.side a.source) (expression a.action "item" besides)
  else .assign a.target (expression a.action (place a.side a.source) besides)

/-- The arm of a variant. -/
def oneofArm (target : String) (a : VariantArm) : Statement :=
  let besides := a.privateSource.map fun name => "private." ++ name ++ "()"
  .arm a.source target a.target (expression a.action "value" besides)

/-- A oneof is matched over its arms; without an arm nothing is written. -/
def oneofStatements (o : OneofMapping) : List Statement :=
  .matchOneof (place o.side o.source) :: o.arms.map (oneofArm o.target)
    ++ [.otherwiseNothing, .close]

/-- The body of a message converter: checks, plain fields, oneofs, and a remark for what is not
    converted. -/
def messageBody (m : MessageConverter) : List Statement :=
  m.required.map checkStatement ++ [.create m.outputName] ++ m.assignments.map assignment
    ++ m.oneofs.flatMap oneofStatements ++ m.unconverted.map .unconverted ++ [.returnOut]

/-- The body of an enum converter: its cases, then its fallback or a failure. -/
def enumBody (e : EnumConverter) : List Statement :=
  let otherwise : Statement := match e.fallback with
    | some value => .otherwiseValue value
    | none => .otherwiseFail
  .matchValue :: e.cases.map (fun k => .case k.source k.target) ++ [otherwise, .close]

/-! ### Validators -/

/-- A bound of a range as it is written. -/
def boundText : Option Number → String
  | some n => "Some(" ++ n.text ++ ")"
  | none => "None"

/-- The members of a set as they are written. -/
def memberTexts : MemberSet → List String
  | .bools bs => bs.map toString
  | .ints ns | .uints ns => ns.map toString
  | .floats xs => xs.map Decimal.Layout.plain.text
  | .bytes ss => ss.map fun s => Text.quoted s ++ ".as_bytes()"
  | .strings ss | .enumValues ss => ss.map Text.quoted

/-- The function that checks a rule, and what it is given besides the field. -/
def ruleCall (c : Chain) : Rule → String × List String
  | .required => ("require", [])
  | .nested m => (c.validatorOf m, [])
  | .format f => ("is_" ++ f.name, [])
  | .oneOf ms => ("one_of", ["&[" ++ commas (memberTexts ms) ++ "]"])
  | .range min max => ("in_range", [boundText min, boundText max])
  | .length min max => ("length", [toString min, toString max])

/-- The statement that checks a rule of a field. -/
def ruleCheck (c : Chain) (field : String) (r : Rule) : String :=
  let (function, arguments) := ruleCall c r
  function ++ "(" ++ commas (("&input." ++ field) :: arguments) ++ ")?;"

/-- The body of a validator: fields first, then oneofs. -/
def checks (c : Chain) (m : MessageRules) : List String :=
  m.fields.flatMap (fun f => f.rules.map (ruleCheck c f.name))
    ++ m.oneofs.map fun o => "require_variant(&input." ++ o.name ++ ")?;"

/-! ### Methods -/

/-- One line of a service method's body. -/
inductive Step where
  | validate (function : String)
  /-- The request is converted. -/
  | convert (call : Call)
  | mutate (setter field : String)
  | pushMutation
  | forward (route : Route) (target request : String)
  /-- The converted response is returned. -/
  | respond (call : Call)
  | returnPrivate
deriving DecidableEq

/-- A step as it is written. -/
def Step.text : Step → String
  | validate function => "self.validator." ++ function ++ "(&input)?;"
  | convert call => "let request = self.converter." ++ call.text ++ "?;"
  | mutate setter field => "let mutation = " ++ setter ++ "(input." ++ field ++ ".clone());"
  | pushMutation => "mutations.push(mutation);"
  | forward .toNext target request =>
    "let (next, private) = self.next." ++ target ++ "(ctx, " ++ request ++ ", mutations)?;"
  | forward .toPrivate target request =>
    "let private = self.private." ++ target ++ "(ctx, " ++ request ++ ", mutations)?;"
  | forward .backend target request =>
    "let private = self.backend." ++ target ++ "(ctx, apply(mutations, " ++ request ++ "))?;"
  | respond call => "self.converter." ++ call.text ++ ".map_err(incompatible)"
  | returnPrivate => "Ok(private)"

/-- What a method returns. -/
def response (m : MethodPlan) : Step :=
  match m.up, m.route with
  | some up, .toNext => .respond ⟨up, ["&next", "&private"]⟩
  | some up, _ => .respond ⟨up, ["&private"]⟩
  | none, _ => .returnPrivate

/-- A deprecated input, pushed onto the mutations of the private request. -/
def mutation (i : DeprecatedInput) : List Step := [.mutate i.setter i.field, .pushMutation]

/-- The body of a service method. -/
def steps (m : MethodPlan) : List Step :=
  [.validate m.validate] ++ (m.down.map fun down => Step.convert ⟨down, ["&input"]⟩).toList
    ++ m.deprecatedInputs.flatMap mutation
    ++ [.forward m.route m.target (if m.down.isSome then "request" else "input"), response m]

end Lineage.Generated
