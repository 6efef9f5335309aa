import Lineage.Rule.Demand

namespace Lineage.Rule

/-!
# Deriving rules

Constraints are read against the field that they are declared on, always in the same order:
required, nested, format, members, then range or length.  What cannot be read is an error; nothing
is skipped.

* `membersOf`, `rangeOf`, `formatOf` — one constraint each,
* `Derivation.fieldRules`, `Derivation.messageRules`, `Derivation.versionRules` — the rules of a
  field, of a message and of all validated messages of a version.
-/

/-! ### Members -/

/-- A text without the double quotes around it, if it has them. -/
def unquote? (text : String) : Option String :=
  match text.toList with
  | '"' :: rest =>
    if rest.getLast? == some '"' then some (String.ofList rest.dropLast) else none
  | _ => none

/-- A text without the double quotes it may have around it. -/
def unquote (text : String) : String := (unquote? text).getD text

/-- The truth value that a text denotes. -/
def bool? (text : String) : Option Bool :=
  if text == "true" then some true else if text == "false" then some false else none

/-- The integer that a text denotes. -/
def int? (text : String) : Option Int := Decimal.integer? text.toList

/-- The binary64 number that a text denotes. -/
def float? (text : String) : Option Binary64 := Decimal.float? text.toList

/-- What a constraint is declared on. -/
structure Subject where
  path : String
  kind : FieldKind

/-- The members for a field that takes numbers or booleans.  Whether all members are of one type
    decides before whether the field takes that type. -/
def literalMembers (s : Subject) (members : List String) : Except RuleError MemberSet :=
  let written := ",".intercalate members
  let mismatch : Except RuleError MemberSet :=
    .error (.membersKindMismatch s.path written s.kind.name)
  let orMismatch (found : Option MemberSet) : Except RuleError MemberSet :=
    match found with
    | some set => .ok set
    | none => mismatch
  let scalar := s.kind.scalar?
  let takesFloats := scalar.any (·.isFloat)
  match members.mapM bool? with
  | some bools => if scalar == some .bool then .ok (.bools bools) else mismatch
  | none =>
    match members.mapM int? with
    | some integers =>
      if scalar.any (·.isUnsigned) then
        if integers.all Number.isUInt64 then .ok (.uints integers) else mismatch
      else if scalar.any (·.isInteger) then
        if integers.all Number.isInt64 then .ok (.ints integers) else mismatch
      else if takesFloats then orMismatch ((members.mapM float?).map .floats)
      else mismatch
    | none =>
      match members.mapM float? with
      | some floats => if takesFloats then .ok (.floats floats) else mismatch
      | none =>
        if members.all fun m => (unquote? m).isSome then mismatch
        else .error (.mixedMembers s.path written)

/-- The name of a value of an enum. -/
def enumMember (c : Chain) (s : Subject) (enumeration : EnumId) (member : String) :
    Except RuleError String :=
  if (c.findValue enumeration (unquote member)).isSome then .ok (unquote member)
  else .error (.unknownEnumMember s.path member (c.enumeration enumeration).fullName)

/-- The names of values of an enum. -/
def enumMembers (c : Chain) (s : Subject) (enumeration : EnumId) (members : List String) :
    Except RuleError MemberSet :=
  (members.mapM (enumMember c s enumeration)).map .enumValues

/-- The members for a field.  Texts may be written with or without quotes. -/
def membersOf (c : Chain) (s : Subject) (type : Option TypeRef) (members : List String) :
    Except RuleError MemberSet :=
  match type, s.kind with
  | some (.enumeration e), _ => enumMembers c s e members
  | _, .scalar .string => .ok (.strings (members.map unquote))
  | _, .scalar .bytes => .ok (.bytes (members.map unquote))
  | _, _ => literalMembers s members

/-! ### Formats and bounds -/

/-- The format rule of a name; only string fields have one. -/
def formatOf (s : Subject) (name : String) : Except RuleError Rule :=
  match Format.ofName? name with
  | none => .error (.unknownFormat s.path name)
  | some f =>
    if s.kind == .scalar .string then .ok (.format f)
    else .error (.formatOnNonString s.path f.name s.kind.name)

/-- A bound as a number. -/
def boundOf (s : Subject) (key : BoundKey) (text : Option String) :
    Except RuleError (Option Number) :=
  match text with
  | none => .ok none
  | some t =>
    match Number.ofText? t with
    | some n => .ok (some n)
    | none => .error (.invalidBound s.path key t)

/-- A bound that the field cannot have. -/
def misfit (s : Subject) (key : BoundKey) (text : Option String) : Except RuleError α :=
  .error (.boundKindMismatch s.path key (text.getD "") s.kind.name)

/-- A bound as a length; without one the length is zero. -/
def lengthBound (s : Subject) (key : BoundKey) (text : Option String) :
    Option Number → Except RuleError Nat
  | none => .ok 0
  | some (.integer n) => if 0 ≤ n then .ok n.toNat else misfit s key text
  | some (.float _) => misfit s key text

/-- A bound for integers of a signed or unsigned kind. -/
def integerBound (s : Subject) (unsigned : Bool) (key : BoundKey) (text : Option String) :
    Option Number → Except RuleError (Option Number)
  | none => .ok none
  | some (.integer n) =>
    if if unsigned then Number.isUInt64 n else Number.isInt64 n then .ok (some (.integer n))
    else misfit s key text
  | some (.float _) => misfit s key text

/-- The rule of a lower and an upper bound: a range of numbers, or a length of texts. -/
def rangeOf (s : Subject) (min max : Option String) : Except RuleError Rule := do
  let low ← boundOf s .min min
  let high ← boundOf s .max max
  match s.kind.scalar? with
  | some .string => return .length (← lengthBound s .min min low) (← lengthBound s .max max high)
  | some kind =>
    if kind.isInteger then
      let bound := integerBound s kind.isUnsigned
      return .range (← bound .min min low) (← bound .max max high)
    else if kind.isFloat then
      return .range (low.map fun n => .float n.toFloat) (high.map fun n => .float n.toFloat)
    else throw (.rangeOnUnsupportedKind s.path s.kind.name)
  | none => throw (.rangeOnUnsupportedKind s.path s.kind.name)

/-! ### Fields, messages and versions -/

/-- A chain, and which of its messages are validated. -/
structure Derivation where
  chain : Chain
  demanding : MessageSet
  validated : MessageSet

namespace Derivation

/-- The derivation of rules for a chain. -/
def ofChain (c : Chain) : Derivation :=
  { chain := c, demanding := c.demanding, validated := c.validated c.demanding }

/-- The rule that a nested message is valid, if its type requires validation. -/
def nestedRule (d : Derivation) (type : Option TypeRef) : List Rule :=
  match type with
  | some (.message m) => if d.demanding.contains m then [.nested m] else []
  | _ => []

/-- A constraint that may be absent. -/
def whenGiven (given : Option α) (rule : α → Except RuleError Rule) :
    Except RuleError (List Rule) :=
  match given with
  | some a => (rule a).map ([·])
  | none => .ok []

/-- The rules of a field. -/
def fieldRules (d : Derivation) (id : FieldId) : Except RuleError (List Rule) := do
  let f := d.chain.field id
  let v := f.validate
  let s : Subject := ⟨d.chain.fieldPath id, f.kind⟩
  let format ← whenGiven v.format (formatOf s)
  let members ← whenGiven v.members fun ms => (membersOf d.chain s f.typeRef ms).map .oneOf
  let range ← if v.min.isSome || v.max.isSome then (rangeOf s v.min v.max).map ([·]) else .ok []
  return (if v.required then [.required] else []) ++ d.nestedRule f.typeRef ++ format ++ members
    ++ range

/-- The rules of a field with its name, if it has rules. -/
def namedRules (d : Derivation) (id : FieldId) : Except RuleError (Option FieldRules) := do
  let rules ← d.fieldRules id
  return if rules.isEmpty then none
    else some { field := id, name := (d.chain.field id).name, rules }

/-- What the validator of a message checks. -/
def messageRules (d : Derivation) (id : MessageId) : Except RuleError MessageRules := do
  let m := d.chain.message id
  let fields ← m.fields.mapM d.namedRules
  let required := (m.oneofs.map d.chain.oneof).filter (·.required)
  return {
    message := id
    function := validatorName m.localName
    fields := fields.filterMap (fun f => f)
    oneofs := required.map fun o => { oneof := o.id, name := o.name, required := true } }

/-- What the validators of a version check. -/
def versionRules (d : Derivation) (version : VersionId) : Except RuleError (List MessageRules) :=
  ((d.chain.version version).messages.filter d.validated.contains).mapM d.messageRules

end Derivation

end Lineage.Rule
