import Lineage.Chain.Propagation
import Lineage.Converter.Receive

namespace Lineage

/-!
# Specifying one converter

A converter is specified from the chain alone.  On the way it asks for the converters of the types
that its fields refer to; what it asked for counts even if it then fails.

* `Subject` — the message or enum that a converter is for,
* `Traced` — a result together with the converters asked for on the way,
* `View.action` — how the value of a field gets to another field,
* `View.messageConverter`, `View.enumConverter` — one converter each.
-/

/-- The type that a converter is for. -/
inductive Subject where
  | message (id : MessageId)
  | enumeration (id : EnumId)
deriving DecidableEq

/-- A converter that is asked for. -/
structure Request where
  kind : ConverterKind
  subject : Subject
deriving DecidableEq

/-! ### Results with requests -/

/-- A result, and what was asked for until it was there. -/
structure Traced (α : Type) where
  requests : List Request
  result : Except ConversionError α

namespace Traced

instance : Monad Traced where
  pure a := ⟨[], .ok a⟩
  bind x f :=
    match x.result with
    | .ok a => ⟨x.requests ++ (f a).requests, (f a).result⟩
    | .error e => ⟨x.requests, .error e⟩

/-- A result that asks for nothing. -/
def lift (r : Except ConversionError α) : Traced α := ⟨[], r⟩

/-- A failure that asks for nothing. -/
def fail (e : ConversionError) : Traced α := ⟨[], .error e⟩

/-- Ask for a converter. -/
def ask (r : Request) : Traced Unit := ⟨[r], .ok ()⟩

end Traced

/-- One public version of a chain, for which converters are specified. -/
structure View where
  chain : Chain
  version : VersionId

namespace View

/-! ### Subjects -/

/-- Whether the version is the one in front of the private version. -/
def isLatest (w : View) : Bool := (w.chain.version w.version).isLatest

/-- The name of a type below its package. -/
def localName (w : View) : Subject → String
  | .message m => (w.chain.message m).localName
  | .enumeration e => (w.chain.enumeration e).localName

/-- The name of a type with its package. -/
def fullName (w : View) : Subject → String
  | .message m => (w.chain.message m).fullName
  | .enumeration e => (w.chain.enumeration e).fullName

/-- Whether a type is deprecated. -/
def isDeprecated (w : View) : Subject → Bool
  | .message m => (w.chain.message m).deprecated
  | .enumeration e => (w.chain.enumeration e).deprecated

/-- What a type reference of the chain refers to. -/
def subjectOf : Option TypeRef → Option Subject
  | some (.message m) => some (.message m)
  | some (.enumeration e) => some (.enumeration e)
  | _ => none

/-- Going up to a deprecated type means going there from the private version. -/
def effective (w : View) (kind : ConverterKind) (s : Subject) : ConverterKind :=
  if kind == .toPublic && w.isDeprecated s then .toDeprecatedPublic else kind

/-- The converter that serves a request for a kind and a type. -/
def request (w : View) (kind : ConverterKind) (s : Subject) : Request := ⟨w.effective kind s, s⟩

/-- The name of a requested converter. -/
def reference (w : View) (r : Request) : ConverterRef :=
  ⟨r.kind, r.kind.functionName (w.localName r.subject)⟩

/-- Whether a converter works against the next version's type. -/
def facesNext (w : View) (kind : ConverterKind) : Bool :=
  kind == .toNext || kind == .toPublic && !w.isLatest

/-- One of the two links of a node, by the version that a converter works against. -/
def side {Id : Type} (w : View) (kind : ConverterKind) (l : Link Id) : Option Id :=
  if w.facesNext kind then l.next else l.final

/-- The counterpart that a converter of a kind works against. -/
def counterpart (w : View) (kind : ConverterKind) : Subject → Option Subject
  | .message m => (w.side kind (w.chain.message m).link).map .message
  | .enumeration e => (w.side kind (w.chain.enumeration e).link).map .enumeration

/-- What a converter of a kind is given: a public record, the next and the private one, or the
    private one alone. -/
def shape (w : View) (kind : ConverterKind) : Shape :=
  if kind.isDown then .down else if w.facesNext kind then .upFromNext else .upFromPrivate

/-! ### Single values -/

/-- How the value of a field gets to or from another one, `other`.  A nested converter must work
    against the type of `checked`, which is `other` unless the nested converter reads the private
    record instead.  There is no action if the kinds do not fit. -/
def action (w : View) (kind : ConverterKind) (field other checked : FieldId) :
    Traced (Option Action) :=
  let f := w.chain.field field
  match classifyPair f (w.chain.field other) with
  | .copy | .shared => return some .copy
  | .unconvertible => return none
  | .convert _ =>
    match subjectOf f.typeRef with
    | none => return none
    | some s =>
      let r := w.request kind s
      let expected := subjectOf (w.chain.field checked).typeRef
      if expected.isSome && w.counterpart r.kind s == expected then do
        Traced.ask r
        return some (.convert (w.reference r))
      else
        let sameSort := match s, expected with
          | .message _, some (.message _) => true
          | .enumeration _, some (.enumeration _) => true
          | _, _ => false
        .fail (.missingConverter (w.chain.fieldPath field) (w.reference r).function
          (if sameSort then (expected.map w.fullName).getD "" else ""))

/-- A counterpart, or an error that names what lacks it. -/
def orUnresolved (found : Option α) (entity function : String) : Except ConversionError α :=
  match found with
  | some a => .ok a
  | none => .error (.unresolved entity function)

/-! ### Parts of message converters -/

/-- What a message converter does about one plain field. -/
structure FieldPart where
  required : Option RequiredCheck := none
  assignment : Option Assignment := none
  unconverted : Option String := none

/-- What a message converter does about one oneof. -/
structure OneofPart where
  required : Option RequiredCheck := none
  mapping : Option OneofMapping := none
  unconverted : List String := []

/-- The converter that the parts belong to. -/
structure Head where
  function : String
  kind : ConverterKind
  shape : Shape
  publicName : String

/-- A plain field on the way down. -/
def downField (w : View) (h : Head) (f : Field) : Traced FieldPart := do
  if h.kind == .toNext && f.deprecated then return {}
  else
    let target ← .lift
      (orUnresolved (if h.kind == .toNext then f.link.next else f.link.final)
        (w.chain.fieldPath f.id) h.function)
    match ← w.action h.kind f.id target target with
    | none => return { unconverted := some f.name }
    | some action =>
      return { assignment := some {
        field := f.id
        side := .ofPublic
        source := f.name
        target := (w.chain.field target).name
        privateSource := none
        repeated := f.repeated
        action } }

/-- Whether the type of a field is deprecated. -/
def typeDeprecated (w : View) (f : Field) : Bool :=
  ((subjectOf f.typeRef).map w.isDeprecated).getD false

/-- The kind of a nested converter on the way up: what is read from the private record alone leads
    to a deprecated type, unless the whole converter reads nothing else. -/
def nestedUp (h : Head) (fromPrivate : Bool) : ConverterKind :=
  if h.kind == .toDeprecatedPublic || (h.shape == .upFromNext && fromPrivate) then
    .toDeprecatedPublic
  else .toPublic

/-- The name of a private field, if the value itself is read from the next version's record. -/
def besides (w : View) (side : Side) (privateField : Option FieldId) : Option String :=
  if side == .ofNext then privateField.map fun f => (w.chain.field f).name else none

/-- A plain field on the way up.  What is deprecated, or has a deprecated type, is read from the
    private record. -/
def upField (w : View) (h : Head) (f : Field) : Traced FieldPart := do
  let fromPrivate := h.shape == .upFromPrivate || f.deprecated || w.typeDeprecated f
  let side : Side := if fromPrivate then .ofPrivate else .ofNext
  let source ← .lift
    (orUnresolved (if fromPrivate then f.link.final else f.link.next)
      (w.chain.fieldPath f.id) h.function)
  let sourceName := (w.chain.field source).name
  let required : Option RequiredCheck :=
    if f.receiveRequired then
      some { side, name := sourceName, target := .field, publicName := f.name }
    else none
  match ← w.action (nestedUp h fromPrivate) f.id source source with
  | none => return { required, unconverted := some f.name }
  | some action =>
    return {
      required
      assignment := some {
        field := f.id
        side
        source := sourceName
        target := f.name
        privateSource := w.besides side f.link.final
        repeated := f.repeated
        action } }

/-- An arm for a variant, or the name of a variant for which there is none. -/
inductive ArmPart where
  | arm (a : VariantArm)
  | unconverted (name : String)
  | skipped

/-- The arm, if there is one. -/
def ArmPart.arm? : ArmPart → Option VariantArm
  | arm a => some a
  | _ => none

/-- The name of the variant, if it has no conversion. -/
def ArmPart.unconverted? : ArmPart → Option String
  | unconverted name => some name
  | _ => none

/-- A variant on the way down. -/
def downArm (w : View) (h : Head) (v : Field) : Traced ArmPart :=
  let target := if h.kind == .toNext then v.link.next else v.link.final
  match (if h.kind == .toNext && v.deprecated then none else target) with
  | none => return .skipped
  | some target => do
    match ← w.action h.kind v.id target target with
    | none => return .unconverted v.name
    | some action =>
      return .arm { source := v.name, target := (w.chain.field target).name, privateSource := none
                    action }

/-- A oneof on the way down. -/
def downOneof (w : View) (h : Head) (o : Oneof) : Traced OneofPart :=
  let target := if h.kind == .toNext then o.link.next else o.link.final
  match (if h.kind == .toNext && o.deprecated then none else target) with
  | none => return {}
  | some target => do
    let parts ← (o.fields.map w.chain.field).mapM (w.downArm h)
    return {
      mapping := some {
        oneof := o.id
        side := .ofPublic
        source := o.name
        target := (w.chain.oneof target).name
        privateSource := none
        arms := parts.filterMap ArmPart.arm? }
      unconverted := parts.filterMap ArmPart.unconverted? }

/-- The variant whose type the nested converter of a variant must work against: its private
    counterpart if the nested converter turns out to lead to a deprecated type. -/
def checkedVariant (w : View) (fromPrivate : Bool) (nested : ConverterKind) (v : Field)
    (source : FieldId) : FieldId :=
  match nested, subjectOf v.typeRef with
  | .toPublic, some s =>
    if w.effective .toPublic s == .toDeprecatedPublic then
      (if fromPrivate then some source else v.link.final).getD source
    else source
  | _, _ => source

/-- A variant on the way up. -/
def upArm (w : View) (h : Head) (fromPrivate : Bool) (v : Field) : Traced ArmPart :=
  let side : Side := if fromPrivate then .ofPrivate else .ofNext
  let source := if fromPrivate then v.link.final else v.link.next
  match (if side == .ofNext && v.deprecated then none else source) with
  | none => return .skipped
  | some source => do
    let nested := nestedUp h fromPrivate
    match ← w.action nested v.id source (w.checkedVariant fromPrivate nested v source) with
    | none => return .unconverted v.name
    | some action =>
      return .arm {
        source := (w.chain.field source).name
        target := v.name
        privateSource := w.besides side v.link.final
        action }

/-- A oneof on the way up. -/
def upOneof (w : View) (h : Head) (o : Oneof) : Traced OneofPart := do
  let fromPrivate := h.shape == .upFromPrivate || o.deprecated
  let side : Side := if fromPrivate then .ofPrivate else .ofNext
  let source ← .lift
    (orUnresolved (if fromPrivate then o.link.final else o.link.next)
      (h.publicName ++ "." ++ o.name) h.function)
  let sourceName := (w.chain.oneof source).name
  let parts ← (o.fields.map w.chain.field).mapM (w.upArm h fromPrivate)
  return {
    required :=
      if o.receiveRequired then
        some { side, name := sourceName, target := .oneof, publicName := o.name }
      else none
    mapping := some {
      oneof := o.id
      side
      source := sourceName
      target := o.name
      privateSource :=
        if side == .ofNext then o.link.final.map fun p => (w.chain.oneof p).name else none
      arms := parts.filterMap ArmPart.arm? }
    unconverted := parts.filterMap ArmPart.unconverted? }

/-! ### Converters -/

/-- The converter of a kind for a message: plain fields first, then oneofs. -/
def messageConverter (w : View) (kind : ConverterKind) (id : MessageId) :
    Traced MessageConverter := do
  let m := w.chain.message id
  let function := kind.functionName m.localName
  if kind.isDown && m.deprecated then .fail (.deprecatedDown m.fullName function)
  else
    let counterpart ← .lift (orUnresolved (w.side kind m.link) m.fullName function)
    let shape := w.shape kind
    let h : Head := { function, kind, shape, publicName := m.fullName }
    let fields ← (w.chain.plainFields id).mapM
      (if shape == .down then w.downField h else w.upField h)
    let oneofs ← (m.oneofs.map w.chain.oneof).mapM
      (if shape == .down then w.downOneof h else w.upOneof h)
    return {
      function
      kind
      shape
      message := id
      publicName := m.fullName
      counterpart
      counterpartName := (w.chain.message counterpart).fullName
      privateMessage := if shape == .upFromNext then m.link.final else none
      required := fields.filterMap (·.required) ++ oneofs.filterMap (·.required)
      assignments := fields.filterMap (·.assignment)
      oneofs := oneofs.filterMap (·.mapping)
      unconverted := fields.filterMap (·.unconverted) ++ oneofs.flatMap (·.unconverted) }

/-- The case of a value on the way down. -/
def downCase (w : View) (kind : ConverterKind) (v : EnumValue) : Option EnumCase :=
  (if kind == .toNext then v.link.next else v.link.final).map fun target =>
    { source := v.name, target := (w.chain.value target).name }

/-- The converter of a kind for an enum, with the receive table that it follows on the way up. -/
def enumConverter (w : View) (kind : ConverterKind) (id : EnumId) :
    Except ConversionError (EnumConverter × Option ReceiveTable) := do
  let e := w.chain.enumeration id
  let function := kind.functionName e.localName
  let counterpart ← orUnresolved (w.side kind e.link) e.fullName function
  if kind.isDown then
    let cases := (e.values.map w.chain.value).filterMap (w.downCase kind)
    let fallback := (w.chain.enumeration counterpart).values.head?.map fun v =>
      (w.chain.value v).name
    return ({ function, kind, enumeration := id, counterpart, cases, fallback }, none)
  else
    let table ← w.chain.receivers id counterpart
    let cases := table.entries.map fun r => { source := r.sourceName, target := r.targetName }
    return ({ function, kind, enumeration := id, counterpart, cases, fallback := none },
      some table)

/-- The converter that a request asks for, with its receive table. -/
def converter (w : View) (r : Request) : Traced (Converter × Option ReceiveTable) :=
  match r.subject with
  | .message m => do return (.message (← w.messageConverter r.kind m), none)
  | .enumeration e => do
    let (spec, table) ← .lift (w.enumConverter r.kind e)
    return (.enumeration spec, table)

end View

end Lineage
