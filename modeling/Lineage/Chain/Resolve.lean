import Lineage.Chain.Declare

namespace Lineage.Chain

/-!
# Linking counterparts

Every node of a public version has a counterpart under its delegate's name, or else under its own.
A deprecated node, and every node of the latest public version, looks for it in the private version;
all others look in the version that follows and take over the private counterpart of what they
find.

* `hopOf` — where a node looks,
* `messageLink`, `enumLink`, `valueLink`, `oneofLink`, `fieldLink`, `methodLink` — the links of one
  node, given those of its owner and of all later versions,
* `resolveVersion` — the links of one version, `resolve` those of all, the latest version first.
-/

/-- The version in which a node looks for its counterpart. -/
inductive Hop where
  | next (version : VersionId)
  | final (version : VersionId)
deriving DecidableEq

/-- The version that is looked in. -/
def Hop.version : Hop → VersionId
  | next v => v
  | final v => v

/-- Whether the private version is looked in. -/
def Hop.isFinal : Hop → Bool
  | next _ => false
  | final _ => true

/-- Where a node of a version looks; the private version has no counterparts. -/
def hopOf (c : Chain) (version : VersionId) (bypass : Bool) : Option Hop :=
  let v := c.version version
  if bypass || v.isLatest then v.link.final.map Hop.final else v.link.next.map Hop.next

/-- The links to what was found by a hop: what lies in the next version brings its own private
    counterpart along. -/
def linkTo {Id : Type} (toFinal : Bool) (found : Id) (foundFinal : Option Id) : Link Id :=
  if toFinal then { next := none, final := some found }
  else { next := some found, final := foundFinal }

/-- What was looked up, or an error. -/
def orMissing (found : Option α) (error : Missing → ChainError) (missing : Missing) :
    Except ChainError α :=
  match found with
  | some a => .ok a
  | none => .error (error missing)

/-! ### Messages and enums -/

/-- The counterpart of an enclosing message in the version of a hop. -/
def parentCounterpart (c : Chain) (parent : Option MessageId) (hop : Hop) : Option MessageId :=
  parent.bind fun m =>
    if hop.isFinal then (c.message m).link.final else (c.message m).link.next

/-- The local name that a type looks for: inside the counterpart of the message that encloses it. -/
def targetName (c : Chain) (parent : Option MessageId) (name : String) (delegate : Option String)
    (hop : Hop) : String :=
  nestedName ((c.parentCounterpart parent hop).map fun m => (c.message m).localName)
    (delegate.getD name)

/-- The links of a message; none in the private version. -/
def messageLink (c : Chain) (m : Message) : Except ChainError (Option (Link MessageId)) :=
  match c.hopOf m.version m.deprecated with
  | none => .ok none
  | some hop => do
    let target := c.targetName m.parent m.name m.delegate hop
    let found ← orMissing (c.findMessage hop.version target) .messageNotFound
      ⟨m.fullName, (c.version hop.version).package, target⟩
    return some (linkTo hop.isFinal found (c.message found).link.final)

/-- The links of an enum; none in the private version. -/
def enumLink (c : Chain) (e : Enum) : Except ChainError (Option (Link EnumId)) :=
  match c.hopOf e.version e.deprecated with
  | none => .ok none
  | some hop => do
    let target := c.targetName e.parent e.name e.delegate hop
    let found ← orMissing (c.findEnum hop.version target) .enumNotFound
      ⟨e.fullName, (c.version hop.version).package, target⟩
    return some (linkTo hop.isFinal found (c.enumeration found).link.final)

/-- The links of a value whose enum is linked: a value bypasses if it is deprecated or its enum
    bypasses. -/
def valueLink (c : Chain) (v : EnumValue) : Except ChainError (Option (Link ValueId)) :=
  let owner := c.enumeration v.enumeration
  let bypass := v.deprecated || owner.link.next.isNone
  match if bypass then owner.link.final else owner.link.next with
  | none => .ok none
  | some target => do
    let name := v.delegate.getD v.name
    let found ← orMissing (c.findValue target name) .enumValueNotFound
      ⟨owner.fullName ++ "." ++ v.name, c.enumPackage target, name⟩
    return some (linkTo bypass found (c.value found).link.final)

/-! ### Members of messages -/

/-- The message in which a member of a message looks. -/
def memberTarget (c : Chain) (message : MessageId) (bypass : Bool) : Option MessageId :=
  let l := (c.message message).link
  if bypass then l.final else l.hop

/-- The private version, as seen from the version of a message. -/
def finalVersion (c : Chain) (message : MessageId) : VersionId :=
  let v := c.version (c.message message).version
  v.link.final.getD v.id

/-- The links of a oneof whose message is linked. -/
def oneofLink (c : Chain) (o : Oneof) : Except ChainError (Option (Link OneofId)) :=
  match c.memberTarget o.message o.deprecated with
  | none => .ok none
  | some target => do
    let name := o.delegate.getD o.name
    let found ← orMissing (c.findOneof target name) .oneofNotFound
      ⟨(c.message o.message).fullName ++ "." ++ o.name, c.messagePackage target, name⟩
    let toFinal := (c.message target).version == c.finalVersion o.message
    return some (linkTo toFinal found (c.oneof found).link.final)

/-- The oneof in which a variant looks, its own oneof being linked. -/
def variantTarget (c : Chain) (f : Field) (o : OneofId) : Option OneofId :=
  let owner := c.oneof o
  if f.deprecated && !owner.deprecated then owner.link.final else owner.link.hop

/-- The counterpart of a field: a plain field's among the fields of the message's counterpart, a
    variant's among the variants of the oneof's counterpart. -/
def fieldTarget (c : Chain) (f : Field) : Except ChainError (Option FieldId) :=
  let name := f.delegate.getD f.name
  let missing (package : String) : Missing := ⟨c.fieldPath f.id, package, name⟩
  match f.oneof with
  | none =>
    match c.memberTarget f.message f.deprecated with
    | none => .ok none
    | some target =>
      (orMissing (c.findField target name) .fieldNotFound (missing (c.messagePackage target))).map
        some
  | some o =>
    match c.variantTarget f o with
    | none => .ok none
    | some target =>
      (orMissing (c.findVariant target name) .fieldNotFound
        (missing (c.messagePackage (c.oneof target).message))).map some

/-- The links of a field to its counterpart. -/
def fieldLink (c : Chain) (f : Field) (found : FieldId) : Link FieldId :=
  let toFinal := (c.message (c.field found).message).version == c.finalVersion f.message
  linkTo toFinal found (c.field found).link.final

/-! ### Methods -/

/-- The links of a method; none in the private version. -/
def methodLink (c : Chain) (m : Method) : Except ChainError (Option (Link MethodId)) :=
  match c.hopOf m.version m.deprecated with
  | none => .ok none
  | some hop => do
    let name := m.delegate.getD m.name
    let package := (c.version m.version).package
    let found ← orMissing (c.findMethod hop.version name) .methodNotFound
      ⟨package ++ "." ++ m.name, (c.version hop.version).package, name⟩
    return some (linkTo hop.isFinal found (c.method found).link.final)

/-! ### Whole versions -/

/-- A message with its links. -/
def resolveMessage (c : Chain) (id : MessageId) : Except ChainError Chain := do
  match ← c.messageLink (c.message id) with
  | some link => return c.modifyMessage id fun m => { m with link }
  | none => return c

/-- An enum value with its links. -/
def resolveValue (c : Chain) (id : ValueId) : Except ChainError Chain := do
  match ← c.valueLink (c.value id) with
  | some link => return c.modifyValue id fun v => { v with link }
  | none => return c

/-- An enum, then its values. -/
def resolveEnum (c : Chain) (id : EnumId) : Except ChainError Chain := do
  match ← c.enumLink (c.enumeration id) with
  | some link =>
    (c.enumeration id).values.foldlM resolveValue (c.modifyEnum id fun e => { e with link })
  | none => return c

/-- A oneof with its links. -/
def resolveOneof (c : Chain) (id : OneofId) : Except ChainError Chain := do
  match ← c.oneofLink (c.oneof id) with
  | some link => return c.modifyOneof id fun o => { o with link }
  | none => return c

/-- Counterparts that plain, living fields of a message have taken, with the fields. -/
abbrev Claimed := List (FieldId × FieldId)

/-- A plain, living field takes its counterpart for itself. -/
def claim (c : Chain) (f : Field) (found : FieldId) (claimed : Claimed) :
    Except ChainError Claimed :=
  if f.oneof.isNone && !f.deprecated then
    match claimed.lookup found with
    | some first =>
      .error (.ambiguousDelegate (c.fieldPath first) (c.fieldPath f.id) (c.fieldPath found))
    | none => .ok ((found, f.id) :: claimed)
  else .ok claimed

/-- A field with its links, and what it claims. -/
def resolveField (state : Chain × Claimed) (id : FieldId) :
    Except ChainError (Chain × Claimed) := do
  let (c, claimed) := state
  let f := c.field id
  match ← c.fieldTarget f with
  | none => return state
  | some found =>
    let claimed ← c.claim f found claimed
    let link := c.fieldLink f found
    return (c.modifyField id fun f => { f with link }, claimed)

/-- The oneofs of a message, then its fields. -/
def resolveMembers (c : Chain) (id : MessageId) : Except ChainError Chain := do
  let c ← (c.message id).oneofs.foldlM resolveOneof c
  let (c, _) ← (c.message id).fields.foldlM resolveField (c, [])
  return c

/-- A method with its links. -/
def resolveMethod (c : Chain) (id : MethodId) : Except ChainError Chain := do
  match ← c.methodLink (c.method id) with
  | some link => return c.modifyMethod id fun m => { m with link }
  | none => return c

/-- Messages, enums, members of messages, methods. -/
def resolveVersion (c : Chain) (v : Version) : Except ChainError Chain := do
  let c ← v.messages.foldlM resolveMessage c
  let c ← v.enums.foldlM resolveEnum c
  let c ← v.messages.foldlM resolveMembers c
  v.methods.foldlM resolveMethod c

/-- All public versions, the latest first, so that later links exist when they are taken over. -/
def resolve (c : Chain) : Except ChainError Chain :=
  c.publicVersions.reverse.foldlM resolveVersion c

end Lineage.Chain
