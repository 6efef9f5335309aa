import Lineage.Chain.Basic
import Lineage.Decimal.Layout
import Lineage.Decimal.Literal

namespace Lineage

/-!
# Validation rules

* `Number` — a bound: an integer of sixty-four bits, signed or not, or a binary64 number,
* `Format` — the formats a text can be checked against,
* `Rule`   — one check of a field's value,
* `MessageRules` — everything a validator checks about one message.
-/

/-! ### Bounds and formats -/

/-- A numeric bound. -/
inductive Number where
  /-- An integer between `-2 ^ 63` and `2 ^ 64 - 1`. -/
  | integer (n : Int)
  | float (x : Binary64)
deriving DecidableEq

namespace Number

/-- Whether an integer is one of sixty-four bits with a sign. -/
def isInt64 (n : Int) : Bool := -0x8000000000000000 ≤ n && n < 0x8000000000000000

/-- Whether an integer is one of sixty-four bits without a sign. -/
def isUInt64 (n : Int) : Bool := 0 ≤ n && n < 0x10000000000000000

/-- The number a text denotes: an integer if it is one of sixty-four bits, else a
    binary64 number. -/
def ofText? (text : String) : Option Number :=
  match Decimal.integer? text.toList with
  | some n =>
    if isInt64 n || isUInt64 n then some (integer n) else (Decimal.float? text.toList).map float
  | none => (Decimal.float? text.toList).map float

/-- The integer, if it is one. -/
def integer? : Number → Option Int
  | integer n => some n
  | float _ => none

/-- The nearest binary64 number. -/
def toFloat : Number → Binary64
  | integer n => .ofInt n
  | float x => x

/-- The number in decimal digits, never with an exponent. -/
def text : Number → String
  | integer n => toString n
  | float x => Decimal.Layout.plain.text x

end Number

/-- A format that texts are checked against. -/
inductive Format where
  | uuid
  | email
  | url
deriving DecidableEq

namespace Format

/-- How a format is spelled. -/
def name : Format → String
  | uuid => "uuid"
  | email => "email"
  | url => "url"

/-- The format of a name in any case. -/
def ofName? (name : String) : Option Format :=
  [uuid, email, url].find? (·.name.toList == name.toList.map Char.toLower)

end Format

/-! ### Rules -/

/-- The members of a membership rule, of one type. -/
inductive MemberSet where
  | bools (members : List Bool)
  | ints (members : List Int)
  | uints (members : List Int)
  | floats (members : List Binary64)
  | strings (members : List String)
  /-- Byte strings, by the texts that they encode. -/
  | bytes (members : List String)
  | enumValues (names : List String)
deriving DecidableEq

/-- One check of a field. -/
inductive Rule where
  /-- The field must be set. -/
  | required
  /-- The nested message must pass its own validator. -/
  | nested (message : MessageId)
  | format (format : Format)
  | oneOf (members : MemberSet)
  /-- The number lies within inclusive bounds. -/
  | range (min max : Option Number)
  /-- The number of characters lies within inclusive bounds; the upper bound zero is none. -/
  | length (min max : Nat)
deriving DecidableEq

/-- The rules of one field, in the order in which they are checked. -/
structure FieldRules where
  field : FieldId
  name : String
  rules : List Rule
deriving DecidableEq

/-- A oneof of which a variant must be set. -/
structure OneofRules where
  oneof : OneofId
  name : String
  required : Bool
deriving DecidableEq

/-- What the validator of a message checks. -/
structure MessageRules where
  message : MessageId
  /-- The name of the validator, such as `ValidateCreateRequest`. -/
  function : String
  /-- The fields that have rules, in their order. -/
  fields : List FieldRules
  oneofs : List OneofRules
deriving DecidableEq

/-- The rules of a field, none if the message has none for it. -/
def MessageRules.rulesFor (m : MessageRules) (field : FieldId) : List Rule :=
  ((m.fields.find? (·.field == field)).map (·.rules)).getD []

/-- The name of the validator of a message. -/
def validatorName (localName : String) : String := "Validate" ++ typeIdent localName

/-! ### Errors -/

/-- Which end of a range a bound stands for. -/
inductive BoundKey where
  | min
  | max
deriving DecidableEq

/-- How a bound is spelled. -/
def BoundKey.name : BoundKey → String
  | min => "min"
  | max => "max"

/-- Why constraints cannot become rules; each names the field by its full name. -/
inductive RuleError where
  | invalidBound (field : String) (key : BoundKey) (value : String)
  /-- A fraction for integers, a number out of range, or a negative length. -/
  | boundKindMismatch (field : String) (key : BoundKey) (value kind : String)
  | rangeOnUnsupportedKind (field kind : String)
  | unknownFormat (field value : String)
  | formatOnNonString (field format kind : String)
  | mixedMembers (field members : String)
  | membersKindMismatch (field members kind : String)
  | unknownEnumMember (field member enumeration : String)
deriving DecidableEq

/-- What is wrong, in words. -/
def RuleError.message : RuleError → String
  | invalidBound field key value =>
    "invalid " ++ key.name ++ " value '" ++ value ++ "' for field " ++ field
  | boundKindMismatch field key value kind =>
    key.name ++ " value '" ++ value ++ "' does not fit " ++ kind ++ " field " ++ field
  | rangeOnUnsupportedKind field kind => "min/max not supported on " ++ kind ++ " field " ++ field
  | unknownFormat field value =>
    "invalid validate \"is\" value '" ++ value ++ "' on field " ++ field
  | formatOnNonString field format kind =>
    "format '" ++ format ++ "' requires a string field, " ++ field ++ " is " ++ kind
  | mixedMembers field members => "mixed-type \"in\" members on field " ++ field ++ ": " ++ members
  | membersKindMismatch field members kind =>
    "\"in\" members " ++ members ++ " do not fit " ++ kind ++ " field " ++ field
  | unknownEnumMember field member enumeration =>
    "invalid value " ++ member ++ " for enum " ++ enumeration ++ " on field " ++ field

end Lineage
