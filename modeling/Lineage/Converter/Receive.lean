import Lineage.Converter.Basic

namespace Lineage.Chain

/-!
# Which values are received as which

Going up, every value of a counterpart becomes at most one public value.  A public value claims its
delegate, then whatever its annotation names.  Of two values with one delegate the first keeps it;
an explicit claim on a value that another holds is refused.

* `canonicalClaims`, `explicitClaims` — the two rounds of claims,
* `receivers` — the table for a public enum and its counterpart.
-/

/-- A public value's claim on a value of the counterpart. -/
structure ClaimOn where
  holder : ValueId
  source : ValueId
  claim : Claim
deriving DecidableEq

/-- The public value that holds a value so far. -/
def holderOf (claims : List ClaimOn) (source : ValueId) : Option ValueId :=
  (claims.find? (·.source == source)).map (·.holder)

/-- The full name of a value. -/
def valuePath (c : Chain) (v : ValueId) : String :=
  (c.enumeration (c.value v).enumeration).fullName ++ "." ++ (c.value v).name

/-- The delegate of a public value in a counterpart of its enum. -/
def delegateIn (c : Chain) (source : EnumId) (v : ValueId) : Option ValueId :=
  let link := (c.value v).link
  let delegate := if (c.version (c.enumeration source).version).isPrivate then link.final
    else link.next
  delegate.filter fun d => (c.value d).enumeration == source

/-- A public value claims its delegate, unless an earlier one has it. -/
def addCanonical (c : Chain) (source : EnumId) (claims : List ClaimOn) (v : ValueId) :
    List ClaimOn :=
  match c.delegateIn source v with
  | none => claims
  | some d => if (holderOf claims d).isSome then claims else claims ++ [⟨v, d, .canonical⟩]

/-- A public value claims a value by name. -/
def addExplicit (c : Chain) (source : EnumId) (v : ValueId) (claims : List ClaimOn)
    (name : String) : Except ConversionError (List ClaimOn) :=
  match c.findValue source name with
  | none => .error (.receiveValueNotFound (c.valuePath v) (c.enumeration source).fullName name)
  | some received =>
    match holderOf claims received with
    | none => .ok (claims ++ [⟨v, received, .explicit⟩])
    | some holder =>
      if holder == v then .ok claims
      else .error (.receiveConflict (c.valuePath received) (c.valuePath holder) (c.valuePath v))

/-- The claims of canonical delegates, a value after the other. -/
def canonicalClaims (c : Chain) (source : EnumId) (values : List ValueId) : List ClaimOn :=
  values.foldl (c.addCanonical source) []

/-- Some claims together with those that public values make by name. -/
def explicitClaims (c : Chain) (source : EnumId) (values : List ValueId) (claims : List ClaimOn) :
    Except ConversionError (List ClaimOn) :=
  values.foldlM (fun claims v => (c.value v).receive.foldlM (c.addExplicit source v) claims) claims

/-- A claim as an entry of a table. -/
def receiveEntry (c : Chain) (k : ClaimOn) : Receive :=
  { source := k.source, sourceName := (c.value k.source).name
    target := k.holder, targetName := (c.value k.holder).name, claim := k.claim }

/-- What the values of a counterpart are received as. -/
def receivers (c : Chain) (enumeration source : EnumId) : Except ConversionError ReceiveTable := do
  let values := (c.enumeration enumeration).values
  let claims ← c.explicitClaims source values (c.canonicalClaims source values)
  return {
    enumeration
    source
    entries := values.flatMap fun v => (claims.filter (·.holder == v)).map c.receiveEntry }

end Lineage.Chain
