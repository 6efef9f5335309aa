import Lineage.Annotation.Style
import Lineage.Proofs.Text.Words

namespace Lineage.Annotation

open Text

/-!
# Annotations as they are written

What can be said about a declaration, and the two ways to write it.

* `Facts`, `Facts.Writable` — what is said, in texts that both ways can write,
* `Comments.Directive`, `Facts.StatedBy` — directives that state the facts, over any number of
  lines,
* `Comments.LineWritten`, `BlockWritten`, `Facts.InComments` — comments in which these directives
  are written,
* `Options.WritesConstraints`, … , `Facts.InOptions` — options in whose payloads the facts are
  written.

Neither way is given by how it is read: a comment is a text whose lines hold directives between
prose, an option is a JSON object.
-/

/-! ### Facts -/

/-- What the author of a schema says about a declaration. -/
structure Facts where
  delegate : Option String := none
  deprecated : Bool := false
  validate : ValidateDirectives := {}
  receive : ReceiveDirectives := {}
deriving DecidableEq

/-- Every text is a word, and members are at least one, without commas. -/
structure Facts.Writable (f : Facts) : Prop where
  delegate : ∀ d, f.delegate = some d → IsWord d.toList
  min : ∀ t, f.validate.min = some t → IsWord t.toList
  max : ∀ t, f.validate.max = some t → IsWord t.toList
  members : ∀ ms, f.validate.members = some ms →
    ms ≠ [] ∧ ∀ m ∈ ms, IsWord m.toList ∧ ',' ∉ m.toList
  format : ∀ t, f.validate.format = some t → IsWord t.toList
  names : ∀ n ∈ f.receive.names, IsWord n.toList

/-! ### Comments -/

namespace Comments

/-- What a directive says. -/
structure Directive where
  verb : Verb
  pairs : List Pair := []
deriving DecidableEq

/-- The values of a key, in order. -/
def valuesOf (key : String) (ps : List Pair) : List String :=
  (ps.filter (·.key == key)).map (·.value)

/-- The pairs of each directive with a verb. -/
def linesOf (verb : Verb) (ds : List Directive) : List (List Pair) :=
  (ds.filter (·.verb == verb)).map (·.pairs)

/-- Everything that is given is the fact, and if nothing is given there is none. -/
def Stated {α : Type} (given : List α) (fact : Option α) : Prop :=
  (∀ v ∈ given, fact = some v) ∧ (given = [] → fact = none)

/-- Every flag that is given is the fact, and if none is given it does not hold. -/
def Flagged (given : List String) (fact : Bool) : Prop :=
  (∀ v ∈ given, v = if fact then "true" else "false") ∧ (given = [] → fact = false)

/-- The keys of constraints. -/
def constraintKeys : List String := ["required", "min", "max", "in", "is"]

/-- The keys of demands. -/
def demandKeys : List String := ["required", "name"]

/-- Pairs that state constraints. -/
structure StatesConstraints (d : ValidateDirectives) (ps : List Pair) : Prop where
  keys : ∀ p ∈ ps, p.key ∈ constraintKeys
  required : Flagged (valuesOf "required" ps) d.required
  min : Stated (valuesOf "min" ps) d.min
  max : Stated (valuesOf "max" ps) d.max
  /-- Members are separated by commas. -/
  members : Stated (valuesOf "in" ps)
    (d.members.map fun ms => String.ofList ([','].intercalate (ms.map String.toList)))
  format : Stated (valuesOf "is" ps) d.format

/-- Pairs that state demands. -/
structure StatesDemands (d : ReceiveDirectives) (ps : List Pair) : Prop where
  keys : ∀ p ∈ ps, p.key ∈ demandKeys
  required : Flagged (valuesOf "required" ps) d.required
  names : valuesOf "name" ps = d.names

/-- Something other than a directive: after its indent it does not begin with the tag and
    a blank. -/
def Prose (line : List Char) : Prop :=
  ∀ indent c rest, Blanks indent → isBlank c = true → line ≠ indent ++ (tag ++ c :: rest)

/-- A line of a comment: a directive, whose words are any blanks apart, or prose. -/
inductive LineWritten : Option Directive → List Char → Prop where
  | prose {line : List Char} : Prose line → LineWritten none line
  | directive {d : Directive} {indent rest : List Char} : Blanks indent →
      Spaced (d.verb.name.toList :: d.pairs.map (·.token.toList)) rest →
      LineWritten (some d) (indent ++ (tag ++ rest))

/-- A comment with some directives on its lines. -/
def BlockWritten (ds : List Directive) (block : String) : Prop :=
  ∃ said lines, block.toList = ['\n'].intercalate lines ∧ lines ≠ [] ∧ (∀ l ∈ lines, '\n' ∉ l) ∧
    List.Forall₂ LineWritten said lines ∧ said.reduceOption = ds

end Comments

open Lineage.Annotation.Comments in
/-- Directives that state the facts. -/
structure Facts.StatedBy (f : Facts) (ds : List Directive) : Prop where
  delegate : Stated (linesOf .delegate ds) (f.delegate.map fun d => [⟨"name", d⟩])
  deprecated : f.deprecated = true ↔ linesOf .deprecated ds ≠ []
  bare : ∀ ps ∈ linesOf .deprecated ds, ps = []
  validate : StatesConstraints f.validate (linesOf .validate ds).flatten
  receive : StatesDemands f.receive (linesOf .receive ds).flatten

open Lineage.Annotation.Comments in
/-- The facts are written in the comments of a declaration. -/
def Facts.InComments (f : Facts) (carrier : Carrier) : Prop :=
  ∃ blocks, List.Forall₂ BlockWritten blocks
    (carrier.comments.leading :: carrier.comments.detached) ∧ f.StatedBy blocks.flatten

/-! ### Options -/

namespace Options

/-- An entry that has a value, or is left out if the value is the default. -/
def Entered {α : Type} (entries : List (String × Json)) (name : String) (writes : α → Json → Prop)
    (default value : α) : Prop :=
  match entries.lookup name with
  | none => value = default
  | some j => writes value j

/-- A value that is `null` if it is missing. -/
def WritesOption {α : Type} (writes : α → Json → Prop) : Option α → Json → Prop
  | none, j => j = .null
  | some a, j => writes a j

/-- The value is the text. -/
def WritesText (s : String) (j : Json) : Prop := j = .string s

/-- The value is the truth value. -/
def WritesFlag (b : Bool) (j : Json) : Prop := j = .bool b

/-- The value is an array whose items are written one by one. -/
def WritesList {α : Type} (writes : α → Json → Prop) (xs : List α) (j : Json) : Prop :=
  ∃ items, j = .array items ∧ List.Forall₂ writes xs items

/-- A bound or member, as a text or as the number or truth value that the text denotes. -/
inductive Spells : String → Json → Prop where
  | text (s : String) : Spells s (.string s)
  | yes : Spells "true" (.bool true)
  | no : Spells "false" (.bool false)
  | integer (n : Int) : Spells (toString n) (.integer n)
  | float {x : Binary64} : x.isFinite = true → Spells (Decimal.Layout.json.text x) (.float x)

/-- An object that has entries of the given names only. -/
def WritesObject (names : List String) (enters : List (String × Json) → Prop) (j : Json) : Prop :=
  ∃ entries, j = .object entries ∧ (∀ e ∈ entries, e.1 ∈ names) ∧ enters entries

/-- An object with the delegate's name; without a name it is the empty one. -/
def WritesDelegate (d : String) : Json → Prop :=
  WritesObject ["name"] fun es => Entered es "name" WritesText "" d

/-- Entries that state the constraints of a field or oneof. -/
structure EntersConstraints (d : ValidateDirectives) (es : List (String × Json)) : Prop where
  required : Entered es "required" WritesFlag false d.required
  min : Entered es "min" (WritesOption Spells) none d.min
  max : Entered es "max" (WritesOption Spells) none d.max
  members : Entered es "in" (WritesOption (WritesList Spells)) none d.members
  format : Entered es "is" (WritesOption WritesText) none d.format

/-- An object that states constraints and has no other entries. -/
def WritesConstraints (d : ValidateDirectives) : Json → Prop :=
  WritesObject ["required", "min", "max", "in", "is"] (EntersConstraints d)

/-- Entries that state what is received of a field, oneof or value. -/
structure EntersDemands (d : ReceiveDirectives) (es : List (String × Json)) : Prop where
  required : Entered es "required" WritesFlag false d.required
  names : Entered es "names" (WritesList WritesText) [] d.names

/-- An object that states demands and has no other entries. -/
def WritesDemands (d : ReceiveDirectives) : Json → Prop :=
  WritesObject ["required", "names"] (EntersDemands d)

/-- Entries that state the facts; constraints and demands may be missing if there are none. -/
structure EntersFacts (f : Facts) (es : List (String × Json)) : Prop where
  delegate : Entered es "delegate" (WritesOption WritesDelegate) none f.delegate
  deprecated : Entered es "deprecated" WritesFlag false f.deprecated
  validate : ∃ o : Option ValidateDirectives, o.getD {} = f.validate ∧
    Entered es "validate" (WritesOption WritesConstraints) none o
  receive : ∃ o : Option ReceiveDirectives, o.getD {} = f.receive ∧
    Entered es "receive" (WritesOption WritesDemands) none o

end Options

open Lineage.Annotation.Options in
/-- The facts are written in the option of a declaration, which may be missing if there are none. -/
def Facts.InOptions (f : Facts) (kind : EntityKind) (carrier : Carrier) : Prop :=
  match Sorted.get? carrier.options (extensionKey kind) with
  | none => f = {}
  | some j => WritesObject ["delegate", "deprecated", "validate", "receive"] (EntersFacts f) j

/-! ### Answers -/

/-- A source answers all four questions about a declaration with the facts. -/
structure Facts.AnsweredBy (f : Facts) (source : AnnotationSource) (kind : EntityKind)
    (carrier : Carrier) : Prop where
  delegate : source.delegate? kind carrier = .ok f.delegate
  deprecated : source.isDeprecated kind carrier = .ok f.deprecated
  validate : source.validate kind carrier = .ok f.validate
  receive : source.receive kind carrier = .ok f.receive

end Lineage.Annotation
