import Lineage.Annotation.Basic

namespace Lineage.Annotation.Comments

open Text

/-!
# Annotations in comments

A comment line `gen:svc <verb> key=value …` is a directive; all other lines are prose.

* `directive?` — the verb and the tokens of a line that is a directive,
* `argumentsOf` — the tokens of every line with a given verb, line by line,
* `delegate?`, `isDeprecated`, `validate`, `receive` — the four readings of a carrier.

A delegate is read off the first pair of the first line; of the other verbs every line counts, a
later pair replacing an earlier one of the same key.
-/

/-- The word that begins a directive. -/
def tag : List Char := "gen:svc".toList

/-- The verb and the tokens of a directive line.  The tag ends at a blank. -/
def directive? (line : List Char) : Option (List Char × List (List Char)) :=
  match after? tag line with
  | some (c :: rest) =>
    match isBlank c, wordsOf rest with
    | true, verb :: tokens => some (verb, tokens)
    | _, _ => none
  | _ => none

/-- The tokens of every line of a carrier that has the given verb. -/
def argumentsOf (verb : Verb) (carrier : Carrier) : List (List (List Char)) :=
  carrier.comments.lines.filterMap fun line =>
    match directive? line.toList with
    | some (v, tokens) => if v == verb.name.toList then some tokens else none
    | none => none

/-- A key with its value. -/
structure Pair where
  key : String
  value : String
deriving DecidableEq

/-- The token that a pair was written as. -/
def Pair.token (p : Pair) : String := p.key ++ "=" ++ p.value

/-- A token cut at its first equals sign. -/
def pair (verb : Verb) (token : List Char) : Except AnnotationError Pair :=
  match cutAt? (· == '=') token with
  | some (k, v) => .ok ⟨String.ofList k, String.ofList v⟩
  | none => .error (.malformedToken verb (String.ofList token))

/-- The pairs of one line; each of its tokens has to be one. -/
def pairs (verb : Verb) (tokens : List (List Char)) : Except AnnotationError (List Pair) :=
  tokens.mapM (pair verb)

/-- The value of a pair that is `true` or `false`. -/
def flag (verb : Verb) (p : Pair) : Except AnnotationError Bool :=
  if p.value == "true" then .ok true
  else if p.value == "false" then .ok false
  else .error (.malformedToken verb p.token)

/-- The delegate named by the first pair of the first delegate line. -/
def delegate? (carrier : Carrier) : Except AnnotationError (Option String) :=
  match argumentsOf .delegate carrier with
  | [] => .ok none
  | tokens :: _ => do
    match ← pairs .delegate tokens with
    | [] => return none
    | p :: _ => if p.key == "name" then return some p.value else throw (.invalidDelegateKey p.key)

/-- A deprecated line suffices, whatever else it says. -/
def isDeprecated (carrier : Carrier) : Bool := !(argumentsOf .deprecated carrier).isEmpty

/-- One constraint more. -/
def addConstraint (d : ValidateDirectives) (p : Pair) :
    Except AnnotationError ValidateDirectives :=
  match p.key with
  | "required" => (flag .validate p).map fun b => { d with required := b }
  | "min" => .ok { d with min := some p.value }
  | "max" => .ok { d with max := some p.value }
  | "in" => .ok { d with members := some (splitAt ',' p.value) }
  | "is" => .ok { d with format := some p.value }
  | _ => .error (.malformedToken .validate p.token)

/-- One demand more. -/
def addDemand (d : ReceiveDirectives) (p : Pair) : Except AnnotationError ReceiveDirectives :=
  match p.key with
  | "required" => (flag .receive p).map fun b => { d with required := b }
  | "name" => .ok { d with names := d.names ++ [p.value] }
  | _ => .error (.malformedToken .receive p.token)

/-- The pairs of all lines of a verb, line by line, put into a record one by one. -/
def collect (verb : Verb) (add : α → Pair → Except AnnotationError α) (empty : α)
    (carrier : Carrier) : Except AnnotationError α :=
  (argumentsOf verb carrier).foldlM (fun d tokens => do (← pairs verb tokens).foldlM add d) empty

/-- The constraints that the comments of a declaration state. -/
def validate (carrier : Carrier) : Except AnnotationError ValidateDirectives :=
  collect .validate addConstraint {} carrier

/-- The demands that the comments of a declaration state. -/
def receive (carrier : Carrier) : Except AnnotationError ReceiveDirectives :=
  collect .receive addDemand {} carrier

end Lineage.Annotation.Comments
