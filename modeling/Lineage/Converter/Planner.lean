import Lineage.Converter.Specify
import Lineage.Sorted

namespace Lineage

/-!
# Specifying what is reached

A planner specifies the converters that it is asked for and all that these ask for in turn.  What
was asked for most recently is specified first, and nothing is asked for twice.

* `Planner` — the converters specified so far and the requests still pending,
* `Planner.enqueue` — one request, `Planner.specify` — one pending request specified,
* `Planner.drain` — until nothing is pending or a converter fails,
* `Planner.requestMessage`, `Planner.downAction` — what others ask for.

A failure leaves the planner as it is at that moment: what was asked for before stays pending.
-/

/-- The converters of one public version, as far as they are specified. -/
structure Planner where
  view : View
  /-- The specified converters, by name. -/
  converters : List (String × Converter) := []
  /-- The names asked for so far. -/
  queued : List String := []
  /-- What is still to be specified, the latest request first. -/
  pending : List Request := []
  /-- The tables behind the enum converters that lead up. -/
  tables : List ReceiveTable := []

namespace Planner

/-- Ask for a converter, unless its name was asked for before. -/
def enqueue (p : Planner) (r : Request) : Planner :=
  let name := (p.view.reference r).function
  if p.queued.contains name then p
  else { p with queued := name :: p.queued, pending := r :: p.pending }

/-- A specified converter, with its table. -/
def add (p : Planner) (c : Converter × Option ReceiveTable) : Planner :=
  { p with
    converters := Sorted.insert c.1.function c.1 p.converters
    tables := p.tables ++ c.2.toList }

/-- A planner after an attempt: either may have changed it. -/
abbrev Outcome (α : Type) := Planner × Except ConversionError α

/-- Specify a request that is pending no more. -/
def specify (p : Planner) (r : Request) : Outcome Unit :=
  let t := p.view.converter r
  let p := t.requests.foldl enqueue p
  match t.result with
  | .ok c => (p.add c, .ok ())
  | .error e => (p, .error e)

/-- Specify what is pending, but at most so many converters. -/
def drainWithin : Nat → Planner → Outcome Unit
  | 0, p => (p, .ok ())
  | n + 1, p =>
    match p.pending with
    | [] => (p, .ok ())
    | r :: rest =>
      match specify { p with pending := rest } r with
      | (p, .ok _) => drainWithin n p
      | (p, .error e) => (p, .error e)

/-- More requests than can ever be pending: every type of the chain in each of the four kinds. -/
def budget (p : Planner) : Nat :=
  4 * (p.view.chain.messages.size + p.view.chain.enums.size + 2) + p.pending.length

/-- Specify everything that is pending. -/
def drain (p : Planner) : Outcome Unit := drainWithin p.budget p

/-- Ask for the converter of a message and all that it needs.  A deprecated message is answered
    with the converter that leads up from the private version. -/
def requestMessage (p : Planner) (kind : ConverterKind) (m : MessageId) : Outcome ConverterRef :=
  let r := p.view.request kind (.message m)
  match drain (p.enqueue r) with
  | (p, .ok _) => (p, .ok (p.view.reference r))
  | (p, .error e) => (p, .error e)

/-- Ask how the value of a field gets down to another one, with all that is needed for it.  There is
    no action if the kinds do not fit. -/
def downAction (p : Planner) (kind : ConverterKind) (field target : FieldId) :
    Outcome (Option Action) :=
  let t := p.view.action kind field target target
  let p := t.requests.foldl enqueue p
  match t.result with
  | .error e => (p, .error e)
  | .ok action =>
    match p.drain with
    | (p, .ok _) => (p, .ok action)
    | (p, .error e) => (p, .error e)

end Planner

end Lineage
